import Emsd.Safety.Headers

/-!
# What EROP_invokeReq reports (`userin.c`)

`FSM_runMachine` passes no failure of an action on, so once `EROP_invokeReq` has run the machine it
returns `SUCCESS`; before that it has taken an `InvokeInfo` from the pool.

* `invokeReq_truthful_iff`: **`SUCCESS` means that the invocation is on its way** if and only if the
  request fails before the machine runs, or there are a reference number, the data units and a timer.
* `invokeReq_atomic_iff`: **a request that fails leaves everything as it was** if and only if it is not
  one with a parameter that is too large for a SAP that exists.
-/

namespace Erop

open Ocp Engine

variable {cfg : Config} {e e' : Engine} {inp : Input} {f : Fire} {o : List Out} {i : InvokeId}
  {c : Ctx} {m : Machine} {sel : SapSel} {req : InvokeReq} {env : Env} {sap : SapInfo}

/-- The invocation is on its way: it has a reference number, its INVOKE PDU is kept, and its
retransmission timer is armed. -/
structure OnItsWay (req : InvokeReq) (e' : Engine) (i : InvokeId) : Prop where
  kept : ∃ v, e'.heap i = some v ∧ ∃ r : Nat, v.invokeRefNu = r ∧ r < totalRefNumbers ∧
    i ∈ e'.refs.invoker r ∧ v.invokePduSeq = [builtRequest req r]
  armed : ∃ td ∈ e'.tmrQu i, td.name = .invokePduRetranTimer

/-- **`EROP_invokeReq` tells the truth**: `SUCCESS` comes with the descriptor of an invocation that is
on its way, and otherwise it returns a failure. -/
structure Truthful (req : InvokeReq) (e' : Engine) (o : List Out) : Prop where
  success : .ret 0 ∈ o → ∃ i, .invokeDesc i ∈ o ∧ OnItsWay req e' i
  failure : .ret 0 ∉ o → .ret (-1) ∈ o

/-- The parameter of the request is larger than a PDU can be. -/
def TooLarge (cfg : Config) (req : InvokeReq) : Prop :=
  ∃ d, req.parameter = some d ∧ cfg.invokePduSize < d.length

/-- Some reference number is not in use for the peer. -/
def NumberFree (e : Engine) (req : InvokeReq) : Prop :=
  ∃ r < totalRefNumbers, inUse e.nsapOf (e.refs.invoker r) req.remNsap = false

/-- There are a view for the parameter or for the header, another one to retrieve the PDU with, and a
buffer for the header if there is no parameter. -/
def DataFree (env : Env) (req : InvokeReq) : Prop :=
  2 ≤ env.views ∧ (req.parameter = none → 1 ≤ env.bufs)

/-- What the machine needs for the request. -/
structure Carries (cfg : Config) (e : Engine) (env : Env) (req : InvokeReq) : Prop where
  fits : ((req.parameter.getD []).length : Int) ≤ cfg.invokePduSize
  number : NumberFree e req
  data : DataFree env req
  timer : env.tmrCreate = true

/-! ## The Start action -/

/-- What is retrieved, there are the data units for. -/
theorem invokerKeep_isSome :
    (invokerKeep c m).2.isSome = true ↔ takesData m c.invokeReq.parameter = true := by
  unfold invokerKeep invokePdu
  cases hp : c.invokeReq.parameter with
  | some d =>
    -- the header goes in front of the parameter
    simp only [duFor, Option.map_some, keepInvokePdu, takesData, decide_eq_true_eq]
    rw [Option.isSome_iff_exists]
    simp only [pduRetrieve_eq_some]
    constructor
    · rintro ⟨_, hv, -⟩
      exact hv
    · intro hv
      cases hseq : m.invoke.invokePduSeq with
      | nil => exact ⟨_, hv, rfl⟩
      | cons du rest => exact ⟨du, hv, rfl⟩
  | none =>
    by_cases ha : duAllocOk m.views m.bufs = true
    · simp only [duFor, ha, if_true, Option.map_some, keepInvokePdu, takesData, Bool.true_and,
        decide_eq_true_eq]
      rw [Option.isSome_iff_exists]
      simp only [pduRetrieve_eq_some]
      constructor
      · rintro ⟨_, hv, -⟩
        omega
      · intro hv
        have hleft : 0 < m.views - 1 := by omega
        cases hseq : m.invoke.invokePduSeq with
        | nil => exact ⟨_, hleft, rfl⟩
        | cons du rest => exact ⟨du, hleft, rfl⟩
    · simp [duFor, ha, takesData]

/-- Without them no timer is armed. -/
theorem invokerInvokeReq_unarmed (hdata : takesData m c.invokeReq.parameter = false) :
    (invokerInvokeReq c m).1.tmrQu = m.tmrQu := by
  have hassign : (invokerAssign c m).1.tmrQu = m.tmrQu := rfl
  have hno : (invokerKeep c (invokerAssign c m).1).2 = none := by
    rw [← Option.not_isSome_iff_eq_none, invokerKeep_isSome]
    -- the reference number takes no data unit
    have hsame : takesData (invokerAssign c m).1 c.invokeReq.parameter =
        takesData m c.invokeReq.parameter := rfl
    rw [hsame, hdata]
    decide
  unfold invokerInvokeReq
  dsimp only
  split
  · rfl
  · split
    · exact hassign
    · rw [hno]
      exact invokerKeep_tmrQu.trans hassign

/-- **INVOKE.request arms the timer** of a new machine exactly with a parameter that fits, a reference
number, the data units and a timer; and then it is sent. -/
theorem invokerInvokeReq_armed (hq : m.tmrQu = []) : (invokerInvokeReq c m).1.tmrQu ≠ [] ↔
    ((c.invokeReq.parameter.getD []).length : Int) ≤ c.cfg.invokePduSize ∧
      (requestRef c m).2 ≠ -1 ∧ takesData m c.invokeReq.parameter = true ∧ c.env.tmrCreate = true := by
  constructor
  · intro hne
    have hdata : takesData m c.invokeReq.parameter = true := by
      by_contra hno
      exact hne ((invokerInvokeReq_unarmed (by simpa using hno)).trans hq)
    have hfits : ((c.invokeReq.parameter.getD []).length : Int) ≤ c.cfg.invokePduSize := by
      by_contra hlarge
      refine hne ?_
      unfold invokerInvokeReq
      rw [if_pos (by omega)]
      exact hq
    -- nothing done, sent, or a reference number but no PDU
    rcases invokerInvokeReq_spec c m with h | h | ⟨_, h, -⟩
    · rw [h] at hne
      exact absurd hq hne
    · refine ⟨hfits, h.number, hdata, ?_⟩
      by_contra hno
      refine hne ?_
      rw [h.tmrQu, hq, armed, if_neg hno]
      rfl
    · exact absurd (h.tmrQu.trans (by rw [hq]; rfl)) hne
  · rintro ⟨hfits, hnum, hdata, htmr⟩
    rw [(invokerInvokeReq_sent hfits hnum hdata).tmrQu, armed, if_pos htmr]
    exact List.append_ne_nil_of_right_ne_nil _ (List.cons_ne_nil _ [])

/-! ## The machine of a request -/

/-- The machine that a request runs, if it runs one. -/
theorem fires_request (hsap : e.getSapInfo sel = some sap) (hpool : env.seqElemObtain = true)
    (hfits : ¬TooLarge cfg req) : ∃ f, fires cfg e ⟨.invokeReq sel req, env⟩ = some f ∧
      step cfg e ⟨.invokeReq sel req, env⟩ = some (f.engine, f.out) ∧ f.c.cfg = cfg ∧
      f.e = e.newInvoker sap ∧ f.v = invokerInfo sap ∧ f.c.nsapOf = (e.newInvoker sap).nsapOf := by
  -- the test of the size in `EROP_invokeReq`
  have hlarge : (req.parameter.any fun d => decide ((d.length : Int) > cfg.invokePduSize)) = false := by
    rw [Bool.eq_false_iff]
    intro hany
    obtain ⟨d, hd, hlt⟩ := (Option.any_eq_true _ _).1 hany
    exact hfits ⟨d, hd, of_decide_eq_true hlt⟩
  have hnew : (e.newInvoker sap).heap e.nextId = some (invokerInfo sap) := Function.update_self ..
  have hf : ∃ f, fires cfg e ⟨.invokeReq sel req, env⟩ = some f ∧ f.c.cfg = cfg ∧
      f.e = e.newInvoker sap ∧ f.v = invokerInfo sap ∧ f.c.nsapOf = (e.newInvoker sap).nsapOf := by
    simp only [fires, hsap, Option.bind_some, hpool, hlarge, hnew, Option.map_some]
    exact ⟨_, rfl, rfl, rfl, rfl, rfl⟩
  obtain ⟨f, hf, hrest⟩ := hf
  refine ⟨f, hf, ?_, hrest⟩
  have hsome : (step cfg e ⟨.invokeReq sel req, env⟩).isSome = true := by
    simp only [step, Engine.invokeReq, hsap, hpool, hlarge, hnew]
    rfl
  obtain ⟨⟨e', o⟩, hs⟩ := Option.isSome_iff_exists.1 hsome
  rcases step_cases hs with ⟨g, hg, rfl, rfl⟩ | ⟨hno, -⟩
  · obtain rfl : f = g := Option.some.inj (hf.symm.trans hg)
    exact hs
  · rw [hf] at hno
    cases hno

/-- What the run of a new machine for a request comes to. -/
structure RunsRequest (e : Engine) (f : Fire) (req : InvokeReq) (env : Env) : Prop where
  self : f.c.self = e.nextId
  asked : f.c.invokeReq = { req with parameter := (linkParameter env req.parameter).2 }
  calls : f.c.env = (linkParameter env req.parameter).1
  refs : f.before.refs = e.refs
  tmrQu : f.before.tmrQu = []
  seq : f.before.invoke.invokePduSeq = []
  role : f.before.invoke.performingNotInvoking = false
  after : ∃ s', f.after = setState s' (invokerInvokeReq f.c f.before).1
  out : f.out = (invokerInvokeReq f.c f.before).1.out ++ [.invokeDesc e.nextId, .ret 0]

theorem runsRequest (h : fires cfg e ⟨.invokeReq sel req, env⟩ = some f) :
    RunsRequest e f req env := by
  obtain ⟨ho, -⟩ := fires_origin h
  have henv := fires_invokeReq h
  obtain ⟨⟨sap, d, hk⟩, hevt, hreq⟩ := ho.requested
  obtain ⟨act, s', ht⟩ := hk.takes
  have hrow := ht.row
  rw [hevt] at hrow
  -- a new machine is in the state whose only row for this event is the Start action
  have hact : act = invokerInvokeReq f.c := by
    generalize d.state = s at hrow
    cases hrow
    rfl
  subst hact
  have hinvoker : d.isPerformer = false := by
    have he := hk.evt
    rw [hevt] at he
    by_contra hp
    rw [if_pos (by simpa using hp)] at he
    cases he
  refine ⟨hk.self, hreq, henv, ho.refs, hk.tmrQu_self, ?_, ?_, ⟨s', ht.after⟩, ?_⟩
  · rw [Fire.before_invoke, hk.v]
    rfl
  · rw [Fire.before_invoke, hk.v]
    exact hinvoker
  · unfold Fire.out
    rw [ht.after_out, ht.ret, hk.extra, hinvoker]
    rfl

/-- The machine hands nothing but a PDU out. -/
theorem invokerInvokeReq_out (ho : m.out = []) :
    ∀ x ∈ (invokerInvokeReq c m).1.out, ∃ w t n du b, x = .udp w t n du b := by
  intro x hx
  rcases invokerInvokeReq_spec c m with h | h | ⟨_, h, -⟩
  · rw [h, ho] at hx
    cases hx
  · rw [h.out, ho, List.nil_append] at hx
    rw [List.mem_singleton.1 hx]
    exact ⟨_, _, _, _, _, rfl⟩
  · rw [h.out, ho] at hx
    cases hx

/-- An output of the run of a request: it is the PDU, the descriptor, or `SUCCESS`. -/
theorem RunsRequest.mem_out (h : RunsRequest e f req env) {x : Out} (hx : x ∈ f.out) :
    (∃ w t n du b, x = .udp w t n du b) ∨ x = .invokeDesc e.nextId ∨ x = .ret 0 := by
  rw [h.out] at hx
  rcases List.mem_append.1 hx with hx | hx
  · exact .inl (invokerInvokeReq_out rfl x hx)
  · right
    simpa using hx

theorem RunsRequest.success (h : RunsRequest e f req env) :
    .invokeDesc e.nextId ∈ f.out ∧ .ret 0 ∈ f.out := by
  rw [h.out]
  exact ⟨List.mem_append_right _ List.mem_cons_self,
    List.mem_append_right _ (List.mem_cons_of_mem _ List.mem_cons_self)⟩

/-- A view is left after the parameter has been linked, and a buffer if it has none. -/
theorem linked_takesData (hv : m.views = (linkParameter env req.parameter).1.views)
    (hb : m.bufs = (linkParameter env req.parameter).1.bufs) :
    takesData m (linkParameter env req.parameter).2 = true ↔ DataFree env req := by
  unfold DataFree
  cases hp : req.parameter with
  | none =>
    rw [hp] at hv hb
    simp only [linkParameter] at hv hb ⊢
    simp only [takesData, duAllocOk, hv, hb, Bool.and_eq_true, decide_eq_true_eq, forall_const]
    omega
  | some d =>
    rw [hp] at hv hb
    simp only [linkParameter] at hv hb ⊢
    by_cases hany : 0 < env.views
    · simp only [if_pos hany, takesData, hv, decide_eq_true_eq]
      constructor
      · intro h
        exact ⟨by omega, fun hno => by cases hno⟩
      · rintro ⟨h, -⟩
        omega
    · simp only [if_neg hany, takesData, duAllocOk, hv, Bool.and_eq_true, decide_eq_true_eq]
      constructor
      · rintro ⟨⟨h, -⟩, -⟩
        omega
      · rintro ⟨h, -⟩
        omega

theorem linked_parameter (hd : DataFree env req) :
    (linkParameter env req.parameter).2 = req.parameter := by
  cases req.parameter with
  | none => rfl
  | some d => exact if_pos (by have := hd.1; omega)

/-- The new `InvokeInfo` is in no queue of the maps yet, so its address does not count. -/
theorem inUse_newInvoker (hw : WF e) (r : Nat) (nsap : NSapAddr) :
    inUse (e.newInvoker sap).nsapOf (e.refs.invoker r) nsap =
      inUse e.nsapOf (e.refs.invoker r) nsap := by
  -- those in the maps are older than the new one
  have hsame : ∀ j ∈ e.refs.invoker r, (e.newInvoker sap).nsapOf j = e.nsapOf j := by
    intro j hj
    obtain ⟨v, hv, -⟩ := hw.refs.invoker.live r j hj
    have hne : j ≠ e.nextId := Nat.ne_of_lt (hw.linked.lt hv)
    have hheap : (e.newInvoker sap).heap j = e.heap j := by
      simp [Engine.newInvoker, Engine.invokeInfoCreate, hne]
    unfold Engine.nsapOf
    rw [hheap]
  unfold inUse
  rw [Bool.eq_iff_iff, List.any_eq_true, List.any_eq_true]
  constructor
  · rintro ⟨j, hj, h⟩
    rw [hsame j hj] at h
    exact ⟨j, hj, h⟩
  · rintro ⟨j, hj, h⟩
    rw [← hsame j hj] at h
    exact ⟨j, hj, h⟩

/-- **`erop_refNew`** has a number for the request exactly if one is free for the peer. -/
theorem requestRef_free (hw : WF e) (h : RunsRequest e f req env)
    (hns : f.c.nsapOf = (e.newInvoker sap).nsapOf) :
    (requestRef f.c f.before).2 ≠ -1 ↔ NumberFree e req := by
  have haddr : (invokeReqFields f.c f.before.invoke).remNsapAddr = req.remNsap := by
    show f.c.invokeReq.remNsap = _
    rw [h.asked]
  have hrole : (invokeReqFields f.c f.before.invoke).performingNotInvoking = false := h.role
  unfold NumberFree requestRef
  constructor
  · intro hnum
    rcases refNew_cases f.before.refs f.c.nsapOf f.c.self (invokeReqFields f.c f.before.invoke) with
      ⟨hno, -⟩ | ⟨r, -, hr, -, hfree, -⟩
    · exact absurd hno hnum
    · rw [haddr, hns, h.refs, inUse_newInvoker hw] at hfree
      exact ⟨r, hr, hfree⟩
  · rintro ⟨r, hr, hfree⟩ hno
    have hused := refNew_exhausted hrole hno r hr
    rw [haddr, hns, h.refs, inUse_newInvoker hw, hfree] at hused
    cases hused

/-- **The timer of the new machine is armed** exactly if all that the request needs is there. -/
theorem RunsRequest.armed_iff (h : RunsRequest e f req env) (hw : WF e) (hcfg : f.c.cfg = cfg)
    (hns : f.c.nsapOf = (e.newInvoker sap).nsapOf) :
    f.after.tmrQu ≠ [] ↔ Carries cfg e env req := by
  obtain ⟨s', hafter⟩ := h.after
  have htmr : f.after.tmrQu = (invokerInvokeReq f.c f.before).1.tmrQu := by rw [hafter]; rfl
  have hviews : f.before.views = (linkParameter env req.parameter).1.views := by
    rw [← h.calls]
    rfl
  have hbufs : f.before.bufs = (linkParameter env req.parameter).1.bufs := by
    rw [← h.calls]
    rfl
  have hcreate : f.c.env.tmrCreate = env.tmrCreate := by
    rw [h.calls]
    cases req.parameter <;> rfl
  rw [htmr, invokerInvokeReq_armed h.tmrQu, requestRef_free hw h hns, hcfg, hcreate, h.asked]
  dsimp only
  rw [linked_takesData hviews hbufs]
  constructor
  · rintro ⟨hfits, hnum, hdata, ht⟩
    rw [linked_parameter hdata] at hfits
    exact ⟨hfits, hnum, hdata, ht⟩
  · rintro ⟨hfits, hnum, hdata, ht⟩
    rw [linked_parameter hdata]
    exact ⟨hfits, hnum, hdata, ht⟩

/-- **Then the invocation is on its way.** -/
theorem RunsRequest.onItsWay (h : RunsRequest e f req env) (hw : WF e) (hcfg : f.c.cfg = cfg)
    (hns : f.c.nsapOf = (e.newInvoker sap).nsapOf) (hc : Carries cfg e env req) :
    OnItsWay req f.engine e.nextId := by
  have harmed := (h.armed_iff hw hcfg hns).2 hc
  obtain ⟨s', hafter⟩ := h.after
  have htmr : f.after.tmrQu = (invokerInvokeReq f.c f.before).1.tmrQu := by rw [hafter]; rfl
  rw [htmr] at harmed
  obtain ⟨hfits, hnum, hdata, ht⟩ := (invokerInvokeReq_armed h.tmrQu).1 harmed
  have hsent := invokerInvokeReq_sent hfits hnum hdata
  have hpar : f.c.invokeReq.parameter = req.parameter := by
    rw [h.asked]
    exact linked_parameter hc.data
  rw [← h.self]
  constructor
  · obtain ⟨r, hr, hlt, -, -, hfiled, -⟩ := (refNew_cases f.before.refs f.c.nsapOf f.c.self
      (invokeReqFields f.c f.before.invoke)).resolve_left fun hno => hnum hno.1
    have hpdu : requestPdu f.c f.before = builtRequest req r := by
      unfold requestPdu builtRequest requestRef
      rw [hr, hpar, h.asked]
    refine ⟨f.after.invoke, Fire.engine_heap_self, r, ?_, hlt, ?_, ?_⟩
    · rw [hafter]
      show (invokerInvokeReq f.c f.before).1.invoke.invokeRefNu = r
      rw [hsent.invoke]
      exact hr
    · rw [Fire.engine_refs, hafter]
      show f.c.self ∈ (invokerInvokeReq f.c f.before).1.refs.invoker r
      rw [hsent.refs]
      unfold requestRef
      rw [hfiled, Function.update_self]
      exact List.mem_append_right _ (List.mem_singleton_self _)
    · rw [hafter]
      show (invokerInvokeReq f.c f.before).1.invoke.invokePduSeq = [builtRequest req r]
      rw [hsent.invoke]
      show f.before.invoke.invokePduSeq ++ [requestPdu f.c f.before] = _
      rw [h.seq, hpdu]
      rfl
  · have hqueue : f.after.tmrQu = [⟨.invokePduRetranTimer,
        (invokeReqFields f.c f.before.invoke).retransTimeout, 0⟩] := by
      rw [htmr, hsent.tmrQu, h.tmrQu, armed, if_pos ht]
      rfl
    rw [Fire.engine_tmrQu_self, hqueue]
    exact ⟨_, List.mem_singleton_self _, rfl⟩

/-! ## What is reported -/

/-- A request that fails before its machine runs. -/
inductive FailsEarly (cfg : Config) (e : Engine) (sel : SapSel) (req : InvokeReq) (env : Env) : Prop
  | unbound (h : e.getSapInfo sel = none)
  | exhausted (h : env.seqElemObtain = false)
  | tooLarge (h : TooLarge cfg req)

/-- The parameter is only looked at after an `InvokeInfo` has been taken from the pool for the SAP. -/
def TakesFirst (cfg : Config) (e : Engine) (sel : SapSel) (req : InvokeReq) (env : Env) : Prop :=
  e.getSapInfo sel ≠ none ∧ env.seqElemObtain = true ∧ TooLarge cfg req

/-- Such a request returns a failure and runs no machine; it leaves the `InvokeInfo` behind that it has
taken. -/
theorem FailsEarly.step (h : FailsEarly cfg e sel req env) :
    ∃ e', step cfg e ⟨.invokeReq sel req, env⟩ = some (e', [.ret (-1)]) ∧
      fires cfg e ⟨.invokeReq sel req, env⟩ = none ∧
      (¬TakesFirst cfg e sel req env ∧ e' = e ∨
        TakesFirst cfg e sel req env ∧ ∃ sap, e' = e.invokeInfoCreate sap) := by
  cases hsap : e.getSapInfo sel with
  | none =>
    refine ⟨e, ?_, ?_, .inl ⟨fun ht => ht.1 hsap, rfl⟩⟩
    · simp only [Erop.step, Engine.invokeReq, hsap]
    · simp only [fires, hsap, Option.bind_none]
  | some sap =>
    by_cases hpool : env.seqElemObtain = false
    · refine ⟨e, ?_, ?_, .inl ⟨fun ht => ?_, rfl⟩⟩
      · simp only [Erop.step, Engine.invokeReq, hsap, hpool, if_true]
      · simp only [fires, hsap, Option.bind_some, hpool, if_true]
      · exact absurd (hpool.symm.trans ht.2.1) (by decide)
    · have hlarge : TooLarge cfg req := by
        cases h with
        | unbound hno =>
          rw [hsap] at hno
          cases hno
        | exhausted hno => exact absurd hno hpool
        | tooLarge h => exact h
      have hany : (req.parameter.any fun d => decide ((d.length : Int) > cfg.invokePduSize)) = true := by
        obtain ⟨d, hd, hlt⟩ := hlarge
        exact (Option.any_eq_true _ _).2 ⟨d, hd, decide_eq_true hlt⟩
      have htakes : TakesFirst cfg e sel req env := by
        refine ⟨?_, by simpa using hpool, hlarge⟩
        rw [hsap]
        exact Option.some_ne_none _
      refine ⟨e.invokeInfoCreate sap.id, ?_, ?_, .inr ⟨htakes, sap.id, rfl⟩⟩
      · simp only [Erop.step, Engine.invokeReq, hsap, hpool, hany, if_true]
        rfl
      · simp only [fires, hsap, Option.bind_some, hpool, hany, if_true]
        rfl

/-- Otherwise the machine runs. -/
theorem runs_of_not_failsEarly (h : ¬FailsEarly cfg e sel req env) :
    ∃ sap, e.getSapInfo sel = some sap ∧ env.seqElemObtain = true ∧ ¬TooLarge cfg req := by
  cases hsap : e.getSapInfo sel with
  | none => exact absurd (.unbound hsap) h
  | some sap =>
    refine ⟨sap, rfl, ?_, fun hlarge => h (.tooLarge hlarge)⟩
    by_contra hpool
    exact h (.exhausted (by simpa using hpool))

/-- **`EROP_invokeReq` tells the truth** if and only if it fails before the machine runs, or all that the
machine needs is there. -/
theorem invokeReq_truthful_iff {hist : List Out} (hr : Run.Reach (engine cfg) Run.any hist e)
    (sel : SapSel) (req : InvokeReq) (env : Env) :
    ∃ e' o, step cfg e ⟨.invokeReq sel req, env⟩ = some (e', o) ∧
      (Truthful req e' o ↔ FailsEarly cfg e sel req env ∨ Carries cfg e env req) := by
  by_cases hearly : FailsEarly cfg e sel req env
  · obtain ⟨e', hs, -⟩ := hearly.step
    refine ⟨e', _, hs, iff_of_true ⟨fun hret => ?_, fun _ => List.mem_singleton_self _⟩ (.inl hearly)⟩
    simp at hret
  · obtain ⟨sap, hsap, hpool, hfits⟩ := runs_of_not_failsEarly hearly
    obtain ⟨f, hf, hs, hcfg, -, -, hns⟩ := fires_request hsap hpool hfits
    have hruns := runsRequest hf
    have hw : WF e := .reach hr
    refine ⟨_, _, hs, ?_⟩
    constructor
    · intro ht
      obtain ⟨i, hdesc, hway⟩ := ht.success hruns.success.2
      -- the descriptor can only be that of the new `InvokeInfo`
      have hi : i = f.c.self := by
        rcases hruns.mem_out hdesc with ⟨_, _, _, _, _, hx⟩ | hx | hx
        · cases hx
        · cases hx
          exact hruns.self.symm
        · cases hx
      obtain ⟨td, htd, -⟩ := hway.armed
      rw [hi, Fire.engine_tmrQu_self] at htd
      exact .inr ((hruns.armed_iff hw hcfg hns).1 (List.ne_nil_of_mem htd))
    · rintro (hno | hc)
      · exact absurd hno hearly
      · refine ⟨fun _ => ⟨e.nextId, hruns.success.1, hruns.onItsWay hw hcfg hns hc⟩, fun hno => ?_⟩
        exact absurd hruns.success.2 hno

/-- **A request that fails leaves everything as it was**: the engine, and the caller's data unit, which
`DU_link` is called for right before the machine runs. -/
structure Atomic (cfg : Config) (e : Engine) (inp : Input) (e' : Engine) (o : List Out) : Prop where
  engine : .ret (-1) ∈ o → e' = e
  unlinked : .ret (-1) ∈ o → fires cfg e inp = none

/-- **A request that fails leaves everything as it was** if and only if it is not one with a parameter
that is too large, for a SAP that exists, while there are free `InvokeInfo`s. -/
theorem invokeReq_atomic_iff (cfg : Config) (e : Engine) (sel : SapSel) (req : InvokeReq) (env : Env) :
    ∃ e' o, step cfg e ⟨.invokeReq sel req, env⟩ = some (e', o) ∧
      (Atomic cfg e ⟨.invokeReq sel req, env⟩ e' o ↔ ¬TakesFirst cfg e sel req env) := by
  by_cases hearly : FailsEarly cfg e sel req env
  · obtain ⟨e', hs, hno, ⟨hnot, hkept⟩ | ⟨htakes, sap, rfl⟩⟩ := hearly.step
    · exact ⟨e', _, hs, iff_of_true ⟨fun _ => hkept, fun _ => hno⟩ hnot⟩
    · refine ⟨_, _, hs, iff_of_false (fun ha => ?_) fun hnot => hnot htakes⟩
      -- an `InvokeInfo` more has been taken
      have hsame := congrArg Engine.nextId (ha.engine (List.mem_singleton_self _))
      exact absurd hsame (Nat.succ_ne_self _)
  · obtain ⟨sap, hsap, hpool, hfits⟩ := runs_of_not_failsEarly hearly
    obtain ⟨f, hf, hs, -⟩ := fires_request hsap hpool hfits
    have hruns := runsRequest hf
    -- once the machine has run, `SUCCESS` is returned
    have hfailure : .ret (-1) ∉ f.out := by
      intro hx
      rcases hruns.mem_out hx with ⟨_, _, _, _, _, hx⟩ | hx | hx
      · cases hx
      · cases hx
      · cases hx
    exact ⟨_, _, hs, iff_of_true ⟨fun hx => absurd hx hfailure, fun hx => absurd hx hfailure⟩
      fun htakes => hfits htakes.2.2⟩

/-! ## Runs -/

/-- A request with one octet. -/
def octetRequest : InvokeReq := ⟨7, 2, [0, 7], [10, 0, 0, 1], 5, .ber, some [42]⟩

/-- With all that it needs, the request is on its way. -/
theorem invokeReq_truthful_first : ∃ hist e e' o, Run.Reach (engine {}) Run.any hist e ∧
    step {} e ⟨.invokeReq 1 octetRequest, {}⟩ = some (e', o) ∧ Truthful octetRequest e' o := by
  obtain ⟨e, hist, hr, hp⟩ := Run.Reach.of_run_any (S := engine {}) ⟨0, rfl⟩ [⟨.sapBind 1 3, {}⟩]
    (fun e _ => e.refs.invoker 1 = []) (by decide)
  obtain ⟨e', o, hs, htruth⟩ := invokeReq_truthful_iff hr 1 octetRequest {}
  refine ⟨hist, e, e', o, hr, hs, htruth.2 (.inr ⟨by decide, ⟨1, by decide, ?_⟩, ?_, rfl⟩)⟩
  · rw [of_decide_eq_true hp]
    rfl
  · exact ⟨by decide, fun hno => by cases hno⟩

/-- **Without a free data unit** the request returns `SUCCESS` all the same: no PDU is kept, and no timer
is armed. -/
theorem success_untrue : ∃ hist e e' v, Run.Reach (engine {}) Run.any hist e ∧
    step {} e ⟨.invokeReq 1 octetRequest, { views := 0 }⟩ = some (e', [.invokeDesc 0, .ret 0]) ∧
    e'.heap 0 = some v ∧ v.invokePduSeq = [] ∧ e'.tmrQu 0 = [] ∧
    ¬Truthful octetRequest e' [.invokeDesc 0, .ret 0] := by
  obtain ⟨e, hist, hr, hp⟩ := Run.Reach.of_run_any (S := engine {}) ⟨0, rfl⟩ [⟨.sapBind 1 3, {}⟩]
    (fun e _ => (step {} e ⟨.invokeReq 1 octetRequest, { views := 0 }⟩).any fun (r : Engine × List Out) =>
      decide (r.2 = [.invokeDesc 0, .ret 0] ∧ (r.1.heap 0).map (·.invokePduSeq) = some [] ∧
        r.1.tmrQu 0 = [])) (by decide)
  obtain ⟨⟨e', o⟩, hs, hp⟩ := (Option.any_eq_true _ _).1 hp
  obtain ⟨rfl, hheap, htmr⟩ := of_decide_eq_true hp
  obtain ⟨v, hv, hseq⟩ := Option.map_eq_some_iff.1 hheap
  refine ⟨hist, e, e', v, hr, hs, hv, hseq, htmr, fun ht => ?_⟩
  obtain ⟨i, hdesc, hway⟩ := ht.success (by decide)
  obtain rfl : i = 0 := by simpa using hdesc
  obtain ⟨td, htd, -⟩ := hway.armed
  rw [htmr] at htd
  cases htd

/-- A request with one octet more than a PDU can have. -/
def largeRequest : InvokeReq := { octetRequest with parameter := some (List.replicate 1501 0) }

/-- **A request with a parameter that is too large** fails, and its `InvokeInfo` stays on the `invokeSeq`
of the SAP. -/
theorem failure_leaks : ∃ hist e e', Run.Reach (engine {}) Run.any hist e ∧
    step {} e ⟨.invokeReq 1 largeRequest, {}⟩ = some (e', [.ret (-1)]) ∧
    (e.getSapInfo 1).map (·.invokeSeq) = some [] ∧ (e'.getSapInfo 1).map (·.invokeSeq) = some [0] ∧
    ¬Atomic {} e ⟨.invokeReq 1 largeRequest, {}⟩ e' [.ret (-1)] := by
  obtain ⟨e, hist, hr, hp⟩ := Run.Reach.of_run_any (S := engine {}) ⟨0, rfl⟩ [⟨.sapBind 1 3, {}⟩]
    (fun e _ => decide ((e.getSapInfo 1).map (·.invokeSeq) = some []) &&
      (step {} e ⟨.invokeReq 1 largeRequest, {}⟩).any fun (r : Engine × List Out) =>
        decide (r.2 = [Out.ret (-1)] ∧ (r.1.getSapInfo 1).map (·.invokeSeq) = some [0]))
    (by decide +kernel)
  obtain ⟨hbefore, hp⟩ := Bool.and_eq_true_iff.1 hp
  obtain ⟨⟨e', o⟩, hs, hp⟩ := (Option.any_eq_true _ _).1 hp
  obtain ⟨rfl, hafter⟩ := of_decide_eq_true hp
  refine ⟨hist, e, e', hr, hs, of_decide_eq_true hbefore, hafter, fun ha => ?_⟩
  rw [ha.engine (List.mem_singleton_self _), of_decide_eq_true hbefore] at hafter
  exact absurd hafter (by decide)

end Erop
