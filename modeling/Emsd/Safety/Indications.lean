import Emsd.Life.Refinement
import Emsd.Safety.Outcomes

/-!
# INVOKE.indication: at most once, and not swallowed

* `no_second_indication`: while a 3-way performer `InvokeInfo` is alive, its request is not
  indicated again, in every run in which no INVOKE PDU is indicated on an `InvokeInfo` whose
  release is pending. With such a PDU it may be (`second_indication`).
* `invoke_processed_iff`: exactly when a received INVOKE PDU is indicated.
-/

namespace Erop

open Ocp Life Run

variable {cfg : Config} {e e' e'' : Engine} {inp : Input} {f : Fire} {o hist hist' : List Out}
  {i j : InvokeId} {v w : InvokeInfo} {t : Task} {c : Ctx} {s s' : State} {evt : Evt}
  {act : Machine → Machine × SuccFail}

/-! ## Inversion of an indication -/

/-- A row that shows a request starts the machine on the INVOKE PDU. -/
theorem row_shown (h : Row c s evt act s') (ht : t ∈ rowTasks c v s evt) (hm : t.mark = .shown) :
    s.phase = .ended true ∧ c.env.memGet = true ∧ t = invokeTask c := by
  by_cases hreq : evt = .invokeReq
  · rw [(row_request h hreq).2] at ht
    cases ht
  have hmove : Move true s.phase ((rowTasks c v s evt).map Task.mark) s'.phase :=
    row_move h hreq (by simp)
  have hend : s.phase = .ended true := by
    refine (hmove.of_shown (List.mem_map.2 ⟨t, ht, hm⟩)).resolve_left ?_
    cases s <;> simp [State.phase]
  rw [(row_arrival h hend).2.2] at ht
  obtain ⟨h1, h2⟩ := mem_told ht
  exact ⟨hend, h2, h1⟩

/-- The machine that an indication comes from. -/
structure ShownBy (cfg : Config) (e : Engine) (inp : Input) (f : Fire) (s : State) (t : Task) :
    Prop where
  fires : fires cfg e inp = some f
  takes : ∃ act s', f.Takes s act s'
  start : s.phase = .ended true
  memGet : inp.env.memGet = true
  task : t = invokeTask f.c

theorem shown_inv (hs : step cfg e inp = some (e', o)) (ht : .sch t ∈ o) (hm : t.mark = .shown) :
    ∃ f s, ShownBy cfg e inp f s t ∧ e' = f.engine := by
  obtain ⟨f, hf, he, ht⟩ := sch_of_step hs ht
  obtain ⟨-, hc⟩ := fires_origin hf
  rcases f.cases with hn | ⟨s, act, s', htk⟩
  · rw [hn.tasks] at ht
    cases ht
  · rw [htk.tasks] at ht
    obtain ⟨h1, h2, h3⟩ := row_shown htk.row ht hm
    exact ⟨f, s, ⟨hf, ⟨act, s', htk⟩, h1, hc.memGet ▸ h2, h3⟩, he⟩

theorem row_arrival_invoke {m : Machine} (h : Row c s evt act s') (hf : c.Fits evt)
    (hp : s.phase = .ended true) : (act m).1.invoke = invokeFields c m.invoke := by
  cases h with
  | invoke => exact (trClPerformer01_does hf).invoke
  | invoke2 => exact (tr2ClPerformer01_does hf).invoke
  | invokeReq fu | retran fu | last fu | failure fu | invokerRelease fu | dupInvoke fu
  | noResponse fu | internal fu | resend fu | lateInvoke fu | performerRelease fu =>
    cases fu <;> cases hp
  | _ => cases hp

namespace ShownBy

variable (h : ShownBy cfg e inp f s t)
include h

/-- What the PDU has stored in the `InvokeInfo`. -/
theorem after : ∃ s', f.after.invoke = { invokeFields f.c f.v with curState := some s' } := by
  obtain ⟨act, s', ht⟩ := h.takes
  obtain ⟨-, hc⟩ := fires_origin h.fires
  refine ⟨s', ?_⟩
  rw [ht.after_invoke, row_arrival_invoke ht.row hc.fits h.start]
  rfl

/-- A new machine on a PDU that is no duplicate, or a restart. -/
theorem cases (hl : Linked e) :
    (∃ sap, sap ∈ e.saps ∧ f.v = Engine.performerInfo sap ∧
        (∀ i ∈ sap.invokeSeq, e.isDuplicate f.c.pdu i = false)) ∨
      (Restarts e inp f.c.self ∧ e.heap f.c.self = some f.v) := by
  obtain ⟨act, s', ht⟩ := h.takes
  obtain ⟨ho, -⟩ := fires_origin h.fires
  have hevt := (row_arrival ht.row h.start).1
  rcases ho.kind with ⟨sap, d, hk⟩ | ⟨v, q, hk⟩
  · cases ho with
    | arrival hev hread htype hsap hnew hself he hv _ hpdu =>
      rw [hpdu]
      exact .inl ⟨_, Engine.getSapInfo_mem hsap, hv, hnew⟩
    | request _ _ _ _ _ he => rw [he] at hevt; cases hevt
    | duplicate _ _ _ _ _ _ hv => rw [hk.fresh hl] at hv; cases hv
    | answer _ _ _ _ _ _ hold => rw [hk.fresh hl] at hold; cases hold
    | timer _ hself _ _ hv => rw [← hself, hk.fresh hl] at hv; cases hv
    | reply _ _ _ _ he => rw [he] at hevt; cases hevt
  · refine .inr ⟨ho.restarts hl hk ht h.start, ?_⟩
    cases ho with
    | duplicate _ _ _ _ _ _ hv => exact hv
    | request _ _ _ _ _ he => rw [he] at hevt; cases hevt
    | arrival _ _ _ _ _ hself =>
      have := hl.lt hk.heap
      lia
    | @answer _ _ _ pdu _ _ _ _ _ htype _ _ _ _ _ _ he =>
      rw [he] at hevt
      cases hp : pdu.pdutype <;> rw [hp] at hevt htype <;> simp [PduType.evt] at hevt htype
    | timer _ _ _ _ _ he =>
      have := TmrName.evt_isTimer he
      rw [hevt] at this
      cases this
    | reply _ _ _ _ he => rw [he] at hevt; cases hevt

end ShownBy

/-! ## At most once -/

/-- Two `InvokeInfo`s for one request: of one SAP, with one number and one address. -/
structure SameRequest (v w : InvokeInfo) : Prop where
  locSap : w.locSap = v.locSap
  invokeRefNu : w.invokeRefNu = v.invokeRefNu
  remNsapAddr : nSapAddrCmp w.remNsapAddr v.remNsapAddr = 0

instance : Decidable (SameRequest v w) :=
  decidable_of_iff (w.locSap = v.locSap ∧ w.invokeRefNu = v.invokeRefNu ∧
      nSapAddrCmp w.remNsapAddr v.remNsapAddr = 0)
    ⟨fun ⟨h₁, h₂, h₃⟩ => ⟨h₁, h₂, h₃⟩, fun ⟨h₁, h₂, h₃⟩ => ⟨h₁, h₂, h₃⟩⟩

/-- No INVOKE PDU is indicated on a 3-way `InvokeInfo` whose release is pending. -/
def NoReindication (e : Engine) (inp : Input) : Prop :=
  ∀ j u, e.heap j = some u → u.transDiag = some .clPerformer → Restarts e inp j →
    inp.env.memGet = false

/-- A step that indicates the request of a live 3-way performer indicates it on a machine that it
restarts. -/
theorem shown_restarts (h : WF e) (hv : e.heap i = some v) (h3 : v.transDiag = some .clPerformer)
    (hs : step cfg e inp = some (e', o)) (ht : .sch t ∈ o) (hm : t.mark = .shown)
    (hw : e'.heap t.invoke = some w) (hsame : SameRequest v w) :
    inp.env.memGet = true ∧ ∃ u, e.heap t.invoke = some u ∧ u.transDiag = some .clPerformer ∧
      Restarts e inp t.invoke := by
  obtain ⟨f, s, hsh, rfl⟩ := shown_inv hs ht hm
  obtain ⟨ho, hc⟩ := fires_origin hsh.fires
  have hself : t.invoke = f.c.self := by rw [hsh.task]; rfl
  obtain ⟨s', hafter⟩ := hsh.after
  rw [hself] at hw ⊢
  obtain rfl : f.after.invoke = w := by simpa using hw
  refine ⟨hsh.memGet, ?_⟩
  rcases hsh.cases h.linked with ⟨sap, hmem, hfv, hnew⟩ | ⟨hre, hheap⟩
  · -- a new machine: the live `InvokeInfo` would have been found first
    exfalso
    have hloc : v.locSap = sap.id := by
      rw [← hsame.locSap, hafter, hfv]
      rfl
    have hi := (h.linked.mem sap hmem i).2 ⟨v, hv, hloc⟩
    have hd := hnew i hi
    have hr : v.invokeRefNu = f.c.pdu.invokeRefNu := by
      rw [← hsame.invokeRefNu, hafter]
      rfl
    have ha : nSapAddrCmp v.remNsapAddr f.c.pdu.fromNsapAddr = 0 := by
      have := hsame.remNsapAddr
      rw [hafter] at this
      exact nSapAddrCmp_comm.1 this
    simp [Engine.isDuplicate, hv, hr, ha] at hd
  · refine ⟨f.v, hheap, ?_, hre⟩
    -- the two are on one SAP, which has one functional unit
    obtain ⟨⟨tsap, nsap, data, pdu, sap, -, -, -, hsap, hfind⟩, u, hu, hcur⟩ := hre
    obtain rfl : f.v = u := by simpa [hheap] using hu
    have hmem := Engine.getSapInfo_mem hsap
    obtain ⟨u', hu', hloc⟩ := (h.linked.mem sap hmem f.c.self).1 (List.mem_of_find?_eq_some hfind)
    obtain rfl : f.v = u' := by simpa [hheap] using hu'
    have hok := h.machines _ _ hheap
    have hlocv : sap.id = v.locSap := by
      rw [← hloc, ← hsame.locSap, hafter]
      rfl
    have hunit := (h.machines _ _ hv).unit _ h3 sap hmem hlocv
    rcases hcur with hcur | hcur
    · rw [← hok.cur, hcur]
      rfl
    · have h2 : f.v.transDiag = some .cl2Performer := by
        rw [← hok.cur, hcur]
        rfl
      have := hok.unit _ h2 sap hmem hloc.symm
      rw [← hunit] at this
      cases this

/-- **At most one INVOKE.indication.** While a 3-way performer `InvokeInfo` is alive, its request
is not indicated again, if no PDU is indicated on an `InvokeInfo` whose release is pending. -/
theorem no_second_indication {sel rsel : SapSel} {tsap : TSapSel} {nsap : NSapAddr} {op : Int}
    {enc : EncodingType} {data : Option Octets}
    (hr : Reach (engine cfg) NoReindication hist e) (hv : e.heap i = some v)
    (h3 : v.transDiag = some .clPerformer)
    (hx : Exec (engine cfg) NoReindication e hist' e') (halive : .released i ∉ hist')
    (hok : NoReindication e' inp) (hs : step cfg e' inp = some (e'', o))
    (ht : .sch (.invokeInd j sel rsel tsap nsap op enc data) ∈ o) (hw : e''.heap j = some w) :
    ¬SameRequest v w := by
  intro hsame
  have hwf := WF.reach hr
  obtain ⟨v', hv', hk⟩ := hwf.live_run hx hv halive
  have hwf' : WF e' := hx.invariant (fun _ _ _ _ h _ hs => h.step hs) hwf
  have hsame' : SameRequest v' w :=
    ⟨hsame.locSap.trans hk.locSap.symm, hsame.invokeRefNu.trans hk.invokeRefNu.symm,
      by rw [hk.remNsapAddr]; exact hsame.remNsapAddr⟩
  obtain ⟨hmem, u, hu, hud, hre⟩ :=
    shown_restarts hwf' hv' (hk.transDiag.trans h3) hs ht rfl hw hsame'
  rw [hok j u hu hud hre] at hmem
  cases hmem

/-- No `InvokeInfo` of a SAP is a performer whose release is pending. -/
def noPending (e : Engine) : Bool :=
  e.saps.all fun s => s.invokeSeq.all fun j => (e.heap j).all fun u =>
    u.curState ≠ some .clPerformerStart ∧ u.curState ≠ some .cl2PerformerStart

theorem Restarts.not_noPending (h : Restarts e inp i) : noPending e = false := by
  obtain ⟨⟨tsap, nsap, data, pdu, sap, -, -, -, hsap, hfind⟩, u, hu, hcur⟩ := h
  by_contra hn
  rw [Bool.not_eq_false] at hn
  have h1 := List.all_eq_true.1 hn sap (Engine.getSapInfo_mem hsap)
  have h2 := List.all_eq_true.1 h1 i (List.mem_of_find?_eq_some hfind)
  rw [hu] at h2
  obtain ⟨h3, h4⟩ : u.curState ≠ some .clPerformerStart ∧ u.curState ≠ some .cl2PerformerStart := by
    simpa using h2
  rcases hcur with hc | hc
  · exact h3 hc
  · exact h4 hc

theorem noReindication_of_noPending (h : noPending e = true) : NoReindication e inp := by
  intro j u _ _ hre
  rw [hre.not_noPending] at h
  cases h

/-- Two requests of one peer, and their INVOKE PDUs. -/
def firstRequest : List Input := [⟨.sapBind 1 3, {}⟩, fromPeer [0x10, 9, 2, 42]]

theorem no_second_indication_firstRequest : ∃ (e e' : Engine) (v w : InvokeInfo),
    e.heap 0 = some v ∧ e'.heap 1 = some w ∧ ¬SameRequest v w := by
  obtain ⟨e, hist, hr, hm⟩ := Reach.of_run (S := engine {}) (b := fun e _ => noPending e)
    (fun _ _ h => noReindication_of_noPending h) ⟨0, rfl⟩ firstRequest
    (fun e _ => noPending e ∧ (e.heap 0).any (·.transDiag = some .clPerformer) ∧
      (step {} e (fromPeer [0x10, 10, 2, 42])).any fun r => (r.1.heap 1).isSome ∧
        .sch (.invokeInd 1 1 0 [0, 7] [10, 0, 0, 1] 2 .ber (some [42])) ∈ r.2) (by decide)
  obtain ⟨hp, hv, hs⟩ := of_decide_eq_true hm
  obtain ⟨v, hv, h3⟩ := (Option.any_eq_true _ _).1 hv
  obtain ⟨⟨e', o⟩, hs, hw⟩ := (Option.any_eq_true _ _).1 hs
  obtain ⟨hw, ht⟩ := of_decide_eq_true hw
  obtain ⟨w, hw⟩ := Option.isSome_iff_exists.1 hw
  exact ⟨e, e', v, w, hv, hw, no_second_indication hr hv (of_decide_eq_true h3) .refl (by simp)
    (noReindication_of_noPending hp) hs ht hw⟩

/-- The reply of the user, its ACK PDU, and the end of the reference number's time. -/
def replyAndWait : List Input :=
  [⟨.schRun, {}⟩, ⟨.resultReq 0 1 .ber (some [7]), {}⟩, fromPeer [3, 9], ⟨.schRun, {}⟩,
    ⟨.tmrRsp 0 ⟨.refNuTimer, 70000, 0⟩, {}⟩]

/-- Before the release is run, the INVOKE PDU that arrives once more is indicated once more. -/
theorem second_indication : ∃ hist e v hist' e' e'' o w,
    Reach (engine {}) Run.any hist e ∧ e.heap 0 = some v ∧ v.transDiag = some .clPerformer ∧
    Exec (engine {}) Run.any e hist' e' ∧ .released 0 ∉ hist' ∧
    step {} e' (fromPeer [0x10, 9, 2, 42]) = some (e'', o) ∧
    .sch (.invokeInd 0 1 0 [0, 7] [10, 0, 0, 1] 2 .ber (some [42])) ∈ o ∧
    e''.heap 0 = some w ∧ SameRequest v w := by
  obtain ⟨e, hist, hr, hm⟩ := Reach.of_run_any (S := engine {}) ⟨0, rfl⟩ firstRequest
    (fun e _ => (e.heap 0).any fun v => v.transDiag = some .clPerformer ∧
      ((engine {}).run always e replyAndWait).any fun q => .released 0 ∉ q.2 ∧
        (step {} q.1 (fromPeer [0x10, 9, 2, 42])).any fun r =>
          .sch (.invokeInd 0 1 0 [0, 7] [10, 0, 0, 1] 2 .ber (some [42])) ∈ r.2 ∧
            (r.1.heap 0).any fun w => SameRequest v w) (by decide)
  obtain ⟨v, hv, hm⟩ := (Option.any_eq_true _ _).1 hm
  obtain ⟨h3, hm⟩ := of_decide_eq_true hm
  obtain ⟨⟨e', hist'⟩, hx, hm⟩ := (Option.any_eq_true _ _).1 hm
  obtain ⟨hn, hm⟩ := of_decide_eq_true hm
  obtain ⟨⟨e'', o⟩, hs, hm⟩ := (Option.any_eq_true _ _).1 hm
  obtain ⟨ht, hm⟩ := of_decide_eq_true hm
  obtain ⟨w, hw, hsame⟩ := (Option.any_eq_true _ _).1 hm
  exact ⟨hist, e, v, hist', e', e'', o, w, hr, hv, h3, .of_run (fun _ _ _ => trivial) hx, hn, hs, ht,
    hw, of_decide_eq_true hsame⟩

/-! ## Not swallowed -/

/-- The INVOKE PDU makes a new performer, and exactly one INVOKE.indication is scheduled, with its
operation value, encoding type and data. -/
def Processed (cfg : Config) (e : Engine) (inp : Input) (pdu : Pdu) : Prop :=
  ∃ e' o i v sel rsel tsap nsap, step cfg e inp = some (e', o) ∧ e.heap i = none ∧
    e'.heap i = some v ∧ v.performingNotInvoking = true ∧
    (Engine.submitted o).filter (·.mark = .shown) =
      [.invokeInd i sel rsel tsap nsap pdu.operationValue pdu.encodingType pdu.data]

/-- What the engine asks of an INVOKE PDU for a SAP. -/
structure Accepted (e : Engine) (env : Env) (sap : SapInfo) (pdu : Pdu) : Prop where
  notDuplicate : ∀ i ∈ sap.invokeSeq, e.isDuplicate pdu i = false
  seqElemObtain : env.seqElemObtain = true
  memGet : env.memGet = true

section

variable {tsap : TSapSel} {nsap : NSapAddr} {data : DU} {pdu : Pdu} {sap : SapInfo}

/-- The machine that an accepted INVOKE PDU creates. -/
theorem fires_accepted (hev : inp.ev = .udpInd tsap nsap data)
    (hread : readPdu tsap nsap data = some pdu) (htype : pdu.pdutype = .invoke)
    (hsap : e.getSapInfo pdu.toESROSap = some sap) (ha : Accepted e inp.env sap pdu) :
    ∃ f, fires cfg e inp = some f ∧ f.c.self = e.nextId ∧ f.v = Engine.performerInfo sap ∧
      f.evt = .pduInvoke ∧ f.c.pdu = pdu ∧ f.extra = fun _ => [] := by
  have hfind : sap.invokeSeq.find? (e.isDuplicate pdu) = none :=
    List.find?_eq_none.2 fun i hi => by simp [ha.notDuplicate i hi]
  have hg : e.getInvoke inp.env pdu = (e.newPerformer sap, [], some e.nextId) := by
    simp [Engine.getInvoke, htype, hsap, hfind, ha.seqElemObtain]
  have hheap : (e.newPerformer sap).heap e.nextId = some (Engine.performerInfo sap) :=
    Function.update_self ..
  refine ⟨⟨e.newPerformer sap,
    { (e.newPerformer sap).ctx cfg inp.env e.nextId (Engine.performerInfo sap) with pdu := pdu },
    Engine.performerInfo sap, .pduInvoke, fun _ => []⟩, ?_, rfl, rfl, rfl, rfl, rfl⟩
  simp [fires, hev, hread, hg, hheap, htype, PduType.evt]

theorem processed_of_accepted (h : WF e) (hev : inp.ev = .udpInd tsap nsap data)
    (hread : readPdu tsap nsap data = some pdu) (htype : pdu.pdutype = .invoke)
    (hsap : e.getSapInfo pdu.toESROSap = some sap) (ha : Accepted e inp.env sap pdu) :
    Processed cfg e inp pdu := by
  obtain ⟨f, hf, hself, hv, hevt, hpdu, hextra⟩ :=
    show ∃ f, fires cfg e inp = some f ∧ _ from fires_accepted hev hread htype hsap ha
  obtain ⟨ho, hc⟩ := fires_origin hf
  have hfresh : e.heap f.c.self = none := by
    rw [hself]
    exact (h.linked.fresh _ (Nat.le_refl _)).1
  have hstart : (Engine.performerDiag sap.functionalUnit).state.phase = .ended true := by
    cases sap.functionalUnit <;> rfl
  have hcur : f.v.curState = some (Engine.performerDiag sap.functionalUnit).state := by rw [hv]; rfl
  rcases f.cases with hn | ⟨s, act, s', ht⟩
  · -- the start states handle an INVOKE PDU
    refine absurd ?_ (hn.cur _ hcur)
    rw [hevt]
    cases sap.functionalUnit <;> simp [handles, Engine.performerDiag, TransDiag.state]
  have hs : s = (Engine.performerDiag sap.functionalUnit).state := by
    simpa [hcur] using ht.cur.symm
  have hrow := row_arrival ht.row (hs ▸ hstart)
  have htasks : f.tasks = [invokeTask f.c] := by
    rw [ht.tasks, hrow.2.2]
    exact if_pos (hc.memGet.trans ha.memGet)
  refine ⟨f.engine, f.out, f.c.self, f.after.invoke, f.c.locSapSel, f.c.pdu.fromESROSap,
    f.c.pdu.fromTsapSel, f.c.pdu.fromNsapAddr, step_of_fires hev hf, hfresh,
    Fire.engine_heap_self, ?_, ?_⟩
  · have hown := (row_owner (m := f.before) ht.row hc.fits).performing
    rw [ht.after_invoke]
    refine hown.trans ?_
    rw [Fire.before_invoke, hv]
    rfl
  · unfold Fire.out
    rw [hextra, List.append_nil, fire_submitted hc, htasks, ← hpdu]
    rfl

theorem accepted_of_processed (hev : inp.ev = .udpInd tsap nsap data)
    (hread : readPdu tsap nsap data = some pdu) (hsap : e.getSapInfo pdu.toESROSap = some sap)
    (hp : Processed cfg e inp pdu) : Accepted e inp.env sap pdu := by
  obtain ⟨e', o, i, v, sel, rsel, rtsap, rnsap, hs, hnone, -, -, htasks⟩ := hp
  have hmem : .invokeInd i sel rsel rtsap rnsap pdu.operationValue pdu.encodingType pdu.data ∈
      Engine.submitted o := by
    refine List.mem_of_mem_filter (p := (·.mark = .shown)) ?_
    rw [htasks]
    exact List.mem_singleton_self _
  obtain ⟨f, s, hsh, rfl⟩ := shown_inv hs (mem_submitted.2 hmem) rfl
  obtain ⟨act, s', ht⟩ := hsh.takes
  obtain ⟨ho, hc⟩ := fires_origin hsh.fires
  have hevt := (row_arrival ht.row hsh.start).1
  have hself : i = f.c.self := congrArg Task.invoke hsh.task
  subst hself
  cases ho with
  | arrival hev' hread' _ hsap' hnew _ _ _ _ _ _ hobtain =>
    obtain ⟨rfl, rfl, rfl⟩ : tsap = _ ∧ nsap = _ ∧ data = _ := by simpa [hev] using hev'
    obtain rfl : pdu = _ := by simpa [hread] using hread'
    obtain rfl : sap = _ := by simpa [hsap] using hsap'
    exact ⟨hnew, hobtain, hsh.memGet⟩
  | request _ _ _ _ _ he => rw [he] at hevt; cases hevt
  | duplicate _ _ _ _ _ _ hv => rw [hnone] at hv; cases hv
  | answer _ _ _ _ _ _ hold => rw [hnone] at hold; cases hold
  | timer _ hself _ _ hv => rw [← hself, hnone] at hv; cases hv
  | reply _ _ _ _ he => rw [he] at hevt; cases hevt

/-- No performer of the PDU's own sender is alive on the SAP: with its address, its port and its
reference number. -/
def NoPerformerOf (e : Engine) (sap : SapInfo) (pdu : Pdu) : Prop :=
  ∀ i ∈ sap.invokeSeq, ∀ v, e.heap i = some v → v.performingNotInvoking = true →
    ¬(v.remNsapAddr = pdu.fromNsapAddr ∧ v.remTsapSel = pdu.fromTsapSel ∧
      v.invokeRefNu = pdu.invokeRefNu)

/-- **When an INVOKE PDU is not swallowed.** In every engine that is reached, an INVOKE PDU whose
sender has no performer on the SAP yet is processed if and only if the engine accepts it: no
`InvokeInfo` of the SAP, of whichever role and port, has its address and number, and there is
memory for the `InvokeInfo` and for the indication. -/
theorem invoke_processed_iff (hr : Reach (engine cfg) Run.any hist e)
    (hev : inp.ev = .udpInd tsap nsap data) (hread : readPdu tsap nsap data = some pdu)
    (htype : pdu.pdutype = .invoke) (hsap : e.getSapInfo pdu.toESROSap = some sap) :
    (NoPerformerOf e sap pdu → Processed cfg e inp pdu) ↔
      (NoPerformerOf e sap pdu → Accepted e inp.env sap pdu) :=
  imp_congr_right fun _ => ⟨accepted_of_processed hev hread hsap,
    processed_of_accepted (WF.reach hr) hev hread htype hsap⟩

end

instance {sap : SapInfo} {pdu : Pdu} : Decidable (NoPerformerOf e sap pdu) :=
  decidable_of_iff (∀ i ∈ sap.invokeSeq, (e.heap i).all (fun v =>
      decide (v.performingNotInvoking = true → ¬(v.remNsapAddr = pdu.fromNsapAddr ∧
        v.remTsapSel = pdu.fromTsapSel ∧ v.invokeRefNu = pdu.invokeRefNu))) = true) <| by
    constructor
    · intro h i hi v hv
      have := h i hi
      rw [hv] at this
      exact of_decide_eq_true this
    · intro h i hi
      cases hv : e.heap i with
      | none => rfl
      | some v => exact decide_eq_true (h i hi v hv)

/-- The INVOKE PDU with reference number 1 that arrives from the given port of the peer. -/
def invokeFrom (port : UInt8) : Input :=
  ⟨.udpInd [0, port] [10, 0, 0, 1] (.ofOctets [0x10, 1, 2, 42]), {}⟩

def invokeFromPdu (port : UInt8) : Pdu where
  data := some [42]
  operationValue := 2
  invokeRefNu := 1
  toESROSap := 1
  fromTsapSel := [0, port]
  fromNsapAddr := [10, 0, 0, 1]

theorem readPdu_invokeFrom (port : UInt8) :
    readPdu [0, port] [10, 0, 0, 1] (.ofOctets [0x10, 1, 2, 42]) = some (invokeFromPdu port) := by
  rfl

theorem invoke_processed_firstRequest : ∃ e : Engine, (e.heap 0).isSome ∧
    Processed {} e (invokeFrom 7) (invokeFromPdu 7) := by
  obtain ⟨e, hist, hr, hm⟩ := Reach.of_run_any (S := engine {}) ⟨0, rfl⟩ firstRequest
    (fun e _ => (e.heap 0).isSome ∧ (e.getSapInfo 1).any fun sap =>
      NoPerformerOf e sap (invokeFromPdu 7) ∧
        ∀ i ∈ sap.invokeSeq, e.isDuplicate (invokeFromPdu 7) i = false) (by decide)
  obtain ⟨h0, hm⟩ := of_decide_eq_true hm
  obtain ⟨sap, hsap, hm⟩ := (Option.any_eq_true _ _).1 hm
  obtain ⟨hno, hdup⟩ := of_decide_eq_true hm
  exact ⟨e, h0, (invoke_processed_iff hr rfl (readPdu_invokeFrom 7) rfl hsap).2
    (fun _ => ⟨hdup, rfl, rfl⟩) hno⟩

/-- With all the resources at hand, the INVOKE PDU that arrives from the given port is not
processed; the SAP has one `InvokeInfo`, of the given role. -/
def Swallowed (performing : Bool) (port : UInt8) : Prop :=
  ∃ hist e sap v, Reach (engine {}) Run.any hist e ∧
    e.getSapInfo (invokeFromPdu port).toESROSap = some sap ∧ sap.invokeSeq = [0] ∧
    e.heap 0 = some v ∧ v.performingNotInvoking = performing ∧
    NoPerformerOf e sap (invokeFromPdu port) ∧ ¬Processed {} e (invokeFrom port) (invokeFromPdu port)

theorem swallowed_of_run {performing : Bool} {port : UInt8} (run : List Input)
    (h : ((engine {}).run always (Engine.init 0) run).any (fun r =>
      (r.1.getSapInfo 1).any fun sap => (r.1.heap 0).any fun v => sap.invokeSeq = [0] ∧
        v.performingNotInvoking = performing ∧ NoPerformerOf r.1 sap (invokeFromPdu port) ∧
          r.1.isDuplicate (invokeFromPdu port) 0 = true) = true) : Swallowed performing port := by
  obtain ⟨⟨e, hist⟩, hrun, hm⟩ := (Option.any_eq_true _ _).1 h
  have hr : Reach (engine {}) Run.any hist e := ⟨_, ⟨0, rfl⟩, .of_run (fun _ _ _ => trivial) hrun⟩
  obtain ⟨sap, hsap, hm⟩ := (Option.any_eq_true _ _).1 hm
  obtain ⟨v, hv, hm⟩ := (Option.any_eq_true _ _).1 hm
  obtain ⟨hseq, hrole, hno, hdup⟩ := of_decide_eq_true hm
  refine ⟨hist, e, sap, v, hr, hsap, hseq, hv, hrole, hno, fun hp => ?_⟩
  have ha := accepted_of_processed rfl (readPdu_invokeFrom port) hsap hp
  rw [ha.notDuplicate 0 (by rw [hseq]; exact List.mem_singleton_self _)] at hdup
  cases hdup

/-- An invocation of the local side, or one that came from another port of the same host, with the
same reference number swallows an INVOKE PDU. -/
theorem invoke_swallowed : Swallowed false 7 ∧ Swallowed true 8 :=
  ⟨swallowed_of_run
      [⟨.sapBind 1 3, {}⟩, ⟨.invokeReq 1 ⟨7, 2, [0, 7], [10, 0, 0, 1], 5, .ber, some [42]⟩, {}⟩]
      (by decide),
    swallowed_of_run [⟨.sapBind 1 3, {}⟩, invokeFrom 7] (by decide)⟩

end Erop
