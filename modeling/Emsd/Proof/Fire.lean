import Emsd.Proof.Rows

/-!
# The machine of a step

The machine that a step runs has just been created (`Creates`), or it was there and its
engine has changed little (`Continues`). `Fire.cases` says what the run makes of it.
-/

namespace Erop

open Ocp

variable {cfg : Config} {e : Engine} {inp : Input} {f : Fire}

namespace TransDiag

/-- The diagrams of the performer. -/
def isPerformer : TransDiag → Bool
  | clPerformer | cl2Performer => true
  | clInvoker | cl2Invoker => false

def unit : TransDiag → FunctionalUnit
  | clInvoker | clPerformer => .threeWay
  | cl2Invoker | cl2Performer => .twoWay

end TransDiag

theorem State.diag_isPerformer (s : State) : s.diag.isPerformer = s.isPerformer := by cases s <;> rfl

theorem TransDiag.state_isStart (d : TransDiag) : d.state.isStart = true := by cases d <;> rfl

/-- The `InvokeInfo` of a machine that has not run yet. -/
def newInfo (sap : SapInfo) (d : TransDiag) : InvokeInfo where
  locSap := sap.id
  transDiag := some d
  curState := some d.state
  performingNotInvoking := d.isPerformer

/-- The engine with a new `InvokeInfo`. -/
def Engine.withNew (e : Engine) (sap : SapInfo) (v : InvokeInfo) : Engine :=
  { e.invokeInfoCreate sap.id with
    heap := Function.update (e.invokeInfoCreate sap.id).heap e.nextId (some v) }

/-- The step has created the machine, on the given SAP and with the given diagram. -/
structure Creates (e : Engine) (f : Fire) (sap : SapInfo) (d : TransDiag) : Prop where
  mem : sap ∈ e.saps
  unit : d.unit = sap.functionalUnit
  evt : f.evt = if d.isPerformer then .pduInvoke else .invokeReq
  self : f.c.self = e.nextId
  v : f.v = newInfo sap d
  eng : f.e = e.withNew sap f.v
  extra : f.extra = fun r =>
    if d.isPerformer then [] else if r = .fail then [.ret (-1)] else [.invokeDesc e.nextId, .ret 0]

/-- The machine was there: of its `InvokeInfo` only `errorValue` and `failureReason` have been
touched, of its timers only the one that has expired. -/
structure Continues (e : Engine) (f : Fire) (v : InvokeInfo) (q : List TmrData) : Prop where
  heap : e.heap f.c.self = some v
  v : ∃ w r, f.v = { v with errorValue := w, failureReason := r }
  eng : f.e = { e with
    heap := Function.update e.heap f.c.self (some f.v)
    tmrQu := Function.update e.tmrQu f.c.self q }
  evt : f.evt ≠ .invokeReq
  tmr : (f.evt.isTimer = false ∧ q = e.tmrQu f.c.self) ∨
    ∃ td ∈ e.tmrQu f.c.self, td.name.evt = some f.evt ∧ f.c.tmrInfo = ⟨td.name, td.data⟩ ∧
      q = (e.tmrQu f.c.self).erase td
  extra : ∀ r, ∀ x ∈ f.extra r, ∃ n, x = .ret n

theorem withNew_newInvoker {sap : SapInfo} :
    e.newInvoker sap = e.withNew sap (Engine.invokerInfo sap) := rfl

theorem withNew_newPerformer {sap : SapInfo} :
    e.newPerformer sap = e.withNew sap (Engine.performerInfo sap) := rfl

theorem invokerInfo_eq (sap : SapInfo) :
    Engine.invokerInfo sap = newInfo sap (Engine.invokerDiag sap.functionalUnit) := by
  unfold Engine.invokerInfo newInfo
  cases sap.functionalUnit <;> rfl

theorem performerInfo_eq (sap : SapInfo) :
    Engine.performerInfo sap = newInfo sap (Engine.performerDiag sap.functionalUnit) := by
  unfold Engine.performerInfo newInfo
  cases sap.functionalUnit <;> rfl

theorem invokerDiag_unit (fu : FunctionalUnit) :
    (Engine.invokerDiag fu).unit = fu ∧ (Engine.invokerDiag fu).isPerformer = false := by
  cases fu <;> exact ⟨rfl, rfl⟩

theorem performerDiag_unit (fu : FunctionalUnit) :
    (Engine.performerDiag fu).unit = fu ∧ (Engine.performerDiag fu).isPerformer = true := by
  cases fu <;> exact ⟨rfl, rfl⟩

theorem PduType.evt_isTimer (t : PduType) : t.evt.isTimer = false ∧ t.evt ≠ .invokeReq := by
  cases t <;> exact ⟨rfl, by decide⟩

/-- Nothing is touched. -/
theorem Continues.of_same (he : f.e = e) (hv : e.heap f.c.self = some f.v)
    (ht : f.evt.isTimer = false) (hr : f.evt ≠ .invokeReq)
    (hx : ∀ r, ∀ x ∈ f.extra r, ∃ n, x = .ret n) : Continues e f f.v (e.tmrQu f.c.self) where
  heap := hv
  v := ⟨f.v.errorValue, f.v.failureReason, rfl⟩
  eng := by rw [he, ← hv, Function.update_eq_self, Function.update_eq_self]
  evt := hr
  tmr := .inl ⟨ht, rfl⟩
  extra := hx

/-- **A machine has just been created or it was there.** -/
theorem Origin.kind (h : Origin cfg e inp f) :
    (∃ sap d, Creates e f sap d) ∨ ∃ v q, Continues e f v q := by
  cases h with
  | @request sel req sap hev hsap hself he hv hevt hreq hextra =>
    obtain ⟨hu, hp⟩ := invokerDiag_unit sap.functionalUnit
    refine .inl ⟨sap, _, Engine.getSapInfo_mem hsap, hu, ?_, hself, hv.trans (invokerInfo_eq sap), ?_, ?_⟩
    · rw [hp]; exact hevt
    · rw [he, hv, withNew_newInvoker]
    · rw [hp]; exact hextra
  | @arrival _ _ _ _ sap hev hread htype hsap hnew hself he hv hevt hpdu hextra hobtain =>
    obtain ⟨hu, hp⟩ := performerDiag_unit sap.functionalUnit
    refine .inl ⟨sap, _, Engine.getSapInfo_mem hsap, hu, ?_, hself, hv.trans (performerInfo_eq sap), ?_, ?_⟩
    · rw [hp]; exact hevt
    · rw [he, hv, withNew_newPerformer]
    · rw [hp]; exact hextra
  | duplicate hev hread htype hsap hfind he hv hevt hpdu hextra =>
    exact .inr ⟨_, _, .of_same he hv (by rw [hevt]; rfl) (by rw [hevt]; decide) (by simp [hextra])⟩
  | answer hev hread htype hack hres hfail hold hv he hevt hpdu hextra =>
    refine .inr ⟨_, e.tmrQu f.c.self, hold, ⟨_, _, hv⟩, ?_, ?_, .inl ⟨?_, rfl⟩, by simp [hextra]⟩
    · rw [he, Function.update_eq_self]
    · rw [hevt]; exact (PduType.evt_isTimer _).2
    · rw [hevt]; exact (PduType.evt_isTimer _).1
  | timer hev hself htd he hv hevt htmr hextra =>
    subst hself
    refine .inr ⟨f.v, _, hv, ⟨_, _, rfl⟩, ?_, ?_, .inr ⟨_, htd, hevt, htmr, rfl⟩, by simp [hextra]⟩
    · rw [he, ← hv, Function.update_eq_self]
    · intro h0
      have := TmrName.evt_isTimer hevt
      rw [h0] at this
      cases this
  | reply hev hself he hv hevt hreq hextra =>
    subst hself
    exact .inr ⟨_, _, .of_same he hv (by rw [hevt]; rfl) (by rw [hevt]; decide) (by simp [hextra])⟩

/-! ## The engine around the machine -/

namespace Creates

variable {sap : SapInfo} {d : TransDiag} (h : Creates e f sap d)
include h

theorem here : f.e.heap f.c.self = some f.v := by
  rw [h.eng, h.self]; exact Function.update_self ..

theorem heap_ne {j : InvokeId} (hj : j ≠ f.c.self) : f.e.heap j = e.heap j := by
  rw [h.self] at hj
  rw [h.eng]
  simp [Engine.withNew, Engine.invokeInfoCreate, hj]

theorem tmrQu_ne {j : InvokeId} (hj : j ≠ f.c.self) : f.e.tmrQu j = e.tmrQu j := by
  rw [h.self] at hj
  rw [h.eng]
  simp [Engine.withNew, Engine.invokeInfoCreate, hj]

theorem tmrQu_self : f.e.tmrQu f.c.self = [] := by
  rw [h.eng, h.self]; exact Function.update_self ..

end Creates

namespace Continues

variable {v : InvokeInfo} {q : List TmrData} (h : Continues e f v q)
include h

theorem here : f.e.heap f.c.self = some f.v := by
  rw [h.eng]; exact Function.update_self ..

theorem heap_ne {j : InvokeId} (hj : j ≠ f.c.self) : f.e.heap j = e.heap j := by
  rw [h.eng]; exact Function.update_of_ne hj ..

theorem tmrQu_ne {j : InvokeId} (hj : j ≠ f.c.self) : f.e.tmrQu j = e.tmrQu j := by
  rw [h.eng]; exact Function.update_of_ne hj ..

theorem tmrQu_self : f.e.tmrQu f.c.self = q := by
  rw [h.eng]; exact Function.update_self ..

end Continues

theorem Origin.here (h : Origin cfg e inp f) : f.e.heap f.c.self = some f.v := by
  rcases h.kind with ⟨_, _, h⟩ | ⟨_, _, h⟩ <;> exact h.here

theorem Origin.heap_ne (h : Origin cfg e inp f) {j : InvokeId} (hj : j ≠ f.c.self) :
    f.e.heap j = e.heap j := by
  rcases h.kind with ⟨_, _, h⟩ | ⟨_, _, h⟩ <;> exact h.heap_ne hj

theorem Origin.tmrQu_ne (h : Origin cfg e inp f) {j : InvokeId} (hj : j ≠ f.c.self) :
    f.e.tmrQu j = e.tmrQu j := by
  rcases h.kind with ⟨_, _, h⟩ | ⟨_, _, h⟩ <;> exact h.tmrQu_ne hj

theorem Origin.refs (h : Origin cfg e inp f) : f.e.refs = e.refs := by
  rcases h.kind with ⟨_, _, h⟩ | ⟨_, _, h⟩
  · rw [h.eng]; rfl
  · rw [h.eng]

theorem Origin.schQu (h : Origin cfg e inp f) : f.e.schQu = e.schQu := by
  rcases h.kind with ⟨_, _, h⟩ | ⟨_, _, h⟩
  · rw [h.eng]; rfl
  · rw [h.eng]

/-! ## What the run makes of the machine -/

namespace Fire

@[simp] theorem engine_heap_self : f.engine.heap f.c.self = some f.after.invoke :=
  Function.update_self ..

theorem engine_heap_ne {j : InvokeId} (hj : j ≠ f.c.self) : f.engine.heap j = f.e.heap j :=
  Function.update_of_ne hj ..

@[simp] theorem engine_tmrQu_self : f.engine.tmrQu f.c.self = f.after.tmrQu :=
  Function.update_self ..

theorem engine_tmrQu_ne {j : InvokeId} (hj : j ≠ f.c.self) : f.engine.tmrQu j = f.e.tmrQu j :=
  Function.update_of_ne hj ..

@[simp] theorem engine_refs : f.engine.refs = f.after.refs := rfl

@[simp] theorem engine_saps : f.engine.saps = f.e.saps := rfl

@[simp] theorem engine_nextId : f.engine.nextId = f.e.nextId := rfl

@[simp] theorem engine_nextSap : f.engine.nextSap = f.e.nextSap := rfl

@[simp] theorem engine_schQu : f.engine.schQu = f.e.schQu ++ Engine.submitted f.after.out := rfl

@[simp] theorem before_invoke : f.before.invoke = f.v := rfl

@[simp] theorem before_tmrQu : f.before.tmrQu = f.e.tmrQu f.c.self := rfl

@[simp] theorem before_refs : f.before.refs = f.e.refs := rfl

@[simp] theorem before_out : f.before.out = [] := rfl

/-- A row of the tables that a machine takes. -/
structure Takes (f : Fire) (s : State) (act : Machine → Machine × SuccFail) (s' : State) : Prop where
  cur : f.v.curState = some s
  row : Row f.c s f.evt act s'
  after : f.after = setState s' (act f.before).1
  ret : f.ret = .success

/-- The event leaves the machine as it is: it has no state, or its state ignores the event. -/
structure Ignores (f : Fire) : Prop where
  after : f.after = f.before
  cur : ∀ s, f.v.curState = some s → f.evt ∉ handles s

theorem cases (f : Fire) : f.Ignores ∨ ∃ s act s', f.Takes s act s' := by
  cases hs : f.v.curState with
  | none =>
    have h := runMachine_stuck (c := f.c) (m := f.before) hs f.evt
    exact .inl ⟨by unfold after; rw [h], by simp [hs]⟩
  | some s =>
    rcases runMachine_cases (c := f.c) (m := f.before) hs f.evt with ⟨hn, h⟩ | ⟨act, s', hrow, h⟩
    · refine .inl ⟨by unfold after; rw [h], fun s' hs' => ?_⟩
      rw [hs] at hs'
      cases hs'
      exact hn
    · exact .inr ⟨s, act, s', hs, hrow, by unfold after; rw [h], by unfold ret; rw [h]⟩

namespace Takes

variable {s s' : State} {act : Machine → Machine × SuccFail} (h : f.Takes s act s')
include h

theorem after_invoke : f.after.invoke = { (act f.before).1.invoke with curState := some s' } := by
  rw [h.after]; rfl

theorem after_tmrQu : f.after.tmrQu = (act f.before).1.tmrQu := by rw [h.after]; rfl

theorem after_refs : f.after.refs = (act f.before).1.refs := by rw [h.after]; rfl

theorem after_out : f.after.out = (act f.before).1.out := by rw [h.after]; rfl

end Takes

end Fire

/-- A new machine never ignores its event. -/
theorem Creates.takes {sap : SapInfo} {d : TransDiag} (h : Creates e f sap d) :
    ∃ act s', f.Takes d.state act s' := by
  have hs : f.v.curState = some d.state := by rw [h.v]; rfl
  rcases f.cases with hi | ⟨s, act, s', ht⟩
  · refine absurd ?_ (hi.cur _ hs)
    rw [h.evt]
    cases d <;> simp [handles, TransDiag.state, TransDiag.isPerformer]
  · obtain rfl : d.state = s := by simpa [hs] using ht.cur
    exact ⟨act, s', ht⟩

end Erop
