import Emsd.Proof.Fire

/-!
# Well-formed engines: SAPs and machines

* `Linked`: the `invokeSeq`s of the SAPs hold exactly the live `InvokeInfo`s, each in the
  sequence of the SAP that it belongs to.
* `MachineOk`: diagram, role and functional unit of an `InvokeInfo` agree, and the armed
  timers suit the state of its machine.

Both hold in every engine that is reached, over any input (`WellFormed.step`).
-/

namespace Erop

open Ocp

variable {cfg : Config} {e e' : Engine} {inp : Input} {f : Fire} {o : List Out}

/-- When no two elements pass a test, a search finds the one that does. -/
theorem find?_unique {α : Type} {p : α → Bool} {l : List α} {a : α}
    (h : l.Pairwise fun x y => ¬(p x = true ∧ p y = true)) (ha : a ∈ l) (hp : p a = true) :
    l.find? p = some a := by
  induction l with
  | nil => cases ha
  | cons b l ih =>
    obtain ⟨hb, hl⟩ := List.pairwise_cons.1 h
    rw [List.find?_cons]
    rcases List.mem_cons.1 ha with rfl | ha
    · rw [hp]
    · have hpb : p b = false := by simpa [hp] using hb a ha
      rw [hpb]
      exact ih hl ha

/-! ## SAPs -/

structure Linked (e : Engine) : Prop where
  fresh : ∀ i, e.nextId ≤ i → e.heap i = none ∧ e.tmrQu i = []
  sap_lt : ∀ s ∈ e.saps, s.id < e.nextSap
  loc_lt : ∀ i v, e.heap i = some v → v.locSap < e.nextSap
  ids : e.saps.Pairwise fun s t => s.id ≠ t.id
  sels : e.saps.Pairwise fun s t => s.sapSel ≠ t.sapSel
  mem : ∀ s ∈ e.saps, ∀ i, i ∈ s.invokeSeq ↔ ∃ v, e.heap i = some v ∧ v.locSap = s.id

theorem Linked.init (newRef : Nat) : Linked (Engine.init newRef) where
  fresh _ _ := ⟨rfl, rfl⟩
  sap_lt _ h := absurd h List.not_mem_nil
  loc_lt _ _ h := by cases h
  ids := .nil
  sels := .nil
  mem _ h := absurd h List.not_mem_nil

namespace Linked

theorem lt (h : Linked e) {i : InvokeId} {v : InvokeInfo} (hv : e.heap i = some v) :
    i < e.nextId := by
  by_contra hi
  rw [(h.fresh i (by lia)).1] at hv
  cases hv

theorem sapOf_eq (h : Linked e) {s : SapInfo} (hs : s ∈ e.saps) : e.sapOf s.id = some s :=
  find?_unique (h.ids.imp fun hne ⟨h₁, h₂⟩ =>
    hne ((of_decide_eq_true h₁).trans (of_decide_eq_true h₂).symm)) hs (by simp)

/-- A new `InvokeInfo` at the end of its SAP's sequence. -/
theorem withNew (h : Linked e) {sap : SapInfo} {v : InvokeInfo} (hsap : sap ∈ e.saps)
    (hv : v.locSap = sap.id) : Linked (e.withNew sap v) := by
  have heap : ∀ j, (e.withNew sap v).heap j = if j = e.nextId then some v else e.heap j := by
    intro j
    simp only [Engine.withNew, Engine.invokeInfoCreate, Function.update_apply]
    split <;> rfl
  have hmem : ∀ s ∈ (e.withNew sap v).saps, ∃ t ∈ e.saps,
      s = if t.id = sap.id then { t with invokeSeq := t.invokeSeq ++ [e.nextId] } else t := by
    intro s hs
    obtain ⟨t, ht, rfl⟩ := List.mem_map.1 hs
    exact ⟨t, ht, rfl⟩
  refine ⟨?_, ?_, ?_, ?_, ?_, ?_⟩
  · intro i hi
    have hi' : e.nextId + 1 ≤ i := hi
    have hne : i ≠ e.nextId := by lia
    obtain ⟨h1, h2⟩ := h.fresh i (by lia)
    refine ⟨by rw [heap, if_neg hne, h1], ?_⟩
    show Function.update e.tmrQu e.nextId [] i = []
    rw [Function.update_of_ne hne, h2]
  · intro s hs
    obtain ⟨t, ht, rfl⟩ := hmem s hs
    have := h.sap_lt t ht
    split <;> exact this
  · intro i w hw
    rw [heap] at hw
    split at hw
    · obtain rfl := Option.some.inj hw
      rw [hv]; exact h.sap_lt sap hsap
    · exact h.loc_lt i w hw
  · refine List.pairwise_map.2 (h.ids.imp fun {s t} hne => ?_)
    split <;> split <;> exact hne
  · refine List.pairwise_map.2 (h.sels.imp fun {s t} hne => ?_)
    split <;> split <;> exact hne
  · intro s hs i
    obtain ⟨t, ht, rfl⟩ := hmem s hs
    have hold := h.mem t ht i
    have hnone : ¬∃ w, e.heap e.nextId = some w ∧ w.locSap = t.id := by
      rw [(h.fresh _ (Nat.le_refl _)).1]; simp
    rw [heap]
    by_cases hi : i = e.nextId
    · subst hi
      rw [if_pos rfl]
      split
      · rename_i hid
        simp [hv, hid]
      · rename_i hid
        rw [hold]
        simp only [hnone, false_iff]
        rintro ⟨w, hw, hl⟩
        obtain rfl := Option.some.inj hw
        exact hid (hl.symm.trans hv)
    · rw [if_neg hi]
      split
      · simpa [hi] using hold
      · exact hold

/-- Changes of `InvokeInfo`s that keep which are live, and their owners. -/
theorem of_heap (h : Linked e) (hsaps : e'.saps = e.saps) (hid : e'.nextId = e.nextId)
    (hns : e'.nextSap = e.nextSap)
    (hheap : ∀ j, (e'.heap j).map (·.locSap) = (e.heap j).map (·.locSap))
    (htmr : ∀ j, e.nextId ≤ j → e'.tmrQu j = []) : Linked e' := by
  have hloc : ∀ j n, (∃ v, e'.heap j = some v ∧ v.locSap = n) ↔ ∃ v, e.heap j = some v ∧ v.locSap = n := by
    intro j n
    have := hheap j
    rw [← Option.map_eq_some_iff, ← Option.map_eq_some_iff, this]
  refine ⟨?_, by rw [hsaps, hns]; exact h.sap_lt, ?_, by rw [hsaps]; exact h.ids,
    by rw [hsaps]; exact h.sels, ?_⟩
  · intro i hi
    rw [hid] at hi
    refine ⟨?_, htmr i hi⟩
    have := hheap i
    rw [(h.fresh i hi).1] at this
    simpa using this
  · intro i v hv
    obtain ⟨w, hw, hl⟩ := (hloc i v.locSap).1 ⟨v, hv, rfl⟩
    rw [hns, ← hl]; exact h.loc_lt i w hw
  · intro s hs i
    rw [hsaps] at hs
    rw [h.mem s hs i, hloc]

theorem origin (h : Linked e) (ho : Origin cfg e inp f) : Linked f.e := by
  rcases ho.kind with ⟨sap, d, hk⟩ | ⟨v, q, hk⟩
  · rw [hk.eng]
    exact h.withNew hk.mem (by rw [hk.v]; rfl)
  · have hlt := h.lt hk.heap
    obtain ⟨w, r, hv⟩ := hk.v
    refine h.of_heap (by rw [hk.eng]) (by rw [hk.eng]) (by rw [hk.eng]) ?_ ?_
    · intro j
      by_cases hj : j = f.c.self
      · rw [hj, hk.here, hk.heap, hv]; rfl
      · rw [hk.heap_ne hj]
    · intro j hj
      rw [hk.tmrQu_ne (by lia)]
      exact (h.fresh j hj).2

theorem after (h : Linked f.e) (hv : f.e.heap f.c.self = some f.v)
    (hown : f.after.invoke.locSap = f.v.locSap) : Linked f.engine := by
  have hlt := h.lt hv
  refine h.of_heap rfl rfl rfl ?_ ?_
  · intro j
    by_cases hj : j = f.c.self
    · rw [hj, Fire.engine_heap_self, hv, Option.map_some, Option.map_some, hown]
    · rw [Fire.engine_heap_ne hj]
  · intro j hj
    rw [Fire.engine_tmrQu_ne (by lia)]
    exact (h.fresh j hj).2

theorem relInvoke (h : Linked e) (i : InvokeId) : Linked (e.relInvoke i) := by
  have heap : ∀ j, (e.relInvoke i).heap j = if j = i then none else e.heap j := fun j =>
    Function.update_apply ..
  refine ⟨?_, ?_, ?_, ?_, ?_, ?_⟩
  · intro j hj
    refine ⟨?_, (h.fresh j hj).2⟩
    rw [heap, (h.fresh j hj).1, ite_self]
  · intro s hs
    obtain ⟨t, ht, rfl⟩ := List.mem_map.1 hs
    exact h.sap_lt t ht
  · intro j v hv
    rw [heap] at hv
    split at hv
    · cases hv
    · exact h.loc_lt j v hv
  · exact List.pairwise_map.2 h.ids
  · exact List.pairwise_map.2 h.sels
  · intro s hs j
    obtain ⟨t, ht, rfl⟩ := List.mem_map.1 hs
    have := h.mem t ht j
    rw [heap]
    by_cases hj : j = i <;> simp [hj, ← this]

theorem dropSap (h : Linked e) (id : SapId) : Linked (e.dropSap id) :=
  ⟨h.fresh, fun s hs => h.sap_lt s (List.mem_of_mem_filter hs), h.loc_lt, h.ids.filter _,
    h.sels.filter _, fun s hs => h.mem s (List.mem_of_mem_filter hs)⟩

theorem tmrQu (h : Linked e) {i : InvokeId} (q : List TmrData) (hi : i < e.nextId) :
    Linked { e with tmrQu := Function.update e.tmrQu i q } := by
  refine h.of_heap rfl rfl rfl (fun _ => rfl) fun j hj => ?_
  have : j ≠ i := by lia
  simp only [Function.update_of_ne this]
  exact (h.fresh j hj).2

theorem schQu (h : Linked e) (qu : List Task) : Linked { e with schQu := qu } :=
  h.of_heap rfl rfl rfl (fun _ => rfl) fun j hj => (h.fresh j hj).2

theorem bind (h : Linked e) {sap : SapInfo} (hid : sap.id = e.nextSap) (hseq : sap.invokeSeq = [])
    (hsel : e.getSapInfo sap.sapSel = none) :
    Linked { e with saps := e.saps ++ [sap], nextSap := e.nextSap + 1 } := by
  have hsel' : ∀ s ∈ e.saps, s.sapSel ≠ sap.sapSel := fun s hs => by
    have := List.find?_eq_none.1 hsel s hs
    simpa using this
  refine ⟨h.fresh, ?_, ?_, ?_, ?_, ?_⟩
  · intro s hs
    show s.id < e.nextSap + 1
    rcases List.mem_append.1 hs with hs | hs
    · have := h.sap_lt s hs
      lia
    · obtain rfl := List.mem_singleton.1 hs
      lia
  · intro i v hv
    have := h.loc_lt i v hv
    show v.locSap < e.nextSap + 1
    lia
  · refine List.pairwise_append.2 ⟨h.ids, List.pairwise_singleton .., fun s hs t ht => ?_⟩
    obtain rfl := List.mem_singleton.1 ht
    have := h.sap_lt s hs
    lia
  · refine List.pairwise_append.2 ⟨h.sels, List.pairwise_singleton .., fun s hs t ht => ?_⟩
    obtain rfl := List.mem_singleton.1 ht
    exact hsel' s hs
  · intro s hs i
    rcases List.mem_append.1 hs with hs | hs
    · exact h.mem s hs i
    · -- no `InvokeInfo` belongs to a SAP that is new
      obtain rfl := List.mem_singleton.1 hs
      rw [hseq]
      simp only [List.not_mem_nil, false_iff]
      rintro ⟨v, hv, hl⟩
      have := h.loc_lt i v hv
      lia

end Linked

theorem Creates.fresh {sap : SapInfo} {d : TransDiag} (hk : Creates e f sap d) (h : Linked e) :
    e.heap f.c.self = none :=
  (h.fresh _ (Nat.le_of_eq hk.self.symm)).1

theorem withNew_leak {sap : SapInfo} :
    e.invokeInfoCreate sap.id = e.withNew sap { locSap := sap.id } := by
  simp [Engine.withNew, Engine.invokeInfoCreate]

theorem Linked.quiet (h : Linked e) (hq : Quiet e inp e' o) : Linked e' := by
  cases hq with
  | nothing => exact h
  | leak hsap => rw [withNew_leak]; exact h.withNew hsap rfl
  | unknownTimer htd hv => exact h.tmrQu _ (h.lt hv)
  | release => exact (h.schQu _).relInvoke _
  | callBack => exact h.schQu _
  | bind hid hseq hsel => exact h.bind hid hseq hsel
  | unbindEmpty => exact h.dropSap _
  | @unbind sel sap i rest hev hsap hseq =>
    have hi : i ∈ sap.invokeSeq := by rw [hseq]; exact List.mem_cons_self
    obtain ⟨v, hv, -⟩ := (h.mem sap (Engine.getSapInfo_mem hsap) i).1 hi
    exact ((h.tmrQu _ (h.lt hv)).relInvoke _).dropSap _

/-! ## Machines -/

/-- The `InvokeInfo` `i` agrees with itself, with its SAP and with its timers. -/
structure MachineOk (e : Engine) (i : InvokeId) (v : InvokeInfo) : Prop where
  role : v.performingNotInvoking = (v.transDiag.map TransDiag.isPerformer).getD false
  cur : v.curState.map State.diag = v.transDiag
  unit : ∀ d, v.transDiag = some d → ∀ s ∈ e.saps, s.id = v.locSap → d.unit = s.functionalUnit
  tmr : ∀ s, v.curState = some s → TmrOk s (e.tmrQu i)
  idle : v.curState = none → e.tmrQu i = []

def MachinesOk (e : Engine) : Prop := ∀ i v, e.heap i = some v → MachineOk e i v

theorem TmrOk.sublist {s : State} {q q' : List TmrData} (h : TmrOk s q) (hq : q'.Sublist q) :
    TmrOk s q' := by
  intro names hn
  rcases h names hn with rfl | ⟨td, rfl, ht⟩
  · rw [List.sublist_nil.1 hq]; exact .nil
  · rcases List.sublist_singleton.1 hq with rfl | rfl
    · exact .nil
    · exact .inr ⟨td, rfl, ht⟩

namespace MachineOk

variable {i : InvokeId} {v v' : InvokeInfo}

/-- An `InvokeInfo` on which nothing changes but its timers, which may become fewer. -/
theorem congr (h : MachineOk e i v) (hdiag : v'.transDiag = v.transDiag)
    (hcur : v'.curState = v.curState) (hrole : v'.performingNotInvoking = v.performingNotInvoking)
    (hloc : v'.locSap = v.locSap)
    (hsaps : ∀ s ∈ e'.saps, s.id = v.locSap → ∃ t ∈ e.saps, t.id = s.id ∧
      t.functionalUnit = s.functionalUnit)
    (htmr : (e'.tmrQu i).Sublist (e.tmrQu i)) : MachineOk e' i v' where
  role := by rw [hrole, hdiag]; exact h.role
  cur := by rw [hcur, hdiag]; exact h.cur
  unit d hd s hs hid := by
    rw [hdiag] at hd
    rw [hloc] at hid
    obtain ⟨t, ht, hti, htu⟩ := hsaps s hs hid
    rw [← htu]; exact h.unit d hd t ht (hti.trans hid)
  tmr s hs := by rw [hcur] at hs; exact (h.tmr s hs).sublist htmr
  idle hn := by
    rw [hcur] at hn
    rw [h.idle hn] at htmr
    exact List.sublist_nil.1 htmr

theorem performer (h : MachineOk e i v) {s : State} (hs : v.curState = some s) :
    v.performingNotInvoking = s.isPerformer := by
  rw [h.role, ← h.cur, hs]
  exact State.diag_isPerformer s

end MachineOk

/-- In a state with at most one timer, none is left once one has expired. -/
theorem TmrOk.erase_eq {s : State} {q : List TmrData} {td : TmrData} (h : TmrOk s q)
    (htd : td ∈ q) {names : List TmrName} (hn : tmrNames s = some names) : q.erase td = [] := by
  rcases h names hn with hq | ⟨t, hq, -⟩
  · rw [hq]; rfl
  · rw [hq] at htd ⊢
    obtain rfl := List.mem_singleton.1 htd
    simp

namespace MachinesOk

theorem withNew_saps {sap : SapInfo} {v : InvokeInfo} {s : SapInfo}
    (hs : s ∈ (e.withNew sap v).saps) :
    ∃ t ∈ e.saps, t.id = s.id ∧ t.functionalUnit = s.functionalUnit := by
  obtain ⟨t, ht, rfl⟩ := List.mem_map.1 hs
  refine ⟨t, ht, ?_⟩
  split <;> exact ⟨rfl, rfl⟩

theorem withNew (h : MachinesOk e) {sap : SapInfo} {v : InvokeInfo}
    (hv : MachineOk (e.withNew sap v) e.nextId v) : MachinesOk (e.withNew sap v) := by
  intro i w hw
  by_cases hi : i = e.nextId
  · subst hi
    obtain rfl : v = w := by simpa [Engine.withNew] using hw
    exact hv
  · have hw' : e.heap i = some w := by
      simpa [Engine.withNew, Engine.invokeInfoCreate, hi] using hw
    have hq : (e.withNew sap v).tmrQu i = e.tmrQu i := by
      simp [Engine.withNew, Engine.invokeInfoCreate, hi]
    exact (h i w hw').congr rfl rfl rfl rfl (fun s hs _ => withNew_saps hs) (by rw [hq])

theorem newInfo_ok (hl : Linked e) {sap : SapInfo} {d : TransDiag} (hsap : sap ∈ e.saps)
    (hu : d.unit = sap.functionalUnit) : MachineOk (e.withNew sap (newInfo sap d)) e.nextId
      (newInfo sap d) where
  role := rfl
  cur := congrArg some (TransDiag.state_diag d)
  unit d' hd s hs hid := by
    obtain rfl := Option.some.inj hd
    obtain ⟨t, ht, hti, htu⟩ := withNew_saps hs
    have h1 := hl.sapOf_eq ht
    have h2 := hl.sapOf_eq hsap
    have hts : t.id = sap.id := hti.trans hid
    rw [hts, h2] at h1
    obtain rfl := Option.some.inj h1
    exact hu.trans htu
  tmr s _ := by
    have : (e.withNew sap (newInfo sap d)).tmrQu e.nextId = [] := Function.update_self ..
    rw [this]; exact .nil
  idle hn := by cases hn

theorem origin (hl : Linked e) (h : MachinesOk e) (ho : Origin cfg e inp f) : MachinesOk f.e := by
  rcases ho.kind with ⟨sap, d, hk⟩ | ⟨v, q, hk⟩
  · rw [hk.eng, hk.v]
    exact h.withNew (newInfo_ok hl hk.mem hk.unit)
  · intro i w hw
    have hsaps : f.e.saps = e.saps := by rw [hk.eng]
    by_cases hi : i = f.c.self
    · subst hi
      have hv := h _ _ hk.heap
      obtain ⟨a, b, hfv⟩ := hk.v
      obtain rfl : f.v = w := by simpa [hk.here] using hw
      refine hv.congr (by rw [hfv]) (by rw [hfv]) (by rw [hfv]) (by rw [hfv]) ?_ ?_
      · intro s hs _
        rw [hsaps] at hs
        exact ⟨s, hs, rfl, rfl⟩
      · rw [hk.tmrQu_self]
        rcases hk.tmr with ⟨-, rfl⟩ | ⟨td, htd, -, -, rfl⟩
        · exact .refl _
        · exact List.erase_sublist
    · rw [hk.heap_ne hi] at hw
      refine (h i w hw).congr rfl rfl rfl rfl ?_ (by rw [hk.tmrQu_ne hi])
      intro s hs _
      rw [hsaps] at hs
      exact ⟨s, hs, rfl, rfl⟩

/-- The timers that a machine finds when it runs. -/
theorem tmrBefore (h : MachinesOk e) (hf : MachinesOk f.e) (ho : Origin cfg e inp f) {s : State}
    (hs : f.v.curState = some s) : TmrBefore s f.evt (f.e.tmrQu f.c.self) where
  ok := (hf _ _ ho.here).tmr s hs
  expired ht names hn := by
    rcases ho.kind with ⟨sap, d, hk⟩ | ⟨v, q, hk⟩
    · exact hk.tmrQu_self
    · rw [hk.tmrQu_self]
      rcases hk.tmr with ⟨hf, -⟩ | ⟨td, htd, -, -, rfl⟩
      · rw [hf] at ht; cases ht
      · obtain ⟨a, b, hv⟩ := hk.v
        have hs' : v.curState = some s := by rw [← hs, hv]
        exact ((h _ _ hk.heap).tmr s hs').erase_eq htd hn

theorem after (h : MachinesOk e) (hf : MachinesOk f.e) (ho : Origin cfg e inp f)
    (hc : Common cfg inp f) : MachinesOk f.engine := by
  intro i w hw
  by_cases hi : i = f.c.self
  · subst hi
    obtain rfl : f.after.invoke = w := by simpa using hw
    have hv := hf _ _ ho.here
    rcases f.cases with hn | ⟨s, act, s', ht⟩
    · have hq : f.engine.tmrQu f.c.self = f.e.tmrQu f.c.self := by
        rw [Fire.engine_tmrQu_self, hn.after]; rfl
      refine hv.congr ?_ ?_ ?_ ?_ (fun s hs _ => ⟨s, hs, rfl, rfl⟩) (by rw [hq]) <;>
        rw [hn.after, Fire.before_invoke]
    · have hown := row_owner (m := f.before) ht.row hc.fits
      rw [Fire.before_invoke] at hown
      have hinv := ht.after_invoke
      have hdiag : f.after.invoke.transDiag = f.v.transDiag := by rw [hinv]; exact hown.transDiag
      have hrole : f.after.invoke.performingNotInvoking = f.v.performingNotInvoking := by
        rw [hinv]; exact hown.performing
      have hloc : f.after.invoke.locSap = f.v.locSap := by rw [hinv]; exact hown.locSap
      have hcur : f.after.invoke.curState = some s' := by rw [hinv]
      refine ⟨by rw [hrole, hdiag]; exact hv.role, ?_, ?_, ?_, by rw [hcur]; simp⟩
      · rw [hdiag, ← hv.cur, hcur, ht.cur, Option.map_some, Option.map_some, row_diag ht.row]
      · intro d hd t hts hid
        rw [hdiag] at hd
        rw [hloc] at hid
        exact hv.unit d hd t hts hid
      · intro s'' hs''
        obtain rfl : s' = s'' := by simpa [hcur] using hs''
        rw [Fire.engine_tmrQu_self, ht.after_tmrQu]
        exact row_tmrOk ht.row hc.fits (h.tmrBefore hf ho ht.cur)
  · rw [Fire.engine_heap_ne hi] at hw
    exact (hf i w hw).congr rfl rfl rfl rfl (fun s hs _ => ⟨s, hs, rfl, rfl⟩)
      (by rw [Fire.engine_tmrQu_ne hi])

/-- Machines that stay as they are, with no more timers than before. -/
theorem mono (h : MachinesOk e) (hheap : ∀ i v, e'.heap i = some v → e.heap i = some v)
    (htmr : ∀ i, (e'.tmrQu i).Sublist (e.tmrQu i))
    (hsaps : ∀ s ∈ e'.saps, s.id < e.nextSap → ∃ t ∈ e.saps, t.id = s.id ∧
      t.functionalUnit = s.functionalUnit) (hl : Linked e) : MachinesOk e' := fun i v hv =>
  (h i v (hheap i v hv)).congr rfl rfl rfl rfl
    (fun s hs hid => hsaps s hs (hid ▸ hl.loc_lt i v (hheap i v hv))) (htmr i)

theorem update_sublist {i : InvokeId} {q : List TmrData} (hq : q.Sublist (e.tmrQu i))
    (j : InvokeId) : (Function.update e.tmrQu i q j).Sublist (e.tmrQu j) := by
  by_cases hj : j = i
  · rw [hj, Function.update_self]; exact hq
  · rw [Function.update_of_ne hj]

theorem relInvoke_heap {i j : InvokeId} {v : InvokeInfo} (hv : (e.relInvoke i).heap j = some v) :
    e.heap j = some v := by
  by_cases hj : j = i
  · simp [Engine.relInvoke, hj] at hv
  · simpa [Engine.relInvoke, hj] using hv

theorem relInvoke_saps {i : InvokeId} {s : SapInfo} (hs : s ∈ (e.relInvoke i).saps) :
    ∃ t ∈ e.saps, t.id = s.id ∧ t.functionalUnit = s.functionalUnit := by
  obtain ⟨t, ht, rfl⟩ := List.mem_map.1 hs
  exact ⟨t, ht, rfl, rfl⟩

theorem quiet (hl : Linked e) (h : MachinesOk e) (hq : Quiet e inp e' o) : MachinesOk e' := by
  cases hq with
  | nothing => exact h
  | @leak sap hsap =>
    rw [withNew_leak]
    refine h.withNew ⟨rfl, rfl, ?_, ?_, fun _ => Function.update_self ..⟩
    · intro d hd
      cases hd
    · intro s hs
      cases hs
  | unknownTimer htd hv =>
    exact h.mono (fun _ _ => id) (update_sublist List.erase_sublist)
      (fun s hs _ => ⟨s, hs, rfl, rfl⟩) hl
  | release =>
    exact h.mono (fun _ _ => relInvoke_heap) (fun _ => .refl _) (fun s hs _ => relInvoke_saps hs) hl
  | callBack =>
    exact h.mono (fun _ _ => id) (fun _ => .refl _) (fun s hs _ => ⟨s, hs, rfl, rfl⟩) hl
  | @bind sap hid hseq hsel =>
    refine h.mono (fun _ _ => id) (fun _ => .refl _) (fun s hs hlt => ?_) hl
    rcases List.mem_append.1 hs with hs | hs
    · exact ⟨s, hs, rfl, rfl⟩
    · obtain rfl := List.mem_singleton.1 hs
      lia
  | unbindEmpty =>
    exact h.mono (fun _ _ => id) (fun _ => .refl _)
      (fun s hs _ => ⟨s, List.mem_of_mem_filter hs, rfl, rfl⟩) hl
  | unbind =>
    exact h.mono (fun _ _ => relInvoke_heap) (update_sublist (List.nil_sublist _))
      (fun s hs _ => relInvoke_saps (List.mem_of_mem_filter hs)) hl

end MachinesOk

end Erop
