import Emsd.Safety.Release

/-!
# Unbinding a SAP (`erop_sap.c`)

`EROP_sapUnbind` cancels the timers of the first `InvokeInfo` of the SAP and releases it; the loop
over the others is not compiled.

* `unbind_clean_iff`: **nothing of the SAP stays behind** if and only if it has at most one
  `InvokeInfo`, and no function is queued for it.
* `unbind_leaves`: of two invocations, the second one stays behind with its timer.
-/

namespace Erop

open Ocp Run Engine

variable {cfg : Config} {e e' : Engine} {o hist : List Out} {sap : SapInfo} {sel : SapSel}
  {i j : InvokeId} {v : InvokeInfo}

/-- **Nothing of the SAP stays behind**: its `InvokeInfo`s are back in their pool, nothing refers to
them, and the other SAPs and their `InvokeInfo`s are as they were. -/
structure CleanlyUnbound (e : Engine) (sap : SapInfo) (e' : Engine) : Prop where
  released : ∀ i v, e.heap i = some v → v.locSap = sap.id → e'.heap i = none ∧ Unreferenced e' i
  saps : e'.saps = e.saps.filter fun s => s.id ≠ sap.id
  others : ∀ i v, e.heap i = some v → v.locSap ≠ sap.id → e'.heap i = some v ∧
    e'.tmrQu i = e.tmrQu i ∧ (∀ r, i ∈ e'.refs.invoker r ↔ i ∈ e.refs.invoker r) ∧
    (∀ r, i ∈ e'.refs.performer r ↔ i ∈ e.refs.performer r) ∧
    ∀ t ∈ e.schQu, t.invoke = i → t ∈ e'.schQu

/-- The SAP has at most one `InvokeInfo`, and no function is queued for it. -/
structure FewLeft (e : Engine) (sap : SapInfo) : Prop where
  one : ∀ i ∈ sap.invokeSeq, ∀ j ∈ sap.invokeSeq, i = j
  unqueued : ∀ t ∈ e.schQu, t.invoke ∉ sap.invokeSeq

/-- The `InvokeInfo`s of a SAP are those on its `invokeSeq`. -/
theorem WF.mem_invokeSeq (hw : WF e) (hsap : sap ∈ e.saps) (hv : e.heap i = some v) :
    v.locSap = sap.id ↔ i ∈ sap.invokeSeq := by
  rw [hw.linked.mem sap hsap i]
  constructor
  · intro hloc
    exact ⟨v, hv, hloc⟩
  · rintro ⟨w, hw', hloc⟩
    rw [hv] at hw'
    cases hw'
    exact hloc

/-- An `InvokeInfo` is on the `invokeSeq` of one SAP only. -/
theorem WF.invokeSeq_unique (hw : WF e) {s : SapInfo} (hs : s ∈ e.saps) (hsap : sap ∈ e.saps)
    (hi : i ∈ s.invokeSeq) (hi' : i ∈ sap.invokeSeq) : s.id = sap.id := by
  obtain ⟨w, hw', hloc⟩ := (hw.linked.mem s hs i).1 hi
  exact hloc.symm.trans ((hw.mem_invokeSeq hsap hw').2 hi')

/-- The engine after the first `InvokeInfo` of the SAP has been released, and the SAP dropped. -/
def unboundFirst (e : Engine) (sap : SapInfo) (i : InvokeId) : Engine :=
  (({ e with tmrQu := Function.update e.tmrQu i [] } : Engine).relInvoke i).dropSap sap.id

/-- The records of the other SAPs are as they were. -/
theorem unboundFirst_saps (hw : WF e) (hsap : sap ∈ e.saps) (hi : i ∈ sap.invokeSeq) :
    (unboundFirst e sap i).saps = e.saps.filter fun s => s.id ≠ sap.id := by
  show (e.saps.map fun s => { s with invokeSeq := s.invokeSeq.filter (· ≠ i) }).filter _ = _
  rw [List.filter_map]
  -- the filter of the identifiers does not look at the lists
  have hsame : ∀ s ∈ e.saps.filter fun s => s.id ≠ sap.id,
      ({ s with invokeSeq := s.invokeSeq.filter (· ≠ i) } : SapInfo) = s := by
    intro s hs
    obtain ⟨hmem, hne⟩ := List.mem_filter.1 hs
    have hnot : ∀ j ∈ s.invokeSeq, decide (j ≠ i) = true := by
      intro j hj
      refine decide_eq_true ?_
      rintro rfl
      exact (of_decide_eq_true hne) (hw.invokeSeq_unique hmem hsap hj hi)
    rw [List.filter_eq_self.2 hnot]
  exact (List.map_congr_left hsame).trans (List.map_id _)

/-- What it does to another `InvokeInfo`. -/
theorem unboundFirst_other (e : Engine) (sap : SapInfo) (hji : j ≠ i) :
    (unboundFirst e sap i).heap j = e.heap j ∧
    (unboundFirst e sap i).tmrQu j = e.tmrQu j ∧
    (∀ r, j ∈ (unboundFirst e sap i).refs.invoker r ↔ j ∈ e.refs.invoker r) ∧
    ∀ r, j ∈ (unboundFirst e sap i).refs.performer r ↔ j ∈ e.refs.performer r := by
  have hfilter : ∀ l : List InvokeId, j ∈ l.filter (· ≠ i) ↔ j ∈ l := by
    intro l
    rw [List.mem_filter]
    exact and_iff_left (decide_eq_true hji)
  exact ⟨Function.update_of_ne hji .., Function.update_of_ne hji .., fun r => hfilter _,
    fun r => hfilter _⟩

/-- The released one is back in the pool, and only a queued function can refer to it. -/
theorem unboundFirst_self (hqu : ∀ t ∈ e.schQu, t.invoke ≠ i) :
    (unboundFirst e sap i).heap i = none ∧ Unreferenced (unboundFirst e sap i) i := by
  have hfilter : ∀ l : List InvokeId, i ∉ l.filter (· ≠ i) := by
    intro l hmem
    exact of_decide_eq_true (List.mem_filter.1 hmem).2 rfl
  exact ⟨Function.update_self .., Function.update_self .., fun r => hfilter _, fun r => hfilter _, hqu⟩

/-- **With one `InvokeInfo` and no function queued** nothing stays behind. -/
theorem FewLeft.clean (hf : FewLeft e sap) (hw : WF e) (hsap : sap ∈ e.saps) (hi : i ∈ sap.invokeSeq) :
    CleanlyUnbound e sap (unboundFirst e sap i) where
  released j v hv hloc := by
    have hj : j ∈ sap.invokeSeq := (hw.mem_invokeSeq hsap hv).1 hloc
    -- there is only the first one
    obtain rfl : i = j := hf.one i hi j hj
    refine unboundFirst_self fun t ht hti => hf.unqueued t ht ?_
    rw [hti]
    exact hi
  saps := unboundFirst_saps hw hsap hi
  others j v hv hloc := by
    have hji : j ≠ i := by
      rintro rfl
      exact hloc ((hw.mem_invokeSeq hsap hv).2 hi)
    obtain ⟨hheap, htmr, hinv, hperf⟩ := unboundFirst_other e sap hji
    exact ⟨hheap.trans hv, htmr, hinv, hperf, fun t ht _ => ht⟩

/-- **Nothing of the SAP stays behind** if and only if it has at most one `InvokeInfo`, for which no
function is queued. -/
theorem unbind_clean_iff (hr : Reach (engine cfg) any hist e) (hsap : e.getSapInfo sel = some sap)
    (env : Env) :
    ∃ e' o, step cfg e ⟨.sapUnbind sel, env⟩ = some (e', o) ∧ .ret 0 ∈ o ∧
      (CleanlyUnbound e sap e' ↔ FewLeft e sap) := by
  have hw : WF e := .reach hr
  have hmem : sap ∈ e.saps := getSapInfo_mem hsap
  cases hseq : sap.invokeSeq with
  | nil =>
    have hstep : step cfg e ⟨.sapUnbind sel, env⟩ = some (e.dropSap sap.id, [.ret 0]) := by
      simp only [step, Engine.sapUnbind, hsap, hseq]
    have hempty : ∀ i, i ∉ sap.invokeSeq := by
      intro i
      rw [hseq]
      exact List.not_mem_nil
    refine ⟨_, _, hstep, List.mem_singleton_self _, iff_of_true ⟨?_, rfl, ?_⟩ ⟨?_, ?_⟩⟩
    · intro i v hv hloc
      exact absurd ((hw.mem_invokeSeq hmem hv).1 hloc) (hempty i)
    · intro i v hv _
      exact ⟨hv, rfl, fun _ => .rfl, fun _ => .rfl, fun t ht _ => ht⟩
    · intro i hi
      exact absurd hi (hempty i)
    · intro t _
      exact hempty t.invoke
  | cons i rest =>
    have hstep : step cfg e ⟨.sapUnbind sel, env⟩ =
        some (unboundFirst e sap i, [.released i, .ret 0]) := by
      simp only [step, Engine.sapUnbind, hsap, hseq]
      rfl
    have hi : i ∈ sap.invokeSeq := by
      rw [hseq]
      exact List.mem_cons_self
    refine ⟨_, _, hstep, List.mem_cons_of_mem _ (List.mem_singleton_self _), ?_, fun hf =>
      hf.clean hw hmem hi⟩
    intro hc
    -- what is on the list is not in the pool afterwards
    have hgone : ∀ j ∈ sap.invokeSeq, (unboundFirst e sap i).heap j = none ∧
        Unreferenced (unboundFirst e sap i) j := by
      intro j hj
      obtain ⟨v, hv, hloc⟩ := (hw.linked.mem sap hmem j).1 hj
      exact hc.released j v hv hloc
    have hall : ∀ j ∈ sap.invokeSeq, j = i := by
      intro j hj
      by_contra hji
      obtain ⟨v, hv, -⟩ := (hw.linked.mem sap hmem j).1 hj
      -- any but the first one stays in the heap
      have hstays := (unboundFirst_other e sap hji).1.trans hv
      rw [(hgone j hj).1] at hstays
      cases hstays
    refine ⟨fun j hj k hk => (hall j hj).trans (hall k hk).symm, fun t ht hti => ?_⟩
    exact (hgone _ hti).2.schQu t ht rfl

/-- A SAP with one invocation, whose request is out. -/
theorem unbind_clean_one : ∃ hist e sap e' o, Reach (engine {}) any hist e ∧
    e.getSapInfo 1 = some sap ∧ sap.invokeSeq = [0] ∧
    step {} e ⟨.sapUnbind 1, {}⟩ = some (e', o) ∧ CleanlyUnbound e sap e' := by
  obtain ⟨e, hist, hr, hp⟩ := Reach.of_run_any (S := engine {}) ⟨0, rfl⟩
    [⟨.sapBind 1 3, {}⟩, ⟨.invokeReq 1 ⟨7, 2, [0, 7], [10, 0, 0, 1], 5, .ber, some [42]⟩, {}⟩]
    (fun e _ => decide ((e.getSapInfo 1).map (·.invokeSeq) = some [0] ∧ e.schQu = [])) (by decide)
  obtain ⟨hseq, hqu⟩ := of_decide_eq_true hp
  obtain ⟨sap, hsap, hone⟩ := Option.map_eq_some_iff.1 hseq
  obtain ⟨e', o, hstep, -, hclean⟩ := unbind_clean_iff hr hsap {}
  refine ⟨hist, e, sap, e', o, hr, hsap, hone, hstep, hclean.2 ⟨?_, ?_⟩⟩
  · rw [hone]
    decide
  · rw [hqu]
    exact fun t ht => absurd ht List.not_mem_nil

/-- **Of two invocations**, the second one stays behind: it is not in the pool, its retransmission timer
is armed and its reference number is in use. -/
theorem unbind_leaves : ∃ hist e sap e' o v, Reach (engine {}) any hist e ∧
    e.getSapInfo 1 = some sap ∧ sap.invokeSeq = [0, 1] ∧
    step {} e ⟨.sapUnbind 1, {}⟩ = some (e', o) ∧ .ret 0 ∈ o ∧ e'.heap 1 = some v ∧
    v.locSap = sap.id ∧ e'.tmrQu 1 ≠ [] ∧ 1 ∈ e'.refs.invoker 2 ∧ ¬CleanlyUnbound e sap e' := by
  obtain ⟨e, hist, hr, hp⟩ := Reach.of_run_any (S := engine {}) ⟨0, rfl⟩
    [⟨.sapBind 1 3, {}⟩, ⟨.invokeReq 1 ⟨7, 2, [0, 7], [10, 0, 0, 1], 5, .ber, some [42]⟩, {}⟩,
      ⟨.invokeReq 1 ⟨8, 2, [0, 7], [10, 0, 0, 1], 5, .ber, some [43]⟩, {}⟩]
    (fun e _ => decide ((e.getSapInfo 1).map (fun s => (s.id, s.invokeSeq)) = some (0, [0, 1]) ∧
      (e.heap 1).map (·.locSap) = some 0 ∧ (e.sapUnbind 1).2 = [.released 0, .ret 0] ∧
      ((e.sapUnbind 1).1.heap 1).map (·.locSap) = some 0 ∧ (e.sapUnbind 1).1.tmrQu 1 ≠ [] ∧
      1 ∈ (e.sapUnbind 1).1.refs.invoker 2)) (by decide)
  obtain ⟨hsel, hheap, hout, hstays, htmr, href⟩ := of_decide_eq_true hp
  obtain ⟨sap, hsap, hfields⟩ := Option.map_eq_some_iff.1 hsel
  obtain ⟨hid, hseq⟩ := Prod.mk.inj hfields
  obtain ⟨v, hv, hloc⟩ := Option.map_eq_some_iff.1 hstays
  obtain ⟨w, hw, hwloc⟩ := Option.map_eq_some_iff.1 hheap
  have hout' : Out.ret 0 ∈ (e.sapUnbind 1).2 := by
    rw [hout]
    decide
  refine ⟨hist, e, sap, (e.sapUnbind 1).1, (e.sapUnbind 1).2, v, hr, hsap, hseq, rfl, hout', hv,
    hloc.trans hid.symm, htmr, href, fun hc => ?_⟩
  have hnone := (hc.released 1 w hw (hwloc.trans hid.symm)).1
  rw [hv] at hnone
  cases hnone

end Erop
