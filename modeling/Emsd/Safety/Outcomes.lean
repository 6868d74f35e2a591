import Emsd.Life.Refinement

/-!
# At most one outcome

* `invoker_told_once`: the user of an invoker is told of at most one outcome of a request,
  and of none after the release, in every run.
* `performer_told_once`: so is the user of a performer for every request that it is shown, in
  every run without a restart that loses its indication. With such a restart it may be told
  twice (`performer_told_twice`).

Both follow from the life of an invocation, which the engine refines.
-/

namespace Erop

open Ocp Life Run

variable {cfg : Config} {e : Engine} {i : InvokeId} {hist pre post : List Out}

/-- RESULT.indication, ERROR.indication or FAILURE.indication is scheduled for `i`. -/
def tellsInvoker (i : InvokeId) : Out → Bool
  | .sch (.resultInd j ..) | .sch (.errorInd j ..) | .sch (.failureInd j ..) => j = i
  | _ => false

/-- RESULT.confirm, ERROR.confirm or FAILURE.indication is scheduled for `i`. -/
def tellsPerformer (i : InvokeId) : Out → Bool
  | .sch (.resultCnf j _) | .sch (.errorCnf j _) | .sch (.failureInd j ..) => j = i
  | _ => false

/-- INVOKE.indication is scheduled for `i`. -/
def shows (i : InvokeId) : Out → Bool
  | .sch (.invokeInd j ..) => j = i
  | _ => false

theorem mark_of_tellsInvoker {x : Out} (h : tellsInvoker i x = true) : x.mark i = some .final := by
  cases x with
  | sch t => cases t <;> simp_all [tellsInvoker, Out.mark, Task.mark, Task.invoke]
  | _ => cases h

theorem mark_of_tellsPerformer {x : Out} (h : tellsPerformer i x = true) :
    x.mark i = some .final := by
  cases x with
  | sch t => cases t <;> simp_all [tellsPerformer, Out.mark, Task.mark, Task.invoke]
  | _ => cases h

theorem mark_of_shows {x : Out} : x.mark i = some .shown ↔ shows i x = true := by
  cases x with
  | sch t =>
    by_cases ht : t.invoke = i
    · rw [Out.mark, if_pos ht, Option.some_inj]
      cases t <;> simp_all [shows, Task.mark, Task.invoke]
    · rw [Out.mark, if_neg ht]
      cases t <;> simp_all [shows, Task.invoke]
  | _ => simp [shows, Out.mark]

/-- Outputs that leave the mark `final` are counted by it. -/
theorem countP_le_final {p : Out → Bool} (hp : ∀ x, p x = true → x.mark i = some .final)
    (l : List Out) : l.countP p ≤ (marks i l).count .final := by
  unfold marks
  rw [List.count, List.countP_filterMap]
  refine List.countP_mono_left fun x _ hx => ?_
  rw [hp x hx]
  rfl

theorem mem_marks {x : Out} {l : List Out} {m : Mark} (hx : x ∈ l) (hm : x.mark i = some m) :
    m ∈ marks i l := List.mem_filterMap.2 ⟨x, hx, hm⟩

/-- **One outcome for the invoker.** Of an invocation that has been accepted its user is told at
most one outcome, and none after the release. -/
theorem invoker_told_once (hr : Reach (engine cfg) Run.any hist e) (ha : .invokeDesc i ∈ hist) :
    hist.countP (tellsInvoker i) ≤ 1 ∧
      ∀ pre post, hist = pre ++ .released i :: post → post.countP (tellsInvoker i) = 0 := by
  have hlife : Trace (Move true) .unborn (marks i hist) (e.phase i) := Reach.life hr (by simp)
  constructor
  · refine Nat.le_trans (countP_le_final (fun _ => mark_of_tellsInvoker) hist) ?_
    exact count_final_of_accepted hlife (mem_marks ha (by simp [Out.mark]))
  · rintro pre post rfl
    have hcount := countP_le_final (fun _ => mark_of_tellsInvoker) (i := i) post
    rw [marks_append, marks_cons] at hlife
    have hfreed : Trace (Move true) .unborn (marks i pre ++ .freed :: marks i post) (e.phase i) := by
      simpa [Out.mark] using hlife
    have hpost : marks i post = [] := freed_last hfreed
    rw [hpost] at hcount
    simpa using hcount

/-- A PDU that arrives from the one peer of the sample runs. -/
def fromPeer (pdu : Octets) : Input := ⟨.udpInd [0, 7] [10, 0, 0, 1] (.ofOctets pdu), {}⟩

/-- A request, and its RESULT PDU twice. -/
def answeredRun : List Input :=
  [⟨.sapBind 1 3, {}⟩, ⟨.invokeReq 1 ⟨7, 2, [0, 7], [10, 0, 0, 1], 5, .ber, some [42]⟩, {}⟩,
    fromPeer [1, 1, 99], ⟨.schRun, {}⟩, fromPeer [1, 1, 99]]

theorem invoker_told_once_answeredRun : ∃ hist e, Reach (engine {}) Run.any hist e ∧
    .sch (.resultInd 0 7 .ber (some [99])) ∈ hist ∧ hist.countP (tellsInvoker 0) ≤ 1 := by
  obtain ⟨e, hist, hr, hm⟩ := Reach.of_run_any (S := engine {}) ⟨0, rfl⟩ answeredRun
    (fun _ h => .invokeDesc 0 ∈ h ∧ .sch (.resultInd 0 7 .ber (some [99])) ∈ h) (by decide)
  obtain ⟨ha, ht⟩ := of_decide_eq_true hm
  exact ⟨hist, e, hr, ht, (invoker_told_once hr ha).1⟩

/-- **One outcome for the performer.** In a run without a restart of `i` that loses its indication,
the user of `i` is told at most one outcome of each request that it is shown. -/
theorem performer_told_once {ind : Out}
    (hr : Reach (engine cfg) (fun e inp => Restarts e inp i → inp.env.memGet = true)
      (pre ++ ind :: post) e)
    (hind : shows i ind = true) (hpost : ∀ x ∈ post, shows i x = false) :
    post.countP (tellsPerformer i) ≤ 1 := by
  have hlife : Trace (Move false) .unborn (marks i (pre ++ ind :: post)) (e.phase i) :=
    Reach.life hr fun _ _ _ hok => hok
  rw [marks_append, marks_cons, mark_of_shows.2 hind] at hlife
  refine Nat.le_trans (countP_le_final (fun _ => mark_of_tellsPerformer) post) ?_
  have hshown : Trace (Move false) .unborn (marks i pre ++ .shown :: marks i post) (e.phase i) := by
    simpa using hlife
  refine count_final_of_shown hshown fun hm => ?_
  obtain ⟨x, hx, hxm⟩ := List.mem_filterMap.1 hm
  have := hpost x hx
  rw [mark_of_shows.1 hxm] at this
  cases this

/-- A request, the reply of the user, its confirmation, and the INVOKE PDU once more. -/
def confirmedRun : List Input :=
  [⟨.sapBind 1 3, {}⟩, fromPeer [0x10, 9, 2, 42], ⟨.schRun, {}⟩,
    ⟨.resultReq 0 1 .ber (some [7]), {}⟩, fromPeer [3, 9], fromPeer [0x10, 9, 2, 42]]

theorem performer_told_once_confirmedRun : ∃ (ind : Out) (post : List Out), shows 0 ind = true ∧
    .sch (.resultCnf 0 1) ∈ post ∧ post.countP (tellsPerformer 0) ≤ 1 := by
  have hb : ∀ (e : Engine) (inp : Input), inp.env.memGet = true →
      (Restarts e inp 0 → inp.env.memGet = true) := fun _ _ h _ => h
  obtain ⟨e, hist, hr, hm⟩ := Reach.of_run (S := engine {}) hb ⟨0, rfl⟩ confirmedRun
    (fun _ h => h = h.take 1 ++ h.getD 1 (.ret 0) :: h.drop 2 ∧ shows 0 (h.getD 1 (.ret 0)) ∧
      (∀ x ∈ h.drop 2, shows 0 x = false) ∧ .sch (.resultCnf 0 1) ∈ h.drop 2) (by decide)
  obtain ⟨hsplit, hind, hpost, hc⟩ := of_decide_eq_true hm
  rw [hsplit] at hr
  exact ⟨_, _, hind, hc, performer_told_once hr hind hpost⟩

/-- An exchange that ends well, then, before the release is run, the INVOKE PDU once more, when
there is no memory for its indication; the user replies again. -/
def againRun : List Input :=
  [⟨.sapBind 1 3, {}⟩, fromPeer [0x10, 9, 2, 42], ⟨.schRun, {}⟩,
    ⟨.resultReq 0 1 .ber (some [7]), {}⟩, fromPeer [3, 9], ⟨.schRun, {}⟩,
    ⟨.tmrRsp 0 ⟨.refNuTimer, 70000, 0⟩, {}⟩,
    { fromPeer [0x10, 9, 2, 42] with env.memGet := false },
    ⟨.resultReq 0 1 .ber (some [7]), {}⟩, fromPeer [3, 9]]

/-- Without the condition a 3-way performer may be told of two outcomes of one request. -/
theorem performer_told_twice : ∃ pre ind post e, Reach (engine {}) Run.any (pre ++ ind :: post) e ∧
    shows 0 ind = true ∧ (∀ x ∈ post, shows 0 x = false) ∧
    (e.heap 0).map (·.transDiag) = some (some .clPerformer) ∧
    post.countP (tellsPerformer 0) = 2 := by
  obtain ⟨e, hist, hr, hm⟩ := Reach.of_run_any (S := engine {}) ⟨0, rfl⟩ againRun
    (fun e h => h = h.take 1 ++ h.getD 1 (.ret 0) :: h.drop 2 ∧ shows 0 (h.getD 1 (.ret 0)) ∧
      (∀ x ∈ h.drop 2, shows 0 x = false) ∧
      (e.heap 0).map (·.transDiag) = some (some .clPerformer) ∧
      (h.drop 2).countP (tellsPerformer 0) = 2) (by decide)
  obtain ⟨hsplit, h⟩ := of_decide_eq_true hm
  rw [hsplit] at hr
  exact ⟨_, _, _, e, hr, h⟩

end Erop
