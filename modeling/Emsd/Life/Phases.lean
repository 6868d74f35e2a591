import Emsd.Lib.Run

/-!
# The life of an invocation

What an invocation is to the user, whatever the engine does about timers, numbers and PDUs:
the user asks or is shown a request, is told of **one** outcome, and the invocation is
released. `Move` is that protocol, with the marks it leaves on the way.

An outcome may get lost for lack of memory; the next phase is entered all the same. A
performer that is about to be released may be shown a request again. With `loss = false`
that request at least does not get lost.

* `count_final_of_accepted`: an accepted request has at most one outcome.
* `count_final_of_shown`: with `loss = false`, so has every request that is shown.
* `freed_last`: nothing follows the release.
-/

namespace Life

open Run

/-- What the user and the pool see of an invocation. -/
inductive Mark
  | accepted
  | shown
  | final
  | release
  | freed
  deriving DecidableEq, Repr

inductive Phase
  | unborn
  /-- an invoker has asked and waits for the outcome -/
  | asked
  /-- the performer's user is at work -/
  | shown
  | replied
  /-- the outcome is known, the reference number is kept for a while -/
  | kept (performing : Bool)
  /-- the release is scheduled -/
  | ended (performing : Bool)
  /-- left behind, without a machine -/
  | idle
  | gone
  deriving DecidableEq, Repr

open Mark Phase

/-- One move of an invocation. -/
inductive Move (loss : Bool) : Phase → List Mark → Phase → Prop
  | stay (p) : Move loss p [] p
  | accept : Move loss .unborn [accepted] .asked
  | receive : Move loss .unborn [.shown] .shown
  | receiveLost : Move loss .unborn [] .shown
  | leave : Move loss .unborn [] .idle
  | answer : Move loss .asked [final] (kept false)
  | answerLost : Move loss .asked [] (kept false)
  | reply : Move loss .shown [] .replied
  | silent : Move loss .shown [final, release] (ended true)
  | silentLost : Move loss .shown [release] (ended true)
  | confirm : Move loss .replied [final] (kept true)
  | confirmLost : Move loss .replied [] (kept true)
  | expire (b) : Move loss (kept b) [release] (ended b)
  | again : Move loss (ended true) [.shown] .shown
  | againLost (h : loss = true) : Move loss (ended true) [] .shown
  | free {p} (h : p ≠ .unborn) (hg : p ≠ .gone) : Move loss p [freed] .gone

variable {loss : Bool} {p q : Phase} {w pre post : List Mark}

/-- A request is shown at the beginning, or again after the end. -/
theorem Move.of_shown (h : Move loss p w q) (hw : Mark.shown ∈ w) : p = .unborn ∨ p = ended true := by
  cases h with
  | receive => exact .inl rfl
  | again => exact .inr rfl
  | _ => simp at hw

/-- The release is scheduled at the end of a move, which leads to the end. -/
theorem Move.of_release (h : Move loss p w q) (hw : release ∈ w) :
    (∃ b, q = ended b) ∧ ∃ u, w = u ++ [release] ∧ release ∉ u := by
  cases h with
  | silent => exact ⟨⟨true, rfl⟩, [final], rfl, by simp⟩
  | silentLost => exact ⟨⟨true, rfl⟩, [], rfl, by simp⟩
  | expire b => exact ⟨⟨b, rfl⟩, [], rfl, by simp⟩
  | _ => simp at hw

/-- How many outcomes a phase can have behind it. -/
def Phase.outcomes : Phase → Nat
  | kept _ | ended _ | gone => 1
  | _ => 0

/-- The phases of an invocation that this side asked for. -/
def Phase.invoking : Phase → Bool
  | asked | kept false | ended false => true
  | _ => false

/-- The outcomes of an invocation on the side that asks. -/
structure AskedOk (w : List Mark) (q : Phase) : Prop where
  unborn : q = .unborn → w = []
  invoking : q.invoking = true → w.count final ≤ q.outcomes
  accepted : accepted ∈ w → q.invoking = true ∨ (q = .gone ∧ w.count final ≤ 1)

theorem askedOk (h : Trace (Move loss) .unborn w q) : AskedOk w q := by
  refine h.invariant ⟨fun _ => rfl, by simp [Phase.invoking], by simp⟩ ?_
  intro w q v r ⟨h1, h2, h3⟩ hm
  cases hm with
  | stay => simpa using ⟨h1, h2, h3⟩
  | accept => rw [h1 rfl]; exact ⟨by simp, by simp [Phase.outcomes], by simp [Phase.invoking]⟩
  | receive | receiveLost | leave =>
    rw [h1 rfl]; exact ⟨by simp, by simp [Phase.invoking], by simp⟩
  | answer | answerLost =>
    have := h2 rfl
    refine ⟨by simp, fun _ => ?_, fun _ => .inl rfl⟩
    simp only [Phase.outcomes] at this ⊢
    simp
    omega
  | expire b =>
    refine ⟨by simp, fun hi => ?_, fun ha => ?_⟩
    · cases b with
      | false => simpa [Phase.outcomes] using h2 rfl
      | true => simp [Phase.invoking] at hi
    · rcases h3 (by simpa using ha) with hi | ⟨hg, -⟩
      · cases b with
        | false => exact .inl rfl
        | true => simp [Phase.invoking] at hi
      · cases hg
  | free hne =>
    refine ⟨by simp, by simp [Phase.invoking], fun ha => .inr ⟨rfl, ?_⟩⟩
    rcases h3 (by simpa using ha) with hi | ⟨rfl, hc⟩
    · have := h2 hi
      have hle : q.outcomes ≤ 1 := by cases q <;> simp [Phase.outcomes]
      simp
      omega
    · simpa using hc
  | reply | silent | silentLost | confirm | confirmLost | again | againLost =>
    refine ⟨by simp, by simp [Phase.invoking], fun ha => ?_⟩
    rcases h3 (by simpa using ha) with hi | ⟨hg, -⟩
    · simp [Phase.invoking] at hi
    · cases hg

/-- **At most one outcome** of a request that has been accepted. -/
theorem count_final_of_accepted (h : Trace (Move loss) .unborn w q) (ha : accepted ∈ w) :
    w.count final ≤ 1 := by
  obtain ⟨-, h2, h3⟩ := askedOk h
  rcases h3 ha with hi | ⟨-, hc⟩
  · have hle : q.outcomes ≤ 1 := by cases q <;> simp [Phase.outcomes]
    exact Nat.le_trans (h2 hi) hle
  · exact hc

/-- The outcomes since the request was shown the last time. -/
def sinceShown (w : List Mark) : Nat :=
  w.foldl (fun n m => if m = .shown then 0 else if m = .final then n + 1 else n) 0

theorem sinceShown_append (w v : List Mark) : sinceShown (w ++ v) =
    v.foldl (fun n m => if m = .shown then 0 else if m = .final then n + 1 else n)
      (sinceShown w) := List.foldl_append

theorem foldl_eq_count (hp : Mark.shown ∉ post) (n : Nat) :
    post.foldl (fun n m => if m = .shown then 0 else if m = .final then n + 1 else n) n =
      n + post.count final := by
  induction post generalizing n with
  | nil => rfl
  | cons m post ih =>
    obtain ⟨hm, hpost⟩ := not_or.1 (mt List.mem_cons.2 hp)
    rw [List.foldl_cons, if_neg (Ne.symm hm), ih hpost, List.count_cons]
    by_cases hf : m = final
    · simp [hf]
      omega
    · simp [hf]

theorem sinceShown_eq (hp : Mark.shown ∉ post) :
    sinceShown (pre ++ .shown :: post) = post.count final := by
  rw [sinceShown_append, List.foldl_cons, if_pos rfl, foldl_eq_count hp]
  omega

/-- Every phase has as many outcomes behind it as it says. -/
theorem sinceShown_le (h : Trace (Move false) .unborn w q) : sinceShown w ≤ q.outcomes := by
  refine h.invariant (P := fun w q => sinceShown w ≤ q.outcomes) (Nat.le_refl 0) ?_
  intro w q v r hw hm
  rw [sinceShown_append]
  have hle : q.outcomes ≤ 1 := by cases q <;> simp [Phase.outcomes]
  cases hm with
  | againLost h => cases h
  | free =>
    simp only [List.foldl_cons, List.foldl_nil]
    exact Nat.le_trans hw hle
  | _ => simp_all [Phase.outcomes]

/-- **At most one outcome** of a request that has been shown. -/
theorem count_final_of_shown (h : Trace (Move false) .unborn (pre ++ .shown :: post) q)
    (hp : Mark.shown ∉ post) : post.count final ≤ 1 := by
  have h1 := sinceShown_le h
  have hle : q.outcomes ≤ 1 := by cases q <;> simp [Phase.outcomes]
  rw [sinceShown_eq hp] at h1
  omega

theorem freed_gone (h : Trace (Move loss) .unborn w q) (hf : freed ∈ w) :
    q = .gone ∧ ∃ u, w = u ++ [freed] ∧ freed ∉ u := by
  have h0 : ¬freed ∈ ([] : List Mark) := List.not_mem_nil
  refine h.invariant (P := fun w q => freed ∈ w → q = .gone ∧ ∃ u, w = u ++ [freed] ∧ freed ∉ u)
    (fun hf => absurd hf h0) ?_ hf
  intro w q v r ih hm
  cases hm with
  | stay => simpa using ih
  | free hne hg =>
    intro _
    refine ⟨rfl, w, rfl, fun hw => hg (ih hw).1⟩
  | _ =>
    -- no other move leaves `gone`, and none marks the release
    intro hf
    have := (ih (by simpa using hf)).1
    simp at this

/-- An invocation is freed once. -/
theorem count_freed (h : Trace (Move loss) .unborn w q) (hf : freed ∈ w) : w.count freed = 1 := by
  obtain ⟨-, u, rfl, hu⟩ := freed_gone h hf
  simp [List.count_eq_zero.2 hu]

/-- **The release is the last that happens.** -/
theorem freed_last (h : Trace (Move loss) .unborn (pre ++ freed :: post) q) : post = [] := by
  obtain ⟨-, u, hu, hfreed⟩ := freed_gone h (by simp)
  rcases List.eq_nil_or_concat post with hp | ⟨post', m, rfl⟩
  · exact hp
  · refine absurd ?_ hfreed
    rw [List.concat_eq_append, ← List.cons_append, ← List.append_assoc] at hu
    rw [← (List.append_inj' hu rfl).1]
    simp

end Life
