import Mathlib.Data.List.Basic

/-!
# Programs as the calls that they make

A program that learns nothing from its calls except whether they succeed: the calls in order, each with
a note of where the program is when it makes it, and how it ends when all of them succeed. The first
call that fails ends it there.

* `halts_andThen`, `ending_andThen`: where a program that is put together from two can come to a halt,
  and how it ends.
* `run_finished_iff`, `run_refused`, `run_stopped`: how a run ends.
-/

variable {γ ν ε α β σ : Type}

/-- A program: it ends with a value, or it stops of its own accord. -/
structure Script (γ ν ε α : Type) where
  calls : List (γ × ν)
  ending : Except (ε × ν) α

namespace Script

/-- The same calls from one place, and a value. -/
def perform (calls : List γ) (n : ν) (a : α) : Script γ ν ε α := ⟨calls.map (·, n), .ok a⟩

def stop (e : ε) (n : ν) : Script γ ν ε α := ⟨[], .error (e, n)⟩

def andThen (r : Script γ ν ε α) (next : α → Script γ ν ε β) : Script γ ν ε β :=
  match r.ending with
  | .error e => ⟨r.calls, .error e⟩
  | .ok a => ⟨r.calls ++ (next a).calls, (next a).ending⟩

/-- The program can come to a halt where `n` says. -/
def Halts (r : Script γ ν ε α) (n : ν) : Prop :=
  (∃ call, (call, n) ∈ r.calls) ∨ ∃ e, r.ending = .error (e, n)

variable {r : Script γ ν ε α} {next : α → Script γ ν ε β} {a : α} {b : β} {n n' : ν} {e : ε}
  {call : γ → σ → Option σ} {s s' : σ} {calls calls' : List (γ × ν)}

theorem halts_perform {l : List γ} (h : (perform l n' a : Script γ ν ε α).Halts n) : n = n' := by
  rcases h with ⟨c, hc⟩ | ⟨e, he⟩
  · obtain ⟨c', -, heq⟩ := List.mem_map.1 hc
    exact (Prod.mk.inj heq).2.symm
  · cases he

theorem halts_stop (h : (stop e n' : Script γ ν ε α).Halts n) : n = n' := by
  rcases h with ⟨c, hc⟩ | ⟨e', he⟩
  · cases hc
  · exact (Prod.mk.inj (Except.error.inj he)).2.symm

theorem andThen_of_ok (h : r.ending = .ok a) :
    r.andThen next = ⟨r.calls ++ (next a).calls, (next a).ending⟩ := by
  unfold andThen
  rw [h]

/-- **A halt** of two programs, one after the other. -/
theorem halts_andThen (h : (r.andThen next).Halts n) :
    r.Halts n ∨ ∃ a, r.ending = .ok a ∧ (next a).Halts n := by
  unfold andThen at h
  cases hend : r.ending with
  | error e =>
    rw [hend] at h
    rcases h with hcall | ⟨e', he⟩
    · exact .inl (.inl hcall)
    · exact .inl (.inr ⟨e', hend.trans (congrArg _ (Except.error.inj he))⟩)
  | ok a =>
    rw [hend] at h
    rcases h with ⟨c, hc⟩ | hstop
    · rcases List.mem_append.1 hc with hc | hc
      · exact .inl (.inl ⟨c, hc⟩)
      · exact .inr ⟨a, rfl, .inl ⟨c, hc⟩⟩
    · exact .inr ⟨a, rfl, .inr hstop⟩

/-- **The value** of two programs, one after the other. -/
theorem ending_andThen :
    (r.andThen next).ending = .ok b ↔ ∃ a, r.ending = .ok a ∧ (next a).ending = .ok b := by
  unfold andThen
  cases r.ending with
  | error e => simp
  | ok a => simp

/-! ## Running a program -/

/-- The calls, up to one that fails. -/
def runCalls (call : γ → σ → Option σ) : List (γ × ν) → σ → Except (ν × σ) σ
  | [], s => .ok s
  | (c, n) :: calls, s =>
    match call c s with
    | none => .error (n, s)
    | some s => runCalls call calls s

/-- How a run ends. -/
inductive Outcome (ν ε α σ : Type)
  | finished (a : α) (s : σ)
  /-- A call has failed. -/
  | refused (n : ν) (s : σ)
  | stopped (e : ε) (n : ν) (s : σ)

def run (call : γ → σ → Option σ) (r : Script γ ν ε α) (s : σ) : Outcome ν ε α σ :=
  match runCalls call r.calls s with
  | .error (n, s) => .refused n s
  | .ok s =>
    match r.ending with
    | .ok a => .finished a s
    | .error (e, n) => .stopped e n s

theorem run_finished_iff :
    run call r s = .finished a s' ↔ r.ending = .ok a ∧ runCalls call r.calls s = .ok s' := by
  unfold run
  cases runCalls call r.calls s with
  | error e => simp
  | ok s₁ =>
    cases r.ending with
    | error e => simp
    | ok a' => simp

/-- A call that fails is one of the calls. -/
theorem runCalls_error (h : runCalls call calls s = .error (n, s')) : ∃ c, (c, n) ∈ calls := by
  induction calls generalizing s with
  | nil => cases h
  | cons cn calls ih =>
    obtain ⟨c, n₁⟩ := cn
    unfold runCalls at h
    cases hcall : call c s with
    | none =>
      rw [hcall] at h
      obtain ⟨rfl, -⟩ := Prod.mk.inj (Except.error.inj h)
      exact ⟨c, List.mem_cons_self⟩
    | some s₁ =>
      rw [hcall] at h
      obtain ⟨c', hc'⟩ := ih h
      exact ⟨c', List.mem_cons_of_mem _ hc'⟩

theorem run_refused (h : run call r s = .refused n s') : r.Halts n := by
  unfold run at h
  cases hcalls : runCalls call r.calls s with
  | error e =>
    obtain ⟨n₁, s₁⟩ := e
    rw [hcalls] at h
    obtain ⟨rfl, -⟩ := Outcome.refused.inj h
    exact .inl (runCalls_error hcalls)
  | ok s₁ =>
    rw [hcalls] at h
    cases hend : r.ending with
    | error e => rw [hend] at h; cases h
    | ok a => rw [hend] at h; cases h

theorem run_stopped (h : run call r s = .stopped e n s') : r.Halts n := by
  unfold run at h
  cases hcalls : runCalls call r.calls s with
  | error e => rw [hcalls] at h; cases h
  | ok s₁ =>
    rw [hcalls] at h
    cases hend : r.ending with
    | error e =>
      rw [hend] at h
      obtain ⟨rfl, rfl, -⟩ := Outcome.stopped.inj h
      exact .inr ⟨_, hend⟩
    | ok a => rw [hend] at h; cases h

end Script
