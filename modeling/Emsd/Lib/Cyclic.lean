import Mathlib.Logic.Function.Iterate
import Mathlib.Tactic.Common

/-!
# Cyclic search

`searchFrom next free` looks at no more than a given number of successive positions for
a free one. Over a cyclic successor of `n` positions, `n` tries look at all of them:
the search finds a free position whenever there is one (`searchFrom_exhaustive`).
-/

namespace Cyclic

variable {α : Type*} (next : α → α) (free : α → Bool)

/-- Advance until a free position is met: the last position looked at, and whether it is free. -/
def searchFrom : Nat → α → α × Bool
  | 0, r => (r, false)
  | k + 1, r => if free (next r) then (next r, true) else searchFrom k (next r)

variable {next free}

theorem searchFrom_found {k : Nat} {r : α} (h : (searchFrom next free k r).2 = true) :
    free (searchFrom next free k r).1 = true := by
  induction k generalizing r with
  | zero => simp [searchFrom] at h
  | succ k ih =>
    unfold searchFrom at h ⊢
    split
    · rename_i hf; exact hf
    · rename_i hf; rw [if_neg hf] at h; exact ih h

theorem searchFrom_failed {k : Nat} {r : α} (h : (searchFrom next free k r).2 = false) :
    ∀ j, j < k → free (next^[j + 1] r) = false := by
  induction k generalizing r with
  | zero => intro j hj; omega
  | succ k ih =>
    unfold searchFrom at h
    split at h
    · simp at h
    · rename_i hf
      intro j hj
      cases j with
      | zero => simpa using hf
      | succ j =>
        rw [Function.iterate_succ_apply]
        exact ih h j (by omega)

/-- The successor on `0 … n - 1`, which takes every other number to `0`. -/
def succ (n r : Nat) : Nat := if r + 1 ≥ n then 0 else r + 1

theorem succ_lt {n : Nat} (hn : 0 < n) (r : Nat) : succ n r < n := by
  unfold succ; split <;> omega

theorem succ_iterate_of_lt {n r : Nat} : ∀ {j : Nat}, r + j < n → (succ n)^[j] r = r + j
  | 0, _ => rfl
  | j + 1, h => by
    rw [Function.iterate_succ_apply', succ_iterate_of_lt (by omega)]
    unfold succ; split <;> omega

/-- Every position is one of the first `n` met, wherever the search starts. -/
theorem succ_iterate_surj {n x : Nat} (r : Nat) (hx : x < n) :
    ∃ j, j < n ∧ (succ n)^[j + 1] r = x := by
  rcases Nat.lt_or_ge r x with h | h
  · refine ⟨x - r - 1, by omega, ?_⟩
    rw [succ_iterate_of_lt (by omega)]; omega
  · -- `d + 1` steps lead back to `0`, `x` more lead to `x`
    have hwrap : ∃ d, d + x < n ∧ (succ n)^[d + 1] r = 0 := by
      rcases Nat.lt_or_ge r n with hr | hr
      · refine ⟨n - r - 1, by omega, ?_⟩
        rw [Function.iterate_succ_apply', succ_iterate_of_lt (by omega)]
        unfold succ; rw [if_pos (by omega)]
      · refine ⟨0, by omega, ?_⟩
        rw [Function.iterate_succ_apply, Function.iterate_zero_apply]
        unfold succ; rw [if_pos (by omega)]
    obtain ⟨d, hd, hz⟩ := hwrap
    refine ⟨d + x, hd, ?_⟩
    have : d + x + 1 = x + (d + 1) := by omega
    rw [this, Function.iterate_add_apply, hz, succ_iterate_of_lt (by omega)]
    omega

/-- **Exhaustive search.** A search of `n` tries over `n` cyclic positions fails only when
no position is free. -/
theorem searchFrom_exhaustive {n r : Nat} {free : Nat → Bool}
    (h : (searchFrom (succ n) free n r).2 = false) : ∀ x, x < n → free x = false := by
  intro x hx
  obtain ⟨j, hj, he⟩ := succ_iterate_surj r hx
  rw [← he]; exact searchFrom_failed h j hj

theorem searchFrom_lt {n k r : Nat} {free : Nat → Bool} (hn : 0 < n)
    (h : (searchFrom (succ n) free k r).2 = true) : (searchFrom (succ n) free k r).1 < n := by
  induction k generalizing r with
  | zero => simp [searchFrom] at h
  | succ k ih =>
    unfold searchFrom at h ⊢
    split
    · exact succ_lt hn r
    · rename_i hf; rw [if_neg hf] at h; exact ih h

end Cyclic
