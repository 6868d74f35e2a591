import Mathlib.Data.List.Basic
import Mathlib.Tactic.Common

/-!
# Walks by a successor function

`Visits next a l`: from `a`, `next` gives the elements of `l` one after the other and then fails.

* `visits_filter`: a search for the next number with a property, from the one after the last, visits
  the numbers of a range that have it.
-/

namespace Walk

variable {α : Type*} {next : α → Option α} {a z : α} {l : List α}

/-- From `a` on, `next` gives the elements of `l`, and fails at the last of them. -/
inductive Visits (next : α → Option α) : α → List α → Prop
  | done {a : α} : next a = none → Visits next a []
  | visit {a b : α} {l : List α} : next a = some b → Visits next b l → Visits next a (b :: l)

/-- The walk ends where `next` fails. -/
theorem Visits.fails (hv : Visits next a l) (hz : l.getLast? = some z) : next z = none := by
  induction hv with
  | done => cases hz
  | @visit a b l _ hrest ih =>
    cases l with
    | nil =>
      obtain rfl := Option.some.inj hz
      cases hrest
      assumption
    | cons c l => exact ih (by rwa [List.getLast?_cons_cons] at hz)

variable {next : Nat → Option Nat} {p : Nat → Bool} {a j k n g : Nat} {l₁ l₂ : List Nat}

/-- **A search from the number after the last one visits those that have the property.** -/
theorem visits_filter (ha : next a = (List.range' j k).find? p)
    (hnext : ∀ g, j ≤ g → g < j + k → p g = true →
      next g = (List.range' (g + 1) (j + k - (g + 1))).find? p) :
    Visits next a ((List.range' j k).filter p) := by
  induction k generalizing a j with
  | zero => exact .done ha
  | succ k ih =>
    have hrest : ∀ g, j + 1 ≤ g → g < j + 1 + k → p g = true →
        next g = (List.range' (g + 1) (j + 1 + k - (g + 1))).find? p := by
      intro g hj hk hp
      rw [hnext g (by omega) (by omega) hp]
      congr 2
      omega
    rw [List.range'_succ] at ha ⊢
    by_cases hp : p j = true
    · rw [List.filter_cons_of_pos hp]
      rw [List.find?_cons_of_pos hp] at ha
      refine .visit ha (ih ?_ hrest)
      rw [hnext j (Nat.le_refl j) (by omega) hp]
      congr 2
      omega
    · rw [List.filter_cons_of_neg hp]
      rw [List.find?_cons_of_neg hp] at ha
      exact ih ha hrest

/-- What is before an element of a filtered range. -/
theorem filter_before (hl : (List.range' 1 n).filter p = l₁ ++ g :: l₂) :
    l₁ = (List.range' 1 (g - 1)).filter p := by
  have hsorted : (l₁ ++ g :: l₂).Pairwise (· < ·) := by
    rw [← hl]
    exact List.Pairwise.filter p List.pairwise_lt_range'
  have hg : g ∈ List.range' 1 n := by
    have : g ∈ (List.range' 1 n).filter p := by
      rw [hl]
      exact List.mem_append_right l₁ List.mem_cons_self
    exact (List.mem_filter.1 this).1
  rw [List.mem_range'_1] at hg
  obtain ⟨-, hafter, hbefore⟩ := List.pairwise_append.1 hsorted
  -- below `g` are the elements of `l₁` on the one side, a shorter range on the other
  have hleft : (l₁ ++ g :: l₂).filter (· < g) = l₁ := by
    rw [List.filter_append, List.filter_eq_self.2 fun x hx => by
        simpa using hbefore x hx g List.mem_cons_self, List.filter_eq_nil_iff.2, List.append_nil]
    intro x hx
    rcases List.mem_cons.1 hx with rfl | hx
    · simp
    · have := List.rel_of_pairwise_cons hafter hx
      simp only [decide_eq_true_eq]
      omega
  have hright : (List.range' 1 n).filter (· < g) = List.range' 1 (g - 1) := by
    have hsplit : List.range' 1 n = List.range' 1 (g - 1) ++ List.range' g (n - (g - 1)) := by
      have := List.range'_append_1 (s := 1) (m := g - 1) (n := n - (g - 1))
      rw [show 1 + (g - 1) = g by omega, show g - 1 + (n - (g - 1)) = n by omega] at this
      exact this.symm
    rw [hsplit, List.filter_append, List.filter_eq_self.2, List.filter_eq_nil_iff.2, List.append_nil]
    · intro x hx
      have := List.mem_range'_1.1 hx
      simp only [decide_eq_true_eq]
      omega
    · intro x hx
      have := List.mem_range'_1.1 hx
      simp only [decide_eq_true_eq]
      omega
  rw [← hright, List.filter_filter, ← hleft, ← hl, List.filter_filter]
  congr 1
  funext x
  exact Bool.and_comm ..

end Walk
