import Mathlib.Data.List.Basic
import Mathlib.Tactic.Common

/-!
# Slices of a list

The part of a list between two offsets, and what a change at an offset does to it.

* `slice_set_outside`: a change elsewhere leaves a slice alone.
* `slice_set_front`: a slice that is extended at its front by the element that is set there.
-/

namespace Slice

variable {α : Type*} {l : List α} {a b k n : Nat} {x : α}

/-- The elements from offset `a` up to offset `b`. -/
def slice (l : List α) (a b : Nat) : List α := (l.take b).drop a

theorem slice_length (hb : b ≤ l.length) : (slice l a b).length = b - a := by
  rw [slice, List.length_drop, List.length_take, Nat.min_eq_left hb]

@[simp] theorem slice_self : slice l a a = [] := by
  rw [slice, List.drop_eq_nil_iff, List.length_take]
  exact Nat.min_le_left _ _

@[simp] theorem slice_zero_length : slice l 0 l.length = l := by
  rw [slice, List.take_length, List.drop_zero]

theorem slice_getElem? (hk : a + k < b) : (slice l a b)[k]? = l[a + k]? := by
  rw [slice, List.getElem?_drop, List.getElem?_take_of_lt hk]

/-- The elements that a slice has left from offset `n` of the list on. -/
theorem slice_drop : (slice l a b).drop n = slice l (a + n) b := by
  rw [slice, slice, List.drop_drop]

theorem slice_take (h : a + n ≤ b) : (slice l a b).take n = slice l a (a + n) := by
  rw [slice, slice, List.take_drop, List.take_take, Nat.min_eq_left h]

theorem slice_cons (ha : a < b) (hx : l[a]? = some x) : slice l a b = x :: slice l (a + 1) b := by
  obtain ⟨hlt, rfl⟩ := List.getElem?_eq_some_iff.1 hx
  have hmin : a < (l.take b).length := by
    rw [List.length_take]
    omega
  rw [slice, slice, List.drop_eq_getElem_cons hmin, List.getElem_take]

theorem slice_set_outside (h : k < a ∨ b ≤ k) : slice (l.set k x) a b = slice l a b := by
  apply List.ext_getElem?
  intro j
  rw [slice, slice, List.getElem?_drop, List.getElem?_drop, List.getElem?_take, List.getElem?_take]
  split
  · rw [List.getElem?_set_ne (by omega)]
  · rfl

theorem slice_set_front (hab : k < b) (hk : k < l.length) :
    slice (l.set k x) k b = x :: slice l (k + 1) b := by
  rw [slice_cons hab (List.getElem?_set_self hk), slice_set_outside (.inl (Nat.lt_succ_self k))]

end Slice
