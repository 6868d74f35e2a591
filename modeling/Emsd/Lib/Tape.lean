import Mathlib.Data.List.Basic
import Mathlib.Logic.Function.Iterate
import Mathlib.Tactic.Common

/-!
# A list with a cursor

* `gets_all`: from the beginning on, single reads give the elements in order, and then nothing.
* `unget_get`: putting an element back undoes the read.
-/

namespace Tapes

/-- A list, of which the first `pos` elements have been read. -/
structure Tape (α : Type*) where
  items : List α
  pos : Nat
  deriving DecidableEq

namespace Tape

variable {α : Type*} {s t : Tape α} {x : α} {n : Nat}

/-- What has not been read yet. -/
def rest (s : Tape α) : List α := s.items.drop s.pos

/-- The cursor goes back to the beginning. -/
def reset (s : Tape α) : Tape α := { s with pos := 0 }

/-- The next element, if there is one. -/
def get (s : Tape α) : Option α × Tape α :=
  match s.items[s.pos]? with
  | some x => (some x, { s with pos := s.pos + 1 })
  | none => (none, s)

/-- The last element that has been read is put back. -/
def unget (s : Tape α) : Tape α := { s with pos := s.pos - 1 }

/-- The next `n` elements are passed over. -/
def skip (s : Tape α) (n : Nat) : Tape α := { s with pos := s.pos + n }

/-- The results of `n` reads. -/
def gets : Nat → Tape α → List (Option α)
  | 0, _ => []
  | n + 1, s => s.get.1 :: gets n s.get.2

/-- After `n` reads. -/
def reads (n : Nat) (s : Tape α) : Tape α := (fun s => s.get.2)^[n] s

theorem gets_succ : gets (n + 1) s = gets n s ++ [(reads n s).get.1] := by
  induction n generalizing s with
  | zero => rfl
  | succ n ih =>
    rw [gets, ih, gets]
    rfl

theorem reads_succ : reads (n + 1) s = (reads n s).get.2 := Function.iterate_succ_apply' _ n s

/-- At the end a read changes nothing. -/
theorem get_none (h : s.get.1 = none) : s.get.2 = s := by
  unfold get at h ⊢
  cases hx : s.items[s.pos]? with
  | none => rfl
  | some y => rw [hx] at h; cases h

/-- **Putting back** an element that has been read. -/
theorem unget_get (h : s.get.1 = some x) : s.get.2.unget = s := by
  unfold get at h ⊢
  cases hx : s.items[s.pos]? with
  | none => rw [hx] at h; cases h
  | some y => rfl

theorem gets_rest (s : Tape α) :
    gets (s.rest.length + 1) s = s.rest.map some ++ [none] := by
  obtain ⟨l, hl⟩ : ∃ l, s.rest = l := ⟨_, rfl⟩
  rw [hl]
  induction l generalizing s with
  | nil =>
    have hlen : s.items.length ≤ s.pos := List.drop_eq_nil_iff.1 hl
    simp only [List.length_nil, gets, get, List.getElem?_eq_none hlen, List.map_nil, List.nil_append]
  | cons x l ih =>
    have hx : s.items[s.pos]? = some x := by
      have h := congrArg (·[0]?) hl
      simpa [rest, List.getElem?_drop] using h
    have hnext : (s.skip 1).rest = l := by
      have h := congrArg (List.drop 1) hl
      simpa [rest, skip, List.drop_drop] using h
    have hget : s.get = (some x, s.skip 1) := by
      unfold get
      rw [hx]
      rfl
    rw [List.length_cons, gets, hget, ih (s.skip 1) hnext]
    rfl

/-- **All elements** are read in order, and then there is nothing more. -/
theorem gets_all (s : Tape α) :
    gets (s.items.length + 1) s.reset = s.items.map some ++ [none] := gets_rest s.reset

end Tape

end Tapes
