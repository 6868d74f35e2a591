import Mathlib

/-!
# Blocks laid one after another

`Tiles off len a l b`: the blocks of `l`, each at its offset and of its length, fill the range from
`a` to `b` without gaps. They do not overlap (`Tiles.apart`), their lengths add up (`Tiles.sum`), and
when a block is taken out and those after it move down, the rest is tiled again (`Tiles.remove`).
-/

namespace Tiling

variable {ι : Type*} {off off' : ι → Int} {len len' : ι → Nat} {a b : Int} {l k : List ι} {x y : ι}

/-- The blocks of `l` fill the range from `a` to `b`. -/
inductive Tiles (off : ι → Int) (len : ι → Nat) : Int → List ι → Int → Prop
  | nil {c : Int} : Tiles off len c [] c
  | cons {y : ι} {t : List ι} {c d : Int} (hy : off y = c) (ht : Tiles off len (c + len y) t d) :
      Tiles off len c (y :: t) d

theorem Tiles.le (h : Tiles off len a l b) : a ≤ b := by
  induction h with
  | nil => exact Int.le_refl _
  | cons _ _ ih => omega

theorem Tiles.append {c : Int} (h : Tiles off len a l b) (hk : Tiles off len b k c) :
    Tiles off len a (l ++ k) c := by
  induction h with
  | nil => exact hk
  | cons hx _ ih => exact .cons hx (ih hk)

theorem Tiles.split (h : Tiles off len a (l ++ k) b) :
    ∃ c, Tiles off len a l c ∧ Tiles off len c k b := by
  induction l generalizing a with
  | nil => exact ⟨a, .nil, h⟩
  | cons x l ih =>
    cases h with
    | cons hx hl =>
      obtain ⟨c, h₁, h₂⟩ := ih hl
      exact ⟨c, .cons hx h₁, h₂⟩

/-- A block more at the end. -/
theorem Tiles.snoc (h : Tiles off len a l b) (hx : off x = b) :
    Tiles off len a (l ++ [x]) (b + len x) :=
  h.append (.cons hx .nil)

/-- The blocks before and after one of them. -/
theorem Tiles.around (h : Tiles off len a (l ++ x :: k) b) :
    Tiles off len a l (off x) ∧ Tiles off len (off x + len x) k b := by
  obtain ⟨c, h₁, h₂⟩ := h.split
  cases h₂ with
  | cons hx hk =>
    subst hx
    exact ⟨h₁, hk⟩

/-- Every block lies in the range. -/
theorem Tiles.bounds (h : Tiles off len a l b) (hx : x ∈ l) : a ≤ off x ∧ off x + len x ≤ b := by
  obtain ⟨l₁, l₂, rfl⟩ := List.append_of_mem hx
  have h₁ := h.around.1.le
  have h₂ := h.around.2.le
  omega

/-- **Two blocks do not overlap.** -/
theorem Tiles.apart (h : Tiles off len a l b) (hx : x ∈ l) (hy : y ∈ l) (hne : x ≠ y) :
    off x + len x ≤ off y ∨ off y + len y ≤ off x := by
  obtain ⟨l₁, l₂, rfl⟩ := List.append_of_mem hx
  rcases List.mem_append.1 hy with hy | hy
  · exact .inr (h.around.1.bounds hy).2
  · rcases List.mem_cons.1 hy with rfl | hy
    · exact (hne rfl).elim
    · exact .inl (h.around.2.bounds hy).1

/-- **The lengths add up.** -/
theorem Tiles.sum (h : Tiles off len a l b) : b = a + ((l.map len).sum : Nat) := by
  induction h with
  | nil => simp
  | cons hx _ ih =>
    rw [List.map_cons, List.sum_cons]
    omega

theorem Tiles.congr (h : Tiles off len a l b) (hoff : ∀ x ∈ l, off' x = off x)
    (hlen : ∀ x ∈ l, len' x = len x) : Tiles off' len' a l b := by
  induction h with
  | nil => exact .nil
  | @cons x l a b hx _ ih =>
    refine .cons ((hoff x List.mem_cons_self).trans hx) ?_
    rw [hlen x List.mem_cons_self]
    exact ih (fun y hy => hoff y (List.mem_cons_of_mem _ hy))
      fun y hy => hlen y (List.mem_cons_of_mem _ hy)

/-- All blocks move down by `d`. -/
theorem Tiles.shift {d : Nat} (h : Tiles off len a l b) (hoff : ∀ x ∈ l, off' x = off x - d)
    (hlen : ∀ x ∈ l, len' x = len x) : Tiles off' len' (a - d) l (b - d) := by
  induction h with
  | nil => exact .nil
  | @cons x l a b hx _ ih =>
    refine .cons (by rw [hoff x List.mem_cons_self, hx]) ?_
    rw [hlen x List.mem_cons_self, show a - d + (len x : Int) = a + len x - d by omega]
    exact ih (fun y hy => hoff y (List.mem_cons_of_mem _ hy))
      fun y hy => hlen y (List.mem_cons_of_mem _ hy)

/-- **A block is taken out**, and those after it move down by its length. -/
theorem Tiles.remove (h : Tiles off len a (l ++ x :: k) b) (hl : ∀ y ∈ l, off' y = off y)
    (hk : ∀ y ∈ k, off' y = off y - len x) (hlen : ∀ y ∈ l ++ k, len' y = len y) :
    Tiles off' len' a (l ++ k) (b - len x) := by
  refine (h.around.1.congr hl fun y hy => hlen y (List.mem_append_left _ hy)).append ?_
  have := h.around.2.shift hk fun y hy => hlen y (List.mem_append_right _ hy)
  rwa [Int.add_sub_cancel] at this

/-- The blocks under other names. -/
theorem Tiles.map {κ : Type*} {off : κ → Int} {len : κ → Nat} {f : ι → κ} :
    Tiles (fun x => off (f x)) (fun x => len (f x)) a l b ↔ Tiles off len a (l.map f) b := by
  constructor
  · intro h
    induction h with
    | nil => exact .nil
    | cons hx _ ih => exact .cons hx ih
  · intro h
    induction l generalizing a with
    | nil =>
      cases h
      exact .nil
    | cons x l ih =>
      cases h with
      | cons hx hl => exact .cons hx (ih hl)

end Tiling
