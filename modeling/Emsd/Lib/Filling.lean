import Mathlib.Data.List.Basic

/-!
# Filling a buffer with a terminator

A string is put together in a buffer of a fixed size, from single elements, for each of which there is a
test, and from strings that are copied with their terminator after a test of their length without it.
The terminator of the whole is written in the end.

* `fill_brimful`: a write behind the buffer, where it is full to the brim at a bad moment.
* `fill_some`, `fill_none`: what happens otherwise.
* `fill_meets_iff`: **the string is made, or refused, as it should be** exactly when there is no such moment.
-/

namespace Filling

variable {α ε : Type*} {n k : ℕ} {out s t : List α} {a : α}

/-- What is put into the buffer: an element, or a string, which may be missing. -/
inductive Piece (α : Type*)
  | single (a : α)
  | copied (s : Option (List α))

def Piece.contents : Piece α → Option (List α)
  | .single a => some [a]
  | .copied s => s

/-- The string that the pieces make up, if none is missing. -/
def contents : List (Piece α) → Option (List α)
  | [] => some []
  | p :: ps => p.contents.bind fun s => (contents ps).map (s ++ ·)

variable {p : Piece α} {ps qs : List (Piece α)}

theorem contents_cons_eq_some : contents (p :: ps) = some t ↔
    ∃ s u, p.contents = some s ∧ contents ps = some u ∧ s ++ u = t := by
  have hcons : contents (p :: ps) = p.contents.bind fun s => (contents ps).map (s ++ ·) := rfl
  simp only [hcons, Option.bind_eq_some_iff, Option.map_eq_some_iff]
  constructor
  · rintro ⟨s, hs, u, hu, h⟩
    exact ⟨s, u, hs, hu, h⟩
  · rintro ⟨s, u, hs, hu, h⟩
    exact ⟨s, hs, u, hu, h⟩

theorem contents_append_eq_some : contents (ps ++ qs) = some t ↔
    ∃ s u, contents ps = some s ∧ contents qs = some u ∧ s ++ u = t := by
  induction ps generalizing t with
  | nil =>
    constructor
    · intro h
      exact ⟨[], t, rfl, h, rfl⟩
    · rintro ⟨s, u, hs, hu, rfl⟩
      obtain rfl := Option.some.inj hs
      exact hu
  | cons p ps ih =>
    rw [List.cons_append, contents_cons_eq_some]
    constructor
    · rintro ⟨s, u, hs, hu, rfl⟩
      obtain ⟨v, w, hv, hw, rfl⟩ := ih.1 hu
      exact ⟨s ++ v, w, contents_cons_eq_some.2 ⟨s, v, hs, hv, rfl⟩, hw, List.append_assoc s v w⟩
    · rintro ⟨s, u, hs, hu, rfl⟩
      obtain ⟨v, w, hv, hw, rfl⟩ := contents_cons_eq_some.1 hs
      exact ⟨v, w ++ u, hv, ih.2 ⟨w, u, hw, hu, rfl⟩, (List.append_assoc v w u).symm⟩

/-- The elements of a text, one by one. -/
theorem contents_singles (l : List α) : contents (l.map Piece.single) = some l := by
  induction l with
  | nil => rfl
  | cons a l ih => exact contents_cons_eq_some.2 ⟨[a], l, rfl, ih, rfl⟩

/-! ## Writing -/

section Writing

variable (missing full beyond : ε) (n : ℕ)

/-- An element is written when there is room for it. -/
def put (out : List α) (a : α) : Except ε (List α) :=
  if out.length ≥ n then .error full else .ok (out ++ [a])

/-- `strcpy` when there is room for the string; its terminator is written, too. -/
def copy (out s : List α) : Except ε (List α) :=
  if n - out.length < s.length then .error full
  else if out.length + s.length ≥ n then .error beyond
  else .ok (out ++ s)

/-- The terminator is written. -/
def terminate (out : List α) : Except ε (List α) :=
  if out.length ≥ n then .error beyond else .ok out

/-- All pieces are written. -/
def fill : List (Piece α) → List α → Except ε (List α)
  | [], out => terminate beyond n out
  | .single a :: ps, out => put full n out a >>= fill ps
  | .copied none :: _, _ => .error missing
  | .copied (some s) :: ps, out => copy full beyond n out s >>= fill ps

end Writing

/-! ## Full to the brim -/

/-- With `k` elements in the buffer, there is none left when a piece has been copied, or in the end. -/
def Brimful (n k : ℕ) (ps : List (Piece α)) : Prop :=
  ∃ pre post t, ps = pre ++ post ∧ contents pre = some t ∧ k + t.length = n ∧
    (post = [] ∨ ∃ front s, pre = front ++ [.copied s])

theorem brimful_nil : Brimful n k ([] : List (Piece α)) ↔ k = n := by
  constructor
  · rintro ⟨pre, post, t, hsplit, ht, hlen, -⟩
    obtain ⟨rfl, -⟩ := List.append_eq_nil_iff.1 hsplit.symm
    obtain rfl := Option.some.inj ht
    exact hlen
  · intro h
    exact ⟨[], [], [], rfl, rfl, h, .inl rfl⟩

/-- What a moment after the first piece is. -/
theorem brimful_cons : Brimful n k (p :: ps) ↔ ∃ s, p.contents = some s ∧
    ((∃ v, p = .copied v) ∧ k + s.length = n ∨ Brimful n (k + s.length) ps) := by
  constructor
  · rintro ⟨pre, post, t, hsplit, ht, hlen, hlast⟩
    cases pre with
    | nil =>
      rcases hlast with rfl | ⟨front, s, heq⟩
      · cases hsplit
      · exact absurd heq (by simp)
    | cons q pre =>
      obtain ⟨rfl, rfl⟩ := List.cons.inj hsplit
      obtain ⟨s, u, hs, hu, rfl⟩ := contents_cons_eq_some.1 ht
      rw [List.length_append] at hlen
      refine ⟨s, hs, ?_⟩
      rcases hlast with rfl | ⟨front, v, heq⟩
      · exact .inr ⟨pre, [], u, rfl, hu, by omega, .inl rfl⟩
      · cases front with
        | nil =>
          obtain ⟨rfl, rfl⟩ := List.cons.inj heq
          obtain rfl := Option.some.inj hu
          exact .inl ⟨⟨v, rfl⟩, by simpa using hlen⟩
        | cons q' front =>
          exact .inr ⟨pre, post, u, rfl, hu, by omega, .inr ⟨front, v, (List.cons.inj heq).2⟩⟩
  · rintro ⟨s, hs, ⟨⟨v, rfl⟩, hlen⟩ | ⟨pre, post, t, rfl, ht, hlen, hlast⟩⟩
    · exact ⟨[.copied v], ps, s, rfl, contents_cons_eq_some.2 ⟨s, [], hs, rfl, List.append_nil s⟩, hlen,
        .inr ⟨[], v, rfl⟩⟩
    · refine ⟨p :: pre, post, s ++ t, rfl, contents_cons_eq_some.2 ⟨s, t, hs, ht, rfl⟩, ?_, ?_⟩
      · rw [List.length_append]
        omega
      · rcases hlast with rfl | ⟨front, v, rfl⟩
        · exact .inl rfl
        · exact .inr ⟨p :: front, v, rfl⟩

theorem not_brimful_of_lt (h : n < k) : ¬Brimful n k ps := by
  rintro ⟨pre, post, t, -, -, hlen, -⟩
  omega

/-! ## What is made -/

section Made

variable {missing full beyond : ε}

/-- **A write behind the buffer.** -/
theorem fill_brimful (h : Brimful n out.length ps) :
    fill missing full beyond n ps out = .error beyond := by
  induction ps generalizing out with
  | nil => exact if_pos (Nat.le_of_eq (brimful_nil.1 h).symm)
  | cons p ps ih =>
    obtain ⟨s, hs, h⟩ := brimful_cons.1 h
    cases p with
    | single a =>
      obtain rfl := Option.some.inj hs
      rcases h with ⟨⟨v, hv⟩, -⟩ | h
      · cases hv
      · have hroom : ¬out.length ≥ n := fun hge => not_brimful_of_lt (Nat.lt_succ_of_le hge) h
        unfold fill put
        rw [if_neg hroom]
        exact ih (by rwa [List.length_append])
    | copied v =>
      obtain rfl : v = some s := hs
      unfold fill copy
      rcases h with ⟨-, h⟩ | h
      · rw [if_neg (by omega), if_pos (by omega)]
        rfl
      · have hle : ¬n < out.length + s.length := fun hlt => not_brimful_of_lt hlt h
        rw [if_neg (by omega)]
        split
        · rfl
        · exact ih (by rwa [List.length_append])

/-- **The string is made when it fits**, with its terminator. -/
theorem fill_some (hle : out.length ≤ n) (h : ¬Brimful n out.length ps) (ht : contents ps = some t) :
    fill missing full beyond n ps out =
      if (out ++ t).length < n then .ok (out ++ t) else .error full := by
  induction ps generalizing out t with
  | nil =>
    obtain rfl := Option.some.inj ht
    have hlt : out.length < n := Nat.lt_of_le_of_ne hle fun heq => h (brimful_nil.2 heq)
    unfold fill terminate
    rw [List.append_nil, if_pos hlt, if_neg (Nat.not_le.2 hlt)]
  | cons p ps ih =>
    obtain ⟨s, u, hs, hu, rfl⟩ := contents_cons_eq_some.1 ht
    have hrest : ¬Brimful n (out ++ s).length ps := fun hb =>
      h (brimful_cons.2 ⟨s, hs, .inr (by rwa [List.length_append] at hb)⟩)
    rw [← List.append_assoc]
    cases p with
    | single a =>
      obtain rfl := Option.some.inj hs
      unfold fill put
      split
      · have hlong : ¬(out ++ [a] ++ u).length < n := by
          simp only [List.length_append, List.length_singleton]
          omega
        rw [if_neg hlong]
        rfl
      · refine ih ?_ hrest hu
        rw [List.length_append, List.length_singleton]
        omega
    | copied v =>
      obtain rfl : v = some s := hs
      have hne : out.length + s.length ≠ n := fun heq =>
        h (brimful_cons.2 ⟨s, rfl, .inl ⟨⟨_, rfl⟩, heq⟩⟩)
      unfold fill copy
      split
      · have hlong : ¬(out ++ s ++ u).length < n := by
          simp only [List.length_append]
          omega
        rw [if_neg hlong]
        rfl
      · rw [if_neg (by omega)]
        refine ih ?_ hrest hu
        rw [List.length_append]
        omega

/-- **Nothing is made** when a string is missing. -/
theorem fill_none (hle : out.length ≤ n) (h : ¬Brimful n out.length ps) (hnone : contents ps = none) :
    fill missing full beyond n ps out = .error missing ∨ fill missing full beyond n ps out = .error full := by
  induction ps generalizing out with
  | nil => cases hnone
  | cons p ps ih =>
    cases hs : p.contents with
    | none =>
      cases p with
      | single a => cases hs
      | copied v =>
        obtain rfl : v = none := hs
        exact .inl rfl
    | some s =>
      have hps : contents ps = none := by
        unfold contents at hnone
        rw [hs] at hnone
        exact Option.map_eq_none_iff.1 hnone
      have hrest : ¬Brimful n (out ++ s).length ps := fun hb =>
        h (brimful_cons.2 ⟨s, hs, .inr (by rwa [List.length_append] at hb)⟩)
      cases p with
      | single a =>
        obtain rfl := Option.some.inj hs
        unfold fill put
        split
        · exact .inr rfl
        · refine ih ?_ hrest hps
          rw [List.length_append, List.length_singleton]
          omega
      | copied v =>
        obtain rfl : v = some s := hs
        have hne : out.length + s.length ≠ n := fun heq =>
          h (brimful_cons.2 ⟨s, rfl, .inl ⟨⟨_, rfl⟩, heq⟩⟩)
        unfold fill copy
        split
        · exact .inr rfl
        · rw [if_neg (by omega)]
          refine ih ?_ hrest hps
          rw [List.length_append]
          omega

/-- What is made in an empty buffer. -/
theorem fill_empty (h : ¬Brimful n 0 ps) (ht : contents ps = some t) :
    fill missing full beyond n ps [] = if t.length < n then .ok t else .error full :=
  fill_some (Nat.zero_le n) h ht

/-! ## What should be made -/

/-- Nothing is written behind the buffer; the string is made if there is one and it fits with its
terminator, and refused otherwise. -/
def Meets (beyond : ε) (expected : Option (List α)) (n : ℕ) (r : Except ε (List α)) : Prop :=
  r ≠ .error beyond ∧ ∀ t, r = .ok t ↔ expected = some t ∧ t.length < n

/-- A string that does not fit, or that there is not, is refused. -/
theorem meets_error {expected : Option (List α)} {e : ε} (he : e ≠ beyond)
    (h : ∀ t, expected = some t → n ≤ t.length) : Meets beyond expected n (.error e) := by
  refine ⟨fun heq => he (Except.error.inj heq), fun t => iff_of_false nofun ?_⟩
  rintro ⟨ht, hlt⟩
  exact absurd (h t ht) (Nat.not_le.2 hlt)

/-- A string that fits is made. -/
theorem meets_ok (h : t.length < n) : Meets beyond (some t) n (.ok t) := by
  refine ⟨nofun, fun t' => ⟨?_, ?_⟩⟩
  · rintro heq
    obtain rfl := Except.ok.inj heq
    exact ⟨rfl, h⟩
  · rintro ⟨heq, -⟩
    exact congrArg _ (Option.some.inj heq)

/-- **The string is made, or refused, as it should be** exactly when the buffer is not full to the brim
where a terminator is written. -/
theorem fill_meets_iff (hmissing : missing ≠ beyond) (hfull : full ≠ beyond) :
    Meets beyond (contents ps) n (fill missing full beyond n ps []) ↔ ¬Brimful n 0 ps := by
  constructor
  · intro h hbrim
    exact h.1 (fill_brimful hbrim)
  · intro h
    cases ht : contents ps with
    | none =>
      have hor : fill missing full beyond n ps [] = .error missing ∨
          fill missing full beyond n ps [] = .error full := fill_none (Nat.zero_le n) h ht
      rcases hor with heq | heq
      · rw [heq]
        exact meets_error hmissing nofun
      · rw [heq]
        exact meets_error hfull nofun
    | some t =>
      rw [fill_empty h ht]
      split
      · rename_i hlt
        exact meets_ok hlt
      · rename_i hge
        refine meets_error hfull fun t' heq => ?_
        obtain rfl := Option.some.inj heq
        exact Nat.not_lt.1 hge

end Made

end Filling
