import Emsd.Lib.Text

/-!
# Scanning a text by a format

`sscanf` with a format of conversions and characters that have to be there. A text is a list of octets.

* `scanUlongHex_digits`: `%lx` reads hexadecimal digits as far as they go.
* `mem_of_assigned`: a character of the format is in the text when what comes behind it has been assigned.
-/

namespace Scanf

variable {c : UInt8} {ds ds' : List Directive} {l s rest : List UInt8} {i : UInt32} {minus : Bool}

/-- `isspace`. -/
def isSpace (c : UInt8) : Bool := c = 32 ∨ (9 ≤ c ∧ c ≤ 13)

/-- `isxdigit`. -/
def isXDigit (c : UInt8) : Bool := (48 ≤ c ∧ c ≤ 57) ∨ (65 ≤ c ∧ c ≤ 70) ∨ (97 ≤ c ∧ c ≤ 102)

/-- What a hexadecimal digit stands for. -/
def xDigit (c : UInt8) : ℕ :=
  if c ≤ 57 then c.toNat - 48 else if c ≤ 70 then c.toNat - 55 else c.toNat - 87

/-- The digits of `%lx`, after the sign. -/
def scanXDigits (minus : Bool) (s : List UInt8) : Option (UInt32 × List UInt8) :=
  if s.takeWhile isXDigit = [] then none
  else some (Text.ulong minus (Numeral.value 16 ((s.takeWhile isXDigit).map xDigit)),
    s.dropWhile isXDigit)

/-- The digits may have `0x` in front of them. -/
def scanHex (minus : Bool) (s : List UInt8) : Option (UInt32 × List UInt8) :=
  match s with
  | 48 :: 120 :: s => scanXDigits minus s
  | 48 :: 88 :: s => scanXDigits minus s
  | s => scanXDigits minus s

/-- `%lx`: the number, and what is behind it. -/
def scanUlongHex (s : List UInt8) : Option (UInt32 × List UInt8) :=
  match s.dropWhile isSpace with
  | 45 :: s => scanHex true s
  | 43 :: s => scanHex false s
  | s => scanHex false s

/-- The parts of a format. -/
inductive Directive
  | ulongHex
  | char (c : UInt8)
  deriving DecidableEq, Repr

/-- The characters of a format. -/
def literal (s : String) : List Directive := s.toList.map fun c => .char c.toNat.toUInt8

/-- `sscanf`: the numbers that are assigned, one after the other. -/
def sscanf : List Directive → List UInt8 → List UInt32
  | [], _ => []
  | .char _ :: _, [] => []
  | .char c :: ds, x :: s => if x = c then sscanf ds s else []
  | .ulongHex :: ds, s =>
    match scanUlongHex s with
    | none => []
    | some (i, rest) => i :: sscanf ds rest

/-- How many numbers a format has. -/
def conversions (ds : List Directive) : ℕ := ds.count .ulongHex

/-! ## Digits -/

theorem not_isSpace_of_isXDigit (h : isXDigit c = true) : isSpace c = false := by
  unfold isXDigit at h
  unfold isSpace
  have hc := of_decide_eq_true h
  simp only [UInt8.le_iff_toNat_le, ← UInt8.toNat_inj, decide_eq_false_iff_not] at hc ⊢
  simp at hc ⊢
  omega

/-- Digits are read as far as they go. -/
theorem scanXDigits_digits (hl : ∀ c ∈ l, isXDigit c = true) (hne : l ≠ [])
    (hrest : ∀ c ∈ rest.head?, isXDigit c = false) :
    scanXDigits minus (l ++ rest) = some (Text.ulong minus (Numeral.value 16 (l.map xDigit)), rest) := by
  have htake : (l ++ rest).takeWhile isXDigit = l := by
    rw [List.takeWhile_append_of_pos hl]
    cases rest with
    | nil => exact List.append_nil l
    | cons c rest =>
      rw [List.takeWhile_cons_of_neg (by simp [hrest c rfl])]
      exact List.append_nil l
  have hdrop : (l ++ rest).dropWhile isXDigit = rest := by
    rw [List.dropWhile_append_of_pos hl]
    cases rest with
    | nil => rfl
    | cons c rest => rw [List.dropWhile_cons_of_neg (by simp [hrest c rfl])]
  unfold scanXDigits
  rw [htake, hdrop, if_neg hne]

/-- **`%lx` reads digits** up to what cannot be a part of the number. -/
theorem scanUlongHex_digits (hl : ∀ c ∈ l, isXDigit c = true) (hne : l ≠ [])
    (hrest : ∀ c ∈ rest.head?, isXDigit c = false ∧ c ≠ 120 ∧ c ≠ 88) :
    scanUlongHex (l ++ rest) = some (Text.ulong false (Numeral.value 16 (l.map xDigit)), rest) := by
  have hdigits : scanXDigits false (l ++ rest) = _ :=
    scanXDigits_digits hl hne fun c hc => (hrest c hc).1
  obtain ⟨d, t, rfl⟩ := List.exists_cons_of_ne_nil hne
  have hd : isXDigit d = true := hl d List.mem_cons_self
  -- neither digits nor what comes behind them give an `x` after the first digit
  have hx : ∀ x ∈ (t ++ rest).head?, x ≠ 120 ∧ x ≠ 88 := by
    intro x hxm
    cases t with
    | nil => exact (hrest x hxm).2
    | cons y t =>
      obtain rfl : y = x := by simpa using hxm
      have hy := hl y (List.mem_cons_of_mem d List.mem_cons_self)
      constructor <;> rintro rfl <;> exact absurd hy (by decide)
  have hhex : scanHex false (d :: (t ++ rest)) = scanXDigits false (d :: (t ++ rest)) := by
    unfold scanHex
    split
    · rename_i heq
      have := hx 120 (by rw [(List.cons.inj heq).2]; rfl)
      exact absurd rfl this.1
    · rename_i heq
      have := hx 88 (by rw [(List.cons.inj heq).2]; rfl)
      exact absurd rfl this.2
    · rfl
  unfold scanUlongHex
  rw [List.cons_append, List.dropWhile_cons_of_neg (by simp [not_isSpace_of_isXDigit hd])]
  split
  · rename_i heq
    rw [(List.cons.inj heq).1] at hd
    exact absurd hd (by decide)
  · rename_i heq
    rw [(List.cons.inj heq).1] at hd
    exact absurd hd (by decide)
  · rw [hhex]
    exact hdigits

/-! ## What has been read -/

theorem scanXDigits_suffix (h : scanXDigits minus s = some (i, rest)) : rest <:+ s := by
  unfold scanXDigits at h
  split at h
  · cases h
  · obtain ⟨-, rfl⟩ := Prod.mk.inj (Option.some.inj h)
    exact List.dropWhile_suffix _

theorem scanHex_suffix (h : scanHex minus s = some (i, rest)) : rest <:+ s := by
  unfold scanHex at h
  split at h
  · exact ((scanXDigits_suffix h).trans (List.suffix_cons _ _)).trans (List.suffix_cons _ _)
  · exact ((scanXDigits_suffix h).trans (List.suffix_cons _ _)).trans (List.suffix_cons _ _)
  · exact scanXDigits_suffix h

/-- What is behind a number is the end of the text. -/
theorem scanUlongHex_suffix (h : scanUlongHex s = some (i, rest)) : rest <:+ s := by
  have hblank : s.dropWhile isSpace <:+ s := List.dropWhile_suffix _
  unfold scanUlongHex at h
  split at h
  · rename_i heq
    exact ((scanHex_suffix h).trans (heq ▸ List.suffix_cons _ _)).trans hblank
  · rename_i heq
    exact ((scanHex_suffix h).trans (heq ▸ List.suffix_cons _ _)).trans hblank
  · exact (scanHex_suffix h).trans hblank

/-- **A character of the format is in the text** when more numbers have been assigned than the format has
in front of it. -/
theorem mem_of_assigned (h : conversions ds < (sscanf (ds ++ .char c :: ds') s).length) : c ∈ s := by
  induction ds generalizing s with
  | nil =>
    cases s with
    | nil => exact absurd h (Nat.not_lt_zero _)
    | cons x s =>
      rw [List.nil_append, sscanf] at h
      split at h
      · rename_i heq
        exact heq ▸ List.mem_cons_self
      · exact absurd h (Nat.not_lt_zero _)
  | cons d ds ih =>
    cases d with
    | char y =>
      cases s with
      | nil => exact absurd h (Nat.not_lt_zero _)
      | cons x s =>
        rw [List.cons_append, sscanf] at h
        split at h
        · exact List.mem_cons_of_mem x (ih h)
        · exact absurd h (Nat.not_lt_zero _)
    | ulongHex =>
      rw [List.cons_append, sscanf] at h
      split at h
      · exact absurd h (Nat.not_lt_zero _)
      · rename_i i rest hscan
        have hcount : conversions (.ulongHex :: ds) = conversions ds + 1 := List.count_cons_self
        rw [hcount, List.length_cons] at h
        exact (scanUlongHex_suffix hscan).subset (ih (by omega))

end Scanf
