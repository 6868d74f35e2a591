import Mathlib.Data.List.TakeWhile
import Emsd.Lib.Numeral

/-!
# Texts and the C functions on them

A text is a list of characters, an octet being the character with its code. The functions are those of
the C library in its "C" locale, with a `long` of 32 bits.

* `number_decimal`, `strtol_decimal`: what `printf` writes for a number is read again, up to the
  greatest `long`.
* `Numeric`: digits, and what reading them gives.
* `scanUlong_eq_some`: what `sscanf` reads as a number.
* `lines_append`: a line that fits the buffer of `fgets` is read as it stands.
-/

namespace Text

variable {n w : ℕ} {c : Char} {l s rest : List Char} {p : Char → Bool}

/-- `isspace`. -/
def isSpace (c : Char) : Bool := c = ' ' ∨ (9 ≤ c.toNat ∧ c.toNat ≤ 13)

/-- The string that begins a text, which ends at the first null character. -/
def cString (s : List Char) : List Char := s.takeWhile (· ≠ '\x00')

theorem cString_eq (h : '\x00' ∉ s) : cString s = s := by
  have hall : ∀ c ∈ s, decide (c ≠ '\x00') = true := by
    intro c hc
    refine decide_eq_true ?_
    rintro rfl
    exact h hc
  have htake : (s ++ []).takeWhile (fun c => decide (c ≠ '\x00')) = s ++ [].takeWhile _ :=
    List.takeWhile_append_of_pos hall
  simpa [cString] using htake

/-! ## Numbers -/

/-- The number that decimal digits stand for. -/
def number (ds : List Char) : ℕ := Numeral.value 10 (ds.map fun c => c.toNat - 48)

/-- `%u`. -/
def decimal (n : ℕ) : List Char := (Numeral.peel 10 (n + 1) n).map Nat.digitChar

/-- `%02d` and the like, for a number that is not negative. -/
def padded (w n : ℕ) : List Char := List.replicate (w - (decimal n).length) '0' ++ decimal n

theorem isDigit_iff : c.isDigit = true ↔ 48 ≤ c.toNat ∧ c.toNat ≤ 57 := by
  unfold Char.isDigit
  rw [Bool.and_eq_true, decide_eq_true_eq, decide_eq_true_eq]
  exact Iff.rfl

theorem isSpace_of_isDigit (h : c.isDigit = true) : isSpace c = false := by
  have hcode := isDigit_iff.1 h
  refine decide_eq_false ?_
  rintro (rfl | hc)
  · exact absurd h (by decide)
  · omega

theorem not_isDigit_of_isSpace (hc : isSpace c = true) : c.isDigit = false := by
  by_contra h
  rw [isSpace_of_isDigit (by simpa using h)] at hc
  cases hc

theorem toNat_lt_of_isSpace (hc : isSpace c = true) : c.toNat < 65 := by
  rcases of_decide_eq_true hc with rfl | hc
  · decide
  · omega

theorem digitChar_digit : ∀ d < 10, d.digitChar.isDigit = true ∧ d.digitChar.toNat - 48 = d := by
  decide

theorem decimal_isDigit (n : ℕ) : ∀ c ∈ decimal n, c.isDigit = true := by
  intro c hc
  obtain ⟨d, hd, rfl⟩ := List.mem_map.1 hc
  exact (digitChar_digit d (Numeral.peel_lt (by decide) d hd)).1

theorem number_decimal (n : ℕ) : number (decimal n) = n := by
  have hn : n < 10 ^ (n + 1) :=
    (Nat.lt_pow_self (by decide)).trans (Nat.pow_lt_pow_right (by decide) (by omega))
  have hmap : (decimal n).map (fun c => c.toNat - 48) = Numeral.peel 10 (n + 1) n := by
    unfold decimal
    rw [List.map_map]
    refine (List.map_congr_left fun d hd => ?_).trans (List.map_id _)
    exact (digitChar_digit d (Numeral.peel_lt (by decide) d hd)).2
  unfold number
  rw [hmap, Numeral.value_peel hn]

theorem decimal_ne_nil (n : ℕ) : decimal n ≠ [] := by
  unfold decimal Numeral.peel
  split <;> simp

theorem padded_isDigit (w n : ℕ) : ∀ c ∈ padded w n, c.isDigit = true := by
  intro c hc
  rcases List.mem_append.1 hc with hc | hc
  · rw [List.eq_of_mem_replicate hc]
    rfl
  · exact decimal_isDigit n c hc

theorem number_padded (w n : ℕ) : number (padded w n) = n := by
  unfold padded
  induction w - (decimal n).length with
  | zero => exact number_decimal n
  | succ k ih =>
    rw [List.replicate_succ, List.cons_append]
    unfold number at ih ⊢
    rw [List.map_cons]
    exact Numeral.value_zero_cons.trans ih

theorem padded_ne_nil (w n : ℕ) : padded w n ≠ [] := by
  unfold padded
  simp [decimal_ne_nil]

/-- A number has no more digits than the width it is below. -/
theorem decimal_length_le (hw : 0 < w) (hn : n < 10 ^ w) : (decimal n).length ≤ w := by
  unfold decimal
  rw [List.length_map]
  have hpeel : ∀ k w n : ℕ, 0 < w → n < 10 ^ w → (Numeral.peel 10 k n).length ≤ w := by
    intro k
    induction k with
    | zero => intro w n _ _; exact Nat.zero_le w
    | succ k ih =>
      intro w n hw hn
      unfold Numeral.peel
      split
      · exact hw
      · rename_i hdiv
        obtain ⟨w, rfl⟩ : ∃ w', w = w' + 1 := ⟨w - 1, by omega⟩
        have hlt : n / 10 < 10 ^ w := Nat.div_lt_of_lt_mul (by rwa [pow_succ, Nat.mul_comm] at hn)
        have hw' : 0 < w := by
          rcases Nat.eq_zero_or_pos w with rfl | hw'
          · simp at hlt
            omega
          · exact hw'
        rw [List.length_append, List.length_singleton]
        have := ih w (n / 10) hw' hlt
        omega
  exact hpeel _ w n hw hn

theorem padded_length_le {k : ℕ} (w : ℕ) (hk : 0 < k) (hn : n < 10 ^ k) :
    (padded w n).length ≤ max w k := by
  have := decimal_length_le hk hn
  unfold padded
  rw [List.length_append, List.length_replicate]
  omega

theorem padded_length (hw : 0 < w) (hn : n < 10 ^ w) : (padded w n).length = w := by
  have := decimal_length_le hw hn
  unfold padded
  rw [List.length_append, List.length_replicate]
  omega

/-- Digits are read as far as they go. -/
theorem takeWhile_digits (hl : ∀ c ∈ l, c.isDigit = true)
    (hrest : ∀ c ∈ rest.head?, c.isDigit = false) :
    (l ++ rest).takeWhile Char.isDigit = l ∧ (l ++ rest).dropWhile Char.isDigit = rest := by
  induction l with
  | nil =>
    cases rest with
    | nil => exact ⟨rfl, rfl⟩
    | cons c rest =>
      have hc := hrest c rfl
      simp [hc]
  | cons c l ih =>
    obtain ⟨h₁, h₂⟩ := ih fun x hx => hl x (List.mem_cons_of_mem c hx)
    have hc := hl c List.mem_cons_self
    simp [hc, h₁, h₂]

/-- `strtol` with the base 10, `atol`, and `atoi`. -/
def strtol (s : List Char) : ℤ :=
  match s.dropWhile isSpace with
  | '-' :: s => max (-2 ^ 31) (-(number (s.takeWhile Char.isDigit) : ℤ))
  | '+' :: s => min (2 ^ 31 - 1) (number (s.takeWhile Char.isDigit))
  | s => min (2 ^ 31 - 1) (number (s.takeWhile Char.isDigit))

theorem strtol_digits (hl : ∀ c ∈ l, c.isDigit = true) (hne : l ≠ [])
    (hrest : ∀ c ∈ rest.head?, c.isDigit = false) :
    strtol (l ++ rest) = min (2 ^ 31 - 1) (number l : ℤ) := by
  have htake : (l ++ rest).takeWhile Char.isDigit = l := (takeWhile_digits hl hrest).1
  cases l with
  | nil => exact absurd rfl hne
  | cons c l =>
    have hc : c.isDigit = true := hl c List.mem_cons_self
    unfold strtol
    rw [List.cons_append, List.dropWhile_cons_of_neg (by simp [isSpace_of_isDigit hc])]
    split
    -- the first is a digit, and so no sign
    · rename_i heq
      rw [(List.cons.inj heq).1] at hc
      cases hc
    · rename_i heq
      rw [(List.cons.inj heq).1] at hc
      cases hc
    · rw [← List.cons_append, htake]

theorem strtol_decimal (n : ℕ) (hrest : ∀ c ∈ rest.head?, c.isDigit = false) :
    strtol (decimal n ++ rest) = min (2 ^ 31 - 1) (n : ℤ) := by
  rw [strtol_digits (decimal_isDigit n) (decimal_ne_nil n) hrest, number_decimal]

/-- The digits of a number. -/
structure Numeric (l : List Char) (n : ℕ) : Prop where
  digits : ∀ c ∈ l, c.isDigit = true
  nonempty : l ≠ []
  value : number l = n

theorem decimal_numeric (n : ℕ) : Numeric (decimal n) n :=
  ⟨decimal_isDigit n, decimal_ne_nil n, number_decimal n⟩

theorem padded_numeric (w n : ℕ) : Numeric (padded w n) n :=
  ⟨padded_isDigit w n, padded_ne_nil w n, number_padded w n⟩

namespace Numeric

theorem exists_cons (hl : Numeric l n) : ∃ c s, l = c :: s ∧ c.isDigit = true := by
  cases l with
  | nil => exact absurd rfl hl.nonempty
  | cons c s => exact ⟨c, s, rfl, hl.digits c List.mem_cons_self⟩

theorem head (hl : Numeric l n) : ∀ c ∈ (l ++ rest).head?, c.isDigit = true := by
  obtain ⟨x, s, rfl, hx⟩ := hl.exists_cons
  intro c hc
  rw [List.cons_append, List.head?_cons, Option.mem_some_iff] at hc
  rwa [← hc]

theorem dropWhile (hl : Numeric l n) (hrest : ∀ c ∈ rest.head?, c.isDigit = false) :
    (l ++ rest).dropWhile Char.isDigit = rest :=
  (takeWhile_digits hl.digits hrest).2

theorem strtol (hl : Numeric l n) (hn : n < 2 ^ 31) (hrest : ∀ c ∈ rest.head?, c.isDigit = false) :
    strtol (l ++ rest) = n := by
  rw [strtol_digits hl.digits hl.nonempty hrest, hl.value]
  omega

end Numeric

/-! ## Scanning numbers -/

/-- `strtoul` for a sign and digits, with an `unsigned long` of 32 bits. -/
def ulong (minus : Bool) (n : ℕ) : UInt32 :=
  if 2 ^ 32 ≤ n then .ofNat (2 ^ 32 - 1) else if minus then 0 - .ofNat n else .ofNat n

def scanDigits (minus : Bool) (s : List Char) : Option (UInt32 × List Char) :=
  if s.takeWhile Char.isDigit = [] then none
  else some (ulong minus (number (s.takeWhile Char.isDigit)), s.dropWhile Char.isDigit)

/-- `%lu` of `sscanf`: the number, and what is behind it. -/
def scanUlong (s : List Char) : Option (UInt32 × List Char) :=
  match s.dropWhile isSpace with
  | '-' :: s => scanDigits true s
  | '+' :: s => scanDigits false s
  | s => scanDigits false s

/-- The texts of a number for `%lu`: white space, a sign and digits. -/
inductive Ulong : List Char → UInt32 → Prop
  | mk {blanks sign digits : List Char} {n : ℕ} (blank : ∀ c ∈ blanks, isSpace c = true)
      (signed : sign = [] ∨ sign = ['+'] ∨ sign = ['-']) (numeric : Numeric digits n) :
      Ulong (blanks ++ (sign ++ digits)) (ulong (sign = ['-']) n)

variable {i : UInt32} {minus : Bool}

theorem scanDigits_eq_some : scanDigits minus s = some (i, rest) ↔
    ∃ digits n, s = digits ++ rest ∧ Numeric digits n ∧ i = ulong minus n ∧
      ∀ c ∈ rest.head?, c.isDigit = false := by
  unfold scanDigits
  constructor
  · intro h
    split at h
    · cases h
    · rename_i hne
      obtain ⟨rfl, rfl⟩ := Prod.mk.inj (Option.some.inj h)
      refine ⟨s.takeWhile Char.isDigit, _, List.takeWhile_append_dropWhile.symm,
        ⟨fun c hc => List.mem_takeWhile_imp hc, hne, rfl⟩, rfl, ?_⟩
      intro c hc
      by_contra hdigit
      have := List.head?_dropWhile_not Char.isDigit s
      rw [Option.mem_def.1 hc] at this
      simp only [Bool.not_eq_false] at hdigit
      simp [hdigit] at this
  · rintro ⟨digits, n, rfl, hdigits, rfl, hrest⟩
    obtain ⟨htake, hdrop⟩ := takeWhile_digits hdigits.digits hrest
    rw [htake, hdrop, if_neg hdigits.nonempty, hdigits.value]

/-- **`%lu` reads a number** that is as long as it can be. -/
theorem scanUlong_eq_some : scanUlong s = some (i, rest) ↔
    ∃ l, s = l ++ rest ∧ Ulong l i ∧ ∀ c ∈ rest.head?, c.isDigit = false := by
  constructor
  · intro h
    have hsplit : s = s.takeWhile isSpace ++ s.dropWhile isSpace := List.takeWhile_append_dropWhile.symm
    have hblank : ∀ c ∈ s.takeWhile isSpace, isSpace c = true := fun c hc => List.mem_takeWhile_imp hc
    -- what is in front of the sign is white space
    unfold scanUlong at h
    generalize s.takeWhile isSpace = blanks at hsplit hblank
    split at h
    · rename_i t heq
      obtain ⟨digits, n, rfl, hdigits, rfl, hrest⟩ := scanDigits_eq_some.1 h
      refine ⟨blanks ++ (['-'] ++ digits), ?_, .mk hblank (by simp) hdigits, hrest⟩
      rw [hsplit, heq]
      simp
    · rename_i t heq
      obtain ⟨digits, n, rfl, hdigits, rfl, hrest⟩ := scanDigits_eq_some.1 h
      refine ⟨blanks ++ (['+'] ++ digits), ?_, .mk hblank (by simp) hdigits, hrest⟩
      rw [hsplit, heq]
      simp
    · obtain ⟨digits, n, heq, hdigits, rfl, hrest⟩ := scanDigits_eq_some.1 h
      refine ⟨blanks ++ ([] ++ digits), ?_, .mk hblank (by simp) hdigits, hrest⟩
      rw [hsplit, heq]
      simp
  · rintro ⟨l, rfl, ⟨hblank, hsign, hdigits⟩, hrest⟩
    rename_i blanks sign digits n
    have hscan : ∀ minus, scanDigits minus (digits ++ rest) = some (ulong minus n, rest) := fun minus =>
      scanDigits_eq_some.2 ⟨digits, n, rfl, hdigits, rfl, hrest⟩
    obtain ⟨c, t, hd, hc⟩ := hdigits.exists_cons
    unfold scanUlong
    rw [List.append_assoc, List.dropWhile_append_of_pos hblank, List.append_assoc]
    rcases hsign with rfl | rfl | rfl
    · rw [List.nil_append, hd, List.cons_append,
        List.dropWhile_cons_of_neg (by simp [isSpace_of_isDigit hc])]
      split
      · rename_i heq
        rw [(List.cons.inj heq).1] at hc
        cases hc
      · rename_i heq
        rw [(List.cons.inj heq).1] at hc
        cases hc
      · rw [← List.cons_append, ← hd]
        exact hscan false
    · exact hscan false
    · exact hscan true

/-! ## Lines -/

/-- What `fgets` with a buffer of `size` gives, one after the other, for a file with the line so far. -/
def lines (size : ℕ) : List Char → List Char → List (List Char)
  | [], line => if line = [] then [] else [line]
  | c :: s, line =>
    if c = '\n' ∨ line.length + 2 = size then (line ++ [c]) :: lines size s []
    else lines size s (line ++ [c])

theorem lines_append {size : ℕ} {line : List Char} (hs : '\n' ∉ s)
    (hlen : line.length + s.length + 1 < size) :
    lines size (s ++ '\n' :: rest) line = (line ++ s ++ ['\n']) :: lines size rest [] := by
  induction s generalizing line with
  | nil => simp [lines]
  | cons c s ih =>
    have hc : c ≠ '\n' := fun h => hs (by rw [h]; exact List.mem_cons_self)
    rw [List.length_cons] at hlen
    rw [List.cons_append, lines, if_neg (not_or.2 ⟨hc, by omega⟩),
      ih (fun h => hs (List.mem_cons_of_mem c h))
        (by rw [List.length_append, List.length_singleton]; omega)]
    simp

/-- No line is longer than the buffer, without the null character. -/
theorem length_of_mem_lines {size : ℕ} {line : List Char} (hline : line.length + 1 < size)
    (hl : l ∈ lines size s line) : l.length < size := by
  induction s generalizing line with
  | nil =>
    unfold lines at hl
    split at hl
    · cases hl
    · rw [List.mem_singleton.1 hl]
      omega
  | cons c s ih =>
    rw [lines] at hl
    split at hl
    · rcases List.mem_cons.1 hl with rfl | hl
      · rw [List.length_append, List.length_singleton]
        exact hline
      · exact ih (by rw [List.length_nil]; omega) hl
    · rename_i hc
      have := (not_or.1 hc).2
      exact ih (by rw [List.length_append, List.length_singleton]; omega) hl

end Text
