import Mathlib.Data.Nat.Digits.Lemmas

/-!
# Numerals

A number as its digits in some base, the most significant first: how a loop that strips off the last
digit writes it, and how a loop that shifts digits in reads it.

* `value_digits`, `value_peel`: what has been written is read again.
-/

namespace Numeral

variable {b n k d : ℕ} {ds es : List ℕ}

/-- The digits of `n`, without a leading zero. -/
def digits (b n : ℕ) : List ℕ := (Nat.digits b n).reverse

/-- What a loop has when the digits have been shifted in one by one. -/
def value (b : ℕ) (ds : List ℕ) : ℕ := ds.foldl (fun v d => v * b + d) 0

/-- The loop `do { put n % b; n = n / b; } while (n > 0)`, where each digit is put in front. -/
def peel (b : ℕ) : ℕ → ℕ → List ℕ
  | 0, _ => []
  | k + 1, n => if n / b = 0 then [n % b] else peel b k (n / b) ++ [n % b]

@[simp] theorem value_nil : value b [] = 0 := rfl

theorem value_append_single : value b (ds ++ [d]) = value b ds * b + d := by
  simp [value]

theorem value_eq_ofDigits (b : ℕ) (ds : List ℕ) : value b ds = Nat.ofDigits b ds.reverse := by
  induction ds using List.reverseRecOn with
  | nil => rfl
  | append_singleton ds d ih =>
    rw [value_append_single, ih, List.reverse_append, List.reverse_singleton,
      List.singleton_append, Nat.ofDigits_cons]
    ring

/-- **The digits give the number.** -/
theorem value_digits (b n : ℕ) : value b (digits b n) = n := by
  rw [value_eq_ofDigits, digits, List.reverse_reverse, Nat.ofDigits_digits]

/-- A leading zero does not count. -/
theorem value_zero_cons : value b (0 :: ds) = value b ds := by
  simp [value]

theorem value_append (ds es : List ℕ) :
    value b (ds ++ es) = value b ds * b ^ es.length + value b es := by
  induction es using List.reverseRecOn with
  | nil => simp
  | append_singleton es e ih =>
    rw [← List.append_assoc, value_append_single, ih, value_append_single, List.length_append,
      List.length_singleton, pow_succ]
    ring

theorem value_lt (hb : 1 < b) (h : ∀ d ∈ ds, d < b) : value b ds < b ^ ds.length := by
  rw [value_eq_ofDigits, ← List.length_reverse]
  exact Nat.ofDigits_lt_base_pow_length hb fun d hd => h d (List.mem_reverse.1 hd)

theorem value_eq_zero_iff (hb : 0 < b) : value b ds = 0 ↔ ∀ d ∈ ds, d = 0 := by
  induction ds using List.reverseRecOn with
  | nil => simp
  | append_singleton ds d ih =>
    have hne : b ≠ 0 := by omega
    rw [value_append_single]
    simp [ih, hne, or_imp, forall_and]

/-- **Few digits**: the number is below `b ^ k` exactly when all digits but the last `k` are zero. -/
theorem value_lt_pow_iff (hb : 1 < b) (h : ∀ d ∈ ds, d < b) (k : ℕ) :
    value b ds < b ^ k ↔ ∀ d ∈ ds.take (ds.length - k), d = 0 := by
  have hsplit := value_append (b := b) (ds.take (ds.length - k)) (ds.drop (ds.length - k))
  have hlast := value_lt hb fun d hd => h d (List.mem_of_mem_drop (i := ds.length - k) hd)
  rw [List.take_append_drop] at hsplit
  rw [List.length_drop] at hsplit hlast
  rw [← value_eq_zero_iff (Nat.zero_lt_of_lt hb)]
  rcases Nat.le_total ds.length k with hle | hle
  · -- there are not more than `k` digits
    have hpow : b ^ ds.length ≤ b ^ k := Nat.pow_le_pow_right (by omega) hle
    have hlt := value_lt hb h
    rw [Nat.sub_eq_zero_of_le hle]
    exact iff_of_true (Nat.lt_of_lt_of_le hlt hpow) rfl
  · rw [Nat.sub_sub_self hle] at hsplit hlast
    rw [hsplit]
    constructor
    · intro hlt
      by_contra hne
      have hmul : 1 * b ^ k ≤ value b (ds.take (ds.length - k)) * b ^ k :=
        Nat.mul_le_mul_right _ (Nat.one_le_iff_ne_zero.2 hne)
      omega
    · intro hzero
      rwa [hzero, Nat.zero_mul, Nat.zero_add]

/-- **The loop gives the number** when it may go round often enough. -/
theorem value_peel (hn : n < b ^ k) : value b (peel b k n) = n := by
  induction k generalizing n with
  | zero =>
    have h0 : n = 0 := by simpa using hn
    rw [h0]
    rfl
  | succ k ih =>
    unfold peel
    have hdiv : n / b * b + n % b = n := by
      rw [Nat.mul_comm]
      exact Nat.div_add_mod n b
    split
    · rename_i h0
      rw [h0] at hdiv
      simpa [value] using hdiv
    · have hlt : n / b < b ^ k := by
        apply Nat.div_lt_of_lt_mul
        rw [Nat.mul_comm]
        exact (pow_succ b k).symm ▸ hn
      rw [value_append_single, ih hlt]
      exact hdiv

theorem peel_lt (hb : 0 < b) : ∀ d ∈ peel b k n, d < b := by
  induction k generalizing n with
  | zero => simp [peel]
  | succ k ih =>
    intro d hd
    unfold peel at hd
    have hmod := Nat.mod_lt n hb
    split at hd
    · rw [List.mem_singleton.1 hd]
      exact hmod
    · rcases List.mem_append.1 hd with hd | hd
      · exact ih d hd
      · rw [List.mem_singleton.1 hd]
        exact hmod

theorem peel_length_le : (peel b k n).length ≤ k := by
  induction k generalizing n with
  | zero => exact Nat.le_refl 0
  | succ k ih =>
    unfold peel
    split
    · exact Nat.succ_le_succ (Nat.zero_le k)
    · rw [List.length_append, List.length_singleton]
      exact Nat.succ_le_succ ih

theorem digits_lt (hb : 1 < b) : ∀ d ∈ digits b n, d < b := by
  intro d hd
  exact Nat.digits_lt_base hb (List.mem_reverse.1 hd)

theorem digits_length_le (hb : 1 < b) (hn : n < b ^ k) : (digits b n).length ≤ k := by
  rw [digits, List.length_reverse]
  exact (Nat.digits_length_le_iff hb n).2 hn

end Numeral
