import Mathlib

/-!
# A memory of octets

Octets at integer addresses, 32-bit words in it (low octet first), and blocks of it. What an access
reads after a change elsewhere is what it read before (`get32_put32_of_ne`, `read_congr`).
-/

namespace Octets

abbrev Memory := Int → UInt8

/-- The 32-bit word at `a`. -/
def get32 (m : Memory) (a : Int) : Nat :=
  (m a).toNat + 256 * (m (a + 1)).toNat + 65536 * (m (a + 2)).toNat + 16777216 * (m (a + 3)).toNat

/-- The word at `a` is set to `v`, modulo 2^32. -/
def put32 (m : Memory) (a : Int) (v : Nat) : Memory := fun x =>
  if a ≤ x ∧ x < a + 4 then UInt8.ofNat (v / 256 ^ (x - a).toNat) else m x

/-- `n` octets are moved from `src` to `dst`. -/
def move (m : Memory) (dst src : Int) (n : Nat) : Memory := fun x =>
  if dst ≤ x ∧ x < dst + n then m (x - dst + src) else m x

/-- The octets of `l` are stored from `a` on. -/
def store (m : Memory) (a : Int) (l : List UInt8) : Memory := fun x =>
  if a ≤ x ∧ x < a + l.length then l.getD (x - a).toNat 0 else m x

/-- The `n` octets from `a` on. -/
def read (m : Memory) (a : Int) (n : Nat) : List UInt8 := (List.range n).map fun k : Nat => m (a + k)

variable {m m' : Memory} {a b x : Int} {v n k : Nat} {l : List UInt8}

/-! ## Words -/

theorem get32_lt (m : Memory) (a : Int) : get32 m a < 2 ^ 32 := by
  have h₀ := (m a).toNat_lt
  have h₁ := (m (a + 1)).toNat_lt
  have h₂ := (m (a + 2)).toNat_lt
  have h₃ := (m (a + 3)).toNat_lt
  unfold get32
  omega

theorem get32_congr (h : ∀ x, a ≤ x → x < a + 4 → m' x = m x) : get32 m' a = get32 m a := by
  unfold get32
  rw [h a (by omega) (by omega), h (a + 1) (by omega) (by omega), h (a + 2) (by omega) (by omega),
    h (a + 3) (by omega) (by omega)]

theorem put32_of_outside (h : x < a ∨ a + 4 ≤ x) : put32 m a v x = m x :=
  if_neg (by omega)

@[simp] theorem get32_put32_self : get32 (put32 m a v) a = v % 2 ^ 32 := by
  have h₀ : put32 m a v a = UInt8.ofNat v := by
    rw [put32, if_pos (by omega), Int.sub_self, Int.toNat_zero, Nat.pow_zero, Nat.div_one]
  have h₁ : put32 m a v (a + 1) = UInt8.ofNat (v / 256) := by
    rw [put32, if_pos (by omega), show (a + 1 - a).toNat = 1 by omega, Nat.pow_one]
  have h₂ : put32 m a v (a + 2) = UInt8.ofNat (v / 65536) := by
    rw [put32, if_pos (by omega), show (a + 2 - a).toNat = 2 by omega,
      show 256 ^ 2 = 65536 from rfl]
  have h₃ : put32 m a v (a + 3) = UInt8.ofNat (v / 16777216) := by
    rw [put32, if_pos (by omega), show (a + 3 - a).toNat = 3 by omega,
      show 256 ^ 3 = 16777216 from rfl]
  unfold get32
  rw [h₀, h₁, h₂, h₃]
  simp only [UInt8.toNat_ofNat']
  omega

theorem get32_put32_of_ne (h : b + 4 ≤ a ∨ a + 4 ≤ b) : get32 (put32 m a v) b = get32 m b :=
  get32_congr fun _ _ _ => put32_of_outside (by omega)

/-! ## Blocks -/

theorem move_of_outside {dst src : Int} (h : x < dst ∨ dst + n ≤ x) : move m dst src n x = m x :=
  if_neg (by omega)

theorem move_of_inside {dst src : Int} (h₁ : dst ≤ x) (h₂ : x < dst + n) :
    move m dst src n x = m (x - dst + src) :=
  if_pos ⟨h₁, h₂⟩

theorem store_of_outside (h : x < a ∨ a + l.length ≤ x) : store m a l x = m x :=
  if_neg (by omega)

theorem store_of_inside (h₁ : a ≤ x) (h₂ : x < a + l.length) :
    store m a l x = l.getD (x - a).toNat 0 :=
  if_pos ⟨h₁, h₂⟩

@[simp] theorem read_length : (read m a n).length = n := by simp [read]

@[simp] theorem read_zero : read m a 0 = [] := rfl

theorem read_getElem? (m : Memory) (a : Int) (n k : Nat) :
    (read m a n)[k]? = if k < n then some (m (a + k)) else none := by
  unfold read
  rw [List.getElem?_map]
  split
  · rename_i h
    rw [List.getElem?_range h, Option.map_some]
  · rename_i h
    rw [List.getElem?_eq_none (by simpa using h), Option.map_none]

/-- Two blocks with the same octets are equal. -/
theorem read_congr (h : ∀ k : Nat, k < n → m' (b + k) = m (a + k)) : read m' b n = read m a n := by
  unfold read
  exact List.map_congr_left fun k hk => h k (List.mem_range.1 hk)

theorem read_append (m : Memory) (a : Int) (n k : Nat) :
    read m a (n + k) = read m a n ++ read m (a + n) k := by
  unfold read
  rw [List.range_add, List.map_append, List.map_map]
  congr 1
  refine List.map_congr_left fun i _ => ?_
  simp only [Function.comp_apply, Int.natCast_add, Int.add_assoc]

/-- What is stored is read back. -/
theorem read_store : read (store m a l) a l.length = l := by
  refine List.ext_getElem? fun k => ?_
  rw [read_getElem?]
  split
  · rename_i h
    rw [store_of_inside (by omega) (by omega), show (a + k - a).toNat = k by omega,
      List.getD_eq_getElem?_getD, List.getElem?_eq_getElem h, Option.getD_some]
  · rename_i h
    rw [List.getElem?_eq_none (by omega)]

end Octets
