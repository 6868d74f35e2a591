import Emsd.Lib.Fallible
import Emsd.Ocp.Data
import Mathlib.Data.List.TakeWhile

/-!
# Strings (`str/hosted/strfunc.c`)

The strings that the programs pass around: null-terminated ones, whose data area ends with the
terminator and whose length is not kept, and strings of bits, one octet for each.

* `ZString`: a null-terminated string as its owner sees it.
* `Str`: a string of the module, its data area as far as it has been written.
* `getBit_setBit`: **a bit that is set is read again**, and no other bit changes.
* `gives_assignZString`, `stringStart_ofZString`: **a string that is assigned is read again.**

`OS_alloc` gives what it likes: nothing, or a block with whatever was in it.
-/

namespace Ocp

open Fallible

/-- A null-terminated string, without its terminator. -/
def ZString := { s : Octets // 0 ∉ s }
  deriving DecidableEq, Repr

/-- The string without an octet. -/
def ZString.empty : ZString := ⟨[], List.not_mem_nil⟩

/-- The string that begins at the first of the octets. -/
def ZString.ofOctets (s : Octets) : ZString :=
  ⟨s.takeWhile (· ≠ 0), fun h => by simpa using List.mem_takeWhile_imp h⟩

/-! ## Memory -/

/-- What `OS_alloc` gives, call by call: nothing, or a block with what is left in it. -/
structure Blocks where
  given : ℕ → Option (ℕ → UInt8)
  next : ℕ := 0

/-- There is always a block to give. -/
def Blocks.Plenty (m : Blocks) : Prop := ∀ k, (m.given k).isSome = true

/-- Every block that is given has been cleared. -/
def Blocks.Cleared (m : Blocks) : Prop := ∀ k p, m.given k = some p → ∀ i, p i = 0

/-- Why a function does not come to its end: it fails, memory runs out, or what it does is undefined (it
follows a null pointer, or reads or writes outside of a block). -/
inductive Stop
  | fail
  | resourceError
  | undefined
  deriving DecidableEq, Repr

abbrev Run (α : Type) := Comp Blocks Stop α

/-- `OS_alloc`. -/
def osAlloc : Run (ℕ → UInt8) := fun m =>
  match m.given m.next with
  | none => .error .resourceError
  | some p => .ok (p, { m with next := m.next + 1 })

variable {m m' : Blocks}

theorem gives_osAlloc {p : ℕ → UInt8} :
    Gives osAlloc m p m' ↔ m.given m.next = some p ∧ m' = { m with next := m.next + 1 } := by
  unfold Gives osAlloc
  cases h : m.given m.next with
  | none => simp
  | some q => simp [eq_comm]

theorem Blocks.Plenty.osAlloc (h : m.Plenty) : ∃ p m', Gives osAlloc m p m' ∧ m'.Plenty := by
  obtain ⟨p, hp⟩ := Option.isSome_iff_exists.1 (h m.next)
  exact ⟨p, _, gives_osAlloc.2 ⟨hp, rfl⟩, h⟩

/-! ## The strings of the module -/

/-- `STR_ZSTRING`. -/
def lenZString : ℕ := 0xffff

/-- `Str_StringStruct`: the room there is, the length (`lenZString` where the string has a terminator), and
the data area as far as it has been written. -/
structure Str where
  maxLen : ℕ
  len : ℕ
  p : Octets
  deriving DecidableEq, Repr

namespace Str

/-- `STR_alloc`; the length is an `OS_Uint16`. -/
def alloc (len : ℕ) : Run Str := do
  let _ ← osAlloc
  pure ⟨len % 2 ^ 16, 0, []⟩

/-- `STR_assignZString` where there is no string yet. -/
def assignZString (z : ZString) : Run Str := do
  let s ← alloc (z.1.length % 2 ^ 16 + 1)
  if z.1.length + 1 ≤ s.maxLen then pure { s with len := lenZString, p := z.1 ++ [0] }
  else stop .undefined

/-- `STR_attachZString`: the string is not copied. -/
def attachZString (z : ZString) : Run Str := do
  let _ ← osAlloc
  pure ⟨lenZString, lenZString, z.1 ++ [0]⟩

/-- The null-terminated string that begins at `STR_stringStart`. -/
def stringStart : Option Str → Run ZString
  | none => stop .undefined
  | some s => if 0 ∈ s.p then pure (.ofOctets s.p) else stop .undefined

/-- `STR_bitStringGetBit`. -/
def bitStringGetBit (s : Str) (bit : ℕ) : Bool :=
  if s.len ≤ bit then false else s.p.getD bit 0 != 0

/-- The octet that is written for a bit: `TRUE` or `FALSE`. -/
def octetOf (value : Bool) : UInt8 := if value then 1 else 0

/-- `STR_bitStringSetBit`; a bit for which there is no room is not set. -/
def bitStringSetBit (s : Str) (bit : ℕ) (value : Bool) : Str :=
  if bit < s.len then { s with p := s.p.set bit (octetOf value) }
  else if bit < s.maxLen then
    { s with
      len := bit + 1
      p := s.p.take s.len ++ List.replicate (bit - s.len) 0 ++ [octetOf value] }
  else s

/-- All octets up to the length have been written. -/
def Counted (s : Str) : Prop := s.p.length = s.len

variable {s : Str} {z : ZString} {bit : ℕ}

/-- The string that an assignment makes. -/
def ofZString (z : ZString) : Str := ⟨z.1.length + 1, lenZString, z.1 ++ [0]⟩

/-- **What an assignment makes.** -/
theorem gives_assignZString :
    Gives (assignZString z) m s m' → s = ofZString z := by
  intro h
  obtain ⟨s₁, m₁, hs₁, h⟩ := gives_bind.1 h
  obtain ⟨p, m₂, -, hp⟩ := gives_bind.1 hs₁
  obtain ⟨rfl, -⟩ := gives_pure.1 hp
  split at h
  · rename_i hle
    obtain ⟨rfl, -⟩ := gives_pure.1 h
    have hlen : z.1.length + 1 = (z.1.length % 2 ^ 16 + 1) % 2 ^ 16 := by
      simp only at hle
      omega
    simp only [ofZString]
    rw [← hlen]
  · exact absurd h not_gives_stop

/-- **A string that has been assigned is read again.** -/
theorem stringStart_ofZString (z : ZString) : stringStart (some (ofZString z)) = pure z := by
  have htake : (z.1 ++ [0]).takeWhile (· ≠ 0) = z.1 := by
    have hpos : ∀ x ∈ z.1, decide (x ≠ 0) = true := by
      intro x hx
      have hne : x ≠ 0 := fun h0 => z.2 (h0 ▸ hx)
      exact decide_eq_true hne
    rw [List.takeWhile_append_of_pos hpos]
    simp
  simp only [stringStart, ofZString, List.mem_append, List.mem_singleton, or_true, if_true,
    ZString.ofOctets]
  congr 1
  exact Subtype.ext htake

@[simp] theorem bitStringGetBit_alloc (n : ℕ) : bitStringGetBit ⟨n, 0, []⟩ bit = false := by
  simp [bitStringGetBit]

@[simp] theorem bitStringSetBit_maxLen (value : Bool) : (s.bitStringSetBit bit value).maxLen = s.maxLen := by
  unfold bitStringSetBit
  split
  · rfl
  · split <;> rfl

theorem Counted.bitStringSetBit (hs : s.Counted) (value : Bool) :
    (s.bitStringSetBit bit value).Counted := by
  unfold Counted at *
  unfold Str.bitStringSetBit
  split
  · simpa using hs
  · split
    · simp only [List.length_append, List.length_take, List.length_replicate, List.length_singleton]
      omega
    · exact hs

@[simp] theorem octetOf_ne_zero (value : Bool) : (octetOf value != 0) = value := by
  cases value <;> decide

theorem bitStringSetBit_of_lt (h : bit < s.len) (value : Bool) :
    s.bitStringSetBit bit value = { s with p := s.p.set bit (octetOf value) } := if_pos h

theorem bitStringSetBit_of_le (h : s.len ≤ bit) (hbit : bit < s.maxLen) (value : Bool) :
    s.bitStringSetBit bit value =
      { s with
        len := bit + 1
        p := s.p.take s.len ++ List.replicate (bit - s.len) 0 ++ [octetOf value] } :=
  (if_neg (by omega)).trans (if_pos hbit)

/-- **A bit that is set is read again**, and no other bit changes. -/
theorem getBit_setBit (hs : s.Counted) (hbit : bit < s.maxLen) (j : ℕ) (value : Bool) :
    (s.bitStringSetBit bit value).bitStringGetBit j =
      if j = bit then value else s.bitStringGetBit j := by
  unfold Counted at hs
  by_cases hlt : bit < s.len
  · rw [bitStringSetBit_of_lt hlt]
    unfold bitStringGetBit
    by_cases hj : j = bit
    · subst hj
      have hp : j < s.p.length := by omega
      have hle : ¬ s.len ≤ j := by omega
      simp [List.getD, hp, hle]
    · have hne : bit ≠ j := fun h => hj h.symm
      simp only [List.getD, List.getElem?_set_ne hne, hj, if_false]
  · rw [bitStringSetBit_of_le (by omega) hbit]
    unfold bitStringGetBit
    -- the octets up to the bit are those there were, then zeros
    have htake : s.p.take s.len = s.p := List.take_of_length_le (by omega)
    have hread : (s.p ++ List.replicate (bit - s.len) (0 : UInt8) ++ [octetOf value]).getD j 0 =
        if j = bit then octetOf value else if j < s.len then s.p.getD j 0 else 0 := by
      simp only [List.getD]
      grind
    simp only [htake, hread]
    by_cases hj : j = bit
    · subst hj
      simp
    · by_cases hin : j < s.len
      · have h1 : ¬ bit + 1 ≤ j := by omega
        have h2 : ¬ s.len ≤ j := by omega
        simp [hj, hin, h1, h2]
      · have h2 : s.len ≤ j := by omega
        simp [hj, hin, h2]

end Str

end Ocp
