import Emsd.Asn.Elements
import Emsd.Asn.Parsing

/-!
# BCD numbers (`asnber.c`)

A number is sent as its decimal digits, two to an octet. `bcdToString` unpacks whatever octets come
into an array of sixteen characters, up to an octet that could end the string, and `atol` reads the
characters up to one that is not a digit, and no further than a `long` goes.

* `bcdToInt_intToBcd_iff`: a number that has been packed is unpacked as far as a `long` goes.
* `bcd_iff`: **what the parser makes of the octets** is their decimal value, or nothing, exactly when they
  are rejected for their number or are at most seven octets of digits whose value fits.
-/

namespace Asn

open Ocp

variable {b : Buf} {c : CStruct} {i : Info} {longMax lengthOfLength : Nat} {data tail : Octets}

/-- `bcdToInt`. There is no result when the digits do not fit into the array of `bcdToString`. -/
def bcdToInt (longMax : Nat) (bcdString : Octets) : Option UInt32 :=
  (bcdToString bcdString).map fun str => UInt32.ofNat (atol longMax str)

/-- **A number that has been packed** is unpacked when a `long` can hold it. -/
theorem bcdToInt_intToBcd_iff (longMax : Nat) (n : UInt32) :
    bcdToInt longMax (intToBcd n) = some n ↔ n.toNat ≤ longMax := by
  obtain ⟨str, hstr, hatol⟩ := bcdToString_intToBcd longMax n
  have hlt := n.toNat_lt
  unfold bcdToInt
  rw [hstr, Option.map_some, Option.some_inj, ← UInt32.toNat_inj, UInt32.toNat_ofNat', hatol]
  omega

/-- The octets are digits, and the number at the place of the element is the one that they stand for; or
they have been rejected. -/
def BcdRead (i : Info) (data : Octets) : Parse → Prop
  | .done _ c _ => (∀ d ∈ digitsOf data, d < 10) ∧
      (c.uint32 i.dataOffset).toNat = Numeral.value 10 (digitsOf data)
  | .failed _ _ _ => True
  | .beyond => False

/-- The parser takes no string of so many octets: there are more than the element may have, or more than
fit into the string that it allocates for them. -/
def TooMany (i : Info) (len : Nat) : Prop :=
  len > i.maxDataLength ∨ len > (len + 2) % 2 ^ 16 ∧ (len + 2) % 2 ^ 16 ≠ 0

/-- At most seven octets of decimal digits, whose value fits into a `long` and into the structure. -/
structure Fits (longMax : Nat) (data : Octets) : Prop where
  decimal : ∀ d ∈ digitsOf data, d < 10
  length : data.length < 8
  value : Numeral.value 10 (digitsOf data) ≤ longMax ∧ Numeral.value 10 (digitsOf data) < 2 ^ 32

theorem storeBcdString_iff (used : Nat) :
    BcdRead i data (storeBcdString longMax i b c data used) ↔ Fits longMax data := by
  have hstore : ∀ str, (c.setUint32 i.dataOffset (UInt32.ofNat (atol longMax str))).uint32 i.dataOffset =
      UInt32.ofNat (atol longMax str) := fun str => Function.update_self _ _ _
  constructor
  · intro h
    unfold storeBcdString at h
    cases hstr : bcdToString data with
    | none => rw [hstr] at h; exact h.elim
    | some str =>
      rw [hstr] at h
      obtain ⟨h10, hvalue⟩ := h
      have hlen : data.length < 8 := by
        by_contra hlong
        unfold bcdToString at hstr
        dsimp only at hstr
        rw [takeWhile_decimal h10, if_neg hlong] at hstr
        cases hstr
      obtain ⟨str', hstr', hatol⟩ := bcdToString_decimal longMax h10 hlen
      rw [hstr] at hstr'
      obtain rfl := Option.some.inj hstr'
      rw [hstore, UInt32.toNat_ofNat', hatol] at hvalue
      exact ⟨h10, hlen, by omega⟩
  · rintro ⟨h10, hlen, hvalue⟩
    obtain ⟨str, hstr, hatol⟩ := bcdToString_decimal longMax h10 hlen
    unfold storeBcdString
    rw [hstr]
    refine ⟨h10, ?_⟩
    rw [hstore, UInt32.toNat_ofNat', hatol]
    omega

/-- The contents of a BCD element. -/
theorem parseBcdString_iff (hb : b.Holds (data ++ tail)) :
    BcdRead i data (parseString i (storeBcdString longMax i) b c data.length lengthOfLength) ↔
      TooMany i data.length ∨ Fits longMax data := by
  by_cases hmax : data.length > i.maxDataLength
  · unfold parseString
    rw [if_pos hmax]
    exact iff_of_true trivial (.inl (.inl hmax))
  obtain ⟨b', -, -, heq⟩ := parseString_eq i (storeBcdString longMax i) c lengthOfLength hb (by omega)
  rw [heq]
  split
  · rename_i hroom
    have hnot : ¬TooMany i data.length := fun h => by
      rcases h with h | h
      · exact hmax h
      · omega
    rw [storeBcdString_iff]
    exact (or_iff_right hnot).symm
  · rename_i hroom
    split
    · -- the string that is allocated is taken for one without a limit
      rename_i hzero
      refine iff_of_false id fun h => ?_
      rcases h with (h | h) | h
      · exact hmax h
      · exact h.2 hzero
      · have := h.length
        omega
    · rename_i hzero
      exact iff_of_true trivial (.inl (.inr ⟨by omega, hzero⟩))

/-- **BCD numbers**: a number that has been packed is unpacked when a `long` can hold it; and octets that are
found for a BCD element are read as their decimal value, or rejected, exactly when there are too many of
them to be taken or they are at most seven octets of digits whose value fits. -/
theorem bcd_iff (longMax : Nat) :
    (∀ n : UInt32, bcdToInt longMax (intToBcd n) = some n ↔ n.toNat ≤ longMax) ∧
    ∀ (i : Info) (base : Nat) (b b' : Buf) (c c' : CStruct) (quota lengthOfLength : Nat)
      (data tail : Octets),
      header (Element.bcdString i).tagged (i.at base) b c quota =
        .found b' c' data.length lengthOfLength → b'.Holds (data ++ tail) →
      (BcdRead (i.at base) data ((Element.bcdString i).parse longMax base b c quota) ↔
        TooMany i data.length ∨ Fits longMax data) := by
  refine ⟨bcdToInt_intToBcd_iff longMax, fun i base b b' c c' quota lengthOfLength data tail hheader hb => ?_⟩
  unfold Element.parse
  rw [hheader]
  exact parseBcdString_iff hb

/-- The element of an EMSD address. -/
def emsdAddress : Info := { tag := 4 }

/-- A number and its octets. -/
theorem bcd_twelve :
    bcdToInt 2147483647 (intToBcd 12) = some 12 ∧
      BcdRead emsdAddress [0x12]
        ((Element.bcdString emsdAddress).parse 2147483647 0 ⟨[[4, 1, 0x12]], 0, 0⟩ {} 3) := by
  refine ⟨((bcd_iff 2147483647).1 12).2 (by decide), ?_⟩
  refine ((bcd_iff 2147483647).2 emsdAddress 0 _ ⟨[[4, 1, 0x12]], 0, 2⟩ {} {} 3 1 [0x12] [] rfl
    ⟨?_, rfl⟩).2 (.inr ⟨by decide, by decide, by decide⟩)
  intro seg hseg
  obtain rfl : [4, 1, 0x12] = seg := by simpa using hseg
  decide

/-- **Octets that are not read as their value**: a digit that is none ends the number, and digits beyond the
array are written and read. -/
theorem bcd_misread :
    (∃ b c, (Element.bcdString emsdAddress).parse 9223372036854775807 0 ⟨[[4, 2, 0x1a, 0x23]], 0, 0⟩ {} 4 =
      .done b c 4 ∧ c.uint32 0 = 1) ∧
    (Element.bcdString emsdAddress).parse 9223372036854775807 0
      ⟨[[4, 9, 0x12, 0x34, 0x56, 0x78, 0x90, 0x12, 0x34, 0x56, 0x78]], 0, 0⟩ {} 11 = .beyond :=
  ⟨⟨_, _, rfl, rfl⟩, rfl⟩

end Asn
