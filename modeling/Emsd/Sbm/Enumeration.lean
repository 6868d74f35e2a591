import Emsd.Sbm.Layout

/-!
# Walking through the transactions (`sbm.c`)

`SBM_nextTrans` gives the transactions of a type one after the other, in the order of their records,
and `SBM_prevTrans` goes back.
-/

namespace Sbm

open Octets

/-- The search for a record in use of a type, among `k` records from the one of the handle `i` on. -/
def findType (m : Memory) (transactionType : UInt8) : Nat → Nat → Int → Option Nat
  | 0, _, _ => none
  | k + 1, i, pTrans =>
    if transLen m pTrans ≠ unused ∧ Sbm.transactionType m pTrans = transactionType.toNat then some i
    else findType m transactionType k (i + 1) (pTrans - 12)

/-- `SBM_nextTrans`; the handle is cast to 16 bits. -/
def Globals.nextTrans (s : Globals) (transactionType : UInt8) (hPreceding : Nat) : Option Nat :=
  let offset := if hPreceding = sbmNull then 1 else (hPreceding % 2 ^ 16 + 1) % 2 ^ 16
  let n := transAllocated s.mem
  findType s.mem transactionType (n + 1 - offset) offset (s.pTransOffsets + 12 * ((n : Int) - offset))

/-- The search for a record in use of a type, from the one of the handle `i` back to the first. -/
def findTypeBack (m : Memory) (transactionType : UInt8) : Nat → Int → Option Nat
  | 0, _ => none
  | i + 1, pTrans =>
    if transLen m pTrans ≠ unused ∧ Sbm.transactionType m pTrans = transactionType.toNat then
      some (i + 1)
    else findTypeBack m transactionType i (pTrans + 12)

/-- `SBM_prevTrans`; nothing is before `SBM_FIRST`. -/
def Globals.prevTrans (s : Globals) (transactionType : UInt8) (hFollowing : Nat) : Option Nat :=
  if hFollowing = sbmNull then none else
  let offset := (hFollowing % 2 ^ 16 + (2 ^ 16 - 1)) % 2 ^ 16
  let n := transAllocated s.mem
  findTypeBack s.mem transactionType offset (s.pTransOffsets + 12 * ((n : Int) - offset))

variable {m m' : Memory} {s s' : Globals} {order : List Nat} {p g h i k : Nat} {ty : UInt8}

/-- The search depends on which records are in use, and on the types of those. -/
theorem findType_congr {a : Int} (hat : ∀ j, i ≤ j → j < i + k →
      (transLen m' (a - 12 * ((j : Int) - i)) ≠ unused ↔
        transLen m (a - 12 * ((j : Int) - i)) ≠ unused) ∧
      (transLen m (a - 12 * ((j : Int) - i)) ≠ unused →
        transactionType m' (a - 12 * ((j : Int) - i)) = transactionType m (a - 12 * ((j : Int) - i)))) :
    findType m' ty k i a = findType m ty k i a := by
  induction k generalizing i a with
  | zero => rfl
  | succ k ih =>
    obtain ⟨hused, htype⟩ := hat i (Nat.le_refl i) (by omega)
    rw [show a - 12 * ((i : Int) - i) = a by omega] at hused htype
    have hhere : (transLen m' a ≠ unused ∧ transactionType m' a = ty.toNat) ↔
        (transLen m a ≠ unused ∧ transactionType m a = ty.toNat) := by
      rw [hused]
      exact and_congr_right fun hu => by rw [htype hu]
    have hrest : findType m' ty k (i + 1) (a - 12) = findType m ty k (i + 1) (a - 12) := by
      refine ih fun j hj hlt => ?_
      have hsame : a - 12 - 12 * ((j : Int) - (i + 1 : Nat)) = a - 12 * ((j : Int) - i) := by
        push_cast
        omega
      rw [hsame]
      exact hat j (by omega) (by omega)
    unfold findType
    rw [hrest]
    exact if_congr hhere rfl rfl

/-- Blocks with the same committed transactions are walked through alike, if nothing beyond the table
differs. -/
theorem Table.nextTrans_congr (ht : Table s order 0 0) (ht' : Table s' order 0 0)
    (hsize : memSize s'.mem = memSize s.mem) (hall : transAllocated s'.mem = transAllocated s.mem)
    (hslots : ∀ h ∈ order, slot s'.mem h = slot s.mem h)
    (hbeyond : ∀ x, (memSize s.mem : Int) ≤ x → s'.mem x = s.mem x) (ty : UInt8) (hPreceding : Nat) :
    s'.nextTrans ty hPreceding = s.nextTrans ty hPreceding := by
  unfold Globals.nextTrans
  rw [ht'.table, ht.table, hsize, hall]
  refine findType_congr fun j hj hlt => ?_
  generalize (if hPreceding = sbmNull then 1 else (hPreceding % 2 ^ 16 + 1) % 2 ^ 16) = offset
    at hj hlt ⊢
  have hat : (memSize s.mem : Int) - 12 * transAllocated s.mem +
      12 * ((transAllocated s.mem : Int) - offset) - 12 * ((j : Int) - offset) = transAt s.mem j := by
    unfold transAt
    omega
  have hat' : transAt s'.mem j = transAt s.mem j := by
    unfold transAt
    rw [hsize]
  rw [hat]
  change ((getTransaction s'.mem (transAt s.mem j)).transLen ≠ unused ↔
    (slot s.mem j).transLen ≠ unused) ∧
    ((slot s.mem j).transLen ≠ unused →
      (getTransaction s'.mem (transAt s.mem j)).transactionType = (slot s.mem j).transactionType)
  rw [← hat']
  change ((slot s'.mem j).transLen ≠ unused ↔ _) ∧ (_ → (slot s'.mem j).transactionType = _)
  by_cases hj0 : j = 0
  · -- a handle of 65535 is followed by what comes after the table
    subst hj0
    have hslot : slot s'.mem 0 = slot s.mem 0 := by
      refine slot_congr hsize fun x hx _ => hbeyond x ?_
      unfold transAt at hx
      omega
    rw [hslot]
    exact ⟨Iff.rfl, fun _ => rfl⟩
  · -- a record of the table is in use exactly if its handle is committed
    have hlive : j ∈ order ↔ (slot s.mem j).transLen ≠ unused := by
      rw [ht.live j]
      exact ⟨fun h => h.2.2.1, fun h => ⟨by omega, by omega, h, hj0⟩⟩
    have hlive' : j ∈ order ↔ (slot s'.mem j).transLen ≠ unused := by
      rw [ht'.live j, hall]
      exact ⟨fun h => h.2.2.1, fun h => ⟨by omega, by omega, h, hj0⟩⟩
    exact ⟨hlive'.symm.trans hlive, fun hu => by rw [hslots j (hlive.2 hu)]⟩

end Sbm
