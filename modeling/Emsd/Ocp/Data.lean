import Mathlib.Algebra.Ring.Int.Defs
import Mathlib.Algebra.Ring.Nat
import Mathlib.Data.List.Basic

/-!
# Open C platform: addresses, data units, results

The types that the engine takes from the platform modules: the result of a call
(`SuccFail`), network and transport addresses (`addr.h`, `sapcmp.c`), and data units
(`du.c`).
-/

namespace Ocp

/-- `SuccFail` of `estd.h`: `SUCCESS` (0) or `FAIL` (-1). -/
inductive SuccFail
  | success
  | fail
  deriving DecidableEq, Repr

namespace SuccFail

def ofBool (b : Bool) : SuccFail := if b then success else fail

@[simp] theorem ofBool_eq_fail {b : Bool} : ofBool b = fail ↔ b = false := by
  cases b <;> simp [ofBool]

@[simp] theorem ofBool_true : ofBool true = success := rfl

@[simp] theorem ofBool_false : ofBool false = fail := rfl

end SuccFail

abbrev Octets := List UInt8

/-- `N_SapAddr`: the `len` octets in use of a network address. -/
abbrev NSapAddr := Octets

/-- `T_SapSel`: a transport selector, the UDP port. -/
abbrev TSapSel := Octets

/-- `N_sapAddrCmp`: zero only for two equal addresses of non-zero length. -/
def nSapAddrCmp (n1 n2 : NSapAddr) : Int :=
  if n1.length ≠ n2.length ∨ n1.length = 0 then -1
  else if n1 = n2 then 0 else 1

theorem nSapAddrCmp_eq_zero {n1 n2 : NSapAddr} : nSapAddrCmp n1 n2 = 0 ↔ n1 = n2 ∧ n1 ≠ [] := by
  unfold nSapAddrCmp
  split
  · rename_i h
    rcases h with h | h
    · have : n1 ≠ n2 := fun he => h (by rw [he])
      simp [this]
    · simp [List.length_eq_zero_iff.1 h]
  · rename_i h
    rw [not_or, List.length_eq_zero_iff] at h
    split
    · rename_i he; simp [he, he ▸ h.2]
    · rename_i he; simp [he]

theorem nSapAddrCmp_comm {n1 n2 : NSapAddr} : nSapAddrCmp n1 n2 = 0 ↔ nSapAddrCmp n2 n1 = 0 := by
  rw [nSapAddrCmp_eq_zero, nSapAddrCmp_eq_zero]
  constructor <;> (rintro ⟨rfl, h⟩; exact ⟨rfl, h⟩)

theorem nSapAddrCmp_trans {n1 n2 n3 : NSapAddr} (h₁ : nSapAddrCmp n1 n2 = 0)
    (h₂ : nSapAddrCmp n2 n3 = 0) : nSapAddrCmp n1 n3 = 0 := by
  rw [nSapAddrCmp_eq_zero] at *
  exact ⟨h₁.1.trans h₂.1, h₁.2⟩

/-- A view of a data unit as it arrives: `size` octets from `addr` to the end of the
buffer. `buf` is what a read through the pointer finds, which for a short data unit goes
on behind its last octet. -/
structure DU where
  buf : Octets
  size : Int
  deriving DecidableEq, Repr

namespace DU

/-- A data unit that holds exactly the given octets. -/
def ofOctets (o : Octets) : DU := ⟨o, o.length⟩

/-- The data of the view, `DU_size` octets from `DU_data`. -/
def octets (du : DU) : Octets := du.buf.take du.size.toNat

/-- `BO_get1` at offset `n` behind `DU_data`; no size is checked. -/
def get1 (du : DU) (n : Nat) : UInt8 := du.buf.getD n 0

/-- `DU_strip`: advance `addr`, without a check of the size. -/
def strip (du : DU) (n : Nat) : DU := ⟨du.buf.drop n, du.size - n⟩

end DU

/-- `BO_put1` and the assignments to a `Byte`: the low octet of an integer. -/
def put1 (v : Int) : UInt8 := UInt8.ofNat (v % 256).toNat

theorem put1_toNat {v : Int} (h0 : 0 ≤ v) (h1 : v < 256) : ((put1 v).toNat : Int) = v := by
  unfold put1
  rw [Int.emod_eq_of_lt h0 h1, UInt8.toNat_ofNat_of_lt']
  · omega
  · show v.toNat < 256
    omega

end Ocp
