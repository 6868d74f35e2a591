import Emsd.Sbm.Freeing

/-!
# What the users of a block see

To its users the block is a set of octet strings under handles, of which one may be in process
(`Contents`): they see nothing of where the octets are. `Transacts` is what each call is for, and
`Globals.contents` is what is read from a block through `SBM_getMemPointer`. `Globals.Accounted` and
`Globals.Conforms` are the conditions on a call under which the block keeps its accounts and its
contents.
-/

namespace Sbm

open Octets Tiling

variable {m : Memory} {s s' : Globals} {order : List Nat} {p g h : Nat} {t : TransactionInProcess}

/-! ## What the users see -/

/-- The committed transactions, and the handle and the octets of the one in process. -/
@[ext]
structure Contents where
  committed : Nat → Option (List UInt8)
  inProcess : Option (Nat × List UInt8)

/-- The octets `l` are stored in `old` from `k` on. -/
def patch (old : List UInt8) (k : Nat) (l : List UInt8) : List UInt8 :=
  old.take k ++ l ++ old.drop (k + l.length)

/-- The memory size that `SBM_open` uses. -/
def roundDown (memSize : Nat) : Nat := memSize - memSize % 4

/-- What the calls are for. -/
inductive Transacts (c : Contents) : Input → Out → Contents → Prop
  | opened {memSize : UInt32} (hsize : roundDown memSize.toNat ≠ 0) :
      Transacts c (.openBlock memSize) .success ⟨fun _ => none, none⟩
  | reopened {memSize : UInt32} (hsize : roundDown memSize.toNat = 0) :
      Transacts c (.openBlock memSize) .success { c with inProcess := none }
  | refused {i : Input} {rc : ReturnCode} : Transacts c i (.failed rc) c
  | begun {ty : UInt8} {osAlloc : Bool} {h : Nat} (hidle : c.inProcess = none)
      (hnew : c.committed h = none) :
      Transacts c (.beginTrans ty osAlloc) (.transaction h) { c with inProcess := some (h, []) }
  | allocated {numBytes : UInt32} {h : Nat} {old block : List UInt8}
      (hopen : c.inProcess = some (h, old)) (hroom : numBytes.toNat ≤ block.length) :
      Transacts c (.alloc numBytes) (.memory old.length)
        { c with inProcess := some (h, old ++ block) }
  | nullString {h : Nat} {old : List UInt8} (hopen : c.inProcess = some (h, old)) :
      Transacts c (.allocStringCopy none) (.memory sbmNull) c
  | copied {str : List UInt8} {h : Nat} {old rest : List UInt8}
      (hopen : c.inProcess = some (h, old)) :
      Transacts c (.allocStringCopy (some str)) (.memory old.length)
        { c with inProcess := some (h, old ++ ((str ++ [0]) ++ rest)) }
  | added {h : UInt32} {osAlloc : Bool} {old : List UInt8} (hidle : c.inProcess = none)
      (hold : c.committed h.toNat = some old) :
      Transacts c (.addToTrans h osAlloc) .success { c with inProcess := some (h.toNat, old) }
  | ended {h : Nat} {new : List UInt8} (hopen : c.inProcess = some (h, new)) :
      Transacts c .endTrans .success ⟨Function.update c.committed h (some new), none⟩
  | aborted {h : Nat} {new : List UInt8} (hopen : c.inProcess = some (h, new)) :
      Transacts c .abortTrans .success { c with inProcess := none }
  | freed {h : UInt32} {old : List UInt8} (hidle : c.inProcess = none)
      (hold : c.committed h.toNat = some old) :
      Transacts c (.freeTrans h) .success
        { c with committed := Function.update c.committed h.toNat none }
  | stored {h hMem : UInt32} {octets old : List UInt8} (hold : c.committed h.toNat = some old)
      (hother : ∀ new, c.inProcess ≠ some (h.toNat, new))
      (hroom : hMem.toNat + octets.length ≤ old.length) :
      Transacts c (.store h hMem octets) .success
        { c with committed :=
            Function.update c.committed h.toNat (some (patch old hMem.toNat octets)) }
  | storedNew {h hMem : UInt32} {octets new : List UInt8}
      (hopen : c.inProcess = some (h.toNat, new))
      (hroom : hMem.toNat + octets.length ≤ new.length) :
      Transacts c (.store h hMem octets) .success
        { c with inProcess := some (h.toNat, patch new hMem.toNat octets) }

/-! ## The contents of a block -/

/-- The octets of a transaction, each read through `SBM_getMemPointer`. -/
def octets (m : Memory) (h : Nat) : List UInt8 :=
  (List.range (slot m h).transLen).map fun k => m (getMemPointer m h k)

namespace Globals

/-- The handle of the transaction in process. -/
def opened (s : Globals) : Nat :=
  match s.inProcess with
  | none => 0
  | some t => ((memSize s.mem - t.pTrans) / 12).toNat

/-- The record that is not one of a committed transaction: of the transaction in process, or of the
original of an addition. -/
def spare (s : Globals) : Nat :=
  match s.inProcess with
  | none => 0
  | some t => if t.hAddingToTrans = sbmNull then s.opened else t.hAddingToTrans

/-- `h` is a committed transaction. -/
def Live (s : Globals) (h : Nat) : Prop :=
  1 ≤ h ∧ h ≤ transAllocated s.mem ∧ (slot s.mem h).transLen ≠ unused ∧ h ≠ s.spare

instance (s : Globals) (h : Nat) : Decidable (s.Live h) := inferInstanceAs (Decidable (_ ∧ _))

/-- The record with the committed octets of `h`. -/
def record (s : Globals) (h : Nat) : Nat := home s.opened s.spare h

/-- The handles of the committed transactions. -/
def lives (s : Globals) : List Nat :=
  (List.range' 1 (transAllocated s.mem)).filter fun h => s.Live h

def contents (s : Globals) : Contents where
  committed h := if s.Live h then some (octets s.mem (s.record h)) else none
  inProcess := s.inProcess.map fun _ => (s.opened, octets s.mem s.opened)

end Globals

theorem octets_eq (m : Memory) (h : Nat) : octets m h = content m h := by
  have hfits := (slot_fits m h).1
  unfold octets content Octets.read
  refine List.map_congr_left fun k hk => ?_
  have hk := List.mem_range.1 hk
  unfold getMemPointer
  rw [if_neg (by unfold sbmNull; omega)]
  rfl

/-- The layout, for the transaction that is in process if there is one. -/
structure Laid (s : Globals) (order : List Nat) (p g : Nat) : Prop where
  table : Table s order p g
  opened : s.opened = p
  spare : s.spare = g

theorem Table.laid (ht : Table s order 0 0) (hidle : s.inProcess = none) : Laid s order 0 0 := by
  refine ⟨ht, ?_, ?_⟩
  · unfold Globals.opened
    rw [hidle]
  · unfold Globals.spare
    rw [hidle]

theorem Open.laid (ho : Open s order p g t) : Laid s order p g := by
  have hp : s.opened = p := by
    unfold Globals.opened
    rw [ho.inProcess]
    dsimp only
    rw [ho.record]
    unfold transAt
    omega
  refine ⟨ho.toTable, hp, ?_⟩
  unfold Globals.spare
  rw [ho.inProcess]
  dsimp only
  rcases ho.adding with ⟨rfl, hnull⟩ | ⟨-, hadd, -⟩
  · rw [if_pos hnull, hp]
  · rw [if_neg (by rw [hadd]; exact ho.spare_ne_null), hadd]

theorem Laid.live (hl : Laid s order p g) : s.Live h ↔ h ∈ order := by
  rw [hl.table.live h]
  unfold Globals.Live
  rw [hl.spare]

theorem Laid.committed (hl : Laid s order p g) (h : Nat) :
    s.contents.committed h = if h ∈ order then some (content s.mem (home p g h)) else none := by
  unfold Globals.contents Globals.record
  dsimp only
  rw [hl.opened, hl.spare, octets_eq]
  simp only [hl.live]

theorem contents_idle (hidle : s.inProcess = none) : s.contents.inProcess = none := by
  unfold Globals.contents
  rw [hidle]
  rfl

theorem Open.contents_inProcess (ho : Open s order p g t) :
    s.contents.inProcess = some (p, content s.mem p) := by
  unfold Globals.contents
  dsimp only
  rw [ho.inProcess, ho.laid.opened, octets_eq]
  rfl

/-- The same committed transactions with the same octets. -/
theorem Laid.committed_congr {p' g' : Nat} (hl : Laid s order p g) (hl' : Laid s' order p' g')
    (hc : ∀ h ∈ order, content s'.mem (home p' g' h) = content s.mem (home p g h)) :
    s'.contents.committed = s.contents.committed := by
  funext h
  rw [hl.committed, hl'.committed]
  split
  · rename_i hh
    rw [hc h hh]
  · rfl

/-! ## The conditions -/

namespace Globals

/-- The condition on a call that keeps the accounts: a handle is one of a committed transaction, a
block is not opened again while a record of the table is in use for a transaction in process, an
addition is ended only if it uses a record of the table, and aborted only if it uses a new one. -/
def Accounted (s : Globals) : Input → Prop
  | .openBlock memSize =>
    if roundDown memSize.toNat ≠ 0 then 12 ≤ roundDown memSize.toNat
    else s.spare = 0 ∨ (s.spare = s.opened ∧ transAllocated s.mem < s.spare)
  | .beginTrans .. | .alloc _ | .allocStringCopy none => True
  | .allocStringCopy (some str) => str.length + 1 ≤ 2 ^ 32 - 4
  | .addToTrans h _ | .freeTrans h => s.inProcess = none → s.Live h.toNat
  | .endTrans => s.spare ≠ s.opened → s.spare ≤ transAllocated s.mem
  | .abortTrans => s.spare ≠ s.opened → transAllocated s.mem < s.spare
  | .store h hMem octets =>
    (s.Live h.toNat ∨ (s.inProcess.isSome ∧ h.toNat = s.opened)) ∧
      hMem.toNat + octets.length ≤ (slot s.mem h.toNat).transLen

/-- The octets that are moved when the transaction in process ends can be counted in 16 bits. -/
def EndCovered (s : Globals) : Prop :=
  s.spare ≠ s.opened →
    Covers s.pTransOffsets (s.pNextAvailable + (slot s.mem s.opened).transLen) (slot s.mem s.spare)

/-- The condition on a call that keeps the contents: also, sizes can be rounded up in 32 bits, and
the octets that are moved can be counted in 16 bits. -/
def Conforms (s : Globals) (i : Input) : Prop :=
  s.Accounted i ∧
    match i with
    | .alloc numBytes => numBytes.toNat ≤ 2 ^ 32 - 4
    | .freeTrans h =>
      s.inProcess = none → Covers s.pTransOffsets s.pNextAvailable (slot s.mem h.toNat)
    | .endTrans => s.EndCovered
    | _ => True

instance (s : Globals) : (i : Input) → Decidable (s.Accounted i)
  | .openBlock memSize => inferInstanceAs (Decidable (if roundDown memSize.toNat ≠ 0 then
      12 ≤ roundDown memSize.toNat
      else s.spare = 0 ∨ (s.spare = s.opened ∧ transAllocated s.mem < s.spare)))
  | .beginTrans .. | .alloc _ | .allocStringCopy none => .isTrue trivial
  | .allocStringCopy (some str) => inferInstanceAs (Decidable (str.length + 1 ≤ 2 ^ 32 - 4))
  | .addToTrans h _ | .freeTrans h =>
    inferInstanceAs (Decidable (s.inProcess = none → s.Live h.toNat))
  | .endTrans => inferInstanceAs (Decidable (s.spare ≠ s.opened → s.spare ≤ transAllocated s.mem))
  | .abortTrans => inferInstanceAs (Decidable (s.spare ≠ s.opened → transAllocated s.mem < s.spare))
  | .store h hMem l => inferInstanceAs (Decidable
      ((s.Live h.toNat ∨ (s.inProcess.isSome ∧ h.toNat = s.opened)) ∧
        hMem.toNat + l.length ≤ (slot s.mem h.toNat).transLen))

instance (s : Globals) : (i : Input) → Decidable (s.Conforms i)
  | .alloc numBytes => inferInstanceAs (Decidable (_ ∧ numBytes.toNat ≤ 2 ^ 32 - 4))
  | .freeTrans h => inferInstanceAs (Decidable (s.Accounted (.freeTrans h) ∧
      (s.inProcess = none → Covers s.pTransOffsets s.pNextAvailable (slot s.mem h.toNat))))
  | .endTrans => inferInstanceAs (Decidable (s.Accounted .endTrans ∧ (s.spare ≠ s.opened →
      Covers s.pTransOffsets (s.pNextAvailable + (slot s.mem s.opened).transLen)
        (slot s.mem s.spare))))
  | .openBlock memSize => inferInstanceAs (Decidable (s.Accounted (.openBlock memSize) ∧ True))
  | .beginTrans ty a => inferInstanceAs (Decidable (s.Accounted (.beginTrans ty a) ∧ True))
  | .allocStringCopy str => inferInstanceAs (Decidable (s.Accounted (.allocStringCopy str) ∧ True))
  | .addToTrans h a => inferInstanceAs (Decidable (s.Accounted (.addToTrans h a) ∧ True))
  | .abortTrans => inferInstanceAs (Decidable (s.Accounted .abortTrans ∧ True))
  | .store h hMem l => inferInstanceAs (Decidable (s.Accounted (.store h hMem l) ∧ True))

end Globals

end Sbm
