import Emsd.Lib.Octets

/-!
# Static block memory (`sbm.c`)

A block of memory begins with its header and ends with the table of its transactions, which grows
down. Between them the allocations of the transactions lie one after another. All of it is kept in
the block itself, so that a saved block can be opened again. Addresses are relative to `pStart`.
-/

namespace Sbm

open Octets

/-- `SBM_NULL`: no transaction. -/
def sbmNull : Nat := 0xffffffff

/-- The `transLen` of a record that is not in use. -/
def unused : Nat := 0xffffffff

/-! ## Header and table -/

/-- `Header`, of 12 octets at the start of the block. -/
def memSize (m : Memory) : Nat := get32 m 0

def bytesRemaining (m : Memory) : Nat := get32 m 4

def transAllocated (m : Memory) : Nat := get32 m 8

/-- `Transaction`: a record of the table, of 12 octets. -/
structure Transaction where
  transLen : Nat
  offset : Nat
  transactionType : Nat
  deriving DecidableEq, Repr

def transLen (m : Memory) (pTrans : Int) : Nat := get32 m pTrans

def offset (m : Memory) (pTrans : Int) : Nat := get32 m (pTrans + 4)

def transactionType (m : Memory) (pTrans : Int) : Nat := get32 m (pTrans + 8)

def getTransaction (m : Memory) (pTrans : Int) : Transaction :=
  ⟨transLen m pTrans, offset m pTrans, transactionType m pTrans⟩

def putTransaction (m : Memory) (pTrans : Int) (t : Transaction) : Memory :=
  put32 (put32 (put32 m pTrans t.transLen) (pTrans + 4) t.offset) (pTrans + 8) t.transactionType

/-- The record of a handle, which is the index from the end of the memory. -/
def transAt (m : Memory) (hTrans : Nat) : Int := memSize m - 12 * hTrans

/-- `SBM_getMemPointer`, where `SBM_FIRST` is the first allocation. -/
def getMemPointer (m : Memory) (hTrans hMem : Nat) : Int :=
  offset m (transAt m hTrans) + if hMem = sbmNull then 0 else hMem

/-! ## The state -/

structure TransactionInProcess where
  pTrans : Int
  hAddingToTrans : Nat
  bytesRemaining : Nat
  pNextAlloc : Int
  pStart : Int
  deriving DecidableEq, Repr

/-- `sbm_globals`, with the memory; `inProcess` is `bTransactionInProcess` with the structure whose
handle `SBM_beginTrans` has returned. -/
structure Globals where
  mem : Memory
  pNextAvailable : Int
  pTransOffsets : Int
  inProcess : Option TransactionInProcess

inductive ReturnCode
  | resourceError
  | transactionInProcess
  | noTransactionInProcess
  deriving DecidableEq, Repr

/-! ## Opening -/

/-- `SBM_open`: a memory size of zero opens a block that has been saved. -/
def openBlock (m : Memory) (memSize : Nat) : Globals :=
  let memSize := memSize - memSize % 4
  let m :=
    if memSize ≠ 0 then put32 (put32 (put32 m 4 ((memSize + 2 ^ 32 - 12) % 2 ^ 32)) 0 memSize) 8 0
    else m
  let pTransOffsets : Int := Sbm.memSize m - 12 * transAllocated m
  { mem := m
    pNextAvailable := pTransOffsets - bytesRemaining m
    pTransOffsets
    inProcess := none }

/-! ## Transactions -/

/-- The search for a record that is not in use, among `k` records from `pTrans` downwards. -/
def findUnused (m : Memory) : Nat → Int → Option Int
  | 0, _ => none
  | k + 1, pTrans => if transLen m pTrans = unused then some pTrans else findUnused m k (pTrans - 12)

namespace Globals

/-- `SBM_beginTrans`; `osAlloc` tells whether there is memory for the structure. -/
def beginTrans (s : Globals) (transactionType : UInt8) (osAlloc : Bool) :
    Globals × Except ReturnCode Nat :=
  if s.inProcess.isSome then (s, .error .transactionInProcess) else
  let n := transAllocated s.mem
  let found := findUnused s.mem n (s.pTransOffsets + 12 * (n - 1))
  if found = none ∧ bytesRemaining s.mem < 12 then (s, .error .resourceError) else
  let (pTrans, extraSpace) : Int × Nat :=
    match found with
    | some pTrans => (pTrans, 0)
    | none => (s.pTransOffsets - 12, 12)
  if bytesRemaining s.mem < extraSpace + 1 then (s, .error .resourceError) else
  if !osAlloc then (s, .error .resourceError) else
  let pTransInProcess : TransactionInProcess :=
    { pTrans
      hAddingToTrans := sbmNull
      bytesRemaining := bytesRemaining s.mem - extraSpace
      pNextAlloc := s.pNextAvailable
      pStart := s.pNextAvailable }
  let offset := (s.pNextAvailable % 2 ^ 32).toNat
  ({ s with
      mem := putTransaction s.mem pTrans ⟨0, offset, transactionType.toNat⟩
      inProcess := some pTransInProcess },
    .ok ((memSize s.mem - pTrans) / 12).toNat)

/-- The size of an allocation, rounded up to a multiple of four in 32 bits. -/
def roundUp (numBytes : Nat) : Nat :=
  if numBytes % 4 ≠ 0 then (numBytes + (4 - numBytes % 4)) % 2 ^ 32 else numBytes

/-- What both allocating functions do: `numBytes` octets more for the transaction in process. -/
def extend (s : Globals) (t : TransactionInProcess) (numBytes : Nat) : Globals :=
  { s with
    mem := put32 s.mem t.pTrans (transLen s.mem t.pTrans + numBytes)
    inProcess := some { t with
      bytesRemaining := t.bytesRemaining - numBytes
      pNextAlloc := t.pNextAlloc + numBytes } }

/-- The handle of the next allocation: its offset from the beginning of the transaction. -/
def nextMem (t : TransactionInProcess) : Nat := ((t.pNextAlloc - t.pStart) % 2 ^ 32).toNat

/-- `SBM_alloc`. -/
def alloc (s : Globals) (numBytes : Nat) : Globals × Except ReturnCode Nat :=
  match s.inProcess with
  | none => (s, .error .noTransactionInProcess)
  | some t =>
    if roundUp numBytes > t.bytesRemaining then (s, .error .resourceError)
    else (s.extend t (roundUp numBytes), .ok (nextMem t))

/-- `SBM_allocStringCopy`; `none` is a null pointer, and a string is given without its last octet,
which is zero. -/
def allocStringCopy (s : Globals) (pString : Option (List UInt8)) :
    Globals × Except ReturnCode Nat :=
  match s.inProcess with
  | none => (s, .error .noTransactionInProcess)
  | some t =>
    match pString with
    | none => (s, .ok sbmNull)
    | some str =>
      let numBytes := roundUp ((str.length + 1) % 2 ^ 32)
      if numBytes > t.bytesRemaining then (s, .error .resourceError)
      else
        let s := s.extend t numBytes
        ({ s with mem := store s.mem t.pNextAlloc (str ++ [0]) }, .ok (nextMem t))

/-- `SBM_abortTrans`. -/
def abortTrans (s : Globals) : Globals × Except ReturnCode Unit :=
  match s.inProcess with
  | none => (s, .error .noTransactionInProcess)
  | some t =>
    let m :=
      if t.hAddingToTrans ≠ sbmNull then
        putTransaction s.mem t.pTrans (getTransaction s.mem (transAt s.mem t.hAddingToTrans))
      else put32 s.mem t.pTrans unused
    ({ s with mem := m, inProcess := none }, .ok ())

/-- `SBM_addToTrans`: the old transaction is copied behind all others, and the two records are
swapped. -/
def addToTrans (s : Globals) (hOldTrans : Nat) (osAlloc : Bool) : Globals × Except ReturnCode Unit :=
  if s.inProcess.isSome then (s, .error .transactionInProcess) else
  let pOldTrans := transAt s.mem hOldTrans
  match s.beginTrans (.ofNat (transactionType s.mem pOldTrans)) osAlloc with
  | (s, .error rc) => (s, .error rc)
  | (s, .ok hNewTrans) =>
    match s.alloc (transLen s.mem pOldTrans) with
    | (s, .error rc) => (s.abortTrans.1, .error rc)
    | (s, .ok _) =>
      let m := move s.mem (getMemPointer s.mem hNewTrans sbmNull)
        (getMemPointer s.mem hOldTrans sbmNull) (transLen s.mem pOldTrans)
      let pNewTrans := transAt m hNewTrans
      let tempTrans := getTransaction m pNewTrans
      let m := putTransaction m pNewTrans (getTransaction m pOldTrans)
      let m := putTransaction m pOldTrans tempTrans
      ({ s with
          mem := m
          inProcess := s.inProcess.map fun t =>
            { t with pTrans := pOldTrans, hAddingToTrans := hNewTrans } }, .ok ())

/-! ## Freeing -/

/-- The offsets beyond `thisOffset` are lowered, in `k` records from `pTrans` downwards. -/
def moveOffsets (thisOffset moveBy : Nat) : Nat → Int → Memory → Memory
  | 0, _, m => m
  | k + 1, pTrans, m =>
    let m :=
      if transLen m pTrans ≠ unused ∧ offset m pTrans > thisOffset then
        put32 m (pTrans + 4) (offset m pTrans + 2 ^ 32 - moveBy)
      else m
    moveOffsets thisOffset moveBy k (pTrans - 12) m

/-- The records that are not in use at the beginning of the table are given back. The loop ends when
`i` reaches the number of records, which goes down as `i` goes up; the first argument is a bound on
its turns. -/
def trim : Nat → Nat → Globals → Globals
  | 0, _, s => s
  | fuel + 1, i, s =>
    if i < transAllocated s.mem ∧ transLen s.mem s.pTransOffsets = unused then
      let m := put32 s.mem 8 (transAllocated s.mem - 1)
      trim fuel (i + 1) { s with
        mem := put32 m 4 (bytesRemaining m + 12)
        pTransOffsets := s.pTransOffsets + 12 }
    else s

/-- `SBM_freeTrans`; the number of octets to move is cast to 16 bits. -/
def freeTrans (s : Globals) (hTransaction : Nat) : Globals × Except ReturnCode Unit :=
  if s.inProcess.isSome then (s, .error .transactionInProcess) else
  let pTrans := transAt s.mem hTransaction
  let thisOffset := offset s.mem pTrans
  let pDest : Int := thisOffset
  let pSrc : Int := thisOffset + transLen s.mem pTrans
  let m := move s.mem pDest pSrc ((s.pTransOffsets - pSrc) % 2 ^ 16).toNat
  let m := put32 m 4 (bytesRemaining m + transLen m pTrans)
  let m := put32 m pTrans unused
  let moveBy := (pSrc - pDest).toNat
  let n := transAllocated m
  let m := moveOffsets thisOffset moveBy n (s.pTransOffsets + 12 * (n - 1)) m
  (trim n 0 { s with mem := m, pNextAvailable := s.pNextAvailable - moveBy }, .ok ())

/-- `SBM_endTrans`; after an addition the old transaction is freed. -/
def endTrans (s : Globals) : Globals × Except ReturnCode Unit :=
  match s.inProcess with
  | none => (s, .error .noTransactionInProcess)
  | some t =>
    let old := s
    let s := { s with
      inProcess := none
      mem := put32 s.mem 4 t.bytesRemaining
      pNextAvailable := t.pNextAlloc }
    let s :=
      if t.pTrans < s.pTransOffsets then
        { s with
          pTransOffsets := s.pTransOffsets - 12
          mem := put32 s.mem 8 (transAllocated s.mem + 1) }
      else s
    if t.hAddingToTrans ≠ sbmNull then
      match s.freeTrans t.hAddingToTrans with
      | (s, .ok ()) => (s, .ok ())
      | (s, .error rc) =>
        let s := { s with
          inProcess := some t
          mem := put32 s.mem 4 (bytesRemaining old.mem)
          pNextAvailable := old.pNextAvailable }
        let s :=
          if t.pTrans < s.pTransOffsets then
            { s with
              pTransOffsets := s.pTransOffsets + 12
              mem := put32 s.mem 8 (transAllocated s.mem - 1) }
          else s
        (s.abortTrans.1, .error rc)
    else (s, .ok ())

end Globals

/-! ## The calls -/

/-- A call of the module, or octets that its user stores in an allocation. -/
inductive Input
  | openBlock (memSize : UInt32)
  | beginTrans (transactionType : UInt8) (osAlloc : Bool)
  | alloc (numBytes : UInt32)
  | allocStringCopy (pString : Option (List UInt8))
  | addToTrans (hOldTrans : UInt32) (osAlloc : Bool)
  | endTrans
  | abortTrans
  | freeTrans (hTransaction : UInt32)
  | store (hTrans hMem : UInt32) (octets : List UInt8)

inductive Out
  | success
  | transaction (hTrans : Nat)
  | memory (hMem : Nat)
  | failed (rc : ReturnCode)
  deriving DecidableEq, Repr

/-- What a function returns, with what it gives back. -/
def Out.of {α : Type} (f : α → Out) : Except ReturnCode α → Out
  | .ok a => f a
  | .error rc => .failed rc

def Globals.step (s : Globals) : Input → Globals × Out
  | .openBlock memSize => (Sbm.openBlock s.mem memSize.toNat, .success)
  | .beginTrans ty osAlloc => (s.beginTrans ty osAlloc).map id (Out.of .transaction)
  | .alloc numBytes => (s.alloc numBytes.toNat).map id (Out.of .memory)
  | .allocStringCopy pString => (s.allocStringCopy pString).map id (Out.of .memory)
  | .addToTrans h osAlloc => (s.addToTrans h.toNat osAlloc).map id (Out.of fun _ => .success)
  | .endTrans => s.endTrans.map id (Out.of fun _ => .success)
  | .abortTrans => s.abortTrans.map id (Out.of fun _ => .success)
  | .freeTrans h => (s.freeTrans h.toNat).map id (Out.of fun _ => .success)
  | .store h hMem octets =>
    ({ s with mem := Octets.store s.mem (getMemPointer s.mem h.toNat hMem.toNat) octets }, .success)

end Sbm
