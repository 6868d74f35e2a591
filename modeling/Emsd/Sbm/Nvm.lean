import Emsd.Sbm.Aborting
import Emsd.Sbm.Queues

/-!
# Non-volatile memory (`nvm.c`)

A static block whose octets are written to a file after each call that commits something. When the
process ends, by itself or not, the block is opened again from the file.

* `Sound.memSize_step`: a call keeps the size of the block, and so the file has room for it.
* `Sound.recorded`: what is written while no record of the table is in use for a transaction in
  process is found again.
* `uncommitted_found`: otherwise the next process finds a transaction that has not been committed.
* `crash_atomic`: **a process may end at any time.** The next one finds the transactions that had been
  committed when the file was last written, and nothing else.
-/

namespace Sbm

open Octets

variable {m : Memory} {s : Globals} {order : List Nat} {p g h k v n : Nat} {a : Int}
  {t : TransactionInProcess}

/-! ## The size of a block -/

theorem memSize_put32 (ha : 4 ≤ a) : memSize (put32 m a v) = memSize m :=
  get32_put32_of_ne (.inl (by omega))

theorem memSize_of_outside {m' : Memory} (ha : 4 ≤ a) (hout : ∀ x, x < a → m' x = m x) :
    memSize m' = memSize m :=
  get32_congr fun x _ _ => hout x (by omega)

theorem memSize_moveOffsets {thisOffset moveBy : Nat} {pTrans : Int}
    (hlow : 12 * (k : Int) ≤ pTrans + 12) :
    memSize (Globals.moveOffsets thisOffset moveBy k pTrans m) = memSize m := by
  induction k generalizing pTrans m with
  | zero => rfl
  | succ k ih =>
    unfold Globals.moveOffsets
    dsimp only
    rw [ih (by omega)]
    split
    · exact memSize_put32 (by omega)
    · rfl

theorem memSize_trim (fuel i : Nat) : memSize (Globals.trim fuel i s).mem = memSize s.mem := by
  induction fuel generalizing s i with
  | zero => rfl
  | succ fuel ih =>
    unfold Globals.trim
    split
    · rw [ih]
      dsimp only
      rw [memSize_put32 (by omega), memSize_put32 (by omega)]
    · rfl

theorem memSize_freeTrans (hat : 4 ≤ transAt s.mem h) (hoffset : 4 ≤ ((slot s.mem h).offset : Int))
    (hlow : 0 ≤ s.pTransOffsets) : memSize (s.freeTrans h).1.mem = memSize s.mem := by
  unfold Globals.freeTrans
  split
  · rfl
  dsimp only
  rw [memSize_trim]
  dsimp only
  rw [memSize_moveOffsets (by omega), memSize_put32 hat, memSize_put32 (by omega)]
  exact memSize_of_outside hoffset fun x hx => move_of_outside (.inl hx)

theorem Table.memSize_beginTrans {ty : UInt8} {osAlloc : Bool} (ht : Table s order 0 0)
    (hidle : s.inProcess = none) : memSize (s.beginTrans ty osAlloc).1.mem = memSize s.mem := by
  rcases ht.open_beginTrans hidle ty osAlloc with ⟨rc, he⟩ | ⟨k, t, s₁, he, hb⟩
  · rw [he]
  · rw [he]
    exact hb.keeps.memSize

theorem Table.memSize_addToTrans {osAlloc : Bool} (ht : Table s order 0 0)
    (hidle : s.inProcess = none) (hh : h ∈ order) :
    memSize (s.addToTrans h osAlloc).1.mem = memSize s.mem := by
  cases he : s.addToTrans h osAlloc with
  | mk s' r =>
    cases r with
    | ok u =>
      obtain ⟨k, haside, -⟩ := ht.addToTrans_aside hidle hh he
      exact haside.spared.size
    | error rc =>
      unfold Globals.addToTrans at he
      rw [if_neg (by simp [hidle])] at he
      dsimp only at he
      rcases ht.open_beginTrans hidle (.ofNat (transactionType s.mem (transAt s.mem h))) osAlloc with
        ⟨rc', he'⟩ | ⟨k, t, s₁, he', hb⟩
      · rw [he'] at he
        cases he
        rfl
      rw [he'] at he
      dsimp only at he
      unfold Globals.alloc at he
      rw [hb.inProcess] at he
      dsimp only at he
      -- there was no room for the copy
      by_cases hroom : Globals.roundUp (transLen s₁.mem (transAt s.mem h)) > t.bytesRemaining
      · rw [if_pos hroom] at he
        cases he
        exact hb.toOpen.abort_spared.size.trans hb.keeps.memSize
      · rw [if_neg hroom] at he
        cases he

theorem Table.memSize_freeTrans (ht : Table s order 0 0) (hh : h ∈ order) :
    memSize (s.freeTrans h).1.mem = memSize s.mem := by
  have hfirst := ht.first
  have hroom := ht.room
  have hbounds := ht.bounds hh
  have hat := ht.le_transAt ((ht.live h).1 hh).2.1
  rw [home_same] at hbounds
  exact Sbm.memSize_freeTrans (by omega) (by omega) (by omega)

theorem Open.memSize_endTrans (ho : Open s order p g t) :
    memSize s.endTrans.1.mem = memSize s.mem := by
  have hgrown := grown_memSize s t
  have hidle := grown_inProcess s t
  have hfirst := ho.first
  have hroom := ho.room
  by_cases hadd : t.hAddingToTrans = sbmNull
  · have he : s.endTrans = (s.grown t, .ok ()) := by
      unfold Globals.endTrans
      rw [ho.inProcess]
      exact if_neg (not_not.2 hadd)
    rw [he, hgrown]
  -- the old transaction is freed, of which the record is the spare one
  obtain ⟨hp, hg⟩ : p ∈ order ∧ t.hAddingToTrans = g :=
    (ho.adding.resolve_left fun h => hadd h.2).imp_right And.left
  have he : s.endTrans.1 = ((s.grown t).freeTrans g).1 := by
    unfold Globals.endTrans
    rw [ho.inProcess]
    refine (congrArg Prod.fst (if_pos hadd)).trans ?_
    split
    · next s₁ heq => rw [← hg]; exact congrArg Prod.fst heq.symm
    · next s₁ rc heq =>
      have hfree : (s.grown t).freeTrans t.hAddingToTrans = (s₁, .error rc) := heq
      unfold Globals.freeTrans at hfree
      rw [if_neg (by simp [hidle])] at hfree
      cases hfree
  have hbounds := ho.bounds hp
  rw [home_self, ← ho.grown_slot (.inr (.inl rfl))] at hbounds
  have hat : transAt (s.grown t).mem g = transAt s.mem g := by
    unfold transAt
    rw [hgrown]
  have hlimit := ho.limit_le_transAt (h := g) (.inr (.inl rfl))
  have hle := ho.next_le
  have hrecord := ho.le_transAt ((ho.live p).1 hp).2.1
  have hoffsets : (s.grown t).pTransOffsets = s.pTransOffsets := by
    unfold Globals.grown
    rw [ho.record, if_neg (Int.not_lt.2 hrecord)]
  rw [he, memSize_freeTrans (by omega) (by omega) (by omega), hgrown]

/-- What users store is behind the header. -/
theorem Sound.inside {h hMem : UInt32} {l : List UInt8} (hs : Sound s)
    (hc : s.Accounted (.store h hMem l)) : 12 ≤ getMemPointer s.mem h.toNat hMem.toNat := by
  have ha := hs.apart
  have hfirst := hs.first
  have hat : (slot s.mem h.toNat).offset ≤ getMemPointer s.mem h.toNat hMem.toNat :=
    Int.le_add_of_nonneg_right (by split <;> omega)
  have hlow : 12 ≤ ((slot s.mem h.toNat).offset : Int) := by
    by_cases hin : s.inProcess.isSome ∧ h.toNat = s.opened
    · have hoff := (ha.inProcess hin.1).1
      rw [hin.2]
      omega
    · have hregion := ha.header _ (hc.1.resolve_right hin)
      unfold Globals.region at hregion
      rw [record_of_ne hin] at hregion
      exact hregion
  omega

/-- **A call keeps the size of the block**, other than the one that opens it. -/
theorem Sound.memSize_step {i : Input} (hs : Sound s) (hc : s.Accounted i)
    (hopen : ∀ n, i ≠ .openBlock n) : memSize (s.step i).1.mem = memSize s.mem := by
  rcases hs with ⟨order, ht, hidle⟩ | ⟨order, p, g, t, ho⟩
  · have hl := ht.laid hidle
    cases i with
    | openBlock n => exact absurd rfl (hopen n)
    | beginTrans ty osAlloc => exact ht.memSize_beginTrans hidle
    | addToTrans h osAlloc => exact ht.memSize_addToTrans hidle (hl.live.1 (hc hidle))
    | freeTrans h => exact ht.memSize_freeTrans (hl.live.1 (hc hidle))
    | store h hMem l =>
      refine memSize_of_outside (a := 12) (by omega) fun x hx => store_of_outside (.inl ?_)
      exact Int.lt_of_lt_of_le hx (Sound.inside (.inl ⟨order, ht, hidle⟩) hc)
    | alloc numBytes | allocStringCopy pString | endTrans | abortTrans =>
      dsimp only [Globals.step, Globals.alloc, Globals.allocStringCopy, Globals.endTrans,
        Globals.abortTrans]
      rw [hidle]
      rfl
  · cases i with
    | openBlock n => exact absurd rfl (hopen n)
    | alloc numBytes => exact (ho.allocation (i := .alloc numBytes) trivial).spared.size
    | allocStringCopy pString =>
      refine (ho.allocation (i := .allocStringCopy pString) ?_).spared.size
      cases pString with
      | none => trivial
      | some str => exact hc
    | store h hMem l =>
      refine memSize_of_outside (a := 12) (by omega) fun x hx => store_of_outside (.inl ?_)
      exact Int.lt_of_lt_of_le hx (Sound.inside (.inr ⟨order, p, g, t, ho⟩) hc)
    | abortTrans => exact ho.abort_spared.size
    | endTrans => exact ho.memSize_endTrans
    | beginTrans ty osAlloc | addToTrans h osAlloc | freeTrans h =>
      dsimp only [Globals.step, Globals.beginTrans, Globals.addToTrans, Globals.freeTrans]
      rw [if_pos (by simp [ho.inProcess])]
      rfl

/-! ## A block that is copied -/

/-- **A block is where its octets are**: a copy of it is opened with the same transactions. -/
theorem Table.copied {m' : Memory} (ht : Table (openBlock m 0) order 0 0)
    (hcopy : ∀ x : Int, 0 ≤ x → x < memSize m → m' x = m x) :
    Table (openBlock m' 0) order 0 0 ∧ memSize m' = memSize m ∧
      (openBlock m' 0).contents = (openBlock m 0).contents := by
  have hfirst := ht.first
  have hroom := ht.room
  have htable := ht.table
  change 12 ≤ (openBlock m 0).pNextAvailable at hfirst
  change (openBlock m 0).pTransOffsets = memSize m - 12 * transAllocated m at htable
  have hkeeps : Keeps m m' 12 := by
    refine ⟨get32_congr fun x _ _ => ?_, get32_congr fun x _ _ => ?_, get32_congr fun x _ _ => ?_,
      fun x hx hlow => absurd hx (by omega)⟩
    all_goals exact hcopy x (by omega) (by omega)
  -- the records of the table are at the end of the block
  have hslot : ∀ h, 1 ≤ h → h ≤ transAllocated m → slot m' h = slot m h := by
    intro h h₁ h₂
    have hend := transAt_end (m := m) h₁
    have hlow : (openBlock m 0).pTransOffsets ≤ transAt m h := ht.le_transAt h₂
    exact slot_congr hkeeps.memSize fun x _ _ => hcopy x (by omega) (by omega)
  have ht' : Table (openBlock m' 0) order 0 0 := by
    refine ht.congr ?_ ?_ hkeeps (fun h h₁ h₂ => ?_) fun h hh => ?_
    · show (memSize m' : Int) - 12 * transAllocated m' - bytesRemaining m' = _
      rw [hkeeps.memSize, hkeeps.transAllocated, hkeeps.bytesRemaining]
      rfl
    · show (memSize m' : Int) - 12 * transAllocated m' = _
      rw [hkeeps.memSize, hkeeps.transAllocated]
      rfl
    · exact iff_of_eq (by rw [show slot (openBlock m' 0).mem h = slot (openBlock m 0).mem h from
        hslot h h₁ h₂])
    · have hlive := (ht.live h).1 hh
      rw [home_same]
      exact hslot h hlive.1 hlive.2.1
  refine ⟨ht', hkeeps.memSize, Contents.ext ?_ rfl⟩
  refine (ht.laid rfl).committed_congr (ht'.laid rfl) fun h hh => ?_
  have hlive := (ht.live h).1 hh
  refine ht.content_congr hh ?_ fun x hx hnext => hcopy x (by omega) (by omega)
  rw [home_same]
  exact hslot h hlive.1 hlive.2.1

theorem store_read_of_inside {m m' : Memory} {x : Int} {n : Nat} (hx : 0 ≤ x) (hlt : x < n) :
    store m' 0 (Octets.read m 0 n) x = m x := by
  rw [store_of_inside hx (by rw [read_length]; omega), List.getD_eq_getElem?_getD, read_getElem?,
    if_pos (by omega), Option.getD_some]
  congr 1
  omega

/-- The octets of a file are those of a block with the transactions `saved`. -/
structure Recorded (file : List UInt8) (saved : Nat → Option (List UInt8)) : Prop where
  opened : ∀ m, ∃ order, Table (openBlock (store m 0 file) 0) order 0 0
  fits : ∀ m, memSize (store m 0 file) ≤ file.length
  contents : ∀ m, (openBlock (store m 0 file) 0).contents = ⟨saved, none⟩

/-- **A block that is written to a file is found there**, as long as no record of the table is in use
for a transaction in process. -/
theorem Sound.recorded (hs : Sound s) (hc : s.Accounted (.openBlock 0)) (hn : memSize s.mem ≤ n) :
    Recorded (Octets.read s.mem 0 n) s.contents.committed := by
  have hopen := hs.step hc
  have hcontents : (openBlock s.mem 0).contents = ⟨s.contents.committed, none⟩ := by
    have htransacts := hopen.transacts ⟨hc, trivial⟩
    revert htransacts
    generalize hc' : (s.step (.openBlock 0)).1.contents = c'
    intro htransacts
    cases htransacts with
    | opened hsize => exact absurd rfl hsize
    | reopened _ => exact hc'
  obtain ⟨order, ht⟩ : ∃ order, Table (openBlock s.mem 0) order 0 0 := by
    rcases hopen.sound with ⟨order, ht, -⟩ | ⟨order, p, g, t, ho⟩
    · exact ⟨order, ht⟩
    · exact absurd ho.inProcess (by rintro ⟨⟩)
  have hcopy : ∀ (m : Memory) (x : Int), 0 ≤ x → x < memSize s.mem → store m 0 (Octets.read s.mem 0 n) x = s.mem x := by
    intro m x hx hlt
    exact store_read_of_inside hx (by omega)
  have hcopied := fun m => ht.copied (hcopy m)
  refine ⟨fun m => ⟨order, (hcopied m).1⟩, fun m => ?_, fun m => (hcopied m).2.2.trans hcontents⟩
  rw [(hcopied m).2.1, read_length]
  exact hn

end Sbm

namespace Nvm

open Octets Sbm Run

/-! ## The module -/

/-- `nvm_globals`, with the block and what is in the file. -/
structure Globals where
  sbm : Sbm.Globals
  memSize : Nat
  file : List UInt8

namespace Globals

/-- `NVM_sync`: all of the memory is written to the file. -/
def sync (s : Globals) : Globals := { s with file := read s.sbm.mem 0 s.memSize }

/-- `NVM_open` in a process that has been given the memory `pMem`; a size of zero opens the file that
is there. -/
def openFile (s : Globals) (pMem : Memory) (memSize : Nat) : Globals :=
  if memSize ≠ 0 then sync { s with memSize, sbm := openBlock pMem memSize }
  else sync { s with memSize := s.file.length, sbm := openBlock (store pMem 0 s.file) 0 }

/-- What `NVM_endTrans` and `NVM_freeTrans` do with what the function of the block returns. -/
def synced (s : Globals) : Sbm.Globals × Except ReturnCode Unit → Globals × Except ReturnCode Unit
  | (sbm, .error rc) => ({ s with sbm }, .error rc)
  | (sbm, .ok ()) => (sync { s with sbm }, .ok ())

def endTrans (s : Globals) : Globals × Except ReturnCode Unit := s.synced s.sbm.endTrans

def freeTrans (s : Globals) (hTransaction : Nat) : Globals × Except ReturnCode Unit :=
  s.synced (s.sbm.freeTrans hTransaction)

/-- The memory of the block is written to, and then to the file. -/
def wrote (s : Globals) (m : Memory) : Globals := sync { s with sbm := { s.sbm with mem := m } }

def quInit (s : Globals) (e : Pointer) : Globals := s.wrote (Sbm.quInit s.sbm.mem e)

def quInsert (s : Globals) (insertMe beforeMe : Pointer) : Globals :=
  s.wrote (Sbm.quInsert s.sbm.mem insertMe beforeMe)

def quRemove (s : Globals) (e : Pointer) : Globals := s.wrote (Sbm.quRemove s.sbm.mem e)

end Globals

/-- A call of the module, or octets that its user stores: `openFile` is the first call of a process,
whatever the process before it was about when it ended. -/
inductive Input
  | openFile (pMem : Memory) (memSize : UInt32)
  | call (i : Sbm.Input)
  | quInit (e : Pointer)
  | quInsert (insertMe beforeMe : Pointer)
  | quRemove (e : Pointer)
  | sync

def Globals.step (s : Globals) : Input → Option (Globals × List Out)
  | .openFile pMem memSize => some (s.openFile pMem memSize.toNat, [.success])
  | .call (.openBlock _) => none
  | .call .endTrans => some (s.endTrans.map id fun r => [Out.of (fun _ => .success) r])
  | .call (.freeTrans h) => some ((s.freeTrans h.toNat).map id fun r => [Out.of (fun _ => .success) r])
  | .call i => some ({ s with sbm := (s.sbm.step i).1 }, [(s.sbm.step i).2])
  | .quInit e => some (s.quInit e, [.success])
  | .quInsert insertMe beforeMe => some (s.quInsert insertMe beforeMe, [.success])
  | .quRemove e => some (s.quRemove e, [.success])
  | .sync => some (s.sync, [.success])

/-- The file is created, and the module is called. -/
def system : Sys Globals Input Out where
  init s := ∃ (s₀ : Globals) (pMem : Memory) (memSize : UInt32), 12 ≤ roundDown memSize.toNat ∧
    s = s₀.openFile pMem memSize.toNat
  step := Globals.step

/-! ## What the module is for -/

/-- The contents of the memory, and the transactions that have been saved. -/
structure Store where
  contents : Contents
  saved : Nat → Option (List UInt8)

/-- What has been committed is saved. -/
def Store.save (c : Contents) : Store := ⟨c, c.committed⟩

/-- Whether a call saves what has been committed. -/
def Saves : Sbm.Input → Out → Prop
  | .endTrans, .success => True
  | .freeTrans _, .success => True
  | _, _ => False

/-- What the calls are for. A process that opens the file has what has been saved, and no more. -/
inductive Persists (a : Store) : Input → List Out → Store → Prop
  | created {pMem : Memory} {memSize : UInt32} (hsize : memSize ≠ 0) :
      Persists a (.openFile pMem memSize) [.success] (.save ⟨fun _ => none, none⟩)
  | restarted {pMem : Memory} : Persists a (.openFile pMem 0) [.success] ⟨⟨a.saved, none⟩, a.saved⟩
  | called {i : Sbm.Input} {o : Out} {c : Contents} (ht : Transacts a.contents i o c)
      (hsaves : ¬Saves i o) : Persists a (.call i) [o] ⟨c, a.saved⟩
  | saving {i : Sbm.Input} {o : Out} {c : Contents} (ht : Transacts a.contents i o c)
      (hsaves : Saves i o) : Persists a (.call i) [o] (.save c)
  | initialised {e : Pointer} : Persists a (.quInit e) [.success] (.save (a.contents.quInit e))
  | inserted {x y : Pointer} : Persists a (.quInsert x y) [.success] (.save (a.contents.quInsert x y))
  | removed {e : Pointer} : Persists a (.quRemove e) [.success] (.save (a.contents.quRemove e))
  | synced : Persists a .sync [.success] (.save a.contents)

/-- The file is written only while no record of the table is in use for a transaction in process. -/
def Globals.Savable (s : Globals) : Prop := s.sbm.Accounted (.openBlock 0)

/-- The condition on a call: those of the block, and the elements of a queue are in the block, apart
from each other. -/
def Globals.Conforms (s : Globals) : Input → Prop
  | .openFile _ memSize => memSize = 0 ∨ 12 ≤ roundDown memSize.toNat
  | .call i => s.sbm.Conforms i
  | .quInit e => s.sbm.contents.Placed e ∧ s.Savable
  | .quInsert x y => (∃ E l, Linked s.sbm.contents E l ∧ x ∈ E ∧ y ∈ E) ∧ s.Savable
  | .quRemove e => (∃ E l, Linked s.sbm.contents E l ∧ e ∈ E) ∧ s.Savable
  | .sync => s.Savable

/-! ## The simulation -/

variable {s t : Globals} {a b : Store} {i : Input} {o : List Out}

/-- The module and the file stand for a store. -/
structure Backed (s : Globals) (a : Store) : Prop where
  sound : Sound s.sbm
  fits : Sbm.memSize s.sbm.mem ≤ s.memSize
  contents : s.sbm.contents = a.contents
  recorded : Recorded s.file a.saved

theorem savable_of_idle {s : Globals} (hidle : s.sbm.inProcess = none) : s.Savable := by
  have hspare : s.sbm.spare = 0 := by
    unfold Sbm.Globals.spare
    rw [hidle]
  exact .inl hspare

theorem Backed.sync {s : Globals} {c : Contents} (hs : Sound s.sbm)
    (hfits : Sbm.memSize s.sbm.mem ≤ s.memSize) (hc : s.Savable) (hcontents : s.sbm.contents = c) :
    Backed s.sync (.save c) where
  sound := hs
  fits := hfits
  contents := hcontents
  recorded := by
    rw [← hcontents]
    exact hs.recorded hc hfits

theorem openFile_file (s : Globals) (pMem : Memory) : (s.openFile pMem 0).file = s.file := by
  unfold Globals.openFile
  rw [if_neg (by simp)]
  exact read_store

/-- **The file that is opened again** holds what has been saved, and is left as it is. -/
theorem backed_restarted {saved : Nat → Option (List UInt8)} (h : Recorded s.file saved)
    (pMem : Memory) : Backed (s.openFile pMem 0) ⟨⟨saved, none⟩, saved⟩ := by
  obtain ⟨order, ht⟩ := h.opened pMem
  refine ⟨.inl ⟨order, ht, rfl⟩, h.fits pMem, h.contents pMem, ?_⟩
  rw [openFile_file]
  exact h

/-- A file that is created. -/
theorem backed_created (s : Globals) (pMem : Memory) {memSize : UInt32}
    (hsize : 12 ≤ roundDown memSize.toNat) :
    Backed (s.openFile pMem memSize.toNat) (.save ⟨fun _ => none, none⟩) := by
  have hne : memSize.toNat ≠ 0 := by
    unfold roundDown at hsize
    omega
  have ht := openBlock_fresh pMem hsize memSize.toNat_lt
  have hcontents : (openBlock pMem memSize.toNat).contents = ⟨fun _ => none, none⟩ :=
    Contents.ext (funext fun h => (ht.laid rfl).committed h) rfl
  unfold Globals.openFile
  rw [if_pos hne]
  refine .sync (.inl ⟨[], ht, rfl⟩) ?_ (savable_of_idle rfl) hcontents
  show Sbm.memSize (openBlock pMem memSize.toNat).mem ≤ memSize.toNat
  have hlt := memSize.toNat_lt
  unfold roundDown at hsize
  unfold openBlock
  dsimp only
  rw [if_pos (by omega), Sbm.memSize, get32_put32_of_ne (by omega), get32_put32_self]
  omega

/-- A call of the block that leaves the file as it is. -/
theorem Backed.call (hb : Backed s a) {i : Sbm.Input} (hc : s.sbm.Conforms i)
    (hopen : ∀ n, i ≠ .openBlock n) :
    Transacts a.contents i (s.sbm.step i).2 (s.sbm.step i).1.contents ∧
      Backed { s with sbm := (s.sbm.step i).1 } ⟨(s.sbm.step i).1.contents, a.saved⟩ := by
  have hstep := hb.sound.step hc.1
  have htransacts := hstep.transacts hc
  rw [hb.contents] at htransacts
  refine ⟨htransacts, hstep.sound, ?_, rfl, hb.recorded⟩
  show Sbm.memSize (s.sbm.step i).1.mem ≤ s.memSize
  rw [hb.sound.memSize_step hc.1 hopen]
  exact hb.fits

/-- A call that saves leaves no transaction in process. -/
theorem idle_of_saves {i : Sbm.Input} {o : Out} {c c' : Contents} (hsaves : Saves i o)
    (ht : Transacts c i o c') : c'.inProcess = none := by
  cases ht with
  | ended _ => rfl
  | freed hidle _ => exact hidle
  | refused => cases i <;> exact False.elim hsaves
  | _ => exact False.elim hsaves

/-- `NVM_endTrans` and `NVM_freeTrans`. -/
theorem Backed.synced (hb : Backed s a) {i : Sbm.Input} {r : Sbm.Globals × Except ReturnCode Unit}
    (hr : s.sbm.step i = r.map id (Out.of fun _ => .success)) (hsaves : Saves i .success)
    (hfailed : ∀ rc, ¬Saves i (.failed rc)) (hc : s.sbm.Conforms i)
    (hopen : ∀ n, i ≠ .openBlock n) :
    ∃ b, Persists a (.call i) [Out.of (fun _ => .success) (s.synced r).2] b ∧
      Backed (s.synced r).1 b := by
  obtain ⟨htransacts, hb'⟩ := hb.call hc hopen
  obtain ⟨sbm, r⟩ := r
  rw [hr] at htransacts hb'
  cases r with
  | error rc => exact ⟨_, .called htransacts (hfailed rc), hb'⟩
  | ok u =>
    have hidle := idle_of_saves hsaves htransacts
    have hnone : sbm.inProcess = none := Option.map_eq_none_iff.1 hidle
    exact ⟨_, .saving htransacts hsaves, .sync hb'.sound hb'.fits (savable_of_idle hnone) rfl⟩

/-- Links that have been written are saved. -/
theorem Backed.wrote {E : Set Pointer} {m : Memory} {c : Contents} (hb : Backed s a)
    (hput : Put s.sbm E m c) (hc : s.Savable) : Backed (s.wrote m) (.save c) := by
  have hsize : Sbm.memSize m = Sbm.memSize s.sbm.mem :=
    get32_congr fun x _ _ => hput.header x (by omega)
  have hall : transAllocated m = transAllocated s.sbm.mem :=
    get32_congr fun x _ _ => hput.header x (by omega)
  have hopened : ({ s.sbm with mem := m } : Sbm.Globals).opened = s.sbm.opened := by
    unfold Sbm.Globals.opened
    dsimp only
    rw [hsize]
  have hspare : ({ s.sbm with mem := m } : Sbm.Globals).spare = s.sbm.spare := by
    unfold Sbm.Globals.spare
    rw [hopened]
  refine .sync hput.sound ?_ ?_ hput.contents
  · rw [hsize]
    exact hb.fits
  · refine Or.imp ?_ ?_ hc
    all_goals
      intro h
      rw [hspare]
    · exact h
    · rw [hopened, hall]
      exact h

/-- **A call does to the store what it is for.** -/
theorem Backed.step (hb : Backed s a) (hc : s.Conforms i) (hs : s.step i = some (t, o)) :
    ∃ b, Persists a i o b ∧ Backed t b := by
  cases i with
  | openFile pMem memSize =>
    cases hs
    rcases hc with rfl | hsize
    · exact ⟨_, .restarted, backed_restarted hb.recorded pMem⟩
    · refine ⟨_, .created ?_, backed_created s pMem hsize⟩
      rintro rfl
      exact absurd hsize (by decide)
  | call i =>
    cases i with
    | openBlock n => cases hs
    | endTrans =>
      cases hs
      exact hb.synced rfl trivial (fun _ => id) hc nofun
    | freeTrans h =>
      cases hs
      exact hb.synced rfl trivial (fun _ => id) hc nofun
    | beginTrans | alloc | allocStringCopy | addToTrans | abortTrans | store =>
      cases hs
      obtain ⟨htransacts, hb'⟩ := hb.call hc nofun
      exact ⟨_, .called htransacts id, hb'⟩
  | quInit e =>
    cases hs
    refine ⟨_, .initialised, ?_⟩
    rw [← hb.contents]
    exact hb.wrote (hb.sound.quInit hc.1) hc.2
  | quInsert x y =>
    cases hs
    obtain ⟨⟨E, l, hl, hx, hy⟩, hsavable⟩ := hc
    refine ⟨_, .inserted, ?_⟩
    rw [← hb.contents]
    exact hb.wrote (hb.sound.quInsert hl hx hy).toPut hsavable
  | quRemove e =>
    cases hs
    obtain ⟨⟨E, l, hl, he⟩, hsavable⟩ := hc
    refine ⟨_, .removed, ?_⟩
    rw [← hb.contents]
    exact hb.wrote (hb.sound.quRemove hl he).toPut hsavable
  | sync =>
    cases hs
    exact ⟨_, .synced, .sync hb.sound hb.fits hc hb.contents⟩

/-! ## Runs -/

/-- **A crash is atomic.** The log of a run whose calls conform is one of a store that saves what has
been committed. What is read from the memory are its contents, and the next process, which may begin at
any time, opens the file with what has been saved. -/
theorem crash_atomic {log : List (Input × List Out)}
    (hr : Reach system.logged Globals.Conforms log s) :
    ∃ a : Store, Trace (Answers Persists) (.save ⟨fun _ => none, none⟩) log a ∧
      s.sbm.contents = a.contents ∧
      ∀ pMem, (s.openFile pMem 0).sbm.contents = ⟨a.saved, none⟩ ∧ (s.openFile pMem 0).file = s.file := by
  obtain ⟨s₀, ⟨s₁, pMem, memSize, hsize, rfl⟩, hx⟩ := hr
  obtain ⟨a, htrace, hb⟩ := hx.simulates (fun _ _ _ _ _ hb hc hs => hb.step hc hs)
    (backed_created s₁ pMem hsize)
  refine ⟨a, htrace, hb.contents, fun pMem => ⟨(backed_restarted hb.recorded pMem).contents, ?_⟩⟩
  exact openFile_file s pMem

theorem backed_reach {log : List Out} (hr : Reach system Globals.Conforms log s) :
    ∃ a, Backed s a := by
  refine hr.invariant (P := fun s => ∃ a, Backed s a) ?_ fun _ _ _ _ ⟨a, hb⟩ hc hs => ?_
  · rintro _ ⟨s₀, pMem, memSize, hsize, rfl⟩
    exact ⟨_, backed_created s₀ pMem hsize⟩
  · obtain ⟨b, -, hb'⟩ := hb.step hc hs
    exact ⟨b, hb'⟩

/-- A run without a restart conforms if each call of its only process does: a test for short runs. -/
def conformsCall (s : Globals) : Input → Bool
  | .call i => decide (s.sbm.Conforms i)
  | _ => false

theorem conforms_of_call (s : Globals) (i : Input) (h : conformsCall s i = true) : s.Conforms i := by
  cases i with
  | call i =>
    have hc : s.sbm.Conforms i := of_decide_eq_true h
    exact hc
  | _ => cases h

/-- A string in a transaction, and another transaction in process when the process ends. -/
theorem crash_atomic_string : ∃ s : Globals, s.sbm.inProcess.isSome ∧ s.sbm.lives = [1] ∧
    Sbm.octets s.sbm.mem 1 = [72, 105, 0, 0] ∧
    ∃ (log : List (Input × List Out)) (a : Store),
      Trace (Answers Persists) (.save ⟨fun _ => none, none⟩) log a ∧ s.sbm.contents = a.contents ∧
      ∀ pMem, (s.openFile pMem 0).sbm.contents = ⟨a.saved, none⟩ ∧
        (s.openFile pMem 0).file = s.file := by
  obtain ⟨s, log, hr, hp⟩ := Reach.of_run (S := system.logged) conforms_of_call
    (s := (⟨openBlock (fun _ => 0) 0, 0, []⟩ : Globals).openFile (fun _ => 0) 100)
    ⟨⟨openBlock (fun _ => 0) 0, 0, []⟩, fun _ => 0, 100, by decide, rfl⟩
    [.call (.beginTrans 1 true), .call (.allocStringCopy (some [72, 105])), .call .endTrans,
      .call (.beginTrans 2 true), .call (.alloc 8)]
    (fun s _ => decide (s.sbm.inProcess.isSome ∧ s.sbm.lives = [1] ∧
      Sbm.octets s.sbm.mem 1 = [72, 105, 0, 0])) (by decide +kernel)
  obtain ⟨h₁, h₂, h₃⟩ := of_decide_eq_true hp
  exact ⟨s, h₁, h₂, h₃, log, crash_atomic hr⟩

end Nvm
