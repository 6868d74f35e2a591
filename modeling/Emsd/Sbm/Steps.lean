import Emsd.Sbm.Contents
import Mathlib.Logic.Function.Basic

/-!
# What each call does to the contents

`Sound.step`: **a call that keeps the accounts leaves a sound block**, and one that conforms does to
the contents what it is for. There is a lemma for each call, with and without a transaction in process.
-/

namespace Sbm

open Octets Tiling

variable {m m' : Memory} {s s' : Globals} {order : List Nat} {p g h j k n : Nat}
  {t : TransactionInProcess}

/-! ## The steps -/

/-- A block with or without a transaction in process. -/
def Sound (s : Globals) : Prop :=
  (∃ order, Table s order 0 0 ∧ s.inProcess = none) ∨ ∃ order p g t, Open s order p g t

/-- The block is sound after the call, and the call has done what it is for. -/
structure Stepped (s : Globals) (i : Input) (s' : Globals) (o : Out) : Prop where
  sound : Sound s'
  transacts : s.Conforms i → Transacts s.contents i o s'.contents

theorem Table.refused {i : Input} {rc : ReturnCode} (ht : Table s order 0 0)
    (hidle : s.inProcess = none) : Stepped s i s (.failed rc) :=
  ⟨.inl ⟨order, ht, hidle⟩, fun _ => .refused⟩

theorem Open.refused {i : Input} {rc : ReturnCode} (ho : Open s order p g t) :
    Stepped s i s (.failed rc) :=
  ⟨.inr ⟨order, p, g, t, ho⟩, fun _ => .refused⟩

theorem Transacts.congr {c c₁ c₂ : Contents} {i : Input} {o : Out} (h : Transacts c i o c₁)
    (hcommitted : c₂.committed = c₁.committed) (hin : c₂.inProcess = c₁.inProcess) :
    Transacts c i o c₂ := by
  rwa [Contents.ext hcommitted hin]

theorem Rest.committed (hr : Rest s s' order p g) (hl : Laid s order p g) :
    s'.contents.committed = s.contents.committed := by
  refine hl.committed_congr (hr.table.laid hr.idle) fun h hh => ?_
  refine hl.table.content_congr hh ?_ hr.octets
  rw [home_same]
  exact hr.slots h hh

/-- A block that is opened for the first time. -/
theorem openBlock_fresh {memSize : Nat} (m : Memory) (hsize : 12 ≤ roundDown memSize)
    (hlt : memSize < 2 ^ 32) : Table (openBlock m memSize) [] 0 0 := by
  unfold roundDown at hsize
  unfold openBlock
  dsimp only
  rw [if_pos (by omega)]
  have hlt' : memSize - memSize % 4 < 2 ^ 32 := by omega
  generalize hm : put32 (put32 (put32 m 4 ((memSize - memSize % 4 + 2 ^ 32 - 12) % 2 ^ 32)) 0
    (memSize - memSize % 4)) 8 0 = m'
  have hmem : Sbm.memSize m' = memSize - memSize % 4 := by
    rw [← hm, Sbm.memSize, get32_put32_of_ne (by omega), get32_put32_self, Nat.mod_eq_of_lt hlt']
  have hbytes : bytesRemaining m' = memSize - memSize % 4 - 12 := by
    rw [← hm, bytesRemaining, get32_put32_of_ne (by omega), get32_put32_of_ne (by omega),
      get32_put32_self]
    omega
  have hall : transAllocated m' = 0 := by
    rw [← hm, transAllocated, get32_put32_self, Nat.zero_mod]
  refine ⟨rfl, ?_, ?_, List.nodup_nil, fun h => ?_, ?_, fun h hh => by cases hh⟩
  · dsimp only
    omega
  · dsimp only
    omega
  · rw [hall]
    simp only [List.not_mem_nil, false_iff]
    omega
  · dsimp only
    rw [hmem, hbytes, hall, show ((memSize - memSize % 4 : Nat) : Int) - 12 * (0 : Nat) -
      (memSize - memSize % 4 - 12 : Nat) = 12 by omega]
    exact .nil

/-- **The pointers of a saved block are found again.** -/
theorem Table.openBlock_zero (ht : Table s order p g) (memSize : Nat)
    (hzero : roundDown memSize = 0) : openBlock s.mem memSize = { s with inProcess := none } := by
  unfold openBlock
  dsimp only
  rw [if_neg (by unfold roundDown at hzero; omega)]
  have htable := ht.table
  have hrem := ht.remaining
  congr 1
  · rw [← htable]
    omega
  · exact htable.symm

theorem step_fresh {memSize : UInt32} (s : Globals) (hsize : 12 ≤ roundDown memSize.toNat) :
    Stepped s (.openBlock memSize) (openBlock s.mem memSize.toNat) .success := by
  have hfresh := openBlock_fresh s.mem hsize memSize.toNat_lt
  refine ⟨.inl ⟨[], hfresh, rfl⟩, fun _ => ?_⟩
  exact (Transacts.opened (by omega)).congr (funext fun h => (hfresh.laid rfl).committed h) rfl

theorem Table.step_openBlock {memSize : UInt32} (ht : Table s order 0 0)
    (hidle : s.inProcess = none) (hc : s.Accounted (.openBlock memSize)) :
    Stepped s (.openBlock memSize) (openBlock s.mem memSize.toNat) .success := by
  by_cases hz : roundDown memSize.toNat = 0
  · have hopen := ht.openBlock_zero _ hz
    have hsame : ({ s with inProcess := none } : Globals) = s := by rw [← hidle]
    rw [hopen, hsame]
    refine ⟨.inl ⟨order, ht, hidle⟩, fun _ => ?_⟩
    exact (Transacts.reopened (c := s.contents) hz).congr rfl (contents_idle hidle)
  · dsimp only [Globals.Accounted] at hc
    rw [if_pos hz] at hc
    exact step_fresh s hc

theorem Open.step_openBlock {memSize : UInt32} (ho : Open s order p g t)
    (hc : s.Accounted (.openBlock memSize)) :
    Stepped s (.openBlock memSize) (openBlock s.mem memSize.toNat) .success := by
  dsimp only [Globals.Accounted] at hc
  by_cases hz : roundDown memSize.toNat = 0
  · rw [if_neg (by simpa using hz), ho.laid.spare, ho.laid.opened] at hc
    have hspare := ho.spare
    obtain ⟨rfl, hnew⟩ : g = p ∧ transAllocated s.mem < g := hc.resolve_left (by omega)
    rw [ho.openBlock_zero _ hz]
    have ht : Table { s with inProcess := none } order 0 0 :=
      ho.toTable.congr rfl rfl (.refl s.mem 12) (fun h h₁ h₂ => by simp; omega)
        fun h _ => by rw [home_same, home_same]
    refine ⟨.inl ⟨order, ht, rfl⟩, fun _ => ?_⟩
    exact (Transacts.reopened (c := s.contents) hz).congr
      (ho.laid.committed_congr (ht.laid rfl) fun h _ => by rw [home_same, home_same]) rfl
  · rw [if_pos hz] at hc
    exact step_fresh s hc

theorem Table.step_beginTrans (ht : Table s order 0 0) (hidle : s.inProcess = none) (ty : UInt8)
    (osAlloc : Bool) :
    Stepped s (.beginTrans ty osAlloc) (s.step (.beginTrans ty osAlloc)).1
      (s.step (.beginTrans ty osAlloc)).2 := by
  unfold Globals.step
  dsimp only
  rcases ht.open_beginTrans hidle ty osAlloc with ⟨rc, he⟩ | ⟨g, t, s', he, hb⟩
  · rw [he]
    exact ht.refused hidle
  rw [he]
  refine ⟨.inr ⟨order, g, g, t, hb.toOpen⟩, fun _ => ?_⟩
  have hcommitted : s'.contents.committed = s.contents.committed :=
    (ht.laid hidle).committed_congr hb.toOpen.laid fun h hh => by
      refine ht.content_congr hh ?_ hb.keeps.octets
      rw [home_same, home_same]
      exact hb.slots h (hb.mem_ne hh)
  have hempty : content s'.mem g = [] := by
    have hlen := hb.length
    rw [hb.empty, hb.next] at hlen
    unfold content
    rw [show (slot s'.mem g).transLen = 0 by omega]
    rfl
  have hnew : s.contents.committed g = none := by
    rw [(ht.laid hidle).committed g, if_neg hb.toOpen.not_mem]
  have hin : s'.contents.inProcess = some (g, []) := by rw [hb.toOpen.contents_inProcess, hempty]
  exact (Transacts.begun (contents_idle hidle) hnew).congr hcommitted hin

/-- The transaction in process has as many octets more as have been allocated. -/
theorem Extended.content (he : Extended s s' order p g t n) (ho : Open s order p g t) :
    content s'.mem p = content s.mem p ++ Octets.read s'.mem t.pNextAlloc n := by
  have hfirst := ho.first
  have hoffset := ho.offset
  have hlength := ho.length
  have hle := ho.next_le
  unfold Sbm.content
  rw [he.grown]
  dsimp only
  rw [read_append]
  congr 1
  · exact read_congr fun k _ => he.keeps.octets _ (by omega) (by omega)
  · congr 1
    omega

theorem Open.nextMem (ho : Open s order p g t) :
    Globals.nextMem t = (content s.mem p).length := by
  have hfits := (slot_fits s.mem p).1
  have hlength := ho.length
  unfold Globals.nextMem content
  rw [read_length, ho.start]
  omega

theorem Extended.committed (he : Extended s s' order p g t n) (ho : Open s order p g t) :
    s'.contents.committed = s.contents.committed :=
  ho.laid.committed_congr he.toOpen.laid fun _ hh =>
    ho.content_congr hh (he.slots _ (ho.home_mem hh)) fun x h₁ h₂ =>
      he.keeps.octets x h₁ (Int.lt_of_lt_of_le h₂ (Int.le_trans ho.next_le.1 ho.next_le.2))

theorem Open.step_alloc (ho : Open s order p g t) (numBytes : UInt32) :
    Stepped s (.alloc numBytes) (s.step (.alloc numBytes)).1 (s.step (.alloc numBytes)).2 := by
  dsimp only [Globals.step, Globals.alloc]
  rw [ho.inProcess]
  dsimp only
  split
  · exact ho.refused
  rename_i hroom
  have he := ho.extend (Nat.not_lt.1 hroom) (roundUp_mod numBytes.toNat)
  refine ⟨.inr ⟨order, p, g, _, he.toOpen⟩, fun hc => ?_⟩
  have hroundUp : numBytes.toNat ≤ (Octets.read (s.extend t (Globals.roundUp numBytes.toNat)).mem
      t.pNextAlloc (Globals.roundUp numBytes.toNat)).length := by
    rw [read_length]
    exact le_roundUp hc.2
  have hallocated := Transacts.allocated ho.contents_inProcess hroundUp
  rw [← ho.nextMem] at hallocated
  exact hallocated.congr (he.committed ho) (by rw [← he.content ho]; exact he.toOpen.contents_inProcess)

theorem Open.step_allocStringCopy (ho : Open s order p g t) (pString : Option (List UInt8))
    (hc : s.Accounted (.allocStringCopy pString)) :
    Stepped s (.allocStringCopy pString) (s.step (.allocStringCopy pString)).1
      (s.step (.allocStringCopy pString)).2 := by
  dsimp only [Globals.step, Globals.allocStringCopy]
  rw [ho.inProcess]
  cases pString with
  | none => exact ⟨.inr ⟨order, p, g, t, ho⟩, fun _ => .nullString ho.contents_inProcess⟩
  | some str =>
    dsimp only [Globals.Accounted] at hc
    dsimp only
    rw [Nat.mod_eq_of_lt (by omega : str.length + 1 < 2 ^ 32)]
    have hlen : str.length + 1 ≤ Globals.roundUp (str.length + 1) := le_roundUp hc
    split
    · exact ho.refused
    rename_i hroom
    generalize hn : Globals.roundUp (str.length + 1) = n at hlen hroom ⊢
    have he := ho.extend (Nat.not_lt.1 hroom) (hn ▸ roundUp_mod (str.length + 1))
    generalize s.extend t n = s₁ at he ⊢
    have hle := ho.next_le
    have hle₁ : s₁.pNextAvailable ≤ t.pNextAlloc + n ∧ t.pNextAlloc + n ≤ s₁.limit g :=
      he.toOpen.next_le
    have hfirst := ho.first
    have hlength : (str ++ [0] : List UInt8).length = str.length + 1 := List.length_append
    have hbelow : ∀ x, x < t.pNextAlloc → Octets.store s₁.mem t.pNextAlloc (str ++ [0]) x = s₁.mem x :=
      fun x hx => store_of_outside (.inl hx)
    obtain ⟨ho', hslots⟩ := he.toOpen.store
      (Octets.store s₁.mem t.pNextAlloc (str ++ [0])) fun x hx => by
        rcases hx with hx | hx
        · exact hbelow x (by omega)
        · exact store_of_outside (.inr (by omega))
    refine ⟨.inr ⟨order, p, g, _, ho'⟩, fun _ => ?_⟩
    have hp := hslots p (.inr (.inr rfl))
    have hnew : content (Octets.store s₁.mem t.pNextAlloc (str ++ [0])) p = content s.mem p ++
        ((str ++ [0]) ++ Octets.read (Octets.store s₁.mem t.pNextAlloc (str ++ [0]))
          (t.pNextAlloc + (str.length + 1 : Nat)) (n - (str.length + 1))) := by
      have hoffset := ho.offset
      have hlen' := ho.length
      unfold content
      rw [hp, he.grown]
      dsimp only
      rw [read_append]
      congr 1
      · exact read_congr fun k hk => (hbelow _ (by omega)).trans
          (he.keeps.octets _ (by omega) (by omega))
      · rw [show ((slot s.mem p).offset : Int) + (slot s.mem p).transLen = t.pNextAlloc by omega,
          show n = (str ++ [0] : List UInt8).length + (n - (str.length + 1)) by omega, read_append,
          read_store, hlength]
        congr 2
        omega
    have hcopied : Transacts s.contents (.allocStringCopy (some str)) _
        { s.contents with inProcess := some (p, content s.mem p ++ ((str ++ [0]) ++
          Octets.read (Octets.store s₁.mem t.pNextAlloc (str ++ [0]))
            (t.pNextAlloc + (str.length + 1 : Nat)) (n - (str.length + 1)))) } :=
      .copied ho.contents_inProcess
    rw [← ho.nextMem, ← hnew] at hcopied
    have hsame : ({ s₁ with mem := Octets.store s₁.mem t.pNextAlloc (str ++ [0]) } :
        Globals).contents.committed = s.contents.committed := by
      rw [← he.committed ho]
      refine he.toOpen.laid.committed_congr ho'.laid fun h hh => ?_
      refine he.toOpen.content_congr hh (hslots _ ?_) fun x _ hx => hbelow x ?_
      · unfold home
        split
        · exact .inr (.inl rfl)
        · exact .inl ((he.toOpen.live h).1 hh).2.1
      · have := he.next
        omega
    exact hcopied.congr hsame ho'.contents_inProcess

theorem Table.step_addToTrans (ht : Table s order 0 0) (hidle : s.inProcess = none) (h : UInt32)
    (osAlloc : Bool) (hc : s.Accounted (.addToTrans h osAlloc)) :
    Stepped s (.addToTrans h osAlloc) (s.step (.addToTrans h osAlloc)).1
      (s.step (.addToTrans h osAlloc)).2 := by
  have hl := ht.laid hidle
  have hh : h.toNat ∈ order := hl.live.1 (hc hidle)
  dsimp only [Globals.step]
  rcases ht.addToTrans hidle hh osAlloc with ⟨rc, s', he, hr⟩ | ⟨g, t, s', he, ha⟩
  · rw [he]
    refine ⟨.inl ⟨order, hr.table, hr.idle⟩, fun _ => ?_⟩
    exact Transacts.refused.congr (hr.committed hl)
      ((contents_idle hr.idle).trans (contents_idle hidle).symm)
  · rw [he]
    refine ⟨.inr ⟨order, h.toNat, g, t, ha.toOpen⟩, fun _ => ?_⟩
    have hold : s.contents.committed h.toNat = some (content s.mem h.toNat) := by
      rw [hl.committed, if_pos hh, home_same]
    have hcommitted : s'.contents.committed = s.contents.committed :=
      hl.committed_congr ha.toOpen.laid fun k hk => by
        refine ht.content_congr hk ?_ ha.octets
        rw [home_same]
        exact ha.slots k hk
    have hin : s'.contents.inProcess = some (h.toNat, content s.mem h.toNat) := by
      rw [ha.toOpen.contents_inProcess, ha.copy]
    exact (Transacts.added (contents_idle hidle) hold).congr hcommitted hin

theorem Open.adding_iff (ho : Open s order p g t) : t.hAddingToTrans ≠ sbmNull ↔ s.spare ≠ s.opened := by
  rw [ho.laid.spare, ho.laid.opened]
  rcases ho.adding with ⟨rfl, hnull⟩ | ⟨hp, hadd, -⟩
  · simp [hnull]
  · rw [hadd]
    exact ⟨fun _ => (ho.mem_ne hp).symm, fun _ => ho.spare_ne_null⟩

theorem Open.adding_eq (ho : Open s order p g t) (hadd : t.hAddingToTrans ≠ sbmNull) :
    t.hAddingToTrans = s.spare := by
  rw [ho.laid.spare]
  rcases ho.adding with ⟨-, hnull⟩ | ⟨-, hg, -⟩
  · exact (hadd hnull).elim
  · exact hg

theorem Open.step_abortTrans (ho : Open s order p g t) (hc : s.Accounted .abortTrans) :
    Stepped s .abortTrans (s.step .abortTrans).1 (s.step .abortTrans).2 := by
  dsimp only [Globals.step]
  obtain ⟨s', he, hr⟩ := ho.abortTrans fun hadd => by
    rw [ho.adding_eq hadd]
    exact hc (ho.adding_iff.1 hadd)
  rw [he]
  exact ⟨.inl ⟨order, hr.table, hr.idle⟩, fun _ =>
    (Transacts.aborted ho.contents_inProcess).congr (hr.committed ho.laid) (contents_idle hr.idle)⟩

theorem Open.step_endTrans (ho : Open s order p g t) (hc : s.Accounted .endTrans) :
    Stepped s .endTrans (s.step .endTrans).1 (s.step .endTrans).2 := by
  dsimp only [Globals.step]
  obtain ⟨s', order', he, hn⟩ := ho.endTrans fun hadd => by
    rw [ho.adding_eq hadd]
    exact hc (ho.adding_iff.1 hadd)
  rw [he]
  refine ⟨.inl ⟨order', hn.table, hn.idle⟩, fun hcov => ?_⟩
  have hcover : t.hAddingToTrans ≠ sbmNull →
      Covers s.pTransOffsets t.pNextAlloc (slot s.mem t.hAddingToTrans) := by
    intro hadd
    have := hcov.2 (ho.adding_iff.1 hadd)
    rw [ho.laid.opened, ho.length, ← ho.adding_eq hadd] at this
    rwa [show s.pNextAvailable + (t.pNextAlloc - s.pNextAvailable) = t.pNextAlloc by omega] at this
  refine (Transacts.ended ho.contents_inProcess).congr (funext fun k => ?_) (contents_idle hn.idle)
  have hl := hn.table.laid hn.idle
  show s'.contents.committed k = Function.update s.contents.committed p (some (content s.mem p)) k
  rw [hl.committed]
  by_cases hkp : k = p
  · subst hkp
    have hk : k ∈ order' := (hn.mem_iff k).2 (.inr rfl)
    rw [Function.update_self, if_pos hk, home_same, hn.content hcover k hk]
  · rw [Function.update_of_ne hkp, ho.laid.committed, home_of_ne hkp]
    have hiff : k ∈ order' ↔ k ∈ order := by
      rw [hn.mem_iff]
      simp [hkp]
    simp only [hiff, home_same]
    split
    · rename_i hk
      rw [hn.content hcover k (hiff.2 hk)]
    · rfl

theorem Table.step_freeTrans (ht : Table s order 0 0) (hidle : s.inProcess = none) (h : UInt32)
    (hc : s.Accounted (.freeTrans h)) :
    Stepped s (.freeTrans h) (s.step (.freeTrans h)).1 (s.step (.freeTrans h)).2 := by
  have hl := ht.laid hidle
  have hh : h.toNat ∈ order := hl.live.1 (hc hidle)
  dsimp only [Globals.step]
  obtain ⟨s', order', he, hf⟩ := ht.freeTrans hidle hh
  rw [he]
  refine ⟨.inl ⟨order', hf.table, hf.idle⟩, fun hcov => ?_⟩
  have hold : s.contents.committed h.toNat = some (content s.mem h.toNat) := by
    rw [hl.committed, if_pos hh, home_same]
  refine (Transacts.freed (contents_idle hidle) hold).congr (funext fun k => ?_)
    ((contents_idle hf.idle).trans (contents_idle hidle).symm)
  show s'.contents.committed k = Function.update s.contents.committed h.toNat none k
  rw [(hf.table.laid hf.idle).committed]
  simp only [home_same]
  by_cases hkh : k = h.toNat
  · subst hkh
    rw [Function.update_self, if_neg fun hk => ((hf.mem_iff _).1 hk).2 rfl]
  · have hiff : k ∈ order' ↔ k ∈ order := by
      rw [hf.mem_iff]
      simp [hkh]
    rw [Function.update_of_ne hkh, hl.committed, home_same]
    simp only [hiff]
    split
    · rename_i hk
      rw [hf.content (hcov.2 hidle) k (hiff.2 hk)]
    · rfl

/-! ### Octets that are stored -/

theorem read_store_patch {a : Int} {l : List UInt8} (hroom : k + l.length ≤ n) :
    Octets.read (Octets.store m (a + k) l) a n = patch (Octets.read m a n) k l := by
  refine List.ext_getElem? fun i => ?_
  unfold patch
  have hlen : ((Octets.read m a n).take k).length = k := by
    rw [List.length_take, read_length]
    omega
  rw [read_getElem?, List.append_assoc, List.getElem?_append, hlen, List.getElem?_append,
    List.getElem?_take, List.getElem?_drop, read_getElem?, read_getElem?]
  by_cases h₁ : i < k
  · rw [if_pos (by omega), if_pos h₁, if_pos h₁, if_pos (by omega),
      store_of_outside (.inl (by omega))]
  rw [if_neg h₁]
  by_cases h₂ : i - k < l.length
  · rw [if_pos (by omega), if_pos h₂, store_of_inside (by omega) (by omega),
      show (a + (i : Int) - (a + k)).toNat = i - k by omega, List.getD_eq_getElem?_getD,
      List.getElem?_eq_getElem h₂, Option.getD_some]
  · rw [if_neg h₂, show k + l.length + (i - k - l.length) = i by omega]
    split
    · rw [store_of_outside (.inr (by omega))]
    · rfl

/-- The record `h` with octets stored in it, and another one that does not overlap it. -/
theorem content_store {l : List UInt8} (hroom : k + l.length ≤ (slot m h).transLen)
    (hm : m' = Octets.store m ((slot m h).offset + k) l) :
    (slot m' h = slot m h → content m' h = patch (content m h) k l) ∧
      ∀ j, slot m' j = slot m j →
        ((slot m h).offset + (slot m h).transLen ≤ ((slot m j).offset : Int) ∨
          ((slot m j).offset : Int) + (slot m j).transLen ≤ (slot m h).offset) →
        content m' j = content m j := by
  constructor
  · intro hs
    unfold content
    rw [hs, hm]
    exact read_store_patch hroom
  · intro j hs hapart
    unfold content
    rw [hs, hm]
    exact read_congr fun i hi => store_of_outside (by omega)

/-- A change of octets between the header and the table keeps the layout. -/
theorem Table.store (m' : Memory) (ht : Table s order 0 0)
    (hout : ∀ x, x < 12 ∨ s.pTransOffsets ≤ x → m' x = s.mem x) :
    Table { s with mem := m' } order 0 0 ∧
      ∀ h, h ≤ transAllocated s.mem → slot m' h = slot s.mem h := by
  have hfirst := ht.first
  have hroom := ht.room
  have hsize : memSize m' = memSize s.mem := get32_congr fun x _ _ => hout x (by omega)
  have hk : Keeps s.mem m' 12 := ⟨hsize, get32_congr fun x _ _ => hout x (by omega),
    get32_congr fun x _ _ => hout x (by omega), fun x _ _ => by omega⟩
  have hslot : ∀ h, h ≤ transAllocated s.mem → slot m' h = slot s.mem h := by
    intro h hh
    have := ht.le_transAt hh
    exact slot_congr hsize fun x _ _ => hout x (by omega)
  refine ⟨ht.congr rfl rfl hk (fun h _ hh => by rw [hslot h hh]) fun h hh => ?_, hslot⟩
  rw [home_same]
  exact hslot h ((ht.live h).1 hh).2.1

theorem getMemPointer_eq (hu : (slot m h).transLen ≠ unused) (hk : k ≤ (slot m h).transLen) :
    getMemPointer m h k = (slot m h).offset + k := by
  have hfits := (slot_fits m h).1
  unfold unused at hu
  unfold getMemPointer
  rw [if_neg (by unfold sbmNull; omega)]
  rfl

theorem Table.step_store (ht : Table s order 0 0) (hidle : s.inProcess = none) (h hMem : UInt32)
    (l : List UInt8) (hc : s.Accounted (.store h hMem l)) :
    Stepped s (.store h hMem l) (s.step (.store h hMem l)).1 (s.step (.store h hMem l)).2 := by
  have hl := ht.laid hidle
  obtain ⟨hh, hroom⟩ := hc
  have hh : h.toNat ∈ order := hl.live.1 (hh.resolve_right fun ho => by simp [hidle] at ho)
  have hlive := (ht.live h.toNat).1 hh
  have hbounds := ht.bounds hh
  have hbelow := ht.room
  rw [home_same] at hbounds
  dsimp only [Globals.step]
  rw [getMemPointer_eq hlive.2.2.1 (by omega)]
  generalize hm : Octets.store s.mem ((slot s.mem h.toNat).offset + hMem.toNat) l = m'
  obtain ⟨ht', hslots⟩ := ht.store m' fun x hx => by
    rw [← hm]
    exact store_of_outside (by omega)
  obtain ⟨hself, hothers⟩ := content_store hroom hm.symm
  refine ⟨.inl ⟨order, ht', hidle⟩, fun _ => ?_⟩
  have hold : s.contents.committed h.toNat = some (content s.mem h.toNat) := by
    rw [hl.committed, if_pos hh, home_same]
  refine (Transacts.stored hold (by simp [contents_idle hidle]) ?_).congr (funext fun k => ?_)
    ((contents_idle (by exact hidle)).trans (contents_idle hidle).symm)
  · unfold content
    rw [read_length]
    exact hroom
  · show ({ s with mem := m' } : Globals).contents.committed k =
      Function.update s.contents.committed h.toNat
        (some (patch (content s.mem h.toNat) hMem.toNat l)) k
    rw [(ht'.laid hidle).committed]
    simp only [home_same]
    by_cases hkh : k = h.toNat
    · subst hkh
      rw [Function.update_self, if_pos hh, hself (hslots _ hlive.2.1)]
    · rw [Function.update_of_ne hkh, hl.committed, home_same]
      split
      · rename_i hk
        rw [hothers k (hslots k ((ht.live k).1 hk).2.1)]
        have := ht.tiled.apart hh hk fun he => hkh he.symm
        simpa only [home_same] using this
      · rfl

theorem Open.step_store (ho : Open s order p g t) (h hMem : UInt32) (l : List UInt8)
    (hc : s.Accounted (.store h hMem l)) :
    Stepped s (.store h hMem l) (s.step (.store h hMem l)).1 (s.step (.store h hMem l)).2 := by
  have hl := ho.laid
  obtain ⟨hh, hroom⟩ := hc
  have hfirst := ho.first
  have hle := ho.next_le
  have hlim := ho.limit_le
  have hsize := ho.size_lt
  have htable := ho.table
  have hoffset := ho.offset
  have hlength := ho.length
  have hh : h.toNat ∈ order ∨ h.toNat = p := by
    rw [hl.live, hl.opened] at hh
    exact hh.imp_right And.right
  -- where the octets of the transaction are
  have hbounds : 12 ≤ ((slot s.mem h.toNat).offset : Int) ∧
      ((slot s.mem h.toNat).offset : Int) + (slot s.mem h.toNat).transLen ≤ s.limit g ∧
      (slot s.mem h.toNat).transLen ≠ unused := by
    by_cases hp : h.toNat = p
    · rw [hp]
      unfold unused
      omega
    · have hmem := hh.resolve_right hp
      have hb := ho.bounds hmem
      rw [home_of_ne hp] at hb
      exact ⟨hb.1, by omega, ((ho.live _).1 hmem).2.2.1⟩
  dsimp only [Globals.step]
  rw [getMemPointer_eq hbounds.2.2 (by omega)]
  generalize hm : Octets.store s.mem ((slot s.mem h.toNat).offset + hMem.toNat) l = m'
  obtain ⟨ho', hslots⟩ := ho.store m' fun x hx => by
    rw [← hm]
    exact store_of_outside (by omega)
  obtain ⟨hself, hothers⟩ := content_store hroom hm.symm
  have hrec : ∀ k ∈ order, slot m' (home p g k) = slot s.mem (home p g k) := by
    intro k hk
    refine hslots _ ?_
    unfold home
    split
    · exact .inr (.inl rfl)
    · exact .inl ((ho.live k).1 hk).2.1
  have hslotp := hslots p (.inr (.inr rfl))
  refine ⟨.inr ⟨order, p, g, t, ho'⟩, fun _ => ?_⟩
  by_cases hp : h.toNat = p
  · -- the transaction in process
    rw [hp] at hself hothers hroom
    have hopen : s.contents.inProcess = some (h.toNat, content s.mem p) := by
      rw [hp]
      exact ho.contents_inProcess
    refine (Transacts.storedNew hopen (by unfold content; rw [read_length]; exact hroom)).congr
      (hl.committed_congr ho'.laid fun k hk => ?_) ?_
    · have hb := ho.bounds hk
      exact hothers _ (hrec k hk) (.inr (by omega))
    · show ({ s with mem := m' } : Globals).contents.inProcess = _
      rw [ho'.contents_inProcess, hself hslotp, hp]
  · have hmem := hh.resolve_right hp
    have hhome : home p g h.toNat = h.toNat := home_of_ne hp
    have hb := ho.bounds hmem
    rw [hhome] at hb
    have hold : s.contents.committed h.toNat = some (content s.mem h.toNat) := by
      rw [hl.committed, if_pos hmem, hhome]
    refine (Transacts.stored hold (fun new => ?_) (by unfold content; rw [read_length]; exact hroom)
      ).congr (funext fun k => ?_) ?_
    · rw [ho.contents_inProcess]
      simp only [ne_eq, Option.some.injEq, Prod.mk.injEq, not_and]
      exact fun he => (hp he.symm).elim
    · show ({ s with mem := m' } : Globals).contents.committed k =
      Function.update s.contents.committed h.toNat
        (some (patch (content s.mem h.toNat) hMem.toNat l)) k
      rw [ho'.laid.committed]
      by_cases hkh : k = h.toNat
      · subst hkh
        rw [Function.update_self, if_pos hmem, hhome, hself (by rw [← hhome]; exact hrec _ hmem)]
      · rw [Function.update_of_ne hkh, hl.committed]
        split
        · rename_i hk
          rw [hothers _ (hrec k hk)]
          have := ho.tiled.apart hmem hk fun he => hkh he.symm
          rwa [hhome] at this
        · rfl
    · show ({ s with mem := m' } : Globals).contents.inProcess = s.contents.inProcess
      rw [ho'.contents_inProcess, ho.contents_inProcess, hothers p hslotp (.inl (by omega))]

/-! ### Any call -/

/-- **A call on a sound block** leaves a sound block, and does to the contents what it is for. -/
theorem Sound.step {i : Input} (hs : Sound s) (hc : s.Accounted i) :
    Stepped s i (s.step i).1 (s.step i).2 := by
  rcases hs with ⟨order, ht, hidle⟩ | ⟨order, p, g, t, ho⟩
  · cases i with
    | openBlock memSize => exact ht.step_openBlock hidle hc
    | beginTrans ty osAlloc => exact ht.step_beginTrans hidle ty osAlloc
    | addToTrans h osAlloc => exact ht.step_addToTrans hidle h osAlloc hc
    | freeTrans h => exact ht.step_freeTrans hidle h hc
    | store h hMem l => exact ht.step_store hidle h hMem l hc
    | alloc numBytes =>
      dsimp only [Globals.step, Globals.alloc]
      rw [hidle]
      exact ht.refused hidle
    | allocStringCopy pString =>
      dsimp only [Globals.step, Globals.allocStringCopy]
      rw [hidle]
      exact ht.refused hidle
    | endTrans =>
      dsimp only [Globals.step, Globals.endTrans]
      rw [hidle]
      exact ht.refused hidle
    | abortTrans =>
      dsimp only [Globals.step, Globals.abortTrans]
      rw [hidle]
      exact ht.refused hidle
  · have hbusy : s.inProcess.isSome = true := by rw [ho.inProcess]; rfl
    cases i with
    | openBlock memSize => exact ho.step_openBlock hc
    | alloc numBytes => exact ho.step_alloc numBytes
    | allocStringCopy pString => exact ho.step_allocStringCopy pString hc
    | endTrans => exact ho.step_endTrans hc
    | abortTrans => exact ho.step_abortTrans hc
    | store h hMem l => exact ho.step_store h hMem l hc
    | beginTrans ty osAlloc =>
      dsimp only [Globals.step, Globals.beginTrans]
      rw [if_pos hbusy]
      exact ho.refused
    | addToTrans h osAlloc =>
      dsimp only [Globals.step, Globals.addToTrans]
      rw [if_pos hbusy]
      exact ho.refused
    | freeTrans h =>
      dsimp only [Globals.step, Globals.freeTrans]
      rw [if_pos hbusy]
      exact ho.refused

end Sbm
