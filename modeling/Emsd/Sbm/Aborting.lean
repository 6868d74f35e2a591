import Emsd.Sbm.Enumeration
import Emsd.Sbm.Runs

/-!
# What `SBM_abortTrans` leaves

A transaction in process is written behind all others, and its record is one that is not in use, or a
new one below the table. An addition swaps this record with the one of the old transaction, and
`SBM_abortTrans` takes only the old one back.

* `Aside.step`: allocations leave everything else alone.
* `abort_restores_iff`: **after a begin or an addition, any allocations and `SBM_abortTrans` all is as
  before, exactly if it was no addition that has taken a record of the table.**
* `phantom`: otherwise there is a second transaction with the same octets.
-/

namespace Sbm

open Octets Tiling Run

variable {m m' : Memory} {s s' s₁ s₂ : Globals} {order : List Nat} {p g h j k n : Nat}
  {t : TransactionInProcess} {i : Input}

/-! ## What is left alone -/

/-- Only octets between `pNextAvailable` and the end of the block have changed. -/
structure Spared (s s' : Globals) : Prop where
  next : s'.pNextAvailable = s.pNextAvailable
  offsets : s'.pTransOffsets = s.pTransOffsets
  size : memSize s'.mem = memSize s.mem
  octets : ∀ x, x < s.pNextAvailable ∨ (memSize s.mem : Int) ≤ x → s'.mem x = s.mem x

theorem Spared.refl (s : Globals) : Spared s s := ⟨rfl, rfl, rfl, fun _ _ => rfl⟩

theorem Spared.trans (h₁ : Spared s s₁) (h₂ : Spared s₁ s₂) : Spared s s₂ where
  next := h₂.next.trans h₁.next
  offsets := h₂.offsets.trans h₁.offsets
  size := h₂.size.trans h₁.size
  octets x hx := by
    refine (h₂.octets x ?_).trans (h₁.octets x hx)
    rwa [h₁.next, h₁.size]

/-- A change of the memory that spares the rest. -/
theorem Spared.of_mem (hfirst : 12 ≤ s.pNextAvailable)
    (hs' : s' = { s with mem := m', inProcess := s'.inProcess })
    (hout : ∀ x, x < s.pNextAvailable ∨ (memSize s.mem : Int) ≤ x → m' x = s.mem x) : Spared s s' := by
  rw [hs']
  exact ⟨rfl, rfl, get32_congr fun x _ _ => hout x (by omega), hout⟩

theorem Spared.header (hsp : Spared s s') (hfirst : 12 ≤ s.pNextAvailable) :
    bytesRemaining s'.mem = bytesRemaining s.mem ∧ transAllocated s'.mem = transAllocated s.mem :=
  ⟨get32_congr fun x _ _ => hsp.octets x (by omega), get32_congr fun x _ _ => hsp.octets x (by omega)⟩

/-- The record of a handle ends within the block. -/
theorem transAt_end (hh : 1 ≤ h) : transAt m h + 12 ≤ memSize m := by
  unfold transAt
  omega

theorem putTransaction_of_outside {a x : Int} {r : Transaction} (hx : x < a ∨ a + 12 ≤ x) :
    putTransaction m a r x = m x := by
  unfold putTransaction
  rw [put32_of_outside (by omega), put32_of_outside (by omega), put32_of_outside (by omega)]

/-- A transaction is in process that spares the others. -/
structure Aside (s s' : Globals) (order : List Nat) (p g : Nat) : Prop where
  layout : ∃ t, Open s' order p g t
  spared : Spared s s'
  slots : ∀ k ∈ order, slot s'.mem (home p g k) = slot s.mem k

/-! ## `SBM_beginTrans` -/

theorem findUnused_none (hf : findUnused m k (transAt m j) = none) :
    ∀ h, j ≤ h → h < j + k → (slot m h).transLen ≠ unused := by
  induction k generalizing j with
  | zero =>
    intro h hj hlt
    omega
  | succ k ih =>
    unfold findUnused at hf
    split at hf
    · cases hf
    · rename_i hu
      rw [show transAt m j - 12 = transAt m (j + 1) by unfold transAt; omega] at hf
      intro h hj hlt
      rcases Nat.eq_or_lt_of_le hj with rfl | hlt'
      · exact hu
      · exact ih hf h hlt' (by omega)

/-- A record of the table is not in use. -/
def Globals.HasUnused (s : Globals) : Prop :=
  ∃ k ∈ List.range' 1 (transAllocated s.mem), (slot s.mem k).transLen = unused

instance (s : Globals) : Decidable s.HasUnused := inferInstanceAs (Decidable (∃ k ∈ _, _))

/-- What `SBM_beginTrans` has done, and where it has got the record from. -/
theorem Table.beginTrans_ok {ty : UInt8} {osAlloc : Bool} (ht : Table s order 0 0)
    (he : s.beginTrans ty osAlloc = (s', .ok g)) :
    1 ≤ g ∧ (g ≤ transAllocated s.mem ↔ s.HasUnused) ∧
      ∃ r x, s' = { s with mem := putTransaction s.mem (transAt s.mem g) r, inProcess := x } := by
  unfold Globals.beginTrans at he
  split at he
  · cases he
  dsimp only at he
  rw [ht.transAt_one] at he
  cases hf : findUnused s.mem (transAllocated s.mem) (transAt s.mem 1) with
  | some a =>
    obtain ⟨k, hk, hlt, rfl, hu⟩ := findUnused_some hf
    rw [hf, if_neg (by simp)] at he
    dsimp only at he
    split at he
    · cases he
    split at he
    · cases he
    rw [handle_transAt] at he
    cases he
    exact ⟨hk, ⟨fun _ => ⟨g, List.mem_range'_1.2 ⟨hk, by omega⟩, hu⟩, fun _ => by omega⟩, _, _, rfl⟩
  | none =>
    rw [hf] at he
    split at he
    · cases he
    dsimp only at he
    split at he
    · cases he
    split at he
    · cases he
    rw [ht.transAt_next, handle_transAt] at he
    cases he
    refine ⟨Nat.le_add_left .., ⟨fun hle => by omega, ?_⟩, _, _, rfl⟩
    rintro ⟨k, hk, hu⟩
    obtain ⟨hk, hlt⟩ := List.mem_range'_1.1 hk
    exact absurd hu (findUnused_none hf k hk hlt)

/-- The records of the table and the new one are behind `pNextAvailable`. -/
theorem Open.low (ho : Open s order p g t) (hh : h ≤ transAllocated s.mem ∨ h = g ∨ h = p) :
    s.pNextAvailable ≤ transAt s.mem h := by
  have := ho.next_le
  have := ho.limit_le_transAt hh
  omega

theorem Begun.aside (hb : Begun s s' order g t) (hfirst : 12 ≤ s.pNextAvailable) (hg : 1 ≤ g)
    (hs' : ∃ r x, s' = { s with mem := putTransaction s.mem (transAt s.mem g) r, inProcess := x }) :
    Aside s s' order g g := by
  have hlow : s.pNextAvailable ≤ transAt s.mem g := by
    have := hb.toOpen.low (h := g) (.inr (.inl rfl))
    rwa [hb.next, hb.keeps.transAt] at this
  have hend := transAt_end (m := s.mem) hg
  obtain ⟨r, x, rfl⟩ := hs'
  refine ⟨⟨t, hb.toOpen⟩, .of_mem hfirst rfl fun y hy => putTransaction_of_outside (by omega), ?_⟩
  intro k hk
  rw [home_same]
  exact hb.slots k (hb.mem_ne hk)

/-! ## Allocations -/

/-- An allocation for the transaction in process, or octets that its user stores in one. -/
def Globals.Allocation (s : Globals) : Input → Prop
  | .alloc _ | .allocStringCopy none => True
  | .allocStringCopy (some str) => str.length + 1 ≤ 2 ^ 32 - 4
  | .store h hMem octets =>
    h.toNat = s.opened ∧ hMem.toNat + octets.length ≤ (slot s.mem h.toNat).transLen
  | _ => False

/-- A step with a transaction in process that keeps the layout and spares the others. -/
structure Further (s s' : Globals) (order : List Nat) (p g : Nat) : Prop where
  layout : ∃ t, Open s' order p g t
  spared : Spared s s'
  slots : ∀ k ∈ order, slot s'.mem (home p g k) = slot s.mem (home p g k)

theorem Open.further (ho : Open s order p g t) : Further s s order p g :=
  ⟨⟨t, ho⟩, .refl s, fun _ _ => rfl⟩

theorem Further.trans (h₁ : Further s s₁ order p g) (h₂ : Further s₁ s₂ order p g) :
    Further s s₂ order p g :=
  ⟨h₂.layout, h₁.spared.trans h₂.spared, fun k hk => (h₂.slots k hk).trans (h₁.slots k hk)⟩

theorem Aside.further (h₁ : Aside s s₁ order p g) (h₂ : Further s₁ s₂ order p g) :
    Aside s s₂ order p g :=
  ⟨h₂.layout, h₁.spared.trans h₂.spared, fun k hk => (h₂.slots k hk).trans (h₁.slots k hk)⟩

theorem Open.extend_further (ho : Open s order p g t) (hn : n ≤ t.bytesRemaining) (h4 : n % 4 = 0) :
    Further s (s.extend t n) order p g := by
  have hlow := ho.low (h := p) (.inr (.inr rfl))
  have hend := transAt_end (m := s.mem) ho.handle.1
  have hrecord := ho.record
  have he := ho.extend hn h4
  refine ⟨⟨_, he.toOpen⟩, .of_mem ho.first rfl fun x hx => put32_of_outside ?_, fun k hk => ?_⟩
  · omega
  · exact he.slots _ (ho.home_mem hk)

/-- Octets may be written behind `pNextAvailable` up to the table. -/
theorem Open.store_further (m' : Memory) (ho : Open s order p g t)
    (hout : ∀ x, x < s.pNextAvailable ∨ s.limit g ≤ x → m' x = s.mem x) :
    Further s { s with mem := m' } order p g := by
  have hfirst := ho.first
  have hlimit := ho.limit_le
  have htable := ho.table
  obtain ⟨ho', hslots⟩ := ho.store m' fun x hx => hout x (by omega)
  refine ⟨⟨t, ho'⟩, .of_mem hfirst rfl fun x hx => hout x (by omega), fun k hk => hslots _ ?_⟩
  unfold home
  split
  · exact .inr (.inl rfl)
  · exact .inl ((ho.live k).1 hk).2.1

/-- **An allocation spares the others.** -/
theorem Open.allocation (ho : Open s order p g t) (ha : s.Allocation i) :
    Further s (s.step i).1 order p g := by
  have hle := ho.next_le
  cases i with
  | alloc numBytes =>
    dsimp only [Globals.step, Globals.alloc]
    rw [ho.inProcess]
    dsimp only
    split
    · exact ho.further
    · rename_i hroom
      exact ho.extend_further (Nat.not_lt.1 hroom) (roundUp_mod numBytes.toNat)
  | allocStringCopy pString =>
    dsimp only [Globals.step, Globals.allocStringCopy]
    rw [ho.inProcess]
    cases pString with
    | none => exact ho.further
    | some str =>
      have hlen : str.length + 1 ≤ Globals.roundUp (str.length + 1) := le_roundUp ha
      have hsmall : str.length + 1 < 2 ^ 32 := by
        have : str.length + 1 ≤ 2 ^ 32 - 4 := ha
        omega
      dsimp only
      rw [Nat.mod_eq_of_lt hsmall]
      split
      · exact ho.further
      · rename_i hroom
        have hfits := Nat.not_lt.1 hroom
        have h4 := roundUp_mod (str.length + 1)
        have he := ho.extend hfits h4
        have hle' := he.toOpen.next_le
        have hnext := he.next
        -- the string is copied into the octets that have just been allocated
        have hcopied := he.toOpen.store_further
          (Octets.store (s.extend t (Globals.roundUp (str.length + 1))).mem t.pNextAlloc (str ++ [0]))
          fun x hx => by
            refine store_of_outside ?_
            have hstr : (str ++ [0] : List UInt8).length = str.length + 1 := List.length_append
            have halloc : (t.grow (Globals.roundUp (str.length + 1))).pNextAlloc =
                t.pNextAlloc + (Globals.roundUp (str.length + 1) : Nat) := rfl
            rw [halloc] at hle'
            omega
        exact (ho.extend_further hfits h4).trans hcopied
  | store h hMem octets =>
    obtain ⟨hh, hroom⟩ := ha
    rw [ho.laid.opened] at hh
    have hfirst := ho.first
    have hoffset := ho.offset
    have hlength := ho.length
    have hsize := ho.size_lt
    have htable := ho.table
    have hlimit := ho.limit_le
    dsimp only [Globals.step]
    rw [hh] at hroom ⊢
    have hused : (slot s.mem p).transLen ≠ unused := by
      unfold unused
      omega
    rw [getMemPointer_eq hused (by omega)]
    exact ho.store_further _ fun x hx => store_of_outside (by omega)
  | openBlock _ => exact ha.elim
  | beginTrans _ _ => exact ha.elim
  | addToTrans _ _ => exact ha.elim
  | endTrans => exact ha.elim
  | abortTrans => exact ha.elim
  | freeTrans _ => exact ha.elim

theorem Aside.step (h : Aside s s₁ order p g) (ha : s₁.Allocation i) :
    Aside s (s₁.step i).1 order p g := by
  obtain ⟨t, ho⟩ := h.layout
  exact h.further (ho.allocation ha)

/-- **Any allocations** leave everything else alone. -/
theorem Aside.run {l : List Out} (h : Aside s s₁ order p g)
    (hr : Exec system Globals.Allocation s₁ l s₂) : Aside s s₂ order p g := by
  refine hr.invariant (P := fun s' => Aside s s' order p g) (fun u i v o hu ha he => ?_) h
  obtain ⟨rfl, -⟩ := Prod.mk.inj (Option.some.inj he)
  exact hu.step ha

/-! ## `SBM_addToTrans` -/

/-- What `SBM_addToTrans` has done. -/
theorem addToTrans_ok {osAlloc : Bool} (he : s.addToTrans h osAlloc = (s', .ok ())) :
    ∃ ty s₁ k s₂ hMem m, s.beginTrans ty osAlloc = (s₁, .ok k) ∧
      s₁.alloc (transLen s₁.mem (transAt s.mem h)) = (s₂, .ok hMem) ∧
      m = move s₂.mem (getMemPointer s₂.mem k sbmNull) (getMemPointer s₂.mem h sbmNull)
        (transLen s₂.mem (transAt s.mem h)) ∧
      s' = { s₂ with
        mem := putTransaction (putTransaction m (transAt m k) (getTransaction m (transAt s.mem h)))
          (transAt s.mem h) (getTransaction m (transAt m k))
        inProcess := s₂.inProcess.map fun t =>
          { t with pTrans := transAt s.mem h, hAddingToTrans := k } } := by
  unfold Globals.addToTrans at he
  split at he
  · cases he
  dsimp only at he
  split at he
  · cases he
  · rename_i s₁ k hbegin
    split at he
    · cases he
    · rename_i s₂ hMem halloc
      cases he
      exact ⟨_, s₁, k, s₂, hMem, _, hbegin, halloc, rfl, rfl⟩

/-- The old transaction is copied behind all others, and the records are swapped. -/
theorem Open.copy_spared (ho : Open s order g g t) (hh : h ∈ order) (hg : 1 ≤ g)
    (hn : n ≤ t.pNextAlloc - s.pNextAvailable) {r r' : Transaction}
    (hm : m = move s.mem (getMemPointer s.mem g sbmNull) (getMemPointer s.mem h sbmNull) n)
    (hs' : s' = { s with
      mem := putTransaction (putTransaction m (transAt m g) r) (transAt s.mem h) r'
      inProcess := s'.inProcess }) : Spared s s' := by
  have hlive := (ho.live h).1 hh
  have hle := ho.next_le
  have hlimit := ho.limit_le
  have htable := ho.table
  have hoffset := ho.offset
  have hlowg := ho.low (h := g) (.inr (.inl rfl))
  have hlowh := ho.low (h := h) (.inl hlive.2.1)
  have hendg := transAt_end (m := s.mem) hg
  have hendh := transAt_end (m := s.mem) hlive.1
  have hmoved : ∀ x, x < s.pNextAvailable ∨ s.limit g ≤ x → m x = s.mem x := by
    intro x hx
    rw [hm, getMemPointer_first]
    exact move_of_outside (by omega)
  have hfar := ho.store_further m hmoved
  have hat : transAt m g = transAt s.mem g := by
    unfold transAt
    rw [hfar.spared.size]
  refine .of_mem ho.first hs' fun x hx => ?_
  rw [putTransaction_of_outside (by omega), putTransaction_of_outside (by omega)]
  exact hmoved x (by omega)

/-- **An addition spares the others**, and the old record is in the record that `SBM_beginTrans` has
found. -/
theorem Table.addToTrans_aside {osAlloc : Bool} (ht : Table s order 0 0) (hidle : s.inProcess = none)
    (hh : h ∈ order) (he : s.addToTrans h osAlloc = (s', .ok ())) :
    ∃ g, Aside s s' order h g ∧ h ≠ g ∧ (g ≤ transAllocated s.mem ↔ s.HasUnused) := by
  obtain ⟨ty, s₁, k, s₂, hMem, m, hbegin, halloc, hm, hs'⟩ := addToTrans_ok he
  obtain ⟨hk, hunused, hmem₁⟩ := ht.beginTrans_ok hbegin
  -- the record that has been found
  obtain ⟨t, hb⟩ : ∃ t, Begun s s₁ order k t := by
    rcases ht.open_beginTrans hidle ty osAlloc with ⟨rc, he'⟩ | ⟨k', t, s₁', he', hb⟩
    · rw [hbegin] at he'
      cases he'
    · rw [hbegin] at he'
      cases he'
      exact ⟨t, hb⟩
  have haside := hb.aside ht.first hk hmem₁
  have hne : h ≠ k := hb.mem_ne hh
  have haligned := ht.aligned h hh
  rw [home_same] at haligned
  have hslot₁ : slot s₁.mem h = slot s.mem h := hb.slots h hne
  have hat₁ : transAt s₁.mem h = transAt s.mem h := hb.keeps.transAt h
  have hlen₁ : transLen s₁.mem (transAt s.mem h) = (slot s.mem h).transLen := by
    rw [← hat₁, ← hslot₁]
    rfl
  -- the allocation
  rw [hlen₁] at halloc
  unfold Globals.alloc at halloc
  rw [hb.inProcess, roundUp_of_mod haligned] at halloc
  dsimp only at halloc
  split at halloc
  · cases halloc
  rename_i hroom
  cases halloc
  have hfar := hb.toOpen.extend_further (Nat.not_lt.1 hroom) haligned
  have hext := hb.toOpen.extend (Nat.not_lt.1 hroom) haligned
  -- the copy
  have hslot₂ : slot (s₁.extend t (slot s.mem h).transLen).mem h = slot s.mem h :=
    (hext.slots h hne).trans hslot₁
  have hat₂ : transAt (s₁.extend t (slot s.mem h).transLen).mem h = transAt s.mem h :=
    (hext.keeps.transAt h).trans hat₁
  have hlen₂ : transLen (s₁.extend t (slot s.mem h).transLen).mem (transAt s.mem h) =
      (slot s.mem h).transLen := by
    rw [← hat₂]
    exact congrArg Transaction.transLen hslot₂
  rw [hlen₂] at hm
  have hcopied : Spared (s₁.extend t (slot s.mem h).transLen) s' := by
    have hmem' : s' = { s₁.extend t (slot s.mem h).transLen with
        mem := putTransaction (putTransaction m (transAt m k) (getTransaction m (transAt s.mem h)))
          (transAt (s₁.extend t (slot s.mem h).transLen).mem h) (getTransaction m (transAt m k))
        inProcess := s'.inProcess } := by
      rw [hat₂, hs']
    refine hext.toOpen.copy_spared hh hk ?_ hm hmem'
    have hempty := hb.empty
    have hnext := hb.next
    have hnext₂ := hext.next
    change ((slot s.mem h).transLen : Int) ≤ t.pNextAlloc + ((slot s.mem h).transLen : Nat) - _
    omega
  have hspared := haside.spared.trans (hfar.spared.trans hcopied)
  -- the layout
  rcases ht.addToTrans hidle hh osAlloc with ⟨rc, s'', he', -⟩ | ⟨g, t', s'', he', ha⟩
  · rw [he] at he'
    cases he'
  · rw [he] at he'
    cases he'
    have hgk : g = k := by
      rcases ha.adding with ⟨hhg, -⟩ | ⟨-, hadd, -⟩
      · exact absurd hhg (ha.mem_ne hh)
      · have hin := ha.inProcess
        rw [hs', show (s₁.extend t (slot s.mem h).transLen).inProcess = some _ from rfl] at hin
        rw [← hadd, ← Option.some.inj hin]
    subst hgk
    exact ⟨g, ⟨⟨t', ha.toOpen⟩, hspared, ha.slots⟩, hne, hunused⟩

/-! ## `SBM_abortTrans` -/

/-- Everything that users can tell is as it was. -/
structure Restored (s s' : Globals) : Prop where
  idle : s'.inProcess = none
  live : ∀ h, s'.Live h ↔ s.Live h
  records : ∀ h, s.Live h → slot s'.mem h = slot s.mem h
  octets : ∀ h, s.Live h → octets s'.mem h = octets s.mem h
  nextTrans : ∀ ty h, s'.nextTrans ty h = s.nextTrans ty h
  remaining : bytesRemaining s'.mem = bytesRemaining s.mem
  available : s'.pNextAvailable = s.pNextAvailable ∧ s'.pTransOffsets = s.pTransOffsets

/-- What is written is the record of the transaction in process. -/
theorem Open.abort_spared (ho : Open s order p g t) : Spared s s.abortTrans.1 := by
  have hlow := ho.low (h := p) (.inr (.inr rfl))
  have hend := transAt_end (m := s.mem) ho.handle.1
  unfold Globals.abortTrans
  rw [ho.inProcess]
  dsimp only
  rw [ho.record]
  refine .of_mem ho.first rfl fun x hx => ?_
  split
  · exact putTransaction_of_outside (by omega)
  · exact put32_of_outside (by omega)

/-- **All is as before**, unless the old record has been put into a record of the table. -/
theorem Aside.abort (h : Aside s s₁ order p g) (ht : Table s order 0 0) (hidle : s.inProcess = none)
    (hnew : p ≠ g → transAllocated s.mem < g) : Restored s s₁.abortTrans.1 := by
  obtain ⟨t, ho⟩ := h.layout
  have hfirst := ht.first
  have hadding : t.hAddingToTrans ≠ sbmNull → transAllocated s₁.mem < t.hAddingToTrans := by
    intro hadd
    rcases ho.adding with ⟨-, hnull⟩ | ⟨hp, hg, -⟩
    · exact absurd hnull hadd
    · rw [hg, (h.spared.header hfirst).2]
      exact hnew (ho.mem_ne hp)
  obtain ⟨s', he, hrest⟩ := ho.abortTrans hadding
  have hspared := h.spared.trans ho.abort_spared
  rw [he] at hspared ⊢
  have hslots : ∀ k ∈ order, slot s'.mem k = slot s.mem k :=
    fun k hk => (hrest.slots k hk).trans (h.slots k hk)
  have hl := ht.laid hidle
  have hl' := hrest.table.laid hrest.idle
  obtain ⟨hbytes, hall⟩ := hspared.header hfirst
  refine ⟨hrest.idle, fun k => ?_, fun k hk => hslots k (hl.live.1 hk), fun k hk => ?_, ?_, hbytes,
    hspared.next, hspared.offsets⟩
  · rw [hl.live, hl'.live]
  · have hk := hl.live.1 hk
    have hslot : slot s'.mem (home 0 0 k) = slot s.mem (home 0 0 k) := by
      rw [home_same]
      exact hslots k hk
    have hc := ht.content_congr hk hslot fun x _ hx => hspared.octets x (.inl hx)
    rw [home_same] at hc
    rw [octets_eq, octets_eq, hc]
  · exact ht.nextTrans_congr hrest.table hspared.size hall hslots fun x hx =>
      hspared.octets x (.inr hx)

/-- **The copy of the old record stays in use** when it is in a record of the table. -/
theorem Aside.abort_phantom (h : Aside s s₁ order p g) (ht : Table s order 0 0)
    (hidle : s.inProcess = none) (hne : p ≠ g) (hle : g ≤ transAllocated s.mem) :
    ¬Restored s s₁.abortTrans.1 := by
  obtain ⟨t, ho⟩ := h.layout
  have hfirst := ht.first
  intro hres
  have hp : p ∈ order ∧ t.hAddingToTrans = g ∧ (slot s₁.mem g).transLen ≠ unused := by
    rcases ho.adding with ⟨he, -⟩ | hp
    · exact absurd he hne
    · exact hp
  have hspared := h.spared.trans ho.abort_spared
  -- the record of the old transaction is not written
  have hslot : slot s₁.abortTrans.1.mem g = slot s₁.mem g := by
    have hlow := ho.low (h := p) (.inr (.inr rfl))
    have hfirst₁ := ho.first
    unfold Globals.abortTrans
    rw [ho.inProcess]
    dsimp only
    rw [ho.record, if_pos (by rw [hp.2.1]; exact ho.spare_ne_null)]
    exact slot_putTransaction_of_ne hne.symm (by omega)
  have hlive : s₁.abortTrans.1.Live g := by
    refine ⟨ho.spare.1, ?_, ?_, ?_⟩
    · rw [(hspared.header hfirst).2]
      exact hle
    · rw [hslot]
      exact hp.2.2
    · have hspare : s₁.abortTrans.1.spare = 0 := by
        unfold Globals.spare
        rw [hres.idle]
      rw [hspare]
      have := ho.spare
      omega
  have hmem := (ht.laid hidle).live.1 ((hres.live g).1 hlive)
  exact ho.mem_ne hmem rfl

/-! ## Runs -/

/-- A transaction is begun or added to. -/
def Begins (s : Globals) (i : Input) (s' : Globals) : Prop :=
  match i with
  | .beginTrans _ _ => ∃ h, s.step i = (s', .transaction h)
  | .addToTrans h _ => s.Live h.toNat ∧ s.step i = (s', .success)
  | _ => False

/-- An addition that finds a record of the table which is not in use. -/
def Globals.Reuses (s : Globals) : Input → Prop
  | .addToTrans _ _ => s.HasUnused
  | _ => False

/-- **`SBM_abortTrans` is atomic** after a begin or an addition and any allocations, exactly if it was
no addition that has found a record of the table. -/
theorem abort_restores_iff {l l' : List Out} (hr : Reach system Globals.Accounted l s)
    (hidle : s.inProcess = none) (hb : Begins s i s₁)
    (ha : Exec system Globals.Allocation s₁ l' s₂) :
    Restored s (s₂.step .abortTrans).1 ↔ ¬s.Reuses i := by
  obtain ⟨order, ht⟩ : ∃ order, Table s order 0 0 := by
    rcases sound_reach hr with ⟨order, ht, -⟩ | ⟨order, p, g, t, ho⟩
    · exact ⟨order, ht⟩
    · rw [ho.inProcess] at hidle
      cases hidle
  cases i with
  | beginTrans ty osAlloc =>
    obtain ⟨h, he⟩ := hb
    dsimp only [Globals.step] at he
    rcases ht.open_beginTrans hidle ty osAlloc with ⟨rc, he'⟩ | ⟨g, t, s', he', hbegun⟩
    · rw [he'] at he
      cases he
    · rw [he'] at he
      cases he
      obtain ⟨hg, -, hmem⟩ := ht.beginTrans_ok he'
      have haside := (hbegun.aside ht.first hg hmem).run ha
      exact ⟨fun _ hre => hre, fun _ => haside.abort ht hidle fun hne => absurd rfl hne⟩
  | addToTrans h osAlloc =>
    obtain ⟨hlive, he⟩ := hb
    have hh := (ht.laid hidle).live.1 hlive
    dsimp only [Globals.step] at he
    cases hadd : s.addToTrans h.toNat osAlloc with
    | mk s' r =>
      rw [hadd] at he
      cases r with
      | error rc => cases he
      | ok u =>
        cases he
        obtain ⟨g, haside, hne, hunused⟩ := ht.addToTrans_aside hidle hh hadd
        have haside := haside.run ha
        constructor
        · intro hres hre
          exact haside.abort_phantom ht hidle hne (hunused.2 hre) hres
        · intro hre
          refine haside.abort ht hidle fun _ => ?_
          exact Nat.not_le.1 fun hle => hre (hunused.1 hle)
  | openBlock _ => exact hb.elim
  | alloc _ => exact hb.elim
  | allocStringCopy _ => exact hb.elim
  | endTrans => exact hb.elim
  | abortTrans => exact hb.elim
  | freeTrans _ => exact hb.elim
  | store _ _ _ => exact hb.elim

/-- Two transactions, of which the first is gone. -/
def secondOnly : List Input :=
  [.beginTrans 1 true, .alloc 8, .endTrans, .beginTrans 2 true, .allocStringCopy (some [72, 105]),
    .endTrans, .freeTrans 1]

/-- A transaction is added to in a new record, with one allocation. -/
theorem abort_restores_new : ∃ s s₁ s₂ : Globals, s.lives = [1] ∧
    Begins s (.addToTrans 1 true) s₁ ∧ s₂ = (s₁.step (.alloc 4)).1 ∧
    Restored s (s₂.step .abortTrans).1 := by
  obtain ⟨s, l, hr, hp⟩ := Reach.of_run (S := system)
    (b := fun s i => decide (s.Accounted i))
    (fun s i (h : decide (s.Accounted i) = true) => of_decide_eq_true h)
    ⟨fun _ => 0, 200, by decide, rfl⟩ [.beginTrans 1 true, .alloc 8, .endTrans]
    (fun s _ => decide (s.inProcess = none ∧ s.lives = [1] ∧ s.Live 1 ∧
      (s.step (.addToTrans 1 true)).2 = .success ∧ ¬s.HasUnused)) (by decide +kernel)
  obtain ⟨hidle, hlives, hlive, hadd, hunused⟩ := of_decide_eq_true hp
  have hb : Begins s (.addToTrans 1 true) (s.step (.addToTrans 1 true)).1 :=
    ⟨hlive, Prod.ext rfl hadd⟩
  have hroom : (s.step (.addToTrans 1 true)).1.Allocation (.alloc 4) := trivial
  refine ⟨s, _, _, hlives, hb, rfl, ?_⟩
  exact (abort_restores_iff hr hidle hb (.single hroom rfl)).2 hunused

/-- **The second transaction is there twice** when an addition to it in the record of the first one is
given up. -/
theorem phantom : ∃ (s s₁ : Globals) (l : List Out), Reach system Globals.Accounted l s ∧
    s.inProcess = none ∧ Begins s (.addToTrans 2 true) s₁ ∧ s.lives = [2] ∧
    (s₁.step .abortTrans).1.lives = [1, 2] ∧
    octets (s₁.step .abortTrans).1.mem 1 = [72, 105, 0, 0] ∧
    octets (s₁.step .abortTrans).1.mem 2 = [72, 105, 0, 0] ∧
    ¬Restored s (s₁.step .abortTrans).1 := by
  obtain ⟨s, l, hr, hp⟩ := Reach.of_run (S := system)
    (b := fun s i => decide (s.Accounted i))
    (fun s i (h : decide (s.Accounted i) = true) => of_decide_eq_true h)
    ⟨fun _ => 0, 200, by decide, rfl⟩ secondOnly
    (fun s _ => decide (s.inProcess = none ∧ s.lives = [2] ∧ s.Live 2 ∧
      (s.step (.addToTrans 2 true)).2 = .success ∧
      ((s.step (.addToTrans 2 true)).1.step .abortTrans).1.lives = [1, 2] ∧
      octets ((s.step (.addToTrans 2 true)).1.step .abortTrans).1.mem 1 = [72, 105, 0, 0] ∧
      octets ((s.step (.addToTrans 2 true)).1.step .abortTrans).1.mem 2 = [72, 105, 0, 0] ∧
      ¬s.Live 1 ∧ ((s.step (.addToTrans 2 true)).1.step .abortTrans).1.Live 1)) (by decide +kernel)
  obtain ⟨hidle, hlives, hlive, hadd, hlives', h1, h2, hgone, hback⟩ := of_decide_eq_true hp
  refine ⟨s, _, l, hr, hidle, ⟨hlive, Prod.ext rfl hadd⟩, hlives, hlives', h1, h2, fun hres => ?_⟩
  exact hgone ((hres.live 1).1 hback)

end Sbm
