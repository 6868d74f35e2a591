import Emsd.Sbm.Layout
import Mathlib.Data.List.Nodup

/-!
# Freeing and ending transactions

`SBM_freeTrans` closes the gap that a transaction leaves: it moves the octets behind it, lowers the
offsets and gives records back. It keeps the layout always, and the contents of the others when the
octets to move are not too many for the 16 bits of their number (`Covers`).

* `Table.freeTrans`: **freeing keeps the layout**, and the contents of the others.
* `Open.endTrans`: **so does ending**, unless an addition has used a new record.
-/

namespace Sbm

open Octets Tiling

variable {m m' : Memory} {s s' : Globals} {order : List Nat} {p g h j k v n : Nat}
  {t : TransactionInProcess}

/-! ## The offsets -/

/-- What the loop over the offsets does to a record. -/
def Transaction.lowered (thisOffset moveBy : Nat) (r : Transaction) : Transaction :=
  if r.transLen ≠ unused ∧ r.offset > thisOffset then
    { r with offset := (r.offset + 2 ^ 32 - moveBy) % 2 ^ 32 }
  else r

theorem moveOffsets_spec (thisOffset moveBy : Nat) {low : Int} (hlow : 12 ≤ low)
    (hat : ∀ i, j ≤ i → i < j + k → low ≤ transAt m i) :
    Keeps m (Globals.moveOffsets thisOffset moveBy k (transAt m j) m) low ∧
      ∀ h, slot (Globals.moveOffsets thisOffset moveBy k (transAt m j) m) h =
        if j ≤ h ∧ h < j + k then (slot m h).lowered thisOffset moveBy else slot m h := by
  induction k generalizing j m with
  | zero =>
    refine ⟨.refl m low, fun h => ?_⟩
    rw [if_neg (by omega)]
    rfl
  | succ k ih =>
    have hj := hat j (Nat.le_refl j) (by omega)
    have hj12 : 12 ≤ transAt m j := by omega
    unfold Globals.moveOffsets
    dsimp only
    generalize hm₁ : (if transLen m (transAt m j) ≠ unused ∧
      offset m (transAt m j) > thisOffset then
        put32 m (transAt m j + 4) (offset m (transAt m j) + 2 ^ 32 - moveBy) else m) = m₁
    have hk₁ : Keeps m m₁ low := by
      rw [← hm₁]
      split
      · exact (keeps_put32 (by omega)).mono (by omega)
      · exact .refl m low
    have hself : slot m₁ j = (slot m j).lowered thisOffset moveBy := by
      rw [← hm₁]
      show slot (if (slot m j).transLen ≠ unused ∧ (slot m j).offset > thisOffset then _ else m) j =
        if (slot m j).transLen ≠ unused ∧ (slot m j).offset > thisOffset then _ else slot m j
      by_cases hc : (slot m j).transLen ≠ unused ∧ (slot m j).offset > thisOffset
      · rw [if_pos hc, if_pos hc, slot_putOffset_self hj12]
        rfl
      · rw [if_neg hc, if_neg hc]
    have hother : ∀ h, h ≠ j → slot m₁ h = slot m h := by
      intro h hne
      rw [← hm₁]
      split
      · exact slot_putOffset_of_ne hne hj12
      · rfl
    have hnext : transAt m j - 12 = transAt m₁ (j + 1) := by
      rw [hk₁.transAt]
      unfold transAt
      omega
    rw [hnext]
    obtain ⟨hk₂, hslots⟩ := ih (m := m₁) (j := j + 1) fun i h₁ h₂ => by
      rw [hk₁.transAt]
      exact hat i (by omega) (by omega)
    refine ⟨hk₁.trans hk₂, fun h => ?_⟩
    rw [hslots h]
    by_cases hhj : h = j
    · subst hhj
      rw [if_neg (by omega), if_pos (by omega), hself]
    · rw [hother h hhj]
      by_cases hc : j ≤ h ∧ h < j + (k + 1)
      · rw [if_pos (by omega), if_pos hc]
      · rw [if_neg (by omega), if_neg hc]

/-! ## The records that are given back -/

theorem slot_putHeader {a : Int} (ha : 4 ≤ a) (ha' : a + 4 ≤ 12) (hat : 12 ≤ transAt m h) :
    slot (put32 m a v) h = slot m h :=
  slot_congr (get32_put32_of_ne (by omega)) fun _ _ _ => put32_of_outside (by omega)

/-- Another state with the same committed transactions in the same places. -/
structure Same (s s' : Globals) (order : List Nat) : Prop where
  table : Table s' order 0 0
  inProcess : s'.inProcess = s.inProcess
  octets : ∀ x, 12 ≤ x → x < s.pTransOffsets → s'.mem x = s.mem x
  slots : ∀ h ∈ order, slot s'.mem h = slot s.mem h

/-- One record is given back. -/
theorem Table.trimOne (ht : Table s order 0 0) (hn : 1 ≤ transAllocated s.mem)
    (hu : transLen s.mem s.pTransOffsets = unused)
    (hs' : s' = { s with
      mem := put32 (put32 s.mem 8 (transAllocated s.mem - 1)) 4
        (bytesRemaining (put32 s.mem 8 (transAllocated s.mem - 1)) + 12)
      pTransOffsets := s.pTransOffsets + 12 }) :
    Same s s' order := by
  have hfirst := ht.first
  have hroom := ht.room
  have hrem := ht.remaining
  have htable := ht.table
  have hsize := ht.size_lt
  have hnlt := get32_lt s.mem 8
  have hm : s'.mem = put32 (put32 s.mem 8 (transAllocated s.mem - 1)) 4
      (bytesRemaining s.mem + 12) := by
    rw [hs', show bytesRemaining (put32 s.mem 8 (transAllocated s.mem - 1)) = bytesRemaining s.mem
      from get32_put32_of_ne (by omega)]
  have hmemSize : memSize s'.mem = memSize s.mem := by
    rw [hm]
    unfold memSize
    rw [get32_put32_of_ne (by omega), get32_put32_of_ne (by omega)]
  have hbytes : bytesRemaining s'.mem = bytesRemaining s.mem + 12 := by
    rw [hm, bytesRemaining, get32_put32_self, Nat.mod_eq_of_lt (by omega)]
  have hall : transAllocated s'.mem = transAllocated s.mem - 1 := by
    have : transAllocated s.mem - 1 < 2 ^ 32 := Nat.lt_of_le_of_lt (Nat.sub_le ..) hnlt
    rw [hm, transAllocated, get32_put32_of_ne (by omega), get32_put32_self, Nat.mod_eq_of_lt this]
  have hslots : ∀ h, h ≤ transAllocated s.mem → slot s'.mem h = slot s.mem h := by
    intro h hh
    have := ht.le_transAt hh
    have hat : transAt (put32 s.mem 8 (transAllocated s.mem - 1)) h = transAt s.mem h := by
      unfold transAt memSize
      rw [get32_put32_of_ne (by omega)]
    rw [hm, slot_putHeader (by omega) (by omega) (by omega), slot_putHeader (by omega) (by omega)
      (by omega)]
  have hlast : (slot s.mem (transAllocated s.mem)).transLen = unused := by
    show transLen s.mem (transAt s.mem _) = _
    rw [ht.transAt_last, hu]
  have hlive : ∀ h ∈ order, h ≤ transAllocated s.mem := fun h hh => ((ht.live h).1 hh).2.1
  have hoff : s'.pTransOffsets = s.pTransOffsets + 12 := by rw [hs']
  have hnext : s'.pNextAvailable = s.pNextAvailable := by rw [hs']
  refine ⟨⟨?_, ?_, ?_, ht.nodup, fun h => ?_, ?_, fun h hh => ?_⟩, by rw [hs'], fun x h₁ h₂ => ?_,
    fun h hh => hslots h (hlive h hh)⟩
  · rw [hmemSize, hall, hoff]
    omega
  · rw [hoff, hnext]
    omega
  · rw [hbytes, hoff, hnext]
    omega
  · rw [ht.live h, hall]
    constructor
    · rintro ⟨h₁, h₂, h₃, h₄⟩
      have : h ≠ transAllocated s.mem := fun he => h₃ (by rw [he]; exact hlast)
      rw [hslots h h₂]
      exact ⟨h₁, by omega, h₃, h₄⟩
    · rintro ⟨h₁, h₂, h₃⟩
      rw [hslots h (by omega)] at h₃
      exact ⟨h₁, by omega, h₃⟩
  · rw [hnext]
    exact ht.tiled.congr (fun h hh => by rw [home_same, hslots h (hlive h hh)])
      fun h hh => by rw [home_same, hslots h (hlive h hh)]
  · have := ht.aligned h hh
    rw [home_same] at this ⊢
    rw [hslots h (hlive h hh)]
    exact this
  · rw [hm, put32_of_outside (by omega), put32_of_outside (by omega)]

theorem Table.trim (ht : Table s order 0 0) (fuel i : Nat) :
    Same s (Globals.trim fuel i s) order := by
  induction fuel generalizing s i with
  | zero => exact ⟨ht, rfl, fun _ _ _ => rfl, fun _ _ => rfl⟩
  | succ fuel ih =>
    unfold Globals.trim
    split
    · rename_i hc
      have hone := ht.trimOne (by omega) hc.2 rfl
      have hmore := ih hone.table (i + 1)
      refine ⟨hmore.table, hmore.inProcess.trans hone.inProcess, fun x h₁ h₂ => ?_, fun h hh => ?_⟩
      · have hx : x < s.pTransOffsets + 12 := by omega
        exact (hmore.octets x h₁ hx).trans (hone.octets x h₁ h₂)
      · exact (hmore.slots h hh).trans (hone.slots h hh)
    · exact ⟨ht, rfl, fun _ _ _ => rfl, fun _ _ => rfl⟩

/-! ## `SBM_freeTrans` -/

/-- The octets behind a transaction are moved as far as the last transaction, when the number of
octets up to the table is cast to 16 bits; or there is no gap to close. -/
def Covers (pTransOffsets pNextAvailable : Int) (r : Transaction) : Prop :=
  r.transLen = 0 ∨ pNextAvailable - (r.offset + r.transLen) ≤
    (pTransOffsets - (r.offset + r.transLen)) % 2 ^ 16

instance (pTransOffsets pNextAvailable : Int) (r : Transaction) :
    Decidable (Covers pTransOffsets pNextAvailable r) :=
  inferInstanceAs (Decidable (_ ∨ _))

/-- The memory when the octets are moved and the transaction `h` is gone, before the offsets are
lowered. -/
def Globals.vacated (s : Globals) (h : Nat) : Memory :=
  let r := slot s.mem h
  let m := move s.mem r.offset (r.offset + r.transLen)
    ((s.pTransOffsets - (r.offset + r.transLen)) % 2 ^ 16).toNat
  put32 (put32 m 4 (bytesRemaining m + transLen m (transAt s.mem h))) (transAt s.mem h) unused

/-- What is behind the transaction that is freed moves down, and nothing else. -/
structure Vacated (s : Globals) (m : Memory) (order : List Nat) (h : Nat) : Prop where
  memSize : memSize m = memSize s.mem
  transAllocated : transAllocated m = transAllocated s.mem
  bytesRemaining : bytesRemaining m = bytesRemaining s.mem + (slot s.mem h).transLen
  gone : (slot m h).transLen = unused
  slots : ∀ k, k ≤ Sbm.transAllocated s.mem → k ≠ h → slot m k = slot s.mem k
  below : ∀ x : Int, 12 ≤ x → x < (slot s.mem h).offset → m x = s.mem x
  beyond : Covers s.pTransOffsets s.pNextAvailable (slot s.mem h) → ∀ x : Int,
    (slot s.mem h).offset ≤ x → x < s.pNextAvailable - (slot s.mem h).transLen →
      m x = s.mem (x + (slot s.mem h).transLen)

theorem Table.vacated (ht : Table s order 0 0) (hh : h ∈ order) :
    Vacated s (s.vacated h) order h := by
  have hfirst := ht.first
  have hroom := ht.room
  have hrem := ht.remaining
  have htable := ht.table
  have hsize := ht.size_lt
  have hlive := (ht.live h).1 hh
  have hlow := ht.le_transAt hlive.2.1
  have hbounds := ht.bounds hh
  rw [home_same] at hbounds
  unfold Globals.vacated
  dsimp only
  generalize hr : slot s.mem h = r at hbounds ⊢
  -- the octets that are moved to end below the table
  generalize hn : ((s.pTransOffsets - (r.offset + r.transLen)) % 2 ^ 16).toNat = n
  have hnle : (r.offset : Int) + n ≤ s.pTransOffsets - r.transLen := by omega
  generalize hm₁ : move s.mem r.offset (r.offset + r.transLen) n = m₁
  have hout : ∀ x : Int, x < r.offset ∨ s.pTransOffsets ≤ x → m₁ x = s.mem x := by
    intro x hx
    rw [← hm₁]
    exact move_of_outside (by omega)
  have hbytes₁ : bytesRemaining m₁ = bytesRemaining s.mem :=
    get32_congr fun x _ _ => hout x (by omega)
  have hlen₁ : transLen m₁ (transAt s.mem h) = r.transLen := by
    rw [← hr]
    exact get32_congr fun x _ _ => hout x (by omega)
  rw [hbytes₁, hlen₁]
  generalize hm₂ : put32 m₁ 4 (bytesRemaining s.mem + r.transLen) = m₂
  have hsize₂ : memSize m₂ = memSize s.mem := by
    rw [← hm₂, memSize, get32_put32_of_ne (by omega)]
    exact get32_congr fun x _ _ => hout x (by omega)
  have hall₂ : transAllocated m₂ = transAllocated s.mem := by
    rw [← hm₂, transAllocated, get32_put32_of_ne (by omega)]
    exact get32_congr fun x _ _ => hout x (by omega)
  have hbytes₂ : bytesRemaining m₂ = bytesRemaining s.mem + r.transLen := by
    rw [← hm₂, bytesRemaining, get32_put32_self, Nat.mod_eq_of_lt (by omega)]
  have hat₂ : ∀ k, transAt m₂ k = transAt s.mem k := by
    intro k
    unfold transAt
    rw [hsize₂]
  have hoctets₂ : ∀ x, 12 ≤ x → m₂ x = m₁ x := by
    intro x hx
    rw [← hm₂, put32_of_outside (by omega)]
  have hslots₂ : ∀ k, k ≤ transAllocated s.mem → slot m₂ k = slot s.mem k := by
    intro k hk
    have := ht.le_transAt hk
    refine slot_congr hsize₂ fun x _ _ => ?_
    rw [hoctets₂ x (by omega), hout x (by omega)]
  have hat : 12 ≤ transAt m₂ h := by
    rw [hat₂]
    omega
  rw [← hat₂ h]
  have hk := keeps_put32 (m := m₂) (v := unused) hat
  refine
    { memSize := hk.memSize.trans hsize₂
      transAllocated := hk.transAllocated.trans hall₂
      bytesRemaining := by rw [hr]; exact hk.bytesRemaining.trans hbytes₂
      gone := ?_
      slots := fun k hk hne => ?_
      below := fun x h₁ h₂ => ?_
      beyond := fun hc x h₁ h₂ => ?_ }
  · rw [slot_putLen_self hat]
    rfl
  · rw [slot_putLen_of_ne hne hat, hslots₂ k hk]
  · rw [hr] at h₂
    rw [hk.octets x h₁ (by rw [hat₂]; omega), hoctets₂ x h₁, hout x (by omega)]
  · rw [hr] at hc h₁ h₂ ⊢
    rw [hk.octets x (by omega) (by rw [hat₂]; omega), hoctets₂ x (by omega), ← hm₁]
    unfold move
    rw [show x - r.offset + (r.offset + r.transLen) = x + r.transLen by omega]
    split
    · rfl
    · rcases hc with hc | hc
      · rw [hc]
        simp
      · omega

/-- The gap is closed: the transactions behind the one that is freed are found where their octets
have been moved to. -/
theorem Table.closed (ht : Table s order 0 0) (hh : h ∈ order) (hv : Vacated s m order h)
    {s₁ : Globals} (hs₁ : s₁ = { s with
      mem := m
      pNextAvailable := s.pNextAvailable - (slot s.mem h).transLen })
    (hk : Keeps m m' s.pTransOffsets)
    (hslots : ∀ k, 1 ≤ k → k ≤ transAllocated s.mem → slot m' k =
      (slot m k).lowered (slot s.mem h).offset (slot s.mem h).transLen) :
    ∃ order', (∀ k, k ∈ order' ↔ k ∈ order ∧ k ≠ h) ∧
      Table { s₁ with mem := m' } order' 0 0 ∧
      ∀ k ∈ order', (slot m' k).transLen = (slot s.mem k).transLen ∧
        (Covers s.pTransOffsets s.pNextAvailable (slot s.mem h) →
          content m' k = content s.mem k) := by
  obtain ⟨l₁, l₂, rfl⟩ := List.append_of_mem hh
  have hroom := ht.room
  have hfirst := ht.first
  have htiled := ht.tiled
  simp only [home_same] at htiled
  have hnodup := ht.nodup
  rw [List.nodup_middle, List.nodup_cons] at hnodup
  have hbounds := htiled.bounds hh
  have hrec : ∀ k ∈ l₁ ++ l₂, k ≠ h ∧ 1 ≤ k ∧ k ≤ transAllocated s.mem ∧
      (slot s.mem k).transLen ≠ unused := by
    intro k hk
    have hmem : k ∈ l₁ ++ h :: l₂ := by
      rcases List.mem_append.1 hk with hk | hk
      · exact List.mem_append_left _ hk
      · exact List.mem_append_right _ (List.mem_cons_of_mem _ hk)
    have hl := (ht.live k).1 hmem
    exact ⟨fun he => hnodup.1 (he ▸ hk), hl.1, hl.2.1, hl.2.2.1⟩
  have hlowered : ∀ k ∈ l₁ ++ l₂, slot m' k =
      (slot s.mem k).lowered (slot s.mem h).offset (slot s.mem h).transLen := by
    intro k hk
    obtain ⟨hne, h₁, h₂, -⟩ := hrec k hk
    rw [hslots k h₁ h₂, hv.slots k h₂ hne]
  -- the records before the gap stay, those behind it are lowered by its length
  have hbefore : ∀ k ∈ l₁, slot m' k = slot s.mem k := by
    intro k hk
    have := (htiled.around.1.bounds hk).2
    rw [hlowered k (List.mem_append_left _ hk), Transaction.lowered, if_neg]
    rintro ⟨-, hgt⟩
    omega
  have hafter : ∀ k ∈ l₂, slot m' k = { slot s.mem k with
      offset := (slot s.mem k).offset - (slot s.mem h).transLen } ∧
      (slot s.mem h).offset + (slot s.mem h).transLen ≤ (slot s.mem k).offset := by
    intro k hk
    have hb := (htiled.around.2.bounds hk).1
    have hfits := (slot_fits s.mem k).2.1
    have hle : (slot s.mem h).offset + (slot s.mem h).transLen ≤ (slot s.mem k).offset := by omega
    refine ⟨?_, hle⟩
    rw [hlowered k (List.mem_append_right _ hk), Transaction.lowered]
    split
    · congr 1
      omega
    · rename_i hc
      have hzero : (slot s.mem h).transLen = 0 := by
        have hgt : ¬(slot s.mem k).offset > (slot s.mem h).offset := fun hgt =>
          hc ⟨(hrec k (List.mem_append_right _ hk)).2.2.2, hgt⟩
        omega
      rw [hzero]
      rfl
  have hlen : ∀ k ∈ l₁ ++ l₂, (slot m' k).transLen = (slot s.mem k).transLen := by
    intro k hk
    rcases List.mem_append.1 hk with hk | hk
    · rw [hbefore k hk]
    · rw [(hafter k hk).1]
  have hnext : s₁.pNextAvailable = s.pNextAvailable - (slot s.mem h).transLen := by rw [hs₁]
  have hoffs : s₁.pTransOffsets = s.pTransOffsets := by rw [hs₁]
  refine ⟨l₁ ++ l₂, fun k => ?_, ⟨?_, ?_, ?_, hnodup.2, fun k => ?_, ?_, fun k hk => ?_⟩,
    fun k hmem => ⟨hlen k hmem, fun hc => ?_⟩⟩
  · constructor
    · intro hk
      refine ⟨?_, (hrec k hk).1⟩
      rw [List.mem_append] at hk ⊢
      exact hk.imp_right (List.mem_cons_of_mem _)
    · rintro ⟨hk, hne⟩
      rw [List.mem_append, List.mem_cons] at hk
      rw [List.mem_append]
      exact hk.imp_right fun hk => hk.resolve_left hne
  · rw [hoffs, hk.memSize, hk.transAllocated, hv.memSize, hv.transAllocated]
    exact ht.table
  · rw [hoffs, hnext]
    omega
  · rw [hoffs, hnext, hk.bytesRemaining, hv.bytesRemaining]
    have := ht.remaining
    omega
  · rw [hk.transAllocated, hv.transAllocated]
    constructor
    · intro hk
      obtain ⟨hne, h₁, h₂, h₃⟩ := hrec k hk
      rw [hlen k hk]
      exact ⟨h₁, h₂, h₃, by omega⟩
    · rintro ⟨h₁, h₂, h₃, -⟩
      have hkept : (slot m' k).transLen = (slot m k).transLen := by
        rw [hslots k h₁ h₂]
        unfold Transaction.lowered
        split <;> rfl
      have hne : k ≠ h := by
        rintro rfl
        exact h₃ (hkept.trans hv.gone)
      rw [hkept, hv.slots k h₂ hne] at h₃
      have hmem := (ht.live k).2 ⟨h₁, h₂, h₃, by omega⟩
      rw [List.mem_append, List.mem_cons] at hmem
      rw [List.mem_append]
      exact hmem.imp_right fun hmem => hmem.resolve_left hne
  · rw [hnext]
    simp only [home_same]
    refine htiled.remove (fun k hk => by rw [hbefore k hk]) (fun k hk => ?_) fun k hk => hlen k hk
    obtain ⟨he, hle⟩ := hafter k hk
    rw [he]
    show (((slot s.mem k).offset - (slot s.mem h).transLen : Nat) : Int) = _
    omega
  · have := ht.aligned k ((ht.live k).2 ?_)
    · rw [home_same] at this ⊢
      rw [hlen k hk]
      exact this
    · obtain ⟨-, h₁, h₂, h₃⟩ := hrec k hk
      exact ⟨h₁, h₂, h₃, by omega⟩
  · unfold content
    rcases List.mem_append.1 hmem with hl | hl
    · rw [hbefore k hl]
      have hb := htiled.around.1.bounds hl
      refine read_congr fun i hi => ?_
      rw [hk.octets _ (by omega) (by omega), hv.below _ (by omega) (by omega)]
    · obtain ⟨he, hle⟩ := hafter k hl
      have hb := htiled.around.2.bounds hl
      rw [he]
      refine read_congr fun i (hi : i < (slot s.mem k).transLen) => ?_
      dsimp only
      rw [hk.octets _ (by omega) (by omega), hv.beyond hc _ (by omega) (by omega)]
      congr 1
      omega

/-- What `SBM_freeTrans` of `h` leaves. -/
structure Freed (s s' : Globals) (order order' : List Nat) (h : Nat) : Prop where
  mem_iff : ∀ k, k ∈ order' ↔ k ∈ order ∧ k ≠ h
  table : Table s' order' 0 0
  idle : s'.inProcess = none
  content : Covers s.pTransOffsets s.pNextAvailable (slot s.mem h) →
    ∀ k ∈ order', content s'.mem k = content s.mem k

/-- **`SBM_freeTrans` keeps the layout**, and the contents of the others unless there are too many
octets to move. -/
theorem Table.freeTrans (ht : Table s order 0 0) (hidle : s.inProcess = none) (hh : h ∈ order) :
    ∃ s' order', s.freeTrans h = (s', .ok ()) ∧ Freed s s' order order' h := by
  have hfirst := ht.first
  have hroom := ht.room
  have hv := ht.vacated hh
  have hmoveBy : ((slot s.mem h).offset + (slot s.mem h).transLen - (slot s.mem h).offset : Int).toNat =
      (slot s.mem h).transLen := by omega
  have hat : s.pTransOffsets + 12 * ((transAllocated (s.vacated h) : Int) - 1) =
      transAt (s.vacated h) 1 := by
    have := ht.table
    unfold transAt
    rw [hv.memSize, hv.transAllocated]
    omega
  have hlow : ∀ i, 1 ≤ i → i < 1 + transAllocated (s.vacated h) →
      s.pTransOffsets ≤ transAt (s.vacated h) i := by
    intro i _ hi
    rw [hv.transAllocated] at hi
    have := ht.le_transAt (h := i) (by omega)
    unfold transAt at this ⊢
    rwa [hv.memSize]
  obtain ⟨hk, hslots⟩ := moveOffsets_spec (slot s.mem h).offset (slot s.mem h).transLen
    (by omega : 12 ≤ s.pTransOffsets) hlow
  obtain ⟨order', hmem, htable, hcontent⟩ := ht.closed hh hv rfl hk fun k h₁ h₂ => by
    rw [hslots k, if_pos (by rw [hv.transAllocated]; omega)]
  have htrim := htable.trim (transAllocated (s.vacated h)) 0
  have hfree : s.freeTrans h = (Globals.trim (transAllocated (s.vacated h)) 0 { s with
      mem := Globals.moveOffsets (slot s.mem h).offset
        ((slot s.mem h).offset + (slot s.mem h).transLen - (slot s.mem h).offset : Int).toNat
        (transAllocated (s.vacated h))
        (s.pTransOffsets + 12 * ((transAllocated (s.vacated h) : Int) - 1)) (s.vacated h)
      pNextAvailable := s.pNextAvailable -
        ((slot s.mem h).offset + (slot s.mem h).transLen - (slot s.mem h).offset : Int).toNat },
      .ok ()) := by
    unfold Globals.freeTrans
    rw [if_neg (by rw [hidle]; decide)]
    rfl
  rw [hmoveBy, hat] at hfree
  refine ⟨_, order', hfree, hmem, htrim.table, htrim.inProcess.trans hidle, fun hc k hk => ?_⟩
  rw [← (hcontent k hk).2 hc]
  have hb := htable.bounds hk
  have hroom' := htable.room
  rw [home_same] at hb
  unfold content
  rw [htrim.slots k hk]
  exact read_congr fun i hi => htrim.octets _ (by omega) (by omega)

/-! ## `SBM_endTrans` -/

/-- The transaction in process is committed: its octets are behind all others, and those of the
original, if it is an addition, are still in the spare record. -/
theorem Open.committed (ho : Open s order p g t) (hnew : p = g ∨ g ≤ transAllocated s.mem)
    {s₁ : Globals} (hnext : s₁.pNextAvailable = t.pNextAlloc)
    (hsize : memSize s₁.mem = memSize s.mem) (hbytes : bytesRemaining s₁.mem = t.bytesRemaining)
    (hgrow : if g = transAllocated s.mem + 1 then
        s₁.pTransOffsets = s.pTransOffsets - 12 ∧ transAllocated s₁.mem = transAllocated s.mem + 1
      else s₁.pTransOffsets = s.pTransOffsets ∧ transAllocated s₁.mem = transAllocated s.mem)
    (hslots : ∀ h, h ≤ transAllocated s.mem ∨ h = g → slot s₁.mem h = slot s.mem h) :
    (∀ k, k ∈ order.map (home p g) ++ [p] ↔ k ∈ order ∨ k = g) ∧
      Table s₁ (order.map (home p g) ++ [p]) 0 0 := by
  have hfirst := ho.first
  have hle := ho.next_le
  have hlen := ho.length
  have hleft := ho.left
  have htable := ho.table
  have hlim : s.limit g = s₁.pTransOffsets := by
    unfold Globals.limit
    split <;> rename_i hc
    · rw [if_pos hc] at hgrow
      exact hgrow.1.symm
    · rw [if_neg hc] at hgrow
      exact hgrow.1.symm
  have hall : transAllocated s₁.mem =
      if g = transAllocated s.mem + 1 then transAllocated s.mem + 1 else transAllocated s.mem := by
    split <;> rename_i hc
    · rw [if_pos hc] at hgrow
      exact hgrow.2
    · rw [if_neg hc] at hgrow
      exact hgrow.2
  have hspare := ho.spare
  have hmem : ∀ k, k ∈ order.map (home p g) ++ [p] ↔ k ∈ order ∨ k = g := by
    intro k
    rw [List.mem_append, List.mem_map, List.mem_singleton]
    rcases ho.adding with ⟨rfl, -⟩ | ⟨hp, -⟩
    · simp only [home_same, exists_eq_right]
    · constructor
      · rintro (⟨i, hi, rfl⟩ | rfl)
        · unfold home
          split
          · exact .inr rfl
          · exact .inl hi
        · exact .inl hp
      · rintro (hk | rfl)
        · by_cases hkp : k = p
          · exact .inr hkp
          · exact .inl ⟨k, hk, home_of_ne hkp⟩
        · exact .inl ⟨p, hp, home_self⟩
  have hused : (slot s.mem g).transLen ≠ unused := by
    rcases ho.adding with ⟨rfl, -⟩ | ⟨-, -, hu⟩
    · have := ho.size_lt
      have := ho.limit_le
      unfold unused
      omega
    · exact hu
  have hp : slot s₁.mem p = slot s.mem p := by
    rcases ho.adding with ⟨rfl, -⟩ | ⟨hp, -⟩
    · exact hslots p (.inr rfl)
    · exact hslots p (.inl ((ho.live p).1 hp).2.1)
  have hhome : ∀ k ∈ order, slot s₁.mem (home p g k) = slot s.mem (home p g k) := by
    intro k hk
    refine hslots _ ?_
    unfold home
    split
    · exact .inr rfl
    · exact .inl ((ho.live k).1 hk).2.1
  have hinj : (order.map (home p g)).Nodup := by
    refine ho.nodup.map_on fun a ha b hb hab => ?_
    unfold home at hab
    split at hab <;> split at hab
    · omega
    · exact (ho.mem_ne hb hab.symm).elim
    · exact (ho.mem_ne ha hab).elim
    · exact hab
  refine ⟨hmem, ?_, ?_, ?_, ?_, fun k => ?_, ?_, fun k hk => ?_⟩
  · rw [← hlim, hsize, hall]
    unfold Globals.limit
    split <;> omega
  · rw [hnext, ← hlim]
    exact hle.2
  · rw [hbytes, hnext, ← hlim, hleft]
  · refine List.nodup_append.2 ⟨hinj, List.nodup_singleton p, ?_⟩
    rintro _ ha b hb rfl
    obtain ⟨k, hk, he⟩ := List.mem_map.1 ha
    exact ho.home_mem hk (he.trans (List.mem_singleton.1 hb))
  · rw [hmem, ho.live k, hall]
    by_cases hkg : k = g
    · subst hkg
      rw [hslots k (.inr rfl)]
      simp only [ne_eq, not_true_eq_false, and_false, false_or, true_iff]
      refine ⟨hspare.1, ?_, hused, by omega⟩
      split <;> omega
    · simp only [ne_eq, hkg, not_false_eq_true, and_true, or_false]
      constructor
      · rintro ⟨h₁, h₂, h₃⟩
        rw [hslots k (.inl h₂)]
        refine ⟨h₁, ?_, h₃, by omega⟩
        split <;> omega
      · rintro ⟨h₁, h₂, h₃, -⟩
        have hk : k ≤ transAllocated s.mem := by
          split at h₂ <;> omega
        rw [hslots k (.inl hk)] at h₃
        exact ⟨h₁, hk, h₃⟩
  · simp only [home_same]
    have hold : Tiles (fun k => ((slot s₁.mem k).offset : Int)) (fun k => (slot s₁.mem k).transLen) 12
        (order.map (home p g)) s.pNextAvailable :=
      Tiles.map.1 (ho.tiled.congr (fun k hk => by rw [hhome k hk]) fun k hk => by rw [hhome k hk])
    have hnew := hold.snoc (x := p) (by rw [hp]; exact ho.offset)
    rwa [show s.pNextAvailable + ((slot s₁.mem p).transLen : Int) = s₁.pNextAvailable by
      rw [hp]
      omega] at hnew
  · rw [home_same]
    rcases List.mem_append.1 hk with hk | hk
    · obtain ⟨i, hi, rfl⟩ := List.mem_map.1 hk
      rw [hhome i hi]
      exact ho.aligned i hi
    · rw [List.mem_singleton.1 hk, hp]
      exact ho.newAligned

/-- What `SBM_endTrans` leaves. -/
structure Ended (s s' : Globals) (order order' : List Nat) (p : Nat) (t : TransactionInProcess) :
    Prop where
  mem_iff : ∀ k, k ∈ order' ↔ k ∈ order ∨ k = p
  table : Table s' order' 0 0
  idle : s'.inProcess = none
  content : (t.hAddingToTrans ≠ sbmNull →
      Covers s.pTransOffsets t.pNextAlloc (slot s.mem t.hAddingToTrans)) →
    ∀ k ∈ order', content s'.mem k = content s.mem k

/-- The state in which `SBM_endTrans` frees the old transaction. -/
def Globals.grown (s : Globals) (t : TransactionInProcess) : Globals :=
  let s := { s with
    inProcess := none
    mem := put32 s.mem 4 t.bytesRemaining
    pNextAvailable := t.pNextAlloc }
  if t.pTrans < s.pTransOffsets then
    { s with
      pTransOffsets := s.pTransOffsets - 12
      mem := put32 s.mem 8 (transAllocated s.mem + 1) }
  else s

theorem grown_inProcess (s : Globals) (t : TransactionInProcess) : (s.grown t).inProcess = none := by
  unfold Globals.grown
  dsimp only
  split <;> rfl

theorem grown_next (s : Globals) (t : TransactionInProcess) :
    (s.grown t).pNextAvailable = t.pNextAlloc := by
  unfold Globals.grown
  dsimp only
  split <;> rfl

theorem grown_octets (s : Globals) (t : TransactionInProcess) {x : Int} (hx : 12 ≤ x) :
    (s.grown t).mem x = s.mem x := by
  unfold Globals.grown
  dsimp only
  split
  · dsimp only
    rw [put32_of_outside (by omega), put32_of_outside (by omega)]
  · exact put32_of_outside (by omega)

theorem grown_memSize (s : Globals) (t : TransactionInProcess) :
    memSize (s.grown t).mem = memSize s.mem := by
  unfold Globals.grown memSize
  dsimp only
  split
  · dsimp only
    rw [get32_put32_of_ne (by omega), get32_put32_of_ne (by omega)]
  · exact get32_put32_of_ne (by omega)

theorem grown_bytesRemaining (s : Globals) (ht : t.bytesRemaining < 2 ^ 32) :
    bytesRemaining (s.grown t).mem = t.bytesRemaining := by
  unfold Globals.grown bytesRemaining
  dsimp only
  split
  · dsimp only
    rw [get32_put32_of_ne (by omega), get32_put32_self, Nat.mod_eq_of_lt ht]
  · exact get32_put32_self.trans (Nat.mod_eq_of_lt ht)

/-- The table has grown if the transaction in process is in a new record. -/
theorem Open.grown_table (ho : Open s order p g t) :
    if g = transAllocated s.mem + 1 ∧ p = g then
      (s.grown t).pTransOffsets = s.pTransOffsets - 12 ∧
        transAllocated (s.grown t).mem = transAllocated s.mem + 1
    else (s.grown t).pTransOffsets = s.pTransOffsets ∧
      transAllocated (s.grown t).mem = transAllocated s.mem := by
  have hcount : transAllocated (put32 s.mem 4 t.bytesRemaining) = transAllocated s.mem :=
    get32_put32_of_ne (by omega)
  have hiff : t.pTrans < s.pTransOffsets ↔ g = transAllocated s.mem + 1 ∧ p = g := by
    have hspare := ho.spare
    rw [ho.record, ← ho.transAt_last]
    unfold transAt
    rcases ho.adding with ⟨rfl, -⟩ | ⟨hp, -⟩
    · omega
    · have hne := ho.mem_ne hp
      have := (ho.live p).1 hp
      omega
  unfold Globals.grown
  dsimp only
  by_cases hc : g = transAllocated s.mem + 1 ∧ p = g
  · have hfirst := ho.first
    have hroom := ho.room
    have htable := ho.table
    have hsize := ho.size_lt
    rw [if_pos hc, if_pos (hiff.2 hc), hcount]
    exact ⟨rfl, get32_put32_self.trans (Nat.mod_eq_of_lt (by omega))⟩
  · rw [if_neg hc, if_neg (mt hiff.1 hc)]
    exact ⟨rfl, hcount⟩

theorem Open.grown_slot (ho : Open s order p g t) (hh : h ≤ transAllocated s.mem ∨ h = g ∨ h = p) :
    slot (s.grown t).mem h = slot s.mem h := by
  have := ho.limit_le_transAt hh
  have := ho.next_le
  have := ho.first
  exact slot_congr (grown_memSize s t) fun x _ _ => grown_octets s t (by omega)

/-- **`SBM_endTrans` keeps the layout**, when the spare record of an addition is one of the table. -/
theorem Open.endTrans (ho : Open s order p g t)
    (hold : t.hAddingToTrans ≠ sbmNull → t.hAddingToTrans ≤ transAllocated s.mem) :
    ∃ s' order', s.endTrans = (s', .ok ()) ∧ Ended s s' order order' p t := by
  have hfirst := ho.first
  have hle := ho.next_le
  have hlim := ho.limit_le
  have hbytes : t.bytesRemaining < 2 ^ 32 := by
    have := ho.left
    have := ho.size_lt
    have := ho.table
    omega
  have hadding : p = g ∨ (p ∈ order ∧ t.hAddingToTrans = g ∧ g ≤ transAllocated s.mem) := by
    rcases ho.adding with ⟨he, -⟩ | ⟨hp, hadd, -⟩
    · exact .inl he
    · rw [hadd] at hold
      exact .inr ⟨hp, hadd, hold ho.spare_ne_null⟩
  have hgrow := ho.grown_table
  have hsame : g = transAllocated s.mem + 1 ∧ p = g ↔ g = transAllocated s.mem + 1 := by
    refine ⟨And.left, fun hg => ⟨hg, ?_⟩⟩
    rcases hadding with he | ⟨-, -, hle⟩
    · exact he
    · omega
  simp only [hsame] at hgrow
  obtain ⟨hmem, hcommitted⟩ := ho.committed (hadding.imp_right fun h => h.2.2) (grown_next s t)
    (grown_memSize s t) (grown_bytesRemaining s hbytes) hgrow
    fun h hh => ho.grown_slot (hh.imp_right .inl)
  -- nothing has moved yet
  have hkept : ∀ k, k ∈ order ∨ k = g → content (s.grown t).mem k = content s.mem k := by
    intro k hk
    have hb := hcommitted.bounds ((hmem k).2 hk)
    have hrec : k ≤ transAllocated s.mem ∨ k = g ∨ k = p :=
      hk.imp (fun hk => ((ho.live k).1 hk).2.1) .inl
    rw [home_same, ho.grown_slot hrec] at hb
    unfold content
    rw [ho.grown_slot hrec]
    exact read_congr fun i _ => grown_octets s t (by omega)
  -- the two ways in which the transaction ends
  have hendNew : ¬t.hAddingToTrans ≠ sbmNull → s.endTrans = (s.grown t, .ok ()) := by
    intro hnull
    unfold Globals.endTrans
    rw [ho.inProcess]
    exact if_neg hnull
  have hendAdding : ∀ s', t.hAddingToTrans ≠ sbmNull →
      (s.grown t).freeTrans t.hAddingToTrans = (s', .ok ()) → s.endTrans = (s', .ok ()) := by
    intro s' hadd hfree
    unfold Globals.endTrans
    rw [ho.inProcess]
    refine (if_pos hadd).trans ?_
    split
    · next s₁ heq => exact heq.symm.trans hfree
    · next s₁ rc heq => cases heq.symm.trans hfree
  rcases ho.adding with ⟨rfl, hnull⟩ | ⟨hp, hadd, -⟩
  · rw [hendNew (by simpa using hnull)]
    exact ⟨_, _, rfl, hmem, hcommitted, grown_inProcess s t, fun _ k hk => hkept k ((hmem k).1 hk)⟩
  · obtain ⟨s', order', hfree, hfreed⟩ := hcommitted.freeTrans (grown_inProcess s t)
      ((hmem g).2 (.inr rfl))
    have hne := ho.mem_ne hp
    rw [hendAdding s' (by rw [hadd]; exact ho.spare_ne_null) (by rw [hadd]; exact hfree)]
    have hmem' : ∀ k, k ∈ order' ↔ k ∈ order := by
      intro k
      rw [hfreed.mem_iff k, hmem k]
      constructor
      · rintro ⟨hk | hk, hkg⟩
        · exact hk
        · exact (hkg hk).elim
      · intro hk
        exact ⟨.inl hk, ho.mem_ne hk⟩
    refine ⟨s', order', rfl, fun k => ?_, hfreed.table, hfreed.idle, fun hc k hk => ?_⟩
    · rw [hmem' k]
      refine ⟨.inl, ?_⟩
      rintro (hk | rfl)
      · exact hk
      · exact hp
    · have hcover := hc (by rw [hadd]; exact ho.spare_ne_null)
      have hsame' : (s.grown t).pTransOffsets = s.pTransOffsets := by
        have hle : ¬g = transAllocated s.mem + 1 := by
          rcases hadding with he | ⟨-, -, hle⟩
          · exact (hne he).elim
          · omega
        rw [if_neg hle] at hgrow
        exact hgrow.1
      rw [hadd] at hcover
      have := hfreed.content (by
        rw [hsame', grown_next, ho.grown_slot (.inr (.inl rfl))]
        exact hcover) k hk
      rw [this]
      exact hkept k (.inl ((hmem' k).1 hk))

end Sbm
