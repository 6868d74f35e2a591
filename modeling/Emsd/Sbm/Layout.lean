import Emsd.Lib.Tiles
import Emsd.Sbm.Block

/-!
# How a block is laid out

`Table` is the layout of the committed transactions: they fill the block from the header to
`pNextAvailable`, the table is at the end, and `bytesRemaining` is what lies between. `Open` adds the
transaction in process. While it is being added to, a transaction is in two places: the copy is under
its own handle, the original in a spare record.

* `Table.open_beginTrans`, `Open.extend`, `Open.abortTrans`, `Table.addToTrans`: the calls keep the
  layout, and the octets of the committed transactions.
-/

namespace Sbm

open Octets Tiling

variable {m m' : Memory} {s s' : Globals} {order : List Nat} {p g h j k v n : Nat}

/-! ## Records -/

/-- The record of a handle. -/
def slot (m : Memory) (h : Nat) : Transaction := getTransaction m (transAt m h)

/-- The words of a record are words. -/
def Transaction.Fits (t : Transaction) : Prop :=
  t.transLen < 2 ^ 32 ∧ t.offset < 2 ^ 32 ∧ t.transactionType < 2 ^ 32

theorem slot_fits (m : Memory) (h : Nat) : (slot m h).Fits :=
  ⟨get32_lt .., get32_lt .., get32_lt ..⟩

/-- Nothing but records of the table at `low` and beyond has changed. -/
structure Keeps (m m' : Memory) (low : Int) : Prop where
  memSize : memSize m' = memSize m
  bytesRemaining : bytesRemaining m' = bytesRemaining m
  transAllocated : transAllocated m' = transAllocated m
  octets : ∀ x, 12 ≤ x → x < low → m' x = m x

theorem Keeps.refl (m : Memory) (low : Int) : Keeps m m low := ⟨rfl, rfl, rfl, fun _ _ _ => rfl⟩

theorem Keeps.trans {m'' : Memory} {low : Int} (h₁ : Keeps m m' low) (h₂ : Keeps m' m'' low) :
    Keeps m m'' low where
  memSize := h₂.memSize.trans h₁.memSize
  bytesRemaining := h₂.bytesRemaining.trans h₁.bytesRemaining
  transAllocated := h₂.transAllocated.trans h₁.transAllocated
  octets x hx hlow := (h₂.octets x hx hlow).trans (h₁.octets x hx hlow)

theorem Keeps.mono {low low' : Int} (hk : Keeps m m' low) (hle : low' ≤ low) : Keeps m m' low' :=
  ⟨hk.memSize, hk.bytesRemaining, hk.transAllocated, fun x hx hlow => hk.octets x hx (by omega)⟩

theorem Keeps.transAt {low : Int} (hk : Keeps m m' low) (h : Nat) : transAt m' h = transAt m h := by
  unfold Sbm.transAt
  rw [hk.memSize]

theorem Keeps.of_outside {a low : Int} (ha : 12 ≤ a) (hlow : low ≤ a)
    (hout : ∀ x, x < a → m' x = m x) : Keeps m m' low where
  memSize := get32_congr fun x _ _ => hout x (by omega)
  bytesRemaining := get32_congr fun x _ _ => hout x (by omega)
  transAllocated := get32_congr fun x _ _ => hout x (by omega)
  octets x _ hx := hout x (by omega)

theorem keeps_put32 {a : Int} (ha : 12 ≤ a) : Keeps m (put32 m a v) a :=
  .of_outside ha (Int.le_refl _) fun _ hx => put32_of_outside (.inl hx)

theorem keeps_putTransaction {a : Int} {t : Transaction} (ha : 12 ≤ a) :
    Keeps m (putTransaction m a t) a :=
  ((keeps_put32 ha).trans ((keeps_put32 (by omega)).mono (by omega))).trans
    ((keeps_put32 (by omega)).mono (by omega))

theorem transAt_ne (hne : h ≠ g) : transAt m h + 12 ≤ transAt m g ∨ transAt m g + 12 ≤ transAt m h := by
  unfold transAt
  omega

theorem transAt_le (hle : h ≤ g) : transAt m g ≤ transAt m h := by
  unfold transAt
  omega

/-- A record is read from its twelve octets. -/
theorem getTransaction_congr {a : Int} (h : ∀ x, a ≤ x → x < a + 12 → m' x = m x) :
    getTransaction m' a = getTransaction m a := by
  unfold getTransaction transLen offset transactionType
  rw [get32_congr fun x _ _ => h x (by omega) (by omega),
    get32_congr fun x _ _ => h x (by omega) (by omega),
    get32_congr fun x _ _ => h x (by omega) (by omega)]

theorem slot_congr (hsize : memSize m' = memSize m)
    (hout : ∀ x, transAt m h ≤ x → x < transAt m h + 12 → m' x = m x) : slot m' h = slot m h := by
  unfold slot
  rw [show transAt m' h = transAt m h by unfold transAt; rw [hsize]]
  exact getTransaction_congr hout

theorem slot_putTransaction_self {t : Transaction} (ht : t.Fits) (hg : 12 ≤ transAt m g) :
    slot (putTransaction m (transAt m g) t) g = t := by
  obtain ⟨hl, ho, hy⟩ := ht
  unfold slot
  rw [(keeps_putTransaction hg).transAt g]
  unfold getTransaction transLen offset transactionType putTransaction
  congr 1
  · rw [get32_put32_of_ne (by omega), get32_put32_of_ne (by omega), get32_put32_self,
      Nat.mod_eq_of_lt hl]
  · rw [get32_put32_of_ne (by omega), get32_put32_self, Nat.mod_eq_of_lt ho]
  · rw [get32_put32_self, Nat.mod_eq_of_lt hy]

theorem slot_putTransaction_of_ne {t : Transaction} (hne : h ≠ g) (hg : 12 ≤ transAt m g) :
    slot (putTransaction m (transAt m g) t) h = slot m h := by
  refine slot_congr (keeps_putTransaction hg).memSize fun x _ _ => ?_
  have := transAt_ne (m := m) hne
  unfold putTransaction
  rw [put32_of_outside (by omega), put32_of_outside (by omega), put32_of_outside (by omega)]

theorem slot_putLen_self (hg : 12 ≤ transAt m g) :
    slot (put32 m (transAt m g) v) g = { slot m g with transLen := v % 2 ^ 32 } := by
  unfold slot
  rw [(keeps_put32 hg).transAt g]
  unfold getTransaction transLen offset transactionType
  rw [get32_put32_self, get32_put32_of_ne (by omega), get32_put32_of_ne (by omega)]

theorem slot_putLen_of_ne (hne : h ≠ g) (hg : 12 ≤ transAt m g) :
    slot (put32 m (transAt m g) v) h = slot m h := by
  refine slot_congr (keeps_put32 hg).memSize fun x _ _ => ?_
  have := transAt_ne (m := m) hne
  exact put32_of_outside (by omega)

theorem slot_putOffset_self (hg : 12 ≤ transAt m g) :
    slot (put32 m (transAt m g + 4) v) g = { slot m g with offset := v % 2 ^ 32 } := by
  unfold slot
  rw [((keeps_put32 (by omega)).mono (Int.le_refl _)).transAt g]
  unfold getTransaction transLen offset transactionType
  rw [get32_put32_of_ne (by omega), get32_put32_self, get32_put32_of_ne (by omega)]

theorem slot_putOffset_of_ne (hne : h ≠ g) (hg : 12 ≤ transAt m g) :
    slot (put32 m (transAt m g + 4) v) h = slot m h := by
  refine slot_congr (keeps_put32 (by omega)).memSize fun x _ _ => ?_
  have := transAt_ne (m := m) hne
  exact put32_of_outside (by omega)

/-! ## The layout -/

/-- Where the committed record of a transaction is: in the spare record while it is added to. -/
def home (p g h : Nat) : Nat := if h = p then g else h

@[simp] theorem home_self : home p g p = g := if_pos rfl

theorem home_of_ne (hne : h ≠ p) : home p g h = h := if_neg hne

@[simp] theorem home_same : home p p h = h := by
  unfold home
  split
  · rename_i he
    exact he.symm
  · rfl

/-- The committed transactions, in their order in the block: they fill it from the header to
`pNextAvailable`. The record `g` is not in use for one of them, unless it stands for `p`. -/
structure Table (s : Globals) (order : List Nat) (p g : Nat) : Prop where
  table : s.pTransOffsets = memSize s.mem - 12 * transAllocated s.mem
  room : s.pNextAvailable ≤ s.pTransOffsets
  remaining : (bytesRemaining s.mem : Int) = s.pTransOffsets - s.pNextAvailable
  nodup : order.Nodup
  live : ∀ h, h ∈ order ↔
    1 ≤ h ∧ h ≤ transAllocated s.mem ∧ (slot s.mem h).transLen ≠ unused ∧ h ≠ g
  tiled : Tiles (fun h => ((slot s.mem (home p g h)).offset : Int))
    (fun h => (slot s.mem (home p g h)).transLen) 12 order s.pNextAvailable
  aligned : ∀ h ∈ order, (slot s.mem (home p g h)).transLen % 4 = 0

/-- The first octet that the table may come to use while a transaction is in process with the spare
record `g`. -/
def Globals.limit (s : Globals) (g : Nat) : Int :=
  if g = transAllocated s.mem + 1 then s.pTransOffsets - 12 else s.pTransOffsets

/-- The layout with a transaction in process, whose handle is `p`. -/
structure Open (s : Globals) (order : List Nat) (p g : Nat) (t : TransactionInProcess) : Prop
    extends Table s order p g where
  inProcess : s.inProcess = some t
  record : t.pTrans = transAt s.mem p
  spare : 1 ≤ g ∧ g ≤ transAllocated s.mem + 1
  adding : (p = g ∧ t.hAddingToTrans = sbmNull) ∨
    (p ∈ order ∧ t.hAddingToTrans = g ∧ (slot s.mem g).transLen ≠ unused)
  start : t.pStart = s.pNextAvailable
  offset : ((slot s.mem p).offset : Int) = s.pNextAvailable
  length : ((slot s.mem p).transLen : Int) = t.pNextAlloc - s.pNextAvailable
  left : (t.bytesRemaining : Int) = s.limit g - t.pNextAlloc
  newAligned : (slot s.mem p).transLen % 4 = 0

variable {t : TransactionInProcess}

theorem Table.first (ht : Table s order p g) : 12 ≤ s.pNextAvailable := ht.tiled.le

theorem Table.size_lt (_ : Table s order p g) : (memSize s.mem : Int) < 2 ^ 32 := by
  exact_mod_cast get32_lt s.mem 0

theorem Table.transAt_last (ht : Table s order p g) :
    transAt s.mem (transAllocated s.mem) = s.pTransOffsets := ht.table.symm

/-- The first record of the table. -/
theorem Table.transAt_one (ht : Table s order p g) :
    s.pTransOffsets + 12 * ((transAllocated s.mem : Int) - 1) = transAt s.mem 1 := by
  have := ht.table
  unfold transAt
  omega

/-- The record that a longer table begins with. -/
theorem Table.transAt_next (ht : Table s order p g) :
    s.pTransOffsets - 12 = transAt s.mem (transAllocated s.mem + 1) := by
  have := ht.table
  unfold transAt
  omega

/-- `SBM_beginTrans` gets the handle from the record. -/
theorem handle_transAt (m : Memory) (g : Nat) : ((memSize m - transAt m g) / 12).toNat = g := by
  unfold transAt
  omega

theorem Table.le_transAt (ht : Table s order p g) (hle : h ≤ transAllocated s.mem) :
    s.pTransOffsets ≤ transAt s.mem h := by
  rw [← ht.transAt_last]
  exact transAt_le hle

theorem Table.mem_ne (ht : Table s order p g) (hh : h ∈ order) : h ≠ g := ((ht.live h).1 hh).2.2.2

/-- The octets of a committed transaction are between the header and `pNextAvailable`. -/
theorem Table.bounds (ht : Table s order p g) (hh : h ∈ order) :
    12 ≤ ((slot s.mem (home p g h)).offset : Int) ∧
      ((slot s.mem (home p g h)).offset : Int) + (slot s.mem (home p g h)).transLen ≤
        s.pNextAvailable :=
  ht.tiled.bounds hh

/-- The layout depends on the header, the pointers and the records of the table only. -/
theorem Table.congr {p' g' : Nat} (ht : Table s order p g)
    (hnext : s'.pNextAvailable = s.pNextAvailable) (hoffsets : s'.pTransOffsets = s.pTransOffsets)
    (hk : Keeps s.mem s'.mem 12)
    (hlive : ∀ h, 1 ≤ h → h ≤ transAllocated s.mem →
      ((slot s'.mem h).transLen ≠ unused ∧ h ≠ g' ↔ (slot s.mem h).transLen ≠ unused ∧ h ≠ g))
    (hslot : ∀ h ∈ order, slot s'.mem (home p' g' h) = slot s.mem (home p g h)) :
    Table s' order p' g' where
  table := by rw [hoffsets, hk.memSize, hk.transAllocated, ht.table]
  room := by
    rw [hnext, hoffsets]
    exact ht.room
  remaining := by rw [hnext, hoffsets, hk.bytesRemaining, ht.remaining]
  nodup := ht.nodup
  live h := by
    rw [ht.live h, hk.transAllocated]
    constructor
    · rintro ⟨h₁, h₂, h₃⟩
      exact ⟨h₁, h₂, (hlive h h₁ h₂).2 h₃⟩
    · rintro ⟨h₁, h₂, h₃⟩
      exact ⟨h₁, h₂, (hlive h h₁ h₂).1 h₃⟩
  tiled := by
    rw [hnext]
    exact ht.tiled.congr (fun h hh => by rw [hslot h hh]) fun h hh => by rw [hslot h hh]
  aligned h hh := by
    rw [hslot h hh]
    exact ht.aligned h hh

/-! ## Contents -/

/-- The octets of the record of a handle. -/
def content (m : Memory) (h : Nat) : List UInt8 := read m (slot m h).offset (slot m h).transLen

/-- What does not touch the octets below `pNextAvailable` nor the committed records keeps the
contents. -/
theorem Table.content_congr {p' g' : Nat} (ht : Table s order p g) (hh : h ∈ order)
    (hslot : slot m' (home p' g' h) = slot s.mem (home p g h))
    (hoctets : ∀ x, 12 ≤ x → x < s.pNextAvailable → m' x = s.mem x) :
    content m' (home p' g' h) = content s.mem (home p g h) := by
  have hb := ht.bounds hh
  unfold content
  rw [hslot]
  exact read_congr fun k hk => hoctets _ (by omega) (by omega)

/-! ## `SBM_beginTrans` -/

theorem findUnused_some {a : Int} (hf : findUnused m k (transAt m j) = some a) :
    ∃ h, j ≤ h ∧ h < j + k ∧ a = transAt m h ∧ (slot m h).transLen = unused := by
  induction k generalizing j with
  | zero => cases hf
  | succ k ih =>
    unfold findUnused at hf
    split at hf
    · rename_i hu
      cases hf
      exact ⟨j, by omega, by omega, rfl, hu⟩
    · rw [show transAt m j - 12 = transAt m (j + 1) by unfold transAt; omega] at hf
      obtain ⟨h, h₁, h₂, h₃⟩ := ih hf
      exact ⟨h, by omega, by omega, h₃⟩

/-- `SBM_beginTrans` has begun a transaction in the record `g`. -/
structure Begun (s s' : Globals) (order : List Nat) (g : Nat) (t : TransactionInProcess) : Prop
    extends Open s' order g g t where
  next : s'.pNextAvailable = s.pNextAvailable
  keeps : Keeps s.mem s'.mem s.pNextAvailable
  slots : ∀ h, h ≠ g → slot s'.mem h = slot s.mem h
  empty : t.pNextAlloc = s.pNextAvailable
  notAdding : t.hAddingToTrans = sbmNull

/-- A record that is not in use, of the table or the next one below it, takes a transaction. -/
theorem Table.begun {extra : Nat} {ty : UInt8} (ht : Table s order 0 0) (hg : 1 ≤ g)
    (hextra : (g ≤ transAllocated s.mem ∧ (slot s.mem g).transLen = unused ∧ extra = 0) ∨
      (g = transAllocated s.mem + 1 ∧ extra = 12))
    (hleft : ¬bytesRemaining s.mem < extra + 1) :
    Begun s { s with
        mem := putTransaction s.mem (transAt s.mem g)
          ⟨0, (s.pNextAvailable % 2 ^ 32).toNat, ty.toNat⟩
        inProcess := some
          { pTrans := transAt s.mem g
            hAddingToTrans := sbmNull
            bytesRemaining := bytesRemaining s.mem - extra
            pNextAlloc := s.pNextAvailable
            pStart := s.pNextAvailable } }
      order g { pTrans := transAt s.mem g
                hAddingToTrans := sbmNull
                bytesRemaining := bytesRemaining s.mem - extra
                pNextAlloc := s.pNextAvailable
                pStart := s.pNextAvailable } := by
  have hfirst := ht.first
  have hroom := ht.room
  have hrem := ht.remaining
  have htable := ht.table
  have hsize := ht.size_lt
  have hlow : s.pNextAvailable ≤ transAt s.mem g := by
    rcases hextra with ⟨hle, -, -⟩ | ⟨rfl, rfl⟩
    · have := ht.le_transAt hle
      omega
    · unfold transAt
      omega
  have hat : 12 ≤ transAt s.mem g := by omega
  have hk := (keeps_putTransaction (m := s.mem)
    (t := ⟨0, (s.pNextAvailable % 2 ^ 32).toNat, ty.toNat⟩) hat).mono hlow
  have hfits : (⟨0, (s.pNextAvailable % 2 ^ 32).toNat, ty.toNat⟩ : Transaction).Fits := by
    have := ty.toNat_lt
    refine ⟨?_, ?_, ?_⟩ <;> dsimp only <;> omega
  have hself := slot_putTransaction_self hfits hat
  have hother : ∀ h, h ≠ g → slot (putTransaction s.mem (transAt s.mem g)
      ⟨0, (s.pNextAvailable % 2 ^ 32).toNat, ty.toNat⟩) h = slot s.mem h :=
    fun h hne => slot_putTransaction_of_ne hne hat
  have hnot : ∀ h ∈ order, h ≠ g := by
    rintro h hh rfl
    have hlive := (ht.live h).1 hh
    rcases hextra with ⟨-, hu, -⟩ | ⟨hg, -⟩
    · exact hlive.2.2.1 hu
    · omega
  refine
    { toTable := ht.congr rfl rfl (hk.mono hfirst) (fun h h₁ h₂ => ?_) fun h hh => ?_
      inProcess := rfl
      record := (hk.transAt g).symm
      spare := ⟨hg, ?_⟩
      adding := .inl ⟨rfl, rfl⟩
      start := rfl
      offset := ?_
      length := ?_
      left := ?_
      newAligned := ?_
      next := rfl
      keeps := hk
      slots := hother
      empty := rfl
      notAdding := rfl }
  · by_cases hne : h = g
    · subst hne
      rcases hextra with ⟨-, hu, -⟩ | ⟨hg, -⟩
      · simp [hu]
      · omega
    · rw [hother h hne]
      simp only [ne_eq, hne, not_false_eq_true, and_true]
      exact ⟨fun hl => ⟨hl, by omega⟩, fun hl => hl.1⟩
  · rw [home_same, home_same, hother h (hnot h hh)]
  · show g ≤ transAllocated _ + 1
    rw [hk.transAllocated]
    rcases hextra with ⟨h, -, -⟩ | ⟨h, -⟩ <;> omega
  · rw [hself]
    show (((s.pNextAvailable % 2 ^ 32).toNat : Nat) : Int) = s.pNextAvailable
    omega
  · rw [hself]
    simp
  · show ((bytesRemaining s.mem - extra : Nat) : Int) = _ - s.pNextAvailable
    unfold Globals.limit
    rw [show transAllocated _ = transAllocated s.mem from hk.transAllocated]
    split
    · rcases hextra with ⟨h, -, -⟩ | ⟨-, rfl⟩ <;> dsimp only <;> omega
    · rcases hextra with ⟨-, -, rfl⟩ | ⟨h, -⟩ <;> dsimp only <;> omega
  · rw [hself]
    exact Nat.zero_mod 4

/-- **`SBM_beginTrans` keeps the layout.** -/
theorem Table.open_beginTrans (ht : Table s order 0 0) (hidle : s.inProcess = none) (ty : UInt8)
    (osAlloc : Bool) :
    (∃ rc, s.beginTrans ty osAlloc = (s, .error rc)) ∨
      ∃ g t s', s.beginTrans ty osAlloc = (s', .ok g) ∧ Begun s s' order g t := by
  unfold Globals.beginTrans
  rw [if_neg (by rw [hidle]; decide)]
  dsimp only
  rw [ht.transAt_one]
  cases hf : findUnused s.mem (transAllocated s.mem) (transAt s.mem 1) with
  | some a =>
    obtain ⟨g, hg, hlt, rfl, hu⟩ := findUnused_some hf
    rw [if_neg (by simp)]
    dsimp only
    split
    · exact .inl ⟨_, rfl⟩
    rename_i hleft
    split
    · exact .inl ⟨_, rfl⟩
    rw [handle_transAt]
    exact .inr ⟨g, _, _, rfl, ht.begun hg (.inl ⟨by omega, hu, rfl⟩) hleft⟩
  | none =>
    split
    · exact .inl ⟨_, rfl⟩
    dsimp only
    split
    · exact .inl ⟨_, rfl⟩
    rename_i hleft
    split
    · exact .inl ⟨_, rfl⟩
    rw [ht.transAt_next, handle_transAt]
    exact .inr ⟨_, _, _, rfl, ht.begun (Nat.le_add_left ..) (.inr ⟨rfl, rfl⟩) hleft⟩

/-! ## `SBM_alloc` and `SBM_allocStringCopy` -/

theorem Open.not_mem (ho : Open s order p g t) : g ∉ order := fun hg => ho.mem_ne hg rfl

/-- The transaction in process has its record in the table, or in the next one below it. -/
theorem Open.handle (ho : Open s order p g t) : 1 ≤ p ∧ p ≤ transAllocated s.mem + 1 := by
  rcases ho.adding with ⟨rfl, -⟩ | ⟨hp, -⟩
  · exact ho.spare
  · have := (ho.live p).1 hp
    omega

theorem Open.limit_le (_ : Open s order p g t) : s.limit g ≤ s.pTransOffsets := by
  unfold Globals.limit
  split <;> omega

theorem Open.next_le (ho : Open s order p g t) :
    s.pNextAvailable ≤ t.pNextAlloc ∧ t.pNextAlloc ≤ s.limit g := by
  have := ho.length
  have := ho.left
  omega

/-- The records that are in use while a transaction is in process are beyond all allocations. -/
theorem Open.limit_le_transAt (ho : Open s order p g t)
    (hh : h ≤ transAllocated s.mem ∨ h = g ∨ h = p) : s.limit g ≤ transAt s.mem h := by
  have htable := ho.table
  have hle : ∀ k, k ≤ transAllocated s.mem ∨ k = g → s.limit g ≤ transAt s.mem k := by
    intro k hk
    have hspare := ho.spare
    unfold Globals.limit transAt
    split <;> omega
  rcases hh with hh | hh | rfl
  · exact hle h (.inl hh)
  · exact hle h (.inr hh)
  · rcases ho.adding with ⟨rfl, -⟩ | ⟨hp, -⟩
    · exact hle h (.inr rfl)
    · exact hle h (.inl ((ho.live h).1 hp).2.1)

theorem home_ne (hne : p ≠ g) : home p g h ≠ p := by
  unfold home
  split
  · exact hne.symm
  · assumption

/-- The committed record of a transaction is not the one of the transaction in process. -/
theorem Open.home_mem (ho : Open s order p g t) (hh : h ∈ order) : home p g h ≠ p := by
  rcases ho.adding with ⟨rfl, -⟩ | ⟨hp, -⟩
  · rw [home_same]
    exact ho.mem_ne hh
  · exact home_ne (ho.mem_ne hp)

theorem roundUp_mod (n : Nat) : Globals.roundUp n % 4 = 0 := by
  unfold Globals.roundUp
  split <;> omega

theorem le_roundUp (hn : n ≤ 2 ^ 32 - 4) : n ≤ Globals.roundUp n := by
  unfold Globals.roundUp
  split <;> omega

theorem roundUp_of_mod (hn : n % 4 = 0) : Globals.roundUp n = n := by
  unfold Globals.roundUp
  rw [if_neg (by omega)]

/-- `n` octets more for the transaction in process. -/
def TransactionInProcess.grow (t : TransactionInProcess) (n : Nat) : TransactionInProcess :=
  { t with bytesRemaining := t.bytesRemaining - n, pNextAlloc := t.pNextAlloc + n }

/-- What an allocation changes. -/
structure Extended (s s' : Globals) (order : List Nat) (p g : Nat) (t : TransactionInProcess)
    (n : Nat) : Prop extends Open s' order p g (t.grow n) where
  next : s'.pNextAvailable = s.pNextAvailable
  keeps : Keeps s.mem s'.mem (s.limit g)
  slots : ∀ h, h ≠ p → slot s'.mem h = slot s.mem h
  grown : slot s'.mem p =
    { slot s.mem p with transLen := (slot s.mem p).transLen + n }

/-- **An allocation keeps the layout.** -/
theorem Open.extend (ho : Open s order p g t) (hn : n ≤ t.bytesRemaining) (h4 : n % 4 = 0) :
    Extended s (s.extend t n) order p g t n := by
  have hfirst := ho.first
  have hle := ho.next_le
  have hlim := ho.limit_le
  have hlen := ho.length
  have hleft := ho.left
  have hsize := ho.size_lt
  have htable := ho.table
  have hlow := ho.limit_le_transAt (.inr (.inr rfl))
  have hat : 12 ≤ transAt s.mem p := by omega
  have hmem : (s.extend t n).mem =
      put32 s.mem (transAt s.mem p) ((slot s.mem p).transLen + n) := by
    unfold Globals.extend
    rw [ho.record]
    rfl
  have hk : Keeps s.mem (s.extend t n).mem (s.limit g) := by
    rw [hmem]
    exact (keeps_put32 hat).mono hlow
  have hself : slot (s.extend t n).mem p =
      { slot s.mem p with transLen := (slot s.mem p).transLen + n } := by
    rw [hmem, slot_putLen_self hat, Nat.mod_eq_of_lt (by omega)]
  have hother : ∀ h, h ≠ p → slot (s.extend t n).mem h = slot s.mem h := by
    intro h hne
    rw [hmem]
    exact slot_putLen_of_ne hne hat
  have hlimit : (s.extend t n).limit g = s.limit g := by
    unfold Globals.limit
    rw [hk.transAllocated]
    rfl
  have hused : (slot s.mem p).transLen + n ≠ unused ∧ (slot s.mem p).transLen ≠ unused := by
    unfold unused
    omega
  refine
    { toTable := ho.toTable.congr rfl rfl (hk.mono (by omega)) (fun h _ _ => ?_) fun h hh =>
        hother _ (ho.home_mem hh)
      inProcess := rfl
      record := ho.record.trans (hk.transAt p).symm
      spare := by
        rw [hk.transAllocated]
        exact ho.spare
      adding := ?_
      start := ho.start
      offset := by
        rw [hself]
        exact ho.offset
      length := ?_
      left := ?_
      newAligned := ?_
      next := rfl
      keeps := hk
      slots := hother
      grown := hself }
  · by_cases hne : h = p
    · subst hne
      rw [hself]
      simp [hused]
    · rw [hother h hne]
  · refine ho.adding.imp_right fun ⟨hp, hadd, hg⟩ => ⟨hp, hadd, ?_⟩
    rw [hother g (ho.mem_ne hp).symm]
    exact hg
  · rw [hself]
    show (((slot s.mem p).transLen + n : Nat) : Int) = t.pNextAlloc + n - s.pNextAvailable
    omega
  · rw [hlimit]
    show ((t.bytesRemaining - n : Nat) : Int) = s.limit g - (t.pNextAlloc + n)
    omega
  · rw [hself]
    have := ho.newAligned
    show ((slot s.mem p).transLen + n) % 4 = 0
    omega

/-- A change of octets between the header and the table keeps the layout. -/
theorem Open.store (m' : Memory) (ho : Open s order p g t)
    (hout : ∀ x, x < 12 ∨ s.limit g ≤ x → m' x = s.mem x) :
    Open { s with mem := m' } order p g t ∧ (∀ h, h ≤ transAllocated s.mem ∨ h = g ∨ h = p →
      slot m' h = slot s.mem h) := by
  have hsize : memSize m' = memSize s.mem := get32_congr fun x _ _ => hout x (by omega)
  have hrem : bytesRemaining m' = bytesRemaining s.mem :=
    get32_congr fun x _ _ => hout x (by omega)
  have hall : transAllocated m' = transAllocated s.mem :=
    get32_congr fun x _ _ => hout x (by omega)
  have hk : Keeps s.mem m' 12 := ⟨hsize, hrem, hall, fun x _ _ => by omega⟩
  have hslot : ∀ h, h ≤ transAllocated s.mem ∨ h = g ∨ h = p → slot m' h = slot s.mem h := by
    intro h hh
    have := ho.limit_le_transAt hh
    exact slot_congr hsize fun x _ _ => hout x (by omega)
  have hp := hslot p (.inr (.inr rfl))
  have hg := hslot g (.inr (.inl rfl))
  refine ⟨{ toTable := ho.toTable.congr rfl rfl hk (fun h _ hh => ?_) fun h hh => ?_
            inProcess := ho.inProcess
            record := ho.record.trans (hk.transAt p).symm
            spare := ?_
            adding := ?_
            start := ho.start
            offset := ?_
            length := ?_
            left := ?_
            newAligned := ?_ }, hslot⟩
  · rw [hslot h (.inl hh)]
  · refine hslot _ ?_
    unfold home
    split
    · exact .inr (.inl rfl)
    · exact .inl ((ho.live h).1 hh).2.1
  · rw [hall]
    exact ho.spare
  · rw [hg]
    exact ho.adding
  · rw [hp]
    exact ho.offset
  · rw [hp]
    exact ho.length
  · unfold Globals.limit
    rw [hall]
    exact ho.left
  · rw [hp]
    exact ho.newAligned

/-! ## `SBM_abortTrans` -/

theorem Open.spare_ne_null (ho : Open s order p g t) : g ≠ sbmNull := by
  have := ho.spare
  have := ho.table
  have := ho.first
  have := ho.room
  have := ho.size_lt
  unfold sbmNull
  omega

/-- No transaction is in process, and the committed ones are those of `s`. -/
structure Rest (s s' : Globals) (order : List Nat) (p g : Nat) : Prop where
  table : Table s' order 0 0
  idle : s'.inProcess = none
  next : s'.pNextAvailable = s.pNextAvailable
  octets : ∀ x, 12 ≤ x → x < s.pNextAvailable → s'.mem x = s.mem x
  slots : ∀ h ∈ order, slot s'.mem h = slot s.mem (home p g h)

theorem Table.rest (ht : Table s order 0 0) (hidle : s.inProcess = none) : Rest s s order 0 0 :=
  ⟨ht, hidle, rfl, fun _ _ _ => rfl, fun _ _ => by rw [home_same]⟩

/-- **`SBM_abortTrans` keeps the layout**, when the spare record of an addition is a new one, which
the table has not grown to. -/
theorem Open.abortTrans (ho : Open s order p g t)
    (hnew : t.hAddingToTrans ≠ sbmNull → transAllocated s.mem < t.hAddingToTrans) :
    ∃ s', s.abortTrans = (s', .ok ()) ∧ Rest s s' order p g := by
  have hfirst := ho.first
  have hlow : s.pNextAvailable ≤ transAt s.mem p := by
    have := ho.next_le
    have := ho.limit_le_transAt (.inr (.inr rfl))
    omega
  have hat : 12 ≤ transAt s.mem p := by omega
  unfold Globals.abortTrans
  rw [ho.inProcess]
  dsimp only
  refine ⟨_, rfl, ?_⟩
  rw [ho.record]
  rcases ho.adding with ⟨rfl, hnull⟩ | ⟨hp, hadd, hused⟩
  · rw [if_neg (by simpa using hnull)]
    have hk := (keeps_put32 (m := s.mem) (v := unused) hat).mono hlow
    have hother : ∀ h ∈ order, slot (put32 s.mem (transAt s.mem p) unused) h = slot s.mem h :=
      fun h hh => slot_putLen_of_ne (ho.mem_ne hh) hat
    refine ⟨ho.toTable.congr rfl rfl (hk.mono hfirst) (fun h h₁ _ => ?_) fun h hh => ?_, rfl, rfl,
      hk.octets, fun h hh => ?_⟩
    · by_cases hne : h = p
      · subst hne
        rw [slot_putLen_self hat]
        simp [unused]
      · rw [slot_putLen_of_ne hne hat]
        simp only [ne_eq, hne, not_false_eq_true, and_true]
        exact ⟨fun hl => hl.1, fun hl => ⟨hl, by omega⟩⟩
    · rw [home_same, home_same]
      exact hother h hh
    · rw [home_same]
      exact hother h hh
  · rw [if_pos (by rw [hadd]; exact ho.spare_ne_null), hadd]
    have hg : transAllocated s.mem < g := by
      have := hnew (by rw [hadd]; exact ho.spare_ne_null)
      omega
    have hne : p ≠ g := ho.mem_ne hp
    have hk := (keeps_putTransaction (m := s.mem) (t := slot s.mem g) hat).mono hlow
    have hslots : ∀ h, h ≠ g → slot (putTransaction s.mem (transAt s.mem p) (slot s.mem g)) h =
        slot s.mem (home p g h) := by
      intro h hh
      by_cases hhp : h = p
      · subst hhp
        rw [home_self, slot_putTransaction_self (slot_fits ..) hat]
      · rw [home_of_ne hhp, slot_putTransaction_of_ne hhp hat]
    refine ⟨ho.toTable.congr rfl rfl (hk.mono hfirst) (fun h h₁ h₂ => ?_) fun h hh => ?_, rfl, rfl,
      hk.octets, fun h hh => hslots h (ho.mem_ne hh)⟩
    · have hgne : h ≠ g := by omega
      show (slot (putTransaction s.mem (transAt s.mem p) (slot s.mem g)) h).transLen ≠ unused ∧
        h ≠ 0 ↔ _
      rw [hslots h hgne]
      by_cases hhp : h = p
      · subst hhp
        rw [home_self]
        exact ⟨fun _ => ⟨((ho.live h).1 hp).2.2.1, hgne⟩, fun _ => ⟨hused, by omega⟩⟩
      · rw [home_of_ne hhp]
        exact ⟨fun hl => ⟨hl.1, hgne⟩, fun hl => ⟨hl.1, by omega⟩⟩
    · rw [home_same]
      exact hslots h (ho.mem_ne hh)

/-! ## `SBM_addToTrans` -/

/-- The records of a committed transaction and of the one in process are swapped. -/
theorem Open.swap (ho : Open s order g g t) (hh : h ∈ order)
    (hlen : (slot s.mem g).transLen ≠ unused)
    {t' : TransactionInProcess}
    (ht' : t' = { t with pTrans := transAt s.mem h, hAddingToTrans := g })
    (hm' : m' = putTransaction (putTransaction s.mem (transAt s.mem g) (slot s.mem h))
      (transAt s.mem h) (slot s.mem g)) :
    Open { s with mem := m', inProcess := some t' } order h g t' ∧
      Keeps s.mem m' (s.limit g) ∧ slot m' h = slot s.mem g ∧ slot m' g = slot s.mem h ∧
      ∀ k, k ≠ h → k ≠ g → slot m' k = slot s.mem k := by
  have hfirst := ho.first
  have hne := ho.mem_ne hh
  have hlive := (ho.live h).1 hh
  have hlow := ho.limit_le_transAt (.inr (.inl rfl))
  have hlow' := ho.limit_le_transAt (.inl hlive.2.1)
  have hle := ho.next_le
  have hatg : 12 ≤ transAt s.mem g := by omega
  have hath : 12 ≤ transAt s.mem h := by omega
  have hk₁ := keeps_putTransaction (m := s.mem) (t := slot s.mem h) hatg
  have hk₂ := keeps_putTransaction
    (m := putTransaction s.mem (transAt s.mem g) (slot s.mem h)) (t := slot s.mem g) hath
  have hk : Keeps s.mem m' (s.limit g) := by
    rw [hm']
    exact (hk₁.mono hlow).trans (hk₂.mono hlow')
  have hath' := hath
  rw [← hk₁.transAt h] at hath' hm'
  have hsh : slot m' h = slot s.mem g := by
    rw [hm', slot_putTransaction_self (slot_fits ..) hath']
  have hsg : slot m' g = slot s.mem h := by
    rw [hm', slot_putTransaction_of_ne hne.symm hath', slot_putTransaction_self (slot_fits ..) hatg]
  have hother : ∀ k, k ≠ h → k ≠ g → slot m' k = slot s.mem k := by
    intro k hkh hkg
    rw [hm', slot_putTransaction_of_ne hkh hath', slot_putTransaction_of_ne hkg hatg]
  have hlimit : Globals.limit { s with mem := m', inProcess := some t' } g = s.limit g := by
    unfold Globals.limit
    rw [hk.transAllocated]
  refine ⟨{ toTable := ho.toTable.congr rfl rfl (hk.mono (by omega)) (fun k _ _ => ?_) fun k hk => ?_
            inProcess := rfl
            record := ?_
            spare := ?_
            adding := .inr ⟨hh, ?_, ?_⟩
            start := ?_
            offset := ?_
            length := ?_
            left := ?_
            newAligned := ?_ }, hk, hsh, hsg, hother⟩
  · by_cases hkg : k = g
    · simp [hkg]
    by_cases hkh : k = h
    · subst hkh
      rw [hsh]
      simp [hlen, hlive.2.2.1]
    · rw [hother k hkh hkg]
  · rw [home_same]
    by_cases hkh : k = h
    · subst hkh
      rw [home_self]
      exact hsg
    · rw [home_of_ne hkh]
      exact hother k hkh (ho.mem_ne hk)
  · rw [ht', hk.transAt]
  · rw [hk.transAllocated]
    exact ho.spare
  · rw [ht']
  · rw [hsg]
    exact hlive.2.2.1
  · rw [ht']
    exact ho.start
  · rw [hsh]
    exact ho.offset
  · rw [hsh, ht']
    exact ho.length
  · rw [hlimit, ht']
    exact ho.left
  · rw [hsh]
    exact ho.newAligned

/-- `SBM_addToTrans` has copied the transaction `h`, whose original is in the record `g`. -/
structure Added (s s' : Globals) (order : List Nat) (h g : Nat) (t : TransactionInProcess) : Prop
    extends Open s' order h g t where
  next : s'.pNextAvailable = s.pNextAvailable
  octets : ∀ x, 12 ≤ x → x < s.pNextAvailable → s'.mem x = s.mem x
  slots : ∀ k ∈ order, slot s'.mem (home h g k) = slot s.mem k
  copy : content s'.mem h = content s.mem h

theorem getMemPointer_first (m : Memory) (h : Nat) : getMemPointer m h sbmNull = (slot m h).offset := by
  unfold getMemPointer
  rw [if_pos rfl]
  exact Int.add_zero _

/-- The copy of a transaction behind all others, and the swap of the records. -/
theorem Begun.copy {s₁ : Globals} (ht : Table s order 0 0) (hb : Begun s s₁ order g t)
    (hh : h ∈ order) (hn : (slot s.mem h).transLen ≤ t.bytesRemaining) {s₂ s₃ : Globals}
    (h₂ : s₂ = s₁.extend t (slot s.mem h).transLen)
    (hm : m = move s₂.mem (getMemPointer s₂.mem g sbmNull) (getMemPointer s₂.mem h sbmNull)
      (transLen s₂.mem (transAt s.mem h)))
    (h₃ : s₃ = { s₂ with
      mem := putTransaction (putTransaction m (transAt m g) (getTransaction m (transAt s.mem h)))
        (transAt s.mem h) (getTransaction m (transAt m g))
      inProcess := some { t.grow (slot s.mem h).transLen with
        pTrans := transAt s.mem h
        hAddingToTrans := g } }) :
    ∃ t', Added s s₃ order h g t' := by
  have hfirst := ht.first
  have hne : h ≠ g := hb.mem_ne hh
  have hbounds := ht.bounds hh
  have haligned := ht.aligned h hh
  rw [home_same] at hbounds haligned
  have he := hb.toOpen.extend hn haligned
  rw [← h₂] at he
  have hle := he.next_le
  have hlim := he.limit_le
  have hslot₂ : slot s₂.mem h = slot s.mem h := by rw [he.slots h hne, hb.slots h hne]
  have hat₂ : transAt s₂.mem h = transAt s.mem h := (he.keeps.transAt h).trans (hb.keeps.transAt h)
  rw [getMemPointer_first, getMemPointer_first, ← hat₂,
    show transLen s₂.mem (transAt s₂.mem h) = (slot s.mem h).transLen by rw [← hslot₂]; rfl] at hm
  have hnext : s₂.pNextAvailable = s.pNextAvailable := he.next.trans hb.next
  have hoff := he.offset
  have hlen := he.length
  have hgrown := he.grown
  have hempty := hb.length
  rw [hb.empty, hb.next] at hempty
  have hlen₂ : (slot s₂.mem g).transLen = (slot s.mem h).transLen := by
    rw [hgrown]
    show (slot s₁.mem g).transLen + (slot s.mem h).transLen = (slot s.mem h).transLen
    omega
  have hout : ∀ x, x < 12 ∨ s₂.limit g ≤ x → m x = s₂.mem x := by
    intro x hx
    rw [hm, hslot₂]
    exact move_of_outside (by omega)
  obtain ⟨hmoved, hslots⟩ := he.toOpen.store _ hout
  have hused : (slot m g).transLen ≠ unused := by
    rw [hslots g (.inr (.inl rfl)), hlen₂]
    exact ((ht.live h).1 hh).2.2.1
  have hall : transAllocated m = transAllocated s₂.mem := get32_congr fun x _ _ => hout x (by omega)
  have hat : transAt m h = transAt s.mem h := by
    unfold transAt at hat₂ ⊢
    rw [← hat₂, show memSize m = memSize s₂.mem from get32_congr fun x _ _ => hout x (by omega)]
  rw [← hat] at h₃
  have hmem : ∀ k ∈ order, slot m k = slot s.mem k := by
    intro k hk
    have hkg := hb.mem_ne hk
    rw [hslots k (.inl ((he.live k).1 hk).2.1), he.slots k hkg, hb.slots k hkg]
  have hmem₃ : s₃.mem = putTransaction (putTransaction m (transAt m g) (slot m h)) (transAt m h)
      (slot m g) := by
    rw [h₃]
    rfl
  obtain ⟨hopen, hkeeps, hsh, hsg, hother⟩ := hmoved.swap hh hused rfl hmem₃
  have hs₃ : { s₂ with mem := s₃.mem, inProcess := s₃.inProcess } = s₃ := by rw [h₃]
  have hnext₃ : s₃.pNextAvailable = s.pNextAvailable := by
    rw [h₃]
    exact hnext
  refine ⟨{ t.grow (slot s.mem h).transLen with pTrans := transAt m h, hAddingToTrans := g },
    { toOpen := ?_, next := hnext₃, octets := ?_, slots := ?_, copy := ?_ }⟩
  · rw [← hs₃, show s₃.inProcess = _ from congrArg Globals.inProcess h₃]
    exact hopen
  · intro x h₁ h₂
    have hle' : s₂.pNextAvailable ≤ Globals.limit { s₂ with mem := m } g :=
      Int.le_trans hmoved.next_le.1 hmoved.next_le.2
    refine (hkeeps.octets x h₁ (by omega)).trans ?_
    show m x = s.mem x
    rw [hm, hslot₂, move_of_outside (by omega), he.keeps.octets x h₁ ?_,
      hb.keeps.octets x h₁ (by omega)]
    have := hb.next_le
    have := hb.next
    omega
  · intro k hk
    by_cases hkh : k = h
    · subst hkh
      rw [home_self]
      exact hsg.trans (hmem k hh)
    · rw [home_of_ne hkh]
      exact (hother k hkh (hb.mem_ne hk)).trans (hmem k hk)
  · have hg : slot m g = slot s₂.mem g := hslots g (.inr (.inl rfl))
    unfold content
    rw [show slot _ h = slot s₂.mem g from hsh.trans hg, hlen₂]
    refine read_congr fun k hk => ?_
    have hlow : s₂.limit g = Globals.limit { s₂ with mem := m } g := by
      unfold Globals.limit
      rw [hall]
    rw [hlen₂] at hlen
    refine (hkeeps.octets ((slot s₂.mem g).offset + k) (by omega) (by omega)).trans ?_
    show m ((slot s₂.mem g).offset + k) = _
    rw [hm, hslot₂, move_of_inside (by omega) (by omega),
      show ((slot s₂.mem g).offset : Int) + k - (slot s₂.mem g).offset + (slot s.mem h).offset =
        (slot s.mem h).offset + k by omega]
    have := hb.next_le
    have := hb.next
    rw [he.keeps.octets _ (by omega) (by omega), hb.keeps.octets _ (by omega) (by omega)]

/-- **`SBM_addToTrans` keeps the layout**, and the copy has the octets of the original. -/
theorem Table.addToTrans (ht : Table s order 0 0) (hidle : s.inProcess = none) (hh : h ∈ order)
    (osAlloc : Bool) :
    (∃ rc s', s.addToTrans h osAlloc = (s', .error rc) ∧ Rest s s' order 0 0) ∨
      ∃ g t s', s.addToTrans h osAlloc = (s', .ok ()) ∧ Added s s' order h g t := by
  unfold Globals.addToTrans
  rw [if_neg (by rw [hidle]; decide)]
  dsimp only
  rcases ht.open_beginTrans hidle (.ofNat (transactionType s.mem (transAt s.mem h))) osAlloc with
    ⟨rc, he⟩ | ⟨g, t, s₁, he, hb⟩
  · rw [he]
    exact .inl ⟨rc, s, rfl, ht.rest hidle⟩
  rw [he]
  dsimp only
  have hne : h ≠ g := hb.mem_ne hh
  have hlen : transLen s₁.mem (transAt s.mem h) = (slot s.mem h).transLen := by
    rw [← hb.keeps.transAt h]
    show (slot s₁.mem h).transLen = _
    rw [hb.slots h hne]
  have haligned := ht.aligned h hh
  rw [home_same] at haligned
  unfold Globals.alloc
  rw [hb.inProcess, hlen, roundUp_of_mod haligned]
  dsimp only
  split
  · rename_i r s₂ rc hr
    split at hr
    · cases hr
      left
      obtain ⟨s', ha, hrest⟩ := hb.toOpen.abortTrans fun h => (h hb.notAdding).elim
      rw [ha]
      refine ⟨_, s', rfl, hrest.table, hrest.idle, hrest.next.trans hb.next, fun x h₁ h₂ => ?_,
        fun k hk => ?_⟩
      · rw [hrest.octets x h₁ (by rw [hb.next]; exact h₂), hb.keeps.octets x h₁ h₂]
      · rw [hrest.slots k hk, home_same, home_same, hb.slots k (hb.mem_ne hk)]
    · cases hr
  · rename_i r s₂ n hr
    split at hr
    · cases hr
    · rename_i hn
      cases hr
      right
      obtain ⟨t', ha⟩ := hb.copy ht hh (Nat.not_lt.1 hn) rfl rfl rfl
      exact ⟨g, t', _, rfl, ha⟩

end Sbm
