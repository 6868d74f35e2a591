import Emsd.Sbm.Steps
import Emsd.Lib.Run
import Mathlib.Data.List.Nodup

/-!
# Relocation and accounting

* `relocation_transparent`: **transactions do not overlap, and every call does to the contents what it
  is for**, in runs that do not move too many octets at once, do not end an addition in a new record of
  the table, and do not give up a transaction or an addition that has taken a record of the table.
* `reopening`: **the header says where everything is** when no transaction is in process, so that the
  block can be opened again.
* `gap_not_closed`, `addition_unaccounted`: what happens otherwise.
-/

namespace Sbm

open Octets Tiling Run

variable {s : Globals} {order : List Nat} {p g : Nat}

/-! ## Runs -/

/-- A block is opened for the first time, and the module is called. -/
def system : Sys Globals Input Out where
  init s := ∃ (m : Memory) (memSize : UInt32), 12 ≤ roundDown memSize.toNat ∧
    s = openBlock m memSize.toNat
  step s i := some ((s.step i).1, [(s.step i).2])

/-- A block of `memSize` octets, all of them zero at first. -/
def blank (memSize : Nat) : Globals := openBlock (fun _ => 0) memSize

/-- Two transactions, of which the second is added to after the first is gone, in its record. -/
def additionRun : List Input :=
  [.beginTrans 1 true, .alloc 8, .endTrans, .beginTrans 2 true, .allocStringCopy (some [72, 105]),
    .endTrans, .freeTrans 1, .addToTrans 2 true, .alloc 4, .endTrans]

theorem sound_reach {l : List Out} (hr : Reach system Globals.Accounted l s) : Sound s := by
  refine hr.invariant ?_ fun s i t o hs hc he => ?_
  · rintro _ ⟨m, memSize, hsize, rfl⟩
    exact .inl ⟨[], openBlock_fresh m hsize memSize.toNat_lt, rfl⟩
  · obtain ⟨rfl, -⟩ := Prod.mk.inj (Option.some.inj he)
    exact (hs.step hc).sound

/-- The first octet of the committed octets of a transaction, and the one after the last. -/
def Globals.region (s : Globals) (h : Nat) : Int × Int :=
  ((slot s.mem (s.record h)).offset,
    (slot s.mem (s.record h)).offset + (slot s.mem (s.record h)).transLen)

/-- Transactions overlap neither each other nor the header or the table, whose records are those up
to `transAllocated` and the one that is to be added. -/
structure Apart (s : Globals) : Prop where
  header : ∀ h, s.Live h → 12 ≤ (s.region h).1
  committed : ∀ h, s.Live h → (s.region h).2 ≤ s.pNextAvailable
  each : ∀ h k, s.Live h → s.Live k → h ≠ k →
    (s.region h).2 ≤ (s.region k).1 ∨ (s.region k).2 ≤ (s.region h).1
  table : ∀ k, 1 ≤ k → k ≤ transAllocated s.mem → s.pNextAvailable ≤ transAt s.mem k
  inProcess : s.inProcess.isSome → ((slot s.mem s.opened).offset : Int) = s.pNextAvailable ∧
    ∀ k, (1 ≤ k ∧ k ≤ transAllocated s.mem) ∨ k = s.opened ∨ k = s.spare →
      ((slot s.mem s.opened).offset : Int) + (slot s.mem s.opened).transLen ≤ transAt s.mem k

theorem Laid.apart (hl : Laid s order p g)
    (hin : s.inProcess.isSome → ∃ t, Open s order p g t) : Apart s := by
  have hroom := hl.table.room
  have hregion : ∀ h, s.region h = (((slot s.mem (home p g h)).offset : Int),
      ((slot s.mem (home p g h)).offset : Int) + (slot s.mem (home p g h)).transLen) := by
    intro h
    unfold Globals.region Globals.record
    rw [hl.opened, hl.spare]
  refine ⟨fun h hh => ?_, fun h hh => ?_, fun h k hh hk hne => ?_, fun k _ hk => ?_, fun hb => ?_⟩
  · rw [hregion]
    exact (hl.table.bounds (hl.live.1 hh)).1
  · rw [hregion]
    exact (hl.table.bounds (hl.live.1 hh)).2
  · rw [hregion, hregion]
    exact hl.table.tiled.apart (hl.live.1 hh) (hl.live.1 hk) hne
  · have := hl.table.le_transAt hk
    omega
  · obtain ⟨t, ho⟩ := hin hb
    have hlen := ho.length
    have hoff := ho.offset
    have hle := ho.next_le
    rw [hl.opened, hl.spare]
    refine ⟨hoff, fun k hk => ?_⟩
    have := ho.limit_le_transAt (h := k) (by omega)
    omega

theorem Sound.apart (hs : Sound s) : Apart s := by
  rcases hs with ⟨order, ht, hidle⟩ | ⟨order, p, g, t, ho⟩
  · exact (ht.laid hidle).apart fun hb => by simp [hidle] at hb
  · exact ho.laid.apart fun _ => ⟨t, ho⟩

/-- **Relocation is transparent.** In a run whose calls all conform, transactions never overlap, and
each further such call does to the octets that are read through `SBM_getMemPointer` what it is for. -/
theorem relocation_transparent {l : List Out} (hr : Reach system Globals.Conforms l s) :
    Apart s ∧ ∀ i, s.Conforms i → Transacts s.contents i (s.step i).2 (s.step i).1.contents := by
  have hs : Sound s := sound_reach (hr.mono fun _ _ hc => hc.1)
  exact ⟨hs.apart, fun i hc => (hs.step hc.1).transacts hc⟩

theorem relocation_transparent_addition :
    ∃ s : Globals, s.lives = [2] ∧ (octets s.mem 2).take 3 = [72, 105, 0] ∧
      Apart s ∧ ∀ i, s.Conforms i → Transacts s.contents i (s.step i).2 (s.step i).1.contents := by
  obtain ⟨s, l, hr, hp⟩ := Reach.of_run (S := system)
    (b := fun s i => decide (s.Conforms i)) (fun s i (h : decide (s.Conforms i) = true) => of_decide_eq_true h)
    ⟨fun _ => 0, 200, by decide, rfl⟩ additionRun
    (fun s _ => decide (s.lives = [2] ∧ (octets s.mem 2).take 3 = [72, 105, 0])) (by decide +kernel)
  obtain ⟨h₁, h₂⟩ := of_decide_eq_true hp
  exact ⟨s, h₁, h₂, relocation_transparent hr⟩

/-- Of the 70000 octets behind the transaction that is freed, not all are moved. -/
theorem gap_not_closed : ∃ (s : Globals) (l : List Out), Reach system Run.any l s ∧
    s.inProcess = none ∧ s.Live 1 ∧ s.Live 2 ∧ 69999 < (slot s.mem 2).transLen ∧
    (s.step (.freeTrans 1)).1.mem (getMemPointer (s.step (.freeTrans 1)).1.mem 2 69999) ≠
      s.mem (getMemPointer s.mem 2 69999) := by
  obtain ⟨s, l, hr, hp⟩ := Reach.of_run_any (S := system) (s := blank 140000)
    ⟨fun _ => 0, 140000, by decide, rfl⟩
    [.beginTrans 1 true, .alloc 4, .endTrans, .beginTrans 1 true, .alloc 70000,
      .store 2 69999 [7], .endTrans]
    (fun s _ => decide (s.inProcess = none ∧ s.Live 1 ∧ s.Live 2 ∧
      69999 < (slot s.mem 2).transLen ∧
      (s.step (.freeTrans 1)).1.mem (getMemPointer (s.step (.freeTrans 1)).1.mem 2 69999) ≠
        s.mem (getMemPointer s.mem 2 69999))) (by decide +kernel)
  exact ⟨s, l, hr, of_decide_eq_true hp⟩

/-! ## Accounting -/

theorem Laid.lives_perm (hl : Laid s order p g) : s.lives.Perm order := by
  unfold Globals.lives
  refine (List.perm_ext_iff_of_nodup (List.Nodup.filter _ List.nodup_range') hl.table.nodup).2 fun h => ?_
  rw [List.mem_filter, List.mem_range'_1, decide_eq_true_iff, hl.live]
  refine ⟨And.right, fun hh => ⟨?_, hh⟩⟩
  have := (hl.table.live h).1 hh
  omega

/-- **The header says where everything is**: in a run whose calls keep the accounts, when no
transaction is in process, `bytesRemaining` is the distance from the end of the transactions to the
table and what the header, the transactions and the table leave of the memory, and the block that is
opened again is the one that was closed. -/
theorem reopening {l : List Out} (hr : Reach system Globals.Accounted l s)
    (hidle : s.inProcess = none) :
    (bytesRemaining s.mem : Int) = s.pTransOffsets - s.pNextAvailable ∧
      (bytesRemaining s.mem : Int) = memSize s.mem - 12 -
        ((s.lives.map fun h => (slot s.mem h).transLen).sum : Nat) - 12 * transAllocated s.mem ∧
      (openBlock s.mem 0).pNextAvailable = s.pNextAvailable ∧
      (openBlock s.mem 0).pTransOffsets = s.pTransOffsets ∧
      (openBlock s.mem 0).contents = s.contents := by
  rcases sound_reach hr with ⟨order, ht, -⟩ | ⟨order, p, g, t, ho⟩
  · have hopen := ht.openBlock_zero 0 rfl
    have hsame : ({ s with inProcess := none } : Globals) = s := by rw [← hidle]
    rw [hopen, hsame]
    have hrem := ht.remaining
    have htable := ht.table
    have hsum : s.pNextAvailable = 12 + ((s.lives.map fun h => (slot s.mem h).transLen).sum : Nat) := by
      rw [((ht.laid hidle).lives_perm.map _).sum_eq]
      have := ht.tiled.sum
      simpa only [home_same] using this
    exact ⟨hrem, by omega, rfl, rfl, rfl⟩
  · rw [ho.inProcess] at hidle
    cases hidle

theorem reopening_addition :
    ∃ s : Globals, s.inProcess = none ∧ s.pNextAvailable = 20 ∧
      (bytesRemaining s.mem : Int) = s.pTransOffsets - s.pNextAvailable ∧
      (bytesRemaining s.mem : Int) = memSize s.mem - 12 -
        ((s.lives.map fun h => (slot s.mem h).transLen).sum : Nat) - 12 * transAllocated s.mem ∧
      (openBlock s.mem 0).pNextAvailable = s.pNextAvailable ∧
      (openBlock s.mem 0).pTransOffsets = s.pTransOffsets ∧
      (openBlock s.mem 0).contents = s.contents := by
  obtain ⟨s, l, hr, hp⟩ := Reach.of_run (S := system)
    (b := fun s i => decide (s.Accounted i)) (fun s i (h : decide (s.Accounted i) = true) => of_decide_eq_true h)
    ⟨fun _ => 0, 200, by decide, rfl⟩ additionRun
    (fun s _ => decide (s.inProcess = none ∧ s.pNextAvailable = 20)) (by decide +kernel)
  obtain ⟨h₁, h₂⟩ := of_decide_eq_true hp
  exact ⟨s, h₁, h₂, reopening hr h₁⟩

/-- An addition in a new record of the table leaves `bytesRemaining` 12 short, so that the block that
is opened again has another `pNextAvailable`. -/
theorem addition_unaccounted : ∃ (s : Globals) (l : List Out), Reach system Run.any l s ∧
    s.inProcess = none ∧ (bytesRemaining s.mem : Int) ≠ s.pTransOffsets - s.pNextAvailable ∧
    (openBlock s.mem 0).pNextAvailable ≠ s.pNextAvailable := by
  obtain ⟨s, l, hr, hp⟩ := Reach.of_run_any (S := system) (s := blank 100)
    ⟨fun _ => 0, 100, by decide, rfl⟩
    [.beginTrans 1 true, .alloc 16, .endTrans, .addToTrans 1 true, .alloc 4, .endTrans]
    (fun s _ => decide (s.inProcess = none ∧
      (bytesRemaining s.mem : Int) ≠ s.pTransOffsets - s.pNextAvailable ∧
      (openBlock s.mem 0).pNextAvailable ≠ s.pNextAvailable)) (by decide +kernel)
  exact ⟨s, l, hr, of_decide_eq_true hp⟩

end Sbm
