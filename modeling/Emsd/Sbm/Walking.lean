import Emsd.Lib.Walk
import Emsd.Sbm.Aborting

/-!
# Every transaction once (`sbm.c`)

* `enumeration_iff`: **from `SBM_FIRST` on, `SBM_nextTrans` visits every transaction of a type once and
  then fails, and `SBM_prevTrans` goes back along the same way**, if and only if no transaction of the
  type has the handle 65535 or a greater one.
* `enumeration_endless`: with 65535 transactions the walk begins again after the last of them.
-/

namespace Sbm

open Octets Tiling Run Walk

variable {m : Memory} {s s' : Globals} {order : List Nat} {g h i k n : Nat} {ty : UInt8}

/-- The record of `h` is in use, and of the type. -/
def isType (m : Memory) (ty : UInt8) (h : Nat) : Bool :=
  (slot m h).transLen ≠ unused ∧ (slot m h).transactionType = ty.toNat

/-- `h` is a transaction of the type. -/
def Globals.OfType (s : Globals) (ty : UInt8) (h : Nat) : Prop :=
  s.Live h ∧ (slot s.mem h).transactionType = ty.toNat

instance (s : Globals) (ty : UInt8) (h : Nat) : Decidable (s.OfType ty h) :=
  inferInstanceAs (Decidable (_ ∧ _))

/-- From `SBM_FIRST` on, `SBM_nextTrans` gives each transaction of the type once and then fails;
`SBM_prevTrans` gives the one that was given before, and fails on the first. -/
structure Enumerated (s : Globals) (ty : UInt8) (l : List Nat) : Prop where
  visits : Visits (s.nextTrans ty) sbmNull l
  nodup : l.Nodup
  mem : ∀ h, h ∈ l ↔ s.OfType ty h
  back : ∀ l₁ h l₂, l = l₁ ++ h :: l₂ → s.prevTrans ty h = l₁.getLast?

/-! ## The two loops -/

theorem isType_iff : isType m ty h = true ↔
    transLen m (transAt m h) ≠ unused ∧ transactionType m (transAt m h) = ty.toNat :=
  decide_eq_true_iff

theorem findType_eq (m : Memory) (ty : UInt8) (k i : Nat) :
    findType m ty k i (transAt m i) = (List.range' i k).find? (isType m ty) := by
  induction k generalizing i with
  | zero => rfl
  | succ k ih =>
    have hdown : transAt m i - 12 = transAt m (i + 1) := by
      unfold transAt
      omega
    unfold findType
    rw [hdown, ih, List.range'_succ]
    split
    · rename_i hi
      exact (List.find?_cons_of_pos (isType_iff.2 hi)).symm
    · rename_i hi
      exact (List.find?_cons_of_neg (mt isType_iff.1 hi)).symm

theorem findTypeBack_eq (m : Memory) (ty : UInt8) (i : Nat) :
    findTypeBack m ty i (transAt m i) = (List.range' 1 i).reverse.find? (isType m ty) := by
  induction i with
  | zero => rfl
  | succ i ih =>
    have hup : transAt m (i + 1) + 12 = transAt m i := by
      unfold transAt
      omega
    unfold findTypeBack
    rw [hup, ih, List.range'_1_concat, List.reverse_append, List.reverse_singleton,
      List.singleton_append, Nat.add_comm 1 i]
    split
    · rename_i hi
      exact (List.find?_cons_of_pos (isType_iff.2 hi)).symm
    · rename_i hi
      exact (List.find?_cons_of_neg (mt isType_iff.1 hi)).symm

/-- The search begins after the handle, as far as that is counted in 16 bits. -/
theorem Table.nextTrans_eq (ht : Table s order 0 0) (ty : UInt8) (h : Nat) :
    s.nextTrans ty h = (List.range' ((h % 2 ^ 16 + 1) % 2 ^ 16)
        (transAllocated s.mem + 1 - (h % 2 ^ 16 + 1) % 2 ^ 16)).find? (isType s.mem ty) ∨
      h = sbmNull := by
  by_cases hh : h = sbmNull
  · exact .inr hh
  · left
    have hat : s.pTransOffsets + 12 * ((transAllocated s.mem : Int) -
        ((h % 2 ^ 16 + 1) % 2 ^ 16 : Nat)) = transAt s.mem ((h % 2 ^ 16 + 1) % 2 ^ 16) := by
      rw [ht.table]
      unfold transAt
      omega
    unfold Globals.nextTrans
    rw [if_neg hh]
    dsimp only
    rw [hat, findType_eq]

theorem Table.nextTrans_first (ht : Table s order 0 0) (ty : UInt8) :
    s.nextTrans ty sbmNull = (List.range' 1 (transAllocated s.mem)).find? (isType s.mem ty) := by
  have hat : s.pTransOffsets + 12 * ((transAllocated s.mem : Int) - (1 : Nat)) = transAt s.mem 1 := by
    rw [ht.table]
    unfold transAt
    omega
  unfold Globals.nextTrans
  rw [if_pos rfl]
  dsimp only
  rw [hat, findType_eq, Nat.add_sub_cancel]

theorem Table.nextTrans_of_lt (ht : Table s order 0 0) (ty : UInt8) (hh : h < 65535) :
    s.nextTrans ty h =
      (List.range' (h + 1) (transAllocated s.mem - h)).find? (isType s.mem ty) := by
  have hoff : (h % 2 ^ 16 + 1) % 2 ^ 16 = h + 1 := by omega
  have hlen : transAllocated s.mem + 1 - (h + 1) = transAllocated s.mem - h := by omega
  rcases ht.nextTrans_eq ty h with he | rfl
  · rw [he, hoff, hlen]
  · unfold sbmNull at hh
    omega

theorem Table.prevTrans_of_lt (ht : Table s order 0 0) (ty : UInt8) (h1 : 1 ≤ h) (hh : h < 65536) :
    s.prevTrans ty h = (List.range' 1 (h - 1)).reverse.find? (isType s.mem ty) := by
  have hoff : (h % 2 ^ 16 + (2 ^ 16 - 1)) % 2 ^ 16 = h - 1 := by omega
  have hat : s.pTransOffsets + 12 * ((transAllocated s.mem : Int) - (h - 1 : Nat)) =
      transAt s.mem (h - 1) := by
    rw [ht.table]
    unfold transAt
    omega
  unfold Globals.prevTrans
  rw [if_neg (by unfold sbmNull; omega), hoff]
  dsimp only
  rw [hat, findTypeBack_eq]

/-! ## The walk -/

/-- The transactions of a type, in the order of their records. -/
def Globals.ofType (s : Globals) (ty : UInt8) : List Nat :=
  (List.range' 1 (transAllocated s.mem)).filter (isType s.mem ty)

theorem mem_ofType (hidle : s.inProcess = none) : h ∈ s.ofType ty ↔ s.OfType ty h := by
  have hspare : s.spare = 0 := by
    unfold Globals.spare
    rw [hidle]
  unfold Globals.ofType Globals.OfType Globals.Live isType
  rw [List.mem_filter, List.mem_range'_1, decide_eq_true_iff, hspare]
  omega

/-- **With small handles the walk is the list of the transactions of the type.** -/
theorem Table.enumerated (ht : Table s order 0 0) (hidle : s.inProcess = none)
    (hlt : ∀ h, s.OfType ty h → h < 65535) : Enumerated s ty (s.ofType ty) where
  visits := by
    refine visits_filter (ht.nextTrans_first ty) fun g hg hk hp => ?_
    have hmem : g ∈ s.ofType ty := List.mem_filter.2 ⟨List.mem_range'_1.2 ⟨hg, hk⟩, hp⟩
    rw [ht.nextTrans_of_lt ty (hlt g ((mem_ofType hidle).1 hmem))]
    congr 2
    omega
  nodup := List.Nodup.filter _ List.nodup_range'
  mem _ := mem_ofType hidle
  back l₁ h l₂ hl := by
    have hmem : h ∈ s.ofType ty := by
      rw [hl]
      exact List.mem_append_right l₁ List.mem_cons_self
    have h1 := (List.mem_range'_1.1 (List.mem_filter.1 hmem).1).1
    have hsmall := hlt h ((mem_ofType hidle).1 hmem)
    rw [ht.prevTrans_of_lt ty h1 (by omega), filter_before hl, List.getLast?_filter]

/-- A walk ends at a handle below 65535: from a greater one the search begins no later than there. -/
theorem Table.last_lt (ht : Table s order 0 0) (hg : s.OfType ty g)
    (hfail : s.nextTrans ty g = none) : g < 65535 := by
  obtain ⟨⟨h1, hle, hlive, -⟩, hty⟩ := hg
  rcases ht.nextTrans_eq ty g with he | rfl
  · by_contra hbig
    rw [he] at hfail
    have hnot := List.find?_eq_none.1 hfail g (List.mem_range'_1.2 ⟨by omega, by omega⟩)
    exact hnot (isType_iff.2 ⟨hlive, hty⟩)
  · have := ht.size_lt
    have := ht.table
    have := ht.first
    have := ht.room
    unfold sbmNull at hle
    omega

/-- The walk that ends has met no handle from 65535 on. -/
theorem Table.enumerated_lt {l : List Nat} (ht : Table s order 0 0) (he : Enumerated s ty l)
    (hh : s.OfType ty h) : h < 65535 := by
  cases hlast : l.getLast? with
  | none =>
    rw [List.getLast?_eq_none_iff] at hlast
    subst hlast
    cases (he.mem h).2 hh
  | some z =>
    have hfail := he.visits.fails hlast
    have hz : s.OfType ty z := (he.mem z).1 (List.mem_of_getLast? hlast)
    have hzlt := ht.last_lt hz hfail
    rw [ht.nextTrans_of_lt ty hzlt] at hfail
    -- nothing of the type is behind the last
    by_contra hbig
    have hnot := List.find?_eq_none.1 hfail h
      (List.mem_range'_1.2 ⟨by omega, by have := hh.1.2.1; omega⟩)
    exact hnot (isType_iff.2 ⟨hh.1.2.2.1, hh.2⟩)

/-- **Every transaction once.** In a run that keeps the accounts, with no transaction in process, the
walk from `SBM_FIRST` on visits each transaction of a type once and then fails, and `SBM_prevTrans` goes
back along it, if and only if their handles are below 65535. -/
theorem enumeration_iff {l : List Out} (hr : Reach system Globals.Accounted l s)
    (hidle : s.inProcess = none) (ty : UInt8) :
    (∃ l, Enumerated s ty l) ↔ ∀ h, s.OfType ty h → h < 65535 := by
  rcases sound_reach hr with ⟨order, ht, -⟩ | ⟨order, p, g, t, ho⟩
  · refine ⟨?_, fun hlt => ⟨_, ht.enumerated hidle hlt⟩⟩
    rintro ⟨l, he⟩ h hh
    exact ht.enumerated_lt he hh
  · rw [ho.inProcess] at hidle
    cases hidle

/-- Two transactions of a type with one of another type in between. -/
theorem enumeration_two : ∃ s : Globals, s.ofType 1 = [1, 3] ∧
    ((∃ l, Enumerated s 1 l) ↔ ∀ h, s.OfType 1 h → h < 65535) := by
  obtain ⟨s, l, hr, hp⟩ := Reach.of_run (S := system)
    (b := fun s i => decide (s.Accounted i))
    (fun s i (h : decide (s.Accounted i) = true) => of_decide_eq_true h)
    ⟨fun _ => 0, 200, by decide, rfl⟩
    [.beginTrans 1 true, .alloc 8, .endTrans, .beginTrans 2 true, .endTrans, .beginTrans 1 true,
      .endTrans]
    (fun s _ => decide (s.inProcess = none ∧ s.ofType 1 = [1, 3])) (by decide +kernel)
  obtain ⟨h₁, h₂⟩ := of_decide_eq_true hp
  exact ⟨s, h₂, enumeration_iff hr h₁ 1⟩

/-! ## Too many transactions -/

/-- All `n` records of the table are in use for transactions of the type 1. -/
structure Full (s : Globals) (n : Nat) : Prop where
  table : ∃ order, Table s order 0 0
  idle : s.inProcess = none
  count : transAllocated s.mem = n
  remaining : bytesRemaining s.mem + 12 * n = 999988
  used : ∀ h, 1 ≤ h → h ≤ n → isType s.mem 1 h = true

/-- `SBM_beginTrans` takes a new record. -/
theorem Full.beginTrans (hf : Full s n) (ht : Table s order 0 0) (hn : n < 65535) :
    ∃ s₁ t, s.beginTrans 1 true = (s₁, .ok (n + 1)) ∧ Begun s s₁ order (n + 1) t ∧
      t.bytesRemaining + 12 = bytesRemaining s.mem ∧ isType s₁.mem 1 (n + 1) = true := by
  have hcount := hf.count
  have hremaining := hf.remaining
  have hnext := ht.transAt_next
  rw [hcount] at hnext
  have hnone : findUnused s.mem (transAllocated s.mem) (transAt s.mem 1) = none := by
    cases hs : findUnused s.mem (transAllocated s.mem) (transAt s.mem 1) with
    | none => rfl
    | some a =>
      obtain ⟨h, hh, hlt, -, hu⟩ := findUnused_some hs
      exact absurd hu (isType_iff.1 (hf.used h hh (by omega))).1
  have hb := @Table.begun s order (n + 1) 12 1 ht (by omega) (.inr ⟨by omega, rfl⟩) (by omega)
  have hat : 12 ≤ transAt s.mem (n + 1) := by
    have := ht.first
    have := ht.room
    have := ht.remaining
    omega
  refine ⟨_, _, ?_, hb, by dsimp only; omega, ?_⟩
  · unfold Globals.beginTrans
    rw [if_neg (by rw [hf.idle]; decide)]
    dsimp only
    rw [ht.transAt_one, hnone, if_neg (by omega)]
    dsimp only
    rw [if_neg (by omega), if_neg (by decide), hnext, handle_transAt]
  · have hself := slot_putTransaction_self (m := s.mem) (g := n + 1)
      (t := ⟨0, (s.pNextAvailable % 2 ^ 32).toNat, 1⟩)
      ⟨by dsimp only; omega, by dsimp only; omega, by dsimp only; omega⟩ hat
    refine decide_eq_true ?_
    dsimp only
    rw [show UInt8.toNat 1 = 1 from rfl, hself]
    dsimp only
    unfold unused
    omega

/-- One more transaction. -/
theorem Full.more (hf : Full s n) (hn : n < 65535) :
    ∃ (s' : Globals) (l : List Out), Exec system Globals.Accounted s l s' ∧ Full s' (n + 1) := by
  obtain ⟨order, ht⟩ := hf.table
  have hremaining := hf.remaining
  obtain ⟨s₁, t, hbegin, hb, hbytes, hnew⟩ := hf.beginTrans ht hn
  have hcount₁ : transAllocated s₁.mem = n := hb.keeps.transAllocated.trans hf.count
  obtain ⟨s₂, order', hend, hended⟩ := hb.toOpen.endTrans fun hadd => absurd hb.notAdding hadd
  have hgrown : s₂ = s₁.grown t := by
    have : s₁.endTrans = (s₁.grown t, .ok ()) := by
      unfold Globals.endTrans
      rw [hb.inProcess]
      exact if_neg (not_not.2 hb.notAdding)
    rw [this] at hend
    exact ((Prod.mk.inj hend).1).symm
  have htable := hb.toOpen.grown_table
  rw [if_pos ⟨by omega, rfl⟩] at htable
  have hfirst : Exec system Globals.Accounted s [(s.step (.beginTrans 1 true)).2] s₁ := by
    have he : (s.step (.beginTrans 1 true)).1 = s₁ := by
      show (s.beginTrans 1 true).1 = s₁
      rw [hbegin]
    exact .single (i := .beginTrans 1 true) (show s.Accounted (.beginTrans 1 true) from trivial)
      (by rw [← he]; rfl)
  have hsecond : Exec system Globals.Accounted s₁ [(s₁.step .endTrans).2] s₂ := by
    have he : (s₁.step .endTrans).1 = s₂ := by
      show s₁.endTrans.1 = s₂
      rw [hend]
    have hok : s₁.Accounted .endTrans := fun hadd =>
      absurd hb.notAdding (hb.toOpen.adding_iff.2 hadd)
    exact .single hok (by rw [← he]; rfl)
  refine ⟨s₂, _, hfirst.trans hsecond,
    { table := ⟨order', hended.table⟩
      idle := hended.idle
      count := ?_
      remaining := ?_
      used := fun h h1 hle => ?_ }⟩
  · rw [hgrown, htable.2, hcount₁]
  · rw [hgrown, grown_bytesRemaining s₁ (by omega)]
    omega
  · have hslot : slot s₂.mem h = slot s₁.mem h := by
      rw [hgrown]
      exact hb.toOpen.grown_slot (by omega)
    unfold isType at hnew ⊢
    rw [hslot]
    by_cases hh : h = n + 1
    · rw [hh]
      exact hnew
    · rw [hb.slots h hh]
      exact hf.used h h1 (by omega)

theorem full_reach (hn : n ≤ 65535) :
    ∃ (s : Globals) (l : List Out), Reach system Globals.Accounted l s ∧ Full s n := by
  induction n with
  | zero =>
    have hopen := @openBlock_fresh 1000000 (fun _ => 0) (by decide) (by decide)
    exact ⟨blank 1000000, [], .init ⟨fun _ => 0, 1000000, by decide, rfl⟩,
      ⟨⟨[], hopen⟩, rfl, by decide, by decide, fun h h1 hle => by omega⟩⟩
  | succ n ih =>
    obtain ⟨s, l, hr, hf⟩ := ih (by omega)
    obtain ⟨s', l', hx, hf'⟩ := hf.more (by omega)
    exact ⟨s', _, hr.trans hx, hf'⟩

/-- After 65535 transactions, each begun with the type 1 and ended, `SBM_nextTrans` begins again. -/
theorem enumeration_endless : ∃ (s : Globals) (l : List Out), Reach system Run.any l s ∧
    s.inProcess = none ∧ s.OfType 1 65535 ∧ ¬∃ l, Enumerated s 1 l := by
  obtain ⟨s, l, hr, hf⟩ := full_reach (Nat.le_refl 65535)
  obtain ⟨order, ht⟩ := hf.table
  have hlast : s.OfType 1 65535 := by
    refine (mem_ofType hf.idle).1 (List.mem_filter.2 ⟨?_, hf.used _ (by decide) (Nat.le_refl _)⟩)
    rw [List.mem_range'_1, hf.count]
    decide
  refine ⟨s, l, hr.any, hf.idle, hlast, ?_⟩
  rintro ⟨l, he⟩
  exact absurd (ht.enumerated_lt he hlast) (by decide)

end Sbm
