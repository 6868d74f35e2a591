import Emsd.Lib.Chain
import Emsd.Lib.Run
import Emsd.Ocp.Data

/-!
# Data units and their buffers (`du_/unhosted/du.c`)

A view is a window on a buffer; several views may be on one buffer, which counts them. Views and
buffers that are not in use are linked in two free lists, by fields that mean something else while they
are in use.

* `Sound.alloc`, `Sound.link`, `Sound.free`: what each call keeps.
* `dataUnits_intact`: **the lists, the counts and the views agree**, in every run in which the last view
  of a buffer is the one that is freed as the last.
* `freeLast_shared`: `DU_freeLast` of a view that shares its buffer.
-/

namespace Ocp

namespace DataUnits

/-- The address of a view, and that of a buffer. -/
abbrev View := ℕ

abbrev Buffer := ℕ

/-- The union `un` of a buffer. There is one pool. -/
inductive Un
  | next (bufInfo : Option Buffer)
  | pool
  deriving DecidableEq, Repr

/-- `DU_BufInfo`; `end` counts from the first octet of the buffer. -/
structure BufInfo where
  un : Un
  «end» : ℤ
  refcnt : Int16
  deriving DecidableEq, Repr

/-- `DU_Elem`; `addr` counts from the first octet of the buffer. -/
structure Elem where
  next : Option View
  prev : Option View
  bufInfo : Option Buffer
  addr : ℤ
  deriving DecidableEq, Repr

/-- `DU_Pool`. -/
structure Pool where
  bufFreeList : Option Buffer
  size : ℤ
  count : ℤ
  deriving DecidableEq, Repr

end DataUnits

open DataUnits

/-- The memory of the module. -/
structure DataUnits where
  pool : Pool
  viewFreeList : Option View
  elem : View → Elem
  bufInfo : Buffer → BufInfo

namespace DataUnits

/-- `PUSH this bufInfo on bufFreeList`. -/
def pushBuf (s : DataUnits) (b : Buffer) : DataUnits :=
  { s with
    bufInfo := Function.update s.bufInfo b
      { s.bufInfo b with un := .next s.pool.bufFreeList, refcnt := 0 }
    pool := { s.pool with bufFreeList := some b, count := s.pool.count + 1 } }

/-- `PUSH this view on viewFreeList`. -/
def pushView (s : DataUnits) (v : View) : DataUnits :=
  { s with
    elem := Function.update s.elem v { s.elem v with next := s.viewFreeList }
    viewFreeList := some v }

/-- `DU_buildPool`, with what is in the structures when they have been allocated. -/
def buildPool (bufInfo : Buffer → BufInfo) (elem : View → Elem) (bufSize nuOfBufs nuOfViews : ℤ) :
    DataUnits :=
  let s : DataUnits := { pool := ⟨none, bufSize, 0⟩, viewFreeList := none, elem, bufInfo }
  (List.range nuOfViews.toNat).foldl pushView ((List.range nuOfBufs.toNat).foldl pushBuf s)

/-- `POP one off the viewFreeList`, as a view at `addr` of a buffer. -/
def popView (s : DataUnits) (v : View) (addr : ℤ) (b : Buffer) : DataUnits :=
  { s with
    viewFreeList := (s.elem v).next
    elem := Function.update s.elem v { next := some v, prev := some v, bufInfo := some b, addr } }

/-- `DU_alloc`. There is no result where a buffer of the free list is in use. -/
def alloc (s : DataUnits) (nuOfBytes : ℤ) : Option (DataUnits × Option View) :=
  if s.pool.size < nuOfBytes then some (s, none)
  else
    match s.pool.bufFreeList with
    | none => some (s, none)
    | some b =>
      match s.viewFreeList with
      | none => some (s, none)
      | some v =>
        match (s.bufInfo b).un with
        | .pool => none
        | .next next =>
          let s := s.popView v (s.pool.size - nuOfBytes) b
          some ({ s with
            pool := { s.pool with bufFreeList := next, count := s.pool.count - 1 }
            bufInfo := Function.update s.bufInfo b ⟨.pool, s.pool.size, 1⟩ }, some v)

/-- `DU_link`. There is no result where a null pointer is followed: the trace does so when no view is
left. -/
def link (tmEnabled : Bool) (s : DataUnits) (view : Option View) : Option (DataUnits × Option View) :=
  match view with
  | none => some (s, none)
  | some v =>
    match (s.elem v).bufInfo with
    | none => none
    | some b =>
      match s.viewFreeList with
      | none => if tmEnabled then none else some (s, none)
      | some newView =>
        let s := s.popView newView (s.elem v).addr b
        some ({ s with
          bufInfo := Function.update s.bufInfo b
            { s.bufInfo b with refcnt := (s.bufInfo b).refcnt + 1 } }, some newView)

/-- `DU_free`. There is no result where a link of the free list is taken for the pool. -/
def free (s : DataUnits) (view : Option View) : Option DataUnits :=
  match view with
  | none => some s
  | some v =>
    match (s.elem v).bufInfo with
    | none => some s
    | some b =>
      if (s.bufInfo b).un = .next none then some s
      else if (s.bufInfo b).refcnt ≤ 0 then
        some { s with bufInfo := Function.update s.bufInfo b { s.bufInfo b with refcnt := 0 } }
      else if (s.bufInfo b).refcnt - 1 = 0 then
        if (s.bufInfo b).un = .pool then some ((s.pushBuf b).pushView v) else none
      else
        let s := { s with
          bufInfo := Function.update s.bufInfo b
            { s.bufInfo b with refcnt := (s.bufInfo b).refcnt - 1 } }
        some (s.pushView v)

/-- `DU_freeLast`. The other views of the buffer are not asked. -/
def freeLast (s : DataUnits) (view : Option View) : Option (DataUnits × SuccFail) :=
  match view.bind fun v => (s.elem v).bufInfo with
  | none => none
  | some b =>
    if 1 < (s.bufInfo b).refcnt then
      let s := { s with bufInfo := Function.update s.bufInfo b { s.bufInfo b with refcnt := 1 } }
      (s.free view).map fun s => (s, .fail)
    else (s.free view).map fun s => (s, .success)

/-! ## Programs -/

/-- The module, and the views that a program has got and not freed. -/
structure Users where
  du : DataUnits
  live : List View

inductive Call
  | alloc (nuOfBytes : ℤ)
  | link (view : Option View)
  | free (view : Option View)
  | freeLast (view : Option View)
  deriving DecidableEq, Repr

inductive Out
  | view (v : Option View)
  | freed
  | freedLast (retVal : SuccFail)
  deriving DecidableEq, Repr

/-- The view is one of the program's, or the null pointer. -/
def Users.Has (w : Users) (view : Option View) : Prop := ∀ v ∈ view, v ∈ w.live

instance (w : Users) : ∀ view, Decidable (w.Has view)
  | none => .isTrue nofun
  | some v => decidable_of_iff (v ∈ w.live)
      ⟨fun h _ hu => Option.some.inj hu ▸ h, fun h => h v rfl⟩

/-- One call, of a program that uses its own views and frees each once. -/
def Users.step (tmEnabled : Bool) (w : Users) : Call → Option (Users × List Out)
  | .alloc nuOfBytes =>
    (w.du.alloc nuOfBytes).map fun r => (⟨r.1, r.2.toList ++ w.live⟩, [.view r.2])
  | .link view =>
    if w.Has view then
      (w.du.link tmEnabled view).map fun r => (⟨r.1, r.2.toList ++ w.live⟩, [.view r.2])
    else none
  | .free view =>
    if w.Has view then
      (w.du.free view).map fun s => (⟨s, w.live.filter fun v => view ≠ some v⟩, [.freed])
    else none
  | .freeLast view =>
    if w.Has view then
      (w.du.freeLast view).map fun r =>
        (⟨r.1, w.live.filter fun v => view ≠ some v⟩, [.freedLast r.2])
    else none

/-- How a pool is built. -/
structure Build where
  bufInfo : Buffer → BufInfo
  elem : View → Elem
  bufSize : ℤ
  nuOfBufs : ℤ
  nuOfViews : ℤ
  tmEnabled : Bool

end DataUnits

/-- The calls of a program, from when the pool has been built. -/
def dataUnits (p : Build) : Run.Sys Users Call Out where
  init w := w = ⟨buildPool p.bufInfo p.elem p.bufSize p.nuOfBufs p.nuOfViews, []⟩
  step := Users.step p.tmEnabled

namespace DataUnits

/-! ## What is promised -/

/-- The links of the two free lists. A buffer that is in use has none. -/
def nextView (s : DataUnits) (v : View) : Option (Option View) := some (s.elem v).next

def nextBuf (s : DataUnits) (b : Buffer) : Option (Option Buffer) :=
  match (s.bufInfo b).un with
  | .next next => some next
  | .pool => none

/-- How many of the views are on the buffer. -/
def refs (s : DataUnits) (live : List View) (b : Buffer) : ℕ :=
  live.countP fun v => (s.elem v).bufInfo = some b

/-- **The lists, the counts and the views agree.** -/
structure Intact (nuOfBufs : ℕ) (w : Users) : Prop where
  views : ∃ views, Lib.Chain w.du.nextView w.du.viewFreeList views ∧ views.Nodup ∧
    ∀ v ∈ w.live, v ∉ views
  bufs : ∃ bufs, Lib.Chain w.du.nextBuf w.du.pool.bufFreeList bufs ∧ bufs.Nodup ∧
    w.du.pool.count = bufs.length ∧
    ∀ b < nuOfBufs, b ∈ bufs ↔ ∀ v ∈ w.live, (w.du.elem v).bufInfo ≠ some b
  refcnt : ∀ b < nuOfBufs, (w.du.bufInfo b).refcnt.toInt = w.du.refs w.live b

/-- The condition: `DU_freeLast` is called for the only view that is left on its buffer. -/
def Lone (w : Users) : Call → Prop
  | .freeLast (some v) => ∀ u ∈ w.live, (w.du.elem u).bufInfo = (w.du.elem v).bufInfo → u = v
  | _ => True

instance (w : Users) : ∀ c, Decidable (Lone w c)
  | .freeLast (some _) => inferInstanceAs (Decidable (∀ _ ∈ _, _ → _))
  | .freeLast none | .alloc _ | .link _ | .free _ => inferInstanceAs (Decidable True)

/-! ## The invariant -/

variable {n m : ℕ} {s t : DataUnits} {live views : List View} {bufs : List Buffer} {b : Buffer} {v : View}

/-- **What every call keeps**, with the two free lists. -/
structure Sound (n m : ℕ) (s : DataUnits) (live views : List View) (bufs : List Buffer) : Prop where
  viewChain : Lib.Chain s.nextView s.viewFreeList views
  bufChain : Lib.Chain s.nextBuf s.pool.bufFreeList bufs
  /-- Each view is free or in use. -/
  all : (views ++ live).Perm (List.range m)
  inUse : ∀ v ∈ live, ∃ b < n, (s.elem v).bufInfo = some b ∧ (s.bufInfo b).un = .pool
  unused : ∀ b, b ∈ bufs ↔ b < n ∧ s.refs live b = 0
  refcnt : ∀ b < n, (s.bufInfo b).refcnt.toInt = s.refs live b
  count : s.pool.count = bufs.length

theorem Sound.nodup (h : Sound n m s live views bufs) : (views ++ live).Nodup :=
  h.all.nodup_iff.2 List.nodup_range

theorem Sound.disjoint (h : Sound n m s live views bufs) (hv : v ∈ live) : v ∉ views :=
  fun hmem => (List.nodup_append.1 h.nodup).2.2 v hmem v hv rfl

theorem refs_pos : 0 < s.refs live b ↔ ∃ v ∈ live, (s.elem v).bufInfo = some b := by
  unfold refs
  rw [List.countP_pos_iff]
  simp only [decide_eq_true_eq]

theorem refs_eq_zero : s.refs live b = 0 ↔ ∀ v ∈ live, (s.elem v).bufInfo ≠ some b := by
  unfold refs
  rw [List.countP_eq_zero]
  simp only [decide_eq_true_eq]

/-- Only the buffers of the views in use count. -/
theorem refs_congr (h : ∀ v ∈ live, (t.elem v).bufInfo = (s.elem v).bufInfo) (b : Buffer) :
    t.refs live b = s.refs live b := by
  unfold refs
  exact List.countP_congr fun v hv => by rw [h v hv]

theorem refs_cons (hv : (s.elem v).bufInfo = some b) (c : Buffer) :
    s.refs (v :: live) c = s.refs live c + if c = b then 1 else 0 := by
  unfold refs
  rw [List.countP_cons, hv]
  by_cases hc : c = b
  · rw [if_pos hc, if_pos (by rw [hc, decide_eq_true rfl])]
  · have hne : some b ≠ some c := fun heq => hc (Option.some.inj heq).symm
    rw [if_neg hc, if_neg (by rw [decide_eq_false hne]; exact Bool.false_ne_true)]

/-- The views that there were are on the buffers that they were on. -/
theorem bufInfo_old (hfresh : v ∉ live) (hother : ∀ u, u ≠ v → t.elem u = s.elem u) :
    ∀ u ∈ live, (t.elem u).bufInfo = (s.elem u).bufInfo := by
  intro u hu
  rw [hother u fun heq => hfresh (heq ▸ hu)]

/-- A new view counts on its buffer. -/
theorem refs_new (hv : (t.elem v).bufInfo = some b)
    (hold : ∀ u ∈ live, (t.elem u).bufInfo = (s.elem u).bufInfo) (c : Buffer) :
    t.refs (v :: live) c = s.refs live c + if c = b then 1 else 0 := by
  rw [refs_cons hv, refs_congr hold]

/-- A buffer that gets another count has the link that it had, and so have all. -/
theorem update_un {info : BufInfo} (hun : info.un = (s.bufInfo b).un) (c : Buffer) :
    (Function.update s.bufInfo b info c).un = (s.bufInfo c).un := by
  by_cases hcb : c = b
  · rw [hcb, Function.update_self, hun]
  · rw [Function.update_of_ne hcb]

/-- The views without one of them. -/
theorem perm_filter (hnodup : live.Nodup) (hv : v ∈ live) :
    live.Perm (v :: live.filter fun u => some v ≠ some u) := by
  have herase := List.perm_cons_erase hv
  rw [hnodup.erase_eq_filter] at herase
  have hsame : (live.filter fun u => u != v) = live.filter fun u => decide (some v ≠ some u) := by
    refine List.filter_congr fun u _ => ?_
    rw [Bool.eq_iff_iff, bne_iff_ne, decide_eq_true_iff]
    exact not_congr (eq_comm.trans Option.some_inj.symm)
  rw [hsame] at herase
  exact herase

/-- A view that is freed counts no more. -/
theorem refs_filter (hnodup : live.Nodup) (hv : v ∈ live) (hb : (s.elem v).bufInfo = some b) (c : Buffer) :
    s.refs live c = s.refs (live.filter fun u => some v ≠ some u) c + if c = b then 1 else 0 := by
  rw [← refs_cons hb]
  exact (perm_filter hnodup hv).countP_eq _

/-- **The program's invariant** is what is promised. -/
theorem Sound.intact (h : Sound n m s live views bufs) : Intact n ⟨s, live⟩ where
  views := ⟨views, h.viewChain, h.viewChain.nodup, fun _ hv => h.disjoint hv⟩
  bufs := by
    refine ⟨bufs, h.bufChain, h.bufChain.nodup, h.count, fun b hb => ?_⟩
    rw [h.unused, refs_eq_zero]
    exact and_iff_right hb
  refcnt := h.refcnt

/-! ## The pool is built -/

/-- **Views are pushed.** -/
theorem pushView_chain (hc : Lib.Chain s.nextView s.viewFreeList views) (hv : v ∉ views) :
    Lib.Chain (s.pushView v).nextView (s.pushView v).viewFreeList (v :: views) := by
  refine ⟨rfl, s.viewFreeList, ?_, hc.frame fun u hu => ?_⟩
  · unfold nextView pushView
    dsimp only
    rw [Function.update_self]
  · have hne : u ≠ v := fun heq => hv (heq ▸ hu)
    unfold nextView pushView
    dsimp only
    rw [Function.update_of_ne hne]

/-- **Buffers are pushed.** -/
theorem pushBuf_chain (hc : Lib.Chain s.nextBuf s.pool.bufFreeList bufs) (hb : b ∉ bufs) :
    Lib.Chain (s.pushBuf b).nextBuf (s.pushBuf b).pool.bufFreeList (b :: bufs) := by
  refine ⟨rfl, s.pool.bufFreeList, ?_, hc.frame fun c hc' => ?_⟩
  · unfold nextBuf pushBuf
    dsimp only
    rw [Function.update_self]
  · have hne : c ≠ b := fun heq => hb (heq ▸ hc')
    unfold nextBuf pushBuf
    dsimp only
    rw [Function.update_of_ne hne]

/-- The first loop of `DU_buildPool`. -/
theorem pushBufs_spec (s : DataUnits) (hb : s.pool.bufFreeList = none) (hc : s.pool.count = 0) (k : ℕ) :
    ∃ bufs, Lib.Chain ((List.range k).foldl pushBuf s).nextBuf
        ((List.range k).foldl pushBuf s).pool.bufFreeList bufs ∧
      (∀ b, b ∈ bufs ↔ b < k) ∧ ((List.range k).foldl pushBuf s).pool.count = bufs.length ∧
      (∀ b < k, (((List.range k).foldl pushBuf s).bufInfo b).refcnt = 0) ∧
      ((List.range k).foldl pushBuf s).viewFreeList = s.viewFreeList := by
  induction k with
  | zero => exact ⟨[], hb, by simp, hc, by simp, rfl⟩
  | succ k ih =>
    obtain ⟨bufs, hchain, hmem, hcount, hzero, hviews⟩ := ih
    rw [List.range_succ, List.foldl_append, List.foldl_cons, List.foldl_nil]
    generalize (List.range k).foldl pushBuf s = t at hchain hcount hzero hviews
    refine ⟨k :: bufs, pushBuf_chain hchain ?_, fun b => ?_, ?_, fun b hbk => ?_, hviews⟩
    · rw [hmem]
      exact Nat.lt_irrefl k
    · rw [List.mem_cons, hmem, or_comm]
      exact Nat.lt_succ_iff_lt_or_eq.symm
    · unfold pushBuf
      rw [List.length_cons]
      dsimp only
      rw [hcount]
      rfl
    · unfold pushBuf
      dsimp only
      by_cases heq : b = k
      · rw [heq, Function.update_self]
      · rw [Function.update_of_ne heq]
        exact hzero b (by omega)

/-- The second loop. -/
theorem pushViews_spec (s : DataUnits) (hv : s.viewFreeList = none) (k : ℕ) :
    ∃ views, Lib.Chain ((List.range k).foldl pushView s).nextView
        ((List.range k).foldl pushView s).viewFreeList views ∧
      views.Perm (List.range k) ∧ ((List.range k).foldl pushView s).bufInfo = s.bufInfo ∧
      ((List.range k).foldl pushView s).pool = s.pool := by
  induction k with
  | zero => exact ⟨[], hv, .refl _, rfl, rfl⟩
  | succ k ih =>
    obtain ⟨views, hchain, hperm, hbuf, hpool⟩ := ih
    rw [List.range_succ, List.foldl_append, List.foldl_cons, List.foldl_nil]
    refine ⟨k :: views, pushView_chain hchain fun hk => ?_, ?_, hbuf, hpool⟩
    · exact List.not_mem_range_self (hperm.mem_iff.1 hk)
    · exact (hperm.cons k).trans (List.perm_append_singleton k _).symm

/-- **A pool that has been built**, with everything in the free lists. -/
theorem buildPool_sound (p : Build) : ∃ views bufs, Sound p.nuOfBufs.toNat p.nuOfViews.toNat
    (buildPool p.bufInfo p.elem p.bufSize p.nuOfBufs p.nuOfViews) [] views bufs := by
  unfold buildPool
  dsimp only
  obtain ⟨bufs, hchain, hmem, hcount, hzero, hnone⟩ := pushBufs_spec
    ⟨⟨none, p.bufSize, 0⟩, none, p.elem, p.bufInfo⟩ rfl rfl p.nuOfBufs.toNat
  generalize (List.range p.nuOfBufs.toNat).foldl pushBuf _ = s at hchain hcount hzero hnone ⊢
  obtain ⟨views, hviews, hperm, hbuf, hpool⟩ := pushViews_spec s hnone p.nuOfViews.toNat
  generalize (List.range p.nuOfViews.toNat).foldl pushView s = t at hviews hbuf hpool ⊢
  refine ⟨views, bufs, hviews, ?_, ?_, nofun, fun b => ?_, fun b hb => ?_, ?_⟩
  · rw [hpool]
    refine hchain.frame fun b _ => ?_
    unfold nextBuf
    rw [hbuf]
  · rw [List.append_nil]
    exact hperm
  · rw [hmem]
    exact (and_iff_left rfl).symm
  · rw [hbuf, hzero b hb]
    rfl
  · rw [hpool]
    exact hcount

/-! ## The calls -/

theorem toInt_succ {r : Int16} (h : 0 ≤ r.toInt) (hlt : r.toInt < 32767) :
    (r + 1).toInt = r.toInt + 1 := by
  have hone : (1 : Int16).toInt = 1 := rfl
  rw [Int16.toInt_add, hone, Int.bmod_eq_of_le (by omega) (by omega)]

theorem toInt_pred {r : Int16} (h : 0 < r.toInt) : (r - 1).toInt = r.toInt - 1 := by
  have hlt := r.toInt_lt
  have hone : (1 : Int16).toInt = 1 := rfl
  rw [Int16.toInt_sub, hone, Int.bmod_eq_of_le (by omega) (by omega)]

/-- A view of the free list is taken for a buffer. -/
theorem popView_spec (hc : Lib.Chain s.nextView s.viewFreeList (v :: views)) {a : ℤ} :
    Lib.Chain (s.popView v a b).nextView (s.popView v a b).viewFreeList views ∧
      ((s.popView v a b).elem v).bufInfo = some b ∧
      (∀ u, u ≠ v → (s.popView v a b).elem u = s.elem u) ∧
      (s.popView v a b).bufInfo = s.bufInfo ∧ (s.popView v a b).pool = s.pool := by
  have hnodup := hc.nodup
  obtain ⟨-, next, hnext, hrest⟩ := hc
  obtain rfl : next = (s.elem v).next := (Option.some.inj hnext).symm
  have hother : ∀ u, u ≠ v → (s.popView v a b).elem u = s.elem u := by
    intro u hne
    exact Function.update_of_ne hne _ _
  refine ⟨hrest.frame fun u hu => ?_, ?_, hother, rfl, rfl⟩
  · have hne : u ≠ v := fun heq => (List.nodup_cons.1 hnodup).1 (heq ▸ hu)
    unfold nextView
    rw [hother u hne]
  · unfold popView
    dsimp only
    rw [Function.update_self]

/-- **`DU_alloc`.** -/
theorem Sound.alloc (h : Sound n m s live views bufs) (nuOfBytes : ℤ) :
    ∃ r, s.alloc nuOfBytes = some r ∧
      ∃ views' bufs', Sound n m r.1 (r.2.toList ++ live) views' bufs' := by
  have hsame : ∃ views' bufs', Sound n m s ([] ++ live) views' bufs' := ⟨views, bufs, h⟩
  unfold DataUnits.alloc
  split
  · exact ⟨_, rfl, hsame⟩
  split
  · exact ⟨_, rfl, hsame⟩
  rename_i b hb
  split
  · exact ⟨_, rfl, hsame⟩
  rename_i v hv
  -- both free lists have a first element
  obtain ⟨bufs, rfl⟩ := (hb ▸ h.bufChain).exists_cons
  obtain ⟨views, rfl⟩ := (hv ▸ h.viewChain).exists_cons
  have hbufNodup := h.bufChain.nodup
  obtain ⟨-, next, hnext, hbrest⟩ := h.bufChain
  obtain ⟨hbn, hzero⟩ := (h.unused b).1 List.mem_cons_self
  have hfresh : v ∉ live := fun hmem => h.disjoint hmem List.mem_cons_self
  split
  · rename_i hpool
    unfold nextBuf at hnext
    rw [hpool] at hnext
    cases hnext
  rename_i next' hun
  obtain rfl : next = next' := by
    unfold nextBuf at hnext
    rw [hun] at hnext
    exact (Option.some.inj hnext).symm
  obtain ⟨hviews, hself, hother, hbuf, hpool⟩ :=
    popView_spec (b := b) (a := s.pool.size - nuOfBytes) h.viewChain
  refine ⟨_, rfl, views, bufs, ?_⟩
  dsimp only
  rw [hbuf, hpool]
  generalize s.popView v (s.pool.size - nuOfBytes) b = u at hviews hself hother
  have hold := bufInfo_old hfresh hother
  -- the buffer is that of the new view only
  have hrefs := refs_new hself hold
  constructor
  · exact hviews
  · refine hbrest.frame fun c hc => ?_
    have hne : c ≠ b := fun heq => (List.nodup_cons.1 hbufNodup).1 (heq ▸ hc)
    unfold nextBuf
    dsimp only
    rw [Function.update_of_ne hne]
  · exact List.perm_middle.trans h.all
  · intro w hw
    rcases List.mem_cons.1 hw with rfl | hw
    · refine ⟨b, hbn, hself, ?_⟩
      dsimp only
      rw [Function.update_self]
    · obtain ⟨c, hc, hwc, hpool⟩ := h.inUse w hw
      refine ⟨c, hc, (hold w hw).trans hwc, ?_⟩
      have hne : c ≠ b := fun heq => refs_eq_zero.1 hzero w hw (heq ▸ hwc)
      dsimp only
      rw [Function.update_of_ne hne]
      exact hpool
  · intro c
    have hmem := h.unused c
    rw [List.mem_cons] at hmem
    have hnot : b ∉ bufs := (List.nodup_cons.1 hbufNodup).1
    change c ∈ bufs ↔ c < n ∧ u.refs (v :: live) c = 0
    rw [hrefs]
    by_cases hcb : c = b
    · rw [if_pos hcb, hcb]
      exact ⟨fun hmem => absurd hmem hnot, fun hzero => absurd hzero.2 (Nat.succ_ne_zero _)⟩
    · rw [if_neg hcb, Nat.add_zero, ← hmem]
      exact (or_iff_right hcb).symm
  · intro c hc
    change _ = ((u.refs (v :: live) c : ℕ) : ℤ)
    rw [hrefs]
    dsimp only
    by_cases hcb : c = b
    · rw [hcb, Function.update_self, hzero, if_pos rfl]
      rfl
    · rw [Function.update_of_ne hcb, if_neg hcb, Nat.add_zero]
      exact h.refcnt c hc
  · have hcount := h.count
    rw [List.length_cons] at hcount
    dsimp only
    rw [hcount]
    omega

/-- The buffer of a view in use, and its count. -/
theorem Sound.ofLive (h : Sound n m s live views bufs) (hv : v ∈ live) :
    ∃ b < n, (s.elem v).bufInfo = some b ∧ (s.bufInfo b).un = .pool ∧ 0 < (s.bufInfo b).refcnt.toInt := by
  obtain ⟨b, hb, hvb, hpool⟩ := h.inUse v hv
  refine ⟨b, hb, hvb, hpool, ?_⟩
  have hpos : 0 < s.refs live b := refs_pos.2 ⟨v, hv, hvb⟩
  rw [h.refcnt b hb]
  omega

/-- **`DU_link`**, while the count has room. -/
theorem Sound.link (h : Sound n m s live views bufs) (hm : m ≤ 32767) {tmEnabled : Bool}
    {view : Option View} (hview : ∀ v ∈ view, v ∈ live) {r : DataUnits × Option View}
    (hr : DataUnits.link tmEnabled s view = some r) :
    ∃ views' bufs', Sound n m r.1 (r.2.toList ++ live) views' bufs' := by
  have hsame : ∃ views' bufs', Sound n m s ([] ++ live) views' bufs' := ⟨views, bufs, h⟩
  unfold DataUnits.link at hr
  split at hr
  · obtain rfl := Option.some.inj hr
    exact hsame
  rename_i v
  have hv : v ∈ live := hview v rfl
  obtain ⟨b, hb, hvb, hpool, hpos⟩ := h.ofLive hv
  rw [hvb] at hr
  dsimp only at hr
  split at hr
  · split at hr
    · cases hr
    · obtain rfl := Option.some.inj hr
      exact hsame
  rename_i newView hnew
  obtain ⟨views, rfl⟩ := (hnew ▸ h.viewChain).exists_cons
  have hfresh : newView ∉ live := fun hmem => h.disjoint hmem List.mem_cons_self
  have hroom : s.refs live b < m := by
    have hlength := h.all.length_eq
    rw [List.length_append, List.length_cons, List.length_range] at hlength
    have hle : s.refs live b ≤ live.length := List.countP_le_length
    omega
  have hcount := h.refcnt b hb
  obtain ⟨hviews, hself, hother, hbuf, hpoolSame⟩ :=
    popView_spec (b := b) (a := (s.elem v).addr) h.viewChain
  obtain rfl := Option.some.inj hr
  refine ⟨views, bufs, ?_⟩
  dsimp only
  rw [hbuf]
  generalize s.popView newView (s.elem v).addr b = u at hviews hself hother hpoolSame
  have hold := bufInfo_old hfresh hother
  have hrefs := refs_new hself hold
  have hun : ∀ c, (Function.update s.bufInfo b
      { s.bufInfo b with refcnt := (s.bufInfo b).refcnt + 1 } c).un = (s.bufInfo c).un := update_un rfl
  constructor
  · exact hviews
  · dsimp only
    rw [hpoolSame]
    refine h.bufChain.frame fun c _ => ?_
    unfold nextBuf
    dsimp only
    rw [hun]
  · exact List.perm_middle.trans h.all
  · intro w hw
    rcases List.mem_cons.1 hw with rfl | hw
    · exact ⟨b, hb, hself, (hun b).trans hpool⟩
    · obtain ⟨c, hc, hwc, hcpool⟩ := h.inUse w hw
      exact ⟨c, hc, (hold w hw).trans hwc, (hun c).trans hcpool⟩
  · intro c
    have hmem := h.unused c
    change c ∈ bufs ↔ c < n ∧ u.refs (newView :: live) c = 0
    rw [hrefs, hmem]
    by_cases hcb : c = b
    · rw [if_pos hcb, hcb]
      refine and_congr_right fun _ => ⟨fun hzero => ?_, fun hzero => absurd hzero (Nat.succ_ne_zero _)⟩
      omega
    · rw [if_neg hcb, Nat.add_zero]
  · intro c hc
    change _ = ((u.refs (newView :: live) c : ℕ) : ℤ)
    rw [hrefs]
    dsimp only
    by_cases hcb : c = b
    · rw [hcb, Function.update_self, if_pos rfl]
      dsimp only
      rw [toInt_succ (by omega) (by omega), hcount]
      rfl
    · rw [Function.update_of_ne hcb, if_neg hcb, Nat.add_zero]
      exact h.refcnt c hc
  · dsimp only
    rw [hpoolSame]
    exact h.count

/-- A view that is pushed stays on its buffer. -/
theorem pushView_bufInfo (ht : t.elem = s.elem) (w : View) :
    ((t.pushView v).elem w).bufInfo = (s.elem w).bufInfo := by
  unfold pushView
  dsimp only
  rw [ht]
  by_cases hwv : w = v
  · rw [hwv, Function.update_self]
  · rw [Function.update_of_ne hwv]

theorem pushView_refs (ht : t.elem = s.elem) (live : List View) (c : Buffer) :
    (t.pushView v).refs live c = s.refs live c :=
  refs_congr (fun w _ => pushView_bufInfo ht w) c

/-- The views after one of them has been freed. -/
theorem Sound.rest (h : Sound n m s live views bufs) (hv : v ∈ live) :
    (v :: views ++ live.filter fun u => some v ≠ some u).Perm (List.range m) := by
  have hperm := perm_filter (List.nodup_append.1 h.nodup).2.1 hv
  exact (List.perm_middle.symm.trans (hperm.symm.append_left views)).trans h.all

/-- **The last view on a buffer** is freed, and the buffer with it. -/
theorem Sound.freeBuf (h : Sound n m s live views bufs) (hv : v ∈ live) (hb : b < n)
    (hvb : (s.elem v).bufInfo = some b) (hone : s.refs live b = 1) :
    Sound n m ((s.pushBuf b).pushView v) (live.filter fun u => some v ≠ some u) (v :: views)
      (b :: bufs) := by
  have hrefs := refs_filter (List.nodup_append.1 h.nodup).2.1 hv hvb
  have hnone : s.refs (live.filter fun u => some v ≠ some u) b = 0 := by
    have heq := hrefs b
    rw [hone, if_pos rfl] at heq
    exact (Nat.succ.inj heq).symm
  have hfresh : b ∉ bufs := by
    rw [h.unused, hone]
    exact fun hmem => absurd hmem.2 (Nat.succ_ne_zero 0)
  have hother : ∀ c, c ≠ b → ((s.pushBuf b).pushView v).bufInfo c = s.bufInfo c :=
    fun c hne => Function.update_of_ne hne _ _
  constructor
  · exact pushView_chain (s := s.pushBuf b) h.viewChain (h.disjoint hv)
  · exact pushBuf_chain h.bufChain hfresh
  · exact h.rest hv
  · intro w hw
    obtain ⟨c, hc, hwc, hcpool⟩ := h.inUse w (List.mem_of_mem_filter hw)
    have hne : c ≠ b := by
      rintro rfl
      exact refs_eq_zero.1 hnone w hw hwc
    refine ⟨c, hc, (pushView_bufInfo (s := s) rfl w).trans hwc, ?_⟩
    rw [hother c hne]
    exact hcpool
  · intro c
    rw [pushView_refs (s := s) (t := s.pushBuf b) rfl, List.mem_cons, h.unused, hrefs c]
    by_cases hcb : c = b
    · rw [hcb, hnone]
      exact ⟨fun _ => ⟨hb, rfl⟩, fun _ => .inl rfl⟩
    · rw [if_neg hcb, Nat.add_zero]
      exact or_iff_right hcb
  · intro c hc
    rw [pushView_refs (s := s) (t := s.pushBuf b) rfl]
    by_cases hcb : c = b
    · have hzero : (((s.pushBuf b).pushView v).bufInfo b).refcnt = 0 := by
        unfold pushView pushBuf
        dsimp only
        rw [Function.update_self]
      rw [hcb, hzero, hnone]
      rfl
    · have heq := hrefs c
      rw [if_neg hcb, Nat.add_zero] at heq
      rw [hother c hcb, ← heq]
      exact h.refcnt c hc
  · unfold pushView pushBuf
    dsimp only
    rw [h.count, List.length_cons]
    rfl

/-- **One of the views on a buffer** is freed. -/
theorem Sound.freeView (h : Sound n m s live views bufs) (hv : v ∈ live) (hb : b < n)
    (hvb : (s.elem v).bufInfo = some b) (hmore : s.refs live b ≠ 1) {info : BufInfo}
    (hun : info.un = (s.bufInfo b).un) (hinfo : info.refcnt.toInt = (s.bufInfo b).refcnt.toInt - 1) :
    Sound n m (pushView { s with bufInfo := Function.update s.bufInfo b info } v)
      (live.filter fun u => some v ≠ some u) (v :: views) bufs := by
  have hrefs := refs_filter (List.nodup_append.1 h.nodup).2.1 hv hvb
  have hsame := update_un hun
  constructor
  · exact pushView_chain h.viewChain (h.disjoint hv)
  · refine h.bufChain.frame fun c _ => ?_
    unfold nextBuf pushView
    dsimp only
    rw [hsame]
  · exact h.rest hv
  · intro w hw
    obtain ⟨c, hc, hwc, hcpool⟩ := h.inUse w (List.mem_of_mem_filter hw)
    exact ⟨c, hc, (pushView_bufInfo (s := s) rfl w).trans hwc, (hsame c).trans hcpool⟩
  · intro c
    rw [pushView_refs (s := s) (t := { s with bufInfo := Function.update s.bufInfo b info }) rfl,
      h.unused, hrefs c]
    by_cases hcb : c = b
    · -- another view is on it
      have heq := hrefs b
      rw [if_pos rfl] at heq
      rw [hcb, if_pos rfl]
      refine and_congr_right fun _ => ⟨fun hzero => absurd hzero (Nat.succ_ne_zero _), fun hzero => ?_⟩
      omega
    · rw [if_neg hcb, Nat.add_zero]
  · intro c hc
    rw [pushView_refs (s := s) (t := { s with bufInfo := Function.update s.bufInfo b info }) rfl]
    have heq := hrefs c
    unfold pushView
    dsimp only
    by_cases hcb : c = b
    · have hcount := h.refcnt b hb
      rw [hcb, if_pos rfl] at heq
      rw [hcb, Function.update_self, hinfo, hcount]
      omega
    · rw [if_neg hcb, Nat.add_zero] at heq
      rw [Function.update_of_ne hcb, ← heq]
      exact h.refcnt c hc
  · exact h.count

/-- **`DU_free`** of a view in use. -/
theorem Sound.free (h : Sound n m s live views bufs) (hv : v ∈ live) :
    ∃ t, s.free (some v) = some t ∧
      ∃ bufs', Sound n m t (live.filter fun u => some v ≠ some u) (v :: views) bufs' := by
  obtain ⟨b, hb, hvb, hpool, hpos⟩ := h.ofLive hv
  have hcount := h.refcnt b hb
  have hzero : (0 : Int16).toInt = 0 := rfl
  have hpositive : ¬(s.bufInfo b).refcnt ≤ 0 := by
    rw [Int16.le_iff_toInt_le, hzero]
    exact not_le.2 hpos
  have hless := toInt_pred hpos
  have hused : (s.bufInfo b).un ≠ .next none := by
    rw [hpool]
    exact nofun
  unfold DataUnits.free
  dsimp only
  rw [hvb]
  dsimp only
  rw [if_neg hused, if_neg hpositive]
  by_cases hlast : (s.bufInfo b).refcnt - 1 = 0
  · rw [if_pos hlast, if_pos hpool]
    rw [hlast, hzero] at hless
    exact ⟨_, rfl, _, h.freeBuf hv hb hvb (by omega)⟩
  · rw [if_neg hlast]
    have hmore : s.refs live b ≠ 1 := by
      intro hone
      refine hlast (Int16.toInt_inj.1 ?_)
      omega
    exact ⟨_, rfl, bufs, h.freeView hv hb hvb hmore rfl hless⟩

/-- **`DU_freeLast`** of the only view on its buffer is `DU_free`. -/
theorem Sound.freeLast (h : Sound n m s live views bufs) (hv : v ∈ live)
    (hlone : ∀ u ∈ live, (s.elem u).bufInfo = (s.elem v).bufInfo → u = v) :
    s.freeLast (some v) = (s.free (some v)).map fun t => (t, .success) := by
  obtain ⟨b, hb, hvb, -, hpos⟩ := h.ofLive hv
  have hnone : s.refs (live.filter fun u => some v ≠ some u) b = 0 := by
    rw [refs_eq_zero]
    intro u hu hub
    obtain ⟨hmem, hne⟩ := List.mem_filter.1 hu
    have heq := hlone u hmem (hub.trans hvb.symm)
    exact of_decide_eq_true hne (congrArg some heq.symm)
  have hone := refs_filter (List.nodup_append.1 h.nodup).2.1 hv hvb b
  rw [hnone, if_pos rfl] at hone
  have hcount := h.refcnt b hb
  have hnot : ¬1 < (s.bufInfo b).refcnt := by
    rw [Int16.lt_iff_toInt_lt, hcount, hone]
    exact lt_irrefl _
  unfold DataUnits.freeLast
  rw [Option.bind_some, hvb]
  exact if_neg hnot

/-! ## Runs -/

/-- **Every call.** -/
theorem Sound.step {w w' : Users} {o : List Out} {tmEnabled : Bool} {c : Call} (hm : m ≤ 32767)
    (h : Sound n m w.du w.live views bufs) (hok : Lone w c) (hs : w.step tmEnabled c = some (w', o)) :
    ∃ views' bufs', Sound n m w'.du w'.live views' bufs' := by
  unfold Users.step at hs
  cases c with
  | alloc nuOfBytes =>
    obtain ⟨r, hr, hsound⟩ := h.alloc nuOfBytes
    dsimp only at hs
    rw [hr] at hs
    obtain ⟨rfl, -⟩ := Prod.mk.inj (Option.some.inj hs)
    exact hsound
  | link view =>
    dsimp only at hs
    split at hs
    · rename_i hview
      obtain ⟨r, hr, heq⟩ := Option.map_eq_some_iff.1 hs
      obtain ⟨rfl, -⟩ := Prod.mk.inj heq
      exact h.link hm hview hr
    · cases hs
  | free view =>
    dsimp only at hs
    split at hs
    · rename_i hview
      obtain ⟨t, ht, heq⟩ := Option.map_eq_some_iff.1 hs
      obtain ⟨rfl, -⟩ := Prod.mk.inj heq
      cases view with
      | none =>
        obtain rfl := Option.some.inj ht
        refine ⟨views, bufs, ?_⟩
        have hall : (w.live.filter fun v => none ≠ some v) = w.live :=
          List.filter_eq_self.2 fun v _ => decide_eq_true nofun
        dsimp only
        rw [hall]
        exact h
      | some v =>
        obtain ⟨t', ht', bufs', hsound⟩ := h.free (hview v rfl)
        obtain rfl := Option.some.inj (ht.symm.trans ht')
        exact ⟨_, bufs', hsound⟩
    · cases hs
  | freeLast view =>
    dsimp only at hs
    split at hs
    · rename_i hview
      obtain ⟨r, hr, heq⟩ := Option.map_eq_some_iff.1 hs
      obtain ⟨rfl, -⟩ := Prod.mk.inj heq
      cases view with
      | none => cases hr
      | some v =>
        obtain ⟨t, ht, bufs', hsound⟩ := h.free (hview v rfl)
        rw [h.freeLast (hview v rfl) hok, ht] at hr
        obtain rfl := Option.some.inj hr
        exact ⟨_, bufs', hsound⟩
    · cases hs

/-- **The lists, the counts and the views agree**, in every run in which each view is freed at most once
and `DU_freeLast` is called for the only view on its buffer, in a pool whose counts have room. -/
theorem dataUnits_intact {p : Build} (hm : p.nuOfViews ≤ 32767) {o : List Out} {w : Users}
    (hr : Run.Reach (dataUnits p) Lone o w) : Intact p.nuOfBufs.toNat w := by
  have hsound : ∃ views bufs, Sound p.nuOfBufs.toNat p.nuOfViews.toNat w.du w.live views bufs := by
    refine Run.Reach.invariant (S := dataUnits p) (P := fun w => ∃ views bufs,
      Sound p.nuOfBufs.toNat p.nuOfViews.toNat w.du w.live views bufs) ?_ ?_ hr
    · rintro w rfl
      exact buildPool_sound p
    · rintro w c w' o ⟨views, bufs, h⟩ hok hs
      exact h.step (by omega) hok hs
  obtain ⟨views, bufs, h⟩ := hsound
  exact h.intact

/-- A pool of one buffer and two views. -/
def twoViews : Build where
  bufInfo _ := ⟨.pool, 0, 0⟩
  elem _ := ⟨none, none, none, 0⟩
  bufSize := 100
  nuOfBufs := 1
  nuOfViews := 2
  tmEnabled := false

/-- The buffer is shared, the free lists are used up, and both views are freed. -/
theorem dataUnits_intact_two : ∃ o w, Run.Reach (dataUnits twoViews) Lone o w ∧
    o = [.view (some 1), .view (some 0), .view none, .freed, .freedLast .success] ∧
    Intact 1 w := by
  obtain ⟨w, o, hr, hp⟩ := Run.Reach.of_run (S := dataUnits twoViews)
    (b := fun w c => decide (Lone w c)) (fun _ _ hb => of_decide_eq_true hb) rfl
    [.alloc 60, .link (some 1), .alloc 10, .free (some 1), .freeLast (some 0)]
    (fun _ o => decide (o = [.view (some 1), .view (some 0), .view none, .freed, .freedLast .success]))
    (by decide +kernel)
  exact ⟨o, w, hr, of_decide_eq_true hp, dataUnits_intact (by decide) hr⟩

/-- **`DU_freeLast` of a view that shares its buffer**: the buffer is free, and the other view is on it. -/
theorem freeLast_shared : ∃ o w, Run.Reach (dataUnits twoViews) Run.any o w ∧
    o = [.view (some 1), .view (some 0), .freedLast .fail] ∧ w.live = [0] ∧
    (w.du.elem 0).bufInfo = some 0 ∧ w.du.pool.bufFreeList = some 0 ∧ ¬Intact 1 w := by
  obtain ⟨w, o, hr, hp⟩ := Run.Reach.of_run_any (S := dataUnits twoViews) rfl
    [.alloc 60, .link (some 1), .freeLast (some 1)]
    (fun w o => decide (o = [.view (some 1), .view (some 0), .freedLast .fail] ∧ w.live = [0] ∧
      (w.du.elem 0).bufInfo = some 0 ∧ w.du.pool.bufFreeList = some 0 ∧
      (w.du.bufInfo 0).refcnt = 0)) (by decide +kernel)
  obtain ⟨ho, hlive, helem, hfree, hzero⟩ := of_decide_eq_true hp
  refine ⟨o, w, hr, ho, hlive, helem, hfree, fun hin => ?_⟩
  -- the count is that of no view
  have hcount := hin.refcnt 0 Nat.one_pos
  have hone : w.du.refs w.live 0 = 1 := by
    unfold refs
    rw [hlive, List.countP_singleton, helem]
    rfl
  rw [hzero, hone] at hcount
  cases hcount

end DataUnits

end Ocp
