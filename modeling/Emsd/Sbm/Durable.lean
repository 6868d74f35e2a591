import Emsd.Sbm.Nvm

/-!
# Queues that outlive the process

The elements of a queue are in the octets of transactions, and so they are moved when others are
freed, copied when their own is added to, and written to the file. What is lost with a transaction
are its elements: the queue stays one if its elements are lost together.

* `Store.Kept`: the elements in the memory are linked as they should be, and those of committed
  transactions are in the file.
* `queues_outlive`: **whatever the calls, and wherever a process ends, the links are those of rings.**
-/

namespace Sbm

open Octets Ring

variable {c c' : Contents} {E E' : Set Pointer} {l : Links Pointer} {e : Pointer}
  {f f' : Nat → Option (List UInt8)} {old octets : List UInt8} {j k : Nat}

/-! ## The octets of an element -/

/-- The sixteen octets at `k`. -/
def slice (o : List UInt8) (k : Nat) : Option (List UInt8) :=
  if k + 16 ≤ o.length then some ((o.drop k).take 16) else none

/-- The octets of an element, in the octets of the transactions. -/
def cell (f : Nat → Option (List UInt8)) (e : Pointer) : Option (List UInt8) :=
  (f e.hTrans.toNat).bind (slice · e.hMem.toNat)

theorem slice_append (hk : k + 16 ≤ old.length) : slice (old ++ octets) k = slice old k := by
  unfold slice
  rw [if_pos (by rw [List.length_append]; omega), if_pos hk,
    List.drop_append_of_le_length (by omega), List.take_append_of_le_length]
  rw [List.length_drop]
  omega

theorem slice_patch (hroom : j + octets.length ≤ old.length)
    (hapart : j + octets.length ≤ k ∨ k + 16 ≤ j) : slice (patch old j octets) k = slice old k := by
  have hsame : ((patch old j octets).drop k).take 16 = (old.drop k).take 16 := by
    refine List.ext_getElem? fun i => ?_
    rw [List.getElem?_take, List.getElem?_take, List.getElem?_drop, List.getElem?_drop]
    split
    · exact patch_getElem? hroom (by omega)
    · rfl
  unfold slice
  rw [patch_length hroom, hsame]

theorem pointerAt_slice (hj : j + 8 ≤ 16) :
    pointerAt ((old.drop k).take 16) j = pointerAt old (k + j) := by
  have hat : ∀ i, i < 16 → ((old.drop k).take 16).getD i 0 = old.getD (k + i) 0 := by
    intro i hi
    rw [List.getD_eq_getElem?_getD, List.getD_eq_getElem?_getD, List.getElem?_take, if_pos hi,
      List.getElem?_drop]
  unfold pointerAt wordAt
  simp only [hat _ (show j < 16 by omega), hat _ (show j + 1 < 16 by omega),
    hat _ (show j + 2 < 16 by omega), hat _ (show j + 3 < 16 by omega),
    hat _ (show j + 4 < 16 by omega), hat _ (show j + 4 + 1 < 16 by omega),
    hat _ (show j + 4 + 2 < 16 by omega), hat _ (show j + 4 + 3 < 16 by omega), Nat.add_assoc]

theorem cell_some (hf : f e.hTrans.toNat = some old) : cell f e = slice old e.hMem.toNat := by
  unfold cell
  rw [hf]
  rfl

theorem cell_congr (hf : f e.hTrans.toNat = f' e.hTrans.toNat) : cell f e = cell f' e :=
  congrArg (Option.bind · (slice · e.hMem.toNat)) hf

theorem placed_iff : c.Placed e ↔ ∃ o, cell c.view e = some o := by
  constructor
  · rintro ⟨o, ho, hlen⟩
    exact ⟨_, (cell_some ho).trans (if_pos hlen)⟩
  · rintro ⟨o, ho⟩
    obtain ⟨o', ho', hslice⟩ := Option.bind_eq_some_iff.1 ho
    unfold slice at hslice
    split at hslice
    · rename_i hlen
      exact ⟨o', ho', hlen⟩
    · cases hslice

/-- The links of an element are in its octets. -/
theorem links_cell (hp : c.Placed e) : c.links.next e = pointerAt ((cell c.view e).getD []) 0 ∧
    c.links.prev e = pointerAt ((cell c.view e).getD []) 8 := by
  obtain ⟨o, ho, hlen⟩ := hp
  have hslice : cell c.view e = some ((o.drop e.hMem.toNat).take 16) :=
    (cell_some ho).trans (if_pos hlen)
  unfold Contents.links
  dsimp only
  rw [ho, hslice, Option.getD_some, Option.getD_some, pointerAt_slice (by omega),
    pointerAt_slice (by omega)]
  exact ⟨rfl, rfl⟩

/-- **The elements stay linked** as long as their octets stay. -/
theorem Linked.congr (hl : Linked c E l) (hcell : ∀ e ∈ E, cell c'.view e = cell c.view e) :
    Linked c' E l := by
  have hplaced : ∀ e ∈ E, c'.Placed e := by
    intro e he
    rw [placed_iff, hcell e he]
    exact placed_iff.1 (hl.placed e he)
  refine ⟨hplaced, hl.apart, hl.closed, fun e he => ?_, fun e he => ?_⟩
  · rw [(links_cell (hplaced e he)).1, hcell e he, ← (links_cell (hl.placed e he)).1]
    exact hl.next e he
  · rw [(links_cell (hplaced e he)).2, hcell e he, ← (links_cell (hl.placed e he)).2]
    exact hl.prev e he

theorem Linked.restrict (hl : Linked c E l) (hc : Coherent l E') (hsub : E' ⊆ E) : Linked c E' l :=
  ⟨fun e he => hl.placed e (hsub he), fun e he g hg => hl.apart e (hsub he) g (hsub hg),
    fun e he => ⟨hc.next_mem e he, hc.prev_mem e he⟩, fun e he => hl.next e (hsub he),
    fun e he => hl.prev e (hsub he)⟩

theorem Contents.view_idle (hidle : c.inProcess = none) : c.view = c.committed := by
  funext h
  unfold Contents.view
  rw [hidle]

theorem Contents.view_opened {g : Nat} {new : List UInt8} (hopen : c.inProcess = some (g, new)) (h : Nat) :
    c.view h = if g = h then some new else c.committed h := by
  unfold Contents.view
  rw [hopen]

/-- Octets are stored beside an element. -/
theorem cell_write {h : Nat} (hp : c.Placed e)
    (hroom : ∀ o, c.view h = some o → k + octets.length ≤ o.length)
    (hapart : e.hTrans.toNat = h → k + octets.length ≤ e.hMem.toNat ∨ e.hMem.toNat + 16 ≤ k) :
    cell (c.write h k octets).view e = cell c.view e := by
  obtain ⟨o, ho, -⟩ := hp
  unfold cell
  rw [Contents.view_write]
  split
  · rename_i he
    rw [← he, ho]
    exact slice_patch (hroom o (he ▸ ho)) (hapart he)
  · rfl

end Sbm

namespace Nvm

open Octets Sbm Run Ring

variable {s : Globals} {a b : Store} {c c' : Contents} {E E' : Set Pointer} {l : Links Pointer}
  {e : Pointer} {i : Sbm.Input} {o : Out}

/-! ## What is kept -/

/-- A transaction in process is a new one, and not an addition. -/
def Separate (c : Contents) : Prop := ∀ g new, c.inProcess = some (g, new) → c.committed g = none

/-- The elements in the memory are linked as in `l`, and those in committed transactions are in the
committed octets and in the file as well. -/
structure Store.Kept (a : Store) (E : Set Pointer) (l : Links Pointer) : Prop where
  linked : Linked a.contents E l
  coherent : Coherent l E
  committed : ∀ e ∈ E, a.contents.committed e.hTrans.toNat ≠ none →
    cell a.contents.committed e = cell a.contents.view e
  saved : ∀ e ∈ E, a.contents.committed e.hTrans.toNat ≠ none → cell a.saved e = cell a.contents.view e

/-- Everything is saved while no transaction is added to. -/
theorem Store.Kept.save (hl : Linked c E l) (hc : Coherent l E) (hsep : Separate c) :
    (Store.save c).Kept E l := by
  have hsame : ∀ e ∈ E, c.committed e.hTrans.toNat ≠ none → cell c.committed e = cell c.view e := by
    intro e _ he
    unfold cell
    congr 1
    unfold Contents.view
    split
    · rfl
    · rename_i g new hopen
      rw [if_neg]
      rintro rfl
      exact he (hsep _ _ hopen)
  exact ⟨hl, hc, hsame, hsame⟩

theorem Store.Kept.empty (hE : E = ∅) : a.Kept E l := by
  have hnone : ∀ {P : Pointer → Prop}, ∀ e ∈ E, P e := by
    intro P e he
    rw [hE] at he
    exact he.elim
  exact ⟨⟨hnone, hnone, hnone, hnone, hnone⟩, ⟨hnone, hnone, hnone, hnone⟩, hnone, hnone⟩

/-- The transaction `h` is lost when the call is made. -/
def Loses (c : Contents) (i : Sbm.Input) (h : Nat) : Prop :=
  match i with
  | .abortTrans => c.committed h = none
  | .freeTrans k => c.inProcess = none ∧ h = k.toNat
  | _ => False

/-- Octets are not stored in an element. -/
def Beside (i : Sbm.Input) (e : Pointer) : Prop :=
  match i with
  | .store h hMem octets =>
    h = e.hTrans → hMem.toNat + octets.length ≤ e.hMem.toNat ∨ e.hMem.toNat + 16 ≤ hMem.toNat
  | _ => True

/-- What a call of the block leaves of an element. -/
structure Left (a : Store) (c' : Contents) (i : Sbm.Input) (o : Out) (e : Pointer) : Prop where
  view : cell c'.view e = cell a.contents.view e
  committed : c'.committed e.hTrans.toNat ≠ none → cell c'.committed e = cell c'.view e
  saved : ¬Saves i o → c'.committed e.hTrans.toNat ≠ none → cell a.saved e = cell c'.view e

/-- A call that commits and saves nothing. -/
theorem Store.Kept.uncommitted (hk : a.Kept E l) (he : e ∈ E) (hcommitted : c'.committed = a.contents.committed)
    (hview : cell c'.view e = cell a.contents.view e) : Left a c' i o e := by
  refine ⟨hview, fun hc => ?_, fun _ hc => ?_⟩
  · rw [hcommitted] at hc ⊢
    exact (hk.committed e he hc).trans hview.symm
  · rw [hcommitted] at hc
    exact (hk.saved e he hc).trans hview.symm

/-- Octets are appended to the transaction in process. -/
theorem Store.Kept.extended {h : Nat} {old rest : List UInt8} (hk : a.Kept E l) (he : e ∈ E)
    (hopen : a.contents.inProcess = some (h, old)) :
    Left a { a.contents with inProcess := some (h, old ++ rest) } i o e := by
  obtain ⟨o, ho, hlen⟩ := hk.linked.placed e he
  refine hk.uncommitted he rfl ?_
  unfold cell
  rw [Contents.view_opened rfl, Contents.view_opened hopen]
  rw [Contents.view_opened hopen] at ho
  split
  · rename_i hh
    rw [if_pos hh] at ho
    cases ho
    exact slice_append hlen
  · rfl

/-- Octets that are stored beside an element leave it. -/
theorem stored_view {h hMem : UInt32} {octets : List UInt8}
    (ht : Transacts c (.store h hMem octets) .success c') (hp : c.Placed e)
    (hbeside : Beside (.store h hMem octets) e) : cell c'.view e = cell c.view e := by
  rw [ht.stored_eq]
  refine cell_write hp ?_ fun hh => hbeside (UInt32.toNat_inj.1 hh.symm)
  intro o ho
  cases ht with
  | stored hold hother hroom =>
    unfold Contents.view at ho
    split at ho
    · rw [hold] at ho
      cases ho
      exact hroom
    · rename_i g new hin
      rw [if_neg, hold] at ho
      · cases ho
        exact hroom
      · rintro rfl
        exact hother new hin
  | storedNew hin hroom =>
    rw [Contents.view_opened hin, if_pos rfl] at ho
    cases ho
    exact hroom

/-- **What is not lost is left**, by any call of the block. -/
theorem Store.Kept.left (hk : a.Kept E l) (he : e ∈ E) (ht : Transacts a.contents i o c')
    (hopen : ∀ n, i ≠ .openBlock n) (hlost : ¬Loses a.contents i e.hTrans.toNat) (hbeside : Beside i e) :
    Left a c' i o e := by
  have hplaced := hk.linked.placed e he
  obtain ⟨old, hold, hlen⟩ := hplaced
  have hsame : Left a a.contents i o e :=
    ⟨rfl, fun hc => hk.committed e he hc, fun _ hc => hk.saved e he hc⟩
  have hcall := ht
  cases ht with
  | opened _ => exact absurd rfl (hopen _)
  | reopened _ => exact absurd rfl (hopen _)
  | refused => exact hsame
  | nullString _ => exact hsame
  | allocated hin _ => exact hk.extended he hin
  | copied hin => exact hk.extended he hin
  | @begun ty osAlloc h hidle hnew =>
    have hview : ({ a.contents with inProcess := some (h, []) } : Contents).view e.hTrans.toNat =
        a.contents.view e.hTrans.toNat := by
      rw [Contents.view_opened rfl, Contents.view_idle hidle, if_neg]
      rintro rfl
      rw [Contents.view_idle hidle, hnew] at hold
      cases hold
    exact hk.uncommitted he rfl (cell_congr hview)
  | @added h osAlloc old' hidle hold' =>
    have hview : ({ a.contents with inProcess := some (h.toNat, old') } : Contents).view
        e.hTrans.toNat = a.contents.view e.hTrans.toNat := by
      rw [Contents.view_opened rfl, Contents.view_idle hidle]
      split
      · rename_i hh
        rw [← hh, hold']
      · rfl
    exact hk.uncommitted he rfl (cell_congr hview)
  | @ended h new hin =>
    have hview : (⟨Function.update a.contents.committed h (some new), none⟩ : Contents).view
        e.hTrans.toNat = a.contents.view e.hTrans.toNat := by
      rw [Contents.view_opened hin, Contents.view_idle rfl]
      show Function.update _ _ _ _ = _
      rw [Function.update_apply]
      simp only [eq_comm]
    exact ⟨cell_congr hview, fun _ => rfl, fun hs _ => absurd trivial hs⟩
  | aborted hin =>
    have hcommitted : a.contents.committed e.hTrans.toNat ≠ none := hlost
    exact ⟨hk.committed e he hcommitted, fun _ => rfl,
      fun _ hc => (hk.saved e he hc).trans (hk.committed e he hc).symm⟩
  | @freed h old' hidle hold' =>
    have hne : e.hTrans.toNat ≠ h.toNat := fun hh => hlost ⟨hidle, hh⟩
    generalize hc' : (⟨Function.update a.contents.committed h.toNat none,
      a.contents.inProcess⟩ : Contents) = c'
    have hidle' : c'.inProcess = none := by rw [← hc', hidle]
    have hview : c'.view e.hTrans.toNat = a.contents.view e.hTrans.toNat := by
      rw [Contents.view_idle hidle, Contents.view_idle hidle', ← hc']
      exact Function.update_of_ne hne ..
    refine ⟨cell_congr hview, fun _ => ?_, fun hs _ => absurd trivial hs⟩
    rw [Contents.view_idle hidle']
  | @stored h hMem octets old' hold' hother hroom =>
    have hview := stored_view hcall (hk.linked.placed e he) hbeside
    have hcell : cell (Function.update a.contents.committed h.toNat
        (some (patch old' hMem.toNat octets))) e = cell a.contents.committed e := by
      unfold cell
      rw [Function.update_apply]
      split
      · rename_i hh
        rw [hh, hold']
        exact slice_patch hroom (hbeside (UInt32.toNat_inj.1 hh.symm))
      · rfl
    have hcommitted : Function.update a.contents.committed h.toNat
        (some (patch old' hMem.toNat octets)) e.hTrans.toNat ≠ none →
        a.contents.committed e.hTrans.toNat ≠ none := by
      rw [Function.update_apply]
      split
      · rename_i hh
        rw [hh, hold']
        exact fun _ => Option.some_ne_none _
      · exact id
    exact ⟨hview, fun hc => hcell.trans ((hk.committed e he (hcommitted hc)).trans hview.symm),
      fun _ hc => (hk.saved e he (hcommitted hc)).trans hview.symm⟩
  | @storedNew h hMem octets new hin hroom =>
    exact hk.uncommitted he rfl (stored_view hcall (hk.linked.placed e he) hbeside)

/-! ## Queues -/

/-- The module, with the elements that have been initialised and the links that they should have. -/
structure Queued where
  nvm : Globals
  elements : List Pointer
  links : Links Pointer

instance (c : Contents) (h : Nat) : (i : Sbm.Input) → Decidable (Loses c i h)
  | .abortTrans => inferInstanceAs (Decidable (c.committed h = none))
  | .freeTrans k => inferInstanceAs (Decidable (c.inProcess = none ∧ h = k.toNat))
  | .openBlock _ | .beginTrans .. | .alloc _ | .allocStringCopy _ | .addToTrans .. | .endTrans
  | .store .. => .isFalse id

/-- The transaction `h` is lost when the call is made: with a process, what has not been committed. -/
def Globals.Loses (s : Globals) (i : Input) (h : Nat) : Prop :=
  match i with
  | .openFile _ memSize => memSize ≠ 0 ∨ s.sbm.contents.committed h = none
  | .call i => Nvm.Loses s.sbm.contents i h
  | _ => False

instance (s : Globals) (h : Nat) : (i : Input) → Decidable (s.Loses i h)
  | .openFile _ memSize => inferInstanceAs (Decidable (memSize ≠ 0 ∨ s.sbm.contents.committed h = none))
  | .call i => inferInstanceAs (Decidable (Nvm.Loses s.sbm.contents i h))
  | .quInit _ | .quInsert .. | .quRemove _ | .sync => .isFalse id

namespace Queued

/-- The elements after a call: those that are not lost, and a new one. -/
def elementsAfter (q : Queued) : Input → List Pointer
  | .quInit e => e :: q.elements
  | i => q.elements.filter fun e => ¬q.nvm.Loses i e.hTrans.toNat

/-- The links after a call: an insertion is one, and a removal is one. -/
def linksAfter (q : Queued) : Input → Links Pointer
  | .quInit e => isolate q.links e
  | .quInsert x y => insert q.links x y
  | .quRemove e => remove q.links e
  | _ => q.links

/-- A ring is lost as a whole. -/
def Whole (q : Queued) (i : Input) : Prop :=
  ∀ e ∈ q.elements, q.nvm.Loses i (q.links.next e).hTrans.toNat ↔ q.nvm.Loses i e.hTrans.toNat

/-- The condition on a call: the one of the module, elements do not overlap, nothing is stored in them
but their links, and a ring is lost as a whole. -/
def Conforms (q : Queued) (i : Input) : Prop :=
  q.Whole i ∧
    match i with
    | .openFile _ memSize => memSize = 0 ∨ 12 ≤ roundDown memSize.toNat
    | .call i => q.nvm.sbm.Conforms i ∧ ∀ e ∈ q.elements, Beside i e
    | .quInit e => (q.nvm.sbm.contents.Placed e ∧ ∀ f ∈ q.elements, e.Apart f) ∧ q.nvm.Savable
    | .quInsert x y => (x ∈ q.elements ∧ y ∈ q.elements) ∧ q.nvm.Savable
    | .quRemove e => e ∈ q.elements ∧ q.nvm.Savable
    | .sync => q.nvm.Savable

instance (e f : Pointer) : Decidable (e.Apart f) := inferInstanceAs (Decidable (_ ∨ _))

instance (e : Pointer) : (i : Sbm.Input) → Decidable (Beside i e)
  | .store h hMem octets => inferInstanceAs (Decidable (h = e.hTrans →
      hMem.toNat + octets.length ≤ e.hMem.toNat ∨ e.hMem.toNat + 16 ≤ hMem.toNat))
  | .openBlock _ | .beginTrans .. | .alloc _ | .allocStringCopy _ | .addToTrans .. | .endTrans
  | .abortTrans | .freeTrans _ => .isTrue trivial

instance (q : Queued) (i : Input) : Decidable (q.Conforms i) :=
  haveI : Decidable (q.Whole i) := List.decidableBAll _ _
  haveI : Decidable q.nvm.Savable := inferInstanceAs (Decidable (q.nvm.sbm.Accounted (.openBlock 0)))
  match i with
  | .openFile _ memSize =>
    inferInstanceAs (Decidable (_ ∧ (memSize = 0 ∨ 12 ≤ roundDown memSize.toNat)))
  | .call i => inferInstanceAs (Decidable (_ ∧ q.nvm.sbm.Conforms i ∧ ∀ e ∈ q.elements, Beside i e))
  | .quInit e => inferInstanceAs (Decidable (_ ∧ (q.nvm.sbm.contents.Placed e ∧
      ∀ f ∈ q.elements, e.Apart f) ∧ q.nvm.Savable))
  | .quInsert x y =>
    inferInstanceAs (Decidable (_ ∧ (x ∈ q.elements ∧ y ∈ q.elements) ∧ q.nvm.Savable))
  | .quRemove e => inferInstanceAs (Decidable (_ ∧ e ∈ q.elements ∧ q.nvm.Savable))
  | .sync => inferInstanceAs (Decidable (_ ∧ q.nvm.Savable))

end Queued

/-- The module, from an empty file on. -/
def queues : Sys Queued Input Out where
  init q := system.init q.nvm ∧ q.elements = [] ∧ q.links = alone
  step q i := (q.nvm.step i).map fun r => (⟨r.1, q.elementsAfter i, q.linksAfter i⟩, r.2)

/-- The module stands for a store in which the elements are linked as they should be. -/
def Queued.Kept (q : Queued) : Prop :=
  ∃ a, Backed q.nvm a ∧ a.Kept {e | e ∈ q.elements} q.links

theorem Backed.separate (hb : Backed s a) (hc : s.Savable) : Separate a.contents := by
  intro g new hin
  rw [← hb.contents] at hin ⊢
  have hcases : s.sbm.spare = 0 ∨ (s.sbm.spare = s.sbm.opened ∧ transAllocated s.sbm.mem < s.sbm.spare) := hc
  rcases hb.sound with ⟨order, -, hidle⟩ | ⟨order, p, k, t, ho⟩
  · rw [contents_idle hidle] at hin
    cases hin
  · have hl := ho.laid
    have hspare := ho.spare
    rw [hl.spare, hl.opened] at hcases
    rw [ho.contents_inProcess] at hin
    cases hin
    obtain ⟨rfl, -⟩ : k = g ∧ transAllocated s.sbm.mem < k := hcases.resolve_left (by omega)
    rw [hl.committed, if_neg ho.not_mem]

theorem Separate.write {h k : Nat} {octets : List UInt8} (hs : Separate c) :
    Separate (c.write h k octets) := by
  intro g new hin
  unfold Contents.write at hin ⊢
  cases hc : c.inProcess with
  | none =>
    rw [hc] at hin
    cases hin
  | some r =>
    obtain ⟨g', new'⟩ := r
    have hnone := hs g' new' hc
    rw [hc] at hin
    dsimp only at hin ⊢
    split at hin
    · rename_i hgh
      cases hin
      rw [if_pos hgh]
      exact hnone
    · rename_i hgh
      cases hin
      rw [if_neg hgh]
      exact (Function.update_of_ne hgh ..).trans hnone

/-- The elements of `q` that a call leaves. -/
def Queued.remaining (q : Queued) (i : Input) : Set Pointer :=
  {e | e ∈ q.elements ∧ ¬q.nvm.Loses i e.hTrans.toNat}

theorem Queued.elementsAfter_eq (q : Queued) {i : Input} (hi : ∀ e, i ≠ .quInit e) :
    {e | e ∈ q.elementsAfter i} = q.remaining i := by
  have hfilter : q.elementsAfter i = q.elements.filter fun e => ¬q.nvm.Loses i e.hTrans.toNat := by
    cases i with
    | quInit e => exact absurd rfl (hi e)
    | _ => rfl
  ext e
  rw [hfilter, Set.mem_ofPred_eq, List.mem_filter, decide_eq_true_iff]
  rfl

/-- Nothing is lost, and no element is new. -/
theorem Queued.elementsAfter_same (q : Queued) {i : Input} (hi : ∀ e, i ≠ .quInit e)
    (hlost : ∀ h, ¬q.nvm.Loses i h) : {e | e ∈ q.elementsAfter i} = {e | e ∈ q.elements} :=
  (q.elementsAfter_eq hi).trans (Set.ext fun _ => and_iff_left (hlost _))

/-- The elements that a call leaves are linked among themselves. -/
theorem Queued.Whole.coherent {q : Queued} {i : Input} (hw : q.Whole i)
    (hc : Coherent q.links {e | e ∈ q.elements}) : Coherent q.links (q.remaining i) := by
  refine hc.restrict (fun e he => he.1) (fun e he => ?_) fun e he => ?_
  · exact ⟨hc.next_mem e he.1, fun h => he.2 ((hw e he.1).1 h)⟩
  · refine ⟨hc.prev_mem e he.1, fun h => he.2 ?_⟩
    rw [← hc.next_prev e he.1]
    exact (hw _ (hc.prev_mem e he.1)).2 h

/-- **A process that opens the file** has the elements that were in committed transactions. -/
theorem Store.Kept.restarted (hk : a.Kept E l) (hc : Coherent l E') (hsub : E' ⊆ E)
    (hcommitted : ∀ e ∈ E', a.contents.committed e.hTrans.toNat ≠ none) :
    (Store.mk ⟨a.saved, none⟩ a.saved).Kept E' l := by
  refine Store.Kept.save (c := ⟨a.saved, none⟩) ?_ hc fun g new hin => by cases hin
  refine (hk.linked.restrict hc hsub).congr fun e he => ?_
  exact hk.saved e (hsub he) (hcommitted e he)

/-- **A call of the block** leaves the elements that are not lost. -/
theorem Store.Kept.called (hk : a.Kept E l) (hc : Coherent l E') (hsub : E' ⊆ E)
    (hlost : ∀ e ∈ E', ¬Loses a.contents i e.hTrans.toNat) (hbeside : ∀ e ∈ E', Beside i e)
    (hopen : ∀ n, i ≠ .openBlock n) {o : List Out} (hp : Persists a (.call i) o b) : b.Kept E' l := by
  have hleft : ∀ {o c'}, Transacts a.contents i o c' → ∀ e ∈ E', Left a c' i o e := fun ht e he =>
    hk.left (hsub he) ht hopen (hlost e he) (hbeside e he)
  have hlinked : ∀ {o c'}, Transacts a.contents i o c' → Linked c' E' l := fun ht =>
    (hk.linked.restrict hc hsub).congr fun e he => (hleft ht e he).view
  cases hp with
  | called ht hsaves =>
    exact ⟨hlinked ht, hc, fun e he => (hleft ht e he).committed,
      fun e he => (hleft ht e he).saved hsaves⟩
  | saving ht _ =>
    exact ⟨hlinked ht, hc, fun e he => (hleft ht e he).committed,
      fun e he => (hleft ht e he).committed⟩

/-- **A call keeps the queues.** -/
theorem Queued.Kept.step {q r : Queued} {i : Input} {o : List Out} (hk : q.Kept) (hc : q.Conforms i)
    (hs : queues.step q i = some (r, o)) : r.Kept := by
  obtain ⟨a, hb, hk⟩ := hk
  obtain ⟨⟨t, o'⟩, hstep, hr⟩ := Option.map_eq_some_iff.1 hs
  obtain ⟨rfl, rfl⟩ := Prod.mk.inj hr
  obtain ⟨hwhole, hc⟩ := hc
  have hl := hk.linked
  rw [← hb.contents] at hl
  have hcoherent := hwhole.coherent hk.coherent
  unfold Queued.Kept
  cases i with
  | openFile pMem memSize =>
    obtain ⟨b, hpersists, hb'⟩ := hb.step (i := .openFile pMem memSize) hc hstep
    refine ⟨b, hb', ?_⟩
    rw [elementsAfter_eq q (by rintro _ ⟨⟩)]
    -- a new file has no elements, and an old one those that have been committed
    have hkept : ∀ e ∈ q.remaining (.openFile pMem memSize),
        memSize = 0 ∧ a.contents.committed e.hTrans.toNat ≠ none := by
      intro e he
      rw [← hb.contents]
      exact ⟨of_not_not fun h => he.2 (.inl h), fun h => he.2 (.inr h)⟩
    cases hpersists with
    | created hsize =>
      exact .empty (Set.eq_empty_iff_forall_notMem.2 fun e he => hsize (hkept e he).1)
    | restarted => exact hk.restarted hcoherent (fun e he => he.1) fun e he => (hkept e he).2
  | call i =>
    obtain ⟨b, hpersists, hb'⟩ := hb.step (i := .call i) hc.1 hstep
    refine ⟨b, hb', ?_⟩
    rw [elementsAfter_eq q (by rintro _ ⟨⟩)]
    refine hk.called hcoherent (fun e he => he.1) (fun e he => ?_) (fun e he => hc.2 e he.1) ?_ hpersists
    · rw [← hb.contents]
      exact he.2
    · rintro n rfl
      cases hstep
  | quInit e =>
    obtain ⟨⟨hplaced, hapart⟩, hsavable⟩ := hc
    obtain ⟨b, hpersists, hb'⟩ := hb.step (i := .quInit e) ⟨hplaced, hsavable⟩ hstep
    refine ⟨b, hb', ?_⟩
    cases hpersists
    rw [hb.contents] at hplaced
    have hset : {f | f ∈ q.elementsAfter (.quInit e)} = Insert.insert e {f | f ∈ q.elements} :=
      Set.ext fun f => List.mem_cons
    -- an element is not apart from itself
    have hnew : e ∉ {f | f ∈ q.elements} := fun he => by
      rcases hapart e he with hself | hself | hself
      · exact hself rfl
      · omega
      · omega
    rw [hset]
    refine .save (hk.linked.quInit hplaced fun f hf => .inr (hapart f hf)) (hk.coherent.isolate hnew) ?_
    exact (hb.separate hsavable).write.write
  | quInsert x y =>
    obtain ⟨⟨hx, hy⟩, hsavable⟩ := hc
    obtain ⟨b, hpersists, hb'⟩ := hb.step (i := .quInsert x y) ⟨⟨_, _, hl, hx, hy⟩, hsavable⟩ hstep
    refine ⟨b, hb', ?_⟩
    cases hpersists
    have hlinked := (hb.sound.quInsert hl hx hy).linked
    rw [hb.contents] at hlinked
    rw [elementsAfter_same q (by rintro _ ⟨⟩) fun _ => id]
    exact .save hlinked (hk.coherent.insert hx hy) (hb.separate hsavable).write.write.write.write
  | quRemove e =>
    obtain ⟨he, hsavable⟩ := hc
    obtain ⟨b, hpersists, hb'⟩ := hb.step (i := .quRemove e) ⟨⟨_, _, hl, he⟩, hsavable⟩ hstep
    refine ⟨b, hb', ?_⟩
    cases hpersists
    have hlinked := (hb.sound.quRemove hl he).linked
    rw [hb.contents] at hlinked
    rw [elementsAfter_same q (by rintro _ ⟨⟩) fun _ => id]
    exact .save hlinked (hk.coherent.remove he) (hb.separate hsavable).write.write.write.write
  | sync =>
    obtain ⟨b, hpersists, hb'⟩ := hb.step (i := .sync) hc hstep
    refine ⟨b, hb', ?_⟩
    cases hpersists
    rw [elementsAfter_same q (by rintro _ ⟨⟩) fun _ => id]
    exact .save hk.linked hk.coherent (hb.separate hc)

/-! ## Runs -/

/-- **Queues outlive the process.** In a run whose calls conform, each element that has not been lost
is linked, in the memory, to those that it should be linked to, which have not been lost either, and
backwards as forwards. -/
theorem queues_outlive {q : Queued} {log : List Out} (hr : Reach queues Queued.Conforms log q) :
    Coherent q.links {e | e ∈ q.elements} ∧ ∀ e ∈ q.elements,
      quNext q.nvm.sbm.mem e = q.links.next e ∧ quPrev q.nvm.sbm.mem e = q.links.prev e := by
  have hkept : q.Kept := by
    refine hr.invariant ?_ fun _ _ _ _ hk hc hs => hk.step hc hs
    rintro q ⟨⟨s₀, pMem, memSize, hsize, hnvm⟩, helements, -⟩
    refine ⟨_, hnvm ▸ backed_created s₀ pMem hsize, .empty ?_⟩
    rw [helements]
    exact Set.eq_empty_iff_forall_notMem.2 fun _ he => List.not_mem_nil he
  obtain ⟨a, hb, hk⟩ := hkept
  have hl := hk.linked
  rw [← hb.contents] at hl
  refine ⟨hk.coherent, fun e he => ?_⟩
  have hspot := (hl.placed e he).spot
  exact ⟨hspot.next.trans (hl.next e he), hspot.prev.trans (hl.prev e he)⟩

/-- A transaction with a queue of two elements, another one that is in process when the process ends,
and the next process. -/
def queueRun : List Input :=
  [.call (.beginTrans 1 true), .call (.alloc 32), .quInit ⟨1, 0⟩, .quInit ⟨1, 16⟩,
    .quInsert ⟨1, 16⟩ ⟨1, 0⟩, .call .endTrans, .call (.beginTrans 2 true), .call (.alloc 8),
    .openFile (fun _ => 0) 0]

theorem queues_outlive_restart : ∃ q : Queued, q.elements = [⟨1, 16⟩, ⟨1, 0⟩] ∧
    q.links.next ⟨1, 0⟩ = ⟨1, 16⟩ ∧
    Coherent q.links {e | e ∈ q.elements} ∧ ∀ e ∈ q.elements,
      quNext q.nvm.sbm.mem e = q.links.next e ∧ quPrev q.nvm.sbm.mem e = q.links.prev e := by
  obtain ⟨q, log, hr, hp⟩ := Reach.of_run (S := queues)
    (b := fun q i => decide (q.Conforms i))
    (fun q i (h : decide (q.Conforms i) = true) => of_decide_eq_true h)
    (s := ⟨(⟨openBlock (fun _ => 0) 0, 0, []⟩ : Globals).openFile (fun _ => 0) 100, [], alone⟩)
    ⟨⟨⟨openBlock (fun _ => 0) 0, 0, []⟩, fun _ => 0, 100, by decide, rfl⟩, rfl, rfl⟩ queueRun
    (fun q _ => decide (q.elements = [⟨1, 16⟩, ⟨1, 0⟩] ∧ q.links.next ⟨1, 0⟩ = ⟨1, 16⟩))
    (by decide +kernel)
  obtain ⟨h₁, h₂⟩ := of_decide_eq_true hp
  exact ⟨q, h₁, h₂, queues_outlive hr⟩

end Nvm
