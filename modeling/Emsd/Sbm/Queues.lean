import Emsd.Lib.Ring
import Emsd.Sbm.Runs

/-!
# Queues in a block (`sbm.c`)

The elements of a queue are in allocations, and are linked by handles instead of pointers, so that
they may be moved and saved with the block. A call reads and writes the links through
`SBM_getMemPointer`.

* `links_write`: while no two elements overlap, writing one link leaves every other one.
* `Sound.putPointer`: to the users of the block, a link that is written is a store.
* `Sound.quInit`, `Sound.quInsert`, `Sound.quRemove`: **a call writes the links of the elements it is
  about and nothing else**, and the links in the block are those of a ring.
-/

namespace Sbm

open Octets Ring

variable {m : Memory} {s : Globals} {c : Contents} {E : Set Pointer}

/-! ## Elements -/

/-- `SBM_Pointer`: the handles of an allocation. -/
structure Pointer where
  hTrans : UInt32
  hMem : UInt32
  deriving DecidableEq, Repr

/-- `SBM_getMemPointer` of the handles. -/
def Pointer.mem (m : Memory) (p : Pointer) : Int := getMemPointer m p.hTrans.toNat p.hMem.toNat

def getPointer (m : Memory) (a : Int) : Pointer :=
  ⟨.ofNat (get32 m a), .ofNat (get32 m (a + 4))⟩

def putPointer (m : Memory) (a : Int) (p : Pointer) : Memory :=
  put32 (put32 m a p.hTrans.toNat) (a + 4) p.hMem.toNat

/-- `SBM_quInit`: the element is the next one and the previous one to itself. -/
def quInit (m : Memory) (element : Pointer) : Memory :=
  let pQElement := element.mem m
  putPointer (putPointer m pQElement element) (pQElement + 8) element

/-- `SBM_quInsert`. -/
def quInsert (m : Memory) (insertMe beforeMe : Pointer) : Memory :=
  let pInsertMe := insertMe.mem m
  let pBeforeMe := beforeMe.mem m
  let pBeforePrev := (getPointer m (pBeforeMe + 8)).mem m
  let m := putPointer m pBeforePrev insertMe
  let tempElement := getPointer m (pInsertMe + 8)
  let pTempElement := tempElement.mem m
  let m := putPointer m pTempElement beforeMe
  let m := putPointer m (pInsertMe + 8) (getPointer m (pBeforeMe + 8))
  putPointer m (pBeforeMe + 8) tempElement

/-- `SBM_quRemove`. -/
def quRemove (m : Memory) (removeMe : Pointer) : Memory :=
  let pRemoveMe := removeMe.mem m
  let pRemoveNext := (getPointer m pRemoveMe).mem m
  let pRemovePrev := (getPointer m (pRemoveMe + 8)).mem m
  let m := putPointer m (pRemoveNext + 8) (getPointer m (pRemoveMe + 8))
  let m := putPointer m pRemovePrev (getPointer m pRemoveMe)
  let m := putPointer m pRemoveMe removeMe
  putPointer m (pRemoveMe + 8) removeMe

/-- `SBM_quNext`. -/
def quNext (m : Memory) (this : Pointer) : Pointer := getPointer m (this.mem m)

/-- `SBM_quPrev`. -/
def quPrev (m : Memory) (this : Pointer) : Pointer := getPointer m (this.mem m + 8)

/-! ## Octets of a link -/

/-- The four octets of a word. -/
def wordOctets (v : UInt32) : List UInt8 :=
  [.ofNat v.toNat, .ofNat (v.toNat / 256), .ofNat (v.toNat / 65536), .ofNat (v.toNat / 16777216)]

def Pointer.octets (p : Pointer) : List UInt8 := wordOctets p.hTrans ++ wordOctets p.hMem

@[simp] theorem Pointer.octets_length (p : Pointer) : p.octets.length = 8 := rfl

/-- The word that is read at `k` of the octets `l`. -/
def wordAt (l : List UInt8) (k : Nat) : UInt32 :=
  .ofNat ((l.getD k 0).toNat + 256 * (l.getD (k + 1) 0).toNat + 65536 * (l.getD (k + 2) 0).toNat +
    16777216 * (l.getD (k + 3) 0).toNat)

def pointerAt (l : List UInt8) (k : Nat) : Pointer := ⟨wordAt l k, wordAt l (k + 4)⟩

theorem put32_eq_store (m : Memory) (a : Int) (v : UInt32) :
    put32 m a v.toNat = store m a (wordOctets v) := by
  funext x
  unfold put32 store wordOctets
  dsimp only [List.length_cons, List.length_nil]
  split
  · rename_i hx
    rw [if_pos (by omega)]
    obtain h | h | h | h : x - a = 0 ∨ x - a = 1 ∨ x - a = 2 ∨ x - a = 3 := by omega
    all_goals simp [h]
  · rename_i hx
    rw [if_neg (by omega)]

/-- Stores one behind the other are one store. -/
theorem store_store (m : Memory) (a : Int) (k l : List UInt8) :
    store (store m a k) (a + k.length) l = store m a (k ++ l) := by
  funext x
  by_cases h₁ : a + k.length ≤ x ∧ x < a + k.length + l.length
  · rw [store_of_inside h₁.1 h₁.2, store_of_inside (by omega) (by simp; omega),
      List.getD_append_right _ _ _ _ (by omega)]
    congr 1
    omega
  rw [store_of_outside (by omega)]
  by_cases h₂ : a ≤ x ∧ x < a + k.length
  · rw [store_of_inside h₂.1 h₂.2, store_of_inside h₂.1 (by simp; omega),
      List.getD_append _ _ _ _ (by omega)]
  · rw [store_of_outside (by omega), store_of_outside (by simp; omega)]

theorem putPointer_eq_store (m : Memory) (a : Int) (p : Pointer) :
    putPointer m a p = store m a p.octets := by
  unfold putPointer
  rw [put32_eq_store, put32_eq_store]
  exact store_store m a (wordOctets p.hTrans) (wordOctets p.hMem)

theorem get32_read {a : Int} {n k : Nat} (hk : k + 4 ≤ n) :
    UInt32.ofNat (get32 m (a + k)) = wordAt (read m a n) k := by
  have hat : ∀ i, i < n → (read m a n).getD i 0 = m (a + i) := by
    intro i hi
    rw [List.getD_eq_getElem?_getD, read_getElem?, if_pos hi, Option.getD_some]
  unfold wordAt get32
  rw [hat k (by omega), hat (k + 1) (by omega), hat (k + 2) (by omega), hat (k + 3) (by omega)]
  simp only [Int.natCast_add, Int.add_assoc]
  rfl

theorem getPointer_read {a : Int} {n k : Nat} (hk : k + 8 ≤ n) :
    getPointer m (a + k) = pointerAt (read m a n) k := by
  have hnext := get32_read (m := m) (a := a) (n := n) (k := k + 4) (by omega)
  unfold getPointer pointerAt
  rw [get32_read (n := n) (by omega), ← hnext, Int.natCast_add, Int.add_assoc]
  rfl

theorem wordAt_octets (v : UInt32) (r : List UInt8) : wordAt (wordOctets v ++ r) 0 = v := by
  have hv := v.toNat_lt
  refine UInt32.toNat_inj.1 ?_
  unfold wordAt wordOctets
  simp only [List.cons_append, List.nil_append, List.getD_cons_zero, List.getD_cons_succ,
    UInt8.toNat_ofNat', UInt32.toNat_ofNat']
  omega

theorem wordAt_append (k : List UInt8) (l : List UInt8) (i : Nat) :
    wordAt (k ++ l) (k.length + i) = wordAt l i := by
  unfold wordAt
  simp only [List.getD_append_right _ _ _ _ (Nat.le_add_right _ _), Nat.add_sub_cancel_left,
    Nat.add_assoc]

theorem wordAt_congr {l l' : List UInt8} {k : Nat} (h : ∀ i, k ≤ i → i < k + 4 → l'[i]? = l[i]?) :
    wordAt l' k = wordAt l k := by
  unfold wordAt
  simp only [List.getD_eq_getElem?_getD]
  rw [h k (by omega) (by omega), h (k + 1) (by omega) (by omega), h (k + 2) (by omega) (by omega),
    h (k + 3) (by omega) (by omega)]

theorem patch_getElem? {old l : List UInt8} {k i : Nat} (hroom : k + l.length ≤ old.length)
    (hi : i < k ∨ k + l.length ≤ i) : (patch old k l)[i]? = old[i]? := by
  have hlen : (old.take k).length = k := by
    rw [List.length_take]
    omega
  unfold patch
  rw [List.append_assoc, List.getElem?_append, hlen]
  split
  · rename_i hlt
    rw [List.getElem?_take, if_pos hlt]
  · rename_i hlt
    rw [List.getElem?_append, if_neg (by omega), List.getElem?_drop]
    congr 1
    omega

/-- A link that is stored is read again, and every other one is as it was. -/
theorem pointerAt_patch_self {old : List UInt8} {k : Nat} {p : Pointer}
    (hroom : k + 8 ≤ old.length) : pointerAt (patch old k p.octets) k = p := by
  have hlen : (old.take k).length = k := by
    rw [List.length_take]
    omega
  have hlen' : (old.take k ++ wordOctets p.hTrans).length = k + 4 := by
    rw [List.length_append, hlen]
    rfl
  have hoctets : patch old k p.octets =
      old.take k ++ wordOctets p.hTrans ++ (wordOctets p.hMem ++ old.drop (k + 8)) := by
    unfold patch Pointer.octets
    simp only [List.append_assoc]
    rfl
  have hfirst := wordAt_append (old.take k)
    (wordOctets p.hTrans ++ (wordOctets p.hMem ++ old.drop (k + 8))) 0
  have hsecond := wordAt_append (old.take k ++ wordOctets p.hTrans)
    (wordOctets p.hMem ++ old.drop (k + 8)) 0
  rw [wordAt_octets, hlen, ← List.append_assoc] at hfirst
  rw [wordAt_octets, hlen'] at hsecond
  rw [hoctets]
  exact congrArg₂ Pointer.mk hfirst hsecond

theorem pointerAt_patch_of_ne {old l : List UInt8} {k j : Nat}
    (hroom : k + l.length ≤ old.length) (hne : j + 8 ≤ k ∨ k + l.length ≤ j) :
    pointerAt (patch old k l) j = pointerAt old j := by
  unfold pointerAt
  rw [wordAt_congr fun i _ _ => patch_getElem? hroom (by omega),
    wordAt_congr fun i _ _ => patch_getElem? hroom (by omega)]

theorem patch_length {old l : List UInt8} {k : Nat} (hroom : k + l.length ≤ old.length) :
    (patch old k l).length = old.length := by
  unfold patch
  rw [List.length_append, List.length_append, List.length_take, List.length_drop]
  omega

/-! ## What the users see of a call -/

namespace Contents

/-- The octets that are read through `SBM_getMemPointer`: of a transaction in process, the new
ones. -/
def view (c : Contents) (h : Nat) : Option (List UInt8) :=
  match c.inProcess with
  | none => c.committed h
  | some (g, new) => if g = h then some new else c.committed h

/-- Octets are stored in the transaction `h`. -/
def write (c : Contents) (h k : Nat) (l : List UInt8) : Contents :=
  match c.inProcess with
  | none => { c with committed := Function.update c.committed h ((c.committed h).map (patch · k l)) }
  | some (g, new) =>
    if g = h then { c with inProcess := some (g, patch new k l) }
    else { c with committed := Function.update c.committed h ((c.committed h).map (patch · k l)) }

theorem view_write (c : Contents) (h k : Nat) (l : List UInt8) (j : Nat) :
    (c.write h k l).view j = if j = h then (c.view h).map (patch · k l) else c.view j := by
  unfold write view
  cases hin : c.inProcess with
  | none =>
    by_cases hj : j = h
    · subst hj
      simp
    · simp [hj]
  | some r =>
    obtain ⟨g, new⟩ := r
    by_cases hg : g = h <;> by_cases hj : j = h <;> by_cases hgj : g = j <;> simp_all

/-- The allocation of an element is in the octets of its transaction. -/
def Placed (c : Contents) (e : Pointer) : Prop :=
  ∃ o, c.view e.hTrans.toNat = some o ∧ e.hMem.toNat + 16 ≤ o.length

instance (c : Contents) (e : Pointer) : Decidable (c.Placed e) :=
  decidable_of_iff ((c.view e.hTrans.toNat).any fun o => e.hMem.toNat + 16 ≤ o.length) <| by
    unfold Placed
    rw [Option.any_eq_true]
    simp only [decide_eq_true_iff]

/-- The links of the elements. -/
def links (c : Contents) : Links Pointer where
  next e := pointerAt ((c.view e.hTrans.toNat).getD []) e.hMem.toNat
  prev e := pointerAt ((c.view e.hTrans.toNat).getD []) (e.hMem.toNat + 8)

def setNext (c : Contents) (e p : Pointer) : Contents :=
  c.write e.hTrans.toNat e.hMem.toNat p.octets

def setPrev (c : Contents) (e p : Pointer) : Contents :=
  c.write e.hTrans.toNat (e.hMem.toNat + 8) p.octets

/-- What `SBM_quInit` is for. -/
def quInit (c : Contents) (e : Pointer) : Contents := (c.setNext e e).setPrev e e

/-- What `SBM_quInsert` is for. -/
def quInsert (c : Contents) (x y : Pointer) : Contents :=
  let c₁ := c.setNext (c.links.prev y) x
  let z := c₁.links.prev x
  let c₂ := c₁.setNext z y
  (c₂.setPrev x (c₂.links.prev y)).setPrev y z

/-- What `SBM_quRemove` is for. -/
def quRemove (c : Contents) (x : Pointer) : Contents :=
  let c₁ := c.setPrev (c.links.next x) (c.links.prev x)
  ((c₁.setNext (c.links.prev x) (c₁.links.next x)).setNext x x).setPrev x x

theorem Placed.write {e : Pointer} {h k : Nat} {l : List UInt8} (hp : c.Placed e)
    (hroom : ∀ o, c.view h = some o → k + l.length ≤ o.length) : (c.write h k l).Placed e := by
  obtain ⟨o, ho, hlen⟩ := hp
  unfold Placed
  rw [view_write]
  split
  · rename_i he
    rw [he] at ho
    exact ⟨patch o k l, by rw [ho]; rfl, by rw [patch_length (hroom o ho)]; exact hlen⟩
  · exact ⟨o, ho, hlen⟩

end Contents

/-! ## Rings of elements -/

/-- Two elements are the same, or do not overlap. -/
def Pointer.Apart (e f : Pointer) : Prop :=
  e.hTrans ≠ f.hTrans ∨ e.hMem.toNat + 16 ≤ f.hMem.toNat ∨ f.hMem.toNat + 16 ≤ e.hMem.toNat

/-- The elements `E` are in the block, apart from each other, and linked among themselves as in
`l`. -/
structure Linked (c : Contents) (E : Set Pointer) (l : Links Pointer) : Prop where
  placed : ∀ e ∈ E, c.Placed e
  apart : ∀ e ∈ E, ∀ f ∈ E, e ≠ f → e.Apart f
  closed : ∀ e ∈ E, l.next e ∈ E ∧ l.prev e ∈ E
  next : ∀ e ∈ E, c.links.next e = l.next e
  prev : ∀ e ∈ E, c.links.prev e = l.prev e

variable {l : Links Pointer} {e p x y : Pointer}

theorem Contents.Placed.room {k : Nat} (hp : c.Placed e) (hk : k ≤ 8) {o : List UInt8}
    (ho : c.view e.hTrans.toNat = some o) : e.hMem.toNat + k + p.octets.length ≤ o.length := by
  obtain ⟨o', ho', hlen⟩ := hp
  obtain rfl : o = o' := Option.some.inj (ho.symm.trans ho')
  rw [Pointer.octets_length]
  omega

/-- What is read after eight octets of an element have been written. -/
theorem links_write {k : Nat} (he : c.Placed e) {f : Pointer} (hf : c.Placed f)
    (hapart : e = f ∨ e.Apart f) (hk : k = 0 ∨ k = 8) :
    (c.write e.hTrans.toNat (e.hMem.toNat + k) p.octets).links.next f =
        (if f = e ∧ k = 0 then p else c.links.next f) ∧
      (c.write e.hTrans.toNat (e.hMem.toNat + k) p.octets).links.prev f =
        if f = e ∧ k = 8 then p else c.links.prev f := by
  obtain ⟨o, ho, hlen⟩ := he
  have hp : p.octets.length = 8 := rfl
  unfold Contents.links
  dsimp only
  rw [Contents.view_write]
  by_cases hh : f.hTrans.toNat = e.hTrans.toNat
  · rw [if_pos hh, hh, ho, Option.map_some, Option.getD_some, Option.getD_some]
    rcases hapart with rfl | hapart
    · rcases hk with rfl | rfl
      · rw [if_pos ⟨rfl, rfl⟩, if_neg (by simp), Nat.add_zero, pointerAt_patch_self (by omega),
          pointerAt_patch_of_ne (by omega) (by omega)]
        exact ⟨rfl, rfl⟩
      · rw [if_neg (by simp), if_pos ⟨rfl, rfl⟩, pointerAt_patch_self (by omega),
          pointerAt_patch_of_ne (by omega) (by omega)]
        exact ⟨rfl, rfl⟩
    · have hmem := hapart.resolve_left fun h => h (UInt32.toNat_inj.1 hh).symm
      have hne : f ≠ e := by
        rintro rfl
        omega
      rw [if_neg fun h => hne h.1, if_neg fun h => hne h.1,
        pointerAt_patch_of_ne (by omega) (by omega), pointerAt_patch_of_ne (by omega) (by omega)]
      exact ⟨rfl, rfl⟩
  · have hne : f ≠ e := fun h => hh (by rw [h])
    rw [if_neg hh, if_neg fun h => hne h.1, if_neg fun h => hne h.1]
    exact ⟨rfl, rfl⟩

theorem links_setNext (he : c.Placed e) {f : Pointer} (hf : c.Placed f) (hapart : e = f ∨ e.Apart f) :
    (c.setNext e p).links.next f = (if f = e then p else c.links.next f) ∧
      (c.setNext e p).links.prev f = c.links.prev f := by
  have h := links_write (p := p) he hf hapart (.inl rfl)
  rw [Nat.add_zero, if_neg (c := f = e ∧ 0 = 8) (by omega)] at h
  simp only [and_true] at h
  exact h

theorem links_setPrev (he : c.Placed e) {f : Pointer} (hf : c.Placed f) (hapart : e = f ∨ e.Apart f) :
    (c.setPrev e p).links.next f = c.links.next f ∧
      (c.setPrev e p).links.prev f = if f = e then p else c.links.prev f := by
  have h := links_write (p := p) he hf hapart (.inr rfl)
  rw [if_neg (c := f = e ∧ 8 = 0) (by omega)] at h
  simp only [and_true] at h
  exact h

namespace Linked

theorem same_or_apart (hl : Linked c E l) {f : Pointer} (he : e ∈ E) (hf : f ∈ E) :
    e = f ∨ e.Apart f := by
  by_cases hef : e = f
  · exact .inl hef
  · exact .inr (hl.apart e he f hf hef)

theorem setNext (hl : Linked c E l) (he : e ∈ E) (hp : p ∈ E) :
    Linked (c.setNext e p) E ⟨Function.update l.next e p, l.prev⟩ := by
  have hread : ∀ f ∈ E, _ ∧ _ := fun f hf =>
    links_setNext (p := p) (hl.placed e he) (hl.placed f hf) (hl.same_or_apart he hf)
  refine ⟨fun f hf => (hl.placed f hf).write fun o => (hl.placed e he).room (k := 0) (by omega), hl.apart,
    fun f hf => ⟨?_, (hl.closed f hf).2⟩, fun f hf => ?_, fun f hf => ?_⟩
  · show Function.update l.next e p f ∈ E
    rw [Function.update_apply]
    split
    · exact hp
    · exact (hl.closed f hf).1
  · show _ = Function.update l.next e p f
    rw [Function.update_apply, (hread f hf).1, hl.next f hf]
  · rw [(hread f hf).2]
    exact hl.prev f hf

theorem setPrev (hl : Linked c E l) (he : e ∈ E) (hp : p ∈ E) :
    Linked (c.setPrev e p) E ⟨l.next, Function.update l.prev e p⟩ := by
  have hread : ∀ f ∈ E, _ ∧ _ := fun f hf =>
    links_setPrev (p := p) (hl.placed e he) (hl.placed f hf) (hl.same_or_apart he hf)
  refine ⟨fun f hf => (hl.placed f hf).write fun o => (hl.placed e he).room (k := 8) (by omega), hl.apart,
    fun f hf => ⟨(hl.closed f hf).1, ?_⟩, fun f hf => ?_, fun f hf => ?_⟩
  · show Function.update l.prev e p f ∈ E
    rw [Function.update_apply]
    split
    · exact hp
    · exact (hl.closed f hf).2
  · rw [(hread f hf).1]
    exact hl.next f hf
  · show _ = Function.update l.prev e p f
    rw [Function.update_apply, (hread f hf).2, hl.prev f hf]

/-- **A new element is a ring of its own.** -/
theorem quInit (hl : Linked c E l) (hp : c.Placed e) (hapart : ∀ f ∈ E, e = f ∨ e.Apart f) :
    Linked (c.quInit e) (Insert.insert e E) (isolate l e) := by
  have hall : ∀ f ∈ insert e E, c.Placed f ∧ (e = f ∨ e.Apart f) := by
    rintro f (rfl | hf)
    · exact ⟨hp, .inl rfl⟩
    · exact ⟨hl.placed f hf, hapart f hf⟩
  have hplaced : ∀ f ∈ insert e E, (c.setNext e e).Placed f := fun f hf =>
    (hall f hf).1.write fun o => hp.room (k := 0) (by omega)
  have hread : ∀ f ∈ insert e E, (c.quInit e).links.next f = (if f = e then e else c.links.next f) ∧
      (c.quInit e).links.prev f = if f = e then e else c.links.prev f := by
    intro f hf
    have h₁ := links_setNext (p := e) hp (hall f hf).1 (hall f hf).2
    have h₂ := links_setPrev (p := e) (hplaced e (.inl rfl)) (hplaced f hf) (hall f hf).2
    exact ⟨h₂.1.trans h₁.1, by rw [← h₁.2]; exact h₂.2⟩
  have hold : ∀ f ∈ insert e E, f ≠ e → f ∈ E := fun f hf hne => hf.resolve_left hne
  refine ⟨fun f hf => (hplaced f hf).write fun o => (hplaced e (.inl rfl)).room (k := 8) (by omega),
    fun f hf g hg hne => ?_, fun f hf => ?_, fun f hf => ?_, fun f hf => ?_⟩
  · by_cases hfe : f = e
    · rw [hfe]
      exact (hall g hg).2.resolve_left fun h => hne (hfe.trans h)
    by_cases hge : g = e
    · rw [hge]
      have h := (hall f hf).2.resolve_left fun h => hfe h.symm
      exact h.imp Ne.symm Or.symm
    · exact hl.apart f (hold f hf hfe) g (hold g hg hge) hne
  · show Function.update l.next e e f ∈ insert e E ∧ Function.update l.prev e e f ∈ insert e E
    rw [Function.update_apply, Function.update_apply]
    by_cases hfe : f = e
    · rw [if_pos hfe, if_pos hfe]
      exact ⟨.inl rfl, .inl rfl⟩
    · rw [if_neg hfe, if_neg hfe]
      exact (hl.closed f (hold f hf hfe)).imp .inr .inr
  · show _ = Function.update l.next e e f
    rw [(hread f hf).1, Function.update_apply]
    split
    · rfl
    · rename_i hfe
      exact hl.next f (hold f hf hfe)
  · show _ = Function.update l.prev e e f
    rw [(hread f hf).2, Function.update_apply]
    split
    · rfl
    · rename_i hfe
      exact hl.prev f (hold f hf hfe)

end Linked

/-! ## The calls on a block -/

/-- Where an element is: behind the header, and before the records of the table. -/
structure Spot (s : Globals) (e : Pointer) : Prop where
  handle : s.Live e.hTrans.toNat ∨ (s.inProcess.isSome ∧ e.hTrans.toNat = s.opened)
  view : s.contents.view e.hTrans.toNat = some (octets s.mem e.hTrans.toNat)
  room : e.hMem.toNat + 16 ≤ (slot s.mem e.hTrans.toNat).transLen
  mem : e.mem s.mem = (slot s.mem e.hTrans.toNat).offset + e.hMem.toNat

theorem octets_length (m : Memory) (h : Nat) : (octets m h).length = (slot m h).transLen := by
  unfold octets
  rw [List.length_map, List.length_range]

theorem committed_eq {h : Nat} {o : List UInt8} (hv : s.contents.committed h = some o) :
    o = octets s.mem (s.record h) ∧ s.Live h := by
  unfold Globals.contents at hv
  dsimp only at hv
  split at hv
  · rename_i hlive
    exact ⟨(Option.some.inj hv).symm, hlive⟩
  · cases hv

/-- The octets that are seen under a handle are those of its record. -/
theorem view_eq {h : Nat} {o : List UInt8} (hv : s.contents.view h = some o) :
    o = octets s.mem h ∧ (s.Live h ∨ (s.inProcess.isSome ∧ h = s.opened)) := by
  unfold Contents.view at hv
  have hin : s.contents.inProcess = s.inProcess.map fun _ => (s.opened, octets s.mem s.opened) := rfl
  cases ht : s.inProcess with
  | none =>
    rw [hin, ht, Option.map_none] at hv
    obtain ⟨ho, hlive⟩ := committed_eq hv
    have hrec : s.record h = h := by
      unfold Globals.record Globals.opened Globals.spare
      rw [ht]
      exact home_same
    rw [hrec] at ho
    exact ⟨ho, .inl hlive⟩
  | some t =>
    rw [hin, ht, Option.map_some] at hv
    dsimp only at hv
    split at hv
    · rename_i hh
      rw [← hh]
      exact ⟨(Option.some.inj hv).symm, .inr ⟨rfl, rfl⟩⟩
    · rename_i hh
      obtain ⟨ho, hlive⟩ := committed_eq hv
      have hrec : s.record h = h := home_of_ne fun he => hh he.symm
      rw [hrec] at ho
      exact ⟨ho, .inl hlive⟩

theorem Contents.Placed.spot (hp : s.contents.Placed e) : Spot s e := by
  obtain ⟨o, ho, hlen⟩ := hp
  obtain ⟨rfl, hhandle⟩ := view_eq ho
  rw [octets_length] at hlen
  have hfits := (slot_fits s.mem e.hTrans.toNat).1
  refine ⟨hhandle, ho, hlen, ?_⟩
  unfold Pointer.mem getMemPointer
  rw [if_neg (by unfold sbmNull; omega)]
  rfl

/-- A link of an element is read from the octets of its transaction. -/
theorem Spot.getPointer {k : Nat} (hs : Spot s e) (hk : k ≤ 8) :
    Sbm.getPointer s.mem (e.mem s.mem + k) =
      pointerAt ((s.contents.view e.hTrans.toNat).getD []) (e.hMem.toNat + k) := by
  have hroom := hs.room
  rw [hs.view, Option.getD_some, octets_eq, hs.mem, content, ← getPointer_read (by omega),
    Int.natCast_add, Int.add_assoc]

theorem Spot.next (hs : Spot s e) : quNext s.mem e = s.contents.links.next e := by
  have h := hs.getPointer (k := 0) (by omega)
  rw [Nat.cast_zero, Int.add_zero] at h
  exact h

theorem Spot.prev (hs : Spot s e) : quPrev s.mem e = s.contents.links.prev e :=
  hs.getPointer (k := 8) (by omega)

theorem Sound.first (hs : Sound s) : 12 ≤ s.pNextAvailable := by
  rcases hs with ⟨order, ht, -⟩ | ⟨order, p, g, t, ho⟩
  · exact ht.first
  · exact ho.first

/-- The octets of a transaction that is not the one in process are under its handle. -/
theorem record_of_ne {h : Nat} (hne : ¬(s.inProcess.isSome ∧ h = s.opened)) : s.record h = h := by
  unfold Globals.record
  by_cases hh : h = s.opened
  · cases ht : s.inProcess with
    | none =>
      unfold Globals.opened Globals.spare
      rw [ht]
      exact home_same
    | some t => exact absurd ⟨by rw [ht]; rfl, hh⟩ hne
  · exact home_of_ne hh

/-- The octets of an element are neither in the header nor in the record of a handle. -/
theorem Sound.between (hs : Sound s) (he : Spot s e) {f : Pointer} (hf : Spot s f) :
    12 ≤ e.mem s.mem ∧ e.mem s.mem + 16 ≤ transAt s.mem f.hTrans.toNat := by
  have ha := hs.apart
  have hfirst := hs.first
  have hroom := he.room
  rw [he.mem]
  -- the record of the other element is one of the table, or the one of the transaction in process
  have hrecord : s.pNextAvailable ≤ transAt s.mem f.hTrans.toNat ∧ (s.inProcess.isSome →
      ((slot s.mem s.opened).offset : Int) + (slot s.mem s.opened).transLen ≤
        transAt s.mem f.hTrans.toNat) := by
    rcases hf.handle with hlive | ⟨hin, hopened⟩
    · have hk := ha.table _ hlive.1 hlive.2.1
      exact ⟨hk, fun hin => (ha.inProcess hin).2 _ (.inl ⟨hlive.1, hlive.2.1⟩)⟩
    · have hk := (ha.inProcess hin).2 _ (.inr (.inl hopened))
      have hoff := (ha.inProcess hin).1
      exact ⟨by omega, fun _ => hk⟩
  by_cases hopened : s.inProcess.isSome ∧ e.hTrans.toNat = s.opened
  · have hoff := (ha.inProcess hopened.1).1
    have hend := hrecord.2 hopened.1
    rw [hopened.2] at hroom ⊢
    omega
  · have hlive := he.handle.resolve_right hopened
    have hrec := record_of_ne hopened
    have hlow := ha.header _ hlive
    have hhigh := ha.committed _ hlive
    unfold Globals.region at hlow hhigh
    rw [hrec] at hlow hhigh
    dsimp only at hlow hhigh
    omega

theorem Transacts.stored_eq {c' : Contents} {h hMem : UInt32} {l : List UInt8}
    (ht : Transacts c (.store h hMem l) .success c') : c' = c.write h.toNat hMem.toNat l := by
  unfold Contents.write
  cases ht with
  | stored hold hother _ =>
    cases hin : c.inProcess with
    | none => simp [hold]
    | some r =>
      obtain ⟨g, new⟩ := r
      have hne : g ≠ h.toNat := by
        rintro rfl
        exact hother new hin
      simp [hne, hold]
  | storedNew hopen _ => simp [hopen]

/-- What a call does to a block in which the elements `E` are: to the users it is a few stores. -/
structure Put (s : Globals) (E : Set Pointer) (m : Memory) (c : Contents) : Prop where
  header : ∀ x < 12, m x = s.mem x
  sound : Sound { s with mem := m }
  contents : ({ s with mem := m } : Globals).contents = c
  mem : ∀ e ∈ E, e.mem m = e.mem s.mem

/-- **A link is written**: it is a store. -/
theorem Sound.putPointer {k : Nat} (hs : Sound s) (he : s.contents.Placed e) (hk : k = 0 ∨ k = 8)
    (p : Pointer) (hE : ∀ f ∈ E, s.contents.Placed f) :
    Put s E (Sbm.putPointer s.mem (e.mem s.mem + k) p)
      (s.contents.write e.hTrans.toNat (e.hMem.toNat + k) p.octets) := by
  have hspot := he.spot
  have hroom := hspot.room
  have hfits := (slot_fits s.mem e.hTrans.toNat).1
  have hsum : (e.hMem + .ofNat k).toNat = e.hMem.toNat + k := by
    rw [UInt32.toNat_add, UInt32.toNat_ofNat']
    rcases hk with rfl | rfl <;> omega
  have hc : s.Conforms (.store e.hTrans (e.hMem + .ofNat k) p.octets) := by
    refine ⟨⟨hspot.handle, ?_⟩, trivial⟩
    rw [hsum, Pointer.octets_length]
    rcases hk with rfl | rfl <;> omega
  have hmem : getMemPointer s.mem e.hTrans.toNat (e.hMem + .ofNat k).toNat = e.mem s.mem + k := by
    rw [hsum, hspot.mem, getMemPointer, if_neg (by unfold sbmNull; rcases hk with rfl | rfl <;> omega),
      Int.natCast_add, Int.add_assoc]
    rfl
  have hstep := hs.step hc.1
  have hlast := hstep.transacts hc
  dsimp only [Globals.step] at hstep hlast
  rw [hmem, ← putPointer_eq_store] at hstep hlast
  refine ⟨fun x hx => ?_, hstep.sound, ?_, fun f hf => ?_⟩
  · have hlow := (hs.between hspot hspot).1
    rw [putPointer_eq_store]
    exact store_of_outside (.inl (by omega))
  · rw [← hsum]
    exact hlast.stored_eq
  · obtain ⟨hlow, hhigh⟩ := hs.between hspot (hE f hf).spot
    have hout : ∀ x, x < 12 ∨ transAt s.mem f.hTrans.toNat ≤ x →
        Sbm.putPointer s.mem (e.mem s.mem + k) p x = s.mem x := by
      intro x hx
      rw [putPointer_eq_store]
      refine store_of_outside ?_
      rw [Pointer.octets_length]
      rcases hk with rfl | rfl <;> omega
    have hsize : memSize (Sbm.putPointer s.mem (e.mem s.mem + k) p) = memSize s.mem :=
      get32_congr fun x _ _ => hout x (by omega)
    have hslot := slot_congr (h := f.hTrans.toNat) hsize fun x hx _ => hout x (by omega)
    unfold Pointer.mem getMemPointer
    congr 2
    exact congrArg Transaction.offset hslot

theorem Sound.setNext (hs : Sound s) (he : s.contents.Placed e) (p : Pointer)
    (hE : ∀ f ∈ E, s.contents.Placed f) :
    Put s E (Sbm.putPointer s.mem (e.mem s.mem) p) (s.contents.setNext e p) := by
  have h := hs.putPointer he (.inl rfl) p hE
  rw [Nat.cast_zero, Int.add_zero] at h
  exact h

theorem Sound.setPrev (hs : Sound s) (he : s.contents.Placed e) (p : Pointer)
    (hE : ∀ f ∈ E, s.contents.Placed f) :
    Put s E (Sbm.putPointer s.mem (e.mem s.mem + 8) p) (s.contents.setPrev e p) :=
  hs.putPointer he (.inr rfl) p hE

theorem Put.then {m' : Memory} {c' : Contents} (h : Put s E m c)
    (h' : Put { s with mem := m } E m' c') : Put s E m' c' :=
  ⟨fun x hx => (h'.header x hx).trans (h.header x hx), h'.sound, h'.contents, fun f hf => (h'.mem f hf).trans (h.mem f hf)⟩

/-- **`SBM_quInit`.** -/
theorem Sound.quInit (hs : Sound s) (he : s.contents.Placed e) :
    Put s {e} (Sbm.quInit s.mem e) (s.contents.quInit e) := by
  have h₁ := hs.setNext (E := {e}) he e fun f hf => by rwa [hf]
  have hplaced : ({ s with mem := Sbm.putPointer s.mem (e.mem s.mem) e } : Globals).contents.Placed e := by
    rw [h₁.contents]
    exact he.write fun o => he.room (k := 0) (by omega)
  have h₂ := h₁.sound.setPrev (E := {e}) hplaced e fun f hf => by rwa [hf]
  rw [h₁.contents] at h₂
  dsimp only at h₂
  rw [h₁.mem e rfl] at h₂
  exact h₁.then h₂

/-- A block with the elements `E`, some of whose links have been written. -/
structure Wrote (s : Globals) (E : Set Pointer) (m : Memory) (c : Contents) (l : Links Pointer) : Prop
    extends Put s E m c where
  linked : Linked c E l

namespace Wrote

theorem nothing (hs : Sound s) (hl : Linked s.contents E l) : Wrote s E s.mem s.contents l :=
  ⟨⟨fun _ _ => rfl, hs, rfl, fun _ _ => rfl⟩, hl⟩

theorem placed (h : Wrote s E m c l) : ∀ f ∈ E, ({ s with mem := m } : Globals).contents.Placed f := by
  rw [h.contents]
  exact h.linked.placed

theorem next (h : Wrote s E m c l) (he : e ∈ E) : getPointer m (e.mem s.mem) = l.next e := by
  have hn := (h.placed e he).spot.next
  rw [h.contents, h.linked.next e he] at hn
  rw [← hn, ← h.mem e he]
  rfl

theorem prev (h : Wrote s E m c l) (he : e ∈ E) : getPointer m (e.mem s.mem + 8) = l.prev e := by
  have hn := (h.placed e he).spot.prev
  rw [h.contents, h.linked.prev e he] at hn
  rw [← hn, ← h.mem e he]
  rfl

theorem setNext (h : Wrote s E m c l) (he : e ∈ E) (hp : p ∈ E) :
    Wrote s E (putPointer m (e.mem s.mem) p) (c.setNext e p) ⟨Function.update l.next e p, l.prev⟩ := by
  have h' := h.sound.setNext (h.placed e he) p h.placed
  rw [h.contents] at h'
  dsimp only at h'
  rw [h.mem e he] at h'
  exact ⟨h.then h', h.linked.setNext he hp⟩

theorem setPrev (h : Wrote s E m c l) (he : e ∈ E) (hp : p ∈ E) :
    Wrote s E (putPointer m (e.mem s.mem + 8) p) (c.setPrev e p)
      ⟨l.next, Function.update l.prev e p⟩ := by
  have h' := h.sound.setPrev (h.placed e he) p h.placed
  rw [h.contents] at h'
  dsimp only at h'
  rw [h.mem e he] at h'
  exact ⟨h.then h', h.linked.setPrev he hp⟩

end Wrote

/-- **`SBM_quInsert` is the insertion of a ring**, in four links. -/
theorem Sound.quInsert (hs : Sound s) (hl : Linked s.contents E l) (hx : x ∈ E) (hy : y ∈ E) :
    Wrote s E (Sbm.quInsert s.mem x y) (s.contents.quInsert x y) (insert l x y) := by
  have hbefore := (hl.closed y hy).2
  have htemp := (hl.closed x hx).2
  have h₀ := Wrote.nothing hs hl
  have h₁ := h₀.setNext hbefore hx
  have h₂ := h₁.setNext htemp hy
  have h₃ := h₂.setPrev hx hbefore
  have h₄ := h₃.setPrev hy htemp
  unfold Sbm.quInsert Contents.quInsert
  dsimp only
  rw [h₀.prev hy, h₁.prev hx, h₁.mem _ htemp, h₂.prev hy, hl.prev y hy, h₁.linked.prev x hx,
    h₂.linked.prev y hy]
  exact h₄

/-- **`SBM_quRemove` is the removal from a ring**, in four links. -/
theorem Sound.quRemove (hs : Sound s) (hl : Linked s.contents E l) (hx : x ∈ E) :
    Wrote s E (Sbm.quRemove s.mem x) (s.contents.quRemove x) (remove l x) := by
  obtain ⟨hnext, hprev⟩ := hl.closed x hx
  have h₀ := Wrote.nothing hs hl
  have h₁ := h₀.setPrev hnext hprev
  have h₂ := h₁.setNext hprev hnext
  have h₄ := (h₂.setNext hx hx).setPrev hx hx
  unfold Sbm.quRemove Contents.quRemove
  dsimp only
  rw [h₀.next hx, h₀.prev hx, h₁.next hx, hl.next x hx, hl.prev x hx, h₁.linked.next x hx]
  exact h₄

end Sbm
