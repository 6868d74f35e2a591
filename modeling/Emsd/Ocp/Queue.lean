import Emsd.Lib.Ring

/-!
# Queues of elements (`qu_/portable/queue.c`)

A queue head and the elements on it are one kind of record, and all of the module is assignments to
their `pNext` and `pPrev`. Nothing tells a head from an element, nor one ring from another.

* `quInsert_eq`, `quRemove_eq`: the assignments, one after the other, are insertion and removal in a
  ring.
* `queue_splice`: **what they do to the rings**.
-/

namespace Ocp

open Ring

section

variable {α : Type*} [DecidableEq α]

/-! ## The assignments -/

/-- `p->pNext = q` -/
def setNext (l : Links α) (p q : α) : Links α := { l with next := Function.update l.next p q }

/-- `p->pPrev = q` -/
def setPrev (l : Links α) (p q : α) : Links α := { l with prev := Function.update l.prev p q }

/-- `QU_init`. -/
def quInit (l : Links α) (pQElement : α) : Links α :=
  setNext (setPrev l pQElement pQElement) pQElement pQElement

/-- What `QU_insert` takes for an element that is already in the queue. -/
def alreadyInQueue (l : Links α) (pInsert pBefore : α) : Prop :=
  l.prev pInsert = pBefore ∨ l.next pInsert = pBefore ∨
    l.prev pBefore = pInsert ∨ l.next pBefore = pInsert

instance (l : Links α) (pInsert pBefore : α) : Decidable (alreadyInQueue l pInsert pBefore) :=
  inferInstanceAs (Decidable (_ ∨ _ ∨ _ ∨ _))

/-- `QU_insert`; `fast` is whether `FAST` is defined. -/
def quInsert (fast : Bool) (l : Links α) (pInsert pBefore : α) : Links α :=
  if fast = false ∧ alreadyInQueue l pInsert pBefore then
    -- `EH_problem`
    l
  else
    let l := setNext l (l.prev pBefore) pInsert
    let pTemp := l.prev pInsert
    let l := setNext l pTemp pBefore
    let l := setPrev l pInsert (l.prev pBefore)
    setPrev l pBefore pTemp

/-- `QU_remove`. -/
def quRemove (l : Links α) (pRemoveMe : α) : Links α :=
  let l := setPrev l (l.next pRemoveMe) (l.prev pRemoveMe)
  let l := setNext l (l.prev pRemoveMe) (l.next pRemoveMe)
  quInit l pRemoveMe

variable {fast : Bool} {l : Links α} {x y g : α} {zs : List α}

/-- An initialised element is alone. -/
theorem quInit_alone (l : Links α) (x : α) : IsRing (quInit l x) x [] :=
  .alone (Function.update_self ..) (Function.update_self ..)

/-! ## The two operations -/

omit [DecidableEq α] in
/-- Elements of two rings are not next to each other. -/
theorem not_alreadyInQueue {xs ys : List α} (hxs : IsCycle l xs) (hys : IsCycle l ys)
    (hdisj : xs.Disjoint ys) (hx : x ∈ xs) (hy : y ∈ ys) : ¬alreadyInQueue l x y := by
  rintro (h | h | h | h)
  · exact hdisj (hxs.prev_mem hx) (h ▸ hy)
  · exact hdisj (hxs.next_mem hx) (h ▸ hy)
  · exact hdisj hx (h ▸ hys.prev_mem hy)
  · exact hdisj hx (h ▸ hys.next_mem hy)

/-- **`QU_insert`** is insertion, with `FAST` defined or not. -/
theorem quInsert_eq {xs ys : List α} (hxs : IsCycle l xs) (hys : IsCycle l ys)
    (hdisj : xs.Disjoint ys) (hx : x ∈ xs) (hy : y ∈ ys) :
    quInsert fast l x y = Ring.insert l x y := by
  have hnot := not_alreadyInQueue hxs hys hdisj hx hy
  unfold quInsert
  rw [if_neg fun h => hnot h.2]
  rfl

/-- **`QU_remove`** is removal: the first assignment leaves the predecessor that the second one
reads. -/
theorem quRemove_eq (l : Links α) (x : α) : quRemove l x = Ring.remove l x := by
  have hprev : (setPrev l (l.next x) (l.prev x)).prev x = l.prev x := by
    show Function.update _ _ _ _ = _
    by_cases hx : x = l.next x
    · rw [← hx, Function.update_self]
    · rw [Function.update_of_ne hx]
  calc quRemove l x
      = quInit (setNext (setPrev l (l.next x) (l.prev x))
          ((setPrev l (l.next x) (l.prev x)).prev x) (l.next x)) x := rfl
    _ = Ring.remove l x := by
      rw [hprev]
      rfl

/-- **Splice.** Let two rings have no element in common. `QU_insert` of an element of the one before
an element of the other makes one ring of them, the first from its element on in front of the other
element; `QU_remove` leaves the ring without the element, and the element alone; and the one takes
back what the other does with an element that was alone. No other ring is changed. -/
theorem queue_splice (fast : Bool) (l : Links α) (x y : α) (a₁ a₂ b₁ b₂ : List α) :
    (IsCycle l (a₁ ++ x :: a₂) → IsCycle l (b₁ ++ y :: b₂) →
      (a₁ ++ x :: a₂).Disjoint (b₁ ++ y :: b₂) →
      IsCycle (quInsert fast l x y) (b₁ ++ (x :: (a₂ ++ a₁) ++ y :: b₂)) ∧
        ∀ zs, IsCycle l zs → zs.Disjoint (a₁ ++ x :: a₂) → zs.Disjoint (b₁ ++ y :: b₂) →
          IsCycle (quInsert fast l x y) zs) ∧
    (IsCycle l (a₁ ++ x :: a₂) →
      IsCycle (quRemove l x) [x] ∧
        (a₁ ++ a₂ ≠ [] → IsCycle (quRemove l x) (a₁ ++ a₂)) ∧
        ∀ zs, IsCycle l zs → zs.Disjoint (a₁ ++ x :: a₂) → IsCycle (quRemove l x) zs) ∧
    (IsCycle l [x] → IsCycle l (b₁ ++ y :: b₂) → x ∉ b₁ ++ y :: b₂ →
      quRemove (quInsert fast l x y) x = l) := by
  refine ⟨fun hx hy hdisj => ?_, fun hx => ?_, fun hx hy hxy => ?_⟩
  · have hmemx : x ∈ a₁ ++ x :: a₂ := List.mem_append_right _ List.mem_cons_self
    have hmemy : y ∈ b₁ ++ y :: b₂ := List.mem_append_right _ List.mem_cons_self
    rw [quInsert_eq hx hy hdisj hmemx hmemy]
    exact ⟨hx.splice hy hdisj, fun zs hzs hzx hzy => hzs.insert_frame hx hy hzx hzy⟩
  · rw [quRemove_eq]
    obtain ⟨hone, hrest⟩ := hx.remove
    exact ⟨hone, hrest, fun zs hzs hzx => hzs.remove_frame hx hzx⟩
  · have hdisj : [x].Disjoint (b₁ ++ y :: b₂) := List.singleton_disjoint.2 hxy
    have hmemy : y ∈ b₁ ++ y :: b₂ := List.mem_append_right _ List.mem_cons_self
    rw [quInsert_eq hx hy hdisj (List.mem_singleton_self x) hmemy, quRemove_eq]
    exact IsRing.remove_insert hx hy.ring fun hmem => hxy (mem_rotate.1 hmem)

end

/-- The successors and predecessors of six elements, in rings of three, two and one. -/
def threeRings : Links Nat where
  next p := [1, 2, 0, 4, 3].getD p p
  prev p := [2, 0, 1, 4, 3].getD p p

/-- The element `1` and its ring are put before the element `4`; `0` is taken out of its ring; `5`,
alone, is put before `4` and taken out again. -/
theorem queue_splice_three :
    IsCycle (quInsert false threeRings 1 4) [3, 1, 2, 0, 4] ∧
      IsCycle (quRemove threeRings 1) [0, 2] ∧
      quRemove (quInsert false threeRings 5 4) 5 = threeRings := by
  have hthree : IsCycle threeRings ([0] ++ 1 :: [2]) := by
    refine ⟨?_, ?_, by decide⟩
    · exact .cons_cons ⟨rfl, rfl⟩ (.cons_cons ⟨rfl, rfl⟩ (.singleton 2))
    · intro a ha
      obtain rfl : 2 = a := Option.some.inj ha
      exact ⟨rfl, rfl⟩
  have htwo : IsCycle threeRings ([3] ++ 4 :: []) := by
    refine ⟨.cons_cons ⟨rfl, rfl⟩ (.singleton 4), ?_, by decide⟩
    intro a ha
    obtain rfl : 4 = a := Option.some.inj ha
    exact ⟨rfl, rfl⟩
  have hone : IsCycle threeRings [5] := IsRing.alone rfl rfl
  obtain ⟨hsplice, hremove, -⟩ := queue_splice false threeRings 1 4 [0] [2] [3] []
  obtain ⟨-, -, hback⟩ := queue_splice false threeRings 5 4 [] [] [3] []
  have hdisj : ∀ a ∈ [0] ++ 1 :: [2], a ∉ [3] ++ 4 :: [] := by decide
  exact ⟨(hsplice hthree htwo fun a ha hb => hdisj a ha hb).1, (hremove hthree).2.1 (by decide),
    hback hone htwo (by decide)⟩

end Ocp
