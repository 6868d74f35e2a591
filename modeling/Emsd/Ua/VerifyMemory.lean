import Emsd.Lib.Ring

/-!
# What the UA remembers of its submissions (`ua.c`, `submit.c`, `uperform.c`, `sbm.c`)

The non-volatile memory for SUBMIT.verify has two rings: the elements in use and those that are not.
`aS2S1a` writes the message id of a successful submission into an element and puts it on the ring of
those in use; `aS1S5a` looks an id up there.

* `remembers_iff`: **the memory does what it is for** in a run if and only if no submission of the
  run has succeeded.
* `first_submission`: the first element is not taken off its ring before it is inserted, so that the
  first success makes one ring of the two.
-/

namespace Ua

open Ring

abbrev MessageId := List Char

/-- The queue heads `hActive` and `hInactive`, and the elements. -/
inductive VerifyNode
  | active
  | inactive
  | elem (i : Nat)
  deriving DecidableEq, Repr

/-- `VerifyData` and its elements. -/
structure VerifyMemory where
  links : Links VerifyNode
  /-- `messageId` of the elements -/
  messageId : Nat → MessageId

/-- The elements that are allocated in the beginning. -/
def preallocated : Nat := 5

def verifyElems : List VerifyNode := (List.range preallocated).map .elem

/-- `EMSDUB_MAX_MESSAGE_ID_LEN`. -/
def maxMessageIdLen : Nat := 127

namespace VerifyMemory

/-- The memory when it is created; what the elements hold is not written. -/
def create (messageId : Nat → MessageId) : VerifyMemory where
  links := verifyElems.foldl (fun l e => insert l e .inactive) alone
  messageId

/-- `aS2S1a`. There is no memory when the id is written over a queue head. -/
def submitted (v : VerifyMemory) (id : MessageId) : Option VerifyMemory :=
  let (links, hElem) :=
    if v.links.next .inactive = .inactive then
      let hElem := v.links.next .active
      (remove v.links hElem, hElem)
    else (v.links, v.links.next .inactive)
  match hElem with
  | .elem i => some {
      links := insert links hElem .active
      messageId := Function.update v.messageId i (id.take maxMessageIdLen) }
  | _ => none

/-- `OS_strcasecmp`. -/
def sameText (p q : MessageId) : Bool := p.map Char.toLower == q.map Char.toLower

/-- The search of `aS1S5a` from an element on. There is no answer when it reads the id of a queue
head, or does not come to an end. -/
def search (v : VerifyMemory) (p : MessageId) : Nat → VerifyNode → Option Bool
  | 0, _ => none
  | _ + 1, .active => some false
  | _ + 1, .inactive => none
  | fuel + 1, .elem i =>
    if sameText p (v.messageId i) then some true else v.search p fuel (v.links.next (.elem i))

/-- `aS1S5a`: whether the answer is `SendMessage`. The two heads and the elements can be visited. -/
def verify (v : VerifyMemory) (p : MessageId) : Option Bool :=
  v.search p (preallocated + 2) (v.links.next .active)

/-- The id of an element. -/
def idOf (v : VerifyMemory) : VerifyNode → Option MessageId
  | .elem i => some (v.messageId i)
  | _ => none

end VerifyMemory

/-- What happens to the memory. -/
inductive VerifyOp
  | submitted (id : MessageId)
  | verify (id : MessageId)

/-- One operation. -/
def VerifyMemory.step (v : VerifyMemory) : VerifyOp → Option VerifyMemory
  | .submitted id => v.submitted id
  | .verify _ => some v

/-- The operations of a run. -/
def VerifyMemory.run (v : VerifyMemory) (ops : List VerifyOp) : Option VerifyMemory :=
  ops.foldlM VerifyMemory.step v

/-- The ids of the successful submissions. -/
def successes (ops : List VerifyOp) : List MessageId :=
  ops.filterMap fun
    | .submitted id => some id
    | .verify _ => none

/-- The last ids, as many as there are elements. -/
def lastIds (ids : List MessageId) : List MessageId := ids.drop (ids.length - preallocated)

/-- **The memory does what it is for** after the submissions `ids`: the rings part the elements, the
one in use holds the last ids, and SUBMIT.verify is answered by them. -/
structure Remembers (ids : List MessageId) (v : VerifyMemory) : Prop where
  rings : ∃ xs ys, IsRing v.links .active xs ∧ IsRing v.links .inactive ys ∧
    (xs ++ ys).Perm verifyElems ∧ xs.map v.idOf = (lastIds ids).map some
  verify : ∀ p, v.verify p = some (decide (p ∈ lastIds ids))

variable {v : VerifyMemory} {ops pre : List VerifyOp} {id : MessageId}

/-! ## The memory when it is created -/

theorem create_rings (messageId : Nat → MessageId) :
    IsRing (VerifyMemory.create messageId).links .active [] ∧
      IsRing (VerifyMemory.create messageId).links .inactive verifyElems := by
  have hactive : ∀ a ∈ [VerifyNode.active], a ∉ verifyElems := by decide
  have hinactive : ∀ a ∈ [VerifyNode.inactive], a ∉ verifyElems := by decide
  have hheads : ∀ a ∈ [VerifyNode.active], a ∉ [VerifyNode.inactive] := by decide
  have hrings := IsRing.insertAll (l := alone) (h := VerifyNode.inactive) (.alone rfl rfl)
    verifyElems (fun _ _ => .alone rfl rfl) (by decide) fun a ha hb => hinactive a ha hb
  exact ⟨hrings.2 .active [] (.alone rfl rfl) (fun a ha hb => hheads a ha hb) fun a ha hb =>
    hactive a ha hb, hrings.1⟩

/-- Nothing is remembered in the beginning. -/
theorem create_remembers (messageId : Nat → MessageId) :
    Remembers [] (VerifyMemory.create messageId) := by
  obtain ⟨hactive, hinactive⟩ := create_rings messageId
  refine ⟨⟨[], verifyElems, hactive, hinactive, .refl _, rfl⟩, ?_⟩
  intro p
  have hsearch : (VerifyMemory.create messageId).verify p = some false := by
    unfold VerifyMemory.verify
    rw [hactive.next_alone]
    rfl
  rw [hsearch]
  rfl

/-! ## The first success -/

/-- **The first success** makes one ring of the two. -/
theorem first_submission (messageId : Nat → MessageId) (id : MessageId) :
    ∃ v, (VerifyMemory.create messageId).submitted id = some v ∧
      IsRing v.links .active (verifyElems ++ [.inactive]) := by
  obtain ⟨hactive, hinactive⟩ := create_rings messageId
  -- the ring of those not in use, from the first element on
  have helem : IsRing (VerifyMemory.create messageId).links (.elem 0)
      (verifyElems.tail ++ [.inactive]) := hinactive.rotate
  have hnext : (VerifyMemory.create messageId).links.next .inactive = .elem 0 := hinactive.next
  have hdisj : ∀ a ∈ [VerifyNode.active], a ∉ .elem 0 :: (verifyElems.tail ++ [.inactive]) := by
    decide
  have hring := hactive.insert helem fun a ha hb => hdisj a ha hb
  unfold VerifyMemory.submitted
  rw [hnext, if_neg (by decide)]
  exact ⟨_, rfl, hring⟩

/-- After it the rings do not part the elements. -/
theorem first_submission_forgets (messageId : Nat → MessageId) {id : MessageId}
    {ids : List MessageId} (hv : (VerifyMemory.create messageId).submitted id = some v) :
    ¬Remembers ids v := by
  rintro ⟨⟨xs, ys, hactive, -, hperm, -⟩, -⟩
  obtain ⟨v', hv', hring⟩ := first_submission messageId id
  obtain rfl : v' = v := Option.some.inj (hv'.symm.trans hv)
  have hxs : xs = verifyElems ++ [.inactive] := hactive.unique hring
  have hmem : VerifyNode.inactive ∈ verifyElems := by
    refine hperm.subset (List.mem_append_left _ ?_)
    rw [hxs]
    exact List.mem_append_right _ (List.mem_singleton_self _)
  exact absurd hmem (by decide)

/-! ## Runs -/

theorem run_quiet (v : VerifyMemory) (hq : successes ops = []) : v.run ops = some v := by
  induction ops with
  | nil => rfl
  | cons op ops ih =>
    cases op with
    | submitted id => cases hq
    | verify id => exact ih hq

/-- A run with a success begins without one up to the first. -/
theorem successes_split (hs : successes ops ≠ []) :
    ∃ pre id post, ops = pre ++ .submitted id :: post ∧ successes pre = [] := by
  induction ops with
  | nil => exact absurd rfl hs
  | cons op ops ih =>
    cases op with
    | submitted id => exact ⟨[], id, ops, rfl, rfl⟩
    | verify p =>
      obtain ⟨pre, id, post, rfl, hpre⟩ := ih hs
      exact ⟨.verify p :: pre, id, post, rfl, hpre⟩

/-- **The memory does what it is for** all along a run if and only if no submission of the run has
succeeded. -/
theorem remembers_iff (messageId : Nat → MessageId) (ops : List VerifyOp) :
    (∀ pre, pre <+: ops → ∃ v, (VerifyMemory.create messageId).run pre = some v ∧
      Remembers (successes pre) v) ↔ successes ops = [] := by
  constructor
  · intro hall
    by_contra hs
    obtain ⟨pre, id, post, rfl, hpre⟩ := successes_split hs
    obtain ⟨v, hv, hremembers⟩ := hall (pre ++ [.submitted id]) ⟨post, by simp⟩
    have hrun : (VerifyMemory.create messageId).run (pre ++ [.submitted id]) =
        (VerifyMemory.create messageId).submitted id := by
      have hquiet := run_quiet (VerifyMemory.create messageId) hpre
      unfold VerifyMemory.run at hquiet ⊢
      rw [List.foldlM_append, hquiet]
      simp [VerifyMemory.step]
    exact first_submission_forgets messageId (hrun ▸ hv) hremembers
  · intro hs pre hprefix
    have hpre : successes pre = [] := by
      obtain ⟨post, rfl⟩ := hprefix
      unfold successes at hs ⊢
      rw [List.filterMap_append, List.append_eq_nil_iff] at hs
      exact hs.1
    rw [hpre]
    exact ⟨_, run_quiet _ hpre, create_remembers messageId⟩

/-- One submission succeeds: the ring of those in use holds all elements and the other queue head. -/
theorem remembers_not_first : ¬∀ pre, pre <+: [VerifyOp.submitted ['1']] →
    ∃ v, (VerifyMemory.create fun _ => []).run pre = some v ∧ Remembers (successes pre) v := by
  intro hall
  obtain ⟨v, hv, hremembers⟩ := hall _ (List.prefix_refl _)
  have hsubmitted : (VerifyMemory.create fun _ => []).submitted ['1'] = some v := by
    simpa [VerifyMemory.run, VerifyMemory.step] using hv
  exact first_submission_forgets _ hsubmitted hremembers

end Ua
