import Emsd.Lib.Run
import Emsd.Mtsua.Sending
import Emsd.Esros.UserShell

/-!
# From an event to its operation

Both agents find the operation of an indication by its invoke id, in the list of all operations
that are alive. The user shell gives the smallest free id to each new invocation, and an
operation keeps the id of its last one.

* `routing`: the operations of one agent, with the user shell's tables.
* `routed`: when no id is handed out that another operation still carries, and no operation gets
  a new id before the invocation of its old one has ended, every event reaches the operation
  whose invocation it concerns.
* `result_misrouted`: otherwise the first of two operations gets the other's event.
-/

namespace Mtsua.Routing

open Esros

/-- An operation, as far as its invocations go. -/
structure Operation where
  key : Nat
  invokeId : Int
  /-- The ids in `pendingQHead`, of the UA only. -/
  pending : List Int := []
  deriving DecidableEq, Repr

/-- The operations of an agent. `owner` says for which operation an id was handed out; the code
has no such table. -/
structure Agent where
  activeOperations : List Operation := []
  shell : UserShell := {}
  owner : Nat → Option Nat := fun _ => none
  next : Nat := 0

/-- What the handlers of the indications meet on the way to their event. -/
structure Received where
  /-- There is a parameter. -/
  hView : Bool := true
  viewToBuf : Bool := true
  preprocess : Bool := true
  /-- `FSM_generateEvent` has memory for the event. -/
  memGet : Bool := true
  deriving DecidableEq, Repr

/-- `mts_resultIndication` and its like, after the operation has been found: an event or none. -/
def generates : Side → Conclusion → Received → Bool
  | .mts, .resultInd, r => r.preprocess && r.memGet
  | .mts, _, r => r.memGet
  | .ua, .resultInd, r => r.hView && r.viewToBuf && r.preprocess && r.memGet
  | .ua, .errorInd, r => (!r.hView || r.viewToBuf && r.preprocess) && r.memGet
  | .ua, _, r => r.memGet

inductive Input
  /-- `mts_allocOperation`, `ua_allocOperation`: the UA leaves the id as the memory has it. -/
  | allocOperation (memory : Int)
  /-- `mts_issueInvoke`, `ua_issueInvoke`. -/
  | issueInvoke (key : Nat) (putAction : Bool)
  /-- An event of the provider; an INVOKE is for the operation `target`, or refused. -/
  | event (e : Event) (target : Option Nat) (received : Received)
  /-- The performer of the UA takes an INVOKE from its pending queue. -/
  | takePending (key : Nat)
  | freeOperation (key : Nat)
  deriving DecidableEq, Repr

/-- An event that ends an invocation: the operation that it concerns, if that is still alive, and
the one that has got an event. -/
structure Output where
  owner : Option Nat
  event : Option Nat
  deriving DecidableEq, Repr

namespace Agent

/-- `findOperationByInvokeId`. -/
def findOperationByInvokeId (s : Agent) (invokeId : Int) : Option Operation :=
  s.activeOperations.find? fun x => x.invokeId = invokeId

def update (s : Agent) (target : Option Nat) (f : Operation → Operation) : Agent :=
  { s with
    activeOperations := s.activeOperations.map fun x => if some x.key = target then f x else x }

def alive (s : Agent) (key : Nat) : Bool := s.activeOperations.any fun x => x.key = key

/-- The operation that an id stands for. -/
def concerns (s : Agent) (id : Int) : Option Nat :=
  if 0 ≤ id ∧ s.shell.isOpen id.toNat then (s.owner id.toNat).filter s.alive else none

/-- An id of the shell is handed out. -/
def handOut (s : Agent) (id : Int) (target : Option Nat) : Agent :=
  { s with owner := fun i => if (i : Int) = id then target else s.owner i }

/-- `ESRO_CB_invokeReq` with the operation's own field for the id. -/
def issueInvoke (s : Agent) (key : Nat) (putAction : Bool) : Agent :=
  match s.shell.addUSInvoke with
  | none => s.update (some key) fun x => { x with invokeId := -1 }
  | some (us, shell) =>
    let s := (s.update (some key) fun x => { x with invokeId := us }).handOut us (some key)
    if putAction then { s with shell } else { s with shell := shell.removeUSInvokeId us }

/-- The INVOKE.indication: the MTS writes the id into the operation, the UA puts it in its
pending queue. -/
def receiveId (side : Side) (id : Int) (x : Operation) : Operation :=
  match side with
  | .mts => { x with invokeId := id }
  | .ua => { x with pending := x.pending ++ [id] }

/-- `pS1S2a` of the UA. -/
def takePending (x : Operation) : Operation :=
  match x.pending with
  | [] => x
  | id :: pending => { x with invokeId := id, pending }

end Agent

/-- The status that the provider sends answers a request that waits for it. -/
def Agent.answers (s : Agent) : Event → Bool
  | .invokeReqStat _ _ _ us _ => s.shell.isOpen us
  | _ => true

/-- The handler of a callback: an operation gets an id, or an event. -/
def Agent.handle (side : Side) (target : Option Nat) (received : Received) (s : Agent) :
    Callback → Agent × List Output
  | .invokeInd _ id => ((s.update target (receiveId side id)).handOut id target, [])
  | .concluded _ kind id _ =>
    let found := (s.findOperationByInvokeId id).filter fun _ => generates side kind received
    (s, [{ owner := s.concerns id, event := found.map (·.key) }])

/-- One step of an agent. -/
def step (side : Side) (s : Agent) : Input → Option (Agent × List Output)
  | .allocOperation memory =>
    let invokeId := match side with
      | .mts => -1
      | .ua => memory
    some ({ s with
      activeOperations := s.activeOperations ++ [{ key := s.next, invokeId }]
      next := s.next + 1 }, [])
  | .issueInvoke key putAction => if s.alive key then some (s.issueInvoke key putAction, []) else none
  | .event e target received =>
    if s.answers e ∧ ∀ k ∈ target, s.alive k then
      (s.shell.getEvent e).map fun r =>
        match r.2 with
        | none => ({ s with shell := r.1 }, [])
        | some c =>
          let (s', o) := s.handle side target received c
          ({ s' with shell := r.1 }, o)
    else none
  | .takePending key =>
    if side = .ua ∧ s.alive key then some (s.update (some key) Agent.takePending, []) else none
  | .freeOperation key =>
    some ({ s with activeOperations := s.activeOperations.filter fun x => x.key ≠ key }, [])

/-- An agent from its start. -/
def routing (side : Side) : Run.Sys Agent Input Output where
  init s := s = {}
  step := step side

/-- At most one operation carries an id. -/
def Unique (s : Agent) : Prop :=
  s.activeOperations.Pairwise fun x y => 0 ≤ x.invokeId → x.invokeId ≠ y.invokeId

instance (s : Agent) : Decidable (Unique s) := inferInstanceAs (Decidable (List.Pairwise _ _))

/-! ## The second of two subscribers' messages -/

/-- The first operation stands between two segments, its id is free again; the second gets this id
for its own invocation. -/
def overlap : List Input :=
  [.allocOperation 0, .issueInvoke 0 true, .event (.invokeReqStat true 0 5 0 0) none {},
   .allocOperation 0, .event (.concluded .resultInd 5 0) none {}, .issueInvoke 1 true,
   .event (.invokeReqStat true 0 6 0 0) none {}, .event (.concluded .resultInd 6 0) none {}]

/-- The RESULT of the second operation's invocation becomes an event of the first. -/
theorem result_misrouted : ∃ s h, Run.Reach (routing .mts) Run.any h s ∧
    (⟨some 1, some 0⟩ ∈ h ∧ ¬ Unique s) := by
  obtain ⟨s, h, hr, hp⟩ := Run.Reach.of_run_any (S := routing .mts) rfl overlap
    (fun s h => decide (⟨some 1, some 0⟩ ∈ h ∧ ¬ Unique s)) (by decide +kernel)
  exact ⟨s, h, hr, of_decide_eq_true hp⟩

/-! ## Ids that are kept apart -/

/-- The ids that an operation goes by, or will go by. -/
def Operation.Holds (x : Operation) (id : Int) : Prop := x.invokeId = id ∨ id ∈ x.pending

instance (x : Operation) (id : Int) : Decidable (x.Holds id) :=
  inferInstanceAs (Decidable (_ ∨ _))

/-- No operation but the target goes by the id. -/
def Clear (s : Agent) (target : Option Nat) (id : Int) : Prop :=
  ∀ x ∈ s.activeOperations, some x.key ≠ target → 0 ≤ id → ¬ x.Holds id

instance (s : Agent) (target : Option Nat) (id : Int) : Decidable (Clear s target id) :=
  inferInstanceAs (Decidable (∀ x ∈ s.activeOperations, _))

/-- The operation's id names no invocation any more, when it gets another one. -/
def Ended (s : Agent) (target : Option Nat) (id : Int) : Prop :=
  ∀ x ∈ s.activeOperations, some x.key = target → 0 ≤ x.invokeId → x.invokeId ≠ id →
    x.invokeId ∈ x.pending ∨ s.shell.isOpen x.invokeId.toNat = false

instance (s : Agent) (target : Option Nat) (id : Int) : Decidable (Ended s target id) :=
  inferInstanceAs (Decidable (∀ x ∈ s.activeOperations, _))

/-- What a callback needs. An INVOKE comes under an id that nobody else goes by, and the MTS
writes it over an id that has ended. The event that ends an invocation comes after the operation
has taken the id, gives an event to an operation that has the id, and comes under an id. -/
def GuardedCallback (side : Side) (target : Option Nat) (received : Received) (s : Agent) :
    Callback → Prop
  | .invokeInd _ id => Clear s target id ∧ (side = .mts → Ended s target id)
  | .concluded _ kind id _ =>
    ∀ x ∈ s.activeOperations, (id ∈ x.pending → x.invokeId = id) ∧
      (x.invokeId = id → 0 ≤ id ∧ generates side kind received = true)

instance (side : Side) (target : Option Nat) (received : Received) (s : Agent) (c : Callback) :
    Decidable (GuardedCallback side target received s c) := by
  cases c
  · exact inferInstanceAs (Decidable (_ ∧ _))
  · exact inferInstanceAs (Decidable (∀ x ∈ s.activeOperations, _))

/-- **The condition.** An id is handed out when no other operation carries it, and given to an
operation when the invocation of its old id has ended; the memory of a new operation of the UA
holds no id that is in use. -/
def Guarded (side : Side) (s : Agent) : Input → Prop
  | .allocOperation memory =>
    side = .ua → 0 ≤ memory →
      s.shell.isOpen memory.toNat = false ∧ ∀ x ∈ s.activeOperations, ¬ x.Holds memory
  | .issueInvoke key _ =>
    let id : Int := match s.shell.addUSInvoke with
      | none => -1
      | some (us, _) => us
    Clear s (some key) id ∧ Ended s (some key) id
  | .event e target received =>
    ∀ c ∈ (s.shell.getEvent e).bind (·.2), GuardedCallback side target received s c
  | .takePending key =>
    ∀ x ∈ s.activeOperations, x.key = key → ∀ id ∈ x.pending.head?, Ended s (some key) id
  | .freeOperation _ => True

instance (side : Side) (s : Agent) (i : Input) : Decidable (Guarded side s i) := by
  cases i
  · exact inferInstanceAs (Decidable (_ → _))
  · exact inferInstanceAs (Decidable (_ ∧ _))
  · exact inferInstanceAs (Decidable (∀ c ∈ Option.bind _ _, _))
  · exact inferInstanceAs (Decidable (∀ x ∈ s.activeOperations, _))
  · exact inferInstanceAs (Decidable True)

/-! ## The invariant -/

/-- **The books of the ids.** Ids in use stand for one operation each, which goes by them, and no
two operations go by the same id. -/
structure Booked (ops : List Operation) (isOpen : Nat → Bool) (owner : Nat → Option Nat)
    (next : Nat) : Prop where
  nodup : (ops.map (·.key)).Nodup
  fresh : ∀ x ∈ ops, x.key < next
  issued : ∀ i k, isOpen i = true → owner i = some k → k < next
  apart : ∀ x ∈ ops, ∀ y ∈ ops, x.key ≠ y.key → ∀ id, 0 ≤ id → x.Holds id → ¬ y.Holds id
  owned : ∀ x ∈ ops, ∀ i : Nat, x.Holds i → isOpen i = true → owner i = some x.key
  held : ∀ x ∈ ops, ∀ i : Nat, isOpen i = true → owner i = some x.key → x.Holds i

namespace Booked

variable {ops : List Operation} {isOpen isOpen' : Nat → Bool} {owner owner' : Nat → Option Nat}
  {next : Nat} {target : Option Nat} {id : Int} {f : Operation → Operation}

/-- Ids that are given up change nothing. -/
theorem close (h : Booked ops isOpen owner next) (hc : ∀ i, isOpen' i = true → isOpen i = true) :
    Booked ops isOpen' owner next where
  nodup := h.nodup
  fresh := h.fresh
  issued i k hi := h.issued i k (hc i hi)
  apart := h.apart
  owned x hx i hh hi := h.owned x hx i hh (hc i hi)
  held x hx i hi := h.held x hx i (hc i hi)

/-- An operation that ends takes nothing with it. -/
theorem free (h : Booked ops isOpen owner next) (p : Operation → Bool) :
    Booked (ops.filter p) isOpen owner next where
  nodup := h.nodup.sublist (List.filter_sublist.map _)
  fresh x hx := h.fresh x (List.mem_of_mem_filter hx)
  issued := h.issued
  apart x hx y hy := h.apart x (List.mem_of_mem_filter hx) y (List.mem_of_mem_filter hy)
  owned x hx := h.owned x (List.mem_of_mem_filter hx)
  held x hx := h.held x (List.mem_of_mem_filter hx)

/-- A new operation goes by no id in use. -/
theorem alloc (h : Booked ops isOpen owner next)
    (hid : 0 ≤ id → isOpen id.toNat = false ∧ ∀ x ∈ ops, ¬ x.Holds id) :
    Booked (ops ++ [{ key := next, invokeId := id }]) isOpen owner (next + 1) := by
  have hnew : ∀ j, ({ key := next, invokeId := id } : Operation).Holds j → j = id := by
    intro j hj
    rcases hj with rfl | hj
    · rfl
    · cases hj
  refine ⟨?_, fun x hx => ?_, fun i k hi hk => ?_, fun x hx y hy hne j hj hxj hyj => ?_,
    fun x hx i hh hi => ?_, fun x hx i hi hk => ?_⟩
  · rw [List.map_append]
    refine List.nodup_append.2 ⟨h.nodup, by simp, fun a ha b hb => ?_⟩
    obtain ⟨x, hx, rfl⟩ := List.mem_map.1 ha
    obtain rfl : b = next := by simpa using hb
    have := h.fresh x hx
    omega
  · rcases List.mem_append.1 hx with hx | hx
    · have := h.fresh x hx
      omega
    · obtain rfl := List.mem_singleton.1 hx
      exact Nat.lt_succ_self _
  · have := h.issued i k hi hk
    omega
  · rcases List.mem_append.1 hx with hx' | hx' <;> rcases List.mem_append.1 hy with hy' | hy'
    · exact h.apart x hx' y hy' hne j hj hxj hyj
    · obtain rfl := List.mem_singleton.1 hy'
      obtain rfl := hnew j hyj
      exact (hid hj).2 x hx' hxj
    · obtain rfl := List.mem_singleton.1 hx'
      obtain rfl := hnew j hxj
      exact (hid hj).2 y hy' hyj
    · obtain rfl := List.mem_singleton.1 hx'
      obtain rfl := List.mem_singleton.1 hy'
      exact hne rfl
  · rcases List.mem_append.1 hx with hx | hx
    · exact h.owned x hx i hh hi
    · obtain rfl := List.mem_singleton.1 hx
      have hclosed := (hid (by have := hnew i hh; omega)).1
      rw [← hnew i hh] at hclosed
      rw [show ((i : Int)).toNat = i from rfl, hi] at hclosed
      cases hclosed
  · rcases List.mem_append.1 hx with hx | hx
    · exact h.held x hx i hi hk
    · obtain rfl := List.mem_singleton.1 hx
      have := h.issued i next hi hk
      omega

/-- **An operation gets an id.** No other one goes by it, and what the operation gives up for it
is in use no more. -/
theorem give (h : Booked ops isOpen owner next) (id : Int) (hkey : ∀ x, (f x).key = x.key)
    (honly : ∀ x i, (f x).Holds i → x.Holds i ∨ i = id)
    (hkeep : ∀ x ∈ ops, some x.key = target → ∀ i : Nat, isOpen' i = true → owner' i = some x.key →
      (f x).Holds i)
    (hclear : ∀ x ∈ ops, some x.key ≠ target → 0 ≤ id → ¬ x.Holds id)
    (hsame : ∀ i : Nat, (i : Int) ≠ id → isOpen' i = true → isOpen i = true ∧ owner' i = owner i)
    (hnew : ∀ i : Nat, (i : Int) = id → isOpen' i = true → owner' i = target)
    (hlive : ∀ k ∈ target, k < next) :
    Booked (ops.map fun x => if some x.key = target then f x else x) isOpen' owner' next := by
  have hmem : ∀ y ∈ ops.map (fun x => if some x.key = target then f x else x),
      ∃ x ∈ ops, x.key = y.key ∧ (some x.key = target ∧ f x = y ∨ some x.key ≠ target ∧ x = y) := by
    intro y hy
    obtain ⟨x, hx, rfl⟩ := List.mem_map.1 hy
    split
    · rename_i heq
      exact ⟨x, hx, (hkey x).symm, .inl ⟨heq, rfl⟩⟩
    · rename_i hne
      exact ⟨x, hx, rfl, .inr ⟨hne, rfl⟩⟩
  refine ⟨?_, fun y hy => ?_, fun i k hi hk => ?_, fun y hy z hz hne j hj hyj hzj => ?_,
    fun y hy i hh hi => ?_, fun y hy i hi hk => ?_⟩
  · have hkeys : ((fun x : Operation => x.key) ∘ fun x => if some x.key = target then f x else x) =
        fun x => x.key := by
      funext x
      simp only [Function.comp]
      split
      · exact hkey x
      · rfl
    rw [List.map_map, hkeys]
    exact h.nodup
  · obtain ⟨x, hx, hk, -⟩ := hmem y hy
    exact hk ▸ h.fresh x hx
  · by_cases heq : (i : Int) = id
    · exact hlive k (by rw [← hnew i heq hi, hk]; rfl)
    · obtain ⟨ho, hw⟩ := hsame i heq hi
      exact h.issued i k ho (hw ▸ hk)
  · obtain ⟨x, hx, hxk, hxy⟩ := hmem y hy
    obtain ⟨w, hw, hwk, hwz⟩ := hmem z hz
    have hxw : x.key ≠ w.key := by
      rw [hxk, hwk]
      exact hne
    -- at most one of the two is the target, and the other one does not go by the new id
    rcases hxy with ⟨hxt, rfl⟩ | ⟨hxt, rfl⟩ <;> rcases hwz with ⟨hwt, rfl⟩ | ⟨hwt, rfl⟩
    · exact hxw (Option.some.inj (hxt.trans hwt.symm))
    · rcases honly x j hyj with hxj | rfl
      · exact h.apart x hx w hw hxw j hj hxj hzj
      · exact hclear w hw hwt hj hzj
    · rcases honly w j hzj with hwj | rfl
      · exact h.apart x hx w hw hxw j hj hyj hwj
      · exact hclear x hx hxt hj hyj
    · exact h.apart x hx w hw hxw j hj hyj hzj
  · obtain ⟨x, hx, hxk, hxy⟩ := hmem y hy
    rw [← hxk]
    by_cases heq : (i : Int) = id
    · rcases hxy with ⟨hxt, rfl⟩ | ⟨hxt, rfl⟩
      · rw [hnew i heq hi, hxt]
      · exact absurd (heq ▸ hh) (hclear x hx hxt (by omega))
    · obtain ⟨ho, hw⟩ := hsame i heq hi
      rw [hw]
      rcases hxy with ⟨hxt, rfl⟩ | ⟨hxt, rfl⟩
      · rcases honly x i hh with hxi | hxi
        · exact h.owned x hx i hxi ho
        · exact absurd hxi heq
      · exact h.owned x hx i hh ho
  · obtain ⟨x, hx, hxk, hxy⟩ := hmem y hy
    rw [← hxk] at hk
    rcases hxy with ⟨hxt, rfl⟩ | ⟨hxt, rfl⟩
    · exact hkeep x hx hxt i hi hk
    · by_cases heq : (i : Int) = id
      · exact absurd ((hnew i heq hi).symm.trans hk).symm hxt
      · obtain ⟨ho, hw⟩ := hsame i heq hi
        exact h.held x hx i ho (hw ▸ hk)

end Booked

/-! ## Every step keeps the books -/

/-- The tables of the shell and the books of the ids. -/
structure Sound (s : Agent) : Prop where
  shell : s.shell.Wf
  books : Booked s.activeOperations s.shell.isOpen s.owner s.next

variable {side : Side} {s t : Agent} {o h : List Output} {target : Option Nat} {id : Int}

theorem Sound.init : Sound {} :=
  ⟨.init, by simp, nofun, nofun, nofun, nofun, nofun⟩

theorem alive_iff {key : Nat} : s.alive key = true ↔ ∃ x ∈ s.activeOperations, x.key = key := by
  simp [Agent.alive]

theorem Sound.alive_lt (hs : Sound s) {key : Nat} (ha : s.alive key = true) : key < s.next := by
  obtain ⟨x, hx, rfl⟩ := alive_iff.1 ha
  exact hs.books.fresh x hx

/-- An operation that gets a new id goes on by the ids in use. -/
theorem Ended.keeps (he : Ended s target id) {x : Operation} (hx : x ∈ s.activeOperations)
    (ht : some x.key = target) {i : Nat} (hi : s.shell.isOpen i = true) (hh : x.Holds i) :
    ({ x with invokeId := id } : Operation).Holds i := by
  rcases hh with hh | hh
  · by_cases heq : x.invokeId = id
    · exact .inl (heq ▸ hh)
    · rcases he x hx ht (by omega) heq with hp | hclosed
      · exact .inr (hh ▸ hp)
      · rw [hh] at hclosed
        rw [show ((i : Int)).toNat = i from rfl, hi] at hclosed
        cases hclosed
  · exact .inr hh

/-- What an operation goes by after an INVOKE. -/
theorem receiveId_only {x : Operation} {i : Int} (hh : (Agent.receiveId side id x).Holds i) :
    x.Holds i ∨ i = id := by
  cases side with
  | mts =>
    rcases hh with hh | hh
    · exact .inr hh.symm
    · exact .inl (.inr hh)
  | ua =>
    rcases hh with hh | hh
    · exact .inl (.inl hh)
    · rcases List.mem_append.1 hh with hh | hh
      · exact .inl (.inr hh)
      · exact .inr (List.mem_singleton.1 hh)

theorem receiveId_new (x : Operation) : (Agent.receiveId side id x).Holds id := by
  cases side with
  | mts => exact .inl rfl
  | ua => exact .inr (List.mem_append_right _ (List.mem_singleton_self _))

/-- **A request for an invocation** keeps the books. -/
theorem Sound.issueInvoke (hs : Sound s) {key : Nat} {putAction : Bool} (ha : s.alive key = true)
    (hg : Guarded side s (.issueInvoke key putAction)) : Sound (s.issueInvoke key putAction) := by
  have hlive : ∀ k ∈ some key, k < s.next := by
    rintro k ⟨⟩
    exact hs.alive_lt ha
  unfold Agent.issueInvoke
  simp only [Guarded] at hg
  split at hg
  · -- the shell has no id left
    obtain ⟨-, hended⟩ := hg
    refine ⟨hs.shell, hs.books.give (-1) (fun _ => rfl) ?_ ?_ (fun _ _ _ h => by omega)
      (fun i _ hi => ⟨hi, rfl⟩) (fun i hi => by omega) hlive⟩
    · rintro x i (hh | hh)
      · exact .inr hh.symm
      · exact .inl (.inr hh)
    · intro x hx hk i hi ho
      exact hended.keeps hx hk hi (hs.books.held x hx i hi ho)
  · rename_i us shell hadd
    obtain ⟨hclear, hended⟩ := hg
    obtain ⟨hfree, -, hshell⟩ := UserShell.addUSInvoke_some hadd
    have hopen : ∀ i, shell.isOpen i = if i = us then true else s.shell.isOpen i := by
      intro i
      rw [hshell, UserShell.isOpen_setUS]
    have hbooks : Booked (s.update (some key) fun x => { x with invokeId := us }).activeOperations
        shell.isOpen (s.handOut us (some key)).owner s.next := by
      refine hs.books.give us (fun _ => rfl) ?_ ?_ hclear ?_ ?_ hlive
      · rintro x i (hh | hh)
        · exact .inr hh.symm
        · exact .inl (.inr hh)
      · intro x hx hk i hi ho
        rw [hopen] at hi
        split at hi
        · rename_i heq
          exact .inl (heq ▸ rfl)
        · rename_i hne
          have hw : (s.handOut us (some key)).owner i = s.owner i :=
            if_neg (by exact_mod_cast hne)
          exact hended.keeps hx hk hi (hs.books.held x hx i hi (hw ▸ ho))
      · intro i hne hi
        rw [hopen, if_neg (by exact_mod_cast hne)] at hi
        exact ⟨hi, if_neg hne⟩
      · intro i heq _
        exact if_pos heq
    dsimp only
    split
    · exact ⟨hs.shell.addUSInvoke hadd, hbooks⟩
    · have hless : ∀ i, (shell.removeUSInvokeId us).isOpen i = true → shell.isOpen i = true :=
        fun i hi => UserShell.isOpen_removeUSInvokeId hi
      have hwf : (shell.removeUSInvokeId us).Wf := (hs.shell.addUSInvoke hadd).removeUSInvokeId
      exact ⟨hwf, hbooks.close hless⟩

/-- **An INVOKE.indication** keeps the books. -/
theorem Sound.invokeInd (hs : Sound s) {e : Event} {v : UserShell} {sapDesc : Nat}
    {received : Received} (ha : ∀ k ∈ target, s.alive k = true)
    (he : s.shell.getEvent e = some (v, some (.invokeInd sapDesc id)))
    (hstat : ∀ b sap ps us ref, e = .invokeReqStat b sap ps us ref → s.shell.isOpen us = true)
    (hg : GuardedCallback side target received s (.invokeInd sapDesc id)) :
    Sound { (s.update target (Agent.receiveId side id)).handOut id target with shell := v } := by
  obtain ⟨hclear, hended⟩ := hg
  obtain ⟨us, rfl, hfree, hopen⟩ := hs.shell.announced he
  refine ⟨hs.shell.getEvent he hstat, hs.books.give us ?_ ?_ ?_ hclear ?_ ?_
    fun k hk => hs.alive_lt (ha k hk)⟩
  · intro x
    cases side <;> rfl
  · exact fun x i hh => receiveId_only hh
  · intro x hx hk i hi ho
    by_cases heq : i = us
    · rw [heq]
      exact receiveId_new x
    · have hw : ((s.update target (Agent.receiveId side us)).handOut us target).owner i =
          s.owner i := if_neg (by exact_mod_cast heq)
      have hold := (hopen i hi).resolve_left heq
      have hh := hs.books.held x hx i hold (hw ▸ ho)
      cases side with
      | mts => exact (hended rfl).keeps hx hk hold hh
      | ua =>
        rcases hh with hh | hh
        · exact .inl hh
        · exact .inr (List.mem_append_left _ hh)
  · intro i hne hi
    exact ⟨(hopen i hi).resolve_left (by exact_mod_cast hne), if_neg hne⟩
  · intro i heq _
    exact if_pos heq

/-- **An event that ends an invocation** reaches the operation that it concerns. -/
theorem Sound.concluded (hs : Sound s) {sapDesc ref : Nat} {kind : Conclusion}
    {received : Received} (hid : id = -1 ∨ ∃ i : Nat, id = i ∧ s.shell.isOpen i = true)
    (hg : GuardedCallback side target received s (.concluded sapDesc kind id ref)) :
    ((s.findOperationByInvokeId id).filter fun _ => generates side kind received).map (·.key) =
      s.concerns id := by
  cases hfind : s.findOperationByInvokeId id with
  | some x =>
    have hx : x ∈ s.activeOperations := List.mem_of_find?_eq_some hfind
    have hxid : x.invokeId = id := by simpa using List.find?_some hfind
    obtain ⟨hpos, hgen⟩ := (hg x hx).2 hxid
    rcases hid with rfl | ⟨i, rfl, hi⟩
    · omega
    · have howner := hs.books.owned x hx i (.inl hxid) hi
      have halive : s.alive x.key = true := alive_iff.2 ⟨x, hx, rfl⟩
      have hconcerns : s.concerns i = some x.key := by
        simp [Agent.concerns, hi, howner, Option.filter_some, halive]
      rw [hconcerns, Option.filter_some, if_pos hgen]
      rfl
  | none =>
    have hno : ∀ x ∈ s.activeOperations, x.invokeId ≠ id := by
      intro x hx
      simpa using List.find?_eq_none.1 hfind x hx
    have hconcerns : s.concerns id = none := by
      unfold Agent.concerns
      split
      · rename_i hopen
        rcases hid with rfl | ⟨i, rfl, hi⟩
        · omega
        · refine Option.filter_eq_none_iff.2 fun k hk halive => ?_
          obtain ⟨x, hx, rfl⟩ := alive_iff.1 halive
          rcases hs.books.held x hx i hi hk with hh | hh
          · exact hno x hx hh
          · exact hno x hx ((hg x hx).1 hh)
      · rfl
    rw [hconcerns]
    rfl

theorem Sound.takePending (hs : Sound s) {key : Nat} (ha : s.alive key = true)
    (hg : Guarded side s (.takePending key)) : Sound (s.update (some key) Agent.takePending) := by
  have hsub : ∀ (x : Operation) (i : Int), (Agent.takePending x).Holds i → x.Holds i := by
    intro x i hh
    unfold Agent.takePending at hh
    split at hh
    · exact hh
    · rename_i j rest hp
      rcases hh with rfl | hh
      · exact .inr (hp ▸ List.mem_cons_self)
      · exact .inr (hp ▸ List.mem_cons_of_mem _ hh)
  refine ⟨hs.shell, hs.books.give (-1) ?_ ?_ ?_ (fun _ _ _ h => by omega)
    (fun i _ hi => ⟨hi, rfl⟩) (fun i hi => by omega) ?_⟩
  · intro x
    unfold Agent.takePending
    split <;> rfl
  · exact fun x i hh => .inl (hsub x i hh)
  · intro x hx hk i hi ho
    have hh := hs.books.held x hx i hi ho
    have hended := hg x hx (Option.some.inj hk)
    unfold Agent.takePending
    split
    · exact hh
    · rename_i j rest hp
      have hj : Ended s (some key) j := hended j (by rw [hp]; rfl)
      -- the id that is taken, the one that is given up for it, or one that still waits
      rcases hj.keeps hx hk hi hh with heq | hmem
      · exact .inl heq
      · rw [hp] at hmem
        rcases List.mem_cons.1 hmem with heq | hrest
        · exact .inl heq.symm
        · exact .inr hrest
  · rintro k ⟨⟩
    exact hs.alive_lt ha

/-- **A step** keeps the books, and gives its event to the operation that it concerns. -/
theorem Sound.step {i : Input} (hs : Sound s) (hg : Guarded side s i)
    (hst : step side s i = some (t, o)) : Sound t ∧ ∀ x ∈ o, x.event = x.owner := by
  cases i with
  | allocOperation memory =>
    simp only [Routing.step] at hst
    cases hst
    refine ⟨⟨hs.shell, hs.books.alloc fun hpos => ?_⟩, nofun⟩
    cases side with
    | mts => exact absurd (show (0 : Int) ≤ -1 from hpos) (by decide)
    | ua => exact hg rfl hpos
  | issueInvoke key putAction =>
    simp only [Routing.step] at hst
    split at hst
    · cases hst
      exact ⟨hs.issueInvoke ‹_› hg, nofun⟩
    · cases hst
  | event e target received =>
    simp only [Routing.step] at hst
    split at hst
    · rename_i hcan
      obtain ⟨⟨v, c⟩, hget, hr⟩ := Option.map_eq_some_iff.1 hst
      have hstat : ∀ b sap ps us ref, e = .invokeReqStat b sap ps us ref →
          s.shell.isOpen us = true := by
        rintro b sap ps us ref rfl
        exact hcan.1
      cases c with
      | none =>
        cases hr
        exact ⟨⟨hs.shell.getEvent hget hstat,
          hs.books.close fun i hi => UserShell.isOpen_silent hget hstat hi⟩, nofun⟩
      | some c =>
        have hc : GuardedCallback side target received s c := hg c (by rw [hget]; rfl)
        cases c with
        | invokeInd sap id =>
          cases hr
          exact ⟨hs.invokeInd hcan.2 hget hstat hc, nofun⟩
        | concluded sap kind id ref =>
          cases hr
          obtain ⟨hid, hopen⟩ := hs.shell.ended hget hstat
          refine ⟨⟨hs.shell.getEvent hget hstat, hs.books.close hopen⟩, fun x hx => ?_⟩
          obtain rfl := List.mem_singleton.1 hx
          exact hs.concluded hid hc
    · cases hst
  | takePending key =>
    simp only [Routing.step] at hst
    split at hst
    · rename_i hcan
      cases hst
      exact ⟨hs.takePending hcan.2 hg, nofun⟩
    · cases hst
  | freeOperation key =>
    simp only [Routing.step] at hst
    cases hst
    exact ⟨⟨hs.shell, hs.books.free _⟩, nofun⟩

theorem Booked.unique {ops : List Operation} {isOpen : Nat → Bool} {owner : Nat → Option Nat}
    {next : Nat} (h : Booked ops isOpen owner next) :
    ops.Pairwise fun x y => 0 ≤ x.invokeId → x.invokeId ≠ y.invokeId := by
  have hkeys : ops.Pairwise fun x y => x.key ≠ y.key := List.pairwise_map.1 h.nodup
  refine hkeys.imp_of_mem fun {x y} hx hy hne hpos heq => ?_
  exact h.apart x hx y hy hne x.invokeId hpos (.inl rfl) (.inl heq.symm)

/-- **Events are routed to their operations.** In every run whose steps meet the condition, each
event that ends an invocation reaches the operation that the invocation concerns, and no operation
when that is none; and no two operations carry the same id. -/
theorem routed (hr : Run.Reach (routing side) (Guarded side) h s) :
    (∀ x ∈ h, x.event = x.owner) ∧ Unique s := by
  have hinv := hr.invariant_hist (P := fun s h => Sound s ∧ ∀ x ∈ h, x.event = x.owner)
    (fun s hs => ?_) fun s i t o h hp hg hst => ?_
  · exact ⟨hinv.2, hinv.1.books.unique⟩
  · obtain rfl : s = {} := hs
    exact ⟨.init, nofun⟩
  · obtain ⟨hsound, hevents⟩ := hp.1.step hg hst
    refine ⟨hsound, fun x hx => ?_⟩
    rcases List.mem_append.1 hx with hx | hx
    · exact hp.2 x hx
    · exact hevents x hx

/-- An inbound operation of the UA from its INVOKE to the RESULT.confirm, then an outbound one
that gets the same id. -/
def inTurn : List Input :=
  [.allocOperation (-7), .event (.invokeInd 0 5) (some 0) {}, .takePending 0,
   .event (.concluded .resultCnf 5 0) none {}, .freeOperation 0, .allocOperation (-7),
   .issueInvoke 1 true, .event (.invokeReqStat true 0 6 0 0) none {},
   .event (.concluded .resultInd 6 0) none {}]

theorem routed_inTurn : ∃ s h, Run.Reach (routing .ua) (Guarded .ua) h s ∧
    h = [⟨some 0, some 0⟩, ⟨some 1, some 1⟩] ∧ (∀ x ∈ h, x.event = x.owner) ∧ Unique s := by
  obtain ⟨s, h, hr, hp⟩ := Run.Reach.of_run (S := routing .ua)
    (b := fun s i => decide (Guarded .ua s i)) (fun _ _ hb => of_decide_eq_true hb) rfl inTurn
    (fun _ h => decide (h = [⟨some 0, some 0⟩, ⟨some 1, some 1⟩])) (by decide +kernel)
  exact ⟨s, h, hr, of_decide_eq_true hp, routed hr⟩

end Mtsua.Routing
