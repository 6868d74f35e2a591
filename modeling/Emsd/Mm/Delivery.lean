import Emsd.Mm.Raising
import Mathlib.Data.List.ModifyLast
import Mathlib.Data.List.Infix

/-!
# Delivery of events (`MM_processEvents`)

`MM_processEvents` takes the events of an entity out of its queue, one by one, and calls the alert
function of each destination that asks for them. An alert function may make calls itself, and so the
loop goes step by step here, with calls in between.

* `deliveriesOf`: what a run has delivered for an entity, read off its marks.
* `events_delivered`: **every event is offered once to every destination, in the order in which the
  events were raised**, and value-changed events are raised as they should be.
-/

namespace Mm

open Ocp

/-! ## The loop -/

/-- A call of `MM_processEvents`: the event that it has taken out, and how many destinations have had
it. -/
structure Frame where
  entity : EntityId
  current : Option (Event × Nat) := none
  deriving DecidableEq, Repr

/-- The innermost call comes first. -/
structure World where
  state : State := {}
  frames : List Frame := []
  deriving DecidableEq, Repr

/-- The queue of destinations of an entity. -/
def State.destinationsOf (s : State) (e : EntityId) : List DestinationId :=
  (List.range s.destinations.length).filter fun i =>
    (s.destinations[i]?).any (·.pApplicationEntityInstance = e)

/-- The test of the dispatcher. -/
def Destination.accepts (d : Destination) (ev : Event) : Bool :=
  (ev.notificationTypes &&& d.notifyMask ≠ 0 || ev.eventType = .managableObjectChange) &&
    d.eventMask &&& (1 <<< ev.eventType.toUInt32) ≠ 0

/-- What can be seen of a step. -/
inductive Mark
  | called (before after : State) (raised : List Event)
  | taken (ev : Event)
  | offered (ev : Event) (id : DestinationId) (d : Destination) (alerted : Bool)
  | finished (ev : Event) (destinations : Nat)
  deriving DecidableEq, Repr

inductive Act
  | call (mem : Memory) (c : Call)
  | processEvents (e : EntityId)
  | resume
  deriving DecidableEq, Repr

/-- The innermost loop goes on: to the next event, the next destination, or its end. -/
def World.resume (w : World) : Option (World × List Mark) :=
  match w.frames with
  | [] => none
  | f :: fs =>
    match f.current with
    | none =>
      match w.state.pendingEvents.find? (·.pApplicationEntityInstance = f.entity) with
      | none => some ({ w with frames := fs }, [])
      | some ev =>
        let pendingEvents :=
          w.state.pendingEvents.eraseP (·.pApplicationEntityInstance = f.entity)
        some (⟨{ w.state with pendingEvents }, { f with current := some (ev, 0) } :: fs⟩, [.taken ev])
    | some (ev, k) =>
      match (w.state.destinationsOf f.entity)[k]? with
      | none =>
        some ({ w with frames := { f with current := none } :: fs },
          [.finished ev (w.state.destinationsOf f.entity).length])
      | some id => (w.state.destinations[id]?).map fun d =>
        ({ w with frames := { f with current := some (ev, k + 1) } :: fs },
          [.offered ev id d (d.accepts ev)])

/-- The program and the loops that it has begun. A call is one of the program, or of an alert function
while a loop runs. -/
def delivery : Run.Sys World Act Mark where
  init w := w = {}
  step w
    | .call mem c => (c.run mem w.state).map fun r =>
      ({ w with state := r.state },
        [.called w.state r.state (r.state.pendingEvents.drop w.state.pendingEvents.length)])
    | .processEvents e =>
      if e < w.state.applicationEntityInstances.length then
        some ({ w with frames := ⟨e, none⟩ :: w.frames }, [])
      else none
    | .resume => w.resume

/-! ## What has been delivered -/

/-- A destination has had its turn, and its alert function was called or not. -/
structure Offer where
  id : DestinationId
  destination : Destination
  alerted : Bool
  deriving DecidableEq, Repr

/-- An event that has been taken out. When it is over, `finished` is the number of destinations that
there were. -/
structure Delivery where
  event : Event
  offers : List Offer := []
  finished : Option Nat := none
  deriving DecidableEq, Repr

/-- The deliveries of an entity after one more mark. -/
def record (e : EntityId) (ds : List Delivery) : Mark → List Delivery
  | .called _ _ _ => ds
  | .taken ev => if ev.pApplicationEntityInstance = e then ds ++ [{ event := ev }] else ds
  | .offered ev id d alerted =>
    if ev.pApplicationEntityInstance = e then
      ds.modifyLast fun δ => { δ with offers := δ.offers ++ [⟨id, d, alerted⟩] }
    else ds
  | .finished ev n =>
    if ev.pApplicationEntityInstance = e then ds.modifyLast fun δ => { δ with finished := some n }
    else ds

def deliveriesOf (e : EntityId) (log : List Mark) : List Delivery := log.foldl (record e) []

/-- The events of an entity that have been raised. -/
def raisedOf (e : EntityId) (log : List Mark) : List Event :=
  log.flatMap fun
    | .called _ _ raised => raised.filter (·.pApplicationEntityInstance = e)
    | _ => []

def State.pendingOf (s : State) (e : EntityId) : List Event :=
  s.pendingEvents.filter (·.pApplicationEntityInstance = e)

/-- The event is one for the destination: its event mask has the bit of the type, and its notify mask one
of the object's, which do not matter for a change of the objects. -/
def Wanted (ev : Event) (d : Destination) : Prop :=
  d.eventMask.toNat.testBit ev.eventType.toUInt32.toNat = true ∧
    (ev.eventType = .managableObjectChange ∨
      ∃ b, ev.notificationTypes.toNat.testBit b = true ∧ d.notifyMask.toNat.testBit b = true)

/-- A delivery to the first `k` of the destinations `ids`. -/
structure Delivery.To (δ : Delivery) (ids : List DestinationId) (k : Nat) : Prop where
  offered : δ.offers.map (·.id) = ids.take k
  le : k ≤ ids.length
  wanted : ∀ x ∈ δ.offers, x.alerted = true ↔ Wanted δ.event x.destination

/-- A delivery that is over: it was one to all destinations that there were. -/
def Delivery.Over (δ : Delivery) (ids : List DestinationId) : Prop :=
  ∃ n, δ.finished = some n ∧ δ.To ids n

/-- The deliveries of an entity: those that are over, and one that is not. -/
def Delivering (ids : List DestinationId) (ds : List Delivery) : Option (Event × Nat) → Prop
  | none => ∀ δ ∈ ds, δ.Over ids
  | some (ev, k) => ∃ before offers, ds = before ++ [⟨ev, offers, none⟩] ∧
    (∀ δ ∈ before, δ.Over ids) ∧ Delivery.To ⟨ev, offers, none⟩ ids k

/-- Where the loop of the entity is, if there is one. -/
def activeOf (e : EntityId) : List Frame → Option (Event × Nat)
  | [] => none
  | f :: fs => if f.entity = e then f.current else activeOf e fs

/-- The state of a delivery. -/
structure Delivered (w : World) (log : List Mark) : Prop where
  /-- Value-changed events have been raised as they should be. -/
  raised : ∀ before after raised, .called before after raised ∈ log → Raised before after raised
  /-- Each event that has been raised is taken out once, in this order, or waits. -/
  order : ∀ e, raisedOf e log = (deliveriesOf e log).map (·.event) ++ w.state.pendingOf e
  /-- What is taken out goes to every destination, once and in turn, before the next event. -/
  deliveries : ∀ e, Delivering (w.state.destinationsOf e) (deliveriesOf e log) (activeOf e w.frames)

/-! ## The test of the dispatcher -/

theorem and_ne_zero_iff (a b : UInt32) : a &&& b ≠ 0 ↔
    ∃ k, a.toNat.testBit k = true ∧ b.toNat.testBit k = true := by
  have hzero : a &&& b = 0 ↔ a.toNat &&& b.toNat = 0 := by
    rw [← UInt32.toNat_inj, UInt32.toNat_and]
    rfl
  rw [ne_eq, hzero]
  constructor
  · intro h
    obtain ⟨k, hk⟩ := Nat.exists_testBit_of_ne_zero h
    rw [Nat.testBit_and, Bool.and_eq_true] at hk
    exact ⟨k, hk⟩
  · rintro ⟨k, ha, hb⟩ h
    have hk : (a.toNat &&& b.toNat).testBit k = true := by simp [ha, hb]
    rw [h, Nat.zero_testBit] at hk
    cases hk

theorem bit_toNat (t : EventType) (k : Nat) :
    ((1 : UInt32) <<< t.toUInt32).toNat.testBit k = true ↔ k = t.toUInt32.toNat := by
  have hpow : ((1 : UInt32) <<< t.toUInt32).toNat = 2 ^ t.toUInt32.toNat := by cases t <;> rfl
  rw [hpow, Nat.testBit_two_pow]
  simp [eq_comm]

/-- **The dispatcher** tests what it should. -/
theorem accepts_iff (d : Destination) (ev : Event) : d.accepts ev = true ↔ Wanted ev d := by
  unfold Destination.accepts Wanted
  rw [Bool.and_eq_true, Bool.or_eq_true, decide_eq_true_eq, decide_eq_true_eq, decide_eq_true_eq,
    and_ne_zero_iff, and_ne_zero_iff]
  constructor
  · rintro ⟨hn, k, hk, hb⟩
    rw [bit_toNat] at hb
    subst hb
    exact ⟨hk, hn.symm⟩
  · rintro ⟨hb, hn⟩
    exact ⟨hn.symm, _, hb, (bit_toNat _ _).2 rfl⟩

/-! ## Destinations stay where they are -/

/-- The positions of an entity. -/
theorem destinationsOf_eq (s : State) (e : EntityId) : s.destinationsOf e =
    (List.range (s.destinations.map (·.pApplicationEntityInstance)).length).filter fun i =>
      ((s.destinations.map (·.pApplicationEntityInstance))[i]?).any (· = e) := by
  unfold State.destinationsOf
  simp [List.getElem?_map, Option.any_map]

theorem positions_grow (es ds : List EntityId) (e : EntityId) :
    ((List.range es.length).filter fun i => (es[i]?).any (· = e)) <+:
      (List.range (es ++ ds).length).filter fun i => ((es ++ ds)[i]?).any (· = e) := by
  rw [List.length_append, List.range_add, List.filter_append]
  refine ⟨_, congrArg (· ++ _) (List.filter_congr fun i hi => ?_)⟩
  rw [List.getElem?_append_left (List.mem_range.1 hi)]

theorem destinationsOf_grows {s t : State} {raised : List Event} (h : Appends s t raised)
    (e : EntityId) : s.destinationsOf e <+: t.destinationsOf e := by
  obtain ⟨ds, hds⟩ := h.destinations
  rw [destinationsOf_eq, destinationsOf_eq, hds]
  exact positions_grow _ ds e

theorem Delivery.To.mono {δ : Delivery} {ids ids' : List DestinationId} {k : Nat} (h : δ.To ids k)
    (hp : ids <+: ids') : δ.To ids' k := by
  obtain ⟨rest, rfl⟩ := hp
  refine ⟨?_, ?_, h.wanted⟩
  · rw [h.offered, List.take_append_of_le_length h.le]
  · have hle := h.le
    rw [List.length_append]
    omega

theorem Delivering.mono {ids ids' : List DestinationId} {ds : List Delivery}
    {cur : Option (Event × Nat)} (h : Delivering ids ds cur) (hp : ids <+: ids') :
    Delivering ids' ds cur := by
  have hover : ∀ δ : Delivery, δ.Over ids → δ.Over ids' := fun δ ⟨n, hn, hto⟩ => ⟨n, hn, hto.mono hp⟩
  cases cur with
  | none => exact fun δ hδ => hover δ (h δ hδ)
  | some c =>
    obtain ⟨before, offers, rfl, hbefore, hto⟩ := h
    exact ⟨before, offers, rfl, fun δ hδ => hover δ (hbefore δ hδ), hto.mono hp⟩

/-! ## The queue of events -/

section Queue

variable {α : Type} {p q : α → Bool}

/-- The first element that is taken out is the first of its kind. -/
theorem filter_eq_cons_eraseP {l : List α} {a : α} (h : l.find? p = some a) :
    l.filter p = a :: (l.eraseP p).filter p := by
  induction l with
  | nil => cases h
  | cons x l ih =>
    cases hx : p x with
    | true =>
      rw [List.find?_cons_of_pos hx] at h
      obtain rfl := Option.some.inj h
      simp [hx]
    | false =>
      rw [List.find?_cons_of_neg (by simp [hx])] at h
      simp [hx, ih h]

/-- It is none of another kind. -/
theorem filter_eraseP_of_disjoint (l : List α) (h : ∀ a, p a = true → q a = false) :
    (l.eraseP p).filter q = l.filter q := by
  induction l with
  | nil => rfl
  | cons x l ih =>
    cases hx : p x with
    | true => simp [hx, h x hx]
    | false => simp [hx, List.filter_cons, ih]

end Queue

/-! ## One step -/

variable {w w' : World} {log : List Mark} {e : EntityId}

/-- The condition for a step: a call meets its own, and no alert function begins the loop of its entity
anew. -/
def Act.Careful (w : World) : Act → Prop
  | .call mem c => c.Careful mem w.state
  | .processEvents e => ∀ f ∈ w.frames, f.entity ≠ e
  | .resume => True

/-- Every entity has one loop at most, with an event of its own. -/
structure Looping (w : World) : Prop where
  distinct : (w.frames.map (·.entity)).Nodup
  own : ∀ f ∈ w.frames, ∀ ev k, f.current = some (ev, k) → ev.pApplicationEntityInstance = f.entity

theorem deliveriesOf_append (e : EntityId) (log : List Mark) (m : Mark) :
    deliveriesOf e (log ++ [m]) = record e (deliveriesOf e log) m := by
  simp [deliveriesOf]

theorem raisedOf_append (e : EntityId) (log ms : List Mark) :
    raisedOf e (log ++ ms) = raisedOf e log ++ raisedOf e ms := by
  simp [raisedOf]

theorem activeOf_eq_none {fs : List Frame} (h : ∀ f ∈ fs, f.entity ≠ e) : activeOf e fs = none := by
  induction fs with
  | nil => rfl
  | cons f fs ih =>
    rw [activeOf, if_neg (h f List.mem_cons_self)]
    exact ih fun q hq => h q (List.mem_cons_of_mem _ hq)

theorem call_delivered {mem : Memory} {c : Call} {r : Ret} (hd : Delivered w log)
    (h : c.run mem w.state = some r) (hc : c.Careful mem w.state) :
    Delivered { w with state := r.state } (log ++ [.called w.state r.state
      (r.state.pendingEvents.drop w.state.pendingEvents.length)]) := by
  obtain ⟨raised, happ, hv⟩ := call_raises h hc
  have hdrop : r.state.pendingEvents.drop w.state.pendingEvents.length = raised := by
    rw [happ.pending, List.drop_left]
  rw [hdrop]
  refine ⟨fun before after raised' hmem => ?_, fun e => ?_, fun e => ?_⟩
  · rcases List.mem_append.1 hmem with hmem | hmem
    · exact hd.raised before after raised' hmem
    · obtain ⟨rfl, rfl, rfl⟩ := Mark.called.inj (List.mem_singleton.1 hmem)
      exact ⟨happ.captured, hv⟩
  · have hpending : r.state.pendingOf e =
        w.state.pendingOf e ++ raised.filter (·.pApplicationEntityInstance = e) := by
      rw [State.pendingOf, State.pendingOf, happ.pending, List.filter_append]
    rw [raisedOf_append, deliveriesOf_append, hd.order e, hpending, ← List.append_assoc]
    simp [raisedOf, record]
  · rw [deliveriesOf_append]
    exact (hd.deliveries e).mono (destinationsOf_grows happ e)

theorem processEvents_delivered (hd : Delivered w log) (hfree : ∀ f ∈ w.frames, f.entity ≠ e) :
    Delivered { w with frames := ⟨e, none⟩ :: w.frames } log := by
  refine ⟨hd.raised, hd.order, fun e' => ?_⟩
  have hd' := hd.deliveries e'
  simp only [activeOf]
  split
  · rename_i he
    subst he
    rwa [activeOf_eq_none hfree] at hd'
  · exact hd'

/-- The loop of another entity is not touched. -/
theorem activeOf_cons_ne {f : Frame} {fs : List Frame} (h : f.entity ≠ e) :
    activeOf e (f :: fs) = activeOf e fs := if_neg h

theorem activeOf_cons_self {f : Frame} {fs : List Frame} (h : f.entity = e) :
    activeOf e (f :: fs) = f.current := if_pos h

theorem mem_log_append {m m' : Mark} (h : m ∈ log ++ [m']) (hne : m ≠ m') : m ∈ log := by
  rcases List.mem_append.1 h with h | h
  · exact h
  · exact absurd (List.mem_singleton.1 h) hne

/-- A loop ends. -/
theorem return_delivered {f : Frame} {fs : List Frame} (hd : Delivered w log) (hl : Looping w)
    (hf : w.frames = f :: fs) (hcur : f.current = none) : Delivered { w with frames := fs } log := by
  refine ⟨hd.raised, hd.order, fun e => ?_⟩
  have hd' := hd.deliveries e
  rw [hf] at hd'
  by_cases he : f.entity = e
  · have hother : ∀ q ∈ fs, q.entity ≠ e := by
      have hnodup := hl.distinct
      rw [hf, List.map_cons, List.nodup_cons] at hnodup
      intro q hq hqe
      exact hnodup.1 (List.mem_map.2 ⟨q, hq, hqe.trans he.symm⟩)
    rw [activeOf_cons_self he, hcur] at hd'
    simp only [activeOf_eq_none hother]
    exact hd'
  · rwa [activeOf_cons_ne he] at hd'

/-- The next event is taken out. -/
theorem take_delivered {f : Frame} {fs : List Frame} {ev : Event} (hd : Delivered w log)
    (hf : w.frames = f :: fs) (hcur : f.current = none)
    (hev : w.state.pendingEvents.find? (·.pApplicationEntityInstance = f.entity) = some ev) :
    Delivered ⟨{ w.state with
        pendingEvents := w.state.pendingEvents.eraseP (·.pApplicationEntityInstance = f.entity) },
      { f with current := some (ev, 0) } :: fs⟩ (log ++ [.taken ev]) := by
  have hent : ev.pApplicationEntityInstance = f.entity := by
    simpa using List.find?_some hev
  refine ⟨fun before after raised hmem => hd.raised _ _ _ (mem_log_append hmem nofun), fun e => ?_,
    fun e => ?_⟩
  · rw [raisedOf_append, deliveriesOf_append, hd.order e]
    by_cases he : f.entity = e
    · subst he
      have hq := filter_eq_cons_eraseP hev
      simp only [State.pendingOf, raisedOf, record, hent, if_true, List.map_append, List.append_assoc]
      simp [hq]
    · have hq : (w.state.pendingEvents.eraseP (·.pApplicationEntityInstance = f.entity)).filter
          (·.pApplicationEntityInstance = e) = w.state.pendingOf e := by
        refine filter_eraseP_of_disjoint _ fun a ha => ?_
        simp only [decide_eq_true_eq] at ha
        simp [ha, he]
      simp [State.pendingOf, raisedOf, record, hent, he, hq]
  · have hd' := hd.deliveries e
    rw [hf] at hd'
    rw [deliveriesOf_append]
    by_cases he : f.entity = e
    · rw [activeOf_cons_self he, hcur] at hd'
      rw [activeOf_cons_self (f := { f with current := some (ev, 0) }) he]
      refine ⟨deliveriesOf e log, [], by simp [record, hent, he], hd', ⟨rfl, Nat.zero_le _, nofun⟩⟩
    · rw [activeOf_cons_ne he] at hd'
      rw [activeOf_cons_ne (f := { f with current := some (ev, 0) }) he, record,
        if_neg (by rw [hent]; exact he)]
      exact hd'

theorem modifyLast_event {ds : List Delivery} {g : Delivery → Delivery}
    (hg : ∀ δ, (g δ).event = δ.event) : (ds.modifyLast g).map (·.event) = ds.map (·.event) := by
  induction ds using List.reverseRecOn with
  | nil => rfl
  | append_singleton ds δ _ => simp [List.modifyLast_concat, hg]

/-- A step of the loop changes neither the state nor what has been taken out. -/
theorem turn_delivered {f f' : Frame} {fs : List Frame} {m : Mark} {ev : Event}
    {g : Delivery → Delivery} (hd : Delivered w log) (hf : w.frames = f :: fs)
    (hf' : f'.entity = f.entity) (hent : ev.pApplicationEntityInstance = f.entity)
    (hm : ∀ before after raised, m ≠ .called before after raised)
    (hraised : ∀ e, raisedOf e [m] = [])
    (hrecord : ∀ e ds, record e ds m =
      if ev.pApplicationEntityInstance = e then ds.modifyLast g else ds)
    (hg : ∀ δ, (g δ).event = δ.event)
    (hturn : Delivering (w.state.destinationsOf f.entity) (deliveriesOf f.entity log) f.current →
      Delivering (w.state.destinationsOf f.entity) ((deliveriesOf f.entity log).modifyLast g)
        f'.current) :
    Delivered { w with frames := f' :: fs } (log ++ [m]) := by
  refine ⟨fun before after raised hmem => hd.raised _ _ _ (mem_log_append hmem (hm _ _ _).symm),
    fun e => ?_, fun e => ?_⟩
  · rw [raisedOf_append, hraised, List.append_nil, deliveriesOf_append, hd.order e, hrecord]
    split
    · rw [modifyLast_event hg]
    · rfl
  · have hd' := hd.deliveries e
    rw [hf] at hd'
    rw [deliveriesOf_append, hrecord, hent]
    by_cases he : f.entity = e
    · subst he
      rw [activeOf_cons_self rfl] at hd'
      rw [if_pos rfl, activeOf_cons_self hf']
      exact hturn hd'
    · rw [activeOf_cons_ne he] at hd'
      rw [if_neg he, activeOf_cons_ne (by rw [hf']; exact he)]
      exact hd'

theorem resume_delivered {ms : List Mark} (hl : Looping w) (hd : Delivered w log)
    (h : w.resume = some (w', ms)) : Delivered w' (log ++ ms) := by
  unfold World.resume at h
  cases hf : w.frames with
  | nil => simp [hf] at h
  | cons f fs =>
    simp only [hf] at h
    cases hcur : f.current with
    | none =>
      simp only [hcur] at h
      split at h
      · obtain ⟨rfl, rfl⟩ := Prod.mk.inj (Option.some.inj h)
        rw [List.append_nil]
        exact return_delivered hd hl hf hcur
      · rename_i ev hev
        obtain ⟨rfl, rfl⟩ := Prod.mk.inj (Option.some.inj h)
        exact take_delivered hd hf hcur hev
    | some c =>
      obtain ⟨ev, k⟩ := c
      have hent := hl.own f (by rw [hf]; exact List.mem_cons_self) ev k hcur
      simp only [hcur] at h
      split at h
      · rename_i hk
        obtain ⟨rfl, rfl⟩ := Prod.mk.inj (Option.some.inj h)
        refine turn_delivered (g := fun δ => { δ with
            finished := some (w.state.destinationsOf f.entity).length }) hd hf rfl hent
          nofun (fun _ => rfl) (fun _ _ => rfl) (fun _ => rfl) fun ht => ?_
        -- every destination has had its turn
        rw [hcur] at ht
        obtain ⟨before, offers, hds, hbefore, hto⟩ := ht
        rw [hds, List.modifyLast_concat]
        intro δ hδ
        rcases List.mem_append.1 hδ with hδ | hδ
        · exact hbefore δ hδ
        · obtain rfl := List.mem_singleton.1 hδ
          have hlen : k = (w.state.destinationsOf f.entity).length :=
            Nat.le_antisymm hto.le (List.getElem?_eq_none_iff.1 hk)
          exact ⟨k, by rw [hlen], hto.offered, hto.le, hto.wanted⟩
      · rename_i id hid
        obtain ⟨d, hdest, he⟩ := Option.map_eq_some_iff.1 h
        obtain ⟨rfl, rfl⟩ := Prod.mk.inj he
        refine turn_delivered (g := fun δ => { δ with
            offers := δ.offers ++ [⟨id, d, d.accepts ev⟩] }) hd hf rfl hent
          nofun (fun _ => rfl) (fun _ _ => rfl) (fun _ => rfl) fun ht => ?_
        rw [hcur] at ht
        obtain ⟨before, offers, hds, hbefore, hto⟩ := ht
        obtain ⟨hlt, hget⟩ := List.getElem?_eq_some_iff.1 hid
        rw [hds, List.modifyLast_concat]
        refine ⟨before, offers ++ [⟨id, d, d.accepts ev⟩], rfl, hbefore, ?_, hlt, fun x hx => ?_⟩
        · rw [List.map_append, hto.offered, List.take_add_one, List.getElem?_eq_getElem hlt, hget]
          rfl
        · rcases List.mem_append.1 hx with hx | hx
          · exact hto.wanted x hx
          · obtain rfl := List.mem_singleton.1 hx
            exact accepts_iff d ev

theorem resume_looping {ms : List Mark} (hl : Looping w) (h : w.resume = some (w', ms)) :
    Looping w' := by
  -- the innermost loop goes on under the name of its entity
  have hgo : ∀ (f f' : Frame) (fs : List Frame) (s : State), w.frames = f :: fs →
      f'.entity = f.entity →
      (∀ ev k, f'.current = some (ev, k) → ev.pApplicationEntityInstance = f.entity) →
      Looping ⟨s, f' :: fs⟩ := by
    intro f f' fs s hf hf' hown
    have hd := hl.distinct
    rw [hf] at hd
    refine ⟨by simpa [hf'] using hd, fun q hq => ?_⟩
    rcases List.mem_cons.1 hq with rfl | hq
    · rw [hf']
      exact hown
    · exact hl.own q (by rw [hf]; exact List.mem_cons_of_mem _ hq)
  unfold World.resume at h
  cases hf : w.frames with
  | nil => simp [hf] at h
  | cons f fs =>
    simp only [hf] at h
    split at h
    · split at h
      · obtain ⟨rfl, -⟩ := Prod.mk.inj (Option.some.inj h)
        have hd := hl.distinct
        rw [hf] at hd
        exact ⟨(List.nodup_cons.1 hd).2, fun q hq => hl.own q (by rw [hf]; exact List.mem_cons_of_mem _ hq)⟩
      · rename_i ev hev
        obtain ⟨rfl, -⟩ := Prod.mk.inj (Option.some.inj h)
        refine hgo f _ fs _ hf rfl fun ev' k hc => ?_
        obtain ⟨rfl, -⟩ := Prod.mk.inj (Option.some.inj hc)
        simpa using List.find?_some hev
    · rename_i ev k hcur
      have hent := hl.own f (by rw [hf]; exact List.mem_cons_self) ev k hcur
      split at h
      · obtain ⟨rfl, -⟩ := Prod.mk.inj (Option.some.inj h)
        exact hgo f _ fs _ hf rfl nofun
      · obtain ⟨d, -, he⟩ := Option.map_eq_some_iff.1 h
        obtain ⟨rfl, -⟩ := Prod.mk.inj he
        refine hgo f _ fs _ hf rfl fun ev' k' hc => ?_
        obtain ⟨rfl, -⟩ := Prod.mk.inj (Option.some.inj hc)
        exact hent

/-! ## Every run -/

instance {mem : Memory} {s : State} {o o' : ManagableObject} {asked : Bool} :
    Decidable (Told mem s o o' asked) :=
  decidable_of_iff
    ((o'.contents.value ≠ o.contents.value →
        (asked && o'.notifiesValueChange && s.watched o' && mem.event) = o'.wantsValueChange) ∧
      (o'.contents.value = o.contents.value →
        (asked && o'.notifiesValueChange && s.watched o' && mem.event) = false))
    ⟨fun h => ⟨h.1, h.2⟩, fun h => ⟨h.changed, h.unchanged⟩⟩

instance {mem : Memory} {s : State} {c : Call} : Decidable (c.Careful mem s) :=
  decidable_of_iff
    (∀ x ∈ c.onObject mem s, ∀ o ∈ s.managableObjects[x.1]?, Told mem s o x.2.1 x.2.2)
    ⟨fun h i o o' asked hx ho => h (i, o', asked) hx o ho, fun h _ hx _ ho => h _ _ _ _ hx ho⟩

instance {a : Act} : Decidable (a.Careful w) :=
  match a with
  | .call mem c => inferInstanceAs (Decidable (c.Careful mem w.state))
  | .processEvents e => inferInstanceAs (Decidable (∀ f ∈ w.frames, f.entity ≠ e))
  | .resume => isTrue trivial

/-- One object with a mask, a destination for everything, and a value that is set and told of. -/
def telling (mask : UInt32) (n : Nat) : List Act :=
  [.entityInit small, .registerModule 0 small,
    .registerManagableObject 0 .gaugeUnsigned small small 0 mask false,
    .registerDestination 0 small small 0 4294967295 4294967295, .setValue 0 (.unsignedInt 7)].map
      (.call {}) ++ [.processEvents 0] ++ List.replicate n .resume

/-- The value-changed events of a call are those that there should be. -/
def Mark.exact : Mark → Bool
  | .called before after raised => raised.filter (·.eventType.isValueChanged) = changes before after
  | _ => true

end Mm
