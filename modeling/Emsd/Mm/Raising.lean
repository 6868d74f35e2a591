import Emsd.Mm.Values
import Mathlib.Data.List.Basic

/-!
# The events of a call

What a call of the program appends to the events that wait, and when a change of a value is told.

* `Appends`: a call appends events that it builds from its object as it has left it.
* `changes_eq`: the value-changed events that there should be after a change of one object.
* `call_raises`: **a call that meets the condition raises exactly these.**
-/

namespace Mm

open Ocp

variable {mem : Memory} {s t : State} {i : ObjectId} {o o' : ManagableObject}

/-! ## What there should be -/

/-- The value that an object has. -/
def Contents.value : Contents → Option Value
  | .sint32 _ v _ => some (.signedInt v)
  | .uint32 _ v _ => some (.unsignedInt v)
  | .string v => some (.string v)
  | .timer _ | .log _ => none

/-- The bit for `MM_NotificationType_ValueChange` is set. -/
def ManagableObject.wantsValueChange (o : ManagableObject) : Bool :=
  o.notificationTypes.toNat.testBit notificationTypeValueChange.toNat

/-- The event that a change of the object `i` calls for. -/
def changeOf (before after : State) (i : ObjectId) : Option Event := do
  let o ← before.managableObjects[i]?
  let o' ← after.managableObjects[i]?
  let m ← after.modules[o'.pModule]?
  if o'.contents.value ≠ o.contents.value ∧ o'.wantsValueChange = true then
    some (mkEvent o'.contents.changedType o' m)
  else none

/-- The value-changed events that there should be. -/
def changes (before after : State) : List Event :=
  (List.range before.managableObjects.length).filterMap (changeOf before after)

/-- What the events of a call should be. -/
structure Raised (before after : State) (raised : List Event) : Prop where
  captured : ∀ ev ∈ raised, ∃ (i : ObjectId) (o : ManagableObject) (m : Module) (type : EventType),
    after.managableObjects[i]? = some o ∧ after.modules[o.pModule]? = some m ∧ ev = mkEvent type o m
  valueChanged : raised.filter (·.eventType.isValueChanged) = changes before after

theorem changes_eq_nil (h : ∀ (i : ObjectId) (o : ManagableObject), s.managableObjects[i]? = some o →
    ∃ o' : ManagableObject, t.managableObjects[i]? = some o' ∧ o'.contents.value = o.contents.value) :
    changes s t = [] := by
  unfold changes
  refine List.filterMap_eq_nil_iff.2 fun i _ => ?_
  unfold changeOf
  cases ho : s.managableObjects[i]? with
  | none => rfl
  | some o =>
    obtain ⟨o', ho', hv⟩ := h i o ho
    simp only [Option.bind_eq_bind, Option.bind_some, ho', hv, ne_eq, not_true_eq_false, false_and,
      if_false]
    cases t.modules[o'.pModule]? <;> rfl

theorem filterMap_range_single {α : Type} {f : Nat → Option α} {n k : Nat} (hk : k < n)
    (h : ∀ j, j ≠ k → f j = none) : (List.range n).filterMap f = (f k).toList := by
  induction n with
  | zero => omega
  | succ n ih =>
    rw [List.range_succ, List.filterMap_append]
    by_cases hkn : k = n
    · subst hkn
      have hnil : (List.range k).filterMap f = [] :=
        List.filterMap_eq_nil_iff.2 fun j hj => h j (by have := List.mem_range.1 hj; omega)
      rw [hnil]
      cases hf : f k <;> simp [hf]
    · rw [ih (by omega)]
      simp [h n (by omega)]

/-- One object has changed. -/
theorem changes_eq (hi : s.managableObjects[i]? = some o)
    (ht : t.managableObjects = s.managableObjects.set i o') (hm : t.modules = s.modules) :
    changes s t = if o'.contents.value ≠ o.contents.value ∧ o'.wantsValueChange = true then
      ((s.modules[o'.pModule]?).map (mkEvent o'.contents.changedType o')).toList else [] := by
  obtain ⟨hlt, -⟩ := List.getElem?_eq_some_iff.1 hi
  unfold changes
  rw [filterMap_range_single hlt]
  · unfold changeOf
    have hself : t.managableObjects[i]? = some o' := by rw [ht, List.getElem?_set_self hlt]
    simp only [Option.bind_eq_bind, hi, hself, hm, Option.bind_some]
    split
    · cases s.modules[o'.pModule]? <;> rfl
    · cases s.modules[o'.pModule]? <;> rfl
  · intro j hj
    unfold changeOf
    have hother : t.managableObjects[j]? = s.managableObjects[j]? := by
      rw [ht, List.getElem?_set_ne hj.symm]
    simp only [Option.bind_eq_bind, hother]
    cases s.managableObjects[j]? with
    | none => rfl
    | some q =>
      simp only [Option.bind_some, ne_eq, not_true_eq_false, false_and, if_false]
      cases t.modules[q.pModule]? <;> rfl

/-! ## What a call does to an object -/

/-- What `MM_incrementValue` stores. -/
def Contents.incremented : Contents → Int32 → Contents
  | .sint32 type v l, incrementBy =>
    .sint32 type (if incrementBy = 0 then v else l.clamp (v + incrementBy)) l
  | .uint32 type v l, incrementBy =>
    .uint32 type (if incrementBy = 0 then v else l.clamp (v + incrementBy.toUInt32)) l
  | c, _ => c

/-- An increment is one for numbers, by something. -/
def Contents.grows : Contents → Int32 → Bool
  | .sint32 _ _ _, incrementBy | .uint32 _ _ _, incrementBy => incrementBy ≠ 0
  | _, _ => false

/-- What `MM_setThresholdByHandle` stores. -/
def Contents.bounded : Contents → ThresholdType → Value → Contents
  | .sint32 type v l, t, .signedInt w =>
    if type = .counter ∧ t = .minimumThreshold then .sint32 type v l
    else .sint32 type (l.put v t w).2 (l.put v t w).1
  | .uint32 type v l, t, .unsignedInt w =>
    if type = .counter ∧ t = .minimumThreshold then .uint32 type v l
    else .uint32 type (l.put v t w).2 (l.put v t w).1
  | c, _, _ => c

/-- The events of a threshold are none of a value. -/
theorem crossing_not_valueChanged {up was is : Bool} {a b c d e : EventType}
    (h : crossing up was is a b c d = some e) (ha : a.isValueChanged = false)
    (hb : b.isValueChanged = false) (hc : c.isValueChanged = false) (hd : d.isValueChanged = false) :
    e.isValueChanged = false := by
  unfold crossing at h
  split at h
  · obtain rfl := Option.some.inj h
    cases up
    · exact hb
    · exact ha
  split at h
  · obtain rfl := Option.some.inj h
    cases up
    · exact hd
    · exact hc
  · cases h

theorem incremented_effect {contents : Contents} {changed : EventType} {crossed : Option EventType}
    {value : Value} (ht : changed = contents.changedType)
    (hc : ∀ e, crossed = some e → e.isValueChanged = false) :
    Effect mem s (incremented mem s i o contents changed crossed value).state i { o with contents }
      true := by
  subst ht
  cases crossed with
  | none =>
    simp only [incremented]
    split
    · exact .notified
    · exact .notified
  | some e =>
    simp only [incremented]
    split
    · exact .notified
    split
    · exact .notified_event (hc e rfl)
    · exact .notified_event (hc e rfl)

theorem incrementValue_effect {incrementBy : Int32} (hi : s.managableObjects[i]? = some o) :
    Effect mem s (incrementValue mem s i o incrementBy).state i
      { o with contents := o.contents.incremented incrementBy } (o.contents.grows incrementBy) := by
  have hself : o.contents.incremented incrementBy = o.contents →
      o.contents.grows incrementBy = false →
        Effect mem s s i { o with contents := o.contents.incremented incrementBy }
          (o.contents.grows incrementBy) := by
    intro h h'
    rw [h, h']
    exact .same mem hi
  unfold incrementValue
  split
  · rename_i type v l hc
    rw [hc] at hself ⊢
    split
    · rename_i h0
      exact hself (by simp [Contents.incremented, h0]) (by simp [Contents.grows, h0])
    · rename_i h0
      simp only [Contents.incremented, Contents.grows, h0, if_false, ne_eq, not_false_eq_true,
        decide_true]
      exact incremented_effect rfl fun e he => crossing_not_valueChanged he rfl rfl rfl rfl
  · rename_i type v l hc
    rw [hc] at hself ⊢
    split
    · rename_i h0
      exact hself (by simp [Contents.incremented, h0]) (by simp [Contents.grows, h0])
    · rename_i h0
      simp only [Contents.incremented, Contents.grows, h0, if_false, ne_eq, not_false_eq_true,
        decide_true]
      exact incremented_effect rfl fun e he => crossing_not_valueChanged he rfl rfl rfl rfl
  · rename_i v hc
    rw [hc] at hself ⊢
    exact hself rfl rfl
  · rename_i v hc
    rw [hc] at hself ⊢
    exact hself rfl rfl
  · rename_i v hc
    rw [hc] at hself ⊢
    exact hself rfl rfl

theorem setThresholdByHandle_effect {type : ThresholdType} {value : Value}
    (hi : s.managableObjects[i]? = some o) :
    Effect mem s (setThresholdByHandle s i o type value).1 i
      { o with contents := o.contents.bounded type value } false := by
  have hself : o.contents.bounded type value = o.contents →
      Effect mem s s i { o with contents := o.contents.bounded type value } false := by
    intro h
    rw [h]
    exact .same mem hi
  unfold setThresholdByHandle
  split
  · rename_i kind v l hc
    rw [hc] at hself ⊢
    split
    · rename_i h
      exact hself (by cases value <;> simp [Contents.bounded, h])
    · rename_i h
      split
      · exact hself (by cases value <;> simp [Contents.bounded, Limits.put])
      · rename_i w _
        simp only [Contents.bounded, if_neg h]
        exact .set mem
      · rename_i hw
        exact hself (by cases value with
          | signedInt w => exact absurd rfl (hw w)
          | unsignedInt w | string w => rfl)
  · rename_i kind v l hc
    rw [hc] at hself ⊢
    split
    · rename_i h
      exact hself (by cases value <;> simp [Contents.bounded, h])
    · rename_i h
      split
      · exact hself (by cases value <;> simp [Contents.bounded, Limits.put])
      · rename_i w _
        simp only [Contents.bounded, if_neg h]
        exact .set mem
      · rename_i hw
        exact hself (by cases value with
          | unsignedInt w => exact absurd rfl (hw w)
          | signedInt w | string w => rfl)
  · rename_i hc
    rw [hc] at hself ⊢
    exact hself rfl
  · rename_i hc
    rw [hc] at hself ⊢
    exact hself rfl
  · rename_i hc
    rw [hc] at hself ⊢
    exact hself rfl

/-! ## Every call -/

/-- A call about an object: the object afterwards, and whether the code takes its value for a new one. -/
def Call.onObject (mem : Memory) (s : State) : Call → Option (ObjectId × ManagableObject × Bool)
  | .setValue i value => (s.managableObjects[i]?).map fun o =>
    (i, { o with contents := o.contents.stored mem value }, o.contents.asks mem value)
  | .incrementValue i incrementBy => (s.managableObjects[i]?).map fun o =>
    (i, { o with contents := o.contents.incremented incrementBy }, o.contents.grows incrementBy)
  | .setThreshold i type value => (s.managableObjects[i]?).map fun o =>
    (i, { o with contents := o.contents.bounded type value }, false)
  | .setNotifyMask i notifyMask => (s.managableObjects[i]?).map fun o =>
    (i, { o with notificationTypes := notifyMask }, false)
  | _ => none

/-- The condition for a call that makes `o'` of `o`: where its value changes, an event is raised if the bit
of the mask asks for it; and where it does not change, none is. -/
structure Told (mem : Memory) (s : State) (o o' : ManagableObject) (asked : Bool) : Prop where
  changed : o'.contents.value ≠ o.contents.value →
    (asked && o'.notifiesValueChange && s.watched o' && mem.event) = o'.wantsValueChange
  unchanged : o'.contents.value = o.contents.value →
    (asked && o'.notifiesValueChange && s.watched o' && mem.event) = false

def Call.Careful (mem : Memory) (s : State) (c : Call) : Prop :=
  ∀ i o o' asked, c.onObject mem s = some (i, o', asked) → s.managableObjects[i]? = some o →
    Told mem s o o' asked

/-- A call appends events that it has built from its object, and destinations. -/
structure Appends (s t : State) (raised : List Event) : Prop where
  pending : t.pendingEvents = s.pendingEvents ++ raised
  destinations : ∃ ds, t.destinations.map (·.pApplicationEntityInstance) =
    s.destinations.map (·.pApplicationEntityInstance) ++ ds
  captured : ∀ ev ∈ raised, ∃ (i : ObjectId) (o : ManagableObject) (m : Module) (type : EventType),
    t.managableObjects[i]? = some o ∧ t.modules[o.pModule]? = some m ∧ ev = mkEvent type o m

theorem told_captured {asked : Bool} {ev : Event} (h : ev ∈ told mem s o asked) :
    ∃ m, s.modules[o.pModule]? = some m ∧ ev = mkEvent o.contents.changedType o m := by
  unfold told at h
  split at h
  · exact mem_raisedBy h
  · cases h

theorem told_filter {asked : Bool} :
    (told mem s o asked).filter (·.eventType.isValueChanged) = told mem s o asked := by
  have hv : o.contents.changedType.isValueChanged = true := by cases o.contents <;> rfl
  unfold told
  split
  · rw [raisedBy_filter, if_pos hv]
  · rfl

theorem told_eq {asked : Bool} : told mem s o asked =
    if (asked && o.notifiesValueChange && s.watched o && mem.event) = true then
      ((s.modules[o.pModule]?).map (mkEvent o.contents.changedType o)).toList
    else [] := by
  have hne : o.contents.changedType ≠ .managableObjectChange := by
    cases o.contents <;> exact nofun
  unfold told
  rw [raisedBy_eq hne]
  cases asked <;> cases o.notifiesValueChange <;> simp

/-- **A change of one object** raises what it should. -/
theorem Effect.raised {asked : Bool} (h : Effect mem s t i o' asked)
    (hi : s.managableObjects[i]? = some o) (htold : Told mem s o o' asked) :
    ∃ raised, Appends s t raised ∧ raised.filter (·.eventType.isValueChanged) = changes s t := by
  obtain ⟨extra, ht, hextra⟩ := h
  obtain ⟨hlt, -⟩ := List.getElem?_eq_some_iff.1 hi
  have hobjects : t.managableObjects = s.managableObjects.set i o' := by rw [ht]; rfl
  have hmodules : t.modules = s.modules := by rw [ht]; rfl
  refine ⟨told mem s o' asked ++ extra, ⟨by rw [ht], ⟨[], by rw [ht]; simp [State.setObject]⟩,
    fun ev hev => ?_⟩, ?_⟩
  · have hself : t.managableObjects[i]? = some o' := by rw [hobjects, List.getElem?_set_self hlt]
    rw [hmodules]
    rcases List.mem_append.1 hev with hev | hev
    · obtain ⟨m, hm, rfl⟩ := told_captured hev
      exact ⟨i, o', m, _, hself, hm, rfl⟩
    · obtain ⟨-, m, type, hm, rfl⟩ := hextra ev hev
      exact ⟨i, o', m, type, hself, hm, rfl⟩
  · have hnone : extra.filter (·.eventType.isValueChanged) = [] :=
      List.filter_eq_nil_iff.2 fun ev hev => by rw [(hextra ev hev).1]; exact Bool.false_ne_true
    rw [List.filter_append, told_filter, hnone, List.append_nil, told_eq,
      changes_eq hi hobjects hmodules]
    by_cases hv : o'.contents.value = o.contents.value
    · rw [htold.unchanged hv]
      simp [hv]
    · rw [htold.changed hv]
      simp [hv]

/-- The object has kept its value, and the code has not taken it for a new one. -/
theorem Told.kept (hv : o'.contents.value = o.contents.value) : Told mem s o o' false :=
  ⟨fun hne => absurd hv hne, fun _ => by simp⟩

/-- The objects have kept their values, and no event tells of one. -/
theorem raised_quiet {raised : List Event} (h : Appends s t raised)
    (hq : raised.filter (·.eventType.isValueChanged) = [])
    (hv : ∀ (i : ObjectId) (o : ManagableObject), s.managableObjects[i]? = some o →
      ∃ o' : ManagableObject, t.managableObjects[i]? = some o' ∧ o'.contents.value = o.contents.value) :
    ∃ raised, Appends s t raised ∧ raised.filter (·.eventType.isValueChanged) = changes s t :=
  ⟨raised, h, by rw [hq, changes_eq_nil hv]⟩

theorem raised_same (hp : t.pendingEvents = s.pendingEvents)
    (ho : t.managableObjects = s.managableObjects)
    (hd : ∃ ds, t.destinations.map (·.pApplicationEntityInstance) =
      s.destinations.map (·.pApplicationEntityInstance) ++ ds) :
    ∃ raised, Appends s t raised ∧ raised.filter (·.eventType.isValueChanged) = changes s t :=
  raised_quiet ⟨by rw [hp, List.append_nil], hd, fun _ h => absurd h List.not_mem_nil⟩ rfl
    fun i o hi => ⟨o, by rw [ho, hi], rfl⟩

theorem registerManagableObject_raised {pModule : ModuleId} {type : ManagableObjectType}
    {pName pDescription : ZString} {accessByName : UInt8} {mask : UInt32} {pfValueChanged : Bool} :
    ∃ raised, Appends s (registerManagableObject mem s pModule type pName pDescription accessByName mask
        pfValueChanged).1 raised ∧
      raised.filter (·.eventType.isValueChanged) = changes s (registerManagableObject mem s pModule
        type pName pDescription accessByName mask pfValueChanged).1 := by
  unfold registerManagableObject
  split
  · exact raised_same rfl rfl ⟨[], by simp⟩
  split
  · exact raised_same rfl rfl ⟨[], by simp⟩
  · simp only
    rw [generateEvent_state]
    refine raised_quiet ⟨rfl, ⟨[], by simp⟩, fun ev hev => ?_⟩ ?_ fun i o hi => ?_
    · obtain ⟨m, hm, rfl⟩ := mem_raisedBy hev
      exact ⟨s.managableObjects.length, _, m, _, List.getElem?_concat_length .., hm, rfl⟩
    · rw [raisedBy_filter]
      rfl
    · obtain ⟨hlt, -⟩ := List.getElem?_eq_some_iff.1 hi
      exact ⟨o, by rw [List.getElem?_append_left hlt, hi], rfl⟩

/-- A timer or a log has no value. -/
theorem Told.of_none (ho : o.contents.value = none) (ho' : o'.contents.value = none) :
    Told mem s o o' false := .kept (ho'.trans ho.symm)

theorem startTimerByHandle_raised (hi : s.managableObjects[i]? = some o) {milliseconds : UInt32} :
    ∃ raised, Appends s (startTimerByHandle mem s i o milliseconds).1 raised ∧
      raised.filter (·.eventType.isValueChanged) =
        changes s (startTimerByHandle mem s i o milliseconds).1 := by
  unfold startTimerByHandle
  split
  · rename_i x hx
    split
    · exact (Effect.same mem hi).raised hi (.kept rfl)
    · exact (Effect.set mem).raised hi (.of_none (by rw [hx]; rfl) rfl)
  · exact (Effect.same mem hi).raised hi (.kept rfl)

theorem stopTimerByHandle_raised (hi : s.managableObjects[i]? = some o) {r : State × ReturnCode}
    (h : stopTimerByHandle s i o = some r) :
    ∃ raised, Appends s r.1 raised ∧
      raised.filter (·.eventType.isValueChanged) = changes s r.1 := by
  unfold stopTimerByHandle at h
  split at h
  · rename_i x hx
    split at h
    · obtain rfl := Option.some.inj h
      exact (Effect.same {} hi).raised hi (.kept rfl)
    · split at h
      · obtain rfl := Option.some.inj h
        exact (Effect.set {}).raised hi (.of_none (by rw [hx]; rfl) rfl)
      · cases h
  · obtain rfl := Option.some.inj h
    exact (Effect.same {} hi).raised hi (.kept rfl)

theorem timerExpiry_raised (hi : s.managableObjects[i]? = some o) {id : TimerId} :
    ∃ raised, Appends s (timerExpiry mem s i o id).1 raised ∧
      raised.filter (·.eventType.isValueChanged) = changes s (timerExpiry mem s i o id).1 := by
  unfold timerExpiry
  split
  · rename_i x hx
    exact (Effect.event mem rfl).raised hi (.of_none (by rw [hx]; rfl) rfl)
  · exact (Effect.same mem hi).raised hi (.kept rfl)

theorem logMessage_raised (hi : s.managableObjects[i]? = some o) {pBuf : ZString} :
    ∃ raised, Appends s (logMessage mem s i o pBuf).1 raised ∧
      raised.filter (·.eventType.isValueChanged) = changes s (logMessage mem s i o pBuf).1 := by
  unfold logMessage
  split
  · rename_i x hx
    exact (Effect.event mem rfl).raised hi (.of_none (by rw [hx]; rfl) rfl)
  · exact (Effect.same mem hi).raised hi (.kept rfl)

theorem registerDestination_raised {e : EntityId} {pName pDescription : ZString} {accessByName : UInt8}
    {notifyMask eventMask : UInt32} :
    ∃ raised, Appends s (registerDestination mem s e pName pDescription accessByName notifyMask
        eventMask).1 raised ∧
      raised.filter (·.eventType.isValueChanged) = changes s (registerDestination mem s e pName
        pDescription accessByName notifyMask eventMask).1 := by
  unfold registerDestination
  split
  · exact raised_same rfl rfl ⟨[], by simp⟩
  split
  · exact raised_same rfl rfl ⟨[], by simp⟩
  · exact raised_same rfl rfl ⟨[e], by simp⟩

theorem setDestination_raised {d q : Destination} {k : DestinationId}
    (hk : s.destinations[k]? = some d)
    (hq : q.pApplicationEntityInstance = d.pApplicationEntityInstance) :
    ∃ raised, Appends s (s.setDestination k q) raised ∧
      raised.filter (·.eventType.isValueChanged) = changes s (s.setDestination k q) := by
  refine raised_same rfl rfl ⟨[], ?_⟩
  obtain ⟨hlt, rfl⟩ := List.getElem?_eq_some_iff.1 hk
  simp only [State.setDestination, List.map_set, hq, List.append_nil]
  rw [← List.getElem_map (f := fun x : Destination => x.pApplicationEntityInstance)
    (h := by simpa using hlt), List.set_getElem_self]

/-- **Every call** that meets the condition raises what it should. -/
theorem call_raises {c : Call} {r : Ret} (h : c.run mem s = some r) (hc : c.Careful mem s) :
    ∃ raised, Appends s r.state raised ∧
      raised.filter (·.eventType.isValueChanged) = changes s r.state := by
  cases c with
  | entityInit pName =>
    obtain rfl := Option.some.inj h
    exact raised_same rfl rfl ⟨[], by simp [Mm.entityInit]⟩
  | registerModule e pName =>
    simp only [Call.run] at h
    split at h
    · obtain rfl := Option.some.inj h
      simp only [Ret.of, Mm.registerModule]
      split
      · exact raised_same rfl rfl ⟨[], by simp⟩
      split
      · exact raised_same rfl rfl ⟨[], by simp⟩
      · exact raised_same rfl rfl ⟨[], by simp⟩
    · cases h
  | registerManagableObject =>
    simp only [Call.run] at h
    split at h
    · obtain rfl := Option.some.inj h
      exact registerManagableObject_raised
    · cases h
  | registerDestination =>
    simp only [Call.run] at h
    split at h
    · obtain rfl := Option.some.inj h
      exact registerDestination_raised
    · cases h
  | setValue i value =>
    obtain ⟨o, hi, rfl⟩ := Option.map_eq_some_iff.1 h
    exact (setValueByHandle_effect hi).raised hi (hc _ _ _ _ (by rw [Call.onObject, hi]; rfl) hi)
  | incrementValue i incrementBy =>
    obtain ⟨o, hi, rfl⟩ := Option.map_eq_some_iff.1 h
    exact (incrementValue_effect hi).raised hi (hc _ _ _ _ (by rw [Call.onObject, hi]; rfl) hi)
  | setThreshold i type value =>
    obtain ⟨o, hi, rfl⟩ := Option.map_eq_some_iff.1 h
    exact (setThresholdByHandle_effect hi).raised hi (hc _ _ _ _ (by rw [Call.onObject, hi]; rfl) hi)
  | setNotifyMask i notifyMask =>
    obtain ⟨o, hi, rfl⟩ := Option.map_eq_some_iff.1 h
    exact (Effect.set mem).raised hi (hc _ _ _ _ (by rw [Call.onObject, hi]; rfl) hi)
  | startTimer i milliseconds =>
    obtain ⟨o, hi, rfl⟩ := Option.map_eq_some_iff.1 h
    exact startTimerByHandle_raised hi
  | stopTimer i =>
    obtain ⟨o, hi, h⟩ := Option.bind_eq_some_iff.1 h
    obtain ⟨x, hx, rfl⟩ := Option.map_eq_some_iff.1 h
    exact stopTimerByHandle_raised hi hx
  | timerExpiry i id =>
    obtain ⟨o, ho, rfl⟩ := Option.map_eq_some_iff.1 h
    exact timerExpiry_raised (Option.filter_eq_some_iff.1 ho).1
  | logMessage i pBuf =>
    obtain ⟨o, hi, rfl⟩ := Option.map_eq_some_iff.1 h
    exact logMessage_raised hi
  | setDestinationMasks k newNotifyMask newEventMask =>
    obtain ⟨d, hk, rfl⟩ := Option.map_eq_some_iff.1 h
    exact setDestination_raised hk rfl

end Mm
