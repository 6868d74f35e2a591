import Emsd.Mm.Access

/-!
# Setting a value

What `MM_setValueByHandle` leaves in the object, whatever becomes of the event that should tell of it.

* `setValueByHandle_objects`: what is stored.
* `setValueByHandle_rc`: a new value is reported as a failure when its event has no memory.
-/

namespace Mm

open Ocp

variable {mem : Memory} {s t : State} {i : ObjectId} {o o' : ManagableObject}

/-! ## What is appended to the events -/

/-- The type of a value-changed event. -/
def Contents.changedType : Contents → EventType
  | .sint32 _ _ _ => .valueChangedSigned
  | .uint32 _ _ _ => .valueChangedUnsigned
  | _ => .valueChangedString

def EventType.isValueChanged : EventType → Bool
  | valueChangedSigned | valueChangedUnsigned | valueChangedString => true
  | _ => false

/-- A destination would get an event about the object. -/
def State.watched (s : State) (o : ManagableObject) : Bool :=
  (s.modules[o.pModule]?).any fun m =>
    s.destinations.any (·.pApplicationEntityInstance = m.pApplicationEntityInstance)

def raisedBy (s : State) (eventType : EventType) (o : ManagableObject) (alloc : Bool) : List Event :=
  match s.modules[o.pModule]? with
  | none => []
  | some m =>
    if s.needless m.pApplicationEntityInstance eventType then []
    else if alloc = false then [] else [mkEvent eventType o m]

theorem generateEvent_state (s : State) (eventType : EventType) (o : ManagableObject)
    (alloc : Bool) : (generateEvent s eventType o alloc).1 =
      { s with pendingEvents := s.pendingEvents ++ raisedBy s eventType o alloc } := by
  unfold generateEvent raisedBy
  cases s.modules[o.pModule]? with
  | none => simp
  | some m =>
    simp only
    split
    · simp
    split
    · simp
    · rfl

theorem mem_raisedBy {eventType : EventType} {alloc : Bool} {ev : Event}
    (h : ev ∈ raisedBy s eventType o alloc) :
    ∃ m, s.modules[o.pModule]? = some m ∧ ev = mkEvent eventType o m := by
  unfold raisedBy at h
  cases hm : s.modules[o.pModule]? with
  | none => simp [hm] at h
  | some m =>
    simp only [hm] at h
    split at h
    · cases h
    split at h
    · cases h
    · exact ⟨m, rfl, List.mem_singleton.1 h⟩

theorem raisedBy_filter {eventType : EventType} {alloc : Bool} :
    (raisedBy s eventType o alloc).filter (·.eventType.isValueChanged) =
      if eventType.isValueChanged then raisedBy s eventType o alloc else [] := by
  have hall : ∀ ev ∈ raisedBy s eventType o alloc, ev.eventType = eventType := by
    intro ev hev
    obtain ⟨m, -, rfl⟩ := mem_raisedBy hev
    rfl
  split
  · rename_i h
    exact List.filter_eq_self.2 fun ev hev => by rw [hall ev hev, h]
  · rename_i h
    exact List.filter_eq_nil_iff.2 fun ev hev => by rw [hall ev hev]; exact h

/-- A value-changed event is appended when a destination is there and memory. -/
theorem raisedBy_eq {eventType : EventType} {alloc : Bool}
    (hne : eventType ≠ .managableObjectChange) : raisedBy s eventType o alloc =
      if s.watched o && alloc then ((s.modules[o.pModule]?).map (mkEvent eventType o)).toList
      else [] := by
  unfold raisedBy State.watched
  cases s.modules[o.pModule]? with
  | none => rfl
  | some m =>
    simp only [State.needless, hne, decide_false, Bool.false_and, Bool.or_false, Option.any_some]
    by_cases hd : s.destinations.any (·.pApplicationEntityInstance = m.pApplicationEntityInstance) = true
    · cases alloc <;> simp [hd]
    · simp [hd]

/-! ## What becomes of an object -/

/-- The value-changed event that the code raises for the object, if it takes its value to have changed. -/
def told (mem : Memory) (s : State) (o : ManagableObject) (asked : Bool) : List Event :=
  if asked && o.notifiesValueChange then raisedBy s o.contents.changedType o mem.event else []

/-- The object `i` has become `o'`; after the value-changed event there may be another one about it. -/
def Effect (mem : Memory) (s t : State) (i : ObjectId) (o' : ManagableObject) (asked : Bool) : Prop :=
  ∃ extra, t = { s.setObject i o' with pendingEvents := s.pendingEvents ++ (told mem s o' asked ++ extra) } ∧
    ∀ ev ∈ extra, ev.eventType.isValueChanged = false ∧
      ∃ (m : Module) (type : EventType), s.modules[o'.pModule]? = some m ∧ ev = mkEvent type o' m

/-- What the code takes for a new value. -/
def Contents.asks (mem : Memory) : Contents → Value → Bool
  | .sint32 _ v _, .signedInt w => v ≠ w
  | .uint32 _ v _, .unsignedInt w => v ≠ w
  | .string v, .string w => v ≠ w && mem.storeCopy
  | _, _ => false

/-- What `MM_setValueByHandle` stores. -/
def Contents.stored (mem : Memory) : Contents → Value → Contents
  | .sint32 type v l, .signedInt w => .sint32 type (if v = w then v else l.clamp w) l
  | .uint32 type v l, .unsignedInt w => .uint32 type (if v = w then v else l.clamp w) l
  | .string v, .string w => .string (if mem.storeCopy then w else v)
  | c, _ => c

theorem set_self (hi : s.managableObjects[i]? = some o) : s.managableObjects.set i o =
    s.managableObjects := by
  obtain ⟨h, rfl⟩ := List.getElem?_eq_some_iff.1 hi
  exact List.set_getElem_self h

theorem setObject_self (hi : s.managableObjects[i]? = some o) : s.setObject i o = s := by
  unfold State.setObject
  rw [set_self hi]

/-- Nothing is done. -/
theorem Effect.same (mem : Memory) (hi : s.managableObjects[i]? = some o) : Effect mem s s i o false :=
  ⟨[], by simp [told, setObject_self hi], nofun⟩

/-- The object is changed, and nothing is raised. -/
theorem Effect.set (mem : Memory) : Effect mem s (s.setObject i o') i o' false :=
  ⟨[], by simp [told, State.setObject], nofun⟩

theorem raisedBy_setObject {eventType : EventType} {alloc : Bool} {q : ManagableObject} :
    raisedBy (s.setObject i q) eventType o alloc = raisedBy s eventType o alloc := rfl

/-- Another event is raised than one of a value. -/
theorem Effect.event (mem : Memory) {eventType : EventType} {alloc : Bool}
    (hv : eventType.isValueChanged = false) :
    Effect mem s (generateEvent (s.setObject i o') eventType o' alloc).1 i o' false := by
  refine ⟨raisedBy s eventType o' alloc, ?_, fun ev hev => ?_⟩
  · rw [generateEvent_state, raisedBy_setObject]
    simp [told, State.setObject]
  · obtain ⟨m, hm, rfl⟩ := mem_raisedBy hev
    exact ⟨hv, m, eventType, hm, rfl⟩

theorem notifyValueChange_state {eventType : EventType} : (notifyValueChange mem s o eventType).1 =
    { s with pendingEvents := s.pendingEvents ++
      if o.notifiesValueChange then raisedBy s eventType o mem.event else [] } := by
  unfold notifyValueChange
  split
  · exact generateEvent_state ..
  · simp

theorem notified_state : (notifyValueChange mem (s.setObject i o') o' o'.contents.changedType).1 =
    { s.setObject i o' with pendingEvents := s.pendingEvents ++ told mem s o' true } := by
  rw [notifyValueChange_state]
  simp only [told, Bool.true_and, raisedBy_setObject]
  rfl

theorem Effect.notified :
    Effect mem s (notifyValueChange mem (s.setObject i o') o' o'.contents.changedType).1 i o' true :=
  ⟨[], by rw [notified_state, List.append_nil], nofun⟩

/-- A second event comes after that of the value. -/
theorem Effect.notified_event {eventType : EventType} {alloc : Bool}
    (hv : eventType.isValueChanged = false) :
    Effect mem s (generateEvent (notifyValueChange mem (s.setObject i o') o'
      o'.contents.changedType).1 eventType o' alloc).1 i o' true := by
  refine ⟨raisedBy (notifyValueChange mem (s.setObject i o') o' o'.contents.changedType).1 eventType o'
    alloc, ?_, fun ev hev => ?_⟩
  · rw [generateEvent_state, notified_state]
    simp only [List.append_assoc]
  · obtain ⟨m, hm, rfl⟩ := mem_raisedBy hev
    rw [notified_state] at hm
    exact ⟨hv, m, eventType, hm, rfl⟩

theorem setNumber_effect {contents : Contents} {eventType : EventType} {value : Value}
    (ht : eventType = contents.changedType) :
    Effect mem s (setNumber mem s i o true contents eventType value).state i { o with contents }
      true := by
  have hstate : (setNumber mem s i o true contents eventType value).state =
      (notifyValueChange mem (s.setObject i { o with contents }) { o with contents } eventType).1 := by
    unfold setNumber
    simp only [if_true]
    split <;> rfl
  rw [hstate, ht]
  exact .notified

theorem setNumber_effect_false (hi : s.managableObjects[i]? = some o) {contents : Contents}
    {eventType : EventType} {value : Value} :
    Effect mem s (setNumber mem s i o false contents eventType value).state i o false := by
  have hstate : (setNumber mem s i o false contents eventType value).state = s := by
    simp [setNumber]
  rw [hstate]
  exact .same mem hi

theorem setValueByHandle_effect {value : Value} (hi : s.managableObjects[i]? = some o) :
    Effect mem s (setValueByHandle mem s i o value).state i
      { o with contents := o.contents.stored mem value } (o.contents.asks mem value) := by
  have hself : o.contents.stored mem value = o.contents → o.contents.asks mem value = false →
      Effect mem s s i { o with contents := o.contents.stored mem value }
        (o.contents.asks mem value) := by
    intro h h'
    rw [h, h']
    exact .same mem hi
  unfold setValueByHandle
  split
  · rename_i type v l hc
    rw [hc] at hself ⊢
    cases value with
    | signedInt w =>
      by_cases hvw : v = w
      · have hst : Contents.stored mem (.sint32 type v l) (.signedInt w) = o.contents := by
          simp [Contents.stored, hvw, hc]
        simp only [Contents.asks, hvw, ne_eq, not_true_eq_false, decide_false]
        rw [hvw] at hst
        rw [hst]
        exact setNumber_effect_false hi
      · have hst : Contents.stored mem (.sint32 type v l) (.signedInt w) = .sint32 type (l.clamp w) l := by
          simp [Contents.stored, hvw]
        simp only [Contents.asks, hvw, ne_eq, not_false_eq_true, decide_true, hst]
        exact setNumber_effect rfl
    | unsignedInt w | string w => exact hself rfl rfl
  · rename_i type v l hc
    rw [hc] at hself ⊢
    cases value with
    | unsignedInt w =>
      by_cases hvw : v = w
      · have hst : Contents.stored mem (.uint32 type v l) (.unsignedInt w) = o.contents := by
          simp [Contents.stored, hvw, hc]
        simp only [Contents.asks, hvw, ne_eq, not_true_eq_false, decide_false]
        rw [hvw] at hst
        rw [hst]
        exact setNumber_effect_false hi
      · have hst : Contents.stored mem (.uint32 type v l) (.unsignedInt w) =
            .uint32 type (l.clamp w) l := by simp [Contents.stored, hvw]
        simp only [Contents.asks, hvw, ne_eq, not_false_eq_true, decide_true, hst]
        exact setNumber_effect rfl
    | signedInt w | string w => exact hself rfl rfl
  · rename_i v hc
    rw [hc] at hself ⊢
    cases value with
    | string w =>
      simp only
      split
      · rename_i hvw
        exact hself (by simp [Contents.stored, hvw]) (by simp [Contents.asks, hvw])
      split
      · rename_i hstore
        exact hself (by simp [Contents.stored, hstore]) (by simp [Contents.asks, hstore])
      · rename_i hvw hstore
        have hst : Contents.stored mem (.string v) (.string w) = .string w := by
          simp [Contents.stored, hstore]
        have hasks : Contents.asks mem (.string v) (.string w) = true := by
          simp [Contents.asks, hvw, hstore]
        rw [hst, hasks]
        exact setNumber_effect rfl
    | signedInt w | unsignedInt w => exact hself rfl rfl
  · rename_i t hc
    rw [hc] at hself ⊢
    exact hself (by cases value <;> rfl) (by cases value <;> rfl)
  · rename_i t hc
    rw [hc] at hself ⊢
    exact hself (by cases value <;> rfl) (by cases value <;> rfl)

/-! ## What is stored, and what is reported -/

/-- The objects after `MM_setValueByHandle`, whether it succeeds or not. -/
theorem setValueByHandle_objects {value : Value} (hi : s.managableObjects[i]? = some o) :
    (setValueByHandle mem s i o value).state.managableObjects =
      s.managableObjects.set i { o with contents := o.contents.stored mem value } := by
  have heffect : Effect mem s (setValueByHandle mem s i o value).state i _ _ :=
    setValueByHandle_effect hi
  obtain ⟨extra, h, -⟩ := heffect
  rw [h]
  rfl

theorem generateEvent_rc {eventType : EventType} (alloc : Bool)
    (hne : eventType ≠ .managableObjectChange) : (generateEvent s eventType o alloc).2 =
      if s.watched o && !alloc then .resourceError else .success := by
  unfold generateEvent State.watched
  cases hm : s.modules[o.pModule]? with
  | none => rfl
  | some m =>
    simp only [State.needless, hne, decide_false, Bool.false_and, Bool.or_false, Option.any_some]
    by_cases hd : s.destinations.any (·.pApplicationEntityInstance = m.pApplicationEntityInstance) = true
    · cases alloc <;> simp [hd]
    · simp [hd]

theorem notifyValueChange_rc {eventType : EventType} (hne : eventType ≠ .managableObjectChange) :
    (notifyValueChange mem s o eventType).2 =
      if o.notifiesValueChange && (s.watched o && !mem.event) then .resourceError else .success := by
  unfold notifyValueChange
  cases o.notifiesValueChange with
  | false => rfl
  | true => exact generateEvent_rc _ hne

theorem setNumber_rc {contents : Contents} {eventType : EventType} {value : Value} :
    (setNumber mem s i o true contents eventType value).rc =
      (notifyValueChange mem (s.setObject i { o with contents }) { o with contents } eventType).2 := by
  unfold setNumber
  simp only [if_true]
  split
  · rfl
  · rename_i h
    exact (not_not.1 h).symm

/-- `MM_setValueByHandle` with a new value, of a type that the object has, fails only where the event
that should tell of it has no memory. -/
theorem setValueByHandle_rc {value : Value} (hne : o.contents.stored mem value ≠ o.contents) :
    (setValueByHandle mem s i o value).rc =
      if o.notifiesValueChange && (s.watched o && !mem.event) then .resourceError else .success := by
  have hnumber : ∀ contents eventType value, eventType ≠ .managableObjectChange →
      (setNumber mem s i o true contents eventType value).rc =
        if o.notifiesValueChange && (s.watched o && !mem.event) then .resourceError else .success := by
    intro contents eventType value ht
    rw [setNumber_rc]
    exact notifyValueChange_rc ht
  cases hc : o.contents with
  | sint32 type v l =>
    rw [hc] at hne
    cases value with
    | signedInt w =>
      have hvw : v ≠ w := by
        rintro rfl
        exact hne (by simp [Contents.stored])
      simp only [setValueByHandle, hc, hvw, ne_eq, not_false_eq_true, decide_true]
      exact hnumber _ _ _ (by decide)
    | unsignedInt w | string w => exact absurd rfl hne
  | uint32 type v l =>
    rw [hc] at hne
    cases value with
    | unsignedInt w =>
      have hvw : v ≠ w := by
        rintro rfl
        exact hne (by simp [Contents.stored])
      simp only [setValueByHandle, hc, hvw, ne_eq, not_false_eq_true, decide_true]
      exact hnumber _ _ _ (by decide)
    | signedInt w | string w => exact absurd rfl hne
  | string v =>
    rw [hc] at hne
    cases value with
    | string w =>
      have hvw : v ≠ w := by
        rintro rfl
        exact hne (by simp [Contents.stored])
      have hstore : mem.storeCopy ≠ false := fun h => hne (by simp [Contents.stored, h])
      simp only [setValueByHandle, hc, hvw, hstore, if_false]
      exact hnumber _ _ _ (by decide)
    | signedInt w | unsignedInt w => exact absurd rfl hne
  | timer t => exact absurd (by rw [hc]; cases value <;> rfl) hne
  | log t => exact absurd (by rw [hc]; cases value <;> rfl) hne

end Mm
