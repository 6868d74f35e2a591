import Emsd.Mm.Program

/-!
# Access by name

What a remote manager may read and change is said by `accessByName` of each object and destination.

* `execute_unwritten`: an operation changes nothing that it may not write, if it is none of the two
  that look at the wrong access or at none.
* `execute_plain`: an operation that fails, but for a lack of memory, changes nothing; in particular
  one that is denied.
-/

namespace Mm

open Ocp

variable {mem : Memory} {env : Env} {s t : State} {i : ObjectId} {o o' : ManagableObject}
  {a m n : ZString} {rc : ReturnCode}

/-! ## What is written -/

/-- Only the object `i` is changed, besides the events. -/
structure Writes (s t : State) (i : ObjectId) : Prop where
  objects : ∀ j, j ≠ i → t.managableObjects[j]? = s.managableObjects[j]?
  destinations : t.destinations = s.destinations

theorem Writes.refl (s : State) (i : ObjectId) : Writes s s i := ⟨fun _ _ => rfl, rfl⟩

theorem Writes.setObject : Writes s (s.setObject i o) i :=
  ⟨fun _ hj => List.getElem?_set_ne hj.symm, rfl⟩

/-- An event leaves the objects alone. -/
theorem generateEvent_fst (s : State) (eventType : EventType) (o : ManagableObject) (alloc : Bool) :
    (generateEvent s eventType o alloc).1 =
      { s with pendingEvents := (generateEvent s eventType o alloc).1.pendingEvents } := by
  unfold generateEvent
  split
  · rfl
  split
  · rfl
  split
  · rfl
  · rfl

theorem notifyValueChange_fst (mem : Memory) (s : State) (o : ManagableObject)
    (eventType : EventType) : (notifyValueChange mem s o eventType).1 =
      { s with pendingEvents := (notifyValueChange mem s o eventType).1.pendingEvents } := by
  unfold notifyValueChange
  split
  · exact generateEvent_fst ..
  · rfl

theorem Writes.events (h : Writes s t i) {pendingEvents : List Event} :
    Writes s { t with pendingEvents } i := ⟨h.objects, h.destinations⟩

theorem setNumber_writes {changed : Bool} {contents : Contents} {eventType : EventType}
    {value : Value} : Writes s (setNumber mem s i o changed contents eventType value).state i := by
  have hstate : (setNumber mem s i o changed contents eventType value).state =
      if changed then (notifyValueChange mem (s.setObject i { o with contents }) { o with contents }
        eventType).1 else s := by
    unfold setNumber
    cases changed with
    | true =>
      simp only [if_true]
      split <;> rfl
    | false => simp
  rw [hstate]
  split
  · rw [notifyValueChange_fst]
    exact Writes.setObject.events
  · exact .refl s i

theorem setValueByHandle_writes {value : Value} :
    Writes s (setValueByHandle mem s i o value).state i := by
  unfold setValueByHandle
  split
  · split
    · exact setNumber_writes
    · exact .refl s i
  · split
    · exact setNumber_writes
    · exact .refl s i
  · split
    · split
      · exact .refl s i
      split
      · exact .refl s i
      · exact setNumber_writes
    · exact .refl s i
  · exact .refl s i
  · exact .refl s i

theorem setThresholdByHandle_writes {type : ThresholdType} {value : Value} :
    Writes s (setThresholdByHandle s i o type value).1 i := by
  unfold setThresholdByHandle
  split
  · split
    · exact .refl s i
    · split
      · exact .refl s i
      · exact .setObject
      · exact .refl s i
  · split
    · exact .refl s i
    · split
      · exact .refl s i
      · exact .setObject
      · exact .refl s i
  · exact .refl s i
  · exact .refl s i
  · exact .refl s i

theorem startTimerByHandle_writes {milliseconds : UInt32} :
    Writes s (startTimerByHandle mem s i o milliseconds).1 i := by
  unfold startTimerByHandle
  split
  · split
    · exact .refl s i
    · exact .setObject
  · exact .refl s i

theorem stopTimerByHandle_writes {r : State × ReturnCode} (h : stopTimerByHandle s i o = some r) :
    Writes s r.1 i := by
  unfold stopTimerByHandle at h
  split at h
  · split at h
    · obtain rfl := Option.some.inj h
      exact .refl s i
    · split at h
      · obtain rfl := Option.some.inj h
        exact .setObject
      · cases h
  · obtain rfl := Option.some.inj h
    exact .refl s i

/-- What may not be written is as it was. -/
structure Unwritten (s t : State) : Prop where
  objects : ∀ (i : ObjectId) o, s.managableObjects[i]? = some o → canWrite o.accessByName = false →
    t.managableObjects[i]? = some o
  destinations : ∀ (i : DestinationId) d, s.destinations[i]? = some d →
    canWrite d.accessByName = false → t.destinations[i]? = some d

theorem Unwritten.refl (s : State) : Unwritten s s := ⟨fun _ _ h _ => h, fun _ _ h _ => h⟩

theorem Unwritten.trans {u : State} (h₁ : Unwritten s t) (h₂ : Unwritten t u) : Unwritten s u where
  objects i o ho hw := h₂.objects i o (h₁.objects i o ho hw) hw
  destinations i d hd hw := h₂.destinations i d (h₁.destinations i d hd hw) hw

theorem Writes.unwritten (h : Writes s t i) (ho : s.managableObjects[i]? = some o)
    (hw : canWrite o.accessByName = true) : Unwritten s t where
  objects j p hp hpw := by
    have hj : j ≠ i := by
      rintro rfl
      obtain rfl := Option.some.inj (hp.symm.trans ho)
      rw [hw] at hpw
      cases hpw
    rw [h.objects j hj]
    exact hp
  destinations j d hd _ := h.destinations ▸ hd

theorem objectByName_ok (h : objectByName s a m n = .ok (i, o)) :
    s.managableObjects[i]? = some o := by
  unfold objectByName at h
  split at h
  · cases h
  split at h
  · cases h
  split at h
  · cases h
  split at h
  · cases h
  · cases h
    assumption

theorem destinationByName_ok {d : Destination} (h : destinationByName s a n = .ok (i, d)) :
    s.destinations[i]? = some d := by
  unfold destinationByName at h
  split at h
  · cases h
  split at h
  · cases h
  split at h
  · cases h
  · cases h
    assumption

theorem onObject_unwritten {f : ObjectId → ManagableObject → Ret}
    (h : ∀ i o, objectByName s a m n = .ok (i, o) → s.managableObjects[i]? = some o →
      Unwritten s (f i o).state) : Unwritten s (onObject s a m n f).state := by
  unfold onObject
  split
  · exact .refl s
  · rename_i i o hn
    exact h i o hn (objectByName_ok hn)

theorem setValueByName_unwritten {objectType : ManagableObjectType} {value : Value} :
    Unwritten s (setValueByName mem s a m n objectType value).state := by
  refine onObject_unwritten fun i o _ ho => ?_
  split
  · exact .refl s
  split
  · exact .refl s
  · rename_i hw
    exact setValueByHandle_writes.unwritten ho (by simpa using hw)

theorem setThresholdByName_unwritten {type : ThresholdType} {objectType : ManagableObjectType}
    {value : Value} : Unwritten s (setThresholdByName s a m n type objectType value).state := by
  unfold setThresholdByName
  split
  · exact .refl s
  refine onObject_unwritten fun i o _ ho => ?_
  split
  · exact .refl s
  split
  · exact .refl s
  · rename_i hw
    exact setThresholdByHandle_writes.unwritten ho (by simpa using hw)

theorem startTimerByName_unwritten {milliseconds : UInt32} :
    Unwritten s (startTimerByName mem s a m n milliseconds).state := by
  refine onObject_unwritten fun i o _ ho => ?_
  split
  · exact .refl s
  · rename_i hw
    exact startTimerByHandle_writes.unwritten ho (by simpa using hw)

theorem stopTimerByName_unwritten {r : Ret} (h : stopTimerByName s a m n = some r) :
    Unwritten s r.state := by
  unfold stopTimerByName at h
  split at h
  · obtain rfl := Option.some.inj h
    exact .refl s
  · rename_i i o hn
    split at h
    · obtain rfl := Option.some.inj h
      exact .refl s
    · rename_i hw
      obtain ⟨r', hr', rfl⟩ := Option.map_eq_some_iff.1 h
      exact (stopTimerByHandle_writes hr').unwritten (objectByName_ok hn) (by simpa using hw)

/-! ## What is denied -/

/-- A call that fails for another reason than a lack of memory has changed nothing. -/
def Ret.Plain (s : State) (r : Ret) : Prop :=
  r.rc ≠ .success → r.rc ≠ .resourceError → r.state = s

theorem Ret.plain_same {out : List Out} : Ret.Plain s ⟨s, rc, out⟩ :=
  fun _ _ => rfl

/-- A call that fails has changed nothing. -/
def Ret.Kept (s : State) (r : Ret) : Prop := r.rc ≠ .success → r.state = s

theorem Ret.Kept.plain {r : Ret} (h : r.Kept s) : r.Plain s := fun hne _ => h hne

theorem Ret.kept_same {out : List Out} : Ret.Kept s ⟨s, rc, out⟩ := fun _ => rfl

theorem generateEvent_snd (s : State) (eventType : EventType) (o : ManagableObject) (alloc : Bool) :
    (generateEvent s eventType o alloc).2 = .success ∨
      (generateEvent s eventType o alloc).2 = .resourceError := by
  unfold generateEvent
  split
  · exact .inl rfl
  split
  · exact .inl rfl
  split
  · exact .inr rfl
  · exact .inl rfl

theorem notifyValueChange_snd (mem : Memory) (s : State) (o : ManagableObject)
    (eventType : EventType) : (notifyValueChange mem s o eventType).2 = .success ∨
      (notifyValueChange mem s o eventType).2 = .resourceError := by
  unfold notifyValueChange
  split
  · exact generateEvent_snd ..
  · exact .inl rfl

theorem setNumber_plain {changed : Bool} {contents : Contents} {eventType : EventType}
    {value : Value} : (setNumber mem s i o changed contents eventType value).Plain s := by
  unfold setNumber
  cases changed with
  | true =>
    simp only [if_true]
    split
    · intro hne hmem
      rcases notifyValueChange_snd mem (s.setObject i { o with contents }) { o with contents }
        eventType with h | h
      · exact absurd h hne
      · exact absurd h hmem
    · exact fun hne => absurd rfl hne
  | false => exact fun hne => absurd (by simp) hne

theorem setValueByHandle_plain {value : Value} : (setValueByHandle mem s i o value).Plain s := by
  unfold setValueByHandle
  split
  · split
    · exact setNumber_plain
    · exact Ret.plain_same
  · split
    · exact setNumber_plain
    · exact Ret.plain_same
  · split
    · split
      · exact Ret.plain_same
      split
      · exact Ret.plain_same
      · exact setNumber_plain
    · exact Ret.plain_same
  · exact Ret.plain_same
  · exact Ret.plain_same

theorem onObject_kept {f : ObjectId → ManagableObject → Ret} (h : ∀ i o, (f i o).Kept s) :
    (onObject s a m n f).Kept s := by
  unfold onObject
  split
  · exact Ret.kept_same
  · rename_i i o _
    exact h i o

theorem onObject_plain {f : ObjectId → ManagableObject → Ret} (h : ∀ i o, (f i o).Plain s) :
    (onObject s a m n f).Plain s := by
  unfold onObject
  split
  · exact Ret.plain_same
  · rename_i i o _
    exact h i o

theorem setThresholdByHandle_kept {type : ThresholdType} {value : Value} :
    (Ret.of (setThresholdByHandle s i o type value)).Kept s := by
  unfold setThresholdByHandle
  split
  · split
    · exact fun _ => rfl
    · split
      · exact fun _ => rfl
      · exact fun hne => absurd rfl hne
      · exact fun _ => rfl
  · split
    · exact fun _ => rfl
    · split
      · exact fun _ => rfl
      · exact fun hne => absurd rfl hne
      · exact fun _ => rfl
  · exact fun _ => rfl
  · exact fun _ => rfl
  · exact fun _ => rfl

theorem startTimerByHandle_kept {milliseconds : UInt32} :
    (Ret.of (startTimerByHandle mem s i o milliseconds)).Kept s := by
  unfold startTimerByHandle
  split
  · split
    · exact fun _ => rfl
    · exact fun hne => absurd rfl hne
  · exact fun _ => rfl

theorem stopTimerByHandle_kept {r : State × ReturnCode} (h : stopTimerByHandle s i o = some r) :
    (Ret.of r).Kept s := by
  unfold stopTimerByHandle at h
  split at h
  · split at h
    · obtain rfl := Option.some.inj h
      exact fun _ => rfl
    · split at h
      · obtain rfl := Option.some.inj h
        exact fun hne => absurd rfl hne
      · cases h
  · obtain rfl := Option.some.inj h
    exact fun _ => rfl

theorem setValueByName_plain {objectType : ManagableObjectType} {value : Value} :
    (setValueByName mem s a m n objectType value).Plain s := by
  refine onObject_plain fun i o => ?_
  split
  · exact Ret.plain_same
  split
  · exact Ret.plain_same
  · exact setValueByHandle_plain

theorem setThresholdByName_kept {type : ThresholdType} {objectType : ManagableObjectType}
    {value : Value} : (setThresholdByName s a m n type objectType value).Kept s := by
  unfold setThresholdByName
  split
  · exact Ret.kept_same
  refine onObject_kept fun i o => ?_
  split
  · exact Ret.kept_same
  split
  · exact Ret.kept_same
  · exact setThresholdByHandle_kept

theorem startTimerByName_kept {milliseconds : UInt32} :
    (startTimerByName mem s a m n milliseconds).Kept s := by
  refine onObject_kept fun i o => ?_
  split
  · exact Ret.kept_same
  · exact startTimerByHandle_kept

theorem stopTimerByName_kept {r : Ret} (h : stopTimerByName s a m n = some r) : r.Kept s := by
  unfold stopTimerByName at h
  split at h
  · obtain rfl := Option.some.inj h
    exact Ret.kept_same
  split at h
  · obtain rfl := Option.some.inj h
    exact Ret.kept_same
  · obtain ⟨r', hr', rfl⟩ := Option.map_eq_some_iff.1 h
    exact stopTimerByHandle_kept hr'

/-! ## One request -/

/-- The object and the destination that a request names. -/
def Protocol.object (s : State) (p : Protocol) : Option ManagableObject := do
  let a ← p.hApplicationEntityInstanceName
  let m ← p.hModuleName
  let n ← p.hManagableObjectName
  (objectByName s (.ofOctets a) (.ofOctets m) (.ofOctets n)).toOption.map (·.2)

def Protocol.destination (s : State) (p : Protocol) : Option Destination := do
  let a ← p.hApplicationEntityInstanceName
  let n ← p.hDestinationName
  (destinationByName s (.ofOctets a) (.ofOctets n)).toOption.map (·.2)

/-- The condition: the masks of an object are asked for with read access and set with write access, and
those of a destination are not set with read access alone. -/
def Respects (s : State) (op : RemOp) (request : Protocol) : Prop :=
  match op with
  | .getManagableObjectNotifyMask =>
    ∀ o, request.object s = some o → canRead o.accessByName = true
  | .setManagableObjectNotifyMask =>
    ∀ o, request.object s = some o → canWrite o.accessByName = true
  | .setDestinationMasks => ∀ d, request.destination s = some d →
    canRead d.accessByName = true → canWrite d.accessByName = true
  | _ => True

theorem copyName_eq {h : Option Octets} (hc : copyName env h = some n) :
    ∃ v, h = some v ∧ n = .ofOctets v := by
  unfold copyName at hc
  split at hc
  · obtain ⟨v, hv, rfl⟩ := Option.map_eq_some_iff.1 hc
    exact ⟨v, hv, rfl⟩
  · cases hc

theorem object_of_names {request : Protocol}
    (ha : copyName env request.hApplicationEntityInstanceName = some a)
    (hm : copyName env request.hModuleName = some m)
    (hn : copyName env request.hManagableObjectName = some n)
    (ho : objectByName s a m n = .ok (i, o)) : request.object s = some o := by
  obtain ⟨a', ha', rfl⟩ := copyName_eq ha
  obtain ⟨m', hm', rfl⟩ := copyName_eq hm
  obtain ⟨n', hn', rfl⟩ := copyName_eq hn
  simp [Protocol.object, ha', hm', hn', ho, Except.toOption]

theorem destination_of_names {request : Protocol} {d : Destination}
    (ha : copyName env request.hApplicationEntityInstanceName = some a)
    (hn : copyName env request.hDestinationName = some n)
    (hd : destinationByName s a n = .ok (i, d)) : request.destination s = some d := by
  obtain ⟨a', ha', rfl⟩ := copyName_eq ha
  obtain ⟨n', hn', rfl⟩ := copyName_eq hn
  simp [Protocol.destination, ha', hn', hd, Except.toOption]

theorem setManagableObjectNotifyMaskByName_unwritten {notifyMask : UInt32}
    (h : ∀ i o, objectByName s a m n = .ok (i, o) → canWrite o.accessByName = true) :
    Unwritten s (setManagableObjectNotifyMaskByName s a m n notifyMask).state :=
  onObject_unwritten fun i o hn ho => Writes.setObject.unwritten ho (h i o hn)

theorem setDestinationMasksByName_unwritten {newNotifyMask newEventMask : UInt32}
    (h : ∀ i d, destinationByName s a n = .ok (i, d) → canRead d.accessByName = true →
      canWrite d.accessByName = true) :
    Unwritten s (setDestinationMasksByName s a n newNotifyMask newEventMask).state := by
  unfold setDestinationMasksByName
  split
  · exact .refl s
  · rename_i i d hn
    split
    · exact .refl s
    · rename_i hr
      refine ⟨fun _ _ ho _ => ho, fun j q hq hqw => ?_⟩
      have hj : j ≠ i := by
        rintro rfl
        obtain rfl := Option.some.inj (hq.symm.trans (destinationByName_ok hn))
        rw [h j q hn (by simpa using hr)] at hqw
        cases hqw
      exact (List.getElem?_set_ne hj.symm).trans hq

/-- A threshold is set by name, or nothing is done. -/
theorem agentSetThreshold_cases (env : Env) (s : State) (a m n : ZString) (type : ThresholdType)
    (request : AsnValue) : (agentSetThreshold env s a m n type request).state = s ∨
      ∃ objectType value, agentSetThreshold env s a m n type request =
        .ofRet (setThresholdByName s a m n type objectType value) := by
  unfold agentSetThreshold
  split
  · exact .inl rfl
  split
  · exact .inr ⟨_, _, rfl⟩
  · exact .inr ⟨_, _, rfl⟩
  · exact .inl rfl
  · exact .inl rfl
  · exact .inl rfl

/-- **One operation** changes nothing that it may not write. -/
theorem execute_unwritten {op : RemOp} {request : Protocol} {x : Exec}
    (hok : Respects s op request) (h : execute env s op request = some x) : Unwritten s x.state := by
  cases op <;> simp only [execute, Option.bind_eq_bind, Option.bind_eq_some_iff] at h
  case getApplicationEntityList =>
    obtain rfl := Option.some.inj h
    exact .refl s
  case getModuleList | getDestinationList =>
    obtain ⟨a, -, h⟩ := h
    obtain rfl := Option.some.inj h
    exact .refl s
  case getManagableObjectList | getDestinationMasks =>
    obtain ⟨a, -, m, -, h⟩ := h
    obtain rfl := Option.some.inj h
    exact .refl s
  case setDestinationMasks =>
    obtain ⟨a, ha, n, hn, h⟩ := h
    obtain rfl := Option.some.inj h
    exact setDestinationMasksByName_unwritten fun i d hd => hok d (destination_of_names ha hn hd)
  case getValue | getThreshold | getManagableObjectInfo | getManagableObjectNotifyMask =>
    obtain ⟨a, -, m, -, n, -, h⟩ := h
    obtain rfl := Option.some.inj h
    exact .refl s
  case setValue =>
    obtain ⟨a, -, m, -, n, -, h⟩ := h
    unfold agentSetValue at h
    split at h
    · obtain rfl := Option.some.inj h
      exact .refl s
    · obtain ⟨v, -, rfl⟩ := Option.map_eq_some_iff.1 h
      split
      · exact .refl s
      · exact setValueByName_unwritten
  case setThreshold =>
    obtain ⟨a, -, m, -, n, -, h⟩ := h
    obtain rfl := Option.some.inj h
    obtain hs | ⟨objectType, value, hs⟩ := agentSetThreshold_cases env s a m n
      (.ofUInt32 request.thresholdType) request.value
    · rw [hs]
      exact .refl s
    · rw [hs]
      exact setThresholdByName_unwritten
  case startTimer =>
    obtain ⟨a, -, m, -, n, -, h⟩ := h
    obtain rfl := Option.some.inj h
    exact startTimerByName_unwritten
  case stopTimer =>
    obtain ⟨a, -, m, -, n, -, h⟩ := h
    obtain ⟨r, hr, rfl⟩ := Option.map_eq_some_iff.1 h
    exact stopTimerByName_unwritten hr
  case setManagableObjectNotifyMask =>
    obtain ⟨a, ha, m, hm, n, hn, h⟩ := h
    obtain rfl := Option.some.inj h
    exact setManagableObjectNotifyMaskByName_unwritten fun i o ho =>
      hok o (object_of_names ha hm hn ho)

theorem Exec.ofRet_plain {r : Ret} (h : r.Plain s) (he : (Exec.ofRet r).reply = .error rc)
    (hrc : rc ≠ .resourceError) : (Exec.ofRet r).state = s := by
  unfold Exec.ofRet at he
  simp only at he
  split at he
  · cases he
  · rename_i hne
    cases he
    exact h hne hrc

/-- **An operation that fails** for another reason than a lack of memory changes nothing. -/
theorem execute_plain {op : RemOp} {request : Protocol} {x : Exec}
    (h : execute env s op request = some x) (he : x.reply = .error rc)
    (hrc : rc ≠ .resourceError) : x.state = s := by
  cases op <;> simp only [execute, Option.bind_eq_bind, Option.bind_eq_some_iff] at h
  case getApplicationEntityList =>
    obtain rfl := Option.some.inj h
    rfl
  case getModuleList | getDestinationList =>
    obtain ⟨a, -, h⟩ := h
    obtain rfl := Option.some.inj h
    rfl
  case getManagableObjectList | getDestinationMasks =>
    obtain ⟨a, -, m, -, h⟩ := h
    obtain rfl := Option.some.inj h
    rfl
  case setDestinationMasks =>
    obtain ⟨a, ha, n, hn, h⟩ := h
    obtain rfl := Option.some.inj h
    refine Exec.ofRet_plain ?_ he hrc
    unfold setDestinationMasksByName
    split
    · exact Ret.plain_same
    split
    · exact Ret.plain_same
    · exact fun hne => absurd rfl hne
  case getValue | getThreshold | getManagableObjectInfo | getManagableObjectNotifyMask =>
    obtain ⟨a, -, m, -, n, -, h⟩ := h
    obtain rfl := Option.some.inj h
    rfl
  case setValue =>
    obtain ⟨a, -, m, -, n, -, h⟩ := h
    unfold agentSetValue at h
    split at h
    · obtain rfl := Option.some.inj h
      rfl
    · obtain ⟨v, -, rfl⟩ := Option.map_eq_some_iff.1 h
      cases v with
      | error e => rfl
      | ok v => exact Exec.ofRet_plain setValueByName_plain he hrc
  case setThreshold =>
    obtain ⟨a, -, m, -, n, -, h⟩ := h
    obtain rfl := Option.some.inj h
    obtain hs | ⟨objectType, value, hs⟩ := agentSetThreshold_cases env s a m n
      (.ofUInt32 request.thresholdType) request.value
    · exact hs
    · rw [hs] at he ⊢
      exact Exec.ofRet_plain setThresholdByName_kept.plain he hrc
  case startTimer =>
    obtain ⟨a, -, m, -, n, -, h⟩ := h
    obtain rfl := Option.some.inj h
    exact Exec.ofRet_plain startTimerByName_kept.plain he hrc
  case stopTimer =>
    obtain ⟨a, -, m, -, n, -, h⟩ := h
    obtain ⟨r, hr, rfl⟩ := Option.map_eq_some_iff.1 h
    exact Exec.ofRet_plain (stopTimerByName_kept hr).plain he hrc
  case setManagableObjectNotifyMask =>
    obtain ⟨a, ha, m, hm, n, hn, h⟩ := h
    obtain rfl := Option.some.inj h
    refine Exec.ofRet_plain (onObject_plain fun i o => ?_) he hrc
    exact fun hne => absurd rfl hne

end Mm
