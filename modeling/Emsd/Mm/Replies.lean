import Emsd.Mm.Values
import Mathlib.Data.List.Nodup

/-!
# Replies of the agent

A request should be answered once, with a result or an error, and an error should mean that nothing
has been done. `Answered` says so of one request; the clean-up should not free what the request has
not taken.

* `cleanUp_sound`: what is freed at the end of a request has been taken for it, and once.
* `execute_eq_perform`: the operation once its names have been copied.
* `failed_kept_iff`: when an operation that fails leaves the objects as they are.
* `request_answered_iff`: **exactly which requests are answered**.
-/

namespace Mm

open Ocp

variable {mem : Memory} {env : Env} {s : State} {i : ObjectId} {o : ManagableObject} {rc : ReturnCode}
  {op : RemOp} {p : Protocol} {r : Request}

/-! ## Clean-up -/

def Pdu.phOperation : Pdu → OperationHandle
  | .result h _ _ => h
  | .error h _ _ => h

/-- The strings of a structure are different ones. -/
theorem Protocol.strings_nodup (p : Protocol) : p.strings.Nodup := by
  have hkeys : (List.map Prod.fst [((0 : Fin 5), p.hApplicationEntityInstanceName), (1, p.hModuleName),
      (2, p.hManagableObjectName), (3, p.hDestinationName), (4, p.hString)]).Nodup :=
    (by decide : [(0 : Fin 5), 1, 2, 3, 4].Nodup)
  refine hkeys.sublist ?_
  unfold Protocol.strings
  generalize [((0 : Fin 5), p.hApplicationEntityInstanceName), (1, p.hModuleName),
      (2, p.hManagableObjectName), (3, p.hDestinationName), (4, p.hString)] = l
  induction l with
  | nil => exact .slnil
  | cons x l ih =>
    obtain ⟨k, h⟩ := x
    cases h with
    | none => exact ih.cons k
    | some v => exact ih.cons_cons k

theorem RemOp.names_nodup (op : RemOp) : op.names.Nodup := by cases op <;> decide

/-- A name is none of the other resources. -/
theorem RemOp.names_spec (op : RemOp) : ∀ res ∈ op.names,
    res ≠ .hResultBuf ∧ (∀ k, res ≠ .requestString k) ∧ ∀ k, res ≠ .resultString k := by
  cases op <;> simp [RemOp.names]

/-- **The clean-up** frees, once, what the request has taken. -/
theorem cleanUp_sound (op : RemOp) (q q' : Protocol) (buf : Bool) :
    ∃ freed, ({ protocol := some (q, q'), names := op.names, hResultBuf := buf } : Locals).cleanUp =
        some freed ∧ freed.Nodup ∧
      freed ⊆ q.strings.map .requestString ++ op.names ++ q'.strings.map .resultString ++
        if buf then [.hResultBuf] else [] := by
  have hreq : (q.strings.map Resource.requestString).Nodup :=
    q.strings_nodup.map fun _ _ => Resource.requestString.inj
  have hres : (q'.strings.map Resource.resultString).Nodup :=
    q'.strings_nodup.map fun _ _ => Resource.resultString.inj
  have hnames := op.names_nodup.filter (· ≠ .pDestinationName)
  have hspec := op.names_spec
  refine ⟨_, rfl, ?_, ?_⟩
  · refine List.nodup_append.2 ⟨List.nodup_append.2 ⟨List.nodup_append.2 ⟨?_, hnames, ?_⟩, hreq, ?_⟩,
      hres, ?_⟩
    · cases buf <;> simp
    · rintro a ha b hb rfl
      cases buf with
      | false => simp at ha
      | true =>
        obtain rfl : a = .hResultBuf := by simpa using ha
        exact (hspec _ (List.mem_filter.1 hb).1).1 rfl
    · rintro a ha b hb rfl
      obtain ⟨k, -, rfl⟩ := List.mem_map.1 hb
      rcases List.mem_append.1 ha with ha | ha
      · cases buf <;> simp at ha
      · exact (hspec _ (List.mem_filter.1 ha).1).2.1 k rfl
    · rintro a ha b hb rfl
      obtain ⟨k, -, rfl⟩ := List.mem_map.1 hb
      rcases List.mem_append.1 ha with ha | ha
      · rcases List.mem_append.1 ha with ha | ha
        · cases buf <;> simp at ha
        · exact (hspec _ (List.mem_filter.1 ha).1).2.2 k rfl
      · obtain ⟨k', -, hk⟩ := List.mem_map.1 ha
        cases hk
  · intro a ha
    simp only [List.mem_append, List.mem_filter] at ha ⊢
    tauto

/-! ## The operation with its names -/

/-- A name of a request. -/
def nameOf (h : Option Octets) : ZString := .ofOctets (h.getD [])

/-- The handle from which a name is copied. -/
def Protocol.name (p : Protocol) : Resource → Option Octets
  | .pApplicationName => p.hApplicationEntityInstanceName
  | .pModuleName => p.hModuleName
  | .pObjectName => p.hManagableObjectName
  | .pDestinationName => p.hDestinationName
  | _ => none

/-- Every name that the operation needs is there, and memory for its copy. -/
def NamesGiven (env : Env) (op : RemOp) (p : Protocol) : Prop :=
  ∀ res ∈ op.names, env.names = true ∧ (p.name res).isSome = true

/-- The operation once the names are there. -/
def perform (env : Env) (s : State) (op : RemOp) (p : Protocol) : Option Exec :=
  let a := nameOf p.hApplicationEntityInstanceName
  let m := nameOf p.hModuleName
  let n := nameOf p.hManagableObjectName
  let d := nameOf p.hDestinationName
  match op with
  | .getValue => some (agentGetValue env s a m n)
  | .setValue => agentSetValue env s a m n p.value
  | .getThreshold => some (agentGetThreshold env s a m n (.ofUInt32 p.thresholdType))
  | .setThreshold => some (agentSetThreshold env s a m n (.ofUInt32 p.thresholdType) p.value)
  | .startTimer => some (.ofRet (startTimerByName env.toMemory s a m n p.milliseconds))
  | .stopTimer => (stopTimerByName s a m n).map .ofRet
  | .getApplicationEntityList =>
    some (agentList env s (.ok (getApplicationEntityInstanceList s)))
  | .getModuleList => some (agentList env s (getModuleList s a))
  | .getManagableObjectList => some (agentList env s (getManagableObjectList s a m))
  | .getManagableObjectInfo => some (agentGetManagableObjectInfo env s a m n)
  | .getManagableObjectNotifyMask =>
    some (.read s (getManagableObjectNotifyMaskByName s a m n) fun r => { notifyMask := r })
  | .setManagableObjectNotifyMask =>
    some (.ofRet (setManagableObjectNotifyMaskByName s a m n p.notifyMask))
  | .getDestinationList => some (agentList env s (getDestinationList s a))
  | .getDestinationMasks =>
    some (.read s (getDestinationMasksByName s a d) fun r => { notifyMask := r.1, eventMask := r.2 })
  | .setDestinationMasks => some (.ofRet (setDestinationMasksByName s a d 0 0))

theorem copyName_some {h : Option Octets} (hn : env.names = true) (hh : h.isSome = true) :
    copyName env h = some (nameOf h) := by
  obtain ⟨v, rfl⟩ := Option.isSome_iff_exists.1 hh
  simp [copyName, hn, nameOf]

theorem copyName_none {h : Option Octets} (hh : ¬ (env.names = true ∧ h.isSome = true)) :
    copyName env h = none := by
  unfold copyName
  split
  · rename_i hn
    simpa [hn] using hh
  · rfl

theorem execute_eq_perform (h : NamesGiven env op p) : execute env s op p = perform env s op p := by
  cases op <;> simp only [NamesGiven, RemOp.names, List.forall_mem_cons, Protocol.name] at h
  case getApplicationEntityList => rfl
  case getModuleList | getDestinationList =>
    simp [execute, perform, copyName_some h.1.1 h.1.2]
  case getManagableObjectList | getDestinationMasks | setDestinationMasks =>
    obtain ⟨ha, hm, -⟩ := h
    simp [execute, perform, copyName_some ha.1 ha.2, copyName_some hm.1 hm.2]
  all_goals
    obtain ⟨ha, hm, hn, -⟩ := h
    simp [execute, perform, copyName_some ha.1 ha.2, copyName_some hm.1 hm.2, copyName_some hn.1 hn.2]

/-- Without one of the names the agent follows a null pointer. -/
theorem execute_eq_none (h : ¬ NamesGiven env op p) : execute env s op p = none := by
  have hex : ∃ res ∈ op.names, copyName env (p.name res) = none := by
    by_contra hno
    refine h fun res hres => ?_
    by_contra hc
    exact hno ⟨res, hres, copyName_none hc⟩
  obtain ⟨res, hres, hn⟩ := hex
  cases op <;> simp only [RemOp.names, List.mem_cons, List.not_mem_nil, or_false] at hres
  case getModuleList | getDestinationList =>
    subst hres
    simp only [Protocol.name] at hn
    simp [execute, hn]
  case getManagableObjectList | getDestinationMasks | setDestinationMasks =>
    rcases hres with rfl | rfl <;> simp only [Protocol.name] at hn <;> simp [execute, hn]
  all_goals
    rcases hres with rfl | rfl | rfl <;> simp only [Protocol.name] at hn <;> simp [execute, hn]

/-! ## What an operation comes to -/

/-- The object of a request. -/
def Protocol.target (s : State) (p : Protocol) : Except ReturnCode (ObjectId × ManagableObject) :=
  objectByName s (nameOf p.hApplicationEntityInstanceName) (nameOf p.hModuleName)
    (nameOf p.hManagableObjectName)

/-- No string that is null is stored, and no timer stopped that is gone. -/
structure NothingStale (env : Env) (s : State) (op : RemOp) (p : Protocol) : Prop where
  string : op = .setValue → ∀ i o z, p.target s = .ok (i, o) → canRead o.accessByName = true →
    getValueByHandle env.toMemory o = .ok (.string z) → p.value ≠ .string none
  timer : op = .stopTimer → ∀ i o t id, p.target s = .ok (i, o) → canWrite o.accessByName = true →
    o.contents = .timer t → t.handle = some id → t.running.any (·.1 = id) = true

/-- A value or a threshold of a number. -/
def isNumber : Option Value → Bool
  | some (.signedInt _) | some (.unsignedInt _) => true
  | _ => false

/-- The functions that the operation calls succeed. -/
def succeeds (env : Env) (s : State) (op : RemOp) (p : Protocol) : Bool :=
  let a := nameOf p.hApplicationEntityInstanceName
  let m := nameOf p.hModuleName
  let n := nameOf p.hManagableObjectName
  let d := nameOf p.hDestinationName
  let t := ThresholdType.ofUInt32 p.thresholdType
  let listed := env.list && env.attach
  match op with
  | .getValue =>
    match getValueByName env.toMemory s a m n with
    | .ok (_, .string _) => env.attach
    | .ok _ => true
    | .error _ => false
  | .setValue =>
    match getValueByName env.toMemory s a m n with
    | .ok (objectType, own) =>
      match requestValue own p.value with
      | some (.ok v) => (setValueByName env.toMemory s a m n objectType v).rc = .success
      | _ => false
    | .error _ => false
  | .getThreshold =>
    match getThresholdByName s a m n t with
    | .ok (_, own) => isNumber (own.or env.stale)
    | .error _ => false
  | .setThreshold =>
    match getThresholdByName s a m n t with
    | .ok (objectType, own) =>
      match own.or env.stale, p.value with
      | some (.signedInt _), .signedInt v =>
        (setThresholdByName s a m n t objectType (.signedInt v)).rc = .success
      | some (.unsignedInt _), .unsignedInt v =>
        (setThresholdByName s a m n t objectType (.unsignedInt v)).rc = .success
      | _, _ => false
    | .error _ => false
  | .startTimer => (startTimerByName env.toMemory s a m n p.milliseconds).rc = .success
  | .stopTimer => (stopTimerByName s a m n).any (·.rc = .success)
  | .getApplicationEntityList => listed
  | .getModuleList => (getModuleList s a).isOk && listed
  | .getManagableObjectList => (getManagableObjectList s a m).isOk && listed
  | .getManagableObjectInfo => (getManagableObjectInfo s a m n).isOk && listed
  | .getManagableObjectNotifyMask => (getManagableObjectNotifyMaskByName s a m n).isOk
  | .setManagableObjectNotifyMask =>
    (setManagableObjectNotifyMaskByName s a m n p.notifyMask).rc = .success
  | .getDestinationList => (getDestinationList s a).isOk && listed
  | .getDestinationMasks => (getDestinationMasksByName s a d).isOk
  | .setDestinationMasks => (setDestinationMasksByName s a d 0 0).rc = .success

theorem agentList_isOk (env : Env) (s : State) (l : Except ReturnCode (List ZString)) :
    (agentList env s l).reply.isOk = (l.isOk && (env.list && env.attach)) := by
  cases l with
  | error rc => rfl
  | ok l =>
    unfold agentList attach
    cases env.list with
    | false => rfl
    | true => cases env.attach <;> rfl

theorem ofRet_isOk (x : Ret) : (Exec.ofRet x).reply.isOk = decide (x.rc = .success) := by
  unfold Exec.ofRet
  by_cases h : x.rc = .success
  · simp [h, Except.isOk, Except.toBool]
  · simp [h, Except.isOk, Except.toBool]

theorem map_isOk {α β : Type} (x : Except ReturnCode α) (f : α → β) : (x.map f).isOk = x.isOk := by
  cases x <;> rfl

theorem agentGetManagableObjectInfo_isOk (env : Env) (s : State) (a m n : ZString) :
    (agentGetManagableObjectInfo env s a m n).reply.isOk =
      ((getManagableObjectInfo s a m n).isOk && (env.list && env.attach)) := by
  unfold agentGetManagableObjectInfo
  cases getManagableObjectInfo s a m n with
  | error rc => rfl
  | ok x =>
    unfold attach
    cases env.list with
    | false => rfl
    | true => cases env.attach <;> rfl

/-- The operation succeeds when its functions do. -/
theorem perform_isOk {x : Exec} (h : perform env s op p = some x) :
    x.reply.isOk = succeeds env s op p := by
  cases op <;> simp only [perform, Option.some.injEq, Option.map_eq_some_iff] at h
  case setValue =>
    simp only [agentSetValue] at h
    simp only [succeeds]
    split at h
    · obtain rfl := Option.some.inj h
      rename_i hget
      rw [hget]
      rfl
    · rename_i objectType own hget
      rw [hget]
      obtain ⟨v, hv, rfl⟩ := Option.map_eq_some_iff.1 h
      simp only [hv]
      cases v with
      | error rc => rfl
      | ok v => exact ofRet_isOk _
  case stopTimer =>
    obtain ⟨y, hy, rfl⟩ := h
    simp [succeeds, hy, ofRet_isOk]
  all_goals subst h
  case getValue =>
    simp only [agentGetValue, succeeds]
    cases getValueByName env.toMemory s _ _ _ with
    | error rc => rfl
    | ok y =>
      obtain ⟨type, v⟩ := y
      cases v with
      | signedInt v => rfl
      | unsignedInt v => rfl
      | string v =>
        simp only [Except.bind, attach]
        cases env.attach <;> rfl
  case getThreshold =>
    simp only [agentGetThreshold, succeeds]
    cases getThresholdByName s _ _ _ _ with
    | error rc => rfl
    | ok y =>
      obtain ⟨type, own⟩ := y
      simp only [Except.bind]
      cases own.or env.stale with
      | none => rfl
      | some v => cases v <;> rfl
  case setThreshold =>
    simp only [agentSetThreshold, succeeds]
    cases getThresholdByName s _ _ _ _ with
    | error rc => rfl
    | ok y =>
      obtain ⟨type, own⟩ := y
      simp only
      cases own.or env.stale with
      | none => rfl
      | some v =>
        cases v with
        | signedInt v =>
          cases p.value with
          | signedInt w => exact ofRet_isOk _
          | unsignedInt w | string w | other w => rfl
        | unsignedInt v =>
          cases p.value with
          | unsignedInt w => exact ofRet_isOk _
          | signedInt w | string w | other w => rfl
        | string v => rfl
  case getApplicationEntityList => exact agentList_isOk ..
  case getModuleList | getManagableObjectList | getDestinationList => exact agentList_isOk ..
  case getManagableObjectInfo => exact agentGetManagableObjectInfo_isOk ..
  case getManagableObjectNotifyMask | getDestinationMasks => exact map_isOk ..
  case startTimer | setManagableObjectNotifyMask | setDestinationMasks => exact ofRet_isOk _

theorem target_of_getValueByName {x : ManagableObjectType × Value}
    (h : getValueByName mem s (nameOf p.hApplicationEntityInstanceName) (nameOf p.hModuleName)
      (nameOf p.hManagableObjectName) = .ok x) :
    ∃ i o, p.target s = .ok (i, o) ∧ canRead o.accessByName = true ∧
      getValueByHandle mem o = .ok x.2 ∧ x.1 = o.contents.objectType := by
  unfold getValueByName at h
  unfold Protocol.target
  cases ho : objectByName s (nameOf p.hApplicationEntityInstanceName) (nameOf p.hModuleName)
      (nameOf p.hManagableObjectName) with
  | error rc => simp [ho, Except.bind] at h
  | ok y =>
    simp only [ho, Except.bind] at h
    split at h
    · cases h
    · rename_i hr
      cases hv : getValueByHandle mem y.2 with
      | error rc => simp [hv, Except.map] at h
      | ok v =>
        simp only [hv, Except.map, Except.ok.injEq] at h
        subst h
        exact ⟨y.1, y.2, rfl, by simpa using hr, hv, rfl⟩

theorem getValueByName_of_target (ho : p.target s = .ok (i, o))
    (hr : canRead o.accessByName = true) {v : Value} (hv : getValueByHandle mem o = .ok v) :
    getValueByName mem s (nameOf p.hApplicationEntityInstanceName) (nameOf p.hModuleName)
      (nameOf p.hManagableObjectName) = .ok (o.contents.objectType, v) := by
  unfold Protocol.target at ho
  simp [getValueByName, ho, Except.bind, hr, hv, Except.map]

/-- The agent gets through an operation when it follows nothing that is gone. -/
theorem perform_isSome_iff : (perform env s op p).isSome = true ↔ NothingStale env s op p := by
  by_cases hset : op = .setValue
  · subst hset
    simp only [perform, agentSetValue]
    constructor
    · refine fun h => ⟨fun _ i o z ho hr hz hnull => ?_, nofun⟩
      rw [getValueByName_of_target ho hr hz, hnull] at h
      simp [requestValue] at h
    · intro h
      split
      · rfl
      · rename_i type own hget
        obtain ⟨i, o, ho, hr, hv, -⟩ := target_of_getValueByName hget
        rw [Option.isSome_map, Option.isSome_iff_ne_none]
        intro hnone
        cases own with
        | signedInt v => cases hp : p.value <;> simp [requestValue, hp] at hnone
        | unsignedInt v => cases hp : p.value <;> simp [requestValue, hp] at hnone
        | string v =>
          cases hp : p.value with
          | string w =>
            cases w with
            | none => exact h.string rfl i o v ho hr hv hp
            | some w => simp [requestValue, hp] at hnone
          | signedInt w | unsignedInt w | other w => simp [requestValue, hp] at hnone
  by_cases hstop : op = .stopTimer
  · subst hstop
    simp only [perform, Option.isSome_map]
    unfold stopTimerByName
    constructor
    · refine fun h => ⟨nofun, fun _ i o t id ho hw ht hid => ?_⟩
      unfold Protocol.target at ho
      by_contra hgone
      simp [ho, hw, stopTimerByHandle, ht, hid, hgone] at h
    · intro h
      split
      · rfl
      · rename_i i o ho
        split
        · rfl
        · rename_i hw
          rw [Option.isSome_map]
          unfold stopTimerByHandle
          split
          · rename_i t ht
            split
            · rfl
            · rename_i id hid
              rw [if_pos (h.timer rfl i o t id ho (by simpa using hw) ht hid)]
              rfl
          · rfl
  · have hother : NothingStale env s op p := ⟨fun h => absurd h hset, fun h => absurd h hstop⟩
    simp only [hother, iff_true]
    cases op <;> first | rfl | contradiction

/-! ## What a failure leaves behind -/

/-- A value is set whose event has no memory. -/
def LosesEvent (env : Env) (s : State) (p : Protocol) : Prop :=
  ∃ i o own v, p.target s = .ok (i, o) ∧ canRead o.accessByName = true ∧
    canWrite o.accessByName = true ∧ getValueByHandle env.toMemory o = .ok own ∧
    requestValue own p.value = some (.ok v) ∧ o.contents.stored env.toMemory v ≠ o.contents ∧
    o.notifiesValueChange = true ∧ s.watched o = true ∧ env.event = false

/-- Objects and destinations are what they were. -/
def State.Untouched (s t : State) : Prop :=
  t.managableObjects = s.managableObjects ∧ t.destinations = s.destinations

theorem State.Untouched.refl (s : State) : s.Untouched s := ⟨rfl, rfl⟩

theorem perform_kept (hop : op ≠ .setValue) {x : Exec} (h : perform env s op p = some x)
    (hfail : succeeds env s op p = false) : x.state = s := by
  have hok := perform_isOk h
  rw [hfail] at hok
  -- an operation that only writes
  have hret : ∀ y : Ret, x = .ofRet y → y.Kept s → x.state = s := by
    rintro y rfl hy
    rw [ofRet_isOk, decide_eq_false_iff_not] at hok
    exact hy hok
  cases op <;> simp only [perform, Option.some.injEq, Option.map_eq_some_iff] at h
  case setValue => exact absurd rfl hop
  case stopTimer =>
    obtain ⟨y, hy, rfl⟩ := h
    exact hret y rfl (stopTimerByName_kept hy)
  case setThreshold =>
    subst h
    obtain hs | ⟨objectType, value, hs⟩ := agentSetThreshold_cases env s
      (nameOf p.hApplicationEntityInstanceName) (nameOf p.hModuleName) (nameOf p.hManagableObjectName)
      (.ofUInt32 p.thresholdType) p.value
    · exact hs
    · exact hret _ hs setThresholdByName_kept
  case startTimer => exact hret _ h.symm startTimerByName_kept
  case setManagableObjectNotifyMask =>
    exact hret _ h.symm (onObject_kept fun i o hne => absurd rfl hne)
  case setDestinationMasks =>
    refine hret _ h.symm ?_
    unfold setDestinationMasksByName
    split
    · exact Ret.kept_same
    split
    · exact Ret.kept_same
    · exact fun hne => absurd rfl hne
  all_goals
    subst h
    rfl

theorem setValueByName_of_target (ho : p.target s = .ok (i, o)) (hw : canWrite o.accessByName = true)
    (v : Value) : setValueByName mem s (nameOf p.hApplicationEntityInstanceName)
      (nameOf p.hModuleName) (nameOf p.hManagableObjectName) o.contents.objectType v =
        setValueByHandle mem s i o v := by
  unfold Protocol.target at ho
  simp [setValueByName, onObject, ho, hw]

/-- An object that a request has found is there. -/
theorem target_mem (ho : p.target s = .ok (i, o)) : s.managableObjects[i]? = some o :=
  objectByName_ok ho

theorem setValueByHandle_untouched_iff {v : Value} (hi : s.managableObjects[i]? = some o) :
    s.Untouched (setValueByHandle mem s i o v).state ↔ o.contents.stored mem v = o.contents := by
  have hdest : (setValueByHandle mem s i o v).state.destinations = s.destinations :=
    (setValueByHandle_writes (i := i)).destinations
  simp only [State.Untouched, hdest, and_true, setValueByHandle_objects hi]
  constructor
  · intro h
    have hget := congrArg (·[i]?) h
    obtain ⟨hlt, -⟩ := List.getElem?_eq_some_iff.1 hi
    simp only [List.getElem?_set_self hlt, hi, Option.some.injEq] at hget
    exact congrArg ManagableObject.contents hget
  · intro h
    rw [h]
    exact set_self hi

/-- **When an operation that fails has changed something**: a value is set whose event is lost. -/
theorem failed_kept_iff {x : Exec} (h : perform env s op p = some x)
    (hfail : succeeds env s op p = false) :
    s.Untouched x.state ↔ ¬ (op = .setValue ∧ LosesEvent env s p) := by
  by_cases hop : op = .setValue
  · subst hop
    simp only [true_and]
    have hok := perform_isOk h
    rw [hfail] at hok
    simp only [perform, agentSetValue] at h
    split at h
    · rename_i rc hget
      obtain rfl := Option.some.inj h
      refine iff_of_true (.refl s) ?_
      rintro ⟨i, o, own, v, ho, hr, -, hv, -⟩
      rw [getValueByName_of_target ho hr hv] at hget
      cases hget
    · rename_i type own hget
      obtain ⟨i, o, ho, hr, hv, rfl⟩ := target_of_getValueByName hget
      obtain ⟨v, hreq, rfl⟩ := Option.map_eq_some_iff.1 h
      -- the object of the request is this one
      have hloses : LosesEvent env s p ↔ canWrite o.accessByName = true ∧ ∃ w, v = .ok w ∧
          o.contents.stored env.toMemory w ≠ o.contents ∧ o.notifiesValueChange = true ∧
          s.watched o = true ∧ env.event = false := by
        constructor
        · rintro ⟨i', o', own', w, ho', -, hw, hv', hreq', hrest⟩
          obtain ⟨rfl, rfl⟩ := Prod.mk.inj (Except.ok.inj (ho.symm.trans ho'))
          obtain rfl := Except.ok.inj (hv.symm.trans hv')
          exact ⟨hw, w, Option.some.inj (hreq.symm.trans hreq'), hrest⟩
        · rintro ⟨hw, w, rfl, hrest⟩
          exact ⟨i, o, own, w, ho, hr, hw, hv, hreq, hrest⟩
      rw [hloses]
      cases v with
      | error rc => exact iff_of_true (.refl s) fun hc => by obtain ⟨-, w, hw, -⟩ := hc; cases hw
      | ok v =>
        simp only [ofRet_isOk, decide_eq_false_iff_not] at hok
        by_cases hw : canWrite o.accessByName = true
        · simp only [Exec.ofRet]
          rw [setValueByName_of_target ho hw] at hok ⊢
          rw [setValueByHandle_untouched_iff (target_mem ho)]
          constructor
          · rintro hsame ⟨-, w, hvw, hne, -⟩
            obtain rfl := Except.ok.inj hvw
            exact hne hsame
          · intro hno
            by_contra hne
            rw [setValueByHandle_rc hne] at hok
            split at hok
            · rename_i hb
              simp only [Bool.and_eq_true, Bool.not_eq_true'] at hb
              exact hno ⟨hw, v, rfl, hne, hb.1, hb.2.1, hb.2.2⟩
            · exact hok rfl
        · refine iff_of_true ?_ fun hc => hw hc.1
          unfold Protocol.target at ho
          simp [Exec.ofRet, setValueByName, onObject, ho, hw, State.Untouched]
  · rw [perform_kept hop h hfail]
    exact iff_of_true (.refl s) fun hc => hop hc.1

/-! ## Every request -/

/-- The agent's answer to a request. -/
structure Answered (s : State) (r : Request) (o : Outcome) : Prop where
  once : ∃ pdu, o.sent = [pdu] ∧ pdu.phOperation = r.phOperation
  freed : ∃ freed, o.freed = some freed ∧ freed.Nodup ∧ freed ⊆ o.acquired
  error : ∀ h op rc, Pdu.error h op rc ∈ o.sent → s.Untouched o.state

/-- The memory for the reply. -/
def ReplyMemory (env : Env) (op : RemOp) : Bool → Prop
  | true => op.hasResult = true → env.resultBuf = true ∧ env.asnFormat = true
  | false => env.errorBuf = true

/-- The condition for an operation. -/
structure Answerable (env : Env) (s : State) (op : RemOp) (p : Protocol) : Prop where
  names : NamesGiven env op p
  nothingStale : NothingStale env s op p
  memory : ReplyMemory env op (succeeds env s op p)
  event : op = .setValue → ¬ LosesEvent env s p

theorem errorResponse_answers {h : OperationHandle} :
    (∃ pdu, agentErrorResponse env h op rc = [pdu] ∧ pdu.phOperation = h) ↔
      env.errorBuf = true := by
  unfold agentErrorResponse
  cases env.errorBuf with
  | true => simp [Pdu.phOperation]
  | false => simp

theorem agentResult_answers {h : OperationHandle} {q : Protocol} :
    (∃ pdu, (agentResult env h op q).2 = [pdu] ∧ pdu.phOperation = h) ↔ ReplyMemory env op true := by
  unfold agentResult ReplyMemory
  cases op.hasResult with
  | false => simp [Pdu.phOperation]
  | true =>
    cases env.resultBuf with
    | false => simp
    | true =>
      cases env.asnFormat with
      | false => simp
      | true => simp [Pdu.phOperation]

theorem agentResult_no_error {h h' : OperationHandle} {q : Protocol} {op' : RemOp} :
    .error h' op' rc ∉ (agentResult env h op q).2 := by
  unfold agentResult
  split
  · split
    · simp
    split
    · simp
    · simp
  · simp

theorem losesEvent_fails (h : LosesEvent env s p) : succeeds env s .setValue p = false := by
  obtain ⟨i, o, own, v, ho, hr, hw, hv, hreq, hne, hn, hwatch, he⟩ := h
  simp only [succeeds, getValueByName_of_target ho hr hv, hreq, setValueByName_of_target ho hw,
    setValueByHandle_rc hne, hn, hwatch, he]
  rfl

/-- **A request is answered** exactly when its operation is known, the PDU is parsed, and the operation
meets the condition. -/
theorem request_answered_iff (s : State) (r : Request) (htype : r.operationType = .request) :
    (∃ o, r.run s = some o ∧ Answered s r o) ↔
      ∃ op, RemOp.ofInt r.operationValue = some op ∧ r.parsed.2 = true ∧
        Answerable r.env s op r.parsed.1 := by
  unfold Request.run agentProcessEvent
  simp only [htype, ne_eq, not_true_eq_false, if_false]
  cases hop : RemOp.ofInt r.operationValue with
  | none =>
    refine iff_of_false ?_ (by rintro ⟨op, h, -⟩; cases h)
    rintro ⟨o, ho, ha⟩
    obtain rfl := Option.some.inj ho
    obtain ⟨pdu, h, -⟩ := ha.once
    cases h
  | some op =>
    cases hp : r.parsed.2 with
    | false =>
      refine iff_of_false ?_ (by rintro ⟨op, -, h, -⟩; cases h)
      rintro ⟨o, ho, ha⟩
      obtain rfl := Option.some.inj ho
      obtain ⟨pdu, h, -⟩ := ha.once
      cases h
    | true =>
      simp only [Bool.true_eq_false, if_false, Option.some.injEq, true_and, exists_eq_left']
      by_cases hn : NamesGiven r.env op r.parsed.1
      · rw [execute_eq_perform hn]
        cases hx : perform r.env s op r.parsed.1 with
        | none =>
          refine iff_of_false (by simp) fun ha => ?_
          have hsome := perform_isSome_iff.2 ha.nothingStale
          rw [hx] at hsome
          cases hsome
        | some x =>
          have hst : NothingStale r.env s op r.parsed.1 := perform_isSome_iff.1 (by rw [hx]; rfl)
          have hok := perform_isOk hx
          cases hr : x.reply with
          | error rc =>
            have hfail : succeeds r.env s op r.parsed.1 = false := by rw [← hok, hr]; rfl
            have hkept := failed_kept_iff hx hfail
            simp only [Option.bind_eq_bind, Option.bind_some, hr, Option.some.injEq, exists_eq_left']
            constructor
            · intro ha
              have hbuf := (errorResponse_answers).1 ha.once
              refine ⟨hn, hst, by rw [hfail]; exact hbuf, fun hset hlost => ?_⟩
              exact hkept.1 (ha.error r.phOperation op rc (by simp [agentErrorResponse, hbuf]))
                ⟨hset, hlost⟩
            · intro ha
              have hbuf := ha.memory
              rw [hfail] at hbuf
              refine ⟨(errorResponse_answers).2 hbuf, ?_, fun _ _ _ _ => ?_⟩
              · have hempty : ({} : Protocol).strings = [] := rfl
                obtain ⟨freed, hf, hnodup, hsub⟩ := cleanUp_sound op r.parsed.1 {} false
                exact ⟨freed, hf, hnodup, by simpa [hempty] using hsub⟩
              · exact hkept.2 fun hc => ha.event hc.1 hc.2
          | ok q =>
            have hsucc : succeeds r.env s op r.parsed.1 = true := by rw [← hok, hr]; rfl
            simp only [Option.bind_eq_bind, Option.bind_some, hr, Option.some.injEq, exists_eq_left']
            constructor
            · intro ha
              refine ⟨hn, hst, by rw [hsucc]; exact agentResult_answers.1 ha.once, ?_⟩
              rintro rfl hlost
              rw [losesEvent_fails hlost] at hsucc
              cases hsucc
            · intro ha
              have hbuf := ha.memory
              rw [hsucc] at hbuf
              refine ⟨agentResult_answers.2 hbuf, cleanUp_sound .., fun h o c hmem => ?_⟩
              exact absurd hmem agentResult_no_error
      · rw [execute_eq_none hn]
        exact iff_of_false (by simp) fun ha => hn ha.names

theorem request_answered_getValue : ∃ o, (named 1 [98]).run registered = some o ∧
    Answered registered (named 1 [98]) o := by
  refine (request_answered_iff registered (named 1 [98]) rfl).2 ⟨.getValue, rfl, rfl, ?_⟩
  have hnames : NamesGiven {} .getValue (named 1 [98]).parsed.1 := by
    unfold NamesGiven
    decide
  exact ⟨hnames, ⟨nofun, nofun⟩, fun _ => ⟨rfl, rfl⟩, nofun⟩

/-- **Requests without an answer**: one with an unknown operation value, and one that is not parsed; and
one that is answered by an error although the value has been set. -/
theorem request_unanswered :
    (¬ ∃ o, (named 16 [98]).run registered = some o ∧ Answered registered (named 16 [98]) o) ∧
    (∀ r : Request, r = { operationValue := 1, parsed := ({}, false) } →
      ¬ ∃ o, r.run registered = some o ∧ Answered registered r o) ∧
    ∀ r : Request, r = { named 2 [98] { value := .unsignedInt 7 } with env := { event := false } } →
      ¬ ∃ o, r.run registered = some o ∧ Answered registered r o := by
  refine ⟨?_, ?_, ?_⟩
  · rintro ⟨o, ho, ha⟩
    obtain rfl := Option.some.inj ho
    obtain ⟨pdu, h, -⟩ := ha.once
    cases h
  · rintro _ rfl ⟨o, ho, ha⟩
    obtain rfl := Option.some.inj ho
    obtain ⟨pdu, h, -⟩ := ha.once
    cases h
  · rintro _ rfl ⟨o, ho, ha⟩
    obtain rfl := Option.some.inj ho
    obtain ⟨h, -⟩ := ha.error 0 .setValue .resourceError (List.mem_singleton.2 rfl)
    exact absurd h (by decide)

end Mm
