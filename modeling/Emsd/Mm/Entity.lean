import Emsd.Ocp.Strings

/-!
# Managable objects (`mm_/hosted/entity.c`)

The objects, modules and destinations that a program registers for management, and the functions that
take their handles. A handle is the position in the order of registration, since nothing is ever
taken out.

An object's value and its thresholds are kept together with its type, so that none has a value of
another type.
-/

namespace Mm

open Ocp

/-- `MM_ManagableObjectType`. -/
inductive ManagableObjectType
  | counterSigned
  | counterUnsigned
  | gaugeSigned
  | gaugeUnsigned
  | string
  | timer
  | log
  deriving DecidableEq, Repr

/-- `MM_ThresholdType`; a manager sends a number. -/
inductive ThresholdType
  | minimumThreshold
  | maximumThreshold
  | minimumAbsolute
  | maximumAbsolute
  | other (n : UInt32)
  deriving DecidableEq, Repr

def ThresholdType.ofUInt32 (n : UInt32) : ThresholdType :=
  if n = 0 then .minimumThreshold
  else if n = 1 then .maximumThreshold
  else if n = 2 then .minimumAbsolute
  else if n = 3 then .maximumAbsolute
  else .other n

/-- `MM_NotificationType_ValueChange`. -/
def notificationTypeValueChange : UInt32 := 31

/-- `MM_AccessByName_Read` and `MM_AccessByName_Write`. -/
def accessByNameRead : UInt8 := 1

def accessByNameWrite : UInt8 := 2

def accessByNameReadWrite : UInt8 := accessByNameRead ||| accessByNameWrite

/-- `MM_Value`. -/
inductive Value
  | signedInt (v : Int32)
  | unsignedInt (v : UInt32)
  | string (s : ZString)
  deriving DecidableEq, Repr

/-- The return codes of the module; `other` is one of another module. -/
inductive ReturnCode
  | success
  | fail
  | resourceError
  | thresholdNotSupported
  | minimumThresholdNotSupported
  | incrementNotSupported
  | wrongObjectType
  | wrongValueType
  | noSuchManagableObject
  | noSuchModule
  | noSuchApplicationEntityInstance
  | noSuchDestination
  | byNameReadAccessDenied
  | byNameWriteAccessDenied
  | nameAlreadyInUse
  | unrecognizedRemoteOperationValue
  | unexpectedRemoteOperationType
  | communicationFailure
  | invalidThresholdType
  | other (n : Nat)
  deriving DecidableEq, Repr

/-- Thresholds and absolute bounds of a number. -/
structure Limits (α : Type) where
  minThreshold : α
  maxThreshold : α
  minAbsolute : α
  maxAbsolute : α
  deriving DecidableEq, Repr

/-- A counter has no minimum threshold. -/
inductive NumberType
  | counter
  | gauge
  deriving DecidableEq, Repr

abbrev TimerId := Nat

/-- The timers that have been started for an object. `handle` is that of the last one, also after it
has been stopped; `running` are those in the queue of `tmr.c`, with their milliseconds. -/
structure Timers where
  handle : Option TimerId := none
  running : List (TimerId × UInt32) := []
  next : TimerId := 0
  deriving DecidableEq, Repr

/-- `objectType`, `valueType` and the unions of a `ManagableObject`. -/
inductive Contents
  | sint32 (type : NumberType) (value : Int32) (limits : Limits Int32)
  | uint32 (type : NumberType) (value : UInt32) (limits : Limits UInt32)
  | string (value : ZString)
  | timer (timers : Timers)
  | log (handle : Option ZString)
  deriving DecidableEq, Repr

def Contents.objectType : Contents → ManagableObjectType
  | .sint32 .counter _ _ => .counterSigned
  | .sint32 .gauge _ _ => .gaugeSigned
  | .uint32 .counter _ _ => .counterUnsigned
  | .uint32 .gauge _ _ => .gaugeUnsigned
  | .string _ => .string
  | .timer _ => .timer
  | .log _ => .log

abbrev EntityId := Nat

abbrev ModuleId := Nat

abbrev ObjectId := Nat

abbrev DestinationId := Nat

structure Module where
  pName : ZString
  pApplicationEntityInstance : EntityId
  deriving DecidableEq, Repr

structure ManagableObject where
  pName : ZString
  pDescription : ZString
  notificationTypes : UInt32
  pModule : ModuleId
  accessByName : UInt8
  /-- `pfValueChanged` is there. -/
  pfValueChanged : Bool
  contents : Contents
  deriving DecidableEq, Repr

structure Destination where
  pName : ZString
  pDescription : ZString
  pApplicationEntityInstance : EntityId
  accessByName : UInt8
  notifyMask : UInt32
  eventMask : UInt32
  deriving DecidableEq, Repr

/-- `MM_EventType`. -/
inductive EventType
  | maxThresholdExceededSigned
  | maxThresholdExceededUnsigned
  | minThresholdExceededSigned
  | minThresholdExceededUnsigned
  | maxThresholdReenteredSigned
  | maxThresholdReenteredUnsigned
  | minThresholdReenteredSigned
  | minThresholdReenteredUnsigned
  | timerExpired
  | logMessage
  | valueChangedSigned
  | valueChangedUnsigned
  | valueChangedString
  | managableObjectChange
  deriving DecidableEq, Repr

def EventType.toUInt32 : EventType → UInt32
  | maxThresholdExceededSigned => 1
  | maxThresholdExceededUnsigned => 2
  | minThresholdExceededSigned => 3
  | minThresholdExceededUnsigned => 4
  | maxThresholdReenteredSigned => 5
  | maxThresholdReenteredUnsigned => 6
  | minThresholdReenteredSigned => 7
  | minThresholdReenteredUnsigned => 8
  | timerExpired => 9
  | logMessage => 10
  | valueChangedSigned => 11
  | valueChangedUnsigned => 12
  | valueChangedString => 13
  | managableObjectChange => 14

structure Event where
  pApplicationEntityInstance : EntityId
  pModuleName : ZString
  pObjectName : ZString
  pDescription : ZString
  notificationTypes : UInt32
  eventType : EventType
  /-- `param1` and `param2`, those that the type has. -/
  params : List Value
  deriving DecidableEq, Repr

/-- Everything that is registered, and the events that wait. -/
structure State where
  applicationEntityInstances : List ZString := []
  modules : List Module := []
  managableObjects : List ManagableObject := []
  destinations : List Destination := []
  pendingEvents : List Event := []
  deriving DecidableEq, Repr

/-- A call of a registered function: `pfValueChanged` or `pfAlert`. -/
inductive Out
  | valueChanged (i : ObjectId) (value : Value)
  | alert (d : DestinationId) (event : Event)
  deriving DecidableEq, Repr

/-- What a call leaves behind. -/
structure Ret where
  state : State
  rc : ReturnCode
  out : List Out := []
  deriving DecidableEq, Repr

/-- How the allocations of a call turn out. -/
structure Memory where
  /-- `OS_allocStringCopy` for the copy of a value that is handed out -/
  stringCopy : Bool := true
  /-- the same for the one that is kept -/
  storeCopy : Bool := true
  /-- `OS_alloc` for an event in `generateEvent` -/
  event : Bool := true
  /-- the same for a second event of the call -/
  event2 : Bool := true
  /-- `TMR_start` -/
  tmrStart : Bool := true
  /-- the structures and strings that a registration allocates -/
  register : Bool := true
  deriving DecidableEq, Repr

namespace State

variable (s : State)

def setObject (i : ObjectId) (o : ManagableObject) : State :=
  { s with managableObjects := s.managableObjects.set i o }

def setDestination (i : DestinationId) (d : Destination) : State :=
  { s with destinations := s.destinations.set i d }

/-- `pModule->pApplicationEntityInstance` of an object. -/
def entityOf (o : ManagableObject) : Option EntityId :=
  (s.modules[o.pModule]?).map (·.pApplicationEntityInstance)

end State

/-! ## Events -/

/-- The parameters of an event, from the unions of its object. -/
def Contents.capture : Contents → EventType → List Value
  | .sint32 _ v l, .maxThresholdExceededSigned | .sint32 _ v l, .maxThresholdReenteredSigned =>
    [.signedInt l.maxThreshold, .signedInt v]
  | .sint32 _ v l, .minThresholdExceededSigned | .sint32 _ v l, .minThresholdReenteredSigned =>
    [.signedInt l.minThreshold, .signedInt v]
  | .sint32 _ v _, .valueChangedSigned => [.signedInt v]
  | .uint32 _ v l, .maxThresholdExceededUnsigned | .uint32 _ v l, .maxThresholdReenteredUnsigned =>
    [.unsignedInt l.maxThreshold, .unsignedInt v]
  | .uint32 _ v l, .minThresholdExceededUnsigned | .uint32 _ v l, .minThresholdReenteredUnsigned =>
    [.unsignedInt l.minThreshold, .unsignedInt v]
  | .uint32 _ v _, .valueChangedUnsigned => [.unsignedInt v]
  | .string v, .valueChangedString => [.string v]
  | .log (some v), .logMessage => [.string v]
  | _, _ => []

/-- The event that `generateEvent` builds. -/
def mkEvent (eventType : EventType) (o : ManagableObject) (m : Module) : Event where
  pApplicationEntityInstance := m.pApplicationEntityInstance
  pModuleName := m.pName
  pObjectName := o.pName
  pDescription := o.pDescription
  notificationTypes := o.notificationTypes
  eventType
  params := o.contents.capture eventType

/-- Nothing is to be done: there is no destination, or a change of the objects is already waiting. -/
def State.needless (s : State) (e : EntityId) (eventType : EventType) : Bool :=
  !s.destinations.any (·.pApplicationEntityInstance = e) ||
    (eventType = .managableObjectChange && s.pendingEvents.any fun ev =>
      ev.pApplicationEntityInstance = e && ev.eventType = .managableObjectChange)

/-- `generateEvent`. -/
def generateEvent (s : State) (eventType : EventType) (o : ManagableObject) (alloc : Bool) :
    State × ReturnCode :=
  match s.modules[o.pModule]? with
  -- every object has its module
  | none => (s, .success)
  | some m =>
    if s.needless m.pApplicationEntityInstance eventType then (s, .success)
    else if alloc = false then (s, .resourceError)
    else ({ s with pendingEvents := s.pendingEvents ++ [mkEvent eventType o m] }, .success)

/-! ## Thresholds and values -/

section Number

variable {α : Type} [LT α] [DecidableLT α]

/-- The value within its absolute bounds. -/
def Limits.clamp (l : Limits α) (v : α) : α :=
  let v := if l.maxAbsolute < v then l.maxAbsolute else v
  if v < l.minAbsolute then l.minAbsolute else v

def Limits.within (l : Limits α) (v : α) : Bool := !(v < l.minThreshold) && !(l.maxThreshold < v)

/-- One of the four bounds. -/
def Limits.get (l : Limits α) : ThresholdType → Option α
  | .minimumThreshold => some l.minThreshold
  | .maximumThreshold => some l.maxThreshold
  | .minimumAbsolute => some l.minAbsolute
  | .maximumAbsolute => some l.maxAbsolute
  | .other _ => none

/-- The bounds after one of them is set, and the value, which an absolute bound moves. -/
def Limits.put (l : Limits α) (value : α) : ThresholdType → α → Limits α × α
  | .minimumThreshold, v => ({ l with minThreshold := v }, value)
  | .maximumThreshold, v => ({ l with maxThreshold := v }, value)
  | .minimumAbsolute, v => ({ l with minAbsolute := v }, if value < v then v else value)
  | .maximumAbsolute, v => ({ l with maxAbsolute := v }, if v < value then v else value)
  | .other _, _ => (l, value)

end Number

/-- `MM_getThresholdByHandle`. Where the type of the threshold is none of the four, the value is not
written. -/
def getThresholdByHandle (o : ManagableObject) (t : ThresholdType) :
    Except ReturnCode (Option Value) :=
  match o.contents with
  | .sint32 type _ l =>
    if type = .counter ∧ (t = .minimumThreshold ∨ t = .minimumAbsolute) then
      .error .minimumThresholdNotSupported
    else .ok ((l.get t).map .signedInt)
  | .uint32 type _ l =>
    if type = .counter ∧ (t = .minimumThreshold ∨ t = .minimumAbsolute) then
      .error .minimumThresholdNotSupported
    else .ok ((l.get t).map .unsignedInt)
  | .string _ | .timer _ | .log _ => .error .thresholdNotSupported

/-- `MM_setThresholdByHandle`. A counter can be given an absolute minimum, which it cannot be asked
for. -/
def setThresholdByHandle (s : State) (i : ObjectId) (o : ManagableObject) (t : ThresholdType)
    (value : Value) : State × ReturnCode :=
  match o.contents with
  | .sint32 type v l =>
    if type = .counter ∧ t = .minimumThreshold then (s, .minimumThresholdNotSupported)
    else
      match t, value with
      | .other _, _ => (s, .success)
      | _, .signedInt w =>
        (s.setObject i { o with contents := .sint32 type (l.put v t w).2 (l.put v t w).1 }, .success)
      | _, _ => (s, .wrongValueType)
  | .uint32 type v l =>
    if type = .counter ∧ t = .minimumThreshold then (s, .minimumThresholdNotSupported)
    else
      match t, value with
      | .other _, _ => (s, .success)
      | _, .unsignedInt w =>
        (s.setObject i { o with contents := .uint32 type (l.put v t w).2 (l.put v t w).1 }, .success)
      | _, _ => (s, .wrongValueType)
  | .string _ | .timer _ | .log _ => (s, .thresholdNotSupported)

/-- `MM_getValueByHandle`. -/
def getValueByHandle (mem : Memory) (o : ManagableObject) : Except ReturnCode Value :=
  match o.contents with
  | .sint32 _ v _ => .ok (.signedInt v)
  | .uint32 _ v _ => .ok (.unsignedInt v)
  | .string v => if mem.stringCopy then .ok (.string v) else .error .resourceError
  | .timer _ | .log _ => .error .wrongObjectType

/-- The test for a value-changed event: the number of the bit is taken for a mask. -/
def ManagableObject.notifiesValueChange (o : ManagableObject) : Bool :=
  o.notificationTypes &&& notificationTypeValueChange ≠ 0

/-- A value-changed event, where the object asks for it. -/
def notifyValueChange (mem : Memory) (s : State) (o : ManagableObject) (eventType : EventType) :
    State × ReturnCode :=
  if o.notifiesValueChange then generateEvent s eventType o mem.event else (s, .success)

/-- The call of the function that has been registered for the object. -/
def callValueChanged (i : ObjectId) (o : ManagableObject) (value : Value) : List Out :=
  if o.pfValueChanged then [.valueChanged i value] else []

/-- `MM_setValueByHandle` on an object with a number: the function is called for every new value,
with the one of the caller. -/
def setNumber (mem : Memory) (s : State) (i : ObjectId) (o : ManagableObject) (changed : Bool)
    (contents : Contents) (eventType : EventType) (value : Value) : Ret :=
  let r := if changed then
      notifyValueChange mem (s.setObject i { o with contents }) { o with contents } eventType
    else (s, .success)
  if r.2 ≠ .success then ⟨r.1, r.2, []⟩ else ⟨r.1, .success, callValueChanged i o value⟩

/-- `MM_setValueByHandle`. -/
def setValueByHandle (mem : Memory) (s : State) (i : ObjectId) (o : ManagableObject) (value : Value) :
    Ret :=
  match o.contents with
  | .sint32 type v l =>
    match value with
    | .signedInt w =>
      setNumber mem s i o (v ≠ w) (.sint32 type (l.clamp w) l) .valueChangedSigned value
    | _ => { state := s, rc := .wrongValueType }
  | .uint32 type v l =>
    match value with
    | .unsignedInt w =>
      setNumber mem s i o (v ≠ w) (.uint32 type (l.clamp w) l) .valueChangedUnsigned value
    | _ => { state := s, rc := .wrongValueType }
  | .string v =>
    match value with
    | .string w =>
      if v = w then { state := s, rc := .success }
      else if mem.storeCopy = false then { state := s, rc := .resourceError }
      else setNumber mem s i o true (.string w) .valueChangedString value
    | _ => { state := s, rc := .wrongValueType }
  | .timer _ | .log _ => { state := s, rc := .wrongObjectType }

/-- The event for a threshold that is exceeded or reentered, by the sign of the increment. -/
def crossing (up was is : Bool) (maxExceeded minExceeded minReentered maxReentered : EventType) :
    Option EventType :=
  if was && !is then some (if up then maxExceeded else minExceeded)
  else if !was && is then some (if up then minReentered else maxReentered)
  else none

/-- `MM_incrementValue` once the new value is known: the value-changed event, then that of a
threshold. -/
def incremented (mem : Memory) (s : State) (i : ObjectId) (o : ManagableObject) (contents : Contents)
    (changed : EventType) (crossed : Option EventType) (value : Value) : Ret :=
  let o := { o with contents }
  let r := notifyValueChange mem (s.setObject i o) o changed
  if r.2 ≠ .success then { state := r.1, rc := r.2 }
  else
    let r := match crossed with
      | none => r
      | some eventType => generateEvent r.1 eventType o mem.event2
    if r.2 ≠ .success then { state := r.1, rc := r.2 }
    else ⟨r.1, .success, callValueChanged i o value⟩

/-- `MM_incrementValue`. -/
def incrementValue (mem : Memory) (s : State) (i : ObjectId) (o : ManagableObject)
    (incrementBy : Int32) : Ret :=
  match o.contents with
  | .sint32 type v l =>
    if incrementBy = 0 then { state := s, rc := .success }
    else
      let w := l.clamp (v + incrementBy)
      incremented mem s i o (.sint32 type w l) .valueChangedSigned
        (crossing (0 < incrementBy) (l.within v) (l.within w) .maxThresholdExceededSigned
          .minThresholdExceededSigned .minThresholdReenteredSigned .maxThresholdReenteredSigned)
        (.signedInt w)
  | .uint32 type v l =>
    if incrementBy = 0 then { state := s, rc := .success }
    else
      let w := l.clamp (v + incrementBy.toUInt32)
      incremented mem s i o (.uint32 type w l) .valueChangedUnsigned
        (crossing (0 < incrementBy) (l.within v) (l.within w) .maxThresholdExceededUnsigned
          .minThresholdExceededUnsigned .minThresholdReenteredUnsigned .maxThresholdReenteredUnsigned)
        (.unsignedInt w)
  | .string _ | .timer _ | .log _ => { state := s, rc := .incrementNotSupported }

/-! ## Timers and logs -/

/-- `TMR_start`, with the handle that it sets. -/
def Timers.start (t : Timers) (milliseconds : UInt32) : Timers :=
  { handle := some t.next
    running := t.running ++ [(t.next, milliseconds)]
    next := t.next + 1 }

/-- A timer is taken out of the queue. -/
def Timers.remove (t : Timers) (id : TimerId) : Timers :=
  { t with running := t.running.filter (·.1 ≠ id) }

/-- `MM_startTimerByHandle`: a timer that already runs is not stopped. -/
def startTimerByHandle (mem : Memory) (s : State) (i : ObjectId) (o : ManagableObject)
    (milliseconds : UInt32) : State × ReturnCode :=
  match o.contents with
  | .timer t =>
    if mem.tmrStart = false then (s, .resourceError)
    else (s.setObject i { o with contents := .timer (t.start milliseconds) }, .success)
  | _ => (s, .wrongObjectType)

/-- `MM_stopTimerByHandle`. The handle is kept; a timer that has been stopped already is freed memory
to `TMR_stop`, which has no result then. -/
def stopTimerByHandle (s : State) (i : ObjectId) (o : ManagableObject) :
    Option (State × ReturnCode) :=
  match o.contents with
  | .timer t =>
    match t.handle with
    | none => some (s, .success)
    | some id =>
      if t.running.any (·.1 = id) then
        some (s.setObject i { o with contents := .timer (t.remove id) }, .success)
      else none
  | _ => some (s, .wrongObjectType)

/-- The timer `id` runs for the object. -/
def ManagableObject.runs (o : ManagableObject) (id : TimerId) : Bool :=
  match o.contents with
  | .timer t => t.running.any (·.1 = id)
  | _ => false

/-- `timerExpiry`, for the timer `id` of an object. -/
def timerExpiry (mem : Memory) (s : State) (i : ObjectId) (o : ManagableObject) (id : TimerId) :
    State × ReturnCode :=
  match o.contents with
  | .timer t =>
    let o := { o with contents := .timer { t.remove id with handle := none } }
    generateEvent (s.setObject i o) .timerExpired o mem.event
  | _ => (s, .success)

/-- `MM_logMessage`, with the message that it has written to `pBuf`. -/
def logMessage (mem : Memory) (s : State) (i : ObjectId) (o : ManagableObject) (pBuf : ZString) :
    State × ReturnCode :=
  match o.contents with
  | .log _ =>
    let o := { o with contents := .log (some pBuf) }
    generateEvent (s.setObject i o) .logMessage o mem.event
  | _ => (s, .wrongObjectType)

/-! ## Masks -/

/-- `MM_getManagableObjectNotifyMaskByHandle`. -/
def getManagableObjectNotifyMaskByHandle (o : ManagableObject) : UInt32 := o.notificationTypes

/-- `MM_setManagableObjectNotifyMaskByHandle`. -/
def setManagableObjectNotifyMaskByHandle (s : State) (i : ObjectId) (o : ManagableObject)
    (notifyMask : UInt32) : State × ReturnCode :=
  (s.setObject i { o with notificationTypes := notifyMask }, .success)

/-- `MM_getDestinationMasksByHandle`. -/
def getDestinationMasksByHandle (d : Destination) : UInt32 × UInt32 := (d.notifyMask, d.eventMask)

/-- `MM_setDestinationMasksByHandle`. -/
def setDestinationMasksByHandle (s : State) (i : DestinationId) (d : Destination)
    (newNotifyMask newEventMask : UInt32) : State × ReturnCode :=
  (s.setDestination i { d with notifyMask := newNotifyMask, eventMask := newEventMask }, .success)

/-! ## Names -/

/-- `mm_findApplicationEntityInstance`. -/
def findApplicationEntityInstance (s : State) (pName : ZString) : Option EntityId :=
  s.applicationEntityInstances.findIdx? (· = pName)

/-- `mm_findModule`. -/
def findModule (s : State) (pModuleName : ZString) (e : EntityId) : Option ModuleId :=
  s.modules.findIdx? fun m => m.pApplicationEntityInstance = e && m.pName = pModuleName

/-- `mm_findObject`. -/
def findObject (s : State) (pManagableObjectName : ZString) (m : ModuleId) : Option ObjectId :=
  s.managableObjects.findIdx? fun o => o.pModule = m && o.pName = pManagableObjectName

/-- `mm_findDestination`. -/
def findDestination (s : State) (pDestinationName : ZString) (e : EntityId) :
    Option DestinationId :=
  s.destinations.findIdx? fun d => d.pApplicationEntityInstance = e && d.pName = pDestinationName

/-! ## Registration -/

/-- `MM_entityInit`. -/
def entityInit (s : State) (pApplicationEntityInstanceName : ZString) : State :=
  { s with
    applicationEntityInstances := s.applicationEntityInstances ++ [pApplicationEntityInstanceName] }

/-- `MM_registerModule`. -/
def registerModule (mem : Memory) (s : State) (e : EntityId) (pModuleName : ZString) :
    State × ReturnCode :=
  if (findModule s pModuleName e).isSome then (s, .nameAlreadyInUse)
  else if mem.register = false then (s, .resourceError)
  else ({ s with modules := s.modules ++ [⟨pModuleName, e⟩] }, .success)

/-- The value and the bounds that an object of a type begins with. -/
def ManagableObjectType.initial : ManagableObjectType → Contents
  | counterSigned => .sint32 .counter 0 signedLimits
  | gaugeSigned => .sint32 .gauge 0 signedLimits
  | counterUnsigned => .uint32 .counter 0 unsignedLimits
  | gaugeUnsigned => .uint32 .gauge 0 unsignedLimits
  | string => .string .empty
  | timer => .timer {}
  | log => .log none
where
  signedLimits : Limits Int32 := ⟨-2147483648, 2147483647, -2147483648, 2147483647⟩
  unsignedLimits : Limits UInt32 := ⟨0, 4294967295, 0, 4294967295⟩

/-- `MM_registerManagableObject`. A failure of the event is not looked at. -/
def registerManagableObject (mem : Memory) (s : State) (pModule : ModuleId)
    (managableObjectType : ManagableObjectType) (pManagableObjectName pDescription : ZString)
    (accessByName : UInt8) (initialNotifyMask : UInt32) (pfValueChanged : Bool) :
    State × ReturnCode :=
  if (findObject s pManagableObjectName pModule).isSome then (s, .nameAlreadyInUse)
  else if mem.register = false then (s, .resourceError)
  else
    let o : ManagableObject :=
      { pName := pManagableObjectName
        pDescription
        notificationTypes := initialNotifyMask
        pModule
        accessByName
        pfValueChanged
        contents := managableObjectType.initial }
    let s := { s with managableObjects := s.managableObjects ++ [o] }
    ((generateEvent s .managableObjectChange o mem.event).1, .success)

/-- `MM_registerDestination`. -/
def registerDestination (mem : Memory) (s : State) (e : EntityId)
    (pDestinationName pDescription : ZString) (accessByName : UInt8)
    (initialNotifyMask initialEventMask : UInt32) : State × ReturnCode :=
  if (findDestination s pDestinationName e).isSome then (s, .nameAlreadyInUse)
  else if mem.register = false then (s, .resourceError)
  else
    ({ s with
      destinations := s.destinations ++
        [⟨pDestinationName, pDescription, e, accessByName, initialNotifyMask, initialEventMask⟩] },
      .success)

end Mm
