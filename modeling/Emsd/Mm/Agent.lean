import Emsd.Mm.Entity

/-!
# The management agent (`mm_/hosted/agent.c`)

A request of a remote manager names an object or a destination; the functions that take names look it
up and check its `accessByName`. `agentProcessEvent` parses a request, carries it out and sends a
result or an error.
-/

namespace Mm

open Ocp

/-- `MM_RemoteOperationValue`, the requests. -/
inductive RemOp
  | getValue
  | setValue
  | getThreshold
  | setThreshold
  | startTimer
  | stopTimer
  | getApplicationEntityList
  | getModuleList
  | getManagableObjectList
  | getManagableObjectInfo
  | getManagableObjectNotifyMask
  | setManagableObjectNotifyMask
  | getDestinationList
  | getDestinationMasks
  | setDestinationMasks
  deriving DecidableEq, Repr

/-- The operations by their values, from 1 on. -/
def RemOp.all : List RemOp :=
  [getValue, setValue, getThreshold, setThreshold, startTimer, stopTimer, getApplicationEntityList,
    getModuleList, getManagableObjectList, getManagableObjectInfo, getManagableObjectNotifyMask,
    setManagableObjectNotifyMask, getDestinationList, getDestinationMasks, setDestinationMasks]

/-- A known operation value: not below 1, and below `MM_RemOp_MAX`. -/
def RemOp.ofInt (operationValue : Int) : Option RemOp :=
  if operationValue ≤ 0 then none else RemOp.all[operationValue.toNat - 1]?

/-- The operation has a result PDU: `pfCompRes` of `mm_protocols`. -/
def RemOp.hasResult : RemOp → Bool
  | setValue | setThreshold | startTimer | stopTimer | setManagableObjectNotifyMask
  | setDestinationMasks => false
  | _ => true

/-- `MM_RemoteOperationType`. -/
inductive RemOpType
  | request
  | result
  | event
  | error
  | failure
  | other (n : Nat)
  deriving DecidableEq, Repr

/-- `MM_ASNValue`: the choice with its alternative. -/
inductive AsnValue
  | signedInt (v : Int32)
  | unsignedInt (v : UInt32)
  | string (s : Option Octets)
  | other (choice : UInt8)
  deriving DecidableEq, Repr

/-- `MM_Protocol`. The names are null in a structure of zeros. -/
structure Protocol where
  hApplicationEntityInstanceName : Option Octets := none
  hModuleName : Option Octets := none
  hManagableObjectName : Option Octets := none
  hDestinationName : Option Octets := none
  hString : Option Octets := none
  thresholdType : UInt32 := 0
  milliseconds : UInt32 := 0
  objectType : UInt32 := 0
  notifyMask : UInt32 := 0
  eventMask : UInt32 := 0
  value : AsnValue := .signedInt 0
  deriving DecidableEq, Repr

/-- How the calls of one request turn out. -/
structure Env extends Memory where
  /-- `OS_allocStringNCopy` for the names -/
  names : Bool := true
  /-- `OS_alloc` for a list, `OS_allocStringCopy` for a description -/
  list : Bool := true
  /-- `STR_attachZString`, `STR_attachString` -/
  attach : Bool := true
  /-- `BUF_alloc` for the result -/
  resultBuf : Bool := true
  /-- `ASN_format` -/
  asnFormat : Bool := true
  /-- `BUF_alloc` and `BUF_addOctet` for the error -/
  errorBuf : Bool := true
  /-- The local variable `value`, which is not initialised; `none` is one of no type. -/
  stale : Option Value := none
  /-- The octet in memory behind an allocated list. -/
  behind : UInt8 := 0
  deriving DecidableEq, Repr

def canRead (accessByName : UInt8) : Bool := accessByName &&& accessByNameRead ≠ 0

def canWrite (accessByName : UInt8) : Bool := accessByName &&& accessByNameWrite ≠ 0

/-! ## The functions that take names -/

/-- The object of a name, with the checks that every function makes. -/
def objectByName (s : State) (a m n : ZString) : Except ReturnCode (ObjectId × ManagableObject) :=
  match findApplicationEntityInstance s a with
  | none => .error .noSuchApplicationEntityInstance
  | some e =>
    match findModule s m e with
    | none => .error .noSuchModule
    | some k =>
      match findObject s n k with
      | none => .error .noSuchManagableObject
      | some i =>
        match s.managableObjects[i]? with
        | none => .error .noSuchManagableObject
        | some o => .ok (i, o)

/-- The destination of a name. -/
def destinationByName (s : State) (a n : ZString) : Except ReturnCode (DestinationId × Destination) :=
  match findApplicationEntityInstance s a with
  | none => .error .noSuchApplicationEntityInstance
  | some e =>
    match findDestination s n e with
    | none => .error .noSuchDestination
    | some i =>
      match s.destinations[i]? with
      | none => .error .noSuchDestination
      | some d => .ok (i, d)

/-- A change of the object of a name. -/
def onObject (s : State) (a m n : ZString) (f : ObjectId → ManagableObject → Ret) : Ret :=
  match objectByName s a m n with
  | .error rc => { state := s, rc }
  | .ok (i, o) => f i o

/-- `getValueByName`. -/
def getValueByName (mem : Memory) (s : State) (a m n : ZString) :
    Except ReturnCode (ManagableObjectType × Value) :=
  (objectByName s a m n).bind fun r =>
    if canRead r.2.accessByName = false then .error .byNameReadAccessDenied
    else (getValueByHandle mem r.2).map fun v => (r.2.contents.objectType, v)

/-- `setValueByName`. -/
def setValueByName (mem : Memory) (s : State) (a m n : ZString) (objectType : ManagableObjectType)
    (value : Value) : Ret :=
  onObject s a m n fun i o =>
    if objectType ≠ o.contents.objectType then { state := s, rc := .wrongObjectType }
    else if canWrite o.accessByName = false then { state := s, rc := .byNameWriteAccessDenied }
    else setValueByHandle mem s i o value

/-- `getThresholdByName`. -/
def getThresholdByName (s : State) (a m n : ZString) (t : ThresholdType) :
    Except ReturnCode (ManagableObjectType × Option Value) :=
  (objectByName s a m n).bind fun r =>
    if canRead r.2.accessByName = false then .error .byNameReadAccessDenied
    else (getThresholdByHandle r.2 t).map fun v => (r.2.contents.objectType, v)

/-- `setThresholdByName`: only the thresholds can be set by name. -/
def setThresholdByName (s : State) (a m n : ZString) (t : ThresholdType)
    (objectType : ManagableObjectType) (value : Value) : Ret :=
  if t ≠ .minimumThreshold ∧ t ≠ .maximumThreshold then { state := s, rc := .invalidThresholdType }
  else onObject s a m n fun i o =>
    if objectType ≠ o.contents.objectType then { state := s, rc := .wrongObjectType }
    else if canWrite o.accessByName = false then { state := s, rc := .byNameWriteAccessDenied }
    else
      let r := setThresholdByHandle s i o t value
      { state := r.1, rc := r.2 }

/-- `startTimerByName`. -/
def startTimerByName (mem : Memory) (s : State) (a m n : ZString) (milliseconds : UInt32) : Ret :=
  onObject s a m n fun i o =>
    if canWrite o.accessByName = false then { state := s, rc := .byNameWriteAccessDenied }
    else
      let r := startTimerByHandle mem s i o milliseconds
      { state := r.1, rc := r.2 }

/-- `stopTimerByName`. -/
def stopTimerByName (s : State) (a m n : ZString) : Option Ret :=
  match objectByName s a m n with
  | .error rc => some { state := s, rc }
  | .ok (i, o) =>
    if canWrite o.accessByName = false then some { state := s, rc := .byNameWriteAccessDenied }
    else (stopTimerByHandle s i o).map fun r => { state := r.1, rc := r.2 }

/-- `getManagableObjectNotifyMaskByName`. -/
def getManagableObjectNotifyMaskByName (s : State) (a m n : ZString) : Except ReturnCode UInt32 :=
  (objectByName s a m n).map fun r => getManagableObjectNotifyMaskByHandle r.2

/-- `setManagableObjectNotifyMaskByName`. -/
def setManagableObjectNotifyMaskByName (s : State) (a m n : ZString) (notifyMask : UInt32) : Ret :=
  onObject s a m n fun i o =>
    let r := setManagableObjectNotifyMaskByHandle s i o notifyMask
    { state := r.1, rc := r.2 }

/-- `getDestinationMasksByName`. -/
def getDestinationMasksByName (s : State) (a n : ZString) : Except ReturnCode (UInt32 × UInt32) :=
  (destinationByName s a n).bind fun r =>
    if canRead r.2.accessByName = false then .error .byNameReadAccessDenied
    else .ok (getDestinationMasksByHandle r.2)

/-- `setDestinationMasksByName`: it is the read access that is checked. -/
def setDestinationMasksByName (s : State) (a n : ZString) (newNotifyMask newEventMask : UInt32) :
    Ret :=
  match destinationByName s a n with
  | .error rc => { state := s, rc }
  | .ok (i, d) =>
    if canRead d.accessByName = false then { state := s, rc := .byNameReadAccessDenied }
    else
      let r := setDestinationMasksByHandle s i d newNotifyMask newEventMask
      { state := r.1, rc := r.2 }

/-! ## Lists of names -/

/-- The length of octets that are attached as a string: an `OS_Uint16`, or that up to the first null for
the one that means a null-terminated string. -/
def attachedLength (octets : Octets) : ℕ :=
  let len := octets.length % 2 ^ 16
  if len = lenZString then (octets.takeWhile (· ≠ 0)).length % 2 ^ 16 else len

/-- The octets of a list that the agent sends. It looks for the end at the first empty name, and counts
two octets more, of which the list has only one. -/
def listOctets (env : Env) (names : List ZString) : Octets :=
  let octets := (names.takeWhile (·.1 ≠ [])).flatMap (fun n => n.1 ++ [0]) ++ [0, env.behind]
  octets.take (attachedLength octets)

/-- `getApplicationEntityInstanceList`. -/
def getApplicationEntityInstanceList (s : State) : List ZString := s.applicationEntityInstances

/-- `getModuleList`. -/
def getModuleList (s : State) (a : ZString) : Except ReturnCode (List ZString) :=
  match findApplicationEntityInstance s a with
  | none => .error .noSuchApplicationEntityInstance
  | some e => .ok ((s.modules.filter (·.pApplicationEntityInstance = e)).map (·.pName))

/-- `getManagableObjectList`. -/
def getManagableObjectList (s : State) (a m : ZString) : Except ReturnCode (List ZString) :=
  match findApplicationEntityInstance s a with
  | none => .error .noSuchApplicationEntityInstance
  | some e =>
    match findModule s m e with
    | none => .error .noSuchModule
    | some k =>
      .ok ((s.managableObjects.filter fun o =>
        o.pModule = k && o.accessByName &&& accessByNameReadWrite ≠ 0).map (·.pName))

/-- `getManagableObjectInfo`: the type and the description, which is empty without any access. -/
def getManagableObjectInfo (s : State) (a m n : ZString) :
    Except ReturnCode (ManagableObjectType × ZString) :=
  (objectByName s a m n).map fun r =>
    (r.2.contents.objectType,
      if r.2.accessByName &&& accessByNameReadWrite = 0 then .empty
      else r.2.pDescription)

/-- `getDestinationList`. -/
def getDestinationList (s : State) (a : ZString) : Except ReturnCode (List ZString) :=
  match findApplicationEntityInstance s a with
  | none => .error .noSuchApplicationEntityInstance
  | some e =>
    .ok ((s.destinations.filter fun d =>
      d.pApplicationEntityInstance = e && d.accessByName &&& accessByNameReadWrite ≠ 0).map (·.pName))

/-! ## The operations -/

def ManagableObjectType.toUInt32 : ManagableObjectType → UInt32
  | counterSigned => 0
  | counterUnsigned => 1
  | gaugeSigned => 2
  | gaugeUnsigned => 3
  | string => 4
  | timer => 5
  | log => 6

/-- What an operation leaves behind: the structure `result`, or the code for the error. -/
structure Exec where
  state : State
  reply : Except ReturnCode Protocol
  out : List Out := []

/-- An operation that only reads. -/
def Exec.read {α : Type} (s : State) (r : Except ReturnCode α) (f : α → Protocol) : Exec :=
  { state := s, reply := r.map f }

/-- An operation without result parameters. -/
def Exec.ofRet (r : Ret) : Exec :=
  { state := r.state
    reply := if r.rc = .success then .ok {} else .error r.rc
    out := r.out }

/-- `STR_attachString`, or the error. -/
def attach (env : Env) (p : Protocol) : Except ReturnCode Protocol :=
  if env.attach then .ok p else .error .resourceError

/-- `MM_RemOp_GetValue`. -/
def agentGetValue (env : Env) (s : State) (a m n : ZString) : Exec :=
  { state := s
    reply := (getValueByName env.toMemory s a m n).bind fun r =>
      match r.2 with
      | .signedInt v => .ok { value := .signedInt v }
      | .unsignedInt v => .ok { value := .unsignedInt v }
      | .string v => attach env { value := .string (some v.1) } }

/-- The value of a request, in the type of the object's own value; `none` where a string handle that
is null is followed. -/
def requestValue (own : Value) (request : AsnValue) : Option (Except ReturnCode Value) :=
  match own, request with
  | .signedInt _, .signedInt v => some (.ok (.signedInt v))
  | .unsignedInt _, .unsignedInt v => some (.ok (.unsignedInt v))
  | .string _, .string (some v) => some (.ok (.string (.ofOctets v)))
  | .string _, .string none => none
  | _, _ => some (.error .wrongValueType)

/-- `MM_RemOp_SetValue`: the value is read first, for its type. -/
def agentSetValue (env : Env) (s : State) (a m n : ZString) (request : AsnValue) : Option Exec :=
  match getValueByName env.toMemory s a m n with
  | .error rc => some { state := s, reply := .error rc }
  | .ok (objectType, own) =>
    (requestValue own request).map fun v =>
      match v with
      | .error rc => { state := s, reply := .error rc }
      | .ok v => .ofRet (setValueByName env.toMemory s a m n objectType v)

/-- `MM_RemOp_GetThreshold`. What it has got it stores in `request`, not in `result`. -/
def agentGetThreshold (env : Env) (s : State) (a m n : ZString) (t : ThresholdType) : Exec :=
  { state := s
    reply := (getThresholdByName s a m n t).bind fun r =>
      match r.2.or env.stale with
      | some (.signedInt _) | some (.unsignedInt _) => .ok {}
      | _ => .error .wrongObjectType }

/-- `MM_RemOp_SetThreshold`. -/
def agentSetThreshold (env : Env) (s : State) (a m n : ZString) (t : ThresholdType)
    (request : AsnValue) : Exec :=
  match getThresholdByName s a m n t with
  | .error rc => { state := s, reply := .error rc }
  | .ok (objectType, own) =>
    match own.or env.stale, request with
    | some (.signedInt _), .signedInt v =>
      .ofRet (setThresholdByName s a m n t objectType (.signedInt v))
    | some (.unsignedInt _), .unsignedInt v =>
      .ofRet (setThresholdByName s a m n t objectType (.unsignedInt v))
    | some (.signedInt _), _ | some (.unsignedInt _), _ =>
      { state := s, reply := .error .wrongValueType }
    | _, _ => { state := s, reply := .error .wrongObjectType }

/-- The operations that send a list. -/
def agentList (env : Env) (s : State) (r : Except ReturnCode (List ZString)) : Exec :=
  { state := s
    reply := r.bind fun names =>
      if env.list = false then .error .resourceError
      else attach env { hString := some (listOctets env names) } }

/-- `MM_RemOp_GetManagableObjectInfo`. -/
def agentGetManagableObjectInfo (env : Env) (s : State) (a m n : ZString) : Exec :=
  { state := s
    reply := (getManagableObjectInfo s a m n).bind fun r =>
      if env.list = false then .error .resourceError
      else attach env { objectType := r.1.toUInt32, hString := some r.2.1 } }

/-- A name of the request, copied; there is no result where the handle is null, or the copy. -/
def copyName (env : Env) (h : Option Octets) : Option ZString :=
  if env.names then h.map .ofOctets else none

/-- The part of `MM_agentProcessEvent` that carries out the operation. -/
def execute (env : Env) (s : State) (op : RemOp) (request : Protocol) : Option Exec :=
  match op with
  | .getApplicationEntityList =>
    some (agentList env s (.ok (getApplicationEntityInstanceList s)))
  | .getModuleList => do
    let a ← copyName env request.hApplicationEntityInstanceName
    some (agentList env s (getModuleList s a))
  | .getDestinationList => do
    let a ← copyName env request.hApplicationEntityInstanceName
    some (agentList env s (getDestinationList s a))
  | .getManagableObjectList => do
    let a ← copyName env request.hApplicationEntityInstanceName
    let m ← copyName env request.hModuleName
    some (agentList env s (getManagableObjectList s a m))
  | .getDestinationMasks => do
    let a ← copyName env request.hApplicationEntityInstanceName
    let n ← copyName env request.hDestinationName
    some (.read s (getDestinationMasksByName s a n) fun r =>
      { notifyMask := r.1, eventMask := r.2 })
  | .setDestinationMasks => do
    let a ← copyName env request.hApplicationEntityInstanceName
    let n ← copyName env request.hDestinationName
    -- the masks are taken from `result`, which is all zeros
    some (.ofRet (setDestinationMasksByName s a n 0 0))
  | op => do
    let a ← copyName env request.hApplicationEntityInstanceName
    let m ← copyName env request.hModuleName
    let n ← copyName env request.hManagableObjectName
    match op with
    | .getValue => some (agentGetValue env s a m n)
    | .setValue => agentSetValue env s a m n request.value
    | .getThreshold => some (agentGetThreshold env s a m n (.ofUInt32 request.thresholdType))
    | .setThreshold =>
      some (agentSetThreshold env s a m n (.ofUInt32 request.thresholdType) request.value)
    | .startTimer => some (.ofRet (startTimerByName env.toMemory s a m n request.milliseconds))
    | .stopTimer => (stopTimerByName s a m n).map .ofRet
    | .getManagableObjectInfo => some (agentGetManagableObjectInfo env s a m n)
    | .getManagableObjectNotifyMask =>
      some (.read s (getManagableObjectNotifyMaskByName s a m n) fun r => { notifyMask := r })
    | _ => some (.ofRet (setManagableObjectNotifyMaskByName s a m n request.notifyMask))

/-! ## Replies and clean-up -/

/-- The handle of an operation, often its invoke identifier. -/
abbrev OperationHandle := Nat

/-- A PDU that is given to `pfRemoteOperationSend`. -/
inductive Pdu
  | result (phOperation : OperationHandle) (op : RemOp) (result : Option Protocol)
  | error (phOperation : OperationHandle) (op : RemOp) (errorVal : ReturnCode)
  deriving DecidableEq, Repr

/-- Memory that a request takes, by the variable that holds it. -/
inductive Resource
  | pApplicationName
  | pModuleName
  | pObjectName
  | pDestinationName
  | hResultBuf
  | requestString (i : Fin 5)
  | resultString (i : Fin 5)
  deriving DecidableEq, Repr

/-- The strings of a `MM_Protocol` that are not null, in the order of the clean-up. -/
def Protocol.strings (p : Protocol) : List (Fin 5) :=
  [(0, p.hApplicationEntityInstanceName), (1, p.hModuleName), (2, p.hManagableObjectName),
    (3, p.hDestinationName), (4, p.hString)].filterMap fun r => r.2.map fun _ => r.1

/-- The names that an operation copies. -/
def RemOp.names : RemOp → List Resource
  | getApplicationEntityList => []
  | getModuleList | getDestinationList => [.pApplicationName]
  | getManagableObjectList => [.pApplicationName, .pModuleName]
  | getDestinationMasks | setDestinationMasks => [.pApplicationName, .pDestinationName]
  | _ => [.pApplicationName, .pModuleName, .pObjectName]

/-- The local variables that the clean-up looks at. -/
structure Locals where
  /-- The array `protocol`; `none` before it is set to zeros. -/
  protocol : Option (Protocol × Protocol) := none
  names : List Resource := []
  hResultBuf : Bool := false

/-- The clean-up: what is freed, `none` where pointers are freed that have never been written. The name
of a destination is not freed. -/
def Locals.cleanUp (l : Locals) : Option (List Resource) :=
  l.protocol.map fun p =>
    (if l.hResultBuf then [.hResultBuf] else []) ++ l.names.filter (· ≠ .pDestinationName) ++
      p.1.strings.map .requestString ++ p.2.strings.map .resultString

/-- What a request leads to. -/
structure Outcome where
  state : State
  sent : List Pdu
  freed : Option (List Resource)
  acquired : List Resource
  out : List Out := []

/-- `agentErrorResponse`. -/
def agentErrorResponse (env : Env) (phOperation : OperationHandle) (op : RemOp) (rc : ReturnCode) :
    List Pdu :=
  if env.errorBuf then [.error phOperation op rc] else []

/-- The end of `MM_agentProcessEvent` after an operation that has succeeded: whether a buffer has been
allocated for the result, and what is sent. -/
def agentResult (env : Env) (phOperation : OperationHandle) (op : RemOp) (result : Protocol) :
    Bool × List Pdu :=
  if op.hasResult then
    if env.resultBuf = false then (false, [])
    else if env.asnFormat = false then (true, [])
    else (true, [.result phOperation op (some result)])
  else (false, [.result phOperation op none])

/-- `MM_agentProcessEvent`. `parsed` is what `ASN_parse` makes of the buffer: the structure `request`,
and whether it has succeeded. There is no result where a null pointer is followed, or a timer that is
gone. -/
def agentProcessEvent (env : Env) (s : State) (operationType : RemOpType) (operationValue : Int)
    (phOperation : OperationHandle) (parsed : Protocol × Bool) : Option Outcome :=
  if operationType ≠ .request then
    some { state := s, sent := [], freed := ({} : Locals).cleanUp, acquired := [] }
  else
    match RemOp.ofInt operationValue with
    | none => some { state := s, sent := [], freed := ({} : Locals).cleanUp, acquired := [] }
    | some op =>
      let request := parsed.1
      let strings := request.strings.map .requestString
      if parsed.2 = false then
        some
          { state := s
            sent := []
            freed := ({ protocol := some (request, {}) } : Locals).cleanUp
            acquired := strings }
      else do
        let x ← execute env s op request
        match x.reply with
        | .error rc =>
          some
            { state := x.state
              sent := agentErrorResponse env phOperation op rc
              freed := ({ protocol := some (request, {}), names := op.names } : Locals).cleanUp
              acquired := strings ++ op.names
              out := x.out }
        | .ok result =>
          let r := agentResult env phOperation op result
          some
            { state := x.state
              sent := r.2
              freed := ({ protocol := some (request, result), names := op.names, hResultBuf := r.1 } :
                Locals).cleanUp
              acquired := strings ++ op.names ++ result.strings.map .resultString ++
                if r.1 then [.hResultBuf] else []
              out := x.out }

end Mm
