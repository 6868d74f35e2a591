import Emsd.Mm.Agent
import Emsd.Lib.Run

/-!
# A program that is managed

The calls of a program into the module: registrations, changes of its objects, and the expiry of its
timers; and the requests that its agent gets. What can be reached from nothing by these is what the
results about the agent are about.
-/

namespace Mm

open Ocp

/-- A call of a program, with the handles that it has got. -/
inductive Call
  | entityInit (pApplicationEntityInstanceName : ZString)
  | registerModule (e : EntityId) (pModuleName : ZString)
  | registerManagableObject (m : ModuleId) (managableObjectType : ManagableObjectType)
    (pManagableObjectName pDescription : ZString) (accessByName : UInt8) (initialNotifyMask : UInt32)
    (pfValueChanged : Bool)
  | registerDestination (e : EntityId) (pDestinationName pDescription : ZString)
    (accessByName : UInt8) (initialNotifyMask initialEventMask : UInt32)
  | setValue (i : ObjectId) (value : Value)
  | incrementValue (i : ObjectId) (incrementBy : Int32)
  | setThreshold (i : ObjectId) (t : ThresholdType) (value : Value)
  | startTimer (i : ObjectId) (milliseconds : UInt32)
  | stopTimer (i : ObjectId)
  | timerExpiry (i : ObjectId) (id : TimerId)
  | logMessage (i : ObjectId) (pBuf : ZString)
  | setNotifyMask (i : ObjectId) (notifyMask : UInt32)
  | setDestinationMasks (d : DestinationId) (newNotifyMask newEventMask : UInt32)
  deriving DecidableEq, Repr

def Ret.of (r : State × ReturnCode) : Ret := { state := r.1, rc := r.2 }

/-- One call. There is no result where a handle is that of nothing, or a timer does not run. -/
def Call.run (mem : Memory) (s : State) : Call → Option Ret
  | entityInit pName => some { state := Mm.entityInit s pName, rc := .success }
  | registerModule e pModuleName =>
    if e < s.applicationEntityInstances.length then some (.of (Mm.registerModule mem s e pModuleName))
    else none
  | registerManagableObject m type pName pDescription accessByName initialNotifyMask pfValueChanged =>
    if m < s.modules.length then
      some (.of (Mm.registerManagableObject mem s m type pName pDescription accessByName
        initialNotifyMask pfValueChanged))
    else none
  | registerDestination e pName pDescription accessByName initialNotifyMask initialEventMask =>
    if e < s.applicationEntityInstances.length then
      some (.of (Mm.registerDestination mem s e pName pDescription accessByName initialNotifyMask
        initialEventMask))
    else none
  | setValue i value => (s.managableObjects[i]?).map fun o => setValueByHandle mem s i o value
  | incrementValue i incrementBy =>
    (s.managableObjects[i]?).map fun o => Mm.incrementValue mem s i o incrementBy
  | setThreshold i t value =>
    (s.managableObjects[i]?).map fun o => .of (setThresholdByHandle s i o t value)
  | startTimer i milliseconds =>
    (s.managableObjects[i]?).map fun o => .of (startTimerByHandle mem s i o milliseconds)
  | stopTimer i =>
    (s.managableObjects[i]?).bind fun o => (stopTimerByHandle s i o).map .of
  | timerExpiry i id =>
    ((s.managableObjects[i]?).filter (·.runs id)).map fun o => .of (Mm.timerExpiry mem s i o id)
  | logMessage i pBuf => (s.managableObjects[i]?).map fun o => .of (Mm.logMessage mem s i o pBuf)
  | setNotifyMask i notifyMask =>
    (s.managableObjects[i]?).map fun o => .of (setManagableObjectNotifyMaskByHandle s i o notifyMask)
  | setDestinationMasks i newNotifyMask newEventMask =>
    (s.destinations[i]?).map fun d =>
      .of (setDestinationMasksByHandle s i d newNotifyMask newEventMask)

/-- A request that the agent gets: a call of `MM_agentProcessEvent`. -/
structure Request where
  env : Env := {}
  operationType : RemOpType := .request
  operationValue : Int
  phOperation : OperationHandle := 0
  parsed : Protocol × Bool

def Request.run (s : State) (r : Request) : Option Outcome :=
  agentProcessEvent r.env s r.operationType r.operationValue r.phOperation r.parsed

inductive Input
  | call (mem : Memory) (c : Call)
  | request (r : Request)

/-- The program and its agent. The outputs are the PDUs of the agent. -/
def managed : Run.Sys State Input Pdu where
  init s := s = {}
  step s
    | .call mem c => (c.run mem s).map fun r => (r.state, [])
    | .request r => (r.run s).map fun o => (o.state, o.sent)

/-! ## A small program -/

def small : ZString := .ofOctets [97]

/-- One object that no manager may access, another that every manager may, and a destination whose
masks may be read. -/
def registrations : List Call :=
  [.entityInit small, .registerModule 0 small,
    .registerManagableObject 0 .gaugeUnsigned small small 0 4 false,
    .registerManagableObject 0 .gaugeUnsigned (.ofOctets [98]) small accessByNameReadWrite 4 false,
    .registerDestination 0 small small accessByNameRead 255 255]

def registered : State :=
  ((managed.run Run.always {} (registrations.map (.call {}))).map (·.1)).getD {}

/-- A request with the three names of an object, or the two of a destination. -/
def named (operationValue : Int) (name : Octets) (p : Protocol := {}) : Request where
  operationValue
  parsed :=
    ({ p with
        hApplicationEntityInstanceName := some [97]
        hModuleName := some [97]
        hManagableObjectName := some name
        hDestinationName := some name }, true)

end Mm
