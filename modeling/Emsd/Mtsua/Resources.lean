import Emsd.Mtsua.Sending
import Emsd.Lib.Ledger

/-!
# What an operation has to free

Each operation of an agent has a list of functions and objects, `userFreeQHead`, that it frees with
itself (`mts/oper.c`, `ua/uacore/oper.c`). What the indications of ESROS allocate, put on that list
and free (`mts/mpreproc.c`, `ua/uacore/upreproc.c`, with their callers in `esrosevt.c` and
`esroevt.c`) is here as it stands; what the predicates and actions of a machine do to objects is a
list of `Deed`s. A machine is deleted by the scheduler (`fsmdepen.c`).
-/

namespace Mtsua

open Ledger

/-- An element of `userFreeQHead`. -/
inductive UserFree
  /-- `FSM_deleteMachine` -/
  | deleteMachine (machine : Nat)
  | free (o : Nat)
  deriving DecidableEq, Repr

def UserFree.obj : UserFree → Nat
  | deleteMachine machine => machine
  | free o => o

/-- `MTS_Operation` and `UA_Operation`. -/
structure Holder where
  operId : Nat
  hFsm : Nat
  userFree : List UserFree := []
  /-- What the operation refers to: its data, its pending data and its buffers. -/
  refs : List Nat := []
  deriving DecidableEq, Repr

/-- A task of the scheduler. -/
inductive MachineTask
  /-- `fsm_scheduledRunMachine`; the machine's user data is the operation. -/
  | runMachine (machine operId : Nat)
  /-- `fsm_scheduledDeleteMachine` -/
  | deleteMachine (machine : Nat)
  deriving DecidableEq, Repr

/-- The operations of an agent, whatever their order, and all that refers to them. -/
structure Resources where
  next : Nat := 0
  ops : List Holder := []
  /-- The segmentation timers, by operation. -/
  timers : List Nat := []
  schQu : List MachineTask := []
  /-- Taken from the list by `mts_operationDelUserFree`, to be freed by somebody else. -/
  handed : List Nat := []

/-- How the calls of the callbacks turn out. -/
structure ResourceEnv where
  /-- The operation data is allocated. -/
  allocData : Bool := true
  /-- It can be parsed. -/
  parse : Bool := true
  allocOperation : Bool := true
  createMachine : Bool := true
  /-- The machine is put on the list. -/
  addMachine : Bool := true
  /-- `OS_alloc` of the `UA_Pending` -/
  allocPending : Bool := true
  /-- The data is put on the list. -/
  addUserFree : Bool := true
  /-- The contents are put on the list, in the UA. -/
  addExtra : Bool := true
  /-- `SF_memGet` of `FSM_generateEvent` -/
  memGet : Bool := true

namespace Resources

def find (s : Resources) (operId : Nat) : Option Holder := s.ops.find? (·.operId = operId)

/-- The operation at hand, out of the list. -/
def without (s : Resources) (op : Holder) : Resources :=
  { s with ops := s.ops.filter (·.operId ≠ op.operId) }

def put (s : Resources) (op : Holder) : Resources := { s with ops := op :: s.ops }

def generateEvent (s : Resources) (op : Holder) (memGet : Bool) : Resources :=
  { s with schQu := s.schQu ++ if memGet then [.runMachine op.hFsm op.operId] else [] }

end Resources

/-- The machines and the objects on a list. -/
def machines (l : List UserFree) : List Nat :=
  l.filterMap fun
    | .deleteMachine machine => some machine
    | .free _ => none

def objects (l : List UserFree) : List Nat :=
  l.filterMap fun
    | .free o => some o
    | .deleteMachine _ => none

/-- `mts_freeOperation`, `ua_freeOperation`, of the operation at hand. -/
def freeOperation (s : Resources) (op : Holder) : Resources × List Event :=
  ({ s with schQu := s.schQu ++ (machines op.userFree).map .deleteMachine },
    .use op.operId :: (objects op.userFree).map .free ++ [.free op.operId])

/-- The operation takes an object over: it is on the list, and referred to. -/
def Holder.take (op : Holder) (o : Nat) : Holder :=
  { op with userFree := op.userFree ++ [.free o], refs := op.refs ++ [o] }

/-! ## INVOKE.indication -/

/-- A new operation: `userFree` says whether the machine could be put on the list. -/
inductive NewOperation
  | made (s : Resources) (op : Holder) (h : List Event)
  | failed (s : Resources) (h : List Event)

/-- `mts_allocOperation` and `ua_allocOperation`, and the machine. When the machine cannot be put on
the list, the MTS frees the operation before it reads `hFsm` from it. -/
def newOperation (side : Side) (env : ResourceEnv) (s : Resources) (data : Nat) : NewOperation :=
  if env.allocOperation = false then .failed s [.free data]
  else
    let operId := s.next
    if env.createMachine = false then
      .failed { s with next := s.next + 1 } [.own operId, .use operId, .free operId, .free data]
    else
      let hFsm := s.next + 1
      let s := { s with next := s.next + 2 }
      if env.addMachine then
        .made s { operId, hFsm, userFree := [.deleteMachine hFsm] } [.own operId, .own hFsm]
      else
        match side with
        | .mts => .failed { s with schQu := s.schQu ++ [.deleteMachine hFsm] }
            [.own operId, .use operId, .free operId, .use operId]
        | .ua => .failed { s with schQu := s.schQu ++ [.deleteMachine hFsm] }
            [.own operId, .use operId, .use operId, .free operId]

/-- The end of `mts_preprocessInvokeIndication`, and of its caller. -/
def Mts.takeData (env : ResourceEnv) (s : Resources) (op : Holder) (data : Nat) :
    Resources × List Event :=
  if env.addUserFree = false then
    let r := freeOperation s op
    (r.1, r.2 ++ [.free data])
  else
    let op := op.take data
    ((s.generateEvent op env.memGet).put op, [.use op.operId, .own data])

/-- The end of `ua_preprocessInvokeIndication`, and of its caller. `extra`: the contents. -/
def Ua.takeData (env : ResourceEnv) (s : Resources) (op : Holder) (data : Nat)
    (extra : Option Nat) : Resources × List Event :=
  if env.allocPending = false ∨ env.addUserFree = false then
    let r := freeOperation s op
    (r.1, r.2 ++ [.free data])
  else
    let op := op.take data
    match extra with
    | none => ((s.generateEvent op env.memGet).put op, [.use op.operId, .own data])
    | some o =>
      if env.addExtra = false then (s.put op, [.use op.operId, .own data, .free data])
      else
        let op := op.take o
        ((s.generateEvent op env.memGet).put op, [.use op.operId, .own data, .own o])

/-- An INVOKE. `existing`: what `findOperationBySequenceId` is to find for another segment;
`contents`: the argument has contents, which the UA frees by themselves. -/
def invokeIndication (side : Side) (env : ResourceEnv) (s : Resources) (existing : Option Nat)
    (contents : Bool) : Resources × List Event :=
  if env.allocData = false then (s, [])
  else
    let data := s.next
    let s := { s with next := s.next + 1 }
    if env.parse = false then (s, [.free data])
    else
      let extra := if side = .ua ∧ contents = true then some s.next else none
      let s := if extra.isSome then { s with next := s.next + 1 } else s
      let takeData := fun s op => match side with
        | .mts => Mts.takeData env s op data
        | .ua => Ua.takeData env s op data extra
      match existing with
      | some operId =>
        match s.find operId with
        | none => (s, extra.toList.map .free ++ [.free data])
        | some op => takeData (s.without op) op
      | none =>
        match newOperation side env s data with
        | .failed s h => (s, h)
        | .made s op h =>
          let r := takeData s op
          (r.1, h ++ r.2)

/-! ## RESULT.indication and ERROR.indication -/

/-- `mts_preprocessResultIndication`, `mts_preprocessErrorIndication` and those of the UA, for
an operation whose answer has data, and whether they succeed. -/
def preprocessAnswer (env : ResourceEnv) (s : Resources) (op : Holder) :
    Resources × Holder × List Event × Bool :=
  if env.allocData = false then (s, op, [], false)
  else
    let data := s.next
    let s := { s with next := s.next + 1 }
    if env.addUserFree = false then (s, op, [.use op.operId, .free data], false)
    else if env.parse = false then
      (s, { op with userFree := op.userFree ++ [.free data] },
        [.use op.operId, .own data, .free data], false)
    else (s, op.take data, [.use op.operId, .own data], true)

/-- `mts_resultIndication`, and `ua_resultIndication`, which ignores a result without data. -/
def resultIndication (side : Side) (env : ResourceEnv) (s : Resources) (op : Holder) (data : Bool) :
    Resources × List Event :=
  if data = false then
    ((s.generateEvent op (side = .mts && env.memGet)).put op, [.use op.operId])
  else
    match preprocessAnswer env s op with
    | (s, op, h, ok) => ((s.generateEvent op (ok && env.memGet)).put op, h)

/-- `mts_errorIndication`, which goes on when the pre-processing has failed, and
`ua_errorIndication`. -/
def errorIndication (side : Side) (env : ResourceEnv) (s : Resources) (op : Holder) (data : Bool) :
    Resources × List Event :=
  if data = false then ((s.generateEvent op env.memGet).put op, [.use op.operId])
  else
    match preprocessAnswer env s op with
    | (s, op, h, ok) =>
      ((s.generateEvent op ((ok || side = .mts) && env.memGet)).put op, h)

/-! ## The machine -/

/-- What a predicate or an action does to objects. -/
inductive Deed
  /-- An object is allocated. Unless it can be put on the list, it is freed again; `kept`: the
  operation refers to it. -/
  | allocate (added kept : Bool)
  /-- An object on the list is freed. -/
  | release (o : Nat)
  /-- `mts_operationDelUserFree` -/
  | handOver (o : Nat)
  | generateEvent (memGet : Bool)
  | startTimer
  | stopTimer
  deriving DecidableEq, Repr

/-- A deed for the operation at hand. -/
def Deed.run (s : Resources) (op : Holder) : Deed → Resources × Holder × List Event
  | allocate true kept =>
    ({ s with next := s.next + 1 },
      { op with
        userFree := op.userFree ++ [.free s.next]
        refs := if kept then op.refs ++ [s.next] else op.refs }, [.own s.next])
  | allocate false kept =>
    ({ s with next := s.next + 1 },
      { op with refs := if kept then op.refs ++ [s.next] else op.refs }, [.free s.next])
  | release o =>
    if .free o ∈ op.userFree then (s, op, [.use o, .free o]) else (s, op, [])
  | handOver o =>
    if .free o ∈ op.userFree then
      ({ s with handed := o :: s.handed },
        { op with userFree := op.userFree.erase (.free o), refs := op.refs.filter (· ≠ o) }, [])
    else (s, op, [])
  | generateEvent memGet => (s.generateEvent op memGet, op, [])
  | startTimer => ({ s with timers := op.operId :: s.timers }, op, [])
  | stopTimer => ({ s with timers := s.timers.filter (· ≠ op.operId) }, op, [])

def runDeeds (s : Resources) (op : Holder) : List Deed → Resources × Holder × List Event
  | [] => (s, op, [])
  | d :: ds =>
    match d.run s op with
    | (s, op, h) =>
      match runDeeds s op ds with
      | (s, op, h') => (s, op, h ++ h')

/-- `FSM_runMachine` for an operation: its predicate and action use what it refers to, and may end
it. The machine moves to its next state in the end. -/
def runMachine (s : Resources) (machine operId : Nat) (deeds : List Deed) (ends : Bool) :
    Resources × List Event :=
  match s.find operId with
  | none => (s, [.use machine, .use operId])
  | some op =>
    match runDeeds (s.without op) op deeds with
    | (s, op', h) =>
      let h := .use machine :: .use operId :: op.refs.map .use ++ h
      if ends then
        let r := freeOperation s op'
        (r.1, h ++ r.2 ++ [.use machine])
      else (s.put op', h ++ [.use machine])

/-! ## Steps -/

/-- The inputs. An answer is for the operation that `findOperationByInvokeId` finds. -/
inductive ResourceInput
  | invokeIndication (existing : Option Nat) (contents : Bool) (env : ResourceEnv)
  | resultIndication (operId : Nat) (data : Bool) (env : ResourceEnv)
  | errorIndication (operId : Nat) (data : Bool) (env : ResourceEnv)
  /-- RESULT.confirm, ERROR.confirm, FAILURE.indication -/
  | confirm (operId : Nat) (memGet : Bool)
  /-- `mts_tryDelivery`, `UA_submitMessage`: `objects` are put on the list, and then the machine,
  unless it cannot be made. -/
  | request (objects : Nat) (machine memGet : Bool)
  | segmentationTimerExpired (operId : Nat)
  | schRun (deeds : List Deed) (ends : Bool)

namespace Resources

/-- An answer for an operation that is active. -/
def answer (s : Resources) (operId : Nat)
    (f : Resources → Holder → Resources × List Event) : Resources × List Event :=
  match s.find operId with
  | none => (s, [])
  | some op => f (s.without op) op

/-- The objects of a new outbound operation. -/
def requestObjects (s : Resources) (n : Nat) : List Nat := List.range' (s.next + 1) n

/-- `mts_tryDelivery`, `UA_submitMessage`. -/
def request (s : Resources) (n : Nat) (machine memGet : Bool) : Resources × List Event :=
  let operId := s.next
  let os := s.requestObjects n
  let hFsm := s.next + 1 + n
  let s := { s with next := s.next + 2 + n }
  let h := .own operId :: os.map .own
  if machine then
    let op := { operId, hFsm, userFree := os.map .free ++ [.deleteMachine hFsm], refs := os }
    ((s.generateEvent op memGet).put op, h ++ [.own hFsm])
  else
    let r := freeOperation s { operId, hFsm, userFree := os.map .free, refs := os }
    (r.1, h ++ r.2)

/-- `segmentationTimerExpired`. -/
def segmentationTimerExpired (s : Resources) (operId : Nat) : Resources × List Event :=
  if operId ∈ s.timers then
    let s := { s with timers := s.timers.erase operId }
    match s.find operId with
    | none => (s, [.use operId])
    | some op => freeOperation (s.without op) op
  else (s, [])

def schRun (s : Resources) (deeds : List Deed) (ends : Bool) : Resources × List Event :=
  match s.schQu with
  | [] => (s, [])
  | .deleteMachine machine :: schQu => ({ s with schQu }, [.free machine])
  | .runMachine machine operId :: schQu => runMachine { s with schQu } machine operId deeds ends

def step (side : Side) (s : Resources) : ResourceInput → Resources × List Event
  | .invokeIndication existing contents env => Mtsua.invokeIndication side env s existing contents
  | .resultIndication operId data env =>
    s.answer operId fun s op => Mtsua.resultIndication side env s op data
  | .errorIndication operId data env =>
    s.answer operId fun s op => Mtsua.errorIndication side env s op data
  | .confirm operId memGet =>
    s.answer operId fun s op => ((s.generateEvent op memGet).put op, [.use op.operId])
  | .request objects machine memGet => s.request objects machine memGet
  | .segmentationTimerExpired operId => s.segmentationTimerExpired operId
  | .schRun deeds ends => s.schRun deeds ends

end Resources

/-- The resources of an agent. -/
def resources (side : Side) : Run.Sys Resources ResourceInput Event where
  init s := s = {}
  step s i := some (s.step side i)

end Mtsua
