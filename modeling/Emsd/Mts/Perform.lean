import Emsd.Mts.Performer
import Emsd.Mtsua.Diagrams

/-!
# The Performer machine for every operation (`mts/mperform.c`)

The machine of whatever a device invokes: the predicates and actions of the table `Perform.trans`,
and how `esrosevt.c` and `mpreproc.c` hand it the indications and confirms of ESROS. What it does to
a submission is as in `Mts.Performer`.
-/

namespace Mts.Performance

open Ocp Mtsua Table Perform

/-- What is invoked: `operationValue`, and `hOperationData` for it. -/
inductive Invoked
  | submission (arg : SubmitArgument)
  | deliveryVerify
  | deliveryControl
  deriving DecidableEq, Repr

/-- An operation value that is not one of a submission. -/
inductive Other
  | deliveryVerify
  | deliveryControl
  deriving DecidableEq, Repr

/-- `MTS_Operation`. With `other`, the operation value and the data are not those of a submission. -/
structure Operation where
  other : Option Other := none
  performer : Performer

/-- How the calls that the machine makes turn out. -/
structure Env extends PerformEnv where
  /-- All of `mts_issueErrorRequest` -/
  errorReq : Bool := true
  /-- `BUF_alloc` for the result of a DELIVER.verify -/
  resultAlloc : Bool := true
  /-- The buffer for it is put on the user-free list. -/
  resultAddUserFree : Bool := true
  /-- `ASN_format` of it -/
  resultFormat : Bool := true
  /-- `SF_memGet` of each `FSM_generateEvent` of `aS1S5a`, in order -/
  memGets : Nat → Bool := fun _ => true

/-- A request that ESROS has accepted and not concluded yet. -/
inductive Request
  | result (invokeId : InvokeId)
  | error (invokeId : InvokeId)
  | invoke (invokeId : InvokeId)
  deriving DecidableEq, Repr

/-- The request that is seen of a submission. -/
def request : PerformOut → Option Request
  | .resultReq id => some (.result id)
  | .errorReq id => some (.error id)
  | .invokeReq id => some (.invoke id)
  | _ => none

/-! ## Predicates -/

/-- `pS1S2a` for any operation: the operation value comes first. -/
def pS1S2a (env : Env) (x : Operation) : Option (Operation × Bool) :=
  match x.other with
  | some _ => some (x, false)
  | none => (Mts.pS1S2a env.toPerformEnv x.performer).map fun r => ({ performer := r.1 }, r.2.1)

/-- The predicates of the table. There is no operation when the code follows a bad pointer. -/
def holdsIn (env : Env) (p : Predicate) : Option Operation → Bool × Option Operation
  | none => (false, none)
  | some x =>
    match p with
    | .pS1S2a =>
      match pS1S2a env x with
      | none => (false, none)
      | some (x, ok) => (ok, some x)
    | .pS1S5a => (x.other = some .deliveryVerify, some x)
    | .pS1S5b => (x.other = some .deliveryControl, some x)
    | .pS2S1a => (allReceived x.performer, some x)
    | .pS2S1d => (!allReceived x.performer, some x)
    | .pS2S2a => (true, some x)
    | .pS3S1a => (Mts.pS3S1a x.performer, some x)

/-! ## Actions -/

/-- What an action leaves: the operation unless it is freed, the events that it generates, and the
requests that ESROS has accepted. -/
structure Acted where
  op : Option Operation
  events : List FsmEvent := []
  requests : List Request := []

/-- Call number `k` of `FSM_generateEvent` in `aS1S5a`. -/
def generated (env : Env) (k : Nat) : List FsmEvent :=
  if env.memGets k then [.failureIndication] else []

/-- `aS1S2a`: the RESULT of a segment. -/
def aS1S2a (env : Env) (x : Operation) : Acted :=
  let (performer, out, failures) := performS1S2a env.toPerformEnv x.performer
  { op := some { x with performer }
    events := List.replicate failures .failureIndication
    requests := out.filterMap request }

/-- `aS1S4a`. -/
def aS1S4a (env : Env) (x : Operation) : Acted :=
  { op := some x, requests := if env.errorReq then [.error x.performer.invokeId] else [] }

/-- `aS1S5a`, which goes on after a failure. A buffer that has not been allocated is a bad pointer. -/
def aS1S5a (env : Env) (x : Operation) : Option Acted :=
  if env.actionProfile = false then some { op := some x }
  else if env.resultAlloc = false then none
  else
    let listed := if env.resultAddUserFree then [] else generated env 0
    let formatted := if env.resultFormat then [] else generated env 1
    let failed := if env.resultReq then [] else generated env 2
    some {
      op := some x
      events := listed ++ formatted ++ failed
      requests := if env.resultReq then [.result x.performer.invokeId] else [] }

/-- `aS1S5b`: `DELIVERY_CONTROL_SUPPORTED` is not defined. -/
def aS1S5b (env : Env) (x : Operation) : Acted :=
  if env.actionProfile = false then { op := some x } else aS1S4a env x

/-- `aS2S3a`: ask the device for the message. -/
def aS2S3a (env : Env) (x : Operation) : Acted :=
  let (performer, out) := performS2S3a env.toPerformEnv x.performer
  { op := some { x with performer }, requests := out.filterMap request }

/-- The action of a transition. -/
def action (env : Env) (x : Operation) : Option Action → Option Acted
  | some .aS1S2a => some (aS1S2a env x)
  | some .aS1S4a => some (aS1S4a env x)
  | some .aS1S5a => aS1S5a env x
  | some .aS1S5b => some (aS1S5b env x)
  | some .aS2S3a => some (aS2S3a env x)
  | some .aS2S2a | none => some { op := some x }
  | some .aS2S1a | some .aS2S1c | some .aS3S1a | some .aS3S1b | some .aS3S1c | some .aS4S1a
  | some .aS4S1b | some .aS5S1a | some .aS5S1b | some .aS5S1c | some .aUnexpectedEvent =>
    some { op := none }

/-! ## Steps -/

/-- An operation and its machine, with the events that the scheduler holds for it and the requests
that ESROS has accepted for it. -/
structure Performing where
  curState : State := .s1Idle
  /-- It has been allocated. -/
  allocated : Bool := false
  /-- Nothing before it has been allocated, and once it has been freed. -/
  op : Option Operation := none
  events : List FsmEvent := []
  requests : List Request := []

/-- How the calls of `mts_preprocessInvokeIndication` turn out. -/
structure InvokeEnv where
  /-- `mts_allocOperation`, `FSM_createMachine`, and the machine is put on the user-free list. -/
  allocOperation : Bool := true
  /-- The argument is put on the user-free list. -/
  addUserFree : Bool := true
  /-- `SF_memGet` of `FSM_generateEvent` -/
  memGet : Bool := true

/-- The inputs: indications and confirms of ESROS, each with `SF_memGet` of `FSM_generateEvent`, the
segmentation timer, and the scheduler. -/
inductive Input
  /-- An INVOKE that has been parsed, and the operation that it is for is this one, or is allocated
  for it. -/
  | invokeIndication (invoked : Invoked) (invokeId : InvokeId) (performer3Way : Bool)
    (env : InvokeEnv)
  | resultConfirm (invokeId : InvokeId) (memGet : Bool)
  | errorConfirm (invokeId : InvokeId) (memGet : Bool)
  | failureIndication (invokeId : InvokeId) (memGet : Bool)
  /-- The result, when it can be parsed. -/
  | resultIndication (invokeId : InvokeId) (sendMessage : Option Bool) (memGet : Bool)
  | errorIndication (invokeId : InvokeId) (memGet : Bool)
  | segmentationTimerExpired
  | schRun (env : Env)

namespace Performing

/-- `FSM_generateEvent`. -/
def generateEvent (s : Performing) (evt : FsmEvent) (memGet : Bool) : Performing :=
  { s with events := s.events ++ if memGet then [evt] else [] }

/-- An indication or a confirm for `invokeId`, which concludes a request; it is ignored when
`findOperationByInvokeId` finds nothing. -/
def indication (s : Performing) (invokeId : InvokeId) (concluded : List Request) (evt : FsmEvent)
    (memGet : Bool) : Performing :=
  let s := { s with requests := s.requests.filter (· ∉ concluded) }
  match s.op with
  | some x => if x.performer.invokeId = invokeId then s.generateEvent evt memGet else s
  | none => s

/-- `mts_resultIndication`: of the operations of this machine, only a SUBMIT.verify has a result. -/
def resultIndication (s : Performing) (invokeId : InvokeId) (sendMessage : Option Bool)
    (memGet : Bool) : Performing :=
  let verified := s.op.bind fun x => sendMessage.bind fun b =>
    if x.performer.invokeId = invokeId ∧ x.performer.operationValue = .submissionVerify then
      some { x with performer := { x.performer with hOperationData := .verified b } }
    else none
  match verified with
  | some x =>
    { s with op := some x }.indication invokeId [.invoke invokeId] .resultIndication memGet
  | none => { s with requests := s.requests.filter (· ∉ [Request.invoke invokeId]) }

/-- `findOperationBySequenceId` finds this operation for the INVOKE: it is another segment. -/
def continues (x : Operation) : Invoked → Bool
  | .submission arg =>
    match arg.segmentInfo with
    | some ⟨sequenceId, .other _⟩ => sequenceId = x.performer.receiver.sequenceId
    | _ => false
  | _ => false

/-- The fields that `mts_preprocessInvokeIndication` sets in the operation; it keeps its segments. -/
def assign (invoked : Invoked) (invokeId : InvokeId) (performer3Way firstIpm95 : Bool)
    (receiver : Receiver) : Operation :=
  match invoked with
  | .submission arg =>
    { performer := { invokeId, performer3Way, hOperationData := .submit arg, firstIpm95, receiver } }
  | .deliveryVerify =>
    { other := some .deliveryVerify
      performer := { invokeId, performer3Way, hOperationData := .verified false, firstIpm95, receiver } }
  | .deliveryControl =>
    { other := some .deliveryControl
      performer := { invokeId, performer3Way, hOperationData := .verified false, firstIpm95, receiver } }

/-- An INVOKE for the operation, from the user-free list on. -/
def invoke (s : Performing) (x : Operation) (env : InvokeEnv) : Performing :=
  if env.addUserFree = false then { s with op := none }
  else { s with op := some x }.generateEvent .invokeIndication env.memGet

/-- `FSM_runMachine` for the first event. -/
def runMachine (s : Performing) (evt : FsmEvent) (x : Operation) (env : Env) : Option Performing :=
  match select FsmEvent.numbering (holdsIn env) evt (Perform.trans s.curState) (some x) with
  | (some row, some x) =>
    (action env x row.target.1).map fun a =>
      { s with
        curState := row.target.2
        op := a.op
        events := s.events ++ a.events
        requests := s.requests ++ a.requests }
  | _ => none

/-- One input. There is no result when the operation that it is for has been freed. -/
def step (s : Performing) : Input → Option Performing
  | .invokeIndication invoked invokeId performer3Way env =>
    match s.allocated, s.op with
    | true, some x =>
      if continues x invoked then
        some (s.invoke (assign invoked invokeId performer3Way x.performer.firstIpm95
          x.performer.receiver) env)
      else none
    | true, none => none
    | false, _ =>
      if env.allocOperation then
        some ({ s with allocated := true }.invoke (assign invoked invokeId performer3Way false {}) env)
      else some s
  | .resultConfirm id memGet => some (s.indication id [.result id] .resultConfirm memGet)
  | .errorConfirm id memGet => some (s.indication id [.error id] .errorConfirm memGet)
  | .failureIndication id memGet =>
    some (s.indication id [.result id, .error id, .invoke id] .failureIndication memGet)
  | .resultIndication id sendMessage memGet => some (s.resultIndication id sendMessage memGet)
  | .errorIndication id memGet => some (s.indication id [.invoke id] .errorIndication memGet)
  | .segmentationTimerExpired =>
    s.op.bind fun x =>
      if x.performer.receiver.hSegmentationTimer then some { s with op := none } else none
  | .schRun env =>
    match s.events with
    | [] => some s
    | evt :: events => s.op.bind fun x => runMachine { s with events } evt x env

end Performing

/-- The life of one operation of the Performer. -/
def performing : Run.Sys Performing Input Unit where
  init s := s = {}
  step s i := (s.step i).map fun t => (t, [])

/-! ## The transition that fires -/

/-- Of the idle machine, whatever the event is. `ok`: the predicate of a submission. -/
def idleTarget (ok : Bool) (x : Operation) : Option Action × State :=
  if ok then (some .aS1S2a, .s2SubmitResultResponseWait)
  else if x.other = some .deliveryVerify then (some .aS1S5a, .s5NotSubmitResultResponseWait)
  else if x.other = some .deliveryControl then (some .aS1S5b, .s5NotSubmitResultResponseWait)
  else (some .aS1S4a, .s4ErrorResponseWait)

/-- Of the machine that waits for the confirm of a Submit result. -/
def resultTarget (x : Operation) : FsmEvent → Option Action × State
  | .resultConfirm => if allReceived x.performer then (some .aS2S1a, .s1Idle) else (none, .s1Idle)
  | .failureIndication =>
    if allReceived x.performer then (some .aS2S3a, .s3SubmitVerifyResponseWait) else (none, .s1Idle)
  | .segmentationTimerExpired => (some .aS2S1c, .s1Idle)
  | _ => (some .aS2S2a, .s2SubmitResultResponseWait)

/-- Of a machine that waits for the end of its operation. -/
def lastTarget (x : Operation) : State → FsmEvent → Option Action × State
  | .s3SubmitVerifyResponseWait, .resultIndication =>
    if Mts.pS3S1a x.performer then (some .aS3S1a, .s1Idle) else (some .aS3S1b, .s1Idle)
  | .s3SubmitVerifyResponseWait, .failureIndication => (some .aS3S1c, .s1Idle)
  | .s4ErrorResponseWait, .errorConfirm => (some .aS4S1a, .s1Idle)
  | .s4ErrorResponseWait, .failureIndication => (some .aS4S1b, .s1Idle)
  | .s5NotSubmitResultResponseWait, .resultConfirm => (some .aS5S1a, .s1Idle)
  | .s5NotSubmitResultResponseWait, .errorConfirm => (some .aS5S1b, .s1Idle)
  | .s5NotSubmitResultResponseWait, .failureIndication => (some .aS5S1c, .s1Idle)
  | _, _ => (some .aUnexpectedEvent, .s1Idle)

/-- The transition that fires, and what its predicates leave. -/
def fired (env : Env) (s : State) (evt : FsmEvent) (x : Operation) :
    Option ((Option Action × State) × Operation) :=
  match s with
  | .s1Idle => (pS1S2a env x).map fun r => (idleTarget r.2 r.1, r.1)
  | .s2SubmitResultResponseWait => some (resultTarget x evt, x)
  | s => some (lastTarget x s evt, x)

/-- **The table fires it.** -/
theorem select_fires (env : Env) (s : State) (evt : FsmEvent) (x : Operation) :
    let r := select FsmEvent.numbering (holdsIn env) evt (Perform.trans s) (some x)
    (r.2.bind fun p => r.1.map fun row => (row.target, p)) = fired env s evt x := by
  cases s with
  | s1Idle =>
    rcases h : pS1S2a env x with _ | ⟨x', _ | _⟩
    · simp [select, Perform.trans, holdsIn, fired, h]
    · by_cases hv : x'.other = some .deliveryVerify
      · simp [select, Perform.trans, holdsIn, fired, idleTarget, h, hv]
      · by_cases hc : x'.other = some .deliveryControl <;>
          simp [select, Perform.trans, holdsIn, fired, idleTarget, h, hv, hc]
    · simp [select, Perform.trans, holdsIn, fired, idleTarget, h]
  | s2SubmitResultResponseWait =>
    cases evt with
    | resultConfirm =>
      rcases h : allReceived x.performer with _ | _ <;>
        simp [select, Perform.trans, holdsIn, fired, resultTarget, h]
    | failureIndication =>
      rcases h : allReceived x.performer with _ | _ <;>
        simp [select, Perform.trans, holdsIn, fired, resultTarget, h]
    | _ => rfl
  | s3SubmitVerifyResponseWait =>
    cases evt with
    | resultIndication =>
      rcases h : Mts.pS3S1a x.performer with _ | _ <;>
        simp [select, Perform.trans, holdsIn, fired, lastTarget, h]
    | _ => rfl
  | _ => cases evt <;> rfl

/-- `FSM_runMachine` does what its action does. -/
theorem Performing.runMachine_eq (s : Performing) (evt : FsmEvent) (x : Operation) (env : Env) :
    s.runMachine evt x env = (fired env s.curState evt x).bind fun r =>
      (action env r.2 r.1.1).map fun a =>
        { s with
          curState := r.1.2
          op := a.op
          events := s.events ++ a.events
          requests := s.requests ++ a.requests } := by
  unfold Performing.runMachine
  rw [← select_fires]
  rcases select FsmEvent.numbering (holdsIn env) evt (Perform.trans s.curState) (some x) with
    ⟨_ | row, _ | x'⟩ <;> rfl

end Mts.Performance
