import Emsd.Mtsua.Receiver
import Emsd.Mtsua.Diagrams
import Emsd.Lib.Run

/-!
# The Performer machine of the user agent (`ua/uacore/uperform.c`)

The machine of what the message transfer server invokes: the predicates and actions of the table
`Perform.trans`, and how `esroevt.c` and `upreproc.c` hand it the indications and confirms of ESROS.
An INVOKE is put on a queue of the operation; the machine takes it from there when it is idle.
-/

namespace Ua

open Ocp Mtsua Table

/-- `EMSD_DeliverArgument`, as far as the predicate reads it. -/
structure DeliverArgument where
  segmentInfo : Option SegmentInfo
  /-- `contentType` is `EMSD_ContentType_Ipm95`. -/
  ipm95 : Bool
  hContents : Buf
  deriving DecidableEq, Repr

/-- What is invoked: `operationValue`, and `hOperationData` for it. -/
inductive Invoked
  | delivery (arg : DeliverArgument)
  | submissionVerify
  deriving DecidableEq, Repr

/-- `operationValue` of an operation. `ua_allocOperation` does not set it. -/
inductive OperationValue
  | unset
  | delivery
  | submissionVerify
  | submissionControl
  deriving DecidableEq, Repr

def Invoked.operationValue : Invoked → OperationValue
  | .delivery _ => .delivery
  | .submissionVerify => .submissionVerify

/-- `UA_Pending`. -/
structure Pending where
  invoked : Invoked
  invokeId : InvokeId
  /-- `hSapDesc` is `ua_globals.sap.hPerformer2Way`. -/
  performer2Way : Bool
  deriving DecidableEq, Repr

/-- The fields of `UA_Operation` that the machine uses. -/
structure Performer where
  operationValue : OperationValue := .unset
  /-- Nothing as long as it has not been set. -/
  invokeId : Option InvokeId := none
  performer2Way : Bool := false
  pendingQHead : List Pending := []
  /-- `contentType` of `hFirstOperationData` is `EMSD_ContentType_Ipm95`. -/
  firstIpm95 : Bool := false
  receiver : Receiver := {}

/-- How the calls that the machine makes turn out. -/
structure PerformEnv extends ReceiveEnv where
  /-- The message is parsed, and `ua_messageToShell` takes it. -/
  parseIpm : Bool := true
  /-- `BUF_alloc` for the result of a SUBMIT.verify -/
  resultAlloc : Bool := true
  /-- The buffer for it is put on the user-free list. -/
  resultAddUserFree : Bool := true
  /-- `ASN_format` of it -/
  resultFormat : Bool := true
  /-- `ESRO_CB_resultReq` -/
  resultReq : Bool := true
  /-- All of `ua_issueErrorRequest` -/
  errorReq : Bool := true
  /-- The DELIVER.verify is formatted and accepted by ESROS, with the identifier of the invocation. -/
  invokeReq : Option InvokeId := none
  /-- `SF_memGet` of each `FSM_generateEvent` of an action, in order -/
  memGet : Nat → Bool := fun _ => true

/-- A request that ESROS has accepted and not concluded yet. -/
inductive Request
  | result (invokeId : InvokeId)
  | error (invokeId : InvokeId)
  | invoke (invokeId : InvokeId)
  deriving DecidableEq, Repr

/-- What is seen of the machine. -/
inductive PerformOut
  /-- An INVOKE is put on the queue of the operation. -/
  | pended (p : Pending)
  /-- It is taken off the queue by the machine. -/
  | taken (p : Pending)
  | freed
  deriving DecidableEq, Repr

/-! ## Predicates -/

/-- The contents of a complete message are parsed. -/
def parseContents (env : PerformEnv) (ipm95 : Bool) (m : Performer) : Bool :=
  !m.receiver.bComplete || (ipm95 && env.parseIpm)

/-- `pS1S2a` on a Deliver argument. There is no result when the code follows a bad pointer. -/
def pS1S2aDeliver (env : PerformEnv) (m : Performer) (arg : DeliverArgument) :
    Option (Performer × Bool) :=
  match arg.segmentInfo with
  | none =>
    let m := { m with
      receiver := { m.receiver with bComplete := true, hContents := some arg.hContents } }
    some (m, parseContents env arg.ipm95 m)
  | some info =>
    match receiveSegment env.toReceiveEnv m.receiver info arg.hContents with
    | none => none
    | some (receiver, received) =>
      let firstIpm95 := match info.choice with
        | .first _ => arg.ipm95
        | .other _ => m.firstIpm95
      let m := { m with receiver, firstIpm95 }
      some (m, received && parseContents env firstIpm95 m)

/-- `pS1S2a`: an INVOKE is taken off the queue, and it is a delivery. -/
def pS1S2a (env : PerformEnv) (m : Performer) : Option (Performer × Bool × List PerformOut) :=
  match m.pendingQHead with
  | [] => some (m, false, [])
  | p :: pending =>
    let m := { m with
      pendingQHead := pending
      operationValue := p.invoked.operationValue
      invokeId := some p.invokeId
      performer2Way := p.performer2Way }
    match p.invoked with
    | .submissionVerify => some (m, false, [.taken p])
    | .delivery arg => (pS1S2aDeliver env m arg).map fun r => (r.1, r.2, [.taken p])

/-- `pS1S5a`. -/
def pS1S5a (m : Performer) : Bool := m.operationValue = .submissionVerify

/-- `pS1S5b`. -/
def pS1S5b (m : Performer) : Bool := m.operationValue = .submissionControl

/-- `pS2S1a` of `uperform.c`. -/
def allReceived (m : Performer) : Bool := m.receiver.bComplete

/-- `pS2S1d`. `UA_init` has a parameter for `bDeliveryVerifySupported` and never assigns it. -/
def pS2S1dPerform (bDeliveryVerifySupported : Bool) (m : Performer) : Bool :=
  !(m.receiver.bComplete && !m.performer2Way && bDeliveryVerifySupported)

/-- `pS2S1e`. -/
def pS2S1e (bDeliveryVerifySupported : Bool) (m : Performer) : Bool :=
  !(m.receiver.bComplete || (!m.performer2Way && bDeliveryVerifySupported))

/-- The predicates of the table. There is no operation when the code follows a bad pointer. -/
def Perform.holds (bDeliveryVerifySupported : Bool) (env : PerformEnv) (p : Perform.Predicate) :
    Option (Performer × List PerformOut) → Bool × Option (Performer × List PerformOut)
  | none => (false, none)
  | some (m, o) =>
    match p with
    | .pS1S2a =>
      match pS1S2a env m with
      | none => (false, none)
      | some (m, ok, o') => (ok, some (m, o ++ o'))
    | .pS1S5a => (pS1S5a m, some (m, o))
    | .pS1S5b => (pS1S5b m, some (m, o))
    | .pS2S1a => (allReceived m, some (m, o))
    | .pS2S1d => (pS2S1dPerform bDeliveryVerifySupported m, some (m, o))
    | .pS2S1e => (pS2S1e bDeliveryVerifySupported m, some (m, o))
    | .pS2S2a => (true, some (m, o))

/-! ## Actions -/

/-- What an action leaves: the operation unless it is freed, the events that it generates, and the
requests that ESROS has accepted. -/
structure Acted where
  op : Option Performer
  events : List FsmEvent := []
  requests : List Request := []

/-- Call number `k` of `FSM_generateEvent` in an action. -/
def generated (env : PerformEnv) (k : Nat) (evt : FsmEvent) : List FsmEvent :=
  if env.memGet k then [evt] else []

/-- A request under the identifier that the operation has. -/
def accepted (request : InvokeId → Request) (m : Performer) : List Request :=
  (m.invokeId.map request).toList

/-- `aS1S2a`: the RESULT of a segment. -/
def performS1S2a (env : PerformEnv) (m : Performer) : Acted :=
  if env.resultReq then { op := m, requests := accepted .result m }
  else { op := m, events := generated env 0 .failureIndication }

/-- `aS1S4a`. -/
def performS1S4a (env : PerformEnv) (m : Performer) : Acted :=
  { op := m, requests := if env.errorReq then accepted .error m else [] }

/-- `aS1S5a`, which goes on after a failure. A buffer that has not been allocated is a bad pointer. -/
def performS1S5a (env : PerformEnv) (m : Performer) : Option Acted :=
  if env.resultAlloc = false then none
  else
    let listed := if env.resultAddUserFree then [] else generated env 0 .failureIndication
    let formatted := if env.resultFormat then [] else generated env 1 .failureIndication
    let failed := if env.resultReq then [] else generated env 2 .failureIndication
    some {
      op := m
      events := listed ++ formatted ++ failed
      requests := if env.resultReq then accepted .result m else [] }

/-- `aS2S1b`: there is more to do when an INVOKE waits. -/
def performS2S1b (env : PerformEnv) (m : Performer) : Acted :=
  { op := m
    events := if m.pendingQHead = [] then [] else generated env 0 .invokeIndication }

/-- `aS2S1d`: the segmentation timer is going to free the operation. -/
def performS2S1d (m : Performer) : Acted :=
  { op := if m.receiver.hSegmentationTimer then some m else none }

/-- `aS2S3a`: ask the MTS whether it knows. -/
def performS2S3a (env : PerformEnv) (m : Performer) : Acted :=
  match env.invokeReq with
  | none => { op := m }
  | some id => { op := some { m with invokeId := some id }, requests := [.invoke id] }

/-- The action of a transition. -/
def performAction (env : PerformEnv) (m : Performer) : Option Perform.Action → Option Acted
  | some .aS1S2a => some (performS1S2a env m)
  | some .aS1S4a => some (performS1S4a env m)
  | some .aS1S5a => performS1S5a env m
  | some .aS2S1b => some (performS2S1b env m)
  | some .aS2S1d => some (performS2S1d m)
  | some .aS2S3a => some (performS2S3a env m)
  | some .aS1S5b | some .aS2S2a | none => some { op := m }
  | some .aS2S1a | some .aS2S1c | some .aS2S1e | some .aS3S1a | some .aS3S1b | some .aS4S1a
  | some .aS4S1b | some .aS5S1a | some .aS5S1b | some .aS5S1c | some .aUnexpectedEvent =>
    some { op := none }

/-! ## Steps -/

/-- An operation and its machine, with the events that the scheduler holds for it and the requests
that ESROS has accepted for it. -/
structure Performing where
  curState : Perform.State := .s1Idle
  /-- It has been allocated. -/
  allocated : Bool := false
  /-- Nothing before it has been allocated, and once it has been freed. -/
  op : Option Performer := none
  events : List FsmEvent := []
  requests : List Request := []

/-- How the calls of `ua_preprocessInvokeIndication` turn out. -/
structure InvokeEnv where
  /-- `ua_allocOperation`, `FSM_createMachine`, and the machine is put on the user-free list. -/
  allocOperation : Bool := true
  /-- `OS_alloc` of the `UA_Pending` -/
  allocPending : Bool := true
  /-- The argument is put on the user-free list. -/
  addUserFree : Bool := true
  /-- So are the contents of a Deliver argument. -/
  addExtraFree : Bool := true
  /-- `SF_memGet` of `FSM_generateEvent` -/
  memGet : Bool := true

/-- The inputs: indications and confirms of ESROS, each with `SF_memGet` of `FSM_generateEvent`, the
segmentation timer, and the scheduler. -/
inductive PerformInput
  /-- An INVOKE that is not a duplicate and has been parsed, and the operation that it is for is this
  one, or is allocated for it. -/
  | invokeIndication (p : Pending) (env : InvokeEnv)
  | resultConfirm (invokeId : InvokeId) (memGet : Bool)
  | errorConfirm (invokeId : InvokeId) (memGet : Bool)
  | failureIndication (invokeId : InvokeId) (memGet : Bool)
  | resultIndication (invokeId : InvokeId)
  /-- `parsed`: there are no data, or they can be parsed. -/
  | errorIndication (invokeId : InvokeId) (parsed memGet : Bool)
  | segmentationTimerExpired
  | schRun (env : PerformEnv)

namespace Performing

/-- `FSM_generateEvent`. -/
def generateEvent (s : Performing) (evt : FsmEvent) (memGet : Bool) : Performing :=
  { s with events := s.events ++ if memGet then [evt] else [] }

/-- An indication or a confirm for `invokeId`, which concludes a request; it is ignored when
`findOperationByInvokeId` finds nothing. -/
def indication (s : Performing) (invokeId : InvokeId) (concluded : List Request) (evt : FsmEvent)
    (memGet : Bool) : Performing :=
  let s := { s with requests := s.requests.filter (· ∉ concluded) }
  match s.op with
  | some m => if m.invokeId = some invokeId then s.generateEvent evt memGet else s
  | none => s

/-- An INVOKE for the operation `m`: from `OS_alloc` of the `UA_Pending` on. -/
def pend (s : Performing) (m : Performer) (p : Pending) (env : InvokeEnv) :
    Performing × List PerformOut :=
  if env.allocPending = false then ({ s with op := none }, [.freed])
  else if env.addUserFree = false then ({ s with op := none }, [.pended p, .freed])
  else
    let s := { s with op := some { m with pendingQHead := m.pendingQHead ++ [p] } }
    if p.invoked ≠ .submissionVerify ∧ env.addExtraFree = false then (s, [.pended p])
    else (s.generateEvent .invokeIndication env.memGet, [.pended p])

/-- `FSM_runMachine` for the first event. -/
def runMachine (bDeliveryVerifySupported : Bool) (s : Performing) (evt : FsmEvent) (m : Performer)
    (env : PerformEnv) : Option (Performing × List PerformOut) :=
  match select FsmEvent.numbering (Perform.holds bDeliveryVerifySupported env) evt
      (Perform.trans s.curState) (some (m, [])) with
  | (some row, some (m, o)) =>
    (performAction env m row.target.1).map fun a =>
      ({ s with
          curState := row.target.2
          op := a.op
          events := s.events ++ a.events
          requests := s.requests ++ a.requests },
        o ++ if a.op.isSome then [] else [.freed])
  | _ => none

/-- One input. There is no result when the operation that it is for has been freed. -/
def step (bDeliveryVerifySupported : Bool) (s : Performing) :
    PerformInput → Option (Performing × List PerformOut)
  | .invokeIndication p env =>
    match s.allocated, s.op with
    | true, some m => some (s.pend m p env)
    | true, none => none
    | false, _ =>
      if env.allocOperation then some ({ s with allocated := true }.pend {} p env)
      else some (s, [])
  | .resultConfirm id memGet => some (s.indication id [.result id] .resultConfirm memGet, [])
  | .errorConfirm id memGet => some (s.indication id [.error id] .errorConfirm memGet, [])
  | .failureIndication id memGet =>
    some (s.indication id [.result id, .error id, .invoke id] .failureIndication memGet, [])
  | .resultIndication id =>
    -- `operationValue` is none that has a result: the preprocessing fails
    some ({ s with requests := s.requests.filter (· ∉ [Request.invoke id]) }, [])
  | .errorIndication id parsed memGet =>
    some (s.indication id [.invoke id] .errorIndication (parsed && memGet), [])
  | .segmentationTimerExpired =>
    s.op.bind fun m =>
      if m.receiver.hSegmentationTimer then some ({ s with op := none }, [.freed]) else none
  | .schRun env =>
    match s.events with
    | [] => some (s, [])
    | evt :: events =>
      s.op.bind fun m => runMachine bDeliveryVerifySupported { s with events } evt m env

end Performing

/-- The life of one operation of the Performer. -/
def performing (bDeliveryVerifySupported : Bool) : Run.Sys Performing PerformInput PerformOut where
  init s := s = {}
  step := Performing.step bDeliveryVerifySupported

/-! ## The transition that fires -/

/-- Of the idle machine, whatever the event is. `ok`: the predicate of a delivery. -/
def Perform.idleTarget (ok : Bool) (m : Performer) : Option Perform.Action × Perform.State :=
  if ok then (some .aS1S2a, .s2DeliverResultResponseWait)
  else if pS1S5a m then (some .aS1S5a, .s5NotDeliverResultResponseWait)
  else if pS1S5b m then (some .aS1S5b, .s5NotDeliverResultResponseWait)
  else (some .aS1S4a, .s4ErrorResponseWait)

/-- Of the machine that waits for the confirm of a Deliver result. -/
def Perform.resultTarget (bDeliveryVerifySupported : Bool) (m : Performer) :
    FsmEvent → Option Perform.Action × Perform.State
  | .resultConfirm => if allReceived m then (some .aS2S1a, .s1Idle) else (some .aS2S1b, .s1Idle)
  | .failureIndication =>
    if pS2S1e bDeliveryVerifySupported m then (some .aS2S1e, .s1Idle)
    else if pS2S1dPerform bDeliveryVerifySupported m then (some .aS2S1d, .s1Idle)
    else (some .aS2S3a, .s3DeliverVerifyResponseWait)
  | _ => (some .aS2S2a, .s2DeliverResultResponseWait)

/-- Of a machine that waits for the end of its operation. -/
def Perform.lastTarget : Perform.State → FsmEvent → Option Perform.Action × Perform.State
  | .s3DeliverVerifyResponseWait, .resultIndication => (some .aS3S1a, .s1Idle)
  | .s3DeliverVerifyResponseWait, .failureIndication => (some .aS3S1b, .s1Idle)
  | .s4ErrorResponseWait, .errorConfirm => (some .aS4S1a, .s1Idle)
  | .s4ErrorResponseWait, .failureIndication => (some .aS4S1b, .s1Idle)
  | .s5NotDeliverResultResponseWait, .resultConfirm => (some .aS5S1a, .s1Idle)
  | .s5NotDeliverResultResponseWait, .errorConfirm => (some .aS5S1b, .s1Idle)
  | .s5NotDeliverResultResponseWait, .failureIndication => (some .aS5S1c, .s1Idle)
  | _, _ => (some .aUnexpectedEvent, .s1Idle)

/-- The transition that fires, and what its predicates leave. -/
def Perform.fired (bDeliveryVerifySupported : Bool) (env : PerformEnv) (s : Perform.State)
    (evt : FsmEvent) (m : Performer) :
    Option ((Option Perform.Action × Perform.State) × Performer × List PerformOut) :=
  match s with
  | .s1Idle => (pS1S2a env m).map fun r => (idleTarget r.2.1 r.1, r.1, r.2.2)
  | .s2DeliverResultResponseWait => some (resultTarget bDeliveryVerifySupported m evt, m, [])
  | s => some (lastTarget s evt, m, [])

/-- **The table fires it.** -/
theorem Perform.select_fired (v : Bool) (env : PerformEnv) (s : Perform.State) (evt : FsmEvent)
    (m : Performer) :
    let r := select FsmEvent.numbering (Perform.holds v env) evt (Perform.trans s) (some (m, []))
    (r.2.bind fun p => r.1.map fun row => (row.target, p)) = fired v env s evt m := by
  cases s with
  | s1Idle =>
    rcases h : pS1S2a env m with _ | ⟨m', _ | _, o⟩
    · simp [select, Perform.trans, Perform.holds, fired, h]
    · rcases h₁ : pS1S5a m' with _ | _
      · rcases h₂ : pS1S5b m' with _ | _ <;>
          simp [select, Perform.trans, Perform.holds, fired, idleTarget, h, h₁, h₂]
      · simp [select, Perform.trans, Perform.holds, fired, idleTarget, h, h₁]
    · simp [select, Perform.trans, Perform.holds, fired, idleTarget, h]
  | s2DeliverResultResponseWait =>
    cases evt with
    | resultConfirm =>
      rcases h : allReceived m with _ | _ <;>
        simp [select, Perform.trans, Perform.holds, fired, resultTarget, h]
    | failureIndication =>
      rcases h : pS2S1e v m with _ | _
      · rcases h₁ : pS2S1dPerform v m with _ | _ <;>
          simp [select, Perform.trans, Perform.holds, fired, resultTarget, h, h₁]
      · simp [select, Perform.trans, Perform.holds, fired, resultTarget, h]
    | _ => rfl
  | _ => cases evt <;> rfl

/-- `FSM_runMachine` does what its action does. -/
theorem Performing.runMachine_eq (v : Bool) (s : Performing) (evt : FsmEvent) (m : Performer)
    (env : PerformEnv) :
    s.runMachine v evt m env = (Perform.fired v env s.curState evt m).bind fun r =>
      (performAction env r.2.1 r.1.1).map fun a =>
        ({ s with
            curState := r.1.2
            op := a.op
            events := s.events ++ a.events
            requests := s.requests ++ a.requests },
          r.2.2 ++ if a.op.isSome then [] else [.freed]) := by
  unfold Performing.runMachine
  rw [← Perform.select_fired]
  rcases select FsmEvent.numbering (Perform.holds v env) evt (Perform.trans s.curState)
    (some (m, [])) with ⟨_ | row, _ | ⟨m', o⟩⟩ <;> rfl

end Ua
