import Emsd.Mtsua.Receiver
import Emsd.Mts.Deliver
import Emsd.Lib.Run

/-!
# The Performer machine (`mts/mperform.c`)

The machine of a message that a device submits: its transitions, predicates and actions, and how
`esrosevt.c` and `mpreproc.c` hand it the indications and confirms of ESROS. A segment is an INVOKE
of its own; the operation that it belongs to has been found already.
-/

namespace Mts

open Ocp Mtsua

/-- `EMSD_SubmitArgument`, as far as the predicate reads it. -/
structure SubmitArgument where
  segmentInfo : Option SegmentInfo
  /-- `contentType` is `EMSD_ContentType_Ipm95`. -/
  ipm95 : Bool
  hContents : Buf
  deriving DecidableEq, Repr

/-- What `hOperationData` points to. -/
inductive OperationData
  | submit (arg : SubmitArgument)
  /-- `EMSD_SubmissionVerifyResult`: `submissionStatus` is `SendMessage`. -/
  | verified (sendMessage : Bool)
  deriving DecidableEq, Repr

/-- `operationValue` of the operation of a message. -/
inductive OperationValue
  | submission
  | submissionVerify
  deriving DecidableEq, Repr

/-- The fields of `MTS_Operation` that the machine uses. -/
structure Performer where
  operationValue : OperationValue := .submission
  invokeId : InvokeId
  /-- `hSapDesc` is `globals.sap.hPerformer3Way`. -/
  performer3Way : Bool
  hOperationData : OperationData
  /-- `contentType` of `hFirstOperationData` is `EMSD_ContentType_Ipm95`. -/
  firstIpm95 : Bool := false
  receiver : Receiver := {}

/-- The states of the machine that a submission can be in. -/
inductive PerformState
  | s1Idle
  | s2SubmitResultResponseWait
  | s3SubmitVerifyResponseWait
  | s4ErrorResponseWait
  deriving DecidableEq, Repr

/-- The transitions of a submission, by the numbers of their states. -/
inductive PerformTrans
  | s1s2a
  | s1s4a
  | s2s1a
  | s2s1b
  | s2s1c
  | s2s1d
  | s2s3a
  | s2s2a
  | s3s1a
  | s3s1b
  | s3s1c
  | s4s1a
  | s4s1b
  | unexpected
  deriving DecidableEq, Repr

def PerformTrans.nextState : PerformTrans → PerformState
  | .s1s2a | .s2s2a => .s2SubmitResultResponseWait
  | .s1s4a => .s4ErrorResponseWait
  | .s2s3a => .s3SubmitVerifyResponseWait
  | _ => .s1Idle

/-- The transitions whose action gives the operation to `mts_freeOperation`. -/
def PerformTrans.frees : PerformTrans → Bool
  | .s2s1a | .s2s1c | .s3s1a | .s3s1b | .s3s1c | .s4s1a | .s4s1b | .unexpected => true
  | _ => false

/-- How the calls that the machine makes turn out. -/
structure PerformEnv extends ReceiveEnv where
  /-- `SUB_getEntry` in the predicate -/
  profile : Bool := true
  /-- `parse_ipm.c` -/
  parseIpm : Bool := true
  /-- `SUB_getEntry` in the action -/
  actionProfile : Bool := true
  /-- The RESULT.request is formatted and accepted by ESROS. -/
  resultReq : Bool := true
  /-- The SUBMIT.verify is formatted. -/
  verifyFormat : Bool := true
  /-- `ESRO_CB_invokeReq` for it, with the identifier of the invocation -/
  invokeReq : Option InvokeId := none
  /-- `SF_memGet` of `FSM_generateEvent` -/
  memGet : Bool := true

/-- What is seen of the machine: a segment that arrives, a segment that is stored, the requests to
ESROS, and the end of the operation. -/
inductive PerformOut
  | arrived (thisSeg : Nat) (hContents : Buf)
  | stored (thisSeg : Nat) (hContents : Buf)
  | resultReq (invokeId : InvokeId)
  | errorReq (invokeId : InvokeId)
  | invokeReq (invokeId : InvokeId)
  | freed
  deriving DecidableEq, Repr

/-! ## Predicates -/

/-- The end of `pS1S2a`: the contents of a complete message are parsed. -/
def parseContents (env : PerformEnv) (ipm95 : Bool) (m : Performer) : Bool :=
  !m.receiver.bComplete || (ipm95 && env.parseIpm)

/-- The argument whose contents `pS1S2a` parses is the first one of the sequence. -/
def contentsIpm95 (m : Performer) (arg : SubmitArgument) (info : SegmentInfo) : Bool :=
  match info.choice with
  | .first _ => arg.ipm95
  | .other _ => m.firstIpm95

/-- `pS1S2a`: a submission on the 3-way SAP, and its segment is taken. There is no result when the
code follows a bad pointer. -/
def pS1S2a (env : PerformEnv) (m : Performer) : Option (Performer × Bool × List PerformOut) :=
  if env.profile = false ∨ m.operationValue ≠ .submission ∨ m.performer3Way = false then
    some (m, false, [])
  else
    match m.hOperationData with
    | .verified _ => none
    | .submit arg =>
      match arg.segmentInfo with
      | none =>
        let m := { m with
          receiver := { m.receiver with bComplete := true, hContents := some arg.hContents } }
        some (m, parseContents env arg.ipm95 m, [])
      | some info =>
        match receiveSegment env.toReceiveEnv m.receiver info arg.hContents with
        | none => none
        | some (receiver, taken) =>
          let m := { m with receiver, firstIpm95 := contentsIpm95 m arg info }
          if taken then
            some (m, parseContents env m.firstIpm95 m, [.stored info.number arg.hContents])
          else some (m, false, [])

/-- `pS2S1a` and, negated, `pS2S1d`: all segments have been received. -/
def allReceived (m : Performer) : Bool := m.receiver.bComplete

/-- `pS3S1a`: the device wants the message sent. -/
def pS3S1a (m : Performer) : Bool := m.hOperationData = .verified true

/-- The transition for an event, with the operation as the predicates leave it. The number of
`InvokeIndication` is that of `FSM_EvtDefault`: its rows match every event. -/
def performTrans (env : PerformEnv) (s : PerformState) (evt : FsmEvent) (m : Performer) :
    Option (PerformTrans × Performer × List PerformOut) :=
  match s, evt with
  | .s1Idle, _ => (pS1S2a env m).map fun r => (if r.2.1 then .s1s2a else .s1s4a, r.1, r.2.2)
  | .s2SubmitResultResponseWait, .resultConfirm =>
    some (if allReceived m then .s2s1a else .s2s1b, m, [])
  | .s2SubmitResultResponseWait, .failureIndication =>
    some (if allReceived m then .s2s3a else .s2s1d, m, [])
  | .s2SubmitResultResponseWait, .segmentationTimerExpired => some (.s2s1c, m, [])
  | .s2SubmitResultResponseWait, _ => some (.s2s2a, m, [])
  | .s3SubmitVerifyResponseWait, .resultIndication =>
    some (if pS3S1a m then .s3s1a else .s3s1b, m, [])
  | .s3SubmitVerifyResponseWait, .failureIndication => some (.s3s1c, m, [])
  | .s4ErrorResponseWait, .errorConfirm => some (.s4s1a, m, [])
  | .s4ErrorResponseWait, .failureIndication => some (.s4s1b, m, [])
  | _, _ => some (.unexpected, m, [])

/-! ## Actions -/

/-- `aS1S2a`: the RESULT of a segment. The number of FAILURE events comes last. -/
def performS1S2a (env : PerformEnv) (m : Performer) : Performer × List PerformOut × Nat :=
  if env.actionProfile = false then (m, [], 0)
  else if env.resultReq then (m, [.resultReq m.invokeId], 0)
  else (m, [], if env.memGet then 1 else 0)

/-- `aS2S3a`: ask the device for the message. -/
def performS2S3a (env : PerformEnv) (m : Performer) : Performer × List PerformOut :=
  if env.actionProfile = false ∨ env.verifyFormat = false then (m, [])
  else
    let m := { m with operationValue := .submissionVerify, performer3Way := false }
    match env.invokeReq with
    | none => (m, [])
    | some id => ({ m with invokeId := id }, [.invokeReq id])

/-- The action of a transition: the operation unless it is freed, what is seen, and the number of
FAILURE events. -/
def performAction (env : PerformEnv) (tr : PerformTrans) (m : Performer) :
    Option Performer × List PerformOut × Nat :=
  if tr.frees then (none, [.freed], 0)
  else
    match tr with
    | .s1s2a =>
      let r := performS1S2a env m
      (some r.1, r.2)
    | .s1s4a => (some m, [.errorReq m.invokeId], 0)
    | .s2s3a =>
      let r := performS2S3a env m
      (some r.1, r.2, 0)
    | _ => (some m, [], 0)

/-! ## Steps -/

/-- The machine of one operation, with the events that the scheduler holds for it. -/
structure Performing where
  curState : PerformState := .s1Idle
  /-- Nothing once the operation has been freed. -/
  op : Option Performer
  events : List FsmEvent

/-- The inputs: indications and confirms of ESROS, each with `SF_memGet` of `FSM_generateEvent`, the
segmentation timer, and the scheduler. -/
inductive PerformInput
  /-- An OTHER segment for the operation, and `mts_operationAddUserFree`. -/
  | invokeIndication (thisSeg : Nat) (ipm95 : Bool) (hContents : Buf) (invokeId : InvokeId)
    (performer3Way addUserFree memGet : Bool)
  | resultConfirm (invokeId : InvokeId) (memGet : Bool)
  | errorConfirm (invokeId : InvokeId) (memGet : Bool)
  | failureIndication (invokeId : InvokeId) (memGet : Bool)
  /-- The result, when it can be parsed. -/
  | resultIndication (invokeId : InvokeId) (sendMessage : Option Bool) (memGet : Bool)
  | errorIndication (invokeId : InvokeId) (memGet : Bool)
  | segmentationTimerExpired
  | schRun (env : PerformEnv)

namespace Performing

/-- `FSM_generateEvent`. -/
def generateEvent (s : Performing) (evt : FsmEvent) (memGet : Bool) : Performing :=
  { s with events := s.events ++ if memGet then [evt] else [] }

/-- An indication for `invokeId`; it is ignored when `findOperationByInvokeId` finds nothing. -/
def indication (s : Performing) (invokeId : InvokeId) (evt : FsmEvent) (memGet : Bool) :
    Performing :=
  match s.op with
  | some m => if m.invokeId = invokeId then s.generateEvent evt memGet else s
  | none => s

/-- `mts_resultIndication`: of the operations of this machine, only a SUBMIT.verify has a result. -/
def resultIndication (s : Performing) (invokeId : InvokeId) (sendMessage : Option Bool)
    (memGet : Bool) : Performing :=
  match s.op, sendMessage with
  | some m, some b =>
    if m.invokeId = invokeId ∧ m.operationValue = .submissionVerify then
      { s with op := some { m with hOperationData := .verified b } }.generateEvent
        .resultIndication memGet
    else s
  | _, _ => s

/-- `mts_invokeIndication` with another segment of the operation. -/
def invokeIndication (s : Performing) (m : Performer) (arg : SubmitArgument) (invokeId : InvokeId)
    (performer3Way addUserFree memGet : Bool) : Performing × List PerformOut :=
  if addUserFree = false then ({ s with op := none }, [.freed])
  else
    ({ s with op := some { m with
        operationValue := .submission
        invokeId
        performer3Way
        hOperationData := .submit arg } }.generateEvent .invokeIndication memGet, [])

/-- `FSM_runMachine` for the first event. -/
def runMachine (s : Performing) (evt : FsmEvent) (m : Performer) (env : PerformEnv) :
    Option (Performing × List PerformOut) :=
  (performTrans env s.curState evt m).map fun t =>
    let r := performAction env t.1 t.2.1
    ({ curState := t.1.nextState
       op := r.1
       events := s.events ++ List.replicate r.2.2 .failureIndication }, t.2.2 ++ r.2.1)

/-- One input. There is no result when the operation that it is for has been freed. -/
def step (s : Performing) : PerformInput → Option (Performing × List PerformOut)
  | .invokeIndication thisSeg ipm95 hContents invokeId performer3Way addUserFree memGet =>
    s.op.map fun m =>
      let r := s.invokeIndication m
        ⟨some ⟨m.receiver.sequenceId, .other thisSeg⟩, ipm95, hContents⟩ invokeId performer3Way
        addUserFree memGet
      (r.1, .arrived thisSeg hContents :: r.2)
  | .resultConfirm invokeId memGet => some (s.indication invokeId .resultConfirm memGet, [])
  | .errorConfirm invokeId memGet => some (s.indication invokeId .errorConfirm memGet, [])
  | .failureIndication invokeId memGet => some (s.indication invokeId .failureIndication memGet, [])
  | .resultIndication invokeId sendMessage memGet =>
    some (s.resultIndication invokeId sendMessage memGet, [])
  | .errorIndication invokeId memGet => some (s.indication invokeId .errorIndication memGet, [])
  | .segmentationTimerExpired =>
    s.op.bind fun m =>
      if m.receiver.hSegmentationTimer then some ({ s with op := none }, [.freed]) else none
  | .schRun env =>
    match s.events with
    | [] => some (s, [])
    | evt :: events => s.op.bind fun m => runMachine { s with events } evt m env

end Performing

/-- An operation that the first of `numSegments` segments has just been read for. -/
def performing (numSegments : Nat) (hContents : Buf) :
    Run.Sys Performing PerformInput PerformOut where
  init s := ∃ sequenceId ipm95 invokeId performer3Way, s = {
    op := some {
      invokeId
      performer3Way
      hOperationData := .submit ⟨some ⟨sequenceId, .first numSegments⟩, ipm95, hContents⟩ }
    events := [.invokeIndication] }
  step := Performing.step

end Mts
