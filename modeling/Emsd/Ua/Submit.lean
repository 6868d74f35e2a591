import Emsd.Mtsua.Sender

/-!
# The Submit machine (`ua/uacore/submit.c`)

The transitions, their predicates and the actions. They are those of the Deliver machine but for the
lengths that are cut into segments, a missing error, and the number of retries, which is zero.
-/

namespace Ua

open Mtsua

/-- `UA_FsmEvent`. -/
inductive FsmEvent
  | invokeIndication
  | resultIndication
  | resultConfirm
  | errorIndication
  | errorConfirm
  | failureIndication
  | messageSubmitRequest
  | segmentationTimerExpired
  | deliveryControlRequest
  deriving DecidableEq, Repr

abbrev SubmitState := SendState

abbrev SubmitTrans := SendTrans

/-- `UA_MAX_FAILURE_RETRIES`. -/
def maxFailureRetries : Nat := 0

/-- `pS2S1a`: the last segment has been sent. -/
def pS2S1a (m : Sender) : Bool := m.bComplete

/-- `pS2S1b`: a transient error, which a missing one is taken for. -/
def pS2S1b (m : Sender) : Bool :=
  match m.hOperationData with
  | some error => error = resourceError
  | none => true

/-- `pS2S1d`: no retries are left. It counts the retry. -/
def pS2S1d (m : Sender) : Bool × Sender :=
  let m := { m with retryCount := m.retryCount + 1 }
  (!(m.retryCount ≤ maxFailureRetries), m)

/-- The transition for an event, with the operation as the predicates leave it. -/
def submitTrans (s : SubmitState) (evt : FsmEvent) (m : Sender) : SubmitTrans × Sender :=
  match s, evt with
  | .s1Idle, .messageSubmitRequest => (.s1s2a, m)
  | .s2InvokeResponseWait, .resultIndication => (if pS2S1a m then .s2s1a else .s2s2a, m)
  | .s2InvokeResponseWait, .errorIndication => (if pS2S1b m then .s2s1b else .s2s1c, m)
  | .s2InvokeResponseWait, .failureIndication =>
    let p := pS2S1d m
    (if p.1 then .s2s1d else .s2s2b, p.2)
  | _, _ => (.unexpected, m)

/-- The lengths that `aS1S2a` cuts into segments. -/
def segmenting (len : Nat) : Bool := len > maxIpmLenConnectionless

/-- The number of segments that `aS1S2a` refuses. -/
def tooMany (_numSegments : Nat) : Bool := false

/-- The operation in `aS1S2a`. -/
def aS1S2a (env : Env) (sequenceId : Nat) (m : Sender) : Nat × Call Sender :=
  startSending segmenting tooMany true env sequenceId m

/-- `aS2S2a`. -/
def aS2S2a (env : Env) (m : Sender) : Call Sender := sendNextSegment true env m

/-- `aS2S2b`. -/
def aS2S2b (env : Env) (m : Sender) : Call Sender := sendAgain env m

end Ua
