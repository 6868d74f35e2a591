import Emsd.Mtsua.Sender

/-!
# The Deliver machine (`mts/deliver.c`)

The transitions, their predicates and what the actions do to the operation. What they do to the
message store is in `Emsd.Mts.Server`.
-/

namespace Mts

open Mtsua

/-- The events of `MTS_FsmEvent` that a Deliver machine can be given. -/
inductive FsmEvent
  | invokeIndication
  | resultIndication
  | resultConfirm
  | errorIndication
  | errorConfirm
  | failureIndication
  | messageDeliverRequest
  | segmentationTimerExpired
  deriving DecidableEq, Repr

abbrev DeliverState := SendState

abbrev DeliverTrans := SendTrans

/-- `MTS_MAX_FAILURE_RETRIES`. -/
def maxFailureRetries : Nat := 2

/-- `pS2S1a`: the last segment has been sent. -/
def pS2S1a (m : Sender) : Bool := m.bComplete

/-- `pS2S1b`: a transient error. -/
def pS2S1b (m : Sender) : Bool := m.hOperationData = some resourceError

/-- `pS2S1d`: no retries are left. It counts the retry. -/
def pS2S1d (m : Sender) : Bool × Sender :=
  let m := { m with retryCount := m.retryCount + 1 }
  (!(m.retryCount < maxFailureRetries), m)

/-- The transition for an event, with the operation as the predicates leave it. -/
def deliverTrans (s : DeliverState) (evt : FsmEvent) (m : Sender) : DeliverTrans × Sender :=
  match s, evt with
  | .s1Idle, .messageDeliverRequest => (.s1s2a, m)
  | .s2InvokeResponseWait, .resultIndication => (if pS2S1a m then .s2s1a else .s2s2a, m)
  | .s2InvokeResponseWait, .errorIndication => (if pS2S1b m then .s2s1b else .s2s1c, m)
  | .s2InvokeResponseWait, .failureIndication =>
    let p := pS2S1d m
    (if p.1 then .s2s1d else .s2s2b, p.2)
  | _, _ => (.unexpected, m)

/-- The lengths that `aS1S2a` cuts into segments. -/
def segmenting (len : Nat) : Bool :=
  len > maxIpmLenConnectionless && len < minIpmLenConnectionOriented

/-- The operation in `aS1S2a`. -/
def aS1S2a (env : Env) (sequenceId : Nat) (m : Sender) : Nat × Call Sender :=
  startSending segmenting (· > maxSegments) env.protocolTree env sequenceId m

/-- `aS2S2a`. -/
def aS2S2a (env : Env) (m : Sender) : Call Sender := sendNextSegment env.protocolTree env m

/-- `aS2S2b`. -/
def aS2S2b (env : Env) (m : Sender) : Call Sender := sendAgain env m

end Mts
