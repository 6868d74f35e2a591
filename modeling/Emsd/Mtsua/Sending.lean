import Emsd.Mtsua.Segments
import Emsd.Mts.Deliver
import Emsd.Ua.Submit

/-!
# A sender from its request to its end

The machine of one message, with the events that wait for it in the scheduler. ESROS gives one
indication for each invocation that it has accepted; in between, the scheduler runs the machine.
-/

namespace Mtsua

open Ocp

/-- What the Deliver machine and the Submit machine differ in. -/
structure Agent where
  Event : Type
  messageRequest : Event
  resultIndication : Event
  errorIndication : Event
  failureIndication : Event
  trans : SendState → Event → Sender → SendTrans × Sender
  segmenting : Nat → Bool
  tooMany : Nat → Bool
  /-- The protocol tree is found. -/
  tree : Env → Bool

/-- The Deliver machine of the MTS. -/
def deliver : Agent where
  Event := Mts.FsmEvent
  messageRequest := .messageDeliverRequest
  resultIndication := .resultIndication
  errorIndication := .errorIndication
  failureIndication := .failureIndication
  trans := Mts.deliverTrans
  segmenting := Mts.segmenting
  tooMany n := n > maxSegments
  tree := Env.protocolTree

/-- The Submit machine of the UA. -/
def submit : Agent where
  Event := Ua.FsmEvent
  messageRequest := .messageSubmitRequest
  resultIndication := .resultIndication
  errorIndication := .errorIndication
  failureIndication := .failureIndication
  trans := Ua.submitTrans
  segmenting := Ua.segmenting
  tooMany := Ua.tooMany
  tree _ := true

/-- The two agents. -/
inductive Side
  | mts
  | ua
  deriving DecidableEq, Repr

def Side.agent : Side → Agent
  | mts => deliver
  | ua => submit

/-- The indications that end an invocation. -/
inductive Outcome
  | result
  | error
  | failure
  deriving DecidableEq, Repr

def Agent.event (A : Agent) : Outcome → A.Event
  | .result => A.resultIndication
  | .error => A.errorIndication
  | .failure => A.failureIndication

/-- The machine, its operation, and the events that the scheduler holds for it. -/
structure Sending (A : Agent) where
  curState : SendState := .s1Idle
  /-- Nothing once the operation has been freed, or the code has followed a bad pointer. -/
  sender : Option Sender
  events : List A.Event
  /-- ESROS owes an indication. -/
  outstanding : Bool := false
  /-- The static counter of `aS1S2a`. -/
  sequenceId : Nat

inductive SendInput
  /-- An indication, and `SF_memGet` of `FSM_generateEvent`. -/
  | indication (o : Outcome) (memGet : Bool)
  | schRun (env : Env)

inductive SendEvent
  | send (o : SendOut)
  | result
  | success
  deriving DecidableEq, Repr

namespace Sending

variable {A : Agent}

/-- What an action leaves behind. -/
def goOn (s : Sending A) (c : Call Sender) : Sending A × List SendEvent :=
  ({ s with
    sender := c.2
    events := s.events ++ List.replicate (c.1.count .generateFailure) A.failureIndication
    outstanding := s.outstanding || c.1.any fun o => match o with
      | .invokeReq _ _ => true
      | _ => false }, c.1.map .send)

/-- `FSM_runMachine` for the first event. -/
def runMachine (s : Sending A) (evt : A.Event) (m : Sender) (env : Env) :
    Sending A × List SendEvent :=
  let r := A.trans s.curState evt m
  let s := { s with curState := r.1.nextState }
  match r.1 with
  | .s1s2a =>
    let c := startSending A.segmenting A.tooMany (A.tree env) env s.sequenceId r.2
    { s with sequenceId := c.1 }.goOn c.2
  | .s2s2a => s.goOn (sendNextSegment (A.tree env) env r.2)
  | .s2s2b => s.goOn (sendAgain env r.2)
  | .s2s1a => ({ s with sender := none }, [.success])
  | _ => ({ s with sender := none }, [])

/-- One input. There is no result where ESROS owes no indication, or where the operation of an event
is gone. -/
def step (s : Sending A) : SendInput → Option (Sending A × List SendEvent)
  | .indication o memGet =>
    if s.outstanding then
      some ({ s with
        outstanding := false
        events := s.events ++ if memGet then [A.event o] else [] },
        if o = .result then [.result] else [])
    else none
  | .schRun env =>
    match s.events with
    | [] => some (s, [])
    | evt :: events => s.sender.map fun m => runMachine { s with events } evt m env

end Sending

/-- A message that is to be sent, with its formatted contents and any value of the counter. -/
def sending (A : Agent) (hFullPduBuf : Buf) : Run.Sys (Sending A) SendInput SendEvent where
  init s := ∃ sequenceId, s = { sender := some { hFullPduBuf }, events := [A.messageRequest], sequenceId }
  step := Sending.step

end Mtsua
