import Emsd.Mtsua.Sequence

/-!
# Submissions (`ua/uacore/ua.c`, `esroevt.c`, `upreproc.c`, `submit.c`)

Messages from the UA shell, each with an operation of its own out of the outbound pool: how
`UA_submitMessage` accepts one, how the indications of ESROS come to its machine, and how the machine
calls the shell back.
-/

namespace Ua

open Ocp Mtsua

/-- A submission. `hMessage` numbers the handles, since the address of an operation that has been
freed may be that of a later one. -/
structure Submission where
  hMessage : Nat
  curState : SubmitState := .s1Idle
  sender : Sender
  /-- What the scheduler holds for the machine. -/
  events : List FsmEvent := []
  /-- The invocations that ESROS has accepted and not concluded. -/
  invocations : Nat := 0
  deriving DecidableEq, Repr

/-- How the calls of `UA_submitMessage` turn out. -/
structure SubmitEnv where
  /-- `mtsNsap` has been configured. -/
  mtsNsap : Bool := true
  /-- `OS_alloc` of the operation -/
  osAlloc : Bool := true
  /-- `ua_preprocessSubmitRequest` -/
  preprocess : Bool := true
  /-- `SF_memGet` of `FSM_generateEvent` -/
  memGet : Bool := true

/-- The parameter of a RESULT or an ERROR, and how the calls that handle it turn out. -/
structure View where
  /-- `viewToBuf` -/
  toBuf : Bool := true
  /-- `mtsua_allocSubmitRes`, `mtsua_allocErrorRequest` -/
  alloc : Bool := true
  /-- `ua_operationAddUserFree` -/
  addUserFree : Bool := true
  /-- `ASN_parse` -/
  parse : Bool := true
  /-- What stands where an `EMSD_ErrorRequest` has its error. -/
  error : Nat := 0
  deriving DecidableEq, Repr

/-- An indication of ESROS. -/
inductive Indication
  | result (hView : Option View)
  | error (hView : Option View)
  | failure
  deriving DecidableEq, Repr

/-- The submissions of the UA. -/
structure Submissions where
  /-- What is left of the pool. -/
  concurrentOperationsOutbound : Nat
  operations : List Submission := []
  /-- The next handle. -/
  nextMessage : Nat := 0
  /-- The static counter of `aS1S2a`. -/
  sequenceId : Nat := 0

/-- What the UA shell sees. -/
inductive SubmitOut
  /-- `UA_submitMessage` returns Success. -/
  | submitted (hMessage : Nat)
  /-- `UA_submitMessage` fails. -/
  | refused
  /-- `pfSubmitSuccess` -/
  | submitSuccess (hMessage : Nat)
  /-- `pfSubmitFail` -/
  | submitFail (hMessage : Nat) (transient : Bool)
  deriving DecidableEq, Repr

/-- The inputs; `n` is the place of an operation on the list. -/
inductive SubmitInput
  | submitMessage (hFullPduBuf : Buf) (env : SubmitEnv)
  /-- An indication for an invocation of the operation, and `SF_memGet` of `FSM_generateEvent`. -/
  | indication (n : Nat) (ind : Indication) (memGet : Bool)
  /-- The scheduler runs the machine. -/
  | schRun (n : Nat) (env : Env)

/-- `ua_preprocessResultIndication` and `ua_preprocessErrorIndication` of a submission. -/
def View.preprocess (hView : View) : Bool := hView.alloc && hView.addUserFree && hView.parse

/-- `UA_submitMessage` comes to an operation with a machine, out of a pool with this much left. -/
def SubmitEnv.accepts (env : SubmitEnv) (pool : Nat) : Bool :=
  env.mtsNsap && decide (pool ≠ 0) && env.osAlloc && env.preprocess

namespace Submission

/-- `FSM_generateEvent`. -/
def generateEvent (x : Submission) (evt : FsmEvent) (memGet : Bool) : Submission :=
  { x with events := x.events ++ if memGet then [evt] else [] }

/-- The parameter is handled, and an event generated for it. A failure is ignored. -/
def preprocess (x : Submission) (hView : View) (evt : FsmEvent) (memGet : Bool) : Submission :=
  if hView.toBuf = false then x
  else if hView.preprocess = false then x
  else
    let x := { x with sender := { x.sender with hOperationData := some hView.error } }
    x.generateEvent evt memGet

/-- `ua_resultIndication`. -/
def resultIndication (x : Submission) (hView : Option View) (memGet : Bool) : Submission :=
  match hView with
  | none => x
  | some hView => x.preprocess hView .resultIndication memGet

/-- `ua_errorIndication`. -/
def errorIndication (x : Submission) (hView : Option View) (memGet : Bool) : Submission :=
  match hView with
  | none => x.generateEvent .errorIndication memGet
  | some hView => x.preprocess hView .errorIndication memGet

/-- An indication. -/
def indication (x : Submission) (memGet : Bool) : Indication → Submission
  | .result hView => x.resultIndication hView memGet
  | .error hView => x.errorIndication hView memGet
  | .failure => x.generateEvent .failureIndication memGet

/-- ESROS has accepted an invocation. -/
def invoked : SendOut → Bool
  | .invokeReq _ _ => true
  | _ => false

/-- What an action that sends leaves behind; nothing when the code has followed a bad pointer. -/
def goOn (x : Submission) (c : Call Sender) : Option Submission :=
  c.2.map fun sender =>
    { x with
      sender
      events := x.events ++ List.replicate (c.1.count .generateFailure) .failureIndication
      invocations := x.invocations + c.1.countP invoked }

/-- `FSM_runMachine`: the counter, what is left of the submission, and what the shell sees. -/
def runMachine (x : Submission) (evt : FsmEvent) (sequenceId : Nat) (env : Env) :
    Option (Nat × Option Submission × List SubmitOut) :=
  let r := submitTrans x.curState evt x.sender
  let x := { x with curState := r.1.nextState }
  match r.1 with
  | .s1s2a =>
    let c := aS1S2a env sequenceId r.2
    (x.goOn c.2).map fun x => (c.1, some x, [])
  | .s2s2a => (x.goOn (aS2S2a env r.2)).map fun x => (sequenceId, some x, [])
  | .s2s2b => (x.goOn (aS2S2b env r.2)).map fun x => (sequenceId, some x, [])
  | .s2s1a => some (sequenceId, none, [.submitSuccess x.hMessage])
  | .s2s1b => some (sequenceId, none, [.submitFail x.hMessage true])
  | .s2s1c => some (sequenceId, none, [.submitFail x.hMessage false])
  | .s2s1d => some (sequenceId, none, [.submitFail x.hMessage true])
  | .unexpected => some (sequenceId, none, [])

end Submission

namespace Submissions

/-- `UA_submitMessage`. An operation that fails in the preprocessing is freed again. -/
def submitMessage (s : Submissions) (hFullPduBuf : Buf) (env : SubmitEnv) :
    Submissions × List SubmitOut :=
  if env.accepts s.concurrentOperationsOutbound then
    let x : Submission := { hMessage := s.nextMessage, sender := { hFullPduBuf } }
    ({ s with
        concurrentOperationsOutbound := s.concurrentOperationsOutbound - 1
        operations := s.operations ++ [x.generateEvent .messageSubmitRequest env.memGet]
        nextMessage := s.nextMessage + 1 }, [.submitted s.nextMessage])
  else (s, [.refused])

/-- The operation at place `n` is what the machine has left of it: `ua_freeOperation` gives its slot
back to the pool. -/
def put (s : Submissions) (n : Nat) (sequenceId : Nat) : Option Submission → Submissions
  | some x => { s with operations := s.operations.set n x, sequenceId }
  | none =>
    { s with
      concurrentOperationsOutbound := s.concurrentOperationsOutbound + 1
      operations := s.operations.eraseIdx n
      sequenceId }

/-- One input. There is no result without such an operation, where ESROS owes no indication, or
where the scheduler has no event. -/
def step (s : Submissions) : SubmitInput → Option (Submissions × List SubmitOut)
  | .submitMessage hFullPduBuf env => some (s.submitMessage hFullPduBuf env)
  | .indication n ind memGet =>
    s.operations[n]?.bind fun x =>
      if x.invocations = 0 then none
      else
        let x : Submission := { x with invocations := x.invocations - 1 }
        some (s.put n s.sequenceId (some (x.indication memGet ind)), [])
  | .schRun n env =>
    s.operations[n]?.bind fun x =>
      match x.events with
      | [] => none
      | evt :: events =>
        (Submission.runMachine { x with events } evt s.sequenceId env).map fun r =>
          (s.put n r.1 r.2.1, r.2.2)

end Submissions

/-- The submissions of a UA with an outbound pool of this size, from any value of the counter. -/
def submitting (capacity : Nat) : Run.Sys Submissions SubmitInput SubmitOut where
  init s := ∃ sequenceId, s = { concurrentOperationsOutbound := capacity, sequenceId }
  step := Submissions.step

end Ua
