import Emsd.Mts.MessageStore
import Emsd.Mts.Deliver
import Emsd.Lib.Run

/-!
# The delivery side of the message transfer server

The message store, the Deliver operations and their machines, and the queue of the scheduler. One
input is one call from outside: a message that is spooled (`msg_addMessage`), the delivery timer
(`mts_tryDelivery`, `todevice.c`), an indication of ESROS (`esrosevt.c`), or one turn of the
scheduler, which runs a machine or deletes it.
-/

namespace Mts

open Ocp Mtsua

/-- An `MTS_Operation` in memory, and an `fsm_Machine`. -/
abbrev OpId := Nat

abbrev FsmId := Nat

/-- What `aS1S2a` chooses by the device's version and mode: the operation value, the SAPs. -/
inductive DeliverService
  | v1_0ThreeWay
  | v1_1TwoWay
  | v1_1ThreeWay
  deriving DecidableEq, Repr

/-- `MTS_Operation` of a delivery. -/
structure Operation where
  pControlData : MsgId
  nsap : NSapAddr
  service : Option DeliverService := none
  sender : Sender
  /-- The machines on the user-free list; the last one is `hFsm`. -/
  fsms : List FsmId := []

/-- A machine, with its user data. -/
structure Machine where
  curState : DeliverState
  userData : OpId

/-- `fsm_scheduledRunMachine` and `fsm_scheduledDeleteMachine`. -/
inductive Task
  | runMachine (m : FsmId) (evt : FsmEvent)
  | deleteMachine (m : FsmId)
  deriving DecidableEq, Repr

/-- `globals.retryTimes`. -/
structure Config where
  retryTimes : List Nat := [600, 1800, 3600]

structure Server where
  store : Store := {}
  ops : OpId → Option Operation := fun _ => none
  activeOperations : List OpId := []
  nextOp : OpId := 0
  fsms : FsmId → Option Machine := fun _ => none
  nextFsm : FsmId := 0
  schQu : List Task := []
  /-- The static counter of `aS1S2a`. -/
  sequenceId : Nat := 0

/-- A non-delivery report, a status that `msg_updateMessageStatus` has set, and what the senders do. -/
inductive Out
  | nonDel (r : NonDel)
  | setStatus (p : MsgId) (status : MqStatus)
  | sender (op : OpId) (o : SendOut)
  deriving DecidableEq, Repr

/-- How the calls of one turn of the loop in `mts_tryDelivery` turn out. -/
structure Try where
  /-- `time(NULL)` of `msg_cleanQueue`, of `msg_getMessage`, and of `msg_deleteMessage`. -/
  cleaned : Time
  now : Time
  deleted : Time
  /-- `mts_allocOperation` -/
  alloc : Bool := true
  /-- `mts_preprocessDeliverRequest`: the formatted message. -/
  pdu : Option Buf
  /-- `SF_memGet` of `FSM_generateEvent` -/
  memGet : Bool := true

inductive Input
  | addMessage (pMsgId pOriginator : String) (recips : List Recipient)
  | tryDelivery (tries : List Try)
  | resultIndication (invokeId : InvokeId) (memGet : Bool)
  | errorIndication (invokeId : InvokeId) (memGet : Bool)
  | failureIndication (invokeId : InvokeId) (memGet : Bool)
  /-- An INVOKE.indication asks for the deliveries to its NSAP. -/
  | deliverNow (nsap : NSapAddr) (now : Time)
  /-- SIGUSR2 -/
  | dumpQueue
  | schRun (env : Env) (now : Time)

namespace Server

variable (cfg : Config)

def setOp (e : Server) (i : OpId) (op : Operation) : Server :=
  { e with ops := Function.update e.ops i (some op) }

def setFsm (e : Server) (m : FsmId) (fsm : Machine) : Server :=
  { e with fsms := Function.update e.fsms m (some fsm) }

/-- `FSM_generateEvent`. -/
def generateEvent (e : Server) (m : FsmId) (evt : FsmEvent) (memGet : Bool) : Server :=
  if memGet then { e with schQu := e.schQu ++ [.runMachine m evt] } else e

/-- `mts_allocOperation`. -/
def mtsAllocOperation (e : Server) : Server :=
  { e with
    ops := Function.update e.ops e.nextOp
      (some { pControlData := 0, nsap := [], sender := { hFullPduBuf := ⟨[], 0, 0⟩ } })
    activeOperations := e.activeOperations ++ [e.nextOp]
    nextOp := e.nextOp + 1 }

/-- `mts_freeOperation`: the machines on the user-free list are deleted by the scheduler. -/
def mtsFreeOperation (e : Server) (i : OpId) (op : Operation) : Server :=
  { e with
    ops := Function.update e.ops i none
    activeOperations := e.activeOperations.erase i
    schQu := e.schQu ++ op.fsms.map .deleteMachine }

/-- `FSM_createMachine` and `FSM_TRANSDIAG_resetMachine`. -/
def createMachine (e : Server) (i : OpId) : Server :=
  { e.setFsm e.nextFsm ⟨.s1Idle, i⟩ with nextFsm := e.nextFsm + 1 }

/-- The operation, the profile and the machine of a message that has been taken for delivery;
`none` is a failure of `mts_preprocessDeliverRequest`. -/
def beginDelivery (e : Server) (t : Try) (p : MsgId) (i : OpId) : Option (Server × Bool) := do
  let op ← e.ops i
  let d ← e.store.heap p
  let q ← e.store.recip d.pRecipQueue
  let profile := q.deviceProfile.checked
  let e := { e with store := e.store.setRecip d.pRecipQueue { q with deviceProfile := profile } }
  let op := { op with pControlData := p, nsap := q.deviceProfile.nsap }
  match t.pdu with
  | none =>
    let store ← msgDeleteMessage e.store p t.deleted
    some (mtsFreeOperation { e with store } i op, false)
  | some hFullPduBuf =>
    let m := e.nextFsm
    let e := (e.createMachine i).setOp i { op with
      sender := { op.sender with hFullPduBuf, segmentInfo := none }
      fsms := op.fsms ++ [m] }
    some (e.generateEvent m .messageDeliverRequest t.memGet, true)

/-- One turn of the loop in `mts_tryDelivery`. `pOperation` keeps its value from turn to turn; where
no operation has been allocated yet, it is null. The loop goes on where a delivery has begun, which
is then that of the operation in the result. -/
def tryTurn (t : Try) (pOperation : Option OpId) (e : Server) :
    Option (Server × List Out × Option OpId) := do
  let (pMsg, store, out) ← msgGetMessage e.store t.cleaned t.now
  let e := { e with store }
  match pMsg with
  | none => some (e, out.map .nonDel, none)
  | some p =>
    let (e, pOperation) := if t.alloc then (e.mtsAllocOperation, some e.nextOp) else (e, pOperation)
    let i ← pOperation
    let (e, begun) ← beginDelivery e t p i
    some (e, out.map .nonDel, if begun then some i else none)

/-- `mts_tryDelivery`. -/
def mtsTryDelivery : List Try → Option OpId → Server → Option (Server × List Out)
  | [], _, _ => none
  | t :: tries, pOperation, e => do
    let (e, out, next) ← tryTurn t pOperation e
    match next with
    | none => some (e, out)
    | some i =>
      let (e, out') ← mtsTryDelivery tries (some i) e
      some (e, out ++ out')

/-- `findOperationByInvokeId`. -/
def findOperationByInvokeId (e : Server) (invokeId : InvokeId) : Option Operation :=
  (e.activeOperations.filterMap e.ops).find? (·.sender.invokeId = some invokeId)

/-- `mts_resultIndication`, `mts_errorIndication`, `mts_failureIndication`: the indication becomes an
event of the operation's machine. The error that `mts_preprocessErrorIndication` has parsed is not
handed to the operation. -/
def indication (e : Server) (invokeId : InvokeId) (evt : FsmEvent) (memGet : Bool) : Server :=
  match e.findOperationByInvokeId invokeId with
  | none => e
  | some op =>
    match op.fsms.getLast? with
    | none => e
    | some m => e.generateEvent m evt memGet

/-- The service of a delivery. -/
def deliverService (p : DeviceProfile) : DeliverService :=
  if p.protocolVersionMajor = 1 ∧ p.protocolVersionMinor = 0 then .v1_0ThreeWay
  else if p.efficient then .v1_1TwoWay
  else .v1_1ThreeWay

/-- The delay in `deliveryRespool`. -/
def respoolDelay (failureCount : Nat) : Option Nat := do
  let retryIndex := if cfg.retryTimes.length > failureCount then failureCount
    else cfg.retryTimes.length - 1
  let delay ← cfg.retryTimes[retryIndex]?
  some (if delay < 3 * 60 ∨ delay > 4 * 60 * 60 then 10 * 60 else delay)

/-- `deliveryRespool`. -/
def deliveryRespool (s : Store) (p : MsgId) (now : Time) : Option Store := do
  let d ← s.heap p
  let q ← s.recip d.pRecipQueue
  let delay ← respoolDelay cfg q.failureCount
  some ((s.setMsg p { d with
    lastAttempt := now
    failureCount := d.failureCount + 1
    status := .failed }).setRecip d.pRecipQueue { q with
    lastAttempt := now
    nextAttempt := now + delay
    status := .ready })

/-- What an action does to the operation's memory: it goes on, or the delivery ends. -/
def goOn (e : Server) (m : FsmId) (i : OpId) (op : Operation) (c : Call Sender) :
    Option (Server × List Out) := do
  let sender ← c.2
  let e := e.setOp i { op with sender }
  let failures := c.1.count .generateFailure
  some ({ e with schQu := e.schQu ++ List.replicate failures (.runMachine m .failureIndication) },
    c.1.map (.sender i))

/-- The action of a transition. -/
def action (t : DeliverTrans) (env : Env) (now : Time) (e : Server) (m : FsmId) (i : OpId)
    (op : Operation) : Option (Server × List Out) :=
  match t with
  | .s1s2a => do
    let d ← e.store.heap op.pControlData
    let q ← e.store.recip d.pRecipQueue
    let r := aS1S2a env e.sequenceId op.sender
    goOn { e with sequenceId := r.1 } m i
      { op with service := some (deliverService q.deviceProfile) } r.2
  | .s2s1a => do
    let (store, set) ← msgUpdateMessageStatus e.store op.pControlData .succeded now
    some (mtsFreeOperation { e with store } i op,
      if set then [.setStatus op.pControlData .succeded] else [])
  | .s2s1b | .s2s1d => do
    let store ← deliveryRespool cfg e.store op.pControlData now
    some (mtsFreeOperation { e with store } i op, [])
  | .s2s1c => do
    let d ← e.store.heap op.pControlData
    let report := mtsDeliveryNonDel op.pControlData d (op.sender.hOperationData.getD 0)
    let store ← msgDeleteMessage e.store op.pControlData now
    some (mtsFreeOperation { e with store } i op, [.nonDel report])
  | .s2s2a => goOn e m i op (aS2S2a env op.sender)
  | .s2s2b => goOn e m i op (aS2S2b env op.sender)
  | .unexpected => some (mtsFreeOperation e i op, [])

/-- `FSM_runMachine`. -/
def runMachine (e : Server) (m : FsmId) (evt : FsmEvent) (env : Env) (now : Time) :
    Option (Server × List Out) := do
  let fsm ← e.fsms m
  let op ← e.ops fsm.userData
  let (t, sender) := deliverTrans fsm.curState evt op.sender
  let op := { op with sender }
  let (e, out) ← action cfg t env now e m fsm.userData op
  some (e.setFsm m { fsm with curState := t.nextState }, out)

/-- One task of the scheduler. -/
def runTask (e : Server) (env : Env) (now : Time) : Option (Server × List Out) :=
  match e.schQu with
  | [] => some (e, [])
  | .runMachine m evt :: schQu => runMachine cfg { e with schQu } m evt env now
  | .deleteMachine m :: schQu =>
    some ({ e with schQu, fsms := Function.update e.fsms m none }, [])

/-- One call from outside. There is no result where the code follows a pointer to freed memory or a
null pointer, or where a list of tries is shorter than the loop. -/
def step (e : Server) : Input → Option (Server × List Out)
  | .addMessage pMsgId pOriginator recips =>
    (msgAddMessage pMsgId pOriginator recips 0 e.store).map fun store => ({ e with store }, [])
  | .tryDelivery tries => mtsTryDelivery tries none e
  | .resultIndication id memGet => some (e.indication id .resultIndication memGet, [])
  | .errorIndication id memGet => some (e.indication id .errorIndication memGet, [])
  | .failureIndication id memGet => some (e.indication id .failureIndication memGet, [])
  | .deliverNow nsap now => some ({ e with store := msgDeliverNow e.store nsap now }, [])
  | .dumpQueue => some ({ e with store := { e.store with dumpDeliveryQueue := true } }, [])
  | .schRun env now => runTask cfg e env now

end Server

/-- The delivery side of the server, started with empty queues. -/
def server (cfg : Config) : Run.Sys Server Input Out where
  init e := e = {}
  step := Server.step cfg

end Mts
