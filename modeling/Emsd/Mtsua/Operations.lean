import Emsd.Mtsua.Sending

/-!
# The active operations

Both agents keep one list of all operations, inbound and outbound (`mts/oper.c`, `ua/uacore/oper.c`).
An INVOKE with another segment is put to the operation that `findOperationBySequenceId` finds in it
(`mts/mpreproc.c`, `ua/uacore/upreproc.c`); every other INVOKE gets an operation of its own. Here an
operation is what that search reads, and what writes it.
-/

namespace Mtsua

open Ocp

/-- What `hOperationData` points to, as far as the pre-processing looks at it. -/
inductive Argument
  /-- `EMSD_SubmitArgument` of the MTS, `EMSD_DeliverArgument` of the UA. -/
  | message (segmentInfo : Option SegmentInfo)
  | other
  deriving DecidableEq, Repr

/-- `MTS_Operation` and `UA_Operation`. -/
structure Operation where
  operId : Nat
  /-- The device. The UA has no such field: there it is the NSAP that the INVOKE came from. -/
  nsap : NSapAddr
  sequenceId : Nat := 0
  /-- The machine has been loaded with `hPerformerTransDiag`. -/
  performer : Bool
  /-- `hOperationData` of the MTS, one at most; `pendingQHead` of the UA. -/
  pending : List Argument := []
  hFirstOperationData : Option Argument := none
  deriving DecidableEq, Repr

/-- The globals. -/
structure Operations where
  activeOperations : List Operation := []
  /-- `serialNumber` -/
  serialNumber : Nat := 1
  /-- The counter of `aS1S2a`. -/
  sequenceId : Nat := 0

/-- What is seen of the operations. -/
inductive OperationOut
  /-- An INVOKE got an operation of its own. -/
  | created (operId : Nat) (nsap : NSapAddr) (arg : Argument)
  | originated (operId : Nat) (nsap : NSapAddr)
  /-- Another segment was put to an operation. -/
  | attached (operId : Nat) (nsap : NSapAddr) (info : SegmentInfo)
  | rejected
  | freed (operId : Nat)
  deriving DecidableEq, Repr

/-- How the calls of the pre-processing turn out. -/
structure IndicationEnv where
  /-- The operation value is known, and the argument is allocated and parsed. -/
  parse : Bool := true
  /-- `mts_allocOperation`, `ua_allocOperation` -/
  allocOperation : Bool := true
  /-- `FSM_createMachine`, and the machine is put on the user-free list. -/
  createMachine : Bool := true
  /-- `OS_alloc` of the `UA_Pending` -/
  allocPending : Bool := true
  /-- The argument is put on the user-free list. -/
  addUserFree : Bool := true

namespace Operations

/-- An operation is written to. -/
def set (e : Operations) (op : Operation) : Operations :=
  { e with activeOperations := e.activeOperations.map fun o =>
      if o.operId = op.operId then op else o }

/-- `mts_freeOperation`, `ua_freeOperation`. -/
def freeOperation (e : Operations) (operId : Nat) : Operations :=
  { e with activeOperations := e.activeOperations.filter fun o => o.operId ≠ operId }

/-- `mts_allocOperation`, `ua_allocOperation`. -/
def allocOperation (e : Operations) (nsap : NSapAddr) (performer : Bool) : Operations × Operation :=
  let op : Operation := { operId := e.serialNumber, nsap, performer }
  ({ e with
      activeOperations := e.activeOperations ++ [op], serialNumber := e.serialNumber + 1 }, op)

end Operations

/-- `mts_preprocessInvokeIndication` and `ua_preprocessInvokeIndication`. `find`:
`findOperationBySequenceId`; `take`: what follows when the operation is there. -/
def preprocessInvokeIndication
    (find : List Operation → NSapAddr → Nat → Option Operation)
    (take : IndicationEnv → Operations → Operation → Argument → OperationOut →
      Operations × List OperationOut)
    (env : IndicationEnv) (e : Operations) (nsap : NSapAddr) (arg : Argument) :
    Operations × List OperationOut :=
  if env.parse = false then (e, [.rejected])
  else
    match arg with
    | .message (some ⟨sequenceId, .other thisSeg⟩) =>
      match find e.activeOperations nsap sequenceId with
      | none => (e, [.rejected])
      | some op => take env e op arg (.attached op.operId nsap ⟨sequenceId, .other thisSeg⟩)
    | _ =>
      if env.allocOperation = false then (e, [.rejected])
      else
        let r := e.allocOperation nsap true
        if env.createMachine = false then (r.1.freeOperation r.2.operId, [.rejected])
        else take env r.1 r.2 arg (.created r.2.operId nsap arg)

/-- The first segment of several is read: `sequenceId` is saved. -/
def saveSequence (op : Operation) (arg : Argument) : Operation :=
  match arg with
  | .message (some ⟨sequenceId, .first numSegments⟩) =>
    if numSegments = 1 ∨ (numSegments + 2 ^ 32 - 1) % 2 ^ 32 ≥ maxSegments then op
    else { op with sequenceId, hFirstOperationData := some arg }
  | _ => op

end Mtsua

namespace Mts

open Ocp Mtsua

def findOperationBySequenceId (ops : List Mtsua.Operation) (nsap : NSapAddr) (sequenceId : Nat) :
    Option Mtsua.Operation :=
  ops.find? fun op => op.sequenceId = sequenceId && op.nsap.take 4 = nsap.take 4

/-- The argument takes the place of the one before. -/
def takeArgument (env : IndicationEnv) (e : Operations) (op : Mtsua.Operation) (arg : Argument)
    (seen : OperationOut) : Operations × List OperationOut :=
  if env.addUserFree = false then (e.freeOperation op.operId, [.freed op.operId])
  else (e.set { op with pending := [arg] }, [seen])

/-- `mts_preprocessInvokeIndication`. -/
def preprocessInvokeIndication :=
  Mtsua.preprocessInvokeIndication findOperationBySequenceId takeArgument

/-- The predicate `pS1S2a` reads `hOperationData`. -/
def readInvoke (op : Mtsua.Operation) : Mtsua.Operation :=
  match op.pending with
  | arg :: _ => saveSequence op arg
  | [] => op

end Mts

namespace Ua

open Ocp Mtsua

def findOperationBySequenceId (ops : List Operation) (_ : NSapAddr) (sequenceId : Nat) :
    Option Operation :=
  ops.find? fun op => op.sequenceId = sequenceId

/-- The argument is queued. (When `hExtraBuf` cannot be put on the user-free list, it stays queued
although the INVOKE is refused.) -/
def takeArgument (env : IndicationEnv) (e : Operations) (op : Operation) (arg : Argument)
    (seen : OperationOut) : Operations × List OperationOut :=
  if env.allocPending = false ∨ env.addUserFree = false then
    (e.freeOperation op.operId, [.freed op.operId])
  else (e.set { op with pending := op.pending ++ [arg] }, [seen])

/-- `ua_preprocessInvokeIndication`. -/
def preprocessInvokeIndication :=
  Mtsua.preprocessInvokeIndication findOperationBySequenceId takeArgument

/-- The predicate `pS1S2a` takes the first pending argument. -/
def readInvoke (op : Operation) : Operation :=
  match op.pending with
  | arg :: pending => saveSequence { op with pending } arg
  | [] => op

end Ua

namespace Mtsua

open Ocp

namespace Side

def preprocessInvokeIndication : Side → IndicationEnv → Operations → NSapAddr → Argument →
    Operations × List OperationOut
  | .mts => Mts.preprocessInvokeIndication
  | .ua => Ua.preprocessInvokeIndication

def readInvoke : Side → Operation → Operation
  | .mts => Mts.readInvoke
  | .ua => Ua.readInvoke

end Side

/-- What happens to the operations, in any order. -/
inductive OperationInput
  | invokeIndication (nsap : NSapAddr) (arg : Argument) (env : IndicationEnv)
  /-- The predicate of a Performer machine runs. -/
  | readInvoke (operId : Nat)
  /-- `mts_tryDelivery`, `UA_submitMessage`; `ok`: the pre-processing succeeds. -/
  | messageRequest (nsap : NSapAddr) (ok : Bool)
  /-- `aS1S2a` of the Deliver or Submit machine; `segments`: the contents are cut. -/
  | startSending (operId : Nat) (segments : Bool)
  | freeOperation (operId : Nat)

namespace Operations

/-- The operations with one of them changed. -/
def modify (e : Operations) (operId : Nat) (f : Operation → Operation) : Operations :=
  { e with activeOperations := e.activeOperations.map fun o => if o.operId = operId then f o else o }

/-- `mts_tryDelivery` and `UA_submitMessage`. -/
def messageRequest (e : Operations) (nsap : NSapAddr) (ok : Bool) :
    Operations × List OperationOut :=
  let r := e.allocOperation nsap false
  if ok then
    (r.1.set { r.2 with hFirstOperationData := some (.message none) },
      [.originated r.2.operId nsap])
  else (r.1.freeOperation r.2.operId, [])

/-- `aS1S2a` of an outbound operation: contents that are cut get the next `sequenceId`. -/
def startSending (e : Operations) (operId : Nat) (segments : Bool) : Operations :=
  if segments && e.activeOperations.any fun o => o.operId = operId && !o.performer then
    let sequenceId := (e.sequenceId + 1) % 2 ^ 32
    { e.modify operId fun o => if o.performer then o else { o with sequenceId } with sequenceId }
  else e

def step (side : Side) (e : Operations) : OperationInput → Operations × List OperationOut
  | .invokeIndication nsap arg env => side.preprocessInvokeIndication env e nsap arg
  | .readInvoke operId =>
    (e.modify operId fun o => if o.performer then side.readInvoke o else o, [])
  | .messageRequest nsap ok => e.messageRequest nsap ok
  | .startSending operId segments => (e.startSending operId segments, [])
  | .freeOperation operId => (e.freeOperation operId, [.freed operId])

end Operations

/-- The operations of an agent. -/
def operations (side : Side) : Run.Sys Operations OperationInput OperationOut where
  init e := e = {}
  step e i := some (e.step side i)

end Mtsua
