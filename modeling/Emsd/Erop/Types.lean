import Emsd.Ocp.Data

/-!
# ESROS engine: data model

The records of `invoke.h`, `erop_sap.h`, `eropdu.h`, `eropfsm.h`, `tmr_if.h`, the
argument records of `userout.c`, and what one event may find in its environment (`Env`).

Pointers to an `InvokeInfo` or a `SapInfo` are numbers that are never given out twice, so
that a dangling pointer can be told from a valid one.
-/

namespace Erop

open Ocp

/-- The address of an `InvokeInfo`, which is also the `EROP_InvokeDesc` of the user. -/
abbrev InvokeId := Nat

/-- The address of a `SapInfo`. -/
abbrev SapId := Nat

/-- `ESRO_SapSel`, a `Byte`. -/
abbrev SapSel := UInt8

/-- `EROP_UserInvokeRef`, opaque to the engine. -/
abbrev UserInvokeRef := Nat

inductive EncodingType
  | ber
  | per
  | reserved1
  | reserved2
  deriving DecidableEq, Repr, Inhabited

namespace EncodingType

/-- The value of the enumeration, two bits of a header octet. -/
def bits : EncodingType → Nat
  | ber => 0
  | per => 1
  | reserved1 => 2
  | reserved2 => 3

def ofBits : Nat → EncodingType
  | 0 => ber
  | 1 => per
  | 2 => reserved1
  | _ => reserved2

@[simp] theorem ofBits_bits (t : EncodingType) : ofBits t.bits = t := by cases t <;> rfl

end EncodingType

/-- `ESRO_FailureValue`. -/
def failureTransmission : Int := 0
def failureLocResource : Int := 1
def failureUserNotResponding : Int := 2

/-- `ESRO_2Way` and `ESRO_3Way`, the functional units a SAP can be bound with. -/
inductive FunctionalUnit
  | twoWay
  | threeWay
  deriving DecidableEq, Repr

inductive PduType
  | invoke
  | result
  | error
  | ack
  | failure
  deriving DecidableEq, Repr, Inhabited

/-- `Pdu`, filled in by `inPdu` from a received data unit. -/
structure Pdu where
  data : Option Octets := none
  pdutype : PduType := .invoke
  operationValue : Int := 0
  invokeRefNu : Int := 0
  encodingType : EncodingType := .ber
  fromESROSap : SapSel := 0
  toESROSap : SapSel := 0
  fromTsapSel : TSapSel := []
  fromNsapAddr : NSapAddr := []
  errorValue : Int := 0
  failureValue : Int := 0
  deriving DecidableEq, Repr, Inhabited

/-- `tmr_Name`. -/
inductive TmrName
  | allTimer
  | invokePduRetranTimer
  | resultPduRetranTimer
  | lastTimer
  | inactivityTimer
  | refNuTimer
  | ackTimer
  | perfNoResponseTimer
  deriving DecidableEq, Repr, Inhabited

/-- `TmrData` with the duration its timer was created with. -/
structure TmrData where
  name : TmrName
  time : Int
  data : Int
  deriving DecidableEq, Repr

/-- The event identifiers of `eropfsm.h`, and `FSM_EvtInternal`. -/
inductive Evt
  | internal
  | invokeReq
  | resultReq
  | pduInvoke
  | pduResult
  | pduAck
  | pduFailure
  | invokePduRetranTimer
  | resultPduRetranTimer
  | refNuTimer
  | inactivityTimer
  | lastTimer
  | perfNoResponseTimer
  deriving DecidableEq, Repr

/-- The states of the four transition diagrams. -/
inductive State
  | clInvokerStart
  | invokePduSent
  | ackPduSent
  | invokerRefWait
  | clPerformerStart
  | invokePduReceived
  | ackPduWait
  | performerRefWait
  | cl2InvokerStart
  | invokePduSent2
  | invokerRefWait2
  | cl2PerformerStart
  | invokePduReceived2
  | resultPduRetrans2
  | performerRefWait2
  deriving DecidableEq, Repr

/-- `FSM_TransDiagram`: the diagrams are told apart by their start states. -/
inductive TransDiag
  | clInvoker
  | clPerformer
  | cl2Invoker
  | cl2Performer
  deriving DecidableEq, Repr

/-- `transDiag->state`, where a new machine starts. -/
def TransDiag.state : TransDiag → State
  | clInvoker => .clInvokerStart
  | clPerformer => .clPerformerStart
  | cl2Invoker => .cl2InvokerStart
  | cl2Performer => .cl2PerformerStart

/-- `InvokeInfo`. A new one is taken from a pool of recycled records, so the fields that
nothing has set yet hold old values; their defaults below are never read. -/
structure InvokeInfo where
  transDiag : Option TransDiag := none
  curState : Option State := none
  performingNotInvoking : Bool := false
  locSap : SapId
  userInvokeRef : UserInvokeRef := 0
  remEsroSapSel : SapSel := 0
  remTsapSel : TSapSel := []
  remNsapAddr : NSapAddr := []
  operationValue : Int := 0
  encodingType : EncodingType := .ber
  errorValue : Int := 0
  failureReason : Int := 0
  invokeRefNu : Int := 0
  retransTimeout : Int := 0
  refKeepTime : Int := 0
  rwait : Int := 0
  inactivityDelay : Int := 0
  perfNoResponse : Int := 0
  invokePduSeq : List Octets := []
  resultPduSeq : List Octets := []
  nuOfRetrans : Int := 0
  isResultNotError : Bool := false
  deriving DecidableEq, Repr

/-- `SapInfo`; the call-back functions are its user's. -/
structure SapInfo where
  id : SapId
  sapSel : SapSel
  functionalUnit : FunctionalUnit
  invokeSeq : List InvokeId := []
  deriving DecidableEq, Repr

/-- A queue head per reference number. -/
abbrev RefMap := Nat → List InvokeId

/-- `newRef`, `refToInvokerMap` and `refToPerformerMap`. -/
structure RefTables where
  newRef : Nat
  invoker : RefMap
  performer : RefMap

/-- What `SCH_submit` queues: a call-back function with its argument record, or
`erop_relInvoke` with an `InvokeInfo`. -/
inductive Task
  | invokeInd (invoke : InvokeId) (locESROSap remESROSap : SapSel) (remTsap : TSapSel)
      (remNsap : NSapAddr) (operationValue : Int) (encodingType : EncodingType)
      (parameter : Option Octets)
  | resultInd (invoke : InvokeId) (userInvokeRef : UserInvokeRef) (encodingType : EncodingType)
      (parameter : Option Octets)
  | errorInd (invoke : InvokeId) (userInvokeRef : UserInvokeRef) (encodingType : EncodingType)
      (errorValue : Int) (parameter : Option Octets)
  | resultCnf (invoke : InvokeId) (userInvokeRef : UserInvokeRef)
  | errorCnf (invoke : InvokeId) (userInvokeRef : UserInvokeRef)
  | failureInd (invoke : InvokeId) (userInvokeRef : UserInvokeRef) (failureValue : Int)
  | relInvoke (invoke : InvokeId)
  deriving DecidableEq, Repr

/-- The `InvokeInfo` that a queued function points to. -/
def Task.invoke : Task → InvokeId
  | invokeInd i .. => i
  | resultInd i .. => i
  | errorInd i .. => i
  | resultCnf i _ => i
  | errorCnf i _ => i
  | failureInd i .. => i
  | relInvoke i => i

/-- What the engine does that is seen from outside it. -/
inductive Out
  /-- `UDP_dataReq`, for which `InvokeInfo` it was called if for any, and whether it succeeded. -/
  | udp (invoke : Option InvokeId) (remTsap : TSapSel) (remNsap : NSapAddr) (pdu : Octets)
      (sent : Bool)
  /-- `SCH_submit`. -/
  | sch (task : Task)
  /-- A scheduled call-back function is called. -/
  | cb (task : Task)
  /-- An `InvokeInfo` is given back to its pool. -/
  | released (invoke : InvokeId)
  /-- `EROP_invokeReq` hands out a descriptor. -/
  | invokeDesc (invoke : InvokeId)
  /-- The value a request of the user returns. -/
  | ret (value : Int)
  deriving DecidableEq, Repr

/-- Build options and configuration parameters. -/
structure Config where
  /-- `NO_UPSHELL`: the user runs in the process of the engine. -/
  noUpshell : Bool := true
  /-- `dropResultConfirm`, a switch for tests. -/
  dropResultConfirm : Bool := false
  invokePduSize : Int := 1500
  acknowledgment : Int := 1000
  roundtrip : Int := 5000
  retransmit : Int := 10000
  maxNSDULifeTime : Int := 15000
  retransmitCount : Int := 4

/-- How the calls that can fail turn out while one event is handled. No event makes two
calls of one kind but for data units, whose free lists start the event with `views`
views and `bufs` buffers. -/
structure Env where
  /-- `SF_memGet` -/
  memGet : Bool := true
  /-- `UDP_dataReq` -/
  udpDataReq : Bool := true
  /-- `TMR_create` -/
  tmrCreate : Bool := true
  /-- `SEQ_elemObtain` -/
  seqElemObtain : Bool := true
  views : Nat := 8
  bufs : Nat := 8

/-- `FSM_EventInfo.invokeReq`, as `EROP_invokeReq` receives it. -/
structure InvokeReq where
  userInvokeRef : UserInvokeRef
  remESROSap : SapSel
  remTsap : TSapSel
  remNsap : NSapAddr
  opValue : Int
  encodingType : EncodingType
  parameter : Option Octets
  deriving DecidableEq, Repr, Inhabited

/-- `FSM_EventInfo.resultReq`, and `errorReq`, which adds `errorValue` to it. -/
structure ResultReq where
  isResultNotError : Bool
  userInvokeRef : UserInvokeRef
  encodingType : EncodingType
  errorValue : Int
  parameter : Option Octets
  deriving DecidableEq, Repr, Inhabited

/-- `FSM_EventInfo.tmrInfo`. -/
structure TmrInfo where
  name : TmrName
  datum : Int
  deriving DecidableEq, Repr, Inhabited

/-- What an action can read besides its own `InvokeInfo`. -/
structure Ctx where
  cfg : Config
  env : Env
  /-- the machine that runs -/
  self : InvokeId
  /-- `remNsapAddr` of the `InvokeInfo`s that the reference maps lead to -/
  nsapOf : InvokeId → NSapAddr
  /-- `locSap->sapSel` -/
  locSapSel : SapSel
  /-- `erop_pdu` -/
  pdu : Pdu := default
  tmrInfo : TmrInfo := default
  invokeReq : InvokeReq := default
  resultReq : ResultReq := default

/-- The part of the engine that an action works on: its `InvokeInfo` with the timers in its
`tmrQu`, the reference tables, the free lists of data units, and what it has done so far. -/
structure Machine where
  invoke : InvokeInfo
  tmrQu : List TmrData
  refs : RefTables
  views : Nat
  bufs : Nat
  out : List Out

end Erop
