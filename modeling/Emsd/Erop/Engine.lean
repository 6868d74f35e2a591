import Emsd.Erop.Diagrams
import Emsd.Lib.Run

/-!
# The engine

The state of an ESROS engine and its entry points: received data units (`lowerind.c`,
`pduin.c`), timers (`erop_timerRsp`), the scheduler, the user's requests (`userin.c`) and
SAPs (`erop_sap.c`). `step` handles one event; the calls that can fail in it turn out as
the event's `Env` says.

A step is `none` where the source would go through a dangling pointer, and for an event
that cannot occur (a timer that is not armed, an empty scheduler queue).
-/

namespace Erop

open Ocp

structure Engine where
  /-- the `InvokeInfo`s that are not in their pool -/
  heap : InvokeId → Option InvokeInfo
  /-- `tmrQu` of each `InvokeInfo`, whose timers stay armed when it is freed -/
  tmrQu : InvokeId → List TmrData
  nextId : InvokeId
  /-- `sapInfoSeq` -/
  saps : List SapInfo
  nextSap : SapId
  refs : RefTables
  /-- the scheduler's queue, in the order of submission -/
  schQu : List Task

namespace Engine

/-- After `EROP_init`: `newRef` comes from the clock, or is `totalRefNumbers`. -/
def init (newRef : Nat) : Engine where
  heap _ := none
  tmrQu _ := []
  nextId := 0
  saps := []
  nextSap := 0
  refs := ⟨newRef, fun _ => [], fun _ => []⟩
  schQu := []

def nsapOf (e : Engine) (i : InvokeId) : NSapAddr := ((e.heap i).map (·.remNsapAddr)).getD []

/-- `erop_getSapInfo`. -/
def getSapInfo (e : Engine) (sapSel : SapSel) : Option SapInfo :=
  e.saps.find? fun s => s.sapSel = sapSel

def sapOf (e : Engine) (id : SapId) : Option SapInfo := e.saps.find? fun s => s.id = id

/-- The `InvokeInfo` with its timers as an action sees them. -/
def load (e : Engine) (c : Ctx) (v : InvokeInfo) : Machine :=
  ⟨v, e.tmrQu c.self, e.refs, c.env.views, c.env.bufs, []⟩

/-- The functions that a list of outputs submits to the scheduler. -/
def submitted (out : List Out) : List Task :=
  out.filterMap fun o => match o with
    | .sch t => some t
    | _ => none

/-- The engine after an action has run. -/
def store (e : Engine) (i : InvokeId) (m : Machine) : Engine :=
  { e with
    heap := Function.update e.heap i (some m.invoke)
    tmrQu := Function.update e.tmrQu i m.tmrQu
    refs := m.refs
    schQu := e.schQu ++ submitted m.out }

/-- Run the machine of `c.self`, whose `InvokeInfo` is `v`. -/
def run (e : Engine) (c : Ctx) (v : InvokeInfo) (evtId : Evt) : Engine × List Out × SuccFail :=
  let r := runMachine c (e.load c v) evtId
  (e.store c.self r.1, r.1.out, r.2)

/-- What an event's actions read of the engine. -/
def ctx (e : Engine) (cfg : Config) (env : Env) (i : InvokeId) (v : InvokeInfo) : Ctx where
  cfg := cfg
  env := env
  self := i
  nsapOf := e.nsapOf
  locSapSel := ((e.sapOf v.locSap).map (·.sapSel)).getD 0

/-! ## Creation and release (`invoke.c`) -/

/-- The element is put at the end of its SAP's `invokeSeq`. -/
def addInvoke (saps : List SapInfo) (sap : SapId) (i : InvokeId) : List SapInfo :=
  saps.map fun s => if s.id = sap then { s with invokeSeq := s.invokeSeq ++ [i] } else s

/-- `erop_invokeInfoCreate`, when the pool has an element. -/
def invokeInfoCreate (e : Engine) (sap : SapId) : Engine :=
  { e with
    heap := Function.update e.heap e.nextId (some { locSap := sap })
    tmrQu := Function.update e.tmrQu e.nextId []
    nextId := e.nextId + 1
    saps := addInvoke e.saps sap e.nextId }

/-- `erop_relInvoke`: no timer is cancelled here. -/
def relInvoke (e : Engine) (i : InvokeId) : Engine :=
  { e with
    heap := Function.update e.heap i none
    saps := e.saps.map fun s => { s with invokeSeq := s.invokeSeq.filter (· ≠ i) }
    refs := refFree e.refs i }

/-! ## Received data units (`pduin.c`, `lowerind.c`) -/

/-- The duplicate test of `erop_getInvoke` for one element of `invokeSeq`. -/
def isDuplicate (e : Engine) (pdu : Pdu) (i : InvokeId) : Bool :=
  match e.heap i with
  | none => false
  | some v => v.invokeRefNu = pdu.invokeRefNu && nSapAddrCmp v.remNsapAddr pdu.fromNsapAddr = 0

/-- `erop_CLPerformerTransDiag` or `erop_2CLPerformerTransDiag`, by the functional unit. -/
def performerDiag : FunctionalUnit → TransDiag
  | .twoWay => .cl2Performer
  | .threeWay => .clPerformer

/-- The new `InvokeInfo` for an INVOKE PDU on the given SAP. -/
def performerInfo (sap : SapInfo) : InvokeInfo where
  locSap := sap.id
  transDiag := some (performerDiag sap.functionalUnit)
  curState := some (performerDiag sap.functionalUnit).state
  performingNotInvoking := true

/-- `erop_invokeInfoCreate` and the choice of the performer's diagram. -/
def newPerformer (e : Engine) (sap : SapInfo) : Engine :=
  let e' := e.invokeInfoCreate sap.id
  { e' with heap := Function.update e'.heap e.nextId (some (performerInfo sap)) }

/-- The FAILURE PDU of the receive path, to the sender of a PDU it has no machine for. -/
def refuse (env : Env) (pdu : Pdu) (reason : Int) : List Out :=
  (sendFailurePdu env env.views env.bufs none pdu.fromTsapSel pdu.fromNsapAddr pdu.invokeRefNu
    reason).1

def setErrorValue (e : Engine) (i : InvokeId) (errorValue : Int) : Engine :=
  { e with heap := Function.update e.heap i ((e.heap i).map ({ · with errorValue := errorValue })) }

def setFailureReason (e : Engine) (i : InvokeId) (failureReason : Int) : Engine :=
  { e with
    heap := Function.update e.heap i ((e.heap i).map ({ · with failureReason := failureReason })) }

/-- `erop_getInvoke`: the `InvokeInfo` for a received PDU. -/
def getInvoke (e : Engine) (env : Env) (pdu : Pdu) : Engine × List Out × Option InvokeId :=
  match pdu.pdutype with
  | .invoke =>
    match e.getSapInfo pdu.toESROSap with
    | none => (e, refuse env pdu 2, none)
    | some sap =>
      match sap.invokeSeq.find? (e.isDuplicate pdu) with
      | some i => (e, [], some i)
      | none =>
        if env.seqElemObtain then (e.newPerformer sap, [], some e.nextId)
        else (e, refuse env pdu 1, none)
  | .ack => (e, [], refToPerformer e.refs e.nsapOf pdu.invokeRefNu pdu.fromNsapAddr)
  | .result =>
    match refToInvoker e.refs e.nsapOf pdu.invokeRefNu pdu.fromNsapAddr with
    | none => (e, refuse env pdu 1, none)
    | some i => (e, [], some i)
  | .error =>
    match refToInvoker e.refs e.nsapOf pdu.invokeRefNu pdu.fromNsapAddr with
    | none => (e, refuse env pdu 1, none)
    | some i => (e.setErrorValue i pdu.errorValue, [], some i)
  | .failure =>
    match refToInvoker e.refs e.nsapOf pdu.invokeRefNu pdu.fromNsapAddr with
    | none => (e, [], none)
    | some i =>
      match e.heap i with
      | none => (e, [], none)
      | some v =>
        if v.invokeRefNu ≠ pdu.invokeRefNu then (e, [], none)
        else (e.setFailureReason i pdu.failureValue, [], some i)

end Engine

/-- The header that `erop_inPdu` reads and strips; `none` for an empty data unit or an unknown
PDU type. The octets of the header are read without a check of the size. -/
def readPdu (fromTsapSel : TSapSel) (fromNsapAddr : NSapAddr) (du : DU) : Option Pdu :=
  if du.size = 0 then none
  else
    let c := du.get1 0
    let pdu : Pdu :=
      { fromTsapSel := fromTsapSel
        fromNsapAddr := fromNsapAddr
        invokeRefNu := (du.get1 1).toNat }
    match (c &&& 0x07).toNat with
    | 0 =>
      let toESROSap := (c &&& 0xF0) >>> 4
      let b := du.get1 2
      some
        { pdu with
          pdutype := .invoke
          toESROSap := toESROSap
          fromESROSap := toESROSap - 1
          operationValue := (b &&& 0x3F).toNat
          encodingType := .ofBits ((b &&& 0xC0) >>> 6).toNat
          data := some (du.strip 3).octets }
    | 1 =>
      some
        { pdu with
          pdutype := .result
          encodingType := .ofBits ((c &&& 0xC0) >>> 6).toNat
          data := some (du.strip 2).octets }
    | 2 =>
      some
        { pdu with
          pdutype := .error
          encodingType := .ofBits ((c &&& 0xC0) >>> 6).toNat
          errorValue := (du.get1 2).toNat
          data := some (du.strip 3).octets }
    | 3 =>
      some
        { pdu with
          pdutype := .ack
          data := if (du.strip 2).size = 0 then none else some (du.strip 2).octets }
    | 4 =>
      some
        { pdu with
          pdutype := .failure
          failureValue := (du.get1 2).toNat
          data := some (du.strip 3).octets }
    | _ => none

/-- The event that `lower_dataInd` runs the machine with. -/
def PduType.evt : PduType → Evt
  | invoke => .pduInvoke
  | result => .pduResult
  | error => .pduResult
  | ack => .pduAck
  | failure => .pduFailure

namespace Engine

/-- `lower_dataInd` once the header is read. -/
def pduInd (cfg : Config) (e : Engine) (env : Env) (pdu : Pdu) : Option (Engine × List Out) :=
  let g := e.getInvoke env pdu
  match g.2.2 with
  | none => some (g.1, g.2.1)
  | some i =>
    match g.1.heap i with
    | none => none
    | some v =>
      let r := g.1.run { g.1.ctx cfg env i v with pdu := pdu } v pdu.pdutype.evt
      some (r.1, r.2.1)

/-- `lower_dataInd`. -/
def lowerDataInd (cfg : Config) (e : Engine) (env : Env) (remTsapSel : TSapSel)
    (remNsapAddr : NSapAddr) (data : DU) : Option (Engine × List Out) :=
  match readPdu remTsapSel remNsapAddr data with
  | none => some (e, [])
  | some pdu => e.pduInd cfg env pdu

end Engine

/-! ## Timers -/

/-- The event of `erop_timerRsp` for a timer, if it knows the timer's name. -/
def TmrName.evt : TmrName → Option Evt
  | invokePduRetranTimer => some .invokePduRetranTimer
  | resultPduRetranTimer => some .resultPduRetranTimer
  | refNuTimer => some .refNuTimer
  | lastTimer => some .lastTimer
  | inactivityTimer => some .inactivityTimer
  | perfNoResponseTimer => some .perfNoResponseTimer
  | allTimer => none
  | ackTimer => none

namespace Engine

/-- `erop_timerRsp`: an armed timer expired. -/
def timerRsp (cfg : Config) (e : Engine) (env : Env) (i : InvokeId) (tmrData : TmrData) :
    Option (Engine × List Out) :=
  if tmrData ∈ e.tmrQu i then
    match e.heap i with
    | none => none
    | some v =>
      let e := { e with tmrQu := Function.update e.tmrQu i ((e.tmrQu i).erase tmrData) }
      match tmrData.name.evt with
      | none => some (e, [])
      | some evt =>
        let r := e.run { e.ctx cfg env i v with tmrInfo := ⟨tmrData.name, tmrData.data⟩ } v evt
        some (r.1, r.2.1)
  else none

/-! ## The scheduler -/

/-- The function at the head of the queue is called. A call-back goes through
`invoke->locSap`, and a release unlinks the `InvokeInfo` from `locSap->invokeSeq`. -/
def schRun (e : Engine) : Option (Engine × List Out) :=
  match e.schQu with
  | [] => none
  | task :: rest =>
    match e.heap task.invoke with
    | none => none
    | some v =>
      if (e.sapOf v.locSap).isNone then none
      else
        let e := { e with schQu := rest }
        match task with
        | .relInvoke i => some (e.relInvoke i, [.released i])
        | t => some (e, [.cb t])

/-! ## Requests of the user (`userin.c`) -/

/-- `erop_CLInvokerTransDiag` or `erop_2CLInvokerTransDiag`, by the functional unit. -/
def invokerDiag : FunctionalUnit → TransDiag
  | .threeWay => .clInvoker
  | .twoWay => .cl2Invoker

/-- The new `InvokeInfo` for a request on the given SAP. -/
def invokerInfo (sap : SapInfo) : InvokeInfo where
  locSap := sap.id
  transDiag := some (invokerDiag sap.functionalUnit)
  curState := some (invokerDiag sap.functionalUnit).state
  performingNotInvoking := false

/-- `erop_invokeInfoCreate` and the choice of the invoker's diagram. -/
def newInvoker (e : Engine) (sap : SapInfo) : Engine :=
  let e' := e.invokeInfoCreate sap.id
  { e' with heap := Function.update e'.heap e.nextId (some (invokerInfo sap)) }

/-- The outcome of `DU_link` on the parameter of a request, NULL when there is none. -/
def linkParameter (env : Env) (parameter : Option Octets) : Env × Option Octets :=
  match parameter with
  | none => (env, none)
  | some d => ({ env with views := env.views - 1 }, if 0 < env.views then some d else none)

/-- `EROP_invokeReq`. A parameter that is too large leaves the new `InvokeInfo` behind; a
failed action does not show in the value returned. -/
def invokeReq (cfg : Config) (e : Engine) (env : Env) (locESROSap : SapSel) (req : InvokeReq) :
    Option (Engine × List Out) :=
  match e.getSapInfo locESROSap with
  | none => some (e, [.ret (-1)])
  | some sap =>
    if env.seqElemObtain = false then some (e, [.ret (-1)])
    else if req.parameter.any fun d => (d.length : Int) > cfg.invokePduSize then
      some (e.invokeInfoCreate sap.id, [.ret (-1)])
    else
      let l := linkParameter env req.parameter
      let i := e.nextId
      let e := e.newInvoker sap
      match e.heap i with
      | none => none
      | some v =>
        let c := { e.ctx cfg l.1 i v with invokeReq := { req with parameter := l.2 } }
        let r := e.run c v .invokeReq
        some (r.1, r.2.1 ++ if r.2.2 = .fail then [.ret (-1)] else [.invokeDesc i, .ret 0])

/-- `EROP_resultReq` and `EROP_errorReq`, which differ in `isResultNotError` and in the error
value. -/
def replyReq (cfg : Config) (e : Engine) (env : Env) (invokeDesc : InvokeId) (req : ResultReq) :
    Option (Engine × List Out) :=
  match e.heap invokeDesc with
  | none => none
  | some v =>
    let l := linkParameter env req.parameter
    let c := { e.ctx cfg l.1 invokeDesc v with resultReq := { req with parameter := l.2 } }
    let r := e.run c v .resultReq
    some (r.1, r.2.1 ++ [.ret (if r.2.2 = .fail then -1 else 0)])

/-- `EROP_resultReq`. -/
def resultReq (cfg : Config) (e : Engine) (env : Env) (invokeDesc : InvokeId)
    (userInvokeRef : UserInvokeRef) (encodingType : EncodingType) (parameter : Option Octets) :
    Option (Engine × List Out) :=
  e.replyReq cfg env invokeDesc ⟨true, userInvokeRef, encodingType, 0, parameter⟩

/-- `EROP_errorReq`. -/
def errorReq (cfg : Config) (e : Engine) (env : Env) (invokeDesc : InvokeId)
    (userInvokeRef : UserInvokeRef) (encodingType : EncodingType) (errorValue : Int)
    (parameter : Option Octets) : Option (Engine × List Out) :=
  e.replyReq cfg env invokeDesc ⟨false, userInvokeRef, encodingType, errorValue, parameter⟩

/-! ## SAPs (`erop_sap.c`) -/

/-- `EROP_sapBind`. -/
def sapBind (e : Engine) (env : Env) (sapSel : SapSel) (functionalUnit : Int) :
    Engine × List Out :=
  if sapSel = 0 then (e, [.ret (-3)])
  else if sapSel > 15 then (e, [.ret (-6)])
  else if env.seqElemObtain = false then (e, [.ret (-2)])
  else if (e.getSapInfo sapSel).isSome then (e, [.ret (-4)])
  else if functionalUnit ≠ 3 ∧ functionalUnit ≠ 2 then (e, [.ret (-5)])
  else
    let sap : SapInfo :=
      { id := e.nextSap
        sapSel := sapSel
        functionalUnit := if functionalUnit = 3 then .threeWay else .twoWay }
    ({ e with saps := e.saps ++ [sap], nextSap := e.nextSap + 1 }, [.ret 0])

/-- The SAP record is unlinked; what is left of its `invokeSeq` has no SAP any more. -/
def dropSap (e : Engine) (sap : SapId) : Engine :=
  { e with saps := e.saps.filter fun s => s.id ≠ sap }

/-- `EROP_sapUnbind`. Of the `InvokeInfo`s of the SAP, the first one is released, with its
timers; the others stay behind. -/
def sapUnbind (e : Engine) (sapSel : SapSel) : Engine × List Out :=
  match e.getSapInfo sapSel with
  | none => (e, [.ret (-1)])
  | some sap =>
    match sap.invokeSeq with
    | [] => (e.dropSap sap.id, [.ret 0])
    | i :: _ =>
      let e' := ({ e with tmrQu := Function.update e.tmrQu i [] } : Engine).relInvoke i
      (e'.dropSap sap.id, [.released i, .ret 0])

end Engine

/-! ## One step -/

inductive Event
  | udpInd (remTsapSel : TSapSel) (remNsapAddr : NSapAddr) (data : DU)
  | tmrRsp (invoke : InvokeId) (tmrData : TmrData)
  | schRun
  | invokeReq (locESROSap : SapSel) (req : InvokeReq)
  | resultReq (invokeDesc : InvokeId) (userInvokeRef : UserInvokeRef) (encodingType : EncodingType)
      (parameter : Option Octets)
  | errorReq (invokeDesc : InvokeId) (userInvokeRef : UserInvokeRef) (encodingType : EncodingType)
      (errorValue : Int) (parameter : Option Octets)
  | sapBind (sapSel : SapSel) (functionalUnit : Int)
  | sapUnbind (sapSel : SapSel)

/-- An event and how the calls that can fail turn out while it is handled. -/
structure Input where
  ev : Event
  env : Env := {}

/-- The engine handles one event. -/
def step (cfg : Config) (e : Engine) (inp : Input) : Option (Engine × List Out) :=
  match inp.ev with
  | .udpInd tsap nsap data => e.lowerDataInd cfg inp.env tsap nsap data
  | .tmrRsp i td => e.timerRsp cfg inp.env i td
  | .schRun => e.schRun
  | .invokeReq sel req => e.invokeReq cfg inp.env sel req
  | .resultReq i u enc p => e.resultReq cfg inp.env i u enc p
  | .errorReq i u enc v p => e.errorReq cfg inp.env i u enc v p
  | .sapBind sel fu => some (e.sapBind inp.env sel fu)
  | .sapUnbind sel => some (e.sapUnbind sel)

/-- An engine as a system with inputs and outputs. -/
def engine (cfg : Config) : Run.Sys Engine Input Out where
  init e := ∃ newRef, e = Engine.init newRef
  step := step cfg

end Erop
