import Emsd.Erop.Invoke

/-!
# Transition actions of the invoker (`invokact.c`, `invact2.c`)

`trClInvokerNN` is an action of the 3-way diagram and `tr2ClInvokerNN` one of the 2-way
diagram. Where the two files hold the same code, it is written once, with what differs as
a parameter, and both names are instances of it.

An early `return (FAIL)` leaves everything done before it in place, so an action returns
the machine together with its result.
-/

namespace Erop

open Ocp

/-- What INVOKE.request stores in the `InvokeInfo`. -/
def invokeReqFields (c : Ctx) (invoke : InvokeInfo) : InvokeInfo :=
  tmrSetValues c.cfg
    { invoke with
      remEsroSapSel := c.invokeReq.remESROSap
      remTsapSel := c.invokeReq.remTsap
      remNsapAddr := c.invokeReq.remNsap
      operationValue := c.invokeReq.opValue
      encodingType := c.invokeReq.encodingType
      userInvokeRef := c.invokeReq.userInvokeRef }

/-- The fields of the request, and a reference number from `erop_refNew`. -/
def invokerAssign (c : Ctx) (m : Machine) : Machine × Int :=
  let v := invokeReqFields c m.invoke
  let r := refNew m.refs c.nsapOf c.self v
  ({ m with invoke := { v with invokeRefNu := r.2 }, refs := r.1 }, r.2)

/-- Build the INVOKE PDU, keep it in `invokePduSeq`, and retrieve it from there. -/
def invokerKeep (c : Ctx) (m : Machine) : Machine × Option Octets :=
  let p := invokePdu m m.invoke.remEsroSapSel m.invoke.invokeRefNu m.invoke.operationValue
    m.invoke.encodingType c.invokeReq.parameter
  match p.2 with
  | none => (p.1, none)
  | some du =>
    let k := keepInvokePdu p.1 du
    pduRetrieve k k.invoke.invokePduSeq

/-- `UDP_dataReq`, whose failure is only remembered, and `erop_tmrCreate` with a datum of 0. -/
def sendAndArm (c : Ctx) (m : Machine) (du : Octets) (name : TmrName) (time : Int) :
    Machine × SuccFail :=
  let u := udpDataReq c m du
  let t := tmrCreate c u.1 name time 0
  if t.2 = .fail then (t.1, .fail) else (t.1, u.2)

/-- INVOKE.request in the start state: take a reference number, keep the INVOKE PDU, send it
and start the retransmission timer. -/
def invokerInvokeReq (c : Ctx) (m : Machine) : Machine × SuccFail :=
  if ((c.invokeReq.parameter.getD []).length : Int) > c.cfg.invokePduSize then (m, .fail)
  else
    let r := invokerAssign c m
    if r.2 = -1 then (r.1, .fail)
    else
      let k := invokerKeep c r.1
      match k.2 with
      | none => (k.1, .fail)
      | some du => sendAndArm c k.1 du .invokePduRetranTimer k.1.invoke.retransTimeout

def trClInvoker01 : Ctx → Machine → Machine × SuccFail := invokerInvokeReq

def tr2ClInvoker01 : Ctx → Machine → Machine × SuccFail := invokerInvokeReq

/-- The retransmission timer expired: send the INVOKE PDU again, or start the last timer once
the count in the timer's datum has reached `nuOfRetrans`. -/
def invokerRetran (c : Ctx) (m : Machine) : Machine × SuccFail :=
  if c.tmrInfo.name ≠ .invokePduRetranTimer then (m, .fail)
  else if c.tmrInfo.datum ≥ m.invoke.nuOfRetrans then
    tmrCreate c m .lastTimer m.invoke.rwait 0
  else
    let t := tmrCreate c m .invokePduRetranTimer m.invoke.retransTimeout (c.tmrInfo.datum + 1)
    if t.2 = .fail then (t.1, .fail)
    else
      let q := pduRetrieve t.1 t.1.invoke.invokePduSeq
      match q.2 with
      | none => (q.1, .fail)
      | some du => udpDataReq c q.1 du

def trClInvoker02 : Ctx → Machine → Machine × SuccFail := invokerRetran

def tr2ClInvoker02 : Ctx → Machine → Machine × SuccFail := invokerRetran

/-- The last timer expired: FAILURE.indication, then keep the reference number for a while. -/
def invokerLast (c : Ctx) (m : Machine) : Machine × SuccFail :=
  if c.tmrInfo.name ≠ .lastTimer then (m, .fail)
  else
    let m :=
      { m with invoke := { relAllPdu m.invoke with failureReason := failureUserNotResponding } }
    let f := failureInd c m
    let t := tmrCreate c f.1 .refNuTimer f.1.invoke.refKeepTime 0
    if t.2 = .fail then (t.1, .fail) else (t.1, f.2)

def trClInvoker03 : Ctx → Machine → Machine × SuccFail := invokerLast

def tr2ClInvoker03 : Ctx → Machine → Machine × SuccFail := invokerLast

/-- Whether the received PDU is a RESULT or an ERROR PDU. -/
def isResultOrError (c : Ctx) : Bool := c.pdu.pdutype = .result || c.pdu.pdutype = .error

/-- What the first RESULT or ERROR PDU stores in the `InvokeInfo`, and frees of it. -/
def resultFields (c : Ctx) (invoke : InvokeInfo) : InvokeInfo :=
  let v := tmrSetValues c.cfg
    { invoke with
      invokeRefNu := c.pdu.invokeRefNu
      encodingType := c.pdu.encodingType
      errorValue := if c.pdu.pdutype = .error then c.pdu.errorValue else invoke.errorValue }
  { v with invokePduSeq := relPdu v.invokePduSeq }

/-- The first RESULT or ERROR PDU, up to and with its indication to the user. -/
def invokerResult (c : Ctx) (m : Machine) : Machine × SuccFail :=
  let m := tmrCancel m .allTimer
  let m := { m with invoke := resultFields c m.invoke }
  if c.pdu.pdutype = .result then resultInd c m c.pdu.data else errorInd c m c.pdu.data

def trClInvoker04 (c : Ctx) (m : Machine) : Machine × SuccFail :=
  if isResultOrError c = false then (m, .fail)
  else
    let r := invokerResult c m
    if r.2 = .fail then ((actSendFailurePdu c r.1 failureUserNotResponding).1, .fail)
    else
      let a := ackPdu r.1 r.1.invoke.invokeRefNu
      match a.2 with
      | none => (a.1, .fail)
      | some du =>
        let u := udpDataReq c a.1 du
        if u.2 = .fail then (u.1, .fail)
        else tmrCreate c u.1 .inactivityTimer u.1.invoke.inactivityDelay 0

/-- Unlike the 3-way action it sends nothing, neither an ACK nor a FAILURE PDU. -/
def tr2ClInvoker04 (c : Ctx) (m : Machine) : Machine × SuccFail :=
  if isResultOrError c = false then (m, .fail)
  else
    let r := invokerResult c m
    if r.2 = .fail then (r.1, .fail)
    else tmrCreate c r.1 .refNuTimer r.1.invoke.refKeepTime 0

/-- A FAILURE PDU: FAILURE.indication with the reason that the receive path has stored. -/
def invokerFailure (c : Ctx) (m : Machine) : Machine × SuccFail :=
  if c.pdu.pdutype ≠ .failure then (m, .fail)
  else
    let f := failureInd c m
    let m := tmrCancel f.1 .allTimer
    let t := tmrCreate c m .refNuTimer m.invoke.refKeepTime 0
    if t.2 = .fail then (t.1, .fail) else (t.1, f.2)

def trClInvoker05 : Ctx → Machine → Machine × SuccFail := invokerFailure

def tr2ClInvoker05 : Ctx → Machine → Machine × SuccFail := invokerFailure

/-- A hold-on ACK PDU is not implemented. -/
def trClInvoker06 (_ : Ctx) (m : Machine) : Machine × SuccFail := (m, .success)

/-- A duplicate RESULT or ERROR PDU: restart the inactivity timer and acknowledge again. -/
def trClInvoker07 (c : Ctx) (m : Machine) : Machine × SuccFail :=
  if isResultOrError c = false then (m, .fail)
  else
    let m := tmrCancel m .inactivityTimer
    let t := tmrCreate c m .inactivityTimer m.invoke.inactivityDelay 0
    if t.2 = .fail then (t.1, .fail)
    else
      let a := ackPdu t.1 t.1.invoke.invokeRefNu
      match a.2 with
      | none => (a.1, .fail)
      | some du => udpDataReq c a.1 du

/-- The reference number timer expired: the release is only scheduled. -/
def scheduleRelease (c : Ctx) (m : Machine) : Machine × SuccFail :=
  if c.tmrInfo.name ≠ .refNuTimer then (m, .fail)
  else (schSubmit m (.relInvoke c.self), .success)

def trClInvoker08 : Ctx → Machine → Machine × SuccFail := scheduleRelease

def tr2ClInvoker07 : Ctx → Machine → Machine × SuccFail := scheduleRelease

/-- A late PDU of an expected type while the reference number is kept: cancel `name` and start
the reference number timer anew. -/
def restartRefNuTimer (expected : Ctx → Bool) (name : TmrName) (c : Ctx) (m : Machine) :
    Machine × SuccFail :=
  if expected c = false then (m, .fail)
  else
    let m := tmrCancel m name
    tmrCreate c m .refNuTimer m.invoke.refKeepTime 0

def trClInvoker09 : Ctx → Machine → Machine × SuccFail :=
  restartRefNuTimer isResultOrError .refNuTimer

def tr2ClInvoker06 : Ctx → Machine → Machine × SuccFail :=
  restartRefNuTimer isResultOrError .allTimer

/-- The inactivity timer expired: no RESULT PDU is expected any more. -/
def trClInvoker10 (c : Ctx) (m : Machine) : Machine × SuccFail :=
  if c.tmrInfo.name ≠ .inactivityTimer then (m, .fail)
  else
    let m := tmrCancel m .allTimer
    let m := { m with invoke := relAllPdu m.invoke }
    tmrCreate c m .refNuTimer m.invoke.refKeepTime 0

end Erop
