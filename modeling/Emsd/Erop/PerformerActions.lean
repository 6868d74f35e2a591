import Emsd.Erop.InvokerActions

/-!
# Transition actions of the performer (`perfact.c`, `perfact2.c`)

`trClPerformerNN` is an action of the 3-way diagram and `tr2ClPerformerNN` one of the 2-way
diagram; the numbers of corresponding actions differ.
-/

namespace Erop

open Ocp

/-- What an INVOKE PDU stores in the `InvokeInfo`. -/
def invokeFields (c : Ctx) (invoke : InvokeInfo) : InvokeInfo :=
  tmrSetValues c.cfg
    { invoke with
      remEsroSapSel := c.pdu.fromESROSap
      remTsapSel := c.pdu.fromTsapSel
      remNsapAddr := c.pdu.fromNsapAddr
      encodingType := c.pdu.encodingType
      invokeRefNu := c.pdu.invokeRefNu }

/-- An INVOKE PDU in the start state, up to and with its indication to the user. -/
def performerInvoke (c : Ctx) (m : Machine) : Machine × SuccFail :=
  invokeInd c { m with invoke := invokeFields c m.invoke } c.pdu.operationValue c.pdu.data

/-- Without `NO_UPSHELL` the timer that guards against a silent user is started. -/
def trClPerformer01 (c : Ctx) (m : Machine) : Machine × SuccFail :=
  if c.pdu.pdutype ≠ .invoke then (m, .fail)
  else
    let r := performerInvoke c m
    if r.2 = .fail then ((actSendFailurePdu c r.1 failureUserNotResponding).1, .fail)
    else if c.cfg.noUpshell then (r.1, .success)
    else tmrCreate c r.1 .perfNoResponseTimer r.1.invoke.perfNoResponse 0

/-- Starts the timer whatever `NO_UPSHELL` is, and sends no FAILURE PDU. -/
def tr2ClPerformer01 (c : Ctx) (m : Machine) : Machine × SuccFail :=
  if c.pdu.pdutype ≠ .invoke then (m, .fail)
  else
    let r := performerInvoke c m
    if r.2 = .fail then (r.1, .fail)
    else tmrCreate c r.1 .perfNoResponseTimer r.1.invoke.perfNoResponse 0

/-- What RESULT.request or ERROR.request stores in the `InvokeInfo`. -/
def replyFields (c : Ctx) (invoke : InvokeInfo) : InvokeInfo :=
  { invoke with
    isResultNotError := c.resultReq.isResultNotError
    encodingType := c.resultReq.encodingType
    userInvokeRef := c.resultReq.userInvokeRef }

/-- The RESULT or ERROR PDU of the reply. -/
def replyPdu (c : Ctx) (m : Machine) : Machine × Option Octets :=
  if m.invoke.isResultNotError then
    resultPdu m m.invoke.invokeRefNu c.resultReq.encodingType c.resultReq.parameter
  else
    errorPdu m m.invoke.invokeRefNu c.resultReq.encodingType c.resultReq.errorValue
      c.resultReq.parameter

/-- Build the PDU of the reply, keep it in `resultPduSeq`, and retrieve it from there. -/
def replyKeep (c : Ctx) (m : Machine) : Machine × Option Octets :=
  let p := replyPdu c m
  match p.2 with
  | none => (p.1, none)
  | some du =>
    let k := keepResultPdu p.1 du
    pduRetrieve k k.invoke.resultPduSeq

/-- Send the reply and start the timer `name`, which takes the place of the one that guards
against a silent user. -/
def sendReply (name : TmrName) (time : InvokeInfo → Int) (c : Ctx) (m : Machine) (du : Octets) :
    Machine × SuccFail :=
  let u := udpDataReq c m du
  let t := tmrCreate c u.1 name (time u.1.invoke) 0
  if t.2 = .fail then (t.1, .fail) else (tmrCancel t.1 .perfNoResponseTimer, u.2)

/-- RESULT.request or ERROR.request: register the reference number, keep the PDU and send it. -/
def performerResultReq (name : TmrName) (time : InvokeInfo → Int) (c : Ctx) (m : Machine) :
    Machine × SuccFail :=
  let v := replyFields c m.invoke
  let r := refKeep m.refs c.nsapOf v.invokeRefNu c.self v
  if r.2 = .fail then ({ m with invoke := v, refs := r.1 }, .fail)
  else
    let k := replyKeep c { m with invoke := tmrSetValues c.cfg v, refs := r.1 }
    match k.2 with
    | none => (k.1, .fail)
    | some du => sendReply name time c k.1 du

def trClPerformer02 : Ctx → Machine → Machine × SuccFail :=
  performerResultReq .resultPduRetranTimer (·.retransTimeout)

def tr2ClPerformer03 : Ctx → Machine → Machine × SuccFail :=
  performerResultReq .inactivityTimer (·.inactivityDelay)

/-- The exchange ended well: RESULT.confirm or ERROR.confirm, then keep the reference number. -/
def performerConfirm (c : Ctx) (m : Machine) : Machine × SuccFail :=
  let m := tmrCancel m .allTimer
  let m := { m with invoke.resultPduSeq := relPdu m.invoke.resultPduSeq }
  let r := if m.invoke.isResultNotError then resultCnf c m else errorCnf c m
  let t := tmrCreate c r.1 .refNuTimer r.1.invoke.refKeepTime 0
  if t.2 = .fail then (t.1, .fail) else (t.1, r.2)

/-- The exchange failed: FAILURE.indication, then keep the reference number. -/
def performerTransmissionFailure (c : Ctx) (m : Machine) : Machine × SuccFail :=
  let f := failureInd c { m with invoke.failureReason := failureTransmission }
  let m := tmrCancel f.1 .allTimer
  let m := { m with invoke.resultPduSeq := relPdu m.invoke.resultPduSeq }
  let t := tmrCreate c m .refNuTimer m.invoke.refKeepTime 0
  if t.2 = .fail then (t.1, .fail) else (t.1, f.2)

/-- The ACK PDU. With `dropResultConfirm` the user is told of a failure instead. -/
def trClPerformer03 (c : Ctx) (m : Machine) : Machine × SuccFail :=
  if c.cfg.dropResultConfirm then
    let m := tmrCancel m .allTimer
    performerTransmissionFailure c
      { m with invoke.resultPduSeq := relPdu m.invoke.resultPduSeq }
  else performerConfirm c m

def tr2ClPerformer06 : Ctx → Machine → Machine × SuccFail := performerConfirm

/-- A duplicate INVOKE PDU while the user is at work is dropped. -/
def performerDropInvoke (c : Ctx) (m : Machine) : Machine × SuccFail :=
  if c.pdu.pdutype ≠ .invoke then (m, .fail) else (m, .success)

def trClPerformer04 : Ctx → Machine → Machine × SuccFail := performerDropInvoke

def tr2ClPerformer02 : Ctx → Machine → Machine × SuccFail := performerDropInvoke

/-- The retransmission timer expired: send the RESULT PDU again, or start the last timer once
the count in the timer's datum has reached `nuOfRetrans`. -/
def trClPerformer05 (c : Ctx) (m : Machine) : Machine × SuccFail :=
  if c.tmrInfo.datum ≥ m.invoke.nuOfRetrans then
    tmrCreate c m .lastTimer m.invoke.rwait 0
  else
    let q := pduRetrieve m m.invoke.resultPduSeq
    match q.2 with
    | none => (q.1, .fail)
    | some du =>
      let u := udpDataReq c q.1 du
      let t := tmrCreate c u.1 .resultPduRetranTimer u.1.invoke.retransTimeout
        (c.tmrInfo.datum + 1)
      if t.2 = .fail then (t.1, .fail) else (t.1, u.2)

/-- A duplicate INVOKE PDU while the result is under way: send the RESULT PDU again and start
the retransmission timer anew, with its count at zero. A last timer stays armed. -/
def performerResendResult (c : Ctx) (m : Machine) : Machine × SuccFail :=
  let q := pduRetrieve m m.invoke.resultPduSeq
  match q.2 with
  | none => (q.1, .fail)
  | some du =>
    let u := udpDataReq c q.1 du
    if u.2 = .fail then (u.1, .fail)
    else
      let m := tmrCancel u.1 .resultPduRetranTimer
      tmrCreate c m .resultPduRetranTimer m.invoke.retransTimeout 0

def trClPerformer06 : Ctx → Machine → Machine × SuccFail := performerResendResult

def tr2ClPerformer05 : Ctx → Machine → Machine × SuccFail := performerResendResult

def trClPerformer07 : Ctx → Machine → Machine × SuccFail :=
  restartRefNuTimer (fun c => c.pdu.pdutype = .invoke) .refNuTimer

def tr2ClPerformer07 : Ctx → Machine → Machine × SuccFail :=
  restartRefNuTimer (fun c => c.pdu.pdutype = .invoke) .refNuTimer

/-- The user did not respond: FAILURE.indication, a FAILURE PDU to the invoker, and the release
is scheduled. -/
def performerNoResponse (c : Ctx) (m : Machine) : Machine × SuccFail :=
  let f := failureInd c { m with invoke.failureReason := failureLocResource }
  let s := actSendFailurePdu c f.1 failureUserNotResponding
  let m := tmrCancel s.1 .allTimer
  let m := { m with invoke.invokePduSeq := relPdu m.invoke.invokePduSeq }
  (schSubmit m (.relInvoke c.self), if s.2 = .fail then .fail else f.2)

def trClPerformer08 : Ctx → Machine → Machine × SuccFail := performerNoResponse

def tr2ClPerformer04 : Ctx → Machine → Machine × SuccFail := performerNoResponse

def trClPerformer09 : Ctx → Machine → Machine × SuccFail := performerTransmissionFailure

def trClPerformer10 : Ctx → Machine → Machine × SuccFail := scheduleRelease

def tr2ClPerformer08 : Ctx → Machine → Machine × SuccFail := scheduleRelease

def trClPerformer11 : Ctx → Machine → Machine × SuccFail :=
  restartRefNuTimer (fun c => c.pdu.pdutype = .ack) .refNuTimer

end Erop
