import Emsd.Erop.PerformerActions
import Emsd.Ocp.Fsm

/-!
# The transition diagrams (`clinvktd.c`, `clinvtd2.c`, `clperftd.c`, `clpertd2.c`)

The tables of the four diagrams, in the order of the source. Every table ends with a
default transition that ignores the event.
-/

namespace Erop

open Ocp Fsm

/-- `tr_badEventIgnore`. -/
def trBadEventIgnore (_ : Ctx) (m : Machine) : Machine × SuccFail := (m, .success)

/-- `nextStatePtr`, event and action of each transition of a state. -/
def stateTrans (c : Ctx) : State → List (Trans State Evt Machine)
  -- 3-way invoker
  | .clInvokerStart =>
    [⟨some .invokeReq, trClInvoker01 c, .invokePduSent⟩,
      ⟨none, trBadEventIgnore c, .clInvokerStart⟩]
  | .invokePduSent =>
    [⟨some .invokePduRetranTimer, trClInvoker02 c, .invokePduSent⟩,
      ⟨some .lastTimer, trClInvoker03 c, .invokerRefWait⟩,
      ⟨some .pduResult, trClInvoker04 c, .ackPduSent⟩,
      ⟨some .pduFailure, trClInvoker05 c, .invokerRefWait⟩,
      ⟨some .pduAck, trClInvoker06 c, .invokePduSent⟩,
      ⟨none, trBadEventIgnore c, .invokePduSent⟩]
  | .ackPduSent =>
    [⟨some .pduResult, trClInvoker07 c, .ackPduSent⟩,
      ⟨some .inactivityTimer, trClInvoker10 c, .invokerRefWait⟩,
      ⟨none, trBadEventIgnore c, .ackPduSent⟩]
  | .invokerRefWait =>
    [⟨some .refNuTimer, trClInvoker08 c, .clInvokerStart⟩,
      ⟨some .pduResult, trClInvoker09 c, .invokerRefWait⟩,
      ⟨none, trBadEventIgnore c, .invokerRefWait⟩]
  -- 3-way performer
  | .clPerformerStart =>
    [⟨some .pduInvoke, trClPerformer01 c, .invokePduReceived⟩,
      ⟨none, trBadEventIgnore c, .clPerformerStart⟩]
  | .invokePduReceived =>
    [⟨some .resultReq, trClPerformer02 c, .ackPduWait⟩,
      ⟨some .pduInvoke, trClPerformer04 c, .invokePduReceived⟩,
      ⟨some .internal, trClPerformer08 c, .clPerformerStart⟩,
      ⟨some .perfNoResponseTimer, trClPerformer08 c, .clPerformerStart⟩,
      ⟨none, trBadEventIgnore c, .invokePduReceived⟩]
  | .ackPduWait =>
    [⟨some .pduAck, trClPerformer03 c, .performerRefWait⟩,
      ⟨some .resultPduRetranTimer, trClPerformer05 c, .ackPduWait⟩,
      ⟨some .lastTimer, trClPerformer09 c, .performerRefWait⟩,
      ⟨some .pduInvoke, trClPerformer06 c, .ackPduWait⟩,
      ⟨none, trBadEventIgnore c, .ackPduWait⟩]
  | .performerRefWait =>
    [⟨some .refNuTimer, trClPerformer10 c, .clPerformerStart⟩,
      ⟨some .pduInvoke, trClPerformer07 c, .performerRefWait⟩,
      ⟨some .pduAck, trClPerformer11 c, .performerRefWait⟩,
      ⟨none, trBadEventIgnore c, .performerRefWait⟩]
  -- 2-way invoker
  | .cl2InvokerStart =>
    [⟨some .invokeReq, tr2ClInvoker01 c, .invokePduSent2⟩,
      ⟨none, trBadEventIgnore c, .cl2InvokerStart⟩]
  | .invokePduSent2 =>
    [⟨some .invokePduRetranTimer, tr2ClInvoker02 c, .invokePduSent2⟩,
      ⟨some .lastTimer, tr2ClInvoker03 c, .invokerRefWait2⟩,
      ⟨some .pduResult, tr2ClInvoker04 c, .invokerRefWait2⟩,
      ⟨some .pduFailure, tr2ClInvoker05 c, .invokerRefWait2⟩,
      ⟨none, trBadEventIgnore c, .invokePduSent2⟩]
  | .invokerRefWait2 =>
    [⟨some .refNuTimer, tr2ClInvoker07 c, .cl2InvokerStart⟩,
      ⟨some .pduResult, tr2ClInvoker06 c, .invokerRefWait2⟩,
      ⟨none, trBadEventIgnore c, .invokerRefWait2⟩]
  -- 2-way performer
  | .cl2PerformerStart =>
    [⟨some .pduInvoke, tr2ClPerformer01 c, .invokePduReceived2⟩,
      ⟨none, trBadEventIgnore c, .cl2PerformerStart⟩]
  | .invokePduReceived2 =>
    [⟨some .resultReq, tr2ClPerformer03 c, .resultPduRetrans2⟩,
      ⟨some .pduInvoke, tr2ClPerformer02 c, .invokePduReceived2⟩,
      ⟨some .internal, tr2ClPerformer04 c, .cl2PerformerStart⟩,
      ⟨some .perfNoResponseTimer, tr2ClPerformer04 c, .cl2PerformerStart⟩,
      ⟨none, trBadEventIgnore c, .invokePduReceived2⟩]
  | .resultPduRetrans2 =>
    [⟨some .inactivityTimer, tr2ClPerformer06 c, .performerRefWait2⟩,
      ⟨some .pduInvoke, tr2ClPerformer05 c, .resultPduRetrans2⟩,
      ⟨none, trBadEventIgnore c, .resultPduRetrans2⟩]
  | .performerRefWait2 =>
    [⟨some .refNuTimer, tr2ClPerformer08 c, .cl2PerformerStart⟩,
      ⟨some .pduInvoke, tr2ClPerformer07 c, .performerRefWait2⟩,
      ⟨none, trBadEventIgnore c, .performerRefWait2⟩]

def setState (s : State) (m : Machine) : Machine := { m with invoke.curState := some s }

/-- `FSM_runMachine` on the machine of an `InvokeInfo`. -/
def runMachine (c : Ctx) (m : Machine) (evtId : Evt) : Machine × SuccFail :=
  Fsm.runMachine (stateTrans c) (·.invoke.curState) setState m evtId

end Erop
