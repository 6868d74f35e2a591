import Emsd.Erop.Engine

/-!
# What a transition can do

`Row` lists the transitions that are not ignored, the two diagrams of a role side by side.
`runMachine_cases` inverts a run of a machine: the event is ignored, or one row fires.
-/

namespace Erop

open Ocp

/-! ## Corresponding states of the 2-way and the 3-way diagrams -/

namespace FunctionalUnit

def invokerStart : FunctionalUnit → State
  | threeWay => .clInvokerStart
  | twoWay => .cl2InvokerStart

def sent : FunctionalUnit → State
  | threeWay => .invokePduSent
  | twoWay => .invokePduSent2

def invokerRefWait : FunctionalUnit → State
  | threeWay => .invokerRefWait
  | twoWay => .invokerRefWait2

def performerStart : FunctionalUnit → State
  | threeWay => .clPerformerStart
  | twoWay => .cl2PerformerStart

def received : FunctionalUnit → State
  | threeWay => .invokePduReceived
  | twoWay => .invokePduReceived2

/-- where a performer waits after its user has replied -/
def replied : FunctionalUnit → State
  | threeWay => .ackPduWait
  | twoWay => .resultPduRetrans2

def performerRefWait : FunctionalUnit → State
  | threeWay => .performerRefWait
  | twoWay => .performerRefWait2

end FunctionalUnit

open FunctionalUnit

/-- The start states. -/
def State.isStart : State → Bool
  | clInvokerStart | cl2InvokerStart | clPerformerStart | cl2PerformerStart => true
  | _ => false

/-- The states of the performer diagrams. -/
def State.isPerformer : State → Bool
  | clPerformerStart | invokePduReceived | ackPduWait | performerRefWait => true
  | cl2PerformerStart | invokePduReceived2 | resultPduRetrans2 | performerRefWait2 => true
  | _ => false

/-- A transition other than an ignore transition: state, event, action, next state. -/
inductive Row (c : Ctx) : State → Evt → (Machine → Machine × SuccFail) → State → Prop
  | invokeReq (fu) : Row c (invokerStart fu) .invokeReq (invokerInvokeReq c) (sent fu)
  | retran (fu) : Row c (sent fu) .invokePduRetranTimer (invokerRetran c) (sent fu)
  | last (fu) : Row c (sent fu) .lastTimer (invokerLast c) (invokerRefWait fu)
  | result : Row c .invokePduSent .pduResult (trClInvoker04 c) .ackPduSent
  | result2 : Row c .invokePduSent2 .pduResult (tr2ClInvoker04 c) .invokerRefWait2
  | failure (fu) : Row c (sent fu) .pduFailure (invokerFailure c) (invokerRefWait fu)
  | holdOn : Row c .invokePduSent .pduAck (trClInvoker06 c) .invokePduSent
  | dupResult : Row c .ackPduSent .pduResult (trClInvoker07 c) .ackPduSent
  | inactivity : Row c .ackPduSent .inactivityTimer (trClInvoker10 c) .invokerRefWait
  | lateResult : Row c .invokerRefWait .pduResult (trClInvoker09 c) .invokerRefWait
  | lateResult2 : Row c .invokerRefWait2 .pduResult (tr2ClInvoker06 c) .invokerRefWait2
  | invokerRelease (fu) : Row c (invokerRefWait fu) .refNuTimer (scheduleRelease c) (invokerStart fu)
  | invoke : Row c .clPerformerStart .pduInvoke (trClPerformer01 c) .invokePduReceived
  | invoke2 : Row c .cl2PerformerStart .pduInvoke (tr2ClPerformer01 c) .invokePduReceived2
  | resultReq : Row c .invokePduReceived .resultReq (trClPerformer02 c) .ackPduWait
  | resultReq2 : Row c .invokePduReceived2 .resultReq (tr2ClPerformer03 c) .resultPduRetrans2
  | dupInvoke (fu) : Row c (received fu) .pduInvoke (performerDropInvoke c) (received fu)
  | noResponse (fu) :
      Row c (received fu) .perfNoResponseTimer (performerNoResponse c) (performerStart fu)
  | internal (fu) : Row c (received fu) .internal (performerNoResponse c) (performerStart fu)
  | ack : Row c .ackPduWait .pduAck (trClPerformer03 c) .performerRefWait
  | resultRetran : Row c .ackPduWait .resultPduRetranTimer (trClPerformer05 c) .ackPduWait
  | resultLast :
      Row c .ackPduWait .lastTimer (performerTransmissionFailure c) .performerRefWait
  | resend (fu) : Row c (replied fu) .pduInvoke (performerResendResult c) (replied fu)
  | inactivity2 :
      Row c .resultPduRetrans2 .inactivityTimer (performerConfirm c) .performerRefWait2
  | lateInvoke (fu) :
      Row c (performerRefWait fu) .pduInvoke (trClPerformer07 c) (performerRefWait fu)
  | lateAck : Row c .performerRefWait .pduAck (trClPerformer11 c) .performerRefWait
  | performerRelease (fu) :
      Row c (performerRefWait fu) .refNuTimer (scheduleRelease c) (performerStart fu)

/-- The events that a state does not ignore. -/
def handles : State → List Evt
  | .clInvokerStart | .cl2InvokerStart => [.invokeReq]
  | .invokePduSent => [.invokePduRetranTimer, .lastTimer, .pduResult, .pduFailure, .pduAck]
  | .invokePduSent2 => [.invokePduRetranTimer, .lastTimer, .pduResult, .pduFailure]
  | .ackPduSent => [.pduResult, .inactivityTimer]
  | .invokerRefWait | .invokerRefWait2 => [.refNuTimer, .pduResult]
  | .clPerformerStart | .cl2PerformerStart => [.pduInvoke]
  | .invokePduReceived | .invokePduReceived2 =>
    [.resultReq, .pduInvoke, .internal, .perfNoResponseTimer]
  | .ackPduWait => [.pduAck, .resultPduRetranTimer, .lastTimer, .pduInvoke]
  | .resultPduRetrans2 => [.inactivityTimer, .pduInvoke]
  | .performerRefWait => [.refNuTimer, .pduInvoke, .pduAck]
  | .performerRefWait2 => [.refNuTimer, .pduInvoke]

/-- The rows of a state's table, without the default transition at its end. -/
def rows (c : Ctx) (s : State) : List (Fsm.Trans State Evt Machine) := (stateTrans c s).dropLast

theorem stateTrans_eq (c : Ctx) (s : State) :
    stateTrans c s = rows c s ++ [⟨none, trBadEventIgnore c, s⟩] := by
  cases s <;> rfl

theorem rows_handles (c : Ctx) (s : State) : (rows c s).map (·.evtId) = (handles s).map some := by
  cases s <;> rfl

theorem rows_row {c : Ctx} {s : State} {t : Fsm.Trans State Evt Machine} (ht : t ∈ rows c s) :
    ∃ evt, t.evtId = some evt ∧ Row c s evt t.action t.nextState := by
  cases s <;> simp only [rows, stateTrans, List.dropLast, List.mem_cons, List.not_mem_nil,
    or_false] at ht
  case clInvokerStart => subst ht; exact ⟨_, rfl, .invokeReq .threeWay⟩
  case invokePduSent =>
    rcases ht with rfl | rfl | rfl | rfl | rfl
    exacts [⟨_, rfl, .retran .threeWay⟩, ⟨_, rfl, .last .threeWay⟩, ⟨_, rfl, .result⟩,
      ⟨_, rfl, .failure .threeWay⟩, ⟨_, rfl, .holdOn⟩]
  case ackPduSent =>
    rcases ht with rfl | rfl
    exacts [⟨_, rfl, .dupResult⟩, ⟨_, rfl, .inactivity⟩]
  case invokerRefWait =>
    rcases ht with rfl | rfl
    exacts [⟨_, rfl, .invokerRelease .threeWay⟩, ⟨_, rfl, .lateResult⟩]
  case clPerformerStart => subst ht; exact ⟨_, rfl, .invoke⟩
  case invokePduReceived =>
    rcases ht with rfl | rfl | rfl | rfl
    exacts [⟨_, rfl, .resultReq⟩, ⟨_, rfl, .dupInvoke .threeWay⟩, ⟨_, rfl, .internal .threeWay⟩,
      ⟨_, rfl, .noResponse .threeWay⟩]
  case ackPduWait =>
    rcases ht with rfl | rfl | rfl | rfl
    exacts [⟨_, rfl, .ack⟩, ⟨_, rfl, .resultRetran⟩, ⟨_, rfl, .resultLast⟩,
      ⟨_, rfl, .resend .threeWay⟩]
  case performerRefWait =>
    rcases ht with rfl | rfl | rfl
    exacts [⟨_, rfl, .performerRelease .threeWay⟩, ⟨_, rfl, .lateInvoke .threeWay⟩,
      ⟨_, rfl, .lateAck⟩]
  case cl2InvokerStart => subst ht; exact ⟨_, rfl, .invokeReq .twoWay⟩
  case invokePduSent2 =>
    rcases ht with rfl | rfl | rfl | rfl
    exacts [⟨_, rfl, .retran .twoWay⟩, ⟨_, rfl, .last .twoWay⟩, ⟨_, rfl, .result2⟩,
      ⟨_, rfl, .failure .twoWay⟩]
  case invokerRefWait2 =>
    rcases ht with rfl | rfl
    exacts [⟨_, rfl, .invokerRelease .twoWay⟩, ⟨_, rfl, .lateResult2⟩]
  case cl2PerformerStart => subst ht; exact ⟨_, rfl, .invoke2⟩
  case invokePduReceived2 =>
    rcases ht with rfl | rfl | rfl | rfl
    exacts [⟨_, rfl, .resultReq2⟩, ⟨_, rfl, .dupInvoke .twoWay⟩, ⟨_, rfl, .internal .twoWay⟩,
      ⟨_, rfl, .noResponse .twoWay⟩]
  case resultPduRetrans2 =>
    rcases ht with rfl | rfl
    exacts [⟨_, rfl, .inactivity2⟩, ⟨_, rfl, .resend .twoWay⟩]
  case performerRefWait2 =>
    rcases ht with rfl | rfl
    exacts [⟨_, rfl, .performerRelease .twoWay⟩, ⟨_, rfl, .lateInvoke .twoWay⟩]

theorem runMachine_of_select {c : Ctx} {m : Machine} {s : State} {evt : Evt}
    {t : Fsm.Trans State Evt Machine} (hs : m.invoke.curState = some s)
    (ht : Fsm.select (stateTrans c s) evt = some t) :
    runMachine c m evt = (setState t.nextState (t.action m).1, .success) := by
  unfold runMachine
  exact Fsm.runMachine_select hs ht

/-- **Inversion of a run.** A machine ignores the event, and nothing changes, or a row fires;
either way the run succeeds. -/
theorem runMachine_cases {c : Ctx} {m : Machine} {s : State} (hs : m.invoke.curState = some s)
    (evt : Evt) :
    (evt ∉ handles s ∧ runMachine c m evt = (m, .success)) ∨
      ∃ act s', Row c s evt act s' ∧ runMachine c m evt = (setState s' (act m).1, .success) := by
  have hnone : ∀ t ∈ rows c s, t.evtId ≠ none := by
    intro t ht
    obtain ⟨e, he, -⟩ := rows_row ht
    rw [he]; simp
  have hd : (⟨none, trBadEventIgnore c, s⟩ : Fsm.Trans State Evt Machine).evtId = none := rfl
  have hsel := @Fsm.select_rows _ _ _ _ evt _ _ hd hnone
  rw [← stateTrans_eq] at hsel
  rcases hsel with ⟨t, ht, he, hsel⟩ | ⟨hno, hsel⟩
  · obtain ⟨e, he', hrow⟩ := rows_row ht
    obtain rfl : e = evt := by rw [he] at he'; simpa using he'.symm
    exact .inr ⟨_, _, hrow, runMachine_of_select hs hsel⟩
  · refine .inl ⟨fun hmem => ?_, ?_⟩
    · have : some evt ∈ (rows c s).map (·.evtId) := by
        rw [rows_handles]; exact List.mem_map.2 ⟨_, hmem, rfl⟩
      obtain ⟨t, ht, he⟩ := List.mem_map.1 this
      exact hno t ht he
    · rw [runMachine_of_select hs hsel]
      simp only [trBadEventIgnore, setState, ← hs]

theorem runMachine_stuck {c : Ctx} {m : Machine} (hs : m.invoke.curState = none) (evt : Evt) :
    runMachine c m evt = (m, .fail) := by
  unfold runMachine
  exact Fsm.runMachine_stuck hs

end Erop
