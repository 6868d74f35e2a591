import Emsd.Lib.Table
import Emsd.Mts.Deliver
import Emsd.Ua.Submit

/-!
# The transition diagrams (`deliver.c`, `mperform.c`, `submit.c`, `uperform.c`, `delctrl.c`)

The tables of the machines of both agents, in the order of the source, as `FSM_runMachine` searches
them. An event is known to it by its number only, its place in the enumeration.
-/

namespace Mtsua

open Table

/-- `FSM_Trans`: the event, the predicate, the action and the next state. No event stands for
`FSM_EvtDefault`. -/
abbrev FsmTrans (ε γ α σ : Type) := Row ε γ (Option α × σ)

@[simp]
def fsmTrans {ε γ α σ : Type} (evtId : Option ε) (predicate : Option γ) (action : Option α)
    (nextState : σ) : FsmTrans ε γ α σ :=
  ⟨evtId, predicate, (action, nextState)⟩

/-- `FSM_EvtDefault`. -/
@[simp]
def evtDefault : Nat := 0

end Mtsua

namespace Mts

open Table Mtsua

/-- The numbers of `MTS_FsmEvent`. -/
@[simp]
def FsmEvent.evtId : FsmEvent → Nat
  | .invokeIndication => 0
  | .resultIndication => 1
  | .resultConfirm => 2
  | .errorIndication => 3
  | .errorConfirm => 4
  | .failureIndication => 5
  | .messageDeliverRequest => 6
  | .segmentationTimerExpired => 7

@[simp]
def FsmEvent.numbering : Numbering FsmEvent Nat where
  code := FsmEvent.evtId
  wild := evtDefault
  inj := by
    intro a b h
    cases a <;> cases b <;> first | rfl | cases h

/-! ## `deliver.c` -/

namespace Deliver

inductive Predicate
  | pS2S1a
  | pS2S1b
  | pS2S1d
  deriving DecidableEq, Repr

inductive Action
  | aS1S2a
  | aS2S1a
  | aS2S1b
  | aS2S1c
  | aS2S1d
  | aS2S2a
  | aS2S2b
  | aUnexpectedEvent
  deriving DecidableEq, Repr

def trans : DeliverState → List (FsmTrans FsmEvent Predicate Action DeliverState)
  | .s1Idle =>
    [fsmTrans (some .messageDeliverRequest) none (some .aS1S2a) .s2InvokeResponseWait,
      fsmTrans none none (some .aUnexpectedEvent) .s1Idle]
  | .s2InvokeResponseWait =>
    [fsmTrans (some .resultIndication) (some .pS2S1a) (some .aS2S1a) .s1Idle,
      fsmTrans (some .resultIndication) none (some .aS2S2a) .s2InvokeResponseWait,
      fsmTrans (some .errorIndication) (some .pS2S1b) (some .aS2S1b) .s1Idle,
      fsmTrans (some .errorIndication) none (some .aS2S1c) .s1Idle,
      fsmTrans (some .failureIndication) (some .pS2S1d) (some .aS2S1d) .s1Idle,
      fsmTrans (some .failureIndication) none (some .aS2S2b) .s2InvokeResponseWait,
      fsmTrans none none (some .aUnexpectedEvent) .s1Idle]

end Deliver

/-! ## `mperform.c` -/

namespace Perform

inductive State
  | s1Idle
  | s2SubmitResultResponseWait
  | s3SubmitVerifyResponseWait
  | s4ErrorResponseWait
  | s5NotSubmitResultResponseWait
  deriving DecidableEq, Repr

inductive Predicate
  | pS1S2a
  | pS1S5a
  | pS1S5b
  | pS2S1a
  | pS2S1d
  | pS2S2a
  | pS3S1a
  deriving DecidableEq, Repr

inductive Action
  | aS1S2a
  | aS1S4a
  | aS1S5a
  | aS1S5b
  | aS2S1a
  | aS2S1c
  | aS2S2a
  | aS2S3a
  | aS3S1a
  | aS3S1b
  | aS3S1c
  | aS4S1a
  | aS4S1b
  | aS5S1a
  | aS5S1b
  | aS5S1c
  | aUnexpectedEvent
  deriving DecidableEq, Repr

def trans : State → List (FsmTrans FsmEvent Predicate Action State)
  | .s1Idle =>
    [fsmTrans (some .invokeIndication) (some .pS1S2a) (some .aS1S2a) .s2SubmitResultResponseWait,
      fsmTrans (some .invokeIndication) (some .pS1S5a) (some .aS1S5a)
        .s5NotSubmitResultResponseWait,
      fsmTrans (some .invokeIndication) (some .pS1S5b) (some .aS1S5b)
        .s5NotSubmitResultResponseWait,
      fsmTrans (some .invokeIndication) none (some .aS1S4a) .s4ErrorResponseWait,
      fsmTrans none none (some .aUnexpectedEvent) .s1Idle]
  | .s2SubmitResultResponseWait =>
    [fsmTrans (some .resultConfirm) (some .pS2S1a) (some .aS2S1a) .s1Idle,
      fsmTrans (some .resultConfirm) none none .s1Idle,
      fsmTrans (some .failureIndication) (some .pS2S1d) none .s1Idle,
      fsmTrans (some .failureIndication) none (some .aS2S3a) .s3SubmitVerifyResponseWait,
      fsmTrans (some .segmentationTimerExpired) none (some .aS2S1c) .s1Idle,
      fsmTrans (some .invokeIndication) (some .pS2S2a) (some .aS2S2a) .s2SubmitResultResponseWait,
      fsmTrans none none (some .aUnexpectedEvent) .s1Idle]
  | .s3SubmitVerifyResponseWait =>
    [fsmTrans (some .resultIndication) (some .pS3S1a) (some .aS3S1a) .s1Idle,
      fsmTrans (some .resultIndication) none (some .aS3S1b) .s1Idle,
      fsmTrans (some .failureIndication) none (some .aS3S1c) .s1Idle,
      fsmTrans none none (some .aUnexpectedEvent) .s1Idle]
  | .s4ErrorResponseWait =>
    [fsmTrans (some .errorConfirm) none (some .aS4S1a) .s1Idle,
      fsmTrans (some .failureIndication) none (some .aS4S1b) .s1Idle,
      fsmTrans none none (some .aUnexpectedEvent) .s1Idle]
  | .s5NotSubmitResultResponseWait =>
    [fsmTrans (some .resultConfirm) none (some .aS5S1a) .s1Idle,
      fsmTrans (some .errorConfirm) none (some .aS5S1b) .s1Idle,
      fsmTrans (some .failureIndication) none (some .aS5S1c) .s1Idle,
      fsmTrans none none (some .aUnexpectedEvent) .s1Idle]

end Perform

end Mts

namespace Ua

open Table Mtsua

/-- The numbers of `UA_FsmEvent`. -/
@[simp]
def FsmEvent.evtId : FsmEvent → Nat
  | .invokeIndication => 0
  | .resultIndication => 1
  | .resultConfirm => 2
  | .errorIndication => 3
  | .errorConfirm => 4
  | .failureIndication => 5
  | .messageSubmitRequest => 6
  | .segmentationTimerExpired => 7
  | .deliveryControlRequest => 8

@[simp]
def FsmEvent.numbering : Numbering FsmEvent Nat where
  code := FsmEvent.evtId
  wild := evtDefault
  inj := by
    intro a b h
    cases a <;> cases b <;> first | rfl | cases h

/-! ## `submit.c` -/

namespace Submit

inductive Predicate
  | pS2S1a
  | pS2S1b
  | pS2S1d
  deriving DecidableEq, Repr

inductive Action
  | aS1S2a
  | aS2S1a
  | aS2S1b
  | aS2S1c
  | aS2S1d
  | aS2S2a
  | aS2S2b
  | aUnexpectedEvent
  deriving DecidableEq, Repr

def trans : SubmitState → List (FsmTrans FsmEvent Predicate Action SubmitState)
  | .s1Idle =>
    [fsmTrans (some .messageSubmitRequest) none (some .aS1S2a) .s2InvokeResponseWait,
      fsmTrans none none (some .aUnexpectedEvent) .s1Idle]
  | .s2InvokeResponseWait =>
    [fsmTrans (some .resultIndication) (some .pS2S1a) (some .aS2S1a) .s1Idle,
      fsmTrans (some .resultIndication) none (some .aS2S2a) .s2InvokeResponseWait,
      fsmTrans (some .errorIndication) (some .pS2S1b) (some .aS2S1b) .s1Idle,
      fsmTrans (some .errorIndication) none (some .aS2S1c) .s1Idle,
      fsmTrans (some .failureIndication) (some .pS2S1d) (some .aS2S1d) .s1Idle,
      fsmTrans (some .failureIndication) none (some .aS2S2b) .s2InvokeResponseWait,
      fsmTrans none none (some .aUnexpectedEvent) .s1Idle]

end Submit

/-! ## `delctrl.c` -/

namespace DeliveryControl

inductive State
  | s1Idle
  | s2DeliveryControlResponseWait
  deriving DecidableEq, Repr

inductive Predicate
  | pS2S1a
  | pS2S1b
  | pS2S1d
  deriving DecidableEq, Repr

inductive Action
  | aS1S2a
  | aS2S1a
  | aS2S1b
  | aS2S1c
  | aS2S1d
  | aS2S2a
  | aUnexpectedEvent
  deriving DecidableEq, Repr

def trans : State → List (FsmTrans FsmEvent Predicate Action State)
  | .s1Idle =>
    [fsmTrans (some .deliveryControlRequest) none (some .aS1S2a) .s2DeliveryControlResponseWait,
      fsmTrans none none (some .aUnexpectedEvent) .s1Idle]
  | .s2DeliveryControlResponseWait =>
    [fsmTrans (some .resultIndication) (some .pS2S1a) (some .aS2S1a) .s1Idle,
      fsmTrans (some .errorIndication) (some .pS2S1b) (some .aS2S1b) .s1Idle,
      fsmTrans (some .errorIndication) none (some .aS2S1c) .s1Idle,
      fsmTrans (some .failureIndication) (some .pS2S1d) (some .aS2S1d) .s1Idle,
      fsmTrans (some .failureIndication) none (some .aS2S2a) .s2DeliveryControlResponseWait,
      fsmTrans none none (some .aUnexpectedEvent) .s1Idle]

end DeliveryControl

/-! ## `uperform.c` -/

namespace Perform

inductive State
  | s1Idle
  | s2DeliverResultResponseWait
  | s3DeliverVerifyResponseWait
  | s4ErrorResponseWait
  | s5NotDeliverResultResponseWait
  deriving DecidableEq, Repr

inductive Predicate
  | pS1S2a
  | pS1S5a
  | pS1S5b
  | pS2S1a
  | pS2S1d
  | pS2S1e
  | pS2S2a
  deriving DecidableEq, Repr

inductive Action
  | aS1S2a
  | aS1S4a
  | aS1S5a
  | aS1S5b
  | aS2S1a
  | aS2S1b
  | aS2S1c
  | aS2S1d
  | aS2S1e
  | aS2S2a
  | aS2S3a
  | aS3S1a
  | aS3S1b
  | aS4S1a
  | aS4S1b
  | aS5S1a
  | aS5S1b
  | aS5S1c
  | aUnexpectedEvent
  deriving DecidableEq, Repr

def trans : State → List (FsmTrans FsmEvent Predicate Action State)
  | .s1Idle =>
    [fsmTrans (some .invokeIndication) (some .pS1S2a) (some .aS1S2a) .s2DeliverResultResponseWait,
      fsmTrans (some .invokeIndication) (some .pS1S5a) (some .aS1S5a)
        .s5NotDeliverResultResponseWait,
      fsmTrans (some .invokeIndication) (some .pS1S5b) (some .aS1S5b)
        .s5NotDeliverResultResponseWait,
      fsmTrans (some .invokeIndication) none (some .aS1S4a) .s4ErrorResponseWait,
      fsmTrans none none (some .aUnexpectedEvent) .s1Idle]
  | .s2DeliverResultResponseWait =>
    [fsmTrans (some .resultConfirm) (some .pS2S1a) (some .aS2S1a) .s1Idle,
      fsmTrans (some .resultConfirm) none (some .aS2S1b) .s1Idle,
      fsmTrans (some .failureIndication) (some .pS2S1e) (some .aS2S1e) .s1Idle,
      fsmTrans (some .failureIndication) (some .pS2S1d) (some .aS2S1d) .s1Idle,
      fsmTrans (some .failureIndication) none (some .aS2S3a) .s3DeliverVerifyResponseWait,
      fsmTrans (some .invokeIndication) (some .pS2S2a) (some .aS2S2a) .s2DeliverResultResponseWait,
      fsmTrans (some .segmentationTimerExpired) none (some .aS2S1c) .s1Idle,
      fsmTrans none none (some .aUnexpectedEvent) .s1Idle]
  | .s3DeliverVerifyResponseWait =>
    [fsmTrans (some .resultIndication) none (some .aS3S1a) .s1Idle,
      fsmTrans (some .failureIndication) none (some .aS3S1b) .s1Idle,
      fsmTrans none none (some .aUnexpectedEvent) .s1Idle]
  | .s4ErrorResponseWait =>
    [fsmTrans (some .errorConfirm) none (some .aS4S1a) .s1Idle,
      fsmTrans (some .failureIndication) none (some .aS4S1b) .s1Idle,
      fsmTrans none none (some .aUnexpectedEvent) .s1Idle]
  | .s5NotDeliverResultResponseWait =>
    [fsmTrans (some .resultConfirm) none (some .aS5S1a) .s1Idle,
      fsmTrans (some .errorConfirm) none (some .aS5S1b) .s1Idle,
      fsmTrans (some .failureIndication) none (some .aS5S1c) .s1Idle,
      fsmTrans none none (some .aUnexpectedEvent) .s1Idle]

end Perform

end Ua
