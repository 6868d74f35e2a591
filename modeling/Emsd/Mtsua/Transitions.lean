import Emsd.Mtsua.Diagrams
import Emsd.Mts.Performer

/-!
# The transition that fires (`FSM_runMachine`)

`InvokeIndication` is the first event of both enumerations, so its number is `FSM_EvtDefault`: the
rows that are written for it match every event.

* `fires_written`: **the transition that fires is written for the event**, or is a default one, if
  and only if no row of INVOKE.indication stands before one that is sure to be taken (`hidden`).
* `confirm_invokes`: a RESULT.confirm for an idle machine of the UA fires a row of
  INVOKE.indication.
* `performTrans_select`, `deliverTrans_select`, `submitTrans_select`: the transitions of the models
  of the machines are those of the tables.
-/

namespace Mtsua

open Table

/-- A transition diagram. `isTrue`: the predicate returns TRUE whatever it is called with. -/
structure Diagram where
  Event : Type
  State : Type
  Predicate : Type
  Action : Type
  numbering : Numbering Event Nat
  invokeIndication : Event
  isTrue : Predicate → Bool
  trans : State → List (FsmTrans Event Predicate Action State)

/-- The machines of the MTS and the UA. -/
inductive Machine
  | deliver
  | mtsPerform
  | submit
  | uaPerform
  | deliveryControl
  deriving DecidableEq, Repr

def Machine.diagram : Machine → Diagram
  | deliver => ⟨_, _, _, _, Mts.FsmEvent.numbering, .invokeIndication, fun _ => false,
      Mts.Deliver.trans⟩
  | mtsPerform => ⟨_, _, _, _, Mts.FsmEvent.numbering, .invokeIndication, fun p => p = .pS2S2a,
      Mts.Perform.trans⟩
  | submit => ⟨_, _, _, _, Ua.FsmEvent.numbering, .invokeIndication, fun _ => false,
      Ua.Submit.trans⟩
  | uaPerform => ⟨_, _, _, _, Ua.FsmEvent.numbering, .invokeIndication, fun p => p = .pS2S2a,
      Ua.Perform.trans⟩
  | deliveryControl => ⟨_, _, _, _, Ua.FsmEvent.numbering, .invokeIndication, fun p => p = .pS2S1a,
      Ua.DeliveryControl.trans⟩

namespace Diagram

variable {μ : Type}

/-- The predicates: those that are no constants are left open. -/
def holds (d : Diagram) (predicates : d.Predicate → μ → Bool × μ) (p : d.Predicate) (m : μ) :
    Bool × μ :=
  if d.isTrue p then (true, m) else predicates p m

/-- The transition that `FSM_runMachine` fires. -/
def fires (d : Diagram) (predicates : d.Predicate → μ → Bool × μ) (s : d.State) (evt : d.Event)
    (m : μ) : Option (FsmTrans d.Event d.Predicate d.Action d.State) :=
  (select d.numbering (d.holds predicates) evt (d.trans s) m).1

end Diagram

/-- The rows of INVOKE.indication stand before one that is sure to be taken for the event. -/
def hiddenMts : Mts.Perform.State → Mts.FsmEvent → Bool
  | .s1Idle, evt => evt != .invokeIndication
  | .s2SubmitResultResponseWait, evt =>
    !([.invokeIndication, .resultConfirm, .failureIndication, .segmentationTimerExpired].contains evt)
  | _, _ => false

/-- In the UA the row of the segmentation timer stands behind that of INVOKE.indication. -/
def hiddenUa : Ua.Perform.State → Ua.FsmEvent → Bool
  | .s1Idle, evt => evt != .invokeIndication
  | .s2DeliverResultResponseWait, evt =>
    !([.invokeIndication, .resultConfirm, .failureIndication].contains evt)
  | _, _ => false

/-- The event is taken for an INVOKE.indication. -/
def Machine.hidden : (a : Machine) → a.diagram.State → a.diagram.Event → Bool
  | .mtsPerform => hiddenMts
  | .uaPerform => hiddenUa
  | _ => fun _ _ => false

section

variable {μ : Type} {m : μ}

/-- A table without rows of INVOKE.indication that ends with a default one. -/
theorem select_own {ε γ τ : Type} {N : Numbering ε Nat} {holds : γ → μ → Bool × μ} {e : ε}
    (rows : List (Row ε γ τ)) (hrows : ∀ r ∈ rows, ∀ x ∈ r.entry, N.code x ≠ N.wild)
    (hlast : ∃ c ∈ rows, c.entry = none ∧ c.guard = none) :
    ∃ r, (select N holds e rows m).1 = some r ∧ r.Written e := by
  have htotal : ∃ r, (select N holds e rows m).1 = some r := select_total hlast m
  obtain ⟨r, hr⟩ := htotal
  exact ⟨r, hr, select_written hrows hr⟩

/-- A row without a predicate always holds. -/
theorem holds_free {ε γ τ : Type} {holds : γ → μ → Bool × μ} {r : Row ε γ τ} (hr : r.guard = none) :
    r.Holds holds := by
  intro g hg
  rw [hr] at hg
  cases hg

/-- The Performer of the MTS. -/
theorem select_mts (s : Mts.Perform.State) (evt : Mts.FsmEvent)
    {holds : Mts.Perform.Predicate → μ → Bool × μ} (htrue : ∀ m, (holds .pS2S2a m).1 = true) :
    (∃ r, (select Mts.FsmEvent.numbering holds evt (Mts.Perform.trans s) m).1 = some r ∧
      r.Written evt) ↔ hiddenMts s evt = false := by
  cases s with
  | s1Idle =>
    -- the fourth row has no predicate
    refine select_written_iff ((Mts.Perform.trans .s1Idle).take 3) (.inl rfl)
      (holds_free rfl) ?_
    cases evt <;> decide
  | s2SubmitResultResponseWait =>
    have hinvoke : Row.Holds holds (fsmTrans (some Mts.FsmEvent.invokeIndication) (some .pS2S2a)
        (some Mts.Perform.Action.aS2S2a) Mts.Perform.State.s2SubmitResultResponseWait) := by
      intro g hg
      cases hg
      exact htrue
    let rows := Mts.Perform.trans .s2SubmitResultResponseWait
    cases evt with
    | resultConfirm =>
      exact select_written_iff (rows.take 1) (by decide) (holds_free rfl) (by decide)
    | failureIndication =>
      exact select_written_iff (rows.take 3) (by decide) (holds_free rfl) (by decide)
    | segmentationTimerExpired =>
      exact select_written_iff (rows.take 4) (by decide) (holds_free rfl) (by decide)
    | _ => exact select_written_iff (rows.take 5) (by decide) hinvoke (by decide)
  | _ => exact iff_of_true (select_own _ (by decide) (by decide)) rfl

/-- The Performer of the UA. -/
theorem select_ua (s : Ua.Perform.State) (evt : Ua.FsmEvent)
    {holds : Ua.Perform.Predicate → μ → Bool × μ} (htrue : ∀ m, (holds .pS2S2a m).1 = true) :
    (∃ r, (select Ua.FsmEvent.numbering holds evt (Ua.Perform.trans s) m).1 = some r ∧
      r.Written evt) ↔ hiddenUa s evt = false := by
  cases s with
  | s1Idle =>
    refine select_written_iff ((Ua.Perform.trans .s1Idle).take 3) (.inl rfl)
      (holds_free rfl) ?_
    cases evt <;> decide
  | s2DeliverResultResponseWait =>
    have hinvoke : Row.Holds holds (fsmTrans (some Ua.FsmEvent.invokeIndication) (some .pS2S2a)
        (some Ua.Perform.Action.aS2S2a) Ua.Perform.State.s2DeliverResultResponseWait) := by
      intro g hg
      cases hg
      exact htrue
    let rows := Ua.Perform.trans .s2DeliverResultResponseWait
    cases evt with
    | resultConfirm =>
      exact select_written_iff (rows.take 1) (by decide) (holds_free rfl) (by decide)
    | failureIndication =>
      exact select_written_iff (rows.take 4) (by decide) (holds_free rfl) (by decide)
    | _ => exact select_written_iff (rows.take 5) (by decide) hinvoke (by decide)
  | _ => exact iff_of_true (select_own _ (by decide) (by decide)) rfl

/-- **The transition that fires is written for the event**, or is a default one, if and only if no
row of INVOKE.indication hides it. -/
theorem fires_written (a : Machine) (s : a.diagram.State) (evt : a.diagram.Event)
    (predicates : a.diagram.Predicate → μ → Bool × μ) (m : μ) :
    (∃ r, a.diagram.fires predicates s evt m = some r ∧ r.Written evt) ↔ a.hidden s evt = false := by
  cases a with
  | mtsPerform => exact select_mts s evt fun _ => rfl
  | uaPerform => exact select_ua s evt fun _ => rfl
  | deliver =>
    refine iff_of_true ?_ rfl
    cases s with
    | s1Idle => exact select_own (Mts.Deliver.trans .s1Idle) (by decide) (by decide)
    | s2InvokeResponseWait =>
      exact select_own (Mts.Deliver.trans .s2InvokeResponseWait) (by decide) (by decide)
  | submit =>
    refine iff_of_true ?_ rfl
    cases s with
    | s1Idle => exact select_own (Ua.Submit.trans .s1Idle) (by decide) (by decide)
    | s2InvokeResponseWait =>
      exact select_own (Ua.Submit.trans .s2InvokeResponseWait) (by decide) (by decide)
  | deliveryControl =>
    refine iff_of_true ?_ rfl
    cases s with
    | s1Idle => exact select_own (Ua.DeliveryControl.trans .s1Idle) (by decide) (by decide)
    | s2DeliveryControlResponseWait =>
      exact select_own (Ua.DeliveryControl.trans .s2DeliveryControlResponseWait) (by decide)
        (by decide)

end

/-- An idle machine of the UA without a pending INVOKE is given a RESULT.confirm: it fires
`aS1S4a`. -/
theorem confirm_invokes : ∃ r, Machine.uaPerform.diagram.fires (fun _ (m : Unit) => (false, m))
    .s1Idle .resultConfirm () = some r ∧ r.entry = some .invokeIndication ∧
      r.target.1 = some .aS1S4a := ⟨_, rfl, rfl, rfl⟩

end Mtsua

/-! ## The models of the machines -/

namespace Mts

open Table Mtsua

/-- The predicates of `deliver.c`. -/
def Deliver.holds : Deliver.Predicate → Sender → Bool × Sender
  | .pS2S1a, m => (pS2S1a m, m)
  | .pS2S1b, m => (pS2S1b m, m)
  | .pS2S1d, m => pS2S1d m

/-- The action and the next state of a transition. -/
def Deliver.target (tr : DeliverTrans) : Option Deliver.Action × DeliverState :=
  (some (match tr with
    | .s1s2a => .aS1S2a
    | .s2s1a => .aS2S1a
    | .s2s1b => .aS2S1b
    | .s2s1c => .aS2S1c
    | .s2s1d => .aS2S1d
    | .s2s2a => .aS2S2a
    | .s2s2b => .aS2S2b
    | .unexpected => .aUnexpectedEvent), tr.nextState)

/-- **`deliverTrans` reads the table.** -/
theorem deliverTrans_select (s : DeliverState) (evt : FsmEvent) (m : Sender) :
    let r := select FsmEvent.numbering Deliver.holds evt (Deliver.trans s) m
    (r.1.map Row.target, r.2) =
      (some (Deliver.target (deliverTrans s evt m).1), (deliverTrans s evt m).2) := by
  cases s with
  | s1Idle => cases evt <;> rfl
  | s2InvokeResponseWait =>
    cases evt with
    | resultIndication =>
      rcases h : pS2S1a m with _ | _ <;>
        simp [select, Deliver.trans, Deliver.holds, deliverTrans, Deliver.target,
          SendTrans.nextState, h]
    | errorIndication =>
      rcases h : pS2S1b m with _ | _ <;>
        simp [select, Deliver.trans, Deliver.holds, deliverTrans, Deliver.target,
          SendTrans.nextState, h]
    | failureIndication =>
      rcases h : (pS2S1d m).1 with _ | _ <;>
        simp [select, Deliver.trans, Deliver.holds, deliverTrans, Deliver.target,
          SendTrans.nextState, h]
    | _ => rfl

/-- The state of the table. -/
def PerformState.state : PerformState → Perform.State
  | .s1Idle => .s1Idle
  | .s2SubmitResultResponseWait => .s2SubmitResultResponseWait
  | .s3SubmitVerifyResponseWait => .s3SubmitVerifyResponseWait
  | .s4ErrorResponseWait => .s4ErrorResponseWait

/-- The predicates of `mperform.c` for a submission. There is no operation when the code follows a
bad pointer. -/
def Perform.holds (env : PerformEnv) (p : Perform.Predicate) :
    Option (Performer × List PerformOut) → Bool × Option (Performer × List PerformOut)
  | none => (false, none)
  | some (m, o) =>
    match p with
    | .pS1S2a =>
      match pS1S2a env m with
      | none => (false, none)
      | some (m, ok, o') => (ok, some (m, o ++ o'))
    | .pS1S5a | .pS1S5b => (false, some (m, o))
    | .pS2S1a => (allReceived m, some (m, o))
    | .pS2S1d => (!allReceived m, some (m, o))
    | .pS2S2a => (true, some (m, o))
    | .pS3S1a => (pS3S1a m, some (m, o))

def PerformTrans.target (tr : PerformTrans) : Option Perform.Action × Perform.State :=
  (match tr with
    | .s1s2a => some .aS1S2a
    | .s1s4a => some .aS1S4a
    | .s2s1a => some .aS2S1a
    | .s2s1b => none
    | .s2s1c => some .aS2S1c
    | .s2s1d => none
    | .s2s3a => some .aS2S3a
    | .s2s2a => some .aS2S2a
    | .s3s1a => some .aS3S1a
    | .s3s1b => some .aS3S1b
    | .s3s1c => some .aS3S1c
    | .s4s1a => some .aS4S1a
    | .s4s1b => some .aS4S1b
    | .unexpected => some .aUnexpectedEvent, tr.nextState.state)

/-- **`performTrans` reads the table.** -/
theorem performTrans_select (env : PerformEnv) (s : PerformState) (evt : FsmEvent) (m : Performer) :
    let r := select FsmEvent.numbering (Perform.holds env) evt (Perform.trans s.state) (some (m, []))
    (r.2.bind fun p => r.1.map fun row => (row.target, p)) =
      (performTrans env s evt m).map fun t => (t.1.target, t.2) := by
  cases s with
  | s1Idle =>
    rcases h : pS1S2a env m with _ | ⟨m', _ | _, o⟩ <;>
      simp [select, PerformState.state, Perform.trans, Perform.holds, performTrans,
        PerformTrans.target, PerformTrans.nextState, h]
  | s2SubmitResultResponseWait =>
    rcases h : allReceived m with _ | _ <;> cases evt <;>
      simp [select, PerformState.state, Perform.trans, Perform.holds, performTrans,
        PerformTrans.target, PerformTrans.nextState, h]
  | s3SubmitVerifyResponseWait =>
    rcases h : pS3S1a m with _ | _ <;> cases evt <;>
      simp [select, PerformState.state, Perform.trans, Perform.holds, performTrans,
        PerformTrans.target, PerformTrans.nextState, h]
  | s4ErrorResponseWait => cases evt <;> rfl

end Mts

namespace Ua

open Table Mtsua

/-- The predicates of `submit.c`. -/
def Submit.holds : Submit.Predicate → Sender → Bool × Sender
  | .pS2S1a, m => (pS2S1a m, m)
  | .pS2S1b, m => (pS2S1b m, m)
  | .pS2S1d, m => pS2S1d m

def Submit.target (tr : SubmitTrans) : Option Submit.Action × SubmitState :=
  (some (match tr with
    | .s1s2a => .aS1S2a
    | .s2s1a => .aS2S1a
    | .s2s1b => .aS2S1b
    | .s2s1c => .aS2S1c
    | .s2s1d => .aS2S1d
    | .s2s2a => .aS2S2a
    | .s2s2b => .aS2S2b
    | .unexpected => .aUnexpectedEvent), tr.nextState)

/-- **`submitTrans` reads the table.** -/
theorem submitTrans_select (s : SubmitState) (evt : FsmEvent) (m : Sender) :
    let r := select FsmEvent.numbering Submit.holds evt (Submit.trans s) m
    (r.1.map Row.target, r.2) =
      (some (Submit.target (submitTrans s evt m).1), (submitTrans s evt m).2) := by
  cases s with
  | s1Idle => cases evt <;> rfl
  | s2InvokeResponseWait =>
    cases evt with
    | resultIndication =>
      rcases h : pS2S1a m with _ | _ <;>
        simp [select, Submit.trans, Submit.holds, submitTrans, Submit.target,
          SendTrans.nextState, h]
    | errorIndication =>
      rcases h : pS2S1b m with _ | _ <;>
        simp [select, Submit.trans, Submit.holds, submitTrans, Submit.target,
          SendTrans.nextState, h]
    | failureIndication =>
      rcases h : (pS2S1d m).1 with _ | _ <;>
        simp [select, Submit.trans, Submit.holds, submitTrans, Submit.target,
          SendTrans.nextState, h]
    | _ => rfl

end Ua
