import Emsd.Ocp.Data

/-!
# Finite state machines (`fsm.c`)

A state has a table of transitions; the first one whose event is the default event or
the event at hand is taken. Its action runs, and the machine moves to the next state
**whatever the action returned**.
-/

namespace Fsm

open Ocp

variable {σ ε μ : Type}

/-- `FSM_Trans`. No transition of the engine has a predicate; `none` is `FSM_EvtDefault`. -/
structure Trans (σ ε μ : Type) where
  evtId : Option ε
  action : μ → μ × SuccFail
  nextState : σ

/-- `fsm_evtsMatch`. -/
def evtsMatch [DecidableEq ε] (transEvt : Option ε) (evtId : ε) : Bool :=
  transEvt = none || transEvt = some evtId

/-- The transition that `FSM_runMachine` selects from a state's table. -/
def select [DecidableEq ε] (trans : List (Trans σ ε μ)) (evtId : ε) : Option (Trans σ ε μ) :=
  trans.find? fun t => evtsMatch t.evtId evtId

/-- `FSM_runMachine`: the action's return value is only reported, never acted on. -/
def runMachine [DecidableEq ε] (trans : σ → List (Trans σ ε μ)) (curState : μ → Option σ)
    (setState : σ → μ → μ) (machine : μ) (evtId : ε) : μ × SuccFail :=
  match curState machine with
  | none => (machine, .fail)
  | some s =>
    match select (trans s) evtId with
    | none => (machine, .fail)
    | some t => (setState t.nextState (t.action machine).1, .success)

section

variable [DecidableEq ε] {trans : σ → List (Trans σ ε μ)} {curState : μ → Option σ}
  {setState : σ → μ → μ} {m : μ} {evt : ε} {s : σ} {t : Trans σ ε μ}

/-- A table that ends with its only default transition: a row for the event is taken if there
is one, else the default. -/
theorem select_rows {rows : List (Trans σ ε μ)} {d : Trans σ ε μ} (hd : d.evtId = none)
    (hrows : ∀ t ∈ rows, t.evtId ≠ none) :
    (∃ t ∈ rows, t.evtId = some evt ∧ select (rows ++ [d]) evt = some t) ∨
      ((∀ t ∈ rows, t.evtId ≠ some evt) ∧ select (rows ++ [d]) evt = some d) := by
  unfold select
  rw [List.find?_append]
  cases hf : rows.find? fun t => evtsMatch t.evtId evt with
  | some t =>
    have hmem := List.mem_of_find?_eq_some hf
    have hmatch := List.find?_some hf
    simp only [evtsMatch, Bool.or_eq_true, decide_eq_true_eq] at hmatch
    exact .inl ⟨t, hmem, hmatch.resolve_left (hrows t hmem), by simp⟩
  | none =>
    refine .inr ⟨fun t ht he => ?_, by simp [evtsMatch, hd]⟩
    exact absurd (List.find?_eq_none.1 hf t ht) (by simp [evtsMatch, he])

theorem runMachine_select (hs : curState m = some s) (ht : select (trans s) evt = some t) :
    runMachine trans curState setState m evt = (setState t.nextState (t.action m).1, .success) := by
  unfold runMachine; rw [hs]; simp only; rw [ht]

theorem runMachine_stuck (hs : curState m = none) :
    runMachine trans curState setState m evt = (m, .fail) := by
  unfold runMachine; rw [hs]

end

end Fsm
