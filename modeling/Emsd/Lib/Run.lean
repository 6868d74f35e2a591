import Mathlib.Data.List.Basic
import Mathlib.Data.List.Count
import Mathlib.Tactic.Common

/-!
# Runs of a system with inputs and outputs

A system takes one input at a time and answers with a list of outputs; `none` is an
input it cannot take. `Exec S ok s h s'` is a run from `s` to `s'` whose steps all
satisfy the condition `ok`, with `h` the outputs in order.

* `Exec.invariant`: what every step preserves holds along every run.
* `Exec.invariant_hist`: the same for a predicate that also reads the outputs so far.
* `Sys.logged`, `Reach.invariant_log`: the same over the log of a run, with its inputs.
* `Exec.trace`: when every step is one move of an abstract machine, the observed
  outputs of a run are a trace of that machine.
* `Exec.simulates`: the same for a relation between the states, and with the inputs.
-/

namespace Run

/-- A system: initial states, and a partial step that reports its outputs. -/
structure Sys (σ ι ο : Type*) where
  init : σ → Prop
  step : σ → ι → Option (σ × List ο)

variable {σ ι ο : Type*} {S : Sys σ ι ο} {ok : σ → ι → Prop} {s t u : σ} {h h' : List ο}

/-- A run from `s`, every step of which satisfies `ok`, with its outputs. -/
inductive Exec (S : Sys σ ι ο) (ok : σ → ι → Prop) (s : σ) : List ο → σ → Prop
  | refl : Exec S ok s [] s
  | snoc {h o t u i} : Exec S ok s h t → ok t i → S.step t i = some (u, o) → Exec S ok s (h ++ o) u

/-- `s` is reached from an initial state with outputs `h`. -/
def Reach (S : Sys σ ι ο) (ok : σ → ι → Prop) (h : List ο) (s : σ) : Prop :=
  ∃ s₀, S.init s₀ ∧ Exec S ok s₀ h s

/-- No condition on the steps. -/
def any : σ → ι → Prop := fun _ _ => True

theorem Exec.single {i : ι} {o : List ο} (hok : ok s i) (hs : S.step s i = some (t, o)) :
    Exec S ok s o t := by
  have h₀ : Exec S ok s [] s := .refl
  simpa using h₀.snoc hok hs

theorem Exec.trans (h₁ : Exec S ok s h t) (h₂ : Exec S ok t h' u) : Exec S ok s (h ++ h') u := by
  induction h₂ with
  | refl => simpa using h₁
  | snoc _ hok hs ih => rw [← List.append_assoc]; exact ih.snoc hok hs

theorem Exec.mono {ok' : σ → ι → Prop} (himp : ∀ s i, ok s i → ok' s i) (hr : Exec S ok s h t) :
    Exec S ok' s h t := by
  induction hr with
  | refl => exact .refl
  | snoc _ hok hs ih => exact ih.snoc (himp _ _ hok) hs

theorem Reach.mono {ok' : σ → ι → Prop} (himp : ∀ s i, ok s i → ok' s i) (hr : Reach S ok h t) :
    Reach S ok' h t := by
  obtain ⟨s₀, hi, hx⟩ := hr
  exact ⟨s₀, hi, hx.mono himp⟩

theorem Reach.any (hr : Reach S ok h t) : Reach S any h t := hr.mono fun _ _ _ => trivial

theorem Reach.init (hi : S.init s) : Reach S ok [] s := ⟨s, hi, .refl⟩

theorem Reach.trans (hr : Reach S ok h s) (hx : Exec S ok s h' t) : Reach S ok (h ++ h') t := by
  obtain ⟨s₀, hi, hx₀⟩ := hr
  exact ⟨s₀, hi, hx₀.trans hx⟩

theorem Reach.step {i : ι} {o : List ο} (hr : Reach S ok h s) (hok : ok s i)
    (hs : S.step s i = some (t, o)) : Reach S ok (h ++ o) t :=
  hr.trans (.single hok hs)

/-- **Invariant rule.** What every allowed step preserves holds at the end of a run. -/
theorem Exec.invariant {P : σ → Prop}
    (hstep : ∀ s i t o, P s → ok s i → S.step s i = some (t, o) → P t)
    (hr : Exec S ok s h t) (h0 : P s) : P t := by
  induction hr with
  | refl => exact h0
  | snoc _ hok hs ih => exact hstep _ _ _ _ ih hok hs

theorem Reach.invariant {P : σ → Prop} (hinit : ∀ s, S.init s → P s)
    (hstep : ∀ s i t o, P s → ok s i → S.step s i = some (t, o) → P t)
    (hr : Reach S ok h t) : P t := by
  obtain ⟨s₀, hi, hx⟩ := hr
  exact hx.invariant hstep (hinit _ hi)

/-- **Invariant rule with outputs.** The predicate also reads the outputs so far. -/
theorem Reach.invariant_hist {P : σ → List ο → Prop} (hinit : ∀ s, S.init s → P s [])
    (hstep : ∀ s i t o h, P s h → ok s i → S.step s i = some (t, o) → P t (h ++ o))
    (hr : Reach S ok h t) : P t h := by
  obtain ⟨s₀, hi, hx⟩ := hr
  induction hx with
  | refl => exact hinit _ hi
  | snoc _ hok hs ih => exact hstep _ _ _ _ _ ih hok hs

/-! ## Logs -/

/-- The system that reports its steps: each input with the outputs it has led to. -/
def Sys.logged (S : Sys σ ι ο) : Sys σ ι (ι × List ο) where
  init := S.init
  step s i := (S.step s i).map fun r => (r.1, [(i, r.2)])

theorem Sys.logged_step {i : ι} {l : List (ι × List ο)} :
    S.logged.step s i = some (t, l) ↔ ∃ o, S.step s i = some (t, o) ∧ l = [(i, o)] := by
  simp only [Sys.logged, Option.map_eq_some_iff, Prod.mk.injEq, Prod.exists]
  constructor
  · rintro ⟨t', o, hs, rfl, rfl⟩
    exact ⟨o, hs, rfl⟩
  · rintro ⟨o, hs, rfl⟩
    exact ⟨t, o, hs, rfl, rfl⟩

/-- **Invariant rule with a log.** -/
theorem Reach.invariant_log {P : σ → List (ι × List ο) → Prop} {log : List (ι × List ο)}
    (hinit : ∀ s, S.init s → P s [])
    (hstep : ∀ s i t o log, P s log → ok s i → S.step s i = some (t, o) → P t (log ++ [(i, o)]))
    (hr : Reach S.logged ok log s) : P s log := by
  refine Reach.invariant_hist (S := S.logged) hinit (fun s i t l log h hok hs => ?_) hr
  obtain ⟨o, ho, rfl⟩ := Sys.logged_step.1 hs
  exact hstep s i t o log h hok ho

/-! ## Running a list of inputs -/

/-- The run over a list of inputs, as long as each step passes the test `b`. -/
def Sys.run (S : Sys σ ι ο) (b : σ → ι → Bool) : σ → List ι → Option (σ × List ο)
  | s, [] => some (s, [])
  | s, i :: is =>
    if b s i then (S.step s i).bind fun r => (S.run b r.1 is).map fun q => (q.1, r.2 ++ q.2)
    else none

theorem Sys.run_cons {b : σ → ι → Bool} {i : ι} {is : List ι} {o : List ο} (hb : b s i = true)
    (hs : S.step s i = some (t, o)) :
    S.run b s (i :: is) = (S.run b t is).map fun r => (r.1, o ++ r.2) := by
  rw [Sys.run, if_pos hb, hs, Option.bind_some]

theorem Sys.run_append {b : σ → ι → Bool} {is js : List ι} (hr : S.run b s is = some (t, h)) :
    S.run b s (is ++ js) = (S.run b t js).map fun r => (r.1, h ++ r.2) := by
  induction is generalizing s h with
  | nil =>
    obtain ⟨rfl, rfl⟩ := Prod.mk.inj (Option.some.inj hr)
    exact Option.map_id'.symm
  | cons i is ih =>
    simp only [Sys.run] at hr
    split at hr
    · rename_i hbi
      obtain ⟨⟨u, o⟩, hs, hrest⟩ := Option.bind_eq_some_iff.1 hr
      obtain ⟨⟨u', o'⟩, hq, he⟩ := Option.map_eq_some_iff.1 hrest
      obtain ⟨rfl, rfl⟩ := Prod.mk.inj he
      rw [List.cons_append, Sys.run_cons hbi hs, ih hq, Option.map_map]
      simp only [Function.comp_def, List.append_assoc]
    · cases hr

theorem Exec.of_run {b : σ → ι → Bool} (hb : ∀ s i, b s i = true → ok s i) {is : List ι}
    (hr : S.run b s is = some (t, h)) : Exec S ok s h t := by
  induction is generalizing s h with
  | nil =>
    obtain ⟨rfl, rfl⟩ := Prod.mk.inj (Option.some.inj hr)
    exact .refl
  | cons i is ih =>
    simp only [Sys.run] at hr
    split at hr
    · rename_i hbi
      obtain ⟨⟨u, o⟩, hs, hrest⟩ := Option.bind_eq_some_iff.1 hr
      obtain ⟨⟨u', o'⟩, hq, he⟩ := Option.map_eq_some_iff.1 hrest
      obtain ⟨rfl, rfl⟩ := Prod.mk.inj he
      exact (Exec.single (hb _ _ hbi) hs).trans (ih hq)
    · cases hr

/-- Every step is allowed. -/
def always : σ → ι → Bool := fun _ _ => true

/-- What a run over a list of inputs reaches, and a test of it. -/
theorem Reach.of_run {b : σ → ι → Bool} (hb : ∀ s i, b s i = true → ok s i) (hi : S.init s)
    (is : List ι) (p : σ → List ο → Bool)
    (hr : (S.run b s is).any (fun r => p r.1 r.2) = true) :
    ∃ t h, Reach S ok h t ∧ p t h = true := by
  obtain ⟨⟨t, h⟩, hrun, hp⟩ := (Option.any_eq_true _ _).1 hr
  exact ⟨t, h, ⟨s, hi, .of_run hb hrun⟩, hp⟩

theorem Reach.of_run_any (hi : S.init s) (is : List ι) (p : σ → List ο → Bool)
    (hr : (S.run always s is).any (fun r => p r.1 r.2) = true) :
    ∃ t h, Reach S Run.any h t ∧ p t h = true :=
  Reach.of_run (fun _ _ _ => trivial) hi is p hr

/-! ## Abstract machines and their traces -/

section Sim

variable {φ μ : Type*}

/-- The traces of an abstract machine: each move reads a word of marks. -/
inductive Trace (Move : φ → List μ → φ → Prop) (p : φ) : List μ → φ → Prop
  | refl : Trace Move p [] p
  | snoc {w v q r} : Trace Move p w q → Move q v r → Trace Move p (w ++ v) r

variable {Move : φ → List μ → φ → Prop} {p q r : φ} {w v : List μ}

theorem Trace.single (h : Move p v q) : Trace Move p v q := by
  have h₀ : Trace Move p [] p := .refl
  simpa using h₀.snoc h

theorem Trace.trans (h₁ : Trace Move p w q) (h₂ : Trace Move q v r) : Trace Move p (w ++ v) r := by
  induction h₂ with
  | refl => simpa using h₁
  | snoc _ hm ih => rw [← List.append_assoc]; exact ih.snoc hm

/-- **Invariant rule for traces.** A predicate of the word read so far and the state it leads to. -/
theorem Trace.invariant {P : List μ → φ → Prop} (h0 : P [] p)
    (hstep : ∀ w q v r, P w q → Move q v r → P (w ++ v) r) (h : Trace Move p w q) : P w q := by
  induction h with
  | refl => exact h0
  | snoc _ hm ih => exact hstep _ _ _ _ ih hm

/-- **Refinement.** When an abstraction `abs` of the states and an observation `obs` of the
outputs turn every allowed step into one abstract move, the observed outputs of a run
are a trace of the abstract machine. -/
theorem Exec.trace (P : σ → Prop) (abs : σ → φ) (obs : List ο → List μ)
    (hnil : obs [] = []) (happ : ∀ a b, obs (a ++ b) = obs a ++ obs b)
    (hinv : ∀ s i t o, P s → ok s i → S.step s i = some (t, o) → P t)
    (hmove : ∀ s i t o, P s → ok s i → S.step s i = some (t, o) → Move (abs s) (obs o) (abs t))
    (hr : Exec S ok s h t) (h0 : P s) : Trace Move (abs s) (obs h) (abs t) := by
  induction hr with
  | refl => rw [hnil]; exact .refl
  | snoc hx hok hs ih =>
    rw [happ]
    exact ih.snoc (hmove _ _ _ _ (hx.invariant hinv h0) hok hs)

/-- The moves of an abstract machine that takes inputs and answers with outputs. -/
def Answers (A : φ → ι → List ο → φ → Prop) (p : φ) (l : List (ι × List ο)) (q : φ) : Prop :=
  ∃ i o, l = [(i, o)] ∧ A p i o q

/-- **Forward simulation.** When every allowed step from a state that stands for an abstract one is
answered by an abstract move with the same input and outputs, the log of a run is a trace of the
abstract machine, and its last state stands for the one that the trace leads to. -/
theorem Exec.simulates {A : φ → ι → List ο → φ → Prop} {R : σ → φ → Prop}
    {log : List (ι × List ο)}
    (hstep : ∀ s i t o p, R s p → ok s i → S.step s i = some (t, o) → ∃ q, A p i o q ∧ R t q)
    (hr : Exec S.logged ok s log t) (h0 : R s p) : ∃ q, Trace (Answers A) p log q ∧ R t q := by
  induction hr with
  | refl => exact ⟨p, .refl, h0⟩
  | @snoc _ _ _ _ i _ hok hs ih =>
    obtain ⟨q, htrace, hq⟩ := ih
    obtain ⟨o, ho, rfl⟩ := Sys.logged_step.1 hs
    obtain ⟨r, hmove, hr⟩ := hstep _ _ _ _ _ hq hok ho
    exact ⟨r, htrace.snoc ⟨i, o, rfl, hmove⟩, hr⟩

end Sim

end Run
