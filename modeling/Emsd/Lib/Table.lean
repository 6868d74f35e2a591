import Mathlib.Data.List.Basic
import Mathlib.Logic.Function.Basic
import Mathlib.Tactic.Common

/-!
# Tables that are read from the top

A row is written for one event or for every event, and it may have a guard. A reader sees numbers
only: those of the events, and one for "every event". It takes the first row that matches and whose
guard holds; a guard may change the state also when it does not hold.

* `select_written`: **what is taken is written for the event** when no row that can be reached has
  the number of "every event" by accident.
* `select_before`, `select_written_iff`: a row that matches and always holds hides the rows after it.
* `select_total`: a default row is taken when no other one is.
-/

namespace Table

variable {ε ν γ τ μ : Type*}

/-- The numbers of the events, and the one that stands for every event. -/
structure Numbering (ε ν : Type*) where
  code : ε → ν
  wild : ν
  inj : Function.Injective code

/-- A row. It is for every event when it has no entry. -/
structure Row (ε γ τ : Type*) where
  entry : Option ε
  guard : Option γ
  target : τ

namespace Row

/-- The number in a row. -/
def number (N : Numbering ε ν) (r : Row ε γ τ) : ν := r.entry.elim N.wild N.code

/-- The number in a row is that of every event or that of the event. -/
def Matches (N : Numbering ε ν) (e : ε) (r : Row ε γ τ) : Prop :=
  r.number N = N.wild ∨ r.number N = N.code e

instance [DecidableEq ν] (N : Numbering ε ν) (e : ε) (r : Row ε γ τ) : Decidable (r.Matches N e) :=
  inferInstanceAs (Decidable (_ ∨ _))

@[simp]
theorem matches_every (N : Numbering ε ν) (e : ε) (guard : Option γ) (target : τ) :
    Matches N e ⟨none, guard, target⟩ := .inl rfl

@[simp]
theorem matches_event (N : Numbering ε ν) (e x : ε) (guard : Option γ) (target : τ) :
    Matches N e ⟨some x, guard, target⟩ ↔ N.code x = N.wild ∨ N.code x = N.code e := Iff.rfl

/-- A row is written for the event, or for every event. -/
def Written (e : ε) (r : Row ε γ τ) : Prop := r.entry = none ∨ r.entry = some e

instance [DecidableEq ε] (e : ε) (r : Row ε γ τ) : Decidable (r.Written e) :=
  inferInstanceAs (Decidable (_ ∨ _))

/-- The guard of a row is true in every state. -/
def Holds (holds : γ → μ → Bool × μ) (r : Row ε γ τ) : Prop :=
  ∀ g ∈ r.guard, ∀ m, (holds g m).1 = true

end Row

/-- A row that matches is written for the event, unless its own event is mistaken for every one. -/
theorem Row.Matches.written {N : Numbering ε ν} {e : ε} {r : Row ε γ τ} (hm : r.Matches N e)
    (hr : ∀ x ∈ r.entry, N.code x ≠ N.wild) : r.Written e := by
  unfold Row.Matches Row.number at hm
  unfold Row.Written
  cases hentry : r.entry with
  | none => exact .inl rfl
  | some x =>
    rw [hentry] at hm
    right
    rw [N.inj (hm.resolve_left (hr x hentry))]

/-- The row that is taken, and the state that the guards leave. -/
def select [DecidableEq ν] (N : Numbering ε ν) (holds : γ → μ → Bool × μ) (e : ε) :
    List (Row ε γ τ) → μ → Option (Row ε γ τ) × μ
  | [], m => (none, m)
  | r :: rows, m =>
    if r.Matches N e then
      match r.guard with
      | none => (some r, m)
      | some g =>
        let p := holds g m
        if p.1 then (some r, p.2) else select N holds e rows p.2
    else select N holds e rows m

variable [DecidableEq ν] {N : Numbering ε ν} {holds : γ → μ → Bool × μ} {e : ε}
  {rows before after : List (Row ε γ τ)} {r c : Row ε γ τ} {m : μ}

/-- What is taken is in the table and matches. -/
theorem select_mem (hr : (select N holds e rows m).1 = some r) : r ∈ rows ∧ r.Matches N e := by
  induction rows generalizing m with
  | nil => cases hr
  | cons r' rows ih =>
    unfold select at hr
    have htail : ∀ {m}, (select N holds e rows m).1 = some r → r ∈ r' :: rows ∧ r.Matches N e := by
      intro m hr
      obtain ⟨hmem, hmatch⟩ := ih hr
      exact ⟨List.mem_cons_of_mem _ hmem, hmatch⟩
    split at hr
    · rename_i hmatch
      have hhead : some r' = some r → r ∈ r' :: rows ∧ r.Matches N e := by
        intro he
        obtain rfl := Option.some.inj he
        exact ⟨List.mem_cons_self, hmatch⟩
      split at hr
      · exact hhead hr
      · dsimp only at hr
        split at hr
        · exact hhead hr
        · exact htail hr
    · exact htail hr

/-- **What is taken is written for the event**, or for every event. -/
theorem select_written (hrows : ∀ r ∈ rows, ∀ x ∈ r.entry, N.code x ≠ N.wild)
    (hr : (select N holds e rows m).1 = some r) : r.Written e := by
  obtain ⟨hmem, hmatch⟩ := select_mem hr
  exact hmatch.written (hrows r hmem)

/-- A row that matches and always holds hides the rows after it. -/
theorem select_before (before after : List (Row ε γ τ)) (hm : c.Matches N e) (hc : c.Holds holds)
    (m : μ) : ∃ r ∈ before ++ [c], r.Matches N e ∧
      (select N holds e (before ++ c :: after) m).1 = some r := by
  induction before generalizing m with
  | nil =>
    refine ⟨c, List.mem_singleton_self c, hm, ?_⟩
    rw [List.nil_append, select, if_pos hm]
    split
    · rfl
    · rename_i g hg
      dsimp only
      rw [if_pos (hc g hg m)]
  | cons r before ih =>
    have htail : ∀ m, ∃ r' ∈ r :: before ++ [c], r'.Matches N e ∧
        (select N holds e (before ++ c :: after) m).1 = some r' := by
      intro m
      obtain ⟨r', hmem, hmatch, hs⟩ := ih m
      exact ⟨r', List.mem_cons_of_mem _ hmem, hmatch, hs⟩
    rw [List.cons_append, List.cons_append]
    unfold select
    split
    · rename_i hmatch
      have hhead : ∃ r' ∈ r :: before ++ [c], r'.Matches N e ∧ some r = some r' :=
        ⟨r, List.mem_cons_self, hmatch, rfl⟩
      split
      · exact hhead
      · dsimp only
        split
        · exact hhead
        · exact htail _
    · exact htail m

/-- **What is taken in a table up to a row that matches and always holds** decides whether it is
written for the event. -/
theorem select_written_iff {p : Prop} (before : List (Row ε γ τ)) (hm : c.Matches N e)
    (hc : c.Holds holds) (hp : ∀ r ∈ before ++ [c], r.Matches N e → (r.Written e ↔ p)) :
    (∃ r, (select N holds e (before ++ c :: after) m).1 = some r ∧ r.Written e) ↔ p := by
  obtain ⟨r, hr, hmatch, hs⟩ := select_before before after hm hc m
  have hiff := hp r hr hmatch
  constructor
  · rintro ⟨r', hs', hwritten⟩
    obtain rfl : r = r' := Option.some.inj (hs.symm.trans hs')
    exact hiff.1 hwritten
  · intro h
    exact ⟨r, hs, hiff.2 h⟩

/-- A table with a row for every event that has no guard always has one to take. -/
theorem select_total (hc : ∃ c ∈ rows, c.entry = none ∧ c.guard = none) (m : μ) :
    ∃ r, (select N holds e rows m).1 = some r := by
  obtain ⟨c, hc, hentry, hguard⟩ := hc
  have hmatch : c.Matches N e := by
    left
    unfold Row.number
    rw [hentry]
    rfl
  have hholds : c.Holds holds := by
    intro g hg
    rw [hguard] at hg
    cases hg
  obtain ⟨before, after, rfl⟩ := List.append_of_mem hc
  obtain ⟨r, -, -, hr⟩ := select_before before after hmatch hholds m
  exact ⟨r, hr⟩

end Table
