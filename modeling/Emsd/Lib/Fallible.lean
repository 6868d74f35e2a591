import Mathlib.Control.Lawful
import Mathlib.Data.List.Forall2

/-!
# Computations that may stop

A computation on a state either gives a value or stops with an error. What it takes for one that is
put together from others to give a value:

* `gives_bind`, `gives_pure`: the parts of a computation that gives a value.
* `gives_mapM`, `gives_collect`: a loop gives, element by element, what its body gives.
* `exists_gives_mapM`: a loop gives something when its body always does.
-/

namespace Fallible

variable {σ ε α β γ : Type}

/-- A computation on a state of type `σ` that may stop with an error of type `ε`. -/
abbrev Comp (σ ε α : Type) := StateT σ (Except ε) α

/-- The computation stops. -/
def stop (e : ε) : Comp σ ε α := fun _ => .error e

/-- What stops with an error that `f` knows stops with what `f` makes of it. -/
def Comp.mapError (f : ε → ε) (x : Comp σ ε α) : Comp σ ε α := fun s => (x s).mapError f

/-- Started in `s` the computation gives `a` and leaves `s'`. -/
def Gives (x : Comp σ ε α) (s : σ) (a : α) (s' : σ) : Prop := x s = .ok (a, s')

variable {x : Comp σ ε α} {f : α → Comp σ ε β} {s s' s₁ : σ} {a a' : α} {b : β} {e : ε}

@[simp] theorem gives_pure : Gives (pure a : Comp σ ε α) s a' s' ↔ a = a' ∧ s = s' := by
  have hpure : (pure a : Comp σ ε α) s = .ok (a, s) := rfl
  unfold Gives
  rw [hpure]
  simp

@[simp] theorem not_gives_stop : ¬ Gives (stop e : Comp σ ε α) s a s' := by
  simp [Gives, stop]

/-- **The parts of a computation that gives a value.** -/
theorem gives_bind :
    Gives (x >>= f) s b s' ↔ ∃ a s₁, Gives x s a s₁ ∧ Gives (f a) s₁ b s' := by
  unfold Gives
  simp only [bind, StateT.bind, Except.bind]
  cases hx : x s with
  | error e => simp
  | ok r =>
    obtain ⟨a, s₁⟩ := r
    simp only [Except.ok.injEq, Prod.mk.injEq]
    constructor
    · exact fun h => ⟨a, s₁, ⟨rfl, rfl⟩, h⟩
    · rintro ⟨_, _, ⟨rfl, rfl⟩, h⟩
      exact h

@[simp] theorem gives_mapError {g : ε → ε} : Gives (x.mapError g) s a s' ↔ Gives x s a s' := by
  unfold Gives Comp.mapError
  cases x s <;> simp [Except.mapError]

/-- **A loop gives, element by element, what its body gives** in a state that satisfies `P`, if the body
keeps `P`. -/
theorem gives_mapM {P : σ → Prop} {l : List α} {bs : List β}
    (hP : ∀ a ∈ l, ∀ s b s', P s → Gives (f a) s b s' → P s') (hs : P s)
    (h : Gives (l.mapM f) s bs s') :
    List.Forall₂ (fun a b => ∃ s s', P s ∧ Gives (f a) s b s') l bs := by
  induction l generalizing s bs with
  | nil =>
    obtain ⟨rfl, -⟩ := gives_pure.1 h
    exact .nil
  | cons a l ih =>
    rw [List.mapM_cons, gives_bind] at h
    obtain ⟨b, s₁, hb, h⟩ := h
    obtain ⟨bs', s₂, hbs, h⟩ := gives_bind.1 h
    obtain ⟨rfl, rfl⟩ := gives_pure.1 h
    have hs₁ := hP a List.mem_cons_self s b s₁ hs hb
    exact .cons ⟨s, s₁, hs, hb⟩ (ih (fun a' ha' => hP a' (List.mem_cons_of_mem a ha')) hs₁ hbs)

/-- **A loop gives something** when its body does in every state that satisfies `P`, and leaves one. -/
theorem exists_gives_mapM {P : σ → Prop} {l : List α}
    (hf : ∀ a ∈ l, ∀ s, P s → ∃ b s', Gives (f a) s b s' ∧ P s') (hs : P s) :
    ∃ bs s', Gives (l.mapM f) s bs s' ∧ P s' := by
  induction l generalizing s with
  | nil => exact ⟨[], s, gives_pure.2 ⟨rfl, rfl⟩, hs⟩
  | cons a l ih =>
    obtain ⟨b, s₁, hb, hs₁⟩ := hf a List.mem_cons_self s hs
    obtain ⟨bs, s₂, hbs, hs₂⟩ := ih (fun a' ha' => hf a' (List.mem_cons_of_mem a ha')) hs₁
    refine ⟨b :: bs, s₂, ?_, hs₂⟩
    rw [List.mapM_cons, gives_bind]
    refine ⟨b, s₁, hb, gives_bind.2 ⟨bs, s₂, hbs, gives_pure.2 ⟨rfl, rfl⟩⟩⟩

/-! ## Arrays of a fixed size -/

/-- The elements in use of an array with room for `n`. -/
def Slots (α : Type) (n : ℕ) := { l : List α // l.length ≤ n }

namespace Slots

variable {n : ℕ}

def empty : Slots α n := ⟨[], n.zero_le⟩

def push (t : Slots α n) (a : α) (h : t.1.length < n) : Slots α n :=
  ⟨t.1 ++ [a], by rw [List.length_append]; exact h⟩

end Slots

/-- Adds to the slots what `f` gives for each element, and stops with `full` where there is no room. -/
def collect (f : α → Comp σ ε β) (full : ε) {n : ℕ} : List α → Slots β n → Comp σ ε (Slots β n)
  | [], t => pure t
  | a :: l, t =>
    if h : t.1.length < n then do collect f full l (t.push (← f a) h) else stop full

/-- **The slots have, element by element, what the body gives**, where that is a function `g`. -/
theorem gives_collect {full : ε} {n : ℕ} {l : List α} {t t' : Slots β n} {g : α → β}
    (hg : ∀ a s b s', Gives (f a) s b s' → b = g a) (h : Gives (collect f full l t) s t' s') :
    t'.1 = t.1 ++ l.map g := by
  induction l generalizing s t with
  | nil =>
    obtain ⟨rfl, -⟩ := gives_pure.1 h
    exact (List.append_nil _).symm
  | cons a l ih =>
    unfold collect at h
    split at h
    · obtain ⟨b, s₁, hb, h⟩ := gives_bind.1 h
      obtain rfl := hg a s b s₁ hb
      rw [ih h]
      simp [Slots.push]
    · exact absurd h not_gives_stop

end Fallible
