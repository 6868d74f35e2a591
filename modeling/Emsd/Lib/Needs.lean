import Emsd.Lib.Fallible

/-!
# What a computation needs

Some of the errors with which a computation may stop are harmful, whatever becomes of the calls that it
makes; others are only failures of these calls. A computation needs what exactly keeps it from the
harmful ones.

* `Needs.bind`: what a computation needs that is put together from two.
* `Needs.collect`: a loop that fills slots needs room, and what its body needs for each element.
* `Needs.safe_iff`: **no run stops harmfully if and only if** there is what the computation needs.
-/

namespace Fallible

variable {σ ε α β : Type} {harmful : ε → Prop} {good : σ → Prop}

/-- **Exactly under `P` no run stops harmfully**, and then one comes to its end in a good state, in which
no call fails; what is given satisfies `R`. -/
structure Needs (harmful : ε → Prop) (good : σ → Prop) (x : Comp σ ε α) (P : Prop) (R : α → Prop) :
    Prop where
  post : ∀ s a s', Gives x s a s' → R a
  safe : P → ∀ s e, x s = .error e → ¬harmful e
  ends : P → ∀ s, good s → ∃ a s', Gives x s a s' ∧ good s'
  harm : ¬P → ∀ s, good s → ∃ e, x s = .error e ∧ harmful e

variable {x y : Comp σ ε α} {f : α → Comp σ ε β} {P Q : Prop} {R : α → Prop} {T : β → Prop}
  {a : α} {e : ε}

theorem bind_error {s : σ} (h : (x >>= f) s = .error e) :
    x s = .error e ∨ ∃ a s', Gives x s a s' ∧ f a s' = .error e := by
  unfold Gives
  simp only [bind, StateT.bind, Except.bind] at h
  cases hx : x s with
  | error e' =>
    rw [hx] at h
    obtain rfl := Except.error.inj h
    exact Or.inl rfl
  | ok r =>
    rw [hx] at h
    exact Or.inr ⟨r.1, r.2, rfl, h⟩

theorem error_bind {s : σ} (h : x s = .error e) : (x >>= f) s = .error e := by
  simp only [bind, StateT.bind, Except.bind, h]

theorem bind_eq_of_gives {s s' : σ} (h : Gives x s a s') : (x >>= f) s = f a s' := by
  have hx : x s = .ok (a, s') := h
  simp only [bind, StateT.bind, Except.bind, hx]

namespace Needs

theorem pure (ha : R a) : Needs harmful good (pure a) True R where
  post := by
    intro s b s' hb
    rwa [← (gives_pure.1 hb).1]
  safe := by
    intro _ s e he
    cases he
  ends := fun _ s hs => ⟨a, s, gives_pure.2 ⟨rfl, rfl⟩, hs⟩
  harm := fun h => absurd trivial h

theorem stop (he : harmful e) : Needs harmful good (stop e : Comp σ ε α) False R where
  post := fun _ _ _ hb => absurd hb not_gives_stop
  safe := fun h => h.elim
  ends := fun h => h.elim
  harm := fun _ _ _ => ⟨e, rfl, he⟩

theorem congr (h : Needs harmful good x P R) (hPQ : P ↔ Q) : Needs harmful good x Q R :=
  propext hPQ ▸ h

theorem weaken {S : α → Prop} (h : Needs harmful good x P R) (hRS : ∀ a, R a → S a) :
    Needs harmful good x P S :=
  ⟨fun s a s' ha => hRS a (h.post s a s' ha), h.safe, h.ends, h.harm⟩

/-- **Two computations, one after the other**, need what each of them needs. -/
theorem bind (hx : Needs harmful good x P R) (hf : ∀ a, R a → Needs harmful good (f a) Q T) :
    Needs harmful good (x >>= f) (P ∧ Q) T where
  post := by
    intro s b s' h
    obtain ⟨a, s₁, ha, hb⟩ := gives_bind.1 h
    exact (hf a (hx.post s a s₁ ha)).post s₁ b s' hb
  safe := by
    rintro ⟨hP, hQ⟩ s e h
    rcases bind_error h with h | ⟨a, s₁, ha, h⟩
    · exact hx.safe hP s e h
    · exact (hf a (hx.post s a s₁ ha)).safe hQ s₁ e h
  ends := by
    rintro ⟨hP, hQ⟩ s hs
    obtain ⟨a, s₁, ha, hs₁⟩ := hx.ends hP s hs
    obtain ⟨b, s₂, hb, hs₂⟩ := (hf a (hx.post s a s₁ ha)).ends hQ s₁ hs₁
    exact ⟨b, s₂, gives_bind.2 ⟨a, s₁, ha, hb⟩, hs₂⟩
  harm := by
    intro h s hs
    by_cases hP : P
    · -- the first comes to its end
      obtain ⟨a, s₁, ha, hs₁⟩ := hx.ends hP s hs
      obtain ⟨e, he, hharm⟩ := (hf a (hx.post s a s₁ ha)).harm (fun hQ => h ⟨hP, hQ⟩) s₁ hs₁
      exact ⟨e, (bind_eq_of_gives ha).trans he, hharm⟩
    · obtain ⟨e, he, hharm⟩ := hx.harm hP s hs
      exact ⟨e, error_bind he, hharm⟩

/-- A computation that is followed by one that needs nothing. -/
theorem bind_pure {g : α → β} (hx : Needs harmful good x P R) (hg : ∀ a, R a → T (g a)) :
    Needs harmful good (x >>= fun a => Pure.pure (g a)) P T :=
  (hx.bind fun a ha => pure (hg a ha)).congr (and_iff_left trivial)

theorem ite {c : Prop} [Decidable c] (hx : c → Needs harmful good x P R)
    (hy : ¬c → Needs harmful good y Q R) :
    Needs harmful good (if c then x else y) ((c → P) ∧ (¬c → Q)) R := by
  by_cases hc : c
  · rw [if_pos hc]
    exact (hx hc).congr ⟨fun h => ⟨fun _ => h, fun h => absurd hc h⟩, fun h => h.1 hc⟩
  · rw [if_neg hc]
    exact (hy hc).congr ⟨fun h => ⟨fun h => absurd h hc, fun _ => h⟩, fun h => h.2 hc⟩

/-- **A loop that fills slots** needs a slot for each element, and what its body needs. -/
theorem collect {full : ε} {n : ℕ} {l : List α} {t : Slots β n} {need : α → Prop}
    (hfull : harmful full) (hf : ∀ a ∈ l, Needs harmful good (f a) (need a) T) :
    Needs harmful good (collect f full l t) (t.1.length + l.length ≤ n ∧ ∀ a ∈ l, need a)
      (fun t' => t'.1.length = t.1.length + l.length) := by
  induction l generalizing t with
  | nil =>
    unfold Fallible.collect
    have h : Needs harmful good (Pure.pure t : Comp σ ε (Slots β n)) True
      (fun t' => t'.1.length = t.1.length) := pure rfl
    have ht := t.2
    refine h.congr ?_
    simp [ht]
  | cons a l ih =>
    unfold Fallible.collect
    split
    · rename_i hroom
      have hrest : ∀ b, T b → Needs harmful good (Fallible.collect f full l (t.push b hroom))
          (t.1.length + (l.length + 1) ≤ n ∧ ∀ a' ∈ l, need a')
          (fun t' => t'.1.length = t.1.length + (l.length + 1)) := by
        intro b _
        have hlen : (t.push b hroom).1.length = t.1.length + 1 := List.length_append
        have h := ih (t := t.push b hroom) fun a' ha' => hf a' (List.mem_cons_of_mem a ha')
        rw [hlen] at h
        refine (h.congr (and_congr_left' (by omega))).weaken fun t' ht' => ?_
        omega
      refine ((hf a List.mem_cons_self).bind hrest).congr ?_
      rw [List.forall_mem_cons, List.length_cons]
      exact and_left_comm
    · rename_i hroom
      refine (stop hfull).congr (iff_of_false id ?_)
      rintro ⟨hle, -⟩
      rw [List.length_cons] at hle
      omega

/-- **No run stops harmfully if and only if** there is what the computation needs. -/
theorem safe_iff (h : Needs harmful good x P R) (hgood : ∃ s, good s) :
    (∀ s e, x s = .error e → ¬harmful e) ↔ P := by
  constructor
  · intro hsafe
    by_contra hP
    obtain ⟨s, hs⟩ := hgood
    obtain ⟨e, he, hharm⟩ := h.harm hP s hs
    exact hsafe s e he hharm
  · exact h.safe

end Needs

end Fallible
