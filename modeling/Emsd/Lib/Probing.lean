import Mathlib.Data.Finset.Card
import Mathlib.Data.Nat.Find
import Mathlib.Data.Nat.ModEq
import Mathlib.Logic.Function.Basic
import Mathlib.Tactic.Common

/-!
# Hash tables with linear probing

The entries `0, 1, ..` are put one after the other into the first free of `m` slots from their home
slot on, and nothing is ever taken out.

* `Filled.firstFree`: while there is a free slot, an entry finds one no further away than its number.
* `Filled.search`: a search from the home slot finds the first entry that is wanted, if that is less
  than the bound of the search away.
* `Filled.packed_iff`: the entries below `c` are in the slots below `c` if and only if for every
  `j ≤ c` at least `j` of them have a home slot below `j`.
-/

namespace Probing

variable {m n c h d e i : ℕ} {home : ℕ → ℕ} {slots : ℕ → Option ℕ} {p : ℕ → Bool}

/-! ## The two loops -/

/-- The first free slot from `h` on, with a bound on the number of probes. -/
def firstFree (m : ℕ) (slots : ℕ → Option ℕ) : ℕ → ℕ → Option ℕ
  | 0, _ => none
  | k + 1, h => if slots h = none then some h else firstFree m slots k ((h + 1) % m)

/-- The first entry from the slot `h` on that is wanted, before a free slot, with a bound on the number
of probes. -/
def search (m : ℕ) (slots : ℕ → Option ℕ) (p : ℕ → Bool) : ℕ → ℕ → Option ℕ
  | 0, _ => none
  | k + 1, h =>
    match slots h with
    | none => none
    | some i => if p i then some i else search m slots p k ((h + 1) % m)

theorem probe_zero (hh : h < m) : (h + 0) % m = h := Nat.mod_eq_of_lt hh

theorem probe_succ (m h d : ℕ) : ((h + 1) % m + d) % m = (h + (d + 1)) % m := by
  rw [Nat.mod_add_mod]
  congr 1
  omega

theorem probe_inj (hd : d < m) (he : e < m) (heq : (h + d) % m = (h + e) % m) : d = e := by
  have hmod : d ≡ e [MOD m] := Nat.ModEq.add_left_cancel' h heq
  exact hmod.eq_of_lt_of_lt hd he

theorem firstFree_eq (hh : h < m) (hfree : slots ((h + d) % m) = none)
    (hbefore : ∀ e < d, slots ((h + e) % m) ≠ none) (k : ℕ) (hk : d < k) :
    firstFree m slots k h = some ((h + d) % m) := by
  induction d generalizing h k with
  | zero =>
    obtain ⟨k, rfl⟩ : ∃ k', k = k' + 1 := ⟨k - 1, by omega⟩
    rw [probe_zero hh] at hfree ⊢
    exact if_pos hfree
  | succ d ih =>
    obtain ⟨k, rfl⟩ : ∃ k', k = k' + 1 := ⟨k - 1, by omega⟩
    have hocc := hbefore 0 (by omega)
    rw [probe_zero hh] at hocc
    have hm : (h + 1) % m < m := Nat.mod_lt _ (by omega)
    unfold firstFree
    rw [if_neg hocc, ih hm (by rw [probe_succ]; exact hfree)
      (fun e he => by rw [probe_succ]; exact hbefore (e + 1) (by omega)) k (by omega), probe_succ]

/-- What a search gives is in the table, and wanted. -/
theorem search_some {k : ℕ} (hs : search m slots p k h = some i) :
    p i = true ∧ ∃ j, slots j = some i := by
  induction k generalizing h with
  | zero => cases hs
  | succ k ih =>
    unfold search at hs
    split at hs
    · cases hs
    · rename_i i' hi
      split at hs
      · rename_i hp
        obtain rfl := Option.some.inj hs
        exact ⟨hp, h, hi⟩
      · exact ih hs

/-- A search that meets nothing but unwanted entries on its first `d` probes, and then a wanted one. -/
theorem search_eq (hh : h < m) (hat : slots ((h + d) % m) = some i) (hp : p i = true)
    (hbefore : ∀ e < d, ∃ k, slots ((h + e) % m) = some k ∧ p k = false) (k : ℕ) :
    search m slots p k h = if d < k then some i else none := by
  induction k generalizing h d with
  | zero => rfl
  | succ k ih =>
    cases d with
    | zero =>
      rw [probe_zero hh] at hat
      unfold search
      rw [hat, if_pos (Nat.succ_pos k)]
      exact if_pos hp
    | succ d =>
      obtain ⟨i', hi', hp'⟩ := hbefore 0 (Nat.succ_pos d)
      rw [probe_zero hh] at hi'
      have hm : (h + 1) % m < m := Nat.mod_lt _ (by omega)
      have hrest := ih hm (by rw [probe_succ]; exact hat)
        fun e he => by rw [probe_succ]; exact hbefore (e + 1) (by omega)
      unfold search
      rw [hi']
      dsimp only
      rw [if_neg (by rw [hp']; decide), hrest]
      exact if_congr (by omega) rfl rfl

/-! ## Tables -/

/-- The entries below `n` are in the table, each in one slot, behind entries with smaller numbers. -/
structure Filled (m : ℕ) (home : ℕ → ℕ) (slots : ℕ → Option ℕ) (n : ℕ) : Prop where
  lt : ∀ j i, slots j = some i → j < m ∧ i < n
  once : ∀ j j' i, slots j = some i → slots j' = some i → j = j'
  place : ∀ i < n, ∃ d < m, slots ((home i + d) % m) = some i ∧
    ∀ e < d, ∃ k < i, slots ((home i + e) % m) = some k

theorem filled_empty (m : ℕ) (home : ℕ → ℕ) : Filled m home (fun _ => none) 0 where
  lt _ _ h := by cases h
  once _ _ _ h := by cases h
  place _ h := by omega

/-- As many probes as meet entries below `c` in turn are at most `c`. -/
theorem Filled.le_of_probes (hf : Filled m home slots n) (hd : d ≤ m)
    (hocc : ∀ e < d, ∃ k < c, slots ((h + e) % m) = some k) : d ≤ c := by
  choose! k hk using hocc
  have hmaps : Set.MapsTo k (Finset.range d) (Finset.range c) := by
    intro e he
    rw [Finset.mem_coe, Finset.mem_range] at he ⊢
    exact (hk e he).1
  have hinj : Set.InjOn k (Finset.range d) := by
    intro e he e' he' heq
    rw [Finset.mem_coe, Finset.mem_range] at he he'
    have hsame : slots ((h + e') % m) = some (k e) := by
      rw [heq]
      exact (hk e' he').2
    exact probe_inj (by omega) (by omega) (hf.once _ _ _ (hk e he).2 hsame)
  have := Finset.card_le_card_of_injOn k hmaps hinj
  rwa [Finset.card_range, Finset.card_range] at this

/-- An entry is no further from its home slot than its number. -/
theorem Filled.place_le (hf : Filled m home slots n) (hi : i < n) :
    ∃ d ≤ i, d < m ∧ slots ((home i + d) % m) = some i ∧
      ∀ e < d, ∃ k < i, slots ((home i + e) % m) = some k := by
  obtain ⟨d, hd, hat, hbefore⟩ := hf.place i hi
  exact ⟨d, hf.le_of_probes (by omega) hbefore, hd, hat, hbefore⟩

/-- **There is a free slot**, no further away than the number of entries. -/
theorem Filled.exists_free (hf : Filled m home slots n) (hn : n < m) (h : ℕ) :
    ∃ d ≤ n, slots ((h + d) % m) = none ∧ ∀ e < d, slots ((h + e) % m) ≠ none := by
  have hex : ∃ d, slots ((h + d) % m) = none := by
    by_contra hall
    have hle : n + 1 ≤ n := by
      refine hf.le_of_probes (h := h) hn fun e _ => ?_
      obtain ⟨k, hk⟩ := Option.ne_none_iff_exists'.1 fun he => hall ⟨e, he⟩
      exact ⟨k, (hf.lt _ _ hk).2, hk⟩
    omega
  classical
  refine ⟨Nat.find hex, ?_, Nat.find_spec hex, fun e he => Nat.find_min hex he⟩
  -- the slots before the first free one hold different entries
  by_contra hgt
  have hle : n + 1 ≤ n := by
    refine hf.le_of_probes (h := h) hn fun e he => ?_
    obtain ⟨k, hk⟩ := Option.ne_none_iff_exists'.1 (Nat.find_min hex (show e < Nat.find hex by omega))
    exact ⟨k, (hf.lt _ _ hk).2, hk⟩
  omega

/-- **One more entry.** -/
theorem Filled.firstFree (hf : Filled m home slots n) (hn : n < m) (hhome : home n < m) (k : ℕ)
    (hk : n < k) :
    ∃ h, firstFree m slots k (home n) = some h ∧
      Filled m home (Function.update slots h (some n)) (n + 1) := by
  obtain ⟨d, hd, hfree, hbefore⟩ := hf.exists_free hn (home n)
  refine ⟨_, firstFree_eq hhome hfree hbefore k (by omega), ?_⟩
  have hm : (home n + d) % m < m := Nat.mod_lt _ (by omega)
  -- a slot that was in use is not the new one
  have hold : ∀ j i, slots j = some i →
      Function.update slots ((home n + d) % m) (some n) j = some i := by
    intro j i hj
    rw [Function.update_of_ne (by rintro rfl; rw [hfree] at hj; cases hj), hj]
  have hcases : ∀ j i, Function.update slots ((home n + d) % m) (some n) j = some i →
      (j = (home n + d) % m ∧ i = n) ∨ slots j = some i := by
    intro j i hj
    by_cases hne : j = (home n + d) % m
    · subst hne
      rw [Function.update_self] at hj
      exact .inl ⟨rfl, (Option.some.inj hj).symm⟩
    · rw [Function.update_of_ne hne] at hj
      exact .inr hj
  refine ⟨fun j i hj => ?_, fun j j' i hj hj' => ?_, fun i hi => ?_⟩
  · rcases hcases j i hj with ⟨rfl, rfl⟩ | hj
    · exact ⟨hm, Nat.lt_succ_self i⟩
    · have := hf.lt j i hj
      omega
  · rcases hcases j i hj with ⟨rfl, rfl⟩ | hj <;> rcases hcases j' _ hj' with ⟨rfl, hi⟩ | hj'
    · rfl
    · exact absurd (hf.lt _ _ hj').2 (by omega)
    · exact absurd (hf.lt _ _ hj).2 (by omega)
    · exact hf.once j j' i hj hj'
  · rcases Nat.lt_succ_iff_lt_or_eq.1 hi with hi | rfl
    · obtain ⟨d', hd', hat, hbefore'⟩ := hf.place i hi
      refine ⟨d', hd', hold _ _ hat, fun e he => ?_⟩
      obtain ⟨k, hk, hslot⟩ := hbefore' e he
      exact ⟨k, hk, hold _ _ hslot⟩
    · refine ⟨d, by omega, Function.update_self .., fun e he => ?_⟩
      obtain ⟨k, hk⟩ := Option.ne_none_iff_exists'.1 (hbefore e he)
      exact ⟨k, (hf.lt _ _ hk).2, hold _ _ hk⟩

/-- **A search** for entries with one home slot finds the first of them, if that is less than `k`
away. -/
theorem Filled.search (hf : Filled m home slots n) (hhome : ∀ i < n, p i = true → home i = h)
    (hh : h < m) (hi : i < n) (hp : p i = true) (hfirst : ∀ k < i, p k = false) :
    ∃ d ≤ i, slots ((h + d) % m) = some i ∧ (∀ e < d, ∃ k < i, slots ((h + e) % m) = some k) ∧
      ∀ k, search m slots p k h = if d < k then some i else none := by
  obtain ⟨d, hle, -, hat, hbefore⟩ := hf.place_le hi
  rw [hhome i hi hp] at hat hbefore
  refine ⟨d, hle, hat, hbefore, search_eq hh hat hp fun e he => ?_⟩
  obtain ⟨k, hk, hslot⟩ := hbefore e he
  exact ⟨k, hslot, hfirst k hk⟩

theorem Filled.search_none (hf : Filled m home slots n) (hnot : ∀ i < n, p i = false) (k : ℕ) :
    Probing.search m slots p k h = none := by
  cases hs : Probing.search m slots p k h with
  | none => rfl
  | some i =>
    obtain ⟨hp, j, hj⟩ := search_some hs
    rw [hnot i (hf.lt j i hj).2] at hp
    cases hp

/-! ## Packed tables -/

/-- For every `j ≤ c` at least `j` of the entries below `c` have a home slot below `j`. -/
def Packed (home : ℕ → ℕ) (c : ℕ) : Prop :=
  ∀ j ≤ c, j ≤ ((Finset.range c).filter fun i => home i < j).card

instance (home : ℕ → ℕ) (c : ℕ) : Decidable (Packed home c) :=
  inferInstanceAs (Decidable (∀ j ≤ c, _))

/-- An entry below `c` whose way from home does not meet a slot below `m` without an entry below `c`
is not beyond that slot. -/
theorem Filled.before_gap {j : ℕ} (hf : Filled m home slots n) (hc : c ≤ n) (hj : j < m)
    (hgap : ¬∃ k < c, slots j = some k) (hi : i < c) (hle : home i ≤ j) :
    ∃ s, home i ≤ s ∧ s < j ∧ slots s = some i := by
  obtain ⟨d, -, hat, hbefore⟩ := hf.place i (by omega)
  have hlt : home i + d < j := by
    by_contra hge
    rcases Nat.lt_or_ge (j - home i) d with hpass | hstop
    · obtain ⟨k, hk, hslot⟩ := hbefore (j - home i) hpass
      rw [Nat.add_sub_cancel' hle, Nat.mod_eq_of_lt hj] at hslot
      exact hgap ⟨k, by omega, hslot⟩
    · rw [show home i + d = j by omega, Nat.mod_eq_of_lt hj] at hat
      exact hgap ⟨i, hi, hat⟩
  rw [Nat.mod_eq_of_lt (by omega)] at hat
  exact ⟨home i + d, by omega, hlt, hat⟩

/-- **The entries below `c` are in the slots below `c`** if and only if they are packed. -/
theorem Filled.packed_iff (hf : Filled m home slots n) (hc : c ≤ n) (hcm : c < m)
    (hhome : ∀ i < c, home i < m) :
    (∀ j < c, ∃ k < c, slots j = some k) ↔ Packed home c := by
  constructor
  · intro hall j hj
    choose! k hk using hall
    have hinj : Set.InjOn k (Finset.range c) := by
      intro e he e' he' heq
      rw [Finset.mem_coe, Finset.mem_range] at he he'
      refine hf.once _ _ _ (hk e he).2 ?_
      rw [heq]
      exact (hk e' he').2
    -- the slots below `c` hold all the entries below `c`
    have honly : ∀ s i, i < c → slots s = some i → s < c := by
      intro s i hi hslot
      have hsurj : Set.SurjOn k (Finset.range c) (Finset.range c) := by
        refine Finset.surjOn_of_injOn_of_card_le k (fun e he => ?_) hinj (Nat.le_refl _)
        rw [Finset.mem_coe, Finset.mem_range] at he ⊢
        exact (hk e he).1
      obtain ⟨e, he, rfl⟩ := hsurj (by simpa using hi)
      rw [Finset.mem_coe, Finset.mem_range] at he
      rw [hf.once s e _ hslot (hk e he).2]
      exact he
    have hhomes : ∀ i < c, ∀ s, slots s = some i → home i ≤ s := by
      intro i hi s hslot
      obtain ⟨d, -, hat, hbefore⟩ := hf.place i (by omega)
      have hprobe : ∀ e ≤ d, (home i + e) % m < c := by
        intro e he
        rcases Nat.lt_or_eq_of_le he with he | rfl
        · obtain ⟨k', hk', hslot'⟩ := hbefore e he
          exact honly _ k' (by omega) hslot'
        · exact honly _ i hi hat
      have hstart := hprobe 0 (Nat.zero_le d)
      rw [probe_zero (hhome i hi)] at hstart
      have hlt : home i + d < c := by
        by_contra hge
        have := hprobe (c - home i) (by omega)
        rw [Nat.add_sub_cancel' (by omega), Nat.mod_eq_of_lt hcm] at this
        omega
      rw [Nat.mod_eq_of_lt (by omega)] at hat
      have := hf.once _ _ _ hslot hat
      omega
    have hmaps : Set.MapsTo k (Finset.range j)
        ((Finset.range c).filter fun i => home i < j) := by
      intro e he
      rw [Finset.mem_coe, Finset.mem_range] at he
      rw [Finset.mem_coe, Finset.mem_filter, Finset.mem_range]
      have := hhomes _ (hk e (by omega)).1 e (hk e (by omega)).2
      exact ⟨(hk e (by omega)).1, by omega⟩
    have hinj' : Set.InjOn k (Finset.range j) := by
      refine hinj.mono fun e he => ?_
      rw [Finset.mem_coe, Finset.mem_range] at he ⊢
      omega
    have := Finset.card_le_card_of_injOn k hmaps hinj'
    rwa [Finset.card_range] at this
  · intro hpacked j hj
    by_contra hgap
    have hplace : ∀ i ∈ (Finset.range c).filter fun i => home i < j + 1,
        ∃ s < j, slots s = some i := by
      intro i hi
      rw [Finset.mem_filter, Finset.mem_range] at hi
      obtain ⟨s, -, hs, hslot⟩ := hf.before_gap hc (by omega) hgap hi.1 (by omega)
      exact ⟨s, hs, hslot⟩
    choose! s hs using hplace
    have hmaps : Set.MapsTo s ((Finset.range c).filter fun i => home i < j + 1)
        (Finset.range j) := by
      intro i hi
      rw [Finset.mem_coe, Finset.mem_range]
      exact (hs i hi).1
    have hinj : Set.InjOn s ((Finset.range c).filter fun i => home i < j + 1) := by
      intro i hi i' hi' heq
      have h₁ := (hs i hi).2
      have h₂ := (hs i' hi').2
      rw [heq, h₂] at h₁
      exact (Option.some.inj h₁).symm
    have hle := Finset.card_le_card_of_injOn s hmaps hinj
    have hmany := hpacked (j + 1) (by omega)
    rw [Finset.card_range] at hle
    omega

end Probing
