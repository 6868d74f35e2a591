import Mathlib.Data.List.Basic
import Mathlib.Data.List.Nodup
import Mathlib.Data.Finset.Range
import Mathlib.Data.Finset.Card
import Mathlib.Logic.Function.Basic

/-!
# Lists that are linked through memory

`next p` is what a cell `p` holds as its link: `none` where `p` is no memory, `some none` at the end
of a list. `Chain next h l` says that the links from the head `h` run through the cells `l` to the
end.

* `Back`: the links back, of a doubly linked list.
* `Chain.nodup`: such a list has no cycle.
* `Chain.frame`, `Chain.snoc`: writes elsewhere, and a new last cell.
* `Chain.walk_eq`, `length_le_of_nodup`: the walk through a list, and a bound for it.
-/

namespace Lib

variable {ι : Type*}

/-- The links from `h` run through `l`. -/
def Chain (next : ι → Option (Option ι)) : Option ι → List ι → Prop
  | h, [] => h = none
  | h, p :: l => h = some p ∧ ∃ n, next p = some n ∧ Chain next n l

namespace Chain

variable {next next' : ι → Option (Option ι)} {h n : Option ι} {l l' : List ι} {p x : ι}

@[simp] theorem nil_iff : Chain next h [] ↔ h = none := Iff.rfl

@[simp] theorem cons_iff :
    Chain next h (p :: l) ↔ h = some p ∧ ∃ n, next p = some n ∧ Chain next n l := Iff.rfl

theorem eq_nil (hc : Chain next none l) : l = [] := by
  cases l with
  | nil => rfl
  | cons p l => cases hc.1

theorem head?_eq (hc : Chain next h l) : l.head? = h := by
  cases l with
  | nil => exact hc.symm
  | cons p l => exact hc.1.symm

theorem exists_cons (hc : Chain next (some p) l) : ∃ l', l = p :: l' := by
  cases l with
  | nil => cases hc
  | cons q l =>
    obtain rfl := Option.some.inj hc.1
    exact ⟨l, rfl⟩

/-- Every cell of a list is memory. -/
theorem mem_next (hc : Chain next h l) (hp : p ∈ l) : next p ≠ none := by
  induction l generalizing h with
  | nil => cases hp
  | cons q l ih =>
    obtain ⟨-, n, hn, hl⟩ := hc
    rcases List.mem_cons.1 hp with rfl | hp
    · rw [hn]
      exact Option.some_ne_none n
    · exact ih hl hp

/-- There is one list from a head. -/
theorem unique (hc : Chain next h l) (hc' : Chain next h l') : l = l' := by
  induction l generalizing h l' with
  | nil => rw [nil_iff.1 hc] at hc'; exact hc'.eq_nil.symm
  | cons p l ih =>
    obtain ⟨rfl, n, hn, hl⟩ := hc
    cases l' with
    | nil => cases hc'
    | cons p' l' =>
      obtain ⟨hp, n', hn', hl'⟩ := hc'
      obtain rfl := Option.some.inj hp
      obtain rfl : n = n' := by simpa [hn] using hn'
      rw [ih hl hl']

/-- The part of a list from one of its cells on. -/
theorem suffix (hc : Chain next h l) (hp : p ∈ l) :
    ∃ pre suf, l = pre ++ p :: suf ∧ Chain next (some p) (p :: suf) := by
  induction l generalizing h with
  | nil => cases hp
  | cons q l ih =>
    rcases List.mem_cons.1 hp with rfl | hp
    · exact ⟨[], l, rfl, rfl, hc.2⟩
    · obtain ⟨-, n, -, hl⟩ := hc
      obtain ⟨pre, suf, rfl, hs⟩ := ih hl hp
      exact ⟨q :: pre, suf, rfl, hs⟩

/-- The cell after a cell of a list is in the list. -/
theorem next_mem (hc : Chain next h l) (hp : p ∈ l) (hn : next p = some (some x)) : x ∈ l := by
  obtain ⟨pre, suf, rfl, -, n, hn', hs⟩ := hc.suffix hp
  obtain rfl : n = some x := by simpa [hn] using hn'.symm
  refine List.mem_append_right pre (List.mem_cons_of_mem p ?_)
  exact List.mem_of_mem_head? (by rw [hs.head?_eq]; rfl)

/-- **No cycle.** -/
theorem nodup (hc : Chain next h l) : l.Nodup := by
  induction l generalizing h with
  | nil => exact List.nodup_nil
  | cons p l ih =>
    have hself : Chain next (some p) (p :: l) := ⟨rfl, hc.2⟩
    obtain ⟨-, n, -, hl⟩ := hc
    refine List.nodup_cons.2 ⟨fun hp => ?_, ih hl⟩
    -- the list from `p` would be a part of its own tail
    obtain ⟨pre, suf, hsplit, hs⟩ := hl.suffix hp
    have hlen := congrArg List.length (hself.unique hs)
    have hlen' := congrArg List.length hsplit
    simp only [List.length_cons, List.length_append] at hlen hlen'
    omega

/-- A write to other cells. -/
theorem frame (hc : Chain next h l) (hsame : ∀ p ∈ l, next' p = next p) : Chain next' h l := by
  induction l generalizing h with
  | nil => exact hc
  | cons p l ih =>
    obtain ⟨rfl, n, hn, hl⟩ := hc
    refine ⟨rfl, n, ?_, ih hl fun q hq => hsame q (List.mem_cons_of_mem _ hq)⟩
    rw [hsame p List.mem_cons_self, hn]

theorem drop (hc : Chain next h l) (k : ℕ) : Chain next (l.drop k).head? (l.drop k) := by
  induction l generalizing h k with
  | nil => simp
  | cons p l ih =>
    cases k with
    | zero => exact ⟨rfl, hc.2⟩
    | succ k =>
      obtain ⟨-, n, -, hl⟩ := hc
      simpa using ih hl k

/-- A new cell at the end: the last cell is linked to it. -/
theorem snoc [DecidableEq ι] (hc : Chain next h (l ++ [p])) (hx : x ∉ l ++ [p])
    (hp : next' p = some (some x)) (hnew : next' x = some none)
    (hsame : ∀ q ∈ l, next' q = next q) : Chain next' h (l ++ [p] ++ [x]) := by
  induction l generalizing h with
  | nil =>
    obtain ⟨rfl, n, -, -⟩ := hc
    exact ⟨rfl, some x, hp, rfl, none, hnew, rfl⟩
  | cons q l ih =>
    obtain ⟨rfl, n, hn, hl⟩ := hc
    refine ⟨rfl, n, ?_, ih hl (fun hm => hx (List.mem_cons_of_mem _ hm))
      fun r hr => hsame r (List.mem_cons_of_mem _ hr)⟩
    rw [hsame q List.mem_cons_self, hn]

end Chain

/-- The links back: `prev` of each cell of `l` is the cell before it, and `b` is that of the first. -/
def Back (prev : ι → Option (Option ι)) : Option ι → List ι → Prop
  | _, [] => True
  | b, p :: l => prev p = some b ∧ Back prev (some p) l

/-- The cells that are found along the links, at most `k` of them. -/
def walk (next : ι → Option (Option ι)) : ℕ → Option ι → List ι
  | 0, _ => []
  | _, none => []
  | k + 1, some p =>
    match next p with
    | none => []
    | some n => p :: walk next k n

theorem Chain.walk_eq {next : ι → Option (Option ι)} {h : Option ι} {l : List ι} {k : ℕ}
    (hc : Chain next h l) (hk : l.length ≤ k) : walk next k h = l := by
  induction l generalizing h k with
  | nil =>
    rw [Chain.nil_iff.1 hc]
    cases k <;> rfl
  | cons p l ih =>
    obtain ⟨rfl, n, hn, hl⟩ := hc
    cases k with
    | zero => exact absurd hk (Nat.not_succ_le_zero _)
    | succ k => simp only [walk, hn, ih hl (Nat.le_of_succ_le_succ hk)]

/-- A list of different numbers below a bound. -/
theorem length_le_of_nodup {l : List ℕ} {k : ℕ} (hl : l.Nodup) (hk : ∀ p ∈ l, p < k) :
    l.length ≤ k := by
  have hsub : l.toFinset ⊆ Finset.range k := by
    intro p hp
    exact Finset.mem_range.2 (hk p (List.mem_toFinset.1 hp))
  have hcard := Finset.card_le_card hsub
  rwa [List.toFinset_card_of_nodup hl, Finset.card_range] at hcard

end Lib
