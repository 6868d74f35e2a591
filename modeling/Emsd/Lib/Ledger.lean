import Mathlib.Data.List.Basic
import Mathlib.Data.List.Nodup
import Mathlib.Data.List.Perm.Basic

/-!
# Ledgers of objects

Objects are numbered as they are allocated. A history says which of them somebody has to free, and
which have been used and freed. A `Ledger` accounts for a history by the objects that are still owned:
each step below keeps it, and a history with a ledger is `Safe`.
-/

namespace Ledger

/-- What happens to an object. -/
inductive Event
  /-- Somebody has to free it from now on. -/
  | own (a : Nat)
  | use (a : Nat)
  | free (a : Nat)
  deriving DecidableEq, Repr

/-- The objects that have been freed, in order. -/
def frees (h : List Event) : List Nat :=
  h.filterMap fun
    | .free a => some a
    | _ => none

/-- Nothing is freed twice, and nothing is used after it has been freed. -/
structure Safe (h : List Event) : Prop where
  once : (frees h).Nodup
  live : ∀ g a, g ++ [.use a] <+: h → a ∉ frees g

end Ledger

open Ledger in
/-- `owned` accounts for the history `h`, in which the objects below `next` have been allocated. -/
structure Ledger (next : Nat) (owned : List Nat) (h : List Ledger.Event) : Prop where
  apart : (owned ++ frees h).Nodup
  below : ∀ a ∈ owned ++ frees h, a < next
  live : ∀ g a, g ++ [.use a] <+: h → a ∉ frees g
  all : ∀ a, .own a ∈ h → a ∈ owned ++ frees h

namespace Ledger

variable {next : Nat} {owned owned' l : List Nat} {h : List Event} {a : Nat}

@[simp]
theorem frees_append (h o : List Event) : frees (h ++ o) = frees h ++ frees o :=
  List.filterMap_append

theorem nil : Ledger 0 [] [] where
  apart := List.nodup_nil
  below := by simp [frees]
  live := by
    intro g a hpre
    have hnil := List.prefix_nil.1 hpre
    simp at hnil
  all := by simp

theorem safe (hl : Ledger next owned h) : Safe h where
  once := (List.nodup_append.1 hl.apart).2.1
  live := hl.live

/-- **Each object is freed exactly once, or is still owned.** -/
theorem freed_or_owned (hl : Ledger next owned h) (ha : .own a ∈ h) :
    a ∈ owned ∧ a ∉ frees h ∨ a ∉ owned ∧ (frees h).count a = 1 := by
  have hdisj := (List.nodup_append.1 hl.apart).2.2
  rcases List.mem_append.1 (hl.all a ha) with hin | hin
  · exact .inl ⟨hin, fun hfreed => hdisj a hin a hfreed rfl⟩
  · refine .inr ⟨fun howned => hdisj a howned a hin rfl, ?_⟩
    exact List.count_eq_one_of_mem hl.safe.once hin

theorem perm (hl : Ledger next owned h) (hp : owned.Perm owned') : Ledger next owned' h where
  apart := (hp.append_right _).nodup_iff.1 hl.apart
  below := fun a ha => hl.below a ((hp.append_right _).mem_iff.2 ha)
  live := hl.live
  all := fun a ha => (hp.append_right _).mem_iff.1 (hl.all a ha)

/-- An object is allocated. -/
theorem alloc (hl : Ledger next owned h) : Ledger (next + 1) (next :: owned) h where
  apart := by
    refine List.nodup_cons.2 ⟨fun hin => ?_, hl.apart⟩
    exact Nat.lt_irrefl _ (hl.below next hin)
  below := by
    intro a ha
    rcases List.mem_cons.1 ha with rfl | ha
    · exact Nat.lt_succ_self _
    · exact Nat.lt_succ_of_lt (hl.below a ha)
  live := hl.live
  all := fun a ha => List.mem_cons_of_mem _ (hl.all a ha)

/-- Numbers may be passed over. -/
theorem mono {n : Nat} (hl : Ledger next owned h) (hn : next ≤ n) : Ledger n owned h where
  apart := hl.apart
  below := fun a ha => Nat.lt_of_lt_of_le (hl.below a ha) hn
  live := hl.live
  all := hl.all

theorem alloc_range (hl : Ledger next owned h) (n : Nat) :
    Ledger (next + n) (List.range' next n ++ owned) h := by
  induction n with
  | zero => exact hl
  | succ n ih =>
    have hp : ((next + n) :: (List.range' next n ++ owned)).Perm
        (List.range' next (n + 1) ++ owned) := by
      rw [List.range'_1_concat, List.append_assoc]
      exact List.perm_middle.symm
    exact ih.alloc.perm hp

theorem lt_of_own (hl : Ledger next owned h) (ha : .own a ∈ h) : a < next := hl.below a (hl.all a ha)

/-- An object that nobody has to free is forgotten. -/
theorem forget (hl : Ledger next (l ++ owned) h) (ha : ∀ a ∈ l, .own a ∉ h) :
    Ledger next owned h where
  apart := by
    have hd := hl.apart
    rw [List.append_assoc] at hd
    exact (List.nodup_append.1 hd).2.1
  below := by
    intro b hb
    refine hl.below b ?_
    rw [List.append_assoc]
    exact List.mem_append_right _ hb
  live := hl.live
  all := by
    intro b hb
    have hin := hl.all b hb
    rw [List.append_assoc] at hin
    rcases List.mem_append.1 hin with hin | hin
    · exact absurd hb (ha b hin)
    · exact hin

/-- What precedes a use, after one more event. -/
theorem live_snoc {x : Event} (hlive : ∀ g a, g ++ [.use a] <+: h → a ∉ frees g)
    (hx : ∀ a, x = .use a → a ∉ frees h) : ∀ g a, g ++ [.use a] <+: h ++ [x] → a ∉ frees g := by
  intro g a hpre
  rcases List.prefix_concat_iff.1 hpre with heq | hpre
  · obtain ⟨rfl, hlast⟩ := List.append_inj' heq rfl
    exact hx a (List.cons.inj hlast).1.symm
  · exact hlive g a hpre

/-- An object gets an owner. -/
theorem own (hl : Ledger next owned h) (ha : a ∈ owned) : Ledger next owned (h ++ [.own a]) := by
  have hf : frees (h ++ [.own a]) = frees h := by
    rw [frees_append]
    exact List.append_nil _
  constructor
  · rw [hf]
    exact hl.apart
  · rw [hf]
    exact hl.below
  · exact live_snoc hl.live fun _ he => by cases he
  · rw [hf]
    intro b hb
    rcases List.mem_append.1 hb with hb | hb
    · exact hl.all b hb
    · cases List.mem_singleton.1 hb
      exact List.mem_append_left _ ha

theorem owns (hl : Ledger next owned h) (hsub : ∀ a ∈ l, a ∈ owned) :
    Ledger next owned (h ++ l.map .own) := by
  induction l generalizing h with
  | nil => simpa using hl
  | cons a l ih =>
    have hrest := ih (hl.own (hsub a List.mem_cons_self)) fun b hb =>
      hsub b (List.mem_cons_of_mem _ hb)
    rwa [List.append_assoc] at hrest

/-- What is owned may be used. -/
theorem use (hl : Ledger next owned h) (ha : a ∈ owned) : Ledger next owned (h ++ [.use a]) := by
  have hf : frees (h ++ [.use a]) = frees h := by
    rw [frees_append]
    exact List.append_nil _
  constructor
  · rw [hf]
    exact hl.apart
  · rw [hf]
    exact hl.below
  · refine live_snoc hl.live fun b he => ?_
    cases he
    exact fun hin => (List.nodup_append.1 hl.apart).2.2 a ha a hin rfl
  · rw [hf]
    intro b hb
    rcases List.mem_append.1 hb with hb | hb
    · exact hl.all b hb
    · cases List.mem_singleton.1 hb

theorem uses (hl : Ledger next owned h) (hsub : ∀ a ∈ l, a ∈ owned) :
    Ledger next owned (h ++ l.map .use) := by
  induction l generalizing h with
  | nil => simpa using hl
  | cons a l ih =>
    have hrest := ih (hl.use (hsub a List.mem_cons_self)) fun b hb =>
      hsub b (List.mem_cons_of_mem _ hb)
    rwa [List.append_assoc] at hrest

/-- What is owned may be freed, and is owned no longer. -/
theorem free (hl : Ledger next (a :: owned) h) : Ledger next owned (h ++ [.free a]) := by
  have hf : frees (h ++ [.free a]) = frees h ++ [a] := frees_append _ _
  have hp : (a :: (owned ++ frees h)).Perm (owned ++ (frees h ++ [a])) := by
    rw [← List.append_assoc]
    exact (List.perm_append_singleton a _).symm
  constructor
  · rw [hf]
    exact hp.nodup_iff.1 hl.apart
  · rw [hf]
    exact fun b hb => hl.below b (hp.mem_iff.2 hb)
  · exact live_snoc hl.live fun _ he => by cases he
  · rw [hf]
    intro b hb
    rcases List.mem_append.1 hb with hb | hb
    · exact hp.mem_iff.1 (hl.all b hb)
    · cases List.mem_singleton.1 hb

theorem frees_all (hl : Ledger next (l ++ owned) h) : Ledger next owned (h ++ l.map .free) := by
  induction l generalizing h with
  | nil => simpa using hl
  | cons a l ih =>
    have hrest := ih hl.free
    rwa [List.append_assoc] at hrest

end Ledger
