import Mathlib.Data.List.Sort
import Mathlib.Data.List.Infix
import Mathlib.Tactic.Common

/-!
# Lists kept in the order of their due times

* `InOrder.insert`: an element that is inserted before the first one that is due later keeps the order.
* `InOrder.not_due`: when the first one is not due, none is.
* `Always.concat`: what is asked at the end of each prefix of a record, one entry after the other.
-/

namespace Agenda

variable {α κ : Type*} [LinearOrder κ] {due : α → κ} {a : α} {l l' : List α} {k : κ}

/-- No element is due before one that stands in front of it. -/
def InOrder (due : α → κ) (l : List α) : Prop := l.Pairwise fun a b => due a ≤ due b

theorem InOrder.nil : InOrder due [] := List.Pairwise.nil

theorem InOrder.sublist (h : InOrder due l) (hs : l'.Sublist l) : InOrder due l' :=
  List.Pairwise.sublist hs h

theorem InOrder.tail (h : InOrder due (a :: l)) : InOrder due l := h.sublist (List.sublist_cons_self a l)

theorem InOrder.first (h : InOrder due (a :: l)) {b : α} (hb : b ∈ l) : due a ≤ due b :=
  List.rel_of_pairwise_cons h hb

/-- **When the first one is not due, none is.** -/
theorem InOrder.not_due (h : InOrder due (a :: l)) (ha : k < due a) {b : α} (hb : b ∈ a :: l) :
    k < due b := by
  rcases List.mem_cons.1 hb with rfl | hb
  · exact ha
  · exact lt_of_lt_of_le ha (h.first hb)

/-- **Insertion before the first one that is due later** keeps the order. The comparison `r` only has to
be right for the elements of this list. -/
theorem InOrder.insert {r : α → α → Prop} [DecidableRel r] (h : InOrder due l)
    (hr : ∀ b ∈ l, r a b ↔ due a < due b) : InOrder due (l.orderedInsert r a) := by
  induction l with
  | nil => exact List.pairwise_singleton _ _
  | cons b l ih =>
    by_cases hab : r a b
    · rw [List.orderedInsert_cons_of_le r l hab]
      have hlt : due a < due b := (hr b List.mem_cons_self).1 hab
      refine List.pairwise_cons.2 ⟨fun c hc => ?_, h⟩
      rcases List.mem_cons.1 hc with rfl | hc
      · exact le_of_lt hlt
      · exact le_trans (le_of_lt hlt) (h.first hc)
    · rw [List.orderedInsert_of_not_le r l hab]
      have hle : due b ≤ due a := by
        -- otherwise the comparison would have put it here
        by_contra hlt
        exact hab ((hr b List.mem_cons_self).2 (lt_of_not_ge hlt))
      refine List.pairwise_cons.2 ⟨fun c hc => ?_, ih h.tail fun c hc =>
        hr c (List.mem_cons_of_mem b hc)⟩
      rcases (List.mem_orderedInsert r).1 hc with rfl | hc
      · exact hle
      · exact h.first hc

/-- One more at the end. -/
theorem InOrder.concat (h : InOrder due l) (ha : ∀ b ∈ l, due b ≤ due a) : InOrder due (l ++ [a]) := by
  refine List.pairwise_append.2 ⟨h, List.pairwise_singleton _ _, fun b hb c hc => ?_⟩
  rw [List.mem_singleton.1 hc]
  exact ha b hb

/-! ## Records -/

section Record

variable {ω : Type*} {P : List ω → ω → Prop} {w : List ω} {x : ω}

/-- Each entry of the record satisfies `P` after the entries before it. -/
def Always (P : List ω → ω → Prop) (w : List ω) : Prop := ∀ w' x, w' ++ [x] <+: w → P w' x

theorem Always.nil : Always P [] := by
  intro w' x h
  exact absurd (List.prefix_nil.1 h) (List.append_ne_nil_of_right_ne_nil _ (List.cons_ne_nil x []))

theorem Always.concat (h : Always P w) (hx : P w x) : Always P (w ++ [x]) := by
  intro w' x' hp
  rcases List.prefix_concat_iff.1 hp with heq | hp
  · obtain ⟨rfl, hlast⟩ := List.append_inj' heq rfl
    rw [List.singleton_inj.1 hlast]
    exact hx
  · exact h w' x' hp

end Record

end Agenda
