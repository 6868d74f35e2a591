import Mathlib.Data.List.Basic
import Mathlib.Tactic.Common

/-!
# Messages on a stream

Messages are written onto a stream one after the other, and a reader takes chunks off it. Nothing on
the stream tells where a message ends.

* `Cut.put_iff`: the chunks stay messages if the whole message is written.
* `Cut.take_iff`: they stay messages if and only if a chunk is as long as the message that is next.
* `Cut.drained`: when the stream is empty, the chunks are all of the messages.
-/

namespace Chunks

variable {α : Type*}

/-- The chunks are the first messages, in order, and the rest of the stream is the other ones. -/
structure Cut (msgs chunks : List (List α)) (rest : List α) : Prop where
  octets : chunks.flatten ++ rest = msgs.flatten
  whole : chunks <+: msgs

variable {msgs chunks : List (List α)} {rest m : List α} {n : Nat}

/-- The messages that are still on the stream. -/
theorem Cut.split (hc : Cut msgs chunks rest) :
    ∃ ms, msgs = chunks ++ ms ∧ rest = ms.flatten := by
  obtain ⟨ms, rfl⟩ := hc.whole
  refine ⟨ms, rfl, ?_⟩
  have hoctets := hc.octets
  rw [List.flatten_append] at hoctets
  exact List.append_cancel_left hoctets

/-- When the stream is empty, the chunks are all of the messages. -/
theorem Cut.drained (hc : Cut msgs chunks rest) (hne : ∀ m ∈ msgs, m ≠ []) (hrest : rest = []) :
    chunks = msgs := by
  obtain ⟨ms, rfl, rfl⟩ := hc.split
  cases ms with
  | nil => simp
  | cons m ms =>
    rw [List.flatten_cons, List.append_eq_nil_iff] at hrest
    exact absurd hrest.1 (hne m (by simp))

/-- **A message is written** as far as `n` octets of it. -/
theorem Cut.put_iff (hc : Cut msgs chunks rest) (hn : n ≤ m.length) :
    Cut (msgs ++ [m]) chunks (rest ++ m.take n) ↔ n = m.length := by
  constructor
  · intro hput
    have hoctets := hput.octets
    rw [← List.append_assoc, hc.octets, List.flatten_append, List.flatten_singleton] at hoctets
    have hlen := congrArg List.length (List.append_cancel_left hoctets)
    rw [List.length_take] at hlen
    omega
  · rintro rfl
    refine ⟨?_, hc.whole.trans (List.prefix_append _ _)⟩
    rw [← List.append_assoc, hc.octets, List.take_length]
    simp

/-- **A chunk is read.** -/
theorem Cut.take_iff (hc : Cut msgs chunks rest) (hpos : 0 < n) (hn : n ≤ rest.length) :
    Cut msgs (chunks ++ [rest.take n]) (rest.drop n) ↔
      msgs[chunks.length]?.map List.length = some n := by
  obtain ⟨ms, rfl, rfl⟩ := hc.split
  have hget : (chunks ++ ms)[chunks.length]? = ms.head? := by
    rw [List.getElem?_append_right (Nat.le_refl _), Nat.sub_self, List.head?_eq_getElem?]
  rw [hget]
  constructor
  · intro htake
    obtain ⟨ms', hms⟩ := htake.whole
    rw [List.append_assoc] at hms
    have hhead := congrArg List.head? (List.append_cancel_left hms)
    rw [← hhead, List.head?_append, List.head?_singleton, Option.some_or, Option.map_some,
      List.length_take, Nat.min_eq_left hn]
  · intro hlen
    cases ms with
    | nil => cases hlen
    | cons m ms =>
      obtain rfl : m.length = n := Option.some.inj hlen
      constructor
      · simp
      · refine ⟨ms, ?_⟩
        simp

end Chunks
