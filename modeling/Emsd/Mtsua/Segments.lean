import Emsd.Mtsua.Sender
import Emsd.Lib.Run

/-!
# What a sender of segments should do

* `pdusOf`: the PDUs that the contents are cut into.
* `segmented_pdusOf`: their contents, in order, are the contents of the message.
* `SegMove`: the protocol of a sender. A PDU is invoked, perhaps several times; after its RESULT the
  next one is, and after that of the last one the sender reports success.
-/

namespace Mtsua

open Ocp

variable {full : Octets} {n k : Nat} {sequenceId : Nat}

/-- The segment information of PDU `i` out of `n`. -/
def infoOf (sequenceId n i : Nat) : Option SegmentInfo :=
  if n = 1 then none
  else some ⟨sequenceId, if i = 0 then .first n else .other i⟩

theorem infoOf_other (sequenceId : Nat) (h : k + 1 < n) :
    infoOf sequenceId n (k + 1) = some ⟨sequenceId, .other (k + 1)⟩ := by
  have hn : n ≠ 1 := by omega
  simp [infoOf, hn]

theorem infoOf_first (sequenceId : Nat) (h : 2 ≤ n) :
    infoOf sequenceId n 0 = some ⟨sequenceId, .first n⟩ := by
  have hn : n ≠ 1 := by omega
  simp [infoOf, hn]

/-- Segment `i` of the contents. -/
def chunk (full : Octets) (i : Nat) : Octets := (full.drop (i * segmentLen)).take segmentLen

/-- The PDUs of contents that are cut into segments. -/
def pdusOf (sequenceId : Nat) (full : Octets) : List Pdu :=
  let n := numSegmentsOf full.length
  (List.range n).map fun i => ⟨infoOf sequenceId n i, chunk full i⟩

/-- The PDU of contents that go in one piece. -/
def wholePdu (full : Octets) : List Pdu := [⟨none, full⟩]

/-- PDUs that carry the contents: at most `MTSUA_MAX_SEGMENTS`, numbered in order. -/
structure Segmented (full : Octets) (pdus : List Pdu) : Prop where
  nonempty : pdus ≠ []
  length_le : pdus.length ≤ maxSegments
  contents : (pdus.map (·.contents)).flatten = full
  info : ∃ sequenceId, ∀ i pdu, pdus[i]? = some pdu →
    pdu.segmentInfo = infoOf sequenceId pdus.length i

theorem segmented_wholePdu : Segmented full (wholePdu full) where
  nonempty := List.cons_ne_nil _ _
  length_le := by
    show 1 ≤ maxSegments
    decide
  contents := by simp [wholePdu]
  info := by
    refine ⟨0, fun i pdu h => ?_⟩
    obtain ⟨rfl⟩ : pdu = ⟨none, full⟩ := by
      have := List.mem_of_getElem? h
      simpa [wholePdu] using this
    rfl

/-- The chunks up to `n` are the octets up to their end. -/
theorem chunks_flatten (n : Nat) :
    ((List.range n).map (chunk full)).flatten = full.take (n * segmentLen) := by
  induction n with
  | zero => simp
  | succ n ih =>
    rw [List.range_succ, List.map_append, List.flatten_append, ih]
    simp only [List.map_cons, List.map_nil, List.flatten_cons, List.flatten_nil, List.append_nil]
    rw [Nat.succ_mul, List.take_add]
    rfl

theorem segmentLen_pos : 0 < segmentLen := by decide

/-- The segments reach to the end. -/
theorem le_numSegmentsOf (len : Nat) : len ≤ numSegmentsOf len * segmentLen := by
  have hdiv := Nat.div_add_mod len segmentLen
  have hlt := Nat.mod_lt len segmentLen_pos
  unfold numSegmentsOf
  split
  · rename_i h0
    rw [h0] at hdiv
    rw [Nat.add_zero, Nat.mul_comm]
    omega
  · rw [Nat.add_mul, Nat.one_mul, Nat.mul_comm (len / segmentLen)]
    omega

/-- Each segment but the last one is full. -/
theorem lt_of_lt_numSegmentsOf {len k : Nat} (hk : k + 1 < numSegmentsOf len) :
    (k + 1) * segmentLen ≤ len := by
  have hdiv := Nat.div_add_mod len segmentLen
  have hle : k + 1 ≤ len / segmentLen := by
    unfold numSegmentsOf at hk
    split at hk <;> omega
  have hmul := Nat.mul_le_mul_right segmentLen hle
  rw [Nat.mul_comm (len / segmentLen)] at hmul
  omega

theorem numSegmentsOf_of_lt {len : Nat} (h : segmentLen < len) : 2 ≤ numSegmentsOf len := by
  have hle := le_numSegmentsOf len
  by_contra hlt
  have h1 : numSegmentsOf len ≤ 1 := by omega
  have hmul := Nat.mul_le_mul_right segmentLen h1
  omega

theorem pdusOf_length : (pdusOf sequenceId full).length = numSegmentsOf full.length := by
  simp [pdusOf]

theorem pdusOf_get (hk : k < numSegmentsOf full.length) : (pdusOf sequenceId full)[k]? =
    some ⟨infoOf sequenceId (numSegmentsOf full.length) k, chunk full k⟩ := by
  simp [pdusOf, hk]

theorem segmented_pdusOf (hlt : segmentLen < full.length)
    (hmax : numSegmentsOf full.length ≤ maxSegments) :
    Segmented full (pdusOf sequenceId full) where
  nonempty := by
    intro hnil
    have hlen : (pdusOf sequenceId full).length = numSegmentsOf full.length := pdusOf_length
    have htwo := numSegmentsOf_of_lt hlt
    rw [hnil, List.length_nil] at hlen
    omega
  length_le := by
    rw [pdusOf_length]
    exact hmax
  contents := by
    have hmap : (pdusOf sequenceId full).map (·.contents) =
        (List.range (numSegmentsOf full.length)).map (chunk full) := by
      simp [pdusOf]
    rw [hmap, chunks_flatten, List.take_of_length_le (le_numSegmentsOf _)]
  info := by
    refine ⟨sequenceId, fun i pdu h => ?_⟩
    have hi : i < numSegmentsOf full.length := by
      have hlt := (List.getElem?_eq_some_iff.1 h).1
      rwa [pdusOf_length] at hlt
    rw [pdusOf_get hi] at h
    obtain rfl := Option.some.inj h
    rw [pdusOf_length]

/-! ## The protocol -/

/-- What is seen of a sender: a call of `mts_issueInvoke` or `ua_issueInvoke`, the RESULT.indication
of an invocation, and the report that the message has been sent. -/
inductive SendMark
  | issue (hInvokeData : CurrentBuf)
  | result
  | success
  deriving DecidableEq, Repr

/-- `ready k`: the RESULT of each PDU before `k` has come. `sent k`: PDU `k` has been invoked. -/
inductive SegState
  | ready (k : Nat)
  | sent (k : Nat)
  | done
  deriving DecidableEq, Repr

/-- The moves of a sender of `pdus`. -/
inductive SegMove (pdus : List Pdu) : SegState → List SendMark → SegState → Prop
  | issue {k : Nat} {pdu : Pdu} : pdus[k]? = some pdu →
    SegMove pdus (.ready k) [.issue (.formatted pdu)] (.sent k)
  | again {k : Nat} {pdu : Pdu} : pdus[k]? = some pdu →
    SegMove pdus (.sent k) [.issue (.formatted pdu)] (.sent k)
  | result {k : Nat} : SegMove pdus (.sent k) [.result] (.ready (k + 1))
  | success : SegMove pdus (.ready pdus.length) [.success] .done

end Mtsua
