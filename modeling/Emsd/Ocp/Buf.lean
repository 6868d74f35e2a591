import Emsd.Ocp.Data

/-!
# Buffers (`buf.c`)

A buffer is a chain of segments with a current location. The octets of a segment are shared
with other buffers, but nobody changes them, so a segment is its octets.

* `cloneBufferPortion_octets`, `cloneBufferPortion_rest`: a portion is cut off at the current
  location, whatever the segments.
-/

namespace Ocp

/-- `Buf_Head`: the octets between `pStart` and `pEnd` of each segment. `currentSeg` is the number of
segments before `pCurrentSeg`, `pX` the number of its octets before the current location. -/
structure Buf where
  segs : List Octets
  currentSeg : Nat
  pX : Nat
  deriving DecidableEq, Repr

namespace Buf

variable {b : Buf} {len : Nat}

/-- The octets of all segments. -/
def octets (b : Buf) : Octets := b.segs.flatten

/-- The octets from the current location on. -/
def rest (b : Buf) : Octets := (b.segs.drop b.currentSeg).flatten.drop b.pX

/-- `BUF_getBufferLength`. -/
def getBufferLength (b : Buf) : Nat := (b.segs.map List.length).sum

/-- `BUF_resetParse`. -/
def resetParse (b : Buf) : Buf := { b with currentSeg := 0, pX := 0 }

/-- The loop of `BUF_cloneBufferPortion`, over the segments from `pOrigSeg` on: the cloned segments,
the number of segments that have been left behind, and the new `pX`. -/
def cloneSegs : List Octets → Nat → Nat → List Octets × Nat × Nat
  | [], x, _ => ([], 0, x)
  | seg :: segs, x, len =>
    if len = 0 then ([], 0, x)
    else if seg.length - x ≥ len then ([(seg.drop x).take len], 0, x + len)
    else
      let r := cloneSegs segs 0 (len - (seg.length - x))
      (seg.drop x :: r.1, r.2.1 + 1, r.2.2)

/-- `BUF_cloneBufferPortion` with `bStripClonedPortion`: the cloned segments, and the buffer behind
the portion. -/
def cloneBufferPortion (b : Buf) (len : Nat) : List Octets × Buf :=
  let r := cloneSegs (b.segs.drop b.currentSeg) b.pX len
  (r.1, { b with currentSeg := b.currentSeg + r.2.1, pX := r.2.2 })

/-! ## A portion -/

theorem getBufferLength_eq : b.getBufferLength = b.octets.length := by
  simp [getBufferLength, octets, List.length_flatten]

theorem resetParse_rest : b.resetParse.rest = b.octets := by
  simp [resetParse, rest, octets]

/-- The location is inside its segment. -/
def InSeg (segs : List Octets) (x : Nat) : Prop := ∀ seg ∈ segs.head?, x ≤ seg.length

theorem cloneSegs_spec (segs : List Octets) (x len : Nat) (hx : InSeg segs x) :
    (cloneSegs segs x len).1.flatten = (segs.flatten.drop x).take len ∧
      ((segs.drop (cloneSegs segs x len).2.1).flatten.drop (cloneSegs segs x len).2.2 =
        (segs.flatten.drop x).drop len ∨ segs.flatten.length - x < len) ∧
      InSeg (segs.drop (cloneSegs segs x len).2.1) (cloneSegs segs x len).2.2 := by
  induction segs generalizing x len with
  | nil => simp [cloneSegs, InSeg]
  | cons seg segs ih =>
    have hseg : x ≤ seg.length := hx seg rfl
    have hdrop : (seg ++ segs.flatten).drop x = seg.drop x ++ segs.flatten :=
      List.drop_append_of_le_length hseg
    unfold cloneSegs
    split
    · rename_i hzero
      subst hzero
      exact ⟨by simp, .inl (by simp), hx⟩
    split
    · -- this segment exhausts the length
      rename_i hge
      have hlen : len ≤ (seg.drop x).length := by
        rw [List.length_drop]
        exact hge
      refine ⟨?_, .inl ?_, ?_⟩
      · simp only [List.flatten_cons, List.flatten_nil, List.append_nil, hdrop]
        rw [List.take_append_of_le_length hlen]
      · simp only [List.drop_zero, List.flatten_cons]
        rw [List.drop_drop]
      · intro s hs
        obtain rfl : seg = s := by simpa using hs
        show x + len ≤ seg.length
        omega
    · -- the portion goes on in the next segment
      rename_i hlt
      have hlen : (seg.drop x).length ≤ len := by
        rw [List.length_drop]
        omega
      obtain ⟨h1, h2, h3⟩ := ih 0 (len - (seg.length - x)) fun _ _ => Nat.zero_le _
      rw [List.drop_zero] at h1 h2
      refine ⟨?_, ?_, ?_⟩
      · simp only [List.flatten_cons, hdrop, h1]
        rw [List.take_append, List.take_of_length_le hlen, List.length_drop]
      · rcases h2 with h2 | h2
        · refine .inl ?_
          simp only [List.drop_succ_cons, List.flatten_cons, hdrop, h2]
          rw [List.drop_append, List.drop_of_length_le hlen, List.nil_append, List.length_drop]
        · refine .inr ?_
          simp only [List.flatten_cons, List.length_append]
          omega
      · simpa using h3

/-- The location is inside the buffer. -/
def Located (b : Buf) : Prop := InSeg (b.segs.drop b.currentSeg) b.pX

theorem resetParse_located : b.resetParse.Located := fun _ _ => Nat.zero_le _

/-- **A portion** is what follows the current location. -/
theorem cloneBufferPortion_octets (h : b.Located) :
    (b.cloneBufferPortion len).1.flatten = b.rest.take len :=
  (cloneSegs_spec _ _ _ h).1

/-- **The next portion** starts where the last one ends. -/
theorem cloneBufferPortion_rest (h : b.Located) (hlen : len ≤ b.rest.length) :
    (b.cloneBufferPortion len).2.rest = b.rest.drop len := by
  obtain ⟨-, h2, -⟩ := cloneSegs_spec _ _ len h
  rcases h2 with h2 | h2
  · rw [List.drop_drop] at h2
    exact h2
  · have : b.rest.length < len := by simpa [rest] using h2
    omega

theorem cloneBufferPortion_located (h : b.Located) : (b.cloneBufferPortion len).2.Located := by
  obtain ⟨-, -, h3⟩ := cloneSegs_spec _ _ len h
  rw [List.drop_drop] at h3
  exact h3

@[simp] theorem cloneBufferPortion_segs : (b.cloneBufferPortion len).2.segs = b.segs := rfl

end Buf

end Ocp
