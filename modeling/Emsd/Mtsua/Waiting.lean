import Emsd.Lib.Waiting
import Emsd.Mtsua.Receiver

/-!
# The segmentation timer of an operation

An operation that has taken a segment has all of them, or its timer runs.
-/

namespace Mtsua

open Ocp

variable {counts : Bool} {env : ReceiveEnv} {r r' : Receiver} {info : SegmentInfo} {b : Buf}

/-- All segments have been received, or the timer runs. -/
def Receiver.Covered (r : Receiver) : Prop := r.bComplete = true ∨ r.hSegmentationTimer = true

/-- The same, or nothing has been received. -/
def Receiver.Open (r : Receiver) : Prop := r.expectedSegmentMask = 0 ∨ r.Covered

theorem Receiver.Covered.open_ (h : r.Covered) : r.Open := .inr h

/-- The first segment starts the timer unless it is the only one. -/
theorem firstSegment_covered {sequenceId numSegments : Nat}
    (h : firstSegment counts env r sequenceId numSegments b = (r', true)) : r'.Covered := by
  unfold firstSegment at h
  split at h
  · cases h
    exact .inl rfl
  · dsimp only at h
    split at h
    · cases h
    · split at h
      · cases h
      · split at h
        · cases h
        · split at h
          · cases h
          · cases h
            exact .inr rfl

/-- All segments together complete the operation. -/
theorem joinSegments_covered (h : joinSegments r = some r') : r'.Covered := by
  unfold joinSegments at h
  split at h
  · obtain ⟨_, _, rfl⟩ := Option.map_eq_some_iff.1 h
    exact .inl rfl
  · cases h

/-- Another segment is only taken after a first one. -/
theorem otherSegment_covered {thisSeg : Nat} (ho : r.Open)
    (h : otherSegment counts env r thisSeg b = some (r', true)) : r'.Covered := by
  unfold otherSegment at h
  split at h
  · cases h
  · rename_i hfits
    split at h
    · cases h
    · split at h
      · cases h
      · split at h
        · cases h
        · have hcov : r.Covered := by
            refine ho.resolve_left fun hzero => hfits ?_
            by_cases hbig : thisSeg > 31
            · exact .inl hbig
            · right
              rw [hzero, shiftOne, if_pos (by omega), BitVec.lt_def, ← BitVec.twoPow_eq,
                BitVec.toNat_twoPow_of_lt (by omega)]
              exact Nat.two_pow_pos thisSeg
          dsimp only at h
          split at h
          · obtain ⟨q, hq, he⟩ := Option.map_eq_some_iff.1 h
            cases he
            exact joinSegments_covered hq
          · cases h
            exact hcov

/-- **A segment that is taken** completes the operation or leaves it with its timer. -/
theorem receiveSegment_covered (ho : r.Open)
    (h : receiveSegment counts env r info b = some (r', true)) : r'.Covered := by
  unfold receiveSegment at h
  split at h
  · exact firstSegment_covered (Option.some.inj h)
  · exact otherSegment_covered ho h

end Mtsua
