import Emsd.Mtsua.Receiver

/-!
# The segments so far

What the masks and the buffers of an operation say about the segments that have been stored
(`Gathered`), and what a first segment (`firstSegment_several`) and another one
(`otherSegment_gathers`) do to them.
-/

namespace Mtsua

open Ocp

variable {k n : Nat} {got : List (Nat × Buf)} {r : Receiver} {env : ReceiveEnv} {counts : Bool}
  {b : Buf}

/-! ## Masks -/

theorem shiftOne_getLsbD {wide : BitVec 32} {i : Nat} (hk : k < 32) :
    (shiftOne wide k).getLsbD i = decide (i = k) := by
  rw [shiftOne, if_pos hk, ← BitVec.twoPow_eq, BitVec.getLsbD_twoPow]
  simp [hk, eq_comm]

theorem shiftOne_toNat {wide : BitVec 32} (hk : k < 32) : (shiftOne wide k).toNat = 2 ^ k := by
  rw [shiftOne, if_pos hk, ← BitVec.twoPow_eq, BitVec.toNat_twoPow_of_lt hk]

/-- A bit test. -/
theorem and_shiftOne {wide mask : BitVec 32} (hk : k < 32) :
    mask &&& shiftOne wide k = 0 ↔ mask.getLsbD k = false := by
  rw [shiftOne, if_pos hk, ← BitVec.twoPow_eq, BitVec.and_twoPow]
  split
  · rename_i hbit
    rw [hbit]
    have hne : ¬BitVec.twoPow 32 k = 0#32 := by
      intro h
      have hnat := congrArg BitVec.toNat h
      rw [BitVec.toNat_twoPow_of_lt hk] at hnat
      exact absurd hnat (Nat.pos_iff_ne_zero.1 (Nat.two_pow_pos k))
    simp [hne]
  · rename_i hbit
    simp [hbit]

theorem lowMask_toNat {wide : BitVec 32} (hn : n < 32) : (shiftOne wide n - 1).toNat = 2 ^ n - 1 := by
  have hle : (1 : BitVec 32).toNat ≤ (shiftOne wide n).toNat := by
    rw [shiftOne_toNat hn]
    exact Nat.two_pow_pos n
  rw [BitVec.toNat_sub_of_le hle, shiftOne_toNat hn]
  rfl

/-! ## What has been stored -/

/-- The segments in `got` have been stored, of the `n` that are expected. -/
structure Gathered (n : Nat) (got : List (Nat × Buf)) (r : Receiver) : Prop where
  last : r.lastSegmentNumber + 1 = n
  expected : r.expectedSegmentMask.toNat = 2 ^ n - 1
  stored : ∀ i, r.receivedSegmentMask.getLsbD i = decide (i ∈ got.map Prod.fst)
  copies : ∀ p ∈ got, r.hSegmentBuf p.1 = .copy p.2.copy

/-- The segments that are expected. -/
theorem Gathered.expects (h : Gathered n got r) (i : Nat) :
    r.expectedSegmentMask.getLsbD i = decide (i < n) := by
  rw [← BitVec.testBit_toNat, h.expected, Nat.testBit_two_pow_sub_one]

/-- None of them is too large. -/
theorem Gathered.not_lt (h : Gathered n got r) {wide : BitVec 32} (hk : k < n) (h32 : k < 32) :
    ¬r.expectedSegmentMask < shiftOne wide k := by
  have hlt : 2 ^ k < 2 ^ n := Nat.pow_lt_pow_right (by omega) hk
  rw [BitVec.lt_def, h.expected, shiftOne_toNat h32]
  omega

/-- The masks are equal when nothing is missing. -/
theorem Gathered.masks (h : Gathered n got r) (hgot : ∀ p ∈ got, p.1 < n) :
    r.expectedSegmentMask = r.receivedSegmentMask ↔ ∀ i < n, i ∈ got.map Prod.fst := by
  constructor
  · intro heq i hi
    have hbit := h.expects i
    rw [heq, h.stored, decide_eq_decide] at hbit
    exact hbit.2 hi
  · intro hall
    refine BitVec.eq_of_getLsbD_eq fun i _ => ?_
    rw [h.expects, h.stored, decide_eq_decide]
    constructor
    · exact hall i
    · intro hi
      obtain ⟨p, hp, rfl⟩ := List.mem_map.1 hi
      exact hgot p hp

/-- The operation with a copy of segment `k`. -/
def Receiver.store (r : Receiver) (wide : BitVec 32) (k : Nat) (hContents : Buf) : Receiver :=
  { r.setSegmentBuf k (.copy hContents.copy) with
    receivedSegmentMask := r.receivedSegmentMask ||| shiftOne wide k }

theorem Gathered.store (h : Gathered n got r) (wide : BitVec 32) (b : Buf) (hk : k < 32)
    (hnew : k ∉ got.map Prod.fst) : Gathered n (got ++ [(k, b)]) (r.store wide k b) where
  last := h.last
  expected := h.expected
  stored := by
    intro i
    show (r.receivedSegmentMask ||| shiftOne wide k).getLsbD i = _
    rw [BitVec.getLsbD_or, h.stored, shiftOne_getLsbD hk, ← Bool.decide_or, decide_eq_decide,
      List.map_append, List.mem_append, List.map_singleton, List.mem_singleton]
  copies := by
    intro p hp
    show (if p.1 = k then _ else r.hSegmentBuf p.1) = _
    rcases List.mem_append.1 hp with hp' | hp'
    · have hne : p.1 ≠ k := by
        rintro rfl
        exact hnew (List.mem_map_of_mem hp')
      rw [if_neg hne]
      exact h.copies p hp'
    · obtain rfl := List.mem_singleton.1 hp'
      exact if_pos rfl

/-! ## The first segment -/

/-- The first segment of several is stored. -/
theorem firstSegment_several (counts : Bool) (env : ReceiveEnv) (r : Receiver) (b : Buf)
    (sequenceId : Nat) (hn : 1 < n) (hmax : n < 32)
    (hcopy : env.copy = true) (hfree : env.addUserFree = true) (htimer : env.timer = true) :
    ∃ r', firstSegment counts env r sequenceId n b = (r', true) ∧
      r'.bComplete = r.bComplete ∧ Gathered n [(0, b)] r' := by
  have hlast : (n + 2 ^ 32 - 1) % 2 ^ 32 = n - 1 := by omega
  have hlt : ¬n - 1 ≥ maxSegments := by
    unfold maxSegments
    omega
  obtain ⟨r', hr', hcomplete, hl, hexp, hrec, hbuf⟩ :
      ∃ r', firstSegment counts env r sequenceId n b = (r', true) ∧ r'.bComplete = r.bComplete ∧
        r'.lastSegmentNumber = n - 1 ∧
        r'.expectedSegmentMask = shiftOne env.wide (n - 1 + 1) - 1 ∧
        r'.receivedSegmentMask = shiftOne env.wide 0 ∧
        r'.hSegmentBuf 0 = .copy b.copy := by
    unfold firstSegment
    simp only [if_neg (show ¬n = 1 by omega), hlast, if_neg hlt, hcopy, hfree, htimer]
    exact ⟨_, rfl, rfl, rfl, rfl, rfl, rfl⟩
  rw [Nat.sub_add_cancel (by omega)] at hexp
  refine ⟨r', hr', hcomplete, by omega, ?_, ?_, ?_⟩
  · rw [hexp, lowMask_toNat hmax]
  · intro i
    rw [hrec, shiftOne_getLsbD (by omega)]
    simp
  · intro p hp
    obtain rfl := List.mem_singleton.1 hp
    exact hbuf

/-! ## Another segment -/

/-- The copies of the segments in one buffer. -/
def joined (f : Nat → Buf) (n : Nat) : Buf :=
  (((List.range' 1 (n - 1)).map fun i => (f i).copy).foldl Buf.appendBuffer (f 0).copy).resetParse

theorem joined_congr {f g : Nat → Buf} (hn : 0 < n) (h : ∀ i < n, f i = g i) :
    joined f n = joined g n := by
  have hmap : (List.range' 1 (n - 1)).map (fun i => (f i).copy) =
      (List.range' 1 (n - 1)).map fun i => (g i).copy := by
    refine List.map_congr_left fun i hi => ?_
    rw [List.mem_range'_1] at hi
    rw [h i (by omega)]
  unfold joined
  rw [hmap, h 0 hn]

theorem appendSegments_eq {bufs : Nat → SegmentBuf} {f : Nat → Buf} {i m : Nat}
    (hbufs : ∀ j, i ≤ j → j < i + m → bufs j = .copy (f j)) :
    appendSegments bufs b i m = some (((List.range' i m).map f).foldl Buf.appendBuffer b) := by
  induction m generalizing b i with
  | zero => rfl
  | succ m ih =>
    have hrest := ih (b := b.appendBuffer (f i)) (i := i + 1) fun j hj hlt =>
      hbufs j (by omega) (by omega)
    unfold appendSegments
    rw [hbufs i (Nat.le_refl i) (by omega)]
    exact hrest

/-- When every segment is there, they can be joined. -/
theorem joinSegments_eq {f : Nat → Buf} (hn : 1 ≤ n) (hlast : r.lastSegmentNumber + 1 = n)
    (hbufs : ∀ i < n, r.hSegmentBuf i = .copy (f i).copy) :
    joinSegments r = some { r with
      hContents := some (joined f n), hSegmentationTimer := false, bComplete := true } := by
  have hl : r.lastSegmentNumber = n - 1 := by omega
  have happend : appendSegments r.hSegmentBuf (f 0).copy 1 (n - 1) = some _ :=
    appendSegments_eq fun j _ hlt => hbufs j (by omega)
  unfold joinSegments
  rw [hbufs 0 hn, hl]
  simp only [happend]
  rfl

/-- A missing segment is stored. -/
theorem otherSegment_stores (h : Gathered n got r) (hk : k < n) (h32 : k < 32)
    (hnew : k ∉ got.map Prod.fst) (hcopy : env.copy = true) (hfree : env.addUserFree = true) :
    otherSegment counts env r k b =
      if (r.store env.wide k b).expectedSegmentMask =
          (r.store env.wide k b).receivedSegmentMask then
        (joinSegments (r.store env.wide k b)).map fun r => (r, true)
      else some ({ r.store env.wide k b with
        nextSegmentNumber := if counts then r.nextSegmentNumber + 1 else r.nextSegmentNumber },
        true) := by
  have hlarge : ¬(k > 31 ∨ r.expectedSegmentMask < shiftOne env.wide k) := by
    rintro (hgt | hlt)
    · omega
    · exact h.not_lt hk h32 hlt
  have hdup : ¬r.receivedSegmentMask &&& shiftOne env.wide k ≠ 0 := by
    rw [not_not, and_shiftOne h32, h.stored]
    exact decide_eq_false hnew
  unfold otherSegment
  rw [if_neg hlarge, if_neg hdup, if_neg (by simp [hcopy]), if_neg (by simp [hfree])]
  rfl

/-- **A missing segment**: with the last one the message is complete. -/
theorem otherSegment_gathers (counts : Bool) (env : ReceiveEnv) (b : Buf) (h : Gathered n got r)
    (hgot : ∀ p ∈ got, p.1 < n) (hk : k < n) (h32 : k < 32) (hnew : k ∉ got.map Prod.fst)
    (hcopy : env.copy = true) (hfree : env.addUserFree = true) :
    ∃ r', otherSegment counts env r k b = some (r', true) ∧ Gathered n (got ++ [(k, b)]) r' ∧
      if ∀ i < n, i ∈ (got ++ [(k, b)]).map Prod.fst then
        r'.bComplete = true ∧
          ∀ f : Nat → Buf, (∀ p ∈ got ++ [(k, b)], f p.1 = p.2) → r'.hContents = some (joined f n)
      else r'.bComplete = r.bComplete := by
  have hstore := h.store env.wide b h32 hnew
  have hgot' : ∀ p ∈ got ++ [(k, b)], p.1 < n := by
    intro p hp
    rcases List.mem_append.1 hp with hp | hp
    · exact hgot p hp
    · obtain rfl := List.mem_singleton.1 hp
      exact hk
  have hmasks := hstore.masks hgot'
  rw [otherSegment_stores h hk h32 hnew hcopy hfree]
  by_cases hall : ∀ i < n, i ∈ (got ++ [(k, b)]).map Prod.fst
  · rw [if_pos (hmasks.2 hall)]
    -- the contents that the buffers hold
    have hcontents : ∀ i, ∃ c : Buf, i < n → (i, c) ∈ got ++ [(k, b)] := by
      intro i
      by_cases hi : i < n
      · obtain ⟨p, hp, rfl⟩ := List.mem_map.1 (hall i hi)
        exact ⟨p.2, fun _ => hp⟩
      · exact ⟨b, fun h => absurd h hi⟩
    choose f hf using hcontents
    rw [joinSegments_eq (f := f) (by omega) hstore.last fun i hi => hstore.copies _ (hf i hi)]
    refine ⟨_, rfl, ⟨hstore.last, hstore.expected, hstore.stored, hstore.copies⟩, ?_⟩
    rw [if_pos hall]
    refine ⟨rfl, fun g hg => congrArg some ?_⟩
    exact joined_congr (by omega) fun i hi => (hg _ (hf i hi)).symm
  · have hne : ¬(r.store env.wide k b).expectedSegmentMask =
        (r.store env.wide k b).receivedSegmentMask := fun he => hall (hmasks.1 he)
    rw [if_neg hne]
    refine ⟨_, rfl, ⟨hstore.last, hstore.expected, hstore.stored, hstore.copies⟩, ?_⟩
    rw [if_neg hall]
    rfl

/-- A segment that has been stored is not taken again. -/
theorem otherSegment_had (h : Gathered n got r) (hk : k ∈ got.map Prod.fst) :
    otherSegment counts env r k b = some (r, false) := by
  unfold otherSegment
  split
  · rfl
  · rename_i hlarge
    have hdup : r.receivedSegmentMask &&& shiftOne env.wide k ≠ 0 := by
      rw [Ne, and_shiftOne (by omega), h.stored, decide_eq_true hk]
      simp
    rw [if_pos hdup]

end Mtsua
