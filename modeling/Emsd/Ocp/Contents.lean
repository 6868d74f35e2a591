import Emsd.Lib.Tape
import Emsd.Ocp.Heap

/-!
# What the buffers hold

A buffer is a list of octets with a cursor: the octets of its segments, and how many of them are in
front of the current location.

* `Heap.spec`: all strings and buffers, seen like that.
* `Heap.Valid`: segments lie in their strings, and locations in their segments.
* `spec_changed`, `spec_added`: what a call changes when it leaves the other buffers as they are.
-/

namespace Ocp

open Slice Tapes

/-- Strings, and lists of octets with a cursor. -/
structure Spec where
  chunks : List Octets
  tapes : List (Tape UInt8)

namespace BufHead

/-- The octets in front of segment number `n`. -/
def before (h : Heap) (b : BufHead) (n : Nat) : Octets := (b.segs.take n).flatMap h.octets

def octets (h : Heap) (b : BufHead) : Octets := b.segs.flatMap h.octets

/-- How many octets are in front of the current location. The head of the queue is behind all. -/
def pos (h : Heap) (b : BufHead) : Nat :=
  match b.pCurrentSeg with
  | .seg n => (b.before h n).length + (b.pX - (b.segs[n]?.map Segment.pStart).getD 0)
  | .head => (b.octets h).length
  | .elsewhere => 0

def tape (h : Heap) (b : BufHead) : Tape UInt8 := ⟨b.octets h, b.pos h⟩

end BufHead

def Heap.spec (h : Heap) : Spec := ⟨h.chunks, h.bufs.map (·.tape h)⟩

/-! ## Valid buffers -/

/-- The string is there. -/
def StringRef.In (h : Heap) : StringRef → Prop
  | .chunk n => n < h.chunks.length
  | .area n => n < h.areas.length

/-- A segment lies in its string. -/
structure Segment.Valid (h : Heap) (seg : Segment) : Prop where
  string : seg.string.In h
  le : seg.pStart ≤ seg.pEnd
  pEnd : seg.pEnd ≤ (h.data seg.string).length

structure BufHead.Valid (h : Heap) (b : BufHead) : Prop where
  segs : ∀ seg ∈ b.segs, seg.Valid h
  current : ∀ n, b.pCurrentSeg = .seg n →
    ∃ seg, b.segs[n]? = some seg ∧ seg.pStart ≤ b.pX ∧ b.pX ≤ seg.pEnd
  elsewhere : b.pCurrentSeg = .elsewhere → b.segs = []

structure Heap.Valid (h : Heap) : Prop where
  bufs : ∀ b ∈ h.bufs, b.Valid h
  size : ∀ r, (h.data r).length < 2 ^ 16

variable {h h' : Heap} {b b' : BufHead} {seg : Segment} {n hBuf : Nat} {r : StringRef}

theorem Segment.Valid.length (hv : seg.Valid h) : (h.octets seg).length = seg.pEnd - seg.pStart :=
  slice_length hv.pEnd

theorem Segment.Valid.octets_nil (hv : seg.Valid h) : h.octets seg = [] ↔ seg.pStart = seg.pEnd := by
  have hle := hv.le
  rw [← List.length_eq_zero_iff, hv.length]
  omega

/-- The segments of the buffer, and what is in them, are still there. -/
def Keeps (h h' : Heap) (b : BufHead) : Prop :=
  ∀ seg ∈ b.segs, seg.Valid h' ∧ h'.octets seg = h.octets seg

theorem flatMap_congr {f g : Segment → Octets} {l : List Segment} (hfg : ∀ s ∈ l, f s = g s) :
    l.flatMap f = l.flatMap g := by
  rw [List.flatMap_def, List.flatMap_def, List.map_congr_left hfg]

theorem Keeps.octets (hk : Keeps h h' b) : b.octets h' = b.octets h :=
  flatMap_congr fun s hs => (hk s hs).2

theorem Keeps.before (hk : Keeps h h' b) (n : Nat) : b.before h' n = b.before h n :=
  flatMap_congr fun s hs => (hk s (List.mem_of_mem_take hs)).2

theorem Keeps.tape (hk : Keeps h h' b) : b.tape h' = b.tape h := by
  unfold BufHead.tape BufHead.pos
  rw [hk.octets]
  cases b.pCurrentSeg with
  | seg n =>
    dsimp only
    rw [hk.before]
  | head => rfl
  | elsewhere => rfl

theorem Keeps.valid (hk : Keeps h h' b) (hv : b.Valid h) : b.Valid h' :=
  ⟨fun s hs => (hk s hs).1, hv.current, hv.elsewhere⟩

/-! ## What a call changes -/

/-- **One buffer changes**, the others are kept. -/
theorem spec_changed (hv : h.Valid) (hk : ∀ b ∈ h.bufs, Keeps h h' b)
    (hbufs : h'.bufs = h.bufs.set hBuf b') (hsize : ∀ r, (h'.data r).length < 2 ^ 16)
    (hv' : b'.Valid h') :
    h'.Valid ∧ h'.spec = ⟨h'.chunks, h.spec.tapes.set hBuf (b'.tape h')⟩ := by
  refine ⟨⟨fun b hb => ?_, hsize⟩, ?_⟩
  · rw [hbufs] at hb
    rcases List.mem_or_eq_of_mem_set hb with hb | rfl
    · exact (hk b hb).valid (hv.bufs b hb)
    · exact hv'
  · unfold Heap.spec
    rw [hbufs, List.map_set]
    congr 2
    exact List.map_congr_left fun b hb => (hk b hb).tape

/-- **One buffer is added**. -/
theorem spec_added (hv : h.Valid) (hk : ∀ b ∈ h.bufs, Keeps h h' b)
    (hbufs : h'.bufs = h.bufs ++ [b']) (hsize : ∀ r, (h'.data r).length < 2 ^ 16)
    (hv' : b'.Valid h') :
    h'.Valid ∧ h'.spec = ⟨h'.chunks, h.spec.tapes ++ [b'.tape h']⟩ := by
  refine ⟨⟨fun b hb => ?_, hsize⟩, ?_⟩
  · rw [hbufs] at hb
    rcases List.mem_append.1 hb with hb | hb
    · exact (hk b hb).valid (hv.bufs b hb)
    · obtain rfl := List.mem_singleton.1 hb
      exact hv'
  · unfold Heap.spec
    rw [hbufs, List.map_append]
    congr 2
    exact List.map_congr_left fun b hb => (hk b hb).tape

/-- The strings do not depend on the buffers. -/
theorem keeps_of_data {l : List BufHead} (hv : h.Valid) :
    ∀ b ∈ h.bufs, Keeps h { h with bufs := l } b := fun b hb s hs =>
  ⟨⟨((hv.bufs b hb).segs s hs).string, ((hv.bufs b hb).segs s hs).le,
    ((hv.bufs b hb).segs s hs).pEnd⟩, rfl⟩

/-- A string that is added leaves the others alone. -/
structure Adds (h h' : Heap) : Prop where
  chunks : ∃ l, h'.chunks = h.chunks ++ l
  areas : ∃ l, h'.areas = h.areas ++ l

theorem Adds.refl (h : Heap) : Adds h h := ⟨⟨[], by simp⟩, [], by simp⟩

theorem Adds.trans {h'' : Heap} (h₁ : Adds h h') (h₂ : Adds h' h'') : Adds h h'' := by
  obtain ⟨⟨l, hl⟩, l', hl'⟩ := h₁
  obtain ⟨⟨m, hm⟩, m', hm'⟩ := h₂
  exact ⟨⟨l ++ m, by rw [hm, hl, List.append_assoc]⟩, l' ++ m', by rw [hm', hl', List.append_assoc]⟩

theorem Adds.data (ha : Adds h h') (hr : r.In h) : h'.data r = h.data r := by
  obtain ⟨⟨l, hl⟩, l', hl'⟩ := ha
  cases r with
  | chunk n =>
    show h'.chunks[n]?.getD [] = h.chunks[n]?.getD []
    rw [hl, List.getElem?_append_left hr]
  | area n =>
    show h'.areas[n]?.getD [] = h.areas[n]?.getD []
    rw [hl', List.getElem?_append_left hr]

theorem Adds.in (ha : Adds h h') (hr : r.In h) : r.In h' := by
  obtain ⟨⟨l, hl⟩, l', hl'⟩ := ha
  cases r with
  | chunk n =>
    unfold StringRef.In at hr ⊢
    rw [hl, List.length_append]
    omega
  | area n =>
    unfold StringRef.In at hr ⊢
    rw [hl', List.length_append]
    omega

theorem Adds.octets (ha : Adds h h') (hv : seg.Valid h) : h'.octets seg = h.octets seg := by
  unfold Heap.octets
  rw [ha.data hv.string]

theorem Adds.valid (ha : Adds h h') (hv : seg.Valid h) : seg.Valid h' :=
  ⟨ha.in hv.string, hv.le, (ha.data hv.string).symm ▸ hv.pEnd⟩

theorem Adds.keeps (ha : Adds h h') (hv : b.Valid h) : Keeps h h' b := fun s hs =>
  ⟨ha.valid (hv.segs s hs), ha.octets (hv.segs s hs)⟩

/-! ## The current segment -/

theorem BufHead.Valid.seg_valid (hv : b.Valid h) (hseg : b.segs[n]? = some seg) : seg.Valid h :=
  hv.segs seg (List.mem_of_getElem? hseg)

theorem octets_before_succ (hseg : b.segs[n]? = some seg) :
    b.before h (n + 1) = b.before h n ++ h.octets seg := by
  unfold BufHead.before
  rw [List.take_add_one, hseg]
  simp

/-- All octets, around those of segment number `n`. -/
theorem octets_split (hseg : b.segs[n]? = some seg) :
    b.octets h = b.before h n ++ (h.octets seg ++ (b.segs.drop (n + 1)).flatMap h.octets) := by
  obtain ⟨hlt, rfl⟩ := List.getElem?_eq_some_iff.1 hseg
  unfold BufHead.octets BufHead.before
  conv_lhs => rw [← List.take_append_drop n b.segs, List.drop_eq_getElem_cons hlt]
  rw [List.flatMap_append, List.flatMap_cons]

theorem pos_seg (hcur : b.pCurrentSeg = .seg n) (hseg : b.segs[n]? = some seg) :
    b.pos h = (b.before h n).length + (b.pX - seg.pStart) := by
  unfold BufHead.pos
  rw [hcur]
  dsimp only
  rw [hseg]
  rfl

/-- What is left behind the current location. -/
theorem drop_pos (hv : b.Valid h) (hcur : b.pCurrentSeg = .seg n) (hseg : b.segs[n]? = some seg) :
    (b.octets h).drop (b.pos h) =
      slice (h.data seg.string) b.pX seg.pEnd ++ (b.segs.drop (n + 1)).flatMap h.octets := by
  obtain ⟨seg', hseg', hle, hle'⟩ := hv.current n hcur
  obtain rfl : seg = seg' := Option.some.inj (hseg.symm.trans hseg')
  have hlen := (hv.seg_valid hseg).length
  rw [pos_seg hcur hseg, octets_split hseg, List.drop_append, List.drop_of_length_le (by omega),
    List.nil_append, Nat.add_sub_cancel_left, List.drop_append_of_le_length (by omega)]
  congr 1
  unfold Heap.octets
  rw [slice_drop, Nat.add_sub_cancel' hle]

theorem current_eq (hcur : b.pCurrentSeg = .seg n) (hseg : b.segs[n]? = some seg) :
    b.current = some (n, seg) := by
  unfold BufHead.current
  rw [hcur]
  dsimp only
  rw [hseg]
  rfl

theorem current_cases (h : b.current = some (n, seg)) :
    b.pCurrentSeg = .seg n ∧ b.segs[n]? = some seg := by
  unfold BufHead.current at h
  cases hcur : b.pCurrentSeg with
  | seg m =>
    rw [hcur] at h
    obtain ⟨seg', hseg, heq⟩ := Option.map_eq_some_iff.1 h
    cases heq
    exact ⟨rfl, hseg⟩
  | head => rw [hcur] at h; cases h
  | elsewhere => rw [hcur] at h; cases h

/-- A reset location is the beginning. -/
theorem resetParse_tape (hv : ∀ seg ∈ b.segs, seg.Valid h) :
    b.resetParse.Valid h ∧ b.resetParse.tape h = ⟨b.octets h, 0⟩ := by
  obtain ⟨segs, pCurrentSeg, pX⟩ := b
  cases segs with
  | nil => exact ⟨⟨hv, fun n hn => (by cases hn), fun hn => by cases hn⟩, rfl⟩
  | cons seg segs =>
    refine ⟨⟨hv, fun n hn => ?_, fun hn => by cases hn⟩, ?_⟩
    · cases hn
      exact ⟨seg, rfl, Nat.le_refl _, (hv seg List.mem_cons_self).le⟩
    · simp [BufHead.resetParse, BufHead.tape, BufHead.pos, BufHead.before, BufHead.octets]

end Ocp
