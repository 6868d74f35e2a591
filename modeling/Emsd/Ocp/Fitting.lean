import Emsd.Ocp.Contents

/-!
# What the calls are to do, and when they do it

* `Spec.Step`: what each call is to do on lists of octets with a cursor.
* `Fits`: the calls that do it. The octet that is read is not at an empty segment behind the current
  one, the location has not been left at the head of the queue, octets are put in front of the first
  segment, at a place that is part of no other, and a buffer is cloned as a whole from its beginning.
* `Refined`: a call has a result, and it is what it is to be. Strings and new buffers are.
-/

namespace Ocp

open Slice Tapes

namespace Spec

def set (s : Spec) (n : Nat) (t : Tape UInt8) : Spec := { s with tapes := s.tapes.set n t }

def add (s : Spec) (t : Tape UInt8) : Spec := { s with tapes := s.tapes ++ [t] }

/-- Where a portion of a buffer begins. -/
def start (t : Tape UInt8) (len : Nat) : Nat := if len = bufEntire then 0 else t.pos

/-- The octets of a portion. -/
def portion (t : Tape UInt8) (len : Nat) : Octets := (t.items.drop (start t len)).take len

/-- **What the calls are to do**, on lists of octets with a cursor. -/
inductive Step (s : Spec) : BufOp → BufOut → Spec → Prop
  | string {chunk : Chunk} :
    Step s (.string chunk) (.handle s.chunks.length) { s with chunks := s.chunks ++ [chunk.val] }
  | alloc {minSize : UInt16} : Step s (.alloc minSize) (.handle s.tapes.length) (s.add ⟨[], 0⟩)
  | addOctet {n : Nat} {t : Tape UInt8} {x : UInt8} : s.tapes[n]? = some t →
    Step s (.addOctet n x) .done (s.set n ⟨x :: t.items, 0⟩)
  | prependChunk {n m : Nat} {t : Tape UInt8} {c : Octets} : s.tapes[n]? = some t →
    s.chunks[m]? = some c → Step s (.prependChunk n m) .done (s.set n ⟨c ++ t.items, 0⟩)
  | appendChunk {n m : Nat} {t : Tape UInt8} {c : Octets} : s.tapes[n]? = some t →
    s.chunks[m]? = some c →
    Step s (.appendChunk n m) .done (s.set n ⟨t.items ++ c, t.items.length⟩)
  | appendBuffer {n m : Nat} {t t' : Tape UInt8} : n ≠ m → s.tapes[n]? = some t →
    s.tapes[m]? = some t' → Step s (.appendBuffer n m) .done
      ((s.set n ⟨t.items ++ t'.items, (t.items ++ t'.items).length⟩).set m ⟨[], 0⟩)
  | copy {n : Nat} {t : Tape UInt8} : s.tapes[n]? = some t →
    Step s (.copy n) (.handle s.tapes.length) (s.add t.reset)
  | cloneBufferPortion {n : Nat} {t : Tape UInt8} {len : UInt32} {strip : Bool} :
    s.tapes[n]? = some t →
    Step s (.cloneBufferPortion n len strip) (.handle s.tapes.length)
      ((s.set n (if strip then ⟨t.items, start t len.toNat + (portion t len.toNat).length⟩ else t)).add
        ⟨portion t len.toNat, 0⟩)
  | resetParse {n : Nat} {t : Tape UInt8} : s.tapes[n]? = some t →
    Step s (.resetParse n) .done (s.set n t.reset)
  | getOctet {n : Nat} {t : Tape UInt8} {x : UInt8} : s.tapes[n]? = some t → t.get.1 = some x →
    Step s (.getOctet n) (.octet x) (s.set n t.get.2)
  | noOctet {n : Nat} {t : Tape UInt8} : s.tapes[n]? = some t → t.get.1 = none →
    Step s (.getOctet n) .exhausted s
  | ungetOctet {n : Nat} {t : Tape UInt8} : s.tapes[n]? = some t → 0 < t.pos →
    Step s (.ungetOctet n) .done (s.set n t.unget)
  | getChunk {n m : Nat} {len : UInt16} {t : Tape UInt8} : s.tapes[n]? = some t → 0 < m →
    (len ≠ 0 → m ≤ len.toNat) → m ≤ t.rest.length →
    Step s (.getChunk n len) (.chunk (t.rest.take m)) (s.set n (t.skip m))
  | noChunk {n : Nat} {len : UInt16} {t : Tape UInt8} : s.tapes[n]? = some t → t.rest = [] →
    Step s (.getChunk n len) .exhausted s
  | getBufferLength {n : Nat} {t : Tape UInt8} : s.tapes[n]? = some t →
    Step s (.getBufferLength n) (.length t.items.length) s

end Spec

namespace Heap

/-- The segments in front of number `n` have no octets. -/
def NoneBefore (b : BufHead) (n : Nat) : Prop := ∀ seg ∈ b.segs.take n, seg.pStart = seg.pEnd

/-- The octet in front of the segment is in its string, and part of no segment. -/
def Alone (h : Heap) (seg : Segment) : Prop := ∀ b ∈ h.bufs, ∀ seg' ∈ b.segs,
  seg'.string = seg.string → ¬(seg'.pStart < seg.pStart ∧ seg.pStart ≤ seg'.pEnd)

/-- An octet can be put in front of the buffer: there is no space in front of the current segment, so
that a new one is made, or the current location is in front of everything. -/
def CanAdd (h : Heap) (b : BufHead) : Prop := ∃ n seg, b.current = some (n, seg) ∧
  (seg.pStart = 0 ∨ (b.pX = seg.pStart ∧ NoneBefore b n ∧ (∃ k, seg.string = .area k) ∧ h.Alone seg))

/-- The current location is in a segment, and there is an octet or nothing behind it. -/
def CanGet (b : BufHead) : Prop := ∃ n seg, b.current = some (n, seg) ∧
  (b.pX = seg.pEnd → ∀ next, b.segs[n + 1]? = some next → next.pStart < next.pEnd)

/-- There is an octet in front of the current location, in its segment or at the end of the one before. -/
def CanUnget (b : BufHead) : Prop :=
  (∃ n seg, b.current = some (n, seg) ∧ b.pX ≠ seg.pStart) ∨
  (∃ n seg seg', b.current = some (n + 1, seg) ∧ b.segs[n]? = some seg' ∧ seg'.pStart < seg'.pEnd) ∨
  (b.pCurrentSeg = .head ∧ ∃ seg, b.segs.getLast? = some seg ∧ seg.pStart < seg.pEnd)

/-- The buffer has not been appended to another one; as a whole it is cloned from the beginning of its
current segment, or with its location moved along. -/
def CanClone (b : BufHead) (len : Nat) (strip : Bool) : Prop :=
  if len = bufEntire then
    strip = false → ∀ n seg, b.current = some (n, seg) → b.pX = seg.pStart ∨ NoneBefore b n
  else b.pCurrentSeg = .elsewhere → len = 0

/-- **The calls that do what they are to do.** -/
def Fits (h : Heap) : BufOp → Prop
  | .string _ | .alloc _ => True
  | .addOctet hBuf _ => ∃ b, h.bufs[hBuf]? = some b ∧ h.CanAdd b
  | .prependChunk hBuf string | .appendChunk hBuf string =>
    hBuf < h.bufs.length ∧ string < h.chunks.length
  | .appendBuffer hBuf hAppendThisBuf => hBuf ≠ hAppendThisBuf ∧ ∃ b b', h.bufs[hBuf]? = some b ∧
    h.bufs[hAppendThisBuf]? = some b' ∧ (b.segs ≠ [] ∨ b'.segs ≠ [])
  | .copy hBufSrc => ∃ b, h.bufs[hBufSrc]? = some b ∧
    ∀ seg ∈ b.segs, seg.pEnd - seg.pStart ≠ strZString
  | .cloneBufferPortion hBuf len bStripClonedPortion => ∃ b, h.bufs[hBuf]? = some b ∧
    CanClone b len.toNat bStripClonedPortion
  | .resetParse hBuf => hBuf < h.bufs.length
  | .getOctet hBuf => ∃ b, h.bufs[hBuf]? = some b ∧ CanGet b
  | .ungetOctet hBuf => ∃ b, h.bufs[hBuf]? = some b ∧ CanUnget b
  | .getChunk hBuf _ => ∃ b n, h.bufs[hBuf]? = some b ∧ b.pCurrentSeg = .seg n
  | .getBufferLength hBuf => ∃ b, h.bufs[hBuf]? = some b ∧
    (b.segs.map fun seg => seg.pEnd - seg.pStart).sum < 2 ^ 32

end Heap

open Heap

variable {h h' : Heap} {b b' : BufHead} {seg : Segment} {n hBuf : Nat} {r r' : StringRef}

theorem spec_get (hb : h.bufs[hBuf]? = some b) : h.spec.tapes[hBuf]? = some (b.tape h) := by
  unfold Heap.spec
  rw [List.getElem?_map, hb]
  rfl

theorem mem_of_get (hb : h.bufs[hBuf]? = some b) : b ∈ h.bufs := List.mem_of_getElem? hb

/-- What a call of one buffer, in which no string changes, does to all of them. -/
theorem setBuf_spec (hBuf : Nat) (hv : h.Valid) (hv' : b'.Valid h) :
    (h.setBuf hBuf b').Valid ∧ (h.setBuf hBuf b').spec = h.spec.set hBuf (b'.tape h) := by
  have hk : ∀ b ∈ h.bufs, Keeps h (h.setBuf hBuf b') b := keeps_of_data hv
  have hkeeps' : Keeps h (h.setBuf hBuf b') b' := fun s hs =>
    ⟨⟨(hv'.segs s hs).string, (hv'.segs s hs).le, (hv'.segs s hs).pEnd⟩, rfl⟩
  obtain ⟨hvalid, hspec⟩ := spec_changed hv hk rfl hv.size
    (hkeeps'.valid hv')
  refine ⟨hvalid, ?_⟩
  rw [hspec, hkeeps'.tape]
  rfl

theorem newBuf_spec (hv : h.Valid) (hv' : b'.Valid h) :
    (h.newBuf b').Valid ∧ (h.newBuf b').spec = h.spec.add (b'.tape h) := by
  have hk : ∀ b ∈ h.bufs, Keeps h (h.newBuf b') b := keeps_of_data hv
  have hkeeps' : Keeps h (h.newBuf b') b' := fun s hs =>
    ⟨⟨(hv'.segs s hs).string, (hv'.segs s hs).le, (hv'.segs s hs).pEnd⟩, rfl⟩
  obtain ⟨hvalid, hspec⟩ := spec_added hv hk rfl hv.size (hkeeps'.valid hv')
  refine ⟨hvalid, ?_⟩
  rw [hspec, hkeeps'.tape]
  rfl

theorem spec_set_self {t : Tape UInt8} (ht : h.spec.tapes[hBuf]? = some t) :
    h.spec.set hBuf t = h.spec := by
  obtain ⟨hlt, rfl⟩ := List.getElem?_eq_some_iff.1 ht
  unfold Spec.set
  rw [List.set_getElem_self]

/-- What is proved of each call. -/
def Refined (h : Heap) (op : BufOp) : Prop :=
  ∃ h' out, h.call op = some (h', out) ∧ h'.Valid ∧ Spec.Step h.spec op out h'.spec

/-! ## Strings and new segments -/

theorem string_refined (chunk : Chunk) (hv : h.Valid) : Refined h (.string chunk) := by
  refine ⟨_, _, rfl, ?_⟩
  have ha : Adds h { h with chunks := h.chunks ++ [chunk.val] } := ⟨⟨_, rfl⟩, [], by simp⟩
  have hsize : ∀ r, (Heap.data { h with chunks := h.chunks ++ [chunk.val] } r).length < 2 ^ 16 := by
    intro r
    cases r with
    | area n => exact hv.size (.area n)
    | chunk n =>
      show ((h.chunks ++ [chunk.val])[n]?.getD []).length < 2 ^ 16
      have hold := hv.size (.chunk n)
      rcases Nat.lt_trichotomy n h.chunks.length with hlt | heq | hgt
      · rw [List.getElem?_append_left hlt]
        exact hold
      · rw [heq, List.getElem?_concat_length]
        exact lt_trans chunk.property (by decide)
      · rw [List.getElem?_eq_none (by simp; omega)]
        exact Nat.two_pow_pos 16
  have hk := fun b hb => ha.keeps (hv.bufs b hb)
  refine ⟨⟨fun b hb => (hk b hb).valid (hv.bufs b hb), hsize⟩, ?_⟩
  have hspec : Heap.spec { h with chunks := h.chunks ++ [chunk.val] } =
      { h.spec with chunks := h.spec.chunks ++ [chunk.val] } := by
    unfold Heap.spec
    congr 1
    exact List.map_congr_left fun b hb => (hk b hb).tape
  rw [hspec]
  exact .string

/-- A data area of its own. -/
def Heap.addArea (h : Heap) (octets : Octets) : Heap := { h with areas := h.areas ++ [octets] }

theorem addArea_adds (octets : Octets) : Adds h (h.addArea octets) := ⟨⟨[], by simp [addArea]⟩, _, rfl⟩

theorem addArea_data (octets : Octets) :
    (h.addArea octets).data (.area h.areas.length) = octets := by
  show (h.areas ++ [octets])[h.areas.length]?.getD [] = octets
  rw [List.getElem?_concat_length]
  rfl

theorem addArea_size (hv : h.Valid) {octets : Octets} (hlen : octets.length < 2 ^ 16) (r : StringRef) :
    ((h.addArea octets).data r).length < 2 ^ 16 := by
  cases r with
  | chunk n => exact hv.size (.chunk n)
  | area n =>
    have hold := hv.size (.area n)
    show ((h.areas ++ [octets])[n]?.getD []).length < 2 ^ 16
    rcases Nat.lt_trichotomy n h.areas.length with hlt | heq | hgt
    · rw [List.getElem?_append_left hlt]
      exact hold
    · rw [heq, List.getElem?_concat_length]
      exact hlen
    · rw [List.getElem?_eq_none (by simp; omega)]
      exact Nat.two_pow_pos 16

/-- The buffers do not see a new data area. -/
theorem addArea_spec (hv : h.Valid) {octets : Octets} (hlen : octets.length < 2 ^ 16) :
    (h.addArea octets).Valid ∧ (h.addArea octets).spec = h.spec := by
  have hk := fun b hb => (addArea_adds (h := h) octets).keeps (hv.bufs b hb)
  refine ⟨⟨fun b hb => (hk b hb).valid (hv.bufs b hb), addArea_size hv hlen⟩, ?_⟩
  unfold Heap.spec
  congr 1
  exact List.map_congr_left fun b hb => (hk b hb).tape

theorem addArea_segment (octets : Octets) {pStart pEnd : Nat} (hle : pStart ≤ pEnd)
    (hend : pEnd ≤ octets.length) :
    Segment.Valid (h.addArea octets) ⟨.area h.areas.length, pStart, pEnd⟩ := by
  refine ⟨?_, hle, ?_⟩
  · show h.areas.length < (h.areas ++ [octets]).length
    rw [List.length_append]
    exact Nat.lt_succ_self _
  · rw [addArea_data]
    exact hend

/-- A buffer of one segment without octets. -/
theorem single_tape (hv : seg.Valid h) (hnil : seg.pStart = seg.pEnd) :
    BufHead.Valid h ⟨[seg], .seg 0, seg.pEnd⟩ ∧ BufHead.tape h ⟨[seg], .seg 0, seg.pEnd⟩ = ⟨[], 0⟩ := by
  refine ⟨⟨fun s hs => ?_, fun n hn => ?_, fun hn => by cases hn⟩, ?_⟩
  · obtain rfl := List.mem_singleton.1 hs
    exact hv
  · cases hn
    exact ⟨seg, rfl, le_of_eq hnil, Nat.le_refl _⟩
  · have hoctets := hv.octets_nil.2 hnil
    unfold BufHead.tape BufHead.pos BufHead.before BufHead.octets
    simp [hoctets, hnil]

theorem alloc_refined (minSize : UInt16) (hv : h.Valid) : Refined h (.alloc minSize) := by
  refine ⟨_, _, rfl, ?_⟩
  have hlen : (List.replicate minSize.toNat (0 : UInt8)).length < 2 ^ 16 := by
    rw [List.length_replicate]
    exact minSize.toNat_lt
  obtain ⟨hv₁, hspec₁⟩ := addArea_spec hv hlen
  have hseg : Segment.Valid (h.addArea (List.replicate minSize.toNat 0))
      ⟨.area h.areas.length, minSize.toNat, minSize.toNat⟩ :=
    addArea_segment _ (Nat.le_refl _) (by rw [List.length_replicate])
  obtain ⟨hvb, htape⟩ := single_tape hseg rfl
  obtain ⟨hv', hspec'⟩ := newBuf_spec hv₁ hvb
  rw [htape, hspec₁] at hspec'
  refine ⟨hv', ?_⟩
  have hlen : h.bufs.length = h.spec.tapes.length := (List.length_map _).symm
  rw [hlen, show (h.alloc minSize.toNat).spec = h.spec.add ⟨[], 0⟩ from hspec']
  exact .alloc

end Ocp
