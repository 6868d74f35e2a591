import Emsd.Ocp.Fitting

/-!
# The cursor

Reading octets, putting them back and reading chunks move the location as the cursor of a list.

* `findChunk_cases`: the loop of `BUF_getChunk` passes over segments without octets.
-/

namespace Ocp

open Slice Tapes

open Heap

variable {h h' : Heap} {b b' : BufHead} {seg : Segment} {n hBuf : Nat} {r r' : StringRef}

/-! ## Reading -/

theorem resetParse_refined (hv : h.Valid) (hf : Fits h (.resetParse hBuf)) :
    Refined h (.resetParse hBuf) := by
  obtain ⟨b, hb⟩ : ∃ b, h.bufs[hBuf]? = some b := ⟨_, List.getElem?_eq_getElem hf⟩
  obtain ⟨hvb, htape⟩ := resetParse_tape (hv.bufs b (mem_of_get hb)).segs
  obtain ⟨hv', hspec⟩ := setBuf_spec hBuf hv hvb
  refine ⟨h.setBuf hBuf b.resetParse, .done, by simp [call, hb], hv', ?_⟩
  rw [hspec, htape]
  exact .resetParse (t := b.tape h) (spec_get hb)

/-- The location is moved inside a segment. -/
theorem move_tape (hv : b.Valid h) {x : Nat} (hseg : b.segs[n]? = some seg) (hle : seg.pStart ≤ x)
    (hle' : x ≤ seg.pEnd) :
    BufHead.Valid h { b with pCurrentSeg := .seg n, pX := x } ∧
      BufHead.tape h { b with pCurrentSeg := .seg n, pX := x } =
        ⟨b.octets h, (b.before h n).length + (x - seg.pStart)⟩ := by
  refine ⟨⟨hv.segs, fun m hm => ?_, fun hn => by cases hn⟩, ?_⟩
  · cases hm
    exact ⟨seg, hseg, hle, hle'⟩
  · unfold BufHead.tape
    congr 1
    exact pos_seg rfl hseg

theorem octetAt_valid (hv : seg.Valid h) {x : Nat} (hlt : x < seg.pEnd) :
    ∃ octet, h.octetAt seg x = some octet ∧ (h.data seg.string)[x]? = some octet := by
  have hx : x < (h.data seg.string).length := lt_of_lt_of_le hlt hv.pEnd
  refine ⟨_, ?_, List.getElem?_eq_getElem hx⟩
  unfold octetAt
  rw [if_pos hlt, List.getElem?_eq_getElem hx]

/-- An element that is there is got. -/
theorem tape_get {t : Tape UInt8} {x : UInt8} {l : Octets} (h : t.items.drop t.pos = x :: l) :
    t.get = (some x, ⟨t.items, t.pos + 1⟩) := by
  have hx : t.items[t.pos]? = some x := by
    have h0 := congrArg (·[0]?) h
    simpa [List.getElem?_drop] using h0
  unfold Tape.get
  rw [hx]

theorem tape_get_none {t : Tape UInt8} (h : t.items.drop t.pos = []) : t.get.1 = none := by
  unfold Tape.get
  rw [List.getElem?_eq_none (List.drop_eq_nil_iff.1 h)]

theorem getOctet_refined (hv : h.Valid) (hf : Fits h (.getOctet hBuf)) :
    Refined h (.getOctet hBuf) := by
  obtain ⟨b, hb, n, seg, hcurrent, hnext⟩ := hf
  obtain ⟨hcur, hseg⟩ := current_cases hcurrent
  have hvb := hv.bufs b (mem_of_get hb)
  obtain ⟨seg', hseg', hle, hle'⟩ := hvb.current n hcur
  obtain rfl : seg = seg' := Option.some.inj (hseg.symm.trans hseg')
  have hdrop := drop_pos hvb hcur hseg
  have hpos := pos_seg (h := h) hcur hseg
  by_cases hend : b.pX = seg.pEnd
  · rw [hend, slice_self, List.nil_append] at hdrop
    cases hs : b.segs[n + 1]? with
    | none =>
      -- the end of the last segment
      rw [List.drop_of_length_le (List.getElem?_eq_none_iff.1 hs)] at hdrop
      refine ⟨h, .exhausted, ?_, hv, .noOctet (spec_get hb) (tape_get_none hdrop)⟩
      simp [call, hb, Heap.getOctet, hcurrent, hend, hs]
    | some next =>
      -- the first octet of the next segment
      have hvn := hvb.seg_valid hs
      have hlt := hnext hend next hs
      obtain ⟨octet, hoctet, hdata⟩ := octetAt_valid hvn hlt
      obtain ⟨hmoved, htape⟩ := move_tape hvb hs (Nat.le_succ next.pStart) hlt
      obtain ⟨hv', hspec⟩ := setBuf_spec hBuf hv hmoved
      obtain ⟨hlen, hget⟩ := List.getElem?_eq_some_iff.1 hs
      have hlist : (b.octets h).drop (b.pos h) =
          octet :: (slice (h.data next.string) (next.pStart + 1) next.pEnd ++
            (b.segs.drop (n + 1 + 1)).flatMap h.octets) := by
        rw [hdrop, List.drop_eq_getElem_cons hlen, hget, List.flatMap_cons]
        unfold Heap.octets
        rw [slice_cons hlt hdata]
        rfl
      have htget := tape_get (t := b.tape h) hlist
      refine ⟨h.setBuf hBuf { b with pCurrentSeg := .seg (n + 1), pX := next.pStart + 1 }, .octet octet,
        ?_, hv', ?_⟩
      · simp [call, hb, Heap.getOctet, hcurrent, hend, hs, hoctet]
      · have hstep := Spec.Step.getOctet (spec_get hb) (congrArg Prod.fst htget)
        have heq : (b.tape h).get.2 =
            BufHead.tape h { b with pCurrentSeg := .seg (n + 1), pX := next.pStart + 1 } := by
          have hsegLen := (hvb.seg_valid hseg).length
          rw [htget, htape, octets_before_succ hseg]
          show (⟨b.octets h, b.pos h + 1⟩ : Tape UInt8) = _
          rw [hpos, List.length_append]
          congr 1
          omega
        rw [hspec, ← heq]
        exact hstep
  · have hlt : b.pX < seg.pEnd := by omega
    obtain ⟨octet, hoctet, hdata⟩ := octetAt_valid (hvb.seg_valid hseg) hlt
    obtain ⟨hmoved, htape⟩ := move_tape hvb hseg (x := b.pX + 1) (by omega) hlt
    rw [← hcur] at hmoved htape
    obtain ⟨hv', hspec⟩ := setBuf_spec hBuf hv hmoved
    have htget := tape_get (t := b.tape h) (x := octet) (by
      show (b.octets h).drop (b.pos h) = _
      rw [hdrop, slice_cons hlt hdata]
      rfl)
    refine ⟨h.setBuf hBuf { b with pX := b.pX + 1 }, .octet octet, ?_, hv', ?_⟩
    · simp [call, hb, Heap.getOctet, hcurrent, hend, hoctet]
    · have hstep := Spec.Step.getOctet (spec_get hb) (congrArg Prod.fst htget)
      have heq : (b.tape h).get.2 = BufHead.tape h { b with pX := b.pX + 1 } := by
        rw [htget, htape]
        show (⟨b.octets h, b.pos h + 1⟩ : Tape UInt8) = _
        rw [hpos]
        congr 1
        omega
      rw [hspec, ← heq]
      exact hstep

/-- The location goes back by an octet, in its segment or to the end of another one. -/
theorem back_refined (hv : h.Valid) (hb : h.bufs[hBuf]? = some b) (hseg : b.segs[n]? = some seg)
    {x : Nat} (hle : seg.pStart ≤ x) (hlt : x < seg.pEnd)
    (hpos : b.pos h = (b.before h n).length + (x - seg.pStart) + 1)
    (hcall : h.ungetOctet hBuf b = some (h.setBuf hBuf { b with pCurrentSeg := .seg n, pX := x })) :
    Refined h (.ungetOctet hBuf) := by
  obtain ⟨hmoved, htape⟩ := move_tape (hv.bufs b (mem_of_get hb)) hseg hle (le_of_lt hlt)
  obtain ⟨hv', hspec⟩ := setBuf_spec hBuf hv hmoved
  refine ⟨_, .done, by simp [call, hb, hcall], hv', ?_⟩
  have hstep := Spec.Step.ungetOctet (spec_get hb) (show 0 < (b.tape h).pos by
    show 0 < b.pos h
    omega)
  have heq : (b.tape h).unget = BufHead.tape h { b with pCurrentSeg := .seg n, pX := x } := by
    rw [htape]
    show (⟨b.octets h, b.pos h - 1⟩ : Tape UInt8) = _
    rw [hpos]
    rfl
  rw [hspec, ← heq]
  exact hstep

theorem backInto_eq (hseg : b.segs[n]? = some seg) (hlt : seg.pStart < seg.pEnd) :
    backInto b n = some { b with pCurrentSeg := .seg n, pX := seg.pEnd - 1 } := by
  unfold backInto
  rw [hseg]
  dsimp only
  rw [if_pos hlt]

theorem ungetOctet_refined (hv : h.Valid) (hf : Fits h (.ungetOctet hBuf)) :
    Refined h (.ungetOctet hBuf) := by
  obtain ⟨b, hb, hf⟩ := hf
  have hvb := hv.bufs b (mem_of_get hb)
  rcases hf with ⟨n, seg, hcurrent, hx⟩ | ⟨n, seg, prev, hcurrent, hprev, hlt⟩ | ⟨hhead, seg, hlast, hlt⟩
  · -- in the current segment
    obtain ⟨hcur, hseg⟩ := current_cases hcurrent
    obtain ⟨seg', hseg', hle, hle'⟩ := hvb.current n hcur
    obtain rfl : seg = seg' := Option.some.inj (hseg.symm.trans hseg')
    have hpos := pos_seg (h := h) hcur hseg
    apply back_refined (x := b.pX - 1) hv hb hseg (by omega) (by omega) (by omega)
    simp [Heap.ungetOctet, hcur, hseg, hx]
  · -- at the beginning of the current segment
    obtain ⟨hcur, hseg⟩ := current_cases hcurrent
    have hpos := pos_seg (h := h) hcur hseg
    have hprevLen := (hvb.seg_valid hprev).length
    rw [octets_before_succ hprev, List.length_append] at hpos
    by_cases hx : b.pX = seg.pStart
    · apply back_refined (x := prev.pEnd - 1) hv hb hprev (by omega) (by omega) (by omega)
      simp [Heap.ungetOctet, hcur, hseg, hx, backInto_eq hprev hlt]
    · obtain ⟨seg', hseg', hle, hle'⟩ := hvb.current (n + 1) hcur
      obtain rfl : seg = seg' := Option.some.inj (hseg.symm.trans hseg')
      have hpos := pos_seg (h := h) hcur hseg
      apply back_refined (x := b.pX - 1) hv hb hseg (by omega) (by omega) (by omega)
      simp [Heap.ungetOctet, hcur, hseg, hx]
  · -- behind the last segment
    rw [List.getLast?_eq_getElem?] at hlast
    have hlen := (hvb.seg_valid hlast).length
    have hpos : b.pos h = (b.octets h).length := by
      unfold BufHead.pos
      rw [hhead]
    obtain ⟨hbound, -⟩ := List.getElem?_eq_some_iff.1 hlast
    rw [octets_split hlast, List.drop_of_length_le (by omega), List.flatMap_nil, List.append_nil,
      List.length_append] at hpos
    apply back_refined (x := seg.pEnd - 1) hv hb hlast (by omega) (by omega) (by omega)
    simp [Heap.ungetOctet, hhead, backInto_eq hlast hlt]

theorem getBufferLength_refined (hv : h.Valid) (hf : Fits h (.getBufferLength hBuf)) :
    Refined h (.getBufferLength hBuf) := by
  obtain ⟨b, hb, hlt⟩ := hf
  have hvb := hv.bufs b (mem_of_get hb)
  have hlen : (b.octets h).length = (b.segs.map fun seg => seg.pEnd - seg.pStart).sum := by
    unfold BufHead.octets
    rw [List.length_flatMap]
    congr 1
    exact List.map_congr_left fun s hs => (hvb.segs s hs).length
  refine ⟨h, .length (b.tape h).items.length, ?_, hv, .getBufferLength (spec_get hb)⟩
  have heq : getBufferLength b = (b.octets h).length := by
    unfold getBufferLength
    rw [Nat.mod_eq_of_lt hlt, hlen]
  simp only [call, hb, Option.bind_eq_bind, Option.bind_some, heq]
  rfl

/-! ## Chunks -/

theorem seg_of_drop {l : List Segment} (hl : b.segs.drop n = seg :: l) : b.segs[n]? = some seg := by
  rw [← Nat.add_zero n, ← List.getElem?_drop, hl, List.getElem?_cons_zero]

/-- The octets left in a segment fit into an `OS_Uint16`. -/
theorem remaining_eq (hv : h.Valid) (hvs : seg.Valid h) {x : Nat} :
    (seg.pEnd - x) % 2 ^ 16 = seg.pEnd - x := by
  have hsize := hv.size seg.string
  have hend := hvs.pEnd
  exact Nat.mod_eq_of_lt (by omega)

/-- The loop of `BUF_getChunk` passes over the segments that have no octets left. -/
theorem findChunk_cases (hv : h.Valid) (hvb : b.Valid h) {l : List Segment} :
    ∀ {n x : Nat} {seg : Segment}, b.segs.drop n = seg :: l → seg.pStart ≤ x → x ≤ seg.pEnd →
    (findChunk (seg :: l) n x = none ∧
      (b.before h n).length + (x - seg.pStart) = (b.octets h).length) ∨
    ∃ m seg' x' k, findChunk (seg :: l) n x = some (m, seg', x', k) ∧ b.segs[m]? = some seg' ∧
      seg'.pStart ≤ x' ∧ 0 < k ∧ x' + k = seg'.pEnd ∧
      (b.before h m).length + (x' - seg'.pStart) = (b.before h n).length + (x - seg.pStart) := by
  induction l with
  | nil =>
    intro n x seg hl hle hle'
    have hseg := seg_of_drop hl
    have hvs := hvb.seg_valid hseg
    rw [findChunk, remaining_eq hv hvs]
    by_cases hzero : seg.pEnd - x = 0
    · refine .inl ⟨by rw [if_pos hzero, findChunk], ?_⟩
      have hnil : b.segs.drop (n + 1) = [] := by
        rw [← List.drop_drop, hl, List.drop_one, List.tail_cons]
      have hlen := hvs.length
      rw [octets_split hseg, hnil, List.flatMap_nil, List.append_nil, List.length_append]
      omega
    · exact .inr ⟨n, seg, x, _, if_neg hzero, hseg, hle, Nat.pos_of_ne_zero hzero, by omega, rfl⟩
  | cons next l ih =>
    intro n x seg hl hle hle'
    have hseg := seg_of_drop hl
    have hvs := hvb.seg_valid hseg
    rw [findChunk, remaining_eq hv hvs]
    by_cases hzero : seg.pEnd - x = 0
    · have hdrop : b.segs.drop (n + 1) = next :: l := by
        rw [← List.drop_drop, hl, List.drop_one, List.tail_cons]
      have hnext := seg_of_drop hdrop
      have hstart : (b.before h (n + 1)).length + (next.pStart - next.pStart) =
          (b.before h n).length + (x - seg.pStart) := by
        have hlen := hvs.length
        rw [octets_before_succ hseg, List.length_append]
        omega
      rw [if_pos hzero, ← hstart]
      exact ih hdrop (Nat.le_refl _) (hvb.seg_valid hnext).le
    · exact .inr ⟨n, seg, x, _, if_neg hzero, hseg, hle, Nat.pos_of_ne_zero hzero, by omega, rfl⟩

theorem getChunk_refined {len : UInt16} (hv : h.Valid) (hf : Fits h (.getChunk hBuf len)) :
    Refined h (.getChunk hBuf len) := by
  obtain ⟨b, n, hb, hcur⟩ := hf
  have hvb := hv.bufs b (mem_of_get hb)
  obtain ⟨seg, hseg, hle, hle'⟩ := hvb.current n hcur
  obtain ⟨hbound, hget⟩ := List.getElem?_eq_some_iff.1 hseg
  have hdrop : b.segs.drop n = seg :: b.segs.drop (n + 1) := by
    rw [List.drop_eq_getElem_cons hbound, hget]
  have hpos := pos_seg (h := h) hcur hseg
  rcases findChunk_cases hv hvb hdrop hle hle' with ⟨hnone, hend⟩ |
    ⟨m, found, x, left, hsome, hfound, hxle, hleft, hxend, hsame⟩
  · -- the cursor is left at the head of the queue, where it counts as behind all octets
    have hhead : BufHead.Valid h { b with pCurrentSeg := .head } :=
      ⟨hvb.segs, fun n hn => (by cases hn), fun hn => by cases hn⟩
    have htape : BufHead.tape h { b with pCurrentSeg := .head } = b.tape h := by
      unfold BufHead.tape
      rw [hpos, hend]
      rfl
    obtain ⟨hv', hspec⟩ := setBuf_spec hBuf hv hhead
    rw [htape, spec_set_self (spec_get hb)] at hspec
    refine ⟨_, .exhausted, ?_, hv', ?_⟩
    · simp only [call, hb, Option.bind_eq_bind, Option.bind_some, Heap.getChunk, hcur]
      rw [hdrop, hnone]
    · rw [hspec]
      apply Spec.Step.noChunk (spec_get hb)
      show (b.octets h).drop (b.pos h) = []
      rw [hpos, hend, List.drop_length]
  · obtain ⟨k, hk⟩ : ∃ k, (if len.toNat ≠ 0 ∧ left > len.toNat then len.toNat else left) = k := ⟨_, rfl⟩
    have hkle : 0 < k ∧ k ≤ left ∧ (len.toNat ≠ 0 → k ≤ len.toNat) := by
      rw [← hk]
      split <;> omega
    obtain ⟨hmoved, htape⟩ := move_tape (x := x + k) hvb hfound (by omega) (by omega)
    obtain ⟨hv', hspec⟩ := setBuf_spec hBuf hv hmoved
    -- the cursor, seen from the segment that has octets left
    obtain ⟨hat, -⟩ := move_tape hvb hfound hxle (by omega)
    have hrest : (b.octets h).drop (b.pos h) =
        slice (h.data found.string) x found.pEnd ++ (b.segs.drop (m + 1)).flatMap h.octets := by
      have hpos' := pos_seg (h := h) (b := { b with pCurrentSeg := .seg m, pX := x }) rfl hfound
      have hdrop' := drop_pos hat rfl hfound
      rw [hpos'] at hdrop'
      rw [hpos, ← hsame]
      exact hdrop'
    have hlen := slice_length (a := x) (hvb.seg_valid hfound).pEnd
    refine ⟨_, .chunk (slice (h.data found.string) x (x + k)), ?_, hv', ?_⟩
    · simp only [call, hb, Option.bind_eq_bind, Option.bind_some, Heap.getChunk, hcur]
      rw [hdrop, hsome]
      dsimp only
      rw [hk]
    · have hstep : Spec.Step h.spec (.getChunk hBuf len) _ _ := .getChunk (m := k) (spec_get hb) hkle.1
        (fun hne => hkle.2.2 fun hzero => hne (UInt16.toNat_inj.1 hzero)) (by
          show k ≤ ((b.octets h).drop (b.pos h)).length
          rw [hrest, List.length_append]
          omega)
      have htake : (b.tape h).rest.take k = slice (h.data found.string) x (x + k) := by
        show ((b.octets h).drop (b.pos h)).take k = _
        rw [hrest, List.take_append_of_le_length (by omega), slice_take (by omega)]
      have hskip : (b.tape h).skip k =
          BufHead.tape h { b with pCurrentSeg := .seg m, pX := x + k } := by
        rw [htape]
        show (⟨b.octets h, b.pos h + k⟩ : Tape UInt8) = _
        rw [hpos, ← hsame]
        congr 1
        omega
      rw [hspec, ← hskip, ← htake]
      exact hstep

end Ocp
