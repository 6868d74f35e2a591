import Emsd.Ocp.Fitting

/-!
# Putting strings and buffers together

* `copySegs_contents`: the loop of `BUF_copy` makes data areas of the same octets.
* `put_spec`: an octet is put in front of the first segment that has octets.
-/

namespace Ocp

open Slice Tapes

open Heap

variable {h h' : Heap} {b b' : BufHead} {seg : Segment} {n hBuf : Nat} {r r' : StringRef}

/-! ## Putting strings and buffers in -/

theorem chunkSegment_valid {k : Nat} (hk : k < h.chunks.length) :
    (h.chunkSegment (.chunk k)).Valid h ∧ h.octets (h.chunkSegment (.chunk k)) = h.chunks[k] := by
  have hdata : h.data (.chunk k) = h.chunks[k] := by
    show h.chunks[k]?.getD [] = h.chunks[k]
    rw [List.getElem?_eq_getElem hk]
    rfl
  refine ⟨⟨hk, Nat.zero_le _, Nat.le_refl _⟩, ?_⟩
  unfold Heap.octets chunkSegment
  rw [slice_zero_length, hdata]

theorem prependChunk_refined {k : Nat} (hv : h.Valid) (hf : Fits h (.prependChunk hBuf k)) :
    Refined h (.prependChunk hBuf k) := by
  obtain ⟨hlt, hk⟩ := hf
  have hb : h.bufs[hBuf]? = some h.bufs[hBuf] := List.getElem?_eq_getElem hlt
  obtain ⟨b, hbeq⟩ : ∃ b, h.bufs[hBuf] = b := ⟨_, rfl⟩
  rw [hbeq] at hb
  have hvb := hv.bufs b (mem_of_get hb)
  obtain ⟨hseg, hoctets⟩ := chunkSegment_valid hk
  let b' : BufHead := ⟨h.chunkSegment (.chunk k) :: b.segs, .seg 0, 0⟩
  have hv' : BufHead.Valid h b' := by
    refine ⟨fun s hs => ?_, fun n hn => ?_, fun hn => by cases hn⟩
    · rcases List.mem_cons.1 hs with rfl | hs
      · exact hseg
      · exact hvb.segs s hs
    · cases hn
      exact ⟨_, rfl, Nat.le_refl _, Nat.zero_le _⟩
  have htape : BufHead.tape h b' = ⟨h.chunks[k] ++ b.octets h, 0⟩ := by
    unfold BufHead.tape BufHead.octets
    rw [List.flatMap_cons, hoctets, pos_seg (n := 0) rfl rfl]
    rfl
  obtain ⟨hvalid, hspec⟩ := setBuf_spec hBuf hv hv'
  refine ⟨h.prependChunk hBuf b (.chunk k), .done, by simp [call, hb, hk], hvalid, ?_⟩
  rw [show (h.prependChunk hBuf b (.chunk k)).spec = _ from hspec, htape]
  exact .prependChunk (spec_get hb) (List.getElem?_eq_getElem hk)

theorem appendChunk_refined {k : Nat} (hv : h.Valid) (hf : Fits h (.appendChunk hBuf k)) :
    Refined h (.appendChunk hBuf k) := by
  obtain ⟨hlt, hk⟩ := hf
  have hb : h.bufs[hBuf]? = some h.bufs[hBuf] := List.getElem?_eq_getElem hlt
  obtain ⟨b, hbeq⟩ : ∃ b, h.bufs[hBuf] = b := ⟨_, rfl⟩
  rw [hbeq] at hb
  have hvb := hv.bufs b (mem_of_get hb)
  obtain ⟨hseg, hoctets⟩ := chunkSegment_valid hk
  let b' : BufHead := ⟨b.segs ++ [h.chunkSegment (.chunk k)], .seg b.segs.length, 0⟩
  have hcur : b'.segs[b.segs.length]? = some (h.chunkSegment (.chunk k)) :=
    List.getElem?_concat_length
  have hv' : BufHead.Valid h b' := by
    refine ⟨fun s hs => ?_, fun n hn => ?_, fun hn => by cases hn⟩
    · rcases List.mem_append.1 hs with hs | hs
      · exact hvb.segs s hs
      · obtain rfl := List.mem_singleton.1 hs
        exact hseg
    · cases hn
      exact ⟨_, hcur, Nat.le_refl _, Nat.zero_le _⟩
  have htape : BufHead.tape h b' = ⟨b.octets h ++ h.chunks[k], (b.octets h).length⟩ := by
    have hbefore : b'.before h b.segs.length = b.octets h := by
      unfold BufHead.before BufHead.octets
      rw [List.take_left]
    unfold BufHead.tape
    rw [pos_seg rfl hcur, hbefore]
    unfold BufHead.octets
    rw [List.flatMap_append, List.flatMap_cons, List.flatMap_nil, List.append_nil, hoctets]
    rfl
  obtain ⟨hvalid, hspec⟩ := setBuf_spec hBuf hv hv'
  refine ⟨h.appendChunk hBuf b (.chunk k), .done, by simp [call, hb, hk], hvalid, ?_⟩
  rw [show (h.appendChunk hBuf b (.chunk k)).spec = _ from hspec, htape]
  exact .appendChunk (spec_get hb) (List.getElem?_eq_getElem hk)

/-- A buffer without segments. -/
theorem empty_tape (h : Heap) (x : Nat) {current : CurrentSeg} (hc : ∀ n, current ≠ .seg n) :
    BufHead.Valid h ⟨[], current, x⟩ ∧ BufHead.tape h ⟨[], current, x⟩ = ⟨[], 0⟩ := by
  refine ⟨⟨fun s hs => (by cases hs), fun n hn => absurd hn (hc n), fun _ => rfl⟩, ?_⟩
  unfold BufHead.tape BufHead.pos
  cases current with
  | seg n => exact absurd rfl (hc n)
  | head => rfl
  | elsewhere => rfl

theorem appendBuffer_refined {hOther : Nat} (hv : h.Valid) (hf : Fits h (.appendBuffer hBuf hOther)) :
    Refined h (.appendBuffer hBuf hOther) := by
  obtain ⟨hne, b, b', hb, hb', hsegs⟩ := hf
  have hvb := hv.bufs b (mem_of_get hb)
  have hvb' := hv.bufs b' (mem_of_get hb')
  have hnil : b.segs ++ b'.segs ≠ [] := by
    intro hnil
    obtain ⟨h₁, h₂⟩ := List.append_eq_nil_iff.1 hnil
    rcases hsegs with hsegs | hsegs
    · exact hsegs h₁
    · exact hsegs h₂
  have hlast := List.getLast?_eq_some_getLast hnil
  obtain ⟨last, hlasteq⟩ : ∃ last, (b.segs ++ b'.segs).getLast hnil = last := ⟨_, rfl⟩
  rw [hlasteq] at hlast
  have hat := hlast
  rw [List.getLast?_eq_getElem?] at hat
  have hvs : ∀ s ∈ b.segs ++ b'.segs, s.Valid h := fun s hs =>
    (List.mem_append.1 hs).elim (hvb.segs s) (hvb'.segs s)
  let joined : BufHead := ⟨b.segs ++ b'.segs, .seg ((b.segs ++ b'.segs).length - 1), last.pEnd⟩
  have hvl := hvs last (List.mem_of_getElem? hat)
  have hvj : joined.Valid h := by
    refine ⟨hvs, fun n hn => ?_, fun hn => by cases hn⟩
    cases hn
    exact ⟨last, hat, hvl.le, Nat.le_refl _⟩
  have htj : joined.tape h = ⟨b.octets h ++ b'.octets h, (b.octets h ++ b'.octets h).length⟩ := by
    have hoctets : joined.octets h = b.octets h ++ b'.octets h := List.flatMap_append
    have hsplit := octets_split (h := h) (b := joined) hat
    have hpos : 0 < (b.segs ++ b'.segs).length := List.length_pos_iff.2 hnil
    rw [List.drop_of_length_le (by show (b.segs ++ b'.segs).length ≤ _; omega), List.flatMap_nil,
      List.append_nil] at hsplit
    unfold BufHead.tape
    rw [pos_seg rfl hat, ← hoctets, ← hvl.length, ← List.length_append, ← hsplit]
  -- the other buffer has no segments left, and no current one
  obtain ⟨current, hcurrent, hcall⟩ : ∃ current, (∀ n, current ≠ CurrentSeg.seg n) ∧
      h.appendBuffer hBuf b hOther b' =
        some ((h.setBuf hBuf joined).setBuf hOther ⟨[], current, b'.pX⟩) := by
    simp only [Heap.appendBuffer, hlast, if_neg hne]
    cases b'.pCurrentSeg with
    | seg n => exact ⟨.elsewhere, fun _ heq => (by cases heq), rfl⟩
    | head => exact ⟨.head, fun _ heq => (by cases heq), rfl⟩
    | elsewhere => exact ⟨.elsewhere, fun _ heq => (by cases heq), rfl⟩
  obtain ⟨hv₁, hspec₁⟩ := setBuf_spec hBuf hv hvj
  obtain ⟨hvleft, htleft⟩ := empty_tape (h.setBuf hBuf joined) b'.pX hcurrent
  obtain ⟨hv₂, hspec₂⟩ := setBuf_spec hOther hv₁ hvleft
  rw [htleft, hspec₁, htj] at hspec₂
  refine ⟨_, .done, by simp [call, hb, hb', hcall], hv₂, ?_⟩
  rw [hspec₂]
  exact .appendBuffer hne (spec_get hb) (spec_get hb')

/-! ## Copies -/

/-- A segment that is a data area as a whole. -/
theorem addArea_octets (octets : Octets) :
    (h.addArea octets).octets ⟨.area h.areas.length, 0, octets.length⟩ = octets := by
  unfold Heap.octets
  rw [addArea_data, slice_zero_length]

/-- The loop of `BUF_copy` makes data areas of the same octets. -/
theorem copySegs_contents {l : List Segment} : ∀ {h : Heap}, h.Valid → (∀ s ∈ l, s.Valid h) →
    (∀ s ∈ l, s.pEnd - s.pStart ≠ strZString) →
    ∃ l' h', copySegs l h = some (l', h') ∧ h'.Valid ∧ h'.spec = h.spec ∧ Adds h h' ∧
      (∀ s ∈ l', s.Valid h') ∧ l'.flatMap h'.octets = l.flatMap h.octets := by
  induction l with
  | nil =>
    intro h hv _ _
    exact ⟨[], h, rfl, hv, rfl, Adds.refl h, fun s hs => (by cases hs), rfl⟩
  | cons seg l ih =>
    intro h hv hvs hz
    have hseg := hvs seg List.mem_cons_self
    have hlen := hseg.length
    have hne : (h.octets seg).length ≠ strZString := by
      rw [hlen]
      exact hz seg List.mem_cons_self
    have hlt : (h.octets seg).length < 2 ^ 16 := by
      have hsize := hv.size seg.string
      have hend := hseg.pEnd
      omega
    obtain ⟨hv₁, hspec₁⟩ := addArea_spec hv hlt
    have hadds := addArea_adds (h := h) (h.octets seg)
    obtain ⟨l', h', hcopy, hv', hspec', hadds', hvs', hoctets'⟩ := ih hv₁
      (fun s hs => hadds.valid (hvs s (List.mem_cons_of_mem _ hs)))
      (fun s hs => hz s (List.mem_cons_of_mem _ hs))
    have hnew : Segment.Valid (h.addArea (h.octets seg))
        ⟨.area h.areas.length, 0, (h.octets seg).length⟩ :=
      addArea_segment _ (Nat.zero_le _) (Nat.le_refl _)
    refine ⟨⟨.area h.areas.length, 0, (h.octets seg).length⟩ :: l', h', ?_, hv', by rw [hspec', hspec₁],
      hadds.trans hadds', fun s hs => ?_, ?_⟩
    · have hcopy' : copySegs l { h with areas := h.areas ++ [h.octets seg] } = some (l', h') := hcopy
      simp only [copySegs, hne, false_and, if_false, hcopy', Option.map_some]
    · rcases List.mem_cons.1 hs with rfl | hs
      · exact hadds'.valid hnew
      · exact hvs' s hs
    · rw [List.flatMap_cons, List.flatMap_cons, hoctets', hadds'.octets hnew, addArea_octets]
      congr 1
      exact flatMap_congr fun s hs => hadds.octets (hvs s (List.mem_cons_of_mem _ hs))

theorem copy_refined (hv : h.Valid) (hf : Fits h (.copy hBuf)) : Refined h (.copy hBuf) := by
  obtain ⟨b, hb, hz⟩ := hf
  have hvb := hv.bufs b (mem_of_get hb)
  obtain ⟨hv₁, hspec₁⟩ := addArea_spec hv (show ([] : Octets).length < 2 ^ 16 by decide)
  have hadds := addArea_adds (h := h) []
  obtain ⟨l, h', hcopy, hv', hspec', hadds', hvs', hoctets'⟩ := copySegs_contents hv₁
    (fun s hs => hadds.valid (hvb.segs s hs)) hz
  have hfirst : Segment.Valid (h.addArea []) ⟨.area h.areas.length, 0, 0⟩ :=
    addArea_segment [] (Nat.le_refl _) (Nat.zero_le _)
  have hvsegs : ∀ s ∈ (⟨.area h.areas.length, 0, 0⟩ : Segment) :: l, s.Valid h' := by
    intro s hs
    rcases List.mem_cons.1 hs with rfl | hs
    · exact hadds'.valid hfirst
    · exact hvs' s hs
  obtain ⟨hvnew, htape⟩ := resetParse_tape (b := ⟨⟨.area h.areas.length, 0, 0⟩ :: l, .head, 0⟩) hvsegs
  have hcontents : BufHead.octets h' ⟨⟨.area h.areas.length, 0, 0⟩ :: l, .head, 0⟩ = b.octets h := by
    have hempty : h'.octets ⟨.area h.areas.length, 0, 0⟩ = [] :=
      (hadds'.valid hfirst).octets_nil.2 rfl
    unfold BufHead.octets
    rw [List.flatMap_cons, hempty, List.nil_append, hoctets']
    exact flatMap_congr fun s hs => hadds.octets (hvb.segs s hs)
  obtain ⟨hvalid, hspec⟩ := newBuf_spec hv' hvnew
  rw [htape, hcontents, hspec', hspec₁] at hspec
  have hlen : h.bufs.length = h.spec.tapes.length := (List.length_map _).symm
  refine ⟨_, .handle h.bufs.length, ?_, hvalid, ?_⟩
  · have hcopy' : copySegs b.segs { h with areas := h.areas ++ [List.replicate 0 0] } =
      some (l, h') := hcopy
    simp only [call, hb, Option.bind_eq_bind, Option.bind_some, Heap.copy, allocSegment, hcopy',
      Option.map_some]
  · rw [hspec, hlen]
    exact .copy (spec_get hb)

/-! ## Octets in front -/

theorem store_data {i : Nat} {x : UInt8} :
    (h.store r' i x).data r = if r = r' then (h.data r).set i x else h.data r := by
  have hmodify : ∀ (l : List Octets) (k n : Nat), ((l.modify k (·.set i x))[n]?).getD [] =
      if n = k then (l[n]?.getD []).set i x else l[n]?.getD [] := by
    intro l k n
    rw [List.getElem?_modify]
    by_cases heq : k = n
    · subst heq
      rw [if_pos rfl]
      cases l[k]? with
      | none => rfl
      | some o => simp
    · rw [if_neg (Ne.symm heq)]
      cases l[n]? with
      | none => rfl
      | some o => simp [heq]
  cases r' with
  | chunk k =>
    cases r with
    | chunk n =>
      simp only [StringRef.chunk.injEq]
      exact hmodify h.chunks k n
    | area n => rfl
  | area k =>
    cases r with
    | chunk n => rfl
    | area n =>
      simp only [StringRef.area.injEq]
      exact hmodify h.areas k n

theorem store_in {i : Nat} {x : UInt8} (hr : r.In h) : r.In (h.store r' i x) := by
  cases r' with
  | chunk k =>
    cases r with
    | chunk n =>
      show n < (h.chunks.modify k _).length
      rw [List.length_modify]
      exact hr
    | area n => exact hr
  | area k =>
    cases r with
    | chunk n => exact hr
    | area n =>
      show n < (h.areas.modify k _).length
      rw [List.length_modify]
      exact hr

theorem store_length {i : Nat} {x : UInt8} :
    ((h.store r' i x).data r).length = (h.data r).length := by
  rw [store_data]
  split
  · exact List.length_set
  · rfl

/-- A segment stays in its string. -/
theorem store_valid {i : Nat} {x : UInt8} (hv : seg.Valid h) : seg.Valid (h.store r' i x) :=
  ⟨store_in hv.string, hv.le, store_length.symm ▸ hv.pEnd⟩

/-- A segment that the octet is not part of. -/
theorem store_outside {i : Nat} {x : UInt8} (hv : seg.Valid h)
    (hout : seg.string = r' → i < seg.pStart ∨ seg.pEnd ≤ i) :
    seg.Valid (h.store r' i x) ∧ (h.store r' i x).octets seg = h.octets seg := by
  refine ⟨store_valid hv, ?_⟩
  unfold Heap.octets
  rw [store_data]
  split
  · next heq => exact slice_set_outside (hout heq)
  · rfl

/-- The segment that the octet is put in front of. -/
theorem store_front {k : Nat} {x : UInt8} (hv : seg.Valid h) (harea : seg.string = .area k)
    (hpos : seg.pStart ≠ 0) :
    Segment.Valid (h.store (.area k) (seg.pStart - 1) x) { seg with pStart := seg.pStart - 1 } ∧
      (h.store (.area k) (seg.pStart - 1) x).octets { seg with pStart := seg.pStart - 1 } =
        x :: h.octets seg := by
  have hle := hv.le
  have hend := hv.pEnd
  refine ⟨⟨store_in hv.string, ?_, store_length.symm ▸ hv.pEnd⟩, ?_⟩
  · show seg.pStart - 1 ≤ seg.pEnd
    omega
  · show slice ((h.store (.area k) (seg.pStart - 1) x).data seg.string) (seg.pStart - 1) seg.pEnd = _
    rw [store_data, if_pos harea, slice_set_front (by omega) (by omega), Nat.sub_add_cancel (by omega)]
    rfl

/-- An octet is put in front of a buffer, into the data area of its first segment that has octets. -/
theorem put_spec (hBuf : Nat) {k : Nat} {x : UInt8} (hv : h.Valid) (hvb : b.Valid h)
    (hseg : b.segs[n]? = some seg) (hcur : b.pCurrentSeg = .seg n) (hx : b.pX = seg.pStart) (hnone : NoneBefore b n)
    (harea : seg.string = .area k) (hpos : seg.pStart ≠ 0)
    (halone : ∀ b' ∈ b :: h.bufs, ∀ s ∈ b'.segs, s.string = .area k →
      ¬(s.pStart < seg.pStart ∧ seg.pStart ≤ s.pEnd)) :
    ((h.store (.area k) (b.pX - 1) x).setBuf hBuf
      { b with segs := b.segs.set n { seg with pStart := seg.pStart - 1 }, pX := b.pX - 1 }).Valid ∧
    ((h.store (.area k) (b.pX - 1) x).setBuf hBuf
      { b with segs := b.segs.set n { seg with pStart := seg.pStart - 1 }, pX := b.pX - 1 }).spec =
      h.spec.set hBuf ⟨x :: b.octets h, 0⟩ := by
  rw [hx]
  obtain ⟨h₁, hh₁⟩ : ∃ h₁, h.store (.area k) (seg.pStart - 1) x = h₁ := ⟨_, rfl⟩
  obtain ⟨b₁, hb₁⟩ : ∃ b₁, BufHead.mk (b.segs.set n { seg with pStart := seg.pStart - 1 })
    b.pCurrentSeg (seg.pStart - 1) = b₁ := ⟨_, rfl⟩
  rw [hh₁, hb₁]
  obtain ⟨hbound, hget⟩ := List.getElem?_eq_some_iff.1 hseg
  have hkeeps : ∀ b' ∈ b :: h.bufs, b'.Valid h → Keeps h h₁ b' := fun b' hb' hvb' s hs =>
    hh₁ ▸ store_outside (hvb'.segs s hs) fun heq => (by
      have hnot := halone b' hb' s hs heq
      omega)
  obtain ⟨hfront, hoctets⟩ := store_front (x := x) (hvb.seg_valid hseg) harea hpos
  rw [hh₁] at hfront hoctets
  have hkb := hkeeps b List.mem_cons_self hvb
  have hat : b₁.segs[n]? = some { seg with pStart := seg.pStart - 1 } := by
    rw [← hb₁]
    exact List.getElem?_set_self hbound
  have hvb₁ : b₁.Valid h₁ := by
    subst hb₁
    refine ⟨fun s hs => ?_, fun m hm => ?_, fun hm => ?_⟩
    · rcases List.mem_or_eq_of_mem_set hs with hs | rfl
      · exact (hkb s hs).1
      · exact hfront
    · obtain rfl : n = m := CurrentSeg.seg.inj (hcur.symm.trans hm)
      exact ⟨_, hat, Nat.le_refl _, hfront.le⟩
    · rw [show b.pCurrentSeg = _ from hm] at hcur
      cases hcur
  have htape : b₁.tape h₁ = ⟨x :: b.octets h, 0⟩ := by
    have hbefore : b₁.before h₁ n = [] := by
      unfold BufHead.before
      rw [List.flatMap_eq_nil_iff]
      intro s hs
      rw [← hb₁] at hs
      rw [List.take_set_of_le (Nat.le_refl n)] at hs
      have hmem := List.mem_of_mem_take hs
      rw [(hkb s hmem).2]
      exact (hvb.segs s hmem).octets_nil.2 (hnone s hs)
    have hbefore' : b.before h n = [] := by
      unfold BufHead.before
      rw [List.flatMap_eq_nil_iff]
      exact fun s hs => (hvb.segs s (List.mem_of_mem_take hs)).octets_nil.2 (hnone s hs)
    have hrest : (b₁.segs.drop (n + 1)).flatMap h₁.octets =
        (b.segs.drop (n + 1)).flatMap h.octets := by
      rw [← hb₁]
      rw [List.drop_set_of_lt (Nat.lt_succ_self n)]
      exact flatMap_congr fun s hs => (hkb s (List.mem_of_mem_drop hs)).2
    have hcur₁ : b₁.pCurrentSeg = .seg n := by
      rw [← hb₁]
      exact hcur
    have hx₁ : b₁.pX = seg.pStart - 1 := by
      rw [← hb₁]
    unfold BufHead.tape
    rw [octets_split hat, pos_seg hcur₁ hat, hbefore, hrest, hoctets, octets_split hseg, hbefore', hx₁,
      Nat.sub_self]
    rfl
  have hk : ∀ b' ∈ h.bufs, Keeps h (h₁.setBuf hBuf b₁) b' := fun b' hb' s hs =>
    have hold := hkeeps b' (List.mem_cons_of_mem _ hb') (hv.bufs b' hb') s hs
    ⟨⟨hold.1.string, hold.1.le, hold.1.pEnd⟩, hold.2⟩
  have hk₁ : Keeps h₁ (h₁.setBuf hBuf b₁) b₁ := fun s hs =>
    ⟨⟨(hvb₁.segs s hs).string, (hvb₁.segs s hs).le, (hvb₁.segs s hs).pEnd⟩, rfl⟩
  have hbufs : (h₁.setBuf hBuf b₁).bufs = h.bufs.set hBuf b₁ := by
    rw [← hh₁]
    rfl
  have hchunks : (h₁.setBuf hBuf b₁).chunks = h.spec.chunks := by
    rw [← hh₁]
    rfl
  have hsize : ∀ r, ((h₁.setBuf hBuf b₁).data r).length < 2 ^ 16 := by
    intro r
    show (h₁.data r).length < 2 ^ 16
    rw [← hh₁, store_length]
    exact hv.size r
  obtain ⟨hvalid, hspec⟩ := spec_changed hv hk hbufs hsize (hk₁.valid hvb₁)
  refine ⟨hvalid, ?_⟩
  rw [hspec, hk₁.tape, htape, hchunks]
  rfl

theorem addOctet_refined {x : UInt8} (hv : h.Valid) (hf : Fits h (.addOctet hBuf x)) :
    Refined h (.addOctet hBuf x) := by
  obtain ⟨b, hb, n, seg, hcurrent, hcan⟩ := hf
  have hvb := hv.bufs b (mem_of_get hb)
  obtain ⟨hcur, hseg⟩ := current_cases hcurrent
  by_cases hzero : seg.pStart = 0
  · -- a new segment in front of all
    have hlen : (List.replicate bufMinDataArea (0 : UInt8)).length < 2 ^ 16 := by
      rw [List.length_replicate]
      decide
    obtain ⟨hv₁, hspec₁⟩ := addArea_spec hv hlen
    have hadds := addArea_adds (h := h) (List.replicate bufMinDataArea 0)
    have hnew : Segment.Valid (h.addArea (List.replicate bufMinDataArea 0))
        ⟨.area h.areas.length, bufMinDataArea, bufMinDataArea⟩ :=
      addArea_segment _ (Nat.le_refl _) (by rw [List.length_replicate])
    have hnot : ∀ s ∈ b.segs, s.string ≠ .area h.areas.length := by
      intro s hs heq
      have hin := (hvb.segs s hs).string
      rw [heq] at hin
      exact absurd hin (Nat.lt_irrefl _)
    have hvnew : BufHead.Valid (h.addArea (List.replicate bufMinDataArea 0))
        ⟨⟨.area h.areas.length, bufMinDataArea, bufMinDataArea⟩ :: b.segs, .seg 0, bufMinDataArea⟩ := by
      refine ⟨fun s hs => ?_, fun m hm => ?_, fun hm => by cases hm⟩
      · rcases List.mem_cons.1 hs with rfl | hs
        · exact hnew
        · exact hadds.valid (hvb.segs s hs)
      · cases hm
        exact ⟨_, rfl, Nat.le_refl _, Nat.le_refl _⟩
    obtain ⟨hvalid, hspec⟩ := put_spec hBuf (x := x) (n := 0) (k := h.areas.length) hv₁ hvnew
      rfl rfl rfl (fun s hs => by cases hs) rfl (show bufMinDataArea ≠ 0 by decide) (by
        intro b' hb' s hs heq hbetween
        rcases List.mem_cons.1 hb' with rfl | hb'
        · rcases List.mem_cons.1 hs with rfl | hs
          · exact absurd hbetween.1 (Nat.lt_irrefl _)
          · exact hnot s hs heq
        · have hin := ((hv.bufs b' hb').segs s hs).string
          rw [heq] at hin
          exact absurd hin (Nat.lt_irrefl _))
    have hoctets : BufHead.octets (h.addArea (List.replicate bufMinDataArea 0))
        ⟨⟨.area h.areas.length, bufMinDataArea, bufMinDataArea⟩ :: b.segs, .seg 0, bufMinDataArea⟩ =
        b.octets h := by
      unfold BufHead.octets
      rw [List.flatMap_cons, hnew.octets_nil.2 rfl, List.nil_append]
      exact (hadds.keeps hvb).octets
    rw [hoctets, hspec₁] at hspec
    refine ⟨_, .done, ?_, hvalid, ?_⟩
    · simp only [call, hb, Option.bind_eq_bind, Option.bind_some, Heap.addOctet, hcurrent, hzero, if_true]
      rfl
    · rw [hspec]
      exact .addOctet (spec_get hb)
  · -- in front of the current one
    rcases hcan with hroom | ⟨hx, hnone, ⟨k, harea⟩, halone⟩
    · exact absurd hroom hzero
    obtain ⟨hvalid, hspec⟩ := put_spec hBuf (x := x) hv hvb hseg hcur hx hnone harea hzero (by
      intro b' hb' s hs heq
      rcases List.mem_cons.1 hb' with rfl | hb'
      · exact halone b' (mem_of_get hb) s hs (heq.trans harea.symm)
      · exact halone b' hb' s hs (heq.trans harea.symm))
    refine ⟨_, .done, ?_, hvalid, ?_⟩
    · simp only [call, hb, Option.bind_eq_bind, Option.bind_some, Heap.addOctet, hcurrent, hzero, if_false,
        harea]
    · rw [← harea] at hspec
      rw [← harea, hspec]
      exact .addOctet (spec_get hb)

end Ocp
