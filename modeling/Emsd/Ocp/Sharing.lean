import Emsd.Ocp.Portion

/-!
# What a call does to the other buffers

A clone has segments in the strings of its source, and an octet that is put in front of it is written
into the string when there is space in front of its segment. A call is on the buffers that it changes;
the others are to keep their octets.

* `call_isolated`: every call but `BUF_addOctet` leaves the buffers that it is not on alone.
* `addOctet_isolated`: `BUF_addOctet` does if and only if the octet in front of the location is in no
  segment of another buffer, or is what it was.
* `clone_isolation`: the same over all runs.
-/

namespace Ocp

open Slice Tapes

open Heap

variable {h h' h'' : Heap} {b b' : BufHead} {seg : Segment} {n hBuf : Nat} {r r' : StringRef}

/-- What is left of the location of a buffer that has become part of another one. -/
def CurrentSeg.left : CurrentSeg → CurrentSeg
  | .seg _ => .elsewhere
  | current => current

/-- `BUF_prependBuffer`. A buffer with segments that is prepended to itself never ends. -/
def Heap.prependBuffer (h : Heap) (hBuf : Nat) (b : BufHead) (hPrependThisBuf : Nat) (b' : BufHead) :
    Option Heap :=
  if hBuf = hPrependThisBuf ∧ b'.segs ≠ [] then none
  else
    some ((h.setBuf hPrependThisBuf ⟨[], b'.pCurrentSeg.left, b'.pX⟩).setBuf hBuf
      (BufHead.resetParse { b with segs := b'.segs ++ b.segs }))

/-- All calls. -/
inductive AnyOp
  | call (op : BufOp)
  | prependBuffer (hBuf hPrependThisBuf : Nat)
  deriving DecidableEq, Repr

def Heap.callAny (h : Heap) : AnyOp → Option Heap
  | .call op => (h.call op).map (·.1)
  | .prependBuffer hBuf hPrependThisBuf => do
    let b ← h.bufs[hBuf]?
    let b' ← h.bufs[hPrependThisBuf]?
    h.prependBuffer hBuf b hPrependThisBuf b'

/-- All buffers of a program, with the calls that were made. -/
def Heap.calls : Run.Sys Heap AnyOp AnyOp where
  init h := h = Heap.empty
  step h op := (h.callAny op).map fun h' => (h', [op])

/-- The buffers that a call is on. -/
def BufOp.writes : BufOp → List Nat
  | .addOctet hBuf _ | .prependChunk hBuf _ | .appendChunk hBuf _ => [hBuf]
  | .appendBuffer hBuf hAppendThisBuf => [hBuf, hAppendThisBuf]
  | _ => []

def AnyOp.writes : AnyOp → List Nat
  | .call op => op.writes
  | .prependBuffer hBuf hPrependThisBuf => [hBuf, hPrependThisBuf]

/-- **The buffers that a call is not on** keep their octets. -/
def Isolated (h h' : Heap) (writes : List Nat) : Prop :=
  ∀ k b, k ∉ writes → h.bufs[k]? = some b → ∃ b', h'.bufs[k]? = some b' ∧ b'.octets h' = b.octets h

/-- There is no space in front of the current segment, so that a new one is made; or the octet in front
of the location is in no segment of another buffer, or is the one that is put there. -/
def Heap.SparesOctet (h : Heap) (hBuf : Nat) (octet : UInt8) : Prop :=
  ∀ b n seg, h.bufs[hBuf]? = some b → b.current = some (n, seg) → seg.pStart ≠ 0 →
    ∀ k b', k ≠ hBuf → h.bufs[k]? = some b' → ∀ s ∈ b'.segs, s.string = seg.string →
      s.pStart < b.pX → b.pX ≤ s.pEnd → (h.data seg.string)[b.pX - 1]? = some octet

/-- **The calls that leave the other buffers alone.** -/
def Spares (h : Heap) : AnyOp → Prop
  | .call (.addOctet hBuf octet) => h.SparesOctet hBuf octet
  | _ => True

/-! ## Frames -/

theorem Isolated.refl (h : Heap) (writes : List Nat) : Isolated h h writes := fun _ b _ hb =>
  ⟨b, hb, rfl⟩

theorem Isolated.trans {l l' : List Nat} (h₁ : Isolated h h' l) (h₂ : Isolated h' h'' l') :
    Isolated h h'' (l ++ l') := by
  intro k b hk hb
  have hk := not_or.1 (mt List.mem_append.2 hk)
  obtain ⟨b', hb', heq⟩ := h₁ k b hk.1 hb
  obtain ⟨b'', hb'', heq'⟩ := h₂ k b' hk.2 hb'
  exact ⟨b'', hb'', heq'.trans heq⟩

/-- What is so of lists of octets with a cursor is so of the buffers. -/
theorem isolated_of_spec {l : List Nat}
    (hspec : ∀ (k : Nat) (t : Tape UInt8), k ∉ l → h.spec.tapes[k]? = some t →
      ∃ t' : Tape UInt8, h'.spec.tapes[k]? = some t' ∧ t'.items = t.items) : Isolated h h' l := by
  intro k b hk hb
  obtain ⟨t', ht', heq⟩ := hspec k _ hk (spec_get hb)
  unfold Heap.spec at ht'
  rw [List.getElem?_map] at ht'
  obtain ⟨b', hb', rfl⟩ := Option.map_eq_some_iff.1 ht'
  exact ⟨b', hb', heq⟩

/-- What the calls are to do leaves the octets of the other lists as they are. -/
theorem step_items {s s' : Spec} {op : BufOp} {out : BufOut} (hstep : Spec.Step s op out s') {k : Nat}
    {t : Tape UInt8} (hk : k ∉ op.writes) (ht : s.tapes[k]? = some t) :
    ∃ t' : Tape UInt8, s'.tapes[k]? = some t' ∧ t'.items = t.items := by
  have hlt : k < s.tapes.length := (List.getElem?_eq_some_iff.1 ht).1
  have hset : ∀ (n : Nat) (u u' : Tape UInt8), s.tapes[n]? = some u → u'.items = u.items →
      ∃ t' : Tape UInt8, (s.set n u').tapes[k]? = some t' ∧ t'.items = t.items := by
    intro n u u' hu heq
    by_cases hsame : n = k
    · subst hsame
      obtain rfl := Option.some.inj (ht.symm.trans hu)
      exact ⟨u', List.getElem?_set_self hlt, heq⟩
    · exact ⟨t, (List.getElem?_set_ne hsame).trans ht, rfl⟩
  have hother : ∀ (n : Nat) (u : Tape UInt8), k ≠ n → (s.set n u).tapes[k]? = some t := by
    intro n u hne
    exact (List.getElem?_set_ne (Ne.symm hne)).trans ht
  have hadd : ∀ (s₁ : Spec) (u t₁ : Tape UInt8), s₁.tapes[k]? = some t₁ →
      (s₁.add u).tapes[k]? = some t₁ := by
    intro s₁ u t₁ ht₁
    exact (List.getElem?_append_left (List.getElem?_eq_some_iff.1 ht₁).1).trans ht₁
  cases hstep with
  | string => exact ⟨t, ht, rfl⟩
  | alloc => exact ⟨t, hadd s _ t ht, rfl⟩
  | addOctet hu => exact ⟨t, hother _ _ (fun heq => hk (heq ▸ List.mem_cons_self)), rfl⟩
  | prependChunk hu hc => exact ⟨t, hother _ _ (fun heq => hk (heq ▸ List.mem_cons_self)), rfl⟩
  | appendChunk hu hc => exact ⟨t, hother _ _ (fun heq => hk (heq ▸ List.mem_cons_self)), rfl⟩
  | appendBuffer hne hu hu' =>
    rename_i n m u u'
    have hn : k ≠ n := fun heq => hk (heq ▸ List.mem_cons_self)
    have hm : k ≠ m := fun heq => hk (heq ▸ List.mem_cons_of_mem _ List.mem_cons_self)
    exact ⟨t, (List.getElem?_set_ne (Ne.symm hm)).trans (hother n _ hn), rfl⟩
  | copy hu => exact ⟨t, hadd s _ t ht, rfl⟩
  | cloneBufferPortion hu =>
    rename_i n u len strip
    obtain ⟨t', ht', heq⟩ := hset n u (if strip then ⟨u.items, Spec.start u len.toNat +
      (Spec.portion u len.toNat).length⟩ else u) hu (by cases strip <;> rfl)
    exact ⟨t', hadd _ _ t' ht', heq⟩
  | resetParse hu => exact hset _ _ _ hu rfl
  | getOctet hu hx =>
    rename_i n u x
    refine hset n u u.get.2 hu ?_
    unfold Tape.get
    cases u.items[u.pos]? <;> rfl
  | noOctet hu hx => exact ⟨t, ht, rfl⟩
  | ungetOctet hu hpos => exact hset _ _ _ hu rfl
  | getChunk hu hm hlen hle => exact hset _ _ _ hu rfl
  | noChunk hu hrest => exact ⟨t, ht, rfl⟩
  | getBufferLength hu => exact ⟨t, ht, rfl⟩

theorem fits_isolated {op : BufOp} {out : BufOut} (hv : h.Valid) (hf : Fits h op)
    (hcall : h.call op = some (h', out)) : h'.Valid ∧ Isolated h h' op.writes := by
  obtain ⟨h₁, out₁, hcall₁, hv₁, hstep⟩ := call_refined hv hf
  rw [hcall] at hcall₁
  cases hcall₁
  exact ⟨hv₁, isolated_of_spec fun k t hk ht => step_items hstep hk ht⟩

/-- A location moves, in segments that stay. -/
theorem moved_isolated (b' : BufHead) (hv : h.Valid) (hb : h.bufs[hBuf]? = some b)
    (hsegs : b'.segs = b.segs) (hv' : b'.Valid h) :
    (h.setBuf hBuf b').Valid ∧ Isolated h (h.setBuf hBuf b') [] := by
  obtain ⟨hvalid, hspec⟩ := setBuf_spec hBuf hv hv'
  refine ⟨hvalid, isolated_of_spec fun k t _ ht => ?_⟩
  rw [hspec]
  by_cases hsame : hBuf = k
  · subst hsame
    obtain rfl := Option.some.inj ((spec_get hb).symm.trans ht)
    refine ⟨_, List.getElem?_set_self (List.getElem?_eq_some_iff.1 ht).1, ?_⟩
    show b'.octets h = b.octets h
    unfold BufHead.octets
    rw [hsegs]
  · exact ⟨t, (List.getElem?_set_ne hsame).trans ht, rfl⟩

/-- A new buffer, after a location has moved and strings have been added. -/
theorem newBuf_isolated (hi : Isolated h h' []) (hv' : h'.Valid) (hvb : b'.Valid h') :
    (h'.newBuf b').Valid ∧ Isolated h (h'.newBuf b') [] := by
  obtain ⟨hvalid, hspec⟩ := newBuf_spec hv' hvb
  refine ⟨hvalid, hi.trans (isolated_of_spec fun k t _ ht => ⟨t, ?_, rfl⟩)⟩
  rw [hspec]
  exact (List.getElem?_append_left (List.getElem?_eq_some_iff.1 ht).1).trans ht

/-! ## Copies and clones -/

/-- The loop of `BUF_copy`, whatever the lengths of the segments are. -/
theorem copySegs_adds {l l' : List Segment} : ∀ {h h' : Heap}, h.Valid → (∀ s ∈ l, s.Valid h) →
    copySegs l h = some (l', h') →
    h'.Valid ∧ h'.spec = h.spec ∧ Adds h h' ∧ ∀ s ∈ l', s.Valid h' := by
  induction l generalizing l' with
  | nil =>
    intro h h' hv _ hcopy
    cases hcopy
    exact ⟨hv, rfl, Adds.refl h, fun s hs => by cases hs⟩
  | cons seg l ih =>
    intro h h' hv hvs hcopy
    have hseg := hvs seg List.mem_cons_self
    have hlen := hseg.length
    have hlt : (h.octets seg).length < 2 ^ 16 := by
      have hsize := hv.size seg.string
      have hend := hseg.pEnd
      omega
    obtain ⟨hv₁, hspec₁⟩ := addArea_spec hv hlt
    have hadds := addArea_adds (h := h) (h.octets seg)
    unfold copySegs at hcopy
    dsimp only at hcopy
    split at hcopy
    · cases hcopy
    · obtain ⟨⟨l₁, h₁⟩, hrest, heq⟩ := Option.map_eq_some_iff.1 hcopy
      cases heq
      obtain ⟨hv', hspec', hadds', hvs'⟩ := ih hv₁
        (fun s hs => hadds.valid (hvs s (List.mem_cons_of_mem _ hs))) hrest
      refine ⟨hv', hspec'.trans hspec₁, hadds.trans hadds', fun s hs => ?_⟩
      rcases List.mem_cons.1 hs with rfl | hs
      · refine hadds'.valid (addArea_segment _ (Nat.zero_le _) ?_)
        split
        · exact (List.takeWhile_prefix _).length_le
        · exact Nat.le_refl _
      · exact hvs' s hs

theorem copy_isolated (hv : h.Valid) (hb : h.bufs[hBuf]? = some b) (hcopy : h.copy b = some h') :
    h'.Valid ∧ Isolated h h' [] := by
  have hvb := hv.bufs b (mem_of_get hb)
  obtain ⟨hv₁, hspec₁⟩ := addArea_spec hv (show ([] : Octets).length < 2 ^ 16 by decide)
  have hadds := addArea_adds (h := h) []
  obtain ⟨⟨l, h₁⟩, hsegs, heq⟩ := Option.map_eq_some_iff.1 hcopy
  cases heq
  obtain ⟨hv', hspec', hadds', hvs'⟩ := copySegs_adds hv₁ (fun s hs => hadds.valid (hvb.segs s hs)) hsegs
  have hfirst : Segment.Valid (h.addArea []) ⟨.area h.areas.length, 0, 0⟩ :=
    addArea_segment [] (Nat.le_refl _) (Nat.zero_le _)
  have hvnew := (resetParse_tape (b := ⟨⟨.area h.areas.length, 0, 0⟩ :: l, .head, 0⟩) (fun s hs => by
    rcases List.mem_cons.1 hs with rfl | hs
    · exact hadds'.valid hfirst
    · exact hvs' s hs)).1
  refine newBuf_isolated (isolated_of_spec fun k t _ ht => ⟨t, ?_, rfl⟩) hv' hvnew
  rw [hspec', hspec₁]
  exact ht

/-- The segments that the loop of `BUF_cloneBufferPortion` makes lie in their strings. -/
theorem cloneSegs_valid {strip : Bool} {l : List Segment} : ∀ {n len : Nat} {loc : CurrentSeg × Nat},
    (∀ s ∈ l, s.Valid h) →
    (∀ k s, l[k]? = some s → loc.1 = .seg (n + k) → s.pStart ≤ loc.2 ∧ loc.2 ≤ s.pEnd) →
    ∀ s ∈ (cloneSegs strip l n len loc).1, s.Valid h := by
  induction l with
  | nil =>
    intro n len loc _ _ s hs
    cases hs
  | cons seg l ih =>
    intro n len loc hvs hin s hs
    have hseg := hvs seg List.mem_cons_self
    have hvs' : ∀ s ∈ l, s.Valid h := fun s hs => hvs s (List.mem_cons_of_mem _ hs)
    obtain ⟨p, hp⟩ : ∃ p, (if len ≠ bufEntire ∧ loc.1 = .seg n then loc.2 else seg.pStart) = p := ⟨_, rfl⟩
    have hle : seg.pStart ≤ p ∧ p ≤ seg.pEnd := by
      rw [← hp]
      split
      · next hc => exact hin 0 seg rfl hc.2
      · exact ⟨Nat.le_refl _, hseg.le⟩
    rcases Nat.lt_or_ge (seg.pEnd - p) len with hbeyond | hwithin
    · rw [cloneSegs_beyond hp hbeyond] at hs
      rcases List.mem_cons.1 hs with rfl | hs
      · exact ⟨hseg.string, hle.2, hseg.pEnd⟩
      · refine ih hvs' (fun k s' hs' hat => ?_) s hs
        cases strip with
        | false => exact hin (k + 1) s' hs' (hat.trans (by congr 1; omega))
        | true =>
          cases l with
          | nil => cases hs'
          | cons next l =>
            injection hat with hat
            obtain rfl : k = 0 := by omega
            obtain rfl : next = s' := Option.some.inj hs'
            exact ⟨Nat.le_refl _, (hvs' next List.mem_cons_self).le⟩
    · exact (cloneSegs_within strip l hseg hle.2 hp hwithin).1 s hs

theorem clone_isolated {strip : Bool} {len : Nat} (hv : h.Valid) (hb : h.bufs[hBuf]? = some b)
    (hclone : h.cloneBufferPortion hBuf b len strip = some h') : h'.Valid ∧ Isolated h h' [] := by
  have hvb := hv.bufs b (mem_of_get hb)
  -- the location of the source and the segments of the clone
  have hmade : ∀ r : List Segment × (CurrentSeg × Nat), (∀ s ∈ r.1, s.Valid h) →
      BufHead.Valid h { b with pCurrentSeg := r.2.1, pX := r.2.2 } →
      ((h.setBuf hBuf { b with pCurrentSeg := r.2.1, pX := r.2.2 }).newBuf
        (BufHead.resetParse ⟨r.1, .head, 0⟩)).Valid ∧
      Isolated h ((h.setBuf hBuf { b with pCurrentSeg := r.2.1, pX := r.2.2 }).newBuf
        (BufHead.resetParse ⟨r.1, .head, 0⟩)) [] := by
    intro r hvs hvsource
    obtain ⟨hv₁, hi₁⟩ := moved_isolated { b with pCurrentSeg := r.2.1, pX := r.2.2 } hv hb rfl hvsource
    have hvs₁ : ∀ s ∈ r.1, s.Valid (h.setBuf hBuf { b with pCurrentSeg := r.2.1, pX := r.2.2 }) :=
      fun s hs => ⟨(hvs s hs).string, (hvs s hs).le, (hvs s hs).pEnd⟩
    exact newBuf_isolated hi₁ hv₁ (resetParse_tape (b := ⟨r.1, .head, 0⟩) hvs₁).1
  have hat : ∀ k s, b.segs[k]? = some s → b.pCurrentSeg = .seg k → s.pStart ≤ b.pX ∧ b.pX ≤ s.pEnd := by
    intro k s hs hcur
    obtain ⟨s', hs', hle⟩ := hvb.current k hcur
    obtain rfl := Option.some.inj (hs.symm.trans hs')
    exact hle
  unfold Heap.cloneBufferPortion at hclone
  dsimp only at hclone
  split at hclone
  · next hentire =>
    cases hclone
    apply hmade
    · exact cloneSegs_valid hvb.segs fun k s hs hcur => hat k s hs (by rw [← Nat.zero_add k]; exact hcur)
    · cases strip with
      | false =>
        rw [cloneSegs_loc]
        exact hvb
      | true =>
        cases hsegs : b.segs with
        | nil =>
          rw [cloneSegs]
          exact hsegs ▸ hvb
        | cons seg l =>
          have hseg : seg.Valid h := hvb.segs seg (hsegs ▸ List.mem_cons_self)
          have hp : (if len ≠ bufEntire ∧ b.pCurrentSeg = .seg 0 then b.pX else seg.pStart) =
            seg.pStart := if_neg fun hcond => hcond.1 hentire
          rw [← hsegs]
          exact (cloned_loc (n := 0) true hvb hsegs hp (Nat.le_refl _) hseg.le
            (fun hzero => absurd (hentire.symm.trans hzero) (by decide)) (by rw [hsegs])).1
  · next hentire =>
    split at hclone
    · next n hcur =>
      cases hclone
      obtain ⟨seg, hseg, hle, hle'⟩ := hvb.current n hcur
      obtain ⟨hbound, hget⟩ := List.getElem?_eq_some_iff.1 hseg
      have hdrop : b.segs.drop n = seg :: b.segs.drop (n + 1) := by
        rw [List.drop_eq_getElem_cons hbound, hget]
      have hp : (if len ≠ bufEntire ∧ b.pCurrentSeg = .seg n then b.pX else seg.pStart) = b.pX :=
        if_pos ⟨hentire, hcur⟩
      apply hmade
      · refine cloneSegs_valid (fun s hs => hvb.segs s (List.mem_of_mem_drop hs)) fun k s hs hcur' => ?_
        rw [List.getElem?_drop] at hs
        exact hat (n + k) s hs hcur'
      · rw [hdrop]
        exact (cloned_loc strip hvb hdrop hp hle hle' (fun _ => ⟨hcur, rfl⟩) rfl).1
    · next hcur =>
      cases hclone
      exact hmade ([], (.head, b.pX)) (fun s hs => by cases hs)
        ⟨hvb.segs, fun n hn => (by cases hn), fun hn => by cases hn⟩
    · next hcur =>
      split at hclone
      · cases hclone
        exact hmade ([], (.elsewhere, b.pX)) (fun s hs => by cases hs)
          ⟨hvb.segs, fun n hn => (by cases hn), fun _ => hvb.elsewhere hcur⟩
      · cases hclone

/-! ## The other calls -/

theorem ungetOctet_isolated (hv : h.Valid) (hb : h.bufs[hBuf]? = some b)
    (hback : h.ungetOctet hBuf b = some h') : h'.Valid ∧ Isolated h h' [] := by
  have hvb := hv.bufs b (mem_of_get hb)
  have hinto : ∀ m b', backInto b m = some b' → b'.segs = b.segs ∧ b'.Valid h := by
    intro m b' hm
    unfold backInto at hm
    split at hm
    · cases hm
    · next seg hseg =>
      split at hm
      · next hlt =>
        cases hm
        refine ⟨rfl, hvb.segs, fun k hk => ?_, fun hk => by cases hk⟩
        cases hk
        exact ⟨seg, hseg, by show seg.pStart ≤ seg.pEnd - 1; omega, Nat.sub_le _ _⟩
      · cases hm
  unfold Heap.ungetOctet at hback
  split at hback
  · cases hback
  · obtain ⟨b', hinto', rfl⟩ := Option.map_eq_some_iff.1 hback
    exact moved_isolated b' hv hb (hinto _ _ hinto').1 (hinto _ _ hinto').2
  · next n hcur =>
    split at hback
    · cases hback
    · next seg hseg =>
      split at hback
      · split at hback
        · cases hback
        · obtain ⟨b', hinto', rfl⟩ := Option.map_eq_some_iff.1 hback
          exact moved_isolated b' hv hb (hinto _ _ hinto').1 (hinto _ _ hinto').2
      · next hx =>
        cases hback
        obtain ⟨seg', hseg', hle, hle'⟩ := hvb.current n hcur
        obtain rfl := Option.some.inj (hseg.symm.trans hseg')
        refine moved_isolated _ hv hb rfl ⟨hvb.segs, fun k hk => ?_, hvb.elsewhere⟩
        obtain rfl : n = k := CurrentSeg.seg.inj (hcur.symm.trans hk)
        exact ⟨seg, hseg, by show seg.pStart ≤ b.pX - 1; omega, by show b.pX - 1 ≤ seg.pEnd; omega⟩

theorem prependBuffer_isolated {m : Nat} (hv : h.Valid) (hb : h.bufs[hBuf]? = some b)
    (hb' : h.bufs[m]? = some b') (hcall : h.prependBuffer hBuf b m b' = some h') :
    h'.Valid ∧ Isolated h h' [hBuf, m] := by
  have hvb := hv.bufs b (mem_of_get hb)
  have hvb' := hv.bufs b' (mem_of_get hb')
  unfold Heap.prependBuffer at hcall
  split at hcall
  · cases hcall
  cases hcall
  have hleft : ∀ n, b'.pCurrentSeg.left ≠ .seg n := by
    intro n hn
    cases hcur : b'.pCurrentSeg <;> rw [hcur] at hn <;> cases hn
  obtain ⟨hv₁, hspec₁⟩ := setBuf_spec m hv (empty_tape h b'.pX hleft).1
  have hvs : ∀ s ∈ b'.segs ++ b.segs, s.Valid (h.setBuf m ⟨[], b'.pCurrentSeg.left, b'.pX⟩) := by
    intro s hs
    have hold := (List.mem_append.1 hs).elim (hvb'.segs s) (hvb.segs s)
    exact ⟨hold.string, hold.le, hold.pEnd⟩
  obtain ⟨hv₂, hspec₂⟩ := setBuf_spec hBuf hv₁
    (resetParse_tape (b := { b with segs := b'.segs ++ b.segs }) hvs).1
  refine ⟨hv₂, isolated_of_spec fun k t hk ht => ⟨t, ?_, rfl⟩⟩
  have hk₁ : hBuf ≠ k := fun heq => hk (heq ▸ List.mem_cons_self)
  have hk₂ : m ≠ k := fun heq => hk (heq ▸ List.mem_cons_of_mem _ List.mem_cons_self)
  rw [hspec₂, hspec₁]
  exact (List.getElem?_set_ne hk₁).trans ((List.getElem?_set_ne hk₂).trans ht)

/-! ## Octets in front -/

/-- Segments of the same lengths that hold the same octets altogether hold the same octets. -/
theorem octets_inj {l : List Segment} (hlen : ∀ s ∈ l, (h'.octets s).length = (h.octets s).length)
    (heq : l.flatMap h'.octets = l.flatMap h.octets) : ∀ s ∈ l, h'.octets s = h.octets s := by
  induction l with
  | nil => exact fun s hs => by cases hs
  | cons seg l ih =>
    rw [List.flatMap_cons, List.flatMap_cons] at heq
    obtain ⟨hfirst, hrest⟩ := List.append_inj heq (hlen seg List.mem_cons_self)
    intro s hs
    rcases List.mem_cons.1 hs with rfl | hs
    · exact hfirst
    · exact ih (fun s hs => hlen s (List.mem_cons_of_mem _ hs)) hrest s hs

/-- A segment that the octet is written into holds what it held if and only if the octet is the same. -/
theorem store_octets_iff {i : Nat} {x : UInt8} (hv : seg.Valid h) :
    (h.store r i x).octets seg = h.octets seg ↔
      (seg.string = r → seg.pStart ≤ i → i < seg.pEnd → (h.data r)[i]? = some x) := by
  have hend := hv.pEnd
  constructor
  · rintro heq rfl hle hlt
    have hget := congrArg (fun l => l[i - seg.pStart]?) heq
    unfold Heap.octets at hget
    rw [slice_getElem? (by omega), slice_getElem? (by omega), store_data, if_pos rfl,
      show seg.pStart + (i - seg.pStart) = i by omega, List.getElem?_set_self (by omega)] at hget
    exact hget.symm
  · intro hsame
    by_cases hin : seg.string = r ∧ seg.pStart ≤ i ∧ i < seg.pEnd
    · obtain ⟨rfl, hle, hlt⟩ := hin
      have hold := hsame rfl hle hlt
      have hset : (h.data seg.string).set i x = h.data seg.string := by
        obtain ⟨hbound, hget⟩ := List.getElem?_eq_some_iff.1 hold
        rw [← hget]
        exact List.set_getElem_self hbound
      unfold Heap.octets
      rw [store_data, if_pos rfl, hset]
    · exact (store_outside hv fun heq => by
        by_contra hnot
        exact hin ⟨heq, by omega, by omega⟩).2

/-- **`BUF_addOctet`** leaves the other buffers alone if and only if it spares their octets. -/
theorem addOctet_isolated {x : UInt8} (hv : h.Valid) (hb : h.bufs[hBuf]? = some b)
    (hcall : h.addOctet hBuf b x = some h') :
    h'.Valid ∧ (Isolated h h' [hBuf] ↔ h.SparesOctet hBuf x) := by
  have hvb := hv.bufs b (mem_of_get hb)
  have hlt : hBuf < h.bufs.length := (List.getElem?_eq_some_iff.1 hb).1
  cases hcurrent : b.current with
  | none =>
    unfold Heap.addOctet at hcall
    rw [hcurrent] at hcall
    cases hcall
  | some p =>
  obtain ⟨n, seg⟩ := p
  obtain ⟨hcur, hseg⟩ := current_cases hcurrent
  by_cases hzero : seg.pStart = 0
  · -- a new segment
    have hf : Fits h (.addOctet hBuf x) := ⟨b, hb, n, seg, hcurrent, .inl hzero⟩
    have hdone : h.call (.addOctet hBuf x) = some (h', .done) := by simp [call, hb, hcall]
    obtain ⟨hv', hi⟩ := fits_isolated hv hf hdone
    refine ⟨hv', fun _ => ?_, fun _ => hi⟩
    intro b₁ n₁ seg₁ hb₁ hcurrent₁ hne
    obtain rfl := Option.some.inj (hb.symm.trans hb₁)
    rw [hcurrent] at hcurrent₁
    cases hcurrent₁
    exact absurd hzero hne
  · -- in front of the location
    obtain ⟨seg', hseg', hle, hle'⟩ := hvb.current n hcur
    obtain rfl := Option.some.inj (hseg.symm.trans hseg')
    obtain ⟨h₁, hh₁⟩ : ∃ h₁, h.store seg.string (b.pX - 1) x = h₁ := ⟨_, rfl⟩
    obtain ⟨b₁, hb₁⟩ : ∃ b₁, BufHead.mk (b.segs.set n { seg with pStart := seg.pStart - 1 })
      b.pCurrentSeg (b.pX - 1) = b₁ := ⟨_, rfl⟩
    have hh' : h' = h₁.setBuf hBuf b₁ := by
      unfold Heap.addOctet at hcall
      rw [hcurrent] at hcall
      simp only [if_neg hzero, hh₁, hb₁, Option.some.injEq] at hcall
      exact hcall.symm
    have hbufs : h₁.bufs = h.bufs := by
      rw [← hh₁]
      cases seg.string <;> rfl
    have hsegs : ∀ s : Segment, s.Valid h → s.Valid (h₁.setBuf hBuf b₁) := by
      intro s hs
      have hs₁ : s.Valid h₁ := hh₁ ▸ store_valid hs
      exact ⟨hs₁.string, hs₁.le, hs₁.pEnd⟩
    have hoctets : ∀ s : Segment, (h₁.setBuf hBuf b₁).octets s =
        (h.store seg.string (b.pX - 1) x).octets s := fun s => by rw [hh₁]; rfl
    have hvseg := hvb.seg_valid hseg
    subst hh'
    refine ⟨⟨fun b' hb' => ?_, fun r => ?_⟩, fun hi => ?_, fun hspares => ?_⟩
    · show b'.Valid _
      have hmem : b' ∈ h.bufs.set hBuf b₁ := by
        rw [← hbufs]
        exact hb'
      rcases List.mem_or_eq_of_mem_set hmem with hmem | rfl
      · have hvb' := hv.bufs b' hmem
        exact ⟨fun s hs => hsegs s (hvb'.segs s hs), hvb'.current, hvb'.elsewhere⟩
      · subst hb₁
        refine ⟨fun s hs => ?_, fun m hm => ?_, fun hm => ?_⟩
        · rcases List.mem_or_eq_of_mem_set hs with hs | rfl
          · exact hsegs s (hvb.segs s hs)
          · exact hsegs _ ⟨hvseg.string, by show seg.pStart - 1 ≤ seg.pEnd; omega, hvseg.pEnd⟩
        · obtain rfl : n = m := CurrentSeg.seg.inj (hcur.symm.trans hm)
          refine ⟨_, List.getElem?_set_self (List.getElem?_eq_some_iff.1 hseg).1, ?_, ?_⟩
          · show seg.pStart - 1 ≤ b.pX - 1
            omega
          · show b.pX - 1 ≤ seg.pEnd
            omega
        · cases hcur.symm.trans hm
    · show (h₁.data r).length < 2 ^ 16
      rw [← hh₁, store_length]
      exact hv.size r
    · intro b₂ n₂ seg₂ hb₂ hcurrent₂ _ k b' hk hb' s hs hstring hlo hhi
      obtain rfl := Option.some.inj (hb.symm.trans hb₂)
      rw [hcurrent] at hcurrent₂
      cases hcurrent₂
      obtain ⟨b'', hb'', heq⟩ := hi k b' (fun hmem => hk (List.mem_singleton.1 hmem)) hb'
      have hsame : (h₁.bufs.set hBuf b₁)[k]? = some b' := by
        rw [List.getElem?_set_ne (Ne.symm hk), hbufs, hb']
      obtain rfl := Option.some.inj (hsame.symm.trans hb'')
      have hvb' := hv.bufs b' (mem_of_get hb')
      have hone := octets_inj (fun s hs => by
        rw [(hsegs s (hvb'.segs s hs)).length, (hvb'.segs s hs).length]) heq s hs
      rw [hoctets] at hone
      exact (store_octets_iff (hvb'.segs s hs)).1 hone hstring (by omega) (by omega)
    · intro k b' hk hb'
      have hk : k ≠ hBuf := fun heq => hk (List.mem_singleton.2 heq)
      have hvb' := hv.bufs b' (mem_of_get hb')
      refine ⟨b', ?_, flatMap_congr fun s hs => ?_⟩
      · show (h₁.bufs.set hBuf b₁)[k]? = some b'
        rw [List.getElem?_set_ne (Ne.symm hk), hbufs, hb']
      · rw [hoctets]
        refine (store_octets_iff (hvb'.segs s hs)).2 fun hstring hlo hhi => ?_
        exact hspares b n seg hb hcurrent hzero k b' hk hb' s hs hstring (by omega) (by omega)

/-! ## All calls -/

theorem and_iff_trivial {p q : Prop} (hpq : p ∧ q) : p ∧ (q ↔ True) :=
  ⟨hpq.1, fun _ => trivial, fun _ => hpq.2⟩

/-- **A call** keeps the buffers valid, and leaves those that it is not on alone if and only if it
spares their octets. -/
theorem call_isolated {op : BufOp} {out : BufOut} (hv : h.Valid) (hcall : h.call op = some (h', out)) :
    h'.Valid ∧ (Isolated h h' op.writes ↔ Spares h (.call op)) := by
  cases op with
  | string chunk =>
    exact and_iff_trivial (fits_isolated hv (show Fits h (.string chunk) from trivial) hcall)
  | alloc minSize =>
    exact and_iff_trivial (fits_isolated hv (show Fits h (.alloc minSize) from trivial) hcall)
  | addOctet hBuf octet =>
    obtain ⟨b, hb, hadd⟩ := Option.bind_eq_some_iff.1 hcall
    obtain ⟨h₁, hstored, heq⟩ := Option.bind_eq_some_iff.1 hadd
    cases heq
    exact addOctet_isolated hv hb hstored
  | prependChunk hBuf string =>
    obtain ⟨b, hb, hput⟩ := Option.bind_eq_some_iff.1 hcall
    split at hput
    · next hk =>
      exact and_iff_trivial (fits_isolated hv (show Fits h (.prependChunk hBuf string) from
        ⟨(List.getElem?_eq_some_iff.1 hb).1, hk⟩) hcall)
    · cases hput
  | appendChunk hBuf string =>
    obtain ⟨b, hb, hput⟩ := Option.bind_eq_some_iff.1 hcall
    split at hput
    · next hk =>
      exact and_iff_trivial (fits_isolated hv (show Fits h (.appendChunk hBuf string) from
        ⟨(List.getElem?_eq_some_iff.1 hb).1, hk⟩) hcall)
    · cases hput
  | appendBuffer hBuf m =>
    obtain ⟨b, hb, hput⟩ := Option.bind_eq_some_iff.1 hcall
    obtain ⟨b', hb', hput⟩ := Option.bind_eq_some_iff.1 hput
    obtain ⟨h₁, happ, -⟩ := Option.bind_eq_some_iff.1 hput
    have hf : Fits h (.appendBuffer hBuf m) := by
      unfold Heap.appendBuffer at happ
      dsimp only at happ
      split at happ
      · cases happ
      · next last hlast =>
        split at happ
        · cases happ
        · next hne =>
          refine ⟨hne, b, b', hb, hb', ?_⟩
          by_contra hnil
          obtain ⟨hb₁, hb₂⟩ := not_or.1 hnil
          rw [not_not.1 hb₁, not_not.1 hb₂] at hlast
          cases hlast
    exact and_iff_trivial (fits_isolated hv hf hcall)
  | copy hBufSrc =>
    obtain ⟨b, hb, hcopy⟩ := Option.bind_eq_some_iff.1 hcall
    obtain ⟨h₁, hcopied, heq⟩ := Option.bind_eq_some_iff.1 hcopy
    cases heq
    exact and_iff_trivial (copy_isolated hv hb hcopied)
  | cloneBufferPortion hBuf len strip =>
    obtain ⟨b, hb, hclone⟩ := Option.bind_eq_some_iff.1 hcall
    obtain ⟨h₁, hcloned, heq⟩ := Option.bind_eq_some_iff.1 hclone
    cases heq
    exact and_iff_trivial (clone_isolated hv hb hcloned)
  | resetParse hBuf =>
    obtain ⟨b, hb, -⟩ := Option.bind_eq_some_iff.1 hcall
    exact and_iff_trivial (fits_isolated hv (show Fits h (.resetParse hBuf) from
      (List.getElem?_eq_some_iff.1 hb).1) hcall)
  | getOctet hBuf =>
    obtain ⟨b, hb, -⟩ := Option.bind_eq_some_iff.1 hcall
    have hcan : CanGet b := by
      by_contra hnot
      rw [getOctet_none hb hnot] at hcall
      cases hcall
    exact and_iff_trivial (fits_isolated hv (show Fits h (.getOctet hBuf) from ⟨b, hb, hcan⟩) hcall)
  | ungetOctet hBuf =>
    obtain ⟨b, hb, hback⟩ := Option.bind_eq_some_iff.1 hcall
    obtain ⟨h₁, hmoved, heq⟩ := Option.bind_eq_some_iff.1 hback
    cases heq
    exact and_iff_trivial (ungetOctet_isolated hv hb hmoved)
  | getChunk hBuf len =>
    obtain ⟨b, hb, hchunk⟩ := Option.bind_eq_some_iff.1 hcall
    unfold Heap.getChunk at hchunk
    split at hchunk
    · next n hcur =>
      exact and_iff_trivial (fits_isolated hv (show Fits h (.getChunk hBuf len) from ⟨b, n, hb, hcur⟩) hcall)
    · cases hchunk
  | getBufferLength hBuf =>
    obtain ⟨b, hb, heq⟩ := Option.bind_eq_some_iff.1 hcall
    cases heq
    exact and_iff_trivial ⟨hv, Isolated.refl h []⟩

theorem callAny_isolated {op : AnyOp} (hv : h.Valid) (hcall : h.callAny op = some h') :
    h'.Valid ∧ (Isolated h h' op.writes ↔ Spares h op) := by
  cases op with
  | prependBuffer hBuf m =>
    obtain ⟨b, hb, hcall⟩ := Option.bind_eq_some_iff.1 hcall
    obtain ⟨b', hb', hcall⟩ := Option.bind_eq_some_iff.1 hcall
    exact and_iff_trivial (prependBuffer_isolated hv hb hb' hcall)
  | call op =>
    obtain ⟨⟨h₁, out⟩, hout, rfl⟩ := Option.map_eq_some_iff.1 hcall
    exact call_isolated hv hout

/-! ## Runs -/

/-- The buffers stay valid, whatever is called. -/
theorem calls_valid {ok : Heap → AnyOp → Prop} {log : List AnyOp} (hv : h.Valid)
    (hx : Run.Exec Heap.calls ok h log h') : h'.Valid := by
  refine hx.invariant (fun s op t o hv _ hs => ?_) hv
  obtain ⟨t', hcall, heq⟩ := Option.map_eq_some_iff.1 hs
  cases heq
  exact (callAny_isolated hv hcall).1

theorem empty_valid : Heap.Valid Heap.empty := by
  refine ⟨fun b hb => (by cases hb), fun r => ?_⟩
  have hnil : Heap.empty.data r = [] := by cases r <;> rfl
  rw [hnil]
  exact Nat.two_pow_pos 16

/-- A buffer with a clone of its first two octets. -/
def withClone : Heap :=
  ⟨[[1, 2, 3]], [[]], [⟨[⟨.area 0, 0, 0⟩, ⟨.chunk 0, 0, 3⟩], .seg 0, 0⟩,
    ⟨[⟨.area 0, 0, 0⟩, ⟨.chunk 0, 0, 2⟩], .seg 0, 0⟩]⟩

/-- The calls that make it. -/
def withCloneLog : List AnyOp :=
  [.call (.string ⟨[1, 2, 3], by decide⟩), .call (.alloc 0), .call (.appendChunk 0 0),
    .call (.resetParse 0), .call (.cloneBufferPortion 0 2 false)]

end Ocp
