import Emsd.Ocp.Cursor

/-!
# Clones of a portion

* `cloneSegs_contents`: the octets of the segments that the loop of `BUF_cloneBufferPortion` makes.
* `cloneSegs_strip`: the location of a source whose cloned portion is stripped.
-/

namespace Ocp

open Slice Tapes

open Heap

variable {h h' : Heap} {b b' : BufHead} {seg : Segment} {n hBuf : Nat} {r r' : StringRef}

/-! ## Clones -/

section Clones

variable {strip : Bool} {l : List Segment} {len p : Nat} {loc : CurrentSeg × Nat}

/-- The portion ends in the first segment. -/
theorem cloneSegs_within (strip : Bool) (l : List Segment) (hseg : seg.Valid h) (hle' : p ≤ seg.pEnd)
    (hp : (if len ≠ bufEntire ∧ loc.1 = .seg n then loc.2 else seg.pStart) = p)
    (hwithin : len ≤ seg.pEnd - p) :
    (∀ s ∈ (cloneSegs strip (seg :: l) n len loc).1, s.Valid h) ∧
      (cloneSegs strip (seg :: l) n len loc).1.flatMap h.octets =
        (slice (h.data seg.string) p seg.pEnd).take len ∧
      (len ≠ 0 → (cloneSegs strip (seg :: l) n len loc).2 =
        if strip then (.seg n, p + len) else loc) := by
  unfold cloneSegs
  by_cases hzero : len = 0
  · rw [if_pos hzero, hzero]
    exact ⟨fun s hs => (by cases hs), rfl, fun hne => absurd rfl hne⟩
  rw [if_neg hzero, hp, if_pos hwithin, slice_take (by omega)]
  refine ⟨fun s hs => ?_, List.flatMap_singleton _ _, fun _ => rfl⟩
  obtain rfl := List.mem_singleton.1 hs
  exact ⟨hseg.string, Nat.le_add_right p len, le_trans (by show p + len ≤ _; omega) hseg.pEnd⟩

/-- The portion goes on in the other segments. -/
theorem cloneSegs_beyond
    (hp : (if len ≠ bufEntire ∧ loc.1 = .seg n then loc.2 else seg.pStart) = p)
    (hbeyond : seg.pEnd - p < len) :
    cloneSegs strip (seg :: l) n len loc =
      let r := cloneSegs strip l (n + 1) (len - (seg.pEnd - p)) (if strip then
        match l with
        | [] => (.head, loc.2)
        | next :: _ => (.seg (n + 1), next.pStart)
        else loc)
      ({ seg with pStart := p } :: r.1, r.2) := by
  have hlen : ¬len = 0 := by omega
  have hge : ¬seg.pEnd - p ≥ len := by omega
  conv_lhs => unfold cloneSegs
  refine (if_neg hlen).trans ?_
  rw [hp]
  exact (if_neg hge).trans (by cases l <;> rfl)

/-- The octets of the segments that the loop of `BUF_cloneBufferPortion` makes, when it begins at `p`
in the first one and at the beginning of all others. -/
theorem cloneSegs_contents (strip : Bool) : ∀ {n len p : Nat} {seg : Segment} (loc : CurrentSeg × Nat),
    (∀ s ∈ seg :: l, s.Valid h) →
    (if len ≠ bufEntire ∧ loc.1 = .seg n then loc.2 else seg.pStart) = p →
    seg.pStart ≤ p → p ≤ seg.pEnd →
    (strip = false → ∀ k s, l[k]? = some s → loc.1 = .seg (n + 1 + k) → loc.2 = s.pStart ∨
      (len = bufEntire ∧ p = seg.pEnd ∧ ∀ s' ∈ l.take k, s'.pStart = s'.pEnd)) →
    (∀ s ∈ (cloneSegs strip (seg :: l) n len loc).1, s.Valid h) ∧
      (cloneSegs strip (seg :: l) n len loc).1.flatMap h.octets =
        (slice (h.data seg.string) p seg.pEnd ++ l.flatMap h.octets).take len := by
  induction l with
  | nil =>
    intro n len p seg loc hvs hp _ hle' _
    have hseg := hvs seg List.mem_cons_self
    have hlen := slice_length (a := p) hseg.pEnd
    rw [List.flatMap_nil, List.append_nil]
    rcases Nat.lt_or_ge (seg.pEnd - p) len with hbeyond | hwithin
    · rw [cloneSegs_beyond hp hbeyond, List.take_of_length_le (by omega), cloneSegs]
      refine ⟨fun s hs => ?_, List.flatMap_singleton _ _⟩
      obtain rfl := List.mem_singleton.1 hs
      exact ⟨hseg.string, hle', hseg.pEnd⟩
    · obtain ⟨hvalid, hoctets, -⟩ := cloneSegs_within strip [] hseg hle' hp hwithin
      exact ⟨hvalid, hoctets⟩
  | cons next l ih =>
    intro n len p seg loc hvs hp _ hle' hothers
    have hseg := hvs seg List.mem_cons_self
    have hlen := slice_length (a := p) hseg.pEnd
    rcases Nat.lt_or_ge (seg.pEnd - p) len with hbeyond | hwithin
    · have hnext := hvs next (List.mem_cons_of_mem _ List.mem_cons_self)
      obtain ⟨loc', hloc'⟩ : ∃ loc', (if strip then (CurrentSeg.seg (n + 1), next.pStart) else loc) =
        loc' := ⟨_, rfl⟩
      -- the next one is begun at its beginning
      have hp' : (if len - (seg.pEnd - p) ≠ bufEntire ∧ loc'.1 = .seg (n + 1) then loc'.2
          else next.pStart) = next.pStart := by
        split
        · next hcond =>
          cases strip with
          | true => exact congrArg Prod.snd hloc'.symm
          | false =>
            obtain rfl : loc = loc' := hloc'
            rcases hothers rfl 0 next rfl hcond.2 with heq | ⟨hentire, hend, -⟩
            · exact heq
            · exact absurd (show len - (seg.pEnd - p) = bufEntire by omega) hcond.1
        · rfl
      have hothers' : strip = false → ∀ k s, l[k]? = some s → loc'.1 = .seg (n + 1 + 1 + k) →
          loc'.2 = s.pStart ∨ (len - (seg.pEnd - p) = bufEntire ∧ next.pStart = next.pEnd ∧
            ∀ s' ∈ l.take k, s'.pStart = s'.pEnd) := by
        rintro rfl k s hs hat
        obtain rfl : loc = loc' := hloc'
        rcases hothers rfl (k + 1) s hs (by rw [hat]; congr 1; omega) with heq | ⟨hentire, hend, hnone⟩
        · exact .inl heq
        · rw [List.take_succ_cons] at hnone
          exact .inr ⟨by omega, hnone next List.mem_cons_self,
            fun s' hs' => hnone s' (List.mem_cons_of_mem _ hs')⟩
      obtain ⟨hvalid, hoctets⟩ := ih loc' (fun s hs => hvs s (List.mem_cons_of_mem _ hs)) hp'
        (Nat.le_refl _) hnext.le hothers'
      rw [cloneSegs_beyond hp hbeyond]
      dsimp only
      rw [hloc']
      refine ⟨fun s hs => ?_, ?_⟩
      · rcases List.mem_cons.1 hs with rfl | hs
        · exact ⟨hseg.string, hle', hseg.pEnd⟩
        · exact hvalid s hs
      · rw [List.flatMap_cons, hoctets]
        conv_rhs => rw [List.take_append, hlen, List.take_of_length_le (by omega), List.flatMap_cons]
        rfl
    · obtain ⟨hvalid, hoctets, -⟩ :=
        cloneSegs_within strip (next :: l) hseg hle' hp hwithin
      exact ⟨hvalid, by rw [hoctets, List.take_append_of_le_length (by omega)]⟩

/-- The location of a buffer whose stripped portion ends in segment number `n`. -/
theorem strip_within (hv : b.Valid h) (hseg : b.segs[n]? = some seg)
    (hp : (if len ≠ bufEntire ∧ loc.1 = .seg n then loc.2 else seg.pStart) = p)
    (hle : seg.pStart ≤ p) (hle' : p ≤ seg.pEnd) (hwithin : len ≤ seg.pEnd - p)
    (hzero : len = 0 → loc = (.seg n, p)) {loc' : CurrentSeg × Nat}
    (hloc' : (cloneSegs true (seg :: l) n len loc).2 = loc') :
    BufHead.tape h { b with pCurrentSeg := loc'.1, pX := loc'.2 } =
      ⟨b.octets h, (b.before h n).length + (p - seg.pStart) + len⟩ ∧
    BufHead.Valid h { b with pCurrentSeg := loc'.1, pX := loc'.2 } := by
  have hat : loc' = (.seg n, p + len) := by
    rw [← hloc']
    by_cases hlen : len = 0
    · unfold cloneSegs
      rw [if_pos hlen, hzero hlen, hlen, Nat.add_zero]
    · obtain ⟨-, -, hmoved⟩ := cloneSegs_within true l (hv.seg_valid hseg) hle' hp hwithin
      exact hmoved hlen
  subst hat
  obtain ⟨hmoved, htape⟩ := move_tape (x := p + len) hv hseg (by omega) (by omega)
  refine ⟨htape.trans ?_, hmoved⟩
  congr 1
  omega

/-- The location of a buffer whose cloned portion is stripped. -/
theorem cloneSegs_strip (hv : b.Valid h) : ∀ {n len p : Nat} {seg : Segment} (loc : CurrentSeg × Nat),
    b.segs.drop n = seg :: l →
    (if len ≠ bufEntire ∧ loc.1 = .seg n then loc.2 else seg.pStart) = p →
    seg.pStart ≤ p → p ≤ seg.pEnd → (len = 0 → loc = (.seg n, p)) →
    ∀ loc', (cloneSegs true (seg :: l) n len loc).2 = loc' →
    BufHead.tape h { b with pCurrentSeg := loc'.1, pX := loc'.2 } = ⟨b.octets h,
      (b.before h n).length + (p - seg.pStart) +
        min len (slice (h.data seg.string) p seg.pEnd ++ l.flatMap h.octets).length⟩ ∧
    BufHead.Valid h { b with pCurrentSeg := loc'.1, pX := loc'.2 } := by
  induction l with
  | nil =>
    intro n len p seg loc hl hp hle hle' hzero loc' hloc'
    have hseg := seg_of_drop hl
    have hvs := hv.seg_valid hseg
    have hlen := slice_length (a := p) hvs.pEnd
    rw [List.flatMap_nil, List.append_nil, hlen]
    rcases Nat.lt_or_ge (seg.pEnd - p) len with hbeyond | hwithin
    · rw [cloneSegs_beyond hp hbeyond, cloneSegs] at hloc'
      subst hloc'
      refine ⟨?_, hv.segs, fun m hm => (by cases hm), fun hm => by cases hm⟩
      have hnil : b.segs.drop (n + 1) = [] := by
        rw [← List.drop_drop, hl, List.drop_one, List.tail_cons]
      have hseglen := hvs.length
      have hall : (b.octets h).length = (b.before h n).length + (seg.pEnd - seg.pStart) := by
        rw [octets_split hseg, hnil, List.flatMap_nil, List.append_nil, List.length_append, hseglen]
      show (⟨b.octets h, (b.octets h).length⟩ : Tape UInt8) = _
      congr 1
      omega
    · rw [Nat.min_eq_left hwithin]
      exact strip_within hv hseg hp hle hle' hwithin hzero hloc'
  | cons next l ih =>
    intro n len p seg loc hl hp hle hle' hzero loc' hloc'
    have hseg := seg_of_drop hl
    have hvs := hv.seg_valid hseg
    have hlen := slice_length (a := p) hvs.pEnd
    rw [List.length_append, hlen]
    rcases Nat.lt_or_ge (seg.pEnd - p) len with hbeyond | hwithin
    · have hdrop : b.segs.drop (n + 1) = next :: l := by
        rw [← List.drop_drop, hl, List.drop_one, List.tail_cons]
      have hnext := seg_of_drop hdrop
      have hseglen := hvs.length
      rw [cloneSegs_beyond hp hbeyond] at hloc'
      obtain ⟨htape, hvalid⟩ := ih (.seg (n + 1), next.pStart) hdrop (ite_self _)
        (Nat.le_refl _) (hv.seg_valid hnext).le (fun hnil => absurd hnil (by omega)) loc' hloc'
      refine ⟨htape.trans ?_, hvalid⟩
      have hcontents : slice (h.data next.string) next.pStart next.pEnd ++ l.flatMap h.octets =
        (next :: l).flatMap h.octets := by rw [List.flatMap_cons]; rfl
      rw [hcontents, octets_before_succ hseg, List.length_append]
      congr 1
      omega
    · rw [Nat.min_eq_left (by omega)]
      exact strip_within hv hseg hp hle hle' hwithin hzero hloc'

/-- A location that is not moved along stays. -/
theorem cloneSegs_loc {loc : CurrentSeg × Nat} : ∀ {n len : Nat},
    (cloneSegs false l n len loc).2 = loc := by
  induction l with
  | nil =>
    intro n len
    rw [cloneSegs]
  | cons seg l ih =>
    intro n len
    by_cases hzero : len = 0
    · unfold cloneSegs
      rw [if_pos hzero]
    obtain ⟨p, hp⟩ : ∃ p, (if len ≠ bufEntire ∧ loc.1 = .seg n then loc.2 else seg.pStart) = p := ⟨_, rfl⟩
    rcases Nat.lt_or_ge (seg.pEnd - p) len with hbeyond | hwithin
    · rw [cloneSegs_beyond hp hbeyond]
      exact ih
    · unfold cloneSegs
      rw [if_neg hzero, hp, if_pos hwithin]
      rfl

/-- The location of the source, from segment number `n` on. -/
theorem cloned_loc (strip : Bool) (hv : b.Valid h) (hl : b.segs.drop n = seg :: l)
    (hp : (if len ≠ bufEntire ∧ b.pCurrentSeg = .seg n then b.pX else seg.pStart) = p)
    (hle : seg.pStart ≤ p) (hle' : p ≤ seg.pEnd) (hzero : len = 0 → b.pCurrentSeg = .seg n ∧ b.pX = p)
    {loc' : CurrentSeg × Nat}
    (hloc' : (cloneSegs strip (seg :: l) n len (b.pCurrentSeg, b.pX)).2 = loc') :
    BufHead.Valid h { b with pCurrentSeg := loc'.1, pX := loc'.2 } ∧
    BufHead.tape h { b with pCurrentSeg := loc'.1, pX := loc'.2 } = if strip then
      ⟨b.octets h, (b.before h n).length + (p - seg.pStart) +
        min len (slice (h.data seg.string) p seg.pEnd ++ l.flatMap h.octets).length⟩
      else b.tape h := by
  cases strip with
  | true =>
    obtain ⟨htape, hvalid⟩ := cloneSegs_strip hv (b.pCurrentSeg, b.pX) hl hp hle hle'
      (fun hlen => Prod.ext (hzero hlen).1 (hzero hlen).2) loc' hloc'
    exact ⟨hvalid, htape⟩
  | false =>
    rw [cloneSegs_loc] at hloc'
    subst hloc'
    exact ⟨hv, rfl⟩

/-- A clone, from the segments that were made and the location of the source. -/
theorem clone_refined {len : UInt32} (hv : h.Valid) (hb : h.bufs[hBuf]? = some b)
    {r : List Segment × (CurrentSeg × Nat)}
    (hcall : h.cloneBufferPortion hBuf b len.toNat strip =
      some ((h.setBuf hBuf { b with pCurrentSeg := r.2.1, pX := r.2.2 }).newBuf
        (BufHead.resetParse ⟨r.1, .head, 0⟩)))
    (hvs : ∀ s ∈ r.1, s.Valid h)
    (hoctets : r.1.flatMap h.octets = Spec.portion (b.tape h) len.toNat)
    (hvb : BufHead.Valid h { b with pCurrentSeg := r.2.1, pX := r.2.2 })
    (htape : BufHead.tape h { b with pCurrentSeg := r.2.1, pX := r.2.2 } = if strip then
      ⟨(b.tape h).items,
        Spec.start (b.tape h) len.toNat + (Spec.portion (b.tape h) len.toNat).length⟩ else b.tape h) :
    Refined h (.cloneBufferPortion hBuf len strip) := by
  obtain ⟨hv₁, hspec₁⟩ := setBuf_spec hBuf hv hvb
  obtain ⟨hvnew, htnew⟩ := resetParse_tape (b := ⟨r.1, .head, 0⟩) hvs
  have hkeeps : Keeps h (h.setBuf hBuf { b with pCurrentSeg := r.2.1, pX := r.2.2 })
      (BufHead.resetParse ⟨r.1, .head, 0⟩) := fun s hs =>
    ⟨⟨(hvnew.segs s hs).string, (hvnew.segs s hs).le, (hvnew.segs s hs).pEnd⟩, rfl⟩
  obtain ⟨hv', hspec'⟩ := newBuf_spec hv₁ (hkeeps.valid hvnew)
  rw [hkeeps.tape, htnew, hspec₁, htape, show BufHead.octets h ⟨r.1, .head, 0⟩ = _ from hoctets] at hspec'
  have hlen : h.bufs.length = h.spec.tapes.length := (List.length_map _).symm
  refine ⟨_, .handle h.bufs.length, by simp [call, hb, hcall], hv', ?_⟩
  rw [hspec', hlen]
  exact .cloneBufferPortion (spec_get hb)

theorem cloneBufferPortion_refined {len : UInt32} (hv : h.Valid)
    (hf : Fits h (.cloneBufferPortion hBuf len strip)) :
    Refined h (.cloneBufferPortion hBuf len strip) := by
  obtain ⟨b, hb, hcan⟩ := hf
  have hvb := hv.bufs b (mem_of_get hb)
  unfold CanClone at hcan
  by_cases hentire : len.toNat = bufEntire
  · -- the whole buffer
    rw [if_pos hentire] at hcan
    have hstart : Spec.start (b.tape h) len.toNat = 0 := if_pos hentire
    have hportion : Spec.portion (b.tape h) len.toNat = (b.octets h).take len.toNat := by
      unfold Spec.portion
      rw [hstart, List.drop_zero]
      rfl
    cases hsegs : b.segs with
    | nil =>
      have hoctets : b.octets h = [] := by
        unfold BufHead.octets
        rw [hsegs, List.flatMap_nil]
      have hpos : b.pos h = 0 := by
        unfold BufHead.pos
        cases hc : b.pCurrentSeg with
        | seg n =>
          obtain ⟨seg, hseg, -⟩ := hvb.current n hc
          rw [hsegs] at hseg
          cases hseg
        | head => exact congrArg List.length hoctets
        | elsewhere => rfl
      apply clone_refined (r := ([], (b.pCurrentSeg, b.pX))) hv hb
      · unfold Heap.cloneBufferPortion
        rw [if_pos hentire, hsegs, cloneSegs]
      · exact fun s hs => by cases hs
      · rw [hportion, hoctets, List.take_nil, List.flatMap_nil]
      · exact hvb
      · rw [hstart, hportion, hoctets, List.take_nil, List.length_nil, Nat.add_zero]
        unfold BufHead.tape
        rw [hpos]
        cases strip <;> rfl
    | cons seg l =>
      have hseg : seg.Valid h := hvb.segs seg (hsegs ▸ List.mem_cons_self)
      have hp : (if len.toNat ≠ bufEntire ∧ b.pCurrentSeg = .seg 0 then b.pX else seg.pStart) =
        seg.pStart := if_neg fun hcond => hcond.1 hentire
      obtain ⟨hvs, hoctets⟩ := cloneSegs_contents (h := h) (l := l) (n := 0) strip
        (b.pCurrentSeg, b.pX) (hsegs ▸ hvb.segs) hp (Nat.le_refl _) hseg.le (by
          intro hstrip k s hs hcur
          have hat : b.segs[k + 1]? = some s := by
            rw [hsegs, List.getElem?_cons_succ, hs]
          have hcur' : b.pCurrentSeg = .seg (k + 1) := by
            rw [show b.pCurrentSeg = _ from hcur]
            congr 1
            omega
          rcases hcan hstrip (k + 1) s (current_eq hcur' hat) with heq | hnone
          · exact .inl heq
          · unfold NoneBefore at hnone
            rw [hsegs, List.take_succ_cons] at hnone
            exact .inr ⟨hentire, hnone seg List.mem_cons_self,
              fun s' hs' => hnone s' (List.mem_cons_of_mem _ hs')⟩)
      have hall : slice (h.data seg.string) seg.pStart seg.pEnd ++ l.flatMap h.octets = b.octets h := by
        unfold BufHead.octets
        rw [hsegs, List.flatMap_cons]
        rfl
      rw [hall] at hoctets
      obtain ⟨hvalid, htape⟩ := cloned_loc (n := 0) strip hvb hsegs hp (Nat.le_refl _) hseg.le
        (fun hzero => absurd (hentire.symm.trans hzero) (by decide)) rfl
      apply clone_refined (r := cloneSegs strip (seg :: l) 0 len.toNat (b.pCurrentSeg, b.pX)) hv hb
      · unfold Heap.cloneBufferPortion
        rw [if_pos hentire, hsegs]
      · exact hvs
      · rw [hportion, hoctets]
      · exact hvalid
      · rw [htape, hall, hstart, hportion, List.length_take, Nat.sub_self]
        rfl
  · rw [if_neg hentire] at hcan
    have hstart : Spec.start (b.tape h) len.toNat = b.pos h := if_neg hentire
    have hportion : Spec.portion (b.tape h) len.toNat =
        ((b.octets h).drop (b.pos h)).take len.toNat := by
      unfold Spec.portion
      rw [hstart]
      rfl
    cases hcur : b.pCurrentSeg with
    | seg n =>
      -- from the current location on
      obtain ⟨seg, hseg, hle, hle'⟩ := hvb.current n hcur
      obtain ⟨hbound, hget⟩ := List.getElem?_eq_some_iff.1 hseg
      have hdrop : b.segs.drop n = seg :: b.segs.drop (n + 1) := by
        rw [List.drop_eq_getElem_cons hbound, hget]
      have hp : (if len.toNat ≠ bufEntire ∧ b.pCurrentSeg = .seg n then b.pX else seg.pStart) = b.pX :=
        if_pos ⟨hentire, hcur⟩
      obtain ⟨hvs, hoctets⟩ := cloneSegs_contents strip (b.pCurrentSeg, b.pX)
        (fun s hs => hvb.segs s (List.mem_of_mem_drop (hdrop ▸ hs))) hp hle hle' (by
          intro _ k s _ hother
          have hsame : CurrentSeg.seg n = .seg (n + 1 + k) := hcur.symm.trans hother
          injection hsame with hsame
          omega)
      obtain ⟨hvalid, htape⟩ := cloned_loc strip hvb hdrop hp hle hle'
        (fun _ => ⟨hcur, rfl⟩) rfl
      have hrest := drop_pos hvb hcur hseg
      apply clone_refined (r := cloneSegs strip (seg :: b.segs.drop (n + 1)) n len.toNat
        (b.pCurrentSeg, b.pX)) hv hb
      · unfold Heap.cloneBufferPortion
        rw [if_neg hentire, hcur, ← hdrop]
      · exact hvs
      · rw [hportion, hoctets, hrest]
      · exact hvalid
      · rw [htape, hstart, hportion, hrest, List.length_take, pos_seg hcur hseg]
        rfl
    | head =>
      -- behind all octets
      have hpos : b.pos h = (b.octets h).length := by
        unfold BufHead.pos
        rw [hcur]
      have hnil : (b.octets h).drop (b.pos h) = [] := by
        rw [hpos, List.drop_length]
      apply clone_refined (r := ([], (b.pCurrentSeg, b.pX))) hv hb
      · unfold Heap.cloneBufferPortion
        rw [if_neg hentire, hcur]
      · exact fun s hs => by cases hs
      · rw [hportion, hnil, List.take_nil, List.flatMap_nil]
      · exact hvb
      · rw [hstart, hportion, hnil, List.take_nil, List.length_nil, Nat.add_zero]
        cases strip <;> rfl
    | elsewhere =>
      have hzero := hcan hcur
      apply clone_refined (r := ([], (b.pCurrentSeg, b.pX))) hv hb
      · unfold Heap.cloneBufferPortion
        rw [if_neg hentire, hcur, if_pos hzero]
      · exact fun s hs => by cases hs
      · rw [hportion, hzero, List.take_zero, List.flatMap_nil]
      · exact hvb
      · rw [hstart, hportion, hzero, List.take_zero, List.length_nil, Nat.add_zero]
        cases strip <;> rfl

end Clones

end Ocp
