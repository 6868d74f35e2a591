import Emsd.Ocp.Refinement

/-!
# What a cloned portion is (`BUF_cloneBufferPortion`)

* `strip_ends`: where the location of a stripped source comes to lie.
* `cloneSegs_short`: a clone of the whole buffer that begins in the middle of a segment is too short.
* `clone_portion_iff`: the clone is the portion, and a stripped source goes on behind it, if and only
  if `PortionFits`.
-/

namespace Ocp

open Slice Tapes

open Heap

variable {h h' : Heap} {b b' : BufHead} {seg : Segment} {n m hBuf : Nat}

/-- The portion that is asked for; `BUF_ENTIRE` is the whole buffer. -/
def Spec.wanted (t : Tape UInt8) (len : Nat) : Octets :=
  if len = bufEntire then t.items else (t.items.drop t.pos).take len

/-- Where the portion ends. -/
def Spec.behind (t : Tape UInt8) (len : Nat) : Nat := start t len + (wanted t len).length

/-- **What a clone is to be**: the portion, of a buffer that keeps its contents and, when it is
stripped, goes on behind the portion, with the next octet. -/
structure Portioned (h : Heap) (hBuf len : Nat) (strip : Bool) (t : Tape UInt8) (h' : Heap) :
    Prop where
  clone : h'.spec.tapes[h.bufs.length]? = some ⟨Spec.wanted t len, 0⟩
  kept : ∀ (n : Nat) (u : Tape UInt8), h.spec.tapes[n]? = some u →
    ∃ u' : Tape UInt8, h'.spec.tapes[n]? = some u' ∧ u'.items = u.items
  cursor : strip = true → h'.spec.tapes[hBuf]? = some ⟨t.items, Spec.behind t len⟩
  next : strip = true →
    ∃ h'', h'.call (.getOctet hBuf) = some (h'', answer t.items[Spec.behind t len]?)

/-- Behind the portion there is an octet or nothing: it ends in a segment of the buffer, and if it ends
with that segment the next one is not empty. -/
def EndsWell (h : Heap) (b : BufHead) (len : Nat) : Prop :=
  if len = 0 then CanGet b
  else ∃ m seg, b.segs[m]? = some seg ∧ (b.before h m).length < Spec.start (b.tape h) len + len ∧
    Spec.start (b.tape h) len + len ≤ (b.before h (m + 1)).length ∧
    (Spec.start (b.tape h) len + len = (b.before h (m + 1)).length →
      ∀ next, b.segs[m + 1]? = some next → next.pStart < next.pEnd)

/-- **When a clone is what it is to be.** -/
structure PortionFits (h : Heap) (b : BufHead) (len : Nat) (strip : Bool) : Prop where
  length : len = bufEntire → (b.octets h).length ≤ bufEntire
  can : CanClone b len strip
  ends : strip = true → EndsWell h b len

/-! ## Where a stripped source goes on -/

theorem before_length_mono {k : Nat} (hle : n ≤ k) : (b.before h n).length ≤ (b.before h k).length := by
  obtain ⟨d, rfl⟩ := Nat.exists_eq_add_of_le hle
  unfold BufHead.before
  rw [List.take_add, List.flatMap_append, List.length_append]
  exact Nat.le_add_right _ _

/-- The place where a portion ends is in one segment only. -/
theorem ends_unique {e : Nat} (h₁ : (b.before h n).length < e) (h₁' : e ≤ (b.before h (n + 1)).length)
    (h₂ : (b.before h m).length < e) (h₂' : e ≤ (b.before h (m + 1)).length) : n = m := by
  rcases Nat.lt_trichotomy n m with hlt | heq | hgt
  · have hmono := before_length_mono (h := h) (b := b) (show n + 1 ≤ m from hlt)
    omega
  · exact heq
  · have hmono := before_length_mono (h := h) (b := b) (show m + 1 ≤ n from hgt)
    omega

/-- The location of a stripped source is at the head of the queue when there were not enough octets,
and behind an octet of its segment otherwise. -/
theorem strip_ends (hv : b.Valid h) {l : List Segment} : ∀ {n len p : Nat} {seg : Segment}
    (loc : CurrentSeg × Nat), b.segs.drop n = seg :: l →
    (if len ≠ bufEntire ∧ loc.1 = .seg n then loc.2 else seg.pStart) = p →
    seg.pStart ≤ p → p ≤ seg.pEnd → len ≠ 0 →
    ∀ loc', (cloneSegs true (seg :: l) n len loc).2 = loc' →
    ((slice (h.data seg.string) p seg.pEnd ++ l.flatMap h.octets).length < len ∧ loc'.1 = .head) ∨
      (len ≤ (slice (h.data seg.string) p seg.pEnd ++ l.flatMap h.octets).length ∧
        ∃ m s, loc'.1 = .seg m ∧ b.segs[m]? = some s ∧ s.pStart < loc'.2) := by
  induction l with
  | nil =>
    intro n len p seg loc hl hp hle hle' hne loc' hloc'
    have hseg := seg_of_drop hl
    have hlen := slice_length (a := p) (hv.seg_valid hseg).pEnd
    rw [List.flatMap_nil, List.append_nil, hlen]
    rcases Nat.lt_or_ge (seg.pEnd - p) len with hbeyond | hwithin
    · rw [cloneSegs_beyond hp hbeyond, cloneSegs] at hloc'
      subst hloc'
      exact .inl ⟨hbeyond, rfl⟩
    · obtain ⟨-, -, hmoved⟩ := cloneSegs_within true [] (hv.seg_valid hseg) hle' hp hwithin
      rw [hmoved hne] at hloc'
      subst hloc'
      exact .inr ⟨hwithin, n, seg, rfl, hseg, by show _ < p + len; omega⟩
  | cons next l ih =>
    intro n len p seg loc hl hp hle hle' hne loc' hloc'
    have hseg := seg_of_drop hl
    have hlen := slice_length (a := p) (hv.seg_valid hseg).pEnd
    rw [List.length_append, hlen]
    rcases Nat.lt_or_ge (seg.pEnd - p) len with hbeyond | hwithin
    · have hdrop : b.segs.drop (n + 1) = next :: l := by
        rw [← List.drop_drop, hl, List.drop_one, List.tail_cons]
      have hnext := seg_of_drop hdrop
      have hcontents : slice (h.data next.string) next.pStart next.pEnd ++ l.flatMap h.octets =
        (next :: l).flatMap h.octets := by rw [List.flatMap_cons]; rfl
      rw [cloneSegs_beyond hp hbeyond] at hloc'
      have hrest := ih (.seg (n + 1), next.pStart) hdrop (ite_self _) (Nat.le_refl _)
        (hv.seg_valid hnext).le (show len - (seg.pEnd - p) ≠ 0 by omega) loc' hloc'
      rw [hcontents] at hrest
      rcases hrest with ⟨hlt, hhead⟩ | ⟨hge, hat⟩
      · exact .inl ⟨by omega, hhead⟩
      · exact .inr ⟨by omega, hat⟩
    · obtain ⟨-, -, hmoved⟩ := cloneSegs_within true (next :: l) (hv.seg_valid hseg) hle' hp hwithin
      rw [hmoved hne] at hloc'
      subst hloc'
      exact .inr ⟨by omega, n, seg, rfl, hseg, by show _ < p + len; omega⟩

/-! ## Clones that are too short -/

/-- The octets that a segment gives, when the location of the source is left where it is. -/
def givenBy (loc : CurrentSeg × Nat) (n : Nat) (seg : Segment) : Nat :=
  if loc.1 = .seg n then seg.pEnd - loc.2 else seg.pEnd - seg.pStart

def givenByAll (loc : CurrentSeg × Nat) : Nat → List Segment → Nat
  | _, [] => 0
  | n, seg :: l => givenBy loc n seg + givenByAll loc (n + 1) l

/-- The octets of a clone of less than `BUF_ENTIRE`. -/
theorem cloned_length_le {l : List Segment} {loc : CurrentSeg × Nat} : ∀ {n len : Nat},
    len < bufEntire → (∀ s ∈ l, s.Valid h) →
    (∀ k s, l[k]? = some s → loc.1 = .seg (n + k) → s.pStart ≤ loc.2 ∧ loc.2 ≤ s.pEnd) →
    ((cloneSegs false l n len loc).1.flatMap h.octets).length ≤ givenByAll loc n l := by
  induction l with
  | nil =>
    intro n len _ _ _
    exact Nat.le_refl _
  | cons seg l ih =>
    intro n len hlt hvs hin
    have hseg := hvs seg List.mem_cons_self
    obtain ⟨p, hp⟩ : ∃ p, (if len ≠ bufEntire ∧ loc.1 = .seg n then loc.2 else seg.pStart) = p :=
      ⟨_, rfl⟩
    have hgiven : seg.pEnd - p = givenBy loc n seg := by
      unfold givenBy
      rw [← hp]
      by_cases hat : loc.1 = .seg n
      · rw [if_pos ⟨Nat.ne_of_lt hlt, hat⟩, if_pos hat]
      · rw [if_neg fun hc => hat hc.2, if_neg hat]
    have hle : seg.pStart ≤ p ∧ p ≤ seg.pEnd := by
      rw [← hp]
      split
      · next hc => exact hin 0 seg rfl hc.2
      · exact ⟨Nat.le_refl _, hseg.le⟩
    have hlen := slice_length (a := p) hseg.pEnd
    unfold givenByAll
    rcases Nat.lt_or_ge (seg.pEnd - p) len with hbeyond | hwithin
    · have hless : len - (seg.pEnd - p) < bufEntire := by omega
      have hrest := ih (n := n + 1) hless
        (fun s hs => hvs s (List.mem_cons_of_mem _ hs))
        (fun k s hs hat => hin (k + 1) s hs (by rw [hat]; congr 1; omega))
      rw [cloneSegs_beyond hp hbeyond]
      dsimp only
      rw [List.flatMap_cons, List.length_append, if_neg Bool.false_ne_true]
      show (slice (h.data seg.string) p seg.pEnd).length + _ ≤ _
      omega
    · obtain ⟨-, hoctets, -⟩ := cloneSegs_within false l hseg hle.2 hp hwithin
      rw [hoctets, List.length_take]
      omega

/-- **A clone of the whole buffer** that is not stripped leaves octets out when the location is in the
middle of a segment, with octets in segments in front of it. -/
theorem cloneSegs_short {l : List Segment} {loc : CurrentSeg × Nat} : ∀ {n k : Nat} {s s' : Segment},
    (∀ s ∈ l, s.Valid h) → l[k]? = some s → loc.1 = .seg (n + k) → s.pStart ≤ loc.2 →
    loc.2 ≤ s.pEnd → s' ∈ l.take k → s'.pStart < s'.pEnd →
    ((cloneSegs false l n bufEntire loc).1.flatMap h.octets).length ≤ givenByAll loc n l := by
  induction l with
  | nil =>
    intro n k s s' _ hs
    cases hs
  | cons seg l ih =>
    intro n k s s' hvs hs hat hle hle' hmem hlt
    cases k with
    | zero => cases hmem
    | succ k =>
      have hseg := hvs seg List.mem_cons_self
      have hother : ¬loc.1 = .seg n := by
        rw [hat]
        intro heq
        injection heq with heq
        omega
      have hp : (if bufEntire ≠ bufEntire ∧ loc.1 = .seg n then loc.2 else seg.pStart) = seg.pStart :=
        if_neg fun hc => hc.1 rfl
      have hgiven : givenBy loc n seg = seg.pEnd - seg.pStart := if_neg hother
      have hlen := slice_length (a := seg.pStart) hseg.pEnd
      have hvs' : ∀ s ∈ l, s.Valid h := fun s hs => hvs s (List.mem_cons_of_mem _ hs)
      have hat' : loc.1 = .seg (n + 1 + k) := by
        rw [hat]
        congr 1
        omega
      unfold givenByAll
      rcases Nat.lt_or_ge (seg.pEnd - seg.pStart) bufEntire with hbeyond | hwithin
      · rw [cloneSegs_beyond hp hbeyond]
        dsimp only
        rw [List.flatMap_cons, List.length_append, if_neg Bool.false_ne_true]
        have hrest : ((cloneSegs false l (n + 1) (bufEntire - (seg.pEnd - seg.pStart)) loc).1.flatMap
            h.octets).length ≤ givenByAll loc (n + 1) l := by
          by_cases hnil : seg.pEnd - seg.pStart = 0
          · -- nothing has been cloned yet
            rw [hnil, Nat.sub_zero]
            refine ih hvs' hs hat' hle hle' ?_ hlt
            rw [List.take_succ_cons] at hmem
            rcases List.mem_cons.1 hmem with rfl | hmem
            · omega
            · exact hmem
          · refine cloned_length_le (by omega) hvs' fun k' s₁ hs₁ hat₁ => ?_
            have hk : k = k' := by
              have heq := hat'.symm.trans hat₁
              injection heq with heq
              omega
            subst hk
            obtain rfl : s = s₁ := Option.some.inj (hs.symm.trans hs₁)
            exact ⟨hle, hle'⟩
        show (slice (h.data seg.string) seg.pStart seg.pEnd).length + _ ≤ _
        omega
      · obtain ⟨-, hoctets, -⟩ := cloneSegs_within false l hseg hseg.le hp hwithin
        rw [hoctets, List.length_take]
        omega

theorem givenByAll_lt {l : List Segment} {loc : CurrentSeg × Nat} : ∀ {n k : Nat} {s : Segment},
    (∀ s ∈ l, s.Valid h) → l[k]? = some s → loc.1 = .seg (n + k) → s.pStart < loc.2 →
    loc.2 ≤ s.pEnd → givenByAll loc n l < (l.flatMap h.octets).length := by
  have hothers : ∀ (l : List Segment) (n : Nat), (∀ s ∈ l, s.Valid h) → (∀ k, loc.1 ≠ .seg (n + k)) →
      givenByAll loc n l = (l.flatMap h.octets).length := by
    intro l
    induction l with
    | nil => exact fun _ _ _ => rfl
    | cons seg l ih =>
      intro n hvs hne
      have hrest := ih (n + 1) (fun s hs => hvs s (List.mem_cons_of_mem _ hs))
        (fun k hk => hne (k + 1) (by rw [hk]; congr 1; omega))
      have hgiven : givenBy loc n seg = seg.pEnd - seg.pStart := if_neg (hne 0)
      have hlen := (hvs seg List.mem_cons_self).length
      rw [givenByAll, List.flatMap_cons, List.length_append, hrest, hgiven, hlen]
  induction l with
  | nil =>
    intro n k s _ hs
    cases hs
  | cons seg l ih =>
    intro n k s hvs hs hat hlt hle'
    have hlen := (hvs seg List.mem_cons_self).length
    have hvs' : ∀ s ∈ l, s.Valid h := fun s hs => hvs s (List.mem_cons_of_mem _ hs)
    rw [givenByAll, List.flatMap_cons, List.length_append, hlen]
    cases k with
    | zero =>
      obtain rfl : seg = s := Option.some.inj hs
      have hgiven : givenBy loc n seg = seg.pEnd - loc.2 := if_pos hat
      have hrest := hothers l (n + 1) hvs' (fun k hk => by
        have heq := hat.symm.trans hk
        injection heq with heq
        omega)
      omega
    | succ k =>
      have hgiven : givenBy loc n seg = seg.pEnd - seg.pStart := if_neg (by
        rw [hat]
        intro heq
        injection heq with heq
        omega)
      have hrest := ih (n := n + 1) hvs' hs (by rw [hat]; congr 1; omega) hlt hle'
      omega

/-! ## The next octet -/

theorem canGet_at {loc : CurrentSeg × Nat} (hat : loc.1 = .seg m)
    (hseg : b.segs[m]? = some seg) :
    CanGet { b with pCurrentSeg := loc.1, pX := loc.2 } ↔
      (loc.2 = seg.pEnd → ∀ next, b.segs[m + 1]? = some next → next.pStart < next.pEnd) := by
  constructor
  · rintro ⟨k, seg', hcurrent, hnext⟩
    obtain ⟨hcur, hseg'⟩ := current_cases hcurrent
    obtain rfl : m = k := CurrentSeg.seg.inj (hat.symm.trans hcur)
    obtain rfl : seg = seg' := Option.some.inj (hseg.symm.trans hseg')
    exact hnext
  · exact fun hnext => ⟨m, seg, current_eq hat hseg, hnext⟩

/-- What is behind a portion that begins in segment number `n`. -/
theorem canGet_stripped (hv : b.Valid h) {l : List Segment} {len p : Nat}
    (hl : b.segs.drop n = seg :: l)
    (hp : (if len ≠ bufEntire ∧ b.pCurrentSeg = .seg n then b.pX else seg.pStart) = p)
    (hle : seg.pStart ≤ p) (hle' : p ≤ seg.pEnd)
    (hstart : Spec.start (b.tape h) len = (b.before h n).length + (p - seg.pStart))
    {loc' : CurrentSeg × Nat}
    (hloc' : (cloneSegs true (seg :: l) n len (b.pCurrentSeg, b.pX)).2 = loc') :
    CanGet { b with pCurrentSeg := loc'.1, pX := loc'.2 } ↔ EndsWell h b len := by
  unfold EndsWell
  by_cases hne : len = 0
  · rw [if_pos hne]
    have hsame : loc' = (b.pCurrentSeg, b.pX) := by
      rw [← hloc']
      unfold cloneSegs
      rw [if_pos hne]
    rw [hsame]
  rw [if_neg hne, hstart]
  have hseg := seg_of_drop hl
  have hsplit : (b.octets h).length = (b.before h n).length +
      ((h.octets seg).length + (l.flatMap h.octets).length) := by
    have hdrop : b.segs.drop (n + 1) = l := by
      rw [← List.drop_drop, hl, List.drop_one, List.tail_cons]
    rw [octets_split hseg, hdrop, List.length_append, List.length_append]
  have hlen := slice_length (a := p) (hv.seg_valid hseg).pEnd
  have hseglen := (hv.seg_valid hseg).length
  rcases strip_ends hv (b.pCurrentSeg, b.pX) hl hp hle hle' hne loc' hloc' with
    ⟨hlt, hhead⟩ | ⟨hge, m, s, hat, hs, hbehind⟩
  · -- there were not enough octets
    rw [List.length_append] at hlt
    constructor
    · rintro ⟨k, seg', hcurrent, -⟩
      have hcur : loc'.1 = .seg k := (current_cases hcurrent).1
      rw [hhead] at hcur
      cases hcur
    · rintro ⟨k, seg', hseg', -, hend, -⟩
      have hall := before_length_mono (h := h) (b := b) (show k + 1 ≤ b.segs.length from
        (List.getElem?_eq_some_iff.1 hseg').1)
      have hwhole : b.before h b.segs.length = b.octets h := by
        unfold BufHead.before
        rw [List.take_length]
        rfl
      rw [hwhole] at hall
      omega
  · obtain ⟨htape, hvalid⟩ := cloneSegs_strip hv (b.pCurrentSeg, b.pX) hl hp hle hle'
      (fun hnil => absurd hnil hne) loc' hloc'
    have hpos := congrArg Tape.pos htape
    have hpos' : BufHead.pos h { b with pCurrentSeg := loc'.1, pX := loc'.2 } =
        (b.before h m).length + (loc'.2 - s.pStart) := pos_seg hat hs
    rw [Nat.min_eq_left hge] at hpos
    have hmeet : (b.before h m).length + (loc'.2 - s.pStart) =
        (b.before h n).length + (p - seg.pStart) + len := hpos'.symm.trans hpos
    obtain ⟨s', hs', hsle, hsle'⟩ := hvalid.current m hat
    obtain rfl : s = s' := Option.some.inj (hs.symm.trans hs')
    have hslen := (hv.seg_valid hs).length
    have hnextLen : (b.before h (m + 1)).length = (b.before h m).length + (s.pEnd - s.pStart) := by
      rw [octets_before_succ hs, List.length_append, hslen]
    have hsle'' : loc'.2 ≤ s.pEnd := hsle'
    rw [canGet_at hat hs]
    constructor
    · intro hnext
      refine ⟨m, s, hs, by omega, by omega, fun heq => hnext (by omega)⟩
    · rintro ⟨k, s₁, hs₁, hlo, hhi, hnext⟩ hend
      have hsame : k = m := ends_unique hlo hhi (by omega) (by omega)
      subst hsame
      exact hnext (by omega)

/-- Without an octet to get, or the end, the read has no result. -/
theorem getOctet_none (hb : h.bufs[hBuf]? = some b) (hcan : ¬CanGet b) :
    h.call (.getOctet hBuf) = none := by
  simp only [call, hb, Option.bind_eq_bind, Option.bind_some, Heap.getOctet]
  cases hcurrent : b.current with
  | none => rfl
  | some x =>
    obtain ⟨n, seg⟩ := x
    dsimp only
    by_cases hend : b.pX = seg.pEnd
    · rw [if_pos hend]
      cases hnext : b.segs[n + 1]? with
      | none => exact absurd ⟨n, seg, hcurrent, fun _ next hs => by rw [hnext] at hs; cases hs⟩ hcan
      | some next =>
        have hge : ¬next.pStart < next.pEnd := fun hlt =>
          hcan ⟨n, seg, hcurrent, fun _ next' hs => by
            rw [hnext] at hs
            cases hs
            exact hlt⟩
        dsimp only
        unfold octetAt
        rw [if_neg hge]
        rfl
    · exact absurd ⟨n, seg, hcurrent, fun heq => absurd heq hend⟩ hcan

/-- The call, from the segments that are made and the location of the source. -/
theorem clone_call (hBuf : Nat) {strip : Bool} {len : Nat} (hv : b.Valid h) (hcan : CanClone b len strip) :
    ∃ r : List Segment × (CurrentSeg × Nat),
      h.cloneBufferPortion hBuf b len strip =
        some ((h.setBuf hBuf { b with pCurrentSeg := r.2.1, pX := r.2.2 }).newBuf
          (BufHead.resetParse ⟨r.1, .head, 0⟩)) ∧
      (strip = true → (CanGet { b with pCurrentSeg := r.2.1, pX := r.2.2 } ↔ EndsWell h b len)) := by
  unfold Heap.cloneBufferPortion
  by_cases hentire : len = bufEntire
  · rw [if_pos hentire]
    refine ⟨_, rfl, fun hstrip => ?_⟩
    subst hstrip
    have hstart : Spec.start (b.tape h) len = 0 := if_pos hentire
    cases hsegs : b.segs with
    | nil =>
      -- no segments
      have hcurrent : ∀ c x, BufHead.current { b with pCurrentSeg := c, pX := x } = none := by
        intro c x
        unfold BufHead.current
        cases c with
        | seg n =>
          dsimp only
          rw [hsegs]
          rfl
        | head => rfl
        | elsewhere => rfl
      unfold EndsWell
      rw [if_neg (by rw [hentire]; decide)]
      constructor
      · rintro ⟨n, seg, hc, -⟩
        rw [hsegs] at hcurrent
        rw [hcurrent] at hc
        cases hc
      · rintro ⟨m, seg, hseg, -⟩
        rw [hsegs] at hseg
        cases hseg
    | cons seg l =>
      have hseg : seg.Valid h := hv.segs seg (hsegs ▸ List.mem_cons_self)
      have hp : (if len ≠ bufEntire ∧ b.pCurrentSeg = .seg 0 then b.pX else seg.pStart) =
        seg.pStart := if_neg fun hcond => hcond.1 hentire
      have hstart' : Spec.start (b.tape h) len =
          (b.before h 0).length + (seg.pStart - seg.pStart) := by
        rw [hstart, Nat.sub_self]
        rfl
      rw [← hsegs]
      exact canGet_stripped (n := 0) hv hsegs hp (Nat.le_refl _) hseg.le hstart' (by rw [hsegs])
  · rw [if_neg hentire]
    have hstart : Spec.start (b.tape h) len = b.pos h := if_neg hentire
    unfold CanClone at hcan
    rw [if_neg hentire] at hcan
    cases hcur : b.pCurrentSeg with
    | seg n =>
      refine ⟨_, rfl, fun hstrip => ?_⟩
      subst hstrip
      obtain ⟨seg, hseg, hle, hle'⟩ := hv.current n hcur
      obtain ⟨hbound, hget⟩ := List.getElem?_eq_some_iff.1 hseg
      have hdrop : b.segs.drop n = seg :: b.segs.drop (n + 1) := by
        rw [List.drop_eq_getElem_cons hbound, hget]
      have hp : (if len ≠ bufEntire ∧ b.pCurrentSeg = .seg n then b.pX else seg.pStart) = b.pX :=
        if_pos ⟨hentire, hcur⟩
      have hstart' := hstart.trans (pos_seg (h := h) hcur hseg)
      exact canGet_stripped hv hdrop hp hle hle' hstart' (by rw [hdrop, hcur])
    | head =>
      refine ⟨([], (.head, b.pX)), rfl, fun _ => ?_⟩
      have hnone : ¬CanGet { b with pCurrentSeg := .head, pX := b.pX } := by
        rintro ⟨n, seg, hc, -⟩
        cases (current_cases hc).1
      refine ⟨fun h' => absurd h' hnone, fun hends => ?_⟩
      unfold EndsWell at hends
      by_cases hzero : len = 0
      · rw [if_pos hzero] at hends
        obtain ⟨n, seg, hc, -⟩ := hends
        cases hcur.symm.trans (current_cases hc).1
      · rw [if_neg hzero, hstart] at hends
        obtain ⟨m, seg, hseg, -, hend, -⟩ := hends
        have hpos : b.pos h = (b.octets h).length := by
          unfold BufHead.pos
          rw [hcur]
        have hall := before_length_mono (h := h) (b := b) (show m + 1 ≤ b.segs.length from
          (List.getElem?_eq_some_iff.1 hseg).1)
        have hwhole : b.before h b.segs.length = b.octets h := by
          unfold BufHead.before
          rw [List.take_length]
          rfl
        rw [hwhole] at hall
        omega
    | elsewhere =>
      have hzero := hcan hcur
      refine ⟨([], (.elsewhere, b.pX)), if_pos hzero, fun _ => ?_⟩
      have hnone : ¬CanGet { b with pCurrentSeg := .elsewhere, pX := b.pX } := by
        rintro ⟨n, seg, hc, -⟩
        cases (current_cases hc).1
      refine ⟨fun h' => absurd h' hnone, fun hends => ?_⟩
      unfold EndsWell at hends
      rw [if_pos hzero] at hends
      obtain ⟨n, seg, hc, -⟩ := hends
      cases hcur.symm.trans (current_cases hc).1

/-! ## The equivalence -/

theorem clone_inv {s s' : Spec} {len : UInt32} {strip : Bool} {out : BufOut} {t : Tape UInt8}
    (ht : s.tapes[n]? = some t) (hstep : Spec.Step s (.cloneBufferPortion n len strip) out s') :
    s' = (s.set n (if strip then
      ⟨t.items, Spec.start t len.toNat + (Spec.portion t len.toNat).length⟩ else t)).add
        ⟨Spec.portion t len.toNat, 0⟩ := by
  cases hstep with
  | cloneBufferPortion ht' =>
    obtain rfl := Option.some.inj (ht.symm.trans ht')
    rfl

/-- The clone comes last. -/
theorem clone_get {s s' : Spec} {len : UInt32} {strip : Bool} {out : BufOut} {t : Tape UInt8}
    (ht : s.tapes[n]? = some t) (hstep : Spec.Step s (.cloneBufferPortion n len strip) out s')
    (hlen : s.tapes.length = m) : s'.tapes[m]? = some ⟨Spec.portion t len.toNat, 0⟩ := by
  rw [clone_inv ht hstep]
  show (List.set _ _ _ ++ _)[m]? = _
  rw [List.getElem?_append_right (by rw [List.length_set]; omega), List.length_set, hlen, Nat.sub_self]
  rfl

/-- What is left of a buffer, and the portion. -/
theorem wanted_eq {t : Tape UInt8} {len : Nat} (hlen : len = bufEntire → t.items.length ≤ bufEntire) :
    Spec.wanted t len = Spec.portion t len := by
  unfold Spec.wanted Spec.portion Spec.start
  by_cases hentire : len = bufEntire
  · rw [if_pos hentire, if_pos hentire, List.drop_zero, List.take_of_length_le]
    rw [hentire]
    exact hlen hentire
  · rw [if_neg hentire, if_neg hentire]

/-- The source after the call. -/
theorem source_after {strip : Bool} {len : UInt32} {out : BufOut} (hb : h.bufs[hBuf]? = some b)
    {r : List Segment × (CurrentSeg × Nat)}
    (hr : h.cloneBufferPortion hBuf b len.toNat strip =
      some ((h.setBuf hBuf { b with pCurrentSeg := r.2.1, pX := r.2.2 }).newBuf
        (BufHead.resetParse ⟨r.1, .head, 0⟩)))
    (hcall : h.call (.cloneBufferPortion hBuf len strip) = some (h', out)) :
    h'.bufs[hBuf]? = some { b with pCurrentSeg := r.2.1, pX := r.2.2 } := by
  have hlt : hBuf < h.bufs.length := (List.getElem?_eq_some_iff.1 hb).1
  simp only [call, hb, Option.bind_eq_bind, Option.bind_some, hr] at hcall
  cases hcall
  show (h.bufs.set hBuf _ ++ _)[hBuf]? = _
  rw [List.getElem?_append_left (by rw [List.length_set]; exact hlt), List.getElem?_set_self hlt]

/-- The octets of the clone that a call makes. -/
theorem clone_octets {strip : Bool} {len : UInt32} {out : BufOut} {t : Tape UInt8}
    (hb : h.bufs[hBuf]? = some b)
    (hcall : h.call (.cloneBufferPortion hBuf len strip) = some (h', out))
    (hclone : h'.spec.tapes[h.bufs.length]? = some t) {r : List Segment × (CurrentSeg × Nat)}
    (hr : h.cloneBufferPortion hBuf b len.toNat strip =
      some ((h.setBuf hBuf { b with pCurrentSeg := r.2.1, pX := r.2.2 }).newBuf
        (BufHead.resetParse ⟨r.1, .head, 0⟩))) : t.items = r.1.flatMap h.octets := by
  simp only [call, hb, Option.bind_eq_bind, Option.bind_some, hr] at hcall
  cases hcall
  have hlen : (h.setBuf hBuf { b with pCurrentSeg := r.2.1, pX := r.2.2 }).bufs.length =
      h.bufs.length := List.length_set
  have hget : (h.bufs.set hBuf { b with pCurrentSeg := r.2.1, pX := r.2.2 } ++
      [BufHead.resetParse ⟨r.1, .head, 0⟩])[h.bufs.length]? =
        some (BufHead.resetParse ⟨r.1, .head, 0⟩) := by
    rw [← hlen]
    exact List.getElem?_concat_length
  have htape := spec_get (h := (h.setBuf hBuf { b with pCurrentSeg := r.2.1, pX := r.2.2 }).newBuf
    (BufHead.resetParse ⟨r.1, .head, 0⟩)) hget
  rw [htape] at hclone
  cases hclone
  unfold BufHead.resetParse
  cases r.1 <;> rfl

/-- **A clone of the whole buffer** from the middle of a segment is not the whole buffer. -/
theorem clone_short {len : UInt32} {out : BufOut} {t : Tape UInt8} (hv : h.Valid)
    (hb : h.bufs[hBuf]? = some b) (hentire : len.toNat = bufEntire)
    (hcall : h.call (.cloneBufferPortion hBuf len false) = some (h', out))
    (hclone : h'.spec.tapes[h.bufs.length]? = some t) (hcur : b.current = some (n, seg))
    (hx : b.pX ≠ seg.pStart) (hnone : ¬NoneBefore b n) : t.items.length < (b.octets h).length := by
  have hvb := hv.bufs b (mem_of_get hb)
  obtain ⟨hat, hseg⟩ := current_cases hcur
  obtain ⟨seg', hseg', hle, hle'⟩ := hvb.current n hat
  obtain rfl : seg = seg' := Option.some.inj (hseg.symm.trans hseg')
  obtain ⟨s', hs', hne⟩ : ∃ s' ∈ b.segs.take n, ¬s'.pStart = s'.pEnd := by
    by_contra hall
    exact hnone fun s hs => not_not.1 fun hne => hall ⟨s, hs, hne⟩
  have hlt : s'.pStart < s'.pEnd := by
    have hle := (hvb.segs s' (List.mem_of_mem_take hs')).le
    omega
  have hr : h.cloneBufferPortion hBuf b len.toNat false = some _ := if_pos hentire
  rw [clone_octets hb hcall hclone hr, hentire]
  have hcur' : (b.pCurrentSeg, b.pX).1 = .seg (0 + n) := by
    rw [Nat.zero_add]
    exact hat
  have hshort := cloneSegs_short hvb.segs hseg hcur' hle hle' hs' hlt
  have hless := givenByAll_lt hvb.segs hseg hcur' (by show _ < b.pX; omega) hle'
  exact lt_of_le_of_lt hshort hless

/-- **A cloned portion** is what it is to be if and only if `PortionFits`. -/
theorem clone_portion_iff (hv : h.Valid) (hb : h.bufs[hBuf]? = some b) (len : UInt32) (strip : Bool) :
    (∃ h' out, h.call (.cloneBufferPortion hBuf len strip) = some (h', out) ∧
      Portioned h hBuf len.toNat strip (b.tape h) h') ↔ PortionFits h b len.toNat strip := by
  have hvb := hv.bufs b (mem_of_get hb)
  have ht := spec_get (h := h) hb
  have hlt : hBuf < h.bufs.length := (List.getElem?_eq_some_iff.1 hb).1
  have hspecLen : h.spec.tapes.length = h.bufs.length := List.length_map _
  constructor
  · rintro ⟨h', out, hcall, hp⟩
    have hcan : CanClone b len.toNat strip := by
      unfold CanClone
      by_cases hentire : len.toNat = bufEntire
      · rw [if_pos hentire]
        rintro rfl n seg hcur
        by_contra hnot
        have hnot := not_or.1 hnot
        have hshort := clone_short hv hb hentire hcall hp.clone hcur hnot.1 hnot.2
        have hwanted : Spec.wanted (b.tape h) len.toNat = b.octets h := if_pos hentire
        rw [hwanted] at hshort
        exact absurd hshort (Nat.lt_irrefl _)
      · rw [if_neg hentire]
        intro hcur
        by_contra hzero
        have hnone : h.cloneBufferPortion hBuf b len.toNat strip = none := by
          unfold Heap.cloneBufferPortion
          rw [if_neg hentire, hcur, if_neg hzero]
        simp [call, hb, hnone] at hcall
    obtain ⟨r, hr, hnext⟩ := clone_call hBuf hvb hcan
    refine ⟨fun hentire => ?_, hcan, fun hstrip => ?_⟩
    · obtain ⟨h₁, out₁, hcall₁, -, hstep⟩ := call_refined hv (show Fits h
        (.cloneBufferPortion hBuf len strip) from ⟨b, hb, hcan⟩)
      rw [hcall] at hcall₁
      cases hcall₁
      have hclone := hp.clone
      have hget := clone_get ht hstep hspecLen
      have hsame := congrArg Tape.items (Option.some.inj (hclone.symm.trans hget))
      have hwanted : Spec.wanted (b.tape h) len.toNat = b.octets h := if_pos hentire
      have hwhole : b.octets h = Spec.portion (b.tape h) len.toNat := hwanted.symm.trans hsame
      rw [hwhole, ← hentire]
      exact List.length_take_le _ _
    · by_contra hends
      obtain ⟨h'', hget⟩ := hp.next hstrip
      have hnone := getOctet_none (source_after hb hr hcall)
        (fun hc => hends ((hnext hstrip).1 hc))
      rw [hget] at hnone
      cases hnone
  · intro hfits
    obtain ⟨h', out, hcall, hv', hstep⟩ := call_refined hv (show Fits h
      (.cloneBufferPortion hBuf len strip) from ⟨b, hb, hfits.can⟩)
    have hspec := clone_inv ht hstep
    have hwanted : Spec.wanted (b.tape h) len.toNat = Spec.portion (b.tape h) len.toNat :=
      wanted_eq hfits.length
    have hsource : h'.spec.tapes[hBuf]? = some (if strip then
        ⟨(b.tape h).items, Spec.behind (b.tape h) len.toNat⟩ else b.tape h) := by
      rw [hspec]
      show (List.set _ _ _ ++ _)[hBuf]? = _
      rw [List.getElem?_append_left (by rw [List.length_set, hspecLen]; exact hlt),
        List.getElem?_set_self (by rw [hspecLen]; exact hlt), Spec.behind, hwanted]
    have hcursor : strip = true →
        h'.spec.tapes[hBuf]? = some ⟨(b.tape h).items, Spec.behind (b.tape h) len.toNat⟩ := by
      intro hstrip
      rw [hsource, if_pos hstrip]
    refine ⟨h', out, hcall, ?_, fun n u hu => ?_, hcursor, fun hstrip => ?_⟩
    · rw [hwanted]
      exact clone_get ht hstep hspecLen
    · have hn : n < h.spec.tapes.length := (List.getElem?_eq_some_iff.1 hu).1
      by_cases hsame : hBuf = n
      · subst hsame
        obtain rfl := Option.some.inj (ht.symm.trans hu)
        exact ⟨_, hsource, by cases strip <;> rfl⟩
      · refine ⟨u, ?_, rfl⟩
        rw [hspec]
        show (List.set _ _ _ ++ _)[n]? = _
        rw [List.getElem?_append_left (by rw [List.length_set]; exact hn),
          List.getElem?_set_ne hsame, hu]
    · obtain ⟨r, hr, hnext⟩ := clone_call hBuf hvb hfits.can
      have hfits' : Fits h' (.getOctet hBuf) :=
        ⟨_, source_after hb hr hcall, (hnext hstrip).2 (hfits.ends hstrip)⟩
      obtain ⟨h'', out', hget, -, hread⟩ := call_refined hv' hfits'
      obtain ⟨rfl, -⟩ := getOctet_inv (hcursor hstrip) hread
      refine ⟨h'', ?_⟩
      rw [hget]
      congr 3
      unfold Tape.get
      cases (b.tape h).items[Spec.behind (b.tape h) len.toNat]? <;> rfl

theorem oneChunk_valid : Heap.Valid oneChunk := by
  refine ⟨fun b hb => ?_, fun r => ?_⟩
  · obtain rfl := List.mem_singleton.1 hb
    refine ⟨fun seg hseg => ?_, fun n hcur => ?_, fun hcur => by cases hcur⟩
    · rcases List.mem_cons.1 hseg with rfl | hseg
      · exact ⟨Nat.zero_lt_one, Nat.le_refl _, Nat.le_refl _⟩
      · obtain rfl := List.mem_singleton.1 hseg
        exact ⟨Nat.zero_lt_one, Nat.zero_le _, Nat.le_refl _⟩
    · cases hcur
      exact ⟨_, rfl, Nat.le_refl _, Nat.le_refl _⟩
  · rcases r with (_ | n) | (_ | n)
    · show 1 < 2 ^ 16
      decide
    · show 0 < 2 ^ 16
      decide
    · show 0 < 2 ^ 16
      decide
    · show 0 < 2 ^ 16
      decide

theorem clone_portion_oneChunk : ∃ h' out,
    oneChunk.call (.cloneBufferPortion 0 1 true) = some (h', out) ∧
      Portioned oneChunk 0 1 true ⟨[0x41], 0⟩ h' := by
  have hb : oneChunk.bufs[0]? = some ⟨[⟨.area 0, 0, 0⟩, ⟨.chunk 0, 0, 1⟩], .seg 0, 0⟩ := rfl
  refine (clone_portion_iff oneChunk_valid hb 1 true).2 ⟨fun hlen => ?_, fun hcur => ?_, fun _ => ?_⟩
  · exact absurd hlen (by decide)
  · cases hcur
  · refine ⟨1, _, rfl, Nat.zero_lt_one, Nat.le_refl _, fun _ next hnext => ?_⟩
    cases hnext

/-- **A portion that is longer than the buffer**, cut off it: the location is left at the head of the
queue, and the next octet that is asked for is read from there instead of the end being reported. -/
theorem long_portion_loses_end : ∃ log h, Run.Reach Heap.sys.logged Run.any log h ∧
    h.spec.tapes = [⟨[0x41], 0⟩] ∧
    ¬∃ h' out, h.call (.cloneBufferPortion 0 2 true) = some (h', out) ∧
      Portioned h 0 2 true ⟨[0x41], 0⟩ h' := by
  obtain ⟨h, log, hr, hp⟩ := Run.Reach.of_run_any (S := Heap.sys.logged) (s := Heap.empty) rfl
    [.string ⟨[0x41], by decide⟩, .alloc 0, .appendChunk 0 0, .resetParse 0]
    (fun h _ => h.spec.tapes = [⟨[0x41], 0⟩] ∧
      (h.call (.cloneBufferPortion 0 2 true)).all fun r => r.1.call (.getOctet 0) = none) (by decide)
  obtain ⟨htapes, hall⟩ := of_decide_eq_true hp
  refine ⟨log, h, hr, htapes, ?_⟩
  rintro ⟨h', out, hcall, hportion⟩
  obtain ⟨h'', hnext⟩ := hportion.next rfl
  rw [hcall] at hall
  rw [of_decide_eq_true hall] at hnext
  cases hnext

end Ocp
