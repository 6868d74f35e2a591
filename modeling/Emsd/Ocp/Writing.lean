import Emsd.Ocp.Reading

/-!
# Building and reading a buffer (`buf.c`)

The BER formatter builds a buffer from its end: octets and strings are put in front of what is there.

* `addOctet_octets`, `prependChunk_octets`: what a buffer holds then.
* `getOctet_cases`, `getString_ok`: **reading** gives the octets in order, except that `BUF_getOctet`
  goes astray at a segment without octets, which only an empty string leaves (`Solid`).
-/

namespace Ocp

/-- `BUF_MIN_DATA_AREA`. -/
def bufMinDataArea : Nat := 128

/-- A buffer under construction; `room` octets are free in front of its first segment. -/
structure Front where
  segs : List Octets
  room : Nat
  deriving DecidableEq, Repr

namespace Front

variable {f : Front} {octet : UInt8} {string : Octets} {minSize : Nat}

/-- `BUF_alloc`. -/
def alloc (minSize : Nat) : Front := ⟨[[]], minSize⟩

/-- `BUF_addOctet`. -/
def addOctet (f : Front) (octet : UInt8) : Front :=
  if f.room = 0 then ⟨[octet] :: f.segs, bufMinDataArea - 1⟩
  else ⟨(octet :: f.segs.headD []) :: f.segs.tail, f.room - 1⟩

/-- `BUF_prependChunk`: the string becomes a segment of its own. -/
def prependChunk (f : Front) (string : Octets) : Front := ⟨string :: f.segs, 0⟩

/-- The finished buffer; its current location is its beginning. -/
def buf (f : Front) : Buf := ⟨f.segs, 0, 0⟩

def octets (f : Front) : Octets := f.segs.flatten

@[simp] theorem alloc_octets : (alloc minSize).octets = [] := rfl

@[simp] theorem addOctet_octets : (f.addOctet octet).octets = octet :: f.octets := by
  unfold addOctet octets
  split
  · rfl
  · cases hsegs : f.segs with
    | nil => rfl
    | cons seg segs => rfl

@[simp] theorem prependChunk_octets : (f.prependChunk string).octets = string ++ f.octets := rfl

theorem buf_rest : f.buf.rest = f.octets := rfl

theorem buf_located : f.buf.Located := fun _ _ => Nat.zero_le _

/-- Only the last segment may be without octets. -/
def Solid (f : Front) : Prop := f.segs ≠ [] ∧ ∀ seg ∈ f.segs.dropLast, seg ≠ []

theorem alloc_solid : (alloc minSize).Solid := by
  simp [alloc, Solid]

theorem Solid.addOctet (h : f.Solid) : (f.addOctet octet).Solid := by
  obtain ⟨hne, hall⟩ := h
  obtain ⟨seg, segs, hsegs⟩ := List.exists_cons_of_ne_nil hne
  unfold Front.addOctet
  split
  · refine ⟨List.cons_ne_nil _ _, ?_⟩
    dsimp only
    rw [List.dropLast_cons_of_ne_nil hne]
    intro s hs
    rcases List.mem_cons.1 hs with rfl | hs
    · exact List.cons_ne_nil _ _
    · exact hall s hs
  · refine ⟨List.cons_ne_nil _ _, ?_⟩
    rw [hsegs] at hall ⊢
    dsimp only [List.tail_cons]
    intro s hs
    cases segs with
    | nil => simp at hs
    | cons seg' segs =>
      rw [List.dropLast_cons_of_ne_nil (List.cons_ne_nil _ _)] at hs hall
      rcases List.mem_cons.1 hs with rfl | hs
      · exact List.cons_ne_nil _ _
      · exact hall s (List.mem_cons_of_mem _ hs)

end Front

namespace Buf

variable {b : Buf} {octet : UInt8} {octets string : Octets} {len : Nat}

/-- Only the last segment may be without octets. -/
def Solid (b : Buf) : Prop := ∀ seg ∈ b.segs.dropLast, seg ≠ []

/-- The current location is inside the buffer, and `octets` follow it. -/
structure Holds (b : Buf) (octets : Octets) : Prop where
  located : b.Located
  rest : b.rest = octets

/-- What `BUF_getOctet` leaves: the same segments, the octets behind the one read; and
`BUF_ungetOctet` puts it back. -/
structure Got (b b' : Buf) (octet : UInt8) (octets : Octets) : Prop where
  segs : b'.segs = b.segs
  holds : b'.Holds octets
  unget : b'.ungetOctet.Holds (octet :: octets)
  ungetSegs : b'.ungetOctet.segs = b.segs

/-- A location inside segment number `i`. -/
theorem holds_of_get {seg : Octets} {i x : Nat} (hseg : b.segs[i]? = some seg)
    (hx : x ≤ seg.length) :
    Holds { b with currentSeg := i, pX := x } (seg.drop x ++ (b.segs.drop (i + 1)).flatten) := by
  have hdrop : b.segs.drop i = seg :: b.segs.drop (i + 1) := by
    obtain ⟨hi, rfl⟩ := List.getElem?_eq_some_iff.1 hseg
    exact List.drop_eq_getElem_cons hi
  refine ⟨?_, ?_⟩
  · intro s hs
    dsimp only at hs ⊢
    rw [hdrop] at hs
    obtain rfl : seg = s := by simpa using hs
    exact hx
  · unfold rest
    dsimp only
    rw [hdrop, List.flatten_cons, List.drop_append_of_le_length hx]

/-- An octet read in segment number `i`. -/
theorem got_of_get {seg : Octets} {i x : Nat} (hseg : b.segs[i]? = some seg)
    (hx : seg[x]? = some octet) :
    Got b { b with currentSeg := i, pX := x + 1 } octet
      (seg.drop (x + 1) ++ (b.segs.drop (i + 1)).flatten) := by
  obtain ⟨hlt, hget⟩ := List.getElem?_eq_some_iff.1 hx
  have hcons : seg.drop x = octet :: seg.drop (x + 1) := by
    rw [List.drop_eq_getElem_cons hlt, hget]
  refine ⟨rfl, holds_of_get hseg hlt, ?_, ?_⟩
  · have hback := holds_of_get hseg (Nat.le_of_lt hlt)
    rw [hcons] at hback
    simpa [ungetOctet] using hback
  · simp [ungetOctet]

/-- **Reading an octet** gives the next one, or goes astray at an empty segment. -/
theorem getOctet_cases (h : b.Holds (octet :: octets)) :
    (∃ b', b.getOctet = .ok octet b' ∧ Got b b' octet octets) ∨
      (b.getOctet = .beyond ∧ ¬b.Solid) := by
  obtain ⟨hloc, hrest⟩ := h
  unfold getOctet
  cases hseg : b.segs[b.currentSeg]? with
  | none =>
    -- no segment, no octets
    rw [List.getElem?_eq_none_iff] at hseg
    unfold rest at hrest
    rw [List.drop_of_length_le hseg] at hrest
    simp at hrest
  | some seg =>
    have hx : b.pX ≤ seg.length := by
      apply hloc
      rw [List.head?_drop, hseg]
      rfl
    have hall : seg.drop b.pX ++ (b.segs.drop (b.currentSeg + 1)).flatten = octet :: octets :=
      (holds_of_get hseg hx).rest.symm.trans hrest
    dsimp only
    split
    · -- at the end of the segment
      rename_i hend
      rw [hend, List.drop_length, List.nil_append] at hall
      cases hnext : b.segs[b.currentSeg + 1]? with
      | none =>
        rw [List.getElem?_eq_none_iff] at hnext
        rw [List.drop_of_length_le hnext] at hall
        simp at hall
      | some next =>
        obtain ⟨hlt, hget⟩ := List.getElem?_eq_some_iff.1 hnext
        rw [List.drop_eq_getElem_cons hlt, hget, List.flatten_cons] at hall
        cases next with
        | nil =>
          refine .inr ⟨rfl, fun hs => ?_⟩
          -- more octets follow, so the empty segment is not the last one
          have hmore : b.currentSeg + 1 < b.segs.dropLast.length := by
            rw [List.length_dropLast]
            by_contra hlast
            rw [List.drop_of_length_le (by omega)] at hall
            simp at hall
          apply hs [] ?_ rfl
          rw [← hget, ← List.getElem_dropLast hmore]
          exact List.getElem_mem _
        | cons first next =>
          rw [List.cons_append] at hall
          obtain ⟨rfl, hleft⟩ := List.cons.inj hall
          refine .inl ⟨_, rfl, ?_⟩
          rw [← hleft]
          exact got_of_get hnext rfl
    · -- inside the segment
      rename_i hend
      have hlt : b.pX < seg.length := by omega
      rw [List.drop_eq_getElem_cons hlt, List.cons_append] at hall
      obtain ⟨hoctet, hall⟩ := List.cons.inj hall
      rw [List.getElem?_eq_getElem hlt]
      dsimp only
      rw [hoctet]
      refine .inl ⟨_, rfl, ?_⟩
      rw [← hall]
      exact got_of_get hseg (by rw [List.getElem?_eq_getElem hlt, hoctet])

/-- There is no octet to read at the end. -/
theorem getOctet_end (h : b.Holds []) : ∀ octet b', b.getOctet ≠ .ok octet b' := by
  intro octet b' hok
  obtain ⟨hloc, hrest⟩ := h
  unfold getOctet at hok
  cases hseg : b.segs[b.currentSeg]? with
  | none =>
    rw [hseg] at hok
    cases hok
  | some seg =>
    have hx : b.pX ≤ seg.length := by
      apply hloc
      rw [List.head?_drop, hseg]
      rfl
    have hall : seg.drop b.pX ++ (b.segs.drop (b.currentSeg + 1)).flatten = [] :=
      (holds_of_get hseg hx).rest.symm.trans hrest
    obtain ⟨hdrop, hflat⟩ := List.append_eq_nil_iff.1 hall
    rw [hseg] at hok
    dsimp only at hok
    split at hok
    · cases hnext : b.segs[b.currentSeg + 1]? with
      | none =>
        rw [hnext] at hok
        cases hok
      | some next =>
        obtain ⟨hlt, hget⟩ := List.getElem?_eq_some_iff.1 hnext
        rw [List.drop_eq_getElem_cons hlt, hget, List.flatten_cons] at hflat
        rw [hnext, (List.append_eq_nil_iff.1 hflat).1] at hok
        cases hok
    · rename_i hend
      have := List.drop_eq_nil_iff.1 hdrop
      omega

/-- The segment in which `BUF_getChunk` finds the next octet. -/
theorem skipSegs_spec (segs : List Octets) {x : Nat} (hx : InSeg segs x)
    (hne : segs.flatten.drop x ≠ []) :
    ∃ skipped y seg, skipSegs segs x = some (skipped, y, seg.drop y) ∧
      segs[skipped]? = some seg ∧ y < seg.length ∧
      seg.drop y ++ (segs.drop (skipped + 1)).flatten = segs.flatten.drop x := by
  induction segs generalizing x with
  | nil => simp at hne
  | cons seg segs ih =>
    have hle : x ≤ seg.length := hx seg rfl
    have hdrop : (seg :: segs).flatten.drop x = seg.drop x ++ segs.flatten :=
      List.drop_append_of_le_length hle
    unfold skipSegs
    split
    · -- nothing left in this segment
      rename_i hend
      have hnil : seg.drop x = [] := List.drop_of_length_le (by omega)
      rw [hdrop, hnil, List.nil_append] at hne ⊢
      obtain ⟨skipped, y, seg', hskip, hget, hy, hleft⟩ :=
        ih (x := 0) (fun _ _ => Nat.zero_le _) (by rwa [List.drop_zero])
      refine ⟨skipped + 1, y, seg', ?_, hget, hy, ?_⟩
      · rw [hskip]
        rfl
      · rwa [List.drop_zero] at hleft
    · rename_i hmore
      exact ⟨0, x, seg, rfl, rfl, by omega, hdrop.symm⟩

/-- A chunk: some of the octets that are left, at most `len`. -/
theorem getChunk_ok (h : b.Holds octets) (hne : octets ≠ []) (hlen : len ≠ 0) :
    ∃ chunk left b', b.getChunk len = .ok chunk b' ∧ b'.Holds left ∧ b'.segs = b.segs ∧
      chunk ++ left = octets ∧ chunk ≠ [] ∧ chunk.length ≤ len := by
  obtain ⟨hloc, hrest⟩ := h
  unfold rest at hrest
  rw [← hrest] at hne
  obtain ⟨skipped, y, seg, hskip, hget, hy, hleft⟩ :=
    skipSegs_spec (b.segs.drop b.currentSeg) hloc hne
  have hseg : b.segs[b.currentSeg + skipped]? = some seg := by
    rw [← List.getElem?_drop]
    exact hget
  rw [List.drop_drop] at hleft
  have hdrop : (seg.drop y).length = seg.length - y := List.length_drop
  unfold getChunk
  rw [hskip]
  dsimp only
  generalize hn : (if len ≠ 0 ∧ (seg.drop y).length > len then len else (seg.drop y).length) = n
  have hnle : n ≤ (seg.drop y).length ∧ n ≤ len ∧ 0 < n := by
    split at hn <;> omega
  have hholds := holds_of_get (b := b) (x := y + n) hseg (by omega)
  refine ⟨_, _, _, rfl, hholds, rfl, ?_, ?_, ?_⟩
  · have hsum : b.currentSeg + (skipped + 1) = b.currentSeg + skipped + 1 := by omega
    rw [← List.drop_drop, ← List.append_assoc, List.take_append_drop, ← hrest, ← hsum]
    exact hleft
  · intro hnil
    have := congrArg List.length hnil
    rw [List.length_take, List.length_nil] at this
    omega
  · rw [List.length_take]
    omega

/-- The chunks make the string. -/
theorem getString_go_ok {fuel : Nat} (h : b.Holds (string ++ octets))
    (hfuel : string.length ≤ fuel) :
    ∃ b', getString.go fuel b string.length = .ok string b' ∧ b'.Holds octets ∧
      b'.segs = b.segs := by
  induction fuel generalizing b string with
  | zero =>
    have hnil : string = [] := List.eq_nil_of_length_eq_zero (by omega)
    rw [hnil] at h ⊢
    exact ⟨b, rfl, h, rfl⟩
  | succ fuel ih =>
    unfold getString.go
    split
    · rename_i hzero
      have hnil : string = [] := List.eq_nil_of_length_eq_zero hzero
      rw [hnil] at h ⊢
      exact ⟨b, rfl, h, rfl⟩
    · rename_i hlen
      have hne : string ++ octets ≠ [] := by
        intro hnil
        rw [(List.append_eq_nil_iff.1 hnil).1] at hlen
        exact hlen rfl
      obtain ⟨chunk, left, b₁, hchunk, hholds, hsegs, hall, hcne, hcle⟩ := getChunk_ok h hne hlen
      -- the chunk is the beginning of the string
      obtain ⟨more, hmore, hrest⟩ : ∃ more, string = chunk ++ more ∧ left = more ++ octets := by
        rcases List.append_eq_append_iff.1 hall with ⟨as, h1, h2⟩ | ⟨bs, h1, h2⟩
        · exact ⟨as, h1, h2⟩
        · have hlen' := congrArg List.length h1
          rw [List.length_append] at hlen'
          have hbs : bs = [] := List.eq_nil_of_length_eq_zero (by omega)
          rw [hbs, List.append_nil] at h1
          rw [hbs, List.nil_append] at h2
          exact ⟨[], by rw [h1, List.append_nil], by rw [h2, List.nil_append]⟩
      have hpos : 0 < chunk.length := List.length_pos_iff.2 hcne
      have hlensum : string.length = chunk.length + more.length := by
        rw [hmore, List.length_append]
      rw [hrest] at hholds
      obtain ⟨b₂, hgo, hholds₂, hsegs₂⟩ := ih hholds (by omega)
      refine ⟨b₂, ?_, hholds₂, hsegs₂.trans hsegs⟩
      have hsub : string.length - chunk.length = more.length := by omega
      rw [hchunk]
      dsimp only
      rw [hsub, hgo]
      dsimp only
      rw [← hmore]

/-- **Reading a string** gives its octets, in whatever segments they are. -/
theorem getString_ok (h : b.Holds (string ++ octets)) :
    ∃ b', b.getString string.length = .ok string b' ∧ b'.Holds octets ∧ b'.segs = b.segs :=
  getString_go_ok h (Nat.le_refl _)

end Buf

end Ocp
