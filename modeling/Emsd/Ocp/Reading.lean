import Emsd.Ocp.Buf

/-!
# Reading a buffer (`buf.c`, `asnber.c`)

The BER parser reads a buffer octet by octet, and strings chunk by chunk. `BUF_getChunk` passes over
segments without octets, `BUF_getOctet` does not.

* `reads_iff`: a buffer that copies have been appended to reads like its octets as long as no single
  octet is read right behind one of the copies.
-/

namespace Ocp

/-- How a read ends. -/
inductive Read (α : Type)
  | ok (a : α) (b : Buf)
  /-- `BUF_RC_BufferExhausted` -/
  | exhausted
  /-- An octet outside the segments has been read. -/
  | beyond
  deriving DecidableEq, Repr

namespace Buf

/-- `BUF_copy`: `BUF_alloc` gives the copy a segment of its own, which stays empty. -/
def copy (b : Buf) : Buf := ⟨[] :: b.segs, 0, 0⟩

/-- `BUF_appendBuffer`: the buffer, at its end. The appended one is left without segments. -/
def appendBuffer (b b' : Buf) : Buf :=
  let segs := b.segs ++ b'.segs
  ⟨segs, segs.length - 1, (segs.getLast?.getD []).length⟩

/-- `BUF_getOctet`. -/
def getOctet (b : Buf) : Read UInt8 :=
  match b.segs[b.currentSeg]? with
  | none => .beyond
  | some seg =>
    if b.pX = seg.length then
      match b.segs[b.currentSeg + 1]? with
      | none => .exhausted
      | some [] => .beyond
      | some (octet :: _) => .ok octet { b with currentSeg := b.currentSeg + 1, pX := 1 }
    else
      match seg[b.pX]? with
      | none => .beyond
      | some octet => .ok octet { b with pX := b.pX + 1 }

/-- `BUF_ungetOctet`. -/
def ungetOctet (b : Buf) : Buf :=
  if b.pX = 0 then
    { b with
      currentSeg := b.currentSeg - 1
      pX := ((b.segs[b.currentSeg - 1]?.getD []).length) - 1 }
  else { b with pX := b.pX - 1 }

/-- The loop of `BUF_getChunk` over the segments from the current one on: how many are passed over,
where in the next one the octets start, and the octets that it has left. -/
def skipSegs : List Octets → Nat → Option (Nat × Nat × Octets)
  | [], _ => none
  | seg :: segs, x =>
    if seg.length - x = 0 then (skipSegs segs 0).map fun r => (r.1 + 1, r.2)
    else some (0, x, seg.drop x)

/-- `BUF_getChunk` for at most `len` octets, or for any number when `len` is zero. -/
def getChunk (b : Buf) (len : Nat) : Read Octets :=
  match skipSegs (b.segs.drop b.currentSeg) b.pX with
  | none => .exhausted
  | some (skipped, x, octets) =>
    let n := if len ≠ 0 ∧ octets.length > len then len else octets.length
    .ok (octets.take n) { b with currentSeg := b.currentSeg + skipped, pX := x + n }

/-- The loop of `asn_berParse` that reads a string of `len` octets. Each chunk has at least one octet,
so that `len` rounds are enough. -/
def getString (b : Buf) (len : Nat) : Read Octets := go len b len
where
  go : Nat → Buf → Nat → Read Octets
  | 0, b, _ => .ok [] b
  | fuel + 1, b, len =>
    if len = 0 then .ok [] b
    else
      match b.getChunk len with
      | .ok octets b =>
        match go fuel b (len - octets.length) with
        | .ok octets' b => .ok (octets ++ octets') b
        | r => r
      | r => r

end Buf

/-- What a parser does next: read an octet, look at one (`BUF_getOctet`, then `BUF_ungetOctet` for a
tag that is not the expected one), or read a string. -/
inductive ReadOp
  | octet
  | peek
  | string (len : Nat)
  deriving DecidableEq, Repr

/-- One read of a buffer. -/
def Buf.read (b : Buf) : ReadOp → Read Octets
  | .octet =>
    match b.getOctet with
    | .ok octet b => .ok [octet] b
    | .exhausted => .exhausted
    | .beyond => .beyond
  | .peek =>
    match b.getOctet with
    | .ok octet b => .ok [octet] b.ungetOctet
    | .exhausted => .exhausted
    | .beyond => .beyond
  | .string len => b.getString len

/-- The reads of a parser, up to one that fails: what they give, and whether all succeed. There is no
result when an octet outside the buffer is read. -/
def Buf.reads (b : Buf) : List ReadOp → Option (List Octets × Bool)
  | [] => some ([], true)
  | op :: ops =>
    match b.read op with
    | .ok octets b => (b.reads ops).map fun r => (octets :: r.1, r.2)
    | .exhausted => some ([], false)
    | .beyond => none

/-! ## Reading plain octets -/

/-- One read of octets, and what is left of them. -/
def readOctets (octets : Octets) : ReadOp → Option (Octets × Octets)
  | .octet => octets.head?.map fun octet => ([octet], octets.tail)
  | .peek => octets.head?.map fun octet => ([octet], octets)
  | .string len => if len ≤ octets.length then some (octets.take len, octets.drop len) else none

/-- The reads of a parser. -/
def readsOctets (octets : Octets) : List ReadOp → List Octets × Bool
  | [] => ([], true)
  | op :: ops =>
    match readOctets octets op with
    | some (read, octets) =>
      let r := readsOctets octets ops
      (read :: r.1, r.2)
    | none => ([], false)

/-- Where single octets are read, as the number of octets before them; `left` octets are left. -/
def octetReads (before left : Nat) : List ReadOp → List Nat
  | [] => []
  | .octet :: ops =>
    before :: if left = 0 then [] else octetReads (before + 1) (left - 1) ops
  | .peek :: ops => before :: if left = 0 then [] else octetReads before left ops
  | .string len :: ops => if len ≤ left then octetReads (before + len) (left - len) ops else []

/-! ## Copies one behind the other -/

section Pieces

open Buf (skipSegs)

variable {cs : List Octets} {c : Octets} {b : Buf} {i j pos len : Nat}

/-- The segments of copies of one-segment buffers, appended to each other. -/
def pieces (cs : List Octets) : List Octets := cs.flatMap fun c => [[], c]

/-- The octets in front of copy `j`. -/
def before (cs : List Octets) (j : Nat) : Nat := (cs.take j).flatten.length

/-- `pos` octets end one of the copies, and it is not the last one. -/
def Seam (cs : List Octets) (pos : Nat) : Prop := ∃ i, 0 < i ∧ i < cs.length ∧ before cs i = pos

theorem pieces_drop (h : cs[j]? = some c) :
    (pieces cs).drop (2 * j + 1) = c :: pieces (cs.drop (j + 1)) := by
  induction cs generalizing j with
  | nil => simp at h
  | cons c' cs ih =>
    cases j with
    | zero =>
      obtain rfl : c' = c := by simpa using h
      rfl
    | succ j =>
      have hdrop := ih (by simpa using h)
      rw [show 2 * (j + 1) + 1 = 2 * j + 1 + 1 + 1 by omega]
      exact hdrop

/-- Behind copy `j` there is an empty segment, or nothing. -/
theorem pieces_get_succ (h : cs[j]? = some c) :
    (pieces cs)[2 * j + 1]? = some c ∧
      (pieces cs)[2 * j + 1 + 1]? = if j + 1 < cs.length then some [] else none := by
  have hdrop := pieces_drop h
  refine ⟨?_, ?_⟩
  · have h0 := congrArg (·[0]?) hdrop
    simpa [List.getElem?_drop] using h0
  · have h1 := congrArg (·[1]?) hdrop
    simp only [List.getElem?_drop, List.getElem?_cons_succ] at h1
    rw [h1]
    split
    · rename_i hlt
      obtain ⟨c', hc'⟩ : ∃ c', (cs.drop (j + 1)).head? = some c' := by
        rw [List.head?_drop]
        exact ⟨_, List.getElem?_eq_getElem hlt⟩
      cases hd : cs.drop (j + 1) with
      | nil => simp [hd] at hc'
      | cons c₁ cs₁ => rfl
    · rename_i hge
      rw [List.drop_eq_nil_of_le (by omega)]
      rfl

theorem before_succ (h : cs[j]? = some c) : before cs (j + 1) = before cs j + c.length := by
  unfold before
  rw [List.take_add_one, h]
  simp

theorem before_mono (cs : List Octets) (h : i ≤ j) : before cs i ≤ before cs j := by
  unfold before
  rw [← List.take_append_drop i (cs.take j), List.take_take, Nat.min_eq_left h]
  simp

/-- What comes from copy `j` on. -/
theorem drop_before (h : cs[j]? = some c) :
    cs.flatten.drop (before cs j) = c ++ (cs.drop (j + 1)).flatten := by
  obtain ⟨hj, rfl⟩ := List.getElem?_eq_some_iff.1 h
  have hsplit : cs.flatten = (cs.take j).flatten ++ (cs[j] ++ (cs.drop (j + 1)).flatten) := by
    rw [← List.flatten_cons, ← List.drop_eq_getElem_cons hj, ← List.flatten_append,
      List.take_append_drop]
  rw [hsplit, before, List.drop_left]

/-- Where a read of the copies may stand when `pos` octets have been read: at the very start, or in a
copy with octets. -/
inductive At (cs : List Octets) (b : Buf) : Nat → Prop
  | start : b.segs = pieces cs → b.currentSeg = 0 → b.pX = 0 → At cs b 0
  | inside {j : Nat} {c : Octets} : b.segs = pieces cs → cs[j]? = some c → c ≠ [] →
    b.currentSeg = 2 * j + 1 → b.pX ≤ c.length → (j = 0 ∨ 0 < b.pX) → At cs b (before cs j + b.pX)

/-- Inside a copy no seam is passed. -/
theorem not_seam_inside {x : Nat} (hc : cs[j]? = some c) (hx : x < c.length) (h0 : j = 0 ∨ 0 < x) :
    ¬Seam cs (before cs j + x) := by
  rintro ⟨i, hi, -, hpos⟩
  have hsucc := before_succ hc
  rcases Nat.lt_or_ge j i with hji | hij
  · have hle := before_mono cs (show j + 1 ≤ i by omega)
    omega
  · have hle := before_mono cs hij
    omega

/-- The end of the last copy, when it has octets, is no seam. -/
theorem not_seam_last (hne : c ≠ []) (hlast : ¬j + 1 < cs.length) :
    ¬Seam cs (before cs j + c.length) := by
  rintro ⟨i, -, hi, hpos⟩
  have hpos' := List.length_pos_iff.2 hne
  have hle := before_mono cs (show i ≤ j by omega)
  omega

/-- What comes behind a position in copy `j`. -/
theorem drop_inside {x : Nat} (hc : cs[j]? = some c) (hx : x ≤ c.length) :
    cs.flatten.drop (before cs j + x) = c.drop x ++ (cs.drop (j + 1)).flatten := by
  rw [← List.drop_drop, drop_before hc, List.drop_append_of_le_length hx]

/-- The octet at a position in copy `j`. -/
theorem drop_inside_cons {x : Nat} {octet : UInt8} (hc : cs[j]? = some c)
    (hlt : x < c.length) (hoctet : c.get ⟨x, hlt⟩ = octet) :
    ∃ rest, cs.flatten.drop (before cs j + x) = octet :: rest := by
  rw [drop_inside hc (Nat.le_of_lt hlt), List.drop_eq_getElem_cons hlt]
  exact ⟨_, congrArg (· :: _) hoctet⟩

/-- Nothing is left at the end of the last copy. -/
theorem drop_last (hc : cs[j]? = some c) (hlast : ¬j + 1 < cs.length) :
    cs.flatten.drop (before cs j + c.length) = [] := by
  rw [drop_inside hc (Nat.le_refl _), List.drop_length, List.drop_eq_nil_of_le (by omega)]
  rfl

/-- What `BUF_getOctet` does when `pos` octets have been read. -/
inductive OctetAt (cs : List Octets) (b : Buf) (pos : Nat) : Prop
  | seam : Seam cs pos → b.getOctet = .beyond → OctetAt cs b pos
  | exhausted : ¬Seam cs pos → cs.flatten.drop pos = [] → b.getOctet = .exhausted → OctetAt cs b pos
  | ok {octet : UInt8} {rest : Octets} {b' : Buf} : ¬Seam cs pos →
    cs.flatten.drop pos = octet :: rest → b.getOctet = .ok octet b' → At cs b' (pos + 1) →
    At cs b'.ungetOctet pos → OctetAt cs b pos

/-- The first octet is that of the first copy. -/
theorem octetAt_start (hn : 2 ≤ cs.length) (hsegs : b.segs = pieces cs) (hseg : b.currentSeg = 0)
    (hx : b.pX = 0) : OctetAt cs b 0 := by
  obtain ⟨c, cs, rfl⟩ : ∃ c cs', cs = c :: cs' := List.exists_cons_of_length_pos (by omega)
  cases c with
  | nil =>
    refine .seam ⟨1, by omega, by omega, rfl⟩ ?_
    simp [Buf.getOctet, hsegs, hseg, hx, pieces]
  | cons octet c =>
    have hc : ((octet :: c) :: cs)[0]? = some (octet :: c) := rfl
    have hget : b.getOctet = .ok octet { b with currentSeg := 1, pX := 1 } := by
      simp [Buf.getOctet, hsegs, hseg, hx, pieces]
    have hlen : 0 < (octet :: c).length := by simp
    have hrest : ((octet :: c) :: cs).flatten.drop 0 = octet :: (c ++ cs.flatten) := rfl
    refine .ok ?_ hrest hget ?_ ?_
    · exact not_seam_inside (x := 0) hc hlen (.inl rfl)
    · have hat := At.inside (b := { b with currentSeg := 1, pX := 1 }) (j := 0) hsegs hc
        (by simp) rfl hlen (.inl rfl)
      simpa [before] using hat
    · have hat := At.inside (b := { b with currentSeg := 1, pX := 0 }) (j := 0) hsegs hc
        (by simp) rfl (Nat.zero_le _) (.inl rfl)
      simpa [before, Buf.ungetOctet] using hat

/-- An octet behind one of a copy. -/
theorem octetAt_inside (hsegs : b.segs = pieces cs) (hc : cs[j]? = some c) (hne : c ≠ [])
    (hseg : b.currentSeg = 2 * j + 1) (hx : b.pX ≤ c.length) (h0 : j = 0 ∨ 0 < b.pX) :
    OctetAt cs b (before cs j + b.pX) := by
  obtain ⟨hcur, hnext⟩ := pieces_get_succ hc
  rw [← hsegs, ← hseg] at hcur hnext
  rcases Nat.lt_or_eq_of_le hx with hlt | heq
  · obtain ⟨octet, hoctet⟩ : ∃ octet, c.get ⟨b.pX, hlt⟩ = octet := ⟨_, rfl⟩
    obtain ⟨rest, hrest⟩ := drop_inside_cons hc hlt hoctet
    have hget : b.getOctet = .ok octet { b with pX := b.pX + 1 } := by
      unfold Buf.getOctet
      simp only [hcur, List.getElem?_eq_getElem hlt, if_neg (Nat.ne_of_lt hlt)]
      rw [← hoctet]
      rfl
    refine .ok (not_seam_inside hc hlt h0) hrest hget ?_ ?_
    · exact .inside hsegs hc hne hseg hlt (.inr (Nat.succ_pos _))
    · have hunget : ({ b with pX := b.pX + 1 } : Buf).ungetOctet = b := by
        simp [Buf.ungetOctet]
      rw [hunget]
      exact .inside hsegs hc hne hseg hx h0
  · -- the copy has been read to its end
    have hget : b.getOctet = if j + 1 < cs.length then .beyond else .exhausted := by
      unfold Buf.getOctet
      simp only [hcur, hnext, if_pos heq]
      split <;> simp_all
    rw [heq]
    split at hget
    · rename_i hlt
      exact .seam ⟨j + 1, by omega, hlt, before_succ hc⟩ hget
    · rename_i hge
      exact .exhausted (not_seam_last hne hge) (drop_last hc hge) hget

theorem At.octetAt (hn : 2 ≤ cs.length) (h : At cs b pos) : OctetAt cs b pos := by
  cases h with
  | start hsegs hseg hx => exact octetAt_start hn hsegs hseg hx
  | inside hsegs hc hne hseg hx h0 => exact octetAt_inside hsegs hc hne hseg hx h0

/-- Passing over copies without octets. -/
theorem skipSegs_pieces (cs : List Octets) :
    (skipSegs (pieces cs) 0 = none ∧ cs.flatten = []) ∨ ∃ i c, cs[i]? = some c ∧ c ≠ [] ∧
      before cs i = 0 ∧ skipSegs (pieces cs) 0 = some (2 * i + 1, 0, c) := by
  induction cs with
  | nil => exact .inl ⟨rfl, rfl⟩
  | cons c cs ih =>
    cases c with
    | cons octet c => exact .inr ⟨0, octet :: c, rfl, by simp, rfl, rfl⟩
    | nil =>
      have hskip : skipSegs (pieces ([] :: cs)) 0 =
          ((skipSegs (pieces cs) 0).map fun r => (r.1 + 1, r.2)).map fun r => (r.1 + 1, r.2) := rfl
      rw [hskip]
      rcases ih with ⟨hnone, hflat⟩ | ⟨i, c, hc, hne, hbefore, hsome⟩
      · rw [hnone]
        exact .inl ⟨rfl, hflat⟩
      · rw [hsome]
        exact .inr ⟨i + 1, c, hc, hne, hbefore, rfl⟩

/-- What `BUF_getChunk` does when `pos` octets have been read. -/
inductive ChunkAt (cs : List Octets) (b : Buf) (pos len : Nat) : Prop
  | exhausted : cs.flatten.drop pos = [] → b.getChunk len = .exhausted → ChunkAt cs b pos len
  | ok {n : Nat} {b' : Buf} : 0 < n → n ≤ len → n ≤ (cs.flatten.drop pos).length →
    b.getChunk len = .ok ((cs.flatten.drop pos).take n) b' → At cs b' (pos + n) →
    ChunkAt cs b pos len

/-- A chunk is taken from copy `j`. -/
theorem chunkAt_inside {skipped x : Nat} (hlen : 0 < len) (hsegs : b.segs = pieces cs)
    (hc : cs[j]? = some c) (hx : x < c.length)
    (hskip : skipSegs (b.segs.drop b.currentSeg) b.pX = some (skipped, x, c.drop x))
    (hseg : b.currentSeg + skipped = 2 * j + 1) (hpos : pos = before cs j + x) :
    ChunkAt cs b pos len := by
  have hdrop := drop_inside hc (Nat.le_of_lt hx)
  rw [← hpos] at hdrop
  obtain ⟨n, hn, hle⟩ : ∃ n, (if len ≠ 0 ∧ (c.drop x).length > len then len else (c.drop x).length) =
      n ∧ 0 < n ∧ n ≤ len ∧ n ≤ c.length - x := by
    refine ⟨_, rfl, ?_⟩
    rw [List.length_drop]
    split <;> omega
  have hne : c ≠ [] := by
    rintro rfl
    simp at hx
  have htake : (c.drop x).take n = (cs.flatten.drop pos).take n := by
    rw [hdrop, List.take_append_of_le_length]
    rw [List.length_drop]
    omega
  have hget : b.getChunk len = .ok ((cs.flatten.drop pos).take n)
      { b with currentSeg := b.currentSeg + skipped, pX := x + n } := by
    unfold Buf.getChunk
    rw [hskip, ← htake]
    simp only [hn]
  refine .ok hle.1 hle.2.1 ?_ hget ?_
  · rw [hdrop, List.length_append, List.length_drop]
    omega
  · have hat := At.inside (b := { b with currentSeg := b.currentSeg + skipped, pX := x + n })
      hsegs hc hne hseg (show x + n ≤ c.length by omega) (.inr (show 0 < x + n by omega))
    rw [hpos, Nat.add_assoc]
    exact hat

theorem At.chunkAt (hlen : 0 < len) (h : At cs b pos) : ChunkAt cs b pos len := by
  cases h with
  | start hsegs hseg hx =>
    rcases skipSegs_pieces cs with ⟨hnone, hflat⟩ | ⟨i, c, hc, hne, hbefore, hsome⟩
    · refine .exhausted (by rw [hflat]; rfl) ?_
      unfold Buf.getChunk
      rw [hsegs, hseg, hx, List.drop_zero, hnone]
    · have hskip : skipSegs (b.segs.drop b.currentSeg) b.pX = some (2 * i + 1, 0, c.drop 0) := by
        rw [hsegs, hseg, hx, List.drop_zero]
        exact hsome
      refine chunkAt_inside hlen hsegs hc (List.length_pos_iff.2 hne) hskip ?_ hbefore.symm
      rw [hseg, Nat.zero_add]
  | @inside j c hsegs hc hne hseg hx h0 =>
    have hdrop : b.segs.drop b.currentSeg = c :: pieces (cs.drop (j + 1)) := by
      rw [hsegs, hseg]
      exact pieces_drop hc
    rcases Nat.lt_or_eq_of_le hx with hlt | heq
    · have hskip : skipSegs (b.segs.drop b.currentSeg) b.pX = some (0, b.pX, c.drop b.pX) := by
        rw [hdrop]
        unfold skipSegs
        exact if_neg (by omega)
      exact chunkAt_inside hlen hsegs hc hlt hskip hseg rfl
    · -- this copy has been read to its end
      have hskip : skipSegs (b.segs.drop b.currentSeg) b.pX =
          (skipSegs (pieces (cs.drop (j + 1))) 0).map fun r => (r.1 + 1, r.2) := by
        rw [hdrop, heq]
        conv_lhs => unfold skipSegs
        exact if_pos (by omega)
      rcases skipSegs_pieces (cs.drop (j + 1)) with ⟨hnone, hflat⟩ | ⟨i, c', hc', hne', hbefore, hsome⟩
      · refine .exhausted ?_ ?_
        · rw [drop_inside hc hx, hflat, heq, List.drop_length]
          rfl
        · unfold Buf.getChunk
          rw [hskip, hnone]
          rfl
      · have hget : cs[j + 1 + i]? = some c' := by
          rwa [List.getElem?_drop] at hc'
        have hpos : before cs j + b.pX = before cs (j + 1 + i) + 0 := by
          have hsplit : before cs (j + 1 + i) = before cs (j + 1) + before (cs.drop (j + 1)) i := by
            unfold before
            rw [List.take_add, List.flatten_append, List.length_append]
          rw [hsplit, hbefore, before_succ hc, heq, Nat.add_zero]
        have hskip' : skipSegs (b.segs.drop b.currentSeg) b.pX =
            some (2 * i + 1 + 1, 0, c'.drop 0) := by
          rw [hskip, hsome]
          rfl
        exact chunkAt_inside hlen hsegs hget (List.length_pos_iff.2 hne') hskip' (by omega) hpos

/-- A string of `len` octets is what comes next, if there are as many. -/
theorem At.getString (h : At cs b pos) : ∀ {fuel}, len ≤ fuel →
    if len ≤ (cs.flatten.drop pos).length then
      ∃ b', Buf.getString.go fuel b len = .ok ((cs.flatten.drop pos).take len) b' ∧
        At cs b' (pos + len)
    else Buf.getString.go fuel b len = .exhausted := by
  intro fuel
  induction fuel generalizing b pos len with
  | zero =>
    intro hle
    obtain rfl : len = 0 := by omega
    rw [if_pos (Nat.zero_le _)]
    exact ⟨b, rfl, h⟩
  | succ fuel ih =>
    intro hle
    unfold Buf.getString.go
    rcases Nat.eq_zero_or_pos len with rfl | hpos
    · rw [if_pos (Nat.zero_le _), if_pos rfl]
      exact ⟨b, rfl, h⟩
    rw [if_neg (show ¬len = 0 by omega)]
    rcases h.chunkAt hpos with ⟨hnil, hget⟩ | ⟨hn, hnlen, hnle, hget, hat⟩
    · rw [hnil, hget, if_neg]
      simp only [List.length_nil]
      omega
    · rename_i n b'
      -- the chunk, and then the rest of the string
      have hsize : ((cs.flatten.drop pos).take n).length = n := by
        rw [List.length_take]
        omega
      have hle' : len - n ≤ fuel := by omega
      have hrec := ih hat hle'
      rw [← List.drop_drop] at hrec
      simp only [hget, hsize]
      split at hrec
      · rename_i hfit
        rw [List.length_drop] at hfit
        obtain ⟨b'', hgo, hat'⟩ := hrec
        rw [if_pos (by omega), hgo]
        refine ⟨b'', ?_, ?_⟩
        · have hsplit : len = n + (len - n) := by omega
          conv_rhs => rw [hsplit, List.take_add]
        · rwa [Nat.add_assoc, Nat.add_sub_cancel' hnlen] at hat'
      · rename_i hfit
        rw [List.length_drop] at hfit
        rw [if_neg (by omega), hrec]

/-- The next read, and the reads behind it, agree with the octets unless one is at a seam. -/
def Agrees (cs : List Octets) (b : Buf) (pos : Nat) (ops : List ReadOp) : Prop :=
  ((∀ p ∈ octetReads pos (cs.flatten.drop pos).length ops, ¬Seam cs p) →
    b.reads ops = some (readsOctets (cs.flatten.drop pos) ops)) ∧
  ((∃ p ∈ octetReads pos (cs.flatten.drop pos).length ops, Seam cs p) → b.reads ops = none)

theorem agrees_seam {op : ReadOp} {ops : List ReadOp} (hop : op = .octet ∨ op = .peek)
    (hseam : Seam cs pos) (hget : b.getOctet = .beyond) : Agrees cs b pos (op :: ops) := by
  have hmem : pos ∈ octetReads pos (cs.flatten.drop pos).length (op :: ops) := by
    rcases hop with rfl | rfl <;> exact List.mem_cons_self
  refine ⟨fun hc => absurd hseam (hc pos hmem), fun _ => ?_⟩
  rcases hop with rfl | rfl <;> simp only [Buf.reads, Buf.read, hget]

theorem agrees_exhausted {op : ReadOp} {ops : List ReadOp} (hop : op = .octet ∨ op = .peek)
    (hclear : ¬Seam cs pos) (hnil : cs.flatten.drop pos = []) (hget : b.getOctet = .exhausted) :
    Agrees cs b pos (op :: ops) := by
  refine ⟨fun _ => ?_, fun ⟨p, hp, hseam⟩ => ?_⟩
  · rcases hop with rfl | rfl <;> simp only [Buf.reads, Buf.read, hget, hnil] <;> rfl
  · have hpos : p = pos := by
      rcases hop with rfl | rfl <;> simpa [octetReads, hnil] using hp
    exact absurd (hpos ▸ hseam) hclear

/-- Reads that go wrong nowhere, and reads that do. -/
theorem At.agrees (hn : 2 ≤ cs.length) (h : At cs b pos) (ops : List ReadOp) :
    Agrees cs b pos ops := by
  induction ops generalizing b pos with
  | nil => exact ⟨fun _ => rfl, fun ⟨p, hp, _⟩ => by cases hp⟩
  | cons op ops ih =>
    cases op with
    | octet =>
      rcases h.octetAt hn with ⟨hseam, hget⟩ | ⟨hclear, hnil, hget⟩ | ⟨hclear, hrest, hget, hat, -⟩
      · exact agrees_seam (.inl rfl) hseam hget
      · exact agrees_exhausted (.inl rfl) hclear hnil hget
      · rename_i octet rest b'
        obtain ⟨hok, hbad⟩ := ih hat
        have htail : cs.flatten.drop (pos + 1) = rest := by
          rw [← List.drop_drop, hrest]
          rfl
        rw [htail] at hok hbad
        have hoctets : octetReads pos (cs.flatten.drop pos).length (.octet :: ops) =
            pos :: octetReads (pos + 1) rest.length ops := by
          rw [hrest]
          rfl
        unfold Agrees
        rw [hoctets]
        refine ⟨fun hc => ?_, fun ⟨p, hp, hseam⟩ => ?_⟩
        · have hrec := hok fun p hp => hc p (List.mem_cons_of_mem _ hp)
          simp only [Buf.reads, Buf.read, hget, hrec, hrest]
          rfl
        · have hne : p ≠ pos := fun he => hclear (he ▸ hseam)
          have hp' := (List.mem_cons.1 hp).resolve_left hne
          simp only [Buf.reads, Buf.read, hget, hbad ⟨p, hp', hseam⟩]
          rfl
    | peek =>
      rcases h.octetAt hn with ⟨hseam, hget⟩ | ⟨hclear, hnil, hget⟩ | ⟨hclear, hrest, hget, -, hat⟩
      · exact agrees_seam (.inr rfl) hseam hget
      · exact agrees_exhausted (.inr rfl) hclear hnil hget
      · obtain ⟨hok, hbad⟩ := ih hat
        have hoctets : octetReads pos (cs.flatten.drop pos).length (.peek :: ops) =
            pos :: octetReads pos (cs.flatten.drop pos).length ops := by
          rw [hrest]
          rfl
        unfold Agrees
        rw [hoctets]
        refine ⟨fun hc => ?_, fun ⟨p, hp, hseam⟩ => ?_⟩
        · have hrec := hok fun p hp => hc p (List.mem_cons_of_mem _ hp)
          simp only [Buf.reads, Buf.read, hget, hrec, hrest]
          rfl
        · have hne : p ≠ pos := fun he => hclear (he ▸ hseam)
          have hp' := (List.mem_cons.1 hp).resolve_left hne
          simp only [Buf.reads, Buf.read, hget, hbad ⟨p, hp', hseam⟩]
          rfl
    | string len =>
      have hstring := h.getString (Nat.le_refl len)
      unfold Agrees
      split at hstring
      · rename_i hfit
        obtain ⟨b', hget, hat⟩ := hstring
        obtain ⟨hok, hbad⟩ := ih hat
        rw [← List.drop_drop, List.length_drop] at hok hbad
        have hreads : octetReads pos (cs.flatten.drop pos).length (.string len :: ops) =
            octetReads (pos + len) ((cs.flatten.drop pos).length - len) ops := if_pos hfit
        rw [hreads]
        refine ⟨fun hc => ?_, fun hc => ?_⟩
        · simp only [Buf.reads, Buf.read, Buf.getString, hget, hok hc, readsOctets, readOctets,
            if_pos hfit]
          rfl
        · simp only [Buf.reads, Buf.read, Buf.getString, hget, hbad hc]
          rfl
      · rename_i hfit
        refine ⟨fun _ => ?_, fun ⟨p, hp, _⟩ => ?_⟩
        · simp only [Buf.reads, Buf.read, Buf.getString, hstring, readsOctets, readOctets,
            if_neg hfit]
        · rw [octetReads, if_neg hfit] at hp
          cases hp

/-- **Copies read like their octets** exactly when no single octet is read at a seam. -/
theorem reads_iff (hn : 2 ≤ cs.length) (hsegs : b.segs = pieces cs) (hseg : b.currentSeg = 0)
    (hx : b.pX = 0) (ops : List ReadOp) :
    b.reads ops = some (readsOctets cs.flatten ops) ↔
      ∀ p ∈ octetReads 0 cs.flatten.length ops, ¬Seam cs p := by
  obtain ⟨hok, hbad⟩ := (At.start hsegs hseg hx).agrees hn ops
  rw [List.drop_zero] at hok hbad
  refine ⟨fun hreads p hp hseam => ?_, hok⟩
  rw [hbad ⟨p, hp, hseam⟩] at hreads
  cases hreads

end Pieces

end Ocp
