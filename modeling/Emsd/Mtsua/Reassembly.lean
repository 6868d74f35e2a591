import Emsd.Mtsua.Gathered
import Emsd.Mtsua.Segments
import Emsd.Mtsua.Sending

/-!
# A message put together

* `reassembles_iff`: **when a message in segments is put together**, in terms of the number of its
  segments and of the reads of the parser.
* `not_reassembles`: two segments, and a parser that reads octet by octet.
-/

namespace Mtsua

open Ocp

variable {side : Side} {env : ReceiveEnv} {cs : List Octets} {sequenceId k : Nat}
  {got order ks : List Nat} {r r' : Receiver} {ops : List ReadOp}

/-- The agent keeps `nextSegmentNumber`. -/
def Side.counts : Side → Bool
  | .mts => true
  | .ua => false

/-- `hContents` of a received argument: one segment. -/
def received (contents : Octets) : Buf := ⟨[contents], 0, 0⟩

/-- Segment `k` of a message arrives. There is no result unless the predicate goes on with it. -/
def arrive (side : Side) (env : ReceiveEnv) (sequenceId : Nat) (cs : List Octets) (r : Receiver)
    (k : Nat) : Option Receiver :=
  match infoOf sequenceId cs.length k with
  | none => none
  | some info =>
    match receiveSegment side.counts env r info (received (cs[k]?.getD [])) with
    | some (r, true) => some r
    | _ => none

/-- Segments arrive: what `bComplete` is after each, and the operation in the end. -/
def arriveAll (side : Side) (env : ReceiveEnv) (sequenceId : Nat) (cs : List Octets) :
    Receiver → List Nat → Option (List Bool × Receiver)
  | r, [] => some ([], r)
  | r, k :: ks => (arrive side env sequenceId cs r k).bind fun r =>
    (arriveAll side env sequenceId cs r ks).map fun q => (r.bComplete :: q.1, q.2)

/-- The message of segments `cs` is put together when they arrive in this order, the first one in
front: completion is reported with the last of them, and the reads `ops` of a parser give what they
give on the octets of the message. -/
def Reassembles (side : Side) (cs : List Octets) (order : List Nat) (ops : List ReadOp) : Prop :=
  ∀ wide sequenceId, ∃ r b,
    arriveAll side { wide } sequenceId cs {} (0 :: order) =
      some (List.replicate (cs.length - 1) false ++ [true], r) ∧
    r.hContents = some b ∧ b.reads ops = some (readsOctets cs.flatten ops)

/-! ## The segments so far -/

/-- The buffer of segment `i`. -/
def segmentOf (cs : List Octets) (i : Nat) : Buf := received (cs[i]?.getD [])

/-- Segments by their numbers. -/
def segmentsOf (cs : List Octets) (got : List Nat) : List (Nat × Buf) :=
  got.map fun i => (i, segmentOf cs i)

@[simp]
theorem segmentsOf_fst : (segmentsOf cs got).map Prod.fst = got := by
  unfold segmentsOf
  rw [List.map_map]
  exact List.map_id got

theorem segmentsOf_snd {p : Nat × Buf} (hp : p ∈ segmentsOf cs got) :
    p.1 ∈ got ∧ segmentOf cs p.1 = p.2 := by
  obtain ⟨i, hi, rfl⟩ := List.mem_map.1 hp
  exact ⟨hi, rfl⟩

/-- The segments of copies that are appended. -/
theorem foldl_appendBuffer_segs {b : Buf} {bs : List Buf} :
    (bs.foldl Buf.appendBuffer b).segs = b.segs ++ bs.flatMap Buf.segs := by
  induction bs generalizing b with
  | nil => exact (List.append_nil _).symm
  | cons b' bs ih =>
    rw [List.foldl_cons, ih, List.flatMap_cons, ← List.append_assoc]
    rfl

/-- The segments of a message in one buffer. -/
theorem joined_segmentOf (hn : 1 ≤ cs.length) : joined (segmentOf cs) cs.length = ⟨pieces cs, 0, 0⟩ := by
  have hsegs : ∀ i, (segmentOf cs i).copy.segs = [[], cs[i]?.getD []] := fun _ => rfl
  have hpieces : pieces cs = (List.range' 0 cs.length).flatMap fun i => [[], cs[i]?.getD []] := by
    have hget : cs = (List.range' 0 cs.length).map fun i => cs[i]?.getD [] := by
      refine List.ext_getElem (by simp) fun i hi _ => ?_
      simp [hi]
    conv_lhs => rw [hget]
    unfold pieces
    rw [List.flatMap_map]
  obtain ⟨m, hm⟩ : ∃ m, cs.length = m + 1 := ⟨cs.length - 1, by omega⟩
  unfold joined Buf.resetParse
  rw [foldl_appendBuffer_segs, List.flatMap_map, hpieces, hm, List.range'_succ, List.flatMap_cons]
  simp only [hsegs, Nat.add_sub_cancel, Nat.zero_add]

/-- The first segment of several is stored. -/
theorem arrive_first (side : Side) (sequenceId : Nat) (wide : BitVec 32) (hn : 2 ≤ cs.length)
    (hmax : cs.length < 32) :
    ∃ r, arrive side { wide } sequenceId cs {} 0 = some r ∧ r.bComplete = false ∧
      Gathered cs.length (segmentsOf cs [0]) r := by
  obtain ⟨r, hr, hcomplete, hgathered⟩ := firstSegment_several side.counts { wide } {}
    (segmentOf cs 0) sequenceId hn hmax rfl rfl rfl
  refine ⟨r, ?_, hcomplete, hgathered⟩
  unfold arrive
  rw [infoOf_first _ hn]
  show (match some (firstSegment side.counts { wide } {} sequenceId cs.length (segmentOf cs 0)) with
    | some (r, true) => some r
    | _ => none) = _
  rw [hr]

/-- A missing segment arrives: with the last one the message is complete. -/
theorem arrive_other (side : Side) (sequenceId : Nat) (wide : BitVec 32) (hn : 2 ≤ cs.length)
    (hmax : cs.length < 32) (h : Gathered cs.length (segmentsOf cs got) r)
    (hr : r.bComplete = false) (hgot : ∀ i ∈ got, i < cs.length) (hk : k < cs.length) (h0 : 0 < k)
    (hnew : k ∉ got) :
    ∃ r', arrive side { wide } sequenceId cs r k = some r' ∧
      if ∀ i < cs.length, i ∈ got ++ [k] then
        r'.bComplete = true ∧ r'.hContents = some ⟨pieces cs, 0, 0⟩
      else r'.bComplete = false ∧ Gathered cs.length (segmentsOf cs (got ++ [k])) r' := by
  have hsplit : segmentsOf cs got ++ [(k, segmentOf cs k)] = segmentsOf cs (got ++ [k]) := by
    unfold segmentsOf
    rw [List.map_append, List.map_singleton]
  obtain ⟨r', hstep, hgathered, hr'⟩ := otherSegment_gathers side.counts { wide }
    (segmentOf cs k) h
    (fun p hp => hgot p.1 (segmentsOf_snd hp).1) hk (show k < 32 by omega)
    (by rwa [segmentsOf_fst]) rfl rfl
  rw [hsplit] at hgathered hr'
  rw [segmentsOf_fst] at hr'
  refine ⟨r', ?_, ?_⟩
  · obtain ⟨j, rfl⟩ : ∃ j, k = j + 1 := ⟨k - 1, by omega⟩
    unfold arrive
    rw [infoOf_other _ hk]
    show (match otherSegment side.counts { wide } r (j + 1) (segmentOf cs (j + 1)) with
      | some (r, true) => some r
      | _ => none) = _
    rw [hstep]
  · by_cases hall : ∀ i < cs.length, i ∈ got ++ [k]
    · rw [if_pos hall] at hr' ⊢
      refine ⟨hr'.1, ?_⟩
      rw [hr'.2 (segmentOf cs) fun p hp => (segmentsOf_snd hp).2, joined_segmentOf (by omega)]
    · rw [if_neg hall] at hr' ⊢
      exact ⟨hr'.trans hr, hgathered⟩

/-- The other segments, in any order. -/
theorem arriveAll_others (side : Side) (sequenceId : Nat) (wide : BitVec 32)
    (hn : 2 ≤ cs.length) (hmax : cs.length < 32)
    (h : Gathered cs.length (segmentsOf cs got) r) (hr : r.bComplete = false)
    (hgot : ∀ i ∈ got, i < cs.length) (hnodup : ks.Nodup) (hne : ks ≠ [])
    (hks : ∀ k ∈ ks, 0 < k ∧ k < cs.length ∧ k ∉ got)
    (hall : ∀ i < cs.length, i ∈ got ∨ i ∈ ks) :
    ∃ r', arriveAll side { wide } sequenceId cs r ks =
        some (List.replicate (ks.length - 1) false ++ [true], r') ∧
      r'.hContents = some ⟨pieces cs, 0, 0⟩ := by
  induction ks generalizing r got with
  | nil => exact absurd rfl hne
  | cons k ks ih =>
    obtain ⟨h0, hk, hnew⟩ := hks k List.mem_cons_self
    obtain ⟨r', harrive, hr'⟩ := arrive_other side sequenceId wide hn hmax h hr hgot hk h0 hnew
    have hcons : ∀ i, i ∈ got ∨ i ∈ k :: ks ↔ i ∈ got ++ [k] ∨ i ∈ ks := by
      intro i
      rw [List.mem_append, List.mem_singleton, List.mem_cons, or_assoc]
    unfold arriveAll
    rw [harrive]
    cases ks with
    | nil =>
      -- the last one
      have hlast : ∀ i < cs.length, i ∈ got ++ [k] := by
        intro i hi
        simpa using (hcons i).1 (hall i hi)
      rw [if_pos hlast] at hr'
      refine ⟨r', ?_, hr'.2⟩
      show some ([r'.bComplete], r') = _
      rw [hr'.1]
      rfl
    | cons k' ks =>
      obtain ⟨hknew, hnodup⟩ := List.nodup_cons.1 hnodup
      have hstill : ∀ i ∈ k' :: ks, 0 < i ∧ i < cs.length ∧ i ∉ got ++ [k] := by
        intro i hi
        obtain ⟨hi0, hilt, hin⟩ := hks i (List.mem_cons_of_mem _ hi)
        refine ⟨hi0, hilt, fun hmem => ?_⟩
        rcases List.mem_append.1 hmem with hi' | hi'
        · exact hin hi'
        · obtain rfl := List.mem_singleton.1 hi'
          exact hknew hi
      have hmiss : ¬∀ i < cs.length, i ∈ got ++ [k] := by
        intro hall
        obtain ⟨-, hk', hnew'⟩ := hstill k' List.mem_cons_self
        exact hnew' (hall k' hk')
      rw [if_neg hmiss] at hr'
      have hgot' : ∀ i ∈ got ++ [k], i < cs.length := by
        intro i hi
        rcases List.mem_append.1 hi with hi | hi
        · exact hgot i hi
        · obtain rfl := List.mem_singleton.1 hi
          exact hk
      obtain ⟨r'', hrec, hcontents⟩ := ih hr'.2 hr'.1 hgot' hnodup (by simp) hstill
        fun i hi => (hcons i).1 (hall i hi)
      refine ⟨r'', ?_, hcontents⟩
      show (arriveAll side { wide } sequenceId cs r' (k' :: ks)).map _ = _
      rw [hrec]
      show some (r'.bComplete :: _, r'') = _
      rw [hr'.1]
      rfl

/-- With less than 32 segments, completion is reported with the last one. -/
theorem arriveAll_complete (side : Side) (sequenceId : Nat) (wide : BitVec 32)
    (hn : 2 ≤ cs.length) (hmax : cs.length < 32)
    (hperm : order.Perm (List.range' 1 (cs.length - 1))) :
    ∃ r, arriveAll side { wide } sequenceId cs {} (0 :: order) =
        some (List.replicate (cs.length - 1) false ++ [true], r) ∧
      r.hContents = some ⟨pieces cs, 0, 0⟩ := by
  obtain ⟨r, hfirst, hcomplete, hgathered⟩ := arrive_first side sequenceId wide hn hmax
  have hmem : ∀ i, i ∈ order ↔ 0 < i ∧ i < cs.length := by
    intro i
    rw [hperm.mem_iff, List.mem_range'_1]
    omega
  have hlen : order.length = cs.length - 1 := by
    rw [hperm.length_eq, List.length_range']
  have hne : order ≠ [] := by
    rintro rfl
    simp at hlen
    omega
  have hnodup : order.Nodup := hperm.nodup_iff.2 List.nodup_range'
  have hks : ∀ k ∈ order, 0 < k ∧ k < cs.length ∧ k ∉ [0] := by
    intro k hk
    obtain ⟨h0, hlt⟩ := (hmem k).1 hk
    refine ⟨h0, hlt, ?_⟩
    rw [List.mem_singleton]
    omega
  have hall : ∀ i < cs.length, i ∈ [0] ∨ i ∈ order := by
    intro i hi
    rcases Nat.eq_zero_or_pos i with rfl | h0
    · exact .inl List.mem_cons_self
    · exact .inr ((hmem i).2 ⟨h0, hi⟩)
  have hgot : ∀ i ∈ [0], i < cs.length := by
    intro i hi
    obtain rfl := List.mem_singleton.1 hi
    omega
  obtain ⟨r', hrest, hcontents⟩ := arriveAll_others side sequenceId wide hn hmax hgathered hcomplete
    hgot hnodup hne hks hall
  refine ⟨r', ?_, hcontents⟩
  unfold arriveAll
  rw [hfirst]
  show (arriveAll side { wide } sequenceId cs r order).map _ = _
  rw [hrest, hlen]
  show some (r.bComplete :: _, r') = _
  rw [hcomplete]
  have hsucc : cs.length - 1 = cs.length - 1 - 1 + 1 := by omega
  conv_rhs => rw [hsucc, List.replicate_succ]
  rfl

/-- With 32 segments the mask of the expected ones may come out as zero. -/
theorem arrive_first_32 (side : Side) (sequenceId : Nat) (hmax : cs.length = 32) :
    ∃ r, arrive side {} sequenceId cs {} 0 = some r ∧ r.expectedSegmentMask = 0 := by
  unfold arrive
  rw [infoOf_first _ (by omega), hmax]
  refine ⟨_, rfl, ?_⟩
  show shiftOne 1 ((32 + 2 ^ 32 - 1) % 2 ^ 32 + 1) - 1 = 0
  decide

/-- Then every other segment is too large. -/
theorem arrive_32 (hmax : cs.length = 32) (hr : r.expectedSegmentMask = 0) (hk : 0 < k) :
    arrive side {} sequenceId cs r k = none := by
  have hlarge : k > 31 ∨ r.expectedSegmentMask < shiftOne 1 k := by
    rcases Nat.lt_or_ge 31 k with h | h
    · exact .inl h
    · refine .inr ?_
      rw [hr, BitVec.lt_def, shiftOne_toNat (by omega)]
      exact Nat.two_pow_pos k
  have hinfo : infoOf sequenceId cs.length k = some ⟨sequenceId, .other k⟩ := by
    simp [infoOf, hmax, Nat.ne_of_gt hk]
  unfold arrive
  rw [hinfo]
  simp only [receiveSegment, otherSegment, if_pos hlarge]

/-- **A message in segments is put together** exactly when it has less than 32 of them and the parser
reads no single octet where the octets of one segment end and another segment is still to come. -/
theorem reassembles_iff (side : Side) (cs : List Octets) (order : List Nat) (ops : List ReadOp)
    (hn : 2 ≤ cs.length) (hmax : cs.length ≤ maxSegments)
    (hperm : order.Perm (List.range' 1 (cs.length - 1))) :
    Reassembles side cs order ops ↔
      cs.length < 32 ∧ ∀ p ∈ octetReads 0 cs.flatten.length ops, ¬Seam cs p := by
  constructor
  · intro h
    have hlt : cs.length < 32 := by
      by_contra hge
      have h32 : cs.length = 32 := by
        unfold maxSegments at hmax
        omega
      obtain ⟨r, -, harrive, -⟩ := h 1 0
      obtain ⟨r₀, hfirst, hmask⟩ := arrive_first_32 side 0 h32
      obtain ⟨k, ks, rfl⟩ : ∃ k ks, order = k :: ks := by
        refine List.exists_cons_of_length_pos ?_
        rw [hperm.length_eq, List.length_range']
        omega
      have hk : 0 < k := by
        have hmem := hperm.mem_iff.1 (List.mem_cons_self (a := k) (l := ks))
        rw [List.mem_range'_1] at hmem
        omega
      unfold arriveAll at harrive
      rw [hfirst] at harrive
      simp only [Option.bind_some, arriveAll, arrive_32 h32 hmask hk] at harrive
      cases harrive
    refine ⟨hlt, ?_⟩
    obtain ⟨r, b, harrive, hcontents, hreads⟩ := h 1 0
    obtain ⟨r', harrive', hcontents'⟩ := arriveAll_complete side 0 1 hn hlt hperm
    obtain ⟨-, rfl⟩ := Prod.mk.inj (Option.some.inj (harrive.symm.trans harrive'))
    obtain rfl := Option.some.inj (hcontents.symm.trans hcontents')
    exact (reads_iff hn rfl rfl rfl ops).1 hreads
  · rintro ⟨hlt, hclear⟩ wide sequenceId
    obtain ⟨r, harrive, hcontents⟩ := arriveAll_complete side sequenceId wide hn hlt hperm
    exact ⟨r, _, harrive, hcontents, (reads_iff hn rfl rfl rfl ops).2 hclear⟩

/-- Three segments out of order, and a string across their seams. -/
theorem reassembles_iff_three :
    Reassembles .mts [[1, 2], [], [3]] [2, 1] [.octet, .string 2, .octet] ↔
      3 < 32 ∧ ∀ p ∈ octetReads 0 3 [.octet, .string 2, .octet], ¬Seam [[1, 2], [], [3]] p :=
  reassembles_iff .mts [[1, 2], [], [3]] [2, 1] [.octet, .string 2, .octet] (by decide) (by decide)
    (by decide)

/-- The second octet of two segments is read from outside. -/
theorem not_reassembles : ¬Reassembles .mts [[1], [2]] [1] [.octet, .octet] := by
  intro h
  obtain ⟨r, b, harrive, hcontents, hreads⟩ := h 1 0
  have hbad : (arriveAll .mts {} 0 [[1], [2]] {} [0, 1]).all (fun q =>
      q.2.hContents.all fun b => (b.reads [.octet, .octet]).isNone) = true := by
    decide +kernel
  rw [harrive] at hbad
  simp [hcontents, hreads] at hbad

end Mtsua
