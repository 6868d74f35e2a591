import Emsd.Asn.Parsing

/-!
# Formatting and parsing back

The parser walks over the encoding of a value with the same tree, into another structure.

* `parse_encode`: what the parser makes of an encoding: the value, with each string one octet longer,
  with BCD numbers up to `LONG_MAX`, without the flags of elements omitted at the end of a sequence.
* `berParse_berFormat_iff`: the **round trip** gives the value back if and only if none of these
  matters.
* `octetString_terminator`: a string that comes back with one more octet.
-/

namespace Asn

open Ocp

variable {s c t : CStruct} {e : Entry} {es : List Entry} {i : Info} {b : Buf}
  {data tail : Octets} {clean : Prop} {longMax quota : Nat} {fld : Field} {l : List Field}

/-! ## What the parser writes -/

/-- A field of the structure `c`, as the parser writes it when the value is the one in `s`. -/
def CStruct.take (longMax : Nat) (s c : CStruct) : Field → CStruct
  | .uint32 o => c.setUint32 o (s.uint32 o)
  | .bcd o => c.setUint32 o (UInt32.ofNat (min (s.uint32 o).toNat longMax))
  | .string o => c.setString o (s.string o ++ [0])
  | .selector o => c.setSelector o (s.selector o)
  | .boolean o => c.setBoolean o (s.boolean o)

def takeAll (longMax : Nat) (s c : CStruct) (l : List Field) : CStruct :=
  l.foldl (CStruct.take longMax s) c

mutual

/-- The fields that the parser writes, in its order. At the end of the octets of a sequence it
stops. -/
def written (s : CStruct) : Entry → List Field
  | .integer i => i.flag ++ if i.present s then [.uint32 i.dataOffset] else []
  | .bcdString i => i.flag ++ if i.present s then [.bcd i.dataOffset] else []
  | .octetString i => i.flag ++ if i.present s then [.string i.dataOffset] else []
  | .sequence i es => i.flag ++ if i.present s then writtenAll s es else []
  | .choice i es =>
    if i.present s then
      (if i.tag = 0 then [] else i.flag) ++
        (writtenAlternative s es (s.selector i.dataOffset).toNat ++
          (i.flag ++ [.selector i.dataOffset]))
    else i.flag

def writtenAll (s : CStruct) : List Entry → List Field
  | [] => []
  | e :: es => if encodeAll s (e :: es) = [] then [] else written s e ++ writtenAll s es

def writtenAlternative (s : CStruct) : List Entry → Nat → List Field
  | [], _ => []
  | e :: _, 0 => written s e
  | _ :: es, n + 1 => writtenAlternative s es n

end

theorem takeAll_append (l l' : List Field) :
    takeAll longMax s c (l ++ l') = takeAll longMax s (takeAll longMax s c l) l' :=
  List.foldl_append

/-- The flag of an element that is in the PDU. -/
theorem takeAll_flag (hp : i.present s = true) :
    takeAll longMax s c i.flag = c.setExists i true := by
  unfold Info.present at hp
  unfold Info.flag CStruct.setExists takeAll
  cases ho : i.existsOffset with
  | none => rfl
  | some o =>
    rw [ho] at hp
    have hp' : s.boolean o = true := hp
    simp only [Option.toList_some, List.map_cons, List.map_nil, List.foldl_cons, List.foldl_nil]
    show c.setBoolean o (s.boolean o) = _
    rw [hp']

theorem written_absent (hp : e.info.present s = false) : written s e = e.info.flag := by
  have hp' : ¬e.info.present s = true := by
    rw [hp]
    exact Bool.false_ne_true
  cases e with
  | choice i es => exact if_neg hp'
  | integer i => exact (congrArg (i.flag ++ ·) (if_neg hp')).trans (List.append_nil _)
  | bcdString i => exact (congrArg (i.flag ++ ·) (if_neg hp')).trans (List.append_nil _)
  | octetString i => exact (congrArg (i.flag ++ ·) (if_neg hp')).trans (List.append_nil _)
  | sequence i es => exact (congrArg (i.flag ++ ·) (if_neg hp')).trans (List.append_nil _)

/-! ## Parsing an encoding -/

/-- An element that is not in the PDU is noticed by what follows. -/
def Follows (s : CStruct) (e : Entry) (tail : Octets) : Prop :=
  e.info.present s = false → ∃ x xs, tail = x :: xs ∧ bare x ∉ e.tags

/-- The elements with a tag of their own. -/
theorem tagged_yields {tag : UInt8} {contents : Contents} {c' : CStruct} {used : Nat}
    (hs : clean → b.Solid) (hb : b.Holds (tlv tag data ++ tail)) (htag : bare tag = bare i.tag)
    (hq : (tlv tag data).length ≤ quota) (hfit : (tlv tag data).length ≤ noLength)
    (hcontents : ∀ b' : Buf, b'.segs = b.segs → b'.Holds (data ++ tail) →
      Yields clean b' (contents b' (c.setExists i true) data.length
        (lengthOctets data.length).length) c' used tail) :
    Yields clean b (parseTag i b c quota contents) c' used tail := by
  have hlen : (tlv tag data).length = (lengthOctets data.length).length + data.length + 1 := by
    unfold tlv
    rw [List.length_cons, List.length_append]
  unfold noLength at hfit
  have hquota : data.length ≤ quota := by omega
  rcases parseTag_found (c := c) hs hb htag hquota (by omega) with
    ⟨hnc, hbey⟩ | ⟨b', heq, hb', hsegs⟩
  · rw [hbey]
    exact .inl ⟨hnc, trivial⟩
  · rw [heq]
    exact (hcontents b' hsegs hb').of_segs hsegs

theorem lengthOctets_pos (n : Nat) : 0 < (lengthOctets n).length := by
  unfold lengthOctets
  split <;> simp

theorem tlv_length (tag : UInt8) (data : Octets) :
    (tlv tag data).length = usedSoFar (lengthOctets data.length).length + data.length := by
  rw [usedSoFar_pos (lengthOctets_pos _)]
  unfold tlv
  rw [List.length_cons, List.length_append]
  omega

/-- An element that is not in the PDU. -/
theorem absent_yields (hs : clean → b.Solid) (hw : e.WellFormed) (hp : e.info.present s = false)
    (hb : b.Holds (encode s e ++ tail)) (hf : Follows s e tail) :
    Yields clean b (parse longMax e b c quota) (takeAll longMax s c (written s e))
      (encode s e).length tail := by
  obtain ⟨x, xs, rfl, hx⟩ := hf hp
  rw [encode_absent hp] at hb ⊢
  rcases parse_absent (c := c) longMax hs e b quota hw rfl hb hx with
    ⟨hnc, hbey⟩ | ⟨b', heq, hb', hsegs⟩
  · rw [hbey]
    exact .inl ⟨hnc, trivial⟩
  · refine .inr ⟨b', ?_, hb', hsegs⟩
    rw [heq, written_absent hp]
    unfold absent Info.flag takeAll
    unfold Info.present at hp
    cases ho : e.info.existsOffset with
    | none =>
      rw [ho] at hp
      cases hp
    | some o =>
      rw [ho] at hp
      have hp' : s.boolean o = false := hp
      simp only [Option.toList_some, List.map_cons, List.map_nil, List.foldl_cons, List.foldl_nil]
      show _ = Parse.done b' (c.setBoolean o (s.boolean o)) 0
      rw [hp']

/-- The element of a choice that stops for good stops the choice. -/
theorem fatal_alternative (r : Parse) (done : Buf → CStruct → Nat → Parse)
    (next : Buf → CStruct → Parse) :
    Fatal r → Fatal (match r with
      | .done b c n => done b c n
      | .failed .wrongTag b c => next b c
      | r => r) := by
  intro hr
  cases r with
  | done b c n => exact hr.elim
  | failed rc b c =>
    cases rc with
    | wrongTag => exact absurd rfl hr
    | _ => exact hr
  | beyond => trivial

mutual

/-- **What the parser makes of an encoding.** -/
theorem parse_encode (longMax : Nat) (s : CStruct) (hs : clean → b.Solid) :
    ∀ (e : Entry) (b' : Buf) (c : CStruct) (quota : Nat) (tail : Octets), e.WellFormed →
      InRange s e → (clean → NoStrings (fields s e)) → b'.segs = b.segs →
      b'.Holds (encode s e ++ tail) → (encode s e).length ≤ quota →
      (encode s e).length ≤ noLength → Follows s e tail →
      Yields clean b (parse longMax e b' c quota) (takeAll longMax s c (written s e))
        (encode s e).length tail
  | .integer i, b', c, quota, tail, hw, hr, hno, hsegs, hb, hq, hfit, hf => by
    have hs' := solid_of_segs hs hsegs
    cases hp : i.present s with
    | false => exact (absent_yields hs' hw hp hb hf).of_segs hsegs
    | true =>
      have henc : encode s (.integer i) = tlv i.tag (integerOctets (s.uint32 i.dataOffset)) := if_pos hp
      have hwr : written s (.integer i) = i.flag ++ [.uint32 i.dataOffset] := congrArg (i.flag ++ ·) (if_pos hp)
      rw [henc] at hb hq hfit ⊢
      rw [hwr, takeAll_append, takeAll_flag hp]
      unfold parse parseElement
      rw [if_pos hw.1]
      refine (tagged_yields hs' hb rfl hq hfit ?_).of_segs hsegs
      intro b₁ hsegs₁ hb₁
      rw [tlv_length]
      exact parseInteger_yields (solid_of_segs hs' hsegs₁) hb₁
  | .bcdString i, b', c, quota, tail, hw, hr, hno, hsegs, hb, hq, hfit, hf => by
    have hs' := solid_of_segs hs hsegs
    cases hp : i.present s with
    | false => exact (absent_yields hs' hw hp hb hf).of_segs hsegs
    | true =>
      have henc : encode s (.bcdString i) = tlv i.tag (intToBcd (s.uint32 i.dataOffset)) := if_pos hp
      have hwr : written s (.bcdString i) = i.flag ++ [.bcd i.dataOffset] := congrArg (i.flag ++ ·) (if_pos hp)
      rw [henc] at hb hq hfit ⊢
      rw [hwr, takeAll_append, takeAll_flag hp]
      unfold parse parseElement
      rw [if_pos hw.1]
      refine (tagged_yields hs' hb rfl hq hfit ?_).of_segs hsegs
      intro b₁ hsegs₁ hb₁
      rw [tlv_length, usedSoFar_pos (lengthOctets_pos _)]
      exact parseBcdString_yields hb₁ (hr hp)
  | .octetString i, b', c, quota, tail, hw, hr, hno, hsegs, hb, hq, hfit, hf => by
    have hs' := solid_of_segs hs hsegs
    cases hp : i.present s with
    | false => exact (absent_yields hs' hw hp hb hf).of_segs hsegs
    | true =>
      have hnc : ¬clean := by
        intro hc
        apply hno hc i.dataOffset
        unfold fields
        rw [if_pos hp]
        exact List.mem_append_right _ (List.mem_singleton.2 rfl)
      have henc : encode s (.octetString i) = tlv i.tag (s.string i.dataOffset) := if_pos hp
      have hwr : written s (.octetString i) = i.flag ++ [.string i.dataOffset] := congrArg (i.flag ++ ·) (if_pos hp)
      rw [henc] at hb hq hfit ⊢
      rw [hwr, takeAll_append, takeAll_flag hp]
      unfold parse parseElement
      rw [if_pos hw.1]
      refine (tagged_yields hs' hb rfl hq hfit ?_).of_segs hsegs
      intro b₁ hsegs₁ hb₁
      rw [tlv_length, usedSoFar_pos (lengthOctets_pos _)]
      exact parseOctetString_yields hb₁ (hr hp).1 hnc
  | .sequence i es, b', c, quota, tail, hw, hr, hno, hsegs, hb, hq, hfit, hf => by
    have hs' := solid_of_segs hs hsegs
    cases hp : i.present s with
    | false => exact (absent_yields hs' hw hp hb hf).of_segs hsegs
    | true =>
      have hno' : clean → NoStrings (fieldsAll s es) := by
        intro hc
        apply (hno hc).mono
        unfold fields
        rw [if_pos hp]
        exact List.subset_append_right _ _
      have henc : encode s (.sequence i es) = tlv (i.tag ||| constructor) (encodeAll s es) := if_pos hp
      have hwr : written s (.sequence i es) = i.flag ++ writtenAll s es := congrArg (i.flag ++ ·) (if_pos hp)
      rw [henc] at hb hq hfit ⊢
      rw [hwr, takeAll_append, takeAll_flag hp]
      unfold parse parseElement
      rw [if_pos hw.1.1]
      refine (tagged_yields hs' hb (bare_constructor hw.1) hq hfit ?_).of_segs hsegs
      intro b₁ hsegs₁ hb₁
      rw [tlv_length] at hfit ⊢
      exact (parseElements_encode longMax s hs es b₁ _ tail _ hw.2.2 hw.2.1 (hr hp) hno'
        (hsegs₁.trans hsegs) hb₁ (by omega)).of_segs (hsegs₁.trans hsegs).symm
  | .choice i es, b', c, quota, tail, hw, hr, hno, hsegs, hb, hq, hfit, hf => by
    have hs' := solid_of_segs hs hsegs
    cases hp : i.present s with
    | false => exact (absent_yields hs' hw hp hb hf).of_segs hsegs
    | true =>
      have hno' : clean → NoStrings (fieldsAlternative s es (s.selector i.dataOffset).toNat) := by
        intro hc
        apply (hno hc).mono
        unfold fields
        rw [if_pos hp]
        exact fun fld hfld => List.mem_append_right _ (List.mem_cons_of_mem _ hfld)
      have henc : encode s (.choice i es) =
          if i.tag = 0 then encodeAlternative s es (s.selector i.dataOffset).toNat
          else tlv i.tag (encodeAlternative s es (s.selector i.dataOffset).toNat) := if_pos hp
      have hwr : written s (.choice i es) = (if i.tag = 0 then [] else i.flag) ++
          (writtenAlternative s es (s.selector i.dataOffset).toNat ++
            (i.flag ++ [.selector i.dataOffset])) := if_pos hp
      rw [henc] at hb hq hfit ⊢
      rw [hwr]
      unfold parse
      dsimp only
      have hend (c : CStruct) : takeAll longMax s c
          (writtenAlternative s es (s.selector i.dataOffset).toNat ++
            (i.flag ++ [Field.selector i.dataOffset])) =
          ((takeAll longMax s c (writtenAlternative s es (s.selector i.dataOffset).toNat)).setExists
            i true).setSelector i.dataOffset
              (UInt8.ofNat (0 + (s.selector i.dataOffset).toNat)) := by
        rw [takeAll_append, takeAll_append, takeAll_flag hp, Nat.zero_add, UInt8.ofNat_toNat]
        rfl
      rw [takeAll_append, hend]
      by_cases h0 : i.tag = 0
      · -- the element comes without a tag of the choice
        have hexp : ¬i.tag &&& asnExplicit ≠ 0 := by
          rw [h0]
          decide
        rw [if_pos h0] at hb hq hfit ⊢
        rw [if_pos h0, if_neg hexp]
        have halt := parseAlternatives_encode longMax s hs i es
          (s.selector i.dataOffset).toNat 0 .fail b' c noLength 0 tail hw.2.2.2.2 hw.2.2.2.1
          hw.2.1 (hr hp) hno' hsegs hb (.inr rfl) hfit
        rw [Nat.zero_add (List.length _)] at halt
        exact halt
      · -- the explicit tag
        have hexp : i.tag &&& asnExplicit ≠ 0 := hw.1.resolve_left h0
        rw [if_neg h0] at hb hq hfit ⊢
        rw [if_neg h0, if_pos hexp, takeAll_flag hp]
        refine (tagged_yields hs' hb rfl hq hfit ?_).of_segs hsegs
        intro b₁ hsegs₁ hb₁
        rw [tlv_length] at hfit ⊢
        exact (parseAlternatives_encode longMax s hs i es _ 0 .fail b₁ _ _ _ tail hw.2.2.2.2
          hw.2.2.2.1 hw.2.1 (hr hp) hno' (hsegs₁.trans hsegs) hb₁ (.inl rfl)
          (by omega)).of_segs (hsegs₁.trans hsegs).symm

/-- The elements of a sequence; its length says where they end. -/
theorem parseElements_encode (longMax : Nat) (s : CStruct) (hs : clean → b.Solid) :
    ∀ (es : List Entry) (b' : Buf) (c : CStruct) (tail : Octets) (used : Nat), WellFormedAll es →
      (Entry.tags.tagsAll es).Nodup → InRangeAll s es → (clean → NoStrings (fieldsAll s es)) →
      b'.segs = b.segs → b'.Holds (encodeAll s es ++ tail) → (encodeAll s es).length ≤ noLength →
      Yields clean b (parseElements longMax es b' c (encodeAll s es).length used)
        (takeAll longMax s c (writtenAll s es)) used tail
  | [], b', c, tail, used, _, _, _, _, hsegs, hb, _ => .inr ⟨b', rfl, hb, hsegs⟩
  | e :: es, b', c, tail, used, hw, hnd, hr, hno, hsegs, hb, hfit => by
    unfold parseElements writtenAll
    by_cases hnil : encodeAll s (e :: es) = []
    · -- nothing is left of the sequence
      rw [if_pos hnil, hnil]
      rw [hnil] at hb
      exact .inr ⟨b', rfl, hb, hsegs⟩
    · have hlen : (encodeAll s (e :: es)).length =
          (encode s e).length + (encodeAll s es).length := List.length_append
      obtain ⟨-, hndes, hdisj⟩ := List.nodup_append.1 hnd
      have hpos : (encodeAll s (e :: es)).length ≠ 0 := fun h =>
        hnil (List.eq_nil_of_length_eq_zero h)
      rw [if_neg hnil, if_neg hpos, takeAll_append]
      have hb' : b'.Holds (encode s e ++ (encodeAll s es ++ tail)) := by
        rw [← List.append_assoc]
        exact hb
      have hfollows : Follows s e (encodeAll s es ++ tail) := by
        intro hp
        have hne : encodeAll s es ≠ [] := by
          intro h
          apply hnil
          unfold encodeAll
          rw [encode_absent hp, h]
          rfl
        obtain ⟨x, xs, henc, hx⟩ := encodeAll_head hw.2 hr.2 hne
        refine ⟨x, xs ++ tail, by rw [henc]; rfl, fun hxe => ?_⟩
        exact hdisj _ hxe _ hx rfl
      rcases parse_encode longMax s hs e b' c _ _ hw.1 hr.1
          (fun hc => (hno hc).mono (List.subset_append_left _ _)) hsegs hb'
          (by omega : _ ≤ (encodeAll s (e :: es)).length) (by omega) hfollows with
        ⟨hnc, hfatal⟩ | ⟨b₁, heq, hb₁, hsegs₁⟩
      · refine .inl ⟨hnc, ?_⟩
        revert hfatal
        cases parse longMax e b' c (encodeAll s (e :: es)).length with
        | done _ _ _ => exact fun h => h.elim
        | failed _ _ _ => exact fun h => h
        | beyond => exact fun h => h
      · rw [heq]
        dsimp only
        rw [if_neg (by omega), hlen, Nat.add_sub_cancel_left]
        exact parseElements_encode longMax s hs es b₁ _ tail used hw.2 hndes hr.2
          (fun hc => (hno hc).mono (List.subset_append_right _ _)) hsegs₁ hb₁ (by omega)

/-- The alternatives of a choice: those before the chosen one have other tags. -/
theorem parseAlternatives_encode (longMax : Nat) (s : CStruct) (hs : clean → b.Solid) (i : Info) :
    ∀ (es : List Entry) (k n : Nat) (rc : ReturnCode) (b' : Buf) (c : CStruct) (len used : Nat)
      (tail : Octets), WellFormedAll es → (∀ e ∈ es, e.info.existsOffset = none) →
      (Entry.tags.tagsAll es).Nodup → InRangeAlternative s es k →
      (clean → NoStrings (fieldsAlternative s es k)) → b'.segs = b.segs →
      b'.Holds (encodeAlternative s es k ++ tail) →
      (len = (encodeAlternative s es k).length ∨ len = noLength) →
      (encodeAlternative s es k).length ≤ noLength →
      Yields clean b (parseAlternatives longMax i es n rc b' c len used)
        (((takeAll longMax s c (writtenAlternative s es k)).setExists i true).setSelector
          i.dataOffset (UInt8.ofNat (n + k)))
        (used + (encodeAlternative s es k).length) tail
  | [], _, _, _, _, _, _, _, _, _, _, _, hr, _, _, _, _, _ => hr.elim
  | e :: es, 0, n, rc, b', c, len, used, tail, hw, hman, _, hr, hno, hsegs, hb, hlen, hfit => by
    have hp : e.info.present s = true := by
      unfold Info.present
      rw [hman e List.mem_cons_self]
    have hf : Follows s e tail := fun h => by
      rw [hp] at h
      cases h
    have hle : (encode s e).length ≤ len := by
      rcases hlen with rfl | rfl
      · exact Nat.le_refl _
      · exact hfit
    unfold parseAlternatives
    rcases parse_encode longMax s hs e b' c len tail hw.1 hr hno hsegs hb hle hfit hf with
      ⟨hnc, hfatal⟩ | ⟨b₁, heq, hb₁, hsegs₁⟩
    · exact .inl ⟨hnc, fatal_alternative _ _ _ hfatal⟩
    · refine .inr ⟨b₁, ?_, hb₁, hsegs₁⟩
      have hok : ¬((encode s e).length > len ∨ len ≠ noLength ∧ len ≠ (encode s e).length) := by
        rintro (h | ⟨h1, h2⟩)
        · omega
        · exact hlen.elim h2 h1
      rw [heq]
      dsimp only
      rw [if_neg hok]
      rfl
  | e :: es, k + 1, n, rc, b', c, len, used, tail, hw, hman, hnd, hr, hno, hsegs, hb, hlen,
      hfit => by
    obtain ⟨-, hndes, hdisj⟩ := List.nodup_append.1 hnd
    have hman' : ∀ e ∈ es, e.info.existsOffset = none := fun e he =>
      hman e (List.mem_cons_of_mem _ he)
    obtain ⟨x, xs, henc, hx⟩ := encodeAlternative_head s es k hw.2 hman' hr
    have hb' : b'.Holds (x :: (xs ++ tail)) := by
      rw [← List.cons_append, ← henc]
      exact hb
    unfold parseAlternatives
    rcases parse_absent (c := c) longMax hs e b' len hw.1 hsegs hb'
        (fun hxe => hdisj _ hxe _ hx rfl) with ⟨hnc, hbey⟩ | ⟨b₁, heq, hb₁, hsegs₁⟩
    · rw [hbey]
      exact .inl ⟨hnc, trivial⟩
    · rw [heq]
      unfold absent
      rw [hman e List.mem_cons_self]
      dsimp only
      have hnk : n + (k + 1) = n + 1 + k := by omega
      rw [hnk]
      rw [← List.cons_append, ← henc] at hb₁
      exact parseAlternatives_encode longMax s hs i es k (n + 1) .wrongTag b₁ c len used tail hw.2
        hman' hndes hr hno hsegs₁ hb₁ hlen hfit

end

/-! ## The value that comes back -/

/-- A field has the same value in two structures. -/
def Field.Same (s c : CStruct) : Field → Prop
  | .uint32 o | .bcd o => c.uint32 o = s.uint32 o
  | .string o => c.string o = s.string o
  | .selector o => c.selector o = s.selector o
  | .boolean o => c.boolean o = s.boolean o

/-- What is written is the value. -/
def Field.Exact (longMax : Nat) (s : CStruct) : Field → Prop
  | .string _ => False
  | .bcd o => (s.uint32 o).toNat ≤ longMax
  | .uint32 _ | .selector _ | .boolean _ => True

theorem uint32_min (v : UInt32) : UInt32.ofNat (min v.toNat longMax) = v ↔ v.toNat ≤ longMax := by
  have hv : v.toNat < 2 ^ 32 := v.toNat_lt
  rw [← UInt32.toNat_inj, UInt32.toNat_ofNat_of_lt' (by show _ < 2 ^ 32; omega)]
  omega

theorem same_take_self : fld.Same s (CStruct.take longMax s c fld) ↔ fld.Exact longMax s := by
  cases fld <;> simp [Field.Same, CStruct.take, Field.Exact, CStruct.setUint32, CStruct.setString,
    CStruct.setSelector, CStruct.setBoolean, uint32_min]

theorem same_take_other {fld' : Field} (h : fld'.offset ≠ fld.offset) :
    fld.Same s (CStruct.take longMax s c fld') ↔ fld.Same s c := by
  have hne := Ne.symm h
  cases fld <;> cases fld' <;>
    simp only [Field.offset] at hne <;>
    simp only [Field.Same, CStruct.take, CStruct.setUint32, CStruct.setString,
      CStruct.setSelector, CStruct.setBoolean, Function.update_of_ne hne]

/-- A field that nothing else shares its place with. -/
theorem same_takeAll (h : ∀ fld' ∈ l, fld'.offset = fld.offset → fld' = fld) :
    fld.Same s (takeAll longMax s c l) ↔
      if fld ∈ l then fld.Exact longMax s else fld.Same s c := by
  induction l generalizing c with
  | nil => simp [takeAll]
  | cons fld' l ih =>
    show fld.Same s (takeAll longMax s (CStruct.take longMax s c fld') l) ↔ _
    rw [ih fun f hf => h f (List.mem_cons_of_mem _ hf)]
    by_cases hl : fld ∈ l
    · rw [if_pos hl, if_pos (List.mem_cons_of_mem _ hl)]
    · rw [if_neg hl]
      by_cases heq : fld' = fld
      · rw [heq, if_pos List.mem_cons_self]
        exact same_take_self
      · have hne : fld'.offset ≠ fld.offset := fun ho => heq (h fld' List.mem_cons_self ho)
        rw [if_neg fun hm => (List.mem_cons.1 hm).elim (fun h => heq h.symm) hl]
        exact same_take_other hne

mutual

/-- The parser writes fields of the value. -/
theorem written_subset (s : CStruct) : ∀ e : Entry, written s e ⊆ fields s e
  | .integer _ => List.Subset.refl _
  | .bcdString _ => List.Subset.refl _
  | .octetString _ => List.Subset.refl _
  | .sequence i es => by
    unfold written fields
    split
    · exact List.append_subset.2 ⟨List.subset_append_left _ _,
        List.Subset.trans (writtenAll_subset s es) (List.subset_append_right _ _)⟩
    · exact List.Subset.refl _
  | .choice i es => by
    have hsub := writtenAlternative_subset s es (s.selector i.dataOffset).toNat
    unfold written fields
    split
    · intro fld hfld
      simp only [List.mem_append, List.mem_cons, List.not_mem_nil, or_false] at hfld ⊢
      rcases hfld with hfld | hfld | hfld | hfld
      · split at hfld
        · cases hfld
        · exact .inl hfld
      · exact .inr (.inr (hsub hfld))
      · exact .inl hfld
      · exact .inr (.inl hfld)
    · exact List.subset_append_left _ _

theorem writtenAll_subset (s : CStruct) : ∀ es : List Entry, writtenAll s es ⊆ fieldsAll s es
  | [] => List.Subset.refl _
  | e :: es => by
    unfold writtenAll
    split
    · exact List.nil_subset _
    · exact List.append_subset.2 ⟨List.Subset.trans (written_subset s e) (List.subset_append_left _ _),
        List.Subset.trans (writtenAll_subset s es) (List.subset_append_right _ _)⟩

theorem writtenAlternative_subset (s : CStruct) : ∀ (es : List Entry) (n : Nat),
    writtenAlternative s es n ⊆ fieldsAlternative s es n
  | [], _ => List.Subset.refl _
  | e :: _, 0 => written_subset s e
  | _ :: es, n + 1 => writtenAlternative_subset s es n

end

/-- The flag of an element that is not in the PDU. -/
def OmittedFlag (s : CStruct) (fld : Field) : Prop := ∃ o, fld = .boolean o ∧ s.boolean o = false

theorem fields_absent (hp : e.info.present s = false) : ∀ fld ∈ fields s e, OmittedFlag s fld := by
  have hp' : ¬e.info.present s = true := by
    rw [hp]
    exact Bool.false_ne_true
  have hflag : fields s e = e.info.flag := by
    cases e <;> exact (congrArg (_ ++ ·) (if_neg hp')).trans (List.append_nil _)
  rw [hflag]
  unfold Info.flag
  unfold Info.present at hp
  intro fld hfld
  cases ho : e.info.existsOffset with
  | none =>
    rw [ho] at hfld
    cases hfld
  | some o =>
    rw [ho] at hfld hp
    exact ⟨o, by simpa using hfld, hp⟩

/-- Elements without octets have no more than their flags. -/
theorem fieldsAll_omitted (hw : WellFormedAll es) (hr : InRangeAll s es)
    (hnil : encodeAll s es = []) : ∀ fld ∈ fieldsAll s es, OmittedFlag s fld := by
  induction es with
  | nil => simp [fieldsAll]
  | cons e es ih =>
    obtain ⟨he, hes⟩ := List.append_eq_nil_iff.1 hnil
    intro fld hfld
    rcases List.mem_append.1 hfld with hfld | hfld
    · exact fields_absent ((encode_eq_nil_iff hw.1 hr.1).1 he) fld hfld
    · exact ih hw.2 hr.2 hes fld hfld

mutual

/-- **What the parser does not write** are flags of elements that are not in the PDU. -/
theorem unwritten (s : CStruct) : ∀ e : Entry, e.WellFormed → InRange s e →
    ∀ fld ∈ fields s e, fld ∉ written s e → OmittedFlag s fld
  | .integer _, _, _, _, hfld, hno => absurd hfld hno
  | .bcdString _, _, _, _, hfld, hno => absurd hfld hno
  | .octetString _, _, _, _, hfld, hno => absurd hfld hno
  | .sequence i es, hw, hr, fld, hfld, hno => by
    unfold fields at hfld
    unfold written at hno
    split at hfld
    · rename_i hp
      rw [if_pos hp] at hno
      rcases List.mem_append.1 hfld with hfld | hfld
      · exact absurd (List.mem_append_left _ hfld) hno
      · exact unwrittenAll s es hw.2.2 (hr hp) fld hfld fun h => hno (List.mem_append_right _ h)
    · rename_i hp
      rw [if_neg hp] at hno
      exact absurd hfld hno
  | .choice i es, hw, hr, fld, hfld, hno => by
    unfold fields at hfld
    unfold written at hno
    split at hfld
    · rename_i hp
      rw [if_pos hp] at hno
      simp only [List.mem_append, List.mem_cons, List.not_mem_nil, or_false] at hfld hno
      rcases hfld with hfld | hfld | hfld
      · exact absurd (.inr (.inr (.inl hfld))) hno
      · exact absurd (.inr (.inr (.inr hfld))) hno
      · exact unwrittenAlternative s es _ hw.2.2.2.2 (hr hp) fld hfld fun h =>
          hno (.inr (.inl h))
    · rename_i hp
      rw [if_neg hp] at hno
      rw [List.append_nil] at hfld
      exact absurd hfld hno

theorem unwrittenAll (s : CStruct) : ∀ es : List Entry, WellFormedAll es → InRangeAll s es →
    ∀ fld ∈ fieldsAll s es, fld ∉ writtenAll s es → OmittedFlag s fld
  | [], _, _, _, hfld, _ => by cases hfld
  | e :: es, hw, hr, fld, hfld, hno => by
    unfold writtenAll at hno
    split at hno
    · rename_i hnil
      exact fieldsAll_omitted hw hr hnil fld hfld
    · rcases List.mem_append.1 hfld with hfld | hfld
      · exact unwritten s e hw.1 hr.1 fld hfld fun h => hno (List.mem_append_left _ h)
      · exact unwrittenAll s es hw.2 hr.2 fld hfld fun h => hno (List.mem_append_right _ h)

theorem unwrittenAlternative (s : CStruct) : ∀ (es : List Entry) (n : Nat), WellFormedAll es →
    InRangeAlternative s es n → ∀ fld ∈ fieldsAlternative s es n,
    fld ∉ writtenAlternative s es n → OmittedFlag s fld
  | [], _, _, hr, _, _, _ => hr.elim
  | e :: _, 0, hw, hr, fld, hfld, hno => unwritten s e hw.1 hr fld hfld hno
  | _ :: es, n + 1, hw, hr, fld, hfld, hno => unwrittenAlternative s es n hw.2 hr fld hfld hno

end

/-! ## The round trip -/

/-- Parsing what has been formatted succeeds, uses exactly the formatted octets, and the structure
`t` has the value of `s` then. -/
def RoundTrip (longMax minSize : Nat) (e : Entry) (s t : CStruct) : Prop :=
  ∃ f len b c, berFormat e s minSize = some (f, len) ∧
    parse longMax e f.buf t len = .done b c len ∧ b.rest = [] ∧
    ∀ fld ∈ fields s e, fld.Same s c

/-- Nothing of the value is lost: something is formatted, no octet string, no BCD number above
`LONG_MAX`, and the flags that the parser does not write are already `FALSE`. -/
structure Kept (longMax : Nat) (e : Entry) (s t : CStruct) : Prop where
  present : e.info.present s = true
  noStrings : NoStrings (fields s e)
  bcd : ∀ o, .bcd o ∈ fields s e → (s.uint32 o).toNat ≤ longMax
  flags : ∀ o, .boolean o ∈ fields s e → .boolean o ∉ written s e → t.boolean o = false

/-- There is nothing to parse at the end of a buffer. -/
theorem parseTag_end {contents : Contents} (hb : b.Holds []) :
    Fatal (parseTag i b c quota contents) := by
  have hno := Buf.getOctet_end hb
  unfold parseTag andThen
  cases hget : b.getOctet with
  | ok octet b' => exact absurd hget (hno octet b')
  | exhausted => simp [Fatal]
  | beyond => trivial

mutual

theorem parse_end (longMax : Nat) (hb : b.Holds []) : ∀ (e : Entry) (c : CStruct) (quota : Nat),
    e.WellFormed → Fatal (parse longMax e b c quota)
  | .integer i, c, quota, hw => by
    unfold parse parseElement
    rw [if_pos hw.1]
    exact parseTag_end hb
  | .bcdString i, c, quota, hw => by
    unfold parse parseElement
    rw [if_pos hw.1]
    exact parseTag_end hb
  | .octetString i, c, quota, hw => by
    unfold parse parseElement
    rw [if_pos hw.1]
    exact parseTag_end hb
  | .sequence i es, c, quota, hw => by
    unfold parse parseElement
    rw [if_pos hw.1.1]
    exact parseTag_end hb
  | .choice i es, c, quota, hw => by
    unfold parse
    dsimp only
    split
    · exact parseTag_end hb
    · exact parseAlternatives_end longMax hb i es c _ _ hw.2.2.2.2 hw.2.2.1

theorem parseAlternatives_end (longMax : Nat) (hb : b.Holds []) (i : Info) :
    ∀ (es : List Entry) (c : CStruct) (len used : Nat), WellFormedAll es → es ≠ [] →
      Fatal (parseAlternatives longMax i es 0 .fail b c len used)
  | [], _, _, _, _, hne => absurd rfl hne
  | e :: es, c, len, used, hw, _ => by
    unfold parseAlternatives
    exact fatal_alternative _ _ _ (parse_end longMax hb e c len hw.1)

end

/-- **Round trip**: what is formatted with a well-formed tree whose fields have places of their own
is parsed as the same value if and only if nothing of it is lost. -/
theorem berParse_berFormat_iff {minSize : Nat} (hw : e.WellFormed) (hr : InRange s e)
    (hfit : (encode s e).length ≤ noLength) (hplaces : ((fields s e).map Field.offset).Nodup) :
    RoundTrip longMax minSize e s t ↔ Kept longMax e s t := by
  obtain ⟨f, hformat, hadds⟩ := format_encode s e (Front.alloc minSize) hw hr
  have hoctets : f.octets = encode s e := by
    rw [hadds.octets, Front.alloc_octets, List.append_nil]
  have hsame (fld) (hfld : fld ∈ fields s e) :
      fld.Same s (takeAll longMax s t (written s e)) ↔
        if fld ∈ written s e then fld.Exact longMax s else fld.Same s t :=
    same_takeAll fun fld' hfld' ho =>
      List.inj_on_of_nodup_map hplaces (written_subset s e hfld') hfld ho
  by_cases hp : e.info.present s = true
  · have hfollows : Follows s e [] := fun h => by
      rw [hp] at h
      cases h
    have hholds : f.buf.Holds (encode s e ++ []) := by
      refine ⟨Front.buf_located, ?_⟩
      rw [Front.buf_rest, hoctets, List.append_nil]
    have hparse := parse_encode (b := f.buf) longMax s
      (fun hno : NoStrings (fields s e) => (hadds.solid hno Front.alloc_solid).2) e f.buf t
      (encode s e).length [] hw hr (fun hno => hno) rfl hholds (Nat.le_refl _) hfit hfollows
    constructor
    · rintro ⟨f', len, b, c, hformat', hdone, -, hall⟩
      obtain ⟨rfl, rfl⟩ : f = f' ∧ (encode s e).length = len := by
        have h := hformat.symm.trans hformat'
        exact Prod.mk.inj (Option.some.inj h)
      rcases hparse with ⟨-, hfatal⟩ | ⟨b', heq, -, -⟩
      · rw [hdone] at hfatal
        exact hfatal.elim
      obtain ⟨-, rfl, -⟩ : b' = b ∧ takeAll longMax s t (written s e) = c ∧ _ := by
        have h := heq.symm.trans hdone
        exact Parse.done.inj h
      have hfield (fld) (hfld : fld ∈ fields s e) := (hsame fld hfld).1 (hall fld hfld)
      refine ⟨hp, fun o ho => ?_, fun o ho => ?_, fun o ho hno => ?_⟩
      · have h := hfield _ ho
        split at h
        · exact h
        · rename_i hno
          obtain ⟨o', heq', -⟩ := unwritten s e hw hr _ ho hno
          cases heq'
      · have h := hfield _ ho
        split at h
        · exact h
        · rename_i hno
          obtain ⟨o', heq', -⟩ := unwritten s e hw hr _ ho hno
          cases heq'
      · have h := hfield _ ho
        rw [if_neg hno] at h
        obtain ⟨o', heq', hfalse⟩ := unwritten s e hw hr _ ho hno
        cases heq'
        rw [← hfalse]
        exact h
    · intro hk
      rcases hparse with ⟨hnc, -⟩ | ⟨b', heq, hb', -⟩
      · exact absurd hk.noStrings hnc
      refine ⟨f, _, b', _, hformat, heq, hb'.rest, fun fld hfld => (hsame fld hfld).2 ?_⟩
      split
      · cases fld with
        | string o => exact hk.noStrings o hfld
        | bcd o => exact hk.bcd o hfld
        | uint32 o => trivial
        | selector o => trivial
        | boolean o => trivial
      · rename_i hno
        obtain ⟨o, rfl, hfalse⟩ := unwritten s e hw hr fld hfld hno
        show t.boolean o = s.boolean o
        rw [hfalse]
        exact hk.flags o hfld hno
  · -- nothing has been formatted
    have hholds : f.buf.Holds [] := by
      refine ⟨Front.buf_located, ?_⟩
      rw [Front.buf_rest, hoctets, encode_absent (by simpa using hp)]
    constructor
    · rintro ⟨f', len, b, c, hformat', hdone, -⟩
      obtain ⟨rfl, -⟩ : f = f' ∧ (encode s e).length = len := by
        have h := hformat.symm.trans hformat'
        exact Prod.mk.inj (Option.some.inj h)
      have hfatal := parse_end longMax hholds e t len hw
      rw [hdone] at hfatal
      exact hfatal.elim
    · intro hk
      exact absurd hk.present hp

/-- A sequence of an integer, a choice with a BCD number chosen, and an omitted integer. -/
def sampleEntry : Entry :=
  .sequence { tag := 0x10 }
    [.integer { tag := 0x02, dataOffset := 0 },
      .choice { tag := 0, dataOffset := 4 }
        [.integer { tag := 0x81, dataOffset := 8 }, .bcdString { tag := 0x82, dataOffset := 12 }],
      .integer { tag := 0x83, existsOffset := some 16, dataOffset := 20 }]

def sampleStruct : CStruct where
  uint32 o := if o = 0 then 700 else 12345
  selector _ := 1

theorem berParse_berFormat_sample : RoundTrip 2147483647 128 sampleEntry sampleStruct {} := by
  have hfields : fields sampleStruct sampleEntry =
      [.uint32 0, .selector 4, .bcd 12, .boolean 16] := rfl
  have hw : sampleEntry.WellFormed := by
    refine ⟨⟨by decide, by decide⟩, by decide, ⟨by decide, by decide⟩,
      ⟨.inl rfl, by decide, List.cons_ne_nil _ _, ?_, ?_⟩, ⟨by decide, by decide⟩, trivial⟩
    · intro e he
      rcases List.mem_cons.1 he with rfl | he
      · rfl
      · rw [List.mem_singleton.1 he]
        rfl
    · exact ⟨⟨by decide, by decide⟩, ⟨by decide, by decide⟩, trivial⟩
  have hr : InRange sampleStruct sampleEntry := by
    refine fun _ => ⟨trivial, fun _ => ?_, trivial, trivial⟩
    show InRange sampleStruct (.bcdString { tag := 0x82, dataOffset := 12 })
    exact fun _ => by decide
  refine (berParse_berFormat_iff hw hr (by decide) (by rw [hfields]; decide)).2
    ⟨rfl, fun o => ?_, fun o ho => ?_, fun _ _ _ => rfl⟩
  · rw [hfields]
    simp
  · rw [hfields] at ho
    obtain rfl : o = 12 := by simpa using ho
    decide

/-- **A string comes back longer**: the string `A` is formatted, and `A` with a zero octet behind it
is parsed. -/
theorem octetString_terminator :
    let e : Entry := .octetString { tag := 0x04 }
    let s : CStruct := { string := fun _ => [0x41] }
    e.WellFormed ∧ InRange s e ∧ ¬RoundTrip 2147483647 128 e s {} ∧
      ∃ f len b c, berFormat e s 128 = some (f, len) ∧
        parse 2147483647 e f.buf {} len = .done b c len ∧ c.string 0 = [0x41, 0x00] := by
  refine ⟨⟨by decide, by decide⟩, fun _ => by decide, ?_, ⟨[[0x04, 0x01], [0x41], []], 126⟩, 3, _,
    _, rfl, rfl, rfl⟩
  rintro ⟨f, len, b, c, hformat, hparse, -, hall⟩
  obtain ⟨rfl, rfl⟩ := Prod.mk.inj (Option.some.inj hformat)
  obtain ⟨-, rfl, -⟩ := Parse.done.inj hparse
  have hstring : ([0x41, 0x00] : Octets) = [0x41] := hall (.string 0) (by decide)
  exact absurd hstring (by decide)

end Asn
