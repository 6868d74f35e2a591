import Emsd.Asn.Encoding
import Mathlib.Data.List.TakeWhile

/-!
# Parsing one element

What the parts of the parser do with an encoded element in front of them. A read goes astray only in a
buffer with an empty segment (`Reads`, `Yields`: then the buffer is not `clean`).

* `parseTag_found`, `parse_absent`: a tag is found, or put back.
* `parseInteger_yields`, `bcdToString_intToBcd`: **numbers** come back as they were.
-/

namespace Asn

open Ocp

variable {s c : CStruct} {i : Info} {b : Buf} {octet : UInt8} {octets data tail : Octets}
  {clean : Prop} {longMax quota len lengthOfLength : Nat} {contents : Contents}

/-! ## Reads -/

/-- A read gives `a` and leaves `tail`, or goes astray. -/
def Reads {α : Type} (clean : Prop) (b : Buf) (r : Read α) (a : α) (tail : Octets) : Prop :=
  (¬clean ∧ r = .beyond) ∨ ∃ b', r = .ok a b' ∧ b'.Holds tail ∧ b'.segs = b.segs

theorem solid_of_segs {b' : Buf} (hs : clean → b.Solid) (h : b'.segs = b.segs) :
    clean → b'.Solid := by
  intro hc
  unfold Buf.Solid
  rw [h]
  exact hs hc

theorem getOctet_reads (hs : clean → b.Solid) (hb : b.Holds (octet :: octets)) :
    Reads clean b b.getOctet octet octets := by
  rcases Buf.getOctet_cases hb with ⟨b', hok, hgot⟩ | ⟨hbey, hns⟩
  · exact .inr ⟨b', hok, hgot.holds, hgot.segs⟩
  · exact .inl ⟨fun hc => hns (hs hc), hbey⟩

theorem getOctets_reads (hs : clean → b.Solid) (hb : b.Holds (octets ++ tail)) :
    Reads clean b (getOctets octets.length b) octets tail := by
  induction octets generalizing b with
  | nil => exact .inr ⟨b, rfl, hb, rfl⟩
  | cons octet octets ih =>
    show Reads clean b (getOctets (octets.length + 1) b) _ _
    unfold getOctets
    rcases getOctet_reads hs hb with ⟨hnc, hbey⟩ | ⟨b₁, hok, hb₁, hsegs⟩
    · rw [hbey]
      exact .inl ⟨hnc, rfl⟩
    · rw [hok]
      dsimp only
      rcases ih (solid_of_segs hs hsegs) hb₁ with ⟨hnc, hbey⟩ | ⟨b₂, hok₂, hb₂, hsegs₂⟩
      · rw [hbey]
        exact .inl ⟨hnc, rfl⟩
      · rw [hok₂]
        exact .inr ⟨b₂, rfl, hb₂, hsegs₂.trans hsegs⟩

/-- Octets that have been shifted in. -/
theorem shiftIn_eq (octets : Octets) :
    shiftIn octets = Numeral.value 256 (octets.map UInt8.toNat) % 2 ^ 32 := by
  induction octets using List.reverseRecOn with
  | nil => rfl
  | append_singleton octets octet ih =>
    rw [List.map_append, List.map_singleton, Numeral.value_append_single]
    unfold shiftIn at ih ⊢
    rw [List.foldl_append, ih]
    simp only [List.foldl_cons, List.foldl_nil]
    omega

theorem map_toNat_ofNat {ds : List Nat} (h : ∀ d ∈ ds, d < 256) :
    (ds.map UInt8.ofNat).map UInt8.toNat = ds := by
  rw [List.map_map]
  conv_rhs => rw [← List.map_id ds]
  apply List.map_congr_left
  intro d hd
  exact UInt8.toNat_ofNat_of_lt' (h d hd)

/-! ## The length -/

theorem short_length {n : Nat} (h : n ≤ 127) :
    UInt8.ofNat n &&& 0x80 = 0 ∧ (UInt8.ofNat n).toNat = n := by
  have hall : ∀ n : Fin 128, UInt8.ofNat n &&& 0x80 = 0 ∧ (UInt8.ofNat n).toNat = n := by
    decide +kernel
  exact hall ⟨n, by omega⟩

theorem long_length {n : Nat} (h : n ≤ 127) :
    (UInt8.ofNat n ||| 0x80) &&& 0x80 ≠ 0 ∧ ((UInt8.ofNat n ||| 0x80) &&& 0x7f).toNat = n := by
  have hall : ∀ n : Fin 128, (UInt8.ofNat n ||| 0x80) &&& 0x80 ≠ 0 ∧
      ((UInt8.ofNat n ||| 0x80) &&& 0x7f).toNat = n := by
    decide +kernel
  exact hall ⟨n, by omega⟩

/-- **The length** is parsed as it was formatted. -/
theorem parseLength_lengthOctets {n : Nat} (hn : n < 2 ^ 32) (hs : clean → b.Solid)
    (hb : b.Holds (lengthOctets n ++ tail)) (next : Nat → Nat → Buf → Parse) :
    (¬clean ∧ parseLength b c next = .beyond) ∨
      ∃ b', parseLength b c next = next n (lengthOctets n).length b' ∧ b'.Holds tail ∧
        b'.segs = b.segs := by
  unfold parseLength andThen
  unfold lengthOctets at hb ⊢
  split at hb
  · -- the short form
    rename_i hle
    rw [if_pos hle]
    rcases getOctet_reads hs hb with ⟨hnc, hbey⟩ | ⟨b₁, hok, hb₁, hsegs⟩
    · rw [hbey]
      exact .inl ⟨hnc, rfl⟩
    · obtain ⟨hbit, hval⟩ := short_length hle
      refine .inr ⟨b₁, ?_, hb₁, hsegs⟩
      rw [hok]
      dsimp only
      rw [if_neg (not_not.2 hbit), hval]
      rfl
  · -- the long form
    rename_i hle
    rw [if_neg hle]
    dsimp only at hb ⊢
    generalize hos : (Numeral.digits 256 n).map UInt8.ofNat = os at hb ⊢
    have hlen : os.length ≤ 4 := by
      rw [← hos, List.length_map]
      exact Numeral.digits_length_le (by decide) hn
    have hval : shiftIn os = n := by
      rw [shiftIn_eq, ← hos, map_toNat_ofNat (Numeral.digits_lt (by decide)),
        Numeral.value_digits, Nat.mod_eq_of_lt hn]
    obtain ⟨hbit, hcount⟩ := long_length (n := os.length) (by omega)
    rcases getOctet_reads hs hb with ⟨hnc, hbey⟩ | ⟨b₁, hok, hb₁, hsegs⟩
    · rw [hbey]
      exact .inl ⟨hnc, rfl⟩
    · rw [hok]
      dsimp only
      rw [if_pos hbit, hcount]
      rcases getOctets_reads (solid_of_segs hs hsegs) hb₁ with ⟨hnc, hbey⟩ | ⟨b₂, hok₂, hb₂, hsegs₂⟩
      · rw [hbey]
        exact .inl ⟨hnc, rfl⟩
      · refine .inr ⟨b₂, ?_, hb₂, hsegs₂.trans hsegs⟩
        rw [hok₂]
        dsimp only
        rw [hval]
        rfl

/-! ## The tag -/

/-- **A tag that is found**: the contents are parsed. -/
theorem parseTag_found {tag : UInt8} (hs : clean → b.Solid) (hb : b.Holds (tlv tag data ++ tail))
    (htag : bare tag = bare i.tag) (hq : data.length ≤ quota) (h32 : data.length < 2 ^ 32) :
    (¬clean ∧ parseTag i b c quota contents = .beyond) ∨
      ∃ b', parseTag i b c quota contents =
          contents b' (c.setExists i true) data.length (lengthOctets data.length).length ∧
        b'.Holds (data ++ tail) ∧ b'.segs = b.segs := by
  have htag' : bare tag = i.tag &&& ~~~asnExplicit := htag
  unfold parseTag andThen
  unfold tlv at hb
  rw [List.cons_append, List.append_assoc] at hb
  rcases getOctet_reads hs hb with ⟨hnc, hbey⟩ | ⟨b₁, hok, hb₁, hsegs⟩
  · rw [hbey]
    exact .inl ⟨hnc, rfl⟩
  · rw [hok]
    dsimp only
    rw [if_neg (not_not.2 htag')]
    rcases parseLength_lengthOctets (c := c.setExists i true) h32 (solid_of_segs hs hsegs) hb₁
        (fun len lengthOfLength b =>
          if len > quota then .failed .formatErrorInPDU b (c.setExists i true)
          else contents b (c.setExists i true) len lengthOfLength)
      with ⟨hnc, hbey⟩ | ⟨b₂, hok₂, hb₂, hsegs₂⟩
    · exact .inl ⟨hnc, hbey⟩
    · refine .inr ⟨b₂, ?_, hb₂, hsegs₂.trans hsegs⟩
      rw [hok₂, if_neg (by omega)]

/-- What is parsed of an element that is not there. -/
def absent (i : Info) (b : Buf) (c : CStruct) : Parse :=
  match i.existsOffset with
  | none => .failed .wrongTag b c
  | some o => .done b (c.setBoolean o false) 0

/-- A tag that is not the expected one is put back. -/
theorem parseTag_absent (hs : clean → b.Solid) (hb : b.Holds (octet :: octets))
    (htag : bare octet ≠ bare i.tag) :
    (¬clean ∧ parseTag i b c quota contents = .beyond) ∨
      ∃ b', parseTag i b c quota contents = absent i b' c ∧ b'.Holds (octet :: octets) ∧
        b'.segs = b.segs := by
  have htag' : bare octet ≠ i.tag &&& ~~~asnExplicit := htag
  unfold parseTag andThen
  rcases Buf.getOctet_cases hb with ⟨b', hok, hgot⟩ | ⟨hbey, hns⟩
  · refine .inr ⟨b'.ungetOctet, ?_, hgot.unget, hgot.ungetSegs⟩
    rw [hok]
    dsimp only
    rw [if_pos htag']
    unfold absent
    cases i.existsOffset <;> rfl
  · rw [hbey]
    exact .inl ⟨fun hc => hns (hs hc), rfl⟩

mutual

/-- **An element that is not there**: another tag follows. -/
theorem parse_absent (longMax : Nat) (hs : clean → b.Solid) : ∀ (e : Entry) (b' : Buf) (quota : Nat),
    e.WellFormed → b'.segs = b.segs → b'.Holds (octet :: octets) → bare octet ∉ e.tags →
    (¬clean ∧ parse longMax e b' c quota = .beyond) ∨
      ∃ b'', parse longMax e b' c quota = absent e.info b'' c ∧ b''.Holds (octet :: octets) ∧
        b''.segs = b.segs
  | .integer i, b', quota, hw, hsegs, hb, hx => by
    unfold parse parseElement
    rw [if_pos hw.1]
    exact hsegs ▸ parseTag_absent (solid_of_segs hs hsegs) hb fun h => hx (List.mem_singleton.2 h)
  | .bcdString i, b', quota, hw, hsegs, hb, hx => by
    unfold parse parseElement
    rw [if_pos hw.1]
    exact hsegs ▸ parseTag_absent (solid_of_segs hs hsegs) hb fun h => hx (List.mem_singleton.2 h)
  | .octetString i, b', quota, hw, hsegs, hb, hx => by
    unfold parse parseElement
    rw [if_pos hw.1]
    exact hsegs ▸ parseTag_absent (solid_of_segs hs hsegs) hb fun h => hx (List.mem_singleton.2 h)
  | .sequence i es, b', quota, hw, hsegs, hb, hx => by
    unfold parse parseElement
    rw [if_pos hw.1.1]
    exact hsegs ▸ parseTag_absent (solid_of_segs hs hsegs) hb fun h => hx (List.mem_singleton.2 h)
  | .choice i es, b', quota, hw, hsegs, hb, hx => by
    unfold parse
    dsimp only
    unfold Entry.tags at hx
    split
    · -- the explicit tag
      rename_i hexp
      have h0 : i.tag ≠ 0 := by
        intro h0
        rw [h0] at hexp
        exact hexp rfl
      rw [if_neg h0] at hx
      exact hsegs ▸ parseTag_absent (solid_of_segs hs hsegs) hb fun h => hx (List.mem_singleton.2 h)
    · -- the tags of the alternatives
      rename_i hexp
      have h0 : i.tag = 0 := hw.1.resolve_right hexp
      rw [if_pos h0] at hx
      have hne := hw.2.2.1
      obtain ⟨e, es', hes⟩ := List.exists_cons_of_ne_nil hne
      exact parseAlternatives_absent longMax hs i es 0 .fail b' noLength hw.2.2.2.2 hw.2.2.2.1
        hsegs hb hx (fun hnil => absurd hnil hne)

theorem parseAlternatives_absent (longMax : Nat) (hs : clean → b.Solid) (i : Info) :
    ∀ (es : List Entry) (n : Nat) (rc : ReturnCode) (b' : Buf) (len : Nat), WellFormedAll es →
    (∀ e ∈ es, e.info.existsOffset = none) → b'.segs = b.segs → b'.Holds (octet :: octets) →
    bare octet ∉ Entry.tags.tagsAll es → (es = [] → rc = .wrongTag) →
    (¬clean ∧ parseAlternatives longMax i es n rc b' c len 0 = .beyond) ∨
      ∃ b'', parseAlternatives longMax i es n rc b' c len 0 = absent i b'' c ∧
        b''.Holds (octet :: octets) ∧ b''.segs = b.segs
  | [], n, rc, b', len, _, _, hsegs, hb, _, hrc => by
    refine .inr ⟨b', ?_, hb, hsegs⟩
    have hwrong : rc = .wrongTag := hrc rfl
    subst hwrong
    unfold parseAlternatives absent
    cases i.existsOffset with
    | none => rfl
    | some o => rfl
  | e :: es, n, rc, b', len, hw, hman, hsegs, hb, hx, _ => by
    have hxe : bare octet ∉ e.tags := fun h => hx (List.mem_append_left _ h)
    have hxes : bare octet ∉ Entry.tags.tagsAll es := fun h => hx (List.mem_append_right _ h)
    unfold parseAlternatives
    rcases parse_absent longMax hs e b' len hw.1 hsegs hb hxe with ⟨hnc, hbey⟩ | ⟨b₁, heq, hb₁, hsegs₁⟩
    · rw [hbey]
      exact .inl ⟨hnc, rfl⟩
    · rw [heq]
      unfold absent
      rw [hman e List.mem_cons_self]
      exact parseAlternatives_absent longMax hs i es (n + 1) .wrongTag b₁ len hw.2
        (fun e he => hman e (List.mem_cons_of_mem _ he)) hsegs₁ hb₁ hxes (fun _ => rfl)

end

/-! ## The data -/

/-- The parser stops for good. -/
def Fatal : Parse → Prop
  | .done _ _ _ => False
  | .failed rc _ _ => rc ≠ .wrongTag
  | .beyond => True

/-- The parser gives the structure `c'`, has used `used` octets and left `tail`, or stops for good. -/
def Yields (clean : Prop) (b : Buf) (r : Parse) (c' : CStruct) (used : Nat) (tail : Octets) : Prop :=
  (¬clean ∧ Fatal r) ∨ ∃ b', r = .done b' c' used ∧ b'.Holds tail ∧ b'.segs = b.segs

theorem Yields.of_segs {b' : Buf} {r : Parse} {c' : CStruct} {used : Nat}
    (h : Yields clean b' r c' used tail) (hsegs : b'.segs = b.segs) :
    Yields clean b r c' used tail := by
  rcases h with h | ⟨b'', hr, hb, hsegs'⟩
  · exact .inl h
  · exact .inr ⟨b'', hr, hb, hsegs'.trans hsegs⟩

theorem shiftIn_integerOctets (v : UInt32) : UInt32.ofNat (shiftIn (integerOctets v)) = v := by
  have hv : v.toNat < 2 ^ 32 := v.toNat_lt
  unfold integerOctets
  rw [shiftIn_eq, map_toNat_ofNat (Numeral.peel_lt (by decide)), Numeral.value_peel (b := 256) (k := 4) hv,
    Nat.mod_eq_of_lt hv, UInt32.ofNat_toNat]

/-- **An integer** comes back. -/
theorem parseInteger_yields {v : UInt32} (hs : clean → b.Solid)
    (hb : b.Holds (integerOctets v ++ tail)) :
    Yields clean b (parseInteger i b c (integerOctets v).length lengthOfLength)
      (c.setUint32 i.dataOffset v) (usedSoFar lengthOfLength + (integerOctets v).length) tail := by
  have hlen : (integerOctets v).length ≤ 4 := by
    rw [integerOctets, List.length_map]
    exact Numeral.peel_length_le
  unfold parseInteger andThen
  rw [if_neg (by omega)]
  rcases getOctets_reads hs hb with ⟨hnc, hbey⟩ | ⟨b', hok, hb', hsegs⟩
  · rw [hbey]
    exact .inl ⟨hnc, trivial⟩
  · refine .inr ⟨b', ?_, hb', hsegs⟩
    rw [hok]
    dsimp only
    rw [shiftIn_integerOctets]

/-- The octets of a string reach the one that stores them. -/
theorem parseString_eq (i : Info) (store : Buf → CStruct → Octets → Nat → Parse) (c : CStruct)
    (lengthOfLength : Nat) (hb : b.Holds (octets ++ tail)) (hmax : octets.length ≤ i.maxDataLength) :
    ∃ b', b'.Holds tail ∧ b'.segs = b.segs ∧
      parseString i store b c octets.length lengthOfLength =
        if octets.length ≤ (octets.length + 2) % 2 ^ 16 then
          store b' c octets (lengthOfLength + 1 + octets.length)
        else if (octets.length + 2) % 2 ^ 16 = 0 then .beyond
        else .failed .resourceError b' c := by
  obtain ⟨b', hok, hb', hsegs⟩ := Buf.getString_ok hb
  refine ⟨b', hb', hsegs, ?_⟩
  unfold parseString andThen
  rw [if_neg (by omega), hok]

/-- **An octet string** comes back with its terminator, if it does. -/
theorem parseOctetString_yields (hb : b.Holds (octets ++ tail))
    (hmax : octets.length ≤ i.maxDataLength) (hnc : ¬clean) :
    Yields clean b (parseString i (storeOctetString i) b c octets.length lengthOfLength)
      (c.setString i.dataOffset (octets ++ [0])) (lengthOfLength + 1 + octets.length) tail := by
  obtain ⟨b', hb', hsegs, heq⟩ :=
    parseString_eq i (storeOctetString i) c lengthOfLength hb hmax
  rw [heq]
  split_ifs
  · exact .inr ⟨b', rfl, hb', hsegs⟩
  · exact .inl ⟨hnc, trivial⟩
  · exact .inl ⟨hnc, by simp [Fatal]⟩

/-! ## Decimal digits -/

theorem digit_pair {d e : Nat} (hd : d < 10) (he : e < 10) :
    (UInt8.ofNat (d * 16 + e)).toNat / 16 = d ∧ (UInt8.ofNat (d * 16 + e)).toNat % 16 = e ∧
      UInt8.ofNat (d * 16 + e) ≠ 0xff := by
  have hto : (UInt8.ofNat (d * 16 + e)).toNat = d * 16 + e :=
    UInt8.toNat_ofNat_of_lt' (by show _ < 256; omega)
  refine ⟨by omega, by omega, ?_⟩
  intro hff
  rw [hff] at hto
  have : (0xff : UInt8).toNat = 255 := rfl
  omega

/-- What has been packed is unpacked, and has no octet that ends a string. -/
theorem unpack_pack (digits : List Nat) (h10 : ∀ d ∈ digits, d < 10)
    (heven : digits.length % 2 = 0) :
    ((pack digits).flatMap fun octet => [octet.toNat / 16, octet.toNat % 16]) = digits ∧
      (∀ octet ∈ pack digits, octet ≠ 0xff) ∧ 2 * (pack digits).length = digits.length := by
  induction digits using pack.induct with
  | case1 d e digits ih =>
    have hd := h10 d List.mem_cons_self
    have he := h10 e (List.mem_cons_of_mem _ List.mem_cons_self)
    obtain ⟨h1, h2, h3⟩ := digit_pair hd he
    obtain ⟨ih1, ih2, ih3⟩ := ih
      (fun x hx => h10 x (List.mem_cons_of_mem _ (List.mem_cons_of_mem _ hx)))
      (by simp only [List.length_cons] at heven; omega)
    unfold pack
    refine ⟨?_, ?_, ?_⟩
    · rw [List.flatMap_cons, ih1, h1, h2]
      rfl
    · intro octet hoctet
      rcases List.mem_cons.1 hoctet with rfl | hoctet
      · exact h3
      · exact ih2 octet hoctet
    · simp only [List.length_cons]
      omega
  | case2 digits hno =>
    have hnil : digits = [] := by
      match digits, hno, heven with
      | [], _, _ => rfl
      | [d], _, heven => simp at heven
      | d :: e :: digits, hno, _ => exact absurd rfl (hno d e digits)
    rw [hnil]
    simp [pack]

/-- The digits that are packed: an even number of them, with at most one leading zero. -/
theorem stringToBcd_digits (digits : List Nat) : ∃ padded, stringToBcd digits = pack padded ∧
    padded.length % 2 = 0 ∧ padded.length ≤ digits.length + 1 ∧
    (padded = digits ∨ padded = 0 :: digits) := by
  unfold stringToBcd
  dsimp only
  split
  · rename_i hodd
    rw [List.length_cons] at hodd
    exact ⟨digits, rfl, by omega, by omega, .inl rfl⟩
  · rename_i heven
    rw [List.length_cons] at heven
    exact ⟨0 :: digits, rfl, by rw [List.length_cons]; omega, Nat.le_refl _, .inr rfl⟩

theorem digitString_spec (v : UInt32) : Numeral.value 10 (digitString v) = v.toNat ∧
    (∀ d ∈ digitString v, d < 10) ∧ (digitString v).length ≤ 10 := by
  have hv : v.toNat < 10 ^ 10 := Nat.lt_trans v.toNat_lt (by decide)
  unfold digitString
  split
  · rename_i h0
    rw [h0]
    decide
  · exact ⟨Numeral.value_digits 10 v.toNat, Numeral.digits_lt (by decide),
      Numeral.digits_length_le (by decide) hv⟩

theorem value_dropWhile_zero (b : Nat) (digits : List Nat) :
    Numeral.value b (digits.dropWhile (· = 0)) = Numeral.value b digits := by
  induction digits with
  | nil => rfl
  | cons d digits ih =>
    by_cases hd : d = 0
    · rw [hd, List.dropWhile_cons_of_pos (by decide), ih, Numeral.value_zero_cons]
    · rw [List.dropWhile_cons_of_neg (by simpa using hd)]

/-- The digits of `v` as they are packed. -/
theorem intToBcd_digits (v : UInt32) : ∃ padded, intToBcd v = pack padded ∧
    Numeral.value 10 padded = v.toNat ∧ (∀ d ∈ padded, d < 10) ∧ padded.length % 2 = 0 ∧
    padded.length ≤ 11 := by
  obtain ⟨hval, h10, hlen⟩ := digitString_spec v
  obtain ⟨padded, hpack, heven, hle, hcases⟩ := stringToBcd_digits (digitString v)
  refine ⟨padded, hpack, ?_, ?_, heven, by omega⟩
  · rcases hcases with rfl | rfl
    · exact hval
    · rw [Numeral.value_zero_cons, hval]
  · rcases hcases with rfl | rfl
    · exact h10
    · intro d hd
      rcases List.mem_cons.1 hd with rfl | hd
      · omega
      · exact h10 d hd

theorem intToBcd_length (v : UInt32) : (intToBcd v).length ≤ 5 := by
  obtain ⟨padded, hpack, -, h10, heven, hle⟩ := intToBcd_digits v
  obtain ⟨-, -, hcount⟩ := unpack_pack padded h10 heven
  rw [hpack]
  omega

/-- The digits of an octet. -/
def digitsOf (string : Octets) : List Nat :=
  string.flatMap fun octet => [octet.toNat / 16, octet.toNat % 16]

/-- A string of decimal digits has no octet that ends it. -/
theorem takeWhile_decimal {string : Octets} (h10 : ∀ d ∈ digitsOf string, d < 10) :
    string.takeWhile (· ≠ 0xff) = string := by
  apply List.takeWhile_eq_self_iff.2
  intro octet hoctet
  have hlow : octet.toNat % 16 < 10 :=
    h10 _ (List.mem_flatMap.2 ⟨octet, hoctet, List.mem_cons_of_mem _ List.mem_cons_self⟩)
  have hff : octet ≠ 0xff := by
    rintro rfl
    exact absurd hlow (by decide)
  simpa using hff

/-- **A string of decimal digits** that fits is read as its number, as far as a `long` goes. -/
theorem bcdToString_decimal {string : Octets} (longMax : Nat) (h10 : ∀ d ∈ digitsOf string, d < 10)
    (hlen : string.length < 8) : ∃ str, bcdToString string = some str ∧
      atol longMax str = min (Numeral.value 10 (digitsOf string)) longMax := by
  generalize hstr : (digitsOf string).dropWhile (· = 0) = str
  refine ⟨if str = [] then [0] else str, ?_, ?_⟩
  · unfold digitsOf at hstr
    unfold bcdToString
    dsimp only
    rw [takeWhile_decimal h10, if_pos hlen, hstr]
  · unfold atol
    split
    · rename_i hnil
      rw [← value_dropWhile_zero 10 (digitsOf string), hstr, hnil]
      rfl
    · have hall : str.takeWhile (· < 10) = str := by
        apply List.takeWhile_eq_self_iff.2
        intro d hd
        rw [← hstr] at hd
        simpa using h10 d ((List.dropWhile_suffix _).subset hd)
      rw [hall, ← hstr, value_dropWhile_zero]

/-- **A BCD string** gives the digits back. -/
theorem bcdToString_intToBcd (longMax : Nat) (v : UInt32) : ∃ str, bcdToString (intToBcd v) = some str ∧
    atol longMax str = min v.toNat longMax := by
  obtain ⟨padded, hpack, hpval, hp10, heven, hle⟩ := intToBcd_digits v
  obtain ⟨hunpack, -, hcount⟩ := unpack_pack padded hp10 heven
  have hdigits : digitsOf (intToBcd v) = padded := by
    rw [hpack]
    exact hunpack
  have hlen : (intToBcd v).length < 8 := by
    rw [hpack]
    omega
  have hdecimal := bcdToString_decimal longMax (by rwa [hdigits]) hlen
  rwa [hdigits, hpval] at hdecimal

/-- **A BCD number** comes back as far as a `long` goes. -/
theorem parseBcdString_yields {v : UInt32} (hb : b.Holds (intToBcd v ++ tail))
    (hmax : (intToBcd v).length ≤ i.maxDataLength) :
    Yields clean b
      (parseString i (storeBcdString longMax i) b c (intToBcd v).length lengthOfLength)
      (c.setUint32 i.dataOffset (UInt32.ofNat (min v.toNat longMax)))
      (lengthOfLength + 1 + (intToBcd v).length) tail := by
  obtain ⟨b', hb', hsegs, heq⟩ :=
    parseString_eq i (storeBcdString longMax i) c lengthOfLength hb hmax
  have hlen := intToBcd_length v
  obtain ⟨str, hstr, hatol⟩ := bcdToString_intToBcd longMax v
  refine .inr ⟨b', ?_, hb', hsegs⟩
  rw [heq, if_pos (by omega)]
  unfold storeBcdString
  rw [hstr]
  dsimp only
  rw [hatol]

end Asn
