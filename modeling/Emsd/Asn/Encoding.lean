import Emsd.Asn.Ber

/-!
# The encoding of a value

What a value is in the basic encoding rules, as octets: tag, length and data of each element.

* `format_encode`: **formatting** puts the encoding in front of the buffer, and gives its length.
* `encode_head`: an element that is in the PDU begins with one of its tags.
-/

namespace Asn

open Ocp

variable {s : CStruct} {e : Entry} {es : List Entry} {i : Info} {f : Front}

/-- The length octets. -/
def lengthOctets (length : Nat) : Octets :=
  if length ≤ 127 then [UInt8.ofNat length]
  else
    let octets := (Numeral.digits 256 length).map UInt8.ofNat
    (UInt8.ofNat octets.length ||| 0x80) :: octets

/-- Tag, length and data. -/
def tlv (tag : UInt8) (data : Octets) : Octets := tag :: (lengthOctets data.length ++ data)

mutual

/-- The encoding of an element. -/
def encode (s : CStruct) : Entry → Octets
  | .integer i => if i.present s then tlv i.tag (integerOctets (s.uint32 i.dataOffset)) else []
  | .bcdString i => if i.present s then tlv i.tag (intToBcd (s.uint32 i.dataOffset)) else []
  | .octetString i => if i.present s then tlv i.tag (s.string i.dataOffset) else []
  | .sequence i es => if i.present s then tlv (i.tag ||| constructor) (encodeAll s es) else []
  | .choice i es =>
    if i.present s then
      let data := encodeAlternative s es (s.selector i.dataOffset).toNat
      if i.tag = 0 then data else tlv i.tag data
    else []

def encodeAll (s : CStruct) : List Entry → Octets
  | [] => []
  | e :: es => encode s e ++ encodeAll s es

def encodeAlternative (s : CStruct) : List Entry → Nat → Octets
  | [], _ => []
  | e :: _, 0 => encode s e
  | _ :: es, n + 1 => encodeAlternative s es n

end

mutual

/-- The value of an element is in the range of its type. -/
def InRange (s : CStruct) : Entry → Prop
  | .integer _ => True
  | .bcdString i => i.present s → (intToBcd (s.uint32 i.dataOffset)).length ≤ i.maxDataLength
  | .octetString i => i.present s →
      (s.string i.dataOffset).length ≤ i.maxDataLength ∧ (s.string i.dataOffset).length < 2 ^ 16
  | .sequence i es => i.present s → InRangeAll s es
  | .choice i es => i.present s → InRangeAlternative s es (s.selector i.dataOffset).toNat

def InRangeAll (s : CStruct) : List Entry → Prop
  | [] => True
  | e :: es => InRange s e ∧ InRangeAll s es

def InRangeAlternative (s : CStruct) : List Entry → Nat → Prop
  | [], _ => False
  | e :: _, 0 => InRange s e
  | _ :: es, n + 1 => InRangeAlternative s es n

end

/-- A place in the structure that belongs to a value. -/
inductive Field
  | uint32 (o : Nat)
  | bcd (o : Nat)
  | string (o : Nat)
  | selector (o : Nat)
  | boolean (o : Nat)
  deriving DecidableEq, Repr

def Field.offset : Field → Nat
  | .uint32 o | .bcd o | .string o | .selector o | .boolean o => o

/-- The flag of an element, when it has one. -/
def Info.flag (i : Info) : List Field := i.existsOffset.toList.map Field.boolean

mutual

/-- The fields that the formatter reads: the value. -/
def fields (s : CStruct) : Entry → List Field
  | .integer i => i.flag ++ if i.present s then [.uint32 i.dataOffset] else []
  | .bcdString i => i.flag ++ if i.present s then [.bcd i.dataOffset] else []
  | .octetString i => i.flag ++ if i.present s then [.string i.dataOffset] else []
  | .sequence i es => i.flag ++ if i.present s then fieldsAll s es else []
  | .choice i es => i.flag ++
      if i.present s then
        .selector i.dataOffset :: fieldsAlternative s es (s.selector i.dataOffset).toNat
      else []

def fieldsAll (s : CStruct) : List Entry → List Field
  | [] => []
  | e :: es => fields s e ++ fieldsAll s es

def fieldsAlternative (s : CStruct) : List Entry → Nat → List Field
  | [], _ => []
  | e :: _, 0 => fields s e
  | _ :: es, n + 1 => fieldsAlternative s es n

end

/-! ## Formatting -/

theorem addOctets_octets (octets : Octets) : (addOctets f octets).octets = octets ++ f.octets := by
  induction octets with
  | nil => rfl
  | cons octet octets ih =>
    show ((addOctets f octets).addOctet octet).octets = _
    rw [Front.addOctet_octets, ih, List.cons_append]

theorem addOctets_solid (hf : f.Solid) (octets : Octets) : (addOctets f octets).Solid := by
  induction octets with
  | nil => exact hf
  | cons octet octets ih => exact Front.Solid.addOctet ih

/-- How `f'` comes from `f`: `octets` have been put in front, and without a string there is no empty
segment among the new ones. -/
structure Adds (f f' : Front) (octets : Octets) (noStrings : Prop) : Prop where
  octets : f'.octets = octets ++ f.octets
  solid : noStrings → f.Solid → f'.Solid

section
variable {f' f'' : Front} {os os' : Octets} {p q : Prop}

theorem Adds.refl : Adds f f [] p := ⟨rfl, fun _ hf => hf⟩

theorem Adds.trans (h : Adds f f' os p) (h' : Adds f' f'' os' q) (hp : q → p) :
    Adds f f'' (os' ++ os) q := by
  refine ⟨?_, fun hq hf => h'.solid hq (h.solid (hp hq) hf)⟩
  rw [h'.octets, h.octets, List.append_assoc]

theorem Adds.weaken (h : Adds f f' os p) (hp : q → p) : Adds f f' os q :=
  ⟨h.octets, fun hq => h.solid (hp hq)⟩

theorem Adds.addOctets (os : Octets) : Adds f (addOctets f os) os p :=
  ⟨addOctets_octets os, fun _ hf => addOctets_solid hf os⟩

end

theorem formatLength_eq (length : Nat) :
    formatLength length f =
      (addOctets f (lengthOctets length), (lengthOctets length).length) := by
  unfold formatLength lengthOctets
  split <;> rfl

/-- The tag and the length in front of the data. -/
theorem addTag_adds {f' : Front} {tag : UInt8} {data : Octets} {p : Prop} (htag : tag ≠ 0)
    (h : Adds f f' data p) :
    ∃ f'', addTag tag f' data.length = (f'', (tlv tag data).length) ∧ Adds f f'' (tlv tag data) p := by
  refine ⟨addOctets f' (tag :: lengthOctets data.length), ?_, ?_⟩
  · unfold addTag
    rw [if_pos htag, formatLength_eq]
    refine Prod.ext rfl ?_
    simp only [tlv, List.length_cons, List.length_append]
    omega
  · exact h.trans (Adds.addOctets _) fun hp => hp

theorem integerOctets_length (integer : UInt32) :
    (integerOctets integer).length = integerLength integer := by
  have h : integer.toNat < 2 ^ 32 := integer.toNat_lt
  unfold integerOctets integerLength
  simp only [gt_iff_lt, UInt32.lt_iff_toNat_lt, UInt32.reduceToNat, List.length_map,
    Numeral.peel, Nat.div_div_eq_div_mul]
  split_ifs <;> simp <;> omega

theorem or_constructor_ne_zero (tag : UInt8) : tag ||| constructor ≠ 0 := by
  obtain ⟨tag⟩ := tag
  revert tag
  decide +kernel

/-- None of the fields is a string. -/
def NoStrings (l : List Field) : Prop := ∀ o, Field.string o ∉ l

theorem NoStrings.mono {l l' : List Field} (h : NoStrings l) (hsub : l' ⊆ l) : NoStrings l' :=
  fun o ho => h o (hsub ho)

mutual

/-- **Formatting** an element of a well-formed tree puts its encoding in front of the buffer. -/
theorem format_encode (s : CStruct) : ∀ (e : Entry) (f : Front), e.WellFormed → InRange s e →
    ∃ f', format s e e.info.tag f = some (f', (encode s e).length) ∧
      Adds f f' (encode s e) (NoStrings (fields s e))
  | .integer i, f, hw, _ => by
    unfold format encode
    split
    · obtain ⟨f', hf', hadds⟩ := addTag_adds hw.1
        (Adds.addOctets (f := f) (integerOctets (s.uint32 i.dataOffset)))
      rw [integerOctets_length] at hf'
      exact ⟨f', congrArg some hf', hadds⟩
    · exact ⟨f, rfl, Adds.refl⟩
  | .bcdString i, f, hw, _ => by
    unfold format encode
    split
    · obtain ⟨f', hf', hadds⟩ := addTag_adds hw.1
        (Adds.addOctets (f := f) (intToBcd (s.uint32 i.dataOffset)))
      exact ⟨f', congrArg some hf', hadds⟩
    · exact ⟨f, rfl, Adds.refl⟩
  | .octetString i, f, hw, _ => by
    unfold format encode fields
    split
    · -- the segment of the string may be empty
      have hchunk : Adds f (f.prependChunk (s.string i.dataOffset)) (s.string i.dataOffset)
          (NoStrings (i.flag ++ [.string i.dataOffset])) := by
        refine ⟨rfl, fun hno => absurd ?_ (hno i.dataOffset)⟩
        exact List.mem_append_right _ (List.mem_singleton.2 rfl)
      obtain ⟨f', hf', hadds⟩ := addTag_adds hw.1 hchunk
      exact ⟨f', congrArg some hf', hadds⟩
    · exact ⟨f, rfl, Adds.refl⟩
  | .sequence i es, f, hw, hr => by
    unfold format encode fields
    split
    · rename_i hp
      obtain ⟨f₁, hf₁, hadds₁⟩ := formatElements_encode s es f hw.2.2 (hr hp)
      obtain ⟨f', hf', hadds⟩ := addTag_adds (or_constructor_ne_zero i.tag) hadds₁
      refine ⟨f', ?_, hadds.weaken fun hno => hno.mono (List.subset_append_right _ _)⟩
      rw [hf₁]
      exact congrArg some hf'
    · exact ⟨f, rfl, Adds.refl⟩
  | .choice i es, f, hw, hr => by
    have hnot : ¬((Entry.choice i es).info.tag ≠ 0 ∧
        (Entry.choice i es).info.tag &&& asnExplicit = 0) := by
      rintro ⟨h0, hexp⟩
      exact hw.1.elim h0 fun h => h hexp
    unfold format encode fields
    split
    · rename_i hp
      obtain ⟨f₁, hf₁, hadds₁⟩ := formatAlternative_encode s es _ f hw.2.2.2.2 (hr hp)
      have hmono : NoStrings (i.flag ++ Field.selector i.dataOffset ::
          fieldsAlternative s es (s.selector i.dataOffset).toNat) →
          NoStrings (fieldsAlternative s es (s.selector i.dataOffset).toNat) := fun hno =>
        hno.mono fun fld hfld => List.mem_append_right _ (List.mem_cons_of_mem _ hfld)
      dsimp only
      rw [if_neg hnot, if_neg hnot, hf₁]
      split
      · -- a choice without a tag
        rename_i h0
        refine ⟨f₁, ?_, hadds₁.weaken hmono⟩
        show some (addTag i.tag f₁ _) = _
        rw [h0]
        rfl
      · rename_i h0
        obtain ⟨f', hf', hadds⟩ := addTag_adds h0 hadds₁
        exact ⟨f', congrArg some hf', hadds.weaken hmono⟩
    · exact ⟨f, rfl, Adds.refl⟩

theorem formatElements_encode (s : CStruct) : ∀ (es : List Entry) (f : Front), WellFormedAll es →
    InRangeAll s es → ∃ f', formatElements s es f = some (f', (encodeAll s es).length) ∧
      Adds f f' (encodeAll s es) (NoStrings (fieldsAll s es))
  | [], f, _, _ => ⟨f, rfl, Adds.refl⟩
  | e :: es, f, hw, hr => by
    obtain ⟨f₁, hf₁, hadds₁⟩ := formatElements_encode s es f hw.2 hr.2
    obtain ⟨f', hf', hadds⟩ := format_encode s e f₁ hw.1 hr.1
    refine ⟨f', ?_, ?_⟩
    · unfold formatElements encodeAll
      rw [hf₁]
      simp only [Option.bind_eq_bind, Option.bind_some, hf', List.length_append]
      rw [Nat.add_comm]
    · exact (hadds₁.weaken fun hno => hno.mono (List.subset_append_right _ _)).trans
        (hadds.weaken fun hno => hno.mono (List.subset_append_left _ _)) fun hp => hp

theorem formatAlternative_encode (s : CStruct) : ∀ (es : List Entry) (n : Nat) (f : Front),
    WellFormedAll es → InRangeAlternative s es n →
    ∃ f', formatAlternative s es n 0 f = some (f', (encodeAlternative s es n).length) ∧
      Adds f f' (encodeAlternative s es n) (NoStrings (fieldsAlternative s es n))
  | [], _, _, _, hr => hr.elim
  | e :: _, 0, f, hw, hr => format_encode s e f hw.1 hr
  | _ :: es, n + 1, f, hw, hr => formatAlternative_encode s es n f hw.2 hr

end

/-! ## How an encoding begins -/

theorem bare_constructor {tag : UInt8} (h : PlainTag tag) : bare (tag ||| constructor) = bare tag := by
  obtain ⟨tag⟩ := tag
  revert tag
  decide +kernel

mutual

/-- **An element that is in the PDU** begins with one of its tags. -/
theorem encode_head (s : CStruct) : ∀ e : Entry, e.WellFormed → InRange s e →
    e.info.present s = true → ∃ x xs, encode s e = x :: xs ∧ bare x ∈ e.tags
  | .integer i, _, _, hp => by
    unfold encode
    rw [if_pos (c := i.present s = true) hp]
    exact ⟨_, _, rfl, List.mem_singleton.2 rfl⟩
  | .bcdString i, _, _, hp => by
    unfold encode
    rw [if_pos (c := i.present s = true) hp]
    exact ⟨_, _, rfl, List.mem_singleton.2 rfl⟩
  | .octetString i, _, _, hp => by
    unfold encode
    rw [if_pos (c := i.present s = true) hp]
    exact ⟨_, _, rfl, List.mem_singleton.2 rfl⟩
  | .sequence i es, hw, _, hp => by
    unfold encode
    rw [if_pos (c := i.present s = true) hp]
    exact ⟨_, _, rfl, List.mem_singleton.2 (bare_constructor hw.1)⟩
  | .choice i es, hw, hr, hp => by
    unfold encode Entry.tags
    rw [if_pos (c := i.present s = true) hp]
    dsimp only
    split
    · exact encodeAlternative_head s es _ hw.2.2.2.2 hw.2.2.2.1 (hr hp)
    · exact ⟨_, _, rfl, List.mem_singleton.2 rfl⟩

theorem encodeAlternative_head (s : CStruct) : ∀ (es : List Entry) (n : Nat), WellFormedAll es →
    (∀ e ∈ es, e.info.existsOffset = none) → InRangeAlternative s es n →
    ∃ x xs, encodeAlternative s es n = x :: xs ∧ bare x ∈ Entry.tags.tagsAll es
  | [], _, _, _, hr => hr.elim
  | e :: es, 0, hw, hman, hr => by
    have hp : e.info.present s = true := by
      unfold Info.present
      rw [hman e List.mem_cons_self]
    obtain ⟨x, xs, henc, hx⟩ := encode_head s e hw.1 hr hp
    exact ⟨x, xs, henc, List.mem_append_left _ hx⟩
  | e :: es, n + 1, hw, hman, hr => by
    obtain ⟨x, xs, henc, hx⟩ :=
      encodeAlternative_head s es n hw.2 (fun e he => hman e (List.mem_cons_of_mem _ he)) hr
    exact ⟨x, xs, henc, List.mem_append_right _ hx⟩

end

/-- An element that is not in the PDU has no octets. -/
theorem encode_absent (hp : e.info.present s = false) : encode s e = [] := by
  have hp' : ¬e.info.present s = true := by
    rw [hp]
    exact Bool.false_ne_true
  cases e <;> exact if_neg hp'

theorem encode_eq_nil_iff (hw : e.WellFormed) (hr : InRange s e) :
    encode s e = [] ↔ e.info.present s = false := by
  constructor
  · intro hnil
    by_contra hp
    obtain ⟨x, xs, henc, -⟩ := encode_head s e hw hr (by simpa using hp)
    rw [hnil] at henc
    cases henc
  · exact encode_absent

/-- The octets of a sequence begin with a tag of one of its elements. -/
theorem encodeAll_head (hw : WellFormedAll es) (hr : InRangeAll s es) (hne : encodeAll s es ≠ []) :
    ∃ x xs, encodeAll s es = x :: xs ∧ bare x ∈ Entry.tags.tagsAll es := by
  induction es with
  | nil => exact absurd rfl hne
  | cons e es ih =>
    cases hp : e.info.present s with
    | true =>
      obtain ⟨x, xs, henc, hx⟩ := encode_head s e hw.1 hr.1 hp
      exact ⟨x, xs ++ encodeAll s es, by simp [encodeAll, henc], List.mem_append_left _ hx⟩
    | false =>
      have henc : encodeAll s (e :: es) = encodeAll s es := by simp [encodeAll, encode_absent hp]
      rw [henc] at hne ⊢
      obtain ⟨x, xs, henc, hx⟩ := ih hw.2 hr.2 hne
      exact ⟨x, xs, henc, List.mem_append_right _ hx⟩

end Asn
