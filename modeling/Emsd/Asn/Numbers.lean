import Emsd.Asn.RoundTrip

/-!
# Small PDUs of numbers (`asnber.c`, `buf.c`)

Results and errors are sequences of integers. The formatter puts such a PDU into one segment, when it is
small enough; the receiver makes a buffer of it by `BUF_alloc` and `BUF_appendChunk`, so that an empty
segment comes before the one that is read.

* `parse_ahead`: **segments in front of the current location** do not matter to the parser.
* `format_numbers`, `addOctets_alloc`: where the octets of a PDU of integers are.
* `parse_received`: the value that the receiver finds.
-/

namespace Asn

open Ocp

variable {s c : CStruct} {e : Entry} {es : List Entry} {b b' : Buf} {f : Front} {os : Octets}
  {longMax quota len : Nat}

/-! ## Segments in front -/

/-- A buffer with more segments in front of its own. -/
def ahead (pre : List Octets) (b : Buf) : Buf :=
  { b with segs := pre ++ b.segs, currentSeg := pre.length + b.currentSeg }

/-- A read, with the buffer that it leaves changed. -/
def overRead {α : Type} (φ : Buf → Buf) : Read α → Read α
  | .ok a b => .ok a (φ b)
  | .exhausted => .exhausted
  | .beyond => .beyond

/-- The same for a parser. -/
def overParse (φ : Buf → Buf) : Parse → Parse
  | .done b c used => .done (φ b) c used
  | .failed rc b c => .failed rc (φ b) c
  | .beyond => .beyond

theorem segs_ahead (pre : List Octets) (b : Buf) (n : Nat) :
    (ahead pre b).segs[(ahead pre b).currentSeg + n]? = b.segs[b.currentSeg + n]? := by
  unfold ahead
  dsimp only
  rw [Nat.add_assoc, List.getElem?_append_right (Nat.le_add_right _ _), Nat.add_sub_cancel_left]

theorem getOctet_ahead (pre : List Octets) (b : Buf) :
    (ahead pre b).getOctet = overRead (ahead pre) b.getOctet := by
  have hcur := segs_ahead pre b 0
  have hnext := segs_ahead pre b 1
  rw [Nat.add_zero, Nat.add_zero] at hcur
  have hpX : (ahead pre b).pX = b.pX := rfl
  unfold Buf.getOctet
  rw [hcur, hnext, hpX]
  cases b.segs[b.currentSeg]? with
  | none => rfl
  | some seg =>
    dsimp only
    split
    · cases b.segs[b.currentSeg + 1]? with
      | none => rfl
      | some next =>
        cases next with
        | nil => rfl
        | cons octet octets => rfl
    · cases seg[b.pX]? with
      | none => rfl
      | some octet => rfl

/-- An octet has been read in front of the location. -/
theorem getOctet_pX {octet : UInt8} (h : b.getOctet = .ok octet b') : b'.pX ≠ 0 := by
  unfold Buf.getOctet at h
  split at h
  · cases h
  · split at h
    · split at h
      · cases h
      · cases h
      · cases h
        exact Nat.one_ne_zero
    · split at h
      · cases h
      · cases h
        exact Nat.succ_ne_zero _

theorem ungetOctet_ahead (pre : List Octets) (h : b.pX ≠ 0) :
    (ahead pre b).ungetOctet = ahead pre b.ungetOctet := by
  have hpX : (ahead pre b).pX = b.pX := rfl
  unfold Buf.ungetOctet
  rw [hpX, if_neg h, if_neg h]
  rfl

theorem getChunk_ahead (pre : List Octets) (b : Buf) (len : Nat) :
    (ahead pre b).getChunk len = overRead (ahead pre) (b.getChunk len) := by
  have hdrop : (ahead pre b).segs.drop (ahead pre b).currentSeg = b.segs.drop b.currentSeg := by
    unfold ahead
    dsimp only
    rw [← List.drop_drop, List.drop_left]
  have hpX : (ahead pre b).pX = b.pX := rfl
  unfold Buf.getChunk
  rw [hdrop, hpX]
  cases Buf.skipSegs (b.segs.drop b.currentSeg) b.pX with
  | none => rfl
  | some r =>
    obtain ⟨skipped, x, octets⟩ := r
    simp [overRead, ahead, Nat.add_assoc]

theorem getString_ahead (pre : List Octets) (b : Buf) (len : Nat) :
    (ahead pre b).getString len = overRead (ahead pre) (b.getString len) := by
  have hgo : ∀ (fuel : Nat) (b : Buf) (len : Nat), Buf.getString.go fuel (ahead pre b) len =
      overRead (ahead pre) (Buf.getString.go fuel b len) := by
    intro fuel
    induction fuel with
    | zero => exact fun _ _ => rfl
    | succ fuel ih =>
      intro b len
      unfold Buf.getString.go
      split
      · rfl
      rw [getChunk_ahead]
      cases b.getChunk len with
      | exhausted => rfl
      | beyond => rfl
      | ok octets b₁ =>
        dsimp only [overRead]
        rw [ih]
        cases Buf.getString.go fuel b₁ (len - octets.length) with
        | exhausted => rfl
        | beyond => rfl
        | ok octets' b₂ => rfl
  exact hgo _ _ _

theorem getOctets_ahead (pre : List Octets) (n : Nat) (b : Buf) :
    getOctets n (ahead pre b) = overRead (ahead pre) (getOctets n b) := by
  induction n generalizing b with
  | zero => rfl
  | succ n ih =>
    unfold getOctets
    rw [getOctet_ahead]
    cases b.getOctet with
    | exhausted => rfl
    | beyond => rfl
    | ok octet b₁ =>
      dsimp only [overRead]
      rw [ih]
      cases getOctets n b₁ with
      | exhausted => rfl
      | beyond => rfl
      | ok octets b₂ => rfl

theorem andThen_over {α : Type} {r r' : Read α} {φ : Buf → Buf} {next : α → Buf → Parse}
    (hr : r' = overRead φ r) (hnext : ∀ a b', r = .ok a b' → next a (φ b') = overParse φ (next a b')) :
    andThen r' (φ b) c next = overParse φ (andThen r b c next) := by
  rw [hr]
  cases hread : r with
  | ok a b' => exact hnext a b' hread
  | exhausted => rfl
  | beyond => rfl

/-- What is parsed of an element does not depend on what is in front. -/
def Blind (pre : List Octets) (contents : Contents) : Prop :=
  ∀ b c len lengthOfLength, contents (ahead pre b) c len lengthOfLength =
    overParse (ahead pre) (contents b c len lengthOfLength)

theorem parseLength_ahead {pre : List Octets} {next : Nat → Nat → Buf → Parse}
    (h : ∀ len lengthOfLength b, next len lengthOfLength (ahead pre b) =
      overParse (ahead pre) (next len lengthOfLength b)) :
    parseLength (ahead pre b) c next = overParse (ahead pre) (parseLength b c next) := by
  unfold parseLength
  refine andThen_over (getOctet_ahead pre b) fun x b₁ _ => ?_
  split
  · exact andThen_over (getOctets_ahead pre _ b₁) fun octets b₂ _ => h _ _ b₂
  · exact h _ _ b₁

theorem Blind.tag {pre : List Octets} {contents : Contents} (h : Blind pre contents) (i : Info)
    (b : Buf) (c : CStruct) (quota : Nat) :
    parseTag i (ahead pre b) c quota contents =
      overParse (ahead pre) (parseTag i b c quota contents) := by
  unfold parseTag
  refine andThen_over (getOctet_ahead pre b) fun x b₁ hget => ?_
  rw [ungetOctet_ahead pre (getOctet_pX hget)]
  split
  · split <;> rfl
  · refine parseLength_ahead fun len lengthOfLength b₂ => ?_
    split
    · rfl
    · exact h b₂ _ len lengthOfLength

theorem Blind.element {pre : List Octets} {contents : Contents} (h : Blind pre contents) (i : Info)
    (b : Buf) (c : CStruct) (quota : Nat) :
    parseElement i (ahead pre b) c quota contents =
      overParse (ahead pre) (parseElement i b c quota contents) := by
  unfold parseElement
  split
  · exact h.tag i b c quota
  · exact h b c _ _

theorem parseInteger_blind (pre : List Octets) (i : Info) : Blind pre (parseInteger i) := by
  intro b c len lengthOfLength
  unfold parseInteger
  split
  · rfl
  · exact andThen_over (getOctets_ahead pre len b) fun _ _ _ => rfl

theorem parseString_blind (pre : List Octets) (i : Info) {store : Buf → CStruct → Octets → Nat → Parse}
    (h : ∀ b c octets used, store (ahead pre b) c octets used =
      overParse (ahead pre) (store b c octets used)) : Blind pre (parseString i store) := by
  intro b c len lengthOfLength
  unfold parseString
  split
  · rfl
  · refine andThen_over (getString_ahead pre b len) fun octets b₁ _ => ?_
    split
    · exact h b₁ c octets _
    · split <;> rfl

mutual

/-- **What is in front of the current location** does not matter to the parser. -/
theorem parse_ahead (longMax : Nat) (pre : List Octets) : ∀ (e : Entry) (b : Buf) (c : CStruct)
    (quota : Nat), parse longMax e (ahead pre b) c quota =
      overParse (ahead pre) (parse longMax e b c quota)
  | .integer i, b, c, quota => by
    unfold parse
    exact (parseInteger_blind pre i).element i b c quota
  | .bcdString i, b, c, quota => by
    unfold parse
    refine (parseString_blind pre i fun b c octets used => ?_).element i b c quota
    unfold storeBcdString
    cases bcdToString octets with
    | none => rfl
    | some str => rfl
  | .octetString i, b, c, quota => by
    unfold parse
    exact (parseString_blind pre i fun _ _ _ _ => rfl).element i b c quota
  | .sequence i es, b, c, quota => by
    have hcontents : Blind pre fun b c len lengthOfLength =>
        parseElements longMax es b c len (usedSoFar lengthOfLength + len) :=
      fun b c len _ => parseElements_ahead longMax pre es b c len _
    unfold parse
    exact hcontents.element i b c quota
  | .choice i es, b, c, quota => by
    have hcontents : Blind pre fun b c len lengthOfLength =>
        parseAlternatives longMax i es 0 .fail b c len (usedSoFar lengthOfLength) :=
      fun b c len _ => parseAlternatives_ahead longMax pre i es 0 .fail b c len _
    unfold parse
    dsimp only
    split
    · exact hcontents.tag i b c quota
    · exact hcontents b c _ _

theorem parseElements_ahead (longMax : Nat) (pre : List Octets) : ∀ (es : List Entry) (b : Buf)
    (c : CStruct) (len used : Nat), parseElements longMax es (ahead pre b) c len used =
      overParse (ahead pre) (parseElements longMax es b c len used)
  | [], _, _, _, _ => rfl
  | e :: es, b, c, len, used => by
    unfold parseElements
    split
    · rfl
    rw [parse_ahead longMax pre e b c len]
    cases parse longMax e b c len with
    | failed rc b₁ c₁ => rfl
    | beyond => rfl
    | done b₁ c₁ tempLen =>
      dsimp only [overParse]
      split
      · rfl
      · exact parseElements_ahead longMax pre es b₁ c₁ _ used

theorem parseAlternatives_ahead (longMax : Nat) (pre : List Octets) (i : Info) :
    ∀ (es : List Entry) (n : Nat) (rc : ReturnCode) (b : Buf) (c : CStruct) (len used : Nat),
    parseAlternatives longMax i es n rc (ahead pre b) c len used =
      overParse (ahead pre) (parseAlternatives longMax i es n rc b c len used)
  | [], _, _, _, _, _, _ => by
    unfold parseAlternatives
    split <;> rfl
  | e :: es, n, _, b, c, len, used => by
    unfold parseAlternatives
    rw [parse_ahead longMax pre e b c len]
    cases parse longMax e b c len with
    | beyond => rfl
    | done b₁ c₁ tempLen =>
      dsimp only [overParse]
      split <;> rfl
    | failed rc b₁ c₁ =>
      cases rc with
      | wrongTag => exact parseAlternatives_ahead longMax pre i es (n + 1) .wrongTag b₁ c₁ len used
      | _ => rfl

end

theorem rest_ahead (pre : List Octets) (b : Buf) : (ahead pre b).rest = b.rest := by
  unfold ahead Buf.rest
  dsimp only
  rw [← List.drop_drop, List.drop_left]

/-! ## Numbers -/

mutual

/-- An integer, or a sequence of such elements; each has a tag, and none is optional. The elements of a
sequence may have the same tag. -/
def Entry.Numeric : Entry → Prop
  | .integer i => PlainTag i.tag ∧ i.existsOffset = none
  | .sequence i es => PlainTag i.tag ∧ i.existsOffset = none ∧ NumericAll es
  | .bcdString _ | .octetString _ | .choice _ _ => False

def NumericAll : List Entry → Prop
  | [] => True
  | e :: es => e.Numeric ∧ NumericAll es

end

theorem present_of_mandatory {i : Info} (h : i.existsOffset = none) : i.present s = true := by
  unfold Info.present
  rw [h]

theorem flag_of_mandatory {i : Info} (h : i.existsOffset = none) : i.flag = [] := by
  unfold Info.flag
  rw [h]
  rfl

theorem setExists_of_mandatory {i : Info} (h : i.existsOffset = none) : c.setExists i true = c := by
  unfold CStruct.setExists
  rw [h]

theorem encode_integer {i : Info} (h : i.existsOffset = none) :
    encode s (.integer i) = tlv i.tag (integerOctets (s.uint32 i.dataOffset)) :=
  if_pos (present_of_mandatory h)

theorem encode_sequence {i : Info} (h : i.existsOffset = none) :
    encode s (.sequence i es) = tlv (i.tag ||| constructor) (encodeAll s es) :=
  if_pos (present_of_mandatory h)

theorem fields_integer {i : Info} (h : i.existsOffset = none) :
    fields s (.integer i) = [.uint32 i.dataOffset] := by
  unfold fields
  rw [flag_of_mandatory h, if_pos (present_of_mandatory h)]
  rfl

theorem fields_sequence {i : Info} (h : i.existsOffset = none) :
    fields s (.sequence i es) = fieldsAll s es := by
  unfold fields
  rw [flag_of_mandatory h, if_pos (present_of_mandatory h)]
  rfl

theorem encode_numbers_ne_nil : ∀ e : Entry, e.Numeric → encode s e ≠ []
  | .integer _, hn => by
    rw [encode_integer hn.2]
    exact List.cons_ne_nil _ _
  | .sequence _ _, hn => by
    rw [encode_sequence hn.2.1]
    exact List.cons_ne_nil _ _
  | .bcdString _, hn | .octetString _, hn | .choice _ _, hn => hn.elim

/-! ## Formatting -/

theorem addOctets_append (f : Front) (os os' : Octets) :
    addOctets (addOctets f os) os' = addOctets f (os' ++ os) :=
  (List.foldr_append).symm

theorem addTag_octets {tag : UInt8} (htag : tag ≠ 0) (f : Front) (data : Octets) :
    addTag tag (addOctets f data) data.length =
      (addOctets f (tlv tag data), (tlv tag data).length) := by
  unfold addTag
  rw [if_pos htag, formatLength_eq]
  refine Prod.ext ?_ ?_
  · dsimp only
    rw [addOctets_append]
    rfl
  · simp only [tlv, List.length_cons, List.length_append]
    omega

mutual

/-- **Formatting numbers** is a run of `BUF_addOctet`. -/
theorem format_numbers (s : CStruct) : ∀ (e : Entry) (f : Front), e.Numeric →
    format s e e.info.tag f = some (addOctets f (encode s e), (encode s e).length)
  | .integer i, f, hn => by
    unfold format
    rw [if_pos (present_of_mandatory hn.2), encode_integer hn.2]
    dsimp only
    rw [← integerOctets_length]
    exact congrArg some (addTag_octets hn.1.1 f _)
  | .sequence i es, f, hn => by
    unfold format
    rw [if_pos (present_of_mandatory hn.2.1), encode_sequence hn.2.1,
      formatElements_numbers s es f hn.2.2]
    exact congrArg some (addTag_octets (or_constructor_ne_zero i.tag) f _)
  | .bcdString _, _, hn | .octetString _, _, hn | .choice _ _, _, hn => hn.elim

theorem formatElements_numbers (s : CStruct) : ∀ (es : List Entry) (f : Front), NumericAll es →
    formatElements s es f = some (addOctets f (encodeAll s es), (encodeAll s es).length)
  | [], _, _ => rfl
  | e :: es, f, hn => by
    unfold formatElements encodeAll
    rw [formatElements_numbers s es f hn.2]
    simp only [Option.bind_eq_bind, Option.bind_some]
    rw [format_numbers s e _ hn.1, addOctets_append, List.length_append, Nat.add_comm]
    rfl

end

/-- Octets that fit into one segment. -/
theorem addOctets_alloc (h : os.length ≤ bufMinDataArea) :
    addOctets (Front.alloc 0) os =
      if os = [] then Front.alloc 0 else ⟨[os, []], bufMinDataArea - os.length⟩ := by
  induction os with
  | nil => rfl
  | cons octet os ih =>
    rw [List.length_cons] at h
    have hcons : addOctets (Front.alloc 0) (octet :: os) =
        (addOctets (Front.alloc 0) os).addOctet octet := rfl
    rw [if_neg (List.cons_ne_nil _ _), hcons, ih (by omega)]
    split
    · rename_i hnil
      rw [hnil]
      rfl
    · have hroom : bufMinDataArea - os.length ≠ 0 := by omega
      unfold Front.addOctet
      dsimp only
      rw [if_neg hroom, List.length_cons, Nat.sub_add_eq]
      rfl

/-! ## Parsing -/

mutual

/-- **Parsing numbers** writes each of them to its place. -/
theorem parse_numbers (longMax : Nat) (s : CStruct) : ∀ (e : Entry) (b : Buf) (c : CStruct)
    (quota : Nat) (tail : Octets), e.Numeric → b.Solid → b.Holds (encode s e ++ tail) →
    (encode s e).length ≤ quota → (encode s e).length ≤ noLength →
    Yields True b (parse longMax e b c quota) (takeAll longMax s c (fields s e)) (encode s e).length
      tail
  | .integer i, b, c, quota, tail, hn, hs, hb, hq, hfit => by
    rw [encode_integer hn.2] at hb hq hfit ⊢
    rw [fields_integer hn.2]
    unfold parse parseElement
    rw [if_pos hn.1.1]
    refine tagged_yields (fun _ => hs) hb rfl hq hfit fun b₁ hsegs₁ hb₁ => ?_
    rw [tlv_length, setExists_of_mandatory hn.2]
    exact parseInteger_yields (solid_of_segs (fun _ : True => hs) hsegs₁) hb₁
  | .sequence i es, b, c, quota, tail, hn, hs, hb, hq, hfit => by
    rw [encode_sequence hn.2.1] at hb hq hfit ⊢
    rw [fields_sequence hn.2.1]
    unfold parse parseElement
    rw [if_pos hn.1.1]
    refine tagged_yields (fun _ => hs) hb (bare_constructor hn.1) hq hfit fun b₁ hsegs₁ hb₁ => ?_
    have hs₁ : b₁.Solid := solid_of_segs (fun _ : True => hs) hsegs₁ trivial
    rw [tlv_length] at hfit ⊢
    rw [setExists_of_mandatory hn.2.1]
    exact parseElements_numbers longMax s es b₁ c _ tail hn.2.2 hs₁ hb₁ (by omega)
  | .bcdString _, _, _, _, _, hn, _, _, _, _ | .octetString _, _, _, _, _, hn, _, _, _, _
  | .choice _ _, _, _, _, _, hn, _, _, _, _ => hn.elim

theorem parseElements_numbers (longMax : Nat) (s : CStruct) : ∀ (es : List Entry) (b : Buf)
    (c : CStruct) (used : Nat) (tail : Octets), NumericAll es → b.Solid →
    b.Holds (encodeAll s es ++ tail) → (encodeAll s es).length ≤ noLength →
    Yields True b (parseElements longMax es b c (encodeAll s es).length used)
      (takeAll longMax s c (fieldsAll s es)) used tail
  | [], b, c, used, tail, _, _, hb, _ => .inr ⟨b, rfl, hb, rfl⟩
  | e :: es, b, c, used, tail, hn, hs, hb, hfit => by
    have hcons : encodeAll s (e :: es) = encode s e ++ encodeAll s es := rfl
    have hpos : 0 < (encode s e).length := List.length_pos_iff.2 (encode_numbers_ne_nil e hn.1)
    rw [hcons, List.length_append] at hfit ⊢
    rw [hcons, List.append_assoc] at hb
    unfold parseElements
    rw [if_neg (by omega)]
    rcases parse_numbers longMax s e b c ((encode s e).length + (encodeAll s es).length) _ hn.1 hs hb
        (Nat.le_add_right _ _) (by omega) with ⟨hnot, -⟩ | ⟨b₁, hdone, hb₁, hsegs₁⟩
    · exact absurd trivial hnot
    have hs₁ : b₁.Solid := solid_of_segs (fun _ : True => hs) hsegs₁ trivial
    have hfields : fieldsAll s (e :: es) = fields s e ++ fieldsAll s es := rfl
    rw [hdone]
    dsimp only
    rw [if_neg (by omega), Nat.add_sub_cancel_left, hfields, takeAll_append]
    exact (parseElements_numbers longMax s es b₁ _ used tail hn.2 hs₁ hb₁ (by omega)).of_segs hsegs₁

end

mutual

theorem fields_numbers (s : CStruct) : ∀ e : Entry, e.Numeric →
    ∀ fld ∈ fields s e, ∃ o, fld = .uint32 o
  | .integer i, hn, fld, hfld => by
    rw [fields_integer hn.2] at hfld
    exact ⟨_, List.mem_singleton.1 hfld⟩
  | .sequence i es, hn, fld, hfld => by
    rw [fields_sequence hn.2.1] at hfld
    exact fieldsAll_numbers s es hn.2.2 fld hfld
  | .bcdString _, hn, _, _ | .octetString _, hn, _, _ | .choice _ _, hn, _, _ => hn.elim

theorem fieldsAll_numbers (s : CStruct) : ∀ es : List Entry, NumericAll es →
    ∀ fld ∈ fieldsAll s es, ∃ o, fld = .uint32 o
  | [], _, fld, hfld => absurd hfld List.not_mem_nil
  | e :: es, hn, fld, hfld => by
    rcases List.mem_append.1 hfld with h | h
    · exact fields_numbers s e hn.1 fld h
    · exact fieldsAll_numbers s es hn.2 fld h

end

/-- `viewToBuf` of both agents: the segment that `BUF_alloc` makes stays empty, and the one that
`BUF_appendChunk` appends becomes the current one. -/
def viewToBuf (view : Octets) : Buf := ⟨[[], view], 1, 0⟩

/-- **What the receiver finds** in a data unit with the octets of numbers: the numbers. -/
theorem parse_received (longMax : Nat) (t : CStruct) (hn : e.Numeric)
    (hfit : (encode s e).length ≤ noLength) :
    ∃ b c, parse longMax e (viewToBuf (encode s e)) t (encode s e).length =
        .done b c (encode s e).length ∧ b.rest = [] ∧ ∀ fld ∈ fields s e, fld.Same s c := by
  have hsolid : (⟨[encode s e], 0, 0⟩ : Buf).Solid := fun seg hseg => absurd hseg List.not_mem_nil
  have hholds : (⟨[encode s e], 0, 0⟩ : Buf).Holds (encode s e ++ []) :=
    ⟨fun _ _ => Nat.zero_le _, rfl⟩
  rcases parse_numbers longMax s e _ t (encode s e).length [] hn hsolid hholds (Nat.le_refl _) hfit with
    ⟨hnot, -⟩ | ⟨b, hdone, hb, -⟩
  · exact absurd trivial hnot
  refine ⟨ahead [[]] b, takeAll longMax s t (fields s e), ?_, (rest_ahead _ _).trans hb.rest, ?_⟩
  · have hahead := parse_ahead longMax [[]] e ⟨[encode s e], 0, 0⟩ t (encode s e).length
    rw [hdone] at hahead
    exact hahead
  · intro fld hfld
    obtain ⟨o, rfl⟩ := fields_numbers s e hn fld hfld
    have hplace : ∀ fld' ∈ fields s e, fld'.offset = Field.offset (.uint32 o) → fld' = .uint32 o := by
      intro fld' hfld' ho
      obtain ⟨o', rfl⟩ := fields_numbers s e hn fld' hfld'
      exact congrArg _ ho
    rw [same_takeAll hplace, if_pos hfld]
    trivial

end Asn
