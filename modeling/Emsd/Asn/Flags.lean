import Mathlib
import Emsd.Asn.Elements

/-!
# The flags that the parser writes (`asnber.c`)

* `parse_tracks`: what the parser does with its input does not depend on the structure. It writes
  no flags but those of the tree, and what it makes of one depends on that one only.
-/

namespace Asn

open Ocp

variable {b b' : Buf} {c c₂ c' c₂' c'' c₂'' : CStruct} {F G : Set Nat}
  {i : Info} {len lengthOfLength used quota base longMax : Nat}

/-! ## The places of the flags -/

/-- The flag of an element, if it is optional. -/
def Info.ownFlag (i : Info) : Set Nat := {o | i.existsOffset = some o}

namespace Element

mutual

/-- The flags of an element and of the elements inside. -/
def flags : Element → Set Nat
  | .integer i => i.ownFlag
  | .bitString i => i.ownFlag
  | .bcdString i => i.ownFlag
  | .octetString i => i.ownFlag
  | .sequence i es => i.ownFlag ∪ flagsOfAll es
  | .sequenceOf i elementSize e =>
    i.ownFlag ∪ {o | ∃ j < i.maxDataLength, ∃ p ∈ flags e, o = j * elementSize + p}
  | .choice i es => i.ownFlag ∪ flagsOfAll es
  | .buffer i => i.ownFlag
  | .other i => i.ownFlag

def flagsOfAll : List Element → Set Nat
  | [] => ∅
  | e :: es => flags e ∪ flagsOfAll es

end

mutual

/-- **Every flag has a place of its own**: the compile functions take the addresses of different
members, and those of different elements of an array. -/
def Apart : Element → Prop
  | .sequence i es => Disjoint i.ownFlag (flagsOfAll es) ∧ ApartAll es
  | .sequenceOf i elementSize e =>
    Disjoint i.ownFlag {o | ∃ j < i.maxDataLength, ∃ p ∈ flags e, o = j * elementSize + p} ∧ Apart e ∧
      ∀ j < i.maxDataLength, ∀ j' < i.maxDataLength, ∀ p ∈ flags e, ∀ p' ∈ flags e,
        j * elementSize + p = j' * elementSize + p' → j = j'
  | .choice i es => Disjoint i.ownFlag (flagsOfAll es) ∧ ApartAll es
  | .integer _ => True
  | .bitString _ => True
  | .bcdString _ => True
  | .octetString _ => True
  | .buffer _ => True
  | .other _ => True

def ApartAll : List Element → Prop
  | [] => True
  | e :: es => Disjoint (flags e) (flagsOfAll es) ∧ Apart e ∧ ApartAll es

end

end Element

/-- Places in the structure at `pCStruct`. -/
def placesAt (pCStruct : Nat) (offsets : Set Nat) : Set Nat := {o | ∃ p ∈ offsets, o = pCStruct + p}

theorem placesAt_union (base : Nat) (F G : Set Nat) :
    placesAt base (F ∪ G) = placesAt base F ∪ placesAt base G := by
  ext o
  constructor
  · rintro ⟨p, hp | hp, rfl⟩
    · exact .inl ⟨p, hp, rfl⟩
    · exact .inr ⟨p, hp, rfl⟩
  · rintro (⟨p, hp, rfl⟩ | ⟨p, hp, rfl⟩)
    · exact ⟨p, .inl hp, rfl⟩
    · exact ⟨p, .inr hp, rfl⟩

theorem placesAt_disjoint (h : Disjoint F G) : Disjoint (placesAt base F) (placesAt base G) := by
  rw [Set.disjoint_left] at h ⊢
  rintro o ⟨p, hp, rfl⟩ ⟨q, hq, heq⟩
  have hpq : p = q := Nat.add_left_cancel heq
  exact h hp (hpq ▸ hq)

theorem flag_at (i : Info) (base : Nat) : (i.at base).ownFlag = placesAt base i.ownFlag := by
  ext o
  constructor
  · intro ho
    obtain ⟨p, hp, rfl⟩ := Option.map_eq_some_iff.1 ho
    exact ⟨p, hp, rfl⟩
  · rintro ⟨p, hp, rfl⟩
    exact Option.map_eq_some_iff.2 ⟨p, hp, rfl⟩

/-! ## Two runs -/

/-- What happens to the flags of two structures: places outside `F` are left alone, and places that
agree go on to agree. -/
structure Moves (F : Set Nat) (c c₂ c' c₂' : CStruct) : Prop where
  frame : ∀ o ∉ F, c'.boolean o = c.boolean o
  agree : ∀ o, c.boolean o = c₂.boolean o → c'.boolean o = c₂'.boolean o

theorem Moves.refl : Moves F c c₂ c c₂ := ⟨fun _ _ => rfl, fun _ h => h⟩

theorem Moves.trans (h : Moves F c c₂ c' c₂') (h' : Moves G c' c₂' c'' c₂'') :
    Moves (F ∪ G) c c₂ c'' c₂'' := by
  refine ⟨fun o ho => ?_, fun o ho => h'.agree o (h.agree o ho)⟩
  rw [h'.frame o fun hg => ho (.inr hg), h.frame o fun hf => ho (.inl hf)]

theorem Moves.mono (h : Moves F c c₂ c' c₂') (hsub : F ⊆ G) : Moves G c c₂ c' c₂' :=
  ⟨fun o ho => h.frame o fun hf => ho (hsub hf), h.agree⟩

theorem Moves.setBoolean {o : Nat} (v : Bool) (ho : o ∈ F) :
    Moves F c c₂ (c.setBoolean o v) (c₂.setBoolean o v) := by
  refine ⟨fun p hp => ?_, fun p hp => ?_⟩
  · have hne : p ≠ o := fun heq => hp (heq ▸ ho)
    exact Function.update_of_ne hne v c.boolean
  by_cases heq : p = o
  · subst heq
    simp [CStruct.setBoolean]
  · simp [CStruct.setBoolean, heq, hp]

theorem Moves.setExists (v : Bool) : Moves i.ownFlag c c₂ (c.setExists i v) (c₂.setExists i v) := by
  cases ho : i.existsOffset with
  | none =>
    simp only [CStruct.setExists, ho]
    exact .refl
  | some o =>
    simp only [CStruct.setExists, ho]
    exact .setBoolean v ho

/-- The results of two runs. -/
inductive Parse.Tracks (F : Set Nat) (c c₂ : CStruct) : Parse → Parse → Prop
  | done {b : Buf} {c' c₂' : CStruct} {used : Nat} : Moves F c c₂ c' c₂' →
    Tracks F c c₂ (.done b c' used) (.done b c₂' used)
  | failed {rc : ReturnCode} {b : Buf} {c' c₂' : CStruct} : Moves F c c₂ c' c₂' →
    Tracks F c c₂ (.failed rc b c') (.failed rc b c₂')
  | beyond : Tracks F c c₂ .beyond .beyond

theorem Parse.Tracks.mono {r r₂ : Parse} (h : Tracks F c c₂ r r₂) (hsub : F ⊆ G) :
    Tracks G c c₂ r r₂ := by
  cases h with
  | done h => exact .done (h.mono hsub)
  | failed h => exact .failed (h.mono hsub)
  | beyond => exact .beyond

/-- What is done behind a step that has moved the flags. -/
theorem Parse.Tracks.after {r r₂ : Parse} (h : Moves F c c₂ c' c₂') (h' : Tracks G c' c₂' r r₂) :
    Tracks (F ∪ G) c c₂ r r₂ := by
  cases h' with
  | done h' => exact .done (h.trans h')
  | failed h' => exact .failed (h.trans h')
  | beyond => exact .beyond

inductive Header.Tracks (F : Set Nat) (c c₂ : CStruct) : Header → Header → Prop
  | found {b : Buf} {c' c₂' : CStruct} {len lengthOfLength : Nat} : Moves F c c₂ c' c₂' →
    Tracks F c c₂ (.found b c' len lengthOfLength) (.found b c₂' len lengthOfLength)
  | absent {b : Buf} {c' c₂' : CStruct} : Moves F c c₂ c' c₂' →
    Tracks F c c₂ (.absent b c') (.absent b c₂')
  | stop {r r₂ : Parse} : Parse.Tracks F c c₂ r r₂ → Tracks F c c₂ (.stop r) (.stop r₂)

theorem header_tracks (tagged : Bool) :
    Header.Tracks i.ownFlag c c₂ (header tagged i b c quota) (header tagged i b c₂ quota) := by
  unfold header
  split
  · exact .found .refl
  cases b.getOctet with
  | exhausted => exact .stop (.failed .refl)
  | beyond => exact .stop .beyond
  | ok x b =>
    dsimp only
    split
    · -- another tag
      cases ho : i.existsOffset with
      | none => exact .stop (.failed .refl)
      | some o => exact .absent (.setBoolean false ho)
    cases getLength b with
    | exhausted => exact .stop (.failed (.setExists true))
    | beyond => exact .stop .beyond
    | ok r b =>
      dsimp only
      split
      · exact .stop (.failed (.setExists true))
      · exact .found (.setExists true)

/-- Contents, for two structures. -/
def Tracked (G : Set Nat) (contents contents₂ : Contents) : Prop :=
  ∀ b c c₂ len lengthOfLength,
    Parse.Tracks G c c₂ (contents b c len lengthOfLength) (contents₂ b c₂ len lengthOfLength)

theorem Header.Tracks.parse {h h₂ : Header} {contents contents₂ : Contents}
    (hh : Header.Tracks F c c₂ h h₂) (hc : Tracked G contents contents₂) :
    Parse.Tracks (F ∪ G) c c₂ (h.parse contents) (h₂.parse contents₂) := by
  cases hh with
  | found hm => exact .after hm (hc _ _ _ _ _)
  | absent hm => exact .done (hm.mono Set.subset_union_left)
  | stop hr => exact hr.mono Set.subset_union_left

/-- Data is written elsewhere. -/
theorem Moves.of_boolean (h : c'.boolean = c.boolean) (h₂ : c₂'.boolean = c₂.boolean) :
    Moves F c c₂ c' c₂' :=
  ⟨fun o _ => congrFun h o, fun o ho => by rw [h, h₂, ho]⟩

theorem parseInteger_tracked : Tracked G (parseInteger i) (parseInteger i) := by
  intro b c c₂ len lengthOfLength
  unfold parseInteger
  split
  · exact .failed .refl
  cases getOctets len b with
  | exhausted => exact .failed .refl
  | beyond => exact .beyond
  | ok octets b => exact .done (.of_boolean rfl rfl)

theorem parseBitString_tracked : Tracked G (parseBitString i) (parseBitString i) := by
  intro b c c₂ len lengthOfLength
  unfold parseBitString
  split
  · exact .failed .refl
  cases b.getOctet with
  | exhausted => exact .failed .refl
  | beyond => exact .beyond
  | ok unusedBits b =>
    dsimp only [andThen]
    split
    · exact .failed .refl
    split
    · exact .done (.of_boolean rfl rfl)
    · exact .failed .refl
    · exact .beyond

theorem parseString_tracked {store : Buf → CStruct → Octets → Nat → Parse}
    (hs : ∀ b c c₂ octets used, Parse.Tracks G c c₂ (store b c octets used) (store b c₂ octets used)) :
    Tracked G (parseString i store) (parseString i store) := by
  intro b c c₂ len lengthOfLength
  unfold parseString
  split
  · exact .failed .refl
  cases b.getString len with
  | exhausted => exact .failed .refl
  | beyond => exact .beyond
  | ok octets b =>
    dsimp only [andThen]
    split
    · exact hs _ _ _ _ _
    split
    · exact .beyond
    · exact .failed .refl

theorem storeOctetString_tracks (b : Buf) (c c₂ : CStruct) (octets : Octets) (used : Nat) :
    Parse.Tracks G c c₂ (storeOctetString i b c octets used) (storeOctetString i b c₂ octets used) :=
  .done (.of_boolean rfl rfl)

theorem storeBcdString_tracks (b : Buf) (c c₂ : CStruct) (octets : Octets) (used : Nat) :
    Parse.Tracks G c c₂ (storeBcdString longMax i b c octets used)
      (storeBcdString longMax i b c₂ octets used) := by
  unfold storeBcdString
  split
  · exact .beyond
  · exact .done (.of_boolean rfl rfl)

theorem parseBuffer_tracked : Tracked G (parseBuffer i) (parseBuffer i) :=
  fun _ _ _ _ _ => .done (.of_boolean rfl rfl)

/-- The loop over the elements of a sequence-of writes the flags of each. -/
theorem parseSequenceOf_tracks {parse : Parser} {elementSize : Nat} {S : Set Nat}
    (hparse : ∀ base b c c₂ len,
      Parse.Tracks (placesAt base S) c c₂ (parse base b c len) (parse base b c₂ len)) (n : Nat) :
    ∀ (base : Nat) (b : Buf) (c c₂ : CStruct) (len : Nat),
      Parse.Tracks (placesAt base {o | ∃ j < n, ∃ p ∈ S, o = j * elementSize + p}) c c₂
        (parseSequenceOf parse i elementSize used n base b c len)
        (parseSequenceOf parse i elementSize used n base b c₂ len) := by
  induction n with
  | zero =>
    intro base b c c₂ len
    unfold parseSequenceOf
    split
    · exact .done .refl
    · exact .failed .refl
  | succ n ih =>
    intro base b c c₂ len
    unfold parseSequenceOf
    -- the first element, and those behind it
    have hfirst : placesAt base S ⊆
        placesAt base {o | ∃ j < n + 1, ∃ p ∈ S, o = j * elementSize + p} := by
      rintro o ⟨p, hp, rfl⟩
      exact ⟨p, ⟨0, Nat.succ_pos n, p, hp, by rw [Nat.zero_mul, Nat.zero_add]⟩, rfl⟩
    have hothers : placesAt (base + elementSize) {o | ∃ j < n, ∃ p ∈ S, o = j * elementSize + p} ⊆
        placesAt base {o | ∃ j < n + 1, ∃ p ∈ S, o = j * elementSize + p} := by
      rintro o ⟨q, ⟨j, hj, p, hp, rfl⟩, rfl⟩
      refine ⟨(j + 1) * elementSize + p, ⟨j + 1, Nat.succ_lt_succ hj, p, hp, rfl⟩, ?_⟩
      rw [Nat.succ_mul]
      omega
    split
    · exact .done .refl
    generalize hr : parse base b c len = r
    generalize hr₂ : parse base b c₂ len = r₂
    have htracks := hparse base b c c₂ len
    rw [hr, hr₂] at htracks
    cases htracks with
    | beyond => exact .beyond
    | failed hm => exact .failed (hm.mono hfirst)
    | done hm =>
      dsimp only
      split
      · exact .failed (hm.mono hfirst)
      · have hset : ∀ d d₂ : CStruct, Moves ∅ d d₂
            (d.setUint32 i.dataOffset (UInt32.ofNat (i.maxDataLength - n)))
            (d₂.setUint32 i.dataOffset (UInt32.ofNat (i.maxDataLength - n))) :=
          fun d d₂ => .of_boolean rfl rfl
        have hcount := hm.trans (hset _ _)
        rw [Set.union_empty] at hcount
        refine (Parse.Tracks.after hcount (ih (base + elementSize) _ _ _ _)).mono ?_
        exact Set.union_subset hfirst hothers

/-! ## The flags of an element -/

mutual

/-- **The parser and the structure**: what an element is taken for does not depend on what is in the
structure, and the flags that it writes are its own. -/
theorem parse_tracks (longMax : Nat) : ∀ (e : Element) (base : Nat) (b : Buf) (c c₂ : CStruct)
    (quota : Nat), Parse.Tracks (placesAt base e.flags) c c₂ (e.parse longMax base b c quota)
      (e.parse longMax base b c₂ quota)
  | .integer i, base, b, c, c₂, quota => by
    unfold Element.parse Element.flags
    rw [← flag_at]
    exact ((header_tracks _).parse (parseInteger_tracked (G := ∅))).mono
      (Set.union_subset Set.Subset.rfl (Set.empty_subset _))
  | .bitString i, base, b, c, c₂, quota => by
    unfold Element.parse Element.flags
    rw [← flag_at]
    exact ((header_tracks _).parse (parseBitString_tracked (G := ∅))).mono
      (Set.union_subset Set.Subset.rfl (Set.empty_subset _))
  | .bcdString i, base, b, c, c₂, quota => by
    unfold Element.parse Element.flags
    rw [← flag_at]
    exact ((header_tracks _).parse (parseString_tracked (G := ∅) storeBcdString_tracks)).mono
      (Set.union_subset Set.Subset.rfl (Set.empty_subset _))
  | .octetString i, base, b, c, c₂, quota => by
    unfold Element.parse Element.flags
    rw [← flag_at]
    exact ((header_tracks _).parse (parseString_tracked (G := ∅) storeOctetString_tracks)).mono
      (Set.union_subset Set.Subset.rfl (Set.empty_subset _))
  | .sequence i es, base, b, c, c₂, quota => by
    unfold Element.parse Element.flags
    rw [placesAt_union, ← flag_at]
    exact (header_tracks _).parse fun b c c₂ len lengthOfLength =>
      parseElements_tracks longMax es base b c c₂ len _
  | .sequenceOf i elementSize e, base, b, c, c₂, quota => by
    unfold Element.parse Element.flags
    rw [placesAt_union, ← flag_at]
    refine (header_tracks _).parse fun b c c₂ len lengthOfLength => ?_
    have hcount : Moves ∅ c c₂ (c.setUint32 (i.at base).dataOffset 0)
        (c₂.setUint32 (i.at base).dataOffset 0) := .of_boolean rfl rfl
    refine (Parse.Tracks.after hcount (parseSequenceOf_tracks
      (fun base b c c₂ len => parse_tracks longMax e base b c c₂ len) _ _ _ _ _ _)).mono ?_
    rw [Set.empty_union]
  | .choice i es, base, b, c, c₂, quota => by
    unfold Element.parse Element.flags
    rw [placesAt_union, ← flag_at]
    have hcontents : Tracked ((i.at base).ownFlag ∪ placesAt base (Element.flagsOfAll es))
        (fun b c len lengthOfLength => Element.parseAlternatives longMax (i.at base) es base 0 .fail b c
          len (usedSoFar lengthOfLength)) (fun b c len lengthOfLength =>
            Element.parseAlternatives longMax (i.at base) es base 0 .fail b c len
              (usedSoFar lengthOfLength)) :=
      fun b c c₂ len lengthOfLength =>
        parseAlternatives_tracks longMax (i.at base) es base 0 .fail b c c₂ len _
    exact ((header_tracks _).parse hcontents).mono
      (Set.union_subset Set.subset_union_left Set.Subset.rfl)
  | .buffer i, base, b, c, c₂, quota => by
    unfold Element.parse Element.flags
    rw [← flag_at]
    exact ((header_tracks _).parse (parseBuffer_tracked (G := ∅))).mono
      (Set.union_subset Set.Subset.rfl (Set.empty_subset _))
  | .other i, base, b, c, c₂, quota => by
    unfold Element.parse Element.flags
    rw [← flag_at]
    have hcontents : Tracked ∅ (fun b c _ _ => .failed .programmerError b c)
        (fun b c _ _ => .failed .programmerError b c) := fun _ _ _ _ _ => .failed .refl
    exact ((header_tracks _).parse hcontents).mono
      (Set.union_subset Set.Subset.rfl (Set.empty_subset _))

theorem parseElements_tracks (longMax : Nat) : ∀ (es : List Element) (base : Nat) (b : Buf)
    (c c₂ : CStruct) (len used : Nat), Parse.Tracks (placesAt base (Element.flagsOfAll es)) c c₂
      (Element.parseElements longMax es base b c len used)
      (Element.parseElements longMax es base b c₂ len used)
  | [], base, b, c, c₂, len, used => by
    unfold Element.parseElements
    exact .done .refl
  | e :: es, base, b, c, c₂, len, used => by
    unfold Element.parseElements Element.flagsOfAll
    rw [placesAt_union]
    split
    · exact .done .refl
    generalize hr : e.parse longMax base b c len = r
    generalize hr₂ : e.parse longMax base b c₂ len = r₂
    have htracks := parse_tracks longMax e base b c c₂ len
    rw [hr, hr₂] at htracks
    cases htracks with
    | beyond => exact .beyond
    | failed hm => exact .failed (hm.mono Set.subset_union_left)
    | done hm =>
      dsimp only
      split
      · exact .failed (hm.mono Set.subset_union_left)
      · exact .after hm (parseElements_tracks longMax es base _ _ _ _ used)

theorem parseAlternatives_tracks (longMax : Nat) (i : Info) : ∀ (es : List Element) (base n : Nat)
    (rc : ReturnCode) (b : Buf) (c c₂ : CStruct) (len used : Nat),
      Parse.Tracks (i.ownFlag ∪ placesAt base (Element.flagsOfAll es)) c c₂
        (Element.parseAlternatives longMax i es base n rc b c len used)
        (Element.parseAlternatives longMax i es base n rc b c₂ len used)
  | [], base, n, rc, b, c, c₂, len, used => by
    unfold Element.parseAlternatives
    cases ho : i.existsOffset with
    | none => exact .failed .refl
    | some o => exact .done (.setBoolean false (.inl ho))
  | e :: es, base, n, rc, b, c, c₂, len, used => by
    unfold Element.parseAlternatives Element.flagsOfAll
    rw [placesAt_union]
    have hself : placesAt base e.flags ⊆
        i.ownFlag ∪ (placesAt base e.flags ∪ placesAt base (Element.flagsOfAll es)) :=
      Set.subset_union_left.trans Set.subset_union_right
    generalize hr : e.parse longMax base b c len = r
    generalize hr₂ : e.parse longMax base b c₂ len = r₂
    have htracks := parse_tracks longMax e base b c c₂ len
    rw [hr, hr₂] at htracks
    cases htracks with
    | beyond => exact .beyond
    | @failed rc' b₁ c' c₂' hm =>
      by_cases hrc : rc' = .wrongTag
      · subst hrc
        refine (Parse.Tracks.after hm
          (parseAlternatives_tracks longMax i es base (n + 1) .wrongTag b₁ c' c₂' len used)).mono ?_
        refine Set.union_subset hself (Set.union_subset Set.subset_union_left ?_)
        exact Set.subset_union_right.trans Set.subset_union_right
      · cases rc' <;> first | exact .failed (hm.mono hself) | exact absurd rfl hrc
    | done hm =>
      dsimp only
      split
      · exact .failed (hm.mono hself)
      · -- the alternative is taken
        have hset := hm.trans (Moves.setExists (i := i) true)
        have hsel : ∀ d d₂ : CStruct, Moves ∅ d d₂ (d.setSelector i.dataOffset (UInt8.ofNat n))
            (d₂.setSelector i.dataOffset (UInt8.ofNat n)) := fun d d₂ => .of_boolean rfl rfl
        have hselect := hset.trans (hsel _ _)
        refine .done (hselect.mono ?_)
        rw [Set.union_empty]
        exact Set.union_subset hself Set.subset_union_left

end

end Asn
