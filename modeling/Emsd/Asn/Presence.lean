import Emsd.Asn.Advance
import Emsd.Asn.Flags

/-!
# Elements that have to be there

What an accepted input says about the elements of the tree, and what their flags say.

* `mandatory_elements`: whatever the structure holds before, every mandatory element occurs in the
  input and every flag shows whether its element does, exactly when no element is left out at the end
  of a sequence and each one that is parsed leaves its mark.
-/

namespace Asn

open Ocp

variable {b b' b₁ : Buf} {c c₂ c' c₂' d : CStruct} {F G : Set Nat}
  {i : Info} {len lengthOfLength used quota base longMax : Nat}

/-- The tag at the cursor is that of the element. -/
def Info.TagAt (i : Info) (b : Buf) : Prop :=
  ∃ x b', b.getOctet = .ok x b' ∧ bare x = i.tag &&& ~~~asnExplicit

/-- The flag says whether the element is there; a mandatory element is there. -/
def Info.Shows (i : Info) (c : CStruct) (there : Prop) : Prop :=
  match i.existsOffset with
  | none => there
  | some o => c.boolean o = true ↔ there

def Header.Holds (p : Buf → Nat → Prop) : Header → Prop
  | .found b _ len _ => p b len
  | _ => True

/-! ## What occurs in the input -/

namespace Element

mutual

/-- The element occurs at the cursor: its tag does, or, if it is a choice without one, the alternative
that is taken. An element without a tag is not looked for. -/
def Occurs (longMax : Nat) : Element → Nat → Buf → Prop
  | .choice i es, base, b =>
    if tagged (.choice i es) = true then i.TagAt b else OccursTaken longMax es base b
  | .integer i, _, b => tagged (.integer i) = true → i.TagAt b
  | .bitString i, _, b => tagged (.bitString i) = true → i.TagAt b
  | .bcdString i, _, b => tagged (.bcdString i) = true → i.TagAt b
  | .octetString i, _, b => tagged (.octetString i) = true → i.TagAt b
  | .sequence i es, _, b => tagged (.sequence i es) = true → i.TagAt b
  | .sequenceOf i elementSize e, _, b => tagged (.sequenceOf i elementSize e) = true → i.TagAt b
  | .buffer i, _, b => tagged (.buffer i) = true → i.TagAt b
  | .other i, _, b => tagged (.other i) = true → i.TagAt b

def OccursTaken (longMax : Nat) : List Element → Nat → Buf → Prop
  | [], _, _ => False
  | e :: es, base, b =>
    match parse longMax e base b {} noLength with
    | .failed .wrongTag b _ => OccursTaken longMax es base b
    | _ => Occurs longMax e base b

end

/-- One of the alternatives is taken. -/
def Takes (longMax : Nat) : List Element → Nat → Buf → Nat → Prop
  | [], _, _, _ => False
  | e :: es, base, b, len =>
    match parse longMax e base b {} len with
    | .failed .wrongTag b _ => Takes longMax es base b len
    | _ => True

end Element

/-! ## The elements that are parsed -/

/-- The elements of a sequence-of. -/
def parsedSequenceOf (parsed : Nat → Buf → Nat → Prop) (parse : Parser) (elementSize : Nat) :
    Nat → Nat → Buf → Nat → Prop
  | 0, _, _, _ => True
  | n + 1, base, b, len => len = 0 ∨
    match parse base b {} len with
    | .done b' _ tempLen =>
      parsed base b len ∧
        parsedSequenceOf parsed parse elementSize n (base + elementSize) b' (len - tempLen)
    | _ => True

namespace Element

section Parsed

variable (longMax : Nat) (p : Element → Nat → Buf → Nat → Prop) (q : Element → Nat → Prop)

mutual

/-- Every element that is parsed, at its place in the structure and in the input, has the property `p`,
and every one that is left out at the end of a sequence has `q`. Of a choice it is the alternative
that is taken. -/
def Parsed : Element → Nat → Buf → Nat → Prop
  | .sequence i es, base, b, quota => p (.sequence i es) base b quota ∧
    (header (tagged (.sequence i es)) (i.at base) b {} quota).Holds fun b len =>
      ParsedElements es base b len
  | .sequenceOf i elementSize e, base, b, quota => p (.sequenceOf i elementSize e) base b quota ∧
    (header (tagged (.sequenceOf i elementSize e)) (i.at base) b {} quota).Holds fun b len =>
      parsedSequenceOf (fun base b len => Parsed e base b len)
        (fun base b c len => parse longMax e base b c len) elementSize i.maxDataLength base b len
  | .choice i es, base, b, quota => p (.choice i es) base b quota ∧
    (header (tagged (.choice i es)) (i.at base) b {} quota).Holds fun b len =>
      ParsedTaken es base b len
  | .integer i, base, b, quota => p (.integer i) base b quota
  | .bitString i, base, b, quota => p (.bitString i) base b quota
  | .bcdString i, base, b, quota => p (.bcdString i) base b quota
  | .octetString i, base, b, quota => p (.octetString i) base b quota
  | .buffer i, base, b, quota => p (.buffer i) base b quota
  | .other i, base, b, quota => p (.other i) base b quota

def ParsedElements : List Element → Nat → Buf → Nat → Prop
  | [], _, _, _ => True
  | e :: es, base, b, len =>
    if len = 0 then q e base ∧ ParsedElements es base b 0
    else
      match parse longMax e base b {} len with
      | .done b' _ tempLen => Parsed e base b len ∧ ParsedElements es base b' (len - tempLen)
      | _ => True

def ParsedTaken : List Element → Nat → Buf → Nat → Prop
  | [], _, _, _ => True
  | e :: es, base, b, len =>
    match parse longMax e base b {} len with
    | .failed .wrongTag b' _ => ParsedTaken es base b' len
    | _ => Parsed e base b len

end

end Parsed

/-- **Nothing is missing, and nothing stale**: each element that is parsed is in the input or has a flag
that says that it is not, and so has each one that is left out. -/
def Filled (longMax : Nat) (c : CStruct) : Element → Nat → Buf → Nat → Prop :=
  Parsed longMax (fun e base b _ => (e.info.at base).Shows c (e.Occurs longMax base b))
    fun e base => (e.info.at base).Shows c False

/-- What an element has to be for its mark to be right: behind the tag of a choice there is one of the
alternatives, the alternative of a choice without a tag occurs when it is taken, and other optional
elements have a tag. -/
def Marked (longMax : Nat) : Element → Nat → Buf → Nat → Prop
  | .choice i es, base, b, quota =>
    if tagged (.choice i es) = true then
      (header true (i.at base) b {} quota).Holds fun b len => Takes longMax es base b len
    else Takes longMax es base b noLength → OccursTaken longMax es base b
  | e, _, _, _ => e.info.existsOffset ≠ none → e.tagged = true

/-- Each element that is parsed leaves its mark, and none is left out. -/
def Complete (longMax : Nat) : Element → Nat → Buf → Nat → Prop :=
  Parsed longMax (Marked longMax) fun _ _ => False

end Element

/-! ## What a flag depends on -/

theorem Info.Shows.congr {there : Prop} (h : i.Shows c there)
    (hc : ∀ o ∈ i.ownFlag, c.boolean o = c'.boolean o) : i.Shows c' there := by
  unfold Info.Shows at h ⊢
  cases ho : i.existsOffset with
  | none => rwa [ho] at h
  | some o =>
    rw [ho] at h
    dsimp only at h ⊢
    rwa [hc o ho] at h

theorem Info.Shows.iff {there there' : Prop} (h : i.Shows c there) (h' : i.Shows c there') :
    there ↔ there' := by
  unfold Info.Shows at h h'
  cases ho : i.existsOffset with
  | none =>
    rw [ho] at h h'
    exact ⟨fun _ => h', fun _ => h⟩
  | some o =>
    rw [ho] at h h'
    exact h.symm.trans h'

theorem Header.Holds.imp {h : Header} {p q : Buf → Nat → Prop} (hp : h.Holds p)
    (hpq : ∀ b len, p b len → q b len) : h.Holds q := by
  cases h with
  | found b c len lengthOfLength => exact hpq _ _ hp
  | absent b c => trivial
  | stop r => trivial

theorem parsedSequenceOf_imp {p q : Nat → Buf → Nat → Prop} {parse : Parser} {elementSize : Nat}
    (n : Nat) : ∀ (base : Nat) (b : Buf) (len : Nat),
      (∀ j < n, ∀ b len, p (base + j * elementSize) b len → q (base + j * elementSize) b len) →
      parsedSequenceOf p parse elementSize n base b len →
      parsedSequenceOf q parse elementSize n base b len := by
  induction n with
  | zero => exact fun _ _ _ _ h => h
  | succ n ih =>
    intro base b len hpq h
    unfold parsedSequenceOf at h ⊢
    rcases h with hzero | h
    · exact .inl hzero
    refine .inr ?_
    split at h
    · obtain ⟨hfirst, hrest⟩ := h
      have hself := hpq 0 (Nat.succ_pos n) b len
      rw [Nat.zero_mul, Nat.add_zero] at hself
      refine ⟨hself hfirst, ih _ _ _ (fun j hj b len => ?_) hrest⟩
      have hnext := hpq (j + 1) (Nat.succ_lt_succ hj) b len
      rwa [show base + (j + 1) * elementSize = base + elementSize + j * elementSize by
        rw [Nat.succ_mul]; omega] at hnext
    · trivial

theorem placesAt_mono (h : F ⊆ G) : placesAt base F ⊆ placesAt base G := by
  rintro o ⟨p, hp, rfl⟩
  exact ⟨p, h hp, rfl⟩

theorem Element.flag_subset (e : Element) : e.info.ownFlag ⊆ e.flags := by
  cases e <;> unfold Element.flags <;> first | exact Set.Subset.rfl | exact Set.subset_union_left

section Congr

open Element

mutual

/-- What an element needs of the structure are its own flags. -/
theorem Element.Filled.congr : ∀ (e : Element) (base : Nat) (b : Buf) (quota : Nat),
    (∀ o ∈ placesAt base e.flags, c.boolean o = c'.boolean o) →
    e.Filled longMax c base b quota → e.Filled longMax c' base b quota
  | .integer i, base, b, quota, hc, h => by
    unfold Filled Parsed at h ⊢
    exact h.congr (flag_at i base ▸ hc)
  | .bitString i, base, b, quota, hc, h => by
    unfold Filled Parsed at h ⊢
    exact h.congr (flag_at i base ▸ hc)
  | .bcdString i, base, b, quota, hc, h => by
    unfold Filled Parsed at h ⊢
    exact h.congr (flag_at i base ▸ hc)
  | .octetString i, base, b, quota, hc, h => by
    unfold Filled Parsed at h ⊢
    exact h.congr (flag_at i base ▸ hc)
  | .buffer i, base, b, quota, hc, h => by
    unfold Filled Parsed at h ⊢
    exact h.congr (flag_at i base ▸ hc)
  | .other i, base, b, quota, hc, h => by
    unfold Filled Parsed at h ⊢
    exact h.congr (flag_at i base ▸ hc)
  | .sequence i es, base, b, quota, hc, h => by
    unfold Filled Parsed at h ⊢
    unfold flags at hc
    rw [placesAt_union, ← flag_at] at hc
    exact ⟨h.1.congr fun o ho => hc o (.inl ho), h.2.imp fun b len hes =>
      filledElements_congr es base b len (fun o ho => hc o (.inr ho)) hes⟩
  | .sequenceOf i elementSize e, base, b, quota, hc, h => by
    unfold Filled Parsed at h ⊢
    unfold flags at hc
    rw [placesAt_union, ← flag_at] at hc
    refine ⟨h.1.congr fun o ho => hc o (.inl ho), h.2.imp fun b len hes => ?_⟩
    refine parsedSequenceOf_imp _ base b len (fun j hj b len he => ?_) hes
    refine Element.Filled.congr e _ b len (fun o ho => hc o (.inr ?_)) he
    obtain ⟨p, hp, rfl⟩ := ho
    exact ⟨j * elementSize + p, ⟨j, hj, p, hp, rfl⟩, Nat.add_assoc _ _ _⟩
  | .choice i es, base, b, quota, hc, h => by
    unfold Filled Parsed at h ⊢
    unfold flags at hc
    rw [placesAt_union, ← flag_at] at hc
    exact ⟨h.1.congr fun o ho => hc o (.inl ho), h.2.imp fun b len hes =>
      filledTaken_congr es base b len (fun o ho => hc o (.inr ho)) hes⟩

theorem filledElements_congr : ∀ (es : List Element) (base : Nat) (b : Buf) (len : Nat),
    (∀ o ∈ placesAt base (flagsOfAll es), c.boolean o = c'.boolean o) →
    ParsedElements longMax (fun e base b _ => (e.info.at base).Shows c (e.Occurs longMax base b))
      (fun e base => (e.info.at base).Shows c False) es base b len →
    ParsedElements longMax (fun e base b _ => (e.info.at base).Shows c' (e.Occurs longMax base b))
      (fun e base => (e.info.at base).Shows c' False) es base b len
  | [], _, _, _, _, _ => by
    unfold ParsedElements
    trivial
  | e :: es, base, b, len, hc, h => by
    unfold ParsedElements at h ⊢
    unfold flagsOfAll at hc
    rw [placesAt_union] at hc
    split at h
    · rename_i hzero
      rw [if_pos hzero]
      refine ⟨h.1.congr fun o ho => hc o (.inl ?_), filledElements_congr es base b 0
        (fun o ho => hc o (.inr ho)) h.2⟩
      rw [flag_at] at ho
      exact placesAt_mono (flag_subset e) ho
    · rename_i hne
      rw [if_neg hne]
      split at h
      · exact ⟨Element.Filled.congr e base b len (fun o ho => hc o (.inl ho)) h.1,
          filledElements_congr es base _ _ (fun o ho => hc o (.inr ho)) h.2⟩
      · trivial

theorem filledTaken_congr : ∀ (es : List Element) (base : Nat) (b : Buf) (len : Nat),
    (∀ o ∈ placesAt base (flagsOfAll es), c.boolean o = c'.boolean o) →
    ParsedTaken longMax (fun e base b _ => (e.info.at base).Shows c (e.Occurs longMax base b))
      (fun e base => (e.info.at base).Shows c False) es base b len →
    ParsedTaken longMax (fun e base b _ => (e.info.at base).Shows c' (e.Occurs longMax base b))
      (fun e base => (e.info.at base).Shows c' False) es base b len
  | [], _, _, _, _, _ => by
    unfold ParsedTaken
    trivial
  | e :: es, base, b, len, hc, h => by
    unfold ParsedTaken at h ⊢
    unfold flagsOfAll at hc
    rw [placesAt_union] at hc
    split at h
    · exact filledTaken_congr es base _ len (fun o ho => hc o (.inr ho)) h
    · exact Element.Filled.congr e base b len (fun o ho => hc o (.inl ho)) h

end

end Congr

/-! ## The mark of an element -/

theorem Parse.Tracks.done_left {r₂ : Parse} (h : Parse.Tracks F c c₂ (.done b c' used) r₂) :
    ∃ c₂', r₂ = .done b c₂' used ∧ Moves F c c₂ c' c₂' := by
  cases h with
  | done hm => exact ⟨_, rfl, hm⟩

theorem Parse.Tracks.failed_left {r₂ : Parse} {rc : ReturnCode}
    (h : Parse.Tracks F c c₂ (.failed rc b c') r₂) :
    ∃ c₂', r₂ = .failed rc b c₂' ∧ Moves F c c₂ c' c₂' := by
  cases h with
  | failed hm => exact ⟨_, rfl, hm⟩

theorem header_found_flag
    (h : header true i b c quota = .found b₁ d len lengthOfLength) :
    i.TagAt b ∧ d = c.setExists i true := by
  unfold header at h
  simp only [Bool.not_true, Bool.false_eq_true, if_false] at h
  cases hget : b.getOctet with
  | exhausted => rw [hget] at h; cases h
  | beyond => rw [hget] at h; cases h
  | ok x b₂ =>
    rw [hget] at h
    dsimp only at h
    split at h
    · split at h <;> cases h
    rename_i htag
    cases hlen : getLength b₂ with
    | exhausted => rw [hlen] at h; cases h
    | beyond => rw [hlen] at h; cases h
    | ok r b₃ =>
      rw [hlen] at h
      dsimp only at h
      split at h
      · cases h
      · cases h
        exact ⟨⟨x, b₂, hget, not_not.1 htag⟩, rfl⟩

theorem header_absent_flag {tagged : Bool} (h : header tagged i b c quota = .absent b₁ d) :
    tagged = true ∧ ¬i.TagAt b ∧ ∃ o, i.existsOffset = some o ∧ d.boolean o = false := by
  cases tagged with
  | false => cases h
  | true =>
    unfold header at h
    simp only [Bool.not_true, Bool.false_eq_true, if_false] at h
    cases hget : b.getOctet with
    | exhausted => rw [hget] at h; cases h
    | beyond => rw [hget] at h; cases h
    | ok x b₂ =>
      rw [hget] at h
      dsimp only at h
      split at h
      · rename_i htag
        have hno : ¬i.TagAt b := by
          rintro ⟨x', b', hget', heq⟩
          rw [hget] at hget'
          cases hget'
          exact htag heq
        split at h
        · rename_i o ho
          cases h
          exact ⟨rfl, hno, o, ho, Function.update_self _ _ _⟩
        · cases h
      · split at h
        · cases h
        · cases h
        · split at h <;> cases h

/-- An accepted element has its header and its contents, or is optional and not there. -/
theorem header_done {tagged : Bool} {contents : Contents}
    (h : (header tagged i b c quota).parse contents = .done b' c' used) :
    (∃ b₁ d len lengthOfLength, header tagged i b c quota = .found b₁ d len lengthOfLength ∧
      contents b₁ d len lengthOfLength = .done b' c' used) ∨
      header tagged i b c quota = .absent b' c' := by
  cases hh : header tagged i b c quota with
  | found b₁ d len lengthOfLength =>
    rw [hh] at h
    exact .inl ⟨_, _, _, _, rfl, h⟩
  | absent b₁ d =>
    rw [hh] at h
    cases h
    exact .inr rfl
  | stop r =>
    rw [hh] at h
    cases tagged with
    | false => cases hh
    | true => exact absurd h (header_stop hh)

theorem Info.Shows.of_absent {tagged : Bool} {there : Prop} (h : header tagged i b c quota = .absent b₁ d)
    (hthere : there → i.TagAt b) : i.Shows d there := by
  obtain ⟨-, hno, o, ho, hfalse⟩ := header_absent_flag h
  unfold Info.Shows
  rw [ho]
  dsimp only
  rw [hfalse]
  exact ⟨(fun h => by cases h), fun h => absurd (hthere h) hno⟩

theorem Info.Shows.of_true {there : Prop} (hthere : there)
    (hflag : ∀ o ∈ i.ownFlag, c.boolean o = true) : i.Shows c there := by
  unfold Info.Shows
  cases ho : i.existsOffset with
  | none => exact hthere
  | some o => exact ⟨fun _ => hthere, fun _ => hflag o ho⟩

theorem setExists_flag {o : Nat} (v : Bool) (ho : o ∈ i.ownFlag) :
    (c.setExists i v).boolean o = v := by
  have hi : i.existsOffset = some o := ho
  unfold CStruct.setExists
  rw [hi]
  exact Function.update_self _ _ _

/-- An element that is not a choice, whose contents leave its flag alone. -/
theorem shows_iff {tagged : Bool} {contents : Contents} (hG : Disjoint i.ownFlag G)
    (htracked : Tracked G contents contents)
    (hacc : ∃ c b' c' u, (header tagged i b c quota).parse contents = .done b' c' u) :
    (∀ c b' c' u, (header tagged i b c quota).parse contents = .done b' c' u →
      i.Shows c' (tagged = true → i.TagAt b)) ↔ (i.existsOffset ≠ none → tagged = true) := by
  rw [Set.disjoint_left] at hG
  have hkeeps : ∀ {b c b' c' u len lengthOfLength},
      contents b c len lengthOfLength = .done b' c' u → ∀ o ∈ i.ownFlag, c'.boolean o = c.boolean o := by
    intro b c b' c' u len lengthOfLength hd o ho
    have ht := htracked b c c len lengthOfLength
    rw [hd] at ht
    obtain ⟨c₂', -, hm⟩ := ht.done_left
    exact hm.frame o (hG ho)
  cases tagged with
  | true =>
    refine ⟨fun _ _ => rfl, fun _ c b' c' u hd => ?_⟩
    rcases header_done hd with ⟨b₁, d, len, lengthOfLength, hfound, hcontents⟩ | habsent
    · obtain ⟨htag, rfl⟩ := header_found_flag hfound
      refine .of_true (fun _ => htag) fun o ho => ?_
      rw [hkeeps hcontents o ho]
      exact setExists_flag true ho
    · exact .of_absent habsent fun h => h rfl
  | false =>
    refine ⟨fun h hsome => ?_, fun h c b' c' u hd => ?_⟩
    · -- the flag is what it was before
      obtain ⟨o, ho⟩ := Option.ne_none_iff_exists'.1 hsome
      obtain ⟨c, b', c', u, hd⟩ := hacc
      have ht := htracked b c {} noLength 0
      rw [show contents b c noLength 0 = .done b' c' u from hd] at ht
      obtain ⟨c₂', hd₂, -⟩ := ht.done_left
      have hshows := h {} b' c₂' u hd₂
      unfold Info.Shows at hshows
      rw [ho] at hshows
      have hflag : c₂'.boolean o = false := hkeeps hd₂ o ho
      dsimp only at hshows
      rw [hflag] at hshows
      exact absurd (hshows.2 fun h => by cases h) (by decide)
    · have hnone : i.existsOffset = none := by
        by_contra hsome
        exact absurd (h hsome) (by decide)
      unfold Info.Shows
      rw [hnone]
      exact fun h => by cases h

/-- The flag of a choice says whether one of its alternatives has been taken. -/
theorem parseAlternatives_shows (longMax : Nat) (i : Info) : ∀ (es : List Element) (base n : Nat)
    (rc : ReturnCode) (b : Buf) (c : CStruct) (len used : Nat) (b' : Buf) (c' : CStruct) (u : Nat),
      Element.parseAlternatives longMax i es base n rc b c len used = .done b' c' u →
      i.Shows c' (Element.Takes longMax es base b len)
  | [], base, n, rc, b, c, len, used, b', c', u, hd => by
    unfold Element.parseAlternatives at hd
    unfold Info.Shows Element.Takes
    cases ho : i.existsOffset with
    | none => rw [ho] at hd; cases hd
    | some o =>
      rw [ho] at hd
      cases hd
      have hflag : (c.setBoolean o false).boolean o = false := Function.update_self _ _ _
      dsimp only
      rw [hflag]
      exact ⟨(fun h => by cases h), False.elim⟩
  | e :: es, base, n, rc, b, c, len, used, b', c', u, hd => by
    unfold Element.parseAlternatives at hd
    unfold Element.Takes
    have ht := parse_tracks longMax e base b c {} len
    cases hr : e.parse longMax base b c len with
    | beyond => rw [hr] at hd; cases hd
    | done b₁ c₁ tempLen =>
      rw [hr] at hd ht
      obtain ⟨c₂, hr₂, -⟩ := ht.done_left
      rw [hr₂]
      dsimp only at hd ⊢
      split at hd
      · cases hd
      cases hd
      exact .of_true trivial fun o ho => setExists_flag true ho
    | failed rc' b₁ c₁ =>
      rw [hr] at hd ht
      by_cases hrc : rc' = .wrongTag
      · subst hrc
        obtain ⟨c₂, hr₂, -⟩ := ht.failed_left
        rw [hr₂]
        exact parseAlternatives_shows longMax i es base (n + 1) .wrongTag b₁ c₁ len used b' c' u hd
      · cases rc' <;> first | cases hd | exact absurd rfl hrc

theorem Header.Tracks.holds {h h₂ : Header} {p : Buf → Nat → Prop} (hh : Header.Tracks F c c₂ h h₂) :
    h.Holds p ↔ h₂.Holds p := by
  cases hh with
  | found _ => exact Iff.rfl
  | absent _ => exact Iff.rfl
  | stop _ => exact Iff.rfl

theorem takes_of_occursTaken : ∀ (es : List Element) (base : Nat) (b : Buf),
    Element.OccursTaken longMax es base b → Element.Takes longMax es base b noLength
  | [], _, _, h => by
    unfold Element.OccursTaken at h
    exact h.elim
  | e :: es, base, b, h => by
    unfold Element.OccursTaken at h
    unfold Element.Takes
    split at h
    · exact takes_of_occursTaken es base _ h
    · trivial

theorem Info.Shows.of_iff {there there' : Prop} (h : i.Shows c there) (heq : there ↔ there') :
    i.Shows c there' := propext heq ▸ h

/-- The header of a structure is that of the empty one. -/
theorem tracks_empty (i : Info) (b : Buf) (c : CStruct) (quota : Nat) (tagged : Bool) :
    Header.Tracks i.ownFlag c {} (header tagged i b c quota) (header tagged i b {} quota) :=
  header_tracks tagged

/-- The mark of a choice. -/
theorem choice_shows_iff {es : List Element}
    (hacc : ∃ c b' c' u, (Element.choice i es).parse longMax base b c quota = .done b' c' u) :
    (∀ c b' c' u, (Element.choice i es).parse longMax base b c quota = .done b' c' u →
      (i.at base).Shows c' ((Element.choice i es).Occurs longMax base b)) ↔
      Element.Marked longMax (.choice i es) base b quota := by
  unfold Element.parse at hacc ⊢
  unfold Element.Occurs
  dsimp only [Element.Marked]
  obtain ⟨tagged, htag⟩ : ∃ tagged, (Element.choice i es).tagged = tagged := ⟨_, rfl⟩
  rw [htag] at hacc ⊢
  cases tagged with
  | true =>
    rw [if_pos rfl, if_pos rfl]
    constructor
    · intro h
      obtain ⟨c, b', c', u, hd⟩ := hacc
      rw [← (tracks_empty (i.at base) b c quota true).holds]
      have hshows := h c b' c' u hd
      rcases header_done hd with ⟨b₁, d, len, lengthOfLength, hfound, halts⟩ | habsent
      · rw [hfound]
        have htakes := parseAlternatives_shows longMax (i.at base) es base 0 .fail b₁ d len _ b' c' u
          halts
        exact (htakes.iff hshows).2 (header_found_flag hfound).1
      · rw [habsent]
        trivial
    · intro h c b' c' u hd
      rw [← (tracks_empty (i.at base) b c quota true).holds]
        at h
      rcases header_done hd with ⟨b₁, d, len, lengthOfLength, hfound, halts⟩ | habsent
      · rw [hfound] at h
        have htakes := parseAlternatives_shows longMax (i.at base) es base 0 .fail b₁ d len _ b' c' u
          halts
        exact htakes.of_iff ⟨fun _ => (header_found_flag hfound).1, fun _ => h⟩
      · exact .of_absent habsent id
  | false =>
    rw [if_neg (by decide), if_neg (by decide)]
    -- there is no header: the alternatives begin where the choice does
    have hshows : ∀ c b' c' u, (header false (i.at base) b c quota).parse
        (fun b c len lengthOfLength => Element.parseAlternatives longMax (i.at base) es base 0 .fail b
          c len (usedSoFar lengthOfLength)) = .done b' c' u →
        (i.at base).Shows c' (Element.Takes longMax es base b noLength) :=
      fun c b' c' u hd =>
        parseAlternatives_shows longMax (i.at base) es base 0 .fail b c noLength _ b' c' u hd
    constructor
    · intro h
      obtain ⟨c, b', c', u, hd⟩ := hacc
      exact ((hshows c b' c' u hd).iff (h c b' c' u hd)).1
    · intro h c b' c' u hd
      exact (hshows c b' c' u hd).of_iff ⟨h, takes_of_occursTaken es base b⟩

/-! ## The elements behind one another -/

/-- The structure of a result. -/
def Parse.struct : Parse → CStruct
  | .done _ c _ | .failed _ _ c => c
  | .beyond => {}

/-- What is asked of flags that the step `next` leaves alone. -/
theorem moves_iff {next : CStruct → CStruct} {rest : CStruct → Parse} {B : CStruct → Prop}
    {S T : Set Nat} (hnext : ∀ c c₂, Moves S c c₂ (next c) (next c₂))
    (hrest : ∀ c c₂, Parse.Tracks F c c₂ (rest c) (rest c₂)) (hdisj : Disjoint S T)
    (hB : ∀ c c', (∀ o ∈ T, c.boolean o = c'.boolean o) → B c → B c') :
    (∀ c b' c' u, rest (next c) = .done b' c' u → B c') ↔
      ∀ c b' c' u, rest c = .done b' c' u → B c' := by
  refine ⟨fun h c b' c' u hd => ?_, fun h c => h (next c)⟩
  have ht := hrest c (next c)
  rw [hd] at ht
  obtain ⟨c₂', hd₂, hm⟩ := ht.done_left
  refine hB c₂' c' (fun o ho => ?_) (h c b' c₂' u hd₂)
  exact (hm.agree o ((hnext c c).frame o fun hs => Set.disjoint_left.1 hdisj hs ho).symm).symm

/-- A step, and what is parsed behind it. -/
theorem then_iff (next : CStruct → CStruct) (rest : CStruct → Parse) {A B : CStruct → Prop}
    {S T : Set Nat} (hnext : ∀ c c₂, Moves S c c₂ (next c) (next c₂))
    (hrest : ∀ c c₂, Parse.Tracks T c c₂ (rest c) (rest c₂)) (hdisj : Disjoint S T)
    (hA : ∀ c c', (∀ o ∈ S, c.boolean o = c'.boolean o) → A c → A c')
    (hB : ∀ c c', (∀ o ∈ T, c.boolean o = c'.boolean o) → B c → B c')
    (hacc : ∃ c b' c' u, rest c = .done b' c' u) :
    (∀ c b' c' u, rest (next c) = .done b' c' u → A c' ∧ B c') ↔
      (∀ c, A (next c)) ∧ ∀ c b' c' u, rest c = .done b' c' u → B c' := by
  have hframe : ∀ {c b' c' u}, rest c = .done b' c' u → ∀ o ∈ S, c'.boolean o = c.boolean o := by
    intro c b' c' u hd o ho
    have ht := hrest c c
    rw [hd] at ht
    obtain ⟨c₂', -, hm⟩ := ht.done_left
    exact hm.frame o (Set.disjoint_left.1 hdisj ho)
  rw [← moves_iff hnext hrest hdisj hB]
  constructor
  · intro h
    refine ⟨fun c => ?_, fun c b' c' u hd => (h c b' c' u hd).2⟩
    obtain ⟨d, b', d', u, hd⟩ := hacc
    have ht := hrest d (next c)
    rw [hd] at ht
    obtain ⟨c', hc', -⟩ := ht.done_left
    exact hA _ _ (hframe hc') (h c b' c' u hc').1
  · rintro ⟨hfirst, hothers⟩ c b' c' u hd
    exact ⟨hA _ _ (fun o ho => (hframe hd o ho).symm) (hfirst c), hothers c b' c' u hd⟩

/-- The contents of an element, behind its header. -/
theorem contents_iff {tagged : Bool} {contents : Contents} {claim : CStruct → Buf → Nat → Prop}
    {cond : Buf → Nat → Prop} {T : Set Nat} (htracked : Tracked F contents contents)
    (hdisj : Disjoint i.ownFlag T)
    (hclaim : ∀ b len c c', (∀ o ∈ T, c.boolean o = c'.boolean o) → claim c b len → claim c' b len)
    (hiff : ∀ b len lengthOfLength,
      (∃ c b' c' u, contents b c len lengthOfLength = .done b' c' u) →
      ((∀ c b' c' u, contents b c len lengthOfLength = .done b' c' u → claim c' b len) ↔
        cond b len))
    (hacc : ∃ c b' c' u, (header tagged i b c quota).parse contents = .done b' c' u) :
    (∀ c b' c' u, (header tagged i b c quota).parse contents = .done b' c' u →
      (header tagged i b {} quota).Holds (claim c')) ↔ (header tagged i b {} quota).Holds cond := by
  obtain ⟨c₀, b₀, c₀', u₀, hd₀⟩ := hacc
  have hall := fun c => tracks_empty i b c quota tagged
  have h₀ := hall c₀
  cases hh : header tagged i b {} quota with
  | found b₁ d₀ len lengthOfLength =>
    -- every structure has the same header
    have hfound : ∀ c, ∃ d, header tagged i b c quota = .found b₁ d len lengthOfLength := by
      intro c
      have h := hall c
      rw [hh] at h
      cases hc : header tagged i b c quota with
      | found b₂ d len₂ lengthOfLength₂ =>
        rw [hc] at h
        cases h
        exact ⟨d, rfl⟩
      | absent b₂ d => rw [hc] at h; cases h
      | stop r => rw [hc] at h; cases h
    choose next hnext using hfound
    have hmoves : ∀ c c₂, Moves i.ownFlag c c₂ (next c) (next c₂) := by
      intro c c₂
      have h : Header.Tracks i.ownFlag c c₂ (header tagged i b c quota) (header tagged i b c₂ quota) :=
        header_tracks tagged
      rw [hnext c, hnext c₂] at h
      cases h with
      | found hm => exact hm
    have hacc : ∃ c b' c' u, contents b₁ c len lengthOfLength = .done b' c' u := by
      rw [hnext c₀] at hd₀
      exact ⟨_, _, _, _, hd₀⟩
    show _ ↔ cond b₁ len
    rw [← hiff b₁ len lengthOfLength hacc, ← moves_iff hmoves
      (fun c c₂ => htracked b₁ c c₂ len lengthOfLength) hdisj (hclaim b₁ len)]
    refine forall_congr' fun c => ?_
    rw [hnext c]
    exact Iff.rfl
  | absent b₁ d₀ => exact ⟨fun _ => trivial, fun _ _ _ _ _ _ => trivial⟩
  | stop r => exact ⟨fun _ => trivial, fun _ _ _ _ _ _ => trivial⟩

/-- The loop over the elements of a sequence-of. -/
theorem sequenceOf_filled_iff {parse : Parser} (elementSize used : Nat) {S : Set Nat}
    (claim : CStruct → Nat → Buf → Nat → Prop) {cond : Nat → Buf → Nat → Prop}
    (hparse : ∀ base b c c₂ len,
      Parse.Tracks (placesAt base S) c c₂ (parse base b c len) (parse base b c₂ len))
    (hclaim : ∀ base b len c c', (∀ o ∈ placesAt base S, c.boolean o = c'.boolean o) →
      claim c base b len → claim c' base b len)
    (hiff : ∀ base b len, (∃ c b' c' u, parse base b c len = .done b' c' u) →
      ((∀ c b' c' u, parse base b c len = .done b' c' u → claim c' base b len) ↔ cond base b len))
    (n : Nat) (hapart : ∀ j < n, ∀ j' < n, ∀ p ∈ S, ∀ p' ∈ S,
      j * elementSize + p = j' * elementSize + p' → j = j') :
    ∀ (base : Nat) (b : Buf) (len : Nat),
      (∃ c b' c' u, parseSequenceOf parse i elementSize used n base b c len = .done b' c' u) →
      ((∀ c b' c' u, parseSequenceOf parse i elementSize used n base b c len = .done b' c' u →
        parsedSequenceOf (claim c') parse elementSize n base b len) ↔
          parsedSequenceOf cond parse elementSize n base b len) := by
  induction n with
  | zero => exact fun _ _ _ _ => ⟨fun _ => trivial, fun _ _ _ _ _ _ => trivial⟩
  | succ n ih =>
    intro base b len hacc
    unfold parsedSequenceOf
    unfold parseSequenceOf at hacc ⊢
    by_cases hzero : len = 0
    · exact ⟨fun _ => .inl hzero, fun _ _ _ _ _ _ => .inl hzero⟩
    simp only [if_neg hzero] at hacc ⊢
    obtain ⟨c₀, b₀, c₀', u₀, hd₀⟩ := hacc
    have h₀ := hparse base b c₀ {} len
    cases hr : parse base b c₀ len with
    | failed rc b₁ c₁ => rw [hr] at hd₀; cases hd₀
    | beyond => rw [hr] at hd₀; cases hd₀
    | done b₁ c₁ tempLen =>
      rw [hr] at h₀ hd₀
      obtain ⟨c₂, hr₂, -⟩ := h₀.done_left
      rw [hr₂]
      dsimp only at hd₀ ⊢
      by_cases hfit : tempLen > len
      · rw [if_pos hfit] at hd₀
        cases hd₀
      rw [if_neg hfit] at hd₀
      have hall : ∀ c, ∃ d, parse base b c len = .done b₁ d tempLen := by
        intro c
        have h := hparse base b c₀ c len
        rw [hr] at h
        obtain ⟨d, hd, -⟩ := h.done_left
        exact ⟨d, hd⟩
      choose next hnext using hall
      -- the flags of the other elements are at other places
      have hdisj : Disjoint (placesAt base S)
          (placesAt (base + elementSize) {o | ∃ j < n, ∃ p ∈ S, o = j * elementSize + p}) := by
        rw [Set.disjoint_left]
        rintro o ⟨p, hp, rfl⟩ ⟨q, ⟨j, hj, p', hp', rfl⟩, heq⟩
        have hmul : (j + 1) * elementSize = j * elementSize + elementSize := Nat.succ_mul _ _
        have hsame := hapart 0 (Nat.succ_pos n) (j + 1) (Nat.succ_lt_succ hj) p hp p' hp' (by omega)
        exact absurd hsame (Nat.succ_ne_zero j).symm
      have hrest := ih (fun j hj j' hj' p hp p' hp' heq => by
          have hmul : (j + 1) * elementSize = j * elementSize + elementSize := Nat.succ_mul _ _
          have hmul' : (j' + 1) * elementSize = j' * elementSize + elementSize := Nat.succ_mul _ _
          exact Nat.succ.inj (hapart (j + 1) (Nat.succ_lt_succ hj) (j' + 1) (Nat.succ_lt_succ hj') p hp
            p' hp' (by omega)))
        (base + elementSize) b₁ (len - tempLen) ⟨_, _, _, _, hd₀⟩
      have hfirst := hiff base b len ⟨c₀, b₁, c₁, tempLen, hr⟩
      have hstep := then_iff (A := fun c' => claim c' base b len)
        (B := fun c' => parsedSequenceOf (claim c') parse elementSize n (base + elementSize) b₁
          (len - tempLen))
        (fun c => (next c).setUint32 i.dataOffset (UInt32.ofNat (i.maxDataLength - n)))
        (fun c => parseSequenceOf parse i elementSize used n (base + elementSize) b₁ c (len - tempLen))
        (fun c c₂ => by
          have h := hparse base b c c₂ len
          rw [hnext c, hnext c₂] at h
          obtain ⟨d, hd, hm⟩ := h.done_left
          cases hd
          exact ⟨hm.frame, hm.agree⟩)
        (fun c c₂ => parseSequenceOf_tracks hparse n _ _ _ _ _) hdisj
        (fun c c' hc => hclaim base b len c c' hc)
        (fun c c' hc => parsedSequenceOf_imp n _ _ _ fun j hj b len =>
          hclaim _ b len c c' fun o ho => hc o (by
            obtain ⟨p, hp, rfl⟩ := ho
            exact ⟨j * elementSize + p, ⟨j, hj, p, hp, rfl⟩, Nat.add_assoc _ _ _⟩))
        ⟨_, _, _, _, hd₀⟩
      have hself : (∀ c, claim ((next c).setUint32 i.dataOffset
          (UInt32.ofNat (i.maxDataLength - n))) base b len) ↔ cond base b len := by
        rw [← hfirst]
        constructor
        · intro h c b' c' u hd
          rw [hnext c] at hd
          cases hd
          exact hclaim base b len (CStruct.setUint32 _ _ _) _ (fun _ _ => rfl) (h c)
        · intro h c
          have hclaimed := h c _ _ _ (hnext c)
          exact hclaim base b len (next c) _ (fun _ _ => rfl) hclaimed
      rw [hself, hrest] at hstep
      rw [or_iff_right hzero, ← hstep]
      refine forall_congr' fun c => ?_
      rw [hnext c]
      dsimp only
      rw [if_neg hfit]
      exact forall_congr' fun b' => forall_congr' fun c' => forall_congr' fun u =>
        imp_congr_right fun _ => or_iff_right hzero

/-! ## Every element -/

theorem at_none : (i.at base).existsOffset ≠ none ↔ i.existsOffset ≠ none := by
  cases ho : i.existsOffset <;> simp [Info.at, ho]

/-- The mark of an element that is not a choice. -/
theorem mark_iff (e : Element) {contents : Contents}
    (hparse : ∀ c, e.parse longMax base b c quota =
      (header e.tagged (e.info.at base) b c quota).parse contents)
    (hoccurs : e.Occurs longMax base b ↔ (e.tagged = true → e.info.TagAt b))
    (hmarked : e.Marked longMax base b quota ↔ (e.info.existsOffset ≠ none → e.tagged = true))
    (hdisj : Disjoint (e.info.at base).ownFlag G) (htracked : Tracked G contents contents)
    (hacc : ∃ c b' c' u, e.parse longMax base b c quota = .done b' c' u) :
    (∀ c b' c' u, e.parse longMax base b c quota = .done b' c' u →
      (e.info.at base).Shows c' (e.Occurs longMax base b)) ↔ e.Marked longMax base b quota := by
  simp only [hparse] at hacc ⊢
  rw [hmarked, ← at_none, ← shows_iff hdisj htracked hacc]
  exact forall_congr' fun c => forall_congr' fun b' => forall_congr' fun c' => forall_congr' fun u =>
    imp_congr_right fun _ => ⟨fun h => h.of_iff hoccurs, fun h => h.of_iff hoccurs.symm⟩

theorem parse_sequenceOf {elementSize : Nat} {e : Element} :
    (Element.sequenceOf i elementSize e).parse longMax base b c quota =
      (header (Element.sequenceOf i elementSize e).tagged (i.at base) b c quota).parse
        fun b c len lengthOfLength =>
          parseSequenceOf (fun base b c quota => e.parse longMax base b c quota) (i.at base)
            elementSize (add32 (lengthOfLength + 1) len) i.maxDataLength base b
            (c.setUint32 (i.at base).dataOffset 0) len := by
  rw [Element.parse]

/-- Two things that hold of every accepted run. -/
theorem ends_and {run : CStruct → Parse} {A B : CStruct → Prop} :
    (∀ c b' c' u, run c = .done b' c' u → A c' ∧ B c') ↔
      (∀ c b' c' u, run c = .done b' c' u → A c') ∧ ∀ c b' c' u, run c = .done b' c' u → B c' :=
  ⟨fun h => ⟨fun c b' c' u hd => (h c b' c' u hd).1, fun c b' c' u hd => (h c b' c' u hd).2⟩,
    fun h c b' c' u hd => ⟨h.1 c b' c' u hd, h.2 c b' c' u hd⟩⟩

theorem all_structures {next : CStruct → Parse} {b₁ : Buf} {c₀ c₁ : CStruct} {tempLen : Nat}
    (htracks : ∀ c c₂, Parse.Tracks F c c₂ (next c) (next c₂)) (h : next c₀ = .done b₁ c₁ tempLen)
    (c : CStruct) : ∃ d, next c = .done b₁ d tempLen := by
  have ht := htracks c₀ c
  rw [h] at ht
  obtain ⟨d, hd, -⟩ := ht.done_left
  exact ⟨d, hd⟩

theorem filledSequenceOf_congr (e : Element) (n elementSize base : Nat) (b : Buf) (len : Nat)
    (c c' : CStruct) (hc : ∀ o ∈ placesAt base {o | ∃ j < n, ∃ p ∈ e.flags, o = j * elementSize + p},
      c.boolean o = c'.boolean o) :
    parsedSequenceOf (fun base b len => e.Filled longMax c base b len)
      (fun base b c len => e.parse longMax base b c len) elementSize n base b len →
    parsedSequenceOf (fun base b len => e.Filled longMax c' base b len)
      (fun base b c len => e.parse longMax base b c len) elementSize n base b len := by
  refine parsedSequenceOf_imp n base b len fun j hj b len =>
    Element.Filled.congr e _ b len fun o ho => hc o ?_
  obtain ⟨p, hp, rfl⟩ := ho
  exact ⟨j * elementSize + p, ⟨j, hj, p, hp, rfl⟩, Nat.add_assoc _ _ _⟩

section

open Element

mutual

/-- **What an accepted element leaves in the structure**, whatever was there before. -/
theorem filled_iff (longMax : Nat) : ∀ (e : Element), e.Apart → ∀ (base : Nat) (b : Buf)
    (quota : Nat), (∃ c b' c' u, e.parse longMax base b c quota = .done b' c' u) →
      ((∀ c b' c' u, e.parse longMax base b c quota = .done b' c' u →
        e.Filled longMax c' base b quota) ↔ e.Complete longMax base b quota)
  | .integer i, _, base, b, quota, hacc => by
    unfold Filled Complete Parsed
    exact mark_iff (.integer i) (fun c => by unfold Element.parse; rfl) (by unfold Occurs; exact Iff.rfl)
      Iff.rfl (Set.disjoint_empty _) parseInteger_tracked hacc
  | .bitString i, _, base, b, quota, hacc => by
    unfold Filled Complete Parsed
    exact mark_iff (.bitString i) (fun c => by unfold Element.parse; rfl)
      (by unfold Occurs; exact Iff.rfl) Iff.rfl (Set.disjoint_empty _) parseBitString_tracked hacc
  | .bcdString i, _, base, b, quota, hacc => by
    unfold Filled Complete Parsed
    exact mark_iff (.bcdString i) (fun c => by unfold Element.parse; rfl)
      (by unfold Occurs; exact Iff.rfl) Iff.rfl (Set.disjoint_empty _)
      (parseString_tracked storeBcdString_tracks) hacc
  | .octetString i, _, base, b, quota, hacc => by
    unfold Filled Complete Parsed
    exact mark_iff (.octetString i) (fun c => by unfold Element.parse; rfl)
      (by unfold Occurs; exact Iff.rfl) Iff.rfl (Set.disjoint_empty _)
      (parseString_tracked storeOctetString_tracks) hacc
  | .buffer i, _, base, b, quota, hacc => by
    unfold Filled Complete Parsed
    exact mark_iff (.buffer i) (fun c => by unfold Element.parse; rfl)
      (by unfold Occurs; exact Iff.rfl) Iff.rfl (Set.disjoint_empty _) parseBuffer_tracked hacc
  | .other i, _, base, b, quota, hacc => by
    unfold Filled Complete Parsed
    have htracked : Tracked ∅ (fun b c _ _ => .failed .programmerError b c)
        (fun b c _ _ => .failed .programmerError b c) := fun _ _ _ _ _ => .failed .refl
    exact mark_iff (.other i) (fun c => by unfold Element.parse; rfl)
      (by unfold Occurs; exact Iff.rfl) Iff.rfl (Set.disjoint_empty _) htracked hacc
  | .sequence i es, ha, base, b, quota, hacc => by
    unfold Apart at ha
    have hdisj : Disjoint (i.at base).ownFlag (placesAt base (flagsOfAll es)) :=
      flag_at i base ▸ placesAt_disjoint ha.1
    have htracked : Tracked (placesAt base (flagsOfAll es))
        (fun b c len lengthOfLength => Element.parseElements longMax es base b c len
          (add32 (usedSoFar lengthOfLength) len))
        (fun b c len lengthOfLength => Element.parseElements longMax es base b c len
          (add32 (usedSoFar lengthOfLength) len)) :=
      fun b c c₂ len lengthOfLength => parseElements_tracks longMax es base b c c₂ len _
    have hmark := mark_iff (.sequence i es) (fun c => by unfold Element.parse; rfl)
      (by unfold Occurs; exact Iff.rfl) Iff.rfl hdisj htracked hacc
    unfold Filled Complete Parsed
    rw [ends_and, hmark]
    refine and_congr_right fun _ => ?_
    unfold Element.parse at hacc ⊢
    exact contents_iff htracked hdisj
      (fun b len c c' hc => filledElements_congr es base b len hc)
      (fun b len lengthOfLength hacc => filledElements_iff longMax es ha.2 base b len _ hacc) hacc
  | .sequenceOf i elementSize e, ha, base, b, quota, hacc => by
    unfold Apart at ha
    have hdisj : Disjoint (i.at base).ownFlag
        (placesAt base {o | ∃ j < i.maxDataLength, ∃ p ∈ flags e, o = j * elementSize + p}) :=
      flag_at i base ▸ placesAt_disjoint ha.1
    have htracked : Tracked
        (placesAt base {o | ∃ j < i.maxDataLength, ∃ p ∈ flags e, o = j * elementSize + p})
        (fun b c len lengthOfLength => parseSequenceOf
          (fun base b c quota => e.parse longMax base b c quota) (i.at base) elementSize
          (add32 (lengthOfLength + 1) len) i.maxDataLength base b
          (c.setUint32 (i.at base).dataOffset 0) len)
        (fun b c len lengthOfLength => parseSequenceOf
          (fun base b c quota => e.parse longMax base b c quota) (i.at base) elementSize
          (add32 (lengthOfLength + 1) len) i.maxDataLength base b
          (c.setUint32 (i.at base).dataOffset 0) len) := by
      intro b c c₂ len lengthOfLength
      have hcount : Moves ∅ c c₂ (c.setUint32 (i.at base).dataOffset 0)
          (c₂.setUint32 (i.at base).dataOffset 0) := .of_boolean rfl rfl
      refine (Parse.Tracks.after hcount (parseSequenceOf_tracks
        (fun base b c c₂ len => parse_tracks longMax e base b c c₂ len) _ _ _ _ _ _)).mono ?_
      rw [Set.empty_union]
    have hmark := mark_iff (.sequenceOf i elementSize e) (fun c => parse_sequenceOf)
      (by unfold Occurs; exact Iff.rfl) Iff.rfl hdisj htracked hacc
    unfold Filled Complete Parsed
    rw [ends_and, hmark]
    refine and_congr_right fun _ => ?_
    simp only [parse_sequenceOf] at hacc ⊢
    refine contents_iff htracked hdisj (fun b len c c' hc => ?_)
      (fun b len lengthOfLength hacc => ?_) hacc
    · exact filledSequenceOf_congr e i.maxDataLength elementSize base b len c c' hc
    · -- the count is set before the loop
      have hloop := sequenceOf_filled_iff (i := i.at base) (S := flags e) elementSize
        (add32 (lengthOfLength + 1) len) (fun c' base b len => e.Filled longMax c' base b len)
        (fun base b c c₂ len => parse_tracks longMax e base b c c₂ len)
        (fun base b len c c' hc => Element.Filled.congr e base b len hc)
        (fun base b len hacc => filled_iff longMax e ha.2.1 base b len hacc) i.maxDataLength ha.2.2
        base b len (by
          obtain ⟨c, h⟩ := hacc
          exact ⟨_, h⟩)
      unfold Filled Complete at hloop
      rw [← hloop]
      have hcount : ∀ c c₂ : CStruct, Moves ∅ c c₂ (c.setUint32 (i.at base).dataOffset 0)
          (c₂.setUint32 (i.at base).dataOffset 0) := fun c c₂ => .of_boolean rfl rfl
      exact moves_iff
        (T := placesAt base {o | ∃ j < i.maxDataLength, ∃ p ∈ flags e, o = j * elementSize + p})
        (B := fun c' => parsedSequenceOf (fun base b len => e.Filled longMax c' base b len)
          (fun base b c len => e.parse longMax base b c len) elementSize i.maxDataLength base b len)
        hcount (fun c c₂ => parseSequenceOf_tracks
          (fun base b c c₂ len => parse_tracks longMax e base b c c₂ len) _ _ _ _ _ _)
        (Set.empty_disjoint _) (filledSequenceOf_congr e i.maxDataLength elementSize base b len)
  | .choice i es, ha, base, b, quota, hacc => by
    unfold Apart at ha
    have hdisj : Disjoint (i.at base).ownFlag (placesAt base (flagsOfAll es)) :=
      flag_at i base ▸ placesAt_disjoint ha.1
    have hmark := choice_shows_iff hacc
    unfold Filled Complete Parsed
    rw [ends_and]
    refine and_congr hmark ?_
    unfold Element.parse at hacc ⊢
    have htracked : Tracked ((i.at base).ownFlag ∪ placesAt base (flagsOfAll es))
        (fun b c len lengthOfLength => Element.parseAlternatives longMax (i.at base) es base 0 .fail b c
          len (usedSoFar lengthOfLength)) (fun b c len lengthOfLength =>
            Element.parseAlternatives longMax (i.at base) es base 0 .fail b c len
              (usedSoFar lengthOfLength)) :=
      fun b c c₂ len lengthOfLength =>
        parseAlternatives_tracks longMax (i.at base) es base 0 .fail b c c₂ len _
    exact contents_iff htracked hdisj
      (fun b len c c' hc => filledTaken_congr es base b len hc)
      (fun b len lengthOfLength hacc =>
        filledTaken_iff longMax (i.at base) es ha.2 base 0 .fail b len _ hdisj hacc) hacc

theorem filledElements_iff (longMax : Nat) : ∀ (es : List Element), ApartAll es →
    ∀ (base : Nat) (b : Buf) (len used : Nat),
      (∃ c b' c' u, Element.parseElements longMax es base b c len used = .done b' c' u) →
      ((∀ c b' c' u, Element.parseElements longMax es base b c len used = .done b' c' u →
        ParsedElements longMax (fun e base b _ => (e.info.at base).Shows c' (e.Occurs longMax base b))
          (fun e base => (e.info.at base).Shows c' False) es base b len) ↔
        ParsedElements longMax (Marked longMax) (fun _ _ => False) es base b len)
  | [], _, base, b, len, used, _ => by
    unfold ParsedElements
    exact ⟨fun _ => trivial, fun _ _ _ _ _ _ => trivial⟩
  | e :: es, ha, base, b, len, used, hacc => by
    unfold ParsedElements
    unfold Element.parseElements at hacc ⊢
    by_cases hzero : len = 0
    · -- the element is left out: its flag stays what it was
      simp only [if_pos hzero]
      refine ⟨fun h => ?_, fun h => h.1.elim⟩
      have hshows := (h { boolean := fun _ => true } _ _ _ rfl).1
      unfold Info.Shows at hshows
      cases ho : (e.info.at base).existsOffset with
      | none =>
        rw [ho] at hshows
        exact hshows.elim
      | some o =>
        rw [ho] at hshows
        exact (hshows.1 rfl).elim
    · unfold ApartAll at ha
      simp only [if_neg hzero] at hacc ⊢
      obtain ⟨c₀, b₀, c₀', u₀, hd₀⟩ := hacc
      cases hr : e.parse longMax base b c₀ len with
      | failed rc b₁ c₁ => rw [hr] at hd₀; cases hd₀
      | beyond => rw [hr] at hd₀; cases hd₀
      | done b₁ c₁ tempLen =>
        rw [hr] at hd₀
        dsimp only at hd₀
        by_cases hfit : tempLen > len
        · rw [if_pos hfit] at hd₀
          cases hd₀
        rw [if_neg hfit] at hd₀
        choose next hnext using
          all_structures (fun c c₂ => parse_tracks longMax e base b c c₂ len) hr
        have hstep := then_iff next _
          (A := fun c' => e.Filled longMax c' base b len)
          (B := fun c' => ParsedElements longMax
            (fun e base b _ => (e.info.at base).Shows c' (e.Occurs longMax base b))
            (fun e base => (e.info.at base).Shows c' False) es base b₁ (len - tempLen))
          (fun c c₂ => by
            have h := parse_tracks longMax e base b c c₂ len
            rw [hnext c, hnext c₂] at h
            obtain ⟨d, hd, hm⟩ := h.done_left
            cases hd
            exact hm)
          (fun c c₂ => parseElements_tracks longMax es base b₁ c c₂ (len - tempLen) used)
          (placesAt_disjoint ha.1)
          (fun c c' hc => Element.Filled.congr e base b len hc)
          (fun c c' hc => filledElements_congr es base b₁ (len - tempLen) hc)
          ⟨_, _, _, _, hd₀⟩
        have hself : (∀ c, e.Filled longMax (next c) base b len) ↔ e.Complete longMax base b len := by
          rw [← filled_iff longMax e ha.2.1 base b len ⟨_, _, _, _, hr⟩]
          refine ⟨fun h c b' c' u hd => ?_, fun h c => h c _ _ _ (hnext c)⟩
          rw [hnext c] at hd
          cases hd
          exact h c
        rw [hself, filledElements_iff longMax es ha.2.2 base b₁ (len - tempLen) used
          ⟨_, _, _, _, hd₀⟩] at hstep
        simp only [hnext, if_neg hfit]
        exact hstep

theorem filledTaken_iff (longMax : Nat) (i : Info) : ∀ (es : List Element), ApartAll es →
    ∀ (base n : Nat) (rc : ReturnCode) (b : Buf) (len used : Nat),
      Disjoint i.ownFlag (placesAt base (flagsOfAll es)) →
      (∃ c b' c' u, Element.parseAlternatives longMax i es base n rc b c len used = .done b' c' u) →
      ((∀ c b' c' u, Element.parseAlternatives longMax i es base n rc b c len used = .done b' c' u →
        ParsedTaken longMax (fun e base b _ => (e.info.at base).Shows c' (e.Occurs longMax base b))
          (fun e base => (e.info.at base).Shows c' False) es base b len) ↔
        ParsedTaken longMax (Marked longMax) (fun _ _ => False) es base b len)
  | [], _, base, n, rc, b, len, used, _, _ => by
    unfold ParsedTaken
    exact ⟨fun _ => trivial, fun _ _ _ _ _ _ => trivial⟩
  | e :: es, ha, base, n, rc, b, len, used, hdisj, hacc => by
    unfold ApartAll at ha
    unfold flagsOfAll at hdisj
    rw [placesAt_union, Set.disjoint_union_right] at hdisj
    unfold ParsedTaken
    unfold Element.parseAlternatives at hacc ⊢
    obtain ⟨c₀, b₀, c₀', u₀, hd₀⟩ := hacc
    cases hr : e.parse longMax base b c₀ len with
    | beyond => rw [hr] at hd₀; cases hd₀
    | done b₁ c₁ tempLen =>
      rw [hr] at hd₀
      dsimp only at hd₀
      choose next hnext using
        all_structures (fun c c₂ => parse_tracks longMax e base b c c₂ len) hr
      by_cases hfit : tempLen > len ∨ (len ≠ noLength ∧ len ≠ tempLen)
      · rw [if_pos hfit] at hd₀
        cases hd₀
      simp only [hnext, if_neg hfit]
      -- the flag of the choice is at another place
      have hkeeps : ∀ c : CStruct, ∀ o ∈ placesAt base e.flags,
          ((c.setExists i true).setSelector i.dataOffset (UInt8.ofNat n)).boolean o =
            c.boolean o := fun c o ho =>
        (show Moves _ c c _ _ from Moves.setExists true).frame o fun hi => Set.disjoint_left.1 hdisj.1 hi ho
      have hself := filled_iff longMax e ha.2.1 base b len ⟨_, _, _, _, hr⟩
      unfold Complete at hself
      rw [← hself]
      constructor
      · intro h c b' c' u hd
        rw [hnext c] at hd
        cases hd
        exact Element.Filled.congr e base b len (hkeeps _) (h c _ _ _ rfl)
      · intro h c b' c' u hd
        cases hd
        exact Element.Filled.congr e base b len (fun o ho => (hkeeps _ o ho).symm)
          (h c _ _ _ (hnext c))
    | failed rc' b₁ c₁ =>
      rw [hr] at hd₀
      by_cases hrc : rc' = .wrongTag
      · -- the next alternative
        subst hrc
        dsimp only at hd₀
        have hall : ∀ c, ∃ d, e.parse longMax base b c len = .failed .wrongTag b₁ d := by
          intro c
          have ht := parse_tracks longMax e base b c₀ c len
          rw [hr] at ht
          obtain ⟨d, hd, -⟩ := ht.failed_left
          exact ⟨d, hd⟩
        choose next hnext using hall
        simp only [hnext]
        rw [← filledTaken_iff longMax i es ha.2.2 base (n + 1) .wrongTag b₁ len used hdisj.2
          ⟨_, _, _, _, hd₀⟩]
        exact moves_iff (T := placesAt base (flagsOfAll es))
          (fun c c₂ => by
            have h := parse_tracks longMax e base b c c₂ len
            rw [hnext c, hnext c₂] at h
            obtain ⟨d, hd, hm⟩ := h.failed_left
            cases hd
            exact hm)
          (fun c c₂ => parseAlternatives_tracks longMax i es base (n + 1) .wrongTag b₁ c c₂ len used)
          (placesAt_disjoint ha.1)
          (fun c c' hc => filledTaken_congr es base b₁ len hc)
      · cases rc' <;> first | cases hd₀ | exact absurd rfl hrc

end

end

/-- **Mandatory elements, and flags**: whatever was in the structure, an accepted input has all mandatory
elements and every flag says whether its element is there, exactly when each element that is parsed
leaves its mark and none is left out. -/
theorem mandatory_elements (longMax : Nat) (e : Element) (ha : e.Apart) (base : Nat) (b : Buf)
    (quota : Nat) :
    (∀ c b' c' used, e.parse longMax base b c quota = .done b' c' used →
      e.Filled longMax c' base b quota) ↔
      ((∃ b' c' used, e.parse longMax base b {} quota = .done b' c' used) →
        e.Complete longMax base b quota) := by
  constructor
  · rintro h ⟨b', c', used, hd⟩
    exact (filled_iff longMax e ha base b quota ⟨_, _, _, _, hd⟩).1 h
  · intro h c b' c' used hd
    have ht := parse_tracks longMax e base b c {} quota
    rw [hd] at ht
    obtain ⟨c₂', hd₂, -⟩ := ht.done_left
    exact (filled_iff longMax e ha base b quota ⟨_, _, _, _, hd⟩).2 (h ⟨_, _, _, hd₂⟩) c b' c' used hd

/-- A sequence of an integer and an optional one, of which only the first is in the input. -/
theorem mandatory_elements_pair :
    (∀ c b' c' used, Element.parse 0x7fffffff (.sequence { tag := 0x10 }
        [.integer { tag := 2 }, .integer { tag := 0x81, existsOffset := some 0 }]) 0
        ⟨[[0x30, 3, 2, 1, 5]], 0, 0⟩ c 5 = .done b' c' used →
      Element.Filled 0x7fffffff c' (.sequence { tag := 0x10 }
        [.integer { tag := 2 }, .integer { tag := 0x81, existsOffset := some 0 }]) 0
        ⟨[[0x30, 3, 2, 1, 5]], 0, 0⟩ 5) ↔
      ((∃ b' c' used, Element.parse 0x7fffffff (.sequence { tag := 0x10 }
        [.integer { tag := 2 }, .integer { tag := 0x81, existsOffset := some 0 }]) 0
        ⟨[[0x30, 3, 2, 1, 5]], 0, 0⟩ {} 5 = .done b' c' used) →
      Element.Complete 0x7fffffff (.sequence { tag := 0x10 }
        [.integer { tag := 2 }, .integer { tag := 0x81, existsOffset := some 0 }]) 0
        ⟨[[0x30, 3, 2, 1, 5]], 0, 0⟩ 5) := by
  refine mandatory_elements 0x7fffffff _ ?_ 0 _ 5
  have hnone : ∀ F : Set Nat, Disjoint (Info.ownFlag { tag := 2 }) F := fun F =>
    Set.disjoint_left.2 fun o ho => by cases ho
  exact ⟨hnone _, hnone _, trivial, Set.disjoint_empty _, trivial, trivial⟩

/-- An empty sequence is accepted without its mandatory integer, and the flag of an integer that is not
there keeps what it was. -/
theorem mandatory_left_out :
    (¬∀ c b' c' used, Element.parse 0x7fffffff (.sequence { tag := 0x10 } [.integer { tag := 2 }]) 0
        ⟨[[0x30, 0]], 0, 0⟩ c 2 = .done b' c' used →
      Element.Filled 0x7fffffff c' (.sequence { tag := 0x10 } [.integer { tag := 2 }]) 0
        ⟨[[0x30, 0]], 0, 0⟩ 2) ∧
      ¬∀ c b' c' used, Element.parse 0x7fffffff (.sequence { tag := 0x10 }
          [.integer { tag := 0x81, existsOffset := some 0 }]) 0 ⟨[[0x30, 0]], 0, 0⟩ c 2 =
            .done b' c' used →
        Element.Filled 0x7fffffff c' (.sequence { tag := 0x10 }
          [.integer { tag := 0x81, existsOffset := some 0 }]) 0 ⟨[[0x30, 0]], 0, 0⟩ 2 := by
  refine ⟨fun h => ?_, fun h => ?_⟩
  · have hfilled := h {} ⟨[[0x30, 0]], 0, 2⟩ _ 2 rfl
    exact hfilled.2.1
  · have hfilled := h { boolean := fun _ => true } ⟨[[0x30, 0]], 0, 2⟩ _ 2 rfl
    have hflag : true = true ↔ False := hfilled.2.1
    exact hflag.1 rfl

end Asn
