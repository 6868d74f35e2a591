import Emsd.Asn.Advance
import Emsd.Asn.Flags

/-!
# The loops of the parser (`asnber.c`)

`asn_berParse` goes round for the elements of a sequence-of as long as something is left of its length
and the count in the structure is below the maximum, and for the alternatives of a choice until one is
found.

* `parse_keeps`: the numbers that an element leaves alone in the structure.
* `sequenceOfLoop_eq`: the loop comes to an end, and is the one of the model.
* `repetition_bounded`: **the loops are bounded**, and an element that is accepted moves the cursor exactly
  when a tag has been found for it.
-/

namespace Asn

open Ocp

variable {b b' : Buf} {c c' : CStruct} {i : Info} {e : Element} {es : List Element} {calls : List Call}
  {len lengthOfLength used tempLen quota base longMax elementSize o n m k : Nat} {r : Parse}

/-! ## The numbers in the structure -/

namespace Element

mutual

/-- The places of the numbers that an element is parsed into, counts among them. -/
def numbers : Element → Set Nat
  | .integer i | .bcdString i => {i.dataOffset}
  | .sequence _ es | .choice _ es => numbersOfAll es
  | .sequenceOf i elementSize e =>
    {i.dataOffset} ∪ {o | ∃ j < i.maxDataLength, ∃ p ∈ numbers e, o = j * elementSize + p}
  | .bitString _ | .octetString _ | .buffer _ | .other _ => ∅

def numbersOfAll : List Element → Set Nat
  | [] => ∅
  | e :: es => numbers e ∪ numbersOfAll es

end

end Element

/-- The number at `o` is what it was in `c`. -/
def Parse.Keeps (o : Nat) (c : CStruct) : Parse → Prop
  | .done _ c' _ | .failed _ _ c' => c'.uint32 o = c.uint32 o
  | .beyond => True

def Header.Keeps (o : Nat) (c : CStruct) : Header → Prop
  | .found _ c' _ _ | .absent _ c' => c'.uint32 o = c.uint32 o
  | .stop r => r.Keeps o c

theorem Parse.Keeps.trans (h : c'.uint32 o = c.uint32 o) (hr : r.Keeps o c') : r.Keeps o c := by
  cases r with
  | done b d used => exact Eq.trans hr h
  | failed rc b d => exact Eq.trans hr h
  | beyond => trivial

theorem setExists_uint32 (c : CStruct) (i : Info) (v : Bool) : (c.setExists i v).uint32 = c.uint32 := by
  unfold CStruct.setExists
  cases i.existsOffset <;> rfl

theorem setUint32_ne {v : UInt32} {o' : Nat} (h : o ≠ o') : (c.setUint32 o' v).uint32 o = c.uint32 o :=
  Function.update_of_ne h _ _

theorem header_keeps (tagged : Bool) : (header tagged i b c quota).Keeps o c := by
  have hexists : ∀ v, (c.setExists i v).uint32 o = c.uint32 o := fun v => by rw [setExists_uint32]
  unfold header
  split
  · rfl
  cases b.getOctet with
  | exhausted => rfl
  | beyond => trivial
  | ok x b =>
    dsimp only
    split
    · cases i.existsOffset <;> rfl
    cases getLength b with
    | exhausted => exact hexists true
    | beyond => trivial
    | ok r b =>
      dsimp only
      split
      · exact hexists true
      · exact hexists true

/-- Behind a header it is up to the contents. -/
theorem Header.Keeps.parse {h : Header} {contents : Contents} (hh : h.Keeps o c)
    (hc : ∀ b c' len lengthOfLength, (contents b c' len lengthOfLength).Keeps o c') :
    (h.parse contents).Keeps o c := by
  cases h with
  | found b c' len lengthOfLength => exact Parse.Keeps.trans hh (hc b c' len lengthOfLength)
  | absent b c' => exact hh
  | stop r => exact hh

/-- What is done with something that has been read. -/
theorem andThen_keeps {α : Type} {read : Read α} {next : α → Buf → Parse}
    (h : ∀ a b, (next a b).Keeps o c) : (andThen read b c next).Keeps o c := by
  unfold andThen
  cases read with
  | ok a b => exact h a b
  | exhausted => rfl
  | beyond => trivial

theorem parseInteger_keeps (h : o ≠ i.dataOffset) : (parseInteger i b c len lengthOfLength).Keeps o c := by
  unfold parseInteger
  split
  · rfl
  · exact andThen_keeps fun octets b => setUint32_ne h

theorem parseBitString_keeps : (parseBitString i b c len lengthOfLength).Keeps o c := by
  unfold parseBitString
  split
  · rfl
  · refine andThen_keeps fun unusedBits b => ?_
    split
    · rfl
    · exact andThen_keeps fun bits b => rfl

theorem parseString_keeps {store : Buf → CStruct → Octets → Nat → Parse}
    (h : ∀ b octets used, (store b c octets used).Keeps o c) :
    (parseString i store b c len lengthOfLength).Keeps o c := by
  unfold parseString
  split
  · rfl
  · refine andThen_keeps fun octets b => ?_
    split
    · exact h b octets _
    · split
      · trivial
      · rfl

theorem storeBcdString_keeps {octets : Octets} (h : o ≠ i.dataOffset) :
    (storeBcdString longMax i b c octets used).Keeps o c := by
  unfold storeBcdString
  cases bcdToString octets with
  | none => trivial
  | some str => exact setUint32_ne h

/-- A place that is none of an element at `base`. -/
theorem not_mem_placesAt {S T : Set Nat} (h : o ∉ placesAt base (S ∪ T)) :
    o ∉ placesAt base S ∧ o ∉ placesAt base T := by
  rw [placesAt_union] at h
  exact ⟨fun hs => h (.inl hs), fun ht => h (.inr ht)⟩

theorem ne_of_not_mem_placesAt {p : Nat} (h : o ∉ placesAt base {p}) : o ≠ base + p :=
  fun heq => h ⟨p, rfl, heq⟩

/-- The loop of the model over the elements of a sequence-of, the first of which is number `j`. -/
theorem parseSequenceOf_keeps {parse : Parser} {places : Nat → Set Nat} (hcount : o ≠ i.dataOffset)
    (hparse : ∀ base b c len, o ∉ places base → (parse base b c len).Keeps o c) :
    ∀ n base b c len, (∀ j < n, o ∉ places (base + j * elementSize)) →
      (parseSequenceOf parse i elementSize used n base b c len).Keeps o c := by
  intro n
  induction n with
  | zero =>
    intro base b c len _
    unfold parseSequenceOf
    split <;> rfl
  | succ n ih =>
    intro base b c len hplaces
    unfold parseSequenceOf
    split
    · rfl
    have hfirst := hparse base b c len (by simpa using hplaces 0 (Nat.succ_pos n))
    cases hr : parse base b c len with
    | done b₁ c₁ tempLen =>
      rw [hr] at hfirst
      dsimp only
      split
      · exact hfirst
      · refine Parse.Keeps.trans ((setUint32_ne hcount).trans hfirst) (ih _ _ _ _ fun j hj => ?_)
        have hnext := hplaces (j + 1) (Nat.succ_lt_succ hj)
        rwa [Nat.succ_mul, Nat.add_comm (j * elementSize), ← Nat.add_assoc] at hnext
    | failed rc b₁ c₁ =>
      rw [hr] at hfirst
      exact hfirst
    | beyond => trivial

mutual

/-- **An element leaves alone** the numbers that are not its own. -/
theorem parse_keeps (longMax : Nat) : ∀ (e : Element) (o base : Nat) (b : Buf) (c : CStruct)
    (quota : Nat), o ∉ placesAt base e.numbers → (e.parse longMax base b c quota).Keeps o c
  | .integer i, o, base, b, c, quota, ho => by
    have hne := ne_of_not_mem_placesAt ho
    unfold Element.parse
    exact (header_keeps _).parse fun _ _ _ _ => parseInteger_keeps hne
  | .bitString i, o, base, b, c, quota, _ => by
    unfold Element.parse
    exact (header_keeps _).parse fun _ _ _ _ => parseBitString_keeps
  | .bcdString i, o, base, b, c, quota, ho => by
    have hne := ne_of_not_mem_placesAt ho
    unfold Element.parse
    exact (header_keeps _).parse fun _ _ _ _ =>
      parseString_keeps fun _ _ _ => storeBcdString_keeps hne
  | .octetString i, o, base, b, c, quota, _ => by
    unfold Element.parse
    exact (header_keeps _).parse fun _ _ _ _ => parseString_keeps fun _ _ _ => rfl
  | .sequence i es, o, base, b, c, quota, ho => by
    unfold Element.parse
    exact (header_keeps _).parse fun b c' len _ => parseElements_keeps longMax es o base b c' len _ ho
  | .sequenceOf i elementSize e, o, base, b, c, quota, ho => by
    unfold Element.numbers at ho
    obtain ⟨hcount, helements⟩ := not_mem_placesAt ho
    have hne := ne_of_not_mem_placesAt hcount
    unfold Element.parse
    refine (header_keeps _).parse fun b c' len lengthOfLength => ?_
    refine Parse.Keeps.trans (setUint32_ne hne) (parseSequenceOf_keeps hne
      (fun base b c len ho => parse_keeps longMax e o base b c len ho) _ _ _ _ _ fun j hj hmem => ?_)
    obtain ⟨p, hp, heq⟩ := hmem
    exact helements ⟨_, ⟨j, hj, p, hp, rfl⟩, by rw [heq, Nat.add_assoc]⟩
  | .choice i es, o, base, b, c, quota, ho => by
    unfold Element.parse
    exact (header_keeps _).parse fun b c' len lengthOfLength =>
      parseAlternatives_keeps longMax (i.at base) es o base 0 .fail b c' len _ ho
  | .buffer i, o, base, b, c, quota, _ => by
    unfold Element.parse
    exact (header_keeps _).parse fun _ _ _ _ => rfl
  | .other i, o, base, b, c, quota, _ => by
    unfold Element.parse
    exact (header_keeps _).parse fun _ _ _ _ => rfl

theorem parseElements_keeps (longMax : Nat) : ∀ (es : List Element) (o base : Nat) (b : Buf)
    (c : CStruct) (len used : Nat), o ∉ placesAt base (Element.numbersOfAll es) →
    (Element.parseElements longMax es base b c len used).Keeps o c
  | [], _, _, _, _, _, _, _ => by
    unfold Element.parseElements
    rfl
  | e :: es, o, base, b, c, len, used, ho => by
    obtain ⟨hself, hrest⟩ := not_mem_placesAt ho
    unfold Element.parseElements
    split
    · rfl
    have hfirst := parse_keeps longMax e o base b c len hself
    cases hr : e.parse longMax base b c len with
    | done b₁ c₁ tempLen =>
      rw [hr] at hfirst
      dsimp only
      split
      · exact hfirst
      · exact Parse.Keeps.trans hfirst (parseElements_keeps longMax es o base b₁ c₁ _ used hrest)
    | failed rc b₁ c₁ =>
      rw [hr] at hfirst
      exact hfirst
    | beyond => trivial

theorem parseAlternatives_keeps (longMax : Nat) (i : Info) : ∀ (es : List Element) (o base n : Nat)
    (rc : ReturnCode) (b : Buf) (c : CStruct) (len used : Nat),
    o ∉ placesAt base (Element.numbersOfAll es) →
    (Element.parseAlternatives longMax i es base n rc b c len used).Keeps o c
  | [], _, _, _, _, _, _, _, _, _ => by
    unfold Element.parseAlternatives
    cases i.existsOffset <;> rfl
  | e :: es, o, base, n, rc, b, c, len, used, ho => by
    obtain ⟨hself, hrest⟩ := not_mem_placesAt ho
    unfold Element.parseAlternatives
    have hfirst := parse_keeps longMax e o base b c len hself
    cases hr : e.parse longMax base b c len with
    | done b₁ c₁ tempLen =>
      rw [hr] at hfirst
      dsimp only
      split
      · exact hfirst
      · exact (congrFun (setExists_uint32 c₁ i true) o).trans hfirst
    | failed rc' b₁ c₁ =>
      rw [hr] at hfirst
      by_cases hrc : rc' = .wrongTag
      · subst hrc
        exact Parse.Keeps.trans hfirst
          (parseAlternatives_keeps longMax i es o base (n + 1) .wrongTag b₁ c₁ len used hrest)
      · cases rc' <;> first | exact hfirst | exact absurd rfl hrc
    | beyond => trivial

end

/-! ## The loop over the elements of a sequence-of -/

/-- The loop `while (len != 0)`, for less than `fuel` rounds, with the count in the structure: the calls
for the elements, and the result. -/
def sequenceOfLoop (longMax : Nat) (e : Element) (i : Info) (elementSize used : Nat) :
    Nat → Nat → Buf → CStruct → Nat → Option (List Call × Parse)
  | 0, _, _, _, _ => none
  | fuel + 1, base, b, c, len =>
    if len = 0 then some ([], .done b c used)
    else if (c.uint32 i.dataOffset).toNat ≥ i.maxDataLength then some ([], .failed .invalidSize b c)
    else
      let call : Call := ⟨e, base, b, c, len⟩
      match call.parse longMax with
      | .done b c tempLen =>
        if tempLen > len then some ([call], .failed .invalidSize b c)
        else
          (sequenceOfLoop longMax e i elementSize used fuel (base + elementSize) b
            (c.setUint32 i.dataOffset (c.uint32 i.dataOffset + 1)) (len - tempLen)).map
              fun r => (call :: r.1, r.2)
      | r => some ([call], r)

/-- The count of an array has a place of its own, apart from the numbers in its elements from number `k`
on. -/
def CountApart (e : Element) (i : Info) (elementSize base n : Nat) : Prop :=
  ∀ j < n, i.dataOffset ∉ placesAt (base + j * elementSize) e.numbers

theorem CountApart.next (h : CountApart e i elementSize base (n + 1)) :
    CountApart e i elementSize (base + elementSize) n := by
  intro j hj
  have hnext := h (j + 1) (Nat.succ_lt_succ hj)
  rwa [Nat.succ_mul, Nat.add_comm (j * elementSize), ← Nat.add_assoc] at hnext

/-- The count behind an element that is accepted. -/
theorem count_next (h : CountApart e i elementSize base (n + 1)) (hn : n + 1 ≤ i.maxDataLength)
    (hcount : c.uint32 i.dataOffset = UInt32.ofNat (i.maxDataLength - (n + 1)))
    (hr : e.parse longMax base b c len = .done b' c' tempLen) :
    c'.uint32 i.dataOffset + 1 = UInt32.ofNat (i.maxDataLength - n) := by
  have hkeeps := parse_keeps longMax e i.dataOffset base b c len
    (by simpa using h 0 (Nat.succ_pos n))
  rw [hr] at hkeeps
  have heq : c'.uint32 i.dataOffset = c.uint32 i.dataOffset := hkeeps
  have hsub : i.maxDataLength - n = i.maxDataLength - (n + 1) + 1 := by omega
  rw [heq, hcount, hsub, UInt32.ofNat_add]
  rfl

/-- The calls of a loop over an array: one for each of its elements in turn, not more than `n`. -/
structure InTurn (calls : List Call) (e : Element) (elementSize base n : Nat) : Prop where
  length_le : calls.length ≤ n
  base : ∀ j call, calls[j]? = some call → call.element = e ∧ call.base = base + j * elementSize
  located : ∀ call ∈ calls, call.b.Located

theorem InTurn.nil : InTurn [] e elementSize base n :=
  ⟨Nat.zero_le n, fun j call h => by simp at h, fun call h => by cases h⟩

theorem InTurn.cons {call : Call} (he : call.element = e) (hbase : call.base = base)
    (hb : call.b.Located) (h : InTurn calls e elementSize (base + elementSize) n) :
    InTurn (call :: calls) e elementSize base (n + 1) := by
  refine ⟨Nat.succ_le_succ h.length_le, fun j call' hj => ?_, List.forall_mem_cons.2 ⟨hb, h.located⟩⟩
  cases j with
  | zero =>
    obtain rfl : call = call' := by simpa using hj
    exact ⟨he, by rw [hbase, Nat.zero_mul, Nat.add_zero]⟩
  | succ j =>
    obtain ⟨he', hbase'⟩ := h.base j call' hj
    exact ⟨he', by rw [hbase', Nat.succ_mul, Nat.add_assoc, Nat.add_comm elementSize]⟩

/-- **The loop comes to an end** when it may go round once more than there are elements left, and does what
the model has. -/
theorem sequenceOfLoop_eq (hmax : i.maxDataLength < 2 ^ 32) : ∀ (n base : Nat) (b : Buf) (c : CStruct)
    (len : Nat), n ≤ i.maxDataLength → CountApart e i elementSize base n → b.Located →
    c.uint32 i.dataOffset = UInt32.ofNat (i.maxDataLength - n) →
    ∃ calls, (∀ fuel > n, sequenceOfLoop longMax e i elementSize used fuel base b c len =
        some (calls, parseSequenceOf (fun base b c quota => e.parse longMax base b c quota) i
          elementSize used n base b c len)) ∧
      InTurn calls e elementSize base n := by
  intro n
  induction n with
  | zero =>
    intro base b c len _ _ _ hcount
    have hfull : (c.uint32 i.dataOffset).toNat ≥ i.maxDataLength := by
      rw [hcount, Nat.sub_zero, UInt32.toNat_ofNat_of_lt' hmax]
    refine ⟨[], fun fuel hfuel => ?_, .nil⟩
    obtain ⟨fuel, rfl⟩ := Nat.exists_eq_add_of_lt hfuel
    unfold sequenceOfLoop parseSequenceOf
    rw [if_pos hfull]
    split <;> rfl
  | succ n ih =>
    intro base b c len hn hapart hb hcount
    have hmore : ¬(c.uint32 i.dataOffset).toNat ≥ i.maxDataLength := by
      rw [hcount, UInt32.toNat_ofNat_of_lt' (show _ < 2 ^ 32 by omega)]
      omega
    have hone : InTurn [⟨e, base, b, c, len⟩] e elementSize base (n + 1) :=
      .cons rfl rfl hb .nil
    by_cases hzero : len = 0
    · refine ⟨[], fun fuel hfuel => ?_, .nil⟩
      obtain ⟨fuel, rfl⟩ := Nat.exists_eq_add_of_lt hfuel
      unfold sequenceOfLoop parseSequenceOf
      rw [if_pos hzero, if_pos hzero]
    -- the first round
    have hround : ∀ fuel > n + 1, ∃ fuel' > n,
        sequenceOfLoop longMax e i elementSize used fuel base b c len =
          match e.parse longMax base b c len with
          | .done b₁ c₁ tempLen =>
            if tempLen > len then some ([⟨e, base, b, c, len⟩], .failed .invalidSize b₁ c₁)
            else
              (sequenceOfLoop longMax e i elementSize used fuel' (base + elementSize) b₁
                (c₁.setUint32 i.dataOffset (c₁.uint32 i.dataOffset + 1)) (len - tempLen)).map
                  fun r => (⟨e, base, b, c, len⟩ :: r.1, r.2)
          | r => some ([⟨e, base, b, c, len⟩], r) := by
      intro fuel hfuel
      obtain ⟨fuel', rfl⟩ : ∃ fuel', fuel = fuel' + 1 := ⟨fuel - 1, by omega⟩
      refine ⟨fuel', by omega, ?_⟩
      rw [sequenceOfLoop, if_neg hzero, if_neg hmore]
      rfl
    unfold parseSequenceOf
    rw [if_neg hzero]
    cases hr : e.parse longMax base b c len with
    | done b₁ c₁ tempLen =>
      rw [hr] at hround
      dsimp only at hround ⊢
      by_cases hlong : tempLen > len
      · refine ⟨_, fun fuel hfuel => ?_, hone⟩
        obtain ⟨fuel', -, heq⟩ := hround fuel hfuel
        rw [heq, if_pos hlong, if_pos hlong]
      · have hcount' := count_next hapart hn hcount hr
        have hb₁ := (parse_advances longMax e base b c len b₁ hb (by rw [hr]; rfl)).located
        obtain ⟨calls, hloop, hturn⟩ := ih (base + elementSize) b₁
          (c₁.setUint32 i.dataOffset (UInt32.ofNat (i.maxDataLength - n))) (len - tempLen) (by omega)
          hapart.next hb₁ (Function.update_self _ _ _)
        refine ⟨⟨e, base, b, c, len⟩ :: calls, fun fuel hfuel => ?_, .cons rfl rfl hb hturn⟩
        obtain ⟨fuel', hfuel', heq⟩ := hround fuel hfuel
        rw [heq, if_neg hlong, if_neg hlong, hcount', hloop fuel' hfuel']
        rfl
    | failed rc b₁ c₁ =>
      rw [hr] at hround
      refine ⟨_, fun fuel hfuel => ?_, hone⟩
      obtain ⟨fuel', -, heq⟩ := hround fuel hfuel
      exact heq
    | beyond =>
      rw [hr] at hround
      refine ⟨_, fun fuel hfuel => ?_, hone⟩
      obtain ⟨fuel', -, heq⟩ := hround fuel hfuel
      exact heq

/-- **More elements than the maximum** are rejected: when a loop with a larger one would go on. -/
theorem sequenceOfLoop_more {max' : Nat} {r' : Parse} : ∀ (n base : Nat) (b : Buf) (c : CStruct)
    (len fuel : Nat) (calls : List Call), n ≤ i.maxDataLength → CountApart e i elementSize base n →
    c.uint32 i.dataOffset = UInt32.ofNat (i.maxDataLength - n) →
    sequenceOfLoop longMax e { i with maxDataLength := max' } elementSize used fuel base b c len =
      some (calls, r') → n < calls.length →
    ∃ b' c', parseSequenceOf (fun base b c quota => e.parse longMax base b c quota) i elementSize used n
      base b c len = .failed .invalidSize b' c' := by
  intro n
  induction n with
  | zero =>
    intro base b c len fuel calls _ _ _ hloop hmore
    cases fuel with
    | zero => cases hloop
    | succ fuel =>
      unfold sequenceOfLoop at hloop
      unfold parseSequenceOf
      split at hloop
      · obtain ⟨rfl, -⟩ := Prod.mk.inj (Option.some.inj hloop)
        exact absurd hmore (Nat.lt_irrefl 0)
      · rename_i hlen
        exact ⟨b, c, if_neg hlen⟩
  | succ n ih =>
    intro base b c len fuel calls hn hapart hcount hloop hmore
    cases fuel with
    | zero => cases hloop
    | succ fuel =>
      unfold sequenceOfLoop at hloop
      unfold parseSequenceOf
      split at hloop
      · obtain ⟨rfl, -⟩ := Prod.mk.inj (Option.some.inj hloop)
        exact absurd hmore (Nat.not_lt_zero _)
      rename_i hlen
      rw [if_neg hlen]
      split at hloop
      · obtain ⟨rfl, -⟩ := Prod.mk.inj (Option.some.inj hloop)
        exact absurd hmore (Nat.not_lt_zero _)
      dsimp only [Call.parse] at hloop ⊢
      cases hr : e.parse longMax base b c len with
      | done b₁ c₁ tempLen =>
        rw [hr] at hloop
        dsimp only at hloop ⊢
        split at hloop
        · obtain ⟨rfl, -⟩ := Prod.mk.inj (Option.some.inj hloop)
          exact absurd hmore (by simp)
        rename_i hfit
        rw [if_neg hfit]
        obtain ⟨⟨calls', r₁⟩, hnext, heq⟩ := Option.map_eq_some_iff.1 hloop
        obtain ⟨rfl, rfl⟩ := Prod.mk.inj heq
        rw [count_next hapart hn hcount hr] at hnext
        exact ih _ _ _ _ fuel calls' (by omega) hapart.next (Function.update_self _ _ _) hnext
          (Nat.lt_of_succ_lt_succ hmore)
      | failed rc b₁ c₁ =>
        rw [hr] at hloop
        obtain ⟨rfl, -⟩ := Prod.mk.inj (Option.some.inj hloop)
        exact absurd hmore (by simp)
      | beyond =>
        rw [hr] at hloop
        obtain ⟨rfl, -⟩ := Prod.mk.inj (Option.some.inj hloop)
        exact absurd hmore (by simp)

/-! ## The loop over the alternatives of a choice -/

/-- The loop of a choice from alternative number `n` on, for less than `fuel` rounds: the calls for the
alternatives, and the result. -/
def choiceLoop (longMax : Nat) (i : Info) (es : List Element) (base len used : Nat) :
    Nat → Nat → ReturnCode → Buf → CStruct → Option (List Call × Parse)
  | 0, _, _, _, _ => none
  | fuel + 1, n, rc, b, c =>
    match es[n]? with
    | none =>
      match i.existsOffset with
      | none => some ([], .failed rc b c)
      | some o => some ([], .done b (c.setBoolean o false) used)
    | some e =>
      let call : Call := ⟨e, base, b, c, len⟩
      match call.parse longMax with
      | .done b c tempLen =>
        if tempLen > len ∨ (len ≠ noLength ∧ len ≠ tempLen) then
          some ([call], .failed .invalidSize b c)
        else
          some ([call], .done b ((c.setExists i true).setSelector i.dataOffset (UInt8.ofNat n))
            (add32 used tempLen))
      | .failed .wrongTag b c =>
        (choiceLoop longMax i es base len used fuel (n + 1) .wrongTag b c).map
          fun r => (call :: r.1, r.2)
      | r => some ([call], r)

/-- The calls of the loop of a choice: one for each of its alternatives in turn. -/
def EachOnce (calls : List Call) (es : List Element) : Prop := calls.map Call.element <+: es

/-- **The loop of a choice comes to an end** when it may go round once more than there are alternatives
left, and does what the model has. -/
theorem choiceLoop_eq (longMax : Nat) (i : Info) (es : List Element) (base len used : Nat) :
    ∀ (left : List Element) (n : Nat) (rc : ReturnCode) (b : Buf) (c : CStruct), es.drop n = left →
    ∃ calls, (∀ fuel > left.length, choiceLoop longMax i es base len used fuel n rc b c =
        some (calls, Element.parseAlternatives longMax i left base n rc b c len used)) ∧
      EachOnce calls left := by
  intro left
  induction left with
  | nil =>
    intro n rc b c hdrop
    have hend : es[n]? = none := List.getElem?_eq_none (List.drop_eq_nil_iff.1 hdrop)
    refine ⟨[], fun fuel hfuel => ?_, List.nil_prefix⟩
    obtain ⟨fuel, rfl⟩ := Nat.exists_eq_add_of_lt hfuel
    unfold choiceLoop Element.parseAlternatives
    rw [hend]
    cases i.existsOffset <;> rfl
  | cons e left ih =>
    intro n rc b c hdrop
    have hget : es[n]? = some e := by
      rw [← List.head?_drop, hdrop]
      rfl
    have hnext : es.drop (n + 1) = left := by
      rw [← List.tail_drop, hdrop]
      rfl
    have hone : EachOnce [⟨e, base, b, c, len⟩] (e :: left) := ⟨left, rfl⟩
    -- the first round
    have hround : ∀ fuel > (e :: left).length, ∃ fuel' > left.length,
        choiceLoop longMax i es base len used fuel n rc b c =
          match e.parse longMax base b c len with
          | .done b₁ c₁ tempLen =>
            if tempLen > len ∨ (len ≠ noLength ∧ len ≠ tempLen) then
              some ([⟨e, base, b, c, len⟩], .failed .invalidSize b₁ c₁)
            else
              some ([⟨e, base, b, c, len⟩],
                .done b₁ ((c₁.setExists i true).setSelector i.dataOffset (UInt8.ofNat n))
                  (add32 used tempLen))
          | .failed .wrongTag b₁ c₁ =>
            (choiceLoop longMax i es base len used fuel' (n + 1) .wrongTag b₁ c₁).map
              fun r => (⟨e, base, b, c, len⟩ :: r.1, r.2)
          | r => some ([⟨e, base, b, c, len⟩], r) := by
      intro fuel hfuel
      rw [List.length_cons] at hfuel
      obtain ⟨fuel', rfl⟩ : ∃ fuel', fuel = fuel' + 1 := ⟨fuel - 1, by omega⟩
      refine ⟨fuel', by omega, ?_⟩
      rw [choiceLoop, hget]
      rfl
    unfold Element.parseAlternatives
    cases hr : e.parse longMax base b c len with
    | done b₁ c₁ tempLen =>
      rw [hr] at hround
      refine ⟨_, fun fuel hfuel => ?_, hone⟩
      obtain ⟨fuel', -, heq⟩ := hround fuel hfuel
      rw [heq]
      dsimp only
      split <;> rfl
    | failed rc' b₁ c₁ =>
      rw [hr] at hround
      by_cases hrc : rc' = .wrongTag
      · subst hrc
        obtain ⟨calls, hloop, honce⟩ := ih (n + 1) .wrongTag b₁ c₁ hnext
        refine ⟨⟨e, base, b, c, len⟩ :: calls, fun fuel hfuel => ?_, List.cons_prefix_cons.2 ⟨rfl, honce⟩⟩
        obtain ⟨fuel', hfuel', heq⟩ := hround fuel hfuel
        rw [heq]
        dsimp only
        rw [hloop fuel' hfuel']
        rfl
      · refine ⟨_, fun fuel hfuel => ?_, hone⟩
        obtain ⟨fuel', -, heq⟩ := hround fuel hfuel
        rw [heq]
        cases rc' <;> first | rfl | exact absurd rfl hrc
    | beyond =>
      rw [hr] at hround
      refine ⟨_, fun fuel hfuel => ?_, hone⟩
      obtain ⟨fuel', -, heq⟩ := hround fuel hfuel
      rw [heq]

/-! ## The loops are bounded -/

/-- An element that is accepted moves the cursor exactly when a tag has been found for it. -/
theorem accepted_moves_iff {call : Call} (hb : call.b.Located)
    (h : call.parse longMax = .done b' c' tempLen) :
    call.b.location < b'.location ↔
      ∃ k ∈ call.element.calls longMax call.base call.b call.c call.quota, k.FindsTag := by
  have hbehind : (call.parse longMax).behind = some b' := by
    rw [h]
    rfl
  have hadv := parse_advances longMax call.element call.base call.b call.c call.quota b' hb hbehind
  have hle := hadv.le
  have hmoves : call.b.location < b'.location ↔ ¬b'.location = call.b.location := by omega
  rw [hmoves, hadv.stays]
  push Not
  rfl

/-- **The loops are bounded.** The loop over the elements of a sequence-of comes to an end; it calls the
parser for one place of the array after the other, for not more than the maximum number of elements;
an element that is accepted moves the cursor exactly when a tag has been found for it, or for a part of
it; and when a larger maximum would let in more elements, the encoding is rejected. The loop of a choice
comes to an end, and tries each alternative once. -/
theorem repetition_bounded (longMax : Nat) :
    (∀ (e : Element) (i : Info) (elementSize used base : Nat) (b : Buf) (c : CStruct) (len : Nat),
      i.maxDataLength < 2 ^ 32 → CountApart e i elementSize base i.maxDataLength → b.Located →
      ∃ calls r, (∀ fuel > i.maxDataLength, sequenceOfLoop longMax e i elementSize used fuel base b
          (c.setUint32 i.dataOffset 0) len = some (calls, r)) ∧
        calls.length ≤ i.maxDataLength ∧
        (∀ j call, calls[j]? = some call → call.element = e ∧ call.base = base + j * elementSize) ∧
        (∀ call ∈ calls, ∀ b' c' tempLen, call.parse longMax = .done b' c' tempLen →
          (call.b.location < b'.location ↔
            ∃ k ∈ call.element.calls longMax call.base call.b call.c call.quota, k.FindsTag)) ∧
        ∀ max' fuel calls' r', sequenceOfLoop longMax e { i with maxDataLength := max' } elementSize used
            fuel base b (c.setUint32 i.dataOffset 0) len = some (calls', r') →
          i.maxDataLength < calls'.length → ∃ b' c', r = .failed .invalidSize b' c') ∧
    ∀ (es : List Element) (i : Info) (base used : Nat) (b : Buf) (c : CStruct) (len : Nat),
      ∃ calls r, (∀ fuel > es.length, choiceLoop longMax i es base len used fuel 0 .fail b c =
          some (calls, r)) ∧ EachOnce calls es := by
  refine ⟨fun e i elementSize used base b c len hmax hapart hb => ?_, fun es i base used b c len => ?_⟩
  · have hzero : (c.setUint32 i.dataOffset 0).uint32 i.dataOffset =
        UInt32.ofNat (i.maxDataLength - i.maxDataLength) := by
      rw [Nat.sub_self]
      exact Function.update_self _ _ _
    obtain ⟨calls, hloop, hturn⟩ := sequenceOfLoop_eq hmax i.maxDataLength base b _ len (Nat.le_refl _)
      hapart hb hzero
    refine ⟨calls, _, hloop, hturn.length_le, hturn.base, fun call hcall b' c' tempLen hdone => ?_, ?_⟩
    · exact accepted_moves_iff (hturn.located call hcall) hdone
    · intro max' fuel calls' r' hmore hlength
      exact sequenceOfLoop_more i.maxDataLength base b _ len fuel calls' (Nat.le_refl _) hapart hzero
        hmore hlength
  · obtain ⟨calls, hloop, honce⟩ := choiceLoop_eq longMax i es base len used es 0 .fail b c List.drop_zero
    exact ⟨calls, _, hloop, honce⟩

/-- An array of at most two numbers. -/
def twoNumbers : Info := { tag := 0x30, maxDataLength := 2 }

/-- The loops over two numbers, and over an alternative. -/
theorem repetition_bounded_numbers :
    (∃ calls r, (∀ fuel > 2, sequenceOfLoop 0 (.integer { tag := 2, dataOffset := 4 }) twoNumbers 4 8 fuel 0
        ⟨[[2, 1, 5, 2, 1, 6]], 0, 0⟩ (({} : CStruct).setUint32 0 0) 6 = some (calls, r)) ∧
      calls.length ≤ 2) ∧
    ∃ calls r, choiceLoop 0 { tag := 0 } [.integer { tag := 2 }] 0 3 0 2 0 .fail ⟨[[2, 1, 5]], 0, 0⟩ {} =
      some (calls, r) := by
  have hapart : CountApart (.integer { tag := 2, dataOffset := 4 }) twoNumbers 4 0 2 := by
    rintro j - ⟨p, rfl, heq⟩
    simp only [twoNumbers] at heq
    omega
  obtain ⟨calls, r, hloop, hle, -⟩ := (repetition_bounded 0).1 _ twoNumbers 4 8 0
    ⟨[[2, 1, 5, 2, 1, 6]], 0, 0⟩ {} 6 (by decide) hapart fun _ _ => Nat.zero_le _
  obtain ⟨calls', r', hchoice, -⟩ := (repetition_bounded 0).2 [.integer { tag := 2 }] { tag := 0 } 0 0
    ⟨[[2, 1, 5]], 0, 0⟩ {} 3
  exact ⟨⟨calls, r, hloop, hle⟩, calls', r', hchoice 2 (by decide)⟩

/-- **Elements without an octet**: optional ones that are not there are accepted until the maximum is
reached, with the cursor where it was. -/
theorem absent_elements_accepted :
    ∃ calls b c, sequenceOfLoop 0 (.integer { tag := 2, existsOffset := some 8, dataOffset := 4 })
        twoNumbers 8 5 3 0 ⟨[[4, 1, 0x41]], 0, 0⟩ (({} : CStruct).setUint32 0 0) 3 =
          some (calls, .failed .invalidSize b c) ∧
      calls.length = 2 ∧ ∀ call ∈ calls, ∃ c', call.parse 0 = .done call.b c' 0 := by
  refine ⟨_, _, _, rfl, rfl, ?_⟩
  rw [List.forall_mem_cons, List.forall_mem_singleton]
  exact ⟨⟨_, rfl⟩, _, rfl⟩

end Asn
