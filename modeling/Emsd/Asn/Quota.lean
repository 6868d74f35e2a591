import Emsd.Asn.Advance

/-!
# The quota of an element

What `asn_berParse` reports as the length of an element, against how far it moves the cursor.

* `quota_discipline`: the calls of a run all move the cursor by what they report, and by no more than
  their quota, exactly when each keeps to its input: what an element takes up is within its quota,
  the elements of a sequence take up its whole length, an alternative that is not taken has found no
  tag, and a buffer is empty.
-/

namespace Asn

open Ocp

variable {b b' : Buf} {i : Info} {quota : Nat} {longMax : Nat} {k : Call} {xs ys : List Call}

/-! ## What an element takes up -/

/-- What a found header is followed by. -/
def Header.extent (contents : Buf → CStruct → Nat → Nat → Nat) : Header → Nat
  | .found b c len lengthOfLength => contents b c len lengthOfLength
  | _ => 0

namespace Element

mutual

/-- The octets that an element takes up, with its tag and its length: by its length in the input, or
by that of the alternative that is taken. A buffer takes up everything. -/
def extent (longMax : Nat) : Element → Nat → Buf → CStruct → Nat → Nat
  | .integer i, base, b, c, quota =>
    (header (tagged (.integer i)) (i.at base) b c quota).extent
      fun _ _ len lengthOfLength => usedSoFar lengthOfLength + len
  | .bitString i, base, b, c, quota =>
    (header (tagged (.bitString i)) (i.at base) b c quota).extent
      fun _ _ len lengthOfLength => usedSoFar lengthOfLength + len
  | .bcdString i, base, b, c, quota =>
    (header (tagged (.bcdString i)) (i.at base) b c quota).extent
      fun _ _ len lengthOfLength => usedSoFar lengthOfLength + len
  | .octetString i, base, b, c, quota =>
    (header (tagged (.octetString i)) (i.at base) b c quota).extent
      fun _ _ len lengthOfLength => usedSoFar lengthOfLength + len
  | .sequence i es, base, b, c, quota =>
    (header (tagged (.sequence i es)) (i.at base) b c quota).extent
      fun _ _ len lengthOfLength => usedSoFar lengthOfLength + len
  | .sequenceOf i elementSize e, base, b, c, quota =>
    (header (tagged (.sequenceOf i elementSize e)) (i.at base) b c quota).extent
      fun _ _ len lengthOfLength => lengthOfLength + 1 + len
  | .choice i es, base, b, c, quota =>
    (header (tagged (.choice i es)) (i.at base) b c quota).extent
      fun b c len lengthOfLength => usedSoFar lengthOfLength + extentOfTaken longMax es base b c len
  | .buffer i, base, b, c, quota =>
    (header (tagged (.buffer i)) (i.at base) b c quota).extent
      fun b _ _ lengthOfLength => usedSoFar lengthOfLength + b.rest.length
  | .other _, _, _, _, _ => 0

/-- The first alternative whose tags are not the wrong ones is taken. -/
def extentOfTaken (longMax : Nat) : List Element → Nat → Buf → CStruct → Nat → Nat
  | [], _, _, _, _ => 0
  | e :: es, base, b, c, len =>
    match parse longMax e base b c len with
    | .failed .wrongTag b c => extentOfTaken longMax es base b c len
    | _ => extent longMax e base b c len

end

/-- The elements of a sequence take up all of its length. -/
def TakeAll (longMax : Nat) : List Element → Nat → Buf → CStruct → Nat → Prop
  | [], _, _, _, len => len = 0
  | e :: es, base, b, c, len => len ≠ 0 → ∀ b' c' used,
    e.parse longMax base b c len = .done b' c' used →
      TakeAll longMax es base b' c' (len - e.extent longMax base b c len)

/-- The alternatives in front of the one that is taken have found no tag. -/
def Untouched (longMax : Nat) : List Element → Nat → Buf → CStruct → Nat → Prop
  | [], _, _, _, _ => True
  | e :: es, base, b, c, len => ∀ b' c', e.parse longMax base b c len = .failed .wrongTag b' c' →
    (∀ k ∈ e.calls longMax base b c len, ¬k.FindsTag) ∧ Untouched longMax es base b' c' len

/-- What is asked of the contents of an element. -/
def Whole (longMax base : Nat) (b : Buf) (c : CStruct) (len : Nat) : Element → Prop
  | .sequence _ es => TakeAll longMax es base b c len
  | .choice _ es => Untouched longMax es base b c len
  | .buffer _ => b.rest = []
  | _ => True

end Element

/-- The call moves the cursor by what it reports, and by no more than its quota, if it succeeds. -/
def Call.Exact (longMax : Nat) (k : Call) : Prop :=
  ∀ b c used, k.parse longMax = .done b c used →
    b.location = k.b.location + used ∧ used ≤ k.quota

def Call.extent (longMax : Nat) (k : Call) : Nat :=
  k.element.extent longMax k.base k.b k.c k.quota

/-- **The call keeps to its input**: an element that is accepted is within its quota, and its contents
are whole. -/
def Call.Conforms (longMax : Nat) (k : Call) : Prop :=
  (∃ b c used, k.parse longMax = .done b c used) →
    k.extent longMax ≤ k.quota ∧ ∀ b c len lengthOfLength,
      k.header = .found b c len lengthOfLength → k.element.Whole longMax k.base b c len

/-! ## The calls agree -/

/-- The calls move the cursor by what they report exactly when they keep to their input. -/
def Agree (longMax : Nat) (calls : List Call) : Prop :=
  (∀ k ∈ calls, k.Exact longMax) ↔ ∀ k ∈ calls, k.Conforms longMax

theorem Agree.nil : Agree longMax [] := by
  simp [Agree]

theorem Agree.append (hx : Agree longMax xs) (hy : Agree longMax ys) : Agree longMax (xs ++ ys) := by
  unfold Agree at hx hy ⊢
  rw [List.forall_mem_append, List.forall_mem_append, hx, hy]

theorem Agree.cons (hx : Agree longMax xs)
    (h : (∀ k ∈ xs, k.Exact longMax) → (k.Exact longMax ↔ k.Conforms longMax)) :
    Agree longMax (k :: xs) := by
  unfold Agree at hx ⊢
  rw [List.forall_mem_cons, List.forall_mem_cons, ← hx]
  exact and_congr_left h

/-- What is reported, against how far the cursor has been moved behind the header; the report is made
in 32 bits. -/
theorem exact_iff {us moved x : Nat} (hus : us < 2 ^ 32) (hq : quota < 2 ^ 32)
    (hm : x ≤ moved ∨ moved ≤ x ∧ x < 2 ^ 32) :
    us + moved = add32 us x ∧ add32 us x ≤ quota ↔ us + x ≤ quota ∧ moved = x := by
  unfold add32
  constructor
  · rintro ⟨hmoved, hle⟩
    have hmod : (us + x) % 2 ^ 32 ≤ us + x := Nat.mod_le _ _
    rcases hm with hm | ⟨hm, hx⟩ <;> omega
  · rintro ⟨hle, rfl⟩
    rw [Nat.mod_eq_of_lt (by omega)]
    exact ⟨rfl, hle⟩

/-- The report of a found element, and the conditions on it. -/
structure Measured (longMax : Nat) (k : Call) (b' : Buf) (used extent : Nat) (whole : Prop) :
    Prop where
  iff : b'.location = k.b.location + used ∧ used ≤ k.quota ↔ extent ≤ k.quota ∧ whole
  eq : b'.location = k.b.location + used → used ≤ k.quota → used = extent

theorem Measured.of_add32 {us x : Nat} (moved : Nat) {whole : Prop} (hus : us < 2 ^ 32)
    (hq : k.quota < 2 ^ 32) (hloc : b'.location = k.b.location + us + moved)
    (hm : x ≤ moved ∨ moved ≤ x ∧ x < 2 ^ 32) (hwhole : moved = x ↔ whole) :
    Measured longMax k b' (add32 us x) (us + x) whole := by
  have hiff := exact_iff hus hq hm
  rw [hwhole] at hiff
  have heq : b'.location = k.b.location + add32 us x ↔ us + moved = add32 us x := by
    rw [hloc]
    omega
  refine ⟨by rw [heq, hiff], fun hloc' hle => ?_⟩
  have hfit := (hiff.1 ⟨heq.1 hloc', hle⟩).1
  exact add32_of_lt (by omega)

/-- What is proved of each element: its calls agree, and what it reports is what it takes up. -/
structure Disciplined (longMax : Nat) (k : Call) (calls : List Call) : Prop where
  agree : Agree longMax calls
  reports : (∀ k' ∈ calls, k'.Exact longMax) → ∀ b c used,
    k.parse longMax = .done b c used → used = k.extent longMax

theorem Disciplined.of_header {contents : Contents} {calls : Buf → CStruct → Nat → List Call}
    (extent : Buf → CStruct → Nat → Nat → Nat) (hb : k.b.Located)
    (hparse : k.parse longMax = k.header.parse contents)
    (hextent : k.extent longMax = k.header.extent extent)
    (hagree : ∀ b₁ c₁ len lengthOfLength,
      Found k.element.tagged k.b b₁ len lengthOfLength → Agree longMax (calls b₁ c₁ len))
    (hstep : ∀ b₁ c₁ len lengthOfLength b' c' used,
      Found k.element.tagged k.b b₁ len lengthOfLength →
      (∀ k' ∈ calls b₁ c₁ len, k'.Exact longMax) →
      contents b₁ c₁ len lengthOfLength = .done b' c' used →
      Measured longMax k b' used (extent b₁ c₁ len lengthOfLength)
        (k.element.Whole longMax k.base b₁ c₁ len)) :
    Disciplined longMax k (k :: k.header.calls calls) := by
  by_cases hfound : ∃ b₁ c₁ len lengthOfLength, k.header = .found b₁ c₁ len lengthOfLength
  · obtain ⟨b₁, c₁, len, lengthOfLength, hheader⟩ := hfound
    have hf := header_found hb hheader
    have hcalls : k.header.calls calls = calls b₁ c₁ len := by rw [hheader]; rfl
    have hcontents : k.parse longMax = contents b₁ c₁ len lengthOfLength := by
      rw [hparse, hheader]; rfl
    have hext : k.extent longMax = extent b₁ c₁ len lengthOfLength := by rw [hextent, hheader]; rfl
    rw [hcalls]
    refine ⟨(hagree _ c₁ _ _ hf).cons fun hsub => ⟨fun hexact => ?_, fun hconf b' c' used hd => ?_⟩,
      fun hexact b' c' used hd => ?_⟩
    · rintro ⟨b', c', used, hd⟩
      have hm := hstep _ _ _ _ _ _ _ hf hsub (hcontents ▸ hd)
      obtain ⟨hle, hwhole⟩ := hm.iff.1 (hexact b' c' used hd)
      refine ⟨hext ▸ hle, fun b₂ c₂ len₂ lengthOfLength₂ hheader₂ => ?_⟩
      rw [hheader] at hheader₂
      cases hheader₂
      exact hwhole
    · have hm := hstep _ _ _ _ _ _ _ hf hsub (hcontents ▸ hd)
      obtain ⟨hle, hwhole⟩ := hconf ⟨b', c', used, hd⟩
      exact hm.iff.2 ⟨hext ▸ hle, hwhole _ _ _ _ hheader⟩
    · obtain ⟨hself, hsub⟩ := List.forall_mem_cons.1 hexact
      have hm := hstep _ _ _ _ _ _ _ hf hsub (hcontents ▸ hd)
      obtain ⟨hloc, hle⟩ := hself b' c' used hd
      rw [hext]
      exact hm.eq hloc hle
  · -- nothing is found, and nothing is reported
    have hno : ∀ b₁ c₁ len lengthOfLength, k.header ≠ .found b₁ c₁ len lengthOfLength :=
      fun b₁ c₁ len lengthOfLength heq => hfound ⟨b₁, c₁, len, lengthOfLength, heq⟩
    have hnone : k.header.calls calls = [] ∧ k.extent longMax = 0 ∧ ∀ b' c' used,
        k.parse longMax = .done b' c' used → used = 0 := by
      rw [hparse, hextent]
      cases hk : k.header with
      | found b₁ c₁ len lengthOfLength => exact absurd hk (hno _ _ _ _)
      | absent b c =>
        refine ⟨rfl, rfl, fun b' c' used hd => ?_⟩
        cases hd
        rfl
      | stop r => exact ⟨rfl, rfl, fun b' c' used hd => absurd hd (header_stop hk)⟩
    obtain ⟨hcalls, hext, hzero⟩ := hnone
    rw [hcalls]
    refine ⟨Agree.nil.cons fun _ => ⟨fun _ => ?_, fun _ b' c' used hd => ?_⟩,
      fun _ b' c' used hd => (hzero b' c' used hd).trans hext.symm⟩
    · rintro -
      exact ⟨hext ▸ Nat.zero_le _, fun _ _ _ _ heq => absurd heq (hno _ _ _ _)⟩
    · obtain rfl := hzero b' c' used hd
      rw [hparse] at hd
      have hbehind : (k.header.parse contents).behind = some b' := by rw [hd]; rfl
      obtain ⟨-, hloc⟩ := header_putBack hb hno hbehind
      exact ⟨hloc, Nat.zero_le _⟩

theorem disciplined_leaf (contents : Contents) (hb : k.b.Located)
    (hparse : k.parse longMax = k.header.parse contents)
    (hextent : k.extent longMax = k.header.extent
      fun _ _ len lengthOfLength => usedSoFar lengthOfLength + len)
    (hwhole : ∀ b c len, k.element.Whole longMax k.base b c len)
    (hreads : ∀ {b₁ c₁ len lengthOfLength b'}, b₁.Located →
      (contents b₁ c₁ len lengthOfLength).behind = some b' →
      Consumes (contents b₁ c₁ len lengthOfLength) b₁ len lengthOfLength b') :
    Disciplined longMax k [k] := by
  rw [← calls_none k.header]
  refine .of_header _ hb hparse hextent (fun _ _ _ _ _ => .nil)
    fun b₁ c₁ len lengthOfLength b' c' used hf _ hd => ?_
  have hr : Consumes (contents b₁ c₁ len lengthOfLength) b₁ len lengthOfLength b' :=
    hreads hf.located (by rw [hd]; rfl)
  have hlt := hr.len_lt
  -- an element without a tag has the length that stands for none
  have htag : k.element.tagged = true := by
    cases htag : k.element.tagged with
    | true => rfl
    | false =>
      rw [(hf.untagged htag).2] at hlt
      exact absurd hlt (by decide)
  have hpos := hf.tagged_pos htag
  obtain ⟨c'', hdone⟩ := hr.done hpos hf.length_le
  rw [hd] at hdone
  cases hdone
  have hloc := hr.location
  rw [hf.location, usedSoFar_pos hpos] at hloc
  have hw := hwhole b₁ c₁ len
  rw [usedSoFar_pos hpos]
  refine ⟨⟨fun h => ⟨h.2, hw⟩, fun h => ⟨by omega, h.1⟩⟩, fun _ _ => rfl⟩

theorem Element.mem_calls_self (e : Element) (base : Nat) (b : Buf) (c : CStruct) (quota : Nat) :
    ⟨e, base, b, c, quota⟩ ∈ e.calls longMax base b c quota := by
  cases e <;> unfold Element.calls <;> exact List.mem_cons_self

/-- The loop over the elements of a sequence-of goes through the whole length. -/
theorem agree_sequenceOf {parse : Parser} {calls : Nat → Buf → CStruct → Nat → List Call}
    (elementSize used : Nat)
    (hadvances : ∀ base b c len b', b.Located → (parse base b c len).behind = some b' →
      Advances (calls base b c len) b b')
    (hagree : ∀ base b c len, b.Located → len < 2 ^ 32 → Agree longMax (calls base b c len))
    (hexact : ∀ base b c len b' c' tempLen, (∀ k ∈ calls base b c len, k.Exact longMax) →
      parse base b c len = .done b' c' tempLen → b'.location = b.location + tempLen)
    (n : Nat) : ∀ (base : Nat) (b : Buf) (c : CStruct) (len : Nat), b.Located → len < 2 ^ 32 →
      Agree longMax (callsOfSequenceOf parse calls i elementSize n base b c len) ∧
      ((∀ k ∈ callsOfSequenceOf parse calls i elementSize n base b c len, k.Exact longMax) →
        ∀ b' c' u, parseSequenceOf parse i elementSize used n base b c len = .done b' c' u →
          u = used ∧ b'.location = b.location + len) := by
  induction n with
  | zero =>
    intro base b c len hb hlen
    unfold callsOfSequenceOf parseSequenceOf
    refine ⟨.nil, fun _ b' c' u hd => ?_⟩
    split at hd
    · rename_i hzero
      cases hd
      exact ⟨rfl, by omega⟩
    · cases hd
  | succ n ih =>
    intro base b c len hb hlen
    unfold callsOfSequenceOf parseSequenceOf
    by_cases hzero : len = 0
    · rw [if_pos hzero, if_pos hzero]
      refine ⟨.nil, fun _ b' c' u hd => ?_⟩
      cases hd
      exact ⟨rfl, by omega⟩
    rw [if_neg hzero, if_neg hzero]
    cases hr : parse base b c len with
    | failed rc b₁ c₁ =>
      exact ⟨(hagree base b c len hb hlen).append .nil, fun _ b' c' u hd => by cases hd⟩
    | beyond =>
      exact ⟨(hagree base b c len hb hlen).append .nil, fun _ b' c' u hd => by cases hd⟩
    | done b₁ c₁ tempLen =>
      dsimp only
      by_cases hfit : tempLen > len
      · rw [if_pos hfit, if_pos hfit]
        exact ⟨(hagree base b c len hb hlen).append .nil, fun _ b' c' u hd => by cases hd⟩
      rw [if_neg hfit, if_neg hfit]
      have hb₁ := (hadvances base b c len b₁ hb (by rw [hr]; rfl)).located
      obtain ⟨hagree', hrest⟩ := ih (base + elementSize) b₁
        (c₁.setUint32 i.dataOffset (UInt32.ofNat (i.maxDataLength - n))) (len - tempLen) hb₁
        (by omega)
      refine ⟨(hagree base b c len hb hlen).append hagree', fun hall b' c' u hd => ?_⟩
      obtain ⟨hfirst, hothers⟩ := List.forall_mem_append.1 hall
      have hloc := hexact base b c len b₁ c₁ tempLen hfirst hr
      obtain ⟨hu, hloc'⟩ := hrest hothers b' c' u hd
      exact ⟨hu, by omega⟩

mutual

/-- **Each element**: its calls agree, and what it reports is what it takes up. -/
theorem disciplined (longMax : Nat) : ∀ (e : Element) (base : Nat) (b : Buf) (c : CStruct)
    (quota : Nat), b.Located → quota < 2 ^ 32 →
      Disciplined longMax ⟨e, base, b, c, quota⟩ (e.calls longMax base b c quota)
  | .integer i, base, b, c, quota, hb, _ => by
    unfold Element.calls
    refine disciplined_leaf (parseInteger (i.at base)) hb ?_ ?_ (fun _ _ _ => trivial)
      parseInteger_reads
    · unfold Call.parse Element.parse; rfl
    · unfold Call.extent Element.extent; rfl
  | .bitString i, base, b, c, quota, hb, _ => by
    unfold Element.calls
    refine disciplined_leaf (parseBitString (i.at base)) hb ?_ ?_ (fun _ _ _ => trivial)
      parseBitString_reads
    · unfold Call.parse Element.parse; rfl
    · unfold Call.extent Element.extent; rfl
  | .bcdString i, base, b, c, quota, hb, _ => by
    unfold Element.calls
    refine disciplined_leaf (parseString (i.at base) (storeBcdString longMax (i.at base))) hb ?_ ?_
      (fun _ _ _ => trivial) (parseString_reads storeBcdString_stores)
    · unfold Call.parse Element.parse; rfl
    · unfold Call.extent Element.extent; rfl
  | .octetString i, base, b, c, quota, hb, _ => by
    unfold Element.calls
    refine disciplined_leaf (parseString (i.at base) (storeOctetString (i.at base))) hb ?_ ?_
      (fun _ _ _ => trivial) (parseString_reads storeOctetString_stores)
    · unfold Call.parse Element.parse; rfl
    · unfold Call.extent Element.extent; rfl
  | .sequence i es, base, b, c, quota, hb, hq => by
    unfold Element.calls
    refine Disciplined.of_header _ (k := ⟨.sequence i es, base, b, c, quota⟩) hb
      (by unfold Call.parse Element.parse; rfl) (by unfold Call.extent Element.extent; rfl)
      (fun b₁ c₁ len lengthOfLength hf =>
        (disciplinedElements longMax es base b₁ c₁ len 0 hf.located hf.len_lt).1)
      fun b₁ c₁ len lengthOfLength b' c' used hf hexact hd => ?_
    obtain ⟨-, hrest⟩ := disciplinedElements longMax es base b₁ c₁ len
      (add32 (usedSoFar lengthOfLength) len) hf.located hf.len_lt
    obtain ⟨rfl, moved, hmoved, hle, htake⟩ := hrest hexact b' c' used hd
    have hus := usedSoFar_le hf.length_le
    exact .of_add32 moved (by omega) hq (by rw [hmoved, hf.location]) (.inr ⟨hle, hf.len_lt⟩) htake
  | .sequenceOf i elementSize e, base, b, c, quota, hb, hq => by
    unfold Element.calls
    have hloop := fun used => agree_sequenceOf (i := i.at base) elementSize used
      (parse_advances longMax e)
      (fun base b c len hb hlen => (disciplined longMax e base b c len hb hlen).agree)
      (fun base b c len b' c' tempLen hexact hd =>
        (hexact _ (e.mem_calls_self base b c len) b' c' tempLen hd).1) i.maxDataLength base
    refine Disciplined.of_header _ (k := ⟨.sequenceOf i elementSize e, base, b, c, quota⟩) hb
      (by unfold Call.parse Element.parse; rfl) (by unfold Call.extent Element.extent; rfl)
      (fun b₁ c₁ len lengthOfLength hf => (hloop 0 b₁ _ len hf.located hf.len_lt).1)
      fun b₁ c₁ len lengthOfLength b' c' used hf hexact hd => ?_
    obtain ⟨rfl, hmoved⟩ := (hloop (add32 (lengthOfLength + 1) len) b₁ _ len hf.located
      hf.len_lt).2 hexact b' c' used hd
    have hloc := hf.location
    cases htag : (Element.sequenceOf i elementSize e).tagged with
    | true =>
      have hpos := hf.tagged_pos htag
      have hle := hf.length_le
      rw [usedSoFar_pos hpos] at hloc
      exact .of_add32 len (by omega) hq (by rw [hmoved, hloc]) (.inl (Nat.le_refl _))
        ⟨fun _ => trivial, fun _ => rfl⟩
    | false =>
      -- without a tag the report wraps around
      obtain ⟨rfl, rfl⟩ := hf.untagged htag
      have hstart : b₁.location = b.location := hloc
      have hwrap : add32 (0 + 1) noLength = 0 := by decide
      have hno : noLength = 2 ^ 32 - 1 := rfl
      have hfalse : b'.location ≠ b.location + 0 := by
        rw [hmoved, hstart, hno]
        omega
      rw [hwrap]
      refine ⟨⟨fun h => absurd h.1 hfalse, fun h => ?_⟩, fun h => absurd h hfalse⟩
      have hle : 0 + 1 + noLength ≤ quota := h.1
      rw [hno] at hle
      omega
  | .choice i es, base, b, c, quota, hb, hq => by
    unfold Element.calls
    refine Disciplined.of_header _ (k := ⟨.choice i es, base, b, c, quota⟩) hb
      (by unfold Call.parse Element.parse; rfl) (by unfold Call.extent Element.extent; rfl)
      (fun b₁ c₁ len lengthOfLength hf =>
        (disciplinedAlternatives longMax (i.at base) es base 0 .fail b₁ c₁ len 0 hf.located
          hf.len_lt (by decide)).1)
      fun b₁ c₁ len lengthOfLength b' c' used hf hexact hd => ?_
    have hus := usedSoFar_le hf.length_le
    obtain ⟨-, hrest⟩ := disciplinedAlternatives longMax (i.at base) es base 0 .fail b₁ c₁ len
      (usedSoFar lengthOfLength) hf.located hf.len_lt (by omega)
    obtain ⟨rfl, moved, hmoved, hle, huntouched⟩ := hrest hexact b' c' used hd
    exact .of_add32 _ (by omega) hq (by rw [hmoved, hf.location]) (.inl hle) huntouched
  | .buffer i, base, b, c, quota, hb, hq => by
    unfold Element.calls
    rw [← calls_none (Call.header ⟨.buffer i, base, b, c, quota⟩)]
    refine Disciplined.of_header _ (k := ⟨.buffer i, base, b, c, quota⟩) hb
      (by unfold Call.parse Element.parse; rfl) (by unfold Call.extent Element.extent; rfl)
      (fun _ _ _ _ _ => .nil)
      fun b₁ c₁ len lengthOfLength b' c' used hf _ hd => ?_
    cases hd
    have hus := usedSoFar_le hf.length_le
    rw [Buf.cloneBufferPortion_octets hf.located]
    have hlen : (b₁.rest.take bufRemainder).length < 2 ^ 32 := by
      rw [List.length_take]
      exact lt_of_le_of_lt (Nat.min_le_left _ _) (by decide)
    have hnil : 0 = (b₁.rest.take bufRemainder).length ↔ b₁.rest = [] := by
      rw [List.length_take, ← List.length_eq_zero_iff]
      have hpos : bufRemainder ≠ 0 := by decide
      omega
    have hm : Measured longMax ⟨.buffer i, base, b, c, quota⟩ b₁ (add32 (usedSoFar lengthOfLength) _) _ _ :=
      .of_add32 0 (by omega) hq (by rw [hf.location]; rfl) (.inr ⟨Nat.zero_le _, hlen⟩) hnil
    -- what is left beyond `BUF_REMAINDER` does not matter
    refine ⟨hm.iff.trans ⟨fun h => ?_, fun h => ?_⟩, fun hloc hle => ?_⟩
    · have hrest : b₁.rest = [] := h.2
      exact ⟨by rw [hrest]; simpa [hrest] using h.1, hrest⟩
    · have hrest : b₁.rest = [] := h.2
      exact ⟨by rw [hrest]; simpa [hrest] using h.1, hrest⟩
    · have hrest := (hm.iff.1 ⟨hloc, hle⟩).2
      rw [hm.eq hloc hle, hrest]
      rfl
  | .other i, base, b, c, quota, hb, _ => by
    unfold Element.calls
    rw [← calls_none (Call.header ⟨.other i, base, b, c, quota⟩)]
    refine Disciplined.of_header (fun _ _ _ _ => 0)
      (k := ⟨.other i, base, b, c, quota⟩) hb
      (by unfold Call.parse Element.parse; rfl) ?_ (fun _ _ _ _ _ => .nil)
      fun b₁ c₁ len lengthOfLength b' c' used hf _ hd => by cases hd
    unfold Call.extent Element.extent
    cases (Call.header ⟨.other i, base, b, c, quota⟩) <;> rfl

theorem disciplinedElements (longMax : Nat) : ∀ (es : List Element) (base : Nat) (b : Buf)
    (c : CStruct) (len used : Nat), b.Located → len < 2 ^ 32 →
      Agree longMax (Element.callsOfElements longMax es base b c len) ∧
      ((∀ k ∈ Element.callsOfElements longMax es base b c len, k.Exact longMax) →
        ∀ b' c' u, Element.parseElements longMax es base b c len used = .done b' c' u →
          u = used ∧ ∃ moved, b'.location = b.location + moved ∧ moved ≤ len ∧
            (moved = len ↔ Element.TakeAll longMax es base b c len))
  | [], base, b, c, len, used, hb, hlen => by
    unfold Element.callsOfElements Element.parseElements Element.TakeAll
    refine ⟨.nil, fun _ b' c' u hd => ?_⟩
    cases hd
    exact ⟨rfl, 0, rfl, Nat.zero_le _, eq_comm⟩
  | e :: es, base, b, c, len, used, hb, hlen => by
    unfold Element.callsOfElements Element.parseElements Element.TakeAll
    by_cases hzero : len = 0
    · rw [if_pos hzero, if_pos hzero]
      refine ⟨.nil, fun _ b' c' u hd => ?_⟩
      cases hd
      exact ⟨rfl, 0, rfl, Nat.zero_le _, fun _ hne => absurd hzero hne, fun _ => hzero.symm⟩
    rw [if_neg hzero, if_neg hzero]
    have he := disciplined longMax e base b c len hb hlen
    cases hr : e.parse longMax base b c len with
    | failed rc b₁ c₁ => exact ⟨he.agree.append .nil, fun _ b' c' u hd => by cases hd⟩
    | beyond => exact ⟨he.agree.append .nil, fun _ b' c' u hd => by cases hd⟩
    | done b₁ c₁ tempLen =>
      dsimp only
      by_cases hfit : tempLen > len
      · rw [if_pos hfit, if_pos hfit]
        exact ⟨he.agree.append .nil, fun _ b' c' u hd => by cases hd⟩
      rw [if_neg hfit, if_neg hfit]
      have hb₁ := (parse_advances longMax e base b c len b₁ hb (by rw [hr]; rfl)).located
      obtain ⟨hagree, hrest⟩ :=
        disciplinedElements longMax es base b₁ c₁ (len - tempLen) used hb₁ (by omega)
      refine ⟨he.agree.append hagree, fun hall b' c' u hd => ?_⟩
      obtain ⟨hfirst, hothers⟩ := List.forall_mem_append.1 hall
      have hloc := (hfirst _ (e.mem_calls_self base b c len) b₁ c₁ tempLen hr).1
      have htemp : tempLen = e.extent longMax base b c len := he.reports hfirst b₁ c₁ tempLen hr
      obtain ⟨hu, moved, hmoved, hle, htake⟩ := hrest hothers b' c' u hd
      refine ⟨hu, tempLen + moved, by rw [hmoved, hloc, Nat.add_assoc], by omega, ?_⟩
      have hiff : tempLen + moved = len ↔ moved = len - tempLen := by omega
      rw [hiff, htake]
      refine ⟨fun h _ b₂ c₂ used₂ heq => ?_, fun h => ?_⟩
      · cases heq
        rwa [← htemp]
      · have hnext := h hzero b₁ c₁ tempLen rfl
        rwa [← htemp] at hnext

theorem disciplinedAlternatives (longMax : Nat) (i : Info) : ∀ (es : List Element) (base n : Nat)
    (rc : ReturnCode) (b : Buf) (c : CStruct) (len used : Nat), b.Located → len < 2 ^ 32 →
      used < 2 ^ 32 → Agree longMax (Element.callsOfAlternatives longMax es base b c len) ∧
      ((∀ k ∈ Element.callsOfAlternatives longMax es base b c len, k.Exact longMax) →
        ∀ b' c' u, Element.parseAlternatives longMax i es base n rc b c len used = .done b' c' u →
          u = add32 used (Element.extentOfTaken longMax es base b c len) ∧
          ∃ moved, b'.location = b.location + moved ∧
            Element.extentOfTaken longMax es base b c len ≤ moved ∧
            (moved = Element.extentOfTaken longMax es base b c len ↔
              Element.Untouched longMax es base b c len))
  | [], base, n, rc, b, c, len, used, hb, hlen, hused => by
    unfold Element.callsOfAlternatives Element.parseAlternatives Element.extentOfTaken
      Element.Untouched
    refine ⟨.nil, fun _ b' c' u hd => ?_⟩
    cases hexists : i.existsOffset with
    | none => rw [hexists] at hd; cases hd
    | some o =>
      rw [hexists] at hd
      cases hd
      have hzero : add32 used 0 = used := add32_of_lt (show used + 0 < 2 ^ 32 from hused)
      exact ⟨hzero.symm, 0, rfl, Nat.le_refl _, fun _ => trivial, fun _ => rfl⟩
  | e :: es, base, n, rc, b, c, len, used, hb, hlen, hused => by
    unfold Element.callsOfAlternatives Element.parseAlternatives Element.extentOfTaken
      Element.Untouched
    have he := disciplined longMax e base b c len hb hlen
    cases hr : e.parse longMax base b c len with
    | beyond => exact ⟨he.agree.append .nil, fun _ b' c' u hd => by cases hd⟩
    | done b₁ c₁ tempLen =>
      dsimp only
      refine ⟨he.agree.append .nil, fun hall b' c' u hd => ?_⟩
      rw [List.append_nil] at hall
      split at hd
      · cases hd
      cases hd
      have hloc := (hall _ (e.mem_calls_self base b c len) _ c₁ tempLen hr).1
      have htemp : tempLen = e.extent longMax base b c len := he.reports hall _ c₁ tempLen hr
      rw [← htemp]
      exact ⟨rfl, tempLen, hloc, Nat.le_refl _, fun _ _ _ heq => (by cases heq), fun _ => rfl⟩
    | failed rc' b₁ c₁ =>
      by_cases hrc : rc' = .wrongTag
      · subst hrc
        dsimp only
        have hadv := parse_advances longMax e base b c len b₁ hb (by rw [hr]; rfl)
        have hle₁ := hadv.le
        obtain ⟨hagree, hrest⟩ := disciplinedAlternatives longMax i es base (n + 1) .wrongTag b₁ c₁
          len used hadv.located hlen hused
        refine ⟨he.agree.append hagree, fun hall b' c' u hd => ?_⟩
        obtain ⟨-, hothers⟩ := List.forall_mem_append.1 hall
        obtain ⟨hu, moved, hmoved, hle, huntouched⟩ := hrest hothers b' c' u hd
        obtain ⟨x, hx⟩ : ∃ x, Element.extentOfTaken longMax es base b₁ c₁ len = x := ⟨_, rfl⟩
        rw [hx] at hu hle huntouched ⊢
        refine ⟨hu, b₁.location - b.location + moved, by omega, by omega, ?_⟩
        -- the cursor has stayed where it was before this alternative, and behind it
        have hiff : b₁.location - b.location + moved = x ↔
            b₁.location = b.location ∧ moved = x := by omega
        rw [hiff, hadv.stays, huntouched]
        refine ⟨fun h b₂ c₂ heq => ?_, fun h => h b₁ c₁ rfl⟩
        cases heq
        exact h
      · refine ⟨?_, fun _ b' c' u hd => ?_⟩
        · cases rc' <;> first | exact he.agree.append .nil | exact absurd rfl hrc
        · cases rc' <;> first | cases hd | exact absurd rfl hrc

end

/-- **The quota discipline**: in every run the calls all move the cursor by what they report, and by
no more than their quota, exactly when each keeps to its input. -/
theorem quota_discipline (longMax : Nat) (e : Element) (base : Nat) (c : CStruct) (quota : UInt32)
    (hb : b.Located) :
    (∀ k ∈ e.calls longMax base b c quota.toNat, k.Exact longMax) ↔
      ∀ k ∈ e.calls longMax base b c quota.toNat, k.Conforms longMax :=
  (disciplined longMax e base b c quota.toNat hb quota.toNat_lt).agree

/-- A sequence of one integer, in an input with two. -/
theorem quota_discipline_pair :
    (∀ k ∈ Element.calls 0x7fffffff (.sequence { tag := 0x10 } [.integer { tag := 2 }]) 0
        ⟨[[0x30, 6, 2, 1, 5, 2, 1, 7]], 0, 0⟩ {} (8 : UInt32).toNat, k.Exact 0x7fffffff) ↔
      ∀ k ∈ Element.calls 0x7fffffff (.sequence { tag := 0x10 } [.integer { tag := 2 }]) 0
        ⟨[[0x30, 6, 2, 1, 5, 2, 1, 7]], 0, 0⟩ {} (8 : UInt32).toNat, k.Conforms 0x7fffffff :=
  quota_discipline 0x7fffffff _ 0 {} 8 (Buf.resetParse_located (b := ⟨_, 0, 0⟩))

/-- The element behind the table's is counted and not passed over; a choice of an integer reports more
than its quota; a buffer reports what is left and stays where it is. -/
theorem reported_not_advanced :
    ¬Call.Exact 0x7fffffff ⟨.sequence { tag := 0x10 } [.integer { tag := 2 }], 0,
        ⟨[[0x30, 6, 2, 1, 5, 2, 1, 7]], 0, 0⟩, {}, 8⟩ ∧
      ¬Call.Exact 0x7fffffff ⟨.choice { tag := 0 } [.integer { tag := 2 }], 0,
        ⟨[[2, 1, 5]], 0, 0⟩, {}, 1⟩ ∧
      ¬Call.Exact 0x7fffffff ⟨.buffer { tag := 4 }, 0, ⟨[[4, 1, 0x41]], 0, 0⟩, {}, 3⟩ := by
  refine ⟨fun h => ?_, fun h => ?_, fun h => ?_⟩
  · have hloc := (h ⟨[[0x30, 6, 2, 1, 5, 2, 1, 7]], 0, 5⟩ _ 8 rfl).1
    exact absurd hloc (by decide)
  · have hle := (h ⟨[[2, 1, 5]], 0, 3⟩ _ 3 rfl).2
    exact absurd hle (by decide)
  · have hloc := (h ⟨[[4, 1, 0x41]], 0, 2⟩ _ 3 rfl).1
    exact absurd hloc (by decide)

end Asn
