import Emsd.Asn.Elements
import Emsd.Ocp.Location

/-!
# How far the parser moves the cursor (`asnber.c`)

* `header_found`: a header moves the cursor by the tag and the length.
* `parse_advances`: an element that is accepted, or that is not there, leaves the cursor where it was
  exactly when no tag has been found for it.
-/

namespace Asn

open Ocp

variable {b b' b₁ b₂ : Buf} {c c' : CStruct} {i : Info} {len lengthOfLength used quota base : Nat}
  {longMax : Nat} {k : Call} {xs ys : List Call}

/-! ## The header -/

/-- The call finds the tag of its element. -/
def Call.FindsTag (k : Call) : Prop :=
  k.element.tagged = true ∧ ∃ b c len lengthOfLength, k.header = .found b c len lengthOfLength

/-- What is known once the header of an element is found. -/
structure Found (tagged : Bool) (b b' : Buf) (len lengthOfLength : Nat) : Prop where
  located : b'.Located
  location : b'.location = b.location + usedSoFar lengthOfLength
  len_lt : len < 2 ^ 32
  length_le : lengthOfLength ≤ 128
  untagged : tagged = false → lengthOfLength = 0 ∧ len = noLength
  tagged_pos : tagged = true → 0 < lengthOfLength

theorem usedSoFar_zero : usedSoFar 0 = 0 := rfl

theorem usedSoFar_le (h : lengthOfLength ≤ 128) : usedSoFar lengthOfLength ≤ 129 := by
  unfold usedSoFar
  split <;> omega

theorem shiftIn_lt (octets : Octets) : shiftIn octets < 2 ^ 32 := by
  have hfold : ∀ (octets : Octets) (v : Nat), v < 2 ^ 32 →
      octets.foldl (fun v octet => (v * 256 + octet.toNat) % 2 ^ 32) v < 2 ^ 32 := by
    intro octets
    induction octets with
    | nil => exact fun v hv => hv
    | cons octet octets ih => exact fun v _ => ih _ (Nat.mod_lt _ (by decide))
  exact hfold octets 0 (by decide)

theorem getOctets_moves {octets : Octets} {n : Nat} (hb : b.Located)
    (h : getOctets n b = .ok octets b') : b'.Located ∧ b'.location = b.location + n := by
  induction n generalizing b octets with
  | zero =>
    cases h
    exact ⟨hb, rfl⟩
  | succ n ih =>
    unfold getOctets at h
    cases hget : b.getOctet with
    | exhausted => rw [hget] at h; cases h
    | beyond => rw [hget] at h; cases h
    | ok octet b₁ =>
      rw [hget] at h
      dsimp only at h
      obtain ⟨⟨hb₁, hloc⟩, -⟩ := Buf.getOctet_moves hb hget
      cases hrest : getOctets n b₁ with
      | exhausted => rw [hrest] at h; cases h
      | beyond => rw [hrest] at h; cases h
      | ok octets' b₂ =>
        rw [hrest] at h
        cases h
        obtain ⟨hb₂, hloc₂⟩ := ih hb₁ hrest
        exact ⟨hb₂, by omega⟩

theorem getLength_moves (hb : b.Located) (h : getLength b = .ok (len, lengthOfLength) b') :
    b'.Located ∧ b'.location = b.location + lengthOfLength ∧ len < 2 ^ 32 ∧
      0 < lengthOfLength ∧ lengthOfLength ≤ 128 := by
  unfold getLength at h
  cases hget : b.getOctet with
  | exhausted => rw [hget] at h; cases h
  | beyond => rw [hget] at h; cases h
  | ok x b₁ =>
    rw [hget] at h
    dsimp only at h
    obtain ⟨⟨hb₁, hloc⟩, -⟩ := Buf.getOctet_moves hb hget
    split at h
    · -- the long form
      cases hocts : getOctets (x &&& 0x7f).toNat b₁ with
      | exhausted => rw [hocts] at h; cases h
      | beyond => rw [hocts] at h; cases h
      | ok octets b₂ =>
        rw [hocts] at h
        cases h
        obtain ⟨hb₂, hloc₂⟩ := getOctets_moves hb₁ hocts
        have hmask : (x &&& 0x7f).toNat ≤ 0x7f := by
          rw [UInt8.toNat_and]
          exact Nat.and_le_right
        exact ⟨hb₂, by omega, shiftIn_lt octets, by omega, by omega⟩
    · cases h
      have hx := x.toNat_lt
      exact ⟨hb₁, hloc, by omega, by omega, by omega⟩

/-- **The header** moves the cursor by the tag and the length. -/
theorem header_found {tagged : Bool} (hb : b.Located)
    (h : header tagged i b c quota = .found b' c' len lengthOfLength) :
    Found tagged b b' len lengthOfLength := by
  unfold header at h
  cases tagged with
  | false =>
    cases h
    exact ⟨hb, rfl, by decide, by decide, fun _ => ⟨rfl, rfl⟩, fun h => by cases h⟩
  | true =>
    simp only [Bool.not_true, Bool.false_eq_true, if_false] at h
    cases hget : b.getOctet with
    | exhausted => rw [hget] at h; cases h
    | beyond => rw [hget] at h; cases h
    | ok x b₁ =>
      rw [hget] at h
      dsimp only at h
      obtain ⟨⟨hb₁, hloc⟩, -⟩ := Buf.getOctet_moves hb hget
      split at h
      · split at h <;> cases h
      cases hlen : getLength b₁ with
      | exhausted => rw [hlen] at h; cases h
      | beyond => rw [hlen] at h; cases h
      | ok r b₂ =>
        obtain ⟨len', lengthOfLength'⟩ := r
        rw [hlen] at h
        dsimp only at h
        obtain ⟨hb₂, hloc₂, hlt, hpos, hle⟩ := getLength_moves hb₁ hlen
        split at h
        · cases h
        · cases h
          refine ⟨hb₂, ?_, hlt, hle, (fun h => by cases h), fun _ => hpos⟩
          rw [usedSoFar_pos hpos]
          omega

/-- The cursor behind an element that is accepted, or that is not there. -/
def Parse.behind : Parse → Option Buf
  | .done b _ _ => some b
  | .failed rc b _ => if rc = .wrongTag then some b else none
  | .beyond => none

/-- A tag that is not the expected one is put back. -/
theorem header_putBack {tagged : Bool} {contents : Contents} (hb : b.Located)
    (hnot : ∀ b₁ c₁ len lengthOfLength, header tagged i b c quota ≠ .found b₁ c₁ len lengthOfLength)
    (h : ((header tagged i b c quota).parse contents).behind = some b') :
    b'.Located ∧ b'.location = b.location := by
  cases tagged with
  | false => exact absurd rfl (hnot b c noLength 0)
  | true =>
    unfold header at h hnot
    simp only [Bool.not_true, Bool.false_eq_true, if_false] at h hnot
    cases hget : b.getOctet with
    | exhausted => rw [hget] at h; cases h
    | beyond => rw [hget] at h; cases h
    | ok x b₁ =>
      rw [hget] at h hnot
      dsimp only at h hnot
      obtain ⟨-, hb₁, hloc⟩ := Buf.getOctet_moves hb hget
      split at h
      · split at h
        · cases h
          exact ⟨hb₁, hloc⟩
        · cases h
          exact ⟨hb₁, hloc⟩
      · rename_i htag
        rw [if_neg htag] at hnot
        cases hlen : getLength b₁ with
        | exhausted => rw [hlen] at h; cases h
        | beyond => rw [hlen] at h; cases h
        | ok r b₂ =>
          obtain ⟨len', lengthOfLength'⟩ := r
          rw [hlen] at h hnot
          dsimp only at h hnot
          split at h
          · cases h
          · rename_i hquota
            rw [if_neg hquota] at hnot
            exact absurd rfl (hnot _ _ _ _)

/-- A header at which parsing ends is not accepted. -/
theorem header_stop {tagged : Bool} {r : Parse} (h : header tagged i b c quota = .stop r) :
    r ≠ .done b' c' used := by
  rintro rfl
  unfold header at h
  split at h
  · cases h
  split at h
  · cases h
  · cases h
  split at h
  · split at h <;> cases h
  split at h
  · cases h
  · cases h
  · split at h <;> cases h

/-! ## Elements that find no tag -/

/-- The cursor has been moved on from `b` to `b'` by the calls, and it is where it was only if none of
them has found its tag. -/
structure Advances (calls : List Call) (b b' : Buf) : Prop where
  located : b'.Located
  le : b.location ≤ b'.location
  stays : b'.location = b.location ↔ ∀ k ∈ calls, ¬k.FindsTag

theorem Advances.refl (hb : b.Located) : Advances [] b b :=
  ⟨hb, Nat.le_refl _, fun _ _ hk => (nomatch hk), fun _ => rfl⟩

theorem Advances.trans (h₁ : Advances xs b b₁) (h₂ : Advances ys b₁ b₂) :
    Advances (xs ++ ys) b b₂ := by
  have hle₁ := h₁.le
  have hle₂ := h₂.le
  refine ⟨h₂.located, by omega, fun heq k hk => ?_, fun hno => ?_⟩
  · rcases List.mem_append.1 hk with hk | hk
    · exact h₁.stays.1 (by omega) k hk
    · exact h₂.stays.1 (by omega) k hk
  · have heq₁ := h₁.stays.2 fun k hk => hno k (List.mem_append_left _ hk)
    have heq₂ := h₂.stays.2 fun k hk => hno k (List.mem_append_right _ hk)
    omega

/-- One element, whose contents begin behind its header. -/
theorem Advances.of_header {contents : Contents} {calls : Buf → CStruct → Nat → List Call}
    (hb : k.b.Located)
    (hstep : ∀ b₁ c₁ len lengthOfLength b', k.header = .found b₁ c₁ len lengthOfLength →
      Found k.element.tagged k.b b₁ len lengthOfLength →
      (contents b₁ c₁ len lengthOfLength).behind = some b' →
      b'.Located ∧ b₁.location ≤ b'.location ∧ (lengthOfLength = 0 →
        (b'.location = b₁.location ↔ ∀ k ∈ calls b₁ c₁ len, ¬k.FindsTag)))
    (h : (k.header.parse contents).behind = some b') :
    Advances (k :: k.header.calls calls) k.b b' := by
  by_cases hfound : ∃ b₁ c₁ len lengthOfLength, k.header = .found b₁ c₁ len lengthOfLength
  · obtain ⟨b₁, c₁, len, lengthOfLength, hheader⟩ := hfound
    have hf := header_found hb hheader
    rw [hheader] at h ⊢
    obtain ⟨hb', hle, hstays⟩ := hstep _ _ _ _ _ hheader hf h
    have hloc := hf.location
    cases htag : k.element.tagged with
    | false =>
      -- there is no header: only the contents count
      obtain ⟨rfl, -⟩ := hf.untagged htag
      have hself : ¬k.FindsTag := fun hk => absurd (htag.symm.trans hk.1) (by decide)
      refine ⟨hb', by omega, ?_⟩
      rw [List.forall_mem_cons, and_iff_right hself]
      rw [usedSoFar_zero, Nat.add_zero] at hloc
      rw [← hloc]
      exact hstays rfl
    | true =>
      have hpos := hf.tagged_pos htag
      rw [usedSoFar_pos hpos] at hloc
      refine ⟨hb', by omega, fun heq => by omega, fun hno => ?_⟩
      exact absurd ⟨htag, _, _, _, _, hheader⟩ (hno k List.mem_cons_self)
  · have hno : ∀ b₁ c₁ len lengthOfLength, k.header ≠ .found b₁ c₁ len lengthOfLength :=
      fun b₁ c₁ len lengthOfLength heq => hfound ⟨b₁, c₁, len, lengthOfLength, heq⟩
    obtain ⟨hb', hloc⟩ := header_putBack hb hno h
    have hcalls : k.header.calls calls = [] := by
      cases hk : k.header with
      | found b₁ c₁ len lengthOfLength => exact absurd hk (hno _ _ _ _)
      | absent b c => rfl
      | stop r => rfl
    rw [hcalls]
    refine ⟨hb', hloc.ge, fun _ k' hk' => ?_, fun _ => hloc⟩
    obtain rfl := List.mem_singleton.1 hk'
    exact fun hfinds => hfound hfinds.2

/-! ## Contents that are read -/

/-- Contents that read as many octets as their length says. -/
structure Consumes (r : Parse) (b : Buf) (len lengthOfLength : Nat) (b' : Buf) : Prop where
  located : b'.Located
  location : b'.location = b.location + len
  len_lt : len < 2 ^ 16
  done : 0 < lengthOfLength → lengthOfLength ≤ 128 →
    ∃ c, r = .done b' c (lengthOfLength + 1 + len)

theorem parseInteger_reads (hb : b.Located)
    (h : (parseInteger i b c len lengthOfLength).behind = some b') :
    Consumes (parseInteger i b c len lengthOfLength) b len lengthOfLength b' := by
  unfold parseInteger at h ⊢
  split at h
  · cases h
  rename_i hlen
  rw [if_neg hlen]
  cases hget : getOctets len b with
  | exhausted => rw [hget] at h; cases h
  | beyond => rw [hget] at h; cases h
  | ok octets b₁ =>
    rw [hget] at h
    cases h
    obtain ⟨hb', hloc⟩ := getOctets_moves hb hget
    refine ⟨hb', hloc, by omega, fun hpos _ => ?_⟩
    rw [← usedSoFar_pos hpos]
    exact ⟨_, rfl⟩

theorem getBits_moves {numBits unusedBits written : Nat} {bits : Octets} (hb : b.Located)
    (h : getBits numBits unusedBits len written b = .ok bits b') :
    (b'.Located ∧ b'.location = b.location + len) ∧ (len ≤ 1 ∨ 8 * (len - 1) + written ≤ numBits) := by
  induction len generalizing b written bits with
  | zero =>
    cases h
    exact ⟨⟨hb, rfl⟩, .inl (by omega)⟩
  | succ len ih =>
    unfold getBits at h
    cases hget : b.getOctet with
    | exhausted => rw [hget] at h; cases h
    | beyond => rw [hget] at h; cases h
    | ok octet b₁ =>
      rw [hget] at h
      dsimp only at h
      obtain ⟨⟨hb₁, hloc⟩, -⟩ := Buf.getOctet_moves hb hget
      obtain ⟨n, hn⟩ : ∃ n, (if len = 0 then 8 - unusedBits else 8) = n := ⟨_, rfl⟩
      rw [hn] at h
      split at h
      · cases h
      rename_i hfit
      cases hrest : getBits numBits unusedBits len (written + n) b₁ with
      | exhausted => rw [hrest] at h; cases h
      | beyond => rw [hrest] at h; cases h
      | ok bits' b₂ =>
        rw [hrest] at h
        cases h
        obtain ⟨⟨hb₂, hloc₂⟩, hbits⟩ := ih hb₁ hrest
        refine ⟨⟨hb₂, by omega⟩, ?_⟩
        -- every octet but the last one has eight bits
        rcases Nat.eq_zero_or_pos len with hzero | hpos
        · exact .inl (by omega)
        · rw [if_neg (by omega)] at hn
          refine .inr ?_
          rcases hbits with hone | hle
          · omega
          · omega

theorem add32_of_lt {m n : Nat} (h : m + n < 2 ^ 32) : add32 m n = m + n := Nat.mod_eq_of_lt h

theorem parseBitString_reads (hb : b.Located)
    (h : (parseBitString i b c len lengthOfLength).behind = some b') :
    Consumes (parseBitString i b c len lengthOfLength) b len lengthOfLength b' := by
  unfold parseBitString at h ⊢
  split at h
  · cases h
  rename_i hlen
  rw [if_neg hlen]
  dsimp only at h ⊢
  cases hget : b.getOctet with
  | exhausted => rw [hget] at h; cases h
  | beyond => rw [hget] at h; cases h
  | ok unusedBits b₁ =>
    rw [hget] at h
    dsimp only [andThen] at h ⊢
    obtain ⟨⟨hb₁, hloc⟩, -⟩ := Buf.getOctet_moves hb hget
    split at h
    · cases h
    rename_i hunused
    rw [if_neg hunused]
    have hnum : (len - 1) * 8 % 2 ^ 8 < 2 ^ 8 := Nat.mod_lt _ (by decide)
    cases hbits : getBits ((len - 1) * 8 % 2 ^ 8) unusedBits.toNat (len - 1) 0 b₁ with
    | exhausted => rw [hbits] at h; cases h
    | beyond => rw [hbits] at h; cases h
    | ok bits b₂ =>
      rw [hbits] at h
      cases h
      obtain ⟨⟨hb', hloc'⟩, hsize⟩ := getBits_moves hb₁ hbits
      have hlt : len < 2 ^ 16 := by
        rcases hsize with hone | hle
        · omega
        · omega
      refine ⟨hb', by omega, hlt, fun hpos hle => ?_⟩
      rw [← usedSoFar_pos hpos, ← add32_of_lt (by rw [usedSoFar_pos hpos]; omega)]
      exact ⟨_, rfl⟩

/-- What is done with a string does not move the cursor. -/
def Stores (store : Buf → CStruct → Octets → Nat → Parse) : Prop :=
  ∀ b c octets used b', (store b c octets used).behind = some b' →
    b' = b ∧ ∃ c', store b c octets used = .done b c' used

theorem storeOctetString_stores : Stores (storeOctetString i) := by
  intro b c octets used b' h
  cases h
  exact ⟨rfl, _, rfl⟩

theorem storeBcdString_stores : Stores (storeBcdString longMax i) := by
  intro b c octets used b' h
  unfold storeBcdString at h ⊢
  cases hstr : bcdToString octets with
  | none => rw [hstr] at h; cases h
  | some str =>
    rw [hstr] at h
    cases h
    exact ⟨rfl, _, rfl⟩

theorem parseString_reads {store : Buf → CStruct → Octets → Nat → Parse} (hs : Stores store)
    (hb : b.Located) (h : (parseString i store b c len lengthOfLength).behind = some b') :
    Consumes (parseString i store b c len lengthOfLength) b len lengthOfLength b' := by
  unfold parseString at h ⊢
  split at h
  · cases h
  rename_i hlen
  rw [if_neg hlen]
  dsimp only at h ⊢
  cases hget : b.getString len with
  | exhausted => rw [hget] at h; cases h
  | beyond => rw [hget] at h; cases h
  | ok octets b₁ =>
    rw [hget] at h
    dsimp only [andThen] at h ⊢
    obtain ⟨hb₁, hloc⟩ := Buf.getString_moves hb (Nat.le_refl len) hget
    split at h
    · rename_i hfit
      rw [if_pos hfit]
      obtain ⟨rfl, c', hdone⟩ := hs _ _ _ _ _ h
      have hmod : (len + 2) % 2 ^ 16 < 2 ^ 16 := Nat.mod_lt _ (by decide)
      exact ⟨hb₁, hloc, by omega, fun _ _ => ⟨c', hdone⟩⟩
    · split at h <;> cases h

/-! ## How far an element moves the cursor -/

theorem calls_none (h : Header) : h.calls (fun _ _ _ => []) = [] := by
  cases h <;> rfl

theorem advances_leaf {contents : Contents} (hb : k.b.Located)
    (hreads : ∀ {b₁ c₁ len lengthOfLength b'}, b₁.Located →
      (contents b₁ c₁ len lengthOfLength).behind = some b' →
      Consumes (contents b₁ c₁ len lengthOfLength) b₁ len lengthOfLength b')
    (h : (k.header.parse contents).behind = some b') : Advances [k] k.b b' := by
  rw [← calls_none k.header]
  refine Advances.of_header hb (fun b₁ c₁ len lengthOfLength b' _ hf hdone => ?_) h
  have hr := hreads hf.located hdone
  refine ⟨hr.located, hr.location ▸ Nat.le_add_right _ _, fun hzero => ?_⟩
  -- without a length there is nothing that could be read
  have hlen : len = noLength := by
    cases htag : k.element.tagged with
    | false => exact (hf.untagged htag).2
    | true => exact absurd hzero (Nat.pos_iff_ne_zero.1 (hf.tagged_pos htag))
  have hlt := hr.len_lt
  rw [hlen] at hlt
  exact absurd hlt (by decide)

/-- A result behind which parsing goes on, without being accepted. -/
theorem behind_cases {r : Parse} (h : r.behind = some b') :
    (∃ c used, r = .done b' c used) ∨ ∃ c, r = .failed .wrongTag b' c := by
  cases r with
  | done b c used =>
    cases h
    exact .inl ⟨c, used, rfl⟩
  | failed rc b c =>
    dsimp only [Parse.behind] at h
    split at h
    · rename_i hrc
      cases h
      exact .inr ⟨c, by rw [hrc]⟩
    · cases h
  | beyond => cases h

theorem parseSequenceOf_advances {parse : Parser} {calls : Nat → Buf → CStruct → Nat → List Call}
    {elementSize : Nat}
    (hparse : ∀ base b c len b', b.Located → (parse base b c len).behind = some b' →
      Advances (calls base b c len) b b') (n : Nat) :
    ∀ (base : Nat) (b : Buf) (c : CStruct) (len : Nat) (b' : Buf), b.Located →
      (parseSequenceOf parse i elementSize used n base b c len).behind = some b' →
      Advances (callsOfSequenceOf parse calls i elementSize n base b c len) b b' := by
  induction n with
  | zero =>
    intro base b c len b' hb h
    unfold parseSequenceOf at h
    split at h
    · cases h
      exact .refl hb
    · cases h
  | succ n ih =>
    intro base b c len b' hb h
    unfold parseSequenceOf at h
    unfold callsOfSequenceOf
    split at h
    · rename_i hzero
      cases h
      rw [if_pos hzero]
      exact .refl hb
    rename_i hne
    rw [if_neg hne]
    cases hr : parse base b c len with
    | done b₁ c₁ tempLen =>
      rw [hr] at h
      dsimp only at h ⊢
      have h₁ := hparse base b c len b₁ hb (by rw [hr]; rfl)
      split at h
      · cases h
      rename_i hfit
      rw [if_neg hfit]
      exact h₁.trans (ih _ _ _ _ _ h₁.located h)
    | failed rc b₁ c₁ =>
      rw [hr] at h
      rw [List.append_nil]
      exact hparse base b c len b' hb (by rw [hr]; exact h)
    | beyond =>
      rw [hr] at h
      cases h

mutual

/-- **How far an element moves the cursor**: not at all if it finds no tag, and never back. -/
theorem parse_advances (longMax : Nat) : ∀ (e : Element) (base : Nat) (b : Buf) (c : CStruct)
    (quota : Nat) (b' : Buf), b.Located → (e.parse longMax base b c quota).behind = some b' →
      Advances (e.calls longMax base b c quota) b b'
  | .integer i, base, b, c, quota, b', hb, h => by
    unfold Element.parse at h
    unfold Element.calls
    exact advances_leaf (k := ⟨.integer i, base, b, c, quota⟩) hb parseInteger_reads h
  | .bitString i, base, b, c, quota, b', hb, h => by
    unfold Element.parse at h
    unfold Element.calls
    exact advances_leaf (k := ⟨.bitString i, base, b, c, quota⟩) hb parseBitString_reads h
  | .bcdString i, base, b, c, quota, b', hb, h => by
    unfold Element.parse at h
    unfold Element.calls
    exact advances_leaf (k := ⟨.bcdString i, base, b, c, quota⟩) hb
      (parseString_reads storeBcdString_stores) h
  | .octetString i, base, b, c, quota, b', hb, h => by
    unfold Element.parse at h
    unfold Element.calls
    exact advances_leaf (k := ⟨.octetString i, base, b, c, quota⟩) hb
      (parseString_reads storeOctetString_stores) h
  | .sequence i es, base, b, c, quota, b', hb, h => by
    unfold Element.parse at h
    unfold Element.calls
    refine Advances.of_header (k := ⟨.sequence i es, base, b, c, quota⟩) hb
      (fun b₁ c₁ len lengthOfLength b' _ hf hdone => ?_) h
    have hes := parseElements_advances longMax es base b₁ c₁ len _ b' hf.located hdone
    exact ⟨hes.located, hes.le, fun _ => hes.stays⟩
  | .sequenceOf i elementSize e, base, b, c, quota, b', hb, h => by
    unfold Element.parse at h
    unfold Element.calls
    refine Advances.of_header (k := ⟨.sequenceOf i elementSize e, base, b, c, quota⟩) hb
      (fun b₁ c₁ len lengthOfLength b' _ hf hdone => ?_) h
    have hes := parseSequenceOf_advances
      (fun base b c len b' => parse_advances longMax e base b c len b') i.maxDataLength base b₁
      (c₁.setUint32 (i.at base).dataOffset 0) len b' hf.located hdone
    exact ⟨hes.located, hes.le, fun _ => hes.stays⟩
  | .choice i es, base, b, c, quota, b', hb, h => by
    unfold Element.parse at h
    unfold Element.calls
    refine Advances.of_header (k := ⟨.choice i es, base, b, c, quota⟩) hb
      (fun b₁ c₁ len lengthOfLength b' _ hf hdone => ?_) h
    have hes := parseAlternatives_advances longMax (i.at base) es base 0 .fail b₁ c₁ len _ b'
      hf.located hdone
    exact ⟨hes.located, hes.le, fun _ => hes.stays⟩
  | .buffer i, base, b, c, quota, b', hb, h => by
    unfold Element.parse at h
    unfold Element.calls
    rw [← calls_none (Call.header ⟨.buffer i, base, b, c, quota⟩)]
    refine Advances.of_header (k := ⟨.buffer i, base, b, c, quota⟩) hb
      (fun b₁ c₁ len lengthOfLength b' _ hf hdone => ?_) h
    -- the cursor stays where it is
    cases hdone
    exact ⟨hf.located, Nat.le_refl _, fun _ => (Advances.refl hf.located).stays⟩
  | .other i, base, b, c, quota, b', hb, h => by
    unfold Element.parse at h
    unfold Element.calls
    rw [← calls_none (Call.header ⟨.other i, base, b, c, quota⟩)]
    refine Advances.of_header (k := ⟨.other i, base, b, c, quota⟩) hb
      (fun b₁ c₁ len lengthOfLength b' _ hf hdone => ?_) h
    cases hdone

theorem parseElements_advances (longMax : Nat) : ∀ (es : List Element) (base : Nat) (b : Buf)
    (c : CStruct) (len used : Nat) (b' : Buf), b.Located →
      (Element.parseElements longMax es base b c len used).behind = some b' →
      Advances (Element.callsOfElements longMax es base b c len) b b'
  | [], base, b, c, len, used, b', hb, h => by
    unfold Element.parseElements at h
    unfold Element.callsOfElements
    cases h
    exact .refl hb
  | e :: es, base, b, c, len, used, b', hb, h => by
    unfold Element.parseElements at h
    unfold Element.callsOfElements
    split at h
    · rename_i hzero
      cases h
      rw [if_pos hzero]
      exact .refl hb
    rename_i hne
    rw [if_neg hne]
    cases hr : e.parse longMax base b c len with
    | done b₁ c₁ tempLen =>
      rw [hr] at h
      dsimp only at h ⊢
      have h₁ := parse_advances longMax e base b c len b₁ hb (by rw [hr]; rfl)
      split at h
      · cases h
      rename_i hfit
      rw [if_neg hfit]
      exact h₁.trans (parseElements_advances longMax es base b₁ c₁ _ used b' h₁.located h)
    | failed rc b₁ c₁ =>
      rw [hr] at h
      rw [List.append_nil]
      exact parse_advances longMax e base b c len b' hb (by rw [hr]; exact h)
    | beyond =>
      rw [hr] at h
      cases h

theorem parseAlternatives_advances (longMax : Nat) (i : Info) : ∀ (es : List Element)
    (base n : Nat) (rc : ReturnCode) (b : Buf) (c : CStruct) (len used : Nat) (b' : Buf),
      b.Located → (Element.parseAlternatives longMax i es base n rc b c len used).behind = some b' →
      Advances (Element.callsOfAlternatives longMax es base b c len) b b'
  | [], base, n, rc, b, c, len, used, b', hb, h => by
    unfold Element.parseAlternatives at h
    unfold Element.callsOfAlternatives
    cases hexists : i.existsOffset with
    | none =>
      rw [hexists] at h
      rcases behind_cases h with ⟨c', used', heq⟩ | ⟨c', heq⟩
      · cases heq
      · cases heq
        exact .refl hb
    | some o =>
      rw [hexists] at h
      cases h
      exact .refl hb
  | e :: es, base, n, rc, b, c, len, used, b', hb, h => by
    unfold Element.parseAlternatives at h
    unfold Element.callsOfAlternatives
    cases hr : e.parse longMax base b c len with
    | done b₁ c₁ tempLen =>
      rw [hr] at h
      dsimp only at h ⊢
      rw [List.append_nil]
      split at h
      · cases h
      cases h
      exact parse_advances longMax e base b c len _ hb (by rw [hr]; rfl)
    | failed rc' b₁ c₁ =>
      rw [hr] at h
      by_cases hrc : rc' = .wrongTag
      · -- the next alternative
        subst hrc
        have h₁ := parse_advances longMax e base b c len b₁ hb (by rw [hr]; rfl)
        exact h₁.trans
          (parseAlternatives_advances longMax i es base (n + 1) .wrongTag b₁ c₁ len used b'
            h₁.located h)
      · cases rc' <;> first | cases h | exact absurd rfl hrc
    | beyond =>
      rw [hr] at h
      cases h

end

end Asn
