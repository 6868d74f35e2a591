import Emsd.Asn.Formatting

/-!
# Bit strings, there and back (`asnber.c`)

The formatter puts the octets of a bit string in front of the buffer in the order of its bits, so that
the first octet comes last. The parser makes a string of whole octets.

* `formatBitString_eq`: the octets that are formatted.
* `bitString_iff`: the **round trip** gives the bits back if and only if they fill whole octets, which
  read the same backwards.
* `bitString_swapped`: two octets that come back swapped.
-/

namespace Asn

open Ocp

variable {string : BitString} {f : Front} {b : Buf} {c : CStruct} {i : Info} {tail : Octets}
  {longMax base base' : Nat}

/-! ## Formatting -/

/-- An octet, of which `i` bits are still to be filled in, the next one bit number `j`. -/
def fill (string : BitString) : Nat → Nat → UInt8 → UInt8
  | 0, _, x => x
  | i + 1, j, x => fill string i (j + 1) (x ||| BitString.octet (string.getBit j) <<< UInt8.ofNat i)

/-- The first `k` octets, from the last one to the first. -/
def packed (string : BitString) (k : Nat) : Octets :=
  (List.range k).reverse.map fun m => fill string 8 (8 * m) 0

theorem addBits_octet (n i : Nat) : ∀ (j : Nat) (x : UInt8) (f : Front),
    addBits string (n + (i + 1)) j x (i + 1) f =
      addBits string n (j + (i + 1)) 0 8 (f.addOctet (fill string (i + 1) j x)) := by
  induction i with
  | zero => exact fun j x f => rfl
  | succ i ih =>
    intro j x f
    have hstep : addBits string (n + (i + 1 + 1)) j x (i + 1 + 1) f =
        addBits string (n + (i + 1)) (j + 1)
          (x ||| BitString.octet (string.getBit j) <<< UInt8.ofNat (i + 1)) (i + 1) f := rfl
    rw [hstep, ih, Nat.add_assoc, Nat.add_comm 1]
    rfl

/-- The bits that do not fill an octet. -/
theorem addBits_rest (string : BitString) (f : Front) (n : Nat) : ∀ (j i : Nat) (x : UInt8), n < i →
    ∃ x', addBits string n j x i f = (x', i - n, f) := by
  induction n with
  | zero => exact fun j i x _ => ⟨x, rfl⟩
  | succ n ih =>
    intro j i x hlt
    obtain ⟨x', hx⟩ := ih (j + 1) (i - 1)
      (x ||| BitString.octet (string.getBit j) <<< UInt8.ofNat (i - 1)) (by omega)
    refine ⟨x', ?_⟩
    unfold addBits
    rw [if_neg (by omega), hx, Nat.sub_sub, Nat.add_comm 1]

/-- The octets that are filled come in front of each other. -/
theorem addBits_octets (string : BitString) (f : Front) (k : Nat) : ∀ r, addBits string (r + 8 * k) 0 0 8 f =
    addBits string r (8 * k) 0 8 (addOctets f (packed string k)) := by
  induction k with
  | zero => exact fun r => rfl
  | succ k ih =>
    intro r
    have hpacked : packed string (k + 1) = fill string 8 (8 * k) 0 :: packed string k := by
      unfold packed
      rw [List.range_succ, List.reverse_append, List.map_append]
      rfl
    have hadd : r + 8 * (k + 1) = r + 8 + 8 * k := by omega
    rw [hadd, ih, addBits_octet r 7, hpacked]
    rfl

/-- **The octets of a bit string**: the number of unused bits, perhaps an octet that is not full, and
the others from the last one to the first. -/
theorem formatBitString_eq (f : Front) (hn : string.maxLen ≠ 0) : ∃ last : Octets,
    last.length = (if string.maxLen % 8 = 0 then 0 else 1) ∧
      formatBitString string f = (addOctets f (UInt8.ofNat ((8 - string.maxLen % 8) % 8) ::
        (last ++ packed string (string.maxLen / 8))), 1 + last.length + string.maxLen / 8) := by
  have hbits := addBits_octets string f (string.maxLen / 8) (string.maxLen % 8)
  rw [Nat.mod_add_div] at hbits
  obtain ⟨x, hrest⟩ := addBits_rest string (addOctets f (packed string (string.maxLen / 8)))
    (string.maxLen % 8) (8 * (string.maxLen / 8)) 8 0 (Nat.mod_lt _ (by decide))
  unfold formatBitString
  dsimp only
  rw [if_neg hn, hbits, hrest]
  dsimp only
  by_cases hfull : string.maxLen % 8 = 0
  · have hi : ¬8 - string.maxLen % 8 ≠ 8 := by omega
    rw [if_neg hi]
    refine ⟨[], (if_pos hfull).symm, Prod.ext rfl ?_⟩
    dsimp only [List.length_nil]
    omega
  · have hi : 8 - string.maxLen % 8 ≠ 8 := by omega
    rw [if_pos hi]
    refine ⟨[x <<< UInt8.ofNat ((8 - string.maxLen % 8) % 8 - 1)], (if_neg hfull).symm, Prod.ext rfl ?_⟩
    dsimp only [List.length_singleton]
    omega

/-! ## Parsing -/

/-- The bits of an octet that has been filled. -/
theorem bitsOf_fill (j : Nat) : bitsOf (fill string 8 j 0) 8 =
    (List.range 8).map fun t => BitString.octet (string.getBit (j + t)) := by
  have hall : ∀ b₀ b₁ b₂ b₃ b₄ b₅ b₆ b₇ : Bool,
      bitsOf (((((((((0 : UInt8) ||| BitString.octet b₀ <<< 7) ||| BitString.octet b₁ <<< 6) |||
        BitString.octet b₂ <<< 5) ||| BitString.octet b₃ <<< 4) ||| BitString.octet b₄ <<< 3) |||
        BitString.octet b₅ <<< 2) ||| BitString.octet b₆ <<< 1) ||| BitString.octet b₇ <<< 0) 8 =
      [BitString.octet b₀, BitString.octet b₁, BitString.octet b₂, BitString.octet b₃,
        BitString.octet b₄, BitString.octet b₅, BitString.octet b₆, BitString.octet b₇] := by
    decide +kernel
  exact hall _ _ _ _ _ _ _ _

/-- Octets all of whose bits are used. -/
theorem getBits_full (numBits : Nat) (octets : Octets) : ∀ (written : Nat) {b : Buf}, b.Solid →
    b.Holds (octets ++ tail) → written + 8 * octets.length ≤ numBits →
    ∃ b', getBits numBits 0 octets.length written b = .ok (octets.flatMap fun o => bitsOf o 8) b' ∧
      b'.Holds tail ∧ b'.segs = b.segs := by
  induction octets with
  | nil => exact fun _ _ _ hb _ => ⟨_, rfl, hb, rfl⟩
  | cons o octets ih =>
    intro written b hs hb hle
    rw [List.length_cons] at hle ⊢
    rcases getOctet_reads (fun _ : True => hs) hb with ⟨hnot, -⟩ | ⟨b₁, hok, hb₁, hsegs⟩
    · exact absurd trivial hnot
    have hs₁ : b₁.Solid := solid_of_segs (fun _ : True => hs) hsegs trivial
    have hle : written + 8 + 8 * octets.length ≤ numBits := by omega
    obtain ⟨b₂, hok₂, hb₂, hsegs₂⟩ := ih (written + 8) hs₁ hb₁ hle
    refine ⟨b₂, ?_, hb₂, hsegs₂.trans hsegs⟩
    unfold getBits
    simp only [hok, Nat.sub_zero, ite_self, hok₂, if_neg (show ¬written + 8 > numBits by omega)]
    rfl

/-- No more bits are written than the string has room for. -/
theorem getBits_length {numBits unusedBits : Nat} {b' : Buf} : ∀ {len written : Nat}
    {b : Buf} {bits : Octets}, getBits numBits unusedBits len written b = .ok bits b' →
    written ≤ numBits → written + bits.length ≤ numBits := by
  intro len
  induction len with
  | zero =>
    intro written b bits hok hle
    cases hok
    exact hle
  | succ len ih =>
    intro written b bits hok hle
    unfold getBits at hok
    split at hok
    · next o b₁ _ =>
      dsimp only at hok
      generalize (if len = 0 then 8 - unusedBits else 8) = bitsThisOctet at hok
      split at hok
      · cases hok
      · next hroom =>
        split at hok
        · next rest b₂ hrest =>
          cases hok
          have hrest := ih hrest (by omega)
          have hbits : ∀ n, (bitsOf o n).length = n := fun n => by
            unfold bitsOf
            rw [List.length_map, List.length_reverse, List.length_range]
          rw [List.length_append, hbits]
          omega
        · cases hok
        · cases hok
    · cases hok
    · cases hok

/-! ## The round trip -/

/-- A bit string that is formatted from the structure at `base`, in front of `f`, and parsed into the
structure at `base'` comes back with all its bits and no others. -/
def BitStringRoundTrip (longMax : Nat) (i : Info) (s : Values) (base : Nat) (f : Front) (c : CStruct)
    (base' : Nat) : Prop :=
  ∃ f' n b' c' used, (Element.bitString i).format s base i.tag f = some (f', n) ∧
    (Element.bitString i).parse longMax base' f'.buf c n = .done b' c' used ∧
    c'.string (base' + i.dataOffset) = (s.bitString (base + i.dataOffset)).bits

/-- The octets of a bit string that fills octets are the same in the other order. -/
def BitString.Palindrome (string : BitString) : Prop :=
  string.maxLen % 8 = 0 ∧ ∀ m < string.maxLen / 8, ∀ t < 8,
    string.getBit (8 * (string.maxLen / 8 - 1 - m) + t) = string.getBit (8 * m + t)

/-- Lists made of pieces of the same length. -/
theorem flatMap_pieces {α β γ : Type*} {f : α → List γ} {g : β → List γ} {n : Nat} {l : List α}
    {l' : List β} (hf : ∀ a ∈ l, (f a).length = n) (hg : ∀ b ∈ l', (g b).length = n)
    (hlen : l.length = l'.length) : l.flatMap f = l'.flatMap g ↔ l.map f = l'.map g := by
  induction l generalizing l' with
  | nil =>
    obtain rfl := List.length_eq_zero_iff.1 hlen.symm
    exact ⟨fun _ => rfl, fun _ => rfl⟩
  | cons a l ih =>
    cases l' with
    | nil => cases hlen
    | cons b l' =>
      have ih := ih (fun a ha => hf a (List.mem_cons_of_mem _ ha))
        (fun b hb => hg b (List.mem_cons_of_mem _ hb)) (Nat.succ.inj hlen)
      have hsame : (f a).length = (g b).length :=
        (hf a List.mem_cons_self).trans (hg b List.mem_cons_self).symm
      rw [List.flatMap_cons, List.flatMap_cons, List.map_cons, List.map_cons, List.cons.injEq, ← ih]
      exact ⟨fun heq => List.append_inj heq hsame, fun ⟨h₁, h₂⟩ => by rw [h₁, h₂]⟩

/-- The octet that the bits from number `8 * m` on are. -/
def BitString.piece (string : BitString) (m : Nat) : Octets :=
  (List.range 8).map fun t => BitString.octet (string.getBit (8 * m + t))

theorem octet_inj {x y : Bool} (h : BitString.octet x = BitString.octet y) : x = y := by
  revert x y
  decide

/-- The bits of a string that fills octets, piece by piece. -/
theorem bits_pieces (hfull : string.maxLen % 8 = 0) :
    string.bits = (List.range (string.maxLen / 8)).flatMap string.piece := by
  have hbits : ∀ k, (List.range (8 * k)).map (fun j => BitString.octet (string.getBit j)) =
      (List.range k).flatMap string.piece := by
    intro k
    induction k with
    | zero => rfl
    | succ k ih =>
      have hsucc : List.range (k + 1) = List.range k ++ [k] := List.range_succ
      rw [Nat.mul_succ, List.range_add, List.map_append, ih, hsucc, List.flatMap_append,
        List.flatMap_singleton, List.map_map]
      rfl
  unfold BitString.bits
  rw [← hbits, Nat.mul_div_cancel' (Nat.dvd_of_mod_eq_zero hfull)]

/-- The pieces in the other order are the same pieces if and only if they read the same backwards. -/
theorem pieces_palindrome (hfull : string.maxLen % 8 = 0) :
    ((packed string (string.maxLen / 8)).flatMap fun o => bitsOf o 8) = string.bits ↔
      string.Palindrome := by
  have hpacked : ((packed string (string.maxLen / 8)).flatMap fun o => bitsOf o 8) =
      (List.range (string.maxLen / 8)).reverse.flatMap string.piece := by
    unfold packed
    rw [List.flatMap_map]
    exact List.flatMap_congr fun m _ => bitsOf_fill (8 * m)
  have hlen : ∀ m, (string.piece m).length = 8 := fun m => by
    unfold BitString.piece
    rw [List.length_map, List.length_range]
  rw [hpacked, bits_pieces hfull, flatMap_pieces (fun m _ => hlen m) (fun m _ => hlen m)
    (List.length_reverse)]
  constructor
  · intro heq
    refine ⟨hfull, fun m hm t ht => ?_⟩
    have hget := congrArg (fun l => l[m]?) heq
    simp only [List.getElem?_map, List.getElem?_reverse (show m < (List.range _).length by
      rw [List.length_range]; exact hm), List.length_range] at hget
    rw [List.getElem?_range (by omega), List.getElem?_range hm] at hget
    have hpiece := congrArg (fun l => l[t]?) (Option.some.inj hget)
    unfold BitString.piece at hpiece
    simp only [List.getElem?_map] at hpiece
    rw [List.getElem?_range ht] at hpiece
    exact octet_inj (Option.some.inj hpiece)
  · rintro ⟨-, hsame⟩
    apply List.ext_getElem?
    intro m
    by_cases hm : m < string.maxLen / 8
    · simp only [List.getElem?_map, List.getElem?_reverse (show m < (List.range _).length by
        rw [List.length_range]; exact hm), List.length_range]
      rw [List.getElem?_range (by omega), List.getElem?_range hm]
      refine congrArg some (List.map_congr_left fun t ht => ?_)
      rw [hsame m hm t (List.mem_range.1 ht)]
    · rw [List.getElem?_eq_none (by simp; omega), List.getElem?_eq_none (by simp; omega)]

theorem setString_self (c : CStruct) (o : Nat) (v : Octets) : (c.setString o v).string o = v := by
  unfold CStruct.setString
  exact Function.update_self _ _ _

theorem packed_length (string : BitString) (k : Nat) : (packed string k).length = k := by
  unfold packed
  rw [List.length_map, List.length_reverse, List.length_range]

theorem bitsOf_length (o : UInt8) (n : Nat) : (bitsOf o n).length = n := by
  unfold bitsOf
  rw [List.length_map, List.length_reverse, List.length_range]

/-- The data of a bit string, as they are formatted. -/
def bitData (string : BitString) (last : Octets) : Octets :=
  UInt8.ofNat ((8 - string.maxLen % 8) % 8) :: (last ++ packed string (string.maxLen / 8))

theorem bitData_length (string : BitString) (last : Octets) :
    (bitData string last).length = 1 + last.length + string.maxLen / 8 := by
  unfold bitData
  rw [List.length_cons, List.length_append, packed_length]
  omega

/-- The parser reads the bits behind the number of unused ones. -/
theorem parseBitString_eq {last : Octets} (i : Info) (c : CStruct) (lengthOfLength : Nat)
    (h32 : string.maxLen ≤ 32) (hlast : last.length ≤ 1) (hs : b.Solid) (hb : b.Holds (bitData string last ++ tail)) :
    ∃ b', b'.Solid ∧ b'.Holds (last ++ packed string (string.maxLen / 8) ++ tail) ∧
      parseBitString i b c (bitData string last).length lengthOfLength =
        andThen (getBits (8 * (last.length + string.maxLen / 8)) ((8 - string.maxLen % 8) % 8)
          (last.length + string.maxLen / 8) 0 b') b' c fun bits b =>
          .done b (c.setString i.dataOffset
            (bits ++ List.replicate (8 * (last.length + string.maxLen / 8) - bits.length) 0))
            (add32 (usedSoFar lengthOfLength) (bitData string last).length) := by
  rcases getOctet_reads (fun _ : True => hs) hb with ⟨hnot, -⟩ | ⟨b', hok, hb', hsegs⟩
  · exact absurd trivial hnot
  refine ⟨b', solid_of_segs (fun _ : True => hs) hsegs trivial, hb', ?_⟩
  have hunused : (UInt8.ofNat ((8 - string.maxLen % 8) % 8)).toNat = (8 - string.maxLen % 8) % 8 :=
    UInt8.toNat_ofNat_of_lt' (show _ < 256 by omega)
  have hlegal : ¬UInt8.ofNat ((8 - string.maxLen % 8) % 8) > 7 := by
    rw [gt_iff_lt, UInt8.lt_iff_toNat_lt, hunused]
    show ¬7 < _
    omega
  have hlen := bitData_length string last
  have hcount : (bitData string last).length - 1 = last.length + string.maxLen / 8 := by omega
  have hnumBits : (last.length + string.maxLen / 8) * 8 % 2 ^ 8 =
      8 * (last.length + string.maxLen / 8) := by
    rw [Nat.mod_eq_of_lt (by omega), Nat.mul_comm]
  unfold parseBitString
  rw [if_neg (by omega), hcount, hnumBits, hok]
  unfold andThen
  dsimp only
  rw [if_neg hlegal, hunused]

/-- What the parser makes of bits that fill octets. -/
theorem parseBitString_full (i : Info) (c : CStruct) (lengthOfLength : Nat) (h32 : string.maxLen ≤ 32)
    (hfull : string.maxLen % 8 = 0) (hs : b.Solid) (hb : b.Holds (bitData string [] ++ tail)) :
    ∃ b' used, parseBitString i b c (bitData string []).length lengthOfLength =
      .done b' (c.setString i.dataOffset
        ((packed string (string.maxLen / 8)).flatMap fun o => bitsOf o 8)) used := by
  obtain ⟨b', hs', hb', heq⟩ := parseBitString_eq i c lengthOfLength h32
    (show ([] : Octets).length ≤ 1 from Nat.zero_le 1) hs hb
  have hpacked := packed_length string (string.maxLen / 8)
  obtain ⟨b₂, hbits, -⟩ := getBits_full (8 * (0 + string.maxLen / 8))
    (packed string (string.maxLen / 8)) 0 hs' hb' (by omega)
  have hzero : (8 - string.maxLen % 8) % 8 = 0 := by omega
  have hbitsLen : ((packed string (string.maxLen / 8)).flatMap fun o => bitsOf o 8).length =
      8 * (string.maxLen / 8) := by
    simp only [List.length_flatMap, bitsOf_length, List.map_const', List.sum_replicate_nat, hpacked,
      Nat.mul_comm]
  rw [hpacked] at hbits
  rw [List.length_nil, Nat.zero_add, hzero] at heq
  rw [Nat.zero_add] at hbits
  refine ⟨b₂, add32 (usedSoFar lengthOfLength) (bitData string []).length, heq.trans ?_⟩
  rw [hbits]
  unfold andThen
  dsimp only
  rw [hbitsLen, Nat.sub_self, List.replicate_zero, List.append_nil]

/-- The string that the parser makes has room for whole octets. -/
theorem parseBitString_length {last : Octets} {lengthOfLength used : Nat} {b' : Buf} {c' : CStruct}
    (h32 : string.maxLen ≤ 32) (hlast : last.length ≤ 1) (hs : b.Solid)
    (hb : b.Holds (bitData string last ++ tail))
    (hdone : parseBitString i b c (bitData string last).length lengthOfLength = .done b' c' used) :
    (c'.string i.dataOffset).length = 8 * (last.length + string.maxLen / 8) := by
  obtain ⟨b₁, -, -, heq⟩ := parseBitString_eq i c lengthOfLength h32 hlast hs hb
  rw [heq] at hdone
  unfold andThen at hdone
  split at hdone
  · next bits b₂ hbits =>
    cases hdone
    have hroom := getBits_length hbits (Nat.zero_le _)
    rw [setString_self, List.length_append, List.length_replicate]
    omega
  · cases hdone
  · cases hdone

/-- **The round trip** of a bit string of 1 to 32 bits gives it back if and only if its bits fill whole
octets, which read the same backwards. -/
theorem bitString_iff {s : Values} (htag : PlainTag i.tag) (hp : (i.at base).present s.c = true)
    (hlen : 1 ≤ (s.bitString (base + i.dataOffset)).maxLen)
    (h32 : (s.bitString (base + i.dataOffset)).maxLen ≤ 32) (hf : f.Solid) :
    BitStringRoundTrip longMax i s base f c base' ↔
      (s.bitString (base + i.dataOffset)).Palindrome := by
  unfold BitStringRoundTrip
  obtain ⟨string, hstring⟩ : ∃ string, s.bitString (base + i.dataOffset) = string := ⟨_, rfl⟩
  rw [hstring] at hlen h32 ⊢
  -- what is formatted
  obtain ⟨last, hlast, hdata⟩ := formatBitString_eq f (show string.maxLen ≠ 0 by omega)
  have hlast' : last.length ≤ 1 := by
    rw [hlast]
    split <;> omega
  have hdataLen := bitData_length string last
  obtain ⟨f', htagged, hadds⟩ :=
    addTag_adds (p := True) htag.1 (Adds.addOctets (f := f) (bitData string last))
  have hformat : (Element.bitString i).format s base i.tag f =
      some (f', (tlv i.tag (bitData string last)).length) := by
    unfold Element.format
    rw [if_pos hp]
    dsimp only
    rw [show (i.at base).dataOffset = base + i.dataOffset from rfl, hstring, hdata]
    dsimp only
    rw [← hdataLen]
    exact congrArg some htagged
  -- what is found
  have hs' : f'.buf.Solid := (hadds.solid trivial hf).2
  have hholds : f'.buf.Holds (tlv i.tag (bitData string last) ++ f.octets) :=
    ⟨Front.buf_located, hadds.octets⟩
  have hquota : (bitData string last).length ≤ (tlv i.tag (bitData string last)).length := by
    unfold tlv
    rw [List.length_cons, List.length_append]
    omega
  obtain ⟨b₁, hheader, hb₁, hsegs₁⟩ := header_of_tlv (c := c) (i := i.at base') hs' hholds rfl hquota
    (by omega)
  have hs₁ : b₁.Solid := solid_of_segs (fun _ : True => hs') hsegs₁ trivial
  have htagged' : Element.tagged (.bitString i) = true := decide_eq_true htag.1
  have hparse : (Element.bitString i).parse longMax base' f'.buf c
      (tlv i.tag (bitData string last)).length =
      parseBitString (i.at base') b₁ (c.setExists (i.at base') true) (bitData string last).length
        (lengthOctets (bitData string last).length).length := by
    unfold Element.parse
    rw [htagged', hheader]
    rfl
  by_cases hfull : string.maxLen % 8 = 0
  · -- all octets are full
    rw [if_pos hfull] at hlast
    obtain rfl := List.length_eq_zero_iff.1 hlast
    obtain ⟨b₂, used, hdone⟩ := parseBitString_full (i.at base') (c.setExists (i.at base') true)
      (lengthOctets (bitData string []).length).length h32 hfull hs₁ hb₁
    rw [← pieces_palindrome hfull]
    constructor
    · rintro ⟨f₁, n, b', c', used', hformat₁, hparse₁, hback⟩
      rw [hformat] at hformat₁
      cases hformat₁
      rw [hparse, hdone] at hparse₁
      cases hparse₁
      rw [← hback]
      exact (setString_self _ _ _).symm
    · intro hsame
      exact ⟨f', _, b₂, _, used, hformat, hparse.trans hdone, (setString_self _ _ _).trans hsame⟩
  · -- the string that is made is too long
    rw [if_neg hfull] at hlast
    refine ⟨?_, fun hpal => absurd hpal.1 hfull⟩
    rintro ⟨f₁, n, b', c', used, hformat₁, hparse₁, hback⟩
    rw [hformat] at hformat₁
    cases hformat₁
    rw [hparse] at hparse₁
    have hlong := parseBitString_length h32 hlast' hs₁ hb₁ hparse₁
    rw [show (i.at base').dataOffset = base' + i.dataOffset from rfl, hback] at hlong
    unfold BitString.bits at hlong
    rw [List.length_map, List.length_range] at hlong
    omega

/-- A bit string of its own, with the universal tag. -/
def bitInfo : Info where
  tag := 0x03

/-- A structure with one bit string. -/
def bitValues (string : BitString) : Values :=
  ⟨{ string := fun _ => string.p }, fun _ => string.maxLen, fun _ => Front.alloc 0⟩

/-- The bits of one octet come back. -/
theorem bitString_octet :
    BitStringRoundTrip 2147483647 bitInfo (bitValues ⟨8, [1, 0, 0, 0, 0, 0, 1, 1]⟩) 0
      (Front.alloc 128) {} 0 := by
  refine (bitString_iff (by decide) rfl (by decide) (by decide) Front.alloc_solid).2 ⟨rfl, ?_⟩
  intro m hm t _
  have hm : m < 1 := hm
  obtain rfl : m = 0 := by omega
  rfl

/-- **Two octets come back swapped.** -/
theorem bitString_swapped : ¬BitStringRoundTrip 2147483647 bitInfo
    (bitValues ⟨16, [1, 0, 0, 0, 0, 0, 0, 0, 0, 0, 0, 0, 0, 0, 0, 0]⟩) 0 (Front.alloc 128) {} 0 := by
  rintro ⟨f', n, b', c', used, hformat, hparse, hback⟩
  obtain ⟨b₁, c₁, used₁, hparse₁, hstring⟩ : ∃ b₁ c₁ used₁,
      (Element.bitString bitInfo).parse 2147483647 0 ⟨[[0x03, 0x03, 0x00, 0x00, 0x80]], 0, 0⟩ {} 5 =
        .done b₁ c₁ used₁ ∧ c₁.string 0 = [0, 0, 0, 0, 0, 0, 0, 0, 1, 0, 0, 0, 0, 0, 0, 0] :=
    ⟨_, _, _, rfl, rfl⟩
  have hformat₁ : (Element.bitString bitInfo).format
      (bitValues ⟨16, [1, 0, 0, 0, 0, 0, 0, 0, 0, 0, 0, 0, 0, 0, 0, 0]⟩) 0 bitInfo.tag (Front.alloc 128) =
        some (⟨[[0x03, 0x03, 0x00, 0x00, 0x80]], 123⟩, 5) := rfl
  rw [hformat₁] at hformat
  cases hformat
  have hsame := hparse.symm.trans hparse₁
  cases hsame
  have hbits := hback.symm.trans hstring
  exact absurd hbits (by decide)

end Asn
