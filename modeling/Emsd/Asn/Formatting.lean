import Emsd.Asn.Elements
import Emsd.Asn.Parsing

/-!
# Formatting elements of every type (`asnber.c`, `strfunc.c`)

`asn_berFormat` with bit strings, sequences-of and buffers too. The buffer is built from its end: the
last element of a sequence is formatted first, but the loops over the bits of a bit string and over
the elements of a sequence-of go forwards.

* `header_of_tlv`: the header of an element that has been formatted is found.
-/

namespace Asn

open Ocp

/-- A string whose octets are bits; the first `p.length` of at most `maxLen` are there. -/
structure BitString where
  maxLen : Nat
  p : Octets
  deriving DecidableEq, Repr

namespace BitString

/-- `STR_bitStringGetBit`: a bit behind the length of the string is not set. -/
def getBit (string : BitString) (bit : Nat) : Bool := string.p[bit]?.any (· ≠ 0)

/-- A bit as an octet. -/
def octet (bit : Bool) : UInt8 := if bit then 1 else 0

/-- All bits, each as an octet of its own. -/
def bits (string : BitString) : Octets := (List.range string.maxLen).map fun j => octet (string.getBit j)

end BitString

/-- What the formatter reads: a structure, the maximum lengths of its bit strings, and buffers. -/
structure Values where
  c : CStruct
  maxLen : Nat → Nat
  buffer : Nat → Front

def Values.bitString (s : Values) (o : Nat) : BitString := ⟨s.maxLen o, s.c.string o⟩

/-- `BUF_prependBuffer`. -/
def prependBuffer (f hPreFormattedBuf : Front) : Front :=
  ⟨hPreFormattedBuf.segs ++ f.segs, hPreFormattedBuf.room⟩

/-- The loop over the bits of a bit string, of which `numBits` are left and number `j` is the next: the
octet `x` with `i` bits still to be filled in. -/
def addBits (string : BitString) : Nat → Nat → UInt8 → Nat → Front → UInt8 × Nat × Front
  | 0, _, x, i, f => (x, i, f)
  | numBits + 1, j, x, i, f =>
    let x := x ||| BitString.octet (string.getBit j) <<< UInt8.ofNat (i - 1)
    if i - 1 = 0 then addBits string numBits (j + 1) 0 8 (f.addOctet x)
    else addBits string numBits (j + 1) x (i - 1) f

/-- The data of a bit string, and its length. -/
def formatBitString (string : BitString) (f : Front) : Front × Nat :=
  let numBits := string.maxLen
  if numBits = 0 then (f.addOctet 0, 1)
  else
    let len := (numBits - 1) / 8 + 1 + 1
    let unusedBits := (8 - numBits % 8) % 8
    let (x, i, f) := addBits string numBits 0 0 8 f
    -- the final octet
    let f := if i ≠ 8 then f.addOctet (x <<< UInt8.ofNat (unusedBits - 1)) else f
    (f.addOctet (UInt8.ofNat unusedBits), len)

/-- The loop over the elements of a sequence-of, from the first one to the last. -/
def formatSequenceOf (format : Nat → Front → Option (Front × Nat)) (elementSize : Nat) :
    Nat → Nat → Front → Option (Front × Nat)
  | 0, _, f => some (f, 0)
  | count + 1, base, f => do
    let (f, n) ← format base f
    let (f, len) ← formatSequenceOf format elementSize count (base + elementSize) f
    some (f, n + len)

namespace Element

mutual

/-- `asn_berFormat` of an element of the structure at `base`, with its own tag or the one that a choice
has put in its place. -/
def format (s : Values) : Element → Nat → UInt8 → Front → Option (Front × Nat)
  | .integer i, base, tag, f => Asn.format s.c (.integer (i.at base)) tag f
  | .bitString i, base, tag, f =>
    if (i.at base).present s.c then
      let r := formatBitString (s.bitString (i.at base).dataOffset) f
      some (addTag tag r.1 r.2)
    else some (f, 0)
  | .bcdString i, base, tag, f => Asn.format s.c (.bcdString (i.at base)) tag f
  | .octetString i, base, tag, f => Asn.format s.c (.octetString (i.at base)) tag f
  | .sequence i es, base, tag, f =>
    if (i.at base).present s.c then
      (formatElements s es base f).map fun r => addTag (tag ||| constructor) r.1 r.2
    else some (f, 0)
  | .sequenceOf i elementSize e, base, tag, f =>
    if (i.at base).present s.c then
      let count := (s.c.uint32 (i.at base).dataOffset).toNat
      -- the entry that is asked whether it is optional is now that of the elements
      let tag := if e.info.existsOffset ≠ none ∧ count = 0 then 0 else tag ||| constructor
      (formatSequenceOf (fun base f => format s e base e.info.tag f) elementSize count base f).map
        fun r => addTag tag r.1 r.2
    else some (f, 0)
  | .choice i es, base, tag, f =>
    if (i.at base).present s.c then
      let replaced := tag ≠ 0 ∧ tag &&& asnExplicit = 0
      (formatAlternative s es base (s.c.selector (i.at base).dataOffset).toNat
        (if replaced then tag else 0) f).map fun r => addTag (if replaced then 0 else tag) r.1 r.2
    else some (f, 0)
  | .buffer i, base, _, f =>
    if (i.at base).present s.c then
      let hPreFormattedBuf := s.buffer (i.at base).dataOffset
      let len := hPreFormattedBuf.octets.length
      some (if len > 0 then prependBuffer f hPreFormattedBuf else f, len)
    else some (f, 0)
  | .other i, base, _, f =>
    if (i.at base).present s.c then none else some (f, 0)

/-- The elements of a sequence, from the last one to the first. -/
def formatElements (s : Values) : List Element → Nat → Front → Option (Front × Nat)
  | [], _, f => some (f, 0)
  | e :: es, base, f => do
    let (f, len) ← formatElements s es base f
    let (f, n) ← format s e base e.info.tag f
    some (f, len + n)

/-- The element of a choice, with the tag that takes the place of its own unless it is zero. -/
def formatAlternative (s : Values) :
    List Element → Nat → Nat → UInt8 → Front → Option (Front × Nat)
  | [], _, _, _, _ => none
  | e :: _, base, 0, tag, f => format s e base (if tag = 0 then e.info.tag else tag) f
  | _ :: es, base, n + 1, tag, f => formatAlternative s es base n tag f

end

end Element

/-! ## What the parser finds -/

variable {b : Buf} {c : CStruct} {i : Info} {data tail : Octets} {quota : Nat}

/-- The length as a read of its own. -/
theorem parseLength_cases (b : Buf) (c : CStruct) :
    (∃ r b', getLength b = .ok r b' ∧ ∀ next, parseLength b c next = next r.1 r.2 b') ∨
      ∀ next b' c' used, parseLength b c next ≠ .done b' c' used := by
  unfold parseLength getLength andThen
  cases b.getOctet with
  | ok x b =>
    dsimp only
    by_cases hlong : x &&& 0x80 ≠ 0
    · rw [if_pos hlong]
      cases getOctets (x &&& 0x7f).toNat b with
      | ok octets b => exact .inl ⟨_, _, rfl, fun next => if_pos hlong⟩
      | exhausted =>
        refine .inr fun next b' c' used hdone => ?_
        rw [if_pos hlong] at hdone
        cases hdone
      | beyond =>
        refine .inr fun next b' c' used hdone => ?_
        rw [if_pos hlong] at hdone
        cases hdone
    · rw [if_neg hlong]
      exact .inl ⟨_, _, rfl, fun next => if_neg hlong⟩
  | exhausted => exact .inr fun _ _ _ _ hdone => by cases hdone
  | beyond => exact .inr fun _ _ _ _ hdone => by cases hdone

theorem getLength_lengthOctets {n : Nat} (hn : n < 2 ^ 32) (hs : b.Solid)
    (hb : b.Holds (lengthOctets n ++ tail)) :
    ∃ b', getLength b = .ok (n, (lengthOctets n).length) b' ∧ b'.Holds tail ∧ b'.segs = b.segs := by
  have hread : ∀ next : Nat → Nat → Buf → Parse, ∃ b', parseLength b {} next =
      next n (lengthOctets n).length b' ∧ b'.Holds tail ∧ b'.segs = b.segs := by
    intro next
    rcases parseLength_lengthOctets (c := {}) hn (fun _ : True => hs) hb next with
      ⟨hnot, -⟩ | hread
    · exact absurd trivial hnot
    · exact hread
  obtain ⟨b₁, heq₁, hb₁, hsegs₁⟩ := hread fun len _ b => .done b {} len
  obtain ⟨b₂, heq₂, -⟩ := hread fun _ lengthOfLength b => .done b {} lengthOfLength
  rcases parseLength_cases b {} with ⟨⟨len, lengthOfLength⟩, b', hlength, hnext⟩ | hnot
  · rw [hnext] at heq₁ heq₂
    obtain ⟨rfl, -, hlen⟩ := Parse.done.inj heq₁
    obtain ⟨-, -, hlenlen⟩ := Parse.done.inj heq₂
    refine ⟨b', ?_, hb₁, hsegs₁⟩
    rw [hlength]
    exact congrArg (Read.ok · b') (Prod.ext hlen hlenlen)
  · exact absurd heq₁ (hnot _ _ _ _)

/-- **The header** of an element that has been formatted. -/
theorem header_of_tlv {tag : UInt8} (hs : b.Solid) (hb : b.Holds (tlv tag data ++ tail))
    (htag : bare tag = bare i.tag) (hq : data.length ≤ quota) (h32 : data.length < 2 ^ 32) :
    ∃ b', header true i b c quota =
        .found b' (c.setExists i true) data.length (lengthOctets data.length).length ∧
      b'.Holds (data ++ tail) ∧ b'.segs = b.segs := by
  have htag' : bare tag = i.tag &&& ~~~asnExplicit := htag
  unfold tlv at hb
  rw [List.cons_append, List.append_assoc] at hb
  rcases getOctet_reads (fun _ : True => hs) hb with ⟨hnot, -⟩ | ⟨b₁, hok, hb₁, hsegs⟩
  · exact absurd trivial hnot
  have hs₁ : b₁.Solid := solid_of_segs (fun _ : True => hs) hsegs trivial
  obtain ⟨b₂, hlen, hb₂, hsegs₂⟩ := getLength_lengthOctets h32 hs₁ hb₁
  refine ⟨b₂, ?_, hb₂, hsegs₂.trans hsegs⟩
  unfold header
  simp only [Bool.not_true, Bool.false_eq_true, if_false, hok, if_neg (not_not.2 htag'), hlen,
    if_neg (Nat.not_lt.2 hq)]

end Asn
