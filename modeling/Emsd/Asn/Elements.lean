import Emsd.Asn.Ber

/-!
# Elements of every type (`asnber.c`)

The parser for trees with bit strings, sequences-of and buffers too, as asn_berParse has it: the
structure has a base, which a sequence-of moves, and the length used is an `OS_Uint32`. `calls` are
the calls of `asn_berParse` that a call makes, itself included.
-/

namespace Asn

open Ocp

/-- `ASN_TableEntry` of any type; `other` is a type that the parser does not know. -/
inductive Element
  | integer (i : Info)
  | bitString (i : Info)
  | bcdString (i : Info)
  | octetString (i : Info)
  | sequence (i : Info) (tableList : List Element)
  | sequenceOf (i : Info) (elementSize : Nat) (element : Element)
  | choice (i : Info) (tableList : List Element)
  | buffer (i : Info)
  | other (i : Info)

def Element.info : Element → Info
  | .integer i | .bitString i | .bcdString i | .octetString i | .sequence i _ | .sequenceOf i _ _
  | .choice i _ | .buffer i | .other i => i

/-- The element has a tag to be parsed: a choice has one only if it is explicit. -/
def Element.tagged : Element → Bool
  | .choice i _ => i.tag &&& asnExplicit ≠ 0
  | e => e.info.tag ≠ 0

/-- The places of an element in the structure at `pCStruct`. -/
def Info.at (i : Info) (pCStruct : Nat) : Info :=
  { i with
    existsOffset := i.existsOffset.map (pCStruct + ·)
    dataOffset := pCStruct + i.dataOffset }

/-- `parseLength`: the length, and the length of the length. -/
def getLength (b : Buf) : Read (Nat × Nat) :=
  match b.getOctet with
  | .ok x b =>
    if x &&& 0x80 ≠ 0 then
      match getOctets (x &&& 0x7f).toNat b with
      | .ok octets b => .ok (shiftIn octets, (x &&& 0x7f).toNat + 1) b
      | .exhausted => .exhausted
      | .beyond => .beyond
    else .ok (x.toNat, 1) b
  | .exhausted => .exhausted
  | .beyond => .beyond

/-- The tag and the length of an element: they are found, or the element is optional and its tag is
not there, or parsing ends. -/
inductive Header
  | found (b : Buf) (c : CStruct) (len lengthOfLength : Nat)
  | absent (b : Buf) (c : CStruct)
  | stop (r : Parse)

/-- The first part of `asn_berParse`. -/
def header (tagged : Bool) (i : Info) (b : Buf) (c : CStruct) (quota : Nat) : Header :=
  if !tagged then .found b c noLength 0 else
  match b.getOctet with
  | .exhausted => .stop (.failed .bufferExhausted b c)
  | .beyond => .stop .beyond
  | .ok x b =>
    if bare x ≠ i.tag &&& ~~~asnExplicit then
      match i.existsOffset with
      | some o => .absent b.ungetOctet (c.setBoolean o false)
      | none => .stop (.failed .wrongTag b.ungetOctet c)
    else
      let c := c.setExists i true
      match getLength b with
      | .exhausted => .stop (.failed .bufferExhausted b c)
      | .beyond => .stop .beyond
      | .ok (len, lengthOfLength) b =>
        if len > quota then .stop (.failed .formatErrorInPDU b c)
        else .found b c len lengthOfLength

/-- The rest of `asn_berParse`. -/
def Header.parse (contents : Contents) : Header → Parse
  | .found b c len lengthOfLength => contents b c len lengthOfLength
  | .absent b c => .done b c 0
  | .stop r => r

/-- The sum of two lengths, in 32 bits. -/
def add32 (m n : Nat) : Nat := (m + n) % 2 ^ 32

/-- The bits of an octet, each as an octet of its own, from number `n - 1` down. -/
def bitsOf (octet : UInt8) (n : Nat) : Octets :=
  (List.range n).reverse.map fun i => if octet.toNat.testBit i then 1 else 0

/-- The loop over the octets of a bit string, of which `written` bits have been written to a string of
`numBits`. -/
def getBits (numBits unusedBits : Nat) : Nat → Nat → Buf → Read Octets
  | 0, _, b => .ok [] b
  | len + 1, written, b =>
    match b.getOctet with
    | .ok octet b =>
      let bitsThisOctet := if len = 0 then 8 - unusedBits else 8
      if written + bitsThisOctet > numBits then .beyond
      else
        match getBits numBits unusedBits len (written + bitsThisOctet) b with
        | .ok bits b => .ok (bitsOf octet bitsThisOctet ++ bits) b
        | .exhausted => .exhausted
        | .beyond => .beyond
    | .exhausted => .exhausted
    | .beyond => .beyond

/-- The data of a bit string; the number of bits is an `OS_Uint8`. -/
def parseBitString (i : Info) : Contents := fun b c len lengthOfLength =>
  if len < 1 then .failed .invalidSize b c
  else
    let numBits := (len - 1) * 8 % 2 ^ 8
    andThen b.getOctet b c fun unusedBits b =>
      if unusedBits > 7 then .failed .illegalData b c
      else
        andThen (getBits numBits unusedBits.toNat (len - 1) 0 b) b c fun bits b =>
          .done b (c.setString i.dataOffset (bits ++ List.replicate (numBits - bits.length) 0))
            (add32 (usedSoFar lengthOfLength) len)

/-- `BUF_REMAINDER`. -/
def bufRemainder : Nat := 0xfffffffe

/-- A buffer: a clone of what is left, which stays where it is. -/
def parseBuffer (i : Info) : Contents := fun b c _ lengthOfLength =>
  let content := (b.cloneBufferPortion bufRemainder).1.flatten
  .done b (c.setString i.dataOffset content) (add32 (usedSoFar lengthOfLength) content.length)

/-- What a call of `asn_berParse` does for one element, given the place of the structure. -/
abbrev Parser := Nat → Buf → CStruct → Nat → Parse

/-- The loop over the elements of a sequence-of, of which `n` may still come; each is `elementSize`
behind the one before. -/
def parseSequenceOf (parse : Parser) (i : Info) (elementSize used : Nat) : Nat → Parser
  | 0, _, b, c, len => if len = 0 then .done b c used else .failed .invalidSize b c
  | n + 1, base, b, c, len =>
    if len = 0 then .done b c used
    else
      match parse base b c len with
      | .done b c tempLen =>
        if tempLen > len then .failed .invalidSize b c
        else
          parseSequenceOf parse i elementSize used n (base + elementSize) b
            (c.setUint32 i.dataOffset (UInt32.ofNat (i.maxDataLength - n))) (len - tempLen)
      | r => r

namespace Element

mutual

/-- `asn_berParse` of an element into the structure at `base`, with a quota for its length. -/
def parse (longMax : Nat) : Element → Parser
  | .integer i, base, b, c, quota =>
    (header (tagged (.integer i)) (i.at base) b c quota).parse (parseInteger (i.at base))
  | .bitString i, base, b, c, quota =>
    (header (tagged (.bitString i)) (i.at base) b c quota).parse (parseBitString (i.at base))
  | .bcdString i, base, b, c, quota =>
    (header (tagged (.bcdString i)) (i.at base) b c quota).parse
      (parseString (i.at base) (storeBcdString longMax (i.at base)))
  | .octetString i, base, b, c, quota =>
    (header (tagged (.octetString i)) (i.at base) b c quota).parse
      (parseString (i.at base) (storeOctetString (i.at base)))
  | .sequence i es, base, b, c, quota =>
    (header (tagged (.sequence i es)) (i.at base) b c quota).parse fun b c len lengthOfLength =>
      parseElements longMax es base b c len (add32 (usedSoFar lengthOfLength) len)
  | .sequenceOf i elementSize e, base, b, c, quota =>
    (header (tagged (.sequenceOf i elementSize e)) (i.at base) b c quota).parse
      fun b c len lengthOfLength =>
        parseSequenceOf (fun base b c quota => parse longMax e base b c quota) (i.at base)
          elementSize (add32 (lengthOfLength + 1) len) i.maxDataLength base b
          (c.setUint32 (i.at base).dataOffset 0) len
  | .choice i es, base, b, c, quota =>
    (header (tagged (.choice i es)) (i.at base) b c quota).parse fun b c len lengthOfLength =>
      parseAlternatives longMax (i.at base) es base 0 .fail b c len (usedSoFar lengthOfLength)
  | .buffer i, base, b, c, quota =>
    (header (tagged (.buffer i)) (i.at base) b c quota).parse (parseBuffer (i.at base))
  | .other i, base, b, c, quota =>
    (header (tagged (.other i)) (i.at base) b c quota).parse fun b c _ _ =>
      .failed .programmerError b c

/-- The elements of a sequence, as long as there is something left of its length; `used` is the
length of the whole sequence. -/
def parseElements (longMax : Nat) : List Element → Nat → Buf → CStruct → Nat → Nat → Parse
  | [], _, b, c, _, used => .done b c used
  | e :: es, base, b, c, len, used =>
    if len = 0 then .done b c used
    else
      match parse longMax e base b c len with
      | .done b c tempLen =>
        if tempLen > len then .failed .invalidSize b c
        else parseElements longMax es base b c (len - tempLen) used
      | r => r

/-- The elements of the choice `i` from number `n` on; `rc` is what the one before gave. -/
def parseAlternatives (longMax : Nat) (i : Info) :
    List Element → Nat → Nat → ReturnCode → Buf → CStruct → Nat → Nat → Parse
  | [], _, _, rc, b, c, _, used =>
    match i.existsOffset with
    | none => .failed rc b c
    | some o => .done b (c.setBoolean o false) used
  | e :: es, base, n, _, b, c, len, used =>
    match parse longMax e base b c len with
    | .done b c tempLen =>
      if tempLen > len ∨ (len ≠ noLength ∧ len ≠ tempLen) then .failed .invalidSize b c
      else
        .done b ((c.setExists i true).setSelector i.dataOffset (UInt8.ofNat n)) (add32 used tempLen)
    | .failed .wrongTag b c => parseAlternatives longMax i es base (n + 1) .wrongTag b c len used
    | r => r

end

end Element

/-! ## The calls -/

/-- A call of `asn_berParse`. -/
structure Call where
  element : Element
  base : Nat
  b : Buf
  c : CStruct
  quota : Nat

/-- The header of the element that is called for. -/
def Call.header (k : Call) : Header :=
  Asn.header k.element.tagged (k.element.info.at k.base) k.b k.c k.quota

def Call.parse (longMax : Nat) (k : Call) : Parse :=
  k.element.parse longMax k.base k.b k.c k.quota

/-- The calls that are made for the contents. -/
def Header.calls (contents : Buf → CStruct → Nat → List Call) : Header → List Call
  | .found b c len _ => contents b c len
  | _ => []

/-- The calls of the loop over the elements of a sequence-of. -/
def callsOfSequenceOf (parse : Parser) (calls : Nat → Buf → CStruct → Nat → List Call) (i : Info)
    (elementSize : Nat) : Nat → Nat → Buf → CStruct → Nat → List Call
  | 0, _, _, _, _ => []
  | n + 1, base, b, c, len =>
    if len = 0 then []
    else
      calls base b c len ++
        match parse base b c len with
        | .done b c tempLen =>
          if tempLen > len then []
          else
            callsOfSequenceOf parse calls i elementSize n (base + elementSize) b
              (c.setUint32 i.dataOffset (UInt32.ofNat (i.maxDataLength - n))) (len - tempLen)
        | _ => []

namespace Element

mutual

/-- The call for an element, and all calls that it makes. -/
def calls (longMax : Nat) : Element → Nat → Buf → CStruct → Nat → List Call
  | .sequence i es, base, b, c, quota =>
    ⟨.sequence i es, base, b, c, quota⟩ ::
      (header (tagged (.sequence i es)) (i.at base) b c quota).calls fun b c len =>
        callsOfElements longMax es base b c len
  | .sequenceOf i elementSize e, base, b, c, quota =>
    ⟨.sequenceOf i elementSize e, base, b, c, quota⟩ ::
      (header (tagged (.sequenceOf i elementSize e)) (i.at base) b c quota).calls fun b c len =>
        callsOfSequenceOf (fun base b c quota => parse longMax e base b c quota)
          (fun base b c quota => calls longMax e base b c quota) (i.at base) elementSize
          i.maxDataLength base b (c.setUint32 (i.at base).dataOffset 0) len
  | .choice i es, base, b, c, quota =>
    ⟨.choice i es, base, b, c, quota⟩ ::
      (header (tagged (.choice i es)) (i.at base) b c quota).calls fun b c len =>
        callsOfAlternatives longMax es base b c len
  | .integer i, base, b, c, quota => [⟨.integer i, base, b, c, quota⟩]
  | .bitString i, base, b, c, quota => [⟨.bitString i, base, b, c, quota⟩]
  | .bcdString i, base, b, c, quota => [⟨.bcdString i, base, b, c, quota⟩]
  | .octetString i, base, b, c, quota => [⟨.octetString i, base, b, c, quota⟩]
  | .buffer i, base, b, c, quota => [⟨.buffer i, base, b, c, quota⟩]
  | .other i, base, b, c, quota => [⟨.other i, base, b, c, quota⟩]

def callsOfElements (longMax : Nat) : List Element → Nat → Buf → CStruct → Nat → List Call
  | [], _, _, _, _ => []
  | e :: es, base, b, c, len =>
    if len = 0 then []
    else
      calls longMax e base b c len ++
        match parse longMax e base b c len with
        | .done b c tempLen =>
          if tempLen > len then [] else callsOfElements longMax es base b c (len - tempLen)
        | _ => []

def callsOfAlternatives (longMax : Nat) : List Element → Nat → Buf → CStruct → Nat → List Call
  | [], _, _, _, _ => []
  | e :: es, base, b, c, len =>
    calls longMax e base b c len ++
      match parse longMax e base b c len with
      | .failed .wrongTag b c => callsOfAlternatives longMax es base b c len
      | _ => []

end

end Element

end Asn
