import Emsd.Lib.Numeral
import Emsd.Ocp.Writing
import Emsd.Asn.Table

/-!
# Formatting and parsing with the basic encoding rules (`asnber.c`)

Lengths are natural numbers: an `OS_Uint32` holds the length of whatever a buffer holds. Memory is
not exhausted. Bit strings, sequences-of and buffers are not modelled.
-/

namespace Asn

open Ocp

/-! ## Formatting -/

/-- The loops that put the octets of a number in front of a buffer, the last octet first. -/
def addOctets (f : Front) (octets : Octets) : Front :=
  octets.foldr (fun octet f => f.addOctet octet) f

/-- The octets of an integer; an `OS_Uint32` has at most four. -/
def integerOctets (integer : UInt32) : Octets :=
  (Numeral.peel 256 4 integer.toNat).map UInt8.ofNat

/-- The length of the data field of an integer. -/
def integerLength (integer : UInt32) : Nat :=
  if integer > 0xffffff then 4
  else if integer > 0xffff then 3
  else if integer > 0xff then 2
  else 1

/-- `sprintf "%lu"`: the digits of a number. -/
def digitString (integer : UInt32) : List Nat :=
  if integer = 0 then [0] else Numeral.digits 10 integer.toNat

/-- Two digits to an octet. -/
def pack : List Nat → Octets
  | d :: e :: digits => UInt8.ofNat (d * 16 + e) :: pack digits
  | _ => []

/-- `stringToBcd`: with a leading zero when the number of digits is odd. -/
def stringToBcd (digits : List Nat) : Octets :=
  let tmp := 0 :: digits
  pack (if tmp.length % 2 = 1 then tmp.tail else tmp)

/-- `intToBcd`. -/
def intToBcd (integer : UInt32) : Octets := stringToBcd (digitString integer)

/-- `formatLength`: the length octets, and how many they are. -/
def formatLength (length : Nat) (f : Front) : Front × Nat :=
  if length ≤ 127 then (f.addOctet (UInt8.ofNat length), 1)
  else
    let octets := (Numeral.digits 256 length).map UInt8.ofNat
    ((addOctets f octets).addOctet (UInt8.ofNat octets.length ||| 0x80), octets.length + 1)

/-- The end of `asn_berFormat`: the length and the tag in front of the data, unless there is no tag. -/
def addTag (tag : UInt8) (f : Front) (len : Nat) : Front × Nat :=
  if tag ≠ 0 then
    let r := formatLength len f
    (r.1.addOctet tag, len + r.2 + 1)
  else (f, len)

mutual

/-- `asn_berFormat` of an element with the tag `tag`, which is its own one or the one that a choice
has put in its place: the buffer and the formatted length. There is no result when a selector is
beyond the alternatives. -/
def format (s : CStruct) : Entry → UInt8 → Front → Option (Front × Nat)
  | .integer i, tag, f =>
    if i.present s then
      let integer := s.uint32 i.dataOffset
      some (addTag tag (addOctets f (integerOctets integer)) (integerLength integer))
    else some (f, 0)
  | .bcdString i, tag, f =>
    if i.present s then
      let bcdString := intToBcd (s.uint32 i.dataOffset)
      some (addTag tag (addOctets f bcdString) bcdString.length)
    else some (f, 0)
  | .octetString i, tag, f =>
    if i.present s then
      let string := s.string i.dataOffset
      some (addTag tag (f.prependChunk string) string.length)
    else some (f, 0)
  | .sequence i es, tag, f =>
    if i.present s then
      (formatElements s es f).map fun r => addTag (tag ||| constructor) r.1 r.2
    else some (f, 0)
  | .choice i es, tag, f =>
    if i.present s then
      let replaced := tag ≠ 0 ∧ tag &&& asnExplicit = 0
      (formatAlternative s es (s.selector i.dataOffset).toNat (if replaced then tag else 0) f).map
        fun r => addTag (if replaced then 0 else tag) r.1 r.2
    else some (f, 0)

/-- The elements of a sequence, from the last one to the first. -/
def formatElements (s : CStruct) : List Entry → Front → Option (Front × Nat)
  | [], f => some (f, 0)
  | e :: es, f => do
    let (f, len) ← formatElements s es f
    let (f, n) ← format s e e.info.tag f
    some (f, len + n)

/-- The element of a choice, with the tag that takes the place of its own unless it is zero. -/
def formatAlternative (s : CStruct) : List Entry → Nat → UInt8 → Front → Option (Front × Nat)
  | [], _, _, _ => none
  | e :: _, 0, tag, f => format s e (if tag = 0 then e.info.tag else tag) f
  | _ :: es, n + 1, tag, f => formatAlternative s es n tag f

end

/-- `asn_berFormat` of a whole tree into a new buffer. -/
def berFormat (e : Entry) (s : CStruct) (minSize : Nat) : Option (Front × Nat) :=
  format s e e.info.tag (Front.alloc minSize)

/-! ## Parsing -/

/-- `ReturnCode`, as far as the parser gives one. -/
inductive ReturnCode
  /-- `Fail` -/
  | fail
  /-- `ASN_RC_WrongTag` -/
  | wrongTag
  /-- `ASN_RC_InvalidSize` -/
  | invalidSize
  /-- `ASN_RC_FormatErrorInPDU` -/
  | formatErrorInPDU
  /-- `ASN_RC_IllegalData` -/
  | illegalData
  /-- `ProgrammerError` -/
  | programmerError
  /-- `BUF_RC_BufferExhausted` -/
  | bufferExhausted
  /-- `ResourceError` -/
  | resourceError
  deriving DecidableEq, Repr

/-- How parsing ends. -/
inductive Parse
  /-- `Success`, with the length used -/
  | done (b : Buf) (c : CStruct) (used : Nat)
  | failed (rc : ReturnCode) (b : Buf) (c : CStruct)
  /-- An octet outside the segments, or outside a string, has been touched. -/
  | beyond

/-- A read, and what is parsed after it. -/
def andThen {α : Type} (r : Read α) (b : Buf) (c : CStruct) (next : α → Buf → Parse) : Parse :=
  match r with
  | .ok a b => next a b
  | .exhausted => .failed .bufferExhausted b c
  | .beyond => .beyond

/-- The loops that shift octets into an `OS_Uint32`. -/
def shiftIn (octets : Octets) : Nat :=
  octets.foldl (fun v octet => (v * 256 + octet.toNat) % 2 ^ 32) 0

/-- `len` calls of `BUF_getOctet`. -/
def getOctets : Nat → Buf → Read Octets
  | 0, b => .ok [] b
  | n + 1, b =>
    match b.getOctet with
    | .ok octet b =>
      match getOctets n b with
      | .ok octets b => .ok (octet :: octets) b
      | r => r
    | .exhausted => .exhausted
    | .beyond => .beyond

/-- `parseLength`: the length, and the length of the length. -/
def parseLength (b : Buf) (c : CStruct) (next : Nat → Nat → Buf → Parse) : Parse :=
  andThen b.getOctet b c fun x b =>
    if x &&& 0x80 ≠ 0 then
      let lengthOfLength := (x &&& 0x7f).toNat
      andThen (getOctets lengthOfLength b) b c fun octets b =>
        next (shiftIn octets) (lengthOfLength + 1) b
    else next x.toNat 1 b

/-- What is parsed of an element once its length is known: the buffer, the structure, the length and
the length of the length. -/
abbrev Contents := Buf → CStruct → Nat → Nat → Parse

/-- The first part of `asn_berParse`: the tag and the length of an element that has its own tag. -/
def parseTag (i : Info) (b : Buf) (c : CStruct) (quota : Nat) (contents : Contents) : Parse :=
  andThen b.getOctet b c fun x b =>
    if bare x ≠ i.tag &&& ~~~asnExplicit then
      match i.existsOffset with
      | some o => .done b.ungetOctet (c.setBoolean o false) 0
      | none => .failed .wrongTag b.ungetOctet c
    else
      let c := c.setExists i true
      parseLength b c fun len lengthOfLength b =>
        if len > quota then .failed .formatErrorInPDU b c
        else contents b c len lengthOfLength

/-- The length that stands for no length. -/
def noLength : Nat := 0xffffffff

/-- An element that is not a choice. -/
def parseElement (i : Info) (b : Buf) (c : CStruct) (quota : Nat) (contents : Contents) : Parse :=
  if i.tag ≠ 0 then parseTag i b c quota contents else contents b c noLength 0

/-- The length used for the tag and the length of an element. -/
def usedSoFar (lengthOfLength : Nat) : Nat := if lengthOfLength = 0 then 0 else lengthOfLength + 1

theorem usedSoFar_pos {lengthOfLength : Nat} (h : 0 < lengthOfLength) :
    usedSoFar lengthOfLength = lengthOfLength + 1 :=
  if_neg (by omega)

/-- The data of an integer. -/
def parseInteger (i : Info) : Contents := fun b c len lengthOfLength =>
  if len > 4 then .failed .invalidSize b c
  else
    andThen (getOctets len b) b c fun octets b =>
      .done b (c.setUint32 i.dataOffset (UInt32.ofNat (shiftIn octets)))
        (usedSoFar lengthOfLength + len)

/-- `bcdToString`: the digits, without leading zeros. There is no result when they do not fit into
the array `str`. -/
def bcdToString (string : Octets) : Option (List Nat) :=
  let octets := string.takeWhile (· ≠ 0xff)
  if octets.length < 8 then
    let str := octets.flatMap fun octet => [octet.toNat / 16, octet.toNat % 16]
    let str := str.dropWhile (· = 0)
    some (if str = [] then [0] else str)
  else none

/-- `atol`, which stops at the first character that is not a digit, and at `LONG_MAX`. -/
def atol (longMax : Nat) (str : List Nat) : Nat :=
  min (Numeral.value 10 (str.takeWhile (· < 10))) longMax

/-- The data of an octet string, or of a BCD string: the octets are copied into a string that
`STR_alloc` makes, `store` does the rest. The first chunk that does not fit ends it. -/
def parseString (i : Info) (store : Buf → CStruct → Octets → Nat → Parse) : Contents :=
  fun b c len lengthOfLength =>
    if len > i.maxDataLength then .failed .invalidSize b c
    else
      -- the length that is asked for is an `OS_Uint16`
      let maxLen := (len + 2) % 2 ^ 16
      andThen (b.getString len) b c fun octets b =>
        if len ≤ maxLen then store b c octets (lengthOfLength + 1 + len)
        else if maxLen = 0 then .beyond
        else .failed .resourceError b c

/-- An octet string: `STR_appendString` puts the terminating zero behind the octets. -/
def storeOctetString (i : Info) (b : Buf) (c : CStruct) (octets : Octets) (used : Nat) : Parse :=
  .done b (c.setString i.dataOffset (octets ++ [0])) used

/-- A BCD string. -/
def storeBcdString (longMax : Nat) (i : Info) (b : Buf) (c : CStruct) (octets : Octets)
    (used : Nat) : Parse :=
  match bcdToString octets with
  | none => .beyond
  | some str => .done b (c.setUint32 i.dataOffset (UInt32.ofNat (atol longMax str))) used

mutual

/-- `asn_berParse` of an element, with a quota for its length. -/
def parse (longMax : Nat) : Entry → Buf → CStruct → Nat → Parse
  | .integer i, b, c, quota => parseElement i b c quota (parseInteger i)
  | .bcdString i, b, c, quota =>
    parseElement i b c quota (parseString i (storeBcdString longMax i))
  | .octetString i, b, c, quota => parseElement i b c quota (parseString i (storeOctetString i))
  | .sequence i es, b, c, quota =>
    parseElement i b c quota fun b c len lengthOfLength =>
      parseElements longMax es b c len (usedSoFar lengthOfLength + len)
  | .choice i es, b, c, quota =>
    let contents : Contents := fun b c len lengthOfLength =>
      parseAlternatives longMax i es 0 .fail b c len (usedSoFar lengthOfLength)
    if i.tag &&& asnExplicit ≠ 0 then parseTag i b c quota contents else contents b c noLength 0

/-- The elements of a sequence, as long as there is something left of its length; `used` is the
length of the whole sequence. -/
def parseElements (longMax : Nat) : List Entry → Buf → CStruct → Nat → Nat → Parse
  | [], b, c, _, used => .done b c used
  | e :: es, b, c, len, used =>
    if len = 0 then .done b c used
    else
      match parse longMax e b c len with
      | .done b c tempLen =>
        if tempLen > len then .failed .invalidSize b c
        else parseElements longMax es b c (len - tempLen) used
      | r => r

/-- The elements of the choice `i` from number `n` on; `rc` is what the one before gave. -/
def parseAlternatives (longMax : Nat) (i : Info) :
    List Entry → Nat → ReturnCode → Buf → CStruct → Nat → Nat → Parse
  | [], _, rc, b, c, _, used =>
    match i.existsOffset with
    | none => .failed rc b c
    | some o => .done b (c.setBoolean o false) used
  | e :: es, n, _, b, c, len, used =>
    match parse longMax e b c len with
    | .done b c tempLen =>
      if tempLen > len ∨ (len ≠ noLength ∧ len ≠ tempLen) then .failed .invalidSize b c
      else
        .done b ((c.setExists i true).setSelector i.dataOffset (UInt8.ofNat n)) (used + tempLen)
    | .failed .wrongTag b c => parseAlternatives longMax i es (n + 1) .wrongTag b c len used
    | r => r

end

end Asn
