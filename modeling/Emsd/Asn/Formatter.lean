import Emsd.Lib.Script
import Emsd.Asn.Formatting

/-!
# Formatting with a shared compile tree (`asnber.c`, `buf.c`)

`asn_berFormat` as the source has it where that matters for its failures: the tags are in the entries
of the compile tree, which it changes; a pre-formatted buffer is emptied when it is used; lengths are
`OS_Uint32`, the length of a string is an `OS_Uint16`; and a segment of the buffer may not be had.

An entry of the tree is known by its path from the root. The formatter learns nothing from the buffer
module but whether a call succeeds, so it is the script of its calls.
-/

namespace Asn

open Ocp

/-- The way from the root of a compile tree to an entry, by the numbers of the elements. -/
abbrev Path := List Nat

namespace Shared

/-- What the formatter changes besides the buffer that it fills: the tags of the table entries, and the
buffers that the handles of pre-formatted buffers stand for. -/
structure Memory where
  tag : Path → UInt8
  buffer : Nat → Front

def Memory.setTag (m : Memory) (p : Path) (tag : UInt8) : Memory :=
  { m with tag := Function.update m.tag p tag }

def Memory.setBuffer (m : Memory) (hBuf : Nat) (f : Front) : Memory :=
  { m with buffer := Function.update m.buffer hBuf f }

/-- What is formatted: a structure, the maximum lengths of its bit strings, and the handles of its
pre-formatted buffers. -/
structure Record where
  c : CStruct
  maxLen : Nat → UInt16 := fun _ => 0
  hBuf : Nat → Nat := fun _ => 0

/-! ## The calls -/

/-- A call of the buffer module. -/
inductive Put
  /-- `BUF_addOctet` -/
  | octet (x : UInt8)
  /-- `BUF_prependChunk` -/
  | chunk (string : Octets)
  /-- `BUF_prependBuffer` -/
  | buffer (f : Front)

/-- The buffer that is filled, and how often `allocSegment` has been asked for a segment. -/
structure Target where
  buf : Front
  asked : Nat := 0

/-- A segment that `allocSegment` is asked for. -/
def Target.allocSegment (grant : Nat → Bool) (t : Target) (f : Front) : Option Target :=
  if grant t.asked then some ⟨f, t.asked + 1⟩ else none

/-- A call. It fails when a segment is needed and there is none. -/
def Put.run (grant : Nat → Bool) : Put → Target → Option Target
  | .octet x, t =>
    if t.buf.room = 0 then t.allocSegment grant (t.buf.addOctet x)
    else some { t with buf := t.buf.addOctet x }
  | .chunk string, t => t.allocSegment grant (t.buf.prependChunk string)
  | .buffer f, t => some { t with buf := prependBuffer t.buf f }

/-- Where the formatter is: the entry that it formats, and what is in memory. -/
structure Point where
  entry : Path
  memory : Memory

/-- Why the formatter stops when no call has failed. -/
inductive Stop
  /-- `ProgrammerError`: a type that it does not know. -/
  | programmerError
  /-- The selector of a choice leads to the head of the list of its alternatives, which is no entry. -/
  | undefined
  deriving DecidableEq

abbrev Formatter := Script Put Point Stop (UInt32 × Memory)

/-- Calls for one entry, and the length that they are taken to add. -/
def puts (p : Path) (m : Memory) (calls : List Put) (len : UInt32) : Formatter :=
  .perform calls ⟨p, m⟩ (len, m)

/-- Octets are put in front of each other, the last one first. -/
def octets (os : Octets) : List Put := os.reverse.map .octet

/-! ## The formatter -/

/-- The end of `asn_berFormat`: the length and the tag, unless there is no tag. -/
def addTag (p : Path) (tag : UInt8) (r : UInt32 × Memory) : Formatter :=
  if tag ≠ 0 then
    let length := lengthOctets r.1.toNat
    puts p r.2 (octets (tag :: length)) (r.1 + UInt32.ofNat length.length + 1)
  else puts p r.2 [] r.1

/-- The tag that an element gets, when the one of its entry is `tag`; zero stands for none. -/
def closingTag (c : CStruct) (base : Nat) (tag : UInt8) : Element → UInt8
  | .integer _ | .bitString _ | .bcdString _ | .octetString _ => tag
  | .sequence _ _ => tag ||| constructor
  | .sequenceOf i _ e =>
    -- the entry that is asked whether it is optional is now that of the elements
    if e.info.existsOffset ≠ none ∧ c.uint32 (i.at base).dataOffset = 0 then 0
    else tag ||| constructor
  | .choice _ _ => if tag &&& asnExplicit = 0 then 0 else tag
  | .buffer _ | .other _ => 0

/-- An element with the contents `contents`: it is left out, or gets its tag. -/
def element (s : Record) (e : Element) (p : Path) (base : Nat) (m : Memory) (contents : Formatter) :
    Formatter :=
  if (e.info.at base).present s.c then
    contents.andThen (addTag p (closingTag s.c base (m.tag p) e))
  else puts p m [] 0

/-- The length of an octet string: `STR_getStringLength` gives an `OS_Uint16`. -/
def stringLength (string : Octets) : UInt32 := UInt32.ofNat (string.length % 2 ^ 16)

/-- `BUF_getBufferLength`. -/
def bufferLength (f : Front) : UInt32 := UInt32.ofNat f.octets.length

/-- The tag that takes the place of the one of the alternative: the one of the choice, when it has one and
that is not explicit. Zero stands for none. -/
def replacement (choiceTag : UInt8) : UInt8 := if choiceTag &&& asnExplicit = 0 then choiceTag else 0

/-- The contents of a bit string. -/
def putBitString (string : BitString) (p : Path) (m : Memory) : Formatter :=
  let r := formatBitString string ⟨[], 0⟩
  puts p m (octets r.1.octets) (UInt32.ofNat r.2)

/-- The contents of a buffer: its segments are moved, not copied. -/
def putBuffer (hBuf : Nat) (p : Path) (m : Memory) : Formatter :=
  let len := bufferLength (m.buffer hBuf)
  if len > 0 then ⟨[(.buffer (m.buffer hBuf), ⟨p, m⟩)], .ok (len, m.setBuffer hBuf ⟨[], 0⟩)⟩
  else puts p m [] len

/-- The loop over the elements of a sequence-of, from the first one to the last. -/
def formatSequenceOf (format : Nat → Memory → Formatter) (elementSize : Nat) (p : Path) :
    Nat → Nat → Memory → Formatter
  | 0, _, m => puts p m [] 0
  | count + 1, base, m =>
    (format base m).andThen fun r =>
      (formatSequenceOf format elementSize p count (base + elementSize) r.2).andThen fun r' =>
        puts p r'.2 [] (r.1 + r'.1)

mutual

/-- `asn_berFormat` of the entry at `p`, of the structure at `base`. -/
def format (s : Record) : Element → Path → Nat → Memory → Formatter
  | .integer i, p, base, m =>
    let integer := s.c.uint32 (i.at base).dataOffset
    element s (.integer i) p base m
      (puts p m (octets (integerOctets integer)) (UInt32.ofNat (integerLength integer)))
  | .bitString i, p, base, m =>
    let o := (i.at base).dataOffset
    element s (.bitString i) p base m (putBitString ⟨(s.maxLen o).toNat, s.c.string o⟩ p m)
  | .bcdString i, p, base, m =>
    let bcdString := intToBcd (s.c.uint32 (i.at base).dataOffset)
    element s (.bcdString i) p base m (puts p m (octets bcdString) (UInt32.ofNat bcdString.length))
  | .octetString i, p, base, m =>
    let string := s.c.string (i.at base).dataOffset
    element s (.octetString i) p base m (puts p m [.chunk string] (stringLength string))
  | .sequence i es, p, base, m =>
    element s (.sequence i es) p base m (formatElements s es 0 p base m)
  | .sequenceOf i elementSize e, p, base, m =>
    let count := (s.c.uint32 (i.at base).dataOffset).toNat
    element s (.sequenceOf i elementSize e) p base m
      (formatSequenceOf (fun base m => format s e (p ++ [0]) base m) elementSize p count base m)
  | .choice i es, p, base, m =>
    -- the list of the alternatives is a ring, its head included
    let n := (s.c.selector (i.at base).dataOffset).toNat % (es.length + 1)
    element s (.choice i es) p base m
      (formatAlternative s es n 0 (replacement (m.tag p)) p base m)
  | .buffer i, p, base, m =>
    element s (.buffer i) p base m (putBuffer (s.hBuf (i.at base).dataOffset) p m)
  | .other i, p, base, m => element s (.other i) p base m (.stop .programmerError ⟨p, m⟩)

/-- The elements of a sequence from number `k` on, from the last one to the first. -/
def formatElements (s : Record) : List Element → Nat → Path → Nat → Memory → Formatter
  | [], _, p, _, m => puts p m [] 0
  | e :: es, k, p, base, m =>
    (formatElements s es (k + 1) p base m).andThen fun r =>
      (format s e (p ++ [k]) base r.2).andThen fun r' => puts p r'.2 [] (r.1 + r'.1)

/-- The alternative of a choice that comes `n` places behind number `k`: it gets the tag of the choice
while it is formatted, unless that is zero. -/
def formatAlternative (s : Record) :
    List Element → Nat → Nat → UInt8 → Path → Nat → Memory → Formatter
  | [], _, _, _, p, _, m => .stop .undefined ⟨p, m⟩
  | e :: _, 0, k, tag, p, base, m =>
    let q := p ++ [k]
    let savedTag := m.tag q
    (format s e q base (if tag ≠ 0 then m.setTag q tag else m)).andThen fun r =>
      puts p (r.2.setTag q savedTag) [] r.1
  | _ :: es, n + 1, k, tag, p, base, m => formatAlternative s es n (k + 1) tag p base m

end

/-! ## A call of the formatter -/

/-- How `asn_berFormat` returns. -/
inductive Result
  /-- `Success`, with `*pFormattedLength` -/
  | ok (pFormattedLength : UInt32) (m : Memory) (t : Target)
  /-- `ResourceError` or `ProgrammerError` -/
  | failed (rc : ReturnCode) (m : Memory) (t : Target)
  /-- It follows a pointer that is none. -/
  | undefined

/-- The result that a run of the script amounts to. -/
def Result.ofOutcome : Script.Outcome Point Stop (UInt32 × Memory) Target → Result
  | .finished r t => .ok r.1 r.2 t
  | .refused n t => .failed .resourceError n.memory t
  | .stopped .programmerError n t => .failed .programmerError n.memory t
  | .stopped .undefined _ _ => .undefined

/-- A call of `asn_berFormat` for the entry at `p`, with the segments that `grant` gives. -/
def asnBerFormat (grant : Nat → Bool) (s : Record) (e : Element) (p : Path) (base : Nat) (m : Memory)
    (t : Target) : Result :=
  .ofOutcome ((format s e p base m).run (Put.run grant) t)

theorem asnBerFormat_ok {grant : Nat → Bool} {s : Record} {e : Element} {p : Path} {base : Nat}
    {m m' : Memory} {t t' : Target} {len : UInt32}
    (h : asnBerFormat grant s e p base m t = .ok len m' t') :
    (format s e p base m).ending = .ok (len, m') ∧
      Script.runCalls (Put.run grant) (format s e p base m).calls t = .ok t' := by
  unfold asnBerFormat at h
  cases hrun : (format s e p base m).run (Put.run grant) t with
  | finished r t₁ =>
    rw [hrun] at h
    obtain ⟨rfl, rfl, rfl⟩ := Result.ok.inj h
    exact Script.run_finished_iff.1 hrun
  | refused n t₁ => rw [hrun] at h; cases h
  | stopped stop n t₁ => rw [hrun] at h; cases stop <;> cases h

end Shared

end Asn
