import Emsd.Lib.Run
import Emsd.Lib.Slice
import Emsd.Ocp.Buf
import Emsd.Ocp.Writing

/-!
# Buffers that share strings (`buf.c`, `strfunc.c`)

All buffers of a program: each is a queue of segments, a segment is a part of a string, and a string
may be a part of several buffers. Memory is not exhausted, no buffer is freed, and strings have a
length of their own (Z-strings are not modelled).

A call has no result when it touches memory outside the segments of its buffer, or never ends.
-/

namespace Ocp

open Slice

/-- A string: one that the user has made, or the data area of a segment. -/
inductive StringRef
  | chunk (n : Nat)
  | area (n : Nat)
  deriving DecidableEq, Repr

/-- `Buf_Segment`: the octets of the string between `pStart` and `pEnd`. -/
structure Segment where
  string : StringRef
  pStart : Nat
  pEnd : Nat
  deriving DecidableEq, Repr

/-- `pCurrentSeg`. -/
inductive CurrentSeg
  | seg (n : Nat)
  /-- the head of the queue -/
  | head
  /-- a segment that has become part of another buffer -/
  | elsewhere
  deriving DecidableEq, Repr

/-- `Buf_Head`; `pX` is an offset in the string of the current segment. -/
structure BufHead where
  segs : List Segment
  pCurrentSeg : CurrentSeg
  pX : Nat
  deriving DecidableEq, Repr

/-- The number of octets of a string is an `OS_Uint16` other than `STR_ZSTRING`. -/
def strZString : Nat := 0xffff

/-- What a string of the user can hold. -/
abbrev Chunk := { octets : Octets // octets.length < strZString }

/-- The strings, and the buffers. -/
structure Heap where
  chunks : List Octets
  areas : List Octets
  bufs : List BufHead
  deriving DecidableEq, Repr

/-- The calls; buffers and strings of the user are numbered in the order in which they are made. -/
inductive BufOp
  | string (chunk : Chunk)
  | alloc (minSize : UInt16)
  | addOctet (hBuf : Nat) (octet : UInt8)
  | prependChunk (hBuf string : Nat)
  | appendChunk (hBuf string : Nat)
  | appendBuffer (hBuf hAppendThisBuf : Nat)
  | copy (hBufSrc : Nat)
  | cloneBufferPortion (hBuf : Nat) (len : UInt32) (bStripClonedPortion : Bool)
  | resetParse (hBuf : Nat)
  | getOctet (hBuf : Nat)
  | ungetOctet (hBuf : Nat)
  | getChunk (hBuf : Nat) (chunkLength : UInt16)
  | getBufferLength (hBuf : Nat)
  deriving DecidableEq, Repr

/-- What a call gives. -/
inductive BufOut
  | done
  | handle (n : Nat)
  | octet (x : UInt8)
  | chunk (octets : Octets)
  | length (n : Nat)
  /-- `BUF_RC_BufferExhausted` -/
  | exhausted
  deriving DecidableEq, Repr

/-- `BUF_ENTIRE`. -/
def bufEntire : Nat := 0xffffffff

namespace Heap

/-- The octets of a string. -/
def data (h : Heap) : StringRef → Octets
  | .chunk n => h.chunks[n]?.getD []
  | .area n => h.areas[n]?.getD []

/-- The octets of a segment. -/
def octets (h : Heap) (seg : Segment) : Octets := slice (h.data seg.string) seg.pStart seg.pEnd

def setBuf (h : Heap) (hBuf : Nat) (b : BufHead) : Heap := { h with bufs := h.bufs.set hBuf b }

def newBuf (h : Heap) (b : BufHead) : Heap := { h with bufs := h.bufs ++ [b] }

/-- An octet is written into a string. -/
def store (h : Heap) (string : StringRef) (x : Nat) (octet : UInt8) : Heap :=
  match string with
  | .chunk n => { h with chunks := h.chunks.modify n (·.set x octet) }
  | .area n => { h with areas := h.areas.modify n (·.set x octet) }

/-- `allocSegment`: an empty segment at the end of a data area of its own. -/
def allocSegment (h : Heap) (minSize : Nat) : Segment × Heap :=
  (⟨.area h.areas.length, minSize, minSize⟩,
    { h with areas := h.areas ++ [List.replicate minSize 0] })

end Heap

/-- The current segment and its number. -/
def BufHead.current (b : BufHead) : Option (Nat × Segment) :=
  match b.pCurrentSeg with
  | .seg n => b.segs[n]?.map fun seg => (n, seg)
  | _ => none

/-- `BUF_resetParse`; the head of the queue has its `pX` where a segment has its `pStart`. -/
def BufHead.resetParse (b : BufHead) : BufHead :=
  match b.segs with
  | [] => { b with pCurrentSeg := .head }
  | seg :: _ => { b with pCurrentSeg := .seg 0, pX := seg.pStart }

namespace Heap

/-- `BUF_alloc`. -/
def alloc (h : Heap) (minSize : Nat) : Heap :=
  let (seg, h) := h.allocSegment minSize
  h.newBuf ⟨[seg], .seg 0, seg.pEnd⟩

/-- `BUF_addOctet`. -/
def addOctet (h : Heap) (hBuf : Nat) (b : BufHead) (octet : UInt8) : Option Heap :=
  match b.current with
  | none => none
  | some (n, seg) =>
    -- is there enough space in this segment?
    let (n, seg, b, h) :=
      if seg.pStart = 0 then
        let (seg, h) := h.allocSegment bufMinDataArea
        (0, seg, { segs := seg :: b.segs, pCurrentSeg := .seg 0, pX := seg.pEnd }, h)
      else (n, seg, b, h)
    some ((h.store seg.string (b.pX - 1) octet).setBuf hBuf
      { b with segs := b.segs.set n { seg with pStart := seg.pStart - 1 }, pX := b.pX - 1 })

/-- The segment that a string becomes as a whole. -/
def chunkSegment (h : Heap) (string : StringRef) : Segment := ⟨string, 0, (h.data string).length⟩

/-- `BUF_prependChunk`. -/
def prependChunk (h : Heap) (hBuf : Nat) (b : BufHead) (string : StringRef) : Heap :=
  h.setBuf hBuf { segs := h.chunkSegment string :: b.segs, pCurrentSeg := .seg 0, pX := 0 }

/-- `BUF_appendChunk`. -/
def appendChunk (h : Heap) (hBuf : Nat) (b : BufHead) (string : StringRef) : Heap :=
  h.setBuf hBuf
    { segs := b.segs ++ [h.chunkSegment string], pCurrentSeg := .seg b.segs.length, pX := 0 }

/-- `BUF_appendBuffer`. A buffer that is appended to itself never ends; when neither has a segment, a
place behind the head of the queue is read. -/
def appendBuffer (h : Heap) (hBuf : Nat) (b : BufHead) (hAppendThisBuf : Nat) (b' : BufHead) :
    Option Heap :=
  let segs := b.segs ++ b'.segs
  match segs.getLast? with
  | none => none
  | some last =>
    if hBuf = hAppendThisBuf then none
    else
      let left := match b'.pCurrentSeg with
        | .seg _ => CurrentSeg.elsewhere
        | current => current
      some ((h.setBuf hBuf ⟨segs, .seg (segs.length - 1), last.pEnd⟩).setBuf hAppendThisBuf
        { b' with segs := [], pCurrentSeg := left })

/-- The loop of `BUF_copy` over the segments of the source. `STR_assignString` takes a length of
`STR_ZSTRING` for that of a Z-string. -/
def copySegs : List Segment → Heap → Option (List Segment × Heap)
  | [], h => some ([], h)
  | seg :: segs, h =>
    let octets := h.octets seg
    if octets.length = strZString ∧ 0 ∉ octets then none
    else
      let pEnd := if octets.length = strZString then (octets.takeWhile (· ≠ 0)).length
        else octets.length
      (copySegs segs { h with areas := h.areas ++ [octets] }).map fun r =>
        (⟨.area h.areas.length, 0, pEnd⟩ :: r.1, r.2)

/-- `BUF_copy`. -/
def copy (h : Heap) (b : BufHead) : Option Heap :=
  let (seg, h) := h.allocSegment 0
  (copySegs b.segs h).map fun r => r.2.newBuf (BufHead.resetParse ⟨seg :: r.1, .head, 0⟩)

/-- The loop of `BUF_cloneBufferPortion` over the segments from number `n` on: the cloned segments,
and the current segment and `pX` of the source. -/
def cloneSegs (bStripClonedPortion : Bool) :
    List Segment → Nat → Nat → CurrentSeg × Nat → List Segment × (CurrentSeg × Nat)
  | [], _, _, loc => ([], loc)
  | seg :: segs, n, len, loc =>
    if len = 0 then ([], loc)
    else
      let pStart := if len ≠ bufEntire ∧ loc.1 = .seg n then loc.2 else seg.pStart
      if seg.pEnd - pStart ≥ len then
        ([{ seg with pStart := pStart, pEnd := pStart + len }],
          if bStripClonedPortion then (.seg n, pStart + len) else loc)
      else
        let next : CurrentSeg × Nat :=
          match segs with
          -- the head of the queue has its `pX` where a segment has its `pStart`
          | [] => (.head, loc.2)
          | seg :: _ => (.seg (n + 1), seg.pStart)
        let r := cloneSegs bStripClonedPortion segs (n + 1) (len - (seg.pEnd - pStart))
          (if bStripClonedPortion then next else loc)
        ({ seg with pStart := pStart } :: r.1, r.2)

/-- `BUF_cloneBufferPortion`. -/
def cloneBufferPortion (h : Heap) (hBuf : Nat) (b : BufHead) (len : Nat)
    (bStripClonedPortion : Bool) : Option Heap :=
  let finish (r : List Segment × (CurrentSeg × Nat)) : Heap :=
    (h.setBuf hBuf { b with pCurrentSeg := r.2.1, pX := r.2.2 }).newBuf
      (BufHead.resetParse ⟨r.1, .head, 0⟩)
  if len = bufEntire then
    some (finish (cloneSegs bStripClonedPortion b.segs 0 len (b.pCurrentSeg, b.pX)))
  else
    match b.pCurrentSeg with
    | .seg n =>
      some (finish (cloneSegs bStripClonedPortion (b.segs.drop n) n len (b.pCurrentSeg, b.pX)))
    | .head => some (finish ([], (.head, b.pX)))
    | .elsewhere => if len = 0 then some (finish ([], (.elsewhere, b.pX))) else none

/-- An octet of a segment, at an offset in its string. -/
def octetAt (h : Heap) (seg : Segment) (x : Nat) : Option UInt8 :=
  if x < seg.pEnd then (h.data seg.string)[x]? else none

/-- `BUF_getOctet`. -/
def getOctet (h : Heap) (hBuf : Nat) (b : BufHead) : Option (Heap × BufOut) :=
  match b.current with
  | none => none
  | some (n, seg) =>
    if b.pX = seg.pEnd then
      match b.segs[n + 1]? with
      | none => some (h, .exhausted)
      | some next =>
        (h.octetAt next next.pStart).map fun x =>
          (h.setBuf hBuf { b with pCurrentSeg := .seg (n + 1), pX := next.pStart + 1 }, .octet x)
    else
      (h.octetAt seg b.pX).map fun x => (h.setBuf hBuf { b with pX := b.pX + 1 }, .octet x)

/-- A location one octet in front of the end of segment number `n`. -/
def backInto (b : BufHead) (n : Nat) : Option BufHead :=
  match b.segs[n]? with
  | none => none
  | some seg =>
    if seg.pStart < seg.pEnd then some { b with pCurrentSeg := .seg n, pX := seg.pEnd - 1 } else none

/-- `BUF_ungetOctet`. In front of the first segment is the head of the queue, in front of the head the
last segment. -/
def ungetOctet (h : Heap) (hBuf : Nat) (b : BufHead) : Option Heap :=
  match b.pCurrentSeg with
  | .elsewhere => none
  | .head => (backInto b (b.segs.length - 1)).map (h.setBuf hBuf)
  | .seg n =>
    match b.segs[n]? with
    | none => none
    | some seg =>
      if b.pX = seg.pStart then
        if n = 0 then none else (backInto b (n - 1)).map (h.setBuf hBuf)
      else some (h.setBuf hBuf { b with pX := b.pX - 1 })

/-- The loop of `BUF_getChunk`, from segment number `n` on: the segment that has octets left, and how
many (an `OS_Uint16`). -/
def findChunk : List Segment → Nat → Nat → Option (Nat × Segment × Nat × Nat)
  | [], _, _ => none
  | seg :: segs, n, x =>
    let octetsRemaining := (seg.pEnd - x) % 2 ^ 16
    if octetsRemaining = 0 then
      findChunk segs (n + 1) (match segs with | [] => x | seg :: _ => seg.pStart)
    else some (n, seg, x, octetsRemaining)

/-- `BUF_getChunk`. -/
def getChunk (h : Heap) (hBuf : Nat) (b : BufHead) (chunkLength : Nat) : Option (Heap × BufOut) :=
  match b.pCurrentSeg with
  | .seg n =>
    match findChunk (b.segs.drop n) n b.pX with
    | none => some (h.setBuf hBuf { b with pCurrentSeg := .head }, .exhausted)
    | some (n, seg, x, octetsRemaining) =>
      let octetsRemaining := if chunkLength ≠ 0 ∧ octetsRemaining > chunkLength then chunkLength
        else octetsRemaining
      some (h.setBuf hBuf { b with pCurrentSeg := .seg n, pX := x + octetsRemaining },
        .chunk (slice (h.data seg.string) x (x + octetsRemaining)))
  | _ => none

/-- `BUF_getBufferLength`. -/
def getBufferLength (b : BufHead) : Nat := (b.segs.map fun seg => seg.pEnd - seg.pStart).sum % 2 ^ 32

/-- One call. -/
def call (h : Heap) : BufOp → Option (Heap × BufOut)
  | .string chunk =>
    some ({ h with chunks := h.chunks ++ [chunk.val] }, .handle h.chunks.length)
  | .alloc minSize => some (h.alloc minSize.toNat, .handle h.bufs.length)
  | .addOctet hBuf octet => do
    let b ← h.bufs[hBuf]?
    let h ← h.addOctet hBuf b octet
    some (h, .done)
  | .prependChunk hBuf string => do
    let b ← h.bufs[hBuf]?
    if string < h.chunks.length then some (h.prependChunk hBuf b (.chunk string), .done) else none
  | .appendChunk hBuf string => do
    let b ← h.bufs[hBuf]?
    if string < h.chunks.length then some (h.appendChunk hBuf b (.chunk string), .done) else none
  | .appendBuffer hBuf hAppendThisBuf => do
    let b ← h.bufs[hBuf]?
    let b' ← h.bufs[hAppendThisBuf]?
    let h ← h.appendBuffer hBuf b hAppendThisBuf b'
    some (h, .done)
  | .copy hBufSrc => do
    let b ← h.bufs[hBufSrc]?
    let h' ← h.copy b
    some (h', .handle h.bufs.length)
  | .cloneBufferPortion hBuf len bStripClonedPortion => do
    let b ← h.bufs[hBuf]?
    let h' ← h.cloneBufferPortion hBuf b len.toNat bStripClonedPortion
    some (h', .handle h.bufs.length)
  | .resetParse hBuf => do
    let b ← h.bufs[hBuf]?
    some (h.setBuf hBuf b.resetParse, .done)
  | .getOctet hBuf => do
    let b ← h.bufs[hBuf]?
    h.getOctet hBuf b
  | .ungetOctet hBuf => do
    let b ← h.bufs[hBuf]?
    let h ← h.ungetOctet hBuf b
    some (h, .done)
  | .getChunk hBuf chunkLength => do
    let b ← h.bufs[hBuf]?
    h.getChunk hBuf b chunkLength.toNat
  | .getBufferLength hBuf => do
    let b ← h.bufs[hBuf]?
    some (h, .length (getBufferLength b))

/-- No strings and no buffers yet. -/
def empty : Heap := ⟨[], [], []⟩

/-- All buffers of a program, as a system. -/
def sys : Run.Sys Heap BufOp BufOut where
  init h := h = empty
  step h op := (h.call op).map fun r => (r.1, [r.2])

end Heap

end Ocp
