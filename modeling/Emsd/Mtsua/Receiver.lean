import Emsd.Mtsua.Sender
import Emsd.Ocp.Reading

/-!
# Putting a message together

The Performer machine of the message transfer server (`mts/segment.c`) and that of the user agent
(`ua/uacore/uperform.c`) collect the segments of a message in the same way: what differs is that the
server counts the segments besides.
-/

namespace Mtsua

open Ocp

/-- What `hSegmentBuf[i]` points to. -/
inductive SegmentBuf
  | null
  | copy (b : Buf)
  /-- Given to `BUF_free`. -/
  | freed
  deriving DecidableEq, Repr

/-- The fields of `MTS_Operation` and `UA_Operation` that the collection of segments uses. -/
structure Receiver where
  bComplete : Bool := false
  sequenceId : Nat := 0
  lastSegmentNumber : Nat := 0
  nextSegmentNumber : Nat := 0
  hSegmentBuf : Nat → SegmentBuf := fun _ => .null
  expectedSegmentMask : BitVec 32 := 0
  receivedSegmentMask : BitVec 32 := 0
  /-- The segmentation timer runs. -/
  hSegmentationTimer : Bool := false
  /-- `hContents` of the argument that the predicate goes on with. -/
  hContents : Option Buf := none

/-- How the calls that a predicate makes turn out. -/
structure ReceiveEnv where
  /-- `BUF_copy` -/
  copy : Bool := true
  /-- `mts_operationAddUserFree`, `ua_operationAddUserFree` -/
  addUserFree : Bool := true
  /-- `TMR_start` -/
  timer : Bool := true
  /-- What `1 << 32` yields, which C leaves undefined. -/
  wide : BitVec 32 := 1

/-- `1 << s`. -/
def shiftOne (wide : BitVec 32) (s : Nat) : BitVec 32 := if s < 32 then 1#32 <<< s else wide

/-- An assignment to `hSegmentBuf[i]`. -/
def Receiver.setSegmentBuf (r : Receiver) (i : Nat) (buf : SegmentBuf) : Receiver :=
  { r with hSegmentBuf := fun k => if k = i then buf else r.hSegmentBuf k }

/-- The first segment. `counts`: the agent keeps `nextSegmentNumber`. -/
def firstSegment (counts : Bool) (env : ReceiveEnv) (r : Receiver) (sequenceId numSegments : Nat)
    (hContents : Buf) : Receiver × Bool :=
  if numSegments = 1 then ({ r with bComplete := true, hContents := some hContents }, true)
  else
    let r := { r with lastSegmentNumber := (numSegments + 2 ^ 32 - 1) % 2 ^ 32 }
    if r.lastSegmentNumber ≥ maxSegments then (r, false)
    else
      let r := { r with
        nextSegmentNumber := if counts then 1 else r.nextSegmentNumber
        sequenceId }
      if env.copy = false then (r, false)
      else if env.addUserFree = false then (r.setSegmentBuf 0 .freed, false)
      else
        let r := { r.setSegmentBuf 0 (.copy hContents.copy) with
          expectedSegmentMask := shiftOne env.wide (r.lastSegmentNumber + 1) - 1
          receivedSegmentMask := shiftOne env.wide 0 }
        if env.timer = false then (r.setSegmentBuf 0 .freed, false)
        else ({ r with hSegmentationTimer := true }, true)

/-- The segment buffers from `i` on, appended to `b`; nothing when the code follows a bad pointer. -/
def appendSegments (hSegmentBuf : Nat → SegmentBuf) (b : Buf) (i : Nat) : Nat → Option Buf
  | 0 => some b
  | n + 1 =>
    match hSegmentBuf i with
    | .copy b' => appendSegments hSegmentBuf (b.appendBuffer b') (i + 1) n
    | _ => none

/-- All segments have been received. -/
def joinSegments (r : Receiver) : Option Receiver :=
  match r.hSegmentBuf 0 with
  | .copy b => (appendSegments r.hSegmentBuf b 1 r.lastSegmentNumber).map fun b =>
    { r with hContents := some b.resetParse, hSegmentationTimer := false, bComplete := true }
  | _ => none

/-- Another segment. -/
def otherSegment (counts : Bool) (env : ReceiveEnv) (r : Receiver) (thisSeg : Nat)
    (hContents : Buf) : Option (Receiver × Bool) :=
  if thisSeg > 31 ∨ r.expectedSegmentMask < shiftOne env.wide thisSeg then some (r, false)
  else if r.receivedSegmentMask &&& shiftOne env.wide thisSeg ≠ 0 then some (r, false)
  else if env.copy = false then some (r, false)
  else if env.addUserFree = false then some (r.setSegmentBuf thisSeg .freed, false)
  else
    let r := { r.setSegmentBuf thisSeg (.copy hContents.copy) with
      receivedSegmentMask := r.receivedSegmentMask ||| shiftOne env.wide thisSeg }
    if r.expectedSegmentMask = r.receivedSegmentMask then (joinSegments r).map fun r => (r, true)
    else
      some ({ r with
        nextSegmentNumber := if counts then r.nextSegmentNumber + 1 else r.nextSegmentNumber }, true)

/-- A segment, and whether the predicate goes on with it. -/
def receiveSegment (counts : Bool) (env : ReceiveEnv) (r : Receiver) (info : SegmentInfo)
    (hContents : Buf) : Option (Receiver × Bool) :=
  match info.choice with
  | .first numSegments => some (firstSegment counts env r info.sequenceId numSegments hContents)
  | .other thisSeg => otherSegment counts env r thisSeg hContents

end Mtsua

namespace Mts

/-- `segment.c`. -/
def receiveSegment := Mtsua.receiveSegment true

end Mts

namespace Ua

/-- The segment handling of `pS1S2a` in `uperform.c`. -/
def receiveSegment := Mtsua.receiveSegment false

end Ua
