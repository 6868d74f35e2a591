import Emsd.Ocp.Buf

/-!
# Sending a message in segments

The Deliver machine of the message transfer server (`mts/deliver.c`) and the Submit machine of the
user agent (`ua/uacore/submit.c`) send a formatted message in the same way. What they share is here,
with what differs as parameters; the machines themselves are in `Emsd.Mts.Deliver` and
`Emsd.Ua.Submit`.
-/

namespace Mtsua

open Ocp

/-- `MTSUA_MAX_SEGMENTS`. -/
def maxSegments : Nat := 32

/-- `MTSUA_MAX_IPM_LEN_CONNECTIONLESS`. -/
def maxIpmLenConnectionless : Nat := 1500

/-- `MTSUA_MIN_IPM_LEN_CONNECTIONORIENTED`. -/
def minIpmLenConnectionOriented : Nat := maxSegments * maxIpmLenConnectionless

/-- `MTSUA_MAX_FORMATTED_DELIVER_ARG_LEN`. -/
def maxFormattedDeliverArgLen : Nat := 100

/-- The contents of one segment at most. -/
def segmentLen : Nat := maxIpmLenConnectionless - maxFormattedDeliverArgLen

/-- `EMSD_SEGMENTINFO_CHOICE_FIRST` and `EMSD_SEGMENTINFO_CHOICE_OTHER`. -/
inductive SegmentChoice
  | first (numSegments : Nat)
  | other (thisSegmentNumber : Nat)
  deriving DecidableEq, Repr

/-- `EMSD_SegmentInfo`. -/
structure SegmentInfo where
  sequenceId : Nat
  choice : SegmentChoice
  deriving DecidableEq, Repr

/-- The number of a segment in its sequence. -/
def SegmentInfo.number (info : SegmentInfo) : Nat :=
  match info.choice with
  | .first _ => 0
  | .other thisSegmentNumber => thisSegmentNumber

/-- A Deliver or Submit argument as `ASN_format` writes it. -/
structure Pdu where
  segmentInfo : Option SegmentInfo
  contents : Octets
  deriving DecidableEq, Repr

/-- What `hCurrentBuf` points to. -/
inductive CurrentBuf
  | null
  | formatted (pdu : Pdu)
  /-- Allocated, but `ASN_format` has failed. -/
  | unformatted
  /-- Given to `BUF_free`. -/
  | freed
  deriving DecidableEq, Repr

/-- `ESRO_InvokeId` of an invocation. -/
abbrev InvokeId := Nat

/-- The fields of `MTS_Operation` and `UA_Operation` that sending uses. `segmentInfo` is that of
`hFirstOperationData`. -/
structure Sender where
  bComplete : Bool := false
  /-- The error of the `EMSD_ErrorRequest` in `hOperationData`. -/
  hOperationData : Option Nat := none
  segmentInfo : Option SegmentInfo := none
  hFullPduBuf : Buf
  sequenceId : Nat := 0
  lastSegmentNumber : Nat := 0
  nextSegmentNumber : Nat := 0
  segmentLength : Nat := 0
  hCurrentBuf : CurrentBuf := .null
  retryCount : Nat := 0
  invokeId : Option InvokeId := none
  deriving DecidableEq, Repr

/-- `s1Idle` and `s2InvokeResponseWait` of both machines. -/
inductive SendState
  | s1Idle
  | s2InvokeResponseWait
  deriving DecidableEq, Repr

/-- The transitions of both machines, by the numbers of their states; `unexpected` is the catch-all. -/
inductive SendTrans
  | s1s2a
  | s2s1a
  | s2s1b
  | s2s1c
  | s2s1d
  | s2s2a
  | s2s2b
  | unexpected
  deriving DecidableEq, Repr

def SendTrans.nextState : SendTrans → SendState
  | s1s2a | s2s2a | s2s2b => .s2InvokeResponseWait
  | _ => .s1Idle

/-- `EMSD_Error_ResourceError`. -/
def resourceError : Nat := 6

/-- How the calls that an action makes turn out. -/
structure Env where
  /-- `BUF_cloneBufferPortion` -/
  clone : Bool := true
  /-- `mtsua_getProtocolTree` -/
  protocolTree : Bool := true
  /-- `BUF_alloc` -/
  bufAlloc : Bool := true
  /-- `mts_operationAddUserFree`, `ua_operationAddUserFree` -/
  addUserFree : Bool := true
  /-- `ASN_format` -/
  asnFormat : Bool := true
  /-- `DU_alloc` -/
  duAlloc : Bool := true
  /-- `ESRO_CB_invokeReq`, with the identifier of the invocation. -/
  invokeReq : Option InvokeId := none
  /-- `SF_memGet` of `FSM_generateEvent` -/
  memGet : Bool := true
  deriving DecidableEq, Repr

/-- What a sender does: a call of `mts_issueInvoke` or `ua_issueInvoke`, an invocation that ESROS has
accepted, and a FAILURE event that it generates for itself. -/
inductive SendOut
  | issueInvoke (hInvokeData : CurrentBuf)
  | invokeReq (invokeId : InvokeId) (hInvokeData : CurrentBuf)
  | generateFailure
  deriving DecidableEq, Repr

/-- The outputs of a call, and its result unless the call has followed a bad pointer. -/
abbrev Call (α : Type) := List SendOut × Option α

/-- `FSM_generateEvent` with a FAILURE event. -/
def generateFailure (env : Env) : List SendOut := if env.memGet then [.generateFailure] else []

/-- `mts_issueInvoke` and `ua_issueInvoke` on `hCurrentBuf`. The length of a null buffer is zero, but
its parse location cannot be reset. -/
def issueInvoke (env : Env) (m : Sender) : Call (Sender × Bool) :=
  if m.hCurrentBuf = .freed then ([.issueInvoke m.hCurrentBuf], none)
  else if env.duAlloc = false then ([.issueInvoke m.hCurrentBuf], some (m, false))
  else if m.hCurrentBuf = .null then ([.issueInvoke m.hCurrentBuf], none)
  else
    match env.invokeReq with
    | none => ([.issueInvoke m.hCurrentBuf], some (m, false))
    | some id =>
      ([.issueInvoke m.hCurrentBuf, .invokeReq id m.hCurrentBuf],
        some ({ m with invokeId := some id }, true))

/-- `formatAndInvoke`. When no buffer can be allocated, `hCurrentBuf` is still the buffer of the
segment before. -/
def formatAndInvoke (tree : Bool) (env : Env) (m : Sender) (hContents : Octets) :
    Call (Sender × Bool) :=
  if tree = false ∨ env.bufAlloc = false then ([], some (m, false))
  else if env.addUserFree = false then ([], some ({ m with hCurrentBuf := .freed }, false))
  else if env.asnFormat = false then ([], some ({ m with hCurrentBuf := .unformatted }, false))
  else issueInvoke env { m with hCurrentBuf := .formatted ⟨m.segmentInfo, hContents⟩ }

/-- Turn a failed call into a FAILURE event, and go on with the sender. -/
def orFailure (env : Env) (c : Call (Sender × Bool)) : Call Sender :=
  (c.1 ++ match c.2 with
    | some (_, false) => generateFailure env
    | _ => [], c.2.map Prod.fst)

/-- The number of segments, rounded up. -/
def numSegmentsOf (len : Nat) : Nat :=
  len / segmentLen + if len % segmentLen = 0 then 0 else 1

/-- The sender once the sequence of segments has been set up. -/
def beginSegments (sequenceId : Nat) (m : Sender) : Sender :=
  { m with
    hFullPduBuf := m.hFullPduBuf.resetParse
    sequenceId
    segmentLength := segmentLen
    lastSegmentNumber := numSegmentsOf m.hFullPduBuf.getBufferLength - 1
    nextSegmentNumber := 1
    segmentInfo := some ⟨sequenceId, .first (numSegmentsOf m.hFullPduBuf.getBufferLength)⟩ }

/-- `aS1S2a`. `segmenting` is the test of the length, `tooMany` that of the number of segments;
`sequenceId` is the static counter. -/
def startSending (segmenting tooMany : Nat → Bool) (tree : Bool) (env : Env) (sequenceId : Nat)
    (m : Sender) : Nat × Call Sender :=
  let len := m.hFullPduBuf.getBufferLength + maxFormattedDeliverArgLen
  if segmenting len then
    let sequenceId := (sequenceId + 1) % 2 ^ 32
    if tooMany (numSegmentsOf m.hFullPduBuf.getBufferLength) then
      (sequenceId, (generateFailure env, some { m with
        hFullPduBuf := m.hFullPduBuf.resetParse
        sequenceId
        segmentLength := segmentLen }))
    else
      let m := beginSegments sequenceId m
      if env.clone = false then (sequenceId, (generateFailure env, some m))
      else
        let portion := m.hFullPduBuf.cloneBufferPortion m.segmentLength
        (sequenceId, orFailure env
          (formatAndInvoke tree env { m with hFullPduBuf := portion.2 } portion.1.flatten))
  else
    let m := { m with lastSegmentNumber := 0, nextSegmentNumber := 1 }
    let c := formatAndInvoke tree env m m.hFullPduBuf.octets
    (sequenceId, orFailure env (c.1, c.2.map fun r => ({ r.1 with bComplete := r.2 || r.1.bComplete }, r.2)))

/-- `aS2S2a`. When no portion can be cloned, the code goes on with a handle that was never set, and
frees it in the end. -/
def sendNextSegment (tree : Bool) (env : Env) (m : Sender) : Call Sender :=
  let m := { m with
    segmentInfo := some ⟨m.sequenceId, .other m.nextSegmentNumber⟩
    nextSegmentNumber := m.nextSegmentNumber + 1 }
  if env.clone = false then (generateFailure env, none)
  else
    let portion := m.hFullPduBuf.cloneBufferPortion m.segmentLength
    let c := orFailure env
      (formatAndInvoke tree env { m with hFullPduBuf := portion.2 } portion.1.flatten)
    (c.1, c.2.map fun m =>
      { m with bComplete := m.bComplete || m.nextSegmentNumber > m.lastSegmentNumber })

/-- `aS2S2b`: the current buffer once more. -/
def sendAgain (env : Env) (m : Sender) : Call Sender := orFailure env (issueInvoke env m)

end Mtsua
