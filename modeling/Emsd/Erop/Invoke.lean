import Emsd.Erop.Types
import Emsd.Lib.Cyclic
import Mathlib.Logic.Function.Basic

/-!
# Reference numbers, timers, kept PDUs, PDU builders, indications

The functions of `invoke.c`, `tmr_if.c`, `keep.c`, `pduout.c` and `userout.c` that the
transition actions call.
-/

namespace Erop

open Ocp

/-! ## Reference numbers (`invoke.c`) -/

/-- `totalRefNumbers`, which `EROP_init` sets to `NREFS`; `refBase` is then `0`. -/
def totalRefNumbers : Nat := 256

/-- Whether one of the `InvokeInfo`s of a queue has the given remote address. -/
def inUse (nsapOf : InvokeId → NSapAddr) (bucket : List InvokeId) (nsap : NSapAddr) : Bool :=
  bucket.any fun j => nSapAddrCmp nsap (nsapOf j) = 0

/-- `erop_refNew`: the loop over `++newRef` (back to 0 at `totalRefNumbers`) until a number
has no entry with this remote address. -/
def refNew (t : RefTables) (nsapOf : InvokeId → NSapAddr) (i : InvokeId) (invoke : InvokeInfo) :
    RefTables × Int :=
  if invoke.performingNotInvoking then (t, -1)
  else
    let s := Cyclic.searchFrom (Cyclic.succ totalRefNumbers)
      (fun r => !inUse nsapOf (t.invoker r) invoke.remNsapAddr) totalRefNumbers t.newRef
    if s.2 then
      ({ t with newRef := s.1, invoker := Function.update t.invoker s.1 (t.invoker s.1 ++ [i]) }, s.1)
    else ({ t with newRef := s.1 }, -1)

/-- `erop_refKeep`. -/
def refKeep (t : RefTables) (nsapOf : InvokeId → NSapAddr) (refNu : Int) (i : InvokeId)
    (invoke : InvokeInfo) : RefTables × SuccFail :=
  if invoke.performingNotInvoking = false then (t, .fail)
  else if 0 ≤ refNu ∧ refNu < totalRefNumbers then
    if inUse nsapOf (t.performer refNu.toNat) invoke.remNsapAddr then (t, .fail)
    else
      ({ t with performer :=
          Function.update t.performer refNu.toNat (t.performer refNu.toNat ++ [i]) }, .success)
  else (t, .fail)

/-- The search that `erop_refToInvoker` and `erop_refToPerformer` share. -/
def refTo (map : RefMap) (nsapOf : InvokeId → NSapAddr) (refNu : Int) (nsap : NSapAddr) :
    Option InvokeId :=
  if 0 ≤ refNu ∧ refNu < totalRefNumbers then
    (map refNu.toNat).find? fun j => nSapAddrCmp (nsapOf j) nsap = 0
  else none

/-- `erop_refToInvoker`. -/
def refToInvoker (t : RefTables) (nsapOf : InvokeId → NSapAddr) (refNu : Int) (nsap : NSapAddr) :
    Option InvokeId :=
  refTo t.invoker nsapOf refNu nsap

/-- `erop_refToPerformer`. -/
def refToPerformer (t : RefTables) (nsapOf : InvokeId → NSapAddr) (refNu : Int) (nsap : NSapAddr) :
    Option InvokeId :=
  refTo t.performer nsapOf refNu nsap

/-- `erop_refFree`: take the `refMap` element out of the queue it is in. -/
def refFree (t : RefTables) (i : InvokeId) : RefTables :=
  { t with
    invoker := fun r => (t.invoker r).filter (· ≠ i)
    performer := fun r => (t.performer r).filter (· ≠ i) }

/-! ## Timers (`tmr_if.c`) -/

/-- `erop_tmrSetValues`; `nuOfRetrans` is a `short`. -/
def tmrSetValues (cfg : Config) (invoke : InvokeInfo) : InvokeInfo :=
  let nuOfRetrans := Int.bmod cfg.retransmitCount (2 ^ 16)
  { invoke with
    retransTimeout := cfg.retransmit + cfg.roundtrip
    rwait := 2 * (cfg.acknowledgment + cfg.retransmit)
    nuOfRetrans := nuOfRetrans
    refKeepTime := 2 * cfg.maxNSDULifeTime + nuOfRetrans * cfg.retransmit
    inactivityDelay := 4 * cfg.roundtrip
    perfNoResponse :=
      2 * cfg.maxNSDULifeTime + (nuOfRetrans + 1) * (cfg.retransmit + cfg.roundtrip) }

/-- `erop_tmrCreate`. -/
def tmrCreate (c : Ctx) (m : Machine) (name : TmrName) (time data : Int) : Machine × SuccFail :=
  ({ m with tmrQu := if c.env.tmrCreate then m.tmrQu ++ [⟨name, time, data⟩] else m.tmrQu },
    .ofBool c.env.tmrCreate)

/-- `erop_tmrCancel`. -/
def tmrCancel (m : Machine) (name : TmrName) : Machine :=
  { m with tmrQu := if name = .allTimer then [] else m.tmrQu.filter (·.name ≠ name) }

/-! ## Data units and kept PDUs (`du.c`, `keep.c`)

A view that an event frees is not needed by a later call of the same event, so only the
calls that take from the free lists change them. -/

/-- `DU_alloc` can take a view and a buffer. -/
def duAllocOk (views bufs : Nat) : Bool := 0 < views && 0 < bufs

/-- `DU_link` of a data unit. -/
def duLink (m : Machine) (du : Octets) : Machine × Option Octets :=
  ({ m with views := m.views - 1 }, if 0 < m.views then some du else none)

/-- `erop_pduRetrieve`: a link to the first kept PDU. -/
def pduRetrieve (m : Machine) (pduSeq : List Octets) : Machine × Option Octets :=
  match pduSeq with
  | [] => (m, none)
  | du :: _ => duLink m du

/-- `erop_pduKeep` into `invokePduSeq`. -/
def keepInvokePdu (m : Machine) (du : Octets) : Machine :=
  { m with invoke.invokePduSeq := m.invoke.invokePduSeq ++ [du] }

/-- `erop_pduKeep` into `resultPduSeq`. -/
def keepResultPdu (m : Machine) (du : Octets) : Machine :=
  { m with invoke.resultPduSeq := m.invoke.resultPduSeq ++ [du] }

/-- `erop_relPdu` frees the first kept PDU; it fails on NULL arguments only. -/
def relPdu (pduSeq : List Octets) : List Octets := pduSeq.drop 1

/-- `erop_relAllPdu`. -/
def relAllPdu (invoke : InvokeInfo) : InvokeInfo :=
  { invoke with
    invokePduSeq := relPdu invoke.invokePduSeq
    resultPduSeq := relPdu invoke.resultPduSeq }

/-! ## PDU builders (`pduout.c`) -/

/-- The data unit a header is put in front of: the user's, or an empty one from the pool. -/
def duFor (m : Machine) (data : Option Octets) : Machine × Option Octets :=
  match data with
  | some d => (m, some d)
  | none =>
    ({ m with views := m.views - 1, bufs := m.bufs - 1 },
      if duAllocOk m.views m.bufs then some [] else none)

/-- The encoding type in the upper two bits of a `Byte`, `encodingType << 6`. -/
def encodingBits (encodingType : EncodingType) : UInt8 := UInt8.ofNat encodingType.bits <<< 6

/-- The header that `erop_invokePdu` writes; `INVOKE_PDU` is 0. -/
def invokePci (remEsroSapSel : SapSel) (invokeRefNu operationValue : Int)
    (encodingType : EncodingType) : Octets :=
  [remEsroSapSel <<< 4 ||| 0, put1 invokeRefNu, encodingBits encodingType ||| put1 operationValue]

/-- `erop_invokePdu`. -/
def invokePdu (m : Machine) (remEsroSapSel : SapSel) (invokeRefNu operationValue : Int)
    (encodingType : EncodingType) (data : Option Octets) : Machine × Option Octets :=
  let r := duFor m data
  (r.1, r.2.map (invokePci remEsroSapSel invokeRefNu operationValue encodingType ++ ·))

/-- The header that `erop_resultPdu` writes; `RESULT_PDU` is 1. -/
def resultPci (invokeRefNu : Int) (encodingType : EncodingType) : Octets :=
  [encodingBits encodingType ||| 1, put1 invokeRefNu]

/-- `erop_resultPdu`. -/
def resultPdu (m : Machine) (invokeRefNu : Int) (encodingType : EncodingType)
    (data : Option Octets) : Machine × Option Octets :=
  let r := duFor m data
  (r.1, r.2.map (resultPci invokeRefNu encodingType ++ ·))

/-- The header that `erop_errorPdu` writes; `ERROR_PDU` is 2. -/
def errorPci (invokeRefNu : Int) (encodingType : EncodingType) (errorValue : Int) : Octets :=
  [encodingBits encodingType ||| 2, put1 invokeRefNu, put1 errorValue]

/-- `erop_errorPdu`. -/
def errorPdu (m : Machine) (invokeRefNu : Int) (encodingType : EncodingType) (errorValue : Int)
    (data : Option Octets) : Machine × Option Octets :=
  let r := duFor m data
  (r.1, r.2.map (errorPci invokeRefNu encodingType errorValue ++ ·))

/-- `erop_ackPdu`; `ACK_PDU` is 3. -/
def ackPdu (m : Machine) (invokeRefNu : Int) : Machine × Option Octets :=
  ({ m with views := m.views - 1, bufs := m.bufs - 1 },
    if duAllocOk m.views m.bufs then some [3, put1 invokeRefNu] else none)

/-- The octets of `erop_sendFailurePdu`; `FAILURE_PDU` is 4. -/
def failureOctets (invokeRefNu reason : Int) : Octets := [4, put1 invokeRefNu, put1 reason]

/-! ## Sending -/

/-- `UDP_dataReq` to the peer of the machine's invocation. -/
def udpDataReq (c : Ctx) (m : Machine) (du : Octets) : Machine × SuccFail :=
  ({ m with
      out := m.out ++
        [.udp (some c.self) m.invoke.remTsapSel m.invoke.remNsapAddr du c.env.udpDataReq] },
    .ofBool c.env.udpDataReq)

/-- `erop_sendFailurePdu`. -/
def sendFailurePdu (env : Env) (views bufs : Nat) (who : Option InvokeId) (tSapSel : TSapSel)
    (naddr : NSapAddr) (invokeRefNu reason : Int) : List Out × SuccFail :=
  if duAllocOk views bufs then
    ([.udp who tSapSel naddr (failureOctets invokeRefNu reason) env.udpDataReq],
      .ofBool env.udpDataReq)
  else ([], .fail)

/-- `erop_sendFailurePdu` from an action, to the peer of the invocation. -/
def actSendFailurePdu (c : Ctx) (m : Machine) (reason : Int) : Machine × SuccFail :=
  let r := sendFailurePdu c.env m.views m.bufs (some c.self) m.invoke.remTsapSel
    m.invoke.remNsapAddr m.invoke.invokeRefNu reason
  ({ m with out := m.out ++ r.1 }, r.2)

/-! ## Indications to the user (`userout.c`)

`SCH_submit` ends the process when it is out of memory, so where it returns it has
queued the function. -/

/-- `SCH_submit`. -/
def schSubmit (m : Machine) (task : Task) : Machine := { m with out := m.out ++ [.sch task] }

/-- What the functions of `userout.c` share: an argument record from `SF_memGet`, then
`SCH_submit`. -/
def indicate (c : Ctx) (m : Machine) (task : Task) : Machine × SuccFail :=
  ({ m with out := if c.env.memGet then m.out ++ [.sch task] else m.out }, .ofBool c.env.memGet)

/-- `erop_invokeInd`. -/
def invokeInd (c : Ctx) (m : Machine) (operationValue : Int) (parameter : Option Octets) :
    Machine × SuccFail :=
  indicate c m (.invokeInd c.self c.locSapSel m.invoke.remEsroSapSel m.invoke.remTsapSel
    m.invoke.remNsapAddr operationValue m.invoke.encodingType parameter)

/-- `erop_resultInd`. -/
def resultInd (c : Ctx) (m : Machine) (parameter : Option Octets) : Machine × SuccFail :=
  indicate c m (.resultInd c.self m.invoke.userInvokeRef m.invoke.encodingType parameter)

/-- `erop_errorInd`. -/
def errorInd (c : Ctx) (m : Machine) (parameter : Option Octets) : Machine × SuccFail :=
  indicate c m
    (.errorInd c.self m.invoke.userInvokeRef m.invoke.encodingType m.invoke.errorValue parameter)

/-- `erop_resultCnf`. -/
def resultCnf (c : Ctx) (m : Machine) : Machine × SuccFail :=
  indicate c m (.resultCnf c.self m.invoke.userInvokeRef)

/-- `erop_errorCnf`. -/
def errorCnf (c : Ctx) (m : Machine) : Machine × SuccFail :=
  indicate c m (.errorCnf c.self m.invoke.userInvokeRef)

/-- `erop_failureInd`. -/
def failureInd (c : Ctx) (m : Machine) : Machine × SuccFail :=
  indicate c m (.failureInd c.self m.invoke.userInvokeRef m.invoke.failureReason)

end Erop
