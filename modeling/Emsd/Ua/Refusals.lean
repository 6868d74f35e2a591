import Emsd.Mtsua.Answers
import Emsd.Ua.Outcome

/-!
# Errors of the MTS, as the UA reports them (`esrosevt.c`, `mperform.c`, `esroevt.c`, `submit.c`)

The MTS refuses a segment of a submission with an error value, to which it adds a parameter for a
security error, or always when the environment says so; the number in the parameter is zero.
`ua_errorIndication` passes over the value. `pS2S1b` reads the error in `hOperationData`, which the
parameter has set, or the RESULT for an earlier segment, or nothing.

* `reports_iff`: what the UA reports of an error.
* `refusal_understood_iff`: **a failure is reported as transient for a resource error only**, exactly
  when a parameter comes with any other error, or what `hOperationData` has from before happens to fit.
* `refusal_misreported`: a protocol violation that is reported as transient, and a resource error that
  is not.
-/

namespace Ua

open Ocp Asn Mtsua

/-! ## The MTS -/

/-- `ReturnCode`, as far as the MTS tells one from another when it refuses an invocation. -/
inductive Cause
  /-- `Success` -/
  | success
  /-- `ResourceError` -/
  | resourceError
  /-- `MTS_RC_DeviceProfileNotFound` -/
  | deviceProfileNotFound
  /-- `MTS_RC_MissingProfileAttribute` -/
  | missingProfileAttribute
  /-- `MTS_RC_UnrecognizedProtocolVersion` -/
  | unrecognizedProtocolVersion
  | other
  deriving DecidableEq, Repr

/-- `EMSD_Error_ProtocolVersionNotRecognized`. -/
def protocolVersionNotRecognized : Nat := 1

/-- `EMSD_Error_ProtocolViolation`. -/
def protocolViolation : Nat := 7

/-- The error value that `issueErrorRequest` chooses. -/
def Cause.errorVal : Cause → Nat
  | .resourceError => Mtsua.resourceError
  | .deviceProfileNotFound | .missingProfileAttribute => securityError
  | .unrecognizedProtocolVersion => protocolVersionNotRecognized
  | .success | .other => protocolViolation

/-- How the MTS refuses a segment. -/
inductive Refusal
  /-- `mts_invokeIndication` finds no profile; its `rc` has its first value. -/
  | noProfile
  /-- `mts_invokeIndication` cannot copy the PDU, or not preprocess it. The version is that of the
  profile. -/
  | invokeIndication (rc : Cause) (v : Version)
  /-- `aS1S4a` -/
  | aS1S4a (rc : Cause)
  deriving DecidableEq, Repr

namespace Refusal

def errorVal : Refusal → Nat
  | .noProfile => Cause.errorVal .success
  | .invokeIndication rc _ => rc.errorVal
  | .aS1S4a rc => if rc = .resourceError then Mtsua.resourceError else protocolViolation

/-- The protocol version for the parameter. -/
def version : Refusal → Version
  | .noProfile | .aS1S4a _ => ⟨1, 1⟩
  | .invokeIndication _ v => v

end Refusal

/-- How the calls turn out on the way of an error. -/
structure ErrorCalls where
  /-- the calls of `mts_issueErrorRequest` -/
  mts : Calls := {}
  /-- `MTA_FORCE_ERROR_PARM` is set. -/
  forceErrorParm : Bool := false
  /-- `lous_cpDataToDU`; without a data unit the indication has no parameter. -/
  cpDataToDU : Bool := true
  /-- `viewToBuf` -/
  toBuf : Bool := true
  /-- `mtsua_allocErrorRequest` -/
  alloc : Bool := true
  /-- `ua_operationAddUserFree` -/
  addUserFree : Bool := true
  /-- `SF_memGet` of `FSM_generateEvent` -/
  memGet : Bool := true

/-- The request of the MTS. -/
def Refusal.reply (q : Refusal) (calls : ErrorCalls) : Reply :=
  mtsIssueErrorRequest calls.mts calls.forceErrorParm q.errorVal 0 q.version

/-! ## The UA -/

/-- The error in a parameter, if it can be parsed into an `EMSD_ErrorRequest` that has been cleared. -/
def parseError (longMax : Nat) (parameter : Octets) : Option UInt32 :=
  match parse longMax compileErrorRequest (viewToBuf parameter) {} parameter.length with
  | .done _ c _ => some (c.uint32 0)
  | .failed _ _ _ | .beyond => none

/-- A parameter that has arrived; an octet that has not been written is read as some octet or other. -/
def ErrorCalls.view (calls : ErrorCalls) (longMax : Nat) (hView : DataUnit) : View :=
  let error := parseError longMax (hView.map fun octet => octet.getD 0)
  { toBuf := calls.toBuf
    alloc := calls.alloc
    addUserFree := calls.addUserFree
    parse := error.isSome
    error := (error.getD 0).toNat }

/-- The parameter of the ERROR.indication, when there is one. -/
def ErrorCalls.indication (calls : ErrorCalls) (longMax : Nat) : Reply → Option (Option View)
  | .request .null => some none
  | .request (.view hView) => some (if calls.cpDataToDU then some (calls.view longMax hView) else none)
  | .request .foreign | .withheld | .undefined => none

/-- The submission at place `n` is refused, and the UA reports that it has failed: as transient if and
only if the error value was that of a resource error. -/
def Understood (longMax : Nat) (s : Submissions) (n : Nat) (q : Refusal) (calls : ErrorCalls) : Prop :=
  ∃ hView s₁, calls.indication longMax (q.reply calls) = some hView ∧
    s.step (.indication n (.error hView) calls.memGet) = some (s₁, []) ∧
    ∃ x ∈ s.operations[n]?, ∀ env, ∃ s₂, s₁.step (.schRun n env) =
      some (s₂, [.submitFail x.hMessage (decide (q.errorVal = resourceError))])

/-- The condition: there is memory for the event. An error that has a parameter is sent, which takes
memory and a version that is known. When the parameter arrives, it can be handled, and the error is any
but a resource error; otherwise what a segment before has left of data fits the error. -/
structure Fits (q : Refusal) (calls : ErrorCalls) (hOperationData : Option Nat) : Prop where
  event : calls.memGet = true
  sent : attaches calls.forceErrorParm q.errorVal = true →
    calls.mts.bufAlloc = true ∧ calls.mts.allocSegment 0 = true ∧ calls.mts.duAlloc = true ∧
      q.version.Known
  decided : if attaches calls.forceErrorParm q.errorVal = true ∧ calls.cpDataToDU = true then
      calls.toBuf = true ∧ calls.alloc = true ∧ calls.addUserFree = true ∧ q.errorVal ≠ resourceError
    else q.errorVal = resourceError ↔ ∀ error ∈ hOperationData, error = resourceError

/-! ## A report -/

variable {longMax n capacity : Nat} {s s₁ : Submissions} {x y : Submission} {q : Refusal}
  {calls : ErrorCalls} {h : List SubmitOut} {hView : Option View}

/-- The scheduler runs a machine that has an ERROR event. -/
theorem schRun_error (hy : s₁.operations[n]? = some y) (hs : y.curState = .s2InvokeResponseWait)
    (he : y.events = [.errorIndication]) (env : Env) :
    s₁.step (.schRun n env) =
      some (s₁.put n s₁.sequenceId none, [.submitFail y.hMessage (pS2S1b y.sender)]) := by
  unfold Submissions.step
  dsimp only
  rw [hy, Option.bind_some, he]
  unfold Submission.runMachine submitTrans
  rw [hs]
  dsimp only
  cases pS2S1b y.sender <;> rfl

theorem schRun_silent (hy : s₁.operations[n]? = some y) (he : y.events = []) (env : Env) :
    s₁.step (.schRun n env) = none := by
  unfold Submissions.step
  dsimp only
  rw [hy, Option.bind_some, he]

/-- What `hOperationData` is once an ERROR.indication has been handled. -/
def dataAfter (hOperationData : Option Nat) : Option View → Option Nat
  | none => hOperationData
  | some hView => some hView.error

/-- An ERROR.indication for a submission that waits for one. -/
theorem errorIndication_event (he : x.events = [])
    (hgen : (Indication.error hView).generates calls.memGet = true) :
    (x.errorIndication hView calls.memGet).events = [.errorIndication] ∧
      (x.errorIndication hView calls.memGet).sender.hOperationData =
        dataAfter x.sender.hOperationData hView := by
  cases hView with
  | none =>
    have hmem : calls.memGet = true := hgen
    unfold Submission.errorIndication Submission.generateEvent
    rw [he, hmem]
    exact ⟨rfl, rfl⟩
  | some hView =>
    obtain ⟨hand, hmem⟩ := Bool.and_eq_true_iff.1 hgen
    obtain ⟨htoBuf, hpre⟩ := Bool.and_eq_true_iff.1 hand
    unfold Submission.errorIndication Submission.preprocess Submission.generateEvent
    dsimp only
    rw [htoBuf, hpre, he, hmem]
    exact ⟨rfl, rfl⟩

theorem errorIndication_silent (he : x.events = [])
    (hgen : ¬(Indication.error hView).generates calls.memGet = true) :
    (x.errorIndication hView calls.memGet).events = [] := by
  cases hView with
  | none =>
    have hmem : calls.memGet = false := Bool.eq_false_iff.2 hgen
    unfold Submission.errorIndication Submission.generateEvent
    rw [he, hmem]
    rfl
  | some hView =>
    unfold Submission.errorIndication Submission.preprocess Submission.generateEvent
    dsimp only
    split
    · exact he
    rename_i htoBuf
    split
    · exact he
    rename_i hpre
    have hmem : calls.memGet = false := by
      refine Bool.eq_false_iff.2 fun hmem => hgen ?_
      simp_all [Indication.generates]
    rw [hmem]
    exact (List.append_nil _).trans he

theorem errorIndication_kept (x : Submission) (hView : Option View) (memGet : Bool) :
    (x.errorIndication hView memGet).curState = x.curState ∧
      (x.errorIndication hView memGet).hMessage = x.hMessage := by
  cases hView with
  | none => exact ⟨rfl, rfl⟩
  | some hView =>
    unfold Submission.errorIndication Submission.preprocess
    dsimp only
    split_ifs <;> exact ⟨rfl, rfl⟩

/-- The predicate of the machine says what the data say. -/
theorem pS2S1b_iff (m : Sender) :
    pS2S1b m = true ↔ ∀ error ∈ m.hOperationData, error = resourceError := by
  unfold pS2S1b
  cases m.hOperationData with
  | none => simp
  | some error => simp

/-- **A report** of an error: the indication has led to an event, and what is in `hOperationData` then
decides. -/
theorem reports_iff (hx : s.operations[n]? = some x) (hs : x.curState = .s2InvokeResponseWait)
    (he : x.events = []) (hi : x.invocations ≠ 0) :
    Understood longMax s n q calls ↔ ∃ hView, calls.indication longMax (q.reply calls) = some hView ∧
      (Indication.error hView).generates calls.memGet = true ∧ (q.errorVal = resourceError ↔
        ∀ error ∈ dataAfter x.sender.hOperationData hView, error = resourceError) := by
  -- the submission once its invocation is concluded
  obtain ⟨y, hy, hys, hye, hmsg, hsender⟩ : ∃ y : Submission,
      y = { x with invocations := x.invocations - 1 } ∧ y.curState = .s2InvokeResponseWait ∧
        y.events = [] ∧ y.hMessage = x.hMessage ∧ y.sender = x.sender := ⟨_, rfl, hs, he, rfl, rfl⟩
  have hstep (hView : Option View) : s.step (.indication n (.error hView) calls.memGet) =
      some (s.put n s.sequenceId (some (y.errorIndication hView calls.memGet)), []) := by
    unfold Submissions.step
    dsimp only
    rw [hx, Option.bind_some, if_neg hi, hy]
    rfl
  have hplace (y : Submission) : (s.put n s.sequenceId (some y)).operations[n]? = some y :=
    List.getElem?_set_self (List.getElem?_eq_some_iff.1 hx).1
  rw [← hsender]
  constructor
  · rintro ⟨hView, s₁, hind, hs₁, x', hx', hrun⟩
    refine ⟨hView, hind, ?_⟩
    rw [hstep] at hs₁
    obtain ⟨rfl, -⟩ := Prod.mk.inj (Option.some.inj hs₁)
    obtain ⟨s₂, hrun⟩ := hrun {}
    by_cases hgen : (Indication.error hView).generates calls.memGet = true
    · obtain ⟨hevents, hdata⟩ := errorIndication_event hye hgen
      have hcur := (errorIndication_kept y hView calls.memGet).1.trans hys
      rw [schRun_error (hplace _) hcur hevents] at hrun
      obtain ⟨-, hout⟩ := Prod.mk.inj (Option.some.inj hrun)
      obtain ⟨hout, -⟩ := List.cons.inj hout
      obtain ⟨-, htransient⟩ := SubmitOut.submitFail.inj hout
      rw [← hdata, ← pS2S1b_iff, htransient]
      exact ⟨hgen, decide_eq_true_iff.symm⟩
    · rw [schRun_silent (hplace _) (errorIndication_silent hye hgen)] at hrun
      cases hrun
  · rintro ⟨hView, hind, hgen, hiff⟩
    obtain ⟨hevents, hdata⟩ := errorIndication_event hye hgen
    obtain ⟨hcur, hkept⟩ := errorIndication_kept y hView calls.memGet
    have htransient : pS2S1b (y.errorIndication hView calls.memGet).sender =
        decide (q.errorVal = resourceError) := by
      rw [Bool.eq_iff_iff, pS2S1b_iff, hdata, decide_eq_true_iff]
      exact hiff.symm
    refine ⟨hView, _, hind, hstep hView, x, hx, fun env => ?_⟩
    have hreport := schRun_error (hplace _) (hcur.trans hys) hevents env
    rw [htransient, hkept, hmsg] at hreport
    exact ⟨_, hreport⟩

/-! ## A parameter -/

theorem parseError_encode (longMax : Nat) (v : UInt32) :
    parseError longMax (encode (oneNumber v) compileErrorRequest) = some v := by
  have hsmall := small_error (oneNumber v)
  obtain ⟨b, c, hdone, -, hsame⟩ := parse_received longMax {} hsmall.numeric
    (hsmall.fits.trans (by decide))
  have hfield : Field.Same (oneNumber v) c (.uint32 0) := hsame _ (List.mem_singleton.2 rfl)
  unfold parseError
  rw [hdone]
  exact congrArg some hfield

/-- The data unit of `mts_issueErrorRequest`. -/
def errorUnit : DataUnit := (encode (oneNumber 0) compileErrorRequest).map some

theorem view_errorUnit : calls.view longMax errorUnit =
    { toBuf := calls.toBuf, alloc := calls.alloc, addUserFree := calls.addUserFree } := by
  have hoctets : errorUnit.map (fun octet => octet.getD 0) =
      encode (oneNumber 0) compileErrorRequest := by
    unfold errorUnit
    rw [List.map_map]
    exact List.map_id _
  unfold ErrorCalls.view
  rw [hoctets, parseError_encode]
  rfl

theorem reply_omitted (h : ¬attaches calls.forceErrorParm q.errorVal = true) :
    q.reply calls = .request .null := by
  unfold Refusal.reply mtsIssueErrorRequest
  exact if_neg h

theorem reply_attached (h : attaches calls.forceErrorParm q.errorVal = true)
    (hsent : calls.mts.bufAlloc = true ∧ calls.mts.allocSegment 0 = true ∧ calls.mts.duAlloc = true ∧
      q.version.Known) : q.reply calls = .request (.view errorUnit) := by
  obtain ⟨hbuf, hseg, hdu, hv⟩ := hsent
  unfold Refusal.reply mtsIssueErrorRequest
  rw [if_pos h, getProtocolTree_errorRequest hv]
  exact formatToView_sent (small_error _) hbuf hseg hdu

/-- An error that is to have a parameter, and does not get one, is not sent at all. -/
theorem reply_unsent (h : attaches calls.forceErrorParm q.errorVal = true)
    (hsent : ¬(calls.mts.bufAlloc = true ∧ calls.mts.allocSegment 0 = true ∧ calls.mts.duAlloc = true ∧
      q.version.Known)) : calls.indication longMax (q.reply calls) = none := by
  unfold Refusal.reply mtsIssueErrorRequest
  rw [if_pos h]
  by_cases hv : q.version.Known
  · rw [getProtocolTree_errorRequest hv]
    have hfail : ¬(calls.mts.bufAlloc = true ∧ calls.mts.allocSegment 0 = true ∧
        calls.mts.duAlloc = true) := fun ⟨hbuf, hseg, hdu⟩ => hsent ⟨hbuf, hseg, hdu, hv⟩
    rw [formatToView_lost (small_error _) 0 hfail]
    rfl
  · rw [getProtocolTree_unknown hv]
    unfold formatToView
    split <;> rfl

/-! ## A refusal -/

/-- Zero is not the error that is transient. -/
theorem fits_zero : (q.errorVal = resourceError ↔ ∀ error ∈ some 0, error = resourceError) ↔
    q.errorVal ≠ resourceError := by
  have hzero : ¬∀ error ∈ some 0, error = resourceError := fun hall => absurd (hall 0 rfl) (by decide)
  exact ⟨fun hiff heq => hzero (hiff.1 heq), fun hne => iff_of_false hne hzero⟩

/-- **A refusal** of a segment that the submission waits for. -/
theorem understood_iff (hx : s.operations[n]? = some x) (hs : x.curState = .s2InvokeResponseWait)
    (he : x.events = []) (hi : x.invocations ≠ 0) :
    Understood longMax s n q calls ↔ Fits q calls x.sender.hOperationData := by
  rw [reports_iff hx hs he hi]
  by_cases hatt : attaches calls.forceErrorParm q.errorVal = true
  · by_cases hsent : calls.mts.bufAlloc = true ∧ calls.mts.allocSegment 0 = true ∧
        calls.mts.duAlloc = true ∧ q.version.Known
    · have hind : calls.indication longMax (q.reply calls) =
          some (if calls.cpDataToDU then some (calls.view longMax errorUnit) else none) := by
        rw [reply_attached hatt hsent]
        rfl
      rw [hind, view_errorUnit]
      by_cases hcp : calls.cpDataToDU = true
      · -- the parameter arrives, with its zero
        rw [if_pos hcp]
        constructor
        · rintro ⟨hView, heq, hgen, hiff⟩
          obtain rfl := Option.some.inj heq
          simp only [Indication.generates, View.preprocess, Bool.and_eq_true] at hgen
          obtain ⟨⟨htoBuf, ⟨halloc, hfree⟩, -⟩, hmem⟩ := hgen
          refine ⟨hmem, fun _ => hsent, ?_⟩
          rw [if_pos ⟨hatt, hcp⟩]
          exact ⟨htoBuf, halloc, hfree, fits_zero.1 hiff⟩
        · rintro ⟨hmem, -, hdecided⟩
          rw [if_pos ⟨hatt, hcp⟩] at hdecided
          obtain ⟨htoBuf, halloc, hfree, hne⟩ := hdecided
          refine ⟨_, rfl, ?_, fits_zero.2 hne⟩
          simp [Indication.generates, View.preprocess, htoBuf, halloc, hfree, hmem]
      · -- it is lost on the way
        rw [if_neg hcp]
        constructor
        · rintro ⟨hView, heq, hgen, hiff⟩
          obtain rfl := Option.some.inj heq
          refine ⟨hgen, fun _ => hsent, ?_⟩
          rw [if_neg fun h => hcp h.2]
          exact hiff
        · rintro ⟨hmem, -, hdecided⟩
          rw [if_neg fun h => hcp h.2] at hdecided
          exact ⟨none, rfl, hmem, hdecided⟩
    · rw [reply_unsent hatt hsent]
      constructor
      · rintro ⟨hView, heq, -⟩
        cases heq
      · exact fun hfits => absurd (hfits.sent hatt) hsent
  · -- there is no parameter
    rw [reply_omitted hatt]
    constructor
    · rintro ⟨hView, heq, hgen, hiff⟩
      obtain rfl := Option.some.inj heq
      refine ⟨hgen, fun h => absurd h hatt, ?_⟩
      rw [if_neg fun h => hatt h.1]
      exact hiff
    · rintro ⟨hmem, -, hdecided⟩
      rw [if_neg fun h => hatt h.1] at hdecided
      exact ⟨none, rfl, hmem, hdecided⟩

/-! ## Runs -/

theorem Delivers.waiting_or_idle {ok : Bool} (hd : Delivers ok x) : Waiting x ∨ Idle x := by
  cases ok with
  | true => exact .inl hd
  | false => exact .inr hd

/-- **Each submission** waits for one thing, or has lost it, in every run. -/
theorem waiting_or_idle (hr : Run.Reach (submitting capacity) Run.any h s) :
    ∀ x ∈ s.operations, Waiting x ∨ Idle x := by
  refine Run.Reach.invariant (P := fun s => ∀ x ∈ s.operations, Waiting x ∨ Idle x) ?_ ?_ hr
  · rintro s ⟨sequenceId, rfl⟩
    exact fun x hx => absurd hx List.not_mem_nil
  · intro s i t o hall _ hstep
    unfold submitting Submissions.step at hstep
    cases i with
    | submitMessage b env =>
      have heq : s.submitMessage b env = (t, o) := Option.some.inj hstep
      unfold Submissions.submitMessage at heq
      split at heq
      · obtain ⟨rfl, -⟩ := Prod.mk.inj heq
        intro x hx
        rcases List.mem_append.1 hx with hx | hx
        · exact hall x hx
        · rw [List.mem_singleton.1 hx]
          unfold Submission.generateEvent
          cases env.memGet with
          | true => exact .inl (.requested rfl rfl rfl)
          | false => exact .inr ⟨rfl, rfl⟩
      · obtain ⟨rfl, -⟩ := Prod.mk.inj heq
        exact hall
    | indication n ind memGet =>
      obtain ⟨x, hx, hstep⟩ := Option.bind_eq_some_iff.1 hstep
      split at hstep
      · cases hstep
      · rename_i hi
        cases hstep
        rcases hall x (List.mem_of_getElem? hx) with hw | hidle
        · obtain ⟨-, hdel, -⟩ := indication_step hw hi ind memGet
          intro y hy
          rcases List.mem_or_eq_of_mem_set hy with hy | rfl
          · exact hall y hy
          · exact hdel.waiting_or_idle
        · exact absurd hidle.2 hi
    | schRun n env =>
      obtain ⟨x, hx, hstep⟩ := Option.bind_eq_some_iff.1 hstep
      split at hstep
      · cases hstep
      · rename_i evt events he
        obtain ⟨⟨sequenceId, x', o'⟩, hrun, hstep⟩ := Option.map_eq_some_iff.1 hstep
        cases hstep
        rcases hall x (List.mem_of_getElem? hx) with hw | hidle
        · rcases runMachine_step hw he hrun with ⟨y, rfl, -, -, hdel, -⟩ | ⟨rfl, -, -⟩
          · intro z hz
            rcases List.mem_or_eq_of_mem_set hz with hz | rfl
            · exact hall z hz
            · exact hdel.waiting_or_idle
          · exact fun z hz => hall z (List.mem_of_mem_eraseIdx hz)
        · rw [hidle.1] at he
          cases he

/-- The submission at place 0 waits for the response to a segment, and `hOperationData` has this. -/
def WaitsWith (hOperationData : Option Nat) (s : Submissions) : Prop :=
  ∃ x ∈ s.operations[0]?, x.curState = .s2InvokeResponseWait ∧ x.events = [] ∧ x.invocations = 1 ∧
    x.sender.hOperationData = hOperationData

instance (hOperationData : Option Nat) (s : Submissions) : Decidable (WaitsWith hOperationData s) := by
  unfold WaitsWith
  infer_instance

/-- The only segment of a short message. -/
theorem waits_first : ∃ s h, Run.Reach (submitting 8) Run.any h s ∧ WaitsWith none s := by
  obtain ⟨s, h, hr, hp⟩ := Run.Reach.of_run_any (S := submitting 8)
    (s := { concurrentOperationsOutbound := 8 }) ⟨0, rfl⟩
    [.submitMessage shortBuf {}, .schRun 0 { invokeReq := some 0 }]
    (fun s _ => decide (WaitsWith none s)) (by decide +kernel)
  exact ⟨s, h, hr, of_decide_eq_true hp⟩

/-- The second segment of a message of 1500 octets, after a RESULT with the submission time 1000. -/
theorem waits_second : ∃ s h, Run.Reach (submitting 8) Run.any h s ∧ WaitsWith (some 1000) s := by
  obtain ⟨s, h, hr, hp⟩ := Run.Reach.of_run_any (S := submitting 8)
    (s := { concurrentOperationsOutbound := 8 }) ⟨0, rfl⟩
    [.submitMessage ⟨[List.replicate 1500 0], 0, 0⟩ {}, .schRun 0 { invokeReq := some 0 },
      .indication 0 (.result (some { error := 1000 })) true, .schRun 0 { invokeReq := some 1 }]
    (fun s _ => decide (WaitsWith (some 1000) s)) (by decide +kernel)
  exact ⟨s, h, hr, of_decide_eq_true hp⟩

/-- **A failure is reported as transient for a resource error only**, whatever segment it is that the
MTS refuses, exactly when the condition holds. -/
theorem refusal_understood_iff (hr : Run.Reach (submitting capacity) Run.any h s)
    (hx : s.operations[n]? = some x) (hi : x.invocations ≠ 0) (longMax : Nat) (q : Refusal)
    (calls : ErrorCalls) :
    Understood longMax s n q calls ↔ Fits q calls x.sender.hOperationData := by
  rcases waiting_or_idle hr x (List.mem_of_getElem? hx) with hw | hidle
  · cases hw with
    | invoked hs he _ _ => exact understood_iff hx hs he hi
    | requested _ _ h0 => exact absurd h0 hi
    | answered _ _ h0 _ => exact absurd h0 hi
    | failed _ _ _ h0 _ => exact absurd h0 hi
  · exact absurd hidle.2 hi

/-- The only segment of a message is refused for want of resources. -/
theorem refusal_understood_first : ∃ s h, Run.Reach (submitting 8) Run.any h s ∧
    Understood 2147483647 s 0 (.aS1S4a .resourceError) {} := by
  obtain ⟨s, h, hr, x, hx, -, -, hi, hdata⟩ := waits_first
  refine ⟨s, h, hr, (refusal_understood_iff hr hx (by omega) _ _ _).2 ⟨rfl, fun hatt => ?_, ?_⟩⟩
  · exact absurd hatt (by decide)
  · rw [hdata, if_neg (by decide)]
    exact ⟨fun _ error herror => absurd herror (Option.not_mem_none error), fun _ => rfl⟩

/-- **Misreported refusals**: a protocol violation in the only segment, which the UA takes for
transient, and a resource error in the second one, which it does not. -/
theorem refusal_misreported :
    (∃ s h, Run.Reach (submitting 8) Run.any h s ∧ WaitsWith none s ∧
      ¬Understood 2147483647 s 0 (.aS1S4a .other) {}) ∧
    ∃ s h, Run.Reach (submitting 8) Run.any h s ∧ WaitsWith (some 1000) s ∧
      ¬Understood 2147483647 s 0 (.aS1S4a .resourceError) {} := by
  constructor
  · obtain ⟨s, h, hr, hwaits⟩ := waits_first
    refine ⟨s, h, hr, hwaits, ?_⟩
    obtain ⟨x, hx, hs, he, hi, hdata⟩ := hwaits
    rw [understood_iff hx hs he (by omega), hdata]
    rintro ⟨-, -, hdecided⟩
    rw [if_neg (by decide)] at hdecided
    have hviolation : (Refusal.aS1S4a .other).errorVal ≠ resourceError := by decide
    exact hviolation (hdecided.2 fun error herror => absurd herror (Option.not_mem_none error))
  · obtain ⟨s, h, hr, hwaits⟩ := waits_second
    refine ⟨s, h, hr, hwaits, ?_⟩
    obtain ⟨x, hx, hs, he, hi, hdata⟩ := hwaits
    rw [understood_iff hx hs he (by omega), hdata]
    rintro ⟨-, -, hdecided⟩
    rw [if_neg (by decide)] at hdecided
    exact absurd (hdecided.1 rfl 1000 rfl) (by decide)

end Ua
