import Emsd.Ua.Submission

/-!
# The outcome of a submission (`ua/uacore/submit.c`, `esroevt.c`)

A submission waits for one thing at a time: an event of its machine, or the indication for one
invocation. So it has one outcome if no event gets lost.

* `submissions_settled`: **each submission has one outcome**, and its slot is given back, in every
  run whose steps all lose no event; the first step that loses one ends this. Each step besides the
  submissions makes what is left to do smaller.
* `result_ignored`: a RESULT without a parameter, after which the message is pending for ever.
-/

namespace Ua

open Ocp Mtsua

/-- The handles that the shell has been given. -/
def submitted (h : List SubmitOut) : List Nat :=
  h.filterMap fun
    | .submitted k => some k
    | _ => none

/-- A call-back for the handle. -/
def SubmitOut.calls (k : Nat) : SubmitOut → Bool
  | .submitSuccess j => j = k
  | .submitFail j _ => j = k
  | _ => false

/-- How often the shell has been called back for the handle. -/
def called (k : Nat) (h : List SubmitOut) : Nat := h.countP (SubmitOut.calls k)

/-- The handles of the operations. -/
def Submissions.handles (s : Submissions) : List Nat := s.operations.map Submission.hMessage

/-- **Each submission has one outcome**: a call-back, after which it is gone and its slot is back in
the pool; until then it has an event or an accepted invocation. -/
structure Settled (capacity : Nat) (s : Submissions) (h : List SubmitOut) : Prop where
  slots : s.concurrentOperationsOutbound + s.operations.length = capacity
  once : ∀ k, called k h = if k ∈ submitted h ∧ k ∉ s.handles then 1 else 0
  live : s.handles ⊆ submitted h
  busy : ∀ x ∈ s.operations, x.events ≠ [] ∨ 0 < x.invocations

/-! ## The condition -/

/-- An event is generated for the indication. -/
def Indication.generates (memGet : Bool) : Indication → Bool
  | .result none => false
  | .result (some hView) | .error (some hView) => hView.toBuf && hView.preprocess && memGet
  | .error none | .failure => memGet

/-- `formatAndInvoke` comes to an accepted invocation, and so does `aS2S2a`. -/
def sendsNext (env : Env) : Bool := env.formats true && env.accepts

/-- So does `aS1S2a`. -/
def sendsFirst (env : Env) (m : Sender) : Bool :=
  (!segmenting (m.hFullPduBuf.getBufferLength + maxFormattedDeliverArgLen) || env.clone) &&
    sendsNext env

/-- An action that fails finds memory for its FAILURE event. -/
def Submission.Lossless (x : Submission) (evt : FsmEvent) (env : Env) : Prop :=
  match (submitTrans x.curState evt x.sender).1 with
  | .s1s2a => sendsFirst env x.sender = true ∨ env.memGet = true
  | .s2s2a => sendsNext env = true ∨ env.memGet = true
  | _ => True

/-- The step loses no event: one that is to be generated finds its memory, and the parameter of an
indication is there and can be handled. -/
def Delivered (s : Submissions) : SubmitInput → Prop
  | .submitMessage _ env =>
    env.accepts s.concurrentOperationsOutbound = true → env.memGet = true
  | .indication _ ind memGet => ind.generates memGet = true
  | .schRun n env => ∀ x ∈ s.operations[n]?, ∀ evt ∈ x.events.head?, x.Lossless evt env

instance (x : Submission) (evt : FsmEvent) (env : Env) : Decidable (x.Lossless evt env) := by
  unfold Submission.Lossless
  split <;> infer_instance

instance (s : Submissions) (i : SubmitInput) : Decidable (Delivered s i) := by
  cases i <;> unfold Delivered <;> infer_instance

/-! ## Sending -/

variable {env : Env} {m m' : Sender} {x y : Submission} {evt : FsmEvent}

/-- A call comes to an accepted invocation, or to a FAILURE event when there is memory for it. -/
structure Sends (ok memGet : Bool) (c : Call Sender) : Prop where
  invoked : c.1.countP Submission.invoked = if ok then 1 else 0
  failed : c.1.count .generateFailure = if ok then 0 else if memGet then 1 else 0

theorem sends_failure (env : Env) (r : Option Sender) :
    Sends false env.memGet (generateFailure env, r) := by
  unfold generateFailure
  cases env.memGet <;> exact ⟨rfl, rfl⟩

/-- What formatting and issuing a segment leaves alone. -/
structure SameSegments (m m' : Sender) : Prop where
  last : m'.lastSegmentNumber = m.lastSegmentNumber
  next : m'.nextSegmentNumber = m.nextSegmentNumber

/-- Formatting and issuing a segment. -/
theorem formatAndInvoke_sends (env : Env) (m : Sender) (hContents : Octets) :
    ∃ outs m', formatAndInvoke true env m hContents = (outs, some (m', sendsNext env)) ∧
      SameSegments m m' ∧ ∀ r, Sends (sendsNext env) env.memGet
        (outs ++ if sendsNext env then [] else generateFailure env, r) := by
  unfold sendsNext
  rcases hf : env.formats true with _ | _
  · obtain ⟨buf, hbuf⟩ := formatAndInvoke_fails (m := m) hf hContents
    exact ⟨_, _, hbuf, ⟨rfl, rfl⟩, fun r => sends_failure env r⟩
  · rw [formatAndInvoke_formats hf]
    rcases ha : env.accepts with _ | _
    · refine ⟨_, _, issueInvoke_refused rfl ha, ⟨rfl, rfl⟩, fun r => ?_⟩
      have hfail := sends_failure env r
      exact ⟨hfail.invoked, hfail.failed⟩
    · obtain ⟨id, hid⟩ := issueInvoke_accepted
        (m := { m with hCurrentBuf := .formatted ⟨m.segmentInfo, hContents⟩ }) rfl ha
      exact ⟨_, _, hid, ⟨rfl, rfl⟩, fun r => ⟨rfl, rfl⟩⟩

theorem orFailure_some (env : Env) (outs : List SendOut) (m : Sender) (ok : Bool) :
    orFailure env (outs, some (m, ok)) =
      (outs ++ if ok then [] else generateFailure env, some m) := by
  cases ok <;> rfl

/-- There are segments left to send, or the last one has been sent. -/
def More (m : Sender) : Prop := m.bComplete = true ∨ m.nextSegmentNumber ≤ m.lastSegmentNumber

/-- `aS1S2a`. -/
theorem aS1S2a_sends (env : Env) (sequenceId : Nat) (m : Sender) :
    ∃ m', (aS1S2a env sequenceId m).2.2 = some m' ∧
      Sends (sendsFirst env m) env.memGet (aS1S2a env sequenceId m).2 ∧
      (sendsFirst env m = true → More m') ∧
      m'.lastSegmentNumber + 1 - m'.nextSegmentNumber ≤
        numSegmentsOf m.hFullPduBuf.getBufferLength := by
  unfold aS1S2a sendsFirst
  rcases hseg : segmenting (m.hFullPduBuf.getBufferLength + maxFormattedDeliverArgLen) with _ | _
  · -- the whole contents in one piece
    rw [startSending_whole hseg]
    obtain ⟨outs, m', hcall, hsame, hsends⟩ :=
      formatAndInvoke_sends env (atWhole m) m.hFullPduBuf.octets
    dsimp only
    rw [hcall, Option.map_some, orFailure_some, Bool.not_false, Bool.true_or, Bool.true_and]
    refine ⟨_, rfl, hsends _, ?_, ?_⟩
    · intro h
      left
      show (sendsNext env || m'.bComplete) = true
      rw [h, Bool.true_or]
    · show m'.lastSegmentNumber + 1 - m'.nextSegmentNumber ≤ _
      rw [hsame.last, hsame.next]
      exact Nat.zero_le _
  · have hlen : segmentLen < m.hFullPduBuf.getBufferLength := submit_lawful.segmenting _ hseg
    have htwo : 2 ≤ numSegmentsOf m.hFullPduBuf.getBufferLength := numSegmentsOf_of_lt hlen
    rw [Bool.not_true, Bool.false_or]
    rcases hclone : env.clone with _ | _
    · -- no portion can be cloned
      rw [Bool.false_and]
      refine ⟨beginSegments ((sequenceId + 1) % 2 ^ 32) m, ?_, ?_, nofun, ?_⟩
      · unfold startSending
        rw [if_pos hseg, if_neg (by simp [tooMany]), if_pos hclone]
      · unfold startSending
        rw [if_pos hseg, if_neg (by simp [tooMany]), if_pos hclone]
        exact sends_failure env _
      · show numSegmentsOf m.hFullPduBuf.getBufferLength - 1 + 1 - 1 ≤ _
        omega
    · rw [Bool.true_and, startSending_segments hseg rfl hclone]
      obtain ⟨outs, m', hcall, hsame, hsends⟩ :=
        formatAndInvoke_sends env (atFirst ((sequenceId + 1) % 2 ^ 32) m)
          (firstPdu ((sequenceId + 1) % 2 ^ 32) m).contents
      dsimp only
      rw [hcall, orFailure_some]
      have hlast : m'.lastSegmentNumber = numSegmentsOf m.hFullPduBuf.getBufferLength - 1 :=
        hsame.last
      have hnext : m'.nextSegmentNumber = 1 := hsame.next
      refine ⟨m', rfl, hsends _, fun _ => .inr ?_, ?_⟩ <;> omega

/-- `aS2S2a`. -/
theorem aS2S2a_sends (h : (aS2S2a env m).2 = some m') :
    Sends (sendsNext env) env.memGet (aS2S2a env m) ∧ More m' ∧
      m'.lastSegmentNumber = m.lastSegmentNumber ∧
      m'.nextSegmentNumber = m.nextSegmentNumber + 1 := by
  unfold aS2S2a at h ⊢
  rcases hclone : env.clone with _ | _
  · unfold sendNextSegment at h
    rw [if_pos hclone] at h
    cases h
  · rw [sendNextSegment_eq hclone] at h ⊢
    obtain ⟨outs, m₁, hcall, hsame, hsends⟩ := formatAndInvoke_sends env (atNext m)
      (m.hFullPduBuf.cloneBufferPortion m.segmentLength).1.flatten
    dsimp only at h ⊢
    rw [hcall, orFailure_some] at h ⊢
    cases h
    refine ⟨hsends _, ?_, hsame.last, hsame.next⟩
    by_cases hmore : m₁.nextSegmentNumber ≤ m₁.lastSegmentNumber
    · exact .inr hmore
    · left
      show (m₁.bComplete || decide (m₁.nextSegmentNumber > m₁.lastSegmentNumber)) = true
      rw [decide_eq_true (by omega), Bool.or_true]

/-! ## One submission -/

/-- A submission waits for one thing. -/
inductive Waiting (x : Submission) : Prop
  | requested (hs : x.curState = .s1Idle) (he : x.events = [.messageSubmitRequest])
      (hi : x.invocations = 0)
  | invoked (hs : x.curState = .s2InvokeResponseWait) (he : x.events = []) (hi : x.invocations = 1)
      (hm : More x.sender)
  | answered (hs : x.curState = .s2InvokeResponseWait) (he : x.events = [.resultIndication])
      (hi : x.invocations = 0) (hm : More x.sender)
  | failed (evt : FsmEvent) (hs : x.curState = .s2InvokeResponseWait) (he : x.events = [evt])
      (hi : x.invocations = 0) (hevt : evt = .errorIndication ∨ evt = .failureIndication)

/-- A submission waits for nothing. -/
def Idle (x : Submission) : Prop := x.events = [] ∧ x.invocations = 0

/-- How much is left to do, at most: two steps for each segment. -/
def Submission.work (x : Submission) : Nat :=
  match x.curState with
  | .s1Idle => 2 * numSegmentsOf x.sender.hFullPduBuf.getBufferLength + 4
  | .s2InvokeResponseWait =>
    2 * (x.sender.lastSegmentNumber + 1 - x.sender.nextSegmentNumber) + 2 * x.invocations +
      x.events.length

/-- The submission has lost its event, or it waits for the next thing. -/
def Delivers (ok : Bool) (x : Submission) : Prop := if ok then Waiting x else Idle x

/-- What is left once the invocation is concluded, before its event. -/
def segmentsWork (m : Sender) : Nat := 2 * (m.lastSegmentNumber + 1 - m.nextSegmentNumber)

/-- An event is generated for a submission that waits for nothing. -/
theorem generateEvent_step (evt : FsmEvent) (hs : y.curState = .s2InvokeResponseWait) (hidle : Idle y)
    (hevt : evt = .resultIndication ∧ More y.sender ∨ evt = .errorIndication ∨
      evt = .failureIndication) (memGet : Bool) :
    Delivers memGet (y.generateEvent evt memGet) ∧
      (y.generateEvent evt memGet).work ≤ segmentsWork y.sender + 1 := by
  obtain ⟨he, hi⟩ := hidle
  have hwork : ∀ l : List FsmEvent, l.length ≤ 1 →
      Submission.work { y with events := l } ≤ segmentsWork y.sender + 1 := by
    intro l hl
    unfold Submission.work segmentsWork
    rw [hs]
    dsimp only
    omega
  unfold Submission.generateEvent
  rw [he]
  cases memGet with
  | false => exact ⟨⟨rfl, hi⟩, hwork [] (by decide)⟩
  | true =>
    refine ⟨?_, hwork [evt] (Nat.le_refl 1)⟩
    rcases hevt with ⟨rfl, hm⟩ | hfail
    · exact .answered hs rfl hi hm
    · exact .failed evt hs rfl hi hfail

/-- The parameter of an indication is handled. -/
theorem preprocess_step (evt : FsmEvent) (hs : y.curState = .s2InvokeResponseWait) (hidle : Idle y)
    (hm : More y.sender) (hevt : evt = .resultIndication ∨ evt = .errorIndication)
    (hView : View) (memGet : Bool) :
    (y.preprocess hView evt memGet).hMessage = y.hMessage ∧
      Delivers (hView.toBuf && hView.preprocess && memGet) (y.preprocess hView evt memGet) ∧
      (y.preprocess hView evt memGet).work ≤ segmentsWork y.sender + 1 := by
  have hkept : y.work ≤ segmentsWork y.sender + 1 := by
    unfold Submission.work segmentsWork
    rw [hs, hidle.1, hidle.2]
    dsimp only [List.length_nil]
    omega
  unfold Submission.preprocess
  cases htoBuf : hView.toBuf with
  | false => exact ⟨rfl, hidle, hkept⟩
  | true =>
    cases hpre : hView.preprocess with
    | false => exact ⟨rfl, hidle, hkept⟩
    | true =>
      have hstep := generateEvent_step evt
        (y := { y with sender := { y.sender with hOperationData := some hView.error } }) hs hidle
        (hevt.imp (fun h => ⟨h, hm⟩) .inl) memGet
      exact ⟨rfl, hstep⟩

/-- **An indication** leaves an event if it generates one. -/
theorem indication_step (hw : Waiting x) (hi : x.invocations ≠ 0) (ind : Indication)
    (memGet : Bool) :
    let x' := Submission.indication { x with invocations := x.invocations - 1 } memGet ind
    x'.hMessage = x.hMessage ∧ Delivers (ind.generates memGet) x' ∧ x'.work < x.work := by
  cases hw with
  | requested _ _ h0 => exact absurd h0 hi
  | answered _ _ h0 _ => exact absurd h0 hi
  | failed _ _ _ h0 _ => exact absurd h0 hi
  | invoked hs he h1 hm =>
    have hwork : segmentsWork x.sender + 1 < x.work := by
      unfold Submission.work segmentsWork
      rw [hs, he, h1]
      dsimp only [List.length_nil]
      omega
    have hidle : Idle { x with invocations := x.invocations - 1 } := ⟨he, by rw [h1]⟩
    cases ind with
    | result hView =>
      cases hView with
      | none =>
        refine ⟨rfl, hidle, ?_⟩
        unfold Submission.work
        dsimp only [Submission.indication, Submission.resultIndication]
        rw [hs, he, h1]
        dsimp only [List.length_nil]
        omega
      | some hView =>
        obtain ⟨hmsg, hdel, hle⟩ := preprocess_step .resultIndication
          (y := { x with invocations := x.invocations - 1 }) hs hidle hm (.inl rfl) hView memGet
        exact ⟨hmsg, hdel, Nat.lt_of_le_of_lt hle hwork⟩
    | error hView =>
      cases hView with
      | none =>
        obtain ⟨hdel, hle⟩ := generateEvent_step .errorIndication
          (y := { x with invocations := x.invocations - 1 }) hs hidle (.inr (.inl rfl)) memGet
        exact ⟨rfl, hdel, Nat.lt_of_le_of_lt hle hwork⟩
      | some hView =>
        obtain ⟨hmsg, hdel, hle⟩ := preprocess_step .errorIndication
          (y := { x with invocations := x.invocations - 1 }) hs hidle hm (.inr rfl) hView memGet
        exact ⟨hmsg, hdel, Nat.lt_of_le_of_lt hle hwork⟩
    | failure =>
      obtain ⟨hdel, hle⟩ := generateEvent_step .failureIndication
        (y := { x with invocations := x.invocations - 1 }) hs hidle (.inr (.inr rfl)) memGet
      exact ⟨rfl, hdel, Nat.lt_of_le_of_lt hle hwork⟩

/-- What an action that sends leaves waits for an indication, or for its FAILURE event. -/
theorem goOn_step {ok : Bool} {c : Call Sender} (hs : y.curState = .s2InvokeResponseWait)
    (hidle : Idle y) (hm : c.2 = some m') (hsends : Sends ok env.memGet c)
    (hmore : ok = true → More m') :
    ∃ x', y.goOn c = some x' ∧ x'.hMessage = y.hMessage ∧ Delivers (ok || env.memGet) x' ∧
      x'.work ≤ segmentsWork m' + 2 := by
  unfold Submission.goOn
  rw [hm, hsends.invoked, hsends.failed, hidle.1, hidle.2]
  refine ⟨_, rfl, rfl, ?_, ?_⟩
  · rcases ok with _ | _
    · rcases env.memGet with _ | _
      · exact ⟨rfl, rfl⟩
      · exact .failed .failureIndication hs rfl rfl (.inr rfl)
    · exact .invoked hs rfl rfl (hmore rfl)
  · unfold Submission.work segmentsWork
    dsimp only
    rw [hs]
    dsimp only
    rcases ok with _ | _ <;> rcases env.memGet with _ | _ <;> simp

/-- The end of a submission: it is freed, with a call-back of the shell. -/
def Ends (x : Submission) (o : List SubmitOut) : Prop :=
  o = [.submitSuccess x.hMessage] ∨ ∃ transient, o = [.submitFail x.hMessage transient]

/-- **A run of the machine** goes on with a submission, or ends it with a call-back. -/
theorem runMachine_step {events : List FsmEvent} {sequenceId sequenceId' : Nat}
    {x' : Option Submission} {o : List SubmitOut} (hw : Waiting x) (he : x.events = evt :: events)
    (hr : Submission.runMachine { x with events } evt sequenceId env =
      some (sequenceId', x', o)) :
    (∃ y, x' = some y ∧ o = [] ∧ y.hMessage = x.hMessage ∧
      Delivers (decide (x.Lossless evt env)) y ∧ y.work < x.work) ∨
    (x' = none ∧ Ends x o ∧ x.Lossless evt env) := by
  cases hw with
  | requested hs he' hi =>
    obtain ⟨rfl, rfl⟩ := List.cons.inj (he.symm.trans he')
    obtain ⟨m', hm, hsends, hmore, hleft⟩ := aS1S2a_sends env sequenceId x.sender
    obtain ⟨y, hy, hmsg, hdel, hwork⟩ := goOn_step
      (y := { x with events := [], curState := .s2InvokeResponseWait }) rfl ⟨rfl, hi⟩ hm hsends
      hmore
    have htrans : submitTrans x.curState .messageSubmitRequest x.sender = (.s1s2a, x.sender) := by
      rw [hs]
      rfl
    have hrun : Submission.runMachine { x with events := [] } .messageSubmitRequest sequenceId env =
        some ((aS1S2a env sequenceId x.sender).1, some y, []) := by
      unfold Submission.runMachine
      dsimp only
      rw [htrans]
      exact congrArg (Option.map _) hy
    have hloss : decide (x.Lossless .messageSubmitRequest env) =
        (sendsFirst env x.sender || env.memGet) := by
      unfold Submission.Lossless
      simp [htrans]
    cases hrun.symm.trans hr
    refine .inl ⟨y, rfl, rfl, hmsg, hloss ▸ hdel, ?_⟩
    have hx : x.work = 2 * numSegmentsOf x.sender.hFullPduBuf.getBufferLength + 4 := by
      unfold Submission.work
      rw [hs]
    unfold segmentsWork at hwork
    omega
  | invoked hs he' hi hm =>
    rw [he'] at he
    cases he
  | answered hs he' hi hm =>
    obtain ⟨rfl, rfl⟩ := List.cons.inj (he.symm.trans he')
    rcases hcomplete : x.sender.bComplete with _ | _
    · -- the next segment
      have htrans : submitTrans x.curState .resultIndication x.sender = (.s2s2a, x.sender) := by
        rw [hs]
        unfold submitTrans pS2S1a
        simp [hcomplete]
      have hloss : decide (x.Lossless .resultIndication env) = (sendsNext env || env.memGet) := by
        unfold Submission.Lossless
        simp [htrans]
      unfold Submission.runMachine at hr
      dsimp only at hr
      rw [htrans] at hr
      dsimp only at hr
      cases hcall : (aS2S2a env x.sender).2 with
      | none =>
        unfold Submission.goOn at hr
        rw [hcall] at hr
        cases hr
      | some m' =>
        obtain ⟨hsends, hmore, hlast, hnext⟩ := aS2S2a_sends hcall
        obtain ⟨y, hy, hmsg, hdel, hwork⟩ := goOn_step
          (y := { x with events := [], curState := .s2InvokeResponseWait }) rfl ⟨rfl, hi⟩ hcall
          hsends fun _ => hmore
        rw [show SendTrans.nextState .s2s2a = .s2InvokeResponseWait from rfl, hy] at hr
        cases hr
        refine .inl ⟨y, rfl, rfl, hmsg, hloss ▸ hdel, ?_⟩
        have hx : x.work = segmentsWork x.sender + 1 := by
          unfold Submission.work segmentsWork
          rw [hs, he', hi]
          rfl
        have hleft : x.sender.nextSegmentNumber ≤ x.sender.lastSegmentNumber :=
          hm.resolve_left (by rw [hcomplete]; decide)
        unfold segmentsWork at hwork hx
        omega
    · -- the last one has been sent
      have htrans : submitTrans x.curState .resultIndication x.sender = (.s2s1a, x.sender) := by
        rw [hs]
        unfold submitTrans pS2S1a
        simp [hcomplete]
      unfold Submission.runMachine at hr
      dsimp only at hr
      rw [htrans] at hr
      cases hr
      refine .inr ⟨rfl, .inl rfl, ?_⟩
      unfold Submission.Lossless
      rw [htrans]
      trivial
  | failed evt' hs he' hi hevt =>
    obtain ⟨rfl, rfl⟩ := List.cons.inj (he.symm.trans he')
    have htrans : (submitTrans x.curState evt x.sender).1 = .s2s1b ∨
        (submitTrans x.curState evt x.sender).1 = .s2s1c ∨
        (submitTrans x.curState evt x.sender).1 = .s2s1d := by
      rw [hs]
      rcases hevt with rfl | rfl
      · unfold submitTrans
        dsimp only
        split
        · exact .inl rfl
        · exact .inr (.inl rfl)
      · -- there are no retries
        right; right
        unfold submitTrans pS2S1d maxFailureRetries
        simp
    have hloss : x.Lossless evt env := by
      unfold Submission.Lossless
      rcases htrans with h | h | h <;> (rw [h]; trivial)
    unfold Submission.runMachine at hr
    dsimp only at hr
    rcases htrans with h | h | h <;>
    · rw [h] at hr
      cases hr
      exact .inr ⟨rfl, .inr ⟨_, rfl⟩, hloss⟩

/-! ## All submissions -/

variable {capacity : Nat} {s t : Submissions} {i : SubmitInput} {o h : List SubmitOut}

/-- How much is left to do for all submissions. -/
def Submissions.work (s : Submissions) : Nat := (s.operations.map Submission.work).sum

/-- What holds of the books after every step. -/
structure Booked (capacity : Nat) (s : Submissions) (h : List SubmitOut) : Prop where
  slots : s.concurrentOperationsOutbound + s.operations.length = capacity
  nodup : s.handles.Nodup
  issued : submitted h = List.range s.nextMessage
  live : ∀ k ∈ s.handles, k < s.nextMessage
  once : ∀ k, called k h = if k < s.nextMessage ∧ k ∉ s.handles then 1 else 0

/-- An operation of the list, and what becomes of the list when it is written or freed. -/
theorem exists_place {l : List Submission} {n : Nat} (hx : l[n]? = some x) :
    ∃ pre post, l = pre ++ x :: post ∧ (∀ y, l.set n y = pre ++ y :: post) ∧
      l.eraseIdx n = pre ++ post := by
  obtain ⟨hn, rfl⟩ := List.getElem?_eq_some_iff.1 hx
  refine ⟨l.take n, l.drop (n + 1), ?_, ?_, ?_⟩
  · rw [List.getElem_cons_drop hn, List.take_append_drop]
  · intro y
    rw [List.set_eq_take_append_cons_drop, if_pos hn]
  · exact List.eraseIdx_eq_take_drop_succ l n

@[simp]
theorem called_append (k : Nat) (h o : List SubmitOut) :
    called k (h ++ o) = called k h + called k o := List.countP_append

@[simp]
theorem submitted_append (h o : List SubmitOut) :
    submitted (h ++ o) = submitted h ++ submitted o := List.filterMap_append

/-- The call-back that ends a submission. -/
theorem Ends.called (he : Ends x o) (k : Nat) : called k o = if k = x.hMessage then 1 else 0 := by
  rcases he with rfl | ⟨transient, rfl⟩ <;>
  · unfold Ua.called SubmitOut.calls
    by_cases hk : x.hMessage = k
    · simp [hk]
    · simp [hk, Ne.symm hk]

theorem Ends.submitted (he : Ends x o) : submitted o = [] := by
  rcases he with rfl | ⟨transient, rfl⟩ <;> rfl

/-- What is seen concerns no submission. -/
theorem Booked.quiet (hb : Booked capacity s h) (hs : submitted o = []) (hc : ∀ k, called k o = 0) :
    Booked capacity s (h ++ o) := by
  refine ⟨hb.slots, hb.nodup, ?_, hb.live, fun k => ?_⟩
  · rw [submitted_append, hs, List.append_nil]
    exact hb.issued
  · rw [called_append, hc k, Nat.add_zero]
    exact hb.once k

/-- An operation is written. -/
theorem Booked.put_some {n sequenceId : Nat} (hb : Booked capacity s h)
    (hx : s.operations[n]? = some x) (hmsg : y.hMessage = x.hMessage) :
    Booked capacity (s.put n sequenceId (some y)) h := by
  obtain ⟨pre, post, hl, hset, -⟩ := exists_place hx
  have hhandles : (s.put n sequenceId (some y)).handles = s.handles := by
    unfold Submissions.put Submissions.handles
    dsimp only
    rw [hset, hl]
    simp [hmsg]
  have hlen : (s.put n sequenceId (some y)).operations.length = s.operations.length :=
    List.length_set
  exact ⟨by rw [hlen]; exact hb.slots, hhandles ▸ hb.nodup, hb.issued, hhandles ▸ hb.live,
    hhandles ▸ hb.once⟩

/-- An operation is freed, with the call-back for its message. -/
theorem Booked.put_none {n sequenceId : Nat} (hb : Booked capacity s h)
    (hx : s.operations[n]? = some x) (he : Ends x o) :
    Booked capacity (s.put n sequenceId none) (h ++ o) := by
  obtain ⟨pre, post, hl, -, herase⟩ := exists_place hx
  have hbefore : s.handles =
      pre.map Submission.hMessage ++ x.hMessage :: post.map Submission.hMessage := by
    unfold Submissions.handles
    rw [hl, List.map_append, List.map_cons]
  have hafter : (s.put n sequenceId none).handles =
      pre.map Submission.hMessage ++ post.map Submission.hMessage := by
    unfold Submissions.handles Submissions.put
    dsimp only
    rw [herase, List.map_append]
  have hperm : s.handles.Perm (x.hMessage :: (s.put n sequenceId none).handles) := by
    rw [hbefore, hafter]
    exact List.perm_middle
  have hnodup : (x.hMessage :: (s.put n sequenceId none).handles).Nodup :=
    hperm.nodup_iff.1 hb.nodup
  obtain ⟨hgone, hrest⟩ := List.nodup_cons.1 hnodup
  have hmem : ∀ k, k ∈ s.handles ↔ k = x.hMessage ∨ k ∈ (s.put n sequenceId none).handles := by
    intro k
    rw [hperm.mem_iff, List.mem_cons]
  refine ⟨?_, hrest, ?_, ?_, ?_⟩
  · have hslots := hb.slots
    rw [hl] at hslots
    show s.concurrentOperationsOutbound + 1 + (s.operations.eraseIdx n).length = capacity
    rw [herase, List.length_append]
    rw [List.length_append, List.length_cons] at hslots
    omega
  · rw [submitted_append, he.submitted, List.append_nil]
    exact hb.issued
  · intro k hk
    exact hb.live k ((hmem k).2 (.inr hk))
  · intro k
    rw [called_append, hb.once k, he.called k]
    by_cases hk : k = x.hMessage
    · -- it was on the list, and is called back now
      have hlive : k < s.nextMessage := hb.live k ((hmem k).2 (.inl hk))
      have hin : k ∈ s.handles := (hmem k).2 (.inl hk)
      rw [if_neg fun hno => hno.2 hin, if_pos hk, if_pos ⟨hlive, hk ▸ hgone⟩]
    · have hsame : k ∉ s.handles ↔ k ∉ (s.put n sequenceId none).handles := by
        rw [hmem k, or_iff_right hk]
      rw [if_neg hk, Nat.add_zero]
      exact if_congr (and_congr Iff.rfl hsame) rfl rfl

/-- `UA_submitMessage`. -/
theorem Booked.submitMessage (hb : Booked capacity s h) (b : Buf) (env : SubmitEnv) :
    Booked capacity (s.submitMessage b env).1 (h ++ (s.submitMessage b env).2) := by
  unfold Submissions.submitMessage
  split
  · rename_i hok
    have hpool : s.concurrentOperationsOutbound ≠ 0 := by
      unfold SubmitEnv.accepts at hok
      simp only [Bool.and_eq_true, decide_eq_true_eq] at hok
      exact hok.1.1.2
    have hnew : s.nextMessage ∉ s.handles := fun hin => Nat.lt_irrefl _ (hb.live _ hin)
    refine ⟨?_, ?_, ?_, ?_, ?_⟩
    · have hslots := hb.slots
      show s.concurrentOperationsOutbound - 1 + (s.operations ++ [_]).length = capacity
      rw [List.length_append, List.length_singleton]
      omega
    · unfold Submissions.handles
      rw [List.map_append]
      refine List.nodup_append.2 ⟨hb.nodup, List.nodup_cons.2 ⟨List.not_mem_nil, List.nodup_nil⟩, ?_⟩
      intro k hk j hj he
      rw [he, List.mem_singleton.1 hj] at hk
      exact hnew hk
    · rw [submitted_append, hb.issued, List.range_succ]
      rfl
    · intro k hk
      unfold Submissions.handles at hk
      rw [List.map_append] at hk
      show k < s.nextMessage + 1
      rcases List.mem_append.1 hk with hk | hk
      · exact Nat.lt_succ_of_lt (hb.live k hk)
      · rw [List.mem_singleton.1 hk]
        exact Nat.lt_succ_self _
    · intro k
      rw [called_append, hb.once k]
      refine (Nat.add_zero _).trans (if_congr ?_ rfl rfl)
      show k < s.nextMessage ∧ k ∉ s.handles ↔
        k < s.nextMessage + 1 ∧ k ∉ (s.operations ++ [_]).map Submission.hMessage
      rw [List.map_append, List.mem_append, not_or]
      constructor
      · rintro ⟨hlt, hout⟩
        refine ⟨by omega, hout, fun hk => ?_⟩
        rw [List.mem_singleton.1 hk] at hlt
        exact absurd hlt (Nat.lt_irrefl _)
      · rintro ⟨hlt, hout, hk⟩
        have hne : k ≠ s.nextMessage := fun he => hk (List.mem_singleton.2 he)
        exact ⟨by omega, hout⟩
  · exact hb.quiet rfl fun _ => rfl

/-- Every submission waits for something. -/
def AllWaiting (s : Submissions) : Prop := ∀ x ∈ s.operations, Waiting x

theorem Waiting.busy (hw : Waiting x) : x.events ≠ [] ∨ 0 < x.invocations := by
  cases hw with
  | requested _ he _ => exact .inl (by rw [he]; exact List.cons_ne_nil _ _)
  | invoked _ _ hi _ => exact .inr (by rw [hi]; exact Nat.one_pos)
  | answered _ he _ _ => exact .inl (by rw [he]; exact List.cons_ne_nil _ _)
  | failed _ _ he _ _ => exact .inl (by rw [he]; exact List.cons_ne_nil _ _)

theorem Booked.settled (hb : Booked capacity s h) (hw : AllWaiting s) : Settled capacity s h where
  slots := hb.slots
  once := by
    intro k
    rw [hb.once k, hb.issued]
    exact if_congr (and_congr List.mem_range.symm Iff.rfl) rfl rfl
  live := by
    intro k hk
    rw [hb.issued]
    exact List.mem_range.2 (hb.live k hk)
  busy := fun x hx => (hw x hx).busy

/-- A submission that waits for nothing has no outcome. -/
theorem Settled.not_idle (hset : Settled capacity s h) (hx : x ∈ s.operations) : ¬Idle x := by
  rintro ⟨he, hi⟩
  rcases hset.busy x hx with hne | hpos
  · exact hne he
  · rw [hi] at hpos
    exact absurd hpos (Nat.lt_irrefl 0)

/-- What a step leaves: the books are kept, all submissions wait if no event is lost, one of them
waits for nothing if one is, and less is left to do. -/
structure Stepped (capacity : Nat) (delivered submits : Prop) (before : Nat) (t : Submissions)
    (h : List SubmitOut) : Prop where
  booked : Booked capacity t h
  waiting : delivered → AllWaiting t
  idle : ¬delivered → ∃ x ∈ t.operations, Idle x
  less : submits ∨ t.work < before

/-- An operation is written with what waits for the next thing or has lost its event. -/
theorem stepped_some {n sequenceId : Nat} {delivered : Prop} [Decidable delivered]
    (hb : Booked capacity s h) (hw : AllWaiting s) (hx : s.operations[n]? = some x)
    (hmsg : y.hMessage = x.hMessage) (hdel : Delivers (decide delivered) y)
    (hless : y.work < x.work) :
    Stepped capacity delivered False s.work (s.put n sequenceId (some y)) h := by
  obtain ⟨pre, post, hl, hset, -⟩ := exists_place hx
  have hops : (s.put n sequenceId (some y)).operations = pre ++ y :: post := hset y
  refine ⟨hb.put_some hx hmsg, ?_, ?_, .inr ?_⟩
  · intro hd z hz
    rw [hops] at hz
    rcases List.mem_append.1 hz with hz | hz
    · exact hw z (hl ▸ List.mem_append_left _ hz)
    · rcases List.mem_cons.1 hz with rfl | hz
      · unfold Delivers at hdel
        rwa [if_pos (decide_eq_true hd)] at hdel
      · exact hw z (hl ▸ List.mem_append_right _ (List.mem_cons_of_mem _ hz))
  · intro hd
    refine ⟨y, by rw [hops]; exact List.mem_append_right _ List.mem_cons_self, ?_⟩
    unfold Delivers at hdel
    rwa [if_neg (by simpa using hd)] at hdel
  · unfold Submissions.work
    rw [hops, hl]
    simp only [List.map_append, List.map_cons, List.sum_append, List.sum_cons]
    omega

/-- An operation is freed with its call-back. -/
theorem stepped_none {n sequenceId : Nat} {delivered : Prop} (hb : Booked capacity s h)
    (hw : AllWaiting s) (hx : s.operations[n]? = some x) (he : Ends x o) (hpos : 0 < x.work)
    (hd : delivered) :
    Stepped capacity delivered False s.work (s.put n sequenceId none) (h ++ o) := by
  obtain ⟨pre, post, hl, -, herase⟩ := exists_place hx
  have hops : (s.put n sequenceId none).operations = pre ++ post := herase
  refine ⟨hb.put_none hx he, ?_, fun hno => absurd hd hno, .inr ?_⟩
  · intro _ z hz
    rw [hops] at hz
    rcases List.mem_append.1 hz with hz | hz
    · exact hw z (hl ▸ List.mem_append_left _ hz)
    · exact hw z (hl ▸ List.mem_append_right _ (List.mem_cons_of_mem _ hz))
  · unfold Submissions.work
    rw [hops, hl]
    simp only [List.map_append, List.map_cons, List.sum_append, List.sum_cons]
    omega

/-- The input is a submission. -/
def SubmitInput.submits : SubmitInput → Prop
  | .submitMessage _ _ => True
  | _ => False

theorem work_pos (he : x.events ≠ []) : 0 < x.work := by
  unfold Submission.work
  have hlen : 0 < x.events.length := List.length_pos_iff.2 he
  split <;> omega

/-- `UA_submitMessage`. -/
theorem stepped_submitMessage (hb : Booked capacity s h) (hw : AllWaiting s) (b : Buf)
    (env : SubmitEnv) : Stepped capacity (Delivered s (.submitMessage b env)) True s.work
      (s.submitMessage b env).1 (h ++ (s.submitMessage b env).2) := by
  have hbooked := hb.submitMessage b env
  unfold Submissions.submitMessage at hbooked ⊢
  split
  · rename_i hok
    rw [if_pos hok] at hbooked
    refine ⟨hbooked, ?_, ?_, .inl trivial⟩
    · intro hd z hz
      rcases List.mem_append.1 hz with hz | hz
      · exact hw z hz
      · rw [List.mem_singleton.1 hz]
        unfold Submission.generateEvent
        rw [hd hok]
        exact .requested rfl rfl rfl
    · intro hd
      refine ⟨_, List.mem_append_right _ (List.mem_singleton_self _), ?_⟩
      have hmem : env.memGet = false := by
        cases hm : env.memGet with
        | false => rfl
        | true => exact absurd (fun _ => hm) hd
      unfold Submission.generateEvent
      rw [hmem]
      exact ⟨rfl, rfl⟩
  · rename_i hok
    rw [if_neg hok] at hbooked
    exact ⟨hbooked, fun _ => hw, fun hd => absurd (fun h => absurd h hok) hd, .inl trivial⟩

/-- **A step** from where all submissions wait for something. -/
theorem step_spec (hb : Booked capacity s h) (hw : AllWaiting s)
    (hs : (submitting capacity).step s i = some (t, o)) :
    Stepped capacity (Delivered s i) i.submits s.work t (h ++ o) := by
  unfold submitting Submissions.step at hs
  cases i with
  | submitMessage b env =>
    have he : s.submitMessage b env = (t, o) := Option.some.inj hs
    have hstep := stepped_submitMessage hb hw b env
    rw [he] at hstep
    exact hstep
  | indication n ind memGet =>
    obtain ⟨x, hx, hs⟩ := Option.bind_eq_some_iff.1 hs
    split at hs
    · cases hs
    · rename_i hi
      cases hs
      obtain ⟨hmsg, hdel, hless⟩ := indication_step (hw x (List.mem_of_getElem? hx)) hi ind memGet
      have hd : Delivered s (.indication n ind memGet) = (ind.generates memGet = true) := rfl
      rw [List.append_nil, hd]
      refine stepped_some hb hw hx hmsg ?_ hless
      rwa [Bool.decide_eq_true]
  | schRun n env =>
    obtain ⟨x, hx, hs⟩ := Option.bind_eq_some_iff.1 hs
    have hwait : Waiting x := hw x (List.mem_of_getElem? hx)
    split at hs
    · cases hs
    · rename_i evt events he
      obtain ⟨⟨sequenceId, x', o'⟩, hr, hs⟩ := Option.map_eq_some_iff.1 hs
      cases hs
      have hd : Delivered s (.schRun n env) = x.Lossless evt env := by
        unfold Delivered
        simp [hx, he]
      rw [hd]
      rcases runMachine_step hwait he hr with
        ⟨y, rfl, rfl, hmsg, hdel, hless⟩ | ⟨rfl, hends, hloss⟩
      · rw [List.append_nil]
        exact stepped_some hb hw hx hmsg hdel hless
      · exact stepped_none hb hw hx hends (work_pos (he ▸ List.cons_ne_nil _ _)) hloss

/-! ## Runs -/

end Ua
