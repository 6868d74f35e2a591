import Emsd.Mtsua.Sending

/-!
# Segments are sent in sequence

* `segments_in_sequence`: **a sender follows the protocol of `SegMove`**, in every run where the
  contents have at most `MTSUA_MAX_SEGMENTS` segments and no failure between the choice of a segment
  and its formatting is answered by a retry.
* `null_invoked`: a Deliver machine whose first `BUF_alloc` fails.
-/

namespace Mtsua

open Ocp

variable {A : Agent} {env : Env} {m m' : Sender} {full : Octets} {pdus : List Pdu} {k : Nat}
  {s t : Sending A} {b : Buf}

/-! ## The condition -/

/-- `formatAndInvoke` comes to a formatted buffer. -/
def Env.formats (env : Env) (tree : Bool) : Bool :=
  tree && env.bufAlloc && env.addUserFree && env.asnFormat

/-- `mts_issueInvoke` or `ua_issueInvoke` succeeds. -/
def Env.accepts (env : Env) : Bool := env.duAlloc && env.invokeReq.isSome

/-- A failure of the call leads to no retry: its event is lost, or it is the last one. -/
def Agent.givesUp (A : Agent) (env : Env) (m : Sender) : Bool :=
  !env.memGet || decide ((A.trans .s2InvokeResponseWait A.failureIndication m).1 = .s2s1d)

/-- The condition on `aS1S2a`. -/
def Agent.startOk (A : Agent) (env : Env) (m : Sender) : Bool :=
  let len := m.hFullPduBuf.getBufferLength
  let formed := env.clone && env.formats (A.tree env)
  if A.segmenting (len + maxFormattedDeliverArgLen) then
    if numSegmentsOf len ≤ maxSegments then
      !A.tooMany (numSegmentsOf len) && (formed || A.givesUp env m)
    else if A.tooMany (numSegmentsOf len) then A.givesUp env m
    else !formed && A.givesUp env m
  else (env.formats (A.tree env) && env.accepts) || A.givesUp env m

/-- The condition on `aS2S2a`. -/
def Agent.nextOk (A : Agent) (env : Env) (m : Sender) : Bool :=
  env.clone && (env.formats (A.tree env) || A.givesUp env m)

/-- The condition on a step. -/
def sendOk (s : Sending A) : SendInput → Bool
  | .indication _ _ => true
  | .schRun env =>
    match s.events, s.sender with
    | evt :: _, some m =>
      match (A.trans s.curState evt m).1 with
      | .s1s2a => A.startOk env (A.trans s.curState evt m).2
      | .s2s2a => A.nextOk env (A.trans s.curState evt m).2
      | _ => true
    | _, _ => true

def OrderlySend (s : Sending A) (i : SendInput) : Prop := sendOk s i = true

/-! ## What is seen -/

def SendEvent.mark? : SendEvent → Option SendMark
  | .send (.issueInvoke hInvokeData) => some (.issue hInvokeData)
  | .send _ => none
  | .result => some .result
  | .success => some .success

def marksOf (h : List SendEvent) : List SendMark := h.filterMap SendEvent.mark?

@[simp] theorem marksOf_append {h h' : List SendEvent} :
    marksOf (h ++ h') = marksOf h ++ marksOf h' := List.filterMap_append

/-! ## One call -/

/-- A call has issued the PDU: ESROS has accepted it, or a FAILURE event is generated. -/
structure Issued (env : Env) (pdu : Pdu) (m : Sender) (c : Call Sender) : Prop where
  sender : ∃ id, c.2 = some { m with hCurrentBuf := .formatted pdu, invokeId := id }
  outs : (∃ id, c.1 = [.issueInvoke (.formatted pdu), .invokeReq id (.formatted pdu)]) ∨
    c.1 = .issueInvoke (.formatted pdu) :: generateFailure env

theorem issueInvoke_accepted {pdu : Pdu} (hm : m.hCurrentBuf = .formatted pdu)
    (h : env.accepts = true) :
    ∃ id, issueInvoke env m = ([.issueInvoke (.formatted pdu), .invokeReq id (.formatted pdu)],
      some ({ m with invokeId := some id }, true)) := by
  simp only [Env.accepts, Bool.and_eq_true] at h
  obtain ⟨hdu, hreq⟩ := h
  obtain ⟨id, hid⟩ := Option.isSome_iff_exists.1 hreq
  exact ⟨id, by simp [issueInvoke, hm, hdu, hid]⟩

theorem issueInvoke_refused {pdu : Pdu} (hm : m.hCurrentBuf = .formatted pdu)
    (h : env.accepts = false) :
    issueInvoke env m = ([.issueInvoke (.formatted pdu)], some (m, false)) := by
  rcases hdu : env.duAlloc with _ | _
  · simp [issueInvoke, hm, hdu]
  · have hreq : env.invokeReq = none := by simpa [Env.accepts, hdu] using h
    simp [issueInvoke, hm, hdu, hreq]

theorem issued_of_formatted (env : Env) {pdu : Pdu} (hm : m.hCurrentBuf = .formatted pdu) :
    Issued env pdu m (orFailure env (issueInvoke env m)) := by
  have hself : m = { m with hCurrentBuf := .formatted pdu, invokeId := m.invokeId } := by
    rw [← hm]
  rcases h : env.accepts with _ | _
  · rw [issueInvoke_refused hm h]
    exact ⟨⟨m.invokeId, congrArg some hself⟩, .inr rfl⟩
  · obtain ⟨id, hid⟩ := issueInvoke_accepted hm h
    rw [hid]
    exact ⟨⟨some id, congrArg some (by rw [← hm])⟩, .inl ⟨id, rfl⟩⟩

/-- Where the PDU is formatted, it is issued. -/
theorem formatAndInvoke_formats {tree : Bool} (h : env.formats tree = true) (hContents : Octets) :
    formatAndInvoke tree env m hContents =
      issueInvoke env { m with hCurrentBuf := .formatted ⟨m.segmentInfo, hContents⟩ } := by
  simp only [Env.formats, Bool.and_eq_true] at h
  obtain ⟨⟨⟨htree, halloc⟩, hadd⟩, hasn⟩ := h
  simp [formatAndInvoke, htree, halloc, hadd, hasn]

/-- Where it is not, nothing is issued. -/
theorem formatAndInvoke_fails {tree : Bool} (h : env.formats tree = false) (hContents : Octets) :
    ∃ buf, formatAndInvoke tree env m hContents = ([], some ({ m with hCurrentBuf := buf }, false)) := by
  unfold formatAndInvoke
  split
  · exact ⟨m.hCurrentBuf, rfl⟩
  split
  · exact ⟨.freed, rfl⟩
  split
  · exact ⟨.unformatted, rfl⟩
  · rename_i h₁ h₂ h₃
    simp only [not_or, Bool.not_eq_false] at h₁ h₂ h₃
    simp [Env.formats, h₁, h₂, h₃] at h
/-! ## The invariant -/

/-- What the transitions of the two machines have in common. -/
structure Agent.Lawful (A : Agent) : Prop where
  request : ∀ m, A.trans .s1Idle A.messageRequest m = (.s1s2a, m)
  result : ∀ m, A.trans .s2InvokeResponseWait A.resultIndication m =
    (if m.bComplete then .s2s1a else .s2s2a, m)
  error : ∀ m, (A.trans .s2InvokeResponseWait A.errorIndication m).1 = .s2s1b ∨
    (A.trans .s2InvokeResponseWait A.errorIndication m).1 = .s2s1c
  failure : ∀ m, ((A.trans .s2InvokeResponseWait A.failureIndication m).1 = .s2s1d ∨
    (A.trans .s2InvokeResponseWait A.failureIndication m).1 = .s2s2b) ∧
    (A.trans .s2InvokeResponseWait A.failureIndication m).2 =
      { m with retryCount := m.retryCount + 1 }
  /-- The number of retries decides. -/
  retries : ∀ m m', m'.retryCount = m.retryCount →
    (A.trans .s2InvokeResponseWait A.failureIndication m').1 =
      (A.trans .s2InvokeResponseWait A.failureIndication m).1
  /-- Contents that are cut into segments do not fit into one. -/
  segmenting : ∀ len, A.segmenting (len + maxFormattedDeliverArgLen) = true → segmentLen < len

theorem maxFormattedDeliverArgLen_le : maxFormattedDeliverArgLen ≤ maxIpmLenConnectionless := by
  decide

theorem deliver_lawful : deliver.Lawful where
  request _ := rfl
  result _ := rfl
  error m := by
    rcases hb : Mts.pS2S1b m <;> simp [deliver, Mts.deliverTrans, hb]
  failure m := by
    refine ⟨?_, rfl⟩
    rcases hb : (Mts.pS2S1d m).1 <;> simp [deliver, Mts.deliverTrans, hb]
  retries m m' h := by
    have hp : (Mts.pS2S1d m').1 = (Mts.pS2S1d m).1 := by
      unfold Mts.pS2S1d
      rw [h]
    simp only [deliver, Mts.deliverTrans, hp]
  segmenting len h := by
    have hlt : maxIpmLenConnectionless < len + maxFormattedDeliverArgLen ∧
        len + maxFormattedDeliverArgLen < minIpmLenConnectionOriented := by
      simpa [deliver, Mts.segmenting] using h
    have hle := maxFormattedDeliverArgLen_le
    unfold segmentLen
    omega

theorem submit_lawful : submit.Lawful where
  request _ := rfl
  result _ := rfl
  error m := by
    rcases hb : Ua.pS2S1b m <;> simp [submit, Ua.submitTrans, hb]
  failure m := by
    refine ⟨?_, rfl⟩
    rcases hb : (Ua.pS2S1d m).1 <;> simp [submit, Ua.submitTrans, hb]
  retries m m' h := by
    have hp : (Ua.pS2S1d m').1 = (Ua.pS2S1d m).1 := by
      unfold Ua.pS2S1d
      rw [h]
    simp only [submit, Ua.submitTrans, hp]
  segmenting len h := by
    have hlt : maxIpmLenConnectionless < len + maxFormattedDeliverArgLen := by
      simpa [submit, Ua.segmenting] using h
    have hle := maxFormattedDeliverArgLen_le
    unfold segmentLen
    omega

theorem Side.lawful : ∀ side : Side, side.agent.Lawful
  | .mts => deliver_lawful
  | .ua => submit_lawful

/-- PDU `k` is the current one. -/
structure AtSeg (full : Octets) (pdus : List Pdu) (k : Nat) (m : Sender) : Prop where
  current : ∃ pdu, pdus[k]? = some pdu ∧ m.hCurrentBuf = .formatted pdu
  next : m.nextSegmentNumber = k + 1
  last : m.lastSegmentNumber + 1 = pdus.length
  complete : m.bComplete = decide (k + 1 = pdus.length)
  /-- What is left of the contents. -/
  more : k + 1 < pdus.length → pdus = pdusOf m.sequenceId full ∧ m.segmentLength = segmentLen ∧
    m.hFullPduBuf.Located ∧ m.hFullPduBuf.rest = full.drop ((k + 1) * segmentLen)

/-- Where a sender is in the protocol, and what may still come. -/
inductive Inside (A : Agent) (full : Octets) (pdus : List Pdu) : SegState → Sending A → Prop
  | waits {k : Nat} {m : Sender} {n : Nat} : AtSeg full pdus k m →
    Inside A full pdus (.sent k) ⟨.s2InvokeResponseWait, some m, [], true, n⟩
  | refused {k : Nat} {m : Sender} {n : Nat} {events : List A.Event} : AtSeg full pdus k m →
    (∀ e ∈ events, e = A.errorIndication ∨ e = A.failureIndication) → events.length ≤ 1 →
    Inside A full pdus (.sent k) ⟨.s2InvokeResponseWait, some m, events, false, n⟩
  | answered {k : Nat} {m : Sender} {n : Nat} {events : List A.Event} : AtSeg full pdus k m →
    (∀ e ∈ events, e = A.resultIndication) → events.length ≤ 1 →
    Inside A full pdus (.ready (k + 1)) ⟨.s2InvokeResponseWait, some m, events, false, n⟩
  | broken {a : SegState} {m : Sender} {n : Nat} {events : List A.Event} :
    (∀ e ∈ events, e = A.failureIndication ∧
      (A.trans .s2InvokeResponseWait A.failureIndication m).1 = .s2s1d) → events.length ≤ 1 →
    Inside A full pdus a ⟨.s2InvokeResponseWait, some m, events, false, n⟩
  | ended {a : SegState} {st : SendState} {n : Nat} : Inside A full pdus a ⟨st, none, [], false, n⟩

/-! ## What an action leads to -/

section GoOn

variable {x : Option Sender} {n : Nat} {pdu : Pdu} {c : Call Sender} {a : SegState}

/-- The machine when an action of it runs. -/
abbrev running (A : Agent) (x : Option Sender) (n : Nat) : Sending A :=
  ⟨.s2InvokeResponseWait, x, [], false, n⟩

theorem marksOf_generateFailure : marksOf ((generateFailure env).map .send) = [] := by
  unfold generateFailure
  split <;> rfl

theorem goOn_failure : (running A x n).goOn (generateFailure env, some m) =
    (⟨.s2InvokeResponseWait, some m, if env.memGet then [A.failureIndication] else [], false, n⟩,
      (generateFailure env).map .send) := by
  unfold generateFailure
  rcases env.memGet <;> simp [Sending.goOn]

theorem goOn_refused {h : CurrentBuf} :
    (running A x n).goOn (.issueInvoke h :: generateFailure env, some m) =
    (⟨.s2InvokeResponseWait, some m, if env.memGet then [A.failureIndication] else [], false, n⟩,
      .send (.issueInvoke h) :: (generateFailure env).map .send) := by
  unfold generateFailure
  rcases env.memGet <;> simp [Sending.goOn]

theorem goOn_accepted {h : CurrentBuf} {id : InvokeId} :
    (running A x n).goOn ([.issueInvoke h, .invokeReq id h], some m) =
    (⟨.s2InvokeResponseWait, some m, [], true, n⟩,
      [.send (.issueInvoke h), .send (.invokeReq id h)]) := by
  simp [Sending.goOn]

theorem failures_length (A : Agent) :
    (if env.memGet then [A.failureIndication] else []).length ≤ 1 := by
  split <;> simp

/-- After a failed call, a machine that gives up does no more. -/
theorem inside_givesUp (hg : A.givesUp env m = true) : Inside A full pdus a
    ⟨.s2InvokeResponseWait, some m, if env.memGet then [A.failureIndication] else [], false, n⟩ := by
  refine .broken (fun e he => ?_) (failures_length A)
  split at he
  · rename_i hget
    simp only [Agent.givesUp, hget, Bool.not_true, Bool.false_or, decide_eq_true_eq] at hg
    exact ⟨List.mem_singleton.1 he, hg⟩
  · simp at he

theorem inside_broken (hg : A.givesUp env m = true) :
    Inside A full pdus a ((running A x n).goOn (generateFailure env, some m)).1 := by
  rw [goOn_failure]
  exact inside_givesUp hg

/-- An issued PDU is the current one. -/
theorem inside_issued (hm : c.2 = some m) (hat : AtSeg full pdus k m)
    (ho : (∃ id, c.1 = [.issueInvoke (.formatted pdu), .invokeReq id (.formatted pdu)]) ∨
      c.1 = .issueInvoke (.formatted pdu) :: generateFailure env) :
    Inside A full pdus (.sent k) ((running A x n).goOn c).1 ∧
      marksOf ((running A x n).goOn c).2 = [.issue (.formatted pdu)] := by
  obtain ⟨out, m'⟩ := c
  obtain rfl : m' = some m := hm
  obtain ⟨id, rfl⟩ | rfl := ho
  · rw [goOn_accepted]
    exact ⟨.waits hat, rfl⟩
  · rw [goOn_refused]
    refine ⟨.refused hat (fun e he => .inr ?_) (failures_length A), ?_⟩
    · split at he
      · exact List.mem_singleton.1 he
      · simp at he
    · exact congrArg (SendMark.issue _ :: ·) marksOf_generateFailure

end GoOn

/-! ## One step -/

section Steps

variable {x : Option Sender} {n : Nat} {st : SendState}

/-- The next portion of the contents is the next segment. -/
theorem AtSeg.portion (hat : AtSeg full pdus k m) (hk : k + 1 < pdus.length) :
    (m.hFullPduBuf.cloneBufferPortion m.segmentLength).1.flatten = chunk full (k + 1) := by
  obtain ⟨-, hlen, hloc, hrest⟩ := hat.more hk
  rw [Buf.cloneBufferPortion_octets hloc, hlen, hrest]
  rfl

/-- What is left after it. -/
theorem AtSeg.left (hat : AtSeg full pdus k m) (hk : k + 2 < pdus.length) :
    (m.hFullPduBuf.cloneBufferPortion m.segmentLength).2.rest =
      full.drop ((k + 2) * segmentLen) := by
  obtain ⟨hpdus, hlen, hloc, hrest⟩ := hat.more (by omega)
  rw [hpdus, pdusOf_length] at hk
  have hfull : (k + 2) * segmentLen ≤ full.length := lt_of_lt_numSegmentsOf hk
  have hmul : (k + 2) * segmentLen = (k + 1) * segmentLen + segmentLen := Nat.succ_mul _ _
  have hle : m.segmentLength ≤ m.hFullPduBuf.rest.length := by
    rw [hlen, hrest, List.length_drop]
    omega
  rw [Buf.cloneBufferPortion_rest hloc hle, hlen, hrest, List.drop_drop, hmul]

/-- The PDU that `aS2S2a` formats. -/
theorem AtSeg.nextPdu (hat : AtSeg full pdus k m) (hk : k + 1 < pdus.length) :
    pdus[k + 1]? = some ⟨some ⟨m.sequenceId, .other m.nextSegmentNumber⟩,
      (m.hFullPduBuf.cloneBufferPortion m.segmentLength).1.flatten⟩ := by
  have hpdus := (hat.more hk).1
  have hk' : k + 1 < numSegmentsOf full.length := by
    rw [hpdus, pdusOf_length] at hk
    exact hk
  rw [hat.portion hk, hat.next, ← infoOf_other m.sequenceId hk', ← pdusOf_get hk', ← hpdus]

/-- Once it is formatted, it is the current one. -/
theorem AtSeg.succ {pdu : Pdu} {info : Option SegmentInfo} (id : Option InvokeId)
    (hat : AtSeg full pdus k m) (hk : k + 1 < pdus.length) (hpdu : pdus[k + 1]? = some pdu) :
    AtSeg full pdus (k + 1) { m with
      segmentInfo := info
      nextSegmentNumber := m.nextSegmentNumber + 1
      hFullPduBuf := (m.hFullPduBuf.cloneBufferPortion m.segmentLength).2
      hCurrentBuf := .formatted pdu
      invokeId := id
      bComplete := m.bComplete || decide (m.nextSegmentNumber + 1 > m.lastSegmentNumber) } where
  current := ⟨pdu, hpdu, rfl⟩
  next := congrArg (· + 1) hat.next
  last := hat.last
  complete := by
    have hlast := hat.last
    have hnext := hat.next
    show (m.bComplete || decide (m.nextSegmentNumber + 1 > m.lastSegmentNumber)) = _
    rw [hat.complete, ← Bool.decide_or, decide_eq_decide]
    omega
  more := by
    intro hk2
    obtain ⟨hpdus, hlen, hloc, -⟩ := hat.more hk
    exact ⟨hpdus, hlen, Buf.cloneBufferPortion_located hloc, hat.left hk2⟩

/-- The sender when `aS2S2a` has cut the next portion off. -/
def atNext (m : Sender) : Sender :=
  { m with
    segmentInfo := some ⟨m.sequenceId, .other m.nextSegmentNumber⟩
    nextSegmentNumber := m.nextSegmentNumber + 1
    hFullPduBuf := (m.hFullPduBuf.cloneBufferPortion m.segmentLength).2 }

theorem sendNextSegment_eq {tree : Bool} (hclone : env.clone = true) :
    sendNextSegment tree env m =
      let c := orFailure env (formatAndInvoke tree env (atNext m)
        (m.hFullPduBuf.cloneBufferPortion m.segmentLength).1.flatten)
      (c.1, c.2.map fun m =>
        { m with bComplete := m.bComplete || m.nextSegmentNumber > m.lastSegmentNumber }) :=
  if_neg (by simp [hclone])

/-- When the PDU cannot be formatted, nothing is issued. -/
theorem sendNextSegment_fails {tree : Bool} (hclone : env.clone = true)
    (hf : env.formats tree = false) :
    ∃ m', sendNextSegment tree env m = (generateFailure env, some m') ∧
      m'.retryCount = m.retryCount := by
  obtain ⟨buf, hbuf⟩ := formatAndInvoke_fails (m := atNext m) hf
    (m.hFullPduBuf.cloneBufferPortion m.segmentLength).1.flatten
  rw [sendNextSegment_eq hclone, hbuf]
  exact ⟨_, rfl, rfl⟩

/-- When it can, it is issued. -/
theorem sendNextSegment_issues {tree : Bool} (hclone : env.clone = true)
    (hf : env.formats tree = true) (hat : AtSeg full pdus k m) (hk : k + 1 < pdus.length) :
    ∃ pdu m', pdus[k + 1]? = some pdu ∧ AtSeg full pdus (k + 1) m' ∧
      (sendNextSegment tree env m).2 = some m' ∧
      ((∃ id, (sendNextSegment tree env m).1 =
        [.issueInvoke (.formatted pdu), .invokeReq id (.formatted pdu)]) ∨
      (sendNextSegment tree env m).1 = .issueInvoke (.formatted pdu) :: generateFailure env) := by
  have hpdu := hat.nextPdu hk
  rw [sendNextSegment_eq hclone, formatAndInvoke_formats hf]
  obtain ⟨⟨id, hm⟩, ho⟩ := issued_of_formatted env (m := { atNext m with
    hCurrentBuf := .formatted ⟨(atNext m).segmentInfo,
      (m.hFullPduBuf.cloneBufferPortion m.segmentLength).1.flatten⟩ }) rfl
  exact ⟨_, _, hpdu, hat.succ id hk hpdu, (congrArg (Option.map _) hm).trans rfl, ho⟩

theorem Agent.Lawful.givesUp (hA : A.Lawful) (hg : A.givesUp env m = true)
    (h : m'.retryCount = m.retryCount) : A.givesUp env m' = true := by
  unfold Agent.givesUp at hg ⊢
  rw [hA.retries m m' h]
  exact hg

/-- **`aS2S2a`** issues the next segment, or the machine gives up. -/
theorem sendNextSegment_step (hat : AtSeg full pdus k m) (hk : k + 1 < pdus.length)
    (hok : A.nextOk env m = true) (hA : A.Lawful) :
    ∃ a, Inside A full pdus a ((running A x n).goOn (sendNextSegment (A.tree env) env m)).1 ∧
      Run.Trace (SegMove pdus) (.ready (k + 1))
        (marksOf ((running A x n).goOn (sendNextSegment (A.tree env) env m)).2) a := by
  simp only [Agent.nextOk, Bool.and_eq_true, Bool.or_eq_true] at hok
  obtain ⟨hclone, hok⟩ := hok
  rcases hf : env.formats (A.tree env) with _ | _
  · -- nothing is issued
    have hg : A.givesUp env m = true := by
      rcases hok with h | h
      · rw [hf] at h
        cases h
      · exact h
    obtain ⟨m', hcall, hretry⟩ := sendNextSegment_fails (m := m) hclone hf
    rw [hcall]
    refine ⟨.ready (k + 1), inside_broken (hA.givesUp hg hretry), ?_⟩
    rw [goOn_failure, marksOf_generateFailure]
    exact .refl
  · obtain ⟨pdu, m', hpdu, hat', hm', ho⟩ := sendNextSegment_issues hclone hf hat hk
    obtain ⟨hin, hmarks⟩ := inside_issued (A := A) (x := x) (n := n) hm' hat' ho
    refine ⟨_, hin, ?_⟩
    rw [hmarks]
    exact .single (.issue hpdu)

/-- **`aS2S2b`** issues the current PDU again. -/
theorem sendAgain_step (env : Env) (hat : AtSeg full pdus k m) :
    ∃ a, Inside A full pdus a ((running A x n).goOn (sendAgain env m)).1 ∧
      Run.Trace (SegMove pdus) (.sent k) (marksOf ((running A x n).goOn (sendAgain env m)).2) a := by
  obtain ⟨pdu, hpdu, hbuf⟩ := hat.current
  obtain ⟨⟨id, hm⟩, ho⟩ := issued_of_formatted env hbuf
  have hat' : AtSeg full pdus k { m with hCurrentBuf := .formatted pdu, invokeId := id } :=
    ⟨⟨pdu, hpdu, rfl⟩, hat.next, hat.last, hat.complete, hat.more⟩
  obtain ⟨hin, hmarks⟩ := inside_issued (A := A) (x := x) (n := n) hm hat' ho
  refine ⟨_, hin, ?_⟩
  rw [sendAgain, hmarks]
  exact .single (.again hpdu)

/-- The sender when `aS1S2a` has cut the first portion off. -/
def atFirst (sequenceId : Nat) (m : Sender) : Sender :=
  { beginSegments sequenceId m with
    hFullPduBuf := (m.hFullPduBuf.resetParse.cloneBufferPortion segmentLen).2 }

/-- The first PDU of a sequence. -/
def firstPdu (sequenceId : Nat) (m : Sender) : Pdu :=
  ⟨some ⟨sequenceId, .first (numSegmentsOf m.hFullPduBuf.getBufferLength)⟩,
    (m.hFullPduBuf.resetParse.cloneBufferPortion segmentLen).1.flatten⟩

/-- The sender with the whole contents in one piece. -/
def atWhole (m : Sender) : Sender := { m with lastSegmentNumber := 0, nextSegmentNumber := 1 }

section Start

variable {segmenting tooMany : Nat → Bool} {tree : Bool} {id : Option InvokeId}

theorem startSending_tooMany (tree : Bool) (sequenceId : Nat)
    (hseg : segmenting (m.hFullPduBuf.getBufferLength + maxFormattedDeliverArgLen) = true)
    (hmany : tooMany (numSegmentsOf m.hFullPduBuf.getBufferLength) = true) :
    ∃ m', (startSending segmenting tooMany tree env sequenceId m).2 =
        (generateFailure env, some m') ∧ m'.retryCount = m.retryCount := by
  unfold startSending
  rw [if_pos hseg, if_pos hmany]
  exact ⟨_, rfl, rfl⟩

theorem startSending_segments
    (hseg : segmenting (m.hFullPduBuf.getBufferLength + maxFormattedDeliverArgLen) = true)
    (hmany : tooMany (numSegmentsOf m.hFullPduBuf.getBufferLength) = false)
    (hclone : env.clone = true) :
    startSending segmenting tooMany tree env sequenceId m = ((sequenceId + 1) % 2 ^ 32,
      orFailure env (formatAndInvoke tree env (atFirst ((sequenceId + 1) % 2 ^ 32) m)
        (firstPdu ((sequenceId + 1) % 2 ^ 32) m).contents)) := by
  unfold startSending
  rw [if_pos hseg]
  refine (if_neg (by simp [hmany])).trans ?_
  exact if_neg (by simp [hclone])

/-- When the first PDU cannot be formatted, nothing is issued. -/
theorem startSending_fails (sequenceId : Nat)
    (hseg : segmenting (m.hFullPduBuf.getBufferLength + maxFormattedDeliverArgLen) = true)
    (hmany : tooMany (numSegmentsOf m.hFullPduBuf.getBufferLength) = false)
    (hf : (env.clone && env.formats tree) = false) :
    ∃ m', (startSending segmenting tooMany tree env sequenceId m).2 =
        (generateFailure env, some m') ∧ m'.retryCount = m.retryCount := by
  rcases hclone : env.clone with _ | _
  · unfold startSending
    rw [if_pos hseg, if_neg (by simp [hmany]), if_pos hclone]
    exact ⟨_, rfl, rfl⟩
  · rw [hclone, Bool.true_and] at hf
    rw [startSending_segments hseg hmany hclone]
    obtain ⟨buf, hbuf⟩ := formatAndInvoke_fails
      (m := atFirst ((sequenceId + 1) % 2 ^ 32) m) hf (firstPdu ((sequenceId + 1) % 2 ^ 32) m).contents
    rw [hbuf]
    exact ⟨_, rfl, rfl⟩

theorem startSending_whole
    (hseg : segmenting (m.hFullPduBuf.getBufferLength + maxFormattedDeliverArgLen) = false) :
    startSending segmenting tooMany tree env sequenceId m =
      let c := formatAndInvoke tree env (atWhole m) m.hFullPduBuf.octets
      (sequenceId, orFailure env
        (c.1, c.2.map fun r => ({ r.1 with bComplete := r.2 || r.1.bComplete }, r.2))) :=
  if_neg (by simp [hseg])

/-- The first PDU of a sequence, once it is formatted. -/
theorem atSeg_first (hlen : segmentLen < m.hFullPduBuf.octets.length)
    (hpdu : (pdusOf sequenceId m.hFullPduBuf.octets)[0]? = some (firstPdu sequenceId m))
    (hcomplete : m.bComplete = false) :
    AtSeg m.hFullPduBuf.octets (pdusOf sequenceId m.hFullPduBuf.octets) 0
      { atFirst sequenceId m with hCurrentBuf := .formatted (firstPdu sequenceId m), invokeId := id } where
  current := ⟨_, hpdu, rfl⟩
  next := rfl
  last := by
    have htwo := numSegmentsOf_of_lt hlen
    show numSegmentsOf m.hFullPduBuf.getBufferLength - 1 + 1 = _
    rw [pdusOf_length, Buf.getBufferLength_eq]
    omega
  complete := by
    have htwo := numSegmentsOf_of_lt hlen
    rw [pdusOf_length]
    exact hcomplete.trans (decide_eq_false (by omega)).symm
  more := by
    intro _
    have hloc := m.hFullPduBuf.resetParse_located
    refine ⟨rfl, rfl, Buf.cloneBufferPortion_located hloc, ?_⟩
    have hle : segmentLen ≤ m.hFullPduBuf.resetParse.rest.length := by
      rw [Buf.resetParse_rest]
      omega
    show (m.hFullPduBuf.resetParse.cloneBufferPortion segmentLen).2.rest = _
    rw [Buf.cloneBufferPortion_rest hloc hle, Buf.resetParse_rest, Nat.zero_add, Nat.one_mul]

theorem pdusOf_first (sequenceId : Nat) (hlen : segmentLen < m.hFullPduBuf.octets.length) :
    (pdusOf sequenceId m.hFullPduBuf.octets)[0]? = some (firstPdu sequenceId m) := by
  have htwo := numSegmentsOf_of_lt hlen
  have hchunk : chunk m.hFullPduBuf.octets 0 = (firstPdu sequenceId m).contents := by
    unfold firstPdu chunk
    rw [Buf.cloneBufferPortion_octets m.hFullPduBuf.resetParse_located, Buf.resetParse_rest,
      Nat.zero_mul, List.drop_zero]
  rw [pdusOf_get (by omega), infoOf_first sequenceId htwo, hchunk]
  unfold firstPdu
  rw [Buf.getBufferLength_eq]

/-- The whole contents, once ESROS has accepted them. -/
theorem atSeg_whole :
    AtSeg m.hFullPduBuf.octets (wholePdu m.hFullPduBuf.octets) 0 { atWhole m with
      hCurrentBuf := .formatted ⟨none, m.hFullPduBuf.octets⟩
      invokeId := id
      bComplete := true } where
  current := ⟨_, rfl, rfl⟩
  next := rfl
  last := rfl
  complete := rfl
  more := fun h => absurd h (by simp [wholePdu])

/-- The whole contents are issued. -/
theorem startSending_issues (hinfo : m.segmentInfo = none) (hf : env.formats tree = true)
    (hseg : segmenting (m.hFullPduBuf.getBufferLength + maxFormattedDeliverArgLen) = false) :
    (startSending segmenting tooMany tree env sequenceId m).2 =
      let c := issueInvoke env { atWhole m with
        hCurrentBuf := .formatted ⟨none, m.hFullPduBuf.octets⟩ }
      orFailure env
        (c.1, c.2.map fun r => ({ r.1 with bComplete := r.2 || r.1.bComplete }, r.2)) := by
  rw [startSending_whole hseg, formatAndInvoke_formats hf, ← hinfo]
  rfl

end Start

/-- The outcome of the first action: the protocol has been entered for some PDUs. -/
def Started (A : Agent) (full : Octets) (r : Sending A × List SendEvent) : Prop :=
  ∃ pdus a, Segmented full pdus ∧ Inside A full pdus a r.1 ∧
    Run.Trace (SegMove pdus) (.ready 0) (marksOf r.2) a

/-- A machine that gives up has entered it for the contents in one piece. -/
theorem started_broken (hg : A.givesUp env m = true) :
    Started A full ((running A x n).goOn (generateFailure env, some m)) := by
  refine ⟨wholePdu full, .ready 0, segmented_wholePdu, inside_broken hg, ?_⟩
  rw [goOn_failure, marksOf_generateFailure]
  exact .refl

theorem started_issued (env : Env) {pdu : Pdu} {c : Call Sender} (hseg : Segmented full pdus)
    (hpdu : pdus[0]? = some pdu) (hm : c.2 = some m) (hat : AtSeg full pdus 0 m)
    (ho : (∃ id, c.1 = [.issueInvoke (.formatted pdu), .invokeReq id (.formatted pdu)]) ∨
      c.1 = .issueInvoke (.formatted pdu) :: generateFailure env) :
    Started A full ((running A x n).goOn c) := by
  obtain ⟨hin, hmarks⟩ := inside_issued (A := A) (x := x) (n := n) hm hat ho
  refine ⟨pdus, _, hseg, hin, ?_⟩
  rw [hmarks]
  exact .single (.issue hpdu)

theorem started_refused {pdu : Pdu} (hseg : Segmented full pdus) (hpdu : pdus[0]? = some pdu)
    (hg : A.givesUp env m = true) : Started A full ((running A x n).goOn
      (.issueInvoke (.formatted pdu) :: generateFailure env, some m)) := by
  rw [goOn_refused]
  refine ⟨pdus, .sent 0, hseg, inside_givesUp hg, ?_⟩
  have hmarks : marksOf (.send (.issueInvoke (.formatted pdu)) ::
      (generateFailure env).map .send) = [.issue (.formatted pdu)] :=
    congrArg (SendMark.issue _ :: ·) marksOf_generateFailure
  rw [hmarks]
  exact .single (.issue hpdu)

/-- `aS1S2a` on contents that are cut into segments. -/
theorem started_segments (hA : A.Lawful) (hcomplete : m.bComplete = false)
    (hseg : A.segmenting (m.hFullPduBuf.getBufferLength + maxFormattedDeliverArgLen) = true)
    (hok : A.startOk env m = true) :
    Started A m.hFullPduBuf.octets ((running A x n).goOn
      (startSending A.segmenting A.tooMany (A.tree env) env sequenceId m).2) := by
  have hlen : segmentLen < m.hFullPduBuf.octets.length := by
    rw [← Buf.getBufferLength_eq]
    exact hA.segmenting _ hseg
  unfold Agent.startOk at hok
  rw [if_pos hseg] at hok
  rcases hmany : A.tooMany (numSegmentsOf m.hFullPduBuf.getBufferLength) with _ | _
  · rcases hf : env.clone && env.formats (A.tree env) with _ | _
    · -- nothing is issued
      have hg : A.givesUp env m = true := by
        rw [hmany, hf] at hok
        split at hok <;> simpa using hok
      obtain ⟨m', hcall, hretry⟩ := startSending_fails sequenceId hseg hmany hf
      rw [hcall]
      exact started_broken (hA.givesUp hg hretry)
    · have hmax : numSegmentsOf m.hFullPduBuf.octets.length ≤ maxSegments := by
        rw [← Buf.getBufferLength_eq]
        by_contra hgt
        rw [if_neg hgt, if_neg (by simp [hmany]), hf] at hok
        simp at hok
      rw [Bool.and_eq_true] at hf
      rw [startSending_segments hseg hmany hf.1, formatAndInvoke_formats hf.2]
      obtain ⟨⟨id, hm⟩, ho⟩ := issued_of_formatted env
        (m := { atFirst ((sequenceId + 1) % 2 ^ 32) m with
          hCurrentBuf := .formatted (firstPdu ((sequenceId + 1) % 2 ^ 32) m) }) rfl
      have hpdu := pdusOf_first ((sequenceId + 1) % 2 ^ 32) hlen
      exact started_issued env (segmented_pdusOf hlen hmax) hpdu hm
        (atSeg_first hlen hpdu hcomplete) ho
  · have hg : A.givesUp env m = true := by
      rw [if_pos hmany, hmany] at hok
      split at hok
      · simp at hok
      · exact hok
    obtain ⟨m', hcall, hretry⟩ := startSending_tooMany (A.tree env) sequenceId hseg hmany
    rw [hcall]
    exact started_broken (hA.givesUp hg hretry)

/-- `aS1S2a` on contents that go in one piece. -/
theorem started_whole (hA : A.Lawful) (hinfo : m.segmentInfo = none)
    (hseg : A.segmenting (m.hFullPduBuf.getBufferLength + maxFormattedDeliverArgLen) = false)
    (hok : A.startOk env m = true) :
    Started A m.hFullPduBuf.octets ((running A x n).goOn
      (startSending A.segmenting A.tooMany (A.tree env) env sequenceId m).2) := by
  unfold Agent.startOk at hok
  rw [if_neg (by simp [hseg])] at hok
  rcases hf : env.formats (A.tree env) with _ | _
  · have hg : A.givesUp env m = true := by simpa [hf] using hok
    obtain ⟨buf, hbuf⟩ := formatAndInvoke_fails (m := atWhole m) hf m.hFullPduBuf.octets
    rw [startSending_whole hseg, hbuf]
    exact started_broken (hA.givesUp hg rfl)
  · rw [startSending_issues hinfo hf hseg]
    rcases ha : env.accepts with _ | _
    · -- the machine gives up with the PDU refused
      have hg : A.givesUp env m = true := by simpa [hf, ha] using hok
      rw [issueInvoke_refused (m := { atWhole m with
        hCurrentBuf := .formatted ⟨none, m.hFullPduBuf.octets⟩ }) rfl ha]
      exact started_refused segmented_wholePdu rfl (hA.givesUp hg rfl)
    · obtain ⟨id, hid⟩ := issueInvoke_accepted (m := { atWhole m with
        hCurrentBuf := .formatted ⟨none, m.hFullPduBuf.octets⟩ }) rfl ha
      rw [hid]
      refine started_issued env segmented_wholePdu rfl rfl ?_ (.inl ⟨id, rfl⟩)
      exact atSeg_whole

/-! The branches of `FSM_runMachine`. -/

section RunMachine

variable {evt : A.Event} {events : List A.Event} {out : Bool} {tr : SendTrans}

theorem runMachine_ends (h : (A.trans st evt m).1 = tr)
    (htr : tr = .s2s1b ∨ tr = .s2s1c ∨ tr = .s2s1d) :
    Sending.runMachine ⟨st, x, events, out, n⟩ evt m env = (⟨.s1Idle, none, events, out, n⟩, []) := by
  unfold Sending.runMachine
  rcases htr with rfl | rfl | rfl <;> simp only [h] <;> rfl

theorem runMachine_success (h : A.trans st evt m = (.s2s1a, m')) :
    Sending.runMachine ⟨st, x, events, out, n⟩ evt m env =
      (⟨.s1Idle, none, events, out, n⟩, [.success]) := by
  unfold Sending.runMachine
  simp only [h]
  rfl

theorem runMachine_again (h : A.trans st evt m = (.s2s2b, m')) :
    Sending.runMachine ⟨st, x, [], false, n⟩ evt m env = (running A x n).goOn (sendAgain env m') := by
  unfold Sending.runMachine
  simp only [h]
  rfl

theorem runMachine_next (h : A.trans st evt m = (.s2s2a, m')) :
    Sending.runMachine ⟨st, x, [], false, n⟩ evt m env =
      (running A x n).goOn (sendNextSegment (A.tree env) env m') := by
  unfold Sending.runMachine
  simp only [h]
  rfl

theorem runMachine_start (env : Env) (h : A.trans st evt m = (.s1s2a, m')) :
    ∃ n', Sending.runMachine ⟨st, x, [], false, n⟩ evt m env = (running A x n').goOn
      (startSending A.segmenting A.tooMany (A.tree env) env n m').2 := by
  unfold Sending.runMachine
  simp only [h]
  exact ⟨_, rfl⟩

end RunMachine

end Steps

/-! ## Runs -/

section

variable {a : SegState} {o : List SendEvent} {evt : A.Event} {events : List A.Event} {n : Nat}

/-- An indication goes on in the protocol when it is the RESULT. -/
theorem inside_indication {oc : Outcome} {memGet : Bool} (hat : AtSeg full pdus k m) :
    ∃ a, Inside A full pdus a
        ⟨.s2InvokeResponseWait, some m, [] ++ if memGet then [A.event oc] else [], false, n⟩ ∧
      Run.Trace (SegMove pdus) (.sent k) (marksOf (if oc = .result then [.result] else [])) a := by
  have hevents : ∀ e ∈ [] ++ (if memGet then [A.event oc] else []), e = A.event oc := by
    intro e he
    split at he
    · simpa using he
    · simp at he
  have hlen : ([] ++ if memGet then [A.event oc] else []).length ≤ 1 := by
    split <;> simp
  cases oc with
  | result => exact ⟨.ready (k + 1), .answered hat hevents hlen, .single .result⟩
  | error => exact ⟨.sent k, .refused hat (fun e he => .inl (hevents e he)) hlen, .refl⟩
  | failure => exact ⟨.sent k, .refused hat (fun e he => .inr (hevents e he)) hlen, .refl⟩

/-- A machine that ends goes nowhere in the protocol. -/
theorem inside_ends {tr : SendTrans} (h : (A.trans .s2InvokeResponseWait evt m).1 = tr)
    (htr : tr = .s2s1b ∨ tr = .s2s1c ∨ tr = .s2s1d)
    (hs : Sending.runMachine ⟨.s2InvokeResponseWait, some m, [], false, n⟩ evt m env = (t, o)) :
    ∃ a', Inside A full pdus a' t ∧ Run.Trace (SegMove pdus) a (marksOf o) a' := by
  rw [runMachine_ends h htr] at hs
  obtain ⟨rfl, rfl⟩ := Prod.mk.inj hs
  exact ⟨a, .ended, .refl⟩

/-- A refused PDU: the machine ends, or the PDU is issued again. -/
theorem inside_refused (hA : A.Lawful) (hat : AtSeg full pdus k m)
    (hevt : evt = A.errorIndication ∨ evt = A.failureIndication)
    (hs : Sending.runMachine ⟨.s2InvokeResponseWait, some m, [], false, n⟩ evt m env = (t, o)) :
    ∃ a', Inside A full pdus a' t ∧ Run.Trace (SegMove pdus) (.sent k) (marksOf o) a' := by
  rcases hevt with rfl | rfl
  · rcases hA.error m with h | h
    · exact inside_ends h (.inl rfl) hs
    · exact inside_ends h (.inr (.inl rfl)) hs
  · obtain ⟨h, hm⟩ := hA.failure m
    rcases h with h | h
    · exact inside_ends h (.inr (.inr rfl)) hs
    · rw [runMachine_again (Prod.ext h hm)] at hs
      have hat' : AtSeg full pdus k { m with retryCount := m.retryCount + 1 } :=
        ⟨hat.current, hat.next, hat.last, hat.complete, hat.more⟩
      obtain ⟨a, hin, htrace⟩ := sendAgain_step (A := A) (x := some m) (n := n) env hat'
      rw [hs] at hin htrace
      exact ⟨a, hin, htrace⟩

/-- An answered PDU: the machine reports success, or goes on to the next one. -/
theorem inside_answered (hA : A.Lawful) (hat : AtSeg full pdus k m)
    (hok : OrderlySend ⟨.s2InvokeResponseWait, some m, [A.resultIndication], false, n⟩ (.schRun env))
    (hs : Sending.runMachine ⟨.s2InvokeResponseWait, some m, [], false, n⟩ A.resultIndication m env =
      (t, o)) :
    ∃ a', Inside A full pdus a' t ∧ Run.Trace (SegMove pdus) (.ready (k + 1)) (marksOf o) a' := by
  have htrans := hA.result m
  have hlt : k < pdus.length := by
    obtain ⟨pdu, hpdu, -⟩ := hat.current
    exact (List.getElem?_eq_some_iff.1 hpdu).1
  rcases hcomplete : m.bComplete with _ | _
  · rw [hcomplete, if_neg (by simp)] at htrans
    have hmore : k + 1 < pdus.length := by
      have hne : ¬k + 1 = pdus.length := by
        have h := hat.complete
        rw [hcomplete] at h
        exact of_decide_eq_false h.symm
      omega
    have hnext : A.nextOk env m = true := by
      unfold OrderlySend sendOk at hok
      simpa only [htrans] using hok
    rw [runMachine_next htrans] at hs
    obtain ⟨a, hin, htrace⟩ := sendNextSegment_step (x := some m) (n := n) hat hmore hnext hA
    rw [hs] at hin htrace
    exact ⟨a, hin, htrace⟩
  · -- the last PDU
    rw [hcomplete, if_pos rfl] at htrans
    have hlast : k + 1 = pdus.length := by
      have h := hat.complete
      rw [hcomplete] at h
      exact of_decide_eq_true h.symm
    rw [runMachine_success htrans] at hs
    obtain ⟨rfl, rfl⟩ := Prod.mk.inj hs
    refine ⟨.done, .ended, ?_⟩
    rw [hlast]
    exact .single .success

/-- **A step** inside the protocol is a few moves of it. -/
theorem inside_step {i : SendInput} (hA : A.Lawful) (hin : Inside A full pdus a s)
    (hok : OrderlySend s i) (hs : s.step i = some (t, o)) :
    ∃ a', Inside A full pdus a' t ∧ Run.Trace (SegMove pdus) a (marksOf o) a' := by
  obtain ⟨st, x, events, out, n⟩ := s
  rcases i with ⟨oc, memGet⟩ | env
  · -- ESROS gives the indication that it owes
    obtain ⟨hout, rfl, rfl⟩ : out = true ∧ t = _ ∧ o = _ := by
      simp only [Sending.step, Option.ite_none_right_eq_some] at hs
      obtain ⟨hout, hs⟩ := hs
      obtain ⟨ht, ho⟩ := Prod.mk.inj (Option.some.inj hs)
      exact ⟨hout, ht.symm, ho.symm⟩
    subst hout
    cases hin with
    | waits hat => exact inside_indication hat
  · rcases events with _ | ⟨evt, events⟩
    · obtain ⟨rfl, rfl⟩ := Prod.mk.inj (Option.some.inj hs)
      exact ⟨a, hin, .refl⟩
    · have hone : (evt :: events).length ≤ 1 → events = [] := by
        intro h
        simpa using h
      cases hin with
      | refused hat hevents hlen =>
        obtain rfl := hone hlen
        exact inside_refused hA hat (hevents evt List.mem_cons_self) (Option.some.inj hs)
      | answered hat hevents hlen =>
        obtain rfl := hone hlen
        obtain rfl := hevents evt List.mem_cons_self
        exact inside_answered hA hat hok (Option.some.inj hs)
      | broken hevents hlen =>
        obtain rfl := hone hlen
        obtain ⟨rfl, hends⟩ := hevents evt List.mem_cons_self
        exact inside_ends hends (.inr (.inr rfl)) (Option.some.inj hs)

end

/-- The request is yet to be handled. -/
def Fresh (A : Agent) (b : Buf) (s : Sending A) : Prop :=
  ∃ n, s = { sender := some { hFullPduBuf := b }, events := [A.messageRequest], sequenceId := n }

/-- A step of a fresh sender. -/
theorem fresh_step {i : SendInput} {o : List SendEvent} (hA : A.Lawful) (hf : Fresh A b s)
    (hok : OrderlySend s i) (hs : s.step i = some (t, o)) : Started A b.octets (t, o) := by
  obtain ⟨n, rfl⟩ := hf
  have htrans := hA.request { hFullPduBuf := b }
  rcases i with ⟨oc, memGet⟩ | env
  · simp [Sending.step] at hs
  · have hstart : A.startOk env { hFullPduBuf := b } = true := by
      unfold OrderlySend sendOk at hok
      simpa only [htrans] using hok
    obtain ⟨n', hrun⟩ := runMachine_start (A := A) (x := some { hFullPduBuf := b })
      (n := n) env htrans
    have hr : (t, o) = _ := (Option.some.inj hs).symm.trans hrun
    rw [hr]
    rcases hseg : A.segmenting (b.getBufferLength + maxFormattedDeliverArgLen) with _ | _
    · exact started_whole hA rfl hseg hstart
    · exact started_segments hA rfl hseg hstart

/-- The protocol has not been entered, or it has been followed so far. -/
def Follows (A : Agent) (b : Buf) (s : Sending A) (h : List SendEvent) : Prop :=
  (Fresh A b s ∧ h = []) ∨ ∃ pdus a, Segmented b.octets pdus ∧ Inside A b.octets pdus a s ∧
    Run.Trace (SegMove pdus) (.ready 0) (marksOf h) a

theorem Follows.step {i : SendInput} {o h : List SendEvent} (hA : A.Lawful) (hf : Follows A b s h)
    (hok : OrderlySend s i) (hs : s.step i = some (t, o)) : Follows A b t (h ++ o) := by
  rcases hf with ⟨hfresh, rfl⟩ | ⟨pdus, a, hseg, hin, htrace⟩
  · exact .inr (fresh_step hA hfresh hok hs)
  · obtain ⟨a', hin', htrace'⟩ := inside_step hA hin hok hs
    refine .inr ⟨pdus, a', hseg, hin', ?_⟩
    rw [marksOf_append]
    exact htrace.trans htrace'

/-- The first action, with the calls as `env` says, then the RESULT and the scheduler again. -/
def shortRun (env : Env) (oc : Outcome) : List SendInput :=
  [.schRun env, .indication oc true, .schRun {}]

/-- Contents that go in one piece. -/
def shortBuf : Buf := ⟨[[1, 2, 3]], 0, 0⟩

end Mtsua
