import Emsd.Proof.Step

/-!
# What the transitions preserve

Facts about every row of the transition tables, each from the specifications of the
actions: the owner and the role of an `InvokeInfo`, the reference tables, the reference
number and the address of the peer, whom the outputs are for, and the timers that may be
armed in a state (`row_tmrOk`).
-/

namespace Erop

open Ocp FunctionalUnit

variable {c : Ctx} {m : Machine} {s s' : State} {evt : Evt} {act : Machine → Machine × SuccFail}

/-! ## Owner and role -/

/-- The SAP, the role and the diagram of an `InvokeInfo` are set once. -/
structure SameOwner (v v' : InvokeInfo) : Prop where
  locSap : v'.locSap = v.locSap
  performing : v'.performingNotInvoking = v.performingNotInvoking
  transDiag : v'.transDiag = v.transDiag

theorem SameOwner.refl (v : InvokeInfo) : SameOwner v v := ⟨rfl, rfl, rfl⟩

theorem SameOwner.of_eq {v v' w : InvokeInfo} (h : v' = w) (hw : SameOwner v w) : SameOwner v v' :=
  h ▸ hw

theorem replyTimer_retran : ReplyTimer .resultPduRetranTimer (·.retransTimeout) :=
  ⟨by decide, fun _ _ _ _ => rfl⟩

theorem replyTimer_inactivity : ReplyTimer .inactivityTimer (·.inactivityDelay) :=
  ⟨by decide, fun _ _ _ _ => rfl⟩

theorem reply_owner {name : TmrName} {time : InvokeInfo → Int} (hn : ReplyTimer name time) :
    SameOwner m.invoke (performerResultReq name time c m).1.invoke := by
  rcases performerResultReq_spec hn c m with ⟨-, h⟩ | h | ⟨_, h, -⟩ <;>
    exact .of_eq h.invoke ⟨rfl, rfl, rfl⟩

theorem row_owner (h : Row c s evt act s') (hf : c.Fits evt) :
    SameOwner m.invoke (act m).1.invoke := by
  cases h with
  | invokeReq fu =>
    rcases invokerInvokeReq_spec c m with h | h | ⟨_, h, -⟩
    · rw [h]; exact .refl _
    · exact .of_eq h.invoke ⟨rfl, rfl, rfl⟩
    · exact .of_eq h.invoke ⟨rfl, rfl, rfl⟩
  | retran fu => exact .of_eq (invokerRetran_does hf).invoke (.refl _)
  | last fu => exact .of_eq (invokerLast_does hf).invoke ⟨rfl, rfl, rfl⟩
  | result => exact .of_eq (trClInvoker04_does hf).invoke ⟨rfl, rfl, rfl⟩
  | result2 => exact .of_eq (tr2ClInvoker04_does hf).invoke ⟨rfl, rfl, rfl⟩
  | failure fu => exact .of_eq (invokerFailure_does hf).invoke (.refl _)
  | holdOn => exact .refl _
  | dupResult => exact .of_eq (trClInvoker07_does hf).invoke (.refl _)
  | inactivity => exact .of_eq (trClInvoker10_does hf).invoke ⟨rfl, rfl, rfl⟩
  | lateResult => exact .of_eq (trClInvoker09_does hf).invoke (.refl _)
  | lateResult2 => exact .of_eq (tr2ClInvoker06_does hf).invoke (.refl _)
  | invokerRelease fu => exact .of_eq (scheduleRelease_does hf).invoke (.refl _)
  | invoke => exact .of_eq (trClPerformer01_does hf).invoke ⟨rfl, rfl, rfl⟩
  | invoke2 => exact .of_eq (tr2ClPerformer01_does hf).invoke ⟨rfl, rfl, rfl⟩
  | resultReq => exact reply_owner replyTimer_retran
  | resultReq2 => exact reply_owner replyTimer_inactivity
  | dupInvoke fu => exact .of_eq performerDropInvoke_does.invoke (.refl _)
  | noResponse fu => exact .of_eq performerNoResponse_does.invoke ⟨rfl, rfl, rfl⟩
  | internal fu => exact .of_eq performerNoResponse_does.invoke ⟨rfl, rfl, rfl⟩
  | ack =>
    refine .of_eq trClPerformer03_does.invoke ?_
    split <;> exact ⟨rfl, rfl, rfl⟩
  | resultRetran => exact .of_eq trClPerformer05_does.invoke (.refl _)
  | resultLast => exact .of_eq performerTransmissionFailure_does.invoke ⟨rfl, rfl, rfl⟩
  | resend fu => exact .of_eq performerResendResult_does.invoke (.refl _)
  | inactivity2 => exact .of_eq performerConfirm_does.invoke ⟨rfl, rfl, rfl⟩
  | lateInvoke fu => exact .of_eq (lateInvoke_does hf).invoke (.refl _)
  | lateAck => exact .of_eq (lateAck_does hf).invoke (.refl _)
  | performerRelease fu => exact .of_eq (scheduleRelease_does hf).invoke (.refl _)

/-- The diagram that a state belongs to. -/
def State.diag : State → TransDiag
  | clInvokerStart | invokePduSent | ackPduSent | invokerRefWait => .clInvoker
  | clPerformerStart | invokePduReceived | ackPduWait | performerRefWait => .clPerformer
  | cl2InvokerStart | invokePduSent2 | invokerRefWait2 => .cl2Invoker
  | cl2PerformerStart | invokePduReceived2 | resultPduRetrans2 | performerRefWait2 => .cl2Performer

theorem row_diag (h : Row c s evt act s') : s'.diag = s.diag := by
  cases h with
  | invokeReq fu | last fu | failure fu | invokerRelease fu | noResponse fu | internal fu
  | performerRelease fu => cases fu <;> rfl
  | _ => rfl

theorem TransDiag.state_diag (d : TransDiag) : d.state.diag = d := by cases d <;> rfl

/-! ## The reference tables -/

/-- Only a request or a reply changes the reference tables. -/
theorem row_refs (h : Row c s evt act s') (hf : c.Fits evt) (hreq : evt ≠ .invokeReq)
    (hrep : evt ≠ .resultReq) : (act m).1.refs = m.refs := by
  cases h with
  | invokeReq fu => exact absurd rfl hreq
  | resultReq | resultReq2 => exact absurd rfl hrep
  | retran fu => exact (invokerRetran_does hf).refs
  | last fu => exact (invokerLast_does hf).refs
  | result => exact (trClInvoker04_does hf).refs
  | result2 => exact (tr2ClInvoker04_does hf).refs
  | failure fu => exact (invokerFailure_does hf).refs
  | holdOn => rfl
  | dupResult => exact (trClInvoker07_does hf).refs
  | inactivity => exact (trClInvoker10_does hf).refs
  | lateResult => exact (trClInvoker09_does hf).refs
  | lateResult2 => exact (tr2ClInvoker06_does hf).refs
  | invokerRelease fu => exact (scheduleRelease_does hf).refs
  | invoke => exact (trClPerformer01_does hf).refs
  | invoke2 => exact (tr2ClPerformer01_does hf).refs
  | dupInvoke fu => exact performerDropInvoke_does.refs
  | noResponse fu | internal fu => exact performerNoResponse_does.refs
  | ack => exact trClPerformer03_does.refs
  | resultRetran => exact trClPerformer05_does.refs
  | resultLast => exact performerTransmissionFailure_does.refs
  | resend fu => exact performerResendResult_does.refs
  | inactivity2 => exact performerConfirm_does.refs
  | lateInvoke fu => exact (lateInvoke_does hf).refs
  | lateAck => exact (lateAck_does hf).refs
  | performerRelease fu => exact (scheduleRelease_does hf).refs

/-! ## Reference number and peer -/

/-- The reference number and the address of the peer stay the same. -/
structure SamePeer (v v' : InvokeInfo) : Prop where
  invokeRefNu : v'.invokeRefNu = v.invokeRefNu
  remNsapAddr : v'.remNsapAddr = v.remNsapAddr

theorem SamePeer.refl (v : InvokeInfo) : SamePeer v v := ⟨rfl, rfl⟩

theorem SamePeer.of_eq {v v' w : InvokeInfo} (h : v' = w) (hw : SamePeer v w) : SamePeer v v' :=
  h ▸ hw

/-- What an `InvokeInfo` keeps as long as it lives. -/
structure Kept (v v' : InvokeInfo) : Prop extends SameOwner v v', SamePeer v v'

/-- The PDU that a machine runs on is one for its own reference number and peer, as far as the
actions copy these from the PDU. -/
structure PduForPeer (c : Ctx) (evt : Evt) (v : InvokeInfo) : Prop where
  invokeRefNu : evt = .pduResult ∨ evt = .pduInvoke → c.pdu.invokeRefNu = v.invokeRefNu
  fromNsapAddr : evt = .pduInvoke → c.pdu.fromNsapAddr = v.remNsapAddr

theorem reply_peer {name : TmrName} {time : InvokeInfo → Int} (hn : ReplyTimer name time) :
    SamePeer m.invoke (performerResultReq name time c m).1.invoke := by
  rcases performerResultReq_spec hn c m with ⟨-, h⟩ | h | ⟨_, h, -⟩ <;>
    exact .of_eq h.invoke ⟨rfl, rfl⟩

theorem row_peer (h : Row c s evt act s') (hf : c.Fits evt) (hreq : evt ≠ .invokeReq)
    (hp : PduForPeer c evt m.invoke) : SamePeer m.invoke (act m).1.invoke := by
  cases h with
  | invokeReq fu => exact absurd rfl hreq
  | retran fu => exact .of_eq (invokerRetran_does hf).invoke (.refl _)
  | last fu => exact .of_eq (invokerLast_does hf).invoke ⟨rfl, rfl⟩
  | result => exact .of_eq (trClInvoker04_does hf).invoke ⟨hp.invokeRefNu (.inl rfl), rfl⟩
  | result2 => exact .of_eq (tr2ClInvoker04_does hf).invoke ⟨hp.invokeRefNu (.inl rfl), rfl⟩
  | failure fu => exact .of_eq (invokerFailure_does hf).invoke (.refl _)
  | holdOn => exact .refl _
  | dupResult => exact .of_eq (trClInvoker07_does hf).invoke (.refl _)
  | inactivity => exact .of_eq (trClInvoker10_does hf).invoke ⟨rfl, rfl⟩
  | lateResult => exact .of_eq (trClInvoker09_does hf).invoke (.refl _)
  | lateResult2 => exact .of_eq (tr2ClInvoker06_does hf).invoke (.refl _)
  | invokerRelease fu => exact .of_eq (scheduleRelease_does hf).invoke (.refl _)
  | invoke =>
    exact .of_eq (trClPerformer01_does hf).invoke
      ⟨hp.invokeRefNu (.inr rfl), hp.fromNsapAddr rfl⟩
  | invoke2 =>
    exact .of_eq (tr2ClPerformer01_does hf).invoke
      ⟨hp.invokeRefNu (.inr rfl), hp.fromNsapAddr rfl⟩
  | resultReq => exact reply_peer replyTimer_retran
  | resultReq2 => exact reply_peer replyTimer_inactivity
  | dupInvoke fu => exact .of_eq performerDropInvoke_does.invoke (.refl _)
  | noResponse fu => exact .of_eq performerNoResponse_does.invoke ⟨rfl, rfl⟩
  | internal fu => exact .of_eq performerNoResponse_does.invoke ⟨rfl, rfl⟩
  | ack =>
    refine .of_eq trClPerformer03_does.invoke ?_
    split <;> exact ⟨rfl, rfl⟩
  | resultRetran => exact .of_eq trClPerformer05_does.invoke (.refl _)
  | resultLast => exact .of_eq performerTransmissionFailure_does.invoke ⟨rfl, rfl⟩
  | resend fu => exact .of_eq performerResendResult_does.invoke (.refl _)
  | inactivity2 => exact .of_eq performerConfirm_does.invoke ⟨rfl, rfl⟩
  | lateInvoke fu => exact .of_eq (lateInvoke_does hf).invoke (.refl _)
  | lateAck => exact .of_eq (lateAck_does hf).invoke (.refl _)
  | performerRelease fu => exact .of_eq (scheduleRelease_does hf).invoke (.refl _)

/-! ## Timers -/

/-- The timers that can be armed in a state, where the state bounds them: at most one, of one of
these names. While a reply is under way there may be several. -/
def tmrNames : State → Option (List TmrName)
  | .clInvokerStart | .cl2InvokerStart | .clPerformerStart | .cl2PerformerStart => some []
  | .invokePduSent | .invokePduSent2 => some [.invokePduRetranTimer, .lastTimer]
  | .ackPduSent => some [.inactivityTimer]
  | .invokerRefWait | .invokerRefWait2 | .performerRefWait | .performerRefWait2 =>
    some [.refNuTimer]
  | .invokePduReceived | .invokePduReceived2 => some [.perfNoResponseTimer]
  | .ackPduWait | .resultPduRetrans2 => none

/-- At most one timer, of one of the given names. -/
def AtMostOne (names : List TmrName) (q : List TmrData) : Prop :=
  q = [] ∨ ∃ td, q = [td] ∧ td.name ∈ names

/-- The armed timers suit the state. -/
def TmrOk (s : State) (q : List TmrData) : Prop :=
  ∀ names, tmrNames s = some names → AtMostOne names q

theorem AtMostOne.nil {names : List TmrName} : AtMostOne names [] := .inl rfl

theorem TmrOk.nil {s : State} : TmrOk s [] := fun _ _ => .nil

theorem armed_atMostOne {names : List TmrName} {n : TmrName} {t d : Int} (hn : n ∈ names) :
    AtMostOne names (armed c n t d) := by
  unfold armed
  split
  · exact .inr ⟨_, rfl, hn⟩
  · exact .nil

/-- Cancelling the only timer that can be armed leaves none. -/
theorem AtMostOne.filter {n : TmrName} {q : List TmrData} (h : AtMostOne [n] q) :
    q.filter (·.name ≠ n) = [] := by
  rcases h with rfl | ⟨td, rfl, hn⟩
  · rfl
  · simp [List.mem_singleton.1 hn]

/-- What the timers are when a machine runs: those of its state, less the one that has expired. -/
structure TmrBefore (s : State) (evt : Evt) (q : List TmrData) : Prop where
  ok : TmrOk s q
  expired : evt.isTimer = true → ∀ names, tmrNames s = some names → q = []

/-- **Timers and states.** A row takes the timers of its state to timers of the next state. -/
theorem row_tmrOk (h : Row c s evt act s') (hf : c.Fits evt) (hq : TmrBefore s evt m.tmrQu) :
    TmrOk s' (act m).1.tmrQu := by
  have hcancel : ∀ n, tmrNames s = some [n] → m.tmrQu.filter (·.name ≠ n) = [] :=
    fun n hn => (hq.ok _ hn).filter
  cases h with
  | invokeReq fu =>
    have h0 : m.tmrQu = [] := by
      have := hq.ok [] (by cases fu <;> rfl)
      simpa [AtMostOne] using this
    intro names hn
    have hmem : .invokePduRetranTimer ∈ names := by cases fu <;> cases hn <;> simp
    rcases invokerInvokeReq_spec c m with h | h | ⟨_, h, -⟩
    · rw [h, h0]; exact .nil
    · rw [h.tmrQu, h0, List.nil_append]; exact armed_atMostOne hmem
    · rw [h.tmrQu, h0]; exact .nil
  | retran fu =>
    have h0 : m.tmrQu = [] := hq.expired rfl _ (by cases fu <;> rfl)
    intro names hn
    rw [(invokerRetran_does hf).tmrQu, h0, List.nil_append]
    split <;> exact armed_atMostOne (by cases fu <;> cases hn <;> simp)
  | last fu =>
    have h0 : m.tmrQu = [] := hq.expired rfl _ (by cases fu <;> rfl)
    intro names hn
    rw [(invokerLast_does hf).tmrQu, h0, List.nil_append]
    exact armed_atMostOne (by cases fu <;> cases hn <;> simp)
  | result =>
    intro names hn
    rw [(trClInvoker04_does hf).tmrQu]
    split
    · exact armed_atMostOne (by cases hn; simp)
    · exact .nil
  | result2 =>
    intro names hn
    rw [(tr2ClInvoker04_does hf).tmrQu]
    split
    · exact armed_atMostOne (by cases hn; simp)
    · exact .nil
  | failure fu =>
    intro names hn
    rw [(invokerFailure_does hf).tmrQu]
    exact armed_atMostOne (by cases fu <;> cases hn <;> simp)
  | holdOn => exact hq.ok
  | dupResult =>
    intro names hn
    rw [(trClInvoker07_does hf).tmrQu, hcancel _ rfl, List.nil_append]
    exact armed_atMostOne (by cases hn; simp)
  | inactivity =>
    intro names hn
    rw [(trClInvoker10_does hf).tmrQu]
    exact armed_atMostOne (by cases hn; simp)
  | lateResult =>
    intro names hn
    rw [(trClInvoker09_does hf).tmrQu, hcancel _ rfl, List.nil_append]
    exact armed_atMostOne (by cases hn; simp)
  | lateResult2 =>
    intro names hn
    rw [(tr2ClInvoker06_does hf).tmrQu]
    exact armed_atMostOne (by cases hn; simp)
  | invokerRelease fu =>
    have h0 : m.tmrQu = [] := hq.expired rfl _ (by cases fu <;> rfl)
    rw [(scheduleRelease_does hf).tmrQu, h0]; exact .nil
  | invoke =>
    have h0 : m.tmrQu = [] := by simpa [AtMostOne] using hq.ok [] rfl
    intro names hn
    rw [(trClPerformer01_does hf).tmrQu, h0, List.nil_append]
    split
    · exact armed_atMostOne (by cases hn; simp)
    · exact .nil
  | invoke2 =>
    have h0 : m.tmrQu = [] := by simpa [AtMostOne] using hq.ok [] rfl
    intro names hn
    rw [(tr2ClPerformer01_does hf).tmrQu, h0, List.nil_append]
    split
    · exact armed_atMostOne (by cases hn; simp)
    · exact .nil
  | resultReq | resultReq2 | resultRetran => intro names hn; cases hn
  | dupInvoke fu => rw [performerDropInvoke_does.tmrQu]; exact hq.ok
  | noResponse fu | internal fu => rw [performerNoResponse_does.tmrQu]; exact .nil
  | ack =>
    intro names hn
    rw [trClPerformer03_does.tmrQu]
    exact armed_atMostOne (by cases hn; simp)
  | resultLast =>
    intro names hn
    rw [performerTransmissionFailure_does.tmrQu]
    exact armed_atMostOne (by cases hn; simp)
  | resend fu => intro names hn; cases fu <;> cases hn
  | inactivity2 =>
    intro names hn
    rw [performerConfirm_does.tmrQu]
    exact armed_atMostOne (by cases hn; simp)
  | lateInvoke fu =>
    intro names hn
    have hn' : tmrNames (performerRefWait fu) = some [.refNuTimer] := by cases fu <;> rfl
    rw [(lateInvoke_does hf).tmrQu, hcancel _ hn', List.nil_append]
    exact armed_atMostOne (by rw [hn'] at hn; cases hn; simp)
  | lateAck =>
    intro names hn
    rw [(lateAck_does hf).tmrQu, hcancel _ rfl, List.nil_append]
    exact armed_atMostOne (by cases hn; simp)
  | performerRelease fu =>
    have h0 : m.tmrQu = [] := hq.expired rfl _ (by cases fu <;> rfl)
    rw [(scheduleRelease_does hf).tmrQu, h0]; exact .nil

end Erop
