import Emsd.Mts.Turns

/-!
# ERROR.indications of deliveries

A Deliver machine is to respool its message after a transient error, and to report any other error.
The error comes with the indication: as the error value of ESROS, and in an `EMSD_ErrorRequest` that
`mts_preprocessErrorIndication` parses. Neither is given to the operation.

* `hOperationData_none`: no delivery ever has the data of an error request.
* `errorIndication_handled_iff`: **an ERROR.indication is handled as it should be exactly when its
  error is not the transient one**, and the machine still waits for the response.
* `transient_reported`: a transient error loses the message.
-/

namespace Mtsua

open Ocp

variable {m : Sender} {c : Call (Sender × Bool)} {env : Env} {tree : Bool}

/-- The call leaves `hOperationData` as it was. -/
def KeepsData (m : Sender) (c : Call Sender) : Prop :=
  ∀ m', c.2 = some m' → m'.hOperationData = m.hOperationData

theorem orFailure_keepsData (h : ∀ m' ok, c.2 = some (m', ok) →
    m'.hOperationData = m.hOperationData) : KeepsData m (orFailure env c) := by
  intro m' hm'
  obtain ⟨⟨m₁, ok⟩, hc, rfl⟩ := Option.map_eq_some_iff.1 hm'
  exact h m₁ ok hc

theorem issueInvoke_data {m' : Sender} {ok : Bool}
    (h : (issueInvoke env m).2 = some (m', ok)) : m'.hOperationData = m.hOperationData := by
  unfold issueInvoke at h
  split at h
  · cases h
  split at h
  · cases h
    rfl
  split at h
  · cases h
  split at h
  · cases h
    rfl
  · cases h
    rfl

theorem formatAndInvoke_data {hContents : Octets} {m' : Sender} {ok : Bool}
    (h : (formatAndInvoke tree env m hContents).2 = some (m', ok)) :
    m'.hOperationData = m.hOperationData := by
  unfold formatAndInvoke at h
  split at h
  · cases h
    rfl
  split at h
  · cases h
    rfl
  split at h
  · cases h
    rfl
  · have hd := issueInvoke_data h
    exact hd

theorem startSending_keepsData (segmenting tooMany : Nat → Bool) (sequenceId : Nat) :
    KeepsData m (startSending segmenting tooMany tree env sequenceId m).2 := by
  unfold startSending
  simp only
  split
  · split
    · intro m' hm'
      cases hm'
      rfl
    split
    · intro m' hm'
      cases hm'
      rfl
    · -- the fields that `beginSegments` sets are those of the sequence
      exact orFailure_keepsData fun m' ok h => (formatAndInvoke_data h :)
  · refine orFailure_keepsData fun m' ok h => ?_
    obtain ⟨⟨m₁, ok₁⟩, h₁, he⟩ := Option.map_eq_some_iff.1 h
    cases he
    have hd := formatAndInvoke_data h₁
    exact hd

theorem sendNextSegment_keepsData : KeepsData m (sendNextSegment tree env m) := by
  unfold sendNextSegment
  simp only
  split
  · intro m' hm'
    cases hm'
  · intro m' hm'
    obtain ⟨m₁, hm₁, rfl⟩ := Option.map_eq_some_iff.1 hm'
    have hd := orFailure_keepsData (fun m' ok h => formatAndInvoke_data h) m₁ hm₁
    exact hd

theorem sendAgain_keepsData : KeepsData m (sendAgain env m) :=
  orFailure_keepsData fun _ _ h => issueInvoke_data h

end Mtsua

namespace Mts

open Mtsua

/-- An ERROR.indication of ESROS, without its invoke identifier. -/
structure ErrorIndication where
  errorValue : Nat
  /-- The parameter: the error of the `EMSD_ErrorRequest` in it, `none` where it cannot be copied or
  parsed. -/
  hView : Option (Option Nat) := none
  deriving DecidableEq, Repr

/-- The error: that of the parameter, and the value of ESROS where there is none. -/
def ErrorIndication.error (ind : ErrorIndication) : Nat := ind.hView.join.getD ind.errorValue

/-- `mts_preprocessErrorIndication`: the request that it has parsed goes on the user-free list of the
operation. A request that cannot be parsed is freed here, and once more with the operation. -/
def mtsPreprocessErrorIndication (op : Operation) (request : Option Nat) : Operation × Bool :=
  match request with
  | none => (op, false)
  -- unlike after a RESULT.indication, the operation is not given its data
  | some _ => (op, true)

namespace Server

/-- `mts_errorIndication`. A failure of the pre-processing is only traced. -/
def mtsErrorIndication (e : Server) (invokeId : InvokeId) (ind : ErrorIndication) (memGet : Bool) :
    Server :=
  match e.activeOperations.find? fun i =>
      (e.ops i).any fun op => decide (op.sender.invokeId = some invokeId) with
  | none => e
  | some i =>
    match e.ops i with
    | none => e
    | some op =>
      let op := match ind.hView with
        | none => op
        | some request => (mtsPreprocessErrorIndication op request).1
      let e := e.setOp i op
      match op.fsms.getLast? with
      | none => e
      | some m => e.generateEvent m .errorIndication memGet

variable {cfg : Config} {e e' e₁ : Server} {i : OpId} {op : Operation} {m : FsmId} {out : List Out}

theorem preprocess_fst (ind : ErrorIndication) :
    (match ind.hView with
      | none => op
      | some request => (mtsPreprocessErrorIndication op request).1) = op := by
  cases ind.hView with
  | none => rfl
  | some request =>
    cases request with
    | none => rfl
    | some _ => rfl

theorem setOp_self (h : e.ops i = some op) : e.setOp i op = e := by
  unfold setOp
  rw [← h, Function.update_eq_self]

/-- An ERROR.indication is the event, whatever its error. -/
theorem mtsErrorIndication_eq (e : Server) (invokeId : InvokeId) (ind : ErrorIndication)
    (memGet : Bool) : e.mtsErrorIndication invokeId ind memGet =
      e.indication invokeId .errorIndication memGet := by
  unfold mtsErrorIndication indication findOperationByInvokeId
  rw [List.find?_filterMap]
  cases hf : e.activeOperations.find? fun i =>
      (e.ops i).any fun op => decide (op.sender.invokeId = some invokeId) with
  | none => rfl
  | some i =>
    cases hop : e.ops i with
    | none => simp [hop]
    | some op =>
      -- the event goes to the machine on top of the operation's machines
      cases hlast : op.fsms.getLast? <;>
        simp only [hop, hlast, preprocess_fst, setOp_self hop, Option.bind_some]

/-- No operation has the data of an error request. -/
def Blank (e : Server) : Prop := ∀ i op, e.ops i = some op → op.sender.hOperationData = none

theorem Blank.of_ops (hb : e.Blank) (h : e'.ops = e.ops) : e'.Blank := fun i op hop =>
  hb i op (h ▸ hop)

theorem Blank.update {o : Option Operation} (hb : e.Blank)
    (ho : ∀ op, o = some op → op.sender.hOperationData = none)
    (h : e'.ops = Function.update e.ops i o) : e'.Blank := by
  intro j op hop
  rw [h] at hop
  by_cases hj : j = i
  · subst hj
    rw [Function.update_self] at hop
    exact ho op hop
  · rw [Function.update_of_ne hj] at hop
    exact hb j op hop

/-- A freed operation leaves no data. -/
theorem Blank.freed (hb : e.Blank) (h : e'.ops = Function.update e.ops i none) : e'.Blank := by
  refine hb.update (i := i) (o := none) (fun op hop => ?_) h
  cases hop

theorem generateEvent_ops {evt : FsmEvent} {memGet : Bool} :
    (e.generateEvent m evt memGet).ops = e.ops := by
  unfold generateEvent
  split <;> rfl

theorem indication_ops {invokeId : InvokeId} {evt : FsmEvent} {memGet : Bool} :
    (e.indication invokeId evt memGet).ops = e.ops := by
  unfold indication
  split
  · rfl
  split
  · rfl
  · exact generateEvent_ops

theorem beginDelivery_blank {t : Try} {p : MsgId} {begun : Bool} (hb : e.Blank)
    (h : beginDelivery e t p i = some (e', begun)) : e'.Blank := by
  simp only [beginDelivery, Option.bind_eq_bind, Option.bind_eq_some_iff] at h
  obtain ⟨op, hop, d, -, q, -, h⟩ := h
  cases hpdu : t.pdu with
  | none =>
    simp only [hpdu, Option.bind_eq_some_iff, Option.some.injEq, Prod.mk.injEq] at h
    obtain ⟨store, -, rfl, -⟩ := h
    exact hb.freed rfl
  | some hFullPduBuf =>
    simp only [hpdu, Option.some.injEq, Prod.mk.injEq] at h
    obtain ⟨rfl, -⟩ := h
    refine Blank.of_ops ?_ generateEvent_ops
    refine hb.update (i := i) (fun op' hop' => ?_) rfl
    -- the operation keeps its data, which is what it had before
    obtain rfl := Option.some.inj hop'
    exact hb i op hop

theorem tryTurn_blank {t : Try} {pOperation next : Option OpId} (hb : e.Blank)
    (h : tryTurn t pOperation e = some (e', out, next)) : e'.Blank := by
  simp only [tryTurn, Option.bind_eq_bind, Option.bind_eq_some_iff, Prod.exists] at h
  obtain ⟨pMsg, store, out₀, -, h⟩ := h
  cases pMsg with
  | none =>
    obtain ⟨rfl, rfl, rfl⟩ := by simpa using h
    exact hb.of_ops rfl
  | some p =>
    simp only [Option.bind_eq_some_iff, Prod.exists, Option.some.injEq, Prod.mk.injEq] at h
    obtain ⟨i, -, e₁, begun, h, rfl, rfl, -⟩ := h
    refine beginDelivery_blank ?_ h
    cases t.alloc with
    | true =>
      refine hb.update (i := e.nextOp) (fun op hop => ?_) rfl
      obtain rfl := Option.some.inj hop
      rfl
    | false => exact hb.of_ops rfl

theorem goOn_blank {c : Call Sender} (hb : e.Blank) (hop : op.sender.hOperationData = none)
    (hc : KeepsData op.sender c) (h : goOn e m i op c = some (e', out)) : e'.Blank := by
  simp only [goOn, Option.bind_eq_bind, Option.bind_eq_some_iff, Option.some.injEq,
    Prod.mk.injEq] at h
  obtain ⟨sender, hs, rfl, rfl⟩ := h
  refine hb.update (i := i) (fun op' hop' => ?_) rfl
  obtain rfl := Option.some.inj hop'
  exact (hc sender hs).trans hop

theorem action_blank {t : DeliverTrans} {env : Env} {now : Time} (hb : e.Blank)
    (hop : op.sender.hOperationData = none)
    (h : action cfg t env now e m i op = some (e', out)) : e'.Blank := by
  cases t with
  | s1s2a =>
    simp only [action, Option.bind_eq_bind, Option.bind_eq_some_iff] at h
    obtain ⟨d, -, q, -, h⟩ := h
    have hkeep : KeepsData op.sender (aS1S2a env e.sequenceId op.sender).2 :=
      startSending_keepsData segmenting _ e.sequenceId
    have hb' : ({ e with sequenceId := (aS1S2a env e.sequenceId op.sender).1 } : Server).Blank :=
      hb.of_ops rfl
    have hop' : ({ op with service := some (deliverService q.deviceProfile) } :
        Operation).sender.hOperationData = none := hop
    exact goOn_blank hb' hop' hkeep h
  | s2s2a => exact goOn_blank hb hop sendNextSegment_keepsData h
  | s2s2b => exact goOn_blank hb hop sendAgain_keepsData h
  -- the other actions free the operation
  | s2s1a =>
    simp only [action, Option.bind_eq_bind, Option.bind_eq_some_iff, Option.some.injEq,
      Prod.mk.injEq, Prod.exists] at h
    obtain ⟨store, set, -, rfl, rfl⟩ := h
    exact hb.freed rfl
  | s2s1b | s2s1d =>
    simp only [action, Option.bind_eq_bind, Option.bind_eq_some_iff, Option.some.injEq,
      Prod.mk.injEq] at h
    obtain ⟨store, -, rfl, rfl⟩ := h
    exact hb.freed rfl
  | s2s1c =>
    simp only [action, Option.bind_eq_bind, Option.bind_eq_some_iff, Option.some.injEq,
      Prod.mk.injEq] at h
    obtain ⟨d, -, store, -, rfl, rfl⟩ := h
    exact hb.freed rfl
  | unexpected =>
    cases h
    exact hb.freed rfl

theorem deliverTrans_data (s : DeliverState) (evt : FsmEvent) (m : Sender) :
    (deliverTrans s evt m).2.hOperationData = m.hOperationData := by
  unfold deliverTrans
  split <;> rfl

theorem step_blank {input : Input} (hb : e.Blank) (h : Server.step cfg e input = some (e', out)) :
    e'.Blank := by
  cases input with
  | addMessage pMsgId pOriginator recips =>
    obtain ⟨store, -, he⟩ := Option.map_eq_some_iff.1 h
    cases he
    exact hb.of_ops rfl
  | tryDelivery tries =>
    have hok : turnsOk (fun _ _ => true) tries none e = true := turnsOk_true fun _ _ => rfl
    exact mtsTryDelivery_invariant (P := fun e _ => e.Blank) (h := [])
      (fun e t pOperation e' out next _ hb _ ht => tryTurn_blank hb ht) hb hok h
  | resultIndication _ _ | errorIndication _ _ | failureIndication _ _ =>
    cases h
    exact hb.of_ops indication_ops
  | deliverNow _ _ | dumpQueue =>
    cases h
    exact hb.of_ops rfl
  | schRun env now =>
    rcases runTask_inv h with ⟨-, hops, -⟩ | ⟨m, evt, fsm, op, -, -, hop, u, ha, -, hops, -⟩
    · exact hb.of_ops hops
    · have hb' : ({ e with schQu := e.schQu.tail } : Server).Blank := hb.of_ops rfl
      have hdata := (deliverTrans_data fsm.curState evt op.sender).trans (hb _ op hop)
      have hu := action_blank hb' (by exact hdata) ha
      exact hu.of_ops hops

/-- **No delivery has the data of an error request**, in any state. -/
theorem hOperationData_none {h : List Out} (hr : Run.Reach (server cfg) Run.any h e) : e.Blank := by
  refine hr.invariant (fun e he => ?_) fun _ _ _ _ hb _ hs => step_blank hb hs
  cases he
  intro i op hop
  cases hop

end Server

section Errors

variable (cfg : Config) (e e' : Server) (p : MsgId) (now : Time) (out : List Out)

/-- The message is respooled for a later attempt. -/
def Respooled : Prop := Server.deliveryRespool cfg e.store p now = some e'.store ∧ out = []

/-- A non-delivery report is created and the message deleted. -/
def Reported : Prop := ∃ d error, e.store.heap p = some d ∧
  out = [.nonDel (mtsDeliveryNonDel p d error)] ∧ msgDeleteMessage e.store p now = some e'.store

/-- What is to follow an ERROR.indication. -/
def Handled (ind : ErrorIndication) : Prop :=
  if ind.error = resourceError then Respooled cfg e e' p now out else Reported e e' p now out

end Errors

variable {cfg : Config} {e e' : Server} {p : MsgId} {now : Time} {out : List Out}

theorem not_respooled_of_reported (h : Reported e e' p now out) :
    ¬ Respooled cfg e e' p now out := by
  obtain ⟨d, error, -, hout, -⟩ := h
  rintro ⟨-, hnil⟩
  rw [hout] at hnil
  cases hnil

/-- Respooling counts the failure of the message. -/
theorem deliveryRespool_ne {s : Store} : Server.deliveryRespool cfg s p now ≠ some s := by
  intro h
  obtain ⟨d, q, delay, -, hw⟩ := deliveryRespool_inv h
  have hd := (hw.heap_eq (r := p)).symm.trans hw.heap
  rw [if_pos rfl] at hd
  have hf : d.failureCount + 1 = d.failureCount := congrArg ControlData.failureCount (Option.some.inj hd)
  omega

/-- The machine of a delivery runs with an ERROR event. -/
theorem runMachine_error {m : FsmId} {env : Env} {fsm : Machine} {op : Operation}
    (hblank : op.sender.hOperationData = none) (hq : e.schQu.head? = some (.runMachine m .errorIndication))
    (hf : e.fsms m = some fsm) (hop : e.ops fsm.userData = some op)
    (hs : Server.step cfg e (.schRun env now) = some (e', out)) :
    if fsm.curState = .s2InvokeResponseWait then Reported e e' op.pControlData now out
    else e'.store = e.store ∧ out = [] := by
  obtain ⟨schQu, hq⟩ : ∃ schQu, e.schQu = .runMachine m .errorIndication :: schQu :=
    List.head?_eq_some_iff.1 hq
  simp only [Server.step, Server.runTask, hq, Server.runMachine, hf, hop, Option.bind_eq_bind,
    Option.bind_some, Option.bind_eq_some_iff, Option.some.injEq, Prod.mk.injEq, Prod.exists] at hs
  obtain ⟨u, out', ha, rfl, rfl⟩ := hs
  cases hst : fsm.curState with
  | s1Idle =>
    simp only [hst, deliverTrans, Server.action, Option.some.injEq, Prod.mk.injEq] at ha
    obtain ⟨rfl, rfl⟩ := ha
    simp [Server.setFsm, Server.mtsFreeOperation]
  | s2InvokeResponseWait =>
    -- the predicate finds no data, so the error is not a transient one
    have hp : pS2S1b op.sender = false := by simp [pS2S1b, hblank]
    simp only [hst, deliverTrans, hp, Bool.false_eq_true, if_false, Server.action,
      Option.bind_eq_bind, Option.bind_eq_some_iff, Option.some.injEq, Prod.mk.injEq] at ha
    obtain ⟨d, hd, store, hdel, rfl, rfl⟩ := ha
    rw [if_pos rfl]
    exact ⟨d, _, hd, rfl, hdel⟩

/-- **When an ERROR.indication is handled.** In any run: an operation gets the indication `ind`, and
later, in the state `e₂`, the event reaches its machine. -/
theorem errorIndication_handled_iff (cfg : Config) {h h' : List Out} {e e₂ e' : Server}
    {ind : ErrorIndication} {invokeId : InvokeId} {memGet : Bool} {m : FsmId} {fsm : Machine}
    {op₁ op : Operation} {env : Env} {now : Time} {out : List Out}
    (hr : Run.Reach (server cfg) Run.any h e)
    (_hfor : e.findOperationByInvokeId invokeId = some op₁) (_hm : op₁.fsms.getLast? = some m)
    (hx : Run.Exec (server cfg) Run.any (e.mtsErrorIndication invokeId ind memGet) h' e₂)
    (hq : e₂.schQu.head? = some (.runMachine m .errorIndication)) (hf : e₂.fsms m = some fsm)
    (hop : e₂.ops fsm.userData = some op)
    (hs : Server.step cfg e₂ (.schRun env now) = some (e', out)) :
    Handled cfg e₂ e' op.pControlData now out ind ↔
      fsm.curState = .s2InvokeResponseWait ∧ ind.error ≠ resourceError := by
  have hr₂ : Run.Reach (server cfg) Run.any (h ++ [] ++ h') e₂ := by
    refine Run.Reach.trans (hr.step (i := .errorIndication invokeId memGet) trivial ?_) hx
    rw [Server.mtsErrorIndication_eq]
    rfl
  have hrun := runMachine_error (Server.hOperationData_none hr₂ _ op hop) hq hf hop hs
  by_cases hst : fsm.curState = .s2InvokeResponseWait
  · rw [if_pos hst] at hrun
    by_cases hind : ind.error = resourceError
    · simp only [Handled, hst, hind, ne_eq, not_true_eq_false, and_false, iff_false]
      exact not_respooled_of_reported hrun
    · simp only [Handled, hst, ne_eq, hind, not_false_eq_true, and_self, iff_true]
      exact hrun
  · -- a machine that no longer waits frees its operation, and nothing else
    rw [if_neg hst] at hrun
    obtain ⟨hstore, hout⟩ := hrun
    simp only [hst, false_and, iff_false]
    unfold Handled
    split
    · rintro ⟨hresp, -⟩
      rw [hstore] at hresp
      exact deliveryRespool_ne hresp
    · rintro ⟨d, error, -, hnon, -⟩
      rw [hout] at hnon
      cases hnon

/-- The message `0` is in delivery, and ESROS has accepted its invocation. -/
def inDelivery : Option (Server × List Out) :=
  let t : Try := { cleaned := 2500, now := 2500, deleted := 2500, pdu := some ⟨[[1, 2, 3]], 0, 0⟩ }
  (server {}).run Run.always {} [
    .addMessage "id" "sender" [⟨7, some ⟨[], 1, 1, true⟩, 2500⟩],
    .tryDelivery [t, t],
    .schRun { invokeReq := some 5 } 2500]

theorem inDelivery_some : inDelivery.isSome = true := by decide +kernel

/-- The server with the event of an ERROR.indication. -/
def indicated : Server := (inDelivery.get inDelivery_some).1.indication 5 .errorIndication true

/-- That delivery gets an indication, and its machine runs. -/
structure Answered (ind : ErrorIndication) (h : List Out) (e e' : Server) (out : List Out) : Prop where
  reach : Run.Reach (server {}) Run.any h e
  waits : ∃ op, e.findOperationByInvokeId 5 = some op ∧ op.fsms.getLast? = some 0
  head : (e.mtsErrorIndication 5 ind true).schQu.head? = some (.runMachine 0 .errorIndication)
  fsm : (e.mtsErrorIndication 5 ind true).fsms 0 = some ⟨.s2InvokeResponseWait, 0⟩
  op : ∃ op, (e.mtsErrorIndication 5 ind true).ops 0 = some op ∧ op.pControlData = 0
  runs : Server.step {} (e.mtsErrorIndication 5 ind true) (.schRun {} 2500) = some (e', out)

theorem exists_answered (ind : ErrorIndication) : ∃ h e e' out, Answered ind h e e' out := by
  obtain ⟨⟨e, h⟩, hrun⟩ := Option.isSome_iff_exists.1 inDelivery_some
  have hget : (inDelivery.get inDelivery_some).1 = e := by simp [hrun]
  have hreach : Run.Reach (server {}) Run.any h e :=
    ⟨{}, rfl, .of_run (b := Run.always) (fun _ _ _ => trivial) hrun⟩
  have he : e.mtsErrorIndication 5 ind true = indicated := by
    rw [Server.mtsErrorIndication_eq, indicated, hget]
  have hruns : (Server.step {} indicated (.schRun {} 2500)).isSome = true := by decide +kernel
  obtain ⟨⟨e', out⟩, hruns⟩ := Option.isSome_iff_exists.1 hruns
  have hop : (indicated.ops 0).any (·.pControlData = 0) = true := by decide +kernel
  have hwaits : ((inDelivery.get inDelivery_some).1.findOperationByInvokeId 5).any
      (·.fsms.getLast? = some 0) = true := by decide +kernel
  rw [hget] at hwaits
  obtain ⟨op₁, hfor, hm⟩ := (Option.any_eq_true _ _).1 hwaits
  obtain ⟨op, hop, hp⟩ := (Option.any_eq_true _ _).1 hop
  refine ⟨h, e, e', out, hreach, ⟨op₁, hfor, of_decide_eq_true hm⟩, ?_, ?_, ?_, ?_⟩
  · rw [he]
    decide +kernel
  · rw [he]
    rfl
  · rw [he]
    exact ⟨op, hop, of_decide_eq_true hp⟩
  · rw [he]
    exact hruns

theorem errorIndication_handled_security : ∃ h e e' out,
    Answered ⟨4, some (some 4)⟩ h e e' out ∧
      Handled {} (e.mtsErrorIndication 5 ⟨4, some (some 4)⟩ true) e' 0 2500 out
        ⟨4, some (some 4)⟩ := by
  obtain ⟨h, e, e', out, ha⟩ := exists_answered ⟨4, some (some 4)⟩
  obtain ⟨op₁, hfor, hm⟩ := ha.waits
  obtain ⟨op, hop, hp⟩ := ha.op
  have hiff := errorIndication_handled_iff {} ha.reach hfor hm .refl ha.head ha.fsm hop ha.runs
  rw [hp] at hiff
  exact ⟨h, e, e', out, ha, hiff.2 ⟨rfl, by decide⟩⟩

/-- **A transient error loses the message**: it is reported and deleted, and not respooled. -/
theorem transient_reported : ∃ h e e' out, Answered ⟨6, some (some 6)⟩ h e e' out ∧
    Reported (e.mtsErrorIndication 5 ⟨6, some (some 6)⟩ true) e' 0 2500 out ∧
      ¬ Handled {} (e.mtsErrorIndication 5 ⟨6, some (some 6)⟩ true) e' 0 2500 out
        ⟨6, some (some 6)⟩ := by
  obtain ⟨h, e, e', out, ha⟩ := exists_answered ⟨6, some (some 6)⟩
  obtain ⟨op, hop, hp⟩ := ha.op
  have hr := ha.reach.step (i := .errorIndication 5 true) trivial rfl
  rw [← Server.mtsErrorIndication_eq e 5 ⟨6, some (some 6)⟩] at hr
  have hrun := runMachine_error (Server.hOperationData_none hr _ op hop) ha.head ha.fsm hop ha.runs
  rw [if_pos rfl, hp] at hrun
  refine ⟨h, e, e', out, ha, hrun, fun hh => ?_⟩
  have hresp : Respooled {} (e.mtsErrorIndication 5 ⟨6, some (some 6)⟩ true) e' 0 2500 out := hh
  exact not_respooled_of_reported hrun hresp

end Mts
