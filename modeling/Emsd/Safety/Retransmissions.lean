import Emsd.Proof.Pdus
import Emsd.Safety.Indications

/-!
# Bounded retransmission

* `invoke_pdus_le`: a machine hands at most `1 + nuOfRetrans` INVOKE PDUs to UDP, in every run.
* `retransmission_bounded`: with it, in a run whose steps suit `stepBounds`, a 3-way performer
  that waits for an ACK PDU has exactly one of its two timers armed, and the RESULT PDUs that
  its timer sends again are at most `nuOfRetrans`.
* `retransmission_unbounded`: a duplicate INVOKE PDU starts the count again.
-/

namespace Erop

open Ocp FunctionalUnit Engine Run

variable {cfg : Config} {e e' : Engine} {inp : Input} {f : Fire} {o : List Out} {i : InvokeId}
  {c : Ctx} {m : Machine} {s s' : State} {evt : Evt} {act : Machine → Machine × SuccFail}
  {v v' : InvokeInfo} {du : Octets} {td : TmrData} {k : Nat}

/-- The configured count, as `erop_tmrSetValues` stores it in a `short`. -/
def nuOfRetrans (cfg : Config) : Int := Int.bmod cfg.retransmitCount (2 ^ 16)

/-- What has been logged of a run: each input with the outputs of its step. -/
abbrev Log := List (Input × List Out)

/-- The INVOKE PDUs that the machine of `i` has handed to UDP. -/
def invokePdus (i : InvokeId) (log : Log) : Nat :=
  (pdusOf i (log.flatMap (·.2))).countP (typeBits · = 0)

def Event.isTimer : Event → Bool
  | tmrRsp .. => true
  | _ => false

/-- The RESULT and ERROR PDUs that the machine of `i` has handed to UDP when a timer expired. -/
def timerReplies (i : InvokeId) (log : Log) : Nat :=
  (pdusOf i ((log.filter (·.1.ev.isTimer)).flatMap (·.2))).countP
    fun du => typeBits du = 1 ∨ typeBits du = 2

theorem invokePdus_snoc {log : Log} : invokePdus i (log ++ [(inp, o)]) =
    invokePdus i log + (pdusOf i o).countP (typeBits · = 0) := by
  simp [invokePdus]

theorem timerReplies_snoc {log : Log} : timerReplies i (log ++ [(inp, o)]) =
    timerReplies i log + if inp.ev.isTimer then
      (pdusOf i o).countP (fun du => typeBits du = 1 ∨ typeBits du = 2) else 0 := by
  unfold timerReplies
  rw [List.filter_append, List.flatMap_append, pdusOf_append, List.countP_append]
  by_cases h : inp.ev.isTimer = true
  · simp [h]
  · simp [h]

/-! ## The timer of the INVOKE PDU -/

/-- An armed retransmission timer of an INVOKE PDU was armed before, or the row has armed it: with a
count of zero, or with the next count. -/
theorem row_retranTimer (h : Row c s evt act s') (hf : c.Fits evt) (htd : td ∈ (act m).1.tmrQu)
    (hn : td.name = .invokePduRetranTimer) :
    td ∈ m.tmrQu ∨
      (evt = .invokeReq ∧ td.data = 0 ∧ (act m).1.invoke.nuOfRetrans = nuOfRetrans c.cfg) ∨
      (evt = .invokePduRetranTimer ∧ td.data = c.tmrInfo.datum + 1 ∧
        c.tmrInfo.datum < m.invoke.nuOfRetrans) := by
  -- the other timers have other names
  have hother : ∀ {q : List TmrData} {n t d}, n ≠ .invokePduRetranTimer →
      td ∈ q ++ armed c n t d → td ∈ q := by
    intro q n t d hne hm
    rcases List.mem_append.1 hm with hm | hm
    · exact hm
    · rw [mem_armed hm] at hn
      exact absurd hn hne
  have hnone : ∀ {n t d}, n ≠ .invokePduRetranTimer → td ∉ armed c n t d := by
    intro n t d hne hm
    rw [mem_armed hm] at hn
    exact hne hn
  have hreply : ∀ {name : TmrName} {time : InvokeInfo → Int}, ReplyTimer name time →
      name ≠ .invokePduRetranTimer → td ∈ (performerResultReq name time c m).1.tmrQu →
      td ∈ m.tmrQu := by
    intro name time hr hne hm
    rcases performerResultReq_spec hr c m with ⟨-, h⟩ | h | ⟨_, h, -⟩
    · rwa [h.tmrQu] at hm
    · rw [h.tmrQu] at hm
      split at hm
      · rcases List.mem_append.1 (List.mem_of_mem_filter hm) with hm | hm
        · exact hm
        · rw [List.mem_singleton.1 hm] at hn
          exact absurd hn hne
      · exact hm
    · rwa [h.tmrQu] at hm
  cases h with
  | invokeReq fu =>
    rcases invokerInvokeReq_spec c m with h | h | ⟨_, h, -⟩
    · rw [h] at htd
      exact .inl htd
    · rw [h.tmrQu] at htd
      rcases List.mem_append.1 htd with htd | htd
      · exact .inl htd
      · rw [mem_armed htd]
        refine .inr (.inl ⟨rfl, rfl, ?_⟩)
        rw [h.invoke]
        rfl
    · rw [h.tmrQu, List.append_nil] at htd
      exact .inl htd
  | retran fu =>
    rw [(invokerRetran_does hf).tmrQu] at htd
    rcases List.mem_append.1 htd with htd | htd
    · exact .inl htd
    split at htd
    · exact absurd htd (hnone (by decide))
    · rw [mem_armed htd]
      exact .inr (.inr ⟨rfl, rfl, by omega⟩)
  | last fu =>
    rw [(invokerLast_does hf).tmrQu] at htd
    exact .inl (hother (by decide) htd)
  | result =>
    rw [(trClInvoker04_does hf).tmrQu] at htd
    split at htd
    · exact absurd htd (hnone (by decide))
    · cases htd
  | result2 =>
    rw [(tr2ClInvoker04_does hf).tmrQu] at htd
    split at htd
    · exact absurd htd (hnone (by decide))
    · cases htd
  | failure fu =>
    rw [(invokerFailure_does hf).tmrQu] at htd
    exact absurd htd (hnone (by decide))
  | holdOn => exact .inl htd
  | dupResult =>
    rw [(trClInvoker07_does hf).tmrQu] at htd
    exact .inl (List.mem_of_mem_filter (hother (by decide) htd))
  | inactivity =>
    rw [(trClInvoker10_does hf).tmrQu] at htd
    exact absurd htd (hnone (by decide))
  | lateResult =>
    rw [(trClInvoker09_does hf).tmrQu] at htd
    exact .inl (List.mem_of_mem_filter (hother (by decide) htd))
  | lateResult2 =>
    rw [(tr2ClInvoker06_does hf).tmrQu] at htd
    exact absurd htd (hnone (by decide))
  | invokerRelease fu | performerRelease fu =>
    rw [(scheduleRelease_does hf).tmrQu] at htd
    exact .inl htd
  | invoke =>
    rw [(trClPerformer01_does hf).tmrQu] at htd
    split at htd
    · exact .inl (hother (by decide) htd)
    · rw [List.append_nil] at htd
      exact .inl htd
  | invoke2 =>
    rw [(tr2ClPerformer01_does hf).tmrQu] at htd
    split at htd
    · exact .inl (hother (by decide) htd)
    · rw [List.append_nil] at htd
      exact .inl htd
  | resultReq => exact .inl (hreply replyTimer_retran (by decide) htd)
  | resultReq2 => exact .inl (hreply replyTimer_inactivity (by decide) htd)
  | dupInvoke fu =>
    rw [performerDropInvoke_does.tmrQu] at htd
    exact .inl htd
  | noResponse fu | internal fu =>
    rw [performerNoResponse_does.tmrQu] at htd
    cases htd
  | ack =>
    rw [trClPerformer03_does.tmrQu] at htd
    exact absurd htd (hnone (by decide))
  | resultRetran =>
    rw [trClPerformer05_does.tmrQu] at htd
    split at htd
    · exact .inl (hother (by decide) htd)
    split at htd
    · exact .inl (hother (by decide) htd)
    · rw [List.append_nil] at htd
      exact .inl htd
  | resultLast =>
    rw [performerTransmissionFailure_does.tmrQu] at htd
    exact absurd htd (hnone (by decide))
  | resend fu =>
    rw [performerResendResult_does.tmrQu] at htd
    split at htd
    · exact .inl (List.mem_of_mem_filter (hother (by decide) htd))
    · exact .inl htd
  | inactivity2 =>
    rw [performerConfirm_does.tmrQu] at htd
    exact absurd htd (hnone (by decide))
  | lateInvoke fu =>
    rw [(lateInvoke_does hf).tmrQu] at htd
    exact .inl (List.mem_of_mem_filter (hother (by decide) htd))
  | lateAck =>
    rw [(lateAck_does hf).tmrQu] at htd
    exact .inl (List.mem_of_mem_filter (hother (by decide) htd))

/-- The count of an `InvokeInfo` stays the same, or it is read from the configuration. -/
theorem row_nuOfRetrans (h : Row c s evt act s') (hf : c.Fits evt) :
    (act m).1.invoke.nuOfRetrans = m.invoke.nuOfRetrans ∨
      (act m).1.invoke.nuOfRetrans = nuOfRetrans c.cfg := by
  have hreply : ∀ {name : TmrName} {time : InvokeInfo → Int}, ReplyTimer name time →
      (performerResultReq name time c m).1.invoke.nuOfRetrans = m.invoke.nuOfRetrans ∨
        (performerResultReq name time c m).1.invoke.nuOfRetrans = nuOfRetrans c.cfg := by
    intro name time hr
    rcases performerResultReq_spec hr c m with ⟨-, h⟩ | h | ⟨_, h, -⟩ <;> rw [h.invoke]
    · exact .inl rfl
    · exact .inr rfl
    · exact .inr rfl
  cases h with
  | invokeReq fu =>
    rcases invokerInvokeReq_spec c m with h | h | ⟨_, h, -⟩
    · rw [h]; exact .inl rfl
    · rw [h.invoke]; exact .inr rfl
    · rw [h.invoke]; exact .inr rfl
  | retran fu => rw [(invokerRetran_does hf).invoke]; exact .inl rfl
  | last fu => rw [(invokerLast_does hf).invoke]; exact .inl rfl
  | result => rw [(trClInvoker04_does hf).invoke]; exact .inr rfl
  | result2 => rw [(tr2ClInvoker04_does hf).invoke]; exact .inr rfl
  | failure fu => rw [(invokerFailure_does hf).invoke]; exact .inl rfl
  | holdOn => exact .inl rfl
  | dupResult => rw [(trClInvoker07_does hf).invoke]; exact .inl rfl
  | inactivity => rw [(trClInvoker10_does hf).invoke]; exact .inl rfl
  | lateResult => rw [(trClInvoker09_does hf).invoke]; exact .inl rfl
  | lateResult2 => rw [(tr2ClInvoker06_does hf).invoke]; exact .inl rfl
  | invokerRelease fu | performerRelease fu => rw [(scheduleRelease_does hf).invoke]; exact .inl rfl
  | invoke => rw [(trClPerformer01_does hf).invoke]; exact .inr rfl
  | invoke2 => rw [(tr2ClPerformer01_does hf).invoke]; exact .inr rfl
  | resultReq => exact hreply replyTimer_retran
  | resultReq2 => exact hreply replyTimer_inactivity
  | dupInvoke fu => rw [performerDropInvoke_does.invoke]; exact .inl rfl
  | noResponse fu | internal fu => rw [performerNoResponse_does.invoke]; exact .inl rfl
  | ack =>
    rw [trClPerformer03_does.invoke]
    split <;> exact .inl rfl
  | resultRetran => rw [trClPerformer05_does.invoke]; exact .inl rfl
  | resultLast => rw [performerTransmissionFailure_does.invoke]; exact .inl rfl
  | resend fu => rw [performerResendResult_does.invoke]; exact .inl rfl
  | inactivity2 => rw [performerConfirm_does.invoke]; exact .inl rfl
  | lateInvoke fu => rw [(lateInvoke_does hf).invoke]; exact .inl rfl
  | lateAck => rw [(lateAck_does hf).invoke]; exact .inl rfl

/-- An INVOKE PDU is handed over by a request or by its retransmission timer. -/
theorem Sends.invoke_evt (h : Sends c v s evt du) (hk : KeptOk v) (ht : typeBits du = 0) :
    evt = .invokeReq ∨ (evt = .invokePduRetranTimer ∧ c.tmrInfo.datum < v.nuOfRetrans) := by
  cases h with
  | request fu => exact .inl rfl
  | retran fu _ hd => exact .inr ⟨rfl, hd⟩
  | ack => rw [typeBits_ack] at ht; cases ht
  | unnoted | unshown | noResponse => rw [typeBits_failure] at ht; cases ht
  | reply fu h | resultRetran h | resend fu h =>
    obtain ⟨-, h | h, -⟩ := hk.result _ h <;> rw [h] at ht <;> cases ht

/-- A RESULT or an ERROR PDU that a timer sends again is sent by a 3-way performer. -/
theorem Sends.reply_evt (h : Sends c v s evt du) (hk : KeptOk v) (ht : typeBits du = 1 ∨ typeBits du = 2)
    (he : evt.isTimer = true) : s = .ackPduWait ∧ evt = .resultPduRetranTimer := by
  cases h with
  | resultRetran => exact ⟨rfl, rfl⟩
  | retran fu h =>
    obtain ⟨-, h, -⟩ := hk.invoke _ h
    rw [h] at ht
    simp at ht
  | noResponse => rw [typeBits_failure] at ht; simp at ht
  | _ => cases he

/-- What the INVOKE PDUs and the timer of an invocation amount to; `k` PDUs have been handed over. -/
structure RequestOk (cfg : Config) (e : Engine) (i : InvokeId) (k : Nat) : Prop where
  bound : k ≤ 1 + (nuOfRetrans cfg).toNat
  fresh : e.nextId ≤ i → k = 0
  armed : ∀ td ∈ e.tmrQu i, td.name = .invokePduRetranTimer →
    0 ≤ td.data ∧ (k : Int) ≤ 1 + td.data ∧ td.data ≤ (nuOfRetrans cfg).toNat ∧
      ∀ v, e.heap i = some v → v.nuOfRetrans = nuOfRetrans cfg

theorem RequestOk.init (newRef : Nat) : RequestOk cfg (Engine.init newRef) i 0 :=
  ⟨Nat.zero_le _, fun _ => rfl, fun _ h => absurd h List.not_mem_nil⟩

/-- Fewer timers, and an `InvokeInfo` that is the same or gone. -/
theorem RequestOk.mono (h : RequestOk cfg e i k) (hid : e.nextId ≤ e'.nextId)
    (hq : ∀ td ∈ e'.tmrQu i, td ∈ e.tmrQu i ∧ ∀ v, e'.heap i = some v → e.heap i = some v) :
    RequestOk cfg e' i k := by
  refine ⟨h.bound, fun hi => h.fresh (Nat.le_trans hid hi), fun td htd hn => ?_⟩
  obtain ⟨hold, hheap⟩ := hq td htd
  obtain ⟨h0, hk, hb, hv⟩ := h.armed td hold hn
  exact ⟨h0, hk, hb, fun v hv' => hv v (hheap v hv')⟩

theorem RequestOk.quiet (h : RequestOk cfg e i k) (hq : Quiet e inp e' o) :
    RequestOk cfg e' i k := by
  cases hq with
  | nothing | callBack | bind | unbindEmpty => exact h.mono (Nat.le_refl _) fun _ ht => ⟨ht, fun _ => id⟩
  | leak =>
    refine h.mono (Nat.le_succ _) fun td htd => ?_
    by_cases hi : i = e.nextId
    · simp [Engine.invokeInfoCreate, hi] at htd
    · simp only [Engine.invokeInfoCreate, Function.update_of_ne hi] at htd ⊢
      exact ⟨htd, fun _ => id⟩
  | @unknownTimer j t =>
    refine h.mono (Nat.le_refl _) fun td htd => ⟨?_, fun _ => id⟩
    by_cases hij : i = j
    · subst hij
      simp only [Function.update_self] at htd
      exact List.mem_of_mem_erase htd
    · simpa only [Function.update_of_ne hij] using htd
  | release => exact h.mono (Nat.le_refl _) fun _ ht => ⟨ht, fun _ => MachinesOk.relInvoke_heap⟩
  | @unbind _ _ j =>
    refine h.mono (Nat.le_refl _) fun td htd => ⟨?_, fun _ => MachinesOk.relInvoke_heap⟩
    by_cases hij : i = j
    · subst hij
      simp [Engine.dropSap, Engine.relInvoke] at htd
    · simpa [Engine.dropSap, Engine.relInvoke, hij] using htd

/-- The timers that a machine finds are those that were armed. -/
theorem Origin.mem_tmrQu (ho : Origin cfg e inp f) (h : td ∈ f.before.tmrQu) :
    td ∈ e.tmrQu f.c.self := by
  rw [Fire.before_tmrQu] at h
  rcases ho.kind with ⟨sap, d, hk⟩ | ⟨v, q, hk⟩
  · rw [hk.tmrQu_self] at h
    cases h
  · rw [hk.tmrQu_self] at h
    rcases hk.tmr with ⟨-, rfl⟩ | ⟨t, -, -, -, rfl⟩
    · exact h
    · exact List.mem_of_mem_erase h

/-- The timer of an event that a timer has raised, and its `InvokeInfo`. -/
theorem Origin.timer_of_evt (ho : Origin cfg e inp f) (ht : f.evt.isTimer = true) :
    inp.ev.isTimer = true ∧ e.heap f.c.self = some f.v ∧ ∃ td ∈ e.tmrQu f.c.self,
      td.name.evt = some f.evt ∧ f.c.tmrInfo = ⟨td.name, td.data⟩ ∧
      f.before.tmrQu = (e.tmrQu f.c.self).erase td := by
  cases ho with
  | timer hev hself htd he hv hevt htmr =>
    subst hself
    refine ⟨by rw [hev]; rfl, hv, _, htd, hevt, htmr, ?_⟩
    rw [Fire.before_tmrQu, he]
    exact Function.update_self ..
  | request _ _ _ _ _ he | reply _ _ _ _ he => rw [he] at ht; cases ht
  | arrival _ _ _ _ _ _ _ _ he | duplicate _ _ _ _ _ _ _ he => rw [he] at ht; cases ht
  | answer _ _ _ _ _ _ _ _ _ he =>
    rw [he, (PduType.evt_isTimer _).1] at ht
    cases ht

theorem TmrName.evt_retran {n : TmrName} (h : n.evt = some .invokePduRetranTimer) :
    n = .invokePduRetranTimer := by
  cases n <;> simp [TmrName.evt] at h ⊢

theorem Fire.engine_nextId_le (ho : Origin cfg e inp f) : e.nextId ≤ f.engine.nextId := by
  rw [Fire.engine_nextId]
  rcases ho.kind with ⟨_, _, hk⟩ | ⟨_, _, hk⟩
  · refine Nat.le_of_lt ?_
    rw [hk.eng]
    exact Nat.lt_succ_self _
  · exact Nat.le_of_eq (by rw [hk.eng])

/-- The PDUs that a machine adds and its timers, row by row. -/
theorem RequestOk.takes (hw : WF e) (hp : PdusOk f.engine) (h : RequestOk cfg e i k)
    (hf : fires cfg e inp = some f) (hi : f.c.self = i) (ht : f.Takes s act s') {l : List Octets}
    (hl : l = [] ∨ ∃ du, Sends f.c f.after.invoke s f.evt du ∧ l = [du]) :
    RequestOk cfg f.engine i (k + l.countP (typeBits · = 0)) := by
  obtain ⟨ho, hc⟩ := fires_origin hf
  subst hi
  have hkept : KeptOk f.after.invoke := hp _ _ Fire.engine_heap_self
  have hlt : f.c.self < f.engine.nextId := (hw.fire hf).linked.lt Fire.engine_heap_self
  -- one PDU at most, and only for these events
  have hcount : l.countP (typeBits · = 0) = 0 ∨ (l.countP (typeBits · = 0) = 1 ∧
      (f.evt = .invokeReq ∨
        (f.evt = .invokePduRetranTimer ∧ f.c.tmrInfo.datum < f.after.invoke.nuOfRetrans))) := by
    rcases hl with rfl | ⟨du, hd, rfl⟩
    · exact .inl rfl
    · by_cases h0 : typeBits du = 0
      · exact .inr ⟨by simp [h0], hd.invoke_evt hkept h0⟩
      · exact .inl (by simp [h0])
  have hrow : ∀ td ∈ (act f.before).1.tmrQu, td.name = .invokePduRetranTimer → _ :=
    fun _ htd hn => row_retranTimer ht.row hc.fits htd hn
  have hnu := row_nuOfRetrans (m := f.before) ht.row hc.fits
  have hafter : f.after.invoke.nuOfRetrans = (act f.before).1.invoke.nuOfRetrans := by
    rw [ht.after_invoke]
  rw [hc.cfg] at hrow hnu
  rw [← hafter] at hrow hnu
  have hfv : ∀ w, e.heap f.c.self = some w → w.nuOfRetrans = nuOfRetrans cfg →
      f.after.invoke.nuOfRetrans = nuOfRetrans cfg := by
    intro w hheap hn
    rcases hnu with hnu | hnu
    · rcases ho.kind with ⟨sap, d, hk⟩ | ⟨v, q, hk⟩
      · rw [hk.fresh hw.linked] at hheap; cases hheap
      · obtain rfl : v = w := by simpa [hk.heap] using hheap
        obtain ⟨a, b, hv⟩ := hk.v
        rw [hnu, Fire.before_invoke, hv]
        exact hn
    · exact hnu
  have hlive : ∀ v, f.engine.heap f.c.self = some v → v = f.after.invoke := by
    intro v hv
    simpa using hv.symm
  rcases ho.kind with ⟨sap, d, hk⟩ | ⟨w, q, hk⟩
  · -- a new machine: nothing has been handed over yet
    have hk0 : k = 0 := h.fresh (Nat.le_of_eq hk.self.symm)
    have hq : f.before.tmrQu = [] := hk.tmrQu_self
    have hone : l.countP (typeBits · = 0) ≤ 1 := by
      rcases hcount with hz | ⟨h1, -⟩ <;> omega
    refine ⟨by omega, fun hle => absurd hlt (Nat.not_lt.2 hle), fun td htd hn => ?_⟩
    rw [Fire.engine_tmrQu_self, ht.after_tmrQu] at htd
    rcases hrow td htd hn with hold | ⟨-, h0, hn'⟩ | ⟨he, -⟩
    · rw [hq] at hold; cases hold
    · refine ⟨by omega, by omega, by omega, fun v hv => ?_⟩
      rw [hlive v hv]
      exact hn'
    · rw [hk.evt] at he
      split at he <;> cases he
  · have hne : f.evt ≠ .invokeReq := hk.evt
    by_cases hev : f.evt = .invokePduRetranTimer
    · -- the timer that has expired bounds what has been handed over
      obtain ⟨-, hv, t, htq, hte, htmr, hq⟩ :=
        ho.timer_of_evt (by rw [hev]; rfl)
      obtain ⟨h0, hkd, hb, hv'⟩ := h.armed t htq (TmrName.evt_retran (hte.trans (congrArg some hev)))
      have hdat : f.c.tmrInfo.datum = t.data := by rw [htmr]
      have hn := hfv _ hv (hv' _ hv)
      have hbefore : f.before.tmrQu = [] := by
        obtain ⟨-, hm⟩ := hw.prepared ho
        have hexp := (hw.machines.tmrBefore hm ho ht.cur).expired (by rw [hev]; rfl)
        have hrow := ht.row
        rw [hev] at hrow
        cases hrow with
        | retran fu => cases fu <;> exact hexp _ rfl
      have hnew : l.countP (typeBits · = 0) = 0 ∨
          (l.countP (typeBits · = 0) = 1 ∧ t.data < nuOfRetrans cfg) := by
        rcases hcount with hz | ⟨h1, he | ⟨-, hlt⟩⟩
        · exact .inl hz
        · exact absurd he hne
        · exact .inr ⟨h1, by rw [← hdat, ← hn]; exact hlt⟩
      refine ⟨by have := h.bound; omega, fun hle => absurd hlt (Nat.not_lt.2 hle), fun td htd hname => ?_⟩
      rw [Fire.engine_tmrQu_self, ht.after_tmrQu] at htd
      rcases hrow td htd hname with hold | ⟨he, -⟩ | ⟨-, hd, hlt⟩
      · rw [hbefore] at hold; cases hold
      · exact absurd he hne
      · have hvn : f.before.invoke.nuOfRetrans = nuOfRetrans cfg := hv' _ hv
        refine ⟨by omega, by omega, by omega, fun v hv => ?_⟩
        rw [hlive v hv]
        exact hn
    · have hz : l.countP (typeBits · = 0) = 0 := by
        rcases hcount with hz | ⟨-, he | ⟨he, -⟩⟩
        · exact hz
        · exact absurd he hne
        · exact absurd he hev
      rw [hz, Nat.add_zero]
      refine ⟨h.bound, fun hle => absurd hlt (Nat.not_lt.2 hle), fun td htd hname => ?_⟩
      rw [Fire.engine_tmrQu_self, ht.after_tmrQu] at htd
      rcases hrow td htd hname with hold | ⟨he, -⟩ | ⟨he, -⟩
      · obtain ⟨h0, hkd, hb, hv⟩ := h.armed td (ho.mem_tmrQu hold) hname
        refine ⟨h0, hkd, hb, fun v hv' => ?_⟩
        rw [hlive v hv']
        exact hfv _ hk.heap (hv _ hk.heap)
      · exact absurd he hne
      · exact absurd he hev

theorem RequestOk.ignores (h : RequestOk cfg e i k) (hf : fires cfg e inp = some f)
    (hi : f.c.self = i) (hn : f.Ignores) : RequestOk cfg f.engine i k := by
  obtain ⟨ho, hc⟩ := fires_origin hf
  subst hi
  refine ⟨h.bound, fun hle => h.fresh (Nat.le_trans (Fire.engine_nextId_le ho) hle),
    fun td htd hname => ?_⟩
  rw [Fire.engine_tmrQu_self, hn.after] at htd
  obtain ⟨h0, hkd, hb, hv⟩ := h.armed td (ho.mem_tmrQu htd) hname
  refine ⟨h0, hkd, hb, fun v hv' => ?_⟩
  obtain rfl : f.v = v := by simpa [hn.after] using hv'
  rcases ho.kind with ⟨sap, d, hk⟩ | ⟨w, q, hk⟩
  · have hq : f.before.tmrQu = [] := hk.tmrQu_self
    rw [hq] at htd
    cases htd
  · obtain ⟨a, b, hfv⟩ := hk.v
    have hnu := hv _ hk.heap
    rw [hfv]
    exact hnu

/-- **One step**: what is handed over is counted by the timer. -/
theorem RequestOk.step (hw : WF e) (hp : PdusOk e) (h : RequestOk cfg e i k)
    (hs : step cfg e inp = some (e', o)) :
    RequestOk cfg e' i (k + (pdusOf i o).countP (typeBits · = 0)) := by
  have hpdus := step_pdus hs i
  rcases step_cases hs with ⟨f, hf, rfl, rfl⟩ | ⟨hnf, hq⟩
  · obtain ⟨ho, hc⟩ := fires_origin hf
    by_cases hi : f.c.self = i
    · rcases f.cases with hn | ⟨s, act, s', ht⟩
      · rcases hpdus with hz | ⟨g, s, act, s', du, hg, -, -, ht, -⟩
        · rw [hz]
          exact h.ignores hf hi hn
        · obtain rfl : f = g := by simpa [hf] using hg
          exact absurd (row_handles ht.row) (hn.cur _ ht.cur)
      · refine h.takes hw (hp.fire hw hf) hf hi ht ?_
        rcases hpdus with hz | ⟨g, s₁, act₁, s₁', du, hg, -, -, ht₁, hd, -, hl⟩
        · exact .inl hz
        · obtain rfl : f = g := by simpa [hf] using hg
          obtain rfl : s = s₁ := by simpa [ht.cur] using ht₁.cur
          exact .inr ⟨du, hd, hl⟩
    · rcases hpdus with hz | ⟨g, s, act, s', du, hg, -, hgi, -⟩
      · rw [hz]
        refine h.mono (Fire.engine_nextId_le ho) fun td htd => ?_
        have hne : i ≠ f.c.self := fun he => hi he.symm
        rw [Fire.engine_tmrQu_ne hne, ho.tmrQu_ne hne] at htd
        rw [Fire.engine_heap_ne hne, ho.heap_ne hne]
        exact ⟨htd, fun _ => id⟩
      · obtain rfl : f = g := by simpa [hf] using hg
        exact absurd hgi hi
  · rcases hpdus with hz | ⟨g, s, act, s', du, hg, -⟩
    · rw [hz]
      exact h.quiet hq
    · rw [hnf] at hg
      cases hg

/-- **At most `1 + nuOfRetrans` INVOKE PDUs** are handed to UDP for an invocation, in every run. -/
theorem invoke_pdus_le {ok : Engine → Input → Prop} {log : Log}
    (hr : Reach (engine cfg).logged ok log e) (i : InvokeId) :
    invokePdus i log ≤ 1 + (nuOfRetrans cfg).toNat := by
  have hall : WF e ∧ PdusOk e ∧ RequestOk cfg e i (invokePdus i log) := by
    refine Reach.invariant_log (S := engine cfg)
      (P := fun e log => WF e ∧ PdusOk e ∧ RequestOk cfg e i (invokePdus i log)) ?_ ?_ hr
    · rintro _ ⟨newRef, rfl⟩
      exact ⟨.init newRef, by rintro i v ⟨⟩, .init newRef⟩
    · rintro e inp e' o log ⟨hw, hp, h⟩ - hs
      rw [invokePdus_snoc]
      exact ⟨hw.step hs, hp.step hw hs, h.step hw hp hs⟩
  exact hall.2.2.bound

/-! ## The timers of a reply -/

/-- Whether the row of a state and an event leaves the timers of a 3-way reply as they should be: the
reply is sent and its timer armed; a RESULT PDU that a duplicate INVOKE PDU asks for is sent again
while the timer has not expired yet. -/
def bounds (c : Ctx) (m : Machine) : State → Evt → Bool
  | .invokePduReceived, .resultReq =>
    (replyRef c m).2 = .success && (takesData m c.resultReq.parameter && c.env.tmrCreate)
  | .ackPduWait, .resultPduRetranTimer =>
    (c.tmrInfo.datum ≥ m.invoke.nuOfRetrans || canRetrieve m m.invoke.resultPduSeq) &&
      c.env.tmrCreate
  | .ackPduWait, .pduInvoke =>
    !(canRetrieve m m.invoke.resultPduSeq && c.env.udpDataReq) ||
      (c.env.tmrCreate && m.tmrQu.any fun td => td.name = .resultPduRetranTimer ∧ td.data = 0)
  | _, _ => true

/-- The step leaves the timers of `i` as they should be. -/
def stepBounds (cfg : Config) (i : InvokeId) (e : Engine) (inp : Input) : Bool :=
  (fires cfg e inp).all fun f => f.c.self ≠ i || f.v.curState.all fun s =>
    f.evt ∉ handles s || bounds f.c f.before s f.evt

theorem bounds_of_stepBounds (h : stepBounds cfg i e inp = true) (hf : fires cfg e inp = some f)
    (hi : f.c.self = i) (ht : f.Takes s act s') : bounds f.c f.before s f.evt = true := by
  simpa [stepBounds, hf, hi, ht.cur, row_handles ht.row] using h

/-- The timers of a 3-way performer that waits for the ACK PDU. -/
def isReplyTimer (td : TmrData) : Bool := td.name = .resultPduRetranTimer || td.name = .lastTimer

/-- One timer is armed, and the retransmission timer counts the PDUs that have been sent again. -/
def Waits (q : List TmrData) (k : Nat) : Prop :=
  ∃ td, q = [td] ∧ (td.name = .lastTimer ∨ (td.name = .resultPduRetranTimer ∧ td.data = k))

/-- What the timers of a reply amount to; `k` PDUs have been sent again by the timer. -/
structure ReplyOk (cfg : Config) (e : Engine) (i : InvokeId) (k : Nat) : Prop where
  bound : k ≤ (nuOfRetrans cfg).toNat
  fresh : e.nextId ≤ i → k = 0
  waits : ∀ v, e.heap i = some v → v.curState = some .ackPduWait → Waits (e.tmrQu i) k
  registered : ∀ v, e.heap i = some v → v.curState = some .ackPduWait ∨ 0 < k →
    i ∈ e.refs.performer v.invokeRefNu.toNat
  received : ∀ v, e.heap i = some v → v.curState = some .invokePduReceived → 0 < k →
    v.remNsapAddr ≠ []
  count : ∀ v, e.heap i = some v → v.curState = some .invokePduReceived ∨
    v.curState = some .ackPduWait → v.nuOfRetrans = nuOfRetrans cfg

theorem ReplyOk.init (newRef : Nat) : ReplyOk cfg (Engine.init newRef) i 0 where
  bound := Nat.zero_le _
  fresh _ := rfl
  waits _ h := by cases h
  registered _ h := by cases h
  received _ h := by cases h
  count _ h := by cases h

/-- Nothing changes on `i`, or it is gone. -/
theorem ReplyOk.frame (h : ReplyOk cfg e i k) (hid : e.nextId ≤ e'.nextId)
    (hv : ∀ v, e'.heap i = some v → e.heap i = some v ∧ e'.tmrQu i = e.tmrQu i ∧
      ∀ r, i ∈ e.refs.performer r → i ∈ e'.refs.performer r) : ReplyOk cfg e' i k where
  bound := h.bound
  fresh hle := h.fresh (Nat.le_trans hid hle)
  waits v hv' hs := by
    obtain ⟨h1, h2, -⟩ := hv v hv'
    rw [h2]
    exact h.waits v h1 hs
  registered v hv' hs := by
    obtain ⟨h1, -, h3⟩ := hv v hv'
    exact h3 _ (h.registered v h1 hs)
  received v hv' hs hk := h.received v (hv v hv').1 hs hk
  count v hv' hs := h.count v (hv v hv').1 hs

theorem ReplyOk.quiet (h : ReplyOk cfg e i k) (hs : step cfg e inp = some (e', o))
    (hq : Quiet e inp e' o) : ReplyOk cfg e' i k := by
  have hreg : ∀ {v}, e'.heap i = some v → ∀ r, i ∈ e.refs.performer r → i ∈ e'.refs.performer r := by
    intro v hv r
    exact (registered_live hs (by rw [hv]; exact Option.some_ne_none _)).2
  cases hq with
  | nothing | callBack | bind | unbindEmpty =>
    exact h.frame (Nat.le_refl _) fun v hv => ⟨hv, rfl, fun _ => id⟩
  | @leak sap =>
    by_cases hi : i = e.nextId
    · subst hi
      have hk := h.fresh (Nat.le_refl _)
      have hv : ∀ v, (e.invokeInfoCreate sap.id).heap e.nextId = some v → v = { locSap := sap.id } := by
        intro v hv
        simpa [Engine.invokeInfoCreate] using hv.symm
      refine ⟨h.bound, fun _ => hk, fun v hv' hs => ?_, fun v hv' hs => ?_, fun v hv' hs => ?_,
        fun v hv' hs => ?_⟩ <;> rw [hv v hv'] at hs
      · cases hs
      · rcases hs with hs | hs
        · cases hs
        · omega
      · cases hs
      · rcases hs with hs | hs <;> cases hs
    · refine h.frame (Nat.le_succ _) fun v hv => ?_
      simp only [Engine.invokeInfoCreate, Function.update_of_ne hi] at hv ⊢
      exact ⟨hv, trivial, fun _ => id⟩
  | @unknownTimer j t w htd hw hn =>
    by_cases hij : i = j
    · subst hij
      refine ⟨h.bound, h.fresh, fun v hv hs => ?_, h.registered, h.received, h.count⟩
      -- both timers of the state have an event
      obtain ⟨td, hq, hname⟩ := h.waits v hv hs
      rw [hq] at htd
      obtain rfl := List.mem_singleton.1 htd
      rcases hname with hname | ⟨hname, -⟩ <;> rw [hname] at hn <;> cases hn
    · refine h.frame (Nat.le_refl _) fun v hv => ⟨hv, ?_, fun _ => id⟩
      exact Function.update_of_ne hij ..
  | release =>
    exact h.frame (Nat.le_refl _) fun v hv => ⟨MachinesOk.relInvoke_heap hv, rfl, hreg hv⟩
  | @unbind _ _ j =>
    refine h.frame (Nat.le_refl _) fun v hv => ⟨MachinesOk.relInvoke_heap hv, ?_, hreg hv⟩
    have hij : i ≠ j := by
      rintro rfl
      have : Function.update e.heap i none i = some v := hv
      rw [Function.update_self] at this
      cases this
    exact Function.update_of_ne hij ..

/-- The rows that lead to the wait for the ACK PDU of a 3-way reply. -/
theorem row_to_wait (h : Row c s evt act s') (hs : s' = .ackPduWait) :
    (s = .invokePduReceived ∧ evt = .resultReq ∧ act = trClPerformer02 c) ∨
      (s = .ackPduWait ∧ evt = .resultPduRetranTimer ∧ act = trClPerformer05 c) ∨
      (s = .ackPduWait ∧ evt = .pduInvoke ∧ act = performerResendResult c) := by
  cases h with
  | resultReq => exact .inl ⟨rfl, rfl, rfl⟩
  | resultRetran => exact .inr (.inl ⟨rfl, rfl, rfl⟩)
  | resend fu => cases fu <;> cases hs; exact .inr (.inr ⟨rfl, rfl, rfl⟩)
  | invokeReq fu | retran fu | last fu | failure fu | invokerRelease fu | dupInvoke fu
  | noResponse fu | internal fu | lateInvoke fu | performerRelease fu => cases fu <;> cases hs
  | _ => cases hs

/-- The rows that lead to a 3-way request that its user has not answered yet. -/
theorem row_to_received (h : Row c s evt act s') (hs : s' = .invokePduReceived) :
    evt = .pduInvoke ∧ ((s = .clPerformerStart ∧ act = trClPerformer01 c) ∨
      (s = .invokePduReceived ∧ act = performerDropInvoke c)) := by
  cases h with
  | invoke => exact ⟨rfl, .inl ⟨rfl, rfl⟩⟩
  | dupInvoke fu => cases fu <;> cases hs; exact ⟨rfl, .inr ⟨rfl, rfl⟩⟩
  | invokeReq fu | retran fu | last fu | failure fu | invokerRelease fu | resend fu
  | noResponse fu | internal fu | lateInvoke fu | performerRelease fu => cases fu <;> cases hs
  | _ => cases hs

theorem Sends.resultRetran_inv (h : Sends c v s evt du) (he : evt = .resultPduRetranTimer) :
    du ∈ v.resultPduSeq ∧ c.tmrInfo.datum < v.nuOfRetrans := by
  cases h with
  | resultRetran h hd => exact ⟨h, hd⟩
  | noResponse fu hx => rcases hx with rfl | rfl <;> cases he
  | _ => cases he

/-- The timers that `timerReplies` counts are those of the state. -/
theorem Origin.isTimer (ho : Origin cfg e inp f) (h : inp.ev.isTimer = true) :
    f.evt.isTimer = true := by
  cases ho with
  | timer hev hself htd he hv hevt => exact TmrName.evt_isTimer hevt
  | request hev | arrival hev | duplicate hev | answer hev => rw [hev] at h; cases h
  | reply hev =>
    rcases hev with ⟨u, enc, p, hev, -⟩ | ⟨u, enc, w, p, hev, -⟩ <;> rw [hev] at h <;> cases h

/-- A request that has been restarted came from an address that can be compared. -/
theorem Origin.addr_ne (hl : Linked e) (ho : Origin cfg e inp f) (he : f.evt = .pduInvoke)
    (hv : e.heap f.c.self ≠ none) : f.v.remNsapAddr ≠ [] := by
  cases ho with
  | duplicate hev hread htype hsap hfind _ hv =>
    have hd := List.find?_some hfind
    simp only [Engine.isDuplicate, hv, Bool.and_eq_true, decide_eq_true_eq] at hd
    exact (nSapAddrCmp_eq_zero.1 hd.2).2
  | arrival _ _ _ _ _ hself => exact absurd (hl.fresh _ (Nat.le_of_eq hself.symm)).1 hv
  | request _ _ _ _ _ h => rw [he] at h; cases h
  | @answer _ _ _ pdu _ _ _ _ _ htype _ _ _ _ _ _ h =>
    rw [he] at h
    cases hp : pdu.pdutype <;> rw [hp] at h htype <;> simp [PduType.evt] at h htype
  | timer _ _ _ _ _ h =>
    have := TmrName.evt_isTimer h
    rw [he] at this
    cases this
  | reply _ _ _ _ h => rw [he] at h; cases h

/-- A reply is accepted once. -/
theorem replyRef_registered (hc : c.nsapOf c.self = m.invoke.remNsapAddr)
    (hr : c.self ∈ m.refs.performer m.invoke.invokeRefNu.toNat) (ha : m.invoke.remNsapAddr ≠ []) :
    (replyRef c m).2 ≠ .success := by
  intro h
  obtain ⟨r, hn, -, -, hfree, -⟩ := refKeep_success h
  rw [hn, Int.toNat_natCast] at hr
  have := inUse_eq_false.1 hfree _ hr
  rw [hc] at this
  exact this (nSapAddrCmp_eq_zero.2 ⟨rfl, ha⟩)

theorem replied_registers {kept : List Octets} {q : List TmrData} {out : List Out} {m' : Machine}
    (h : Replied c m m' kept q out) : c.self ∈ m'.refs.performer m'.invoke.invokeRefNu.toNat := by
  obtain ⟨r, hn, -, -, -, ht⟩ := refKeep_success h.accepted
  have hr : m'.invoke.invokeRefNu = r := by
    rw [h.invoke]
    exact hn
  rw [h.refs, hr, Int.toNat_natCast]
  unfold replyRef
  rw [ht]
  simp

section

variable {w : InvokeInfo} {q : List TmrData} {l : List Octets}

/-- The state in which the machine of `i` is found. -/
theorem Continues.curState (hk : Continues e f w q) (hs : f.v.curState = some s) :
    w.curState = some s ∧ f.v.remNsapAddr = w.remNsapAddr ∧ f.v.invokeRefNu = w.invokeRefNu ∧
      f.v.nuOfRetrans = w.nuOfRetrans := by
  obtain ⟨a, b, hv⟩ := hk.v
  rw [hv] at hs ⊢
  exact ⟨hs, rfl, rfl, rfl⟩

/-- A PDU that the timer sends again is one of a 3-way reply. -/
theorem replies_zero (hp : PdusOk f.engine) (ho : Origin cfg e inp f)
    (hl : l = [] ∨ ∃ du, Sends f.c f.after.invoke s f.evt du ∧ l = [du])
    (hne : ¬(s = .ackPduWait ∧ f.evt = .resultPduRetranTimer)) :
    (if inp.ev.isTimer then l.countP (fun du => typeBits du = 1 ∨ typeBits du = 2) else 0) = 0 := by
  split
  · rename_i ht
    rcases hl with rfl | ⟨du, hd, rfl⟩
    · rfl
    · by_contra hcount
      have htype : typeBits du = 1 ∨ typeBits du = 2 := by
        by_contra hn
        exact hcount (by simp [hn])
      exact hne (hd.reply_evt (hp _ _ Fire.engine_heap_self) htype (ho.isTimer ht))
  · rfl

/-- What a row has to leave behind. -/
theorem ReplyOk.of_after (hw : WF f.engine) (ht : f.Takes s act s')
    (hbound : k ≤ (nuOfRetrans cfg).toNat)
    (hwait : s' = .ackPduWait → Waits (act f.before).1.tmrQu k)
    (hreg : s' = .ackPduWait ∨ 0 < k →
      f.c.self ∈ f.engine.refs.performer f.after.invoke.invokeRefNu.toNat)
    (hrec : s' = .invokePduReceived → 0 < k → f.after.invoke.remNsapAddr ≠ [])
    (hcount : s' = .invokePduReceived ∨ s' = .ackPduWait →
      f.after.invoke.nuOfRetrans = nuOfRetrans cfg) : ReplyOk cfg f.engine f.c.self k := by
  have hlt := hw.linked.lt (Fire.engine_heap_self (f := f))
  have hv : ∀ v, f.engine.heap f.c.self = some v → v = f.after.invoke := by
    intro v hv
    simpa using hv.symm
  have hcur : ∀ {x}, f.after.invoke.curState = some x → s' = x := by
    intro x hx
    rw [ht.after_invoke] at hx
    exact Option.some.inj hx
  refine ⟨hbound, fun hle => absurd hlt (Nat.not_lt.2 hle), fun v h hs => ?_, fun v h hs => ?_,
    fun v h hs => ?_, fun v h hs => ?_⟩ <;> obtain rfl := hv v h
  · rw [Fire.engine_tmrQu_self, ht.after_tmrQu]
    exact hwait (hcur hs)
  · exact hreg (hs.imp_left hcur)
  · exact hrec (hcur hs)
  · exact hcount (hs.imp hcur hcur)

/-- RESULT.request or ERROR.request. -/
theorem ReplyOk.reply (hw : WF e) (h : ReplyOk cfg e f.c.self k) (hf : fires cfg e inp = some f)
    (hk : Continues e f w q) (ht : f.Takes .invokePduReceived (trClPerformer02 f.c) .ackPduWait)
    (hb : bounds f.c f.before .invokePduReceived .resultReq = true) :
    ReplyOk cfg f.engine f.c.self k := by
  obtain ⟨ho, hc⟩ := fires_origin hf
  obtain ⟨hcur, haddr, hnum, hnu⟩ := hk.curState ht.cur
  obtain ⟨href, hdata, htmr⟩ : (replyRef f.c f.before).2 = .success ∧
      takesData f.before f.c.resultReq.parameter = true ∧ f.c.env.tmrCreate = true := by
    simpa [bounds] using hb
  have hsent : ReplySent _ _ f.c f.before (trClPerformer02 f.c f.before).1 :=
    performerResultReq_sent replyTimer_retran href hdata
  -- a machine that has sent a reply again is registered, and is not registered twice
  have hk0 : k = 0 := by
    by_contra hne
    have hpos : 0 < k := Nat.pos_of_ne_zero hne
    refine replyRef_registered ?_ ?_ ?_ href
    · rw [hc.nsapOf, ho.nsapOf hw.linked hk.heap, Fire.before_invoke, haddr]
    · rw [Fire.before_refs, ho.refs, Fire.before_invoke, hnum]
      exact h.registered w hk.heap (.inr hpos)
    · rw [Fire.before_invoke, haddr]
      exact h.received w hk.heap hcur hpos
  have hq : (f.e.tmrQu f.c.self).filter (·.name ≠ .perfNoResponseTimer) = [] :=
    ((hw.machines.tmrBefore (hw.prepared ho).2 ho ht.cur).ok _ rfl).filter
  have hreg := replied_registers hsent
  rw [← ht.after_refs] at hreg
  refine .of_after (hw.fire hf) ht h.bound (fun _ => ?_) (fun _ => ?_) (fun hs => by cases hs)
    (fun _ => ?_)
  · rw [hsent.tmrQu, if_pos htmr, List.filter_append, Fire.before_tmrQu, hq]
    exact ⟨_, rfl, .inr ⟨rfl, by rw [hk0]; rfl⟩⟩
  · rw [ht.after_invoke]
    exact hreg
  · rw [ht.after_invoke, hsent.invoke]
    exact congrArg nuOfRetrans hc.cfg

/-- The retransmission timer of the RESULT PDU has expired. -/
theorem ReplyOk.retran (hw : WF e) (hp : PdusOk f.engine) (h : ReplyOk cfg e f.c.self k)
    (hf : fires cfg e inp = some f) (hk : Continues e f w q)
    (ht : f.Takes .ackPduWait (trClPerformer05 f.c) .ackPduWait)
    (hevt : f.evt = .resultPduRetranTimer)
    (hb : bounds f.c f.before .ackPduWait .resultPduRetranTimer = true)
    (hl : (udps f.after.out = [] ∧ l = []) ∨
      ∃ du, Sends f.c f.after.invoke .ackPduWait f.evt du ∧ l = [du]) :
    ReplyOk cfg f.engine f.c.self
      (k + l.countP fun du => typeBits du = 1 ∨ typeBits du = 2) := by
  obtain ⟨ho, hc⟩ := fires_origin hf
  obtain ⟨hcur, haddr, hnum, hnu⟩ := hk.curState ht.cur
  obtain ⟨hcan, htmr⟩ : (f.c.tmrInfo.datum ≥ f.v.nuOfRetrans ∨
      canRetrieve f.before f.v.resultPduSeq = true) ∧ f.c.env.tmrCreate = true := by
    simpa [bounds] using hb
  obtain ⟨-, hv, t, htq, hte, htmi, hq⟩ := ho.timer_of_evt (by rw [hevt]; rfl)
  obtain ⟨t', hq', hname⟩ := h.waits w hk.heap hcur
  rw [hq'] at htq hq
  obtain rfl := List.mem_singleton.1 htq
  have hbefore : f.before.tmrQu = [] := by simpa using hq
  rw [hevt] at hte
  have hdat : f.c.tmrInfo.datum = k := by
    rw [htmi]
    rcases hname with hname | ⟨-, hd⟩
    · rw [hname] at hte; cases hte
    · exact hd
  have hn : f.v.nuOfRetrans = nuOfRetrans cfg := hnu.trans (h.count w hk.heap (.inr hcur))
  obtain ⟨hi, hqa, -, hout⟩ := trClPerformer05_does (c := f.c) (m := f.before)
  have hafter : f.after.invoke.nuOfRetrans = nuOfRetrans cfg := by
    rw [ht.after_invoke, hi]
    exact hn
  have hnum' : f.after.invoke.invokeRefNu = w.invokeRefNu := by
    rw [ht.after_invoke, hi]
    exact hnum
  have hreg := (fire_registered hf).2 (h.registered w hk.heap (.inl hcur))
  rw [hbefore, List.nil_append] at hqa
  by_cases hlt : f.c.tmrInfo.datum < f.v.nuOfRetrans
  · -- the PDU is sent again, and the timer counts it
    have hcan := hcan.resolve_left (by omega)
    have hudp : udps f.after.out ≠ [] := by
      rw [ht.after_out, hout, if_pos ⟨hlt, hcan⟩]
      simp
    obtain ⟨du, hd, rfl⟩ := hl.resolve_left fun h => hudp h.1
    obtain ⟨-, htype, -⟩ := (hp _ _ Fire.engine_heap_self).result du (hd.resultRetran_inv hevt).1
    have hone : [du].countP (fun du => typeBits du = 1 ∨ typeBits du = 2) = 1 := by simp [htype]
    rw [hone]
    refine .of_after (hw.fire hf) ht (by omega) (fun _ => ?_) (fun _ => by rw [hnum']; exact hreg)
      (fun hs => by cases hs) (fun _ => hafter)
    have hcan' : canRetrieve f.before f.before.invoke.resultPduSeq = true := hcan
    rw [hqa, if_neg (by simp only [Fire.before_invoke]; omega), if_pos hcan']
    unfold armed
    rw [if_pos htmr]
    exact ⟨_, rfl, .inr ⟨rfl, by push_cast; omega⟩⟩
  · -- the last timer takes over
    have hl0 : l = [] := by
      rcases hl with ⟨-, hl⟩ | ⟨du, hd, rfl⟩
      · exact hl
      · have := (hd.resultRetran_inv hevt).2
        omega
    rw [hl0]
    refine .of_after (hw.fire hf) ht h.bound (fun _ => ?_) (fun _ => by rw [hnum']; exact hreg)
      (fun hs => by cases hs) (fun _ => hafter)
    rw [hqa, if_pos (by simp only [Fire.before_invoke]; omega)]
    unfold armed
    rw [if_pos htmr]
    exact ⟨_, rfl, .inl rfl⟩

/-- A duplicate INVOKE PDU while the reply is under way. -/
theorem ReplyOk.resend (hw : WF e) (h : ReplyOk cfg e f.c.self k) (hf : fires cfg e inp = some f)
    (hk : Continues e f w q) (ht : f.Takes .ackPduWait (performerResendResult f.c) .ackPduWait)
    (hevt : f.evt = .pduInvoke) (hb : bounds f.c f.before .ackPduWait .pduInvoke = true) :
    ReplyOk cfg f.engine f.c.self k := by
  obtain ⟨hcur, haddr, hnum, hnu⟩ := hk.curState ht.cur
  obtain ⟨hi, hqa, -, -⟩ := performerResendResult_does (c := f.c) (m := f.before)
  obtain ⟨td, hq, hname⟩ := h.waits w hk.heap hcur
  have hbefore : f.before.tmrQu = [td] := by
    rw [Fire.before_tmrQu, hk.tmrQu_self, ← hq]
    rcases hk.tmr with ⟨-, rfl⟩ | ⟨t, -, hte, -⟩
    · rfl
    · have := TmrName.evt_isTimer hte
      rw [hevt] at this
      cases this
  refine .of_after (hw.fire hf) ht h.bound (fun _ => ?_) (fun _ => ?_) (fun hs => by cases hs)
    (fun _ => ?_)
  · rw [hqa, hbefore]
    split
    · rename_i hsent
      obtain ⟨htmr, h0⟩ : f.c.env.tmrCreate = true ∧ td.name = .resultPduRetranTimer ∧ td.data = 0 := by
        unfold bounds at hb
        rw [hsent.1, hsent.2, hbefore] at hb
        simpa using hb
      have hk0 : (0 : Int) = k := by
        rcases hname with hname | ⟨-, hd⟩
        · rw [hname] at h0; cases h0.1
        · rw [← hd]; exact h0.2.symm
      unfold armed
      rw [if_pos htmr]
      have hnone : [td].filter (·.name ≠ .resultPduRetranTimer) = [] := by simp [h0.1]
      rw [hnone]
      exact ⟨_, rfl, .inr ⟨rfl, hk0⟩⟩
    · exact ⟨td, rfl, hname⟩
  · rw [ht.after_invoke, hi]
    show f.c.self ∈ f.engine.refs.performer f.v.invokeRefNu.toNat
    rw [hnum]
    exact (fire_registered hf).2 (h.registered w hk.heap (.inl hcur))
  · rw [ht.after_invoke, hi]
    exact hnu.trans (h.count w hk.heap (.inr hcur))

/-- A row for the machine of `i`. -/
theorem ReplyOk.takes (hw : WF e) (hp : PdusOk f.engine) (h : ReplyOk cfg e f.c.self k)
    (hf : fires cfg e inp = some f) (ht : f.Takes s act s')
    (hb : bounds f.c f.before s f.evt = true)
    (hl : (udps f.after.out = [] ∧ l = []) ∨
      ∃ du, Sends f.c f.after.invoke s f.evt du ∧ l = [du]) :
    ReplyOk cfg f.engine f.c.self (k + if inp.ev.isTimer then
      l.countP (fun du => typeBits du = 1 ∨ typeBits du = 2) else 0) := by
  obtain ⟨ho, hc⟩ := fires_origin hf
  have hzero := replies_zero hp ho (hl.imp_left And.right)
  have hrow := ht.row
  by_cases hwait : s' = .ackPduWait
  · -- only a machine that was there waits for an ACK PDU
    have hcont : ∀ {evt}, f.evt = evt → evt ≠ .invokeReq → evt ≠ .pduInvoke ∨ e.heap f.c.self ≠ none →
        ∃ w q, Continues e f w q := by
      intro evt he hreq hinv
      rcases ho.kind with ⟨sap, d, hk⟩ | hk
      · rw [← he, hk.evt] at hreq
        split at hreq
        · rename_i hd
          rw [← he, hk.evt, if_pos hd] at hinv
          rcases hinv with hinv | hinv
          · exact absurd rfl hinv
          · exact absurd (hk.fresh hw.linked) hinv
        · exact absurd rfl hreq
      · exact hk
    rcases row_to_wait hrow hwait with ⟨rfl, hevt, rfl⟩ | ⟨rfl, hevt, rfl⟩ | ⟨rfl, hevt, rfl⟩
    · subst hwait
      rw [hzero (by simp)]
      obtain ⟨w, q, hk⟩ := hcont hevt (by decide) (.inl (by decide))
      rw [hevt] at hb
      exact h.reply hw hf hk ht hb
    · subst hwait
      obtain ⟨w, q, hk⟩ := hcont hevt (by decide) (.inl (by decide))
      rw [hevt] at hb
      rw [if_pos (ho.timer_of_evt (by rw [hevt]; rfl)).1]
      exact h.retran hw hp hf hk ht hevt hb hl
    · subst hwait
      rw [hzero (by rw [hevt]; simp)]
      rw [hevt] at hb
      have hnew : ¬∃ sap d, Creates e f sap d := by
        rintro ⟨sap, d, hk⟩
        have hcur := ht.cur
        rw [hk.v] at hcur
        cases d <;> cases hcur
      obtain ⟨w, q, hk⟩ := ho.kind.resolve_left hnew
      exact h.resend hw hf hk ht hevt hb
  -- the other rows leave the count as it is
  have hz := hzero fun ⟨hs, he⟩ => by
    have hor := he ▸ hrow
    refine hwait ?_
    generalize hev : Evt.resultPduRetranTimer = ev at hor
    cases hor with
    | resultRetran => rfl
    | _ => cases hev
  rw [hz, Nat.add_zero]
  have hheap : 0 < k → ∃ w q, Continues e f w q := by
    intro hpos
    rcases ho.kind with ⟨sap, d, hk⟩ | hk
    · have := h.fresh (Nat.le_of_eq hk.self.symm)
      omega
    · exact hk
  refine .of_after (hw.fire hf) ht h.bound (fun hs => absurd hs hwait) (fun hs => ?_)
    (fun hs hpos => ?_) (fun hs => ?_)
  · have hpos := hs.resolve_left hwait
    obtain ⟨w, q, hk⟩ := hheap hpos
    obtain ⟨v', hv', hkept⟩ := hw.refs.kept hw.linked ho hc hk.heap
    obtain rfl : f.after.invoke = v' := by simpa using hv'
    rw [hkept.invokeRefNu]
    exact (fire_registered hf).2 (h.registered w hk.heap (.inr hpos))
  · obtain ⟨w, q, hk⟩ := hheap hpos
    obtain ⟨v', hv', hkept⟩ := hw.refs.kept hw.linked ho hc hk.heap
    obtain rfl : f.after.invoke = v' := by simpa using hv'
    rw [hkept.remNsapAddr]
    have hevt := (row_to_received hrow hs).1
    have haddr := ho.addr_ne hw.linked hevt (by rw [hk.heap]; exact Option.some_ne_none _)
    obtain ⟨a, b, hv⟩ := hk.v
    rwa [hv] at haddr
  · obtain hs := hs.resolve_right hwait
    obtain ⟨hevt, ⟨-, rfl⟩ | ⟨rfl, rfl⟩⟩ := row_to_received hrow hs
    · have hfit : f.c.pdu.pdutype = .invoke := by
        have := hc.fits
        rw [hevt] at this
        exact this
      rw [ht.after_invoke, (trClPerformer01_does hfit).invoke]
      exact congrArg nuOfRetrans hc.cfg
    · have hnew : ¬∃ sap d, Creates e f sap d := by
        rintro ⟨sap, d, hk⟩
        have hcur := ht.cur
        rw [hk.v] at hcur
        cases d <;> cases hcur
      obtain ⟨w, q, hk⟩ := ho.kind.resolve_left hnew
      obtain ⟨hcur, -, -, hnu⟩ := hk.curState ht.cur
      rw [ht.after_invoke, performerDropInvoke_does.invoke]
      exact hnu.trans (h.count w hk.heap (.inl hcur))

/-- A machine without a row for the event. -/
theorem ReplyOk.ignores (hw : WF e) (h : ReplyOk cfg e f.c.self k) (hf : fires cfg e inp = some f)
    (hn : f.Ignores) : ReplyOk cfg f.engine f.c.self k := by
  obtain ⟨ho, hc⟩ := fires_origin hf
  have hlt := (hw.fire hf).linked.lt (Fire.engine_heap_self (f := f))
  have hv : ∀ v, f.engine.heap f.c.self = some v → v = f.v := by
    intro v hv
    simpa [hn.after] using hv.symm
  rcases ho.kind with ⟨sap, d, hk⟩ | ⟨w, q, hk⟩
  · -- a new machine is in its first state
    have hk0 : k = 0 := h.fresh (Nat.le_of_eq hk.self.symm)
    have hcur : ∀ s, f.v.curState = some s → s = d.state := by
      intro s hs
      rw [hk.v] at hs
      cases d <;> exact (Option.some.inj hs).symm
    have hne : d.state ≠ .ackPduWait ∧ d.state ≠ .invokePduReceived := by cases d <;> decide
    refine ⟨h.bound, fun hle => absurd hlt (Nat.not_lt.2 hle), fun v hv' hs => ?_,
      fun v hv' hs => ?_, fun v hv' hs => ?_, fun v hv' hs => ?_⟩ <;> rw [hv v hv'] at hs
    · exact absurd (hcur _ hs).symm hne.1
    · rcases hs with hs | hs
      · exact absurd (hcur _ hs).symm hne.1
      · omega
    · exact absurd (hcur _ hs).symm hne.2
    · rcases hs with hs | hs
      · exact absurd (hcur _ hs).symm hne.2
      · exact absurd (hcur _ hs).symm hne.1
  · refine ⟨h.bound, fun hle => absurd hlt (Nat.not_lt.2 hle), fun v hv' hs => ?_,
      fun v hv' hs => ?_, fun v hv' hs hpos => ?_, fun v hv' hs => ?_⟩ <;> rw [hv v hv'] at hs
    · obtain ⟨hcur, -⟩ := hk.curState hs
      obtain ⟨td, hq, hname⟩ := h.waits w hk.heap hcur
      rw [Fire.engine_tmrQu_self, hn.after, Fire.before_tmrQu, hk.tmrQu_self]
      rcases hk.tmr with ⟨-, rfl⟩ | ⟨t, ht, hte, -⟩
      · exact ⟨td, hq, hname⟩
      · -- the events of both timers have a row in this state
        refine absurd ?_ (hn.cur _ hs)
        rw [hq] at ht
        obtain rfl := List.mem_singleton.1 ht
        rcases hname with hname | ⟨hname, -⟩ <;> rw [hname] at hte <;>
          rw [← Option.some.inj hte] <;> decide
    · obtain ⟨a, b, hfv⟩ := hk.v
      rw [hv v hv', hfv]
      refine (fire_registered hf).2 (h.registered w hk.heap (hs.imp_left fun hs => ?_))
      exact (hk.curState hs).1
    · obtain ⟨hcur, haddr, -⟩ := hk.curState hs
      rw [hv v hv', haddr]
      exact h.received w hk.heap hcur hpos
    · obtain ⟨a, b, hfv⟩ := hk.v
      rw [hv v hv', hfv]
      refine h.count w hk.heap (hs.imp (fun hs => ?_) fun hs => ?_) <;> exact (hk.curState hs).1

end

/-- **One step**: what a timer sends again is counted by the timer. -/
theorem ReplyOk.step (hw : WF e) (hp : PdusOk e) (h : ReplyOk cfg e i k)
    (hb : stepBounds cfg i e inp = true) (hs : step cfg e inp = some (e', o)) :
    ReplyOk cfg e' i (k + if inp.ev.isTimer then
      (pdusOf i o).countP (fun du => typeBits du = 1 ∨ typeBits du = 2) else 0) := by
  have hpdus := step_pdus hs i
  have hnil : pdusOf i o = [] → (if inp.ev.isTimer then
      (pdusOf i o).countP (fun du => typeBits du = 1 ∨ typeBits du = 2) else 0) = 0 := by
    intro hz
    rw [hz]
    exact ite_self 0
  rcases step_cases hs with ⟨f, hf, rfl, rfl⟩ | ⟨hnf, hq⟩
  · obtain ⟨ho, hc⟩ := fires_origin hf
    by_cases hi : f.c.self = i
    · subst hi
      rcases f.cases with hn | ⟨s, act, s', ht⟩
      · rw [hnil]
        · exact h.ignores hw hf hn
        · rcases hpdus with hz | ⟨g, s, act, s', du, hg, -, -, ht, -⟩
          · exact hz
          · obtain rfl : f = g := by simpa [hf] using hg
            exact absurd (row_handles ht.row) (hn.cur _ ht.cur)
      · refine h.takes hw (hp.fire hw hf) hf ht (bounds_of_stepBounds hb hf rfl ht) ?_
        rcases ht.hands hc with hu | ⟨du, hd, hu⟩
        · exact .inl ⟨hu, by rw [ho.pdusOf_out, hu]; rfl⟩
        · exact .inr ⟨du, hd, by rw [ho.pdusOf_out, hu, pdusOf_toPeer, if_pos rfl]⟩
    · rcases hpdus with hz | ⟨g, s, act, s', du, hg, -, hgi, -⟩
      · rw [hnil hz]
        refine h.frame (Fire.engine_nextId_le ho) fun v hv => ?_
        have hne : i ≠ f.c.self := fun he => hi he.symm
        rw [Fire.engine_heap_ne hne, ho.heap_ne hne] at hv
        exact ⟨hv, by rw [Fire.engine_tmrQu_ne hne, ho.tmrQu_ne hne], fun r => (fire_registered hf).2⟩
      · obtain rfl : f = g := by simpa [hf] using hg
        exact absurd hgi hi
  · rw [hnil]
    · exact h.quiet hs hq
    · rcases hpdus with hz | ⟨g, s, act, s', du, hg, -⟩
      · exact hz
      · rw [hnf] at hg
        cases hg

/-- **Bounded retransmission.** Of an invocation at most `1 + nuOfRetrans` INVOKE PDUs are handed to
UDP. In a run that leaves the timers of its reply as they should be, exactly one timer is armed
while it waits for the ACK PDU, and the timer sends the RESULT PDU again at most `nuOfRetrans`
times. -/
theorem retransmission_bounded {log : Log}
    (hr : Reach (engine cfg).logged (fun e inp => stepBounds cfg i e inp = true) log e) :
    invokePdus i log ≤ 1 + (nuOfRetrans cfg).toNat ∧
      (∀ v, e.heap i = some v → v.curState = some .ackPduWait →
        (e.tmrQu i).countP isReplyTimer = 1) ∧
      timerReplies i log ≤ (nuOfRetrans cfg).toNat := by
  have hall : WF e ∧ PdusOk e ∧ ReplyOk cfg e i (timerReplies i log) := by
    refine Reach.invariant_log (S := engine cfg)
      (P := fun e log => WF e ∧ PdusOk e ∧ ReplyOk cfg e i (timerReplies i log)) ?_ ?_ hr
    · rintro _ ⟨newRef, rfl⟩
      exact ⟨.init newRef, by rintro i v ⟨⟩, .init newRef⟩
    · rintro e inp e' o log ⟨hw, hp, h⟩ hok hs
      rw [timerReplies_snoc]
      exact ⟨hw.step hs, hp.step hw hs, h.step hw hp hok hs⟩
  obtain ⟨-, -, h⟩ := hall
  refine ⟨invoke_pdus_le hr i, fun v hv hs => ?_, h.bound⟩
  obtain ⟨td, hq, hname⟩ := h.waits v hv hs
  have ht : isReplyTimer td = true := by
    rcases hname with hname | ⟨hname, -⟩ <;> simp [isReplyTimer, hname]
  rw [hq, List.countP_singleton, if_pos ht]

/-- The reply of the user to the first request. -/
def firstReply : List Input :=
  firstRequest ++ [⟨.schRun, {}⟩, ⟨.resultReq 0 1 .ber (some [7]), {}⟩]

/-- The retransmission timer of the RESULT PDU expires. -/
def retranExpires (datum : Int) : Input := ⟨.tmrRsp 0 ⟨.resultPduRetranTimer, 15000, datum⟩, {}⟩

theorem retransmission_bounded_firstReply : ∃ (log : Log) (e : Engine) (v : InvokeInfo),
    e.heap 0 = some v ∧
    v.curState = some .ackPduWait ∧ (e.tmrQu 0).countP isReplyTimer = 1 ∧
    timerReplies 0 log = 2 ∧ timerReplies 0 log ≤ (nuOfRetrans {}).toNat := by
  obtain ⟨e, log, hr, hm⟩ := Reach.of_run (S := (engine {}).logged) (b := stepBounds {} 0)
    (fun _ _ h => h) ⟨0, rfl⟩ (firstReply ++ [retranExpires 0, retranExpires 1])
    (fun e log => (e.heap 0).any (·.curState = some .ackPduWait) ∧ timerReplies 0 log = 2)
    (by decide +kernel)
  obtain ⟨hv, htwo⟩ := of_decide_eq_true hm
  obtain ⟨v, hv, hs⟩ := (Option.any_eq_true _ _).1 hv
  obtain ⟨-, hone, hle⟩ := retransmission_bounded hr
  exact ⟨log, e, v, hv, of_decide_eq_true hs, hone v hv (of_decide_eq_true hs), htwo, hle⟩

/-- The INVOKE PDU arrives once more after the last retransmission. -/
def duplicateAfterLast : List Input :=
  firstReply ++ [retranExpires 0, retranExpires 1, retranExpires 2, retranExpires 3,
    retranExpires 4, fromPeer [0x10, 9, 2, 42]]

/-- A duplicate INVOKE PDU arms the retransmission timer beside the last timer, and the count
starts again. -/
theorem retransmission_unbounded : ¬∀ (i : InvokeId) (log : Log) (e : Engine),
    Reach (engine {}).logged Run.any log e →
      (∀ v, e.heap i = some v → v.curState = some .ackPduWait →
        (e.tmrQu i).countP isReplyTimer = 1) ∧
      timerReplies i log ≤ (nuOfRetrans {}).toNat := by
  intro h
  obtain ⟨e, log, hr, hm⟩ := Reach.of_run_any (S := (engine {}).logged) ⟨0, rfl⟩
    (duplicateAfterLast ++ [retranExpires 0])
    (fun _ log => (nuOfRetrans {}).toNat < timerReplies 0 log) (by decide +kernel)
  exact absurd (h 0 log e hr).2 (Nat.not_le.2 (of_decide_eq_true hm))

end Erop
