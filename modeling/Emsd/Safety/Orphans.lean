import Emsd.Safety.Outcomes

/-!
# No orphaned invocation

A machine that has left its start state is watched over by an armed timer whose expiry its
state handles. The tables go to the next state whatever the action returned, so this needs
every call on the way to the timer to succeed: `Arms` says which these are, row by row.

* `no_orphan`: in a run whose steps all arm the timer of the next state, every such machine is
  watched over.
* `orphan`: a failure of UDP is enough to leave one behind.
-/

namespace Erop

open Ocp FunctionalUnit Run

variable {cfg : Config} {e e' : Engine} {inp : Input} {f : Fire} {o hist : List Out}
  {c : Ctx} {m : Machine} {s s' : State} {evt : Evt} {act : Machine → Machine × SuccFail}
  {q q' : List TmrData} {i : InvokeId} {v : InvokeInfo}

/-- The expiry of the timer takes a transition other than an ignore transition. -/
def State.handlesTimer (s : State) (td : TmrData) : Bool := td.name.evt.any (· ∈ handles s)

/-- One of the armed timers is handled. -/
def watched (s : State) (q : List TmrData) : Bool := q.any s.handlesTimer

/-- **No orphan**: every live `InvokeInfo` whose machine has left its start state is watched over. -/
def NoOrphan (e : Engine) : Prop :=
  ∀ i v s, e.heap i = some v → v.curState = some s → s.isStart = false →
    watched s (e.tmrQu i) = true

/-- Whether the calls succeed that the row of a state and an event needs to leave the timer of the
next state armed. -/
def arms (c : Ctx) (m : Machine) : State → Evt → Bool
  | .clInvokerStart, .invokeReq | .cl2InvokerStart, .invokeReq =>
    ((c.invokeReq.parameter.getD []).length : Int) ≤ c.cfg.invokePduSize &&
      ((requestRef c m).2 ≠ -1 && (takesData m c.invokeReq.parameter && c.env.tmrCreate))
  | .invokePduSent, .pduResult =>
    c.env.memGet && (duAllocOk m.views m.bufs && (c.env.udpDataReq && c.env.tmrCreate))
  | .invokePduSent2, .pduResult => c.env.memGet && c.env.tmrCreate
  | .clPerformerStart, .pduInvoke => c.env.memGet && (!c.cfg.noUpshell && c.env.tmrCreate)
  | .cl2PerformerStart, .pduInvoke => c.env.memGet && c.env.tmrCreate
  | .invokePduReceived, .resultReq | .invokePduReceived2, .resultReq =>
    (replyRef c m).2 = .success && (takesData m c.resultReq.parameter && c.env.tmrCreate)
  | .ackPduWait, .resultPduRetranTimer =>
    (c.tmrInfo.datum ≥ m.invoke.nuOfRetrans || canRetrieve m m.invoke.resultPduSeq) &&
      c.env.tmrCreate
  | .ackPduWait, .pduInvoke =>
    -- nothing is done if the PDU cannot be sent, and a last timer stays armed
    !(canRetrieve m m.invoke.resultPduSeq && c.env.udpDataReq) ||
      (m.tmrQu.any (·.name = .lastTimer) || c.env.tmrCreate)
  | .clInvokerStart, _ | .cl2InvokerStart, _ | .clPerformerStart, _ | .cl2PerformerStart, _ => true
  | .invokePduReceived, _ | .invokePduReceived2, _ | .resultPduRetrans2, .pduInvoke => true
  | .invokePduSent, .pduAck => true
  | .invokerRefWait, .refNuTimer | .invokerRefWait2, .refNuTimer => true
  | .performerRefWait, .refNuTimer | .performerRefWait2, .refNuTimer => true
  | _, _ => c.env.tmrCreate

/-- The step arms the timer of the state that it leads to. -/
def stepArms (cfg : Config) (e : Engine) (inp : Input) : Bool :=
  (fires cfg e inp).all fun f => f.v.curState.all fun s =>
    f.evt ∉ handles s || arms f.c f.before s f.evt

theorem arms_of_stepArms (h : stepArms cfg e inp = true) (hf : fires cfg e inp = some f)
    (hs : f.v.curState = some s) (hevt : f.evt ∈ handles s) : arms f.c f.before s f.evt = true := by
  simpa [stepArms, hf, hs, hevt] using h

theorem watched_append : watched s (q ++ q') = (watched s q || watched s q') := List.any_append

theorem watched_armed {n : TmrName} {t d : Int} (ht : c.env.tmrCreate = true)
    (hn : n.evt.any (· ∈ handles s) = true) : watched s (armed c n t d) = true := by
  unfold armed
  rw [if_pos ht]
  simpa [watched, State.handlesTimer] using hn

theorem watched_append_armed {n : TmrName} {t d : Int} (ht : c.env.tmrCreate = true)
    (hn : n.evt.any (· ∈ handles s) = true) : watched s (q ++ armed c n t d) = true := by
  rw [watched_append, watched_armed ht hn, Bool.or_true]

/-- A timer whose expiry is not handled is not the one that watches. -/
theorem watched_erase {td : TmrData} (h : watched s q = true) (hn : s.handlesTimer td = false) :
    watched s (q.erase td) = true := by
  obtain ⟨td', hm, ht⟩ := List.any_eq_true.1 h
  refine List.any_eq_true.2 ⟨td', (List.mem_erase_of_ne ?_).2 hm, ht⟩
  rintro rfl
  rw [hn] at ht
  cases ht

/-- A reply that is sent leaves its own timer armed. -/
theorem reply_watched {name : TmrName} {time : InvokeInfo → Int} (hn : ReplyTimer name time)
    (href : (replyRef c m).2 = .success) (hdata : takesData m c.resultReq.parameter = true)
    (ht : c.env.tmrCreate = true) (hs : name.evt.any (· ∈ handles s) = true) :
    watched s (performerResultReq name time c m).1.tmrQu = true := by
  rw [(performerResultReq_sent hn href hdata).tmrQu, if_pos ht]
  refine List.any_eq_true.2 ⟨⟨name, time (tmrSetValues c.cfg m.invoke), 0⟩, ?_, hs⟩
  simp [hn.name]

/-- **A row that arms** leads to a state that is watched over, if the state before it was. -/
theorem row_watched (h : Row c s evt act s') (hf : c.Fits evt) (ha : arms c m s evt = true)
    (hw : s.isStart = false → evt.isTimer = false → watched s m.tmrQu = true)
    (hs' : s'.isStart = false) : watched s' (act m).1.tmrQu = true := by
  cases h with
  | invokeReq fu =>
    obtain ⟨hsize, href, hdata, ht⟩ : ((c.invokeReq.parameter.getD []).length : Int) ≤
        c.cfg.invokePduSize ∧ (requestRef c m).2 ≠ -1 ∧ takesData m c.invokeReq.parameter = true ∧
        c.env.tmrCreate = true := by cases fu <;> simpa [arms, invokerStart] using ha
    rw [(invokerInvokeReq_sent hsize href hdata).tmrQu]
    exact watched_append_armed ht (by cases fu <;> rfl)
  | retran fu =>
    have ht : c.env.tmrCreate = true := by cases fu <;> exact ha
    rw [(invokerRetran_does hf).tmrQu]
    split <;> exact watched_append_armed ht (by cases fu <;> rfl)
  | last fu =>
    have ht : c.env.tmrCreate = true := by cases fu <;> exact ha
    rw [(invokerLast_does hf).tmrQu]
    exact watched_append_armed ht (by cases fu <;> rfl)
  | result =>
    obtain ⟨hm, hd, hu, ht⟩ : c.env.memGet = true ∧ duAllocOk m.views m.bufs = true ∧
        c.env.udpDataReq = true ∧ c.env.tmrCreate = true := by simpa [arms] using ha
    rw [(trClInvoker04_does hf).tmrQu, if_pos ⟨hm, hd, hu⟩]
    exact watched_armed ht rfl
  | result2 =>
    obtain ⟨hm, ht⟩ : c.env.memGet = true ∧ c.env.tmrCreate = true := by simpa [arms] using ha
    rw [(tr2ClInvoker04_does hf).tmrQu, if_pos hm]
    exact watched_armed ht rfl
  | failure fu =>
    have ht : c.env.tmrCreate = true := by cases fu <;> exact ha
    rw [(invokerFailure_does hf).tmrQu]
    exact watched_armed ht (by cases fu <;> rfl)
  | holdOn => exact hw rfl rfl
  | dupResult =>
    rw [(trClInvoker07_does hf).tmrQu]
    exact watched_append_armed ha rfl
  | inactivity =>
    rw [(trClInvoker10_does hf).tmrQu]
    exact watched_armed ha rfl
  | lateResult =>
    rw [(trClInvoker09_does hf).tmrQu]
    exact watched_append_armed ha rfl
  | lateResult2 =>
    rw [(tr2ClInvoker06_does hf).tmrQu]
    exact watched_armed ha rfl
  | invokerRelease fu | noResponse fu | internal fu | performerRelease fu => cases fu <;> cases hs'
  | invoke =>
    obtain ⟨hm, hn, ht⟩ : c.env.memGet = true ∧ c.cfg.noUpshell = false ∧ c.env.tmrCreate = true := by
      simpa [arms] using ha
    rw [(trClPerformer01_does hf).tmrQu, if_pos ⟨hm, hn⟩]
    exact watched_append_armed ht rfl
  | invoke2 =>
    obtain ⟨hm, ht⟩ : c.env.memGet = true ∧ c.env.tmrCreate = true := by simpa [arms] using ha
    rw [(tr2ClPerformer01_does hf).tmrQu, if_pos hm]
    exact watched_append_armed ht rfl
  | resultReq =>
    obtain ⟨href, hdata, ht⟩ : (replyRef c m).2 = .success ∧
        takesData m c.resultReq.parameter = true ∧ c.env.tmrCreate = true := by simpa [arms] using ha
    exact reply_watched replyTimer_retran href hdata ht rfl
  | resultReq2 =>
    obtain ⟨href, hdata, ht⟩ : (replyRef c m).2 = .success ∧
        takesData m c.resultReq.parameter = true ∧ c.env.tmrCreate = true := by simpa [arms] using ha
    exact reply_watched replyTimer_inactivity href hdata ht rfl
  | dupInvoke fu =>
    rw [performerDropInvoke_does.tmrQu]
    exact hw (by cases fu <;> rfl) rfl
  | ack =>
    rw [trClPerformer03_does.tmrQu]
    exact watched_armed ha rfl
  | resultRetran =>
    obtain ⟨hc, ht⟩ : (c.tmrInfo.datum ≥ m.invoke.nuOfRetrans ∨
        canRetrieve m m.invoke.resultPduSeq = true) ∧ c.env.tmrCreate = true := by
      simpa [arms] using ha
    rw [trClPerformer05_does.tmrQu]
    split
    · exact watched_append_armed ht rfl
    · rename_i hd
      rw [if_pos (hc.resolve_left hd)]
      exact watched_append_armed ht rfl
  | resultLast =>
    rw [performerTransmissionFailure_does.tmrQu]
    exact watched_armed ha rfl
  | resend fu =>
    have hpre : watched (replied fu) m.tmrQu = true := hw (by cases fu <;> rfl) rfl
    rw [performerResendResult_does.tmrQu]
    split
    · rename_i hsent
      rw [watched_append]
      cases fu with
      | threeWay =>
        have ha' : (canRetrieve m m.invoke.resultPduSeq && c.env.udpDataReq) = false ∨
            m.tmrQu.any (·.name = .lastTimer) = true ∨ c.env.tmrCreate = true := by
          simpa only [arms, replied, Bool.or_eq_true, Bool.not_eq_true'] using ha
        rcases ha' with hno | hlast | ht
        · simp [hsent] at hno
        · -- the last timer is not cancelled
          obtain ⟨td, hmem, hname⟩ := List.any_eq_true.1 hlast
          have hname : td.name = .lastTimer := of_decide_eq_true hname
          have : watched (replied .threeWay) (m.tmrQu.filter (·.name ≠ .resultPduRetranTimer)) = true := by
            refine List.any_eq_true.2 ⟨td, List.mem_filter.2 ⟨hmem, by simp [hname]⟩, ?_⟩
            simp [State.handlesTimer, hname, TmrName.evt, replied, handles]
          rw [this, Bool.true_or]
        · rw [watched_armed ht rfl, Bool.or_true]
      | twoWay =>
        -- the retransmission timer is not the one that watches
        obtain ⟨td, hmem, ht⟩ := List.any_eq_true.1 hpre
        have hne : td.name ≠ .resultPduRetranTimer := by
          intro hn
          simp [State.handlesTimer, hn, TmrName.evt, replied, handles] at ht
        have : watched (replied .twoWay) (m.tmrQu.filter (·.name ≠ .resultPduRetranTimer)) = true :=
          List.any_eq_true.2 ⟨td, List.mem_filter.2 ⟨hmem, by simpa using hne⟩, ht⟩
        rw [this, Bool.true_or]
    · exact hpre
  | inactivity2 =>
    rw [performerConfirm_does.tmrQu]
    exact watched_armed ha rfl
  | lateInvoke fu =>
    have ht : c.env.tmrCreate = true := by cases fu <;> exact ha
    rw [(lateInvoke_does hf).tmrQu]
    exact watched_append_armed ht (by cases fu <;> rfl)
  | lateAck =>
    rw [(lateAck_does hf).tmrQu]
    exact watched_append_armed ha rfl

/-! ## Runs -/

theorem NoOrphan.fire (hno : NoOrphan e) (hf : fires cfg e inp = some f)
    (harm : stepArms cfg e inp = true) : NoOrphan f.engine := by
  obtain ⟨ho, hc⟩ := fires_origin hf
  intro i v s hv hs hstart
  by_cases hi : i = f.c.self
  · subst hi
    obtain rfl : f.after.invoke = v := by simpa using hv
    rw [Fire.engine_tmrQu_self]
    -- the timers that the machine has found
    have hbefore : ∀ s, f.v.curState = some s → s.isStart = false →
        (f.evt.isTimer = false ∨ f.evt ∉ handles s) → watched s f.before.tmrQu = true := by
      intro s hs hstart hor
      rw [Fire.before_tmrQu]
      rcases ho.kind with ⟨sap, d, hk⟩ | ⟨w, q, hk⟩
      · rw [hk.v] at hs
        obtain rfl : d.state = s := by simpa [newInfo] using hs
        rw [TransDiag.state_isStart] at hstart
        cases hstart
      · obtain ⟨a, b, hfv⟩ := hk.v
        have hw := hno _ w s hk.heap (by rw [← hs, hfv]) hstart
        rw [hk.tmrQu_self]
        rcases hk.tmr with ⟨-, rfl⟩ | ⟨td, htd, hevt, -, rfl⟩
        · exact hw
        · refine watched_erase hw ?_
          rcases hor with ht | hn
          · rw [TmrName.evt_isTimer hevt] at ht
            cases ht
          · simp [State.handlesTimer, hevt, hn]
    rcases f.cases with hn | ⟨s₀, act, s', ht⟩
    · rw [hn.after] at hs ⊢
      exact hbefore s hs hstart (.inr (hn.cur s hs))
    · obtain rfl : s' = s := by simpa [ht.after_invoke] using hs
      rw [ht.after_tmrQu]
      exact row_watched ht.row hc.fits (arms_of_stepArms harm hf ht.cur (row_handles ht.row))
        (fun h1 h2 => hbefore s₀ ht.cur h1 (.inl h2)) hstart
  · rw [Fire.engine_heap_ne hi, ho.heap_ne hi] at hv
    rw [Fire.engine_tmrQu_ne hi, ho.tmrQu_ne hi]
    exact hno i v s hv hs hstart

theorem NoOrphan.mono (hno : NoOrphan e) (hheap : ∀ i v, e'.heap i = some v → e.heap i = some v)
    (htmr : ∀ i, e'.heap i ≠ none → e'.tmrQu i = e.tmrQu i) : NoOrphan e' := by
  intro i v s hv hs hstart
  rw [htmr i (by simp [hv])]
  exact hno i v s (hheap i v hv) hs hstart

theorem NoOrphan.quiet (hno : NoOrphan e) (hq : Quiet e inp e' o) : NoOrphan e' := by
  cases hq with
  | nothing => exact hno
  | @leak sap =>
    intro i v s hv hs hstart
    by_cases hi : i = e.nextId
    · -- it has no machine
      obtain rfl : { locSap := sap.id } = v := by simpa [Engine.invokeInfoCreate, hi] using hv
      cases hs
    · simp only [Engine.invokeInfoCreate, Function.update_of_ne hi] at hv ⊢
      exact hno i v s hv hs hstart
  | @unknownTimer i td w htd hw hn =>
    intro j v s hv hs hstart
    have hwatch := hno j v s hv hs hstart
    by_cases hj : j = i
    · subst hj
      simp only [Function.update_self]
      exact watched_erase hwatch (by simp [State.handlesTimer, hn])
    · simp only [Function.update_of_ne hj]
      exact hwatch
  | callBack | bind | unbindEmpty => exact hno
  | release => exact hno.mono (fun _ _ => MachinesOk.relInvoke_heap) fun _ _ => rfl
  | @unbind _ _ i =>
    refine hno.mono (fun _ _ => MachinesOk.relInvoke_heap) fun j hj => ?_
    have hji : j ≠ i := by
      rintro rfl
      exact hj (Function.update_self ..)
    exact Function.update_of_ne hji ..

/-- **No orphaned invocation** in a run whose steps all arm the timer of the state they lead to. -/
theorem no_orphan (hr : Reach (engine cfg) (fun e inp => stepArms cfg e inp = true) hist e) :
    NoOrphan e := by
  refine hr.invariant ?_ fun e inp e' o hno harm hs => ?_
  · rintro _ ⟨newRef, rfl⟩ i v s ⟨⟩
  · rcases step_cases hs with ⟨f, hf, rfl, rfl⟩ | ⟨-, hq⟩
    · exact hno.fire hf harm
    · exact hno.quiet hq

theorem no_orphan_requestRun : ∃ hist e v, Reach (engine {}) Run.any hist e ∧ e.heap 0 = some v ∧
    v.curState = some .invokePduSent ∧ watched .invokePduSent (e.tmrQu 0) = true := by
  obtain ⟨e, hist, hr, hm⟩ := Reach.of_run (S := engine {}) (b := stepArms {}) (fun _ _ h => h)
    ⟨0, rfl⟩
    [⟨.sapBind 1 3, {}⟩, ⟨.invokeReq 1 ⟨7, 2, [0, 7], [10, 0, 0, 1], 5, .ber, some [42]⟩, {}⟩]
    (fun e _ => (e.heap 0).any (·.curState = some .invokePduSent)) (by decide)
  obtain ⟨v, hv, hs⟩ := (Option.any_eq_true _ _).1 hm
  exact ⟨hist, e, v, hr.any, hv, of_decide_eq_true hs,
    no_orphan hr 0 v _ hv (of_decide_eq_true hs) rfl⟩

/-- The ACK PDU for a RESULT PDU cannot be sent: the invoker waits with no timer armed. -/
theorem orphan : ∃ hist e, Reach (engine {}) Run.any hist e ∧ ¬NoOrphan e := by
  obtain ⟨e, hist, hr, hm⟩ := Reach.of_run_any (S := engine {}) ⟨0, rfl⟩
    [⟨.sapBind 1 3, {}⟩, ⟨.invokeReq 1 ⟨7, 2, [0, 7], [10, 0, 0, 1], 5, .ber, some [42]⟩, {}⟩,
      { fromPeer [1, 1, 99] with env.udpDataReq := false }]
    (fun e _ => (e.heap 0).any (·.curState = some .ackPduSent) ∧ e.tmrQu 0 = []) (by decide)
  obtain ⟨hm, hq⟩ := of_decide_eq_true hm
  obtain ⟨v, hv, hs⟩ := (Option.any_eq_true _ _).1 hm
  refine ⟨hist, e, hr, fun hno => ?_⟩
  have := hno 0 v _ hv (of_decide_eq_true hs) rfl
  rw [hq] at this
  cases this

end Erop
