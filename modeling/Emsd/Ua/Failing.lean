import Emsd.Ua.Progress

/-!
# The failure of a Deliver result (`ua/uacore/uperform.c`)

In the state that waits for the confirm of a Deliver result the machine tries three transitions for a
FAILURE.indication: `pS2S1e`, `pS2S1d` and no predicate.

* `failure_keeps_iff`: **a failure keeps what has been received** if and only if all segments have
  been received, or the INVOKE came over the 3-way SAP and Delivery Verify is supported, and the
  next segment is not left on the queue. `pS2S1e` says "all segments received" where it means
  "more segments": an operation with segments to come is freed.
* `Guarded.of_reach`: an operation that has segments to come has its timer, whatever fails.
-/

namespace Ua

open Ocp Mtsua Table

variable {v : Bool} {s t : Performing} {i : PerformInput} {o h : List PerformOut} {m : Performer}
  {evt : FsmEvent} {env : PerformEnv}

/-- A verification is to be done when the RESULT has failed: all segments have been received over the
3-way SAP, and Delivery Verify is supported. -/
def VerifyLeft (bDeliveryVerifySupported : Bool) (m : Performer) : Prop :=
  m.receiver.bComplete = true ∧ m.performer2Way = false ∧ bDeliveryVerifySupported = true

/-- **The failure keeps what has been received**: the operation is only freed when it has all its
segments and nothing is left to verify, and goes on otherwise with the segments that it has. If more
are to come, the machine is back in its idle state to take them, the next one at once if it waits. -/
structure KeepsReceived (bDeliveryVerifySupported : Bool) (m : Performer) (t : Performing) :
    Prop where
  freed : t.op = none → m.receiver.bComplete = true ∧ ¬VerifyLeft bDeliveryVerifySupported m
  kept : m.receiver.bComplete = false ∨ VerifyLeft bDeliveryVerifySupported m →
    ∃ m', t.op = some m' ∧ m'.receiver = m.receiver ∧ m'.pendingQHead = m.pendingQHead
  more : m.receiver.bComplete = false → t.curState = .s1Idle ∧ Behind m t.events

/-! ## The timer -/

/-- The operation has its timer when it has segments to come, as far as the state of the machine tells
that it has taken one. -/
structure Guards (st : Perform.State) (m : Performer) : Prop where
  idle : st = .s1Idle → m.receiver.Open
  busy : st = .s2DeliverResultResponseWait → m.receiver.Covered

/-- So has the operation, if it is alive; and there is none before it has been allocated. -/
structure Guarded (s : Performing) : Prop where
  fresh : Fresh s
  start : s.allocated = false → s.curState = .s1Idle
  guards : ∀ m ∈ s.op, Guards s.curState m

/-- Nothing is asked of an operation that is freed. -/
theorem guards_freed (hop : t.op = none) : ∀ m ∈ t.op, Guards t.curState m := by
  intro m hm
  rw [hop] at hm
  cases hm

theorem Guards.congr {st : Perform.State} {m' : Performer} (hg : Guards st m)
    (hr : m'.receiver = m.receiver) : Guards st m' := by
  constructor
  · intro hs
    rw [hr]
    exact hg.idle hs
  · intro hs
    rw [hr]
    exact hg.busy hs

theorem idleTarget_busy {ok : Bool}
    (h : (Perform.idleTarget ok m).2 = .s2DeliverResultResponseWait) : ok = true := by
  by_contra hok
  unfold Perform.idleTarget at h
  rw [if_neg hok] at h
  split at h
  · cases h
  · split at h <;> cases h

/-- **No action touches the segments** of an operation that it does not free, nor its queue. -/
theorem performAction_receiver {action : Option Perform.Action} {a : Acted} {m' : Performer}
    (h : performAction env m action = some a) (hop : a.op = some m') :
    m'.receiver = m.receiver ∧ m'.pendingQHead = m.pendingQHead := by
  have hsame : ∀ {m₁}, some m₁ = some m' → m₁ = m →
      m'.receiver = m.receiver ∧ m'.pendingQHead = m.pendingQHead := by
    rintro m₁ ⟨⟩ rfl
    exact ⟨rfl, rfl⟩
  cases action with
  | none =>
    cases h
    exact hsame hop rfl
  | some action =>
    cases action with
    | aS1S2a =>
      cases h
      unfold performS1S2a at hop
      split at hop <;> exact hsame hop rfl
    | aS1S5a =>
      dsimp only [performAction] at h
      unfold performS1S5a at h
      split at h
      · cases h
      · cases h
        exact hsame hop rfl
    | aS2S1d =>
      cases h
      dsimp only [performS2S1d] at hop
      split at hop
      · exact hsame hop rfl
      · cases hop
    | aS2S3a =>
      cases h
      unfold performS2S3a at hop
      split at hop
      · exact hsame hop rfl
      · cases hop
        exact ⟨rfl, rfl⟩
    | aS1S4a | aS2S1b | aS1S5b | aS2S2a =>
      cases h
      exact hsame hop rfl
    | aS2S1a | aS2S1c | aS2S1e | aS3S1a | aS3S1b | aS4S1a | aS4S1b | aS5S1a | aS5S1b | aS5S1c
    | aUnexpectedEvent =>
      cases h
      cases hop

/-- **The idle machine** waits for the confirm of a Deliver result only after it has taken a segment. -/
theorem runMachine_idle_guards (hc : s.curState = .s1Idle) (hg : m.receiver.Open)
    (h : s.runMachine v evt m env = some (t, o)) : ∀ m' ∈ t.op, Guards t.curState m' := by
  rw [Performing.runMachine_eq, hc] at h
  obtain ⟨⟨target, m', o'⟩, hfired, h⟩ := Option.bind_eq_some_iff.1 h
  obtain ⟨a, hact, he⟩ := Option.map_eq_some_iff.1 h
  obtain ⟨⟨m₁, ok, o₁⟩, hp, he'⟩ := Option.map_eq_some_iff.1 hfired
  cases he'
  cases he
  have hop : a.op = some m₁ := performAction_idleTarget hact
  intro m' hm'
  obtain rfl : m₁ = m' := Option.some.inj (hop.symm.trans hm')
  constructor
  · intro hidle
    exact absurd hidle (idleTarget_state ok m₁)
  · intro hbusy
    obtain rfl := idleTarget_busy hbusy
    exact pS1S2a_covered hg hp

/-- **The machine that waits for the confirm of a Deliver result** keeps the receiver as it is. -/
theorem runMachine_result_guards (hc : s.curState = .s2DeliverResultResponseWait)
    (hg : m.receiver.Covered) (h : s.runMachine v evt m env = some (t, o)) :
    ∀ m' ∈ t.op, Guards t.curState m' := by
  rw [Performing.runMachine_eq, hc] at h
  obtain ⟨a, hact, he⟩ := Option.map_eq_some_iff.1 h
  cases he
  -- what is asked in this state is all that can be asked
  have hboth : ∀ st, Guards st m := fun st => ⟨fun _ => hg.open_, fun _ => hg⟩
  intro m' hm'
  exact (hboth _).congr (performAction_receiver hact hm').1

/-- **One event** keeps the operation with its timer. -/
theorem runMachine_guards (hg : Guards s.curState m) (h : s.runMachine v evt m env = some (t, o)) :
    ∀ m' ∈ t.op, Guards t.curState m' := by
  cases hc : s.curState with
  | s1Idle => exact runMachine_idle_guards hc (hg.idle hc) h
  | s2DeliverResultResponseWait => exact runMachine_result_guards hc (hg.busy hc) h
  | _ =>
    -- any event frees the operation
    rw [Performing.runMachine_eq, hc] at h
    cases evt <;> (cases h; exact guards_freed rfl)

/-- An INVOKE is put on the queue of an operation that has its timer. -/
theorem pend_guards {p : Pending} {e : InvokeEnv} (hg : Guards s.curState m)
    (h : s.pend m p e = (t, o)) : ∀ m' ∈ t.op, Guards t.curState m' := by
  have hqueued : ∀ m', some { m with pendingQHead := m.pendingQHead ++ [p] } = some m' →
      Guards s.curState m' := by
    rintro m' ⟨⟩
    exact hg.congr rfl
  unfold Performing.pend at h
  split at h
  · cases h
    exact guards_freed rfl
  · split at h
    · cases h
      exact guards_freed rfl
    · dsimp only at h
      split at h
      · cases h
        exact hqueued
      · cases h
        exact hqueued

theorem Guarded.step (hs : Guarded s) (h : (performing v).step s i = some (t, o)) : Guarded t := by
  refine ⟨hs.fresh.step h, start_step hs.fresh hs.start h, ?_⟩
  have hindication : ∀ (id : InvokeId) (concluded : List Request) (evt : FsmEvent) (memGet : Bool),
      ∀ m ∈ (s.indication id concluded evt memGet).op,
        Guards (s.indication id concluded evt memGet).curState m := by
    intro id concluded evt memGet
    rw [(indication_op _ _ _ _ _).1, indication_curState]
    exact hs.guards
  unfold performing Performing.step at h
  cases i with
  | invokeIndication p e =>
    dsimp only at h
    split at h
    · rename_i m halloc hop
      exact pend_guards (hs.guards m hop) (Option.some.inj h)
    · cases h
    · rename_i halloc
      split at h
      · -- nothing has been received by a new operation
        have hnew : Guards s.curState {} := by
          rw [hs.start halloc]
          exact ⟨fun _ => .inl rfl, fun hbusy => by cases hbusy⟩
        exact pend_guards (s := { s with allocated := true }) hnew (Option.some.inj h)
      · cases h
        exact hs.guards
  | segmentationTimerExpired =>
    obtain ⟨m, hop, h⟩ := Option.bind_eq_some_iff.1 h
    split at h
    · cases h
      exact guards_freed rfl
    · cases h
  | schRun env =>
    dsimp only at h
    split at h
    · cases h
      exact hs.guards
    · rename_i evt events hevents
      obtain ⟨m, hop, hrun⟩ := Option.bind_eq_some_iff.1 h
      exact runMachine_guards (s := { s with events }) (hs.guards m hop) hrun
  | resultIndication id =>
    cases h
    exact hs.guards
  | _ =>
    cases h
    exact hindication _ _ _ _

/-- **In every run** an operation that has segments to come has its timer. -/
theorem Guarded.of_reach (hr : Run.Reach (performing v) Run.any h s) : Guarded s := by
  refine hr.invariant (P := Guarded) ?_ ?_
  · rintro s rfl
    exact ⟨fun _ => rfl, fun _ => rfl, guards_freed rfl⟩
  · intro s i t o hs _ hstep
    exact hs.step hstep

/-! ## The three transitions -/

/-- `pS2S1e`: there are segments to come, and no verification could be done anyway. -/
theorem pS2S1e_iff : pS2S1e v m = true ↔
    m.receiver.bComplete = false ∧ ¬(m.performer2Way = false ∧ v = true) := by
  unfold pS2S1e
  cases m.receiver.bComplete <;> cases m.performer2Way <;> cases v <;> decide

/-- `pS2S1d`: nothing is left to verify. -/
theorem pS2S1dPerform_iff : pS2S1dPerform v m = true ↔ ¬VerifyLeft v m := by
  unfold pS2S1dPerform VerifyLeft
  cases m.receiver.bComplete <;> cases m.performer2Way <;> cases v <;> decide

/-- `pS2S1e` frees an operation with segments to come. -/
theorem failing_early (env : PerformEnv) (hc : s.curState = .s2DeliverResultResponseWait)
    (he : pS2S1e v m = true) : ∃ t, s.runMachine v .failureIndication m env = some (t, [.freed]) ∧
      t.op = none := by
  rw [Performing.runMachine_eq, hc]
  dsimp only [Perform.fired, Perform.resultTarget]
  rw [if_pos he]
  exact ⟨_, rfl, rfl⟩

/-- `pS2S1d`: the operation is left to its timer, and freed when it has none. -/
theorem failing_idle (env : PerformEnv) (hc : s.curState = .s2DeliverResultResponseWait)
    (he : ¬pS2S1e v m = true) (hd : pS2S1dPerform v m = true) :
    ∃ t o, s.runMachine v .failureIndication m env = some (t, o) ∧ t.curState = .s1Idle ∧
      t.events = s.events ∧ t.op = if m.receiver.hSegmentationTimer then some m else none := by
  rw [Performing.runMachine_eq, hc]
  dsimp only [Perform.fired, Perform.resultTarget]
  rw [if_neg he, if_pos hd]
  exact ⟨_, _, rfl, rfl, List.append_nil _, rfl⟩

/-- Otherwise the MTS is asked. -/
theorem failing_verify (env : PerformEnv) (hc : s.curState = .s2DeliverResultResponseWait)
    (he : ¬pS2S1e v m = true) (hd : ¬pS2S1dPerform v m = true) :
    ∃ t o m', s.runMachine v .failureIndication m env = some (t, o) ∧ t.op = some m' ∧
      m'.receiver = m.receiver ∧ m'.pendingQHead = m.pendingQHead := by
  rw [Performing.runMachine_eq, hc]
  dsimp only [Perform.fired, Perform.resultTarget]
  rw [if_neg he, if_neg hd]
  cases hi : env.invokeReq with
  | none =>
    refine ⟨_, _, m, rfl, ?_, rfl, rfl⟩
    dsimp only [performS2S3a]
    rw [hi]
  | some id =>
    refine ⟨_, _, { m with invokeId := some id }, rfl, ?_, rfl, rfl⟩
    dsimp only [performS2S3a]
    rw [hi]

/-- **A FAILURE.indication keeps what has been received** if and only if all segments have been
received, or the INVOKE came over the 3-way SAP, Delivery Verify is supported and no segment is left
behind on the queue. -/
theorem failure_keeps_iff {rest : List FsmEvent} (hr : Run.Reach (performing v) Run.any h s)
    (hc : s.curState = .s2DeliverResultResponseWait) (hop : s.op = some m)
    (he : s.events = .failureIndication :: rest) (env : PerformEnv) :
    ∃ t o, (performing v).step s (.schRun env) = some (t, o) ∧
      (KeepsReceived v m t ↔ m.receiver.bComplete = true ∨
        m.performer2Way = false ∧ v = true ∧ Behind m rest) := by
  have hcov : m.receiver.Covered := ((Guarded.of_reach hr).guards m hop).busy hc
  have hstep : (performing v).step s (.schRun env) =
      Performing.runMachine v { s with events := rest } .failureIndication m env := by
    unfold performing Performing.step
    simp only [he, hop, Option.bind_some]
  rw [hstep]
  by_cases h1e : pS2S1e v m = true
  · obtain ⟨t, ht, hnone⟩ := failing_early (s := { s with events := rest }) env hc h1e
    -- `pS2S1e` frees an operation that has segments to come
    obtain ⟨hmore, hno⟩ := pS2S1e_iff.1 h1e
    refine ⟨t, _, ht, iff_of_false ?_ ?_⟩
    · intro hk
      exact absurd (hmore.symm.trans (hk.freed hnone).1) (by decide)
    · rintro (hall | ⟨hsap, hv, -⟩)
      · exact absurd (hmore.symm.trans hall) (by decide)
      · exact hno ⟨hsap, hv⟩
  · by_cases h1d : pS2S1dPerform v m = true
    · obtain ⟨t, o, ht, hidle, hevents, hfate⟩ :=
        failing_idle (s := { s with events := rest }) env hc h1e h1d
      -- `pS2S1d` leaves it to its timer
      have hleft := pS2S1dPerform_iff.1 h1d
      refine ⟨t, o, ht, ?_⟩
      cases hall : m.receiver.bComplete with
      | true =>
        -- nothing is promised about an operation that is done
        refine iff_of_true ⟨fun _ => ⟨hall, hleft⟩, ?_, ?_⟩ (.inl rfl)
        · rintro (hno | hyes)
          · exact absurd (hall.symm.trans hno) (by decide)
          · exact absurd hyes hleft
        · intro hno
          exact absurd (hall.symm.trans hno) (by decide)
      | false =>
        -- the timer runs
        have htimer : m.receiver.hSegmentationTimer = true :=
          hcov.resolve_left (by rw [hall]; decide)
        rw [if_pos htimer] at hfate
        have hverify : m.performer2Way = false ∧ v = true := by
          by_contra hno
          exact h1e (pS2S1e_iff.2 ⟨hall, hno⟩)
        constructor
        · intro hk
          have hq := (hk.more hall).2
          rw [hevents] at hq
          exact .inr ⟨hverify.1, hverify.2, hq⟩
        · rintro (hno | ⟨-, -, hq⟩)
          · cases hno
          · refine ⟨fun hnone => ?_, fun _ => ⟨m, hfate, rfl, rfl⟩, fun _ => ⟨hidle, ?_⟩⟩
            · rw [hfate] at hnone
              cases hnone
            · rw [hevents]
              exact hq
    · obtain ⟨t, o, m', ht, hkept, hsame⟩ :=
        failing_verify (s := { s with events := rest }) env hc h1e h1d
      -- no predicate: all segments are there, and a verification is left to be done
      have hleft : VerifyLeft v m := by
        by_contra hno
        exact h1d (pS2S1dPerform_iff.2 hno)
      refine ⟨t, o, ht, iff_of_true ⟨?_, fun _ => ⟨m', hkept, hsame⟩, ?_⟩ (.inl hleft.1)⟩
      · intro hnone
        rw [hkept] at hnone
        cases hnone
      · intro hno
        exact absurd (hleft.1.symm.trans hno) (by decide)

/-- With Delivery Verify, the first of two segments over the 3-way SAP is kept. -/
theorem failure_keeps_first : ∃ s h m t o, Run.Reach (performing true) Run.any h s ∧
    s.op = some m ∧ m.receiver.bComplete = false ∧
    (performing true).step s (.schRun {}) = some (t, o) ∧ KeepsReceived true m t := by
  obtain ⟨s, h, hr, hp⟩ := Run.Reach.of_run_any (S := performing true) (s := {}) rfl
    [.invokeIndication firstPending {}, .schRun {}, .failureIndication 0 true]
    (fun s _ => decide (s.curState = .s2DeliverResultResponseWait ∧
      s.events = [.failureIndication] ∧ (s.op.map fun m => (m.receiver.bComplete, m.performer2Way,
        m.pendingQHead)) = some (false, false, []))) (by decide +kernel)
  obtain ⟨hc, he, hm⟩ := of_decide_eq_true hp
  obtain ⟨m, hop, hfields⟩ := Option.map_eq_some_iff.1 hm
  simp only [Prod.mk.injEq] at hfields
  obtain ⟨hmore, hsap, hq⟩ := hfields
  obtain ⟨t, o, hstep, hkeeps⟩ := failure_keeps_iff hr hc hop he {}
  exact ⟨s, h, m, t, o, hr, hop, hmore, hstep, hkeeps.2 (.inr ⟨hsap, rfl, .inl hq⟩)⟩

/-- As `UA_init` leaves it, without Delivery Verify, the first of two segments is freed when its
RESULT fails. -/
theorem received_freed : ∃ s h m t, Run.Reach (performing false) Run.any h s ∧
    s.curState = .s2DeliverResultResponseWait ∧ s.op = some m ∧ m.receiver.bComplete = false ∧
    s.events = [.failureIndication] ∧
    (performing false).step s (.schRun {}) = some (t, [.freed]) ∧ ¬KeepsReceived false m t := by
  obtain ⟨s, h, hr, hp⟩ := Run.Reach.of_run_any (S := performing false) (s := {}) rfl
    [.invokeIndication firstPending {}, .schRun {}, .failureIndication 0 true]
    (fun s _ => decide (s.curState = .s2DeliverResultResponseWait ∧
      s.events = [.failureIndication] ∧ (s.op.map fun m => m.receiver.bComplete) = some false))
    (by decide +kernel)
  obtain ⟨hc, he, hm⟩ := of_decide_eq_true hp
  obtain ⟨m, hop, hmore⟩ := Option.map_eq_some_iff.1 hm
  have h1e : pS2S1e false m = true := pS2S1e_iff.2 ⟨hmore, by simp⟩
  obtain ⟨t, ht, hnone⟩ := failing_early (s := { s with events := [] }) {} hc h1e
  have hstep : (performing false).step s (.schRun {}) = some (t, [.freed]) := by
    rw [← ht]
    unfold performing Performing.step
    simp only [he, hop, Option.bind_some]
  refine ⟨s, h, m, t, hr, hc, hop, hmore, he, hstep, ?_⟩
  intro hk
  exact absurd (hmore.symm.trans (hk.freed hnone).1) (by decide)

end Ua
