import Emsd.Ua.Performer
import Mathlib.Data.List.Infix

/-!
# The queue of pending invocations (`ua/uacore/uperform.c`, `upreproc.c`)

An INVOKE for an operation is put on its queue with an event for the machine. The machine takes one
off the queue whenever it fires in its idle state, and queues another event when it comes back there.

* `queue_drained`: **the queue never sticks** and each INVOKE is taken once, in order, in every run in which
  no operation is freed with an INVOKE on its queue, or left idle with one and no event; and the
  first step that does so ends this.
* `segment_abandoned`: the FAILURE.indication of one segment frees the operation with the next segment
  on its queue, since `pS2S1e` is true before all segments have been received.
-/

namespace Ua

open Ocp Mtsua Table

/-- What has been put on the queue, in order. -/
def pended (h : List PerformOut) : List Pending :=
  h.filterMap fun
    | .pended p => some p
    | _ => none

/-- What the machine has taken off it, in order. -/
def taken (h : List PerformOut) : List Pending :=
  h.filterMap fun
    | .taken p => some p
    | _ => none

@[simp]
theorem pended_append (h o : List PerformOut) : pended (h ++ o) = pended h ++ pended o :=
  List.filterMap_append

@[simp]
theorem taken_append (h o : List PerformOut) : taken (h ++ o) = taken h ++ taken o :=
  List.filterMap_append

/-- The queue of the operation; a freed operation has none. -/
def Performing.pending (s : Performing) : List Pending :=
  (s.op.map Performer.pendingQHead).getD []

/-- **The queue does not stick**: what has been put on it has been taken, in order, or is still on
it; and an idle machine with something on it has an event for that. -/
structure Drained (s : Performing) (h : List PerformOut) : Prop where
  once : pended h = taken h ++ s.pending
  queued : s.curState = .s1Idle → s.pending ≠ [] → .invokeIndication ∈ s.events

/-! ## The condition -/

/-- Nothing is on the queue, or its event is queued behind the one that is handled. -/
def Behind (m : Performer) (events : List FsmEvent) : Prop :=
  m.pendingQHead = [] ∨ .invokeIndication ∈ events

/-- The transition that fires in the state that waits for the confirm of a Deliver result: it frees no
operation with an INVOKE on its queue, and leaves none behind without an event. -/
def AttendedResult (bDeliveryVerifySupported : Bool) (m : Performer) (events : List FsmEvent)
    (env : PerformEnv) : FsmEvent → Prop
  | .resultConfirm =>
    if allReceived m then m.pendingQHead = [] else Behind m events ∨ env.memGet 0 = true
  | .failureIndication =>
    if pS2S1e bDeliveryVerifySupported m then m.pendingQHead = []
    else if pS2S1dPerform bDeliveryVerifySupported m then
      if m.receiver.hSegmentationTimer then Behind m events else m.pendingQHead = []
    else True
  | _ => True

/-- The step frees no operation with an INVOKE on its queue, and leaves none idle with one and no
event. -/
def Attended (bDeliveryVerifySupported : Bool) (s : Performing) : PerformInput → Prop
  | .invokeIndication p env =>
    if s.allocated = false ∧ env.allocOperation = false then True
    else if env.allocPending = false then s.pending = []
    else env.addUserFree = true ∧
      (s.curState = .s1Idle → .invokeIndication ∈ s.events ∨
        (p.invoked = .submissionVerify ∨ env.addExtraFree = true) ∧ env.memGet = true)
  | .segmentationTimerExpired => s.pending = []
  | .schRun env =>
    match s.events, s.op with
    | evt :: events, some m =>
      match s.curState with
      | .s1Idle => True
      | .s2DeliverResultResponseWait =>
        AttendedResult bDeliveryVerifySupported m events env evt
      | _ => m.pendingQHead = []
    | _, _ => True
  | _ => True

instance (m : Performer) (events : List FsmEvent) : Decidable (Behind m events) :=
  inferInstanceAs (Decidable (_ ∨ _))

instance (v : Bool) (m : Performer) (events : List FsmEvent) (env : PerformEnv) (evt : FsmEvent) :
    Decidable (AttendedResult v m events env evt) := by
  cases evt <;> unfold AttendedResult <;> infer_instance

instance (v : Bool) (s : Performing) (i : PerformInput) : Decidable (Attended v s i) := by
  cases i with
  | schRun env => unfold Attended; dsimp only; split <;> (try split) <;> infer_instance
  | invokeIndication p env => unfold Attended; infer_instance
  | _ => unfold Attended; infer_instance

/-! ## What one step does -/

variable {v : Bool} {s t : Performing} {i : PerformInput} {o h : List PerformOut} {m : Performer}
  {evt : FsmEvent} {env : PerformEnv}

/-- What a step does to the queue: what was on it and what comes is taken or on it afterwards, and an
idle machine with something on it has an event. -/
def Flows (pending : List Pending) (t : Performing) (o : List PerformOut) : Prop :=
  pending ++ pended o = taken o ++ t.pending ∧
    (t.curState = .s1Idle → t.pending ≠ [] → .invokeIndication ∈ t.events)

theorem Drained.step_of (hd : Drained s h) : Drained t (h ++ o) ↔ Flows s.pending t o := by
  have honce : pended (h ++ o) = taken (h ++ o) ++ t.pending ↔
      s.pending ++ pended o = taken o ++ t.pending := by
    rw [pended_append, taken_append, hd.once, List.append_assoc, List.append_assoc,
      List.append_cancel_left_eq]
  constructor
  · intro ht
    exact ⟨honce.1 ht.once, ht.queued⟩
  · rintro ⟨hp, hq⟩
    exact ⟨honce.2 hp, hq⟩

/-- A step that frees the operation. -/
theorem flows_freed {pending : List Pending} (ht : t.op = none) (hp : pended o = [])
    (hk : taken o = []) : Flows pending t o ↔ pending = [] := by
  have hnone : t.pending = [] := by
    unfold Performing.pending
    rw [ht]
    rfl
  unfold Flows
  rw [hp, hk, hnone, List.append_nil]
  exact and_iff_left fun _ hne => absurd rfl hne

/-- A step that takes nothing off the queue. -/
theorem flows_kept {pending : List Pending} (ht : t.pending = pending ++ pended o)
    (hk : taken o = []) : Flows pending t o ↔
      (t.curState = .s1Idle → t.pending ≠ [] → .invokeIndication ∈ t.events) := by
  unfold Flows
  rw [hk, ht, List.nil_append]
  exact and_iff_right rfl

/-- The operation goes back to the idle state with the queue as it is. -/
theorem flows_idle (hop : t.op.map Performer.pendingQHead = some m.pendingQHead)
    (hs : t.curState = .s1Idle) : Flows m.pendingQHead t [] ↔ Behind m t.events := by
  have ht : t.pending = m.pendingQHead := by
    unfold Performing.pending
    rw [hop]
    rfl
  rw [flows_kept (by rw [ht]; exact (List.append_nil _).symm) rfl, ht, hs]
  unfold Behind
  constructor
  · intro h
    by_cases hempty : m.pendingQHead = []
    · exact .inl hempty
    · exact .inr (h rfl hempty)
  · rintro (hempty | hmem) - hne
    · exact absurd hempty hne
    · exact hmem

/-- The operation goes on in another state with the queue as it is. -/
theorem flows_busy (hop : t.op.map Performer.pendingQHead = some m.pendingQHead)
    (hs : t.curState ≠ .s1Idle) : Flows m.pendingQHead t [] := by
  have ht : t.pending = m.pendingQHead := by
    unfold Performing.pending
    rw [hop]
    rfl
  rw [flows_kept (by rw [ht]; exact (List.append_nil _).symm) rfl]
  intro hidle
  exact absurd hidle hs

/-- `aS2S1b` generates an event if something is on the queue. -/
theorem behind_generated (m : Performer) (events : List FsmEvent) (env : PerformEnv) :
    Behind m (events ++ (performS2S1b env m).events) ↔ Behind m events ∨ env.memGet 0 = true := by
  unfold Behind performS2S1b generated
  by_cases hempty : m.pendingQHead = []
  · simp [hempty]
  · by_cases hmem : env.memGet 0 = true <;> simp [hempty, hmem]

/-- The delivery itself leaves the queue alone. -/
theorem pS1S2aDeliver_pendingQHead {arg : DeliverArgument} {m' : Performer} {ok : Bool}
    (h : pS1S2aDeliver env m arg = some (m', ok)) : m'.pendingQHead = m.pendingQHead := by
  unfold pS1S2aDeliver at h
  split at h
  · cases h
    rfl
  · split at h
    · cases h
    · cases h
      rfl

/-- The predicate takes what is first on the queue. -/
theorem pS1S2a_taken {m' : Performer} {ok : Bool} (h : pS1S2a env m = some (m', ok, o)) :
    m.pendingQHead = taken o ++ m'.pendingQHead ∧ pended o = [] := by
  unfold pS1S2a at h
  split at h
  · rename_i hq
    cases h
    exact ⟨rfl, rfl⟩
  · rename_i p pending hq
    rw [hq]
    split at h
    · cases h
      exact ⟨rfl, rfl⟩
    · obtain ⟨⟨m₁, ok₁⟩, hdeliver, he⟩ := Option.map_eq_some_iff.1 h
      cases he
      have hqueue : m₁.pendingQHead = pending := pS1S2aDeliver_pendingQHead hdeliver
      exact ⟨by rw [hqueue]; rfl, rfl⟩

/-- The actions of the idle machine keep the operation as it is. -/
theorem performAction_idleTarget {ok : Bool} {a : Acted}
    (h : performAction env m (Perform.idleTarget ok m).1 = some a) : a.op = some m := by
  unfold Perform.idleTarget at h
  split at h
  · cases h
    unfold performS1S2a
    split <;> rfl
  · split at h
    · dsimp only [performAction] at h
      unfold performS1S5a at h
      split at h
      · cases h
      · cases h
        rfl
    · split at h
      · cases h
        rfl
      · cases h
        rfl

theorem idleTarget_state (ok : Bool) (m : Performer) :
    (Perform.idleTarget ok m).2 ≠ .s1Idle := by
  unfold Perform.idleTarget
  repeat' split
  all_goals decide

/-- **The idle machine** takes one invocation whatever the event is, and leaves its state. -/
theorem runMachine_idle (hs : s.curState = .s1Idle)
    (h : s.runMachine v evt m env = some (t, o)) : Flows m.pendingQHead t o := by
  rw [Performing.runMachine_eq, hs] at h
  obtain ⟨⟨target, m', o'⟩, hfired, h⟩ := Option.bind_eq_some_iff.1 h
  obtain ⟨a, hact, he⟩ := Option.map_eq_some_iff.1 h
  obtain ⟨⟨m₁, ok, o₁⟩, hp, he'⟩ := Option.map_eq_some_iff.1 hfired
  cases he'
  obtain ⟨htaken, hpended⟩ := pS1S2a_taken hp
  have hop : a.op = some m₁ := performAction_idleTarget hact
  cases he
  constructor
  · dsimp only [Performing.pending]
    rw [hop, pended_append, taken_append, hpended, htaken]
    exact (List.append_nil _).trans (by rw [List.append_assoc]; rfl)
  · intro hidle
    exact absurd hidle (idleTarget_state ok m₁)

/-- A machine that waits for the end of its operation frees it, whatever the event is. -/
theorem runMachine_last (h1 : s.curState ≠ .s1Idle) (h2 : s.curState ≠ .s2DeliverResultResponseWait)
    (h : s.runMachine v evt m env = some (t, o)) :
    Flows m.pendingQHead t o ↔ m.pendingQHead = [] := by
  have hfreed : t.op = none ∧ o = [.freed] := by
    rw [Performing.runMachine_eq] at h
    cases hc : s.curState with
    | s1Idle => exact absurd hc h1
    | s2DeliverResultResponseWait => exact absurd hc h2
    | _ =>
      rw [hc] at h
      cases evt <;> (cases h; exact ⟨rfl, rfl⟩)
  obtain ⟨hop, rfl⟩ := hfreed
  exact flows_freed hop rfl rfl

/-- **The machine that waits for the confirm of a Deliver result** keeps the queue going exactly
then. -/
theorem runMachine_result (hs : s.curState = .s2DeliverResultResponseWait)
    (h : s.runMachine v evt m env = some (t, o)) :
    Flows m.pendingQHead t o ↔ AttendedResult v m s.events env evt := by
  rw [Performing.runMachine_eq, hs] at h
  unfold Perform.fired AttendedResult at *
  cases evt with
  | resultConfirm =>
    dsimp only [Perform.resultTarget] at h ⊢
    split at h
    · -- `aS2S1a`
      rename_i hall
      rw [if_pos hall]
      cases h
      exact flows_freed rfl rfl rfl
    · -- `aS2S1b`
      rename_i hmore
      rw [if_neg hmore]
      cases h
      rw [← behind_generated m s.events env]
      exact flows_idle rfl rfl
  | failureIndication =>
    dsimp only [Perform.resultTarget] at h ⊢
    split at h
    · -- `aS2S1e`
      rename_i he
      rw [if_pos he]
      cases h
      exact flows_freed rfl rfl rfl
    · rename_i he
      rw [if_neg he]
      split at h
      · -- `aS2S1d`
        rename_i hd
        rw [if_pos hd]
        by_cases ht : m.receiver.hSegmentationTimer = true
        · rw [if_pos ht]
          have hact : performS2S1d m = { op := some m } := by
            unfold performS2S1d
            rw [if_pos ht]
          dsimp only [Option.bind_some, performAction, Option.map_some] at h
          rw [hact] at h
          cases h
          rw [List.append_nil]
          exact flows_idle rfl rfl
        · rw [if_neg ht]
          have hact : performS2S1d m = { op := none } := by
            unfold performS2S1d
            rw [if_neg ht]
          dsimp only [Option.bind_some, performAction, Option.map_some] at h
          rw [hact] at h
          cases h
          exact flows_freed rfl rfl rfl
      · -- `aS2S3a`
        rename_i hd
        rw [if_neg hd]
        dsimp only [Option.bind_some, performAction, Option.map_some, performS2S3a] at h
        cases hi : env.invokeReq with
        | none =>
          rw [hi] at h
          cases h
          exact iff_of_true (flows_busy rfl nofun) trivial
        | some id =>
          rw [hi] at h
          cases h
          exact iff_of_true (flows_busy rfl nofun) trivial
  | _ =>
    -- `aS2S2a`
    cases h
    exact iff_of_true (flows_busy rfl nofun) trivial

/-- An INVOKE for the operation is put on its queue, and an event for it unless the machine is busy. -/
theorem pend_flows {p : Pending} {env : InvokeEnv} (h : s.pend m p env = (t, o)) :
    Flows m.pendingQHead t o ↔
      if env.allocPending = false then m.pendingQHead = []
      else env.addUserFree = true ∧
        (s.curState = .s1Idle → .invokeIndication ∈ s.events ∨
          (p.invoked = .submissionVerify ∨ env.addExtraFree = true) ∧ env.memGet = true) := by
  unfold Performing.pend at h
  split at h
  · rename_i ha
    rw [if_pos ha]
    cases h
    exact flows_freed rfl rfl rfl
  · rename_i ha
    rw [if_neg ha]
    split at h
    · -- it is lost with the operation
      rename_i hu
      cases h
      have hlost : ¬Flows m.pendingQHead { s with op := none } [.pended p, .freed] := by
        rintro ⟨honce, -⟩
        exact List.append_ne_nil_of_right_ne_nil _ (List.cons_ne_nil p []) honce
      exact iff_of_false hlost fun hok => absurd hu (by rw [hok.1]; decide)
    · rename_i hu
      have huser : env.addUserFree = true := by simpa using hu
      rw [and_iff_right huser]
      have hne : m.pendingQHead ++ [p] ≠ [] :=
        List.append_ne_nil_of_right_ne_nil _ (List.cons_ne_nil p [])
      split at h
      · -- no event is generated
        rename_i hx
        cases h
        rw [flows_kept rfl rfl]
        constructor
        · intro hq hidle
          exact .inl (hq hidle hne)
        · intro hq hidle _
          rcases hq hidle with hmem | ⟨hv | hf, -⟩
          · exact hmem
          · exact absurd hv hx.1
          · exact absurd hf (by rw [hx.2]; decide)
      · rename_i hx
        have hevent : p.invoked = .submissionVerify ∨ env.addExtraFree = true := by
          by_cases hv : p.invoked = .submissionVerify
          · exact .inl hv
          · right
            cases hextra : env.addExtraFree with
            | true => rfl
            | false => exact absurd ⟨hv, hextra⟩ hx
        cases h
        rw [flows_kept rfl rfl, and_iff_right hevent]
        dsimp only [Performing.generateEvent]
        rw [List.mem_append]
        constructor
        · intro hq hidle
          rcases hq hidle hne with hmem | hmem
          · exact .inl hmem
          · right
            by_contra hno
            rw [if_neg hno] at hmem
            cases hmem
        · intro hq hidle _
          rcases hq hidle with hmem | hmem
          · exact .inl hmem
          · right
            rw [if_pos hmem]
            exact List.mem_singleton_self _

/-- What changes neither the queue nor the state, and takes no event away. -/
theorem Drained.flows_same (hd : Drained s h) (hp : t.pending = s.pending)
    (hc : t.curState = s.curState) (he : s.events ⊆ t.events) : Flows s.pending t [] := by
  rw [flows_kept (by rw [hp]; exact (List.append_nil _).symm) rfl, hp, hc]
  intro hidle hne
  exact he (hd.queued hidle hne)

theorem Drained.indication {invokeId : InvokeId} {concluded : List Request} {memGet : Bool}
    (hd : Drained s h) : Flows s.pending (s.indication invokeId concluded evt memGet) [] := by
  unfold Performing.indication
  dsimp only
  split
  · split
    · exact hd.flows_same rfl rfl (List.subset_append_left _ _)
    · exact hd.flows_same rfl rfl (List.Subset.refl _)
  · exact hd.flows_same rfl rfl (List.Subset.refl _)

/-! ## Runs -/

/-- An operation that has not been allocated is none. -/
def Fresh (s : Performing) : Prop := s.allocated = false → s.op = none

theorem pending_some (hop : s.op = some m) : s.pending = m.pendingQHead := by
  unfold Performing.pending
  rw [hop]
  rfl

theorem pending_none (hop : s.op = none) : s.pending = [] := by
  unfold Performing.pending
  rw [hop]
  rfl

theorem runMachine_allocated (h : s.runMachine v evt m env = some (t, o)) :
    t.allocated = s.allocated := by
  rw [Performing.runMachine_eq] at h
  obtain ⟨r, -, h⟩ := Option.bind_eq_some_iff.1 h
  obtain ⟨a, -, he⟩ := Option.map_eq_some_iff.1 h
  cases he
  rfl

theorem pend_allocated (s : Performing) (m : Performer) (p : Pending) (env : InvokeEnv) :
    (s.pend m p env).1.allocated = s.allocated := by
  unfold Performing.pend
  split
  · rfl
  · split
    · rfl
    · dsimp only
      split <;> rfl

theorem indication_op (s : Performing) (invokeId : InvokeId) (concluded : List Request)
    (evt : FsmEvent) (memGet : Bool) :
    (s.indication invokeId concluded evt memGet).op = s.op ∧
      (s.indication invokeId concluded evt memGet).allocated = s.allocated := by
  unfold Performing.indication
  dsimp only
  split
  · split <;> exact ⟨rfl, rfl⟩
  · exact ⟨rfl, rfl⟩

theorem Fresh.step (hf : Fresh s) (hs : (performing v).step s i = some (t, o)) : Fresh t := by
  unfold performing Performing.step at hs
  have hkept : ∀ {t : Performing}, t.op = s.op ∧ t.allocated = s.allocated → Fresh t := by
    rintro t ⟨hop, ha⟩ hno
    rw [hop]
    exact hf (ha ▸ hno)
  have hsome : ∀ {m}, s.op = some m → s.allocated = true := by
    intro m hop
    cases ha : s.allocated with
    | true => rfl
    | false => exact absurd ((hf ha).symm.trans hop) (by simp)
  cases i with
  | invokeIndication p env =>
    have hpend : ∀ {s' : Performing} {m}, s'.allocated = true → s'.pend m p env = (t, o) →
        Fresh t := by
      intro s' m ha h hno
      have hkeep : t.allocated = s'.allocated := by
        rw [← pend_allocated s' m p env, h]
      exact absurd ((hkeep.trans ha).symm.trans hno) (by decide)
    dsimp only at hs
    split at hs
    · rename_i ha hop
      exact hpend ha (Option.some.inj hs)
    · cases hs
    · split at hs
      · exact hpend rfl (Option.some.inj hs)
      · cases hs
        exact hf
  | segmentationTimerExpired =>
    obtain ⟨m, hop, hs⟩ := Option.bind_eq_some_iff.1 hs
    split at hs
    · cases hs
      exact fun _ => rfl
    · cases hs
  | schRun env =>
    dsimp only at hs
    split at hs
    · cases hs
      exact hf
    · obtain ⟨m, hop, hrun⟩ := Option.bind_eq_some_iff.1 hs
      intro hno
      rw [runMachine_allocated hrun] at hno
      exact absurd ((hsome hop).symm.trans hno) (by decide)
  | resultIndication id =>
    cases hs
    exact hf
  | _ =>
    cases hs
    exact hkept (indication_op _ _ _ _ _)

/-- **A step** keeps the queue going if and only if it is attended. -/
theorem Drained.step_iff (hd : Drained s h) (hf : Fresh s)
    (hs : (performing v).step s i = some (t, o)) : Drained t (h ++ o) ↔ Attended v s i := by
  rw [hd.step_of]
  unfold performing Performing.step at hs
  cases i with
  | invokeIndication p env =>
    dsimp only at hs
    split at hs
    · rename_i m ha hop
      have hflows := pend_flows (Option.some.inj hs)
      rw [← pending_some hop] at hflows
      have hatt : ¬(s.allocated = false ∧ env.allocOperation = false) := by simp [ha]
      unfold Attended
      dsimp only
      rw [if_neg hatt]
      exact hflows
    · cases hs
    · rename_i ha
      have hempty : s.pending = [] := pending_none (hf ha)
      split at hs
      · rename_i halloc
        have hflows := pend_flows (Option.some.inj hs)
        have hatt : ¬(s.allocated = false ∧ env.allocOperation = false) := by simp [halloc]
        unfold Attended
        dsimp only
        rw [if_neg hatt, hempty]
        exact hflows
      · rename_i halloc
        cases hs
        unfold Attended
        dsimp only
        rw [if_pos ⟨ha, by simpa using halloc⟩]
        exact iff_of_true (hd.flows_same rfl rfl (List.Subset.refl _)) trivial
  | segmentationTimerExpired =>
    obtain ⟨m, hop, hs⟩ := Option.bind_eq_some_iff.1 hs
    split at hs
    · cases hs
      exact flows_freed rfl rfl rfl
    · cases hs
  | schRun env =>
    dsimp only at hs
    cases hevents : s.events with
    | nil =>
      rw [hevents] at hs
      cases hs
      unfold Attended
      simp only [hevents]
      exact iff_of_true (hd.flows_same rfl rfl (List.Subset.refl _)) trivial
    | cons evt events =>
      rw [hevents] at hs
      obtain ⟨m, hop, hrun⟩ := Option.bind_eq_some_iff.1 hs
      unfold Attended
      simp only [hevents, hop]
      rw [pending_some hop]
      cases hc : s.curState with
      | s1Idle => exact iff_of_true (runMachine_idle (s := { s with events }) hc hrun) trivial
      | s2DeliverResultResponseWait => exact runMachine_result (s := { s with events }) hc hrun
      | _ => exact runMachine_last (s := { s with events }) (hc ▸ nofun) (hc ▸ nofun) hrun
  | resultIndication id =>
    cases hs
    exact iff_of_true (hd.flows_same rfl rfl (List.Subset.refl _)) trivial
  | _ =>
    cases hs
    exact iff_of_true hd.indication trivial

/-- **The queue never sticks**, and each INVOKE is taken once, in order, in every run whose steps are
all attended; the first step that is not ends this. -/
theorem queue_drained (hr : Run.Reach (performing v) (Attended v) h s) :
    Drained s h ∧ ∀ i t o, (performing v).step s i = some (t, o) →
      (Drained t (h ++ o) ↔ Attended v s i) := by
  have hinv : Drained s h ∧ Fresh s := by
    refine Run.Reach.invariant_hist (P := fun s h => Drained s h ∧ Fresh s) ?_ ?_ hr
    · rintro s rfl
      exact ⟨⟨rfl, fun _ hne => absurd rfl hne⟩, fun _ => rfl⟩
    · intro s i t o h hs hok hstep
      exact ⟨(hs.1.step_iff hs.2 hstep).2 hok, hs.2.step hstep⟩
  exact ⟨hinv.1, fun i t o hs => hinv.1.step_iff hinv.2 hs⟩

/-- The first of two segments. -/
def firstPending : Pending :=
  ⟨.delivery ⟨some ⟨1, .first 2⟩, true, ⟨[[1]], 0, 0⟩⟩, 0, false⟩

def otherPending : Pending :=
  ⟨.delivery ⟨some ⟨1, .other 1⟩, true, ⟨[[2]], 0, 0⟩⟩, 1, false⟩

/-- A message of two segments; the second one waits for the confirm of the first. -/
theorem drained_two : ∃ s h, Run.Reach (performing false) (Attended false) h s ∧
    taken h = [firstPending, otherPending] ∧ Drained s h := by
  obtain ⟨s, h, hr, hp⟩ := Run.Reach.of_run (S := performing false)
    (b := fun s i => decide (Attended false s i)) (fun _ _ hb => of_decide_eq_true hb)
    (s := {}) rfl
    [.invokeIndication firstPending {}, .schRun {}, .invokeIndication otherPending {}, .schRun {},
      .resultConfirm 0 true, .schRun {}, .schRun {}, .resultConfirm 1 true, .schRun {}]
    (fun _ h => decide (taken h = [firstPending, otherPending])) (by decide +kernel)
  exact ⟨s, h, hr, of_decide_eq_true hp, (queue_drained hr).1⟩

/-- The second segment waits when ESROS reports the failure of the first one's RESULT: the operation
is freed, although not all segments have been received. -/
theorem segment_abandoned : ∃ s h, Run.Reach (performing false) Run.any h s ∧
    pended h = [firstPending, otherPending] ∧ taken h = [firstPending] ∧ s.op = none ∧
    ¬Drained s h := by
  obtain ⟨s, h, hr, hp⟩ := Run.Reach.of_run_any (S := performing false) (s := {}) rfl
    [.invokeIndication firstPending {}, .schRun {}, .invokeIndication otherPending {}, .schRun {},
      .failureIndication 0 true, .schRun {}]
    (fun s h => decide (pended h = [firstPending, otherPending] ∧ taken h = [firstPending]) &&
      s.op.isNone) (by decide +kernel)
  obtain ⟨hlists, hop⟩ := Bool.and_eq_true_iff.1 hp
  obtain ⟨hpended, htaken⟩ := of_decide_eq_true hlists
  have hnone : s.op = none := Option.isNone_iff_eq_none.1 hop
  refine ⟨s, h, hr, hpended, htaken, hnone, ?_⟩
  intro hd
  have honce := hd.once
  rw [hpended, htaken, pending_none hnone] at honce
  exact absurd honce (by decide)

end Ua
