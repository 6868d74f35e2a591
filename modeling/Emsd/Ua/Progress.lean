import Emsd.Ua.PendingQueue
import Emsd.Mtsua.Waiting

/-!
# What an operation of the user agent waits for (`ua/uacore/uperform.c`)

`FSM_runMachine` advances the state whatever the action has done. In each state the operation has to
wait for something: a request that ESROS has accepted, its segmentation timer, or an event.

* `Performing.Moving`: the operation waits for something that its machine handles.
* `Sound.step`: the operation keeps something to wait for in every step that is `Supplied` with what
  its calls need, and a step that takes up what is waited for leaves less to do.
-/

namespace Ua

open Ocp Mtsua Table Waiting

/-- The identifier of the invocation that a request is about. -/
def Request.invokeId : Request → InvokeId
  | .result id | .error id | .invoke id => id

/-- The events that end a request. -/
def Request.concludes : Request → FsmEvent → Bool
  | .result _, evt => evt = .resultConfirm || evt = .failureIndication
  | .error _, evt => evt = .errorConfirm || evt = .failureIndication
  | .invoke _, evt => evt = .resultIndication || evt = .errorIndication || evt = .failureIndication

/-- `FSM_runMachine` finds a transition for the event. -/
def Perform.Handles (bDeliveryVerifySupported : Bool) (s : Perform.State) (evt : FsmEvent) : Prop :=
  ∀ env m, (select FsmEvent.numbering (Perform.holds bDeliveryVerifySupported env) evt
    (Perform.trans s) m).1.isSome = true

/-- **The operation waits for something**: its segmentation timer, which frees it; the end of a
request of its own; or an event. Its machine handles these. -/
def Performing.Moving (bDeliveryVerifySupported : Bool) (s : Performing) : Prop :=
  ∀ m ∈ s.op, m.receiver.hSegmentationTimer = true ∨
    (∃ r ∈ s.requests, m.invokeId = some r.invokeId ∧
      ∀ evt, r.concludes evt = true → Perform.Handles bDeliveryVerifySupported s.curState evt) ∨
    ∃ evt ∈ s.events, Perform.Handles bDeliveryVerifySupported s.curState evt

/-! ## The condition -/

/-- The events that take the machine on from a state. -/
def Perform.wakes : Perform.State → FsmEvent → Bool
  | .s2DeliverResultResponseWait, evt => evt = .resultConfirm || evt = .failureIndication
  | _, _ => true

/-- The requests whose end does so. -/
def Perform.answers (m : Performer) : Perform.State → Request → Bool
  | .s1Idle, _ => false
  | .s2DeliverResultResponseWait, .result id => m.invokeId = some id
  | .s2DeliverResultResponseWait, _ => false
  | _, r => m.invokeId = some r.invokeId

/-- In this state the operation has something to wait for that takes it on. -/
def Perform.Kept (s : Perform.State) (m : Performer) (events : List FsmEvent)
    (requests : List Request) : Prop :=
  Awaits (wakes s) (answers m s) m.receiver.hSegmentationTimer events requests

instance (s : Perform.State) (m : Performer) (events : List FsmEvent) (requests : List Request) :
    Decidable (Perform.Kept s m events requests) := inferInstanceAs (Decidable (Awaits _ _ _ _ _))

/-- The end of a request brings an event, or the operation has something else to wait for. -/
def Concluded (s : Performing) (invokeId : InvokeId) (concluded : List Request) (event : Bool) :
    Prop :=
  ∀ m ∈ s.op, m.invokeId = some invokeId →
    event = true ∨ Perform.Kept s.curState m s.events (s.requests.filter (· ∉ concluded))

/-- `aS1S5a` generates a FAILURE event. -/
def reportsFailure (env : PerformEnv) : Bool :=
  !env.resultAddUserFree && env.memGet 0 || !env.resultFormat && env.memGet 1 ||
    !env.resultReq && env.memGet 2

/-- What the action of the idle machine needs: its request is accepted, or the failure is reported,
or the operation has something else to wait for. -/
def SuppliedIdle (m : Performer) (ok : Bool) (events : List FsmEvent) (requests : List Request)
    (env : PerformEnv) : Prop :=
  if ok then
    env.resultReq = true ∨ env.memGet 0 = true ∨
      Perform.Kept .s2DeliverResultResponseWait m events requests
  else if pS1S5a m then
    env.resultReq = true ∨ reportsFailure env = true ∨
      Perform.Kept .s5NotDeliverResultResponseWait m events requests
  else if pS1S5b m then Perform.Kept .s5NotDeliverResultResponseWait m events requests
  else env.errorReq = true ∨ Perform.Kept .s4ErrorResponseWait m events requests

/-- What the transition of an event needs. -/
def SuppliedRun (bDeliveryVerifySupported : Bool) (s : Performing) (evt : FsmEvent)
    (m : Performer) (env : PerformEnv) : Prop :=
  match s.curState with
  | .s1Idle => ∀ r ∈ pS1S2a env m, SuppliedIdle r.1 r.2.1 s.events s.requests env
  | .s2DeliverResultResponseWait =>
    evt = .failureIndication → pS2S1e bDeliveryVerifySupported m = false →
      pS2S1dPerform bDeliveryVerifySupported m = false → env.invokeReq.isSome = true ∨
        Perform.Kept .s3DeliverVerifyResponseWait m s.events s.requests
  | _ => True

/-- **The condition.** A new operation gets its event; the end of a request brings one; a request is
accepted, or its failure is reported. -/
def Supplied (bDeliveryVerifySupported : Bool) (s : Performing) : PerformInput → Prop
  | .invokeIndication p env =>
    s.allocated = true ∨ env.allocOperation = false ∨ env.allocPending = false ∨
      env.addUserFree = false ∨
      (p.invoked = .submissionVerify ∨ env.addExtraFree = true) ∧ env.memGet = true
  | .resultConfirm id memGet => Concluded s id [.result id] memGet
  | .errorConfirm id memGet => Concluded s id [.error id] memGet
  | .failureIndication id memGet => Concluded s id [.result id, .error id, .invoke id] memGet
  | .resultIndication id => Concluded s id [.invoke id] false
  | .errorIndication id parsed memGet => Concluded s id [.invoke id] (parsed && memGet)
  | .segmentationTimerExpired => True
  | .schRun env =>
    match s.events, s.op with
    | evt :: events, some m => SuppliedRun bDeliveryVerifySupported { s with events } evt m env
    | _, _ => True

instance (s : Performing) (id : InvokeId) (concluded : List Request) (event : Bool) :
    Decidable (Concluded s id concluded event) := inferInstanceAs (Decidable (∀ m ∈ s.op, _))

instance (m : Performer) (ok : Bool) (events : List FsmEvent) (requests : List Request)
    (env : PerformEnv) : Decidable (SuppliedIdle m ok events requests env) := by
  unfold SuppliedIdle
  infer_instance

instance (v : Bool) (s : Performing) (evt : FsmEvent) (m : Performer) (env : PerformEnv) :
    Decidable (SuppliedRun v s evt m env) :=
  match hc : s.curState with
  | .s1Idle =>
    decidable_of_iff (∀ r ∈ pS1S2a env m, SuppliedIdle r.1 r.2.1 s.events s.requests env)
      (by rw [SuppliedRun, hc])
  | .s2DeliverResultResponseWait =>
    decidable_of_iff (evt = .failureIndication → pS2S1e v m = false → pS2S1dPerform v m = false →
      env.invokeReq.isSome = true ∨
        Perform.Kept .s3DeliverVerifyResponseWait m s.events s.requests)
      (by rw [SuppliedRun, hc])
  | .s3DeliverVerifyResponseWait | .s4ErrorResponseWait | .s5NotDeliverResultResponseWait =>
    .isTrue (by rw [SuppliedRun, hc]; trivial)

instance (v : Bool) (s : Performing) : ∀ i, Decidable (Supplied v s i)
  | .invokeIndication .. => inferInstanceAs (Decidable (_ ∨ _))
  | .resultConfirm .. | .errorConfirm .. | .failureIndication .. | .resultIndication ..
  | .errorIndication .. => inferInstanceAs (Decidable (Concluded ..))
  | .segmentationTimerExpired => inferInstanceAs (Decidable True)
  | .schRun env =>
    decidable_of_iff (∀ evt ∈ s.events.head?, ∀ m ∈ s.op,
      SuppliedRun v { s with events := s.events.tail } evt m env)
      (by cases he : s.events <;> cases ho : s.op <;> simp [Supplied, he, ho])

/-! ## What is left to do -/

/-- What a machine can still do in a state without another INVOKE. -/
def Perform.rest (m : Performer) : Perform.State → Nat
  | .s1Idle => 12 + 3 * m.pendingQHead.length
  | .s2DeliverResultResponseWait => 13 + 3 * m.pendingQHead.length
  | _ => 1

/-- What is left to do: a request brings an event, an event takes the machine on. -/
def Performing.work (s : Performing) : Nat :=
  (s.op.elim 0 fun m => Perform.rest m s.curState) + 3 * s.events.length + 4 * s.requests.length

/-- The input takes up what the operation waits for. -/
def Advances (s : Performing) : PerformInput → Prop
  | .invokeIndication _ _ => False
  | .resultConfirm id _ => .result id ∈ s.requests
  | .errorConfirm id _ => .error id ∈ s.requests
  | .failureIndication id _ => ∃ r ∈ s.requests, r.invokeId = id
  | .resultIndication id | .errorIndication id _ _ => .invoke id ∈ s.requests
  | .segmentationTimerExpired => True
  | .schRun _ => s.events ≠ []

/-! ## The invariant -/

variable {v : Bool} {s t : Performing} {i : PerformInput} {o h : List PerformOut} {m : Performer}
  {evt : FsmEvent} {env : PerformEnv}

/-- **What every step keeps**: the operation has something to wait for that takes it on; it has an
invocation, or one on its queue; and it has all segments, or its timer runs, when it has taken one. -/
structure Steady (st : Perform.State) (m : Performer) (events : List FsmEvent)
    (requests : List Request) : Prop where
  kept : Perform.Kept st m events requests
  named : m.invokeId = none → m.pendingQHead ≠ []
  idle : st = .s1Idle → m.receiver.Open
  busy : st = .s2DeliverResultResponseWait → m.receiver.Covered

/-- The operation, if it is alive, is steady; and there is none before it has been allocated. -/
structure Sound (s : Performing) : Prop where
  fresh : Fresh s
  start : s.allocated = false → s.curState = .s1Idle
  steady : ∀ m ∈ s.op, Steady s.curState m s.events s.requests

theorem handles_all (v : Bool) (st : Perform.State) (evt : FsmEvent) : Perform.Handles v st evt := by
  intro env m
  have hdefault : ∃ r ∈ Perform.trans st, r.entry = none ∧ r.guard = none := by
    cases st <;> simp [Perform.trans]
  have htotal : ∃ r, (select FsmEvent.numbering (Perform.holds v env) evt (Perform.trans st) m).1 =
      some r := select_total hdefault m
  obtain ⟨r, hr⟩ := htotal
  rw [hr]
  rfl

theorem Sound.moving (hs : Sound s) : s.Moving v := by
  intro m hm
  rcases (hs.steady m hm).kept with ht | ⟨r, hr, ha⟩ | ⟨evt, he, -⟩
  · exact .inl ht
  · refine .inr (.inl ⟨r, hr, ?_, fun evt _ => handles_all v _ evt⟩)
    revert ha
    unfold Perform.answers
    split <;> intro ha
    · cases ha
    · exact of_decide_eq_true ha
    · cases ha
    · exact of_decide_eq_true ha
  · exact .inr (.inr ⟨evt, he, handles_all v _ evt⟩)

/-! ## What the operation waits for -/

section Kept

variable {m' : Performer} {st : Perform.State} {events : List FsmEvent} {requests : List Request}
  {r : Request} {id : InvokeId} {concluded : List Request} {event : Bool}

open Perform

/-- A request that the operation needs is one of its own. -/
theorem answers_own (ha : answers m st r = true) : m.invokeId = some r.invokeId := by
  unfold answers at ha
  split at ha
  · cases ha
  · exact of_decide_eq_true ha
  · cases ha
  · exact of_decide_eq_true ha

/-- It is the same for an operation with the same identifier and timer. -/
theorem Perform.Kept.congr (hk : Kept st m events requests) (hid : m'.invokeId = m.invokeId)
    (ht : m'.receiver.hSegmentationTimer = m.receiver.hSegmentationTimer) :
    Kept st m' events requests := by
  have ha : answers m' st = answers m st := by
    funext r
    unfold answers
    split <;> simp [hid]
  unfold Kept
  rw [ha, ht]
  exact hk

/-- A request under the identifier of the operation is needed where it waits for the end of one. -/
theorem Perform.Kept.accepted (hname : m.invokeId ≠ none) (request : InvokeId → Request)
    (ha : ∀ id, m.invokeId = some id → answers m st (request id) = true) :
    Kept st m events (requests ++ Ua.accepted request m) := by
  obtain ⟨id, hid⟩ := Option.ne_none_iff_exists'.1 hname
  refine .asked (r := request id) (List.mem_append_right _ ?_) (ha id hid)
  rw [Ua.accepted, hid]
  exact List.mem_singleton_self _

/-- An event that is generated wakes the machine. -/
theorem Perform.Kept.generated (hw : wakes st evt = true) (hmem : evt ∈ events) :
    Kept st m events requests := .woken hmem hw

/-- **The end of a request.** It takes the machine on or is passed over in this state, and brings its
event or is not needed. -/
theorem Perform.Kept.ended (hk : Kept st m events requests) (hids : ∀ r ∈ concluded, r.invokeId = id)
    (hevt : wakes st evt = true ∨ ∀ r ∈ concluded, answers m st r = false)
    (hc : m.invokeId = some id → event = true ∨
      Kept st m events (requests.filter (· ∉ concluded))) :
    Kept st m (events ++ if m.invokeId = some id ∧ event = true then [evt] else [])
      (requests.filter (· ∉ concluded)) := by
  refine Awaits.ended hk (fun hid r hr => ?_) hevt hc
  by_contra ha
  have hown := answers_own (by simpa using ha : answers m st r = true)
  rw [hids r hr] at hown
  exact hid hown

end Kept

/-! ## The idle machine -/

section Idle

variable {m' : Performer} {ok : Bool} {events : List FsmEvent} {requests : List Request} {a : Acted}

/-- After the predicate the operation has the identifier of an invocation. -/
theorem pS1S2a_named (hn : m.invokeId = none → m.pendingQHead ≠ [])
    (hp : pS1S2a env m = some (m', ok, o)) : m'.invokeId ≠ none := by
  unfold pS1S2a at hp
  split at hp
  · rename_i hq
    cases hp
    exact fun hno => hn hno hq
  · dsimp only at hp
    split at hp
    · cases hp
      exact Option.some_ne_none _
    · obtain ⟨⟨m₁, ok₁⟩, hd, he⟩ := Option.map_eq_some_iff.1 hp
      cases he
      unfold pS1S2aDeliver at hd
      split at hd
      · cases hd
        exact Option.some_ne_none _
      · split at hd
        · cases hd
        · cases hd
          exact Option.some_ne_none _

/-- **A delivery that is taken** completes the operation or leaves it with its timer. -/
theorem pS1S2a_covered (ho : m.receiver.Open) (hp : pS1S2a env m = some (m', true, o)) :
    m'.receiver.Covered := by
  unfold pS1S2a at hp
  split at hp
  · cases hp
  · dsimp only at hp
    split at hp
    · cases hp
    · obtain ⟨⟨m₁, ok₁⟩, hd, he⟩ := Option.map_eq_some_iff.1 hp
      cases he
      unfold pS1S2aDeliver at hd
      split at hd
      · obtain ⟨rfl, -⟩ := Prod.mk.inj (Option.some.inj hd)
        exact .inl rfl
      · split at hd
        · cases hd
        · rename_i receiver received hrec
          obtain ⟨rfl, hok⟩ := Prod.mk.inj (Option.some.inj hd)
          obtain ⟨rfl, -⟩ := Bool.and_eq_true_iff.1 hok
          exact receiveSegment_covered ho hrec

/-- A delivery that is taken was on the queue. -/
theorem pS1S2a_queue (hp : pS1S2a env m = some (m', true, o)) :
    m.pendingQHead.length = m'.pendingQHead.length + 1 := by
  unfold pS1S2a at hp
  split at hp
  · cases hp
  · rename_i p pending hq
    dsimp only at hp
    split at hp
    · cases hp
    · obtain ⟨⟨m₁, ok₁⟩, hd, he⟩ := Option.map_eq_some_iff.1 hp
      cases he
      rw [hq, pS1S2aDeliver_pendingQHead hd]
      rfl

/-- The events of `aS1S5a`. -/
theorem performS1S5a_events (h : performS1S5a env m = some a) :
    reportsFailure env = true → .failureIndication ∈ a.events := by
  unfold performS1S5a at h
  split at h
  · cases h
  · cases h
    intro hrep
    simp only [reportsFailure, Bool.or_eq_true, Bool.and_eq_true, Bool.not_eq_true'] at hrep
    simp only [List.mem_append, generated]
    rcases hrep with (⟨h₁, h₂⟩ | ⟨h₁, h₂⟩) | ⟨h₁, h₂⟩ <;> simp [h₁, h₂]

/-- **The idle machine** goes on to wait for the end of its request. -/
theorem idle_kept (hname : m.invokeId ≠ none) (hsup : SuppliedIdle m ok events requests env)
    (hact : performAction env m (Perform.idleTarget ok m).1 = some a) :
    Perform.Kept (Perform.idleTarget ok m).2 m (events ++ a.events) (requests ++ a.requests) := by
  have hgrow : ∀ {st}, Perform.Kept st m events requests →
      Perform.Kept st m (events ++ a.events) (requests ++ a.requests) := fun hk =>
    hk.grow (List.subset_append_left _ _) (List.subset_append_left _ _)
  unfold Perform.idleTarget at hact ⊢
  unfold SuppliedIdle at hsup
  split at hact
  · -- `aS1S2a`
    rename_i hok
    rw [if_pos hok] at hsup ⊢
    cases hact
    rcases hsup with hreq | hmem | hk
    · unfold performS1S2a
      rw [if_pos hreq]
      exact Perform.Kept.accepted hname .result fun id hid => decide_eq_true hid
    · unfold performS1S2a
      split
      · exact Perform.Kept.accepted hname .result fun id hid => decide_eq_true hid
      · refine Perform.Kept.generated (show Perform.wakes _ .failureIndication = true from rfl)
          (List.mem_append_right _ ?_)
        rw [generated, if_pos hmem]
        exact List.mem_singleton_self _
    · exact hgrow hk
  · rename_i hok
    rw [if_neg hok] at hsup ⊢
    split at hact
    · -- `aS1S5a`
      rename_i h5a
      rw [if_pos h5a] at hsup ⊢
      rcases hsup with hreq | hrep | hk
      · dsimp only [performAction] at hact
        unfold performS1S5a at hact
        split at hact
        · cases hact
        · cases hact
          exact Perform.Kept.accepted hname .result fun id hid => decide_eq_true hid
      · exact Perform.Kept.generated (show Perform.wakes _ .failureIndication = true from rfl)
          (List.mem_append_right _ (performS1S5a_events hact hrep))
      · exact hgrow hk
    · rename_i h5a
      rw [if_neg h5a] at hsup ⊢
      split at hact
      · -- `aS1S5b`
        rename_i h5b
        rw [if_pos h5b] at hsup ⊢
        exact hgrow hsup
      · -- `aS1S4a`
        rename_i h5b
        rw [if_neg h5b] at hsup ⊢
        cases hact
        rcases hsup with hreq | hk
        · unfold performS1S4a
          rw [if_pos hreq]
          exact Perform.Kept.accepted hname .error fun id hid => decide_eq_true hid
        · exact hgrow hk

end Idle

/-! ## One event -/

/-- The work that is left after an event, compared with the work before it. -/
def Less (s t : Performing) (m : Performer) : Prop :=
  t.work < Perform.rest m s.curState + 3 * (s.events.length + 1) + 4 * s.requests.length

/-- An operation that is freed has nothing left to do. -/
theorem less_freed (hop : t.op = none) (he : t.events = s.events) (hr : t.requests = s.requests) :
    Less s t m := by
  unfold Less Performing.work
  rw [hop, he, hr]
  simp only [Option.elim_none]
  omega

theorem steady_freed (hop : t.op = none) :
    ∀ m' ∈ t.op, Steady t.curState m' t.events t.requests := by
  rw [hop]
  exact fun y hy => absurd hy (Option.not_mem_none y)

theorem length_generated (env : PerformEnv) (k : Nat) (evt : FsmEvent) :
    (generated env k evt).length ≤ 1 := by
  unfold generated
  split <;> simp

theorem length_accepted (request : InvokeId → Request) (m : Performer) :
    (accepted request m).length ≤ 1 := by
  unfold accepted
  cases m.invokeId <;> simp

/-- The actions of the idle machine bring a request and at most three events, and a delivery that is
taken one of the two. -/
theorem idle_length {ok : Bool} {a : Acted}
    (h : performAction env m (Perform.idleTarget ok m).1 = some a) :
    a.requests.length ≤ 1 ∧ a.events.length ≤ 3 ∧
      (ok = true → 3 * a.events.length + 4 * a.requests.length ≤ 4) := by
  have hgen := length_generated env
  unfold Perform.idleTarget at h
  split at h
  · cases h
    unfold performS1S2a
    have hreq := length_accepted .result m
    have hfail := hgen 0 .failureIndication
    split
    · exact ⟨hreq, Nat.zero_le 3, fun _ => by dsimp only [List.length_nil]; omega⟩
    · exact ⟨Nat.zero_le 1, by dsimp only; omega, fun _ => by dsimp only [List.length_nil]; omega⟩
  · rename_i hok
    split at h
    · dsimp only [performAction] at h
      unfold performS1S5a at h
      split at h
      · cases h
      · cases h
        have hone : ∀ (b : Bool) (k : Nat),
            (if b then [] else generated env k .failureIndication).length ≤ 1 := by
          intro b k
          cases b
          · exact hgen k _
          · exact Nat.zero_le 1
        have h0 := hone env.resultAddUserFree 0
        have h1 := hone env.resultFormat 1
        have h2 := hone env.resultReq 2
        refine ⟨?_, ?_, fun h => absurd h hok⟩
        · dsimp only
          split
          · exact length_accepted .result m
          · exact Nat.zero_le 1
        · simp only [List.length_append]
          omega
    · split at h
      · cases h
        exact ⟨Nat.zero_le 1, Nat.zero_le 3, fun h => absurd h hok⟩
      · cases h
        unfold performS1S4a
        refine ⟨?_, Nat.zero_le 3, fun h => absurd h hok⟩
        dsimp only
        split
        · exact length_accepted .error m
        · exact Nat.zero_le 1

/-- What is not taken ends the operation. -/
theorem idleTarget_rejected (m : Performer) :
    (Perform.idleTarget false m).2 = .s5NotDeliverResultResponseWait ∨
      (Perform.idleTarget false m).2 = .s4ErrorResponseWait := by
  unfold Perform.idleTarget
  rw [if_neg Bool.false_ne_true]
  split
  · exact .inl rfl
  · split
    · exact .inl rfl
    · exact .inr rfl

/-- The idle machine. -/
theorem runMachine_idle_steady (hc : s.curState = .s1Idle)
    (hs : Steady .s1Idle m (evt :: s.events) s.requests)
    (h : s.runMachine v evt m env = some (t, o)) :
    (SuppliedRun v s evt m env → ∀ m' ∈ t.op, Steady t.curState m' t.events t.requests) ∧
      Less s t m := by
  rw [Performing.runMachine_eq, hc] at h
  obtain ⟨⟨target, m', o'⟩, hfired, h⟩ := Option.bind_eq_some_iff.1 h
  obtain ⟨a, hact, he⟩ := Option.map_eq_some_iff.1 h
  obtain ⟨⟨m₁, ok, o₁⟩, hp, he'⟩ := Option.map_eq_some_iff.1 hfired
  cases he'
  cases he
  have hop : a.op = some m₁ := performAction_idleTarget hact
  have hname : m₁.invokeId ≠ none := pS1S2a_named hs.named hp
  obtain ⟨hreq, hevents, hok⟩ := idle_length hact
  constructor
  · intro hsup m' hm'
    rw [hop] at hm'
    cases hm'
    unfold SuppliedRun at hsup
    rw [hc] at hsup
    have hidle := hsup _ hp
    refine ⟨idle_kept hname hidle hact, fun hno => absurd hno hname,
      fun hst => absurd hst (idleTarget_state ok m₁), fun hst => ?_⟩
    cases ok with
    | true => exact pS1S2a_covered (hs.idle rfl) hp
    | false =>
      rcases idleTarget_rejected m₁ with h5 | h4
      · exact absurd (h5.symm.trans hst) (by decide)
      · exact absurd (h4.symm.trans hst) (by decide)
  · unfold Less Performing.work
    dsimp only
    rw [hop, hc, Option.elim_some, List.length_append, List.length_append]
    cases ok with
    | true =>
      have hqueue := pS1S2a_queue hp
      have := hok rfl
      simp only [Perform.idleTarget, if_pos, Perform.rest]
      omega
    | false =>
      have hrest : Perform.rest m₁ (Perform.idleTarget false m₁).2 = 1 := by
        rcases idleTarget_rejected m₁ with h5 | h4
        · rw [h5]
          rfl
        · rw [h4]
          rfl
      rw [hrest]
      simp only [Perform.rest]
      omega

/-- The machine that waits for the confirm of a Deliver result. -/
theorem runMachine_result_steady (hc : s.curState = .s2DeliverResultResponseWait)
    (hs : Steady .s2DeliverResultResponseWait m (evt :: s.events) s.requests)
    (h : s.runMachine v evt m env = some (t, o)) :
    (SuppliedRun v s evt m env → ∀ m' ∈ t.op, Steady t.curState m' t.events t.requests) ∧
      Less s t m := by
  rw [Performing.runMachine_eq, hc] at h
  have hcovered := hs.busy rfl
  unfold SuppliedRun
  rw [hc]
  have hback : ∀ {t : Performing} {n}, m.receiver.hSegmentationTimer = true → t.op = some m →
      t.curState = .s1Idle → t.events.length ≤ s.events.length + n → n ≤ 1 →
      t.requests = s.requests →
      (∀ m' ∈ t.op, Steady t.curState m' t.events t.requests) ∧ Less s t m := by
    intro t n htimer hop hst hlen hn hreq
    constructor
    · rw [hop, hst]
      rintro m' ⟨⟩
      exact ⟨.timed htimer, hs.named, fun _ => hcovered.open_, fun hbusy => by cases hbusy⟩
    · unfold Less Performing.work
      rw [hop, hst, hreq, hc]
      simp only [Option.elim_some, Perform.rest]
      omega
  unfold Perform.fired at h
  cases evt with
  | resultConfirm =>
    dsimp only [Perform.resultTarget] at h
    split at h
    · -- `aS2S1a`
      cases h
      exact ⟨fun _ => steady_freed rfl, less_freed rfl (List.append_nil _) (List.append_nil _)⟩
    · -- `aS2S1b`
      rename_i hmore
      have htimer : m.receiver.hSegmentationTimer = true := hcovered.resolve_left hmore
      cases h
      have hlen : (performS2S1b env m).events.length ≤ 1 := by
        unfold performS2S1b
        dsimp only
        split
        · exact Nat.zero_le 1
        · exact length_generated env 0 _
      have := hback (t := { s with
        curState := .s1Idle, op := some m, events := s.events ++ (performS2S1b env m).events,
        requests := s.requests ++ [] }) htimer rfl rfl
        (Nat.le_of_eq List.length_append) hlen (List.append_nil _)
      exact ⟨fun _ => this.1, this.2⟩
  | failureIndication =>
    dsimp only [Perform.resultTarget] at h
    split at h
    · -- `aS2S1e`
      cases h
      exact ⟨fun _ => steady_freed rfl, less_freed rfl (List.append_nil _) (List.append_nil _)⟩
    · rename_i he
      split at h
      · -- `aS2S1d`
        dsimp only [Option.bind_some, performAction, Option.map_some] at h
        unfold performS2S1d at h
        by_cases htimer : m.receiver.hSegmentationTimer = true
        · rw [if_pos htimer] at h
          cases h
          have := hback (t := { s with
            curState := .s1Idle, op := some m, events := s.events ++ [],
            requests := s.requests ++ [] }) (n := 0) htimer rfl rfl
            (by simp) (Nat.zero_le 1) (List.append_nil _)
          exact ⟨fun _ => this.1, this.2⟩
        · rw [if_neg htimer] at h
          cases h
          exact ⟨fun _ => steady_freed rfl, less_freed rfl (List.append_nil _) (List.append_nil _)⟩
      · -- `aS2S3a`
        rename_i hd
        dsimp only [Option.bind_some, performAction, Option.map_some, performS2S3a] at h
        cases hi : env.invokeReq with
        | none =>
          rw [hi] at h
          cases h
          constructor
          · rintro hsup m' ⟨⟩
            have hk := (hsup rfl (by simpa using he) (by simpa using hd)).resolve_left (by simp)
            exact ⟨hk.grow (List.subset_append_left _ _) (List.subset_append_left _ _), hs.named,
              fun hidle => (by cases hidle), fun hbusy => by cases hbusy⟩
          · unfold Less Performing.work
            simp only [Option.elim_some, Perform.rest, List.append_nil, hc]
            omega
        | some id =>
          rw [hi] at h
          cases h
          constructor
          · rintro hsup m' ⟨⟩
            exact ⟨.asked (r := .invoke id) (List.mem_append_right _ (List.mem_singleton_self _))
              (decide_eq_true rfl), fun hop => (by cases hop), fun hidle => (by cases hidle),
              fun hbusy => by cases hbusy⟩
          · unfold Less Performing.work
            simp only [Option.elim_some, Perform.rest, List.append_nil, List.length_append,
              List.length_singleton, hc]
            omega
  | _ =>
    -- `aS2S2a`
    cases h
    constructor
    · rintro - m' ⟨⟩
      refine ⟨?_, hs.named, fun hidle => (by cases hidle), hs.busy⟩
      exact (hs.kept.tail rfl).grow (List.subset_append_left _ _) (List.subset_append_left _ _)
    · unfold Less Performing.work
      simp only [Option.elim_some, Perform.resultTarget, Perform.rest, List.append_nil, hc]
      omega

/-- **One event** leaves less to do, and the operation with something to wait for. -/
theorem runMachine_steady (hs : Steady s.curState m (evt :: s.events) s.requests)
    (h : s.runMachine v evt m env = some (t, o)) :
    (SuppliedRun v s evt m env → ∀ m' ∈ t.op, Steady t.curState m' t.events t.requests) ∧
      Less s t m := by
  cases hc : s.curState with
  | s1Idle => exact runMachine_idle_steady hc (hc ▸ hs) h
  | s2DeliverResultResponseWait => exact runMachine_result_steady hc (hc ▸ hs) h
  | _ =>
    -- any event frees the operation
    rw [Performing.runMachine_eq, hc] at h
    have hfreed : t.op = none ∧ t.events = s.events ++ [] ∧ t.requests = s.requests ++ [] := by
      cases evt <;> (cases h; exact ⟨rfl, rfl, rfl⟩)
    obtain ⟨hop, he, hr⟩ := hfreed
    rw [List.append_nil] at he hr
    exact ⟨fun _ => steady_freed hop, less_freed hop he hr⟩

/-! ## Steps and runs -/

/-- An indication: the requests that it ends, and its event when it finds the operation. -/
theorem indication_eq (hop : s.op = some m) (id : InvokeId) (concluded : List Request)
    (evt : FsmEvent) (memGet : Bool) : s.indication id concluded evt memGet =
      { s with
        requests := s.requests.filter (· ∉ concluded)
        events := s.events ++ if m.invokeId = some id ∧ memGet = true then [evt] else [] } := by
  unfold Performing.indication
  simp only [hop]
  by_cases hid : m.invokeId = some id
  · rw [if_pos hid]
    cases memGet <;> simp [Performing.generateEvent, hid]
  · rw [if_neg hid, if_neg fun h => hid h.1, List.append_nil]

theorem indication_none (hop : s.op = none) (id : InvokeId) (concluded : List Request)
    (evt : FsmEvent) (memGet : Bool) : s.indication id concluded evt memGet =
      { s with requests := s.requests.filter (· ∉ concluded) } := by
  unfold Performing.indication
  simp only [hop]

theorem indication_curState (s : Performing) (id : InvokeId) (concluded : List Request)
    (evt : FsmEvent) (memGet : Bool) :
    (s.indication id concluded evt memGet).curState = s.curState := by
  unfold Performing.indication
  dsimp only
  split
  · split <;> rfl
  · rfl

/-- An indication without an event. -/
theorem indication_silent (s : Performing) (id : InvokeId) (concluded : List Request)
    (evt : FsmEvent) : s.indication id concluded evt false =
      { s with requests := s.requests.filter (· ∉ concluded) } := by
  unfold Performing.indication
  dsimp only
  split
  · split
    · simp [Performing.generateEvent]
    · rfl
  · rfl

theorem indication_work {id : InvokeId} {concluded : List Request} {evt : FsmEvent} {memGet : Bool}
    (hc : ∃ r ∈ s.requests, r ∈ concluded) : (s.indication id concluded evt memGet).work < s.work := by
  have hless : (s.requests.filter (· ∉ concluded)).length < s.requests.length := by
    obtain ⟨r, hr, hmem⟩ := hc
    refine List.length_filter_lt_length_iff_exists.2 ⟨r, hr, ?_⟩
    simpa using hmem
  cases hop : s.op with
  | none =>
    rw [indication_none hop]
    unfold Performing.work
    dsimp only
    omega
  | some m =>
    rw [indication_eq hop]
    unfold Performing.work
    have hone : (if m.invokeId = some id ∧ memGet = true then [evt] else []).length ≤ 1 := by
      split
      · exact Nat.le_refl 1
      · exact Nat.zero_le 1
    simp only [List.length_append]
    omega

/-- **An indication** keeps what the operation waits for. -/
theorem Sound.indication (hs : Sound s) {id : InvokeId} {concluded : List Request} {evt : FsmEvent}
    {memGet : Bool} (hids : ∀ r ∈ concluded, r.invokeId = id)
    (hevt : ∀ m st, Perform.wakes st evt = true ∨
      ∀ r ∈ concluded, Perform.answers m st r = false)
    (hc : Concluded s id concluded memGet) : Sound (s.indication id concluded evt memGet) := by
  cases hop : s.op with
  | none =>
    rw [indication_none hop]
    refine ⟨hs.fresh, hs.start, fun m hm => ?_⟩
    rw [hop] at hm
    cases hm
  | some m =>
    rw [indication_eq hop]
    refine ⟨hs.fresh, hs.start, fun m' hm' => ?_⟩
    obtain rfl : m = m' := Option.some.inj (hop.symm.trans hm')
    have hst := hs.steady m hop
    exact ⟨hst.kept.ended hids (hevt m s.curState) (hc m hop), hst.named, hst.idle, hst.busy⟩

/-- **An INVOKE** is put on the queue of the operation, which has an event if it is new. -/
theorem pend_steady {p : Pending} {e : InvokeEnv} (h : s.pend m p e = (t, o))
    (hold : Steady s.curState m s.events s.requests ∨ m = {} ∧ s.curState = .s1Idle ∧
      (e.allocPending = false ∨ e.addUserFree = false ∨
        (p.invoked = .submissionVerify ∨ e.addExtraFree = true) ∧ e.memGet = true)) :
    ∀ m' ∈ t.op, Steady t.curState m' t.events t.requests := by
  unfold Performing.pend at h
  split at h
  · cases h
    exact steady_freed rfl
  · rename_i halloc
    split at h
    · cases h
      exact steady_freed rfl
    · rename_i hfree
      have hgrown : ∀ {events}, s.events ⊆ events →
          (Steady s.curState m s.events s.requests ∨ events ≠ [] ∧ m = {} ∧ s.curState = .s1Idle) →
          Steady s.curState { m with pendingQHead := m.pendingQHead ++ [p] } events s.requests := by
        rintro events hsub (hst | ⟨hne, rfl, hc⟩)
        · exact ⟨(hst.kept.congr rfl rfl).grow hsub (List.Subset.refl _),
            fun _ => List.append_ne_nil_of_right_ne_nil _ (List.cons_ne_nil p []), hst.idle, hst.busy⟩
        · obtain ⟨evt, hevt⟩ := List.exists_mem_of_ne_nil _ hne
          rw [hc]
          exact ⟨.woken hevt rfl,
            fun _ => List.append_ne_nil_of_right_ne_nil _ (List.cons_ne_nil p []),
            fun _ => .inl rfl, nofun⟩
      dsimp only at h
      split at h
      · -- no event is generated
        rename_i hx
        cases h
        rintro m' ⟨⟩
        refine hgrown (List.Subset.refl _) (hold.imp_right fun ⟨hm, hc, hsup⟩ => ?_)
        rcases hsup with ha | hu | ⟨hv | hf, -⟩
        · exact absurd ha halloc
        · exact absurd hu hfree
        · exact absurd hv hx.1
        · exact absurd (hx.2.symm.trans hf) (by decide)
      · cases h
        rintro m' ⟨⟩
        refine hgrown (List.subset_append_left _ _) (hold.imp_right fun ⟨hm, hc, hsup⟩ => ⟨?_, hm, hc⟩)
        rcases hsup with ha | hu | ⟨-, hmem⟩
        · exact absurd ha halloc
        · exact absurd hu hfree
        · unfold Performing.generateEvent
          rw [if_pos hmem]
          exact List.append_ne_nil_of_right_ne_nil _ (List.cons_ne_nil _ [])

/-- A new operation starts in the idle state. -/
theorem start_step (hf : Fresh s) (hs : s.allocated = false → s.curState = .s1Idle)
    (h : (performing v).step s i = some (t, o)) (ha : t.allocated = false) :
    t.curState = .s1Idle := by
  unfold performing Performing.step at h
  cases i with
  | invokeIndication p e =>
    dsimp only at h
    split at h
    · rename_i m halloc hop
      have hkeep := pend_allocated s m p e
      rw [Option.some.inj h] at hkeep
      exact absurd ((hkeep.trans halloc).symm.trans ha) (by decide)
    · cases h
    · split at h
      · have hkeep := pend_allocated { s with allocated := true } {} p e
        rw [Option.some.inj h] at hkeep
        exact absurd (show true = false from hkeep.symm.trans ha) (by decide)
      · cases h
        exact hs ha
  | segmentationTimerExpired =>
    obtain ⟨m, hop, h⟩ := Option.bind_eq_some_iff.1 h
    split at h
    · cases h
      exact hs ha
    · cases h
  | schRun env =>
    dsimp only at h
    split at h
    · cases h
      exact hs ha
    · obtain ⟨m, hop, hrun⟩ := Option.bind_eq_some_iff.1 h
      have halloc : s.allocated = false := (runMachine_allocated hrun).symm.trans ha
      exact absurd ((hf halloc).symm.trans hop) (by simp)
  | resultIndication id =>
    cases h
    exact hs ha
  | _ =>
    cases h
    rw [(indication_op _ _ _ _ _).2] at ha
    rw [indication_curState]
    exact hs ha

/-- **A step** that is supplied keeps what the operation waits for, and one that takes it up leaves
less to do. -/
theorem Sound.step (hs : Sound s) (h : (performing v).step s i = some (t, o)) :
    (Supplied v s i → Sound t) ∧ (Advances s i → t.work < s.work) := by
  have hfresh := hs.fresh.step h
  have hstart := start_step hs.fresh hs.start h
  have hwakes : ∀ (st : Perform.State), Perform.wakes st .resultConfirm = true ∧
      Perform.wakes st .failureIndication = true := by
    intro st
    cases st <;> exact ⟨rfl, rfl⟩
  unfold performing Performing.step at h
  cases i with
  | invokeIndication p e =>
    refine ⟨fun hsup => ⟨hfresh, hstart, ?_⟩, nofun⟩
    dsimp only at h
    split at h
    · rename_i m halloc hop
      exact pend_steady (Option.some.inj h) (.inl (hs.steady m hop))
    · cases h
    · rename_i halloc
      split at h
      · rename_i hnew
        refine pend_steady (Option.some.inj h) (.inr ⟨rfl, hs.start halloc, ?_⟩)
        rcases hsup with ha | hno | hsup
        · exact absurd (halloc.symm.trans ha) (by decide)
        · exact absurd (hno.symm.trans hnew) (by decide)
        · exact hsup
      · cases h
        exact steady_freed (hs.fresh halloc)
  | resultConfirm id memGet =>
    cases h
    exact ⟨hs.indication (by simp [Request.invokeId]) fun m st => .inl (hwakes st).1,
      fun hadv => indication_work ⟨_, hadv, List.mem_singleton_self _⟩⟩
  | errorConfirm id memGet =>
    cases h
    refine ⟨hs.indication (by simp [Request.invokeId]) fun m st => ?_,
      fun hadv => indication_work ⟨_, hadv, List.mem_singleton_self _⟩⟩
    cases st <;> simp [Perform.wakes, Perform.answers]
  | failureIndication id memGet =>
    cases h
    refine ⟨hs.indication (by simp [Request.invokeId]) fun m st => .inl (hwakes st).2, ?_⟩
    rintro ⟨r, hr, rfl⟩
    exact indication_work ⟨r, hr, by cases r <;> simp [Request.invokeId]⟩
  | resultIndication id =>
    cases h
    rw [← indication_silent s id [.invoke id] .resultIndication]
    refine ⟨hs.indication (by simp [Request.invokeId]) fun m st => ?_,
      fun hadv => indication_work ⟨_, hadv, List.mem_singleton_self _⟩⟩
    cases st <;> simp [Perform.wakes, Perform.answers]
  | errorIndication id parsed memGet =>
    cases h
    refine ⟨hs.indication (by simp [Request.invokeId]) fun m st => ?_,
      fun hadv => indication_work ⟨_, hadv, List.mem_singleton_self _⟩⟩
    cases st <;> simp [Perform.wakes, Perform.answers]
  | segmentationTimerExpired =>
    obtain ⟨m, hop, h⟩ := Option.bind_eq_some_iff.1 h
    split at h
    · cases h
      refine ⟨fun _ => ⟨hfresh, hstart, steady_freed rfl⟩, fun _ => ?_⟩
      unfold Performing.work
      rw [hop]
      simp only [Option.elim_none, Option.elim_some]
      have : 0 < Perform.rest m s.curState := by
        unfold Perform.rest
        split <;> omega
      omega
    · cases h
  | schRun env =>
    dsimp only at h
    cases hevents : s.events with
    | nil =>
      rw [hevents] at h
      cases h
      exact ⟨fun _ => hs, fun hadv => absurd hevents hadv⟩
    | cons evt events =>
      rw [hevents] at h
      obtain ⟨m, hop, hrun⟩ := Option.bind_eq_some_iff.1 h
      have hst := hs.steady m hop
      rw [hevents] at hst
      obtain ⟨hkeep, hless⟩ := runMachine_steady (s := { s with events }) hst hrun
      constructor
      · intro hsup
        unfold Supplied at hsup
        simp only [hevents, hop] at hsup
        exact ⟨hfresh, hstart, hkeep hsup⟩
      · intro _
        unfold Performing.work
        rw [hop, hevents]
        exact hless

theorem Sound.of_reach (hr : Run.Reach (performing v) (Supplied v) h s) : Sound s := by
  refine hr.invariant (P := Sound) ?_ ?_
  · rintro s rfl
    exact ⟨fun _ => rfl, fun _ => rfl, steady_freed rfl⟩
  · intro s i t o hs hsup hstep
    exact (hs.step hstep).1 hsup

/-- What a live operation waits for can be taken up. -/
theorem Performing.Moving.advances (hm : s.Moving v) (hop : s.op.isSome = true) :
    ∃ i, Advances s i := by
  obtain ⟨m, hop⟩ := Option.isSome_iff_exists.1 hop
  rcases hm m hop with - | ⟨r, hr, -, -⟩ | ⟨evt, he, -⟩
  · exact ⟨.segmentationTimerExpired, trivial⟩
  · exact ⟨.failureIndication r.invokeId true, r, hr, rfl⟩
  · exact ⟨.schRun {}, List.ne_nil_of_mem he⟩

/-- An operation with no timer, no request and no event waits for nothing. -/
theorem Performing.not_moving (hop : s.op = some m) (ht : m.receiver.hSegmentationTimer = false)
    (hr : s.requests = []) (he : s.events = []) : ¬s.Moving v := by
  intro hm
  rcases hm m hop with h | ⟨r, h, -⟩ | ⟨evt, h, -⟩
  · exact absurd (ht.symm.trans h) (by decide)
  · rw [hr] at h
    cases h
  · rw [he] at h
    cases h

end Ua
