import Emsd.Mts.Perform
import Emsd.Mtsua.Waiting
import Emsd.Ua.Progress

/-!
# What an operation of the message transfer server waits for (`mts/mperform.c`)

As for the user agent, each state of the Performer machine is there to wait for something, and the
actions before it do not always bring it about.

* `Performing.Moving`: the operation waits for something that its machine handles.
* `operations_move`: **no operation of either agent is stuck** in a run whose steps are supplied, and
  every step that takes up what is waited for leaves less to do.
* `operations_stick`: an operation of each agent that waits for nothing.
-/

namespace Mts.Performance

open Ocp Mtsua Table Perform Waiting

/-- The identifier of the invocation that a request is about. -/
def Request.invokeId : Request → InvokeId
  | .result id | .error id | .invoke id => id

/-- The events that end a request. -/
def Request.concludes : Request → FsmEvent → Bool
  | .result _, evt => evt = .resultConfirm || evt = .failureIndication
  | .error _, evt => evt = .errorConfirm || evt = .failureIndication
  | .invoke _, evt => evt = .resultIndication || evt = .errorIndication || evt = .failureIndication

/-- `FSM_runMachine` finds a transition for the event. -/
def Handles (s : State) (evt : FsmEvent) : Prop :=
  ∀ env x, (select FsmEvent.numbering (holdsIn env) evt (Perform.trans s) x).1.isSome = true

/-- **The operation waits for something**: its segmentation timer, which frees it; the end of a
request of its own; or an event. Its machine handles these. -/
def Performing.Moving (s : Performing) : Prop :=
  ∀ x ∈ s.op, x.performer.receiver.hSegmentationTimer = true ∨
    (∃ r ∈ s.requests, x.performer.invokeId = r.invokeId ∧
      ∀ evt, r.concludes evt = true → Handles s.curState evt) ∨
    ∃ evt ∈ s.events, Handles s.curState evt

/-! ## The condition -/

/-- The events that take the machine on from a state. -/
def wakes : State → FsmEvent → Bool
  | .s2SubmitResultResponseWait, evt => evt = .resultConfirm || evt = .failureIndication
  | _, _ => true

/-- The requests whose end does so. -/
def answers (x : Operation) : State → Request → Bool
  | .s1Idle, _ => false
  | .s2SubmitResultResponseWait, .result id => x.performer.invokeId = id
  | .s2SubmitResultResponseWait, _ => false
  | _, r => x.performer.invokeId = r.invokeId

/-- In this state the operation has something to wait for that takes it on. -/
def Kept (s : State) (x : Operation) (events : List FsmEvent) (requests : List Request) : Prop :=
  Awaits (wakes s) (answers x s) x.performer.receiver.hSegmentationTimer events requests

instance (s : State) (x : Operation) (events : List FsmEvent) (requests : List Request) :
    Decidable (Kept s x events requests) := inferInstanceAs (Decidable (Awaits _ _ _ _ _))

/-- The end of a request brings an event, or the operation has something else to wait for. -/
def Concluded (s : Performing) (invokeId : InvokeId) (concluded : List Request) (event : Prop) :
    Prop :=
  ∀ x ∈ s.op, x.performer.invokeId = invokeId →
    event ∨ Kept s.curState x s.events (s.requests.filter (· ∉ concluded))

/-- `aS1S5a` generates a FAILURE event. -/
def reportsFailure (env : Env) : Bool :=
  !env.resultAddUserFree && env.memGets 0 || !env.resultFormat && env.memGets 1 ||
    !env.resultReq && env.memGets 2

/-- What the action of the idle machine needs: its request is accepted, or the failure is reported,
or the operation has something else to wait for. -/
def SuppliedIdle (x : Operation) (ok : Bool) (events : List FsmEvent) (requests : List Request)
    (env : Env) : Prop :=
  if ok then
    (env.actionProfile = true ∧ (env.resultReq = true ∨ env.memGet = true)) ∨
      Kept .s2SubmitResultResponseWait x events requests
  else if x.other = some .deliveryVerify then
    (env.actionProfile = true ∧ (env.resultReq = true ∨ reportsFailure env = true)) ∨
      Kept .s5NotSubmitResultResponseWait x events requests
  else if x.other = some .deliveryControl then
    (env.actionProfile = true ∧ env.errorReq = true) ∨
      Kept .s5NotSubmitResultResponseWait x events requests
  else env.errorReq = true ∨ Kept .s4ErrorResponseWait x events requests

/-- What the transition of an event needs. -/
def SuppliedRun (s : Performing) (evt : FsmEvent) (x : Operation) (env : Env) : Prop :=
  match s.curState with
  | .s1Idle => ∀ r ∈ pS1S2a env x, SuppliedIdle r.1 r.2 s.events s.requests env
  | .s2SubmitResultResponseWait =>
    evt = .failureIndication → allReceived x.performer = true →
      (env.actionProfile = true ∧ env.verifyFormat = true ∧ env.invokeReq.isSome = true) ∨
        Kept .s3SubmitVerifyResponseWait x s.events s.requests
  | _ => True

/-- What an INVOKE needs: the operation, with its new identifier, has something to wait for. -/
def SuppliedInvoke (s : Performing) (x : Operation) (env : InvokeEnv) : Prop :=
  env.addUserFree = false ∨ (env.memGet = true ∧ wakes s.curState .invokeIndication = true) ∨
    Kept s.curState x s.events s.requests

/-- **The condition.** An INVOKE gets its event, where that is not passed over; the end of a request
brings one; a request is accepted, or its failure is reported. -/
def Supplied (s : Performing) : Input → Prop
  | .invokeIndication invoked id performer3Way env =>
    match s.allocated, s.op with
    | true, some x =>
      SuppliedInvoke s (Performing.assign invoked id performer3Way x.performer.firstIpm95
        x.performer.receiver) env
    | true, none => True
    | false, _ =>
      env.allocOperation = false ∨
        SuppliedInvoke s (Performing.assign invoked id performer3Way false {}) env
  | .resultConfirm id memGet => Concluded s id [.result id] (memGet = true)
  | .errorConfirm id memGet => Concluded s id [.error id] (memGet = true)
  | .failureIndication id memGet =>
    Concluded s id [.result id, .error id, .invoke id] (memGet = true)
  | .resultIndication id sendMessage memGet =>
    Concluded s id [.invoke id] (memGet = true ∧ sendMessage.isSome = true ∧
      ∀ x ∈ s.op, x.performer.operationValue = .submissionVerify)
  | .errorIndication id memGet => Concluded s id [.invoke id] (memGet = true)
  | .segmentationTimerExpired => True
  | .schRun env =>
    match s.events, s.op with
    | evt :: events, some x => SuppliedRun { s with events } evt x env
    | _, _ => True

instance (s : Performing) (id : InvokeId) (concluded : List Request) (event : Prop)
    [Decidable event] : Decidable (Concluded s id concluded event) :=
  inferInstanceAs (Decidable (∀ x ∈ s.op, _))

instance (x : Operation) (ok : Bool) (events : List FsmEvent) (requests : List Request)
    (env : Env) : Decidable (SuppliedIdle x ok events requests env) := by
  unfold SuppliedIdle
  infer_instance

instance (s : Performing) (evt : FsmEvent) (x : Operation) (env : Env) :
    Decidable (SuppliedRun s evt x env) := by
  unfold SuppliedRun
  split <;> infer_instance

instance (s : Performing) (x : Operation) (env : InvokeEnv) : Decidable (SuppliedInvoke s x env) :=
  inferInstanceAs (Decidable (_ ∨ _))

instance (s : Performing) (i : Input) : Decidable (Supplied s i) := by
  cases i with
  | schRun env => unfold Supplied; dsimp only; split <;> infer_instance
  | invokeIndication invoked id sap env => unfold Supplied; dsimp only; split <;> infer_instance
  | _ => unfold Supplied; infer_instance

/-! ## What is left to do -/

/-- What a machine can still do in a state without another INVOKE. -/
def rest : State → Nat
  | .s1Idle => 12
  | .s2SubmitResultResponseWait => 10
  | _ => 1

/-- What is left to do: a request brings an event, an event takes the machine on. -/
def Performing.work (s : Performing) : Nat :=
  (s.op.elim 0 fun _ => rest s.curState) + 3 * s.events.length + 4 * s.requests.length

/-- The input takes up what the operation waits for. -/
def Advances (s : Performing) : Input → Prop
  | .invokeIndication .. => False
  | .resultConfirm id _ => .result id ∈ s.requests
  | .errorConfirm id _ => .error id ∈ s.requests
  | .failureIndication id _ => ∃ r ∈ s.requests, r.invokeId = id
  | .resultIndication id _ _ | .errorIndication id _ => .invoke id ∈ s.requests
  | .segmentationTimerExpired => True
  | .schRun _ => s.events ≠ []

/-! ## The invariant -/

variable {s t : Performing} {i : Input} {x : Operation} {evt : FsmEvent} {env : Env}

/-- **What every step keeps**: the operation has something to wait for that takes it on; and it has
all segments, or its timer runs, when it has taken one. -/
structure Steady (st : State) (x : Operation) (events : List FsmEvent) (requests : List Request) :
    Prop where
  kept : Kept st x events requests
  idle : st = .s1Idle → x.performer.receiver.Open
  busy : st = .s2SubmitResultResponseWait → x.performer.receiver.Covered

/-- The operation, if it is alive, is steady; and there is none before it has been allocated. -/
structure Sound (s : Performing) : Prop where
  fresh : s.allocated = false → s.op = none ∧ s.curState = .s1Idle
  steady : ∀ x ∈ s.op, Steady s.curState x s.events s.requests

theorem handles_all (st : State) (evt : FsmEvent) : Handles st evt := by
  intro env x
  have hdefault : ∃ r ∈ trans st, r.entry = none ∧ r.guard = none := by
    cases st <;> simp [Perform.trans]
  have htotal : ∃ r, (select FsmEvent.numbering (holdsIn env) evt (Perform.trans st) x).1 = some r :=
    select_total hdefault x
  obtain ⟨r, hr⟩ := htotal
  rw [hr]
  rfl

section Kept

variable {y : Operation} {st : State} {events : List FsmEvent} {requests : List Request}
  {r : Request} {id : InvokeId} {concluded : List Request}

/-- A request that the operation needs is one of its own. -/
theorem answers_own (ha : answers x st r = true) : x.performer.invokeId = r.invokeId := by
  unfold answers at ha
  split at ha
  · cases ha
  · exact of_decide_eq_true ha
  · cases ha
  · exact of_decide_eq_true ha

/-- It is the same for an operation with the same identifier and timer. -/
theorem Kept.congr (hk : Kept st x events requests)
    (hid : y.performer.invokeId = x.performer.invokeId)
    (ht : y.performer.receiver.hSegmentationTimer = x.performer.receiver.hSegmentationTimer) :
    Kept st y events requests := by
  have ha : answers y st = answers x st := by
    funext r
    unfold answers
    split <;> simp [hid]
  unfold Kept
  rw [ha, ht]
  exact hk

/-- **The end of a request.** It takes the machine on or is passed over in this state, and brings its
event or is not needed. -/
theorem Kept.ended {event : Prop} [Decidable event] (hk : Kept st x events requests)
    (hids : ∀ r ∈ concluded, r.invokeId = id)
    (hevt : wakes st evt = true ∨ ∀ r ∈ concluded, answers x st r = false)
    (hc : x.performer.invokeId = id → event ∨ Kept st x events (requests.filter (· ∉ concluded))) :
    Kept st x (events ++ if x.performer.invokeId = id ∧ event then [evt] else [])
      (requests.filter (· ∉ concluded)) := by
  refine Awaits.ended hk (fun hid r hr => ?_) hevt hc
  by_contra ha
  have hown := answers_own (by simpa using ha : answers x st r = true)
  rw [hids r hr] at hown
  exact hid hown

end Kept

theorem Sound.moving (hs : Sound s) : s.Moving := by
  intro x hx
  rcases (hs.steady x hx).kept with ht | ⟨r, hr, ha⟩ | ⟨evt, he, -⟩
  · exact .inl ht
  · exact .inr (.inl ⟨r, hr, answers_own ha, fun evt _ => handles_all _ evt⟩)
  · exact .inr (.inr ⟨evt, he, handles_all _ evt⟩)

/-! ## The idle machine -/

section Idle

variable {y : Operation} {ok : Bool} {events : List FsmEvent} {requests : List Request} {a : Acted}

/-- **A submission that is taken** completes the operation or leaves it with its timer. -/
theorem pS1S2a_covered (ho : x.performer.receiver.Open) (hp : pS1S2a env x = some (y, true)) :
    y.performer.receiver.Covered := by
  unfold pS1S2a at hp
  split at hp
  · cases hp
  · obtain ⟨⟨m, ok, o⟩, hm, he⟩ := Option.map_eq_some_iff.1 hp
    obtain ⟨rfl, rfl⟩ := Prod.mk.inj he
    unfold Mts.pS1S2a at hm
    split at hm
    · cases hm
    · split at hm
      · cases hm
      · split at hm
        · obtain ⟨rfl, -⟩ := Prod.mk.inj (Option.some.inj hm)
          exact .inl rfl
        · split at hm
          · cases hm
          · rename_i receiver taken hrec
            dsimp only at hm
            split at hm
            · rename_i htaken
              obtain ⟨rfl, -⟩ := Prod.mk.inj (Option.some.inj hm)
              subst htaken
              exact receiveSegment_covered ho hrec
            · cases hm

theorem answers_result (x : Operation) :
    answers x .s2SubmitResultResponseWait (.result x.performer.invokeId) = true :=
  decide_eq_true rfl

/-- `aS1S2a` in closed form. -/
theorem aS1S2a_eq (env : Env) (x : Operation) : aS1S2a env x =
    if env.actionProfile = false then { op := some x }
    else if env.resultReq then { op := some x, requests := [.result x.performer.invokeId] }
    else { op := some x, events := if env.memGet then [.failureIndication] else [] } := by
  unfold aS1S2a performS1S2a
  by_cases hp : env.actionProfile = false
  · simp [hp]
  · by_cases hr : env.resultReq = true
    · simp [hp, hr, request]
    · by_cases hm : env.memGet = true <;> simp [hp, hr, hm]

/-- The actions of the idle machine keep the operation. -/
theorem action_idleTarget (h : action env x (idleTarget ok x).1 = some a) : a.op = some x := by
  unfold idleTarget at h
  split at h
  · cases h
    rw [aS1S2a_eq]
    split
    · rfl
    · split <;> rfl
  · split at h
    · dsimp only [action] at h
      unfold aS1S5a at h
      split at h
      · cases h
        rfl
      · split at h <;> cases h
        rfl
    · split at h
      · cases h
        unfold aS1S5b
        split <;> rfl
      · cases h
        rfl

theorem idleTarget_state (ok : Bool) (x : Operation) : (idleTarget ok x).2 ≠ .s1Idle := by
  unfold idleTarget
  repeat' split
  all_goals decide

/-- What is not taken ends the operation. -/
theorem idleTarget_rejected (x : Operation) :
    (idleTarget false x).2 = .s5NotSubmitResultResponseWait ∨
      (idleTarget false x).2 = .s4ErrorResponseWait := by
  unfold idleTarget
  rw [if_neg Bool.false_ne_true]
  split
  · exact .inl rfl
  · split
    · exact .inl rfl
    · exact .inr rfl

theorem length_generated (env : Env) (k : Nat) : (generated env k).length ≤ 1 := by
  unfold generated
  split <;> simp

/-- The events of `aS1S5a`. -/
theorem aS1S5a_events (h : aS1S5a env x = some a) (hp : env.actionProfile = true)
    (hrep : reportsFailure env = true) : .failureIndication ∈ a.events := by
  unfold aS1S5a at h
  rw [if_neg (by simp [hp])] at h
  split at h
  · cases h
  · cases h
    simp only [reportsFailure, Bool.or_eq_true, Bool.and_eq_true, Bool.not_eq_true'] at hrep
    simp only [List.mem_append, generated]
    rcases hrep with (⟨h₁, h₂⟩ | ⟨h₁, h₂⟩) | ⟨h₁, h₂⟩ <;> simp [h₁, h₂]

/-- An ERROR.request that is accepted. -/
theorem aS1S4a_asked (st : State) (hst : st = .s4ErrorResponseWait ∨
    st = .s5NotSubmitResultResponseWait) (hreq : env.errorReq = true) :
    Kept st x events (requests ++ (aS1S4a env x).requests) := by
  unfold aS1S4a
  rw [if_pos hreq]
  refine .asked (r := .error x.performer.invokeId)
    (List.mem_append_right _ (List.mem_singleton_self _)) ?_
  rcases hst with rfl | rfl <;> exact decide_eq_true rfl

/-- **The idle machine** goes on to wait for the end of its request. -/
theorem idle_kept (hsup : SuppliedIdle x ok events requests env)
    (hact : action env x (idleTarget ok x).1 = some a) :
    Kept (idleTarget ok x).2 x (events ++ a.events) (requests ++ a.requests) := by
  have hgrow : ∀ {st}, Kept st x events requests →
      Kept st x (events ++ a.events) (requests ++ a.requests) := fun hk =>
    hk.grow (List.subset_append_left _ _) (List.subset_append_left _ _)
  unfold idleTarget at hact ⊢
  unfold SuppliedIdle at hsup
  split at hact
  · -- `aS1S2a`
    rename_i hok
    rw [if_pos hok] at hsup ⊢
    cases hact
    rcases hsup with ⟨hprofile, hreq⟩ | hk
    · rw [aS1S2a_eq, if_neg (by simp [hprofile])]
      split
      · exact .asked (List.mem_append_right _ (List.mem_singleton_self _)) (answers_result x)
      · rename_i hno
        refine .woken (e := .failureIndication) (List.mem_append_right _ ?_) rfl
        rw [if_pos (hreq.resolve_left hno)]
        exact List.mem_singleton_self _
    · exact hgrow hk
  · rename_i hok
    rw [if_neg hok] at hsup ⊢
    split at hact
    · -- `aS1S5a`
      rename_i h5a
      rw [if_pos h5a] at hsup ⊢
      rcases hsup with ⟨hprofile, hreq | hrep⟩ | hk
      · dsimp only [action] at hact
        unfold aS1S5a at hact
        rw [if_neg (by simp [hprofile])] at hact
        split at hact
        · cases hact
        · cases hact
          exact .asked (r := .result x.performer.invokeId)
            (List.mem_append_right _ (List.mem_singleton_self _)) (decide_eq_true rfl)
      · exact .woken (List.mem_append_right _ (aS1S5a_events hact hprofile hrep)) rfl
      · exact hgrow hk
    · rename_i h5a
      rw [if_neg h5a] at hsup ⊢
      split at hact
      · -- `aS1S5b`
        rename_i h5b
        rw [if_pos h5b] at hsup ⊢
        cases hact
        rcases hsup with ⟨hprofile, hreq⟩ | hk
        · unfold aS1S5b
          rw [if_neg (by simp [hprofile])]
          exact aS1S4a_asked _ (.inr rfl) hreq
        · exact hgrow hk
      · -- `aS1S4a`
        rename_i h5b
        rw [if_neg h5b] at hsup ⊢
        cases hact
        rcases hsup with hreq | hk
        · exact aS1S4a_asked _ (.inl rfl) hreq
        · exact hgrow hk

/-- The actions of the idle machine bring a request and at most three events, and a submission that
is taken one of the two. -/
theorem idle_length (h : action env x (idleTarget ok x).1 = some a) :
    a.requests.length ≤ 1 ∧ a.events.length ≤ 3 ∧
      (ok = true → 3 * a.events.length + 4 * a.requests.length ≤ 4) := by
  have herror : (aS1S4a env x).requests.length ≤ 1 := by
    unfold aS1S4a
    dsimp only
    split
    · exact Nat.le_refl 1
    · exact Nat.zero_le 1
  unfold idleTarget at h
  split at h
  · cases h
    rw [aS1S2a_eq]
    split
    · exact ⟨Nat.zero_le 1, Nat.zero_le 3, fun _ => Nat.zero_le 4⟩
    · split
      · exact ⟨Nat.le_refl 1, Nat.zero_le 3, fun _ => Nat.le_refl 4⟩
      · dsimp only
        split
        · exact ⟨Nat.zero_le 1, by decide, fun _ => by decide⟩
        · exact ⟨Nat.zero_le 1, Nat.zero_le 3, fun _ => Nat.zero_le 4⟩
  · rename_i hok
    split at h
    · dsimp only [action] at h
      unfold aS1S5a at h
      split at h
      · cases h
        exact ⟨Nat.zero_le 1, Nat.zero_le 3, fun h => absurd h hok⟩
      · split at h
        · cases h
        · cases h
          have hone : ∀ (b : Bool) (k : Nat),
              (if b then [] else generated env k).length ≤ 1 := by
            intro b k
            cases b
            · exact length_generated env k
            · exact Nat.zero_le 1
          have h0 := hone env.resultAddUserFree 0
          have h1 := hone env.resultFormat 1
          have h2 := hone env.resultReq 2
          refine ⟨?_, ?_, fun h => absurd h hok⟩
          · dsimp only
            split
            · exact Nat.le_refl 1
            · exact Nat.zero_le 1
          · simp only [List.length_append]
            omega
    · split at h
      · cases h
        unfold aS1S5b
        split
        · exact ⟨Nat.zero_le 1, Nat.zero_le 3, fun h => absurd h hok⟩
        · exact ⟨herror, Nat.zero_le 3, fun h => absurd h hok⟩
      · cases h
        exact ⟨herror, Nat.zero_le 3, fun h => absurd h hok⟩

end Idle

/-! ## One event -/

/-- The work that is left after an event, compared with the work before it. -/
def Less (s t : Performing) : Prop :=
  t.work < rest s.curState + 3 * (s.events.length + 1) + 4 * s.requests.length

/-- An operation that is freed has nothing left to do. -/
theorem less_freed (hop : t.op = none) (he : t.events = s.events) (hr : t.requests = s.requests) :
    Less s t := by
  unfold Less Performing.work
  rw [hop, he, hr]
  simp only [Option.elim_none]
  omega

theorem steady_freed (hop : t.op = none) :
    ∀ y ∈ t.op, Steady t.curState y t.events t.requests := by
  rw [hop]
  exact fun y hy => absurd hy (Option.not_mem_none y)

/-- The idle machine. -/
theorem runMachine_idle_steady (hc : s.curState = .s1Idle)
    (hs : Steady .s1Idle x (evt :: s.events) s.requests) (h : s.runMachine evt x env = some t) :
    (SuppliedRun s evt x env → ∀ y ∈ t.op, Steady t.curState y t.events t.requests) ∧ Less s t := by
  rw [Performing.runMachine_eq, hc] at h
  obtain ⟨⟨target, z⟩, hfired, h⟩ := Option.bind_eq_some_iff.1 h
  obtain ⟨a, hact, rfl⟩ := Option.map_eq_some_iff.1 h
  obtain ⟨⟨y, ok⟩, hp, he'⟩ := Option.map_eq_some_iff.1 hfired
  cases he'
  have hop : a.op = some y := action_idleTarget hact
  obtain ⟨hreq, hevents, hok⟩ := idle_length hact
  constructor
  · intro hsup y' hy'
    rw [hop] at hy'
    cases hy'
    unfold SuppliedRun at hsup
    rw [hc] at hsup
    refine ⟨idle_kept (hsup _ hp) hact, fun hst => absurd hst (idleTarget_state ok y), fun hst => ?_⟩
    cases ok with
    | true => exact pS1S2a_covered (hs.idle rfl) hp
    | false =>
      rcases idleTarget_rejected y with h5 | h4
      · exact absurd (h5.symm.trans hst) (by decide)
      · exact absurd (h4.symm.trans hst) (by decide)
  · unfold Less Performing.work
    dsimp only
    rw [hop, hc, Option.elim_some, List.length_append, List.length_append]
    cases ok with
    | true =>
      have := hok rfl
      simp only [idleTarget, if_pos, rest]
      omega
    | false =>
      have hrest : rest (idleTarget false y).2 = 1 := by
        rcases idleTarget_rejected y with h5 | h4
        · rw [h5]
          rfl
        · rw [h4]
          rfl
      rw [hrest]
      simp only [rest]
      omega

/-- `aS2S3a` in closed form. -/
theorem aS2S3a_eq (env : Env) (x : Operation) : aS2S3a env x =
    if env.actionProfile = false ∨ env.verifyFormat = false then { op := some x }
    else
      let m := { x.performer with operationValue := .submissionVerify, performer3Way := false }
      match env.invokeReq with
      | none => { op := some { x with performer := m } }
      | some id =>
        { op := some { x with performer := { m with invokeId := id } }, requests := [.invoke id] } := by
  unfold aS2S3a performS2S3a
  by_cases hformat : env.actionProfile = false ∨ env.verifyFormat = false
  · rw [if_pos hformat, if_pos hformat]
    rfl
  · rw [if_neg hformat, if_neg hformat]
    cases env.invokeReq <;> rfl

/-- The operation after `aS2S3a`, and its request. -/
theorem aS2S3a_kept {events : List FsmEvent} {requests : List Request}
    (hsup : (env.actionProfile = true ∧ env.verifyFormat = true ∧ env.invokeReq.isSome = true) ∨
      Kept .s3SubmitVerifyResponseWait x events requests) :
    ∃ y, (aS2S3a env x).op = some y ∧
      Kept .s3SubmitVerifyResponseWait y events (requests ++ (aS2S3a env x).requests) := by
  rw [aS2S3a_eq]
  split
  · rename_i hformat
    refine ⟨_, rfl, ?_⟩
    have hk := hsup.resolve_left fun ⟨h₁, h₂, _⟩ => by simp [h₁, h₂] at hformat
    exact hk.grow (List.Subset.refl _) (List.subset_append_left _ _)
  · cases hi : env.invokeReq with
    | none =>
      refine ⟨_, rfl, ?_⟩
      have hk := hsup.resolve_left fun ⟨_, _, h₃⟩ => by simp [hi] at h₃
      exact (hk.congr rfl rfl).grow (List.Subset.refl _) (List.subset_append_left _ _)
    | some id =>
      refine ⟨_, rfl, .asked (r := .invoke id) ?_ (decide_eq_true rfl)⟩
      exact List.mem_append_right _ (List.mem_singleton_self _)

theorem aS2S3a_length (env : Env) (x : Operation) :
    (aS2S3a env x).events = [] ∧ (aS2S3a env x).requests.length ≤ 1 ∧
      (aS2S3a env x).op.isSome = true := by
  rw [aS2S3a_eq]
  split
  · exact ⟨rfl, Nat.zero_le 1, rfl⟩
  · cases env.invokeReq with
    | none => exact ⟨rfl, Nat.zero_le 1, rfl⟩
    | some id => exact ⟨rfl, Nat.le_refl 1, rfl⟩

/-- The machine that waits for the confirm of a Submit result. -/
theorem runMachine_result_steady (hc : s.curState = .s2SubmitResultResponseWait)
    (hs : Steady .s2SubmitResultResponseWait x (evt :: s.events) s.requests)
    (h : s.runMachine evt x env = some t) :
    (SuppliedRun s evt x env → ∀ y ∈ t.op, Steady t.curState y t.events t.requests) ∧ Less s t := by
  rw [Performing.runMachine_eq, hc] at h
  have hcovered := hs.busy rfl
  unfold SuppliedRun
  rw [hc]
  -- there are segments missing, and the timer runs
  have hback : allReceived x.performer ≠ true → t = { s with
      curState := .s1Idle, op := some x, events := s.events ++ [], requests := s.requests ++ [] } →
      (∀ y ∈ t.op, Steady t.curState y t.events t.requests) ∧ Less s t := by
    rintro hmore rfl
    have htimer : x.performer.receiver.hSegmentationTimer = true := hcovered.resolve_left hmore
    constructor
    · rintro y ⟨⟩
      exact ⟨.timed htimer, fun _ => hcovered.open_, fun hbusy => by cases hbusy⟩
    · unfold Less Performing.work
      simp only [Option.elim_some, List.append_nil, rest, hc]
      omega
  unfold fired at h
  cases evt with
  | resultConfirm =>
    dsimp only [resultTarget] at h
    split at h
    · -- `aS2S1a`
      cases h
      exact ⟨fun _ => steady_freed rfl, less_freed rfl (List.append_nil _) (List.append_nil _)⟩
    · rename_i hmore
      have := hback hmore (Option.some.inj h).symm
      exact ⟨fun _ => this.1, this.2⟩
  | failureIndication =>
    dsimp only [resultTarget] at h
    split at h
    · -- `aS2S3a`
      rename_i hall
      obtain ⟨hnone, hone, hsome⟩ := aS2S3a_length env x
      obtain rfl := Option.some.inj h
      constructor
      · intro hsup
        obtain ⟨y, hy, hk⟩ := aS2S3a_kept (hsup rfl hall)
        dsimp only
        rw [hy]
        rintro y' ⟨⟩
        exact ⟨hk.grow (List.subset_append_left _ _) (List.Subset.refl _),
          fun hidle => (by cases hidle), fun hbusy => by cases hbusy⟩
      · obtain ⟨y, hy⟩ := Option.isSome_iff_exists.1 hsome
        unfold Less Performing.work
        dsimp only
        rw [hy, hnone, hc, List.append_nil, List.length_append]
        simp only [Option.elim_some, rest]
        omega
    · rename_i hmore
      have := hback hmore (Option.some.inj h).symm
      exact ⟨fun _ => this.1, this.2⟩
  | segmentationTimerExpired =>
    -- `aS2S1c`
    cases h
    exact ⟨fun _ => steady_freed rfl, less_freed rfl (List.append_nil _) (List.append_nil _)⟩
  | _ =>
    -- `aS2S2a`
    cases h
    constructor
    · rintro - y ⟨⟩
      refine ⟨?_, fun hidle => (by cases hidle), hs.busy⟩
      have hk : Kept .s2SubmitResultResponseWait x s.events s.requests := hs.kept.tail rfl
      exact hk.grow (List.subset_append_left _ _) (List.subset_append_left _ _)
    · unfold Less Performing.work
      simp only [Option.elim_some, resultTarget, rest, List.append_nil, hc]
      omega

/-- **One event** leaves less to do, and the operation with something to wait for. -/
theorem runMachine_steady (hs : Steady s.curState x (evt :: s.events) s.requests)
    (h : s.runMachine evt x env = some t) :
    (SuppliedRun s evt x env → ∀ y ∈ t.op, Steady t.curState y t.events t.requests) ∧ Less s t := by
  have hfreed : ∀ {target : Option Action × State}, fired env s.curState evt x = some (target, x) →
      action env x target.1 = some { op := none } →
      (SuppliedRun s evt x env → ∀ y ∈ t.op, Steady t.curState y t.events t.requests) ∧
        Less s t := by
    intro target hf ha
    rw [Performing.runMachine_eq, hf, Option.bind_some, ha] at h
    cases h
    exact ⟨fun _ => steady_freed rfl, less_freed rfl (List.append_nil _) (List.append_nil _)⟩
  cases hc : s.curState with
  | s1Idle => exact runMachine_idle_steady hc (hc ▸ hs) h
  | s2SubmitResultResponseWait => exact runMachine_result_steady hc (hc ▸ hs) h
  | s3SubmitVerifyResponseWait =>
    refine hfreed (by rw [hc]; rfl) ?_
    cases evt with
    | resultIndication =>
      dsimp only [lastTarget]
      split <;> rfl
    | _ => rfl
  | _ =>
    -- any event frees the operation
    exact hfreed (by rw [hc]; rfl) (by cases evt <;> rfl)

/-! ## Steps and runs -/

section Indication

variable {id : InvokeId} {concluded : List Request} {memGet : Bool}

/-- An indication: the requests that it ends, and its event when it finds the operation. -/
theorem indication_eq (hop : s.op = some x) (id : InvokeId) (concluded : List Request)
    (evt : FsmEvent) (memGet : Bool) : s.indication id concluded evt memGet =
      { s with
        requests := s.requests.filter (· ∉ concluded)
        events := s.events ++
          if x.performer.invokeId = id ∧ memGet = true then [evt] else [] } := by
  unfold Performing.indication
  simp only [hop]
  by_cases hid : x.performer.invokeId = id
  · rw [if_pos hid]
    cases memGet <;> simp [Performing.generateEvent, hid]
  · rw [if_neg hid, if_neg fun h => hid h.1, List.append_nil]

theorem indication_none (hop : s.op = none) (id : InvokeId) (concluded : List Request)
    (evt : FsmEvent) (memGet : Bool) : s.indication id concluded evt memGet =
      { s with requests := s.requests.filter (· ∉ concluded) } := by
  unfold Performing.indication
  simp only [hop]

/-- An indication without an event. -/
theorem indication_silent (s : Performing) (id : InvokeId) (concluded : List Request)
    (evt : FsmEvent) : s.indication id concluded evt false =
      { s with requests := s.requests.filter (· ∉ concluded) } := by
  rcases Option.eq_none_or_eq_some s.op with hop | ⟨x, hop⟩
  · exact indication_none hop _ _ _ _
  · rw [indication_eq hop]
    simp

theorem indication_work (hc : ∃ r ∈ s.requests, r ∈ concluded) :
    (s.indication id concluded evt memGet).work < s.work := by
  have hless : (s.requests.filter (· ∉ concluded)).length < s.requests.length := by
    obtain ⟨r, hr, hmem⟩ := hc
    refine List.length_filter_lt_length_iff_exists.2 ⟨r, hr, ?_⟩
    simpa using hmem
  cases hop : s.op with
  | none =>
    rw [indication_none hop]
    unfold Performing.work
    dsimp only
    omega
  | some x =>
    rw [indication_eq hop]
    unfold Performing.work
    have hone : (if x.performer.invokeId = id ∧ memGet = true then [evt] else []).length ≤ 1 := by
      split
      · exact Nat.le_refl 1
      · exact Nat.zero_le 1
    simp only [List.length_append]
    omega

/-- **An indication** keeps what the operation waits for. -/
theorem Sound.indication (hs : Sound s) (hids : ∀ r ∈ concluded, r.invokeId = id)
    (hevt : ∀ x st, wakes st evt = true ∨ ∀ r ∈ concluded, answers x st r = false)
    (hc : Concluded s id concluded (memGet = true)) :
    Sound (s.indication id concluded evt memGet) := by
  cases hop : s.op with
  | none =>
    rw [indication_none hop]
    refine ⟨hs.fresh, fun y hy => ?_⟩
    rw [hop] at hy
    cases hy
  | some x =>
    rw [indication_eq hop]
    refine ⟨fun ha => ?_, fun y hy => ?_⟩
    · exact absurd ((hs.fresh ha).1.symm.trans hop) (by simp)
    · obtain rfl : x = y := Option.some.inj (hop.symm.trans hy)
      have hst := hs.steady x hop
      exact ⟨hst.kept.ended hids (hevt x s.curState) (hc x hop), hst.idle, hst.busy⟩

/-- The operation that `mts_resultIndication` finds, with its result. -/
theorem resultIndication_cases (s : Performing) (id : InvokeId) (sendMessage : Option Bool)
    (memGet : Bool) :
    (∃ x b, s.op = some x ∧ sendMessage = some b ∧ x.performer.invokeId = id ∧
      s.resultIndication id sendMessage memGet =
        { s with op := some { x with
            performer := { x.performer with hOperationData := .verified b } } }.indication id
          [.invoke id] .resultIndication memGet) ∨
      (s.resultIndication id sendMessage memGet =
          s.indication id [.invoke id] .resultIndication false ∧
        ∀ x ∈ s.op, x.performer.invokeId = id → sendMessage.isSome = true →
          x.performer.operationValue ≠ .submissionVerify) := by
  rw [indication_silent]
  unfold Performing.resultIndication
  cases hop : s.op with
  | none => exact .inr ⟨rfl, fun y hy => absurd hy (Option.not_mem_none y)⟩
  | some x =>
    cases sendMessage with
    | none => exact .inr ⟨rfl, by simp⟩
    | some b =>
      by_cases hfound : x.performer.invokeId = id ∧ x.performer.operationValue = .submissionVerify
      · refine .inl ⟨x, b, rfl, rfl, hfound.1, ?_⟩
        simp only [Option.bind_some, if_pos hfound]
      · refine .inr ⟨?_, ?_⟩
        · simp only [Option.bind_some, if_neg hfound]
        · rintro y ⟨⟩ hid - hvalue
          exact hfound ⟨hid, hvalue⟩

/-- **A RESULT.indication.** -/
theorem resultIndication_sound (hs : Sound s) {sendMessage : Option Bool}
    (hc : Concluded s id [.invoke id] (memGet = true ∧ sendMessage.isSome = true ∧
      ∀ x ∈ s.op, x.performer.operationValue = .submissionVerify)) :
    Sound (s.resultIndication id sendMessage memGet) := by
  have hevt : ∀ (x : Operation) st, wakes st .resultIndication = true ∨
      ∀ r ∈ [Request.invoke id], answers x st r = false := by
    intro x st
    cases st <;> simp [wakes, answers]
  have hids : ∀ r ∈ [Request.invoke id], r.invokeId = id := by simp [Request.invokeId]
  rcases resultIndication_cases s id sendMessage memGet with
    ⟨x, b, hop, hb, hid, heq⟩ | ⟨heq, hno⟩
  · rw [heq]
    have hst := hs.steady x hop
    refine Sound.indication ⟨fun ha => ?_, ?_⟩ hids hevt ?_
    · exact absurd ((hs.fresh ha).1.symm.trans hop) (by simp)
    · rintro y ⟨⟩
      exact ⟨hst.kept.congr rfl rfl, hst.idle, hst.busy⟩
    · rintro y ⟨⟩ -
      rcases hc x hop hid with hevent | hk
      · exact .inl hevent.1
      · exact .inr (hk.congr rfl rfl)
  · rw [heq]
    refine hs.indication hids hevt fun x hx hid => .inr ?_
    refine (hc x hx hid).resolve_left fun ⟨_, hsome, hvalue⟩ => ?_
    exact hno x hx hid hsome (hvalue x hx)

theorem resultIndication_work {sendMessage : Option Bool} (hc : .invoke id ∈ s.requests) :
    (s.resultIndication id sendMessage memGet).work < s.work := by
  have hmem : ∃ r ∈ s.requests, r ∈ [Request.invoke id] := ⟨_, hc, List.mem_singleton_self _⟩
  rcases resultIndication_cases s id sendMessage memGet with ⟨x, b, hop, -, -, heq⟩ | ⟨heq, -⟩
  · rw [heq]
    refine Nat.lt_of_lt_of_eq (indication_work hmem) ?_
    unfold Performing.work
    rw [hop]
    rfl
  · rw [heq]
    exact indication_work hmem

end Indication

/-- **An INVOKE** for the operation `y`, whose segments are those of the operation before. -/
theorem invoke_sound {e : InvokeEnv} {y : Operation} (ha : s.allocated = true)
    (hidle : s.curState = .s1Idle → y.performer.receiver.Open)
    (hbusy : s.curState = .s2SubmitResultResponseWait → y.performer.receiver.Covered)
    (hsup : SuppliedInvoke s y e) : Sound (s.invoke y e) := by
  unfold Performing.invoke
  split
  · exact ⟨fun hno => absurd (ha.symm.trans hno) (by decide), steady_freed rfl⟩
  · rename_i hfree
    refine ⟨fun hno => absurd (ha.symm.trans hno) (by decide), ?_⟩
    rintro z ⟨⟩
    refine ⟨?_, hidle, hbusy⟩
    show Kept s.curState y (s.events ++ if e.memGet then [.invokeIndication] else []) s.requests
    rcases hsup with hf | ⟨hmem, hw⟩ | hk
    · exact absurd hf hfree
    · refine .woken (e := .invokeIndication) (List.mem_append_right _ ?_) hw
      rw [if_pos hmem]
      exact List.mem_singleton_self _
    · exact hk.grow (List.subset_append_left _ _) (List.Subset.refl _)

theorem assign_receiver (invoked : Invoked) (id : InvokeId) (sap ipm95 : Bool)
    (receiver : Receiver) :
    (Performing.assign invoked id sap ipm95 receiver).performer.receiver = receiver := by
  cases invoked <;> rfl

theorem runMachine_allocated (h : s.runMachine evt x env = some t) : t.allocated = s.allocated := by
  rw [Performing.runMachine_eq] at h
  obtain ⟨r, -, h⟩ := Option.bind_eq_some_iff.1 h
  obtain ⟨a, -, rfl⟩ := Option.map_eq_some_iff.1 h
  rfl

/-- **A step** that is supplied keeps what the operation waits for, and one that takes it up leaves
less to do. -/
theorem Sound.step (hs : Sound s) (h : s.step i = some t) :
    (Supplied s i → Sound t) ∧ (Advances s i → t.work < s.work) := by
  have hwakes : ∀ (st : State), wakes st .resultConfirm = true ∧
      wakes st .failureIndication = true := by
    intro st
    cases st <;> exact ⟨rfl, rfl⟩
  unfold Performing.step at h
  cases i with
  | invokeIndication invoked id sap e =>
    refine ⟨fun hsup => ?_, nofun⟩
    unfold Supplied at hsup
    dsimp only at h hsup
    split at h
    · rename_i y ha hop
      simp only [ha, hop] at hsup
      split at h
      · obtain rfl := Option.some.inj h
        have hst := hs.steady y hop
        refine invoke_sound ha ?_ ?_ hsup
        · rw [assign_receiver]
          exact hst.idle
        · rw [assign_receiver]
          exact hst.busy
      · cases h
    · cases h
    · rename_i ha
      obtain ⟨hop, hst⟩ := hs.fresh ha
      simp only [ha, hop] at hsup
      split at h
      · rename_i hnew
        obtain rfl := Option.some.inj h
        have hsupplied := hsup.resolve_left (by simp [hnew])
        refine invoke_sound rfl (fun _ => ?_) (fun hno => ?_) hsupplied
        · rw [assign_receiver]
          exact .inl rfl
        · exact absurd (hst.symm.trans hno) (by decide)
      · cases h
        exact hs
  | resultConfirm id memGet =>
    cases h
    exact ⟨hs.indication (by simp [Request.invokeId]) fun x st => .inl (hwakes st).1,
      fun hadv => indication_work ⟨_, hadv, List.mem_singleton_self _⟩⟩
  | errorConfirm id memGet =>
    cases h
    refine ⟨hs.indication (by simp [Request.invokeId]) fun x st => ?_,
      fun hadv => indication_work ⟨_, hadv, List.mem_singleton_self _⟩⟩
    cases st <;> simp [wakes, answers]
  | failureIndication id memGet =>
    cases h
    refine ⟨hs.indication (by simp [Request.invokeId]) fun x st => .inl (hwakes st).2, ?_⟩
    rintro ⟨r, hr, rfl⟩
    exact indication_work ⟨r, hr, by cases r <;> simp [Request.invokeId]⟩
  | resultIndication id sendMessage memGet =>
    cases h
    exact ⟨fun hsup => resultIndication_sound hs hsup, fun hadv => resultIndication_work hadv⟩
  | errorIndication id memGet =>
    cases h
    refine ⟨hs.indication (by simp [Request.invokeId]) fun x st => ?_,
      fun hadv => indication_work ⟨_, hadv, List.mem_singleton_self _⟩⟩
    cases st <;> simp [wakes, answers]
  | segmentationTimerExpired =>
    obtain ⟨y, hop, h⟩ := Option.bind_eq_some_iff.1 h
    split at h
    · cases h
      refine ⟨fun _ => ⟨fun ha => ⟨rfl, (hs.fresh ha).2⟩, steady_freed rfl⟩, fun _ => ?_⟩
      unfold Performing.work
      rw [hop]
      simp only [Option.elim_none, Option.elim_some]
      have : 0 < rest s.curState := by
        unfold rest
        split <;> omega
      omega
    · cases h
  | schRun env =>
    dsimp only at h
    cases hevents : s.events with
    | nil =>
      rw [hevents] at h
      cases h
      exact ⟨fun _ => hs, fun hadv => absurd hevents hadv⟩
    | cons evt events =>
      rw [hevents] at h
      obtain ⟨y, hop, hrun⟩ := Option.bind_eq_some_iff.1 h
      have hst := hs.steady y hop
      rw [hevents] at hst
      obtain ⟨hkeep, hless⟩ := runMachine_steady (s := { s with events }) hst hrun
      constructor
      · intro hsup
        unfold Supplied at hsup
        simp only [hevents, hop] at hsup
        refine ⟨fun ha => ?_, hkeep hsup⟩
        have halloc : s.allocated = false := (runMachine_allocated hrun).symm.trans ha
        exact absurd ((hs.fresh halloc).1.symm.trans hop) (by simp)
      · intro _
        unfold Performing.work
        rw [hop, hevents]
        exact hless

theorem Sound.of_reach {h : List Unit} (hr : Run.Reach performing Supplied h s) : Sound s := by
  refine hr.invariant (P := Sound) ?_ ?_
  · rintro s rfl
    exact ⟨fun _ => ⟨rfl, rfl⟩, steady_freed rfl⟩
  · intro s i t o hs hsup hstep
    obtain ⟨t', ht, he⟩ := Option.map_eq_some_iff.1 hstep
    cases he
    exact (hs.step ht).1 hsup

/-- What a live operation waits for can be taken up. -/
theorem Performing.Moving.advances (hm : s.Moving) (hop : s.op.isSome = true) :
    ∃ i, Advances s i := by
  obtain ⟨x, hop⟩ := Option.isSome_iff_exists.1 hop
  rcases hm x hop with - | ⟨r, hr, -, -⟩ | ⟨evt, he, -⟩
  · exact ⟨.segmentationTimerExpired, trivial⟩
  · exact ⟨.failureIndication r.invokeId true, r, hr, rfl⟩
  · exact ⟨.schRun {}, List.ne_nil_of_mem he⟩

/-- An operation with no timer, no request and no event waits for nothing. -/
theorem Performing.not_moving (hop : s.op = some x)
    (ht : x.performer.receiver.hSegmentationTimer = false) (hr : s.requests = [])
    (he : s.events = []) : ¬s.Moving := by
  intro hm
  rcases hm x hop with h | ⟨r, h, -⟩ | ⟨evt, h, -⟩
  · exact absurd (ht.symm.trans h) (by decide)
  · rw [hr] at h
    cases h
  · rw [he] at h
    cases h

/-- **No operation is stuck**, of either agent, in every run whose steps are supplied: it waits for
something that its machine handles, this can be taken up as long as it lives, and each step that does
so leaves less to do. -/
theorem operations_move {v : Bool} {s : Ua.Performing} {h : List Ua.PerformOut} {h' : List Unit}
    (hu : Run.Reach (Ua.performing v) (Ua.Supplied v) h s)
    (hm : Run.Reach performing Supplied h' t) :
    (s.Moving v ∧ (s.op.isSome = true → ∃ i, Ua.Advances s i) ∧ ∀ i s' o,
      (Ua.performing v).step s i = some (s', o) → Ua.Advances s i → s'.work < s.work) ∧
    (t.Moving ∧ (t.op.isSome = true → ∃ i, Advances t i) ∧ ∀ i t',
      t.step i = some t' → Advances t i → t'.work < t.work) := by
  have hsu := Ua.Sound.of_reach hu
  have hst := Sound.of_reach hm
  have humoving : s.Moving v := hsu.moving
  have hmoving : t.Moving := hst.moving
  exact ⟨⟨humoving, humoving.advances, fun i s' o hs => (hsu.step hs).2⟩,
    ⟨hmoving, hmoving.advances, fun i t' hs => (hst.step hs).2⟩⟩

/-- A Deliver and a Submit, each in one piece. -/
def delivered : Ua.Pending := ⟨.delivery ⟨none, true, ⟨[[1]], 0, 0⟩⟩, 0, false⟩

def submitted : Invoked := .submission ⟨none, true, ⟨[[1]], 0, 0⟩⟩

/-- A delivery waits for the end of its RESULT; a submission has come to its end. -/
theorem operations_move_once :
    ∃ s h t h', Run.Reach (Ua.performing false) (Ua.Supplied false) h s ∧
      Run.Reach performing Supplied h' t ∧ s.requests = [.result 0] ∧ t.op.isNone = true ∧
      s.Moving false ∧ t.Moving := by
  obtain ⟨s, h, hu, hs⟩ := Run.Reach.of_run (S := Ua.performing false)
    (b := fun s i => decide (Ua.Supplied false s i)) (fun _ _ hb => of_decide_eq_true hb)
    (s := {}) rfl [.invokeIndication delivered {}, .schRun {}]
    (fun s _ => decide (s.requests = [.result 0])) (by decide +kernel)
  obtain ⟨t, h', hm, ht⟩ := Run.Reach.of_run (S := performing)
    (b := fun s i => decide (Supplied s i)) (fun _ _ hb => of_decide_eq_true hb)
    (s := {}) rfl [.invokeIndication submitted 0 true {}, .schRun {}, .resultConfirm 0 true, .schRun {}]
    (fun s _ => s.op.isNone) (by decide +kernel)
  have hmove := operations_move hu hm
  exact ⟨s, h, t, h', hu, hm, of_decide_eq_true hs, ht, hmove.1.1, hmove.2.1⟩

/-- The user agent cannot send the error of a delivery that it does not take; the server cannot ask
for a message whose RESULT has failed. -/
theorem operations_stick :
    (∃ s h, Run.Reach (Ua.performing false) Run.any h s ∧ ¬s.Moving false) ∧
      ∃ t h, Run.Reach performing Run.any h t ∧ ¬t.Moving := by
  constructor
  · obtain ⟨s, h, hr, hp⟩ := Run.Reach.of_run_any (S := Ua.performing false) (s := {}) rfl
      [.invokeIndication delivered {}, .schRun { parseIpm := false, errorReq := false }]
      (fun s _ => s.op.any (fun m => !m.receiver.hSegmentationTimer) && s.requests.isEmpty &&
        s.events.isEmpty) (by decide +kernel)
    simp only [Bool.and_eq_true, Option.any_eq_true, Bool.not_eq_true', List.isEmpty_iff] at hp
    obtain ⟨⟨⟨m, hop, ht⟩, hrequests⟩, hevents⟩ := hp
    exact ⟨s, h, hr, Ua.Performing.not_moving hop ht hrequests hevents⟩
  · obtain ⟨t, h, hr, hp⟩ := Run.Reach.of_run_any (S := performing) (s := {}) rfl
      [.invokeIndication submitted 0 true {}, .schRun {}, .failureIndication 0 true,
        .schRun { verifyFormat := false }]
      (fun s _ => s.op.any (fun x => !x.performer.receiver.hSegmentationTimer) &&
        s.requests.isEmpty && s.events.isEmpty) (by decide +kernel)
    simp only [Bool.and_eq_true, Option.any_eq_true, Bool.not_eq_true', List.isEmpty_iff] at hp
    obtain ⟨⟨⟨x, hop, ht⟩, hrequests⟩, hevents⟩ := hp
    exact ⟨t, h, hr, Performing.not_moving hop ht hrequests hevents⟩

end Mts.Performance
