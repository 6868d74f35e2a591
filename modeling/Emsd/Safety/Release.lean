import Emsd.Safety.Indications

/-!
# Safe release

The release of an `InvokeInfo` is queued behind its indications, and its machine is then in
its start state, with no timer armed (`QueueOk`). So nothing refers to an `InvokeInfo` that
is freed, as long as no INVOKE PDU restarts a machine whose release is pending and no SAP is
unbound whose first `InvokeInfo` has an indication queued.

* `safe_release`: what refers to a freed `InvokeInfo` in such runs.
* `unsafe_release`: a restart leaves an indication behind.
-/

namespace Erop

open Ocp Life Run Engine

variable {cfg : Config} {e e' : Engine} {inp : Input} {f : Fire} {o hist : List Out}
  {i j : InvokeId} {t : Task} {s s' : State} {act : Machine → Machine × SuccFail}

/-- Nothing refers to the `InvokeInfo`: no armed timer, no entry of a reference map and no queued
function. -/
structure Unreferenced (e : Engine) (i : InvokeId) : Prop where
  tmrQu : e.tmrQu i = []
  invoker : ∀ r, i ∉ e.refs.invoker r
  performer : ∀ r, i ∉ e.refs.performer r
  schQu : ∀ t ∈ e.schQu, t.invoke ≠ i

/-- The step restarts no machine whose release is pending, and unbinds no SAP whose first
`InvokeInfo` has a function queued. -/
structure SafeStep (e : Engine) (inp : Input) : Prop where
  noRestart : ∀ i, ¬Restarts e inp i
  noUnbind : ∀ sel sap i rest, inp.ev = .sapUnbind sel → e.getSapInfo sel = some sap →
    sap.invokeSeq = i :: rest → ∀ t ∈ e.schQu, t.invoke ≠ i

/-! ## The queue -/

def tasksOf (q : List Task) (i : InvokeId) : List Task := q.filter (·.invoke = i)

/-- The pending release of `i` comes last, and the machine has ended. -/
structure ReleaseOk (e : Engine) (i : InvokeId) : Prop where
  ended : ∃ b, e.phase i = .ended b
  last : ∃ pre, tasksOf e.schQu i = pre ++ [.relInvoke i] ∧ .relInvoke i ∉ pre

structure QueueOk (e : Engine) : Prop where
  live : ∀ t ∈ e.schQu, e.heap t.invoke ≠ none
  timers : ∀ i, e.heap i = none → e.tmrQu i = []
  release : ∀ i, .relInvoke i ∈ e.schQu → ReleaseOk e i

theorem QueueOk.unreferenced (h : QueueOk e) (hr : RefsOk e) (hi : e.heap i = none) :
    Unreferenced e i where
  tmrQu := h.timers i hi
  invoker := hr.invoker.not_mem_of_fresh hi
  performer := hr.performer.not_mem_of_fresh hi
  schQu t ht hti := h.live t ht (hti ▸ hi)

theorem mem_tasksOf {q : List Task} : t ∈ tasksOf q i ↔ t ∈ q ∧ t.invoke = i := by
  simp [tasksOf]

theorem tasksOf_append (q q' : List Task) : tasksOf (q ++ q') i = tasksOf q i ++ tasksOf q' i :=
  List.filter_append ..

theorem mark_release : t.mark = .release ↔ t = .relInvoke t.invoke := by
  cases t <;> simp [Task.mark, Task.invoke]

/-- A machine that has ended stays so, unless it is restarted. -/
theorem ended_ignores (hw : WF e) (hf : fires cfg e inp = some f) {b : Bool}
    (hp : e.phase f.c.self = .ended b) (hno : ¬Restarts e inp f.c.self) : f.Ignores := by
  obtain ⟨ho, hc⟩ := fires_origin hf
  rcases f.cases with hn | ⟨s, act, s', ht⟩
  · exact hn
  exfalso
  rcases ho.kind with ⟨sap, d, hk⟩ | ⟨v, q, hk⟩
  · rw [phase_unborn (Nat.le_of_eq hk.self.symm)] at hp
    cases hp
  · have hs : s.phase = .ended b := by
      obtain ⟨x, y, hfv⟩ := hk.v
      rw [phase_of_heap hw.linked hk.heap] at hp
      have hcur : v.curState = some s := by rw [← ht.cur, hfv]
      simpa [InvokeInfo.phase, hcur] using hp
    cases b with
    | true => exact hno (ho.restarts hw.linked hk ht hs)
    | false =>
      have hrow := row_handles ht.row
      have : f.evt = .invokeReq := by
        cases s <;> simp [State.phase] at hs <;> simpa [handles] using hrow
      exact hk.evt this

/-- The release of a machine is the last function that it submits. -/
theorem tasks_release (hw : WF e) (hf : fires cfg e inp = some f)
    (hrel : .relInvoke f.c.self ∈ f.tasks) : (∃ b, f.engine.phase f.c.self = .ended b) ∧
      ∃ pre, f.tasks = pre ++ [.relInvoke f.c.self] ∧ .relInvoke f.c.self ∉ pre := by
  obtain ⟨ho, hc⟩ := fires_origin hf
  rcases f.cases with hn | ⟨s, act, s', ht⟩
  · rw [hn.tasks] at hrel
    cases hrel
  have hself := Fire.tasks_self (f := f)
  rw [ht.tasks] at hrel hself ⊢
  have hreq : f.evt ≠ .invokeReq := by
    intro he
    rw [(row_request ht.row he).2] at hrel
    cases hrel
  have hmove : Move true s.phase ((rowTasks f.c f.v s f.evt).map Task.mark) s'.phase :=
    row_move ht.row hreq (by simp)
  obtain ⟨⟨b, hb⟩, u, hu, hnot⟩ := hmove.of_release (List.mem_map.2 ⟨_, hrel, rfl⟩)
  obtain ⟨pre, l, hsplit, hpre, hl⟩ := List.map_eq_append_iff.1 hu
  obtain ⟨t, rfl, htm⟩ := List.map_eq_singleton_iff.1 hl
  have htself : t.invoke = f.c.self := hself t (by rw [hsplit]; simp)
  have htrel : t = .relInvoke f.c.self := by rw [← htself]; exact mark_release.1 htm
  refine ⟨⟨b, ?_⟩, pre, by rw [hsplit, htrel], fun hm => hnot ?_⟩
  · rw [phase_of_heap (hw.fire hf).linked Fire.engine_heap_self, ht.after_invoke, ← hb]
    rfl
  · rw [← hpre]
    exact List.mem_map.2 ⟨_, hm, rfl⟩

theorem QueueOk.fire (h : QueueOk e) (hw : WF e) (hf : fires cfg e inp = some f)
    (hno : ∀ i, ¬Restarts e inp i) : QueueOk f.engine := by
  obtain ⟨ho, hc⟩ := fires_origin hf
  have hqu : f.engine.schQu = e.schQu ++ f.tasks := by
    rw [Fire.engine_schQu, fire_submitted hc, ho.schQu]
  refine ⟨fun t ht => ?_, fun i hi => ?_, fun i hrel => ?_⟩
  · rw [hqu] at ht
    rcases List.mem_append.1 ht with ht | ht
    · obtain ⟨v, hv⟩ := Option.ne_none_iff_exists'.1 (h.live t ht)
      obtain ⟨v', hv', -⟩ := hw.refs.kept hw.linked ho hc hv
      rw [hv']
      exact Option.some_ne_none _
    · rw [Fire.tasks_self t ht, Fire.engine_heap_self]
      exact Option.some_ne_none _
  · have hne : i ≠ f.c.self := by
      rintro rfl
      rw [Fire.engine_heap_self] at hi
      cases hi
    rw [Fire.engine_heap_ne hne, ho.heap_ne hne] at hi
    rw [Fire.engine_tmrQu_ne hne, ho.tmrQu_ne hne]
    exact h.timers i hi
  · rw [hqu] at hrel
    by_cases hold : .relInvoke i ∈ e.schQu
    · obtain ⟨⟨b, hb⟩, pre, hpre, hnot⟩ := h.release i hold
      by_cases hi : i = f.c.self
      · subst hi
        have hn := ended_ignores hw hf hb (hno _)
        refine ⟨⟨b, ?_⟩, pre, ?_, hnot⟩
        · obtain ⟨v, hv⟩ := Option.ne_none_iff_exists'.1 (h.live _ hold)
          rcases ho.kind with ⟨sap, d, hk⟩ | ⟨w, q, hk⟩
          · rw [phase_unborn (Nat.le_of_eq hk.self.symm)] at hb
            cases hb
          · obtain ⟨x, y, hfv⟩ := hk.v
            rw [phase_of_heap (hw.fire hf).linked Fire.engine_heap_self, hn.after,
              Fire.before_invoke, hfv, ← hb, phase_of_heap hw.linked hk.heap]
            rfl
        · rw [hqu, hn.tasks, List.append_nil, hpre]
      · refine ⟨⟨b, by rw [ho.phase_ne hi, hb]⟩, pre, ?_, hnot⟩
        have : tasksOf f.tasks i = [] := List.filter_eq_nil_iff.2 fun t ht => by
          have := Fire.tasks_self t ht
          simpa [this] using Ne.symm hi
        rw [hqu, tasksOf_append, this, List.append_nil, hpre]
    · have hnew := (List.mem_append.1 hrel).resolve_left hold
      obtain rfl : i = f.c.self := Fire.tasks_self _ hnew
      obtain ⟨hb, pre, hpre, hnot⟩ := tasks_release hw hf hnew
      refine ⟨hb, tasksOf e.schQu f.c.self ++ pre, ?_, ?_⟩
      · have : tasksOf f.tasks f.c.self = f.tasks :=
          List.filter_eq_self.2 fun t ht => by simpa using Fire.tasks_self t ht
        rw [hqu, tasksOf_append, this, hpre, List.append_assoc]
      · rw [List.mem_append, mem_tasksOf]
        rintro (⟨hm, -⟩ | hm)
        · exact hold hm
        · exact hnot hm

theorem ReleaseOk.congr (h : ReleaseOk e i) (hp : e'.phase i = e.phase i)
    (hq : tasksOf e'.schQu i = tasksOf e.schQu i) : ReleaseOk e' i where
  ended := by rw [hp]; exact h.ended
  last := by rw [hq]; exact h.last

/-- The function at the head of the queue goes. -/
theorem QueueOk.pop (h : QueueOk e) {rest : List Task} (hqu : e.schQu = t :: rest) :
    QueueOk { e with schQu := rest } := by
  have hsub : ∀ u ∈ rest, u ∈ e.schQu := fun u hu => by rw [hqu]; exact List.mem_cons_of_mem _ hu
  refine ⟨fun u hu => h.live u (hsub u hu), h.timers, fun i hi => ?_⟩
  obtain ⟨hb, pre, hpre, hnot⟩ := h.release i (hsub _ hi)
  have hmem : .relInvoke i ∈ tasksOf rest i := mem_tasksOf.2 ⟨hi, rfl⟩
  rw [hqu] at hpre
  refine ⟨hb, ?_⟩
  by_cases ht : t.invoke = i
  · simp only [tasksOf, List.filter_cons, ht, decide_true, if_true] at hpre
    cases pre with
    | nil =>
      -- then the head is the release, and nothing is left
      have hnil : tasksOf rest i = [] := (List.cons.inj hpre).2
      rw [hnil] at hmem
      cases hmem
    | cons u pre =>
      exact ⟨pre, (List.cons.inj hpre).2, fun hm => hnot (List.mem_cons_of_mem _ hm)⟩
  · simp only [tasksOf, List.filter_cons, ht, decide_false] at hpre
    exact ⟨pre, by simpa [tasksOf] using hpre, hnot⟩

/-- Nothing follows the release in the queue. -/
theorem QueueOk.last (h : QueueOk e) {rest : List Task} (hqu : e.schQu = .relInvoke i :: rest) :
    tasksOf rest i = [] := by
  obtain ⟨-, pre, hpre, hnot⟩ := h.release i (by rw [hqu]; exact List.mem_cons_self)
  rw [hqu] at hpre
  have hhead : tasksOf (.relInvoke i :: rest) i = .relInvoke i :: tasksOf rest i := by
    simp [tasksOf, Task.invoke]
  rw [hhead] at hpre
  cases pre with
  | nil => exact (List.cons.inj hpre).2
  | cons u pre => exact absurd (by rw [(List.cons.inj hpre).1]; exact List.mem_cons_self) hnot

theorem QueueOk.relInvoke (h : QueueOk e) (hi : i < e.nextId) (hq : tasksOf e.schQu i = [])
    (ht : e.tmrQu i = []) : QueueOk (e.relInvoke i) := by
  have hne : ∀ u ∈ e.schQu, u.invoke ≠ i := fun u hu hui => by
    have : u ∈ tasksOf e.schQu i := mem_tasksOf.2 ⟨hu, hui⟩
    rw [hq] at this
    cases this
  have heap : ∀ j, j ≠ i → (e.relInvoke i).heap j = e.heap j := fun j hj => Function.update_of_ne hj ..
  refine ⟨fun u hu => ?_, fun j hj => ?_, fun j hj => ?_⟩
  · rw [heap _ (hne u hu)]
    exact h.live u hu
  · by_cases hji : j = i
    · rw [hji]
      exact ht
    · rw [heap j hji] at hj
      exact h.timers j hj
  · have hji : j ≠ i := hne _ hj
    exact (h.release j hj).congr (by rw [relInvoke_phase hi, if_neg hji]) rfl

theorem ended_tmrQu (hw : WF e) {v : InvokeInfo} (hv : e.heap i = some v) {b : Bool}
    (hp : e.phase i = .ended b) : e.tmrQu i = [] := by
  rw [phase_of_heap hw.linked hv] at hp
  have hok := hw.machines i v hv
  cases hs : v.curState with
  | none => exact hok.idle hs
  | some s =>
    have hend : s.phase = .ended b := by simpa [InvokeInfo.phase, hs] using hp
    have hnames : tmrNames s = some [] := by cases s <;> simp [State.phase] at hend <;> rfl
    rcases hok.tmr s hs [] hnames with hq | ⟨td, -, hm⟩
    · exact hq
    · cases hm

theorem QueueOk.quiet (h : QueueOk e) (hw : WF e) (hq : Quiet e inp e' o) (hsafe : SafeStep e inp) :
    QueueOk e' := by
  cases hq with
  | nothing => exact h
  | @leak sap =>
    have heap : ∀ j, j ≠ e.nextId → (e.invokeInfoCreate sap.id).heap j = e.heap j :=
      fun j hj => Function.update_of_ne hj ..
    have hold : ∀ u ∈ e.schQu, u.invoke ≠ e.nextId := fun u hu hui =>
      h.live u hu (hui ▸ (hw.linked.fresh _ (Nat.le_refl _)).1)
    refine ⟨fun u hu => ?_, fun j hj => ?_, fun j hj => ?_⟩
    · rw [heap _ (hold u hu)]
      exact h.live u hu
    · have hne : j ≠ e.nextId := by
        rintro rfl
        simp [invokeInfoCreate] at hj
      rw [heap j hne] at hj
      have : (e.invokeInfoCreate sap.id).tmrQu j = e.tmrQu j := Function.update_of_ne hne ..
      rw [this]
      exact h.timers j hj
    · refine (h.release j hj).congr ?_ rfl
      have hne := hold _ hj
      obtain ⟨v, hv⟩ := Option.ne_none_iff_exists'.1 (h.live _ hj)
      have hlt : j < e.nextId := hw.linked.lt hv
      have hn : (e.invokeInfoCreate sap.id).nextId = e.nextId + 1 := rfl
      unfold Engine.phase
      rw [heap j hne, hn, if_neg (by lia), if_neg (by lia)]
  | @unknownTimer i td v htd hv =>
    refine ⟨h.live, fun j hj => ?_, fun j hj => (h.release j hj).congr rfl rfl⟩
    have hne : j ≠ i := by
      rintro rfl
      exact absurd (hv.symm.trans hj) (Option.some_ne_none _)
    simp only [Function.update_of_ne hne]
    exact h.timers j hj
  | callBack hqu => exact h.pop hqu
  | bind | unbindEmpty => exact ⟨h.live, h.timers, fun j hj => (h.release j hj).congr rfl rfl⟩
  | release hqu hv =>
    obtain ⟨b, hb⟩ := (h.release _ (by rw [hqu]; exact List.mem_cons_self)).ended
    have ht := ended_tmrQu hw hv hb
    exact (h.pop hqu).relInvoke (hw.linked.lt hv) (h.last hqu) ht
  | @unbind sel sap i rest hev hsap hseq =>
    have hi : i ∈ sap.invokeSeq := by rw [hseq]; exact List.mem_cons_self
    obtain ⟨v, hv, -⟩ := (hw.linked.mem sap (getSapInfo_mem hsap) i).1 hi
    have hnone := hsafe.noUnbind sel sap i rest hev hsap hseq
    have hq : QueueOk { e with tmrQu := Function.update e.tmrQu i [] } := by
      refine ⟨h.live, fun j hj => ?_, fun j hj => (h.release j hj).congr rfl rfl⟩
      by_cases hji : j = i
      · subst hji
        exact Function.update_self ..
      · exact (Function.update_of_ne hji ..).trans (h.timers j hj)
    have hrel := hq.relInvoke (i := i) (hw.linked.lt hv)
      (List.filter_eq_nil_iff.2 fun t ht => by simpa using hnone t ht) (Function.update_self ..)
    exact ⟨hrel.live, hrel.timers, fun j hj => (hrel.release j hj).congr rfl rfl⟩

theorem QueueOk.reach (hr : Reach (engine cfg) SafeStep hist e) : QueueOk e := by
  have hboth : WF e ∧ QueueOk e := by
    refine hr.invariant (P := fun e => WF e ∧ QueueOk e) ?_ fun e inp e' o h hsafe hs => ?_
    · rintro _ ⟨newRef, rfl⟩
      exact ⟨.init newRef, fun t ht => absurd ht List.not_mem_nil, fun _ _ => rfl,
        fun _ hi => absurd hi List.not_mem_nil⟩
    · obtain ⟨hw, hq⟩ := h
      refine ⟨hw.step hs, ?_⟩
      rcases step_cases hs with ⟨f, hf, rfl, rfl⟩ | ⟨-, hqu⟩
      · exact hq.fire hw hf hsafe.noRestart
      · exact hq.quiet hw hqu hsafe
  exact hboth.2

theorem count_released (hist : List Out) :
    hist.count (.released i) = (marks i hist).count .freed := by
  unfold marks
  rw [List.count, List.count, List.countP_filterMap]
  refine List.countP_congr fun x _ => ?_
  cases x with
  | sch t => by_cases ht : t.invoke = i <;> cases t <;> simp [Out.mark, Task.mark, ht]
  | released j => by_cases hj : j = i <;> simp [Out.mark, hj]
  | invokeDesc j => by_cases hj : j = i <;> simp [Out.mark, hj]
  | _ => simp [Out.mark]

/-- **Safe release.** In a run of safe steps, nothing refers to an `InvokeInfo` that has been freed,
and it has been freed once. -/
theorem safe_release (hr : Reach (engine cfg) SafeStep hist e) (hf : .released i ∈ hist) :
    Unreferenced e i ∧ hist.count (.released i) = 1 := by
  have hlife : Trace (Move true) .unborn (marks i hist) (e.phase i) := Reach.life hr (by simp)
  have hfreed : Mark.freed ∈ marks i hist := mem_marks hf (by simp [Out.mark])
  refine ⟨(QueueOk.reach hr).unreferenced (WF.reach hr).refs ?_, ?_⟩
  · have hgone := (freed_gone hlife hfreed).1
    cases hv : e.heap i with
    | none => rfl
    | some v =>
      rw [phase_of_heap (WF.reach hr).linked hv] at hgone
      exact absurd hgone v.phase_ne.2
  · rw [count_released]
    exact count_freed hlife hfreed

/-- A test that is enough for a safe step. -/
def clearlySafe (e : Engine) (inp : Input) : Bool :=
  match inp.ev with
  | .udpInd .. => noPending e
  | .sapUnbind _ => e.schQu = []
  | _ => true

theorem safeStep_of_clearlySafe (h : clearlySafe e inp = true) : SafeStep e inp where
  noRestart i hre := by
    obtain ⟨tsap, nsap, data, pdu, sap, hev, -⟩ := hre.arrives
    simp only [clearlySafe, hev, hre.not_noPending] at h
    cases h
  noUnbind sel sap i rest hev _ _ t ht := by
    simp only [clearlySafe, hev, decide_eq_true_eq] at h
    rw [h] at ht
    cases ht

/-- A request, the reply of the user and its ACK PDU, up to the end of the reference number's time. -/
def exchange : List Input := firstRequest ++ replyAndWait

theorem safe_release_exchange : ∃ hist e, .released 0 ∈ hist ∧
    Reach (engine {}) Run.any hist e ∧ Unreferenced e 0 ∧ hist.count (.released 0) = 1 := by
  obtain ⟨e, hist, hr, hm⟩ := Reach.of_run (S := engine {}) (b := clearlySafe)
    (fun _ _ => safeStep_of_clearlySafe) ⟨0, rfl⟩ (exchange ++ [⟨.schRun, {}⟩])
    (fun _ h => .released 0 ∈ h) (by decide)
  have hf := of_decide_eq_true hm
  exact ⟨hist, e, hf, hr.any, safe_release hr hf⟩

/-- A run after which a queued indication refers to the `InvokeInfo` that it has freed. -/
theorem referenced_of_run (is : List Input)
    (hrun : ((engine {}).run always (Engine.init 0) is).any (fun r =>
      .released 0 ∈ r.2 ∧ r.1.schQu.any fun t => t.invoke = 0 ∧ t ≠ .relInvoke 0) = true) :
    ∃ hist e t, Reach (engine {}) Run.any hist e ∧ .released 0 ∈ hist ∧ t ∈ e.schQu ∧
      t.invoke = 0 ∧ t ≠ .relInvoke 0 := by
  obtain ⟨e, hist, hr, hm⟩ := Reach.of_run_any (S := engine {}) ⟨0, rfl⟩ is
    (fun e h => .released 0 ∈ h ∧ e.schQu.any fun t => t.invoke = 0 ∧ t ≠ .relInvoke 0) hrun
  obtain ⟨hf, hq⟩ := of_decide_eq_true hm
  obtain ⟨t, ht, hti⟩ := List.any_eq_true.1 hq
  exact ⟨hist, e, t, hr, hf, ht, of_decide_eq_true hti⟩

/-- The peer uses the reference number again before the release is run. -/
def lateInvoke : List Input := exchange ++ [fromPeer [0x10, 9, 2, 42], ⟨.schRun, {}⟩]

/-- The SAP is unbound before the indication is run. -/
def earlyUnbind : List Input := firstRequest ++ [⟨.sapUnbind 1, {}⟩]

/-- A restart before the release is run leaves an indication behind that refers to a freed
`InvokeInfo`, and so does a SAP that is unbound before an indication is run. -/
theorem unsafe_release :
    (∃ hist e t, Reach (engine {}) Run.any hist e ∧ .released 0 ∈ hist ∧ t ∈ e.schQu ∧
        t.invoke = 0 ∧ t ≠ .relInvoke 0) ∧
      ¬∀ hist e, Reach (engine {}) Run.any hist e → .released 0 ∈ hist → Unreferenced e 0 := by
  refine ⟨referenced_of_run lateInvoke (by decide), fun h => ?_⟩
  obtain ⟨hist, e, t, hr, hf, ht, hti, -⟩ := referenced_of_run earlyUnbind (by decide)
  exact (h hist e hr hf).schQu t ht hti

end Erop
