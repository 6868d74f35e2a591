import Emsd.Mm.TimerHandles
import Emsd.Tmr.Punctual

/-!
# Objects expire in time (`mm_/hosted/entity.c`, `tmr_/unix.djl/tmr.c`)

However objects are started and stopped (again while a timer is pending, or by a handle that is not
theirs any more), a timer keeps the object that it has been started for in `hUserData1`.

* `step_records`: what a step records, and which object a new timer is for.
* `objects_expire_inTime`: **`timerExpiry` is called for the objects of the timers that fire**, once and in
  time, as long as the clock does not wrap around.
-/

namespace Tmr

variable {s t : Timers} {h o : List Out}

theorem Sound.init (hi : timers.init s) : Sound s [] where
  ordered := by
    rw [hi.1]
    exact Agenda.InOrder.nil
  queued := by
    rw [hi.1]
    exact fun _ hmem => absurd hmem List.not_mem_nil
  calls := by
    rw [hi.2]
    exact fun _ hmem => absurd hmem List.not_mem_nil
  numbered _ hmem := absurd hmem List.not_mem_nil
  distinct := List.nodup_nil
  counted _ := by
    rw [hi.1]
    rfl
  timely := Agenda.Always.nil
  inOrder := Agenda.InOrder.nil
  past _ hmem := absurd hmem List.not_mem_nil

/-- Several steps. -/
theorem Sound.exec (hs : Sound s h) (hx : Run.Exec timers Unwrapped s o t) : Sound t (h ++ o) := by
  induction hx with
  | refl =>
    rw [List.append_nil]
    exact hs
  | snoc _ hok hstep ih =>
    rw [← List.append_assoc]
    exact ih.step hok hstep

/-- What has fired had been started. -/
theorem Sound.fired_started (hs : Sound s h) {p : Timer} (hp : p ∈ fired h) : p ∈ started h := by
  have hcount := hs.counted p
  have hpos := List.count_pos_iff.2 hp
  apply List.count_pos_iff.1
  omega

end Tmr

namespace Mm.TimerObjects

open Tmr (Timer)

variable {s t : TimerObjects} {x : Input} {o : List Out} {i : ObjectId} {log : List (Input × List Out)}

/-- The objects that `timerExpiry` is called for. -/
def expired (o : List Out) : List ObjectId :=
  o.filterMap fun
    | .timerExpiry i => some i
    | _ => none

/-- What has been recorded. -/
def outs (log : List (Input × List Out)) : List Out := log.flatMap (·.2)

theorem outs_concat (log : List (Input × List Out)) (e : Input × List Out) :
    outs (log ++ [e]) = outs log ++ e.2 := by
  unfold outs
  rw [List.flatMap_append, List.flatMap_singleton]

instance (s : TimerObjects) : ∀ x, Decidable (s.Meets Tmr.Unwrapped x)
  | .pass milliseconds => inferInstanceAs (Decidable (Tmr.Unwrapped s.service (.pass milliseconds)))
  | .startObject _ milliseconds address =>
    inferInstanceAs (Decidable (address ≠ 0 → Tmr.Unwrapped s.service (.start milliseconds true)))
  | .start milliseconds true address =>
    inferInstanceAs (Decidable (address ≠ 0 → Tmr.Unwrapped s.service (.create milliseconds true)))
  | .start milliseconds false address =>
    inferInstanceAs (Decidable (address ≠ 0 → Tmr.Unwrapped s.service (.start milliseconds true)))
  | .stopObject _ | .stop _ | .processQueue _ | .handlerReturns .. => inferInstanceAs (Decidable True)

/-- **The objects expire in time.** -/
structure Punctual (s : TimerObjects) (log : List (Input × List Out)) : Prop where
  timers : Tmr.InTime s.service (services (outs log))
  /-- Every timer is for the object that it has been started for, or for none. -/
  owner : ∀ p ∈ Tmr.started (services (outs log)), ∀ i,
    s.hUserData1 p.hTimer = some i ↔ StartedFor i p log
  /-- In each call, `timerExpiry` is called for the objects of the timers that fire, in their order. -/
  expired : ∀ e ∈ log, expired e.2 = (Tmr.fired (services e.2)).filterMap (s.hUserData1 ·.hTimer)

/-! ## One step -/

/-- What a step records. -/
structure Records (s t : TimerObjects) (x : Input) (o : List Out) : Prop where
  old : ∀ n < s.service.obtained, t.hUserData1 n = s.hUserData1 n
  started : ∀ p ∈ Tmr.started (services o), s.service.obtained ≤ p.hTimer ∧
    ∀ i, t.hUserData1 p.hTimer = some i ↔ Starts i (x, o)
  expired : expired o = (Tmr.fired (services o)).filterMap (t.hUserData1 ·.hTimer)

theorem mem_started {p : Timer} : p ∈ Tmr.started (services o) ↔ .service (.started p) ∈ o := by
  unfold Tmr.started services
  rw [List.filterMap_filterMap, List.mem_filterMap]
  constructor
  · rintro ⟨a, ha, hp⟩
    obtain ⟨b, hb, hp⟩ := Option.bind_eq_some_iff.1 hp
    cases a with
    | service a =>
      obtain rfl := Option.some.inj hb
      cases a with
      | started q =>
        obtain rfl := Option.some.inj hp
        exact ha
      | stopped q | fired q time | returned readTime rc => cases hp
    | timerExpiry i | result rc => cases hb
  · intro ha
    exact ⟨_, ha, rfl⟩

/-- No timer is new, and none fires. -/
theorem Records.quiet (howner : t.hUserData1 = s.hUserData1) (hstarted : Tmr.started (services o) = [])
    (hfired : Tmr.fired (services o) = []) (hexpired : TimerObjects.expired o = []) : Records s t x o where
  old n _ := by rw [howner]
  started p hp := by
    rw [hstarted] at hp
    cases hp
  expired := by
    rw [hexpired, hfired]
    rfl

theorem Started.records {p : Timer} {owner : Option ObjectId} {address : ℕ}
    (h : Started s t p owner address) (hstarted : Tmr.started (services o) = [p])
    (hfired : Tmr.fired (services o) = []) (hexpired : TimerObjects.expired o = [])
    (hstarts : ∀ i, owner = some i ↔ Starts i (x, o)) : Records s t x o where
  old n hn := by
    rw [h.hUserData1]
    exact Function.update_of_ne (Nat.ne_of_lt hn) _ _
  started q hq := by
    rw [hstarted] at hq
    obtain rfl := List.mem_singleton.1 hq
    refine ⟨h.number.ge, fun i => ?_⟩
    rw [h.new.2]
    exact hstarts i
  expired := by
    rw [hexpired, hfired]
    rfl

/-- The loop of `TMR_processQueue`. The induction is on the queue. -/
theorem process_records (alloc : ℕ → Bool) (timeNow : BitVec 32) (readTime : ℕ) (queue : List Timer) :
    ∀ s : TimerObjects, Tmr.started (services (s.process alloc timeNow readTime queue).2) = [] ∧
      expired (s.process alloc timeNow readTime queue).2 =
        (Tmr.fired (services (s.process alloc timeNow readTime queue).2)).filterMap
          (s.hUserData1 ·.hTimer) := by
  induction queue with
  | nil =>
    intro s
    exact ⟨rfl, rfl⟩
  | cons p rest ih =>
    intro s
    unfold process
    split
    · split
      · rename_i hnone
        -- the timer of another module
        have hno : [p].filterMap (s.hUserData1 ·.hTimer) = [] :=
          List.filterMap_cons_none (f := fun p : Timer => s.hUserData1 p.hTimer) hnone
        exact ⟨rfl, hno.symm⟩
      · rename_i i hi
        have howner : (s.timerExpiry i (alloc p.hTimer)).1.hUserData1 = s.hUserData1 :=
          timerExpiry_spec.2.2.1
        have hsome : ∀ l : List Timer, (p :: l).filterMap (s.hUserData1 ·.hTimer) =
            i :: l.filterMap (s.hUserData1 ·.hTimer) := fun l =>
          List.filterMap_cons_some (f := fun p : Timer => s.hUserData1 p.hTimer) hi
        dsimp only
        split
        · obtain ⟨hstarted, hexpired⟩ := ih (s.timerExpiry i (alloc p.hTimer)).1
          rw [howner] at hexpired
          refine ⟨hstarted, ?_⟩
          exact (congrArg (i :: ·) hexpired).trans (hsome _).symm
        · exact ⟨rfl, (hsome []).symm⟩
    · exact ⟨rfl, rfl⟩

theorem processed_records (alloc : ℕ → Bool) (timeNow : BitVec 32) (readTime : ℕ) (queue : List Timer)
    (howner : s.hUserData1 = t.hUserData1) :
    Records s (t.process alloc timeNow readTime queue).1 x (t.process alloc timeNow readTime queue).2 := by
  obtain ⟨gone, called, h⟩ := process_spec alloc timeNow readTime queue t
  obtain ⟨hstarted, hexpired⟩ := process_records alloc timeNow readTime queue t
  constructor
  · intro n _
    rw [h.hUserData1, howner]
  · intro p hp
    rw [hstarted] at hp
    cases hp
  · rw [h.hUserData1]
    exact hexpired

theorem step_records (h : s.step x = some (t, o)) : Records s t x o := by
  cases x with
  | pass milliseconds =>
    cases h
    exact .quiet rfl rfl rfl rfl
  | startObject i milliseconds address =>
    rcases step_startObject h with ⟨pObject, p, -, -, -, hnew, -, rfl⟩ | ⟨rfl, rc, -, rfl, -⟩
    · refine hnew.records rfl rfl rfl fun j => ⟨?_, ?_⟩
      · intro hj
        obtain rfl := Option.some.inj hj
        exact ⟨⟨milliseconds, address, rfl⟩, by simp⟩
      · rintro ⟨⟨milliseconds', address', hx⟩, -⟩
        cases hx
        rfl
    · exact .quiet rfl rfl rfl rfl
  | stopObject i =>
    rcases step_stopObject h with ⟨p, -, -, -, rfl, rfl⟩ | ⟨rfl, rc, rfl, -⟩
    · exact .quiet rfl rfl rfl rfl
    · exact .quiet rfl rfl rfl rfl
  | start milliseconds emulated address =>
    unfold step at h
    dsimp only at h
    split at h
    · cases h
      refine (tmrStart_started nofun).records rfl rfl rfl fun j => ⟨nofun, ?_⟩
      rintro ⟨⟨milliseconds', address', hx⟩, -⟩
      cases hx
    split at h
    · cases h
      exact .quiet rfl rfl rfl rfl
    · cases h
  | stop address =>
    obtain ⟨p, -, heq⟩ := Option.map_eq_some_iff.1 h
    cases heq
    exact .quiet rfl rfl rfl rfl
  | processQueue alloc =>
    have hrecords := processed_records (x := .processQueue alloc) alloc (Tmr.currentTime s.service.time)
      s.service.time s.service.timerQHead (Eq.refl s.hUserData1)
    rwa [Option.some.inj h] at hrecords
  | handlerReturns rc alloc =>
    unfold step at h
    dsimp only at h
    split at h
    · cases h
    rename_i c calls hc
    split at h
    · have hrecords := processed_records (s := s) (t := { s with service.calls := calls })
        (x := .handlerReturns rc alloc) alloc c.timeNow c.readTime s.service.timerQHead rfl
      rwa [Option.some.inj h] at hrecords
    · cases h
      exact .quiet rfl rfl rfl rfl

/-! ## Every run -/

/-- What every step keeps. -/
structure Counted (s : TimerObjects) (log : List (Input × List Out)) : Prop extends Placed s where
  timers : Tmr.Sound s.service (services (outs log))
  owner : ∀ p ∈ Tmr.started (services (outs log)), ∀ i,
    s.hUserData1 p.hTimer = some i ↔ StartedFor i p log
  expired : ∀ e ∈ log, expired e.2 = (Tmr.fired (services e.2)).filterMap (s.hUserData1 ·.hTimer)

theorem mem_outs {e : Input × List Out} {a : Out} (he : e ∈ log) (ha : a ∈ e.2) : a ∈ outs log :=
  List.mem_flatMap.2 ⟨e, he, ha⟩

/-- What fires in a call has fired. -/
theorem fired_outs {e : Input × List Out} {p : Timer} (he : e ∈ log) (hp : p ∈ Tmr.fired (services e.2)) :
    p ∈ Tmr.fired (services (outs log)) := by
  obtain ⟨a, ha, hfired⟩ := List.mem_filterMap.1 hp
  obtain ⟨b, hb, hservice⟩ := List.mem_filterMap.1 ha
  exact List.mem_filterMap.2 ⟨a, List.mem_filterMap.2 ⟨b, mem_outs he hb, hservice⟩, hfired⟩

theorem Counted.step (hs : Counted s log) (hok : s.Meets Tmr.Unwrapped x) (h : s.step x = some (t, o)) :
    Counted t (log ++ [(x, o)]) := by
  have hrecords := step_records h
  have hclock : OfClock Tmr.Unwrapped := ⟨fun _ _ => trivial, fun _ => trivial, fun _ _ => trivial⟩
  have hrun := step_runs hclock hs.toPlaced hok h
  have htimers : Tmr.Sound t.service (services (outs (log ++ [(x, o)]))) := by
    rw [outs_concat, services_append]
    exact hs.timers.exec hrun
  refine ⟨hs.toPlaced.step h, htimers, ?_, ?_⟩
  · intro p hp i
    rw [outs_concat, services_append, Tmr.started_append] at hp
    rcases List.mem_append.1 hp with hp | hp
    · -- its number is not a new one
      have hlt := hs.timers.numbered p hp
      rw [hrecords.old _ hlt, hs.owner p hp i]
      constructor
      · exact fun hstarted => hstarted.append
      · rintro ⟨e, he, hstarts, hmem⟩
        rcases List.mem_append.1 he with he | he
        · exact ⟨e, he, hstarts, hmem⟩
        · rw [List.mem_singleton.1 he] at hmem
          have hge := (hrecords.started p (mem_started.2 hmem)).1
          omega
    · -- no earlier call has started a timer of this number
      obtain ⟨hge, howner⟩ := hrecords.started p hp
      rw [howner i]
      constructor
      · exact fun hstarts =>
          ⟨_, List.mem_append_right _ List.mem_cons_self, hstarts, mem_started.1 hp⟩
      · rintro ⟨e, he, hstarts, hmem⟩
        rcases List.mem_append.1 he with he | he
        · have hlt := hs.timers.numbered p (mem_started.2 (mem_outs he hmem))
          omega
        · rwa [List.mem_singleton.1 he] at hstarts
  · intro e he
    rcases List.mem_append.1 he with he | he
    · rw [hs.expired e he]
      -- a timer that has fired was started before, so it keeps its object
      apply List.filterMap_congr
      intro p hp
      have hstarted := hs.timers.fired_started (fired_outs he hp)
      exact (hrecords.old _ (hs.timers.numbered p hstarted)).symm
    · rw [List.mem_singleton.1 he]
      exact hrecords.expired

/-- **`timerExpiry` is called for the objects of the timers that fire**, in every run in which timers and
calls stay in the round of the clock in which they have begun. -/
theorem objects_expire_inTime (hr : Run.Reach timerObjects.logged (Meets Tmr.Unwrapped) log s) :
    Punctual s log := by
  have hs : Counted s log := by
    refine Run.Reach.invariant_log (S := timerObjects) (P := Counted) ?_ ?_ hr
    · intro s hi
      exact ⟨.init hi, .init hi.1, nofun, nofun⟩
    · intro s x t o log hs hok h
      exact hs.step hok h
  exact ⟨hs.timers.inTime, hs.owner, hs.expired⟩

/-- The object is started twice, and stopped by the handle of its second timer; another module has a timer
in between, whose handler starts the object again. -/
theorem objects_expire_inTime_again : ∃ s log,
    Run.Reach timerObjects.logged (Meets Tmr.Unwrapped) log s ∧ expired (outs log) = [0, 0] ∧
      (Tmr.fired (services (outs log))).map Timer.hTimer = [0, 1, 3] ∧ Punctual s log := by
  have hinit : timerObjects.init oneObject := ⟨⟨rfl, rfl⟩, fun _ => rfl⟩
  obtain ⟨s, log, hr, hp⟩ := Run.Reach.of_run (S := timerObjects.logged)
    (b := fun s x => decide (s.Meets Tmr.Unwrapped x)) (fun _ _ hb => of_decide_eq_true hb) hinit
    [.startObject 0 1000 8, .start 2000 false 16, .startObject 0 3000 24, .stopObject 0, .pass 2500,
      .processQueue fun _ => true, .startObject 0 0 24, .handlerReturns true fun _ => true]
    (fun _ log => decide (expired (outs log) = [0, 0] ∧
      (Tmr.fired (services (outs log))).map Timer.hTimer = [0, 1, 3])) (by decide +kernel)
  obtain ⟨hexpired, hfired⟩ := of_decide_eq_true hp
  exact ⟨s, log, hr, hexpired, hfired, objects_expire_inTime hr⟩

end Mm.TimerObjects
