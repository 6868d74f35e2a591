import Emsd.Lib.Agenda
import Emsd.Tmr.Timers

/-!
# Timers fire in time (`multiocp/sysif.ocp/tmr_/unix.djl/tmr.c`)

Expiry times are compared as numbers, so the queue is only in order while all of them, and the clock,
are in one round of the 32 bits.

* `timers_inTime`: **every timer fires once and in time**, in every run in which no timer is started to
  expire in another round of the clock, and none waits when the clock starts a new round.
* `wrapped_early`: a timer that is started for two seconds just before the end of a round fires at
  once.
-/

namespace Tmr

open Agenda

/-- When the timer is due. -/
def Timer.due (t : Timer) : ℕ := t.startTime + t.milliseconds.toNat

/-- What has been started, in order. -/
def started (h : List Out) : List Timer :=
  h.filterMap fun
    | .started t => some t
    | _ => none

def stopped (h : List Out) : List Timer :=
  h.filterMap fun
    | .stopped t => some t
    | _ => none

def fired (h : List Out) : List Timer :=
  h.filterMap fun
    | .fired t _ => some t
    | _ => none

@[simp]
theorem started_append (h o : List Out) : started (h ++ o) = started h ++ started o :=
  List.filterMap_append

@[simp]
theorem stopped_append (h o : List Out) : stopped (h ++ o) = stopped h ++ stopped o :=
  List.filterMap_append

@[simp]
theorem fired_append (h o : List Out) : fired (h ++ o) = fired h ++ fired o := List.filterMap_append

/-- What is asked of an entry of the record after the entries before it: a timer does not fire before
it is due, and when a call of `TMR_processQueue` has succeeded, every timer that was due when it read
the clock has fired or has been stopped. -/
def Timely (h : List Out) : Out → Prop
  | .fired t time => t.due ≤ time
  | .returned readTime rc =>
    rc = true → ∀ t ∈ started h, t.due ≤ readTime → t ∈ fired h ∨ t ∈ stopped h
  | _ => True

/-- **The timers are in time.** -/
structure InTime (s : Timers) (h : List Out) : Prop where
  /-- The queue is in the order of the time that is left. -/
  ordered : s.timerQHead.Pairwise fun t u => (t.due : ℤ) - s.time ≤ (u.due : ℤ) - s.time
  /-- Each timer that has been started is on the queue, has fired or has been stopped, and only one of
  these, once. -/
  once : (started h).Nodup ∧ (started h).Perm (s.timerQHead ++ fired h ++ stopped h)
  timely : Always Timely h
  /-- They have fired in the order of their due times. -/
  inOrder : (fired h).Pairwise fun t u => t.due ≤ u.due

/-! ## The condition -/

/-- Two times in the same round of the clock. -/
def SameRound (a b : ℕ) : Prop := a / 2 ^ 32 = b / 2 ^ 32

instance (a b : ℕ) : Decidable (SameRound a b) := inferInstanceAs (Decidable (_ = _))

/-- **The condition.** A timer is started to expire in the round of the clock in which it is started; no
timer is on the queue and the queue is not being processed when the clock starts a new round. -/
def Unwrapped (s : Timers) : Input → Prop
  | .pass milliseconds =>
    SameRound (s.time + milliseconds) s.time ∨ s.timerQHead = [] ∧ s.calls = []
  | .start milliseconds obtains => obtains = true → SameRound (s.time + milliseconds.toNat) s.time
  | .create milliseconds _ => SameRound (s.time + milliseconds.toNat) s.time
  | _ => True

instance (s : Timers) : ∀ i, Decidable (Unwrapped s i)
  | .pass _ => inferInstanceAs (Decidable (_ ∨ _))
  | .start .. => inferInstanceAs (Decidable (_ → _))
  | .create .. => inferInstanceAs (Decidable (SameRound _ _))
  | .stop _ | .processQueue | .handlerReturns _ => inferInstanceAs (Decidable True)

/-- In one round, the clock reads later times as larger numbers. -/
theorem currentTime_le {a b : ℕ} (h : SameRound a b) : currentTime a ≤ currentTime b ↔ a ≤ b := by
  unfold SameRound at h
  rw [BitVec.le_def, currentTime, currentTime, BitVec.toNat_ofNat, BitVec.toNat_ofNat]
  -- equal quotients: the remainders compare as the times do
  have ha := Nat.div_add_mod a (2 ^ 32)
  have hb := Nat.div_add_mod b (2 ^ 32)
  rw [h] at ha
  omega

theorem currentTime_lt {a b : ℕ} (h : SameRound a b) : currentTime a < currentTime b ↔ a < b := by
  have hle := currentTime_le (a := b) (b := a) h.symm
  rw [← BitVec.not_le, hle, Nat.not_le]

/-! ## The invariant -/

variable {s t : Timers} {i : Input} {o h : List Out}

/-- **What every step keeps.** The expiry times are readings of the clock in this round, what has fired
was due no later than what waits, and the rest is counted. -/
structure Sound (s : Timers) (h : List Out) : Prop where
  ordered : InOrder Timer.due s.timerQHead
  queued : ∀ t ∈ s.timerQHead, t.expiryTime = currentTime t.due ∧ SameRound t.due s.time
  calls : ∀ c ∈ s.calls, c.timeNow = currentTime c.readTime ∧ SameRound c.readTime s.time ∧
    c.readTime ≤ s.time
  numbered : ∀ t ∈ started h, t.hTimer < s.obtained
  distinct : (started h).Nodup
  counted : ∀ t, (started h).count t =
    s.timerQHead.count t + (fired h).count t + (stopped h).count t
  timely : Always Timely h
  inOrder : InOrder Timer.due (fired h)
  past : ∀ t ∈ fired h, t.due ≤ s.time ∧ ∀ u ∈ s.timerQHead, t.due ≤ u.due

theorem Sound.inTime (hs : Sound s h) : InTime s h where
  ordered := hs.ordered.imp fun hle => by omega
  once := by
    refine ⟨hs.distinct, List.perm_iff_count.2 fun t => ?_⟩
    rw [List.count_append, List.count_append]
    exact hs.counted t
  timely := hs.timely
  inOrder := hs.inOrder

/-- **A timer is started**, not to fire before now. -/
theorem Sound.start (hs : Sound s h) {milliseconds : BitVec 32} {emulated : Bool}
    (hround : SameRound (s.time + milliseconds.toNat) s.time)
    (he : s.start milliseconds emulated = (t, o)) : Sound t (h ++ o) := by
  unfold Timers.start at he
  dsimp only at he
  generalize hnew : (⟨s.obtained, currentTime s.time + milliseconds, emulated, s.time, milliseconds⟩ :
    Timer) = pNewTimer at he
  cases he
  have hdue : pNewTimer.due = s.time + milliseconds.toNat := by
    rw [← hnew]
    rfl
  -- the sum on the clock is the reading at the sum
  have hexpiry : pNewTimer.expiryTime = currentTime pNewTimer.due := by
    rw [hdue, ← hnew]
    unfold currentTime
    rw [BitVec.ofNat_add, BitVec.ofNat_toNat, BitVec.setWidth_eq]
  have hnumber : pNewTimer.hTimer = s.obtained := by rw [← hnew]
  have hmem : ∀ u, u ∈ insertTimer pNewTimer s.timerQHead ↔ u = pNewTimer ∨ u ∈ s.timerQHead :=
    fun u => List.mem_orderedInsert _
  have hperm : (insertTimer pNewTimer s.timerQHead).Perm (pNewTimer :: s.timerQHead) :=
    List.perm_orderedInsert _ _ _
  have hround' : SameRound pNewTimer.due s.time := by rw [hdue]; exact hround
  have hstarted : started (h ++ [Out.started pNewTimer]) = started h ++ [pNewTimer] :=
    started_append h _
  have hfired : fired (h ++ [Out.started pNewTimer]) = fired h :=
    (fired_append h _).trans (List.append_nil _)
  have hstopped : stopped (h ++ [Out.started pNewTimer]) = stopped h :=
    (stopped_append h _).trans (List.append_nil _)
  constructor
  · -- it goes before the first one that is due later
    refine hs.ordered.insert fun u hu => ?_
    obtain ⟨hu, hr⟩ := hs.queued u hu
    rw [hexpiry, hu]
    exact currentTime_lt (hround'.trans hr.symm)
  · intro u hu
    rcases (hmem u).1 hu with rfl | hu
    · exact ⟨hexpiry, hround'⟩
    · exact hs.queued u hu
  · exact hs.calls
  · intro u hu
    rw [hstarted] at hu
    rcases List.mem_append.1 hu with hu | hu
    · exact Nat.lt_succ_of_lt (hs.numbered u hu)
    · rw [List.mem_singleton.1 hu, hnumber]
      exact Nat.lt_succ_self _
  · rw [hstarted, List.nodup_append]
    refine ⟨hs.distinct, List.nodup_singleton _, fun u hu u' hu' heq => ?_⟩
    -- its number is new
    have hlt := hs.numbered u hu
    rw [heq, List.mem_singleton.1 hu', hnumber] at hlt
    exact Nat.lt_irrefl _ hlt
  · intro u
    have hq : (insertTimer pNewTimer s.timerQHead).count u = (pNewTimer :: s.timerQHead).count u :=
      hperm.count_eq u
    rw [hstarted, hfired, hstopped, List.count_append, hs.counted u]
    dsimp only
    rw [hq, List.count_cons, List.count_cons, List.count_nil]
    omega
  · exact hs.timely.concat trivial
  · rw [hfired]
    exact hs.inOrder
  · intro u hu
    rw [hfired] at hu
    obtain ⟨hpast, hwait⟩ := hs.past u hu
    refine ⟨hpast, fun u' hu' => ?_⟩
    rcases (hmem u').1 hu' with rfl | hu'
    · -- it is due now at the earliest, and what has fired was due before
      rw [hdue]
      exact Nat.le_trans hpast (Nat.le_add_right _ _)
    · exact hwait u' hu'

/-- **A timer is stopped.** -/
theorem Sound.stop (hs : Sound s h) {u : Timer} (hu : u ∈ s.timerQHead) :
    Sound { s with timerQHead := s.timerQHead.erase u } (h ++ [.stopped u]) := by
  have hstarted : started (h ++ [Out.stopped u]) = started h :=
    (started_append h _).trans (List.append_nil _)
  have hfired : fired (h ++ [Out.stopped u]) = fired h :=
    (fired_append h _).trans (List.append_nil _)
  have hstopped : stopped (h ++ [Out.stopped u]) = stopped h ++ [u] := stopped_append h _
  have hless : ∀ u' ∈ s.timerQHead.erase u, u' ∈ s.timerQHead := fun u' hu' => List.mem_of_mem_erase hu'
  constructor
  · exact hs.ordered.sublist List.erase_sublist
  · intro u' hu'
    exact hs.queued u' (hless u' hu')
  · exact hs.calls
  · rw [hstarted]
    exact hs.numbered
  · rw [hstarted]
    exact hs.distinct
  · intro u'
    have hq : s.timerQHead.count u' = (u :: s.timerQHead.erase u).count u' :=
      (List.perm_cons_erase hu).count_eq u'
    rw [hstarted, hfired, hstopped, List.count_append, hs.counted u', hq, List.count_cons,
      List.count_cons, List.count_nil]
    dsimp only
    omega
  · exact hs.timely.concat trivial
  · rw [hfired]
    exact hs.inOrder
  · intro u' hu'
    rw [hfired] at hu'
    exact ⟨(hs.past u' hu').1, fun w hw => (hs.past u' hu').2 w (hless w hw)⟩

/-- A return changes nothing. -/
theorem Sound.returned (hs : Sound s h) {readTime : ℕ} {rc : Bool}
    (ht : Timely h (.returned readTime rc)) : Sound s (h ++ [.returned readTime rc]) := by
  have hstarted : started (h ++ [Out.returned readTime rc]) = started h :=
    (started_append h _).trans (List.append_nil _)
  have hfired : fired (h ++ [Out.returned readTime rc]) = fired h :=
    (fired_append h _).trans (List.append_nil _)
  have hstopped : stopped (h ++ [Out.returned readTime rc]) = stopped h :=
    (stopped_append h _).trans (List.append_nil _)
  constructor
  · exact hs.ordered
  · exact hs.queued
  · exact hs.calls
  · rw [hstarted]
    exact hs.numbered
  · rw [hstarted]
    exact hs.distinct
  · rw [hstarted, hfired, hstopped]
    exact hs.counted
  · exact hs.timely.concat ht
  · rw [hfired]
    exact hs.inOrder
  · rw [hfired]
    exact hs.past

/-- What has been started and is not on the queue has fired or has been stopped. -/
theorem Sound.gone (hs : Sound s h) {u : Timer} (hu : u ∈ started h) (hq : u ∉ s.timerQHead) :
    u ∈ fired h ∨ u ∈ stopped h := by
  have hone := List.count_pos_iff.2 hu
  rw [hs.counted u, List.count_eq_zero.2 hq] at hone
  by_cases hf : u ∈ fired h
  · exact .inl hf
  · right
    rw [List.count_eq_zero.2 hf] at hone
    exact List.count_pos_iff.1 (by omega)

/-- **The first timer fires.** -/
theorem Sound.fire (hs : Sound s h) {pTimer : Timer} {rest : List Timer} {readTime : ℕ}
    (hq : s.timerQHead = pTimer :: rest) (hread : readTime ≤ s.time)
    (hround : SameRound readTime s.time) (hdue : pTimer.due ≤ readTime) :
    Sound { s with
      timerQHead := rest
      calls := ⟨currentTime readTime, readTime, pTimer⟩ :: s.calls } (h ++ [.fired pTimer s.time]) := by
  have hstarted : started (h ++ [Out.fired pTimer s.time]) = started h :=
    (started_append h _).trans (List.append_nil _)
  have hfired : fired (h ++ [Out.fired pTimer s.time]) = fired h ++ [pTimer] := fired_append h _
  have hstopped : stopped (h ++ [Out.fired pTimer s.time]) = stopped h :=
    (stopped_append h _).trans (List.append_nil _)
  have hordered := hs.ordered
  have hpast := hs.past
  have hqueued := hs.queued
  have hcounted := hs.counted
  rw [hq] at hordered hpast hqueued hcounted
  constructor
  · exact hordered.tail
  · intro u hu
    exact hqueued u (List.mem_cons_of_mem _ hu)
  · intro c hc
    rcases List.mem_cons.1 hc with rfl | hc
    · exact ⟨rfl, hround, hread⟩
    · exact hs.calls c hc
  · rw [hstarted]
    exact hs.numbered
  · rw [hstarted]
    exact hs.distinct
  · intro u
    rw [hstarted, hfired, hstopped, List.count_append, hcounted u, List.count_cons, List.count_cons,
      List.count_nil]
    dsimp only
    omega
  · exact hs.timely.concat (Nat.le_trans hdue hread)
  · rw [hfired]
    exact hs.inOrder.concat fun u hu => (hpast u hu).2 pTimer List.mem_cons_self
  · intro u hu
    rw [hfired] at hu
    rcases List.mem_append.1 hu with hu | hu
    · exact ⟨(hpast u hu).1, fun w hw => (hpast u hu).2 w (List.mem_cons_of_mem _ hw)⟩
    · rw [List.mem_singleton.1 hu]
      exact ⟨Nat.le_trans hdue hread, fun w hw => hordered.first hw⟩

/-- **The queue is processed** until a handler is called, or nothing is due. -/
theorem Sound.process (hs : Sound s h) {readTime : ℕ} (hread : readTime ≤ s.time)
    (hround : SameRound readTime s.time) (he : s.process (currentTime readTime) readTime = (t, o)) :
    Sound t (h ++ o) := by
  unfold Timers.process at he
  split at he
  · rename_i hq
    cases he
    refine hs.returned fun _ u hu _ => hs.gone hu ?_
    rw [hq]
    exact List.not_mem_nil
  · rename_i pTimer rest hq
    obtain ⟨hexpiry, hr⟩ := hs.queued pTimer (by rw [hq]; exact List.mem_cons_self)
    -- both are in the round of the clock, so that the readings compare as the times
    have hdue : pTimer.expiryTime ≤ currentTime readTime ↔ pTimer.due ≤ readTime := by
      rw [hexpiry]
      exact currentTime_le (hr.trans hround.symm)
    split at he
    · rename_i hle
      cases he
      exact hs.fire hq hread hround (hdue.1 hle)
    · rename_i hlater
      cases he
      -- the first timer is not due, so none is
      have hnot : readTime < pTimer.due := Nat.not_le.1 fun hle => hlater (hdue.2 hle)
      refine hs.returned fun _ u hu hd => hs.gone hu fun hmem => ?_
      have hordered := hs.ordered
      rw [hq] at hordered hmem
      exact absurd hd (Nat.not_le.2 (hordered.not_due hnot hmem))

/-- **Time passes.** -/
theorem Sound.pass (hs : Sound s h) {milliseconds : ℕ}
    (hu : SameRound (s.time + milliseconds) s.time ∨ s.timerQHead = [] ∧ s.calls = []) :
    Sound { s with time := s.time + milliseconds } h := by
  refine ⟨hs.ordered, ?_, ?_, hs.numbered, hs.distinct, hs.counted, hs.timely, hs.inOrder, ?_⟩
  · intro u hmem
    -- a new round begins only while nothing waits
    rcases hu with hr | ⟨hq, -⟩
    · exact ⟨(hs.queued u hmem).1, (hs.queued u hmem).2.trans hr.symm⟩
    · dsimp only at hmem
      rw [hq] at hmem
      cases hmem
  · intro c hmem
    rcases hu with hr | ⟨-, hc⟩
    · obtain ⟨hnow, hround, hread⟩ := hs.calls c hmem
      exact ⟨hnow, hround.trans hr.symm, Nat.le_trans hread (Nat.le_add_right _ _)⟩
    · dsimp only at hmem
      rw [hc] at hmem
      cases hmem
  · intro u hmem
    exact ⟨Nat.le_trans (hs.past u hmem).1 (Nat.le_add_right _ _), (hs.past u hmem).2⟩

theorem Sound.step (hs : Sound s h) (hu : Unwrapped s i) (he : timers.step s i = some (t, o)) :
    Sound t (h ++ o) := by
  unfold timers Timers.step at he
  cases i with
  | pass milliseconds =>
    cases he
    rw [List.append_nil]
    exact hs.pass hu
  | start milliseconds obtains =>
    dsimp only at he
    split at he
    · rename_i hobtains
      exact hs.start (hu hobtains) (Option.some.inj he)
    · cases he
      rw [List.append_nil]
      exact hs
  | create milliseconds obtains =>
    dsimp only at he
    split at he
    · exact hs.start hu (Option.some.inj he)
    · cases he
  | stop hTimer =>
    obtain ⟨u, hfind, he⟩ := Option.map_eq_some_iff.1 he
    cases he
    exact hs.stop (List.mem_of_find?_eq_some hfind)
  | processQueue => exact hs.process (Nat.le_refl _) rfl (Option.some.inj he)
  | handlerReturns rc =>
    dsimp only at he
    split at he
    · cases he
    · rename_i c calls hc
      have hcall := hs.calls c (by rw [hc]; exact List.mem_cons_self)
      have hless : Sound { s with calls } h := by
        refine ⟨hs.ordered, hs.queued, fun c' hc' => hs.calls c' ?_, hs.numbered, hs.distinct,
          hs.counted, hs.timely, hs.inOrder, hs.past⟩
        rw [hc]
        exact List.mem_cons_of_mem _ hc'
      split at he
      · -- it goes on with the time that it has read
        obtain ⟨hnow, hround, hread⟩ := hcall
        rw [hnow] at he
        exact hless.process hread hround (Option.some.inj he)
      · cases he
        exact hless.returned fun hno => by cases hno

/-- **Every timer fires once and in time**, in every run in which timers and calls stay in the round of
the clock in which they have begun. -/
theorem timers_inTime (hr : Run.Reach timers Unwrapped h s) : InTime s h := by
  have hs : Sound s h := by
    refine Run.Reach.invariant_hist (P := Sound) ?_ ?_ hr
    · rintro s ⟨hq, hc⟩
      constructor
      · rw [hq]
        exact InOrder.nil
      · rw [hq]
        exact fun _ hmem => absurd hmem List.not_mem_nil
      · rw [hc]
        exact fun _ hmem => absurd hmem List.not_mem_nil
      · exact fun _ hmem => absurd hmem List.not_mem_nil
      · exact List.nodup_nil
      · rw [hq]
        exact fun _ => rfl
      · exact Always.nil
      · exact InOrder.nil
      · exact fun _ hmem => absurd hmem List.not_mem_nil
    · intro s i t o h hs hok hstep
      exact hs.step hok hstep
  exact hs.inTime

/-- The later timer is started first; the handler of the earlier one starts another that is due at once,
and stops the later one. -/
theorem timers_inTime_three : ∃ s h, Run.Reach timers Unwrapped h s ∧
    (fired h).map Timer.hTimer = [1, 2] ∧ (stopped h).map Timer.hTimer = [0] ∧ InTime s h := by
  obtain ⟨s, h, hr, hp⟩ := Run.Reach.of_run (S := timers) (b := fun s i => decide (Unwrapped s i))
    (fun _ _ hb => of_decide_eq_true hb) (s := {}) ⟨rfl, rfl⟩
    [.start 3000 true, .start 1000 true, .pass 2000, .processQueue, .start 0 true, .stop 0,
      .handlerReturns true, .handlerReturns true]
    (fun _ h => decide ((fired h).map Timer.hTimer = [1, 2] ∧ (stopped h).map Timer.hTimer = [0]))
    (by decide +kernel)
  obtain ⟨hfired, hstopped⟩ := of_decide_eq_true hp
  exact ⟨s, h, hr, hfired, hstopped, timers_inTime hr⟩

/-- It is started for two seconds when the clock reads 4294967000. -/
def wrappedTimer : Timer := ⟨0, 1704, false, 4294967000, 2000⟩

/-- **Across the end of a round**: a timer is started for two seconds, and `TMR_processQueue` calls its
handler at once. -/
theorem wrapped_early : ∃ s h, Run.Reach timers Run.any h s ∧
    h = [.started wrappedTimer, .fired wrappedTimer 4294967000] ∧ wrappedTimer.due = 4294969000 ∧
    ¬InTime s h := by
  have hinit : timers.init { time := 4294967000 } := ⟨rfl, rfl⟩
  obtain ⟨s, h, hr, hp⟩ := Run.Reach.of_run_any hinit [.start 2000 true, .processQueue]
    (fun _ h => decide (h = [.started wrappedTimer, .fired wrappedTimer 4294967000]))
    (by decide +kernel)
  have hh := of_decide_eq_true hp
  refine ⟨s, h, hr, hh, by decide, fun hin => ?_⟩
  have hearly : Timely [.started wrappedTimer] (.fired wrappedTimer 4294967000) :=
    hin.timely _ _ (by rw [hh]; exact List.prefix_refl _)
  have hdue : wrappedTimer.due ≤ 4294967000 := hearly
  exact absurd hdue (by decide)

end Tmr
