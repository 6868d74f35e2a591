import Emsd.Mts.Operations

/-!
# Non-delivery reports

Reports come from the Deliver machine (`aS2S1c`) and from the cleaner, for messages that expire. A
completed message stays in its queue for 15 minutes, and the cleaner does not ask whether a message
that expires has been completed.

* `report_exclusive`: **one report for a message at most, and none after a success**, in every run
  where no cleaning finds a message that is past its expiry within these 15 minutes.
* `report_after_success`: a message that is delivered 50 minutes after its submission.
-/

namespace Mts

open Server

variable {cfg : Config} {A : Allow} {v w : View} {out h : List Out} {s t : Store} {p : MsgId}
  {d d' : ControlData} {q q' : RecipQueue} {now : Time}

/-- The message of a report. -/
def Out.report? : Out → Option MsgId
  | .nonDel r => some r.msg
  | _ => none

/-- The messages that have been reported, in order. -/
def reportsOf (h : List Out) : List MsgId := h.filterMap Out.report?

@[simp] theorem reportsOf_append {h h' : List Out} :
    reportsOf (h ++ h') = reportsOf h ++ reportsOf h' := List.filterMap_append

@[simp] theorem reportsOf_nonDel {l : List NonDel} :
    reportsOf (l.map .nonDel) = l.map (·.msg) := by
  unfold reportsOf
  rw [List.filterMap_map]
  exact congrFun List.filterMap_eq_map l

theorem reportsOf_sender {i : OpId} {c : List Mtsua.SendOut} :
    reportsOf (c.map (.sender i)) = [] := by
  unfold reportsOf
  rw [List.filterMap_map, List.filterMap_eq_nil_iff]
  intro o _
  rfl

/-- The cleaner finds no message that has been completed for at most 15 minutes and is past its
expiry. -/
def lateClean (s : Store) (now : Time) : Bool :=
  !s.cleans now || (List.range s.nextId).all fun p => (s.heap p).all fun d =>
    d.completed = 0 || d.longCompleted now || !d.expired now

def lateCleans : Allow := { clean := fun v now => lateClean v.store now }

/-- What the reports so far say about the messages. -/
structure ReportsOk (v : View) (h : List Out) : Prop where
  ops : OpsOk v.store v.inDelivery v.nextOp
  reported : ∀ p ∈ reportsOf h, p < v.store.nextId ∧
    ∀ d, v.store.heap p = some d → d.completed ≠ 0
  once : (reportsOf h).Nodup
  set : ∀ p, .setStatus p .succeded ∈ h → p ∉ reportsOf h ∧ p < v.store.nextId ∧
    ∀ d, v.store.heap p = some d → d.completed ≠ 0

/-- Completed messages stay completed. -/
structure Completes (s t : Store) : Prop where
  nextId : s.nextId ≤ t.nextId
  heap : ∀ p d', p < s.nextId → t.heap p = some d' →
    ∃ d, s.heap p = some d ∧ (d.completed ≠ 0 → d'.completed ≠ 0)

theorem SameStatus.completes (h : SameStatus s t) : Completes s t where
  nextId := h.nextId
  heap p d' hlt hp := by
    rcases h.heap p d' hp with ⟨hle, -⟩ | ⟨d, hd, -, hc, -⟩
    · exact absurd hlt (Nat.not_lt.2 hle)
    · exact ⟨d, hd, fun h0 => by rw [hc]; exact h0⟩

theorem Rewritten.completes (hw : Rewritten s p d d' q q' t)
    (hc : d.completed ≠ 0 → d'.completed ≠ 0) : Completes s t where
  nextId := Nat.le_of_eq hw.sameLinks.nextId.symm
  heap r e hlt hr := by
    rw [hw.heap_eq] at hr
    split at hr
    · rename_i hrp
      obtain rfl := Option.some.inj hr
      exact ⟨d, by rw [hrp, hw.heap], hc⟩
    · exact ⟨e, hr, id⟩

theorem Completes.refl (s : Store) : Completes s s :=
  ⟨Nat.le_refl _, fun _ d _ hp => ⟨d, hp, id⟩⟩

theorem msgDeleteMessage_completes (hd : msgDeleteMessage s p now = some t) : Completes s t := by
  obtain ⟨d, -, ⟨-, rfl⟩ | ⟨-, q, hw⟩⟩ := msgDeleteMessage_inv hd
  · exact .refl _
  · exact hw.completes fun _ => now.ne_zero

/-- A move that reports nothing, and sets no status. -/
theorem ReportsOk.quiet (hv : ReportsOk v h) (hc : Completes v.store w.store)
    (hw : OpsOk w.store w.inDelivery w.nextOp) (hout : reportsOf out = [])
    (hset : ∀ p, .setStatus p .succeded ∉ out) : ReportsOk w (h ++ out) := by
  have hstay : ∀ p, p < v.store.nextId → (∀ d, v.store.heap p = some d → d.completed ≠ 0) →
      p < w.store.nextId ∧ ∀ d, w.store.heap p = some d → d.completed ≠ 0 := by
    intro p hlt hp
    refine ⟨Nat.lt_of_lt_of_le hlt hc.nextId, fun d' hd' => ?_⟩
    obtain ⟨d, hd, himp⟩ := hc.heap p d' hlt hd'
    exact himp (hp d hd)
  have hrep : reportsOf (h ++ out) = reportsOf h := by
    rw [reportsOf_append, hout, List.append_nil]
  refine ⟨hw, fun p hp => ?_, by rw [hrep]; exact hv.once, fun p hp => ?_⟩
  · rw [hrep] at hp
    obtain ⟨hlt, hd⟩ := hv.reported p hp
    exact hstay p hlt hd
  · obtain ⟨hnot, hlt, hd⟩ := hv.set p ((List.mem_append.1 hp).resolve_right (hset p))
    rw [hrep]
    exact ⟨hnot, hstay p hlt hd⟩

/-- The cleaner reports messages that have not been completed. -/
theorem ReportsOk.clean {out : List NonDel} (hv : ReportsOk v h)
    (hok : lateClean v.store now = true) (hc : msgCleanQueue v.store now = some (t, out)) :
    ReportsOk { v with store := t } (h ++ out.map .nonDel) := by
  obtain ⟨hs, hidle⟩ := msgCleanQueue_swept hv.ops.homed hc
  have hcomp : Completes v.store t := (SameStatus.swept hs).completes
  have hw : OpsOk t v.inDelivery v.nextOp := hv.ops.sameStatus (.swept hs)
  -- a message that is reported now had not been completed
  have hnew : ∀ r ∈ out, ∃ d, v.store.heap r.msg = some d ∧ d.completed = 0 := by
    intro r hr
    obtain ⟨-, d, hd, hl, hx⟩ := hs.reported r hr
    refine ⟨d, hd, ?_⟩
    unfold lateClean at hok
    by_cases hcl : v.store.cleans now = true
    · simp only [hcl, Bool.not_true, Bool.false_or, List.all_eq_true, List.mem_range] at hok
      have hall := hok r.msg (hv.ops.homed.lt hd)
      simpa [hd, hl, hx] using hall
    · obtain ⟨-, rfl⟩ := hidle (by simpa using hcl)
      cases hr
  have hfresh : ∀ r ∈ out, r.msg ∉ reportsOf h := by
    intro r hr hin
    obtain ⟨d, hd, h0⟩ := hnew r hr
    exact (hv.reported r.msg hin).2 d hd h0
  have hstay : ∀ p, p < v.store.nextId → (∀ d, v.store.heap p = some d → d.completed ≠ 0) →
      p < t.nextId ∧ ∀ d, t.heap p = some d → d.completed ≠ 0 := by
    intro p hlt hp
    refine ⟨Nat.lt_of_lt_of_le hlt hcomp.nextId, fun d' hd' => ?_⟩
    obtain ⟨d, hd, himp⟩ := hcomp.heap p d' hlt hd'
    exact himp (hp d hd)
  refine ⟨hw, fun p hp => ?_, ?_, fun p hp => ?_⟩
  · rw [reportsOf_append, reportsOf_nonDel, List.mem_append] at hp
    rcases hp with hp | hp
    · obtain ⟨hlt, hd⟩ := hv.reported p hp
      exact hstay p hlt hd
    · obtain ⟨r, hr, rfl⟩ := List.mem_map.1 hp
      obtain ⟨hn, d, hd, -⟩ := hs.reported r hr
      refine ⟨?_, fun d' hd' => ?_⟩
      · show r.msg < t.nextId
        rw [hs.nextId]
        exact hv.ops.homed.lt hd
      · replace hd' : t.heap r.msg = some d' := hd'
        rw [hn] at hd'
        cases hd'
  · rw [reportsOf_append, reportsOf_nonDel, List.nodup_append]
    refine ⟨hv.once, hs.once, ?_⟩
    rintro _ hp _ hr rfl
    obtain ⟨r, hin, rfl⟩ := List.mem_map.1 hr
    exact hfresh r hin hp
  · have hin : .setStatus p .succeded ∈ h := by
      refine (List.mem_append.1 hp).resolve_right fun hp => ?_
      obtain ⟨r, -, hr⟩ := List.mem_map.1 hp
      cases hr
    obtain ⟨hnot, hlt, hd⟩ := hv.set p hin
    refine ⟨?_, hstay p hlt hd⟩
    rw [reportsOf_append, reportsOf_nonDel, List.mem_append]
    rintro (hp | hp)
    · exact hnot hp
    · obtain ⟨r, hr, rfl⟩ := List.mem_map.1 hp
      obtain ⟨d, hd', h0⟩ := hnew r hr
      exact hd d hd' h0

/-- A message that is in delivery has not been reported, nor delivered. -/
theorem ReportsOk.notYet {i : OpId} (hv : ReportsOk v h) (hi : v.inDelivery i = some p)
    (hp : v.store.heap p = some d) : p ∉ reportsOf h ∧ .setStatus p .succeded ∉ h := by
  have h0 := (hv.ops.live i p d hi hp).2.1
  exact ⟨fun hin => (hv.reported p hin).2 d hp h0, fun hin => (hv.set p hin).2.2 d hp h0⟩

theorem ReportsOk.ended {tr : DeliverTrans} {i : OpId} (hv : ReportsOk v h)
    (hi : v.inDelivery i = some p) (he : Ended cfg now v.store p tr t out) :
    ReportsOk ⟨t, Function.update v.inDelivery i none, v.nextOp⟩ (h ++ out) := by
  set w : View := ⟨t, Function.update v.inDelivery i none, v.nextOp⟩ with hwdef
  have hw : OpsOk w.store w.inDelivery w.nextOp := hv.ops.ended hi he
  cases he with
  | succeeded hu =>
    obtain ⟨d, hp, ⟨-, hs, rfl⟩ | ⟨-, rfl, q, hr⟩⟩ := msgUpdateMessageStatus_inv hu
    · refine hv.quiet ?_ hw rfl (by simp)
      rw [hwdef, hs]
      exact .refl _
    · have hc : Completes v.store w.store := hr.completes fun _ => now.ne_zero
      have hq : ReportsOk w (h ++ []) := hv.quiet hc hw rfl (by simp)
      rw [List.append_nil] at hq
      have hrep : reportsOf (h ++ [.setStatus p .succeded]) = reportsOf h := by
        simp [reportsOf, Out.report?]
      simp only [if_true]
      refine ⟨hw, fun r hr => ?_, by rw [hrep]; exact hv.once, fun r hset => ?_⟩
      · rw [hrep] at hr
        exact hq.reported r hr
      · rw [hrep]
        rcases List.mem_append.1 hset with hset | hset
        · exact hq.set r hset
        · obtain rfl : r = p := by simpa using hset
          refine ⟨(hv.notYet hi hp).1, Nat.lt_of_lt_of_le (hv.ops.homed.lt hp) hc.nextId,
            fun d' hd' => ?_⟩
          rw [hr.heap_eq, if_pos rfl] at hd'
          obtain rfl := Option.some.inj hd'
          exact now.ne_zero
  | respooled hr =>
    obtain ⟨d, q, delay, -, hr⟩ := deliveryRespool_inv hr
    exact hv.quiet (hr.completes id) hw rfl (by simp)
  | reported hp hd =>
    have hc : Completes v.store w.store := msgDeleteMessage_completes hd
    have hq : ReportsOk w (h ++ []) := hv.quiet hc hw rfl (by simp)
    rw [List.append_nil] at hq
    obtain ⟨hnot, hset⟩ := hv.notYet hi hp
    rename_i d error
    have hrep : reportsOf (h ++ [.nonDel (mtsDeliveryNonDel p d error)]) = reportsOf h ++ [p] := by
      simp [reportsOf, Out.report?, mtsDeliveryNonDel]
    refine ⟨hw, fun r hr => ?_, ?_, fun r hin => ?_⟩
    · rw [hrep, List.mem_append, List.mem_singleton] at hr
      rcases hr with hr | rfl
      · exact hq.reported r hr
      · -- the message has been completed
        refine ⟨Nat.lt_of_lt_of_le (hv.ops.homed.lt hp) hc.nextId, fun d' hd' => ?_⟩
        obtain ⟨d₀, hd₀, ⟨hne, -⟩ | ⟨-, q, hr⟩⟩ := msgDeleteMessage_inv hd
        · exact absurd (hv.ops.live i r d₀ hi hd₀).2.1 hne
        · rw [hr.heap_eq, if_pos rfl] at hd'
          obtain rfl := Option.some.inj hd'
          exact now.ne_zero
    · rw [hrep, List.nodup_append]
      refine ⟨hv.once, List.nodup_singleton _, ?_⟩
      rintro r hr _ hx rfl
      obtain rfl := List.mem_singleton.1 hx
      exact hnot hr
    · have hin' : .setStatus r .succeded ∈ h := (List.mem_append.1 hin).resolve_right (by simp)
      obtain ⟨hnr, hlt⟩ := hq.set r hin'
      rw [hrep, List.mem_append, List.mem_singleton]
      refine ⟨?_, hlt⟩
      rintro (hr | rfl)
      · exact hnr hr
      · exact hset hin'
  | dropped => exact hv.quiet (.refl _) hw rfl (by simp)

/-- **Every move keeps the reports exclusive.** -/
theorem ReportsOk.move (hv : ReportsOk v h) (hm : Move cfg lateCleans v out w) :
    ReportsOk w (h ++ out) := by
  have hw := hv.ops.move hm
  cases hm with
  | newRecip hg => exact hv.quiet (SameStatus.newRecip hv.ops.homed hg).completes hw rfl (by simp)
  | add _ hadd =>
    have hg := dqAddMessage_grown hv.ops.homed hadd
    exact hv.quiet (SameStatus.grown hg).completes hw rfl (by simp)
  | deliverNow => exact hv.quiet (SameStatus.deliverNow hv.ops.homed).completes hw rfl (by simp)
  | dumpQueue | wait =>
    exact hv.quiet ⟨Nat.le_refl _, fun p d _ hp => ⟨d, hp, id⟩⟩ hw rfl (by simp)
  | clean hok hc => exact hv.clean hok hc
  | profile _ hq =>
    exact hv.quiet (SameStatus.profile hv.ops.homed hq).completes hw rfl (by simp)
  | take _ _ _ hr _ => exact hv.quiet (hr.completes id) hw rfl (by simp)
  | cancel _ _ _ hd => exact hv.quiet (msgDeleteMessage_completes hd) hw rfl (by simp)
  | finish _ hi he => exact hv.ended hi he
  | send => exact hv.quiet (.refl _) hw reportsOf_sender (by simp)

/-- The condition on the steps of a run. -/
def noLateClean (e : Server) (i : Input) : Prop := lateCleans.step e i = true

theorem reportsOk {e : Server} (hr : Run.Reach (server cfg) noLateClean h e) :
    ReportsOk e.view h := by
  refine Run.Reach.invariant_hist (S := server cfg) (P := fun e h => ReportsOk e.view h)
    (fun e he => ?_) (fun e i e' o h hv hok hs => ?_) hr
  · obtain rfl : e = {} := he
    exact ⟨.empty, fun p hp => (by cases hp), List.nodup_nil, fun p hp => (by cases hp)⟩
  · have hm : Moves cfg lateCleans e.view o e'.view := step_moves hv.ops.homed hok hs
    have := hm.invariant (P := fun o w => ReportsOk w (h ++ o)) (by rw [List.append_nil]; exact hv)
      fun w q o r hq hmove => by
        rw [← List.append_assoc]
        exact hq.move hmove
    exact this

/-- A message that is submitted at time 1000 and delivered at time `now`; the queues are cleaned at
time 4700. -/
def deliverAt (now : Time) : List Input :=
  let t : Try := { cleaned := now, now, deleted := now, pdu := some ⟨[[1, 2, 3]], 0, 0⟩ }
  [.addMessage "id" "sender" [⟨7, some ⟨[], 1, 1, true⟩, 1000⟩],
    .tryDelivery [t, t],
    .schRun { invokeReq := some 5 } now,
    .resultIndication 5 true,
    .schRun {} now,
    .tryDelivery [{ cleaned := 4700, now := 4700, deleted := 4700, pdu := none }]]

end Mts
