import Emsd.Proof.References

/-!
# What a step schedules

`rowTasks` gives, for each row of the tables, the functions that it submits to the
scheduler: the indications to the user, if there is memory for their arguments, and the
release. `fire_submitted` lifts this to a step.
-/

namespace Erop

open Ocp FunctionalUnit Engine

variable {cfg : Config} {e e' : Engine} {inp : Input} {f : Fire} {o : List Out}
  {c : Ctx} {m : Machine} {s s' : State} {evt : Evt} {act : Machine → Machine × SuccFail}

/-- An indication, if there is memory for its argument record. -/
def told (c : Ctx) (task : Task) : List Task := if c.env.memGet then [task] else []

/-- What the row of a state and an event submits. -/
def rowTasks (c : Ctx) (v : InvokeInfo) : State → Evt → List Task
  | .invokePduSent, .lastTimer | .invokePduSent2, .lastTimer =>
    told c (.failureInd c.self v.userInvokeRef failureUserNotResponding)
  | .invokePduSent, .pduResult | .invokePduSent2, .pduResult => told c (resultTask c v)
  | .invokePduSent, .pduFailure | .invokePduSent2, .pduFailure =>
    told c (.failureInd c.self v.userInvokeRef v.failureReason)
  | .clPerformerStart, .pduInvoke | .cl2PerformerStart, .pduInvoke => told c (invokeTask c)
  | .invokePduReceived, .perfNoResponseTimer | .invokePduReceived2, .perfNoResponseTimer
  | .invokePduReceived, .internal | .invokePduReceived2, .internal =>
    told c (.failureInd c.self v.userInvokeRef failureLocResource) ++ [.relInvoke c.self]
  | .ackPduWait, .pduAck =>
    told c (if c.cfg.dropResultConfirm then
      .failureInd c.self v.userInvokeRef failureTransmission else confirmTask c v)
  | .ackPduWait, .lastTimer => told c (.failureInd c.self v.userInvokeRef failureTransmission)
  | .resultPduRetrans2, .inactivityTimer => told c (confirmTask c v)
  | .invokerRefWait, .refNuTimer | .invokerRefWait2, .refNuTimer
  | .performerRefWait, .refNuTimer | .performerRefWait2, .refNuTimer => [.relInvoke c.self]
  | _, _ => []

/-- What is handed to UDP or to the scheduler; the actions have no other outputs. -/
def Out.isSent : Out → Bool
  | udp .. | sch _ => true
  | _ => false

@[simp] theorem submitted_nil : submitted [] = [] := rfl

@[simp] theorem submitted_append {a b : List Out} : submitted (a ++ b) = submitted a ++ submitted b :=
  List.filterMap_append

@[simp] theorem submitted_sch {t : Task} : submitted [.sch t] = [t] := rfl

@[simp] theorem submitted_toPeer {v : InvokeInfo} {du : Octets} : submitted [toPeer c v du] = [] := rfl

@[simp] theorem submitted_indicated {t : Task} : submitted (indicated c t) = told c t := by
  unfold indicated told
  split <;> rfl

/-- The outputs that a row adds: they submit `tasks`, and there is nothing else but UDP. -/
structure Adds (m m' : Machine) (tasks : List Task) : Prop where
  submitted : submitted m'.out = submitted m.out ++ tasks
  sent : ∀ x ∈ m'.out, x ∈ m.out ∨ x.isSent = true

theorem Adds.of_out {m' : Machine} {out : List Out} {tasks : List Task} (h : m'.out = m.out ++ out)
    (ht : Engine.submitted out = tasks) (hs : ∀ x ∈ out, x.isSent = true) : Adds m m' tasks := by
  refine ⟨by rw [h, submitted_append, ht], fun x hx => ?_⟩
  rw [h] at hx
  rcases List.mem_append.1 hx with hx | hx
  · exact .inl hx
  · exact .inr (hs x hx)

theorem indicated_sent {t : Task} : ∀ x ∈ indicated c t, x.isSent = true := by
  unfold indicated
  split <;> simp [Out.isSent]

theorem reply_adds {name : TmrName} {time : InvokeInfo → Int} (hn : ReplyTimer name time) :
    Adds m (performerResultReq name time c m).1 [] := by
  rcases performerResultReq_spec hn c m with ⟨-, h⟩ | h | ⟨_, h, -⟩
  · exact .of_out h.out rfl (by simp)
  · exact .of_out h.out rfl (by simp [toPeer, Out.isSent])
  · exact .of_out h.out rfl (by simp)

theorem row_adds (h : Row c s evt act s') (hf : c.Fits evt) :
    Adds m (act m).1 (rowTasks c m.invoke s evt) := by
  have hpeer : ∀ {p : Prop} [Decidable p] {v du}, ∀ x ∈ (if p then [toPeer c v du] else []),
      x.isSent = true := by
    intro p _ v du x hx
    split at hx
    · obtain rfl := List.mem_singleton.1 hx
      rfl
    · cases hx
  have hsub : ∀ {p : Prop} [Decidable p] {v du},
      Engine.submitted (if p then [toPeer c v du] else []) = [] := by
    intro p _ v du
    split <;> rfl
  cases h with
  | invokeReq fu =>
    have ht : rowTasks c m.invoke (invokerStart fu) .invokeReq = [] := by cases fu <;> rfl
    rw [ht]
    rcases invokerInvokeReq_spec c m with h | h | ⟨_, h, -⟩
    · rw [h]; exact ⟨by simp, fun x hx => .inl hx⟩
    · exact .of_out h.out rfl (by simp [toPeer, Out.isSent])
    · exact .of_out h.out rfl (by simp)
  | retran fu => exact .of_out (invokerRetran_does hf).out (hsub.trans (by cases fu <;> rfl)) hpeer
  | last fu =>
    exact .of_out (invokerLast_does hf).out (submitted_indicated.trans (by cases fu <;> rfl))
      indicated_sent
  | result =>
    refine .of_out (trClInvoker04_does hf).out (by simp [hsub, rowTasks]) fun x hx => ?_
    rcases List.mem_append.1 hx with hx | hx
    · exact indicated_sent x hx
    · exact hpeer x hx
  | result2 => exact .of_out (tr2ClInvoker04_does hf).out submitted_indicated indicated_sent
  | failure fu =>
    exact .of_out (invokerFailure_does hf).out (submitted_indicated.trans (by cases fu <;> rfl))
      indicated_sent
  | holdOn => exact ⟨by simp [trClInvoker06, rowTasks], fun x hx => .inl hx⟩
  | dupResult => exact .of_out (trClInvoker07_does hf).out hsub hpeer
  | inactivity => exact .of_out (trClInvoker10_does hf).out rfl (by simp)
  | lateResult => exact .of_out (trClInvoker09_does hf).out rfl (by simp)
  | lateResult2 => exact .of_out (tr2ClInvoker06_does hf).out rfl (by simp)
  | invokerRelease fu =>
    exact .of_out (scheduleRelease_does hf).out (by cases fu <;> rfl) (by simp [Out.isSent])
  | invoke =>
    refine .of_out (trClPerformer01_does hf).out (by simp [hsub, rowTasks]) fun x hx => ?_
    rcases List.mem_append.1 hx with hx | hx
    · exact indicated_sent x hx
    · exact hpeer x hx
  | invoke2 => exact .of_out (tr2ClPerformer01_does hf).out submitted_indicated indicated_sent
  | resultReq => exact reply_adds replyTimer_retran
  | resultReq2 => exact reply_adds replyTimer_inactivity
  | dupInvoke fu => exact .of_out performerDropInvoke_does.out (by cases fu <;> rfl) (by simp)
  | noResponse fu | internal fu =>
    refine .of_out performerNoResponse_does.out ?_ fun x hx => ?_
    · simp only [submitted_append, submitted_indicated, hsub, submitted_sch, List.append_nil]
      cases fu <;> rfl
    · rcases List.mem_append.1 hx with hx | hx
      · rcases List.mem_append.1 hx with hx | hx
        · exact indicated_sent x hx
        · exact hpeer x hx
      · obtain rfl := List.mem_singleton.1 hx
        rfl
  | ack => exact .of_out trClPerformer03_does.out submitted_indicated indicated_sent
  | resultRetran => exact .of_out trClPerformer05_does.out hsub hpeer
  | resultLast =>
    exact .of_out performerTransmissionFailure_does.out submitted_indicated indicated_sent
  | resend fu =>
    exact .of_out performerResendResult_does.out (hsub.trans (by cases fu <;> rfl)) hpeer
  | inactivity2 => exact .of_out performerConfirm_does.out submitted_indicated indicated_sent
  | lateInvoke fu => exact .of_out (lateInvoke_does hf).out (by cases fu <;> rfl) (by simp)
  | lateAck => exact .of_out (lateAck_does hf).out rfl (by simp)
  | performerRelease fu =>
    exact .of_out (scheduleRelease_does hf).out (by cases fu <;> rfl) (by simp [Out.isSent])

/-- The functions that a step submits when it runs a machine. -/
def Fire.tasks (f : Fire) : List Task :=
  match f.v.curState with
  | none => []
  | some s => if f.evt ∈ handles s then rowTasks f.c f.v s f.evt else []

theorem row_handles (h : Row c s evt act s') : evt ∈ handles s := by
  cases h with
  | invokeReq fu | retran fu | last fu | failure fu | invokerRelease fu | dupInvoke fu
  | noResponse fu | internal fu | resend fu | lateInvoke fu | performerRelease fu =>
    cases fu <;> simp [handles, invokerStart, sent, invokerRefWait, received, replied,
      performerRefWait]
  | _ => simp [handles]

theorem fire_adds (hc : Common cfg inp f) : Adds f.before f.after f.tasks := by
  unfold Fire.tasks
  rcases f.cases with hn | ⟨s, act, s', ht⟩
  · have hsame : Adds f.before f.after [] := by
      rw [hn.after]
      exact ⟨by simp, fun x hx => .inl hx⟩
    split
    · exact hsame
    · rename_i s hs
      rw [if_neg (hn.cur s hs)]
      exact hsame
  · rw [ht.cur]
    dsimp only
    rw [if_pos (row_handles ht.row)]
    have h := row_adds (m := f.before) ht.row hc.fits
    exact ⟨by rw [ht.after_out]; exact h.submitted, by rw [ht.after_out]; exact h.sent⟩

theorem fire_submitted (hc : Common cfg inp f) : submitted f.after.out = f.tasks := by
  simpa using (fire_adds hc).submitted

theorem fire_sent (hc : Common cfg inp f) : ∀ x ∈ f.after.out, x.isSent = true := by
  intro x hx
  rcases (fire_adds hc).sent x hx with h | h
  · cases h
  · exact h

theorem Fire.Takes.tasks (ht : f.Takes s act s') : f.tasks = rowTasks f.c f.v s f.evt := by
  unfold Fire.tasks
  rw [ht.cur]
  dsimp only
  rw [if_pos (row_handles ht.row)]

theorem Fire.Ignores.tasks (hn : f.Ignores) : f.tasks = [] := by
  unfold Fire.tasks
  split
  · rfl
  · rename_i s hs
    exact if_neg (hn.cur s hs)

theorem told_self {t : Task} (h : t.invoke = c.self) : ∀ u ∈ told c t, u.invoke = c.self := by
  intro u hu
  unfold told at hu
  split at hu
  · obtain rfl := List.mem_singleton.1 hu
    exact h
  · cases hu

theorem resultTask_self {v : InvokeInfo} : (resultTask c v).invoke = c.self := by
  unfold resultTask
  split <;> rfl

theorem confirmTask_self {v : InvokeInfo} : (confirmTask c v).invoke = c.self := by
  unfold confirmTask
  split <;> rfl

/-- Everything that a machine submits is about its own `InvokeInfo`. -/
theorem rowTasks_self {v : InvokeInfo} : ∀ t ∈ rowTasks c v s evt, t.invoke = c.self := by
  have hrel : ∀ t ∈ [Task.relInvoke c.self], t.invoke = c.self := by simp [Task.invoke]
  have hend : ∀ t ∈ told c (.failureInd c.self v.userInvokeRef failureLocResource) ++
      [Task.relInvoke c.self], t.invoke = c.self := by
    intro t ht
    rcases List.mem_append.1 ht with ht | ht
    · exact told_self rfl t ht
    · exact hrel t ht
  unfold rowTasks
  split <;> first
    | exact told_self rfl
    | exact told_self resultTask_self
    | exact told_self confirmTask_self
    | exact hend
    | exact hrel
    | exact fun t ht => absurd ht List.not_mem_nil
    | skip
  · split
    · exact told_self rfl
    · exact told_self confirmTask_self

theorem Fire.tasks_self : ∀ t ∈ f.tasks, t.invoke = f.c.self := by
  unfold Fire.tasks
  split
  · simp
  · split
    · exact rowTasks_self
    · simp

theorem mem_told {t u : Task} (h : t ∈ told c u) : t = u ∧ c.env.memGet = true := by
  unfold told at h
  split at h
  · rename_i hm
    exact ⟨List.mem_singleton.1 h, hm⟩
  · cases h

theorem mem_submitted {t : Task} : .sch t ∈ o ↔ t ∈ submitted o := by
  unfold submitted
  rw [List.mem_filterMap]
  constructor
  · exact fun h => ⟨_, h, rfl⟩
  · rintro ⟨x, hx, hm⟩
    cases x <;> simp at hm
    exact hm ▸ hx

/-- What a step submits, it submits through the machine that it runs. -/
theorem sch_of_step (hs : step cfg e inp = some (e', o)) {t : Task} (ht : .sch t ∈ o) :
    ∃ f, fires cfg e inp = some f ∧ e' = f.engine ∧ t ∈ f.tasks := by
  rcases step_cases hs with ⟨f, hf, rfl, rfl⟩ | ⟨-, hq⟩
  · obtain ⟨ho, hc⟩ := fires_origin hf
    refine ⟨f, hf, rfl, ?_⟩
    rcases List.mem_append.1 ht with ht | ht
    · rw [← fire_submitted hc]
      exact mem_submitted.1 ht
    · exfalso
      rcases ho.kind with ⟨sap, d, hk⟩ | ⟨v, q, hk⟩
      · rw [hk.extra] at ht
        dsimp only at ht
        split at ht
        · cases ht
        · split at ht <;> simp at ht
      · obtain ⟨n, hn⟩ := hk.extra _ _ ht
        cases hn
  · exfalso
    cases hq with
    | nothing ho => rcases ho _ ht with ⟨n, hn⟩ | ⟨_, _, _, _, hn⟩ <;> cases hn
    | _ => simp at ht

end Erop
