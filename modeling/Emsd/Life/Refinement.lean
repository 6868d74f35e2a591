import Emsd.Life.Phases
import Emsd.Proof.Tasks

/-!
# The engine refines the life of each invocation

`phase` abstracts an engine to the phase of one of its `InvokeInfo`s, `marks` its outputs to
the marks of that invocation. Every step is one move (`step_move`), so the outputs of a run
are a trace of the protocol of `Life` (`Reach.life`).
-/

namespace Erop

open Ocp FunctionalUnit Engine Life Run

variable {cfg : Config} {e e' : Engine} {inp : Input} {f : Fire} {o : List Out}
  {c : Ctx} {s s' : State} {evt : Evt} {act : Machine → Machine × SuccFail} {i : InvokeId}

/-! ## Abstraction -/

def Task.mark : Task → Mark
  | invokeInd .. => .shown
  | relInvoke _ => .release
  | resultInd .. | errorInd .. | resultCnf .. | errorCnf .. | failureInd .. => .final

/-- The mark that an output leaves on the invocation `i`. -/
def Out.mark (i : InvokeId) : Out → Option Mark
  | sch t => if t.invoke = i then some t.mark else none
  | invokeDesc j => if j = i then some .accepted else none
  | released j => if j = i then some .freed else none
  | udp .. | cb _ | ret _ => none

def marks (i : InvokeId) (o : List Out) : List Mark := o.filterMap (Out.mark i)

def State.phase : State → Phase
  | clInvokerStart | cl2InvokerStart => .ended false
  | invokePduSent | invokePduSent2 => .asked
  | ackPduSent | invokerRefWait | invokerRefWait2 => .kept false
  | clPerformerStart | cl2PerformerStart => .ended true
  | invokePduReceived | invokePduReceived2 => .shown
  | ackPduWait | resultPduRetrans2 => .replied
  | performerRefWait | performerRefWait2 => .kept true

def InvokeInfo.phase (v : InvokeInfo) : Phase := (v.curState.map State.phase).getD .idle

/-- The phase of the invocation `i`. -/
def Engine.phase (e : Engine) (i : InvokeId) : Phase :=
  if e.nextId ≤ i then .unborn else ((e.heap i).map InvokeInfo.phase).getD .gone

@[simp] theorem marks_nil : marks i [] = [] := rfl

@[simp] theorem marks_append (a b : List Out) : marks i (a ++ b) = marks i a ++ marks i b :=
  List.filterMap_append

theorem marks_cons (x : Out) (l : List Out) : marks i (x :: l) = (x.mark i).toList ++ marks i l := by
  unfold marks
  rw [List.filterMap_cons]
  cases x.mark i <;> rfl

theorem phase_of_heap (hl : Linked e) {v : InvokeInfo} (hv : e.heap i = some v) :
    e.phase i = v.phase := by
  have := hl.lt hv
  unfold Engine.phase
  rw [if_neg (by lia), hv]
  rfl

theorem phase_gone (hi : i < e.nextId) (hv : e.heap i = none) : e.phase i = .gone := by
  unfold Engine.phase
  rw [if_neg (by lia), hv]
  rfl

theorem phase_unborn (hi : e.nextId ≤ i) : e.phase i = .unborn := if_pos hi

theorem InvokeInfo.phase_ne (v : InvokeInfo) : v.phase ≠ .unborn ∧ v.phase ≠ .gone := by
  unfold InvokeInfo.phase
  cases v.curState with
  | none => exact ⟨by decide, by decide⟩
  | some s => cases s <;> exact ⟨by decide, by decide⟩

/-! ## Rows -/

/-- An INVOKE PDU that restarts the machine of an `InvokeInfo` whose release is pending. -/
structure Restarts (e : Engine) (inp : Input) (i : InvokeId) : Prop where
  arrives : ∃ tsap nsap data pdu sap, inp.ev = .udpInd tsap nsap data ∧
    readPdu tsap nsap data = some pdu ∧ pdu.pdutype = .invoke ∧
    e.getSapInfo pdu.toESROSap = some sap ∧ sap.invokeSeq.find? (e.isDuplicate pdu) = some i
  pending : ∃ v, e.heap i = some v ∧
    (v.curState = some .clPerformerStart ∨ v.curState = some .cl2PerformerStart)

theorem told_cases (c : Ctx) (t : Task) : told c t = [t] ∨ (told c t = [] ∧ c.env.memGet = false) := by
  unfold told
  cases h : c.env.memGet with
  | true => exact .inl rfl
  | false => exact .inr ⟨rfl, rfl⟩

theorem resultTask_mark {v : InvokeInfo} : (resultTask c v).mark = .final := by
  unfold resultTask
  split <;> rfl

theorem confirmTask_mark {v : InvokeInfo} : (confirmTask c v).mark = .final := by
  unfold confirmTask
  split <;> rfl

/-- Every row but INVOKE.request is a move. -/
theorem row_move {loss : Bool} {v : InvokeInfo} (h : Row c s evt act s') (hreq : evt ≠ .invokeReq)
    (hloss : s.phase = .ended true → loss = false → c.env.memGet = true) :
    Move loss s.phase ((rowTasks c v s evt).map Task.mark) s'.phase := by
  have hfinal : ∀ {t : Task}, t.mark = .final → (told c t).map Task.mark = [.final] ∨
      (told c t).map Task.mark = [] := by
    intro t ht
    rcases told_cases c t with h | ⟨h, -⟩
    · rw [h]; exact .inl (by rw [List.map_singleton, ht])
    · rw [h]; exact .inr rfl
  cases h with
  | invokeReq fu => exact absurd rfl hreq
  | retran fu => cases fu <;> exact .stay _
  | last fu =>
    cases fu <;>
      rcases hfinal (t := .failureInd c.self v.userInvokeRef failureUserNotResponding) rfl with h | h <;>
      simp only [rowTasks, sent, h] <;> first | exact .answer | exact .answerLost
  | result | result2 =>
    rcases hfinal (t := resultTask c v) resultTask_mark with h | h <;> simp only [rowTasks, h]
    · exact .answer
    · exact .answerLost
  | failure fu =>
    cases fu <;>
      rcases hfinal (t := .failureInd c.self v.userInvokeRef v.failureReason) rfl with h | h <;>
      simp only [rowTasks, sent, h] <;> first | exact .answer | exact .answerLost
  | holdOn | dupResult | inactivity | lateResult | lateResult2 => exact .stay _
  | invokerRelease fu => cases fu <;> exact .expire false
  | invoke | invoke2 =>
    rcases told_cases c (invokeTask c) with h | ⟨h, hm⟩ <;> simp only [rowTasks, h]
    · exact .again
    · refine .againLost ?_
      cases loss with
      | true => rfl
      | false => rw [hloss rfl rfl] at hm; cases hm
  | resultReq | resultReq2 => exact .reply
  | dupInvoke fu => cases fu <;> exact .stay _
  | noResponse fu | internal fu =>
    cases fu <;>
      rcases hfinal (t := .failureInd c.self v.userInvokeRef failureLocResource) rfl with h | h <;>
      simp only [rowTasks, received, List.map_append, h] <;>
      first | exact .silent | exact .silentLost
  | ack =>
    have ht : (if c.cfg.dropResultConfirm then
        Task.failureInd c.self v.userInvokeRef failureTransmission
      else confirmTask c v).mark = .final := by
      split
      · rfl
      · exact confirmTask_mark
    rcases hfinal ht with h | h <;> simp only [rowTasks, h]
    · exact .confirm
    · exact .confirmLost
  | resultRetran => exact .stay _
  | resultLast =>
    rcases hfinal (t := .failureInd c.self v.userInvokeRef failureTransmission) rfl with h | h <;>
      simp only [rowTasks, h]
    · exact .confirm
    · exact .confirmLost
  | resend fu => cases fu <;> exact .stay _
  | inactivity2 =>
    rcases hfinal (t := confirmTask c v) confirmTask_mark with h | h <;> simp only [rowTasks, h]
    · exact .confirm
    · exact .confirmLost
  | lateInvoke fu => cases fu <;> exact .stay _
  | lateAck => exact .stay _
  | performerRelease fu => cases fu <;> exact .expire true

theorem row_request (h : Row c s evt act s') (he : evt = .invokeReq) :
    s'.phase = .asked ∧ ∀ v, rowTasks c v s evt = [] := by
  cases h with
  | invokeReq fu => cases fu <;> exact ⟨rfl, fun _ => rfl⟩
  | _ => cases he

theorem row_arrival (h : Row c s evt act s') (hp : s.phase = .ended true) :
    evt = .pduInvoke ∧ s'.phase = .shown ∧ ∀ v, rowTasks c v s evt = told c (invokeTask c) := by
  cases h with
  | invoke | invoke2 => exact ⟨rfl, rfl, fun _ => rfl⟩
  | invokeReq fu | retran fu | last fu | failure fu | invokerRelease fu | dupInvoke fu
  | noResponse fu | internal fu | resend fu | lateInvoke fu | performerRelease fu =>
    cases fu <;> cases hp
  | _ => cases hp

/-! ## Steps -/

theorem marks_of_sent (h : ∀ x ∈ o, x.isSent = true) :
    marks i o = ((submitted o).filter (·.invoke = i)).map Task.mark := by
  induction o with
  | nil => rfl
  | cons x o ih =>
    obtain ⟨hx, ho⟩ := List.forall_mem_cons.1 h
    have := ih ho
    cases x with
    | udp => exact this
    | sch t =>
      by_cases ht : t.invoke = i <;> simpa [marks, submitted, Out.mark, ht] using this
    | _ => cases hx

/-- The marks that a machine leaves: those of its tasks on its own invocation. -/
theorem fire_marks_self (hc : Common cfg inp f) :
    marks f.c.self f.after.out = f.tasks.map Task.mark := by
  rw [marks_of_sent (fire_sent hc), fire_submitted hc, List.filter_eq_self.2]
  intro t ht
  simpa using Fire.tasks_self t ht

theorem fire_marks_ne (hc : Common cfg inp f) (hi : i ≠ f.c.self) : marks i f.after.out = [] := by
  rw [marks_of_sent (fire_sent hc), fire_submitted hc, List.filter_eq_nil_iff.2]
  · rfl
  · intro t ht
    have := Fire.tasks_self t ht
    simp only [decide_eq_true_eq]
    rw [this]
    exact fun h => hi h.symm

/-- A machine in the start state that runs on an INVOKE PDU is restarted. -/
theorem Origin.restarts {v : InvokeInfo} {q : List TmrData} (hl : Linked e)
    (ho : Origin cfg e inp f) (hk : Continues e f v q) (ht : f.Takes s act s')
    (hp : s.phase = .ended true) : Restarts e inp f.c.self := by
  have hcur : v.curState = some s := by
    obtain ⟨a, b, hfv⟩ := hk.v
    rw [← ht.cur, hfv]
  have hevt := (row_arrival ht.row hp).1
  refine ⟨?_, v, hk.heap, ?_⟩
  · cases ho with
    | request _ _ _ _ _ he => rw [he] at hevt; cases hevt
    | arrival _ _ _ _ _ hself =>
      have := hl.lt hk.heap
      lia
    | duplicate hev hread htype hsap hfind => exact ⟨_, _, _, _, _, hev, hread, htype, hsap, hfind⟩
    | @answer _ _ _ pdu _ _ _ _ _ htype _ _ _ _ _ _ he =>
      rw [he] at hevt
      cases hp : pdu.pdutype <;> rw [hp] at hevt htype <;> simp [PduType.evt] at hevt htype
    | timer _ _ _ _ _ he =>
      have := TmrName.evt_isTimer he
      rw [hevt] at this
      cases this
    | reply _ _ _ _ he => rw [he] at hevt; cases hevt
  · rw [hcur]
    cases s <;> simp [State.phase] at hp <;> simp

theorem marks_ret (h : ∀ x ∈ o, ∃ n, x = Out.ret n) : marks i o = [] := by
  refine List.filterMap_eq_nil_iff.2 fun x hx => ?_
  obtain ⟨n, rfl⟩ := h x hx
  rfl

/-- A machine that has just been created. -/
theorem Creates.move {loss : Bool} {sap : SapInfo} {d : TransDiag} (hk : Creates e f sap d)
    (hc : Common cfg inp f) : Move loss .unborn (marks f.c.self f.out) f.after.invoke.phase := by
  obtain ⟨act, s', ht⟩ := hk.takes
  have hphase : f.after.invoke.phase = s'.phase := by rw [ht.after_invoke]; rfl
  unfold Fire.out
  rw [marks_append, fire_marks_self hc, ht.tasks, hphase, hk.extra, ht.ret]
  have hevt := hk.evt
  by_cases hd : d.isPerformer = true
  · obtain ⟨-, h1, h2⟩ := row_arrival ht.row (by cases d <;> first | rfl | cases hd)
    rw [h1, h2]
    simp only [hd, if_true, marks_nil, List.append_nil]
    rcases told_cases f.c (invokeTask f.c) with h | ⟨h, -⟩ <;> rw [h]
    · exact .receive
    · exact .receiveLost
  · rw [if_neg hd] at hevt
    obtain ⟨h1, h2⟩ := row_request ht.row hevt
    rw [h1, h2, hk.self]
    simpa [hd, marks_cons, Out.mark] using Move.accept

/-- A machine that was there. -/
theorem Continues.move {loss : Bool} {v : InvokeInfo} {q : List TmrData} (hk : Continues e f v q)
    (hc : Common cfg inp f)
    (hloss : loss = false → ∀ s act s', f.Takes s act s' → s.phase = .ended true →
      inp.env.memGet = true) :
    Move loss v.phase (marks f.c.self f.out) f.after.invoke.phase := by
  have hv : v.phase = f.v.phase := by
    obtain ⟨a, b, hfv⟩ := hk.v
    rw [hfv]
    rfl
  unfold Fire.out
  rw [marks_append, fire_marks_self hc, marks_ret (hk.extra _), List.append_nil, hv]
  rcases f.cases with hn | ⟨s, act, s', ht⟩
  · rw [hn.after, hn.tasks]
    exact .stay _
  · have h1 : f.v.phase = s.phase := by unfold InvokeInfo.phase; rw [ht.cur]; rfl
    have h2 : f.after.invoke.phase = s'.phase := by rw [ht.after_invoke]; rfl
    rw [h1, h2, ht.tasks]
    refine row_move ht.row hk.evt fun hp hl => ?_
    rw [hc.memGet]
    exact hloss hl s act s' ht hp

/-- A machine touches no other invocation. -/
theorem Origin.phase_ne (ho : Origin cfg e inp f) (hi : i ≠ f.c.self) :
    f.engine.phase i = e.phase i := by
  unfold Engine.phase
  rw [Fire.engine_heap_ne hi, ho.heap_ne hi, Fire.engine_nextId]
  rcases ho.kind with ⟨sap, d, hk⟩ | ⟨v, q, hk⟩
  · have hn : f.e.nextId = e.nextId + 1 := by rw [hk.eng]; rfl
    rw [hk.self] at hi
    have : f.e.nextId ≤ i ↔ e.nextId ≤ i := by
      rw [hn]
      lia
    simp only [this]
  · rw [hk.eng]

theorem fire_move {loss : Bool} (h : WF e) (hf : fires cfg e inp = some f)
    (hloss : loss = false → Restarts e inp i → inp.env.memGet = true) :
    Move loss (e.phase i) (marks i f.out) (f.engine.phase i) := by
  obtain ⟨ho, hc⟩ := fires_origin hf
  have hl' := (h.fire hf).linked
  by_cases hi : i = f.c.self
  · subst hi
    rw [phase_of_heap hl' Fire.engine_heap_self]
    rcases ho.kind with ⟨sap, d, hk⟩ | ⟨v, q, hk⟩
    · rw [phase_unborn (Nat.le_of_eq hk.self.symm)]
      exact hk.move hc
    · rw [phase_of_heap h.linked hk.heap]
      exact hk.move hc fun hl s act s' ht hp => hloss hl (ho.restarts h.linked hk ht hp)
  · have hx : marks i (f.extra f.ret) = [] := by
      rcases ho.kind with ⟨sap, d, hk⟩ | ⟨v, q, hk⟩
      · rw [hk.self] at hi
        rw [hk.extra]
        dsimp only
        split
        · rfl
        · split
          · rfl
          · simp [marks, Out.mark, Ne.symm hi]
      · exact marks_ret (hk.extra _)
    unfold Fire.out
    rw [ho.phase_ne hi, marks_append, fire_marks_ne hc hi, hx]
    exact .stay _

theorem relInvoke_phase {j : InvokeId} (hi : i < e.nextId) :
    (e.relInvoke i).phase j = if j = i then .gone else e.phase j := by
  by_cases hj : j = i
  · rw [if_pos hj, hj]
    exact phase_gone hi (Function.update_self ..)
  · rw [if_neg hj]
    unfold Engine.phase
    have hh : (e.relInvoke i).heap j = e.heap j := Function.update_of_ne hj ..
    rw [hh]
    rfl

/-- The release of a live `InvokeInfo`, on an engine with the same machines. -/
theorem relInvoke_move {loss : Bool} {a : Engine} {j : InvokeId} {v : InvokeInfo} {l : List Out}
    (hl : Linked e) (hv : e.heap j = some v) (hh : a.heap = e.heap) (hn : a.nextId = e.nextId)
    (hm : marks i l = []) :
    Move loss (e.phase i) (marks i (.released j :: l)) ((a.relInvoke j).phase i) := by
  have ha : a.phase i = e.phase i := by unfold Engine.phase; rw [hh, hn]
  rw [relInvoke_phase (by rw [hn]; exact hl.lt hv), ha, marks_cons, hm]
  by_cases hj : i = j
  · subst hj
    have hne := v.phase_ne
    rw [phase_of_heap hl hv, if_pos rfl]
    simpa [Out.mark] using Move.free hne.1 hne.2
  · rw [if_neg hj]
    simpa [Out.mark, Ne.symm hj] using Move.stay (e.phase i)

theorem quiet_move {loss : Bool} (h : WF e) (hq : Quiet e inp e' o) :
    Move loss (e.phase i) (marks i o) (e'.phase i) := by
  cases hq with
  | nothing ho =>
    have : marks i o = [] := by
      refine List.filterMap_eq_nil_iff.2 fun x hx => ?_
      rcases ho x hx with ⟨n, rfl⟩ | ⟨a, b, c, d, rfl⟩ <;> rfl
    rw [this]
    exact .stay _
  | @leak sap hsap =>
    have hm : marks i [Out.ret (-1)] = [] := rfl
    rw [hm]
    by_cases hi : i = e.nextId
    · subst hi
      have hv : (e.invokeInfoCreate sap.id).heap e.nextId = some { locSap := sap.id } :=
        Function.update_self ..
      have hl := h.linked.withNew (v := { locSap := sap.id }) hsap rfl
      rw [← withNew_leak] at hl
      rw [phase_unborn (Nat.le_refl _), phase_of_heap hl hv]
      exact .leave
    · have hp : (e.invokeInfoCreate sap.id).phase i = e.phase i := by
        have hh : (e.invokeInfoCreate sap.id).heap i = e.heap i := Function.update_of_ne hi ..
        have hn : (e.invokeInfoCreate sap.id).nextId ≤ i ↔ e.nextId ≤ i := by
          show e.nextId + 1 ≤ i ↔ e.nextId ≤ i
          lia
        unfold Engine.phase
        simp only [hh, hn]
      rw [hp]
      exact .stay _
  | unknownTimer | callBack | bind | unbindEmpty => exact .stay _
  | release hqu hv => exact relInvoke_move h.linked hv rfl rfl rfl
  | @unbind sel sap j rest hev hsap hseq =>
    have hj : j ∈ sap.invokeSeq := by rw [hseq]; exact List.mem_cons_self
    obtain ⟨v, hv, -⟩ := (h.linked.mem sap (getSapInfo_mem hsap) j).1 hj
    exact relInvoke_move (a := { e with tmrQu := Function.update e.tmrQu j [] }) h.linked hv rfl rfl rfl

/-- **A step is a move** of every invocation. Without a restart that loses its indication it is
one of the protocol without loss. -/
theorem step_move {loss : Bool} (h : WF e) (hs : step cfg e inp = some (e', o))
    (hloss : loss = false → Restarts e inp i → inp.env.memGet = true) :
    Move loss (e.phase i) (marks i o) (e'.phase i) := by
  rcases step_cases hs with ⟨f, hf, rfl, rfl⟩ | ⟨-, hq⟩
  · exact fire_move h hf hloss
  · exact quiet_move h hq

/-- **Refinement.** The marks that a run leaves on an invocation are a trace of its life. -/
theorem Reach.life {loss : Bool} {ok : Engine → Input → Prop} {hist : List Out}
    (hr : Run.Reach (engine cfg) ok hist e)
    (hloss : loss = false → ∀ e inp, ok e inp → Restarts e inp i → inp.env.memGet = true) :
    Trace (Move loss) .unborn (marks i hist) (e.phase i) := by
  obtain ⟨e₀, ⟨newRef, rfl⟩, hx⟩ := hr
  have h0 : (Engine.init newRef).phase i = .unborn := phase_unborn (Nat.zero_le i)
  rw [← h0]
  refine hx.trace WF (·.phase i) (marks i) marks_nil marks_append (fun _ _ _ _ h _ hs => h.step hs) ?_
    (.init newRef)
  intro a inp b o h hok hs
  exact step_move h hs fun hl hre => hloss hl a inp hok hre

end Erop
