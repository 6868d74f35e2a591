import Emsd.Proof.Primitives

/-!
# What each action does

One specification per action: the `InvokeInfo` and the timers it leaves, and what it
adds to the outputs (`Does`). The two actions that also change the reference tables have
specifications of their own: INVOKE.request (`invokerInvokeReq_spec`) and the user's reply
(`performerResultReq_spec`).
-/

namespace Erop

open Ocp

variable {c : Ctx} {m m' : Machine}

/-- The timer that `erop_tmrCreate` adds to `tmrQu`, if it can. -/
def armed (c : Ctx) (name : TmrName) (time data : Int) : List TmrData :=
  if c.env.tmrCreate then [⟨name, time, data⟩] else []

/-- The call-back function that is scheduled, if there is memory for its arguments. -/
def indicated (c : Ctx) (task : Task) : List Out := if c.env.memGet then [.sch task] else []

/-- A PDU handed to UDP for the peer of an invocation. -/
def toPeer (c : Ctx) (v : InvokeInfo) (du : Octets) : Out :=
  .udp (some c.self) v.remTsapSel v.remNsapAddr du c.env.udpDataReq

/-- The machine becomes one with the given `InvokeInfo` and timers, and outputs are added. -/
structure Does (m m' : Machine) (invoke : InvokeInfo) (tmrQu : List TmrData) (out : List Out) :
    Prop where
  invoke : m'.invoke = invoke
  tmrQu : m'.tmrQu = tmrQu
  refs : m'.refs = m.refs
  out : m'.out = m.out ++ out

theorem Does.same : Does m m m.invoke m.tmrQu [] := ⟨rfl, rfl, rfl, by simp⟩

theorem append_armed {n : TmrName} {t d : Int} {q : List TmrData} :
    (if c.env.tmrCreate then q ++ [⟨n, t, d⟩] else q) = q ++ armed c n t d := by
  unfold armed; split <;> simp

attribute [local simp] resultInd errorInd failureInd invokeInd resultCnf errorCnf

/-! ## The invoker -/

theorem invokerRetran_does (h : c.tmrInfo.name = .invokePduRetranTimer) :
    Does m (invokerRetran c m).1 m.invoke
      (m.tmrQu ++
        if c.tmrInfo.datum ≥ m.invoke.nuOfRetrans then armed c .lastTimer m.invoke.rwait 0
        else armed c .invokePduRetranTimer m.invoke.retransTimeout (c.tmrInfo.datum + 1))
      (if c.tmrInfo.datum < m.invoke.nuOfRetrans ∧ c.env.tmrCreate ∧
          canRetrieve m m.invoke.invokePduSeq then
        [toPeer c m.invoke (m.invoke.invokePduSeq.headD [])] else []) := by
  unfold invokerRetran
  rw [if_neg (by simp [h])]
  by_cases hd : c.tmrInfo.datum ≥ m.invoke.nuOfRetrans
  · rw [if_pos hd, if_pos hd, if_neg (by omega)]
    exact ⟨rfl, append_armed, rfl, by simp⟩
  · rw [if_neg hd, if_neg hd]
    simp only [tmrCreate_snd, SuccFail.ofBool_eq_fail]
    cases ht : c.env.tmrCreate with
    | false => exact ⟨rfl, by simp [armed, ht], rfl, by simp⟩
    | true =>
      rw [if_neg (by simp)]
      set m₁ := (tmrCreate c m .invokePduRetranTimer m.invoke.retransTimeout
        (c.tmrInfo.datum + 1)).1 with hm₁
      have hq : m₁.tmrQu = m.tmrQu ++
          armed c .invokePduRetranTimer m.invoke.retransTimeout (c.tmrInfo.datum + 1) := append_armed
      have hlt : c.tmrInfo.datum < m.invoke.nuOfRetrans := by omega
      have hv : canRetrieve m₁ m₁.invoke.invokePduSeq = canRetrieve m m.invoke.invokePduSeq := rfl
      by_cases hc : canRetrieve m m.invoke.invokePduSeq = true
      · rw [pduRetrieve_some (hv.trans hc)]
        exact ⟨by simp [hm₁], by simp [hq], by simp [hm₁], by simp [hm₁, hlt, hc, toPeer]⟩
      · rw [Bool.not_eq_true] at hc
        rw [pduRetrieve_none (hv.trans hc)]
        exact ⟨by simp [hm₁], by simp [hq], by simp [hm₁], by simp [hm₁, hc]⟩

theorem invokerLast_does (h : c.tmrInfo.name = .lastTimer) :
    Does m (invokerLast c m).1 { relAllPdu m.invoke with failureReason := failureUserNotResponding }
      (m.tmrQu ++ armed c .refNuTimer m.invoke.refKeepTime 0)
      (indicated c (.failureInd c.self m.invoke.userInvokeRef failureUserNotResponding)) := by
  unfold invokerLast
  rw [if_neg (by simp [h])]
  dsimp only
  split <;> refine ⟨by simp, ?_, by simp, by simp [indicated, relAllPdu]⟩ <;>
    simp [append_armed, relAllPdu]

/-- The indication for a RESULT or an ERROR PDU. -/
def resultTask (c : Ctx) (v : InvokeInfo) : Task :=
  if c.pdu.pdutype = .result then
    .resultInd c.self v.userInvokeRef c.pdu.encodingType c.pdu.data
  else .errorInd c.self v.userInvokeRef c.pdu.encodingType c.pdu.errorValue c.pdu.data

theorem invokerResult_spec (h : isResultOrError c = true) :
    Does m (invokerResult c m).1 (resultFields c m.invoke) [] (indicated c (resultTask c m.invoke)) ∧
      (invokerResult c m).1.views = m.views ∧ (invokerResult c m).1.bufs = m.bufs ∧
      (invokerResult c m).2 = .ofBool c.env.memGet := by
  unfold invokerResult
  dsimp only
  split
  · rename_i hr
    refine ⟨⟨by simp, by simp, by simp, ?_⟩, by simp, by simp, by simp⟩
    simp [indicated, resultTask, hr, resultFields, tmrSetValues]
  · rename_i hr
    have he : c.pdu.pdutype = .error := by
      unfold isResultOrError at h
      simpa [hr] using h
    refine ⟨⟨by simp, by simp, by simp, ?_⟩, by simp, by simp, by simp⟩
    simp [indicated, resultTask, resultFields, tmrSetValues, he]

theorem trClInvoker04_does (h : isResultOrError c = true) :
    Does m (trClInvoker04 c m).1 (resultFields c m.invoke)
      (if c.env.memGet ∧ duAllocOk m.views m.bufs ∧ c.env.udpDataReq then
        armed c .inactivityTimer (resultFields c m.invoke).inactivityDelay 0 else [])
      (indicated c (resultTask c m.invoke) ++
        if duAllocOk m.views m.bufs then
          [toPeer c m.invoke (if c.env.memGet then [3, put1 c.pdu.invokeRefNu]
            else failureOctets c.pdu.invokeRefNu failureUserNotResponding)]
        else []) := by
  obtain ⟨⟨hi, ht, hr, ho⟩, hv, hb, hs⟩ := invokerResult_spec (m := m) h
  have hf : (resultFields c m.invoke).invokeRefNu = c.pdu.invokeRefNu ∧
      (resultFields c m.invoke).remTsapSel = m.invoke.remTsapSel ∧
      (resultFields c m.invoke).remNsapAddr = m.invoke.remNsapAddr := ⟨rfl, rfl, rfl⟩
  unfold trClInvoker04
  rw [if_neg (by simp [h])]
  dsimp only
  rw [hs]
  cases hg : c.env.memGet with
  | false =>
    rw [if_pos (by simp)]
    refine ⟨by simp [hi], by simp [ht], by simp [hr], ?_⟩
    rw [actSendFailurePdu_out, ho, hi, hv, hb]
    simp [toPeer, hf]
  | true =>
    rw [if_neg (by simp)]
    simp only [ackPdu_snd, hv, hb, hi]
    by_cases ha : duAllocOk m.views m.bufs = true
    · simp only [ha, if_true]
      cases hu : c.env.udpDataReq with
      | false =>
        rw [if_pos (by simp [hu])]
        exact ⟨by simp [hi], by simp [ht], by simp [hr], by simp [ho, hi, hf, toPeer, hu]⟩
      | true =>
        rw [if_neg (by simp [hu])]
        refine ⟨by simp [hi], ?_, by simp [hr], by simp [ho, hi, hf, toPeer, hu]⟩
        simp [ht, hi, armed]
    · simp only [ha]
      exact ⟨by simp [hi], by simp [ht], by simp [hr], by simp [ho]⟩

theorem tr2ClInvoker04_does (h : isResultOrError c = true) :
    Does m (tr2ClInvoker04 c m).1 (resultFields c m.invoke)
      (if c.env.memGet then armed c .refNuTimer (resultFields c m.invoke).refKeepTime 0 else [])
      (indicated c (resultTask c m.invoke)) := by
  obtain ⟨⟨hi, ht, hr, ho⟩, -, -, hs⟩ := invokerResult_spec (m := m) h
  unfold tr2ClInvoker04
  rw [if_neg (by simp [h])]
  dsimp only
  rw [hs]
  cases hg : c.env.memGet with
  | false => rw [if_pos (by simp)]; exact ⟨hi, by simp [ht], hr, ho⟩
  | true =>
    rw [if_neg (by simp)]
    exact ⟨hi, by simp [ht, hi, armed], hr, ho⟩

theorem invokerFailure_does (h : c.pdu.pdutype = .failure) :
    Does m (invokerFailure c m).1 m.invoke (armed c .refNuTimer m.invoke.refKeepTime 0)
      (indicated c (.failureInd c.self m.invoke.userInvokeRef m.invoke.failureReason)) := by
  unfold invokerFailure
  rw [if_neg (by simp [h])]
  dsimp only
  split <;> exact ⟨by simp, by simp [armed], by simp, by simp [indicated]⟩

theorem trClInvoker07_does (h : isResultOrError c = true) :
    Does m (trClInvoker07 c m).1 m.invoke
      (m.tmrQu.filter (·.name ≠ .inactivityTimer) ++
        armed c .inactivityTimer m.invoke.inactivityDelay 0)
      (if c.env.tmrCreate ∧ duAllocOk m.views m.bufs then
        [toPeer c m.invoke [3, put1 m.invoke.invokeRefNu]] else []) := by
  unfold trClInvoker07
  rw [if_neg (by simp [h])]
  dsimp only
  have hq : (tmrCancel m .inactivityTimer).tmrQu = m.tmrQu.filter (·.name ≠ .inactivityTimer) :=
    tmrCancel_tmrQu (by decide)
  cases ht : c.env.tmrCreate with
  | false => rw [if_pos (by simp [ht])]; exact ⟨by simp, by simp [armed, ht, hq], by simp, by simp⟩
  | true =>
    rw [if_neg (by simp [ht])]
    have hv : (tmrCreate c (tmrCancel m .inactivityTimer) .inactivityTimer
      (tmrCancel m .inactivityTimer).invoke.inactivityDelay 0).1.views = m.views := rfl
    have hb : (tmrCreate c (tmrCancel m .inactivityTimer) .inactivityTimer
      (tmrCancel m .inactivityTimer).invoke.inactivityDelay 0).1.bufs = m.bufs := rfl
    simp only [ackPdu_snd, hv, hb]
    by_cases ha : duAllocOk m.views m.bufs = true
    · simp only [ha, if_true]
      exact ⟨by simp, by simp [armed, ht, hq], by simp, by simp [toPeer]⟩
    · simp only [ha]
      exact ⟨by simp, by simp [armed, ht, hq], by simp, by simp⟩

theorem trClInvoker10_does (h : c.tmrInfo.name = .inactivityTimer) :
    Does m (trClInvoker10 c m).1 (relAllPdu m.invoke)
      (armed c .refNuTimer m.invoke.refKeepTime 0) [] := by
  unfold trClInvoker10
  rw [if_neg (by simp [h])]
  exact ⟨rfl, by simp [armed, relAllPdu], rfl, by simp⟩

theorem restartRefNuTimer_does {expected : Ctx → Bool} {name : TmrName} (h : expected c = true) :
    Does m (restartRefNuTimer expected name c m).1 m.invoke
      ((tmrCancel m name).tmrQu ++ armed c .refNuTimer m.invoke.refKeepTime 0) [] := by
  unfold restartRefNuTimer
  rw [if_neg (by simp [h])]
  exact ⟨rfl, append_armed, rfl, by simp⟩

theorem trClInvoker09_does (h : isResultOrError c = true) :
    Does m (trClInvoker09 c m).1 m.invoke
      (m.tmrQu.filter (·.name ≠ .refNuTimer) ++ armed c .refNuTimer m.invoke.refKeepTime 0) [] :=
  restartRefNuTimer_does h

theorem tr2ClInvoker06_does (h : isResultOrError c = true) :
    Does m (tr2ClInvoker06 c m).1 m.invoke (armed c .refNuTimer m.invoke.refKeepTime 0) [] :=
  restartRefNuTimer_does h

theorem lateInvoke_does (h : c.pdu.pdutype = .invoke) :
    Does m (trClPerformer07 c m).1 m.invoke
      (m.tmrQu.filter (·.name ≠ .refNuTimer) ++ armed c .refNuTimer m.invoke.refKeepTime 0) [] :=
  restartRefNuTimer_does (decide_eq_true h)

theorem lateAck_does (h : c.pdu.pdutype = .ack) :
    Does m (trClPerformer11 c m).1 m.invoke
      (m.tmrQu.filter (·.name ≠ .refNuTimer) ++ armed c .refNuTimer m.invoke.refKeepTime 0) [] :=
  restartRefNuTimer_does (decide_eq_true h)

theorem scheduleRelease_does (h : c.tmrInfo.name = .refNuTimer) :
    Does m (scheduleRelease c m).1 m.invoke m.tmrQu [.sch (.relInvoke c.self)] := by
  unfold scheduleRelease
  rw [if_neg (by simp [h])]
  exact ⟨rfl, rfl, rfl, rfl⟩

/-! ## The performer -/

/-- The indication for an INVOKE PDU. -/
def invokeTask (c : Ctx) : Task :=
  .invokeInd c.self c.locSapSel c.pdu.fromESROSap c.pdu.fromTsapSel c.pdu.fromNsapAddr
    c.pdu.operationValue c.pdu.encodingType c.pdu.data

theorem performerInvoke_does :
    Does m (performerInvoke c m).1 (invokeFields c m.invoke) m.tmrQu (indicated c (invokeTask c)) :=
  ⟨by simp [performerInvoke], by simp [performerInvoke], by simp [performerInvoke],
    by simp [performerInvoke, indicated, invokeTask, invokeFields, tmrSetValues]⟩

theorem trClPerformer01_does (h : c.pdu.pdutype = .invoke) :
    Does m (trClPerformer01 c m).1 (invokeFields c m.invoke)
      (m.tmrQu ++ if c.env.memGet ∧ c.cfg.noUpshell = false then
        armed c .perfNoResponseTimer (invokeFields c m.invoke).perfNoResponse 0 else [])
      (indicated c (invokeTask c) ++
        if c.env.memGet = false ∧ duAllocOk m.views m.bufs then
          [toPeer c (invokeFields c m.invoke)
            (failureOctets c.pdu.invokeRefNu failureUserNotResponding)]
        else []) := by
  obtain ⟨hi, ht, hr, ho⟩ := performerInvoke_does (c := c) (m := m)
  have hs : (performerInvoke c m).2 = .ofBool c.env.memGet := rfl
  have hv : (performerInvoke c m).1.views = m.views := rfl
  have hb : (performerInvoke c m).1.bufs = m.bufs := rfl
  unfold trClPerformer01
  rw [if_neg (by simp [h])]
  dsimp only
  rw [hs]
  cases hg : c.env.memGet with
  | false =>
    rw [if_pos (by simp)]
    refine ⟨by simp [hi], by simp [ht], by simp [hr], ?_⟩
    rw [actSendFailurePdu_out, ho, hi, hv, hb]
    simp [toPeer, invokeFields, tmrSetValues]
  | true =>
    rw [if_neg (by simp)]
    cases hn : c.cfg.noUpshell with
    | true => rw [if_pos rfl]; exact ⟨hi, by simp [ht], hr, by simp [ho]⟩
    | false =>
      rw [if_neg (by simp)]
      exact ⟨hi, by simp [ht, hi, append_armed], hr, by simp [ho]⟩

theorem tr2ClPerformer01_does (h : c.pdu.pdutype = .invoke) :
    Does m (tr2ClPerformer01 c m).1 (invokeFields c m.invoke)
      (m.tmrQu ++ if c.env.memGet then
        armed c .perfNoResponseTimer (invokeFields c m.invoke).perfNoResponse 0 else [])
      (indicated c (invokeTask c)) := by
  obtain ⟨hi, ht, hr, ho⟩ := performerInvoke_does (c := c) (m := m)
  have hs : (performerInvoke c m).2 = .ofBool c.env.memGet := rfl
  unfold tr2ClPerformer01
  rw [if_neg (by simp [h])]
  dsimp only
  rw [hs]
  cases hg : c.env.memGet with
  | false => rw [if_pos (by simp)]; exact ⟨hi, by simp [ht], hr, ho⟩
  | true => rw [if_neg (by simp)]; exact ⟨hi, by simp [ht, hi, append_armed], hr, ho⟩

theorem performerDropInvoke_does : Does m (performerDropInvoke c m).1 m.invoke m.tmrQu [] := by
  unfold performerDropInvoke; split <;> exact .same

/-- The confirmation of a reply. -/
def confirmTask (c : Ctx) (v : InvokeInfo) : Task :=
  if v.isResultNotError then .resultCnf c.self v.userInvokeRef
  else .errorCnf c.self v.userInvokeRef

theorem performerConfirm_does :
    Does m (performerConfirm c m).1
      { m.invoke with resultPduSeq := relPdu m.invoke.resultPduSeq }
      (armed c .refNuTimer m.invoke.refKeepTime 0) (indicated c (confirmTask c m.invoke)) := by
  unfold performerConfirm
  dsimp only [tmrCancel_invoke]
  by_cases hr : m.invoke.isResultNotError = true
  · simp only [hr, if_true]
    split <;> exact ⟨by simp, by simp [armed], by simp, by simp [indicated, confirmTask, hr]⟩
  · rw [Bool.not_eq_true] at hr
    simp only [hr, Bool.false_eq_true, if_false]
    split <;> exact ⟨by simp, by simp [armed], by simp, by simp [indicated, confirmTask, hr]⟩

theorem performerTransmissionFailure_does :
    Does m (performerTransmissionFailure c m).1
      { m.invoke with
        failureReason := failureTransmission
        resultPduSeq := relPdu m.invoke.resultPduSeq }
      (armed c .refNuTimer m.invoke.refKeepTime 0)
      (indicated c (.failureInd c.self m.invoke.userInvokeRef failureTransmission)) := by
  unfold performerTransmissionFailure
  dsimp only
  split <;> exact ⟨by simp, by simp [armed], by simp, by simp [indicated]⟩

/-- What the user is told, and what is stored, when the ACK PDU arrives. -/
theorem trClPerformer03_does :
    Does m (trClPerformer03 c m).1
      (if c.cfg.dropResultConfirm then
        { m.invoke with
          failureReason := failureTransmission
          resultPduSeq := relPdu (relPdu m.invoke.resultPduSeq) }
      else { m.invoke with resultPduSeq := relPdu m.invoke.resultPduSeq })
      (armed c .refNuTimer m.invoke.refKeepTime 0)
      (indicated c (if c.cfg.dropResultConfirm then
          .failureInd c.self m.invoke.userInvokeRef failureTransmission
        else confirmTask c m.invoke)) := by
  unfold trClPerformer03
  split
  · obtain ⟨hi, ht, hr, ho⟩ := performerTransmissionFailure_does (c := c)
      (m := { tmrCancel m .allTimer with
        invoke.resultPduSeq := relPdu (tmrCancel m .allTimer).invoke.resultPduSeq })
    exact ⟨hi, ht, hr, ho⟩
  · exact performerConfirm_does

theorem trClPerformer05_does :
    Does m (trClPerformer05 c m).1 m.invoke
      (m.tmrQu ++
        if c.tmrInfo.datum ≥ m.invoke.nuOfRetrans then armed c .lastTimer m.invoke.rwait 0
        else if canRetrieve m m.invoke.resultPduSeq then
          armed c .resultPduRetranTimer m.invoke.retransTimeout (c.tmrInfo.datum + 1)
        else [])
      (if c.tmrInfo.datum < m.invoke.nuOfRetrans ∧ canRetrieve m m.invoke.resultPduSeq then
        [toPeer c m.invoke (m.invoke.resultPduSeq.headD [])] else []) := by
  unfold trClPerformer05
  by_cases hd : c.tmrInfo.datum ≥ m.invoke.nuOfRetrans
  · rw [if_pos hd, if_pos hd, if_neg (by omega)]
    exact ⟨rfl, append_armed, rfl, by simp⟩
  · rw [if_neg hd, if_neg hd]
    have hlt : c.tmrInfo.datum < m.invoke.nuOfRetrans := by omega
    by_cases hc : canRetrieve m m.invoke.resultPduSeq = true
    · dsimp only
      rw [pduRetrieve_some hc]
      dsimp only
      split <;> exact ⟨by simp, by simp [append_armed], by simp, by simp [toPeer, hlt, hc]⟩
    · rw [Bool.not_eq_true] at hc
      dsimp only
      rw [pduRetrieve_none hc]
      exact ⟨by simp, by simp [hc], by simp, by simp [hc]⟩

theorem performerResendResult_does :
    Does m (performerResendResult c m).1 m.invoke
      (if canRetrieve m m.invoke.resultPduSeq ∧ c.env.udpDataReq then
        m.tmrQu.filter (·.name ≠ .resultPduRetranTimer) ++
          armed c .resultPduRetranTimer m.invoke.retransTimeout 0
      else m.tmrQu)
      (if canRetrieve m m.invoke.resultPduSeq then
        [toPeer c m.invoke (m.invoke.resultPduSeq.headD [])] else []) := by
  unfold performerResendResult
  dsimp only
  by_cases hc : canRetrieve m m.invoke.resultPduSeq = true
  · rw [pduRetrieve_some hc]
    dsimp only
    cases hu : c.env.udpDataReq with
    | false =>
      rw [if_pos (by simp [hu])]
      exact ⟨by simp, by simp, by simp, by simp [toPeer, hu, hc]⟩
    | true =>
      rw [if_neg (by simp [hu])]
      refine ⟨by simp, ?_, by simp, by simp [toPeer, hu, hc]⟩
      simp [append_armed, tmrCancel_tmrQu, hc]
  · rw [Bool.not_eq_true] at hc
    rw [pduRetrieve_none hc]
    exact ⟨by simp, by simp [hc], by simp, by simp [hc]⟩

theorem performerNoResponse_does :
    Does m (performerNoResponse c m).1
      { m.invoke with
        failureReason := failureLocResource
        invokePduSeq := relPdu m.invoke.invokePduSeq }
      []
      (indicated c (.failureInd c.self m.invoke.userInvokeRef failureLocResource) ++
        (if duAllocOk m.views m.bufs then
          [toPeer c m.invoke (failureOctets m.invoke.invokeRefNu failureUserNotResponding)]
        else []) ++ [.sch (.relInvoke c.self)]) := by
  unfold performerNoResponse
  refine ⟨rfl, rfl, by simp, ?_⟩
  simp only [schSubmit_out, tmrCancel_out, actSendFailurePdu_out, failureInd, indicate_out]
  simp only [List.append_assoc]
  rfl

/-! ## INVOKE.request -/

/-- There is a data unit for a PDU with the given data, and a view to retrieve it with. -/
def takesData (m : Machine) (data : Option Octets) : Bool :=
  match data with
  | some _ => 0 < m.views
  | none => duAllocOk m.views m.bufs && 1 < m.views

theorem duFor_snd_of_takesData {data : Option Octets} (h : takesData m data = true) :
    (duFor m data).2 = some (data.getD []) ∧ 0 < (duFor m data).1.views := by
  cases data with
  | some d =>
    have hv : 0 < m.views := by simpa [takesData] using h
    exact ⟨rfl, hv⟩
  | none =>
    simp only [takesData, Bool.and_eq_true, decide_eq_true_eq] at h
    exact ⟨by simp [duFor, h.1], by simp only [duFor]; omega⟩

theorem duFor_eq_some {data : Option Octets} {d : Octets} (h : (duFor m data).2 = some d) :
    d = data.getD [] := by
  cases data with
  | some x => simpa [duFor] using h.symm
  | none =>
    simp only [duFor] at h
    split at h
    · simpa using h.symm
    · simp at h

theorem sendAndArm_fst {du : Octets} {n : TmrName} {t : Int} :
    (sendAndArm c m du n t).1 = (tmrCreate c (udpDataReq c m du).1 n t 0).1 := by
  unfold sendAndArm; dsimp only; split <;> rfl

/-- What `erop_refNew` answers to an INVOKE.request. -/
def requestRef (c : Ctx) (m : Machine) : RefTables × Int :=
  refNew m.refs c.nsapOf c.self (invokeReqFields c m.invoke)

/-- The INVOKE PDU of a request. -/
def requestPdu (c : Ctx) (m : Machine) : Octets :=
  invokePci c.invokeReq.remESROSap (requestRef c m).2 c.invokeReq.opValue c.invokeReq.encodingType ++
    c.invokeReq.parameter.getD []

/-- The machine after an INVOKE.request: `kept`, `timers` and `out` are added to it. -/
structure Requested (c : Ctx) (m m' : Machine) (kept : List Octets) (timers : List TmrData)
    (out : List Out) : Prop where
  invoke : m'.invoke =
    { invokeReqFields c m.invoke with
      invokeRefNu := (requestRef c m).2
      invokePduSeq := m.invoke.invokePduSeq ++ kept }
  tmrQu : m'.tmrQu = m.tmrQu ++ timers
  refs : m'.refs = (requestRef c m).1
  out : m'.out = m.out ++ out

/-- The request is sent: its PDU is kept, handed to UDP, and the timer is armed if it can be. -/
structure RequestSent (c : Ctx) (m m' : Machine) : Prop extends
    Requested c m m' [requestPdu c m]
      (armed c .invokePduRetranTimer (invokeReqFields c m.invoke).retransTimeout 0)
      [toPeer c (invokeReqFields c m.invoke)
        ((m.invoke.invokePduSeq ++ [requestPdu c m]).headD [])] where
  number : (requestRef c m).2 ≠ -1

@[simp] theorem invokerKeep_tmrQu : (invokerKeep c m).1.tmrQu = m.tmrQu := by
  unfold invokerKeep; dsimp only; split <;> simp [keepInvokePdu]

@[simp] theorem invokerKeep_refs : (invokerKeep c m).1.refs = m.refs := by
  unfold invokerKeep; dsimp only; split <;> simp [keepInvokePdu]

@[simp] theorem invokerKeep_out : (invokerKeep c m).1.out = m.out := by
  unfold invokerKeep; dsimp only; split <;> simp [keepInvokePdu]

/-- The PDU that `invokerKeep` builds. -/
def keptPdu (c : Ctx) (m : Machine) : Octets :=
  invokePci m.invoke.remEsroSapSel m.invoke.invokeRefNu m.invoke.operationValue
    m.invoke.encodingType ++ c.invokeReq.parameter.getD []

theorem invokerKeep_cases (c : Ctx) (m : Machine) :
    ((invokerKeep c m).2 = none ∧ ((invokerKeep c m).1.invoke = m.invoke ∨
        (invokerKeep c m).1.invoke = (keepInvokePdu m (keptPdu c m)).invoke)) ∨
      ((invokerKeep c m).2 = some ((m.invoke.invokePduSeq ++ [keptPdu c m]).headD []) ∧
        (invokerKeep c m).1.invoke = (keepInvokePdu m (keptPdu c m)).invoke) := by
  unfold invokerKeep
  dsimp only
  split
  · exact .inl ⟨rfl, .inl (by simp)⟩
  · rename_i du hdu
    obtain ⟨d, hd, rfl⟩ := Option.map_eq_some_iff.1 hdu
    rw [duFor_eq_some hd]
    -- what is kept does not depend on the free lists
    set k := keepInvokePdu (invokePdu m m.invoke.remEsroSapSel m.invoke.invokeRefNu
      m.invoke.operationValue m.invoke.encodingType c.invokeReq.parameter).1 (keptPdu c m) with hk
    have hi : k.invoke = (keepInvokePdu m (keptPdu c m)).invoke := by simp [hk, keepInvokePdu]
    cases hr : (pduRetrieve k k.invoke.invokePduSeq).2 with
    | none => exact .inl ⟨hr, .inr ((pduRetrieve_invoke).trans hi)⟩
    | some du =>
      refine .inr ⟨hr.trans ?_, (pduRetrieve_invoke).trans hi⟩
      have hd := (pduRetrieve_eq_some.1 hr).2
      rw [hi] at hd
      have he : (m.invoke.invokePduSeq ++ [keptPdu c m]).head? = some du := hd
      rw [List.headD_eq_head?_getD, he]; rfl

theorem requested_assign : Requested c m (invokerAssign c m).1 [] [] [] :=
  ⟨by simp [invokerAssign, requestRef, invokeReqFields, tmrSetValues], by simp [invokerAssign], rfl,
    by simp [invokerAssign]⟩

theorem requested_keep
    (h : (invokerKeep c (invokerAssign c m).1).1.invoke =
      (keepInvokePdu (invokerAssign c m).1 (requestPdu c m)).invoke) :
    Requested c m (invokerKeep c (invokerAssign c m).1).1 [requestPdu c m] [] [] :=
  ⟨h, by simp [invokerAssign], by simp [invokerAssign, requestRef], by simp [invokerAssign]⟩

theorem requestSent_of_keep {k : Machine} {du : Octets}
    (href : (requestRef c m).2 ≠ -1)
    (hdu : du = (m.invoke.invokePduSeq ++ [requestPdu c m]).headD [])
    (hk : Requested c m k [requestPdu c m] [] []) :
    RequestSent c m (sendAndArm c k du .invokePduRetranTimer k.invoke.retransTimeout).1 := by
  subst hdu
  rw [sendAndArm_fst]
  refine ⟨⟨by simp [hk.invoke], ?_, by simp [hk.refs], ?_⟩, href⟩
  · simp [hk.tmrQu, append_armed, hk.invoke]
  · simp [hk.out, toPeer, hk.invoke]

/-- **INVOKE.request.** Either nothing happens, or a reference number is drawn, and then the
request is sent or an allocation on the way to `UDP_dataReq` has failed. -/
theorem invokerInvokeReq_spec (c : Ctx) (m : Machine) :
    (invokerInvokeReq c m).1 = m ∨ RequestSent c m (invokerInvokeReq c m).1 ∨
      ∃ kept, Requested c m (invokerInvokeReq c m).1 kept [] [] ∧
        (kept = [] ∨ (kept = [requestPdu c m] ∧ (requestRef c m).2 ≠ -1)) := by
  unfold invokerInvokeReq
  dsimp only
  split
  · exact .inl rfl
  have href : (invokerAssign c m).2 = (requestRef c m).2 := rfl
  rw [href]
  split
  · refine .inr (.inr ⟨[], ⟨?_, by simp [invokerAssign], rfl, by simp [invokerAssign]⟩, .inl rfl⟩)
    simp [invokerAssign, requestRef, invokeReqFields, tmrSetValues]
  rename_i hnum
  rcases invokerKeep_cases c (invokerAssign c m).1 with ⟨hn, hk⟩ | ⟨hs, hk⟩
  · rw [hn]
    refine .inr (.inr ?_)
    rcases hk with hk | hk
    · have := requested_assign (c := c) (m := m)
      exact ⟨[], ⟨hk.trans this.invoke, by simp [this.tmrQu], by simp [this.refs],
        by simp [this.out]⟩, .inl rfl⟩
    · exact ⟨_, requested_keep hk, .inr ⟨rfl, hnum⟩⟩
  · rw [hs]
    exact .inr (.inl (requestSent_of_keep hnum rfl (requested_keep hk)))

/-- **INVOKE.request, the good case**: with a number and the data units it needs, it is sent. -/
theorem invokerInvokeReq_sent
    (hsize : ((c.invokeReq.parameter.getD []).length : Int) ≤ c.cfg.invokePduSize)
    (href : (requestRef c m).2 ≠ -1) (hdata : takesData m c.invokeReq.parameter = true) :
    RequestSent c m (invokerInvokeReq c m).1 := by
  unfold invokerInvokeReq
  dsimp only
  rw [if_neg (by omega), if_neg (show (invokerAssign c m).2 ≠ -1 from href)]
  rcases invokerKeep_cases c (invokerAssign c m).1 with ⟨hn, -⟩ | ⟨hs, hk⟩
  · -- with a data unit and a view, neither the builder nor the retrieval fails
    exfalso
    obtain ⟨hd, hv⟩ := duFor_snd_of_takesData (m := (invokerAssign c m).1) hdata
    unfold invokerKeep at hn
    dsimp only at hn
    simp only [invokePdu, hd, Option.map_some] at hn
    rw [pduRetrieve_some (by simp [canRetrieve, keepInvokePdu, hv])] at hn
    simp at hn
  · rw [hs]
    exact requestSent_of_keep href rfl (requested_keep hk)

/-! ## RESULT.request and ERROR.request -/

/-- What `erop_refKeep` answers to a reply. -/
def replyRef (c : Ctx) (m : Machine) : RefTables × SuccFail :=
  refKeep m.refs c.nsapOf m.invoke.invokeRefNu c.self m.invoke

/-- The PDU of a reply. -/
def replyOctets (c : Ctx) (m : Machine) : Octets :=
  (if c.resultReq.isResultNotError then resultPci m.invoke.invokeRefNu c.resultReq.encodingType
    else errorPci m.invoke.invokeRefNu c.resultReq.encodingType c.resultReq.errorValue) ++
    c.resultReq.parameter.getD []

/-- The machine after a reply that `erop_refKeep` has accepted: `kept` and `out` are added. -/
structure Replied (c : Ctx) (m m' : Machine) (kept : List Octets) (tmrQu : List TmrData)
    (out : List Out) : Prop where
  invoke : m'.invoke =
    { tmrSetValues c.cfg (replyFields c m.invoke) with
      resultPduSeq := m.invoke.resultPduSeq ++ kept }
  tmrQu : m'.tmrQu = tmrQu
  refs : m'.refs = (replyRef c m).1
  out : m'.out = m.out ++ out
  accepted : (replyRef c m).2 = .success

/-- The reply is sent: its PDU is kept and handed to UDP; the timer `name` replaces the one that
guards against a silent user if it can be created. -/
def ReplySent (name : TmrName) (time : InvokeInfo → Int) (c : Ctx) (m m' : Machine) : Prop :=
  Replied c m m' [replyOctets c m]
    (if c.env.tmrCreate then
      List.filter (fun td : TmrData => td.name ≠ .perfNoResponseTimer)
        (m.tmrQu ++ [⟨name, time (tmrSetValues c.cfg m.invoke), 0⟩])
    else m.tmrQu)
    [toPeer c m.invoke ((m.invoke.resultPduSeq ++ [replyOctets c m]).headD [])]

@[simp] theorem replyPdu_invoke : (replyPdu c m).1.invoke = m.invoke := by
  unfold replyPdu; split <;> simp

@[simp] theorem replyPdu_tmrQu : (replyPdu c m).1.tmrQu = m.tmrQu := by
  unfold replyPdu; split <;> simp

@[simp] theorem replyPdu_refs : (replyPdu c m).1.refs = m.refs := by
  unfold replyPdu; split <;> simp

@[simp] theorem replyPdu_out : (replyPdu c m).1.out = m.out := by
  unfold replyPdu; split <;> simp

@[simp] theorem replyKeep_tmrQu : (replyKeep c m).1.tmrQu = m.tmrQu := by
  unfold replyKeep; dsimp only; split <;> simp [keepResultPdu]

@[simp] theorem replyKeep_refs : (replyKeep c m).1.refs = m.refs := by
  unfold replyKeep; dsimp only; split <;> simp [keepResultPdu]

@[simp] theorem replyKeep_out : (replyKeep c m).1.out = m.out := by
  unfold replyKeep; dsimp only; split <;> simp [keepResultPdu]

theorem replyPdu_eq_some {du : Octets}
    (hr : m.invoke.isResultNotError = c.resultReq.isResultNotError)
    (h : (replyPdu c m).2 = some du) : du = replyOctets c m := by
  unfold replyPdu at h
  unfold replyOctets
  rw [← hr]
  split at h
  · rename_i ht
    obtain ⟨d, hd, rfl⟩ := Option.map_eq_some_iff.1 h
    rw [duFor_eq_some hd, if_pos ht]
  · rename_i ht
    obtain ⟨d, hd, rfl⟩ := Option.map_eq_some_iff.1 h
    rw [duFor_eq_some hd, if_neg ht]

theorem replyKeep_cases (c : Ctx) (m : Machine)
    (hr : m.invoke.isResultNotError = c.resultReq.isResultNotError) :
    ((replyKeep c m).2 = none ∧ ((replyKeep c m).1.invoke = m.invoke ∨
        (replyKeep c m).1.invoke = (keepResultPdu m (replyOctets c m)).invoke)) ∨
      ((replyKeep c m).2 = some ((m.invoke.resultPduSeq ++ [replyOctets c m]).headD []) ∧
        (replyKeep c m).1.invoke = (keepResultPdu m (replyOctets c m)).invoke) := by
  unfold replyKeep
  dsimp only
  split
  · exact .inl ⟨rfl, .inl (by simp)⟩
  · rename_i du hdu
    rw [replyPdu_eq_some hr hdu]
    set k := keepResultPdu (replyPdu c m).1 (replyOctets c m) with hk
    have hi : k.invoke = (keepResultPdu m (replyOctets c m)).invoke := by simp [hk, keepResultPdu]
    cases hr : (pduRetrieve k k.invoke.resultPduSeq).2 with
    | none => exact .inl ⟨rfl, .inr ((pduRetrieve_invoke).trans hi)⟩
    | some du =>
      refine .inr ⟨?_, (pduRetrieve_invoke).trans hi⟩
      have hd := (pduRetrieve_eq_some.1 hr).2
      rw [hi] at hd
      have he : (m.invoke.resultPduSeq ++ [replyOctets c m]).head? = some du := hd
      rw [List.headD_eq_head?_getD, he]; rfl

/-- The machine once the reference number is registered. -/
def replyRegistered (c : Ctx) (m : Machine) : Machine :=
  { m with invoke := tmrSetValues c.cfg (replyFields c m.invoke), refs := (replyRef c m).1 }

theorem replied_registered (h : (replyRef c m).2 = .success) :
    Replied c m (replyRegistered c m) [] m.tmrQu [] :=
  ⟨by simp [replyRegistered, tmrSetValues, replyFields], rfl, rfl, by simp [replyRegistered], h⟩

theorem replied_keep (href : (replyRef c m).2 = .success)
    (h : (replyKeep c (replyRegistered c m)).1.invoke =
      (keepResultPdu (replyRegistered c m) (replyOctets c m)).invoke) :
    Replied c m (replyKeep c (replyRegistered c m)).1 [replyOctets c m] m.tmrQu [] :=
  ⟨h, by simp [replyRegistered], by simp [replyRegistered], by simp [replyRegistered], href⟩

theorem replySent_of_keep {name : TmrName} {time : InvokeInfo → Int} {k : Machine} {du : Octets}
    (htime : ∀ v, time (k.invoke) = time (tmrSetValues c.cfg v))
    (hdu : du = (m.invoke.resultPduSeq ++ [replyOctets c m]).headD [])
    (hk : Replied c m k [replyOctets c m] m.tmrQu []) :
    ReplySent name time c m (sendReply name time c k du).1 := by
  subst hdu
  unfold sendReply
  dsimp only
  cases ht : c.env.tmrCreate with
  | false =>
    rw [if_pos (by simp [ht])]
    refine ⟨by simp [hk.invoke], by simp [hk.tmrQu, ht], by simp [hk.refs], ?_, hk.accepted⟩
    simp [hk.out, toPeer, hk.invoke, tmrSetValues, replyFields]
  | true =>
    rw [if_neg (by simp [ht])]
    refine ⟨by simp [hk.invoke], ?_, by simp [hk.refs], ?_, hk.accepted⟩
    · rw [tmrCancel_tmrQu (by decide)]
      simp [hk.tmrQu, ht, htime m.invoke]
    · simp [hk.out, toPeer, hk.invoke, tmrSetValues, replyFields]

/-- The timer that a reply starts runs for a time that only depends on the configuration. -/
structure ReplyTimer (name : TmrName) (time : InvokeInfo → Int) : Prop where
  name : name ≠ .perfNoResponseTimer
  time : ∀ (c : Ctx) v w q, time { tmrSetValues c.cfg v with resultPduSeq := q } = time (tmrSetValues c.cfg w)

/-- **RESULT.request and ERROR.request.** Either the reference number is refused, or the reply is
sent, or an allocation on the way to `UDP_dataReq` has failed. -/
theorem performerResultReq_spec {name : TmrName} {time : InvokeInfo → Int}
    (hn : ReplyTimer name time) (c : Ctx) (m : Machine) :
    ((replyRef c m).2 = .fail ∧
        Does m (performerResultReq name time c m).1 (replyFields c m.invoke) m.tmrQu []) ∨
      ReplySent name time c m (performerResultReq name time c m).1 ∨
      ∃ kept, Replied c m (performerResultReq name time c m).1 kept m.tmrQu [] ∧
        (kept = [] ∨ kept = [replyOctets c m]) := by
  unfold performerResultReq
  dsimp only
  have href : refKeep m.refs c.nsapOf (replyFields c m.invoke).invokeRefNu c.self
      (replyFields c m.invoke) = replyRef c m := rfl
  rw [href]
  split
  · rename_i hf
    have hsame : (replyRef c m).1 = m.refs := by
      revert hf
      unfold replyRef refKeep
      split_ifs <;> simp
    exact .inl ⟨hf, rfl, rfl, hsame, by simp⟩
  rename_i hacc
  have hacc : (replyRef c m).2 = .success := by
    cases hs : (replyRef c m).2 with
    | success => rfl
    | fail => exact absurd hs hacc
  have hreg : ({ m with
      invoke := tmrSetValues c.cfg (replyFields c m.invoke)
      refs := (replyRef c m).1 } : Machine) = replyRegistered c m := rfl
  rw [hreg]
  have hres : (replyRegistered c m).invoke.isResultNotError = c.resultReq.isResultNotError := rfl
  rcases replyKeep_cases c (replyRegistered c m) hres with ⟨hq, hk⟩ | ⟨hs, hk⟩
  · rw [hq]
    refine .inr (.inr ?_)
    rcases hk with hk | hk
    · have := replied_registered hacc
      exact ⟨[], ⟨hk.trans this.invoke, by simp [this.tmrQu], by simp [this.refs],
        by simp [this.out], hacc⟩, .inl rfl⟩
    · exact ⟨_, replied_keep hacc hk, .inr rfl⟩
  · rw [hs]
    have hrep := replied_keep hacc hk
    refine .inr (.inl (replySent_of_keep (fun v => ?_) rfl hrep))
    rw [hrep.invoke]
    exact hn.time c _ _ _

/-- **A reply, the good case**: with its number free and the data units it needs, it is sent. -/
theorem performerResultReq_sent {name : TmrName} {time : InvokeInfo → Int}
    (hn : ReplyTimer name time) (href : (replyRef c m).2 = .success)
    (hdata : takesData m c.resultReq.parameter = true) :
    ReplySent name time c m (performerResultReq name time c m).1 := by
  unfold performerResultReq
  dsimp only
  have hk : refKeep m.refs c.nsapOf (replyFields c m.invoke).invokeRefNu c.self
      (replyFields c m.invoke) = replyRef c m := rfl
  have hreg : ({ m with
      invoke := tmrSetValues c.cfg (replyFields c m.invoke)
      refs := (replyRef c m).1 } : Machine) = replyRegistered c m := rfl
  have hres : (replyRegistered c m).invoke.isResultNotError = c.resultReq.isResultNotError := rfl
  rw [hk, if_neg (by simp [href]), hreg]
  rcases replyKeep_cases c (replyRegistered c m) hres with ⟨hq, -⟩ | ⟨hs, hk⟩
  · exfalso
    obtain ⟨hd, hv⟩ := duFor_snd_of_takesData (m := replyRegistered c m) hdata
    unfold replyKeep replyPdu at hq
    split at hq <;> simp only [resultPdu, errorPdu, hd, Option.map_some] at hq <;>
      rw [pduRetrieve_some (by simp [canRetrieve, keepResultPdu, hv])] at hq <;> simp at hq
  · rw [hs]
    have hrep := replied_keep href hk
    refine replySent_of_keep (fun v => ?_) rfl hrep
    rw [hrep.invoke]
    exact hn.time c _ _ _

end Erop
