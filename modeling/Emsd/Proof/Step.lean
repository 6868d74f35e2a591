import Emsd.Proof.ActionSpec

/-!
# What a step can do

Most events run one machine. `fires` is the part of `step` before the machine runs:
which `InvokeInfo` it is, on which engine, and with which event. `step_cases` inverts a
step: a machine has run, or the step is one of the few of `Quiet`. `Prep` says where the
machine that runs comes from.
-/

namespace Erop

open Ocp

/-- A machine about to run. -/
structure Fire where
  /-- the engine as the event's handler has left it -/
  e : Engine
  c : Ctx
  v : InvokeInfo
  evt : Evt
  /-- what the handler adds to the outputs, given what `FSM_runMachine` returned -/
  extra : SuccFail → List Out

namespace Fire

/-- The machine as its action finds it. -/
def before (f : Fire) : Machine := f.e.load f.c f.v

/-- The machine as its action leaves it. -/
def after (f : Fire) : Machine := (runMachine f.c f.before f.evt).1

def ret (f : Fire) : SuccFail := (runMachine f.c f.before f.evt).2

/-- The engine after the step, and the outputs of the step. -/
def engine (f : Fire) : Engine := f.e.store f.c.self f.after

def out (f : Fire) : List Out := f.after.out ++ f.extra f.ret

end Fire

/-- The machine that an event runs, if it runs one. -/
def fires (cfg : Config) (e : Engine) (inp : Input) : Option Fire :=
  match inp.ev with
  | .udpInd tsap nsap data =>
    (readPdu tsap nsap data).bind fun pdu =>
      let g := e.getInvoke inp.env pdu
      g.2.2.bind fun i => (g.1.heap i).map fun v =>
        ⟨g.1, { g.1.ctx cfg inp.env i v with pdu := pdu }, v, pdu.pdutype.evt, fun _ => []⟩
  | .tmrRsp i td =>
    if td ∈ e.tmrQu i then
      (e.heap i).bind fun v => td.name.evt.map fun evt =>
        let e' := { e with tmrQu := Function.update e.tmrQu i ((e.tmrQu i).erase td) }
        ⟨e', { e'.ctx cfg inp.env i v with tmrInfo := ⟨td.name, td.data⟩ }, v, evt, fun _ => []⟩
    else none
  | .invokeReq sel req =>
    (e.getSapInfo sel).bind fun sap =>
      if inp.env.seqElemObtain = false then none
      else if req.parameter.any fun d => (d.length : Int) > cfg.invokePduSize then none
      else
        let l := Engine.linkParameter inp.env req.parameter
        let e' := e.newInvoker sap
        (e'.heap e.nextId).map fun v =>
          ⟨e', { e'.ctx cfg l.1 e.nextId v with invokeReq := { req with parameter := l.2 } }, v,
            .invokeReq, fun r => if r = .fail then [.ret (-1)] else [.invokeDesc e.nextId, .ret 0]⟩
  | .resultReq i u enc p => replyFire i ⟨true, u, enc, 0, p⟩
  | .errorReq i u enc v p => replyFire i ⟨false, u, enc, v, p⟩
  | _ => none
where
  replyFire (i : InvokeId) (req : ResultReq) : Option Fire :=
    (e.heap i).map fun v =>
      let l := Engine.linkParameter inp.env req.parameter
      ⟨e, { e.ctx cfg l.1 i v with resultReq := { req with parameter := l.2 } }, v, .resultReq,
        fun r => [.ret (if r = .fail then -1 else 0)]⟩

/-- The steps that run no machine. -/
inductive Quiet (e : Engine) (inp : Input) : Engine → List Out → Prop
  /-- a PDU that is ignored or refused, or a request that fails at once -/
  | nothing {o} (ho : ∀ x ∈ o, (∃ r, x = .ret r) ∨ ∃ t n du s, x = .udp none t n du s) :
      Quiet e inp e o
  | leak {sap} (hsap : sap ∈ e.saps) : Quiet e inp (e.invokeInfoCreate sap.id) [.ret (-1)]
  | unknownTimer {i td v} (htd : td ∈ e.tmrQu i) (hv : e.heap i = some v)
      (hn : td.name.evt = none) :
      Quiet e inp { e with tmrQu := Function.update e.tmrQu i ((e.tmrQu i).erase td) } []
  | release {i rest v sap} (hqu : e.schQu = .relInvoke i :: rest) (hv : e.heap i = some v)
      (hsap : e.sapOf v.locSap = some sap) :
      Quiet e inp (({ e with schQu := rest } : Engine).relInvoke i) [.released i]
  | callBack {t rest v sap} (hqu : e.schQu = t :: rest) (ht : ∀ i, t ≠ .relInvoke i)
      (hv : e.heap t.invoke = some v) (hsap : e.sapOf v.locSap = some sap) :
      Quiet e inp { e with schQu := rest } [.cb t]
  | bind {sap : SapInfo} (hid : sap.id = e.nextSap) (hseq : sap.invokeSeq = [])
      (hsel : e.getSapInfo sap.sapSel = none) :
      Quiet e inp { e with saps := e.saps ++ [sap], nextSap := e.nextSap + 1 } [.ret 0]
  | unbindEmpty {sap} (hsap : sap ∈ e.saps) (hseq : sap.invokeSeq = []) :
      Quiet e inp (e.dropSap sap.id) [.ret 0]
  | unbind {sel sap i rest} (hev : inp.ev = .sapUnbind sel) (hsap : e.getSapInfo sel = some sap)
      (hseq : sap.invokeSeq = i :: rest) :
      Quiet e inp
        ((({ e with tmrQu := Function.update e.tmrQu i [] } : Engine).relInvoke i).dropSap sap.id)
        [.released i, .ret 0]

namespace Engine

theorem getSapInfo_mem {e : Engine} {sel : SapSel} {sap : SapInfo}
    (h : e.getSapInfo sel = some sap) : sap ∈ e.saps :=
  List.mem_of_find?_eq_some h

theorem refuse_udp {env : Env} {pdu : Pdu} {r : Int} :
    ∀ x ∈ refuse env pdu r, (∃ r, x = Out.ret r) ∨ ∃ t n du s, x = .udp none t n du s := by
  intro x hx
  unfold refuse sendFailurePdu at hx
  split at hx
  · simp only [List.mem_singleton] at hx
    exact .inr ⟨_, _, _, _, hx⟩
  · simp at hx

/-- A PDU for which there is no machine changes nothing. -/
theorem getInvoke_none {e : Engine} {env : Env} {pdu : Pdu} (h : (e.getInvoke env pdu).2.2 = none) :
    (e.getInvoke env pdu).1 = e ∧
      ∀ x ∈ (e.getInvoke env pdu).2.1, (∃ r, x = Out.ret r) ∨ ∃ t n du s, x = .udp none t n du s := by
  revert h
  unfold getInvoke
  split
  · split
    · exact fun _ => ⟨rfl, refuse_udp⟩
    · split
      · simp
      · split
        · simp
        · exact fun _ => ⟨rfl, refuse_udp⟩
  · simp
  · split
    · exact fun _ => ⟨rfl, refuse_udp⟩
    · simp
  · split
    · exact fun _ => ⟨rfl, refuse_udp⟩
    · simp
  · split
    · simp
    · split
      · simp
      · split <;> simp

end Engine

variable {cfg : Config} {e e' : Engine} {inp : Input} {o : List Out}

/-- **Inversion of a step.** -/
theorem step_cases (h : step cfg e inp = some (e', o)) :
    (∃ f, fires cfg e inp = some f ∧ e' = f.engine ∧ o = f.out) ∨
      (fires cfg e inp = none ∧ Quiet e inp e' o) := by
  obtain ⟨ev, env⟩ := inp
  cases ev with
  | udpInd tsap nsap data =>
    simp only [step, Engine.lowerDataInd] at h
    simp only [fires]
    cases hp : readPdu tsap nsap data with
    | none =>
      rw [hp] at h
      obtain ⟨rfl, rfl⟩ : e = e' ∧ [] = o := by simpa using h
      exact .inr ⟨rfl, .nothing (by simp)⟩
    | some pdu =>
      rw [hp] at h
      simp only [Engine.pduInd] at h
      cases hi : (e.getInvoke env pdu).2.2 with
      | none =>
        rw [hi] at h
        obtain ⟨rfl, rfl⟩ := Prod.mk.inj (Option.some.inj h)
        obtain ⟨he, ho⟩ := Engine.getInvoke_none hi
        rw [he]
        exact .inr ⟨by simp [hi], .nothing ho⟩
      | some i =>
        rw [hi] at h
        simp only at h
        cases hv : (e.getInvoke env pdu).1.heap i with
        | none => rw [hv] at h; simp at h
        | some v =>
          rw [hv] at h
          obtain ⟨rfl, rfl⟩ := Prod.mk.inj (Option.some.inj h)
          refine .inl ⟨⟨(e.getInvoke env pdu).1,
            { (e.getInvoke env pdu).1.ctx cfg env i v with pdu := pdu }, v, pdu.pdutype.evt,
            fun _ => []⟩, ?_, rfl, (List.append_nil _).symm⟩
          simp [hi, hv]
  | tmrRsp i td =>
    simp only [step, Engine.timerRsp] at h
    simp only [fires]
    split_ifs at h with htd
    rw [if_pos htd]
    cases hv : e.heap i with
    | none => rw [hv] at h; simp at h
    | some v =>
      rw [hv] at h
      simp only at h
      cases hn : td.name.evt with
      | none =>
        rw [hn] at h
        obtain ⟨rfl, rfl⟩ := Prod.mk.inj (Option.some.inj h)
        exact .inr ⟨rfl, .unknownTimer htd hv hn⟩
      | some evt =>
        rw [hn] at h
        obtain ⟨rfl, rfl⟩ := Prod.mk.inj (Option.some.inj h)
        exact .inl ⟨_, rfl, rfl, (List.append_nil _).symm⟩
  | schRun =>
    simp only [step, Engine.schRun] at h
    refine .inr ⟨rfl, ?_⟩
    cases hq : e.schQu with
    | nil => rw [hq] at h; simp at h
    | cons t rest =>
      rw [hq] at h
      simp only at h
      cases hv : e.heap t.invoke with
      | none => rw [hv] at h; simp at h
      | some v =>
        rw [hv] at h
        simp only at h
        split_ifs at h with hs
        obtain ⟨sap, hs⟩ := Option.ne_none_iff_exists'.1 (by simpa using hs)
        cases t with
        | relInvoke i =>
          obtain ⟨rfl, rfl⟩ := Prod.mk.inj (Option.some.inj h)
          exact .release hq hv hs
        | _ =>
          obtain ⟨rfl, rfl⟩ := Prod.mk.inj (Option.some.inj h)
          exact .callBack hq (by simp) hv hs
  | invokeReq sel req =>
    simp only [step, Engine.invokeReq] at h
    simp only [fires]
    cases hs : e.getSapInfo sel with
    | none =>
      rw [hs] at h
      obtain ⟨rfl, rfl⟩ := Prod.mk.inj (Option.some.inj h)
      exact .inr ⟨rfl, .nothing (by simp)⟩
    | some sap =>
      rw [hs] at h
      simp only at h
      simp only [Option.bind_some]
      split_ifs at h ⊢ with h1 h2
      · obtain ⟨rfl, rfl⟩ := Prod.mk.inj (Option.some.inj h)
        exact .inr ⟨rfl, .nothing (by simp)⟩
      · obtain ⟨rfl, rfl⟩ := Prod.mk.inj (Option.some.inj h)
        exact .inr ⟨rfl, .leak (Engine.getSapInfo_mem hs)⟩
      · cases hv : (e.newInvoker sap).heap e.nextId with
        | none => rw [hv] at h; simp at h
        | some v =>
          rw [hv] at h
          obtain ⟨rfl, rfl⟩ := Prod.mk.inj (Option.some.inj h)
          exact .inl ⟨_, rfl, rfl, rfl⟩
  | resultReq i u enc p =>
    simp only [step, Engine.resultReq, Engine.replyReq] at h
    simp only [fires, fires.replyFire]
    cases hv : e.heap i with
    | none => rw [hv] at h; simp at h
    | some v =>
      rw [hv] at h
      obtain ⟨rfl, rfl⟩ := Prod.mk.inj (Option.some.inj h)
      exact .inl ⟨_, rfl, rfl, rfl⟩
  | errorReq i u enc w p =>
    simp only [step, Engine.errorReq, Engine.replyReq] at h
    simp only [fires, fires.replyFire]
    cases hv : e.heap i with
    | none => rw [hv] at h; simp at h
    | some v =>
      rw [hv] at h
      obtain ⟨rfl, rfl⟩ := Prod.mk.inj (Option.some.inj h)
      exact .inl ⟨_, rfl, rfl, rfl⟩
  | sapBind sel fu =>
    simp only [step, Engine.sapBind] at h
    refine .inr ⟨rfl, ?_⟩
    split_ifs at h with h1 h2 h3 h4 h5 <;> obtain ⟨rfl, rfl⟩ := Prod.mk.inj (Option.some.inj h)
    · exact .nothing (by simp)
    · exact .nothing (by simp)
    · exact .nothing (by simp)
    · exact .nothing (by simp)
    · exact .nothing (by simp)
    all_goals exact .bind rfl rfl (by simpa using h4)
  | sapUnbind sel =>
    simp only [step, Engine.sapUnbind] at h
    refine .inr ⟨rfl, ?_⟩
    cases hs : e.getSapInfo sel with
    | none =>
      rw [hs] at h
      obtain ⟨rfl, rfl⟩ := Prod.mk.inj (Option.some.inj h)
      exact .nothing (by simp)
    | some sap =>
      rw [hs] at h
      simp only at h
      cases hq : sap.invokeSeq with
      | nil =>
        rw [hq] at h
        obtain ⟨rfl, rfl⟩ := Prod.mk.inj (Option.some.inj h)
        exact .unbindEmpty (Engine.getSapInfo_mem hs) hq
      | cons i rest =>
        rw [hq] at h
        obtain ⟨rfl, rfl⟩ := Prod.mk.inj (Option.some.inj h)
        exact .unbind rfl hs hq

/-- A received PDU for which there is a machine is handled. -/
theorem step_of_fires {f : Fire} {tsap : TSapSel} {nsap : NSapAddr} {data : DU}
    (hev : inp.ev = .udpInd tsap nsap data) (h : fires cfg e inp = some f) :
    step cfg e inp = some (f.engine, f.out) := by
  obtain ⟨ev, env⟩ := inp
  subst hev
  simp only [fires, Option.bind_eq_some_iff, Option.map_eq_some_iff] at h
  obtain ⟨pdu, hread, i, hi, v, hv, rfl⟩ := h
  simp only [step, Engine.lowerDataInd, hread, Engine.pduInd, hi, hv]
  exact congrArg (fun o => some (_, o)) (List.append_nil _).symm

/-! ## Where the machine that runs comes from -/

/-- Whether an event is one of a received PDU, and of which types. -/
def Ctx.Fits (c : Ctx) : Evt → Prop
  | .pduInvoke => c.pdu.pdutype = .invoke
  | .pduResult => isResultOrError c = true
  | .pduAck => c.pdu.pdutype = .ack
  | .pduFailure => c.pdu.pdutype = .failure
  | .invokePduRetranTimer => c.tmrInfo.name = .invokePduRetranTimer
  | .resultPduRetranTimer => c.tmrInfo.name = .resultPduRetranTimer
  | .refNuTimer => c.tmrInfo.name = .refNuTimer
  | .inactivityTimer => c.tmrInfo.name = .inactivityTimer
  | .lastTimer => c.tmrInfo.name = .lastTimer
  | .perfNoResponseTimer => c.tmrInfo.name = .perfNoResponseTimer
  | .invokeReq | .resultReq | .internal => True

/-- The events of timers. -/
def Evt.isTimer : Evt → Bool
  | invokePduRetranTimer | resultPduRetranTimer | refNuTimer => true
  | inactivityTimer | lastTimer | perfNoResponseTimer => true
  | _ => false

theorem TmrName.evt_isTimer {n : TmrName} {evt : Evt} (h : n.evt = some evt) :
    evt.isTimer = true := by
  cases n <;> simp [TmrName.evt] at h <;> subst h <;> rfl

/-- Where the machine of a step comes from: a request or an INVOKE PDU has just created it
(`request`, `arrival`), or it was there (`duplicate`, `answer`, `timer`, `reply`). -/
inductive Origin (cfg : Config) (e : Engine) (inp : Input) (f : Fire) : Prop
  | request {sel req sap} (hev : inp.ev = .invokeReq sel req) (hsap : e.getSapInfo sel = some sap)
      (hself : f.c.self = e.nextId) (he : f.e = e.newInvoker sap) (hv : f.v = Engine.invokerInfo sap)
      (hevt : f.evt = .invokeReq)
      (hreq : f.c.invokeReq =
        { req with parameter := (Engine.linkParameter inp.env req.parameter).2 })
      (hextra : f.extra = fun r =>
        if r = .fail then [.ret (-1)] else [.invokeDesc e.nextId, .ret 0])
  | arrival {tsap nsap data pdu sap} (hev : inp.ev = .udpInd tsap nsap data)
      (hread : readPdu tsap nsap data = some pdu) (htype : pdu.pdutype = .invoke)
      (hsap : e.getSapInfo pdu.toESROSap = some sap)
      (hnew : ∀ i ∈ sap.invokeSeq, e.isDuplicate pdu i = false)
      (hself : f.c.self = e.nextId) (he : f.e = e.newPerformer sap)
      (hv : f.v = Engine.performerInfo sap) (hevt : f.evt = .pduInvoke) (hpdu : f.c.pdu = pdu)
      (hextra : f.extra = fun _ => []) (hobtain : inp.env.seqElemObtain = true)
  | duplicate {tsap nsap data pdu sap} (hev : inp.ev = .udpInd tsap nsap data)
      (hread : readPdu tsap nsap data = some pdu) (htype : pdu.pdutype = .invoke)
      (hsap : e.getSapInfo pdu.toESROSap = some sap)
      (hfind : sap.invokeSeq.find? (e.isDuplicate pdu) = some f.c.self)
      (he : f.e = e) (hv : e.heap f.c.self = some f.v) (hevt : f.evt = .pduInvoke)
      (hpdu : f.c.pdu = pdu) (hextra : f.extra = fun _ => [])
  | answer {tsap nsap data pdu v errorValue failureReason}
      (hev : inp.ev = .udpInd tsap nsap data) (hread : readPdu tsap nsap data = some pdu)
      (htype : pdu.pdutype ≠ .invoke)
      (hack : pdu.pdutype = .ack →
        refToPerformer e.refs e.nsapOf pdu.invokeRefNu pdu.fromNsapAddr = some f.c.self)
      (hres : pdu.pdutype ≠ .ack →
        refToInvoker e.refs e.nsapOf pdu.invokeRefNu pdu.fromNsapAddr = some f.c.self)
      (hfail : pdu.pdutype = .failure → v.invokeRefNu = pdu.invokeRefNu)
      (hold : e.heap f.c.self = some v)
      (hv : f.v = { v with errorValue := errorValue, failureReason := failureReason })
      (he : f.e = { e with heap := Function.update e.heap f.c.self (some f.v) })
      (hevt : f.evt = pdu.pdutype.evt) (hpdu : f.c.pdu = pdu) (hextra : f.extra = fun _ => [])
  | timer {i td} (hev : inp.ev = .tmrRsp i td) (hself : f.c.self = i) (htd : td ∈ e.tmrQu i)
      (he : f.e = { e with tmrQu := Function.update e.tmrQu i ((e.tmrQu i).erase td) })
      (hv : e.heap i = some f.v) (hevt : td.name.evt = some f.evt)
      (htmr : f.c.tmrInfo = ⟨td.name, td.data⟩) (hextra : f.extra = fun _ => [])
  | reply {i} {req : ResultReq} (hev : (∃ u enc p, inp.ev = .resultReq i u enc p ∧ req = ⟨true, u, enc, 0, p⟩) ∨
        ∃ u enc w p, inp.ev = .errorReq i u enc w p ∧ req = ⟨false, u, enc, w, p⟩)
      (hself : f.c.self = i) (he : f.e = e) (hv : e.heap i = some f.v) (hevt : f.evt = .resultReq)
      (hreq : f.c.resultReq =
        { req with parameter := (Engine.linkParameter inp.env req.parameter).2 })
      (hextra : f.extra = fun r => [.ret (if r = .fail then -1 else 0)])

/-- The event at hand decides what the machine's context holds besides. -/
structure Common (cfg : Config) (inp : Input) (f : Fire) : Prop where
  cfg : f.c.cfg = cfg
  memGet : f.c.env.memGet = inp.env.memGet
  udpDataReq : f.c.env.udpDataReq = inp.env.udpDataReq
  tmrCreate : f.c.env.tmrCreate = inp.env.tmrCreate
  nsapOf : f.c.nsapOf = f.e.nsapOf
  locSapSel : f.c.locSapSel = ((f.e.sapOf f.v.locSap).map (·.sapSel)).getD 0
  fits : f.c.Fits f.evt

theorem pdu_fits {c : Ctx} {pdu : Pdu} (h : c.pdu = pdu) : c.Fits pdu.pdutype.evt := by
  cases hp : pdu.pdutype <;> simp [PduType.evt, Ctx.Fits, isResultOrError, h, hp]

theorem tmr_fits {c : Ctx} {n : TmrName} {evt : Evt} (h : c.tmrInfo.name = n)
    (he : n.evt = some evt) : c.Fits evt := by
  cases n <;> simp only [TmrName.evt, Option.some.injEq, reduceCtorEq] at he <;> subst he <;> exact h

theorem linkParameter_env (env : Env) (p : Option Octets) :
    (Engine.linkParameter env p).1.memGet = env.memGet ∧
      (Engine.linkParameter env p).1.udpDataReq = env.udpDataReq ∧
      (Engine.linkParameter env p).1.tmrCreate = env.tmrCreate := by
  cases p <;> exact ⟨rfl, rfl, rfl⟩

theorem heap_update_self {e : Engine} {i : InvokeId} {v : InvokeInfo} (h : e.heap i = some v) :
    ({ e with heap := Function.update e.heap i (some v) } : Engine) = e := by
  rw [← h, Function.update_eq_self]

/-- **Where the machine comes from.** -/
theorem fires_origin {f : Fire} (h : fires cfg e inp = some f) :
    Origin cfg e inp f ∧ Common cfg inp f := by
  obtain ⟨ev, env⟩ := inp
  cases ev with
  | udpInd tsap nsap data =>
    simp only [fires, Option.bind_eq_some_iff, Option.map_eq_some_iff] at h
    obtain ⟨pdu, hread, i, hi, v, hv, rfl⟩ := h
    refine ⟨?_, rfl, rfl, rfl, rfl, rfl, rfl, pdu_fits rfl⟩
    unfold Engine.getInvoke at hi hv ⊢
    cases ht : pdu.pdutype with
    | invoke =>
      simp only [ht] at hi hv ⊢
      cases hs : e.getSapInfo pdu.toESROSap with
      | none => simp [hs] at hi
      | some sap =>
        simp only [hs] at hi hv ⊢
        cases hf : sap.invokeSeq.find? (e.isDuplicate pdu) with
        | some j =>
          simp only [hf] at hi hv ⊢
          obtain rfl : j = i := by simpa using hi
          exact .duplicate rfl hread ht hs hf rfl hv rfl rfl rfl
        | none =>
          simp only [hf] at hi hv ⊢
          split_ifs at hi hv ⊢ with hob
          · obtain rfl : e.nextId = i := by simpa using hi
            have hvp : v = Engine.performerInfo sap := by
              simpa [Engine.newPerformer] using hv.symm
            refine .arrival rfl hread ht hs ?_ rfl rfl hvp rfl rfl rfl hob
            intro j hj
            simpa using List.find?_eq_none.1 hf j hj
    | ack =>
      simp only [ht] at hi hv ⊢
      refine .answer rfl hread (by simp [ht]) (fun _ => hi) (fun h => absurd ht h) (by simp [ht]) hv
        rfl (heap_update_self hv).symm (by simp [ht]) rfl rfl
    | result =>
      simp only [ht] at hi hv ⊢
      cases hr : refToInvoker e.refs e.nsapOf pdu.invokeRefNu pdu.fromNsapAddr with
      | none => simp [hr] at hi
      | some j =>
        simp only [hr] at hi hv ⊢
        obtain rfl : j = i := by simpa using hi
        exact .answer rfl hread (by simp [ht]) (by simp [ht]) (fun _ => hr) (by simp [ht]) hv
          rfl (heap_update_self hv).symm (by simp [ht]) rfl rfl
    | error =>
      simp only [ht] at hi hv ⊢
      cases hr : refToInvoker e.refs e.nsapOf pdu.invokeRefNu pdu.fromNsapAddr with
      | none => simp [hr] at hi
      | some j =>
        simp only [hr] at hi hv ⊢
        obtain rfl : j = i := by simpa using hi
        cases hold : e.heap j with
        | none => simp [Engine.setErrorValue, hold] at hv
        | some v₀ =>
          have hv' : v = { v₀ with errorValue := pdu.errorValue } := by
            simpa [Engine.setErrorValue, hold] using hv.symm
          refine .answer rfl hread (by simp [ht]) (by simp [ht]) (fun _ => hr) (by simp [ht]) hold
            hv' ?_ (by simp [ht]) rfl rfl
          simp only [Engine.setErrorValue, hold, hv', Option.map_some]
          rfl
    | failure =>
      simp only [ht] at hi hv ⊢
      cases hr : refToInvoker e.refs e.nsapOf pdu.invokeRefNu pdu.fromNsapAddr with
      | none => simp [hr] at hi
      | some j =>
        simp only [hr] at hi hv ⊢
        cases hold : e.heap j with
        | none => simp [hold] at hi
        | some v₀ =>
          simp only [hold] at hi hv ⊢
          split_ifs at hi hv ⊢ with hne
          obtain rfl : j = i := by simpa using hi
          have hv' : v = { v₀ with failureReason := pdu.failureValue } := by
            simpa [Engine.setFailureReason, hold] using hv.symm
          refine .answer rfl hread (by simp [ht]) (by simp [ht]) (fun _ => hr)
            (fun _ => by simpa using hne) hold hv' ?_ (by simp [ht]) rfl rfl
          simp only [Engine.setFailureReason, hold, hv', Option.map_some]
          rfl
  | tmrRsp i td =>
    simp only [fires] at h
    split_ifs at h with htd
    simp only [Option.bind_eq_some_iff, Option.map_eq_some_iff] at h
    obtain ⟨v, hv, evt, hevt, rfl⟩ := h
    exact ⟨.timer rfl rfl htd rfl hv hevt rfl rfl, rfl, rfl, rfl, rfl, rfl, rfl, tmr_fits rfl hevt⟩
  | invokeReq sel req =>
    simp only [fires, Option.bind_eq_some_iff] at h
    obtain ⟨sap, hs, h⟩ := h
    split_ifs at h with h1 h2
    obtain ⟨v, hv, rfl⟩ := Option.map_eq_some_iff.1 h
    have hv' : v = Engine.invokerInfo sap := by simpa [Engine.newInvoker] using hv.symm
    obtain ⟨l1, l2, l3⟩ := linkParameter_env env req.parameter
    exact ⟨.request rfl hs rfl rfl hv' rfl rfl rfl, rfl, l1, l2, l3, rfl, rfl, trivial⟩
  | resultReq i u enc p =>
    obtain ⟨v, hv, rfl⟩ := Option.map_eq_some_iff.1 h
    obtain ⟨l1, l2, l3⟩ := linkParameter_env env p
    exact ⟨.reply (.inl ⟨u, enc, p, rfl, rfl⟩) rfl rfl hv rfl rfl rfl, rfl, l1, l2, l3, rfl, rfl,
      trivial⟩
  | errorReq i u enc w p =>
    obtain ⟨v, hv, rfl⟩ := Option.map_eq_some_iff.1 h
    obtain ⟨l1, l2, l3⟩ := linkParameter_env env p
    exact ⟨.reply (.inr ⟨u, enc, w, p, rfl, rfl⟩) rfl rfl hv rfl rfl rfl, rfl, l1, l2, l3, rfl, rfl,
      trivial⟩
  | schRun => simp [fires] at h
  | sapBind => simp [fires] at h
  | sapUnbind => simp [fires] at h

end Erop
