import Emsd.Safety.Headers
import Emsd.Safety.Retransmissions

/-!
# Where an invocation and its PDUs come from

What the log of an engine tells of a live `InvokeInfo`. An invoker carries out the INVOKE.request that
has created it (`CarriesOut`); a performer has been called with an INVOKE PDU, and what it keeps are
replies of its user (`Serves`). An invoker that acknowledges has reported a result or an error to its
user (`AckOk`).
-/

namespace Erop

open Ocp FunctionalUnit Engine Life Run

variable {cfg : Config} {e e' : Engine} {inp : Input} {f : Fire} {o : List Out} {i k : InvokeId}
  {c : Ctx} {m : Machine} {s s' : State} {evt : Evt} {act : Machine → Machine × SuccFail}
  {v v' : InvokeInfo} {du : Octets} {t : TSapSel} {n : NSapAddr} {pdu : Pdu} {task : Task}
  {env : Env} {log log' : Log} {req : InvokeReq} {rep : ResultReq}

/-! ## What a log tells -/

/-- The invocation `k` has been made for an INVOKE.request. -/
def Asked (log : Log) (k : InvokeId) (req : InvokeReq) : Prop :=
  ∃ sel env o, (⟨.invokeReq sel req, env⟩, o) ∈ log ∧ .invokeDesc k ∈ o

/-- The user has answered the invocation `i`. -/
def Answered (log : Log) (i : InvokeId) (rep : ResultReq) : Prop :=
  ∃ ev env o, (⟨ev, env⟩, o) ∈ log ∧ Replies i ev rep

/-- The INVOKE.indication for a PDU. -/
def indicationOf (i : InvokeId) (pdu : Pdu) : Task :=
  .invokeInd i pdu.toESROSap pdu.fromESROSap pdu.fromTsapSel pdu.fromNsapAddr pdu.operationValue
    pdu.encodingType pdu.data

/-- The datagram of a PDU has arrived, with these outputs. -/
def Arrived (log : Log) (pdu : Pdu) (env : Env) (o : List Out) : Prop :=
  ∃ data, (⟨.udpInd pdu.fromTsapSel pdu.fromNsapAddr data, env⟩, o) ∈ log ∧
    readPdu pdu.fromTsapSel pdu.fromNsapAddr data = some pdu

/-- An INVOKE PDU has been taken for the invocation `i`, which is indicated if there is memory. -/
def Called (log : Log) (i : InvokeId) (pdu : Pdu) : Prop :=
  pdu.pdutype = .invoke ∧ ∃ env o, Arrived log pdu env o ∧
    (env.memGet = true → .sch (indicationOf i pdu) ∈ o)

/-- The indication for a RESULT or an ERROR PDU, to the user that knows the invocation as `u`. -/
def replyOf (k : InvokeId) (u : UserInvokeRef) (pdu : Pdu) : Task :=
  if pdu.pdutype = .result then .resultInd k u pdu.encodingType pdu.data
  else .errorInd k u pdu.encodingType pdu.errorValue pdu.data

/-- The first RESULT or ERROR PDU has been taken for the invocation `k`, and it is indicated if there
is memory. -/
def Reported (log : Log) (k : InvokeId) (pdu : Pdu) : Prop :=
  pdu.pdutype.evt = .pduResult ∧ ∃ u env o, Arrived log pdu env o ∧
    (env.memGet = true → .sch (replyOf k u pdu) ∈ o)

theorem Asked.mono (hl : log ⊆ log') (h : Asked log k req) : Asked log' k req := by
  obtain ⟨sel, env, o, hm, hd⟩ := h
  exact ⟨sel, env, o, hl hm, hd⟩

theorem Answered.mono (hl : log ⊆ log') (h : Answered log i rep) : Answered log' i rep := by
  obtain ⟨ev, env, o, hm, hr⟩ := h
  exact ⟨ev, env, o, hl hm, hr⟩

theorem Arrived.mono (hl : log ⊆ log') (h : Arrived log pdu env o) : Arrived log' pdu env o := by
  obtain ⟨data, hm, hread⟩ := h
  exact ⟨data, hl hm, hread⟩

theorem Called.mono (hl : log ⊆ log') (h : Called log i pdu) : Called log' i pdu := by
  obtain ⟨htype, env, o, ha, ho⟩ := h
  exact ⟨htype, env, o, ha.mono hl, ho⟩

theorem Reported.mono (hl : log ⊆ log') (h : Reported log k pdu) : Reported log' k pdu := by
  obtain ⟨htype, u, env, o, ha, ho⟩ := h
  exact ⟨htype, u, env, o, ha.mono hl, ho⟩

/-! ## What the rows leave alone -/

/-- The user's reference of an invoker and the port of the peer stay as the INVOKE.request or the
INVOKE PDU has stored them. -/
structure Stored (c : Ctx) (s : State) (v v' : InvokeInfo) : Prop where
  user : s.isPerformer = false → v'.userInvokeRef = v.userInvokeRef
  port : v'.remTsapSel = if s.phase = .ended true then c.pdu.fromTsapSel else v.remTsapSel

theorem Stored.of_eq {w : InvokeInfo} (h : v' = w) (hu : w.userInvokeRef = v.userInvokeRef)
    (ht : w.remTsapSel = v.remTsapSel) (hs : s.phase ≠ .ended true) : Stored c s v v' := by
  rw [h]
  exact ⟨fun _ => hu, by rw [if_neg hs, ht]⟩

theorem reply_stored {name : TmrName} {time : InvokeInfo → Int} (hn : ReplyTimer name time)
    (hp : s.isPerformer = true) (hs : s.phase ≠ .ended true) :
    Stored c s m.invoke (performerResultReq name time c m).1.invoke := by
  refine ⟨fun h => absurd (hp.symm.trans h) (by decide), ?_⟩
  rw [if_neg hs]
  rcases performerResultReq_spec hn c m with ⟨-, h⟩ | h | ⟨_, h, -⟩ <;> rw [h.invoke] <;> rfl

theorem row_stored (h : Row c s evt act s') (hf : c.Fits evt) (hreq : evt ≠ .invokeReq) :
    Stored c s m.invoke (act m).1.invoke := by
  cases h with
  | invokeReq fu => exact absurd rfl hreq
  | retran fu => exact .of_eq (invokerRetran_does hf).invoke rfl rfl (by cases fu <;> decide)
  | last fu => exact .of_eq (invokerLast_does hf).invoke rfl rfl (by cases fu <;> decide)
  | result => exact .of_eq (trClInvoker04_does hf).invoke rfl rfl (by decide)
  | result2 => exact .of_eq (tr2ClInvoker04_does hf).invoke rfl rfl (by decide)
  | failure fu => exact .of_eq (invokerFailure_does hf).invoke rfl rfl (by cases fu <;> decide)
  | holdOn => exact .of_eq rfl rfl rfl (by decide)
  | dupResult => exact .of_eq (trClInvoker07_does hf).invoke rfl rfl (by decide)
  | inactivity => exact .of_eq (trClInvoker10_does hf).invoke rfl rfl (by decide)
  | lateResult => exact .of_eq (trClInvoker09_does hf).invoke rfl rfl (by decide)
  | lateResult2 => exact .of_eq (tr2ClInvoker06_does hf).invoke rfl rfl (by decide)
  | invokerRelease fu =>
    exact .of_eq (scheduleRelease_does hf).invoke rfl rfl (by cases fu <;> decide)
  | invoke =>
    rw [(trClPerformer01_does hf).invoke]
    exact ⟨nofun, rfl⟩
  | invoke2 =>
    rw [(tr2ClPerformer01_does hf).invoke]
    exact ⟨nofun, rfl⟩
  | resultReq => exact reply_stored replyTimer_retran rfl (by decide)
  | resultReq2 => exact reply_stored replyTimer_inactivity rfl (by decide)
  | dupInvoke fu => exact .of_eq performerDropInvoke_does.invoke rfl rfl (by cases fu <;> decide)
  | noResponse fu | internal fu =>
    exact .of_eq performerNoResponse_does.invoke rfl rfl (by cases fu <;> decide)
  | ack =>
    have hi := trClPerformer03_does (c := c) (m := m).invoke
    split at hi <;> exact .of_eq hi rfl rfl (by decide)
  | resultRetran => exact .of_eq trClPerformer05_does.invoke rfl rfl (by decide)
  | resultLast => exact .of_eq performerTransmissionFailure_does.invoke rfl rfl (by decide)
  | resend fu => exact .of_eq performerResendResult_does.invoke rfl rfl (by cases fu <;> decide)
  | inactivity2 => exact .of_eq performerConfirm_does.invoke rfl rfl (by decide)
  | lateInvoke fu => exact .of_eq (lateInvoke_does hf).invoke rfl rfl (by cases fu <;> decide)
  | lateAck => exact .of_eq (lateAck_does hf).invoke rfl rfl (by decide)
  | performerRelease fu =>
    exact .of_eq (scheduleRelease_does hf).invoke rfl rfl (by cases fu <;> decide)

/-! ## The PDU of a step -/

theorem readPdu_from {data : DU} (h : readPdu t n data = some pdu) :
    pdu.fromTsapSel = t ∧ pdu.fromNsapAddr = n ∧ pdu.invokeRefNu = (data.get1 1).toNat := by
  unfold readPdu at h
  split at h
  · cases h
  · dsimp only at h
    split at h
    all_goals first
      | (obtain rfl := Option.some.inj h
         exact ⟨rfl, rfl, rfl⟩)
      | cases h

theorem readPdu_refNu {data : DU} (h : readPdu t n data = some pdu) :
    pdu.invokeRefNu = (data.get1 1).toNat := (readPdu_from h).2.2

theorem readPdu_number {data : DU} (h : readPdu t n data = some pdu) :
    ∃ r : Nat, r < totalRefNumbers ∧ pdu.invokeRefNu = r :=
  ⟨(data.get1 1).toNat, (data.get1 1).toNat_lt, readPdu_refNu h⟩

/-- The machine runs on a PDU that has arrived. -/
structure Fire.RunsOn (f : Fire) (inp : Input) (data : DU) : Prop where
  ev : inp.ev = .udpInd f.c.pdu.fromTsapSel f.c.pdu.fromNsapAddr data
  read : readPdu f.c.pdu.fromTsapSel f.c.pdu.fromNsapAddr data = some f.c.pdu
  evt : f.evt = f.c.pdu.pdutype.evt

theorem Fire.RunsOn.of_read {data : DU} (hev : inp.ev = .udpInd t n data)
    (hread : readPdu t n data = some pdu) (hpdu : f.c.pdu = pdu) (hevt : f.evt = pdu.pdutype.evt) :
    f.RunsOn inp data := by
  obtain ⟨rfl, rfl, -⟩ := readPdu_from hread
  rw [← hpdu] at hev hread hevt
  exact ⟨hev, hread, hevt⟩

/-- Every event of a PDU is one that has arrived. -/
theorem Origin.runsOn (ho : Origin cfg e inp f)
    (hevt : f.evt ≠ .invokeReq ∧ f.evt ≠ .resultReq ∧ f.evt.isTimer = false) :
    ∃ data, f.RunsOn inp data := by
  cases ho with
  | request _ _ _ _ _ he => exact absurd he hevt.1
  | arrival hev hread htype _ _ _ _ _ he hpdu =>
    exact ⟨_, .of_read hev hread hpdu (by rw [he, htype]; rfl)⟩
  | duplicate hev hread htype _ _ _ _ he hpdu =>
    exact ⟨_, .of_read hev hread hpdu (by rw [he, htype]; rfl)⟩
  | answer hev hread _ _ _ _ _ _ _ he hpdu => exact ⟨_, .of_read hev hread hpdu he⟩
  | timer _ _ _ _ _ he =>
    have := TmrName.evt_isTimer he
    rw [hevt.2.2] at this
    cases this
  | reply _ _ _ _ he => exact absurd he hevt.2.1

/-- The event of an INVOKE.request. -/
theorem Origin.requests (ho : Origin cfg e inp f) (hevt : f.evt = .invokeReq) :
    ∃ sel req, inp.ev = .invokeReq sel req := by
  cases ho with
  | request hev => exact ⟨_, _, hev⟩
  | arrival _ _ _ _ _ _ _ _ he | duplicate _ _ _ _ _ _ _ he | reply _ _ _ _ he =>
    rw [hevt] at he
    cases he
  | answer _ _ _ _ _ _ _ _ _ he =>
    rw [hevt] at he
    exact absurd he.symm (PduType.evt_isTimer _).2
  | timer _ _ _ _ _ he =>
    rw [hevt] at he
    exact absurd (TmrName.evt_isTimer he) (by decide)

/-- The event of a RESULT.request or an ERROR.request. -/
theorem Origin.replies (ho : Origin cfg e inp f) (hevt : f.evt = .resultReq) :
    ∃ rep, Replies f.c.self inp.ev rep := by
  cases ho with
  | reply hev hself =>
    rw [hself]
    rcases hev with ⟨u, enc, p, hev, -⟩ | ⟨u, enc, w, p, hev, -⟩ <;> rw [hev]
    · exact ⟨_, .result u enc p⟩
    · exact ⟨_, .error u enc w p⟩
  | request _ _ _ _ _ he | arrival _ _ _ _ _ _ _ _ he | duplicate _ _ _ _ _ _ _ he =>
    rw [hevt] at he
    cases he
  | @answer _ _ _ pdu _ _ _ _ _ _ _ _ _ _ _ _ he =>
    rw [hevt] at he
    cases hp : pdu.pdutype <;> rw [hp] at he <;> cases he
  | timer _ _ _ _ _ he =>
    rw [hevt] at he
    exact absurd (TmrName.evt_isTimer he) (by decide)

theorem Fire.RunsOn.arrived {data : DU} (h : f.RunsOn inp data) (hl : (inp, o) ∈ log) :
    Arrived log f.c.pdu inp.env o := by
  obtain ⟨ev, env⟩ := inp
  obtain rfl := h.ev
  exact ⟨data, hl, h.read⟩

/-- A machine that was there before runs on a PDU of its own number and peer. -/
theorem Origin.peer_of_live {w : InvokeInfo} (ho : Origin cfg e inp f) (hw : WF e)
    (hheap : e.heap f.c.self = some w) : f.evt ≠ .invokeReq ∧ PduForPeer f.c f.evt f.v := by
  refine (hw.refs.peer ho).resolve_left fun hn => ?_
  have hlt := hw.linked.lt hheap
  lia

/-- A RESULT, an ERROR or an ACK PDU is taken for the invocation that has its number with the host it
comes from. -/
theorem Origin.answered (ho : Origin cfg e inp f) (hevt : f.evt = .pduResult ∨ f.evt = .pduAck) :
    ∃ r : Nat, f.c.pdu.invokeRefNu = r ∧ r < totalRefNumbers ∧
      (f.evt = .pduResult → f.c.self ∈ e.refs.invoker r) ∧
      (f.evt = .pduAck → f.c.self ∈ e.refs.performer r) ∧
      f.c.pdu.fromNsapAddr ≠ [] ∧ ∃ w, e.heap f.c.self = some w ∧
        w.remNsapAddr = f.c.pdu.fromNsapAddr ∧ f.v.remNsapAddr = w.remNsapAddr ∧
        f.v.userInvokeRef = w.userInvokeRef := by
  cases ho with
  | @answer _ _ _ pdu w _ _ _ _ htype hack hres _ hold hv _ he hpdu =>
    have haddr : e.nsapOf f.c.self = w.remNsapAddr := by simp [Engine.nsapOf, hold]
    -- a number is looked up together with the host that the PDU comes from
    have hfound : ∀ {map : RefMap}, refTo map e.nsapOf pdu.invokeRefNu pdu.fromNsapAddr = some f.c.self →
        ∃ r : Nat, pdu.invokeRefNu = r ∧ r < totalRefNumbers ∧ f.c.self ∈ map r ∧
          w.remNsapAddr = pdu.fromNsapAddr ∧ pdu.fromNsapAddr ≠ [] := by
      intro map h
      obtain ⟨r, hr, hlt, hmem, hcmp⟩ := refTo_some h
      rw [haddr] at hcmp
      obtain ⟨hsame, hne⟩ := nSapAddrCmp_eq_zero.1 hcmp
      exact ⟨r, hr, hlt, hmem, hsame, hsame ▸ hne⟩
    rw [hpdu]
    by_cases hp : pdu.pdutype = .ack
    · obtain ⟨r, hr, hlt, hmem, hsame, hne⟩ := hfound (hack hp)
      refine ⟨r, hr, hlt, fun hres => ?_, fun _ => hmem, hne, w, hold, hsame, by rw [hv], by rw [hv]⟩
      rw [he, hp] at hres
      cases hres
    · obtain ⟨r, hr, hlt, hmem, hsame, hne⟩ := hfound (hres hp)
      refine ⟨r, hr, hlt, fun _ => hmem, fun hack => absurd ?_ hp, hne, w, hold, hsame, by rw [hv],
        by rw [hv]⟩
      rw [he] at hack
      cases hp : pdu.pdutype <;> rw [hp] at hack <;> first | rfl | cases hack
  | request _ _ _ _ _ he | arrival _ _ _ _ _ _ _ _ he | duplicate _ _ _ _ _ _ _ he
  | reply _ _ _ _ he =>
    rcases hevt with hevt | hevt <;> rw [hevt] at he <;> cases he
  | timer _ _ _ _ _ he =>
    have htimer := TmrName.evt_isTimer he
    rcases hevt with hevt | hevt <;> rw [hevt] at htimer <;> cases htimer

/-- The SAP of an INVOKE PDU is the one that it names. -/
theorem Origin.locSapSel (hl : Linked e) (ho : Origin cfg e inp f) (hc : Common cfg inp f)
    (hevt : f.evt = .pduInvoke) : f.c.locSapSel = f.c.pdu.toESROSap := by
  have hsel : ∀ {sap : SapInfo} {sel : SapSel}, e.getSapInfo sel = some sap → sap.sapSel = sel :=
    fun h => by simpa using List.find?_some h
  have hl' := hl.origin ho
  rw [hc.locSapSel]
  cases ho with
  | request _ _ _ _ _ he => rw [hevt] at he; cases he
  | @arrival _ _ _ pdu sap _ _ _ hsap _ _ he hv _ hpdu =>
    have hmem : { sap with invokeSeq := sap.invokeSeq ++ [e.nextId] } ∈ f.e.saps := by
      rw [he]
      exact List.mem_map.2 ⟨sap, getSapInfo_mem hsap, if_pos rfl⟩
    have hof := hl'.sapOf_eq hmem
    rw [hv, hpdu]
    have hnamed : sap.sapSel = pdu.toESROSap := hsel hsap
    exact (congrArg (fun x => (Option.map SapInfo.sapSel x).getD 0) hof).trans hnamed
  | @duplicate _ _ _ pdu sap _ _ _ hsap hfind he hv _ hpdu =>
    -- the performer that has got this PDU before is one of the same SAP
    have hmem := getSapInfo_mem hsap
    obtain ⟨w, hw, hloc⟩ := (hl.mem sap hmem _).1 (List.mem_of_find?_eq_some hfind)
    obtain rfl : f.v = w := Option.some.inj (hv.symm.trans hw)
    rw [he, hloc, hl.sapOf_eq hmem, hpdu]
    exact hsel hsap
  | @answer _ _ _ pdu _ _ _ _ _ htype _ _ _ _ _ _ he =>
    rw [hevt] at he
    cases hp : pdu.pdutype <;> rw [hp] at he htype <;> simp [PduType.evt] at he htype
  | timer _ _ _ _ _ he =>
    have := TmrName.evt_isTimer he
    rw [hevt] at this
    cases this
  | reply _ _ _ _ he => rw [hevt] at he; cases he

/-- A machine that starts on an INVOKE PDU has been called with it. -/
theorem Fire.Takes.called (hw : WF e) (hf : fires cfg e inp = some f) (ht : f.Takes s act s')
    (hs : s.phase = .ended true) (hlog : (inp, f.out) ∈ log) : Called log f.c.self f.c.pdu := by
  obtain ⟨ho, hc⟩ := fires_origin hf
  obtain ⟨hevt, -, htasks⟩ := row_arrival ht.row hs
  obtain ⟨data, hr⟩ := ho.runsOn (by rw [hevt]; decide)
  have htype : f.c.pdu.pdutype = .invoke := by
    have := hc.fits
    rwa [hevt] at this
  refine ⟨htype, inp.env, f.out, hr.arrived hlog, fun hmem => ?_⟩
  have hsub : invokeTask f.c ∈ submitted f.after.out := by
    rw [fire_submitted hc, ht.tasks, htasks, told, if_pos (hc.memGet.trans hmem)]
    exact List.mem_singleton_self _
  have htask : indicationOf f.c.self f.c.pdu = invokeTask f.c := by
    unfold indicationOf invokeTask
    rw [ho.locSapSel hw.linked hc hevt]
  rw [htask]
  exact List.mem_append_left _ (mem_submitted.2 hsub)

/-! ## What the log tells of an `InvokeInfo` -/

/-- The invoker `i` carries out the INVOKE.request that has created it. -/
structure CarriesOut (log : Log) (i : InvokeId) (v : InvokeInfo) (req : InvokeReq) : Prop where
  asked : Asked log i req
  user : v.userInvokeRef = req.userInvokeRef
  port : v.remTsapSel = req.remTsap
  host : v.remNsapAddr = req.remNsap
  kept : ∀ du ∈ v.invokePduSeq, du = builtRequest req v.invokeRefNu

/-- The performer `i` serves the INVOKE PDU that it has been called with. -/
structure Serves (log : Log) (i : InvokeId) (v : InvokeInfo) : Prop where
  called : ∃ pdu, Called log i pdu ∧ pdu.invokeRefNu = v.invokeRefNu ∧
    pdu.fromTsapSel = v.remTsapSel ∧ pdu.fromNsapAddr = v.remNsapAddr
  kept : ∀ du ∈ v.resultPduSeq, ∃ rep, Answered log i rep ∧ du = builtReply rep v.invokeRefNu

/-- An `InvokeInfo` that is neither has no peer and keeps no PDU. -/
structure Proven (log : Log) (i : InvokeId) (v : InvokeInfo) : Prop where
  invoker : v.performingNotInvoking = false →
    (v.remNsapAddr = [] ∧ v.invokePduSeq = []) ∨ ∃ req, CarriesOut log i v req
  performer : v.performingNotInvoking = true → Serves log i v

theorem Proven.mono (hl : log ⊆ log') (h : Proven log i v) : Proven log' i v := by
  refine ⟨fun hrole => ?_, fun hrole => ?_⟩
  · rcases h.invoker hrole with hn | ⟨req, hreq⟩
    · exact .inl hn
    · exact .inr ⟨req, { hreq with asked := hreq.asked.mono hl }⟩
  · obtain ⟨⟨pdu, hc, hp⟩, hkept⟩ := h.performer hrole
    refine ⟨⟨pdu, hc.mono hl, hp⟩, fun du hd => ?_⟩
    obtain ⟨rep, ha, hdu⟩ := hkept du hd
    exact ⟨rep, ha.mono hl, hdu⟩

/-- The state of the machine, and what the receive path stores, do not matter. -/
theorem Proven.congr (h : Proven log i v) (w r : Int) (x : Option State) :
    Proven log i { v with errorValue := w, failureReason := r, curState := x } := by
  refine ⟨fun hrole => ?_, fun hrole => ?_⟩
  · rcases h.invoker hrole with hn | ⟨req, ha, hu, ht, hn, hk⟩
    · exact .inl hn
    · exact .inr ⟨req, ha, hu, ht, hn, hk⟩
  · obtain ⟨hc, hk⟩ := h.performer hrole
    exact ⟨hc, hk⟩

/-- An `InvokeInfo` that a failed INVOKE.request has left behind. -/
theorem Proven.idle (hrole : v.performingNotInvoking = false) (hn : v.remNsapAddr = [])
    (hk : v.invokePduSeq = []) : Proven log i v := by
  refine ⟨fun _ => .inl ⟨hn, hk⟩, fun h => ?_⟩
  rw [hrole] at h
  cases h

theorem Proven.of_carriesOut (hrole : v.performingNotInvoking = false) (h : CarriesOut log i v req) :
    Proven log i v := by
  refine ⟨fun _ => .inr ⟨req, h⟩, fun hp => ?_⟩
  rw [hrole] at hp
  cases hp

theorem Proven.of_serves (hrole : v.performingNotInvoking = true) (h : Serves log i v) :
    Proven log i v := by
  refine ⟨fun hp => ?_, fun _ => h⟩
  rw [hrole] at hp
  cases hp

theorem isPerformer_of_ended (hs : s.phase = .ended true) : s.isPerformer = true := by
  cases s <;> first | rfl | cases hs

section

variable (hrow : Row c s evt act s') (hf : c.Fits evt) (hreq : evt ≠ .invokeReq)
include hrow hf hreq

/-- An invoker goes on with its request. -/
theorem Proven.invoker_row (hp : PduForPeer c evt m.invoke) (hs : s.isPerformer = false)
    (hrole : m.invoke.performingNotInvoking = s.isPerformer) (h : Proven log i m.invoke) :
    Proven log i (act m).1.invoke := by
  have hpeer := row_peer (m := m) hrow hf hreq hp
  have hstored := row_stored (m := m) hrow hf hreq
  have hsub : ∀ du ∈ (act m).1.invoke.invokePduSeq, du ∈ m.invoke.invokePduSeq := fun du hd =>
    ((row_keeps (m := m) hrow hf).invoke du hd).resolve_right fun hn => hreq hn.1
  have hrole' : (act m).1.invoke.performingNotInvoking = false := by
    rw [(row_owner (m := m) hrow hf).performing, hrole, hs]
  rcases h.invoker (hrole.trans hs) with ⟨hn, hk⟩ | ⟨req, hc⟩
  · -- without a peer it keeps no PDU, and only its request builds one
    refine .idle hrole' (hpeer.remNsapAddr.trans hn) (List.eq_nil_iff_forall_not_mem.2 fun du hd => ?_)
    have := hsub du hd
    rw [hk] at this
    cases this
  · have hphase : s.phase ≠ .ended true := fun he => by
      rw [isPerformer_of_ended he] at hs
      cases hs
    have hport := hstored.port
    rw [if_neg hphase] at hport
    refine .of_carriesOut hrole' ⟨hc.asked, (hstored.user hs).trans hc.user, hport.trans hc.port,
      hpeer.remNsapAddr.trans hc.host, fun du hd => ?_⟩
    rw [hpeer.invokeRefNu]
    exact hc.kept du (hsub du hd)

/-- A performer goes on with its call, if the user does not answer just now. -/
theorem Serves.row (hp : PduForPeer c evt m.invoke) (hs : s.phase ≠ .ended true)
    (h : Serves log i m.invoke)
    (hkept : ∀ du ∈ (act m).1.invoke.resultPduSeq, du ∉ m.invoke.resultPduSeq →
      ∃ rep, Answered log i rep ∧ du = builtReply rep m.invoke.invokeRefNu) :
    Serves log i (act m).1.invoke := by
  have hpeer := row_peer (m := m) hrow hf hreq hp
  have hport := (row_stored (m := m) hrow hf hreq).port
  rw [if_neg hs] at hport
  obtain ⟨⟨pdu, hc, hnum, ht, hn⟩, hold⟩ := h
  refine ⟨⟨pdu, hc, ?_, ?_, ?_⟩, fun du hd => ?_⟩
  · rw [hpeer.invokeRefNu, hnum]
  · rw [hport, ht]
  · rw [hpeer.remNsapAddr, hn]
  · rw [hpeer.invokeRefNu]
    by_cases hm : du ∈ m.invoke.resultPduSeq
    · exact hold du hm
    · exact hkept du hd hm

end

/-- A performer starts on a call. -/
theorem Serves.start (hrow : Row c s evt act s') (hf : c.Fits evt) (hs : s.phase = .ended true)
    (hcalled : Called log i c.pdu) (hkept : ∀ du ∈ m.invoke.resultPduSeq,
      ∃ rep, Answered log i rep ∧ du = builtReply rep c.pdu.invokeRefNu) :
    Serves log i (act m).1.invoke := by
  rw [row_arrival_invoke hrow hf hs]
  exact ⟨⟨c.pdu, hcalled, rfl, rfl, rfl⟩, hkept⟩

/-! ## Along a step -/

/-- A new invoker has been made for the request of the step. -/
theorem Creates.carriesOut {sap : SapInfo} {d : TransDiag} (hk : Creates e f sap d)
    (hf : fires cfg e inp = some f) (hs : step cfg e inp = some (f.engine, f.out))
    (hd : d.isPerformer = false) (hlog : (inp, f.out) ∈ log) : Proven log f.c.self f.after.invoke := by
  obtain ⟨ho, hc⟩ := fires_origin hf
  obtain ⟨act, s', ht⟩ := hk.takes
  have hevt : f.evt = .invokeReq := by rw [hk.evt, hd]; rfl
  obtain ⟨sel, req, hev⟩ := ho.requests hevt
  obtain ⟨ev, env⟩ := inp
  obtain rfl : ev = .invokeReq sel req := hev
  have hreq := ho.requested.2.2
  have hacc : .invokeDesc f.c.self ∈ f.out := by
    refine List.mem_append_right _ ?_
    rw [hk.extra, ht.ret, hk.self, hd]
    exact List.mem_cons_self
  have hrole : f.after.invoke.performingNotInvoking = false := by
    rw [ht.after_invoke, (row_owner (m := f.before) ht.row hc.fits).performing, Fire.before_invoke, hk.v]
    exact hd
  have hkept : ∀ du ∈ f.after.invoke.invokePduSeq, du = builtRequest req f.after.invoke.invokeRefNu := by
    intro du hdu
    obtain ⟨r, -, hr, hdu⟩ := invokeReq_builds hs hacc Fire.engine_heap_self (.inl hdu)
    rw [hdu, hr]
  have hrow := ht.row
  rw [hevt] at hrow
  obtain rfl := hrow.invokeReq_act
  have hafter := ht.after_invoke
  have hfields : ∀ {kept timers out}, Requested f.c f.before (invokerInvokeReq f.c f.before).1 kept timers
      out → Proven log f.c.self f.after.invoke := by
    intro kept timers out h
    refine .of_carriesOut hrole ⟨⟨sel, env, f.out, hlog, hacc⟩, ?_, ?_, ?_, hkept⟩ <;>
      rw [hafter, h.invoke] <;> simp only [invokeReqFields, tmrSetValues, hreq]
  rcases invokerInvokeReq_spec f.c f.before with h | h | ⟨_, h, -⟩
  · rw [h, Fire.before_invoke, hk.v] at hafter
    exact .idle hrole (by rw [hafter]; rfl) (by rw [hafter]; rfl)
  · exact hfields h.toRequested
  · exact hfields h

/-- A new performer serves the INVOKE PDU of the step. -/
theorem Creates.serves {sap : SapInfo} {d : TransDiag} (hk : Creates e f sap d) (hw : WF e)
    (hf : fires cfg e inp = some f) (hd : d.isPerformer = true) (hlog : (inp, f.out) ∈ log) :
    Proven log f.c.self f.after.invoke := by
  obtain ⟨-, hc⟩ := fires_origin hf
  obtain ⟨act, s', ht⟩ := hk.takes
  have hstart : d.state.phase = .ended true := by cases d <;> first | rfl | cases hd
  have hrole : (act f.before).1.invoke.performingNotInvoking = true := by
    rw [(row_owner (m := f.before) ht.row hc.fits).performing, Fire.before_invoke, hk.v]
    exact hd
  have hnone : f.before.invoke.resultPduSeq = [] := by rw [Fire.before_invoke, hk.v]; rfl
  rw [ht.after_invoke]
  refine (Proven.of_serves hrole (.start ht.row hc.fits hstart (ht.called hw hf hstart hlog)
    fun du hdu => ?_)).congr _ _ _
  rw [hnone] at hdu
  cases hdu

/-- A PDU that a performer has not kept before is the reply of the step. -/
theorem Continues.replies {w : InvokeInfo} {q : List TmrData} (hold : Continues e f w q) (hw : WF e)
    (hf : fires cfg e inp = some f) (hs : step cfg e inp = some (f.engine, f.out))
    (ht : f.Takes s act s') (hlog : (inp, f.out) ∈ log) (hd : du ∈ (act f.before).1.invoke.resultPduSeq)
    (hnot : du ∉ f.v.resultPduSeq) :
    ∃ rep, Answered log f.c.self rep ∧ du = builtReply rep f.v.invokeRefNu := by
  obtain ⟨ho, hc⟩ := fires_origin hf
  obtain ⟨hreq, hp⟩ := ho.peer_of_live hw hold.heap
  obtain ⟨hevt, -⟩ := ((row_keeps (m := f.before) ht.row hc.fits).result du hd).resolve_left hnot
  obtain ⟨rep, hrep⟩ := ho.replies hevt
  obtain ⟨ev, env⟩ := inp
  obtain ⟨built, hseq, hbuilt⟩ := replyReq_builds hrep hs hold.heap Fire.engine_heap_self
  obtain ⟨a, b, hfv⟩ := hold.v
  have hmem : du ∈ w.resultPduSeq ++ built := by
    rw [← hseq, ht.after_invoke]
    exact hd
  have hnew : du ∈ built := (List.mem_append.1 hmem).resolve_left fun hm => hnot (by rw [hfv]; exact hm)
  obtain ⟨r, -, hr, rfl⟩ := hbuilt du hnew
  refine ⟨rep, ⟨ev, env, f.out, hlog, hrep⟩, ?_⟩
  have hnum := (row_peer (m := f.before) ht.row hc.fits hreq hp).invokeRefNu
  rw [← hr, ht.after_invoke]
  exact congrArg (builtReply rep) hnum

/-- A machine that was there goes on with what it has been made for. -/
theorem Continues.proven {w : InvokeInfo} {q : List TmrData} (hold : Continues e f w q) (hw : WF e)
    (hf : fires cfg e inp = some f) (hs : step cfg e inp = some (f.engine, f.out))
    (hlog : (inp, f.out) ∈ log) (h : Proven log f.c.self w) : Proven log f.c.self f.after.invoke := by
  obtain ⟨ho, hc⟩ := fires_origin hf
  obtain ⟨a, b, hfv⟩ := hold.v
  have hbefore : Proven log f.c.self f.v := by
    rw [hfv]
    exact h.congr a b w.curState
  rcases f.cases with hn | ⟨s, act, s', ht⟩
  · rw [hn.after]
    exact hbefore
  obtain ⟨hreq, hp⟩ := ho.peer_of_live hw hold.heap
  have hrole : f.v.performingNotInvoking = s.isPerformer :=
    ((hw.prepared ho).2 _ _ ho.here).performer ht.cur
  rw [ht.after_invoke]
  refine Proven.congr (v := (act f.before).1.invoke) ?_ _ _ _
  cases hper : s.isPerformer with
  | false => exact hbefore.invoker_row ht.row hc.fits hreq hp hper hrole
  | true =>
    have hrole' : (act f.before).1.invoke.performingNotInvoking = true := by
      rw [(row_owner (m := f.before) ht.row hc.fits).performing, Fire.before_invoke, hrole, hper]
    have hserves := hbefore.performer (hrole.trans hper)
    refine .of_serves hrole' ?_
    by_cases hstart : s.phase = .ended true
    · -- called once more, before its release
      have hevt := (row_arrival ht.row hstart).1
      refine .start ht.row hc.fits hstart (ht.called hw hf hstart hlog) ?_
      rw [hp.invokeRefNu (.inr hevt)]
      exact hserves.kept
    · exact hserves.row ht.row hc.fits hreq hp hstart fun du hdu hnot =>
        hold.replies hw hf hs ht hlog hdu hnot

/-- A live `InvokeInfo` after a step: it is as it was, a failed request has left it behind, or it is
the one of the machine that has run. -/
theorem live_cases (hs : step cfg e inp = some (e', o)) (hv : e'.heap i = some v) :
    e.heap i = some v ∨ (i = e.nextId ∧ ∃ sap : SapInfo, v = { locSap := sap.id }) ∨
      ∃ f, fires cfg e inp = some f ∧ e' = f.engine ∧ o = f.out ∧ f.c.self = i ∧ f.after.invoke = v := by
  rcases step_cases hs with ⟨f, hf, rfl, rfl⟩ | ⟨-, hq⟩
  · obtain ⟨ho, -⟩ := fires_origin hf
    by_cases hi : i = f.c.self
    · subst hi
      exact .inr (.inr ⟨f, hf, rfl, rfl, rfl, by simpa using hv⟩)
    · rw [Fire.engine_heap_ne hi, ho.heap_ne hi] at hv
      exact .inl hv
  · cases hq with
    | nothing | unknownTimer | callBack | bind | unbindEmpty => exact .inl hv
    | @leak sap =>
      by_cases hi : i = e.nextId
      · subst hi
        exact .inr (.inl ⟨rfl, sap, by simpa [Engine.invokeInfoCreate] using hv.symm⟩)
      · simp only [Engine.invokeInfoCreate, Function.update_of_ne hi] at hv
        exact .inl hv
    | release | unbind => exact .inl (MachinesOk.relInvoke_heap hv)

/-- **What the log tells of every live `InvokeInfo`** it tells after the next step, too. -/
theorem Proven.step (hw : WF e) (h : ∀ i v, e.heap i = some v → Proven log i v)
    (hs : step cfg e inp = some (e', o)) :
    ∀ i v, e'.heap i = some v → Proven (log ++ [(inp, o)]) i v := by
  intro i v hv
  have hlog : (inp, o) ∈ log ++ [(inp, o)] := List.mem_concat_self
  rcases live_cases hs hv with hv | ⟨-, sap, rfl⟩ | ⟨f, hf, rfl, rfl, rfl, rfl⟩
  · exact (h i v hv).mono (List.subset_append_left _ _)
  · exact .idle rfl rfl rfl
  · obtain ⟨ho, -⟩ := fires_origin hf
    rcases ho.kind with ⟨sap, d, hnew⟩ | ⟨w, q, hold⟩
    · cases hd : d.isPerformer with
      | false => exact hnew.carriesOut hf hs hd hlog
      | true => exact hnew.serves hw hf hd hlog
    · exact hold.proven hw hf hs hlog ((h _ _ hold.heap).mono (List.subset_append_left _ _))

/-! ## The acknowledgment -/

/-- A row that leads to the state in which RESULT PDUs are acknowledged. -/
theorem row_ackPduSent (h : Row c s evt act s') (hs : s' = .ackPduSent) :
    evt = .pduResult ∧ (s = .invokePduSent ∨ s = .ackPduSent) := by
  cases h with
  | result => exact ⟨rfl, .inl rfl⟩
  | dupResult => exact ⟨rfl, .inr rfl⟩
  | invokeReq fu | retran fu | last fu | failure fu | invokerRelease fu | dupInvoke fu
  | noResponse fu | internal fu | resend fu | lateInvoke fu | performerRelease fu =>
    cases fu <;> cases hs
  | _ => cases hs

theorem row_acks (h : Row c s evt act s') (he : evt = .pduResult)
    (hs : s = .invokePduSent ∨ s = .ackPduSent) : s' = .ackPduSent := by
  cases h with
  | result | dupResult => rfl
  | result2 | lateResult | lateResult2 => rcases hs with hs | hs <;> cases hs
  | _ => cases he

/-- A 3-way invoker that acknowledges has been given its result, or its error. -/
def AckOk (log : Log) (i : InvokeId) (v : InvokeInfo) : Prop :=
  v.curState = some .ackPduSent → ∃ pdu, Reported log i pdu ∧ pdu.invokeRefNu = v.invokeRefNu ∧
    pdu.fromNsapAddr = v.remNsapAddr

/-- The machine of a first RESULT or ERROR PDU. -/
theorem Fire.Takes.reported (hf : fires cfg e inp = some f) (ht : f.Takes s act s')
    (hs : s = .invokePduSent) (hevt : f.evt = .pduResult) (hlog : (inp, f.out) ∈ log) :
    Reported log f.c.self f.c.pdu := by
  obtain ⟨ho, hc⟩ := fires_origin hf
  obtain ⟨data, hr⟩ := ho.runsOn (by rw [hevt]; decide)
  refine ⟨hr.evt ▸ hevt, f.v.userInvokeRef, inp.env, f.out, hr.arrived hlog, fun hmem => ?_⟩
  have hsub : resultTask f.c f.v ∈ submitted f.after.out := by
    have htasks : rowTasks f.c f.v s f.evt = told f.c (resultTask f.c f.v) := by rw [hs, hevt]; rfl
    rw [fire_submitted hc, ht.tasks, htasks, told, if_pos (hc.memGet.trans hmem)]
    exact List.mem_singleton_self _
  exact List.mem_append_left _ (mem_submitted.2 hsub)

theorem AckOk.fire (hw : WF e) (h : ∀ i v, e.heap i = some v → AckOk log i v)
    (hf : fires cfg e inp = some f) (hsub : log ⊆ log') (hlog : (inp, f.out) ∈ log') :
    AckOk log' f.c.self f.after.invoke := by
  obtain ⟨ho, hc⟩ := fires_origin hf
  intro hcur
  have hbefore : f.v.curState = some .ackPduSent → ∃ pdu, Reported log' f.c.self pdu ∧
      pdu.invokeRefNu = f.v.invokeRefNu ∧ pdu.fromNsapAddr = f.v.remNsapAddr := by
    intro hv
    rcases ho.kind with ⟨sap, d, hk⟩ | ⟨w, q, hk⟩
    · rw [hk.v] at hv
      cases d <;> cases hv
    · obtain ⟨a, b, hfv⟩ := hk.v
      rw [hfv] at hv ⊢
      obtain ⟨pdu, hp, hnum, hhost⟩ := h _ _ hk.heap hv
      exact ⟨pdu, hp.mono hsub, hnum, hhost⟩
  rcases f.cases with hn | ⟨s, act, s', ht⟩
  · rw [hn.after, Fire.before_invoke] at hcur ⊢
    exact hbefore hcur
  rw [ht.after_invoke] at hcur ⊢
  obtain ⟨hevt, hs⟩ := row_ackPduSent ht.row (Option.some.inj hcur)
  obtain ⟨r, hr, -, -, -, -, w, hheap, hhost, hsame, -⟩ := ho.answered (.inl hevt)
  obtain ⟨hreq, hp⟩ := ho.peer_of_live hw hheap
  have hpeer := row_peer (m := f.before) ht.row hc.fits hreq hp
  have hnum := hpeer.invokeRefNu
  have hnsap := hpeer.remNsapAddr
  rw [Fire.before_invoke] at hnum hnsap
  simp only [hnum, hnsap]
  rcases hs with hs | hs
  · exact ⟨f.c.pdu, ht.reported hf hs hevt hlog, hp.invokeRefNu (.inl hevt), (hsame.trans hhost).symm⟩
  · exact hbefore (hs ▸ ht.cur)

theorem AckOk.step (hw : WF e) (h : ∀ i v, e.heap i = some v → AckOk log i v)
    (hs : step cfg e inp = some (e', o)) :
    ∀ i v, e'.heap i = some v → AckOk (log ++ [(inp, o)]) i v := by
  intro i v hv
  rcases live_cases hs hv with hv | ⟨-, sap, rfl⟩ | ⟨f, hf, rfl, rfl, rfl, rfl⟩
  · intro hcur
    obtain ⟨pdu, hp, hrest⟩ := h i v hv hcur
    exact ⟨pdu, hp.mono (List.subset_append_left _ _), hrest⟩
  · exact nofun
  · exact AckOk.fire hw h hf (List.subset_append_left _ _) List.mem_concat_self

end Erop
