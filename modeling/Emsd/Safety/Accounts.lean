import Emsd.Safety.Provenance

/-!
# The PDUs that an engine accounts for

Every PDU that a step hands to UDP is one of an invocation that the log tells of (`step_handed`), and
an invocation whose INVOKE PDU has been handed over is filed under the number in it as long as it lives
(`Standing`). `Accounted` collects what holds of an engine and its log; every step keeps it.
-/

namespace Erop

open Ocp FunctionalUnit Engine Life Run

variable {cfg : Config} {e e' : Engine} {inp : Input} {f : Fire} {o : List Out} {i k : InvokeId}
  {s s' : State} {act : Machine → Machine × SuccFail} {v v' : InvokeInfo} {du : Octets} {t : TSapSel} {n : NSapAddr} {pdu : Pdu} {env : Env}
  {log log' : Log} {who : Option InvokeId} {b : Bool}

/-! ## What is handed to UDP -/

/-- What a PDU that is handed to UDP stands for, and who hands it over to which address. -/
inductive Handed (log : Log) : Option InvokeId → TSapSel → NSapAddr → Octets → Prop
  | request {k : InvokeId} {req : InvokeReq} {r : Nat} (hr : r < totalRefNumbers) (ha : Asked log k req) :
      Handed log (some k) req.remTsap req.remNsap (builtRequest req r)
  | reply {i : InvokeId} {rep : ResultReq} {pdu : Pdu} (ha : Answered log i rep) (hc : Called log i pdu) :
      Handed log (some i) pdu.fromTsapSel pdu.fromNsapAddr (builtReply rep pdu.invokeRefNu)
  | ack {k : InvokeId} {t : TSapSel} {pdu : Pdu} (hr : Reported log k pdu) :
      Handed log (some k) t pdu.fromNsapAddr [3, put1 pdu.invokeRefNu]
  | failure {who : Option InvokeId} {t : TSapSel} {n : NSapAddr} {r w : Int} : Handed log who t n (failureOctets r w)

theorem Handed.mono (hl : log ⊆ log') (h : Handed log who t n du) :
    Handed log' who t n du := by
  cases h with
  | request hr ha => exact .request hr (ha.mono hl)
  | reply ha hc => exact .reply (ha.mono hl) (hc.mono hl)
  | ack hr => exact .ack (hr.mono hl)
  | failure => exact .failure

/-- The map of the invocations of a role. -/
def Engine.refMap (e : Engine) (performing : Bool) : RefMap :=
  if performing then e.refs.performer else e.refs.invoker

theorem registered_refMap (hs : step cfg e inp = some (e', o)) (hv : e'.heap i = some v) {p : Bool}
    {r : Nat} (hm : i ∈ e.refMap p r) : i ∈ e'.refMap p r := by
  have hlive := registered_live hs (i := i) (r := r) (by rw [hv]; nofun)
  cases p with
  | true => exact hlive.2 hm
  | false => exact hlive.1 hm

/-- An invocation is filed under its number. -/
def FiledAs (e : Engine) (k : InvokeId) (v : InvokeInfo) : Prop :=
  ∃ r : Nat, r < totalRefNumbers ∧ v.invokeRefNu = r ∧ k ∈ e.refMap v.performingNotInvoking r

/-- An invocation that keeps a PDU is filed. -/
def Filed (e : Engine) : Prop :=
  ∀ k v, e.heap k = some v → ∀ du, du ∈ v.invokePduSeq ∨ du ∈ v.resultPduSeq → FiledAs e k v

theorem FiledAs.step (h : FiledAs e k v) (hs : step cfg e inp = some (e', o))
    (hv' : e'.heap k = some v') (hkept : Kept v v') : FiledAs e' k v' := by
  obtain ⟨r, hr, hnum, hmem⟩ := h
  refine ⟨r, hr, hkept.invokeRefNu.trans hnum, ?_⟩
  rw [hkept.performing]
  exact registered_refMap hs hv' hmem

/-- A new invoker that keeps its PDU has been given a number. -/
theorem Creates.filed {sap : SapInfo} {d : TransDiag} (hk : Creates e f sap d) (hc : Common cfg inp f)
    (hd : du ∈ f.after.invoke.invokePduSeq ∨ du ∈ f.after.invoke.resultPduSeq) :
    FiledAs f.engine f.c.self f.after.invoke := by
  obtain ⟨act, s', ht⟩ := hk.takes
  have hnone : f.before.invoke.invokePduSeq = [] ∧ f.before.invoke.resultPduSeq = [] := by
    rw [Fire.before_invoke, hk.v]
    exact ⟨rfl, rfl⟩
  have hrow := ht.row
  have hkeeps := row_keeps (m := f.before) hrow hc.fits
  rw [ht.after_invoke] at hd
  rcases hd with hd | hd
  swap
  · obtain ⟨hevt, -⟩ := (hkeeps.result du hd).resolve_left (by rw [hnone.2]; exact List.not_mem_nil)
    rw [hk.evt] at hevt
    split at hevt <;> cases hevt
  obtain ⟨hevt, -, hnum⟩ := (hkeeps.invoke du hd).resolve_left (by rw [hnone.1]; exact List.not_mem_nil)
  rw [hevt] at hrow
  obtain rfl := hrow.invokeReq_act
  have hgiven : (invokerInvokeReq f.c f.before).1.invoke.invokeRefNu = (requestRef f.c f.before).2 ∧
      (invokerInvokeReq f.c f.before).1.refs = (requestRef f.c f.before).1 := by
    rcases invokerInvokeReq_spec f.c f.before with h | h | ⟨_, h, -⟩
    · rw [h, hnone.1] at hd
      cases hd
    · exact ⟨by rw [h.invoke], h.refs⟩
    · exact ⟨by rw [h.invoke], h.refs⟩
  rcases refNew_cases f.before.refs f.c.nsapOf f.c.self (invokeReqFields f.c f.before.invoke) with
    ⟨hfail, -⟩ | ⟨r, hr, hlt, hrole, -, hfiled, -⟩
  · exact absurd hfail hnum
  have hperf : f.after.invoke.performingNotInvoking = false := by
    rw [ht.after_invoke, (row_owner (m := f.before) ht.row hc.fits).performing]
    exact hrole
  refine ⟨r, hlt, ?_, ?_⟩
  · rw [ht.after_invoke]
    exact hgiven.1.trans hr
  · have hmem : f.c.self ∈ f.engine.refs.invoker r := by
      rw [Fire.engine_refs, ht.after_refs, hgiven.2]
      show _ ∈ (refNew _ _ _ _).1.invoker r
      rw [hfiled, Function.update_self]
      exact List.mem_append_right _ (List.mem_singleton_self _)
    rw [hperf]
    exact hmem

/-- A performer that keeps a new reply has filed its number. -/
theorem Fire.Takes.filed_reply (ht : f.Takes s act s')
    (hevt : f.evt = .resultReq) (href : (replyRef f.c f.before).2 = .success) :
    FiledAs f.engine f.c.self f.after.invoke := by
  have hrow := ht.row
  rw [hevt] at hrow
  obtain ⟨name, time, hname, rfl⟩ := hrow.resultReq_act
  obtain ⟨r, hr, hlt, hrole, -, htables⟩ := refKeep_success href
  have hrefs : (performerResultReq name time f.c f.before).1.refs = (replyRef f.c f.before).1 := by
    rcases performerResultReq_spec hname f.c f.before with ⟨hn, -⟩ | h | ⟨_, h, -⟩
    · rw [href] at hn
      cases hn
    · exact h.refs
    · exact h.refs
  have hnum := (reply_peer (c := f.c) (m := f.before) hname).invokeRefNu
  have hperf := (reply_owner (c := f.c) (m := f.before) hname).performing
  rw [ht.after_invoke]
  refine ⟨r, hlt, hnum.trans hr, ?_⟩
  have hmap : f.engine.refs.performer r = f.before.refs.performer r ++ [f.c.self] := by
    rw [Fire.engine_refs, ht.after_refs, hrefs]
    show (refKeep _ _ _ _ _).1.performer r = _
    rw [htables]
    exact Function.update_self ..
  rw [hperf.trans hrole]
  show f.c.self ∈ f.engine.refs.performer r
  rw [hmap]
  exact List.mem_append_right _ (List.mem_singleton_self _)

theorem Filed.step (hw : WF e) (h : Filed e) (hs : step cfg e inp = some (e', o)) : Filed e' := by
  intro k v hv du hd
  rcases live_cases hs hv with hold | ⟨-, sap, rfl⟩ | ⟨f, hf, rfl, rfl, rfl, rfl⟩
  · exact (h k v hold du hd).step hs hv ⟨.refl v, .refl v⟩
  · rcases hd with hd | hd <;> cases hd
  obtain ⟨ho, hc⟩ := fires_origin hf
  rcases ho.kind with ⟨sap, d, hk⟩ | ⟨w, q, hk⟩
  · exact hk.filed hc hd
  obtain ⟨v', hv', hkept⟩ := hw.refs.kept hw.linked ho hc hk.heap
  obtain rfl := Option.some.inj (hv.symm.trans hv')
  obtain ⟨hreq, -⟩ := ho.peer_of_live hw hk.heap
  obtain ⟨a, b, hfv⟩ := hk.v
  -- what was kept before stays filed; of the rows, only that of a reply keeps a new PDU
  have hold : ∀ du, du ∈ f.before.invoke.invokePduSeq ∨ du ∈ f.before.invoke.resultPduSeq →
      FiledAs f.engine f.c.self f.after.invoke := by
    intro du hd
    rw [Fire.before_invoke, hfv] at hd
    exact (h _ w hk.heap du hd).step hs hv hkept
  rcases f.cases with hn | ⟨s, act, s', ht⟩
  · rw [hn.after] at hd
    exact hold du hd
  have hkeeps := row_keeps (m := f.before) ht.row hc.fits
  rw [ht.after_invoke] at hd
  rcases hd with hd | hd
  · exact hold du (.inl ((hkeeps.invoke du hd).resolve_right fun hn => hreq hn.1))
  · rcases hkeeps.result du hd with hm | ⟨hevt, -, href⟩
    · exact hold du (.inr hm)
    · exact ht.filed_reply hevt href

theorem getInvoke_refuses
    (h : .udp who t n du b ∈ (e.getInvoke env pdu).2.1) : ∃ r w, du = failureOctets r w := by
  have hrefuse : ∀ {reason : Int}, .udp who t n du b ∈ refuse env pdu reason →
      ∃ r w, du = failureOctets r w := by
    intro reason hm
    unfold refuse sendFailurePdu at hm
    split at hm
    · simp only [List.mem_singleton, Out.udp.injEq] at hm
      exact ⟨_, _, hm.2.2.2.1⟩
    · cases hm
  unfold getInvoke at h
  split at h
  · split at h
    · exact hrefuse h
    · split at h
      · cases h
      · split at h
        · cases h
        · exact hrefuse h
  · cases h
  · split at h
    · exact hrefuse h
    · cases h
  · split at h
    · exact hrefuse h
    · cases h
  · split at h
    · cases h
    · split at h
      · cases h
      · split at h <;> cases h

/-- A step that runs no machine hands over nothing but the FAILURE PDU of the receive path. -/
theorem refused_failure (hs : step cfg e inp = some (e', o))
    (hnone : fires cfg e inp = none) (hx : .udp who t n du b ∈ o) : ∃ r w, du = failureOctets r w := by
  obtain ⟨ev, env⟩ := inp
  cases ev with
  | udpInd tsap nsap data =>
    simp only [step, Engine.lowerDataInd] at hs
    simp only [fires, Option.bind_eq_none_iff, Option.map_eq_none_iff] at hnone
    cases hp : readPdu tsap nsap data with
    | none =>
      rw [hp] at hs
      obtain ⟨-, rfl⟩ := Prod.mk.inj (Option.some.inj hs)
      cases hx
    | some pdu =>
      rw [hp] at hs
      simp only [Engine.pduInd] at hs
      cases hi : (e.getInvoke env pdu).2.2 with
      | none =>
        rw [hi] at hs
        obtain ⟨-, rfl⟩ := Prod.mk.inj (Option.some.inj hs)
        exact getInvoke_refuses hx
      | some i =>
        rw [hi] at hs
        simp only [hnone pdu hp i hi, reduceCtorEq] at hs
  | schRun =>
    simp only [step, Engine.schRun] at hs
    split at hs
    · cases hs
    · split at hs
      · cases hs
      · split at hs
        · cases hs
        · split at hs <;> obtain ⟨-, rfl⟩ := Prod.mk.inj (Option.some.inj hs) <;> simp at hx
  | tmrRsp i td =>
    simp only [step, Engine.timerRsp] at hs
    split at hs
    · rename_i htd
      simp only [fires, if_pos htd, Option.bind_eq_none_iff, Option.map_eq_none_iff] at hnone
      split at hs
      · cases hs
      · rename_i v hv
        simp only [hnone v hv, Option.some.injEq, Prod.mk.injEq] at hs
        rw [← hs.2] at hx
        cases hx
    · cases hs
  | invokeReq sel req =>
    simp only [step, Engine.invokeReq] at hs
    simp only [fires] at hnone
    split at hs
    · obtain ⟨-, rfl⟩ := Prod.mk.inj (Option.some.inj hs)
      simp at hx
    · rename_i sap hsap
      simp only [hsap, Option.bind_some] at hnone
      split_ifs at hs hnone
      · obtain ⟨-, rfl⟩ := Prod.mk.inj (Option.some.inj hs)
        simp at hx
      · obtain ⟨-, rfl⟩ := Prod.mk.inj (Option.some.inj hs)
        simp at hx
      · simp only [Option.map_eq_none_iff.1 hnone, reduceCtorEq] at hs
  | resultReq i u enc p | errorReq i u enc w p =>
    simp only [fires, fires.replyFire, Option.map_eq_none_iff] at hnone
    simp only [step, Engine.resultReq, Engine.errorReq, Engine.replyReq, hnone, reduceCtorEq] at hs
  | sapBind sel fu =>
    simp only [step, Engine.sapBind] at hs
    split_ifs at hs <;> obtain ⟨-, rfl⟩ := Prod.mk.inj (Option.some.inj hs) <;> simp at hx
  | sapUnbind sel =>
    simp only [step, Engine.sapUnbind] at hs
    split at hs
    · obtain ⟨-, rfl⟩ := Prod.mk.inj (Option.some.inj hs)
      simp at hx
    · split at hs <;> obtain ⟨-, rfl⟩ := Prod.mk.inj (Option.some.inj hs) <;> simp at hx

/-- What the machine of a step hands to UDP. -/
theorem Origin.sends (ho : Origin cfg e inp f) (hc : Common cfg inp f)
    (hx : .udp who t n du b ∈ f.out) : ∃ s act s', f.Takes s act s' ∧
      Sends f.c f.after.invoke s f.evt du ∧ who = some f.c.self ∧ t = f.after.invoke.remTsapSel ∧
      n = f.after.invoke.remNsapAddr := by
  have hafter : .udp who t n du b ∈ f.after.out := by
    refine (List.mem_append.1 hx).resolve_right fun hm => ?_
    rcases ho.kind with ⟨sap, d, hk⟩ | ⟨w, q, hk⟩
    · rw [hk.extra] at hm
      dsimp only at hm
      split at hm
      · cases hm
      · split at hm <;> simp at hm
    · obtain ⟨r, hr⟩ := hk.extra _ _ hm
      cases hr
  have hudp : .udp who t n du b ∈ udps f.after.out := List.mem_filter.2 ⟨hafter, rfl⟩
  rcases f.cases with hn | ⟨s, act, s', ht⟩
  · rw [hn.hands] at hudp
    cases hudp
  rcases ht.hands hc with hu | ⟨du', hd, hu⟩
  · rw [hu] at hudp
    cases hudp
  · rw [hu, List.mem_singleton] at hudp
    obtain ⟨rfl, rfl, rfl, rfl, -⟩ := Out.udp.inj hudp
    exact ⟨s, act, s', ht, hd, rfl, rfl, rfl⟩

/-- **Every PDU that a step hands to UDP** is accounted for. -/
theorem step_handed (hw : WF e) (hk : PdusOk e) (hfiled : Filed e)
    (hproven : ∀ i v, e.heap i = some v → Proven log i v)
    (hack : ∀ i v, e.heap i = some v → AckOk log i v) (hs : step cfg e inp = some (e', o))
    (hx : .udp who t n du b ∈ o) : Handed (log ++ [(inp, o)]) who t n du := by
  rcases step_cases hs with ⟨f, hf, rfl, rfl⟩ | ⟨hnone, -⟩
  swap
  · obtain ⟨r, w, rfl⟩ := refused_failure hs hnone hx
    exact .failure
  obtain ⟨ho, hc⟩ := fires_origin hf
  obtain ⟨s, act, s', ht, hsends, rfl, rfl, rfl⟩ := ho.sends hc hx
  have hv : f.engine.heap f.c.self = some f.after.invoke := Fire.engine_heap_self
  have hkept := hk.step hw hs f.c.self f.after.invoke hv
  have hp := Proven.step hw hproven hs f.c.self f.after.invoke hv
  have hrequest : du ∈ f.after.invoke.invokePduSeq → Handed (log ++ [(inp, f.out)]) (some f.c.self)
      f.after.invoke.remTsapSel f.after.invoke.remNsapAddr du := by
    intro hd
    obtain ⟨r, hr, hnum, -⟩ := hfiled.step hw hs _ _ hv du (.inl hd)
    rcases hp.invoker (hkept.invoke du hd).1 with ⟨-, hnil⟩ | ⟨req, hreq⟩
    · rw [hnil] at hd
      cases hd
    · rw [hreq.port, hreq.host, hreq.kept du hd, hnum]
      exact .request hr hreq.asked
  have hreply : du ∈ f.after.invoke.resultPduSeq → Handed (log ++ [(inp, f.out)]) (some f.c.self)
      f.after.invoke.remTsapSel f.after.invoke.remNsapAddr du := by
    intro hd
    obtain ⟨⟨pdu, hcalled, hnum, hport, hhost⟩, hreplies⟩ := hp.performer (hkept.result du hd).1
    obtain ⟨rep, ha, rfl⟩ := hreplies du hd
    rw [← hnum, ← hport, ← hhost]
    exact .reply ha hcalled
  generalize hevt : f.evt = evt at hsends
  cases hsends with
  | request fu hd | retran fu hd => exact hrequest hd
  | reply fu hd | resultRetran hd | resend fu hd => exact hreply hd
  | unnoted | unshown | noResponse => exact .failure
  | ack hstate =>
    -- the machine is where it acknowledges what it has been given
    have hrow := ht.row
    rw [hevt] at hrow
    have hcur : f.after.invoke.curState = some .ackPduSent := by
      rw [ht.after_invoke, row_acks hrow rfl hstate]
    obtain ⟨pdu, hrep, hnum, hhost⟩ := AckOk.step hw hack hs f.c.self f.after.invoke hv hcur
    rw [← hnum, ← hhost]
    exact .ack hrep

/-! ## The number of a request that has been sent -/

theorem step_nextId (hs : step cfg e inp = some (e', o)) : e.nextId ≤ e'.nextId := by
  rcases step_cases hs with ⟨f, hf, rfl, rfl⟩ | ⟨-, hq⟩
  · exact Fire.engine_nextId_le (fires_origin hf).1
  · cases hq with
    | leak => exact Nat.le_succ _
    | _ => exact Nat.le_refl _

/-- An `InvokeInfo` that is live after a step and no new one was live before it. -/
theorem live_kept (hw : WF e) (hs : step cfg e inp = some (e', o)) (hv : e'.heap i = some v)
    (hi : i < e.nextId) : ∃ w, e.heap i = some w ∧ Kept w v := by
  rcases live_cases hs hv with hold | ⟨hnew, -⟩ | ⟨f, hf, rfl, rfl, rfl, rfl⟩
  · exact ⟨v, hold, .refl v⟩
  · lia
  · obtain ⟨ho, hc⟩ := fires_origin hf
    rcases ho.kind with ⟨sap, d, hk⟩ | ⟨w, q, hk⟩
    · have := hk.self
      lia
    · obtain ⟨v', hv', hkept⟩ := hw.refs.kept hw.linked ho hc hk.heap
      obtain rfl := Option.some.inj (hv.symm.trans hv')
      exact ⟨w, hk.heap, hkept⟩

/-- The role of the machine that a PDU comes from. -/
def fromPerformer (du : Octets) : Bool := typeBits du = 1 ∨ typeBits du = 2

/-- What a live invocation still has of a PDU that it has handed over to a host. -/
def StandsFor (e : Engine) (k : InvokeId) (n : NSapAddr) (du : Octets) : Prop :=
  ∀ v, e.heap k = some v → v.remNsapAddr = n ∧ ∃ r : Nat, r < totalRefNumbers ∧ v.invokeRefNu = r ∧
    refOctet du = put1 r ∧ k ∈ e.refMap (fromPerformer du) r

/-- **The number of a request or a reply that has been sent** stays its own as long as it lives. -/
def Standing (log : Log) (e : Engine) : Prop :=
  ∀ x ∈ log, ∀ k t n du b, .udp (some k) t n du b ∈ x.2 → typeBits du < 3 →
    k < e.nextId ∧ StandsFor e k n du

theorem StandsFor.step (hw : WF e) (hs : step cfg e inp = some (e', o)) (hk : k < e.nextId)
    (h : StandsFor e k n du) : StandsFor e' k n du := by
  intro v hv
  obtain ⟨w, hold, hkept⟩ := live_kept hw hs hv hk
  obtain ⟨hn, r, hr, hnum, href, hmem⟩ := h w hold
  exact ⟨hkept.remNsapAddr.trans hn, r, hr, hkept.invokeRefNu.trans hnum, href,
    registered_refMap hs hv hmem⟩

/-- A PDU of a request or of a reply that is handed over is one that its machine keeps. -/
theorem handed_kept (hs : step cfg e inp = some (e', o)) (hx : .udp (some k) t n du b ∈ o)
    (hd : typeBits du < 3) :
    ∃ v, e'.heap k = some v ∧ v.remNsapAddr = n ∧ (du ∈ v.invokePduSeq ∨ du ∈ v.resultPduSeq) := by
  rcases step_cases hs with ⟨f, hf, rfl, rfl⟩ | ⟨-, hq⟩
  · obtain ⟨ho, hc⟩ := fires_origin hf
    obtain ⟨s, act, s', ht, hsends, hself, -, rfl⟩ := ho.sends hc hx
    obtain rfl := Option.some.inj hself
    refine ⟨f.after.invoke, Fire.engine_heap_self, rfl, ?_⟩
    generalize f.evt = evt at hsends
    cases hsends with
    | request fu hm | retran fu hm => exact .inl hm
    | reply fu hm | resultRetran hm | resend fu hm => exact .inr hm
    | ack =>
      rw [typeBits_ack] at hd
      exact absurd hd (by decide)
    | unnoted | unshown | noResponse =>
      rw [typeBits_failure] at hd
      exact absurd hd (by decide)
  · exfalso
    cases hq with
    | nothing ho => rcases ho _ hx with ⟨n, hn⟩ | ⟨_, _, _, _, hn⟩ <;> cases hn
    | _ => simp at hx

theorem Standing.step (hw : WF e) (hk : PdusOk e) (hfiled : Filed e) (h : Standing log e)
    (hs : step cfg e inp = some (e', o)) : Standing (log ++ [(inp, o)]) e' := by
  intro x hx k t n du b hu hd
  have hnext := step_nextId hs
  rcases List.mem_append.1 hx with hx | hx
  · obtain ⟨hlt, hst⟩ := h x hx k t n du b hu hd
    exact ⟨Nat.lt_of_lt_of_le hlt hnext, hst.step hw hs hlt⟩
  obtain rfl := List.mem_singleton.1 hx
  obtain ⟨w, hw', hn, hm⟩ := handed_kept hs hu hd
  refine ⟨(hw.step hs).linked.lt hw', fun v hv => ?_⟩
  obtain rfl := Option.some.inj (hw'.symm.trans hv)
  obtain ⟨r, hr, hnum, hmem⟩ := hfiled.step hw hs k w hw' du hm
  have hkept := hk.step hw hs k w hw'
  have hrole : w.performingNotInvoking = fromPerformer du ∧ refOctet du = put1 w.invokeRefNu := by
    rcases hm with hm | hm
    · obtain ⟨hp, htype, href⟩ := hkept.invoke du hm
      exact ⟨by simp [hp, fromPerformer, htype], href⟩
    · obtain ⟨hp, htype, href⟩ := hkept.result du hm
      exact ⟨by simp [hp, fromPerformer, htype], href⟩
  exact ⟨hn, r, hr, hnum, by rw [hrole.2, hnum], hrole.1 ▸ hmem⟩

/-! ## An engine and its log -/

/-- A descriptor is handed out once. -/
theorem invokeDesc_out (hs : step cfg e inp = some (e', o)) (hx : .invokeDesc k ∈ o) :
    k = e.nextId ∧ e.nextId < e'.nextId := by
  rcases step_cases hs with ⟨f, hf, rfl, rfl⟩ | ⟨-, hq⟩
  · obtain ⟨ho, hc⟩ := fires_origin hf
    have hx := (List.mem_append.1 hx).resolve_left fun hm => by
      have := fire_sent hc _ hm
      cases this
    rcases ho.kind with ⟨sap, d, hk⟩ | ⟨w, q, hk⟩
    · rw [hk.extra] at hx
      have hnext : f.engine.nextId = e.nextId + 1 := by
        rw [Fire.engine_nextId, hk.eng]
        rfl
      refine ⟨?_, by lia⟩
      dsimp only at hx
      split at hx
      · cases hx
      · split at hx <;> simp at hx
        exact hx
    · obtain ⟨r, hr⟩ := hk.extra _ _ hx
      cases hr
  · exfalso
    cases hq with
    | nothing ho => rcases ho _ hx with ⟨n, hn⟩ | ⟨_, _, _, _, hn⟩ <;> cases hn
    | _ => simp at hx

/-- The requests of a log after one more step. -/
theorem Asked.snoc (hs : step cfg e inp = some (e', o)) {req : InvokeReq}
    (h : Asked (log ++ [(inp, o)]) k req) :
    Asked log k req ∨ (k = e.nextId ∧ e.nextId < e'.nextId ∧ ∃ sel, inp.ev = .invokeReq sel req) := by
  obtain ⟨sel, env, o', hm, hd⟩ := h
  rcases List.mem_append.1 hm with hm | hm
  · exact .inl ⟨sel, env, o', hm, hd⟩
  · obtain ⟨rfl, rfl⟩ := Prod.mk.inj (List.mem_singleton.1 hm)
    obtain ⟨hk, hlt⟩ := invokeDesc_out hs hd
    exact .inr ⟨hk, hlt, sel, rfl⟩

/-- Every invocation has been made for one request, before now. -/
structure AskedOnce (log : Log) (e : Engine) : Prop where
  lt : ∀ k req, Asked log k req → k < e.nextId
  unique : ∀ k req req', Asked log k req → Asked log k req' → req = req'

theorem AskedOnce.step (h : AskedOnce log e) (hs : step cfg e inp = some (e', o)) :
    AskedOnce (log ++ [(inp, o)]) e' := by
  have hnext := step_nextId hs
  refine ⟨fun k req hr => ?_, fun k req req' hr hr' => ?_⟩
  · rcases hr.snoc hs with hr | ⟨rfl, hlt, -⟩
    · exact Nat.lt_of_lt_of_le (h.lt k req hr) hnext
    · exact hlt
  · rcases hr.snoc hs with hr | ⟨rfl, -, sel, hev⟩ <;> rcases hr'.snoc hs with hr' | ⟨hk, -, sel', hev'⟩
    · exact h.unique k req req' hr hr'
    · have := h.lt k req hr
      lia
    · have := h.lt _ req' hr'
      lia
    · rw [hev] at hev'
      exact (Event.invokeReq.inj hev').2

structure Accounted (log : Log) (e : Engine) : Prop where
  wf : WF e
  pdus : PdusOk e
  filed : Filed e
  proven : ∀ i v, e.heap i = some v → Proven log i v
  ack : ∀ i v, e.heap i = some v → AckOk log i v
  handed : ∀ x ∈ log, ∀ who t n du b, .udp who t n du b ∈ x.2 → Handed log who t n du
  standing : Standing log e
  once : AskedOnce log e

theorem Accounted.init (newRef : Nat) : Accounted [] (Engine.init newRef) where
  wf := .init newRef
  pdus := by rintro i v ⟨⟩
  filed := by rintro i v ⟨⟩
  proven := by rintro i v ⟨⟩
  ack := by rintro i v ⟨⟩
  handed x hx := absurd hx List.not_mem_nil
  standing x hx := absurd hx List.not_mem_nil
  once := by
    have hnone : ∀ k req, ¬Asked [] k req := fun k req ⟨_, _, _, hm, _⟩ => List.not_mem_nil hm
    exact ⟨fun k req h => absurd h (hnone k req), fun k req _ h => absurd h (hnone k req)⟩

theorem Accounted.step (h : Accounted log e) (hs : step cfg e inp = some (e', o)) :
    Accounted (log ++ [(inp, o)]) e' where
  wf := h.wf.step hs
  pdus := h.pdus.step h.wf hs
  filed := h.filed.step h.wf hs
  proven := Proven.step h.wf h.proven hs
  ack := AckOk.step h.wf h.ack hs
  handed x hx who t n du b hu := by
    rcases List.mem_append.1 hx with hx | hx
    · exact (h.handed x hx who t n du b hu).mono (List.subset_append_left _ _)
    · obtain rfl := List.mem_singleton.1 hx
      exact step_handed h.wf h.pdus h.filed h.proven h.ack hs hu
  standing := h.standing.step h.wf h.pdus h.filed hs
  once := h.once.step hs

/-- No two live invocations of a role have one number with one host. -/
theorem Accounted.number_unique (h : Accounted log e) {p : Bool} {r : Nat} (hr : r < totalRefNumbers)
    (hi : i ∈ e.refMap p r) (hk : k ∈ e.refMap p r) (hv : e.heap i = some v)
    (hv' : e.heap k = some v') (hn : v.remNsapAddr = n) (hn' : v'.remNsapAddr = n) (hne : n ≠ []) :
    k = i := by
  have hmap : MapOk e p (e.refMap p) := by
    cases p with
    | true => exact h.wf.refs.performer
    | false => exact h.wf.refs.invoker
  have hfind : ∀ {j w}, j ∈ e.refMap p r → e.heap j = some w → w.remNsapAddr = n →
      refTo (e.refMap p) e.nsapOf r n = some j := fun hj hw hwn =>
    hmap.refTo_eq hr hj hw (nSapAddrCmp_eq_zero.2 ⟨hwn, hwn.symm ▸ hne⟩)
  exact Option.some.inj ((hfind hk hv' hn').symm.trans (hfind hi hv hn))

/-- A live invoker knows its user by the reference of its request. -/
theorem Accounted.user_of_asked (h : Accounted log e) {r : Nat} {req : InvokeReq}
    (hk : k ∈ e.refs.invoker r) (hv : e.heap k = some v) (hne : v.remNsapAddr ≠ [])
    (hasked : Asked log k req) : v.userInvokeRef = req.userInvokeRef := by
  obtain ⟨w, hw, hrole, -⟩ := h.wf.refs.invoker.live r k hk
  obtain rfl := Option.some.inj (hv.symm.trans hw)
  rcases (h.proven k v hv).invoker hrole with ⟨hn, -⟩ | ⟨req', hcarries⟩
  · exact absurd hn hne
  · rw [hcarries.user, h.once.unique k req' req hcarries.asked hasked]

end Erop
