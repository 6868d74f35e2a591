import Emsd.Proof.Pdus

/-!
# What the peer decodes

`erop_inPdu` against the PDU builders. The header of a reply has room for all that a request
to answer can ask for; the header of an INVOKE PDU has four bits for the SAP selector and six
for the operation value, and `EROP_invokeReq` does not look at either.

* `header_round_trip`: the PDUs of a request are decoded as what the request asks for, an
  INVOKE PDU exactly when its selector and its operation value fit.
* `header_spill`: a larger operation value ends up in the encoding type.
-/

namespace Erop

open Ocp Engine

variable {cfg : Config} {e e' : Engine} {inp : Input} {f : Fire} {o : List Out} {i : InvokeId}
  {c : Ctx} {m : Machine} {v v' : InvokeInfo} {du : Octets} {env : Env}

/-- `erop_inPdu` decodes the octets, from any peer, as a PDU with the property. -/
def Decodes (du : Octets) (asked : Pdu → Prop) : Prop :=
  ∀ tsap nsap, ∃ pdu, readPdu tsap nsap (.ofOctets du) = some pdu ∧ asked pdu

/-- The PDU is what an INVOKE.request asks for. -/
structure AsksFor (req : InvokeReq) (refNu : Int) (pdu : Pdu) : Prop where
  pdutype : pdu.pdutype = .invoke
  toESROSap : pdu.toESROSap = req.remESROSap
  invokeRefNu : pdu.invokeRefNu = refNu
  operationValue : pdu.operationValue = req.opValue
  encodingType : pdu.encodingType = req.encodingType
  data : pdu.data = some (req.parameter.getD [])

/-- The PDU is what a RESULT.request or an ERROR.request answers. -/
structure Answers (req : ResultReq) (refNu : Int) (pdu : Pdu) : Prop where
  pdutype : pdu.pdutype = if req.isResultNotError then .result else .error
  invokeRefNu : pdu.invokeRefNu = refNu
  encodingType : pdu.encodingType = req.encodingType
  data : pdu.data = some (req.parameter.getD [])

/-- The header has room for the selector and the operation value of the request. -/
structure Fits (req : InvokeReq) : Prop where
  sap : req.remESROSap < 16
  nonneg : 0 ≤ req.opValue
  small : req.opValue < 64

/-! ## The fields of an octet -/

/-- A statement about an octet is one about 256 numbers. -/
theorem octet_forall {P : UInt8 → Prop} (h : ∀ n : Fin 256, P (UInt8.ofNat n)) (b : UInt8) : P b := by
  have := h ⟨b.toNat, b.toNat_lt⟩
  rwa [UInt8.ofNat_toNat] at this

theorem selector_field (sel : SapSel) : ((sel <<< 4 ||| 0) &&& 0xF0) >>> 4 = sel % 16 :=
  octet_forall (P := fun sel => ((sel <<< 4 ||| 0) &&& 0xF0) >>> 4 = sel % 16)
    (by decide +kernel) sel

theorem operation_field (enc : EncodingType) (b : UInt8) :
    ((encodingBits enc ||| b) &&& 0x3F).toNat = b.toNat % 64 := by
  refine octet_forall (P := fun b => ((encodingBits enc ||| b) &&& 0x3F).toNat = b.toNat % 64) ?_ b
  cases enc <;> decide +kernel

theorem encoding_field (enc : EncodingType) {b : UInt8} (hb : b.toNat < 64) :
    EncodingType.ofBits (((encodingBits enc ||| b) &&& 0xC0) >>> 6).toNat = enc := by
  refine octet_forall (P := fun b => b.toNat < 64 →
    EncodingType.ofBits (((encodingBits enc ||| b) &&& 0xC0) >>> 6).toNat = enc) ?_ b hb
  cases enc <;> decide +kernel

theorem selector_fits (sel : SapSel) : sel % 16 = sel ↔ sel < 16 := by
  revert sel
  exact octet_forall (P := fun sel => sel % 16 = sel ↔ sel < 16) (by decide +kernel)

/-! ## The builders against the decoder -/

theorem size_ofOctets {h d : Octets} (hne : h ≠ []) : (DU.ofOctets (h ++ d)).size ≠ 0 := by
  have := List.length_pos_iff.2 hne
  simp only [DU.ofOctets, List.length_append]
  omega

theorem strip_octets (h d : Octets) : ((DU.ofOctets (h ++ d)).strip h.length).octets = d := by
  simp [DU.ofOctets, DU.strip, DU.octets]

/-- The PDU that the peer decodes from an INVOKE PDU. -/
theorem readPdu_invoke (sel : SapSel) (r op : Int) (enc : EncodingType) (d : Octets)
    (tsap : TSapSel) (nsap : NSapAddr) :
    ∃ pdu, readPdu tsap nsap (.ofOctets (invokePci sel r op enc ++ d)) = some pdu ∧
      pdu.pdutype = .invoke ∧ pdu.toESROSap = sel % 16 ∧ pdu.invokeRefNu = (put1 r).toNat ∧
      pdu.operationValue = ((put1 op).toNat % 64 : Nat) ∧
      pdu.encodingType = .ofBits (((encodingBits enc ||| put1 op) &&& 0xC0) >>> 6).toNat ∧
      pdu.data = some d := by
  have htype : ((DU.ofOctets (invokePci sel r op enc ++ d)).get1 0 &&& 0x07).toNat = 0 :=
    sapSel_type sel
  have hsize : (DU.ofOctets (invokePci sel r op enc ++ d)).size ≠ 0 := size_ofOctets (List.cons_ne_nil _ _)
  unfold readPdu
  rw [if_neg hsize]
  simp only [htype]
  refine ⟨_, rfl, rfl, selector_field sel, rfl, ?_, rfl, ?_⟩
  · exact congrArg Int.ofNat (operation_field enc (put1 op))
  · exact congrArg some (strip_octets (invokePci sel r op enc) d)

theorem readPdu_result (r : Int) (enc : EncodingType) (d : Octets) (tsap : TSapSel) (nsap : NSapAddr) :
    ∃ pdu, readPdu tsap nsap (.ofOctets (resultPci r enc ++ d)) = some pdu ∧
      pdu.pdutype = .result ∧ pdu.invokeRefNu = (put1 r).toNat ∧ pdu.encodingType = enc ∧
      pdu.data = some d := by
  have htype : ((DU.ofOctets (resultPci r enc ++ d)).get1 0 &&& 0x07).toNat = 1 :=
    (encodingBits_type enc).1
  have hsize : (DU.ofOctets (resultPci r enc ++ d)).size ≠ 0 := size_ofOctets (List.cons_ne_nil _ _)
  unfold readPdu
  rw [if_neg hsize]
  simp only [htype]
  refine ⟨_, rfl, rfl, rfl, encoding_field enc (by decide), ?_⟩
  exact congrArg some (strip_octets (resultPci r enc) d)

theorem readPdu_error (r w : Int) (enc : EncodingType) (d : Octets) (tsap : TSapSel)
    (nsap : NSapAddr) :
    ∃ pdu, readPdu tsap nsap (.ofOctets (errorPci r enc w ++ d)) = some pdu ∧
      pdu.pdutype = .error ∧ pdu.invokeRefNu = (put1 r).toNat ∧ pdu.encodingType = enc ∧
      pdu.data = some d := by
  have htype : ((DU.ofOctets (errorPci r enc w ++ d)).get1 0 &&& 0x07).toNat = 2 :=
    (encodingBits_type enc).2
  have hsize : (DU.ofOctets (errorPci r enc w ++ d)).size ≠ 0 := size_ofOctets (List.cons_ne_nil _ _)
  unfold readPdu
  rw [if_neg hsize]
  simp only [htype]
  refine ⟨_, rfl, rfl, rfl, encoding_field enc (by decide), ?_⟩
  exact congrArg some (strip_octets (errorPci r enc w) d)

/-- A reference number that is in use fits in its octet. -/
theorem refNu_fits {r : Nat} (hr : r < totalRefNumbers) : ((put1 r).toNat : Int) = r :=
  put1_toNat (by omega) (by unfold totalRefNumbers at hr; omega)

/-- **The INVOKE PDU of a request** is decoded as what the request asks for exactly when its
selector and its operation value fit. -/
theorem decodes_invoke {req : InvokeReq} {r : Nat} (hr : r < totalRefNumbers) :
    Decodes (invokePci req.remESROSap r req.opValue req.encodingType ++ req.parameter.getD [])
      (AsksFor req r) ↔ Fits req := by
  have hread := readPdu_invoke req.remESROSap r req.opValue req.encodingType (req.parameter.getD [])
  constructor
  · intro h
    obtain ⟨pdu, hp, hhead⟩ := h [] []
    obtain ⟨pdu', hp', -, hsap, -, hop, -⟩ := hread [] []
    obtain rfl : pdu = pdu' := Option.some.inj (hp.symm.trans hp')
    have hbound : (put1 req.opValue).toNat % 64 < 64 := Nat.mod_lt _ (by decide)
    rw [hhead.operationValue] at hop
    refine ⟨(selector_fits _).1 (hsap.symm.trans hhead.toESROSap), ?_, ?_⟩ <;> omega
  · rintro ⟨hsap, hnonneg, hsmall⟩ tsap nsap
    obtain ⟨pdu, hp, htype, hsel, href, hop, henc, hdata⟩ := hread tsap nsap
    have hput : ((put1 req.opValue).toNat : Int) = req.opValue := put1_toNat hnonneg (by omega)
    refine ⟨pdu, hp, htype, ?_, ?_, ?_, ?_, hdata⟩
    · rw [hsel, (selector_fits _).2 hsap]
    · rw [href, refNu_fits hr]
    · rw [hop]
      omega
    · rw [henc]
      exact encoding_field _ (by omega)

/-- **The PDU of a reply** is decoded as what it answers. -/
theorem decodes_reply {req : ResultReq} {r : Nat} (hr : r < totalRefNumbers) :
    Decodes ((if req.isResultNotError then resultPci r req.encodingType
      else errorPci r req.encodingType req.errorValue) ++ req.parameter.getD []) (Answers req r) := by
  intro tsap nsap
  cases hres : req.isResultNotError with
  | true =>
    obtain ⟨pdu, hp, htype, href, henc, hdata⟩ :=
      readPdu_result r req.encodingType (req.parameter.getD []) tsap nsap
    refine ⟨pdu, by simpa using hp, by simp [hres, htype], ?_, henc, hdata⟩
    rw [href, refNu_fits hr]
  | false =>
    obtain ⟨pdu, hp, htype, href, henc, hdata⟩ :=
      readPdu_error r req.errorValue req.encodingType (req.parameter.getD []) tsap nsap
    refine ⟨pdu, by simpa using hp, by simp [hres, htype], ?_, henc, hdata⟩
    rw [href, refNu_fits hr]

/-! ## What a request builds -/

/-- `DU_link` gives the parameter of the request, or there is no view left for a PDU. -/
theorem linkParameter_cases (env : Env) (p : Option Octets) :
    (linkParameter env p).2 = p ∨
      ((linkParameter env p).2 = none ∧ (linkParameter env p).1.views = 0) := by
  cases p with
  | none => exact .inl rfl
  | some d =>
    by_cases hv : 0 < env.views
    · exact .inl (if_pos hv)
    · refine .inr ⟨if_neg hv, ?_⟩
      show env.views - 1 = 0
      omega

/-- A parameter has been linked where there is a view left for its PDU. -/
theorem linkParameter_of_duFor {p : Option Octets} (hviews : m.views = (linkParameter env p).1.views)
    (hdu : (duFor m (linkParameter env p).2).2 ≠ none) : (linkParameter env p).2 = p := by
  refine (linkParameter_cases env p).resolve_right ?_
  rintro ⟨hnone, hzero⟩
  rw [hnone] at hdu
  exact hdu (by simp [duFor, duAllocOk, hviews, hzero])

/-- Without a data unit for the header, no INVOKE PDU is built. -/
theorem invokerKeep_none (h : (duFor m c.invokeReq.parameter).2 = none) :
    (invokerKeep c m).1.invoke = m.invoke ∧ (invokerKeep c m).2 = none := by
  simp [invokerKeep, invokePdu, h]

theorem invokerInvokeReq_none (h : (duFor m c.invokeReq.parameter).2 = none)
    (hi : m.invoke.invokePduSeq = []) : (invokerInvokeReq c m).1.invoke.invokePduSeq = [] := by
  have hassign : (invokerAssign c m).1.invoke.invokePduSeq = [] := hi
  have hdu : (duFor (invokerAssign c m).1 c.invokeReq.parameter).2 = none := by
    cases hp : c.invokeReq.parameter with
    | none => rw [hp] at h; exact h
    | some d => rw [hp] at h; cases h
  obtain ⟨hk, hn⟩ := invokerKeep_none hdu
  unfold invokerInvokeReq
  dsimp only
  split
  · exact hi
  split
  · exact hassign
  · rw [hn, hk]
    exact hassign

/-- Without a data unit for the header, no reply is built. -/
theorem replyKeep_none (h : (duFor m c.resultReq.parameter).2 = none) :
    (replyKeep c m).1.invoke = m.invoke ∧ (replyKeep c m).2 = none := by
  unfold replyKeep replyPdu
  split <;> simp [resultPdu, errorPdu, h]

/-- An INVOKE PDU that carries what the request asks for, under the number `r`. -/
def builtRequest (req : InvokeReq) (r : Int) : Octets :=
  invokePci req.remESROSap r req.opValue req.encodingType ++ req.parameter.getD []

/-- The PDU of a reply, under the number `r`. -/
def builtReply (req : ResultReq) (r : Int) : Octets :=
  (if req.isResultNotError then resultPci r req.encodingType
    else errorPci r req.encodingType req.errorValue) ++ req.parameter.getD []

/-- What a new invoker keeps and hands to UDP is the one INVOKE PDU of its request. -/
theorem request_builds (hi : m.invoke.invokePduSeq = []) (ho : m.out = [])
    (hd : du ∈ (invokerInvokeReq c m).1.invoke.invokePduSeq ∨
      du ∈ pdusOf c.self (invokerInvokeReq c m).1.out) :
    du = requestPdu c m ∧ (requestRef c m).2 ≠ -1 ∧
      (invokerInvokeReq c m).1.invoke.invokeRefNu = (requestRef c m).2 ∧
      (duFor m c.invokeReq.parameter).2 ≠ none := by
  rcases invokerInvokeReq_spec c m with h | h | ⟨kept, h, hk⟩
  · rw [h, hi, ho] at hd
    simp at hd
  · refine ⟨?_, h.number, by rw [h.invoke], fun hn => ?_⟩
    · rw [h.invoke, h.out, hi, ho, List.nil_append, List.nil_append, pdusOf_toPeer, if_pos rfl] at hd
      simpa using hd
    · have := invokerInvokeReq_none hn hi
      rw [h.invoke] at this
      simp at this
  · rw [h.invoke, h.out, hi, ho] at hd
    rcases hk with rfl | ⟨rfl, hnum⟩
    · simp at hd
    · refine ⟨by simpa using hd, hnum, by rw [h.invoke], fun hn => ?_⟩
      have := invokerInvokeReq_none hn hi
      rw [h.invoke] at this
      simp at this

theorem fires_invokeReq {sel : SapSel} {req : InvokeReq}
    (h : fires cfg e ⟨.invokeReq sel req, env⟩ = some f) :
    f.c.env = (linkParameter env req.parameter).1 := by
  simp only [fires, Option.bind_eq_some_iff] at h
  obtain ⟨sap, -, h⟩ := h
  split at h
  · cases h
  split at h
  · cases h
  · obtain ⟨v, -, rfl⟩ := Option.map_eq_some_iff.1 h
    rfl

/-- An INVOKE.request runs a machine that it has created. -/
theorem Origin.requested {sel : SapSel} {req : InvokeReq}
    (ho : Origin cfg e ⟨.invokeReq sel req, env⟩ f) :
    (∃ sap d, Creates e f sap d) ∧ f.evt = .invokeReq ∧
      f.c.invokeReq = { req with parameter := (linkParameter env req.parameter).2 } := by
  have hkind := ho.kind
  cases ho with
  | @request _ req' sap hev hsap hself he hfv hevt hreq hextra =>
    obtain ⟨rfl, rfl⟩ := Event.invokeReq.inj hev
    rcases hkind with hk | ⟨w, q, hk⟩
    · exact ⟨hk, hevt, hreq⟩
    · exact absurd hevt hk.evt
  | arrival hev | duplicate hev | answer hev | timer hev => cases hev
  | reply hev => rcases hev with ⟨_, _, _, hev, -⟩ | ⟨_, _, _, _, hev, -⟩ <;> cases hev

theorem mem_out_invokeDesc {sap : SapInfo} {d : TransDiag} (hk : Creates e f sap d)
    (hout : ∀ x ∈ f.after.out, x ≠ .invokeDesc i) (hacc : .invokeDesc i ∈ f.out) : i = f.c.self := by
  unfold Fire.out at hacc
  rcases List.mem_append.1 hacc with hacc | hacc
  · exact absurd rfl (hout _ hacc)
  · rw [hk.extra] at hacc
    rw [hk.self]
    dsimp only at hacc
    split at hacc
    · cases hacc
    · split at hacc <;> simp at hacc
      exact hacc

variable {s s' : State} {act : Machine → Machine × SuccFail}

theorem Row.invokeReq_act (h : Row c s .invokeReq act s') : act = invokerInvokeReq c := by
  cases h
  rfl

theorem Row.resultReq_act (h : Row c s .resultReq act s') :
    ∃ name time, ReplyTimer name time ∧ act = performerResultReq name time c := by
  cases h with
  | resultReq => exact ⟨_, _, replyTimer_retran, rfl⟩
  | resultReq2 => exact ⟨_, _, replyTimer_inactivity, rfl⟩

/-- The PDUs of an accepted INVOKE.request, kept or sent, are the one that it asks for. -/
theorem invokeReq_builds {sel : SapSel} {req : InvokeReq}
    (h : step cfg e ⟨.invokeReq sel req, env⟩ = some (e', o)) (hacc : .invokeDesc i ∈ o)
    (hv : e'.heap i = some v) (hd : du ∈ v.invokePduSeq ∨ du ∈ pdusOf i o) :
    ∃ r : Nat, r < totalRefNumbers ∧ v.invokeRefNu = r ∧ du = builtRequest req r := by
  rcases step_cases h with ⟨f, hf, rfl, rfl⟩ | ⟨-, hq⟩
  · obtain ⟨ho, hc⟩ := fires_origin hf
    have henv := fires_invokeReq hf
    obtain ⟨⟨sap, d, hk⟩, hevt, hreq⟩ := ho.requested
    obtain ⟨act, s', ht⟩ := hk.takes
    have hrow := ht.row
    rw [hevt] at hrow
    have hseq : f.before.invoke.invokePduSeq = [] := by rw [Fire.before_invoke, hk.v]; rfl
    obtain rfl := hrow.invokeReq_act
    have hself : i = f.c.self := by
      refine mem_out_invokeDesc hk (fun x hx => ?_) hacc
      rw [ht.after_out] at hx
      rcases invokerInvokeReq_spec f.c f.before with hs | hs | ⟨_, hs, -⟩
      · rw [hs] at hx; cases hx
      · rw [hs.out] at hx
        obtain rfl := List.mem_singleton.1 hx
        exact fun h => by cases h
      · rw [hs.out] at hx; cases hx
    subst hself
    obtain rfl : f.after.invoke = v := by simpa using hv
    rw [ho.pdusOf_out, pdusOf_udps, ht.after_out, ht.after_invoke] at hd
    obtain ⟨rfl, hnum, href, hdu⟩ := request_builds hseq rfl hd
    rw [ht.after_invoke]
    obtain ⟨r, hr, hlt⟩ : ∃ r : Nat, (requestRef f.c f.before).2 = r ∧ r < totalRefNumbers := by
      rcases refNew_cases f.before.refs f.c.nsapOf f.c.self (invokeReqFields f.c f.before.invoke) with
        ⟨hf, -⟩ | ⟨r, hr, hlt, -⟩
      · exact absurd hf hnum
      · exact ⟨r, hr, hlt⟩
    refine ⟨r, hlt, href.trans hr, ?_⟩
    rw [hreq] at hdu
    have hpar := linkParameter_of_duFor (congrArg Env.views henv) hdu
    unfold requestPdu builtRequest
    rw [hr, hreq, hpar]
  · cases hq with
    | nothing ho => rcases ho _ hacc with ⟨n, hn⟩ | ⟨_, _, _, _, hn⟩ <;> cases hn
    | _ => simp at hacc

/-- The event is a RESULT.request or an ERROR.request to answer the invocation `i`. -/
inductive Replies (i : InvokeId) : Event → ResultReq → Prop
  | result (u enc p) : Replies i (.resultReq i u enc p) ⟨true, u, enc, 0, p⟩
  | error (u enc w p) : Replies i (.errorReq i u enc w p) ⟨false, u, enc, w, p⟩

theorem Replies.fires {ev : Event} {req : ResultReq} (hr : Replies i ev req) (hv : e.heap i = some v) :
    ∃ f, fires cfg e ⟨ev, env⟩ = some f ∧ f.v = v ∧ f.c.self = i ∧ f.evt = .resultReq ∧
      f.c.env = (linkParameter env req.parameter).1 ∧
      f.c.resultReq = { req with parameter := (linkParameter env req.parameter).2 } := by
  cases hr <;> simp only [Erop.fires, fires.replyFire, hv, Option.map_some] <;>
    exact ⟨_, rfl, rfl, rfl, rfl, rfl, rfl⟩

/-- Without a data unit for the header, no reply is kept. -/
theorem performerResultReq_none {name : TmrName} {time : InvokeInfo → Int}
    (h : (duFor m c.resultReq.parameter).2 = none) :
    (performerResultReq name time c m).1.invoke.resultPduSeq = m.invoke.resultPduSeq := by
  unfold performerResultReq
  dsimp only
  split
  · rfl
  · have hdu : (duFor { m with
        invoke := tmrSetValues c.cfg (replyFields c m.invoke)
        refs := (refKeep m.refs c.nsapOf (replyFields c m.invoke).invokeRefNu c.self
          (replyFields c m.invoke)).1 } c.resultReq.parameter).2 = none := by
      cases hp : c.resultReq.parameter with
      | none => rw [hp] at h; exact h
      | some d => rw [hp] at h; cases h
    obtain ⟨hk, hn⟩ := replyKeep_none hdu
    rw [hn, hk]
    rfl

/-- A request to answer adds nothing to the kept replies, or its PDU under a number in use. -/
theorem reply_builds {name : TmrName} {time : InvokeInfo → Int} (hn : ReplyTimer name time) :
    ∃ built, (performerResultReq name time c m).1.invoke.resultPduSeq =
        m.invoke.resultPduSeq ++ built ∧
      (performerResultReq name time c m).1.invoke.invokeRefNu = m.invoke.invokeRefNu ∧
      ∀ du ∈ built, du = replyOctets c m ∧ (replyRef c m).2 = .success ∧
        (duFor m c.resultReq.parameter).2 ≠ none := by
  have hkept : ∀ {kept q out}, Replied c m (performerResultReq name time c m).1 kept q out →
      (kept = [] ∨ kept = [replyOctets c m]) → ∃ built,
      (performerResultReq name time c m).1.invoke.resultPduSeq = m.invoke.resultPduSeq ++ built ∧
      (performerResultReq name time c m).1.invoke.invokeRefNu = m.invoke.invokeRefNu ∧
      ∀ du ∈ built, du = replyOctets c m ∧ (replyRef c m).2 = .success ∧
        (duFor m c.resultReq.parameter).2 ≠ none := by
    intro kept q out h hk
    have hseq : (performerResultReq name time c m).1.invoke.resultPduSeq =
        m.invoke.resultPduSeq ++ kept := by rw [h.invoke]
    refine ⟨kept, hseq, by rw [h.invoke]; rfl, fun du hd => ?_⟩
    rcases hk with rfl | rfl
    · cases hd
    · refine ⟨List.mem_singleton.1 hd, h.accepted, fun hdu => ?_⟩
      rw [performerResultReq_none hdu] at hseq
      simp at hseq
  rcases performerResultReq_spec hn c m with ⟨-, h⟩ | h | ⟨_, h, hk⟩
  · refine ⟨[], by rw [h.invoke]; exact (List.append_nil _).symm, by rw [h.invoke]; rfl, ?_⟩
    simp
  · exact hkept h (.inr rfl)
  · exact hkept h hk

/-- The PDUs that a request to answer adds to the kept ones are the one that it asks for. -/
theorem replyReq_builds {ev : Event} {req : ResultReq} (hr : Replies i ev req)
    (h : step cfg e ⟨ev, env⟩ = some (e', o)) (hv : e.heap i = some v) (hv' : e'.heap i = some v') :
    ∃ built, v'.resultPduSeq = v.resultPduSeq ++ built ∧
      ∀ du ∈ built, ∃ r : Nat, r < totalRefNumbers ∧ v'.invokeRefNu = r ∧ du = builtReply req r := by
  have hfires : ∃ f, fires cfg e ⟨ev, env⟩ = some f ∧ _ := hr.fires hv
  obtain ⟨f, hf, rfl, rfl, hevt, henv, hreq⟩ := hfires
  rcases step_cases h with ⟨g, hg, rfl, rfl⟩ | ⟨hnone, -⟩
  · obtain rfl : f = g := Option.some.inj (hf.symm.trans hg)
    obtain rfl : f.after.invoke = v' := by simpa using hv'
    rcases f.cases with hn | ⟨s, act, s', ht⟩
    · refine ⟨[], ?_, by simp⟩
      rw [hn.after, Fire.before_invoke, List.append_nil]
    have hrow := ht.row
    rw [hevt] at hrow
    obtain ⟨name, time, hname, rfl⟩ := hrow.resultReq_act
    obtain ⟨built, hseq, href, hbuilt⟩ := reply_builds (c := f.c) (m := f.before) hname
    rw [ht.after_invoke]
    refine ⟨built, hseq, fun du hd => ?_⟩
    obtain ⟨rfl, hacc, hdu⟩ := hbuilt du hd
    obtain ⟨r, hr, hlt, -⟩ := refKeep_success hacc
    refine ⟨r, hlt, href.trans hr, ?_⟩
    rw [hreq] at hdu
    have hpar := linkParameter_of_duFor (congrArg Env.views henv) hdu
    unfold replyOctets builtReply
    rw [hr, hreq, hpar]
  · rw [hf] at hnone
    cases hnone

/-- **Header round trip.** The INVOKE PDUs that an accepted INVOKE.request keeps or hands to UDP are
decoded as what the request asks for exactly when its selector and its operation value fit in the
header; the PDUs that a request to answer builds are always decoded as what it answers. -/
theorem header_round_trip :
    (∀ sel req e' o i v, step cfg e ⟨.invokeReq sel req, env⟩ = some (e', o) →
      .invokeDesc i ∈ o → e'.heap i = some v → ∀ du, (du ∈ v.invokePduSeq ∨ du ∈ pdusOf i o) →
        (Decodes du (AsksFor req v.invokeRefNu) ↔ Fits req)) ∧
    ∀ i ev req e' o v v', Replies i ev req → step cfg e ⟨ev, env⟩ = some (e', o) →
      e.heap i = some v → e'.heap i = some v' → ∃ built, v'.resultPduSeq = v.resultPduSeq ++ built ∧
        ∀ du ∈ built, Decodes du (Answers req v'.invokeRefNu) := by
  refine ⟨fun sel req e' o i v hs hacc hv du hd => ?_, fun i ev req e' o v v' hr hs hv hv' => ?_⟩
  · obtain ⟨r, hlt, hr, rfl⟩ := invokeReq_builds hs hacc hv hd
    rw [hr]
    exact decodes_invoke hlt
  · obtain ⟨built, hseq, hbuilt⟩ := replyReq_builds hr hs hv hv'
    refine ⟨built, hseq, fun du hd => ?_⟩
    obtain ⟨r, hlt, hnum, rfl⟩ := hbuilt du hd
    rw [hnum]
    exact decodes_reply hlt

/-! ## Runs -/

/-- A request to operation 64, one more than the header has room for. -/
def largeOperation : InvokeReq := ⟨7, 2, [], [10, 0, 0, 1], 64, .ber, some [42]⟩

/-- A request of the kind that fits. -/
def smallOperation : InvokeReq := { largeOperation with opValue := 63 }

/-- A SAP is bound and the request is made; the first octets of the INVOKE PDU that is kept. -/
theorem requested_keeps (req : InvokeReq) (du : Octets)
    (h : ((step {} (Engine.init 0) ⟨.sapBind 1 3, {}⟩).bind fun r =>
      (step {} r.1 ⟨.invokeReq 1 req, {}⟩).map fun r =>
        decide (.invokeDesc 0 ∈ r.2 ∧ ((r.1.heap 0).map (·.invokePduSeq)) = some [du])) = some true) :
    ∃ hist e e' o v, Run.Reach (engine {}) Run.any hist e ∧
      step {} e ⟨.invokeReq 1 req, {}⟩ = some (e', o) ∧ .invokeDesc 0 ∈ o ∧ e'.heap 0 = some v ∧
      v.invokePduSeq = [du] := by
  obtain ⟨⟨e, o⟩, hs, h⟩ := Option.bind_eq_some_iff.1 h
  obtain ⟨⟨e', o'⟩, hs', h⟩ := Option.map_eq_some_iff.1 h
  obtain ⟨hacc, hheap⟩ := of_decide_eq_true h
  obtain ⟨v, hv, hdu⟩ := Option.map_eq_some_iff.1 hheap
  have hbind : (engine {}).step (Engine.init 0) ⟨.sapBind 1 3, {}⟩ = some (e, o) := hs
  have hx : Run.Exec (engine {}) Run.any (Engine.init 0) ([] ++ o) e := .snoc .refl trivial hbind
  exact ⟨_, e, e', o', v, ⟨_, ⟨0, rfl⟩, hx⟩, hs', hacc, hv, hdu⟩

theorem header_round_trip_small : ∃ e e' o v du,
    step {} e ⟨.invokeReq 1 smallOperation, {}⟩ = some (e', o) ∧ e'.heap 0 = some v ∧
      du ∈ v.invokePduSeq ∧ Decodes du (AsksFor smallOperation v.invokeRefNu) := by
  obtain ⟨hist, e, e', o, v, -, hs, hacc, hv, hseq⟩ :=
    requested_keeps smallOperation [32, 1, 63, 42] (by decide)
  have hd : [32, 1, 63, 42] ∈ v.invokePduSeq := by rw [hseq]; exact List.mem_singleton_self _
  refine ⟨e, e', o, v, _, hs, hv, hd, ?_⟩
  exact (header_round_trip.1 1 smallOperation e' o 0 v hs hacc hv _ (.inl hd)).2
    ⟨by decide, by decide, by decide⟩

/-- **A larger operation value spills**: an accepted request to operation 64 in BER is decoded by the
peer as one to operation 0 in PER. -/
theorem header_spill : ∃ hist e e' o v, Run.Reach (engine {}) Run.any hist e ∧
    step {} e ⟨.invokeReq 1 largeOperation, {}⟩ = some (e', o) ∧ .invokeDesc 0 ∈ o ∧
      e'.heap 0 = some v ∧ ∃ du ∈ v.invokePduSeq,
        ¬Decodes du (AsksFor largeOperation v.invokeRefNu) ∧
        Decodes du (fun pdu => pdu.operationValue = 0 ∧ pdu.encodingType = .per) := by
  obtain ⟨hist, e, e', o, v, hreach, hs, hacc, hv, hseq⟩ :=
    requested_keeps largeOperation [32, 1, 64, 42] (by decide)
  refine ⟨hist, e, e', o, v, hreach, hs, hacc, hv, [32, 1, 64, 42], ?_, fun h => ?_, fun tsap nsap => ?_⟩
  · rw [hseq]
    exact List.mem_singleton_self _
  · obtain ⟨pdu, hp, hasks⟩ := h [] []
    have hop := hasks.operationValue
    obtain rfl := Option.some.inj hp
    exact absurd hop (by decide)
  · exact ⟨_, rfl, rfl, rfl⟩

end Erop
