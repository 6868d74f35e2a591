import Emsd.Proof.Tasks

/-!
# What a machine hands to UDP

`Sends` lists the PDUs that the rows hand to UDP; no row hands over more than one
(`row_hands`). A PDU that is sent again is one of those that its `InvokeInfo` keeps, and of
these `KeptOk` says what they are: the INVOKE PDU of an invoker, or the reply of a performer.
-/

namespace Erop

open Ocp FunctionalUnit Engine

variable {cfg : Config} {e e' : Engine} {inp : Input} {f : Fire} {o : List Out} {i : InvokeId}
  {c : Ctx} {m m' : Machine} {s s' : State} {evt : Evt} {act : Machine → Machine × SuccFail}
  {v v' : InvokeInfo} {du : Octets}

/-! ## The header of a PDU -/

/-- The PDU type, in the low bits of the first octet. -/
def typeBits (du : Octets) : Nat := ((DU.ofOctets du).get1 0 &&& 0x07).toNat

/-- The octet that carries the reference number. -/
def refOctet (du : Octets) : UInt8 := (DU.ofOctets du).get1 1

theorem encodingBits_type (enc : EncodingType) :
    ((encodingBits enc ||| 1) &&& 0x07).toNat = 1 ∧ ((encodingBits enc ||| 2) &&& 0x07).toNat = 2 := by
  cases enc <;> decide

theorem sapSel_type (sel : SapSel) : ((sel <<< 4 ||| 0) &&& 0x07).toNat = 0 := by
  have hbits : ∀ n : Fin 256, ((UInt8.ofNat n <<< 4 ||| 0) &&& 0x07).toNat = 0 := by decide +kernel
  have h := hbits ⟨sel.toNat, sel.toNat_lt⟩
  rwa [UInt8.ofNat_toNat] at h

theorem typeBits_invoke {sel : SapSel} {r op : Int} {enc : EncodingType} {d : Octets} :
    typeBits (invokePci sel r op enc ++ d) = 0 := sapSel_type sel

theorem typeBits_result {r : Int} {enc : EncodingType} {d : Octets} :
    typeBits (resultPci r enc ++ d) = 1 := (encodingBits_type enc).1

theorem typeBits_error {r w : Int} {enc : EncodingType} {d : Octets} :
    typeBits (errorPci r enc w ++ d) = 2 := (encodingBits_type enc).2

theorem typeBits_request : typeBits (requestPdu c m) = 0 := typeBits_invoke

theorem typeBits_reply : typeBits (replyOctets c m) = 1 ∨ typeBits (replyOctets c m) = 2 := by
  unfold replyOctets
  split
  · exact .inl typeBits_result
  · exact .inr typeBits_error

theorem typeBits_failure {r w : Int} : typeBits (failureOctets r w) = 4 := by
  show ((4 : UInt8) &&& 0x07).toNat = 4
  decide

theorem typeBits_ack {r : UInt8} : typeBits [3, r] = 3 := by
  show ((3 : UInt8) &&& 0x07).toNat = 3
  decide

theorem refOctet_request : refOctet (requestPdu c m) = put1 (requestRef c m).2 := rfl

theorem refOctet_reply : refOctet (replyOctets c m) = put1 m.invoke.invokeRefNu := by
  unfold replyOctets
  split <;> rfl

/-! ## Handed to UDP -/

def Out.isUdp : Out → Bool
  | udp .. => true
  | _ => false

def udps (out : List Out) : List Out := out.filter Out.isUdp

@[simp] theorem udps_nil : udps [] = [] := rfl

@[simp] theorem udps_append {a b : List Out} : udps (a ++ b) = udps a ++ udps b := List.filter_append ..

@[simp] theorem udps_sch {t : Task} : udps [.sch t] = [] := rfl

@[simp] theorem udps_toPeer : udps [toPeer c v du] = [toPeer c v du] := rfl

@[simp] theorem udps_indicated {t : Task} : udps (indicated c t) = [] := by
  unfold indicated
  split <;> rfl

@[simp] theorem udps_ite {p : Prop} [Decidable p] :
    udps (if p then [toPeer c v du] else []) = if p then [toPeer c v du] else [] := by
  split <;> rfl

theorem udps_before {a b : List Out} (ha : udps a = []) : udps (a ++ b) = udps b := by
  rw [udps_append, ha, List.nil_append]

theorem udps_after {a b : List Out} (hb : udps b = []) : udps (a ++ b) = udps a := by
  rw [udps_append, hb, List.append_nil]

/-- The PDU that the row of a state and an event hands to UDP; `v` is the `InvokeInfo` that the
row leaves. -/
inductive Sends (c : Ctx) (v : InvokeInfo) : State → Evt → Octets → Prop
  | request (fu) {d} (h : d ∈ v.invokePduSeq) : Sends c v (invokerStart fu) .invokeReq d
  | retran (fu) {d} (h : d ∈ v.invokePduSeq) (hd : c.tmrInfo.datum < v.nuOfRetrans) :
      Sends c v (sent fu) .invokePduRetranTimer d
  | ack {a} (ha : a = .invokePduSent ∨ a = .ackPduSent) :
      Sends c v a .pduResult [3, put1 v.invokeRefNu]
  | unnoted (hm : c.env.memGet = false) :
      Sends c v .invokePduSent .pduResult (failureOctets v.invokeRefNu failureUserNotResponding)
  | unshown (hm : c.env.memGet = false) :
      Sends c v .clPerformerStart .pduInvoke (failureOctets v.invokeRefNu failureUserNotResponding)
  | reply (fu) {d} (h : d ∈ v.resultPduSeq) : Sends c v (received fu) .resultReq d
  | resultRetran {d} (h : d ∈ v.resultPduSeq) (hd : c.tmrInfo.datum < v.nuOfRetrans) :
      Sends c v .ackPduWait .resultPduRetranTimer d
  | resend (fu) {d} (h : d ∈ v.resultPduSeq) : Sends c v (replied fu) .pduInvoke d
  | noResponse (fu) {x} (hx : x = .perfNoResponseTimer ∨ x = .internal) :
      Sends c v (received fu) x (failureOctets v.invokeRefNu failureUserNotResponding)

/-- At most one PDU is handed to UDP, to the peer of the invocation. -/
def Hands (c : Ctx) (m m' : Machine) (P : Octets → Prop) : Prop :=
  udps m'.out = udps m.out ∨ ∃ du, P du ∧ udps m'.out = udps m.out ++ [toPeer c m'.invoke du]

theorem Hands.none {P : Octets → Prop} {l : List Out} (h : m'.out = m.out ++ l) (hl : udps l = []) :
    Hands c m m' P := by
  refine .inl ?_
  rw [h, udps_append, hl, List.append_nil]

theorem Hands.some {P : Octets → Prop} {l : List Out} (hp : P du) (h : m'.out = m.out ++ l)
    (hl : udps l = [toPeer c v du]) (ht : m'.invoke.remTsapSel = v.remTsapSel)
    (hn : m'.invoke.remNsapAddr = v.remNsapAddr) : Hands c m m' P := by
  refine .inr ⟨du, hp, ?_⟩
  have hpeer : toPeer c m'.invoke du = toPeer c v du := by simp only [toPeer, ht, hn]
  rw [h, udps_append, hl, hpeer]

theorem Hands.ite {P : Octets → Prop} {q : Prop} [Decidable q] {l : List Out} (hp : q → P du)
    (h : m'.out = m.out ++ l) (hl : udps l = if q then [toPeer c v du] else [])
    (ht : m'.invoke.remTsapSel = v.remTsapSel) (hn : m'.invoke.remNsapAddr = v.remNsapAddr) :
    Hands c m m' P := by
  split at hl
  · rename_i hq
    exact .some (hp hq) h hl ht hn
  · exact .none h hl

theorem canRetrieve_mem {seq : List Octets} (h : canRetrieve m seq = true) : seq.headD [] ∈ seq := by
  cases seq with
  | nil => simp [canRetrieve] at h
  | cons du _ => exact List.mem_cons_self

theorem headD_append_mem {seq : List Octets} : (seq ++ [du]).headD [] ∈ seq ++ [du] := by
  cases seq <;> simp

theorem reply_hands {name : TmrName} {time : InvokeInfo → Int} (hn : ReplyTimer name time)
    (fu : FunctionalUnit) :
    Hands c m (performerResultReq name time c m).1
      (Sends c (performerResultReq name time c m).1.invoke (received fu) .resultReq) := by
  rcases performerResultReq_spec hn c m with ⟨-, h⟩ | h | ⟨_, h, -⟩
  · exact .none h.out rfl
  · refine .some (.reply fu ?_) h.out rfl (by rw [h.invoke]; rfl) (by rw [h.invoke]; rfl)
    rw [h.invoke]
    exact headD_append_mem
  · exact .none h.out rfl

theorem noResponse_hands (fu : FunctionalUnit) (he : evt = .perfNoResponseTimer ∨ evt = .internal) :
    Hands c m (performerNoResponse c m).1
      (Sends c (performerNoResponse c m).1.invoke (received fu) evt) := by
  obtain ⟨hi, -, -, ho⟩ := performerNoResponse_does (c := c) (m := m)
  have hr : (performerNoResponse c m).1.invoke.invokeRefNu = m.invoke.invokeRefNu := by rw [hi]
  refine .ite (fun _ => ?_) ho ((udps_after rfl).trans ((udps_before udps_indicated).trans udps_ite))
    (by rw [hi]) (by rw [hi])
  rw [← hr]
  exact .noResponse fu he

/-- **What a row hands to UDP.** -/
theorem row_hands (h : Row c s evt act s') (hf : c.Fits evt) :
    Hands c m (act m).1 (Sends c (act m).1.invoke s evt) := by
  cases h with
  | invokeReq fu =>
    rcases invokerInvokeReq_spec c m with h | h | ⟨_, h, -⟩
    · exact .inl (by rw [h])
    · refine .some (.request fu ?_) h.out rfl (by rw [h.invoke]) (by rw [h.invoke])
      rw [h.invoke]
      exact headD_append_mem
    · exact .none h.out rfl
  | retran fu =>
    obtain ⟨hi, -, -, ho⟩ := invokerRetran_does (m := m) hf
    refine .ite (fun hq => ?_) ho udps_ite (by rw [hi]) (by rw [hi])
    rw [hi]
    exact .retran fu (canRetrieve_mem hq.2.2) hq.1
  | last fu => exact .none (invokerLast_does hf).out udps_indicated
  | result =>
    obtain ⟨hi, -, -, ho⟩ := trClInvoker04_does (m := m) hf
    have hr : (trClInvoker04 c m).1.invoke.invokeRefNu = c.pdu.invokeRefNu := by rw [hi]; rfl
    refine .ite (fun _ => ?_) ho ((udps_before udps_indicated).trans udps_ite) (by rw [hi]; rfl)
      (by rw [hi]; rfl)
    rw [← hr]
    split
    · exact .ack (.inl rfl)
    · rename_i hm
      exact .unnoted (by simpa using hm)
  | result2 => exact .none (tr2ClInvoker04_does hf).out udps_indicated
  | failure fu => exact .none (invokerFailure_does hf).out udps_indicated
  | holdOn => exact .inl rfl
  | dupResult =>
    obtain ⟨hi, -, -, ho⟩ := trClInvoker07_does (m := m) hf
    refine .ite (fun _ => ?_) ho udps_ite (by rw [hi]) (by rw [hi])
    rw [← hi]
    exact .ack (.inr rfl)
  | inactivity => exact .none (trClInvoker10_does hf).out rfl
  | lateResult => exact .none (trClInvoker09_does hf).out rfl
  | lateResult2 => exact .none (tr2ClInvoker06_does hf).out rfl
  | invokerRelease fu => exact .none (scheduleRelease_does hf).out rfl
  | invoke =>
    obtain ⟨hi, -, -, ho⟩ := trClPerformer01_does (m := m) hf
    have hr : (trClPerformer01 c m).1.invoke.invokeRefNu = c.pdu.invokeRefNu := by rw [hi]; rfl
    refine .ite (fun hq => ?_) ho ((udps_before udps_indicated).trans udps_ite) (by rw [hi])
      (by rw [hi])
    rw [← hr]
    exact .unshown hq.1
  | invoke2 => exact .none (tr2ClPerformer01_does hf).out udps_indicated
  | resultReq => exact reply_hands replyTimer_retran threeWay
  | resultReq2 => exact reply_hands replyTimer_inactivity twoWay
  | dupInvoke fu => exact .none performerDropInvoke_does.out rfl
  | noResponse fu => exact noResponse_hands fu (.inl rfl)
  | internal fu => exact noResponse_hands fu (.inr rfl)
  | ack => exact .none trClPerformer03_does.out udps_indicated
  | resultRetran =>
    obtain ⟨hi, -, -, ho⟩ := trClPerformer05_does (c := c) (m := m)
    refine .ite (fun hq => ?_) ho udps_ite (by rw [hi]) (by rw [hi])
    rw [hi]
    exact .resultRetran (canRetrieve_mem hq.2) hq.1
  | resultLast => exact .none performerTransmissionFailure_does.out udps_indicated
  | resend fu =>
    obtain ⟨hi, -, -, ho⟩ := performerResendResult_does (c := c) (m := m)
    refine .ite (fun hq => .resend fu ?_) ho udps_ite (by rw [hi]) (by rw [hi])
    rw [hi]
    exact canRetrieve_mem hq
  | inactivity2 => exact .none performerConfirm_does.out udps_indicated
  | lateInvoke fu => exact .none (lateInvoke_does hf).out rfl
  | lateAck => exact .none (lateAck_does hf).out rfl
  | performerRelease fu => exact .none (scheduleRelease_does hf).out rfl

/-! ## Kept PDUs -/

/-- What a row keeps: PDUs that were kept, and the one of a request or of a reply. -/
structure Keeps (c : Ctx) (m : Machine) (evt : Evt) (v : InvokeInfo) : Prop where
  invoke : ∀ du ∈ v.invokePduSeq, du ∈ m.invoke.invokePduSeq ∨
    (evt = .invokeReq ∧ du = requestPdu c m ∧ (requestRef c m).2 ≠ -1)
  result : ∀ du ∈ v.resultPduSeq, du ∈ m.invoke.resultPduSeq ∨
    (evt = .resultReq ∧ du = replyOctets c m ∧ (replyRef c m).2 = .success)

theorem Keeps.of_subset {w : InvokeInfo} (h : v = w) (hi : w.invokePduSeq ⊆ m.invoke.invokePduSeq)
    (hr : w.resultPduSeq ⊆ m.invoke.resultPduSeq) : Keeps c m evt v :=
  ⟨fun _ hd => .inl (hi (h ▸ hd)), fun _ hd => .inl (hr (h ▸ hd))⟩

theorem Keeps.of_eq (h : v = m.invoke) : Keeps c m evt v :=
  .of_subset h (List.Subset.refl _) (List.Subset.refl _)

theorem relPdu_subset (seq : List Octets) : relPdu seq ⊆ seq := List.drop_subset 1 seq

theorem reply_keeps {name : TmrName} {time : InvokeInfo → Int} (hn : ReplyTimer name time) :
    Keeps c m .resultReq (performerResultReq name time c m).1.invoke := by
  have hkept : ∀ {kept q out}, Replied c m (performerResultReq name time c m).1 kept q out →
      (kept = [] ∨ kept = [replyOctets c m]) →
      Keeps c m .resultReq (performerResultReq name time c m).1.invoke := by
    intro kept q out h hk
    rw [h.invoke]
    refine ⟨fun _ hd => .inl hd, fun du hd => ?_⟩
    rcases List.mem_append.1 hd with hd | hd
    · exact .inl hd
    · rcases hk with rfl | rfl
      · cases hd
      · exact .inr ⟨rfl, List.mem_singleton.1 hd, h.accepted⟩
  rcases performerResultReq_spec hn c m with ⟨-, h⟩ | h | ⟨_, h, hk⟩
  · exact .of_subset h.invoke (List.Subset.refl _) (List.Subset.refl _)
  · exact hkept h (.inr rfl)
  · exact hkept h hk

theorem request_keeps : Keeps c m .invokeReq (invokerInvokeReq c m).1.invoke := by
  have hkept : ∀ {kept timers out}, Requested c m (invokerInvokeReq c m).1 kept timers out →
      (kept = [] ∨ (kept = [requestPdu c m] ∧ (requestRef c m).2 ≠ -1)) →
      Keeps c m .invokeReq (invokerInvokeReq c m).1.invoke := by
    intro kept timers out h hk
    rw [h.invoke]
    refine ⟨fun du hd => ?_, fun _ hd => .inl hd⟩
    rcases List.mem_append.1 hd with hd | hd
    · exact .inl hd
    · rcases hk with rfl | ⟨rfl, hnum⟩
      · cases hd
      · exact .inr ⟨rfl, List.mem_singleton.1 hd, hnum⟩
  rcases invokerInvokeReq_spec c m with h | h | ⟨_, h, hk⟩
  · exact .of_eq (by rw [h])
  · exact hkept h.toRequested (.inr ⟨rfl, h.number⟩)
  · exact hkept h hk

theorem row_keeps (h : Row c s evt act s') (hf : c.Fits evt) : Keeps c m evt (act m).1.invoke := by
  have hsame : ∀ seq : List Octets, seq ⊆ seq := List.Subset.refl
  cases h with
  | invokeReq fu => exact request_keeps
  | retran fu => exact .of_eq (invokerRetran_does hf).invoke
  | last fu => exact .of_subset (invokerLast_does hf).invoke (relPdu_subset _) (relPdu_subset _)
  | result => exact .of_subset (trClInvoker04_does hf).invoke (relPdu_subset _) (hsame _)
  | result2 => exact .of_subset (tr2ClInvoker04_does hf).invoke (relPdu_subset _) (hsame _)
  | failure fu => exact .of_eq (invokerFailure_does hf).invoke
  | holdOn => exact .of_eq rfl
  | dupResult => exact .of_eq (trClInvoker07_does hf).invoke
  | inactivity =>
    exact .of_subset (trClInvoker10_does hf).invoke (relPdu_subset _) (relPdu_subset _)
  | lateResult => exact .of_eq (trClInvoker09_does hf).invoke
  | lateResult2 => exact .of_eq (tr2ClInvoker06_does hf).invoke
  | invokerRelease fu => exact .of_eq (scheduleRelease_does hf).invoke
  | invoke => exact .of_subset (trClPerformer01_does hf).invoke (hsame _) (hsame _)
  | invoke2 => exact .of_subset (tr2ClPerformer01_does hf).invoke (hsame _) (hsame _)
  | resultReq => exact reply_keeps replyTimer_retran
  | resultReq2 => exact reply_keeps replyTimer_inactivity
  | dupInvoke fu => exact .of_eq performerDropInvoke_does.invoke
  | noResponse fu | internal fu =>
    exact .of_subset performerNoResponse_does.invoke (relPdu_subset _) (hsame _)
  | ack =>
    have hi := trClPerformer03_does (c := c) (m := m).invoke
    split at hi
    · exact .of_subset hi (hsame _) (List.Subset.trans (relPdu_subset _) (relPdu_subset _))
    · exact .of_subset hi (hsame _) (relPdu_subset _)
  | resultRetran => exact .of_eq trClPerformer05_does.invoke
  | resultLast => exact .of_subset performerTransmissionFailure_does.invoke (hsame _) (relPdu_subset _)
  | resend fu => exact .of_eq performerResendResult_does.invoke
  | inactivity2 => exact .of_subset performerConfirm_does.invoke (hsame _) (relPdu_subset _)
  | lateInvoke fu => exact .of_eq (lateInvoke_does hf).invoke
  | lateAck => exact .of_eq (lateAck_does hf).invoke
  | performerRelease fu => exact .of_eq (scheduleRelease_does hf).invoke

/-- What an `InvokeInfo` keeps: the INVOKE PDU of an invoker, the reply of a performer, under its
own reference number. -/
structure KeptOk (v : InvokeInfo) : Prop where
  invoke : ∀ du ∈ v.invokePduSeq, v.performingNotInvoking = false ∧ typeBits du = 0 ∧
    refOctet du = put1 v.invokeRefNu
  result : ∀ du ∈ v.resultPduSeq, v.performingNotInvoking = true ∧
    (typeBits du = 1 ∨ typeBits du = 2) ∧ refOctet du = put1 v.invokeRefNu

theorem KeptOk.empty (hi : v.invokePduSeq = []) (hr : v.resultPduSeq = []) : KeptOk v := by
  constructor
  · rw [hi]; simp
  · rw [hr]; simp

theorem KeptOk.congr (h : KeptOk v) (hp : v'.performingNotInvoking = v.performingNotInvoking)
    (hn : v'.invokeRefNu = v.invokeRefNu) (hi : v'.invokePduSeq = v.invokePduSeq)
    (hr : v'.resultPduSeq = v.resultPduSeq) : KeptOk v' := by
  refine ⟨fun du hd => ?_, fun du hd => ?_⟩
  · rw [hp, hn]; exact h.invoke du (hi ▸ hd)
  · rw [hp, hn]; exact h.result du (hr ▸ hd)

/-- Every `InvokeInfo` keeps what it should. -/
def PdusOk (e : Engine) : Prop := ∀ i v, e.heap i = some v → KeptOk v

theorem newInfo_keptOk {sap : SapInfo} {d : TransDiag} : KeptOk (newInfo sap d) := .empty rfl rfl

theorem PdusOk.prepared (h : PdusOk e) (ho : Origin cfg e inp f) : KeptOk f.v := by
  rcases ho.kind with ⟨sap, d, hk⟩ | ⟨w, q, hk⟩
  · rw [hk.v]; exact newInfo_keptOk
  · obtain ⟨a, b, hv⟩ := hk.v
    rw [hv]
    exact (h _ _ hk.heap).congr rfl rfl rfl rfl

theorem request_keptOk (h : (invokerInvokeReq c m).1.invoke = v) (hi : m.invoke.invokePduSeq = [])
    (hr : m.invoke.resultPduSeq = []) (hp : v.performingNotInvoking = false) : KeptOk v := by
  have hk := request_keeps (c := c) (m := m)
  rw [h] at hk
  refine ⟨fun du hd => ⟨hp, ?_⟩, fun du hd => ?_⟩
  · rcases hk.invoke du hd with hd | ⟨-, rfl, -⟩
    · rw [hi] at hd; cases hd
    · refine ⟨typeBits_request, ?_⟩
      rw [refOctet_request, ← h]
      -- the PDU carries the number that has been drawn
      rcases invokerInvokeReq_spec c m with hs | hs | ⟨_, hs, -⟩
      · rw [← h, hs, hi] at hd; cases hd
      · rw [hs.invoke]
      · rw [hs.invoke]
  · rcases hk.result du hd with hd | ⟨he, -⟩
    · rw [hr] at hd; cases hd
    · cases he

/-- Every row but a request keeps what it should. -/
theorem row_keptOk (h : Row c s evt act s') (hf : c.Fits evt) (hreq : evt ≠ .invokeReq)
    (hp : PduForPeer c evt m.invoke) (hrole : m.invoke.performingNotInvoking = s.isPerformer)
    (hk : KeptOk m.invoke) : KeptOk (act m).1.invoke := by
  have hkeep := row_keeps (m := m) h hf
  have hown := row_owner (m := m) h hf
  have hpeer := row_peer (m := m) h hf hreq hp
  refine ⟨fun du hd => ?_, fun du hd => ?_⟩
  · rw [hown.performing, hpeer.invokeRefNu]
    rcases hkeep.invoke du hd with hd | ⟨he, -⟩
    · exact hk.invoke du hd
    · exact absurd he hreq
  · rw [hown.performing, hpeer.invokeRefNu]
    rcases hkeep.result du hd with hd | ⟨rfl, rfl, -⟩
    · exact hk.result du hd
    · refine ⟨?_, typeBits_reply, refOctet_reply⟩
      rw [hrole]
      cases h <;> rfl

/-- A new machine keeps nothing but the PDU of its request. -/
theorem Creates.keptOk {sap : SapInfo} {d : TransDiag} (hk : Creates e f sap d)
    (hc : Common cfg inp f) (ht : f.Takes s act s') : KeptOk (act f.before).1.invoke := by
  have hi : f.before.invoke.invokePduSeq = [] := by rw [Fire.before_invoke, hk.v]; rfl
  have hr : f.before.invoke.resultPduSeq = [] := by rw [Fire.before_invoke, hk.v]; rfl
  have hrole : (act f.before).1.invoke.performingNotInvoking = d.isPerformer := by
    rw [(row_owner (m := f.before) ht.row hc.fits).performing, Fire.before_invoke, hk.v]
    rfl
  have hevt := hk.evt
  cases hd : d.isPerformer with
  | true =>
    rw [hd] at hevt
    have hkeep := row_keeps (m := f.before) ht.row hc.fits
    rw [hevt] at hkeep
    refine ⟨fun du hdu => ?_, fun du hdu => ?_⟩
    · rcases hkeep.invoke du hdu with hdu | ⟨he, -⟩
      · rw [hi] at hdu; cases hdu
      · cases he
    · rcases hkeep.result du hdu with hdu | ⟨he, -⟩
      · rw [hr] at hdu; cases hdu
      · cases he
  | false =>
    rw [hd] at hevt hrole
    have hrow := ht.row
    rw [hevt] at hrow
    cases hrow with
    | invokeReq fu => exact request_keptOk rfl hi hr hrole

theorem PdusOk.fire (hw : WF e) (h : PdusOk e) (hf : fires cfg e inp = some f) :
    PdusOk f.engine := by
  obtain ⟨ho, hc⟩ := fires_origin hf
  intro i v hv
  by_cases hi : i = f.c.self
  · subst hi
    obtain rfl : f.after.invoke = v := by simpa using hv
    have hbefore := h.prepared ho
    rcases f.cases with hn | ⟨s, act, s', ht⟩
    · rw [hn.after]; exact hbefore
    rw [ht.after_invoke]
    suffices hk : KeptOk (act f.before).1.invoke from hk.congr rfl rfl rfl rfl
    rcases ho.kind with ⟨sap, d, hk⟩ | ⟨w, q, hk⟩
    · exact hk.keptOk hc ht
    · obtain ⟨hreq, hp⟩ := (hw.refs.peer ho).resolve_left fun hn => by
        have := hw.linked.lt hk.heap
        lia
      obtain ⟨-, hm⟩ := hw.prepared ho
      exact row_keptOk ht.row hc.fits hreq hp ((hm _ _ ho.here).performer ht.cur) hbefore
  · rw [Fire.engine_heap_ne hi, ho.heap_ne hi] at hv
    exact h i v hv

theorem PdusOk.step (hw : WF e) (h : PdusOk e) (hs : step cfg e inp = some (e', o)) :
    PdusOk e' := by
  rcases step_cases hs with ⟨f, hf, rfl, rfl⟩ | ⟨-, hq⟩
  · exact h.fire hw hf
  · cases hq with
    | nothing | unknownTimer | callBack | bind | unbindEmpty => exact h
    | @leak sap =>
      intro i v hv
      by_cases hi : i = e.nextId
      · obtain rfl : { locSap := sap.id } = v := by simpa [Engine.invokeInfoCreate, hi] using hv
        exact .empty rfl rfl
      · simp only [Engine.invokeInfoCreate, Function.update_of_ne hi] at hv
        exact h i v hv
    | release | unbind => exact fun i v hv => h i v (MachinesOk.relInvoke_heap hv)

theorem PdusOk.reach {ok : Engine → Input → Prop} {hist : List Out}
    (hr : Run.Reach (engine cfg) ok hist e) : PdusOk e := by
  have hboth : WF e ∧ PdusOk e := by
    refine Run.Reach.invariant (P := fun e => WF e ∧ PdusOk e) ?_ (fun _ _ _ _ h _ hs =>
      ⟨h.1.step hs, h.2.step h.1 hs⟩) hr
    rintro _ ⟨newRef, rfl⟩
    exact ⟨.init newRef, by rintro i v ⟨⟩⟩
  exact hboth.2

/-! ## The PDUs of a step -/

/-- The state of the machine does not matter for its PDUs. -/
theorem Sends.setState (h : Sends c v s evt du) (x : Option State) :
    Sends c { v with curState := x } s evt du := by
  cases h with
  | request fu h => exact .request fu h
  | retran fu h hd => exact .retran fu h hd
  | ack ha => exact .ack ha
  | unnoted hm => exact .unnoted hm
  | unshown hm => exact .unshown hm
  | reply fu h => exact .reply fu h
  | resultRetran h hd => exact .resultRetran h hd
  | resend fu h => exact .resend fu h
  | noResponse fu hx => exact .noResponse fu hx

theorem Fire.Takes.hands (ht : f.Takes s act s') (hc : Common cfg inp f) :
    udps f.after.out = [] ∨
      ∃ du, Sends f.c f.after.invoke s f.evt du ∧
        udps f.after.out = [toPeer f.c f.after.invoke du] := by
  rw [ht.after_out]
  rcases row_hands (m := f.before) ht.row hc.fits with h | ⟨du, hd, h⟩
  · exact .inl h
  · rw [ht.after_invoke]
    exact .inr ⟨du, hd.setState _, h⟩

theorem Fire.Ignores.hands (hn : f.Ignores) : udps f.after.out = [] := by
  rw [hn.after]
  rfl

/-- The PDU that the machine of `i` hands to UDP with an output. -/
def Out.pduOf (i : InvokeId) : Out → Option Octets
  | udp (some j) _ _ du _ => if j = i then some du else none
  | _ => none

/-- The PDUs that the machine of `i` hands to UDP. -/
def pdusOf (i : InvokeId) (out : List Out) : List Octets := out.filterMap (Out.pduOf i)

@[simp] theorem pdusOf_nil : pdusOf i [] = [] := rfl

@[simp] theorem pdusOf_append {a b : List Out} : pdusOf i (a ++ b) = pdusOf i a ++ pdusOf i b :=
  List.filterMap_append

theorem pdusOf_udps (out : List Out) : pdusOf i (udps out) = pdusOf i out := by
  unfold pdusOf udps
  rw [List.filterMap_filter]
  refine List.filterMap_congr fun x _ => ?_
  cases x <;> rfl

theorem pdusOf_toPeer : pdusOf i [toPeer c v du] = if c.self = i then [du] else [] := by
  unfold pdusOf toPeer
  by_cases h : c.self = i <;> simp [Out.pduOf, h]

/-- Outputs of a step that are no PDUs of a machine. -/
theorem pdusOf_eq_nil {out : List Out} (h : ∀ x ∈ out, ∀ j t n d b, x ≠ .udp (some j) t n d b) :
    pdusOf i out = [] := by
  refine List.filterMap_eq_nil_iff.2 fun x hx => ?_
  cases x with
  | udp who t n d b =>
    cases who with
    | none => rfl
    | some j => exact absurd rfl (h _ hx j t n d b)
  | _ => rfl

/-- What the handler of an event adds to the outputs of the machine is for the user. -/
theorem Origin.pdusOf_out (ho : Origin cfg e inp f) (i : InvokeId) :
    pdusOf i f.out = pdusOf i (udps f.after.out) := by
  have hextra : pdusOf i (f.extra f.ret) = [] := by
    refine pdusOf_eq_nil fun x hx j t n d b hxe => ?_
    subst hxe
    rcases ho.kind with ⟨sap, d, hk⟩ | ⟨v, q, hk⟩
    · rw [hk.extra] at hx
      dsimp only at hx
      split at hx
      · cases hx
      · split at hx <;> simp at hx
    · obtain ⟨n, hn⟩ := hk.extra _ _ hx
      cases hn
  unfold Fire.out
  rw [pdusOf_append, hextra, List.append_nil, pdusOf_udps]

/-- **The PDU of a step**: none, or the one that the row of its machine hands over. -/
theorem step_pdus (hs : step cfg e inp = some (e', o)) (i : InvokeId) :
    pdusOf i o = [] ∨ ∃ f s act s' du, fires cfg e inp = some f ∧ e' = f.engine ∧ f.c.self = i ∧
      f.Takes s act s' ∧ Sends f.c f.after.invoke s f.evt du ∧
      udps f.after.out = [toPeer f.c f.after.invoke du] ∧ pdusOf i o = [du] := by
  rcases step_cases hs with ⟨f, hf, rfl, rfl⟩ | ⟨-, hq⟩
  · obtain ⟨ho, hc⟩ := fires_origin hf
    have hout := ho.pdusOf_out i
    rw [hout]
    rcases f.cases with hn | ⟨s, act, s', ht⟩
    · rw [hn.hands]
      exact .inl rfl
    rcases ht.hands hc with hu | ⟨du, hd, hu⟩
    · rw [hu]
      exact .inl rfl
    · rw [hu, pdusOf_toPeer]
      split
      · rename_i hi
        exact .inr ⟨f, s, act, s', du, hf, rfl, hi, ht, hd, hu, rfl⟩
      · exact .inl rfl
  · refine .inl (pdusOf_eq_nil fun x hx j t n d b hxe => ?_)
    subst hxe
    cases hq with
    | nothing ho => rcases ho _ hx with ⟨n, hn⟩ | ⟨_, _, _, _, hn⟩ <;> cases hn
    | _ => simp at hx

/-! ## Armed timers -/

theorem mem_armed {n : TmrName} {t d : Int} {td : TmrData} (h : td ∈ armed c n t d) :
    td = ⟨n, t, d⟩ := by
  unfold armed at h
  split at h
  · exact List.mem_singleton.1 h
  · cases h

end Erop
