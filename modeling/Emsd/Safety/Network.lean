import Emsd.Safety.Accounts
import Emsd.Safety.Datagrams

/-!
# Engines on a network

Any number of engines, each at its address. UDP carries datagrams between them: it may lose a datagram,
deliver it more than once, and in any order, but from an honest address nothing arrives that its engine
has not handed over for the receiver. Whatever claims to come from another address is arbitrary.

* `indicated_requested`: an INVOKE.indication that names an honest address is one of a request made there
  for this engine, and shows its parameter.
* `reply_answers`: a RESULT.indication or an ERROR.indication shows what the user at the honest peer has
  answered to an invocation from here, namely to this one, unless the one with its number has been
  released before.
* `confirmed_indicated`: a RESULT.confirm or an ERROR.confirm on an ACK PDU stands for an indication at
  the invoker, if memory for it is never short there.
-/

namespace Erop

open Ocp Engine Run

/-- The address of an engine: its port and its host. -/
abbrev Addr := TSapSel × NSapAddr

/-- The engines, and what each has taken and answered so far. -/
structure Net where
  engine : Addr → Engine
  log : Addr → Log

variable {cfg : Addr → Config} {honest : Set Addr} {N N' : Net} {a b p : Addr} {e' : Engine} {inp : Input}
  {o : List Out} {hist : List (Addr × Out)} {i k : InvokeId} {v : InvokeInfo} {du rest : Octets}
  {t : TSapSel} {n : NSapAddr} {pdu : Pdu} {task : Task} {who : Option InvokeId} {log : Log} {data : DU}

/-- The engine at `a` has handed a PDU to UDP for the address `b`. -/
def Net.Sent (N : Net) (a b : Addr) (du : Octets) : Prop :=
  ∃ x ∈ N.log a, ∃ who s, .udp who b.1 b.2 du s ∈ x.2

/-- The engine at `a` has taken an input. -/
def Net.set (N : Net) (a : Addr) (e : Engine) (x : Input × List Out) : Net where
  engine := Function.update N.engine a e
  log := Function.update N.log a (N.log a ++ [x])

/-- One step of the network is one of one of its engines. -/
def network (cfg : Addr → Config) : Run.Sys Net (Addr × Input) (Addr × Out) where
  init N := ∀ a, N.log a = [] ∧ ∃ newRef, N.engine a = Engine.init newRef
  step N i := (step (cfg i.1) (N.engine i.1) i.2).map fun r => (N.set i.1 r.1 (i.2, r.2), r.2.map (i.1, ·))

/-- A datagram that names an honest address is one that has been handed to UDP there; what is behind
its octets in memory is arbitrary. -/
def Delivers (honest : Set Addr) (N : Net) (i : Addr × Input) : Prop :=
  ∀ t n data, i.2.ev = .udpInd t n data → (t, n) ∈ honest →
    ∃ du rest, N.Sent (t, n) i.1 du ∧ data = datagram du rest

/-! ## Decoding -/

/-- The number of a PDU type in the header. -/
def PduType.bits : PduType → Nat
  | invoke => 0
  | result => 1
  | error => 2
  | ack => 3
  | failure => 4

theorem readPdu_type (h : readPdu t n data = some pdu) :
    pdu.pdutype.bits = (data.get1 0 &&& 0x07).toNat ∧ data.size ≠ 0 := by
  unfold readPdu at h
  split at h
  · cases h
  · rename_i hsize
    refine ⟨?_, hsize⟩
    dsimp only at h
    split at h
    all_goals first
      | (rename_i hbits
         obtain rfl := Option.some.inj h
         exact hbits.symm)
      | cases h

theorem readPdu_errorValue (h : readPdu t n data = some pdu) (htype : pdu.pdutype = .error) :
    pdu.errorValue = (data.get1 2).toNat := by
  unfold readPdu at h
  split at h
  · cases h
  · dsimp only at h
    split at h
    all_goals first
      | (obtain rfl := Option.some.inj h
         first | rfl | cases htype)
      | cases h

/-- A datagram that is long enough is decoded as its octets are. -/
theorem readPdu_datagram (h : ¬TooShort (datagram du rest)) :
    readPdu t n (datagram du rest) = readPdu t n (.ofOctets du) := by
  have hsize : (datagram du rest).size = (DU.ofOctets du).size := rfl
  refine readPdu_reads hsize (fun k hk => ?_) fun m => ?_
  · unfold octetsRead at hk
    split at hk
    · cases hk
    · rename_i h0
      have hlt := List.mem_range.1 hk
      have hlong : (pciLength ((datagram du rest).get1 0) : ℤ) ≤ du.length :=
        Int.not_lt.1 fun hs => h ⟨h0, hs⟩
      have hk' : k < du.length := by omega
      simp only [DU.get1, datagram, DU.ofOctets, List.getD_eq_getElem?_getD]
      rw [List.getElem?_append_left hk']
  · simp only [DU.octets, DU.strip, datagram, DU.ofOctets]
    by_cases hm : m ≤ du.length
    · rw [List.drop_append_of_le_length hm, List.take_append_of_le_length (by simp)]
    · have hneg : ((du.length : ℤ) - m).toNat = 0 := by omega
      rw [hneg, List.take_zero, List.take_zero]

theorem not_tooShort (h : 3 ≤ du.length ∨ 2 ≤ du.length ∧ (typeBits du = 1 ∨ typeBits du = 3)) :
    ¬TooShort (datagram du rest) := by
  rintro ⟨-, hshort⟩
  have hpos : 0 < du.length := by omega
  have hget : (datagram du rest).get1 0 = (DU.ofOctets du).get1 0 := by
    simp only [DU.get1, datagram, DU.ofOctets, List.getD_eq_getElem?_getD]
    rw [List.getElem?_append_left hpos]
  have hlen : (datagram du rest).size = du.length := rfl
  rw [hget, hlen] at hshort
  have hle : pciLength ((DU.ofOctets du).get1 0) ≤ 3 := by
    unfold pciLength
    split <;> decide
  have htwo : typeBits du = 1 ∨ typeBits du = 3 → pciLength ((DU.ofOctets du).get1 0) = 2 := by
    unfold typeBits pciLength
    rintro (hb | hb) <;> simp only [hb]
  rcases h with h | ⟨h, hb⟩
  · omega
  · have := htwo hb
    omega

/-- What the engines hand to UDP has a whole header. -/
theorem Handed.not_tooShort (h : Handed log who t n du) : ¬TooShort (datagram du rest) := by
  apply Erop.not_tooShort
  cases h with
  | request => exact .inl (by simp [builtRequest, invokePci])
  | @reply i rep =>
    unfold builtReply
    split
    · exact .inr ⟨by simp [resultPci], .inl typeBits_result⟩
    · exact .inl (by simp [errorPci])
  | ack => exact .inr ⟨by simp, .inr typeBits_ack⟩
  | failure => exact .inl (by simp [failureOctets])

/-- What an INVOKE.indication shows of a request. The operation value and the encoding type share an
octet, and the selector half of one, so that they come through only where they fit. -/
structure Shows (req : InvokeReq) (sel : SapSel) (operationValue : Int) (encodingType : EncodingType)
    (parameter : Option Octets) : Prop where
  parameter : parameter = some (req.parameter.getD [])
  selector : sel = req.remESROSap % 16
  fits : Fits req →
    sel = req.remESROSap ∧ operationValue = req.opValue ∧ encodingType = req.encodingType

/-- The PDU shows a request. -/
abbrev Pdu.ShowsRequest (pdu : Pdu) (req : InvokeReq) : Prop :=
  Shows req pdu.toESROSap pdu.operationValue pdu.encodingType pdu.data

/-- The indication of a reply. -/
def shownReply (k : InvokeId) (u : UserInvokeRef) (rep : ResultReq) : Task :=
  if rep.isResultNotError then .resultInd k u rep.encodingType (some (rep.parameter.getD []))
  else .errorInd k u rep.encodingType (put1 rep.errorValue).toNat (some (rep.parameter.getD []))

/-- The octet of a reference number has room for it. -/
theorem number_of_octet {r r' : Nat} (hr : r < totalRefNumbers) (hr' : r' < totalRefNumbers)
    (h : put1 r = put1 r') : r = r' := by
  have hfits := refNu_fits hr
  have hfits' := refNu_fits hr'
  rw [h] at hfits
  omega

theorem builtRequest_shows {req : InvokeReq} {r : Nat} (hr : r < totalRefNumbers)
    (h : readPdu t n (.ofOctets (builtRequest req r)) = some pdu) :
    pdu.invokeRefNu = r ∧ pdu.ShowsRequest req := by
  obtain ⟨pdu', hp, -, hsel, href, -, -, hdata⟩ :=
    readPdu_invoke req.remESROSap r req.opValue req.encodingType (req.parameter.getD []) t n
  obtain rfl : pdu = pdu' := Option.some.inj (h.symm.trans hp)
  refine ⟨href.trans (refNu_fits hr), hdata, hsel, fun hfits => ?_⟩
  obtain ⟨pdu', hp', hasks⟩ := (decodes_invoke hr).2 hfits t n
  obtain rfl : pdu = pdu' := Option.some.inj (h.symm.trans hp')
  exact ⟨hasks.toESROSap, hasks.operationValue, hasks.encodingType⟩

theorem builtReply_shows {rep : ResultReq} {r : Nat} (hr : r < totalRefNumbers)
    (h : readPdu t n (.ofOctets (builtReply rep r)) = some pdu) :
    pdu.invokeRefNu = r ∧ ∀ k u, replyOf k u pdu = shownReply k u rep := by
  unfold builtReply at h
  unfold replyOf shownReply
  split at h
  · rename_i hres
    obtain ⟨pdu', hp, htype, href, henc, hdata⟩ :=
      readPdu_result r rep.encodingType (rep.parameter.getD []) t n
    obtain rfl : pdu = pdu' := Option.some.inj (h.symm.trans hp)
    refine ⟨href.trans (refNu_fits hr), fun k u => ?_⟩
    rw [if_pos htype, if_pos hres, henc, hdata]
  · rename_i hres
    obtain ⟨pdu', hp, htype, href, henc, hdata⟩ :=
      readPdu_error r rep.errorValue rep.encodingType (rep.parameter.getD []) t n
    obtain rfl : pdu = pdu' := Option.some.inj (h.symm.trans hp)
    have hvalue : pdu.errorValue = (put1 rep.errorValue).toNat := readPdu_errorValue h htype
    refine ⟨href.trans (refNu_fits hr), fun k u => ?_⟩
    rw [if_neg (by rw [htype]; decide), if_neg hres, henc, hdata, hvalue]

theorem builtReply_type {rep : ResultReq} {r : Int} :
    typeBits (builtReply rep r) = 1 ∨ typeBits (builtReply rep r) = 2 := by
  unfold builtReply
  split
  · exact .inl typeBits_result
  · exact .inr typeBits_error

section

variable {t' : TSapSel} {n' : NSapAddr} (h : Handed log who t' n' du)
  (hread : readPdu t n (.ofOctets du) = some pdu)
include hread

theorem typeBits_of_read : typeBits du = pdu.pdutype.bits := (readPdu_type hread).1.symm

include h

/-- A PDU that is read as an INVOKE PDU is one of a request. -/
theorem Handed.of_invoke (htype : pdu.pdutype = .invoke) :
    ∃ k req, ∃ r : Nat, who = some k ∧ Asked log k req ∧ req.remTsap = t' ∧ req.remNsap = n' ∧
      r < totalRefNumbers ∧ pdu.invokeRefNu = r ∧ typeBits du = 0 ∧ refOctet du = put1 r ∧
      pdu.ShowsRequest req := by
  have hbits := typeBits_of_read hread
  rw [htype] at hbits
  cases h with
  | @request k req r hr ha =>
    obtain ⟨hnum, hshows⟩ := builtRequest_shows hr hread
    exact ⟨k, req, r, rfl, ha, rfl, rfl, hr, hnum, hbits, rfl, hshows⟩
  | reply => rcases builtReply_type with h | h <;> rw [h] at hbits <;> cases hbits
  | ack | failure => simp [typeBits_ack, typeBits_failure, PduType.bits] at hbits

/-- A PDU that is read as a RESULT or an ERROR PDU is one of a reply. -/
theorem Handed.of_reply (htype : pdu.pdutype.evt = .pduResult) :
    ∃ i rep call, ∃ r : Nat, who = some i ∧ Answered log i rep ∧ Called log i call ∧
      call.fromTsapSel = t' ∧ call.fromNsapAddr = n' ∧ r < totalRefNumbers ∧ pdu.invokeRefNu = r ∧
      call.invokeRefNu = r ∧ fromPerformer du = true ∧ typeBits du < 3 ∧ refOctet du = put1 r ∧
      ∀ k u, replyOf k u pdu = shownReply k u rep := by
  have hbits : typeBits du = 1 ∨ typeBits du = 2 := by
    rw [typeBits_of_read hread]
    cases hp : pdu.pdutype <;> rw [hp] at htype <;> first | exact .inl rfl | exact .inr rfl | cases htype
  cases h with
  | @reply i rep call ha hc =>
    obtain ⟨data, -, hcall⟩ := hc.2.choose_spec.choose_spec.1
    obtain ⟨r, hr, hnum⟩ := readPdu_number hcall
    rw [hnum] at hread hbits ⊢
    obtain ⟨hgot, hshows⟩ := builtReply_shows hr hread
    refine ⟨i, rep, call, r, rfl, ha, hc, rfl, rfl, hr, hgot, hnum, decide_eq_true hbits, by omega, ?_,
      hshows⟩
    unfold builtReply
    split <;> rfl
  | request | ack | failure =>
    simp [builtRequest, typeBits_invoke, typeBits_ack, typeBits_failure] at hbits

/-- A PDU that is read as an ACK PDU acknowledges what has been reported. -/
theorem Handed.of_ack (htype : pdu.pdutype = .ack) :
    ∃ k rpt, who = some k ∧ Reported log k rpt ∧ rpt.fromNsapAddr = n' ∧
      pdu.invokeRefNu = rpt.invokeRefNu := by
  have hbits := typeBits_of_read hread
  rw [htype] at hbits
  cases h with
  | @ack k t' rpt hr =>
    refine ⟨k, rpt, rfl, hr, rfl, ?_⟩
    obtain ⟨-, u, env, o, ⟨data, -, hrpt⟩, -⟩ := hr
    obtain ⟨r, hr, hnum⟩ := readPdu_number hrpt
    rw [readPdu_refNu hread, hnum]
    exact refNu_fits hr
  | reply => rcases builtReply_type with h | h <;> rw [h] at hbits <;> cases hbits
  | request | failure => simp [builtRequest, typeBits_invoke, typeBits_failure, PduType.bits] at hbits

end

/-! ## Runs of the network -/

theorem network_step {i : Addr × Input} {out : List (Addr × Out)} (hs : (network cfg).step N i = some (N', out)) :
    ∃ e' o, step (cfg i.1) (N.engine i.1) i.2 = some (e', o) ∧ N' = N.set i.1 e' (i.2, o) := by
  obtain ⟨⟨e', o⟩, hs, h⟩ := Option.map_eq_some_iff.1 hs
  exact ⟨e', o, hs, (Prod.mk.inj h).1.symm⟩

theorem Net.mem_log_set {e : Engine} {x y : Input × List Out} :
    x ∈ (N.set a e y).log b ↔ x ∈ N.log b ∨ (b = a ∧ x = y) := by
  unfold Net.set
  by_cases hb : b = a
  · subst hb
    simp
  · simp [hb]

theorem Net.Sent.mono {c : Addr} {e : Engine} {x : Input × List Out} (h : N.Sent a b du) :
    (N.set c e x).Sent a b du := by
  obtain ⟨y, hy, hsent⟩ := h
  exact ⟨y, mem_log_set.2 (.inl hy), hsent⟩

/-- Every engine of the network accounts for its log. -/
theorem network_accounted {ok : Net → Addr × Input → Prop} (hr : Reach (network cfg) ok hist N) (a : Addr) :
    Accounted (N.log a) (N.engine a) := by
  refine hr.invariant (P := fun N => Accounted (N.log a) (N.engine a)) (fun N hinit => ?_)
    fun N i N' out h _ hs => ?_
  · obtain ⟨hlog, newRef, he⟩ := hinit a
    rw [hlog, he]
    exact .init newRef
  · obtain ⟨e', o, hstep, rfl⟩ := network_step hs
    by_cases ha : a = i.1
    · subst ha
      simp only [Net.set, Function.update_self]
      exact h.step hstep
    · simp only [Net.set, Function.update_of_ne ha]
      exact h

/-- Every datagram that has arrived from an honest address has been sent there. -/
def Delivered (honest : Set Addr) (N : Net) : Prop :=
  ∀ b, ∀ x ∈ N.log b, ∀ t n data, x.1.ev = .udpInd t n data → (t, n) ∈ honest →
    ∃ du rest, N.Sent (t, n) b du ∧ data = datagram du rest

theorem network_delivered (hr : Reach (network cfg) (Delivers honest) hist N) : Delivered honest N := by
  refine hr.invariant (P := Delivered honest) (fun N hinit b x hx => ?_) fun N i N' out h hok hs => ?_
  · rw [(hinit b).1] at hx
    cases hx
  · obtain ⟨e', o, hs, rfl⟩ := network_step hs
    intro b x hx t n data hev hh
    obtain ⟨du, rest, hsent, hdata⟩ : ∃ du rest, N.Sent (t, n) b du ∧ data = datagram du rest := by
      -- it has come before this step, or in it
      rcases Net.mem_log_set.1 hx with hx | ⟨rfl, rfl⟩
      · exact h b x hx t n data hev hh
      · exact hok t n data hev hh
    exact ⟨du, rest, hsent.mono, hdata⟩

/-- What a datagram from an honest address is decoded as, its engine accounts for. -/
theorem sent_handed (hacc : Accounted (N.log a) (N.engine a)) (hsent : N.Sent a b du)
    (hread : readPdu t n (datagram du rest) = some pdu) :
    ∃ who, ∃ x ∈ N.log a, ∃ s, .udp who b.1 b.2 du s ∈ x.2 ∧ Handed (N.log a) who b.1 b.2 du ∧
      readPdu t n (.ofOctets du) = some pdu := by
  obtain ⟨x, hx, who, s, hu⟩ := hsent
  have hh := hacc.handed x hx who b.1 b.2 du s hu
  exact ⟨who, x, hx, s, hu, hh, (readPdu_datagram hh.not_tooShort).symm.trans hread⟩

/-- An invocation at `p` that an engine at `a` has asked for, and its reply. -/
structure Exchange (N : Net) (a p : Addr) (k i : InvokeId) (req : InvokeReq) (rep : ResultReq)
    (call : Pdu) : Prop where
  asked : Asked (N.log a) k req
  callee : (req.remTsap, req.remNsap) = p
  called : Called (N.log p) i call
  caller : (call.fromTsapSel, call.fromNsapAddr) = a
  shows : call.ShowsRequest req
  answered : Answered (N.log p) i rep

/-- A call from an honest address is one that has been asked for there. -/
theorem called_asked (hacc : Accounted (N.log a) (N.engine a)) (hdel : Delivered honest N) (ha : a ∈ honest)
    (hc : Called (N.log p) i pdu) (hfrom : (pdu.fromTsapSel, pdu.fromNsapAddr) = a) :
    ∃ k req, Asked (N.log a) k req ∧ (req.remTsap, req.remNsap) = p ∧ pdu.ShowsRequest req ∧
      ∃ du, StandsFor (N.engine a) k p.2 du ∧ fromPerformer du = false ∧ ∃ r : Nat,
        r < totalRefNumbers ∧ pdu.invokeRefNu = r ∧ refOctet du = put1 r := by
  subst hfrom
  obtain ⟨htype, env, o, ⟨data, hmem, hread⟩, -⟩ := hc
  obtain ⟨du, rest, hsent, rfl⟩ := hdel p _ hmem _ _ data rfl ha
  obtain ⟨who, x, hx, s, hu, hh, hread⟩ := sent_handed hacc hsent hread
  obtain ⟨k, req, r, rfl, hasked, ht, hn, hr, hnum, hbits, href, hshows⟩ := hh.of_invoke hread htype
  have hst := (hacc.standing x hx k p.1 p.2 du s hu (by omega)).2
  exact ⟨k, req, hasked, by rw [ht, hn], hshows, du, hst, by simp [fromPerformer, hbits], r, hr, hnum, href⟩

/-! ## Calls -/

/-- RESULT.indication and ERROR.indication. -/
def Task.isReply : Task → Bool
  | resultInd .. | errorInd .. => true
  | _ => false

/-- RESULT.confirm and ERROR.confirm. -/
def Task.isConfirm : Task → Bool
  | resultCnf .. | errorCnf .. => true
  | _ => false

/-- The kinds of functions that a row submits. -/
theorem mem_rowTasks {c : Ctx} {s : State} {evt : Evt} (ht : task ∈ rowTasks c v s evt) :
    (evt = .pduResult ∧ task = resultTask c v) ∨
      ((evt = .pduAck ∨ evt = .inactivityTimer) ∧ task = confirmTask c v) ∨
      task.isReply = false ∧ task.isConfirm = false := by
  have hother : ∀ {u : Task}, task ∈ told c u → u.isReply = false → u.isConfirm = false →
      task.isReply = false ∧ task.isConfirm = false := by
    intro u hm h1 h2
    rw [(mem_told hm).1]
    exact ⟨h1, h2⟩
  have hrelease : task ∈ [Task.relInvoke c.self] → task.isReply = false ∧ task.isConfirm = false := by
    intro hm
    obtain rfl := List.mem_singleton.1 hm
    exact ⟨rfl, rfl⟩
  unfold rowTasks at ht
  split at ht
  all_goals first
    | exact .inl ⟨rfl, (mem_told ht).1⟩
    | exact .inr (.inl ⟨.inr rfl, (mem_told ht).1⟩)
    | exact .inr (.inr (hother ht rfl rfl))
    | exact .inr (.inr (hrelease ht))
    | exact absurd ht List.not_mem_nil
    | skip
  -- a silent user, and an ACK PDU
  iterate 4
    · rcases List.mem_append.1 ht with ht | ht
      · exact .inr (.inr (hother ht rfl rfl))
      · exact .inr (.inr (hrelease ht))
  · split at ht
    · exact .inr (.inr (hother ht rfl rfl))
    · exact .inr (.inl ⟨.inl rfl, (mem_told ht).1⟩)

theorem confirmTask_isReply (c : Ctx) (v : InvokeInfo) : (confirmTask c v).isReply = false := by
  unfold confirmTask
  split <;> rfl

theorem resultTask_isConfirm (c : Ctx) (v : InvokeInfo) : (resultTask c v).isConfirm = false := by
  unfold resultTask
  split <;> rfl

/-- The row that a scheduled function comes from. -/
theorem scheduled_inv {cfg : Config} {e : Engine} (hs : step cfg e inp = some (e', o)) (ht : .sch task ∈ o) :
    ∃ f s act s', fires cfg e inp = some f ∧ e' = f.engine ∧ f.Takes s act s' ∧
      task ∈ rowTasks f.c f.v s f.evt := by
  obtain ⟨f, hf, rfl, ht⟩ := sch_of_step hs ht
  rcases f.cases with hn | ⟨s, act, s', htakes⟩
  · rw [hn.tasks] at ht
    cases ht
  · exact ⟨f, s, act, s', hf, rfl, htakes, htakes.tasks ▸ ht⟩

section

variable (hr : Reach (network cfg) (Delivers honest) hist N) (hok : Delivers honest N (b, inp))
  (hs : step (cfg b) (N.engine b) inp = some (e', o))
include hr hok hs

/-- **An INVOKE.indication is one of a request.** Whatever an engine indicates as an INVOKE.request of
an honest address has been requested there, for this engine and with this parameter, and with this
operation value, encoding type and selector where the header has room for them. -/
theorem indicated_requested {sel rsel : SapSel} {op : Int} {enc : EncodingType} {par : Option Octets}
    (ht : .sch (.invokeInd i sel rsel t n op enc par) ∈ o) (hh : (t, n) ∈ honest) :
    ∃ k req, Asked (N.log (t, n)) k req ∧ (req.remTsap, req.remNsap) = b ∧ Shows req sel op enc par := by
  have hacc := network_accounted hr
  obtain ⟨f, s, hshown, rfl⟩ := shown_inv hs ht rfl
  obtain ⟨act, s', htakes⟩ := hshown.takes
  obtain ⟨ho, hc⟩ := fires_origin hshown.fires
  have hevt := (row_arrival htakes.row hshown.start).1
  obtain ⟨data, hrun⟩ := ho.runsOn (by rw [hevt]; decide)
  have htype : f.c.pdu.pdutype = .invoke := by
    have := hc.fits
    rwa [hevt] at this
  have hsel := ho.locSapSel (hacc b).wf.linked hc hevt
  obtain ⟨rfl, rfl, -, rfl, rfl, rfl, rfl, rfl⟩ := Task.invokeInd.inj hshown.task
  obtain ⟨du, rest, hsent, rfl⟩ := hok _ _ data hrun.ev hh
  obtain ⟨who, -, -, -, -, hhanded, hread⟩ := sent_handed (hacc _) hsent hrun.read
  obtain ⟨k, req, -, -, hasked, hport, hhost, -, -, -, -, hshows⟩ := hhanded.of_invoke hread htype
  refine ⟨k, req, hasked, Prod.ext hport hhost, ?_⟩
  rw [hsel]
  exact hshows

/-- **A confirmed reply has been indicated.** Where an ACK PDU from an honest invoker is confirmed to the
user, the invoker has indicated the reply, if no argument record was ever refused to it and nothing
has come to it from another port of this host. The reply is the one to the invocation that is
confirmed, or to one that has been released. -/
theorem confirmed_indicated (ha : a ∈ honest) (hb : b ∈ honest) (hev : inp.ev = .udpInd a.1 a.2 data)
    (ht : .sch task ∈ o) (hcnf : task.isConfirm = true)
    (hmem : ∀ x ∈ N.log a, x.1.env.memGet = true)
    (hport : ∀ x ∈ N.log a, ∀ t data, x.1.ev = .udpInd t b.2 data → t = b.1) :
    ∃ k i req rep call, Exchange N a b k i req rep call ∧
      (∃ x ∈ N.log a, ∃ j u, .sch (shownReply j u rep) ∈ x.2) ∧
      (i = task.invoke ∨ (N.engine b).heap i = none) := by
  have hacc := network_accounted hr
  have hdel := network_delivered hr
  obtain ⟨f, s, act, s', hf, rfl, -, hrow⟩ := scheduled_inv hs ht
  obtain ⟨ho, hc⟩ := fires_origin hf
  obtain ⟨hevt, htask⟩ : f.evt = .pduAck ∧ task = confirmTask f.c f.v := by
    rcases mem_rowTasks hrow with ⟨-, rfl⟩ | ⟨hevt, htask⟩ | ⟨-, h⟩
    · rw [resultTask_isConfirm] at hcnf
      cases hcnf
    · refine ⟨hevt.resolve_right fun he => ?_, htask⟩
      -- a timer is no datagram
      cases ho with
      | timer hev' => rw [hev] at hev'; cases hev'
      | request _ _ _ _ _ h | arrival _ _ _ _ _ _ _ _ h | duplicate _ _ _ _ _ _ _ h
      | reply _ _ _ _ h =>
        rw [he] at h
        cases h
      | @answer _ _ _ pdu _ _ _ _ _ _ _ _ _ _ _ _ h =>
        rw [he] at h
        cases hp : pdu.pdutype <;> rw [hp] at h <;> cases h
    · rw [hcnf] at h
      cases h
  have hinv : task.invoke = f.c.self := by rw [htask]; exact confirmTask_self
  obtain ⟨r, hr, hlt, -, hperformer, hne, w, hheap, hhost, -⟩ := ho.answered (.inr hevt)
  have hfiled := hperformer hevt
  obtain ⟨data, hrun⟩ := ho.runsOn (by rw [hevt]; decide)
  obtain ⟨hap, han, -⟩ := Event.udpInd.inj (hev.symm.trans hrun.ev)
  -- the ACK PDU acknowledges what the invoker has been given
  obtain ⟨du, rest, hsent, rfl⟩ := hok _ _ data hrun.ev (by rw [← hap, ← han]; exact ha)
  rw [← hap, ← han] at hsent
  obtain ⟨who, -, -, -, -, hhanded, hread⟩ := sent_handed (hacc a) hsent hrun.read
  have htype : f.c.pdu.pdutype = .ack := by
    have := hc.fits
    rwa [hevt] at this
  obtain ⟨j, rpt, -, ⟨hrtype, u, env, out, ⟨data', hlog, hrread⟩, hind⟩, hrhost, hrnum⟩ :=
    hhanded.of_ack hread htype
  have hrport : rpt.fromTsapSel = b.1 := by
    refine hport _ hlog _ data' ?_
    rw [← hrhost]
  -- which is a reply from here
  obtain ⟨du', rest', hsent', rfl⟩ := hdel a _ hlog _ _ data' rfl (by rw [hrport, hrhost]; exact hb)
  rw [hrport, hrhost] at hsent'
  obtain ⟨who', x, hx, sd, hu, hhanded', hread'⟩ := sent_handed (hacc b) hsent' hrread
  obtain ⟨i, rep, call, r', rfl, hans, hcalled, hcp, hcn, hlt', hnum, -, hrole, hbits, href, hshown⟩ :=
    hhanded'.of_reply hread' hrtype
  obtain ⟨k, req, hasked, hcallee, hshows, -⟩ := called_asked (hacc a) hdel ha hcalled (Prod.ext hcp hcn)
  refine ⟨k, i, req, rep, call, ⟨hasked, hcallee, hcalled, Prod.ext hcp hcn, hshows, hans⟩,
    ⟨_, hlog, j, u, ?_⟩, ?_⟩
  · rw [← hshown]
    exact hind (hmem _ hlog)
  cases hi : (N.engine b).heap i with
  | none => exact .inr rfl
  | some y =>
    obtain ⟨hyn, r₀, hlt₀, -, href₀, hmem₀⟩ := ((hacc b).standing x hx i a.1 a.2 du' sd hu hbits).2 y hi
    obtain rfl := number_of_octet hlt₀ hlt' (href₀.symm.trans href)
    obtain rfl : r₀ = r := by have := hr.symm.trans (hrnum.trans hnum); omega
    rw [hrole] at hmem₀
    have hsame : i = f.c.self := (hacc b).number_unique (p := true) hlt hfiled hmem₀ hheap hi
      (hhost.trans han.symm) hyn (han ▸ hne)
    exact .inl (hsame.trans hinv.symm)

end

/-! ## Runs -/

/-- A test for `Delivers`, with nothing behind the octets. -/
def delivers (N : Net) (i : Addr × Input) : Bool :=
  match i.2.ev with
  | .udpInd t n data => (N.log (t, n)).any fun x => x.2.any fun
    | .udp _ t' n' du _ => (t', n') = i.1 ∧ data = datagram du []
    | _ => false
  | _ => true

theorem delivers_sound {i : Addr × Input} (h : delivers N i = true) : Delivers honest N i := by
  intro t n data hev _
  unfold delivers at h
  rw [hev] at h
  obtain ⟨x, hx, h⟩ := List.any_eq_true.1 h
  obtain ⟨y, hy, h⟩ := List.any_eq_true.1 h
  cases y with
  | udp who t' n' du s =>
    obtain ⟨hto, hdata⟩ := of_decide_eq_true h
    refine ⟨du, [], ⟨x, hx, who, s, ?_⟩, hdata⟩
    rw [← hto]
    exact hy
  | _ => cases h

/-- Every engine is new. -/
def freshNet : Net := ⟨fun _ => Engine.init 0, fun _ => []⟩

/-- What a run over a list of inputs leads to, and a function that one more input schedules. -/
theorem Net.reach_of_run (is : List (Addr × Input)) (a : Addr) (inp : Input) (task : Task)
    (test : Net → Bool) (h : ((network fun _ => {}).run delivers freshNet is).any (fun r => test r.1 ∧
      delivers r.1 (a, inp) ∧ (step {} (r.1.engine a) inp).any fun q => .sch task ∈ q.2) = true) :
    ∃ hist N e' o, Reach (network fun _ => {}) (Delivers Set.univ) hist N ∧ test N = true ∧
      Delivers Set.univ N (a, inp) ∧ step {} (N.engine a) inp = some (e', o) ∧ .sch task ∈ o := by
  obtain ⟨⟨N, hist⟩, hrun, h⟩ := (Option.any_eq_true _ _).1 h
  obtain ⟨ht, hd, hs⟩ := of_decide_eq_true h
  obtain ⟨⟨e', o⟩, hs, hm⟩ := (Option.any_eq_true _ _).1 hs
  exact ⟨hist, N, e', o, ⟨_, fun _ => ⟨rfl, 0, rfl⟩, .of_run (fun _ _ => delivers_sound) hrun⟩, ht,
    delivers_sound hd, hs, of_decide_eq_true hm⟩

def invokerAddr : Addr := ([0, 7], [10, 0, 0, 2])

def performerAddr : Addr := ([0, 7], [10, 0, 0, 1])

/-- Two SAPs are bound, and the one requests operation 5 of the other. -/
def requestIsMade : List (Addr × Input) :=
  [(performerAddr, ⟨.sapBind 2 3, {}⟩), (invokerAddr, ⟨.sapBind 1 3, {}⟩),
    (invokerAddr, ⟨.invokeReq 1 ⟨7, 2, [0, 7], [10, 0, 0, 1], 5, .ber, some [42]⟩, {}⟩)]

def callArrives : Input := ⟨.udpInd [0, 7] [10, 0, 0, 2] (datagram [32, 1, 5, 42] []), {}⟩

/-- The performer answers. -/
def replyIsMade : List (Addr × Input) :=
  requestIsMade ++ [(performerAddr, callArrives), (performerAddr, ⟨.resultReq 0 9 .ber (some [7]), {}⟩)]

def replyArrives : Input := ⟨.udpInd [0, 7] [10, 0, 0, 1] (datagram [1, 1, 7] []), {}⟩

def ackArrives : Input := ⟨.udpInd [0, 7] [10, 0, 0, 2] (datagram [3, 1] []), {}⟩

theorem indicated_requested_call : ∃ (N : Net) (k : InvokeId) (req : InvokeReq),
    Asked (N.log invokerAddr) k req ∧ (req.remTsap, req.remNsap) = performerAddr ∧
      Shows req 2 5 .ber (some [42]) := by
  obtain ⟨hist, N, e', o, hr, -, hd, hs, hm⟩ := Net.reach_of_run requestIsMade performerAddr callArrives
    (.invokeInd 0 2 1 [0, 7] [10, 0, 0, 2] 5 .ber (some [42])) (fun _ => true) (by decide)
  exact ⟨N, indicated_requested hr hd hs hm (trivial)⟩

/-- The invoker has always had memory, and heard from one port of the performer's host. -/
def quietInvoker (N : Net) : Bool :=
  (N.log invokerAddr).all fun x => x.1.env.memGet && match x.1.ev with
    | .udpInd t n _ => n = performerAddr.2 → t = performerAddr.1
    | _ => true

theorem confirmed_indicated_ack : ∃ (N : Net) (k i : InvokeId) (req : InvokeReq) (rep : ResultReq)
    (call : Pdu), Exchange N invokerAddr performerAddr k i req rep call ∧
      ∃ x ∈ N.log invokerAddr, ∃ j u, .sch (shownReply j u rep) ∈ x.2 := by
  obtain ⟨hist, N, e', o, hr, hq, hd, hs, hm⟩ := Net.reach_of_run
    (replyIsMade ++ [(invokerAddr, replyArrives)]) performerAddr ackArrives (.resultCnf 0 9) quietInvoker
    (by decide)
  have hquiet := fun x hx => Bool.and_eq_true_iff.1 (List.all_eq_true.1 hq x hx)
  obtain ⟨k, i, req, rep, call, hx, hind, -⟩ := confirmed_indicated hr hd hs
    (a := invokerAddr) (trivial) (trivial) rfl hm rfl (fun x hx => (hquiet x hx).1) fun x hx t data hev => by
      have := (hquiet x hx).2
      rw [hev] at this
      exact of_decide_eq_true this rfl
  exact ⟨N, k, i, req, rep, call, hx, hind⟩

/-- Without memory for the argument record, the invoker does not indicate the result; when the PDU
arrives once more it acknowledges it all the same. -/
def replyIsLost : List (Addr × Input) :=
  replyIsMade ++ [(invokerAddr, { replyArrives with env := { memGet := false } }),
    (invokerAddr, replyArrives)]

/-- **A reply that has never been indicated is confirmed.** -/
theorem confirmed_unindicated : ∃ hist N e' o, Reach (network fun _ => {}) (Delivers Set.univ) hist N ∧
    Delivers Set.univ N (performerAddr, ackArrives) ∧
    step {} (N.engine performerAddr) ackArrives = some (e', o) ∧ .sch (.resultCnf 0 9) ∈ o ∧
    ∀ x ∈ N.log invokerAddr, ∀ task, .sch task ∈ x.2 → task.isReply = false := by
  obtain ⟨hist, N, e', o, hr, hn, hd, hs, hm⟩ := Net.reach_of_run replyIsLost performerAddr ackArrives
    (.resultCnf 0 9)
    (fun N => (N.log invokerAddr).all fun x => (submitted x.2).all fun task => task.isReply = false)
    (by decide)
  refine ⟨hist, N, e', o, hr, hd, hs, hm, fun x hx task htask => ?_⟩
  have hall := List.all_eq_true.1 (List.all_eq_true.1 hn x hx) task (mem_submitted.1 htask)
  exact of_decide_eq_true hall

end Erop
