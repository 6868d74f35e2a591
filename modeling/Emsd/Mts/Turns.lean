import Emsd.Mts.Effects

/-!
# What a step of the server does

* `mtsTryDelivery_invariant`: what every turn of the delivery loop preserves.
* `tryTurn_inv`, `runTask_inv`: what one turn, and one task of the scheduler, can do.
-/

namespace Mts

namespace Server

variable {cfg : Config} {e e' : Server} {t : Try} {pOperation next : Option OpId}
  {out : List Out}

/-- A condition on every turn of the loop. -/
def turnsOk (ok : Server → Try → Bool) : List Try → Option OpId → Server → Bool
  | [], _, _ => true
  | t :: tries, pOperation, e => ok e t &&
    match tryTurn t pOperation e with
    | some (e, _, some i) => turnsOk ok tries (some i) e
    | _ => true

theorem turnsOk_true {ok : Server → Try → Bool} {tries : List Try} (hok : ∀ e t, ok e t = true) :
    turnsOk ok tries pOperation e = true := by
  induction tries generalizing e pOperation with
  | nil => rfl
  | cons t tries ih =>
    unfold turnsOk
    rw [hok, Bool.true_and]
    split
    · exact ih
    · rfl

/-- What every turn preserves is preserved by the loop. -/
theorem mtsTryDelivery_invariant {P : Server → List Out → Prop} {ok : Server → Try → Bool}
    {tries : List Try} {h : List Out}
    (hturn : ∀ e t pOperation e' out next h, P e h → ok e t = true →
      tryTurn t pOperation e = some (e', out, next) → P e' (h ++ out))
    (hP : P e h) (hok : turnsOk ok tries pOperation e = true)
    (ht : mtsTryDelivery tries pOperation e = some (e', out)) : P e' (h ++ out) := by
  induction tries generalizing e pOperation h out with
  | nil => cases ht
  | cons t tries ih =>
    simp only [mtsTryDelivery, Option.bind_eq_bind, Option.bind_eq_some_iff, Prod.exists] at ht
    obtain ⟨u, out₁, next, hu, ht⟩ := ht
    simp only [turnsOk, hu, Bool.and_eq_true] at hok
    have hPu := hturn e t pOperation u out₁ next h hP hok.1 hu
    cases next with
    | none =>
      obtain ⟨rfl, rfl⟩ := Prod.mk.inj (Option.some.inj ht)
      exact hPu
    | some i =>
      obtain ⟨⟨u', out₂⟩, hu', ht⟩ := Option.bind_eq_some_iff.1 ht
      obtain ⟨rfl, rfl⟩ := Prod.mk.inj (Option.some.inj ht)
      rw [← List.append_assoc]
      exact ih hPu hok.2 hu'

/-- What a delivery that begins does to the operations, or one that fails in the pre-processing. -/
structure Began (e : Server) (t : Try) (p : MsgId) (s : Store) (e' : Server) (i : OpId) : Prop where
  /-- The operation is a new one, or that of the turn before. -/
  nextOp : if t.alloc then i = e.nextOp ∧ e'.nextOp = e.nextOp + 1 else e'.nextOp = e.nextOp
  active : t.alloc = false → e.ops i ≠ none
  others : ∀ j, j ≠ i → e'.ops j = e.ops j
  result : (∃ op, e'.ops i = some op ∧ op.pControlData = p ∧ t.pdu ≠ none ∧ e'.store = s) ∨
    (e'.ops i = none ∧ t.pdu = none ∧ msgDeleteMessage s p t.deleted = some e'.store)

theorem beginDelivery_inv {w e : Server} {p : MsgId} {i : OpId} {begun : Bool}
    (hnext : if t.alloc then i = w.nextOp ∧ e.nextOp = w.nextOp + 1 else e.nextOp = w.nextOp)
    (hactive : t.alloc = false → w.ops i ≠ none) (hothers : ∀ j, j ≠ i → e.ops j = w.ops j)
    (hb : beginDelivery e t p i = some (e', begun)) : ∃ d q deviceProfile,
      e.store.heap p = some d ∧ e.store.recip d.pRecipQueue = some q ∧
      Began w t p (e.store.setRecip d.pRecipQueue { q with deviceProfile }) e' i := by
  simp only [beginDelivery, Option.bind_eq_bind, Option.bind_eq_some_iff] at hb
  obtain ⟨op, hop, d, hd, q, hq, hb⟩ := hb
  refine ⟨d, q, q.deviceProfile.checked, hd, hq, ?_⟩
  cases hpdu : t.pdu with
  | none =>
    simp only [hpdu, Option.bind_eq_some_iff, Option.some.injEq, Prod.mk.injEq] at hb
    obtain ⟨v, hv, rfl, -⟩ := hb
    refine ⟨hnext, hactive, fun j hj => ?_, .inr ⟨?_, hpdu, hv⟩⟩
    · simp [mtsFreeOperation, hj, hothers j hj]
    · simp [mtsFreeOperation]
  | some hFullPduBuf =>
    simp only [hpdu, Option.some.injEq, Prod.mk.injEq] at hb
    obtain ⟨rfl, -⟩ := hb
    have hgen : ∀ (u : Server) m b, (u.generateEvent m .messageDeliverRequest b).ops = u.ops ∧
        (u.generateEvent m .messageDeliverRequest b).store = u.store ∧
        (u.generateEvent m .messageDeliverRequest b).nextOp = u.nextOp := by
      intro u m b
      unfold generateEvent
      split <;> exact ⟨rfl, rfl, rfl⟩
    let op' : Operation := { op with
      pControlData := p
      nsap := q.deviceProfile.nsap
      sender := { op.sender with hFullPduBuf, segmentInfo := none }
      fsms := op.fsms ++ [e.nextFsm] }
    refine ⟨?_, hactive, fun j hj => ?_, .inl ⟨op', ?_, rfl, by simp [hpdu], ?_⟩⟩
    · rw [(hgen _ _ _).2.2]
      exact hnext
    · rw [(hgen _ _ _).1]
      simp [setOp, createMachine, setFsm, hj, hothers j hj]
    · rw [(hgen _ _ _).1]
      exact Function.update_self ..
    · rw [(hgen _ _ _).2.1]
      rfl

theorem tryTurn_inv (ht : tryTurn t pOperation e = some (e', out, next)) :
    ∃ pMsg store out₀, msgGetMessage e.store t.cleaned t.now = some (pMsg, store, out₀) ∧
      out = out₀.map .nonDel ∧
      ((pMsg = none ∧ e' = { e with store }) ∨
        ∃ p i d q deviceProfile, pMsg = some p ∧ store.heap p = some d ∧
          store.recip d.pRecipQueue = some q ∧
          Began e t p (store.setRecip d.pRecipQueue { q with deviceProfile }) e' i) := by
  simp only [tryTurn, Option.bind_eq_bind, Option.bind_eq_some_iff, Prod.exists] at ht
  obtain ⟨pMsg, store, out₀, hg, ht⟩ := ht
  refine ⟨pMsg, store, out₀, hg, ?_⟩
  cases pMsg with
  | none =>
    obtain ⟨rfl, rfl, rfl⟩ := by simpa using ht
    exact ⟨rfl, .inl ⟨rfl, rfl⟩⟩
  | some p =>
    simp only [Option.bind_eq_some_iff, Prod.exists, Option.some.injEq, Prod.mk.injEq] at ht
    obtain ⟨i, hi, e₁, begun, hb, rfl, rfl, -⟩ := ht
    refine ⟨rfl, .inr ?_⟩
    cases ha : t.alloc with
    | true =>
      simp only [ha, if_true] at hi hb
      obtain rfl : e.nextOp = i := Option.some.inj hi
      obtain ⟨d, q, deviceProfile, hd, hq, hbegan⟩ := beginDelivery_inv (w := e)
        (by simp [ha, mtsAllocOperation]) (by simp [ha])
        (fun j hj => by simp [mtsAllocOperation, hj]) hb
      exact ⟨p, e.nextOp, d, q, deviceProfile, rfl, hd, hq, hbegan⟩
    | false =>
      simp only [ha, Bool.false_eq_true, if_false] at hi hb
      have hop : e.ops i ≠ none := by
        simp only [beginDelivery, Option.bind_eq_bind, Option.bind_eq_some_iff] at hb
        obtain ⟨op, hop, -⟩ := hb
        exact Option.ne_none_iff_exists'.2 ⟨op, hop⟩
      obtain ⟨d, q, deviceProfile, hd, hq, hbegan⟩ := beginDelivery_inv (w := e) (e := { e with store })
        (by simp [ha]) (fun _ => hop) (fun _ _ => rfl) hb
      exact ⟨p, i, d, q, deviceProfile, rfl, hd, hq, hbegan⟩

/-- How a delivery ends, for the message store. -/
inductive Ended (cfg : Config) (now : Time) (s : Store) (p : MsgId) :
    DeliverTrans → Store → List Out → Prop
  | succeeded {t : Store} {set : Bool} :
    msgUpdateMessageStatus s p .succeded now = some (t, set) →
    Ended cfg now s p .s2s1a t (if set then [.setStatus p .succeded] else [])
  | respooled {tr : DeliverTrans} {t : Store} : deliveryRespool cfg s p now = some t →
    Ended cfg now s p tr t []
  | reported {t : Store} {d : ControlData} {error : Nat} : s.heap p = some d →
    msgDeleteMessage s p now = some t →
    Ended cfg now s p .s2s1c t [.nonDel (mtsDeliveryNonDel p d error)]
  | dropped : Ended cfg now s p .unexpected s []

/-- The delivery of operation `i` ends: its message is dealt with, and the operation is freed. -/
structure Freed (cfg : Config) (now : Time) (tr : DeliverTrans) (e : Server) (i : OpId) (p : MsgId)
    (e' : Server) (out : List Out) : Prop where
  nextOp : e'.nextOp = e.nextOp
  ops : e'.ops = Function.update e.ops i none
  ended : Ended cfg now e.store p tr e'.store out

/-- The delivery goes on: the operation keeps its message. -/
structure GoesOn (e : Server) (i : OpId) (p : MsgId) (e' : Server) (out : List Out) : Prop where
  store : e'.store = e.store
  nextOp : e'.nextOp = e.nextOp
  op : ∃ op, e'.ops i = some op ∧ op.pControlData = p
  others : ∀ j, j ≠ i → e'.ops j = e.ops j
  out : ∃ c : List Mtsua.SendOut, out = c.map (.sender i)

theorem goOn_inv {m : FsmId} {i : OpId} {op : Operation} {c : Mtsua.Call Mtsua.Sender}
    (h : goOn e m i op c = some (e', out)) : GoesOn e i op.pControlData e' out := by
  simp only [goOn, Option.bind_eq_bind, Option.bind_eq_some_iff, Option.some.injEq,
    Prod.mk.injEq] at h
  obtain ⟨sender, -, rfl, rfl⟩ := h
  refine ⟨rfl, rfl, ⟨{ op with sender }, Function.update_self .., rfl⟩, fun j hj => ?_, _, rfl⟩
  exact Function.update_of_ne hj ..

theorem action_inv {tr : DeliverTrans} {env : Mtsua.Env} {now : Time} {m : FsmId} {i : OpId}
    {op : Operation} (h : action cfg tr env now e m i op = some (e', out)) :
    GoesOn e i op.pControlData e' out ∨ Freed cfg now tr e i op.pControlData e' out := by
  cases tr with
  | s1s2a =>
    simp only [action, Option.bind_eq_bind, Option.bind_eq_some_iff] at h
    obtain ⟨d, -, q, -, h⟩ := h
    obtain ⟨h₁, h₂, h₃, h₄, h₅⟩ := goOn_inv h
    exact .inl ⟨h₁, h₂, h₃, h₄, h₅⟩
  | s2s2a => exact .inl (goOn_inv h)
  | s2s2b => exact .inl (goOn_inv h)
  | s2s1a =>
    simp only [action, Option.bind_eq_bind, Option.bind_eq_some_iff, Option.some.injEq,
      Prod.mk.injEq, Prod.exists] at h
    obtain ⟨store, set, hu, rfl, rfl⟩ := h
    exact .inr ⟨rfl, rfl, .succeeded hu⟩
  | s2s1b | s2s1d =>
    simp only [action, Option.bind_eq_bind, Option.bind_eq_some_iff, Option.some.injEq,
      Prod.mk.injEq] at h
    obtain ⟨store, hu, rfl, rfl⟩ := h
    exact .inr ⟨rfl, rfl, .respooled hu⟩
  | s2s1c =>
    simp only [action, Option.bind_eq_bind, Option.bind_eq_some_iff, Option.some.injEq,
      Prod.mk.injEq] at h
    obtain ⟨d, hd, store, hu, rfl, rfl⟩ := h
    exact .inr ⟨rfl, rfl, .reported hd hu⟩
  | unexpected =>
    obtain ⟨rfl, rfl⟩ := by simpa [action] using h
    exact .inr ⟨rfl, rfl, .dropped⟩

/-- One turn of the scheduler. -/
theorem runTask_inv {env : Mtsua.Env} {now : Time} (h : runTask cfg e env now = some (e', out)) :
    (e'.store = e.store ∧ e'.ops = e.ops ∧ e'.nextOp = e.nextOp ∧ out = []) ∨
    ∃ m evt fsm op, e.schQu.head? = some (.runMachine m evt) ∧ e.fsms m = some fsm ∧
      e.ops fsm.userData = some op ∧
      ∃ u, action cfg (deliverTrans fsm.curState evt op.sender).1 env now
          { e with schQu := e.schQu.tail } m fsm.userData
          { op with sender := (deliverTrans fsm.curState evt op.sender).2 } = some (u, out) ∧
        e'.store = u.store ∧ e'.ops = u.ops ∧ e'.nextOp = u.nextOp := by
  unfold runTask at h
  cases hq : e.schQu with
  | nil =>
    rw [hq] at h
    obtain ⟨rfl, rfl⟩ := by simpa using h
    exact .inl ⟨rfl, rfl, rfl, rfl⟩
  | cons task schQu =>
    rw [hq] at h
    cases task with
    | deleteMachine m =>
      obtain ⟨rfl, rfl⟩ := by simpa using h
      exact .inl ⟨rfl, rfl, rfl, rfl⟩
    | runMachine m evt =>
      simp only [runMachine, Option.bind_eq_bind, Option.bind_eq_some_iff, Option.some.injEq,
        Prod.mk.injEq, Prod.exists] at h
      obtain ⟨fsm, hfsm, op, hop, u, out', ha, rfl, rfl⟩ := h
      exact .inr ⟨m, evt, fsm, op, rfl, hfsm, hop, u, ha, rfl, rfl, rfl⟩

end Server

end Mts
