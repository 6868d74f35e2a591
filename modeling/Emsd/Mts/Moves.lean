import Emsd.Mts.Turns

/-!
# The moves of the delivery side

Every step of the server is a sequence of moves, each of which is one call of the message store or
the end of one delivery. A move acts on the view of the server: its store and the messages in
delivery.

* `Allow`: conditions on the additions, the cleanings, and the beginnings and ends of deliveries.
* `step_moves`: **a step whose calls are allowed is a sequence of allowed moves.**
-/

namespace Mts

open Server

/-- The store, the messages that the operations deliver, and the next operation. -/
structure View where
  store : Store
  inDelivery : OpId → Option MsgId
  nextOp : OpId

def Server.view (e : Server) : View where
  store := e.store
  inDelivery i := (e.ops i).map (·.pControlData)
  nextOp := e.nextOp

/-- Conditions on the calls that a step makes. -/
structure Allow where
  /-- `DQ_addMessage` -/
  add : Store → EmsdAddr → Bool := fun _ _ => true
  /-- `msg_cleanQueue` -/
  clean : View → Time → Bool := fun _ _ => true
  /-- The beginning of the delivery of a message. -/
  start : Try → Bool := fun _ => true
  /-- A transition of a Deliver machine. -/
  trans : DeliverTrans → Bool := fun _ => true

namespace Allow

/-- `msg_getMessage` finds a message in this turn. -/
def takes (e : Server) (t : Try) : Bool :=
  match msgGetMessage e.store t.cleaned t.now with
  | some (some _, _, _) => true
  | _ => false

/-- The transition that the next task of the scheduler leads to. -/
def nextTrans (e : Server) : Option DeliverTrans :=
  match e.schQu with
  | .runMachine m evt :: _ => do
    let fsm ← e.fsms m
    let op ← e.ops fsm.userData
    some (deliverTrans fsm.curState evt op.sender).1
  | _ => none

variable (A : Allow)

/-- The condition on a step. -/
def step (e : Server) : Input → Bool
  | .addMessage pMsgId pOriginator recips => addsOk A.add pMsgId pOriginator recips 0 e.store
  | .tryDelivery tries =>
    turnsOk (fun e t => A.clean e.view t.cleaned && (!takes e t || A.start t)) tries none e
  | .schRun _ _ => (nextTrans e).all A.trans
  | _ => true

/-- Everything is allowed. -/
theorem step_any {e : Server} {i : Input} : ({} : Allow).step e i = true := by
  cases i with
  | addMessage => exact addsOk_true fun _ _ => rfl
  | tryDelivery => exact turnsOk_true fun _ _ => by simp
  | schRun env now =>
    show (nextTrans e).all (fun _ => true) = true
    cases nextTrans e <;> rfl
  | resultIndication | errorIndication | failureIndication | deliverNow | dumpQueue => rfl

end Allow

/-- One call of the store, or the end of one delivery. -/
inductive Move (cfg : Config) (A : Allow) : View → List Out → View → Prop
  | newRecip {v a sub now t} : dqGetRecipQueue v.store a sub now = some t →
    Move cfg A v [] { v with store := t }
  | add {v pMsgId pOriginator a now t} : A.add v.store a = true →
    dqAddMessage v.store pMsgId pOriginator a now = some t → Move cfg A v [] { v with store := t }
  | deliverNow {v nsap now} : Move cfg A v [] { v with store := msgDeliverNow v.store nsap now }
  | dumpQueue {v} : Move cfg A v [] { v with store := { v.store with dumpDeliveryQueue := true } }
  | clean {v now t out} : A.clean v now = true → msgCleanQueue v.store now = some (t, out) →
    Move cfg A v (out.map .nonDel) { v with store := t }
  /-- The time of the next attempt is written, or the profile of a recipient. -/
  | wait {v n} : Move cfg A v [] { v with store := { v.store with nextAttempt := n } }
  | profile {v a q} (deviceProfile : DeviceProfile) : v.store.recip a = some q →
    Move cfg A v [] { v with store := v.store.setRecip a { q with deviceProfile } }
  | take {v t p d q now s i m} : A.start t = true → (d.status = .ready ∨ d.status = .failed) →
    q.status = .ready →
    Rewritten v.store p d { d with status := .delivering, lastAttempt := now } q
      { q with lastAttempt := now, status := .delivering } s →
    (if t.alloc then i = v.nextOp ∧ m = v.nextOp + 1 else m = v.nextOp ∧ v.inDelivery i ≠ none) →
    Move cfg A v [] ⟨s, Function.update v.inDelivery i (some p), m⟩
  /-- The pre-processing fails. -/
  | cancel {v t p s i} : A.start t = true → t.pdu = none → v.inDelivery i = some p →
    msgDeleteMessage v.store p t.deleted = some s →
    Move cfg A v [] ⟨s, Function.update v.inDelivery i none, v.nextOp⟩
  | finish {v now tr p s i out} : A.trans tr = true → v.inDelivery i = some p →
    Ended cfg now v.store p tr s out →
    Move cfg A v out ⟨s, Function.update v.inDelivery i none, v.nextOp⟩
  /-- The sender of an operation works. -/
  | send {v} {i : OpId} {c : List Mtsua.SendOut} : Move cfg A v (c.map (.sender i)) v

variable {cfg : Config} {A : Allow} {v w : View} {out : List Out} {e e' : Server} {now : Time}

/-- A sequence of moves. -/
abbrev Moves (cfg : Config) (A : Allow) : View → List Out → View → Prop := Run.Trace (Move cfg A)

theorem Move.trace (h : Move cfg A v out w) : Moves cfg A v out w := by
  have h₀ : Moves cfg A v [] v := .refl
  simpa using h₀.snoc h

theorem Server.Ended.sameLinks {s t : Store} {p : MsgId} {tr : DeliverTrans}
    (h : Ended cfg now s p tr t out) : SameLinks s t := by
  cases h with
  | succeeded h =>
    obtain ⟨d, -, ⟨-, rfl, -⟩ | ⟨-, -, q, hw⟩⟩ := msgUpdateMessageStatus_inv h
    · exact .refl _
    · exact hw.sameLinks
  | respooled h =>
    obtain ⟨d, q, delay, -, hw⟩ := deliveryRespool_inv h
    exact hw.sameLinks
  | reported _ h =>
    obtain ⟨d, -, ⟨-, rfl⟩ | ⟨-, q, hw⟩⟩ := msgDeleteMessage_inv h
    · exact .refl _
    · exact hw.sameLinks
  | dropped => exact .refl _

theorem Move.homed (h : Move cfg A v out w) (hv : Homed v.store) : Homed w.store := by
  cases h with
  | newRecip hg =>
    rcases dqGetRecipQueue_inv hg with rfl | ⟨-, q, -, hm, -, rfl⟩
    · exact hv
    · exact hv.newRecip hm
  | add _ hadd => exact (dqAddMessage_grown hv hadd).homed
  | deliverNow => exact hv.sameLinks msgDeliverNow_sameLinks
  | dumpQueue | wait => exact hv.sameLinks ⟨rfl, rfl, fun _ => rfl, fun _ => rfl⟩
  | clean _ hc => exact (msgCleanQueue_swept hv hc).1.homed
  | profile _ hq => exact hv.sameLinks (SameLinks.setRecip hq rfl)
  | take _ _ _ hw => exact hv.sameLinks hw.sameLinks
  | cancel _ _ _ hd =>
    obtain ⟨d, -, ⟨-, rfl⟩ | ⟨-, q, hw⟩⟩ := msgDeleteMessage_inv hd
    · exact hv
    · exact hv.sameLinks hw.sameLinks
  | finish _ _ hf => exact hv.sameLinks hf.sameLinks
  | send => exact hv

theorem addMessage_moves {pMsgId pOriginator : String} {recips : List Recipient} {t : Store}
    (hok : addsOk A.add pMsgId pOriginator recips 0 v.store = true)
    (ht : msgAddMessage pMsgId pOriginator recips 0 v.store = some t) :
    Moves cfg A v [] { v with store := t } := by
  refine msgAddMessage_invariant (P := fun s => Moves cfg A v [] { v with store := s })
    (fun s t a sub now h hg => ?_) (fun s t a now h hs hadd => ?_) .refl hok ht
  · have hmove : Move cfg A { v with store := s } [] { v with store := t } := .newRecip hg
    exact h.snoc hmove
  · have hmove : Move cfg A { v with store := s } [] { v with store := t } := .add hs hadd
    exact h.snoc hmove

/-- The view where a delivery has begun. -/
theorem Server.Began.view {t : Try} {p : MsgId} {s : Store} {i : OpId} (h : Began e t p s e' i) :
    e'.view.inDelivery = Function.update e.view.inDelivery i
      (if t.pdu = none then none else some p) := by
  funext j
  by_cases hj : j = i
  · subst hj
    rw [Function.update_self]
    rcases h.result with ⟨op, hop, hp, hpdu, -⟩ | ⟨hop, hpdu, -⟩
    · simp [Server.view, hop, hp, hpdu]
    · simp [Server.view, hop, hpdu]
  · rw [Function.update_of_ne hj]
    simp only [Server.view, h.others j hj]

/-- One turn of the delivery loop. -/
theorem tryTurn_moves {t : Try} {pOperation next : Option OpId} (he : Homed e.store)
    (hok : (A.clean e.view t.cleaned && (!Allow.takes e t || A.start t)) = true)
    (ht : tryTurn t pOperation e = some (e', out, next)) : Moves cfg A e.view out e'.view := by
  obtain ⟨hclean, hstart⟩ := Bool.and_eq_true_iff.1 hok
  obtain ⟨pMsg, store, out₀, hg, rfl, hturn⟩ := tryTurn_inv ht
  obtain ⟨u, hc, hget⟩ := msgGetMessage_inv he hg
  have h₁ : Moves cfg A e.view (out₀.map .nonDel) { e.view with store := u } :=
    Move.trace (.clean hclean hc)
  rcases hget with ⟨rfl, n, rfl⟩ | ⟨p, d, q, s, rfl, hwait, hready, hw, rfl⟩
  · rcases hturn with ⟨-, rfl⟩ | ⟨p, i, d, q, deviceProfile, hp, -⟩
    · have h₂ := h₁.snoc (.wait (n := n))
      rw [List.append_nil] at h₂
      exact h₂
    · cases hp
  · rcases hturn with ⟨hp, -⟩ | ⟨r, i, d', q', deviceProfile, hp, hd', hq', hb⟩
    · cases hp
    · obtain rfl := Option.some.inj hp
      have hst : A.start t = true := by
        simpa [Allow.takes, hg] using hstart
      set m := if t.alloc then e.nextOp + 1 else e.nextOp with hm
      have hnew : if t.alloc then i = e.nextOp ∧ m = e.nextOp + 1
          else m = e.nextOp ∧ e.view.inDelivery i ≠ none := by
        have hn := hb.nextOp
        cases ha : t.alloc with
        | true =>
          rw [ha] at hn
          simp only [if_true] at hn
          simp [hm, ha, hn.1]
        | false =>
          have := hb.active ha
          simp only [Bool.false_eq_true, if_false, hm, ha, Server.view, true_and]
          simpa using this
      have hnext : e'.nextOp = m := by
        have hn := hb.nextOp
        rw [hm]
        split at hn
        · rename_i ha
          rw [if_pos ha]
          exact hn.2
        · rename_i ha
          rw [if_neg ha]
          exact hn
      -- the message is taken, the delay is set, and the profile is checked
      have h₂ := ((h₁.snoc (.take (v := { e.view with store := u }) (i := i) (m := m) hst hwait
        hready hw hnew)).snoc (.wait (n := (t.now : Nat)))).snoc
        (.profile deviceProfile hq')
      have hview : e'.view = ⟨e'.store, Function.update e.view.inDelivery i
          (if t.pdu = none then none else some p), m⟩ := by
        rw [← hb.view, ← hnext]
        rfl
      rw [hview]
      rcases hb.result with ⟨op, -, -, hpdu, hs⟩ | ⟨-, hpdu, hdel⟩
      · rw [hs, if_neg hpdu]
        simpa using h₂
      · have h₃ := h₂.snoc (.cancel (i := i) hst hpdu (Function.update_self ..) hdel)
        rw [if_pos hpdu]
        simpa using h₃

theorem Moves.homed (h : Moves cfg A v out w) (hv : Homed v.store) : Homed w.store :=
  h.invariant (P := fun _ w => Homed w.store) hv fun _ _ _ _ hq hm => hm.homed hq

/-- **A step whose calls are allowed is a sequence of allowed moves.** -/
theorem step_moves {i : Input} (he : Homed e.store) (hok : A.step e i = true)
    (hs : Server.step cfg e i = some (e', out)) : Moves cfg A e.view out e'.view := by
  have hindication : ∀ id evt memGet, (e.indication id evt memGet).view = e.view := by
    intro id evt memGet
    unfold Server.indication
    split
    · rfl
    · split
      · rfl
      · unfold generateEvent
        split <;> rfl
  cases i with
  | addMessage pMsgId pOriginator recips =>
    obtain ⟨t, ht, hp⟩ := Option.map_eq_some_iff.1 hs
    obtain ⟨rfl, rfl⟩ := Prod.mk.inj hp
    exact addMessage_moves (v := e.view) hok ht
  | tryDelivery tries =>
    have h := mtsTryDelivery_invariant (h := [])
      (P := fun e' out => Homed e'.store ∧ Moves cfg A e.view out e'.view)
      (fun u t pOperation u' out next h hu hok ht => ?_) ⟨he, .refl⟩ hok hs
    · exact h.2
    · have hm : Moves cfg A u.view out u'.view := tryTurn_moves hu.1 hok ht
      exact ⟨hm.homed hu.1, hu.2.trans hm⟩
  | resultIndication id memGet | errorIndication id memGet | failureIndication id memGet =>
    obtain ⟨rfl, rfl⟩ := Prod.mk.inj (Option.some.inj hs)
    rw [hindication]
    exact .refl
  | deliverNow nsap now =>
    obtain ⟨rfl, rfl⟩ := Prod.mk.inj (Option.some.inj hs)
    exact Move.trace .deliverNow
  | dumpQueue =>
    obtain ⟨rfl, rfl⟩ := Prod.mk.inj (Option.some.inj hs)
    exact Move.trace .dumpQueue
  | schRun env now =>
    rcases runTask_inv hs with ⟨hstore, hops, hnext, rfl⟩ |
      ⟨m, evt, fsm, op, hq, hfsm, hop, u, ha, hstore, hops, hnext⟩
    · have hview : e'.view = e.view := by
        unfold Server.view
        rw [hstore, hops, hnext]
      rw [hview]
      exact .refl
    · have hview : e'.view = u.view := by
        unfold Server.view
        rw [hstore, hops, hnext]
      rw [hview]
      have hdel : e.view.inDelivery fsm.userData = some op.pControlData := by
        simp [Server.view, hop]
      rcases action_inv ha with h | h
      · -- the operation keeps its message
        have hsame : u.view = e.view := by
          unfold Server.view
          rw [h.store, h.nextOp]
          congr 1
          funext j
          by_cases hj : j = fsm.userData
          · obtain ⟨op', hop', hp⟩ := h.op
            rw [hj, hop', hop, Option.map_some, Option.map_some, hp]
          · rw [h.others j hj]
        obtain ⟨c, rfl⟩ := h.out
        rw [hsame]
        exact Move.trace .send
      · have htr : A.trans (deliverTrans fsm.curState evt op.sender).1 = true := by
          have hn : Allow.nextTrans e = some (deliverTrans fsm.curState evt op.sender).1 := by
            obtain ⟨rest, hrest⟩ : ∃ rest, e.schQu = .runMachine m evt :: rest := by
              cases hsq : e.schQu with
              | nil => simp [hsq] at hq
              | cons a rest => exact ⟨rest, by simpa [hsq] using hq⟩
            simp [Allow.nextTrans, hrest, hfsm, hop]
          simp only [Allow.step, hn, Option.all_some] at hok
          exact hok
        have hfin : Move cfg A e.view out _ := .finish htr hdel h.ended
        have hu : u.view = ⟨u.store, Function.update e.view.inDelivery fsm.userData none,
            e.view.nextOp⟩ := by
          unfold Server.view
          rw [h.nextOp, h.ops]
          congr 1
          funext j
          by_cases hj : j = fsm.userData
          · simp [hj]
          · simp [hj]
        rw [hu]
        exact hfin.trace

end Mts
