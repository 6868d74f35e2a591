import Emsd.Mts.Operations

/-!
# One delivery at a time

A queue is in `RQ_DELIVERING` while one of its messages is being delivered, and `msg_getMessage`
passes it over for that time. A transient failure and a success make it ready again;
`msg_deleteMessage`, which ends a delivery after any error, does not.

* `delivery_serial`: **a queue is in delivery exactly while an operation delivers one of its
  messages**, in every run where no delivery ends by an error or before it has begun.
* `delivery_blocked`: a queue after an ERROR.indication.
-/

namespace Mts

open Lib Server

variable {cfg : Config} {v w : View} {s t : Store} {a : EmsdAddr} {q q' : RecipQueue} {p : MsgId}
  {d d' : ControlData} {now : Time} {out : List Out} {i : OpId}

/-- A cleaning takes out messages from the front of their lists, and none that is in delivery. -/
def idleClean (s : Store) (now : Time) : Bool :=
  s.cleanSafe now && (!s.cleans now || (List.range s.nextId).all fun p => (s.heap p).all fun d =>
    !(d.goes now && d.status = .delivering))

/-- The condition: deliveries begin, and end by a success or a transient failure. -/
def deliveries : Allow where
  clean v now := idleClean v.store now
  start t := t.alloc && t.pdu.isSome
  trans tr := tr ≠ .s2s1c && tr ≠ .unexpected

def plainDeliveries (e : Server) (i : Input) : Prop := deliveries.step e i = true

/-- The status of the messages and of the queues. -/
structure SerialOk (v : View) : Prop where
  ops : OpsOk v.store v.inDelivery v.nextOp
  store : StoreOk v.store
  memory : ∀ i p, v.inDelivery i = some p → v.store.heap p ≠ none
  served : ∀ p d, v.store.heap p = some d → d.status = .delivering → ∃ i, v.inDelivery i = some p
  busy : ∀ a, v.store.Busy a → ∃ i p, v.inDelivery i = some p ∧ v.store.Has a p
  status : ∀ p d, v.store.heap p = some d → d.completed = 0 →
    d.status = .ready ∨ d.status = .failed ∨ d.status = .delivering
  queue : ∀ a q, v.store.recip a = some q → q.status = .ready ∨ q.status = .delivering ∨
    q.status = .empty ∧ ∀ p, ¬ v.store.Has a p

theorem SerialOk.empty : SerialOk (Server.view {}) where
  ops := .empty
  store := .empty
  memory _ _ h := by cases h
  served _ _ h := by cases h
  busy _ h := by
    obtain ⟨q, hq, -⟩ := h
    cases hq
  status _ _ h := by cases h
  queue _ _ h := by cases h

/-- The status of the messages and of the queues is as it was, and the messages in delivery stay. -/
structure Still (s t : Store) : Prop where
  heap : ∀ p d', t.heap p = some d' → ∃ d, s.heap p = some d ∧ d'.status = d.status ∧
    d'.completed = d.completed ∧ d'.pRecipQueue = d.pRecipQueue
  stays : ∀ p d, s.heap p = some d → d.status = .delivering → t.heap p ≠ none
  recip : ∀ a q', t.recip a = some q' → ∃ q, s.recip a = some q ∧ q'.status = q.status

theorem Still.has (h : Still s t) (hp : t.Has a p) : s.Has a p := by
  obtain ⟨d', hd', hhome⟩ := hp
  obtain ⟨d, hd, -, -, hr⟩ := h.heap p d' hd'
  exact ⟨d, hd, hr.symm.trans hhome⟩

theorem SerialOk.still (hv : SerialOk v) (ht : Still v.store t) (hstore : StoreOk t)
    (hops : OpsOk t v.inDelivery v.nextOp) : SerialOk { v with store := t } := by
  have hstay : ∀ i p, v.inDelivery i = some p → t.heap p ≠ none := by
    intro i p hi
    obtain ⟨d, hd⟩ := Option.ne_none_iff_exists'.1 (hv.memory i p hi)
    exact ht.stays p d hd (hv.ops.live i p d hi hd).1
  refine ⟨hops, hstore, hstay, fun p d' hp hst => ?_, fun a ha => ?_, fun p d' hp h0 => ?_,
    fun a q' hq' => ?_⟩
  · obtain ⟨d, hd, h₁, -, -⟩ := ht.heap p d' hp
    exact hv.served p d hd (h₁.symm.trans hst)
  · obtain ⟨q', hq', hst⟩ := ha
    obtain ⟨q, hq, h₁⟩ := ht.recip a q' hq'
    obtain ⟨i, p, hi, d, hd, hhome⟩ := hv.busy a ⟨q, hq, h₁.symm.trans hst⟩
    obtain ⟨d', hd'⟩ := Option.ne_none_iff_exists'.1 (hstay i p hi)
    obtain ⟨d₀, hd₀, -, -, hr⟩ := ht.heap p d' hd'
    obtain rfl := Option.some.inj (hd.symm.trans hd₀)
    exact ⟨i, p, hi, d', hd', hr.trans hhome⟩
  · obtain ⟨d, hd, h₁, h₂, -⟩ := ht.heap p d' hp
    rw [h₁]
    exact hv.status p d hd (h₂.symm.trans h0)
  · obtain ⟨q, hq, h₁⟩ := ht.recip a q' hq'
    rw [h₁]
    refine (hv.queue a q hq).imp_right fun h => h.imp_right fun ⟨he, hno⟩ => ⟨he, fun p hp => ?_⟩
    exact hno p (ht.has hp)

theorem SerialOk.newRecip {sub : Option DeviceProfile} (hv : SerialOk v)
    (hg : dqGetRecipQueue v.store a sub now = some t) : SerialOk { v with store := t } := by
  have hops : OpsOk t v.inDelivery v.nextOp := hv.ops.sameStatus (.newRecip hv.ops.homed hg)
  rcases dqGetRecipQueue_inv hg with rfl | ⟨hnone, q, hempty, hm, -, rfl⟩
  · exact hv
  · have hrecip : ∀ b qb, ({ v.store.setRecip a q with recips := a :: v.store.recips } : Store).recip b =
        some qb → b = a ∧ qb = q ∨ v.store.recip b = some qb := by
      intro b qb hqb
      replace hqb : (v.store.setRecip a q).recip b = some qb := hqb
      rw [Store.setRecip_recip] at hqb
      split at hqb
      · rename_i hb
        exact .inl ⟨hb, (Option.some.inj hqb).symm⟩
      · exact .inr hqb
    refine ⟨hops, dqGetRecipQueue_new hv.store hnone hm, hv.memory, hv.served, fun b hb => ?_,
      hv.status, fun b qb hqb => ?_⟩
    · obtain ⟨qb, hqb, hst⟩ := hb
      rcases hrecip b qb hqb with ⟨-, rfl⟩ | hqb
      · rw [hempty] at hst
        cases hst
      · exact hv.busy b ⟨qb, hqb, hst⟩
    · rcases hrecip b qb hqb with ⟨rfl, rfl⟩ | hqb
      · refine .inr (.inr ⟨hempty, fun p hp => ?_⟩)
        obtain ⟨d, hd, rfl⟩ := hp
        exact hv.store.home p d hd hnone
      · exact hv.queue b qb hqb

theorem SerialOk.add {pMsgId pOriginator : String} (hv : SerialOk v)
    (hadd : dqAddMessage v.store pMsgId pOriginator a now = some t) :
    SerialOk { v with store := t } := by
  have hg := dqAddMessage_grown hv.ops.homed hadd
  have hops : OpsOk t v.inDelivery v.nextOp := hv.ops.sameStatus (.grown hg)
  obtain ⟨q, q', hq, hq', hst⟩ := hg.queue
  obtain ⟨t', ht', hadded⟩ := dqAddMessage_spec hv.store hq pMsgId pOriginator now
  obtain rfl := Option.some.inj (hadd.symm.trans ht')
  obtain ⟨new, hnew, hready, h0, hhome⟩ := hg.new
  -- a message is the new one, or an old one
  have hheap : ∀ p d', t.heap p = some d' → d' = new ∧ p = v.store.nextId ∨
      ∃ d, v.store.heap p = some d ∧ d.SameButLinks d' := by
    intro p d' hp
    by_cases hnp : p = v.store.nextId
    · rw [hnp, hnew] at hp
      exact .inl ⟨(Option.some.inj hp).symm, hnp⟩
    · exact .inr (hg.kept p d' hnp hp)
  refine ⟨hops, hadded.storeOk hv.store hq rfl rfl, fun i p hi => hg.stays p (hv.memory i p hi),
    fun p d' hp hdel => ?_, fun b hb => ?_, fun p d' hp h0' => ?_, fun b qb hqb => ?_⟩
  · rcases hheap p d' hp with ⟨rfl, -⟩ | ⟨d, hd, hs⟩
    · rw [hready] at hdel
      cases hdel
    · exact hv.served p d hd (hs.fields.2.1.symm.trans hdel)
  · have hbusy : v.store.Busy b := by
      obtain ⟨qb, hqb, hdel⟩ := hb
      by_cases hba : b = a
      · subst hba
        obtain rfl := Option.some.inj (hqb.symm.trans hq')
        refine ⟨q, hq, ?_⟩
        rw [hst] at hdel
        split at hdel
        · cases hdel
        · exact hdel
      · exact ⟨qb, (hg.others b hba).symm.trans hqb, hdel⟩
    obtain ⟨i, p, hi, d, hd, hdb⟩ := hv.busy b hbusy
    obtain ⟨d', hd'⟩ := Option.ne_none_iff_exists'.1 (hg.stays p (by simp [hd]))
    rcases hheap p d' hd' with ⟨-, rfl⟩ | ⟨d₀, hd₀, hs⟩
    · exact absurd (hv.ops.known i _ hi) (Nat.lt_irrefl _)
    · obtain rfl := Option.some.inj (hd.symm.trans hd₀)
      exact ⟨i, p, hi, d', hd', hs.fields.1.trans hdb⟩
  · rcases hheap p d' hp with ⟨rfl, -⟩ | ⟨d, hd, hs⟩
    · exact .inl hready
    · rw [hs.fields.2.1]
      exact hv.status p d hd (hs.fields.2.2.1.symm.trans h0')
  · by_cases hba : b = a
    · subst hba
      obtain rfl := Option.some.inj (hqb.symm.trans hq')
      rw [hst]
      split
      · exact .inl rfl
      · rename_i hne
        rcases hv.queue b q hq with h | h | h
        · exact .inl h
        · exact .inr (.inl h)
        · exact absurd h.1 hne
    · rw [hg.others b hba] at hqb
      refine (hv.queue b qb hqb).imp_right fun h => h.imp_right fun ⟨he, hno⟩ => ⟨he, ?_⟩
      rintro p ⟨d', hd', hdb⟩
      rcases hheap p d' hd' with ⟨rfl, -⟩ | ⟨d, hd, hs⟩
      · exact hba (hdb.symm.trans hhome)
      · exact hno p ⟨d, hd, hs.fields.1.symm.trans hdb⟩

/-- A cleaning that takes out no message that is in delivery. -/
theorem SerialOk.clean {out : List NonDel} (hv : SerialOk v)
    (hok : idleClean v.store now = true) (hc : msgCleanQueue v.store now = some (t, out)) :
    SerialOk { v with store := t } := by
  obtain ⟨hsafe, hidle⟩ := Bool.and_eq_true_iff.1 hok
  obtain ⟨t', out', ht', htok, hcl⟩ := msgCleanQueue_spec hv.store hsafe
  obtain ⟨rfl, rfl⟩ := Prod.mk.inj (Option.some.inj (hc.symm.trans ht'))
  obtain ⟨hs, -⟩ := msgCleanQueue_swept hv.ops.homed hc
  refine hv.still ⟨fun p d' hp => ?_, fun p d hp hst hn => ?_, fun b qb hqb => ?_⟩ htok
    (hv.ops.sameStatus (.swept hs))
  · obtain ⟨d, hd, hsame⟩ := hs.kept p d' hp
    obtain ⟨h₁, h₂, h₃, -⟩ := hsame.fields
    exact ⟨d, hd, h₂, h₃, h₁⟩
  · obtain ⟨hcleans, hgo⟩ := hcl.gone_goes hp hn
    simp only [hcleans, Bool.not_true, Bool.false_or, List.all_eq_true, List.mem_range] at hidle
    have hall := hidle p (hv.store.lt hp)
    simp [hp, hgo, hst] at hall
  · obtain ⟨m, hm⟩ := hs.recip.of_some hqb
    exact ⟨_, hm, rfl⟩

/-- A message is taken for a new operation. -/
theorem SerialOk.take {n : Nat} (hv : SerialOk v) (hready : q.status = .ready)
    (hwait : d.status = .ready ∨ d.status = .failed)
    (hw : Rewritten v.store p d { d with status := .delivering, lastAttempt := n } q
      { q with lastAttempt := n, status := .delivering } t) :
    SerialOk ⟨t, Function.update v.inDelivery v.nextOp (some p), v.nextOp + 1⟩ := by
  have hops := hv.ops.take hw hready hwait ⟨rfl, rfl⟩ rfl (Nat.le_succ _) (Nat.lt_succ_self _)
  have hold : ∀ j r, v.inDelivery j = some r →
      Function.update v.inDelivery v.nextOp (some p) j = some r := by
    intro j r hj
    rw [Function.update_of_ne, hj]
    rintro rfl
    rw [hv.ops.fresh _ (Nat.le_refl _)] at hj
    cases hj
  have hhas : ∀ b r, t.Has b r ↔ v.store.Has b r :=
    fun b r => ⟨fun h => hw.sameLinks.symm.has h, fun h => hw.sameLinks.has h⟩
  refine ⟨hops, hv.store.sameLinks hw.sameLinks, fun j r hj => ?_, fun r e hr hst => ?_,
    fun b hb => ?_, fun r e hr h0 => ?_, fun b qb hqb => ?_⟩
  · replace hj : Function.update v.inDelivery v.nextOp (some p) j = some r := hj
    show t.heap r ≠ none
    rw [hw.heap_eq]
    split
    · exact Option.some_ne_none _
    · rename_i hrp
      rw [Function.update_apply] at hj
      split at hj
      · exact absurd (Option.some.inj hj).symm hrp
      · exact hv.memory j r hj
  · replace hr : t.heap r = some e := hr
    rw [hw.heap_eq] at hr
    split at hr
    · rename_i hrp
      exact ⟨v.nextOp, by rw [hrp]; exact Function.update_self ..⟩
    · obtain ⟨j, hj⟩ := hv.served r e hr hst
      exact ⟨j, hold j r hj⟩
  · obtain ⟨qb, hqb, hst⟩ := hb
    by_cases hbp : b = d.pRecipQueue
    · exact ⟨v.nextOp, p, Function.update_self .., (hhas b p).2 ⟨d, hw.heap, hbp.symm⟩⟩
    · replace hqb : t.recip b = some qb := hqb
      rw [hw.recip_eq, if_neg hbp] at hqb
      obtain ⟨j, r, hj, hr⟩ := hv.busy b ⟨qb, hqb, hst⟩
      exact ⟨j, r, hold j r hj, (hhas b r).2 hr⟩
  · replace hr : t.heap r = some e := hr
    rw [hw.heap_eq] at hr
    split at hr
    · obtain rfl := Option.some.inj hr
      exact .inr (.inr rfl)
    · exact hv.status r e hr h0
  · replace hqb : t.recip b = some qb := hqb
    rw [hw.recip_eq] at hqb
    split at hqb
    · obtain rfl := Option.some.inj hqb
      exact .inr (.inl rfl)
    · refine (hv.queue b qb hqb).imp_right fun h => h.imp_right fun ⟨he, hno⟩ => ⟨he, fun r hr => ?_⟩
      exact hno r ((hhas b r).1 hr)

/-- A delivery ends, and its queue is ready again. -/
theorem SerialOk.finish (hv : SerialOk v) (hi : v.inDelivery i = some p)
    (hw : Rewritten v.store p d d' q q' t) (hq : q'.status = .ready)
    (hd : d'.completed = 0 ∧ d'.status = .failed ∨ d'.completed ≠ 0 ∧ d'.status = .succeded) :
    SerialOk ⟨t, Function.update v.inDelivery i none, v.nextOp⟩ := by
  have hops := hv.ops.finish hi hw fun hc => by
    rcases hd with ⟨h0, -⟩ | ⟨-, hs⟩
    · exact absurd h0 hc
    · exact .inl hs
  have hnot : d'.status ≠ .delivering := by
    rcases hd with ⟨-, hs⟩ | ⟨-, hs⟩ <;> rw [hs] <;> exact MqStatus.noConfusion
  have hold : ∀ j r, r ≠ p → v.inDelivery j = some r →
      Function.update v.inDelivery i none j = some r := by
    intro j r hr hj
    rw [Function.update_of_ne, hj]
    rintro rfl
    exact hr (Option.some.inj (hj.symm.trans hi))
  have hhas : ∀ b r, t.Has b r ↔ v.store.Has b r :=
    fun b r => ⟨fun h => hw.sameLinks.symm.has h, fun h => hw.sameLinks.has h⟩
  refine ⟨hops, hv.store.sameLinks hw.sameLinks, fun j r hj hn => ?_, fun r e hr hst => ?_,
    fun b hb => ?_, fun r e hr h0 => ?_, fun b qb hqb => ?_⟩
  · replace hj : Function.update v.inDelivery i none j = some r := hj
    rw [Function.update_apply] at hj
    split at hj
    · cases hj
    · obtain ⟨e, he⟩ := Option.ne_none_iff_exists'.1 (hv.memory j r hj)
      obtain ⟨e', he', -⟩ := (hhas _ r).2 ⟨e, he, rfl⟩
      replace hn : t.heap r = none := hn
      rw [hn] at he'
      cases he'
  · replace hr : t.heap r = some e := hr
    rw [hw.heap_eq] at hr
    split at hr
    · obtain rfl := Option.some.inj hr
      exact absurd hst hnot
    · rename_i hrp
      obtain ⟨j, hj⟩ := hv.served r e hr hst
      exact ⟨j, hold j r hrp hj⟩
  · obtain ⟨qb, hqb, hst⟩ := hb
    replace hqb : t.recip b = some qb := hqb
    rw [hw.recip_eq] at hqb
    split at hqb
    · obtain rfl := Option.some.inj hqb
      rw [hq] at hst
      cases hst
    · rename_i hb
      obtain ⟨j, r, hj, hr⟩ := hv.busy b ⟨qb, hqb, hst⟩
      refine ⟨j, r, hold j r ?_ hj, (hhas b r).2 hr⟩
      rintro rfl
      obtain ⟨e, he, heb⟩ := hr
      obtain rfl := Option.some.inj (hw.heap.symm.trans he)
      exact hb heb.symm
  · replace hr : t.heap r = some e := hr
    rw [hw.heap_eq] at hr
    split at hr
    · obtain rfl := Option.some.inj hr
      rcases hd with ⟨-, hs⟩ | ⟨hne, -⟩
      · exact .inr (.inl hs)
      · exact absurd h0 hne
    · exact hv.status r e hr h0
  · replace hqb : t.recip b = some qb := hqb
    rw [hw.recip_eq] at hqb
    split at hqb
    · obtain rfl := Option.some.inj hqb
      exact .inl hq
    · refine (hv.queue b qb hqb).imp_right fun h => h.imp_right fun ⟨he, hno⟩ => ⟨he, fun r hr => ?_⟩
      exact hno r ((hhas b r).1 hr)

theorem SerialOk.ended {tr : DeliverTrans} (hv : SerialOk v) (htr : deliveries.trans tr = true)
    (hi : v.inDelivery i = some p) (he : Ended cfg now v.store p tr t out) :
    SerialOk ⟨t, Function.update v.inDelivery i none, v.nextOp⟩ := by
  cases he with
  | succeeded hu =>
    obtain ⟨d, hd, ⟨hne, -⟩ | ⟨-, -, q, hw⟩⟩ := msgUpdateMessageStatus_inv hu
    · exact absurd (hv.ops.live i p d hi hd).2.1 hne
    · exact hv.finish hi hw rfl (.inr ⟨now.ne_zero, rfl⟩)
  | respooled hr =>
    obtain ⟨d, q, delay, -, hw⟩ := deliveryRespool_inv hr
    exact hv.finish hi hw rfl (.inl ⟨(hv.ops.live i p d hi hw.heap).2.1, rfl⟩)
  | reported => cases htr
  | dropped => cases htr

/-- The status of a queue or of the store is written, but not those of the messages. -/
theorem SerialOk.links (hv : SerialOk v) (hs : SameLinks v.store t) (hst : SameStatus v.store t)
    (hheap : t.heap = v.store.heap)
    (hrecip : ∀ a q', t.recip a = some q' → ∃ q, v.store.recip a = some q ∧ q'.status = q.status) :
    SerialOk { v with store := t } := by
  refine hv.still ⟨fun p d hp => ⟨d, by rw [← hheap]; exact hp, rfl, rfl, rfl⟩,
    fun p d hp _ => by rw [hheap, hp]; exact Option.some_ne_none d, hrecip⟩
    (hv.store.sameLinks hs) (hv.ops.sameStatus hst)

/-- **Every move keeps the deliveries apart.** -/
theorem SerialOk.move (hv : SerialOk v) (hm : Move cfg deliveries v out w) : SerialOk w := by
  have hsame : ∀ a q, v.store.recip a = some q → ∃ q₀, v.store.recip a = some q₀ ∧
      q.status = q₀.status := fun a q hq => ⟨q, hq, rfl⟩
  cases hm with
  | newRecip hg => exact hv.newRecip hg
  | add _ hadd => exact hv.add hadd
  | deliverNow =>
    refine hv.links msgDeliverNow_sameLinks (.deliverNow hv.ops.homed) rfl fun a q' hq' => ?_
    obtain ⟨q, hq, rfl⟩ := Option.map_eq_some_iff.1 hq'
    refine ⟨q, hq, ?_⟩
    split <;> rfl
  | dumpQueue | wait =>
    exact hv.links ⟨rfl, rfl, fun _ => rfl, fun _ => rfl⟩
      ⟨hv.ops.homed.sameLinks ⟨rfl, rfl, fun _ => rfl, fun _ => rfl⟩, Nat.le_refl _,
        fun p d hp => .inr ⟨d, hp, rfl, rfl, rfl⟩, fun _ hb => hb⟩ rfl hsame
  | clean hok hc => exact hv.clean hok hc
  | profile _ hq =>
    refine hv.links (SameLinks.setRecip hq rfl) (.profile hv.ops.homed hq) rfl fun b qb hqb => ?_
    rw [Store.setRecip_recip] at hqb
    split at hqb
    · rename_i hb
      obtain rfl := Option.some.inj hqb
      exact ⟨_, (congrArg v.store.recip hb).trans hq, rfl⟩
    · exact ⟨qb, hqb, rfl⟩
  | take hstart hwait hready hw hnew =>
    obtain ⟨halloc, -⟩ := Bool.and_eq_true_iff.1 hstart
    rw [if_pos halloc] at hnew
    obtain ⟨rfl, rfl⟩ := hnew
    exact hv.take hready hwait hw
  | cancel hstart hpdu _ _ =>
    obtain ⟨-, hsome⟩ := Bool.and_eq_true_iff.1 hstart
    rw [hpdu] at hsome
    cases hsome
  | finish htr hi he => exact hv.ended htr hi he
  | send => exact hv

theorem serialOk {e : Server} {h : List Out}
    (hr : Run.Reach (server cfg) plainDeliveries h e) : SerialOk e.view := by
  refine Run.Reach.invariant (S := server cfg) (P := fun e => SerialOk e.view) (fun e he => ?_)
    (fun e i e' o hv hok hs => ?_) hr
  · obtain rfl : e = {} := he
    exact .empty
  · have hm : Moves cfg deliveries e.view o e'.view := step_moves hv.ops.homed hok hs
    exact hm.invariant (P := fun _ w => SerialOk w) hv fun _ _ _ _ hq hmove => hq.move hmove

/-! ## No queue is passed over for ever -/

/-- The message waits for a delivery. -/
def ControlData.Waits (d : ControlData) : Prop := d.status = .ready ∨ d.status = .failed

theorem firstWaiting_spec {l : List MsgId} {m : Option MsgId} {fuel : Nat}
    (hl : Chain s.nextOf m l) (hfuel : l.length ≤ fuel) :
    ∃ o, firstWaiting s fuel m = some o ∧
      (o = none → ∀ p ∈ l, ∀ d, s.heap p = some d → ¬ d.Waits) := by
  induction l generalizing m fuel with
  | nil =>
    rw [Chain.nil_iff.1 hl]
    refine ⟨none, ?_, fun _ p hp => (by cases hp)⟩
    cases fuel <;> rfl
  | cons r l ih =>
    obtain ⟨rfl, n, hn, hl⟩ := hl
    obtain ⟨d, hd, rfl⟩ := Store.nextOf_some.1 hn
    cases fuel with
    | zero => exact absurd hfuel (Nat.not_succ_le_zero _)
    | succ fuel =>
      by_cases hst : d.status = .ready ∨ d.status = .failed
      · refine ⟨some r, ?_, fun h => (by cases h)⟩
        simp only [firstWaiting, hd, Option.bind_eq_bind, Option.bind_some, if_pos hst]
      · obtain ⟨o, ho, hnone⟩ := ih hl (Nat.le_of_succ_le_succ hfuel)
        refine ⟨o, ?_, fun h p hp e he => ?_⟩
        · simp only [firstWaiting, hd, Option.bind_eq_bind, Option.bind_some, if_neg hst, ho]
        · rcases List.mem_cons.1 hp with rfl | hp
          · obtain rfl := Option.some.inj (hd.symm.trans he)
            exact hst
          · exact hnone h p hp e he

/-- Where nothing is found, no message of a queue that is ready and due is waiting. -/
theorem nextWaiting_spec (h : StoreOk s) (now : Time) {rs : List EmsdAddr}
    (hknown : ∀ a ∈ rs, s.recip a ≠ none) :
    ∃ o, nextWaiting s now rs = some o ∧ (o = none → ∀ a ∈ rs, ∀ q, s.recip a = some q →
      q.status = .ready → q.nextAttempt ≤ now → ∀ p d, s.heap p = some d → d.pRecipQueue = a →
        ¬ d.Waits) := by
  induction rs with
  | nil => exact ⟨none, rfl, fun _ a ha => (by cases ha)⟩
  | cons b rs ih =>
    obtain ⟨o, ho, hnone⟩ := ih fun a ha => hknown a (List.mem_cons_of_mem _ ha)
    obtain ⟨qb, hqb⟩ := Option.ne_none_iff_exists'.1 (hknown b List.mem_cons_self)
    by_cases hskip : qb.status ≠ .ready ∨ qb.nextAttempt > now
    · refine ⟨o, ?_, fun h a ha q hq hready hdue => ?_⟩
      · simp only [nextWaiting, hqb, Option.bind_eq_bind, Option.bind_some, if_pos hskip, ho]
      · rcases List.mem_cons.1 ha with rfl | ha
        · obtain rfl := Option.some.inj (hqb.symm.trans hq)
          rcases hskip with hne | hlt
          · exact absurd hready hne
          · exact absurd hdue (Nat.not_le.2 hlt)
        · exact hnone h a ha q hq hready hdue
    · obtain ⟨l, hl, hmem, -, hlen⟩ := h.listOf hqb
      obtain ⟨o', ho', hnone'⟩ := firstWaiting_spec hl (Nat.le_succ_of_le hlen)
      cases o' with
      | some p =>
        refine ⟨some p, ?_, fun h => (by cases h)⟩
        simp only [nextWaiting, hqb, Option.bind_eq_bind, Option.bind_some, if_neg hskip, ho']
      | none =>
        refine ⟨o, ?_, fun h a ha q hq hready hdue p d hp hhome => ?_⟩
        · simp only [nextWaiting, hqb, Option.bind_eq_bind, Option.bind_some, if_neg hskip, ho', ho]
        · rcases List.mem_cons.1 ha with rfl | ha
          · exact hnone' rfl p ((hmem p).2 ⟨d, hp, hhome⟩) d hp
          · exact hnone h a ha q hq hready hdue p d hp hhome

theorem markDelivering_some (hp : s.heap p = some d) (hq : s.recip d.pRecipQueue = some q)
    (now : Time) :
    markDelivering s p now ≠ none := by
  simp [markDelivering, hp, hq]

/-- A queue whose messages are not finished is in delivery, or it is not due yet. -/
def Attended (e : Server) (t : Store) (now : Time) : Prop :=
  ∀ p d, t.heap p = some d → d.completed = 0 →
    (∃ i op, e.ops i = some op ∧ t.Has d.pRecipQueue op.pControlData) ∨
      ∃ q, t.recip d.pRecipQueue = some q ∧ now < q.nextAttempt

/-- **`msg_getMessage` passes over no queue that is due.** -/
theorem SerialOk.getMessage {e : Server} {cleaned : Time} (hv : SerialOk e.view)
    (hok : idleClean e.store cleaned = true) :
    ∃ pMsg t out, msgGetMessage e.store cleaned now = some (pMsg, t, out) ∧
      (pMsg = none → (∀ a q', t.recip a = some q' → ∃ q, e.store.recip a = some q ∧
          q'.nextAttempt = q.nextAttempt) ∧
        (e.store.nextAttempt > now ∧ t.nextAttempt = e.store.nextAttempt ∨
          t.nextAttempt ≤ now + 2 ∧ Attended e t now)) := by
  obtain ⟨u, out, hc, hu, hcl⟩ := msgCleanQueue_spec hv.store (Bool.and_eq_true_iff.1 hok).1
  replace hc : msgCleanQueue e.store cleaned = some (u, out) := hc
  have huv := hv.clean hok hc
  have hrecip : ∀ a q', u.recip a = some q' → ∃ q, e.store.recip a = some q ∧
      q'.nextAttempt = q.nextAttempt := by
    intro a q' hq'
    rcases hcl.recip a with ⟨-, hn⟩ | ⟨q, m, hq, ht⟩
    · rw [hn] at hq'
      cases hq'
    · obtain rfl := Option.some.inj (ht.symm.trans hq')
      exact ⟨q, hq, rfl⟩
  unfold msgGetMessage
  rw [hc]
  simp only [Option.bind_eq_bind, Option.bind_some]
  by_cases hlater : u.nextAttempt > now
  · refine ⟨none, u, out, if_pos hlater, fun _ => ⟨hrecip, .inl ⟨?_, hcl.nextAttempt⟩⟩⟩
    have hsame : u.nextAttempt = e.store.nextAttempt := hcl.nextAttempt
    rwa [hsame] at hlater
  · rw [if_neg hlater]
    obtain ⟨o, ho, hnone⟩ := nextWaiting_spec hu now fun a ha => (hu.known a).1 ha
    cases o with
    | some p =>
      obtain ⟨d, q, hp, -, hq, -⟩ := nextWaiting_inv hu.homed ho
      obtain ⟨t, ht⟩ := Option.ne_none_iff_exists'.1 (markDelivering_some hp hq now)
      refine ⟨some p, { t with nextAttempt := now }, out, ?_, fun h => (by cases h)⟩
      simp only [ho, Option.bind_some, ht]
    | none =>
      refine ⟨none, { u with nextAttempt := now + 2 }, out, ?_, fun _ => ⟨hrecip, .inr
        ⟨Nat.le_refl _, fun p d hp h0 => ?_⟩⟩⟩
      · simp only [ho, Option.bind_some]
      · obtain ⟨q, hq⟩ := Option.ne_none_iff_exists'.1 (hu.home p d hp)
        by_cases hdue : q.nextAttempt ≤ now
        · left
          have hbusy : u.Busy d.pRecipQueue := by
            rcases huv.queue _ q hq with hready | hdel | ⟨-, hno⟩
            · -- the message is not waiting, so it is in delivery itself
              have hw := hnone rfl _ ((hu.known _).2 (hu.home p d hp)) q hq hready hdue p d hp rfl
              rcases huv.status p d hp h0 with hr | hf | hdel
              · exact absurd (.inl hr) hw
              · exact absurd (.inr hf) hw
              · obtain ⟨i, hi⟩ := huv.served p d hp hdel
                exact (huv.ops.live i p d hi hp).2.2
            · exact ⟨q, hq, hdel⟩
            · exact absurd ⟨d, hp, rfl⟩ (hno p)
          obtain ⟨i, r, hi, hr⟩ := huv.busy _ hbusy
          obtain ⟨op, hop, rfl⟩ := Option.map_eq_some_iff.1 hi
          exact ⟨i, op, hop, hr⟩
        · exact .inr ⟨q, hq, Nat.not_le.1 hdue⟩

/-- **One delivery at a time**, in every run where deliveries begin, and end by a success or a
transient failure, and no cleaning takes out a message that is in delivery. -/
theorem delivery_serial (cfg : Config) (h : List Out) (e : Server)
    (hr : Run.Reach (server cfg) plainDeliveries h e) :
    (∀ a p r d d', e.store.heap p = some d → e.store.heap r = some d' →
      d.pRecipQueue = a → d'.pRecipQueue = a → d.status = .delivering → d'.status = .delivering →
        p = r) ∧
    (∀ a q, e.store.recip a = some q →
      (q.status = .delivering ↔ ∃ i op, e.ops i = some op ∧ e.store.Has a op.pControlData)) ∧
    ∀ cleaned now : Time, idleClean e.store cleaned = true →
      ∃ pMsg t out, msgGetMessage e.store cleaned now = some (pMsg, t, out) ∧
        (pMsg = none → (∀ a q', t.recip a = some q' → ∃ q, e.store.recip a = some q ∧
            q'.nextAttempt = q.nextAttempt) ∧
          (e.store.nextAttempt > now ∧ t.nextAttempt = e.store.nextAttempt ∨
            t.nextAttempt ≤ now + 2 ∧ Attended e t now)) := by
  have hv := serialOk hr
  refine ⟨fun a p r d d' hp hr ha ha' hst hst' => ?_, fun a q hq => ⟨fun hst => ?_, ?_⟩,
    fun cleaned now hok => hv.getMessage hok⟩
  · obtain ⟨i, hi⟩ := hv.served p d hp hst
    obtain ⟨j, hj⟩ := hv.served r d' hr hst'
    obtain rfl := hv.ops.sep i j p r d d' hi hj hp hr (ha.trans ha'.symm)
    exact Option.some.inj (hi.symm.trans hj)
  · obtain ⟨i, p, hi, hp⟩ := hv.busy a ⟨q, hq, hst⟩
    obtain ⟨op, hop, rfl⟩ := Option.map_eq_some_iff.1 hi
    exact ⟨i, op, hop, hp⟩
  · rintro ⟨i, op, hop, d, hd, rfl⟩
    obtain ⟨-, -, q', hq', hst⟩ := hv.ops.live i op.pControlData d (by simp [Server.view, hop]) hd
    obtain rfl := Option.some.inj (hq.symm.trans hq')
    exact hst

/-- A message is being delivered, and ESROS gives the indication `i` of its invocation. -/
def deliverThen (i : Input) : List Input :=
  let t : Try := { cleaned := 2000, now := 2000, deleted := 2000, pdu := some ⟨[[1, 2, 3]], 0, 0⟩ }
  [.addMessage "id" "sender" [⟨7, some ⟨[], 1, 1, true⟩, 2000⟩],
    .tryDelivery [t, t],
    .schRun { invokeReq := some 5 } 2000,
    i,
    .schRun {} 2000]

theorem delivery_serial_first : ∃ h e, Run.Reach (server {}) plainDeliveries h e ∧
    ∃ i op, e.ops i = some op ∧ e.store.Has 7 op.pControlData := by
  have hb : ∀ e i, deliveries.step e i = true → plainDeliveries e i := fun _ _ hb => hb
  obtain ⟨e, h, hr, hp⟩ := Run.Reach.of_run (S := server {}) (s := {}) hb rfl
    ((deliverThen .dumpQueue).take 3) (fun e _ => (e.store.recip 7).any (·.status = .delivering))
    (by decide +kernel)
  obtain ⟨q, hq, hst⟩ := (Option.any_eq_true _ _).1 hp
  exact ⟨h, e, hr, ((delivery_serial {} h e hr).2.1 7 q hq).1 (of_decide_eq_true hst)⟩

/-- After an ERROR.indication the queue is still in delivery, and no operation is left. -/
theorem delivery_blocked : ∃ h e, Run.Reach (server {}) Run.any h e ∧
    (∃ q, e.store.recip 7 = some q ∧ q.status = .delivering) ∧
      ¬ ∃ i op, e.ops i = some op ∧ e.store.Has 7 op.pControlData := by
  obtain ⟨e, h, hr, hp⟩ := Run.Reach.of_run_any (S := server {}) (s := {}) rfl
    (deliverThen (.errorIndication 5 true))
    (fun e _ => (e.store.recip 7).any (·.status = .delivering) &&
      decide (e.nextOp = 1) && (e.ops 0).isNone) (by decide +kernel)
  simp only [Bool.and_eq_true, decide_eq_true_eq, Option.isNone_iff_eq_none] at hp
  obtain ⟨⟨hst, hnext⟩, hnone⟩ := hp
  obtain ⟨q, hq, hst⟩ := (Option.any_eq_true _ _).1 hst
  refine ⟨h, e, hr, ⟨q, hq, of_decide_eq_true hst⟩, ?_⟩
  rintro ⟨i, op, hop, -⟩
  cases i with
  | zero =>
    rw [hnone] at hop
    cases hop
  | succ i =>
    have hfresh := (opsOk hr).fresh (i + 1) (by simp [Server.view, hnext])
    simp [Server.view, hop] at hfresh

end Mts
