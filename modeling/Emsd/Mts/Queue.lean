import Emsd.Mts.Moves

/-!
# The structure of the delivery queue

The calls of the message store, in any order and at any times, together with the steps of the
server. `DQ_addMessage` does not set `prev`, the cleaner does not decrement the count when a message
expires, and it does not ask whether the message is in delivery.

* `queue_structure`: **the queues are well-formed** in every run where a message is added to an empty
  list only, and no cleaning finds a message that expires before it has been completed, or one that
  is in delivery.
* `queue_broken`: two messages of one recipient.
-/

namespace Mts

open Lib Server

/-- A call of the message store. -/
inductive StoreCall
  | dqGetRecipQueue (a : EmsdAddr) (sub : Option DeviceProfile) (now : Time)
  | dqAddMessage (pMsgId pOriginator : String) (a : EmsdAddr) (now : Time)
  | msgGetMessage (cleaned now : Time)
  | msgUpdateMessageStatus (p : MsgId) (status : MqStatus) (now : Time)
  | msgDeleteMessage (p : MsgId) (now : Time)
  | msgCleanQueue (now : Time)

def Store.call (s : Store) : StoreCall → Option (Store × List NonDel)
  | .dqGetRecipQueue a sub now => (Mts.dqGetRecipQueue s a sub now).map fun s => (s, [])
  | .dqAddMessage pMsgId pOriginator a now =>
    (Mts.dqAddMessage s pMsgId pOriginator a now).map fun s => (s, [])
  | .msgGetMessage cleaned now => (Mts.msgGetMessage s cleaned now).map fun r => (r.2.1, r.2.2)
  | .msgUpdateMessageStatus p status now =>
    (Mts.msgUpdateMessageStatus s p status now).map fun r => (r.1, [])
  | .msgDeleteMessage p now => (Mts.msgDeleteMessage s p now).map fun s => (s, [])
  | .msgCleanQueue now => Mts.msgCleanQueue s now

/-- The server, with the calls of its store made at any time besides. -/
def calls (cfg : Config) : Run.Sys Server (Input ⊕ StoreCall) Out where
  init e := e = {}
  step e
    | .inl i => Server.step cfg e i
    | .inr c => (e.store.call c).map fun r => ({ e with store := r.1 }, r.2.map .nonDel)

variable {cfg : Config} {v w : View} {s t : Store} {a : EmsdAddr} {q q' : RecipQueue} {p : MsgId}
  {d d' : ControlData} {now : Time} {l : List MsgId} {out : List Out}

def Store.prevOf (s : Store) (p : MsgId) : Option (Option MsgId) := (s.heap p).map (·.prev)

/-- The message has not been completed. -/
def Store.waits (s : Store) (p : MsgId) : Bool := (s.heap p).any (·.completed = 0)

/-- The list of the recipient is empty. -/
def emptyList (s : Store) (a : EmsdAddr) : Bool := (s.recip a).all (·.pMsg = none)

/-- A cleaning takes out completed messages only, and none that is in delivery. -/
def plainClean (v : View) (now : Time) : Bool :=
  !v.store.cleans now || (List.range v.store.nextId).all fun p => (v.store.heap p).all fun d =>
    !d.goes now || (d.completed ≠ 0 && (List.range v.nextOp).all fun i => v.inDelivery i ≠ some p)

/-- The condition on the steps. -/
def plainCalls : Allow := { add := emptyList, clean := plainClean }

/-- The same for a call of the store. -/
def plainCall (v : View) : StoreCall → Bool
  | .dqAddMessage _ _ a _ => emptyList v.store a
  | .msgGetMessage cleaned _ => plainClean v cleaned
  | .msgCleanQueue now => plainClean v now
  | _ => true

def plainStep (e : Server) : Input ⊕ StoreCall → Bool
  | .inl i => plainCalls.step e i
  | .inr c => plainCall e.view c

def plain (e : Server) (i : Input ⊕ StoreCall) : Prop := plainStep e i = true

/-- What the count of a queue should be. -/
def Store.waiting (s : Store) (q : RecipQueue) : Nat :=
  match q.pMsg with
  | none => 0
  | some p => if s.waits p then 1 else 0

theorem Store.waiting_congr (hm : q'.pMsg = q.pMsg)
    (hw : ∀ p, q.pMsg = some p → t.waits p = s.waits p) : t.waiting q' = s.waiting q := by
  unfold Store.waiting
  rw [hm]
  cases hp : q.pMsg with
  | none => rfl
  | some p => simp only [hw p hp]

theorem Store.waits_congr (hp : t.heap p = s.heap p) : t.waits p = s.waits p := by
  unfold Store.waits
  rw [hp]

/-- The store, where no list is longer than one message. -/
structure PlainLists (s : Store) : Prop where
  store : StoreOk s
  short : ∀ a q, s.recip a = some q → ∀ p d, q.pMsg = some p → s.heap p = some d → d.next = none
  count : ∀ a q, s.recip a = some q → q.count = s.waiting q

/-- The list of a queue is empty, or has one message. -/
theorem PlainLists.list (h : PlainLists s) (hq : s.recip a = some q) :
    Chain s.nextOf q.pMsg q.pMsg.toList ∧ ∀ p, q.pMsg = some p ↔ s.Has a p := by
  obtain ⟨l, hl, hmem, -, -⟩ := h.store.listOf hq
  have hlist : l = q.pMsg.toList := by
    cases hm : q.pMsg with
    | none =>
      rw [hm] at hl
      exact hl.eq_nil
    | some p =>
      rw [hm] at hl
      cases l with
      | nil => cases hl
      | cons r l =>
        obtain ⟨hr, n, hn, hl⟩ := hl
        obtain rfl := Option.some.inj hr
        obtain ⟨d, hd, rfl⟩ := Store.nextOf_some.1 hn
        rw [h.short a q hq p d hm hd] at hl
        rw [hl.eq_nil]
        rfl
  subst hlist
  exact ⟨hl, fun p => by rw [← hmem p, Option.mem_toList]⟩

theorem PlainLists.empty : PlainLists {} where
  store := .empty
  short _ _ h := by cases h
  count _ _ h := by cases h

/-- A call that writes no links, and keeps the counts right. -/
theorem PlainLists.sameLinks (h : PlainLists s) (hs : SameLinks s t)
    (hcount : ∀ a q, t.recip a = some q → q.count = t.waiting q) : PlainLists t := by
  refine ⟨h.store.sameLinks hs, fun a q hq p d hm hp => ?_, hcount⟩
  have hr := hs.recip a
  rw [hq, Option.map_some, eq_comm, Option.map_eq_some_iff] at hr
  obtain ⟨q', hq', hm'⟩ := hr
  obtain ⟨d', hd', hl⟩ := hs.some hp
  exact (congrArg (·.1) hl).symm.trans (h.short a q' hq' p d' (hm'.trans hm) hd')

/-- One message and its queue are written. -/
theorem PlainLists.rewritten (h : PlainLists s) (hw : Rewritten s p d d' q q' t)
    (hc : (q'.count = q.count ∧ (d'.completed = 0 ↔ d.completed = 0)) ∨
      (q'.count = decr q.count ∧ d.completed = 0 ∧ d'.completed ≠ 0)) : PlainLists t := by
  refine h.sameLinks hw.sameLinks fun b qb hqb => ?_
  rw [hw.recip_eq] at hqb
  split at hqb
  · rename_i hb
    obtain rfl := Option.some.inj hqb
    -- the message is the one message of its queue
    have hm : q.pMsg = some p := ((h.list hw.recip).2 p).2 ⟨d, hw.heap, rfl⟩
    have hcount := h.count _ q hw.recip
    simp only [Store.waiting, hw.pMsg, hm, Store.waits, hw.heap_eq, if_true, hw.heap,
      Option.any_some, decide_eq_true_eq] at hcount ⊢
    rcases hc with ⟨hc, hiff⟩ | ⟨hc, h0, hne⟩
    · rw [hc, hcount]
      exact if_congr hiff.symm rfl rfl
    · rw [hc, hcount, if_pos h0, if_neg hne]
      rfl
  · rename_i hb
    rw [h.count b qb hqb]
    refine (Store.waiting_congr rfl fun r hm => Store.waits_congr ?_).symm
    have hr : r ≠ p := by
      rintro rfl
      obtain ⟨d₀, hd₀, hhome⟩ := ((h.list hqb).2 r).1 hm
      obtain rfl : d = d₀ := by simpa [hw.heap] using hd₀
      exact hb hhome.symm
    rw [hw.heap_eq, if_neg hr]

/-- A queue is written, but neither its messages nor its count. -/
theorem PlainLists.setRecip (h : PlainLists s) (hq : s.recip a = some q)
    (hm : q'.pMsg = q.pMsg) (hc : q'.count = q.count) : PlainLists (s.setRecip a q') := by
  refine h.sameLinks (SameLinks.setRecip hq hm) fun b qb hqb => ?_
  rw [Store.setRecip_recip] at hqb
  split at hqb
  · obtain rfl := Option.some.inj hqb
    rw [hc, h.count a q hq]
    exact (Store.waiting_congr hm fun _ _ => rfl).symm
  · exact h.count b qb hqb

theorem PlainLists.deliverNow {nsap : Ocp.NSapAddr} (h : PlainLists s) :
    PlainLists (msgDeliverNow s nsap now) := by
  refine h.sameLinks msgDeliverNow_sameLinks fun b qb hqb => ?_
  obtain ⟨q, hq, rfl⟩ := Option.map_eq_some_iff.1 hqb
  have hcount := h.count b q hq
  split <;> exact hcount

theorem PlainLists.newRecip {sub : Option DeviceProfile} (h : PlainLists s)
    (hg : dqGetRecipQueue s a sub now = some t) : PlainLists t := by
  rcases dqGetRecipQueue_inv hg with rfl | ⟨hnone, q, -, hm, h0, rfl⟩
  · exact h
  · have hrecip : ∀ b qb, ({ s.setRecip a q with recips := a :: s.recips } : Store).recip b = some qb →
        qb = q ∨ s.recip b = some qb := by
      intro b qb hqb
      replace hqb : (s.setRecip a q).recip b = some qb := hqb
      rw [Store.setRecip_recip] at hqb
      split at hqb
      · exact .inl (Option.some.inj hqb).symm
      · exact .inr hqb
    refine ⟨dqGetRecipQueue_new h.store hnone hm, fun b qb hqb p d hmb hp => ?_, fun b qb hqb => ?_⟩
    · rcases hrecip b qb hqb with rfl | hqb
      · rw [hm] at hmb
        cases hmb
      · exact h.short b qb hqb p d hmb hp
    · rcases hrecip b qb hqb with rfl | hqb
      · rw [h0]
        unfold Store.waiting
        rw [hm]
      · exact h.count b qb hqb

/-- A message is added to an empty list. -/
theorem PlainLists.add {pMsgId pOriginator : String} (h : PlainLists s)
    (hempty : emptyList s a = true) (hadd : dqAddMessage s pMsgId pOriginator a now = some t) :
    PlainLists t := by
  obtain ⟨q, u, q', hq, hu, hq', hnext, hheap, hrecip⟩ := dqAddMessage_inv hadd
  have hm : q.pMsg = none := by simpa [emptyList, hq] using hempty
  obtain ⟨t', ht', hadded⟩ := dqAddMessage_spec h.store hq pMsgId pOriginator now
  obtain rfl := Option.some.inj (hadd.symm.trans ht')
  unfold linkNew at hu
  rw [hm] at hu
  obtain rfl := Option.some.inj hu
  obtain rfl : { q with pMsg := some s.nextId } = q' := by simpa using hq'
  have hold : ∀ b qb p, b ≠ a → t.recip b = some qb → qb.pMsg = some p →
      s.recip b = some qb ∧ t.heap p = s.heap p := by
    intro b qb p hb hqb hmb
    rw [hrecip, if_neg hb, Store.setRecip_recip, if_neg hb] at hqb
    obtain ⟨d, hd, -⟩ := ((h.list hqb).2 p).1 hmb
    refine ⟨hqb, ?_⟩
    rw [hheap, if_neg (Nat.ne_of_lt (h.store.lt hd))]
    rfl
  refine ⟨hadded.storeOk h.store hq rfl rfl, fun b qb hqb p d hmb hp => ?_, fun b qb hqb => ?_⟩
  · by_cases hb : b = a
    · rw [hrecip, if_pos hb] at hqb
      obtain rfl := Option.some.inj hqb
      obtain rfl : s.nextId = p := Option.some.inj hmb
      rw [hheap, if_pos rfl] at hp
      obtain rfl := Option.some.inj hp
      rfl
    · obtain ⟨hqb', hheap'⟩ := hold b qb p hb hqb hmb
      exact h.short b qb hqb' p d hmb (hheap'.symm.trans hp)
  · by_cases hb : b = a
    · rw [hrecip, if_pos hb] at hqb
      obtain rfl := Option.some.inj hqb
      have h0 : q.count = 0 := by
        rw [h.count a q hq]
        unfold Store.waiting
        rw [hm]
      have hwaits : t.waits s.nextId = true := by
        unfold Store.waits
        rw [hheap, if_pos rfl]
        rfl
      show incr q.count = (if t.waits s.nextId then 1 else 0)
      rw [h0, hwaits]
      rfl
    · have hqb' : s.recip b = some qb := by
        rwa [hrecip, if_neg hb, Store.setRecip_recip, if_neg hb] at hqb
      rw [h.count b qb hqb']
      exact (Store.waiting_congr rfl fun p hmb => Store.waits_congr (hold b qb p hb hqb hmb).2).symm

/-- A list with one message has the messages that go at its front. -/
theorem PlainLists.cleanSafe (h : PlainLists s) (now : Time) : s.cleanSafe now = true := by
  have hfront : ∀ a ∈ s.recips, s.frontOnly now a = true := by
    intro a ha
    obtain ⟨q, hq⟩ := Option.ne_none_iff_exists'.1 ((h.store.known a).1 ha)
    unfold Store.frontOnly
    rw [h.store.msgs_eq ⟨q, hq, (h.list hq).1⟩]
    cases q.pMsg with
    | none => rfl
    | some p =>
      cases hg : s.goes now p with
      | true => simp [hg]
      | false => simp [hg]
  simp only [Store.cleanSafe, Bool.or_eq_true, List.all_eq_true]
  exact .inr hfront

/-- The live operations, and the lists. -/
structure QueueOk (v : View) : Prop where
  lists : PlainLists v.store
  ops : ∀ i p, v.inDelivery i = some p → v.store.heap p ≠ none
  fresh : ∀ i, v.nextOp ≤ i → v.inDelivery i = none

/-- What a plain cleaning finds where a message goes. -/
theorem plainClean_goes (h : QueueOk v) (hok : plainClean v now = true)
    (hc : v.store.cleans now = true) (hp : v.store.heap p = some d) (hg : d.goes now = true) :
    d.completed ≠ 0 ∧ ∀ i, v.inDelivery i ≠ some p := by
  simp only [plainClean, hc, Bool.not_true, Bool.false_or, List.all_eq_true, List.mem_range] at hok
  have hall := hok p (h.lists.store.lt hp)
  simp only [hp, Option.all_some, hg, Bool.not_true, Bool.false_or, Bool.and_eq_true,
    decide_eq_true_eq, List.all_eq_true, List.mem_range] at hall
  refine ⟨hall.1, fun i hi => ?_⟩
  by_cases hlt : i < v.nextOp
  · exact hall.2 i hlt hi
  · rw [h.fresh i (Nat.not_lt.1 hlt)] at hi
    cases hi

/-- **A plain cleaning.** -/
theorem QueueOk.clean {out : List NonDel} (h : QueueOk v) (hok : plainClean v now = true)
    (hcl : msgCleanQueue v.store now = some (t, out)) : QueueOk { v with store := t } := by
  obtain ⟨t', out', ht', htok, hc⟩ := msgCleanQueue_spec h.lists.store (h.lists.cleanSafe now)
  obtain ⟨rfl, rfl⟩ := Prod.mk.inj (Option.some.inj (hcl.symm.trans ht'))
  have hkept : ∀ p d, t.heap p = some d → v.store.heap p = some d := fun p d hp => hc.kept hp
  have hgone : ∀ p d, v.store.heap p = some d → t.heap p = none →
      d.completed ≠ 0 ∧ ∀ i, v.inDelivery i ≠ some p := by
    intro p d hp hn
    obtain ⟨hcleans, hgo⟩ := hc.gone_goes hp hn
    exact plainClean_goes h hok hcleans hp hgo
  have hrecip : ∀ a q', t.recip a = some q' → ∃ q, v.store.recip a = some q ∧
      q' = { q with pMsg := q'.pMsg } := by
    intro a q' hq'
    rcases hc.recip a with ⟨-, hn⟩ | ⟨q, m, hq, ht⟩
    · rw [hn] at hq'
      cases hq'
    · obtain rfl := Option.some.inj (ht.symm.trans hq')
      exact ⟨q, hq, rfl⟩
  -- what is first in a list was first before
  have hfirst : ∀ a q q' p, v.store.recip a = some q → t.recip a = some q' → q'.pMsg = some p →
      q.pMsg = some p := by
    intro a q q' p hq hq' hm
    obtain ⟨l, hl, hmem, -⟩ := htok.listOf hq'
    rw [hm] at hl
    have hin : p ∈ l := List.mem_of_mem_head? (by rw [hl.head?_eq]; rfl)
    obtain ⟨d, hd, hhome⟩ := (hmem p).1 hin
    exact ((h.lists.list hq).2 p).2 ⟨d, hkept p d hd, hhome⟩
  refine ⟨⟨htok, fun a q' hq' p d hm hp => ?_, fun a q' hq' => ?_⟩, fun i p hi hn => ?_, h.fresh⟩
  · obtain ⟨q, hq, -⟩ := hrecip a q' hq'
    exact h.lists.short a q hq p d (hfirst a q q' p hq hq' hm) (hkept p d hp)
  · obtain ⟨q, hq, hsame⟩ := hrecip a q' hq'
    have hcount : q'.count = q.count := by rw [hsame]
    rw [hcount, h.lists.count a q hq]
    cases hm : q'.pMsg with
    | some p =>
      have hmq := hfirst a q q' p hq hq' hm
      refine (Store.waiting_congr (hm.trans hmq.symm) fun r hr => Store.waits_congr ?_).symm
      obtain rfl : p = r := by simpa [hmq] using hr
      obtain ⟨l, hl, -⟩ := htok.listOf hq'
      rw [hm] at hl
      have hin : p ∈ l := List.mem_of_mem_head? (by rw [hl.head?_eq]; rfl)
      obtain ⟨n, hn⟩ := Option.ne_none_iff_exists'.1 (hl.mem_next hin)
      obtain ⟨d, hd, -⟩ := Store.nextOf_some.1 hn
      rw [hd, hkept p d hd]
    | none =>
      -- the message that was in the list had been completed
      have h0 : v.store.waiting q = 0 := by
        unfold Store.waiting
        cases hmq : q.pMsg with
        | none => rfl
        | some p =>
          obtain ⟨d, hd, hhome⟩ := ((h.lists.list hq).2 p).1 hmq
          have hn : t.heap p = none := by
            cases hd' : t.heap p with
            | none => rfl
            | some d' =>
              obtain ⟨l, hl, hmem, -⟩ := htok.listOf hq'
              rw [hm] at hl
              obtain rfl := Option.some.inj (hd.symm.trans (hkept p d' hd'))
              have hin := (hmem p).2 ⟨d, hd', hhome⟩
              rw [hl.eq_nil] at hin
              cases hin
          have hne := (hgone p d hd hn).1
          simp [Store.waits, hd, hne]
      rw [h0]
      unfold Store.waiting
      rw [hm]
  · obtain ⟨d, hd⟩ := Option.ne_none_iff_exists'.1 (h.ops i p hi)
    exact (hgone p d hd hn).2 i hi

theorem PlainLists.update {status : MqStatus} {set : Bool} (h : PlainLists s)
    (hu : msgUpdateMessageStatus s p status now = some (t, set)) : PlainLists t := by
  obtain ⟨d, -, ⟨-, rfl, -⟩ | ⟨h0, -, q, hw⟩⟩ := msgUpdateMessageStatus_inv hu
  · exact h
  · cases status with
    | succeded => exact h.rewritten hw (.inr ⟨rfl, h0, now.ne_zero⟩)
    | undefined | ready | delivering | failed => exact h.rewritten hw (.inl ⟨rfl, Iff.rfl⟩)

theorem PlainLists.delete (h : PlainLists s) (hd : msgDeleteMessage s p now = some t) :
    PlainLists t := by
  obtain ⟨d, -, ⟨-, rfl⟩ | ⟨h0, q, hw⟩⟩ := msgDeleteMessage_inv hd
  · exact h
  · exact h.rewritten hw (.inr ⟨rfl, h0, now.ne_zero⟩)

theorem PlainLists.ended {tr : DeliverTrans} (h : PlainLists s)
    (he : Ended cfg now s p tr t out) : PlainLists t := by
  cases he with
  | succeeded hu => exact h.update hu
  | respooled hr =>
    obtain ⟨d, q, delay, -, hw⟩ := deliveryRespool_inv hr
    exact h.rewritten hw (.inl ⟨rfl, Iff.rfl⟩)
  | reported _ hd => exact h.delete hd
  | dropped => exact h

/-- The messages in delivery stay in memory. -/
theorem QueueOk.sameOps (h : QueueOk v) (ht : PlainLists t)
    (hstay : ∀ p, v.store.heap p ≠ none → t.heap p ≠ none) : QueueOk { v with store := t } where
  lists := ht
  ops i p hi := hstay p (h.ops i p hi)
  fresh := h.fresh

theorem SameLinks.stays (hs : SameLinks s t) (p : MsgId) (hp : s.heap p ≠ none) :
    t.heap p ≠ none := by
  intro hn
  have := hs.heap p
  rw [hn, Option.map_none, eq_comm, Option.map_eq_none_iff] at this
  exact hp this

/-- An operation is freed. -/
theorem QueueOk.free (h : QueueOk v) (ht : PlainLists t) (hs : SameLinks v.store t) (i : OpId) :
    QueueOk ⟨t, Function.update v.inDelivery i none, v.nextOp⟩ where
  lists := ht
  ops j p hj := by
    replace hj : Function.update v.inDelivery i none j = some p := hj
    rw [Function.update_apply] at hj
    split at hj
    · cases hj
    · exact hs.stays p (h.ops j p hj)
  fresh j hj := by
    show Function.update v.inDelivery i none j = none
    rw [Function.update_apply, h.fresh j hj, ite_self]

theorem QueueOk.add {pMsgId pOriginator : String} (h : QueueOk v)
    (hempty : emptyList v.store a = true)
    (hadd : dqAddMessage v.store pMsgId pOriginator a now = some t) :
    QueueOk { v with store := t } := by
  obtain ⟨q, -, -, hq, -⟩ := dqAddMessage_inv hadd
  obtain ⟨t', ht', hadded⟩ := dqAddMessage_spec h.lists.store hq pMsgId pOriginator now
  obtain rfl := Option.some.inj (hadd.symm.trans ht')
  refine h.sameOps (h.lists.add hempty hadd) fun p hp => ?_
  obtain ⟨d, hd⟩ := Option.ne_none_iff_exists'.1 hp
  obtain ⟨d', hd', -⟩ := hadded.old p d hd
  rw [hd']
  exact Option.some_ne_none _

theorem QueueOk.newRecip {sub : Option DeviceProfile} (h : QueueOk v)
    (hg : dqGetRecipQueue v.store a sub now = some t) : QueueOk { v with store := t } := by
  refine h.sameOps (h.lists.newRecip hg) fun p hp => ?_
  rcases dqGetRecipQueue_inv hg with rfl | ⟨-, q, -, -, -, rfl⟩
  · exact hp
  · exact hp

/-- Other fields of the store are written. -/
theorem QueueOk.others (h : QueueOk v) {n : Nat} {b : Bool} :
    QueueOk { v with store := { v.store with nextAttempt := n, dumpDeliveryQueue := b } } :=
  h.sameOps (h.lists.sameLinks ⟨rfl, rfl, fun _ => rfl, fun _ => rfl⟩ h.lists.count) fun _ hp => hp

/-- A message is taken for an operation, a new one or an old one. -/
theorem QueueOk.take {new : Bool} {i m : OpId} {n : Nat} (h : QueueOk v)
    (hw : Rewritten v.store p d { d with status := .delivering, lastAttempt := n } q
      { q with lastAttempt := n, status := .delivering } t)
    (hnew : if new then i = v.nextOp ∧ m = v.nextOp + 1
      else m = v.nextOp ∧ v.inDelivery i ≠ none) :
    QueueOk ⟨t, Function.update v.inDelivery i (some p), m⟩ := by
  refine ⟨h.lists.rewritten hw (.inl ⟨rfl, Iff.rfl⟩), fun j r hj => ?_, fun j hj => ?_⟩
  · replace hj : Function.update v.inDelivery i (some p) j = some r := hj
    rw [Function.update_apply] at hj
    split at hj
    · obtain rfl := Option.some.inj hj
      show t.heap p ≠ none
      rw [hw.heap_eq, if_pos rfl]
      exact Option.some_ne_none _
    · exact hw.sameLinks.stays r (h.ops j r hj)
  · replace hj : m ≤ j := hj
    show Function.update v.inDelivery i (some p) j = none
    split at hnew
    · rw [Function.update_of_ne (by lia), h.fresh j (by lia)]
    · rw [Function.update_of_ne ?_, h.fresh j (by lia)]
      rintro rfl
      exact hnew.2 (h.fresh _ (by lia))

/-- **Every move keeps the queues well-formed.** -/
theorem QueueOk.move (h : QueueOk v) (hm : Move cfg plainCalls v out w) : QueueOk w := by
  cases hm with
  | newRecip hg => exact h.newRecip hg
  | add hempty hadd => exact h.add hempty hadd
  | deliverNow => exact h.sameOps h.lists.deliverNow msgDeliverNow_sameLinks.stays
  | dumpQueue | wait => exact h.others
  | clean hok hc => exact h.clean hok hc
  | profile _ hq => exact h.sameOps (h.lists.setRecip hq rfl rfl) (SameLinks.setRecip hq rfl).stays
  | take _ _ _ hw hnew => exact h.take hw hnew
  | cancel _ _ _ hd =>
    refine h.free (h.lists.delete hd) ?_ _
    obtain ⟨d, -, ⟨-, rfl⟩ | ⟨-, q, hw⟩⟩ := msgDeleteMessage_inv hd
    · exact .refl _
    · exact hw.sameLinks
  | finish _ _ he => exact h.free (h.lists.ended he) he.sameLinks _
  | send => exact h

/-- So does every call of the store. -/
theorem QueueOk.call {c : StoreCall} {out : List NonDel} (h : QueueOk v)
    (hok : plainCall v c = true) (hc : v.store.call c = some (t, out)) :
    QueueOk { v with store := t } := by
  cases c with
  | dqGetRecipQueue a sub now =>
    obtain ⟨t', hg, hp⟩ := Option.map_eq_some_iff.1 hc
    obtain ⟨rfl, -⟩ := Prod.mk.inj hp
    exact h.newRecip hg
  | dqAddMessage pMsgId pOriginator a now =>
    obtain ⟨t', hadd, hp⟩ := Option.map_eq_some_iff.1 hc
    obtain ⟨rfl, -⟩ := Prod.mk.inj hp
    exact h.add hok hadd
  | msgGetMessage cleaned now =>
    obtain ⟨⟨pMsg, t', out'⟩, hg, hp⟩ := Option.map_eq_some_iff.1 hc
    obtain ⟨rfl, rfl⟩ := Prod.mk.inj hp
    obtain ⟨u, hcl, hget⟩ := msgGetMessage_inv h.lists.store.homed hg
    have hu := h.clean hok hcl
    rcases hget with ⟨-, n, rfl⟩ | ⟨p, d, q, s, -, -, -, hw, rfl⟩
    · exact hu.others
    · exact (hu.sameOps (hu.lists.rewritten hw (.inl ⟨rfl, Iff.rfl⟩)) hw.sameLinks.stays).others
  | msgUpdateMessageStatus p status now =>
    obtain ⟨⟨t', set⟩, hu, hp⟩ := Option.map_eq_some_iff.1 hc
    obtain ⟨rfl, -⟩ := Prod.mk.inj hp
    refine h.sameOps (h.lists.update hu) ?_
    obtain ⟨d, -, ⟨-, rfl, -⟩ | ⟨-, -, q, hw⟩⟩ := msgUpdateMessageStatus_inv hu
    · exact fun _ hp => hp
    · exact hw.sameLinks.stays
  | msgDeleteMessage p now =>
    obtain ⟨t', hd, hp⟩ := Option.map_eq_some_iff.1 hc
    obtain ⟨rfl, -⟩ := Prod.mk.inj hp
    refine h.sameOps (h.lists.delete hd) ?_
    obtain ⟨d, -, ⟨-, rfl⟩ | ⟨-, q, hw⟩⟩ := msgDeleteMessage_inv hd
    · exact fun _ hp => hp
    · exact hw.sameLinks.stays
  | msgCleanQueue now => exact h.clean hok hc

theorem queueOk {e : Server} {h : List Out} (hr : Run.Reach (calls cfg) plain h e) :
    QueueOk e.view := by
  refine Run.Reach.invariant (S := calls cfg) (P := fun e => QueueOk e.view) (fun e he => ?_)
    (fun e i e' o hv hok hs => ?_) hr
  · obtain rfl : e = {} := he
    exact ⟨.empty, fun _ _ hi => (by cases hi), fun _ _ => rfl⟩
  · cases i with
    | inl i =>
      have hm : Moves cfg plainCalls e.view o e'.view := step_moves hv.lists.store.homed hok hs
      exact hm.invariant (P := fun _ w => QueueOk w) hv fun _ _ _ _ hq hmove => hq.move hmove
    | inr c =>
      obtain ⟨⟨t, out⟩, hc, hp⟩ := Option.map_eq_some_iff.1 hs
      obtain ⟨rfl, -⟩ := Prod.mk.inj hp
      exact hv.call hok hc

/-- The messages of a recipient are a doubly linked list, which holds what is in memory of them; the
count is the number of those that have not been completed. -/
def WellFormed (s : Store) (a : EmsdAddr) (q : RecipQueue) : Prop :=
  ∃ l, Chain s.nextOf q.pMsg l ∧ Back s.prevOf none l ∧ (∀ p, p ∈ l ↔ s.Has a p) ∧
    q.count = (l.filter s.waits).length

/-- **The structure of the queues**, in every run where a message is added to an empty list only, and
no cleaning finds a message that goes before it has been completed, or one that is in delivery. -/
theorem queue_structure (cfg : Config) (h : List Out) (e : Server)
    (hr : Run.Reach (calls cfg) plain h e) :
    (∀ a q, e.store.recip a = some q → WellFormed e.store a q) ∧
    (∀ i op, e.ops i = some op → e.store.heap op.pControlData ≠ none) ∧
    ∀ now : Time, ∃ t out, msgCleanQueue e.store now = some (t, out) ∧
      (e.store.cleans now = true → ∀ a, t.msgs a =
        (e.store.msgs a).filter fun p => !e.store.goes now p) ∧
      ∀ p d, e.store.heap p = some d →
        t.heap p = if e.store.cleans now && d.goes now then none else some d := by
  have hops := (queueOk hr).ops
  have hv : PlainLists e.store := (queueOk hr).lists
  refine ⟨fun a q hq => ?_, fun i op hop => ?_, fun now => ?_⟩
  · obtain ⟨hl, hmem⟩ := hv.list hq
    refine ⟨_, hl, ?_, fun p => by rw [← hmem p, Option.mem_toList], ?_⟩
    · cases hm : q.pMsg with
      | none => trivial
      | some p =>
        obtain ⟨d, hd, -⟩ := (hmem p).1 hm
        exact ⟨by simp [Store.prevOf, hd, hv.store.prev p d hd], trivial⟩
    · rw [hv.count a q hq]
      unfold Store.waiting
      cases q.pMsg with
      | none => rfl
      | some p =>
        show (if e.store.waits p then 1 else 0) = ([p].filter e.store.waits).length
        cases hw : e.store.waits p <;> simp [hw]
  · exact hops i _ (by simp [Server.view, hop])
  · obtain ⟨t, out, ht, -, hc⟩ := msgCleanQueue_spec hv.store (hv.cleanSafe now)
    refine ⟨t, out, ht, fun hcl a => ?_, fun p d hd => ?_⟩
    · rw [hc.msgs a, if_pos hcl]
      split
      · rfl
      · rename_i hnot
        -- a recipient that is not known has no messages
        have hnone : e.store.recip a = none := by
          by_contra hne
          exact hnot ((hv.store.known a).2 hne)
        simp [Store.msgs, hnone]
    · rw [hc.heap p d hd]
      have hknown := (hv.store.known d.pRecipQueue).2 (hv.store.home p d hd)
      cases hcl : e.store.cleans now <;> simp [hknown]

/-- Two messages for recipient 7. -/
def twoMessages : List (Input ⊕ StoreCall) :=
  [.inr (.dqGetRecipQueue 7 (some ⟨[], 1, 1, true⟩) 3000),
    .inr (.dqAddMessage "a" "sender" 7 3000),
    .inr (.dqAddMessage "b" "sender" 7 3000)]

theorem queue_structure_one : ∃ h e, Run.Reach (calls {}) plain h e ∧
    (∃ q, e.store.recip 7 = some q ∧ q.count = 1) ∧
    ∀ a q, e.store.recip a = some q → WellFormed e.store a q := by
  have hb : ∀ e i, plainStep e i = true → plain e i := fun _ _ hb => hb
  obtain ⟨e, h, hr, hp⟩ := Run.Reach.of_run (S := calls {}) (s := {}) hb rfl (twoMessages.take 2)
    (fun e _ => (e.store.recip 7).any (·.count = 1)) (by decide +kernel)
  obtain ⟨q, hq, hcount⟩ := (Option.any_eq_true _ _).1 hp
  exact ⟨h, e, hr, ⟨q, hq, of_decide_eq_true hcount⟩, (queue_structure {} h e hr).1⟩

/-- The second message of a list does not know the first one. -/
theorem queue_broken : ∃ h e, Run.Reach (calls {}) Run.any h e ∧
    ∃ q, e.store.recip 7 = some q ∧ ¬ WellFormed e.store 7 q := by
  obtain ⟨e, h, hr, hp⟩ := Run.Reach.of_run_any (S := calls {}) (s := {}) rfl twoMessages
    (fun e _ => decide ((e.store.recip 7).map (·.pMsg) = some (some 0) ∧
      e.store.nextOf 0 = some (some 1) ∧ e.store.prevOf 1 = some none)) (by decide +kernel)
  obtain ⟨hfirst, hnext, hprev⟩ := of_decide_eq_true hp
  obtain ⟨q, hq, hm⟩ := Option.map_eq_some_iff.1 hfirst
  refine ⟨h, e, hr, q, hq, ?_⟩
  rintro ⟨l, hl, hback, -⟩
  rw [hm] at hl
  cases l with
  | nil => cases hl
  | cons r l =>
    obtain ⟨hr, n, hn, hl⟩ := hl
    obtain rfl := Option.some.inj hr
    obtain rfl : n = some 1 := by simpa [hnext] using hn.symm
    cases l with
    | nil => cases hl
    | cons r l =>
      obtain rfl := Option.some.inj hl.1
      have h1 := hback.2.1
      rw [hprev] at h1
      cases h1

end Mts
