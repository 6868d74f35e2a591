import Emsd.Mts.Moves

/-!
# The messages in delivery

`OpsOk`: what holds of the live Deliver operations and their messages in every run of the server,
whatever the order of the calls and however they turn out. A message in delivery keeps its queue
from being served, so no two operations deliver to one recipient.

* `OpsOk.take`, `OpsOk.finish`: a message is taken, and its delivery ends.
* `OpsOk.move`, `opsOk`: **every move keeps the invariant**, so it holds in every run.
-/

namespace Mts

variable {s t : Store} {f : OpId → Option MsgId} {n : OpId} {p : MsgId} {d d' : ControlData}
  {q q' : RecipQueue} {i : OpId} {now : Time}

/-- The queue of a recipient is in `RQ_DELIVERING`. -/
def Store.Busy (s : Store) (a : EmsdAddr) : Prop := ∃ q, s.recip a = some q ∧ q.status = .delivering

/-- `f` are the messages in delivery, and `n` is the next operation. -/
structure OpsOk (s : Store) (f : OpId → Option MsgId) (n : OpId) : Prop where
  homed : Homed s
  fresh : ∀ i, n ≤ i → f i = none
  known : ∀ i p, f i = some p → p < s.nextId
  live : ∀ i p d, f i = some p → s.heap p = some d →
    d.status = .delivering ∧ d.completed = 0 ∧ s.Busy d.pRecipQueue
  /-- One delivery at a time for each recipient. -/
  sep : ∀ i j p r d d', f i = some p → f j = some r → s.heap p = some d → s.heap r = some d' →
    d.pRecipQueue = d'.pRecipQueue → i = j
  /-- The queue of a message that has failed for good stays as it was in the delivery. -/
  done : ∀ p d, s.heap p = some d → d.completed ≠ 0 → d.status = .succeded ∨
    d.status = .failed ∧ s.Busy d.pRecipQueue ∧
      ∀ i r d', f i = some r → s.heap r = some d' → d'.pRecipQueue ≠ d.pRecipQueue

theorem OpsOk.empty : OpsOk {} (fun _ => none) 0 where
  homed := .empty
  fresh _ _ := rfl
  known _ _ h := by cases h
  live _ _ _ h := by cases h
  sep _ _ _ _ _ _ h := by cases h
  done _ _ h := by cases h

/-- The status of the messages and queues stays as it is; a new message is not in delivery yet. -/
structure SameStatus (s t : Store) : Prop where
  homed : Homed t
  nextId : s.nextId ≤ t.nextId
  heap : ∀ p d', t.heap p = some d' → s.nextId ≤ p ∧ d'.completed = 0 ∨
    ∃ d, s.heap p = some d ∧ d'.status = d.status ∧ d'.completed = d.completed ∧
      d'.pRecipQueue = d.pRecipQueue
  busy : ∀ a, s.Busy a → t.Busy a

theorem OpsOk.sameStatus (h : OpsOk s f n) (ht : SameStatus s t) : OpsOk t f n := by
  have hold : ∀ i p d', f i = some p → t.heap p = some d' →
      ∃ d, s.heap p = some d ∧ d'.status = d.status ∧ d'.completed = d.completed ∧
        d'.pRecipQueue = d.pRecipQueue := by
    intro i p d' hi hp
    refine (ht.heap p d' hp).resolve_left fun hnew => ?_
    have := h.known i p hi
    lia
  refine ⟨ht.homed, h.fresh, fun i p hi => Nat.lt_of_lt_of_le (h.known i p hi) ht.nextId,
    fun i p d' hi hp => ?_, fun i j p r d' e' hi hj hp hr heq => ?_, fun p d' hp hc => ?_⟩
  · obtain ⟨d, hd, hst, hco, hre⟩ := hold i p d' hi hp
    obtain ⟨h₁, h₂, h₃⟩ := h.live i p d hi hd
    exact ⟨hst.trans h₁, hco.trans h₂, by rw [hre]; exact ht.busy _ h₃⟩
  · obtain ⟨d, hd, -, -, hre⟩ := hold i p d' hi hp
    obtain ⟨e, he, -, -, hre'⟩ := hold j r e' hj hr
    exact h.sep i j p r d e hi hj hd he (by rw [← hre, ← hre', heq])
  · rcases ht.heap p d' hp with ⟨-, h0⟩ | ⟨d, hd, hst, hco, hre⟩
    · exact absurd h0 hc
    · rcases h.done p d hd (by rw [← hco]; exact hc) with hs | ⟨hf, hb, hno⟩
      · exact .inl (hst.trans hs)
      · refine .inr ⟨hst.trans hf, by rw [hre]; exact ht.busy _ hb, fun i r e' hi hr => ?_⟩
        obtain ⟨e, he, -, -, hre'⟩ := hold i r e' hi hr
        rw [hre, hre']
        exact hno i r e hi he

theorem SameStatus.swept {out : List NonDel} {now : Nat} (ht : Swept now s t out) :
    SameStatus s t where
  homed := ht.homed
  nextId := Nat.le_of_eq ht.nextId.symm
  heap p d' hp := by
    obtain ⟨d, hd, hs⟩ := ht.kept p d' hp
    obtain ⟨h₁, h₂, h₃, -⟩ := hs.fields
    exact .inr ⟨d, hd, h₂, h₃, h₁⟩
  busy a ha := by
    obtain ⟨q, hq, hst⟩ := ha
    obtain ⟨m, hm⟩ := ht.recip.symm.of_some hq
    exact ⟨_, hm, hst⟩

theorem SameStatus.grown {a : EmsdAddr} (ht : Grown s a t) : SameStatus s t where
  homed := ht.homed
  nextId := by
    rw [ht.nextId]
    exact Nat.le_succ _
  heap p d' hp := by
    by_cases hnew : p = s.nextId
    · subst hnew
      obtain ⟨d, hd, -, hc, -⟩ := ht.new
      obtain rfl : d = d' := by simpa [hd] using hp
      exact .inl ⟨Nat.le_refl _, hc⟩
    · obtain ⟨d, hd, hs⟩ := ht.kept p d' hnew hp
      obtain ⟨h₁, h₂, h₃, -⟩ := hs.fields
      exact .inr ⟨d, hd, h₂, h₃, h₁⟩
  busy b hb := by
    obtain ⟨q, hq, hst⟩ := hb
    by_cases hba : b = a
    · subst hba
      obtain ⟨q₀, q', hq₀, hq', hstatus⟩ := ht.queue
      obtain rfl : q = q₀ := by simpa [hq] using hq₀
      refine ⟨q', hq', ?_⟩
      rw [hstatus, hst]
      rfl
    · exact ⟨q, by rw [ht.others b hba, hq], hst⟩

theorem SameStatus.newRecip {a : EmsdAddr} {sub : Option DeviceProfile} (h : Homed s)
    (hg : dqGetRecipQueue s a sub now = some t) : SameStatus s t := by
  rcases dqGetRecipQueue_inv hg with rfl | ⟨hnone, q, -, hm, -, rfl⟩
  · exact ⟨h, Nat.le_refl _, fun p d hp => .inr ⟨d, hp, rfl, rfl, rfl⟩, fun _ hb => hb⟩
  · refine ⟨h.newRecip hm, Nat.le_refl _, fun p d hp => .inr ⟨d, hp, rfl, rfl, rfl⟩, fun b hb => ?_⟩
    obtain ⟨q', hq', hst⟩ := hb
    refine ⟨q', ?_, hst⟩
    show (s.setRecip a q).recip b = some q'
    rw [Store.setRecip_recip, if_neg ?_, hq']
    rintro rfl
    rw [hnone] at hq'
    cases hq'

/-- A queue is written, but neither its status nor its messages. -/
theorem SameStatus.setRecip {a : EmsdAddr} (h : Homed s) (hq : s.recip a = some q)
    (hst : q'.status = q.status) (hm : q'.pMsg = q.pMsg) : SameStatus s (s.setRecip a q') := by
  refine ⟨h.sameLinks (SameLinks.setRecip hq hm), Nat.le_refl _,
    fun p d hp => .inr ⟨d, hp, rfl, rfl, rfl⟩, fun b hb => ?_⟩
  obtain ⟨qb, hqb, hstb⟩ := hb
  by_cases hba : b = a
  · subst hba
    obtain rfl : q = qb := by simpa [hq] using hqb
    exact ⟨q', by simp, hst.trans hstb⟩
  · exact ⟨qb, by simp [hba, hqb], hstb⟩

theorem SameStatus.profile {a : EmsdAddr} {deviceProfile : DeviceProfile} (h : Homed s)
    (hq : s.recip a = some q) : SameStatus s (s.setRecip a { q with deviceProfile }) :=
  .setRecip h hq rfl rfl

theorem SameStatus.deliverNow {nsap : Ocp.NSapAddr} (h : Homed s) :
    SameStatus s (msgDeliverNow s nsap now) := by
  refine ⟨h.sameLinks msgDeliverNow_sameLinks, Nat.le_refl _,
    fun p d hp => .inr ⟨d, hp, rfl, rfl, rfl⟩, fun b hb => ?_⟩
  obtain ⟨q, hq, hst⟩ := hb
  unfold Store.Busy msgDeliverNow
  simp only [hq, Option.map_some]
  split
  · exact ⟨_, rfl, hst⟩
  · exact ⟨q, rfl, hst⟩

/-- An operation is freed. -/
theorem OpsOk.free (h : OpsOk s f n) (i : OpId) : OpsOk s (Function.update f i none) n := by
  have hsub : ∀ j p, Function.update f i none j = some p → f j = some p := by
    intro j p hj
    rw [Function.update_apply] at hj
    split at hj
    · cases hj
    · exact hj
  refine ⟨h.homed, fun j hj => ?_, fun j p hj => h.known j p (hsub j p hj),
    fun j p d hj => h.live j p d (hsub j p hj),
    fun j k p r d d' hj hk => h.sep j k p r d d' (hsub j p hj) (hsub k r hk), fun p d hp hc => ?_⟩
  · rw [Function.update_apply, h.fresh j hj, ite_self]
  · refine (h.done p d hp hc).imp_right fun ⟨hf, hb, hno⟩ => ⟨hf, hb, fun j r d' hj => ?_⟩
    exact hno j r d' (hsub j r hj)

/-- **A message is taken** out of a queue that is ready, for the operation `i`. -/
theorem OpsOk.take {m : OpId} (h : OpsOk s f n) (hw : Rewritten s p d d' q q' t)
    (hready : q.status = .ready) (hwait : d.status = .ready ∨ d.status = .failed)
    (hd : d'.status = .delivering ∧ d'.completed = d.completed) (hq : q'.status = .delivering)
    (hm : n ≤ m) (hi : i < m) : OpsOk t (Function.update f i (some p)) m := by
  have hnot : ¬ s.Busy d.pRecipQueue := by
    rintro ⟨q₀, hq₀, hst⟩
    obtain rfl : q = q₀ := by simpa [hw.recip] using hq₀
    rw [hready] at hst
    cases hst
  have hc : d.completed = 0 := by
    by_contra hc
    rcases h.done p d hw.heap hc with hs | ⟨-, hb, -⟩
    · rcases hwait with hr | hr <;> rw [hr] at hs <;> cases hs
    · exact hnot hb
  -- no operation delivers to this recipient
  have hother : ∀ j r e, f j = some r → s.heap r = some e → e.pRecipQueue ≠ d.pRecipQueue := by
    intro j r e hj hr heq
    exact hnot (by rw [← heq]; exact (h.live j r e hj hr).2.2)
  have hheap : ∀ r e, t.heap r = some e → r = p ∧ e = d' ∨ r ≠ p ∧ s.heap r = some e := by
    intro r e hr
    rw [hw.heap_eq] at hr
    split at hr
    · rename_i hrp
      exact .inl ⟨hrp, (Option.some.inj hr).symm⟩
    · rename_i hrp
      exact .inr ⟨hrp, hr⟩
  have hbusy : ∀ b, s.Busy b → t.Busy b := by
    rintro b ⟨q₀, hq₀, hst⟩
    by_cases hb : b = d.pRecipQueue
    · exact ⟨q', by rw [hw.recip_eq, if_pos hb], hq⟩
    · exact ⟨q₀, by rw [hw.recip_eq, if_neg hb, hq₀], hst⟩
  have hbusy' : t.Busy d'.pRecipQueue := ⟨q', by rw [hw.recip_eq, if_pos hw.home], hq⟩
  have hnext : t.nextId = s.nextId := hw.sameLinks.nextId
  -- an operation delivers `p`, or the message that it has delivered before
  have hops : ∀ j r e, Function.update f i (some p) j = some r → t.heap r = some e →
      j = i ∧ e = d' ∨ j ≠ i ∧ f j = some r ∧ s.heap r = some e ∧ e.pRecipQueue ≠ d.pRecipQueue := by
    intro j r e hj hr
    rw [Function.update_apply] at hj
    split at hj
    · rename_i hji
      obtain rfl := Option.some.inj hj
      rcases hheap p e hr with ⟨-, he⟩ | ⟨hne, -⟩
      · exact .inl ⟨hji, he⟩
      · exact absurd rfl hne
    · rename_i hji
      rcases hheap r e hr with ⟨rfl, -⟩ | ⟨-, he⟩
      · exact absurd rfl (hother j r d hj hw.heap)
      · exact .inr ⟨hji, hj, he, hother j r e hj he⟩
  refine ⟨h.homed.sameLinks hw.sameLinks, fun j hj => ?_, fun j r hj => ?_, fun j r e hj hr => ?_,
    fun j k r x e e' hj hk hr hx heq => ?_, fun r e hr hce => ?_⟩
  · rw [Function.update_of_ne (by lia), h.fresh j (by lia)]
  · rw [hnext]
    rw [Function.update_apply] at hj
    split at hj
    · obtain rfl := Option.some.inj hj
      exact h.homed.lt hw.heap
    · exact h.known j r hj
  · rcases hops j r e hj hr with ⟨-, rfl⟩ | ⟨-, hj, he, -⟩
    · exact ⟨hd.1, hd.2.trans hc, hbusy'⟩
    · obtain ⟨h₁, h₂, h₃⟩ := h.live j r e hj he
      exact ⟨h₁, h₂, hbusy _ h₃⟩
  · rcases hops j r e hj hr with ⟨rfl, rfl⟩ | ⟨hji, hj, he, hne⟩
    · rcases hops k x e' hk hx with ⟨rfl, -⟩ | ⟨-, -, -, hne⟩
      · rfl
      · exact absurd (heq.symm.trans hw.home) hne
    · rcases hops k x e' hk hx with ⟨-, rfl⟩ | ⟨hki, hk, he', -⟩
      · exact absurd (heq.trans hw.home) hne
      · exact h.sep j k r x e e' hj hk he he' heq
  · rcases hheap r e hr with ⟨-, rfl⟩ | ⟨-, he⟩
    · exact absurd (hd.2.trans hc) hce
    · refine (h.done r e he hce).imp_right fun ⟨hf, hb, hno⟩ => ⟨hf, hbusy _ hb, ?_⟩
      intro j x e' hj hx
      rcases hops j x e' hj hx with ⟨-, rfl⟩ | ⟨-, hj, he', -⟩
      · rw [hw.home]
        intro heq
        exact hnot (by rw [heq]; exact hb)
      · exact hno j x e' hj he'

/-- **A delivery ends**: its message and its queue get their new status. -/
theorem OpsOk.finish (h : OpsOk s f n) (hi : f i = some p) (hw : Rewritten s p d d' q q' t)
    (hd : d'.completed ≠ 0 → d'.status = .succeded ∨ d'.status = .failed ∧ q'.status = .delivering) :
    OpsOk t (Function.update f i none) n := by
  -- no other operation delivers to this recipient
  have hother : ∀ j r e, f j = some r → j ≠ i → s.heap r = some e →
      e.pRecipQueue ≠ d.pRecipQueue := by
    intro j r e hj hne hr heq
    exact hne (h.sep j i r p e d hj hi hr hw.heap heq)
  have hbusy : ∀ b, b ≠ d.pRecipQueue → s.Busy b → t.Busy b := by
    rintro b hb ⟨q₀, hq₀, hst⟩
    exact ⟨q₀, by rw [hw.recip_eq, if_neg hb, hq₀], hst⟩
  have hops : ∀ j r, Function.update f i none j = some r → j ≠ i ∧ f j = some r := by
    intro j r hj
    rw [Function.update_apply] at hj
    split at hj
    · cases hj
    · rename_i hji
      exact ⟨hji, hj⟩
  have hlive : ∀ j r e, Function.update f i none j = some r → t.heap r = some e →
      f j = some r ∧ s.heap r = some e ∧ e.pRecipQueue ≠ d.pRecipQueue := by
    intro j r e hj hr
    obtain ⟨hji, hj⟩ := hops j r hj
    have hrp : r ≠ p := by
      rintro rfl
      exact hother j r d hj hji hw.heap rfl
    rw [hw.heap_eq, if_neg hrp] at hr
    exact ⟨hj, hr, hother j r e hj hji hr⟩
  refine ⟨h.homed.sameLinks hw.sameLinks, fun j hj => ?_, fun j r hj => ?_, fun j r e hj hr => ?_,
    fun j k r x e e' hj hk hr hx heq => ?_, fun r e hr hce => ?_⟩
  · rw [Function.update_apply, h.fresh j hj, ite_self]
  · rw [hw.sameLinks.nextId]
    exact h.known j r (hops j r hj).2
  · obtain ⟨hj, he, hne⟩ := hlive j r e hj hr
    obtain ⟨h₁, h₂, h₃⟩ := h.live j r e hj he
    exact ⟨h₁, h₂, hbusy _ hne h₃⟩
  · obtain ⟨hj, he, -⟩ := hlive j r e hj hr
    obtain ⟨hk, he', -⟩ := hlive k x e' hk hx
    exact h.sep j k r x e e' hj hk he he' heq
  · rw [hw.heap_eq] at hr
    split at hr
    · obtain rfl := Option.some.inj hr
      refine (hd hce).imp_right fun ⟨hf, hqd⟩ => ⟨hf, ⟨q', ?_, hqd⟩, fun j x e' hj hx => ?_⟩
      · rw [hw.recip_eq, if_pos hw.home]
      · rw [hw.home]
        exact (hlive j x e' hj hx).2.2
    · refine (h.done r e hr hce).imp_right fun ⟨hf, hb, hno⟩ => ?_
      have hne : e.pRecipQueue ≠ d.pRecipQueue := fun heq => hno i p d hi hw.heap heq.symm
      refine ⟨hf, hbusy _ hne hb, fun j x e' hj hx => ?_⟩
      obtain ⟨hj, he', -⟩ := hlive j x e' hj hx
      exact hno j x e' hj he'

theorem OpsOk.delete (h : OpsOk s f n) (hi : f i = some p) (hd : msgDeleteMessage s p now = some t) :
    OpsOk t (Function.update f i none) n := by
  obtain ⟨d, hp, ⟨-, rfl⟩ | ⟨-, q, hw⟩⟩ := msgDeleteMessage_inv hd
  · exact h.free i
  · obtain ⟨-, -, q', hq', hst⟩ := h.live i p d hi hp
    obtain rfl : q = q' := by simpa [hw.recip] using hq'
    exact h.finish hi hw fun _ => .inr ⟨rfl, hst⟩

theorem OpsOk.ended {cfg : Config} {tr : DeliverTrans} {out : List Out} (h : OpsOk s f n)
    (hi : f i = some p) (he : Server.Ended cfg now s p tr t out) :
    OpsOk t (Function.update f i none) n := by
  cases he with
  | succeeded hu =>
    obtain ⟨d, -, ⟨-, rfl, -⟩ | ⟨-, -, q, hw⟩⟩ := msgUpdateMessageStatus_inv hu
    · exact h.free i
    · exact h.finish hi hw fun _ => .inl rfl
  | respooled hr =>
    obtain ⟨d, q, delay, -, hw⟩ := deliveryRespool_inv hr
    exact h.finish hi hw fun hc => absurd (h.live i p d hi hw.heap).2.1 hc
  | reported _ hd => exact h.delete hi hd
  | dropped => exact h.free i

/-- **Every move keeps the invariant.** -/
theorem OpsOk.move {cfg : Config} {A : Allow} {v w : View} {out : List Out}
    (h : OpsOk v.store v.inDelivery v.nextOp) (hm : Move cfg A v out w) :
    OpsOk w.store w.inDelivery w.nextOp := by
  cases hm with
  | newRecip hg => exact h.sameStatus (.newRecip h.homed hg)
  | add _ hadd => exact h.sameStatus (.grown (dqAddMessage_grown h.homed hadd))
  | deliverNow => exact h.sameStatus (.deliverNow h.homed)
  | dumpQueue | wait =>
    exact h.sameStatus ⟨h.homed.sameLinks ⟨rfl, rfl, fun _ => rfl, fun _ => rfl⟩, Nat.le_refl _,
      fun p d hp => .inr ⟨d, hp, rfl, rfl, rfl⟩, fun _ hb => hb⟩
  | clean _ hc => exact h.sameStatus (.swept (msgCleanQueue_swept h.homed hc).1)
  | profile _ hq => exact h.sameStatus (.profile h.homed hq)
  | take _ hwait hready hw hnew =>
    refine h.take hw hready hwait ⟨rfl, rfl⟩ rfl ?_ ?_
    · split at hnew <;> lia
    · split at hnew
      · lia
      · obtain ⟨rfl, hi⟩ := hnew
        by_contra hle
        exact hi (h.fresh _ (by lia))
  | cancel _ _ hi hd => exact h.delete hi hd
  | finish _ hi he => exact h.ended hi he
  | send => exact h

theorem opsOk {cfg : Config} {e : Server} {h : List Out}
    (hr : Run.Reach (server cfg) Run.any h e) :
    OpsOk e.view.store e.view.inDelivery e.view.nextOp := by
  refine Run.Reach.invariant (S := server cfg)
    (P := fun e => OpsOk e.view.store e.view.inDelivery e.view.nextOp) (fun e he => ?_)
    (fun e i e' o hv _ hs => ?_) hr
  · obtain rfl : e = {} := he
    exact .empty
  · have hm : Moves cfg {} e.view o e'.view := step_moves hv.homed Allow.step_any hs
    exact hm.invariant (P := fun _ w => OpsOk w.store w.inDelivery w.nextOp) hv
      fun _ _ _ _ hq hmove => hq.move hmove

end Mts
