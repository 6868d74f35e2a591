import Emsd.Mts.MessageStore
import Emsd.Lib.Chain

/-!
# The message lists of the store

`StoreOk`: the `next` links of a recipient's messages form a list, which holds exactly the messages
of the recipient that are in memory.

* `StoreOk.sameLinks`: an operation that writes no links keeps it.
* `StoreOk.dqAddMessage`: so does a new message.
-/

namespace Mts

open Lib

variable {s t : Store} {a : EmsdAddr} {q : RecipQueue} {p : MsgId} {d : ControlData} {now : Time}
  {l : List MsgId}

/-- The link of a message. -/
def Store.nextOf (s : Store) (p : MsgId) : Option (Option MsgId) := (s.heap p).map (·.next)

@[simp] theorem Store.setMsg_heap {p r : MsgId} :
    (s.setMsg p d).heap r = if r = p then some d else s.heap r := by
  simp [Store.setMsg, Function.update_apply]

@[simp] theorem Store.setMsg_recip : (s.setMsg p d).recip = s.recip := rfl

@[simp] theorem Store.setMsg_recips : (s.setMsg p d).recips = s.recips := rfl

@[simp] theorem Store.setMsg_nextId : (s.setMsg p d).nextId = s.nextId := rfl

@[simp] theorem Store.setRecip_recip {a b : EmsdAddr} :
    (s.setRecip a q).recip b = if b = a then some q else s.recip b := by
  simp [Store.setRecip, Function.update_apply]

@[simp] theorem Store.setRecip_heap : (s.setRecip a q).heap = s.heap := rfl

@[simp] theorem Store.setRecip_recips : (s.setRecip a q).recips = s.recips := rfl

@[simp] theorem Store.setRecip_nextId : (s.setRecip a q).nextId = s.nextId := rfl

@[simp] theorem Store.free_heap {p r : MsgId} :
    (s.free p).heap r = if r = p then none else s.heap r := by
  simp [Store.free, Function.update_apply]

@[simp] theorem Store.free_recip : (s.free p).recip = s.recip := rfl

@[simp] theorem Store.free_recips : (s.free p).recips = s.recips := rfl

@[simp] theorem Store.free_nextId : (s.free p).nextId = s.nextId := rfl

theorem Store.nextOf_some {n : Option MsgId} :
    s.nextOf p = some n ↔ ∃ d, s.heap p = some d ∧ d.next = n := by
  simp [Store.nextOf]

/-- The message is in memory and belongs to the recipient. -/
def Store.Has (s : Store) (a : EmsdAddr) (p : MsgId) : Prop :=
  ∃ d, s.heap p = some d ∧ d.pRecipQueue = a

/-- The list of a recipient. -/
def Store.Lists (s : Store) (a : EmsdAddr) (l : List MsgId) : Prop :=
  ∃ q, s.recip a = some q ∧ Chain s.nextOf q.pMsg l

/-- The recipients and the lists of a store. -/
structure StoreOk (s : Store) : Prop where
  known : ∀ a, a ∈ s.recips ↔ s.recip a ≠ none
  recipsNodup : s.recips.Nodup
  fresh : ∀ p, s.nextId ≤ p → s.heap p = none
  /-- `DQ_addMessage` never sets `prev`. -/
  prev : ∀ p d, s.heap p = some d → d.prev = none
  home : ∀ p d, s.heap p = some d → s.recip d.pRecipQueue ≠ none
  list : ∀ a, s.recip a ≠ none → ∃ l, s.Lists a l ∧ ∀ p, p ∈ l ↔ s.Has a p

theorem StoreOk.empty : StoreOk {} where
  known a := by simp
  recipsNodup := List.nodup_nil
  fresh _ _ := rfl
  prev _ _ h := by cases h
  home _ _ h := by cases h
  list _ h := absurd rfl h

theorem StoreOk.lt (h : StoreOk s) (hp : s.heap p = some d) : p < s.nextId := by
  by_contra hle
  rw [h.fresh p (Nat.not_lt.1 hle)] at hp
  cases hp

/-- The list of a recipient that has one. -/
theorem StoreOk.listOf (h : StoreOk s) (hq : s.recip a = some q) :
    ∃ l, Chain s.nextOf q.pMsg l ∧ (∀ p, p ∈ l ↔ s.Has a p) ∧ l.Nodup ∧ l.length ≤ s.nextId := by
  obtain ⟨l, ⟨q', hq', hl⟩, hmem⟩ := h.list a (by rw [hq]; exact Option.some_ne_none _)
  obtain rfl : q = q' := by simpa [hq] using hq'
  refine ⟨l, hl, hmem, hl.nodup, length_le_of_nodup hl.nodup fun p hp => ?_⟩
  obtain ⟨d, hd, -⟩ := (hmem p).1 hp
  exact h.lt hd

/-! ## Operations that write no links -/

/-- The links of a message. -/
def ControlData.links (d : ControlData) : Option MsgId × Option MsgId × EmsdAddr :=
  (d.next, d.prev, d.pRecipQueue)

/-- The same recipients, messages and links. -/
structure SameLinks (s t : Store) : Prop where
  recips : t.recips = s.recips
  nextId : t.nextId = s.nextId
  heap : ∀ p, (t.heap p).map ControlData.links = (s.heap p).map ControlData.links
  recip : ∀ a, (t.recip a).map RecipQueue.pMsg = (s.recip a).map RecipQueue.pMsg

theorem SameLinks.refl (s : Store) : SameLinks s s := ⟨rfl, rfl, fun _ => rfl, fun _ => rfl⟩

theorem SameLinks.trans {u : Store} (h₁ : SameLinks s t) (h₂ : SameLinks t u) : SameLinks s u where
  recips := h₂.recips.trans h₁.recips
  nextId := h₂.nextId.trans h₁.nextId
  heap p := (h₂.heap p).trans (h₁.heap p)
  recip a := (h₂.recip a).trans (h₁.recip a)

theorem SameLinks.setMsg {d' : ControlData} (hp : s.heap p = some d) (hd : d'.links = d.links) :
    SameLinks s (s.setMsg p d') := by
  refine ⟨rfl, rfl, fun r => ?_, fun _ => rfl⟩
  rw [Store.setMsg_heap]
  split
  · rename_i hr
    rw [hr, hp, Option.map_some, Option.map_some, hd]
  · rfl

theorem SameLinks.setRecip {q' : RecipQueue} (hq : s.recip a = some q) (hm : q'.pMsg = q.pMsg) :
    SameLinks s (s.setRecip a q') := by
  refine ⟨rfl, rfl, fun _ => rfl, fun b => ?_⟩
  rw [Store.setRecip_recip]
  split
  · rename_i hb
    rw [hb, hq, Option.map_some, Option.map_some, hm]
  · rfl

theorem SameLinks.some (h : SameLinks s t) (hp : t.heap p = some d) :
    ∃ d', s.heap p = some d' ∧ d'.links = d.links := by
  have := h.heap p
  rw [hp, Option.map_some, eq_comm, Option.map_eq_some_iff] at this
  exact this

theorem SameLinks.symm (h : SameLinks s t) : SameLinks t s where
  recips := h.recips.symm
  nextId := h.nextId.symm
  heap p := (h.heap p).symm
  recip a := (h.recip a).symm

theorem SameLinks.has (h : SameLinks s t) (hp : s.Has a p) : t.Has a p := by
  obtain ⟨d, hd, rfl⟩ := hp
  obtain ⟨d', hd', hl⟩ := h.symm.some hd
  exact ⟨d', hd', congrArg (·.2.2) hl⟩

theorem SameLinks.nextOf (h : SameLinks s t) : t.nextOf = s.nextOf := by
  funext p
  have hheap : ∀ o : Option ControlData, o.map (·.next) = (o.map ControlData.links).map (·.1) := by
    intro o
    cases o <;> rfl
  unfold Store.nextOf
  rw [hheap, hheap, h.heap p]

theorem SameLinks.recip_ne (h : SameLinks s t) : t.recip a ≠ none ↔ s.recip a ≠ none := by
  have := h.recip a
  cases hs : s.recip a <;> cases ht : t.recip a <;> simp [hs, ht] at this ⊢

theorem SameLinks.lists (h : SameLinks s t) (hl : s.Lists a l) : t.Lists a l := by
  obtain ⟨q, hq, hc⟩ := hl
  have := h.recip a
  rw [hq, Option.map_some, Option.map_eq_some_iff] at this
  obtain ⟨q', hq', hm⟩ := this
  exact ⟨q', hq', by rw [h.nextOf, hm]; exact hc⟩

theorem StoreOk.sameLinks (h : StoreOk s) (hs : SameLinks s t) : StoreOk t where
  known a := by rw [hs.recips, h.known a, hs.recip_ne]
  recipsNodup := by rw [hs.recips]; exact h.recipsNodup
  fresh p hp := by
    have := hs.heap p
    rw [h.fresh p (by rw [← hs.nextId]; exact hp), Option.map_none, Option.map_eq_none_iff] at this
    exact this
  prev p d hp := by
    obtain ⟨d', hd', hl⟩ := hs.some hp
    exact (congrArg (·.2.1) hl).symm.trans (h.prev p d' hd')
  home p d hp := by
    obtain ⟨d', hd', hl⟩ := hs.some hp
    have hr : d'.pRecipQueue = d.pRecipQueue := congrArg (·.2.2) hl
    rw [hs.recip_ne, ← hr]
    exact h.home p d' hd'
  list a ha := by
    obtain ⟨l, hl, hmem⟩ := h.list a (hs.recip_ne.1 ha)
    exact ⟨l, hs.lists hl, fun p => (hmem p).trans ⟨hs.has, hs.symm.has⟩⟩

/-! ## New messages -/

theorem lastOf_chain {h : MsgId} {fuel : Nat} (hc : Chain s.nextOf (some h) (l ++ [p]))
    (hfuel : l.length < fuel) : lastOf s fuel h = some p := by
  induction l generalizing h fuel with
  | nil =>
    obtain ⟨hh, n, hn, hl⟩ := hc
    obtain rfl := Option.some.inj hh
    obtain ⟨d, hd, rfl⟩ := Store.nextOf_some.1 hn
    cases fuel with
    | zero => exact absurd hfuel (Nat.not_lt_zero _)
    | succ fuel =>
      have hnone : d.next = none := hl
      simp [lastOf, hd, hnone]
  | cons r l ih =>
    obtain ⟨hh, n, hn, hl⟩ := hc
    obtain rfl := Option.some.inj hh
    obtain ⟨d, hd, rfl⟩ := Store.nextOf_some.1 hn
    cases fuel with
    | zero => exact absurd hfuel (Nat.not_lt_zero _)
    | succ fuel =>
      have hlen : l.length < fuel := by simpa using hfuel
      cases hnext : d.next with
      | none =>
        rw [hnext] at hl
        have := hl.eq_nil
        simp at this
      | some n =>
        rw [hnext] at hl
        simp only [lastOf, hd, Option.bind_eq_bind, Option.bind_some, hnext]
        exact ih hl hlen

/-- The same message, but for its `next`. -/
def ControlData.SameButNext (d d' : ControlData) : Prop := d' = { d with next := d'.next }

theorem ControlData.SameButNext.refl (d : ControlData) : d.SameButNext d := rfl

/-- The new element is linked to the end of the list `l` of the queue `q`. -/
structure Linked (s : Store) (a : EmsdAddr) (q : RecipQueue) (l : List MsgId) (t : Store)
    (q' : RecipQueue) : Prop where
  same : t = { s with heap := t.heap, recip := t.recip }
  old : ∀ p d, s.heap p = some d → ∃ d', t.heap p = some d' ∧ d.SameButNext d'
  back : ∀ p d', t.heap p = some d' → ∃ d, s.heap p = some d ∧ d.SameButNext d'
  frame : ∀ p, p ∉ l → t.heap p = s.heap p
  recip : t.recip a = some q'
  queue : q' = { q with pMsg := q'.pMsg }
  others : ∀ b, b ≠ a → t.recip b = s.recip b
  chain : ∀ next', (∀ p ∈ l, next' p = t.nextOf p) → next' s.nextId = some none →
    Chain next' q'.pMsg (l ++ [s.nextId])

theorem linkNew_spec (h : StoreOk s) (hq : s.recip a = some q) (hl : Chain s.nextOf q.pMsg l)
    (hlen : l.length ≤ s.nextId) : ∃ t q', linkNew s a q = some t ∧ Linked s a q l t q' := by
  have hsame : ∀ p d, s.heap p = some d → ∃ d', s.heap p = some d' ∧ d.SameButNext d' :=
    fun p d hd => ⟨d, hd, .refl d⟩
  unfold linkNew
  cases hm : q.pMsg with
  | none =>
    rw [hm] at hl
    obtain rfl := hl.eq_nil
    refine ⟨_, { q with pMsg := some s.nextId }, rfl, rfl, hsame, ?_, fun _ _ => rfl, ?_, rfl,
      fun b hb => ?_, ?_⟩
    · exact fun p d' hd => ⟨d', hd, .refl d'⟩
    · simp
    · simp [hb]
    · intro next' _ hnew
      exact ⟨rfl, none, hnew, rfl⟩
  | some first =>
    rw [hm] at hl
    -- the list is not empty, and its last element gets the link
    obtain ⟨l, p, rfl⟩ : ∃ l' p, l = l' ++ [p] := by
      rcases List.eq_nil_or_concat l with rfl | ⟨l', p, hp⟩
      · cases hl
      · exact ⟨l', p, by simpa using hp⟩
    have hlast := lastOf_chain hl (by simp at hlen; omega : l.length < s.nextId + 1)
    obtain ⟨n, hn⟩ := Option.ne_none_iff_exists'.1 (hl.mem_next (List.mem_append_right l List.mem_cons_self))
    obtain ⟨d, hd, -⟩ := Store.nextOf_some.1 hn
    refine ⟨s.setMsg p { d with next := some s.nextId }, q, by simp [hlast, hd], rfl,
      fun r e he => ?_, fun r e he => ?_, fun r hr => ?_, hq, rfl, fun _ _ => rfl, ?_⟩
    · by_cases hr : r = p
      · subst hr
        obtain rfl : d = e := by simpa [hd] using he
        exact ⟨{ d with next := some s.nextId }, by simp, rfl⟩
      · exact ⟨e, by simp [hr, he], .refl e⟩
    · by_cases hr : r = p
      · subst hr
        obtain rfl : { d with next := some s.nextId } = e := by simpa using he
        exact ⟨d, hd, rfl⟩
      · exact ⟨e, by simpa [hr] using he, .refl e⟩
    · have hrp : r ≠ p := by
        rintro rfl
        exact hr (List.mem_append_right l List.mem_cons_self)
      simp [hrp]
    · intro next' hold hnew
      rw [hm]
      refine hl.snoc (fun hx => ?_) ?_ hnew fun r hr => ?_
      · -- the new element was no memory
        refine hl.mem_next hx ?_
        unfold Store.nextOf
        rw [h.fresh _ (Nat.le_refl _), Option.map_none]
      · rw [hold p (List.mem_append_right l List.mem_cons_self)]
        simp [Store.nextOf]
      · have hrp : r ≠ p := by
          rintro rfl
          have := hl.nodup
          rw [List.nodup_append] at this
          exact this.2.2 r hr r List.mem_cons_self rfl
        rw [hold r (List.mem_append_left _ hr)]
        simp [Store.nextOf, hrp]

/-- What `DQ_addMessage` does. -/
structure Added (s : Store) (new : ControlData) (a : EmsdAddr) (q : RecipQueue) (t : Store) :
    Prop where
  recips : t.recips = s.recips
  nextId : t.nextId = s.nextId + 1
  new : t.heap s.nextId = some new
  old : ∀ p d, s.heap p = some d → ∃ d', t.heap p = some d' ∧ d.SameButNext d'
  back : ∀ p d', p ≠ s.nextId → t.heap p = some d' → ∃ d, s.heap p = some d ∧ d.SameButNext d'
  recip : ∃ q', t.recip a = some q' ∧ q'.count = incr q.count ∧
    q'.status = if q.status = .empty then .ready else q.status
  others : ∀ b, b ≠ a → t.recip b = s.recip b
  lists : ∀ b l, s.Lists b l → t.Lists b (if b = a then l ++ [s.nextId] else l)

theorem dqAddMessage_spec (h : StoreOk s) (hq : s.recip a = some q) (pMsgId pOriginator : String)
    (now : Time) :
    ∃ t, dqAddMessage s pMsgId pOriginator a now = some t ∧
      Added s (newControlData pMsgId pOriginator a now) a q t := by
  obtain ⟨l, hl, hmem, hnodup, hlen⟩ := h.listOf hq
  obtain ⟨u, q', hu, hlink⟩ := linkNew_spec h hq hl hlen
  have hnone : s.heap s.nextId = none := h.fresh _ (Nat.le_refl _)
  have hne : ∀ {p d}, s.heap p = some d → p ≠ s.nextId := by
    rintro p d hd rfl
    rw [hnone] at hd
    cases hd
  refine ⟨_, by simp only [dqAddMessage, hq, hu, hlink.recip, Option.bind_eq_bind,
    Option.bind_some]; rfl, ?_, rfl, ?_, fun p d hd => ?_, fun p d' hp hd => ?_, ?_,
    fun b hb => ?_, fun b l' hl' => ?_⟩
  · show u.recips = s.recips
    rw [hlink.same]
  · simp
  · obtain ⟨d', hd', hs⟩ := hlink.old p d hd
    exact ⟨d', by simp [hne hd, hd'], hs⟩
  · exact hlink.back p d' (by simpa [hp] using hd)
  · refine ⟨_, by simp; rfl, ?_, ?_⟩
    · rw [hlink.queue]
      rfl
    · rw [hlink.queue]
      rfl
  · simp [hb, hlink.others b hb]
  · obtain ⟨qb, hqb, hcb⟩ := hl'
    have hnew : ∀ r ∈ l', r ≠ s.nextId := by
      intro r hr
      obtain ⟨n, hn⟩ := Option.ne_none_iff_exists'.1 (hcb.mem_next hr)
      obtain ⟨d, hd, -⟩ := Store.nextOf_some.1 hn
      exact hne hd
    by_cases hb : b = a
    · subst hb
      obtain rfl : q = qb := by simpa [hq] using hqb
      obtain rfl := hl.unique hcb
      refine ⟨_, by simp; rfl, ?_⟩
      rw [if_pos rfl]
      refine hlink.chain _ (fun r hr => ?_) ?_
      · simp [Store.nextOf, hnew r hr]
      · simp [Store.nextOf, newControlData]
    · refine ⟨qb, by simp [hb, hlink.others b hb, hqb], ?_⟩
      rw [if_neg hb]
      refine hcb.frame fun r hr => ?_
      -- a message is in one list only
      have hrl : r ∉ l := by
        intro hin
        obtain ⟨d, hd, hda⟩ := (hmem r).1 hin
        obtain ⟨lb, ⟨q₂, hq₂, hc₂⟩, hmemb⟩ := h.list b (by rw [hqb]; exact Option.some_ne_none _)
        obtain rfl : qb = q₂ := by simpa [hqb] using hq₂
        obtain rfl := hcb.unique hc₂
        obtain ⟨d', hd', hdb⟩ := (hmemb r).1 hr
        obtain rfl : d = d' := by simpa [hd] using hd'
        exact hb (hdb.symm.trans hda)
      simp [Store.nextOf, hnew r hr, hlink.frame r hrl]

theorem Added.storeOk {new : ControlData} (h : StoreOk s) (hq : s.recip a = some q)
    (ht : Added s new a q t) (hprev : new.prev = none) (hnew : new.pRecipQueue = a) :
    StoreOk t := by
  have hrecip : ∀ b, t.recip b ≠ none ↔ s.recip b ≠ none := by
    intro b
    by_cases hb : b = a
    · subst hb
      obtain ⟨q', hq', -⟩ := ht.recip
      simp [hq, hq']
    · rw [ht.others b hb]
  refine ⟨fun b => ?_, ?_, fun p hp => ?_, fun p d hd => ?_, fun p d hd => ?_, fun b hb => ?_⟩
  · rw [ht.recips, h.known b, hrecip b]
  · rw [ht.recips]
    exact h.recipsNodup
  · rw [ht.nextId] at hp
    cases hd : t.heap p with
    | none => rfl
    | some d' =>
      obtain ⟨d, hd, -⟩ := ht.back p d' (by lia) hd
      exact absurd (h.lt hd) (by lia)
  · by_cases hp : p = s.nextId
    · subst hp
      obtain rfl : new = d := by simpa [ht.new] using hd
      exact hprev
    · obtain ⟨d₀, hd₀, hs⟩ := ht.back p d hp hd
      rw [hs]
      exact h.prev p d₀ hd₀
  · rw [hrecip]
    by_cases hp : p = s.nextId
    · subst hp
      obtain rfl : new = d := by simpa [ht.new] using hd
      rw [hnew, hq]
      exact Option.some_ne_none _
    · obtain ⟨d₀, hd₀, hs⟩ := ht.back p d hp hd
      rw [hs]
      exact h.home p d₀ hd₀
  · obtain ⟨l, hl, hmem⟩ := h.list b ((hrecip b).1 hb)
    refine ⟨_, ht.lists b l hl, fun p => ?_⟩
    by_cases hp : p = s.nextId
    · subst hp
      have hnot : s.nextId ∉ l := by
        intro hin
        obtain ⟨d, hd, -⟩ := (hmem _).1 hin
        rw [h.fresh _ (Nat.le_refl _)] at hd
        cases hd
      constructor
      · intro hin
        split at hin
        · rename_i hb
          exact ⟨new, ht.new, hnew.trans hb.symm⟩
        · exact absurd hin hnot
      · rintro ⟨d, hd, hdb⟩
        obtain rfl : new = d := by simpa [ht.new] using hd
        rw [if_pos (hdb.symm.trans hnew)]
        simp
    · have hin : p ∈ (if b = a then l ++ [s.nextId] else l) ↔ p ∈ l := by
        split <;> simp [hp]
      rw [hin, hmem p]
      constructor
      · rintro ⟨d, hd, hdb⟩
        obtain ⟨d', hd', hs⟩ := ht.old p d hd
        exact ⟨d', hd', by rw [hs]; exact hdb⟩
      · rintro ⟨d', hd', hdb⟩
        obtain ⟨d, hd, hs⟩ := ht.back p d' hp hd'
        rw [hs] at hdb
        exact ⟨d, hd, hdb⟩

/-- A new recipient has no messages. -/
theorem dqGetRecipQueue_new (h : StoreOk s) (ha : s.recip a = none) {q : RecipQueue}
    (hq : q.pMsg = none) : StoreOk { s.setRecip a q with recips := a :: s.recips } := by
  have hnot : a ∉ s.recips := fun hin => (h.known a).1 hin ha
  refine ⟨fun b => ?_, List.nodup_cons.2 ⟨hnot, h.recipsNodup⟩, h.fresh, h.prev, fun p d hd => ?_,
    fun b hb => ?_⟩
  · by_cases hb : b = a
    · simp [hb]
    · simpa [hb] using h.known b
  · show (s.setRecip a q).recip d.pRecipQueue ≠ none
    rw [Store.setRecip_recip]
    split
    · exact Option.some_ne_none _
    · exact h.home p d hd
  · by_cases hba : b = a
    · subst hba
      refine ⟨[], ⟨q, by simp, hq⟩, fun p => ?_⟩
      simp only [List.not_mem_nil, false_iff]
      rintro ⟨d, hd, rfl⟩
      exact h.home p d hd ha
    · obtain ⟨l, ⟨q', hq', hl⟩, hmem⟩ := h.list b (by simpa [hba] using hb)
      exact ⟨l, ⟨q', by simp [hba, hq'], hl⟩, hmem⟩

end Mts
