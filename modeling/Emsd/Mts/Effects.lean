import Emsd.Mts.Server
import Emsd.Mts.Cleaning

/-!
# What the calls of the message store do

One inversion lemma for each function, without any assumption about the lists: what is known when the
call has not followed a bad pointer.

* `Homed`: the links of a recipient's messages lead to messages of the same recipient.
* `msgCleanQueue_swept`: the cleaner only takes messages out, and reports each once.
* `msgGetMessage_inv`: the message that is taken waits in a queue that is ready.
-/

namespace Mts

variable {s t u : Store} {a : EmsdAddr} {q q' : RecipQueue} {p : MsgId} {d d' : ControlData}
  {now : Time}

/-! ## One message and its queue -/

/-- The message `p` and its queue are written, but for their links. -/
structure Rewritten (s : Store) (p : MsgId) (d d' : ControlData) (q q' : RecipQueue) (t : Store) :
    Prop where
  heap : s.heap p = some d
  recip : s.recip d.pRecipQueue = some q
  links : d'.links = d.links
  pMsg : q'.pMsg = q.pMsg
  eq : t = (s.setMsg p d').setRecip d.pRecipQueue q'

theorem Rewritten.sameLinks (h : Rewritten s p d d' q q' t) : SameLinks s t := by
  rw [h.eq]
  exact (SameLinks.setMsg h.heap h.links).trans (SameLinks.setRecip h.recip h.pMsg)

theorem Rewritten.home (h : Rewritten s p d d' q q' t) : d'.pRecipQueue = d.pRecipQueue :=
  congrArg (·.2.2) h.links

@[simp] theorem Rewritten.heap_eq (h : Rewritten s p d d' q q' t) {r : MsgId} :
    t.heap r = if r = p then some d' else s.heap r := by
  rw [h.eq, Store.setRecip_heap, Store.setMsg_heap]

@[simp] theorem Rewritten.recip_eq (h : Rewritten s p d d' q q' t) {b : EmsdAddr} :
    t.recip b = if b = d.pRecipQueue then some q' else s.recip b := by
  rw [h.eq, Store.setRecip_recip, Store.setMsg_recip]

theorem markDelivering_inv (h : markDelivering s p now = some t) : ∃ d q,
    Rewritten s p d { d with status := .delivering, lastAttempt := now } q
      { q with lastAttempt := now, status := .delivering } t := by
  simp only [markDelivering, Option.bind_eq_bind, Option.bind_eq_some_iff, Option.some.injEq] at h
  obtain ⟨d, hd, q, hq, rfl⟩ := h
  exact ⟨d, q, hd, hq, rfl, rfl, rfl⟩

theorem msgDeleteMessage_inv (h : msgDeleteMessage s p now = some t) : ∃ d, s.heap p = some d ∧
    (d.completed ≠ 0 ∧ t = s ∨ d.completed = 0 ∧ ∃ q,
      Rewritten s p d { d with status := .failed, completed := now } q
        { q with count := decr q.count } t) := by
  simp only [msgDeleteMessage, Option.bind_eq_bind, Option.bind_eq_some_iff] at h
  obtain ⟨d, hd, h⟩ := h
  refine ⟨d, hd, ?_⟩
  split at h
  · rename_i hc
    obtain ⟨q, hq, h⟩ := Option.bind_eq_some_iff.1 h
    obtain rfl := Option.some.inj h
    exact .inr ⟨hc, q, hd, hq, rfl, rfl, rfl⟩
  · rename_i hc
    exact .inl ⟨hc, (Option.some.inj h).symm⟩

/-- What the status of a message makes of its queue. -/
def queueFor (status : MqStatus) (q : RecipQueue) (now : Time) : RecipQueue :=
  match status with
  | .undefined => q
  | .ready | .failed => { q with status := .ready }
  | .delivering => { q with status := .delivering }
  | .succeded => { q with
      failureCount := 0
      count := decr q.count
      lastAttempt := now
      nextAttempt := now
      status := .ready }

/-- The message itself. -/
def messageFor (status : MqStatus) (d : ControlData) (now : Time) : ControlData :=
  { d with status, completed := if status = .succeded then now else d.completed }

theorem msgUpdateMessageStatus_inv {status : MqStatus} {set : Bool}
    (h : msgUpdateMessageStatus s p status now = some (t, set)) : ∃ d, s.heap p = some d ∧
    (d.completed ≠ 0 ∧ t = s ∧ set = false ∨ d.completed = 0 ∧ set = true ∧ ∃ q,
      Rewritten s p d (messageFor status d now) q (queueFor status q now) t) := by
  simp only [msgUpdateMessageStatus, Option.bind_eq_bind, Option.bind_eq_some_iff] at h
  obtain ⟨d, hd, h⟩ := h
  refine ⟨d, hd, ?_⟩
  split at h
  · rename_i hc
    obtain ⟨rfl, rfl⟩ := Prod.mk.inj (Option.some.inj h)
    exact .inl ⟨hc, rfl, rfl⟩
  · rename_i hc
    obtain ⟨q, hq, h⟩ := Option.bind_eq_some_iff.1 h
    refine .inr ⟨by simpa using hc, ?_⟩
    cases status with
    | undefined =>
      obtain ⟨rfl, rfl⟩ := Prod.mk.inj (Option.some.inj h)
      refine ⟨rfl, q, hd, hq, rfl, rfl, ?_⟩
      have hsame : (s.setMsg p { d with status := .undefined }).setRecip d.pRecipQueue q =
          s.setMsg p { d with status := .undefined } := by
        unfold Store.setRecip Store.setMsg
        rw [← hq, Function.update_eq_self]
      exact hsame.symm
    | ready | delivering | failed | succeded =>
      obtain ⟨rfl, rfl⟩ := Prod.mk.inj (Option.some.inj h)
      exact ⟨rfl, q, hd, hq, rfl, rfl, rfl⟩

theorem deliveryRespool_inv {cfg : Config}
    (h : Server.deliveryRespool cfg s p now = some t) : ∃ d q delay,
    Server.respoolDelay cfg q.failureCount = some delay ∧
    Rewritten s p d { d with
      lastAttempt := now
      failureCount := d.failureCount + 1
      status := .failed } q { q with
      lastAttempt := now
      nextAttempt := now + delay
      status := .ready } t := by
  simp only [Server.deliveryRespool, Option.bind_eq_bind, Option.bind_eq_some_iff,
    Option.some.injEq] at h
  obtain ⟨d, hd, q, hq, delay, hdelay, rfl⟩ := h
  exact ⟨d, q, delay, hdelay, hd, hq, rfl, rfl, rfl⟩

theorem msgDeliverNow_sameLinks {nsap : Ocp.NSapAddr} : SameLinks s (msgDeliverNow s nsap now) := by
  refine ⟨rfl, rfl, fun _ => rfl, fun b => ?_⟩
  simp only [msgDeliverNow, Option.map_map]
  congr 1
  funext q
  simp only [Function.comp]
  split <;> rfl

/-! ## Links -/

/-- The links lead to messages of the same queue, and to memory that has been allocated. -/
structure Homed (s : Store) : Prop where
  fresh : ∀ p, s.nextId ≤ p → s.heap p = none
  prev : ∀ p d, s.heap p = some d → d.prev = none
  first : ∀ a q p, s.recip a = some q → q.pMsg = some p → p < s.nextId ∧
    ∀ d, s.heap p = some d → d.pRecipQueue = a
  next : ∀ p d n, s.heap p = some d → d.next = some n → n < s.nextId ∧
    ∀ e, s.heap n = some e → e.pRecipQueue = d.pRecipQueue

theorem Homed.empty : Homed {} where
  fresh _ _ := rfl
  prev _ _ h := by cases h
  first _ _ _ h := by cases h
  next _ _ _ h := by cases h

theorem Homed.lt (h : Homed s) (hp : s.heap p = some d) : p < s.nextId := by
  by_contra hle
  rw [h.fresh p (Nat.not_lt.1 hle)] at hp
  cases hp

theorem Homed.sameLinks (h : Homed s) (hs : SameLinks s t) : Homed t where
  fresh p hp := by
    have := hs.heap p
    rw [h.fresh p (by rw [← hs.nextId]; exact hp), Option.map_none, Option.map_eq_none_iff] at this
    exact this
  prev p d hp := by
    obtain ⟨d', hd', hl⟩ := hs.some hp
    exact (congrArg (·.2.1) hl).symm.trans (h.prev p d' hd')
  first a q p hq hm := by
    have := hs.recip a
    rw [hq, Option.map_some, eq_comm, Option.map_eq_some_iff] at this
    obtain ⟨q', hq', hm'⟩ := this
    obtain ⟨hlt, hd⟩ := h.first a q' p hq' (hm'.trans hm)
    refine ⟨by rw [hs.nextId]; exact hlt, fun d hp => ?_⟩
    obtain ⟨d', hd', hl⟩ := hs.some hp
    exact (congrArg (·.2.2) hl).symm.trans (hd d' hd')
  next p d n hp hn := by
    obtain ⟨d', hd', hl⟩ := hs.some hp
    obtain ⟨hlt, he⟩ := h.next p d' n hd' ((congrArg (·.1) hl).trans hn)
    refine ⟨by rw [hs.nextId]; exact hlt, fun e hen => ?_⟩
    obtain ⟨e', he', hl'⟩ := hs.some hen
    have hhome : d'.pRecipQueue = d.pRecipQueue := congrArg (·.2.2) hl
    have hhome' : e'.pRecipQueue = e.pRecipQueue := congrArg (·.2.2) hl'
    rw [← hhome, ← hhome']
    exact he e' he'

theorem StoreOk.homed (h : StoreOk s) : Homed s where
  fresh := h.fresh
  prev := h.prev
  first a q p hq hm := by
    obtain ⟨l, hl, hmem, -⟩ := h.listOf hq
    have hin : p ∈ l := List.mem_of_mem_head? (by rw [hl.head?_eq, hm]; rfl)
    obtain ⟨d, hd, hhome⟩ := (hmem p).1 hin
    refine ⟨h.lt hd, fun d' hd' => ?_⟩
    obtain rfl := Option.some.inj (hd.symm.trans hd')
    exact hhome
  next p d n hp hn := by
    obtain ⟨q, hq⟩ := Option.ne_none_iff_exists'.1 (h.home p d hp)
    obtain ⟨l, hl, hmem, -⟩ := h.listOf hq
    have hin := hl.next_mem ((hmem p).2 ⟨d, hp, rfl⟩) (Store.nextOf_some.2 ⟨d, hp, hn⟩)
    obtain ⟨e, he, hhome⟩ := (hmem n).1 hin
    refine ⟨h.lt he, fun e' he' => ?_⟩
    obtain rfl := Option.some.inj (he.symm.trans he')
    exact hhome

/-- The same message, but for its links. -/
def ControlData.SameButLinks (d d' : ControlData) : Prop :=
  d' = { d with next := d'.next, prev := d'.prev }

theorem ControlData.SameButLinks.refl (d : ControlData) : d.SameButLinks d := rfl

theorem ControlData.SameButLinks.trans {d₁ d₂ d₃ : ControlData} (h₁ : d₁.SameButLinks d₂)
    (h₂ : d₂.SameButLinks d₃) : d₁.SameButLinks d₃ := by
  unfold ControlData.SameButLinks at *
  rw [h₂, h₁]

theorem ControlData.SameButLinks.fields (h : d.SameButLinks d') :
    d'.pRecipQueue = d.pRecipQueue ∧ d'.status = d.status ∧ d'.completed = d.completed ∧
      d'.expiryTime = d.expiryTime := by
  rw [h]
  exact ⟨rfl, rfl, rfl, rfl⟩

/-- The same queue, but for its first message. -/
def SameButFirst (s t : Store) : Prop :=
  ∀ a, (t.recip a).map (fun q => { q with pMsg := none }) =
    (s.recip a).map (fun q => { q with pMsg := none })

theorem SameButFirst.of_some (h : SameButFirst s t) (hq : t.recip a = some q) :
    ∃ m, s.recip a = some { q with pMsg := m } := by
  have := h a
  rw [hq, Option.map_some, eq_comm, Option.map_eq_some_iff] at this
  obtain ⟨q', hq', hm⟩ := this
  refine ⟨q'.pMsg, hq'.trans (congrArg some ?_)⟩
  cases q
  cases q'
  simp only [RecipQueue.mk.injEq] at hm ⊢
  simpa using hm

theorem SameButFirst.symm (h : SameButFirst s t) : SameButFirst t s := fun a => (h a).symm

theorem SameButFirst.trans (h₁ : SameButFirst s t) (h₂ : SameButFirst t u) : SameButFirst s u :=
  fun a => (h₂ a).trans (h₁ a)

/-- What the cleaner does to the messages, wherever they are in their lists. -/
structure Swept (now : Nat) (s t : Store) (out : List NonDel) : Prop where
  nextId : t.nextId = s.nextId
  recip : SameButFirst s t
  kept : ∀ p d', t.heap p = some d' → ∃ d, s.heap p = some d ∧ d.SameButLinks d'
  goes : ∀ p d, s.heap p = some d → t.heap p = none → d.goes now = true
  once : (out.map (·.msg)).Nodup
  reported : ∀ r ∈ out, t.heap r.msg = none ∧
    ∃ d, s.heap r.msg = some d ∧ d.longCompleted now = false ∧ d.expired now = true
  homed : Homed t

theorem Swept.refl {now : Nat} (h : Homed s) : Swept now s s [] where
  nextId := rfl
  recip _ := rfl
  kept _ d hp := ⟨d, hp, .refl d⟩
  goes p d hp hn := by
    rw [hp] at hn
    cases hn
  once := List.nodup_nil
  reported r hr := by cases hr
  homed := h

theorem Swept.none {now : Nat} {out : List NonDel} (h : Swept now s t out) (hp : s.heap p = none) :
    t.heap p = none := by
  cases ht : t.heap p with
  | none => rfl
  | some d' =>
    obtain ⟨d, hd, -⟩ := h.kept p d' ht
    rw [hp] at hd
    cases hd

theorem Swept.trans {now : Nat} {out out' : List NonDel} (h₁ : Swept now s t out)
    (h₂ : Swept now t u out') : Swept now s u (out ++ out') where
  nextId := h₂.nextId.trans h₁.nextId
  recip := h₁.recip.trans h₂.recip
  kept p d'' hp := by
    obtain ⟨d', hd', hs'⟩ := h₂.kept p d'' hp
    obtain ⟨d, hd, hs⟩ := h₁.kept p d' hd'
    exact ⟨d, hd, hs.trans hs'⟩
  goes p d hp hn := by
    cases ht : t.heap p with
    | none => exact h₁.goes p d hp ht
    | some d' =>
      obtain ⟨d₀, hd₀, hs⟩ := h₁.kept p d' ht
      obtain rfl : d = d₀ := by simpa [hp] using hd₀
      have hgoes := h₂.goes p d' ht hn
      rw [hs] at hgoes
      exact hgoes
  once := by
    rw [List.map_append, List.nodup_append]
    refine ⟨h₁.once, h₂.once, ?_⟩
    -- the message of a report is gone afterwards
    rintro _ hr _ hr' rfl
    obtain ⟨r, hin, rfl⟩ := List.mem_map.1 hr
    obtain ⟨r', hin', hmsg⟩ := List.mem_map.1 hr'
    obtain ⟨-, d, hd, -⟩ := h₂.reported r' hin'
    rw [hmsg, (h₁.reported r hin).1] at hd
    cases hd
  reported r hr := by
    rcases List.mem_append.1 hr with hr | hr
    · obtain ⟨hn, hd⟩ := h₁.reported r hr
      exact ⟨h₂.none hn, hd⟩
    · obtain ⟨hn, d', hd', hl, hx⟩ := h₂.reported r hr
      obtain ⟨d, hd, hs⟩ := h₁.kept _ d' hd'
      rw [hs] at hl hx
      exact ⟨hn, d, hd, hl, hx⟩
  homed := h₂.homed

/-- An element is taken out only where it is the first one. -/
theorem unlink_inv (h : Homed s) (hp : s.heap p = some d) (hu : unlink s a p d = some u) :
    u = s ∨ ∃ q, s.recip a = some q ∧ q.pMsg = some p ∧
      u = s.setRecip a { q with pMsg := d.next } := by
  have hd := h.prev p d hp
  have hsame : ∀ v, unlinkNext s d = some v → v = s := by
    intro v hv
    unfold unlinkNext at hv
    cases hn : d.next with
    | none =>
      rw [hn] at hv
      exact (Option.some.inj hv).symm
    | some n =>
      rw [hn] at hv
      obtain ⟨e, he, rfl⟩ := Option.map_eq_some_iff.1 hv
      have he' : { e with prev := d.prev } = e := by rw [hd, ← h.prev n e he]
      rw [he']
      unfold Store.setMsg
      rw [← he, Function.update_eq_self]
  obtain ⟨v, hv, hu⟩ := Option.bind_eq_some_iff.1 hu
  rw [hsame v hv] at hu
  replace hu : unlinkPrev s a p d = some u := hu
  unfold unlinkPrev at hu
  rw [hd] at hu
  obtain ⟨q, hq, hu⟩ := Option.map_eq_some_iff.1 hu
  split at hu
  · rename_i hm
    exact .inr ⟨q, hq, hm, hu.symm⟩
  · exact .inl hu.symm

/-- One message goes. -/
theorem sweep_one (h : Homed s) (hp : s.heap p = some d) (hgoes : d.goes now = true)
    (hu : unlink s a p d = some u) :
    Swept now s (u.free p) (if d.longCompleted now then [] else [mtsDeliveryNonDel p d 0]) := by
  have hheap : u.heap = s.heap ∧ u.nextId = s.nextId ∧ SameButFirst s u := by
    rcases unlink_inv h hp hu with rfl | ⟨q, hq, -, rfl⟩
    · exact ⟨rfl, rfl, fun _ => rfl⟩
    · refine ⟨rfl, rfl, fun b => ?_⟩
      rw [Store.setRecip_recip]
      split
      · rename_i hb
        rw [hb, hq]
        rfl
      · rfl
  obtain ⟨hheap, hnext, hrecip⟩ := hheap
  have hkept : ∀ r d', (u.free p).heap r = some d' → s.heap r = some d' := by
    intro r d' hr
    rw [Store.free_heap, hheap] at hr
    split at hr
    · cases hr
    · exact hr
  refine ⟨hnext, hrecip, fun r d' hr => ⟨d', hkept r d' hr, .refl d'⟩, fun r d' hr hn => ?_, ?_,
    fun r hr => ?_, ⟨fun r hr => ?_, fun r d' hr => h.prev r d' (hkept r d' hr),
    fun b q r hq hm => ?_, fun r d' n hr hn => ?_⟩⟩
  · rw [Store.free_heap, hheap] at hn
    split at hn
    · rename_i hrp
      obtain rfl : d = d' := by simpa [hrp, hp] using hr
      exact hgoes
    · rw [hr] at hn
      cases hn
  · split
    · exact List.nodup_nil
    · exact List.nodup_singleton _
  · split at hr
    · cases hr
    · rename_i hl
      obtain rfl := List.mem_singleton.1 hr
      refine ⟨by simp [mtsDeliveryNonDel], d, hp, by simpa using hl, ?_⟩
      rw [ControlData.goes, Bool.or_eq_true] at hgoes
      exact hgoes.resolve_left hl
  · rw [Store.free_heap, hheap, h.fresh r (by rw [← hnext]; exact hr), ite_self]
  · show r < u.nextId ∧ _
    rw [hnext]
    have hfirst : r < s.nextId ∧ ∀ e, s.heap r = some e → e.pRecipQueue = b := by
      rcases unlink_inv h hp hu with rfl | ⟨q', hq', hm', rfl⟩
      · exact h.first b q r hq hm
      · by_cases hb : b = a
        · subst hb
          obtain rfl : { q' with pMsg := d.next } = q := by
            simpa [Store.setRecip_recip] using hq
          obtain ⟨-, hhome⟩ := h.first b q' p hq' hm'
          obtain ⟨hlt, he⟩ := h.next p d r hp hm
          rw [hhome d hp] at he
          exact ⟨hlt, he⟩
        · exact h.first b q r (by simpa [hb] using hq) hm
    exact ⟨hfirst.1, fun e he => hfirst.2 e (hkept r e he)⟩
  · show n < u.nextId ∧ _
    rw [hnext]
    obtain ⟨hlt, he⟩ := h.next r d' n (hkept r d' hr) hn
    exact ⟨hlt, fun e hen => he e (hkept n e hen)⟩

theorem cleanMsgs_swept {fuel : Nat} {m : Option MsgId} {out : List NonDel} (h : Homed s)
    (hc : cleanMsgs now a fuel m s = some (t, out)) : Swept now s t out := by
  induction fuel generalizing m s t out with
  | zero =>
    cases m with
    | none =>
      obtain ⟨rfl, rfl⟩ := Prod.mk.inj (Option.some.inj hc)
      exact .refl h
    | some p => cases hc
  | succ fuel ih =>
    cases m with
    | none =>
      obtain ⟨rfl, rfl⟩ := Prod.mk.inj (Option.some.inj hc)
      exact .refl h
    | some p =>
      simp only [cleanMsgs, Option.bind_eq_bind, Option.bind_eq_some_iff] at hc
      obtain ⟨d, hp, hc⟩ := hc
      split at hc
      · rename_i hl
        obtain ⟨u, hu, hc⟩ := Option.bind_eq_some_iff.1 hc
        have hgo : d.goes now = true := by simp [ControlData.goes, hl]
        have hone := sweep_one h hp hgo hu
        rw [if_pos hl] at hone
        exact hone.trans (ih hone.homed hc)
      · rename_i hl
        split at hc
        · rename_i hx
          simp only [Option.bind_eq_some_iff, Option.some.injEq, Prod.mk.injEq, Prod.exists] at hc
          obtain ⟨u, hu, t', out', hc, rfl, rfl⟩ := hc
          have hgo : d.goes now = true := by simp [ControlData.goes, hx]
          have hone := sweep_one h hp hgo hu
          rw [if_neg hl] at hone
          exact hone.trans (ih hone.homed hc)
        · exact ih h hc

theorem cleanRecips_swept {rs : List EmsdAddr} {out : List NonDel} (h : Homed s)
    (hc : cleanRecips now rs s = some (t, out)) : Swept now s t out := by
  induction rs generalizing s t out with
  | nil =>
    obtain ⟨rfl, rfl⟩ := Prod.mk.inj (Option.some.inj hc)
    exact .refl h
  | cons a rs ih =>
    simp only [cleanRecips, Option.bind_eq_bind, Option.bind_eq_some_iff, Option.some.injEq,
      Prod.mk.injEq, Prod.exists] at hc
    obtain ⟨q, hq, u, out₁, h₁, t', out₂, h₂, rfl, rfl⟩ := hc
    have hs := cleanMsgs_swept h h₁
    exact hs.trans (ih hs.homed h₂)

/-- **Cleaning**, wherever the messages are in their lists. -/
theorem msgCleanQueue_swept {out : List NonDel} (h : Homed s)
    (hc : msgCleanQueue s now = some (t, out)) :
    Swept now s t out ∧ (s.cleans now = false → t = s ∧ out = []) := by
  unfold msgCleanQueue at hc
  by_cases hcl : s.cleans now = true
  · simp only [hcl, if_true, Option.bind_eq_bind, Option.bind_eq_some_iff, Option.some.injEq,
      Prod.mk.injEq, Prod.exists] at hc
    obtain ⟨u, out', hc, rfl, rfl⟩ := hc
    have h' : Homed { s with lastClean := now } :=
      h.sameLinks ⟨rfl, rfl, fun _ => rfl, fun _ => rfl⟩
    have hs := cleanRecips_swept h' hc
    refine ⟨⟨hs.nextId, hs.recip, hs.kept, hs.goes, hs.once, hs.reported,
      hs.homed.sameLinks ⟨rfl, rfl, fun _ => rfl, fun _ => rfl⟩⟩, fun hn => ?_⟩
    rw [hcl] at hn
    cases hn
  · rw [if_neg hcl] at hc
    obtain ⟨rfl, rfl⟩ := Prod.mk.inj (Option.some.inj hc)
    exact ⟨.refl h, fun _ => ⟨rfl, rfl⟩⟩

/-! ## New messages -/

theorem lastOf_inv {fuel : Nat} {m : MsgId} (h : Homed s) (hm : ∀ d, s.heap m = some d →
    d.pRecipQueue = a) (hl : lastOf s fuel m = some p) :
    ∃ d, s.heap p = some d ∧ d.pRecipQueue = a := by
  induction fuel generalizing m with
  | zero => cases hl
  | succ fuel ih =>
    simp only [lastOf, Option.bind_eq_bind, Option.bind_eq_some_iff] at hl
    obtain ⟨d, hd, hl⟩ := hl
    cases hn : d.next with
    | none =>
      rw [hn] at hl
      obtain rfl := Option.some.inj hl
      exact ⟨d, hd, hm d hd⟩
    | some n =>
      rw [hn] at hl
      refine ih (fun e he => ?_) hl
      rw [← hm d hd]
      exact (h.next m d n hd hn).2 e he

/-- The link to the new element is that of the queue, or that of one of its messages. -/
structure NewLink (s : Store) (a : EmsdAddr) (q : RecipQueue) (t : Store) : Prop where
  heap : ∀ p d', t.heap p = some d' → ∃ d, s.heap p = some d ∧ d' = { d with next := d'.next } ∧
    (d'.next = d.next ∨ d'.next = some s.nextId ∧ d.pRecipQueue = a)
  stays : ∀ p, s.heap p ≠ none → t.heap p ≠ none
  queue : ∀ q', t.recip a = some q' → q' = { q with pMsg := q'.pMsg } ∧
    (q'.pMsg = q.pMsg ∨ q'.pMsg = some s.nextId)
  others : ∀ b, b ≠ a → t.recip b = s.recip b

theorem linkNew_inv (h : Homed s) (hq : s.recip a = some q) (hl : linkNew s a q = some t) :
    NewLink s a q t := by
  unfold linkNew at hl
  cases hm : q.pMsg with
  | none =>
    rw [hm] at hl
    obtain rfl := Option.some.inj hl
    refine ⟨fun p d hd => ⟨d, hd, rfl, .inl rfl⟩, fun p hp => hp, fun q' hq' => ?_,
      fun b hb => by simp [hb]⟩
    obtain rfl : { q with pMsg := some s.nextId } = q' := by simpa using hq'
    exact ⟨rfl, .inr rfl⟩
  | some first =>
    rw [hm] at hl
    simp only [Option.bind_eq_bind, Option.bind_eq_some_iff, Option.some.injEq] at hl
    obtain ⟨r, hlast, d, hd, rfl⟩ := hl
    obtain ⟨d', hd', hhome⟩ := lastOf_inv h (h.first a q first hq hm).2 hlast
    obtain rfl : d = d' := by simpa [hd] using hd'
    refine ⟨fun p e he => ?_, fun p hp => ?_, fun q' hq' => ?_, fun _ _ => rfl⟩
    · rw [Store.setMsg_heap] at he
      split at he
      · rename_i hp
        obtain rfl := Option.some.inj he
        exact ⟨d, by rw [hp, hd], rfl, .inr ⟨rfl, hhome⟩⟩
      · exact ⟨e, he, rfl, .inl rfl⟩
    · rw [Store.setMsg_heap]
      split
      · exact Option.some_ne_none _
      · exact hp
    · obtain rfl : q = q' := by simpa [hq] using hq'
      exact ⟨rfl, .inl rfl⟩

theorem dqAddMessage_inv {pMsgId pOriginator : String}
    (hadd : dqAddMessage s pMsgId pOriginator a now = some t) :
    ∃ q u q', s.recip a = some q ∧ linkNew s a q = some u ∧ u.recip a = some q' ∧
      t.nextId = s.nextId + 1 ∧
      (∀ p, t.heap p =
        if p = s.nextId then some (newControlData pMsgId pOriginator a now) else u.heap p) ∧
      ∀ b, t.recip b = if b = a then some (q'.added now) else u.recip b := by
  simp only [dqAddMessage, Option.bind_eq_bind, Option.bind_eq_some_iff, Option.some.injEq] at hadd
  obtain ⟨q, hq, u, hu, q', hq', rfl⟩ := hadd
  refine ⟨q, u, q', hq, hu, hq', rfl, fun p => ?_, fun b => Store.setRecip_recip⟩
  exact Store.setMsg_heap

/-- What a new message changes. -/
structure Grown (s : Store) (a : EmsdAddr) (t : Store) : Prop where
  nextId : t.nextId = s.nextId + 1
  new : ∃ d, t.heap s.nextId = some d ∧ d.status = .ready ∧ d.completed = 0 ∧ d.pRecipQueue = a
  kept : ∀ p d', p ≠ s.nextId → t.heap p = some d' → ∃ d, s.heap p = some d ∧ d.SameButLinks d'
  stays : ∀ p, s.heap p ≠ none → t.heap p ≠ none
  queue : ∃ q q', s.recip a = some q ∧ t.recip a = some q' ∧
    q'.status = if q.status = .empty then .ready else q.status
  others : ∀ b, b ≠ a → t.recip b = s.recip b
  homed : Homed t

theorem dqAddMessage_grown {pMsgId pOriginator : String} (h : Homed s)
    (hadd : dqAddMessage s pMsgId pOriginator a now = some t) : Grown s a t := by
  obtain ⟨q, u, q', hq, hu, hq', hnext, hheap, hrecip⟩ := dqAddMessage_inv hadd
  have hnew := linkNew_inv h hq hu
  obtain ⟨hsame, hm⟩ := hnew.queue q' hq'
  have hkept : ∀ p d', p ≠ s.nextId → t.heap p = some d' → u.heap p = some d' := by
    intro p d' hp hd'
    rwa [hheap p, if_neg hp] at hd'
  have hnewest : ∀ d, t.heap s.nextId = some d → d = newControlData pMsgId pOriginator a now := by
    intro d hd
    rw [hheap, if_pos rfl] at hd
    exact (Option.some.inj hd).symm
  refine ⟨hnext, ⟨_, by rw [hheap, if_pos rfl], rfl, rfl, rfl⟩, fun p d' hp hd' => ?_,
    fun p hp => ?_, ⟨q, q'.added now, hq, by rw [hrecip, if_pos rfl], ?_⟩, fun b hb => ?_,
    ⟨fun p hp => ?_, fun p d hd => ?_, fun b qb p hqb hmb => ?_, fun p d n hd hn => ?_⟩⟩
  · obtain ⟨d, hd, hs, -⟩ := hnew.heap p d' (hkept p d' hp hd')
    exact ⟨d, hd, by rw [hs]; rfl⟩
  · rw [hheap p]
    split
    · exact Option.some_ne_none _
    · exact hnew.stays p hp
  · rw [hsame]
    rfl
  · rw [hrecip, if_neg hb, hnew.others b hb]
  · rw [hnext] at hp
    rw [hheap p, if_neg (by lia)]
    cases hd : u.heap p with
    | none => rfl
    | some d' =>
      obtain ⟨d, hd, -⟩ := hnew.heap p d' hd
      exact absurd (h.lt hd) (by lia)
  · by_cases hp : p = s.nextId
    · subst hp
      rw [hnewest d hd]
      rfl
    · obtain ⟨d₀, hd₀, hs, -⟩ := hnew.heap p d (hkept p d hp hd)
      rw [hs]
      exact h.prev p d₀ hd₀
  · -- the first message of a queue
    have hfirst : qb.pMsg = some s.nextId ∧ b = a ∨
        ∃ q₀, s.recip b = some q₀ ∧ q₀.pMsg = some p := by
      by_cases hb : b = a
      · subst hb
        rw [hrecip, if_pos rfl] at hqb
        obtain rfl := Option.some.inj hqb
        rcases hm with hm | hm
        · exact .inr ⟨q, hq, hm.symm.trans hmb⟩
        · exact .inl ⟨hm, rfl⟩
      · rw [hrecip, if_neg hb, hnew.others b hb] at hqb
        exact .inr ⟨qb, hqb, hmb⟩
    rw [hnext]
    rcases hfirst with ⟨hfirst, rfl⟩ | ⟨q₀, hq₀, hm₀⟩
    · obtain rfl : s.nextId = p := by simpa [hmb] using hfirst.symm
      refine ⟨Nat.lt_succ_self _, fun d hd => ?_⟩
      rw [hnewest d hd]
      rfl
    · obtain ⟨hlt, hhome⟩ := h.first b q₀ p hq₀ hm₀
      refine ⟨Nat.lt_succ_of_lt hlt, fun d hd => ?_⟩
      obtain ⟨d₀, hd₀, hs, -⟩ := hnew.heap p d (hkept p d (Nat.ne_of_lt hlt) hd)
      rw [hs]
      exact hhome d₀ hd₀
  · -- the next message of a message, which is not the new one
    have hp : p ≠ s.nextId := by
      rintro rfl
      rw [hnewest d hd] at hn
      cases hn
    obtain ⟨d₀, hd₀, hs, hlink⟩ := hnew.heap p d (hkept p d hp hd)
    have hhome : d.pRecipQueue = d₀.pRecipQueue := by rw [hs]
    rw [hnext, hhome]
    rcases hlink with hlink | ⟨hlink, ha⟩
    · obtain ⟨hlt, he⟩ := h.next p d₀ n hd₀ (hlink.symm.trans hn)
      refine ⟨Nat.lt_succ_of_lt hlt, fun e hen => ?_⟩
      obtain ⟨e₀, he₀, hse, -⟩ := hnew.heap n e (hkept n e (Nat.ne_of_lt hlt) hen)
      rw [hse]
      exact he e₀ he₀
    · obtain rfl : s.nextId = n := by simpa [hn] using hlink.symm
      refine ⟨Nat.lt_succ_self _, fun e he => ?_⟩
      rw [hnewest e he, ha]
      rfl

theorem dqGetRecipQueue_inv {sub : Option DeviceProfile}
    (hg : dqGetRecipQueue s a sub now = some t) :
    t = s ∨ s.recip a = none ∧ ∃ q, q.status = .empty ∧ q.pMsg = none ∧ q.count = 0 ∧
      t = { s.setRecip a q with recips := a :: s.recips } := by
  unfold dqGetRecipQueue at hg
  cases hq : s.recip a with
  | some q =>
    rw [hq] at hg
    exact .inl (Option.some.inj hg).symm
  | none =>
    rw [hq] at hg
    obtain ⟨deviceProfile, -, rfl⟩ := Option.map_eq_some_iff.1 hg
    exact .inr ⟨rfl, _, rfl, rfl, rfl, rfl⟩

theorem Homed.newRecip (h : Homed s) (hm : q.pMsg = none) :
    Homed { s.setRecip a q with recips := a :: s.recips } := by
  refine ⟨h.fresh, h.prev, fun b qb p hqb hmb => ?_, h.next⟩
  replace hqb : (s.setRecip a q).recip b = some qb := hqb
  rw [Store.setRecip_recip] at hqb
  split at hqb
  · obtain rfl := Option.some.inj hqb
    rw [hm] at hmb
    cases hmb
  · exact h.first b qb p hqb hmb

/-- A condition on every addition that a call of `msg_addMessage` makes. -/
def addsOk (ok : Store → EmsdAddr → Bool) (pMsgId pOriginator : String) :
    List Recipient → Nat → Store → Bool
  | [], _, _ => true
  | r :: recips, deliveryCount, s =>
    if r.emsdAddr = 0 then addsOk ok pMsgId pOriginator recips deliveryCount s
    else
      match dqGetRecipQueue s r.emsdAddr r.sub r.now with
      | none => addsOk ok pMsgId pOriginator recips deliveryCount s
      | some s => ok s r.emsdAddr &&
        match dqAddMessage s pMsgId pOriginator r.emsdAddr r.now with
        | none => true
        | some s => if deliveryCount + 1 > 32 then true
          else addsOk ok pMsgId pOriginator recips (deliveryCount + 1) s

theorem addsOk_true {ok : Store → EmsdAddr → Bool} {pMsgId pOriginator : String}
    {recips : List Recipient} {deliveryCount : Nat} (hok : ∀ s a, ok s a = true) :
    addsOk ok pMsgId pOriginator recips deliveryCount s = true := by
  induction recips generalizing s deliveryCount with
  | nil => rfl
  | cons r recips ih =>
    unfold addsOk
    split
    · exact ih
    · split
      · exact ih
      · rw [hok, Bool.true_and]
        split
        · rfl
        · split
          · rfl
          · exact ih

/-- What each recipient's queue and each addition preserves is preserved by `msg_addMessage`. -/
theorem msgAddMessage_invariant {P : Store → Prop} {ok : Store → EmsdAddr → Bool}
    {pMsgId pOriginator : String} {recips : List Recipient} {deliveryCount : Nat}
    (hnew : ∀ s t a sub now, P s → dqGetRecipQueue s a sub now = some t → P t)
    (hadd : ∀ s t a now, P s → ok s a = true → dqAddMessage s pMsgId pOriginator a now = some t →
      P t)
    (h : P s) (hok : addsOk ok pMsgId pOriginator recips deliveryCount s = true)
    (hs : msgAddMessage pMsgId pOriginator recips deliveryCount s = some t) : P t := by
  induction recips generalizing s deliveryCount with
  | nil =>
    obtain rfl := Option.some.inj hs
    exact h
  | cons r recips ih =>
    unfold msgAddMessage at hs
    unfold addsOk at hok
    by_cases h0 : r.emsdAddr = 0
    · rw [if_pos h0] at hs hok
      exact ih h hok hs
    · rw [if_neg h0] at hs hok
      cases hg : dqGetRecipQueue s r.emsdAddr r.sub r.now with
      | none =>
        rw [hg] at hs hok
        exact ih h hok hs
      | some u =>
        rw [hg] at hs hok
        obtain ⟨hoku, hok⟩ := Bool.and_eq_true_iff.1 hok
        obtain ⟨v, hv, hs⟩ := Option.bind_eq_some_iff.1 hs
        rw [hv] at hok
        have hPv := hadd u v _ _ (hnew s u _ _ _ h hg) hoku hv
        split at hs
        · obtain rfl := Option.some.inj hs
          exact hPv
        · rename_i hcount
          replace hok : (if deliveryCount + 1 > 32 then true
            else addsOk ok pMsgId pOriginator recips (deliveryCount + 1) v) = true := hok
          rw [if_neg hcount] at hok
          exact ih hPv hok hs

/-! ## Taking a message -/

theorem firstWaiting_inv {fuel : Nat} {m : Option MsgId} (h : Homed s)
    (hm : ∀ r, m = some r → ∀ d, s.heap r = some d → d.pRecipQueue = a)
    (hf : firstWaiting s fuel m = some (some p)) : ∃ d, s.heap p = some d ∧ d.pRecipQueue = a ∧
      (d.status = .ready ∨ d.status = .failed) := by
  induction fuel generalizing m with
  | zero =>
    cases m <;> cases hf
  | succ fuel ih =>
    cases m with
    | none => cases hf
    | some r =>
      simp only [firstWaiting, Option.bind_eq_bind, Option.bind_eq_some_iff] at hf
      obtain ⟨d, hd, hf⟩ := hf
      split at hf
      · rename_i hst
        obtain rfl := Option.some.inj (Option.some.inj hf)
        exact ⟨d, hd, hm r rfl d hd, hst⟩
      · refine ih (fun n hn e he => ?_) hf
        rw [← hm r rfl d hd]
        exact (h.next r d n hd hn).2 e he

/-- The message that is found waits in a queue that is ready. -/
theorem nextWaiting_inv {rs : List EmsdAddr} (h : Homed s)
    (hn : nextWaiting s now rs = some (some p)) : ∃ d q, s.heap p = some d ∧
      (d.status = .ready ∨ d.status = .failed) ∧ s.recip d.pRecipQueue = some q ∧
      q.status = .ready := by
  induction rs with
  | nil => cases hn
  | cons a rs ih =>
    simp only [nextWaiting, Option.bind_eq_bind, Option.bind_eq_some_iff] at hn
    obtain ⟨q, hq, hn⟩ := hn
    split at hn
    · exact ih hn
    · rename_i hready
      obtain ⟨o, ho, hn⟩ := Option.bind_eq_some_iff.1 hn
      cases o with
      | none => exact ih hn
      | some r =>
        obtain rfl : r = p := by simpa using hn
        obtain ⟨d, hd, rfl, hst⟩ := firstWaiting_inv h (fun r hr => (h.first a q r hq hr).2) ho
        refine ⟨d, q, hd, hst, hq, ?_⟩
        by_contra hne
        exact hready (.inl hne)

/-- What `msg_getMessage` does once the queues are clean. -/
theorem msgGetMessage_inv {cleaned : Time} {pMsg : Option MsgId} {out : List NonDel} (h : Homed s)
    (hg : msgGetMessage s cleaned now = some (pMsg, t, out)) :
    ∃ u, msgCleanQueue s cleaned = some (u, out) ∧
      ((pMsg = none ∧ ∃ n, t = { u with nextAttempt := n }) ∨
        ∃ p d q v, pMsg = some p ∧ (d.status = .ready ∨ d.status = .failed) ∧ q.status = .ready ∧
          Rewritten u p d { d with status := .delivering, lastAttempt := now } q
            { q with lastAttempt := now, status := .delivering } v ∧
          t = { v with nextAttempt := now }) := by
  simp only [msgGetMessage, Option.bind_eq_bind, Option.bind_eq_some_iff, Prod.exists] at hg
  obtain ⟨u, out', hc, hg⟩ := hg
  have hu := (msgCleanQueue_swept h hc).1.homed
  split at hg
  · obtain ⟨rfl, rfl, rfl⟩ := by simpa using hg
    exact ⟨u, hc, .inl ⟨rfl, u.nextAttempt, rfl⟩⟩
  · obtain ⟨o, ho, hg⟩ := Option.bind_eq_some_iff.1 hg
    cases o with
    | none =>
      obtain ⟨rfl, rfl, rfl⟩ := by simpa using hg
      exact ⟨u, hc, .inl ⟨rfl, now + 2, rfl⟩⟩
    | some p =>
      obtain ⟨v, hv, hg⟩ := Option.bind_eq_some_iff.1 hg
      obtain ⟨rfl, rfl, rfl⟩ := by simpa using hg
      obtain ⟨d, q, hd, hst, hq, hready⟩ := nextWaiting_inv hu ho
      obtain ⟨d', q', hw⟩ := markDelivering_inv hv
      obtain rfl : d = d' := by simpa [hd] using hw.heap
      obtain rfl : q = q' := by simpa [hq] using hw.recip
      exact ⟨u, hc, .inr ⟨p, d, q, v, rfl, hst, hready, hw, rfl⟩⟩

end Mts
