import Emsd.Mts.Lists
import Mathlib.Data.List.TakeWhile

/-!
# Cleaning the message lists

`msg_cleanQueue` takes the expired and the long completed messages out of their lists and frees
them. Since `prev` is null everywhere, only the first element of a list is really taken out.

* `cleanMsgs_spec`: one list, where the messages that go come before those that stay.
* `msgCleanQueue_spec`: **cleaning**, where this is so for every list.
-/

namespace Mts

open Lib

variable {s t : Store} {a : EmsdAddr} {q : RecipQueue} {p : MsgId} {d : ControlData} {now : Time}
  {l : List MsgId}

/-- The cleaner takes the message out. -/
def ControlData.goes (d : ControlData) (now : Nat) : Bool := d.longCompleted now || d.expired now

def Store.goes (s : Store) (now : Nat) (p : MsgId) : Bool := (s.heap p).any (·.goes now)

/-- The report that the cleaner writes for a message. -/
def Store.report (s : Store) (now : Nat) (p : MsgId) : Option NonDel :=
  (s.heap p).bind fun d =>
    if !d.longCompleted now && d.expired now then some (mtsDeliveryNonDel p d 0) else none

/-- The store without the messages `gone`, and with a new head of a list. -/
def Store.without (s : Store) (a : EmsdAddr) (q : RecipQueue) (gone : List MsgId)
    (h : Option MsgId) : Store :=
  { s.setRecip a { q with pMsg := h } with heap := fun p => if p ∈ gone then none else s.heap p }

/-- The first element of a list is taken out. -/
theorem unlink_first (hprev : ∀ p d, s.heap p = some d → d.prev = none)
    (hq : s.recip a = some q) (hm : q.pMsg = some p) (hp : s.heap p = some d)
    (hnext : ∀ n, d.next = some n → s.heap n ≠ none) :
    unlink s a p d = some (s.setRecip a { q with pMsg := d.next }) := by
  have hd := hprev p d hp
  have hsame : unlinkNext s d = some s := by
    unfold unlinkNext
    cases hn : d.next with
    | none => rfl
    | some n =>
      obtain ⟨e, he⟩ := Option.ne_none_iff_exists'.1 (hnext n hn)
      -- `prev` of the next element is null already
      have he' : { e with prev := d.prev } = e := by rw [hd, ← hprev n e he]
      simp only [he, Option.map_some, he']
      unfold Store.setMsg
      rw [← he, Function.update_eq_self]
  simp [unlink, unlinkPrev, hsame, hd, hq, hm]

/-- Where nothing goes, the walk changes nothing. -/
theorem cleanMsgs_stays {h : Option MsgId} {fuel : Nat} (hc : Chain s.nextOf h l)
    (hstay : ∀ p ∈ l, s.goes now p = false) (hfuel : l.length ≤ fuel) :
    cleanMsgs now a fuel h s = some (s, []) := by
  induction l generalizing h fuel with
  | nil =>
    rw [Chain.nil_iff.1 hc]
    cases fuel <;> rfl
  | cons p l ih =>
    obtain ⟨rfl, n, hn, hl⟩ := hc
    obtain ⟨d, hd, rfl⟩ := Store.nextOf_some.1 hn
    cases fuel with
    | zero => exact absurd hfuel (Nat.not_succ_le_zero _)
    | succ fuel =>
      have hgoes := hstay p List.mem_cons_self
      simp only [Store.goes, hd, Option.any_some, ControlData.goes, Bool.or_eq_false_iff] at hgoes
      simp only [cleanMsgs, hd, Option.bind_eq_bind, Option.bind_some, hgoes.1, hgoes.2,
        Bool.false_eq_true, if_false]
      exact ih hl (fun r hr => hstay r (List.mem_cons_of_mem _ hr)) (Nat.le_of_succ_le_succ hfuel)

/-- **One list**: the elements at its front go, the others stay. -/
theorem cleanMsgs_spec {gone rest : List MsgId} {fuel : Nat}
    (hprev : ∀ p d, s.heap p = some d → d.prev = none) (hq : s.recip a = some q)
    (hc : Chain s.nextOf q.pMsg (gone ++ rest)) (hgone : ∀ p ∈ gone, s.goes now p = true)
    (hrest : ∀ p ∈ rest, s.goes now p = false) (hfuel : (gone ++ rest).length ≤ fuel) :
    cleanMsgs now a fuel q.pMsg s =
      some (s.without a q gone rest.head?, gone.filterMap (s.report now)) := by
  induction gone generalizing s q fuel with
  | nil =>
    rw [cleanMsgs_stays hc hrest hfuel]
    have hhead : rest.head? = q.pMsg := hc.head?_eq
    have hsame : s.without a q [] rest.head? = s := by
      unfold Store.without Store.setRecip
      rw [hhead]
      simp [← hq]
    rw [hsame]
    rfl
  | cons p gone ih =>
    obtain ⟨hm, n, hn, hl⟩ := hc
    replace hl : Chain s.nextOf n (gone ++ rest) := hl
    have hnodup : (p :: (gone ++ rest)).Nodup := Chain.nodup ⟨hm, n, hn, hl⟩
    have hpnot : p ∉ gone ++ rest := (List.nodup_cons.1 hnodup).1
    obtain ⟨d, hd, rfl⟩ := Store.nextOf_some.1 hn
    cases fuel with
    | zero => exact absurd hfuel (Nat.not_succ_le_zero _)
    | succ fuel =>
      -- the element leaves the list, and is freed
      have hun := unlink_first hprev hq hm hd fun r hr => by
        have hhead := hl.head?_eq
        rw [hr] at hhead
        have hin : r ∈ gone ++ rest := List.mem_of_mem_head? (by rw [hhead]; rfl)
        have := hl.mem_next hin
        unfold Store.nextOf at this
        intro hnone
        rw [hnone] at this
        exact this rfl
      set q' : RecipQueue := { q with pMsg := d.next }
      set u := (s.setRecip a q').free p with hu
      have hheap : ∀ r, r ≠ p → u.heap r = s.heap r := by
        intro r hr
        simp [hu, hr]
      have hgoes : ∀ r, r ≠ p → u.goes now r = s.goes now r := by
        intro r hr
        unfold Store.goes
        rw [hheap r hr]
      have hreport : ∀ r, r ≠ p → u.report now r = s.report now r := by
        intro r hr
        unfold Store.report
        rw [hheap r hr]
      have hne : ∀ r ∈ gone ++ rest, r ≠ p := by
        rintro r hr rfl
        exact hpnot hr
      have hrec := ih (s := u) (q := q') (fun r e he => ?_) (by simp [hu]) ?_
        (fun r hr => ?_) (fun r hr => ?_) (by simpa using hfuel)
      · -- what is left is the rest of the walk
        have hwithout : u.without a q' gone rest.head? = s.without a q (p :: gone) rest.head? := by
          unfold Store.without Store.setRecip
          simp only [hu, Store.free, Store.setRecip, Function.update_idem, List.mem_cons]
          congr 1
          funext r
          by_cases hr : r = p
          · simp [hr]
          · simp [hr]
        have hmap : gone.filterMap (u.report now) = gone.filterMap (s.report now) :=
          List.filterMap_congr fun r hr => hreport r (hne r (List.mem_append_left _ hr))
        rw [hwithout, hmap] at hrec
        have hgp := hgone p List.mem_cons_self
        simp only [Store.goes, hd, Option.any_some, ControlData.goes, Bool.or_eq_true] at hgp
        rw [hm]
        simp only [cleanMsgs, hd, Option.bind_eq_bind, Option.bind_some, hun]
        by_cases hlong : d.longCompleted now = true
        · have hrp : s.report now p = none := by simp [Store.report, hd, hlong]
          rw [if_pos hlong, List.filterMap_cons_none hrp]
          exact hrec
        · have hexp := hgp.resolve_left hlong
          have hrp : s.report now p = some (mtsDeliveryNonDel p d 0) := by
            simp [Store.report, hd, hlong, hexp]
          rw [if_neg hlong, if_pos hexp, List.filterMap_cons_some hrp]
          have hrec' : cleanMsgs now a fuel d.next u = _ := hrec
          rw [hrec']
          rfl
      · by_cases hr : r = p
        · rw [hr] at he
          simp [hu] at he
        · rw [hheap r hr] at he
          exact hprev r e he
      · show Chain u.nextOf d.next (gone ++ rest)
        refine hl.frame fun r hr => ?_
        unfold Store.nextOf
        rw [hheap r (hne r hr)]
      · rw [hgoes r (hne r (List.mem_append_left _ hr))]
        exact hgone r (List.mem_cons_of_mem _ hr)
      · rw [hgoes r (hne r (List.mem_append_right _ hr))]
        exact hrest r hr

theorem StoreOk.has_unique (hp : s.Has a p) {b : EmsdAddr} (hb : s.Has b p) : a = b := by
  obtain ⟨d, hd, rfl⟩ := hp
  obtain ⟨d', hd', rfl⟩ := hb
  rw [hd] at hd'
  rw [Option.some.inj hd']

theorem StoreOk.without (h : StoreOk s) (hq : s.recip a = some q) {gone rest : List MsgId}
    (hc : Chain s.nextOf q.pMsg (gone ++ rest)) : StoreOk (s.without a q gone rest.head?) := by
  obtain ⟨l, hl, hmem, hnodup, -⟩ := h.listOf hq
  obtain rfl := hl.unique hc
  have hsplit := List.nodup_append.1 hnodup
  have hheap : ∀ p d, (s.without a q gone rest.head?).heap p = some d → s.heap p = some d := by
    intro p d hd
    simp only [Store.without] at hd
    split at hd
    · cases hd
    · exact hd
  have hkeep : ∀ p, p ∉ gone → (s.without a q gone rest.head?).heap p = s.heap p :=
    fun p hp => if_neg hp
  refine ⟨fun b => ?_, h.recipsNodup, fun p hp => ?_, fun p d hd => h.prev p d (hheap p d hd),
    fun p d hd => ?_, fun b hb => ?_⟩
  · show b ∈ s.recips ↔ (s.setRecip a _).recip b ≠ none
    rw [h.known b, Store.setRecip_recip]
    split
    · rename_i hb
      simp [hb, hq]
    · rfl
  · show (if p ∈ gone then none else s.heap p) = none
    rw [h.fresh p hp, ite_self]
  · show (s.setRecip a _).recip _ ≠ none
    rw [Store.setRecip_recip]
    split
    · exact Option.some_ne_none _
    · exact h.home p d (hheap p d hd)
  · by_cases hba : b = a
    · subst hba
      refine ⟨rest, ⟨{ q with pMsg := rest.head? }, by simp [Store.without], ?_⟩, fun p => ?_⟩
      · have hdrop := hc.drop gone.length
        rw [List.drop_left] at hdrop
        refine hdrop.frame fun p hp => ?_
        unfold Store.nextOf
        rw [hkeep p fun hg => hsplit.2.2 p hg p hp rfl]
      · constructor
        · intro hp
          obtain ⟨d, hd, hda⟩ := (hmem p).1 (List.mem_append_right _ hp)
          exact ⟨d, by rw [hkeep p fun hg => hsplit.2.2 p hg p hp rfl]; exact hd, hda⟩
        · rintro ⟨d, hd, hda⟩
          have hin := (hmem p).2 ⟨d, hheap p d hd, hda⟩
          refine (List.mem_append.1 hin).resolve_left fun hg => ?_
          simp [Store.without, hg] at hd
    · have hrb : (s.without a q gone rest.head?).recip b = s.recip b := by
        simp [Store.without, hba]
      rw [hrb] at hb
      obtain ⟨lb, ⟨qb, hqb, hlb⟩, hmemb⟩ := h.list b hb
      have hnot : ∀ p, s.Has b p → p ∉ gone := by
        intro p hp hg
        exact hba (StoreOk.has_unique hp ((hmem p).1 (List.mem_append_left _ hg)))
      refine ⟨lb, ⟨qb, by rw [hrb, hqb], hlb.frame fun p hp => ?_⟩, fun p => ?_⟩
      · unfold Store.nextOf
        rw [hkeep p (hnot p ((hmemb p).1 hp))]
      · rw [hmemb p]
        constructor
        · rintro ⟨d, hd, hdb⟩
          exact ⟨d, by rw [hkeep p (hnot p ⟨d, hd, hdb⟩)]; exact hd, hdb⟩
        · rintro ⟨d, hd, hdb⟩
          exact ⟨d, hheap p d hd, hdb⟩

/-- The messages of a recipient, as they are found along the links. -/
def Store.msgs (s : Store) (a : EmsdAddr) : List MsgId :=
  match s.recip a with
  | none => []
  | some q => walk s.nextOf s.nextId q.pMsg

theorem StoreOk.msgs_eq (h : StoreOk s) (hl : s.Lists a l) : s.msgs a = l := by
  obtain ⟨q, hq, hc⟩ := hl
  obtain ⟨l', hl', -, -, hlen⟩ := h.listOf hq
  obtain rfl := hl'.unique hc
  simp only [Store.msgs, hq]
  exact hc.walk_eq hlen

theorem StoreOk.mem_msgs (h : StoreOk s) (ha : s.recip a ≠ none) : p ∈ s.msgs a ↔ s.Has a p := by
  obtain ⟨l, hl, hmem⟩ := h.list a ha
  rw [h.msgs_eq hl, hmem]

/-- The messages that the cleaner takes out of a list come before those that stay. -/
def Store.frontOnly (s : Store) (now : Nat) (a : EmsdAddr) : Bool :=
  ((s.msgs a).dropWhile (s.goes now)).all fun p => !s.goes now p

/-- What `msg_cleanQueue` has done once the recipients `rs` are through. -/
structure Cleaned (now : Nat) (rs : List EmsdAddr) (s t : Store) (out : List NonDel) : Prop where
  recips : t.recips = s.recips
  nextId : t.nextId = s.nextId
  nextAttempt : t.nextAttempt = s.nextAttempt
  heap : ∀ p d, s.heap p = some d →
    t.heap p = if d.pRecipQueue ∈ rs ∧ d.goes now = true then none else some d
  gone : ∀ p, s.heap p = none → t.heap p = none
  recip : ∀ a, (s.recip a = none ∧ t.recip a = none) ∨
    ∃ q m, s.recip a = some q ∧ t.recip a = some { q with pMsg := m }
  msgs : ∀ a, t.msgs a = if a ∈ rs then (s.msgs a).filter fun p => !s.goes now p else s.msgs a
  out : out = rs.flatMap fun a => (s.msgs a).filterMap (s.report now)

theorem filter_split {f : MsgId → Bool} (h : (l.dropWhile f).all (fun p => !f p) = true) :
    l.filter (fun p => !f p) = l.dropWhile f := by
  induction l with
  | nil => rfl
  | cons p l ih =>
    by_cases hp : f p = true
    · rw [List.dropWhile_cons_of_pos hp] at h ⊢
      rw [List.filter_cons_of_neg (by simp [hp])]
      exact ih h
    · rw [List.dropWhile_cons_of_neg hp] at h ⊢
      exact List.filter_eq_self.2 (List.all_eq_true.1 h)

/-- Nothing in the rest of the list is reported. -/
theorem filterMap_split {f : MsgId → Bool} {g : MsgId → Option NonDel}
    (h : (l.dropWhile f).all (fun p => !f p) = true) (hg : ∀ p, f p = false → g p = none) :
    l.filterMap g = (l.takeWhile f).filterMap g := by
  have hrest : (l.dropWhile f).filterMap g = [] := by
    rw [List.filterMap_eq_nil_iff]
    intro p hp
    exact hg p (by simpa using List.all_eq_true.1 h p hp)
  have hsplit : l.takeWhile f ++ l.dropWhile f = l := List.takeWhile_append_dropWhile
  calc l.filterMap g = (l.takeWhile f ++ l.dropWhile f).filterMap g := by rw [hsplit]
    _ = (l.takeWhile f).filterMap g := by rw [List.filterMap_append, hrest, List.append_nil]

theorem all_dropWhile_congr {f g : MsgId → Bool} (h : ∀ p ∈ l, f p = g p) :
    (l.dropWhile f).all (fun p => !f p) = (l.dropWhile g).all (fun p => !g p) := by
  induction l with
  | nil => rfl
  | cons p l ih =>
    have hp := h p List.mem_cons_self
    have hl : ∀ r ∈ l, f r = g r := fun r hr => h r (List.mem_cons_of_mem _ hr)
    cases hg : g p with
    | true =>
      rw [List.dropWhile_cons_of_pos (hp.trans hg), List.dropWhile_cons_of_pos hg]
      exact ih hl
    | false =>
      rw [List.dropWhile_cons_of_neg (by simp [hp, hg]), List.dropWhile_cons_of_neg (by simp [hg])]
      have hall : ∀ k : List MsgId, (∀ r ∈ k, f r = g r) →
          (k.all fun p => !f p) = k.all fun p => !g p := by
        intro k hk
        induction k with
        | nil => rfl
        | cons r k ihk =>
          rw [List.all_cons, List.all_cons, hk r List.mem_cons_self,
            ihk fun x hx => hk x (List.mem_cons_of_mem _ hx)]
      exact hall _ h

theorem StoreOk.has_of_mem (h : StoreOk s) (hp : p ∈ s.msgs a) : s.Has a p := by
  cases hq : s.recip a with
  | none => simp [Store.msgs, hq] at hp
  | some q => exact (h.mem_msgs (by simp [hq])).1 hp

/-- The messages of the recipients that have not been cleaned are as they were. -/
theorem Cleaned.heap_eq {rs : List EmsdAddr} {out : List NonDel} (hc : Cleaned now rs s t out)
    (h : StoreOk s) (ha : a ∉ rs) (hp : p ∈ s.msgs a) : t.heap p = s.heap p := by
  obtain ⟨d, hd, rfl⟩ := h.has_of_mem hp
  rw [hc.heap p d hd, if_neg fun hin => ha hin.1, hd]

/-- One recipient, whose messages that go come first in its list. -/
theorem cleaned_one (h : StoreOk s) (hq : s.recip a = some q) (hfront : s.frontOnly now a = true) :
    ∃ u out, cleanMsgs now a (s.nextId + 1) q.pMsg s = some (u, out) ∧ StoreOk u ∧
      Cleaned now [a] s u out := by
  obtain ⟨l, hl, hmem, hnodup, hlen⟩ := h.listOf hq
  have hmsgs := h.msgs_eq ⟨q, hq, hl⟩
  unfold Store.frontOnly at hfront
  rw [hmsgs] at hfront
  set gone := l.takeWhile (s.goes now) with hgone
  set rest := l.dropWhile (s.goes now) with hrest
  have hsplit : gone ++ rest = l := List.takeWhile_append_dropWhile
  have hstay : ∀ p ∈ rest, s.goes now p = false := by
    intro p hp
    simpa using List.all_eq_true.1 hfront p hp
  have hgo : ∀ p ∈ gone, s.goes now p = true := fun p hp => List.mem_takeWhile_imp hp
  have hclean : cleanMsgs now a (s.nextId + 1) q.pMsg s = _ := cleanMsgs_spec h.prev hq
    (by rw [hsplit]; exact hl) hgo hstay (by rw [hsplit]; exact Nat.le_succ_of_le hlen)
  have hu := h.without hq (by rw [hsplit]; exact hl)
  have hgone_iff : ∀ p d, s.heap p = some d →
      (p ∈ gone ↔ d.pRecipQueue ∈ [a] ∧ d.goes now = true) := by
    intro p d hd
    have hgoes : s.goes now p = d.goes now := by simp [Store.goes, hd]
    constructor
    · intro hp
      obtain ⟨d', hd', hda⟩ := (hmem p).1 (by rw [← hsplit]; exact List.mem_append_left _ hp)
      obtain rfl : d = d' := by simpa [hd] using hd'
      exact ⟨by simp [hda], by rw [← hgoes]; exact hgo p hp⟩
    · rintro ⟨hda, hg⟩
      have hin := (hmem p).2 ⟨d, hd, by simpa using hda⟩
      rw [← hsplit, List.mem_append] at hin
      refine hin.resolve_right fun hr => ?_
      rw [← hgoes, hstay p hr] at hg
      cases hg
  refine ⟨_, _, hclean, hu, rfl, rfl, rfl, fun p d hd => ?_, fun p hp => ?_, fun b => ?_, fun b => ?_, ?_⟩
  · show (if p ∈ gone then none else s.heap p) = _
    rw [hd]
    exact if_congr (hgone_iff p d hd) rfl rfl
  · show (if p ∈ gone then none else s.heap p) = none
    rw [hp, ite_self]
  · by_cases hb : b = a
    · subst hb
      exact .inr ⟨q, rest.head?, hq, by simp [Store.without]⟩
    · have hrb : (s.without a q gone rest.head?).recip b = s.recip b := by
        simp [Store.without, hb]
      rw [hrb]
      cases hsb : s.recip b with
      | none => exact .inl ⟨rfl, rfl⟩
      | some qb => exact .inr ⟨qb, qb.pMsg, rfl, rfl⟩
  · have hkeep : ∀ p, p ∉ gone → (s.without a q gone rest.head?).heap p = s.heap p :=
      fun p hp => if_neg hp
    by_cases hb : b = a
    · subst hb
      have hdrop := hl.drop gone.length
      rw [← hsplit, List.drop_left] at hdrop
      have hrestnot : ∀ p ∈ rest, p ∉ gone := fun p hp hg => by
        rw [← hsplit, List.nodup_append] at hnodup
        exact hnodup.2.2 p hg p hp rfl
      rw [if_pos (List.mem_singleton_self _), hmsgs, filter_split hfront]
      refine hu.msgs_eq ⟨{ q with pMsg := rest.head? }, by simp [Store.without], ?_⟩
      refine hdrop.frame fun p hp => ?_
      unfold Store.nextOf
      rw [hkeep p (hrestnot p hp)]
    · rw [if_neg (by simpa using hb)]
      have hrb : (s.without a q gone rest.head?).recip b = s.recip b := by
        simp [Store.without, hb]
      cases hsb : s.recip b with
      | none => simp [Store.msgs, hrb, hsb]
      | some qb =>
        obtain ⟨lb, hlb, hmemb, -, -⟩ := h.listOf hsb
        rw [h.msgs_eq ⟨qb, hsb, hlb⟩]
        refine hu.msgs_eq ⟨qb, by rw [hrb, hsb], hlb.frame fun p hp => ?_⟩
        unfold Store.nextOf
        rw [hkeep p fun hg => ?_]
        -- a message is in one list only
        obtain ⟨d, hd, hda⟩ := (hmemb p).1 hp
        have hin := ((hgone_iff p d hd).1 hg).1
        exact hb (hda.symm.trans (by simpa using hin))
  · rw [List.flatMap_cons, List.flatMap_nil, List.append_nil, hmsgs]
    refine (filterMap_split hfront fun p hp => ?_).symm
    cases hd : s.heap p with
    | none => simp [Store.report, hd]
    | some d =>
      simp only [Store.goes, hd, Option.any_some, ControlData.goes, Bool.or_eq_false_iff] at hp
      simp [Store.report, hd, hp.2]

/-- A message that has stayed. -/
theorem Cleaned.kept {rs : List EmsdAddr} {out : List NonDel} (hc : Cleaned now rs s t out)
    (hp : t.heap p = some d) : s.heap p = some d := by
  cases hs : s.heap p with
  | none =>
    rw [hc.gone p hs] at hp
    cases hp
  | some d' =>
    rw [hc.heap p d' hs] at hp
    split at hp
    · cases hp
    · exact hp

/-- A message that a call of `msg_cleanQueue` has freed. -/
theorem Cleaned.gone_goes {out : List NonDel}
    (hc : Cleaned now (if s.cleans now then s.recips else []) s t out) (hp : s.heap p = some d)
    (hn : t.heap p = none) : s.cleans now = true ∧ d.goes now = true := by
  have hgo := hc.heap p d hp
  rw [hn] at hgo
  cases hcl : s.cleans now with
  | true =>
    by_contra hno
    rw [if_neg fun hin => hno ⟨rfl, hin.2⟩] at hgo
    cases hgo
  | false =>
    rw [hcl, if_neg fun hin => absurd hin.1 (by simp)] at hgo
    cases hgo

theorem Cleaned.nil : Cleaned now [] s s [] := by
  refine ⟨rfl, rfl, rfl, fun p d hd => by simp [hd], fun p hp => hp, fun a => ?_, fun a => by simp, rfl⟩
  cases hq : s.recip a with
  | none => exact .inl ⟨rfl, rfl⟩
  | some q => exact .inr ⟨q, q.pMsg, rfl, rfl⟩

theorem Cleaned.cons {u : Store} {rs : List EmsdAddr} {out out' : List NonDel} (h : StoreOk s)
    (ha : a ∉ rs) (h₁ : Cleaned now [a] s u out) (h₂ : Cleaned now rs u t out') :
    Cleaned now (a :: rs) s t (out ++ out') := by
  have hne : ∀ b ∈ rs, b ∉ [a] := by
    intro b hb hba
    rw [List.mem_singleton.1 hba] at hb
    exact ha hb
  refine ⟨h₂.recips.trans h₁.recips, h₂.nextId.trans h₁.nextId, h₂.nextAttempt.trans h₁.nextAttempt,
    fun p d hd => ?_, fun p hp => h₂.gone p (h₁.gone p hp), fun b => ?_, fun b => ?_, ?_⟩
  · have hu := h₁.heap p d hd
    split at hu
    · rename_i hgo
      rw [h₂.gone p hu, if_pos ⟨List.mem_cons.2 (.inl (List.mem_singleton.1 hgo.1)), hgo.2⟩]
    · rename_i hgo
      rw [h₂.heap p d hu]
      refine if_congr ⟨fun hin => ⟨List.mem_cons_of_mem _ hin.1, hin.2⟩, fun hin => ?_⟩ rfl rfl
      refine ⟨(List.mem_cons.1 hin.1).resolve_left fun hda => hgo ⟨?_, hin.2⟩, hin.2⟩
      exact List.mem_singleton.2 hda
  · rcases h₁.recip b with ⟨hs, hu⟩ | ⟨q, m, hs, hu⟩
    · rcases h₂.recip b with ⟨-, ht⟩ | ⟨q, m, hu', -⟩
      · exact .inl ⟨hs, ht⟩
      · rw [hu] at hu'
        cases hu'
    · rcases h₂.recip b with ⟨hu', -⟩ | ⟨q', m', hu', ht⟩
      · rw [hu] at hu'
        cases hu'
      · obtain rfl := Option.some.inj (hu.symm.trans hu')
        exact .inr ⟨q, m', hs, ht⟩
  · rw [h₂.msgs b, h₁.msgs b]
    by_cases hb : b ∈ rs
    · rw [if_pos hb, if_neg (hne b hb), if_pos (List.mem_cons_of_mem _ hb)]
      refine List.filter_congr fun p hp => ?_
      unfold Store.goes
      rw [h₁.heap_eq h (hne b hb) hp]
    · rw [if_neg hb]
      exact if_congr (by simp [hb]) rfl rfl
  · rw [h₁.out, h₂.out, List.flatMap_cons, List.flatMap_nil, List.append_nil, List.flatMap_cons]
    congr 1
    refine List.flatMap_congr fun b hb => ?_
    rw [h₁.msgs b, if_neg (hne b hb)]
    refine List.filterMap_congr fun p hp => ?_
    unfold Store.report
    rw [h₁.heap_eq h (hne b hb) hp]

theorem cleanRecips_spec (h : StoreOk s) {rs : List EmsdAddr} (hrs : rs.Nodup)
    (hknown : ∀ a ∈ rs, s.recip a ≠ none) (hfront : ∀ a ∈ rs, s.frontOnly now a = true) :
    ∃ t out, cleanRecips now rs s = some (t, out) ∧ StoreOk t ∧ Cleaned now rs s t out := by
  induction rs generalizing s with
  | nil => exact ⟨s, [], rfl, h, .nil⟩
  | cons a rs ih =>
    obtain ⟨ha, hrs⟩ := List.nodup_cons.1 hrs
    obtain ⟨q, hq⟩ := Option.ne_none_iff_exists'.1 (hknown a List.mem_cons_self)
    obtain ⟨u, out, hclean, hu, h₁⟩ := cleaned_one h hq (hfront a List.mem_cons_self)
    have hne : ∀ b ∈ rs, b ∉ [a] := by
      intro b hb hba
      rw [List.mem_singleton.1 hba] at hb
      exact ha hb
    have hknown' : ∀ b ∈ rs, u.recip b ≠ none := by
      intro b hb
      rcases h₁.recip b with ⟨hs, -⟩ | ⟨q, m, -, hub⟩
      · exact absurd hs (hknown b (List.mem_cons_of_mem _ hb))
      · rw [hub]
        exact Option.some_ne_none _
    have hfront' : ∀ b ∈ rs, u.frontOnly now b = true := by
      intro b hb
      have hfb := hfront b (List.mem_cons_of_mem _ hb)
      unfold Store.frontOnly at hfb ⊢
      rw [h₁.msgs b, if_neg (hne b hb), all_dropWhile_congr fun p hp => ?_]
      · exact hfb
      · unfold Store.goes
        rw [h₁.heap_eq h (hne b hb) hp]
    obtain ⟨t, out', ht, htok, h₂⟩ := ih hu hrs hknown' hfront'
    refine ⟨t, out ++ out', ?_, htok, h₁.cons h ha h₂⟩
    simp only [cleanRecips, hq, Option.bind_eq_bind, Option.bind_some, hclean, ht]

/-- Where the cleaner finds every message that goes at the front of its list. -/
def Store.cleanSafe (s : Store) (now : Time) : Bool :=
  !s.cleans now || s.recips.all (s.frontOnly now)

/-- **Cleaning**: the messages that go leave their lists, and memory; the others stay. -/
theorem msgCleanQueue_spec (h : StoreOk s) (hsafe : s.cleanSafe now = true) :
    ∃ t out, msgCleanQueue s now = some (t, out) ∧ StoreOk t ∧
      Cleaned now (if s.cleans now then s.recips else []) s t out := by
  unfold msgCleanQueue
  by_cases hc : s.cleans now = true
  · have hfront : ∀ a ∈ s.recips, s.frontOnly now a = true := by
      simpa [Store.cleanSafe, hc] using hsafe
    have h' : StoreOk { s with lastClean := now } := h.sameLinks ⟨rfl, rfl, fun _ => rfl, fun _ => rfl⟩
    obtain ⟨t, out, ht, htok, hcl⟩ := cleanRecips_spec h' h.recipsNodup
      (fun a ha => (h.known a).1 ha) hfront
    refine ⟨{ t with dumpDeliveryQueue := false }, out, ?_,
      htok.sameLinks ⟨rfl, rfl, fun _ => rfl, fun _ => rfl⟩, ?_⟩
    · simp only [hc, if_true, ht, Option.bind_eq_bind, Option.bind_some]
    · rw [if_pos hc]
      exact ⟨hcl.recips, hcl.nextId, hcl.nextAttempt, hcl.heap, hcl.gone, hcl.recip, hcl.msgs, hcl.out⟩
  · rw [if_neg hc, if_neg hc]
    exact ⟨s, [], rfl, h, .nil⟩

end Mts
