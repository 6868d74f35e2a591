import Mathlib.Data.List.Chain
import Mathlib.Data.List.Nodup
import Mathlib.Data.Set.Insert
import Mathlib.Logic.Function.Basic
import Mathlib.Tactic.Common

/-!
# Rings of doubly linked nodes

Every node has a successor and a predecessor; a node that is on no ring is one of its own. Insertion
puts the whole ring of a node before another node: one node if it was alone, a **splice** of two
rings if it was not.

* `IsRing.insert`: what insertion does to the two rings, and `IsRing.frame` to every other one.
* `IsRing.insertAll`: nodes that were alone become the ring, in order.
* `IsCycle.splice`, `IsCycle.remove`, `IsCycle.remove_insert`: insertion and removal at any place of a
  ring, which may be read from any of its nodes on.
* `IsRing.unique`: the nodes of a ring are those that the successors lead to.
* `Coherent.insert`, `Coherent.remove`: whatever is inserted or removed, successors and predecessors
  agree.
-/

namespace Ring

variable {α : Type*}

/-- The successor and the predecessor of each node. -/
structure Links (α : Type*) where
  next : α → α
  prev : α → α

/-- Every node is a ring of its own. -/
def alone : Links α := ⟨id, id⟩

/-- An edge from one node to the next. -/
def Edge (l : Links α) (a b : α) : Prop := l.next a = b ∧ l.prev b = a

/-- The nodes `xs`, in order, are the ring of `h`. -/
structure IsRing (l : Links α) (h : α) (xs : List α) : Prop where
  chain : (h :: xs).IsChain (Edge l)
  closes : ∀ a ∈ (h :: xs).getLast?, Edge l a h
  nodup : (h :: xs).Nodup

variable {l : Links α} {h g x y a : α} {xs ys zs : List α}

/-! ## Rings -/

theorem IsRing.alone (hn : l.next x = x) (hp : l.prev x = x) : IsRing l x [] where
  chain := .singleton x
  closes := by
    intro a ha
    obtain rfl : x = a := by simpa using ha
    exact ⟨hn, hp⟩
  nodup := List.nodup_singleton x

/-- The predecessor of a node is the last one of its ring. -/
theorem IsRing.last (hr : IsRing l h xs) : (h :: xs).getLast? = some (l.prev h) := by
  obtain ⟨a, ha⟩ : ∃ a, (h :: xs).getLast? = some a := by
    rw [← Option.isSome_iff_exists]
    simp
  rw [ha, (hr.closes a ha).2]

theorem IsRing.prev_mem (hr : IsRing l h xs) : l.prev h ∈ h :: xs :=
  List.mem_of_getLast? hr.last

/-- The successor of a node is the first one of its ring. -/
theorem IsRing.next (hr : IsRing l h (x :: xs)) : l.next h = x :=
  (List.isChain_cons_cons.1 hr.chain).1.1

theorem IsRing.next_alone (hr : IsRing l h []) : l.next h = h := (hr.closes h rfl).1

theorem IsRing.next_mem (hr : IsRing l h xs) : l.next h ∈ h :: xs := by
  cases xs with
  | nil =>
    rw [hr.next_alone]
    exact List.mem_cons_self
  | cons x xs =>
    rw [hr.next]
    exact List.mem_cons_of_mem _ List.mem_cons_self

/-- A ring may be entered at its next node. -/
theorem IsRing.rotate (hr : IsRing l h (x :: xs)) : IsRing l x (xs ++ [h]) := by
  obtain ⟨hedge, hchain⟩ := List.isChain_cons_cons.1 hr.chain
  have hlast : (h :: x :: xs).getLast? = (x :: xs).getLast? := by simp
  constructor
  · rw [← List.cons_append, List.isChain_append]
    refine ⟨hchain, .singleton h, ?_⟩
    intro a ha b hb
    obtain rfl : h = b := Option.some.inj hb
    exact hr.closes a (hlast ▸ ha)
  · intro a ha
    rw [← List.cons_append, List.getLast?_concat] at ha
    obtain rfl : h = a := Option.some.inj ha
    exact hedge
  · rw [← List.cons_append]
    have hperm : (h :: x :: xs).Perm (x :: xs ++ [h]) := (List.perm_append_singleton h _).symm
    exact hperm.nodup hr.nodup

/-- A chain from a node on is where the successors lead to. -/
theorem chain_unique (hx : (a :: xs).IsChain (Edge l)) (hy : (a :: ys).IsChain (Edge l))
    (hcx : ∀ b ∈ (a :: xs).getLast?, l.next b = h) (hcy : ∀ b ∈ (a :: ys).getLast?, l.next b = h)
    (hnx : h ∉ xs) (hny : h ∉ ys) : xs = ys := by
  induction xs generalizing a ys with
  | nil =>
    have hnext : l.next a = h := hcx a rfl
    cases ys with
    | nil => rfl
    | cons y ys =>
      have hy' : l.next a = y := (List.isChain_cons_cons.1 hy).1.1
      exact absurd (hnext ▸ hy' ▸ List.mem_cons_self) hny
  | cons x xs ih =>
    obtain ⟨hedge, hx⟩ := List.isChain_cons_cons.1 hx
    cases ys with
    | nil =>
      have hnext : l.next a = h := hcy a rfl
      exact absurd (hnext ▸ hedge.1 ▸ List.mem_cons_self) hnx
    | cons y ys =>
      obtain ⟨hedge', hy⟩ := List.isChain_cons_cons.1 hy
      obtain rfl : x = y := hedge.1.symm.trans hedge'.1
      rw [ih hx hy (by simpa using hcx) (by simpa using hcy)
        (fun hm => hnx (List.mem_cons_of_mem _ hm)) fun hm => hny (List.mem_cons_of_mem _ hm)]

/-- **The nodes of a ring** are those that the successors lead to. -/
theorem IsRing.unique (hx : IsRing l h xs) (hy : IsRing l h ys) : xs = ys :=
  chain_unique hx.chain hy.chain (fun b hb => (hx.closes b hb).1) (fun b hb => (hy.closes b hb).1)
    (List.nodup_cons.1 hx.nodup).1 (List.nodup_cons.1 hy.nodup).1

/-- The edges inside of a list do not leave its last node nor enter its first one. -/
theorem chain_congr {l' : Links α} (hc : (x :: xs).IsChain (Edge l)) (hd : (x :: xs).Nodup)
    (hnext : ∀ a ∈ x :: xs, some a ≠ (x :: xs).getLast? → l'.next a = l.next a)
    (hprev : ∀ a ∈ xs, l'.prev a = l.prev a) : (x :: xs).IsChain (Edge l') := by
  induction xs generalizing x with
  | nil => exact .singleton x
  | cons y xs ih =>
    rw [List.isChain_cons_cons] at hc ⊢
    obtain ⟨⟨hn, hp⟩, htail⟩ := hc
    obtain ⟨hx, hd⟩ := List.nodup_cons.1 hd
    have hlast : (x :: y :: xs).getLast? = (y :: xs).getLast? := by simp
    have hxlast : some x ≠ (y :: xs).getLast? := fun he => hx (List.mem_of_getLast? he.symm)
    refine ⟨⟨?_, ?_⟩, ih htail hd ?_ ?_⟩
    · rw [hnext x List.mem_cons_self (by rw [hlast]; exact hxlast), hn]
    · rw [hprev y List.mem_cons_self, hp]
    · intro a ha hne
      exact hnext a (List.mem_cons_of_mem _ ha) (by rw [hlast]; exact hne)
    · intro a ha
      exact hprev a (List.mem_cons_of_mem _ ha)

theorem IsRing.congr {l' : Links α} (hg : IsRing l g ys) (hnext : ∀ a ∈ g :: ys, l'.next a = l.next a)
    (hprev : ∀ a ∈ g :: ys, l'.prev a = l.prev a) : IsRing l' g ys := by
  refine ⟨?_, ?_, hg.nodup⟩
  · exact chain_congr hg.chain hg.nodup (fun a ha _ => hnext a ha) fun a ha =>
      hprev a (List.mem_cons_of_mem _ ha)
  · intro a ha
    obtain ⟨hn, hp⟩ := hg.closes a ha
    exact ⟨by rw [hnext a (List.mem_of_getLast? ha), hn], by rw [hprev g List.mem_cons_self, hp]⟩

/-! ## Insertion and removal -/

section

variable [DecidableEq α]

/-- The node `x`, and its ring with it, is put before the node `y`. -/
def insert (l : Links α) (x y : α) : Links α where
  next := Function.update (Function.update l.next (l.prev y) x) (l.prev x) y
  prev := Function.update (Function.update l.prev x (l.prev y)) y (l.prev x)

/-- The node `x` is taken out of its ring. -/
def remove (l : Links α) (x : α) : Links α where
  next := Function.update (Function.update l.next (l.prev x) (l.next x)) x x
  prev := Function.update (Function.update l.prev (l.next x) (l.prev x)) x x

@[simp]
theorem insert_next_prev (l : Links α) (x y : α) : (insert l x y).next (l.prev x) = y :=
  Function.update_self ..

@[simp]
theorem insert_prev (l : Links α) (x y : α) : (insert l x y).prev y = l.prev x :=
  Function.update_self ..

theorem insert_next_before (hne : l.prev y ≠ l.prev x) :
    (insert l x y).next (l.prev y) = x := by
  show Function.update _ _ _ _ = _
  rw [Function.update_of_ne hne, Function.update_self]

theorem insert_prev_first (hne : x ≠ y) : (insert l x y).prev x = l.prev y := by
  show Function.update _ _ _ _ = _
  rw [Function.update_of_ne hne, Function.update_self]

theorem insert_next_other (hy : a ≠ l.prev y) (hx : a ≠ l.prev x) :
    (insert l x y).next a = l.next a := by
  show Function.update _ _ _ _ = _
  rw [Function.update_of_ne hx, Function.update_of_ne hy]

theorem insert_prev_other (hx : a ≠ x) (hy : a ≠ y) : (insert l x y).prev a = l.prev a := by
  show Function.update _ _ _ _ = _
  rw [Function.update_of_ne hy, Function.update_of_ne hx]

/-- **A ring is put before a node of another one.** -/
theorem IsRing.insert (hh : IsRing l h xs) (hx : IsRing l x zs)
    (hdisj : (h :: xs).Disjoint (x :: zs)) : IsRing (insert l x h) h (xs ++ x :: zs) := by
  have hlasth := hh.last
  have hlastx := hx.last
  have hne : l.prev h ≠ l.prev x := fun he => hdisj hh.prev_mem (he ▸ hx.prev_mem)
  have hxh : x ≠ h := fun he => hdisj List.mem_cons_self (he ▸ List.mem_cons_self)
  have hlast : (h :: (xs ++ x :: zs)).getLast? = some (l.prev x) := by
    rw [← List.cons_append, List.getLast?_append_of_ne_nil _ (List.cons_ne_nil _ _), hlastx]
  constructor
  · rw [← List.cons_append, List.isChain_append]
    refine ⟨chain_congr hh.chain hh.nodup ?_ ?_, chain_congr hx.chain hx.nodup ?_ ?_, ?_⟩
    · intro a ha hna
      rw [hlasth] at hna
      refine insert_next_other (fun he => hna (congrArg some he)) fun he => ?_
      exact hdisj ha (he ▸ hx.prev_mem)
    · intro a ha
      have hax : a ≠ x := by
        rintro rfl
        exact hdisj (List.mem_cons_of_mem _ ha) List.mem_cons_self
      exact insert_prev_other hax fun he => (List.nodup_cons.1 hh.nodup).1 (he ▸ ha)
    · intro a ha hna
      rw [hlastx] at hna
      refine insert_next_other (fun he => ?_) fun he => hna (congrArg some he)
      exact hdisj hh.prev_mem (he ▸ ha)
    · intro a ha
      have hah : a ≠ h := by
        rintro rfl
        exact hdisj List.mem_cons_self (List.mem_cons_of_mem _ ha)
      exact insert_prev_other (fun he => (List.nodup_cons.1 hx.nodup).1 (he ▸ ha)) hah
    · -- the edge between the two
      intro a ha b hb
      rw [hlasth] at ha
      obtain rfl : l.prev h = a := Option.some.inj ha
      obtain rfl : x = b := Option.some.inj hb
      exact ⟨insert_next_before hne, insert_prev_first hxh⟩
  · intro a ha
    rw [hlast] at ha
    obtain rfl : l.prev x = a := Option.some.inj ha
    exact ⟨insert_next_prev l x h, insert_prev l x h⟩
  · rw [← List.cons_append]
    exact List.nodup_append'.2 ⟨hh.nodup, hx.nodup, hdisj⟩

/-- The other rings stay as they are. -/
theorem IsRing.frame (hg : IsRing l g ys) (hh : IsRing l h xs) (hx : IsRing l x zs)
    (hgh : (g :: ys).Disjoint (h :: xs)) (hgx : (g :: ys).Disjoint (x :: zs)) :
    IsRing (Ring.insert l x h) g ys := by
  have hnext : ∀ a ∈ g :: ys, (Ring.insert l x h).next a = l.next a := by
    intro a ha
    exact insert_next_other (fun he => hgh ha (he ▸ hh.prev_mem))
      fun he => hgx ha (he ▸ hx.prev_mem)
  have hprev : ∀ a ∈ g :: ys, (Ring.insert l x h).prev a = l.prev a := by
    intro a ha
    refine insert_prev_other ?_ ?_
    · rintro rfl
      exact hgx ha List.mem_cons_self
    · rintro rfl
      exact hgh ha List.mem_cons_self
  exact hg.congr hnext hprev

/-- **Nodes that were alone** are put on a ring one after the other, and no other ring changes. -/
theorem IsRing.insertAll (hh : IsRing l h xs) (ys : List α) (halone : ∀ y ∈ ys, IsRing l y [])
    (hd : ys.Nodup) (hdisj : (h :: xs).Disjoint ys) :
    IsRing (ys.foldl (fun l y => Ring.insert l y h) l) h (xs ++ ys) ∧
      ∀ g zs, IsRing l g zs → (g :: zs).Disjoint (h :: xs) → (g :: zs).Disjoint ys →
        IsRing (ys.foldl (fun l y => Ring.insert l y h) l) g zs := by
  induction ys generalizing l xs with
  | nil =>
    rw [List.append_nil]
    exact ⟨hh, fun g zs hg _ _ => hg⟩
  | cons y ys ih =>
    obtain ⟨hy, hd⟩ := List.nodup_cons.1 hd
    have hyalone := halone y List.mem_cons_self
    have hsingle : ∀ {g : α} {zs : List α}, (g :: zs).Disjoint (y :: ys) →
        (g :: zs).Disjoint [y] := by
      intro g zs hg a ha hay
      obtain rfl := List.mem_singleton.1 hay
      exact hg ha List.mem_cons_self
    have hinsert : IsRing (Ring.insert l y h) h (xs ++ [y]) := hh.insert hyalone (hsingle hdisj)
    have hframe : ∀ {g : α} {zs : List α}, IsRing l g zs → (g :: zs).Disjoint (h :: xs) →
        (g :: zs).Disjoint [y] → IsRing (Ring.insert l y h) g zs := by
      intro g zs hg hgh hgy
      exact hg.frame hh hyalone hgh hgy
    have hrest := ih hinsert ?_ hd ?_
    · rw [List.append_assoc] at hrest
      refine ⟨hrest.1, fun g zs hg hgh hgy => hrest.2 g zs (hframe hg hgh (hsingle hgy)) ?_ ?_⟩
      · intro a ha hxs
        rw [← List.cons_append, List.mem_append] at hxs
        rcases hxs with hxs | hay
        · exact hgh ha hxs
        · exact hsingle hgy ha hay
      · intro a ha hays
        exact hgy ha (List.mem_cons_of_mem _ hays)
    · intro z hz
      refine hframe (halone z (List.mem_cons_of_mem _ hz)) ?_ ?_
      · intro a haz ha
        obtain rfl := List.mem_singleton.1 haz
        exact hdisj ha (List.mem_cons_of_mem _ hz)
      · intro a haz hay
        obtain rfl := List.mem_singleton.1 haz
        obtain rfl := List.mem_singleton.1 hay
        exact hy hz
    · intro a ha hays
      rw [← List.cons_append, List.mem_append] at ha
      rcases ha with ha | ha
      · exact hdisj ha (List.mem_cons_of_mem _ hays)
      · obtain rfl := List.mem_singleton.1 ha
        exact hy hays

/-- **The first node of a ring is taken out**, and the ring goes on from the next one. -/
theorem IsRing.remove (hx : IsRing l x (y :: ys)) : IsRing (Ring.remove l x) y ys := by
  obtain ⟨hedge, hchain⟩ := List.isChain_cons_cons.1 hx.chain
  obtain ⟨hnot, hnodup⟩ := List.nodup_cons.1 hx.nodup
  have hlast : (y :: ys).getLast? = some (l.prev x) := by
    rw [← hx.last]
    simp
  have hmem : l.prev x ∈ y :: ys := List.mem_of_getLast? hlast
  have hnext : ∀ a ∈ y :: ys, a ≠ l.prev x → (Ring.remove l x).next a = l.next a := by
    intro a ha hne
    show Function.update _ _ _ _ = _
    rw [Function.update_of_ne (fun he : a = x => hnot (he ▸ ha)), Function.update_of_ne hne]
  refine ⟨?_, ?_, hnodup⟩
  · refine chain_congr hchain hnodup (fun a ha hna => hnext a ha fun he => ?_) fun a ha => ?_
    · rw [he, hlast] at hna
      exact hna rfl
    · have hay : a ≠ y := fun he => (List.nodup_cons.1 hnodup).1 (he ▸ ha)
      have hax : a ≠ x := fun he => hnot (he ▸ List.mem_cons_of_mem y ha)
      show Function.update _ _ _ _ = _
      rw [Function.update_of_ne hax, hx.next, Function.update_of_ne hay]
  · -- the last node is closed with the next one
    intro a ha
    rw [hlast] at ha
    obtain rfl : l.prev x = a := Option.some.inj ha
    constructor
    · show Function.update _ _ _ _ = _
      rw [Function.update_of_ne (fun he : l.prev x = x => hnot (he ▸ hmem)), Function.update_self,
        hx.next]
    · show Function.update _ _ _ _ = _
      rw [Function.update_of_ne (fun he : y = x => hnot (he ▸ List.mem_cons_self)), hx.next,
        Function.update_self]

/-- The node that is taken out is alone. -/
theorem remove_alone (l : Links α) (x : α) : IsRing (Ring.remove l x) x [] :=
  .alone (Function.update_self ..) (Function.update_self ..)

/-- The rings of other nodes stay as they are. -/
theorem IsRing.remove_frame (hg : IsRing l g ys) (hx : IsRing l x zs)
    (hdisj : (g :: ys).Disjoint (x :: zs)) : IsRing (Ring.remove l x) g ys := by
  have hself : ∀ a ∈ g :: ys, a ≠ x := fun a ha he => hdisj ha (he ▸ List.mem_cons_self)
  have hnext : ∀ a ∈ g :: ys, (Ring.remove l x).next a = l.next a := by
    intro a ha
    show Function.update _ _ _ _ = _
    rw [Function.update_of_ne (hself a ha), Function.update_of_ne]
    exact fun he => hdisj ha (he ▸ hx.prev_mem)
  have hprev : ∀ a ∈ g :: ys, (Ring.remove l x).prev a = l.prev a := by
    intro a ha
    show Function.update _ _ _ _ = _
    rw [Function.update_of_ne (hself a ha), Function.update_of_ne]
    exact fun he => hdisj ha (he ▸ hx.next_mem)
  exact hg.congr hnext hprev

/-- **A node that was alone is put in and taken out**, and every link is as it was. -/
theorem IsRing.remove_insert (hx : IsRing l x []) (hy : IsRing l y ys) (hxy : x ∉ y :: ys) :
    Ring.remove (Ring.insert l x y) x = l := by
  have hprevx : l.prev x = x := by
    have hmem := hx.prev_mem
    exact List.mem_singleton.1 hmem
  have hnextx : l.next x = x := hx.next_alone
  have hne : x ≠ y := fun he => hxy (he ▸ List.mem_cons_self)
  have hlast : l.prev y ≠ x := fun he => hxy (he ▸ hy.prev_mem)
  have hnexty : l.next (l.prev y) = y := (hy.closes _ hy.last).1
  have hnext : (Ring.insert l x y).next x = y := by
    have hx' := insert_next_prev l x y
    rw [hprevx] at hx'
    exact hx'
  have hprev : (Ring.insert l x y).prev x = l.prev y := insert_prev_first hne
  have hself : (Ring.insert l x y).prev y = x := by rw [insert_prev, hprevx]
  have hnexts : (Ring.remove (Ring.insert l x y) x).next = l.next := by
    funext a
    show Function.update (Function.update _ _ _) _ _ a = _
    rw [hprev, hnext]
    by_cases hax : a = x
    · rw [hax, Function.update_self, hnextx]
    rw [Function.update_of_ne hax]
    by_cases hay : a = l.prev y
    · rw [hay, Function.update_self, hnexty]
    · rw [Function.update_of_ne hay, insert_next_other hay (by rw [hprevx]; exact hax)]
  have hprevs : (Ring.remove (Ring.insert l x y) x).prev = l.prev := by
    funext a
    show Function.update (Function.update _ _ _) _ _ a = _
    rw [hprev, hnext]
    by_cases hax : a = x
    · rw [hax, Function.update_self, hprevx]
    rw [Function.update_of_ne hax]
    by_cases hay : a = y
    · rw [hay, Function.update_self]
    · rw [Function.update_of_ne hay, insert_prev_other hax hay]
  calc Ring.remove (Ring.insert l x y) x
      = ⟨(Ring.remove (Ring.insert l x y) x).next, (Ring.remove (Ring.insert l x y) x).prev⟩ := rfl
    _ = l := by rw [hnexts, hprevs]

/-! ## Rings from any node on -/

/-- The nodes of a ring, in order, from any of them on. -/
def IsCycle (l : Links α) : List α → Prop
  | [] => False
  | h :: xs => IsRing l h xs

omit [DecidableEq α] in
theorem IsCycle.rotate_one (h : IsCycle l (x :: xs)) : IsCycle l (xs ++ [x]) := by
  cases xs with
  | nil => exact h
  | cons y ys => exact IsRing.rotate h

omit [DecidableEq α] in
/-- **A ring may be read from any of its nodes on.** -/
theorem IsCycle.rotate (h : IsCycle l (xs ++ ys)) : IsCycle l (ys ++ xs) := by
  induction xs generalizing ys with
  | nil =>
    rw [List.append_nil]
    exact h
  | cons x xs ih =>
    have hcycle : IsCycle l (x :: (xs ++ ys)) := h
    have hone := hcycle.rotate_one
    rw [List.append_assoc] at hone
    have hrest := ih hone
    rw [List.append_assoc] at hrest
    exact hrest

omit [DecidableEq α] in
theorem IsCycle.ring (h : IsCycle l (xs ++ x :: ys)) : IsRing l x (ys ++ xs) := h.rotate

omit [DecidableEq α] in
theorem mem_rotate {as bs : List α} : a ∈ x :: (bs ++ as) ↔ a ∈ as ++ x :: bs := by
  rw [← List.cons_append, List.mem_append, or_comm, ← List.mem_append]

omit [DecidableEq α] in
theorem IsCycle.prev_mem (h : IsCycle l xs) (hx : x ∈ xs) : l.prev x ∈ xs := by
  obtain ⟨as, bs, rfl⟩ := List.append_of_mem hx
  exact mem_rotate.1 h.ring.prev_mem

omit [DecidableEq α] in
theorem IsCycle.next_mem (h : IsCycle l xs) (hx : x ∈ xs) : l.next x ∈ xs := by
  obtain ⟨as, bs, rfl⟩ := List.append_of_mem hx
  exact mem_rotate.1 h.ring.next_mem

/-- **Splice.** The ring of `x` is put before `y`, from `x` on. -/
theorem IsCycle.splice {as bs cs : List α} (hx : IsCycle l (as ++ x :: bs))
    (hy : IsCycle l (cs ++ y :: ys)) (hdisj : (as ++ x :: bs).Disjoint (cs ++ y :: ys)) :
    IsCycle (Ring.insert l x y) (cs ++ (x :: (bs ++ as) ++ y :: ys)) := by
  have hd : (y :: (ys ++ cs)).Disjoint (x :: (bs ++ as)) := by
    intro a hay hax
    exact hdisj (mem_rotate.1 hax) (mem_rotate.1 hay)
  have hring : IsRing (Ring.insert l x y) y (ys ++ cs ++ x :: (bs ++ as)) := hy.ring.insert hx.ring hd
  have hcycle : IsCycle (Ring.insert l x y) ((y :: ys) ++ (cs ++ x :: (bs ++ as))) := by
    rw [List.cons_append, ← List.append_assoc]
    exact hring
  have hrotated := hcycle.rotate
  rw [List.append_assoc] at hrotated
  exact hrotated

/-- The other rings stay as they are. -/
theorem IsCycle.insert_frame {as bs cs : List α} (hz : IsCycle l zs) (hx : IsCycle l (as ++ x :: bs))
    (hy : IsCycle l (cs ++ y :: ys)) (hzx : zs.Disjoint (as ++ x :: bs))
    (hzy : zs.Disjoint (cs ++ y :: ys)) : IsCycle (Ring.insert l x y) zs := by
  cases zs with
  | nil => exact hz.elim
  | cons z zs =>
    refine IsRing.frame hz hy.ring hx.ring (fun a ha hay => ?_) fun a ha hax => ?_
    · exact hzy ha (mem_rotate.1 hay)
    · exact hzx ha (mem_rotate.1 hax)

/-- **Removal.** -/
theorem IsCycle.remove (hx : IsCycle l (xs ++ x :: ys)) :
    IsCycle (Ring.remove l x) [x] ∧ (xs ++ ys ≠ [] → IsCycle (Ring.remove l x) (xs ++ ys)) := by
  refine ⟨remove_alone l x, fun hne => IsCycle.rotate ?_⟩
  have hring := hx.ring
  match hrest : ys ++ xs with
  | [] =>
    obtain ⟨hys, hxs⟩ := List.append_eq_nil_iff.1 hrest
    exact absurd (List.append_eq_nil_iff.2 ⟨hxs, hys⟩) hne
  | y :: zs =>
    rw [hrest] at hring
    exact hring.remove

theorem IsCycle.remove_frame (hz : IsCycle l zs) (hx : IsCycle l (xs ++ x :: ys))
    (hzx : zs.Disjoint (xs ++ x :: ys)) : IsCycle (Ring.remove l x) zs := by
  cases zs with
  | nil => exact hz.elim
  | cons z zs => exact IsRing.remove_frame hz hx.ring fun a ha hax => hzx ha (mem_rotate.1 hax)

/-! ## Links of a set of nodes -/

/-- The nodes `E` are linked among themselves, backwards as forwards. -/
structure Coherent (l : Links α) (E : Set α) : Prop where
  next_mem : ∀ a ∈ E, l.next a ∈ E
  prev_mem : ∀ a ∈ E, l.prev a ∈ E
  next_prev : ∀ a ∈ E, l.next (l.prev a) = a
  prev_next : ∀ a ∈ E, l.prev (l.next a) = a

/-- A node on its own. -/
def isolate (l : Links α) (x : α) : Links α := ⟨Function.update l.next x x, Function.update l.prev x x⟩

namespace Coherent

variable {E E' : Set α}

omit [DecidableEq α] in
theorem prev_inj (h : Coherent l E) (hx : x ∈ E) (hy : y ∈ E) (he : l.prev x = l.prev y) : x = y := by
  rw [← h.next_prev x hx, he, h.next_prev y hy]

omit [DecidableEq α] in
/-- Backwards. -/
theorem flip (h : Coherent l E) : Coherent ⟨l.prev, l.next⟩ E :=
  ⟨h.prev_mem, h.next_mem, h.prev_next, h.next_prev⟩

/-- A new node. -/
theorem isolate (h : Coherent l E) (hx : x ∉ E) : Coherent (Ring.isolate l x) (Insert.insert x E) := by
  have hnext : ∀ {l : Links α}, Coherent l E → ∀ a ∈ Insert.insert x E,
      (Ring.isolate l x).next a ∈ Insert.insert x E ∧
        (Ring.isolate l x).prev ((Ring.isolate l x).next a) = a := by
    intro l h
    have hself : (Ring.isolate l x).next x = x ∧ (Ring.isolate l x).prev x = x :=
      ⟨Function.update_self .., Function.update_self ..⟩
    have hother : ∀ a ∈ E, (Ring.isolate l x).next a = l.next a ∧ (Ring.isolate l x).prev a = l.prev a := by
      intro a ha
      have hne : a ≠ x := fun he => hx (he ▸ ha)
      exact ⟨Function.update_of_ne hne .., Function.update_of_ne hne ..⟩
    rintro a (rfl | ha)
    · rw [hself.1, hself.2]
      exact ⟨Set.mem_insert a E, rfl⟩
    · rw [(hother a ha).1, (hother _ (h.next_mem a ha)).2]
      exact ⟨Set.mem_insert_of_mem x (h.next_mem a ha), h.prev_next a ha⟩
  exact ⟨fun a ha => (hnext h a ha).1, fun a ha => (hnext h.flip a ha).1,
    fun a ha => (hnext h.flip a ha).2, fun a ha => (hnext h a ha).2⟩

omit [DecidableEq α] in
/-- Nodes that are linked among themselves. -/
theorem restrict (h : Coherent l E) (hsub : E' ⊆ E) (hnext : ∀ a ∈ E', l.next a ∈ E')
    (hprev : ∀ a ∈ E', l.prev a ∈ E') : Coherent l E' :=
  ⟨hnext, hprev, fun a ha => h.next_prev a (hsub ha), fun a ha => h.prev_next a (hsub ha)⟩

/-- **Insertion**, of any node before any other one. -/
theorem insert (h : Coherent l E) (hx : x ∈ E) (hy : y ∈ E) : Coherent (Ring.insert l x y) E := by
  have hpx := h.prev_mem x hx
  have hpy := h.prev_mem y hy
  -- each node has the predecessor whose successor it is
  have hinv : ∀ a ∈ E, (Ring.insert l x y).prev a ∈ E ∧
      (Ring.insert l x y).next ((Ring.insert l x y).prev a) = a := by
    intro a ha
    by_cases hay : a = y
    · rw [hay, insert_prev]
      exact ⟨hpx, insert_next_prev l x y⟩
    by_cases hax : a = x
    · have hne : x ≠ y := fun he => hay (hax.trans he)
      rw [hax, insert_prev_first hne]
      exact ⟨hpy, insert_next_before fun he => hne (h.prev_inj hx hy he.symm)⟩
    · rw [insert_prev_other hax hay]
      refine ⟨h.prev_mem a ha, ?_⟩
      rw [insert_next_other (fun he => hay (h.prev_inj ha hy he)) fun he => hax (h.prev_inj ha hx he)]
      exact h.next_prev a ha
  have hnext : ∀ a ∈ E, (Ring.insert l x y).next a ∈ E ∧
      (Ring.insert l x y).prev ((Ring.insert l x y).next a) = a := by
    intro a ha
    by_cases hax : a = l.prev x
    · rw [hax, insert_next_prev]
      exact ⟨hy, insert_prev l x y⟩
    by_cases hay : a = l.prev y
    · have hne : l.prev y ≠ l.prev x := fun he => hax (hay.trans he)
      rw [hay, insert_next_before hne]
      exact ⟨hx, insert_prev_first fun he => hne (by rw [he])⟩
    · rw [insert_next_other hay hax]
      refine ⟨h.next_mem a ha, ?_⟩
      have hback := h.prev_next a ha
      rw [insert_prev_other (fun he => hax (by rw [← he, hback])) fun he => hay (by rw [← he, hback])]
      exact hback
  exact ⟨fun a ha => (hnext a ha).1, fun a ha => (hinv a ha).1, fun a ha => (hinv a ha).2,
    fun a ha => (hnext a ha).2⟩

/-- **Removal.** -/
theorem remove (h : Coherent l E) (hx : x ∈ E) : Coherent (Ring.remove l x) E := by
  have hall : ∀ {l : Links α}, Coherent l E → ∀ a ∈ E, (Ring.remove l x).next a ∈ E ∧
      (Ring.remove l x).prev ((Ring.remove l x).next a) = a := by
    intro l h a ha
    have hself : (Ring.remove l x).next x = x ∧ (Ring.remove l x).prev x = x :=
      ⟨Function.update_self .., Function.update_self ..⟩
    have hprev : ∀ b, b ≠ x → (Ring.remove l x).prev b = if b = l.next x then l.prev x else l.prev b :=
      fun b hb => (Function.update_of_ne hb ..).trans (Function.update_apply ..)
    have hpn := h.prev_next a ha
    have hpx := h.prev_next x hx
    by_cases hax : a = x
    · rw [hax, hself.1, hself.2]
      exact ⟨hx, rfl⟩
    have hnext : (Ring.remove l x).next a = if a = l.prev x then l.next x else l.next a :=
      (Function.update_of_ne hax ..).trans (Function.update_apply ..)
    rw [hnext]
    split
    · rename_i he
      have hne : l.next x ≠ x := by
        intro hf
        rw [hf] at hpx
        exact hax (he.trans hpx)
      rw [hprev _ hne, if_pos rfl]
      exact ⟨h.next_mem x hx, he.symm⟩
    · rename_i he
      have hne : l.next a ≠ x := fun hf => he (by rw [← hf, hpn])
      rw [hprev _ hne, if_neg fun hf => hax (by rw [← hpn, hf, hpx])]
      exact ⟨h.next_mem a ha, hpn⟩
  exact ⟨fun a ha => (hall h a ha).1, fun a ha => (hall h.flip a ha).1,
    fun a ha => (hall h.flip a ha).2, fun a ha => (hall h a ha).2⟩

end Coherent

end

end Ring
