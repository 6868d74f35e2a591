import Emsd.Sch.Scheduler
import Mathlib.Data.List.Perm.Basic
import Mathlib.Data.List.Perm.Lattice

/-!
# Every task is run once

What a step does to the queues is one of a few changes (`Change`, `step_change`), and each of them
keeps the books: which elements of the pool are where, which submissions wait, have run or have been
deleted, and in which order the pseudo-events come.

* `tasks_run_once`: **every task is run exactly once unless it is deleted, pseudo-events run in order,
  and the queues part the pool**, in every run in which `SCH_run` never finds a task after 201.
* `task_lost`: the task that it finds then is lost, with its element of the pool.
-/

namespace Sch

open Run

variable {max : Nat} {s s' : Sched} {h o : List Out} {i : Input}

/-! ## The books -/

def Out.ranTask : Out → Option SchInfo
  | ran t => some t
  | _ => none

def Out.deletedTask : Out → Option SchInfo
  | deleted t => some t
  | _ => none

/-- The tasks that have been called, and those that have been deleted, in order. -/
def ranTasks (h : List Out) : List SchInfo := h.filterMap Out.ranTask

def deletedTasks (h : List Out) : List SchInfo := h.filterMap Out.deletedTask

/-- The tasks that have been called and not returned, the innermost one first. -/
def Sched.running (s : Sched) : List SchInfo := s.frames.filterMap (·.running)

/-- The pseudo-events of a queue, by their submissions. -/
def pseudos (l : List SchInfo) : List Nat := (l.filter (·.isPseudo)).map (·.serial)

/-- Each element of the pool is in one queue or belongs to a running task, each submission waits or
is ready in one queue, has been called or has been deleted, and the pseudo-events that have been
called, are ready or wait come in the order of their submission. -/
structure Settled (max : Nat) (h : List Out) (s : Sched) : Prop where
  pool : (s.availSchInfo ++ (s.activeSchInfo ++ (s.runSchInfo ++ s.running)).map (·.slot)).Perm
    (List.range max)
  tasks : ((ranTasks h ++ (deletedTasks h ++ (s.runSchInfo ++ s.activeSchInfo))).map (·.serial)).Perm
    (List.range s.submits)
  order : (pseudos (ranTasks h ++ (s.runSchInfo ++ s.activeSchInfo))).Pairwise (· < ·)

@[simp] theorem ranTasks_append : ranTasks (h ++ o) = ranTasks h ++ ranTasks o := List.filterMap_append

@[simp] theorem deletedTasks_append : deletedTasks (h ++ o) = deletedTasks h ++ deletedTasks o :=
  List.filterMap_append

@[simp] theorem ranTasks_ret (v : Int) : ranTasks [.ret v] = [] := rfl

@[simp] theorem deletedTasks_ret (v : Int) : deletedTasks [.ret v] = [] := rfl

theorem ranTasks_rets (n : Nat) (v : Int) : ranTasks (List.replicate n (.ret v)) = [] := by
  refine List.filterMap_eq_nil_iff.2 fun o ho => ?_
  rw [List.eq_of_mem_replicate ho]
  rfl

theorem deletedTasks_rets (n : Nat) (v : Int) : deletedTasks (List.replicate n (.ret v)) = [] := by
  refine List.filterMap_eq_nil_iff.2 fun o ho => ?_
  rw [List.eq_of_mem_replicate ho]
  rfl

theorem ranTasks_rans (ts : List SchInfo) : ranTasks (ts.map .ran) = ts := by
  unfold ranTasks
  rw [List.filterMap_map]
  exact List.filterMap_some

theorem deletedTasks_rans (ts : List SchInfo) : deletedTasks (ts.map .ran) = [] := by
  refine List.filterMap_eq_nil_iff.2 fun o ho => ?_
  obtain ⟨t, -, rfl⟩ := List.mem_map.1 ho
  rfl

@[simp] theorem pseudos_append (a b : List SchInfo) : pseudos (a ++ b) = pseudos a ++ pseudos b := by
  simp [pseudos]

@[simp] theorem pseudos_nil : pseudos [] = [] := rfl

theorem settled_init : Settled max [] (init max) where
  pool := by simp [init, Sched.running]
  tasks := by simp [init, ranTasks, deletedTasks]
  order := by simp [init, ranTasks]

/-! ## What a step changes -/

/-- What can happen to the queues in one step; `d` are the tasks deleted and `r` is the task called. -/
inductive Change (s : Sched) : Sched → List SchInfo → List SchInfo → Prop
  | submit {slot avail t} (ha : s.availSchInfo = slot :: avail) (hslot : t.slot = slot)
      (hserial : t.serial = s.submits) :
      Change s { s with
        availSchInfo := avail
        activeSchInfo := s.activeSchInfo ++ [t]
        submits := s.submits + 1 } [] []
  | delete {gone kept} (hparts : (gone ++ kept).Perm s.activeSchInfo)
      (hkept : kept.Sublist s.activeSchInfo) :
      Change s { s with
        availSchInfo := s.availSchInfo ++ gone.map (·.slot)
        activeSchInfo := kept } gone []
  | ready {woken kept} (hparts : (woken ++ kept).Perm s.activeSchInfo)
      (horder : pseudos woken ++ pseudos kept = pseudos s.activeSchInfo) :
      Change s { s with runSchInfo := s.runSchInfo ++ woken, activeSchInfo := kept } [] []
  | call {t rest c outer n} (hr : s.runSchInfo = t :: rest) (hf : s.frames = ⟨c, none⟩ :: outer) :
      Change s { s with runSchInfo := rest, frames := ⟨n, some t⟩ :: outer } [] [t]
  | back {t c outer} (hf : s.frames = ⟨c, some t⟩ :: outer) :
      Change s { s with
        availSchInfo := s.availSchInfo ++ [t.slot]
        frames := ⟨c, none⟩ :: outer } [] []
  | enter : Change s { s with frames := ⟨0, none⟩ :: s.frames } [] []
  | leave {c outer} (hf : s.frames = ⟨c, none⟩ :: outer) : Change s { s with frames := outer } [] []

variable {d r : List SchInfo}

theorem pseudos_subset (l : List SchInfo) : ∀ n ∈ pseudos l, n ∈ l.map (·.serial) := by
  intro n hn
  obtain ⟨t, ht, rfl⟩ := List.mem_map.1 hn
  exact List.mem_map_of_mem (List.mem_filter.1 ht).1

theorem pseudos_sublist {a b : List SchInfo} (h : a.Sublist b) : (pseudos a).Sublist (pseudos b) :=
  (h.filter _).map _

/-- A new submission comes after all others. -/
theorem Settled.newest (hs : Settled max h s) {n : Nat}
    (hn : n ∈ pseudos (ranTasks h ++ (s.runSchInfo ++ s.activeSchInfo))) : n < s.submits := by
  refine List.mem_range.1 (hs.tasks.subset ?_)
  have := pseudos_subset _ n hn
  simp only [List.map_append, List.mem_append] at this ⊢
  rcases this with h | h | h
  · exact .inl h
  · exact .inr (.inr (.inl h))
  · exact .inr (.inr (.inr h))

/-- The pool after a change, if each element is found as often as before. -/
theorem Settled.pool_of_count (hs : Settled max h s)
    (hcount : ∀ x, (s'.availSchInfo ++
        (s'.activeSchInfo ++ (s'.runSchInfo ++ s'.running)).map (·.slot)).count x =
      (s.availSchInfo ++ (s.activeSchInfo ++ (s.runSchInfo ++ s.running)).map (·.slot)).count x) :
    (s'.availSchInfo ++ (s'.activeSchInfo ++ (s'.runSchInfo ++ s'.running)).map (·.slot)).Perm
      (List.range max) :=
  (List.perm_iff_count.2 hcount).trans hs.pool

theorem Change.pool (hc : Change s s' d r) (hs : Settled max h s) :
    (s'.availSchInfo ++ (s'.activeSchInfo ++ (s'.runSchInfo ++ s'.running)).map (·.slot)).Perm
      (List.range max) := by
  refine hs.pool_of_count fun x => ?_
  cases hc with
  | submit ha hslot hserial =>
    simp only [ha, Sched.running, List.map_append, List.map_cons, List.map_nil, hslot,
      List.count_append, List.count_cons, List.count_nil]
    omega
  | delete hparts hkept =>
    have := (hparts.map (·.slot)).count_eq x
    simp only [List.map_append, List.count_append, Sched.running] at this ⊢
    omega
  | ready hparts horder =>
    have := (hparts.map (·.slot)).count_eq x
    simp only [List.map_append, List.count_append, Sched.running] at this ⊢
    omega
  | call hrun hf =>
    simp only [hrun, hf, Sched.running, List.filterMap_cons, List.map_append, List.map_cons,
      List.count_append, List.count_cons]
    omega
  | back hf =>
    simp only [hf, Sched.running, List.filterMap_cons, List.map_append, List.map_cons,
      List.count_append, List.count_cons, List.count_nil]
    omega
  | enter => rfl
  | leave hf => simp only [hf, Sched.running, List.filterMap_cons]

/-- The submissions after a change, if each is found as often as before. -/
theorem Settled.tasks_of_count (hs : Settled max h s) (hsub : s'.submits = s.submits)
    (hcount : ∀ x, ((ranTasks (h ++ o) ++ (deletedTasks (h ++ o) ++
        (s'.runSchInfo ++ s'.activeSchInfo))).map (·.serial)).count x =
      ((ranTasks h ++ (deletedTasks h ++ (s.runSchInfo ++ s.activeSchInfo))).map (·.serial)).count x) :
    ((ranTasks (h ++ o) ++ (deletedTasks (h ++ o) ++
      (s'.runSchInfo ++ s'.activeSchInfo))).map (·.serial)).Perm (List.range s'.submits) := by
  rw [hsub]
  exact (List.perm_iff_count.2 hcount).trans hs.tasks

theorem Change.tasks (hc : Change s s' d r) (hs : Settled max h s)
    (hr : ranTasks o = r) (hd : deletedTasks o = d) :
    ((ranTasks (h ++ o) ++ (deletedTasks (h ++ o) ++
      (s'.runSchInfo ++ s'.activeSchInfo))).map (·.serial)).Perm (List.range s'.submits) := by
  cases hc with
  | @submit slot avail t ha hslot hserial =>
    rw [List.range_succ]
    refine List.perm_iff_count.2 fun x => ?_
    have := hs.tasks.count_eq x
    simp only [ranTasks_append, deletedTasks_append, hr, hd, List.map_append, List.map_cons,
      List.map_nil, List.append_nil, List.count_append, hserial] at this ⊢
    omega
  | delete hparts hkept =>
    refine hs.tasks_of_count rfl fun x => ?_
    have := (hparts.map (·.serial)).count_eq x
    simp only [ranTasks_append, deletedTasks_append, hr, hd, List.map_append, List.append_nil,
      List.count_append] at this ⊢
    omega
  | ready hparts horder =>
    refine hs.tasks_of_count rfl fun x => ?_
    have := (hparts.map (·.serial)).count_eq x
    simp only [ranTasks_append, deletedTasks_append, hr, hd, List.map_append, List.append_nil,
      List.count_append] at this ⊢
    omega
  | call hrun hf =>
    refine hs.tasks_of_count rfl fun x => ?_
    simp only [ranTasks_append, deletedTasks_append, hr, hd, hrun, List.map_append, List.map_cons,
      List.map_nil, List.append_nil, List.count_append, List.count_cons, List.count_nil]
    omega
  | back hf | enter | leave hf =>
    refine hs.tasks_of_count rfl fun x => ?_
    simp only [ranTasks_append, deletedTasks_append, hr, hd, List.append_nil]

theorem Change.order (hc : Change s s' d r) (hs : Settled max h s) (hr : ranTasks o = r) :
    (pseudos (ranTasks (h ++ o) ++ (s'.runSchInfo ++ s'.activeSchInfo))).Pairwise (· < ·) := by
  have horder := hs.order
  rw [ranTasks_append, hr]
  cases hc with
  | @submit slot avail t ha hslot hserial =>
    have hnew : pseudos ((ranTasks h ++ []) ++ (s.runSchInfo ++ (s.activeSchInfo ++ [t]))) =
        pseudos (ranTasks h ++ (s.runSchInfo ++ s.activeSchInfo)) ++ pseudos [t] := by simp
    rw [hnew]
    refine List.pairwise_append.2 ⟨horder, ?_, fun n hn k hk => ?_⟩
    · cases hp : t.isPseudo <;> simp [pseudos, hp]
    · have := pseudos_subset _ k hk
      simp only [List.map_cons, List.map_nil, List.mem_singleton] at this
      rw [this, hserial]
      exact hs.newest hn
  | delete hparts hkept =>
    refine horder.sublist (pseudos_sublist ?_)
    rw [List.append_nil]
    exact (List.Sublist.refl _).append ((List.Sublist.refl _).append hkept)
  | @ready woken kept hparts hkeep =>
    have hsame : pseudos ((ranTasks h ++ []) ++ ((s.runSchInfo ++ woken) ++ kept)) =
        pseudos (ranTasks h ++ (s.runSchInfo ++ s.activeSchInfo)) := by
      simp only [pseudos_append, List.append_nil, List.append_assoc, hkeep]
    rw [hsame]
    exact horder
  | call hrun hf =>
    rw [hrun] at horder
    simpa using horder
  | back hf | enter | leave hf =>
    rw [List.append_nil]
    exact horder

/-- **A change keeps the books.** -/
theorem Change.settled (hc : Change s s' d r) (hs : Settled max h s)
    (hr : ranTasks o = r) (hd : deletedTasks o = d) : Settled max (h ++ o) s' :=
  ⟨hc.pool hs, hc.tasks hs hr hd, hc.order hs hr⟩

/-! ## The steps -/

/-- After EBADF, no task with a bad descriptor is followed by another one on the same descriptor,
where the tasks on the bad descriptors before it are gone. -/
def Unclustered (bad : Int → Bool) : List SchInfo → Prop
  | [] => True
  | t :: rest =>
    if t.isPseudo || !bad t.event then Unclustered bad rest
    else (∀ u ∈ rest.head?, u.event ≠ t.event) ∧ Unclustered bad (rest.filter (·.event ≠ t.event))
termination_by l => l.length
decreasing_by
  · simp
  · refine Nat.lt_succ_of_le ?_
    rw [List.length_unattach]
    exact Nat.le_trans (List.length_filter_le ..) (Nat.le_of_eq List.length_attach)

/-- The condition on a call: `SCH_run` finds no task after 201, and after EBADF no two tasks in a row
wait for one bad descriptor. -/
def Conforms (s : Sched) : Input → Prop
  | .loop => ∀ f ∈ s.frames.head?, f.sanityCounter ≤ 200 ∨ s.runSchInfo = []
  | .block (.ebadf bad) => pseudos s.activeSchInfo = [] → Unclustered bad s.activeSchInfo
  | _ => True

theorem unclustered_cons {bad : Int → Bool} {t : SchInfo} {rest : List SchInfo} :
    Unclustered bad (t :: rest) ↔
      if t.isPseudo || !bad t.event then Unclustered bad rest
      else (∀ u ∈ rest.head?, u.event ≠ t.event) ∧
        Unclustered bad (rest.filter (·.event ≠ t.event)) := by
  rw [Unclustered]

theorem badTasks_isSome (bad : Int → Bool) (l : List SchInfo) (gone : List Int) :
    (Sched.badTasks bad l gone).isSome ↔ Unclustered bad (l.filter (·.event ∉ gone)) := by
  induction l generalizing gone with
  | nil => simp [Sched.badTasks, Unclustered]
  | cons t rest ih =>
    unfold Sched.badTasks
    rw [List.filter_cons]
    by_cases hg : t.event ∈ gone
    · rw [if_pos hg, if_neg (by simpa using hg)]
      exact ih gone
    · rw [if_neg hg, if_pos (decide_eq_true hg), unclustered_cons]
      by_cases hb : (t.isPseudo || !bad t.event) = true
      · rw [if_pos hb, if_pos hb]
        exact ih gone
      · rw [if_neg hb, if_neg hb]
        have hfind : (rest.filter (·.event ∉ gone)).head? = rest.find? (·.event ∉ gone) :=
          List.head?_filter
        have hnext : (∀ u ∈ (rest.filter (·.event ∉ gone)).head?, u.event ≠ t.event) ↔
            (rest.find? (·.event ∉ gone)).any (·.event = t.event) = false := by
          rw [hfind]
          cases rest.find? (·.event ∉ gone) <;> simp
        rw [hnext, List.filter_filter]
        have hfilter : rest.filter (fun u => decide (u.event ≠ t.event) && decide (u.event ∉ gone)) =
            rest.filter (·.event ∉ gone ++ [t.event]) := by
          refine List.filter_congr fun u _ => ?_
          simp only [List.mem_append, List.mem_singleton, not_or, Bool.decide_and]
          exact Bool.and_comm ..
        rw [hfilter, ← ih]
        cases (rest.find? (·.event ∉ gone)).any (·.event = t.event) <;> simp

theorem deletedTasks_deleted (l : List SchInfo) : deletedTasks (l.map .deleted) = l := by
  induction l with
  | nil => rfl
  | cons t rest ih =>
    show t :: deletedTasks (rest.map .deleted) = t :: rest
    rw [ih]

theorem ranTasks_deleted (l : List SchInfo) : ranTasks (l.map .deleted) = [] := by
  induction l with
  | nil => rfl
  | cons t rest ih => exact ih

theorem purge_settled (hs : Settled max h s) (p : SchInfo → Bool) :
    Settled max (h ++ (s.purge p).2) (s.purge p).1 := by
  have hc : Change s (s.purge p).1 (s.activeSchInfo.filter p) [] :=
    .delete (List.filter_append_perm p s.activeSchInfo) List.filter_sublist
  exact hc.settled hs (ranTasks_deleted _) (deletedTasks_deleted _)

theorem purgeAll_settled (gone : List Int) (hs : Settled max h s) :
    Settled max (h ++ (s.purgeAll gone).2) (s.purgeAll gone).1 := by
  induction gone generalizing s h with
  | nil =>
    show Settled max (h ++ []) s
    rwa [List.append_nil]
  | cons event rest ih =>
    have := ih (purge_settled hs (·.event = event))
    rwa [List.append_assoc] at this

theorem Settled.ret (hs : Settled max h s) (v : Int) : Settled max (h ++ [.ret v]) s := by
  obtain ⟨hpool, htasks, horder⟩ := hs
  exact ⟨hpool, by simpa using htasks, by simpa using horder⟩

theorem awake_parts (ready : Int → Bool) (l : List SchInfo) :
    ((Sched.awake ready l).1 ++ (Sched.awake ready l).2).Perm l := by
  induction l generalizing ready with
  | nil => exact .refl _
  | cons t rest ih =>
    unfold Sched.awake
    split
    · exact (ih ready).cons t
    split
    · exact (ih _).cons t
    · exact List.perm_middle.trans ((ih ready).cons t)

/-- A part of a queue without pseudo-events has none. -/
theorem pseudos_part {a l : List SchInfo} (h : pseudos l = []) (hsub : a ⊆ l) : pseudos a = [] := by
  unfold pseudos at *
  rw [List.map_eq_nil_iff, List.filter_eq_nil_iff] at *
  exact fun t ht => h t (hsub ht)

theorem pseudos_filter (l : List SchInfo) :
    pseudos (l.filter (·.isPseudo)) = pseudos l ∧ pseudos (l.filter (!·.isPseudo)) = [] := by
  unfold pseudos
  rw [List.filter_filter, List.filter_filter]
  refine ⟨by simp, ?_⟩
  rw [List.map_eq_nil_iff, List.filter_eq_nil_iff]
  intro t _
  cases t.isPseudo <;> simp

theorem pseudos_eq_nil {l : List SchInfo} : pseudos l = [] ↔ l.filter (·.isPseudo) = [] :=
  List.map_eq_nil_iff

theorem purgeAll_subset (gone : List Int) (s : Sched) :
    (s.purgeAll gone).1.activeSchInfo ⊆ s.activeSchInfo := by
  induction gone generalizing s with
  | nil => exact List.Subset.refl _
  | cons event rest ih =>
    exact List.Subset.trans (ih (s.purge (·.event = event)).1) List.filter_sublist.subset

/-- **`SCH_block` keeps the books**, and leaves no pseudo-event behind. -/
theorem block_settled {sel : Select} (hs : Settled max h s) (hb : s.block sel = some (s', o)) :
    Settled max (h ++ o) s' ∧ pseudos s'.activeSchInfo = [] := by
  unfold Sched.block at hb
  split at hb
  · rename_i hempty
    obtain ⟨rfl, rfl⟩ := Prod.mk.inj (Option.some.inj hb)
    exact ⟨hs.ret 0, by rw [hempty]; rfl⟩
  dsimp only at hb
  split at hb
  · obtain ⟨rfl, rfl⟩ := Prod.mk.inj (Option.some.inj hb)
    obtain ⟨hps, hnone⟩ := pseudos_filter s.activeSchInfo
    refine ⟨Change.settled (.ready (List.filter_append_perm _ _) ?_) hs rfl rfl, hnone⟩
    rw [hps, hnone, List.append_nil]
  rename_i hps
  have hnone : pseudos s.activeSchInfo = [] := pseudos_eq_nil.2 (not_not.1 hps)
  cases sel with
  | nothing | failed =>
    obtain ⟨rfl, rfl⟩ := Prod.mk.inj (Option.some.inj hb)
    exact ⟨hs.ret _, hnone⟩
  | ebadf bad =>
    obtain ⟨gone, -, hb⟩ := Option.map_eq_some_iff.1 hb
    obtain ⟨rfl, rfl⟩ := Prod.mk.inj hb
    refine ⟨?_, pseudos_part hnone (purgeAll_subset gone s)⟩
    have := (purgeAll_settled gone hs).ret 0
    rwa [List.append_assoc] at this
  | ready fds =>
    obtain ⟨rfl, rfl⟩ := Prod.mk.inj (Option.some.inj hb)
    have hparts := awake_parts fds s.activeSchInfo
    have hwoken : pseudos (Sched.awake fds s.activeSchInfo).1 = [] :=
      pseudos_part hnone fun t ht => hparts.subset (List.mem_append_left _ ht)
    have hkept : pseudos (Sched.awake fds s.activeSchInfo).2 = [] :=
      pseudos_part hnone fun t ht => hparts.subset (List.mem_append_right _ ht)
    refine ⟨Change.settled (.ready hparts ?_) hs rfl rfl, hkept⟩
    rw [hwoken, hkept, hnone]
    rfl

theorem taskDelete_settled (hs : Settled max h s) (event : Int) (func arg : Nat) :
    Settled max (h ++ (s.taskDelete event func arg).2) (s.taskDelete event func arg).1 := by
  unfold Sched.taskDelete
  split
  · exact hs.ret _
  · rename_i t ht
    obtain ⟨hp, pre, post, hact, hpre⟩ := List.find?_eq_some_iff_append.1 ht
    have herase : s.activeSchInfo.eraseP (Sched.names event func arg) = pre ++ post := by
      rw [hact, List.eraseP_append_right _ fun b hb => by simpa using hpre b hb,
        List.eraseP_cons_of_pos hp]
    have hc : Change s { s with
        availSchInfo := s.availSchInfo ++ [t].map (·.slot)
        activeSchInfo := pre ++ post } [t] [] := by
      refine .delete ?_ ?_
      · rw [hact]
        exact (List.perm_middle : (pre ++ t :: post).Perm (t :: (pre ++ post))).symm
      · rw [hact]
        exact (List.Sublist.refl pre).append (List.sublist_cons_self t post)
    rw [herase]
    exact hc.settled hs rfl rfl

/-- The turn of the loop that calls a function, or that ends with nothing left to run. -/
theorem loop_settled (hs : Settled max h s) (hok : Conforms s .loop) (hl : s.loop = some (s', o)) :
    Settled max (h ++ o) s' ∧ (.runReturned ∈ o → s.runSchInfo = []) := by
  unfold Sched.loop at hl
  split at hl
  · rename_i c outer hf
    split at hl
    · rename_i hrun
      obtain ⟨rfl, rfl⟩ := Prod.mk.inj (Option.some.inj hl)
      exact ⟨(Change.leave hf).settled hs rfl rfl, fun _ => hrun⟩
    · rename_i t rest hrun
      split at hl
      · rename_i hc
        rcases hok ⟨c, none⟩ (by rw [hf]; rfl) with hle | hnil
        · exact absurd hc (Nat.not_lt.2 hle)
        · rw [hrun] at hnil
          cases hnil
      · obtain ⟨rfl, rfl⟩ := Prod.mk.inj (Option.some.inj hl)
        refine ⟨(Change.call hrun hf).settled hs rfl rfl, fun h => ?_⟩
        simp at h
  · cases hl

/-- **Every call that meets the condition keeps the books.** -/
theorem Settled.step (hs : Settled max h s) (hok : Conforms s i) (hstep : step s i = some (s', o)) :
    Settled max (h ++ o) s' := by
  cases i with
  | submit func arg event =>
    simp only [Sch.step, Sched.submit] at hstep
    split at hstep
    · cases hstep
    · rename_i slot avail ha
      obtain ⟨rfl, rfl⟩ := Prod.mk.inj (Option.some.inj hstep)
      exact Change.settled (.submit ha rfl rfl) hs rfl rfl
  | taskDelete event func arg =>
    simp only [Sch.step] at hstep
    split at hstep
    · have := taskDelete_settled hs event func arg
      rwa [Option.some.inj hstep] at this
    · cases hstep
  | allTaskDelete event func arg =>
    simp only [Sch.step] at hstep
    split at hstep
    · obtain ⟨rfl, rfl⟩ := Prod.mk.inj (Option.some.inj hstep)
      have := (purge_settled hs (Sched.names event func arg)).ret
        (if (s.purge (Sched.names event func arg)).2.isEmpty then -1 else 0)
      rwa [List.append_assoc] at this
    · cases hstep
  | block sel =>
    simp only [Sch.step] at hstep
    split at hstep
    · exact (block_settled hs hstep).1
    · cases hstep
  | run =>
    simp only [Sch.step] at hstep
    split at hstep
    · obtain ⟨rfl, rfl⟩ := Prod.mk.inj (Option.some.inj hstep)
      exact Change.enter.settled hs rfl rfl
    · cases hstep
  | loop => exact (loop_settled hs hok hstep).1
  | taskReturns =>
    simp only [Sch.step, Sched.taskReturns] at hstep
    split at hstep
    · rename_i c t outer hf
      obtain ⟨rfl, rfl⟩ := Prod.mk.inj (Option.some.inj hstep)
      exact (Change.back hf).settled hs rfl rfl
    · cases hstep

theorem Settled.reach (hr : Reach (scheduler max) Conforms h s) : Settled max h s := by
  refine Reach.invariant_hist (P := fun s h => Settled max h s) ?_
    (fun _ _ _ _ _ hs hok hstep => hs.step hok hstep) hr
  rintro _ rfl
  exact settled_init

/-- A turn of the loop against the condition loses an element of the pool. -/
theorem loop_loses (hs : Settled max h s) (hok : ¬Conforms s .loop) (hl : s.loop = some (s', o)) :
    ¬Settled max (h ++ o) s' := by
  intro hs'
  have hlen := hs.pool.length_eq
  have hlen' := hs'.pool.length_eq
  unfold Conforms at hok
  unfold Sched.loop at hl
  split at hl
  · rename_i c outer hf
    simp only [hf, List.head?_cons, Option.mem_some_iff, forall_eq', not_or, Nat.not_le] at hok
    obtain ⟨hc, hne⟩ := hok
    split at hl
    · rename_i hrun
      exact hne hrun
    · rename_i t rest hrun
      rw [if_pos hc] at hl
      obtain ⟨rfl, rfl⟩ := Prod.mk.inj (Option.some.inj hl)
      simp only [hrun, hf, Sched.running, List.filterMap_cons, List.length_append, List.length_map,
        List.length_cons] at hlen hlen'
      omega
  · cases hl

theorem block_returns {sel : Select} (hc : s.callable = true) :
    (step s (.block sel)).isSome ↔ Conforms s (.block sel) := by
  simp only [Sch.step, if_pos hc, Sched.block]
  split
  · rename_i hempty
    cases sel <;> simp [Conforms, hempty, Unclustered]
  split
  · rename_i hps
    have hne : pseudos s.activeSchInfo ≠ [] := fun h => hps (pseudos_eq_nil.1 h)
    cases sel <;> simp [Conforms, hne]
  · rename_i hps
    have hnone : pseudos s.activeSchInfo = [] := pseudos_eq_nil.2 (not_not.1 hps)
    cases sel with
    | ebadf bad =>
      have := badTasks_isSome bad s.activeSchInfo []
      simp only [List.not_mem_nil, not_false_eq_true, decide_true, List.filter_true] at this
      simp only [Option.isSome_map, this, Conforms, hnone, true_implies]
    | _ => simp [Conforms]

/-- **Every task is run exactly once unless it is deleted before.** In every run that meets the
condition the books are kept, a `SCH_block` leaves no pseudo-event in the active queue and a `SCH_run`
that returns leaves nothing to run; and from each such state the next call keeps the books, and
`SCH_block` returns, if and only if it meets the condition. -/
theorem tasks_run_once (hr : Reach (scheduler max) Conforms h s) :
    Settled max h s ∧
      (∀ i s' o, step s i = some (s', o) → (Settled max (h ++ o) s' ↔ Conforms s i)) ∧
      (∀ sel, s.callable = true → ((step s (.block sel)).isSome ↔ Conforms s (.block sel))) ∧
      (∀ sel s' o, step s (.block sel) = some (s', o) → pseudos s'.activeSchInfo = []) ∧
      ∀ s' o, Conforms s .loop → step s .loop = some (s', o) → .runReturned ∈ o →
        s.runSchInfo = [] := by
  have hs := Settled.reach hr
  refine ⟨hs, fun i s' o hstep => ⟨fun hs' => ?_, fun hok => hs.step hok hstep⟩,
    fun sel hc => block_returns hc, fun sel s' o hstep => ?_,
    fun s' o hok hstep => (loop_settled hs hok hstep).2⟩
  · cases i with
    | loop => exact Classical.byContradiction fun hok => loop_loses hs hok hstep hs'
    | block sel =>
      refine (block_returns ?_).1 (by rw [hstep]; rfl)
      simp only [Sch.step] at hstep
      split at hstep
      · assumption
      · cases hstep
    | _ => trivial
  · simp only [Sch.step] at hstep
    split at hstep
    · exact (block_settled hs hstep).2
    · cases hstep

/-- A test that is enough for the condition. -/
def clearlyConforms (s : Sched) : Input → Bool
  | .loop => s.frames.head?.all (·.sanityCounter ≤ 200)
  | .block (.ebadf _) => false
  | _ => true

theorem conforms_of_clearly (hc : clearlyConforms s i = true) : Conforms s i := by
  cases i with
  | loop =>
    intro f hf
    rw [Option.mem_def] at hf
    simp only [clearlyConforms, hf, Option.all_some, decide_eq_true_eq] at hc
    exact .inl hc
  | block sel =>
    cases sel with
    | ebadf bad => cases hc
    | _ => trivial
  | _ => trivial

/-- Two tasks, of which the first one submits another one that is deleted again. -/
def twoTasks : List Input :=
  [.submit 1 0 pseudoEvent, .submit 2 0 7, .block .nothing, .run, .loop, .submit 3 0 pseudoEvent,
    .taskDelete pseudoEvent 3 0, .taskReturns, .loop, .block (.ready (· = 7)), .run, .loop,
    .taskReturns, .loop]

theorem tasks_run_once_two : ∃ s h, ((ranTasks h).map (·.serial)) = [0, 1] ∧
    ((deletedTasks h).map (·.serial)) = [2] ∧ Settled 5 h s := by
  obtain ⟨s, h, hr, hm⟩ := Reach.of_run (S := scheduler 5) (b := clearlyConforms)
    (fun _ _ => conforms_of_clearly) rfl twoTasks
    (fun _ h => (ranTasks h).map (·.serial) = [0, 1] ∧ (deletedTasks h).map (·.serial) = [2])
    (by decide)
  obtain ⟨hran, hdel⟩ := of_decide_eq_true hm
  exact ⟨s, h, hran, hdel, (tasks_run_once hr).1⟩

/-- Pseudo-events are submitted one after the other, as long as the pool has elements. -/
theorem run_submits (max n : Nat) (hn : n ≤ s.availSchInfo.length) :
    ∃ ts, ts.length = n ∧ (∀ t ∈ ts, t.isPseudo = true) ∧
      (scheduler max).run always s (List.replicate n (.submit 0 0 pseudoEvent)) =
        some ({ s with
          availSchInfo := s.availSchInfo.drop n
          activeSchInfo := s.activeSchInfo ++ ts
          submits := s.submits + n }, List.replicate n (.ret 0)) := by
  induction n generalizing s with
  | zero => exact ⟨[], rfl, nofun, by rw [List.append_nil]; rfl⟩
  | succ n ih =>
    obtain ⟨slot, avail, havail⟩ := List.exists_cons_of_length_pos (Nat.zero_lt_of_lt hn)
    have hle : n ≤ avail.length := by
      rw [havail, List.length_cons] at hn
      omega
    obtain ⟨ts, hlength, hpseudo, hrun⟩ := ih (s := { s with
      availSchInfo := avail
      activeSchInfo := s.activeSchInfo ++ [⟨slot, 0, 0, pseudoEvent, s.submits⟩]
      submits := s.submits + 1 }) hle
    have hsubmit : step s (.submit 0 0 pseudoEvent) = some ({ s with
        availSchInfo := avail
        activeSchInfo := s.activeSchInfo ++ [⟨slot, 0, 0, pseudoEvent, s.submits⟩]
        submits := s.submits + 1 }, [.ret 0]) := by
      unfold step Sched.submit
      rw [havail]
    refine ⟨⟨slot, 0, 0, pseudoEvent, s.submits⟩ :: ts, ?_, ?_, ?_⟩
    · rw [List.length_cons, hlength]
    · exact List.forall_mem_cons.2 ⟨rfl, hpseudo⟩
    · rw [List.replicate_succ, Sys.run_cons rfl hsubmit, hrun, havail, List.drop_succ_cons,
        List.append_assoc, Nat.add_right_comm]
      rfl

/-- The tasks that are ready are called one after the other, and each returns. -/
theorem run_loops {sanityCounter : Nat} {outer : List Frame} {rest : List SchInfo} (ts : List SchInfo)
    (hframes : s.frames = ⟨sanityCounter, none⟩ :: outer) (hready : s.runSchInfo = ts ++ rest)
    (hcounter : sanityCounter + ts.length ≤ 201) :
    (scheduler max).run always s (List.replicate ts.length [.loop, .taskReturns]).flatten =
      some ({ s with
        availSchInfo := s.availSchInfo ++ ts.map (·.slot)
        runSchInfo := rest
        frames := ⟨sanityCounter + ts.length, none⟩ :: outer }, ts.map .ran) := by
  induction ts generalizing s sanityCounter with
  | nil =>
    obtain ⟨avail, active, ready, frames, submits⟩ := s
    obtain rfl : frames = _ := hframes
    obtain rfl : ready = _ := hready
    show some _ = some _
    rw [List.map_nil, List.append_nil]
    rfl
  | cons t ts ih =>
    rw [List.length_cons] at hcounter
    have hloop : step s .loop = some ({ s with
        runSchInfo := ts ++ rest
        frames := ⟨sanityCounter + 1, some t⟩ :: outer }, [.ran t]) := by
      unfold step Sched.loop
      rw [hframes, hready]
      exact if_neg (by omega)
    rw [List.length_cons, List.replicate_succ, List.flatten_cons, List.cons_append, List.cons_append,
      List.nil_append, Sys.run_cons rfl hloop, Sys.run_cons rfl rfl, ih rfl rfl (by omega)]
    simp only [Option.map_some, List.map_cons, List.append_assoc, List.cons_append, List.nil_append,
      Nat.add_assoc, Nat.add_comm 1]

/-- All of the pseudo-events that wait are ready after `SCH_block`. -/
theorem block_pseudos {ts : List SchInfo} (hc : s.callable = true) (hactive : s.activeSchInfo = ts)
    (hpseudo : ∀ t ∈ ts, t.isPseudo = true) (hne : ts ≠ []) :
    step s (.block .nothing) = some ({ s with
      runSchInfo := s.runSchInfo ++ ts
      activeSchInfo := [] }, [.ret 0]) := by
  have hall : ts.filter (·.isPseudo) = ts := List.filter_eq_self.2 hpseudo
  have hnone : ts.filter (!·.isPseudo) = [] := by
    refine List.filter_eq_nil_iff.2 fun t ht => ?_
    rw [hpseudo t ht]
    decide
  unfold step
  dsimp only
  rw [if_pos hc]
  unfold Sched.block
  rw [hactive, if_neg hne, hall, if_pos hne, hnone]

/-- `SCH_run` calls as many tasks as its counter allows, and loses the one after them. -/
theorem run_loses (max : Nat) {n : Nat} (hn : n = 201) (hmax : n + 1 ≤ max) :
    ∃ us : List SchInfo, us.length = n ∧
      (scheduler max).run always (init max) (List.replicate (n + 1) (.submit 0 0 pseudoEvent) ++
        [.block .nothing, .run] ++ (List.replicate n [.loop, .taskReturns]).flatten ++ [.loop]) =
          some (⟨(List.range max).drop (n + 1) ++ us.map (·.slot), [], [], [], n + 1⟩,
            List.replicate (n + 1) (.ret 0) ++ (.ret 0 :: (us.map .ran ++ [.runReturned]))) := by
  have hpool : n + 1 ≤ (init max).availSchInfo.length := by
    show n + 1 ≤ (List.range max).length
    rw [List.length_range]
    exact hmax
  obtain ⟨ts, hlength, hpseudo, hsubmits⟩ := run_submits max (n + 1) hpool
  obtain ⟨us, u, rfl⟩ : ∃ us u, ts = us ++ [u] := by
    have hne : ts ≠ [] := List.ne_nil_of_length_eq_add_one hlength
    exact ⟨_, _, (List.dropLast_concat_getLast hne).symm⟩
  rw [List.length_append, List.length_singleton] at hlength
  have hus : us.length = n := by omega
  refine ⟨us, hus, ?_⟩
  obtain ⟨avail, havail⟩ : ∃ avail, (List.range max).drop (n + 1) = avail := ⟨_, rfl⟩
  have hsubmitted : (scheduler max).run always (init max)
      (List.replicate (n + 1) (.submit 0 0 pseudoEvent)) =
        some (⟨avail, us ++ [u], [], [], 0 + (n + 1)⟩, List.replicate (n + 1) (.ret 0)) := by
    rw [← havail]
    exact hsubmits
  have hblock : step ⟨avail, us ++ [u], [], [], 0 + (n + 1)⟩ (.block .nothing) =
      some (⟨avail, [], us ++ [u], [], 0 + (n + 1)⟩, [.ret 0]) :=
    block_pseudos rfl rfl hpseudo (by simp)
  have hcall : step ⟨avail, [], us ++ [u], [], 0 + (n + 1)⟩ .run =
      some (⟨avail, [], us ++ [u], [⟨0, none⟩], 0 + (n + 1)⟩, []) := rfl
  have hloops : (scheduler max).run always ⟨avail, [], us ++ [u], [⟨0, none⟩], 0 + (n + 1)⟩
      (List.replicate n [.loop, .taskReturns]).flatten =
        some (⟨avail ++ us.map (·.slot), [], [u], [⟨0 + n, none⟩], 0 + (n + 1)⟩, us.map .ran) := by
    rw [← hus]
    exact run_loops us rfl rfl (by omega)
  -- the counter is 201 when the last task is taken
  have hlost : step ⟨avail ++ us.map (·.slot), [], [u], [⟨0 + n, none⟩], 0 + (n + 1)⟩ .loop =
      some (⟨avail ++ us.map (·.slot), [], [], [], 0 + (n + 1)⟩, [.runReturned]) := by
    unfold step Sched.loop
    exact if_pos (by omega)
  rw [List.append_assoc, List.append_assoc, Sys.run_append hsubmitted, List.cons_append,
    List.cons_append, List.nil_append, Sys.run_cons rfl hblock, Sys.run_cons rfl hcall,
    Sys.run_append hloops, Sys.run_cons rfl hlost, havail, Nat.zero_add]
  simp [Sys.run]

/-- 202 pseudo-events, which one `SCH_run` is to run. -/
def manyTasks : List Input :=
  List.replicate 202 (.submit 0 0 pseudoEvent) ++ [.block .nothing, .run] ++
    (List.replicate 201 [.loop, .taskReturns]).flatten ++ [.loop]

/-- **A task is lost**: `SCH_run` takes it off its queue and returns without calling it. -/
theorem task_lost : ∃ s h, Reach (scheduler 500) Run.any h s ∧ s.submits = 202 ∧
    s.activeSchInfo = [] ∧ s.runSchInfo = [] ∧ s.frames = [] ∧ deletedTasks h = [] ∧
      (ranTasks h).length = 201 ∧ s.availSchInfo.length = 499 := by
  obtain ⟨us, hus, hrun⟩ := run_loses 500 rfl (by omega)
  refine ⟨_, _, ⟨init 500, rfl, .of_run (fun _ _ _ => trivial) hrun⟩, rfl, rfl, rfl, rfl, ?_, ?_, ?_⟩
  · rw [deletedTasks_append, deletedTasks_rets, List.nil_append, ← List.singleton_append,
      deletedTasks_append, deletedTasks_append, deletedTasks_rans]
    rfl
  · rw [ranTasks_append, ranTasks_rets, List.nil_append, ← List.singleton_append, ranTasks_append,
      ranTasks_append, ranTasks_rans, List.length_append, List.length_append, hus]
    rfl
  · rw [List.length_append, List.length_map, List.length_drop, List.length_range, hus]

end Sch
