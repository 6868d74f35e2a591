import Emsd.Mtsua.Resources
import Emsd.Lib.Run
import Mathlib.Data.List.Pairwise

/-!
# What an operation has to free is freed once

* `freed_once`: **in a run of careful steps, each object that is put on the list of an operation is
  freed exactly once, nothing is used after it has been freed, and nothing that has been freed is on
  a list.**
* `answer_freed_twice`: an answer whose data does not parse is freed twice.
-/

namespace Mtsua

open Ledger

variable {side : Side} {env : ResourceEnv} {s : Resources} {op op' : Holder} {h : List Event}
  {o : Nat} {l : List Nat} {ops : List Holder} {schQu : List MachineTask} {timers : List Nat}

/-- What is freed with the operation. -/
def Holder.owned (op : Holder) : List Nat := op.operId :: op.userFree.map UserFree.obj

/-- The machines that the scheduler is to delete. -/
def deletions (schQu : List MachineTask) : List Nat :=
  schQu.filterMap fun
    | .deleteMachine machine => some machine
    | .runMachine _ _ => none

/-- What somebody still has to free. -/
def Resources.owned (s : Resources) : List Nat :=
  s.ops.flatMap Holder.owned ++ (deletions s.schQu ++ s.handed)

/-- The scheduler is to run the machine of the operation. -/
def MachineTask.Runs (operId : Nat) : MachineTask → Prop
  | runMachine _ o => o = operId
  | deleteMachine _ => False

instance {operId : Nat} : DecidablePred (MachineTask.Runs operId)
  | .runMachine _ o => inferInstanceAs (Decidable (o = operId))
  | .deleteMachine _ => inferInstanceAs (Decidable False)

/-- Neither the scheduler nor the segmentation timer will come back to the operation. -/
structure Idle (schQu : List MachineTask) (timers : List Nat) (operId : Nat) : Prop where
  tasks : ∀ t ∈ schQu, ¬t.Runs operId
  timers : operId ∉ timers

instance {operId : Nat} : Decidable (Idle schQu timers operId) :=
  decidable_of_iff ((∀ t ∈ schQu, ¬t.Runs operId) ∧ operId ∉ timers)
    ⟨fun hi => ⟨hi.1, hi.2⟩, fun hi => ⟨hi.1, hi.2⟩⟩

/-! ## The invariant -/

/-- The operation refers to nothing but what is on its list, and so does its machine. -/
structure Holder.Ok (op : Holder) : Prop where
  refs : ∀ o ∈ op.refs, .free o ∈ op.userFree
  machine : .deleteMachine op.hFsm ∈ op.userFree

/-- Tasks and timers refer to operations of the list. -/
structure Linked (ops : List Holder) (schQu : List MachineTask) (timers : List Nat) : Prop where
  holders : ∀ op ∈ ops, op.Ok
  tasks : ∀ m o, .runMachine m o ∈ schQu → ∃ op ∈ ops, op.operId = o ∧ op.hFsm = m
  timers : ∀ o ∈ timers, ∃ op ∈ ops, op.operId = o

/-- The history is accounted for by what is owned; `loose` is in local variables. -/
structure Accounted (loose : List Nat) (s : Resources) (h : List Event) : Prop where
  ledger : Ledger s.next (loose ++ s.owned) h
  linked : Linked s.ops s.schQu s.timers

theorem put_owned : (s.put op).owned = op.owned ++ s.owned := List.append_assoc ..

theorem deletions_append (a b : List MachineTask) : deletions (a ++ b) = deletions a ++ deletions b :=
  List.filterMap_append

theorem deletions_map (l : List Nat) : deletions (l.map .deleteMachine) = l := by
  induction l with
  | nil => rfl
  | cons m l ih => exact congrArg (m :: ·) ih

namespace Linked

theorem subset {ops' : List Holder} (hk : Linked ops schQu timers) (hsub : ∀ op, op ∈ ops ↔ op ∈ ops') :
    Linked ops' schQu timers where
  holders := fun op hop => hk.holders op ((hsub op).2 hop)
  tasks := by
    intro m o ht
    obtain ⟨op, hop, hids⟩ := hk.tasks m o ht
    exact ⟨op, (hsub op).1 hop, hids⟩
  timers := by
    intro o ho
    obtain ⟨op, hop, hid⟩ := hk.timers o ho
    exact ⟨op, (hsub op).1 hop, hid⟩

theorem mono {schQu' : List MachineTask} {timers' : List Nat} (hk : Linked ops schQu timers)
    (hq : ∀ t ∈ schQu', t ∈ schQu) (ht : ∀ o ∈ timers', o ∈ timers) :
    Linked ops schQu' timers' where
  holders := hk.holders
  tasks := fun m o hin => hk.tasks m o (hq _ hin)
  timers := fun o hin => hk.timers o (ht o hin)

/-- The operation at hand changes. -/
theorem update (hk : Linked (op :: ops) schQu timers) (hop : op'.Ok) (hid : op'.operId = op.operId)
    (hfsm : op'.hFsm = op.hFsm) : Linked (op' :: ops) schQu timers where
  holders := List.forall_mem_cons.2 ⟨hop, (List.forall_mem_cons.1 hk.holders).2⟩
  tasks := by
    intro m o ht
    obtain ⟨a, ha, hids⟩ := hk.tasks m o ht
    rcases List.mem_cons.1 ha with rfl | ha
    · exact ⟨op', List.mem_cons_self, hid.trans hids.1, hfsm.trans hids.2⟩
    · exact ⟨a, List.mem_cons_of_mem _ ha, hids⟩
  timers := by
    intro o ho
    obtain ⟨a, ha, hids⟩ := hk.timers o ho
    rcases List.mem_cons.1 ha with rfl | ha
    · exact ⟨op', List.mem_cons_self, hid.trans hids⟩
    · exact ⟨a, List.mem_cons_of_mem _ ha, hids⟩

/-- An idle operation ends. -/
theorem drop (hk : Linked (op :: ops) schQu timers) (hi : Idle schQu timers op.operId) :
    Linked ops schQu timers where
  holders := (List.forall_mem_cons.1 hk.holders).2
  tasks := by
    intro m o ht
    obtain ⟨a, ha, hids⟩ := hk.tasks m o ht
    rcases List.mem_cons.1 ha with rfl | ha
    · exact absurd hids.1.symm (hi.tasks _ ht)
    · exact ⟨a, ha, hids⟩
  timers := by
    intro o ho
    obtain ⟨a, ha, hids⟩ := hk.timers o ho
    rcases List.mem_cons.1 ha with rfl | ha
    · exact absurd (hids ▸ ho) hi.timers
    · exact ⟨a, ha, hids⟩

theorem cons (hk : Linked ops schQu timers) (hop : op.Ok) : Linked (op :: ops) schQu timers where
  holders := List.forall_mem_cons.2 ⟨hop, hk.holders⟩
  tasks := by
    intro m o ht
    obtain ⟨a, ha, hids⟩ := hk.tasks m o ht
    exact ⟨a, List.mem_cons_of_mem _ ha, hids⟩
  timers := by
    intro o ho
    obtain ⟨a, ha, hid⟩ := hk.timers o ho
    exact ⟨a, List.mem_cons_of_mem _ ha, hid⟩

theorem deleteMachines (hk : Linked ops schQu timers) (l : List Nat) :
    Linked ops (schQu ++ l.map .deleteMachine) timers where
  holders := hk.holders
  tasks := by
    intro m o ht
    rcases List.mem_append.1 ht with ht | ht
    · exact hk.tasks m o ht
    · obtain ⟨a, -, ha⟩ := List.mem_map.1 ht
      cases ha
  timers := hk.timers

theorem generateEvent (hk : Linked (op :: s.ops) s.schQu s.timers) (memGet : Bool) :
    Linked (op :: s.ops) (s.generateEvent op memGet).schQu s.timers where
  holders := hk.holders
  tasks := by
    intro m o ht
    rcases List.mem_append.1 ht with ht | ht
    · exact hk.tasks m o ht
    · cases memGet with
      | false => cases ht
      | true =>
        cases List.mem_singleton.1 ht
        exact ⟨op, List.mem_cons_self, rfl, rfl⟩
  timers := hk.timers

end Linked

namespace Accounted

variable {loose : List Nat}

theorem below (ha : Accounted loose s h) (hop : op ∈ s.ops) : op.operId < s.next := by
  refine ha.ledger.below op.operId (List.mem_append_left _ (List.mem_append_right _ ?_))
  exact List.mem_append_left _ (List.mem_flatMap.2 ⟨op, hop, List.mem_cons_self⟩)

/-- No two operations share an object. -/
theorem disjoint (ha : Accounted loose s h) :
    s.ops.Pairwise fun a b => a.owned.Disjoint b.owned := by
  have hd := (List.nodup_append.1 (List.nodup_append.1 ha.ledger.apart).1).2.1
  exact (List.nodup_flatMap.1 (List.nodup_append.1 hd).1).2

theorem unique {a b : Holder} (ha : Accounted loose s h) (hma : a ∈ s.ops) (hmb : b ∈ s.ops)
    (hid : a.operId = b.operId) : a = b := by
  by_contra hne
  have hsymm : Std.Symm fun a b : Holder => a.owned.Disjoint b.owned := ⟨fun _ _ => List.disjoint_symm⟩
  have hdisj := ha.disjoint.forall hma hmb hne
  have hmem : a.operId ∈ b.owned := by
    rw [hid]
    exact List.mem_cons_self
  exact hdisj List.mem_cons_self hmem

theorem ops_nodup (ha : Accounted loose s h) : s.ops.Nodup :=
  ha.disjoint.imp fun {a b} hab => by
    rintro rfl
    exact hab List.mem_cons_self List.mem_cons_self

theorem find_eq (ha : Accounted loose s h) (hop : op ∈ s.ops) (hid : op.operId = o) :
    s.find o = some op := by
  have hsome : (s.find o).isSome = true := List.find?_isSome.2 ⟨op, hop, decide_eq_true hid⟩
  obtain ⟨op', hfind⟩ := Option.isSome_iff_exists.1 hsome
  have hfound : op'.operId = o := by simpa using List.find?_some hfind
  rw [hfind, ha.unique (List.mem_of_find?_eq_some hfind) hop (hfound.trans hid.symm)]

/-- An operation is taken out of the list, for a while. -/
theorem take_out (ha : Accounted loose s h) (hop : s.find o = some op) :
    Accounted loose ((s.without op).put op) h := by
  have hmem : op ∈ s.ops := List.mem_of_find?_eq_some hop
  have hne : ∀ a ∈ s.ops, a.operId ≠ op.operId ↔ a ≠ op := fun a hma =>
    not_congr ⟨ha.unique hma hmem, fun he => he ▸ rfl⟩
  have hp : s.ops.Perm (op :: s.ops.filter (·.operId ≠ op.operId)) := by
    refine (List.perm_cons_erase hmem).trans (.cons op ?_)
    rw [ha.ops_nodup.erase_eq_filter]
    refine .of_eq (List.filter_congr fun a hma => ?_)
    by_cases heq : a = op
    · simp [heq]
    · simp [heq, (hne a hma).2 heq]
  constructor
  · exact ha.ledger.perm ((hp.flatMap_right _).append_right _ |>.append_left _)
  · exact ha.linked.subset fun _ => hp.mem_iff

theorem alloc (ha : Accounted loose s h) :
    Accounted (s.next :: loose) { s with next := s.next + 1 } h where
  ledger := ha.ledger.alloc
  linked := ha.linked

theorem forget (ha : Accounted (l ++ loose) s h) (hl : ∀ a ∈ l, .own a ∉ h) :
    Accounted loose s h where
  ledger := by
    have hf := ha.ledger
    rw [List.append_assoc] at hf
    exact hf.forget hl
  linked := ha.linked

theorem perm {loose' : List Nat} (ha : Accounted loose s h) (hp : loose.Perm loose') :
    Accounted loose' s h where
  ledger := ha.ledger.perm (hp.append_right _)
  linked := ha.linked

theorem use (ha : Accounted loose s h) (ho : o ∈ s.owned) : Accounted loose s (h ++ [.use o]) where
  ledger := ha.ledger.use (List.mem_append_right _ ho)
  linked := ha.linked

theorem uses (ha : Accounted loose s h) (hl : ∀ o ∈ l, o ∈ s.owned) :
    Accounted loose s (h ++ l.map .use) where
  ledger := ha.ledger.uses fun a hin => List.mem_append_right _ (hl a hin)
  linked := ha.linked

theorem free (ha : Accounted (o :: loose) s h) : Accounted loose s (h ++ [.free o]) where
  ledger := ha.ledger.free
  linked := ha.linked

theorem operId_mem : op.operId ∈ (s.put op).owned := by
  rw [put_owned]
  exact List.mem_append_left _ List.mem_cons_self

theorem obj_mem {u : UserFree} (hu : u ∈ op.userFree) : u.obj ∈ (s.put op).owned := by
  rw [put_owned]
  exact List.mem_append_left _ (List.mem_cons_of_mem _ (List.mem_map_of_mem hu))

/-- An object is put on the list; the operation may refer to it. -/
theorem register (ha : Accounted (o :: loose) (s.put op) h) (hid : op'.operId = op.operId)
    (hfsm : op'.hFsm = op.hFsm) (hlist : op'.userFree = op.userFree ++ [.free o])
    (hrefs : ∀ a ∈ op'.refs, a ∈ op.refs ∨ a = o) :
    Accounted loose (s.put op') (h ++ [.own o]) := by
  have hok := ha.linked.holders op List.mem_cons_self
  have hown : (s.put op').owned = op.owned ++ o :: s.owned := by
    rw [put_owned]
    simp [Holder.owned, hid, hlist, UserFree.obj]
  have hp : ((o :: loose) ++ (s.put op).owned).Perm (loose ++ (s.put op').owned) := by
    rw [hown, put_owned, ← List.append_assoc, ← List.append_assoc]
    exact List.perm_middle.symm
  constructor
  · refine (ha.ledger.perm hp).own (List.mem_append_right _ ?_)
    rw [hown]
    exact List.mem_append_right _ List.mem_cons_self
  · refine ha.linked.update ⟨fun a hin => ?_, ?_⟩ hid hfsm
    · rw [hlist]
      rcases hrefs a hin with hin | rfl
      · exact List.mem_append_left _ (hok.refs a hin)
      · exact List.mem_append_right _ List.mem_cons_self
    · rw [hfsm, hlist]
      exact List.mem_append_left _ hok.machine

/-- The operation takes an object over. -/
theorem take (ha : Accounted (o :: loose) (s.put op) h) :
    Accounted loose (s.put (op.take o)) (h ++ [.own o]) :=
  ha.register rfl rfl rfl fun _ hin => (List.mem_append.1 hin).imp_right List.mem_singleton.1

theorem generateEvent (ha : Accounted loose (s.put op) h) (memGet : Bool) :
    Accounted loose ((s.generateEvent op memGet).put op) h where
  ledger := by
    have hown : ((s.generateEvent op memGet).put op).owned = (s.put op).owned := by
      simp only [Resources.owned, Resources.put, Resources.generateEvent, deletions_append]
      cases memGet <;> simp [deletions]
    rw [hown]
    exact ha.ledger
  linked := ha.linked.generateEvent memGet

end Accounted

/-! ## The end of an operation -/

theorem objects_machines (l : List UserFree) :
    (l.map UserFree.obj).Perm (objects l ++ machines l) := by
  induction l with
  | nil => exact .refl _
  | cons u l ih =>
    cases u with
    | free o => exact ih.cons o
    | deleteMachine machine => exact (ih.cons machine).trans List.perm_middle.symm

theorem freeOperation_owned :
    (freeOperation s op).1.owned = s.ops.flatMap Holder.owned ++
      ((deletions s.schQu ++ machines op.userFree) ++ s.handed) := by
  rw [freeOperation, Resources.owned, deletions_append, deletions_map]

theorem freeOperation_ledger (hl : Ledger s.next (l ++ (op.owned ++ s.owned)) h) :
    Ledger s.next (l ++ (freeOperation s op).1.owned) (h ++ (freeOperation s op).2) := by
  have hp : (l ++ (op.owned ++ s.owned)).Perm
      (objects op.userFree ++ op.operId :: (l ++ (freeOperation s op).1.owned)) := by
    rw [freeOperation_owned, Holder.owned, Resources.owned]
    refine List.perm_iff_count.2 fun a => ?_
    have hobj := (objects_machines op.userFree).count_eq a
    simp only [List.count_append, List.count_cons] at hobj ⊢
    omega
  have hf := ((hl.use (List.mem_append_right _ List.mem_cons_self)).perm hp).frees_all.free
  simpa [freeOperation] using hf

theorem Accounted.freeOperation {loose : List Nat} (ha : Accounted loose (s.put op) h)
    (hi : Idle s.schQu s.timers op.operId) :
    Accounted loose (freeOperation s op).1 (h ++ (freeOperation s op).2) where
  ledger := by
    have hl := ha.ledger
    rw [put_owned] at hl
    exact freeOperation_ledger (s := s) hl
  linked := (ha.linked.drop hi).deleteMachines _

/-! ## Indications -/

namespace Accounted

/-- The data of an INVOKE is taken over, or the operation ends with it. -/
theorem takeData_mts {data : Nat} (ha : Accounted [data] (s.put op) h)
    (hi : env.addUserFree = false → Idle s.schQu s.timers op.operId) :
    Accounted [] (Mts.takeData env s op data).1 (h ++ (Mts.takeData env s op data).2) := by
  unfold Mts.takeData
  by_cases hadd : env.addUserFree = false
  · rw [if_pos hadd]
    have hf := (ha.freeOperation (hi hadd)).free
    rwa [List.append_assoc] at hf
  · rw [if_neg hadd]
    have hu := ha.use operId_mem
    have ht := hu.take.generateEvent env.memGet
    rwa [List.append_assoc] at ht

theorem takeData_ua {data : Nat} {extra : Option Nat}
    (ha : Accounted (data :: extra.toList) (s.put op) h) (hextra : ∀ o ∈ extra, .own o ∉ h)
    (hi : env.allocPending = false ∨ env.addUserFree = false → Idle s.schQu s.timers op.operId)
    (hadd : extra.isSome → env.allocPending = true → env.addUserFree = true → env.addExtra = true) :
    Accounted [] (Ua.takeData env s op data extra).1
      (h ++ (Ua.takeData env s op data extra).2) := by
  unfold Ua.takeData
  by_cases hfail : env.allocPending = false ∨ env.addUserFree = false
  · rw [if_pos hfail]
    have hdata : Accounted [data] (s.put op) h := by
      have hp : (data :: extra.toList).Perm (extra.toList ++ [data]) :=
        (List.perm_append_singleton data _).symm
      exact (ha.perm hp).forget fun o ho => hextra o (Option.mem_toList.1 ho)
    have hf := (hdata.freeOperation (hi hfail)).free
    rwa [List.append_assoc] at hf
  · rw [if_neg hfail]
    have hu := (ha.use operId_mem).take
    rw [List.append_assoc] at hu
    cases extra with
    | none => exact hu.generateEvent env.memGet
    | some o =>
      have hkept : ¬env.addExtra = false := by
        simp only [not_or, Bool.not_eq_false] at hfail
        rw [hadd rfl hfail.1 hfail.2]
        exact Bool.noConfusion
      dsimp only
      rw [if_neg hkept]
      have ht := hu.take.generateEvent env.memGet
      rwa [List.append_assoc] at ht

/-- A new operation, with `n` objects and its machine. -/
theorem newHolder {loose : List Nat} (ha : Accounted loose s h) (n : Nat) :
    Accounted loose
      (Resources.put { s with next := s.next + 2 + n }
        { operId := s.next
          hFsm := s.next + 1 + n
          userFree := (s.requestObjects n).map .free ++ [.deleteMachine (s.next + 1 + n)]
          refs := s.requestObjects n })
      (h ++ (.own s.next :: (s.requestObjects n).map .own ++ [.own (s.next + 1 + n)])) := by
  have hrange : List.range' s.next (n + 2) =
      s.next :: s.requestObjects n ++ [s.next + 1 + n] := by
    rw [List.range'_1_concat, List.range'_succ]
    congr 2
    omega
  have hl := ha.ledger.alloc_range (n + 2)
  rw [hrange] at hl
  have hp : (s.next :: s.requestObjects n ++ [s.next + 1 + n] ++ (loose ++ s.owned)).Perm
      (loose ++ (s.next :: s.requestObjects n ++ [s.next + 1 + n] ++ s.owned)) := by
    rw [← List.append_assoc, ← List.append_assoc]
    exact List.perm_append_comm.append_right _
  have hown := (hl.perm hp).owns (l := s.next :: s.requestObjects n ++ [s.next + 1 + n])
    fun a hin => List.mem_append_right _ (List.mem_append_left _ hin)
  have hobj : (s.requestObjects n).map (UserFree.obj ∘ UserFree.free) = s.requestObjects n :=
    List.map_id _
  constructor
  · rw [put_owned, Holder.owned, List.map_append, List.map_map, hobj]
    rw [List.map_append, show s.next + (n + 2) = s.next + 2 + n by omega] at hown
    exact hown
  · refine Linked.cons ha.linked ⟨fun o ho => ?_, ?_⟩
    · exact List.mem_append_left _ (List.mem_map_of_mem ho)
    · exact List.mem_append_right _ List.mem_cons_self

/-- An operation that is not there yet is idle. -/
theorem idle_next {loose : List Nat} (ha : Accounted loose s h) :
    Idle s.schQu s.timers s.next where
  tasks := by
    intro t ht hruns
    cases t with
    | deleteMachine machine => exact hruns
    | runMachine machine o =>
      obtain ⟨op, hop, hid, -⟩ := ha.linked.tasks machine o ht
      have hlt := ha.below hop
      have ho : o = s.next := hruns
      omega
  timers := by
    intro ht
    obtain ⟨op, hop, hid⟩ := ha.linked.timers _ ht
    have hlt := ha.below hop
    omega

theorem newOperation {data : Nat} (ha : Accounted (data :: l) s h)
    (hl : ∀ a ∈ data :: l, .own a ∉ h)
    (hadd : side = .mts → env.allocOperation = true → env.createMachine = true →
      env.addMachine = true) :
    match newOperation side env s data with
    | .failed s' h' => Accounted [] s' (h ++ h')
    | .made s' op h' => Accounted (data :: l) (s'.put op) (h ++ h') ∧
        Idle s'.schQu s'.timers op.operId ∧ (∀ a ∈ data :: l, .own a ∉ h ++ h') ∧
        env.allocOperation = true ∧ env.createMachine = true ∧ env.addMachine = true := by
  have hdata : Accounted [data] s h := by
    have hp : (data :: l).Perm (l ++ [data]) := (List.perm_append_singleton data l).symm
    exact (ha.perm hp).forget fun a hin => hl a (List.mem_cons_of_mem _ hin)
  have hnone : Accounted [] s h := hdata.forget (l := [data]) fun a hin => by
    rw [List.mem_singleton.1 hin]
    exact hl data List.mem_cons_self
  unfold Mtsua.newOperation
  by_cases halloc : env.allocOperation = false
  · rw [if_pos halloc]
    exact hdata.free
  rw [if_neg halloc]
  dsimp only
  by_cases hcreate : env.createMachine = false
  · rw [if_pos hcreate]
    refine ⟨?_, hdata.linked⟩
    have hmem : s.next ∈ s.next :: ([data] ++ s.owned) := List.mem_cons_self
    have hf := ((hdata.ledger.alloc.own hmem).use hmem).free.free
    rw [List.append_assoc, List.append_assoc, List.append_assoc] at hf
    exact hf
  rw [if_neg hcreate]
  by_cases hmachine : env.addMachine = true
  · rw [if_pos hmachine]
    simp only [Bool.not_eq_false] at halloc hcreate
    refine ⟨ha.newHolder 0, ha.idle_next, fun a hin hev => ?_, halloc, hcreate, hmachine⟩
    have hlt := ha.ledger.below a (List.mem_append_left _ (List.mem_append_left _ hin))
    rcases List.mem_append.1 hev with hev | hev
    · exact hl a hin hev
    · have heq : a = s.next ∨ a = s.next + 1 := by simpa using hev
      omega
  · rw [if_neg hmachine]
    cases side with
    | mts =>
      simp only [Bool.not_eq_false] at halloc hcreate
      exact absurd (hadd rfl halloc hcreate) hmachine
    | ua =>
      refine ⟨?_, hnone.linked.deleteMachines [s.next + 1]⟩
      have hmem : s.next ∈ s.next :: ([] ++ s.owned) := List.mem_cons_self
      have hf := (((hnone.ledger.alloc.own hmem).use hmem).use hmem).free.alloc
      have hp : ((s.next + 1) :: s.owned).Perm
          (s.ops.flatMap Holder.owned ++ (deletions (s.schQu ++ [.deleteMachine (s.next + 1)]) ++
            s.handed)) := by
        rw [deletions_append, Resources.owned, List.append_assoc]
        exact List.perm_middle.symm.trans (List.perm_middle.symm.append_left _)
      rw [List.append_assoc, List.append_assoc, List.append_assoc] at hf
      exact hf.perm hp

end Accounted

/-! ## Careful steps -/

/-- The data of an INVOKE is put on the list. -/
def ResourceEnv.DataTaken (env : ResourceEnv) (side : Side) : Prop :=
  env.addUserFree = true ∧ (side = .ua → env.allocPending = true)

/-- In the UA, so are the contents. -/
def ResourceEnv.ContentsTaken (env : ResourceEnv) (side : Side) (contents : Bool) : Prop :=
  side = .ua → contents = true → env.DataTaken side → env.addExtra = true

/-- Nothing on the list is freed, and no freed object is kept. -/
def Deed.Careful (s : Resources) (op : Holder) : Deed → Prop
  | allocate added kept => added = true ∨ kept = false
  | release o => .free o ∉ op.userFree ∧ o < s.next
  | _ => True

/-- The segmentation timer runs after the deeds. -/
def timerAfter (running : Bool) : List Deed → Bool
  | [] => running
  | .startTimer :: deeds => timerAfter true deeds
  | .stopTimer :: deeds => timerAfter false deeds
  | _ :: deeds => timerAfter running deeds

/-- A step that leaves nothing behind. An operation that ends is idle; an answer whose data is put on
the list can be parsed; a new machine, and contents, can be put on the list. -/
def Careful (side : Side) (s : Resources) : ResourceInput → Prop
  | .invokeIndication existing contents env =>
    env.allocData = true → env.parse = true →
      match existing with
      | none => env.allocOperation = true → env.createMachine = true →
        (side = .mts → env.addMachine = true) ∧
          (env.addMachine = true → env.ContentsTaken side contents)
      | some operId => (s.find operId).isSome = true →
        env.ContentsTaken side contents ∧
          (env.DataTaken side ∨ Idle s.schQu s.timers operId)
  | .resultIndication operId data env => (s.find operId).isSome = true → data = true →
    env.allocData = true → env.addUserFree = true → env.parse = true
  | .errorIndication operId data env => (s.find operId).isSome = true → data = true →
    env.allocData = true → env.addUserFree = true → env.parse = true
  | .confirm _ _ => True
  | .request _ _ _ => True
  | .segmentationTimerExpired operId => operId ∈ s.timers →
    Idle s.schQu (s.timers.erase operId) operId
  | .schRun deeds ends =>
    match s.schQu with
    | .runMachine _ operId :: schQu => ∀ op ∈ s.find operId,
      (∀ d ∈ deeds, d.Careful s op) ∧
        (ends = true → (∀ t ∈ schQu, ¬t.Runs operId) ∧ .generateEvent true ∉ deeds ∧
          timerAfter (decide (operId ∈ s.timers)) deeds = false)
    | _ => True

instance : Decidable (env.DataTaken side) := inferInstanceAs (Decidable (_ ∧ _))

instance {contents : Bool} : Decidable (env.ContentsTaken side contents) :=
  inferInstanceAs (Decidable (_ → _ → _ → _))

instance {d : Deed} : Decidable (d.Careful s op) := by
  unfold Deed.Careful
  split <;> infer_instance

instance {i : ResourceInput} : Decidable (Careful side s i) := by
  unfold Careful
  split
  · split <;> infer_instance
  all_goals first | infer_instance | (split <;> infer_instance)

namespace Accounted

theorem takeData {extra : Option Nat} (ha : Accounted (o :: extra.toList) (s.put op) h)
    (hextra : ∀ a ∈ extra, .own a ∉ h) (hside : side = .mts → extra = none)
    (hkept : side = .ua → extra.isSome = true → env.DataTaken side → env.addExtra = true)
    (hi : env.DataTaken side ∨ Idle s.schQu s.timers op.operId) :
    let r := match side with
      | .mts => Mts.takeData env s op o
      | .ua => Ua.takeData env s op o extra
    Accounted [] r.1 (h ++ r.2) := by
  cases side with
  | mts =>
    rw [hside rfl] at ha
    refine ha.takeData_mts fun hadd => ?_
    refine hi.resolve_left fun ht => ?_
    rw [ht.1] at hadd
    cases hadd
  | ua =>
    refine ha.takeData_ua hextra (fun hfail => ?_) fun hsome hpending hadd =>
      hkept rfl hsome ⟨hadd, fun _ => hpending⟩
    refine hi.resolve_left fun ht => ?_
    rw [ht.1, ht.2 rfl] at hfail
    rcases hfail with hfail | hfail <;> cases hfail

theorem attach {existing extra : Option Nat} (ha : Accounted (o :: extra.toList) s h)
    (hfresh : ∀ a ∈ o :: extra.toList, .own a ∉ h) (hside : side = .mts → extra = none)
    (hnew : existing = none → env.allocOperation = true → env.createMachine = true →
      (side = .mts → env.addMachine = true) ∧ (env.addMachine = true → side = .ua →
        extra.isSome = true → env.DataTaken side → env.addExtra = true))
    (hold : ∀ operId, existing = some operId → (s.find operId).isSome = true →
      (side = .ua → extra.isSome = true → env.DataTaken side → env.addExtra = true) ∧
        (env.DataTaken side ∨ Idle s.schQu s.timers operId)) :
    let takeData := fun s op => match side with
      | .mts => Mts.takeData env s op o
      | .ua => Ua.takeData env s op o extra
    let r := match existing with
      | some operId =>
        match s.find operId with
        | none => (s, extra.toList.map Event.free ++ [Event.free o])
        | some op => takeData (s.without op) op
      | none =>
        match Mtsua.newOperation side env s o with
        | .failed s h => (s, h)
        | .made s op h =>
          let r := takeData s op
          (r.1, h ++ r.2)
    Accounted [] r.1 (h ++ r.2) := by
  have hextra : ∀ {a}, a ∈ extra → a ∈ o :: extra.toList := fun hin =>
    List.mem_cons_of_mem _ (Option.mem_toList.2 hin)
  cases existing with
  | none =>
    have hn := ha.newOperation hfresh fun hs h₁ h₂ => (hnew rfl h₁ h₂).1 hs
    dsimp only
    generalize Mtsua.newOperation side env s o = new at hn
    cases new with
    | failed s' h' => exact hn
    | made s' op h' =>
      obtain ⟨hmade, hidle, hfresh', h₁, h₂, h₃⟩ := hn
      have ht := hmade.takeData (fun a hin => hfresh' a (hextra hin)) hside ((hnew rfl h₁ h₂).2 h₃)
        (.inr hidle)
      dsimp only at ht ⊢
      rwa [List.append_assoc] at ht
  | some operId =>
    dsimp only
    cases hfind : s.find operId with
    | none =>
      refine ⟨?_, ha.linked⟩
      have hp : (o :: extra.toList ++ s.owned).Perm (extra.toList ++ (o :: s.owned)) :=
        List.perm_middle.symm
      have hf := (ha.ledger.perm hp).frees_all.free
      rwa [List.append_assoc] at hf
    | some op =>
      have hid : op.operId = operId := by
        have hfound := List.find?_some hfind
        simpa using hfound
      obtain ⟨hkept, hi⟩ := hold operId rfl (Option.isSome_of_mem hfind)
      rw [← hid] at hi
      exact (ha.take_out hfind).takeData (fun a hin => hfresh a (hextra hin)) hside hkept hi

theorem invokeIndication {existing : Option Nat} {contents : Bool} (ha : Accounted [] s h)
    (hc : Careful side s (.invokeIndication existing contents env)) :
    let r := invokeIndication side env s existing contents
    Accounted [] r.1 (h ++ r.2) := by
  unfold Mtsua.invokeIndication
  by_cases halloc : env.allocData = false
  · rw [if_pos halloc]
    simpa using ha
  rw [if_neg halloc]
  dsimp only
  by_cases hparse : env.parse = false
  · rw [if_pos hparse]
    exact ha.alloc.free
  rw [if_neg hparse]
  simp only [Bool.not_eq_false] at halloc hparse
  have hc := hc halloc hparse
  have hown : ∀ a, .own a ∈ h → a < s.next := fun a hev => ha.ledger.lt_of_own hev
  by_cases hextra : side = .ua ∧ contents = true
  · rw [if_pos hextra]
    have hloc : Accounted (s.next :: (some (s.next + 1)).toList) { s with next := s.next + 1 + 1 } h :=
      ha.alloc.alloc.perm (.swap ..)
    refine hloc.attach (fun a hin hev => ?_) ?_ ?_ ?_
    · have hlt := hown a hev
      have heq : a = s.next ∨ a = s.next + 1 := by simpa using hin
      omega
    · rw [hextra.1]
      exact fun hside => by cases hside
    · rintro rfl h₁ h₂
      exact ⟨(hc h₁ h₂).1, fun h₃ hs _ => (hc h₁ h₂).2 h₃ hs hextra.2⟩
    · rintro operId rfl hfound
      exact ⟨fun hs _ => (hc hfound).1 hs hextra.2, (hc hfound).2⟩
  · rw [if_neg hextra]
    have hloc : Accounted (s.next :: (none : Option Nat).toList) { s with next := s.next + 1 } h :=
      ha.alloc
    refine hloc.attach (fun a hin hev => ?_) (fun _ => rfl) ?_ ?_
    · have hlt := hown a hev
      have heq : a = s.next := by simpa using hin
      omega
    · rintro rfl h₁ h₂
      exact ⟨(hc h₁ h₂).1, fun _ _ hsome => by cases hsome⟩
    · rintro operId rfl hfound
      exact ⟨fun _ hsome => (by cases hsome), (hc hfound).2⟩

theorem preprocessAnswer (ha : Accounted [] (s.put op) h)
    (hc : env.allocData = true → env.addUserFree = true → env.parse = true) :
    let r := preprocessAnswer env s op
    Accounted [] (r.1.put r.2.1) (h ++ r.2.2.1) := by
  unfold Mtsua.preprocessAnswer
  by_cases halloc : env.allocData = false
  · rw [if_pos halloc]
    simpa using ha
  rw [if_neg halloc]
  dsimp only
  have hu : Accounted [s.next] (Resources.put { s with next := s.next + 1 } op)
      (h ++ [.use op.operId]) := (ha.use operId_mem).alloc
  by_cases hadd : env.addUserFree = false
  · rw [if_pos hadd]
    have hf := hu.free
    rwa [List.append_assoc] at hf
  rw [if_neg hadd]
  simp only [Bool.not_eq_false] at halloc hadd
  rw [if_neg (by rw [hc halloc hadd]; exact Bool.noConfusion)]
  have ht := hu.take
  rwa [List.append_assoc] at ht

theorem resultIndication {data : Bool} (ha : Accounted [] (s.put op) h)
    (hc : data = true → env.allocData = true → env.addUserFree = true → env.parse = true) :
    let r := resultIndication side env s op data
    Accounted [] r.1 (h ++ r.2) := by
  cases data with
  | false => exact (ha.use operId_mem).generateEvent _
  | true => exact (ha.preprocessAnswer (hc rfl)).generateEvent _

theorem errorIndication {data : Bool} (ha : Accounted [] (s.put op) h)
    (hc : data = true → env.allocData = true → env.addUserFree = true → env.parse = true) :
    let r := errorIndication side env s op data
    Accounted [] r.1 (h ++ r.2) := by
  cases data with
  | false => exact (ha.use operId_mem).generateEvent _
  | true => exact (ha.preprocessAnswer (hc rfl)).generateEvent _

/-- An answer finds its operation, or nothing happens. -/
theorem answer {operId : Nat} {f : Resources → Holder → Resources × List Event}
    (ha : Accounted [] s h)
    (hf : ∀ op, s.find operId = some op → Accounted [] ((s.without op).put op) h →
      Accounted [] (f (s.without op) op).1 (h ++ (f (s.without op) op).2)) :
    Accounted [] (s.answer operId f).1 (h ++ (s.answer operId f).2) := by
  unfold Resources.answer
  cases hfind : s.find operId with
  | none => simpa using ha
  | some op => exact hf op hfind (ha.take_out hfind)

/-- The machine of a request cannot be made: its operation goes, with `n` objects. -/
theorem request_failed (ha : Accounted [] s h) (n : Nat) :
    let op : Holder :=
      { operId := s.next
        hFsm := s.next + 1 + n
        userFree := (s.requestObjects n).map .free
        refs := s.requestObjects n }
    let r := Mtsua.freeOperation { s with next := s.next + 2 + n } op
    Accounted [] r.1 (h ++ (.own s.next :: (s.requestObjects n).map .own ++ r.2)) := by
  have hl := (ha.ledger.alloc_range (n + 1)).mono (n := s.next + 2 + n) (by omega)
  rw [List.range'_succ] at hl
  have howns := hl.owns (l := s.next :: s.requestObjects n) fun a hin => List.mem_append_left _ hin
  have hobj : (s.requestObjects n).map (UserFree.obj ∘ UserFree.free) = s.requestObjects n :=
    List.map_id _
  intro op r
  have hown : op.owned = s.next :: s.requestObjects n := by
    rw [Holder.owned, List.map_map, hobj]
  have hl' : Ledger ({ s with next := s.next + 2 + n } : Resources).next
      ([] ++ (op.owned ++ Resources.owned { s with next := s.next + 2 + n }))
      (h ++ (s.next :: s.requestObjects n).map .own) := by
    rw [hown]
    exact howns
  have hf := freeOperation_ledger hl'
  rw [List.append_assoc] at hf
  exact ⟨hf, ha.linked.deleteMachines _⟩

theorem request {n : Nat} {machine memGet : Bool} (ha : Accounted [] s h) :
    Accounted [] (s.request n machine memGet).1 (h ++ (s.request n machine memGet).2) := by
  unfold Resources.request
  cases machine with
  | true => exact (ha.newHolder n).generateEvent memGet
  | false => exact ha.request_failed n

/-- The scheduler deletes a machine. -/
theorem deleteMachine {machine : Nat} {schQu : List MachineTask} (ha : Accounted [] s h)
    (hq : s.schQu = .deleteMachine machine :: schQu) :
    Accounted [] { s with schQu } (h ++ [.free machine]) where
  ledger := by
    have hl := ha.ledger
    rw [Resources.owned, hq] at hl
    exact (hl.perm List.perm_middle).free
  linked := ha.linked.mono (fun t ht => hq ▸ List.mem_cons_of_mem _ ht) fun _ hin => hin

theorem segmentationTimerExpired {operId : Nat} (ha : Accounted [] s h)
    (hc : Careful side s (.segmentationTimerExpired operId)) :
    Accounted [] (s.segmentationTimerExpired operId).1
      (h ++ (s.segmentationTimerExpired operId).2) := by
  unfold Resources.segmentationTimerExpired
  by_cases ht : operId ∈ s.timers
  · rw [if_pos ht]
    dsimp only
    obtain ⟨op, hop, rfl⟩ := ha.linked.timers operId ht
    have hs : Accounted [] { s with timers := s.timers.erase op.operId } h :=
      ⟨ha.ledger, ha.linked.mono (fun _ hin => hin) fun _ hin => List.mem_of_mem_erase hin⟩
    have hfind := hs.find_eq hop rfl
    rw [hfind]
    exact (hs.take_out hfind).freeOperation (hc ht)
  · rw [if_neg ht]
    simpa using ha

end Accounted

/-! ## The machine -/

theorem runDeeds_cons {d : Deed} {ds : List Deed} :
    runDeeds s op (d :: ds) =
      let r := d.run s op
      let q := runDeeds r.1 r.2.1 ds
      (q.1, q.2.1, r.2.2 ++ q.2.2) := rfl

theorem Deed.run_release (hin : .free o ∈ op.userFree) :
    Deed.run s op (.release o) = (s, op, [.use o, .free o]) := if_pos hin

theorem Deed.run_release_of_notMem (hin : .free o ∉ op.userFree) :
    Deed.run s op (.release o) = (s, op, []) := if_neg hin

theorem Deed.run_handOver (hin : .free o ∈ op.userFree) : Deed.run s op (.handOver o) =
    ({ s with handed := o :: s.handed },
      { op with
        userFree := op.userFree.erase (.free o)
        refs := op.refs.filter (· ≠ o) }, []) := if_pos hin

theorem Deed.run_handOver_of_notMem (hin : .free o ∉ op.userFree) :
    Deed.run s op (.handOver o) = (s, op, []) := if_neg hin

theorem Deed.run_ids {d : Deed} :
    (d.run s op).2.1.operId = op.operId ∧ (d.run s op).2.1.hFsm = op.hFsm := by
  cases d with
  | allocate added kept => cases added <;> exact ⟨rfl, rfl⟩
  | release o =>
    by_cases hin : .free o ∈ op.userFree
    · rw [Deed.run_release hin]
      exact ⟨rfl, rfl⟩
    · rw [Deed.run_release_of_notMem hin]
      exact ⟨rfl, rfl⟩
  | handOver o =>
    by_cases hin : .free o ∈ op.userFree
    · rw [Deed.run_handOver hin]
      exact ⟨rfl, rfl⟩
    · rw [Deed.run_handOver_of_notMem hin]
      exact ⟨rfl, rfl⟩
  | generateEvent memGet => exact ⟨rfl, rfl⟩
  | startTimer => exact ⟨rfl, rfl⟩
  | stopTimer => exact ⟨rfl, rfl⟩

theorem runDeeds_ids (s : Resources) (op : Holder) (ds : List Deed) :
    (runDeeds s op ds).2.1.operId = op.operId ∧ (runDeeds s op ds).2.1.hFsm = op.hFsm := by
  induction ds generalizing s op with
  | nil => exact ⟨rfl, rfl⟩
  | cons d ds ih =>
    rw [runDeeds_cons]
    obtain ⟨hid, hfsm⟩ := ih (d.run s op).1 (d.run s op).2.1
    exact ⟨hid.trans Deed.run_ids.1, hfsm.trans Deed.run_ids.2⟩

/-- What was not on the list before a deed is not on it afterwards, unless it is new. -/
theorem Deed.Careful.run {d d' : Deed} (hd : d'.Careful s op) :
    d'.Careful (d.run s op).1 (d.run s op).2.1 := by
  cases d' with
  | release o =>
    obtain ⟨hlist, hold⟩ := hd
    cases d with
    | allocate added kept =>
      refine ⟨?_, ?_⟩
      · cases added with
        | false => exact hlist
        | true =>
          intro hin
          rcases List.mem_append.1 hin with hin | hin
          · exact hlist hin
          · cases List.mem_singleton.1 hin
            exact Nat.lt_irrefl _ hold
      · cases added <;> exact Nat.lt_succ_of_lt hold
    | release o' =>
      by_cases hin : .free o' ∈ op.userFree
      · rw [Deed.run_release hin]
        exact ⟨hlist, hold⟩
      · rw [Deed.run_release_of_notMem hin]
        exact ⟨hlist, hold⟩
    | handOver o' =>
      by_cases hin : .free o' ∈ op.userFree
      · rw [Deed.run_handOver hin]
        exact ⟨fun he => hlist (List.mem_of_mem_erase he), hold⟩
      · rw [Deed.run_handOver_of_notMem hin]
        exact ⟨hlist, hold⟩
    | generateEvent memGet => exact ⟨hlist, hold⟩
    | startTimer => exact ⟨hlist, hold⟩
    | stopTimer => exact ⟨hlist, hold⟩
  | allocate added kept => exact hd
  | handOver o => trivial
  | generateEvent memGet => trivial
  | startTimer => trivial
  | stopTimer => trivial

namespace Accounted

theorem deed {d : Deed} (ha : Accounted [] (s.put op) h) (hd : d.Careful s op) :
    let r := d.run s op
    Accounted [] (r.1.put r.2.1) (h ++ r.2.2) := by
  cases d with
  | allocate added kept =>
    cases added with
    | false =>
      obtain rfl : kept = false := hd.resolve_left Bool.noConfusion
      exact ha.alloc.free
    | true =>
      have hl : Accounted [s.next] (Resources.put { s with next := s.next + 1 } op) h := ha.alloc
      refine hl.register ?_ ?_ ?_ fun a hin => ?_
      · rfl
      · rfl
      · rfl
      · cases kept with
        | false => exact .inl hin
        | true => exact (List.mem_append.1 hin).imp_right List.mem_singleton.1
  | release o =>
    rw [Deed.run_release_of_notMem hd.1]
    simpa using ha
  | handOver o =>
    by_cases hin : .free o ∈ op.userFree
    · rw [Deed.run_handOver hin]
      have hl := ha.ledger
      have hok := ha.linked.holders op List.mem_cons_self
      have hp := ((List.perm_cons_erase hin).map UserFree.obj)
      constructor
      · rw [List.append_nil]
        refine hl.perm (List.perm_iff_count.2 fun a => ?_)
        have hcount := hp.count_eq a
        rw [put_owned, put_owned]
        simp only [Holder.owned, Resources.owned, List.map_cons, UserFree.obj,
          List.count_append, List.count_cons, List.count_nil] at hcount ⊢
        omega
      · refine ha.linked.update ⟨fun a ha => ?_, ?_⟩ rfl rfl
        · obtain ⟨hmem, hne⟩ := List.mem_filter.1 ha
          refine (List.mem_erase_of_ne fun heq => ?_).2 (hok.refs a hmem)
          cases heq
          exact absurd rfl (of_decide_eq_true hne)
        · exact (List.mem_erase_of_ne fun heq => by cases heq).2 hok.machine
    · rw [Deed.run_handOver_of_notMem hin]
      simpa using ha
  | generateEvent memGet => simpa [Deed.run] using ha.generateEvent memGet
  | startTimer =>
    have hl : Ledger s.next ([] ++ (s.put op).owned) (h ++ []) := by
      rw [List.append_nil]
      exact ha.ledger
    refine ⟨hl, ha.linked.holders, ha.linked.tasks, fun o ho => ?_⟩
    rcases List.mem_cons.1 ho with rfl | ho
    · exact ⟨op, List.mem_cons_self, rfl⟩
    · exact ha.linked.timers o ho
  | stopTimer =>
    have hl : Ledger s.next ([] ++ (s.put op).owned) (h ++ []) := by
      rw [List.append_nil]
      exact ha.ledger
    exact ⟨hl, ha.linked.mono (fun _ hin => hin) fun _ hin => List.mem_of_mem_filter hin⟩

theorem deeds {ds : List Deed} (ha : Accounted [] (s.put op) h) (hds : ∀ d ∈ ds, d.Careful s op) :
    let r := runDeeds s op ds
    Accounted [] (r.1.put r.2.1) (h ++ r.2.2) := by
  induction ds generalizing s op h with
  | nil => simpa [runDeeds] using ha
  | cons d ds ih =>
    obtain ⟨hd, hds⟩ := List.forall_mem_cons.1 hds
    have hrest := ih (ha.deed hd) fun d' hd' => (hds d' hd').run
    rw [runDeeds_cons]
    dsimp only at hrest ⊢
    rwa [List.append_assoc] at hrest

end Accounted

/-- What happens on the list touches neither the scheduler nor the timers. -/
theorem Deed.run_release_apart : (Deed.run s op (.release o)).1.schQu = s.schQu ∧
    (Deed.run s op (.release o)).1.timers = s.timers := by
  by_cases hin : .free o ∈ op.userFree
  · rw [Deed.run_release hin]
    exact ⟨rfl, rfl⟩
  · rw [Deed.run_release_of_notMem hin]
    exact ⟨rfl, rfl⟩

theorem Deed.run_handOver_apart : (Deed.run s op (.handOver o)).1.schQu = s.schQu ∧
    (Deed.run s op (.handOver o)).1.timers = s.timers := by
  by_cases hin : .free o ∈ op.userFree
  · rw [Deed.run_handOver hin]
    exact ⟨rfl, rfl⟩
  · rw [Deed.run_handOver_of_notMem hin]
    exact ⟨rfl, rfl⟩

theorem Deed.run_tasks {d : Deed} (hd : d ≠ .generateEvent true) :
    (d.run s op).1.schQu = s.schQu := by
  cases d with
  | allocate added kept => cases added <;> rfl
  | release o => exact Deed.run_release_apart.1
  | handOver o => exact Deed.run_handOver_apart.1
  | generateEvent memGet =>
    cases memGet with
    | false => exact List.append_nil _
    | true => exact absurd rfl hd
  | startTimer => rfl
  | stopTimer => rfl

theorem timerAfter_cons {d : Deed} {ds : List Deed} :
    timerAfter (decide (op.operId ∈ s.timers)) (d :: ds) =
      timerAfter (decide (op.operId ∈ (d.run s op).1.timers)) ds := by
  cases d with
  | allocate added kept => cases added <;> rfl
  | release o =>
    rw [Deed.run_release_apart.2]
    rfl
  | handOver o =>
    rw [Deed.run_handOver_apart.2]
    rfl
  | generateEvent memGet => rfl
  | startTimer => simp [Deed.run, timerAfter]
  | stopTimer => simp [Deed.run, timerAfter]

/-- After these deeds neither a task nor the timer is left. -/
theorem runDeeds_idle {ds : List Deed} (htasks : ∀ t ∈ s.schQu, ¬t.Runs op.operId)
    (hev : .generateEvent true ∉ ds)
    (htimer : timerAfter (decide (op.operId ∈ s.timers)) ds = false) :
    Idle (runDeeds s op ds).1.schQu (runDeeds s op ds).1.timers op.operId := by
  induction ds generalizing s op with
  | nil => exact ⟨htasks, of_decide_eq_false htimer⟩
  | cons d ds ih =>
    obtain ⟨hne, hev⟩ := not_or.1 (fun h => hev (List.mem_cons.2 h))
    rw [timerAfter_cons, ← Deed.run_ids.1] at htimer
    have htasks' : ∀ t ∈ (d.run s op).1.schQu, ¬t.Runs (d.run s op).2.1.operId := by
      rw [Deed.run_tasks fun he => hne he.symm, Deed.run_ids.1]
      exact htasks
    have hrest := ih htasks' hev htimer
    rwa [Deed.run_ids.1] at hrest

theorem runMachine_found {machine operId : Nat} {deeds : List Deed} {ends : Bool}
    (hfind : s.find operId = some op) :
    runMachine s machine operId deeds ends =
      let q := runDeeds (s.without op) op deeds
      let h := .use machine :: .use operId :: op.refs.map .use ++ q.2.2
      if ends then
        ((freeOperation q.1 q.2.1).1, h ++ (freeOperation q.1 q.2.1).2 ++ [.use machine])
      else (q.1.put q.2.1, h ++ [.use machine]) := by
  rw [runMachine, hfind]

namespace Accounted

theorem runMachine {machine operId : Nat} {deeds : List Deed} {ends : Bool}
    {schQu : List MachineTask} (ha : Accounted [] s h)
    (hq : s.schQu = .runMachine machine operId :: schQu) (hc : Careful side s (.schRun deeds ends)) :
    let r := runMachine { s with schQu } machine operId deeds ends
    Accounted [] r.1 (h ++ r.2) := by
  obtain ⟨op, hop, rfl, rfl⟩ := ha.linked.tasks machine operId (hq ▸ List.mem_cons_self)
  have hcare := hc
  rw [Careful, hq] at hcare
  obtain ⟨hdeeds, hends⟩ := hcare op (ha.find_eq hop rfl)
  have hs : Accounted [] { s with schQu } h := by
    have hown : Resources.owned { s with schQu } = s.owned := by
      rw [Resources.owned, Resources.owned, hq]
      rfl
    refine ⟨?_, ha.linked.mono (fun t ht => hq ▸ List.mem_cons_of_mem _ ht) fun _ hin => hin⟩
    rw [hown]
    exact ha.ledger
  have hfind := hs.find_eq hop rfl
  have hhand := hs.take_out hfind
  have hok := hhand.linked.holders op List.mem_cons_self
  -- the predicate and the action use the machine, the operation and what it refers to
  have hmachine : op.hFsm ∈ (Resources.put (Resources.without { s with schQu } op) op).owned :=
    obj_mem hok.machine
  have hused := ((hhand.use hmachine).use operId_mem).uses fun a hin =>
    obj_mem (hok.refs a hin)
  have hrun := hused.deeds hdeeds
  rw [runMachine_found hfind]
  dsimp only at hrun ⊢
  have hids := runDeeds_ids (Resources.without { s with schQu } op) op deeds
  generalize hq' : runDeeds (Resources.without { s with schQu } op) op deeds = q at hrun hids
  rw [List.append_assoc, List.append_assoc, List.append_assoc] at hrun
  have hlist := (hrun.linked.holders q.2.1 List.mem_cons_self).machine
  rw [hids.2] at hlist
  cases ends with
  | false =>
    have hfin := hrun.use (obj_mem hlist)
    rwa [List.append_assoc] at hfin
  | true =>
    obtain ⟨htasks, hev, htimer⟩ := hends rfl
    have hidle := runDeeds_idle (s := Resources.without { s with schQu } op) htasks hev htimer
    rw [hq', ← hids.1] at hidle
    have hfin := (hrun.freeOperation hidle).use (o := op.hFsm) ?_
    · rw [List.append_assoc, List.append_assoc] at hfin
      rw [if_pos rfl]
      simpa using hfin
    · rw [freeOperation_owned]
      refine List.mem_append_right _ (List.mem_append_left _ (List.mem_append_right _ ?_))
      exact List.mem_filterMap.2 ⟨_, hlist, rfl⟩

theorem schRun {deeds : List Deed} {ends : Bool} (ha : Accounted [] s h)
    (hc : Careful side s (.schRun deeds ends)) :
    Accounted [] (s.schRun deeds ends).1 (h ++ (s.schRun deeds ends).2) := by
  unfold Resources.schRun
  split
  · simpa using ha
  · rename_i hq
    exact ha.deleteMachine hq
  · rename_i hq
    exact ha.runMachine hq hc

/-- Every careful step keeps the account. -/
theorem step {i : ResourceInput} (ha : Accounted [] s h) (hc : Careful side s i) :
    Accounted [] (s.step side i).1 (h ++ (s.step side i).2) := by
  cases i with
  | invokeIndication existing contents env => exact ha.invokeIndication hc
  | resultIndication operId data env =>
    exact ha.answer fun op hfind hop => hop.resultIndication (hc (Option.isSome_of_mem hfind))
  | errorIndication operId data env =>
    exact ha.answer fun op hfind hop => hop.errorIndication (hc (Option.isSome_of_mem hfind))
  | confirm operId memGet =>
    exact ha.answer fun op _ hop => (hop.use operId_mem).generateEvent memGet
  | request n machine memGet => exact ha.request
  | segmentationTimerExpired operId => exact ha.segmentationTimerExpired hc
  | schRun deeds ends => exact ha.schRun hc

end Accounted

/-! ## Runs -/

/-- **What is put on the list of an operation is freed exactly once**, at the latest with the operation
or, for a machine, by the scheduler after it; nothing is used after it has been freed, and nothing that
has been freed is on a list. -/
theorem freed_once (side : Side) {s : Resources} {h : List Event}
    (hr : Run.Reach (resources side) (Careful side) h s) :
    Safe h ∧
      (∀ o, .own o ∈ h → o ∈ s.owned ∧ o ∉ frees h ∨ o ∉ s.owned ∧ (frees h).count o = 1) ∧
      ∀ op ∈ s.ops, ∀ u ∈ op.userFree, u.obj ∉ frees h := by
  have ha : Accounted [] s h := by
    refine Run.Reach.invariant_hist (P := fun s h => Accounted [] s h) (fun s hi => ?_)
      (fun s i t o h ha hc hs => ?_) hr
    · obtain rfl : s = {} := hi
      refine ⟨.nil, fun _ hop => absurd hop List.not_mem_nil, fun _ _ ht => ?_, fun _ ht => ?_⟩
      · exact absurd ht List.not_mem_nil
      · exact absurd ht List.not_mem_nil
    · obtain ⟨rfl, rfl⟩ := Prod.mk.inj (Option.some.inj hs)
      exact ha.step hc
  refine ⟨ha.ledger.safe, fun o ho => ha.ledger.freed_or_owned ho, fun op hop u hu hfreed => ?_⟩
  refine (List.nodup_append.1 ha.ledger.apart).2.2 u.obj (List.mem_append_right _ ?_) u.obj hfreed rfl
  exact List.mem_append_left _ (List.mem_flatMap.2 ⟨op, hop, List.mem_cons_of_mem _
    (List.mem_map_of_mem hu)⟩)

/-- A delivery with one object: its machine invokes, keeps a buffer, and ends after the answer. -/
theorem freed_once_delivery : ∃ s h, Run.Reach (resources .mts) (Careful .mts) h s ∧
    frees h = [1, 3, 4, 0, 2] ∧ Safe h ∧
      (∀ o, .own o ∈ h → o ∈ s.owned ∧ o ∉ frees h ∨ o ∉ s.owned ∧ (frees h).count o = 1) ∧
      ∀ op ∈ s.ops, ∀ u ∈ op.userFree, u.obj ∉ frees h := by
  have hb : ∀ s i, decide (Careful .mts s i) = true → Careful .mts s i := fun _ _ hb =>
    of_decide_eq_true hb
  obtain ⟨s, h, hr, hp⟩ := Run.Reach.of_run (S := resources .mts) (s := {}) hb rfl
    [.request 1 true true, .schRun [.allocate true true] false, .errorIndication 0 true {},
      .schRun [] true, .schRun [] false]
    (fun _ h => decide (frees h = [1, 3, 4, 0, 2])) (by decide +kernel)
  exact ⟨s, h, hr, of_decide_eq_true hp, freed_once .mts hr⟩

/-- The data of an ERROR cannot be parsed: it is freed at once, and again with the operation. -/
theorem answer_freed_twice : ∃ s h, Run.Reach (resources .mts) Run.any h s ∧ ¬Safe h := by
  obtain ⟨s, h, hr, hp⟩ := Run.Reach.of_run_any (S := resources .mts) (s := {}) rfl
    [.request 1 true true, .schRun [] false, .errorIndication 0 true { parse := false },
      .schRun [] true]
    (fun _ h => decide (¬(frees h).Nodup)) (by decide +kernel)
  exact ⟨s, h, hr, fun hs => of_decide_eq_true hp hs.once⟩

end Mtsua
