import Emsd.Ocp.Data

/-!
# The callback user shell

The user shell names the invocations of its user by small numbers of its own. Two tables tie them
to the provider: `uToPInvokeIdMap`, with the provider's id for each id of the user, and
`invokeCBMap`, with the SAP for each id of the provider.

* `UserShell.getEvent`: what one event of the provider does to the tables, and the callback.
* `UserShell.Wf`: an id of the provider stands for at most one id of the user, and only as long
  as its control block is active. `Wf.getEvent` keeps it.
-/

namespace Esros

/-- `LOPQ_INVOKE_CBS`. -/
def lopqInvokeCbs : Nat := 64

/-- An entry of `uToPInvokeIdMap`. -/
structure UToPInvokeId where
  active : Bool := false
  invokeId : Int := -1
  deriving DecidableEq, Repr

/-- An entry of `invokeCBMap`; the SAP stays after the entry has been given up. -/
structure InvokeCB where
  active : Bool := false
  sapCB : Option Nat := none
  deriving DecidableEq, Repr

structure UserShell where
  uToPInvokeIdMap : Nat → UToPInvokeId := fun _ => {}
  invokeCBMap : Nat → InvokeCB := fun _ => {}

/-- The events that end an invocation. -/
inductive Conclusion
  | resultInd
  | errorInd
  | resultCnf
  | errorCnf
  | failureInd
  deriving DecidableEq, Repr

/-- What the provider puts in a user's event queue. -/
inductive Event
  | invokeInd (locSapDesc invokeId : Nat)
  | concluded (kind : Conclusion) (invokeId userInvokeRef : Nat)
  | invokeReqStat (success : Bool) (locSapDesc invokeId userShellInvokeId userInvokeRef : Nat)
  deriving DecidableEq, Repr

/-- What the user is told, under its own id. -/
inductive Callback
  | invokeInd (sapDesc : Nat) (invokeId : Int)
  | concluded (sapDesc : Nat) (kind : Conclusion) (invokeId : Int) (userInvokeRef : Nat)
  deriving DecidableEq, Repr

namespace UserShell

variable {u v : UserShell} {e : Event} {c : Option Callback} {sapDesc ps us i : Nat} {id : Int}

def setUS (u : UserShell) (us : Nat) (entry : UToPInvokeId) : UserShell :=
  { u with uToPInvokeIdMap := fun i => if i = us then entry else u.uToPInvokeIdMap i }

def setCB (u : UserShell) (ps : Nat) (cb : InvokeCB) : UserShell :=
  { u with invokeCBMap := fun i => if i = ps then cb else u.invokeCBMap i }

/-- `lous_addInvokeCB`. -/
def addInvokeCB (u : UserShell) (sapDesc ps : Nat) : Option UserShell :=
  if (u.invokeCBMap ps).active then none
  else some (u.setCB ps { active := true, sapCB := some sapDesc })

/-- `lous_removeInvokeCB`. -/
def removeInvokeCB (u : UserShell) (ps : Nat) : UserShell :=
  u.setCB ps { u.invokeCBMap ps with active := false }

/-- `lous_addUSInvoke`: the smallest id that is not in use. -/
def addUSInvoke (u : UserShell) : Option (Nat × UserShell) :=
  ((List.range lopqInvokeCbs).find? fun i => !(u.uToPInvokeIdMap i).active).map fun us =>
    (us, u.setUS us { u.uToPInvokeIdMap us with active := true })

/-- `lous_removeUSInvokeId`. With -1 the code writes before the table. -/
def removeUSInvokeId (u : UserShell) (id : Int) : UserShell :=
  if 0 ≤ id then u.setUS id.toNat {} else u

/-- `lous_usInvokeId`: the first entry with the provider's id, or -1. -/
def usInvokeId (u : UserShell) (ps : Nat) : Int :=
  match (List.range lopqInvokeCbs).find? fun i => (u.uToPInvokeIdMap i).invokeId = ps with
  | some i => i
  | none => -1

/-- `esro_cb_getEvent` on the event that it has taken from the queue; nothing where it follows
the SAP pointer of an id that no SAP has ever had. -/
def getEvent (u : UserShell) : Event → Option (UserShell × Option Callback)
  | .invokeInd sapDesc ps =>
    match u.addInvokeCB sapDesc ps with
    | none => some (u, none)
    | some u =>
      match u.addUSInvoke with
      | none => some (u, none)
      | some (us, u) =>
        let u := u.setUS us { active := true, invokeId := ps }
        some (u, some (.invokeInd sapDesc (u.usInvokeId ps)))
  | .concluded kind ps ref =>
    if lopqInvokeCbs ≤ ps then some (u, none) else
    match (u.invokeCBMap ps).sapCB with
    | none => if kind = .resultInd ∨ kind = .errorInd then some (u, none) else none
    | some sapDesc =>
      let id := u.usInvokeId ps
      some ((u.removeInvokeCB ps).removeUSInvokeId id, some (.concluded sapDesc kind id ref))
  | .invokeReqStat success sapDesc ps us ref =>
    if !success then
      some (u.removeUSInvokeId us, some (.concluded sapDesc .failureInd us ref))
    else
      match u.addInvokeCB sapDesc ps with
      | none => some (u.removeUSInvokeId us, some (.concluded sapDesc .failureInd us ref))
      | some u => some (u.setUS us { active := true, invokeId := ps }, none)

/-! ## What the operations do -/

/-- The ids in use. -/
def isOpen (u : UserShell) (i : Nat) : Bool := (u.uToPInvokeIdMap i).active

theorem addInvokeCB_some (h : u.addInvokeCB sapDesc ps = some v) :
    (u.invokeCBMap ps).active = false ∧
      v = u.setCB ps { active := true, sapCB := some sapDesc } := by
  unfold addInvokeCB at h
  split at h
  · cases h
  · rename_i hps
    exact ⟨by simpa using hps, (Option.some.inj h).symm⟩

theorem addUSInvoke_some (h : u.addUSInvoke = some (us, v)) :
    u.isOpen us = false ∧ us < lopqInvokeCbs ∧
      v = u.setUS us { u.uToPInvokeIdMap us with active := true } := by
  obtain ⟨i, hi, he⟩ := Option.map_eq_some_iff.1 h
  obtain ⟨rfl, rfl⟩ := Prod.mk.inj he
  have hfree := List.find?_some hi
  have hlt := List.mem_range.1 (List.mem_of_find?_eq_some hi)
  exact ⟨by simpa [isOpen] using hfree, hlt, rfl⟩

/-- The id found for a provider's id has that id in its entry. -/
theorem usInvokeId_eq (h : u.usInvokeId ps = (i : Int)) : (u.uToPInvokeIdMap i).invokeId = ps := by
  unfold usInvokeId at h
  split at h
  · rename_i j hj
    obtain rfl : j = i := by exact_mod_cast h
    simpa using List.find?_some hj
  · omega

theorem usInvokeId_neg (h : u.usInvokeId ps < 0) (hi : i < lopqInvokeCbs) :
    (u.uToPInvokeIdMap i).invokeId ≠ ps := by
  unfold usInvokeId at h
  split at h
  · omega
  · rename_i hnone
    have := List.find?_eq_none.1 hnone i (List.mem_range.2 hi)
    simpa using this

theorem usInvokeId_cases (u : UserShell) (ps : Nat) :
    (∃ i : Nat, u.usInvokeId ps = i) ∨ u.usInvokeId ps = -1 := by
  unfold usInvokeId
  split
  · rename_i j _
    exact .inl ⟨j, rfl⟩
  · exact .inr rfl

/-! ## The tables belong together -/

/-- **The tables.** An entry that is not in use has no id of the provider; an id of the provider
in an entry has an active control block, and is in no other entry. -/
structure Wf (u : UserShell) : Prop where
  small : ∀ i, (u.uToPInvokeIdMap i).active = true → i < lopqInvokeCbs
  unused : ∀ i, (u.uToPInvokeIdMap i).active = false → (u.uToPInvokeIdMap i).invokeId = -1
  active : ∀ i (ps : Nat), (u.uToPInvokeIdMap i).invokeId = ps → (u.invokeCBMap ps).active = true
  unique : ∀ i j (ps : Nat), (u.uToPInvokeIdMap i).invokeId = ps →
    (u.uToPInvokeIdMap j).invokeId = ps → i = j

theorem Wf.init : ({} : UserShell).Wf := by
  refine ⟨fun i h => ?_, fun _ _ => rfl, fun i ps h => ?_, fun i j ps h _ => ?_⟩
  · cases h
  · exact absurd (show (-1 : Int) = ps from h) (by omega)
  · exact absurd (show (-1 : Int) = ps from h) (by omega)

/-- Giving an id up keeps the tables. -/
theorem Wf.removeUSInvokeId (h : u.Wf) : (u.removeUSInvokeId id).Wf := by
  unfold UserShell.removeUSInvokeId
  split
  · refine ⟨fun i hi => ?_, fun i hi => ?_, fun i ps hi => ?_, fun i j ps hi hj => ?_⟩
    · simp only [setUS] at hi
      split at hi
      · cases hi
      · exact h.small i hi
    · simp only [setUS] at hi ⊢
      split at hi
      · rw [if_pos ‹_›]
      · rw [if_neg ‹_›]
        exact h.unused i hi
    · simp only [setUS] at hi ⊢
      split at hi
      · exact absurd (show (-1 : Int) = ps from hi) (by omega)
      · exact h.active i ps hi
    · simp only [setUS] at hi hj
      split at hi
      · exact absurd (show (-1 : Int) = ps from hi) (by omega)
      · split at hj
        · exact absurd (show (-1 : Int) = ps from hj) (by omega)
        · exact h.unique i j ps hi hj
  · exact h

/-- Activating a control block keeps the tables. -/
theorem Wf.setCB (h : u.Wf) {cb : InvokeCB} (hcb : cb.active = true) : (u.setCB ps cb).Wf := by
  refine ⟨h.small, h.unused, fun i p hi => ?_, h.unique⟩
  simp only [UserShell.setCB]
  split
  · exact hcb
  · exact h.active i p hi

/-- An id of the provider that is in no entry may be put into one. -/
theorem Wf.setUS (h : u.Wf) (hcb : (u.invokeCBMap ps).active = true) (hsmall : us < lopqInvokeCbs)
    (hno : ∀ i, (u.uToPInvokeIdMap i).invokeId ≠ ps) :
    (u.setUS us { active := true, invokeId := ps }).Wf := by
  refine ⟨fun i hi => ?_, fun i hi => ?_, fun i p hi => ?_, fun i j p hi hj => ?_⟩
  · simp only [UserShell.setUS] at hi
    split at hi
    · omega
    · exact h.small i hi
  · simp only [UserShell.setUS] at hi ⊢
    split at hi
    · cases hi
    · rw [if_neg ‹_›]
      exact h.unused i hi
  · simp only [UserShell.setUS] at hi ⊢
    split at hi
    · obtain rfl : ps = p := by exact_mod_cast (show ((ps : Nat) : Int) = (p : Nat) from hi)
      exact hcb
    · exact h.active i p hi
  · simp only [UserShell.setUS] at hi hj
    split at hi <;> split at hj
    · omega
    · exact absurd (hj.trans (show ((p : Nat) : Int) = (ps : Nat) from hi.symm)) (hno j)
    · exact absurd (hi.trans (show ((p : Nat) : Int) = (ps : Nat) from hj.symm)) (hno i)
    · exact h.unique i j p hi hj

/-- Taking an unused id keeps the tables. -/
theorem Wf.addUSInvoke (h : u.Wf) (ha : u.addUSInvoke = some (us, v)) : v.Wf := by
  obtain ⟨hfree, hsmall, rfl⟩ := addUSInvoke_some ha
  have hid : (u.uToPInvokeIdMap us).invokeId = -1 := h.unused us hfree
  refine ⟨fun i hi => ?_, fun i hi => ?_, fun i p hi => ?_, fun i j p hi hj => ?_⟩
  · simp only [UserShell.setUS] at hi
    split at hi
    · omega
    · exact h.small i hi
  · simp only [UserShell.setUS] at hi ⊢
    split at hi
    · cases hi
    · rw [if_neg ‹_›]
      exact h.unused i hi
  · simp only [UserShell.setUS] at hi ⊢
    split at hi
    · exact absurd (hid.symm.trans hi) (by omega)
    · exact h.active i p hi
  · simp only [UserShell.setUS] at hi hj
    split at hi
    · exact absurd (hid.symm.trans hi) (by omega)
    · split at hj
      · exact absurd (hid.symm.trans hj) (by omega)
      · exact h.unique i j p hi hj

/-- An id of the provider whose control block is free is in no entry. -/
theorem Wf.absent (h : u.Wf) (hps : (u.invokeCBMap ps).active = false) (i : Nat) :
    (u.uToPInvokeIdMap i).invokeId ≠ ps := by
  intro hi
  rw [h.active i ps hi] at hps
  cases hps

/-- The entry of a provider's id is the one that is found. -/
theorem Wf.usInvokeId (h : u.Wf) (hi : (u.uToPInvokeIdMap i).invokeId = (ps : Int)) :
    u.usInvokeId ps = i := by
  have hact : (u.uToPInvokeIdMap i).active = true := by
    cases ha : (u.uToPInvokeIdMap i).active with
    | true => rfl
    | false => exact absurd ((h.unused i ha).symm.trans hi) (by omega)
  rcases u.usInvokeId_cases ps with ⟨j, hj⟩ | hj
  · rw [hj, h.unique j i ps (usInvokeId_eq hj) hi]
  · exact absurd hi (usInvokeId_neg (by omega) (h.small i hact))

/-- A provider's id whose entry is given up with its control block is nowhere any more. -/
theorem Wf.conclude (h : u.Wf) :
    ((u.removeInvokeCB ps).removeUSInvokeId (u.usInvokeId ps)).Wf := by
  have hcb : ∀ i (p : Nat), (u.uToPInvokeIdMap i).invokeId = p → p ≠ ps →
      ((u.removeInvokeCB ps).invokeCBMap p).active = true := by
    intro i p hi hne
    simp only [removeInvokeCB, UserShell.setCB, if_neg hne]
    exact h.active i p hi
  rcases u.usInvokeId_cases ps with ⟨j, hj⟩ | hj
  · rw [hj]
    unfold UserShell.removeUSInvokeId
    rw [if_pos (by omega)]
    have hjps : (u.uToPInvokeIdMap j).invokeId = ps := usInvokeId_eq hj
    refine ⟨fun i hi => ?_, fun i hi => ?_, fun i p hi => ?_, fun i k p hi hk => ?_⟩
    · simp only [UserShell.setUS] at hi
      split at hi
      · cases hi
      · exact h.small i hi
    · simp only [UserShell.setUS] at hi ⊢
      split at hi
      · rw [if_pos ‹_›]
      · rw [if_neg ‹_›]
        exact h.unused i hi
    · simp only [UserShell.setUS] at hi ⊢
      split at hi
      · exact absurd (show (-1 : Int) = p from hi) (by omega)
      · rename_i hne
        refine hcb i p hi fun hp => ?_
        subst hp
        exact hne (by simpa using h.unique i j p hi hjps)
    · simp only [UserShell.setUS] at hi hk
      split at hi
      · exact absurd (show (-1 : Int) = p from hi) (by omega)
      · split at hk
        · exact absurd (show (-1 : Int) = p from hk) (by omega)
        · exact h.unique i k p hi hk
  · rw [hj]
    refine ⟨h.small, h.unused, fun i p hi => hcb i p hi fun hp => ?_, h.unique⟩
    subst hp
    have := h.usInvokeId hi
    omega

/-- **The tables stay in order** with every event of the provider, as long as a status answers a
request that waits for it. -/
theorem Wf.getEvent (h : u.Wf) (hg : u.getEvent e = some (v, c))
    (hstat : ∀ b sap ps us ref, e = .invokeReqStat b sap ps us ref → u.isOpen us = true) :
    v.Wf := by
  cases e with
  | invokeInd sap ps =>
    simp only [UserShell.getEvent] at hg
    split at hg
    · cases hg
      exact h
    · rename_i w hcb
      obtain ⟨hfree, rfl⟩ := addInvokeCB_some hcb
      have hw : (u.setCB ps { active := true, sapCB := some sap }).Wf := h.setCB rfl
      split at hg
      · cases hg
        exact hw
      · rename_i us x hadd
        cases hg
        obtain ⟨hunused, hsmall, rfl⟩ := addUSInvoke_some hadd
        refine (hw.addUSInvoke hadd).setUS (by simp [UserShell.setUS, UserShell.setCB]) hsmall
          fun i hi => ?_
        refine h.absent hfree i ?_
        simp only [UserShell.setUS, UserShell.setCB] at hi
        split at hi
        · rename_i heq
          rwa [heq]
        · exact hi
  | concluded kind ps ref =>
    simp only [UserShell.getEvent] at hg
    split at hg
    · cases hg
      exact h
    · split at hg
      · split at hg <;> cases hg
        exact h
      · cases hg
        exact h.conclude
  | invokeReqStat b sap ps us ref =>
    simp only [UserShell.getEvent] at hg
    split at hg
    · cases hg
      exact h.removeUSInvokeId
    · split at hg
      · cases hg
        exact h.removeUSInvokeId
      · rename_i w hcb
        cases hg
        obtain ⟨hfree, rfl⟩ := addInvokeCB_some hcb
        exact (h.setCB rfl).setUS (by simp [UserShell.setCB]) (h.small us (hstat _ _ _ _ _ rfl))
          (h.absent hfree)

/-! ## Which ids an event opens and closes -/

theorem isOpen_setUS (entry : UToPInvokeId) :
    (u.setUS us entry).isOpen i = if i = us then entry.active else u.isOpen i := by
  unfold isOpen setUS
  dsimp only
  split <;> rfl

theorem isOpen_removeUSInvokeId (h : (u.removeUSInvokeId id).isOpen i = true) :
    u.isOpen i = true := by
  unfold removeUSInvokeId at h
  split at h
  · rw [isOpen_setUS] at h
    split at h
    · cases h
    · exact h
  · exact h

/-- An id that the shell finds is in use. -/
theorem Wf.isOpen (h : u.Wf) (hi : u.usInvokeId ps = (i : Int)) : u.isOpen i = true := by
  cases ho : u.isOpen i with
  | true => rfl
  | false => exact absurd ((h.unused i ho).symm.trans (usInvokeId_eq hi)) (by omega)

/-- An event without a callback opens nothing. -/
theorem isOpen_silent (hg : u.getEvent e = some (v, none))
    (hstat : ∀ b sap ps us ref, e = .invokeReqStat b sap ps us ref → u.isOpen us = true)
    (hi : v.isOpen i = true) : u.isOpen i = true := by
  cases e with
  | invokeInd sap ps =>
    simp only [UserShell.getEvent] at hg
    split at hg
    · cases hg
      exact hi
    · rename_i w hcb
      obtain ⟨-, rfl⟩ := addInvokeCB_some hcb
      split at hg <;> cases hg
      exact hi
  | concluded kind ps ref =>
    simp only [UserShell.getEvent] at hg
    split at hg
    · cases hg
      exact hi
    · split at hg
      · split at hg <;> cases hg
        exact hi
      · cases hg
  | invokeReqStat b sap ps us ref =>
    simp only [UserShell.getEvent] at hg
    split at hg
    · cases hg
    · split at hg
      · cases hg
      · rename_i w hcb
        cases hg
        obtain ⟨-, rfl⟩ := addInvokeCB_some hcb
        rw [isOpen_setUS] at hi
        split at hi
        · rename_i heq
          rw [heq]
          exact hstat _ _ _ _ _ rfl
        · exact hi

/-- An INVOKE comes under an id that was free, and opens no other. -/
theorem Wf.announced (h : u.Wf) (hg : u.getEvent e = some (v, some (.invokeInd sapDesc id))) :
    ∃ us : Nat, id = us ∧ u.isOpen us = false ∧
      ∀ i, v.isOpen i = true → i = us ∨ u.isOpen i = true := by
  cases e with
  | invokeInd sap ps =>
    have hv := h.getEvent hg (by simp)
    simp only [UserShell.getEvent] at hg
    split at hg
    · cases hg
    · rename_i w hcb
      obtain ⟨hfree, rfl⟩ := addInvokeCB_some hcb
      split at hg
      · cases hg
      · rename_i us x hadd
        obtain ⟨rfl, hc⟩ := Prod.mk.inj (Option.some.inj hg)
        obtain ⟨hunused, -, rfl⟩ := addUSInvoke_some hadd
        obtain ⟨rfl, rfl⟩ := Callback.invokeInd.inj (Option.some.inj hc)
        refine ⟨us, hv.usInvokeId (by simp [UserShell.setUS]), hunused, fun i hi => ?_⟩
        rw [isOpen_setUS, isOpen_setUS] at hi
        split at hi
        · exact .inl ‹_›
        · exact .inr hi
  | concluded kind ps ref =>
    simp only [UserShell.getEvent] at hg
    split at hg
    · cases hg
    · split at hg
      · split at hg <;> cases hg
      · cases hg
  | invokeReqStat b sap ps us ref =>
    simp only [UserShell.getEvent] at hg
    split at hg
    · cases hg
    · split at hg <;> cases hg

/-- An invocation ends under -1 or an id in use, and opens nothing. -/
theorem Wf.ended {kind : Conclusion} {ref : Nat} (h : u.Wf)
    (hg : u.getEvent e = some (v, some (.concluded sapDesc kind id ref)))
    (hstat : ∀ b sap ps us ref, e = .invokeReqStat b sap ps us ref → u.isOpen us = true) :
    (id = -1 ∨ ∃ i : Nat, id = i ∧ u.isOpen i = true) ∧
      ∀ i, v.isOpen i = true → u.isOpen i = true := by
  cases e with
  | invokeInd sap ps =>
    simp only [UserShell.getEvent] at hg
    split at hg
    · cases hg
    · split at hg <;> cases hg
  | concluded kind ps ref =>
    simp only [UserShell.getEvent] at hg
    split at hg
    · cases hg
    · split at hg
      · split at hg <;> cases hg
      · cases hg
        refine ⟨?_, fun i hi => isOpen_removeUSInvokeId (u := u.removeInvokeCB ps) hi⟩
        rcases u.usInvokeId_cases ps with ⟨j, hj⟩ | hj
        · exact .inr ⟨j, hj, h.isOpen hj⟩
        · exact .inl hj
  | invokeReqStat b sap ps us ref =>
    have hus := hstat _ _ _ _ _ rfl
    simp only [UserShell.getEvent] at hg
    split at hg
    · cases hg
      exact ⟨.inr ⟨us, rfl, hus⟩, fun i hi => isOpen_removeUSInvokeId hi⟩
    · split at hg <;> cases hg
      exact ⟨.inr ⟨us, rfl, hus⟩, fun i hi => isOpen_removeUSInvokeId hi⟩

end UserShell

end Esros
