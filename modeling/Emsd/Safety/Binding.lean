import Emsd.Ocp.Seq
import Emsd.Proof.References

/-!
# Binding a SAP (`erop_sap.c`)

`EROP_sapBind` takes a structure from the pool before it looks whether the selector is in use and the
functional unit is one that there is, and does not give it back when it then fails. Here the engine
has the pool of its SAP structures beside it.

* `step_engine`, `reach_engine`: what the engine does is what it does in the model without the pool.
* `atomic_iff`: **a failing call changes nothing** exactly when it fails before it has a structure.
* `conserved_reach`: no structure is lost in a run whose failing calls all do.
-/

namespace Erop

open Ocp Run Engine

/-! ## The code -/

/-- The engine, the pool of its SAP structures, and where the structure of each SAP is. -/
structure Saps where
  engine : Engine
  pool : SeqPoolInfo
  addr : SapId → Ptr

namespace Saps

/-- `EROP_sapBind`; there is no result where the process ends. -/
def sapBind (t : Saps) (sapSel : SapSel) (functionalUnit : Int) : Option (Saps × List Out) :=
  if sapSel = 0 then some (t, [.ret (-3)])
  else if sapSel > 15 then some (t, [.ret (-6)])
  else
    match t.pool.elemObtain with
    | .fatal => none
    | .null => some (t, [.ret (-2)])
    | .elem sapInfo pool =>
      if (t.engine.getSapInfo sapSel).isSome then some ({ t with pool := pool }, [.ret (-4)])
      else if functionalUnit ≠ 3 ∧ functionalUnit ≠ 2 then some ({ t with pool := pool }, [.ret (-5)])
      else
        let sap : SapInfo :=
          { id := t.engine.nextSap
            sapSel := sapSel
            functionalUnit := if functionalUnit = 3 then .threeWay else .twoWay }
        some
          ({ engine :=
               { t.engine with saps := t.engine.saps ++ [sap], nextSap := t.engine.nextSap + 1 }
             pool := pool
             addr := Function.update t.addr t.engine.nextSap sapInfo }, [.ret 0])

/-- `EROP_sapUnbind`, with the release of the structure. -/
def sapUnbind (t : Saps) (sapSel : SapSel) : Saps × List Out :=
  let r := t.engine.sapUnbind sapSel
  match t.engine.getSapInfo sapSel with
  | none => ({ t with engine := r.1 }, r.2)
  | some sap => ({ t with engine := r.1, pool := t.pool.elemRelease (t.addr sap.id) }, r.2)

/-- One event; all but those two leave the pool alone. -/
def step (cfg : Config) (t : Saps) (inp : Input) : Option (Saps × List Out) :=
  match inp.ev with
  | .sapBind sel fu => t.sapBind sel fu
  | .sapUnbind sel => some (t.sapUnbind sel)
  | _ => (Erop.step cfg t.engine inp).map fun r => ({ t with engine := r.1 }, r.2)

/-- The engine after `erop_sapInit`, with such a pool. -/
def system (cfg : Config) (pool : SeqPoolInfo) : Run.Sys Saps Input Out where
  init t := ∃ newRef, t = ⟨Engine.init newRef, pool, fun _ => 0⟩
  step := step cfg

variable {cfg : Config} {pool : SeqPoolInfo} {t t' : Saps} {inp : Input} {o hist : List Out} {sel : SapSel}
  {fu : Int} {ok : Saps → Input → Prop} {e e' : Engine}

/-! ## The engine -/

/-- Whether `SEQ_elemObtain` gives a structure. -/
def obtains (t : Saps) : Bool := t.pool.elemObtain ≠ .null

/-- The SAP that is added. -/
def newSap (t : Saps) (sel : SapSel) (fu : Int) : SapInfo where
  id := t.engine.nextSap
  sapSel := sel
  functionalUnit := if fu = 3 then .threeWay else .twoWay

/-- The selector is in use, or there is no such functional unit. -/
def Rejected (t : Saps) (sel : SapSel) (fu : Int) : Prop :=
  (t.engine.getSapInfo sel).isSome = true ∨ fu ≠ 3 ∧ fu ≠ 2

/-- What a call can come to. -/
inductive Outcome (t : Saps) (sel : SapSel) (fu : Int) : Saps → List Out → Prop
  | refused {r : Int} (negative : r < 0) (early : sel = 0 ∨ sel > 15 ∨ t.pool.elemObtain = .null) :
      Outcome t sel fu t [.ret r]
  | leaked {r : Int} {p : Ptr} {pool : SeqPoolInfo} (negative : r < 0) (nonzero : sel ≠ 0) (small : sel ≤ 15)
      (obtained : t.pool.elemObtain = .elem p pool) (rejected : t.Rejected sel fu) :
      Outcome t sel fu { t with pool := pool } [.ret r]
  | bound {p : Ptr} {pool : SeqPoolInfo} (obtained : t.pool.elemObtain = .elem p pool)
      (accepted : ¬t.Rejected sel fu) :
      Outcome t sel fu
        ⟨{ t.engine with saps := t.engine.saps ++ [t.newSap sel fu], nextSap := t.engine.nextSap + 1 }, pool,
          Function.update t.addr t.engine.nextSap p⟩ [.ret 0]

/-- The environment in which a pool is as willing as that of the SAPs. -/
def env (t : Saps) (env : Env) : Env := { env with seqElemObtain := t.pool.elemObtain ≠ .null }

/-- **Inversion of `EROP_sapBind`**, which does to the engine what it does in the model without the pool. -/
theorem sapBind_cases (h : t.sapBind sel fu = some (t', o)) (env : Env) :
    Outcome t sel fu t' o ∧ t.engine.sapBind (t.env env) sel fu = (t'.engine, o) := by
  unfold sapBind at h
  unfold Engine.sapBind
  by_cases h0 : sel = 0
  · rw [if_pos h0] at h ⊢
    obtain ⟨rfl, rfl⟩ := Prod.mk.inj (Option.some.inj h)
    exact ⟨.refused (by decide) (.inl h0), rfl⟩
  rw [if_neg h0] at h ⊢
  by_cases h15 : sel > 15
  · rw [if_pos h15] at h ⊢
    obtain ⟨rfl, rfl⟩ := Prod.mk.inj (Option.some.inj h)
    exact ⟨.refused (by decide) (.inr (.inl h15)), rfl⟩
  rw [if_neg h15] at h ⊢
  cases hob : t.pool.elemObtain with
  | fatal =>
    rw [hob] at h
    cases h
  | null =>
    rw [hob] at h
    obtain ⟨rfl, rfl⟩ := Prod.mk.inj (Option.some.inj h)
    refine ⟨.refused (by decide) (.inr (.inr hob)), if_pos ?_⟩
    exact decide_eq_false fun hne => hne hob
  | elem p pool =>
    rw [hob] at h
    have hobtains : (t.env env).seqElemObtain ≠ false := by simp [Saps.env, hob]
    rw [if_neg hobtains]
    dsimp only at h
    by_cases huse : (t.engine.getSapInfo sel).isSome = true
    · rw [if_pos huse] at h ⊢
      obtain ⟨rfl, rfl⟩ := Prod.mk.inj (Option.some.inj h)
      exact ⟨.leaked (by decide) h0 (UInt8.not_lt.1 h15) hob (.inl huse), rfl⟩
    rw [if_neg huse] at h ⊢
    by_cases hfu : fu ≠ 3 ∧ fu ≠ 2
    · rw [if_pos hfu] at h ⊢
      obtain ⟨rfl, rfl⟩ := Prod.mk.inj (Option.some.inj h)
      exact ⟨.leaked (by decide) h0 (UInt8.not_lt.1 h15) hob (.inr hfu), rfl⟩
    rw [if_neg hfu] at h ⊢
    obtain ⟨rfl, rfl⟩ := Prod.mk.inj (Option.some.inj h)
    exact ⟨.bound hob fun hbad => hbad.elim huse hfu, rfl⟩

/-- **What a step does to the engine** is a step of the engine. -/
theorem step_engine (h : step cfg t inp = some (t', o)) :
    ∃ env, Erop.step cfg t.engine ⟨inp.ev, env⟩ = some (t'.engine, o) := by
  obtain ⟨ev, env⟩ := inp
  cases ev with
  | sapBind sel fu => exact ⟨t.env env, congrArg some (sapBind_cases h env).2⟩
  | sapUnbind sel =>
    refine ⟨env, ?_⟩
    obtain rfl := (Prod.mk.inj (Option.some.inj h)).1
    obtain rfl := (Prod.mk.inj (Option.some.inj h)).2
    simp only [Erop.step]
    split <;> rfl
  | _ =>
    obtain ⟨⟨e', o'⟩, hs, heq⟩ := Option.map_eq_some_iff.1 h
    obtain ⟨rfl, rfl⟩ := Prod.mk.inj heq
    exact ⟨env, hs⟩

/-- **Every run is a run of the engine.** -/
theorem reach_engine (hr : Reach (system cfg pool) ok hist t) :
    Reach (Erop.engine cfg) any hist t.engine := by
  refine Reach.invariant_hist (S := system cfg pool)
    (P := fun t hist => Reach (Erop.engine cfg) any hist t.engine) ?_ ?_ hr
  · rintro _ ⟨newRef, rfl⟩
    exact .init ⟨newRef, rfl⟩
  · intro t inp t' o hist ht _ hs
    obtain ⟨env, henv⟩ := step_engine hs
    exact ht.step trivial henv

/-! ## One call -/

/-- A call that reports a failure changes nothing. -/
def Atomic (t : Saps) (sel : SapSel) (fu : Int) : Prop :=
  ∀ t' r, t.sapBind sel fu = some (t', [.ret r]) → r < 0 → t' = t

/-- The call fails before it has a structure, or does not fail. -/
def Harmless (t : Saps) (sel : SapSel) (fu : Int) : Prop :=
  sel = 0 ∨ sel > 15 ∨ (∀ p pool, t.pool.elemObtain ≠ .elem p pool) ∨ ¬t.Rejected sel fu

/-- A call that has a structure and is rejected keeps it. -/
theorem sapBind_leaks {p : Ptr} (h0 : sel ≠ 0) (h15 : ¬sel > 15) (hob : t.pool.elemObtain = .elem p pool)
    (hrej : t.Rejected sel fu) : ∃ r < 0, t.sapBind sel fu = some ({ t with pool := pool }, [.ret r]) := by
  unfold sapBind
  rw [if_neg h0, if_neg h15, hob]
  dsimp only
  split
  · exact ⟨-4, by decide, rfl⟩
  · rename_i huse
    rw [if_pos (hrej.resolve_left huse)]
    exact ⟨-5, by decide, rfl⟩

/-- **A failing call changes nothing** exactly when it has no structure. -/
theorem atomic_iff (t : Saps) (sel : SapSel) (fu : Int) : Atomic t sel fu ↔ Harmless t sel fu := by
  constructor
  · intro h
    by_contra hharm
    simp only [Harmless, not_or, not_forall, not_not] at hharm
    obtain ⟨h0, h15, ⟨p, pool, hob⟩, hrej⟩ := hharm
    obtain ⟨r, hneg, hcall⟩ := sapBind_leaks h0 h15 hob hrej
    exact SeqPoolInfo.obtain_ne hob (congrArg Saps.pool (h _ r hcall hneg))
  · intro h t' r hcall hneg
    have hout := (sapBind_cases hcall {}).1
    generalize ho : [Out.ret r] = o at hout
    cases hout with
    | refused => rfl
    | leaked _ nonzero small obtained rejected =>
      rcases h with h | h | h | h
      · exact absurd h nonzero
      · exact absurd h (UInt8.not_lt.2 small)
      · exact absurd obtained (h _ _)
      · exact absurd rejected h
    | bound =>
      obtain rfl : r = 0 := by simpa using ho
      exact absurd hneg (by decide)

/-! ## The structures -/

/-- The structures of the SAPs. -/
def structures (t : Saps) : List Ptr := (t.engine.saps.map (·.id)).map t.addr

/-- The structures that are bound or can be obtained. -/
def kept (t : Saps) : List Ptr := t.pool.available ++ t.structures

theorem addInvoke_ids (saps : List SapInfo) (sap : SapId) (i : InvokeId) :
    (addInvoke saps sap i).map (·.id) = saps.map (·.id) := by
  unfold addInvoke
  rw [List.map_map]
  refine List.map_congr_left fun s _ => ?_
  simp only [Function.comp]
  split <;> rfl

theorem relInvoke_ids (e : Engine) (i : InvokeId) :
    (e.relInvoke i).saps.map (·.id) = e.saps.map (·.id) := by
  unfold relInvoke
  rw [List.map_map]
  rfl

theorem getInvoke_ids (e : Engine) (env : Env) (pdu : Pdu) :
    (e.getInvoke env pdu).1.saps.map (·.id) = e.saps.map (·.id) := by
  unfold getInvoke
  repeat' split
  all_goals first | rfl | exact addInvoke_ids _ _ _

theorem replyReq_ids {i : InvokeId} {env : Env} {req : ResultReq}
    (h : e.replyReq cfg env i req = some (e', o)) : e'.saps.map (·.id) = e.saps.map (·.id) := by
  unfold replyReq at h
  split at h
  · cases h
  · obtain ⟨rfl, rfl⟩ := Prod.mk.inj (Option.some.inj h)
    rfl

/-- **Only those two events bind or unbind a SAP.** -/
theorem step_ids (hbind : ∀ sel fu, inp.ev ≠ .sapBind sel fu) (hunbind : ∀ sel, inp.ev ≠ .sapUnbind sel)
    (h : Erop.step cfg e inp = some (e', o)) : e'.saps.map (·.id) = e.saps.map (·.id) := by
  obtain ⟨ev, env⟩ := inp
  cases ev with
  | udpInd tsap nsap data =>
    simp only [Erop.step, lowerDataInd] at h
    split at h
    · obtain ⟨rfl, rfl⟩ := Prod.mk.inj (Option.some.inj h)
      rfl
    · simp only [pduInd] at h
      split at h
      · obtain ⟨rfl, rfl⟩ := Prod.mk.inj (Option.some.inj h)
        exact getInvoke_ids _ _ _
      · split at h
        · cases h
        · obtain ⟨rfl, rfl⟩ := Prod.mk.inj (Option.some.inj h)
          exact getInvoke_ids _ _ _
  | tmrRsp i td =>
    simp only [Erop.step, timerRsp] at h
    split at h
    · split at h
      · cases h
      · split at h
        · obtain ⟨rfl, rfl⟩ := Prod.mk.inj (Option.some.inj h)
          rfl
        · obtain ⟨rfl, rfl⟩ := Prod.mk.inj (Option.some.inj h)
          rfl
    · cases h
  | schRun =>
    simp only [Erop.step, Engine.schRun] at h
    split at h
    · cases h
    · split at h
      · cases h
      · split at h
        · cases h
        · split at h
          · obtain ⟨rfl, rfl⟩ := Prod.mk.inj (Option.some.inj h)
            exact relInvoke_ids _ _
          · obtain ⟨rfl, rfl⟩ := Prod.mk.inj (Option.some.inj h)
            rfl
  | invokeReq sel req =>
    simp only [Erop.step, Engine.invokeReq] at h
    split at h
    · obtain ⟨rfl, rfl⟩ := Prod.mk.inj (Option.some.inj h)
      rfl
    · split at h
      · obtain ⟨rfl, rfl⟩ := Prod.mk.inj (Option.some.inj h)
        rfl
      · split at h
        · obtain ⟨rfl, rfl⟩ := Prod.mk.inj (Option.some.inj h)
          exact addInvoke_ids _ _ _
        · split at h
          · cases h
          · obtain ⟨rfl, rfl⟩ := Prod.mk.inj (Option.some.inj h)
            exact addInvoke_ids _ _ _
  | resultReq i u enc p => exact replyReq_ids h
  | errorReq i u enc v p => exact replyReq_ids h
  | sapBind sel fu => exact absurd rfl (hbind sel fu)
  | sapUnbind sel => exact absurd rfl (hunbind sel)

/-- What is left when a SAP is dropped. -/
theorem dropSap_ids (e : Engine) (sap : SapId) :
    (e.dropSap sap).saps.map (·.id) = (e.saps.map (·.id)).filter (· ≠ sap) := by
  unfold dropSap
  rw [List.filter_map]
  rfl

theorem sapUnbind_ids {sap : SapInfo} (h : e.getSapInfo sel = some sap) :
    (e.sapUnbind sel).1.saps.map (·.id) = (e.saps.map (·.id)).filter (· ≠ sap.id) := by
  unfold Engine.sapUnbind
  rw [h]
  dsimp only
  split
  · exact dropSap_ids e sap.id
  · rw [dropSap_ids, relInvoke_ids]

/-- **No structure is lost** in a step, unless a call keeps one and fails. -/
theorem conserved_step (hw : WF t.engine) (hok : ∀ sel fu, inp.ev = .sapBind sel fu → t.Harmless sel fu)
    (h : step cfg t inp = some (t', o)) : t'.kept.Perm t.kept := by
  obtain ⟨ev, env⟩ := inp
  cases ev with
  | sapBind sel fu =>
    cases (sapBind_cases h {}).1 with
    | refused => exact .refl _
    | leaked _ nonzero small obtained rejected =>
      rcases hok sel fu rfl with hharm | hharm | hharm | hharm
      · exact absurd hharm nonzero
      · exact absurd hharm (UInt8.not_lt.2 small)
      · exact absurd obtained (hharm _ _)
      · exact absurd rejected hharm
    | bound obtained =>
      rename_i p pool accepted
      unfold kept structures
      have hold : (t.engine.saps.map (·.id)).map (Function.update t.addr t.engine.nextSap p) =
          (t.engine.saps.map (·.id)).map t.addr := by
        refine List.map_congr_left fun id hid => ?_
        obtain ⟨s, hs, rfl⟩ := List.mem_map.1 hid
        exact Function.update_of_ne (Nat.ne_of_lt (hw.linked.sap_lt s hs)) _ _
      have hnew : Function.update t.addr t.engine.nextSap p (t.newSap sel fu).id = p :=
        Function.update_self _ _ _
      simp only [List.map_append, List.map_cons, List.map_nil, hold, hnew]
      rw [SeqPoolInfo.available_obtain obtained, ← List.append_assoc]
      exact List.perm_append_singleton _ _
  | sapUnbind sel =>
    obtain rfl := (Prod.mk.inj (Option.some.inj h)).1
    cases hsap : t.engine.getSapInfo sel with
    | none =>
      have hsame : (t.engine.sapUnbind sel).1 = t.engine := by
        unfold Engine.sapUnbind
        rw [hsap]
      dsimp only
      rw [hsame]
    | some sap =>
      have hmem : sap.id ∈ t.engine.saps.map (·.id) := List.mem_map_of_mem (getSapInfo_mem hsap)
      have hnodup : (t.engine.saps.map (·.id)).Nodup := List.pairwise_map.2 hw.linked.ids
      have hids : (t.engine.saps.map (·.id)).Perm
          (sap.id :: (t.engine.saps.map (·.id)).filter (· ≠ sap.id)) := by
        have hne : (t.engine.saps.map (·.id)).filter (· ≠ sap.id) =
            (t.engine.saps.map (·.id)).erase sap.id := by
          rw [hnodup.erase_eq_filter]
          exact List.filter_congr fun id _ => decide_not.trans (congrArg _ (beq_eq_decide _ _).symm)
        rw [hne]
        exact List.perm_cons_erase hmem
      unfold kept structures
      dsimp only
      rw [sapUnbind_ids hsap]
      -- the structure that is released is that of the SAP that is dropped
      have hback : (t.pool.elemRelease (t.addr sap.id)).available.Perm (t.addr sap.id :: t.pool.available) :=
        SeqPoolInfo.available_release
      refine (hback.append_right _).trans (List.perm_middle.symm.trans ?_)
      exact (hids.symm.map t.addr).append_left t.pool.available
  | _ =>
    obtain ⟨⟨e', o'⟩, hs, heq⟩ := Option.map_eq_some_iff.1 h
    obtain ⟨rfl, rfl⟩ := Prod.mk.inj heq
    unfold kept structures
    rw [step_ids (fun _ _ h => by cases h) (fun _ h => by cases h) hs]

/-- Each call meets the condition. -/
def Careful (t : Saps) (inp : Input) : Prop := ∀ sel fu, inp.ev = .sapBind sel fu → t.Harmless sel fu

/-- **No structure is lost in a run** whose failing calls fail before they have one. -/
theorem conserved_reach (hr : Reach (system cfg pool) Careful hist t) : t.kept.Perm pool.available := by
  refine (Reach.invariant (P := fun t => WF t.engine ∧ t.kept.Perm pool.available) ?_ ?_ hr).2
  · rintro _ ⟨newRef, rfl⟩
    exact ⟨.init newRef, List.append_nil pool.available ▸ .refl _⟩
  · rintro t inp t' o ⟨hw, hperm⟩ hok hs
    obtain ⟨env, henv⟩ := step_engine hs
    exact ⟨hw.step henv, (conserved_step hw hok hs).trans hperm⟩

/-- A call with a selector and a functional unit that will do, when there is a structure. -/
theorem sapBind_succeeds (h0 : sel ≠ 0) (h15 : sel ≤ 15) (hrej : ¬t.Rejected sel fu)
    (hav : t.pool.available ≠ []) : ∃ t', t.sapBind sel fu = some (t', [.ret 0]) := by
  obtain ⟨p, pool, hob⟩ := SeqPoolInfo.obtain_of_available hav
  simp only [Rejected, not_or] at hrej
  unfold sapBind
  rw [if_neg h0, if_neg (UInt8.not_lt.2 h15), hob]
  dsimp only
  rw [if_neg hrej.1, if_neg hrej.2]
  exact ⟨_, rfl⟩

/-- **Binding**: a failing call changes nothing exactly when it fails before it has a structure; and after
a run in which all failing calls do, a call succeeds as long as the pool has had more structures than
there are SAPs. -/
theorem sapBind_atomic (t : Saps) (sel : UInt8) (fu : Int) :
    (Atomic t sel fu ↔ Harmless t sel fu) ∧
    ∀ cfg pool hist, Reach (system cfg pool) Careful hist t → sel ≠ 0 → sel ≤ 15 →
      ¬t.Rejected sel fu → t.engine.saps.length < pool.available.length →
        ∃ t', t.sapBind sel fu = some (t', [.ret 0]) := by
  refine ⟨atomic_iff t sel fu, ?_⟩
  intro cfg pool hist hr h0 h15 hrej hlt
  refine sapBind_succeeds h0 h15 hrej fun hnil => ?_
  have hlen := (conserved_reach hr).length_eq
  simp only [kept, structures, hnil, List.nil_append, List.length_map] at hlen
  omega

/-- An engine whose pool has two structures. -/
def twoStructures : Saps := ⟨Engine.init 0, ⟨0, [], [10, 20]⟩, fun _ => 0⟩

/-- One of the two has been bound, and a call without a selector has failed. -/
def oneBound : Saps :=
  { engine := (twoStructures.engine.sapBind {} 1 3).1
    pool := ⟨0, [], [20]⟩
    addr := Function.update (fun _ => 0) 0 10 }

/-- A further call succeeds. -/
theorem sapBind_second : ∃ hist t', Reach (system {} ⟨0, [], [10, 20]⟩) Careful hist oneBound ∧
    oneBound.sapBind 2 2 = some (t', [.ret 0]) := by
  have hfirst : Reach (system {} ⟨0, [], [10, 20]⟩) Careful [] twoStructures := .init ⟨0, rfl⟩
  have hone : Reach (system {} ⟨0, [], [10, 20]⟩) Careful [.ret 0] oneBound := by
    refine hfirst.step (i := ⟨.sapBind 1 3, {}⟩) ?_ rfl
    rintro sel fu ⟨⟩
    exact .inr (.inr (.inr (by simp [Rejected, twoStructures, getSapInfo, Engine.init])))
  have hfailed : Reach (system {} ⟨0, [], [10, 20]⟩) Careful [.ret 0, .ret (-3)] oneBound := by
    refine hone.step (i := ⟨.sapBind 0 3, {}⟩) ?_ rfl
    rintro sel fu ⟨⟩
    exact .inl rfl
  have hfree : ¬oneBound.Rejected 2 2 := fun h => h.elim (by decide) (by decide)
  obtain ⟨t', ht'⟩ := (sapBind_atomic oneBound 2 2).2 _ _ _ hfailed (by decide) (by decide) hfree
    (by decide)
  exact ⟨_, t', hfailed, ht'⟩

/-- **A structure that is lost**: after a call with a functional unit that there is not, the next one ends
the process for want of memory, where it would have succeeded. -/
theorem sapBind_lost : ∃ t t', t = (⟨Engine.init 0, ⟨0, [], [10]⟩, fun _ => 0⟩ : Saps) ∧
    t.sapBind 1 7 = some (t', [.ret (-5)]) ∧ ¬Atomic t 1 7 ∧
    t'.sapBind 1 3 = none ∧ (t.sapBind 1 3).map (·.2) = some [.ret 0] := by
  refine ⟨_, ⟨Engine.init 0, ⟨0, [], []⟩, fun _ => 0⟩, rfl, rfl, ?_, rfl, rfl⟩
  intro h
  have hpool := congrArg Saps.pool (h ⟨Engine.init 0, ⟨0, [], []⟩, fun _ => 0⟩ (-5) rfl (by decide))
  exact absurd (congrArg SeqPoolInfo.memory hpool) (by decide)

end Saps

end Erop
