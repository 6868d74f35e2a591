import Emsd.Mm.Numbers

/-!
# Counters saturate (`mm_/hosted/entity.c`)

A number stays between its absolute bounds, whatever is done to it. An increment is added in 32 bits
before it is compared with the bounds, and `MM_setValueByHandle` hands the value of its caller to the
function of the object, not the one that it has stored.

* `after_bounded`: every call keeps a number within its bounds.
* `increment_iff`: when an increment saturates.
* `saturates_iff`: **in every run a number is within its bounds**, and a call saturates and tells the
  value that it stores if and only if its increment does not leave the 32 bits, or its new value is within
  the bounds where it is told.
-/

namespace Mm

open Ocp Run

variable {l : Limits ℤ} {n : Number} {s t : State} {i : ObjectId} {o : ManagableObject} {mem : Memory}
  {k : NumberCall} {r : Ret} {v w : ℤ}

/-! ## The bounds -/

theorem clamp_bounds (h : l.minAbsolute ≤ l.maxAbsolute) :
    l.minAbsolute ≤ l.clamp v ∧ l.clamp v ≤ l.maxAbsolute := by
  unfold Limits.clamp
  dsimp only
  split
  · split
    · omega
    · omega
  · split
    · omega
    · omega

theorem clamp_of_within (h0 : l.minAbsolute ≤ v) (h1 : v ≤ l.maxAbsolute) : l.clamp v = v := by
  unfold Limits.clamp
  rw [if_neg (by omega), if_neg (by omega)]

theorem clamp_of_above (h : l.minAbsolute ≤ l.maxAbsolute) (hv : l.maxAbsolute ≤ v) :
    l.clamp v = l.maxAbsolute := by
  have hmax : (if l.maxAbsolute < v then l.maxAbsolute else v) = l.maxAbsolute := by
    split
    · rfl
    · omega
  unfold Limits.clamp
  rw [hmax, if_neg (by omega)]

theorem clamp_of_below (h : l.minAbsolute ≤ l.maxAbsolute) (hv : v ≤ l.minAbsolute) :
    l.clamp v = l.minAbsolute := by
  have hmax : ¬l.maxAbsolute < v := by omega
  unfold Limits.clamp
  rw [if_neg hmax]
  dsimp only
  split
  · rfl
  · omega

theorem increment_bounded (h : n.Bounded) (incrementBy : ℤ) : (n.increment incrementBy).Bounded := by
  unfold Number.increment Number.Bounded
  dsimp only
  split
  · exact h
  · exact clamp_bounds (Int.le_trans h.1 h.2)

theorem set_bounded (h : n.Bounded) (w : ℤ) : (n.set w).Bounded := by
  unfold Number.set Number.Bounded
  dsimp only
  split
  · exact h
  · exact clamp_bounds (Int.le_trans h.1 h.2)

/-- A new absolute bound takes the value along. -/
theorem bound_bounded {type : ThresholdType} (h : n.Bounded) (hordered : (n.bound type w).Ordered) :
    (n.bound type w).Bounded := by
  unfold Number.bound at hordered ⊢
  split
  · exact h
  · rename_i hsupported
    rw [if_neg hsupported] at hordered
    obtain ⟨hmin, hmax⟩ := h
    unfold Number.Ordered at hordered
    unfold Number.Bounded
    -- a threshold leaves the value, an absolute bound may move it
    cases type with
    | minimumThreshold => exact ⟨hmin, hmax⟩
    | maximumThreshold => exact ⟨hmin, hmax⟩
    | other m => exact ⟨hmin, hmax⟩
    | minimumAbsolute =>
      simp only [Limits.put] at hordered ⊢
      split
      · omega
      · omega
    | maximumAbsolute =>
      simp only [Limits.put] at hordered ⊢
      split
      · omega
      · omega

/-- **A call keeps a number within its bounds**, as long as the bounds stay in order. -/
theorem after_bounded (h : n.Bounded) (hordered : (n.after k).Ordered) : (n.after k).Bounded := by
  cases k with
  | incrementValue incrementBy => exact increment_bounded h incrementBy.toInt
  | setValue value =>
    rw [Number.after]
    cases n.kind.read value with
    | none => exact h
    | some w => exact set_bounded h w
  | setThreshold t value =>
    rw [Number.after] at hordered ⊢
    cases hread : n.kind.read value with
    | none => exact h
    | some w =>
      rw [hread] at hordered
      exact bound_bounded h hordered

/-! ## Increments -/

/-- **When an increment saturates**: its sum is a number of the type, or the bounds leave one value. -/
theorem increment_iff (h : n.Bounded) (hrange : n.InRange) (incrementBy : Int32) :
    (n.increment incrementBy.toInt).value = n.limits.clamp (n.value + incrementBy.toInt) ↔
      n.kind.Holds (n.value + incrementBy.toInt) ∨ n.limits.minAbsolute = n.limits.maxAbsolute := by
  obtain ⟨hmin, hmax⟩ := h
  have hordered := Int.le_trans hmin hmax
  obtain ⟨hv0, hv1⟩ := hrange.value
  obtain ⟨hl0, hl1⟩ := hrange.minAbsolute
  obtain ⟨hu0, hu1⟩ := hrange.maxAbsolute
  have hby0 := incrementBy.le_toInt
  have hby1 := incrementBy.toInt_lt
  set b := incrementBy.toInt
  have hround : n.kind.greatest = n.kind.least + (2 ^ 32 - 1) := rfl
  unfold Number.increment
  dsimp only
  by_cases hb : b = 0
  · rw [if_pos hb, hb, add_zero]
    exact iff_of_true (clamp_of_within hmin hmax).symm (.inl ⟨hv0, hv1⟩)
  · rw [if_neg hb]
    -- bounds that leave one value make it that, wrapped or not
    by_cases hone : n.limits.minAbsolute = n.limits.maxAbsolute
    · refine iff_of_true ?_ (.inr hone)
      have hwrapped := clamp_bounds (v := n.kind.wrap (n.value + b)) hordered
      have hexact := clamp_bounds (v := n.value + b) hordered
      omega
    · rw [or_iff_left hone]
      constructor
      · intro heq
        by_contra hout
        have hcases : n.kind.greatest < n.value + b ∨ n.value + b < n.kind.least := by
          unfold NumberKind.Holds at hout
          omega
        rcases hcases with habove | hbelow
        · -- the sum comes out below the old value, which is at most the maximum
          have hexact : n.limits.clamp (n.value + b) = n.limits.maxAbsolute :=
            clamp_of_above hordered (by omega)
          rw [NumberKind.wrap_of_above habove (by omega), hexact] at heq
          by_cases hlow : n.value + b - 2 ^ 32 ≤ n.limits.minAbsolute
          · rw [clamp_of_below hordered hlow] at heq
            omega
          · rw [clamp_of_within (by omega) (by omega)] at heq
            omega
        · -- the sum comes out above the old value, which is at least the minimum
          have hexact : n.limits.clamp (n.value + b) = n.limits.minAbsolute :=
            clamp_of_below hordered (by omega)
          rw [NumberKind.wrap_of_below hbelow (by omega), hexact] at heq
          by_cases hhigh : n.limits.maxAbsolute ≤ n.value + b + 2 ^ 32
          · rw [clamp_of_above hordered hhigh] at heq
            omega
          · rw [clamp_of_within (by omega) (by omega)] at heq
            omega
      · intro hholds
        rw [NumberKind.wrap_of_holds hholds]

/-! ## What is told -/

theorem setNumber_out {changed : Bool} {contents : Contents} {eventType : EventType} {value : Value}
    (hne : eventType ≠ .managableObjectChange) :
    (setNumber mem s i o changed contents eventType value).out =
      if (changed && notifyFails mem s o) = true then [] else callValueChanged i o value := by
  cases changed with
  | false => rfl
  | true =>
    have hrc : (notifyValueChange mem (s.setObject i { o with contents }) { o with contents }
        eventType).2 = if notifyFails mem s o then .resourceError else .success :=
      notifyValueChange_rc hne
    unfold setNumber
    dsimp only
    rw [if_pos rfl, hrc]
    cases notifyFails mem s o with
    | false => rfl
    | true => rfl

/-- **The function gets the value of the caller**, if it is called. -/
theorem setValue_out (hn : o.contents.number = some n) (value : Value) :
    (setValueByHandle mem s i o value).out =
      match n.kind.read value with
      | none => []
      | some w =>
        if n.value ≠ w ∧ notifyFails mem s o = true then [] else callValueChanged i o value := by
  unfold setValueByHandle
  obtain ⟨type, v, l, hc, rfl⟩ | ⟨type, v, l, hc, rfl⟩ := number_cases hn
  · rw [hc]
    cases value with
    | signedInt w =>
      dsimp only [NumberKind.read]
      rw [setNumber_out (by decide)]
      simp only [Bool.and_eq_true, decide_eq_true_iff, ne_eq, Int32.toInt_inj]
    | unsignedInt w => rfl
    | string w => rfl
  · rw [hc]
    cases value with
    | unsignedInt w =>
      dsimp only [NumberKind.read]
      rw [setNumber_out (by decide)]
      simp only [Bool.and_eq_true, decide_eq_true_iff, ne_eq, Int.natCast_inj, UInt32.toNat_inj]
    | signedInt w => rfl
    | string w => rfl

theorem callValueChanged_eq {value : Value} {x : Out} (h : x ∈ callValueChanged i o value) :
    x = .valueChanged i value ∧ o.pfValueChanged = true := by
  unfold callValueChanged at h
  split at h
  · rename_i hf
    exact ⟨List.mem_singleton.1 h, hf⟩
  · cases h

theorem incremented_out {contents : Contents} {changed : EventType} {crossed : Option EventType}
    {value : Value} {x : Out} (h : x ∈ (incremented mem s i o contents changed crossed value).out) :
    x = .valueChanged i value := by
  unfold incremented at h
  dsimp only at h
  cases crossed with
  | none =>
    dsimp only at h
    split at h
    · cases h
    · exact (callValueChanged_eq h).1
  | some eventType =>
    dsimp only at h
    split at h
    · cases h
    · split at h
      · cases h
      · exact (callValueChanged_eq h).1

/-- **An increment tells what it stores.** -/
theorem incrementValue_out (hn : o.contents.number = some n) {incrementBy : Int32} {x : Out}
    (h : x ∈ (incrementValue mem s i o incrementBy).out) :
    ∃ value, x = .valueChanged i value ∧
      n.kind.read value = some (n.increment incrementBy.toInt).value := by
  have hnumber := number_incremented hn incrementBy
  unfold incrementValue at h
  obtain ⟨type, v, l, hc, rfl⟩ | ⟨type, v, l, hc, rfl⟩ := number_cases hn
  · rw [hc] at hnumber h
    dsimp only at h
    split at h
    · cases h
    · rename_i hzero
      refine ⟨_, incremented_out h, ?_⟩
      rw [Contents.incremented, if_neg hzero] at hnumber
      exact congrArg (Option.map Number.value) hnumber
  · rw [hc] at hnumber h
    dsimp only at h
    split at h
    · cases h
    · rename_i hzero
      refine ⟨_, incremented_out h, ?_⟩
      rw [Contents.incremented, if_neg hzero] at hnumber
      exact congrArg (Option.map Number.value) hnumber

/-! ## Results -/

/-- A call saturates: an increment stores the sum within the bounds, and the function of the object is told
the value that is stored. -/
structure Saturates (i : ObjectId) (n : Number) (k : NumberCall) (r : Ret) : Prop where
  stored : ∀ incrementBy, k = .incrementValue incrementBy → ∀ n', r.state.Has i n' →
    n'.value = n.limits.clamp (n.value + incrementBy.toInt)
  told : ∀ x ∈ r.out, ∃ value n', x = .valueChanged i value ∧ r.state.Has i n' ∧
    n'.kind.read value = some n'.value

/-- When a call saturates. -/
def Saturable (mem : Memory) (s : State) (o : ManagableObject) (n : Number) : NumberCall → Prop
  | .incrementValue incrementBy =>
    n.kind.Holds (n.value + incrementBy.toInt) ∨ n.limits.minAbsolute = n.limits.maxAbsolute
  | .setValue value => ∀ w, n.kind.read value = some w → o.pfValueChanged = true →
    notifyFails mem s o = false → n.limits.minAbsolute ≤ w ∧ w ≤ n.limits.maxAbsolute
  | .setThreshold _ _ => True

/-- **When a call saturates**, for a number within its bounds. -/
theorem saturates_call (ho : s.managableObjects[i]? = some o) (hn : o.contents.number = some n)
    (hb : n.Bounded) (hr : (k.call i).run mem s = some r) :
    Saturates i n k r ↔ Saturable mem s o n k := by
  have hhas : r.state.Has i (n.after k) := numberCall_has ⟨o, ho, hn⟩ hr
  cases k with
  | incrementValue incrementBy =>
    rw [Saturable, ← increment_iff hb (number_inRange hn)]
    obtain ⟨o', ho', rfl⟩ := Option.map_eq_some_iff.1 hr
    obtain rfl := Option.some.inj (ho.symm.trans ho')
    constructor
    · intro h
      exact h.stored incrementBy rfl _ hhas
    · intro h
      refine ⟨?_, ?_⟩
      · intro incrementBy' heq n' hn'
        cases heq
        rw [hn'.unique hhas]
        exact h
      · intro x hx
        obtain ⟨value, rfl, hread⟩ := incrementValue_out hn hx
        exact ⟨value, _, rfl, hhas, hread⟩
  | setThreshold t value =>
    refine iff_of_true ⟨fun incrementBy heq => ?_, fun x hx => ?_⟩ trivial
    · cases heq
    · obtain ⟨o', -, rfl⟩ := Option.map_eq_some_iff.1 hr
      cases hx
  | setValue value =>
    obtain ⟨o', ho', rfl⟩ := Option.map_eq_some_iff.1 hr
    obtain rfl := Option.some.inj (ho.symm.trans ho')
    have hout : (setValueByHandle mem s i o value).out = _ := setValue_out hn value
    cases hread : n.kind.read value with
    | none =>
      rw [hread] at hout
      refine iff_of_true ⟨fun incrementBy heq => ?_, fun x hx => ?_⟩ fun w hw => ?_
      · cases heq
      · rw [hout] at hx
        cases hx
      · rw [hread] at hw
        cases hw
    | some w =>
      rw [hread] at hout
      dsimp only at hout
      have hafter : n.after (.setValue value) = n.set w := by
        rw [Number.after, hread]
        rfl
      rw [hafter] at hhas
      -- the value that is stored is the new one exactly within the bounds
      have hstored : (n.set w).value = w ↔ n.limits.minAbsolute ≤ w ∧ w ≤ n.limits.maxAbsolute := by
        have hbounds := set_bounded hb w
        constructor
        · intro heq
          rw [← heq]
          exact hbounds
        · rintro ⟨hmin, hmax⟩
          unfold Number.set
          dsimp only
          split
          · rename_i heq
            exact heq
          · exact clamp_of_within hmin hmax
      constructor
      · intro h w' hw' hpf hmemory
        obtain rfl := Option.some.inj (hread.symm.trans hw')
        -- the function is called, and what it is told is stored
        have hcalled : Out.valueChanged i value ∈ (setValueByHandle mem s i o value).out := by
          rw [hout, if_neg (by rw [hmemory]; simp)]
          unfold callValueChanged
          rw [hpf, if_pos rfl]
          exact List.mem_singleton_self _
        obtain ⟨value', n', heq, hn', hvalue⟩ := h.told _ hcalled
        cases heq
        rw [hn'.unique hhas] at hvalue
        exact hstored.1 (Option.some.inj (hvalue.symm.trans hread))
      · intro h
        refine ⟨fun incrementBy heq => ?_, fun x hx => ?_⟩
        · cases heq
        · rw [hout] at hx
          split at hx
          · cases hx
          · rename_i hnot
            obtain ⟨rfl, hpf⟩ := callValueChanged_eq hx
            refine ⟨value, _, rfl, hhas, hread.trans (congrArg some ?_)⟩
            -- an old value is within the bounds anyway
            by_cases heq : n.value = w
            · exact (hstored.2 (heq ▸ hb)).symm
            · have hmemory : notifyFails mem s o = false := by
                simpa using fun htrue => hnot ⟨heq, htrue⟩
              exact (hstored.2 (h w hread hpf hmemory)).symm

/-- The bounds stay in order. -/
def KeepsOrder (i : ObjectId) (s : State) (x : Memory × NumberCall) : Prop :=
  ∀ n, s.Has i n → (n.after x.2).Ordered

/-- **Counters saturate.** In every run of calls that keep the bounds of a number in order, it is within
them; and a call stores the sum within the bounds and tells the stored value if and only if the sum is a
number of the type, or the bounds leave one value; or the new value is within the bounds, where it is
told. -/
theorem saturates_iff {h : List Event} (hr : Reach (numbers i fun _ _ n => n.Bounded) (KeepsOrder i) h s) :
    ∃ o n, s.managableObjects[i]? = some o ∧ o.contents.number = some n ∧ n.Bounded ∧
      ∀ mem k r, (k.call i).run mem s = some r → (Saturates i n k r ↔ Saturable mem s o n k) := by
  have hbounded : ∃ n, s.Has i n ∧ n.Bounded := by
    refine Reach.invariant (P := fun s => ∃ n, s.Has i n ∧ n.Bounded) ?_ ?_ hr
    · rintro s ⟨o, n, ho, hn, hb⟩
      exact ⟨n, ⟨o, ho, hn⟩, hb⟩
    · rintro s ⟨mem, k⟩ t out ⟨n, hhas, hb⟩ hkeeps hstep
      obtain ⟨r, hrun, rfl, -⟩ := numbers_step.1 hstep
      exact ⟨_, numberCall_has hhas hrun, after_bounded hb (hkeeps n hhas)⟩
  obtain ⟨n, ⟨o, ho, hn⟩, hb⟩ := hbounded
  exact ⟨o, n, ho, hn, hb, fun mem k r hrun => saturates_call ho hn hb hrun⟩

/-- A gauge is registered with a function, and gets 100 for its maximum and the value 3. -/
def gaugeCalls : List Call :=
  [.entityInit small, .registerModule 0 small,
    .registerManagableObject 0 .gaugeUnsigned small small 0 0 true,
    .setThreshold 0 .maximumAbsolute (.unsignedInt 100), .setValue 0 (.unsignedInt 3)]

def gauge : ManagableObject :=
  ⟨small, small, 0, 0, 0, true, .uint32 .gauge 3 ⟨0, 4294967295, 0, 100⟩⟩

def gaugeNumber : Number := ⟨.uint32, .gauge, 3, ⟨0, 4294967295, 0, 100⟩⟩

/-- A program with this gauge alone. -/
def gaugeState : State where
  applicationEntityInstances := [small]
  modules := [⟨small, 0⟩]
  managableObjects := [gauge]

theorem gauge_number : gauge.contents.number = some gaugeNumber := by decide

theorem gaugeNumber_bounded : gaugeNumber.Bounded := ⟨by decide, by decide⟩

/-- A gauge within its bounds. -/
theorem saturates_gauge : ∃ o n, gaugeState.managableObjects[0]? = some o ∧
    o.contents.number = some n ∧ n.Bounded ∧
      ∀ mem k r, (k.call 0).run mem gaugeState = some r →
        (Saturates 0 n k r ↔ Saturable mem gaugeState o n k) :=
  saturates_iff (.init ⟨gauge, gaugeNumber, rfl, gauge_number, gaugeNumber_bounded⟩)

/-- **3 less 5 is 100**, where 0 would be right; and of a new value of 200 the gauge stores 100, and its
function is told 200. -/
theorem saturates_wrong :
    (managed.run always {} (gaugeCalls.map (.call {}))).map (·.1) = some gaugeState ∧
    (∃ r, (NumberCall.call 0 (.incrementValue (-5))).run {} gaugeState = some r ∧
      r.state.Has 0 { gaugeNumber with value := 100 } ∧
      ¬Saturates 0 gaugeNumber (.incrementValue (-5)) r) ∧
    ∃ r, (NumberCall.call 0 (.setValue (.unsignedInt 200))).run {} gaugeState = some r ∧
      r.state.Has 0 { gaugeNumber with value := 100 } ∧ r.out = [.valueChanged 0 (.unsignedInt 200)] ∧
      ¬Saturates 0 gaugeNumber (.setValue (.unsignedInt 200)) r := by
  refine ⟨by decide +kernel, ⟨_, rfl, ⟨_, rfl, by decide⟩, ?_⟩, ⟨_, rfl, ⟨_, rfl, by decide⟩, rfl, ?_⟩⟩
  · intro h
    have hcond : Saturable {} gaugeState gauge gaugeNumber (.incrementValue (-5)) :=
      (saturates_call (by rfl) gauge_number gaugeNumber_bounded (by rfl)).1 h
    rcases hcond with hholds | hone
    · exact absurd hholds.1 (by decide)
    · exact absurd hone (by decide)
  · intro h
    have hcond : Saturable {} gaugeState gauge gaugeNumber (.setValue (.unsignedInt 200)) :=
      (saturates_call (by rfl) gauge_number gaugeNumber_bounded (by rfl)).1 h
    exact absurd (hcond 200 rfl rfl rfl).2 (by decide)

end Mm
