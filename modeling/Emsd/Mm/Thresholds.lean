import Emsd.Mm.Numbers

/-!
# The events of thresholds (`mm_/hosted/entity.c`)

`MM_incrementValue` tells of a threshold when a number leaves the range between its thresholds or comes
back into it, and goes by the sign of the increment for which one it was, "even if it caused a
wrap-around". Nothing is told when a number goes from beyond one threshold beyond the other, when it is
set, or when a threshold is moved.

* `increment_log`: the events of an increment.
* `logged_iff`: when they tell exactly what has been crossed.
* `thresholds_logged`: **the events are a faithful log**, as long as what is crossed is crossed by an
  increment, in its own direction, and from or to the range between the thresholds.
-/

namespace Mm

open Ocp Run

/-- One of the two thresholds. -/
inductive Bound
  | minimum
  | maximum
  deriving DecidableEq, Repr

/-- The threshold that an event tells of, and whether it has been exceeded or reentered. -/
def EventType.crossed : EventType → Option (Bound × Bool)
  | maxThresholdExceededSigned | maxThresholdExceededUnsigned => some (.maximum, true)
  | minThresholdExceededSigned | minThresholdExceededUnsigned => some (.minimum, true)
  | maxThresholdReenteredSigned | maxThresholdReenteredUnsigned => some (.maximum, false)
  | minThresholdReenteredSigned | minThresholdReenteredUnsigned => some (.minimum, false)
  | _ => none

/-- What is told of one threshold. -/
def crossingLog (b : Bound) : Option (Bound × Bool) → List Bool
  | some (b', exceeded) => if b' = b then [exceeded] else []
  | none => []

/-- What events tell of one threshold, in order: exceeded or reentered. -/
def thresholdLog (b : Bound) (events : List Event) : List Bool :=
  events.flatMap fun ev => crossingLog b ev.eventType.crossed

/-- The number is beyond a threshold. -/
def Number.beyond (n : Number) : Bound → Bool
  | .minimum => n.value < n.limits.minThreshold
  | .maximum => n.limits.maxThreshold < n.value

def Number.Within (n : Number) : Prop := ∀ b, n.beyond b = false

/-- What there is to tell of a threshold. -/
def crossings (b : Bound) (n n' : Number) : List Bool :=
  if n.beyond b = n'.beyond b then [] else [n'.beyond b]

/-- What `MM_incrementValue` takes for crossed. -/
def Number.crossing (n n' : Number) (incrementBy : ℤ) : Option (Bound × Bool) :=
  let was := !n.beyond .minimum && !n.beyond .maximum
  let is := !n'.beyond .minimum && !n'.beyond .maximum
  if was && !is then some (if 0 < incrementBy then .maximum else .minimum, true)
  else if !was && is then some (if 0 < incrementBy then .minimum else .maximum, false)
  else none

/-- **A log of a bit**: it alternates, `true` first, and ends with the bit. -/
structure Follows (log : List Bool) (x : Bool) : Prop where
  alternates : ∀ k y, log[k]? = some y → y = decide (k % 2 = 0)
  last : log.getLast?.getD false = x

variable {log : List Bool} {x y : Bool} {n n' : Number} {b : Bound} {s t : State} {i : ObjectId}
  {o : ManagableObject} {mem : Memory} {k : NumberCall} {r : Ret}

/-! ## Logs of a bit -/

theorem Follows.nil : Follows [] false := ⟨fun k y h => by simp at h, rfl⟩

/-- The bit is the parity of the log. -/
theorem Follows.parity (h : Follows log x) : x = decide (log.length % 2 = 1) := by
  rw [← h.last]
  rcases List.eq_nil_or_concat log with rfl | ⟨init, y, rfl⟩
  · rfl
  · have hget : (init.concat y)[init.length]? = some y := by simp
    have hy := h.alternates init.length y hget
    simp only [List.concat_eq_append, List.getLast?_append, List.getLast?_singleton, Option.some_or,
      Option.getD_some, List.length_append, List.length_singleton]
    rw [hy, decide_eq_decide]
    omega

/-- **A change goes to the log.** -/
theorem Follows.step (h : Follows log x) (y : Bool) : Follows (log ++ if x = y then [] else [y]) y := by
  by_cases hxy : x = y
  · rw [if_pos hxy, List.append_nil]
    exact hxy ▸ h
  · rw [if_neg hxy]
    refine ⟨?_, by simp⟩
    intro k z hz
    rcases Nat.lt_or_ge k log.length with hlt | hge
    · rw [List.getElem?_append_left hlt] at hz
      exact h.alternates k z hz
    · rw [List.getElem?_append_right hge] at hz
      have hk : k = log.length := by
        by_contra hne
        -- behind the new bit there is nothing
        rw [List.getElem?_eq_none (by simp; omega)] at hz
        cases hz
      subst hk
      have hz : y = z := by simpa using hz
      -- the new bit is not the old one
      have hparity := h.parity
      rw [← hz]
      cases y with
      | false =>
        have hx : x = true := by simpa using hxy
        rw [hx, eq_comm, decide_eq_true_iff] at hparity
        rw [eq_comm, decide_eq_false_iff_not]
        omega
      | true =>
        have hx : x = false := by simpa using hxy
        rw [hx, eq_comm, decide_eq_false_iff_not] at hparity
        rw [eq_comm, decide_eq_true_iff]
        omega

/-! ## What an increment takes for crossed -/

theorem within_iff : n.Within ↔ (!n.beyond .minimum && !n.beyond .maximum) = true := by
  unfold Number.Within
  constructor
  · intro h
    rw [h, h]
    rfl
  · intro h b
    rw [Bool.and_eq_true, Bool.not_eq_true', Bool.not_eq_true'] at h
    cases b with
    | minimum => exact h.1
    | maximum => exact h.2

theorem crossings_self (h : n.beyond b = n'.beyond b) : crossings b n n' = [] := if_pos h

theorem crossings_nil (h : crossings b n n' = []) : n.beyond b = n'.beyond b := by
  unfold crossings at h
  split at h
  · assumption
  · cases h

theorem crossings_single (h : crossings b n n' = [x]) : n.beyond b = !x ∧ n'.beyond b = x := by
  unfold crossings at h
  split at h
  · cases h
  · rename_i hne
    have hx : n'.beyond b = x := by simpa using h
    rw [hx] at hne
    exact ⟨Bool.eq_not.2 hne, hx⟩

theorem crossings_change (h : n.beyond b = !x) (h' : n'.beyond b = x) : crossings b n n' = [x] := by
  unfold crossings
  rw [h, h', if_neg (by cases x <;> decide)]

theorem beyond_maximum : n.beyond .maximum = true ↔ n.limits.maxThreshold < n.value := decide_eq_true_iff

theorem beyond_minimum : n.beyond .minimum = true ↔ n.value < n.limits.minThreshold := decide_eq_true_iff

theorem Number.Within.between (h : n.Within) :
    n.limits.minThreshold ≤ n.value ∧ n.value ≤ n.limits.maxThreshold := by
  have hmin := beyond_minimum.not.1 (by rw [h]; decide)
  have hmax := beyond_maximum.not.1 (by rw [h]; decide)
  exact ⟨Int.not_lt.1 hmin, Int.not_lt.1 hmax⟩

theorem not_beyond_maximum (h : n.value ≤ n.limits.maxThreshold) : n.beyond .maximum = false :=
  decide_eq_false (Int.not_lt.2 h)

theorem not_beyond_minimum (h : n.limits.minThreshold ≤ n.value) : n.beyond .minimum = false :=
  decide_eq_false (Int.not_lt.2 h)

/-- A number that is not within, and not beyond the one threshold, is beyond the other. -/
theorem beyond_of_not_within (h : ¬n.Within) : n.beyond .minimum = true ∨ n.beyond .maximum = true := by
  rw [within_iff] at h
  cases hmin : n.beyond .minimum with
  | true => exact .inl rfl
  | false =>
    rw [hmin] at h
    exact .inr (by simpa using h)

/-- The number goes in the direction of the increment. -/
def Directed (n n' : Number) (incrementBy : ℤ) : Prop :=
  (0 < incrementBy ∧ n.value < n'.value) ∨ (incrementBy < 0 ∧ n'.value < n.value)

section Crossing

variable {incrementBy : ℤ}

theorem crossing_stays (h : n.Within ↔ n'.Within) : n.crossing n' incrementBy = none := by
  rw [within_iff, within_iff, Bool.coe_iff_coe] at h
  unfold Number.crossing
  dsimp only
  rw [h]
  cases !n'.beyond .minimum && !n'.beyond .maximum with
  | true => rfl
  | false => rfl

theorem crossing_leaves (h : n.Within) (h' : ¬n'.Within) :
    n.crossing n' incrementBy = some (if 0 < incrementBy then .maximum else .minimum, true) := by
  rw [within_iff] at h h'
  unfold Number.crossing
  dsimp only
  rw [h, Bool.eq_false_iff.2 h']
  rfl

theorem crossing_enters (h : ¬n.Within) (h' : n'.Within) :
    n.crossing n' incrementBy = some (if 0 < incrementBy then .minimum else .maximum, false) := by
  rw [within_iff] at h h'
  unfold Number.crossing
  dsimp only
  rw [h', Bool.eq_false_iff.2 h]
  rfl

/-- What is told is what has been crossed, where one threshold has been crossed and is told of. -/
theorem crossingLog_eq {b' : Bound} (hc : n.crossing n' incrementBy = some (b', x))
    (hcrossed : n.beyond b' = !x ∧ n'.beyond b' = x) (hothers : ∀ b, b ≠ b' → n.beyond b = n'.beyond b) :
    ∀ b, crossingLog b (n.crossing n' incrementBy) = crossings b n n' := by
  intro b
  rw [hc]
  by_cases hb : b' = b
  · subst hb
    rw [crossings_change hcrossed.1 hcrossed.2]
    exact if_pos rfl
  · rw [crossings_self (hothers b (Ne.symm hb))]
    exact if_neg hb

/-- **A number that leaves the range** between the thresholds in the direction of the increment. -/
theorem crossing_left (hl : n'.limits = n.limits) (hw : n.Within) (hi : ¬n'.Within)
    (hd : Directed n n' incrementBy) : ∀ b, crossingLog b (n.crossing n' incrementBy) = crossings b n n' := by
  obtain ⟨hmin, hmax⟩ := hw.between
  rcases hd with ⟨hup, hlt⟩ | ⟨hdown, hlt⟩
  · -- upwards, so that it is not beyond the minimum
    have hside : n'.beyond .minimum = false := not_beyond_minimum (by rw [hl]; omega)
    have hcrossed := (beyond_of_not_within hi).resolve_left (by rw [hside]; decide)
    refine crossingLog_eq ((crossing_leaves hw hi).trans (by rw [if_pos hup])) ⟨hw .maximum, hcrossed⟩
      fun b hb => ?_
    cases b with
    | minimum => exact (hw .minimum).trans hside.symm
    | maximum => exact absurd rfl hb
  · have hside : n'.beyond .maximum = false := not_beyond_maximum (by rw [hl]; omega)
    have hcrossed := (beyond_of_not_within hi).resolve_right (by rw [hside]; decide)
    refine crossingLog_eq ((crossing_leaves hw hi).trans (by rw [if_neg (by omega)]))
      ⟨hw .minimum, hcrossed⟩ fun b hb => ?_
    cases b with
    | minimum => exact absurd rfl hb
    | maximum => exact (hw .maximum).trans hside.symm

/-- **A number that comes into the range** in the direction of the increment. -/
theorem crossing_entered (hl : n'.limits = n.limits) (hw : ¬n.Within) (hi : n'.Within)
    (hd : Directed n n' incrementBy) : ∀ b, crossingLog b (n.crossing n' incrementBy) = crossings b n n' := by
  obtain ⟨hmin, hmax⟩ := hi.between
  rw [hl] at hmin hmax
  rcases hd with ⟨hup, hlt⟩ | ⟨hdown, hlt⟩
  · -- upwards, so that it has not been beyond the maximum
    have hside : n.beyond .maximum = false := not_beyond_maximum (by omega)
    have hcrossed := (beyond_of_not_within hw).resolve_right (by rw [hside]; decide)
    refine crossingLog_eq ((crossing_enters hw hi).trans (by rw [if_pos hup])) ⟨hcrossed, hi .minimum⟩
      fun b hb => ?_
    cases b with
    | minimum => exact absurd rfl hb
    | maximum => exact hside.trans (hi .maximum).symm
  · have hside : n.beyond .minimum = false := not_beyond_minimum (by omega)
    have hcrossed := (beyond_of_not_within hw).resolve_left (by rw [hside]; decide)
    refine crossingLog_eq ((crossing_enters hw hi).trans (by rw [if_neg (by omega)]))
      ⟨hcrossed, hi .maximum⟩ fun b hb => ?_
    cases b with
    | minimum => exact hside.trans (hi .minimum).symm
    | maximum => exact absurd rfl hb

/-- What is told of a number that leaves the range tells its direction. -/
theorem directed_of_left (hl : n'.limits = n.limits) (hzero : incrementBy = 0 → n' = n) (hw : n.Within)
    (hi : ¬n'.Within) (h : ∀ b, crossingLog b (n.crossing n' incrementBy) = crossings b n n') :
    Directed n n' incrementBy := by
  obtain ⟨hmin, hmax⟩ := hw.between
  rw [crossing_leaves hw hi] at h
  by_cases hup : 0 < incrementBy
  · rw [if_pos hup] at h
    have hbeyond := beyond_maximum.1 (crossings_single (h .maximum).symm).2
    rw [hl] at hbeyond
    exact .inl ⟨hup, by omega⟩
  · rw [if_neg hup] at h
    have hbeyond := beyond_minimum.1 (crossings_single (h .minimum).symm).2
    rw [hl] at hbeyond
    have hne : incrementBy ≠ 0 := fun h0 => hi ((hzero h0).symm ▸ hw)
    exact .inr ⟨by omega, by omega⟩

theorem directed_of_entered (hl : n'.limits = n.limits) (hzero : incrementBy = 0 → n' = n)
    (hw : ¬n.Within) (hi : n'.Within)
    (h : ∀ b, crossingLog b (n.crossing n' incrementBy) = crossings b n n') :
    Directed n n' incrementBy := by
  obtain ⟨hmin, hmax⟩ := hi.between
  rw [hl] at hmin hmax
  rw [crossing_enters hw hi] at h
  by_cases hup : 0 < incrementBy
  · rw [if_pos hup] at h
    have hbeyond := beyond_minimum.1 (crossings_single (h .minimum).symm).1
    exact .inl ⟨hup, by omega⟩
  · rw [if_neg hup] at h
    have hbeyond := beyond_maximum.1 (crossings_single (h .maximum).symm).1
    have hne : incrementBy ≠ 0 := fun h0 => hw ((hzero h0) ▸ hi)
    exact .inr ⟨by omega, by omega⟩

/-- **When an increment tells what has been crossed**: a number goes in its direction, from the range
between the thresholds or into it. -/
theorem crossing_iff (hl : n'.limits = n.limits) (hzero : incrementBy = 0 → n' = n) :
    (∀ b, crossingLog b (n.crossing n' incrementBy) = crossings b n n') ↔
      (∀ b, n.beyond b = n'.beyond b) ∨ (n.Within ∨ n'.Within) ∧ Directed n n' incrementBy := by
  by_cases hboth : n.Within ↔ n'.Within
  · -- nothing is told
    have hsilent : (∀ b, crossingLog b (n.crossing n' incrementBy) = crossings b n n') ↔
        ∀ b, n.beyond b = n'.beyond b := by
      rw [crossing_stays hboth]
      exact ⟨fun h b => crossings_nil (h b).symm, fun h b => (crossings_self (h b)).symm⟩
    rw [hsilent]
    constructor
    · exact .inl
    · rintro (hsame | ⟨hwithin, -⟩) b
      · exact hsame b
      · have hw : n.Within := hwithin.elim id hboth.2
        exact (hw b).trans (hboth.1 hw b).symm
  · have hdiffers : ¬∀ b, n.beyond b = n'.beyond b := by
      intro hsame
      apply hboth
      unfold Number.Within
      simp only [hsame]
    by_cases hw : n.Within
    · have hi : ¬n'.Within := fun hi => hboth (iff_of_true hw hi)
      constructor
      · intro h
        exact .inr ⟨.inl hw, directed_of_left hl hzero hw hi h⟩
      · intro h
        exact crossing_left hl hw hi (h.resolve_left hdiffers).2
    · have hi : n'.Within := by
        by_contra hi
        exact hboth (iff_of_false hw hi)
      constructor
      · intro h
        exact .inr ⟨.inr hi, directed_of_entered hl hzero hw hi h⟩
      · intro h
        exact crossing_entered hl hw hi (h.resolve_left hdiffers).2

end Crossing

/-! ## What is raised -/

theorem thresholdLog_append (events more : List Event) :
    thresholdLog b (events ++ more) = thresholdLog b events ++ thresholdLog b more :=
  List.flatMap_append

/-- Events of values tell of no threshold. -/
theorem thresholdLog_valueChanged {events : List Event}
    (h : ∀ ev ∈ events, ev.eventType.isValueChanged = true) : thresholdLog b events = [] := by
  refine List.flatMap_eq_nil_iff.2 fun ev hev => ?_
  have hvalue := h ev hev
  cases heq : ev.eventType with
  | valueChangedSigned | valueChangedUnsigned | valueChangedString => rfl
  | _ =>
    rw [heq] at hvalue
    cases hvalue

theorem raisedBy_type {eventType : EventType} {alloc : Bool} {ev : Event}
    (h : ev ∈ raisedBy s eventType o alloc) : ev.eventType = eventType := by
  obtain ⟨m, -, rfl⟩ := mem_raisedBy h
  rfl

/-- **An event that is raised**, with a destination. -/
theorem thresholdLog_raisedBy (hw : s.watched o = true) {eventType : EventType}
    (hne : eventType ≠ .managableObjectChange) (alloc : Bool) :
    thresholdLog b (raisedBy s eventType o alloc) =
      if alloc = true then crossingLog b eventType.crossed else [] := by
  rw [raisedBy_eq hne, hw, Bool.true_and]
  cases alloc with
  | false => rfl
  | true =>
    unfold State.watched at hw
    cases hm : s.modules[o.pModule]? with
    | none =>
      rw [hm] at hw
      cases hw
    | some m => exact List.append_nil _

/-- The events of an increment have memory. -/
def hasMemory (mem : Memory) (o : ManagableObject) : Bool :=
  (!o.notifiesValueChange || mem.event) && mem.event2

theorem incremented_pending {contents : Contents} {changed : EventType} {crossed : Option EventType}
    {value : Value} (hne : changed ≠ .managableObjectChange)
    (hcrossed : ∀ e, crossed = some e → e ≠ .managableObjectChange) :
    (incremented mem s i o contents changed crossed value).state.pendingEvents = s.pendingEvents ++
      ((if o.notifiesValueChange then raisedBy s changed { o with contents } mem.event else []) ++
        if notifyFails mem s o then []
        else crossed.toList.flatMap fun e => raisedBy s e { o with contents } mem.event2) := by
  have hrc : (notifyValueChange mem (s.setObject i { o with contents }) { o with contents }
      changed).2 = if notifyFails mem s o then .resourceError else .success := notifyValueChange_rc hne
  have hstate : (notifyValueChange mem (s.setObject i { o with contents }) { o with contents }
      changed).1.pendingEvents = s.pendingEvents ++
        if o.notifiesValueChange then raisedBy s changed { o with contents } mem.event else [] := by
    rw [notifyValueChange_state]
    rfl
  unfold incremented
  dsimp only
  cases hfails : notifyFails mem s o with
  | true =>
    rw [hfails, if_pos rfl] at hrc
    have hfail : (notifyValueChange mem (s.setObject i { o with contents }) { o with contents }
        changed).2 ≠ .success := by
      rw [hrc]
      decide
    -- there has been no memory for the new value: the event of the threshold is not raised
    rw [if_pos hfail, if_pos rfl, List.append_nil]
    exact hstate
  | false =>
    rw [hfails, if_neg (by decide)] at hrc
    rw [if_neg (not_not.2 hrc)]
    cases crossed with
    | none =>
      rw [if_neg (not_not.2 hrc), Option.toList_none, List.flatMap_nil, ite_self, List.append_nil]
      exact hstate
    | some e =>
      have hevent : (generateEvent (notifyValueChange mem (s.setObject i { o with contents })
          { o with contents } changed).1 e { o with contents } mem.event2).1.pendingEvents =
          s.pendingEvents ++ ((if o.notifiesValueChange then
            raisedBy s changed { o with contents } mem.event else []) ++
              raisedBy s e { o with contents } mem.event2) := by
        -- what is raised does not depend on the events that wait
        have hraised : raisedBy (notifyValueChange mem (s.setObject i { o with contents })
            { o with contents } changed).1 e { o with contents } mem.event2 =
            raisedBy s e { o with contents } mem.event2 := by
          rw [raisedBy_eq (hcrossed e rfl), raisedBy_eq (hcrossed e rfl), notifyValueChange_state]
          rfl
        rw [generateEvent_state, hraised, ← List.append_assoc, ← hstate]
      rw [Option.toList_some, List.flatMap_singleton, if_neg Bool.false_ne_true, ← hevent]
      dsimp only
      split
      · rfl
      · rfl

/-- The events of `MM_incrementValue`, by their thresholds. -/
theorem crossing_crossed (up was is : Bool) :
    (crossing up was is .maxThresholdExceededSigned .minThresholdExceededSigned
        .minThresholdReenteredSigned .maxThresholdReenteredSigned).bind EventType.crossed =
      (if was && !is then some (if up then .maximum else .minimum, true)
        else if !was && is then some (if up then .minimum else .maximum, false) else none) ∧
    (crossing up was is .maxThresholdExceededUnsigned .minThresholdExceededUnsigned
        .minThresholdReenteredUnsigned .maxThresholdReenteredUnsigned).bind EventType.crossed =
      (if was && !is then some (if up then .maximum else .minimum, true)
        else if !was && is then some (if up then .minimum else .maximum, false) else none) := by
  cases was with
  | false =>
    cases is with
    | false => exact ⟨rfl, rfl⟩
    | true => cases up <;> exact ⟨rfl, rfl⟩
  | true =>
    cases is with
    | false => cases up <;> exact ⟨rfl, rfl⟩
    | true => exact ⟨rfl, rfl⟩

theorem crossing_ne {up was is : Bool} {c₁ c₂ c₃ c₄ e : EventType}
    (h : crossing up was is c₁ c₂ c₃ c₄ = some e) : e = c₁ ∨ e = c₂ ∨ e = c₃ ∨ e = c₄ := by
  unfold crossing at h
  split at h
  · obtain rfl := Option.some.inj h
    cases up
    · exact .inr (.inl rfl)
    · exact .inl rfl
  · split at h
    · obtain rfl := Option.some.inj h
      cases up
      · exact .inr (.inr (.inr rfl))
      · exact .inr (.inr (.inl rfl))
    · cases h

/-- The range between the thresholds, as the code asks for it. -/
theorem within_eq {α : Type} [LT α] [DecidableLT α] {f : α → ℤ} (hf : ∀ a b, a < b ↔ f a < f b)
    (kind : NumberKind) (type : NumberType) (l : Limits α) (v : α) :
    l.within v = (!(Number.mk kind type (f v) (l.map f)).beyond .minimum &&
      !(Number.mk kind type (f v) (l.map f)).beyond .maximum) := by
  unfold Limits.within Number.beyond Limits.map
  simp only [hf]

/-- What an increment raises, once the new value is known. -/
theorem incremented_log {contents : Contents} {changed : EventType} {crossed : Option EventType}
    {value : Value} {c : Option (Bound × Bool)} (hw : s.watched o = true)
    (hchanged : changed.isValueChanged = true)
    (hcrossed : ∀ e, crossed = some e → e ≠ .managableObjectChange)
    (hc : crossed.bind EventType.crossed = c) :
    ∃ events, (incremented mem s i o contents changed crossed value).state.pendingEvents =
      s.pendingEvents ++ events ∧
      ∀ b, thresholdLog b events = if hasMemory mem o = true then crossingLog b c else [] := by
  have hne : changed ≠ .managableObjectChange := by
    rintro rfl
    cases hchanged
  refine ⟨_, incremented_pending hne hcrossed, fun b => ?_⟩
  have hfirst : thresholdLog b (if o.notifiesValueChange then
      raisedBy s changed { o with contents } mem.event else []) = [] := by
    split
    · exact thresholdLog_valueChanged fun ev hev => (raisedBy_type hev).symm ▸ hchanged
    · rfl
  have hsecond : thresholdLog b (crossed.toList.flatMap fun e =>
      raisedBy s e { o with contents } mem.event2) =
      if mem.event2 = true then crossingLog b c else [] := by
    rw [← hc]
    cases crossed with
    | none =>
      rw [Option.bind_none, crossingLog, ite_self]
      rfl
    | some e =>
      rw [Option.toList_some, List.flatMap_singleton]
      have hw' : s.watched { o with contents } = true := hw
      exact thresholdLog_raisedBy hw' (hcrossed e rfl) mem.event2
  have hfails : notifyFails mem s o = (o.notifiesValueChange && !mem.event) := by
    unfold notifyFails
    rw [hw, Bool.true_and]
  rw [thresholdLog_append, hfirst, List.nil_append, hfails]
  unfold hasMemory
  cases o.notifiesValueChange with
  | false =>
    rw [Bool.false_and, if_neg Bool.false_ne_true]
    exact hsecond
  | true =>
    cases mem.event with
    | false => rfl
    | true => exact hsecond

/-- **The events of an increment**: what it takes for crossed, if they have memory. -/
theorem increment_log (hn : o.contents.number = some n) (hw : s.watched o = true) (incrementBy : Int32) :
    ∃ events, (incrementValue mem s i o incrementBy).state.pendingEvents = s.pendingEvents ++ events ∧
      ∀ b, thresholdLog b events = if hasMemory mem o = true then
        crossingLog b (n.crossing (n.increment incrementBy.toInt) incrementBy.toInt) else [] := by
  have hnumber := number_incremented hn incrementBy
  have hsign : 0 < incrementBy ↔ 0 < incrementBy.toInt := Int32.lt_iff_toInt_lt
  have hnone : incrementBy = 0 → n.crossing (n.increment incrementBy.toInt) incrementBy.toInt = none := by
    rintro rfl
    exact crossing_stays Iff.rfl
  unfold incrementValue
  obtain ⟨type, v, l, hc, rfl⟩ | ⟨type, v, l, hc, rfl⟩ := number_cases hn
  · rw [hc] at hnumber ⊢
    dsimp only
    split
    · rename_i hzero
      refine ⟨[], (List.append_nil _).symm, fun b => ?_⟩
      rw [hnone hzero, crossingLog, ite_self]
      rfl
    · rename_i hzero
      rw [Contents.incremented, if_neg hzero] at hnumber
      refine incremented_log hw rfl ?_ ?_
      · intro e he
        -- no event of a threshold is one of a new object
        rcases crossing_ne he with rfl | rfl | rfl | rfl <;> decide
      · rw [(crossing_crossed _ _ _).1, ← Option.some.inj hnumber,
          within_eq (fun _ _ => Int32.lt_iff_toInt_lt) .sint32 type,
          within_eq (fun _ _ => Int32.lt_iff_toInt_lt) .sint32 type]
        simp only [decide_eq_true_eq, hsign]
        rfl
  · rw [hc] at hnumber ⊢
    dsimp only
    split
    · rename_i hzero
      refine ⟨[], (List.append_nil _).symm, fun b => ?_⟩
      rw [hnone hzero, crossingLog, ite_self]
      rfl
    · rename_i hzero
      rw [Contents.incremented, if_neg hzero] at hnumber
      refine incremented_log hw rfl ?_ ?_
      · intro e he
        rcases crossing_ne he with rfl | rfl | rfl | rfl <;> decide
      · rw [(crossing_crossed _ _ _).2, ← Option.some.inj hnumber, within_eq toNat_order .uint32 type,
          within_eq toNat_order .uint32 type]
        simp only [decide_eq_true_eq, hsign]
        rfl

/-- **A new value or a new bound tells of no threshold.** -/
theorem setNumber_log {changed : Bool} {contents : Contents} {eventType : EventType} {value : Value}
    (ht : eventType.isValueChanged = true) :
    ∃ events, (setNumber mem s i o changed contents eventType value).state.pendingEvents =
      s.pendingEvents ++ events ∧ ∀ b, thresholdLog b events = [] := by
  cases changed with
  | false => exact ⟨[], (List.append_nil _).symm, fun b => rfl⟩
  | true =>
    have hstate : (setNumber mem s i o true contents eventType value).state =
        (notifyValueChange mem (s.setObject i { o with contents }) { o with contents } eventType).1 := by
      unfold setNumber
      dsimp only
      rw [if_pos rfl]
      split
      · rfl
      · rfl
    rw [hstate, notifyValueChange_state]
    refine ⟨_, rfl, fun b => ?_⟩
    split
    · exact thresholdLog_valueChanged fun ev hev => (raisedBy_type hev).symm ▸ ht
    · rfl

theorem setValue_log (hn : o.contents.number = some n) (value : Value) :
    ∃ events, (setValueByHandle mem s i o value).state.pendingEvents = s.pendingEvents ++ events ∧
      ∀ b, thresholdLog b events = [] := by
  have hsame : ∃ events, s.pendingEvents = s.pendingEvents ++ events ∧ ∀ b, thresholdLog b events = [] :=
    ⟨[], (List.append_nil _).symm, fun b => rfl⟩
  unfold setValueByHandle
  obtain ⟨type, v, l, hc, rfl⟩ | ⟨type, v, l, hc, rfl⟩ := number_cases hn
  · rw [hc]
    cases value with
    | signedInt w => exact setNumber_log rfl
    | unsignedInt w => exact hsame
    | string w => exact hsame
  · rw [hc]
    cases value with
    | unsignedInt w => exact setNumber_log rfl
    | signedInt w => exact hsame
    | string w => exact hsame

theorem setThreshold_pending (type : ThresholdType) (value : Value) :
    (setThresholdByHandle s i o type value).1.pendingEvents = s.pendingEvents := by
  unfold setThresholdByHandle
  split
  · split
    · rfl
    · split <;> rfl
  · split
    · rfl
    · split <;> rfl
  · rfl
  · rfl
  · rfl

/-! ## Results -/

/-- A call that tells what it crosses: it crosses nothing, or it is an increment with memory for its
events by which the number goes in its direction, from the range between the thresholds or into it. -/
def Tracked (mem : Memory) (o : ManagableObject) (n : Number) (k : NumberCall) : Prop :=
  (∀ b, n.beyond b = (n.after k).beyond b) ∨
    ∃ incrementBy, k = .incrementValue incrementBy ∧ hasMemory mem o = true ∧
      (n.Within ∨ (n.after k).Within) ∧ Directed n (n.after k) incrementBy.toInt

/-- A call that tells of nothing. -/
theorem quiet_iff {events : List Event} (hlog : ∀ b, thresholdLog b events = []) :
    (∀ b, thresholdLog b events = crossings b n n') ↔ ∀ b, n.beyond b = n'.beyond b := by
  constructor
  · intro h b
    exact crossings_nil ((h b).symm.trans (hlog b))
  · intro h b
    rw [hlog b, crossings_self (h b)]

/-- **What a call tells** about a number with a destination is what it crosses, if and only if it is
tracked. -/
theorem logged_iff (ho : s.managableObjects[i]? = some o) (hn : o.contents.number = some n)
    (hw : s.watched o = true) (hr : (k.call i).run mem s = some r) :
    (∀ b, thresholdLog b (r.state.pendingEvents.drop s.pendingEvents.length) =
      crossings b n (n.after k)) ↔ Tracked mem o n k := by
  cases k with
  | setValue value =>
    obtain ⟨o', ho', rfl⟩ := Option.map_eq_some_iff.1 hr
    obtain rfl := Option.some.inj (ho.symm.trans ho')
    obtain ⟨events, hevents, hlog⟩ : ∃ events, (setValueByHandle mem s i o value).state.pendingEvents =
        s.pendingEvents ++ events ∧ ∀ b, thresholdLog b events = [] := setValue_log hn value
    rw [hevents, List.drop_left, quiet_iff hlog]
    constructor
    · exact .inl
    · rintro (h | ⟨incrementBy, heq, -⟩)
      · exact h
      · cases heq
  | setThreshold t value =>
    -- a threshold that is moved may leave the number on its other side
    obtain ⟨o', ho', rfl⟩ := Option.map_eq_some_iff.1 hr
    have hpending : (Ret.of (setThresholdByHandle s i o' t value)).state.pendingEvents = s.pendingEvents :=
      setThreshold_pending t value
    rw [hpending, List.drop_length, quiet_iff fun b => rfl]
    constructor
    · exact .inl
    · rintro (h | ⟨incrementBy, heq, -⟩)
      · exact h
      · cases heq
  | incrementValue incrementBy =>
    obtain ⟨o', ho', rfl⟩ := Option.map_eq_some_iff.1 hr
    obtain rfl := Option.some.inj (ho.symm.trans ho')
    obtain ⟨events, hevents, hlog⟩ : ∃ events,
        (incrementValue mem s i o incrementBy).state.pendingEvents = s.pendingEvents ++ events ∧
          ∀ b, thresholdLog b events = if hasMemory mem o = true then
            crossingLog b (n.crossing (n.increment incrementBy.toInt) incrementBy.toInt) else [] :=
      increment_log hn hw incrementBy
    rw [hevents, List.drop_left]
    cases hmemory : hasMemory mem o with
    | false =>
      rw [hmemory] at hlog
      rw [quiet_iff hlog]
      constructor
      · exact .inl
      · rintro (h | ⟨incrementBy', -, htrue, -⟩)
        · exact h
        · rw [hmemory] at htrue
          cases htrue
    | true =>
      rw [hmemory] at hlog
      -- an increment by nothing leaves the number as it is, whatever its bounds
      have hzero : incrementBy.toInt = 0 → n.after (.incrementValue incrementBy) = n := by
        intro h0
        rw [Number.after, Number.increment, if_pos h0]
      have hleft : (∀ b, thresholdLog b events = crossings b n (n.after (.incrementValue incrementBy))) ↔
          ∀ b, crossingLog b (n.crossing (n.after (.incrementValue incrementBy)) incrementBy.toInt) =
            crossings b n (n.after (.incrementValue incrementBy)) :=
        forall_congr' fun b => by
          rw [hlog b, if_pos rfl]
          rfl
      rw [hleft]
      refine (crossing_iff (by rfl) hzero).trans ?_
      constructor
      · rintro (h | ⟨hwithin, hdirected⟩)
        · exact .inl h
        · exact .inr ⟨incrementBy, rfl, hmemory, hwithin, hdirected⟩
      · rintro (h | ⟨incrementBy', heq, -, hwithin, hdirected⟩)
        · exact .inl h
        · cases heq
          exact .inr ⟨hwithin, hdirected⟩

/-- A number between its thresholds, with a destination for its events. -/
def Watched (s : State) (o : ManagableObject) (n : Number) : Prop := s.watched o = true ∧ n.Within

/-- Each call is tracked. -/
def Tracks (i : ObjectId) (s : State) (x : Memory × NumberCall) : Prop :=
  ∀ o n, s.managableObjects[i]? = some o → o.contents.number = some n → Tracked x.1 o n x.2

/-- A call keeps the destinations. -/
theorem numberCall_watched (ho : s.managableObjects[i]? = some o) (hr : (k.call i).run mem s = some r) :
    r.state.watched { o with contents := k.contents mem o.contents } = s.watched o := by
  obtain ⟨asked, extra, heffect, -⟩ := numberCall_effect ho hr
  rw [heffect]
  rfl

/-- A gauge at its upper threshold, six below the greatest number. -/
def highGauge : ManagableObject :=
  ⟨small, small, 0, 0, 0, false, .uint32 .gauge 4294967290 ⟨10, 4294967290, 0, 4294967295⟩⟩

def highNumber : Number := ⟨.uint32, .gauge, 4294967290, ⟨10, 4294967290, 0, 4294967295⟩⟩

/-- A program with this gauge and a destination. -/
def highState : State where
  applicationEntityInstances := [small]
  modules := [⟨small, 0⟩]
  managableObjects := [highGauge]
  destinations := [⟨small, small, 0, 0, 0, 0⟩]

/-- The calls after which it is so. -/
def highCalls : List Call :=
  [.entityInit small, .registerModule 0 small,
    .registerManagableObject 0 .gaugeUnsigned small small 0 0 false,
    .registerDestination 0 small small 0 0 0, .setThreshold 0 .minimumThreshold (.unsignedInt 10),
    .setThreshold 0 .maximumThreshold (.unsignedInt 4294967290),
    .setValue 0 (.unsignedInt 4294967290)]

theorem highGauge_number : highGauge.contents.number = some highNumber := by decide

theorem highGauge_watched : Watched highState highGauge highNumber := by
  refine ⟨by decide, fun b => ?_⟩
  cases b with
  | minimum => decide
  | maximum => decide

end Mm
