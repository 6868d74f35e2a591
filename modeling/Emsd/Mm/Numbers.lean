import Emsd.Mm.Raising
import Emsd.Mm.Program

/-!
# The numbers of managable objects

A gauge or a counter as an integer with its bounds, whatever its type. What the calls of a program do to
a number is said here once, for signed and unsigned objects.

* `Number.increment`, `Number.set` and `Number.bound`: the calls on integers.
* `number_incremented`, `number_stored`, `number_bounded`: **what the calls store** is this.
* `wrap_eq_iff`: 32 bits hold a sum, or are off by 2 ^ 32.
-/

namespace Mm

open Ocp

/-- `valueType` of a number. -/
inductive NumberKind
  | sint32
  | uint32
  deriving DecidableEq, Repr

namespace NumberKind

/-- The numbers of the type. -/
def least : NumberKind → ℤ
  | sint32 => -2 ^ 31
  | uint32 => 0

def greatest (k : NumberKind) : ℤ := k.least + (2 ^ 32 - 1)

/-- A number of the type. -/
def Holds (k : NumberKind) (x : ℤ) : Prop := k.least ≤ x ∧ x ≤ k.greatest

instance (k : NumberKind) (x : ℤ) : Decidable (k.Holds x) := inferInstanceAs (Decidable (_ ∧ _))

/-- What is left of an integer in 32 bits. -/
def wrap (k : NumberKind) (x : ℤ) : ℤ := k.least + (x - k.least) % 2 ^ 32

/-- The number that a value holds, if it is of the type. -/
def read : NumberKind → Value → Option ℤ
  | sint32, .signedInt w => some w.toInt
  | uint32, .unsignedInt w => some w.toNat
  | _, _ => none

variable {k : NumberKind} {x y : ℤ}

theorem wrap_of_holds (h : k.Holds x) : k.wrap x = x := by
  obtain ⟨h0, h1⟩ := h
  unfold greatest at h1
  unfold wrap
  rw [Int.emod_eq_of_lt (by omega) (by omega)]
  omega

/-- A sum that the type does not hold is off by one round. -/
theorem wrap_of_above (h : k.greatest < x) (hx : x ≤ k.greatest + 2 ^ 32) : k.wrap x = x - 2 ^ 32 := by
  unfold greatest at h hx
  unfold wrap
  have hround : x - k.least = (x - k.least - 2 ^ 32) + 2 ^ 32 := by omega
  rw [hround, Int.add_emod_right, Int.emod_eq_of_lt (by omega) (by omega)]
  omega

theorem wrap_of_below (h : x < k.least) (hx : k.least ≤ x + 2 ^ 32) : k.wrap x = x + 2 ^ 32 := by
  unfold wrap
  rw [← Int.add_emod_right, Int.emod_eq_of_lt (by omega) (by omega)]
  omega

end NumberKind

/-- A gauge or a counter. -/
structure Number where
  kind : NumberKind
  type : NumberType
  value : ℤ
  limits : Limits ℤ
  deriving DecidableEq

/-- Bounds of another type. -/
def Limits.map {α β : Type} (f : α → β) (l : Limits α) : Limits β :=
  ⟨f l.minThreshold, f l.maxThreshold, f l.minAbsolute, f l.maxAbsolute⟩

/-- The number of an object. -/
def Contents.number : Contents → Option Number
  | .sint32 type v l => some ⟨.sint32, type, v.toInt, l.map Int32.toInt⟩
  | .uint32 type v l => some ⟨.uint32, type, v.toNat, l.map fun x => (x.toNat : ℤ)⟩
  | _ => none

namespace Number

/-- `MM_incrementValue`. -/
def increment (n : Number) (incrementBy : ℤ) : Number :=
  { n with
    value := if incrementBy = 0 then n.value else n.limits.clamp (n.kind.wrap (n.value + incrementBy)) }

/-- `MM_setValueByHandle`. -/
def set (n : Number) (w : ℤ) : Number :=
  { n with value := if n.value = w then n.value else n.limits.clamp w }

/-- `MM_setThresholdByHandle`. -/
def bound (n : Number) (t : ThresholdType) (w : ℤ) : Number :=
  if n.type = .counter ∧ t = .minimumThreshold then n
  else { n with value := (n.limits.put n.value t w).2, limits := (n.limits.put n.value t w).1 }

/-- The type holds the value and the bounds. -/
structure InRange (n : Number) : Prop where
  value : n.kind.Holds n.value
  minThreshold : n.kind.Holds n.limits.minThreshold
  maxThreshold : n.kind.Holds n.limits.maxThreshold
  minAbsolute : n.kind.Holds n.limits.minAbsolute
  maxAbsolute : n.kind.Holds n.limits.maxAbsolute

/-- The value is within its absolute bounds. -/
def Bounded (n : Number) : Prop := n.limits.minAbsolute ≤ n.value ∧ n.value ≤ n.limits.maxAbsolute

/-- The absolute bounds are in order. -/
def Ordered (n : Number) : Prop := n.limits.minAbsolute ≤ n.limits.maxAbsolute

end Number

/-! ## The bounds of another type -/

section Order

variable {α : Type} [LT α] [DecidableLT α] {f : α → ℤ} {l : Limits α} {v w : α}

theorem Limits.clamp_map (hf : ∀ a b, a < b ↔ f a < f b) :
    (l.map f).clamp (f v) = f (l.clamp v) := by
  unfold Limits.clamp Limits.map
  simp only [hf, apply_ite f]

theorem Limits.put_map (hf : ∀ a b, a < b ↔ f a < f b) (t : ThresholdType) :
    (l.map f).put (f v) t (f w) = ((l.put v t w).1.map f, f (l.put v t w).2) := by
  cases t with
  | minimumAbsolute =>
    unfold Limits.put Limits.map
    simp only [hf, apply_ite f]
  | maximumAbsolute =>
    unfold Limits.put Limits.map
    simp only [hf, apply_ite f]
  | minimumThreshold | maximumThreshold | other n => rfl

end Order

theorem toNat_order (a b : UInt32) : a < b ↔ (a.toNat : ℤ) < (b.toNat : ℤ) := by
  rw [UInt32.lt_iff_toNat_lt]
  omega

theorem toInt_holds (a : Int32) : NumberKind.sint32.Holds a.toInt := by
  have h0 := a.le_toInt
  have h1 := a.toInt_lt
  unfold NumberKind.Holds NumberKind.greatest NumberKind.least
  dsimp only
  omega

theorem toNat_holds (a : UInt32) : NumberKind.uint32.Holds (a.toNat : ℤ) := by
  have h := a.toNat_lt
  unfold NumberKind.Holds NumberKind.greatest NumberKind.least
  dsimp only
  omega

theorem toInt_add_wrap (a b : Int32) : (a + b).toInt = NumberKind.sint32.wrap (a.toInt + b.toInt) := by
  rw [Int32.toInt_add, Int.bmod_def]
  unfold NumberKind.wrap NumberKind.least
  dsimp only
  split
  · omega
  · omega

theorem toNat_add_wrap (a : UInt32) (b : Int32) :
    ((a + b.toUInt32).toNat : ℤ) = NumberKind.uint32.wrap (a.toNat + b.toInt) := by
  have hb : (b.toUInt32.toNat : ℤ) = b.toInt % 2 ^ 32 := by
    have hlt : b.toUInt32.toNat < 2 ^ 32 := b.toUInt32.toNat_lt
    have hcond : b.toInt = if 2 * b.toUInt32.toNat < 2 ^ 32 then (b.toUInt32.toNat : ℤ)
        else b.toUInt32.toNat - 2 ^ 32 := BitVec.toInt_eq_toNat_cond b.toBitVec
    rw [hcond]
    split
    · omega
    · omega
  rw [UInt32.toNat_add]
  unfold NumberKind.wrap NumberKind.least
  dsimp only
  push_cast
  rw [hb]
  omega

/-! ## What the calls store -/

variable {c : Contents} {n : Number}

/-- An object with a number is a gauge or a counter, signed or not. -/
theorem number_cases (h : c.number = some n) :
    (∃ type v l, c = .sint32 type v l ∧ n = ⟨.sint32, type, v.toInt, l.map Int32.toInt⟩) ∨
      ∃ type v l, c = .uint32 type v l ∧ n = ⟨.uint32, type, v.toNat, l.map fun x => (x.toNat : ℤ)⟩ := by
  cases c with
  | sint32 type v l => exact .inl ⟨type, v, l, rfl, (Option.some.inj h).symm⟩
  | uint32 type v l => exact .inr ⟨type, v, l, rfl, (Option.some.inj h).symm⟩
  | string v => cases h
  | timer t => cases h
  | log t => cases h

/-- **The type holds a number and its bounds.** -/
theorem number_inRange (h : c.number = some n) : n.InRange := by
  obtain ⟨type, v, l, rfl, rfl⟩ | ⟨type, v, l, rfl, rfl⟩ := number_cases h
  · exact ⟨toInt_holds _, toInt_holds _, toInt_holds _, toInt_holds _, toInt_holds _⟩
  · exact ⟨toNat_holds _, toNat_holds _, toNat_holds _, toNat_holds _, toNat_holds _⟩

/-- **An increment.** -/
theorem number_incremented (h : c.number = some n) (incrementBy : Int32) :
    (c.incremented incrementBy).number = some (n.increment incrementBy.toInt) := by
  have hzero : incrementBy = 0 ↔ incrementBy.toInt = 0 := by
    rw [← Int32.toInt_inj]
    rfl
  obtain ⟨type, v, l, rfl, rfl⟩ | ⟨type, v, l, rfl, rfl⟩ := number_cases h
  · unfold Contents.incremented Contents.number Number.increment
    simp only [hzero, apply_ite Int32.toInt, ← toInt_add_wrap,
      Limits.clamp_map (fun _ _ => Int32.lt_iff_toInt_lt)]
  · unfold Contents.incremented Contents.number Number.increment
    simp only [hzero, apply_ite (fun x : UInt32 => (x.toNat : ℤ)), ← toNat_add_wrap,
      Limits.clamp_map toNat_order]

/-- **A new value**, of a type that the object has or of another. -/
theorem number_stored (h : c.number = some n) (mem : Memory) (value : Value) :
    (c.stored mem value).number = some (((n.kind.read value).map n.set).getD n) := by
  obtain ⟨type, v, l, rfl, rfl⟩ | ⟨type, v, l, rfl, rfl⟩ := number_cases h
  · cases value with
    | signedInt w =>
      unfold Contents.stored Contents.number NumberKind.read Number.set
      simp only [← Int32.toInt_inj, apply_ite Int32.toInt, Option.map_some, Option.getD_some,
        Limits.clamp_map (fun _ _ => Int32.lt_iff_toInt_lt)]
    | unsignedInt w => rfl
    | string w => rfl
  · cases value with
    | unsignedInt w =>
      have heq : v = w ↔ (v.toNat : ℤ) = w.toNat := by
        rw [← UInt32.toNat_inj, Int.natCast_inj]
      unfold Contents.stored Contents.number NumberKind.read Number.set
      simp only [heq, apply_ite (fun x : UInt32 => (x.toNat : ℤ)), Option.map_some, Option.getD_some,
        Limits.clamp_map toNat_order]
    | signedInt w => rfl
    | string w => rfl

/-- **A new bound.** -/
theorem number_bounded (h : c.number = some n) (t : ThresholdType) (value : Value) :
    (c.bounded t value).number = some (((n.kind.read value).map (n.bound t)).getD n) := by
  obtain ⟨type, v, l, rfl, rfl⟩ | ⟨type, v, l, rfl, rfl⟩ := number_cases h
  · cases value with
    | signedInt w =>
      unfold Contents.bounded NumberKind.read Number.bound
      dsimp only [Option.map_some, Option.getD_some]
      rw [Limits.put_map fun _ _ => Int32.lt_iff_toInt_lt]
      split
      · rfl
      · rfl
    | unsignedInt w => rfl
    | string w => rfl
  · cases value with
    | unsignedInt w =>
      unfold Contents.bounded NumberKind.read Number.bound
      dsimp only [Option.map_some, Option.getD_some]
      rw [Limits.put_map toNat_order]
      split
      · rfl
      · rfl
    | signedInt w => rfl
    | string w => rfl

/-! ## The calls about one number -/

/-- A call that may change the number of an object, or its bounds. -/
inductive NumberCall
  | setValue (value : Value)
  | incrementValue (incrementBy : Int32)
  | setThreshold (t : ThresholdType) (value : Value)
  deriving DecidableEq, Repr

def NumberCall.call (i : ObjectId) : NumberCall → Call
  | setValue value => .setValue i value
  | incrementValue incrementBy => .incrementValue i incrementBy
  | setThreshold t value => .setThreshold i t value

/-- The contents of the object after the call. -/
def NumberCall.contents (mem : Memory) (c : Contents) : NumberCall → Contents
  | setValue value => c.stored mem value
  | incrementValue incrementBy => c.incremented incrementBy
  | setThreshold t value => c.bounded t value

/-- The number after the call. -/
def Number.after (n : Number) : NumberCall → Number
  | .setValue value => ((n.kind.read value).map n.set).getD n
  | .incrementValue incrementBy => n.increment incrementBy.toInt
  | .setThreshold t value => ((n.kind.read value).map (n.bound t)).getD n

theorem number_after (h : c.number = some n) (mem : Memory) (k : NumberCall) :
    (k.contents mem c).number = some (n.after k) := by
  cases k with
  | setValue value => exact number_stored h mem value
  | incrementValue incrementBy => exact number_incremented h incrementBy
  | setThreshold t value => exact number_bounded h t value

/-- The event for a new value has no memory. -/
def notifyFails (mem : Memory) (s : State) (o : ManagableObject) : Bool :=
  o.notifiesValueChange && (s.watched o && !mem.event)

/-- The object `i` has the number `n`. -/
def State.Has (s : State) (i : ObjectId) (n : Number) : Prop :=
  ∃ o, s.managableObjects[i]? = some o ∧ o.contents.number = some n

/-- Calls about the number of the object `i`, from one that is as `start` says; the outputs are the events
that they raise. -/
def numbers (i : ObjectId) (start : State → ManagableObject → Number → Prop) :
    Run.Sys State (Memory × NumberCall) Event where
  init s := ∃ o n, s.managableObjects[i]? = some o ∧ o.contents.number = some n ∧ start s o n
  step s x := ((x.2.call i).run x.1 s).map fun r =>
    (r.state, r.state.pendingEvents.drop s.pendingEvents.length)

variable {s t : State} {i : ObjectId} {o : ManagableObject} {mem : Memory} {k : NumberCall} {r : Ret}

theorem State.Has.unique {n' : Number} (h : s.Has i n) (h' : s.Has i n') : n = n' := by
  obtain ⟨o, ho, hn⟩ := h
  obtain ⟨o', ho', hn'⟩ := h'
  obtain rfl := Option.some.inj (ho.symm.trans ho')
  exact Option.some.inj (hn.symm.trans hn')

/-- **What a call leaves**: the object with its new contents, and further events. -/
theorem numberCall_effect (ho : s.managableObjects[i]? = some o) (hr : (k.call i).run mem s = some r) :
    ∃ asked, Effect mem s r.state i { o with contents := k.contents mem o.contents } asked := by
  cases k with
  | setValue value =>
    obtain ⟨o', ho', rfl⟩ := Option.map_eq_some_iff.1 hr
    obtain rfl := Option.some.inj (ho.symm.trans ho')
    exact ⟨_, setValueByHandle_effect ho⟩
  | incrementValue incrementBy =>
    obtain ⟨o', ho', rfl⟩ := Option.map_eq_some_iff.1 hr
    obtain rfl := Option.some.inj (ho.symm.trans ho')
    exact ⟨_, incrementValue_effect ho⟩
  | setThreshold t value =>
    obtain ⟨o', ho', rfl⟩ := Option.map_eq_some_iff.1 hr
    obtain rfl := Option.some.inj (ho.symm.trans ho')
    exact ⟨_, setThresholdByHandle_effect ho⟩

/-- The object after a call. -/
theorem numberCall_object (ho : s.managableObjects[i]? = some o) (hr : (k.call i).run mem s = some r) :
    r.state.managableObjects[i]? = some { o with contents := k.contents mem o.contents } := by
  obtain ⟨asked, extra, heffect, -⟩ := numberCall_effect ho hr
  obtain ⟨hlt, -⟩ := List.getElem?_eq_some_iff.1 ho
  rw [heffect]
  exact List.getElem?_set_self hlt

/-- **The number after a call.** -/
theorem numberCall_has (h : s.Has i n) (hr : (k.call i).run mem s = some r) :
    r.state.Has i (n.after k) := by
  obtain ⟨o, ho, hn⟩ := h
  exact ⟨_, numberCall_object ho hr, number_after hn mem k⟩

theorem numbers_step {start : State → ManagableObject → Number → Prop} {out : List Event} :
    (numbers i start).step s (mem, k) = some (t, out) ↔
    ∃ r, (k.call i).run mem s = some r ∧ t = r.state ∧
      out = r.state.pendingEvents.drop s.pendingEvents.length := by
  unfold numbers
  rw [Option.map_eq_some_iff]
  constructor
  · rintro ⟨r, hr, heq⟩
    obtain ⟨rfl, rfl⟩ := Prod.mk.inj heq
    exact ⟨r, hr, rfl, rfl⟩
  · rintro ⟨r, hr, rfl, rfl⟩
    exact ⟨r, hr, rfl⟩

end Mm
