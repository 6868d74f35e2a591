import Mathlib.Data.Int.Basic
import Mathlib.Tactic.Common
import Mathlib.Tactic.Ring

/-!
# The calendar

Dates of the Gregorian calendar, extended to all years, and the seconds since the beginning of 1970 in
Universal Time.

* `timegm_gmtime`: **the broken-down time of an instant is a date, and denotes the instant.**
-/

namespace Calendar

variable {y n m : ℤ}

/-! ## Years -/

def isLeap (y : ℤ) : Bool := y % 4 = 0 ∧ (y % 100 ≠ 0 ∨ y % 400 = 0)

/-- The day with which a year begins, counted from the first of 1970. -/
def yearStart (y : ℤ) : ℤ :=
  365 * (y - 1) + (y - 1) / 4 - (y - 1) / 100 + (y - 1) / 400 - 719162

def yearDays (leap : Bool) : ℤ := if leap then 366 else 365

theorem yearStart_succ (y : ℤ) : yearStart (y + 1) = yearStart y + yearDays (isLeap y) := by
  unfold yearStart yearDays isLeap
  split
  · rename_i h
    have := of_decide_eq_true h
    omega
  · rename_i h
    have hnot : ¬(y % 4 = 0 ∧ (y % 100 ≠ 0 ∨ y % 400 = 0)) := by simpa using h
    omega

/-- The year of a day: the average length gives it up to one. -/
def yearOf (n : ℤ) : ℤ :=
  let y := (n + 719162) * 400 / 146097 + 1
  if n < yearStart y then y - 1 else if yearStart (y + 1) ≤ n then y + 1 else y

theorem yearOf_spec (n : ℤ) : yearStart (yearOf n) ≤ n ∧ n < yearStart (yearOf n + 1) := by
  have hest : ∀ y, y = (n + 719162) * 400 / 146097 + 1 →
      yearStart (y - 1) ≤ n ∧ n < yearStart (y + 2) := by
    intro y hy
    unfold yearStart
    omega
  unfold yearOf
  dsimp only
  obtain ⟨hlow, hhigh⟩ := hest _ rfl
  generalize (n + 719162) * 400 / 146097 + 1 = y at hlow hhigh
  split
  · rename_i h
    rw [Int.sub_add_cancel]
    exact ⟨hlow, h⟩
  · split
    · rename_i h
      rw [show y + 1 + 1 = y + 2 by ring]
      exact ⟨h, hhigh⟩
    · omega

theorem yearStart_mono {y y' : ℤ} (h : y ≤ y') : yearStart y ≤ yearStart y' := by
  unfold yearStart
  omega

/-- **The years before one** are those of the days before its first one. -/
theorem yearOf_lt_iff : yearOf n < y ↔ n < yearStart y := by
  obtain ⟨hlow, hhigh⟩ := yearOf_spec n
  constructor
  · intro h
    exact lt_of_lt_of_le hhigh (yearStart_mono h)
  · intro h
    by_contra hnot
    have hle := yearStart_mono (not_lt.1 hnot)
    omega

/-! ## Months -/

/-- The days of the months `1` to `12`. -/
def monthDays (leap : Bool) (m : ℤ) : ℤ :=
  if m = 2 then (if leap then 29 else 28)
  else if m = 4 ∨ m = 6 ∨ m = 9 ∨ m = 11 then 30 else 31

theorem monthDays_le (leap : Bool) (m : ℤ) : monthDays leap m ≤ 31 := by
  unfold monthDays
  split
  · split <;> decide
  · split <;> decide

/-- The days of a year before a month. -/
def monthStart (leap : Bool) (m : ℤ) : ℤ :=
  match m with
  | 1 => 0
  | 2 => 31
  | 3 => 59 + (if leap then 1 else 0)
  | 4 => 90 + (if leap then 1 else 0)
  | 5 => 120 + (if leap then 1 else 0)
  | 6 => 151 + (if leap then 1 else 0)
  | 7 => 181 + (if leap then 1 else 0)
  | 8 => 212 + (if leap then 1 else 0)
  | 9 => 243 + (if leap then 1 else 0)
  | 10 => 273 + (if leap then 1 else 0)
  | 11 => 304 + (if leap then 1 else 0)
  | 12 => 334 + (if leap then 1 else 0)
  | _ => 0

/-- The month of a day of the year. -/
def monthOf (leap : Bool) (doy : ℤ) : ℤ :=
  1 + ([2, 3, 4, 5, 6, 7, 8, 9, 10, 11, 12] : List ℤ).countP fun m => monthStart leap m ≤ doy

theorem monthStart_succ (leap : Bool) (h1 : 1 ≤ m) (h12 : m < 12) :
    monthStart leap (m + 1) = monthStart leap m + monthDays leap m := by
  have hm : m = 1 ∨ m = 2 ∨ m = 3 ∨ m = 4 ∨ m = 5 ∨ m = 6 ∨ m = 7 ∨ m = 8 ∨ m = 9 ∨ m = 10 ∨
      m = 11 := by
    omega
  revert leap
  rcases hm with rfl | rfl | rfl | rfl | rfl | rfl | rfl | rfl | rfl | rfl | rfl <;> decide

theorem monthDays_pos (leap : Bool) (m : ℤ) : 0 < monthDays leap m := by
  unfold monthDays
  split
  · split <;> decide
  · split <;> decide

theorem monthStart_mono (leap : Bool) (h1 : 1 ≤ m) {k : ℕ} (h12 : m + k ≤ 12) :
    monthStart leap m ≤ monthStart leap (m + k) := by
  induction k with
  | zero => exact le_of_eq (congrArg _ (Int.add_zero m).symm)
  | succ k ih =>
    have hsucc := monthStart_succ (m := m + k) leap (by omega) (by omega)
    have hpos := monthDays_pos leap (m + k)
    rw [show m + ((k + 1 : ℕ) : ℤ) = m + k + 1 by omega, hsucc]
    have hle := ih (by omega)
    omega

/-- A day comes in or after a month if and only if the month is not behind that of the day. -/
theorem monthStart_le_iff {leap : Bool} {doy m' : ℤ} (h1 : 1 ≤ m) (h12 : m ≤ 12)
    (hlow : monthStart leap m ≤ doy) (hhigh : doy < monthStart leap m + monthDays leap m)
    (h1' : 1 ≤ m') (h12' : m' ≤ 12) : monthStart leap m' ≤ doy ↔ m' ≤ m := by
  constructor
  · intro h
    by_contra hlt
    obtain ⟨k, hk⟩ := Int.le.dest (show m + 1 ≤ m' by omega)
    have hmono := monthStart_mono (m := m + 1) (k := k) leap (by omega) (by omega)
    rw [hk, monthStart_succ leap h1 (by omega)] at hmono
    omega
  · intro hle
    obtain ⟨k, rfl⟩ := Int.le.dest hle
    exact le_trans (monthStart_mono leap h1' (by omega)) hlow

/-- **The month of a day** of the year. -/
theorem monthOf_eq {leap : Bool} {doy : ℤ} (h1 : 1 ≤ m) (h12 : m ≤ 12)
    (hlow : monthStart leap m ≤ doy) (hhigh : doy < monthStart leap m + monthDays leap m) :
    monthOf leap doy = m := by
  have hcount : ([2, 3, 4, 5, 6, 7, 8, 9, 10, 11, 12] : List ℤ).countP
        (fun m' => monthStart leap m' ≤ doy) =
      ([2, 3, 4, 5, 6, 7, 8, 9, 10, 11, 12] : List ℤ).countP fun m' => m' ≤ m := by
    refine List.countP_congr fun m' hm' => ?_
    rw [decide_eq_true_eq, decide_eq_true_eq]
    have hrange : ∀ m' ∈ ([2, 3, 4, 5, 6, 7, 8, 9, 10, 11, 12] : List ℤ), 1 ≤ m' ∧ m' ≤ 12 := by
      decide
    obtain ⟨h1', h12'⟩ := hrange m' hm'
    exact monthStart_le_iff h1 h12 hlow hhigh h1' h12'
  unfold monthOf
  rw [hcount]
  have hm : m = 1 ∨ m = 2 ∨ m = 3 ∨ m = 4 ∨ m = 5 ∨ m = 6 ∨ m = 7 ∨ m = 8 ∨ m = 9 ∨ m = 10 ∨
      m = 11 ∨ m = 12 := by
    omega
  rcases hm with rfl | rfl | rfl | rfl | rfl | rfl | rfl | rfl | rfl | rfl | rfl | rfl <;> decide

/-- Each day up to the end of a month is in that one or in an earlier one. -/
theorem exists_month {leap : Bool} {doy : ℤ} (h0 : 0 ≤ doy) {k : ℕ} (hk : k < 12)
    (hlt : doy < monthStart leap (k + 1) + monthDays leap (k + 1)) :
    ∃ m, 1 ≤ m ∧ m ≤ 12 ∧ monthStart leap m ≤ doy ∧ doy < monthStart leap m + monthDays leap m := by
  induction k with
  | zero => exact ⟨1, le_refl 1, by decide, h0, hlt⟩
  | succ k ih =>
    by_cases hle : monthStart leap (((k + 1 : ℕ) : ℤ) + 1) ≤ doy
    · exact ⟨_, by omega, by omega, hle, hlt⟩
    · refine ih (by omega) ?_
      rw [← monthStart_succ leap (by omega) (by omega)]
      exact not_le.1 hle

theorem monthOf_spec (leap : Bool) (doy : ℤ) (h0 : 0 ≤ doy) (hlt : doy < yearDays leap) :
    1 ≤ monthOf leap doy ∧ monthOf leap doy ≤ 12 ∧ monthStart leap (monthOf leap doy) ≤ doy ∧
      doy < monthStart leap (monthOf leap doy) + monthDays leap (monthOf leap doy) := by
  have hyear : ∀ leap, monthStart leap ((11 : ℕ) + 1) + monthDays leap ((11 : ℕ) + 1) =
      yearDays leap := by
    decide
  obtain ⟨m, h1, h12, hlow, hhigh⟩ := exists_month (k := 11) h0 (by omega) (hyear leap ▸ hlt)
  rw [monthOf_eq h1 h12 hlow hhigh]
  exact ⟨h1, h12, hlow, hhigh⟩

/-! ## Instants -/

/-- A broken-down time. -/
structure DateTime where
  year : ℤ
  month : ℤ
  day : ℤ
  hour : ℤ
  minute : ℤ
  second : ℤ
  deriving DecidableEq, Repr

/-- There is such a time. -/
structure DateTime.Valid (t : DateTime) : Prop where
  month : 1 ≤ t.month ∧ t.month ≤ 12
  day : 1 ≤ t.day ∧ t.day ≤ monthDays (isLeap t.year) t.month
  hour : 0 ≤ t.hour ∧ t.hour < 24
  minute : 0 ≤ t.minute ∧ t.minute < 60
  second : 0 ≤ t.second ∧ t.second < 60

/-- The day of a date; months beyond a year and days beyond a month are carried over. -/
def days (year month day : ℤ) : ℤ :=
  let y := year + (month - 1) / 12
  yearStart y + monthStart (isLeap y) ((month - 1) % 12 + 1) + (day - 1)

/-- The instant of a broken-down time. -/
def timegm (t : DateTime) : ℤ :=
  86400 * days t.year t.month t.day + 3600 * t.hour + 60 * t.minute + t.second

/-- The broken-down time of an instant. -/
def gmtime (j : ℤ) : DateTime :=
  let n := j / 86400
  let year := yearOf n
  let doy := n - yearStart year
  let month := monthOf (isLeap year) doy
  { year
    month
    day := doy - monthStart (isLeap year) month + 1
    hour := j % 86400 / 3600
    minute := j % 3600 / 60
    second := j % 60 }

theorem days_of_month (h1 : 1 ≤ m) (h12 : m ≤ 12) (y d : ℤ) :
    days y m d = yearStart y + monthStart (isLeap y) m + (d - 1) := by
  unfold days
  rw [show (m - 1) / 12 = 0 by omega, show (m - 1) % 12 + 1 = m by omega, Int.add_zero]

theorem gmtime_spec (j : ℤ) : (gmtime j).Valid ∧
    days (gmtime j).year (gmtime j).month (gmtime j).day = j / 86400 := by
  have hyear := yearOf_spec (j / 86400)
  rw [yearStart_succ] at hyear
  obtain ⟨h1, h12, hlow, hhigh⟩ := monthOf_spec (isLeap (yearOf (j / 86400)))
    (j / 86400 - yearStart (yearOf (j / 86400))) (by omega) (by omega)
  refine ⟨⟨⟨h1, h12⟩, ?_, ?_, ?_, ?_⟩, ?_⟩
  · unfold gmtime
    dsimp only
    omega
  · unfold gmtime
    dsimp only
    omega
  · unfold gmtime
    dsimp only
    omega
  · unfold gmtime
    dsimp only
    omega
  · have hday : (gmtime j).day = j / 86400 - yearStart (gmtime j).year -
        monthStart (isLeap (gmtime j).year) (gmtime j).month + 1 := rfl
    have h1 : 1 ≤ (gmtime j).month := h1
    have h12 : (gmtime j).month ≤ 12 := h12
    rw [days_of_month h1 h12, hday]
    ring

theorem gmtime_valid (j : ℤ) : (gmtime j).Valid := (gmtime_spec j).1

/-- **The broken-down time of an instant denotes it.** -/
theorem timegm_gmtime (j : ℤ) : timegm (gmtime j) = j := by
  have hdays := (gmtime_spec j).2
  have hhour : (gmtime j).hour = j % 86400 / 3600 := rfl
  have hminute : (gmtime j).minute = j % 3600 / 60 := rfl
  have hsecond : (gmtime j).second = j % 60 := rfl
  unfold timegm
  rw [hdays, hhour, hminute, hsecond]
  omega

end Calendar
