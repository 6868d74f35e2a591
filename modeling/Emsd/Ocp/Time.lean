import Emsd.Lib.Calendar

/-!
# Dates (`os_linux.c`)

`OS_ZuluDateTime` and its conversions. A `time_t` is a signed number of 32 bits.
-/

namespace Ocp

open Calendar

/-- An `OS_Sint8`. -/
def sint8 (x : ℤ) : ℤ := (x + 2 ^ 7) % 2 ^ 8 - 2 ^ 7

/-- An `OS_Sint16`. -/
def sint16 (x : ℤ) : ℤ := (x + 2 ^ 15) % 2 ^ 16 - 2 ^ 15

/-- The `time_t` of a julian date. -/
def timeT (julianDate : UInt32) : ℤ :=
  if julianDate.toNat < 2 ^ 31 then julianDate.toNat else julianDate.toNat - 2 ^ 32

/-- `OS_julianToDateStruct`; `gmtime` has a result for every `time_t`. -/
def julianToDateStruct (julianDate : UInt32) : DateTime := gmtime (timeT julianDate)

/-- `OS_dateStructToJulian`; `mktime` takes the structure for a local time, `timezone` seconds behind
Universal Time. -/
def dateStructToJulian (timezone : ℤ) (dateTime : DateTime) : Option UInt32 :=
  if dateTime.year < 1970 ∨ dateTime.month > 12 ∨ dateTime.day > 31 ∨ dateTime.hour > 23 ∨
      dateTime.minute > 59 ∨ dateTime.second > 59 then none
  else
    let julianDate := (timegm dateTime + timezone) % 2 ^ 32
    if julianDate = 2 ^ 32 - 1 then none else some (.ofNat julianDate.toNat)

variable {x : ℤ}

theorem sint8_of_mem (h₁ : -2 ^ 7 ≤ x) (h₂ : x < 2 ^ 7) : sint8 x = x := by
  unfold sint8
  omega

theorem sint16_of_mem (h₁ : -2 ^ 15 ≤ x) (h₂ : x < 2 ^ 15) : sint16 x = x := by
  unfold sint16
  omega

/-- The years of 32 bits. -/
theorem julianToDateStruct_year (julianDate : UInt32) :
    1901 ≤ (julianToDateStruct julianDate).year ∧ (julianToDateStruct julianDate).year ≤ 2038 := by
  have hlt := julianDate.toNat_lt
  have hspec := yearOf_spec (timeT julianDate / 86400)
  have hyear : (julianToDateStruct julianDate).year = yearOf (timeT julianDate / 86400) := rfl
  rw [hyear]
  generalize yearOf (timeT julianDate / 86400) = y at hspec
  unfold timeT yearStart at hspec
  split at hspec <;> omega

end Ocp
