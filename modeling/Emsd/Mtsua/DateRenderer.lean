import Emsd.Mts.Dates

/-!
# The dates of delivered messages (`emsd2rfc.c`)

`mtsua_getRfc822Date` writes the year without its century.

* `rendered_iff`: **what it writes is a legal date and is read again** if and only if it is before 2000,
  and not the one second that `mktime` takes for a failure.
-/

namespace Mtsua

open Text Calendar Ocp Mts

def months : List String :=
  ["", "Jan", "Feb", "Mar", "Apr", "May", "Jun", "Jul", "Aug", "Sep", "Oct", "Nov", "Dec"]

/-- `mtsua_getRfc822Date`. -/
def getRfc822Date (julianDate : UInt32) : List Char :=
  let dateStruct := julianToDateStruct julianDate
  padded 2 dateStruct.day.toNat ++ ' ' :: ((months.getD dateStruct.month.toNat "").toList ++
    ' ' :: (padded 2 (dateStruct.year - 1900).toNat ++ ' ' :: (padded 2 dateStruct.hour.toNat ++
      ':' :: (padded 2 dateStruct.minute.toNat ++ ':' :: (padded 2 dateStruct.second.toNat ++
        " GMT".toList)))))

variable {j : UInt32} {timezone : ℤ}

/-! ## What is written -/

/-- The fields of a rendered date, in the types of its text. -/
theorem rendered_fields (j : UInt32) : ∃ (month : Fin xmonths.length) (hour : Fin 24)
    (minute second : Fin 60) (day year : ℕ),
      julianToDateStruct j =
        ⟨year + 1900, month.val + 1, day, hour.val, minute.val, second.val⟩ ∧
      1 ≤ day ∧ (day : ℤ) ≤ monthDays (isLeap (year + 1900)) (month.val + 1) ∧
      1 ≤ year ∧ year ≤ 138 := by
  have hvalid : (julianToDateStruct j).Valid := gmtime_valid (timeT j)
  have hyear := julianToDateStruct_year j
  generalize julianToDateStruct j = t at hvalid hyear
  obtain ⟨year, month, day, hour, minute, second⟩ := t
  obtain ⟨hmonth, hday, hhour, hminute, hsecond⟩ := hvalid
  dsimp only at *
  lift year - 1900 to ℕ using by omega with y hy
  obtain rfl : year = y + 1900 := by omega
  refine ⟨⟨(month - 1).toNat, show _ < 12 by omega⟩, ⟨hour.toNat, by omega⟩, ⟨minute.toNat, by omega⟩,
    ⟨second.toNat, by omega⟩, day.toNat, y, ?_, by omega, ?_, by omega, by omega⟩
  · dsimp only
    rw [Int.toNat_of_nonneg (show 0 ≤ month - 1 by omega), Int.toNat_of_nonneg (show 0 ≤ hour by omega),
      Int.toNat_of_nonneg (show 0 ≤ minute by omega), Int.toNat_of_nonneg (show 0 ≤ second by omega),
      Int.toNat_of_nonneg (show 0 ≤ day by omega), Int.sub_add_cancel]
  · dsimp only
    rw [Int.toNat_of_nonneg (show 0 ≤ month - 1 by omega), Int.toNat_of_nonneg (show 0 ≤ day by omega),
      Int.sub_add_cancel]
    exact hday.2

theorem months_succ : ∀ month : Fin xmonths.length,
    months.getD (month.val + 1) "" = xmonths.get month := by
  decide

/-- A rendered date is one of the texts whose fields are found. -/
theorem rendered_text {month : Fin xmonths.length} {hour : Fin 24} {minute second : Fin 60}
    {day year : ℕ}
    (hj : julianToDateStruct j = ⟨year + 1900, month.val + 1, day, hour.val, minute.val, second.val⟩)
    (gap : Gap) (hgap : gap.text = [' ']) (zone : Zone) (hzone : zone.text = "GMT".toList) :
    getRfc822Date j = padded 2 day ++ (gap.text ++ ((xmonths.get month).toList ++ (gap.text ++
      (padded 2 year ++ (gap.text ++ (padded 2 hour.val ++ ':' :: (padded 2 minute.val ++
        ((some second).elim [] (fun second => ':' :: padded 2 second.val) ++
          (gap.text ++ (zone.text ++ [])))))))))) := by
  have hyear : ((year : ℤ) + 1900 - 1900).toNat = year := by omega
  have hmonth : ((month.val : ℤ) + 1).toNat = month.val + 1 := by omega
  unfold getRfc822Date
  rw [hj]
  dsimp only
  rw [hyear, hmonth, months_succ, hgap, hzone, Option.elim_some]
  simp

/-- **What is read of a rendered date**: all of it, but the year of two digits or three. -/
theorem rendered_read (j : UInt32) : readFields (getRfc822Date j) =
    ({ julianToDateStruct j with year := fullYear ((julianToDateStruct j).year - 1900) }, (0, 0)) := by
  obtain ⟨month, hour, minute, second, day, year, hj, hday, hlast, hyear, hyear'⟩ := rendered_fields j
  have hle := monthDays_le (isLeap (year + 1900)) (month.val + 1)
  have htext := rendered_text hj ⟨[' '], by decide, by decide⟩ rfl
    (.named ("GMT", 0) (by decide +kernel) ['G', 'M', 'T'] (by decide)) rfl
  have hnum := padded_numeric 2 day
  have hskip : skipWeekDay ((getRfc822Date j).dropWhile isSpace) = getRfc822Date j := by
    rw [htext, ← List.nil_append (padded 2 day ++ _), dropWhile_blank (by simp [Blank])]
    · exact skipWeekDay_digit hnum.head
    · exact fun c hc => isSpace_of_isDigit (hnum.head c hc)
  rw [readFields_append hnum (by omega) (w := (xmonths.get month).toList) rfl (padded_numeric 2 year)
    (by omega) (v := ⟨[], by simp⟩) (hskip.trans htext), hj]
  dsimp only
  rw [Int.add_sub_cancel]
  rfl

/-! ## What is read again -/

/-- The years of two digits from 50 on are those that are meant. -/
theorem year_lt_iff (j : UInt32) :
    (1970 ≤ (julianToDateStruct j).year ↔ j.toNat < 2 ^ 31) ∧
      ((julianToDateStruct j).year < 2000 ↔ j.toNat < 946684800 ∨ 2 ^ 31 ≤ j.toNat) := by
  have hlt := j.toNat_lt
  have hyear : (julianToDateStruct j).year = yearOf (timeT j / 86400) := rfl
  have h1970 : yearStart 1970 = 0 := by decide
  have h2000 : yearStart 2000 = 10957 := by decide
  have htime : (j.toNat < 2 ^ 31 ∧ timeT j = j.toNat) ∨
      (2 ^ 31 ≤ j.toNat ∧ timeT j = j.toNat - 2 ^ 32) := by
    unfold timeT
    split <;> omega
  rw [hyear, ← not_lt, yearOf_lt_iff, yearOf_lt_iff, h1970, h2000]
  rcases htime with ⟨hearly, heq⟩ | ⟨hlate, heq⟩
  · omega
  · omega

/-- A hundred years later. -/
theorem days_century {y m d : ℤ} (hlow : 1901 ≤ y) (hhigh : y < 1950) (h1 : 1 ≤ m) (h12 : m ≤ 12) :
    days (y + 100) m d = days y m d + 36525 := by
  have hstart : yearStart (y + 100) = yearStart y + 36525 := by
    unfold yearStart
    omega
  have hleap : isLeap (y + 100) = isLeap y := by
    unfold isLeap
    rw [decide_eq_decide]
    omega
  rw [days_of_month h1 h12, days_of_month h1 h12, hstart, hleap]
  ring

theorem timegm_century {t : DateTime} (hlow : 1901 ≤ t.year) (hhigh : t.year < 1950)
    (h1 : 1 ≤ t.month) (h12 : t.month ≤ 12) :
    timegm { t with year := t.year + 100 } = timegm t + 3155760000 := by
  unfold timegm
  dsimp only
  rw [days_century hlow hhigh h1 h12]
  ring

/-- A rendered date before 2000 is legal. -/
theorem rendered_legal (h50 : 1950 ≤ (julianToDateStruct j).year)
    (h100 : (julianToDateStruct j).year < 2000) : ∃ d : DateText, d.text = getRfc822Date j := by
  obtain ⟨month, hour, minute, second, day, year, hj, hday, hlast, -, -⟩ := rendered_fields j
  rw [hj] at h50 h100
  dsimp only at h50 h100
  have hvalue : (Year.short ⟨year, by omega⟩).value = (year : ℤ) + 1900 := by
    unfold Year.value
    dsimp only
    rw [if_neg (by omega)]
    ring
  refine ⟨{
    lead := []
    lead_blank := by decide
    weekDay := none
    dayPadded := true
    day := day
    gap₁ := ⟨[' '], by decide, by decide⟩
    month := month
    monthWord := (xmonths.get month).toList
    month_spells := rfl
    gap₂ := ⟨[' '], by decide, by decide⟩
    year := .short ⟨year, by omega⟩
    day_legal := by
      rw [hvalue]
      exact ⟨hday, hlast⟩
    gap₃ := ⟨[' '], by decide, by decide⟩
    hour := hour
    minute := minute
    second := some second
    gap₄ := ⟨[' '], by decide, by decide⟩
    zone := .named ("GMT", 0) (by decide +kernel) ['G', 'M', 'T'] (by decide)
    trailer := ⟨[], by simp⟩ }, ?_⟩
  rw [rendered_text hj ⟨[' '], by decide, by decide⟩ rfl
    (.named ("GMT", 0) (by decide +kernel) ['G', 'M', 'T'] (by decide)) rfl]
  unfold DateText.text DateText.timeText DateText.dayText Year.text
  dsimp only
  rw [if_pos rfl]
  simp only [Option.elim_none, List.nil_append, List.append_assoc, List.cons_append]

/-- What the year of two digits or three is taken for. -/
theorem fullYear_cases {y : ℤ} (hlow : 1901 ≤ y) (hhigh : y ≤ 2038) :
    (y < 1950 ∧ fullYear (y - 1900) = y + 100) ∨ (1950 ≤ y ∧ y < 2000 ∧ fullYear (y - 1900) = y) ∨
      (2000 ≤ y ∧ fullYear (y - 1900) = y - 1900) := by
  unfold fullYear
  rw [sint16_of_mem (by omega) (by omega), sint16_of_mem (by omega) (by omega)]
  split
  · omega
  · split <;> omega

/-- **A rendered date is legal and is read again** if and only if it is before 2000, and is no failure to
`mktime`. -/
theorem rendered_iff (timezone : ℤ) (j : UInt32) :
    ((∃ d : DateText, d.text = getRfc822Date j) ∧ parseRfc822Date timezone (getRfc822Date j) = some j) ↔
      j.toNat < 946684800 ∧ ((j.toNat : ℤ) + timezone) % 2 ^ 32 ≠ 2 ^ 32 - 1 := by
  obtain ⟨h1970, h2000⟩ := year_lt_iff j
  have hlt : j.toNat < 2 ^ 32 := j.toNat_lt
  have hvalid : (julianToDateStruct j).Valid := gmtime_valid (timeT j)
  have htime : timegm (julianToDateStruct j) = timeT j := timegm_gmtime (timeT j)
  have htimeT : timeT j = if j.toNat < 2 ^ 31 then (j.toNat : ℤ) else j.toNat - 2 ^ 32 := rfl
  obtain ⟨hlow, hhigh⟩ := julianToDateStruct_year j
  have hparse : parseRfc822Date timezone (getRfc822Date j) = some j ↔ _ :=
    parse_eq_some (rendered_read j)
  have hlegal := rendered_legal (j := j)
  dsimp only at hparse
  rw [hparse]
  generalize julianToDateStruct j = u at *
  have hzone : applyZone { u with year := fullYear (u.year - 1900) } 0 0 =
      { u with year := fullYear (u.year - 1900) } := if_pos ⟨rfl, rfl⟩
  rw [hzone]
  dsimp only
  obtain ⟨hmonth, hday, hhour, hminute, hsecond⟩ := hvalid
  have hlast := monthDays_le (isLeap u.year) u.month
  constructor
  · rintro ⟨-, hrange, herror, heq⟩
    rcases fullYear_cases hlow hhigh with ⟨hearly, hyear⟩ | ⟨h50, h100, hyear⟩ | ⟨hlate, hyear⟩
    · -- a hundred years too late
      rw [hyear, timegm_century hlow hearly hmonth.1 hmonth.2, htime, htimeT, if_neg (by omega)] at heq
      clear h1970 h2000 hlegal
      omega
    · rw [hyear] at hrange herror
      have h70 : j.toNat < 2 ^ 31 := h1970.1 (not_lt.1 fun h => hrange (Or.inl h))
      have hj : j.toNat < 946684800 := (h2000.1 h100).resolve_right (not_le.2 h70)
      have hu : timegm { u with year := u.year } = timeT j := htime
      rw [if_pos (by omega)] at htimeT
      rw [hu, htimeT] at herror
      exact ⟨hj, herror⟩
    · -- a year of the Roman empire is refused
      omega
  · rintro ⟨hj, herror⟩
    have h100 : u.year < 2000 := h2000.2 (Or.inl hj)
    have h70 : 1970 ≤ u.year := h1970.2 (by omega)
    refine ⟨hlegal (by omega) h100, ?_⟩
    rcases fullYear_cases hlow hhigh with ⟨hearly, hyear⟩ | ⟨h50, -, hyear⟩ | ⟨hlate, hyear⟩
    · omega
    · have hu : timegm { u with year := u.year } = timeT j := htime
      rw [if_pos (by omega)] at htimeT
      rw [hyear, hu, htimeT]
      exact ⟨by omega, herror, by omega⟩
    · omega

/-- The first second of 2000. -/
theorem rendered_century : getRfc822Date 946684800 = "01 Jan 100 00:00:00 GMT".toList ∧
    parseRfc822Date 0 (getRfc822Date 946684800) = none := by
  decide +kernel

end Mtsua
