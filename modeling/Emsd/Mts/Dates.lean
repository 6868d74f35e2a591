import Emsd.Mts.DateFields

/-!
# Dates of messages

`DateText` is a date and time as RFC-822 writes it, with the instant that it denotes.

* `parse_iff`: **`parseRfc822Date` gives the instant** if and only if the seconds are written, the zone
  has whole hours and is one it knows, the day does not change on the way to Universal Time, and the
  instant can be held in 32 bits.
-/

namespace Mts

open Text Calendar Ocp

/-! ## Legal dates -/

/-- The minutes by which the local time is ahead of Universal Time. -/
def Zone.minutesAhead : Zone → ℤ
  | .offset minus hours minutes =>
    (if minus then -1 else 1) * (60 * (hours.val : ℤ) + (minutes.val : ℤ))
  | .named zone .. => 60 * zone.2

/-- A year of two digits, or of four. -/
inductive Year
  | short (year : Fin 100)
  | full (year : ℕ) (low : 1000 ≤ year) (high : year < 10000)

/-- The year that is meant. -/
def Year.value : Year → ℤ
  | .short year => if year.val < 50 then 2000 + (year.val : ℤ) else 1900 + (year.val : ℤ)
  | .full year .. => year

def Year.text : Year → List Char
  | .short year => padded 2 year.val
  | .full year .. => decimal year

/-- **A date and time of RFC-822.** -/
structure DateText where
  lead : List Char
  lead_blank : Blank lead
  weekDay : Option WeekDay
  /-- The day is written with two digits. -/
  dayPadded : Bool
  day : ℕ
  gap₁ : Gap
  month : Fin xmonths.length
  monthWord : List Char
  month_spells : Spells (xmonths.get month) monthWord
  gap₂ : Gap
  year : Year
  day_legal : 1 ≤ day ∧ (day : ℤ) ≤ monthDays (isLeap year.value) (month.val + 1)
  gap₃ : Gap
  hour : Fin 24
  minute : Fin 60
  second : Option (Fin 60)
  gap₄ : Gap
  zone : Zone
  trailer : Trailer

namespace DateText

def dayText (d : DateText) : List Char := if d.dayPadded then padded 2 d.day else decimal d.day

def timeText (d : DateText) : List Char :=
  padded 2 d.hour.val ++ ':' :: (padded 2 d.minute.val ++
    d.second.elim [] fun second => ':' :: padded 2 second.val)

def text (d : DateText) : List Char :=
  d.lead ++ (d.weekDay.elim [] WeekDay.text ++ (d.dayText ++ (d.gap₁.text ++
    (d.monthWord ++ (d.gap₂.text ++ (d.year.text ++ (d.gap₃.text ++ (d.timeText ++ (d.gap₄.text ++
      (d.zone.text ++ d.trailer.text))))))))))

/-- The local time. -/
def localTime (d : DateText) : DateTime where
  year := d.year.value
  month := d.month.val + 1
  day := d.day
  hour := d.hour.val
  minute := d.minute.val
  second := d.second.elim 0 fun second => second.val

/-- The instant that is denoted. -/
def moment (d : DateText) : ℤ := timegm d.localTime - 60 * d.zone.minutesAhead

end DateText

variable {t : DateTime}

/-! ## What is read -/

/-- The number that is written for a year. -/
def Year.number : Year → ℕ
  | .short year => year.val
  | .full year .. => year

theorem Year.numeric (y : Year) : Numeric y.text y.number := by
  cases y with
  | short year => exact padded_numeric 2 year.val
  | full year low high => exact decimal_numeric year

theorem Year.number_lt (y : Year) : y.number < 10000 := by
  cases y with
  | short year => exact Nat.lt_of_lt_of_le year.isLt (by decide)
  | full year low high => exact high

theorem Year.fullYear_number (y : Year) : fullYear y.number = y.value := by
  unfold fullYear
  cases y with
  | short year =>
    have hlt := year.isLt
    unfold Year.number Year.value
    dsimp only
    rw [sint16_of_mem (by omega) (by omega), sint16_of_mem (by omega) (by omega)]
    split
    · rw [if_pos (by omega)]
      ring
    · rw [if_pos (by omega), if_neg (by omega)]
      ring
  | full year low high =>
    unfold Year.number Year.value
    dsimp only
    rw [if_neg (by omega), if_neg (by omega)]

namespace DateText

/-- The fields that the code finds. -/
def read (d : DateText) : DateTime :=
  { d.localTime with second := d.second.elim (-1) fun second => second.val }

theorem dayText_numeric (d : DateText) : Numeric d.dayText d.day := by
  unfold dayText
  split
  · exact padded_numeric 2 d.day
  · exact decimal_numeric d.day

theorem day_le (d : DateText) : d.day ≤ 31 := by
  have := monthDays_le (isLeap d.year.value) (d.month.val + 1)
  have := d.day_legal.2
  omega

end DateText

/-- **The fields of a legal date are found.** -/
theorem DateText.readFields_text (d : DateText) : readFields d.text = (d.read, d.zone.read) := by
  have hday := d.dayText_numeric
  have hskip : skipWeekDay (d.text.dropWhile isSpace) = d.dayText ++ (d.gap₁.text ++ (d.monthWord ++
      (d.gap₂.text ++ (d.year.text ++ (d.gap₃.text ++ (padded 2 d.hour.val ++ ':' ::
        (padded 2 d.minute.val ++ (d.second.elim [] (fun second => ':' :: padded 2 second.val) ++
          (d.gap₄.text ++ (d.zone.text ++ d.trailer.text)))))))))) := by
    unfold DateText.text DateText.timeText
    rw [List.append_assoc, List.cons_append, List.append_assoc]
    cases d.weekDay with
    | none =>
      rw [Option.elim_none, List.nil_append,
        dropWhile_blank d.lead_blank fun c hc => isSpace_of_isDigit (hday.head c hc)]
      exact skipWeekDay_digit hday.head
    | some w =>
      have hw := lettered_days w.name w.known
      have hdays : ∀ other ∈ xdays, other.toList ≠ [] := by decide
      rw [Option.elim_some, dropWhile_blank d.lead_blank]
      · exact skipWeekDay_text w hday.head
      · intro c hc
        unfold WeekDay.text at hc
        rw [List.append_assoc] at hc
        exact not_isSpace_of_letter (w.spells.head hw (hdays _ w.known) c hc)
  have hfields := readFields_append d.dayText_numeric d.day_le d.month_spells d.year.numeric
    d.year.number_lt hskip
  rw [hfields, d.year.fullYear_number]
  rfl

/-! ## Results -/

/-- The zone has whole hours, and the code knows it. -/
def Zone.Whole : Zone → Prop
  | .offset _ _ minutes => minutes.val = 0
  | .named zone .. => zone ∈ knownZones ∨ zone.2 = 0

/-- **The dates that are read.** -/
structure DateText.Readable (timezone : ℤ) (d : DateText) : Prop where
  year : 1970 ≤ d.year.value
  second : d.second ≠ none
  zone : d.zone.Whole
  sameDay : d.moment / 86400 = timegm d.localTime / 86400
  moment : d.moment < 2 ^ 32
  mktime : (d.moment + timezone) % 2 ^ 32 ≠ 2 ^ 32 - 1

/-- What is not applied of a zone. -/
theorem Zone.read_whole (z : Zone) :
    -24 < z.read.1 ∧ z.read.1 < 24 ∧ |z.minutesAhead| < 1440 ∧
      (z.Whole ↔ z.minutesAhead = 60 * z.read.1) ∧
      (0 ≤ z.read.1 ∨ z.read.1 * 60 - 60 < z.minutesAhead ∧ z.minutesAhead ≤ z.read.1 * 60) := by
  have hhours : ∀ zone ∈ zoneNames, -24 < zone.2 ∧ zone.2 < 24 := by decide +kernel
  cases z with
  | offset minus hours minutes =>
    have := hours.isLt
    have := minutes.isLt
    unfold Zone.read Zone.minutesAhead Zone.Whole
    dsimp only
    rw [abs_lt]
    cases minus
    · simp only [Bool.false_eq_true, if_false]
      omega
    · simp only [if_true]
      omega
  | named zone known word spells =>
    obtain ⟨hlow, hhigh⟩ := hhours zone known
    unfold Zone.read Zone.minutesAhead Zone.Whole
    dsimp only
    rw [abs_lt]
    by_cases hzone : zone ∈ knownZones
    · rw [if_pos hzone]
      dsimp only
      exact ⟨hlow, hhigh, by omega, iff_of_true (Or.inl hzone) rfl, by omega⟩
    · rw [if_neg hzone]
      dsimp only
      refine ⟨by decide, by decide, by omega, ?_, Or.inl le_rfl⟩
      rw [or_iff_right hzone]
      omega

theorem DateText.year_mem (d : DateText) : 0 ≤ d.year.value ∧ d.year.value < 10000 := by
  cases d.year with
  | short year =>
    have := year.isLt
    unfold Year.value
    dsimp only
    split <;> omega
  | full year low high =>
    unfold Year.value
    dsimp only
    omega

theorem DateText.timegm_read (d : DateText) :
    timegm d.read = timegm d.localTime - (if d.second = none then 1 else 0) := by
  unfold DateText.read timegm
  dsimp only
  have hsecond : d.localTime.second = d.second.elim 0 fun second => (second.val : ℤ) := rfl
  rw [hsecond]
  cases d.second with
  | none =>
    rw [if_pos rfl]
    simp only [Option.elim_none]
    ring
  | some second =>
    rw [if_neg (by simp)]
    simp only [Option.elim_some]
    ring


/-- A legal date is read within its bounds. -/
theorem DateText.read_legal (d : DateText) :
    (1 ≤ d.read.month ∧ d.read.month ≤ 12) ∧
      (1 ≤ d.read.day ∧ d.read.day ≤ monthDays (isLeap d.read.year) d.read.month) ∧
      (0 ≤ d.read.hour ∧ d.read.hour < 24) ∧ (0 ≤ d.read.minute ∧ d.read.minute < 60) ∧
      d.read.second < 60 := by
  have hmonth : d.month.val < 12 := d.month.isLt
  have hhour := d.hour.isLt
  have hminute := d.minute.isLt
  have hday := d.day_legal
  unfold DateText.read DateText.localTime
  dsimp only
  refine ⟨by omega, ⟨by omega, hday.2⟩, by omega, by omega, ?_⟩
  cases d.second with
  | none => decide
  | some second =>
    have := second.isLt
    rw [Option.elim_some]
    omega

theorem DateText.second_nonneg {d : DateText} (hsecond : d.second ≠ none) : 0 ≤ d.read.second := by
  unfold DateText.read
  dsimp only
  cases hs : d.second with
  | none => exact absurd hs hsecond
  | some second =>
    rw [Option.elim_some]
    omega

/-- A time of a year after 1969 is not before 1970. -/
theorem timegm_nonneg (hyear : 1970 ≤ t.year) (h1 : 1 ≤ t.month) (h12 : t.month ≤ 12)
    (hday : 1 ≤ t.day) (hhour : 0 ≤ t.hour) (hminute : 0 ≤ t.minute) (hsecond : 0 ≤ t.second) :
    0 ≤ timegm t := by
  have hstart : 0 ≤ yearStart t.year := by
    unfold yearStart
    omega
  have hmonth : 0 ≤ monthStart (isLeap t.year) t.month := by
    unfold monthStart
    split <;> omega
  unfold timegm
  rw [days_of_month h1 h12]
  omega

/-- Where the day does not change, the hours of the zone are applied, and nothing else. -/
theorem DateText.timegm_inDay (d : DateText) :
    timegm { d.read with hour := d.read.hour - d.zone.read.1 } =
      d.moment + 60 * (d.zone.minutesAhead - 60 * d.zone.read.1) -
        (if d.second = none then 1 else 0) := by
  have hread := d.timegm_read
  unfold DateText.moment
  unfold timegm at hread ⊢
  dsimp only
  omega

/-- The day does not change if and only if the hours stay within it. -/
theorem DateText.sameDay_iff (d : DateText) (hwhole : d.zone.minutesAhead = 60 * d.zone.read.1)
    (hsecond : d.second ≠ none) : d.moment / 86400 = timegm d.localTime / 86400 ↔
      0 ≤ d.read.hour - d.zone.read.1 ∧ d.read.hour - d.zone.read.1 < 24 := by
  obtain ⟨-, -, hhour, hminute, hsec⟩ := d.read_legal
  have h0 := DateText.second_nonneg hsecond
  have hread := d.timegm_read
  rw [if_neg hsecond] at hread
  unfold DateText.moment
  rw [hwhole, ← Int.sub_zero (timegm d.localTime), ← hread]
  unfold timegm
  omega

/-- Nothing near it is congruent to an instant. -/
theorem near_of_mod {m y : ℤ} (hy : -2 ^ 31 < y ∧ y < 2 ^ 31) (h : m = (m + y) % 2 ^ 32) : y = 0 := by
  omega

/-- **`parseRfc822Date` gives the instant of a legal date** if and only if the date is readable. -/
theorem parse_iff (timezone : ℤ) (d : DateText) :
    (∃ j, parseRfc822Date timezone d.text = some j ∧ (j.toNat : ℤ) = d.moment) ↔
      d.Readable timezone := by
  obtain ⟨hmonth, hday, hhour, hminute, hsec⟩ := d.read_legal
  obtain ⟨hlow, hhigh, habs, hwhole, hzone⟩ := d.zone.read_whole
  rw [abs_lt] at habs
  have hread := d.timegm_read
  have hinDay := d.timegm_inDay
  have hmoment : d.moment = timegm d.localTime - 60 * d.zone.minutesAhead := rfl
  have hoff : -2 ^ 31 < 60 * (d.zone.minutesAhead - 60 * d.zone.read.1) ∧
      60 * (d.zone.minutesAhead - 60 * d.zone.read.1) < 2 ^ 31 := by omega
  constructor
  · rintro ⟨j, hj, hjm⟩
    have hlt : j.toNat < 2 ^ 32 := j.toNat_lt
    obtain ⟨hrange, herror, heq⟩ := (parse_eq_some d.readFields_text).1 hj
    rcases lt_or_ge (d.read.hour - d.zone.read.1) 0 with hback | h0
    · -- the hour is refused
      have := applyZone_back (m := d.zone.read.2) hhour.1 hhour.2 hback
      omega
    · rcases lt_or_ge (d.read.hour - d.zone.read.1) 24 with h24 | hforward
      · -- seconds or minutes that are missing would be found in the remainder
        rw [applyZone_inDay h0 h24] at hrange herror heq
        rw [hinDay] at herror heq
        have hsecond : d.second ≠ none := by
          intro hnone
          rw [if_pos hnone] at heq
          omega
        rw [if_neg hsecond] at herror heq
        have hminutes : d.zone.minutesAhead = 60 * d.zone.read.1 := by
          rw [Int.sub_zero, hjm] at heq
          have hnear := near_of_mod hoff heq
          exact Int.sub_eq_zero.1 ((Int.mul_eq_zero.1 hnear).resolve_left (by decide))
        have hyear : d.read.year = d.year.value := rfl
        refine ⟨?_, hsecond, hwhole.2 hminutes, (d.sameDay_iff hminutes hsecond).2 ⟨h0, h24⟩, ?_, ?_⟩
        · dsimp only at hrange
          omega
        · omega
        · intro h
          apply herror
          rw [hminutes]
          omega
      · have hyear := d.year_mem
        have hcarry := applyZone_forward (m := d.zone.read.2) ⟨hhour.2, hhour.1⟩ hmonth.1 hmonth.2 hday
          (show -2 ^ 15 ≤ d.year.value ∧ d.year.value < 2 ^ 15 - 1 by omega) hforward
        split at hread <;> omega
  · intro h
    have hminutes := hwhole.1 h.zone
    obtain ⟨h0, h24⟩ := (d.sameDay_iff hminutes h.second).1 h.sameDay
    rw [hminutes, if_neg h.second] at hinDay
    have hyear := h.year
    have h0sec := DateText.second_nonneg h.second
    have hnonneg := timegm_nonneg (t := { d.read with hour := d.read.hour - d.zone.read.1 }) hyear
      hmonth.1 hmonth.2 hday.1 h0 hminute.1 h0sec
    have hlt := h.moment
    have hmktime := h.mktime
    refine ⟨UInt32.ofNat d.moment.toNat, (parse_eq_some d.readFields_text).2 ?_, ?_⟩
    · rw [applyZone_inDay h0 h24, hinDay, UInt32.toNat_ofNat']
      have hdays := monthDays_le (isLeap d.read.year) d.read.month
      have hyear' : d.read.year = d.year.value := rfl
      refine ⟨?_, ?_, ?_⟩
      · dsimp only
        omega
      · intro heq
        apply hmktime
        omega
      · omega
    · rw [UInt32.toNat_ofNat']
      omega

/-- There are dates of the tenth of January. -/
theorem exists_tenth (hour : Fin 24) (zone : Zone) : ∃ d : DateText,
    d.text = "10 Jan 1998 ".toList ++ (padded 2 hour.val ++ (":34:56 ".toList ++ zone.text)) ∧
      d.moment = 884390400 + 3600 * (hour.val : ℤ) + 2096 - 60 * zone.minutesAhead := by
  refine ⟨{
    lead := []
    lead_blank := by decide
    weekDay := none
    dayPadded := true
    day := 10
    gap₁ := ⟨[' '], by decide, by decide⟩
    month := ⟨0, by decide⟩
    monthWord := ['J', 'a', 'n']
    month_spells := by decide
    gap₂ := ⟨[' '], by decide, by decide⟩
    year := .full 1998 (by decide) (by decide)
    day_legal := by decide
    gap₃ := ⟨[' '], by decide, by decide⟩
    hour := hour
    minute := 34
    second := some 56
    gap₄ := ⟨[' '], by decide, by decide⟩
    zone := zone
    trailer := ⟨[], by simp⟩ }, ?_, ?_⟩
  · have hday : padded 2 10 = ['1', '0'] := by decide
    have hyear : decimal 1998 = ['1', '9', '9', '8'] := by decide +kernel
    have htime : padded 2 34 = ['3', '4'] ∧ padded 2 56 = ['5', '6'] := by decide +kernel
    simp [DateText.text, DateText.dayText, DateText.timeText, Year.text, hday, hyear, htime.1, htime.2]
  · have hdays : days 1998 1 10 = 10236 := by decide
    simp [DateText.moment, DateText.localTime, timegm, Year.value, hdays]
    ring

/-- In the evening in New York, the date is taken for one in Universal Time; and at night in Moscow, it
is refused. -/
theorem parse_crosses :
    (∃ d : DateText, d.text = "10 Jan 1998 23:34:56 EST".toList ∧ d.moment = 884493296 ∧
      parseRfc822Date 0 d.text = some 884475296) ∧
    ∃ d : DateText, d.text = "10 Jan 1998 03:34:56 +0400".toList ∧ d.moment = 884388896 ∧
      parseRfc822Date 0 d.text = none := by
  constructor
  · obtain ⟨d, htext, hmoment⟩ :=
      exists_tenth 23 (.named ("EST", -5) (by decide +kernel) ['E', 'S', 'T'] (by decide))
    refine ⟨d, ?_, ?_, ?_⟩
    · rw [htext]
      decide +kernel
    · rw [hmoment]
      decide +kernel
    · rw [htext]
      decide +kernel
  · obtain ⟨d, htext, hmoment⟩ := exists_tenth 3 (.offset false 4 0)
    refine ⟨d, ?_, ?_, ?_⟩
    · rw [htext]
      decide +kernel
    · rw [hmoment]
      decide +kernel
    · rw [htext]
      decide +kernel

end Mts