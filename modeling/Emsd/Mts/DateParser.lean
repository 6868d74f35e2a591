import Emsd.Lib.Text
import Emsd.Ocp.Time

/-!
# Reading the date of a message (`rfc2emsd.c`)

`parseRfc822Date`, step by step: each step reads a field and moves on in the text. A text has no null
character; a field that is not found stays -1.
-/

namespace Mts

open Text Calendar Ocp

def xdays : List String := ["Sun", "Mon", "Tue", "Wed", "Thu", "Fri", "Sat"]

def xmonths : List String :=
  ["Jan", "Feb", "Mar", "Apr", "May", "Jun", "Jul", "Aug", "Sep", "Oct", "Nov", "Dec"]

/-- `known_zones`: a name and its offset in hours; no known zone has minutes. -/
def knownZones : List (String × ℤ) :=
  [("PST", -8), ("PDT", -7), ("MST", -7), ("MDT", -6), ("CST", -6), ("CDT", -5), ("EST", -5),
    ("EDT", -4), ("JST", 9), ("GMT", 0), ("UT", 0)]

/-- `OS_strncasecmp` with the length of the name gives zero. -/
def beginsWith (p : List Char) (name : String) : Bool :=
  (p.take name.toList.length).map Char.toLower = name.toList.map Char.toLower

/-- Is there a digit here? -/
def atDigit (p : List Char) : Bool := p.head?.any Char.isDigit

def isSeparator (c : Char) : Bool := isSpace c ∨ c = ',' ∨ c = '-'

/-! ## The fields -/

/-- A week day is skipped. -/
def skipWeekDay (p : List Char) : List Char :=
  if xdays.any (beginsWith p) then
    (p.dropWhile fun c => !isSpace c && c != ',').dropWhile fun c => isSpace c || c == ','
  else p

/-- A number, and the separators after it, are skipped. -/
def skipNumber (p : List Char) : List Char :=
  (p.dropWhile Char.isDigit).dropWhile isSeparator

/-- A word, and the separators after it, are skipped. -/
def skipWord (p : List Char) : List Char :=
  (p.dropWhile fun c => !isSeparator c).dropWhile isSeparator

/-- The day, if it has not been found before. -/
def readDay (p : List Char) (t : DateTime) : List Char × DateTime :=
  if atDigit p ∧ t.day = -1 then (skipNumber p, { t with day := sint8 (strtol p) }) else (p, t)

def readMonth (p : List Char) (t : DateTime) : List Char × DateTime :=
  (skipWord p, match xmonths.findIdx? (beginsWith p) with
    | some i => { t with month := i + 1 }
    | none => t)

/-- Is there a time here? -/
def atTime (p : List Char) : Bool := (p.dropWhile Char.isDigit).head? = some ':'

/-- The hours, minutes and seconds; before the year, the code does not step over the colon in front of
the seconds. -/
def readTime (outOfPlace : Bool) (p : List Char) (t : DateTime) : List Char × DateTime :=
  let t := { t with hour := sint8 (strtol p) }
  match p.dropWhile fun c => c != ':' && !isSpace c with
  | ':' :: p =>
    let t := { t with minute := sint8 (strtol p) }
    match p.dropWhile fun c => c != ':' && !isSpace c with
    | ':' :: p =>
      let t := { t with second := sint8 (strtol (if outOfPlace then ':' :: p else p)) }
      ((':' :: p).dropWhile fun c => !isSpace c, t)
    | p => (p, t)
  | p => (p, t)

def readTimeEarly (p : List Char) (t : DateTime) : List Char × DateTime :=
  if atTime p then
    let (p, t) := readTime true p t
    (p.dropWhile isSpace, t)
  else (p, t)

/-- The years 0 to 49 are 2000 to 2049, and 50 to 99 are 1950 to 1999. -/
def fullYear (year : ℤ) : ℤ :=
  if year < 50 then sint16 (year + 2000) else if year < 100 then sint16 (year + 1900) else year

def readYear (p : List Char) (t : DateTime) : List Char × DateTime :=
  if atDigit p then (skipNumber p, { t with year := fullYear (sint16 (strtol p)) })
  else (skipWord p, t)

def readTimeLate (p : List Char) (t : DateTime) : List Char × DateTime :=
  if atTime p ∧ t.hour = -1 then readTime false p t else (p, t)

/-- The time zone: hours and minutes off GMT. -/
def readZone (p : List Char) : ℤ × ℤ :=
  match p with
  | c :: d₁ :: d₂ :: d₃ :: d₄ :: rest =>
    if (c = '+' ∨ c = '-') ∧ [d₁, d₂, d₃, d₄].all Char.isDigit ∧ !atDigit rest then
      let sign := if c = '+' then 1 else -1
      (sign * strtol [d₁, d₂], sign * strtol [d₃, d₄])
    else
      match knownZones.find? fun zone => beginsWith p zone.1 with
      | some zone => (zone.2, 0)
      | none => (0, 0)
  | p =>
    match knownZones.find? fun zone => beginsWith p zone.1 with
    | some zone => (zone.2, 0)
    | none => (0, 0)

/-! ## The date -/

/-- `daysInMonth`, for the months that the table has. -/
def daysInMonth (month year : ℤ) : ℤ :=
  if month = 2 then (if year % 4 = 0 ∧ year % 100 ≠ 0 then 29 else 28)
  else if month = 4 ∨ month = 6 ∨ month = 9 ∨ month = 11 then 30 else 31

/-- The conversion to Universal Time. -/
def applyZone (t : DateTime) (hoursOffGmt minutesOffGmt : ℤ) : DateTime :=
  if hoursOffGmt = 0 ∧ minutesOffGmt = 0 then t else
  let x := t.hour + -1 * hoursOffGmt
  if x ≥ 0 ∧ x < 24 then { t with hour := x }
  else if x < 0 then
    let t := { t with hour := sint8 (t.hour + 24) }
    if t.day > 2 then { t with day := t.day - 1 }
    else if t.month > 2 then
      { t with month := t.month - 1, day := daysInMonth (t.month - 1) t.year }
    else { t with year := sint16 (t.year - 1), month := 12, day := 31 }
  else
    let t := { t with hour := sint8 (t.hour - 24) }
    if t.day ≠ daysInMonth t.month t.year then { t with day := sint8 (t.day + 1) }
    else if t.month < 12 then { t with month := t.month + 1, day := 1 }
    else { t with year := sint16 (t.year + 1), month := 1, day := 1 }

/-- The fields of a date, and its zone. -/
def readFields (p : List Char) : DateTime × ℤ × ℤ :=
  let t : DateTime := ⟨-1, -1, -1, -1, -1, -1⟩
  let p := skipWeekDay (p.dropWhile isSpace)
  let (p, t) := readDay p t
  let (p, t) := readMonth p t
  let (p, t) := readDay p t
  let (p, t) := readTimeEarly p t
  let (p, t) := readYear p t
  let (p, t) := readTimeLate p t
  (t, readZone (p.dropWhile isSpace))

/-- `parseRfc822Date`; `timezone` is that of the C library. -/
def parseRfc822Date (timezone : ℤ) (p : List Char) : Option UInt32 :=
  let (t, hoursOffGmt, minutesOffGmt) := readFields p
  (dateStructToJulian timezone (applyZone t hoursOffGmt minutesOffGmt)).map fun julianDate =>
    .ofNat ((julianDate.toNat - timezone) % 2 ^ 32).toNat

end Mts
