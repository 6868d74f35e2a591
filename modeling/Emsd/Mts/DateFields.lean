import Emsd.Mts.DateParser

/-!
# The fields of a date

The parts of which the text of a date is made, and what `parseRfc822Date` finds in them.

* `readFields_append`: **the fields of a date are found**, whatever blanks are between them.
-/

namespace Mts

open Text Calendar Ocp

/-! ## Parts of a date -/

/-- The letters of a word, whatever their case. -/
def Spells (name : String) (word : List Char) : Prop :=
  word.map Char.toLower = name.toList.map Char.toLower

instance (name : String) (word : List Char) : Decidable (Spells name word) :=
  inferInstanceAs (Decidable (_ = _))

/-- White space. -/
def Blank (s : List Char) : Prop := ∀ c ∈ s, isSpace c = true

instance (s : List Char) : Decidable (Blank s) := List.decidableBAll _ s

/-- White space between two words. -/
structure Gap where
  text : List Char
  blank : Blank text
  nonempty : text ≠ []

/-- What comes behind a date. -/
structure Trailer where
  text : List Char
  blank : ∀ c ∈ text.head?, isSpace c = true

/-- The zones that have a name, and their hours: those that the code knows, and the other letters. -/
def zoneNames : List (String × ℤ) :=
  knownZones ++ [("A", -1), ("B", -2), ("C", -3), ("D", -4), ("E", -5), ("F", -6), ("G", -7),
    ("H", -8), ("I", -9), ("K", -10), ("L", -11), ("M", -12), ("N", 1), ("O", 2), ("P", 3), ("Q", 4),
    ("R", 5), ("S", 6), ("T", 7), ("U", 8), ("V", 9), ("W", 10), ("X", 11), ("Y", 12), ("Z", 0)]

/-- A zone: an offset of hours and minutes, or a name. -/
inductive Zone
  | offset (minus : Bool) (hours : Fin 24) (minutes : Fin 60)
  | named (zone : String × ℤ) (known : zone ∈ zoneNames) (word : List Char) (spells : Spells zone.1 word)

def Zone.text : Zone → List Char
  | .offset minus hours minutes =>
    (if minus then '-' else '+') :: (padded 2 hours.val ++ padded 2 minutes.val)
  | .named _ _ word _ => word

/-- A week day with its comma. -/
structure WeekDay where
  name : String
  known : name ∈ xdays
  word : List Char
  spells : Spells name word
  before : List Char
  after : List Char
  blank : Blank before ∧ Blank after

def WeekDay.text (w : WeekDay) : List Char := w.word ++ (w.before ++ ',' :: w.after)

variable {p rest w l : List Char} {c : Char} {t : DateTime} {n : ℕ} {name other : String}

/-! ## Names -/

theorem toLower_of_lt (hc : c.toNat < 65) : c.toLower = c := by
  unfold Char.toLower
  have hval : c.val.toNat < 65 := hc
  rw [dif_neg]
  rintro ⟨h, -⟩
  have : 65 ≤ c.val.toNat := h
  omega

/-- A name in letters. -/
def Lettered (name : String) : Prop := ∀ c ∈ name.toList.map Char.toLower, 97 ≤ c.toNat

instance (name : String) : Decidable (Lettered name) := List.decidableBAll _ _

theorem Spells.letter (hw : Spells name w) (hname : Lettered name) (hc : c ∈ w) : 65 ≤ c.toNat := by
  by_contra hlt
  have hmem : c.toLower ∈ name.toList.map Char.toLower := by
    have hw : w.map Char.toLower = name.toList.map Char.toLower := hw
    rw [← hw]
    exact List.mem_map_of_mem hc
  have hge := hname _ hmem
  rw [toLower_of_lt (by omega)] at hge
  omega

/-- A text that goes on behind a word begins with a name if and only if the word does. -/
theorem beginsWith_append (hw : Spells name w) (hother : Lettered other)
    (hrest : ∀ c ∈ rest.head?, c.toNat < 65) :
    beginsWith (w ++ rest) other =
      (other.toList.map Char.toLower).isPrefixOf (name.toList.map Char.toLower) := by
  have hw : w.map Char.toLower = name.toList.map Char.toLower := hw
  rw [← hw]
  unfold beginsWith
  rw [Bool.eq_iff_iff, decide_eq_true_iff, List.isPrefixOf_iff_prefix, List.prefix_iff_eq_take,
    List.map_take, List.map_append, List.length_map]
  generalize w.map Char.toLower = word
  unfold Lettered at hother
  constructor
  · intro heq
    rcases Nat.lt_or_ge word.length other.toList.length with hlen | hlen
    · -- the name would go on with what is behind the word
      cases rest with
      | nil =>
        have := congrArg List.length heq
        simp at this
        omega
      | cons x rest =>
        have hx := hrest x rfl
        have hmem : x.toLower ∈ other.toList.map Char.toLower := by
          rw [← heq]
          refine List.mem_of_getElem? (i := word.length) ?_
          rw [List.getElem?_take_of_lt hlen, List.getElem?_append_right le_rfl]
          simp
        have hge := hother _ hmem
        rw [toLower_of_lt hx] at hge
        omega
    · rw [List.take_append_of_le_length hlen] at heq
      exact heq.symm
  · intro heq
    have hlen : other.toList.length ≤ word.length := by
      have := congrArg List.length heq
      rw [List.length_map, List.length_take] at this
      omega
    rw [List.take_append_of_le_length hlen]
    exact heq.symm

/-! ## Scanning -/

theorem dropWhile_blank {s : List Char} (hs : Blank s) (hrest : ∀ c ∈ rest.head?, isSpace c = false) :
    (s ++ rest).dropWhile isSpace = rest := by
  rw [List.dropWhile_append_of_pos hs]
  cases rest with
  | nil => rfl
  | cons c rest => exact List.dropWhile_cons_of_neg (by simp [hrest c rfl])

theorem atDigit_append (hl : Numeric l n) : atDigit (l ++ rest) = true := by
  obtain ⟨c, s, rfl, hc⟩ := hl.exists_cons
  simpa [atDigit] using hc

/-- Neither a colon nor white space is in a number. -/
theorem dropWhile_time (hl : Numeric l n) (hrest : ∀ c ∈ rest.head?, c = ':' ∨ isSpace c = true) :
    (l ++ rest).dropWhile (fun c => c != ':' && !isSpace c) = rest := by
  rw [List.dropWhile_append_of_pos]
  · cases rest with
    | nil => rfl
    | cons c rest =>
      refine List.dropWhile_cons_of_neg ?_
      rcases hrest c rfl with rfl | hc
      · decide
      · simp [hc]
  · intro c hc
    have hdigit := hl.digits c hc
    have hcolon : c ≠ ':' := by
      rintro rfl
      exact absurd hdigit (by decide)
    simp [hcolon, isSpace_of_isDigit hdigit]

/-! ## The day, the month and the year -/

theorem toNat_lt_of_isDigit (hc : c.isDigit = true) : c.toNat < 65 := by
  have := isDigit_iff.1 hc
  omega

theorem not_isSeparator_of_isDigit (hc : c.isDigit = true) : isSeparator c = false := by
  refine decide_eq_false ?_
  rintro (h | rfl | rfl)
  · rw [isSpace_of_isDigit hc] at h
    cases h
  · exact absurd hc (by decide)
  · exact absurd hc (by decide)

theorem not_isSpace_of_letter (hc : 65 ≤ c.toNat) : isSpace c = false := by
  by_contra h
  have := toNat_lt_of_isSpace (by simpa using h)
  omega

theorem not_isSeparator_of_letter (hc : 65 ≤ c.toNat) : isSeparator c = false := by
  refine decide_eq_false ?_
  rintro (h | rfl | rfl)
  · rw [not_isSpace_of_letter hc] at h
    cases h
  · exact absurd hc (by decide)
  · exact absurd hc (by decide)

/-- The first character behind a gap. -/
theorem Gap.head (g : Gap) : ∀ c ∈ (g.text ++ rest).head?, isSpace c = true := by
  intro c hc
  cases hg : g.text with
  | nil => exact absurd hg g.nonempty
  | cons x s =>
    rw [hg] at hc
    have hx := g.blank x (by rw [hg]; exact List.mem_cons_self)
    simp only [List.cons_append, List.head?_cons, Option.mem_some_iff] at hc
    rwa [← hc]

theorem Gap.dropWhile_isSeparator (g : Gap) (hrest : ∀ c ∈ rest.head?, isSeparator c = false) :
    (g.text ++ rest).dropWhile isSeparator = rest := by
  rw [List.dropWhile_append_of_pos]
  · cases rest with
    | nil => rfl
    | cons c rest => exact List.dropWhile_cons_of_neg (by simp [hrest c rfl])
  · intro c hc
    have := g.blank c hc
    simp [isSeparator, this]

theorem Gap.dropWhile_isSpace (g : Gap) (hrest : ∀ c ∈ rest.head?, isSpace c = false) :
    (g.text ++ rest).dropWhile isSpace = rest := dropWhile_blank g.blank hrest

theorem skipNumber_append (hl : Numeric l n) (g : Gap)
    (hrest : ∀ c ∈ rest.head?, isSeparator c = false) :
    skipNumber (l ++ (g.text ++ rest)) = rest := by
  unfold skipNumber
  rw [hl.dropWhile fun c hc => not_isDigit_of_isSpace (g.head c hc)]
  exact g.dropWhile_isSeparator hrest

theorem skipWord_append (hw : Spells name w) (hname : Lettered name) (g : Gap)
    (hrest : ∀ c ∈ rest.head?, isSeparator c = false) :
    skipWord (w ++ (g.text ++ rest)) = rest := by
  unfold skipWord
  rw [List.dropWhile_append_of_pos]
  · have hgap : (g.text ++ rest).dropWhile (fun c => !isSeparator c) = g.text ++ rest := by
      have hhead : ∀ c ∈ (g.text ++ rest).head?, isSpace c = true := g.head
      cases hg : g.text ++ rest with
      | nil => rfl
      | cons c s =>
        rw [hg] at hhead
        have hc := hhead c rfl
        exact List.dropWhile_cons_of_neg (by simp [isSeparator, hc])
    rw [hgap]
    exact g.dropWhile_isSeparator hrest
  · intro c hc
    simp [not_isSeparator_of_letter (hw.letter hname hc)]

theorem readDay_append (hl : Numeric l n) (hn : n < 2 ^ 7) (g : Gap)
    (hrest : ∀ c ∈ rest.head?, isSeparator c = false) (ht : t.day = -1) :
    readDay (l ++ (g.text ++ rest)) t = (rest, { t with day := n }) := by
  unfold readDay
  rw [if_pos ⟨atDigit_append hl, ht⟩, skipNumber_append hl g hrest,
    hl.strtol (by omega) fun c hc => not_isDigit_of_isSpace (g.head c hc),
    sint8_of_mem (by omega) (by omega)]

theorem readDay_done (ht : t.day ≠ -1) : readDay p t = (p, t) := if_neg fun h => ht h.2

theorem month_table : ∀ month : Fin xmonths.length,
    (xmonths.findIdx? fun other => (other.toList.map Char.toLower).isPrefixOf
      ((xmonths.get month).toList.map Char.toLower)) = some month.val := by
  decide

theorem lettered_months : ∀ other ∈ xmonths, Lettered other := by decide

theorem lettered_days : ∀ other ∈ xdays, Lettered other := by decide

theorem findIdx?_congr {α : Type} {f g : α → Bool} {as : List α} (h : ∀ a ∈ as, f a = g a) :
    as.findIdx? f = as.findIdx? g := by
  induction as with
  | nil => rfl
  | cons a as ih =>
    rw [List.findIdx?_cons, List.findIdx?_cons, h a List.mem_cons_self,
      ih fun x hx => h x (List.mem_cons_of_mem a hx)]

theorem readMonth_append {month : Fin xmonths.length} (hw : Spells (xmonths.get month) w) (g : Gap)
    (hrest : ∀ c ∈ rest.head?, isSeparator c = false) :
    readMonth (w ++ (g.text ++ rest)) t = (rest, { t with month := month.val + 1 }) := by
  have hname : Lettered (xmonths.get month) := lettered_months _ (List.get_mem _ _)
  have hhead : ∀ c ∈ (g.text ++ rest).head?, c.toNat < 65 := fun c hc =>
    toNat_lt_of_isSpace (g.head c hc)
  have hmonth : xmonths.findIdx? (beginsWith (w ++ (g.text ++ rest))) = some month.val := by
    rw [← month_table month]
    exact findIdx?_congr fun other hother =>
      beginsWith_append hw (lettered_months other hother) hhead
  unfold readMonth
  rw [hmonth, skipWord_append hw hname g hrest]

/-- There is no time in front of a year. -/
theorem readTimeEarly_append (hl : Numeric l n) (g : Gap) :
    readTimeEarly (l ++ (g.text ++ rest)) t = (l ++ (g.text ++ rest), t) := by
  have htime : ¬atTime (l ++ (g.text ++ rest)) = true := by
    unfold atTime
    rw [hl.dropWhile fun c hc => not_isDigit_of_isSpace (g.head c hc)]
    intro h
    have hhead : ∀ c ∈ (g.text ++ rest).head?, isSpace c = true := g.head
    have hcolon := hhead ':' (of_decide_eq_true h)
    exact absurd hcolon (by decide)
  exact if_neg htime

theorem readYear_append (hl : Numeric l n) (hn : n < 10000) (g : Gap)
    (hrest : ∀ c ∈ rest.head?, isSeparator c = false) :
    readYear (l ++ (g.text ++ rest)) t = (rest, { t with year := fullYear n }) := by
  unfold readYear
  rw [if_pos (atDigit_append hl), skipNumber_append hl g hrest,
    hl.strtol (by omega) fun c hc => not_isDigit_of_isSpace (g.head c hc),
    sint16_of_mem (by omega) (by omega)]


/-! ## The time -/

theorem dropWhile_colon (hl : Numeric l n) (hrest : ∀ c ∈ rest.head?, isSpace c = true) :
    (':' :: (l ++ rest)).dropWhile (fun c => !isSpace c) = rest := by
  have hcolon : isSpace ':' = false := by decide
  rw [List.dropWhile_cons_of_pos (by simp [hcolon]), List.dropWhile_append_of_pos]
  · cases rest with
    | nil => rfl
    | cons c rest => exact List.dropWhile_cons_of_neg (by simp [hrest c rfl])
  · intro c hc
    simp [isSpace_of_isDigit (hl.digits c hc)]

/-- The text of a time: hours and minutes, and perhaps seconds. -/
theorem readTimeLate_append (hour : Fin 24) (minute : Fin 60) (second : Option (Fin 60)) (g : Gap)
    (ht : t.hour = -1) :
    readTimeLate (padded 2 hour.val ++ ':' :: (padded 2 minute.val ++
        (second.elim [] (fun second => ':' :: padded 2 second.val) ++ (g.text ++ rest)))) t =
      (g.text ++ rest, { t with
        hour := hour.val
        minute := minute.val
        second := second.elim t.second fun second => second.val }) := by
  have hhour := padded_numeric 2 hour.val
  have hminute := padded_numeric 2 minute.val
  have hcolon : ∀ s : List Char, ∀ c ∈ (':' :: s).head?, c.isDigit = false := by
    intro s c hc
    rw [List.head?_cons, Option.mem_some_iff] at hc
    rw [← hc]
    rfl
  have hstop : ∀ s : List Char, ∀ c ∈ (':' :: s).head?, c = ':' ∨ isSpace c = true := by
    intro s c hc
    rw [List.head?_cons, Option.mem_some_iff] at hc
    exact Or.inl hc.symm
  have hgap : ∀ c ∈ (g.text ++ rest).head?, isSpace c = true := g.head
  have hsmall : ∀ {k : ℕ} (i : Fin k), k ≤ 60 → sint8 (i.val : ℤ) = i.val := by
    intro k i hk
    exact sint8_of_mem (by omega) (by omega)
  unfold readTimeLate
  rw [if_pos ⟨by unfold atTime; rw [hhour.dropWhile (hcolon _)]; rfl, ht⟩]
  unfold readTime
  dsimp only
  rw [hhour.strtol (by omega) (hcolon _), dropWhile_time hhour (hstop _), hsmall hour (by omega)]
  cases second with
  | none =>
    rw [Option.elim_none, List.nil_append]
    split
    · rename_i heq
      obtain rfl := (List.cons.inj heq).2
      rw [hminute.strtol (by omega) fun c hc => not_isDigit_of_isSpace (hgap c hc),
        dropWhile_time hminute fun c hc => Or.inr (hgap c hc), hsmall minute le_rfl]
      split
      · rename_i heq
        rw [heq] at hgap
        exact absurd (hgap ':' rfl) (by decide)
      · rfl
    · rename_i hne
      exact absurd rfl (hne _)
  | some second =>
    have hsecond := padded_numeric 2 second.val
    rw [Option.elim_some, List.cons_append]
    split
    · rename_i heq
      obtain rfl := (List.cons.inj heq).2
      rw [hminute.strtol (by omega) (hcolon _), dropWhile_time hminute (hstop _), hsmall minute le_rfl]
      split
      · rename_i heq
        obtain rfl := (List.cons.inj heq).2
        rw [dropWhile_colon hsecond hgap, if_neg (by decide),
          hsecond.strtol (by omega) fun c hc => not_isDigit_of_isSpace (hgap c hc),
          hsmall second le_rfl]
        rfl
      · rename_i hne
        exact absurd rfl (hne _)
    · rename_i hne
      exact absurd rfl (hne _)

/-! ## The zone -/

/-- The zone that the code reads. -/
def Zone.read : Zone → ℤ × ℤ
  | .offset minus hours minutes =>
    let sign := if minus then -1 else 1
    (sign * (hours.val : ℤ), sign * (minutes.val : ℤ))
  | .named zone .. => if zone ∈ knownZones then (zone.2, 0) else (0, 0)

theorem zone_table : ∀ zone ∈ zoneNames,
    (knownZones.find? fun known => (known.1.toList.map Char.toLower).isPrefixOf
      (zone.1.toList.map Char.toLower)) = if zone ∈ knownZones then some zone else none := by
  decide +kernel

theorem lettered_zones : ∀ zone ∈ zoneNames, Lettered zone.1 ∧ zone.1.toList ≠ [] := by
  decide +kernel

theorem lettered_known : ∀ zone ∈ knownZones, Lettered zone.1 := fun zone hzone =>
  (lettered_zones zone (List.mem_append_left _ hzone)).1

theorem padded_pair {k : ℕ} (hk : k < 100) :
    ∃ d₁ d₂, padded 2 k = [d₁, d₂] ∧ d₁.isDigit = true ∧ d₂.isDigit = true ∧ strtol [d₁, d₂] = k := by
  have hlen : (padded 2 k).length = 2 := padded_length (by decide) hk
  obtain ⟨d₁, d₂, hd⟩ := List.length_eq_two.1 hlen
  have hnum := padded_numeric 2 k
  have hnil : ∀ c ∈ ([] : List Char).head?, c.isDigit = false := by simp
  have hread := hnum.strtol (by omega) hnil
  rw [hd] at hnum hread
  exact ⟨d₁, d₂, hd, hnum.digits d₁ (by simp), hnum.digits d₂ (by simp), hread⟩

theorem find?_congr {α : Type} {f g : α → Bool} {as : List α} (h : ∀ a ∈ as, f a = g a) :
    as.find? f = as.find? g := by
  induction as with
  | nil => rfl
  | cons a as ih =>
    rw [List.find?_cons, List.find?_cons, h a List.mem_cons_self,
      ih fun x hx => h x (List.mem_cons_of_mem a hx)]

theorem readZone_name (hp : ∀ c ∈ p.head?, c ≠ '+' ∧ c ≠ '-') :
    readZone p = match knownZones.find? fun zone => beginsWith p zone.1 with
      | some zone => (zone.2, 0)
      | none => (0, 0) := by
  unfold readZone
  split
  · rename_i c d₁ d₂ d₃ d₄ s
    obtain ⟨hplus, hminus⟩ := hp c rfl
    exact if_neg fun h => h.1.elim hplus hminus
  · rfl

theorem readZone_text (z : Zone) (trailer : Trailer) :
    readZone (z.text ++ trailer.text) = z.read := by
  cases z with
  | offset minus hours minutes =>
    obtain ⟨d₁, d₂, hhours, h₁, h₂, hhours'⟩ := padded_pair (show hours.val < 100 by omega)
    obtain ⟨d₃, d₄, hminutes, h₃, h₄, hminutes'⟩ := padded_pair (show minutes.val < 100 by omega)
    have hend : atDigit trailer.text = false := by
      have hblank := trailer.blank
      unfold atDigit
      cases htext : trailer.text with
      | nil => rfl
      | cons c s =>
        rw [htext] at hblank
        simpa using not_isDigit_of_isSpace (hblank c rfl)
    have htext : (Zone.offset minus hours minutes).text ++ trailer.text =
        (if minus then '-' else '+') :: d₁ :: d₂ :: d₃ :: d₄ :: trailer.text := by
      unfold Zone.text
      dsimp only
      rw [hhours, hminutes]
      rfl
    rw [htext]
    unfold readZone
    dsimp only
    rw [if_pos ⟨by cases minus <;> simp, by simp [h₁, h₂, h₃, h₄], by simp [hend]⟩, hhours', hminutes']
    cases minus <;> rfl
  | named zone known word spells =>
    obtain ⟨hlettered, hne⟩ := lettered_zones zone known
    have hhead : ∀ c ∈ trailer.text.head?, c.toNat < 65 := fun c hc =>
      toNat_lt_of_isSpace (trailer.blank c hc)
    have hword : word ≠ [] := by
      rintro rfl
      have hspells : [].map Char.toLower = zone.1.toList.map Char.toLower := spells
      exact hne (List.map_eq_nil_iff.1 hspells.symm)
    have hfirst : ∀ c ∈ (word ++ trailer.text).head?, c ≠ '+' ∧ c ≠ '-' := by
      intro c hc
      rw [List.head?_append_of_ne_nil _ hword] at hc
      have := Spells.letter spells hlettered (List.mem_of_mem_head? hc)
      constructor <;> (rintro rfl; exact absurd this (by decide))
    have hfind : (knownZones.find? fun known => beginsWith (word ++ trailer.text) known.1) =
        if zone ∈ knownZones then some zone else none := by
      rw [← zone_table zone known]
      exact find?_congr fun other hother =>
        beginsWith_append spells (lettered_known other hother) hhead
    unfold Zone.text Zone.read
    dsimp only
    rw [readZone_name hfirst, hfind]
    by_cases hzone : zone ∈ knownZones
    · rw [if_pos hzone, if_pos hzone]
    · rw [if_neg hzone, if_neg hzone]

/-! ## All fields -/

theorem skipWeekDay_text (w : WeekDay) (hrest : ∀ c ∈ rest.head?, c.isDigit = true) :
    skipWeekDay (w.text ++ rest) = rest := by
  have hlettered := lettered_days w.name w.known
  have htail : ∀ c ∈ (w.before ++ (',' :: (w.after ++ rest))).head?, isSpace c = true ∨ c = ',' := by
    intro c hc
    cases hb : w.before with
    | nil =>
      rw [hb, List.nil_append, List.head?_cons, Option.mem_some_iff] at hc
      exact Or.inr hc.symm
    | cons x s =>
      rw [hb, List.cons_append, List.head?_cons, Option.mem_some_iff] at hc
      refine Or.inl (w.blank.1 c ?_)
      rw [hb, ← hc]
      exact List.mem_cons_self
  have hany : xdays.any (beginsWith (w.word ++ (w.before ++ (',' :: (w.after ++ rest))))) = true := by
    rw [List.any_eq_true]
    refine ⟨w.name, w.known, ?_⟩
    rw [beginsWith_append w.spells hlettered]
    · simp
    · intro c hc
      rcases htail c hc with hc | rfl
      · exact toNat_lt_of_isSpace hc
      · decide
  have htext : w.text ++ rest = w.word ++ (w.before ++ (',' :: (w.after ++ rest))) := by
    simp [WeekDay.text]
  rw [htext]
  unfold skipWeekDay
  rw [if_pos hany, List.dropWhile_append_of_pos]
  · have hstop : (w.before ++ (',' :: (w.after ++ rest))).dropWhile
        (fun c => !isSpace c && c != ',') = w.before ++ (',' :: (w.after ++ rest)) := by
      revert htail
      cases w.before ++ (',' :: (w.after ++ rest)) with
      | nil => intro _; rfl
      | cons c s =>
        intro htail
        refine List.dropWhile_cons_of_neg ?_
        rcases htail c rfl with hc | rfl
        · simp [hc]
        · simp
    have hbefore : ∀ c ∈ w.before, (isSpace c || c == ',') = true := by
      intro c hc
      simp [w.blank.1 c hc]
    have hafter : ∀ c ∈ w.after, (isSpace c || c == ',') = true := by
      intro c hc
      simp [w.blank.2 c hc]
    rw [hstop, List.dropWhile_append_of_pos hbefore, List.dropWhile_cons_of_pos (by simp),
      List.dropWhile_append_of_pos hafter]
    cases rest with
    | nil => rfl
    | cons c s =>
      have hc := hrest c rfl
      refine List.dropWhile_cons_of_neg ?_
      have hcomma : c ≠ ',' := by
        rintro rfl
        exact absurd hc (by decide)
      simp [isSpace_of_isDigit hc, hcomma]
  · intro c hc
    have hletter := w.spells.letter hlettered hc
    have hcomma : c ≠ ',' := by
      rintro rfl
      exact absurd hletter (by decide)
    simp [not_isSpace_of_letter hletter, hcomma]

/-- A date without a week day begins with a digit. -/
theorem skipWeekDay_digit (hp : ∀ c ∈ p.head?, c.isDigit = true) : skipWeekDay p = p := by
  refine if_neg ?_
  have hdays : ∀ other ∈ xdays, other.toList.map Char.toLower ≠ [] := by decide
  rw [List.any_eq_true]
  rintro ⟨other, hother, hbegins⟩
  have hempty : Spells "" [] := rfl
  have hfirst : ∀ c ∈ p.head?, c.toNat < 65 := fun c hc => toNat_lt_of_isDigit (hp c hc)
  have happ := beginsWith_append hempty (lettered_days other hother) hfirst
  rw [List.nil_append, hbegins] at happ
  exact hdays other hother (by simpa using happ.symm)

theorem head_separator (hl : Numeric l n) :
    ∀ c ∈ (l ++ rest).head?, isSeparator c = false := fun c hc =>
  not_isSeparator_of_isDigit (hl.head c hc)

theorem Spells.ne_nil (hw : Spells name w) (hname : name.toList ≠ []) : w ≠ [] := by
  rintro rfl
  have hw : [].map Char.toLower = name.toList.map Char.toLower := hw
  exact hname (List.map_eq_nil_iff.1 hw.symm)

theorem Spells.head (hw : Spells name w) (hname : Lettered name) (hne : name.toList ≠ []) :
    ∀ c ∈ (w ++ rest).head?, 65 ≤ c.toNat := by
  intro c hc
  rw [List.head?_append_of_ne_nil _ (hw.ne_nil hne)] at hc
  exact hw.letter hname (List.mem_of_mem_head? hc)

theorem Zone.head (z : Zone) : ∀ c ∈ (z.text ++ rest).head?, isSpace c = false := by
  cases z with
  | offset minus hours minutes =>
    intro c hc
    cases minus <;>
    · obtain rfl : _ = c := by simpa [Zone.text] using hc
      rfl
  | named zone known word spells =>
    intro c hc
    obtain ⟨hlettered, hne⟩ := lettered_zones zone known
    exact not_isSpace_of_letter (spells.head hlettered hne c hc)

/-- **The fields of a date**: a day, a month, a year, a time and a zone, behind a week day that is
skipped. -/
theorem readFields_append {day year : List Char} {k m : ℕ} {month : Fin xmonths.length} {hour : Fin 24}
    {minute : Fin 60} {second : Option (Fin 60)} {g₁ g₂ g₃ g₄ : Gap} {zone : Zone} {v : Trailer}
    (hday : Numeric day k) (hk : k ≤ 31) (hmonth : Spells (xmonths.get month) w)
    (hyear : Numeric year m) (hm : m < 10000)
    (hp : skipWeekDay (p.dropWhile isSpace) = day ++ (g₁.text ++ (w ++ (g₂.text ++ (year ++
      (g₃.text ++ (padded 2 hour.val ++ ':' :: (padded 2 minute.val ++
        (second.elim [] (fun second => ':' :: padded 2 second.val) ++
          (g₄.text ++ (zone.text ++ v.text))))))))))) :
    readFields p =
      ({ year := fullYear m
         month := month.val + 1
         day := k
         hour := hour.val
         minute := minute.val
         second := second.elim (-1) fun second => second.val }, zone.read) := by
  have hhour := padded_numeric 2 hour.val
  have hmonths : ∀ other ∈ xmonths, other.toList ≠ [] := by decide
  have hmem : xmonths.get month ∈ xmonths := List.get_mem _ _
  unfold readFields
  dsimp only
  rw [hp, readDay_append hday (by omega) g₁ (fun c hc => not_isSeparator_of_letter
    (hmonth.head (lettered_months _ hmem) (hmonths _ hmem) c hc)) rfl]
  dsimp only
  rw [readMonth_append hmonth g₂ (head_separator hyear)]
  dsimp only
  rw [readDay_done (by dsimp only; omega)]
  dsimp only
  rw [readTimeEarly_append hyear g₃]
  dsimp only
  rw [readYear_append hyear hm g₃ (head_separator hhour)]
  dsimp only
  rw [readTimeLate_append hour minute second g₄ rfl]
  dsimp only
  rw [g₄.dropWhile_isSpace zone.head, readZone_text]

/-! ## The conversion to Universal Time -/

/-- What is accepted, and what it is taken for. -/
theorem parse_eq_some {timezone : ℤ} {z : ℤ × ℤ} {j : UInt32} (hp : readFields p = (t, z)) :
    parseRfc822Date timezone p = some j ↔
      ¬((applyZone t z.1 z.2).year < 1970 ∨ (applyZone t z.1 z.2).month > 12 ∨
        (applyZone t z.1 z.2).day > 31 ∨ (applyZone t z.1 z.2).hour > 23 ∨
        (applyZone t z.1 z.2).minute > 59 ∨ (applyZone t z.1 z.2).second > 59) ∧
      (timegm (applyZone t z.1 z.2) + timezone) % 2 ^ 32 ≠ 2 ^ 32 - 1 ∧
      (j.toNat : ℤ) = timegm (applyZone t z.1 z.2) % 2 ^ 32 := by
  unfold parseRfc822Date
  rw [hp]
  dsimp only
  generalize applyZone t z.1 z.2 = u
  unfold dateStructToJulian
  have hj : j.toNat < 2 ^ 32 := j.toNat_lt
  by_cases hrange : u.year < 1970 ∨ u.month > 12 ∨ u.day > 31 ∨ u.hour > 23 ∨ u.minute > 59 ∨
      u.second > 59
  · rw [if_pos hrange]
    simp [hrange]
  · rw [if_neg hrange]
    dsimp only
    by_cases herror : (timegm u + timezone) % 2 ^ 32 = 2 ^ 32 - 1
    · rw [if_pos herror]
      exact ⟨fun h => (by cases h), fun h => absurd herror h.2.1⟩
    · rw [if_neg herror, Option.map_some, Option.some_inj]
      have hback : (((UInt32.ofNat ((timegm u + timezone) % 2 ^ 32).toNat).toNat : ℤ) - timezone) %
          2 ^ 32 = timegm u % 2 ^ 32 := by
        rw [UInt32.toNat_ofNat']
        omega
      rw [hback]
      constructor
      · rintro rfl
        refine ⟨hrange, herror, ?_⟩
        rw [UInt32.toNat_ofNat']
        omega
      · rintro ⟨-, -, heq⟩
        rw [← heq]
        simp

theorem applyZone_inDay {h m : ℤ} (h0 : 0 ≤ t.hour - h) (h24 : t.hour - h < 24) :
    applyZone t h m = { t with hour := t.hour - h } := by
  unfold applyZone
  split
  · rename_i hzero
    obtain ⟨rfl, rfl⟩ := hzero
    rw [Int.sub_zero]
  · dsimp only
    rw [if_pos ⟨by omega, by omega⟩, show t.hour + -1 * h = t.hour - h by ring]

/-- On the way back a day, the hour becomes one of the next day. -/
theorem applyZone_back {h m : ℤ} (h0 : 0 ≤ t.hour) (h24 : t.hour < 24) (hneg : t.hour - h < 0) :
    23 < (applyZone t h m).hour := by
  have hhour : sint8 (t.hour + 24) = t.hour + 24 := sint8_of_mem (by omega) (by omega)
  unfold applyZone
  rw [if_neg fun hzero => by omega]
  dsimp only
  rw [if_neg fun hx => by omega, if_pos (by omega), hhour]
  split
  · dsimp only
    omega
  · split
    · dsimp only
      omega
    · dsimp only
      omega

/-- On the way forward a day, the local time is kept, but the first day of March may come too early in a
century's year. -/
theorem applyZone_forward {h m : ℤ} (ht : t.hour < 24 ∧ 0 ≤ t.hour) (h1 : 1 ≤ t.month)
    (h12 : t.month ≤ 12) (hday : 1 ≤ t.day ∧ t.day ≤ monthDays (isLeap t.year) t.month)
    (hyear : -2 ^ 15 ≤ t.year ∧ t.year < 2 ^ 15 - 1) (hx : 24 ≤ t.hour - h) :
    timegm (applyZone t h m) = timegm t ∨ timegm (applyZone t h m) = timegm t + 86400 := by
  have hhour : sint8 (t.hour - 24) = t.hour - 24 := sint8_of_mem (by omega) (by omega)
  have hle := monthDays_le (isLeap t.year) t.month
  have hnext : sint8 (t.day + 1) = t.day + 1 := sint8_of_mem (by omega) (by omega)
  have hin : daysInMonth t.month t.year = monthDays (isLeap t.year) t.month ∨
      t.month = 2 ∧ daysInMonth t.month t.year = 28 ∧ monthDays (isLeap t.year) t.month = 29 := by
    by_cases hfeb : t.month = 2
    · unfold daysInMonth monthDays isLeap
      rw [if_pos hfeb, if_pos hfeb]
      by_cases hleap : t.year % 4 = 0 ∧ t.year % 100 ≠ 0
      · rw [if_pos hleap]
        simp [hleap]
      · rw [if_neg hleap]
        split
        · exact Or.inr ⟨hfeb, rfl, rfl⟩
        · exact Or.inl rfl
    · left
      unfold daysInMonth monthDays
      rw [if_neg hfeb, if_neg hfeb]
  unfold applyZone
  rw [if_neg fun hzero => by omega]
  dsimp only
  rw [if_neg fun hx => by omega, if_neg (by omega), hhour]
  split
  · -- the next day
    unfold timegm
    dsimp only
    rw [hnext, days_of_month h1 h12, days_of_month h1 h12]
    left
    ring
  · rename_i hlast
    split
    · -- the next month
      rename_i hmonth
      have hsucc := monthStart_succ (isLeap t.year) h1 hmonth
      unfold timegm
      dsimp only
      rw [days_of_month (by omega) (by omega), days_of_month h1 h12, hsucc]
      rcases hin with hin | ⟨-, hin, hlen⟩
      · left
        omega
      · right
        omega
    · -- the next year
      have hmonth : t.month = 12 := by omega
      have hsucc := yearStart_succ t.year
      have hstart : monthStart (isLeap t.year) 12 + 31 = yearDays (isLeap t.year) := by
        cases isLeap t.year <;> rfl
      have hdec : monthDays (isLeap t.year) 12 = 31 := rfl
      have hjan : monthStart (isLeap (t.year + 1)) 1 = 0 := rfl
      rw [sint16_of_mem (by omega) (by omega)]
      unfold timegm
      dsimp only
      rw [days_of_month (by omega) (by omega), days_of_month h1 h12, hmonth, hsucc, hjan]
      rw [hmonth] at hin hlast
      left
      omega

end Mts
