import Emsd.Lib.Text
import Emsd.Ocp.Time
import Mathlib.Data.List.Forall2
import Mathlib.Logic.Function.Basic

/-!
# Control files (`ctrlfile.c`)

The file that goes with a submitted message: a line for each field, and one for each recipient.

* `read_written_iff`: **what has been written is read again**, up to a retry time that a `long` holds.
* `read_clean_iff`: **a file that cannot be read leaves no recipients behind**, unless a line that is
  not one of a recipient comes after some that are; a record that is read fits its fields.
* `control_file_iff`: both, as one statement; `control_file_defects` are the exceptions.
-/

namespace Mtsua

open Text Ocp

/-- `MTSUA_ControlFileData`. -/
structure ControlFileData where
  dataFileName : List Char
  originator : List Char
  messageId : List Char
  retries : UInt16
  nextRetryTime : UInt32
  recipList : List (List Char)
  deriving DecidableEq

/-- `OS_MAX_FILENAME_LEN`. -/
def osMaxFilenameLen : ℕ := 4096 + 14 + 2

/-- `MAILTMPLEN`. -/
def mailTmpLen : ℕ := 1024

/-- The size of `tmpbuf`. -/
def lineBufLen : ℕ := 1024

inductive FileRc
  | fileOpen
  | fileRead
  | fail
  | resourceError
  | fileCreate
  deriving DecidableEq, Repr

/-! ## `mtsua_readControlFile` -/

/-- `SKIP`: what follows a header. -/
def skip : List Char → List Char → Option (List Char)
  | s, [] => some s
  | [], _ :: _ => none
  | c :: s, h :: header => if c = h then skip s header else none

/-- A trailing newline is stripped off. -/
def chomp (s : List Char) : List Char := if s.getLast? = some '\n' then s.dropLast else s

/-- The next line of the file, after its header. -/
def readField (header : String) : List (List Char) → Except FileRc (List Char × List (List Char))
  | [] => .error .fileRead
  | line :: rest =>
    match skip (cString line) header.toList with
    | none => .error .fail
    | some s => .ok (s, rest)

/-- The loop over the recipients; a failure comes with the recipient list that stays allocated. -/
def readRecips (osAlloc : ℕ → Bool) : List (List Char) → List (List Char) →
    Except (FileRc × List (List Char)) (List (List Char))
  | [], recipList => .ok recipList
  | line :: rest, recipList =>
    match skip (cString line) "To: ".toList with
    | none => .error (.fail, recipList)
    | some s =>
      if osAlloc recipList.length then readRecips osAlloc rest (recipList ++ [chomp s])
      else .error (.resourceError, [])

/-- `mtsua_readControlFile`, for the contents of the file if it can be opened. -/
def readControlFile (osAlloc : ℕ → Bool) (file : Option (List Char)) :
    Except (FileRc × List (List Char)) ControlFileData := do
  let some file := file | .error (.fileOpen, [])
  let (dataFileName, rest) ← (readField "Data File Name: " (lines lineBufLen file [])).mapError (·, [])
  let (originator, rest) ← (readField "Originator: " rest).mapError (·, [])
  let (messageId, rest) ← (readField "Message Id: " rest).mapError (·, [])
  let (retries, rest) ← (readField "Delivery Attempts: " rest).mapError (·, [])
  let (nextRetryTime, rest) ← (readField "Next Retry: " rest).mapError (·, [])
  let recipList ← readRecips osAlloc rest []
  return { dataFileName := chomp dataFileName
           originator := chomp originator
           messageId := chomp messageId
           retries := .ofNat (strtol retries % 2 ^ 16).toNat
           nextRetryTime := .ofNat (strtol nextRetryTime % 2 ^ 32).toNat
           recipList }

/-! ## `mtsua_writeControlFile` -/

/-- The part of the retry time that is for people to read. -/
def retryTimeText (nextRetryTime : UInt32) : List Char :=
  let t := julianToDateStruct nextRetryTime
  " (".toList ++ padded 2 t.year.toNat ++ '/' :: padded 2 t.month.toNat ++ '/' ::
    padded 2 t.day.toNat ++ ' ' :: padded 2 t.hour.toNat ++ ':' :: padded 2 t.minute.toNat ++ ':' ::
    padded 2 t.second.toNat ++ " GMT)".toList

/-- A line of the file. -/
def fieldText (header : String) (s : List Char) : List Char := header.toList ++ s ++ ['\n']

/-- What is written into a file. -/
def controlFileText (d : ControlFileData) : List Char :=
  fieldText "Data File Name: " d.dataFileName ++
    (fieldText "Originator: " d.originator ++
      (fieldText "Message Id: " d.messageId ++
        (fieldText "Delivery Attempts: " (decimal d.retries.toNat) ++
          (fieldText "Next Retry: "
              (decimal d.nextRetryTime.toNat ++ retryTimeText d.nextRetryTime) ++
            (d.recipList.map (fieldText "To: ")).flatten))))

/-- The files, by their names. -/
abbrev Files := List Char → Option (List Char)

/-- The results of the calls of `mtsua_writeControlFile`; `OS_uniqueName` gives the six characters that
make the name unique. -/
structure WriteEnv where
  fileOpen : Bool
  uniqueName : Option (List Char)
  moveFile : Bool

/-- The name of the real control file: the last six characters are replaced, and the `T` at the
beginning of its last component. -/
def controlFileName (pTempControlFileName unique : List Char) : List Char :=
  let name := pTempControlFileName.take (pTempControlFileName.length - 6) ++ unique
  let base := (name.reverse.takeWhile (· ≠ '/')).reverse
  match base with
  | 'T' :: rest =>
    if '/' ∈ name then name.take (name.length - base.length) ++ 'C' :: rest else name
  | _ => name

/-- `mtsua_writeControlFile`: the files afterwards, and the name of the control file. -/
def writeControlFile (env : WriteEnv) (files : Files) (pTempControlFileName : List Char)
    (d : ControlFileData) : Files × Except FileRc (List Char) :=
  if !env.fileOpen then (files, .error .fileOpen) else
  let files := Function.update files pTempControlFileName (some (controlFileText d))
  match env.uniqueName with
  | none => (files, .error .fileCreate)
  | some unique =>
    let name := controlFileName pTempControlFileName unique
    if env.moveFile then
      (Function.update (Function.update files pTempControlFileName none) name
        (some (controlFileText d)), .ok name)
    else (Function.update files pTempControlFileName none, .error .fail)

variable {s header line : List Char} {ls rest : List (List Char)} {osAlloc : ℕ → Bool}
  {d : ControlFileData} {n : ℕ} {c : Char} {file : List Char}

/-! ## Reading what has been written -/

theorem skip_append (header s : List Char) : skip (header ++ s) header = some s := by
  induction header with
  | nil => cases s <;> rfl
  | cons h header ih =>
    rw [List.cons_append]
    unfold skip
    rw [if_pos rfl, ih]

theorem chomp_newline (s : List Char) : chomp (s ++ ['\n']) = s := by
  unfold chomp
  rw [if_pos (by simp), List.dropLast_concat]

/-- A string that is one line, which fits the buffer with its header. -/
structure LineFits (header : String) (s : List Char) : Prop where
  newline : '\n' ∉ s
  null : '\x00' ∉ s
  length : header.toList.length + s.length + 2 ≤ lineBufLen

instance (header : String) (s : List Char) : Decidable (LineFits header s) :=
  decidable_of_iff ('\n' ∉ s ∧ '\x00' ∉ s ∧ header.toList.length + s.length + 2 ≤ lineBufLen)
    ⟨fun h => ⟨h.1, h.2.1, h.2.2⟩, fun h => ⟨h.newline, h.null, h.length⟩⟩

/-- A header has no end of a line or of a string in it. -/
def Plain (header : String) : Prop := '\n' ∉ header.toList ∧ '\x00' ∉ header.toList

instance (header : String) : Decidable (Plain header) := inferInstanceAs (Decidable (_ ∧ _))

theorem lines_fieldText {header : String} (hh : Plain header) (hs : LineFits header s)
    (rest : List Char) :
    lines lineBufLen (fieldText header s ++ rest) [] =
      fieldText header s :: lines lineBufLen rest [] := by
  have hno : '\n' ∉ header.toList ++ s := by
    rw [List.mem_append]
    exact not_or.2 ⟨hh.1, hs.newline⟩
  have hlen := hs.length
  have h : lines lineBufLen (header.toList ++ s ++ '\n' :: rest) [] =
      ([] ++ (header.toList ++ s) ++ ['\n']) :: lines lineBufLen rest [] :=
    lines_append hno (by rw [List.length_append, List.length_nil]; omega)
  unfold fieldText
  simpa using h

theorem skip_fieldText {header : String} (hh : Plain header) (hs : LineFits header s) :
    skip (cString (fieldText header s)) header.toList = some (s ++ ['\n']) := by
  have hnull : '\x00' ∉ fieldText header s := by
    unfold fieldText
    simp only [List.mem_append, List.mem_singleton, not_or]
    exact ⟨⟨hh.2, hs.null⟩, by decide⟩
  rw [cString_eq hnull]
  unfold fieldText
  rw [List.append_assoc, skip_append]

theorem readField_fieldText {header : String} (hh : Plain header) (hs : LineFits header s)
    (rest : List (List Char)) :
    readField header (fieldText header s :: rest) = .ok (s ++ ['\n'], rest) := by
  unfold readField
  dsimp only
  rw [skip_fieldText hh hs]

theorem field_bind {α : Type} {header : String} (hh : Plain header) (hs : LineFits header s)
    (rest : List (List Char))
    (k : List Char × List (List Char) → Except (FileRc × List (List Char)) α) :
    ((readField header (fieldText header s :: rest)).mapError (·, []) >>= k) = k (s ++ ['\n'], rest) := by
  rw [readField_fieldText hh hs]
  rfl

/-- The strings of a record are one line each, which fits the reader's buffer. -/
structure ControlFileData.Fits (d : ControlFileData) : Prop where
  dataFileName : LineFits "Data File Name: " d.dataFileName
  originator : LineFits "Originator: " d.originator
  messageId : LineFits "Message Id: " d.messageId
  recipList : ∀ recipient ∈ d.recipList, LineFits "To: " recipient

theorem code_of_isDigit {l : List Char} (hl : ∀ c ∈ l, c.isDigit = true) : ∀ c ∈ l, 32 ≤ c.toNat := by
  intro c hc
  have := isDigit_iff.1 (hl c hc)
  omega

theorem lineFits_of_code {header : String} (hcode : ∀ c ∈ s, 32 ≤ c.toNat)
    (hlen : header.toList.length + s.length + 2 ≤ lineBufLen) : LineFits header s where
  newline h := absurd (hcode _ h) (by decide)
  null h := absurd (hcode _ h) (by decide)
  length := hlen

/-- The codes of a text, looked up one by one. -/
theorem code_of_all (h : s.all (fun c => 32 ≤ c.toNat) = true) : ∀ c ∈ s, 32 ≤ c.toNat := by
  simpa using h

theorem retryTimeText_code (j : UInt32) : ∀ c ∈ retryTimeText j, 32 ≤ c.toNat := by
  have hd : ∀ w n, ∀ c ∈ padded w n, 32 ≤ c.toNat := fun w n => code_of_isDigit (padded_isDigit w n)
  unfold retryTimeText
  simp only [List.forall_mem_append, List.forall_mem_cons]
  and_intros
  all_goals first | exact hd _ _ | exact code_of_all (by decide) | decide

theorem retryTimeText_length (j : UInt32) : (retryTimeText j).length ≤ 40 := by
  have hyear := julianToDateStruct_year j
  have hvalid : (julianToDateStruct j).Valid := Calendar.gmtime_valid _
  have hmonth := hvalid.month
  have hhour := hvalid.hour
  have hminute := hvalid.minute
  have hsecond := hvalid.second
  have hday := hvalid.day
  have hdays := Calendar.monthDays_le (Calendar.isLeap (julianToDateStruct j).year)
    (julianToDateStruct j).month
  have hlen : ∀ n : ℕ, n < 10 ^ 4 → (padded 2 n).length ≤ 4 := fun n hn =>
    padded_length_le 2 (by decide) hn
  have h₁ := hlen (julianToDateStruct j).year.toNat (by omega)
  have h₂ := hlen (julianToDateStruct j).month.toNat (by omega)
  have h₃ := hlen (julianToDateStruct j).day.toNat (by omega)
  have h₄ := hlen (julianToDateStruct j).hour.toNat (by omega)
  have h₅ := hlen (julianToDateStruct j).minute.toNat (by omega)
  have h₆ := hlen (julianToDateStruct j).second.toNat (by omega)
  have hopen : " (".toList.length = 2 := by decide
  have hclose : " GMT)".toList.length = 5 := by decide
  unfold retryTimeText
  simp only [List.length_append, List.length_cons]
  omega

theorem lines_recips {recipList : List (List Char)} (hf : ∀ r ∈ recipList, LineFits "To: " r) :
    lines lineBufLen (recipList.map (fieldText "To: ")).flatten [] =
      recipList.map (fieldText "To: ") := by
  induction recipList with
  | nil => rfl
  | cons r recipList ih =>
    rw [List.map_cons, List.flatten_cons, lines_fieldText (by decide) (hf r List.mem_cons_self),
      ih fun x hx => hf x (List.mem_cons_of_mem r hx)]

theorem readRecips_written {recipList : List (List Char)} (hf : ∀ r ∈ recipList, LineFits "To: " r)
    (acc : List (List Char)) :
    readRecips osAlloc (recipList.map (fieldText "To: ")) acc =
      if ∀ i < recipList.length, osAlloc (acc.length + i) = true then .ok (acc ++ recipList)
      else .error (.resourceError, []) := by
  induction recipList generalizing acc with
  | nil =>
    rw [if_pos (by simp), List.append_nil]
    rfl
  | cons r recipList ih =>
    have hskip := skip_fieldText (by decide) (hf r List.mem_cons_self)
    have ih := ih (fun x hx => hf x (List.mem_cons_of_mem r hx)) (acc ++ [r])
    rw [List.length_append, List.length_singleton, List.append_assoc, List.singleton_append] at ih
    rw [List.map_cons]
    unfold readRecips
    rw [hskip]
    dsimp only
    rw [chomp_newline, ih]
    by_cases hr : osAlloc acc.length = true
    · rw [if_pos hr]
      refine if_congr ⟨fun h i hi => ?_, fun h i hi => ?_⟩ rfl rfl
      · cases i with
        | zero => exact hr
        | succ i =>
          rw [show acc.length + (i + 1) = acc.length + 1 + i by omega]
          exact h i (by rw [List.length_cons] at hi; omega)
      · rw [show acc.length + 1 + i = acc.length + (i + 1) by omega]
        exact h (i + 1) (by rw [List.length_cons]; omega)
    · rw [if_neg hr, if_neg fun h => hr (h 0 (by simp))]

/-- **What has been written is read again**, but for a retry time that is beyond a `long`, if there is
memory for the recipients. -/
theorem read_written (hf : d.Fits) (osAlloc : ℕ → Bool) :
    readControlFile osAlloc (some (controlFileText d)) =
      if ∀ i < d.recipList.length, osAlloc i = true then
        .ok { d with nextRetryTime := .ofNat (min (2 ^ 31 - 1) d.nextRetryTime.toNat) }
      else .error (.resourceError, []) := by
  have hretries : LineFits "Delivery Attempts: " (decimal d.retries.toNat) := by
    have := d.retries.toNat_lt
    have := decimal_length_le (n := d.retries.toNat) (w := 5) (by decide) (by omega)
    exact lineFits_of_code (code_of_isDigit (decimal_isDigit _)) (by
      rw [show "Delivery Attempts: ".toList.length = 19 by decide]
      unfold lineBufLen
      omega)
  have hretry : LineFits "Next Retry: "
      (decimal d.nextRetryTime.toNat ++ retryTimeText d.nextRetryTime) := by
    have := d.nextRetryTime.toNat_lt
    have := decimal_length_le (n := d.nextRetryTime.toNat) (w := 10) (by decide) (by omega)
    have := retryTimeText_length d.nextRetryTime
    refine lineFits_of_code ?_ (by
      rw [show "Next Retry: ".toList.length = 12 by decide, List.length_append]
      unfold lineBufLen
      omega)
    rw [List.forall_mem_append]
    exact ⟨code_of_isDigit (decimal_isDigit _), retryTimeText_code _⟩
  have hattempts : (strtol (decimal d.retries.toNat ++ ['\n']) % 2 ^ 16).toNat = d.retries.toNat := by
    have := d.retries.toNat_lt
    rw [strtol_decimal _ (by simp)]
    omega
  have htime : (strtol (decimal d.nextRetryTime.toNat ++ retryTimeText d.nextRetryTime ++ ['\n']) %
      2 ^ 32).toNat = min (2 ^ 31 - 1) d.nextRetryTime.toNat := by
    have := d.nextRetryTime.toNat_lt
    rw [List.append_assoc, strtol_decimal _ (by
      unfold retryTimeText
      simp)]
    omega
  unfold readControlFile controlFileText
  dsimp only
  rw [lines_fieldText (by decide) hf.dataFileName, lines_fieldText (by decide) hf.originator,
    lines_fieldText (by decide) hf.messageId, lines_fieldText (by decide) hretries,
    lines_fieldText (by decide) hretry, lines_recips hf.recipList]
  -- the fields, one after the other
  rw [field_bind (by decide) hf.dataFileName, field_bind (by decide) hf.originator,
    field_bind (by decide) hf.messageId, field_bind (by decide) hretries,
    field_bind (by decide) hretry, readRecips_written hf.recipList]
  simp only [List.length_nil, Nat.zero_add, List.nil_append]
  by_cases hall : ∀ i < d.recipList.length, osAlloc i = true
  · rw [if_pos hall, if_pos hall]
    dsimp only [pure, Except.pure]
    rw [chomp_newline, chomp_newline, chomp_newline, hattempts, htime, UInt16.ofNat_toNat]
    rfl
  · rw [if_neg hall, if_neg hall]
    rfl

/-- **The round trip**: exactly a retry time that is not a positive `long` is lost. -/
theorem read_written_iff (hf : d.Fits) (osAlloc : ℕ → Bool) :
    readControlFile osAlloc (some (controlFileText d)) = .ok d ↔
      d.nextRetryTime.toNat < 2 ^ 31 ∧ ∀ i < d.recipList.length, osAlloc i = true := by
  rw [read_written hf]
  have hlt := d.nextRetryTime.toNat_lt
  constructor
  · intro h
    split at h
    · rename_i hall
      have htime := congrArg ControlFileData.nextRetryTime (Except.ok.inj h)
      have hnat := congrArg UInt32.toNat htime
      dsimp only at hnat
      rw [UInt32.toNat_ofNat'] at hnat
      exact ⟨by omega, hall⟩
    · cases h
  · rintro ⟨htime, hall⟩
    rw [if_pos hall, Nat.min_eq_right (by omega), UInt32.ofNat_toNat]

/-! ## Reading anything -/

/-- A line with a header. -/
def Headed (header : String) (line : List Char) : Prop := (skip (cString line) header.toList).isSome

instance (header : String) (line : List Char) : Decidable (Headed header line) :=
  inferInstanceAs (Decidable (_ = true))

/-- A line that is not one of a recipient comes after `n` that are, or after some of the lines, for
which there is memory. -/
def StrayLine (osAlloc : ℕ → Bool) (n : ℕ) (ls : List (List Char)) : Prop :=
  ∃ recips stray rest, ls = recips ++ stray :: rest ∧ 0 < n + recips.length ∧
    (∀ line ∈ recips, Headed "To: " line) ∧ ¬Headed "To: " stray ∧
    ∀ i < recips.length, osAlloc (n + i) = true

theorem readRecips_clean_iff (ls acc : List (List Char)) :
    (∀ rc left, readRecips osAlloc ls acc = .error (rc, left) → left = []) ↔
      ¬StrayLine osAlloc acc.length ls := by
  induction ls generalizing acc with
  | nil =>
    refine ⟨fun _ => ?_, fun _ rc left h => by cases h⟩
    rintro ⟨recips, stray, rest, h, -⟩
    simp at h
  | cons line rest ih =>
    unfold readRecips
    cases hs : skip (cString line) "To: ".toList with
    | none =>
      have hnot : ¬Headed "To: " line := by
        unfold Headed
        rw [hs]
        decide
      constructor
      · rintro h ⟨recips, stray, rest', heq, hn, hheaded, -, -⟩
        cases recips with
        | nil =>
          -- the recipients that were read before are left
          have hacc := h .fail acc rfl
          rw [hacc] at hn
          simp at hn
        | cons x recips =>
          obtain ⟨rfl, -⟩ := List.cons.inj heq
          exact hnot (hheaded _ List.mem_cons_self)
      · rintro hstray rc left h
        cases h
        by_contra hne
        exact hstray ⟨[], line, rest, rfl, by simpa using List.length_pos_iff.2 hne,
          by simp, hnot, by simp⟩
    | some s =>
      have hyes : Headed "To: " line := by
        unfold Headed
        rw [hs]
        rfl
      dsimp only
      -- without memory for the recipient, what has been read is freed
      by_cases ha : osAlloc acc.length = true
      · rw [if_pos ha, ih, List.length_append, List.length_singleton]
        refine not_congr ⟨?_, ?_⟩
        · rintro ⟨recips, stray, rest', rfl, -, hheaded, hstray, halloc⟩
          refine ⟨line :: recips, stray, rest', rfl, by simp, ?_, hstray, fun i hi => ?_⟩
          · exact List.forall_mem_cons.2 ⟨hyes, hheaded⟩
          · cases i with
            | zero => exact ha
            | succ i =>
              rw [show acc.length + (i + 1) = acc.length + 1 + i by omega]
              exact halloc i (by rw [List.length_cons] at hi; omega)
        · rintro ⟨recips, stray, rest', heq, -, hheaded, hstray, halloc⟩
          cases recips with
          | nil =>
            obtain ⟨rfl, -⟩ := List.cons.inj heq
            exact absurd hyes hstray
          | cons x recips =>
            obtain ⟨rfl, rfl⟩ := List.cons.inj heq
            refine ⟨recips, stray, rest', rfl, by omega,
              fun x hx => hheaded x (List.mem_cons_of_mem _ hx), hstray, fun i hi => ?_⟩
            rw [show acc.length + 1 + i = acc.length + (i + 1) by omega]
            exact halloc (i + 1) (by rw [List.length_cons]; omega)
      · rw [if_neg ha]
        constructor
        · rintro - ⟨recips, stray, rest', heq, -, -, hstray, halloc⟩
          cases recips with
          | nil =>
            obtain ⟨rfl, -⟩ := List.cons.inj heq
            exact hstray hyes
          | cons x recips => exact ha (halloc 0 (by simp))
        · rintro - rc left h
          cases h
          rfl

/-- The headers of the fields. -/
def headers : List String :=
  ["Data File Name: ", "Originator: ", "Message Id: ", "Delivery Attempts: ", "Next Retry: "]

/-- Such a line comes after lines with these headers. -/
def StrayAfter (osAlloc : ℕ → Bool) (headers : List String) (ls : List (List Char)) : Prop :=
  ∃ head rest, ls = head ++ rest ∧ List.Forall₂ Headed headers head ∧ StrayLine osAlloc 0 rest

theorem strayAfter_nil : StrayAfter osAlloc [] ls ↔ StrayLine osAlloc 0 ls := by
  constructor
  · rintro ⟨head, rest, rfl, hhead, hstray⟩
    cases hhead
    exact hstray
  · intro hstray
    exact ⟨[], ls, rfl, .nil, hstray⟩

theorem strayAfter_cons {header : String} {headers : List String} :
    StrayAfter osAlloc (header :: headers) ls ↔
      ∃ line rest, ls = line :: rest ∧ Headed header line ∧ StrayAfter osAlloc headers rest := by
  constructor
  · rintro ⟨head, rest, rfl, hhead, hstray⟩
    cases hhead with
    | cons hline hhead => exact ⟨_, _, rfl, hline, _, rest, rfl, hhead, hstray⟩
  · rintro ⟨line, _, rfl, hline, head, rest, rfl, hhead, hstray⟩
    exact ⟨line :: head, rest, rfl, .cons hline hhead, hstray⟩

/-- A failure leaves no recipients. -/
def LeavesNone {α : Type} (r : Except (FileRc × List (List Char)) α) : Prop :=
  ∀ rc left, r = .error (rc, left) → left = []

theorem leavesNone_bind_pure {α β : Type} {x : Except (FileRc × List (List Char)) α} {f : α → β} :
    LeavesNone (x >>= fun a => pure (f a)) ↔ LeavesNone x := by
  cases x with
  | error e =>
    constructor
    · intro h rc left he
      cases he
      exact h rc left rfl
    · intro h rc left he
      cases he
      exact h rc left rfl
  | ok a =>
    constructor
    · intro _ rc left h
      cases h
    · intro _ rc left h
      cases h

/-- A field whose line is missing leaves none; otherwise it is up to what follows. -/
theorem leavesNone_field {α : Type} {header : String} {headers : List String}
    {k : List Char × List (List Char) → Except (FileRc × List (List Char)) α}
    (hk : ∀ s rest, LeavesNone (k (s, rest)) ↔ ¬StrayAfter osAlloc headers rest) :
    LeavesNone ((readField header ls).mapError (·, []) >>= k) ↔
      ¬StrayAfter osAlloc (header :: headers) ls := by
  rw [strayAfter_cons]
  cases ls with
  | nil =>
    refine ⟨fun _ => ?_, fun _ rc left h => ?_⟩
    · rintro ⟨line, rest, h, -⟩
      cases h
    · cases h
      rfl
  | cons line rest =>
    unfold readField
    dsimp only
    cases hs : skip (cString line) header.toList with
    | none =>
      refine ⟨fun _ => ?_, fun _ rc left h => ?_⟩
      · rintro ⟨line, rest, heq, hline, -⟩
        obtain ⟨rfl, -⟩ := List.cons.inj heq
        unfold Headed at hline
        rw [hs] at hline
        cases hline
      · cases h
        rfl
    | some s =>
      have hline : Headed header line := by
        unfold Headed
        rw [hs]
        rfl
      dsimp only [Except.mapError, bind, Except.bind]
      rw [hk]
      refine not_congr ⟨fun h => ⟨line, rest, rfl, hline, h⟩, ?_⟩
      rintro ⟨line', rest', heq, -, h⟩
      obtain ⟨-, rfl⟩ := List.cons.inj heq
      exact h

/-- **A failure leaves no recipients**, unless a line that is not one of a recipient comes after some
that are. -/
theorem read_leavesNone_iff (osAlloc : ℕ → Bool) (file : List Char) :
    LeavesNone (readControlFile osAlloc (some file)) ↔
      ¬StrayAfter osAlloc headers (lines lineBufLen file []) := by
  refine leavesNone_field fun dataFileName rest => leavesNone_field fun originator rest =>
    leavesNone_field fun messageId rest => leavesNone_field fun retries rest =>
      leavesNone_field fun nextRetryTime rest => ?_
  rw [strayAfter_nil]
  exact leavesNone_bind_pure.trans (readRecips_clean_iff rest [])

/-- The strings fit the fields of the structure. -/
structure ControlFileData.InFields (d : ControlFileData) : Prop where
  dataFileName : d.dataFileName.length < osMaxFilenameLen
  originator : d.originator.length < mailTmpLen
  messageId : d.messageId.length < mailTmpLen

theorem skip_length {r : List Char} (h : skip s header = some r) : r.length ≤ s.length := by
  induction header generalizing s with
  | nil =>
    cases s <;> cases h <;> exact Nat.le_refl _
  | cons c header ih =>
    cases s with
    | nil => cases h
    | cons c' s =>
      unfold skip at h
      split at h
      · have := ih h
        rw [List.length_cons]
        omega
      · cases h

theorem chomp_length (s : List Char) : (chomp s).length ≤ s.length := by
  unfold chomp
  split
  · rw [List.length_dropLast]
    omega
  · exact Nat.le_refl _

theorem bind_ok {ε α β : Type} {x : Except ε α} {k : α → Except ε β} {b : β}
    (h : x >>= k = .ok b) : ∃ a, x = .ok a ∧ k a = .ok b := by
  cases x with
  | error e => cases h
  | ok a => exact ⟨a, rfl, h⟩

/-- What a field is read from is a line, and the rest are further lines. -/
theorem readField_ok {header : String} {s : List Char}
    (h : (readField header ls).mapError (fun rc => (rc, ([] : List (List Char)))) = .ok (s, rest))
    (hlen : ∀ l ∈ ls, l.length < lineBufLen) :
    (chomp s).length < lineBufLen ∧ ∀ l ∈ rest, l.length < lineBufLen := by
  cases ls with
  | nil => cases h
  | cons line ls =>
    unfold readField at h
    dsimp only at h
    cases hs : skip (cString line) header.toList with
    | none =>
      rw [hs] at h
      cases h
    | some r =>
      rw [hs] at h
      cases h
      have h₁ := hlen line List.mem_cons_self
      have h₂ := skip_length hs
      have h₃ : (cString line).length ≤ line.length := (List.takeWhile_sublist _).length_le
      have h₄ := chomp_length s
      exact ⟨by omega, fun l hl => hlen l (List.mem_cons_of_mem line hl)⟩

/-- **What is read fits.** -/
theorem read_inFields {file : Option (List Char)} (h : readControlFile osAlloc file = .ok d) :
    d.InFields := by
  cases file with
  | none => cases h
  | some file =>
    -- no field is longer than the buffer of `fgets`
    have hlen : ∀ l ∈ lines lineBufLen file [], l.length < lineBufLen := fun l hl =>
      length_of_mem_lines (by decide) hl
    obtain ⟨⟨s₁, ls₁⟩, h₁, h⟩ := bind_ok h
    obtain ⟨hs₁, hlen⟩ := readField_ok h₁ hlen
    obtain ⟨⟨s₂, ls₂⟩, h₂, h⟩ := bind_ok h
    obtain ⟨hs₂, hlen⟩ := readField_ok h₂ hlen
    obtain ⟨⟨s₃, ls₃⟩, h₃, h⟩ := bind_ok h
    obtain ⟨hs₃, hlen⟩ := readField_ok h₃ hlen
    obtain ⟨⟨s₄, ls₄⟩, h₄, h⟩ := bind_ok h
    obtain ⟨⟨s₅, ls₅⟩, h₅, h⟩ := bind_ok h
    obtain ⟨recipList, h₆, h⟩ := bind_ok h
    cases h
    refine ⟨?_, hs₂, hs₃⟩
    dsimp only
    unfold lineBufLen at hs₁
    unfold osMaxFilenameLen
    omega

/-! ## Control files -/

/-- A failure leaves no recipients, and a record fits its fields. -/
def ReadsWell (r : Except (FileRc × List (List Char)) ControlFileData) : Prop :=
  LeavesNone r ∧ ∀ d, r = .ok d → d.InFields

/-- **Control files.** A record whose lines fit is read again as it was written if and only if its retry
time is a positive `long` and there is memory for its recipients; reading any file leaves no recipients
behind when it fails, and gives a record that fits its fields when it does not, if and only if no line
that is not one of a recipient comes after some that are. -/
theorem control_file_iff (osAlloc : ℕ → Bool) :
    (∀ d : ControlFileData, d.Fits →
      (readControlFile osAlloc (some (controlFileText d)) = .ok d ↔
        d.nextRetryTime.toNat < 2 ^ 31 ∧ ∀ i < d.recipList.length, osAlloc i = true)) ∧
    ∀ file : Option (List Char), ReadsWell (readControlFile osAlloc file) ↔
      ∀ text, file = some text → ¬StrayAfter osAlloc headers (lines lineBufLen text []) := by
  refine ⟨fun d hf => read_written_iff hf osAlloc, fun file => ?_⟩
  cases file with
  | none =>
    constructor
    · intro _ text h
      cases h
    · intro _
      refine ⟨fun rc left h => ?_, fun d h => ?_⟩
      · cases h
        rfl
      · cases h
  | some text =>
    constructor
    · rintro ⟨hleaves, -⟩ text' h
      obtain rfl := Option.some.inj h
      exact (read_leavesNone_iff osAlloc text).1 hleaves
    · intro h
      exact ⟨(read_leavesNone_iff osAlloc text).2 (h text rfl), fun d hd => read_inFields hd⟩

/-- A record with a retry time of 2147483648, in 2038. -/
def lateRetry : ControlFileData where
  dataFileName := "/spool/D1".toList
  originator := "a@b".toList
  messageId := "1@b".toList
  retries := 1
  nextRetryTime := 2147483648
  recipList := ["c@d".toList]

/-- A file whose seventh line is not one of a recipient. -/
def strayFile : List Char :=
  ("Data File Name: D\nOriginator: a\nMessage Id: 1\n" ++
    "Delivery Attempts: 0\nNext Retry: 0\nTo: c\nCc: d\n").toList

/-- The same record, to be retried a second before. -/
def retryInTime : ControlFileData := { lateRetry with nextRetryTime := 2147483647 }

theorem lateRetry_fits : lateRetry.Fits :=
  ⟨by decide +kernel, by decide +kernel, by decide +kernel, by decide +kernel⟩

theorem control_file_inTime :
    readControlFile (fun _ => true) (some (controlFileText retryInTime)) = .ok retryInTime :=
  have hfits : retryInTime.Fits := ⟨lateRetry_fits.dataFileName, lateRetry_fits.originator,
    lateRetry_fits.messageId, lateRetry_fits.recipList⟩
  ((control_file_iff fun _ => true).1 retryInTime hfits).2 ⟨by decide, fun _ _ => rfl⟩

/-- The retry time comes back as 2147483647; the recipient `c` stays allocated. -/
theorem control_file_defects :
    (readControlFile (fun _ => true) (some (controlFileText lateRetry))).toOption =
        some { lateRetry with nextRetryTime := 2147483647 } ∧
      readControlFile (fun _ => true) (some strayFile) = .error (.fail, ["c".toList]) := by
  constructor
  · rw [read_written lateRetry_fits, if_pos fun _ _ => rfl]
    rfl
  · unfold strayFile
    rw [String.toList_append, String.toList_ofList, String.toList_ofList]
    decide +kernel

end Mtsua
