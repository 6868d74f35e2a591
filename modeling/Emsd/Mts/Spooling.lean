import Emsd.Mts.FanOut
import Emsd.Mts.Lists
import Emsd.Tmr.Punctual

/-!
# Scanning a spool directory (`mtssubr.c`, `os_linux.c`)

At the start, `mts_buildTimerQueue` arms a timer for each control file of a directory;
`mts_spoolToDevice` takes up to 100 control files of new messages. Both stop at the first file that
cannot be read, and the delay that `mts_buildTimerQueue` has computed does not reach `TMR_start`.

* `built_iff`: the timers of the readable files.
* `scan_handles_iff`: the messages of the readable files.
* `StoreOk.takes`: a message store that is in order takes every message.
* `spool_scanning_iff`: **scanning is per file** if and only if no file that cannot be read comes before
  one that can, the calls for the files up to the last readable one succeed, and each of these is to be
  tried again at most a second after its timer is armed.
-/

namespace Mts.Spool

open Mtsua Tmr Text

/-- A control file that `scandir` has found, and what the calls for it do. -/
structure Entry where
  d_name : List Char
  /-- `OS_dirFindNext` has memory for the name. -/
  named : Bool := true
  /-- The contents when it is read; it may have vanished, or not be opened. -/
  contents : Option (List Char)
  osAlloc : ℕ → Bool := fun _ => true
  /-- `TMR_start` has memory for a timer. -/
  timerStart : Bool := true
  /-- The time that goes by until the timer is armed, in milliseconds. -/
  elapsed : ℕ := 0

/-- A directory; the entries are in the order of their names. -/
structure Directory where
  directoryName : List Char
  entries : List Entry
  nodup : (entries.map Entry.d_name).Nodup

/-- The directory of the new messages, for one pass. -/
structure NewMessageDir extends Directory where
  length_le : entries.length ≤ 100

/-! ## The code -/

/-- The name that `OS_dirFindNext` returns. -/
def returnedFileName (directoryName d_name : List Char) : List Char := directoryName ++ '/' :: d_name

/-- `timeToNextRetry` of `mts_buildTimerQueue`. -/
def timeToNextRetry (cfData : ControlFileData) (timeNow : UInt32) : UInt32 :=
  if cfData.nextRetryTime > timeNow then cfData.nextRetryTime - timeNow else 0

/-- A timer that has been armed. -/
structure Armed where
  timer : Timer
  /-- `hUserData1`. -/
  pFileName : List Char
  /-- The delay that was computed, and not used. -/
  timeToNextRetry : UInt32

/-- What `mts_buildTimerQueue` leaves behind. -/
structure Built where
  rc : Bool
  timers : Timers
  armed : List Armed := []

/-- The loop of `mts_buildTimerQueue`. -/
def buildLoop (directoryName : List Char) (timeNow : UInt32) : List Entry → Timers → Built
  | [], s => ⟨true, s, []⟩
  | e :: es, s =>
    -- every failure ends the loop, so that no later file gets a timer
    if !e.named then ⟨false, s, []⟩
    else
      match readControlFile e.osAlloc e.contents with
      | .error _ => ⟨false, s, []⟩
      | .ok cfData =>
        let s := { s with time := s.time + e.elapsed }
        if !e.timerStart then ⟨false, s, []⟩
        else
          -- TMR_SECONDS(1), whatever the delay is
          let (s, out) := s.start 1000 false
          let b := buildLoop directoryName timeNow es s
          { b with
            armed := (started out).map (⟨·, returnedFileName directoryName e.d_name,
              timeToNextRetry cfData timeNow⟩) ++ b.armed }

/-- `mts_buildTimerQueue`, for what `OS_dirOpen` and `OS_currentDateTime` do. -/
def mtsBuildTimerQueue (dirOpen : Bool) (currentDateTime : Option UInt32) (dir : Directory) (s : Timers) :
    Built :=
  if !dirOpen then ⟨false, s, []⟩
  else
    match currentDateTime with
    | none => ⟨false, s, []⟩
    | some timeNow => buildLoop dir.directoryName timeNow dir.entries s

/-- The record of a file, if the loops get it. -/
def Entry.record (e : Entry) : Option ControlFileData :=
  if e.named then (readControlFile e.osAlloc e.contents).toOption else none

/-- What a pass has done with a file: the message that it spooled, and the name that it deleted. -/
structure Handled where
  entry : Entry
  cfData : ControlFileData
  store : Store
  spooled : Spooled
  deletedName : List Char

/-- The loop of `mts_spoolToDevice`. -/
def spoolLoop (directoryName : List Char) (env : ℕ → FanEnv) : ℕ → List Entry → Store →
    Option (List Handled)
  | 0, _, _ => some []
  | _ + 1, [], _ => some []
  | count + 1, e :: es, s =>
    match e.record with
    -- `break`
    | none => some []
    | some cfData =>
      match spoolMessage (env count) cfData s with
      | none => none
      | some m => (spoolLoop directoryName env count es m.result.store).map
          (⟨e, cfData, s, m, returnedFileName directoryName e.d_name⟩ :: ·)

/-- `mts_spoolToDevice`, for what the `TMR_start` that calls it again and `OS_dirRewind` do. -/
def mtsSpoolToDevice (reschedule rewind : Bool) (env : ℕ → FanEnv) (dir : NewMessageDir) (s : Store) :
    Option (List Handled) :=
  if !(reschedule && rewind) then some []
  else spoolLoop dir.directoryName env 100 dir.entries s

/-! ## What it should do -/

/-- A control file that can be read, with this record. -/
def Entry.Reads (e : Entry) (d : ControlFileData) : Prop :=
  readControlFile (fun _ => true) e.contents = .ok d

/-- A timer carries the name of a file. -/
def Armed.carries (directoryName d_name : List Char) (a : Armed) : Bool :=
  a.pFileName = returnedFileName directoryName d_name

/-- Each readable file has one armed timer that carries its name, and is not due before its next retry
time. -/
def TimersBuilt (directoryName : List Char) (es : List Entry) (b : Built) : Prop :=
  ∀ e ∈ es, ∀ d, e.Reads d → ∃ a,
    b.armed.filter (Armed.carries directoryName e.d_name) = [a] ∧
      a.timer ∈ b.timers.timerQHead ∧ d.nextRetryTime.toNat * 1000 ≤ a.timer.due

def Handled.isOf (d_name : List Char) (h : Handled) : Bool := h.entry.d_name = d_name

/-- Each readable file is handled once, as a message with its record. -/
def HandledOnce (es : List Entry) (hs : List Handled) : Prop :=
  ∀ e ∈ es, ∀ d, e.Reads d → ∃ h, hs.filter (Handled.isOf e.d_name) = [h] ∧ h.cfData = d

/-- Each readable file is handled once, and no other one is deleted. -/
structure PassHandles (directoryName : List Char) (es : List Entry) (hs : List Handled) : Prop where
  once : HandledOnce es hs
  kept : ∀ e ∈ es, (¬∃ d, e.Reads d) → ∀ h ∈ hs, h.deletedName ≠ returnedFileName directoryName e.d_name

/-- A readable file comes here or behind. -/
def Ahead (es : List Entry) : Prop := ∃ e ∈ es, ∃ d, e.Reads d

/-- The calls for each file up to the last readable one succeed, and it is to be tried again at most a
second after its timer is armed; the first file is handled at this time. -/
def Armable : List Entry → ℕ → Prop
  | [], _ => True
  | e :: es, time =>
    (Ahead (e :: es) → e.timerStart = true ∧
      ∃ d, e.record = some d ∧ d.nextRetryTime.toNat * 1000 ≤ time + e.elapsed + 1000) ∧
    Armable es (time + e.elapsed)

/-- The calls for each file up to the last readable one succeed. -/
def Passable : List Entry → Prop
  | [] => True
  | e :: es => (Ahead (e :: es) → e.record ≠ none) ∧ Passable es

/-- The message store takes the messages one after the other; no pointer to memory that has been freed is
followed. -/
def Takes (env : ℕ → FanEnv) : ℕ → List ControlFileData → Store → Prop
  | 0, _, _ => True
  | _, [], _ => True
  | count + 1, d :: ds, s =>
    ∃ m, spoolMessage (env count) d s = some m ∧ Takes env count ds m.result.store

variable {directoryName : List Char} {timeNow : UInt32} {e : Entry} {es : List Entry}
  {d : ControlFileData} {s : Timers} {t : Store} {env : ℕ → FanEnv} {count : ℕ} {a : Armed} {h : Handled}

/-! ## The files -/

theorem returnedFileName_inj {m n : List Char}
    (h : returnedFileName directoryName m = returnedFileName directoryName n) : m = n :=
  (List.cons.inj (List.append_cancel_left h)).2

section

variable {α κ : Type} [DecidableEq κ] {key : α → κ} {k : κ} {x : α} {xs : List α}

/-- The first of a list has a name that no other one has. -/
theorem filter_first (hx : key x = k) (hxs : ∀ y ∈ xs, key y ≠ k) :
    (x :: xs).filter (fun y => key y = k) = [x] := by
  have hrest : xs.filter (fun y => key y = k) = [] :=
    List.filter_eq_nil_iff.2 fun y hy heq => hxs y hy (of_decide_eq_true heq)
  rw [List.filter_cons_of_pos (p := fun y => decide (key y = k)) (decide_eq_true hx), hrest]

theorem filter_others (hx : key x ≠ k) :
    (x :: xs).filter (fun y => key y = k) = xs.filter fun y => key y = k :=
  List.filter_cons_of_neg fun heq => hx (of_decide_eq_true heq)

end

/-- Recipients that there is memory for are read alike with any memory. -/
theorem readRecips_mono {osAlloc : ℕ → Bool} {ls r acc : List (List Char)}
    (h : readRecips osAlloc ls acc = .ok r) : readRecips (fun _ => true) ls acc = .ok r := by
  induction ls generalizing acc with
  | nil => exact h
  | cons line ls ih =>
    unfold readRecips at h ⊢
    cases hskip : skip (cString line) "To: ".toList with
    | none =>
      rw [hskip] at h
      cases h
    | some s =>
      rw [hskip] at h
      dsimp only at h ⊢
      split at h
      · exact ih h
      · cases h

theorem ok_bind {ε α β : Type} {x : Except ε α} {k : α → Except ε β} {a : α} {b : β} (hx : x = .ok a)
    (hk : k a = .ok b) : x >>= k = .ok b := by
  rw [hx]
  exact hk

theorem readControlFile_mono {osAlloc : ℕ → Bool} {file : Option (List Char)}
    (h : readControlFile osAlloc file = .ok d) : readControlFile (fun _ => true) file = .ok d := by
  cases file with
  | none => cases h
  | some file =>
    obtain ⟨r₁, h₁, h⟩ := bind_ok h
    obtain ⟨r₂, h₂, h⟩ := bind_ok h
    obtain ⟨r₃, h₃, h⟩ := bind_ok h
    obtain ⟨r₄, h₄, h⟩ := bind_ok h
    obtain ⟨r₅, h₅, h⟩ := bind_ok h
    obtain ⟨recipList, h₆, h⟩ := bind_ok h
    -- only the recipients need memory
    exact ok_bind h₁ (ok_bind h₂ (ok_bind h₃ (ok_bind h₄ (ok_bind h₅
      (ok_bind (readRecips_mono h₆) h)))))

theorem record_some : e.record = some d ↔
    e.named = true ∧ readControlFile e.osAlloc e.contents = .ok d := by
  unfold Entry.record
  by_cases hnamed : e.named = true
  · rw [if_pos hnamed]
    cases readControlFile e.osAlloc e.contents with
    | error rc => simp [Except.toOption]
    | ok cfData => simp [Except.toOption, hnamed]
  · rw [if_neg hnamed]
    simp [hnamed]

/-- **What the loops get is what is in the file.** -/
theorem reads_of_record (h : e.record = some d) : e.Reads d := readControlFile_mono (record_some.1 h).2

theorem Entry.Reads.unique {d' : ControlFileData} (h : e.Reads d) (h' : e.Reads d') : d = d' :=
  Except.ok.inj (h.symm.trans h')

theorem ahead_cons : Ahead (e :: es) ↔ (∃ d, e.Reads d) ∨ Ahead es := by
  unfold Ahead
  simp

theorem not_ahead_of_kept (h : ¬Ahead (e :: es)) : (¬∃ d, e.Reads d) ∧ ¬Ahead es := by
  rw [ahead_cons] at h
  exact not_or.1 h

/-! ## The timers -/

/-- The delay that was computed would be enough. -/
theorem timeToNextRetry_enough (cfData : ControlFileData) (timeNow : UInt32) :
    cfData.nextRetryTime.toNat ≤ timeNow.toNat + (timeToNextRetry cfData timeNow).toNat := by
  unfold timeToNextRetry
  split
  · rename_i hlater
    rw [UInt32.toNat_sub_of_le _ _ (UInt32.le_of_lt hlater)]
    omega
  · rename_i hnot
    have hle : cfData.nextRetryTime ≤ timeNow := UInt32.not_lt.1 hnot
    rw [UInt32.le_iff_toNat_le] at hle
    omega

/-- No file of a list without readable ones is asked for. -/
theorem armable_of_not_ahead {time : ℕ} (h : ¬Ahead es) : Armable es time := by
  induction es generalizing time with
  | nil => trivial
  | cons e es ih => exact ⟨fun hahead => absurd hahead h, ih (not_ahead_of_kept h).2⟩

/-- The timer of a file. -/
def armedTimer (s : Timers) : Timer := ⟨s.obtained, currentTime s.time + 1000, false, s.time, 1000⟩

/-- A file that is read and gets its timer. -/
theorem buildLoop_armed (directoryName : List Char) (timeNow : UInt32) (es : List Entry) (s : Timers)
    (hrecord : e.record = some d) (htimer : e.timerStart = true) :
    ∃ u : Timers, u = (Timers.start { s with time := s.time + e.elapsed } 1000 false).1 ∧
      (buildLoop directoryName timeNow (e :: es) s).timers =
        (buildLoop directoryName timeNow es u).timers ∧
      (buildLoop directoryName timeNow (e :: es) s).armed =
        ⟨armedTimer { s with time := s.time + e.elapsed }, returnedFileName directoryName e.d_name,
          timeToNextRetry d timeNow⟩ :: (buildLoop directoryName timeNow es u).armed := by
  obtain ⟨hnamed, hread⟩ := record_some.1 hrecord
  refine ⟨_, rfl, ?_⟩
  rw [buildLoop, hnamed, hread, htimer]
  exact ⟨rfl, rfl⟩

/-- The loop ends at a file that is not read, or gets no timer. -/
theorem buildLoop_stops (h : ¬(e.record ≠ none ∧ e.timerStart = true)) :
    (buildLoop directoryName timeNow (e :: es) s).armed = [] := by
  rw [buildLoop]
  by_cases hnamed : e.named = true
  · rw [hnamed, if_neg (by decide)]
    cases hread : readControlFile e.osAlloc e.contents with
    | error rc => rfl
    | ok cfData =>
      have htimer : e.timerStart = false := by
        rw [record_some.2 ⟨hnamed, hread⟩] at h
        simpa using h
      dsimp only
      rw [htimer]
      rfl
  · rw [if_pos (by simpa using hnamed)]

/-- The names of the timers are names of files. -/
theorem armed_names : ∀ a ∈ (buildLoop directoryName timeNow es s).armed,
    ∃ e ∈ es, a.pFileName = returnedFileName directoryName e.d_name := by
  induction es generalizing s with
  | nil =>
    intro a ha
    cases ha
  | cons e es ih =>
    intro a ha
    by_cases hgoes : e.record ≠ none ∧ e.timerStart = true
    · obtain ⟨d, hd⟩ := Option.ne_none_iff_exists'.1 hgoes.1
      obtain ⟨u, -, -, harmed⟩ := buildLoop_armed directoryName timeNow es s hd hgoes.2
      rw [harmed] at ha
      rcases List.mem_cons.1 ha with rfl | ha
      · exact ⟨e, List.mem_cons_self, rfl⟩
      · obtain ⟨e', he', hname⟩ := ih a ha
        exact ⟨e', List.mem_cons_of_mem e he', hname⟩
    · rw [buildLoop_stops hgoes] at ha
      cases ha

/-- No timer leaves the queue. -/
theorem buildLoop_keeps {q : Timer} (hq : q ∈ s.timerQHead) :
    q ∈ (buildLoop directoryName timeNow es s).timers.timerQHead := by
  induction es generalizing s with
  | nil => exact hq
  | cons e es ih =>
    rw [buildLoop]
    split
    · exact hq
    · split
      · exact hq
      · dsimp only
        split
        · exact hq
        · apply ih
          exact (List.mem_orderedInsert _).2 (.inr hq)

/-- Without timers, there must be nothing to arm. -/
theorem timersBuilt_none {b : Built} (hb : b.armed = []) :
    TimersBuilt directoryName es b ↔ ¬Ahead es := by
  constructor
  · rintro h ⟨e, he, d, hd⟩
    obtain ⟨a, ha, -⟩ := h e he d hd
    rw [hb] at ha
    cases ha
  · intro h e he d hd
    exact absurd ⟨e, he, d, hd⟩ h

/-- A timer at the front is that of the first file, and no other file has its name. -/
theorem timersBuilt_cons {b b' : Built} (hreads : e.Reads d) (hname : a.pFileName =
      returnedFileName directoryName e.d_name) (hfresh : e.d_name ∉ es.map Entry.d_name)
    (hb : b.armed = a :: b'.armed) (hq : b.timers = b'.timers) (hin : a.timer ∈ b.timers.timerQHead)
    (hnames : ∀ a ∈ b'.armed, ∃ e ∈ es, a.pFileName = returnedFileName directoryName e.d_name) :
    TimersBuilt directoryName (e :: es) b ↔
      d.nextRetryTime.toNat * 1000 ≤ a.timer.due ∧ TimersBuilt directoryName es b' := by
  have hself : b.armed.filter (Armed.carries directoryName e.d_name) = [a] := by
    rw [hb]
    refine filter_first hname fun a' ha' heq => ?_
    obtain ⟨e', he', hname'⟩ := hnames a' ha'
    have hsame := returnedFileName_inj (hname'.symm.trans heq)
    exact hfresh (hsame ▸ List.mem_map_of_mem he')
  have hothers : ∀ e' ∈ es,
      b.armed.filter (Armed.carries directoryName e'.d_name) =
        b'.armed.filter (Armed.carries directoryName e'.d_name) := by
    intro e' he'
    rw [hb]
    refine filter_others fun heq => ?_
    have hsame := returnedFileName_inj (hname.symm.trans heq)
    exact hfresh (hsame ▸ List.mem_map_of_mem he')
  constructor
  · intro h
    constructor
    · obtain ⟨a', ha', -, hdue⟩ := h e List.mem_cons_self d hreads
      rw [hself] at ha'
      obtain rfl := (List.cons.inj ha').1
      exact hdue
    · intro e' he' d' hd'
      obtain ⟨a', ha', hin', hdue⟩ := h e' (List.mem_cons_of_mem e he') d' hd'
      exact ⟨a', (hothers e' he').symm.trans ha', hq ▸ hin', hdue⟩
  · rintro ⟨hdue, h⟩ e' he' d' hd'
    rcases List.mem_cons.1 he' with rfl | he'
    · obtain rfl := hreads.unique hd'
      exact ⟨a, hself, hin, hdue⟩
    · obtain ⟨a', ha', hin', hdue'⟩ := h e' he' d' hd'
      exact ⟨a', (hothers e' he').trans ha', hq.symm ▸ hin', hdue'⟩

/-- **The timers of the readable files.** -/
theorem built_iff (hnodup : (es.map Entry.d_name).Nodup) :
    TimersBuilt directoryName es (buildLoop directoryName timeNow es s) ↔ Armable es s.time := by
  induction es generalizing s with
  | nil =>
    refine iff_of_true ?_ trivial
    intro e he
    cases he
  | cons e es ih =>
    obtain ⟨hfresh, hnodup⟩ := List.nodup_cons.1 hnodup
    by_cases hgoes : e.record ≠ none ∧ e.timerStart = true
    · obtain ⟨d, hd⟩ := Option.ne_none_iff_exists'.1 hgoes.1
      -- the file is read and gets its timer, with which the rest goes on
      obtain ⟨u, hu, htimers, harmed⟩ := buildLoop_armed directoryName timeNow es s hd hgoes.2
      have htime : u.time = s.time + e.elapsed := by
        rw [hu]
        rfl
      have hin : armedTimer { s with time := s.time + e.elapsed } ∈
          (buildLoop directoryName timeNow (e :: es) s).timers.timerQHead := by
        rw [htimers]
        apply buildLoop_keeps
        rw [hu]
        exact (List.mem_orderedInsert _).2 (.inl rfl)
      have hdue : (armedTimer { s with time := s.time + e.elapsed }).due = s.time + e.elapsed + 1000 := rfl
      rw [timersBuilt_cons (reads_of_record hd) rfl hfresh harmed htimers hin armed_names, ih hnodup,
        htime, hdue]
      constructor
      · rintro ⟨htime, harmable⟩
        exact ⟨fun _ => ⟨hgoes.2, d, hd, htime⟩, harmable⟩
      · rintro ⟨hfirst, harmable⟩
        obtain ⟨-, d', hd', htime⟩ := hfirst ⟨e, List.mem_cons_self, d, reads_of_record hd⟩
        obtain rfl : d = d' := Option.some.inj (hd.symm.trans hd')
        exact ⟨htime, harmable⟩
    · -- the loop ends here
      rw [timersBuilt_none (buildLoop_stops hgoes)]
      constructor
      · exact armable_of_not_ahead
      · rintro ⟨hfirst, -⟩ hahead
        obtain ⟨htimer, d, hd, -⟩ := hfirst hahead
        exact hgoes ⟨by rw [hd]; exact Option.some_ne_none d, htimer⟩

/-! ## The messages -/

theorem passable_of_not_ahead (h : ¬Ahead es) : Passable es ∧ es.filterMap Entry.record = [] := by
  induction es with
  | nil => exact ⟨trivial, rfl⟩
  | cons e es ih =>
    obtain ⟨hunread, hrest⟩ := not_ahead_of_kept h
    obtain ⟨hpassable, hnil⟩ := ih hrest
    have hnone : e.record = none := by
      cases hrecord : e.record with
      | none => rfl
      | some d => exact absurd ⟨d, reads_of_record hrecord⟩ hunread
    refine ⟨⟨fun hahead => absurd hahead h, hpassable⟩, ?_⟩
    rw [List.filterMap_cons_none hnone, hnil]

theorem spoolLoop_ends (hrecord : e.record = none) :
    spoolLoop directoryName env (count + 1) (e :: es) t = some [] := by
  rw [spoolLoop, hrecord]

theorem spoolLoop_goes (hrecord : e.record = some d) :
    spoolLoop directoryName env (count + 1) (e :: es) t =
      (spoolMessage (env count) d t).bind fun m =>
        (spoolLoop directoryName env count es m.result.store).map
          (⟨e, d, t, m, returnedFileName directoryName e.d_name⟩ :: ·) := by
  rw [spoolLoop, hrecord]
  dsimp only
  cases spoolMessage (env count) d t with
  | none => rfl
  | some m => rfl

/-- What has been handled. -/
theorem handled_spec {hs : List Handled} (hrun : spoolLoop directoryName env count es t = some hs) :
    ∀ h ∈ hs, h.entry ∈ es ∧ h.entry.record = some h.cfData ∧
      h.deletedName = returnedFileName directoryName h.entry.d_name := by
  induction es generalizing count t hs with
  | nil =>
    cases count with
    | zero =>
      obtain rfl := Option.some.inj hrun
      simp
    | succ count =>
      obtain rfl := Option.some.inj hrun
      simp
  | cons e es ih =>
    cases count with
    | zero =>
      obtain rfl := Option.some.inj hrun
      simp
    | succ count =>
      cases hrecord : e.record with
      | none =>
        rw [spoolLoop_ends hrecord] at hrun
        obtain rfl := Option.some.inj hrun
        simp
      | some d =>
        rw [spoolLoop_goes hrecord] at hrun
        obtain ⟨m, -, hmap⟩ := Option.bind_eq_some_iff.1 hrun
        obtain ⟨hs', hrun', rfl⟩ := Option.map_eq_some_iff.1 hmap
        intro h hh
        rcases List.mem_cons.1 hh with rfl | hh
        · exact ⟨List.mem_cons_self, hrecord, rfl⟩
        · obtain ⟨hin, hrec, hname⟩ := ih hrun' h hh
          exact ⟨List.mem_cons_of_mem e hin, hrec, hname⟩

/-- **A file that cannot be read is not deleted.** -/
theorem handled_kept (hnodup : (es.map Entry.d_name).Nodup) {hs : List Handled}
    (hrun : spoolLoop directoryName env count es t = some hs) :
    ∀ e ∈ es, (¬∃ d, e.Reads d) → ∀ h ∈ hs, h.deletedName ≠ returnedFileName directoryName e.d_name := by
  intro e he hunread h hh heq
  obtain ⟨hin, hrecord, hname⟩ := handled_spec hrun h hh
  have hsame := returnedFileName_inj (hname.symm.trans heq)
  -- the names in the directory are distinct
  obtain rfl : h.entry = e := List.inj_on_of_nodup_map hnodup hin he hsame
  exact hunread ⟨_, reads_of_record hrecord⟩

theorem handledOnce_none : HandledOnce es [] ↔ ¬Ahead es := by
  constructor
  · rintro h ⟨e, he, d, hd⟩
    obtain ⟨x, hx, -⟩ := h e he d hd
    cases hx
  · intro h e he d hd
    exact absurd ⟨e, he, d, hd⟩ h

/-- The first file has been handled. -/
theorem handledOnce_cons {hs : List Handled} (hrecord : e.record = some d) (hentry : h.entry = e)
    (hdata : h.cfData = d) (hfresh : e.d_name ∉ es.map Entry.d_name) (hnames : ∀ h ∈ hs, h.entry ∈ es) :
    HandledOnce (e :: es) (h :: hs) ↔ HandledOnce es hs := by
  have hothers : ∀ e' ∈ es, (h :: hs).filter (Handled.isOf e'.d_name) =
      hs.filter (Handled.isOf e'.d_name) := by
    intro e' he'
    refine filter_others fun hsame => ?_
    rw [hentry] at hsame
    exact hfresh (hsame ▸ List.mem_map_of_mem he')
  constructor
  · intro honce e' he' d' hd'
    obtain ⟨x, hx, hxd⟩ := honce e' (List.mem_cons_of_mem e he') d' hd'
    exact ⟨x, (hothers e' he').symm.trans hx, hxd⟩
  · intro honce e' he' d' hd'
    rcases List.mem_cons.1 he' with rfl | he'
    · refine ⟨h, ?_, hdata.trans ((reads_of_record hrecord).unique hd')⟩
      refine filter_first (congrArg Entry.d_name hentry) fun x hx hsame => ?_
      exact hfresh (hsame ▸ List.mem_map_of_mem (hnames x hx))
    · obtain ⟨x, hx, hxd⟩ := honce e' he' d' hd'
      exact ⟨x, (hothers e' he').trans hx, hxd⟩

/-- **The messages of the readable files.** -/
theorem scan_iff (hnodup : (es.map Entry.d_name).Nodup) (hlength : es.length ≤ count) :
    (∃ hs, spoolLoop directoryName env count es t = some hs ∧ HandledOnce es hs) ↔
      Passable es ∧ Takes env count (es.filterMap Entry.record) t := by
  induction es generalizing count t with
  | nil =>
    refine iff_of_true ⟨[], ?_, ?_⟩ ⟨trivial, ?_⟩
    · cases count <;> rfl
    · intro e he
      cases he
    · cases count <;> trivial
  | cons e es ih =>
    obtain ⟨hfresh, hnodup⟩ := List.nodup_cons.1 hnodup
    obtain ⟨count, rfl⟩ : ∃ c, count = c + 1 := ⟨count - 1, by simp at hlength; omega⟩
    have hlength : es.length ≤ count := Nat.le_of_succ_le_succ hlength
    cases hrecord : e.record with
    | none =>
      -- the pass ends here
      rw [spoolLoop_ends hrecord]
      have hleft : (∃ hs, (some [] : Option (List Handled)) = some hs ∧ HandledOnce (e :: es) hs) ↔
          ¬Ahead (e :: es) := by
        rw [← handledOnce_none]
        constructor
        · rintro ⟨hs, hhs, honce⟩
          obtain rfl := Option.some.inj hhs
          exact honce
        · exact fun honce => ⟨[], rfl, honce⟩
      refine hleft.trans ⟨fun hno => ?_, fun hpass hahead => hpass.1.1 hahead hrecord⟩
      obtain ⟨hpassable, hnil⟩ := passable_of_not_ahead hno
      rw [hnil]
      exact ⟨hpassable, trivial⟩
    | some d =>
      rw [List.filterMap_cons_some hrecord, spoolLoop_goes hrecord]
      cases hm : spoolMessage (env count) d t with
      | none =>
        refine iff_of_false ?_ ?_
        · rintro ⟨hs, hhs, -⟩
          cases hhs
        · rintro ⟨-, m, hm', -⟩
          rw [hm] at hm'
          cases hm'
      | some m =>
        have hpassable : Passable (e :: es) ↔ Passable es :=
          and_iff_right fun _ hnone => Option.some_ne_none d (hrecord.symm.trans hnone)
        have htakes : Takes env (count + 1) (d :: es.filterMap Entry.record) t ↔
            Takes env count (es.filterMap Entry.record) m.result.store := by
          constructor
          · rintro ⟨m', hm', htakes⟩
            obtain rfl := Option.some.inj (hm.symm.trans hm')
            exact htakes
          · exact fun htakes => ⟨m, hm, htakes⟩
        rw [hpassable, htakes, ← ih hnodup hlength]
        constructor
        · rintro ⟨hs, hhs, honce⟩
          obtain ⟨hs', hrun, rfl⟩ := Option.map_eq_some_iff.1 hhs
          refine ⟨hs', hrun, ?_⟩
          exact (handledOnce_cons hrecord rfl rfl hfresh fun h hh => (handled_spec hrun h hh).1).1 honce
        · rintro ⟨hs', hrun, honce⟩
          refine ⟨_, Option.map_eq_some_iff.2 ⟨hs', hrun, rfl⟩, ?_⟩
          exact (handledOnce_cons hrecord rfl rfl hfresh fun h hh => (handled_spec hrun h hh).1).2 honce

/-- The messages are those of the loop over the records. -/
theorem spoolLoop_records (directoryName : List Char) (env : ℕ → FanEnv) (count : ℕ) (es : List Entry)
    (t : Store) : (spoolLoop directoryName env count es t).map
        (List.map fun h => (h.cfData, h.store, h.spooled)) =
      Mts.mtsSpoolToDevice env count (es.map Entry.record) t := by
  induction es generalizing count t with
  | nil =>
    cases count with
    | zero => rfl
    | succ count => rfl
  | cons e es ih =>
    cases count with
    | zero => rfl
    | succ count =>
      rw [List.map_cons]
      cases hrecord : e.record with
      | none =>
        rw [spoolLoop_ends hrecord]
        rfl
      | some d =>
        rw [spoolLoop_goes hrecord, Mts.mtsSpoolToDevice]
        cases spoolMessage (env count) d t with
        | none => rfl
        | some m =>
          dsimp only [Option.bind_some]
          rw [← ih count m.result.store, Option.map_map, Option.map_map]
          rfl

/-! ## The message store -/

/-- **A store that is in order takes a message for any recipients.** -/
theorem storeOk_msgAddMessage (pMsgId pOriginator : String) (recips : List Recipient) (deliveryCount : ℕ)
    (ht : StoreOk t) :
    ∃ u, msgAddMessage pMsgId pOriginator recips deliveryCount t = some u ∧ StoreOk u := by
  induction recips generalizing deliveryCount t with
  | nil => exact ⟨t, rfl, ht⟩
  | cons r recips ih =>
    unfold msgAddMessage
    by_cases hlocal : r.emsdAddr = 0
    · rw [if_pos hlocal]
      exact ih deliveryCount ht
    · rw [if_neg hlocal]
      cases hqueue : dqGetRecipQueue t r.emsdAddr r.sub r.now with
      | none => exact ih deliveryCount ht
      | some v =>
        -- the queue is there, or it has been made
        have hv : StoreOk v ∧ ∃ q, v.recip r.emsdAddr = some q := by
          unfold dqGetRecipQueue at hqueue
          split at hqueue
          · rename_i q hq
            obtain rfl := Option.some.inj hqueue
            exact ⟨ht, q, hq⟩
          · rename_i hnone
            obtain ⟨profile, -, rfl⟩ := Option.map_eq_some_iff.1 hqueue
            exact ⟨dqGetRecipQueue_new ht hnone rfl, _, Function.update_self ..⟩
        obtain ⟨hok, q, hq⟩ := hv
        obtain ⟨u, hu, hadded⟩ := dqAddMessage_spec hok hq pMsgId pOriginator r.now
        have huok : StoreOk u := hadded.storeOk hok hq rfl rfl
        dsimp only
        rw [hu]
        by_cases hmany : deliveryCount + 1 > 32
        · exact ⟨u, if_pos hmany, huok⟩
        · obtain ⟨w, hw, hwok⟩ := ih (deliveryCount + 1) huok
          exact ⟨w, (if_neg hmany).trans hw, hwok⟩

/-- **A store that is in order takes the messages of a pass.** -/
theorem storeOk_takes (env : ℕ → FanEnv) (count : ℕ) (ds : List ControlFileData) (ht : StoreOk t) :
    Takes env count ds t := by
  induction ds generalizing count t with
  | nil => cases count <;> trivial
  | cons d ds ih =>
    cases count with
    | zero => trivial
    | succ count =>
      obtain ⟨u, hu, hok⟩ := storeOk_msgAddMessage (.ofList d.messageId) (.ofList d.originator)
        ((recips d ++ [Elem.head]).map (storeRecipient (env count) d)) 0 ht
      have hstore : (runList (env count) d (recips d ++ [.head]) { store := t }).map (·.store) = some u :=
        (runList_store (recips d ++ [.head]) { store := t }).trans hu
      obtain ⟨r, hr, rfl⟩ := Option.map_eq_some_iff.1 hstore
      refine ⟨⟨r, r.deliveryCount > 0, true⟩, ?_, ih count hok⟩
      unfold spoolMessage
      rw [addLoop_eq, hr]
      rfl

/-! ## Results -/

/-- **The timers are built** where the calls before the loop succeed, if there is a file to be read. -/
theorem buildTimerQueue_iff (dirOpen : Bool) (currentDateTime : Option UInt32) (dir : Directory)
    (s : Timers) :
    TimersBuilt dir.directoryName dir.entries (mtsBuildTimerQueue dirOpen currentDateTime dir s) ↔
      (Ahead dir.entries → dirOpen = true ∧ currentDateTime ≠ none) ∧ Armable dir.entries s.time := by
  unfold mtsBuildTimerQueue
  cases dirOpen with
  | false =>
    refine (timersBuilt_none rfl).trans ⟨fun hno => ?_, fun h hahead => ?_⟩
    · exact ⟨fun hahead => absurd hahead hno, armable_of_not_ahead hno⟩
    · exact absurd (h.1 hahead).1 (by decide)
  | true =>
    cases currentDateTime with
    | none =>
      refine (timersBuilt_none rfl).trans ⟨fun hno => ?_, fun h hahead => ?_⟩
      · exact ⟨fun hahead => absurd hahead hno, armable_of_not_ahead hno⟩
      · exact absurd rfl (h.1 hahead).2
    | some timeNow =>
      refine (built_iff dir.nodup).trans ⟨fun h => ⟨fun _ => ⟨rfl, ?_⟩, h⟩, fun h => h.2⟩
      exact Option.some_ne_none timeNow

/-- **A pass handles the readable files** where the calls before the loop succeed, if there is one. -/
theorem scan_handles_iff (reschedule rewind : Bool) (env : ℕ → FanEnv) (dir : NewMessageDir) (t : Store) :
    (∃ hs, mtsSpoolToDevice reschedule rewind env dir t = some hs ∧
      PassHandles dir.directoryName dir.entries hs) ↔
    (Ahead dir.entries → reschedule = true ∧ rewind = true) ∧ Passable dir.entries ∧
      Takes env 100 (dir.entries.filterMap Entry.record) t := by
  unfold mtsSpoolToDevice
  by_cases hcalls : reschedule = true ∧ rewind = true
  · have hboth : (!(reschedule && rewind)) = false := by
      rw [hcalls.1, hcalls.2]
      rfl
    have hscan : (∃ hs, spoolLoop dir.directoryName env 100 dir.entries t = some hs ∧
        HandledOnce dir.entries hs) ↔
          Passable dir.entries ∧ Takes env 100 (dir.entries.filterMap Entry.record) t :=
      scan_iff dir.nodup dir.length_le
    rw [hboth, if_neg (by decide), ← hscan]
    constructor
    · rintro ⟨hs, hrun, hpass⟩
      exact ⟨fun _ => hcalls, hs, hrun, hpass.once⟩
    · rintro ⟨-, hs, hrun, honce⟩
      exact ⟨hs, hrun, honce, handled_kept dir.nodup hrun⟩
  · have hboth : (!(reschedule && rewind)) = true := by
      cases reschedule with
      | false => rfl
      | true => simpa using hcalls
    rw [hboth, if_pos rfl]
    constructor
    · rintro ⟨hs, hrun, hpass⟩
      obtain rfl := Option.some.inj hrun
      have hno := handledOnce_none.1 hpass.once
      obtain ⟨hpassable, hnil⟩ := passable_of_not_ahead hno
      rw [hnil]
      exact ⟨fun hahead => absurd hahead hno, hpassable, trivial⟩
    · rintro ⟨hneeds, -⟩
      refine ⟨[], rfl, handledOnce_none.2 fun hahead => hcalls (hneeds hahead), ?_⟩
      intro e _ _ h hh
      cases hh

/-- **Spool scanning.** For every directory, whatever its files and the calls for them: each readable
control file gets one timer, with its name and not before its next retry time, if and only if the calls up
to the last readable file succeed, which includes that each file there can be read, and each of these is
to be tried again at most a second after its timer is armed. A pass handles each readable file once, and
deletes no other one, if and only if the calls up to the last readable file succeed and the message store
takes the messages. -/
theorem spool_scanning_iff (dirOpen : Bool) (currentDateTime : Option UInt32) (dir : Directory)
    (s : Timers) (reschedule rewind : Bool) (env : ℕ → FanEnv) (newDir : NewMessageDir) (t : Store) :
    (TimersBuilt dir.directoryName dir.entries (mtsBuildTimerQueue dirOpen currentDateTime dir s) ↔
      (Ahead dir.entries → dirOpen = true ∧ currentDateTime ≠ none) ∧ Armable dir.entries s.time) ∧
    ((∃ hs, mtsSpoolToDevice reschedule rewind env newDir t = some hs ∧
        PassHandles newDir.directoryName newDir.entries hs) ↔
      (Ahead newDir.entries → reschedule = true ∧ rewind = true) ∧ Passable newDir.entries ∧
        Takes env 100 (newDir.entries.filterMap Entry.record) t) :=
  ⟨buildTimerQueue_iff dirOpen currentDateTime dir s,
    scan_handles_iff reschedule rewind env newDir t⟩

/-- A control file that is to be tried again after two hours. -/
def waitingText : List Char :=
  ("Data File Name: D\nOriginator: a\nMessage Id: 1\n" ++
    "Delivery Attempts: 0\nNext Retry: 7200\nTo: c\n").toList

/-- A file that has vanished, in front of a readable one. -/
def vanished : Directory :=
  ⟨"/spool".toList, [⟨"C_1".toList, true, none, fun _ => true, true, 0⟩,
    ⟨"C_2".toList, true, some waitingText, fun _ => true, true, 0⟩], by decide⟩

/-- The readable file alone. -/
def waiting : Directory :=
  ⟨"/spool".toList, [⟨"C_2".toList, true, some waitingText, fun _ => true, true, 0⟩], by decide⟩

/-- There are no subscribers. -/
def noSubscribers : FanEnv := ⟨fun _ => none, fun _ => 1, fun _ => true, []⟩

/-- The record of the file. -/
def waitingRecord : ControlFileData := ⟨"D".toList, "a".toList, "1".toList, 0, 7200, ["c".toList]⟩

theorem waiting_reads : readControlFile (fun _ => true) (some waitingText) = .ok waitingRecord := by
  unfold waitingText
  rw [String.toList_append, String.toList_ofList, String.toList_ofList]
  decide +kernel

/-- **One bad file in front**: the readable file behind it gets no timer and is not handled; and alone it
gets a timer that is due an hour too early. -/
theorem spool_scanning_stops :
    ¬TimersBuilt "/spool".toList vanished.entries (mtsBuildTimerQueue true (some 0) vanished {}) ∧
    (¬∃ hs, mtsSpoolToDevice true true (fun _ => noSubscribers) ⟨vanished, by decide⟩ {} = some hs ∧
      PassHandles "/spool".toList vanished.entries hs) ∧
    ¬TimersBuilt "/spool".toList waiting.entries
      (mtsBuildTimerQueue true (some 3600) waiting { time := 3600000 }) := by
  have hahead : Ahead vanished.entries :=
    ⟨_, List.mem_cons_of_mem _ List.mem_cons_self, waitingRecord, waiting_reads⟩
  refine ⟨?_, ?_, ?_⟩
  · intro h
    obtain ⟨-, harmable⟩ := (buildTimerQueue_iff true (some 0) vanished {}).1 h
    obtain ⟨-, d, hd, -⟩ := harmable.1 hahead
    cases hd
  · intro h
    obtain ⟨-, hpassable, -⟩ := (scan_handles_iff true true _ ⟨vanished, by decide⟩ {}).1 h
    exact hpassable.1 hahead rfl
  · intro h
    obtain ⟨-, harmable⟩ := (buildTimerQueue_iff true (some 3600) waiting { time := 3600000 }).1 h
    obtain ⟨-, d, hd, hsoon⟩ := harmable.1 ⟨_, List.mem_cons_self, waitingRecord, waiting_reads⟩
    have hread := reads_of_record hd
    obtain rfl : waitingRecord = d := Except.ok.inj (waiting_reads.symm.trans hread)
    -- 7200 seconds are not 3601
    revert hsoon
    decide

end Mts.Spool
