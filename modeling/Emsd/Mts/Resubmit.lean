import Emsd.Mtsua.ControlFile

/-!
# Trying to submit again (`mtssubr.c`)

`mts_tryRfc822Submit` gives a spooled message to the mailer, and is to try again later if that fails.

* `retry_keeps_iff`: **the message is kept** until it is handed over or reported if and only if it is
  handed over at once: the code that deletes the files has lost its `else`.
* `retry_loses`: the retry timer is armed for a file that has just been deleted.
-/

namespace Mts

open Mtsua

/-- The results of the calls. -/
structure ResubmitEnv where
  /-- The control file and the data file can be opened, if they exist. -/
  controlFileOpen : Bool := true
  dataFileOpen : Bool := true
  osAlloc : ℕ → Bool := fun _ => true
  /-- What `dataFileName` holds when the control file could not be read. -/
  stale : List Char := []
  /-- `mts_sendMessage` returns `Success`: the message has been handed over. -/
  sendMessage : Bool
  write : WriteEnv
  timerStart : Bool := true
  /-- `OS_deleteFile` can delete a file. -/
  deleteFile : List Char → Bool := fun _ => true

/-- What has become of a message. -/
structure Resubmission where
  files : Files
  /-- The buffer of the control file's name. -/
  pControlFileName : List Char
  /-- How often the buffer has been freed. -/
  freed : ℕ := 0
  handedOver : Bool := false
  /-- The non-delivery reports that have been issued. -/
  reports : ℕ := 0
  /-- The file for which the retry timer is armed, by the name in the buffer. -/
  armed : Option (List Char) := none

/-- `OS_deleteFile`. -/
def osDeleteFile (env : ResubmitEnv) (files : Files) (name : List Char) : Files :=
  if env.deleteFile name then Function.update files name none else files

/-- `mts_rfc822SubmitNonDel`, which is not yet implemented. -/
def mtsRfc822SubmitNonDel (r : Resubmission) : Resubmission := r

/-- The code at `cleanUp`. The files are deleted whatever the return code is. -/
def cleanUp (env : ResubmitEnv) (dataFileName : List Char) (r : Resubmission) : Resubmission :=
  { r with
    files := osDeleteFile env (osDeleteFile env r.files dataFileName) r.pControlFileName
    freed := r.freed + 1 }

/-- `mts_tryRfc822Submit`. -/
def mtsTryRfc822Submit (numRetryTimes : UInt16) (env : ResubmitEnv) (files : Files)
    (pControlFileName : List Char) : Resubmission :=
  let r : Resubmission := { files, pControlFileName }
  match readControlFile env.osAlloc (if env.controlFileOpen then files pControlFileName else none) with
  | .error _ => cleanUp env env.stale r
  | .ok cfData =>
    if !(env.dataFileOpen && (files cfData.dataFileName).isSome) then
      cleanUp env cfData.dataFileName (mtsRfc822SubmitNonDel r)
    else if env.sendMessage then cleanUp env cfData.dataFileName { r with handedOver := true }
    else
      let cfData := { cfData with retries := cfData.retries + 1 }
      if cfData.retries ≥ numRetryTimes then
        cleanUp env cfData.dataFileName (mtsRfc822SubmitNonDel r)
      else
        match writeControlFile env.write files pControlFileName cfData with
        | (files, .error _) =>
          cleanUp env cfData.dataFileName (mtsRfc822SubmitNonDel { r with files })
        | (files, .ok pControlFileName) =>
          let r := { r with files, pControlFileName }
          if !env.timerStart then
            cleanUp env cfData.dataFileName (mtsRfc822SubmitNonDel { r with freed := 1 })
          else cleanUp env cfData.dataFileName { r with armed := some pControlFileName }

/-- The message will be tried again: the timer is armed with the name of its control file, which counts
one retry more, and the data file is as before. -/
structure ToRetry (d : ControlFileData) (files : Files) (r : Resubmission) (name : List Char) :
    Prop where
  armed : r.armed = some name
  named : r.freed = 0
  controlFile : r.files name = some (controlFileText { d with retries := d.retries + 1 })
  dataFile : r.files d.dataFileName = files d.dataFileName

/-- The message is not lost: it has been handed over or reported, or it will be tried again. -/
def Kept (env : ResubmitEnv) (files : Files) (pControlFileName : List Char) (r : Resubmission) : Prop :=
  r.handedOver = true ∨ 0 < r.reports ∨
    ∃ d name, readControlFile env.osAlloc (files pControlFileName) = .ok d ∧ ToRetry d files r name

variable {env : ResubmitEnv} {files : Files} {name data : List Char} {r : Resubmission}

/-- What has been cleaned up will not be tried again: at least the name is gone. -/
theorem cleanUp_not_toRetry {d : ControlFileData} {name' : List Char} :
    ¬ToRetry d files (cleanUp env data r) name' := by
  intro h
  have hfreed : r.freed + 1 = 0 := h.named
  omega

theorem cleanUp_kept (hr : r.reports = 0) :
    Kept env files name (cleanUp env data r) ↔ r.handedOver = true := by
  constructor
  · rintro (h | h | ⟨d, name', -, h⟩)
    · exact h
    · have hreports : 0 < r.reports := h
      omega
    · exact absurd h cleanUp_not_toRetry
  · exact .inl

theorem cleanUp_lost (hr : r.reports = 0) (hh : r.handedOver = false) :
    ¬Kept env files name (cleanUp env data r) := by
  rw [cleanUp_kept hr, hh]
  decide

/-- **The message is kept** if and only if it is handed over at once. -/
theorem retry_keeps_iff (numRetryTimes : UInt16) (env : ResubmitEnv) (files : Files)
    (pControlFileName : List Char) :
    Kept env files pControlFileName (mtsTryRfc822Submit numRetryTimes env files pControlFileName) ↔
      env.controlFileOpen = true ∧ env.dataFileOpen = true ∧ env.sendMessage = true ∧
        ∃ d, readControlFile env.osAlloc (files pControlFileName) = .ok d ∧
          (files d.dataFileName).isSome = true := by
  by_cases hopen : env.controlFileOpen = true
  · cases hread : readControlFile env.osAlloc (files pControlFileName) with
    | error e =>
      have hrun : mtsTryRfc822Submit numRetryTimes env files pControlFileName =
          cleanUp env env.stale { files, pControlFileName } := by
        unfold mtsTryRfc822Submit
        dsimp only
        rw [if_pos hopen, hread]
      rw [hrun, cleanUp_kept rfl]
      simp
    | ok d =>
      unfold mtsTryRfc822Submit
      dsimp only
      rw [if_pos hopen, hread]
      dsimp only
      by_cases hdata : (env.dataFileOpen && (files d.dataFileName).isSome) = true
      · obtain ⟨hopenData, hsome⟩ := (Bool.and_eq_true _ _).mp hdata
        rw [hdata, if_neg (by decide)]
        by_cases hsend : env.sendMessage = true
        · rw [if_pos hsend, cleanUp_kept rfl]
          exact ⟨fun _ => ⟨hopen, hopenData, hsend, d, rfl, hsome⟩, fun _ => rfl⟩
        · rw [if_neg hsend]
          refine iff_of_false ?_ fun h => hsend h.2.2.1
          -- retries exhausted, the control file not rewritten, no timer, and the timer armed
          split
          · exact cleanUp_lost rfl rfl
          · split
            · exact cleanUp_lost rfl rfl
            · split
              · exact cleanUp_lost rfl rfl
              · exact cleanUp_lost rfl rfl
      · rw [Bool.eq_false_iff.2 hdata, if_pos (by decide)]
        refine iff_of_false (cleanUp_lost rfl rfl) ?_
        rintro ⟨-, hopenData, -, d', heq, hsome⟩
        cases heq
        exact hdata ((Bool.and_eq_true _ _).mpr ⟨hopenData, hsome⟩)
  · have hrun : mtsTryRfc822Submit numRetryTimes env files pControlFileName =
        cleanUp env env.stale { files, pControlFileName } := by
      unfold mtsTryRfc822Submit
      dsimp only
      rw [if_neg hopen]
      rfl
    rw [hrun, cleanUp_kept rfl]
    simp [hopen]

/-- A spooled message with one recipient. -/
def spooled : ControlFileData where
  dataFileName := "/spool/D_000001".toList
  originator := "a@b".toList
  messageId := "1@b".toList
  retries := 0
  nextRetryTime := 0
  recipList := ["c@d".toList]

/-- The mailer cannot be started, and everything else goes well. -/
def noMailer : ResubmitEnv where
  sendMessage := false
  write := ⟨true, some "000002".toList, true⟩

/-- The message is lost: the timer is armed with the name of the new control file, which has just been
deleted together with the data file. -/
theorem retry_loses :
    let files : Files := Function.update (Function.update (fun _ => none)
      "/spool/D_000001".toList (some "Hi".toList)) "/spool/C_000001".toList
      (some (controlFileText spooled))
    let r := mtsTryRfc822Submit 5 noMailer files "/spool/C_000001".toList
    r.handedOver = false ∧ r.reports = 0 ∧ r.armed = some "/spool/C_000002".toList ∧
      r.files "/spool/C_000001".toList = none ∧ r.files "/spool/C_000002".toList = none ∧
      r.files "/spool/D_000001".toList = none := by
  decide +kernel

end Mts
