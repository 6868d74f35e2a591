import Emsd.Lib.Shell
import Emsd.Mts.LocalAddresses
import Emsd.Mtsua.ControlFile

/-!
# The mailer's command (`tomailer.c`, `mnondel.c`)

A message for the Internet, and a report of non-delivery, goes to a mailer that is started with `popen`.
The command is put together in `globals.tmpbuf`, as the log message is before it.

* `mailer_iff`: **the command is as intended** if and only if the texts fit the buffer, the path of the
  mailer and the option for the originator are plain words, and no recipient has a single quote.
* `mailer_injected`: a recipient with a single quote adds words.
-/

namespace Mts

open Mtsua Shell

/-! ## The code -/

/-- `sizeof(globals.tmpbuf)`. -/
def tmpbufSize : ℕ := 4096

inductive MailFault
  /-- A write behind the end of `globals.tmpbuf`. -/
  | overflow
  /-- `Fail`, for too many recipients to fit. -/
  | noRoom
  deriving DecidableEq, Repr

/-- `sprintf` behind what is in `globals.tmpbuf`. -/
def sprintf (tmpbuf text : List Char) : Except MailFault (List Char) :=
  if (tmpbuf ++ text).length < tmpbufSize then .ok (tmpbuf ++ text) else .error .overflow

structure MailerConfig where
  sendmailPath : List Char
  sendmailSpecifyFrom : List Char
  /-- `MTA_LOCAL_ROUTING` is set. -/
  localRouting : Bool

/-- A recipient that is handled internally. -/
def MailerConfig.routes (config : MailerConfig) (recipient : List Char) : Bool :=
  config.localRouting && msgRfc822ToEmsdAddr (some recipient) ≠ 0

/-- One of the loops over the recipients. The pointer `p` is at the end of the text, so that `strlen(p)`
is zero where the code makes sure that there is room. -/
def addRecipients (config : MailerConfig) (format : List Char → List Char) :
    List (List Char) → List Char → Except MailFault (List Char)
  | [], tmpbuf => .ok tmpbuf
  | recipient :: recipList, tmpbuf =>
    if config.routes recipient then addRecipients config format recipList tmpbuf
    else if tmpbufSize < recipient.length then .error .noRoom
    else
      match sprintf tmpbuf (format recipient) with
      | .error fault => .error fault
      | .ok tmpbuf => addRecipients config format recipList tmpbuf

/-- The log message up to the recipients. -/
def logHead (d : ControlFileData) : List Char :=
  "Submitting message to mailer:\n\tMessage Id: ".toList ++ (d.messageId ++
    ("\n\tFrom: ".toList ++ (d.originator ++ ['\n'])))

def logLine (recipient : List Char) : List Char := "\tTo: ".toList ++ (recipient ++ ['\n'])

/-- The address of an originator: what is between the first `<` and the next `>`. -/
def startAddr (originator : List Char) : Option (List Char) :=
  match originator.dropWhile (· ≠ '<') with
  | [] => none
  | _ :: addr => if '>' ∈ addr then some (addr.takeWhile (· ≠ '>')) else none

/-- The "from" option, if there is one. -/
def MailerConfig.fromOption (config : MailerConfig) (originator : List Char) : Option (List Char) :=
  if config.sendmailSpecifyFrom = [] then none
  else (startAddr originator).map (config.sendmailSpecifyFrom ++ ·)

/-- A recipient for the command line. -/
def quotedWord (recipient : List Char) : List Char := quote :: (recipient ++ [quote, ' '])

/-- The command up to the recipients. -/
def commandHead (config : MailerConfig) (originator : List Char) : Except MailFault (List Char) :=
  match sprintf [] (config.sendmailPath ++ [' ']) with
  | .error fault => .error fault
  | .ok command =>
    match config.fromOption originator with
    | none => .ok command
    | some option => sprintf command (option ++ [' '])

/-- `mts_sendMessage`, up to the command that it starts, if there is a recipient for it. -/
def mtsSendMessage (config : MailerConfig) (d : ControlFileData) :
    Except MailFault (Option (List Char)) :=
  match sprintf [] (logHead d) with
  | .error fault => .error fault
  | .ok log =>
    match addRecipients config logLine d.recipList log with
    | .error fault => .error fault
    | .ok _ =>
      match commandHead config d.originator with
      | .error fault => .error fault
      | .ok command =>
        match addRecipients config quotedWord d.recipList command with
        | .error fault => .error fault
        | .ok command => .ok (if d.recipList.all config.routes then none else some command)

/-- The command of `mts_deliveryNonDel`. -/
def mtsDeliveryNonDelCommand (config : MailerConfig) (originator : List Char) :
    Except MailFault (List Char) :=
  sprintf [] (config.sendmailPath ++ ' ' :: quote :: (originator ++ [quote]))

/-! ## The intended commands -/

/-- The recipients for the mailer. -/
def MailerConfig.external (config : MailerConfig) (recipList : List (List Char)) : List (List Char) :=
  recipList.filter fun recipient => !config.routes recipient

/-- The words that are the configuration's and the originator's. -/
def MailerConfig.heads (config : MailerConfig) (originator : List Char) : List (List Char) :=
  config.sendmailPath :: (config.fromOption originator).toList

/-- **The command is as intended**: nothing is written behind the buffer, and the words of the command
are those of the configuration, and the recipients that are not local. -/
structure SendsProperly (config : MailerConfig) (d : ControlFileData) : Prop where
  fits : mtsSendMessage config d ≠ .error .overflow
  words : ∀ command, mtsSendMessage config d = .ok (some command) →
    Shell.words command = some (config.heads d.originator ++ config.external d.recipList)

/-- The recipients up to the first one that alone is too long. -/
def fitting (recipients : List (List Char)) : List (List Char) :=
  recipients.takeWhile fun recipient => recipient.length ≤ tmpbufSize

/-- **When the command is as intended.** -/
structure Mailable (config : MailerConfig) (d : ControlFileData) : Prop where
  log : (logHead d ++ (fitting (config.external d.recipList)).flatMap logLine).length < tmpbufSize
  command : fitting (config.external d.recipList) = config.external d.recipList →
    (spaced (config.heads d.originator) ++ quoted (config.external d.recipList)).length < tmpbufSize
  plain : fitting (config.external d.recipList) = config.external d.recipList →
    config.external d.recipList ≠ [] → ∀ h ∈ config.heads d.originator, Plain h
  unquoted : fitting (config.external d.recipList) = config.external d.recipList →
    ∀ recipient ∈ config.external d.recipList, quote ∉ recipient

variable {config : MailerConfig} {d : ControlFileData} {tmpbuf : List Char}
  {recipList : List (List Char)} {format : List Char → List Char}

/-! ## What is written -/

theorem fitting_cons {r : List Char} {rs : List (List Char)} (hr : r.length ≤ tmpbufSize) :
    fitting (r :: rs) = r :: fitting rs := List.takeWhile_cons_of_pos (by simpa using hr)

/-- **A loop over the recipients**: what is written does not fit, or a recipient is too long, or all of
them are behind the text. -/
theorem addRecipients_eq (hbuf : tmpbuf.length < tmpbufSize) :
    addRecipients config format recipList tmpbuf =
      if (tmpbuf ++ (fitting (config.external recipList)).flatMap format).length < tmpbufSize then
        if fitting (config.external recipList) = config.external recipList then
          .ok (tmpbuf ++ (config.external recipList).flatMap format)
        else .error .noRoom
      else .error .overflow := by
  induction recipList generalizing tmpbuf with
  | nil =>
    have hnil : config.external [] = [] := rfl
    have hfit : fitting [] = [] := rfl
    rw [hnil, hfit, List.flatMap_nil, List.append_nil, if_pos hbuf, if_pos rfl]
    rfl
  | cons recipient recipList ih =>
    unfold addRecipients
    by_cases hroutes : config.routes recipient = true
    · have hext : config.external (recipient :: recipList) = config.external recipList :=
        List.filter_cons_of_neg (by simp [hroutes])
      -- a local recipient is passed over
      rw [if_pos hroutes, hext, ih hbuf]
    · have hext : config.external (recipient :: recipList) = recipient :: config.external recipList :=
        List.filter_cons_of_pos (by simpa using hroutes)
      rw [if_neg hroutes, hext]
      by_cases hlong : tmpbufSize < recipient.length
      · have hfit : fitting (recipient :: config.external recipList) = [] :=
          List.takeWhile_cons_of_neg (by simpa using hlong)
        -- what has been written is not extended, and fits
        rw [if_pos hlong, hfit, List.flatMap_nil, List.append_nil, if_pos hbuf, if_neg (by simp)]
      · rw [if_neg hlong, fitting_cons (by omega), List.flatMap_cons, List.flatMap_cons,
          ← List.append_assoc, ← List.append_assoc]
        unfold sprintf
        by_cases hfits : (tmpbuf ++ format recipient).length < tmpbufSize
        · rw [if_pos hfits]
          dsimp only
          rw [ih hfits]
          simp only [List.cons.injEq, true_and]
        · rw [if_neg hfits, if_neg]
          rw [List.length_append]
          omega

theorem all_routes : d.recipList.all config.routes = true ↔ config.external d.recipList = [] := by
  unfold MailerConfig.external
  rw [List.filter_eq_nil_iff, List.all_eq_true]
  simp

/-- The words in front of the recipients. -/
theorem commandHead_eq (originator : List Char) : commandHead config originator =
    if (spaced (config.heads originator)).length < tmpbufSize then .ok (spaced (config.heads originator))
    else .error .overflow := by
  unfold commandHead MailerConfig.heads
  cases config.fromOption originator with
  | none =>
    have htext : spaced (config.sendmailPath :: (none : Option (List Char)).toList) =
        config.sendmailPath ++ [' '] := by
      simp [spaced]
    rw [htext]
    unfold sprintf
    rw [List.nil_append]
    by_cases hfits : (config.sendmailPath ++ [' ']).length < tmpbufSize
    · rw [if_pos hfits]
    · rw [if_neg hfits]
  | some option =>
    have htext : spaced (config.sendmailPath :: (some option).toList) =
        (config.sendmailPath ++ [' ']) ++ (option ++ [' ']) := by
      simp [spaced]
    rw [htext]
    unfold sprintf
    rw [List.nil_append]
    by_cases hfits : (config.sendmailPath ++ [' ']).length < tmpbufSize
    · rw [if_pos hfits]
    · rw [if_neg hfits, if_neg]
      rw [List.length_append]
      omega

/-- **What `mts_sendMessage` does.** -/
theorem mtsSendMessage_eq (config : MailerConfig) (d : ControlFileData) : mtsSendMessage config d =
    if (logHead d ++ (fitting (config.external d.recipList)).flatMap logLine).length < tmpbufSize then
      if fitting (config.external d.recipList) = config.external d.recipList then
        if (spaced (config.heads d.originator) ++ quoted (config.external d.recipList)).length <
            tmpbufSize then
          .ok (if config.external d.recipList = [] then none
            else some (spaced (config.heads d.originator) ++ quoted (config.external d.recipList)))
        else .error .overflow
      else .error .noRoom
    else .error .overflow := by
  unfold mtsSendMessage
  have hlog : sprintf [] (logHead d) =
      if (logHead d).length < tmpbufSize then .ok (logHead d) else .error .overflow := by
    unfold sprintf
    rw [List.nil_append]
  rw [hlog]
  by_cases hhead : (logHead d).length < tmpbufSize
  · rw [if_pos hhead]
    dsimp only
    rw [addRecipients_eq hhead]
    by_cases hfits : (logHead d ++ (fitting (config.external d.recipList)).flatMap logLine).length <
        tmpbufSize
    · rw [if_pos hfits, if_pos hfits]
      by_cases hall : fitting (config.external d.recipList) = config.external d.recipList
      · rw [if_pos hall, if_pos hall]
        dsimp only
        rw [commandHead_eq]
        have hquoted : (config.external d.recipList).flatMap quotedWord =
            quoted (config.external d.recipList) := rfl
        by_cases hcommand : (spaced (config.heads d.originator)).length < tmpbufSize
        · rw [if_pos hcommand]
          dsimp only
          rw [addRecipients_eq hcommand, hall, if_pos rfl, hquoted]
          by_cases hlast : (spaced (config.heads d.originator) ++
              quoted (config.external d.recipList)).length < tmpbufSize
          · rw [if_pos hlast, if_pos hlast]
            dsimp only
            simp only [all_routes]
          · rw [if_neg hlast, if_neg hlast]
        · rw [if_neg hcommand, if_neg]
          rw [List.length_append]
          omega
      · rw [if_neg hall, if_neg hall]
    · rw [if_neg hfits, if_neg hfits]
  · rw [if_neg hhead, if_neg]
    rw [List.length_append]
    omega

/-! ## Results -/

theorem sends_iff (config : MailerConfig) (d : ControlFileData) :
    SendsProperly config d ↔ Mailable config d := by
  have hrun := mtsSendMessage_eq config d
  have hwords : words (spaced (config.heads d.originator) ++ quoted (config.external d.recipList)) =
      some (config.heads d.originator ++ config.external d.recipList) ↔ _ :=
    words_iff (escapes_quoted (config.external d.recipList)) words_quoted_all
  constructor
  · intro h
    have hlog : (logHead d ++ (fitting (config.external d.recipList)).flatMap logLine).length <
        tmpbufSize := by
      by_contra hlong
      rw [if_neg hlong] at hrun
      exact h.fits hrun
    rw [if_pos hlog] at hrun
    have hcommand : fitting (config.external d.recipList) = config.external d.recipList →
        (spaced (config.heads d.originator) ++ quoted (config.external d.recipList)).length <
          tmpbufSize := by
      intro hall
      by_contra hlong
      rw [if_pos hall, if_neg hlong] at hrun
      exact h.fits hrun
    -- only a command for some recipient is started
    have hall : fitting (config.external d.recipList) = config.external d.recipList →
        config.external d.recipList ≠ [] → (∀ h ∈ config.heads d.originator, Plain h) ∧
          quote ∉ (config.external d.recipList).flatten := by
      intro hall hne
      rw [if_pos hall, if_pos (hcommand hall), if_neg hne] at hrun
      exact hwords.1 (h.words _ hrun)
    refine ⟨hlog, hcommand, fun h₁ h₂ => (hall h₁ h₂).1, ?_⟩
    intro hfit recipient hmem hquote
    exact (hall hfit (List.ne_nil_of_mem hmem)).2 (List.mem_flatten.2 ⟨recipient, hmem, hquote⟩)
  · intro h
    rw [if_pos h.log] at hrun
    by_cases hall : fitting (config.external d.recipList) = config.external d.recipList
    · rw [if_pos hall, if_pos (h.command hall)] at hrun
      constructor
      · rw [hrun]
        intro heq
        cases heq
      · intro command hcommand
        rw [hrun] at hcommand
        by_cases hne : config.external d.recipList = []
        · rw [if_pos hne] at hcommand
          cases hcommand
        · rw [if_neg hne] at hcommand
          obtain rfl := Option.some.inj (Except.ok.inj hcommand)
          refine hwords.2 ⟨h.plain hall hne, ?_⟩
          intro hmem
          obtain ⟨recipient, hrecipient, hquote⟩ := List.mem_flatten.1 hmem
          exact h.unquoted hall recipient hrecipient hquote
    · -- the message is refused, so that there is no command
      rw [if_neg hall] at hrun
      constructor
      · rw [hrun]
        intro heq
        cases heq
      · intro command hcommand
        rw [hrun] at hcommand
        cases hcommand

/-- The command of a non-delivery report. -/
theorem nonDel_iff (config : MailerConfig) (originator : List Char) :
    (∃ command, mtsDeliveryNonDelCommand config originator = .ok command ∧
      Shell.words command = some [config.sendmailPath, originator]) ↔
    (config.sendmailPath ++ ' ' :: quote :: (originator ++ [quote])).length < tmpbufSize ∧
      Plain config.sendmailPath ∧ quote ∉ originator := by
  have hkeep : escapes (quote :: (originator ++ [quote])) = escapes [originator].flatten := by
    have hend : escapes [quote] = 0 := by decide
    rw [escapes_cons, escapes_append, hend, if_neg (by decide)]
    simp
  have hwords : words (spaced [config.sendmailPath] ++ quote :: (originator ++ [quote])) =
      some ([config.sendmailPath] ++ [originator]) ↔ _ :=
    words_iff hkeep fun h => words_quoted_last (by simpa using h)
  have htext : spaced [config.sendmailPath] ++ quote :: (originator ++ [quote]) =
      config.sendmailPath ++ ' ' :: quote :: (originator ++ [quote]) := by
    simp [spaced]
  have hflat : quote ∉ [originator].flatten ↔ quote ∉ originator := by
    simp
  have hplain : (∀ h ∈ [config.sendmailPath], Plain h) ↔ Plain config.sendmailPath := by
    simp
  rw [htext, hflat, hplain] at hwords
  unfold mtsDeliveryNonDelCommand sprintf
  rw [List.nil_append]
  by_cases hfits : (config.sendmailPath ++ ' ' :: quote :: (originator ++ [quote])).length < tmpbufSize
  · rw [if_pos hfits]
    constructor
    · rintro ⟨command, hcommand, hwords'⟩
      obtain rfl := Except.ok.inj hcommand
      exact ⟨hfits, hwords.1 hwords'⟩
    · rintro ⟨-, h⟩
      exact ⟨_, rfl, hwords.2 h⟩
  · rw [if_neg hfits]
    constructor
    · rintro ⟨command, hcommand, -⟩
      cases hcommand
    · rintro ⟨hlong, -⟩
      exact absurd hlong hfits

/-- **The mailer's commands are as intended** if and only if the texts fit, the words in front are plain,
and the addresses in quotes have none in them. -/
theorem mailer_iff (config : MailerConfig) :
    (∀ d, SendsProperly config d ↔ Mailable config d) ∧
    ∀ originator, (∃ command, mtsDeliveryNonDelCommand config originator = .ok command ∧
        Shell.words command = some [config.sendmailPath, originator]) ↔
      (config.sendmailPath ++ ' ' :: quote :: (originator ++ [quote])).length < tmpbufSize ∧
        Plain config.sendmailPath ∧ quote ∉ originator :=
  ⟨sends_iff config, nonDel_iff config⟩

/-- A recipient with single quotes in it adds a word; and eight recipients of 600 characters do not fit,
but the code finds room for each. -/
theorem mailer_injected : (∃ command,
    mtsSendMessage ⟨"sendmail".toList, [], false⟩
      ⟨[], [], [], 0, 0, ["a' 'b@c".toList]⟩ = .ok (some command) ∧
    Shell.words command = some ["sendmail".toList, "a".toList, "b@c".toList]) ∧
    mtsSendMessage ⟨"sendmail".toList, [], false⟩
      ⟨[], [], [], 0, 0, List.replicate 8 (List.replicate 600 'a')⟩ = .error .overflow := by
  refine ⟨⟨"sendmail 'a' 'b@c' ".toList, ?_, ?_⟩, ?_⟩
  · decide +kernel
  · decide +kernel
  · have hexternal : ∀ recipList, MailerConfig.external ⟨"sendmail".toList, [], false⟩ recipList =
        recipList := fun recipList => List.filter_true recipList
    have hfitting : fitting (List.replicate 8 (List.replicate 600 'a')) =
        List.replicate 8 (List.replicate 600 'a') := by
      refine List.takeWhile_eq_self_iff.2 fun recipient hmem => ?_
      rw [List.eq_of_mem_replicate hmem, List.length_replicate]
      decide
    have hto : "\tTo: ".toList.length = 5 := by decide
    have hline : (logLine (List.replicate 600 'a')).length = 606 := by
      unfold logLine
      rw [List.length_append, List.length_append, List.length_replicate, List.length_singleton, hto]
    rw [mtsSendMessage_eq, if_neg]
    dsimp only
    rw [hexternal, hfitting, List.length_append, List.length_flatMap, List.map_replicate,
      List.sum_replicate_nat, hline]
    unfold tmpbufSize
    omega

end Mts
