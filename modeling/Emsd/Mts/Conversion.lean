import Emsd.Mts.Headers
import Emsd.Mts.LocalAddresses
import Emsd.Mtsua.ControlFile
import Mathlib.Data.List.DropRight

/-!
# From RFC-822 to EMSD (`rfc2emsd.c`)

The conversions of an RFC-822 message, given by its envelope and its header text, to the heading of an
EMSD message and to an EMSD report.

* `getRfc822Address_requires`: **what the conversion of an address needs**.
* `headerFields_eq`: the loop over the fields of a report's header text.
* `conversion_iff`: **the conversions do nothing undefined** if and only if the envelope and the header
  text fit the message.
-/

namespace Mts

open Ocp Mtsua Fallible Text

/-! ## Addresses -/

/-- `ADDRESS`, but for the pointer to the next one; a string that is left out is a null pointer. -/
structure Address where
  personal : Option (List Char) := none
  adl : Option (List Char) := none
  mailbox : Option (List Char) := none
  host : Option (List Char) := none
  deriving DecidableEq, Repr

/-- `ENVELOPE`, as far as the conversions read it. -/
structure Envelope where
  fromAddr : List Address := []
  sender : List Address := []
  replyTo : List Address := []
  toAddr : List Address := []
  ccAddr : List Address := []
  bccAddr : List Address := []
  inReplyTo : Option (List Char) := none
  subject : Option (List Char) := none

/-- What the conversions of addresses use. -/
structure ConvertEnv where
  /-- `globals.config.emsdHosts`. -/
  emsdHosts : List (List Char)
  /-- The field `subscriberId` of the profiles in `subproProfile`. -/
  subscriberIds : List (List Char)

def rspecials : List Char := "()<>@,;:".toList ++ ['\x5c', '\x22'] ++ "[].".toList

def wspecials : List Char := " ()<>@,;:".toList ++ ['\x5c', '\x22'] ++ "[]".toList

/-- `rfc822_cat`, as the text that is added. -/
def rfc822Cat (src specials : List Char) : List Char :=
  if src.any (· ∈ specials) then
    '\x22' :: (src.flatMap fun c => if c = '\x5c' ∨ c = '\x22' then ['\x5c', c] else [c]) ++ ['\x22']
  else src

/-- `rfc822_address`, as the text that is added; `strpbrk` follows the null pointer where there is no
mailbox. -/
def rfc822Address (adr : Address) : Option (List Char) :=
  match adr.host with
  | none => some []
  | some host => adr.mailbox.map fun mailbox =>
    adr.adl.elim [] (· ++ [':']) ++ rfc822Cat mailbox wspecials ++
      if host.head? = some '@' then [] else '@' :: host

/-- `getPrintableRfc822Address`; `none` where a null pointer is followed. -/
def getPrintableRfc822Address (pAddr : Address) : Option (List Char) :=
  match pAddr.mailbox, pAddr.host with
  | some mailbox, none => some (rfc822Cat mailbox rspecials ++ ": ".toList)
  | none, none => some [';']
  | _, some _ =>
    if pAddr.personal = none ∧ pAddr.adl = none then rfc822Address pAddr
    else (rfc822Address pAddr).map fun address =>
      pAddr.personal.elim [] (rfc822Cat · rspecials) ++ " <".toList ++ address ++ ['>']

/-- `%d` of `sscanf`: the number, and what is behind it. -/
def scanInt (s : List Char) : Option (ℤ × List Char) := (scanUlong s).map fun r => (strtol s, r.2)

/-- `sscanf` with so many numbers and a separator between them: those that are assigned. -/
def scanInts (separator : Char) : ℕ → List Char → List ℤ
  | 0, _ => []
  | fields + 1, s =>
    match scanInt s with
    | none => []
    | some (i, rest) =>
      i :: if rest.head? = some separator then scanInts separator fields rest.tail else []

/-- `getEmsdAddrNumericValue`. -/
def getEmsdAddrNumericValue (pStr : List Char) : Option UInt32 :=
  match scanInts '.' 3 pStr with
  | [highOrder] => some (.ofInt highOrder)
  | [highOrder, lowOrder] => some (.ofInt (highOrder * 1000 + lowOrder))
  | _ => none

/-- The value that `emsdAuaEqual` compares. -/
def emsdAua (s : List Char) : Option UInt32 :=
  match scanFields 3 s with
  | [hi] => some hi
  | [hi, lo] => some (hi * 1000 + lo)
  | _ => none

/-- `emsdAuaEqual`. -/
def emsdAuaEqual (s1 s2 : List Char) : Bool :=
  match emsdAua s1, emsdAua s2 with
  | some num1, some num2 => num1 = num2
  | _, _ => false

/-- `SUB_getEntry` finds a profile, without an NSAP. -/
def ConvertEnv.subGetEntry (env : ConvertEnv) (subscriberId : List Char) : Bool :=
  env.subscriberIds.any (emsdAuaEqual · subscriberId)

/-- `OS_strcasecmp` finds no difference. -/
def sameName (s₁ s₂ : List Char) : Bool := s₁.map Char.toLower = s₂.map Char.toLower

/-- `convertRfc822ToEmsdAua`; `none` where it fails. The AUA of a profile would be copied to a null
pointer. -/
def convertRfc822ToEmsdAua (env : ConvertEnv) (pUserName : List Char) (pAddr : Address) :
    Run (Option UInt32) :=
  if env.emsdHosts = [] then pure none
  else
    match pAddr.host with
    | none => stop .undefined
    | some host =>
      if env.emsdHosts.any (sameName · host) && env.subGetEntry pUserName then
        match getEmsdAddrNumericValue pUserName with
        | some emsdAddress => pure (some emsdAddress)
        | none => stop .undefined
      else pure none

/-- The part of a printed address that `mtsua_getEmsdAddrFromRfc822` looks up. -/
def userName (rfc822Addr : List Char) : List Char :=
  (if '<' ∈ rfc822Addr then (rfc822Addr.dropWhile (· ≠ '<')).tail else rfc822Addr).takeWhile (· ≠ '>')

/-- `mtsua_getEmsdAddrFromRfc822`, with the function that the server sets. -/
def getEmsdAddrFromRfc822 (env : ConvertEnv) (rfc822Addr : List Char) (pAddr : Address) :
    Run (Option UInt32) :=
  convertRfc822ToEmsdAua env (userName rfc822Addr) pAddr

/-- `getRfc822Address`: the address is printed into a buffer of `mailTmpLen` octets. -/
def getRfc822Address (env : ConvertEnv) (pAddr : Address) : Run OrAddress :=
  match getPrintableRfc822Address pAddr with
  | none => stop .undefined
  | some buf =>
    if buf.length < mailTmpLen then do
      match ← getEmsdAddrFromRfc822 env buf pAddr with
      | some emsdAddress => pure (.emsdLocal emsdAddress .null)
      | none => do
        let string ← assignText buf
        pure (.rfc822 (some string))
    else stop .undefined

/-- `rfc822AddressesDiffer`. -/
def rfc822AddressesDiffer (p1 p2 : Address) : Bool :=
  p1.personal ≠ p2.personal ∨ p1.adl ≠ p2.adl ∨ p1.mailbox ≠ p2.mailbox ∨ p1.host ≠ p2.host

/-! ## The message -/

/-- The sender, if it differs from the originator. -/
def convertSender (env : ConvertEnv) (pRfc822Env : Envelope) : Run (Optional OrAddress) :=
  match pRfc822Env.sender, pRfc822Env.fromAddr with
  | [], _ => pure ⟨false, .zero⟩
  | _ :: _, [] => stop .undefined
  | sender :: _, originator :: _ =>
    if rfc822AddressesDiffer sender originator then do
      let data ← getRfc822Address env sender
      pure ⟨true, data⟩
    else pure ⟨false, .zero⟩

def convertOriginator (env : ConvertEnv) (pRfc822Env : Envelope) : Run OrAddress :=
  match pRfc822Env.fromAddr with
  | [] => stop .undefined
  | originator :: _ => getRfc822Address env originator

/-- A primary recipient. -/
def primaryRecipient (env : ConvertEnv) (pAddr : Address) : Run RecipientData := do
  let recipient ← getRfc822Address env pAddr
  pure ⟨recipient, .null⟩

/-- A copy or a blind copy recipient. -/
def copyRecipient (env : ConvertEnv) (recipientType : ℕ) (pAddr : Address) : Run RecipientData := do
  let recipient ← getRfc822Address env pAddr
  let data ← Str.alloc 8
  let bits := ((List.replicate 8 0).set reportRequestNonDelivery 1).set recipientType 1
  pure ⟨recipient, ⟨true, some { data with len := 8, p := bits }⟩⟩

def convertRecipients (env : ConvertEnv) (pRfc822Env : Envelope)
    (list : Slots RecipientData maxRecipients) : Run (Slots RecipientData maxRecipients) := do
  let primary ← collect (primaryRecipient env) .undefined pRfc822Env.toAddr list
  let copies ← collect (copyRecipient env recipientTypeCopy) .undefined pRfc822Env.ccAddr primary
  collect (copyRecipient env recipientTypeBlindCopy) .undefined pRfc822Env.bccAddr copies

/-- The only reply-to recipient is left out where there is no sender, too. -/
def keptReplyTo (pRfc822Env : Envelope) : List Address :=
  match pRfc822Env.replyTo with
  | [pAddr] =>
    if pRfc822Env.sender ≠ [] ∧ (pRfc822Env.fromAddr.head?.all (rfc822AddressesDiffer pAddr ·)) then
      [pAddr]
    else []
  | l => l

def convertReplyTo (env : ConvertEnv) (pRfc822Env : Envelope) :
    Run (Optional (Slots OrAddress maxReplyTo)) := do
  let data ← collect (getRfc822Address env) .undefined (keptReplyTo pRfc822Env) .empty
  pure ⟨data.1.length ≠ 0, data⟩

/-- A string of the envelope, if it is there. -/
def convertString : Option (List Char) → Run (Optional StrHandle)
  | none => pure .null
  | some s => do
    let string ← assignText s
    pure ⟨true, some string⟩

def convertInReplyTo : Option (List Char) → Run (Optional EmsdMessageId)
  | none => pure ⟨false, .emsdLocal 0 0⟩
  | some s => do
    let string ← assignText s
    pure ⟨true, .rfc822 (some string)⟩

def attachBody : Option (List Char) → Run (Optional StrHandle)
  | none => pure .null
  | some s => do
    let string ← Str.attachZString (zString s)
    pure ⟨true, some string⟩

/-- `convertRfc822ToEmsdIpm`. -/
def convertRfc822ToEmsdIpm (env : ConvertEnv) (pRfc822Env : Envelope) (pRfc822Body : Option (List Char))
    (pHeaderStr : List Char) : Run EmsdMessage := do
  let pIpm ← allocMessage
  let sender ← convertSender env pRfc822Env
  let originator ← convertOriginator env pRfc822Env
  let recipientDataList ← convertRecipients env pRfc822Env pIpm.recipientDataList
  let replyTo ← convertReplyTo env pRfc822Env
  let repliedToIpm ← convertInReplyTo pRfc822Env.inReplyTo
  let subject ← convertString pRfc822Env.subject
  let pIpm ← parseHeaderString pHeaderStr
    { pIpm with sender, originator, recipientDataList, replyTo, repliedToIpm, subject }
  let body ← attachBody pRfc822Body
  pure { pIpm with body }

/-! ## The report -/

/-- `EMSD_PerRecipReportData`, `report`. -/
inductive PerRecipReport
  | delivery
  | nonDelivery (nonDeliveryReason nonDeliveryDiagnostic : UInt32)
  deriving DecidableEq, Repr

/-- `EMSD_PerRecipReportData`. -/
structure PerRecipReportData where
  recipient : OrAddress
  report : PerRecipReport
  deriving DecidableEq, Repr

/-- `EMSD_ReportDelivery`, as far as it is filled in. -/
structure ReportDelivery where
  msgIdOfReportedMsg : EmsdMessageId
  recipDataList : Slots PerRecipReportData maxRecipients

/-- `mtsua_allocReportDelivery`. -/
def allocReportDelivery : Run ReportDelivery := do
  let _ ← osAlloc
  pure ⟨.emsdLocal 0 0, .empty⟩

/-- `strtok`, from where the last call has got: a token and what is left. -/
def strtok (delimiter : Char) (s : List Char) : Option (List Char × List Char) :=
  match s.dropWhile (· = delimiter) with
  | [] => none
  | c :: t => some ((c :: t).takeWhile (· ≠ delimiter), ((c :: t).dropWhile (· ≠ delimiter)).tail)

/-- The white space that is skipped in front of a token. -/
def isWhite (c : Char) : Bool := c = ' ' ∨ c = '\t' ∨ c = '\r' ∨ c = '\n'

/-- The headers and their values, token by token, in so many turns of the loop. Nothing that is written
into a value is beyond its token. -/
def headerFields : ℕ → List Char → List (List Char × List Char)
  | 0, _ => []
  | turns + 1, s =>
    match strtok ':' s with
    | none => []
    | some (pHeader, s) =>
      match strtok '\n' s with
      | none => []
      | some (pValue, s) =>
        (pHeader.dropWhile isWhite, pValue.dropWhile isWhite) :: headerFields turns s

/-- `EMSD_NonDeliveryReason_TransferFailure`. -/
def transferFailure : UInt32 := 0

/-- `EMSD_NonDeliveryDiagnostic_UnableToCompleteTransfer`. -/
def unableToCompleteTransfer : UInt32 := 13

/-- Where the scan for the bracket from the end of a value stops. -/
def bracket (pValue : List Char) : ℕ := pValue.length - 1 - pValue.reverse.findIdx (· = '(')

/-- The reason and the diagnostic, or those of an improperly formed value. -/
def nonDeliveryOf (s : List Char) : UInt32 × UInt32 :=
  match s with
  | '(' :: s =>
    match scanInts '/' 2 s with
    | [reason, diagnostic] => (.ofInt reason, .ofInt diagnostic)
    | _ => (transferFailure, unableToCompleteTransfer)
  | _ => (transferFailure, unableToCompleteTransfer)

/-- The recipient of a non-delivery report: what is in front of the bracket, without the white space. -/
def recipientText (pValue : List Char) : List Char :=
  (pValue.take (bracket pValue)).rdropWhile isBlank

def isDelivered (pValue : List Char) : Bool :=
  "(DELIVERED".toList.isPrefixOf (pValue.drop (bracket pValue))

/-- An intended recipient; that of a delivery report gets no address. -/
def intendedRecipient (pValue : List Char) : Run PerRecipReportData :=
  if isDelivered pValue then pure ⟨.zero, .delivery⟩
  else do
    let string ← assignText (recipientText pValue)
    let (reason, diagnostic) := nonDeliveryOf (pValue.drop (bracket pValue))
    pure ⟨.rfc822 (some string), .nonDelivery reason diagnostic⟩

def isIntendedRecipient (pHeader : List Char) : Bool :=
  sameName pHeader "X-EMSD-Intended-Recipient".toList

def isOriginalMessageId (pHeader : List Char) : Bool :=
  sameName pHeader "X-EMSD-Original-Message-Id".toList

/-- One turn of the loop. The white space at the end of a message id is cut off after it has been
copied. -/
def reportField (pReport : ReportDelivery) (field : List Char × List Char) : Run ReportDelivery :=
  if isIntendedRecipient field.1 then do
    let recipDataList ← collect intendedRecipient .undefined [field.2] pReport.recipDataList
    pure { pReport with recipDataList }
  else if isOriginalMessageId field.1 then do
    let string ← assignText field.2
    pure { pReport with msgIdOfReportedMsg := .rfc822 (some string) }
  else pure pReport

/-- `convertRfc822ToEmsdReport`; the envelope and the body are not read. -/
def convertRfc822ToEmsdReport (pHeaderStr : List Char) : Run ReportDelivery := do
  let pReport ← allocReportDelivery
  (headerFields pHeaderStr.length pHeaderStr).foldlM reportField pReport

/-! ## What it takes -/

variable {env : ConvertEnv} {pAddr : Address} {pRfc822Env : Envelope} {s t item : List Char}

/-- **When an address can be converted.** -/
structure Convertible (env : ConvertEnv) (pAddr : Address) : Prop where
  /-- A host comes with a mailbox. -/
  mailbox : pAddr.host ≠ none → pAddr.mailbox ≠ none
  /-- The printed address fits the buffer. -/
  printed : ∀ buf, getPrintableRfc822Address pAddr = some buf → buf.length < mailTmpLen
  /-- There is a host to be compared to those of the configuration. -/
  host : env.emsdHosts ≠ [] → pAddr.host ≠ none

theorem getPrintableRfc822Address_eq_none :
    getPrintableRfc822Address pAddr = none ↔ pAddr.host ≠ none ∧ pAddr.mailbox = none := by
  obtain ⟨personal, adl, mailbox, host⟩ := pAddr
  cases host with
  | none => cases mailbox <;> simp [getPrintableRfc822Address]
  | some host =>
    cases mailbox with
    | none => simp [getPrintableRfc822Address, rfc822Address]
    | some mailbox =>
      simp only [getPrintableRfc822Address, rfc822Address]
      split <;> simp

theorem short_of_length (h : s.length < mailTmpLen) : Short s := by
  have hle : (zString s).1.length ≤ (s.map fun c => UInt8.ofNat c.toNat).length :=
    List.Sublist.length_le (List.takeWhile_sublist _)
  rw [List.length_map] at hle
  have hsize : mailTmpLen = 1024 := rfl
  unfold Short
  omega

/-- As many numbers are read with `%d` as with `%lu`. -/
theorem scanInts_length (fields : ℕ) (s : List Char) :
    (scanInts '.' fields s).length = (scanFields fields s).length := by
  induction fields generalizing s with
  | zero => rfl
  | succ fields ih =>
    unfold scanInts scanFields scanInt
    cases hscan : scanUlong s with
    | none => rfl
    | some r =>
      obtain ⟨i, rest⟩ := r
      cases rest with
      | nil => rfl
      | cons c rest =>
        by_cases hc : c = '.'
        · subst hc
          exact congrArg (· + 1) (ih rest)
        · have hhead : ¬(c :: rest).head? = some '.' := fun h => hc (Option.some.inj h)
          simp only [Option.map_some]
          rw [if_neg hhead]
          split
          · rename_i heq
            cases heq
          · rename_i heq
            exact absurd (List.cons.inj (Prod.mk.inj (Option.some.inj heq)).2).1 hc
          · rfl

/-- **A text that `emsdAuaEqual` compares is read as a number.** -/
theorem numericValue_of_equal {id : List Char} (h : emsdAuaEqual id s = true) :
    ∃ emsdAddress, getEmsdAddrNumericValue s = some emsdAddress := by
  have hfields : (scanFields 3 s).length = 1 ∨ (scanFields 3 s).length = 2 := by
    unfold emsdAuaEqual emsdAua at h
    split at h
    · rename_i hs
      split at hs
      · rename_i hlist
        rw [hlist]
        exact Or.inl rfl
      · rename_i hlist
        rw [hlist]
        exact Or.inr rfl
      · cases hs
    · cases h
  rw [← scanInts_length] at hfields
  unfold getEmsdAddrNumericValue
  rcases hfields with hone | htwo
  · obtain ⟨i, hlist⟩ := List.length_eq_one_iff.1 hone
    rw [hlist]
    exact ⟨_, rfl⟩
  · obtain ⟨i, j, hlist⟩ := List.length_eq_two.1 htwo
    rw [hlist]
    exact ⟨_, rfl⟩

/-- **The address of a profile is a number**, so that no AUA is copied. -/
theorem numericValue_of_subGetEntry (h : env.subGetEntry s = true) :
    ∃ emsdAddress, getEmsdAddrNumericValue s = some emsdAddress := by
  obtain ⟨id, -, heq⟩ := List.any_eq_true.1 h
  exact numericValue_of_equal heq

theorem convertRfc822ToEmsdAua_requires (env : ConvertEnv) (pUserName : List Char) (pAddr : Address) :
    Requires (convertRfc822ToEmsdAua env pUserName pAddr) (env.emsdHosts ≠ [] → pAddr.host ≠ none)
      (fun _ => True) := by
  unfold convertRfc822ToEmsdAua
  by_cases hhosts : env.emsdHosts = []
  · rw [if_pos hhosts]
    exact (pure_requires trivial).congr (iff_of_true trivial (absurd hhosts))
  · rw [if_neg hhosts]
    cases pAddr.host with
    | none => exact stop_requires.congr (iff_of_false id fun h => h hhosts rfl)
    | some host =>
      have hfine : env.emsdHosts ≠ [] → some host ≠ none := by simp
      dsimp only
      split
      · -- the profile that is found has a numeric address
        rename_i hserved
        obtain ⟨emsdAddress, hvalue⟩ := numericValue_of_subGetEntry (Bool.and_eq_true_iff.1 hserved).2
        rw [hvalue]
        exact (pure_requires trivial).congr (iff_of_true trivial hfine)
      · exact (pure_requires trivial).congr (iff_of_true trivial hfine)

/-- **What the conversion of an address needs.** -/
theorem getRfc822Address_requires (env : ConvertEnv) (pAddr : Address) :
    Requires (getRfc822Address env pAddr) (Convertible env pAddr) (fun _ => True) := by
  unfold getRfc822Address
  cases hbuf : getPrintableRfc822Address pAddr with
  | none =>
    obtain ⟨hhost, hmailbox⟩ := getPrintableRfc822Address_eq_none.1 hbuf
    exact stop_requires.congr (iff_of_false id fun h => h.mailbox hhost hmailbox)
  | some buf =>
    have hlookup := convertRfc822ToEmsdAua_requires env (userName buf) pAddr
    have hconvert := fun hlen : buf.length < mailTmpLen =>
      hlookup.bind (T := fun _ : OrAddress => True) (Q := True) (f := fun r =>
        match r with
        | some emsdAddress => pure (.emsdLocal emsdAddress .null)
        | none => do
          let string ← assignText buf
          pure (.rfc822 (some string))) fun r _ => by
        cases r with
        | some emsdAddress => exact pure_requires trivial
        | none =>
          refine ((assignText_requires buf).bind_pure fun _ _ => trivial).congr ?_
          exact iff_of_true (short_of_length hlen) trivial
    refine (Needs.ite hconvert fun _ => stop_requires).congr ?_
    constructor
    · rintro ⟨h, hlen⟩
      have hlen : buf.length < mailTmpLen := by
        by_contra hno
        exact hlen hno
      refine ⟨fun hhost hmailbox => ?_, fun buf' h' => ?_, (h hlen).1⟩
      · rw [getPrintableRfc822Address_eq_none.2 ⟨hhost, hmailbox⟩] at hbuf
        cases hbuf
      · obtain rfl := Option.some.inj (hbuf.symm.trans h')
        exact hlen
    · intro h
      exact ⟨fun _ => ⟨h.host, trivial⟩, fun hno => hno (h.printed buf hbuf)⟩

/-- The sender, if it differs from the originator. -/
def keptSender (pRfc822Env : Envelope) : List Address :=
  match pRfc822Env.sender, pRfc822Env.fromAddr with
  | sender :: _, originator :: _ => if rfc822AddressesDiffer sender originator then [sender] else []
  | _, _ => []

/-- The addresses that are converted. -/
def Envelope.converted (e : Envelope) : List Address :=
  keptSender e ++ (e.fromAddr.head?.toList ++ (e.toAddr ++ (e.ccAddr ++ (e.bccAddr ++ keptReplyTo e))))

/-- **When an envelope fits a message.** -/
structure IpmFits (env : ConvertEnv) (e : Envelope) (pHeaderStr : List Char) : Prop where
  originated : e.fromAddr ≠ []
  addresses : ∀ pAddr ∈ e.converted, Convertible env pAddr
  recipients : e.toAddr.length + e.ccAddr.length + e.bccAddr.length ≤ maxRecipients
  replyTo : e.replyTo.length ≤ maxReplyTo
  inReplyTo : ∀ s ∈ e.inReplyTo, Short s
  subject : ∀ s ∈ e.subject, Short s
  header : ItemsFit 0 (headerItems pHeaderStr)

theorem convertOriginator_requires (env : ConvertEnv) (e : Envelope) :
    Requires (convertOriginator env e)
      (e.fromAddr ≠ [] ∧ ∀ pAddr ∈ e.fromAddr.head?.toList, Convertible env pAddr) (fun _ => True) := by
  unfold convertOriginator
  cases e.fromAddr with
  | nil => exact stop_requires.congr (by simp)
  | cons originator l => exact (getRfc822Address_requires env originator).congr (by simp)

theorem convertSender_requires (env : ConvertEnv) (e : Envelope) :
    Requires (convertSender env e)
      ((e.sender ≠ [] → e.fromAddr ≠ []) ∧ ∀ pAddr ∈ keptSender e, Convertible env pAddr)
      (fun _ => True) := by
  unfold convertSender keptSender
  cases e.sender with
  | nil => exact (pure_requires trivial).congr (by simp)
  | cons sender l =>
    cases e.fromAddr with
    | nil => exact stop_requires.congr (by simp)
    | cons originator l' =>
      dsimp only
      by_cases hdiffer : rfc822AddressesDiffer sender originator = true
      · rw [if_pos hdiffer, if_pos hdiffer]
        exact ((getRfc822Address_requires env sender).bind_pure fun _ _ => trivial).congr (by simp)
      · rw [if_neg hdiffer, if_neg hdiffer]
        exact (pure_requires trivial).congr (by simp)

theorem copyRecipient_requires (env : ConvertEnv) (recipientType : ℕ) (pAddr : Address) :
    Requires (copyRecipient env recipientType pAddr) (Convertible env pAddr) (fun _ => True) := by
  unfold copyRecipient
  refine ((getRfc822Address_requires env pAddr).bind fun _ _ => ?_).congr (and_iff_left trivial)
  exact (alloc_requires 8).bind_pure fun _ _ => trivial

/-- **The recipients** need a place for each of them. -/
theorem convertRecipients_requires (env : ConvertEnv) (e : Envelope)
    (list : Slots RecipientData maxRecipients) (hempty : list.1.length = 0) :
    Requires (convertRecipients env e list)
      (e.toAddr.length + e.ccAddr.length + e.bccAddr.length ≤ maxRecipients ∧
        ∀ pAddr ∈ e.toAddr ++ (e.ccAddr ++ e.bccAddr), Convertible env pAddr) (fun _ => True) := by
  have hprimary := collect_requires (t := list) fun pAddr (_ : pAddr ∈ e.toAddr) =>
    ((getRfc822Address_requires env pAddr).bind_pure (T := fun _ : RecipientData => True)
      (g := fun recipient => ⟨recipient, .null⟩) fun _ _ => trivial)
  -- each list goes behind the ones before it
  have hcopies : ∀ t : Slots RecipientData maxRecipients, t.1.length = e.toAddr.length →
      Requires (collect (copyRecipient env recipientTypeCopy) .undefined e.ccAddr t)
        (e.toAddr.length + e.ccAddr.length ≤ maxRecipients ∧ ∀ a ∈ e.ccAddr, Convertible env a)
        (fun t' => t'.1.length = e.toAddr.length + e.ccAddr.length) := by
    intro t ht
    rw [← ht]
    exact collect_requires fun pAddr _ => copyRecipient_requires env _ pAddr
  have hblind : ∀ t : Slots RecipientData maxRecipients,
      t.1.length = e.toAddr.length + e.ccAddr.length →
      Requires (collect (copyRecipient env recipientTypeBlindCopy) .undefined e.bccAddr t)
        (e.toAddr.length + e.ccAddr.length + e.bccAddr.length ≤ maxRecipients ∧
          ∀ a ∈ e.bccAddr, Convertible env a) (fun _ => True) := by
    intro t ht
    rw [← ht]
    exact (collect_requires fun pAddr _ => copyRecipient_requires env _ pAddr).weaken
      fun _ _ => trivial
  rw [hempty, Nat.zero_add] at hprimary
  unfold convertRecipients
  refine (hprimary.bind fun t ht => (hcopies t ht).bind fun t' ht' => hblind t' ht').congr ?_
  simp only [List.forall_mem_append]
  constructor
  · rintro ⟨⟨-, h₁⟩, ⟨-, h₂⟩, h, h₃⟩
    exact ⟨h, h₁, h₂, h₃⟩
  · rintro ⟨h, h₁, h₂, h₃⟩
    exact ⟨⟨by omega, h₁⟩, ⟨by omega, h₂⟩, h, h₃⟩

theorem keptReplyTo_length (e : Envelope) :
    (keptReplyTo e).length ≤ maxReplyTo ↔ e.replyTo.length ≤ maxReplyTo := by
  unfold keptReplyTo
  split
  · rename_i pAddr hone
    rw [hone]
    split <;> simp [maxReplyTo]
  · rfl

theorem convertReplyTo_requires (env : ConvertEnv) (e : Envelope) :
    Requires (convertReplyTo env e)
      (e.replyTo.length ≤ maxReplyTo ∧ ∀ pAddr ∈ keptReplyTo e, Convertible env pAddr)
      (fun _ => True) := by
  unfold convertReplyTo
  refine ((collect_requires fun pAddr _ => getRfc822Address_requires env pAddr).bind_pure
    fun _ _ => trivial).congr ?_
  have hempty : (Slots.empty : Slots OrAddress maxReplyTo).1.length = 0 := rfl
  rw [hempty, Nat.zero_add, keptReplyTo_length]

theorem convertString_requires (s : Option (List Char)) :
    Requires (convertString s) (∀ t ∈ s, Short t) (fun _ => True) := by
  cases s with
  | none => exact (pure_requires trivial).congr (by simp)
  | some s => exact ((assignText_requires s).bind_pure fun _ _ => trivial).congr (by simp)

theorem convertInReplyTo_requires (s : Option (List Char)) :
    Requires (convertInReplyTo s) (∀ t ∈ s, Short t) (fun _ => True) := by
  cases s with
  | none => exact (pure_requires trivial).congr (by simp)
  | some s => exact ((assignText_requires s).bind_pure fun _ _ => trivial).congr (by simp)

theorem attachBody_requires (s : Option (List Char)) :
    Requires (attachBody s) True (fun _ => True) := by
  cases s with
  | none => exact pure_requires trivial
  | some s =>
    have hattach : Requires (Str.attachZString (zString s)) True (fun _ => True) :=
      osAlloc_requires.bind_pure fun _ _ => trivial
    exact hattach.bind_pure fun _ _ => trivial

theorem allocMessage_requires :
    Requires allocMessage True
      (fun m => m.recipientDataList.1.length = 0 ∧ m.extensions.1.length = 0) :=
  osAlloc_requires.bind_pure fun _ _ => ⟨rfl, rfl⟩

/-- **What the conversion of a message needs.** -/
theorem convertRfc822ToEmsdIpm_requires (env : ConvertEnv) (e : Envelope)
    (pRfc822Body : Option (List Char)) (pHeaderStr : List Char) :
    Requires (convertRfc822ToEmsdIpm env e pRfc822Body pHeaderStr) (IpmFits env e pHeaderStr)
      (fun _ => True) := by
  have hheader : ∀ pIpm : EmsdMessage, pIpm.extensions.1.length = 0 →
      Requires (parseHeaderString pHeaderStr pIpm) (ItemsFit 0 (headerItems pHeaderStr))
        (fun _ => True) := by
    intro pIpm hcount
    rw [← hcount]
    exact parseHeaderString_requires pHeaderStr pIpm
  -- one part for each step of the conversion
  have hparts : IpmFits env e pHeaderStr ↔ True ∧
      ((e.sender ≠ [] → e.fromAddr ≠ []) ∧ ∀ pAddr ∈ keptSender e, Convertible env pAddr) ∧
      (e.fromAddr ≠ [] ∧ ∀ pAddr ∈ e.fromAddr.head?.toList, Convertible env pAddr) ∧
      (e.toAddr.length + e.ccAddr.length + e.bccAddr.length ≤ maxRecipients ∧
        ∀ pAddr ∈ e.toAddr ++ (e.ccAddr ++ e.bccAddr), Convertible env pAddr) ∧
      (e.replyTo.length ≤ maxReplyTo ∧ ∀ pAddr ∈ keptReplyTo e, Convertible env pAddr) ∧
      (∀ s ∈ e.inReplyTo, Short s) ∧ (∀ s ∈ e.subject, Short s) ∧
      ItemsFit 0 (headerItems pHeaderStr) ∧ True := by
    constructor
    · intro h
      have haddresses := h.addresses
      unfold Envelope.converted at haddresses
      simp only [List.forall_mem_append] at haddresses
      obtain ⟨hsender, hfrom, hto, hcc, hbcc, hkept⟩ := haddresses
      have hrecips : ∀ pAddr ∈ e.toAddr ++ (e.ccAddr ++ e.bccAddr), Convertible env pAddr := by
        simp only [List.forall_mem_append]
        exact ⟨hto, hcc, hbcc⟩
      exact ⟨trivial, ⟨fun _ => h.originated, hsender⟩, ⟨h.originated, hfrom⟩, ⟨h.recipients, hrecips⟩,
        ⟨h.replyTo, hkept⟩, h.inReplyTo, h.subject, h.header, trivial⟩
    · rintro ⟨-, ⟨-, hsender⟩, ⟨horiginated, hfrom⟩, ⟨hrecipients, hrecips⟩, ⟨hreplyTo, hkept⟩,
        hinReplyTo, hsubject, hheader, -⟩
      refine ⟨horiginated, ?_, hrecipients, hreplyTo, hinReplyTo, hsubject, hheader⟩
      unfold Envelope.converted
      simp only [List.forall_mem_append] at hrecips ⊢
      exact ⟨hsender, hfrom, hrecips.1, hrecips.2.1, hrecips.2.2, hkept⟩
  rw [hparts]
  unfold convertRfc822ToEmsdIpm
  refine allocMessage_requires.bind fun pIpm hm => ?_
  refine (convertSender_requires env e).bind fun sender _ => ?_
  refine (convertOriginator_requires env e).bind fun originator _ => ?_
  refine (convertRecipients_requires env e _ hm.1).bind fun recipientDataList _ => ?_
  refine (convertReplyTo_requires env e).bind fun replyTo _ => ?_
  refine (convertInReplyTo_requires e.inReplyTo).bind fun repliedToIpm _ => ?_
  refine (convertString_requires e.subject).bind fun subject _ => ?_
  refine (hheader _ ?_).bind fun pIpm _ => ?_
  · exact hm.2
  · exact (attachBody_requires pRfc822Body).bind_pure fun body _ => trivial

/-! ## The fields of a report -/

theorem strtok_shorter {delimiter : Char} (h : strtok delimiter s = some (item, t)) :
    t.length < s.length := by
  have hdrop : (s.dropWhile (· = delimiter)).length ≤ s.length := List.length_dropWhile_le _ s
  unfold strtok at h
  split at h
  · cases h
  · rename_i c u heq
    obtain ⟨-, rfl⟩ := Prod.mk.inj (Option.some.inj h)
    rw [heq] at hdrop
    have hrest : ((c :: u).dropWhile (· ≠ delimiter)).length ≤ (c :: u).length :=
      List.length_dropWhile_le _ _
    rw [List.length_tail]
    rw [List.length_cons] at hdrop hrest
    omega

/-- More turns than the text is long change nothing. -/
theorem headerFields_turns {turns : ℕ} (h : s.length ≤ turns) :
    headerFields turns s = headerFields s.length s := by
  suffices hsame : ∀ n k : ℕ, ∀ s : List Char, s.length ≤ n → s.length ≤ k →
      headerFields n s = headerFields k s from hsame turns s.length s h le_rfl
  intro n
  induction n with
  | zero =>
    intro k s hn _
    obtain rfl := List.length_eq_zero_iff.1 (Nat.le_zero.1 hn)
    cases k <;> rfl
  | succ n ih =>
    intro k s hn hk
    cases k with
    | zero =>
      obtain rfl := List.length_eq_zero_iff.1 (Nat.le_zero.1 hk)
      rfl
    | succ k =>
      unfold headerFields
      cases hheader : strtok ':' s with
      | none => rfl
      | some r =>
        obtain ⟨pHeader, s₁⟩ := r
        dsimp only
        cases hvalue : strtok '\n' s₁ with
        | none => rfl
        | some r =>
          obtain ⟨pValue, s₂⟩ := r
          -- a turn takes two tokens, so that the rest is shorter than the turns left
          have h₁ := strtok_shorter hheader
          have h₂ := strtok_shorter hvalue
          dsimp only
          rw [ih k s₂ (by omega) (by omega)]

/-- **The loop over the fields** of a header text: it ends where there is no token left. -/
theorem headerFields_eq (s : List Char) : headerFields s.length s =
    match strtok ':' s with
    | none => []
    | some (pHeader, s₁) =>
      match strtok '\n' s₁ with
      | none => []
      | some (pValue, s₂) =>
        (pHeader.dropWhile isWhite, pValue.dropWhile isWhite) :: headerFields s₂.length s₂ := by
  rw [← headerFields_turns (Nat.le_succ s.length), headerFields]
  cases hheader : strtok ':' s with
  | none => rfl
  | some r =>
    obtain ⟨pHeader, s₁⟩ := r
    dsimp only
    cases hvalue : strtok '\n' s₁ with
    | none => rfl
    | some r =>
      obtain ⟨pValue, s₂⟩ := r
      have h₁ := strtok_shorter hheader
      have h₂ := strtok_shorter hvalue
      dsimp only
      rw [headerFields_turns (s := s₂) (by omega)]

/-- The texts that are copied out of a field. -/
def fieldTexts (field : List Char × List Char) : List (List Char) :=
  if isIntendedRecipient field.1 then
    if isDelivered field.2 then [] else [recipientText field.2]
  else if isOriginalMessageId field.1 then [field.2]
  else []

/-- **When the fields of a header text fit a report**, with as many recipients before them. -/
structure FieldsFit (count : ℕ) (fields : List (List Char × List Char)) : Prop where
  room : count + fields.countP (fun field => isIntendedRecipient field.1) ≤ maxRecipients
  short : ∀ field ∈ fields, ∀ s ∈ fieldTexts field, Short s

theorem intendedRecipient_requires (pValue : List Char) :
    Requires (intendedRecipient pValue) (isDelivered pValue = false → Short (recipientText pValue))
      (fun _ => True) := by
  unfold intendedRecipient
  cases isDelivered pValue with
  | true => exact (pure_requires trivial).congr (by simp)
  | false => exact ((assignText_requires _).bind_pure fun _ _ => trivial).congr (by simp)

theorem reportField_requires (pReport : ReportDelivery) (field : List Char × List Char) :
    Requires (reportField pReport field)
      (pReport.recipDataList.1.length + (if isIntendedRecipient field.1 then 1 else 0) ≤ maxRecipients ∧
        ∀ s ∈ fieldTexts field, Short s)
      (fun r => r.recipDataList.1.length =
        pReport.recipDataList.1.length + if isIntendedRecipient field.1 then 1 else 0) := by
  have hroom := pReport.recipDataList.2
  unfold reportField fieldTexts
  cases isIntendedRecipient field.1 with
  | true =>
    have h : Requires (collect intendedRecipient .undefined [field.2] pReport.recipDataList >>=
        fun recipDataList => pure { pReport with recipDataList })
        (pReport.recipDataList.1.length + 1 ≤ maxRecipients ∧
          ∀ v ∈ [field.2], isDelivered v = false → Short (recipientText v))
        (fun r => r.recipDataList.1.length = pReport.recipDataList.1.length + 1) :=
      (collect_requires fun v _ => intendedRecipient_requires v).bind_pure fun _ hlen => hlen
    cases hdelivered : isDelivered field.2 <;> simpa [hdelivered] using h
  | false =>
    cases isOriginalMessageId field.1 with
    | true =>
      have h : Requires (assignText field.2 >>= fun string =>
          pure { pReport with msgIdOfReportedMsg := .rfc822 (some string) }) (Short field.2)
          (fun r => r.recipDataList.1.length = pReport.recipDataList.1.length) :=
        (assignText_requires field.2).bind_pure fun _ _ => rfl
      simpa [hroom] using h
    | false =>
      have h : Requires (pure pReport) True (fun r : ReportDelivery =>
        r.recipDataList.1.length = pReport.recipDataList.1.length) := pure_requires rfl
      simpa [hroom] using h

theorem reportFields_requires (fields : List (List Char × List Char)) (pReport : ReportDelivery) :
    Requires (fields.foldlM reportField pReport)
      (FieldsFit pReport.recipDataList.1.length fields) (fun _ => True) := by
  induction fields generalizing pReport with
  | nil =>
    refine (pure_requires trivial).congr (iff_of_true trivial ⟨pReport.recipDataList.2, ?_⟩)
    simp
  | cons field fields ih =>
    have hcons : FieldsFit pReport.recipDataList.1.length (field :: fields) ↔
        (pReport.recipDataList.1.length + (if isIntendedRecipient field.1 then 1 else 0) ≤
          maxRecipients ∧ ∀ s ∈ fieldTexts field, Short s) ∧
        FieldsFit (pReport.recipDataList.1.length + if isIntendedRecipient field.1 then 1 else 0)
          fields := by
      constructor
      · rintro ⟨hroom, hshort⟩
        rw [List.countP_cons] at hroom
        obtain ⟨hfield, hfields⟩ := List.forall_mem_cons.1 hshort
        exact ⟨⟨by omega, hfield⟩, by omega, hfields⟩
      · rintro ⟨⟨-, hfield⟩, hroom, hfields⟩
        refine ⟨?_, List.forall_mem_cons.2 ⟨hfield, hfields⟩⟩
        rw [List.countP_cons]
        omega
    rw [List.foldlM_cons, hcons]
    refine (reportField_requires pReport field).bind fun r hr => ?_
    rw [← hr]
    exact ih r

/-- **What the conversion of a report needs.** -/
theorem convertRfc822ToEmsdReport_requires (pHeaderStr : List Char) :
    Requires (convertRfc822ToEmsdReport pHeaderStr)
      (FieldsFit 0 (headerFields pHeaderStr.length pHeaderStr)) (fun _ => True) := by
  have halloc : Requires allocReportDelivery True (fun r => r.recipDataList.1.length = 0) :=
    osAlloc_requires.bind_pure fun _ _ => rfl
  unfold convertRfc822ToEmsdReport
  refine (halloc.bind fun pReport hcount => ?_).congr (and_iff_right trivial)
  rw [← hcount]
  exact reportFields_requires _ pReport

/-! ## Results -/

/-- Whatever is allocated, no null pointer is followed and nothing is written outside of an array or a
block. -/
def Defined {α : Type} (x : Run α) : Prop := ∀ m e, x m = .error e → e ≠ .undefined

theorem defined_iff {α : Type} {x : Run α} {P : Prop} (h : Requires x P (fun _ => True)) :
    Defined x ↔ P :=
  h.safe_iff ⟨⟨fun _ => some fun _ => 0, 0⟩, fun _ => rfl⟩

/-- **The conversions do nothing undefined** if and only if the envelope fits the message, and the header
text the message or the report. -/
theorem conversion_iff (env : ConvertEnv) (pRfc822Env : Envelope) (pRfc822Body : Option (List Char))
    (pHeaderStr : List Char) (pHeading : EmsdMessage) :
    (Defined (convertRfc822ToEmsdIpm env pRfc822Env pRfc822Body pHeaderStr) ↔
      IpmFits env pRfc822Env pHeaderStr) ∧
    (Defined (convertRfc822ToEmsdReport pHeaderStr) ↔
      FieldsFit 0 (headerFields pHeaderStr.length pHeaderStr)) ∧
    (Defined (parseHeaderString pHeaderStr pHeading) ↔
      ItemsFit pHeading.extensions.1.length (headerItems pHeaderStr)) :=
  ⟨defined_iff (convertRfc822ToEmsdIpm_requires env pRfc822Env pRfc822Body pHeaderStr),
    defined_iff (convertRfc822ToEmsdReport_requires pHeaderStr),
    defined_iff (parseHeaderString_requires pHeaderStr pHeading)⟩

/-- A header text that ends in a folded line without a newline, 257 recipients, a group of recipients while
a host is configured, and a message without an originator. -/
theorem conversion_undefined :
    ¬Defined (convertRfc822ToEmsdIpm ⟨[], []⟩
      { fromAddr := [{ mailbox := some ['a'], host := some ['b'] }] } none "X: a\n b".toList) ∧
    ¬Defined (convertRfc822ToEmsdIpm ⟨[], []⟩
      { fromAddr := [{ mailbox := some ['a'], host := some ['b'] }]
        toAddr := List.replicate 257 { mailbox := some ['a'], host := some ['b'] } } none []) ∧
    ¬Defined (convertRfc822ToEmsdIpm ⟨[['b']], []⟩
      { fromAddr := [{ mailbox := some ['a'], host := some ['b'] }]
        toAddr := [{ mailbox := some "undisclosed-recipients".toList }, {}] } none []) ∧
    ¬Defined (convertRfc822ToEmsdIpm ⟨[], []⟩ {} none []) := by
  refine ⟨fun h => ?_, fun h => ?_, fun h => ?_, fun h => ?_⟩
  · have hfits := (defined_iff (convertRfc822ToEmsdIpm_requires _ _ _ _)).1 h
    exact hfits.header.ended ⟨"X: a\n b".toList, false⟩ (by decide +kernel) (by decide +kernel)
  · have hfits := (defined_iff (convertRfc822ToEmsdIpm_requires _ _ _ _)).1 h
    have hrecipients := hfits.recipients
    simp only [List.length_replicate, List.length_nil] at hrecipients
    exact absurd hrecipients (by decide)
  · have hfits := (defined_iff (convertRfc822ToEmsdIpm_requires _ _ _ _)).1 h
    exact (hfits.addresses {} (by decide +kernel)).host (by simp) rfl
  · have hfits := (defined_iff (convertRfc822ToEmsdIpm_requires _ _ _ _)).1 h
    exact hfits.originated rfl

end Mts
