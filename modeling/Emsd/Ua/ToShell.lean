import Emsd.Ua.FromShell
import Emsd.Lib.Numeral

/-!
# From a message to the shell's heading (`uacore/tosh.c`, `uacore/msgid.c`)

How the user agent makes a heading of a message that has been delivered, and gives it to the shell.

The record for a recipient is taken from memory as it is: a flag that the message does not set is what
happens to be there.
-/

namespace Ua

open Ocp Mtsua Fallible

/-! ## Message ids -/

/-- The octet that `%lx` writes for a digit. -/
def hexDigit (d : ℕ) : UInt8 := (if d < 10 then 48 + d else 87 + d).toUInt8

/-- `%08lx`. -/
def hex8 (n : UInt32) : Octets :=
  let ds := (Numeral.digits 16 n.toNat).map hexDigit
  List.replicate (8 - ds.length) 48 ++ ds

/-- The size of the buffers for a message id. -/
def messageIdBuffer : ℕ := 128

/-- `ua_messageIdEmsdToRfc822`, into such a buffer. -/
def messageIdEmsdToRfc822 : EmsdMessageId → Run ZString
  | .emsdLocal submissionTime dailyMessageNumber =>
    pure (.ofOctets (hex8 submissionTime ++ [46] ++ hex8 dailyMessageNumber))
  | .rfc822 string => do
    let z ← Str.stringStart string
    if z.1.length < messageIdBuffer then pure z else stop .undefined

/-! ## The parts of the heading -/

/-- `addAddr` of this direction. -/
def addAddrToShell : OrAddress → Run Recipient
  | .emsdLocal emsdAddress emsdName => do
    if emsdName.present then pure (.emsd emsdAddress (some (← Str.stringStart emsdName.data)))
    else pure (.emsd emsdAddress none)
  | .rfc822 string => do pure (.rfc822 (some (← Str.stringStart string)))

/-- `STR_bitStringGetBit` of a handle. -/
def getBit (data : StrHandle) (bit : ℕ) : Run Bool :=
  match data with
  | none => stop .undefined
  | some s => pure (s.bitStringGetBit bit)

/-- The type of a recipient. -/
def recipientTypeToShell (flags : Optional StrHandle) : Run RecipientType := do
  if !flags.present then pure .primary
  else if ← getBit flags.data recipientTypeCopy then pure .copy
  else if ← getBit flags.data recipientTypeBlindCopy then pure .blindCopy
  else pure .primary

/-- A flag of the record: `TRUE` if it was requested, else what the memory holds. -/
def flagToShell (flags : Optional StrHandle) (bit : ℕ) (held : UInt8) : Run Bool := do
  if flags.present then
    if ← getBit flags.data bit then pure true else pure (held != 0)
  else pure (held != 0)

/-- One turn of the loop over the recipients; the flags of the record are its octets 0 to 5. -/
def recipientToShell (r : RecipientData) : Run RecipientInfo := do
  let record ← osAlloc
  let recipient ← addAddrToShell r.recipient
  let recipientType ← recipientTypeToShell r.perRecipFlags
  let rn ← flagToShell r.perRecipFlags notificationRequestRn (record 0)
  let nrn ← flagToShell r.perRecipFlags notificationRequestNrn (record 1)
  let ipmReturn ← flagToShell r.perRecipFlags notificationRequestIpmReturn (record 2)
  let nonDelivery ← flagToShell r.perRecipFlags reportRequestNonDelivery (record 3)
  let delivery ← flagToShell r.perRecipFlags reportRequestDelivery (record 4)
  let reply ← flagToShell r.perRecipFlags replyRequestedFlag (record 5)
  pure {
    recipient, recipientType
    bReceiptNotificationRequested := rn
    bNonReceiptNotificationRequested := nrn
    bMessageReturnRequested := ipmReturn
    bNonDeliveryReportRequested := nonDelivery
    bDeliveryReportRequested := delivery
    bReplyRequested := reply }

/-- One turn of the loop over the reply-to recipients. -/
def replyToToShell (a : OrAddress) : Run Recipient := do
  let _ ← osAlloc
  addAddrToShell a

/-- One turn of the loop over the extensions. -/
def extensionToShell (e : EmsdExtension) : Run ShellExtension := do
  let _ ← osAlloc
  pure ⟨some (← Str.stringStart e.label), some (← Str.stringStart e.value)⟩

/-- A string of the message, if it exists. -/
def stringToShell (f : Optional StrHandle) : Run (Option ZString) := do
  if f.present then pure (some (← Str.stringStart f.data)) else pure none

def senderToShell (f : Optional OrAddress) : Run Recipient := do
  if f.present then addAddrToShell f.data else pure (.rfc822 none)

def repliedToToShell (f : Optional EmsdMessageId) : Run (Option ZString) := do
  if f.present then pure (some (← messageIdEmsdToRfc822 f.data)) else pure none

/-- The priority that the flags give. -/
def priorityToShell (flags : Optional StrHandle) : Run Priority := do
  if !flags.present then pure .normal
  else if ← getBit flags.data priorityUrgent then pure .urgent
  else if ← getBit flags.data priorityNonUrgent then pure .nonUrgent
  else pure .normal

/-- The importance that the flags give. -/
def importanceToShell (flags : Optional StrHandle) : Run Importance := do
  if !flags.present then pure .normal
  else if ← getBit flags.data importanceLow then pure .low
  else if ← getBit flags.data importanceHigh then pure .high
  else pure .normal

def autoForwardedToShell (flags : Optional StrHandle) : Run Bool := do
  if flags.present then getBit flags.data autoForwardedFlag else pure false

/-- The version of a message that has a content type. -/
def mimeVersionToShell (f : Optional StrHandle) : Run (Option ZString) := do
  if f.present then pure (some (← Str.stringStart f.data)) else pure (some mime10)

/-- A field of the heading that is only set where there is a content type. -/
def ifMime (mime : Bool) (field : Run (Option ZString)) : Run (Option ZString) :=
  if mime then field else pure none

/-! ## The message -/

/-- What `ua_messageToShell` uses of `EMSD_DeliverArgument`. -/
structure EmsdDeliverArgument where
  messageId : EmsdMessageId
  submissionTime : Optional UInt32
  deliveryTime : UInt32
  deriving DecidableEq, Repr

/-- What the shell's function for a received message is given. -/
structure Received where
  messageId : ZString
  submissionTime : UInt32
  deliveryTime : UInt32
  heading : MessageHeading
  pBodyText : Option ZString
  deriving DecidableEq, Repr

/-- The submission time: of the message id if it is a local one. -/
def submissionTimeToShell (d : EmsdDeliverArgument) : UInt32 :=
  match d.messageId with
  | .rfc822 _ => if d.submissionTime.present then d.submissionTime.data else 0
  | .emsdLocal submissionTime _ => submissionTime

/-- The heading that is made of a message. -/
def headingToShell (ipm : EmsdMessage) : Run MessageHeading := do
  let originator ← addAddrToShell ipm.originator
  let sender ← senderToShell ipm.sender
  let recipInfo ← ipm.recipientDataList.1.mapM recipientToShell
  let replyTo ← ipm.replyTo.data.1.mapM replyToToShell
  let pRepliedToMessageId ← repliedToToShell ipm.repliedToIpm
  let pSubject ← stringToShell ipm.subject
  let priority ← priorityToShell ipm.perMessageFlags
  let importance ← importanceToShell ipm.perMessageFlags
  let bAutoForwarded ← autoForwardedToShell ipm.perMessageFlags
  -- without a content type this is not a MIME message
  let mime := ifMime ipm.mimeContentType.present
  let pMimeVersion ← mime (mimeVersionToShell ipm.mimeVersion)
  let pMimeContentType ← stringToShell ipm.mimeContentType
  let pMimeContentId ← mime (stringToShell ipm.mimeContentId)
  let pMimeContentDescription ← mime (stringToShell ipm.mimeContentDescription)
  let pMimeContentTransferEncoding ← mime (stringToShell ipm.mimeContentTransferEncoding)
  let extensions ← ipm.extensions.1.mapM extensionToShell
  pure {
    originator, sender, recipInfo, replyTo, pRepliedToMessageId, pSubject, priority, importance,
    bAutoForwarded, pMimeVersion, pMimeContentType, pMimeContentId, pMimeContentDescription,
    pMimeContentTransferEncoding, extensions }

/-- `ua_messageToShell`: what the shell is given, and whether it takes it. -/
def messageToShell (pfMessageReceived : Received → Bool) (pDeliver : EmsdDeliverArgument)
    (ipm : EmsdMessage) : Run (Received × Bool) := do
  let heading ← headingToShell ipm
  let pBodyText ← stringToShell ipm.body
  let messageId ← messageIdEmsdToRfc822 pDeliver.messageId
  let received := {
    messageId, heading, pBodyText
    submissionTime := submissionTimeToShell pDeliver
    deliveryTime := pDeliver.deliveryTime }
  pure (received, pfMessageReceived received)

end Ua
