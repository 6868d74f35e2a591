import Emsd.Ocp.Strings

/-!
# The heading of a message (`include/emsd.h`, `mtsua/emsdalloc.c`)

What the agents keep of an interpersonal message between its formats. A part that may be left out has a
flag for it (`exists` in the source, `present` here), beside data that may be there without it; a list
has a fixed number of places.
-/

namespace Mtsua

open Ocp Fallible

/-- A part that may be left out. -/
structure Optional (α : Type) where
  present : Bool
  data : α
  deriving DecidableEq, Repr

/-- `EMSD_AsciiString` and `ASN_BitString`: a handle, null until there is a string. -/
abbrev StrHandle := Option Str

/-- A field after `mtsua_allocMessage`, which clears the message. -/
def Optional.null : Optional StrHandle := ⟨false, none⟩

/-- `EMSD_ORAddress`. -/
inductive OrAddress
  | emsdLocal (emsdAddress : UInt32) (emsdName : Optional StrHandle)
  | rfc822 (string : StrHandle)
  deriving DecidableEq, Repr

/-- The address of a message that has been cleared. -/
def OrAddress.zero : OrAddress := .emsdLocal 0 .null

/-- `EMSD_MessageId`. -/
inductive EmsdMessageId
  | emsdLocal (submissionTime dailyMessageNumber : UInt32)
  | rfc822 (string : StrHandle)
  deriving DecidableEq, Repr

/-- `EMSD_RecipientData`. -/
structure RecipientData where
  recipient : OrAddress
  perRecipFlags : Optional StrHandle
  deriving DecidableEq, Repr

/-- `EMSD_Extension`. -/
structure EmsdExtension where
  label : StrHandle
  value : StrHandle
  deriving DecidableEq, Repr

/-! ## `EMSD_PerRecipFlags` and `EMSD_PerMessageFlags` -/

def recipientTypeCopy : ℕ := 0
def recipientTypeBlindCopy : ℕ := 1
def notificationRequestRn : ℕ := 2
def notificationRequestNrn : ℕ := 3
def notificationRequestIpmReturn : ℕ := 4
def reportRequestNonDelivery : ℕ := 5
def reportRequestDelivery : ℕ := 6
def replyRequestedFlag : ℕ := 7

def priorityNonUrgent : ℕ := 0
def priorityUrgent : ℕ := 1
def importanceLow : ℕ := 2
def importanceHigh : ℕ := 3
def autoForwardedFlag : ℕ := 4

/-- `EMSDUB_MAX_RECIPIENTS`. -/
def maxRecipients : ℕ := 256

/-- `EMSDUB_MAX_REPLY_TO`. -/
def maxReplyTo : ℕ := 256

/-- `EMSDUB_MAX_HEADER_EXTENSIONS`. -/
def maxHeaderExtensions : ℕ := 64

/-- `EMSD_Message`: the heading and the body. -/
structure EmsdMessage where
  sender : Optional OrAddress
  originator : OrAddress
  recipientDataList : Slots RecipientData maxRecipients
  perMessageFlags : Optional StrHandle
  replyTo : Optional (Slots OrAddress maxReplyTo)
  repliedToIpm : Optional EmsdMessageId
  subject : Optional StrHandle
  extensions : Slots EmsdExtension maxHeaderExtensions
  mimeVersion : Optional StrHandle
  mimeContentType : Optional StrHandle
  mimeContentId : Optional StrHandle
  mimeContentDescription : Optional StrHandle
  mimeContentTransferEncoding : Optional StrHandle
  body : Optional StrHandle

/-- `mtsua_allocMessage`: the message with every octet zero. -/
def allocMessage : Run EmsdMessage := do
  let _ ← osAlloc
  pure {
    sender := ⟨false, .zero⟩
    originator := .zero
    recipientDataList := .empty
    perMessageFlags := .null
    replyTo := ⟨false, .empty⟩
    repliedToIpm := ⟨false, .emsdLocal 0 0⟩
    subject := .null
    extensions := .empty
    mimeVersion := .null
    mimeContentType := .null
    mimeContentId := .null
    mimeContentDescription := .null
    mimeContentTransferEncoding := .null
    body := .null }

end Mtsua
