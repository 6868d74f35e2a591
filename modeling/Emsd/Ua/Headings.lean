import Emsd.Ua.ToShell

/-!
# A heading there and back

What a heading of the shell comes back as when the message that is made of it is turned into a heading
again.

* `ComesBack`: what is kept of a heading.
* `heading_comesBack`: **every heading that is accepted comes back so**; and it does come back with memory at
  hand, if its addresses are there and its replied-to id fits.
* `replyTo_leftOut`: a heading does not always come back as it was.
-/

namespace Ua

open Ocp Mtsua Fallible

variable {h : MessageHeading} {ipm : EmsdMessage} {m m' n n' : Blocks} {bit : ℕ}

/-! ## Addresses and strings -/

/-- The address that is made of a recipient. -/
def orAddress : Recipient → OrAddress
  | .emsd emsdAddr pName => .emsdLocal emsdAddr ⟨pName.isSome, pName.map Str.ofZString⟩
  | .rfc822 p => .rfc822 (p.map Str.ofZString)

/-- The addresses differ, by their numbers or by their texts without the case of letters. -/
def differ : Recipient → Recipient → Bool
  | .emsd a _, .emsd b _ => a ≠ b
  | .rfc822 (some a), .rfc822 (some b) => strcasecmp a b
  | _, _ => true

/-- The field that is made of a string. -/
def optionalOf (z : Option ZString) : Optional StrHandle := ⟨z.isSome, z.map Str.ofZString⟩

theorem gives_addAddr {r : Recipient} {a : OrAddress} (h : Gives (addAddr r) m a m') :
    a = orAddress r := by
  cases r with
  | emsd emsdAddr pName =>
    cases pName with
    | none => exact (gives_pure.1 h).1.symm
    | some z =>
      obtain ⟨s, _, hs, hp⟩ := gives_bind.1 h
      rw [← (gives_pure.1 hp).1, Str.gives_assignZString (gives_mapError.1 hs)]
      rfl
  | rfc822 p =>
    cases p with
    | none => exact (gives_pure.1 h).1.symm
    | some z =>
      obtain ⟨s, _, hs, hp⟩ := gives_bind.1 h
      rw [← (gives_pure.1 hp).1, Str.gives_assignZString (gives_mapError.1 hs)]
      rfl

theorem gives_addressesDiffer {r r' : Recipient} {b : Bool}
    (h : Gives (addressesDiffer r r') m b m') : b = differ r r' := by
  cases r with
  | emsd a p =>
    cases r' with
    | emsd a' p' => exact (gives_pure.1 h).1.symm
    | rfc822 p' => exact (gives_pure.1 h).1.symm
  | rfc822 p =>
    cases r' with
    | emsd a' p' => cases p <;> exact (gives_pure.1 h).1.symm
    | rfc822 p' =>
      cases p with
      | none =>
        cases p' with
        | none => exact absurd h not_gives_stop
        | some z' => exact (gives_pure.1 h).1.symm
      | some z => cases p' <;> exact (gives_pure.1 h).1.symm

theorem gives_fromString {z : Option ZString} {f : Optional StrHandle}
    (h : Gives (fromString z) m f m') : f = optionalOf z := by
  cases z with
  | none => exact (gives_pure.1 h).1.symm
  | some z =>
    obtain ⟨s, _, hs, hp⟩ := gives_bind.1 h
    rw [← (gives_pure.1 hp).1, Str.gives_assignZString hs]
    rfl

/-- **An address comes back**, unless it is a null pointer. -/
theorem addAddrToShell_orAddress {r : Recipient} (hr : r ≠ .rfc822 none) :
    addAddrToShell (orAddress r) = pure r := by
  cases r with
  | emsd emsdAddr pName =>
    cases pName with
    | none => rfl
    | some z =>
      change (do
        if true then pure (Recipient.emsd emsdAddr (some (← Str.stringStart (some (.ofZString z)))))
        else pure (.emsd emsdAddr none)) = _
      rw [Str.stringStart_ofZString]
      rfl
  | rfc822 p =>
    cases p with
    | none => exact absurd rfl hr
    | some z =>
      change (do pure (Recipient.rfc822 (some (← Str.stringStart (some (.ofZString z)))))) = _
      rw [Str.stringStart_ofZString]
      rfl

theorem gives_addAddrToShell {r r' : Recipient} (h : Gives (addAddrToShell (orAddress r)) m r' m') :
    r' = r ∧ m' = m := by
  by_cases hr : r = .rfc822 none
  · subst hr
    obtain ⟨z, _, hz, -⟩ := gives_bind.1 h
    exact absurd hz not_gives_stop
  · rw [addAddrToShell_orAddress hr] at h
    obtain ⟨rfl, rfl⟩ := gives_pure.1 h
    exact ⟨rfl, rfl⟩

/-- **A string comes back.** -/
theorem stringToShell_optionalOf (z : Option ZString) : stringToShell (optionalOf z) = pure z := by
  cases z with
  | none => rfl
  | some z =>
    change (do
      if true then pure (some (← Str.stringStart (some (.ofZString z)))) else pure none) = _
    rw [Str.stringStart_ofZString]
    rfl

/-! ## The flags of a recipient -/

/-- What is asked for a recipient, with the bits for it. -/
def requests (r : RecipientInfo) : List (Bool × ℕ) :=
  [(r.recipientType = .copy, recipientTypeCopy), (r.recipientType = .blindCopy, recipientTypeBlindCopy),
    (r.bReceiptNotificationRequested, notificationRequestRn),
    (r.bNonReceiptNotificationRequested, notificationRequestNrn),
    (r.bMessageReturnRequested, notificationRequestIpmReturn),
    (r.bNonDeliveryReportRequested, reportRequestNonDelivery),
    (r.bDeliveryReportRequested, reportRequestDelivery), (r.bReplyRequested, replyRequestedFlag)]

theorem perRecipFlags_eq (r : RecipientInfo) (data : Str) : perRecipFlags r data =
    (requests r).foldl (fun flags q => mark q.1 q.2 flags) (false, data) := rfl

/-- The bits of `l` that are asked for are set, and the flags are there if there is one. -/
structure Marked (data : Str) (l : List (Bool × ℕ)) (flags : Bool × Str) : Prop where
  counted : flags.2.Counted
  maxLen : flags.2.maxLen = data.maxLen
  present : flags.1 = l.any (·.1)
  getBit : ∀ j, flags.2.bitStringGetBit j = (l.any fun q => q.1 && q.2 == j)

theorem Marked.mark {data : Str} {l : List (Bool × ℕ)} {flags : Bool × Str} {q : Bool × ℕ}
    (hm : Marked data l flags) (hq : q.2 < data.maxLen) :
    Marked data (l ++ [q]) (mark q.1 q.2 flags) := by
  obtain ⟨requested, bit⟩ := q
  cases requested with
  | false =>
    refine ⟨hm.counted, hm.maxLen, ?_, fun j => ?_⟩
    · simpa [Ua.mark] using hm.present
    · simpa [Ua.mark] using hm.getBit j
  | true =>
    have hbit : bit < flags.2.maxLen := hm.maxLen ▸ hq
    refine ⟨hm.counted.bitStringSetBit true, (Str.bitStringSetBit_maxLen true).trans hm.maxLen, ?_,
      fun j => ?_⟩
    · simp [Ua.mark]
    · have hset := Str.getBit_setBit hm.counted hbit j true
      simp only [Ua.mark, if_true] at *
      rw [hset, hm.getBit j]
      by_cases hj : j = bit
      · subst hj
        simp
      · have hne : (bit == j) = false := by simpa using fun h => hj h.symm
        simp [hj, hne]

theorem Marked.fold {data : Str} {l l' : List (Bool × ℕ)} {flags : Bool × Str}
    (hm : Marked data l flags) (hl : ∀ q ∈ l', q.2 < data.maxLen) :
    Marked data (l ++ l') (l'.foldl (fun flags q => Ua.mark q.1 q.2 flags) flags) := by
  induction l' generalizing l flags with
  | nil => simpa using hm
  | cons q l' ih =>
    have hstep := hm.mark (hl q List.mem_cons_self)
    have hrest := ih hstep fun q' hq' => hl q' (List.mem_cons_of_mem q hq')
    simpa [List.append_assoc] using hrest

/-- **The flags of a recipient**: what is asked for, and nothing else. -/
theorem marked_perRecipFlags (r : RecipientInfo) :
    Marked ⟨8, 0, []⟩ (requests r) (perRecipFlags r ⟨8, 0, []⟩) := by
  rw [perRecipFlags_eq]
  have hstart : Marked ⟨8, 0, []⟩ [] (false, ⟨8, 0, []⟩) :=
    ⟨rfl, rfl, rfl, fun j => Str.bitStringGetBit_alloc 8⟩
  refine hstart.fold fun q hq => ?_
  have hbit : q.2 ∈ (requests r).map (·.2) := List.mem_map_of_mem hq
  have hall : ∀ bit ∈ (requests r).map (·.2), bit < 8 := by
    change ∀ bit ∈ [0, 1, 2, 3, 4, 5, 6, 7], bit < 8
    decide
  exact hall q.2 hbit

/-- What is asked for a recipient is what his flags say. -/
theorem getBit_perRecipFlags {r : RecipientInfo} {requested : Bool} (hmem : (requested, bit) ∈ requests r) :
    (perRecipFlags r ⟨8, 0, []⟩).2.bitStringGetBit bit = requested := by
  rw [(marked_perRecipFlags r).getBit bit]
  -- no bit is there twice
  have honly : ∀ q ∈ requests r, q.2 = bit → q = (requested, bit) := by
    intro q hq hbit
    have hnodup : ((requests r).map (·.2)).Nodup := by
      change [0, 1, 2, 3, 4, 5, 6, 7].Nodup
      decide
    exact List.inj_on_of_nodup_map hnodup hq hmem hbit
  cases requested with
  | true =>
    rw [List.any_eq_true]
    exact ⟨(true, bit), hmem, by simp⟩
  | false =>
    rw [List.any_eq_false]
    intro q hq hset
    simp only [Bool.and_eq_true, beq_iff_eq] at hset
    have heq := honly q hq hset.2
    rw [heq] at hset
    exact absurd hset.1 Bool.false_ne_true

theorem present_perRecipFlags {r : RecipientInfo} (hmem : (true, bit) ∈ requests r) :
    (perRecipFlags r ⟨8, 0, []⟩).1 = true := by
  rw [(marked_perRecipFlags r).present, List.any_eq_true]
  exact ⟨_, hmem, rfl⟩

/-- The data of a recipient. -/
def recipientData (r : RecipientInfo) : RecipientData :=
  let flags := perRecipFlags r ⟨8, 0, []⟩
  ⟨orAddress r.recipient, ⟨flags.1, some flags.2⟩⟩

theorem gives_fromRecipient {r : RecipientInfo} {d : RecipientData}
    (h : Gives (fromRecipient r) m d m') : d = recipientData r := by
  obtain ⟨a, _, ha, h⟩ := gives_bind.1 h
  obtain ⟨data, _, hdata, h⟩ := gives_bind.1 h
  obtain ⟨_, _, -, hp⟩ := gives_bind.1 hdata
  rw [← (gives_pure.1 h).1, gives_addAddr ha, ← (gives_pure.1 hp).1]
  rfl

/-- The flag that comes back: the one that was requested, or what the memory held. -/
theorem flagToShell_recipientData {r : RecipientInfo} {requested : Bool} {held : UInt8}
    (hmem : (requested, bit) ∈ requests r) :
    flagToShell (recipientData r).perRecipFlags bit held = pure (requested || held != 0) := by
  have hget := getBit_perRecipFlags hmem
  unfold flagToShell recipientData
  dsimp only [getBit]
  rw [hget]
  cases requested with
  | true =>
    rw [if_pos (present_perRecipFlags hmem)]
    rfl
  | false =>
    split <;> rfl

theorem recipientTypeToShell_recipientData (r : RecipientInfo) :
    recipientTypeToShell (recipientData r).perRecipFlags = pure r.recipientType := by
  have hcopy : (decide (r.recipientType = .copy), recipientTypeCopy) ∈ requests r := by
    simp [requests]
  have hblind : (decide (r.recipientType = .blindCopy), recipientTypeBlindCopy) ∈ requests r := by
    simp [requests]
  have hget := getBit_perRecipFlags hcopy
  have hget' := getBit_perRecipFlags hblind
  unfold recipientTypeToShell recipientData
  dsimp only [getBit]
  rw [hget, hget']
  cases htype : r.recipientType with
  | primary => split <;> rfl
  | copy =>
    rw [htype] at hcopy
    have hpresent := present_perRecipFlags hcopy
    rw [if_neg (by simp [hpresent])]
    rfl
  | blindCopy =>
    rw [htype] at hblind
    have hpresent := present_perRecipFlags hblind
    rw [if_neg (by simp [hpresent])]
    rfl

/-- The record that comes back when the memory held `p`. -/
def RecipientInfo.held (r : RecipientInfo) (p : ℕ → UInt8) : RecipientInfo where
  recipient := r.recipient
  recipientType := r.recipientType
  bReceiptNotificationRequested := r.bReceiptNotificationRequested || p 0 != 0
  bNonReceiptNotificationRequested := r.bNonReceiptNotificationRequested || p 1 != 0
  bMessageReturnRequested := r.bMessageReturnRequested || p 2 != 0
  bNonDeliveryReportRequested := r.bNonDeliveryReportRequested || p 3 != 0
  bDeliveryReportRequested := r.bDeliveryReportRequested || p 4 != 0
  bReplyRequested := r.bReplyRequested || p 5 != 0

/-- **A recipient comes back**, with what the memory held for the flags that were not requested. -/
theorem recipientToShell_recipientData (r : RecipientInfo) :
    recipientToShell (recipientData r) = (do
      let p ← osAlloc
      let recipient ← addAddrToShell (orAddress r.recipient)
      pure { r.held p with recipient }) := by
  have hflag : ∀ q ∈ requests r, ∀ held, flagToShell (recipientData r).perRecipFlags q.2 held =
      pure (q.1 || held != 0) := fun q hq held => flagToShell_recipientData hq
  unfold recipientToShell
  simp only [recipientTypeToShell_recipientData, pure_bind,
    hflag (r.bReceiptNotificationRequested, notificationRequestRn) (by simp [requests]),
    hflag (r.bNonReceiptNotificationRequested, notificationRequestNrn) (by simp [requests]),
    hflag (r.bMessageReturnRequested, notificationRequestIpmReturn) (by simp [requests]),
    hflag (r.bNonDeliveryReportRequested, reportRequestNonDelivery) (by simp [requests]),
    hflag (r.bDeliveryReportRequested, reportRequestDelivery) (by simp [requests]),
    hflag (r.bReplyRequested, replyRequestedFlag) (by simp [requests])]
  rfl

theorem gives_recipientToShell {r r' : RecipientInfo}
    (h : Gives (recipientToShell (recipientData r)) m r' m') :
    m'.given = m.given ∧ ∃ k p, m.given k = some p ∧ r' = r.held p := by
  rw [recipientToShell_recipientData] at h
  obtain ⟨p, m₁, hp, h⟩ := gives_bind.1 h
  obtain ⟨a, m₂, ha, h⟩ := gives_bind.1 h
  obtain ⟨hgiven, rfl⟩ := gives_osAlloc.1 hp
  obtain ⟨rfl, rfl⟩ := gives_addAddrToShell ha
  obtain ⟨rfl, rfl⟩ := gives_pure.1 h
  exact ⟨rfl, m.next, p, hgiven, rfl⟩

/-! ## What the message has -/

/-- The reply-to recipients that say something new. -/
def MessageHeading.replyToKept (h : MessageHeading) : List Recipient :=
  match h.replyTo with
  | [r] => if differ r h.replyToDefault then [r] else []
  | l => l

/-- The sender that says something new. -/
def MessageHeading.senderKept (h : MessageHeading) : Recipient :=
  if h.hasSender && differ h.sender h.originator then h.sender else .rfc822 none

/-- The sender of the message that is made. -/
def senderOf (h : MessageHeading) : Optional OrAddress :=
  if h.hasSender && differ h.sender h.originator then ⟨true, orAddress h.sender⟩ else ⟨false, .zero⟩

/-- The replied-to message id of the message that is made. -/
def repliedToOf : Option ZString → Optional EmsdMessageId
  | none => ⟨false, .emsdLocal 0 0⟩
  | some z => ⟨true, .rfc822 (some (.ofZString z))⟩

/-- The message is made of the heading and the body. -/
structure Made (h : MessageHeading) (pBodyText : Option ZString) (ipm : EmsdMessage) : Prop where
  originator : ipm.originator = orAddress h.originator
  sender : ipm.sender = senderOf h
  recipients : ipm.recipientDataList.1 = h.recipInfo.map recipientData
  replyTo : ipm.replyTo.data.1 = h.replyToKept.map orAddress
  repliedTo : ipm.repliedToIpm = repliedToOf h.pRepliedToMessageId
  subject : ipm.subject = optionalOf h.pSubject
  perMessageFlags : ipm.perMessageFlags.present = false
  extensions : ipm.extensions.1 = []
  mimeVersion : ipm.mimeVersion =
    optionalOf (if h.pMimeVersion = some mime10 then none else h.pMimeVersion)
  mimeContentType : ipm.mimeContentType = optionalOf h.pMimeContentType
  mimeContentId : ipm.mimeContentId = optionalOf h.pMimeContentId
  mimeContentDescription : ipm.mimeContentDescription = optionalOf h.pMimeContentDescription
  mimeContentTransferEncoding :
    ipm.mimeContentTransferEncoding = optionalOf h.pMimeContentTransferEncoding
  body : ipm.body = optionalOf pBodyText

theorem gives_fromSender {f : Optional OrAddress} (hf : Gives (fromSender h) m f m') :
    f = senderOf h := by
  unfold fromSender at hf
  unfold senderOf
  split at hf
  · rename_i hsender
    obtain ⟨b, _, hb, hf⟩ := gives_bind.1 hf
    obtain rfl := gives_addressesDiffer hb
    split at hf
    · rename_i hdiffer
      obtain ⟨a, _, ha, hf⟩ := gives_bind.1 hf
      rw [← (gives_pure.1 hf).1, gives_addAddr ha, hsender, hdiffer]
      rfl
    · rename_i hsame
      rw [← (gives_pure.1 hf).1]
      simp [hsame]
  · rename_i hnone
    rw [← (gives_pure.1 hf).1]
    simp [hnone]

theorem gives_addAddrs {l : List Recipient} {t : Slots OrAddress maxReplyTo}
    (h : Gives (collect addAddr .undefined l .empty) m t m') : t.1 = l.map orAddress := by
  rw [gives_collect (fun r s a s' ha => gives_addAddr ha) h]
  rfl

theorem gives_onlyReplyTo {r : Recipient} {t : Slots OrAddress maxReplyTo}
    (h' : Gives (onlyReplyTo h r) m t m') :
    t.1 = (if differ r h.replyToDefault then [r] else []).map orAddress := by
  obtain ⟨b, _, hb, h'⟩ := gives_bind.1 h'
  obtain rfl := gives_addressesDiffer hb
  split at h'
  · rename_i hdiffer
    rw [if_pos hdiffer]
    exact gives_addAddrs h'
  · rename_i hsame
    rw [if_neg hsame]
    obtain ⟨rfl, -⟩ := gives_pure.1 h'
    rfl

/-- The only recipient is compared, none or several are all added. -/
theorem gives_replyToList {t : Slots OrAddress maxReplyTo} (h' : Gives (replyToList h) m t m') :
    t.1 = h.replyToKept.map orAddress := by
  rcases hl : h.replyTo with _ | ⟨r, _ | ⟨r', rest⟩⟩
  · have hkept : h.replyToKept = [] := by
      unfold MessageHeading.replyToKept
      rw [hl]
    rw [hkept]
    unfold replyToList at h'
    rw [hl] at h'
    exact gives_addAddrs h'
  · have hkept : h.replyToKept = if differ r h.replyToDefault then [r] else [] := by
      unfold MessageHeading.replyToKept
      rw [hl]
    rw [hkept]
    unfold replyToList at h'
    rw [hl] at h'
    exact gives_onlyReplyTo h'
  · have hkept : h.replyToKept = r :: r' :: rest := by
      unfold MessageHeading.replyToKept
      rw [hl]
    rw [hkept]
    unfold replyToList at h'
    rw [hl] at h'
    exact gives_addAddrs h'

theorem gives_fromReplyTo {f : Optional (Slots OrAddress maxReplyTo)}
    (hf : Gives (fromReplyTo h) m f m') : f.data.1 = h.replyToKept.map orAddress := by
  obtain ⟨t, _, ht, hf⟩ := gives_bind.1 hf
  obtain ⟨hdata, -⟩ := gives_pure.1 hf
  rw [← hdata]
  exact gives_replyToList ht

theorem gives_fromRepliedTo {z : Option ZString} {f : Optional EmsdMessageId}
    (h : Gives (fromRepliedTo z) m f m') : f = repliedToOf z := by
  cases z with
  | none => exact (gives_pure.1 h).1.symm
  | some z =>
    obtain ⟨s, _, hs, hp⟩ := gives_bind.1 h
    rw [← (gives_pure.1 hp).1, Str.gives_assignZString hs]
    rfl

/-- **What a message has that is made of a heading.** -/
theorem messageFromShell_made {pBodyText : Option ZString}
    (hg : Gives (messageFromShell h pBodyText) m ipm m') : Made h pBodyText ipm := by
  unfold messageFromShell at hg
  obtain ⟨blank, _, hblank, hg⟩ := gives_bind.1 hg
  obtain ⟨_, _, -, hblank⟩ := gives_bind.1 hblank
  obtain ⟨rfl, -⟩ := gives_pure.1 hblank
  obtain ⟨originator, _, horiginator, hg⟩ := gives_bind.1 hg
  obtain ⟨sender, _, hsender, hg⟩ := gives_bind.1 hg
  obtain ⟨recipients, _, hrecipients, hg⟩ := gives_bind.1 hg
  obtain ⟨replyTo, _, hreplyTo, hg⟩ := gives_bind.1 hg
  obtain ⟨repliedTo, _, hrepliedTo, hg⟩ := gives_bind.1 hg
  obtain ⟨subject, _, hsubject, hg⟩ := gives_bind.1 hg
  obtain ⟨flags, _, -, hg⟩ := gives_bind.1 hg
  obtain ⟨version, _, hversion, hg⟩ := gives_bind.1 hg
  obtain ⟨contentType, _, htype, hg⟩ := gives_bind.1 hg
  obtain ⟨contentId, _, hid, hg⟩ := gives_bind.1 hg
  obtain ⟨description, _, hdescription, hg⟩ := gives_bind.1 hg
  obtain ⟨encoding, _, hencoding, hg⟩ := gives_bind.1 hg
  obtain ⟨body, _, hbody, hg⟩ := gives_bind.1 hg
  obtain ⟨rfl, -⟩ := gives_pure.1 hg
  have hlist := gives_collect (fun r s d s' hd => gives_fromRecipient hd) hrecipients
  exact ⟨gives_addAddr horiginator, gives_fromSender hsender, hlist.trans rfl,
    gives_fromReplyTo hreplyTo, gives_fromRepliedTo hrepliedTo, gives_fromString hsubject, rfl, rfl,
    gives_fromString hversion, gives_fromString htype, gives_fromString hid,
    gives_fromString hdescription, gives_fromString hencoding, gives_fromString hbody⟩

/-! ## What comes back -/

/-- What is asked for a recipient comes back; `exact` says that nothing else does. -/
structure RecipientComesBack (exact : Prop) (r r' : RecipientInfo) : Prop where
  recipient : r'.recipient = r.recipient
  recipientType : r'.recipientType = r.recipientType
  requests : List.Forall₂ (fun q q' => q.1 = true → q'.1 = true) (requests r) (requests r')
  exact : exact → r' = r

/-- **What is kept of a heading.** `exact` is that the memory for the recipients' records was cleared. -/
structure ComesBack (exact : Prop) (h h' : MessageHeading) : Prop where
  originator : h'.originator = h.originator
  sender : h'.sender = h.senderKept
  recipients : List.Forall₂ (RecipientComesBack exact) h.recipInfo h'.recipInfo
  replyTo : h'.replyTo = h.replyToKept
  repliedTo : h'.pRepliedToMessageId = h.pRepliedToMessageId
  subject : h'.pSubject = h.pSubject
  priority : h.priority = .normal → h'.priority = h.priority
  importance : h.importance = .normal → h'.importance = h.importance
  autoForwarded : h.bAutoForwarded = false → h'.bAutoForwarded = h.bAutoForwarded
  extensions : h.extensions = [] → h'.extensions = h.extensions
  contentType : h'.pMimeContentType = h.pMimeContentType
  mime : h.pMimeContentType.isSome = true → h'.pMimeVersion = some (h.pMimeVersion.getD mime10) ∧
    h'.pMimeContentId = h.pMimeContentId ∧ h'.pMimeContentDescription = h.pMimeContentDescription ∧
    h'.pMimeContentTransferEncoding = h.pMimeContentTransferEncoding
  noMime : h.pMimeContentType = none → h'.pMimeVersion = none ∧ h'.pMimeContentId = none ∧
    h'.pMimeContentDescription = none ∧ h'.pMimeContentTransferEncoding = none

theorem RecipientInfo.held_comesBack (r : RecipientInfo) {p : ℕ → UInt8} {exact : Prop}
    (hp : exact → ∀ i, p i = 0) : RecipientComesBack exact r (r.held p) := by
  refine ⟨rfl, rfl, ?_, fun hexact => ?_⟩
  · have hor : ∀ (b : Bool) (i : ℕ), b = true → (b || p i != 0) = true := by
      intro b i hb
      rw [hb]
      rfl
    refine .cons id (.cons id (.cons (hor _ 0) (.cons (hor _ 1) (.cons (hor _ 2) (.cons (hor _ 3)
      (.cons (hor _ 4) (.cons (hor _ 5) .nil)))))))
  · have hzero : ∀ (b : Bool) (i : ℕ), (b || p i != 0) = b := by
      intro b i
      rw [hp hexact i]
      cases b <;> rfl
    unfold RecipientInfo.held
    simp only [hzero]

theorem gives_senderToShell {r : Recipient} (hg : Gives (senderToShell (senderOf h)) m r m') :
    r = h.senderKept ∧ m' = m := by
  unfold senderOf at hg
  unfold MessageHeading.senderKept
  split at hg
  · rename_i hkept
    rw [if_pos hkept]
    exact gives_addAddrToShell hg
  · rename_i hout
    rw [if_neg hout]
    obtain ⟨rfl, rfl⟩ := gives_pure.1 hg
    exact ⟨rfl, rfl⟩

theorem gives_repliedToToShell {z : Option ZString} {z' : Option ZString}
    (hg : Gives (repliedToToShell (repliedToOf z)) m z' m') : z' = z := by
  cases z with
  | none => exact (gives_pure.1 hg).1.symm
  | some z =>
    obtain ⟨y, _, hy, hg⟩ := gives_bind.1 hg
    obtain ⟨rfl, -⟩ := gives_pure.1 hg
    obtain ⟨x, _, hx, hy⟩ := gives_bind.1 hy
    rw [Str.stringStart_ofZString] at hx
    obtain ⟨rfl, -⟩ := gives_pure.1 hx
    split at hy
    · obtain ⟨rfl, -⟩ := gives_pure.1 hy
      rfl
    · exact absurd hy not_gives_stop

theorem gives_stringToShell {z z' : Option ZString}
    (hg : Gives (stringToShell (optionalOf z)) m z' m') : z' = z := by
  rw [stringToShell_optionalOf] at hg
  exact (gives_pure.1 hg).1.symm

theorem gives_replyTos {l l' : List Recipient}
    (hg : Gives ((l.map orAddress).mapM replyToToShell) m l' m') : l' = l := by
  have hall := gives_mapM (P := fun _ : Blocks => True) (fun _ _ _ _ _ _ _ => trivial) trivial hg
  rw [List.forall₂_map_left_iff] at hall
  have heq : List.Forall₂ (· = ·) l l' := by
    refine hall.imp fun r r' hr => ?_
    obtain ⟨s, s', -, hs⟩ := hr
    obtain ⟨_, _, -, ha⟩ := gives_bind.1 hs
    exact (gives_addAddrToShell ha).1.symm
  rw [List.forall₂_eq_eq_eq] at heq
  exact heq.symm

theorem gives_recipients {l l' : List RecipientInfo}
    (hg : Gives ((l.map recipientData).mapM recipientToShell) m l' m') :
    List.Forall₂ (RecipientComesBack m.Cleared) l l' := by
  have hkeep : ∀ d ∈ l.map recipientData, ∀ s r s', s.given = m.given →
      Gives (recipientToShell d) s r s' → s'.given = m.given := by
    intro d hd s r s' hs hr
    obtain ⟨r₀, -, rfl⟩ := List.mem_map.1 hd
    exact (gives_recipientToShell hr).1.trans hs
  have hall := gives_mapM hkeep rfl hg
  rw [List.forall₂_map_left_iff] at hall
  refine hall.imp fun r r' hr => ?_
  obtain ⟨s, s', hs, hrun⟩ := hr
  obtain ⟨-, k, p, hp, rfl⟩ := gives_recipientToShell hrun
  rw [hs] at hp
  exact r.held_comesBack fun hcleared => hcleared k p hp

theorem priorityToShell_absent {flags : Optional StrHandle} (hflags : flags.present = false) :
    priorityToShell flags = pure .normal := by
  unfold priorityToShell
  rw [hflags]
  rfl

theorem importanceToShell_absent {flags : Optional StrHandle} (hflags : flags.present = false) :
    importanceToShell flags = pure .normal := by
  unfold importanceToShell
  rw [hflags]
  rfl

theorem autoForwardedToShell_absent {flags : Optional StrHandle} (hflags : flags.present = false) :
    autoForwardedToShell flags = pure false := by
  unfold autoForwardedToShell
  rw [hflags]
  rfl

theorem gives_mimeVersionToShell {z z' : Option ZString}
    (hg : Gives (mimeVersionToShell (optionalOf (if z = some mime10 then none else z))) m z' m') :
    z' = some (z.getD mime10) := by
  split at hg
  · rename_i h10
    rw [← (gives_pure.1 hg).1, h10]
    rfl
  · cases z with
    | none => exact (gives_pure.1 hg).1.symm
    | some z =>
      obtain ⟨y, _, hy, hg⟩ := gives_bind.1 hg
      have hread : Str.stringStart (optionalOf (some z)).data = pure z := Str.stringStart_ofZString z
      rw [hread] at hy
      obtain ⟨rfl, -⟩ := gives_pure.1 hy
      exact (gives_pure.1 hg).1.symm

/-- **The heading that is made of such a message.** -/
theorem headingToShell_comesBack {pBodyText : Option ZString} {h' : MessageHeading}
    (hmade : Made h pBodyText ipm) (hg : Gives (headingToShell ipm) n h' n') :
    ComesBack n.Cleared h h' := by
  unfold headingToShell at hg
  obtain ⟨originator, n₁, horiginator, hg⟩ := gives_bind.1 hg
  obtain ⟨sender, n₂, hsender, hg⟩ := gives_bind.1 hg
  obtain ⟨recipInfo, n₃, hrecipInfo, hg⟩ := gives_bind.1 hg
  obtain ⟨replyTo, n₄, hreplyTo, hg⟩ := gives_bind.1 hg
  obtain ⟨repliedTo, n₅, hrepliedTo, hg⟩ := gives_bind.1 hg
  obtain ⟨subject, n₆, hsubject, hg⟩ := gives_bind.1 hg
  obtain ⟨priority, n₇, hpriority, hg⟩ := gives_bind.1 hg
  obtain ⟨importance, n₈, himportance, hg⟩ := gives_bind.1 hg
  obtain ⟨autoForwarded, n₉, hautoForwarded, hg⟩ := gives_bind.1 hg
  obtain ⟨version, n₁₀, hversion, hg⟩ := gives_bind.1 hg
  obtain ⟨contentType, n₁₁, htype, hg⟩ := gives_bind.1 hg
  obtain ⟨contentId, n₁₂, hid, hg⟩ := gives_bind.1 hg
  obtain ⟨description, n₁₃, hdescription, hg⟩ := gives_bind.1 hg
  obtain ⟨encoding, n₁₄, hencoding, hg⟩ := gives_bind.1 hg
  obtain ⟨extensions, n₁₅, hextensions, hg⟩ := gives_bind.1 hg
  obtain ⟨rfl, -⟩ := gives_pure.1 hg
  rw [hmade.originator] at horiginator
  rw [hmade.sender] at hsender
  rw [hmade.recipients] at hrecipInfo
  rw [hmade.replyTo] at hreplyTo
  rw [hmade.repliedTo] at hrepliedTo
  rw [hmade.subject] at hsubject
  rw [priorityToShell_absent hmade.perMessageFlags] at hpriority
  rw [importanceToShell_absent hmade.perMessageFlags] at himportance
  rw [autoForwardedToShell_absent hmade.perMessageFlags] at hautoForwarded
  rw [hmade.mimeContentType] at htype
  rw [hmade.extensions] at hextensions
  -- the addresses are read without memory, the recipients' records are the first blocks
  obtain ⟨rfl, rfl⟩ := gives_addAddrToShell horiginator
  obtain ⟨rfl, rfl⟩ := gives_senderToShell hsender
  obtain ⟨rfl, -⟩ := gives_pure.1 hpriority
  obtain ⟨rfl, -⟩ := gives_pure.1 himportance
  obtain ⟨rfl, -⟩ := gives_pure.1 hautoForwarded
  obtain ⟨rfl, -⟩ := gives_pure.1 hextensions
  have hpresent : ipm.mimeContentType.present = h.pMimeContentType.isSome := by
    rw [hmade.mimeContentType]
    rfl
  rw [hpresent] at hversion hid hdescription hencoding
  unfold ifMime at hversion hid hdescription hencoding
  refine ⟨rfl, rfl, gives_recipients hrecipInfo, gives_replyTos hreplyTo,
    gives_repliedToToShell hrepliedTo, gives_stringToShell hsubject, Eq.symm, Eq.symm, Eq.symm,
    Eq.symm, gives_stringToShell htype, fun hmime => ?_, fun hmime => ?_⟩
  · rw [if_pos hmime] at hversion hid hdescription hencoding
    rw [hmade.mimeVersion] at hversion
    rw [hmade.mimeContentId] at hid
    rw [hmade.mimeContentDescription] at hdescription
    rw [hmade.mimeContentTransferEncoding] at hencoding
    exact ⟨gives_mimeVersionToShell hversion, gives_stringToShell hid,
      gives_stringToShell hdescription, gives_stringToShell hencoding⟩
  · have hno : h.pMimeContentType.isSome ≠ true := by
      rw [hmime]
      decide
    rw [if_neg hno] at hversion hid hdescription hencoding
    exact ⟨(gives_pure.1 hversion).1.symm, (gives_pure.1 hid).1.symm,
      (gives_pure.1 hdescription).1.symm, (gives_pure.1 hencoding).1.symm⟩

/-! ## That it comes back -/

/-- The addresses of the heading are there; a null pointer as the sender says that there is none. -/
structure MessageHeading.AddressesGiven (h : MessageHeading) : Prop where
  originator : h.originator ≠ .rfc822 none
  recipients : ∀ r ∈ h.recipInfo, r.recipient ≠ .rfc822 none
  replyTo : ∀ r ∈ h.replyTo, r ≠ .rfc822 none

/-- The replied-to message id fits into the buffer for it. -/
def MessageHeading.IdFits (h : MessageHeading) : Prop :=
  ∀ z, h.pRepliedToMessageId = some z → z.1.length < messageIdBuffer

/-- The message id of the delivery can be read, and fits into the buffer for it. -/
def EmsdDeliverArgument.Readable (d : EmsdDeliverArgument) : Prop :=
  ∃ z, messageIdEmsdToRfc822 d.messageId = pure z

theorem repliedToToShell_repliedToOf (hfits : h.IdFits) :
    repliedToToShell (repliedToOf h.pRepliedToMessageId) = pure h.pRepliedToMessageId := by
  cases hz : h.pRepliedToMessageId with
  | none => rfl
  | some z =>
    have hread : messageIdEmsdToRfc822 (.rfc822 (some (.ofZString z))) = pure z := by
      simp only [messageIdEmsdToRfc822, Str.stringStart_ofZString, pure_bind]
      exact if_pos (hfits z hz)
    change (do if true then pure (some (← messageIdEmsdToRfc822 (.rfc822 (some (.ofZString z))))) else
      pure none) = _
    rw [hread]
    rfl

theorem senderToShell_senderOf : senderToShell (senderOf h) = pure h.senderKept := by
  unfold senderOf MessageHeading.senderKept
  split
  · rename_i hkept
    have hsender : h.sender ≠ .rfc822 none := by
      have hhas := (Bool.and_eq_true _ _ ▸ hkept).1
      simpa [MessageHeading.hasSender] using hhas
    exact addAddrToShell_orAddress hsender
  · rfl

theorem mimeVersionToShell_optionalOf (z : Option ZString) :
    ∃ z', mimeVersionToShell (optionalOf z) = pure z' := by
  cases z with
  | none => exact ⟨_, rfl⟩
  | some z =>
    refine ⟨some z, ?_⟩
    change (do if true then pure (some (← Str.stringStart (some (.ofZString z)))) else
      pure (some mime10)) = _
    rw [Str.stringStart_ofZString]
    rfl

theorem MessageHeading.replyToKept_sub {r : Recipient} (hr : r ∈ h.replyToKept) : r ∈ h.replyTo := by
  unfold MessageHeading.replyToKept at hr
  split at hr
  · rename_i r₀ hone
    split at hr
    · rwa [hone]
    · exact absurd hr List.not_mem_nil
  · exact hr

/-- The loop over the recipients comes to its end. -/
theorem recipients_returned (hm : m.Plenty) (hgiven : h.AddressesGiven) :
    ∃ l m', Gives ((h.recipInfo.map recipientData).mapM recipientToShell) m l m' ∧ m'.Plenty := by
  refine exists_gives_mapM (P := Blocks.Plenty) (fun d hd s hs => ?_) hm
  obtain ⟨r, hr, rfl⟩ := List.mem_map.1 hd
  obtain ⟨p, s', hp, hs'⟩ := hs.osAlloc
  rw [recipientToShell_recipientData, addAddrToShell_orAddress (hgiven.recipients r hr)]
  exact ⟨_, s', gives_bind.2 ⟨p, s', hp, rfl⟩, hs'⟩

/-- The loop over the reply-to recipients comes to its end. -/
theorem replyTo_returned (hm : m.Plenty) (hgiven : h.AddressesGiven) :
    ∃ l m', Gives ((h.replyToKept.map orAddress).mapM replyToToShell) m l m' ∧ m'.Plenty := by
  refine exists_gives_mapM (P := Blocks.Plenty) (fun a ha s hs => ?_) hm
  obtain ⟨r, hr, rfl⟩ := List.mem_map.1 ha
  obtain ⟨p, s', hp, hs'⟩ := hs.osAlloc
  unfold replyToToShell
  rw [addAddrToShell_orAddress (hgiven.replyTo r (h.replyToKept_sub hr))]
  exact ⟨_, s', gives_bind.2 ⟨p, s', hp, rfl⟩, hs'⟩

/-- **The heading comes back** when there is memory, its addresses are there and its replied-to id fits. -/
theorem headingToShell_returned {pBodyText : Option ZString} (hmade : Made h pBodyText ipm)
    (hn : n.Plenty) (hgiven : h.AddressesGiven) (hfits : h.IdFits) :
    ∃ h' n', Gives (headingToShell ipm) n h' n' := by
  obtain ⟨recipInfo, n₁, hrecipInfo, hn₁⟩ := recipients_returned hn hgiven
  obtain ⟨replyTo, n₂, hreplyTo, -⟩ := replyTo_returned hn₁ hgiven
  obtain ⟨version, hversion⟩ := mimeVersionToShell_optionalOf
    (if h.pMimeVersion = some mime10 then none else h.pMimeVersion)
  have hextensions : ipm.extensions.1.mapM extensionToShell = pure [] := by
    rw [hmade.extensions]
    rfl
  have hmime : ∀ (mime : Bool) (z : Option ZString),
      ifMime mime (pure z) = pure (if mime then z else none) := by
    intro mime z
    cases mime <;> rfl
  rw [← hmade.recipients] at hrecipInfo
  rw [← hmade.replyTo] at hreplyTo
  -- what is not a loop over records only reads
  have heq : headingToShell ipm = (do
      let recipInfo ← ipm.recipientDataList.1.mapM recipientToShell
      let replyTo ← ipm.replyTo.data.1.mapM replyToToShell
      pure {
        originator := h.originator
        sender := h.senderKept
        recipInfo, replyTo
        pRepliedToMessageId := h.pRepliedToMessageId
        pSubject := h.pSubject
        pMimeVersion := if h.pMimeContentType.isSome then version else none
        pMimeContentType := h.pMimeContentType
        pMimeContentId := if h.pMimeContentType.isSome then h.pMimeContentId else none
        pMimeContentDescription :=
          if h.pMimeContentType.isSome then h.pMimeContentDescription else none
        pMimeContentTransferEncoding :=
          if h.pMimeContentType.isSome then h.pMimeContentTransferEncoding else none }) := by
    unfold headingToShell
    simp only [hmade.originator, addAddrToShell_orAddress hgiven.originator, hmade.sender,
      senderToShell_senderOf, hmade.repliedTo, repliedToToShell_repliedToOf hfits, hmade.subject,
      stringToShell_optionalOf, priorityToShell_absent hmade.perMessageFlags,
      importanceToShell_absent hmade.perMessageFlags, autoForwardedToShell_absent hmade.perMessageFlags,
      hmade.mimeContentType, hmade.mimeVersion, hversion, hmade.mimeContentId,
      hmade.mimeContentDescription, hmade.mimeContentTransferEncoding, hmime, hextensions, pure_bind]
    rfl
  rw [heq]
  exact ⟨_, n₂, gives_bind.2 ⟨recipInfo, n₁, hrecipInfo, gives_bind.2 ⟨replyTo, n₂, hreplyTo, rfl⟩⟩⟩

/-- **Every heading that is accepted comes back**, without what says nothing new; and if its addresses are
there, its replied-to id and the delivery's id fit and there is memory, the shell is given it. -/
theorem heading_comesBack {pBodyText : Option ZString} {pfMessageReceived : Received → Bool}
    {d : EmsdDeliverArgument} (hacc : Gives (messageFromShell h pBodyText) m ipm m') :
    (∀ r n', Gives (messageToShell pfMessageReceived d ipm) n r n' →
      ComesBack n.Cleared h r.1.heading ∧ r.1.pBodyText = pBodyText) ∧
    (n.Plenty → h.AddressesGiven → h.IdFits → d.Readable →
      ∃ r n', Gives (messageToShell pfMessageReceived d ipm) n r n') := by
  have hmade := messageFromShell_made hacc
  constructor
  · intro r n' hg
    obtain ⟨h', n₁, hheading, hg⟩ := gives_bind.1 hg
    obtain ⟨body, n₂, hbody, hg⟩ := gives_bind.1 hg
    obtain ⟨id, n₃, -, hg⟩ := gives_bind.1 hg
    obtain ⟨rfl, -⟩ := gives_pure.1 hg
    rw [hmade.body] at hbody
    exact ⟨headingToShell_comesBack hmade hheading, gives_stringToShell hbody⟩
  · intro hn hgiven hfits hread
    obtain ⟨h', n₁, hheading⟩ := headingToShell_returned hmade hn hgiven hfits
    obtain ⟨z, hz⟩ := hread
    have hbody : stringToShell ipm.body = pure pBodyText := by
      rw [hmade.body]
      exact stringToShell_optionalOf pBodyText
    unfold messageToShell
    rw [hbody, hz]
    exact ⟨_, n₁, gives_bind.2 ⟨h', n₁, hheading, rfl⟩⟩

/-- Memory that is always there, and cleared. -/
def clearedBlocks : Blocks := ⟨fun _ => some fun _ => 0, 0⟩

/-- The text `a`. -/
def textA : ZString := ⟨[97], by decide⟩

/-- A delivery with a local message id. -/
def firstDelivery : EmsdDeliverArgument := ⟨.emsdLocal 3 1, ⟨false, 0⟩, 4⟩

/-- A heading whose replies go to the originator. -/
def repliesToOriginator : MessageHeading where
  originator := .rfc822 (some textA)
  recipInfo := [{ recipient := .emsd 1002 none }]
  replyTo := [.rfc822 (some textA)]

/-- **A heading does not always come back as it was**: that replies go to the originator is not said. -/
theorem replyTo_leftOut : ∃ ipm m' r n',
    Gives (messageFromShell repliesToOriginator none) clearedBlocks ipm m' ∧
      Gives (messageToShell (fun _ => true) firstDelivery ipm) clearedBlocks r n' ∧
      r.1.heading = { repliesToOriginator with replyTo := [] } ∧
      r.1.heading ≠ repliesToOriginator := by
  refine ⟨_, _, _, _, rfl, rfl, ?_, ?_⟩
  · rfl
  · decide

/-- A heading with several recipients, flags and a MIME type. -/
def severalRecipients : MessageHeading where
  originator := .emsd 1001 (some textA)
  sender := .rfc822 (some textA)
  recipInfo := [{ recipient := .emsd 1002 none, recipientType := .copy, bReplyRequested := true },
    { recipient := .rfc822 (some textA), recipientType := .blindCopy, bDeliveryReportRequested := true },
    { recipient := .emsd 1003 none, bReceiptNotificationRequested := true }]
  replyTo := [.emsd 1004 none, .rfc822 (some textA)]
  pRepliedToMessageId := some textA
  pSubject := some textA
  pMimeContentType := some textA
  pMimeContentId := some textA

theorem severalRecipients_comesBack : ∃ ipm m' r n',
    Gives (messageFromShell severalRecipients (some textA)) clearedBlocks ipm m' ∧
      Gives (messageToShell (fun _ => true) firstDelivery ipm) clearedBlocks r n' ∧
      ComesBack clearedBlocks.Cleared severalRecipients r.1.heading := by
  have hacc : ∃ ipm m', Gives (messageFromShell severalRecipients (some textA)) clearedBlocks ipm m' :=
    ⟨_, _, rfl⟩
  obtain ⟨ipm, m', hacc⟩ := hacc
  have hback : (∀ r n', Gives (messageToShell (fun _ => true) firstDelivery ipm) clearedBlocks r n' →
      ComesBack clearedBlocks.Cleared severalRecipients r.1.heading ∧ r.1.pBodyText = some textA) ∧
      (clearedBlocks.Plenty → severalRecipients.AddressesGiven → severalRecipients.IdFits →
        firstDelivery.Readable →
        ∃ r n', Gives (messageToShell (fun _ => true) firstDelivery ipm) clearedBlocks r n') :=
    heading_comesBack hacc
  have hgiven : severalRecipients.AddressesGiven := ⟨by decide, by decide, by decide⟩
  have hfits : severalRecipients.IdFits := by
    intro z hz
    obtain rfl := Option.some.inj hz
    decide
  obtain ⟨r, n', hr⟩ := hback.2 (fun _ => rfl) hgiven hfits ⟨_, rfl⟩
  exact ⟨ipm, m', r, n', hacc, hr, (hback.1 r n' hr).1⟩

end Ua
