import Emsd.Asn.Numbers

/-!
# The parameters of results and errors (`mperform.c`, `mtssubr.c`, `uperform.c`, `uasubr.c`)

The agents answer an invocation with a RESULT or an ERROR. They format its parameter into a buffer, and
are to make a data unit of the buffer: two functions of the MTS do, one of the UA leaves out what it has
no place for, and the ones for the results of a verification give ESROS the buffer itself.

* `copyToView_eq`: how much of a small buffer comes into the data unit.
* `answer_intact_iff`: **an answer arrives as it was meant** exactly when the protocol version is known,
  it is no result of a verification, and the UA asks for enough of the buffer.
* `submissionVerify_foreign`: a result with a buffer where a data unit is expected.
-/

namespace Mtsua

open Ocp Asn

/-! ## The compile trees -/

def universalTagInteger : UInt8 := 0x02

def universalTagEnumerated : UInt8 := 0x0a

def universalTagSequence : UInt8 := 0x10

/-- `ASN_Type_Sequence`, which the trees of version 1.0 have for a tag. -/
def typeSequence : UInt8 := 5

/-- `EMSD_SubmitResult`; its fields are 0 and 4 octets behind its beginning. -/
structure SubmitResult where
  submissionTime : UInt32
  dailyMessageNumber : UInt32
  deriving DecidableEq, Repr

def SubmitResult.cStruct (submitRes : SubmitResult) : CStruct where
  uint32 o := if o = 0 then submitRes.submissionTime else submitRes.dailyMessageNumber

/-- The structures with one number: `EMSD_DeliveryVerifyResult`, `EMSD_SubmissionVerifyResult` and
`EMSD_ErrorRequest`. -/
def oneNumber (v : UInt32) : CStruct where
  uint32 _ := v

/-- `compileLocalMessageId`. -/
def compileLocalMessageId (tag : UInt8) : Entry :=
  .sequence { tag }
    [.integer { tag := universalTagInteger, dataOffset := 0 },
      .integer { tag := universalTagInteger, dataOffset := 4 }]

/-- `EMSD_compileSubmitResult1_0` and `EMSD_compileSubmitResult1_1`, with the tag of the message id. -/
def compileSubmitResult (tag : UInt8) : Entry :=
  .sequence { tag := universalTagSequence } [compileLocalMessageId tag]

/-- `EMSD_compileDeliveryVerifyResult1_1`. -/
def compileDeliveryVerifyResult : Entry :=
  .sequence { tag := universalTagSequence } [.integer { tag := universalTagInteger }]

/-- `EMSD_compileSubmissionVerifyResult1_1`. -/
def compileSubmissionVerifyResult : Entry :=
  .sequence { tag := universalTagSequence } [.integer { tag := universalTagEnumerated }]

/-- `EMSD_compileErrorRequest1_0` and `EMSD_compileErrorRequest1_1`. -/
def compileErrorRequest : Entry := .integer { tag := universalTagInteger }

/-- `MTSUA_ProtocolType`, as far as an answer has one. -/
inductive ProtocolType
  | submitResult
  | errorRequest
  | deliveryVerifyRes
  | submissionVerifyRes
  deriving DecidableEq, Repr

/-- A protocol version. -/
structure Version where
  major : UInt8
  minor : UInt8
  deriving DecidableEq, Repr

/-- What the pointer to a compile tree points to. -/
inductive CompTree
  | null
  /-- A list that nothing has been compiled into. -/
  | empty
  | entry (e : Entry)

/-- `mtsua_getProtocolTree`. -/
def getProtocolTree (protocol : ProtocolType) (v : Version) : CompTree :=
  if v = ⟨1, 1⟩ then
    match protocol with
    | .submitResult => .entry (compileSubmitResult universalTagSequence)
    | .errorRequest => .entry compileErrorRequest
    | .deliveryVerifyRes => .entry compileDeliveryVerifyResult
    | .submissionVerifyRes => .entry compileSubmissionVerifyResult
  else if v = ⟨1, 0⟩ then
    match protocol with
    | .submitResult => .entry (compileSubmitResult typeSequence)
    | .errorRequest => .entry compileErrorRequest
    | .deliveryVerifyRes | .submissionVerifyRes => .null
  else .null

/-- `UA_getProtocolTree`. `UA_initCompileTrees` leaves out the trees of the SubmissionVerify
operation. -/
def uaGetProtocolTree : ProtocolType → CompTree
  | .submitResult => .entry (compileSubmitResult universalTagSequence)
  | .errorRequest => .entry compileErrorRequest
  | .deliveryVerifyRes => .entry compileDeliveryVerifyResult
  | .submissionVerifyRes => .empty

/-! ## Buffers and data units -/

/-- How the calls for an answer turn out. -/
structure Calls where
  /-- `BUF_alloc` -/
  bufAlloc : Bool := true
  /-- `allocSegment`, by the number of the call -/
  allocSegment : Nat → Bool := fun _ => true
  /-- `DU_alloc` -/
  duAlloc : Bool := true

/-- The handle of a buffer. -/
inductive Handle
  | null
  /-- The variable has not been set. -/
  | unset
  | buffer (f : Front)

/-- How `ASN_format` ends. -/
inductive Formatted
  | success (hBuf : Handle)
  /-- `ResourceError` -/
  | failed
  /-- It follows a pointer that is none. -/
  | undefined

/-- `ASN_format`. The formatter fails when a segment that it asks for is not to be had. -/
def asnFormat (allocSegment : Nat → Bool) (pCompTree : CompTree) (hBuf : Handle) (c : CStruct) :
    Formatted :=
  match pCompTree, hBuf with
  | .null, _ => .undefined
  | .empty, hBuf => .success hBuf
  | .entry _, .null | .entry _, .unset => .undefined
  | .entry e, .buffer f =>
    match format c e e.info.tag f with
    | none => .undefined
    | some (f', _) =>
      if ∀ n < f'.segs.length - f.segs.length, allocSegment n then .success (.buffer f') else .failed

/-- The octets of a data unit, `none` where nothing has been written. -/
abbrev DataUnit := List (Option UInt8)

/-- `DU_alloc`: a view of so many octets. -/
def duAlloc (nuOfBytes : Nat) : DataUnit := List.replicate nuOfBytes none

/-- `OS_copy` to `DU_data`. -/
def DataUnit.copy (hView : DataUnit) (octets : Octets) : DataUnit :=
  octets.map some ++ hView.drop octets.length

/-- A data unit as long as the buffer, and the first chunk of the buffer in it: at most `n` octets, or
any number when `n` is zero. -/
def copyToView (calls : Calls) (b : Buf) (n : UInt16) : Option DataUnit :=
  if calls.duAlloc then
    match b.getChunk n.toNat with
    | .ok octets _ => some ((duAlloc b.getBufferLength).copy octets)
    | .exhausted | .beyond => none
  else none

/-! ## The answers -/

/-- What a request has for its parameter. -/
inductive Parameter
  | null
  | view (hView : DataUnit)
  /-- A pointer to something that is no data unit. -/
  | foreign

/-- What becomes of an answer. -/
inductive Reply
  /-- `ESRO_CB_resultReq` or `ESRO_CB_errorReq` -/
  | request (parameter : Parameter)
  /-- There is no request. -/
  | withheld
  /-- The code follows a pointer that is none. -/
  | undefined

/-- The data unit of a request; without one there is no request. -/
def Reply.ofView : Option DataUnit → Reply
  | some hView => .request (.view hView)
  | none => .withheld

/-- The buffer is allocated, the value formatted and copied; any failure ends it. -/
def formatToView (calls : Calls) (pCompTree : CompTree) (c : CStruct) (n : UInt16) : Reply :=
  if calls.bufAlloc then
    match asnFormat calls.allocSegment pCompTree (.buffer (Front.alloc 0)) c with
    | .success (.buffer f) => .ofView (copyToView calls f.buf n)
    | .success _ | .undefined => .undefined
    | .failed => .withheld
  else .withheld

/-- The buffer takes the place of the data unit. A failure only generates an event. -/
def formatToBuffer (calls : Calls) (pCompTree : CompTree) (hBuf : Handle) (c : CStruct) : Reply :=
  match asnFormat calls.allocSegment pCompTree hBuf c with
  | .success _ | .failed => .request .foreign
  | .undefined => .undefined

/-- `aS1S2a` of the MTS. The chunk is as long as the segment. -/
def submitResult (calls : Calls) (pProfile : Option Version) (submitRes : SubmitResult) : Reply :=
  match pProfile with
  | none => .withheld
  | some v => formatToView calls (getProtocolTree .submitResult v) submitRes.cStruct 0

/-- `aS1S5a` of the MTS. -/
def deliveryVerifyResult (calls : Calls) (pProfile : Option Version) (deliveryStatus : UInt32) :
    Reply :=
  match pProfile with
  | none => .withheld
  | some v =>
    let hBuf := if calls.bufAlloc then .buffer (Front.alloc 0) else .null
    formatToBuffer calls (getProtocolTree .deliveryVerifyRes v) hBuf (oneNumber deliveryStatus)

/-- `aS1S5a` of the UA. -/
def submissionVerifyResult (calls : Calls) (submissionStatus : UInt32) : Reply :=
  let hBuf := if calls.bufAlloc then .buffer (Front.alloc 0) else .unset
  formatToBuffer calls (uaGetProtocolTree .submissionVerifyRes) hBuf (oneNumber submissionStatus)

/-- `EMSD_Error_SecurityError`. -/
def securityError : Nat := 4

/-- The parameter comes with a security error, or always when `MTA_FORCE_ERROR_PARM` is set. -/
def attaches (forceErrorParm : Bool) (errorVal : Nat) : Bool :=
  decide (errorVal = securityError) || forceErrorParm

/-- `mts_issueErrorRequest`. -/
def mtsIssueErrorRequest (calls : Calls) (forceErrorParm : Bool) (errorVal : Nat) (errorParam : UInt8)
    (v : Version) : Reply :=
  if attaches forceErrorParm errorVal then
    formatToView calls (getProtocolTree .errorRequest v) (oneNumber errorParam.toUInt32) 0
  else .request .null

/-- `ua_issueErrorRequest`; `n` has not been set. -/
def uaIssueErrorRequest (calls : Calls) (errorVal : UInt32) (n : UInt16) : Reply :=
  formatToView calls (uaGetProtocolTree .errorRequest) (oneNumber errorVal) n

/-- The answers that have a parameter, or can have one. -/
inductive Answer
  | submitResult (pProfile : Option Version) (submitRes : SubmitResult)
  | deliveryVerifyResult (pProfile : Option Version) (deliveryStatus : UInt32)
  | submissionVerifyResult (submissionStatus : UInt32)
  | mtsError (forceErrorParm : Bool) (errorVal : Nat) (errorParam : UInt8) (v : Version)
  | uaError (errorVal : UInt32) (n : UInt16)

def Answer.reply (calls : Calls) : Answer → Reply
  | .submitResult pProfile submitRes => Mtsua.submitResult calls pProfile submitRes
  | .deliveryVerifyResult pProfile deliveryStatus =>
    Mtsua.deliveryVerifyResult calls pProfile deliveryStatus
  | .submissionVerifyResult submissionStatus => Mtsua.submissionVerifyResult calls submissionStatus
  | .mtsError forceErrorParm errorVal errorParam v =>
    mtsIssueErrorRequest calls forceErrorParm errorVal errorParam v
  | .uaError errorVal n => uaIssueErrorRequest calls errorVal n

/-! ## What is to arrive -/

/-- The value that an answer is to carry, and its type; an error of the MTS need not carry any. -/
def Answer.intended : Answer → Option (Entry × CStruct)
  | .submitResult pProfile submitRes =>
    let tag := if pProfile = some ⟨1, 0⟩ then typeSequence else universalTagSequence
    some (compileSubmitResult tag, submitRes.cStruct)
  | .deliveryVerifyResult _ deliveryStatus =>
    some (compileDeliveryVerifyResult, oneNumber deliveryStatus)
  | .submissionVerifyResult submissionStatus =>
    some (compileSubmissionVerifyResult, oneNumber submissionStatus)
  | .mtsError forceErrorParm errorVal errorParam _ =>
    if attaches forceErrorParm errorVal then some (compileErrorRequest, oneNumber errorParam.toUInt32)
    else none
  | .uaError errorVal _ => some (compileErrorRequest, oneNumber errorVal)

/-- The data unit holds what `ASN_format` produces for the value, and nothing else; the peer, whatever
is in its structure before, parses it as the value. -/
structure Carries (e : Entry) (c : CStruct) (hView : DataUnit) : Prop where
  octets : ∃ f len, berFormat e c 0 = some (f, len) ∧ hView = f.octets.map some
  parsed : ∀ longMax t, ∃ view b c', hView = view.map some ∧
    parse longMax e (viewToBuf view) t view.length = .done b c' view.length ∧ b.rest = [] ∧
    ∀ fld ∈ fields c e, fld.Same c c'

/-- The answer arrives as it was meant, or not at all. -/
def Answer.Intact (a : Answer) : Reply → Prop
  | .withheld => True
  | .request .null => a.intended = none
  | .request (.view hView) => ∃ e c, a.intended = some (e, c) ∧ Carries e c hView
  | .request .foreign | .undefined => False

/-- There are compile trees for the version. -/
def Version.Known (v : Version) : Prop := v = ⟨1, 1⟩ ∨ v = ⟨1, 0⟩

/-- The octets of an `EMSD_ErrorRequest` with this error: the number, its tag and its length. -/
def errorLength (errorVal : UInt32) : Nat := integerLength errorVal + 2

/-- The condition: for a Submit result the version of the profile is known, and so it is for an error of
the MTS that has a parameter; nobody is asked for the result of a verification, except for a subscriber
that is unknown; and what the variable of `ua_issueErrorRequest` happens to be is zero, or enough. -/
def Answer.Safe (calls : Calls) : Answer → Prop
  | .submitResult pProfile _ => calls.bufAlloc = true → ∀ v ∈ pProfile, v.Known
  | .deliveryVerifyResult pProfile _ => pProfile = none
  | .submissionVerifyResult _ => False
  | .mtsError forceErrorParm errorVal _ v =>
    attaches forceErrorParm errorVal = true → calls.bufAlloc = true → v.Known
  | .uaError errorVal n =>
    calls.bufAlloc = true → calls.allocSegment 0 = true → calls.duAlloc = true →
      n = 0 ∨ errorLength errorVal ≤ n.toNat

/-! ## Small values -/

variable {calls : Calls} {e : Entry} {c : CStruct} {n : UInt16} {os : Octets} {f : Front}

/-- What is formatted into a single segment, and parsed as the same value. -/
structure Small (e : Entry) (c : CStruct) : Prop where
  numeric : e.Numeric
  fits : (encode c e).length ≤ bufMinDataArea

theorem tlv_length_short {tag : UInt8} {data : Octets} (h : data.length ≤ 127) :
    (tlv tag data).length = data.length + 2 := by
  unfold tlv lengthOctets
  rw [if_pos h]
  simp

theorem integerLength_le (v : UInt32) : integerLength v ≤ 4 := by
  unfold integerLength
  split_ifs <;> decide

theorem encode_integer_length {i : Info} (hi : i.existsOffset = none) (c : CStruct) :
    (encode c (.integer i)).length = integerLength (c.uint32 i.dataOffset) + 2 := by
  have hle := integerLength_le (c.uint32 i.dataOffset)
  rw [← integerOctets_length] at hle ⊢
  rw [encode_integer hi, tlv_length_short (by omega)]

theorem encode_sequence_length {i : Info} (hi : i.existsOffset = none) {es : List Entry}
    (h : (encodeAll c es).length ≤ 127) :
    (encode c (.sequence i es)).length = (encodeAll c es).length + 2 := by
  rw [encode_sequence hi, tlv_length_short h]

theorem encode_error_length (c : CStruct) :
    (encode c compileErrorRequest).length = errorLength (c.uint32 0) :=
  encode_integer_length (i := { tag := universalTagInteger }) rfl c

theorem small_error (c : CStruct) : Small compileErrorRequest c where
  numeric := ⟨(by decide : PlainTag universalTagInteger), rfl⟩
  fits := by
    have hle := integerLength_le (c.uint32 0)
    rw [encode_error_length]
    unfold errorLength bufMinDataArea
    omega

theorem small_submitResult {tag : UInt8} (htag : PlainTag tag) (c : CStruct) :
    Small (compileSubmitResult tag) c where
  numeric := ⟨by decide, rfl, ⟨htag, rfl, ⟨by decide, rfl⟩, ⟨by decide, rfl⟩, trivial⟩, trivial⟩
  fits := by
    have hle₀ := integerLength_le (c.uint32 0)
    have hle₄ := integerLength_le (c.uint32 4)
    have hnumbers : (encodeAll c [.integer { tag := universalTagInteger, dataOffset := 0 },
        .integer { tag := universalTagInteger, dataOffset := 4 }]).length =
        integerLength (c.uint32 0) + 2 + (integerLength (c.uint32 4) + 2) := by
      simp only [encodeAll, List.length_append, encode_integer_length, List.length_nil, Nat.add_zero]
    have hid : (encodeAll c [compileLocalMessageId tag]).length =
        integerLength (c.uint32 0) + 2 + (integerLength (c.uint32 4) + 2) + 2 := by
      unfold compileLocalMessageId encodeAll encodeAll
      rw [List.append_nil, encode_sequence_length rfl (by omega), hnumbers]
    unfold compileSubmitResult bufMinDataArea
    rw [encode_sequence_length rfl (by omega), hid]
    omega

/-- **A small value** is formatted when there is a segment for it, and it is in one chunk. -/
theorem asnFormat_small (h : Small e c) (allocSegment : Nat → Bool) :
    asnFormat allocSegment (.entry e) (.buffer (Front.alloc 0)) c =
      if allocSegment 0 then
        .success (.buffer ⟨[encode c e, []], bufMinDataArea - (encode c e).length⟩)
      else .failed := by
  unfold asnFormat
  dsimp only
  rw [format_numbers c e _ h.numeric, addOctets_alloc h.fits,
    if_neg (encode_numbers_ne_nil e h.numeric)]
  have hone : (∀ n < 1, allocSegment n = true) ↔ allocSegment 0 = true :=
    ⟨fun hall => hall 0 Nat.zero_lt_one, fun h0 n hn => by rwa [Nat.lt_one_iff.1 hn]⟩
  exact if_congr hone rfl rfl

/-- What is copied of a chunk. -/
def copied (n : UInt16) (os : Octets) : Octets := if n = 0 then os else os.take n.toNat

theorem copied_length (n : UInt16) (os : Octets) :
    (copied n os).length = os.length ↔ n = 0 ∨ os.length ≤ n.toNat := by
  unfold copied
  split
  · simp_all
  · rename_i hn
    rw [List.length_take, or_iff_right hn]
    omega

theorem getChunk_single (hos : os ≠ []) (room : Nat) (n : UInt16) :
    ∃ b, (⟨[os, []], room⟩ : Front).buf.getChunk n.toNat = .ok (copied n os) b := by
  have hlen : ¬os.length - 0 = 0 := by
    have := List.length_pos_iff.2 hos
    omega
  have hskip : Buf.skipSegs [os, []] 0 = some (0, 0, os) := if_neg hlen
  have hzero : n.toNat = 0 ↔ n = 0 := by rw [← UInt16.toNat_inj, UInt16.toNat_zero]
  have hcopied : os.take (if n.toNat ≠ 0 ∧ os.length > n.toNat then n.toNat else os.length) =
      copied n os := by
    unfold copied
    by_cases hn : n = 0
    · rw [if_neg (by simp [hn]), if_pos hn, List.take_length]
    · rw [if_neg hn]
      split
      · rfl
      · -- the chunk has no more than is asked for
        rename_i hle
        have hge : os.length ≤ n.toNat := by
          by_contra hlt
          exact hle ⟨fun h0 => hn (hzero.1 h0), by omega⟩
        rw [List.take_length, List.take_of_length_le hge]
  unfold Buf.getChunk Front.buf
  rw [List.drop_zero, hskip]
  dsimp only
  rw [hcopied]
  exact ⟨_, rfl⟩

/-- **A copy** has the octets of the chunk; what comes behind them is left as it was. -/
theorem copyToView_eq (hos : os ≠ []) (hdu : calls.duAlloc = true) (room : Nat) :
    copyToView calls (⟨[os, []], room⟩ : Front).buf n =
      some ((copied n os).map some ++ List.replicate (os.length - (copied n os).length) none) := by
  obtain ⟨b, hchunk⟩ := getChunk_single hos room n
  have hlen : (⟨[os, []], room⟩ : Front).buf.getBufferLength = os.length := rfl
  unfold copyToView
  rw [if_pos hdu, hchunk, hlen]
  dsimp only
  unfold duAlloc DataUnit.copy
  rw [List.drop_replicate]

theorem carries_of_small (h : Small e c) : Carries e c ((encode c e).map some) where
  octets := by
    refine ⟨_, _, format_numbers c e _ h.numeric, ?_⟩
    rw [addOctets_octets, Front.alloc_octets, List.append_nil]
  parsed longMax t := by
    have hfit : (encode c e).length ≤ noLength := h.fits.trans (by decide)
    obtain ⟨b, c', hdone, hrest, hsame⟩ := parse_received longMax t h.numeric hfit
    exact ⟨encode c e, b, c', rfl, hdone, hrest, hsame⟩

/-- A copy carries the value when it has all octets. -/
theorem carries_copy_iff (h : Small e c) :
    Carries e c ((copied n (encode c e)).map some ++
        List.replicate ((encode c e).length - (copied n (encode c e)).length) none) ↔
      n = 0 ∨ (encode c e).length ≤ n.toNat := by
  rw [← copied_length]
  constructor
  · rintro ⟨⟨f, len, hformat, hoctets⟩, -⟩
    have hnone : none ∉ f.octets.map some := by simp
    rw [← hoctets] at hnone
    by_contra hne
    have hle : (copied n (encode c e)).length ≤ (encode c e).length := by
      unfold copied
      split
      · exact Nat.le_refl _
      · exact List.length_take_le' _ _
    refine hnone (List.mem_append_right _ (List.mem_replicate.2 ⟨?_, rfl⟩))
    omega
  · intro hlen
    have hall : copied n (encode c e) = encode c e := by
      unfold copied at hlen ⊢
      split at hlen
      · rw [if_pos ‹_›]
      · rename_i hn
        rw [if_neg hn]
        rw [List.length_take] at hlen
        exact List.take_of_length_le (by omega)
    rw [hall, Nat.sub_self, List.replicate_zero, List.append_nil]
    exact carries_of_small h

/-! ## The answers, one by one -/

/-- A small value is sent when every call succeeds: as much of it as is asked for. -/
theorem formatToView_copied (h : Small e c) (hbuf : calls.bufAlloc = true)
    (hseg : calls.allocSegment 0 = true) (hdu : calls.duAlloc = true) (n : UInt16) :
    formatToView calls (.entry e) c n = .request (.view ((copied n (encode c e)).map some ++
      List.replicate ((encode c e).length - (copied n (encode c e)).length) none)) := by
  unfold formatToView
  rw [if_pos hbuf, asnFormat_small h, if_pos hseg]
  dsimp only
  rw [copyToView_eq (encode_numbers_ne_nil e h.numeric) hdu]
  rfl

/-- All of it is sent when the whole buffer is asked for. -/
theorem formatToView_sent (h : Small e c) (hbuf : calls.bufAlloc = true)
    (hseg : calls.allocSegment 0 = true) (hdu : calls.duAlloc = true) :
    formatToView calls (.entry e) c 0 = .request (.view ((encode c e).map some)) := by
  rw [formatToView_copied h hbuf hseg hdu]
  unfold copied
  rw [if_pos rfl, Nat.sub_self, List.replicate_zero, List.append_nil]

/-- It is not sent at all when one of them fails. -/
theorem formatToView_lost (h : Small e c) (n : UInt16)
    (hno : ¬(calls.bufAlloc = true ∧ calls.allocSegment 0 = true ∧ calls.duAlloc = true)) :
    formatToView calls (.entry e) c n = .withheld := by
  unfold formatToView
  split
  · rename_i hbuf
    rw [asnFormat_small h]
    split_ifs with hseg
    · have hdu : ¬calls.duAlloc = true := fun hdu => hno ⟨hbuf, hseg, hdu⟩
      have hnone : copyToView calls
          (⟨[encode c e, []], bufMinDataArea - (encode c e).length⟩ : Front).buf n = none := if_neg hdu
      dsimp only
      rw [hnone]
      rfl
    · rfl
  · rfl

/-- **A formatted and copied value** arrives when no pointer is missing, and enough is asked for. -/
theorem formatToView_intact_iff {a : Answer} (h : Small e c) (ha : a.intended = some (e, c))
    (n : UInt16) :
    a.Intact (formatToView calls (.entry e) c n) ↔
      (calls.bufAlloc = true → calls.allocSegment 0 = true → calls.duAlloc = true →
        n = 0 ∨ (encode c e).length ≤ n.toNat) := by
  by_cases hall : calls.bufAlloc = true ∧ calls.allocSegment 0 = true ∧ calls.duAlloc = true
  · obtain ⟨hbuf, hseg, hdu⟩ := hall
    rw [formatToView_copied h hbuf hseg hdu]
    have hiff : a.Intact (.request (.view ((copied n (encode c e)).map some ++
        List.replicate ((encode c e).length - (copied n (encode c e)).length) none))) ↔
        Carries e c ((copied n (encode c e)).map some ++
          List.replicate ((encode c e).length - (copied n (encode c e)).length) none) := by
      constructor
      · rintro ⟨e', c', heq, hcarries⟩
        rw [ha] at heq
        cases heq
        exact hcarries
      · exact fun hcarries => ⟨e, c, ha, hcarries⟩
    rw [hiff, carries_copy_iff h]
    exact ⟨fun hn _ _ _ => hn, fun hn => hn hbuf hseg hdu⟩
  · rw [formatToView_lost h n hall]
    exact ⟨fun _ hbuf hseg hdu => absurd ⟨hbuf, hseg, hdu⟩ hall, fun _ => trivial⟩

/-- Without a compile tree nothing can be formatted. -/
theorem formatToView_null {a : Answer} :
    a.Intact (formatToView calls .null c n) ↔ ¬calls.bufAlloc = true := by
  unfold formatToView
  split
  · rename_i hbuf
    exact ⟨False.elim, fun hnot => hnot hbuf⟩
  · rename_i hbuf
    exact ⟨fun _ => hbuf, fun _ => trivial⟩

/-- **A buffer** is never what was meant. -/
theorem formatToBuffer_not_intact {a : Answer} {pCompTree : CompTree} {hBuf : Handle} :
    ¬a.Intact (formatToBuffer calls pCompTree hBuf c) := by
  unfold formatToBuffer
  split
  · exact id
  · exact id
  · exact id

variable {v : Version}

theorem getProtocolTree_unknown (h : ¬v.Known) (protocol : ProtocolType) :
    getProtocolTree protocol v = .null := by
  unfold getProtocolTree
  rw [if_neg fun h11 => h (.inl h11), if_neg fun h10 => h (.inr h10)]

theorem getProtocolTree_submitResult (h : v.Known) : getProtocolTree .submitResult v =
    .entry (compileSubmitResult
      (if some v = some ⟨1, 0⟩ then typeSequence else universalTagSequence)) := by
  rcases h with rfl | rfl <;> rfl

theorem getProtocolTree_errorRequest (h : v.Known) :
    getProtocolTree .errorRequest v = .entry compileErrorRequest := by
  rcases h with rfl | rfl <;> rfl

theorem submitResult_intact_iff (pProfile : Option Version) (submitRes : SubmitResult) :
    (Answer.submitResult pProfile submitRes).Intact (submitResult calls pProfile submitRes) ↔
      (Answer.submitResult pProfile submitRes).Safe calls := by
  cases pProfile with
  | none => exact ⟨fun _ _ v hv => absurd hv (Option.not_mem_none v), fun _ => trivial⟩
  | some v =>
    have hsafe : (Answer.submitResult (some v) submitRes).Safe calls ↔
        (calls.bufAlloc = true → v.Known) := by
      simp [Answer.Safe]
    rw [hsafe]
    unfold submitResult
    dsimp only
    by_cases hv : v.Known
    · have htag : PlainTag (if some v = some ⟨1, 0⟩ then typeSequence else universalTagSequence) := by
        split <;> decide
      rw [getProtocolTree_submitResult hv, formatToView_intact_iff (small_submitResult htag _) rfl]
      exact ⟨fun _ _ => hv, fun _ _ _ _ => .inl rfl⟩
    · rw [getProtocolTree_unknown hv, formatToView_null]
      exact ⟨fun hno hbuf => absurd hbuf hno, fun hk hbuf => hv (hk hbuf)⟩

theorem deliveryVerifyResult_intact_iff (pProfile : Option Version) (deliveryStatus : UInt32) :
    (Answer.deliveryVerifyResult pProfile deliveryStatus).Intact
        (deliveryVerifyResult calls pProfile deliveryStatus) ↔ pProfile = none := by
  cases pProfile with
  | none => exact ⟨fun _ => rfl, fun _ => trivial⟩
  | some v => exact ⟨fun h => (formatToBuffer_not_intact h).elim, fun h => by cases h⟩

theorem submissionVerifyResult_not_intact (calls : Calls) (submissionStatus : UInt32) :
    ¬(Answer.submissionVerifyResult submissionStatus).Intact
      (submissionVerifyResult calls submissionStatus) := by
  unfold submissionVerifyResult
  exact formatToBuffer_not_intact

theorem mtsError_intact_iff (forceErrorParm : Bool) (errorVal : Nat) (errorParam : UInt8)
    (v : Version) :
    (Answer.mtsError forceErrorParm errorVal errorParam v).Intact
        (mtsIssueErrorRequest calls forceErrorParm errorVal errorParam v) ↔
      (attaches forceErrorParm errorVal = true → calls.bufAlloc = true → v.Known) := by
  unfold mtsIssueErrorRequest
  by_cases hparam : attaches forceErrorParm errorVal = true
  · have hintended : (Answer.mtsError forceErrorParm errorVal errorParam v).intended =
        some (compileErrorRequest, oneNumber errorParam.toUInt32) := if_pos hparam
    rw [if_pos hparam]
    by_cases hv : v.Known
    · rw [getProtocolTree_errorRequest hv, formatToView_intact_iff (small_error _) hintended]
      exact ⟨fun _ _ _ => hv, fun _ _ _ _ => .inl rfl⟩
    · rw [getProtocolTree_unknown hv, formatToView_null]
      exact ⟨fun hno _ hbuf => absurd hbuf hno, fun hk hbuf => hv (hk hparam hbuf)⟩
  · rw [if_neg hparam]
    exact ⟨fun _ h => absurd h hparam, fun _ => if_neg hparam⟩

theorem uaError_intact_iff (errorVal : UInt32) (n : UInt16) :
    (Answer.uaError errorVal n).Intact (uaIssueErrorRequest calls errorVal n) ↔
      (Answer.uaError errorVal n).Safe calls := by
  have hlen : (encode (oneNumber errorVal) compileErrorRequest).length = errorLength errorVal :=
    encode_error_length _
  have hiff : (Answer.uaError errorVal n).Intact (uaIssueErrorRequest calls errorVal n) ↔ _ :=
    formatToView_intact_iff (small_error (oneNumber errorVal)) rfl n
  rw [hlen] at hiff
  exact hiff

/-- **An answer arrives as it was meant**, or not at all, exactly when the condition holds. -/
theorem answer_intact_iff (calls : Calls) (a : Answer) : a.Intact (a.reply calls) ↔ a.Safe calls := by
  cases a with
  | submitResult pProfile submitRes => exact submitResult_intact_iff pProfile submitRes
  | deliveryVerifyResult pProfile status => exact deliveryVerifyResult_intact_iff pProfile status
  | submissionVerifyResult status =>
    exact iff_of_false (submissionVerifyResult_not_intact calls status) id
  | mtsError force errorVal errorParam v => exact mtsError_intact_iff force errorVal errorParam v
  | uaError errorVal n => exact uaError_intact_iff errorVal n

/-- **A buffer for a data unit**: the result of a SubmissionVerify, and nothing has failed. -/
theorem submissionVerify_foreign :
    (Answer.submissionVerifyResult 1).reply {} = .request .foreign ∧
      ¬∀ calls a, Answer.Intact a (a.reply calls) :=
  ⟨rfl, fun h => h {} (.submissionVerifyResult 1)⟩

end Mtsua
