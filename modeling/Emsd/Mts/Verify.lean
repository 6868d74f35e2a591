import Mathlib.Data.Finset.Card
import Mathlib.Data.List.Basic
import Mathlib.Logic.Function.Basic

/-!
# What the MTS tells of its deliveries (`verify.h`, `mperform.c`)

`mts_deliveryNonDel` puts the status of a message into a table with `verify_setStatus`, and `aS1S5a`
answers a DELIVERY.verify with what `verify_getStatus` finds there.

* `run_messageCount`: no entry is ever counted, since `verify_setStatus` looks for an index that is
  *greater* than `MAX_VERIFY_MESSAGES`; all statuses go into the first entry, which nobody reads.
* `tells_iff`: **the table tells what it was told** all along a run if and only if it is told nothing
  but the status that it gives to everything.
-/

namespace Mts

/-- `VState`. -/
abbrev VState := ℤ

namespace VState

/-- `EMSD_DeliveryVerifyStatus_NoReportIsSentOut`, the status of a message that is not known. -/
def noReportIsSentOut : VState := 1

/-- `EMSD_DeliveryVerifyStatus_DeliveryReportIsSentOut`. -/
def deliveryReportIsSentOut : VState := 2

/-- `EMSD_DeliveryVerifyStatus_NonDeliveryReportIsSentOut`. -/
def nonDeliveryReportIsSentOut : VState := 3

end VState

/-- `MAX_VERIFY_MESSAGES`. -/
def maxVerifyMessages : ℕ := 100

/-- `MAX_VERIFY_MSGID_LEN`. -/
def maxVerifyMsgIdLen : ℕ := 63

/-- A message id, without the octet at its end. -/
abbrev VerifyId := List Char

/-- An element of `deliverVerifyList`. -/
structure DeliverVerify where
  messageId : VerifyId := []
  status : VState := 0

/-- `messageCount` and `deliverVerifyList`. -/
structure VerifyTable where
  messageCount : ℕ := 0
  deliverVerifyList : ℕ → DeliverVerify := fun _ => {}

/-- `sprintf` with `%1.*s`: at most so many characters, and a blank where there is none. -/
def storedId (messageId : VerifyId) : VerifyId :=
  match messageId.take maxVerifyMsgIdLen with
  | [] => [' ']
  | cs => cs

namespace VerifyTable

/-- The loop of both functions: the index it ends with. -/
def search (v : VerifyTable) (messageId : VerifyId) : ℕ → ℕ → ℕ
  | 0, index => index
  | fuel + 1, index =>
    if index < maxVerifyMessages ∧ index < v.messageCount then
      if (v.deliverVerifyList index).messageId = messageId then index
      else v.search messageId fuel (index + 1)
    else index

/-- The loop, from the start. It comes to an end at the end of the table. -/
def find (v : VerifyTable) (messageId : VerifyId) : ℕ := v.search messageId maxVerifyMessages 0

/-- `verify_setStatus`. There is no table when it writes outside of it. -/
def setStatus (v : VerifyTable) (messageId : VerifyId) (status : VState) : Option VerifyTable :=
  let index := v.find messageId
  let (index, messageCount) :=
    if index > maxVerifyMessages then (v.messageCount, v.messageCount + 1) else (index, v.messageCount)
  if index < maxVerifyMessages then
    some {
      messageCount
      deliverVerifyList := Function.update v.deliverVerifyList index
        { messageId := storedId messageId, status } }
  else none

/-- `verify_getStatus`. -/
def getStatus (v : VerifyTable) (messageId : VerifyId) : VState :=
  let index := v.find messageId
  if index < maxVerifyMessages ∧ index < v.messageCount then (v.deliverVerifyList index).status
  else .noReportIsSentOut

end VerifyTable

/-- The calls of the two functions. -/
inductive VerifyCall
  | setStatus (messageId : VerifyId) (status : VState)
  | getStatus (messageId : VerifyId)

/-- One call. -/
def VerifyTable.step (v : VerifyTable) : VerifyCall → Option VerifyTable
  | .setStatus messageId status => v.setStatus messageId status
  | .getStatus _ => some v

/-- The calls of a run, from the table as it is when the program starts. -/
def VerifyTable.run (calls : List VerifyCall) : Option VerifyTable :=
  calls.foldlM VerifyTable.step {}

/-- The ids whose status is set. -/
def idsSet (calls : List VerifyCall) : List VerifyId :=
  calls.filterMap fun
    | .setStatus messageId _ => some messageId
    | .getStatus _ => none

/-- The status set last of an id, with fewer other ids set since than the table has entries. -/
def Recent (calls : List VerifyCall) (messageId : VerifyId) (status : VState) : Prop :=
  ∃ before since, calls = before ++ .setStatus messageId status :: since ∧
    messageId ∉ idsSet since ∧ (idsSet since).toFinset.card < maxVerifyMessages

/-- **The table tells what it was told.** -/
structure Tells (calls : List VerifyCall) (v : VerifyTable) : Prop where
  recent : ∀ messageId status, Recent calls messageId status → v.getStatus messageId = status
  unknown : ∀ messageId, messageId ∉ idsSet calls → v.getStatus messageId = .noReportIsSentOut

variable {v v' : VerifyTable} {calls : List VerifyCall} {c : VerifyCall} {id : VerifyId}
  {status : VState}

/-! ## A table without counted entries -/

theorem find_uncounted (h : v.messageCount = 0) : v.find id = 0 := by
  -- the loop ends before its first turn
  have hloop : ¬((0 : ℕ) < maxVerifyMessages ∧ 0 < v.messageCount) := by
    rintro ⟨-, hlt⟩
    rw [h] at hlt
    exact absurd hlt (Nat.lt_irrefl 0)
  unfold VerifyTable.find
  exact if_neg hloop

theorem getStatus_uncounted (h : v.messageCount = 0) : v.getStatus id = .noReportIsSentOut := by
  unfold VerifyTable.getStatus
  rw [find_uncounted h, h]
  exact if_neg fun hlt => absurd hlt.2 (Nat.lt_irrefl 0)

/-- The index found is never greater than the size of the table: nothing is counted. -/
theorem setStatus_uncounted (h : v.messageCount = 0) (id : VerifyId) (status : VState) :
    ∃ v', v.setStatus id status = some v' ∧ v'.messageCount = 0 := by
  have hnot : ¬0 > maxVerifyMessages := Nat.not_lt_zero _
  have hin : 0 < maxVerifyMessages := by decide
  unfold VerifyTable.setStatus
  simp only [find_uncounted h, if_neg hnot, if_pos hin]
  exact ⟨_, rfl, h⟩

/-- One call keeps the table without counted entries, and writes inside it. -/
theorem step_uncounted (h : v.messageCount = 0) (c : VerifyCall) :
    ∃ v', v.step c = some v' ∧ v'.messageCount = 0 := by
  cases c with
  | setStatus id status => exact setStatus_uncounted h id status
  | getStatus id => exact ⟨v, rfl, h⟩

/-! ## Runs -/

/-- **No entry is ever counted**, and every call writes inside the table. -/
theorem run_messageCount (calls : List VerifyCall) :
    ∃ v, VerifyTable.run calls = some v ∧ v.messageCount = 0 := by
  have hfrom : ∀ v : VerifyTable, v.messageCount = 0 →
      ∃ v', calls.foldlM VerifyTable.step v = some v' ∧ v'.messageCount = 0 := by
    induction calls with
    | nil => exact fun v hv => ⟨v, rfl, hv⟩
    | cons c calls ih =>
      intro v hv
      obtain ⟨v', hstep, hv'⟩ := step_uncounted hv c
      obtain ⟨w, hrest, hw⟩ := ih v' hv'
      refine ⟨w, ?_, hw⟩
      rw [List.foldlM_cons, hstep]
      exact hrest
  exact hfrom {} rfl

/-- Whatever was set, nothing is found. -/
theorem run_getStatus (hrun : VerifyTable.run calls = some v) (id : VerifyId) :
    v.getStatus id = .noReportIsSentOut := by
  obtain ⟨w, hw, hcount⟩ := run_messageCount calls
  obtain rfl : w = v := Option.some.inj (hw.symm.trans hrun)
  exact getStatus_uncounted hcount

/-- What is set last is recent. -/
theorem recent_last (pre : List VerifyCall) (id : VerifyId) (status : VState) :
    Recent (pre ++ [.setStatus id status]) id status :=
  ⟨pre, [], rfl, List.not_mem_nil, by decide⟩

/-- **The table tells what it was told** after every call of a run if and only if the run sets no other
status than the one that everything has. -/
theorem tells_iff (calls : List VerifyCall) :
    (∀ pre, pre <+: calls → ∃ v, VerifyTable.run pre = some v ∧ Tells pre v) ↔
      ∀ id status, .setStatus id status ∈ calls → status = .noReportIsSentOut := by
  constructor
  · intro hall id status hmem
    obtain ⟨pre, post, rfl⟩ := List.append_of_mem hmem
    obtain ⟨v, hrun, htells⟩ := hall (pre ++ [.setStatus id status]) ⟨post, by simp⟩
    -- what was just set should be told, and is not
    have htold := htells.recent id status (recent_last pre id status)
    rw [← htold]
    exact run_getStatus hrun id
  · rintro hset pre ⟨post, rfl⟩
    obtain ⟨v, hrun, -⟩ := run_messageCount pre
    refine ⟨v, hrun, ?_, fun id _ => run_getStatus hrun id⟩
    rintro id status ⟨before, since, rfl, -⟩
    rw [run_getStatus hrun id]
    symm
    apply hset id status
    simp

/-- A non-delivery report is sent out, and the status of the message is that none is. -/
theorem nonDelivery_untold : ¬∀ pre, pre <+: [VerifyCall.setStatus ['1'] .nonDeliveryReportIsSentOut] →
    ∃ v, VerifyTable.run pre = some v ∧ Tells pre v := by
  intro hall
  obtain ⟨v, hrun, htells⟩ := hall _ (List.prefix_refl _)
  have htold := htells.recent ['1'] .nonDeliveryReportIsSentOut (recent_last [] _ _)
  rw [run_getStatus hrun] at htold
  exact absurd htold (by decide)

end Mts
