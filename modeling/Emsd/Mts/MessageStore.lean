import Emsd.Ocp.Data
import Mathlib.Data.PNat.Notation
import Mathlib.Data.PNat.Defs
import Mathlib.Logic.Function.Basic

/-!
# The delivery queue of the message transfer server (`msgstore.c`)

A queue of messages for each recipient. The messages lie in the heap and are linked by their `next`
and `prev` pointers; where the code follows a pointer to memory that has been freed, the model has
no result (`none`). `time(NULL)` is an argument, one for each call.
-/

namespace Mts

open Ocp

/-- A `DQ_ControlData` in memory. -/
abbrev MsgId := Nat

/-- The EMSD address of a recipient, which identifies its `DQ_RecipQueue`. -/
abbrev EmsdAddr := Nat

/-- A result of `time(NULL)`. -/
abbrev Time := ℕ+

/-- `MQ_UNDEFINED` .. `MQ_SUCCEDED`. -/
inductive MqStatus
  | undefined
  | ready
  | delivering
  | failed
  | succeded
  deriving DecidableEq, Repr

/-- `RQ_UNDEFINED` .. `RQ_WAITING`. -/
inductive RqStatus
  | undefined
  | empty
  | ready
  | delivering
  | waiting
  deriving DecidableEq, Repr

/-- The part of `SUB_DeviceProfile` that a delivery reads. -/
structure DeviceProfile where
  nsap : NSapAddr
  protocolVersionMajor : Nat
  protocolVersionMinor : Nat
  /-- `emsdDeliveryMode` is `DM_Efficient`. -/
  efficient : Bool
  deriving DecidableEq, Repr

/-- A profile whose protocol version makes no sense counts as version 1.1. -/
def DeviceProfile.checked (p : DeviceProfile) : DeviceProfile :=
  if p.protocolVersionMajor < 1 ∨ p.protocolVersionMajor > 100 then
    { p with protocolVersionMajor := 1, protocolVersionMinor := 1 }
  else p

/-- `DQ_ControlData`. -/
structure ControlData where
  status : MqStatus
  messageId : String
  originator : String
  failureCount : Nat := 0
  submitted : Nat
  /-- Zero, or the time at which the message was delivered or has failed. -/
  completed : Nat := 0
  lastAttempt : Nat := 0
  expiryTime : Nat
  next : Option MsgId := none
  prev : Option MsgId := none
  pRecipQueue : EmsdAddr
  deriving DecidableEq, Repr

/-- `DQ_RecipQueue`. -/
structure RecipQueue where
  status : RqStatus
  /-- An `OS_Uint32`. -/
  count : Nat := 0
  /-- Failed deliveries, reset on success. -/
  failureCount : Nat := 0
  lastAttempt : Nat := 0
  nextAttempt : Nat
  pMsg : Option MsgId := none
  deviceProfile : DeviceProfile
  deriving DecidableEq, Repr

/-- The memory of the message store. The recipient queues are chained in the order of `recips`. -/
structure Store where
  /-- `nextAttempt` of the delivery queue. -/
  nextAttempt : Nat := 0
  recips : List EmsdAddr := []
  recip : EmsdAddr → Option RecipQueue := fun _ => none
  heap : MsgId → Option ControlData := fun _ => none
  nextId : MsgId := 0
  lastClean : Nat := 0
  dumpDeliveryQueue : Bool := false

namespace Store

def setRecip (s : Store) (a : EmsdAddr) (q : RecipQueue) : Store :=
  { s with recip := Function.update s.recip a (some q) }

def setMsg (s : Store) (p : MsgId) (d : ControlData) : Store :=
  { s with heap := Function.update s.heap p (some d) }

/-- `free`. -/
def free (s : Store) (p : MsgId) : Store := { s with heap := Function.update s.heap p none }

end Store

/-- `count++` and `count--` of an `OS_Uint32`. -/
def incr (n : Nat) : Nat := (n + 1) % 2 ^ 32

def decr (n : Nat) : Nat := (n + (2 ^ 32 - 1)) % 2 ^ 32

/-- A non-delivery report for the message, as `mts_deliveryNonDel` writes it. -/
structure NonDel where
  msg : MsgId
  messageId : String
  originator : String
  error : Nat
  deriving DecidableEq, Repr

/-- `mts_deliveryNonDel`. -/
def mtsDeliveryNonDel (p : MsgId) (d : ControlData) (error : Nat) : NonDel :=
  ⟨p, d.messageId, d.originator, error⟩

/-! ## Adding messages -/

/-- The element at which `while (pMsg->next)` stops. -/
def lastOf (s : Store) : Nat → MsgId → Option MsgId
  | 0, _ => none
  | fuel + 1, p => do
    let d ← s.heap p
    match d.next with
    | none => some p
    | some n => lastOf s fuel n

/-- The memory that `calloc` returns, with the fields that `DQ_addMessage` sets. `prev` stays null. -/
def newControlData (pMsgId pOriginator : String) (a : EmsdAddr) (now : Time) : ControlData where
  status := .ready
  messageId := (pMsgId.take 127).toString
  originator := (pOriginator.take 127).toString
  submitted := now
  expiryTime := now + 1 * 60 * 60
  pRecipQueue := a

/-- The link to the new element: from the queue, or from its last element. -/
def linkNew (s : Store) (a : EmsdAddr) (q : RecipQueue) : Option Store :=
  match q.pMsg with
  | none => some (s.setRecip a { q with pMsg := some s.nextId })
  | some first => do
    let p ← lastOf s (s.nextId + 1) first
    let d ← s.heap p
    some (s.setMsg p { d with next := some s.nextId })

/-- The queue with one message more. -/
def RecipQueue.added (q : RecipQueue) (now : Time) : RecipQueue :=
  { q with
    count := incr q.count
    status := if q.status = .empty then .ready else q.status
    nextAttempt := if q.nextAttempt = 0 ∨ q.nextAttempt > now + 30 then now else q.nextAttempt }

/-- `DQ_addMessage`. -/
def dqAddMessage (s : Store) (pMsgId pOriginator : String) (a : EmsdAddr) (now : Time) :
    Option Store := do
  let q ← s.recip a
  let s' ← linkNew s a q
  let q' := (← s'.recip a).added now
  some { (s'.setMsg s.nextId (newControlData pMsgId pOriginator a now)).setRecip a q' with
    nextId := s.nextId + 1
    nextAttempt := if s.nextAttempt = 0 ∨ s.nextAttempt > q'.nextAttempt then q'.nextAttempt
      else s.nextAttempt }

/-- `DQ_getRecipQueue`: `sub` is the profile that `SUB_getEntry` has found. -/
def dqGetRecipQueue (s : Store) (a : EmsdAddr) (sub : Option DeviceProfile) (now : Time) :
    Option Store :=
  match s.recip a with
  | some _ => some s
  | none => sub.map fun deviceProfile =>
    { s.setRecip a { status := .empty, nextAttempt := now, deviceProfile } with
      recips := a :: s.recips }

/-- One recipient of a message: its address as `msg_rfc822ToEmsdAddr` reads it, its subscriber's
profile, and the time. -/
structure Recipient where
  emsdAddr : EmsdAddr
  sub : Option DeviceProfile
  now : Time

/-- `msg_addMessage`, from the point where `deliveryCount` recipients have been served. -/
def msgAddMessage (pMsgId pOriginator : String) : List Recipient → Nat → Store → Option Store
  | [], _, s => some s
  | r :: recips, deliveryCount, s =>
    if r.emsdAddr = 0 then msgAddMessage pMsgId pOriginator recips deliveryCount s
    else
      match dqGetRecipQueue s r.emsdAddr r.sub r.now with
      | none => msgAddMessage pMsgId pOriginator recips deliveryCount s
      | some s => do
        let s ← dqAddMessage s pMsgId pOriginator r.emsdAddr r.now
        if deliveryCount + 1 > 32 then some s
        else msgAddMessage pMsgId pOriginator recips (deliveryCount + 1) s

/-! ## Cleaning -/

/-- Completed more than 15 minutes ago. -/
def ControlData.longCompleted (d : ControlData) (now : Nat) : Bool :=
  d.completed ≠ 0 && now - d.completed > 15 * 60

def ControlData.expired (d : ControlData) (now : Nat) : Bool := now > d.expiryTime

/-- `pMsg->next->prev = pMsg->prev`, where there is a next element. -/
def unlinkNext (s : Store) (d : ControlData) : Option Store :=
  match d.next with
  | none => some s
  | some n => (s.heap n).map fun e => s.setMsg n { e with prev := d.prev }

/-- The link to the element goes to the next one. `prev` of an element that is not the first one
should not be null; where it is, the link stays as it is. -/
def unlinkPrev (s : Store) (a : EmsdAddr) (p : MsgId) (d : ControlData) : Option Store :=
  match d.prev with
  | some n => (s.heap n).map fun e => s.setMsg n { e with next := d.next }
  | none => (s.recip a).map fun q =>
    if q.pMsg = some p then s.setRecip a { q with pMsg := d.next } else s

/-- Take an element out of its list. -/
def unlink (s : Store) (a : EmsdAddr) (p : MsgId) (d : ControlData) : Option Store :=
  (unlinkNext s d).bind fun s => unlinkPrev s a p d

/-- The inner loop of `msg_cleanQueue`. An element that is deleted is freed once its `next` has been
read. -/
def cleanMsgs (now : Time) (a : EmsdAddr) :
    Nat → Option MsgId → Store → Option (Store × List NonDel)
  | _, none, s => some (s, [])
  | 0, some _, _ => none
  | fuel + 1, some p, s => do
    let d ← s.heap p
    if d.longCompleted now then
      let s' ← unlink s a p d
      cleanMsgs now a fuel d.next (s'.free p)
    else if d.expired now then
      let s' ← unlink s a p d
      let (t, out) ← cleanMsgs now a fuel d.next (s'.free p)
      some (t, mtsDeliveryNonDel p d 0 :: out)
    else cleanMsgs now a fuel d.next s

/-- The outer loop of `msg_cleanQueue`. -/
def cleanRecips (now : Time) : List EmsdAddr → Store → Option (Store × List NonDel)
  | [], s => some (s, [])
  | a :: recips, s => do
    let q ← s.recip a
    let (s', out) ← cleanMsgs now a (s.nextId + 1) q.pMsg s
    let (t, out') ← cleanRecips now recips s'
    some (t, out ++ out')

/-- `msg_cleanQueue` goes through the queues once a minute, or when it has been asked to dump them. -/
def Store.cleans (s : Store) (now : Time) : Bool :=
  !(((now : Nat) - s.lastClean < 60) && s.dumpDeliveryQueue = false)

/-- `msg_cleanQueue`. -/
def msgCleanQueue (s : Store) (now : Time) : Option (Store × List NonDel) :=
  if s.cleans now then do
    let (t, out) ← cleanRecips now s.recips { s with lastClean := now }
    some ({ t with dumpDeliveryQueue := false }, out)
  else some (s, [])

/-! ## Taking a message for delivery -/

/-- The first message in `MQ_READY` or `MQ_FAILED`. -/
def firstWaiting (s : Store) : Nat → Option MsgId → Option (Option MsgId)
  | _, none => some none
  | 0, some _ => none
  | fuel + 1, some p => do
    let d ← s.heap p
    if d.status = .ready ∨ d.status = .failed then some (some p) else firstWaiting s fuel d.next

/-- The loop of `msg_getMessage` over the recipient queues. -/
def nextWaiting (s : Store) (now : Time) : List EmsdAddr → Option (Option MsgId)
  | [] => some none
  | a :: recips => do
    let q ← s.recip a
    if q.status ≠ .ready ∨ q.nextAttempt > now then nextWaiting s now recips
    else
      match ← firstWaiting s (s.nextId + 1) q.pMsg with
      | some p => some (some p)
      | none => nextWaiting s now recips

/-- Mark a message and its queue as in delivery. -/
def markDelivering (s : Store) (p : MsgId) (now : Time) : Option Store := do
  let d ← s.heap p
  let s := s.setMsg p { d with status := .delivering, lastAttempt := now }
  let q ← s.recip d.pRecipQueue
  some (s.setRecip d.pRecipQueue { q with lastAttempt := now, status := .delivering })

/-- `msg_getMessage`; the queues are cleaned first, at time `cleaned`. -/
def msgGetMessage (s : Store) (cleaned now : Time) :
    Option (Option MsgId × Store × List NonDel) := do
  let (s, out) ← msgCleanQueue s cleaned
  if s.nextAttempt > now then some (none, s, out)
  else
    match ← nextWaiting s now s.recips with
    | some p =>
      let s ← markDelivering s p now
      some (some p, { s with nextAttempt := now }, out)
    | none => some (none, { s with nextAttempt := now + 2 }, out)

/-! ## Completing messages -/

/-- `msg_deleteMessage`. The status of the queue is left as it is. -/
def msgDeleteMessage (s : Store) (p : MsgId) (now : Time) : Option Store := do
  let d ← s.heap p
  if d.completed = 0 then
    let s := s.setMsg p { d with status := .failed, completed := now }
    let q ← s.recip d.pRecipQueue
    some (s.setRecip d.pRecipQueue { q with count := decr q.count })
  else some s

/-- `msg_updateMessageStatus`; false is `Fail`. -/
def msgUpdateMessageStatus (s : Store) (p : MsgId) (status : MqStatus) (now : Time) :
    Option (Store × Bool) := do
  let d ← s.heap p
  if d.completed ≠ 0 then some (s, false)
  else
    let q ← s.recip d.pRecipQueue
    match status with
    | .undefined => some (s.setMsg p { d with status }, true)
    | .ready | .failed =>
      some ((s.setMsg p { d with status }).setRecip d.pRecipQueue { q with status := .ready }, true)
    | .delivering =>
      some ((s.setMsg p { d with status }).setRecip d.pRecipQueue { q with
        status := .delivering }, true)
    | .succeded =>
      some ((s.setMsg p { d with status, completed := now }).setRecip d.pRecipQueue { q with
        failureCount := 0
        count := decr q.count
        lastAttempt := now
        nextAttempt := now
        status := .ready }, true)

/-- `msg_deliverNow`. -/
def msgDeliverNow (s : Store) (nsap : NSapAddr) (now : Time) : Store :=
  { s with recip := fun a => (s.recip a).map fun q =>
      if q.count > 0 ∧ q.deviceProfile.nsap.take 4 = nsap.take 4 then { q with nextAttempt := now }
      else q }

end Mts
