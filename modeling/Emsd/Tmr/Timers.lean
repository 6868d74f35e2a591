import Emsd.Lib.Run
import Mathlib.Data.List.Sort
import Mathlib.Data.BitVec

/-!
# Timers (`multiocp/sysif.ocp/tmr_/unix.djl/tmr.c`, `tmrunix.h`)

The timer queue is a list in the order of the expiry times, which are readings of a clock of 32 bits.
`TMR_processQueue` takes the timers off its front as long as they have expired, and calls their
handlers; a handler may start and stop timers, and time goes on in it.
-/

namespace Tmr

/-- `Timer`. -/
structure Timer where
  /-- The address of the structure: its number among all that have been obtained. -/
  hTimer : ℕ
  expiryTime : BitVec 32
  /-- `hUserData1` is `&timerQHead`: a timer of the original module. -/
  emulated : Bool
  /-- The time at which it was started. This and the next are not in the structure, which has only
  their sum on the clock; they are kept to say when it is due. -/
  startTime : ℕ
  milliseconds : BitVec 32
  deriving DecidableEq, Repr

/-- A call of `TMR_processQueue` that has called a handler. -/
structure Processing where
  timeNow : BitVec 32
  /-- The time at which it has read the clock. -/
  readTime : ℕ
  pTimer : Timer
  deriving DecidableEq, Repr

/-- The timer queue, and what runs. -/
structure Timers where
  /-- The time in milliseconds. -/
  time : ℕ := 0
  timerQHead : List Timer := []
  /-- How many timers have been obtained. -/
  obtained : ℕ := 0
  /-- The calls of `TMR_processQueue`, the innermost first. -/
  calls : List Processing := []
  deriving DecidableEq, Repr

inductive Out
  | started (t : Timer)
  | stopped (t : Timer)
  /-- Its handler is called, at this time. -/
  | fired (t : Timer) (time : ℕ)
  /-- `TMR_processQueue` returns `Success` or not; it has read the clock at this time. -/
  | returned (readTime : ℕ) (rc : Bool)
  deriving DecidableEq, Repr

inductive Input
  | pass (milliseconds : ℕ)
  /-- `TMR_start`; `obtains`: `tmr_obtain` gives a structure. -/
  | start (milliseconds : BitVec 32) (obtains : Bool)
  | create (milliseconds : BitVec 32) (obtains : Bool)
  /-- `TMR_stop`, `TMR_cancel` -/
  | stop (hTimer : ℕ)
  /-- `TMR_processQueue`, `TMR_poll` -/
  | processQueue
  /-- The handler that was called last returns `Success` or not. -/
  | handlerReturns (rc : Bool)

/-- `tmr_currentTime`. -/
def currentTime (time : ℕ) : BitVec 32 := BitVec.ofNat 32 time

/-- It is computed from `time(NULL)` as an `OS_Uint32`, times 1000. -/
theorem currentTime_seconds (seconds : ℕ) :
    BitVec.ofNat 32 seconds * 1000 = currentTime (seconds * 1000) :=
  (BitVec.ofNat_mul seconds 1000).symm

/-- The loop of `TMR_start`: before the first one with a later time, or at the end. -/
def insertTimer (pNewTimer : Timer) (timerQHead : List Timer) : List Timer :=
  timerQHead.orderedInsert (fun t u => t.expiryTime < u.expiryTime) pNewTimer

namespace Timers

/-- `TMR_start`, and `TMR_create` when `emulated`. -/
def start (s : Timers) (milliseconds : BitVec 32) (emulated : Bool) : Timers × List Out :=
  let pNewTimer : Timer :=
    ⟨s.obtained, currentTime s.time + milliseconds, emulated, s.time, milliseconds⟩
  ({ s with
      timerQHead := insertTimer pNewTimer s.timerQHead
      obtained := s.obtained + 1 },
    [.started pNewTimer])

/-- The loop of `TMR_processQueue`, until it calls a handler or returns. -/
def process (s : Timers) (timeNow : BitVec 32) (readTime : ℕ) : Timers × List Out :=
  match s.timerQHead with
  | [] => (s, [.returned readTime true])
  | pTimer :: rest =>
    if pTimer.expiryTime ≤ timeNow then
      ({ s with timerQHead := rest, calls := ⟨timeNow, readTime, pTimer⟩ :: s.calls },
        [.fired pTimer s.time])
    else (s, [.returned readTime true])

/-- One input. There is no result when `TMR_create` has no timer, which is fatal, or when the timer that
is stopped is not on the queue: its structure has been freed, or is freed after its handler. -/
def step (s : Timers) : Input → Option (Timers × List Out)
  | .pass milliseconds => some ({ s with time := s.time + milliseconds }, [])
  | .start milliseconds obtains => some (if obtains then s.start milliseconds false else (s, []))
  | .create milliseconds obtains => if obtains then some (s.start milliseconds true) else none
  | .stop hTimer =>
    (s.timerQHead.find? fun t => t.hTimer = hTimer).map fun t =>
      ({ s with timerQHead := s.timerQHead.erase t }, [.stopped t])
  | .processQueue => some (s.process (currentTime s.time) s.time)
  | .handlerReturns rc =>
    match s.calls with
    | [] => none
    | c :: calls =>
      let s := { s with calls }
      -- the handler of an original timer returns nothing
      if c.pTimer.emulated || rc then some (s.process c.timeNow c.readTime)
      else some (s, [.returned c.readTime false])

end Timers

/-- The timer service, from any time on. -/
def timers : Run.Sys Timers Input Out where
  init s := s.timerQHead = [] ∧ s.calls = []
  step := Timers.step

end Tmr
