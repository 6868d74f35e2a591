import Emsd.Lib.Run

/-!
# The scheduler (`schsel.c`)

Functions that are submitted wait in the active queue until `SCH_block` moves them to the run queue,
from which `SCH_run` takes and calls them one by one. A function that is called may submit and
delete others, and may call `SCH_block` and `SCH_run` itself, so that the calls of `SCH_run` in
progress are a stack.
-/

namespace Sch

/-- `SCH_PSEUDO_EVENT`: a function that waits for no descriptor. -/
def pseudoEvent : Int := -1

/-- `SchInfo`: the element of the pool, the function, its argument and its event; `serial` numbers
the submissions. -/
structure SchInfo where
  slot : Nat
  func : Nat
  arg : Nat
  event : Int
  serial : Nat
  deriving DecidableEq, Repr

def SchInfo.isPseudo (t : SchInfo) : Bool := t.event = pseudoEvent

/-- A call of `SCH_run`: its `sanityCounter`, and the function that it has called and that has not
returned yet. -/
structure Frame where
  sanityCounter : Nat
  running : Option SchInfo
  deriving DecidableEq, Repr

/-- The three queues, the calls of `SCH_run` with the innermost one first, and the number of
submissions so far. -/
structure Sched where
  availSchInfo : List Nat
  activeSchInfo : List SchInfo
  runSchInfo : List SchInfo
  frames : List Frame
  submits : Nat
  deriving DecidableEq, Repr

/-- What `select` answers: the descriptors that are ready, nothing or a signal, bad descriptors, or
another error. -/
inductive Select
  | ready (fds : Int → Bool)
  | nothing
  | ebadf (bad : Int → Bool)
  | failed

inductive Input
  | submit (func arg : Nat) (event : Int)
  | taskDelete (event : Int) (func arg : Nat)
  | allTaskDelete (event : Int) (func arg : Nat)
  | block (sel : Select)
  | run
  /-- the loop of the innermost `SCH_run` goes on -/
  | loop
  /-- the function that it has called returns -/
  | taskReturns

inductive Out
  /-- The function of a task is called. -/
  | ran (t : SchInfo)
  | deleted (t : SchInfo)
  /-- The value that a call returns. -/
  | ret (value : Int)
  /-- `SCH_run` returns. -/
  | runReturned
  deriving DecidableEq, Repr

/-- `SCH_init` with a pool of the given size. -/
def init (maxSchInfo : Nat) : Sched := ⟨List.range maxSchInfo, [], [], [], 0⟩

namespace Sched

/-- No `SCH_run` is between two functions, so that the program makes the next call. -/
def callable (s : Sched) : Bool := s.frames.head?.all (·.running.isSome)

/-- `SCH_submit`; the process ends when the pool is empty. -/
def submit (s : Sched) (func arg : Nat) (event : Int) : Option (Sched × List Out) :=
  match s.availSchInfo with
  | [] => none
  | slot :: avail =>
    some ({ s with
      availSchInfo := avail
      activeSchInfo := s.activeSchInfo ++ [⟨slot, func, arg, event, s.submits⟩]
      submits := s.submits + 1 }, [.ret 0])

/-- The test of `SCH_taskDelete`. -/
def names (event : Int) (func arg : Nat) (t : SchInfo) : Bool :=
  (event ≠ pseudoEvent || (func = t.func && arg = t.arg)) && event = t.event

/-- `SCH_taskDelete`: the first task of the active queue that the test names. -/
def taskDelete (s : Sched) (event : Int) (func arg : Nat) : Sched × List Out :=
  match s.activeSchInfo.find? (names event func arg) with
  | none => (s, [.ret (-1)])
  | some t =>
    ({ s with
      availSchInfo := s.availSchInfo ++ [t.slot]
      activeSchInfo := s.activeSchInfo.eraseP (names event func arg) }, [.deleted t, .ret 0])

/-- The tasks that the test holds of go back to the pool, in order. -/
def purge (s : Sched) (p : SchInfo → Bool) : Sched × List Out :=
  let gone := s.activeSchInfo.filter p
  ({ s with
    availSchInfo := s.availSchInfo ++ gone.map (·.slot)
    activeSchInfo := s.activeSchInfo.filter (!p ·) }, gone.map .deleted)

/-- `SCH_allTaskDelete`: `SCH_taskDelete` until it fails. -/
def allTaskDelete (s : Sched) (event : Int) (func arg : Nat) : Sched × List Out :=
  let r := s.purge (names event func arg)
  (r.1, r.2 ++ [.ret (if r.2.isEmpty then -1 else 0)])

/-- `SCH_allTaskDelete` for one descriptor after the other. -/
def purgeAll (s : Sched) : List Int → Sched × List Out
  | [] => (s, [])
  | event :: rest =>
    let r := s.purge (·.event = event)
    let q := r.1.purgeAll rest
    (q.1, r.2 ++ q.2)

/-- The loop over the active queue after EBADF, from the elements that are still to come: a task with
a bad descriptor is deleted with all others on it. When the next element has been one of these, the
loop is in the queue of available elements then and does not end. -/
def badTasks (bad : Int → Bool) : List SchInfo → List Int → Option (List Int)
  | [], gone => some gone
  | t :: rest, gone =>
    if t.event ∈ gone then badTasks bad rest gone
    else if t.isPseudo || !bad t.event then badTasks bad rest gone
    else if (rest.find? (·.event ∉ gone)).any (·.event = t.event) then none
    else badTasks bad rest (gone ++ [t.event])

/-- The tasks that the loop after `select` moves to the run queue, and those that stay: each
descriptor that is ready wakes its first task. -/
def awake : (Int → Bool) → List SchInfo → List SchInfo × List SchInfo
  | _, [] => ([], [])
  | ready, t :: rest =>
    if t.isPseudo then
      let r := awake ready rest
      (t :: r.1, r.2)
    else if ready t.event then
      let r := awake (fun fd => ready fd && fd ≠ t.event) rest
      (t :: r.1, r.2)
    else
      let r := awake ready rest
      (r.1, t :: r.2)

/-- `SCH_block`; `none` where it does not return. -/
def block (s : Sched) (sel : Select) : Option (Sched × List Out) :=
  if s.activeSchInfo = [] then some (s, [.ret 0])
  else
    let pseudo := s.activeSchInfo.filter (·.isPseudo)
    if pseudo ≠ [] then
      some ({ s with
        runSchInfo := s.runSchInfo ++ pseudo
        activeSchInfo := s.activeSchInfo.filter (!·.isPseudo) }, [.ret 0])
    else
      match sel with
      | .nothing => some (s, [.ret 0])
      | .failed => some (s, [.ret (-3)])
      | .ebadf bad =>
        (badTasks bad s.activeSchInfo []).map fun gone =>
          let r := s.purgeAll gone
          (r.1, r.2 ++ [.ret 0])
      | .ready fds =>
        let r := awake fds s.activeSchInfo
        some ({ s with runSchInfo := s.runSchInfo ++ r.1, activeSchInfo := r.2 },
          [.ret r.1.length])

/-- The loop of `SCH_run`, up to the call of a function or to the end. The task that finds the
counter exceeded has been taken off the run queue already. -/
def loop (s : Sched) : Option (Sched × List Out) :=
  match s.frames with
  | ⟨sanityCounter, none⟩ :: outer =>
    match s.runSchInfo with
    | [] => some ({ s with frames := outer }, [.runReturned])
    | t :: rest =>
      if sanityCounter > 200 then
        some ({ s with runSchInfo := rest, frames := outer }, [.runReturned])
      else
        some ({ s with runSchInfo := rest, frames := ⟨sanityCounter + 1, some t⟩ :: outer }, [.ran t])
  | _ => none

/-- The function returns, and `SCH_run` gives its element back. -/
def taskReturns (s : Sched) : Option (Sched × List Out) :=
  match s.frames with
  | ⟨sanityCounter, some t⟩ :: outer =>
    some ({ s with
      availSchInfo := s.availSchInfo ++ [t.slot]
      frames := ⟨sanityCounter, none⟩ :: outer }, [])
  | _ => none

end Sched

/-- One call, or one turn of the loop of `SCH_run`. A timer's signal may submit at any time. -/
def step (s : Sched) : Input → Option (Sched × List Out)
  | .submit func arg event => s.submit func arg event
  | .taskDelete event func arg => if s.callable then some (s.taskDelete event func arg) else none
  | .allTaskDelete event func arg => if s.callable then some (s.allTaskDelete event func arg) else none
  | .block sel => if s.callable then s.block sel else none
  | .run => if s.callable then some ({ s with frames := ⟨0, none⟩ :: s.frames }, []) else none
  | .loop => s.loop
  | .taskReturns => s.taskReturns

/-- The scheduler with a pool of the given size. -/
def scheduler (maxSchInfo : Nat) : Run.Sys Sched Input Out where
  init s := s = init maxSchInfo
  step := step

end Sch
