import Emsd.Mm.Values
import Emsd.Tmr.Timers

/-!
# Timer objects (`mm_/hosted/entity.c`, `tmr_/unix.djl/tmr.c`)

A timer object keeps the address of its timer. `MM_startTimerByHandle` writes it over the one that is
there, and only `timerExpiry` takes it away; the structures come from `OS_alloc`, so that another timer
may get the address of one that has been stopped.

* `step_startObject`, `step_stopObject`, `step_other`: what a step does.
* `timerObjects_runs`: the timers underneath are those of the timer service.
-/

namespace Mm

open Tmr (Timer currentTime)

/-- The timer objects and the timer service. -/
structure TimerObjects where
  service : Tmr.Timers := {}
  /-- Where the structure of a timer is, by the number of the timer. -/
  address : ℕ → ℕ := fun _ => 0
  /-- `hUserData1`: the object that it has been started for. A timer of another module has none. -/
  hUserData1 : ℕ → Option ObjectId := fun _ => none
  /-- `value.handle` of an object, with 0 for `NULL`. -/
  handle : ObjectId → ℕ := fun _ => 0
  /-- What is registered, and the events that wait. -/
  mm : State := {}

namespace TimerObjects

inductive Out
  | service (o : Tmr.Out)
  /-- `timerExpiry` raises a `TimerExpired` event for the object. -/
  | timerExpiry (i : ObjectId)
  | result (rc : ReturnCode)
  deriving DecidableEq, Repr

/-- `address` is what `OS_alloc` returns in `tmr_obtain`; `alloc` says, by the number of the timer that
expires, whether there is memory for its event. -/
inductive Input
  | pass (milliseconds : ℕ)
  /-- `MM_startTimerByHandle` -/
  | startObject (i : ObjectId) (milliseconds : BitVec 32) (address : ℕ)
  /-- `MM_stopTimerByHandle` -/
  | stopObject (i : ObjectId)
  /-- Another module calls `TMR_start`, or `TMR_create` when `emulated`. -/
  | start (milliseconds : BitVec 32) (emulated : Bool) (address : ℕ)
  /-- Another module stops a timer of its own. -/
  | stop (address : ℕ)
  | processQueue (alloc : ℕ → Bool)
  /-- The handler of another module returns. -/
  | handlerReturns (rc : Bool) (alloc : ℕ → Bool)

/-- The timers that have a structure: one is freed after its handler has returned. -/
def allocated (s : TimerObjects) : List Timer :=
  s.service.timerQHead ++ s.service.calls.map (·.pTimer)

/-- `OS_alloc` may return this address. -/
def Free (s : TimerObjects) (address : ℕ) : Prop :=
  address ≠ 0 ∧ ∀ t ∈ s.allocated, s.address t.hTimer ≠ address

instance (s : TimerObjects) (address : ℕ) : Decidable (s.Free address) :=
  inferInstanceAs (Decidable (_ ∧ _))

/-- `TMR_start`, with a structure at `address`. -/
def tmrStart (s : TimerObjects) (milliseconds : BitVec 32) (emulated : Bool) (hUserData1 : Option ObjectId)
    (address : ℕ) : TimerObjects × List Out :=
  let r := s.service.start milliseconds emulated
  ({ s with
      service := r.1
      address := Function.update s.address s.service.obtained address
      hUserData1 := Function.update s.hUserData1 s.service.obtained hUserData1 },
    r.2.map .service)

/-- `TMR_stop` takes what is at the address off the queue and frees it. Where no timer of the queue is
there, it is freed memory or is freed again after its handler, and there is no result. -/
def tmrStop (s : TimerObjects) (hTimer : ℕ) : Option (TimerObjects × List Out) :=
  (s.service.timerQHead.find? fun t => s.address t.hTimer = hTimer).map fun t =>
    ({ s with service.timerQHead := s.service.timerQHead.erase t }, [.service (.stopped t)])

/-- `timerExpiry`. -/
def timerExpiry (s : TimerObjects) (i : ObjectId) (alloc : Bool) : TimerObjects × ReturnCode :=
  let s := { s with handle := Function.update s.handle i 0 }
  match s.mm.managableObjects[i]? with
  -- a timer is only started for an object that there is
  | none => (s, .success)
  | some pObject =>
    let r := generateEvent s.mm .timerExpired pObject alloc
    ({ s with mm := r.1 }, r.2)

/-- The loop of `TMR_processQueue`, until it calls a handler of another module or returns. -/
def process (alloc : ℕ → Bool) (timeNow : BitVec 32) (readTime : ℕ) (s : TimerObjects) :
    List Timer → TimerObjects × List Out
  | [] => ({ s with service.timerQHead := [] }, [.service (.returned readTime true)])
  | pTimer :: rest =>
    if pTimer.expiryTime ≤ timeNow then
      match s.hUserData1 pTimer.hTimer with
      | none =>
        ({ s with
            service.timerQHead := rest
            service.calls := ⟨timeNow, readTime, pTimer⟩ :: s.service.calls },
          [.service (.fired pTimer s.service.time)])
      | some i =>
        let r := s.timerExpiry i (alloc pTimer.hTimer)
        if r.2 = .success then
          let q := process alloc timeNow readTime r.1 rest
          (q.1, .service (.fired pTimer s.service.time) :: .timerExpiry i :: q.2)
        else
          ({ r.1 with service.timerQHead := rest },
            [.service (.fired pTimer s.service.time), .timerExpiry i,
              .service (.returned readTime false)])
    else ({ s with service.timerQHead := pTimer :: rest }, [.service (.returned readTime true)])

/-- One input. There is no result for an object that there is not, for an address that is in use, where
`TMR_create` has no timer, and where memory is freed twice. -/
def step (s : TimerObjects) : Input → Option (TimerObjects × List Out)
  | .pass milliseconds => some ({ s with service.time := s.service.time + milliseconds }, [])
  | .startObject i milliseconds address =>
    (s.mm.managableObjects[i]?).bind fun pObject =>
      if pObject.contents.objectType ≠ .timer then some (s, [.result .wrongObjectType])
      -- `TMR_start` has no memory
      else if address = 0 then some (s, [.result .resourceError])
      else if s.Free address then
        let r := s.tmrStart milliseconds false (some i) address
        -- a handle that is there is written over
        some ({ r.1 with handle := Function.update s.handle i address }, r.2 ++ [.result .success])
      else none
  | .stopObject i =>
    (s.mm.managableObjects[i]?).bind fun pObject =>
      if pObject.contents.objectType ≠ .timer then some (s, [.result .wrongObjectType])
      else if s.handle i = 0 then some (s, [.result .success])
      -- the handle is not cleared
      else (s.tmrStop (s.handle i)).map fun r => (r.1, r.2 ++ [.result .success])
  | .start milliseconds emulated address =>
    if s.Free address then some (s.tmrStart milliseconds emulated none address)
    else if address = 0 ∧ emulated = false then some (s, [])
    else none
  | .stop address =>
    (s.service.timerQHead.find? fun t =>
        s.address t.hTimer = address ∧ s.hUserData1 t.hTimer = none).map fun t =>
      ({ s with service.timerQHead := s.service.timerQHead.erase t }, [.service (.stopped t)])
  | .processQueue alloc =>
    some (s.process alloc (currentTime s.service.time) s.service.time s.service.timerQHead)
  | .handlerReturns rc alloc =>
    match s.service.calls with
    | [] => none
    | c :: calls =>
      let s := { s with service.calls := calls }
      if c.pTimer.emulated || rc then
        some (s.process alloc c.timeNow c.readTime s.service.timerQHead)
      else some (s, [.service (.returned c.readTime false)])

end TimerObjects

/-- The timer objects, from when none has been started. -/
def timerObjects : Run.Sys TimerObjects TimerObjects.Input TimerObjects.Out where
  init s := Tmr.timers.init s.service ∧ ∀ i, s.handle i = 0
  step := TimerObjects.step

namespace TimerObjects

/-! ## What a step does -/

variable {s t u : TimerObjects} {x : Input} {o : List Out} {i : ObjectId}

/-- The timers that are pending for an object. -/
def pending (s : TimerObjects) (i : ObjectId) : List Timer :=
  s.service.timerQHead.filter fun t => s.hUserData1 t.hTimer = some i

/-- The timer is on the queue for the object. -/
def Pending (s : TimerObjects) (i : ObjectId) (p : Timer) : Prop :=
  p ∈ s.service.timerQHead ∧ s.hUserData1 p.hTimer = some i

theorem mem_pending {p : Timer} : p ∈ s.pending i ↔ s.Pending i p := by
  unfold pending Pending
  rw [List.mem_filter, decide_eq_true_iff]

theorem pending_eq_nil : s.pending i = [] ↔ ∀ p, ¬s.Pending i p := by
  rw [List.eq_nil_iff_forall_not_mem]
  exact forall_congr' fun p => not_congr mem_pending

/-- The structures are at different addresses, and have been obtained. -/
structure Placed (s : TimerObjects) : Prop where
  distinct : (s.allocated.map fun p => s.address p.hTimer).Nodup
  numbered : ∀ p ∈ s.allocated, p.hTimer < s.service.obtained ∧ s.address p.hTimer ≠ 0
  /-- `TMR_create` is not called for an object. -/
  plain : ∀ p ∈ s.allocated, s.hUserData1 p.hTimer ≠ none → p.emulated = false

/-- No timer is new. -/
structure Less (s t : TimerObjects) : Prop where
  allocated : t.allocated.Subperm s.allocated
  queue : t.service.timerQHead ⊆ s.service.timerQHead
  address : t.address = s.address
  hUserData1 : t.hUserData1 = s.hUserData1
  obtained : t.service.obtained = s.service.obtained
  objects : t.mm.managableObjects = s.mm.managableObjects

theorem Less.refl (s : TimerObjects) : Less s s := ⟨.refl _, fun _ h => h, rfl, rfl, rfl, rfl⟩

theorem Less.trans (h : Less s t) (h' : Less t u) : Less s u where
  allocated := h'.allocated.trans h.allocated
  queue := List.Subset.trans h'.queue h.queue
  address := h'.address.trans h.address
  hUserData1 := h'.hUserData1.trans h.hUserData1
  obtained := h'.obtained.trans h.obtained
  objects := h'.objects.trans h.objects

theorem Less.pending (h : Less s t) {p : Timer} (hp : t.Pending i p) : s.Pending i p := by
  obtain ⟨hq, howner⟩ := hp
  rw [h.hUserData1] at howner
  exact ⟨h.queue hq, howner⟩

/-- Nothing has been started. -/
theorem Placed.init (h : timerObjects.init s) : s.Placed := by
  obtain ⟨⟨hq, hcalls⟩, -⟩ := h
  have hallocated : s.allocated = [] := by
    unfold allocated
    rw [hq, hcalls]
    rfl
  constructor
  · rw [hallocated]
    exact List.nodup_nil
  · rw [hallocated]
    exact nofun
  · rw [hallocated]
    exact nofun

theorem Placed.less (hs : s.Placed) (h : Less s t) : t.Placed := by
  constructor
  · obtain ⟨l, hperm, hsub⟩ := h.allocated
    rw [h.address, ← (hperm.map _).nodup_iff]
    exact hs.distinct.sublist (hsub.map _)
  · intro p hp
    rw [h.address, h.obtained]
    exact hs.numbered p (h.allocated.subset hp)
  · intro p hp
    rw [h.hUserData1]
    exact hs.plain p (h.allocated.subset hp)

/-- What is on the queue is told apart by its address. -/
theorem Placed.eq_of_address (hs : s.Placed) {p q : Timer} (hp : p ∈ s.allocated) (hq : q ∈ s.allocated)
    (h : s.address p.hTimer = s.address q.hTimer) : p = q :=
  List.inj_on_of_nodup_map hs.distinct hp hq h

theorem mem_allocated {p : Timer} (hp : p ∈ s.service.timerQHead) : p ∈ s.allocated :=
  List.mem_append_left _ hp

theorem Placed.nodup (hs : s.Placed) : s.service.timerQHead.Nodup :=
  (List.nodup_append.1 hs.distinct.of_map).1

/-- The timer that `TMR_start` makes. -/
def newTimer (s : TimerObjects) (milliseconds : BitVec 32) (emulated : Bool) : Timer :=
  ⟨s.service.obtained, currentTime s.service.time + milliseconds, emulated, s.service.time, milliseconds⟩

/-- A timer of any owner has been started at a free address. -/
structure Started (s t : TimerObjects) (pNewTimer : Timer) (owner : Option ObjectId) (address : ℕ) :
    Prop where
  queue : t.service.timerQHead.Perm (pNewTimer :: s.service.timerQHead)
  calls : t.service.calls = s.service.calls
  number : pNewTimer.hTimer = s.service.obtained
  plain : owner ≠ none → pNewTimer.emulated = false
  address : t.address = Function.update s.address s.service.obtained address
  hUserData1 : t.hUserData1 = Function.update s.hUserData1 s.service.obtained owner
  obtained : t.service.obtained = s.service.obtained + 1
  objects : t.mm.managableObjects = s.mm.managableObjects

theorem tmrStart_started {milliseconds : BitVec 32} {emulated : Bool} {owner : Option ObjectId}
    {address : ℕ} (hplain : owner ≠ none → emulated = false) :
    Started s (s.tmrStart milliseconds emulated owner address).1
      (s.newTimer milliseconds emulated) owner address :=
  ⟨List.perm_orderedInsert _ _ _, rfl, rfl, hplain, rfl, rfl, rfl, rfl⟩

section Start

variable {p : Timer} {owner : Option ObjectId} {address : ℕ}

theorem Started.mem (h : Started s t p owner address) {q : Timer} :
    q ∈ t.service.timerQHead ↔ q = p ∨ q ∈ s.service.timerQHead := by
  rw [h.queue.mem_iff, List.mem_cons]

theorem Started.allocated (h : Started s t p owner address) : t.allocated.Perm (p :: s.allocated) := by
  unfold TimerObjects.allocated
  rw [h.calls]
  exact h.queue.append_right _

/-- The timers that there were are where they were. -/
theorem Started.old (h : Started s t p owner address) (hs : s.Placed) {q : Timer} (hq : q ∈ s.allocated) :
    t.address q.hTimer = s.address q.hTimer ∧ t.hUserData1 q.hTimer = s.hUserData1 q.hTimer := by
  -- its number is not the new one
  have hne : q.hTimer ≠ s.service.obtained := Nat.ne_of_lt (hs.numbered q hq).1
  rw [h.address, h.hUserData1]
  exact ⟨Function.update_of_ne hne _ _, Function.update_of_ne hne _ _⟩

theorem Started.new (h : Started s t p owner address) :
    t.address p.hTimer = address ∧ t.hUserData1 p.hTimer = owner := by
  rw [h.address, h.hUserData1, h.number]
  exact ⟨Function.update_self .., Function.update_self ..⟩

theorem Placed.started (hs : s.Placed) (hfree : s.Free address) (h : Started s t p owner address) :
    t.Placed := by
  have hsame : ∀ q ∈ s.allocated, t.address q.hTimer = s.address q.hTimer :=
    fun q hq => (h.old hs hq).1
  constructor
  · rw [(h.allocated.map _).nodup_iff, List.map_cons, List.map_congr_left hsame, h.new.1]
    refine List.nodup_cons.2 ⟨fun hmem => ?_, hs.distinct⟩
    obtain ⟨q, hq, heq⟩ := List.mem_map.1 hmem
    -- another structure is at the address
    exact hfree.2 q hq heq
  · intro q hq
    rw [h.obtained]
    rcases List.mem_cons.1 (h.allocated.mem_iff.1 hq) with rfl | hq
    · rw [h.new.1, h.number]
      exact ⟨Nat.lt_succ_self _, hfree.1⟩
    · obtain ⟨hlt, hne⟩ := hs.numbered q hq
      rw [hsame q hq]
      exact ⟨Nat.lt_succ_of_lt hlt, hne⟩
  · intro q hq
    rcases List.mem_cons.1 (h.allocated.mem_iff.1 hq) with rfl | hq
    · rw [h.new.2]
      exact h.plain
    · rw [(h.old hs hq).2]
      exact hs.plain q hq

/-- The timers of an object are those that there were, and the new one if it is for it. -/
theorem Started.pending (h : Started s t p owner address) (hs : s.Placed) {q : Timer} :
    t.Pending i q ↔ q = p ∧ owner = some i ∨ s.Pending i q := by
  unfold Pending
  rw [h.mem]
  constructor
  · rintro ⟨rfl | hq, howner⟩
    · rw [h.new.2] at howner
      exact .inl ⟨rfl, howner⟩
    · rw [(h.old hs (mem_allocated hq)).2] at howner
      exact .inr ⟨hq, howner⟩
  · rintro (⟨rfl, howner⟩ | ⟨hq, howner⟩)
    · exact ⟨.inl rfl, h.new.2.trans howner⟩
    · exact ⟨.inr hq, (h.old hs (mem_allocated hq)).2.trans howner⟩

end Start

/-- Timers have gone, and those of objects by expiring. -/
structure Expires (s t : TimerObjects) (o : List Out) : Prop extends Less s t where
  expired : ∀ i, .timerExpiry i ∈ o →
    t.handle i = 0 ∧ ∃ p, s.Pending i p ∧ p ∉ t.service.timerQHead
  kept : ∀ i, .timerExpiry i ∉ o →
    t.handle i = s.handle i ∧ ∀ p, s.Pending i p → p ∈ t.service.timerQHead

/-- Nothing has happened. -/
theorem Expires.refl (s : TimerObjects) : Expires s s [] where
  toLess := .refl s
  expired _ h := absurd h List.not_mem_nil
  kept _ _ := ⟨rfl, fun _ h => h.1⟩

/-- What `timerExpiry` leaves. -/
theorem timerExpiry_spec {alloc : Bool} :
    (s.timerExpiry i alloc).1.service = s.service ∧ (s.timerExpiry i alloc).1.address = s.address ∧
      (s.timerExpiry i alloc).1.hUserData1 = s.hUserData1 ∧
      (s.timerExpiry i alloc).1.handle = Function.update s.handle i 0 ∧
      (s.timerExpiry i alloc).1.mm.managableObjects = s.mm.managableObjects := by
  unfold timerExpiry
  dsimp only
  split
  · exact ⟨rfl, rfl, rfl, rfl, rfl⟩
  · dsimp only
    rw [generateEvent_state]
    exact ⟨rfl, rfl, rfl, rfl, rfl⟩

/-- What the loop of `TMR_processQueue` has done: the timers `gone` have expired for their objects, and
the handler of `called` is that of another module. -/
structure Processed (s t : TimerObjects) (queue : List Timer) (o : List Out) (gone called : List Timer) :
    Prop where
  queue : queue = gone ++ (called ++ t.service.timerQHead)
  calls : t.service.calls.map (·.pTimer) = called ++ s.service.calls.map (·.pTimer)
  others : ∀ p ∈ called, s.hUserData1 p.hTimer = none
  owned : ∀ p ∈ gone, ∃ i, s.hUserData1 p.hTimer = some i ∧ .timerExpiry i ∈ o
  expired : ∀ i, .timerExpiry i ∈ o → t.handle i = 0 ∧ ∃ p ∈ gone, s.hUserData1 p.hTimer = some i
  kept : ∀ i, .timerExpiry i ∉ o → t.handle i = s.handle i
  address : t.address = s.address
  hUserData1 : t.hUserData1 = s.hUserData1
  obtained : t.service.obtained = s.service.obtained
  objects : t.mm.managableObjects = s.mm.managableObjects

/-- One more timer has expired before the others. -/
theorem Processed.cons {u : TimerObjects} {p : Timer} {queue gone called : List Timer} {b : Bool}
    {first : Out} (hp : s.hUserData1 p.hTimer = some i) (hfirst : ∀ j, first ≠ .timerExpiry j)
    (h : Processed (s.timerExpiry i b).1 u queue o gone called) :
    Processed s u (p :: queue) (first :: .timerExpiry i :: o) (p :: gone) called := by
  obtain ⟨hservice, haddress, howner, hhandle, hobjects⟩ :=
    timerExpiry_spec (s := s) (i := i)
  have hmem : ∀ j, .timerExpiry j ∈ first :: .timerExpiry i :: o ↔ j = i ∨ .timerExpiry j ∈ o := by
    intro j
    rw [List.mem_cons, List.mem_cons, Out.timerExpiry.injEq]
    exact or_iff_right fun heq => hfirst j heq.symm
  constructor
  · rw [h.queue]
    rfl
  · rw [h.calls, hservice]
  · rw [← howner]
    exact h.others
  · intro q hq
    rcases List.mem_cons.1 hq with rfl | hq
    · exact ⟨i, hp, (hmem i).2 (.inl rfl)⟩
    · obtain ⟨j, hj, hout⟩ := h.owned q hq
      rw [howner] at hj
      exact ⟨j, hj, (hmem j).2 (.inr hout)⟩
  · intro j hj
    by_cases hout : .timerExpiry j ∈ o
    · obtain ⟨hzero, q, hq, hqj⟩ := h.expired j hout
      rw [howner] at hqj
      exact ⟨hzero, q, List.mem_cons_of_mem _ hq, hqj⟩
    · obtain rfl := ((hmem j).1 hj).resolve_right hout
      -- the handle that this one has cleared is left alone
      rw [h.kept j hout, hhandle]
      exact ⟨Function.update_self .., p, List.mem_cons_self, hp⟩
  · intro j hj
    rw [hmem, not_or] at hj
    rw [h.kept j hj.2, hhandle]
    exact Function.update_of_ne hj.1 _ _
  · exact h.address.trans haddress
  · exact h.hUserData1.trans howner
  · exact h.obtained.trans (by rw [hservice])
  · exact h.objects.trans hobjects

/-- The loop stops before any timer, with a record that says nothing of objects. -/
theorem Processed.stops {queue : List Timer} {first : Out} (hfirst : ∀ j, first ≠ .timerExpiry j) :
    Processed s { s with service.timerQHead := queue } queue [first] [] [] := by
  have hnone : ∀ j, .timerExpiry j ∉ [first] := fun j hj => hfirst j (List.mem_singleton.1 hj).symm
  exact ⟨rfl, rfl, nofun, nofun, fun j hj => absurd hj (hnone j), fun _ _ => rfl, rfl, rfl, rfl, rfl⟩

/-- **The loop of `TMR_processQueue`**, by the queue that it has before it. -/
theorem process_spec (alloc : ℕ → Bool) (timeNow : BitVec 32) (readTime : ℕ) (queue : List Timer) :
    ∀ s : TimerObjects, ∃ gone called, Processed s (s.process alloc timeNow readTime queue).1 queue
      (s.process alloc timeNow readTime queue).2 gone called := by
  induction queue with
  | nil =>
    intro s
    exact ⟨[], [], .stops nofun⟩
  | cons p rest ih =>
    intro s
    unfold process
    split
    · split
      · rename_i hnone
        -- its handler is called, and the loop goes on when that has returned
        refine ⟨[], [p], rfl, rfl, ?_, nofun, ?_, fun _ _ => rfl, rfl, rfl, rfl, rfl⟩
        · intro q hq
          rw [List.mem_singleton.1 hq]
          exact hnone
        · intro j hj
          exact absurd hj (by simp)
      · rename_i i hi
        dsimp only
        split
        · obtain ⟨gone, called, h⟩ := ih (s.timerExpiry i (alloc p.hTimer)).1
          exact ⟨p :: gone, called, h.cons hi nofun⟩
        · -- the event has no memory, and the loop ends with the timer off the queue
          refine ⟨[p], [], Processed.cons (b := alloc p.hTimer) hi nofun ?_⟩
          exact .stops nofun
    · exact ⟨[], [], .stops nofun⟩

/-- **The queue is processed**: objects expire that had a timer on it, and no others. -/
theorem process_expires (hs : s.Placed) (alloc : ℕ → Bool) (timeNow : BitVec 32) (readTime : ℕ) :
    Expires s (s.process alloc timeNow readTime s.service.timerQHead).1
      (s.process alloc timeNow readTime s.service.timerQHead).2 := by
  obtain ⟨gone, called, h⟩ := process_spec alloc timeNow readTime s.service.timerQHead s
  generalize s.process alloc timeNow readTime s.service.timerQHead = r at h ⊢
  have hnodup := hs.nodup
  have hqueue := h.queue
  have hrest : r.1.service.timerQHead ⊆ s.service.timerQHead := by
    rw [hqueue]
    exact fun p hp => List.mem_append_right _ (List.mem_append_right _ hp)
  refine ⟨⟨?_, hrest, h.address, h.hUserData1, h.obtained, h.objects⟩, ?_, ?_⟩
  · unfold allocated
    rw [h.calls, hqueue, List.append_assoc, List.append_assoc]
    have hperm := (List.perm_append_comm_assoc r.1.service.timerQHead called
      (s.service.calls.map (·.pTimer))).subperm
    exact hperm.trans (List.sublist_append_right _ _).subperm
  · intro i hi
    obtain ⟨hzero, p, hp, hpi⟩ := h.expired i hi
    refine ⟨hzero, p, ⟨?_, hpi⟩, fun hmem => ?_⟩
    · rw [hqueue]
      exact List.mem_append_left _ hp
    · -- it would be on the queue twice
      rw [hqueue] at hnodup
      exact (List.nodup_append.1 hnodup).2.2 p hp p (List.mem_append_right _ hmem) rfl
  · intro i hi
    refine ⟨h.kept i hi, fun p hp => ?_⟩
    obtain ⟨hmem, howner⟩ := hp
    rw [hqueue] at hmem
    rcases List.mem_append.1 hmem with hgone | hmem
    · obtain ⟨j, hj, hout⟩ := h.owned p hgone
      obtain rfl := Option.some.inj (hj.symm.trans howner)
      exact absurd hout hi
    · rcases List.mem_append.1 hmem with hcalled | hmem
      · rw [h.others p hcalled] at howner
        cases howner
      · exact hmem

/-- A timer has been stopped. -/
theorem erase_less (p : Timer) :
    Less s { s with service.timerQHead := s.service.timerQHead.erase p } := by
  refine ⟨?_, fun q hq => List.mem_of_mem_erase hq, rfl, rfl, rfl, rfl⟩
  exact (List.erase_sublist.append_right _).subperm

/-- The object that a call is about. -/
def Input.object : Input → Option ObjectId
  | startObject i _ _ | stopObject i => some i
  | _ => none

theorem Input.cases_object (x : Input) :
    (∃ i milliseconds address, x = .startObject i milliseconds address) ∨ (∃ i, x = .stopObject i) ∨
      x.object = none := by
  cases x with
  | startObject i milliseconds address => exact .inl ⟨i, milliseconds, address, rfl⟩
  | stopObject i => exact .inr (.inl ⟨i, rfl⟩)
  | pass _ | start _ _ _ | stop _ | processQueue _ | handlerReturns _ _ => exact .inr (.inr rfl)

theorem step_startObject {milliseconds : BitVec 32} {address : ℕ}
    (h : s.step (.startObject i milliseconds address) = some (t, o)) :
    (∃ pObject p, s.mm.managableObjects[i]? = some pObject ∧ pObject.contents.objectType = .timer ∧
        s.Free address ∧ Started s t p (some i) address ∧
        t.handle = Function.update s.handle i address ∧
        o = [.service (.started p), .result .success]) ∨
      t = s ∧ ∃ rc, rc ≠ .success ∧ o = [.result rc] ∧ (address ≠ 0 →
        ∃ pObject, s.mm.managableObjects[i]? = some pObject ∧ pObject.contents.objectType ≠ .timer) := by
  obtain ⟨pObject, hobject, h⟩ := Option.bind_eq_some_iff.1 h
  split at h
  · rename_i htype
    cases h
    exact .inr ⟨rfl, .wrongObjectType, nofun, rfl, fun _ => ⟨pObject, hobject, htype⟩⟩
  rename_i htype
  split at h
  · rename_i hzero
    cases h
    exact .inr ⟨rfl, .resourceError, nofun, rfl, fun hne => absurd hzero hne⟩
  split at h
  · rename_i hfree
    cases h
    have hnew : Started s (s.tmrStart milliseconds false (some i) address).1
        (s.newTimer milliseconds false) (some i) address := tmrStart_started fun _ => rfl
    exact .inl ⟨pObject, _, hobject, not_not.1 htype, hfree,
      ⟨hnew.queue, hnew.calls, hnew.number, hnew.plain, hnew.address, hnew.hUserData1, hnew.obtained,
        hnew.objects⟩,
      rfl, rfl⟩
  · cases h

theorem step_stopObject (h : s.step (.stopObject i) = some (t, o)) :
    (∃ p ∈ s.service.timerQHead, s.handle i ≠ 0 ∧ s.address p.hTimer = s.handle i ∧
        t = { s with service.timerQHead := s.service.timerQHead.erase p } ∧
        o = [.service (.stopped p), .result .success]) ∨
      t = s ∧ ∃ rc, o = [.result rc] ∧ (s.handle i ≠ 0 →
        rc ≠ .success ∧
        ∃ pObject, s.mm.managableObjects[i]? = some pObject ∧ pObject.contents.objectType ≠ .timer) := by
  obtain ⟨pObject, hobject, h⟩ := Option.bind_eq_some_iff.1 h
  split at h
  · rename_i htype
    cases h
    exact .inr ⟨rfl, .wrongObjectType, rfl, fun _ => ⟨nofun, pObject, hobject, htype⟩⟩
  split at h
  · rename_i hzero
    cases h
    exact .inr ⟨rfl, .success, rfl, fun hne => absurd hzero hne⟩
  · rename_i hne
    obtain ⟨r, hr, heq⟩ := Option.map_eq_some_iff.1 h
    obtain ⟨p, hfind, rfl⟩ := Option.map_eq_some_iff.1 hr
    cases heq
    have haddress := List.find?_some hfind
    exact .inl ⟨p, List.mem_of_find?_eq_some hfind, hne, of_decide_eq_true haddress, rfl, rfl⟩

/-- Another module's timer has been stopped. -/
theorem expires_stop {p : Timer} (hp : s.hUserData1 p.hTimer = none) :
    Expires s { s with service.timerQHead := s.service.timerQHead.erase p } [.service (.stopped p)] where
  toLess := erase_less p
  expired j hj := by simp at hj
  kept j _ := by
    refine ⟨rfl, fun q hq => ?_⟩
    have hne : q ≠ p := by
      rintro rfl
      have howner := hq.2
      rw [hp] at howner
      cases howner
    exact (List.mem_erase_of_ne hne).2 hq.1

/-- A call of `TMR_processQueue` is left. -/
theorem calls_less {c : Tmr.Processing} {calls : List Tmr.Processing} (hc : s.service.calls = c :: calls) :
    Less s { s with service.calls := calls } := by
  refine ⟨?_, fun _ h => h, rfl, rfl, rfl, rfl⟩
  unfold allocated
  rw [hc]
  exact ((List.sublist_cons_self _ _).append_left _).subperm

theorem Expires.trans (h : Less s t) (hq : t.service.timerQHead = s.service.timerQHead)
    (hhandle : t.handle = s.handle) (h' : Expires t u o) : Expires s u o where
  toLess := h.trans h'.toLess
  expired j hj := by
    obtain ⟨hzero, p, hp, hgone⟩ := h'.expired j hj
    exact ⟨hzero, p, h.pending hp, hgone⟩
  kept j hj := by
    obtain ⟨hsame, hstay⟩ := h'.kept j hj
    rw [hsame, hhandle]
    refine ⟨rfl, fun p hp => hstay p ⟨?_, ?_⟩⟩
    · rw [hq]
      exact hp.1
    · rw [h.hUserData1]
      exact hp.2

/-- **Anything but a call about an object**: objects expire that had a timer, or another module has a new
one. -/
theorem step_other (hs : s.Placed) (hx : x.object = none) (h : s.step x = some (t, o)) :
    Expires s t o ∨ ∃ p address, s.Free address ∧ Started s t p none address ∧ t.handle = s.handle ∧
      ∀ j, .timerExpiry j ∉ o := by
  cases x with
  | startObject i milliseconds address => cases hx
  | stopObject i => cases hx
  | pass milliseconds =>
    cases h
    exact .inl { Expires.refl s with }
  | start milliseconds emulated address =>
    unfold step at h
    dsimp only at h
    split at h
    · rename_i hfree
      cases h
      refine .inr ⟨_, address, hfree, tmrStart_started nofun, rfl, fun j hj => ?_⟩
      simp [Tmr.Timers.start] at hj
    split at h
    · cases h
      exact .inl (.refl s)
    · cases h
  | stop address =>
    obtain ⟨p, hfind, heq⟩ := Option.map_eq_some_iff.1 h
    cases heq
    have hp := List.find?_some hfind
    exact .inl (expires_stop (of_decide_eq_true hp).2)
  | processQueue alloc =>
    have he := process_expires hs alloc (currentTime s.service.time) s.service.time
    rw [Option.some.inj h] at he
    exact .inl he
  | handlerReturns rc alloc =>
    unfold step at h
    dsimp only at h
    split at h
    · cases h
    rename_i c calls hc
    have hless := calls_less hc
    split at h
    · have he := process_expires (hs.less hless) alloc c.timeNow c.readTime
      rw [Option.some.inj h] at he
      exact .inl (.trans hless rfl rfl he)
    · cases h
      refine .inl (.trans hless rfl rfl ?_)
      refine ⟨.refl _, fun j hj => ?_, fun _ _ => ⟨rfl, fun _ hp => hp.1⟩⟩
      simp at hj

theorem Placed.step (hs : s.Placed) (h : s.step x = some (t, o)) : t.Placed := by
  rcases x.cases_object with ⟨i, milliseconds, address, rfl⟩ | ⟨i, rfl⟩ | hx
  · rcases step_startObject h with ⟨pObject, p, -, -, hfree, hnew, -⟩ | ⟨rfl, -⟩
    · exact hs.started hfree hnew
    · exact hs
  · rcases step_stopObject h with ⟨p, -, -, -, rfl, -⟩ | ⟨rfl, -⟩
    · exact hs.less (erase_less p)
    · exact hs
  · rcases step_other hs hx h with he | ⟨p, address, hfree, hnew, -⟩
    · exact hs.less he.toLess
    · exact hs.started hfree hnew

/-! ## The timer service underneath -/

/-- What the timer service does in a record. -/
def services (o : List Out) : List Tmr.Out :=
  o.filterMap fun
    | .service o => some o
    | _ => none

variable {ok : Tmr.Timers → Tmr.Input → Prop}

/-- A condition of the timer service that is about the clock only. -/
structure OfClock (ok : Tmr.Timers → Tmr.Input → Prop) : Prop where
  stop : ∀ s hTimer, ok s (.stop hTimer)
  processQueue : ∀ s, ok s .processQueue
  handlerReturns : ∀ s rc, ok s (.handlerReturns rc)

/-- The condition is met underneath, by what starts a timer and by time that goes by. -/
def Meets (ok : Tmr.Timers → Tmr.Input → Prop) (s : TimerObjects) : Input → Prop
  | .pass milliseconds => ok s.service (.pass milliseconds)
  | .startObject _ milliseconds address => address ≠ 0 → ok s.service (.start milliseconds true)
  | .start milliseconds emulated address =>
    address ≠ 0 → ok s.service (if emulated then .create milliseconds true else .start milliseconds true)
  | _ => True

/-- `TMR_start` is that of the timer service. -/
theorem tmrStart_runs (milliseconds : BitVec 32) (emulated : Bool) (owner : Option ObjectId)
    (address : ℕ)
    (hok : ok s.service (if emulated then .create milliseconds true else .start milliseconds true)) :
    Run.Exec Tmr.timers ok s.service
      (services (s.tmrStart milliseconds emulated owner address).2)
      (s.tmrStart milliseconds emulated owner address).1.service := by
  cases emulated with
  | false => exact .single hok rfl
  | true => exact .single hok rfl

/-- So is `TMR_stop`: a timer is found by its number. -/
theorem erase_runs {p : Timer} (hok : OfClock ok) (hs : s.Placed) (hp : p ∈ s.service.timerQHead) :
    Run.Exec Tmr.timers ok s.service [.stopped p]
      { s.service with timerQHead := s.service.timerQHead.erase p } := by
  refine .single (hok.stop _ p.hTimer) ?_
  have hfind : (s.service.timerQHead.find? fun q => q.hTimer = p.hTimer) = some p := by
    match hq : s.service.timerQHead.find? fun q => q.hTimer = p.hTimer with
    | none =>
      have hnot := List.find?_eq_none.1 hq p hp
      simp at hnot
    | some q =>
      have hnumber : q.hTimer = p.hTimer := of_decide_eq_true (List.find?_some hq :)
      have hmem := mem_allocated (List.mem_of_find?_eq_some hq)
      -- timers with one number have one address
      rw [hs.eq_of_address hmem (mem_allocated hp) (by rw [hnumber])] at hq
      exact hq
  unfold Tmr.timers Tmr.Timers.step
  dsimp only
  rw [hfind]
  rfl

/-- **The loop is that of the timer service**, in which the handler of each object's timer returns at
once. -/
theorem process_runs (hok : OfClock ok) (alloc : ℕ → Bool) (timeNow : BitVec 32) (readTime : ℕ)
    (queue : List Timer) :
    ∀ s : TimerObjects, (∀ p ∈ queue, s.hUserData1 p.hTimer ≠ none → p.emulated = false) →
      ∃ r, Tmr.Timers.process { s.service with timerQHead := queue } timeNow readTime = r ∧
        ∃ out, services (s.process alloc timeNow readTime queue).2 = r.2 ++ out ∧
          Run.Exec Tmr.timers ok r.1 out (s.process alloc timeNow readTime queue).1.service := by
  induction queue with
  | nil =>
    intro s _
    exact ⟨_, rfl, [], rfl, .refl⟩
  | cons p rest ih =>
    intro s hplain
    unfold process Tmr.Timers.process
    dsimp only
    split
    · split
      · exact ⟨_, rfl, [], rfl, .refl⟩
      · rename_i i hi
        have hservice : (s.timerExpiry i (alloc p.hTimer)).1.service = s.service :=
          timerExpiry_spec.1
        have howner : (s.timerExpiry i (alloc p.hTimer)).1.hUserData1 = s.hUserData1 :=
          timerExpiry_spec.2.2.1
        have hp : p.emulated = false := hplain p List.mem_cons_self (by rw [hi]; exact nofun)
        refine ⟨_, rfl, ?_⟩
        dsimp only
        split
        · obtain ⟨r, hr, out, hout, hx⟩ := ih (s.timerExpiry i (alloc p.hTimer)).1 fun q hq => by
            rw [howner]
            exact hplain q (List.mem_cons_of_mem _ hq)
          rw [hservice] at hr
          refine ⟨r.2 ++ out, ?_, Run.Exec.trans (.single (hok.handlerReturns _ true) ?_) hx⟩
          · rw [← hout]
            rfl
          · unfold Tmr.timers Tmr.Timers.step
            simp only [Bool.or_true, if_true]
            exact congrArg some hr
        · refine ⟨[.returned readTime false], rfl, .single (hok.handlerReturns _ false) ?_⟩
          unfold Tmr.timers Tmr.Timers.step
          simp only [hp, Bool.or_false, Bool.false_eq_true, if_false, hservice]
    · exact ⟨_, rfl, [], rfl, .refl⟩

theorem services_append (o o' : List Out) : services (o ++ o') = services o ++ services o' :=
  List.filterMap_append

/-- **Each step is one of the timer service, or several.** -/
theorem step_runs (hok : OfClock ok) (hs : s.Placed) (hx : s.Meets ok x) (h : s.step x = some (t, o)) :
    Run.Exec Tmr.timers ok s.service (services o) t.service := by
  cases x with
  | pass milliseconds =>
    cases h
    exact .single hx rfl
  | startObject i milliseconds address =>
    obtain ⟨pObject, -, h⟩ := Option.bind_eq_some_iff.1 h
    split at h
    · cases h
      exact .refl
    split at h
    · cases h
      exact .refl
    rename_i hne
    split at h
    · cases h
      exact tmrStart_runs milliseconds false (some i) address (hx hne)
    · cases h
  | stopObject i =>
    rcases step_stopObject h with ⟨p, hp, -, -, rfl, rfl⟩ | ⟨rfl, rc, rfl, -⟩
    · exact erase_runs hok hs hp
    · exact .refl
  | start milliseconds emulated address =>
    unfold step at h
    dsimp only at h
    split at h
    · rename_i hfree
      cases h
      exact tmrStart_runs milliseconds emulated none address (hx hfree.1)
    split at h
    · cases h
      exact .refl
    · cases h
  | stop address =>
    obtain ⟨p, hfind, heq⟩ := Option.map_eq_some_iff.1 h
    cases heq
    exact erase_runs hok hs (List.mem_of_find?_eq_some hfind)
  | processQueue alloc =>
    obtain ⟨r, hr, out, hout, hrun⟩ := process_runs hok alloc (currentTime s.service.time) s.service.time
      s.service.timerQHead s fun p hp => hs.plain p (mem_allocated hp)
    rw [Option.some.inj h] at hout hrun
    have hstep : Tmr.timers.step s.service .processQueue = some (r.1, r.2) := congrArg some hr
    rw [hout]
    exact .trans (.single (hok.processQueue _) hstep) hrun
  | handlerReturns rc alloc =>
    unfold step at h
    dsimp only at h
    split at h
    · cases h
    rename_i c calls hc
    have hplain := (hs.less (calls_less hc)).plain
    split at h
    · rename_i hrc
      obtain ⟨r, hr, out, hout, hrun⟩ := process_runs hok alloc c.timeNow c.readTime
        s.service.timerQHead { s with service.calls := calls } fun p hp => hplain p (mem_allocated hp)
      rw [Option.some.inj h] at hout hrun
      rw [hout]
      refine .trans (.single (hok.handlerReturns _ rc) ?_) hrun
      unfold Tmr.timers Tmr.Timers.step
      dsimp only
      rw [hc]
      dsimp only
      rw [if_pos hrc]
      exact congrArg some hr
    · rename_i hrc
      cases h
      refine .single (hok.handlerReturns _ rc) ?_
      unfold Tmr.timers Tmr.Timers.step
      dsimp only
      rw [hc]
      dsimp only
      rw [if_neg hrc]
      rfl

/-- **The timers underneath are those of the timer service.** -/
theorem timerObjects_runs {h : List Out} (hr : Run.Reach timerObjects Run.any h s) :
    Run.Reach Tmr.timers Run.any (services h) s.service := by
  have hboth : s.Placed ∧ Run.Reach Tmr.timers Run.any (services h) s.service := by
    refine Run.Reach.invariant_hist (S := timerObjects)
      (P := fun s h => s.Placed ∧ Run.Reach Tmr.timers Run.any (services h) s.service)
      (fun s hi => ⟨.init hi, .init hi.1⟩) (fun s x t o h hs _ hstep => ?_) hr
    obtain ⟨hs, hreach⟩ := hs
    have hok : OfClock Run.any := ⟨fun _ _ => trivial, fun _ => trivial, fun _ _ => trivial⟩
    have hmeets : s.Meets Run.any x := by
      cases x <;> first | trivial | exact fun _ => trivial
    rw [services_append]
    exact ⟨hs.step hstep, hreach.trans (step_runs hok hs hmeets hstep)⟩
  exact hboth.2

end TimerObjects

end Mm
