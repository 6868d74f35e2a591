import Emsd.Mts.Performer
import Emsd.Mtsua.Gathered

/-!
# The segments of a submission

* `segments_collected`: **no segment is lost** and none is stored twice, in every run in which the
  machine is idle when the scheduler runs the INVOKE of a new segment (`Orderly`).
* `segment_dropped`: two segments, and the second one is there before the first one is confirmed.

An INVOKE is unread until the scheduler runs it (`Unread`); from then on the segments are collected
(`Collecting`).
-/

namespace Mts

open Ocp Mtsua

variable {n : Nat} {hContents : Buf} {h : List PerformOut} {s t : Performing} {m : Performer}
  {env : PerformEnv} {o : List PerformOut} {evt : FsmEvent} {events : List FsmEvent}

/-! ## What is seen -/

/-- The segments that have been stored, in order. -/
def stores (h : List PerformOut) : List (Nat × Buf) :=
  h.filterMap fun
    | .stored thisSeg hContents => some (thisSeg, hContents)
    | _ => none

/-- The segments that have arrived, the first one in front. -/
def arrivals (hContents : Buf) (h : List PerformOut) : List (Nat × Buf) :=
  (0, hContents) :: h.filterMap fun
    | .arrived thisSeg hContents => some (thisSeg, hContents)
    | _ => none

/-- The segment in `hOperationData`. -/
def Performer.segment (m : Performer) : Option (Nat × Buf) :=
  match m.hOperationData with
  | .submit ⟨some info, _, hContents⟩ => some (info.number, hContents)
  | _ => none

/-- A segment that the scheduler has still to run the machine for. -/
def Waits (s : Performing) (m : Performer) (p : Nat × Buf) : Prop :=
  .invokeIndication ∈ s.events ∧ m.segment = some p

/-- **No segment is lost**, none is stored twice, and the message is complete when all of its
segments have arrived. -/
structure Lossless (n : Nat) (hContents : Buf) (h : List PerformOut) (s : Performing)
    (m : Performer) : Prop where
  once : ((stores h).map Prod.fst).Nodup
  arrived : ∀ p ∈ stores h, p ∈ arrivals hContents h
  kept : 1 < n → ∀ p ∈ stores h, m.receiver.hSegmentBuf p.1 = .copy p.2.copy
  taken : ∀ p ∈ arrivals hContents h, p.1 ∈ (stores h).map Prod.fst ∨ Waits s m p
  complete : m.receiver.bComplete = true ↔ 0 < n ∧ ∀ k < n, k ∈ (stores h).map Prod.fst

/-! ## The condition -/

/-- Segment `k` is there already. -/
def Performer.has (m : Performer) (k : Nat) : Bool :=
  m.receiver.bComplete || m.receiver.receivedSegmentMask.getLsbD k

/-- The segment in `hOperationData` is another one that is there already. -/
def Performer.had (m : Performer) : Bool :=
  m.receiver.bComplete ||
    match m.hOperationData with
    | .submit ⟨some ⟨_, .other thisSeg⟩, _, _⟩ => m.has thisSeg
    | _ => false

/-- The predicate can take the segment: the first one is not there yet, the calls that it makes
succeed, and the masks are wide enough. -/
def takes (env : PerformEnv) (m : Performer) : Bool :=
  env.profile && m.performer3Way &&
    match m.hOperationData with
    | .submit ⟨some ⟨_, .first numSegments⟩, _, _⟩ => !m.has 0 && (numSegments == 1 ||
      decide (1 < numSegments ∧ numSegments < 32) && env.copy && env.addUserFree && env.timer)
    | .submit ⟨some ⟨_, .other _⟩, _, _⟩ => env.copy && env.addUserFree
    | _ => false

/-- The event makes the machine look at the segment in `hOperationData`: in the idle state each one
does. -/
def looks (s : Performing) (evt : FsmEvent) : Prop :=
  evt = .invokeIndication ∨ s.curState = .s1Idle

instance : Decidable (looks s evt) := by
  unfold looks
  infer_instance

/-- The segments that arrive are those of the operation, none is put in the place of one that waits,
and the machine is idle when it looks at a new one. -/
def Orderly (n : Nat) (s : Performing) : PerformInput → Prop
  | .invokeIndication thisSeg _ _ _ _ _ memGet => 0 < thisSeg ∧ thisSeg < n ∧
    ∀ m ∈ s.op, (.invokeIndication ∈ s.events → m.had = true) ∧
      (memGet = true ∨ m.has thisSeg = true)
  | .schRun env => ∀ m ∈ s.op, ∀ evt ∈ s.events.head?, looks s evt →
    m.had = true ∨ s.curState = .s1Idle ∧ takes env m = true
  | _ => True

instance : Decidable (Orderly n s i) := by
  cases i <;> unfold Orderly <;> infer_instance

/-! ## The invariant -/

/-- The machine has not run yet. -/
structure Unread (n : Nat) (hContents : Buf) (h : List PerformOut) (s : Performing)
    (m : Performer) : Prop where
  idle : s.curState = .s1Idle
  events : ∃ es, s.events = .invokeIndication :: es
  fresh : m.receiver = {}
  value : m.operationValue = .submission
  first : ∃ sequenceId ipm95,
    m.hOperationData = .submit ⟨some ⟨sequenceId, .first n⟩, ipm95, hContents⟩
  stores : stores h = []
  arrivals : arrivals hContents h = [(0, hContents)]

/-- The machine has run for the first segment. -/
structure Collecting (n : Nat) (hContents : Buf) (h : List PerformOut) (s : Performing)
    (m : Performer) : Prop where
  once : ((stores h).map Prod.fst).Nodup
  arrived : ∀ p ∈ stores h, p ∈ arrivals hContents h
  bound : ∀ p ∈ arrivals hContents h, p.1 < n
  first : 0 ∈ (stores h).map Prod.fst
  several : 1 < n → n < 32 ∧ Gathered n (stores h) m.receiver
  complete : m.receiver.bComplete = true ↔ ∀ k < n, k ∈ (stores h).map Prod.fst
  taken : ∀ p ∈ arrivals hContents h, p.1 ∈ (stores h).map Prod.fst ∨ Waits s m p
  current : ∀ p, m.segment = some p → p ∈ arrivals hContents h
  idle : s.curState = .s1Idle → m.receiver.bComplete = false
  verify : s.curState = .s3SubmitVerifyResponseWait → m.receiver.bComplete = true
  value : s.curState ≠ .s3SubmitVerifyResponseWait → m.operationValue = .submission

/-- What holds of an operation that has not been freed. -/
def CollectOk (n : Nat) (hContents : Buf) (s : Performing) (h : List PerformOut) : Prop :=
  ∀ m, s.op = some m → Unread n hContents h s m ∨ Collecting n hContents h s m

/-! ## Lemmas about what is seen -/

theorem stores_append (h o : List PerformOut) : stores (h ++ o) = stores h ++ stores o :=
  List.filterMap_append

theorem arrivals_append (hContents : Buf) (h o : List PerformOut) :
    arrivals hContents (h ++ o) = arrivals hContents h ++ (arrivals hContents o).tail := by
  unfold arrivals
  rw [List.filterMap_append]
  rfl

/-- Outputs that are neither. -/
structure Silent (o : List PerformOut) : Prop where
  stores : stores o = []
  arrivals : ∀ hContents, (arrivals hContents o).tail = []

theorem Silent.nil : Silent [] := ⟨rfl, fun _ => rfl⟩

theorem Silent.stores_eq (hq : Silent o) (h : List PerformOut) :
    Mts.stores (h ++ o) = Mts.stores h := by
  rw [stores_append, hq.stores, List.append_nil]

theorem Silent.arrivals_eq (hq : Silent o) (hContents : Buf) (h : List PerformOut) :
    Mts.arrivals hContents (h ++ o) = Mts.arrivals hContents h := by
  rw [arrivals_append, hq.arrivals, List.append_nil]

/-! ## Segments that are there -/

theorem Collecting.stores_bound (hc : Collecting n hContents h s m) :
    ∀ p ∈ Mts.stores h, p.1 < n := fun p hp => hc.bound p (hc.arrived p hp)

theorem Collecting.pos (hc : Collecting n hContents h s m) : 0 < n := by
  obtain ⟨p, hp, hfst⟩ := List.mem_map.1 hc.first
  have hlt := hc.stores_bound p hp
  omega

theorem Collecting.has_iff (hc : Collecting n hContents h s m) {k : Nat} (hk : k < n) :
    m.has k = true ↔ k ∈ (Mts.stores h).map Prod.fst := by
  unfold Performer.has
  rw [Bool.or_eq_true, hc.complete]
  constructor
  · rintro (hall | hbit)
    · exact hall k hk
    · rcases Nat.lt_or_ge 1 n with hn | hn
      · rw [(hc.several hn).2.stored] at hbit
        exact of_decide_eq_true hbit
      · obtain rfl : k = 0 := by omega
        exact hc.first
  · intro hmem
    rcases Nat.lt_or_ge 1 n with hn | hn
    · right
      rw [(hc.several hn).2.stored]
      exact decide_eq_true hmem
    · left
      intro i hi
      obtain rfl : i = 0 := by omega
      exact hc.first

/-- A segment that waits, and is there already. -/
theorem Collecting.waits_had (hc : Collecting n hContents h s m) (hhad : m.had = true)
    {p : Nat × Buf} (hw : Waits s m p) (hp : p.1 < n) : p.1 ∈ (Mts.stores h).map Prod.fst := by
  unfold Performer.had at hhad
  rw [Bool.or_eq_true] at hhad
  rcases hhad with hcomplete | hhas
  · exact hc.complete.1 hcomplete p.1 hp
  · split at hhas
    · rename_i sequenceId thisSeg ipm95 c hdata
      have hseg : m.segment = some (thisSeg, c) := by
        unfold Performer.segment
        rw [hdata]
        rfl
      obtain rfl : (thisSeg, c) = p := Option.some.inj (hseg.symm.trans hw.2)
      exact (hc.has_iff hp).1 hhas
    · cases hhas

/-! ## Steps that store nothing -/

/-- The segments stay, and what waited still does. -/
theorem Collecting.next {m' : Performer} (hc : Collecting n hContents h s m) (hq : Silent o)
    (hr : m'.receiver = m.receiver)
    (hwaits : ∀ p, Waits s m p → p.1 < n → p.1 ∈ (Mts.stores h).map Prod.fst ∨ Waits t m' p)
    (hcurrent : ∀ p, m'.segment = some p → m.segment = some p)
    (hidle : t.curState = .s1Idle → m.receiver.bComplete = false)
    (hverify : t.curState = .s3SubmitVerifyResponseWait → m.receiver.bComplete = true)
    (hvalue : t.curState ≠ .s3SubmitVerifyResponseWait → m'.operationValue = .submission) :
    Collecting n hContents (h ++ o) t m' := by
  have hs := hq.stores_eq h
  have ha := hq.arrivals_eq hContents h
  constructor
  · rw [hs]
    exact hc.once
  · rw [hs, ha]
    exact hc.arrived
  · rw [ha]
    exact hc.bound
  · rw [hs]
    exact hc.first
  · rw [hs, hr]
    exact hc.several
  · rw [hs, hr]
    exact hc.complete
  · rw [hs, ha]
    intro p hp
    rcases hc.taken p hp with hin | hw
    · exact .inl hin
    · exact hwaits p hw (hc.bound p hp)
  · rw [ha]
    intro p hp
    exact hc.current p (hcurrent p hp)
  · rw [hr]
    exact hidle
  · rw [hr]
    exact hverify
  · exact hvalue

/-- Events are put into the queue. -/
theorem Unread.queued (hu : Unread n hContents h s m) (l : List FsmEvent) :
    Unread n hContents h { s with events := s.events ++ l } m where
  idle := hu.idle
  events := by
    obtain ⟨es, he⟩ := hu.events
    refine ⟨es ++ l, ?_⟩
    show s.events ++ l = _
    rw [he]
    rfl
  fresh := hu.fresh
  value := hu.value
  first := hu.first
  stores := hu.stores
  arrivals := hu.arrivals

theorem Collecting.queued (hc : Collecting n hContents h s m) (l : List FsmEvent) :
    Collecting n hContents h { s with events := s.events ++ l } m := by
  have hnext : Collecting n hContents (h ++ []) { s with events := s.events ++ l } m :=
    hc.next .nil rfl (fun p hw _ => .inr ⟨List.mem_append_left _ hw.1, hw.2⟩)
      (fun _ => id) hc.idle hc.verify hc.value
  rwa [List.append_nil] at hnext

theorem CollectOk.generateEvent (hs : CollectOk n hContents s h) (evt : FsmEvent)
    (memGet : Bool) : CollectOk n hContents (s.generateEvent evt memGet) h := by
  intro m hm
  rcases hs m hm with hu | hc
  · exact .inl (hu.queued _)
  · exact .inr (hc.queued _)

/-- An indication or confirm of ESROS. -/
theorem CollectOk.indication (hs : CollectOk n hContents s h) (evt : FsmEvent)
    (invokeId : InvokeId) (memGet : Bool) :
    CollectOk n hContents (s.indication invokeId evt memGet) h := by
  unfold Performing.indication
  split
  · split
    · exact hs.generateEvent evt memGet
    · exact hs
  · exact hs

/-- The result of a SUBMIT.verify. -/
theorem CollectOk.resultIndication (hs : CollectOk n hContents s h) (invokeId : InvokeId)
    (sendMessage : Option Bool) (memGet : Bool) :
    CollectOk n hContents (s.resultIndication invokeId sendMessage memGet) h := by
  unfold Performing.resultIndication
  split
  · rename_i m b hop
    split
    · rename_i hmatch
      refine CollectOk.generateEvent ?_ .resultIndication memGet
      intro m' hm'
      obtain rfl := Option.some.inj hm'
      rcases hs m hop with hu | hc
      · exact absurd (hu.value.symm.trans hmatch.2) (by decide)
      · -- only a complete message is asked for
        have hst : s.curState = .s3SubmitVerifyResponseWait := by
          by_contra hne
          exact absurd ((hc.value hne).symm.trans hmatch.2) (by decide)
        have hnext : Collecting n hContents (h ++ [])
            { s with op := some { m with hOperationData := .verified b } }
            { m with hOperationData := .verified b } :=
          hc.next .nil rfl (fun p _ hp => .inl (hc.complete.1 (hc.verify hst) p.1 hp))
            (fun p hp => by cases hp) hc.idle hc.verify fun hne => absurd hst hne
        rw [List.append_nil] at hnext
        exact .inr hnext
    · exact hs
  · exact hs

/-! ## A segment arrives -/

theorem stores_arrived (k : Nat) (c : Buf) : Mts.stores (h ++ [.arrived k c]) = Mts.stores h := by
  rw [stores_append]
  exact List.append_nil _

theorem arrivals_arrived (hContents : Buf) (h : List PerformOut) (k : Nat) (c : Buf) :
    Mts.arrivals hContents (h ++ [.arrived k c]) = Mts.arrivals hContents h ++ [(k, c)] :=
  arrivals_append hContents h _

/-- **A segment of the operation arrives** and waits, or is there already. -/
theorem Collecting.arrives {k : Nat} {c : Buf} {arg : SubmitArgument} {sequenceId : Nat}
    {ipm95 performer3Way memGet : Bool} {invokeId : InvokeId} (hc : Collecting n hContents h s m)
    (harg : arg = ⟨some ⟨sequenceId, .other k⟩, ipm95, c⟩) (hk : k < n)
    (hwait : .invokeIndication ∈ s.events → m.had = true)
    (hqueued : memGet = true ∨ m.has k = true) (hop : t.op = some { m with
      operationValue := .submission, invokeId, performer3Way, hOperationData := .submit arg })
    (hcur : t.curState = s.curState)
    (hevents : t.events = s.events ++ if memGet then [.invokeIndication] else []) :
    Collecting n hContents (h ++ [.arrived k c]) t { m with
      operationValue := .submission, invokeId, performer3Way, hOperationData := .submit arg } := by
  subst harg
  have hs := stores_arrived (h := h) k c
  have ha := arrivals_arrived hContents h k c
  constructor
  · rw [hs]
    exact hc.once
  · rw [hs, ha]
    intro p hp
    exact List.mem_append_left _ (hc.arrived p hp)
  · rw [ha]
    intro p hp
    rcases List.mem_append.1 hp with hp | hp
    · exact hc.bound p hp
    · obtain rfl := List.mem_singleton.1 hp
      exact hk
  · rw [hs]
    exact hc.first
  · rw [hs]
    exact hc.several
  · rw [hs]
    exact hc.complete
  · rw [hs, ha]
    intro p hp
    rcases List.mem_append.1 hp with hp | hp
    · -- what waited is there
      rcases hc.taken p hp with hin | hw
      · exact .inl hin
      · exact .inl (hc.waits_had (hwait hw.1) hw (hc.bound p hp))
    · obtain rfl := List.mem_singleton.1 hp
      rcases hqueued with rfl | hhas
      · refine .inr ⟨?_, rfl⟩
        rw [hevents]
        exact List.mem_append_right _ (List.mem_singleton_self _)
      · exact .inl ((hc.has_iff hk).1 hhas)
  · rw [ha]
    intro p hp
    obtain rfl : (k, c) = p := Option.some.inj hp
    exact List.mem_append_right _ (List.mem_singleton_self _)
  · rw [hcur]
    exact hc.idle
  · rw [hcur]
    exact hc.verify
  · exact fun _ => rfl

/-! ## The machine runs -/

theorem performAction_frees {tr : PerformTrans} (htr : tr.frees = true) :
    performAction env tr m = (none, [.freed], 0) := by
  unfold performAction
  rw [if_pos htr]

theorem performAction_stays {tr : PerformTrans} (htr : tr = .s2s1b ∨ tr = .s2s1d ∨ tr = .s2s2a) :
    performAction env tr m = (some m, [], 0) := by
  unfold performAction
  rcases htr with rfl | rfl | rfl <;> exact if_neg (by decide)

theorem performAction_verifies :
    performAction env .s2s3a m = (some (performS2S3a env m).1, (performS2S3a env m).2, 0) := by
  unfold performAction
  exact if_neg (by decide)

/-- `FSM_runMachine` by its transition and its action. -/
theorem runMachine_eq {tr : PerformTrans} {m' : Performer} {o' : List PerformOut}
    {r : Option Performer × List PerformOut × Nat}
    (htr : performTrans env s.curState evt m = some (tr, m', o'))
    (hact : performAction env tr m' = r) : s.runMachine evt m env = some
      ({ curState := tr.nextState
         op := r.1
         events := s.events ++ List.replicate r.2.2 .failureIndication }, o' ++ r.2.1) := by
  unfold Performing.runMachine
  rw [htr, ← hact]
  rfl

/-- The transitions of a machine that waits for a response. -/
theorem performTrans_waiting {st : PerformState} {tr : PerformTrans} {m' : Performer}
    (hst : st ≠ .s1Idle) (htr : performTrans env st evt m = some (tr, m', o)) :
    m' = m ∧ o = [] ∧ (tr.frees = true ∨
      st = .s2SubmitResultResponseWait ∧ m.receiver.bComplete = false ∧
        (tr = .s2s1b ∨ tr = .s2s1d) ∨
      st = .s2SubmitResultResponseWait ∧ m.receiver.bComplete = true ∧ tr = .s2s3a ∨
      st = .s2SubmitResultResponseWait ∧ tr = .s2s2a) := by
  have hall : allReceived m = m.receiver.bComplete := rfl
  have hfrees : ∀ {a b : PerformTrans} {c : Bool}, a.frees = true → b.frees = true →
      (if c then a else b).frees = true := by
    intro a b c ha hb
    rcases c with _ | _
    · exact hb
    · exact ha
  unfold performTrans at htr
  rw [hall] at htr
  split at htr
  case h_1 => exact absurd rfl hst
  case h_2 =>
    -- RESULT.confirm
    cases htr
    refine ⟨rfl, rfl, ?_⟩
    rcases hcomplete : m.receiver.bComplete with _ | _
    · exact .inr (.inl ⟨rfl, rfl, .inl rfl⟩)
    · exact .inl rfl
  case h_3 =>
    -- FAILURE.indication
    cases htr
    refine ⟨rfl, rfl, ?_⟩
    rcases hcomplete : m.receiver.bComplete with _ | _
    · exact .inr (.inl ⟨rfl, rfl, .inr rfl⟩)
    · exact .inr (.inr (.inl ⟨rfl, rfl, rfl⟩))
  case h_5 =>
    -- the row of INVOKE.indication
    cases htr
    exact ⟨rfl, rfl, .inr (.inr (.inr ⟨rfl, rfl⟩))⟩
  all_goals
    cases htr
    first
      | exact ⟨rfl, rfl, .inl rfl⟩
      | exact ⟨rfl, rfl, .inl (hfrees rfl rfl)⟩

/-- `FSM_runMachine` of a machine that waits for a response. -/
theorem runMachine_waiting (hst : s.curState ≠ .s1Idle)
    (hs : s.runMachine evt m env = some (t, o)) :
    t.op = none ∨
      s.curState = .s2SubmitResultResponseWait ∧
        (∃ st, t = { s with curState := st, op := some m } ∧
          (st = .s1Idle ∧ m.receiver.bComplete = false ∨ st = .s2SubmitResultResponseWait)) ∧
        o = [] ∨
      s.curState = .s2SubmitResultResponseWait ∧ m.receiver.bComplete = true ∧
        t = { s with
          curState := .s3SubmitVerifyResponseWait
          op := some (performS2S3a env m).1 } ∧ o = (performS2S3a env m).2 := by
  have hstay : ∀ {tr : PerformTrans}, tr = .s2s1b ∨ tr = .s2s1d ∨ tr = .s2s2a →
      performTrans env s.curState evt m = some (tr, m, []) →
      t = { s with curState := tr.nextState, op := some m } ∧ o = [] := by
    intro tr hkind htr
    have hrun := runMachine_eq htr (performAction_stays hkind)
    cases hs.symm.trans hrun
    simp
  obtain ⟨⟨tr, m', o'⟩, htr, -⟩ := Option.map_eq_some_iff.1 hs
  obtain ⟨rfl, rfl, hkind⟩ := performTrans_waiting hst htr
  rcases hkind with hfrees | ⟨hs2, hinc, hkind⟩ | ⟨hs2, hcomplete, rfl⟩ | ⟨hs2, rfl⟩
  · have hrun := runMachine_eq htr (performAction_frees hfrees)
    cases hs.symm.trans hrun
    exact .inl rfl
  · have hnext : tr.nextState = .s1Idle := by
      rcases hkind with rfl | rfl <;> rfl
    have hkind' : tr = .s2s1b ∨ tr = .s2s1d ∨ tr = .s2s2a := by
      rcases hkind with h | h
      · exact .inl h
      · exact .inr (.inl h)
    obtain ⟨ht, ho⟩ := hstay hkind' htr
    rw [hnext] at ht
    exact .inr (.inl ⟨hs2, ⟨_, ht, .inl ⟨rfl, hinc⟩⟩, ho⟩)
  · have hrun := runMachine_eq htr performAction_verifies
    cases hs.symm.trans hrun
    refine .inr (.inr ⟨hs2, hcomplete, ?_, rfl⟩)
    simp [PerformTrans.nextState]
  · obtain ⟨ht, ho⟩ := hstay (.inr (.inr rfl)) htr
    exact .inr (.inl ⟨hs2, ⟨_, ht, .inr rfl⟩, ho⟩)

/-- **A machine that waits for a response runs**: the segments stay. -/
theorem Collecting.waiting (hc : Collecting n hContents h s m) (he : s.events = evt :: events)
    (hst : s.curState ≠ .s1Idle) (hhad : evt = .invokeIndication → m.had = true)
    (hs : Performing.runMachine { s with events } evt m env = some (t, o)) :
    ∀ m', t.op = some m' → Collecting n hContents (h ++ o) t m' := by
  intro m' hm'
  rcases runMachine_waiting (s := { s with events }) hst hs with
    hnone | ⟨hs2, ⟨st, rfl, hst'⟩, rfl⟩ | ⟨hs2, hcomplete, rfl, rfl⟩
  · rw [hnone] at hm'
    cases hm'
  · obtain rfl := Option.some.inj hm'
    have hne : s.curState ≠ .s3SubmitVerifyResponseWait := by
      rw [show s.curState = _ from hs2]
      decide
    refine hc.next .nil rfl ?_ (fun _ => id) ?_ ?_ fun _ => hc.value hne
    · intro p hw hp
      by_cases hevt : evt = .invokeIndication
      · exact .inl (hc.waits_had (hhad hevt) hw hp)
      · -- its event is still there
        have hin := hw.1
        rw [he, List.mem_cons] at hin
        exact .inr ⟨hin.resolve_left fun heq => hevt heq.symm, hw.2⟩
    · intro hidle
      rcases hst' with ⟨-, hinc⟩ | rfl
      · exact hinc
      · cases hidle
    · intro hverify
      rcases hst' with ⟨rfl, -⟩ | rfl <;> cases hverify
  · obtain rfl := Option.some.inj hm'
    have hsame : (performS2S3a env m).1.receiver = m.receiver ∧
        (performS2S3a env m).1.hOperationData = m.hOperationData ∧
        Silent (performS2S3a env m).2 := by
      unfold performS2S3a
      split
      · exact ⟨rfl, rfl, .nil⟩
      · split
        · exact ⟨rfl, rfl, .nil⟩
        · exact ⟨rfl, rfl, rfl, fun _ => rfl⟩
    obtain ⟨hr, hdata, hq⟩ := hsame
    have hseg : (performS2S3a env m).1.segment = m.segment := by
      unfold Performer.segment
      rw [hdata]
    refine hc.next hq hr (fun p _ hp => .inl (hc.complete.1 hcomplete p.1 hp)) ?_ ?_
      (fun _ => hcomplete) fun hne => absurd rfl hne
    · intro p hp
      rwa [hseg] at hp
    · intro hidle
      cases hidle

/-! ## The machine runs for a segment -/

/-- The predicate in the idle state. -/
theorem runMachine_idle {m' : Performer} {ok : Bool} {o' : List PerformOut}
    (hst : s.curState = .s1Idle) (hp : pS1S2a env m = some (m', ok, o'))
    (hs : s.runMachine evt m env = some (t, o)) :
    (t.curState = .s2SubmitResultResponseWait ∨ t.curState = .s4ErrorResponseWait) ∧
      t.op = some m' ∧ ∃ o'', o = o' ++ o'' ∧ Silent o'' := by
  have htr : performTrans env s.curState evt m =
      some (if ok then .s1s2a else .s1s4a, m', o') := by
    rw [hst]
    unfold performTrans
    simp only [hp]
    rfl
  rcases ok with _ | _
  · have hact : performAction env .s1s4a m' = (some m', [.errorReq m'.invokeId], 0) := by
      unfold performAction
      exact if_neg (by decide)
    cases hs.symm.trans (runMachine_eq htr hact)
    exact ⟨.inr rfl, rfl, _, rfl, rfl, fun _ => rfl⟩
  · have hact : performAction env .s1s2a m' = (some (performS1S2a env m').1,
        (performS1S2a env m').2) := by
      unfold performAction
      exact if_neg (by decide)
    have hsame : (performS1S2a env m').1 = m' ∧ Silent (performS1S2a env m').2.1 := by
      unfold performS1S2a
      split
      · exact ⟨rfl, .nil⟩
      · split
        · exact ⟨rfl, rfl, fun _ => rfl⟩
        · exact ⟨rfl, .nil⟩
    cases hs.symm.trans (runMachine_eq htr hact)
    exact ⟨.inl rfl, congrArg some hsame.1, _, rfl, hsame.2⟩

/-- The predicate takes a segment. -/
theorem pS1S2a_takes {info : SegmentInfo} {ipm95 : Bool} {c : Buf} {r : Receiver}
    (hprofile : env.profile = true) (hvalue : m.operationValue = .submission)
    (hsap : m.performer3Way = true) (hdata : m.hOperationData = .submit ⟨some info, ipm95, c⟩)
    (hr : receiveSegment env.toReceiveEnv m.receiver info c = some (r, true)) :
    ∃ m' ok, pS1S2a env m = some (m', ok, [.stored info.number c]) ∧ m'.receiver = r ∧
      m'.operationValue = m.operationValue ∧ m'.hOperationData = m.hOperationData := by
  unfold pS1S2a
  rw [if_neg (by simp [hprofile, hvalue, hsap])]
  simp only [hdata, hr]
  exact ⟨_, _, rfl, rfl, rfl, rfl⟩

/-- The predicate refuses a segment that is there. -/
theorem pS1S2a_had (env : PerformEnv) {info : SegmentInfo} {ipm95 : Bool} {c : Buf}
    (hdata : m.hOperationData = .submit ⟨some info, ipm95, c⟩)
    (hr : receiveSegment env.toReceiveEnv m.receiver info c = some (m.receiver, false)) :
    ∃ m', pS1S2a env m = some (m', false, []) ∧ m'.receiver = m.receiver ∧
      m'.operationValue = m.operationValue ∧ m'.hOperationData = m.hOperationData := by
  unfold pS1S2a
  split
  · exact ⟨m, rfl, rfl, rfl, rfl⟩
  · simp only [hdata, hr]
    exact ⟨_, rfl, rfl, rfl, rfl⟩

/-- **A segment is stored.** -/
theorem Collecting.stored {m' : Performer} {k : Nat} {c : Buf} {o'' : List PerformOut}
    (hc : Collecting n hContents h s m) (hseg : m.segment = some (k, c))
    (hnew : k ∉ (Mts.stores h).map Prod.fst) (hq : Silent o'')
    (hst : t.curState = .s2SubmitResultResponseWait ∨ t.curState = .s4ErrorResponseWait)
    (hvalue : m'.operationValue = .submission) (hdata : m'.hOperationData = m.hOperationData)
    (hseveral : 1 < n → n < 32 ∧ Gathered n (Mts.stores h ++ [(k, c)]) m'.receiver)
    (hcomplete : m'.receiver.bComplete = true ↔
      ∀ i < n, i ∈ (Mts.stores h ++ [(k, c)]).map Prod.fst) :
    Collecting n hContents (h ++ ([.stored k c] ++ o'')) t m' := by
  have hs : Mts.stores (h ++ ([.stored k c] ++ o'')) = Mts.stores h ++ [(k, c)] := by
    rw [← List.append_assoc, hq.stores_eq, stores_append]
    rfl
  have ha : Mts.arrivals hContents (h ++ ([.stored k c] ++ o'')) = Mts.arrivals hContents h := by
    rw [← List.append_assoc, hq.arrivals_eq, arrivals_append]
    exact List.append_nil _
  have hfst : (Mts.stores h ++ [(k, c)]).map Prod.fst = (Mts.stores h).map Prod.fst ++ [k] := by
    rw [List.map_append, List.map_singleton]
  have hseg' : m'.segment = m.segment := by
    unfold Performer.segment
    rw [hdata]
  constructor
  · rw [hs, hfst]
    refine List.nodup_append.2 ⟨hc.once, by simp, ?_⟩
    intro i hi j hj
    rw [List.mem_singleton.1 hj]
    rintro rfl
    exact hnew hi
  · rw [hs, ha]
    intro p hp
    rcases List.mem_append.1 hp with hp | hp
    · exact hc.arrived p hp
    · obtain rfl := List.mem_singleton.1 hp
      exact hc.current _ hseg
  · rw [ha]
    exact hc.bound
  · rw [hs, hfst]
    exact List.mem_append_left _ hc.first
  · rw [hs]
    exact hseveral
  · rw [hs]
    exact hcomplete
  · rw [hs, ha, hfst]
    intro p hp
    refine .inl (List.mem_append.2 ?_)
    rcases hc.taken p hp with hin | hw
    · exact .inl hin
    · -- it is the one that waited
      right
      obtain rfl : (k, c) = p := Option.some.inj (hseg.symm.trans hw.2)
      exact List.mem_singleton_self k
  · rw [ha, hseg']
    exact hc.current
  · intro hidle
    rw [hidle] at hst
    rcases hst with hst | hst <;> cases hst
  · intro hverify
    rw [hverify] at hst
    rcases hst with hst | hst <;> cases hst
  · exact fun _ => hvalue

/-- The segment that an idle machine looks at is another one, of several. -/
theorem Collecting.idle_segment (hc : Collecting n hContents h s m) (hst : s.curState = .s1Idle)
    (hlook : m.had = true ∨ takes env m = true) : ∃ sequenceId k ipm95 c,
      m.hOperationData = .submit ⟨some ⟨sequenceId, .other k⟩, ipm95, c⟩ ∧
      m.segment = some (k, c) ∧ k < n ∧ n < 32 ∧ Gathered n (Mts.stores h) m.receiver := by
  have hinc := hc.idle hst
  have hn : 1 < n := by
    by_contra hle
    refine absurd (hc.complete.2 fun i hi => ?_) (by rw [hinc]; decide)
    obtain rfl : i = 0 := by omega
    exact hc.first
  have hfirst : m.has 0 = true := (hc.has_iff (by omega)).2 hc.first
  have hother : ∃ sequenceId k ipm95 c,
      m.hOperationData = .submit ⟨some ⟨sequenceId, .other k⟩, ipm95, c⟩ := by
    rcases hlook with hhad | htakes
    · unfold Performer.had at hhad
      rw [hinc, Bool.false_or] at hhad
      split at hhad
      · rename_i hdata
        exact ⟨_, _, _, _, hdata⟩
      · cases hhad
    · unfold takes at htakes
      rw [Bool.and_eq_true] at htakes
      have hkind := htakes.2
      split at hkind
      · -- the first one is there
        rw [hfirst] at hkind
        exact absurd hkind (by simp)
      · rename_i hdata
        exact ⟨_, _, _, _, hdata⟩
      · cases hkind
  obtain ⟨sequenceId, k, ipm95, c, hdata⟩ := hother
  have hseg : m.segment = some (k, c) := by
    unfold Performer.segment
    rw [hdata]
    rfl
  exact ⟨sequenceId, k, ipm95, c, hdata, hseg, hc.bound _ (hc.current _ hseg), hc.several hn⟩

/-- The idle machine refuses a segment that is there. -/
theorem Collecting.idle_had (hc : Collecting n hContents h s m) (hst : s.curState = .s1Idle)
    (hhad : m.had = true)
    (hs : Performing.runMachine { s with events } evt m env = some (t, o)) :
    ∀ m', t.op = some m' → Collecting n hContents (h ++ o) t m' := by
  intro m' hm'
  have hne : s.curState ≠ .s3SubmitVerifyResponseWait := by
    rw [hst]
    decide
  obtain ⟨sequenceId, k, ipm95, c, hdata, hseg, hk, -, hgathered⟩ :=
    hc.idle_segment hst (.inl hhad : m.had = true ∨ takes env m = true)
  have hmem : k ∈ (Mts.stores h).map Prod.fst := by
    refine (hc.has_iff hk).1 ?_
    unfold Performer.had at hhad
    rw [hdata, hc.idle hst, Bool.false_or] at hhad
    exact hhad
  obtain ⟨m'', hp, hr, hvalue, hdata'⟩ := pS1S2a_had env hdata
    (otherSegment_had hgathered hmem)
  obtain ⟨hst', hop, o'', ho, hq⟩ := runMachine_idle (s := { s with events }) hst hp hs
  rw [List.nil_append] at ho
  subst ho
  obtain rfl : m'' = m' := Option.some.inj (hop.symm.trans hm')
  have hseg' : m''.segment = m.segment := by
    unfold Performer.segment
    rw [hdata']
  refine hc.next hq hr ?_ (fun p hp => hseg' ▸ hp) (fun _ => hc.idle hst) ?_ ?_
  · intro p hw hp
    exact .inl (hc.waits_had hhad hw hp)
  · intro hverify
    rw [hverify] at hst'
    rcases hst' with h | h <;> cases h
  · intro _
    rw [hvalue]
    exact hc.value hne

/-- The idle machine takes a new segment. -/
theorem Collecting.idle_new (hc : Collecting n hContents h s m) (hst : s.curState = .s1Idle)
    (hhad : m.had = false) (htakes : takes env m = true)
    (hs : Performing.runMachine { s with events } evt m env = some (t, o)) :
    ∀ m', t.op = some m' → Collecting n hContents (h ++ o) t m' := by
  intro m' hm'
  have hne : s.curState ≠ .s3SubmitVerifyResponseWait := by
    rw [hst]
    decide
  obtain ⟨sequenceId, k, ipm95, c, hdata, hseg, hk, hmax, hgathered⟩ :=
    hc.idle_segment hst (.inr htakes)
  have hnew : k ∉ (Mts.stores h).map Prod.fst := by
    intro hmem
    have hhas := (hc.has_iff hk).2 hmem
    simp [Performer.had, hdata, hhas] at hhad
  unfold takes at htakes
  rw [hdata] at htakes
  simp only [Bool.and_eq_true] at htakes
  obtain ⟨⟨hprofile, hsap⟩, hcopy, hfree⟩ := htakes
  obtain ⟨r', hreceive, hgathered', hr'⟩ := otherSegment_gathers true env.toReceiveEnv c
    hgathered hc.stores_bound hk (show k < 32 by omega) hnew hcopy hfree
  obtain ⟨m'', ok, hp, hr, hvalue, hdata'⟩ := pS1S2a_takes hprofile (hc.value hne) hsap
    hdata hreceive
  obtain ⟨hst', hop, o'', rfl, hq⟩ := runMachine_idle (s := { s with events }) hst hp hs
  obtain rfl : m'' = m' := Option.some.inj (hop.symm.trans hm')
  refine hc.stored hseg hnew hq hst' (hvalue.trans (hc.value hne)) hdata' ?_ ?_
  · intro _
    rw [hr]
    exact ⟨hmax, hgathered'⟩
  · rw [hr]
    by_cases hall : ∀ i < n, i ∈ (Mts.stores h ++ [(k, c)]).map Prod.fst
    · rw [if_pos hall] at hr'
      exact ⟨fun _ => hall, fun _ => hr'.1⟩
    · rw [if_neg hall, hc.idle hst] at hr'
      rw [hr']
      exact ⟨fun h => absurd h (by decide), fun h => absurd h hall⟩

/-- **The machine runs after the first segment.** -/
theorem Collecting.runMachine (hc : Collecting n hContents h s m) (he : s.events = evt :: events)
    (hok : looks s evt → m.had = true ∨ s.curState = .s1Idle ∧ takes env m = true)
    (hs : Performing.runMachine { s with events } evt m env = some (t, o)) :
    ∀ m', t.op = some m' → Collecting n hContents (h ++ o) t m' := by
  by_cases hst : s.curState = .s1Idle
  · rcases hhad : m.had with _ | _
    · have htakes := (hok (.inr hst)).resolve_left (by rw [hhad]; decide)
      exact hc.idle_new hst hhad htakes.2 hs
    · exact hc.idle_had hst hhad hs
  · refine hc.waiting he hst ?_ hs
    -- only a segment that is there already may be dropped
    intro hevt
    rcases hok (.inl hevt) with hhad | ⟨hidle, -⟩
    · exact hhad
    · exact absurd hidle hst

/-! ## The machine runs for the first segment -/

/-- The first segment is taken. -/
theorem receiveSegment_first {sequenceId : Nat} {ipm95 : Bool}
    (hdata : m.hOperationData = .submit ⟨some ⟨sequenceId, .first n⟩, ipm95, hContents⟩)
    (hfresh : m.receiver = {}) (htakes : takes env m = true) :
    ∃ r, receiveSegment env.toReceiveEnv m.receiver ⟨sequenceId, .first n⟩ hContents =
        some (r, true) ∧ 0 < n ∧ (1 < n → n < 32 ∧ Gathered n [(0, hContents)] r) ∧
      (r.bComplete = true ↔ ∀ i < n, i = 0) := by
  unfold takes at htakes
  rw [hdata, Bool.and_eq_true] at htakes
  have hcount := htakes.2
  rw [Bool.and_eq_true] at hcount
  replace hcount := hcount.2
  simp only [Bool.or_eq_true, beq_iff_eq, Bool.and_eq_true, decide_eq_true_eq] at hcount
  rcases hcount with rfl | ⟨⟨⟨⟨hn, hmax⟩, hcopy⟩, hfree⟩, htimer⟩
  · refine ⟨{ m.receiver with bComplete := true, hContents := some hContents }, rfl, Nat.one_pos,
      fun hlt => absurd hlt (by decide), fun _ i hi => by omega, fun _ => rfl⟩
  · obtain ⟨r, hr, hcomplete, hgathered⟩ := firstSegment_several true env.toReceiveEnv
      m.receiver hContents sequenceId hn hmax hcopy hfree htimer
    refine ⟨r, congrArg some hr, by omega, fun _ => ⟨hmax, hgathered⟩, ?_⟩
    rw [hcomplete, hfresh]
    constructor
    · intro hfalse
      cases hfalse
    · intro hall
      exact absurd (hall 1 hn) (by decide)

/-- The first segment is not there before the machine has run. -/
theorem Unread.waits (hu : Unread n hContents h s m) :
    m.segment = some (0, hContents) ∧ m.had = false := by
  obtain ⟨sequenceId, ipm95, hdata⟩ := hu.first
  have hseg : m.segment = some (0, hContents) := by
    unfold Performer.segment
    rw [hdata]
    rfl
  refine ⟨hseg, ?_⟩
  unfold Performer.had
  rw [hdata, hu.fresh]
  rfl

/-- **The machine runs for the first segment.** -/
theorem Unread.invoke (hu : Unread n hContents h s m)
    (hok : m.had = true ∨ s.curState = .s1Idle ∧ takes env m = true)
    (hs : Performing.runMachine { s with events } .invokeIndication m env = some (t, o)) :
    ∀ m', t.op = some m' → Collecting n hContents (h ++ o) t m' := by
  intro m' hm'
  obtain ⟨sequenceId, ipm95, hdata⟩ := hu.first
  obtain ⟨hseg, hhad⟩ := hu.waits
  have htakes := (hok.resolve_left (by rw [hhad]; decide)).2
  have hsap : env.profile = true ∧ m.performer3Way = true := by
    unfold takes at htakes
    simp only [Bool.and_eq_true] at htakes
    exact htakes.1
  obtain ⟨r, hreceive, hpos, hseveral, hcomplete⟩ := receiveSegment_first hdata hu.fresh htakes
  obtain ⟨m'', ok, hp, hr, hvalue, hdata'⟩ :
      ∃ m' ok, pS1S2a env m = some (m', ok, [.stored 0 hContents]) ∧ m'.receiver = r ∧
        m'.operationValue = m.operationValue ∧ m'.hOperationData = m.hOperationData :=
    pS1S2a_takes hsap.1 hu.value hsap.2 hdata hreceive
  obtain ⟨hst', hop, o'', rfl, hq⟩ :=
    runMachine_idle (s := { s with events }) hu.idle hp hs
  obtain rfl : m'' = m' := Option.some.inj (hop.symm.trans hm')
  have hst : Mts.stores (h ++ ([.stored 0 hContents] ++ o'')) = [(0, hContents)] := by
    rw [← List.append_assoc, hq.stores_eq, stores_append, hu.stores]
    rfl
  have ha : Mts.arrivals hContents (h ++ ([.stored 0 hContents] ++ o'')) = [(0, hContents)] := by
    rw [← List.append_assoc, hq.arrivals_eq, arrivals_append, hu.arrivals]
    rfl
  constructor
  · rw [hst]
    simp
  · rw [hst, ha]
    exact fun _ hp => hp
  · rw [ha]
    intro p hp
    obtain rfl := List.mem_singleton.1 hp
    exact hpos
  · rw [hst]
    exact List.mem_singleton_self 0
  · rw [hst, hr]
    exact hseveral
  · rw [hst, hr]
    simpa using hcomplete
  · rw [hst, ha]
    intro p hp
    obtain rfl := List.mem_singleton.1 hp
    exact .inl (List.mem_singleton_self 0)
  · rw [ha]
    intro p hp
    unfold Performer.segment at hp hseg
    rw [hdata', hseg] at hp
    obtain rfl := Option.some.inj hp
    exact List.mem_singleton_self _
  · intro hidle
    rw [hidle] at hst'
    rcases hst' with h | h <;> cases h
  · intro hverify
    rw [hverify] at hst'
    rcases hst' with h | h <;> cases h
  · intro _
    rw [hvalue]
    exact hu.value

/-! ## Steps and runs -/

/-- **A step of an orderly run.** -/
theorem CollectOk.step {i : PerformInput} (hs : CollectOk n hContents s h) (hok : Orderly n s i)
    (hstep : (performing n hContents).step s i = some (t, o)) :
    CollectOk n hContents t (h ++ o) := by
  have hquiet : ∀ {t' : Performing}, (t', ([] : List PerformOut)) = (t, o) →
      CollectOk n hContents t' h → CollectOk n hContents t (h ++ o) := by
    intro t' he ht'
    obtain ⟨rfl, rfl⟩ := Prod.mk.inj he
    rwa [List.append_nil]
  cases i with
  | invokeIndication k ipm95 c invokeId performer3Way addUserFree memGet =>
    obtain ⟨-, hk, hcond⟩ := hok
    obtain ⟨m, hop, he⟩ := Option.map_eq_some_iff.1 hstep
    obtain ⟨hwait, hqueued⟩ := hcond m hop
    rcases addUserFree with _ | _
    · cases he
      intro m' hm'
      cases hm'
    · cases he
      intro m' hm'
      obtain rfl := Option.some.inj hm'
      rcases hs m hop with hu | hc
      · -- the first segment still waits
        obtain ⟨es, hes⟩ := hu.events
        have hhad := hwait (hes ▸ List.mem_cons_self)
        rw [hu.waits.2] at hhad
        cases hhad
      · exact .inr (hc.arrives rfl hk hwait hqueued rfl rfl rfl)
  | resultConfirm invokeId memGet =>
    exact hquiet (Option.some.inj hstep) (hs.indication _ invokeId memGet)
  | errorConfirm invokeId memGet =>
    exact hquiet (Option.some.inj hstep) (hs.indication _ invokeId memGet)
  | failureIndication invokeId memGet =>
    exact hquiet (Option.some.inj hstep) (hs.indication _ invokeId memGet)
  | resultIndication invokeId sendMessage memGet =>
    exact hquiet (Option.some.inj hstep) (hs.resultIndication invokeId sendMessage memGet)
  | errorIndication invokeId memGet =>
    exact hquiet (Option.some.inj hstep) (hs.indication _ invokeId memGet)
  | segmentationTimerExpired =>
    obtain ⟨m, hop, he⟩ := Option.bind_eq_some_iff.1 hstep
    split at he
    · cases he
      intro m' hm'
      cases hm'
    · cases he
  | schRun env =>
    unfold performing Performing.step at hstep
    dsimp only at hstep
    split at hstep
    · exact hquiet (Option.some.inj hstep) hs
    · rename_i evt events he
      obtain ⟨m, hop, hrun⟩ := Option.bind_eq_some_iff.1 hstep
      have hcond := hok m hop evt (by rw [he]; rfl)
      rcases hs m hop with hu | hc
      · -- the scheduler runs the INVOKE of the first segment
        obtain ⟨es, hes⟩ := hu.events
        rw [he] at hes
        obtain ⟨rfl, -⟩ := List.cons.inj hes
        exact fun m' hm' => .inr (hu.invoke (hcond (.inl rfl)) hrun m' hm')
      · exact fun m' hm' => .inr (hc.runMachine he hcond hrun m' hm')

theorem CollectOk.init (hi : (performing n hContents).init s) : CollectOk n hContents s [] := by
  obtain ⟨sequenceId, ipm95, invokeId, performer3Way, rfl⟩ := hi
  intro m hm
  obtain rfl := Option.some.inj hm
  exact .inl ⟨rfl, ⟨[], rfl⟩, rfl, rfl, ⟨sequenceId, ipm95, rfl⟩, rfl, rfl⟩

/-- **No segment is lost**: in every orderly run, as long as the operation lives, each segment that
has arrived is stored once or still waits for the scheduler, and the message is complete when all of
its segments are there. -/
theorem segments_collected (n : Nat) (hContents : Buf) {s : Performing} {h : List PerformOut}
    (hr : Run.Reach (performing n hContents) (Orderly n) h s) {m : Performer}
    (hm : s.op = some m) : Lossless n hContents h s m := by
  have hok : CollectOk n hContents s h := Run.Reach.invariant_hist (P := CollectOk n hContents)
    (fun _ hi => .init hi) (fun _ _ _ _ _ hs hok hstep => hs.step hok hstep) hr
  rcases hok m hm with hu | hc
  · obtain ⟨es, hes⟩ := hu.events
    have hnone := hu.stores
    constructor
    · rw [hnone]
      exact List.nodup_nil
    · rw [hnone]
      exact fun p hp => absurd hp List.not_mem_nil
    · rw [hnone]
      exact fun _ p hp => absurd hp List.not_mem_nil
    · rw [hu.arrivals]
      intro p hp
      obtain rfl := List.mem_singleton.1 hp
      exact .inr ⟨hes ▸ List.mem_cons_self, hu.waits.1⟩
    · rw [hnone, hu.fresh]
      constructor
      · intro hfalse
        cases hfalse
      · rintro ⟨hpos, hall⟩
        exact absurd (hall 0 hpos) List.not_mem_nil
  · exact {
      once := hc.once
      arrived := hc.arrived
      kept := fun hn => (hc.several hn).2.copies
      taken := hc.taken
      complete := hc.complete.trans ⟨fun hall => ⟨hc.pos, hall⟩, fun hall => hall.2⟩ }

/-- The first of two segments has been read. -/
def firstOfTwo : Performing where
  op := some {
    invokeId := 0
    performer3Way := true
    hOperationData := .submit ⟨some ⟨1, .first 2⟩, true, ⟨[[1]], 0, 0⟩⟩ }
  events := [.invokeIndication]

/-- The second one arrives. -/
def secondOfTwo : PerformInput := .invokeIndication 1 true ⟨[[2]], 0, 0⟩ 1 true true true

/-- The second segment comes after the confirm of the first one. -/
theorem segments_collected_two : ∃ s h m,
    Run.Reach (performing 2 ⟨[[1]], 0, 0⟩) (Orderly 2) h s ∧ s.op = some m ∧
      m.receiver.bComplete = true ∧ Lossless 2 ⟨[[1]], 0, 0⟩ h s m := by
  have hb : ∀ s i, decide (Orderly 2 s i) = true → Orderly 2 s i := fun _ _ hb =>
    of_decide_eq_true hb
  obtain ⟨s, h, hr, hp⟩ := Run.Reach.of_run (S := performing 2 ⟨[[1]], 0, 0⟩) (s := firstOfTwo) hb
    ⟨1, true, 0, true, rfl⟩
    [.schRun {}, .resultConfirm 0 true, .schRun {}, secondOfTwo, .schRun {}]
    (fun s _ => s.op.any fun m => m.receiver.bComplete) (by decide +kernel)
  obtain ⟨m, hm, hcomplete⟩ := (Option.any_eq_true _ _).1 hp
  exact ⟨s, h, m, hr, hm, hcomplete, segments_collected 2 ⟨[[1]], 0, 0⟩ hr hm⟩

/-- The second segment comes before the confirm of the first one: it is not stored, and it does not
wait. -/
theorem segment_dropped : ∃ s h m, Run.Reach (performing 2 ⟨[[1]], 0, 0⟩) Run.any h s ∧
    s.op = some m ∧ (1, ⟨[[2]], 0, 0⟩) ∈ arrivals ⟨[[1]], 0, 0⟩ h ∧
      1 ∉ (stores h).map Prod.fst ∧ s.events = [] := by
  obtain ⟨s, h, hr, hp⟩ := Run.Reach.of_run_any (S := performing 2 ⟨[[1]], 0, 0⟩)
    (s := firstOfTwo) ⟨1, true, 0, true, rfl⟩ [.schRun {}, secondOfTwo, .schRun {}]
    (fun s h => s.op.isSome && decide ((1, ⟨[[2]], 0, 0⟩) ∈ arrivals ⟨[[1]], 0, 0⟩ h) &&
      decide (1 ∉ (stores h).map Prod.fst) && s.events.isEmpty) (by decide +kernel)
  simp only [Bool.and_eq_true, decide_eq_true_eq] at hp
  obtain ⟨⟨⟨hop, harrived⟩, hstores⟩, hevents⟩ := hp
  obtain ⟨m, hm⟩ := Option.isSome_iff_exists.1 hop
  exact ⟨s, h, m, hr, hm, harrived, hstores, List.isEmpty_iff.1 hevents⟩

end Mts
