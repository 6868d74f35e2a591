import Emsd.Mts.Collecting

/-!
# Segments that are refused

Another segment that is there already, or whose number is out of range, is refused by the predicate of
the INVOKE, and the default row answers it with an ERROR.

* `Tracked.step`: in every run the masks say which segments have been stored.
* `bad_segment_ends`: **a segment that is refused changes no mask and no buffer, and in the idle state
  it is the end of the message**: no segment is stored any more, and the next event frees the operation.
* `bad_segment_harmful`: a segment that comes twice, so that the missing one cannot complete the message.
-/

namespace Mts

open Ocp Mtsua

variable {n k sequenceId : Nat} {hContents c : Buf} {h o : List PerformOut} {s t u : Performing}
  {m m' : Performer} {env : PerformEnv} {evt : FsmEvent} {events : List FsmEvent} {r r' : Receiver}
  {got : List Nat} {st : PerformState} {ipm95 : Bool}

/-! ## What the masks say -/

/-- The numbers of the segments that have been stored. -/
def numbers (h : List PerformOut) : List Nat := (stores h).map Prod.fst

/-- The masks, with the segments in `got` stored. -/
structure Masks (n : Nat) (got : List Nat) (r : Receiver) : Prop where
  expected : n < 32 → r.expectedSegmentMask.toNat = 2 ^ n - 1
  stored : ∀ i, r.receivedSegmentMask.getLsbD i = decide (i ∈ got)

/-- The first of several segments has been taken. -/
theorem firstSegment_masks {renv : ReceiveEnv} (hn : 1 < n)
    (ht : firstSegment true renv r sequenceId n c = (r', true)) : Masks n [0] r' := by
  unfold firstSegment at ht
  rw [if_neg (by omega)] at ht
  dsimp only at ht
  split at ht
  · cases ht
  split at ht
  · cases ht
  split at ht
  · cases ht
  split at ht
  · cases ht
  cases ht
  refine ⟨fun hmax => ?_, fun i => ?_⟩
  · -- the number of the last one is an `OS_Uint32`
    have hlast : (n + 2 ^ 32 - 1) % 2 ^ 32 + 1 = n := by omega
    change (shiftOne renv.wide ((n + 2 ^ 32 - 1) % 2 ^ 32 + 1) - 1).toNat = 2 ^ n - 1
    rw [hlast]
    exact lowMask_toNat hmax
  · change (shiftOne renv.wide 0).getLsbD i = _
    rw [shiftOne_getLsbD (by omega)]
    simp

theorem joinSegments_masks (hj : joinSegments r = some r') :
    r'.expectedSegmentMask = r.expectedSegmentMask ∧ r'.receivedSegmentMask = r.receivedSegmentMask := by
  unfold joinSegments at hj
  split at hj
  · obtain ⟨b, -, rfl⟩ := Option.map_eq_some_iff.1 hj
    exact ⟨rfl, rfl⟩
  · cases hj

/-- Another segment has been taken. -/
theorem otherSegment_taken {counts : Bool} {renv : ReceiveEnv}
    (ht : otherSegment counts renv r k c = some (r', true)) :
    k < 32 ∧ ¬r.expectedSegmentMask < shiftOne renv.wide k ∧
      r'.expectedSegmentMask = r.expectedSegmentMask ∧
      r'.receivedSegmentMask = r.receivedSegmentMask ||| shiftOne renv.wide k := by
  unfold otherSegment at ht
  split at ht
  · cases ht
  rename_i hlarge
  obtain ⟨h31, hexp⟩ := not_or.1 hlarge
  split at ht
  · cases ht
  split at ht
  · cases ht
  split at ht
  · cases ht
  dsimp only at ht
  split at ht
  · obtain ⟨x, hj, hx⟩ := Option.map_eq_some_iff.1 ht
    cases hx
    obtain ⟨he, hr⟩ := joinSegments_masks hj
    exact ⟨by omega, hexp, he, hr⟩
  · cases ht
    exact ⟨by omega, hexp, rfl, rfl⟩

/-- What the operation and the segments stored so far have to do with each other: nothing that matters
any more once an ERROR is out. -/
structure Tracked (n : Nat) (got : List Nat) (st : PerformState) (m : Performer) : Prop where
  data : (∃ sequenceId ipm95 c, m.hOperationData = .submit ⟨some ⟨sequenceId, .first n⟩, ipm95, c⟩ ∧
      ∀ i ∈ got, i = 0) ∨
    (∃ sequenceId i ipm95 c, m.hOperationData = .submit ⟨some ⟨sequenceId, .other i⟩, ipm95, c⟩) ∨
    ∃ b, m.hOperationData = .verified b
  fresh : st ≠ .s4ErrorResponseWait → got = [] → m.receiver.expectedSegmentMask = 0
  masks : st ≠ .s4ErrorResponseWait → got ≠ [] → Masks n got m.receiver

/-- An ERROR is out. -/
theorem Tracked.rejected (ht : Tracked n got st m) (hdata : m'.hOperationData = m.hOperationData) :
    Tracked n got .s4ErrorResponseWait m' :=
  ⟨by rw [hdata]; exact ht.data, fun hne => absurd rfl hne, fun hne => absurd rfl hne⟩

/-- Neither the data nor the segments change. -/
theorem Tracked.congr {st' : PerformState} (ht : Tracked n got st m)
    (hdata : m'.hOperationData = m.hOperationData) (hrec : m'.receiver = m.receiver)
    (hst : st' ≠ .s4ErrorResponseWait → st ≠ .s4ErrorResponseWait) : Tracked n got st' m' := by
  refine ⟨by rw [hdata]; exact ht.data, ?_, ?_⟩
  · rw [hrec]
    exact fun hne => ht.fresh (hst hne)
  · rw [hrec]
    exact fun hne => ht.masks (hst hne)

/-- The predicate of the INVOKE, in the idle state. -/
theorem Tracked.predicate {ok : Bool} (hn : 1 < n) (ht : Tracked n got .s1Idle m)
    (hp : pS1S2a env m = some (m', ok, o)) :
    Tracked n (got ++ numbers o) (if ok then .s2SubmitResultResponseWait else .s4ErrorResponseWait) m' := by
  have hidle : PerformState.s1Idle ≠ .s4ErrorResponseWait := by decide
  -- when it is FALSE nothing has been stored
  have hrefused : m'.hOperationData = m.hOperationData → o = [] → ok = false →
      Tracked n (got ++ numbers o)
        (if ok then .s2SubmitResultResponseWait else .s4ErrorResponseWait) m' := by
    rintro hdata rfl rfl
    have hnone : got ++ numbers [] = got := List.append_nil got
    rw [hnone]
    exact ht.rejected hdata
  unfold pS1S2a at hp
  split at hp
  · cases hp
    exact hrefused rfl rfl rfl
  rcases ht.data with ⟨sid, ipm, b, hdata, hzero⟩ | ⟨sid, i, ipm, b, hdata⟩ | ⟨v, hdata⟩
  · -- the first segment
    simp only [hdata] at hp
    split at hp
    · cases hp
    rename_i taken hrecv
    split at hp
    · rename_i htaken
      cases hp
      subst htaken
      have hmasks : Masks n [0] _ := firstSegment_masks hn (Option.some.inj hrecv)
      have hzero' : ∀ i ∈ got ++ [0], i = 0 := by
        intro i hi
        rcases List.mem_append.1 hi with hi | hi
        · exact hzero i hi
        · exact List.mem_singleton.1 hi
      have hnumbers : numbers [.stored (SegmentInfo.number ⟨sid, .first n⟩) b] = [0] := rfl
      rw [hnumbers]
      refine ⟨.inl ⟨sid, ipm, b, rfl, hzero'⟩, fun _ hnil => ?_, fun _ _ => ⟨hmasks.expected, ?_⟩⟩
      · exact absurd hnil (by simp)
      · intro i
        rw [hmasks.stored, decide_eq_decide]
        refine ⟨fun hi => List.mem_append_right _ hi, fun hi => ?_⟩
        rw [hzero' i hi]
        exact List.mem_singleton_self 0
    · cases hp
      exact hrefused hdata.symm rfl rfl
  · -- another one
    simp only [hdata] at hp
    split at hp
    · cases hp
    rename_i taken hrecv
    split at hp
    · rename_i htaken
      cases hp
      subst htaken
      have hrecv : otherSegment true env.toReceiveEnv m.receiver i b = some (_, true) := hrecv
      obtain ⟨h32, hexp, hexp', hrec'⟩ := otherSegment_taken hrecv
      have hnumbers : numbers [.stored (SegmentInfo.number ⟨sid, .other i⟩) b] = [i] := rfl
      rw [hnumbers]
      refine ⟨.inr (.inl ⟨sid, i, ipm, b, rfl⟩), fun _ hnil => absurd hnil (by simp), fun _ _ => ?_⟩
      -- before the first segment the mask is zero, and refuses every number
      have hgot : got ≠ [] := by
        intro hnil
        rw [ht.fresh hidle hnil, BitVec.lt_def, shiftOne_toNat h32] at hexp
        exact hexp (Nat.two_pow_pos i)
      have hmasks := ht.masks hidle hgot
      refine ⟨fun hmax => ?_, fun j => ?_⟩
      · rw [hexp']
        exact hmasks.expected hmax
      · rw [hrec', BitVec.getLsbD_or, hmasks.stored, shiftOne_getLsbD h32, ← Bool.decide_or,
          decide_eq_decide, List.mem_append, List.mem_singleton]
    · cases hp
      exact hrefused hdata.symm rfl rfl
  · -- the result of a SUBMIT.verify cannot be read
    simp only [hdata] at hp
    cases hp

/-- `FSM_runMachine` in the idle state. -/
theorem Tracked.run_idle (hn : 1 < n) (ht : Tracked n got s.curState m) (hst : s.curState = .s1Idle)
    (hs : s.runMachine evt m env = some (t, o)) :
    ∃ m', t.op = some m' ∧ Tracked n (got ++ numbers o) t.curState m' := by
  cases hp : pS1S2a env m with
  | none =>
    unfold Performing.runMachine performTrans at hs
    rw [hst] at hs
    simp only [hp] at hs
    cases hs
  | some x =>
    obtain ⟨m', ok, o'⟩ := x
    obtain ⟨-, hop, o'', rfl, hsilent⟩ := runMachine_idle hst hp hs
    rw [hst] at ht
    have htracked := ht.predicate hn hp
    refine ⟨m', hop, ?_⟩
    have hnumbers : numbers (o' ++ o'') = numbers o' := by
      unfold numbers
      rw [hsilent.stores_eq]
    have hcur : t.curState = if ok then .s2SubmitResultResponseWait else .s4ErrorResponseWait := by
      unfold Performing.runMachine performTrans at hs
      rw [hst] at hs
      simp only [hp] at hs
      rw [← (Prod.mk.inj (Option.some.inj hs)).1]
      cases ok <;> rfl
    rw [hnumbers, hcur]
    exact htracked

/-- The operation of a state is tracked. -/
def TrackOk (n : Nat) (s : Performing) (h : List PerformOut) : Prop :=
  ∀ m, s.op = some m → Tracked n (numbers h) s.curState m

theorem TrackOk.generateEvent (hs : TrackOk n s h) (evt : FsmEvent) (memGet : Bool) :
    TrackOk n (s.generateEvent evt memGet) h := hs

theorem TrackOk.indication (hs : TrackOk n s h) (evt : FsmEvent) (invokeId : InvokeId)
    (memGet : Bool) : TrackOk n (s.indication invokeId evt memGet) h := by
  unfold Performing.indication
  split
  · split
    · exact hs.generateEvent evt memGet
    · exact hs
  · exact hs

theorem TrackOk.resultIndication (hs : TrackOk n s h) (invokeId : InvokeId)
    (sendMessage : Option Bool) (memGet : Bool) :
    TrackOk n (s.resultIndication invokeId sendMessage memGet) h := by
  unfold Performing.resultIndication
  split
  · rename_i m b hop
    split
    · refine TrackOk.generateEvent (fun m' hm' => ?_) .resultIndication memGet
      obtain rfl := Option.some.inj hm'
      have ht := hs m hop
      exact ⟨.inr (.inr ⟨b, rfl⟩), ht.fresh, ht.masks⟩
    · exact hs
  · exact hs

/-- **One step** of any run. -/
theorem TrackOk.step {i : PerformInput} (hn : 1 < n) (hs : TrackOk n s h)
    (hstep : (performing n hContents).step s i = some (t, o)) : TrackOk n t (h ++ o) := by
  have hquiet : ∀ {t' : Performing}, (t', ([] : List PerformOut)) = (t, o) →
      TrackOk n t' h → TrackOk n t (h ++ o) := by
    intro t' he ht'
    obtain ⟨rfl, rfl⟩ := Prod.mk.inj he
    rwa [List.append_nil]
  have happend : ∀ o, numbers (h ++ o) = numbers h ++ numbers o := by
    intro o
    unfold numbers
    rw [stores_append, List.map_append]
  cases i with
  | invokeIndication k ipm95 c invokeId performer3Way addUserFree memGet =>
    obtain ⟨m, hop, he⟩ := Option.map_eq_some_iff.1 hstep
    cases addUserFree with
    | false =>
      cases he
      intro m' hm'
      cases hm'
    | true =>
      cases he
      intro m' hm'
      obtain rfl := Option.some.inj hm'
      have ht := hs m hop
      have hnumbers : numbers (h ++ [.arrived k c]) = numbers h := by
        rw [happend]
        exact List.append_nil _
      change Tracked n (numbers (h ++ [.arrived k c])) s.curState _
      rw [hnumbers]
      exact ⟨.inr (.inl ⟨_, k, ipm95, c, rfl⟩), ht.fresh, ht.masks⟩
  | resultConfirm invokeId memGet =>
    exact hquiet (Option.some.inj hstep) (hs.indication _ invokeId memGet)
  | errorConfirm invokeId memGet =>
    exact hquiet (Option.some.inj hstep) (hs.indication _ invokeId memGet)
  | failureIndication invokeId memGet =>
    exact hquiet (Option.some.inj hstep) (hs.indication _ invokeId memGet)
  | resultIndication invokeId sendMessage memGet =>
    exact hquiet (Option.some.inj hstep) (hs.resultIndication invokeId sendMessage memGet)
  | errorIndication invokeId memGet =>
    exact hquiet (Option.some.inj hstep) (hs.indication _ invokeId memGet)
  | segmentationTimerExpired =>
    obtain ⟨m, hop, he⟩ := Option.bind_eq_some_iff.1 hstep
    split at he
    · cases he
      intro m' hm'
      cases hm'
    · cases he
  | schRun env =>
    unfold performing Performing.step at hstep
    dsimp only at hstep
    split at hstep
    · exact hquiet (Option.some.inj hstep) hs
    · rename_i evt events he
      obtain ⟨m, hop, hrun⟩ := Option.bind_eq_some_iff.1 hstep
      have ht := hs m hop
      intro m' hm'
      by_cases hst : s.curState = .s1Idle
      · -- the predicate of the INVOKE may store the segment
        obtain ⟨m'', hop', ht'⟩ :=
          Tracked.run_idle (s := { s with events }) hn ht hst hrun
        obtain rfl := Option.some.inj (hop'.symm.trans hm')
        rw [happend]
        exact ht'
      · -- a machine that waits for a response stores nothing
        have hne : s.curState = .s2SubmitResultResponseWait → s.curState ≠ .s4ErrorResponseWait := by
          intro h2
          rw [h2]
          decide
        rcases runMachine_waiting (s := { s with events }) hst hrun with
          hnone | ⟨h2, ⟨st, rfl, -⟩, rfl⟩ | ⟨h2, -, rfl, rfl⟩
        · rw [hnone] at hm'
          cases hm'
        · obtain rfl := Option.some.inj hm'
          rw [List.append_nil]
          exact ht.congr rfl rfl fun _ => hne h2
        · obtain rfl := Option.some.inj hm'
          have hsilent : numbers (performS2S3a env m).2 = [] := by
            unfold performS2S3a
            split
            · rfl
            · split <;> rfl
          have hsame : (performS2S3a env m).1.hOperationData = m.hOperationData ∧
              (performS2S3a env m).1.receiver = m.receiver := by
            unfold performS2S3a
            split
            · exact ⟨rfl, rfl⟩
            · split <;> exact ⟨rfl, rfl⟩
          rw [happend, hsilent, List.append_nil]
          exact ht.congr hsame.1 hsame.2 fun _ => hne h2

/-- **The masks say which segments have been stored**, in every run. -/
theorem tracked_reach (hn : 1 < n) (hr : Run.Reach (performing n hContents) Run.any h s)
    (hop : s.op = some m) : Tracked n (numbers h) s.curState m := by
  have hok : TrackOk n s h := by
    refine Run.Reach.invariant_hist (P := TrackOk n) (fun s hi => ?_)
      (fun _ _ _ _ _ hs _ hstep => hs.step hn hstep) hr
    obtain ⟨sid, ipm, invokeId, performer3Way, rfl⟩ := hi
    intro m hm
    obtain rfl := Option.some.inj hm
    refine ⟨.inl ⟨sid, ipm, hContents, rfl, fun i hi => absurd hi List.not_mem_nil⟩, fun _ _ => rfl,
      fun _ hne => absurd rfl hne⟩
  exact hok m hop

/-! ## A segment that is refused -/

/-- It has been stored already, or there is no segment of this number. -/
def Refused (n : Nat) (h : List PerformOut) (k : Nat) : Prop := k ∈ numbers h ∨ n ≤ k

instance : Decidable (Refused n h k) := inferInstanceAs (Decidable (_ ∨ _))

/-- The masks refuse it. -/
theorem Masks.refuses {counts : Bool} {renv : ReceiveEnv} (hm : Masks n got r) (hbad : k ∈ got ∨ n ≤ k) :
    otherSegment counts renv r k c = some (r, false) := by
  unfold otherSegment
  by_cases hlarge : k > 31 ∨ r.expectedSegmentMask < shiftOne renv.wide k
  · exact if_pos hlarge
  · rw [if_neg hlarge]
    obtain ⟨h31, hexp⟩ := not_or.1 hlarge
    have h32 : k < 32 := by omega
    have hgot : k ∈ got := by
      -- a number that is out of range has its bit above all that are expected
      refine hbad.resolve_right fun hle => hexp ?_
      have hpow : 2 ^ n ≤ 2 ^ k := Nat.pow_le_pow_right (by omega) hle
      have hpos := Nat.two_pow_pos n
      rw [BitVec.lt_def, hm.expected (by omega), shiftOne_toNat h32]
      omega
    have hdup : r.receivedSegmentMask &&& shiftOne renv.wide k ≠ 0 := by
      rw [Ne, and_shiftOne h32, hm.stored, decide_eq_true hgot]
      simp
    exact if_pos hdup

/-- The predicate of the INVOKE refuses it, and changes nothing. -/
theorem pS1S2a_refuses (env : PerformEnv)
    (hdata : m.hOperationData = .submit ⟨some ⟨sequenceId, .other k⟩, ipm95, c⟩)
    (hr : otherSegment true env.toReceiveEnv m.receiver k c = some (m.receiver, false)) :
    pS1S2a env m = some (m, false, []) := by
  have hrecv : receiveSegment env.toReceiveEnv m.receiver ⟨sequenceId, .other k⟩ c =
      some (m.receiver, false) := hr
  unfold pS1S2a
  split
  · rfl
  · simp only [hdata, hrecv]
    rw [← hdata]
    rfl

/-! ## The end of the message -/

/-- The message has come to its end: an ERROR is out, or the operation has been freed. -/
def Ended (r : Receiver) (s : Performing) : Prop :=
  s.op = none ∨ s.curState = .s4ErrorResponseWait ∧ ∃ m, s.op = some m ∧ m.receiver = r

/-- Once an ERROR is out, every event frees the operation. -/
theorem runMachine_errorWait (hst : s.curState = .s4ErrorResponseWait) :
    s.runMachine evt m env = some ({ s with curState := .s1Idle, op := none }, [.freed]) := by
  unfold Performing.runMachine
  rw [hst]
  cases evt <;> simp [performTrans, performAction, PerformTrans.frees, PerformTrans.nextState]

theorem Ended.generateEvent (he : Ended r s) (evt : FsmEvent) (memGet : Bool) :
    Ended r (s.generateEvent evt memGet) := he

theorem Ended.indication (he : Ended r s) (evt : FsmEvent) (invokeId : InvokeId) (memGet : Bool) :
    Ended r (s.indication invokeId evt memGet) := by
  unfold Performing.indication
  split
  · split
    · exact he.generateEvent evt memGet
    · exact he
  · exact he

theorem Ended.resultIndication (he : Ended r s) (invokeId : InvokeId) (sendMessage : Option Bool)
    (memGet : Bool) : Ended r (s.resultIndication invokeId sendMessage memGet) := by
  unfold Performing.resultIndication
  split
  · rename_i m b hop
    split
    · refine Ended.generateEvent ?_ .resultIndication memGet
      rcases he with hnone | ⟨hst, m', hop', hrec⟩
      · rw [hop] at hnone
        cases hnone
      · obtain rfl := Option.some.inj (hop.symm.trans hop')
        exact .inr ⟨hst, _, rfl, hrec⟩
    · exact he
  · exact he

/-- The scheduler runs the machine of a message that has come to its end. -/
theorem Ended.run (he : Ended r s) (hs : s.step (.schRun env) = some (t, o)) :
    stores o = [] ∧ Ended r t ∧ (s.events ≠ [] → t.op = none) := by
  unfold Performing.step at hs
  dsimp only at hs
  split at hs
  · rename_i hevents
    cases hs
    exact ⟨rfl, he, fun hne => absurd hevents hne⟩
  · rename_i evt events hevents
    obtain ⟨m, hop, hrun⟩ := Option.bind_eq_some_iff.1 hs
    rcases he with hnone | ⟨hst, -⟩
    · rw [hop] at hnone
      cases hnone
    · rw [runMachine_errorWait (s := { s with events }) hst] at hrun
      cases hrun
      exact ⟨rfl, .inl rfl, fun _ => rfl⟩

theorem Ended.step {i : PerformInput} (he : Ended r s) (hs : s.step i = some (t, o)) :
    stores o = [] ∧ Ended r t := by
  have hquiet : ∀ {t' : Performing}, (t', ([] : List PerformOut)) = (t, o) → Ended r t' →
      stores o = [] ∧ Ended r t := by
    intro t' he ht'
    obtain ⟨rfl, rfl⟩ := Prod.mk.inj he
    exact ⟨rfl, ht'⟩
  cases i with
  | invokeIndication k ipm95 c invokeId performer3Way addUserFree memGet =>
    obtain ⟨m, hop, hs⟩ := Option.map_eq_some_iff.1 hs
    rcases he with hnone | ⟨hst, m', hop', hrec⟩
    · rw [hop] at hnone
      cases hnone
    · obtain rfl := Option.some.inj (hop.symm.trans hop')
      cases addUserFree with
      | false =>
        cases hs
        exact ⟨rfl, .inl rfl⟩
      | true =>
        cases hs
        exact ⟨rfl, .inr ⟨hst, _, rfl, hrec⟩⟩
  | resultConfirm invokeId memGet =>
    exact hquiet (Option.some.inj hs) (he.indication _ invokeId memGet)
  | errorConfirm invokeId memGet =>
    exact hquiet (Option.some.inj hs) (he.indication _ invokeId memGet)
  | failureIndication invokeId memGet =>
    exact hquiet (Option.some.inj hs) (he.indication _ invokeId memGet)
  | resultIndication invokeId sendMessage memGet =>
    exact hquiet (Option.some.inj hs) (he.resultIndication invokeId sendMessage memGet)
  | errorIndication invokeId memGet =>
    exact hquiet (Option.some.inj hs) (he.indication _ invokeId memGet)
  | segmentationTimerExpired =>
    obtain ⟨m, -, hs⟩ := Option.bind_eq_some_iff.1 hs
    split at hs
    · cases hs
      exact ⟨rfl, .inl rfl⟩
    · cases hs
  | schRun env => exact ⟨(he.run hs).1, (he.run hs).2.1⟩

/-- **No segment is stored any more**, whatever comes. -/
theorem Ended.exec {h' : List PerformOut} (he : Ended r t)
    (hx : Run.Exec (performing n hContents) Run.any t h' u) : stores h' = [] ∧ Ended r u := by
  induction hx with
  | refl => exact ⟨rfl, he⟩
  | snoc _ _ hstep ih =>
    obtain ⟨hnone, he'⟩ := ih
    obtain ⟨hnone', he''⟩ := he'.step hstep
    refine ⟨?_, he''⟩
    rw [stores_append, hnone, hnone']
    rfl

/-- A segment is refused in the idle state. -/
theorem runMachine_refused (evt : FsmEvent) (hst : s.curState = .s1Idle)
    (hp : pS1S2a env m = some (m, false, [])) :
    s.runMachine evt m env = some ({ s with curState := .s4ErrorResponseWait, op := some m },
      [.errorReq m.invokeId]) := by
  have htr : performTrans env s.curState evt m = some (.s1s4a, m, []) := by
    rw [hst]
    unfold performTrans
    simp only [hp]
    rfl
  have hact : performAction env .s1s4a m = (some m, [.errorReq m.invokeId], 0) := by
    unfold performAction
    exact if_neg (by decide)
  rw [runMachine_eq htr hact]
  simp [PerformTrans.nextState]

/-- An INVOKE that comes while a RESULT is confirmed. -/
theorem runMachine_aside (hst : s.curState = .s2SubmitResultResponseWait) :
    s.runMachine .invokeIndication m env = some ({ s with op := some m }, []) := by
  have htr : performTrans env s.curState .invokeIndication m = some (.s2s2a, m, []) := by
    rw [hst]
    rfl
  rw [runMachine_eq htr (performAction_stays (.inr (.inr rfl)))]
  simp [PerformTrans.nextState, hst]

/-- **A bad segment ends the message.** When the scheduler runs the INVOKE of another segment that has
been stored already or is out of range, no mask and no buffer changes. In the idle state an ERROR is
requested; from then on no segment is stored, and the next event frees the operation. While a RESULT is
being confirmed nothing happens. -/
theorem bad_segment_ends (hn : 1 < n) (hr : Run.Reach (performing n hContents) Run.any h s)
    (hop : s.op = some m) (hstarted : 0 ∈ numbers h)
    (hdata : m.hOperationData = .submit ⟨some ⟨sequenceId, .other k⟩, ipm95, c⟩)
    (hbad : Refused n h k) (hevents : s.events = .invokeIndication :: events) (env : PerformEnv) :
    ∃ t o, s.step (.schRun env) = some (t, o) ∧
      (s.curState = .s1Idle →
        t = { s with curState := .s4ErrorResponseWait, events } ∧ o = [.errorReq m.invokeId] ∧
        ∀ h' u, Run.Exec (performing n hContents) Run.any t h' u →
          stores h' = [] ∧ Ended m.receiver u ∧
            ∀ env' v o', u.events ≠ [] → u.step (.schRun env') = some (v, o') → v.op = none) ∧
      (s.curState = .s2SubmitResultResponseWait → t = { s with events } ∧ o = []) ∧
      (s.curState = .s4ErrorResponseWait → t.op = none) := by
  have ht := tracked_reach hn hr hop
  have hstep : ∀ env, s.step (.schRun env) =
      Performing.runMachine { s with events } .invokeIndication m env := by
    intro env
    unfold Performing.step
    dsimp only
    rw [hevents, hop]
    rfl
  rw [hstep]
  by_cases h1 : s.curState = .s1Idle
  · -- the predicate refuses the segment, and the default row follows
    have hne : s.curState ≠ .s4ErrorResponseWait := by
      rw [h1]
      decide
    -- the first segment has been stored, so the masks are those of the history
    have hmasks := ht.masks hne (List.ne_nil_of_mem hstarted)
    have hp := pS1S2a_refuses env hdata (hmasks.refuses hbad)
    rw [runMachine_refused (s := { s with events }) _ h1 hp]
    refine ⟨_, _, rfl, fun _ => ⟨by rw [← hop], rfl, fun h' u hx => ?_⟩, fun h2 => ?_, fun h4 => ?_⟩
    · have hended : Ended m.receiver
          { s with curState := .s4ErrorResponseWait, op := some m, events } := .inr ⟨rfl, m, rfl, rfl⟩
      obtain ⟨hstores, he⟩ := hended.exec hx
      exact ⟨hstores, he, fun env' v o' hne hv => (he.run hv).2.2 hne⟩
    · rw [h1] at h2
      cases h2
    · rw [h1] at h4
      cases h4
  · by_cases h2 : s.curState = .s2SubmitResultResponseWait
    · rw [runMachine_aside (s := { s with events }) h2]
      refine ⟨_, _, rfl, fun h => absurd h h1, fun _ => ⟨by rw [← hop], rfl⟩, fun h4 => ?_⟩
      rw [h2] at h4
      cases h4
    · by_cases h4 : s.curState = .s4ErrorResponseWait
      · rw [runMachine_errorWait (s := { s with events }) h4]
        exact ⟨_, _, rfl, fun h => absurd h h1, fun h => absurd h h2, fun _ => rfl⟩
      · -- a complete message is verified
        have h3 : s.curState = .s3SubmitVerifyResponseWait := by
          cases hst : s.curState with
          | s1Idle => exact absurd hst h1
          | s2SubmitResultResponseWait => exact absurd hst h2
          | s3SubmitVerifyResponseWait => rfl
          | s4ErrorResponseWait => exact absurd hst h4
        have hrun : Performing.runMachine { s with events } .invokeIndication m env =
            some ({ s with curState := .s1Idle, op := none, events }, [.freed]) := by
          unfold Performing.runMachine
          simp [h3, performTrans, performAction, PerformTrans.frees, PerformTrans.nextState]
        rw [hrun]
        exact ⟨_, _, rfl, fun h => absurd h h1, fun h => absurd h h2, fun h => absurd h h4⟩

/-- The remaining segments can complete the message. -/
def Completable (n : Nat) (hContents : Buf) (t : Performing) : Prop :=
  ∃ h' u m, Run.Exec (performing n hContents) Run.any t h' u ∧ u.op = some m ∧
    m.receiver.bComplete = true

/-- The first of three segments has been read. -/
def firstOfThree : Performing where
  op := some {
    invokeId := 0
    performer3Way := true
    hOperationData := .submit ⟨some ⟨1, .first 3⟩, true, ⟨[[1]], 0, 0⟩⟩ }
  events := [.invokeIndication]

/-- The second one comes twice, each time after the confirm of the one before. -/
def secondTwice : List PerformInput :=
  [.schRun {}, .resultConfirm 0 true, .schRun {},
    .invokeIndication 1 true ⟨[[2]], 0, 0⟩ 1 true true true, .schRun {}, .resultConfirm 1 true,
    .schRun {}, .invokeIndication 1 true ⟨[[2]], 0, 0⟩ 2 true true true]

/-- The test of a state in which the second segment is to be refused. -/
def refusedNext (s : Performing) (h : List PerformOut) : Bool :=
  s.curState = .s1Idle && s.events = [.invokeIndication] && decide (numbers h = [0, 1]) &&
    s.op.any fun m => !m.receiver.bComplete &&
      decide (m.hOperationData = .submit ⟨some ⟨1, .other 1⟩, true, ⟨[[2]], 0, 0⟩⟩)

theorem bad_segment_ends_twice : ∃ s h m t o, Run.Reach (performing 3 ⟨[[1]], 0, 0⟩) Run.any h s ∧
    s.op = some m ∧ numbers h = [0, 1] ∧ s.step (.schRun {}) = some (t, o) ∧
    o = [.errorReq m.invokeId] ∧ t.curState = .s4ErrorResponseWait := by
  obtain ⟨s, h, hr, hp⟩ := Run.Reach.of_run_any (S := performing 3 ⟨[[1]], 0, 0⟩)
    (s := firstOfThree) ⟨1, true, 0, true, rfl⟩ secondTwice refusedNext (by decide +kernel)
  unfold refusedNext at hp
  simp only [Bool.and_eq_true, decide_eq_true_eq] at hp
  obtain ⟨⟨⟨hst, hevents⟩, hnumbers⟩, hop⟩ := hp
  obtain ⟨m, hop, hm⟩ := (Option.any_eq_true _ _).1 hop
  simp only [Bool.and_eq_true, decide_eq_true_eq] at hm
  have hstarted : 0 ∈ numbers h := by
    rw [hnumbers]
    decide
  have hbad : Refused 3 h 1 := by
    refine .inl ?_
    rw [hnumbers]
    decide
  obtain ⟨t, o, hstep, hidle, -⟩ := bad_segment_ends (by decide) hr hop hstarted hm.2 hbad hevents {}
  obtain ⟨rfl, ho, -⟩ := hidle hst
  exact ⟨s, h, m, _, o, hr, hop, hnumbers, hstep, ho, rfl⟩

/-- **The second of three segments comes twice**, and the message cannot be completed any more. -/
theorem bad_segment_harmful : ∃ s h m t o, Run.Reach (performing 3 ⟨[[1]], 0, 0⟩) Run.any h s ∧
    s.op = some m ∧ m.receiver.bComplete = false ∧ numbers h = [0, 1] ∧
    m.hOperationData = .submit ⟨some ⟨1, .other 1⟩, true, ⟨[[2]], 0, 0⟩⟩ ∧
    s.step (.schRun {}) = some (t, o) ∧ ¬Completable 3 ⟨[[1]], 0, 0⟩ t := by
  obtain ⟨s, h, hr, hp⟩ := Run.Reach.of_run_any (S := performing 3 ⟨[[1]], 0, 0⟩)
    (s := firstOfThree) ⟨1, true, 0, true, rfl⟩ secondTwice refusedNext (by decide +kernel)
  unfold refusedNext at hp
  simp only [Bool.and_eq_true, decide_eq_true_eq] at hp
  obtain ⟨⟨⟨hst, hevents⟩, hnumbers⟩, hop⟩ := hp
  obtain ⟨m, hop, hm⟩ := (Option.any_eq_true _ _).1 hop
  simp only [Bool.and_eq_true, decide_eq_true_eq, Bool.not_eq_true'] at hm
  obtain ⟨hpart, hdata⟩ := hm
  have hmasks : Masks 3 (numbers h) m.receiver := by
    refine (tracked_reach (by decide) hr hop).masks ?_ ?_
    · rw [hst]
      decide
    · rw [hnumbers]
      decide
  have hbad : 1 ∈ numbers h := by
    rw [hnumbers]
    decide
  have hrun := runMachine_refused (s := { s with events := [] }) .invokeIndication hst
    (pS1S2a_refuses {} hdata (hmasks.refuses (.inl hbad)))
  have hstep : s.step (.schRun {}) =
      Performing.runMachine { s with events := [] } .invokeIndication m {} := by
    unfold Performing.step
    dsimp only
    rw [hevents, hop]
    rfl
  refine ⟨s, h, m, _, _, hr, hop, hpart, hnumbers, hdata, hstep.trans hrun, ?_⟩
  rintro ⟨h', u, m', hx, hop', hcomplete⟩
  have hended : Ended m.receiver
      { s with curState := .s4ErrorResponseWait, op := some m, events := [] } :=
    .inr ⟨rfl, m, rfl, rfl⟩
  -- the receiver stays as it is, and it was not complete
  rcases (hended.exec hx).2 with hnone | ⟨-, m'', hop'', hrec⟩
  · rw [hop'] at hnone
    cases hnone
  · obtain rfl := Option.some.inj (hop'.symm.trans hop'')
    rw [hrec, hpart] at hcomplete
    cases hcomplete

end Mts
