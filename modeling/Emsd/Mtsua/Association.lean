import Emsd.Mtsua.Operations

/-!
# To which operation a segment is put

* `segment_association`: **a segment is put only to an inbound operation of its peer whose first
  segment carries the same sequence number**, in every run in which the oldest operation with that
  number collects segments (`Unambiguous`).
* `segment_misattached`: an outbound operation takes a segment.
-/

namespace Mtsua

open Ocp

variable {side : Side} {e e' : Operations} {h o : List OperationOut} {op : Operation}
  {nsap : NSapAddr} {arg : Argument} {env : IndicationEnv} {operId sequenceId thisSeg : Nat}

/-! ## The condition -/

/-- The operations among which a segment of `sequenceId` from `nsap` is looked up. -/
def Operation.numbered (side : Side) (nsap : NSapAddr) (sequenceId : Nat) (op : Operation) : Bool :=
  op.sequenceId = sequenceId && (side = .ua || op.nsap.take 4 = nsap.take 4)

/-- An inbound operation of `nsap` whose first segment has been read. -/
def Operation.collects (nsap : NSapAddr) (op : Operation) : Bool :=
  op.performer && op.hFirstOperationData.isSome && op.nsap.take 4 = nsap.take 4

/-- When another segment arrives, the oldest operation with its number (and, in the MTS, with its
NSAP) collects segments from its NSAP. -/
def Unambiguous (side : Side) (e : Operations) : OperationInput → Prop
  | .invokeIndication nsap (.message (some ⟨sequenceId, .other _⟩)) _ =>
    ∀ op ∈ (e.activeOperations.filter (·.numbered side nsap sequenceId)).head?,
      op.collects nsap = true
  | _ => True

instance {i : OperationInput} : Decidable (Unambiguous side e i) := by
  unfold Unambiguous
  split <;> infer_instance

/-! ## What is to hold -/

/-- An INVOKE with the first segment of `sequenceId` from `nsap` got the operation. -/
def FirstFrom (h : List OperationOut) (operId : Nat) (nsap : NSapAddr) (sequenceId : Nat) : Prop :=
  ∃ n nsap', nsap'.take 4 = nsap.take 4 ∧
    .created operId nsap' (.message (some ⟨sequenceId, .first n⟩)) ∈ h

/-- Every segment so far has been put to such an operation. -/
def Associated (h : List OperationOut) : Prop :=
  ∀ g operId nsap info, g ++ [.attached operId nsap info] <+: h →
    FirstFrom g operId nsap info.sequenceId

theorem Associated.nil : Associated [] := by
  intro g operId nsap info hpre
  have hnil := List.prefix_nil.1 hpre
  simp at hnil

/-- The next thing that is seen is no segment put to an operation, or one that belongs there. -/
theorem Associated.snoc {x : OperationOut} (ha : Associated h)
    (hx : ∀ operId nsap info, x = .attached operId nsap info →
      FirstFrom h operId nsap info.sequenceId) : Associated (h ++ [x]) := by
  intro g operId nsap info hpre
  rcases List.prefix_concat_iff.1 hpre with heq | hpre
  · obtain ⟨rfl, hlast⟩ := List.append_inj' heq rfl
    exact hx operId nsap info (List.cons.inj hlast).1.symm
  · exact ha g operId nsap info hpre

/-! ## The invariant -/

/-- Where the argument of an operation comes from: a first segment has created it. -/
structure OperationOk (h : List OperationOut) (op : Operation) : Prop where
  pending : ∀ sequenceId n, .message (some ⟨sequenceId, .first n⟩) ∈ op.pending →
    .created op.operId op.nsap (.message (some ⟨sequenceId, .first n⟩)) ∈ h
  first : op.hFirstOperationData.isSome = true →
    ∃ n, .created op.operId op.nsap (.message (some ⟨op.sequenceId, .first n⟩)) ∈ h

/-- The inbound operations. -/
def OperationsOk (h : List OperationOut) (e : Operations) : Prop :=
  ∀ op ∈ e.activeOperations, op.performer = true → OperationOk h op

theorem OperationOk.mono (hop : OperationOk h op) : OperationOk (h ++ o) op where
  pending := by
    intro sequenceId n hmem
    exact List.mem_append_left _ (hop.pending sequenceId n hmem)
  first := by
    intro hsome
    obtain ⟨n, hmem⟩ := hop.first hsome
    exact ⟨n, List.mem_append_left _ hmem⟩

theorem OperationsOk.mono (he : OperationsOk h e) : OperationsOk (h ++ o) e :=
  fun op hop hp => (he op hop hp).mono

/-- An operation that collects segments has been created by the first one. -/
theorem OperationsOk.firstFrom (he : OperationsOk h e) (hop : op ∈ e.activeOperations)
    (hnum : op.sequenceId = sequenceId) (hc : op.collects nsap = true) :
    FirstFrom h op.operId nsap sequenceId := by
  unfold Operation.collects at hc
  simp only [Bool.and_eq_true, decide_eq_true_eq] at hc
  obtain ⟨⟨hp, hsome⟩, hnsap⟩ := hc
  obtain ⟨n, hmem⟩ := (he op hop hp).first hsome
  rw [hnum] at hmem
  exact ⟨n, op.nsap, hnsap, hmem⟩

/-! ### What keeps it -/

theorem OperationsOk.free (he : OperationsOk h e) : OperationsOk h (e.freeOperation operId) :=
  fun op hop hp => he op (List.mem_of_mem_filter hop) hp

theorem OperationsOk.modify {f : Operation → Operation} (he : OperationsOk h e)
    (hf : ∀ op ∈ e.activeOperations, (f op).performer = true → OperationOk h (f op)) :
    OperationsOk h (e.modify operId f) := by
  intro o ho hp
  obtain ⟨o', ho', rfl⟩ := List.mem_map.1 ho
  by_cases hid : o'.operId = operId
  · rw [if_pos hid] at hp ⊢
    exact hf o' ho' hp
  · rw [if_neg hid] at hp ⊢
    exact he o' ho' hp

theorem OperationsOk.set (he : OperationsOk h e) (hop : op.performer = true → OperationOk h op) :
    OperationsOk h (e.set op) :=
  he.modify fun _ _ => hop

theorem OperationsOk.alloc (he : OperationsOk h e) (performer : Bool) :
    OperationsOk h (e.allocOperation nsap performer).1 := by
  intro o ho hp
  rcases List.mem_append.1 ho with ho | ho
  · exact he o ho hp
  · obtain rfl := List.mem_singleton.1 ho
    exact ⟨fun _ _ hmem => absurd hmem List.not_mem_nil, fun hsome => by cases hsome⟩

/-- A first segment is read: the operation takes over its number. -/
theorem OperationOk.saveSequence (hop : OperationOk h op)
    (harg : ∀ sequenceId n, arg = .message (some ⟨sequenceId, .first n⟩) →
      .created op.operId op.nsap arg ∈ h) : OperationOk h (saveSequence op arg) := by
  unfold Mtsua.saveSequence
  split
  · rename_i sequenceId n
    split
    · exact hop
    · exact ⟨hop.pending, fun _ => ⟨n, harg sequenceId n rfl⟩⟩
  · exact hop

theorem OperationOk.readInvoke (hop : OperationOk h op) : OperationOk h (side.readInvoke op) := by
  cases side with
  | mts =>
    show OperationOk h (Mts.readInvoke op)
    unfold Mts.readInvoke
    split
    · rename_i arg rest hpending
      refine hop.saveSequence fun sequenceId n harg => ?_
      subst harg
      exact hop.pending sequenceId n (hpending ▸ List.mem_cons_self)
    · exact hop
  | ua =>
    show OperationOk h (Ua.readInvoke op)
    unfold Ua.readInvoke
    split
    · rename_i arg rest hpending
      have hrest : OperationOk h { op with pending := rest } :=
        ⟨fun sequenceId n hmem => hop.pending sequenceId n
          (hpending ▸ List.mem_cons_of_mem _ hmem), hop.first⟩
      refine hrest.saveSequence fun sequenceId n harg => ?_
      subst harg
      exact hop.pending sequenceId n (hpending ▸ List.mem_cons_self)
    · exact hop

/-! ## The pre-processing of an INVOKE -/

/-- An operation takes an argument, or is freed because memory is short. -/
inductive Taken (e : Operations) (op : Operation) (arg : Argument) (seen : OperationOut) :
    Operations × List OperationOut → Prop
  | freed : Taken e op arg seen (e.freeOperation op.operId, [.freed op.operId])
  | queued {pending : List Argument} : (∀ a ∈ pending, a ∈ op.pending ∨ a = arg) →
    Taken e op arg seen (e.set { op with pending }, [seen])

theorem Mts.takeArgument_taken {seen : OperationOut} :
    Taken e op arg seen (Mts.takeArgument env e op arg seen) := by
  unfold Mts.takeArgument
  split
  · exact .freed
  · exact .queued fun a ha => .inr (List.mem_singleton.1 ha)

theorem Ua.takeArgument_taken {seen : OperationOut} :
    Taken e op arg seen (Ua.takeArgument env e op arg seen) := by
  unfold Ua.takeArgument
  split
  · exact .freed
  · refine .queued fun a ha => ?_
    rcases List.mem_append.1 ha with ha | ha
    · exact .inl ha
    · exact .inr (List.mem_singleton.1 ha)

/-- What the pre-processing of an INVOKE comes to. -/
inductive Indicated (side : Side) (e : Operations) (nsap : NSapAddr) :
    Argument → Operations × List OperationOut → Prop
  | rejected {arg : Argument} : Indicated side e nsap arg (e, [.rejected])
  | attached {sequenceId thisSeg : Nat} {op : Operation} {r : Operations × List OperationOut} :
    op ∈ (e.activeOperations.filter (·.numbered side nsap sequenceId)).head? →
    Taken e op (.message (some ⟨sequenceId, .other thisSeg⟩))
      (.attached op.operId nsap ⟨sequenceId, .other thisSeg⟩) r →
    Indicated side e nsap (.message (some ⟨sequenceId, .other thisSeg⟩)) r
  | dropped {arg : Argument} :
    (∀ sequenceId thisSeg, arg ≠ .message (some ⟨sequenceId, .other thisSeg⟩)) →
    Indicated side e nsap arg
      ((e.allocOperation nsap true).1.freeOperation e.serialNumber, [.rejected])
  | created {arg : Argument} {r : Operations × List OperationOut} :
    (∀ sequenceId thisSeg, arg ≠ .message (some ⟨sequenceId, .other thisSeg⟩)) →
    Taken (e.allocOperation nsap true).1 (e.allocOperation nsap true).2 arg
      (.created e.serialNumber nsap arg) r → Indicated side e nsap arg r

theorem preprocess_indicated
    {find : List Operation → NSapAddr → Nat → Option Operation}
    {take : IndicationEnv → Operations → Operation → Argument → OperationOut →
      Operations × List OperationOut}
    (hfind : ∀ q, find e.activeOperations nsap q =
      (e.activeOperations.filter (·.numbered side nsap q)).head?)
    (htake : ∀ {e op arg seen}, Taken e op arg seen (take env e op arg seen)) :
    Indicated side e nsap arg (Mtsua.preprocessInvokeIndication find take env e nsap arg) := by
  unfold Mtsua.preprocessInvokeIndication
  split
  · exact .rejected
  · split
    · rename_i sequenceId thisSeg
      rw [hfind]
      split
      · exact .rejected
      · rename_i op hop
        exact .attached hop htake
    · rename_i hother
      split
      · exact .rejected
      · dsimp only
        split
        · exact .dropped hother
        · exact .created hother htake

theorem Side.preprocess_indicated (side : Side) (env : IndicationEnv) (e : Operations)
    (nsap : NSapAddr) (arg : Argument) :
    Indicated side e nsap arg (side.preprocessInvokeIndication env e nsap arg) := by
  cases side with
  | mts =>
    refine Mtsua.preprocess_indicated (fun q => ?_) Mts.takeArgument_taken
    rw [List.head?_filter]
    simp [Mts.findOperationBySequenceId, Operation.numbered]
  | ua =>
    refine Mtsua.preprocess_indicated (fun q => ?_) Ua.takeArgument_taken
    rw [List.head?_filter]
    simp [Ua.findOperationBySequenceId, Operation.numbered]

/-! ## Steps and runs -/

/-- The operation that has taken an argument still has its first segment from where it says. -/
theorem Taken.ok {seen : OperationOut} (ht : Taken e op arg seen (e', o)) (he : OperationsOk h e)
    (hop : op.performer = true → OperationOk (h ++ [seen]) op)
    (harg : ∀ sequenceId n, arg = .message (some ⟨sequenceId, .first n⟩) →
      .created op.operId op.nsap arg ∈ h ++ [seen]) :
    OperationsOk (h ++ o) e' ∧ (o = [seen] ∨ o = [.freed op.operId]) := by
  generalize hr : (e', o) = r at ht
  cases ht with
  | freed =>
    obtain ⟨rfl, rfl⟩ := Prod.mk.inj hr
    exact ⟨he.free.mono, .inr rfl⟩
  | queued hpending =>
    obtain ⟨rfl, rfl⟩ := Prod.mk.inj hr
    refine ⟨he.mono.set fun hp => ⟨fun sequenceId n hmem => ?_, (hop hp).first⟩, .inl rfl⟩
    rcases hpending _ hmem with hmem | heq
    · exact (hop hp).pending sequenceId n hmem
    · rw [heq]
      exact harg sequenceId n heq.symm

/-- The operation that another segment is put to. -/
theorem OperationsOk.attaches (he : OperationsOk h e)
    (hu : Unambiguous side e
      (.invokeIndication nsap (.message (some ⟨sequenceId, .other thisSeg⟩)) env))
    (hop : op ∈ (e.activeOperations.filter (·.numbered side nsap sequenceId)).head?) :
    op ∈ e.activeOperations ∧ FirstFrom h op.operId nsap sequenceId := by
  have hmem := List.mem_filter.1 (List.mem_of_mem_head? hop)
  have hnum : op.sequenceId = sequenceId := by
    have hnum := hmem.2
    unfold Operation.numbered at hnum
    rw [Bool.and_eq_true, decide_eq_true_eq] at hnum
    exact hnum.1
  exact ⟨hmem.1, he.firstFrom hmem.1 hnum (hu op hop)⟩

/-- **An INVOKE** keeps the operations right, and its segment goes where it belongs. -/
theorem Indicated.ok (hi : Indicated side e nsap arg (e', o)) (he : OperationsOk h e)
    (ha : Associated h) (hu : Unambiguous side e (.invokeIndication nsap arg env)) :
    OperationsOk (h ++ o) e' ∧ Associated (h ++ o) := by
  have hrejected : Associated (h ++ [.rejected]) := ha.snoc fun _ _ _ heq => by cases heq
  have hfreed : ∀ i, Associated (h ++ [.freed i]) := fun i => ha.snoc fun _ _ _ heq => by cases heq
  generalize hr : (e', o) = r at hi
  cases hi with
  | rejected =>
    obtain ⟨rfl, rfl⟩ := Prod.mk.inj hr
    exact ⟨he.mono, hrejected⟩
  | attached hop ht =>
    obtain ⟨hmem, hfirst⟩ := he.attaches hu hop
    rw [← hr] at ht
    obtain ⟨he', hout⟩ := ht.ok he (fun hp => (he _ hmem hp).mono) fun _ _ harg => by cases harg
    refine ⟨he', ?_⟩
    rcases hout with rfl | rfl
    · refine ha.snoc fun operId nsap' info heq => ?_
      cases heq
      exact hfirst
    · exact hfreed _
  | dropped hother =>
    obtain ⟨rfl, rfl⟩ := Prod.mk.inj hr
    exact ⟨(he.alloc true).free.mono, hrejected⟩
  | created hother ht =>
    rw [← hr] at ht
    obtain ⟨he', hout⟩ := ht.ok (he.alloc true)
      (fun _ => ⟨fun _ _ hmem => absurd hmem List.not_mem_nil, fun hsome => by cases hsome⟩)
      fun _ _ _ => List.mem_append_right _ (List.mem_singleton_self _)
    refine ⟨he', ?_⟩
    rcases hout with rfl | rfl
    · exact ha.snoc fun _ _ _ heq => by cases heq
    · exact hfreed _

theorem step_ok {i : OperationInput} (he : OperationsOk h e) (ha : Associated h)
    (hu : Unambiguous side e i) (hs : (operations side).step e i = some (e', o)) :
    OperationsOk (h ++ o) e' ∧ Associated (h ++ o) := by
  have hstep : e.step side i = (e', o) := Option.some.inj hs
  cases i with
  | invokeIndication nsap arg env =>
    have hi := side.preprocess_indicated env e nsap arg
    rw [show side.preprocessInvokeIndication env e nsap arg = (e', o) from hstep] at hi
    exact hi.ok he ha hu
  | readInvoke operId =>
    obtain ⟨rfl, rfl⟩ := Prod.mk.inj hstep
    rw [List.append_nil]
    refine ⟨he.modify fun op hop hp => ?_, ha⟩
    by_cases hperf : op.performer = true
    · rw [if_pos hperf]
      exact (he op hop hperf).readInvoke
    · rw [if_neg hperf] at hp
      exact absurd hp hperf
  | messageRequest nsap ok =>
    have hstep' : e.messageRequest nsap ok = (e', o) := hstep
    unfold Operations.messageRequest at hstep'
    rcases ok with _ | _
    · obtain ⟨rfl, rfl⟩ := Prod.mk.inj hstep'
      rw [List.append_nil]
      exact ⟨(he.alloc false).free, ha⟩
    · obtain ⟨rfl, rfl⟩ := Prod.mk.inj hstep'
      refine ⟨OperationsOk.mono ((he.alloc false).set fun hp => by cases hp), ?_⟩
      exact ha.snoc fun _ _ _ heq => by cases heq
  | startSending operId segments =>
    have hstep' : (e.startSending operId segments, []) = (e', o) := hstep
    obtain ⟨rfl, rfl⟩ := Prod.mk.inj hstep'
    rw [List.append_nil]
    refine ⟨?_, ha⟩
    unfold Operations.startSending
    split
    · refine he.modify (f := fun o => if o.performer then o else _) fun op hop hp => ?_
      by_cases hperf : op.performer = true
      · rw [if_pos hperf]
        exact he op hop hperf
      · rw [if_neg hperf] at hp
        exact absurd hp hperf
    · exact he
  | freeOperation operId =>
    obtain ⟨rfl, rfl⟩ := Prod.mk.inj hstep
    exact ⟨he.free.mono, ha.snoc fun _ _ _ heq => by cases heq⟩

/-- **A segment is put only to an inbound operation** that a first segment with the same sequence
number from the same NSAP has created; else it is rejected, and no operation changes. The second part
is about the next segment: at most the operation that it belongs to changes. -/
theorem segment_association (side : Side) {e : Operations} {h : List OperationOut}
    (hr : Run.Reach (operations side) (Unambiguous side) h e) :
    Associated h ∧ ∀ nsap sequenceId thisSeg env,
      Unambiguous side e
        (.invokeIndication nsap (.message (some ⟨sequenceId, .other thisSeg⟩)) env) →
      let r := side.preprocessInvokeIndication env e nsap
        (.message (some ⟨sequenceId, .other thisSeg⟩))
      r = (e, [.rejected]) ∨ ∃ op ∈ e.activeOperations,
        FirstFrom h op.operId nsap sequenceId ∧
          ∀ op' ∈ e.activeOperations, op'.operId ≠ op.operId → op' ∈ r.1.activeOperations := by
  obtain ⟨he, ha⟩ : OperationsOk h e ∧ Associated h := by
    refine Run.Reach.invariant_hist (P := fun e h => OperationsOk h e ∧ Associated h)
      (fun e hi => ?_) (fun _ _ _ _ _ hinv hu hs => step_ok hinv.1 hinv.2 hu hs) hr
    obtain rfl : e = {} := hi
    exact ⟨fun op hop => absurd hop List.not_mem_nil, .nil⟩
  refine ⟨ha, fun nsap sequenceId thisSeg env hu => ?_⟩
  have hi := side.preprocess_indicated env e nsap
    (.message (some ⟨sequenceId, .other thisSeg⟩))
  generalize side.preprocessInvokeIndication env e nsap
    (.message (some ⟨sequenceId, .other thisSeg⟩)) = r at hi
  cases hi with
  | rejected => exact .inl rfl
  | @attached _ _ op _ hop ht =>
    obtain ⟨hmem, hfirst⟩ := he.attaches hu hop
    refine .inr ⟨op, hmem, hfirst, fun op' hop' hne => ?_⟩
    cases ht with
    | freed => exact List.mem_filter.2 ⟨hop', decide_eq_true hne⟩
    | queued _ => exact List.mem_map.2 ⟨op', hop', if_neg hne⟩
  | dropped hother => exact absurd rfl (hother sequenceId thisSeg)
  | created hother _ => exact absurd rfl (hother sequenceId thisSeg)

/-- The argument of a segment. -/
def segment (sequenceId : Nat) (choice : SegmentChoice) : Argument :=
  .message (some ⟨sequenceId, choice⟩)

/-- Two segments of three from one device. -/
theorem segment_association_second : ∃ e h,
    Run.Reach (operations .mts) (Unambiguous .mts) h e ∧
      .attached 1 [10, 0, 0, 1] ⟨5, .other 1⟩ ∈ h ∧ Associated h ∧
      let r := Side.mts.preprocessInvokeIndication {} e [10, 0, 0, 1] (segment 5 (.other 2))
      r = (e, [.rejected]) ∨ ∃ op ∈ e.activeOperations, FirstFrom h op.operId [10, 0, 0, 1] 5 ∧
        ∀ op' ∈ e.activeOperations, op'.operId ≠ op.operId → op' ∈ r.1.activeOperations := by
  have hb : ∀ e i, decide (Unambiguous .mts e i) = true → Unambiguous .mts e i := fun _ _ hb =>
    of_decide_eq_true hb
  obtain ⟨e, h, hr, hp⟩ := Run.Reach.of_run (S := operations .mts) (s := {}) hb rfl
    [.invokeIndication [10, 0, 0, 1] (segment 5 (.first 3)) {}, .readInvoke 1,
      .invokeIndication [10, 0, 0, 1] (segment 5 (.other 1)) {}]
    (fun e h => decide (.attached 1 [10, 0, 0, 1] ⟨5, .other 1⟩ ∈ h) &&
      decide (Unambiguous .mts e (.invokeIndication [10, 0, 0, 1] (segment 5 (.other 2)) {})))
    (by decide +kernel)
  rw [Bool.and_eq_true, decide_eq_true_eq, decide_eq_true_eq] at hp
  obtain ⟨ha, hnext⟩ := segment_association .mts hr
  exact ⟨e, h, hr, hp.1, ha, hnext [10, 0, 0, 1] 5 2 {} hp.2⟩

/-- A message for a device is in delivery, and a segment with the number zero comes from it. -/
theorem segment_misattached :
    ∃ e h, Run.Reach (operations .mts) Run.any h e ∧ ¬Associated h := by
  obtain ⟨e, h, hr, hp⟩ := Run.Reach.of_run_any (S := operations .mts) (s := {}) rfl
    [.messageRequest [10, 0, 0, 1] true,
      .invokeIndication [10, 0, 0, 1] (segment 0 (.other 1)) {}]
    (fun _ h => decide (h = [.originated 1 [10, 0, 0, 1], .attached 1 [10, 0, 0, 1] ⟨0, .other 1⟩]))
    (by decide +kernel)
  obtain rfl := of_decide_eq_true hp
  refine ⟨e, _, hr, fun ha => ?_⟩
  obtain ⟨n, nsap', -, hmem⟩ := ha [.originated 1 [10, 0, 0, 1]] 1 [10, 0, 0, 1] ⟨0, .other 1⟩
    (List.prefix_refl _)
  cases List.mem_singleton.1 hmem

end Mtsua
