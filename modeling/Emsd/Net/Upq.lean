import Emsd.Lib.Run
import Emsd.Lib.Chunks
import Emsd.Ocp.Data

/-!
# The queues between the shells (`imq.c`, `psq.c`, `usq.c`)

A queue is a stream socket: the action queue from the user shell to the provider shell, or the event
queue back. The writer puts a primitive or an event on it with one `write`, the reader handles what
one `read` gives as one of them.

* `transported`: **each primitive is handled once**, in order and as it was written, in every run in
  which each read gives exactly one of them; and the first read that does not ends this.
* `confirms_run_together`: two events that one read gives.
-/

namespace Net

open Ocp

/-- One queue, with what has been written on it and what has been handled. -/
structure PrimQu where
  stream : Octets := []
  written : List Octets := []
  processed : List Octets := []

/-- The inputs; the socket decides how many octets a call moves. -/
inductive PrimQuInput
  /-- `USQ_putAction`, `PSQ_putEvent`: `IMQ_primSnd` of `data` -/
  | primSnd (data : Octets) (accepted : Nat)
  /-- `psq_schedActionQu`, `lous_getEvent`: `IMQ_primRcv`, and the provider or the user handles it -/
  | primRcv (size : Nat)
  deriving DecidableEq, Repr

/-- One call. The reader's buffer has `bufSize` octets. -/
def PrimQu.step (bufSize : Nat) (q : PrimQu) : PrimQuInput → Option (PrimQu × List Octets)
  | .primSnd data accepted =>
    if data ≠ [] ∧ accepted ≤ data.length then
      some ({ q with
        stream := q.stream ++ data.take accepted
        written := q.written ++ [data] }, [])
    else none
  | .primRcv size =>
    if 0 < size ∧ size ≤ bufSize ∧ size ≤ q.stream.length then
      let data := q.stream.take size
      some ({ q with
        stream := q.stream.drop size
        processed := q.processed ++ [data] }, [data])
    else none

/-- A queue from its creation on. -/
def primQu (bufSize : Nat) : Run.Sys PrimQu PrimQuInput Octets where
  init q := q = {}
  step := PrimQu.step bufSize

/-- **Each primitive is handled once**, in the order written and with its octets; those that are not
are on the stream. -/
structure Transported (q : PrimQu) : Prop where
  octets : q.processed.flatten ++ q.stream = q.written.flatten
  order : q.processed <+: q.written
  all : q.stream = [] → q.processed = q.written

/-- The call moves one primitive, the whole of it. -/
def Whole (q : PrimQu) : PrimQuInput → Prop
  | .primSnd data accepted => accepted = data.length
  | .primRcv size => q.written[q.processed.length]?.map List.length = some size

instance (q : PrimQu) (i : PrimQuInput) : Decidable (Whole q i) := by
  cases i <;> unfold Whole <;> infer_instance

variable {bufSize : Nat} {q r : PrimQu} {i : PrimQuInput} {o h : List Octets}

/-- What is written is never empty. -/
def Written (q : PrimQu) : Prop := ∀ m ∈ q.written, m ≠ []

theorem Written.step (hw : Written q) (hs : (primQu bufSize).step q i = some (r, o)) :
    Written r := by
  cases i with
  | primSnd data accepted =>
    unfold primQu PrimQu.step at hs
    dsimp only at hs
    split at hs
    · rename_i hok
      cases hs
      intro m hm
      rcases List.mem_append.1 hm with hm | hm
      · exact hw m hm
      · rw [List.mem_singleton.1 hm]
        exact hok.1
    · cases hs
  | primRcv size =>
    unfold primQu PrimQu.step at hs
    dsimp only at hs
    split at hs
    · cases hs
      exact hw
    · cases hs

theorem transported_cut (hw : Written q) :
    Transported q ↔ Chunks.Cut q.written q.processed q.stream := by
  constructor
  · intro ht
    exact ⟨ht.octets, ht.order⟩
  · intro hc
    exact ⟨hc.octets, hc.whole, hc.drained hw⟩

/-- **A call** keeps this if and only if it moves one primitive, the whole of it. -/
theorem Transported.step_iff (ht : Transported q) (hw : Written q)
    (hs : (primQu bufSize).step q i = some (r, o)) : Transported r ↔ Whole q i := by
  have hc := (transported_cut hw).1 ht
  rw [transported_cut (hw.step hs)]
  cases i with
  | primSnd data accepted =>
    unfold primQu PrimQu.step at hs
    dsimp only at hs
    split at hs
    · rename_i hok
      cases hs
      exact hc.put_iff hok.2
    · cases hs
  | primRcv size =>
    unfold primQu PrimQu.step at hs
    dsimp only at hs
    split at hs
    · rename_i hok
      cases hs
      exact hc.take_iff hok.1 hok.2.2
    · cases hs

/-- **Each primitive is handled once**, in order and as it was written, in every run in which each
call moves one primitive, the whole of it; the first call that does not ends this. -/
theorem transported (hr : Run.Reach (primQu bufSize) Whole h q) :
    Transported q ∧ ∀ i r o, (primQu bufSize).step q i = some (r, o) →
      (Transported r ↔ Whole q i) := by
  have hinv : Transported q ∧ Written q := by
    refine Run.Reach.invariant (P := fun q => Transported q ∧ Written q) ?_ ?_ hr
    · rintro q rfl
      exact ⟨⟨rfl, List.prefix_refl _, fun _ => rfl⟩, fun m hm => absurd hm List.not_mem_nil⟩
    · intro q i r o hq hok hs
      exact ⟨(hq.1.step_iff hq.2 hs).2 hok, hq.2.step hs⟩
  exact ⟨hinv.1, fun i r o hs => hinv.1.step_iff hinv.2 hs⟩

/-- Two events of different sizes, each read by itself. -/
theorem transported_two : ∃ q h, Run.Reach (primQu 8) Whole h q ∧ q.processed = [[1], [2, 3]] ∧
    Transported q := by
  obtain ⟨q, h, hr, hp⟩ := Run.Reach.of_run (S := primQu 8) (b := fun q i => decide (Whole q i))
    (fun _ _ hb => of_decide_eq_true hb) (s := {}) rfl
    [.primSnd [1] 1, .primSnd [2, 3] 2, .primRcv 1, .primRcv 2]
    (fun q _ => decide (q.processed = [[1], [2, 3]])) (by decide)
  exact ⟨q, h, hr, of_decide_eq_true hp, (transported hr).1⟩

/-- Two events are written before the first one is read: one read gives both, and the reader handles
them as one. -/
theorem confirms_run_together : ∃ q h, Run.Reach (primQu 8) Run.any h q ∧
    q.written = [[1], [2, 3]] ∧ q.processed = [[1, 2, 3]] ∧ q.stream = [] ∧ ¬Transported q := by
  obtain ⟨q, h, hr, hp⟩ := Run.Reach.of_run_any (S := primQu 8) (s := {}) rfl
    [.primSnd [1] 1, .primSnd [2, 3] 2, .primRcv 3]
    (fun q _ => decide (q.written = [[1], [2, 3]] ∧ q.processed = [[1, 2, 3]] ∧ q.stream = []))
    (by decide)
  obtain ⟨hwritten, hprocessed, hstream⟩ := of_decide_eq_true hp
  refine ⟨q, h, hr, hwritten, hprocessed, hstream, ?_⟩
  intro ht
  have hall := ht.all hstream
  rw [hwritten, hprocessed] at hall
  exact absurd hall (by decide)

end Net
