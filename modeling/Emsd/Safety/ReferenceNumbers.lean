import Emsd.Proof.References

/-!
# Reference numbers are unique

In every engine that is reached, no two entries of a reference map have one number and one
address, so that a look-up by number and address is a function (`reference_numbers`); and
`erop_refNew` finds a free number if there is one.
-/

namespace Erop

open Ocp Run

variable {cfg : Config} {e : Engine} {map : RefMap} {performing : Bool}

/-- A look-up by number and address is unambiguous: it finds an `InvokeInfo` exactly when that is
filed under the number and has the address. -/
def Unambiguous (map : RefMap) (nsapOf : InvokeId → NSapAddr)
    (lookup : Int → NSapAddr → Option InvokeId) : Prop :=
  ∀ refNu nsap i, lookup refNu nsap = some i ↔
    ∃ r : Nat, refNu = r ∧ r < totalRefNumbers ∧ i ∈ map r ∧ nSapAddrCmp (nsapOf i) nsap = 0

theorem MapOk.unambiguous (h : MapOk e performing map) :
    Unambiguous map e.nsapOf (refTo map e.nsapOf) := by
  intro refNu nsap i
  refine ⟨refTo_some, ?_⟩
  rintro ⟨r, rfl, hlt, hi, hc⟩
  obtain ⟨v, hv, -⟩ := h.live r i hi
  refine h.refTo_eq hlt hi hv ?_
  simpa [Engine.nsapOf, hv] using hc

/-- At most one entry per number and address. -/
def Unique (map : RefMap) (nsapOf : InvokeId → NSapAddr) : Prop :=
  ∀ r, (map r).Pairwise fun i j => nSapAddrCmp (nsapOf i) (nsapOf j) ≠ 0

/-- `erop_refNew` returns a number that is not in use for the address of the invoker `v`, and fails
only when all are. -/
structure RefNewOk (t : RefTables) (nsapOf : InvokeId → NSapAddr) (i : InvokeId) (v : InvokeInfo) :
    Prop where
  free : (refNew t nsapOf i v).2 ≠ -1 → ∃ r : Nat, (refNew t nsapOf i v).2 = r ∧ r < totalRefNumbers ∧
    inUse nsapOf (t.invoker r) v.remNsapAddr = false
  exhausted : (refNew t nsapOf i v).2 = -1 →
    ∀ r, r < totalRefNumbers → inUse nsapOf (t.invoker r) v.remNsapAddr = true

theorem refNewOk {t : RefTables} {nsapOf : InvokeId → NSapAddr} {i : InvokeId} {v : InvokeInfo}
    (hp : v.performingNotInvoking = false) : RefNewOk t nsapOf i v where
  free hne := by
    rcases refNew_cases t nsapOf i v with ⟨hf, -⟩ | ⟨r, hr, hlt, -, hfree, -⟩
    · exact absurd hf hne
    · exact ⟨r, hr, hlt, hfree⟩
  exhausted := refNew_exhausted hp

/-- **Reference numbers are unique** in every engine that is reached, look-ups by number and
address are unambiguous, and `erop_refNew` is exhaustive over any maps. -/
theorem reference_numbers {hist : List Out} (hr : Reach (engine cfg) Run.any hist e) :
    (Unique e.refs.invoker e.nsapOf ∧ Unique e.refs.performer e.nsapOf) ∧
      (Unambiguous e.refs.invoker e.nsapOf (refToInvoker e.refs e.nsapOf) ∧
        Unambiguous e.refs.performer e.nsapOf (refToPerformer e.refs e.nsapOf)) ∧
      ∀ t nsapOf i (v : InvokeInfo), v.performingNotInvoking = false → RefNewOk t nsapOf i v := by
  obtain ⟨hi, hp⟩ := (WF.reach hr).refs
  exact ⟨⟨hi.uniq, hp.uniq⟩, ⟨hi.unambiguous, hp.unambiguous⟩, fun _ _ _ _ => refNewOk⟩

/-- A SAP with an invocation that it has asked for. -/
def requestRun : List Input :=
  [⟨.sapBind 1 3, {}⟩, ⟨.invokeReq 1 ⟨7, 2, [], [10, 0, 0, 1], 5, .ber, some [42]⟩, {}⟩]

theorem reference_numbers_requestRun : ∃ e : Engine, e.refs.invoker 1 = [0] ∧
    Unique e.refs.invoker e.nsapOf ∧
    Unambiguous e.refs.invoker e.nsapOf (refToInvoker e.refs e.nsapOf) := by
  obtain ⟨e, hist, hr, he⟩ := Reach.of_run_any (S := engine {}) ⟨0, rfl⟩ requestRun
    (fun e _ => e.refs.invoker 1 = [0]) (by decide)
  have h := reference_numbers hr
  exact ⟨e, by simpa using he, h.1.1, h.2.1.1⟩

end Erop
