import Mathlib.Data.List.Basic
import Mathlib.Tactic.Common

/-!
# Something to wait for

A machine that answers events goes on as long as something will bring it one: a timer, a request
that is going to be answered, or an event in its queue. In a given state some events are passed
over, and the answers to some requests with them.

* `Awaits`: there is a timer, a request or an event that the machine does not pass over.
* `Awaits.tail`, `Awaits.answered`: it survives the events and answers that are passed over.
* `Awaits.ended`: it survives the end of a request that brings an event, or is not needed.
-/

namespace Waiting

variable {ε ρ : Type*} {wakes wakes' : ε → Bool} {answers answers' : ρ → Bool} {timer timer' : Bool}
  {e : ε} {r : ρ} {events events' : List ε} {requests requests' : List ρ}

/-- A timer runs, or there is a request whose answer the machine needs, or an event that it needs. -/
def Awaits (wakes : ε → Bool) (answers : ρ → Bool) (timer : Bool) (events : List ε)
    (requests : List ρ) : Prop :=
  timer = true ∨ (∃ r ∈ requests, answers r = true) ∨ ∃ e ∈ events, wakes e = true

instance : Decidable (Awaits wakes answers timer events requests) :=
  inferInstanceAs (Decidable (_ ∨ _))

namespace Awaits

theorem timed (h : timer = true) : Awaits wakes answers timer events requests := .inl h

theorem asked (hr : r ∈ requests) (ha : answers r = true) :
    Awaits wakes answers timer events requests := .inr (.inl ⟨r, hr, ha⟩)

theorem woken (he : e ∈ events) (hw : wakes e = true) :
    Awaits wakes answers timer events requests := .inr (.inr ⟨e, he, hw⟩)

/-- More of everything. -/
theorem mono (h : Awaits wakes answers timer events requests) (ht : timer = true → timer' = true)
    (he : ∀ e ∈ events, wakes e = true → e ∈ events' ∧ wakes' e = true)
    (hr : ∀ r ∈ requests, answers r = true → r ∈ requests' ∧ answers' r = true) :
    Awaits wakes' answers' timer' events' requests' := by
  rcases h with h | ⟨r, hmem, ha⟩ | ⟨e, hmem, hw⟩
  · exact .timed (ht h)
  · exact .asked (hr r hmem ha).1 (hr r hmem ha).2
  · exact .woken (he e hmem hw).1 (he e hmem hw).2

/-- More events and more requests. -/
theorem grow (h : Awaits wakes answers timer events requests) (he : events ⊆ events')
    (hr : requests ⊆ requests') : Awaits wakes answers timer events' requests' :=
  h.mono id (fun _ hmem hw => ⟨he hmem, hw⟩) fun _ hmem ha => ⟨hr hmem, ha⟩

/-- An event that is passed over. -/
theorem tail (h : Awaits wakes answers timer (e :: events) requests) (he : wakes e = false) :
    Awaits wakes answers timer events requests := by
  refine h.mono id (fun x hx hw => ?_) fun r hr ha => ⟨hr, ha⟩
  rcases List.mem_cons.1 hx with rfl | hx
  · rw [he] at hw
    cases hw
  · exact ⟨hx, hw⟩

/-- Answers that are passed over. -/
theorem answered [DecidableEq ρ] {concluded : List ρ}
    (h : Awaits wakes answers timer events requests) (hc : ∀ r ∈ concluded, answers r = false) :
    Awaits wakes answers timer events (requests.filter (· ∉ concluded)) := by
  refine h.mono id (fun e he hw => ⟨he, hw⟩) fun r hr ha => ⟨List.mem_filter.2 ⟨hr, ?_⟩, ha⟩
  refine decide_eq_true fun hmem => ?_
  rw [hc r hmem] at ha
  cases ha

/-- **The end of some requests.** `found`: they are the machine's own. The event that they bring takes
it on, or they are passed over; and when it is lost there is something else. -/
theorem ended [DecidableEq ρ] {concluded : List ρ} {found event : Prop} [Decidable (found ∧ event)]
    (h : Awaits wakes answers timer events requests)
    (hown : ¬found → ∀ r ∈ concluded, answers r = false)
    (hevt : wakes e = true ∨ ∀ r ∈ concluded, answers r = false)
    (hc : found → event ∨ Awaits wakes answers timer events (requests.filter (· ∉ concluded))) :
    Awaits wakes answers timer (events ++ if found ∧ event then [e] else [])
      (requests.filter (· ∉ concluded)) := by
  have hmore := List.subset_append_left events (if found ∧ event then [e] else [])
  by_cases hf : found
  · rcases hc hf with he | hw
    · rw [if_pos ⟨hf, he⟩] at hmore ⊢
      rcases hevt with hw | hpass
      · exact .woken (List.mem_append_right _ (List.mem_singleton_self e)) hw
      · exact (h.answered hpass).grow hmore (List.Subset.refl _)
    · exact hw.grow hmore (List.Subset.refl _)
  · exact (h.answered (hown hf)).grow hmore (List.Subset.refl _)

end Awaits

end Waiting
