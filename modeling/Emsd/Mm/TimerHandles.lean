import Emsd.Lib.Agenda
import Emsd.Mm.TimerObjects

/-!
# The handles of timer objects (`mm_/hosted/entity.c`)

* `timerObjects_kept`: **an object has at most one timer, and a handle as long as it is pending**, in every
  run in which none is started or stopped while its timer is pending; and a step that does either ends
  this. Where only a second start and a second stop are avoided, a stop still stops what has been
  started for the object, and nothing expires after it.
* `stop_of_another`: stopped twice, an object stops the timer of another module; started twice and
  stopped, it expires.
-/

namespace Mm

open Tmr (Timer)

namespace TimerObjects

variable {s t : TimerObjects} {x : Input} {o : List Out} {i : ObjectId}
  {log : List (Input × List Out)}

/-! ## What is claimed -/

/-- Each object has at most one timer pending, and a handle as long as it is. -/
def Tidy (s : TimerObjects) : Prop :=
  ∀ i, (s.pending i).length ≤ 1 ∧ (s.handle i ≠ 0 ↔ s.pending i ≠ [])

/-- An entry of the record: the object is started, or is stopped, with success. -/
def Starts (i : ObjectId) (e : Input × List Out) : Prop :=
  (∃ milliseconds address, e.1 = .startObject i milliseconds address) ∧ .result .success ∈ e.2

def Stops (i : ObjectId) (e : Input × List Out) : Prop :=
  e.1 = .stopObject i ∧ .result .success ∈ e.2

/-- The timer has been started for the object. -/
def StartedFor (i : ObjectId) (u : Timer) (log : List (Input × List Out)) : Prop :=
  ∃ e ∈ log, Starts i e ∧ .service (.started u) ∈ e.2

/-- The object has been stopped, and not been started since. -/
def Stopped (i : ObjectId) (log : List (Input × List Out)) : Prop :=
  ∃ before e after, log = before ++ e :: after ∧ Stops i e ∧ ∀ f ∈ after, ¬Starts i f

/-- What is asked of an entry after the entries before it: no object expires that has been stopped and
not been started since, and a stop stops what has been started for its object. -/
def Right (log : List (Input × List Out)) (e : Input × List Out) : Prop :=
  (∀ i, .timerExpiry i ∈ e.2 → ¬Stopped i log) ∧
    ∀ i u, e.1 = .stopObject i → .service (.stopped u) ∈ e.2 → StartedFor i u log

/-- **The timers of the objects are safe.** -/
structure Safe (s : TimerObjects) (log : List (Input × List Out)) : Prop where
  single : ∀ i, (s.pending i).length ≤ 1
  held : ∀ i, ∀ u ∈ s.pending i, s.handle i ≠ 0 ∧ s.handle i = s.address u.hTimer
  right : Agenda.Always Right log

/-- **An object has a handle just as long as its timer is pending.** -/
structure Kept (s : TimerObjects) (log : List (Input × List Out)) : Prop extends Safe s log where
  tidy : s.Tidy

/-! ## The conditions -/

/-- No object is started or stopped while its timer is pending. -/
def Careful (s : TimerObjects) : Input → Prop
  | .startObject i _ address => s.pending i = [] ∨ address = 0
  | .stopObject i => s.pending i = []
  | _ => True

/-- No object is started while its timer is pending; none is stopped that has a handle and no timer,
which is one that has been stopped since it was started. -/
def Guarded (s : TimerObjects) : Input → Prop
  | .startObject i _ address => s.pending i = [] ∨ address = 0
  | .stopObject i => s.pending i = [] → s.handle i = 0
  | _ => True

instance (s : TimerObjects) : ∀ x, Decidable (s.Careful x)
  | .startObject .. => inferInstanceAs (Decidable (_ ∨ _))
  | .stopObject _ => inferInstanceAs (Decidable (_ = _))
  | .pass _ | .start .. | .stop _ | .processQueue _ | .handlerReturns .. =>
    inferInstanceAs (Decidable True)

instance (s : TimerObjects) : ∀ x, Decidable (s.Guarded x)
  | .startObject .. => inferInstanceAs (Decidable (_ ∨ _))
  | .stopObject _ => inferInstanceAs (Decidable (_ → _))
  | .pass _ | .start .. | .stop _ | .processQueue _ | .handlerReturns .. =>
    inferInstanceAs (Decidable True)

/-! ## The record -/

variable {e : Input × List Out} {p : Timer}

theorem StartedFor.append (h : StartedFor i p log) : StartedFor i p (log ++ [e]) := by
  obtain ⟨f, hf, hstarts, hp⟩ := h
  exact ⟨f, List.mem_append_left _ hf, hstarts, hp⟩

/-- An object that is stopped after an entry is stopped by it, or was before and is not started by it. -/
theorem Stopped.of_append (h : Stopped i (log ++ [e])) : Stops i e ∨ Stopped i log ∧ ¬Starts i e := by
  obtain ⟨before, f, after, heq, hstops, hafter⟩ := h
  rcases List.eq_nil_or_concat after with rfl | ⟨after, g, rfl⟩
  · obtain ⟨-, hlast⟩ := List.append_inj' heq rfl
    obtain rfl := List.singleton_inj.1 hlast
    exact .inl hstops
  · rw [List.concat_eq_append, ← List.cons_append, ← List.append_assoc] at heq
    obtain ⟨rfl, hlast⟩ := List.append_inj' heq rfl
    obtain rfl := List.singleton_inj.1 hlast
    rw [List.concat_eq_append] at hafter
    exact .inr ⟨⟨before, f, after, rfl, hstops, fun g hg => hafter g (List.mem_append_left _ hg)⟩,
      hafter e (List.mem_append_right _ List.mem_cons_self)⟩

/-! ## The invariant -/

/-- **What every guarded step keeps.** -/
structure Sound (s : TimerObjects) (log : List (Input × List Out)) : Prop extends Placed s where
  single : ∀ i p q, s.Pending i p → s.Pending i q → p = q
  held : ∀ i p, s.Pending i p → s.handle i = s.address p.hTimer
  typed : ∀ i p, s.Pending i p →
    ∃ pObject, s.mm.managableObjects[i]? = some pObject ∧ pObject.contents.objectType = .timer
  started : ∀ i p, s.Pending i p → StartedFor i p log
  stopped : ∀ i, Stopped i log → ∀ p, ¬s.Pending i p
  right : Agenda.Always Right log

/-- A handle for each object that has one. -/
def Cleared (s : TimerObjects) : Prop := ∀ i, s.handle i ≠ 0 → ∃ p, s.Pending i p

theorem Sound.nonzero (hs : Sound s log) (hp : s.Pending i p) : s.handle i ≠ 0 := by
  rw [hs.held i p hp]
  exact (hs.numbered p (mem_allocated hp.1)).2

theorem Sound.length (hs : Sound s log) (i : ObjectId) : (s.pending i).length ≤ 1 := by
  have hnodup : (s.pending i).Nodup := hs.nodup.filter _
  match hq : s.pending i with
  | [] => exact Nat.zero_le 1
  | [p] => exact Nat.le_refl 1
  | p :: q :: rest =>
    rw [hq] at hnodup
    have hp : s.Pending i p := mem_pending.1 (by rw [hq]; exact List.mem_cons_self)
    have hq' : s.Pending i q :=
      mem_pending.1 (by rw [hq]; exact List.mem_cons_of_mem _ List.mem_cons_self)
    obtain rfl := hs.single i p q hp hq'
    exact absurd List.mem_cons_self (List.nodup_cons.1 hnodup).1

theorem Sound.safe (hs : Sound s log) : Safe s log where
  single := hs.length
  held i p hp := by
    have hpending := mem_pending.1 hp
    exact ⟨hs.nonzero hpending, hs.held i p hpending⟩
  right := hs.right

theorem Sound.tidy (hs : Sound s log) (hc : s.Cleared) : s.Tidy := by
  refine fun i => ⟨hs.length i, fun hne => ?_, fun hne => ?_⟩
  · obtain ⟨p, hp⟩ := hc i hne
    exact List.ne_nil_of_mem (mem_pending.2 hp)
  · obtain ⟨p, hp⟩ := List.exists_mem_of_ne_nil _ hne
    exact hs.nonzero (mem_pending.1 hp)

theorem stops_object (h : Stops i (x, o)) : x.object = some i := by
  obtain ⟨rfl, -⟩ := h
  rfl

/-- **Objects expire.** -/
theorem Sound.expires (hs : Sound s log) (he : Expires s t o) (hx : x.object = none) :
    Sound t (log ++ [(x, o)]) where
  toPlaced := hs.toPlaced.less he.toLess
  single i p q hp hq := hs.single i p q (he.pending hp) (he.pending hq)
  held i p hp := by
    have hp' := he.pending hp
    have hout : .timerExpiry i ∉ o := by
      -- its only timer would have gone
      intro hout
      obtain ⟨-, q, hq, hgone⟩ := he.expired i hout
      obtain rfl := hs.single i p q hp' hq
      exact hgone hp.1
    rw [(he.kept i hout).1, he.address]
    exact hs.held i p hp'
  typed i p hp := by
    rw [he.objects]
    exact hs.typed i p (he.pending hp)
  started i p hp := (hs.started i p (he.pending hp)).append
  stopped i h p hp := by
    rcases h.of_append with hstops | ⟨hstopped, -⟩
    · have hobject := stops_object hstops
      rw [hx] at hobject
      cases hobject
    · exact hs.stopped i hstopped p (he.pending hp)
  right := by
    refine hs.right.concat ⟨fun i hi hstopped => ?_, fun i p hstop => ?_⟩
    · obtain ⟨-, p, hp, -⟩ := he.expired i hi
      exact hs.stopped i hstopped p hp
    · obtain rfl : x = .stopObject i := hstop
      cases hx

/-- **A timer is started**, for an object that has none or for another module. -/
theorem Sound.start (hs : Sound s log) {owner : Option ObjectId} {address : ℕ}
    (hfree : s.Free address) (h : Started s t p owner address)
    (hnone : ∀ i, owner = some i → ∀ q, ¬s.Pending i q)
    (hhandle : ∀ i, t.handle i = if owner = some i then address else s.handle i)
    (htyped : ∀ i, owner = some i →
      ∃ pObject, s.mm.managableObjects[i]? = some pObject ∧ pObject.contents.objectType = .timer)
    (hstarts : ∀ i, owner = some i → Starts i (x, o) ∧ .service (.started p) ∈ o)
    (hstops : ∀ i, ¬Stops i (x, o)) (hx : ∀ i, x ≠ .stopObject i) (hout : ∀ i, .timerExpiry i ∉ o) :
    Sound t (log ++ [(x, o)]) where
  toPlaced := hs.toPlaced.started hfree h
  single i q r hq hr := by
    rcases (h.pending hs.toPlaced).1 hq with ⟨rfl, howner⟩ | hq
    · rcases (h.pending hs.toPlaced).1 hr with ⟨rfl, -⟩ | hr
      · rfl
      · -- the object has had no timer
        exact absurd hr (hnone i howner r)
    · rcases (h.pending hs.toPlaced).1 hr with ⟨rfl, howner⟩ | hr
      · exact absurd hq (hnone i howner q)
      · exact hs.single i q r hq hr
  held i q hq := by
    rw [hhandle]
    rcases (h.pending hs.toPlaced).1 hq with ⟨rfl, howner⟩ | hq
    · rw [if_pos howner, h.new.1]
    · rw [if_neg fun howner => hnone i howner q hq, (h.old hs.toPlaced (mem_allocated hq.1)).1]
      exact hs.held i q hq
  typed i q hq := by
    rw [h.objects]
    rcases (h.pending hs.toPlaced).1 hq with ⟨-, howner⟩ | hq
    · exact htyped i howner
    · exact hs.typed i q hq
  started i q hq := by
    rcases (h.pending hs.toPlaced).1 hq with ⟨rfl, howner⟩ | hq
    · obtain ⟨hstart, hmem⟩ := hstarts i howner
      exact ⟨_, List.mem_append_right _ List.mem_cons_self, hstart, hmem⟩
    · exact (hs.started i q hq).append
  stopped i hstopped q hq := by
    rcases hstopped.of_append with hstop | ⟨hstopped, hnot⟩
    · exact hstops i hstop
    · rcases (h.pending hs.toPlaced).1 hq with ⟨-, howner⟩ | hq
      · -- this entry starts it
        exact hnot (hstarts i howner).1
      · exact hs.stopped i hstopped q hq
  right := hs.right.concat ⟨fun i hi => absurd hi (hout i), fun i _ hstop => absurd hstop (hx i)⟩

/-- **An object is stopped.** -/
theorem Sound.stop (hs : Sound s log) (hp : s.Pending i p) :
    Sound { s with service.timerQHead := s.service.timerQHead.erase p }
      (log ++ [(.stopObject i, [.service (.stopped p), .result .success])]) where
  toPlaced := hs.toPlaced.less (erase_less p)
  single j q r hq hr := hs.single j q r ((erase_less p).pending hq) ((erase_less p).pending hr)
  held j q hq := hs.held j q ((erase_less p).pending hq)
  typed j q hq := hs.typed j q ((erase_less p).pending hq)
  started j q hq := (hs.started j q ((erase_less p).pending hq)).append
  stopped j hstopped q hq := by
    have hq' := (erase_less p).pending hq
    rcases hstopped.of_append with hstop | ⟨hstopped, -⟩
    · obtain rfl : i = j := Input.stopObject.inj hstop.1
      -- it had this one only
      obtain rfl := hs.single i p q hp hq'
      exact hs.nodup.not_mem_erase hq.1
    · exact hs.stopped j hstopped q hq'
  right := by
    refine hs.right.concat ⟨fun j hj => ?_, fun j q hstop hq => ?_⟩
    · simp at hj
    · obtain rfl : i = j := Input.stopObject.inj hstop
      obtain rfl : q = p := by simpa using hq
      exact hs.started i q hp

/-- A call has changed nothing. -/
theorem Sound.unchanged (hs : Sound s log) {rc : ReturnCode}
    (hstops : ∀ i, Stops i (x, [.result rc]) → ∀ p, ¬s.Pending i p) :
    Sound s (log ++ [(x, [.result rc])]) where
  toPlaced := hs.toPlaced
  single := hs.single
  held := hs.held
  typed := hs.typed
  started i p hp := (hs.started i p hp).append
  stopped i h p hp := by
    rcases h.of_append with hstop | ⟨hstopped, -⟩
    · exact hstops i hstop p hp
    · exact hs.stopped i hstopped p hp
  right := by
    refine hs.right.concat ⟨fun i hi => ?_, fun i p _ hp => ?_⟩
    · simp at hi
    · simp at hp

/-- What is at the handle of an object that has a timer is that timer. -/
theorem Sound.at_handle (hs : Sound s log) {q : Timer} (hq : s.Pending i q)
    (hp : p ∈ s.service.timerQHead) (h : s.address p.hTimer = s.handle i) : p = q := by
  rw [hs.held i q hq] at h
  exact hs.eq_of_address (mem_allocated hp) (mem_allocated hq.1) h

/-- **Every guarded step.** -/
theorem Sound.step (hs : Sound s log) (hok : s.Guarded x) (h : s.step x = some (t, o)) :
    Sound t (log ++ [(x, o)]) := by
  rcases x.cases_object with ⟨i, milliseconds, address, rfl⟩ | ⟨i, rfl⟩ | hx
  · rcases step_startObject h with ⟨pObject, p, hobj, htype, hfree, hnew, hhandle, rfl⟩ |
        ⟨rfl, rc, -, rfl, -⟩
    · have hnone : s.pending i = [] := hok.resolve_right hfree.1
      refine hs.start hfree hnew (fun k hk q hq => ?_) (fun k => ?_) (fun k hk => ?_) (fun k hk => ?_)
        (fun k hk => nomatch hk.1) (fun k hk => nomatch hk) (fun k hk => ?_)
      · obtain rfl := Option.some.inj hk
        exact pending_eq_nil.1 hnone q hq
      · rw [hhandle, Function.update_apply]
        simp only [Option.some.injEq, eq_comm]
      · obtain rfl := Option.some.inj hk
        exact ⟨pObject, hobj, htype⟩
      · obtain rfl := Option.some.inj hk
        exact ⟨⟨⟨milliseconds, address, rfl⟩, by simp⟩, by simp⟩
      · simp at hk
    · exact hs.unchanged fun k hk => nomatch hk.1
  · rcases step_stopObject h with ⟨p, hp, hne, haddress, rfl, rfl⟩ | ⟨rfl, rc, rfl, hrc⟩
    · -- the handle is that of its own timer, since it has one
      have hpending : s.pending i ≠ [] := fun hnil => hne (hok hnil)
      obtain ⟨q, hq⟩ := List.exists_mem_of_ne_nil _ hpending
      obtain rfl := hs.at_handle (mem_pending.1 hq) hp haddress
      exact hs.stop (mem_pending.1 hq)
    · refine hs.unchanged fun k hk q hq => ?_
      obtain rfl : i = k := Input.stopObject.inj hk.1
      obtain ⟨hfail, -⟩ := hrc (hs.nonzero hq)
      exact hfail (Out.result.inj (List.mem_singleton.1 hk.2)).symm
  · have hno : ∀ j, ¬Stops j (x, o) := by
      intro j hj
      have hj' := stops_object hj
      rw [hx] at hj'
      cases hj'
    rcases step_other hs.toPlaced hx h with he | ⟨p, address, hfree, hnew, hhandle, hout⟩
    · exact hs.expires he hx
    · refine hs.start hfree hnew nofun (fun j => ?_) nofun nofun hno (fun j hj => ?_) hout
      · rw [hhandle, if_neg nofun]
      · rw [hj] at hx
        cases hx

/-! ## Exactly when the objects stay tidy -/

theorem careful_of_object (hx : x.object = none) : s.Careful x ∧ s.Guarded x := by
  cases x with
  | startObject i milliseconds address => cases hx
  | stopObject i => cases hx
  | pass _ | start _ _ _ | stop _ | processQueue _ | handlerReturns _ _ => exact ⟨trivial, trivial⟩

theorem Careful.guarded (hc : s.Cleared) (h : s.Careful x) : s.Guarded x := by
  rcases x.cases_object with ⟨i, milliseconds, address, rfl⟩ | ⟨i, rfl⟩ | hx
  · exact h
  · intro hnil
    by_contra hne
    obtain ⟨p, hp⟩ := hc i hne
    exact pending_eq_nil.1 hnil p hp
  · exact (careful_of_object hx).2

/-- A handle is cleared when its timer expires. -/
theorem Expires.cleared (hc : s.Cleared) (he : Expires s t o) : t.Cleared := by
  intro i hne
  have hout : .timerExpiry i ∉ o := fun hout => hne (he.expired i hout).1
  obtain ⟨hsame, hstay⟩ := he.kept i hout
  rw [hsame] at hne
  obtain ⟨p, hp⟩ := hc i hne
  refine ⟨p, hstay p hp, ?_⟩
  rw [he.hUserData1]
  exact hp.2

theorem Started.cleared (hs : s.Placed) (hc : s.Cleared) {owner : Option ObjectId} {address : ℕ}
    (h : Started s t p owner address) (hhandle : ∀ i, owner ≠ some i → t.handle i = s.handle i) :
    t.Cleared := by
  intro i hne
  by_cases howner : owner = some i
  · exact ⟨p, (h.pending hs).2 (.inl ⟨rfl, howner⟩)⟩
  · rw [hhandle i howner] at hne
    obtain ⟨q, hq⟩ := hc i hne
    exact ⟨q, (h.pending hs).2 (.inr hq)⟩

theorem Cleared.step (hs : Sound s log) (hc : s.Cleared) (hok : s.Careful x)
    (h : s.step x = some (t, o)) : t.Cleared := by
  rcases x.cases_object with ⟨i, milliseconds, address, rfl⟩ | ⟨i, rfl⟩ | hx
  · rcases step_startObject h with ⟨pObject, p, -, -, -, hnew, hhandle, -⟩ | ⟨rfl, -⟩
    · refine hnew.cleared hs.toPlaced hc fun k hk => ?_
      rw [hhandle]
      exact Function.update_of_ne (fun heq => hk (by rw [heq])) _ _
    · exact hc
  · rcases step_stopObject h with ⟨p, -, hne, -⟩ | ⟨rfl, -⟩
    · -- without a timer it has no handle
      obtain ⟨q, hq⟩ := hc i hne
      exact absurd hq (pending_eq_nil.1 hok q)
    · exact hc
  · rcases step_other hs.toPlaced hx h with he | ⟨p, address, -, hnew, hhandle, -⟩
    · exact he.cleared hc
    · exact hnew.cleared hs.toPlaced hc fun j _ => by rw [hhandle]

/-- A second timer of an object. -/
theorem start_untidy (hs : Sound s log) {milliseconds : BitVec 32} {address : ℕ}
    (h : s.step (.startObject i milliseconds address) = some (t, o)) (hp : s.Pending i p)
    (haddress : address ≠ 0) : ¬t.Tidy := by
  intro htidy
  rcases step_startObject h with ⟨pObject, q, -, -, hfree, hnew, -⟩ | ⟨-, rc, -, -, htype⟩
  · have hq : q ∈ t.pending i := mem_pending.2 ((hnew.pending hs.toPlaced).2 (.inl ⟨rfl, rfl⟩))
    have hp' : p ∈ t.pending i := mem_pending.2 ((hnew.pending hs.toPlaced).2 (.inr hp))
    have hlt := (hs.numbered p (mem_allocated hp.1)).1
    have hne : p ≠ q := by
      rintro rfl
      rw [hnew.number] at hlt
      exact Nat.lt_irrefl _ hlt
    match hl : t.pending i with
    | [] =>
      rw [hl] at hq
      cases hq
    | [r] =>
      rw [hl] at hp' hq
      exact hne ((List.mem_singleton.1 hp').trans (List.mem_singleton.1 hq).symm)
    | r :: r' :: rest =>
      -- both are pending
      have hlength := (htidy i).1
      rw [hl] at hlength
      exact absurd hlength (by simp)
  · obtain ⟨pObject, hobj, hnot⟩ := htype haddress
    obtain ⟨pObject', hobj', htimer⟩ := hs.typed i p hp
    obtain rfl := Option.some.inj (hobj.symm.trans hobj')
    exact hnot htimer

/-- A handle that is left behind. -/
theorem stop_untidy (hs : Sound s log) (h : s.step (.stopObject i) = some (t, o)) (hp : s.Pending i p) :
    ¬t.Tidy := by
  intro htidy
  have hnonzero := hs.nonzero hp
  rcases step_stopObject h with ⟨q, hq, -, haddress, rfl, -⟩ | ⟨-, rc, -, htype⟩
  · obtain rfl := hs.at_handle hp hq haddress
    -- the handle is as it was, so that there would be another timer
    obtain ⟨r, hr⟩ := List.exists_mem_of_ne_nil _ ((htidy i).2.1 hnonzero)
    have hr' := mem_pending.1 hr
    obtain rfl := hs.single i q r hp ((erase_less q).pending hr')
    exact hs.nodup.not_mem_erase hr'.1
  · obtain ⟨-, pObject, hobj, hnot⟩ := htype hnonzero
    obtain ⟨pObject', hobj', htimer⟩ := hs.typed i p hp
    obtain rfl := Option.some.inj (hobj.symm.trans hobj')
    exact hnot htimer

/-- **A step keeps the objects tidy exactly when it is careful.** -/
theorem tidy_iff (hs : Sound s log) (hc : s.Cleared) (h : s.step x = some (t, o)) :
    t.Tidy ↔ s.Careful x := by
  constructor
  · intro htidy
    rcases x.cases_object with ⟨i, milliseconds, address, rfl⟩ | ⟨i, rfl⟩ | hx
    · by_contra hnot
      obtain ⟨hne, haddress⟩ := not_or.1 hnot
      obtain ⟨p, hp⟩ := List.exists_mem_of_ne_nil _ hne
      exact start_untidy hs h (mem_pending.1 hp) haddress htidy
    · by_contra hne
      obtain ⟨p, hp⟩ := List.exists_mem_of_ne_nil _ hne
      exact stop_untidy hs h (mem_pending.1 hp) htidy
    · exact (careful_of_object hx).1
  · intro hok
    exact (hs.step (Careful.guarded hc hok) h).tidy (hc.step hs hok h)

/-! ## Runs -/

/-- Nothing has been started. -/
theorem Sound.init (h : timerObjects.init s) : Sound s [] ∧ s.Cleared := by
  have hplaced := Placed.init h
  obtain ⟨⟨hq, -⟩, hzero⟩ := h
  have hnone : ∀ i p, ¬s.Pending i p := by
    intro i p hp
    -- the queue is empty
    have hmem := hp.1
    rw [hq] at hmem
    cases hmem
  have hlog : ∀ i, ¬Stopped i [] := by
    rintro i ⟨before, e, after, heq, -⟩
    exact List.append_ne_nil_of_right_ne_nil _ (List.cons_ne_nil e after) heq.symm
  refine ⟨⟨hplaced, ?_, ?_, ?_, ?_, ?_, .nil⟩, fun i hne => absurd (hzero i) hne⟩
  · exact fun i p q hp => absurd hp (hnone i p)
  · exact fun i p hp => absurd hp (hnone i p)
  · exact fun i p hp => absurd hp (hnone i p)
  · exact fun i p hp => absurd hp (hnone i p)
  · exact fun i h => absurd h (hlog i)

theorem reach_sound (hr : Run.Reach timerObjects.logged Guarded log s) : Sound s log :=
  Run.Reach.invariant_log (S := timerObjects) (P := Sound) (fun _ h => (Sound.init h).1)
    (fun _ _ _ _ _ hs hok h => hs.step hok h) hr

theorem reach_cleared (hr : Run.Reach timerObjects.logged Careful log s) :
    Sound s log ∧ s.Cleared := by
  refine Run.Reach.invariant_log (S := timerObjects) (P := fun s log => Sound s log ∧ s.Cleared)
    (fun _ h => Sound.init h) (fun s x t o log hs hok h => ?_) hr
  obtain ⟨hs, hc⟩ := hs
  exact ⟨hs.step (Careful.guarded hc hok) h, hc.step hs hok h⟩

/-- **The timers of the objects**, in every run in which none is started or stopped while its timer is
pending: each has one at most and its handle just as long, and any other step ends this. Where none is
started while its timer is pending, and none is stopped twice, each still has one timer at most, and a
stop ends that one. -/
theorem timerObjects_kept :
    (Run.Reach timerObjects.logged Careful log s →
      Kept s log ∧ ∀ x t o, s.step x = some (t, o) → (t.Tidy ↔ s.Careful x)) ∧
    (Run.Reach timerObjects.logged Guarded log s → Safe s log) := by
  refine ⟨fun hr => ?_, fun hr => (reach_sound hr).safe⟩
  obtain ⟨hs, hc⟩ := reach_cleared hr
  exact ⟨⟨hs.safe, hs.tidy hc⟩, fun x t o h => tidy_iff hs hc h⟩

/-! ## Two programs -/

/-- One timer object, of a program without destinations. -/
def oneObject : TimerObjects where
  mm := (registerManagableObject {} { modules := [⟨.empty, 0⟩] } 0 .timer .empty .empty 0 0 false).1

/-- Its timer expires and is started again, while another module has one; and it is stopped and started. -/
theorem timerObjects_kept_one :
    (∃ s log, Run.Reach timerObjects.logged Careful log s ∧ (s.pending 0).length = 1 ∧
      (log.flatMap (·.2)).count (.timerExpiry 0) = 1 ∧ Kept s log) ∧
    ∃ s log, Run.Reach timerObjects.logged Guarded log s ∧
      (log.flatMap (·.2)).count (.timerExpiry 0) = 1 ∧ Safe s log := by
  have hinit : timerObjects.init oneObject := ⟨⟨rfl, rfl⟩, fun _ => rfl⟩
  constructor
  · obtain ⟨s, log, hr, hp⟩ := Run.Reach.of_run (S := timerObjects.logged)
      (b := fun s x => decide (s.Careful x)) (fun _ _ hb => of_decide_eq_true hb) hinit
      [.startObject 0 1000 8, .start 3000 true 16, .pass 2000, .processQueue fun _ => true,
        .stopObject 0, .startObject 0 1000 8]
      (fun s log => decide ((s.pending 0).length = 1 ∧
        (log.flatMap (·.2)).count (.timerExpiry 0) = 1)) (by decide +kernel)
    obtain ⟨hone, hcount⟩ := of_decide_eq_true hp
    exact ⟨s, log, hr, hone, hcount, (timerObjects_kept.1 hr).1⟩
  · obtain ⟨s, log, hr, hp⟩ := Run.Reach.of_run (S := timerObjects.logged)
      (b := fun s x => decide (s.Guarded x)) (fun _ _ hb => of_decide_eq_true hb) hinit
      [.startObject 0 1000 8, .stopObject 0, .start 3000 false 8, .startObject 0 1000 16, .pass 2000,
        .processQueue fun _ => true]
      (fun _ log => decide ((log.flatMap (·.2)).count (.timerExpiry 0) = 1)) (by decide +kernel)
    exact ⟨s, log, hr, of_decide_eq_true hp, timerObjects_kept.2 hr⟩

/-- The object is stopped, and its address goes to another module; it is stopped again. -/
def stoppedTwice : List (Input × List Out) :=
  [(.startObject 0 1000 8, [.service (.started ⟨0, 1000, false, 0, 1000⟩), .result .success]),
    (.stopObject 0, [.service (.stopped ⟨0, 1000, false, 0, 1000⟩), .result .success]),
    (.start 2000 false 8, [.service (.started ⟨1, 2000, false, 0, 2000⟩)]),
    (.stopObject 0, [.service (.stopped ⟨1, 2000, false, 0, 2000⟩), .result .success])]

/-- The object is started twice and stopped; two seconds later it expires. -/
def startedTwice : List (Input × List Out) :=
  [(.startObject 0 1000 8, [.service (.started ⟨0, 1000, false, 0, 1000⟩), .result .success]),
    (.startObject 0 1000 16, [.service (.started ⟨1, 1000, false, 0, 1000⟩), .result .success]),
    (.stopObject 0, [.service (.stopped ⟨1, 1000, false, 0, 1000⟩), .result .success]),
    (.pass 2000, []),
    (.processQueue fun _ => true, [.service (.fired ⟨0, 1000, false, 0, 1000⟩ 2000), .timerExpiry 0,
      .service (.returned 2000 true)])]

theorem reach_of_run (is : List Input) (log : List (Input × List Out))
    (h : (timerObjects.logged.run Run.always oneObject is).map (·.2) = some log) :
    ∃ s, Run.Reach timerObjects.logged Run.any log s := by
  obtain ⟨r, hr, rfl⟩ := Option.map_eq_some_iff.1 h
  exact ⟨r.1, oneObject, ⟨⟨rfl, rfl⟩, fun _ => rfl⟩, .of_run (fun _ _ _ => trivial) hr⟩

/-- **Stopped twice, an object stops the timer of another module; started twice and stopped, it
expires.** -/
theorem stop_of_another :
    (∃ s, Run.Reach timerObjects.logged Run.any stoppedTwice s ∧ ¬Safe s stoppedTwice) ∧
    ∃ s, Run.Reach timerObjects.logged Run.any startedTwice s ∧ ¬Safe s startedTwice := by
  constructor
  · obtain ⟨s, hr⟩ := reach_of_run
      [.startObject 0 1000 8, .stopObject 0, .start 2000 false 8, .stopObject 0] stoppedTwice rfl
    refine ⟨s, hr, fun hs => ?_⟩
    -- no entry starts it for the object
    obtain ⟨e, he, ⟨⟨milliseconds, address, hstart⟩, -⟩, hmem⟩ :=
      (hs.right (stoppedTwice.take 3) _ (List.prefix_refl _)).2 0 ⟨1, 2000, false, 0, 2000⟩ rfl
        List.mem_cons_self
    rcases List.mem_cons.1 he with rfl | he
    · exact absurd hmem (by decide)
    rcases List.mem_cons.1 he with rfl | he
    · cases hstart
    · obtain rfl := List.mem_singleton.1 he
      cases hstart
  · obtain ⟨s, hr⟩ := reach_of_run
      [.startObject 0 1000 8, .startObject 0 1000 16, .stopObject 0, .pass 2000,
        .processQueue fun _ => true] startedTwice rfl
    refine ⟨s, hr, fun hs => ?_⟩
    have hstopped : Stopped 0 (startedTwice.take 4) := by
      refine ⟨startedTwice.take 2, _, [(.pass 2000, [])], rfl, ⟨rfl, by simp⟩, fun f hf hstart => ?_⟩
      obtain rfl := List.mem_singleton.1 hf
      exact absurd hstart.2 List.not_mem_nil
    exact (hs.right (startedTwice.take 4) _ (List.prefix_refl _)).1 0 (by decide) hstopped

end TimerObjects

end Mm
