import Emsd.Mts.LocalAddresses
import Emsd.Mts.MessageStore
import Emsd.Mtsua.ControlFile
import Mathlib.Data.List.Perm.Basic

/-!
# Local fan-out (`msgstore.c`, `mtssubr.c`)

`msg_addMessage` gets the head of the recipient list by value. Its loop ends at the head, but the ring of
the elements leads back to the caller's head, not to the copy: the caller's head is taken for one
recipient more, with the memory behind it for an address, and only the detection of a loop ends the walk.

* `addLoop_eq`: **the walk** goes over the recipients and the head, unless 33 messages stop it.
* `runList_store`: the store is that of `msgAddMessage` for these elements.
* `fan_out_iff`: **a message goes to each local recipient, and to nothing else**, if and only if the 33rd
  message is for the last recipient.
* `fan_out_head`: a message for one recipient.
-/

namespace Mts

open Mtsua

/-! ## The code -/

/-- A place in the ring of recipients: the copy of its head, the head, and the elements. -/
inductive Elem
  | copy
  | head
  | recip (i : ℕ)
  deriving DecidableEq, Repr

structure FanEnv where
  /-- `SUB_getEntry`. -/
  subs : EmsdAddr → Option DeviceProfile
  now : Elem → Time
  /-- `link` succeeds, for the data file of a recipient. -/
  link : Elem → Bool
  /-- The memory behind the head, up to a null character. -/
  behind : List Char

/-- What `msg_addMessage` has done. -/
structure FanOut where
  store : Store
  deliveryCount : ℕ := 0
  /-- The elements that have been looked at. -/
  examined : List Elem := []
  /-- The addresses for which the message is queued, and whether its data file is there. -/
  enqueued : List (EmsdAddr × Bool) := []

/-- `QU_FIRST` and `QU_NEXT`, with `n` recipients. -/
def quNext (n : ℕ) : Elem → Elem
  | .recip i => if i + 1 < n then .recip (i + 1) else .head
  | _ => if 0 < n then .recip 0 else .head

/-- `pRecip->recipient`, as an EMSD address. -/
def recipAddr (env : FanEnv) (d : ControlFileData) (pRecip : Elem) : EmsdAddr :=
  (msgRfc822ToEmsdAddr (some (match pRecip with
    | .recip i => d.recipList.getD i []
    | _ => env.behind))).toNat

/-- One turn of the loop, and whether it is the last for too many recipients. -/
def addRecip (env : FanEnv) (d : ControlFileData) (pRecip : Elem) (r : FanOut) :
    Option (FanOut × Bool) :=
  let r := { r with examined := r.examined ++ [pRecip] }
  let emsdAddr := recipAddr env d pRecip
  if emsdAddr = 0 then some (r, false)
  else
    match dqGetRecipQueue r.store emsdAddr (env.subs emsdAddr) (env.now pRecip) with
    | none => some (r, false)
    | some store =>
      (dqAddMessage store (.ofList d.messageId) (.ofList d.originator) emsdAddr
        (env.now pRecip)).map fun store =>
        ({ r with
            store
            deliveryCount := r.deliveryCount + 1
            enqueued := r.enqueued ++ [(emsdAddr, env.link pRecip)] }, r.deliveryCount + 1 > 32)

/-- The loop of `msg_addMessage`. -/
def addLoop (env : FanEnv) (d : ControlFileData) : ℕ → Option Elem → Elem → FanOut → Option FanOut
  | 0, _, _, _ => none
  | fuel + 1, pRecipFirst, pRecip, r =>
    if pRecip = .copy then some r
    -- loop detected, breaking out
    else if pRecipFirst = some pRecip then some r
    else
      match addRecip env d pRecip r with
      | none => none
      | some (r, true) => some r
      | some (r, false) =>
        addLoop env d fuel (some (pRecipFirst.getD pRecip)) (quNext d.recipList.length pRecip) r

/-- `msg_addMessage`, with the ring of the recipients. -/
def msgAddMessageRing (env : FanEnv) (d : ControlFileData) (s : Store) : Option FanOut :=
  addLoop env d (d.recipList.length + 2) none (quNext d.recipList.length .copy) { store := s }

/-- What `mts_spoolToDevice` has done with a message. -/
structure Spooled where
  result : FanOut
  /-- `msg_addMessage` returned `Success`. -/
  added : Bool
  /-- The control file has been deleted. -/
  deleted : Bool

/-- What `mts_spoolToDevice` does with a control file that it could read. -/
def spoolMessage (env : FanEnv) (d : ControlFileData) (s : Store) : Option Spooled :=
  (msgAddMessageRing env d s).map fun result =>
    { result, added := result.deliveryCount > 0, deleted := true }

/-- `mts_spoolToDevice`: up to 100 control files, until there are no more or one cannot be read. -/
def mtsSpoolToDevice (env : ℕ → FanEnv) : ℕ → List (Option ControlFileData) → Store →
    Option (List (ControlFileData × Store × Spooled))
  | 0, _, _ => some []
  | _ + 1, [], _ => some []
  | _ + 1, none :: _, _ => some []
  | count + 1, some d :: files, s =>
    match spoolMessage (env count) d s with
    | none => none
    | some m => (mtsSpoolToDevice env count files m.result.store).map ((d, s, m) :: ·)

/-! ## The walk -/

/-- The turns of the loop for a list of elements. -/
def runList (env : FanEnv) (d : ControlFileData) : List Elem → FanOut → Option FanOut
  | [], r => some r
  | p :: ps, r =>
    match addRecip env d p r with
    | none => none
    | some (r, true) => some r
    | some (r, false) => runList env d ps r

/-- The elements of the ring from a recipient on. -/
def recipsFrom (n i : ℕ) : List Elem := (List.range' i (n - i)).map .recip

/-- The recipients of a message. -/
def recips (d : ControlFileData) : List Elem := recipsFrom d.recipList.length 0

variable {env : FanEnv} {d : ControlFileData} {s : Store} {r r' : FanOut} {n i fuel : ℕ} {p : Elem}
  {ps : List Elem}

theorem recipsFrom_cons (hi : i < n) : recipsFrom n i = .recip i :: recipsFrom n (i + 1) := by
  unfold recipsFrom
  obtain ⟨k, hk⟩ : ∃ k, n - i = k + 1 := ⟨n - i - 1, by omega⟩
  rw [hk, show n - (i + 1) = k by omega, List.range'_succ, List.map_cons]

theorem recipsFrom_self : recipsFrom n n = [] := by
  unfold recipsFrom
  rw [Nat.sub_self]
  rfl

/-- From the second recipient on, the walk goes to the head and then finds the first again. -/
theorem addLoop_from (hn : d.recipList.length = n) (hi : 0 < i) (hle : i ≤ n)
    (hfuel : n - i + 1 < fuel) :
    addLoop env d fuel (some (.recip 0)) (if i < n then .recip i else .head) r =
      runList env d (recipsFrom n i ++ [.head]) r := by
  induction fuel generalizing i r with
  | zero => omega
  | succ fuel ih =>
    rcases Nat.lt_or_ge i n with hlt | hge
    · -- a recipient
      rw [if_pos hlt, recipsFrom_cons hlt, List.cons_append]
      unfold addLoop runList
      have hfirst : ¬some (Elem.recip 0) = some (.recip i) := by
        intro h
        have := Elem.recip.inj (Option.some.inj h)
        omega
      rw [if_neg (by simp), if_neg hfirst]
      have hnext : quNext d.recipList.length (.recip i) = if i + 1 < n then .recip (i + 1) else .head := by
        rw [hn]
        rfl
      cases addRecip env d (.recip i) r with
      | none => rfl
      | some a =>
        obtain ⟨r', stop⟩ := a
        cases stop with
        | true => rfl
        | false =>
          dsimp only
          rw [hnext]
          exact ih (by omega) (by omega) (by omega)
    · -- the head, and then the first recipient
      obtain rfl : i = n := by omega
      obtain ⟨fuel, rfl⟩ : ∃ k, fuel = k + 1 := ⟨fuel - 1, by omega⟩
      rw [if_neg (by omega), recipsFrom_self, List.nil_append]
      unfold addLoop runList
      rw [if_neg (by simp), if_neg (by simp)]
      have hnext : quNext d.recipList.length .head = .recip 0 := by
        rw [hn]
        exact if_pos hi
      cases addRecip env d .head r with
      | none => rfl
      | some a =>
        obtain ⟨r', stop⟩ := a
        cases stop with
        | true => rfl
        | false =>
          dsimp only
          rw [hnext]
          unfold addLoop
          rw [if_neg (by simp)]
          exact if_pos rfl

/-- **The walk**: the recipients, and then the head. -/
theorem addLoop_eq (env : FanEnv) (d : ControlFileData) (s : Store) :
    msgAddMessageRing env d s = runList env d (recips d ++ [.head]) { store := s } := by
  unfold msgAddMessageRing recips
  obtain ⟨n, hn⟩ : ∃ n, d.recipList.length = n := ⟨_, rfl⟩
  rw [hn]
  rcases Nat.eq_zero_or_pos n with rfl | hpos
  · -- the head leads to itself
    have hfirst : quNext 0 .copy = .head := rfl
    rw [hfirst, recipsFrom_self, List.nil_append]
    unfold addLoop runList
    rw [if_neg (by simp), if_neg (by simp)]
    have hnext : quNext d.recipList.length .head = .head := by
      rw [hn]
      rfl
    cases addRecip env d .head { store := s } with
    | none => rfl
    | some a =>
      obtain ⟨r', stop⟩ := a
      cases stop with
      | true => rfl
      | false =>
        dsimp only
        rw [hnext]
        unfold addLoop
        rw [if_neg (by simp)]
        exact if_pos rfl
  · have hfirst : quNext n .copy = .recip 0 := if_pos hpos
    rw [hfirst, recipsFrom_cons hpos, List.cons_append]
    unfold addLoop runList
    rw [if_neg (by simp), if_neg (by simp)]
    have hnext : quNext d.recipList.length (.recip 0) = if 1 < n then .recip 1 else .head := by
      rw [hn]
      rfl
    cases addRecip env d (.recip 0) { store := s } with
    | none => rfl
    | some a =>
      obtain ⟨r', stop⟩ := a
      cases stop with
      | true => rfl
      | false =>
        dsimp only
        rw [hnext]
        exact addLoop_from hn (by omega) (by omega) (by omega)

/-! ## What a turn does -/

/-- An element is served: its address is local, and has a queue or a subscriber. -/
def served (env : FanEnv) (d : ControlFileData) (s : Store) (p : Elem) : Bool :=
  recipAddr env d p ≠ 0 && ((s.recip (recipAddr env d p)).isSome || (env.subs (recipAddr env d p)).isSome)

/-- The recipient queues of a store are kept. -/
def SameQueues (env : FanEnv) (s t : Store) : Prop :=
  ∀ a, ((t.recip a).isSome || (env.subs a).isSome) = ((s.recip a).isSome || (env.subs a).isSome)

theorem SameQueues.served {t : Store} (h : SameQueues env s t) (p : Elem) :
    served env d t p = served env d s p := by
  unfold Mts.served
  rw [h]

theorem dqGetRecipQueue_same {a : EmsdAddr} {now : Time} {t : Store}
    (h : dqGetRecipQueue s a (env.subs a) now = some t) : SameQueues env s t := by
  unfold dqGetRecipQueue at h
  cases hq : s.recip a with
  | some q =>
    rw [hq] at h
    obtain rfl := Option.some.inj h
    exact fun b => rfl
  | none =>
    rw [hq] at h
    obtain ⟨profile, hsub, rfl⟩ := Option.map_eq_some_iff.1 h
    intro b
    by_cases hb : b = a
    · subst hb
      rw [hsub]
      simp
    · have hrecip : (s.setRecip a { status := .empty, nextAttempt := now, deviceProfile := profile }).recip
          b = s.recip b := Function.update_of_ne hb _ _
      rw [← hrecip]

theorem linkNew_recip {a : EmsdAddr} {q : RecipQueue} {t : Store} (h : linkNew s a q = some t)
    (hq : s.recip a = some q) (b : EmsdAddr) : (t.recip b).isSome = (s.recip b).isSome := by
  unfold linkNew at h
  split at h
  · obtain rfl := Option.some.inj h
    by_cases hb : b = a
    · subst hb
      rw [hq]
      simp [Store.setRecip]
    · exact congrArg Option.isSome (Function.update_of_ne hb _ _)
  · obtain ⟨p, -, h⟩ := Option.bind_eq_some_iff.1 h
    obtain ⟨e, -, h⟩ := Option.bind_eq_some_iff.1 h
    obtain rfl := Option.some.inj h
    rfl

theorem dqAddMessage_same {a : EmsdAddr} {now : Time} {t : Store} {pMsgId pOriginator : String}
    (h : dqAddMessage s pMsgId pOriginator a now = some t) : SameQueues env s t := by
  unfold dqAddMessage at h
  obtain ⟨q, hq, h⟩ := Option.bind_eq_some_iff.1 h
  obtain ⟨u, hu, h⟩ := Option.bind_eq_some_iff.1 h
  obtain ⟨q', hq', h⟩ := Option.bind_eq_some_iff.1 h
  obtain rfl := Option.some.inj h
  intro b
  have hlink := linkNew_recip hu hq b
  by_cases hb : b = a
  · subst hb
    rw [hq]
    simp [Store.setRecip]
  · have hrecip : ((u.setMsg s.nextId (newControlData pMsgId pOriginator a now)).setRecip a
        (q'.added now)).recip b = u.recip b := Function.update_of_ne hb _ _
    dsimp only
    rw [hrecip, hlink]

/-- **One turn**: the element is examined, and the message queued if it is served. -/
structure Turn (env : FanEnv) (d : ControlFileData) (p : Elem) (r r' : FanOut) (stop : Bool) : Prop where
  examined : r'.examined = r.examined ++ [p]
  enqueued : r'.enqueued = r.enqueued ++
    if served env d r.store p then [(recipAddr env d p, env.link p)] else []
  count : r'.deliveryCount = r.deliveryCount + if served env d r.store p then 1 else 0
  stop : stop = (served env d r.store p && decide (32 < r'.deliveryCount))
  queues : SameQueues env r.store r'.store

/-- A local address is served if and only if it has a queue, or gets one. -/
theorem served_eq_queue (s : Store) (now : Time) (hlocal : recipAddr env d p ≠ 0) : served env d s p =
    (dqGetRecipQueue s (recipAddr env d p) (env.subs (recipAddr env d p)) now).isSome := by
  unfold served dqGetRecipQueue
  rw [decide_eq_true hlocal, Bool.true_and]
  cases s.recip (recipAddr env d p) with
  | some q => rfl
  | none => rw [Option.isSome_map]; rfl

/-- An element that is not served is examined, and no more. -/
theorem Turn.skip (hserved : served env d r.store p = false) :
    Turn env d p r { r with examined := r.examined ++ [p] } false := by
  refine ⟨rfl, ?_, ?_, ?_, fun a => rfl⟩
  · rw [hserved]
    simp
  · rw [hserved]
    rfl
  · rw [hserved]
    rfl

theorem addRecip_turn {stop : Bool} (h : addRecip env d p r = some (r', stop)) :
    Turn env d p r r' stop := by
  unfold addRecip at h
  dsimp only at h
  by_cases hlocal : recipAddr env d p = 0
  · have hserved : served env d r.store p = false := by
      unfold served
      rw [hlocal]
      rfl
    rw [if_pos hlocal] at h
    obtain ⟨rfl, rfl⟩ := Prod.mk.inj (Option.some.inj h)
    exact Turn.skip hserved
  · have hserved := served_eq_queue r.store (env.now p) hlocal
    rw [if_neg hlocal] at h
    cases hq : dqGetRecipQueue r.store (recipAddr env d p) (env.subs (recipAddr env d p)) (env.now p) with
    | none =>
      rw [hq] at h hserved
      obtain ⟨rfl, rfl⟩ := Prod.mk.inj (Option.some.inj h)
      exact Turn.skip hserved
    | some store =>
      rw [hq, Option.isSome_some] at hserved
      rw [hq] at h
      obtain ⟨store', hadd, heq⟩ := Option.map_eq_some_iff.1 h
      obtain ⟨rfl, rfl⟩ := Prod.mk.inj heq
      refine ⟨rfl, ?_, ?_, ?_, ?_⟩
      · rw [hserved]
        rfl
      · rw [hserved]
        rfl
      · rw [hserved]
        simp
      · -- neither the queue that is made nor the message takes a queue away
        intro a
        rw [dqAddMessage_same hadd a, dqGetRecipQueue_same hq a]

/-- The recipients as the message store has them. -/
def storeRecipient (env : FanEnv) (d : ControlFileData) (p : Elem) : Recipient where
  emsdAddr := recipAddr env d p
  sub := env.subs (recipAddr env d p)
  now := env.now p

/-- **The store is that of `msgAddMessage`.** -/
theorem runList_store (ps : List Elem) (r : FanOut) : (runList env d ps r).map (·.store) =
    msgAddMessage (.ofList d.messageId) (.ofList d.originator) (ps.map (storeRecipient env d))
      r.deliveryCount r.store := by
  induction ps generalizing r with
  | nil => rfl
  | cons p ps ih =>
    rw [List.map_cons]
    unfold runList msgAddMessage addRecip
    have haddr : (storeRecipient env d p).emsdAddr = recipAddr env d p := rfl
    have hsub : (storeRecipient env d p).sub = env.subs (recipAddr env d p) := rfl
    have hnow : (storeRecipient env d p).now = env.now p := rfl
    rw [haddr, hsub, hnow]
    dsimp only
    by_cases hlocal : recipAddr env d p = 0
    · rw [if_pos hlocal, if_pos hlocal]
      exact ih _
    · rw [if_neg hlocal, if_neg hlocal]
      cases dqGetRecipQueue r.store (recipAddr env d p) (env.subs (recipAddr env d p)) (env.now p) with
      | none => exact ih _
      | some store =>
        dsimp only
        cases dqAddMessage store (.ofList d.messageId) (.ofList d.originator) (recipAddr env d p)
          (env.now p) with
        | none => rfl
        | some store' =>
          rw [Option.map_some]
          by_cases hmany : r.deliveryCount + 1 > 32
          · rw [decide_eq_true hmany]
            exact (if_pos hmany).symm
          · rw [decide_eq_false hmany]
            exact (ih _).trans (if_neg hmany).symm

/-! ## What a walk does -/

/-- The elements that are examined, from the point where `k` messages have been queued. -/
def walked (σ : Elem → Bool) : List Elem → ℕ → List Elem
  | [], _ => []
  | p :: ps, k =>
    p :: if σ p then (if 32 < k + 1 then [] else walked σ ps (k + 1)) else walked σ ps k

variable {σ : Elem → Bool} {k : ℕ}

theorem walked_cons (σ : Elem → Bool) (p : Elem) (ps : List Elem) (k : ℕ) : walked σ (p :: ps) k =
    p :: if σ p then (if 32 < k + 1 then [] else walked σ ps (k + 1)) else walked σ ps k := rfl

theorem runList_walked (h : runList env d ps r = some r') :
    r'.examined = r.examined ++ walked (served env d r.store) ps r.deliveryCount ∧
      r'.enqueued = r.enqueued ++
        ((walked (served env d r.store) ps r.deliveryCount).filter (served env d r.store)).map
          fun p => (recipAddr env d p, env.link p) := by
  induction ps generalizing r with
  | nil =>
    obtain rfl := Option.some.inj h
    simp [walked]
  | cons p ps ih =>
    unfold runList at h
    split at h
    · cases h
    · rename_i u hu
      obtain rfl := Option.some.inj h
      have turn := addRecip_turn hu
      have hstop := turn.stop
      have hcount := turn.count
      have hserved : served env d r.store p = true := by
        rw [eq_comm, Bool.and_eq_true] at hstop
        exact hstop.1
      rw [hserved] at hstop hcount
      -- the walk is broken off behind the 33rd message
      have hmany : 32 < r.deliveryCount + 1 := by
        rw [hcount] at hstop
        simpa using hstop
      rw [walked_cons, if_pos hserved, if_pos hmany, List.filter_cons_of_pos hserved, turn.examined, turn.enqueued,
        if_pos hserved]
      exact ⟨rfl, rfl⟩
    · rename_i u hu
      have turn := addRecip_turn hu
      have hstop := turn.stop
      have hcount := turn.count
      have hsame : served env d u.store = served env d r.store := funext turn.queues.served
      obtain ⟨hexamined, henqueued⟩ := ih h
      rw [hsame] at hexamined henqueued
      rw [hexamined, henqueued, turn.examined, turn.enqueued, walked_cons]
      by_cases hserved : served env d r.store p = true
      · rw [hserved, if_pos rfl] at hcount
        have hfew : ¬32 < r.deliveryCount + 1 := by
          rw [hserved, hcount] at hstop
          simpa using hstop
        rw [if_pos hserved, if_pos hserved, if_neg hfew, List.filter_cons_of_pos hserved, hcount]
        simp
      · rw [if_neg hserved, Nat.add_zero] at hcount
        rw [if_neg hserved, if_neg hserved, List.filter_cons_of_neg hserved, hcount]
        simp

theorem walked_initial (σ : Elem → Bool) (ps : List Elem) (k : ℕ) : walked σ ps k <+: ps := by
  induction ps generalizing k with
  | nil => exact List.prefix_refl []
  | cons p ps ih =>
    rw [walked_cons, List.prefix_cons_inj]
    split
    · split
      · exact List.nil_prefix
      · exact ih (k + 1)
    · exact ih k

/-- **The walk ends at the last recipient** if and only if the 33rd message is queued there. -/
theorem walked_eq_iff (h : Elem) (hk : k ≤ 32) : walked σ (ps ++ [h]) k = ps ↔
    k + ps.countP σ = 33 ∧ ∃ p ∈ ps.getLast?, σ p = true := by
  induction ps generalizing k with
  | nil => simp [walked]
  | cons p ps ih =>
    have hlast : ps ≠ [] → (p :: ps).getLast? = ps.getLast? := by
      intro hne
      cases ps with
      | nil => exact absurd rfl hne
      | cons q ps => exact List.getLast?_cons_cons
    have hsome : ∀ q ∈ ps.getLast?, q ∈ ps := fun q hq => List.mem_of_getLast? hq
    rw [List.cons_append, walked_cons, List.cons.injEq, and_iff_right rfl]
    by_cases hp : σ p = true
    · rw [if_pos hp, List.countP_cons_of_pos hp]
      by_cases hfull : 32 < k + 1
      · -- this one is the last, so that there is no other behind it
        rw [if_pos hfull]
        constructor
        · rintro rfl
          exact ⟨by simp; omega, p, rfl, hp⟩
        · rintro ⟨hcount, q, hq, hserved⟩
          by_contra hne
          rw [hlast fun h => hne h.symm] at hq
          have := List.countP_pos_iff.2 ⟨q, hsome q hq, hserved⟩
          omega
      · rw [if_neg hfull, ih (by omega)]
        constructor
        · rintro ⟨hcount, q, hq, hserved⟩
          have hne : ps ≠ [] := List.ne_nil_of_mem (hsome q hq)
          exact ⟨by omega, q, by rwa [hlast hne], hserved⟩
        · rintro ⟨hcount, q, hq, hserved⟩
          have hne : ps ≠ [] := by
            rintro rfl
            simp at hcount
            omega
          rw [hlast hne] at hq
          exact ⟨by omega, q, hq, hserved⟩
    · rw [if_neg hp, List.countP_cons_of_neg hp, ih hk]
      constructor
      · rintro ⟨hcount, q, hq, hserved⟩
        have hne : ps ≠ [] := List.ne_nil_of_mem (hsome q hq)
        exact ⟨hcount, q, by rwa [hlast hne], hserved⟩
      · rintro ⟨hcount, q, hq, hserved⟩
        have hne : ps ≠ [] := by
          rintro rfl
          simp at hcount
          omega
        rw [hlast hne] at hq
        exact ⟨hcount, q, hq, hserved⟩

theorem walked_perm_iff (h : Elem) : (walked σ (ps ++ [h]) 0).Perm ps ↔
    ps.countP σ = 33 ∧ ∃ p ∈ ps.getLast?, σ p = true := by
  rw [← Nat.zero_add (ps.countP σ), ← walked_eq_iff h (Nat.zero_le 32)]
  constructor
  · intro hperm
    exact (List.prefix_of_prefix_length_le (walked_initial σ (ps ++ [h]) 0) (List.prefix_append ps [h])
      hperm.length_eq.le).eq_of_length hperm.length_eq
  · intro heq
    rw [heq]

/-! ## Results -/

/-- The local recipients with a subscriber, each as often as it is in the control file. -/
def localRecips (env : FanEnv) (d : ControlFileData) (s : Store) : List EmsdAddr :=
  ((recips d).filter (served env d s)).map (recipAddr env d)

/-- **A message is fanned out**: each recipient is examined once and nothing else, the message is queued
with its data for those that are expected, and its control file is kept unless it is queued for each local
recipient. -/
structure FansOut (env : FanEnv) (d : ControlFileData) (expected : List EmsdAddr) (m : Spooled) :
    Prop where
  examined : m.result.examined.Perm (recips d)
  enqueued : m.result.enqueued.Perm (expected.map fun a => (a, true))
  kept : m.deleted = true → ∀ p ∈ recips d, recipAddr env d p ≠ 0 →
    (recipAddr env d p, true) ∈ m.result.enqueued

/-- **When a message is fanned out.** -/
structure FannedOut (env : FanEnv) (d : ControlFileData) (s : Store) : Prop where
  /-- No pointer to memory that has been freed is followed. -/
  sound : msgAddMessage (.ofList d.messageId) (.ofList d.originator)
    ((recips d ++ [Elem.head]).map (storeRecipient env d)) 0 s ≠ none
  many : (recips d).countP (served env d s) = 33
  last : ∃ p ∈ (recips d).getLast?, served env d s p = true
  known : ∀ p ∈ recips d, recipAddr env d p ≠ 0 → served env d s p = true
  linked : ∀ p ∈ recips d, served env d s p = true → env.link p = true

/-- What has been done with a message that is spooled. -/
theorem spoolMessage_walked {m : Spooled} (h : spoolMessage env d s = some m) :
    m.deleted = true ∧
      m.result.examined = walked (served env d s) (recips d ++ [.head]) 0 ∧
      m.result.enqueued = (m.result.examined.filter (served env d s)).map
        fun p => (recipAddr env d p, env.link p) := by
  obtain ⟨r, hr, rfl⟩ := Option.map_eq_some_iff.1 h
  rw [addLoop_eq] at hr
  obtain ⟨hexamined, henqueued⟩ := runList_walked hr
  rw [List.nil_append] at hexamined henqueued
  refine ⟨rfl, hexamined, ?_⟩
  rw [henqueued, hexamined]

theorem spoolMessage_sound : (∃ m, spoolMessage env d s = some m) ↔
    msgAddMessage (.ofList d.messageId) (.ofList d.originator)
      ((recips d ++ [Elem.head]).map (storeRecipient env d)) 0 s ≠ none := by
  have hstore : (runList env d (recips d ++ [.head]) { store := s }).map (·.store) = _ :=
    runList_store (recips d ++ [.head]) { store := s }
  unfold spoolMessage
  rw [addLoop_eq, ← hstore]
  cases runList env d (recips d ++ [.head]) { store := s } with
  | none => simp
  | some r => simp

/-- An address is served or not. -/
theorem served_congr {q : Elem} (h : recipAddr env d p = recipAddr env d q) :
    served env d s p = served env d s q := by
  unfold served
  rw [h]

theorem fansOut_iff (env : FanEnv) (d : ControlFileData) (s : Store) :
    (∃ m, spoolMessage env d s = some m ∧ FansOut env d (localRecips env d s) m) ↔
      FannedOut env d s := by
  constructor
  · rintro ⟨m, hm, h⟩
    obtain ⟨hdeleted, hwalked, henqueued⟩ := spoolMessage_walked hm
    have hexamined := h.examined
    rw [hwalked, walked_perm_iff] at hexamined
    have hmem : ∀ p ∈ recips d, served env d s p = true →
        (recipAddr env d p, env.link p) ∈ m.result.enqueued := by
      intro p hp hserved
      rw [henqueued]
      exact List.mem_map.2 ⟨p, List.mem_filter.2 ⟨h.examined.mem_iff.2 hp, hserved⟩, rfl⟩
    refine ⟨spoolMessage_sound.1 ⟨m, hm⟩, hexamined.1, hexamined.2, ?_, ?_⟩
    · intro p hp hlocal
      have hin := h.kept hdeleted p hp hlocal
      rw [henqueued] at hin
      obtain ⟨q, hq, heq⟩ := List.mem_map.1 hin
      rw [← served_congr (Prod.mk.inj heq).1]
      exact (List.mem_filter.1 hq).2
    · intro p hp hserved
      have hin := h.enqueued.mem_iff.1 (hmem p hp hserved)
      obtain ⟨a, -, heq⟩ := List.mem_map.1 hin
      exact (Prod.mk.inj heq).2.symm
  · intro h
    obtain ⟨m, hm⟩ := spoolMessage_sound.2 h.sound
    obtain ⟨-, hwalked, henqueued⟩ := spoolMessage_walked hm
    have heq : m.result.examined = recips d := by
      rw [hwalked, walked_eq_iff .head (Nat.zero_le 32), Nat.zero_add]
      exact ⟨h.many, h.last⟩
    have hqueued : m.result.enqueued = (localRecips env d s).map fun a => (a, true) := by
      rw [henqueued, heq]
      unfold localRecips
      rw [List.map_map]
      refine List.map_congr_left ?_
      intro p hp
      obtain ⟨hp, hserved⟩ := List.mem_filter.1 hp
      simp [h.linked p hp hserved]
    refine ⟨m, hm, ?_, ?_, ?_⟩
    · rw [heq]
    · rw [hqueued]
    · intro _ p hp hlocal
      rw [hqueued]
      refine List.mem_map.2 ⟨recipAddr env d p, ?_, rfl⟩
      exact List.mem_map.2 ⟨p, List.mem_filter.2 ⟨hp, h.known p hp hlocal⟩, rfl⟩

/-- A subscriber that is repeated gets the message again. -/
theorem fansOut_once_iff (env : FanEnv) (d : ControlFileData) (s : Store) :
    (∃ m, spoolMessage env d s = some m ∧ FansOut env d (localRecips env d s).dedup m) ↔
      FannedOut env d s ∧ (localRecips env d s).Nodup := by
  constructor
  · rintro ⟨m, hm, h⟩
    obtain ⟨-, hwalked, henqueued⟩ := spoolMessage_walked hm
    -- as many messages as recipients, so that none is repeated
    have hlength : (localRecips env d s).length = (localRecips env d s).dedup.length := by
      have hperm := h.enqueued.length_eq
      rw [henqueued, List.length_map, List.length_map] at hperm
      rw [← hperm]
      unfold localRecips
      rw [List.length_map]
      exact (h.examined.filter _).length_eq.symm
    have hnodup : (localRecips env d s).Nodup := by
      rw [← List.dedup_eq_self]
      exact (List.dedup_sublist _).eq_of_length hlength.symm
    refine ⟨(fansOut_iff env d s).1 ⟨m, hm, h.examined, ?_, h.kept⟩, hnodup⟩
    rw [← List.dedup_eq_self.2 hnodup]
    exact h.enqueued
  · rintro ⟨h, hnodup⟩
    rw [List.dedup_eq_self.2 hnodup]
    exact (fansOut_iff env d s).2 h

/-- Each message of a run is spooled as a single one. -/
theorem mtsSpoolToDevice_each {envs : ℕ → FanEnv} {count : ℕ} {files : List (Option ControlFileData)}
    {ms : List (ControlFileData × Store × Spooled)} (h : mtsSpoolToDevice envs count files s = some ms) :
    ∀ m ∈ ms, ∃ i, spoolMessage (envs i) m.1 m.2.1 = some m.2.2 := by
  induction count generalizing files s ms with
  | zero =>
    obtain rfl := Option.some.inj h
    simp
  | succ count ih =>
    cases files with
    | nil =>
      obtain rfl := Option.some.inj h
      simp
    | cons file files =>
      cases file with
      | none =>
        obtain rfl := Option.some.inj h
        simp
      | some d =>
        unfold mtsSpoolToDevice at h
        split at h
        · cases h
        · rename_i m hm
          obtain ⟨ms', hms, rfl⟩ := Option.map_eq_some_iff.1 h
          intro m' hm'
          rcases List.mem_cons.1 hm' with rfl | hm'
          · exact ⟨count, hm⟩
          · exact ih hms m' hm'

/-- **Local fan-out**: a message goes to each local recipient with a subscriber once, and its control file
is deleted only if it does so, if and only if the 33rd message is for the last recipient, all local
recipients have a subscriber, and all links succeed; for the second reading, where a subscriber that is
repeated is one recipient, none is repeated. -/
theorem fan_out_iff (env : FanEnv) (d : ControlFileData) (s : Store) :
    ((∃ m, spoolMessage env d s = some m ∧ FansOut env d (localRecips env d s) m) ↔
      FannedOut env d s) ∧
    ((∃ m, spoolMessage env d s = some m ∧ FansOut env d (localRecips env d s).dedup m) ↔
      FannedOut env d s ∧ (localRecips env d s).Nodup) :=
  ⟨fansOut_iff env d s, fansOut_once_iff env d s⟩

/-- For one recipient, the head of the list is examined too; and where it has no subscriber, the message
is queued for nobody and its control file is deleted. -/
theorem fan_out_head :
    (spoolMessage ⟨fun _ => some ⟨[], 1, 1, true⟩, fun _ => 1, fun _ => true, []⟩
      ⟨[], [], [], 0, 0, ["123".toList]⟩ {}).map (fun m => (m.result.examined, m.result.enqueued)) =
        some ([.recip 0, .head], [(123, true)]) ∧
    (spoolMessage ⟨fun _ => none, fun _ => 1, fun _ => true, []⟩
      ⟨[], [], [], 0, 0, ["123".toList]⟩ {}).map (fun m => (m.result.enqueued, m.added, m.deleted)) =
        some ([], false, true) := by
  constructor
  · decide +kernel
  · decide +kernel

end Mts
