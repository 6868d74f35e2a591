import Emsd.Mtsua.Duplicates
import Mathlib.Data.List.Induction

/-!
# The window of `ua_isDuplicate` (`uadup.c`)

The mask of the UA has a bit for each of the 256 instance ids. An id that is received sets its bit and
clears the one half way around, so that a bit can be used again 128 ids later.

* `seen_iff`: **a bit is set exactly if of its id and the one half way around its id came last.**
* `duplicate_window`: no two bits half way around are set together, the ids of a peer that counts up
  leave the bits of the last 128 set, and no INVOKE is taken for a duplicate.
* `repeat_unreported`: an id that has just been received is not reported when it comes again.
-/

namespace Mtsua

namespace Dup

open Ocp

/-- The mask that `UA_init` creates. -/
def DupData.create : DupData := ⟨fun _ => 0⟩

/-- The INVOKEs that the UA receives, one after the other. -/
def DupData.receive (d : DupData) (pdus : List (DU × Int)) : DupData :=
  pdus.foldl (fun d pdu => (isDuplicate d pdu.1 pdu.2).1) d

/-- The instance ids of those that carry one. -/
def processed (pdus : List (DU × Int)) : List UInt8 :=
  pdus.filterMap fun pdu => if uaCarries pdu.2 then some (pdu.1.get1 0) else none

/-- Of an id and the one half way around, the one that came last. -/
def lastOf (ids : List UInt8) (id : UInt8) : Option UInt8 :=
  (ids.filter fun x => x = id ∨ x = id + 128).getLast?

/-- The ids that a peer sends which counts up from `start`. -/
def counting (start : UInt8) (n : ℕ) : List UInt8 := (List.range n).map fun k => start + UInt8.ofNat k

variable {d : DupData} {pdus : List (DU × Int)} {ids : List UInt8} {id j x : UInt8} {hView : DU}
  {operationValue : Int}

/-! ## Ids half way around -/

theorem half_half (id : UInt8) : id + 128 + 128 = id := by
  rw [UInt8.add_assoc]
  exact UInt8.add_zero id

theorem half_ne (id : UInt8) : id + 128 ≠ id := by
  intro h
  have hzero : (128 : UInt8) = 0 := (UInt8.add_right_inj id).1 (h.trans (UInt8.add_zero id).symm)
  exact absurd hzero (by decide)

theorem half_comm : x = id + 128 ↔ id = x + 128 := by
  constructor
  · rintro rfl
    exact (half_half id).symm
  · rintro rfl
    exact (half_half x).symm

/-! ## One INVOKE -/

/-- Different bits of an octet have nothing in common. -/
theorem bit_disjoint (h : x % 8 ≠ j % 8) : bit x &&& bit j = 0 ∧ ~~~bit x &&& bit j = bit j := by
  -- an octet has eight bits
  have hall : ∀ m n : Fin 8, m ≠ n →
      (1 : UInt8) <<< UInt8.ofNat m &&& (1 : UInt8) <<< UInt8.ofNat n = 0 ∧
        ~~~((1 : UInt8) <<< UInt8.ofNat m) &&& (1 : UInt8) <<< UInt8.ofNat n =
          (1 : UInt8) <<< UInt8.ofNat n := by decide
  have hlt : ∀ y : UInt8, (y % 8).toNat < 8 := fun y => Nat.mod_lt _ (by decide)
  have hne : (⟨(x % 8).toNat, hlt x⟩ : Fin 8) ≠ ⟨(j % 8).toNat, hlt j⟩ :=
    fun he => h (UInt8.toNat_inj.1 (Fin.mk.inj he))
  have hbits := hall _ _ hne
  simp only [UInt8.ofNat_toNat] at hbits
  exact hbits

/-- An id is told by its octet and its bit. -/
theorem eq_of_place (hp : place x = place j) (hb : x % 8 = j % 8) : x = j := by
  apply UInt8.toNat_inj.1
  -- the octet is the quotient by 8 and the bit the remainder
  have hdiv : x.toNat / 8 = j.toNat / 8 := congrArg Fin.val hp
  have hmod : x.toNat % 8 = j.toNat % 8 := congrArg UInt8.toNat hb
  omega

theorem or_and_other {y b c : UInt8} (h : b &&& c = 0) : (y ||| b) &&& c = y &&& c := by
  apply UInt8.toBitVec_inj.1
  have hbits : b.toBitVec &&& c.toBitVec = 0 := congrArg UInt8.toBitVec h
  rw [UInt8.toBitVec_and, UInt8.toBitVec_or, BitVec.and_or_distrib_right, hbits]
  exact BitVec.or_zero

theorem clear_and_other {y b c : UInt8} (h : ~~~b &&& c = c) : (y &&& ~~~b) &&& c = y &&& c := by
  rw [UInt8.and_assoc, h]

/-- **An id that is neither the one received nor half way around** keeps its mark. -/
theorem isDuplicate_other (hid : hView.get1 0 = x) (h : j ≠ x) (hhalf : j ≠ x + 128) :
    (isDuplicate d hView operationValue).1.seen j = d.seen j := by
  have hne : halfWay (place x) ≠ place x := halfWay_ne _
  unfold isDuplicate
  split
  · rw [hid]
    dsimp only
    split
    · rfl
    · unfold DupData.seen
      dsimp only
      congr 2
      by_cases hp : place j = place x
      · -- in the octet where a bit is set
        have hb : x % 8 ≠ j % 8 := fun hb => h (eq_of_place hp.symm hb).symm
        rw [hp, Function.update_of_ne hne.symm, Function.update_self]
        exact or_and_other (bit_disjoint hb).1
      · by_cases hq : place j = halfWay (place x)
        · -- in the octet where a bit is cleared
          have hb : x % 8 ≠ j % 8 := by
            intro hb
            refine hhalf (eq_of_place (hq.trans (place_half x).symm) ?_)
            rw [← hb]
            apply UInt8.toNat_inj.1
            have hadd : (x + 128).toNat = (x.toNat + 128) % 256 := UInt8.toNat_add ..
            have h8 : (8 : UInt8).toNat = 8 := rfl
            rw [UInt8.toNat_mod, UInt8.toNat_mod, hadd, h8]
            omega
          rw [hq, Function.update_self, Function.update_of_ne hne]
          exact clear_and_other (bit_disjoint hb).2
        · rw [Function.update_of_ne hq, Function.update_of_ne hp]
  · rfl

/-! ## All INVOKEs -/

/-- A bit is set exactly if of its id and the one half way around its id came last. -/
def Window (ids : List UInt8) (d : DupData) : Prop :=
  ∀ j, d.seen j = true ↔ lastOf ids j = some j

theorem lastOf_half (ids : List UInt8) (j : UInt8) : lastOf ids (j + 128) = lastOf ids j := by
  unfold lastOf
  congr 1
  refine List.filter_congr fun x _ => ?_
  rw [half_half, decide_eq_decide]
  exact or_comm

/-- Two ids half way around do not both come last. -/
theorem Window.exclusive (h : Window ids d) (hj : d.seen j = true) : d.seen (j + 128) = false := by
  apply Bool.eq_false_iff.2
  intro hhalf
  have hlast := (h (j + 128)).1 hhalf
  rw [lastOf_half, (h j).1 hj] at hlast
  exact half_ne j (Option.some.inj hlast).symm

theorem lastOf_append (h : x = j ∨ x = j + 128) : lastOf (ids ++ [x]) j = some x := by
  unfold lastOf
  rw [List.filter_append, List.filter_cons_of_pos (by simpa using h)]
  simp

theorem lastOf_append_other (h : ¬(x = j ∨ x = j + 128)) : lastOf (ids ++ [x]) j = lastOf ids j := by
  unfold lastOf
  rw [List.filter_append, List.filter_cons_of_neg (by simpa using h)]
  simp

/-- One INVOKE with an id. -/
theorem Window.isDuplicate (h : Window ids d) (hid : hView.get1 0 = x)
    (hop : uaCarries operationValue = true) :
    Window (ids ++ [x]) (isDuplicate d hView operationValue).1 := by
  obtain ⟨hset, hclear⟩ := isDuplicate_seen d hid hop
  intro j
  by_cases hj : x = j
  · subst hj
    rw [lastOf_append (.inl rfl)]
    exact ⟨fun _ => rfl, fun _ => hset⟩
  · by_cases hhalf : x = j + 128
    · -- half way around: the bit is cleared, or has been clear
      rw [lastOf_append (.inr hhalf), ← half_half j, ← hhalf]
      have hfalse : (Dup.isDuplicate d hView operationValue).1.seen (x + 128) = false := by
        -- an id that is marked already changes nothing, and the one half way around is clear then
        cases hx : d.seen x with
        | false => exact hclear hx
        | true =>
          have hsame : (Dup.isDuplicate d hView operationValue).1 = d := by
            unfold Dup.isDuplicate
            rw [if_pos hop, hid]
            dsimp only
            rw [if_pos (of_decide_eq_true hx)]
          rw [hsame]
          exact h.exclusive hx
      rw [hfalse]
      exact ⟨fun h => (Bool.false_ne_true h).elim, fun h => absurd (Option.some.inj h).symm (half_ne x)⟩
    · rw [lastOf_append_other fun h => h.elim hj hhalf,
        isDuplicate_other hid (fun he => hj he.symm) fun he => hhalf (half_comm.1 he)]
      exact h j

/-- One INVOKE without. -/
theorem isDuplicate_plain (hop : uaCarries operationValue = false) :
    (isDuplicate d hView operationValue).1 = d := by
  unfold isDuplicate
  rw [hop]
  rfl

theorem create_window : Window [] DupData.create := by
  intro j
  have hzero : DupData.create.seen j = false := by
    unfold DupData.seen DupData.create
    rw [UInt8.zero_and]
    rfl
  rw [hzero]
  exact ⟨fun h => (Bool.false_ne_true h).elim, fun h => (Option.some_ne_none j h.symm).elim⟩

/-- **A bit is set exactly if of its id and the one half way around its id came last.** -/
theorem seen_iff (pdus : List (DU × Int)) : Window (processed pdus) (DupData.create.receive pdus) := by
  induction pdus using List.reverseRecOn with
  | nil => exact create_window
  | append_singleton pdus pdu ih =>
    unfold DupData.receive processed
    rw [List.foldl_append, List.filterMap_append]
    cases hop : uaCarries pdu.2 with
    | true =>
      have hids : [pdu].filterMap (fun pdu => if uaCarries pdu.2 then some (pdu.1.get1 0) else none) =
          [pdu.1.get1 0] := by
        simp [hop]
      rw [hids]
      exact ih.isDuplicate rfl hop
    | false =>
      have hids : [pdu].filterMap (fun pdu => if uaCarries pdu.2 then some (pdu.1.get1 0) else none) =
          [] := by
        simp [hop]
      rw [hids, List.append_nil]
      change Window _ (Dup.isDuplicate _ pdu.1 pdu.2).1
      rw [isDuplicate_plain hop]
      exact ih

/-! ## A peer that counts up -/

theorem counting_succ (start : UInt8) (n : ℕ) :
    counting start (n + 1) = counting start n ++ [start + UInt8.ofNat n] := by
  unfold counting
  rw [List.range_succ, List.map_append]
  rfl

/-- The ids that are not among the first, by their numbers. -/
theorem mem_counting_drop {start : UInt8} {n m : ℕ} :
    id ∈ (counting start n).drop m ↔
      ∃ k, m ≤ k ∧ k < n ∧ id.toNat = (start.toNat + k) % 256 := by
  -- the ids wrap around at 256
  have hval : ∀ k, (start + UInt8.ofNat k).toNat = (start.toNat + k) % 256 := by
    intro k
    rw [UInt8.toNat_add, UInt8.toNat_ofNat']
    omega
  unfold counting
  rw [← List.map_drop, List.mem_map]
  constructor
  · rintro ⟨k, hk, rfl⟩
    obtain ⟨i, hi, rfl⟩ := List.getElem_of_mem hk
    rw [List.getElem_drop, List.getElem_range]
    rw [List.length_drop, List.length_range] at hi
    exact ⟨m + i, by omega, by omega, hval _⟩
  · rintro ⟨k, hm, hn, hk⟩
    refine ⟨k, ?_, UInt8.toNat_inj.1 ((hval k).trans hk.symm)⟩
    rw [List.mem_iff_getElem]
    refine ⟨k - m, ?_, ?_⟩
    · rw [List.length_drop, List.length_range]
      omega
    · rw [List.getElem_drop, List.getElem_range]
      omega

/-- Of an id and the one half way around, the id came last exactly if it is among the last 128. -/
theorem lastOf_counting (start : UInt8) (n : ℕ) (id : UInt8) :
    lastOf (counting start n) id = some id ↔ id ∈ (counting start n).drop (n - 128) := by
  induction n with
  | zero => exact ⟨fun h => (Option.some_ne_none id h.symm).elim, fun h => absurd h List.not_mem_nil⟩
  | succ n ih =>
    have hlt := id.toNat_lt
    have hn : (start + UInt8.ofNat n).toNat = (start.toNat + n) % 256 := by
      rw [UInt8.toNat_add, UInt8.toNat_ofNat']
      omega
    have hhalf : (id + 128).toNat = (id.toNat + 128) % 256 := UInt8.toNat_add ..
    rw [mem_counting_drop, counting_succ]
    by_cases hid : start + UInt8.ofNat n = id
    · -- the newest
      rw [lastOf_append (.inl hid), hid]
      refine ⟨fun _ => ⟨n, by omega, by omega, ?_⟩, fun _ => rfl⟩
      rw [← hn, hid]
    · by_cases hopp : start + UInt8.ofNat n = id + 128
      · -- the newest is half way around: none of the last 128 is the id
        rw [lastOf_append (.inr hopp), hopp]
        rw [hopp, hhalf] at hn
        constructor
        · exact fun h => absurd (Option.some.inj h) (half_ne id)
        · rintro ⟨k, hk, hkn, he⟩
          omega
      · rw [lastOf_append_other fun h => h.elim hid hopp, ih, mem_counting_drop]
        have hid' : id.toNat ≠ (start.toNat + n) % 256 := by
          intro he
          exact hid (UInt8.toNat_inj.1 (hn.trans he.symm))
        have hopp' : (id.toNat + 128) % 256 ≠ (start.toNat + n) % 256 := by
          intro he
          exact hopp (UInt8.toNat_inj.1 (hn.trans (he.symm.trans hhalf.symm)))
        constructor
        · -- the oldest of the last 128 is half way around from the newest
          rintro ⟨k, hk, hkn, he⟩
          exact ⟨k, by omega, by omega, he⟩
        · rintro ⟨k, hk, hkn, he⟩
          refine ⟨k, by omega, ?_, he⟩
          by_contra hge
          -- only the newest could be left, and it is another id
          obtain rfl : k = n := by omega
          exact hid' he

/-! ## The window -/

/-- The answer to one more INVOKE. -/
def answer (pdus : List (DU × Int)) (pdu : DU × Int) : Bool :=
  (isDuplicate (DupData.create.receive pdus) pdu.1 pdu.2).2.2

/-- **The window.** After any INVOKEs no id is marked together with the one half way around; an id is
marked exactly if it was processed and the one half way around was not since; of a peer that counts up
the last 128 are marked; and no INVOKE is reported. -/
theorem duplicate_window (pdus : List (DU × Int)) :
    (∀ id, ¬((DupData.create.receive pdus).seen id = true ∧
      (DupData.create.receive pdus).seen (id + 128) = true)) ∧
    (∀ id, (DupData.create.receive pdus).seen id = true ↔ lastOf (processed pdus) id = some id) ∧
    (∀ start n, processed pdus = counting start n → ∀ id,
      (DupData.create.receive pdus).seen id = true ↔ id ∈ (processed pdus).drop (n - 128)) ∧
    ∀ pdu, answer pdus pdu = false := by
  have hwindow := seen_iff pdus
  refine ⟨?_, hwindow, ?_, fun pdu => isDuplicate_never _ _ _⟩
  · rintro id ⟨hid, hhalf⟩
    rw [hwindow.exclusive hid] at hhalf
    cases hhalf
  · intro start n hcount id
    rw [hwindow id, hcount]
    exact lastOf_counting start n id

/-- Two INVOKEs of a peer that counts up, at the wrap-around. -/
theorem duplicate_window_wrapped :
    (DupData.create.receive [(.ofOctets [255, 1], 35), (.ofOctets [0, 2], 35)]).seen 255 = true ∧
      ¬(DupData.create.receive [(.ofOctets [255, 1], 35), (.ofOctets [0, 2], 35)]).seen 127 = true := by
  have hids : processed [(.ofOctets [255, 1], 35), (.ofOctets [0, 2], 35)] = counting 255 2 := by decide
  have hcount := (duplicate_window [(.ofOctets [255, 1], 35), (.ofOctets [0, 2], 35)]).2.2.1 255 2 hids
  exact ⟨(hcount 255).2 (by decide), fun h => absurd ((hcount 127).1 h) (by decide)⟩

/-- The first of two equal INVOKEs with the instance id 5. -/
def delivered : DU × Int := (.ofOctets [5, 1, 2], 35)

/-- **An id that has just been received is not reported** when it comes again, and is marked by then. -/
theorem repeat_unreported : ¬∀ pdus pdu, uaCarries pdu.2 = true →
    (answer pdus pdu = true ↔
      pdu.1.get1 0 ∈ (processed pdus).drop ((processed pdus).length - 128)) := by
  intro hall
  have hreported := (hall [delivered] delivered rfl).2 (by decide)
  exact absurd hreported (by decide)

end Dup

end Mtsua
