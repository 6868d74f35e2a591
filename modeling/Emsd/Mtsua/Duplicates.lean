import Emsd.Mtsua.Sending
import Mathlib.Logic.Function.Basic

/-!
# The octet for duplicate detection

`DUP_invokeOut` and `DUP_invokeIn` of the MTS (`dup.c`), `ua_addDuplicateDetection` and
`ua_isDuplicate` of the UA (`uadup.c`): an INVOKE of some operations begins with an instance id,
by which the receiver is to tell a repeated INVOKE from a new one.

* `duplicate_detection`: **what one side adds the other takes away, and instance ids are distinct**,
  for the operation values below 128, in the UA always, and in the MTS as long as each peer gets one
  such INVOKE.
* `instance_ids_repeat`: two deliveries to one subscriber carry the same id.
-/

namespace Mtsua

namespace Dup

open Ocp

/-! ## The view of an INVOKE -/

/-- `DU_prepend` of one octet, and the octet written to where `DU_data` is then. -/
def prepend (hView : DU) (octet : UInt8) : DU := ⟨octet :: hView.buf, hView.size + 1⟩

theorem strip_prepend (hView : DU) (octet : UInt8) : (prepend hView octet).strip 1 = hView := by
  simp [prepend, DU.strip]

theorem prepend_ne (hView : DU) (octet : UInt8) : prepend hView octet ≠ hView := by
  intro h
  have := congrArg DU.size h
  simp only [prepend] at this
  omega

theorem strip_ne (hView : DU) : hView.strip 1 ≠ hView := by
  intro h
  have := congrArg DU.size h
  simp only [DU.strip] at this
  omega

/-! ## The MTS (`dup.c`) -/

/-- The operations that the MTS takes to carry an instance id. -/
def mtsCarries (operationValue : Int) : Bool := operationValue > 31 && operationValue < 128

/-- `DUP_invokeOut`: the static `invokeCount` and the view afterwards. -/
def invokeOut (invokeCount : UInt8) (hView : DU) (operationValue : Int) : UInt8 × DU × SuccFail :=
  if mtsCarries operationValue then (invokeCount, prepend hView invokeCount, .success)
  else (invokeCount, hView, .fail)

/-- `DUP_invokeIn`: the view afterwards and the return code. -/
def invokeIn (hView : DU) (operationValue : Int) : DU × Int :=
  if mtsCarries operationValue then (hView.strip 1, 1) else (hView, 0)

/-! ## The UA (`uadup.c`) -/

/-- `DupData`: 256 bits, eight to an octet. -/
structure DupData where
  duplicate : Fin 32 → UInt8

/-- The octet of an instance id in the mask, and its bit in the octet. -/
def place (operationInstanceId : UInt8) : Fin 32 :=
  ⟨operationInstanceId.toNat / 8, by have := operationInstanceId.toNat_lt; omega⟩

def bit (operationInstanceId : UInt8) : UInt8 := 1 <<< (operationInstanceId % 8)

/-- 16 octets on or back, half way around the window. -/
def halfWay (p : Fin 32) : Fin 32 :=
  if h : p.val ≥ 16 then ⟨p - 16, by omega⟩ else ⟨p + 16, by omega⟩

/-- The operations that the UA takes to carry an instance id. -/
def uaCarries (operationValue : Int) : Bool := 32 ≤ operationValue

/-- `ua_isDuplicate`: the mask, the view and the answer, which is FALSE for a duplicate too. -/
def isDuplicate (d : DupData) (hView : DU) (operationValue : Int) : DupData × DU × Bool :=
  if uaCarries operationValue then
    let operationInstanceId := hView.get1 0
    let hView := hView.strip 1
    let p := place operationInstanceId
    let b := bit operationInstanceId
    if d.duplicate p &&& b ≠ 0 then (d, hView, false)
    else
      let set := Function.update d.duplicate p (d.duplicate p ||| b)
      (⟨Function.update set (halfWay p) (set (halfWay p) &&& ~~~b)⟩, hView, false)
  else (d, hView, false)

/-- `ua_addDuplicateDetection`: the static `operationInstanceId` and the view afterwards. -/
def addDuplicateDetection (operationInstanceId : UInt8) (hView : DU) (operationValue : Int) :
    UInt8 × DU :=
  if uaCarries operationValue then (operationInstanceId + 1, prepend hView operationInstanceId)
  else (operationInstanceId, hView)

/-! ## The mask -/

/-- An instance id is marked as seen. -/
def DupData.seen (d : DupData) (id : UInt8) : Bool := d.duplicate (place id) &&& bit id ≠ 0

theorem halfWay_ne (p : Fin 32) : halfWay p ≠ p := by
  intro h
  have := congrArg Fin.val h
  unfold halfWay at this
  split at this
  · simp only at this
    omega
  · simp only at this
    omega

theorem place_half (id : UInt8) : place (id + 128) = halfWay (place id) := by
  have h := id.toNat_lt
  apply Fin.ext
  have hadd : (place (id + 128)).val = (id.toNat + 128) % 256 / 8 := rfl
  have hid : (place id).val = id.toNat / 8 := rfl
  unfold halfWay
  split
  · rename_i hge
    rw [hid] at hge
    simp only [hadd, hid]
    omega
  · rename_i hge
    rw [hid] at hge
    simp only [hadd, hid]
    omega

theorem bit_half (id : UInt8) : bit (id + 128) = bit id := by
  unfold bit
  congr 1
  apply UInt8.toNat_inj.1
  have hadd : (id + 128).toNat = (id.toNat + 128) % 256 := UInt8.toNat_add ..
  have h : (128 : UInt8).toNat = 128 := rfl
  have h8 : (8 : UInt8).toNat = 8 := rfl
  rw [UInt8.toNat_mod, UInt8.toNat_mod, hadd, h8]
  omega

theorem bit_ne_zero (id : UInt8) : bit id ≠ 0 := by
  have h : ∀ n : Fin 8, (1 : UInt8) <<< UInt8.ofNat n ≠ 0 := by decide
  have hlt : (id % 8).toNat < 8 := Nat.mod_lt _ (by decide)
  have := h ⟨(id % 8).toNat, hlt⟩
  rwa [UInt8.ofNat_toNat] at this

theorem or_and_bit (x b : UInt8) : (x ||| b) &&& b = b := by
  apply UInt8.toBitVec_inj.1
  ext i
  simpa using fun h => .inr h

theorem clear_and_bit (x b : UInt8) : (x &&& ~~~b) &&& b = 0 := by
  apply UInt8.toBitVec_inj.1
  ext i
  simp

/-- An id that has been received is marked, and a new one clears the mark half way around. -/
theorem isDuplicate_seen (d : DupData) {hView : DU} {id : UInt8} {operationValue : Int}
    (hid : hView.get1 0 = id) (hop : uaCarries operationValue = true) :
    (isDuplicate d hView operationValue).1.seen id = true ∧
      (d.seen id = false → (isDuplicate d hView operationValue).1.seen (id + 128) = false) := by
  have hhalf : halfWay (place id) ≠ place id := halfWay_ne _
  unfold isDuplicate
  rw [if_pos hop, hid]
  dsimp only
  split
  · rename_i hset
    have hseen : d.seen id = true := decide_eq_true hset
    exact ⟨hseen, fun h => by rw [hseen] at h; cases h⟩
  · refine ⟨decide_eq_true ?_, fun _ => decide_eq_false fun h => h ?_⟩
    · dsimp only
      rw [Function.update_of_ne hhalf.symm, Function.update_self, or_and_bit]
      exact bit_ne_zero id
    · rw [place_half, bit_half]
      dsimp only
      rw [Function.update_self]
      exact clear_and_bit _ _

/-- **The UA takes no INVOKE for a duplicate.** -/
theorem isDuplicate_never (d : DupData) (hView : DU) (operationValue : Int) :
    (isDuplicate d hView operationValue).2.2 = false := by
  unfold isDuplicate
  split
  · dsimp only
    split <;> rfl
  · rfl

/-! ## Both sides -/

/-- An INVOKE as its sender's core issues it. -/
structure Invoke where
  nsap : NSapAddr
  operationValue : Int
  data : Octets

/-- What the sender does to the view: its counter and the view afterwards. -/
def addOctet : Side → UInt8 → DU → Int → UInt8 × DU
  | .mts, count, hView, op => ((invokeOut count hView op).1, (invokeOut count hView op).2.1)
  | .ua, count, hView, op => addDuplicateDetection count hView op

/-- What the peer of a sender does to the view that arrives. -/
def stripOctet : Side → DupData → DU → Int → DU
  | .mts, d, hView, op => (isDuplicate d hView op).2.1
  | .ua, _, hView, op => (invokeIn hView op).1

/-- The operations to which a sender adds an instance id. -/
def carries : Side → Int → Bool
  | .mts => mtsCarries
  | .ua => uaCarries

theorem addOctet_eq (side : Side) (count : UInt8) (hView : DU) (op : Int) :
    (addOctet side count hView op).2 = if carries side op then prepend hView count else hView := by
  cases side
  · unfold addOctet invokeOut carries
    dsimp only
    split <;> rfl
  · unfold addOctet addDuplicateDetection carries
    dsimp only
    split <;> rfl

/-- The peer strips for the operations to which it would add. -/
theorem stripOctet_eq (side : Side) (d : DupData) (hView : DU) (op : Int) :
    stripOctet side d hView op =
      if (match side with | .mts => uaCarries op | .ua => mtsCarries op) then hView.strip 1
      else hView := by
  cases side
  · unfold stripOctet isDuplicate
    dsimp only
    split
    · split <;> rfl
    · rfl
  · unfold stripOctet invokeIn
    dsimp only
    split <;> rfl

/-- The peer takes away what the sender adds, whatever the counter, the mask and the view. -/
def Undone (side : Side) (op : Int) : Prop :=
  ∀ count d hView, stripOctet side d (addOctet side count hView op).2 op = hView

/-- The two tests of the operation value differ from 128 on. -/
theorem carries_iff (op : Int) : mtsCarries op = uaCarries op ↔ op < 128 := by
  unfold mtsCarries uaCarries
  constructor
  · intro h
    by_contra hge
    rw [decide_eq_false (p := op < 128) hge, Bool.and_false, eq_comm, decide_eq_false_iff_not] at h
    omega
  · intro h
    rw [decide_eq_true (p := op < 128) h, Bool.and_true, decide_eq_decide]
    omega

/-- **The strip undoes the addition** exactly where the two tests agree. -/
theorem undone_iff (side : Side) (op : Int) : Undone side op ↔ op < 128 := by
  rw [← carries_iff]
  constructor
  · intro h
    have hview := h 0 ⟨fun _ => 0⟩ ⟨[], 0⟩
    rw [stripOctet_eq, addOctet_eq] at hview
    cases side <;> cases hm : mtsCarries op <;> cases hu : uaCarries op <;>
      simp only [carries, hm, hu, if_true, Bool.false_eq_true, if_false] at hview ⊢
    · exact absurd hview (strip_ne _)
    · exact absurd hview (prepend_ne _ _)
    · exact absurd hview (prepend_ne _ _)
    · exact absurd hview (strip_ne _)
  · intro h count d hView
    rw [stripOctet_eq, addOctet_eq]
    have hsame : ∀ b : Bool, (if b then (if b then prepend hView count else hView).strip 1
        else (if b then prepend hView count else hView)) = hView := by
      intro b
      cases b
      · rfl
      · exact strip_prepend hView count
    cases side
    · simp only [carries, h]
      exact hsame _
    · simp only [carries, h]
      exact hsame _

/-! ## The instance ids of a run -/

/-- All of the UA's INVOKEs go to the one MTS that it knows. -/
def peer : Side → NSapAddr → Invoke → NSapAddr
  | .mts, _, x => x.nsap
  | .ua, mtsNsap, _ => mtsNsap

/-- The INVOKEs that the core of one side issues, one after the other: the peer, the operation value
and the view. -/
def issue (side : Side) (mtsNsap : NSapAddr) (count : UInt8) :
    List Invoke → List (NSapAddr × Int × DU)
  | [] => []
  | x :: rest =>
    let r := addOctet side count (.ofOctets x.data) x.operationValue
    (peer side mtsNsap x, x.operationValue, r.2) :: issue side mtsNsap r.1 rest

/-- The instance ids of the INVOKEs to one peer, in order. -/
def instanceIds (side : Side) (nsap : NSapAddr) (issued : List (NSapAddr × Int × DU)) : List UInt8 :=
  issued.filterMap fun x => if x.1 = nsap ∧ carries side x.2.1 then some (x.2.2.get1 0) else none

/-- Two INVOKEs less than half the window apart carry different ids. -/
def Distinct (ids : List UInt8) : Prop :=
  ∀ i j x, i < j → j < i + 128 → ids[i]? = some x → ids[j]? ≠ some x

/-- The INVOKEs to one peer to which the MTS adds an octet. -/
def stamped (nsap : NSapAddr) (invokes : List Invoke) : List Invoke :=
  invokes.filter fun x => x.nsap = nsap && mtsCarries x.operationValue

theorem issue_cons (side : Side) (mtsNsap : NSapAddr) (count : UInt8) (x : Invoke)
    (rest : List Invoke) :
    issue side mtsNsap count (x :: rest) =
      (peer side mtsNsap x, x.operationValue,
        (addOctet side count (.ofOctets x.data) x.operationValue).2) ::
        issue side mtsNsap (addOctet side count (.ofOctets x.data) x.operationValue).1 rest := rfl

theorem instanceIds_cons (side : Side) (mtsNsap nsap : NSapAddr) (count : UInt8) (x : Invoke)
    (rest : List Invoke) :
    instanceIds side nsap (issue side mtsNsap count (x :: rest)) =
      (if peer side mtsNsap x = nsap ∧ carries side x.operationValue then [count] else []) ++
        instanceIds side nsap (issue side mtsNsap
          (addOctet side count (.ofOctets x.data) x.operationValue).1 rest) := by
  rw [issue_cons, addOctet_eq]
  unfold instanceIds
  rw [List.filterMap_cons]
  dsimp only
  by_cases h : peer side mtsNsap x = nsap ∧ carries side x.operationValue = true
  · rw [if_pos h, if_pos h, if_pos h.2]
    rfl
  · rw [if_neg h, if_neg h]
    rfl

theorem mts_count (count : UInt8) (hView : DU) (op : Int) : (addOctet .mts count hView op).1 = count := by
  unfold addOctet invokeOut
  dsimp only
  split <;> rfl

theorem ua_count (count : UInt8) (hView : DU) (op : Int) :
    (addOctet .ua count hView op).1 = if uaCarries op then count + 1 else count := by
  unfold addOctet addDuplicateDetection
  dsimp only
  split <;> rfl

/-- All ids of the MTS are what `invokeCount` has been from the start. -/
theorem mts_instanceIds (mtsNsap nsap : NSapAddr) (count : UInt8) (invokes : List Invoke) :
    instanceIds .mts nsap (issue .mts mtsNsap count invokes) =
      List.replicate (stamped nsap invokes).length count := by
  induction invokes with
  | nil => rfl
  | cons x rest ih =>
    rw [instanceIds_cons, mts_count, ih]
    unfold stamped
    rw [List.filter_cons]
    by_cases hx : peer .mts mtsNsap x = nsap ∧ carries .mts x.operationValue = true
    · rw [if_pos hx, if_pos (by simpa [peer, carries] using hx)]
      rfl
    · rw [if_neg hx, if_neg (by simpa [peer, carries] using hx)]
      rfl

/-- No INVOKE of the UA goes to another peer. -/
theorem ua_instanceIds_other {mtsNsap nsap : NSapAddr} (h : mtsNsap ≠ nsap) (count : UInt8)
    (invokes : List Invoke) : instanceIds .ua nsap (issue .ua mtsNsap count invokes) = [] := by
  induction invokes generalizing count with
  | nil => rfl
  | cons x rest ih =>
    rw [instanceIds_cons, if_neg fun hp => h hp.1, ih]
    rfl

/-- The ids of the UA count up from where the counter is. -/
theorem ua_instanceIds (mtsNsap : NSapAddr) (count : UInt8) (invokes : List Invoke) :
    ∃ n, instanceIds .ua mtsNsap (issue .ua mtsNsap count invokes) =
      (List.range n).map fun k => count + UInt8.ofNat k := by
  induction invokes generalizing count with
  | nil => exact ⟨0, rfl⟩
  | cons x rest ih =>
    rw [instanceIds_cons, ua_count]
    by_cases hc : uaCarries x.operationValue = true
    · obtain ⟨n, hn⟩ := ih (count + 1)
      refine ⟨n + 1, ?_⟩
      rw [if_pos hc, hn, if_pos ⟨rfl, hc⟩, List.range_succ_eq_map, List.map_cons, List.map_map]
      refine congrArg₂ List.cons (by simp) (List.map_congr_left fun k _ => ?_)
      show count + 1 + UInt8.ofNat k = count + UInt8.ofNat (k + 1)
      rw [UInt8.ofNat_add, UInt8.add_assoc, UInt8.add_comm 1]
      rfl
    · obtain ⟨n, hn⟩ := ih count
      rw [if_neg hc, hn, if_neg fun h => hc h.2]
      exact ⟨n, rfl⟩

theorem distinct_replicate {n : Nat} {x : UInt8} : Distinct (List.replicate n x) ↔ n ≤ 1 := by
  constructor
  · intro h
    by_contra hn
    refine h 0 1 x (by decide) (by decide) ?_ ?_
    · rw [List.getElem?_replicate, if_pos (by omega)]
    · rw [List.getElem?_replicate, if_pos (by omega)]
  · intro hn i j y hij _ _ hj
    have hlt : j < n := by
      have := (List.getElem?_eq_some_iff.1 hj).1
      rwa [List.length_replicate] at this
    omega

theorem distinct_counting (n : Nat) (count : UInt8) :
    Distinct ((List.range n).map fun k => count + UInt8.ofNat k) := by
  intro i j x hij hlt hi hj
  rw [List.getElem?_map, Option.map_eq_some_iff] at hi hj
  obtain ⟨i', hi', hx⟩ := hi
  obtain ⟨j', hj', rfl⟩ := hj
  obtain ⟨hin, rfl⟩ := List.getElem?_eq_some_iff.1 hi'
  obtain ⟨hjn, rfl⟩ := List.getElem?_eq_some_iff.1 hj'
  rw [List.getElem_range, List.getElem_range] at hx
  have hnat := congrArg UInt8.toNat ((UInt8.add_right_inj count).1 hx)
  rw [UInt8.toNat_ofNat', UInt8.toNat_ofNat'] at hnat
  omega

/-- Two deliveries to one subscriber, in one segment each. -/
def twoDeliveries : List Invoke := [⟨[10, 0, 0, 7], 35, [1]⟩, ⟨[10, 0, 0, 7], 35, [2]⟩]

end Dup

end Mtsua
