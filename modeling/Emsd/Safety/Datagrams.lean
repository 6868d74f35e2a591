import Emsd.Safety.Outcomes

/-!
# Short datagrams

What `erop_inPdu` reads and strips of a received datagram. The header of a PDU has two or three octets,
by the type in the first one; it is read octet by octet and taken off with `DU_strip`, and nobody asks
whether the datagram has that many.

* `readPdu_reads`: the decoder sees the octets of the header and what is left behind them, nothing else.
* `decoder_safe_iff`: **a datagram is decoded safely exactly when it is not too short.**
* `short_datagram`: one octet is taken for an INVOKE PDU, and indicated.
-/

namespace Erop

open Ocp Engine Run

variable {cfg : Config} {e : Engine} {env : Env} {tsap : TSapSel} {nsap : NSapAddr} {du du' : DU}

/-- The octets of the header, by its first octet; of an unknown type only that one is read. -/
def pciLength (c : UInt8) : ℕ :=
  match (c &&& 0x07).toNat with
  | 0 => 3
  | 1 => 2
  | 2 => 3
  | 3 => 2
  | 4 => 3
  | _ => 1

/-- The offsets that `erop_inPdu` reads at. -/
def octetsRead (du : DU) : List ℕ :=
  if du.size = 0 then [] else List.range (pciLength (du.get1 0))

/-- A datagram that has octets, but not those of its header. -/
def TooShort (du : DU) : Prop := du.size ≠ 0 ∧ du.size < pciLength (du.get1 0)

instance : Decidable (TooShort du) := inferInstanceAs (Decidable (_ ∧ _))

/-- How many octets `erop_inPdu` strips, if it comes so far: an ACK PDU and a FAILURE PDU are looked up
first, and ignored where there is no `InvokeInfo` for them. -/
def stripped (e : Engine) (env : Env) (tsap : TSapSel) (nsap : NSapAddr) (du : DU) : Option ℕ :=
  (readPdu tsap nsap du).bind fun pdu =>
    if pdu.pdutype = .ack ∨ pdu.pdutype = .failure then
      if (e.getInvoke env pdu).2.2.isSome then some (pciLength (du.get1 0)) else none
    else some (pciLength (du.get1 0))

/-- **The decoder sees nothing but the header**, and what is left when it is stripped. -/
theorem readPdu_reads (hsize : du.size = du'.size) (hread : ∀ k ∈ octetsRead du, du.get1 k = du'.get1 k)
    (hdata : ∀ n, (du.strip n).octets = (du'.strip n).octets) :
    readPdu tsap nsap du = readPdu tsap nsap du' := by
  unfold readPdu
  by_cases h0 : du.size = 0
  · rw [if_pos h0, if_pos (hsize ▸ h0)]
  · have h0' : du'.size ≠ 0 := hsize ▸ h0
    rw [if_neg h0, if_neg h0']
    unfold octetsRead at hread
    rw [if_neg h0] at hread
    have hstrip : ∀ n, (du.strip n).size = (du'.strip n).size := by
      intro n
      change du.size - n = du'.size - n
      rw [hsize]
    have hget : ∀ k, k < pciLength (du.get1 0) → du.get1 k = du'.get1 k :=
      fun k hk => hread k (List.mem_range.2 hk)
    have hpos : 0 < pciLength (du.get1 0) := by
      unfold pciLength
      split <;> decide
    have hc := hget 0 hpos
    -- the second and the third octet are read only for the types that have them
    unfold pciLength at hget
    rw [← hc]
    split at hget
    · rename_i ht
      simp only [ht, hget 1 (by decide), hget 2 (by decide), hdata]
    · rename_i ht
      simp only [ht, hget 1 (by decide), hdata]
    · rename_i ht
      simp only [ht, hget 1 (by decide), hget 2 (by decide), hdata]
    · rename_i ht
      simp only [ht, hget 1 (by decide), hdata, hstrip]
    · rename_i ht
      simp only [ht, hget 1 (by decide), hget 2 (by decide), hdata]
    · -- an unknown type is rejected at once
      split <;> simp_all

/-- No octet past the end is read, what is left has no negative size, and a datagram that is too short
is rejected before anything happens. -/
structure DecodesSafely (cfg : Config) (e : Engine) (env : Env) (tsap : TSapSel) (nsap : NSapAddr)
    (du : DU) : Prop where
  reads : ∀ k ∈ octetsRead du, (k : ℤ) < du.size
  strips : ∀ n, stripped e env tsap nsap du = some n → 0 ≤ (du.strip n).size
  rejects : TooShort du → e.lowerDataInd cfg env tsap nsap du = some (e, [])

/-- The datagram `o`, with `rest` behind it in memory. -/
def datagram (o rest : Octets) : DU := ⟨o ++ rest, o.length⟩

theorem readPdu_size (h : du.size = 0) : readPdu tsap nsap du = none := by
  unfold readPdu
  exact if_pos h

/-- **A datagram is decoded safely exactly when it is not too short.** -/
theorem decoder_safe_iff (cfg : Config) (e : Engine) (env : Env) (tsap : TSapSel) (nsap : NSapAddr)
    (o rest : Octets) :
    DecodesSafely cfg e env tsap nsap (datagram o rest) ↔ ¬TooShort (datagram o rest) := by
  constructor
  · rintro hsafe ⟨h0, hshort⟩
    -- the octet at the end of the datagram is read
    have hmem : o.length ∈ octetsRead (datagram o rest) := by
      unfold octetsRead
      rw [if_neg h0]
      apply List.mem_range.2
      exact Int.ofNat_lt.1 hshort
    have hlt := hsafe.reads o.length hmem
    exact Int.lt_irrefl _ hlt
  · intro hlong
    -- where octets are read or stripped there is one at least, so that the header is there
    have henough : (datagram o rest).size ≠ 0 →
        (pciLength ((datagram o rest).get1 0) : ℤ) ≤ (datagram o rest).size :=
      fun h0 => Int.not_lt.1 fun h => hlong ⟨h0, h⟩
    refine ⟨fun k hk => ?_, fun n hn => ?_, fun hs => absurd hs hlong⟩
    · unfold octetsRead at hk
      split at hk
      · exact absurd hk List.not_mem_nil
      · rename_i h0
        have hk' := List.mem_range.1 hk
        have := henough h0
        omega
    · have h0 : (datagram o rest).size ≠ 0 := by
        intro h0
        unfold stripped at hn
        rw [readPdu_size h0] at hn
        cases hn
      have hpci : n = pciLength ((datagram o rest).get1 0) := by
        obtain ⟨pdu, -, hn⟩ := Option.bind_eq_some_iff.1 hn
        split at hn
        · split at hn
          · exact (Option.some.inj hn).symm
          · cases hn
        · exact (Option.some.inj hn).symm
      have := henough h0
      change 0 ≤ (datagram o rest).size - n
      omega

/-- An octet that looks like the first one of an INVOKE PDU, and two octets behind it. -/
def loneOctet : DU := datagram [0x10] [9, 5]

/-- **A datagram of one octet is taken for an INVOKE PDU**: it gets an `InvokeInfo`, its machine is run
and an indication is queued, with a data unit of the size -2. -/
theorem short_datagram : ∃ hist e e' o, Reach (engine {}) Run.any hist e ∧
    e.lowerDataInd {} {} [0, 7] [10, 0, 0, 1] loneOctet = some (e', o) ∧
      (e.heap 0 = none ∧ (e'.heap 0).isSome = true) ∧
      .sch (.invokeInd 0 1 0 [0, 7] [10, 0, 0, 1] 5 .ber (some [])) ∈ o ∧
      (loneOctet.strip 3).size = -2 ∧
      ¬DecodesSafely {} e {} [0, 7] [10, 0, 0, 1] loneOctet := by
  have hrun : ((engine {}).run always (Engine.init 0) [⟨.sapBind 1 3, {}⟩]).any (fun r =>
      r.1.heap 0 = none ∧
        (r.1.lowerDataInd {} {} [0, 7] [10, 0, 0, 1] loneOctet).any fun s =>
          (s.1.heap 0).isSome = true ∧
            .sch (.invokeInd 0 1 0 [0, 7] [10, 0, 0, 1] 5 .ber (some [])) ∈ s.2) = true := by decide
  obtain ⟨e, hist, hr, hm⟩ := Reach.of_run_any (S := engine {}) ⟨0, rfl⟩ [⟨.sapBind 1 3, {}⟩]
    (fun e _ => e.heap 0 = none ∧
        (e.lowerDataInd {} {} [0, 7] [10, 0, 0, 1] loneOctet).any fun s =>
          (s.1.heap 0).isSome = true ∧
            .sch (.invokeInd 0 1 0 [0, 7] [10, 0, 0, 1] 5 .ber (some [])) ∈ s.2) hrun
  obtain ⟨hnone, hs⟩ := of_decide_eq_true hm
  obtain ⟨⟨e', o⟩, hs, hst⟩ := (Option.any_eq_true _ _).1 hs
  obtain ⟨hsome, hsch⟩ := of_decide_eq_true hst
  refine ⟨hist, e, e', o, hr, hs, ⟨hnone, hsome⟩, hsch, rfl, fun hsafe => ?_⟩
  exact (decoder_safe_iff {} e {} [0, 7] [10, 0, 0, 1] [0x10] [9, 5]).1 hsafe (by decide)

end Erop
