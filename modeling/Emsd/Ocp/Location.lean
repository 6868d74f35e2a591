import Emsd.Ocp.Reading

/-!
# The current location (`buf.c`)

* `getOctet_moves`, `getString_moves`: a read moves the current location by what it reads, and
  `BUF_ungetOctet` moves it back.
-/

namespace Ocp.Buf

variable {b b' : Buf}

/-- The octets in front of the current location. -/
def location (b : Buf) : Nat := (b.segs.take b.currentSeg).flatten.length + b.pX

/-- The octets in front of the next segment. -/
theorem take_next {segs : List Octets} {n : Nat} {seg : Octets} (h : segs[n]? = some seg) :
    (segs.take (n + 1)).flatten.length = (segs.take n).flatten.length + seg.length := by
  rw [List.take_add_one, h]
  simp

theorem getOctet_moves {octet : UInt8} (hb : b.Located) (h : b.getOctet = .ok octet b') :
    (b'.Located ∧ b'.location = b.location + 1) ∧
      b'.ungetOctet.Located ∧ b'.ungetOctet.location = b.location := by
  unfold getOctet at h
  cases hseg : b.segs[b.currentSeg]? with
  | none => rw [hseg] at h; cases h
  | some seg =>
    rw [hseg] at h
    dsimp only at h
    split at h
    · -- the octet is the first one of the next segment
      rename_i hend
      cases hnext : b.segs[b.currentSeg + 1]? with
      | none => rw [hnext] at h; cases h
      | some next =>
        rw [hnext] at h
        cases next with
        | nil => cases h
        | cons x xs =>
          cases h
          have htake := take_next hseg
          have hhead : (b.segs.drop (b.currentSeg + 1)).head? = some (octet :: xs) := by
            rw [List.head?_drop, hnext]
          refine ⟨⟨fun s hs => ?_, ?_⟩, fun s hs => ?_, ?_⟩
          · obtain rfl := Option.some.inj (hhead.symm.trans hs)
            exact Nat.succ_le_succ (Nat.zero_le _)
          · simp only [location, htake]
            omega
          · exact Nat.zero_le _
          · simp only [location, ungetOctet]
            rw [if_neg (by decide), htake, hend]
            rfl
    · split at h
      · cases h
      · rename_i x hx
        cases h
        obtain ⟨hlt, -⟩ := List.getElem?_eq_some_iff.1 hx
        have hhead : (b.segs.drop b.currentSeg).head? = some seg := by
          rw [List.head?_drop, hseg]
        have hunget : ({ b with pX := b.pX + 1 } : Buf).ungetOctet = b := by
          simp [ungetOctet]
        refine ⟨⟨fun s hs => ?_, ?_⟩, ?_, ?_⟩
        · obtain rfl := Option.some.inj (hhead.symm.trans hs)
          exact hlt
        · rfl
        · rwa [hunget]
        · rw [hunget]

theorem skipSegs_moves {segs : List Octets} {x skipped x' : Nat} {octets : Octets}
    (hx : InSeg segs x) (h : skipSegs segs x = some (skipped, x', octets)) :
    (segs.take skipped).flatten.length + x' = x ∧ 0 < octets.length ∧
      ∃ seg, (segs.drop skipped).head? = some seg ∧ x' + octets.length = seg.length := by
  induction segs generalizing x skipped with
  | nil => cases h
  | cons seg segs ih =>
    have hle : x ≤ seg.length := hx seg rfl
    unfold skipSegs at h
    split at h
    · -- this segment is passed over
      rename_i hzero
      obtain ⟨⟨skipped', r⟩, hr, heq⟩ := Option.map_eq_some_iff.1 h
      cases heq
      obtain ⟨hloc, hpos, seg', hseg', hlen⟩ := ih (x := 0) (fun _ _ => Nat.zero_le _) hr
      refine ⟨?_, hpos, seg', hseg', hlen⟩
      rw [List.take_succ_cons, List.flatten_cons, List.length_append]
      dsimp only
      omega
    · rename_i hne
      cases h
      refine ⟨by simp, ?_, seg, rfl, ?_⟩
      · rw [List.length_drop]
        omega
      · rw [List.length_drop]
        omega

theorem getChunk_moves {octets : Octets} {len : Nat} (hb : b.Located) (hlen : 0 < len)
    (h : b.getChunk len = .ok octets b') :
    b'.Located ∧ b'.location = b.location + octets.length ∧ 0 < octets.length ∧
      octets.length ≤ len := by
  unfold getChunk at h
  cases hskip : skipSegs (b.segs.drop b.currentSeg) b.pX with
  | none => rw [hskip] at h; cases h
  | some r =>
    obtain ⟨skipped, x, left⟩ := r
    rw [hskip] at h
    dsimp only at h
    obtain ⟨hloc, hpos, seg, hseg, hsize⟩ := skipSegs_moves hb hskip
    obtain ⟨n, hn, hle⟩ : ∃ n, (if len ≠ 0 ∧ left.length > len then len else left.length) = n ∧
        0 < n ∧ n ≤ len ∧ n ≤ left.length := by
      refine ⟨_, rfl, ?_⟩
      split <;> omega
    rw [hn] at h
    cases h
    have htake : (left.take n).length = n := by
      rw [List.length_take]
      omega
    rw [List.drop_drop] at hseg
    refine ⟨fun s hs => ?_, ?_, ?_, ?_⟩
    · obtain rfl := Option.some.inj (hseg.symm.trans hs)
      show x + n ≤ seg.length
      omega
    · simp only [location, htake, List.take_add, List.flatten_append, List.length_append]
      omega
    · rw [htake]
      exact hle.1
    · rw [htake]
      exact hle.2.1

theorem getString_moves {octets : Octets} {len fuel : Nat} (hb : b.Located) (hle : len ≤ fuel)
    (h : getString.go fuel b len = .ok octets b') :
    b'.Located ∧ b'.location = b.location + len := by
  induction fuel generalizing b len octets with
  | zero =>
    cases h
    exact ⟨hb, by omega⟩
  | succ fuel ih =>
    unfold getString.go at h
    split at h
    · cases h
      exact ⟨hb, by omega⟩
    rename_i hne
    cases hchunk : b.getChunk len with
    | exhausted => rw [hchunk] at h; cases h
    | beyond => rw [hchunk] at h; cases h
    | ok chunk b₁ =>
      rw [hchunk] at h
      dsimp only at h
      obtain ⟨hb₁, hloc, hpos, hmax⟩ := getChunk_moves hb (Nat.pos_of_ne_zero hne) hchunk
      cases hgo : getString.go fuel b₁ (len - chunk.length) with
      | exhausted => rw [hgo] at h; cases h
      | beyond => rw [hgo] at h; cases h
      | ok rest b₂ =>
        rw [hgo] at h
        cases h
        obtain ⟨hb₂, hloc₂⟩ := ih hb₁ (by omega) hgo
        exact ⟨hb₂, by omega⟩

end Ocp.Buf
