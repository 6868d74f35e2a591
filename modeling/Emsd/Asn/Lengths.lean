import Emsd.Asn.Formatting

/-!
# The octets of a length (`asnber.c`)

`formatLength` writes any number of an `OS_Uint32`. `parseLength` shifts the octets of the long form
into an `OS_Uint32`, up to 127 of them, and what is shifted out on the left is lost.

* `getLength_formatLength`: **what has been written is read again**, whatever comes behind it.
* `getLength_value_iff`: the length that is read is the one that the octets stand for exactly when all
  octets of the long form but the last four are zero.
-/

namespace Asn

open Ocp

variable {b b' : Buf} {octet : UInt8} {octets : Octets} {n len lengthOfLength : Nat}

/-! ## What comes behind -/

/-- A buffer with more segments behind its own. -/
def behind (post : List Octets) (b : Buf) : Buf := { b with segs := b.segs ++ post }

theorem getOctet_behind (post : List Octets) (h : b.getOctet = .ok octet b') :
    (behind post b).getOctet = .ok octet (behind post b') := by
  unfold Buf.getOctet behind at *
  cases hseg : b.segs[b.currentSeg]? with
  | none => rw [hseg] at h; cases h
  | some seg =>
    rw [hseg] at h
    dsimp only at h ⊢
    rw [List.getElem?_append_left (List.getElem?_eq_some_iff.1 hseg).1, hseg]
    dsimp only
    split at h
    · rename_i hend
      rw [if_pos hend]
      cases hnext : b.segs[b.currentSeg + 1]? with
      | none => rw [hnext] at h; cases h
      | some next =>
        rw [hnext] at h
        rw [List.getElem?_append_left (List.getElem?_eq_some_iff.1 hnext).1, hnext]
        cases next with
        | nil => cases h
        | cons x xs => cases h; rfl
    · rename_i hend
      rw [if_neg hend]
      split at h
      · cases h
      · cases h; rfl

theorem getOctets_behind (post : List Octets) (h : getOctets n b = .ok octets b') :
    getOctets n (behind post b) = .ok octets (behind post b') := by
  induction n generalizing b octets with
  | zero =>
    cases h
    rfl
  | succ n ih =>
    unfold getOctets at h ⊢
    cases hget : b.getOctet with
    | exhausted => rw [hget] at h; cases h
    | beyond => rw [hget] at h; cases h
    | ok octet b₁ =>
      rw [hget] at h
      rw [getOctet_behind post hget]
      dsimp only at h ⊢
      cases hrest : getOctets n b₁ with
      | exhausted => rw [hrest] at h; cases h
      | beyond => rw [hrest] at h; cases h
      | ok octets' b₂ =>
        rw [hrest] at h
        cases h
        rw [ih hrest]

/-- **What comes behind a length** does not matter to it. -/
theorem getLength_behind (post : List Octets) (h : getLength b = .ok (len, lengthOfLength) b') :
    getLength (behind post b) = .ok (len, lengthOfLength) (behind post b') := by
  unfold getLength at h ⊢
  cases hget : b.getOctet with
  | exhausted => rw [hget] at h; cases h
  | beyond => rw [hget] at h; cases h
  | ok x b₁ =>
    rw [hget] at h
    rw [getOctet_behind post hget]
    dsimp only at h ⊢
    split at h
    · rename_i hlong
      rw [if_pos hlong]
      cases hocts : getOctets (x &&& 0x7f).toNat b₁ with
      | exhausted => rw [hocts] at h; cases h
      | beyond => rw [hocts] at h; cases h
      | ok octets b₂ =>
        rw [hocts] at h
        cases h
        rw [getOctets_behind post hocts]
    · rename_i hlong
      rw [if_neg hlong]
      cases h
      rfl

/-! ## What is read -/

theorem getOctet_takes (hb : b.Located) (h : b.getOctet = .ok octet b') :
    b'.Located ∧ b.rest = octet :: b'.rest := by
  cases hrest : b.rest with
  | nil => exact absurd h (Buf.getOctet_end ⟨hb, hrest⟩ octet b')
  | cons x xs =>
    rcases Buf.getOctet_cases ⟨hb, hrest⟩ with ⟨b₁, hok, hgot⟩ | ⟨hbey, -⟩
    · rw [h] at hok
      obtain ⟨rfl, rfl⟩ := Read.ok.inj hok
      exact ⟨hgot.holds.located, congrArg _ hgot.holds.rest.symm⟩
    · rw [h] at hbey
      cases hbey

theorem getOctets_takes (hb : b.Located) (h : getOctets n b = .ok octets b') :
    b'.Located ∧ octets.length = n ∧ b.rest = octets ++ b'.rest := by
  induction n generalizing b octets with
  | zero =>
    cases h
    exact ⟨hb, rfl, rfl⟩
  | succ n ih =>
    unfold getOctets at h
    cases hget : b.getOctet with
    | exhausted => rw [hget] at h; cases h
    | beyond => rw [hget] at h; cases h
    | ok octet b₁ =>
      rw [hget] at h
      dsimp only at h
      obtain ⟨hb₁, hrest₁⟩ := getOctet_takes hb hget
      cases hocts : getOctets n b₁ with
      | exhausted => rw [hocts] at h; cases h
      | beyond => rw [hocts] at h; cases h
      | ok octets' b₂ =>
        rw [hocts] at h
        cases h
        obtain ⟨hb₂, hlen, hrest₂⟩ := ih hb₁ hocts
        refine ⟨hb₂, congrArg (· + 1) hlen, ?_⟩
        rw [hrest₁, hrest₂]
        rfl

/-- The octets of the long form that the first octet of a length announces. -/
def longForm : Octets → Octets
  | [] => []
  | x :: octets => if x &&& 0x80 ≠ 0 then octets.take (x &&& 0x7f).toNat else []

/-- The number that the octets of a length stand for. -/
def lengthValue : Octets → Nat
  | [] => 0
  | x :: octets =>
    if x &&& 0x80 ≠ 0 then Numeral.value 256 ((longForm (x :: octets)).map UInt8.toNat)
    else x.toNat

theorem longForm_long {x : UInt8} (h : x &&& 0x80 ≠ 0) :
    longForm (x :: octets) = octets.take (x &&& 0x7f).toNat :=
  if_pos h

theorem longForm_short {x : UInt8} (h : ¬x &&& 0x80 ≠ 0) : longForm (x :: octets) = [] := if_neg h

/-- The octets of the long form in front of the last four. -/
def highOctets (octets : Octets) : Octets :=
  (longForm octets).take ((longForm octets).length - 4)

/-- The octets of a long form give its value when all but the last four are zero. -/
theorem shiftIn_value_iff (octets : Octets) :
    shiftIn octets = Numeral.value 256 (octets.map UInt8.toNat) ↔
      ∀ octet ∈ octets.take (octets.length - 4), octet = 0 := by
  have hlt : ∀ d ∈ octets.map UInt8.toNat, d < 256 := by
    intro d hd
    obtain ⟨octet, -, rfl⟩ := List.mem_map.1 hd
    exact octet.toNat_lt
  have hpow : (2 : Nat) ^ 32 = 256 ^ 4 := by decide
  rw [shiftIn_eq, hpow]
  have hiff := Numeral.value_lt_pow_iff (by decide : 1 < 256) hlt 4
  rw [List.length_map, ← List.map_take, List.forall_mem_map] at hiff
  calc Numeral.value 256 (octets.map UInt8.toNat) % 256 ^ 4
          = Numeral.value 256 (octets.map UInt8.toNat)
      ↔ Numeral.value 256 (octets.map UInt8.toNat) < 256 ^ 4 :=
        Nat.mod_eq_iff_lt (by decide)
    _ ↔ ∀ octet ∈ octets.take (octets.length - 4), octet.toNat = 0 := hiff
    _ ↔ ∀ octet ∈ octets.take (octets.length - 4), octet = 0 :=
        forall₂_congr fun octet _ => UInt8.toNat_inj (b := 0)

/-- A length that is read: how many octets it has, and when it is the one that they stand for. -/
theorem getLength_value_iff (hb : b.Located) (h : getLength b = .ok (len, lengthOfLength) b') :
    b'.rest = b.rest.drop lengthOfLength ∧
      (len = lengthValue b.rest ↔ ∀ octet ∈ highOctets b.rest, octet = 0) := by
  unfold getLength at h
  cases hget : b.getOctet with
  | exhausted => rw [hget] at h; cases h
  | beyond => rw [hget] at h; cases h
  | ok x b₁ =>
    rw [hget] at h
    dsimp only at h
    obtain ⟨hb₁, hrest₁⟩ := getOctet_takes hb hget
    rw [hrest₁]
    unfold highOctets lengthValue
    dsimp only
    split at h
    · rename_i hlong
      rw [if_pos hlong, longForm_long hlong]
      cases hocts : getOctets (x &&& 0x7f).toNat b₁ with
      | exhausted => rw [hocts] at h; cases h
      | beyond => rw [hocts] at h; cases h
      | ok octets b₂ =>
        rw [hocts] at h
        cases h
        obtain ⟨-, hlen, hrest₂⟩ := getOctets_takes hb₁ hocts
        have htake : b₁.rest.take (x &&& 0x7f).toNat = octets := by
          rw [hrest₂, ← hlen, List.take_left]
        rw [htake]
        refine ⟨?_, shiftIn_value_iff octets⟩
        rw [hrest₂, List.drop_succ_cons, ← hlen, List.drop_left]
    · rename_i hlong
      rw [if_neg hlong, longForm_short hlong]
      cases h
      exact ⟨rfl, iff_of_true rfl fun octet hoctet => by cases hoctet⟩

/-! ## What is written -/

/-- The segments that octets put in front of a buffer end up in: none of them is empty. -/
theorem addOctets_segs (f : Front) (os : Octets) : ∃ pre post tail,
    (addOctets f os).segs = pre ++ post ∧ (∀ seg ∈ pre, seg ≠ []) ∧ pre.flatten = os ++ tail := by
  induction os with
  | nil => exact ⟨[], f.segs, [], rfl, by simp, rfl⟩
  | cons o os ih =>
    obtain ⟨pre, post, tail, hsegs, hpre, hflat⟩ := ih
    show ∃ pre post tail, ((addOctets f os).addOctet o).segs = pre ++ post ∧ _ ∧ _
    unfold Front.addOctet
    split
    · -- a segment of its own
      refine ⟨[o] :: pre, post, tail, ?_, ?_, ?_⟩
      · rw [hsegs]
        rfl
      · simpa using hpre
      · simp [hflat]
    · cases pre with
      | nil =>
        -- nothing has been put in front yet
        have hos : os = [] := (List.append_eq_nil_iff.1 hflat.symm).1
        refine ⟨[o :: post.headD []], post.tail, post.headD [], ?_, by simp, by simp [hos]⟩
        rw [hsegs]
        rfl
      | cons seg pre =>
        refine ⟨(o :: seg) :: pre, post, tail, ?_, ?_, ?_⟩
        · rw [hsegs]
          rfl
        · simp only [List.forall_mem_cons] at hpre ⊢
          exact ⟨List.cons_ne_nil _ _, hpre.2⟩
        · rw [List.flatten_cons] at hflat ⊢
          rw [List.cons_append, hflat, List.cons_append]

/-- **A length that has been written** is read again, and nothing behind it is. -/
theorem getLength_formatLength (hn : n < 2 ^ 32) (f : Front) :
    ∃ b', getLength (formatLength n f).1.buf = .ok (n, (formatLength n f).2) b' ∧
      b'.rest = f.octets := by
  rw [formatLength_eq]
  obtain ⟨pre, post, tail, hsegs, hpre, hflat⟩ := addOctets_segs f (lengthOctets n)
  have hholds : (⟨pre, 0, 0⟩ : Buf).Holds (lengthOctets n ++ tail) :=
    ⟨fun _ _ => Nat.zero_le _, hflat⟩
  have hsolid : (⟨pre, 0, 0⟩ : Buf).Solid := fun seg hseg => hpre seg (List.mem_of_mem_dropLast hseg)
  obtain ⟨b₁, hread, -, -⟩ := getLength_lengthOctets hn hsolid hholds
  have hbuf : behind post ⟨pre, 0, 0⟩ = (addOctets f (lengthOctets n)).buf := by
    unfold behind Front.buf
    rw [hsegs]
  have hok := getLength_behind post hread
  rw [hbuf] at hok
  refine ⟨_, hok, ?_⟩
  rw [(getLength_value_iff Front.buf_located hok).1, Front.buf_rest, addOctets_octets, List.drop_left]

/-- **Lengths**: each one that is written is read again, and one that is read is what its octets stand
for exactly when none but the last four octets of its long form count. -/
theorem lengths (f : Front) (b : Buf) :
    (∀ n < 2 ^ 32, ∃ b', getLength (formatLength n f).1.buf = .ok (n, (formatLength n f).2) b' ∧
      b'.rest = f.octets) ∧
    ∀ len lengthOfLength b', b.Located → getLength b = .ok (len, lengthOfLength) b' →
      b'.rest = b.rest.drop lengthOfLength ∧
        (len = lengthValue b.rest ↔ ∀ octet ∈ highOctets b.rest, octet = 0) :=
  ⟨fun _ hn => getLength_formatLength hn f, fun _ _ _ => getLength_value_iff⟩

/-- A length in the long form with leading zeros. -/
theorem lengths_leading_zeros :
    (∃ b', getLength (formatLength 300 (Front.alloc 16)).1.buf = .ok (300, 3) b' ∧ b'.rest = []) ∧
    lengthValue [0x85, 0, 0, 0, 1, 0x2c] = 300 := by
  have hall := lengths (Front.alloc 16) ⟨[[0x85, 0, 0, 0, 1, 0x2c]], 0, 0⟩
  refine ⟨?_, ?_⟩
  · exact hall.1 300 (by decide)
  · have hread : getLength ⟨[[0x85, 0, 0, 0, 1, 0x2c]], 0, 0⟩ =
        .ok (300, 6) ⟨[[0x85, 0, 0, 0, 1, 0x2c]], 0, 6⟩ := by decide
    have hhigh : highOctets (Buf.mk [[0x85, 0, 0, 0, 1, 0x2c]] 0 0).rest = [0] := by decide
    refine ((hall.2 _ _ _ (fun _ _ => Nat.zero_le _) hread).2.2 fun octet hoctet => ?_).symm
    rw [hhigh] at hoctet
    exact List.mem_singleton.1 hoctet

/-- **A length that is lost**: five octets that stand for 2^32 are read as zero. -/
theorem length_shifted_out :
    getLength ⟨[[0x85, 1, 0, 0, 0, 0]], 0, 0⟩ = .ok (0, 6) ⟨[[0x85, 1, 0, 0, 0, 0]], 0, 6⟩ ∧
      lengthValue [0x85, 1, 0, 0, 0, 0] = 2 ^ 32 := by
  decide

end Asn
