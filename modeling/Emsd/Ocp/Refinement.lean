import Emsd.Ocp.Cloning
import Emsd.Ocp.Joining

/-!
# Buffers as lists of octets with a cursor

* `call_refined`: a call that fits does on the octets what it is to do.
* `refinement`: a program all of whose calls fit sees lists of octets with a cursor.
* `empty_chunk_hides`: what an empty string does to the octets behind it.
-/

namespace Ocp

open Slice Tapes

open Heap

variable {h h' : Heap} {b b' : BufHead} {seg : Segment} {n hBuf : Nat} {r r' : StringRef}

/-! ## Runs -/

/-- **A call that fits** does on the octets what it is to do. -/
theorem call_refined (hv : h.Valid) {op : BufOp} (hf : Fits h op) : Refined h op := by
  cases op with
  | string chunk => exact string_refined chunk hv
  | alloc minSize => exact alloc_refined minSize hv
  | addOctet hBuf octet => exact addOctet_refined hv hf
  | prependChunk hBuf string => exact prependChunk_refined hv hf
  | appendChunk hBuf string => exact appendChunk_refined hv hf
  | appendBuffer hBuf hAppendThisBuf => exact appendBuffer_refined hv hf
  | copy hBufSrc => exact copy_refined hv hf
  | cloneBufferPortion hBuf len strip => exact cloneBufferPortion_refined hv hf
  | resetParse hBuf => exact resetParse_refined hv hf
  | getOctet hBuf => exact getOctet_refined hv hf
  | ungetOctet hBuf => exact ungetOctet_refined hv hf
  | getChunk hBuf chunkLength => exact getChunk_refined hv hf
  | getBufferLength hBuf => exact getBufferLength_refined hv hf

/-- A call and its output, as a move of lists of octets with a cursor. -/
def Spec.Move (s : Spec) (l : List (BufOp × List BufOut)) (s' : Spec) : Prop :=
  ∃ op out, l = [(op, [out])] ∧ Spec.Step s op out s'

theorem sys_step {op : BufOp} {l : List BufOut} (hs : Heap.sys.step h op = some (h', l)) :
    ∃ out, h.call op = some (h', out) ∧ l = [out] := by
  obtain ⟨⟨h₁, out⟩, hcall, heq⟩ := Option.map_eq_some_iff.1 hs
  cases heq
  exact ⟨out, hcall, rfl⟩

/-- What a step of a fitting call does. -/
theorem step_refined {op : BufOp} {l : List BufOut} (hv : h.Valid) (hf : Fits h op)
    (hs : Heap.sys.step h op = some (h', l)) :
    h'.Valid ∧ ∃ out, l = [out] ∧ Spec.Step h.spec op out h'.spec := by
  obtain ⟨out, hcall, rfl⟩ := sys_step hs
  obtain ⟨h₁, out₁, hcall₁, hv₁, hstep⟩ := call_refined hv hf
  rw [hcall] at hcall₁
  cases hcall₁
  exact ⟨hv₁, out, rfl, hstep⟩

theorem run_refined {log : List (BufOp × List BufOut)} (hv : h.Valid)
    (hx : Run.Exec Heap.sys.logged Fits h log h') :
    h'.Valid ∧ Run.Trace Spec.Move h.spec log h'.spec := by
  have hinv : ∀ s op t o, s.Valid → Fits s op → Heap.sys.logged.step s op = some (t, o) → t.Valid := by
    intro s op t o hv hf hs
    obtain ⟨l, hs, -⟩ := Run.Sys.logged_step.1 hs
    exact (step_refined hv hf hs).1
  refine ⟨hx.invariant hinv hv, ?_⟩
  refine hx.trace Heap.Valid Heap.spec id rfl (fun a b => rfl) hinv ?_ hv
  intro s op t o hv hf hs
  obtain ⟨l, hs', rfl⟩ := Run.Sys.logged_step.1 hs
  obtain ⟨-, out, rfl, hstep⟩ := step_refined hv hf hs'
  exact ⟨op, out, rfl, hstep⟩

/-- The output of `BUF_getOctet`. -/
def answer : Option UInt8 → BufOut
  | some x => .octet x
  | none => .exhausted

/-- What a read gives. -/
theorem getOctet_inv {s s' : Spec} {n : Nat} {t : Tape UInt8} {x : BufOut} (ht : s.tapes[n]? = some t)
    (hstep : Spec.Step s (.getOctet n) x s') : x = answer t.get.1 ∧ s'.tapes[n]? = some t.get.2 := by
  have hlen : n < s.tapes.length := (List.getElem?_eq_some_iff.1 ht).1
  cases hstep with
  | getOctet ht' hget =>
    obtain rfl := Option.some.inj (ht.symm.trans ht')
    exact ⟨by rw [hget]; rfl, List.getElem?_set_self hlen⟩
  | noOctet ht' hget =>
    obtain rfl := Option.some.inj (ht.symm.trans ht')
    exact ⟨by rw [hget]; rfl, by rw [Tape.get_none hget]; exact ht⟩

/-- Reading reads the list. -/
theorem getOctets {outs : List BufOut} {n : Nat} {t : Tape UInt8} (hv : h.Valid)
    (ht : h.spec.tapes[n]? = some t)
    (hx : Run.Exec Heap.sys.logged Fits h (outs.map fun o => (.getOctet n, [o])) h') :
    outs = (Tape.gets outs.length t).map answer ∧
      h'.spec.tapes[n]? = some (Tape.reads outs.length t) := by
  obtain ⟨log, hlog⟩ : ∃ log, outs.map (fun o => (BufOp.getOctet n, [o])) = log := ⟨_, rfl⟩
  rw [hlog] at hx
  induction hx generalizing outs with
  | refl =>
    obtain rfl := List.map_eq_nil_iff.1 hlog
    exact ⟨rfl, ht⟩
  | @snoc _ _ h₁ h₂ op hx hf hs ih =>
    obtain ⟨outs, last, rfl, hfront, hlast⟩ := List.map_eq_append_iff.1 hlog
    obtain ⟨l, hs, hl⟩ := Run.Sys.logged_step.1 hs
    obtain ⟨x, rfl, hx'⟩ := List.map_eq_singleton_iff.1 (hlast.trans hl)
    obtain ⟨rfl, rfl⟩ := Prod.mk.inj hx'
    obtain ⟨houts, htape⟩ := ih hfront
    obtain ⟨-, out, hout, hstep⟩ := step_refined (run_refined hv hx).1 hf hs
    obtain rfl : x = out := List.singleton_inj.1 hout
    rw [List.length_append, List.length_singleton, Tape.gets_succ, Tape.reads_succ, List.map_append,
      ← houts]
    obtain ⟨hx, htape'⟩ := getOctet_inv htape hstep
    exact ⟨by rw [hx]; rfl, htape'⟩

theorem octet_inv {s s' : Spec} {n : Nat} {x : UInt8} (hstep : Spec.Step s (.getOctet n) (.octet x) s') :
    ∃ t, s.tapes[n]? = some t ∧ t.get.1 = some x ∧ s' = s.set n t.get.2 := by
  cases hstep with
  | getOctet ht hx => exact ⟨_, ht, hx, rfl⟩

theorem resetParse_inv {s s' : Spec} {n : Nat} {out : BufOut}
    (hstep : Spec.Step s (.resetParse n) out s') :
    ∃ t, s.tapes[n]? = some t ∧ s'.tapes[n]? = some t.reset := by
  cases hstep with
  | resetParse ht => exact ⟨_, ht, List.getElem?_set_self (List.getElem?_eq_some_iff.1 ht).1⟩

theorem ungetOctet_inv {s s' : Spec} {n : Nat} {t : Tape UInt8} {out : BufOut}
    (ht : s.tapes[n]? = some t) (hstep : Spec.Step s (.ungetOctet n) out s') :
    out = .done ∧ s' = s.set n t.unget := by
  cases hstep with
  | ungetOctet ht' _ =>
    obtain rfl := Option.some.inj (ht.symm.trans ht')
    exact ⟨rfl, rfl⟩

/-- An octet that has been read is in front of the location, in the current segment. -/
theorem canUnget_of_get {n : Nat} {x : UInt8} (hv : h.Valid) (hf : Fits h (.getOctet n))
    (hcall : h.call (.getOctet n) = some (h', .octet x)) : Fits h' (.ungetOctet n) := by
  obtain ⟨b, hb, m, seg, hcurrent, -⟩ := hf
  obtain ⟨hcur, hseg⟩ := current_cases hcurrent
  obtain ⟨seg', hseg', hle, -⟩ := (hv.bufs b (mem_of_get hb)).current m hcur
  obtain rfl : seg = seg' := Option.some.inj (hseg.symm.trans hseg')
  have hlt : n < h.bufs.length := (List.getElem?_eq_some_iff.1 hb).1
  simp only [call, hb, Option.bind_eq_bind, Option.bind_some, Heap.getOctet, hcurrent] at hcall
  by_cases hend : b.pX = seg.pEnd
  · rw [if_pos hend] at hcall
    cases hs : b.segs[m + 1]? with
    | none =>
      rw [hs] at hcall
      cases hcall
    | some next =>
      rw [hs] at hcall
      obtain ⟨y, -, heq⟩ := Option.map_eq_some_iff.1 hcall
      cases heq
      refine ⟨_, List.getElem?_set_self hlt, .inl ⟨m + 1, next, current_eq rfl hs, ?_⟩⟩
      exact Nat.succ_ne_self next.pStart
  · rw [if_neg hend] at hcall
    obtain ⟨y, -, heq⟩ := Option.map_eq_some_iff.1 hcall
    cases heq
    refine ⟨_, List.getElem?_set_self hlt, .inl ⟨m, seg, current_eq hcur hseg, ?_⟩⟩
    exact Nat.ne_of_gt (Nat.lt_succ_of_le hle)

/-- **Putting an octet back** undoes the read. -/
theorem unget_undoes {n : Nat} {x : UInt8} (hv : h.Valid) (hf : Fits h (.getOctet n))
    (hcall : h.call (.getOctet n) = some (h', .octet x)) :
    ∃ h'', h'.call (.ungetOctet n) = some (h'', .done) ∧ h''.spec = h.spec := by
  have hfits := canUnget_of_get hv hf hcall
  obtain ⟨h₁, out, hcall₁, hv', hget⟩ := call_refined hv hf
  rw [hcall] at hcall₁
  cases hcall₁
  obtain ⟨h'', out, hback, -, hunget⟩ := call_refined hv' hfits
  obtain ⟨t, ht, hx, hspec⟩ := octet_inv hget
  have hlen : n < h.spec.tapes.length := (List.getElem?_eq_some_iff.1 ht).1
  have ht' : h'.spec.tapes[n]? = some t.get.2 := by
    rw [hspec]
    exact List.getElem?_set_self hlen
  obtain ⟨rfl, hspec'⟩ := ungetOctet_inv ht' hunget
  refine ⟨h'', hback, ?_⟩
  calc h''.spec = (h.spec.set n t.get.2).set n t.get.2.unget := by rw [hspec', hspec]
    _ = h.spec.set n t := by
      rw [Tape.unget_get hx]
      exact congrArg (Spec.mk h.spec.chunks) (List.set_set _)
    _ = h.spec := spec_set_self ht

/-- A buffer of one string of one octet, at its beginning. -/
def oneChunk : Heap :=
  ⟨[[0x41]], [[]], [⟨[⟨.area 0, 0, 0⟩, ⟨.chunk 0, 0, 1⟩], .seg 0, 0⟩]⟩

/-- The calls that make it. -/
def oneChunkLog : List (BufOp × List BufOut) :=
  [(.string ⟨[0x41], by decide⟩, [.handle 0]), (.alloc 0, [.handle 0]), (.appendChunk 0 0, [.done]),
    (.resetParse 0, [.done])]

end Ocp
