import Emsd.Proof.WellFormed

/-!
# Reference numbers

The two reference maps are tables with a key: the number of the queue and the remote
address of the entry. `MapOk` says that the entries of a map are live `InvokeInfo`s of its
role, filed under their own number, and that no two have one key.

* `RefsOk.fire`, `RefsOk.quiet`: every step keeps both maps so.
* `refNew_cases`, `refNew_exhausted`: `erop_refNew` takes a free number if there is one.
* `registered_live`: an entry stays in its map as long as its `InvokeInfo` lives.
-/

namespace Erop

open Ocp

variable {cfg : Config} {e e' : Engine} {inp : Input} {f : Fire} {o : List Out}
  {performing : Bool} {map : RefMap}

/-- A reference map: `performing` is the role of its entries. -/
structure MapOk (e : Engine) (performing : Bool) (map : RefMap) : Prop where
  live : ∀ r i, i ∈ map r →
    ∃ v, e.heap i = some v ∧ v.performingNotInvoking = performing ∧ v.invokeRefNu = r
  uniq : ∀ r, (map r).Pairwise fun i j => nSapAddrCmp (e.nsapOf i) (e.nsapOf j) ≠ 0

structure RefsOk (e : Engine) : Prop where
  invoker : MapOk e false e.refs.invoker
  performer : MapOk e true e.refs.performer

theorem RefsOk.init (newRef : Nat) : RefsOk (Engine.init newRef) :=
  ⟨⟨fun _ _ h => absurd h List.not_mem_nil, fun _ => .nil⟩,
    ⟨fun _ _ h => absurd h List.not_mem_nil, fun _ => .nil⟩⟩

theorem inUse_eq_false {nsapOf : InvokeId → NSapAddr} {bucket : List InvokeId} {nsap : NSapAddr} :
    inUse nsapOf bucket nsap = false ↔ ∀ j ∈ bucket, nSapAddrCmp nsap (nsapOf j) ≠ 0 := by
  simp [inUse]

/-! ## One map -/

namespace MapOk

/-- Entries that keep role, number and address. -/
theorem frame (h : MapOk e performing map)
    (hk : ∀ r i v, i ∈ map r → e.heap i = some v → ∃ v', e'.heap i = some v' ∧ Kept v v') :
    MapOk e' performing map := by
  have hns : ∀ r i, i ∈ map r → e'.nsapOf i = e.nsapOf i := by
    intro r i hi
    obtain ⟨v, hv, -, -⟩ := h.live r i hi
    obtain ⟨v', hv', hkept⟩ := hk r i v hi hv
    simp [Engine.nsapOf, hv, hv', hkept.remNsapAddr]
  refine ⟨fun r i hi => ?_, fun r => ?_⟩
  · obtain ⟨v, hv, hp, hr⟩ := h.live r i hi
    obtain ⟨v', hv', hkept⟩ := hk r i v hi hv
    exact ⟨v', hv', hkept.performing.trans hp, hkept.invokeRefNu.trans hr⟩
  · refine (h.uniq r).imp_of_mem fun {i j} hi hj hne => ?_
    rw [hns r i hi, hns r j hj]; exact hne

/-- A new entry, whose address is not in use under its number. -/
theorem insert (h : MapOk e performing map) {i : InvokeId} {v : InvokeInfo} {r : Nat}
    (hv : e.heap i = some v) (hp : v.performingNotInvoking = performing) (hr : v.invokeRefNu = r)
    (hfree : inUse e.nsapOf (map r) v.remNsapAddr = false) :
    MapOk e performing (Function.update map r (map r ++ [i])) := by
  refine ⟨fun s j hj => ?_, fun s => ?_⟩
  · by_cases hs : s = r
    · subst hs
      rw [Function.update_self, List.mem_append, List.mem_singleton] at hj
      rcases hj with hj | rfl
      · exact h.live s j hj
      · exact ⟨v, hv, hp, hr⟩
    · rw [Function.update_of_ne hs] at hj
      exact h.live s j hj
  · by_cases hs : s = r
    · subst hs
      rw [Function.update_self]
      refine List.pairwise_append.2 ⟨h.uniq s, List.pairwise_singleton .., fun j hj k hk => ?_⟩
      obtain rfl := List.mem_singleton.1 hk
      have ha : e.nsapOf k = v.remNsapAddr := by simp [Engine.nsapOf, hv]
      rw [ha]
      exact fun hc => inUse_eq_false.1 hfree j hj (nSapAddrCmp_comm.1 hc)
    · rw [Function.update_of_ne hs]
      exact h.uniq s

/-- The entry of a released `InvokeInfo` goes. -/
theorem erase (h : MapOk e performing map) {i : InvokeId}
    (hheap : ∀ j, j ≠ i → e'.heap j = e.heap j) :
    MapOk e' performing fun r => (map r).filter (· ≠ i) := by
  have heap : ∀ {r j}, j ∈ (map r).filter (· ≠ i) → e'.heap j = e.heap j := by
    intro r j hj
    exact hheap j (by simpa using (List.mem_filter.1 hj).2)
  refine ⟨fun r j hj => ?_, fun r => ?_⟩
  · rw [heap hj]
    exact h.live r j (List.mem_of_mem_filter hj)
  · refine ((h.uniq r).filter _).imp_of_mem fun {j k} hj hk hne => ?_
    simp only [Engine.nsapOf, heap hj, heap hk]
    exact hne

theorem not_mem_of_fresh (h : MapOk e performing map) {i : InvokeId} (hi : e.heap i = none) (r : Nat) :
    i ∉ map r := by
  intro hm
  obtain ⟨v, hv, -⟩ := h.live r i hm
  rw [hi] at hv
  cases hv

/-- A look-up finds the entry that has the key. -/
theorem refTo_eq (h : MapOk e performing map) {r : Nat} {i : InvokeId} {v : InvokeInfo}
    (hr : r < totalRefNumbers) (hi : i ∈ map r) (hv : e.heap i = some v) {nsap : NSapAddr}
    (ha : nSapAddrCmp v.remNsapAddr nsap = 0) : refTo map e.nsapOf r nsap = some i := by
  have hai : e.nsapOf i = v.remNsapAddr := by simp [Engine.nsapOf, hv]
  unfold refTo
  rw [if_pos ⟨by omega, by exact_mod_cast hr⟩, Int.toNat_natCast]
  refine find?_unique ((h.uniq r).imp fun {j k} hne hjk => hne ?_) hi (by simp [hai, ha])
  obtain ⟨hj, hk⟩ : nSapAddrCmp (e.nsapOf j) nsap = 0 ∧ nSapAddrCmp (e.nsapOf k) nsap = 0 := by
    simpa using hjk
  exact nSapAddrCmp_trans hj (nSapAddrCmp_comm.1 hk)

end MapOk

theorem refTo_some {nsapOf : InvokeId → NSapAddr} {refNu : Int} {nsap : NSapAddr} {i : InvokeId}
    (h : refTo map nsapOf refNu nsap = some i) :
    ∃ r : Nat, refNu = r ∧ r < totalRefNumbers ∧ i ∈ map r ∧ nSapAddrCmp (nsapOf i) nsap = 0 := by
  unfold refTo at h
  split at h
  · rename_i hr
    refine ⟨refNu.toNat, by omega, by omega, List.mem_of_find?_eq_some h, ?_⟩
    simpa using List.find?_some h
  · cases h

/-! ## Allocation -/

section

variable {t : RefTables} {nsapOf : InvokeId → NSapAddr} {i : InvokeId} {v : InvokeInfo}

/-- `erop_refNew` hands out a number that is free for the address and files the machine under it,
or leaves the maps alone. -/
theorem refNew_cases (t : RefTables) (nsapOf : InvokeId → NSapAddr) (i : InvokeId) (v : InvokeInfo) :
    ((refNew t nsapOf i v).2 = -1 ∧ (refNew t nsapOf i v).1.invoker = t.invoker ∧
        (refNew t nsapOf i v).1.performer = t.performer) ∨
      ∃ r : Nat, (refNew t nsapOf i v).2 = r ∧ r < totalRefNumbers ∧
        v.performingNotInvoking = false ∧ inUse nsapOf (t.invoker r) v.remNsapAddr = false ∧
        (refNew t nsapOf i v).1.invoker = Function.update t.invoker r (t.invoker r ++ [i]) ∧
        (refNew t nsapOf i v).1.performer = t.performer := by
  unfold refNew
  split
  · exact .inl ⟨rfl, rfl, rfl⟩
  rename_i hp
  dsimp only
  split
  · rename_i hs
    refine .inr ⟨_, rfl, Cyclic.searchFrom_lt (by decide) hs, by simpa using hp, ?_, rfl, rfl⟩
    simpa using Cyclic.searchFrom_found hs
  · exact .inl ⟨rfl, rfl, rfl⟩

/-- `erop_refNew` fails for an invoker only when every number is in use for the address. -/
theorem refNew_exhausted (hp : v.performingNotInvoking = false) (h : (refNew t nsapOf i v).2 = -1) :
    ∀ r, r < totalRefNumbers → inUse nsapOf (t.invoker r) v.remNsapAddr = true := by
  unfold refNew at h
  rw [if_neg (by simp [hp])] at h
  dsimp only at h
  split at h
  · omega
  · rename_i hs
    intro r hr
    have := Cyclic.searchFrom_exhaustive (by simpa using hs) r hr
    simpa using this

/-- `erop_refKeep` files the machine under its number, where its address was free. -/
theorem refKeep_success {refNu : Int} (h : (refKeep t nsapOf refNu i v).2 = .success) :
    ∃ r : Nat, refNu = r ∧ r < totalRefNumbers ∧ v.performingNotInvoking = true ∧
      inUse nsapOf (t.performer r) v.remNsapAddr = false ∧
      (refKeep t nsapOf refNu i v).1 =
        { t with performer := Function.update t.performer r (t.performer r ++ [i]) } := by
  unfold refKeep at h ⊢
  split_ifs at h ⊢ with h1 h2 h3
  exact ⟨refNu.toNat, by omega, by omega, by simpa using h1, by simpa using h3, rfl⟩

end

/-! ## Both maps along a step -/

/-- What a row does to the maps: nothing, or it files the machine under its number. -/
inductive RefStep (c : Ctx) (m : Machine) (v : InvokeInfo) (t : RefTables) : Prop
  | same (hi : t.invoker = m.refs.invoker) (hp : t.performer = m.refs.performer)
  | invoker {r : Nat} (hr : v.invokeRefNu = r) (hrole : v.performingNotInvoking = false)
      (hfree : inUse c.nsapOf (m.refs.invoker r) v.remNsapAddr = false)
      (hi : t.invoker = Function.update m.refs.invoker r (m.refs.invoker r ++ [c.self]))
      (hp : t.performer = m.refs.performer)
  | performer {r : Nat} (hr : v.invokeRefNu = r) (hrole : v.performingNotInvoking = true)
      (hfree : inUse c.nsapOf (m.refs.performer r) v.remNsapAddr = false)
      (hi : t.invoker = m.refs.invoker)
      (hp : t.performer = Function.update m.refs.performer r (m.refs.performer r ++ [c.self]))

variable {c : Ctx} {m m' : Machine} {s s' : State} {evt : Evt}
  {act : Machine → Machine × SuccFail}

theorem requested_refStep {kept : List Octets} {timers : List TmrData} {out : List Out}
    (h : Requested c m m' kept timers out) : RefStep c m m'.invoke m'.refs := by
  rw [h.invoke, h.refs]
  rcases refNew_cases m.refs c.nsapOf c.self (invokeReqFields c m.invoke) with
    ⟨-, hi, hp⟩ | ⟨r, hr, -, hrole, hfree, hi, hp⟩
  · exact .same hi hp
  · exact .invoker hr hrole hfree hi hp

theorem replied_refStep {kept : List Octets} {q : List TmrData} {out : List Out}
    (h : Replied c m m' kept q out) : RefStep c m m'.invoke m'.refs := by
  rw [h.invoke, h.refs]
  obtain ⟨r, hr, -, hrole, hfree, ht⟩ := refKeep_success h.accepted
  unfold replyRef
  rw [ht]
  exact .performer hr hrole hfree rfl rfl

theorem reply_refStep {name : TmrName} {time : InvokeInfo → Int} (hn : ReplyTimer name time) :
    RefStep c m (performerResultReq name time c m).1.invoke (performerResultReq name time c m).1.refs := by
  rcases performerResultReq_spec hn c m with ⟨-, h⟩ | h | ⟨_, h, -⟩
  · rw [h.refs]; exact .same rfl rfl
  · exact replied_refStep h
  · exact replied_refStep h

theorem row_refStep (h : Row c s evt act s') (hf : c.Fits evt) :
    RefStep c m (act m).1.invoke (act m).1.refs := by
  by_cases he : evt = .invokeReq ∨ evt = .resultReq
  · cases h with
    | invokeReq fu =>
      rcases invokerInvokeReq_spec c m with h | h | ⟨_, h, -⟩
      · rw [h]; exact .same rfl rfl
      · exact requested_refStep h.toRequested
      · exact requested_refStep h
    | resultReq => exact reply_refStep replyTimer_retran
    | resultReq2 => exact reply_refStep replyTimer_inactivity
    | _ => simp at he
  · obtain ⟨h1, h2⟩ := not_or.1 he
    rw [row_refs h hf h1 h2]
    exact .same rfl rfl

theorem isDuplicate_eq {pdu : Pdu} {i : InvokeId} {v : InvokeInfo} (hv : e.heap i = some v)
    (h : e.isDuplicate pdu i = true) :
    v.invokeRefNu = pdu.invokeRefNu ∧ v.remNsapAddr = pdu.fromNsapAddr := by
  simp only [Engine.isDuplicate, hv, Bool.and_eq_true, decide_eq_true_eq] at h
  exact ⟨h.1, (nSapAddrCmp_eq_zero.1 h.2).1⟩

/-- The machine of a step is new, or it runs on a PDU for its own number and peer. -/
theorem RefsOk.peer (h : RefsOk e) (ho : Origin cfg e inp f) :
    f.c.self = e.nextId ∨ (f.evt ≠ .invokeReq ∧ PduForPeer f.c f.evt f.v) := by
  cases ho with
  | request _ _ hself => exact .inl hself
  | arrival _ _ _ _ _ hself => exact .inl hself
  | duplicate hev hread htype hsap hfind he hv hevt hpdu =>
    obtain ⟨hr, ha⟩ := isDuplicate_eq hv (List.find?_some hfind)
    refine .inr ⟨by rw [hevt]; decide, fun _ => ?_, fun _ => ?_⟩
    · rw [hpdu]; exact hr.symm
    · rw [hpdu]; exact ha.symm
  | @answer _ _ _ pdu v w r hev hread htype hack hres hfail hold hv he hevt hpdu =>
    have hne : f.evt ≠ .pduInvoke := by
      rw [hevt]
      cases ht : pdu.pdutype <;> first | exact absurd ht htype | (simp [PduType.evt])
    refine .inr ⟨by rw [hevt]; exact (PduType.evt_isTimer _).2, fun hor => ?_, fun hi => absurd hi hne⟩
    have hnack : pdu.pdutype ≠ .ack := by
      intro ht
      rw [hevt, ht] at hor
      simp [PduType.evt] at hor
    obtain ⟨n, hn, -, hmem, -⟩ := refTo_some (hres hnack)
    obtain ⟨u, hu, -, hru⟩ := h.invoker.live n _ hmem
    obtain rfl : v = u := by simpa [hold] using hu
    rw [hpdu, hv, hn]
    exact hru.symm
  | timer hev hself htd he hv hevt =>
    have ht := TmrName.evt_isTimer hevt
    refine .inr ⟨?_, fun hor => ?_, fun hi => ?_⟩
    · intro h0; rw [h0] at ht; cases ht
    · rcases hor with h0 | h0 <;> rw [h0] at ht <;> cases ht
    · rw [hi] at ht; cases ht
  | reply hev hself he hv hevt =>
    refine .inr ⟨by rw [hevt]; decide, fun hor => ?_, fun hi => ?_⟩
    · rw [hevt] at hor; simp at hor
    · rw [hevt] at hi; cases hi

/-- **A live `InvokeInfo` keeps its owner, its role, its number and its peer** along a step. -/
theorem RefsOk.kept (hl : Linked e) (h : RefsOk e) (ho : Origin cfg e inp f) (hc : Common cfg inp f)
    {i : InvokeId} {v : InvokeInfo} (hv : e.heap i = some v) :
    ∃ v', f.engine.heap i = some v' ∧ Kept v v' := by
  by_cases he : i = f.c.self
  · subst he
    rw [Fire.engine_heap_self]
    rcases ho.kind with ⟨sap, d, hk⟩ | ⟨w, q, hk⟩
    · rw [hk.fresh hl] at hv; cases hv
    obtain rfl : w = v := by simpa [hk.heap] using hv
    obtain ⟨hreq, hp⟩ := (h.peer ho).resolve_left fun hn => by
      have := hl.lt hk.heap
      lia
    obtain ⟨a, b, hfv⟩ := hk.v
    refine ⟨_, rfl, ?_⟩
    rcases f.cases with hn | ⟨s, act, s', ht⟩
    · rw [hn.after, Fire.before_invoke, hfv]
      exact ⟨⟨rfl, rfl, rfl⟩, ⟨rfl, rfl⟩⟩
    · have hpeer := row_peer (m := f.before) ht.row hc.fits hreq hp
      have hown := row_owner (m := f.before) ht.row hc.fits
      rw [Fire.before_invoke, hfv] at hpeer hown
      rw [ht.after_invoke]
      exact ⟨⟨hown.locSap, hown.performing, hown.transDiag⟩, ⟨hpeer.invokeRefNu, hpeer.remNsapAddr⟩⟩
  · rw [Fire.engine_heap_ne he, ho.heap_ne he]
    exact ⟨v, hv, .refl v, .refl v⟩

/-- The address of a live `InvokeInfo` as the action sees it. -/
theorem Origin.nsapOf (hl : Linked e) (ho : Origin cfg e inp f) {i : InvokeId} {v : InvokeInfo}
    (hv : e.heap i = some v) : f.e.nsapOf i = v.remNsapAddr := by
  by_cases he : i = f.c.self
  · subst he
    rcases ho.kind with ⟨sap, d, hk⟩ | ⟨w, q, hk⟩
    · rw [hk.fresh hl] at hv; cases hv
    · obtain rfl : w = v := by simpa [hk.heap] using hv
      obtain ⟨a, b, hfv⟩ := hk.v
      simp [Engine.nsapOf, hk.here, hfv]
  · simp [Engine.nsapOf, ho.heap_ne he, hv]

theorem RefsOk.fire (hl : Linked e) (h : RefsOk e) (ho : Origin cfg e inp f) (hc : Common cfg inp f) :
    RefsOk f.engine := by
  have hi := h.invoker.frame fun _ _ _ _ hv => h.kept hl ho hc hv
  have hp := h.performer.frame fun _ _ _ _ hv => h.kept hl ho hc hv
  have hrefs : f.before.refs = e.refs := ho.refs
  rcases f.cases with hn | ⟨s, act, s', ht⟩
  · have : f.engine.refs = e.refs := by rw [Fire.engine_refs, hn.after, hrefs]
    exact ⟨by rw [this]; exact hi, by rw [this]; exact hp⟩
  have hself := Fire.engine_heap_self (f := f)
  have hown := row_owner (m := f.before) ht.row hc.fits
  have hstep := row_refStep (m := f.before) ht.row hc.fits
  have heng : f.engine.refs = (act f.before).1.refs := by rw [Fire.engine_refs, ht.after_refs]
  -- the addresses of the entries are those that the action has seen
  have hns : ∀ map performing r, MapOk e performing map →
      ∀ a, inUse f.c.nsapOf (map r) a = false → inUse f.engine.nsapOf (map r) a = false := by
    intro map performing r hm a hfree
    rw [inUse_eq_false] at hfree ⊢
    intro j hj
    obtain ⟨v, hv, -⟩ := hm.live r j hj
    obtain ⟨v', hv', hkept⟩ := h.kept hl ho hc hv
    have := hfree j hj
    rw [hc.nsapOf, ho.nsapOf hl hv] at this
    simpa [Engine.nsapOf, hv', hkept.remNsapAddr] using this
  cases hstep with
  | same h1 h2 =>
    exact ⟨by rw [heng, h1, hrefs]; exact hi, by rw [heng, h2, hrefs]; exact hp⟩
  | @invoker r hr hrole hfree h1 h2 =>
    rw [hrefs] at hfree h1 h2
    refine ⟨?_, by rw [heng, h2]; exact hp⟩
    rw [heng, h1]
    refine hi.insert hself ?_ ?_ ?_
    · rw [ht.after_invoke]; exact hrole
    · rw [ht.after_invoke]; exact hr
    · rw [ht.after_invoke]
      exact hns _ _ _ h.invoker _ hfree
  | @performer r hr hrole hfree h1 h2 =>
    rw [hrefs] at hfree h1 h2
    refine ⟨by rw [heng, h1]; exact hi, ?_⟩
    rw [heng, h2]
    refine hp.insert hself ?_ ?_ ?_
    · rw [ht.after_invoke]; exact hrole
    · rw [ht.after_invoke]; exact hr
    · rw [ht.after_invoke]
      exact hns _ _ _ h.performer _ hfree

theorem RefsOk.quiet (hl : Linked e) (h : RefsOk e) (hq : Quiet e inp e' o) : RefsOk e' := by
  have hsame : e'.refs = e.refs → (∀ i v, e.heap i = some v → e'.heap i = some v) → RefsOk e' := by
    intro hr hh
    refine ⟨?_, ?_⟩ <;> rw [hr]
    · exact h.invoker.frame fun _ i v _ hv => ⟨v, hh i v hv, .refl v, .refl v⟩
    · exact h.performer.frame fun _ i v _ hv => ⟨v, hh i v hv, .refl v, .refl v⟩
  cases hq with
  | nothing => exact h
  | leak hsap =>
    refine hsame rfl fun i v hv => ?_
    have hi : i ≠ e.nextId := by
      have := hl.lt hv
      lia
    simp [Engine.invokeInfoCreate, hi, hv]
  | unknownTimer | callBack | bind | unbindEmpty => exact hsame rfl fun _ _ => id
  | @release i =>
    have hh : ∀ j, j ≠ i → Function.update e.heap i none j = e.heap j :=
      fun j hj => Function.update_of_ne hj ..
    exact ⟨h.invoker.erase hh, h.performer.erase hh⟩
  | @unbind _ _ i =>
    have hh : ∀ j, j ≠ i → Function.update e.heap i none j = e.heap j :=
      fun j hj => Function.update_of_ne hj ..
    exact ⟨h.invoker.erase hh, h.performer.erase hh⟩

/-! ## Engines -/

/-- **Well-formed engines.** -/
structure WF (e : Engine) : Prop where
  linked : Linked e
  machines : MachinesOk e
  refs : RefsOk e

theorem WF.init (newRef : Nat) : WF (Engine.init newRef) :=
  ⟨.init newRef, by rintro i v ⟨⟩, .init newRef⟩

theorem WF.prepared (h : WF e) (ho : Origin cfg e inp f) : Linked f.e ∧ MachinesOk f.e :=
  ⟨h.linked.origin ho, h.machines.origin h.linked ho⟩

theorem WF.fire (h : WF e) (hf : fires cfg e inp = some f) : WF f.engine := by
  obtain ⟨ho, hc⟩ := fires_origin hf
  obtain ⟨hl, hm⟩ := h.prepared ho
  refine ⟨hl.after ho.here ?_, h.machines.after hm ho hc, h.refs.fire h.linked ho hc⟩
  rcases f.cases with hn | ⟨s, act, s', ht⟩
  · rw [hn.after]; rfl
  · rw [ht.after_invoke]
    exact (row_owner (m := f.before) ht.row hc.fits).locSap

/-- **Every step keeps an engine well-formed.** -/
theorem WF.step (h : WF e) (hs : step cfg e inp = some (e', o)) : WF e' := by
  rcases step_cases hs with ⟨f, hf, rfl, rfl⟩ | ⟨-, hq⟩
  · exact h.fire hf
  · exact ⟨h.linked.quiet hq, h.machines.quiet h.linked hq, h.refs.quiet h.linked hq⟩

/-- **Every engine that is reached is well-formed.** -/
theorem WF.reach {ok : Engine → Input → Prop} {hist : List Out}
    (hr : Run.Reach (engine cfg) ok hist e) : WF e := by
  refine Run.Reach.invariant (P := WF) ?_ (fun _ _ _ _ h _ hs => h.step hs) hr
  rintro _ ⟨newRef, rfl⟩
  exact .init newRef

theorem Kept.refl (v : InvokeInfo) : Kept v v := ⟨.refl v, .refl v⟩

theorem Kept.trans {u v w : InvokeInfo} (h₁ : Kept u v) (h₂ : Kept v w) : Kept u w where
  locSap := h₂.locSap.trans h₁.locSap
  performing := h₂.performing.trans h₁.performing
  transDiag := h₂.transDiag.trans h₁.transDiag
  invokeRefNu := h₂.invokeRefNu.trans h₁.invokeRefNu
  remNsapAddr := h₂.remNsapAddr.trans h₁.remNsapAddr

/-- A live `InvokeInfo` is released, or it stays what it is. -/
theorem WF.live (h : WF e) (hs : Erop.step cfg e inp = some (e', o)) {i : InvokeId} {v : InvokeInfo}
    (hv : e.heap i = some v) : .released i ∈ o ∨ ∃ v', e'.heap i = some v' ∧ Kept v v' := by
  have hrel : ∀ (a : Engine) j, a.heap = e.heap → i ≠ j → (a.relInvoke j).heap i = some v := by
    intro a j ha hij
    show Function.update a.heap j none i = some v
    rw [Function.update_of_ne hij, ha, hv]
  rcases step_cases hs with ⟨f, hf, rfl, rfl⟩ | ⟨-, hq⟩
  · obtain ⟨ho, hc⟩ := fires_origin hf
    exact .inr (h.refs.kept h.linked ho hc hv)
  · cases hq with
    | nothing | unknownTimer | callBack | bind | unbindEmpty => exact .inr ⟨v, hv, .refl v⟩
    | leak =>
      have hi : i ≠ e.nextId := by
        have := h.linked.lt hv
        lia
      exact .inr ⟨v, by simp [Engine.invokeInfoCreate, hi, hv], .refl v⟩
    | @release j =>
      by_cases hij : i = j
      · exact .inl (by simp [hij])
      · exact .inr ⟨v, hrel _ j rfl hij, .refl v⟩
    | @unbind _ _ j =>
      by_cases hij : i = j
      · exact .inl (by simp [hij])
      · exact .inr ⟨v, hrel { e with tmrQu := _ } j rfl hij, .refl v⟩

theorem WF.live_run {ok : Engine → Input → Prop} {hist : List Out} (h : WF e)
    (hx : Run.Exec (engine cfg) ok e hist e') {i : InvokeId} {v : InvokeInfo}
    (hv : e.heap i = some v) (hn : .released i ∉ hist) : ∃ v', e'.heap i = some v' ∧ Kept v v' := by
  induction hx with
  | refl => exact ⟨v, hv, .refl v⟩
  | snoc hx hok hs ih =>
    obtain ⟨v', hv', hk⟩ := ih fun hm => hn (List.mem_append_left _ hm)
    have hwf : WF _ := hx.invariant (fun _ _ _ _ h _ hs => h.step hs) h
    rcases hwf.live hs hv' with hr | ⟨v'', hv'', hk'⟩
    · exact absurd (List.mem_append_right _ hr) hn
    · exact ⟨v'', hv'', hk.trans hk'⟩

/-- The entries of a map are not dropped by a machine that runs. -/
theorem fire_registered (hf : fires cfg e inp = some f) {i : InvokeId} {r : Nat} :
    (i ∈ e.refs.invoker r → i ∈ f.engine.refs.invoker r) ∧
      (i ∈ e.refs.performer r → i ∈ f.engine.refs.performer r) := by
  obtain ⟨ho, hc⟩ := fires_origin hf
  have hadd : ∀ (map : RefMap) (k : Nat) (j : InvokeId), i ∈ map r →
      i ∈ Function.update map k (map k ++ [j]) r := by
    intro map k j hi
    by_cases hk : r = k
    · subst hk
      rw [Function.update_self]
      exact List.mem_append_left _ hi
    · rwa [Function.update_of_ne hk]
  rw [Fire.engine_refs, ← ho.refs]
  rcases f.cases with hn | ⟨s, act, s', ht⟩
  · rw [hn.after]
    exact ⟨id, id⟩
  rw [ht.after_refs]
  cases row_refStep (m := f.before) ht.row hc.fits with
  | same hi hp => rw [hi, hp]; exact ⟨id, id⟩
  | invoker _ _ _ hi hp => rw [hi, hp]; exact ⟨hadd _ _ _, id⟩
  | performer _ _ _ hi hp => rw [hi, hp]; exact ⟨id, hadd _ _ _⟩

/-- **An entry stays in its map** as long as its `InvokeInfo` lives. -/
theorem registered_live (hs : step cfg e inp = some (e', o)) {i : InvokeId} {r : Nat}
    (hlive : e'.heap i ≠ none) :
    (i ∈ e.refs.invoker r → i ∈ e'.refs.invoker r) ∧
      (i ∈ e.refs.performer r → i ∈ e'.refs.performer r) := by
  have hrel : ∀ (a : Engine) j, (a.relInvoke j).heap i ≠ none → a.refs = e.refs →
      (i ∈ e.refs.invoker r → i ∈ (a.relInvoke j).refs.invoker r) ∧
        (i ∈ e.refs.performer r → i ∈ (a.relInvoke j).refs.performer r) := by
    intro a j hj ha
    have hij : i ≠ j := by
      rintro rfl
      exact hj (Function.update_self ..)
    rw [← ha]
    exact ⟨fun hi => List.mem_filter.2 ⟨hi, by simpa using hij⟩,
      fun hi => List.mem_filter.2 ⟨hi, by simpa using hij⟩⟩
  rcases step_cases hs with ⟨f, hf, rfl, rfl⟩ | ⟨-, hq⟩
  · exact fire_registered hf
  · cases hq with
    | nothing | leak | unknownTimer | callBack | bind | unbindEmpty => exact ⟨id, id⟩
    | release => exact hrel _ _ hlive rfl
    | unbind => exact hrel { e with tmrQu := _ } _ hlive rfl

end Erop
