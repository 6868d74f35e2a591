import Emsd.Asn.Formatter

/-!
# The tags of a shared compile tree (`asnber.c`)

While `asn_berFormat` formats an alternative of a choice that has an implicit tag, it has put the tag of
the choice into the entry of the alternative. It puts the old one back when it is done, but not when
the buffer module or the formatter for the alternative has failed. `asn_berParse` only reads the tags.

* `format_frame`: what is in the tags wherever the formatter can come to a halt.
* `tags_after_iff`: **a call leaves the tags as they were** exactly when it does not give up within an
  alternative that had a different tag.
* `uses_keep_tags`: **no use of a tree depends on the ones before it** when none gives up so.
-/

namespace Asn

open Ocp

/-- The entries in the list of an entry. -/
def Element.tableList : Element → List Element
  | .sequence _ es | .choice _ es => es
  | .sequenceOf _ _ e => [e]
  | _ => []

/-- The entry is one of a choice. -/
def Element.isChoice : Element → Bool
  | .choice _ _ => true
  | _ => false

namespace Shared

abbrev Tags := Path → UInt8

variable {s : Record} {e e' : Element} {es : List Element} {p q : Path} {k base : Nat} {m m' : Memory}
  {T T' : Tags} {K K' : Point → Prop} {r : Formatter} {next : UInt32 × Memory → Formatter} {n : Point}
  {grant : Nat → Bool} {t t' : Target} {len : UInt32} {rc : ReturnCode}

/-- On the way from the entry at `p` to the one that is further down by the path, a choice has put its own
tag in the place of a different one. -/
def altered : Path → Element → Path → Tags → Bool
  | [], _, _, _ => false
  | k :: rest, e, p, T =>
    match e.tableList[k]? with
    | none => false
    | some e' =>
      let tag := if e.isChoice then replacement (T p) else 0
      let T' := if tag ≠ 0 then Function.update T (p ++ [k]) tag else T
      T' (p ++ [k]) != T (p ++ [k]) || altered rest e' (p ++ [k]) T'

/-! ## Where the formatter can come to a halt -/

/-- What is in the tags when the formatter comes to a halt somewhere in the entry at `p`. -/
structure Kept (T : Tags) (e : Element) (p : Path) (n : Point) : Prop where
  entry : ∃ rest, n.entry = p ++ rest ∧ (n.memory.tag = T ↔ altered rest e p T = false)
  above : ∀ q, q.length ≤ p.length → n.memory.tag q = T q

theorem Kept.here : Kept m.tag e p ⟨p, m⟩ :=
  ⟨⟨[], (List.append_nil p).symm, by simp [altered]⟩, fun _ _ => rfl⟩

/-- In an element whose tag has not been replaced. -/
theorem Kept.inside (hk : e.tableList[k]? = some e') (hnot : e.isChoice = true → replacement (T p) = 0)
    (h : Kept T e' (p ++ [k]) n) : Kept T e p n := by
  obtain ⟨⟨rest, hentry, hiff⟩, habove⟩ := h
  have htag : (if e.isChoice then replacement (T p) else 0) = 0 := by
    split
    · exact hnot ‹_›
    · rfl
  refine ⟨⟨k :: rest, ?_, ?_⟩, fun q hq => habove q ?_⟩
  · rw [hentry, List.append_assoc, List.singleton_append]
  · unfold altered
    rw [hk]
    dsimp only
    rw [htag, if_neg (by simp), bne_self_eq_false, Bool.false_or]
    exact hiff
  · rw [List.length_append]
    exact Nat.le_add_right_of_le hq

/-- In an alternative whose tag has been replaced. -/
theorem Kept.insteadOf (hk : e.tableList[k]? = some e') (hchoice : e.isChoice = true)
    (htag : replacement (T p) ≠ 0)
    (h : Kept (Function.update T (p ++ [k]) (replacement (T p))) e' (p ++ [k]) n) : Kept T e p n := by
  obtain ⟨⟨rest, hentry, hiff⟩, habove⟩ := h
  have hput : n.memory.tag (p ++ [k]) = replacement (T p) := by
    rw [habove _ (Nat.le_refl _), Function.update_self]
  refine ⟨⟨k :: rest, ?_, ?_⟩, fun q hq => ?_⟩
  · rw [hentry, List.append_assoc, List.singleton_append]
  · unfold altered
    rw [hk]
    dsimp only
    rw [if_pos hchoice, if_pos htag, Function.update_self, Bool.or_eq_false_iff, bne_eq_false_iff_eq,
      ← hiff]
    constructor
    · intro hsame
      have hT : replacement (T p) = T (p ++ [k]) := by rw [← hput, hsame]
      refine ⟨hT, ?_⟩
      rw [hsame, hT, Function.update_eq_self]
    · rintro ⟨hT, hsame⟩
      rw [hsame, hT, Function.update_eq_self]
  · have hlen : q.length ≤ (p ++ [k]).length := by
      rw [List.length_append]
      exact Nat.le_add_right_of_le hq
    rw [habove q hlen, Function.update_of_ne]
    rintro rfl
    simp at hq

/-- Where the formatter can come to a halt the point satisfies `K`, and it leaves the tags `T`. -/
structure Frame (r : Formatter) (T : Tags) (K : Point → Prop) : Prop where
  halts : ∀ n, r.Halts n → K n
  leaves : ∀ len m, r.ending = .ok (len, m) → m.tag = T

theorem Frame.puts {calls : List Put} (h : K ⟨p, m⟩) : Frame (puts p m calls len) m.tag K where
  halts n hn := by
    rw [Script.halts_perform hn]
    exact h
  leaves len m' hend := by
    obtain ⟨-, rfl⟩ := Prod.mk.inj (Except.ok.inj hend)
    rfl

theorem Frame.stop {stop : Stop} (h : K ⟨p, m⟩) : Frame (.stop stop ⟨p, m⟩) T K where
  halts n hn := by
    rw [Script.halts_stop hn]
    exact h
  leaves len m' hend := by cases hend

theorem Frame.andThen (h : Frame r T K) (hnext : ∀ len m, m.tag = T → Frame (next (len, m)) T' K) :
    Frame (r.andThen next) T' K where
  halts n hn := by
    rcases Script.halts_andThen hn with hn | ⟨a, ha, hn⟩
    · exact h.halts n hn
    · exact (hnext a.1 a.2 (h.leaves _ _ ha)).halts n hn
  leaves len m' hend := by
    obtain ⟨a, ha, hb⟩ := Script.ending_andThen.1 hend
    exact (hnext a.1 a.2 (h.leaves _ _ ha)).leaves len m' hb

theorem Frame.weaken (h : Frame r T K) (hK : ∀ n, K n → K' n) : Frame r T K' :=
  ⟨fun n hn => hK n (h.halts n hn), h.leaves⟩

/-- Calls made for the entry at `p`. -/
theorem Frame.own {calls : List Put} (hm : m.tag = T) : Frame (Shared.puts p m calls len) T (Kept T e p) := by
  subst hm
  exact .puts .here

theorem Frame.element {contents : Formatter} (h : Frame contents m.tag (Kept m.tag e p)) :
    Frame (element s e p base m contents) m.tag (Kept m.tag e p) := by
  unfold Shared.element
  split
  · refine h.andThen fun len m' hm' => ?_
    unfold addTag
    split <;> exact .own hm'
  · exact .own rfl

theorem Frame.buffer (hBuf : Nat) : Frame (putBuffer hBuf p m) m.tag (Kept m.tag e p) := by
  unfold putBuffer
  dsimp only
  split
  · refine ⟨fun n hn => ?_, fun len m' hend => ?_⟩
    · rcases hn with ⟨call, hcall⟩ | ⟨stop, hstop⟩
      · rw [(Prod.mk.inj (List.mem_singleton.1 hcall)).2]
        exact .here
      · cases hstop
    · obtain ⟨-, rfl⟩ := Prod.mk.inj (Except.ok.inj hend)
      rfl
  · exact .own rfl

theorem formatSequenceOf_frame {format : Nat → Memory → Formatter}
    (h : ∀ base m, m.tag = T → Frame (format base m) T (Kept T e p)) (elementSize : Nat) :
    ∀ count base m, m.tag = T →
      Frame (formatSequenceOf format elementSize p count base m) T (Kept T e p) := by
  intro count
  induction count with
  | zero => exact fun base m hm => .own hm
  | succ count ih =>
    intro base m hm
    exact (h base m hm).andThen fun _ m' hm' =>
      (ih (base + elementSize) m' hm').andThen fun _ _ hm'' => .own hm''

mutual

/-- **The frame of the formatter**: what is in the tags wherever it can come to a halt, and that the tags
are as they were when it does not. -/
theorem format_frame (s : Record) : ∀ (e : Element) (p : Path) (base : Nat) (m : Memory),
    Frame (format s e p base m) m.tag (Kept m.tag e p)
  | .integer _, _, _, _ => .element (.own rfl)
  | .bitString _, _, _, _ => .element (.own rfl)
  | .bcdString _, _, _, _ => .element (.own rfl)
  | .octetString _, _, _, _ => .element (.own rfl)
  | .sequence i es, p, base, m => by
    have hin : ∀ j e', es[j]? = some e' → ∀ n, Kept m.tag e' (p ++ [0 + j]) n →
        Kept m.tag (.sequence i es) p n := by
      intro j e' hj n hn
      rw [Nat.zero_add] at hn
      exact hn.inside hj fun hchoice => absurd hchoice Bool.false_ne_true
    exact .element (formatElements_frame s es 0 p base m (.sequence i es) hin)
  | .sequenceOf i elementSize e, p, base, m => by
    have hframe : ∀ base m', m'.tag = m.tag → Frame (format s e (p ++ [0]) base m') m.tag
        (Kept m.tag (.sequenceOf i elementSize e) p) := by
      intro base m' hm'
      have h := format_frame s e (p ++ [0]) base m'
      rw [hm'] at h
      exact h.weaken fun n hn => hn.inside rfl fun hchoice => absurd hchoice Bool.false_ne_true
    exact .element (formatSequenceOf_frame hframe elementSize _ base m rfl)
  | .choice i es, p, base, m =>
    .element (formatAlternative_frame s es _ 0 p base m (.choice i es) rfl fun j => by
      rw [Nat.zero_add]
      rfl)
  | .buffer i, _, _, _ => .element (.buffer _)
  | .other _, _, _, _ => .element (.stop .here)

theorem formatElements_frame (s : Record) : ∀ (es : List Element) (k : Nat) (p : Path) (base : Nat)
    (m : Memory) (e : Element),
    (∀ j e', es[j]? = some e' → ∀ n, Kept m.tag e' (p ++ [k + j]) n → Kept m.tag e p n) →
    Frame (formatElements s es k p base m) m.tag (Kept m.tag e p)
  | [], _, _, _, _, _, _ => .own rfl
  | e' :: es, k, p, base, m, e, hin => by
    have hrest := formatElements_frame s es (k + 1) p base m e fun j e'' hj n hn => by
      rw [Nat.add_assoc, Nat.add_comm 1] at hn
      exact hin (j + 1) e'' hj n hn
    refine hrest.andThen fun len m' hm' => ?_
    have hframe := format_frame s e' (p ++ [k]) base m'
    rw [hm'] at hframe
    exact (hframe.weaken (hin 0 e' rfl)).andThen fun _ _ hm'' => .own hm''

theorem formatAlternative_frame (s : Record) : ∀ (es : List Element) (n k : Nat) (p : Path) (base : Nat)
    (m : Memory) (e : Element), e.isChoice = true → (∀ j, e.tableList[k + j]? = es[j]?) →
    Frame (formatAlternative s es n k (replacement (m.tag p)) p base m) m.tag (Kept m.tag e p)
  | [], _, _, _, _, _, _, _, _ => .stop .here
  | e' :: es, 0, k, p, base, m, e, hchoice, hlist => by
    have hk : e.tableList[k]? = some e' := hlist 0
    unfold formatAlternative
    dsimp only
    by_cases htag : replacement (m.tag p) = 0
    · -- the alternative keeps its tag
      rw [if_neg (not_not.2 htag)]
      have hframe := (format_frame s e' (p ++ [k]) base m).weaken fun n hn => hn.inside hk fun _ => htag
      refine hframe.andThen fun len m' hm' => .own ?_
      unfold Memory.setTag
      rw [hm', Function.update_eq_self]
    · rw [if_pos htag]
      have hframe := (format_frame s e' (p ++ [k]) base
        (m.setTag (p ++ [k]) (replacement (m.tag p)))).weaken fun n hn =>
          hn.insteadOf hk hchoice htag
      refine hframe.andThen fun len m' hm' => .own ?_
      -- the old tag is put back
      unfold Memory.setTag at hm' ⊢
      dsimp only at hm' ⊢
      rw [hm', Function.update_idem, Function.update_eq_self]
  | _ :: es, n + 1, k, p, base, m, e, hchoice, hlist =>
    formatAlternative_frame s es n (k + 1) p base m e hchoice fun j => by
      rw [Nat.add_assoc, Nat.add_comm 1]
      exact hlist (j + 1)

end

/-! ## A call -/

/-- Where `asn_berFormat` gives up: the entry for which the buffer module has failed, or whose type is not
known. -/
def givesUpAt (grant : Nat → Bool) (s : Record) (e : Element) (base : Nat) (m : Memory) (t : Target) :
    Option Path :=
  match (format s e [] base m).run (Put.run grant) t with
  | .refused n _ | .stopped .programmerError n _ => some n.entry
  | .finished _ _ | .stopped .undefined _ _ => none

/-- What is in memory when `asn_berFormat` returns. -/
def Result.memory : Result → Option Memory
  | .ok _ m _ | .failed _ m _ => some m
  | .undefined => none

/-- **The tags after a call** are those before it exactly when the call does not give up within an
alternative in which a choice has put a different one. -/
theorem tags_after_iff (h : (asnBerFormat grant s e [] base m t).memory = some m') :
    m'.tag = m.tag ↔ ∀ q, givesUpAt grant s e base m t = some q → altered q e [] m.tag = false := by
  have hframe := format_frame s e [] base m
  have hhalt : ∀ n, (format s e [] base m).Halts n →
      (n.memory.tag = m.tag ↔ altered n.entry e [] m.tag = false) := by
    intro n hn
    obtain ⟨rest, hentry, hiff⟩ := (hframe.halts n hn).entry
    rwa [hentry, List.nil_append]
  unfold asnBerFormat at h
  unfold givesUpAt
  cases hrun : (format s e [] base m).run (Put.run grant) t with
  | finished r t' =>
    rw [hrun] at h
    obtain rfl := Option.some.inj h
    have htags := hframe.leaves r.1 r.2 (Script.run_finished_iff.1 hrun).1
    exact iff_of_true htags fun q hq => by cases hq
  | refused n t' =>
    rw [hrun] at h
    obtain rfl := Option.some.inj h
    simpa using hhalt n (Script.run_refused hrun)
  | stopped stop n t' =>
    rw [hrun] at h
    cases stop with
    | programmerError =>
      obtain rfl := Option.some.inj h
      simpa using hhalt n (Script.run_stopped hrun)
    | undefined => cases h

/-! ## The uses of a tree -/

mutual

/-- The tree with other tags. -/
def retag (T : Tags) : Element → Path → Element
  | .integer i, p => .integer { i with tag := T p }
  | .bitString i, p => .bitString { i with tag := T p }
  | .bcdString i, p => .bcdString { i with tag := T p }
  | .octetString i, p => .octetString { i with tag := T p }
  | .sequence i es, p => .sequence { i with tag := T p } (retagAll T es 0 p)
  | .sequenceOf i elementSize e, p =>
    .sequenceOf { i with tag := T p } elementSize (retag T e (p ++ [0]))
  | .choice i es, p => .choice { i with tag := T p } (retagAll T es 0 p)
  | .buffer i, p => .buffer { i with tag := T p }
  | .other i, p => .other { i with tag := T p }

def retagAll (T : Tags) : List Element → Nat → Path → List Element
  | [], _, _ => []
  | e :: es, k, p => retag T e (p ++ [k]) :: retagAll T es (k + 1) p

end

/-- What is done with a compile tree. -/
inductive Use
  | format (grant : Nat → Bool) (s : Record) (base : Nat) (buffer : Nat → Front) (t : Target)
  | parse (longMax base : Nat) (b : Buf) (c : CStruct) (quota : Nat)

inductive Answer
  | formatted (r : Result)
  | parsed (r : Parse)

/-- What a use of the tree with the tags `T` gives. -/
def Use.answer (e : Element) (T : Tags) : Use → Answer
  | .format grant s base buffer t => .formatted (asnBerFormat grant s e [] base ⟨T, buffer⟩ t)
  | .parse longMax base b c quota => .parsed ((retag T e []).parse longMax base b c quota)

/-- The tags after a use. The parser writes none. -/
def Use.tags (e : Element) (T : Tags) : Use → Option Tags
  | .format grant s base buffer t =>
    (asnBerFormat grant s e [] base ⟨T, buffer⟩ t).memory.map Memory.tag
  | .parse _ _ _ _ _ => some T

/-- The use does not give up within an alternative in which a choice has put a different tag. -/
def Use.Harmless (e : Element) (T : Tags) : Use → Prop
  | .format grant s base buffer t =>
    ∀ q, givesUpAt grant s e base ⟨T, buffer⟩ t = some q → altered q e [] T = false
  | .parse _ _ _ _ _ => True

/-- The tags after several uses. -/
def reached (e : Element) : List Use → Tags → Option Tags
  | [], T => some T
  | u :: us, T => (u.tags e T).bind (reached e us)

theorem Use.tags_of_harmless {u : Use} (h : u.Harmless e T) (hT : u.tags e T = some T') : T' = T := by
  cases u with
  | format grant s base buffer t =>
    obtain ⟨m', hm', rfl⟩ := Option.map_eq_some_iff.1 hT
    exact (tags_after_iff hm').2 h
  | parse longMax base b c quota => exact (Option.some.inj hT).symm

/-- The tags after harmless uses. -/
theorem reached_of_harmless {us : List Use} (h : ∀ u ∈ us, u.Harmless e T)
    (hT : reached e us T = some T') : T' = T := by
  induction us with
  | nil => exact (Option.some.inj hT).symm
  | cons u us ih =>
    rw [List.forall_mem_cons] at h
    obtain ⟨T₁, hu, hus⟩ := Option.bind_eq_some_iff.1 hT
    obtain rfl := Use.tags_of_harmless h.1 hu
    exact ih h.2 hus

/-- **The tags of a compile tree**: when a call leaves them as they were, and that no use depends on the
ones before it when none gives up where a tag is a different one. -/
theorem compile_tree_kept (e : Element) :
    (∀ (grant : Nat → Bool) (s : Record) (base : Nat) (m m' : Memory) (t : Target),
      (asnBerFormat grant s e [] base m t).memory = some m' →
        (m'.tag = m.tag ↔
          ∀ q, givesUpAt grant s e base m t = some q → altered q e [] m.tag = false)) ∧
    ∀ (T T' : Tags) (us : List Use), (∀ u ∈ us, u.Harmless e T) → reached e us T = some T' →
      T' = T ∧ ∀ u : Use, u.answer e T' = u.answer e T := by
  refine ⟨fun _ _ _ _ _ _ => tags_after_iff, fun T T' us h hT => ?_⟩
  obtain rfl := reached_of_harmless h hT
  exact ⟨rfl, fun _ => rfl⟩

/-- A choice with an implicit tag, of one alternative. -/
def taggedChoice : Element := .choice { tag := 0x81 } [.integer { tag := 2 }]

def taggedChoiceTags : Tags := fun p => if p = [] then 0x81 else 2

def taggedChoiceMemory : Memory := ⟨taggedChoiceTags, fun _ => ⟨[], 0⟩⟩

/-- The choice is formatted, then parsed, and is as it was. -/
theorem compile_tree_kept_formatted :
    (∃ m, (asnBerFormat (fun _ => true) { c := {} } taggedChoice [] 0 taggedChoiceMemory
      ⟨Front.alloc 16, 0⟩).memory = some m ∧ m.tag = taggedChoiceTags) ∧
    ∃ T, reached taggedChoice
        [.format (fun _ => true) { c := {} } 0 (fun _ => ⟨[], 0⟩) ⟨Front.alloc 16, 0⟩,
          .parse 0 0 ⟨[[2, 1, 5]], 0, 0⟩ {} 3] taggedChoiceTags = some T ∧
      T = taggedChoiceTags := by
  have hnone : givesUpAt (fun _ => true) { c := {} } taggedChoice 0 taggedChoiceMemory
      ⟨Front.alloc 16, 0⟩ = none := rfl
  have hnot : ∀ q, givesUpAt (fun _ => true) { c := {} } taggedChoice 0 taggedChoiceMemory
      ⟨Front.alloc 16, 0⟩ = some q → altered q taggedChoice [] taggedChoiceTags = false := by
    intro q hq
    rw [hnone] at hq
    cases hq
  have hmemory : ∃ m, (asnBerFormat (fun _ => true) { c := {} } taggedChoice [] 0 taggedChoiceMemory
      ⟨Front.alloc 16, 0⟩).memory = some m := ⟨_, rfl⟩
  obtain ⟨m, hm⟩ := hmemory
  have htags : (Use.format (fun _ => true) { c := {} } 0 (fun _ => ⟨[], 0⟩) ⟨Front.alloc 16, 0⟩).tags
      taggedChoice taggedChoiceTags = some m.tag := congrArg (Option.map Memory.tag) hm
  have hreached : reached taggedChoice
      [.format (fun _ => true) { c := {} } 0 (fun _ => ⟨[], 0⟩) ⟨Front.alloc 16, 0⟩,
        .parse 0 0 ⟨[[2, 1, 5]], 0, 0⟩ {} 3] taggedChoiceTags = some m.tag := by
    rw [reached, htags]
    rfl
  have hall := compile_tree_kept taggedChoice
  refine ⟨⟨m, hm, (hall.1 _ _ _ _ _ _ hm).2 hnot⟩, m.tag, hreached, ?_⟩
  refine (hall.2 _ _ _ ?_ hreached).1
  exact List.forall_mem_cons.2 ⟨hnot, List.forall_mem_singleton.2 trivial⟩

/-- **A tag that stays in the wrong place**: without memory the alternative keeps the tag of the choice,
and is no longer found by the parser. -/
theorem choice_not_restored :
    ∃ m t, asnBerFormat (fun _ => false) { c := {} } taggedChoice [] 0 taggedChoiceMemory
        ⟨⟨[[]], 0⟩, 0⟩ = .failed .resourceError m t ∧
      m.tag [0] = 0x81 ∧ taggedChoiceTags [0] = 2 ∧
      (∃ b c, (retag taggedChoiceTags taggedChoice []).parse 0 0 ⟨[[2, 1, 5]], 0, 0⟩ {} 3 =
        .done b c 3) ∧
      ∃ b c, (retag m.tag taggedChoice []).parse 0 0 ⟨[[2, 1, 5]], 0, 0⟩ {} 3 =
        .failed .wrongTag b c := by
  refine ⟨⟨Function.update taggedChoiceTags [0] 0x81, fun _ => ⟨[], 0⟩⟩, ⟨⟨[[]], 0⟩, 0⟩, rfl, rfl, rfl,
    ⟨_, _, rfl⟩, _, _, rfl⟩

end Shared

end Asn
