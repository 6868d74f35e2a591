import Emsd.Lib.Filling
import Emsd.Lib.Shell
import Emsd.Lib.Text
import Emsd.Ocp.Strings

/-!
# Macros in a configuration file (`config.c`)

`expand` copies a line into a buffer and replaces the references to macros by their values. Under UNIX the
buffer is one of its own, from which it copies into that of its caller and replaces commands by their
output. A text is what stands in front of the terminator of a string.

* `substituteMacros_eq`, `substituteCommands_eq`: each pass fills its buffer with the pieces of its line.
* `macroPass_iff`: what the first pass makes is the line with its references replaced exactly when the
  buffer is not filled to the brim, and no reference lacks its end.
* `expand_iff`: **the same for `expand`.**
-/

namespace Cfg

open Filling Ocp

abbrev Text := List Char

/-! ## The code -/

/-- `CONFIG_MAX_PARAMETER_LEN`. -/
def configMaxParameterLen : ℕ := 256

/-- `Macro`. -/
structure Macro where
  pMacroName : Text
  pExpansion : Text
  deriving DecidableEq, Repr

/-- `strchr`: what is in front of the first such character, and behind it. -/
def strchr (c : Char) : Text → Option (Text × Text)
  | [] => none
  | x :: s => if x = c then some ([], s) else (strchr c s).map fun (front, rest) => (x :: front, rest)

theorem strchr_eq_some {c : Char} {s front rest : Text} (h : strchr c s = some (front, rest)) :
    s = front ++ c :: rest ∧ c ∉ front := by
  induction s generalizing front with
  | nil => cases h
  | cons x s ih =>
    unfold strchr at h
    split at h
    · rename_i hx
      obtain ⟨rfl, rfl⟩ := Prod.mk.inj (Option.some.inj h)
      exact ⟨hx ▸ rfl, List.not_mem_nil⟩
    · rename_i hx
      obtain ⟨⟨front', rest'⟩, hs, heq⟩ := Option.map_eq_some_iff.1 h
      obtain ⟨rfl, rfl⟩ := Prod.mk.inj heq
      obtain ⟨rfl, hfront⟩ := ih hs
      refine ⟨rfl, fun hmem => ?_⟩
      rcases List.mem_cons.1 hmem with rfl | hmem
      · exact hx rfl
      · exact hfront hmem

theorem strchr_eq_none {c : Char} {s : Text} : strchr c s = none ↔ c ∉ s := by
  induction s with
  | nil => exact iff_of_true rfl List.not_mem_nil
  | cons x s ih =>
    unfold strchr
    split
    · rename_i hx
      exact iff_of_false nofun fun h => h (hx ▸ List.mem_cons_self)
    · rename_i hx
      rw [Option.map_eq_none_iff, ih, List.mem_cons, not_or]
      exact (and_iff_right (Ne.symm hx)).symm

theorem strchr_length {c : Char} {s front rest : Text} (h : strchr c s = some (front, rest)) :
    rest.length < s.length := by
  rw [(strchr_eq_some h).1, List.length_append, List.length_cons]
  omega

section Code

variable (pConfig : List Macro) (getenv popen : Text → Option Text) (pOutputEnd : ℕ)

/-- The value of a reference: that of the first macro with the name, or else of an environment variable. -/
def valueOf (name : Text) : Option Text :=
  match pConfig.find? fun pMacro => pMacro.pMacroName = name with
  | some pMacro => some pMacro.pExpansion
  | none => getenv name

/-- The first pass of `expand`, into a buffer of the given size. A write behind its end is undefined. -/
def substituteMacros (pInput pOutput : Text) : Except Stop Text :=
  match pInput with
  | [] => terminate .undefined pOutputEnd pOutput
  | '$' :: '{' :: s =>
    match _h : strchr '}' s with
    -- the dollar is skipped, and not written
    | none => substituteMacros ('{' :: s) pOutput
    | some (name, pEnd) =>
      match valueOf pConfig getenv name with
      | none => .error .fail
      | some value => copy .resourceError .undefined pOutputEnd pOutput value >>= substituteMacros pEnd
  | c :: s => put .resourceError pOutputEnd pOutput c >>= substituteMacros s
termination_by pInput.length
decreasing_by
  · exact Nat.lt_succ_self _
  · have := strchr_length _h
    simp only [List.length_cons]
    omega
  · exact Nat.lt_succ_self _

/-- What `fgets` reads of the output of a command, without the newline. -/
def commandOutput (output : Text) : Text :=
  let cmdBuf := Text.cString ((Text.lines configMaxParameterLen output []).headD [])
  if cmdBuf.getLast? = some '\n' then cmdBuf.dropLast else cmdBuf

/-- The second pass of `expand`. -/
def substituteCommands (pInput pOutput : Text) : Except Stop Text :=
  match pInput with
  | [] => terminate .undefined pOutputEnd pOutput
  | c :: s =>
    if c = Shell.backquote then
      match _h : strchr Shell.backquote s with
      | none => put .resourceError pOutputEnd pOutput c >>= substituteCommands s
      | some (command, pEnd) =>
        match popen command with
        | none => .error .fail
        | some output => copy .resourceError .undefined pOutputEnd pOutput (commandOutput output) >>=
            substituteCommands pEnd
    else put .resourceError pOutputEnd pOutput c >>= substituteCommands s
termination_by pInput.length
decreasing_by
  · exact Nat.lt_succ_self _
  · have := strchr_length _h
    simp only [List.length_cons]
    omega
  · exact Nat.lt_succ_self _

/-- `expand`, with `OS_TYPE_UNIX` or without. -/
def expand (unix : Bool) (pInput : Text) : Except Stop Text :=
  if unix then
    substituteMacros pConfig getenv configMaxParameterLen pInput [] >>= fun buf =>
      substituteCommands popen pOutputEnd buf []
  else substituteMacros pConfig getenv pOutputEnd pInput []

end Code

/-! ## What a line is made of -/

/-- A part of a line for the first pass: a character, a reference, or the dollar of a reference that lacks
its end. -/
inductive Item
  | char (c : Char)
  | reference (name : Text)
  | dollar
  deriving DecidableEq, Repr

/-- The parts of a line. -/
def items (line : Text) : List Item :=
  match line with
  | [] => []
  | '$' :: '{' :: s =>
    match _h : strchr '}' s with
    | none => .dollar :: items ('{' :: s)
    | some (name, rest) => .reference name :: items rest
  | c :: s => .char c :: items s
termination_by line.length
decreasing_by
  · exact Nat.lt_succ_self _
  · have := strchr_length _h
    simp only [List.length_cons]
    omega
  · exact Nat.lt_succ_self _

/-- What a part of a line becomes; `lone` is what becomes of a dollar without a reference. -/
def Item.pieces (value : Text → Option Text) (lone : Text) : Item → List (Piece Char)
  | .char c => [.single c]
  | .reference name => [.copied (value name)]
  | .dollar => lone.map .single

/-- What the first pass writes. -/
def written (value : Text → Option Text) (line : Text) : List (Piece Char) :=
  (items line).flatMap (Item.pieces value [])

/-- **The line with its references replaced**, all other text as it is; nothing if a reference has no
value. -/
def expansion (value : Text → Option Text) (line : Text) : Option Text :=
  contents ((items line).flatMap (Item.pieces value ['$']))

/-- What a text becomes in the second pass: the output of the commands in it, and all other text. -/
def commands (popen : Text → Option Text) (text : Text) : List (Piece Char) :=
  match text with
  | [] => []
  | c :: s =>
    if c = Shell.backquote then
      match _h : strchr Shell.backquote s with
      | none => .single c :: commands popen s
      | some (command, rest) => .copied ((popen command).map commandOutput) :: commands popen rest
    else .single c :: commands popen s
termination_by text.length
decreasing_by
  · exact Nat.lt_succ_self _
  · have := strchr_length _h
    simp only [List.length_cons]
    omega
  · exact Nat.lt_succ_self _

variable {pConfig : List Macro} {getenv popen value : Text → Option Text} {n : ℕ}
  {line out text s t name rest : Text} {c : Char} {l : List Item}

theorem items_dollar (h : strchr '}' s = none) :
    items ('$' :: '{' :: s) = .dollar :: items ('{' :: s) := by
  rw [items]
  split
  · rfl
  · rename_i heq
    rw [h] at heq
    cases heq

theorem items_reference (h : strchr '}' s = some (name, rest)) :
    items ('$' :: '{' :: s) = .reference name :: items rest := by
  rw [items]
  split
  · rename_i heq
    rw [h] at heq
    cases heq
  · rename_i heq
    obtain ⟨rfl, rfl⟩ := Prod.mk.inj (Option.some.inj (h.symm.trans heq))
    rfl

theorem items_char (h : ∀ t, c = '$' → s = '{' :: t → False) : items (c :: s) = .char c :: items s := by
  rw [items]
  exact h

/-- **The first pass fills its buffer.** -/
theorem substituteMacros_eq : substituteMacros pConfig getenv n line out =
    fill .fail .resourceError .undefined n (written (valueOf pConfig getenv) line) out := by
  unfold written
  induction line, out using substituteMacros.induct pConfig getenv with
  | case1 out =>
    rw [substituteMacros, items]
    rfl
  | case2 out s hend ih =>
    rw [items_dollar hend, List.flatMap_cons, substituteMacros]
    split
    · exact ih
    · rename_i heq
      rw [hend] at heq
      cases heq
  | case3 out s name pEnd hend hvalue =>
    rw [items_reference hend, List.flatMap_cons, substituteMacros]
    split
    · rename_i heq
      rw [hend] at heq
      cases heq
    · rename_i heq
      obtain ⟨rfl, rfl⟩ := Prod.mk.inj (Option.some.inj (hend.symm.trans heq))
      rw [hvalue]
      simp only [Item.pieces, hvalue, List.singleton_append, fill]
  | case4 out s name pEnd hend v hvalue ih =>
    rw [items_reference hend, List.flatMap_cons, substituteMacros]
    split
    · rename_i heq
      rw [hend] at heq
      cases heq
    · rename_i heq
      obtain ⟨rfl, rfl⟩ := Prod.mk.inj (Option.some.inj (hend.symm.trans heq))
      rw [hvalue]
      simp only [Item.pieces, hvalue, List.singleton_append, fill]
      exact bind_congr ih
  | case5 out c s hne ih =>
    rw [items_char hne, List.flatMap_cons, substituteMacros]
    · simp only [Item.pieces, List.singleton_append, fill]
      exact bind_congr ih
    · exact hne

theorem commands_backquote (h : strchr Shell.backquote s = none) :
    commands popen (Shell.backquote :: s) = .single Shell.backquote :: commands popen s := by
  rw [commands, if_pos rfl]
  split
  · rfl
  · rename_i heq
    rw [h] at heq
    cases heq

theorem commands_command (h : strchr Shell.backquote s = some (name, rest)) :
    commands popen (Shell.backquote :: s) =
      .copied ((popen name).map commandOutput) :: commands popen rest := by
  rw [commands, if_pos rfl]
  split
  · rename_i heq
    rw [h] at heq
    cases heq
  · rename_i heq
    obtain ⟨rfl, rfl⟩ := Prod.mk.inj (Option.some.inj (h.symm.trans heq))
    rfl

/-- **The second pass fills its buffer.** -/
theorem substituteCommands_eq : substituteCommands popen n text out =
    fill .fail .resourceError .undefined n (commands popen text) out := by
  induction text, out using substituteCommands.induct popen with
  | case1 out =>
    rw [substituteCommands, commands]
    rfl
  | case2 out s hend ih =>
    rw [commands_backquote hend, substituteCommands, if_pos rfl, fill]
    split
    · exact bind_congr ih
    · rename_i heq
      rw [hend] at heq
      cases heq
  | case3 out s command pEnd hend hopen =>
    rw [commands_command hend, substituteCommands, if_pos rfl, hopen, Option.map_none, fill]
    split
    · rename_i heq
      rw [hend] at heq
      cases heq
    · rename_i heq
      obtain ⟨rfl, rfl⟩ := Prod.mk.inj (Option.some.inj (hend.symm.trans heq))
      rw [hopen]
  | case4 out s command pEnd hend output hopen ih =>
    rw [commands_command hend, substituteCommands, if_pos rfl, hopen, Option.map_some, fill]
    split
    · rename_i heq
      rw [hend] at heq
      cases heq
    · rename_i heq
      obtain ⟨rfl, rfl⟩ := Prod.mk.inj (Option.some.inj (hend.symm.trans heq))
      rw [hopen]
      exact bind_congr ih
  | case5 out c s hne ih =>
    rw [substituteCommands, commands, if_neg hne, if_neg hne, fill]
    exact bind_congr ih

/-- A pass makes what it should when its buffer is not filled to the brim. -/
theorem filled_iff {ps : List (Piece Char)} : Meets .undefined (contents ps) n
    (fill Stop.fail .resourceError .undefined n ps []) ↔ ¬Brimful n 0 ps :=
  fill_meets_iff (by decide) (by decide)

/-! ## The first pass -/

/-- What is written for a lone dollar only changes the length. -/
theorem contents_pieces (lone lone' : Text)
    (h : contents (l.flatMap (Item.pieces value lone)) = some t) :
    ∃ u, contents (l.flatMap (Item.pieces value lone')) = some u ∧
      u.length + l.count .dollar * lone.length = t.length + l.count .dollar * lone'.length := by
  induction l generalizing t with
  | nil =>
    obtain rfl := Option.some.inj h
    exact ⟨[], rfl, by simp⟩
  | cons item l ih =>
    rw [List.flatMap_cons] at h ⊢
    obtain ⟨s, v, hs, hv, rfl⟩ := contents_append_eq_some.1 h
    obtain ⟨u, hu, hlen⟩ := ih hv
    -- only the pieces of a dollar differ
    by_cases hitem : item = .dollar
    · subst hitem
      obtain rfl := Option.some.inj (hs.symm.trans (contents_singles lone))
      refine ⟨lone' ++ u, contents_append_eq_some.2 ⟨lone', u, contents_singles lone', hu, rfl⟩, ?_⟩
      rw [List.count_cons_self, List.length_append, List.length_append, Nat.add_mul, Nat.add_mul]
      omega
    · have hsame : item.pieces value lone' = item.pieces value lone := by
        cases item with
        | char c => rfl
        | reference name => rfl
        | dollar => exact absurd rfl hitem
      refine ⟨s ++ u, contents_append_eq_some.2 ⟨s, u, hsame ▸ hs, hu, rfl⟩, ?_⟩
      rw [List.count_cons_of_ne hitem, List.length_append, List.length_append]
      omega

/-- A line whose references have their ends is written as it should be. -/
theorem written_of_not_mem (h : Item.dollar ∉ items line) :
    expansion value line = contents (written value line) := by
  unfold expansion written
  congr 1
  refine List.flatMap_congr fun item hitem => ?_
  cases item with
  | char c => rfl
  | reference name => rfl
  | dollar => exact absurd hitem h

/-- A line with a reference that lacks its end becomes too short. -/
theorem written_of_mem (h : Item.dollar ∈ items line) (ht : contents (written value line) = some t) :
    ∃ u, expansion value line = some u ∧ t.length < u.length := by
  obtain ⟨u, hu, hlen⟩ := contents_pieces [] ['$'] ht
  have hcount : 0 < (items line).count .dollar := List.count_pos_iff.2 h
  refine ⟨u, hu, ?_⟩
  simp only [List.length_nil, List.length_singleton] at hlen
  omega

theorem expansion_none (ht : contents (written value line) = none) : expansion value line = none := by
  cases hu : expansion value line with
  | none => rfl
  | some u =>
    obtain ⟨t, ht', -⟩ := contents_pieces ['$'] [] hu
    exact absurd (ht.symm.trans ht') nofun

/-- The references of the line have their ends, and its buffer is not filled to the brim where a terminator
is written; or the line is too long anyway. -/
def Sound (value : Text → Option Text) (n : ℕ) (line : Text) : Prop :=
  ¬Brimful n 0 (written value line) ∧
    (Item.dollar ∈ items line → ∀ t, contents (written value line) = some t → n < t.length)

/-- **What the first pass makes** is the line with its references replaced. -/
theorem macroPass_iff : Meets .undefined (expansion (valueOf pConfig getenv) line) n
    (substituteMacros pConfig getenv n line []) ↔ Sound (valueOf pConfig getenv) n line := by
  rw [substituteMacros_eq]
  unfold Sound
  generalize valueOf pConfig getenv = value
  by_cases hmem : Item.dollar ∈ items line
  · constructor
    · intro h
      have hbrim : ¬Brimful n 0 (written value line) := fun hbrim => h.1 (fill_brimful hbrim)
      refine ⟨hbrim, fun _ t ht => ?_⟩
      obtain ⟨u, hu, hlt⟩ := written_of_mem hmem ht
      rw [fill_empty hbrim ht] at h
      by_contra hle
      rcases Nat.lt_or_eq_of_le (Nat.le_of_not_lt hle) with hfits | heq
      · -- it fits, but the dollar is not there
        rw [if_pos hfits] at h
        obtain rfl : u = t := Option.some.inj (hu.symm.trans ((h.2 t).1 rfl).1)
        exact Nat.lt_irrefl _ hlt
      · exact hbrim ⟨_, [], t, (List.append_nil _).symm, ht, by omega, .inl rfl⟩
    · rintro ⟨hbrim, hlong⟩
      cases ht : contents (written value line) with
      | none =>
        rw [expansion_none ht, ← ht]
        exact filled_iff.2 hbrim
      | some t =>
        obtain ⟨u, hu, hlt⟩ := written_of_mem hmem ht
        have hn := hlong hmem t ht
        rw [fill_empty hbrim ht, if_neg (by omega)]
        refine meets_error nofun fun v hv => ?_
        obtain rfl := Option.some.inj (hu.symm.trans hv)
        omega
  · rw [written_of_not_mem hmem, filled_iff]
    exact (and_iff_left fun h => absurd h hmem).symm

/-- A reference lacks its end when there is no brace behind it. -/
theorem dollar_mem_iff : Item.dollar ∈ items line ↔
    ∃ front s, line = front ++ '$' :: '{' :: s ∧ '}' ∉ s := by
  induction line using items.induct with
  | case1 =>
    rw [items]
    refine iff_of_false List.not_mem_nil ?_
    rintro ⟨front, s, h, -⟩
    exact absurd h (by simp)
  | case2 s hend ih =>
    rw [items_dollar hend]
    exact iff_of_true List.mem_cons_self ⟨[], s, rfl, strchr_eq_none.1 hend⟩
  | case3 s name rest hend ih =>
    obtain ⟨rfl, -⟩ := strchr_eq_some hend
    rw [items_reference hend, List.mem_cons, or_iff_right nofun, ih]
    constructor
    · rintro ⟨front, s, rfl, hs⟩
      exact ⟨'$' :: '{' :: (name ++ '}' :: front), s, by simp, hs⟩
    · rintro ⟨front, s, heq, hs⟩
      have hsplit : (('$' :: '{' :: name) ++ ['}']) ++ rest = front ++ '$' :: '{' :: s := by
        rw [← heq]
        simp
      rcases List.append_eq_append_iff.1 hsplit with ⟨front', -, hrest⟩ | ⟨front', hfront, hs'⟩
      · exact ⟨front', s, hrest, hs⟩
      · cases front' with
        | nil => exact ⟨[], s, hs'.symm, hs⟩
        | cons x front' =>
          -- the brace that ends the reference is behind the dollar
          exfalso
          have hlast : '}' ∈ '$' :: '{' :: s := by
            have hmem : '}' ∈ x :: front' := by
              have := congrArg List.getLast? hfront
              rw [List.getLast?_append_of_ne_nil _ (List.cons_ne_nil x front')] at this
              exact List.mem_of_getLast? (this.symm.trans List.getLast?_concat)
            rw [hs']
            exact List.mem_append_left _ hmem
          simp only [List.mem_cons] at hlast
          rcases hlast with h | h | h
          · cases h
          · cases h
          · exact hs h
  | case4 c s hne ih =>
    rw [items_char hne, List.mem_cons, or_iff_right nofun, ih]
    constructor
    · rintro ⟨front, t, rfl, ht⟩
      exact ⟨c :: front, t, rfl, ht⟩
    · rintro ⟨front, t, heq, ht⟩
      cases front with
      | nil =>
        obtain ⟨rfl, rfl⟩ := List.cons.inj heq
        exact (hne t rfl rfl).elim
      | cons x front => exact ⟨front, t, (List.cons.inj heq).2, ht⟩

/-! ## `expand` -/

/-- What `expand` is for: the buffer of each pass gets what it should, or the call fails. -/
def ExpandMeets (pConfig : List Macro) (getenv popen : Text → Option Text) (pOutputEnd : ℕ) (unix : Bool)
    (line : Text) : Prop :=
  let r := expand pConfig getenv popen pOutputEnd unix line
  let buf := substituteMacros pConfig getenv configMaxParameterLen line []
  if unix then
    Meets .undefined (expansion (valueOf pConfig getenv) line) configMaxParameterLen buf ∧
      ∀ text, buf = .ok text → Meets .undefined (contents (commands popen text)) pOutputEnd r
  else Meets .undefined (expansion (valueOf pConfig getenv) line) pOutputEnd r

/-- The lines that `expand` treats so. -/
def ExpandSound (value popen : Text → Option Text) (pOutputEnd : ℕ) (unix : Bool) (line : Text) : Prop :=
  if unix then Sound value configMaxParameterLen line ∧
    ∀ text, expansion value line = some text → text.length < configMaxParameterLen →
      ¬Brimful pOutputEnd 0 (commands popen text)
  else Sound value pOutputEnd line

/-- **Expansion**: `expand` makes of a line what it should, or fails, without a write behind its buffers,
exactly when the references have their ends and no buffer is filled to the brim. -/
theorem expand_iff (pConfig : List Macro) (getenv popen : Text → Option Text) (pOutputEnd : ℕ) (unix : Bool)
    (line : Text) : ExpandMeets pConfig getenv popen pOutputEnd unix line ↔
      ExpandSound (valueOf pConfig getenv) popen pOutputEnd unix line := by
  unfold ExpandMeets ExpandSound
  cases unix with
  | false => exact macroPass_iff
  | true =>
    simp only [if_true]
    rw [macroPass_iff]
    refine and_congr_right fun hsound => ?_
    have hok := (macroPass_iff.2 hsound).2
    constructor
    · intro h text ht hlt
      have hbuf := (hok text).2 ⟨ht, hlt⟩
      have hmeets := h text hbuf
      simp only [expand, if_true, hbuf] at hmeets
      have hpass : Meets .undefined (contents (commands popen text)) pOutputEnd
          (substituteCommands popen pOutputEnd text []) := hmeets
      rw [substituteCommands_eq] at hpass
      exact filled_iff.1 hpass
    · intro h text hbuf
      obtain ⟨ht, hlt⟩ := (hok text).1 hbuf
      have hpass := filled_iff.2 (h text ht hlt)
      rw [← substituteCommands_eq] at hpass
      simp only [expand, if_true, hbuf]
      exact hpass

/-- **What comes out of it under UNIX**: the line with its references and then its commands replaced, if it
fits into both buffers, and nothing is written behind one of them. -/
theorem expand_unix {u : Text} (h : ExpandSound (valueOf pConfig getenv) popen n true line) :
    expand pConfig getenv popen n true line ≠ .error .undefined ∧
      (expand pConfig getenv popen n true line = .ok u ↔
        ∃ text, expansion (valueOf pConfig getenv) line = some text ∧
          text.length < configMaxParameterLen ∧ contents (commands popen text) = some u ∧ u.length < n) := by
  obtain ⟨hbuf, hpass⟩ := (expand_iff pConfig getenv popen n true line).2 h
  cases hr : substituteMacros pConfig getenv configMaxParameterLen line [] with
  | error e =>
    have hexpand : expand pConfig getenv popen n true line = .error e := by
      simp only [expand, if_true, hr]
      rfl
    rw [hr] at hbuf
    rw [hexpand]
    refine ⟨hbuf.1, iff_of_false nofun ?_⟩
    rintro ⟨text, ht, hlt, -⟩
    exact absurd ((hbuf.2 text).2 ⟨ht, hlt⟩) nofun
  | ok buf =>
    obtain ⟨hne, hok⟩ := hpass buf hr
    refine ⟨hne, (hok u).trans ?_⟩
    obtain ⟨ht, hlt⟩ := (hbuf.2 buf).1 hr
    constructor
    · rintro ⟨hu, hun⟩
      exact ⟨buf, ht, hlt, hu, hun⟩
    · rintro ⟨text, htext, -, hu⟩
      obtain rfl := Option.some.inj (ht.symm.trans htext)
      exact hu

/-- A line without a dollar is copied as it stands. -/
theorem written_plain (h : '$' ∉ line) : written value line = line.map .single := by
  unfold written
  induction line with
  | nil =>
    rw [items]
    rfl
  | cons c line ih =>
    rw [List.mem_cons, not_or] at h
    rw [items_char fun t hc _ => h.1 hc.symm, List.flatMap_cons, ih h.2]
    rfl

/-- **A line as long as the buffer**: its terminator is written behind it. -/
theorem substituteMacros_full (h : '$' ∉ line) :
    substituteMacros pConfig getenv line.length line [] = .error .undefined := by
  rw [substituteMacros_eq, written_plain h]
  exact fill_brimful ⟨_, [], line, (List.append_nil _).symm, contents_singles line, Nat.zero_add _, .inl rfl⟩

/-- **The buffer of a parameter is left by one**, and the dollar of `${a` is lost. -/
theorem expand_overruns :
    expand [] (fun _ => none) (fun _ => none) 256 true (List.replicate 256 'x') = .error .undefined ∧
    ¬ExpandMeets [] (fun _ => none) (fun _ => none) 256 true (List.replicate 256 'x') ∧
    expand [] (fun _ => none) (fun _ => none) 256 false ['$', '{', 'a'] = .ok ['{', 'a'] ∧
    ¬ExpandMeets [] (fun _ => none) (fun _ => none) 256 false ['$', '{', 'a'] := by
  have hplain : '$' ∉ List.replicate 256 'x' := fun h =>
    absurd (List.eq_of_mem_replicate h) (by decide)
  have hpass : substituteMacros [] (fun _ => none) configMaxParameterLen (List.replicate 256 'x') [] =
      .error .undefined := by
    have hfull : substituteMacros [] (fun _ => none) (List.replicate 256 'x').length
        (List.replicate 256 'x') [] = .error .undefined := substituteMacros_full hplain
    rwa [List.length_replicate] at hfull
  have hlost : expand [] (fun _ => none) (fun _ => none) 256 false ['$', '{', 'a'] = .ok ['{', 'a'] := by
    simp [expand, substituteMacros, strchr, put, terminate, bind, Except.bind]
  refine ⟨?_, ?_, hlost, ?_⟩
  · simp only [expand, if_true, hpass]
    rfl
  · rintro ⟨⟨hne, -⟩, -⟩
    exact hne hpass
  · intro h
    have := ((h : Meets _ _ _ _).2 _).1 hlost
    simp [expansion, items, strchr, Item.pieces, contents, Piece.contents] at this

end Cfg
