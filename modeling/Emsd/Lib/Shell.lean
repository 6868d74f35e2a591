import Mathlib.Algebra.BigOperators.Group.List.Basic
import Mathlib.Tactic.Common

/-!
# Words of the shell

How a POSIX shell splits a command into words and removes the quoting. A command that is not a list of
words by quoting alone (an operator, an expansion, a pattern or a comment in it, or a quote that is not
closed) has none.

* `words_quoted`: a text in single quotes is a word, if it has no single quote.
* `words_iff`: **the only texts that stand for themselves** are plain words in front, and texts without a
  single quote in single quotes.
-/

namespace Shell

/-! ## Splitting -/

def quote : Char := '\x27'

def doubleQuote : Char := '\x22'

def backslash : Char := '\x5c'

def backquote : Char := '\x60'

def isBlank (c : Char) : Bool := c = ' ' ∨ c = '\t'

/-- Operators, expansions and patterns. -/
def isSpecial (c : Char) : Bool :=
  c ∈ ['\n', '|', '&', ';', '<', '>', '(', ')', '$', backquote, '*', '?', '[']

/-- Where the shell is in a command. -/
inductive Quoting
  | blank
  | plain
  | single
  | double
  | escaped (inWord : Bool)
  | doubleEscaped
  deriving DecidableEq

/-- The words of a command, with what has been read of the first of them. -/
def split : Quoting → List Char → List Char → Option (List (List Char))
  | .blank, _, [] => some []
  | .plain, w, [] => some [w]
  | _, _, [] => none
  | .blank, w, c :: s =>
    if isBlank c then split .blank w s
    else if c = quote then split .single w s
    else if c = doubleQuote then split .double w s
    else if c = backslash then split (.escaped false) w s
    else if isSpecial c ∨ c = '#' ∨ c = '~' then none
    else split .plain (w ++ [c]) s
  | .plain, w, c :: s =>
    if isBlank c then (split .blank [] s).map (w :: ·)
    else if c = quote then split .single w s
    else if c = doubleQuote then split .double w s
    else if c = backslash then split (.escaped true) w s
    else if isSpecial c then none
    else split .plain (w ++ [c]) s
  | .single, w, c :: s => if c = quote then split .plain w s else split .single (w ++ [c]) s
  | .double, w, c :: s =>
    if c = doubleQuote then split .plain w s
    else if c = backslash then split .doubleEscaped w s
    else if c = '$' ∨ c = backquote then none
    else split .double (w ++ [c]) s
  | .escaped inWord, w, c :: s =>
    if c = '\n' then split (if inWord then .plain else .blank) w s else split .plain (w ++ [c]) s
  | .doubleEscaped, w, c :: s =>
    if c = '\n' then split .double w s
    else if c ∈ ['$', backquote, doubleQuote, backslash] then split .double (w ++ [c]) s
    else split .double (w ++ [backslash, c]) s

def words (s : List Char) : Option (List (List Char)) := split .blank [] s

variable {q : Quoting} {w s u r v : List Char} {ws hs rs : List (List Char)} {c : Char}

/-! ## Splitting, character by character -/

section

variable {inWord : Bool}

theorem split_blank_cons : split .blank w (c :: s) =
    if isBlank c then split .blank w s
    else if c = quote then split .single w s
    else if c = doubleQuote then split .double w s
    else if c = backslash then split (.escaped false) w s
    else if isSpecial c ∨ c = '#' ∨ c = '~' then none
    else split .plain (w ++ [c]) s := rfl

theorem split_plain_cons : split .plain w (c :: s) =
    if isBlank c then (split .blank [] s).map (w :: ·)
    else if c = quote then split .single w s
    else if c = doubleQuote then split .double w s
    else if c = backslash then split (.escaped true) w s
    else if isSpecial c then none
    else split .plain (w ++ [c]) s := rfl

theorem split_single_cons : split .single w (c :: s) =
    if c = quote then split .plain w s else split .single (w ++ [c]) s := rfl

theorem split_double_cons : split .double w (c :: s) =
    if c = doubleQuote then split .plain w s
    else if c = backslash then split .doubleEscaped w s
    else if c = '$' ∨ c = backquote then none
    else split .double (w ++ [c]) s := rfl

theorem split_escaped_cons : split (.escaped inWord) w (c :: s) =
    if c = '\n' then split (if inWord then .plain else .blank) w s else split .plain (w ++ [c]) s := rfl

theorem split_doubleEscaped_cons : split .doubleEscaped w (c :: s) =
    if c = '\n' then split .double w s
    else if c ∈ ['$', backquote, doubleQuote, backslash] then split .double (w ++ [c]) s
    else split .double (w ++ [backslash, c]) s := rfl

theorem split_plain_nil : split .plain w [] = some [w] := rfl

end

/-! ## Words that stand for themselves -/

/-- A character that means itself, unquoted. -/
structure Ordinary (c : Char) : Prop where
  notBlank : isBlank c = false
  notQuote : c ≠ quote
  notDoubleQuote : c ≠ doubleQuote
  notBackslash : c ≠ backslash
  notSpecial : isSpecial c = false

/-- A word that means itself, unquoted. -/
structure Plain (v : List Char) : Prop where
  ordinary : ∀ c ∈ v, Ordinary c
  nonempty : v ≠ []
  first : ∀ c ∈ v.head?, c ≠ '#' ∧ c ≠ '~'

theorem split_plain (hu : ∀ c ∈ u, Ordinary c) :
    split .plain w (u ++ ' ' :: s) = (split .blank [] s).map ((w ++ u) :: ·) := by
  induction u generalizing w with
  | nil =>
    rw [List.nil_append, split_plain_cons, if_pos (by decide), List.append_nil]
  | cons c u ih =>
    have hc := hu c List.mem_cons_self
    rw [List.cons_append, split_plain_cons, if_neg (by rw [hc.notBlank]; decide), if_neg hc.notQuote,
      if_neg hc.notDoubleQuote, if_neg hc.notBackslash, if_neg (by rw [hc.notSpecial]; decide),
      ih fun d hd => hu d (List.mem_cons_of_mem c hd), List.append_assoc]
    rfl

theorem words_plain (hv : Plain v) : words (v ++ ' ' :: s) = (words s).map (v :: ·) := by
  cases v with
  | nil => exact absurd rfl hv.nonempty
  | cons c v =>
    have hc := hv.ordinary c List.mem_cons_self
    obtain ⟨hhash, htilde⟩ := hv.first c rfl
    have hspecial : ¬(isSpecial c = true ∨ c = '#' ∨ c = '~') := by
      rw [hc.notSpecial]
      simp [hhash, htilde]
    unfold words
    rw [List.cons_append, split_blank_cons, if_neg (by rw [hc.notBlank]; decide), if_neg hc.notQuote,
      if_neg hc.notDoubleQuote, if_neg hc.notBackslash, if_neg hspecial,
      split_plain fun d hd => hv.ordinary d (List.mem_cons_of_mem c hd)]
    rfl

theorem split_single (hr : quote ∉ r) : split .single w (r ++ quote :: s) = split .plain (w ++ r) s := by
  induction r generalizing w with
  | nil => rw [List.nil_append, split_single_cons, if_pos rfl, List.append_nil]
  | cons c r ih =>
    have hc : c ≠ quote := fun h => hr (by rw [h]; exact List.mem_cons_self)
    rw [List.cons_append, split_single_cons, if_neg hc, ih fun h => hr (List.mem_cons_of_mem c h),
      List.append_assoc]
    rfl

/-- **A text in single quotes is a word.** -/
theorem words_quoted (hr : quote ∉ r) :
    words (quote :: (r ++ quote :: ' ' :: s)) = (words s).map (r :: ·) := by
  unfold words
  rw [split_blank_cons, if_neg (by decide), if_pos rfl, split_single hr, split_plain_cons,
    if_pos (by decide), List.nil_append]

theorem words_quoted_last (hr : quote ∉ r) : words (quote :: (r ++ [quote])) = some [r] := by
  unfold words
  rw [split_blank_cons, if_neg (by decide), if_pos rfl, split_single hr, split_plain_nil,
    List.nil_append]

/-! ## Quoting is lost -/

/-- The double quotes and backslashes of a text. -/
def escapes (s : List Char) : ℕ := s.countP fun c => c = doubleQuote ∨ c = backslash

@[simp] theorem escapes_nil : escapes [] = 0 := rfl

@[simp] theorem escapes_append (s t : List Char) : escapes (s ++ t) = escapes s + escapes t :=
  List.countP_append

theorem escapes_cons (c : Char) (s : List Char) :
    escapes (c :: s) = escapes s + if c = doubleQuote ∨ c = backslash then 1 else 0 := by
  unfold escapes
  rw [List.countP_cons]
  simp

/-- **The shell adds no double quote and no backslash.** -/
theorem split_escapes (h : split q w s = some ws) :
    escapes ws.flatten ≤ escapes w + escapes s + if q = .doubleEscaped then 1 else 0 := by
  induction s generalizing q w ws with
  | nil =>
    cases q with
    | blank =>
      obtain rfl := Option.some.inj h
      simp
    | plain =>
      obtain rfl := Option.some.inj h
      simp
    | single => cases h
    | double => cases h
    | escaped inWord => cases h
    | doubleEscaped => cases h
  | cons c s ih =>
    rw [escapes_cons]
    have hnext : ∀ {q' : Quoting} {w' : List Char}, split q' w' s = some ws → q' ≠ .doubleEscaped →
        escapes ws.flatten ≤ escapes w' + escapes s := by
      intro q' w' h' hq'
      have := ih h'
      rw [if_neg hq'] at this
      omega
    have hadd : escapes (w ++ [c]) = escapes w + if c = doubleQuote ∨ c = backslash then 1 else 0 := by
      rw [escapes_append, escapes_cons, escapes_nil, Nat.zero_add]
    cases q with
    | blank =>
      rw [split_blank_cons] at h
      split_ifs at h
      · have := hnext h (by decide)
        omega
      · have := hnext h (by decide)
        omega
      · have := hnext h (by decide)
        omega
      · have := hnext h (by simp)
        omega
      · have := hnext h (by decide)
        omega
    | plain =>
      rw [split_plain_cons] at h
      split_ifs at h
      · obtain ⟨ws', h', rfl⟩ := Option.map_eq_some_iff.1 h
        have := ih h'
        rw [List.flatten_cons, escapes_append]
        simp at this
        omega
      · have := hnext h (by decide)
        omega
      · have := hnext h (by decide)
        omega
      · have := hnext h (by simp)
        omega
      · have := hnext h (by decide)
        omega
    | single =>
      rw [split_single_cons] at h
      split_ifs at h
      · have := hnext h (by decide)
        omega
      · have := hnext h (by decide)
        omega
    | double =>
      rw [split_double_cons] at h
      split_ifs at h with h₁ h₂ h₃
      · have := hnext h (by decide)
        omega
      · -- the backslash may come back
        have := ih h
        rw [if_pos rfl] at this
        rw [if_pos (Or.inr h₂)]
        omega
      · have := hnext h (by decide)
        omega
    | escaped inWord =>
      rw [split_escaped_cons] at h
      split_ifs at h
      · have := hnext h (by decide)
        omega
      · have := hnext h (by decide)
        omega
      · have := hnext h (by decide)
        omega
    | doubleEscaped =>
      rw [if_pos rfl]
      rw [split_doubleEscaped_cons] at h
      split_ifs at h
      · have := hnext h (by decide)
        omega
      · have := hnext h (by decide)
        omega
      · -- any other character brings the backslash back
        have := hnext h (by decide)
        have hboth : escapes (w ++ [backslash, c]) = escapes (w ++ [c]) + 1 := by
          rw [escapes_append, escapes_append, escapes_cons, if_pos (Or.inr rfl), Nat.add_assoc]
        omega

/-- **Without losing any, a single quote is lost.** -/
theorem split_quote (h : split q w s = some ws) (hq : q = .blank ∨ q = .plain ∨ q = .single)
    (hw : quote ∉ w) (hkeep : escapes ws.flatten = escapes w + escapes s) : quote ∉ ws.flatten := by
  induction s generalizing q w ws with
  | nil =>
    rcases hq with rfl | rfl | rfl
    · obtain rfl := Option.some.inj h
      simp
    · obtain rfl := Option.some.inj h
      simpa using hw
    · cases h
  | cons c s ih =>
    rw [escapes_cons] at hkeep
    have hadd : escapes (w ++ [c]) = escapes w + if c = doubleQuote ∨ c = backslash then 1 else 0 := by
      rw [escapes_append, escapes_cons, escapes_nil, Nat.zero_add]
    have hwc : c ≠ quote → quote ∉ w ++ [c] := by
      intro hc hmem
      rcases List.mem_append.1 hmem with hmem | hmem
      · exact hw hmem
      · exact hc (List.mem_singleton.1 hmem).symm
    have hnext : ∀ {q' : Quoting} {w' : List Char}, split q' w' s = some ws → q' ≠ .doubleEscaped →
        escapes ws.flatten ≤ escapes w' + escapes s := by
      intro q' w' h' hq'
      have := split_escapes h'
      rw [if_neg hq'] at this
      omega
    rcases hq with rfl | rfl | rfl
    · rw [split_blank_cons] at h
      split_ifs at h with _ hc hdouble hback
      · have := hnext h (by decide)
        exact ih h (Or.inl rfl) hw (by omega)
      · have := hnext h (by decide)
        exact ih h (Or.inr (Or.inr rfl)) hw (by omega)
      · have := hnext h (by decide)
        rw [if_pos (Or.inl hdouble)] at hkeep
        omega
      · have := hnext h (by simp)
        rw [if_pos (Or.inr hback)] at hkeep
        omega
      · exact ih h (Or.inr (Or.inl rfl)) (hwc hc) (by omega)
    · rw [split_plain_cons] at h
      split_ifs at h with _ hc hdouble hback
      · -- a word ends
        obtain ⟨ws', h', rfl⟩ := Option.map_eq_some_iff.1 h
        have hle := split_escapes h'
        rw [List.flatten_cons, escapes_append] at hkeep
        rw [escapes_nil, if_neg (by decide)] at hle
        have htail := ih h' (Or.inl rfl) List.not_mem_nil (by rw [escapes_nil]; omega)
        rw [List.flatten_cons, List.mem_append]
        exact not_or.2 ⟨hw, htail⟩
      · have := hnext h (by decide)
        exact ih h (Or.inr (Or.inr rfl)) hw (by omega)
      · have := hnext h (by decide)
        rw [if_pos (Or.inl hdouble)] at hkeep
        omega
      · have := hnext h (by simp)
        rw [if_pos (Or.inr hback)] at hkeep
        omega
      · exact ih h (Or.inr (Or.inl rfl)) (hwc hc) (by omega)
    · rw [split_single_cons] at h
      split_ifs at h with hc
      · have := hnext h (by decide)
        exact ih h (Or.inr (Or.inl rfl)) hw (by omega)
      · exact ih h (Or.inr (Or.inr rfl)) (hwc hc) (by omega)

/-- **Unquoted text is split at its blanks**, if nothing is lost. -/
theorem split_unquoted (h : split q w (u ++ s) = some ws)
    (hq : q = .blank ∧ w = [] ∨ q = .plain ∧ Plain w ∧ u ≠ []) (hu : quote ∉ u)
    (hlast : ∀ c ∈ u.getLast?, c = ' ')
    (hkeep : escapes ws.flatten = escapes w + escapes (u ++ s)) :
    ∃ vs ws', ws = vs ++ ws' ∧ words s = some ws' ∧ ∀ v ∈ vs, Plain v := by
  induction u generalizing q w ws with
  | nil =>
    rcases hq with ⟨rfl, rfl⟩ | ⟨-, -, hne⟩
    · exact ⟨[], ws, rfl, h, by simp⟩
    · exact absurd rfl hne
  | cons c u ih =>
    have hquote : c ≠ quote := fun hc => hu (by rw [hc]; exact List.mem_cons_self)
    have hu' : quote ∉ u := fun hmem => hu (List.mem_cons_of_mem c hmem)
    have hlast' : ∀ d ∈ u.getLast?, d = ' ' := by
      intro d hd
      refine hlast d ?_
      cases u with
      | nil => cases hd
      | cons e u => rwa [List.getLast?_cons_cons]
    have hnext : ∀ {q' : Quoting} {w' : List Char}, split q' w' (u ++ s) = some ws →
        q' ≠ .doubleEscaped → escapes ws.flatten ≤ escapes w' + escapes (u ++ s) := by
      intro q' w' h' hq'
      have := split_escapes h'
      rw [if_neg hq'] at this
      omega
    have hadd : escapes (w ++ [c]) = escapes w + if c = doubleQuote ∨ c = backslash then 1 else 0 := by
      rw [escapes_append, escapes_cons, escapes_nil, Nat.zero_add]
    rw [List.cons_append, escapes_cons] at hkeep
    rw [List.cons_append] at h
    have hgo : isBlank c = false → split .plain (w ++ [c]) (u ++ s) = some ws → Plain (w ++ [c]) →
        ∃ vs ws', ws = vs ++ ws' ∧ words s = some ws' ∧ ∀ v ∈ vs, Plain v := by
      intro hblank h' hplain
      have hne : u ≠ [] := by
        rintro rfl
        have hspace := hlast c rfl
        rw [hspace] at hblank
        cases hblank
      exact ih h' (Or.inr ⟨rfl, hplain, hne⟩) hu' hlast' (by omega)
    rcases hq with ⟨rfl, rfl⟩ | ⟨rfl, hw, -⟩
    · rw [split_blank_cons] at h
      split_ifs at h with hblank hdouble hback hspecial
      · have := hnext h (by decide)
        exact ih h (Or.inl ⟨rfl, rfl⟩) hu' hlast' (by omega)
      · have := hnext h (by decide)
        rw [if_pos (Or.inl hdouble)] at hkeep
        omega
      · have := hnext h (by simp)
        rw [if_pos (Or.inr hback)] at hkeep
        omega
      · obtain ⟨hspecial, hhash, htilde⟩ : isSpecial c = false ∧ c ≠ '#' ∧ c ≠ '~' := by
          simpa using hspecial
        refine hgo (by simpa using hblank) h ⟨?_, by simp, ?_⟩
        · intro d hd
          rw [List.nil_append, List.mem_singleton] at hd
          subst hd
          exact ⟨by simpa using hblank, hquote, hdouble, hback, hspecial⟩
        · intro d hd
          rw [List.nil_append, List.head?_cons, Option.mem_some_iff] at hd
          rw [← hd]
          exact ⟨hhash, htilde⟩
    · rw [split_plain_cons] at h
      split_ifs at h with hblank hdouble hback hspecial
      · obtain ⟨ws₁, h', rfl⟩ := Option.map_eq_some_iff.1 h
        have hle := split_escapes h'
        rw [List.flatten_cons, escapes_append] at hkeep
        rw [escapes_nil, if_neg (by decide)] at hle
        obtain ⟨vs, ws', rfl, hs, hvs⟩ := ih h' (Or.inl ⟨rfl, rfl⟩) hu' hlast' (by rw [escapes_nil]; omega)
        refine ⟨w :: vs, ws', rfl, hs, ?_⟩
        intro v hv
        rcases List.mem_cons.1 hv with rfl | hv
        · exact hw
        · exact hvs v hv
      · have := hnext h (by decide)
        rw [if_pos (Or.inl hdouble)] at hkeep
        omega
      · have := hnext h (by simp)
        rw [if_pos (Or.inr hback)] at hkeep
        omega
      · refine hgo (by simpa using hblank) h ⟨?_, by simp, ?_⟩
        · intro d hd
          rcases List.mem_append.1 hd with hd | hd
          · exact hw.ordinary d hd
          · rw [List.mem_singleton] at hd
            subst hd
            exact ⟨by simpa using hblank, hquote, hdouble, hback, by simpa using hspecial⟩
        · intro d hd
          rw [List.head?_append_of_ne_nil _ hw.nonempty] at hd
          exact hw.first d hd

/-! ## Commands -/

/-- Words with a blank behind each. -/
def spaced (hs : List (List Char)) : List Char := hs.flatMap (· ++ [' '])

/-- Texts in single quotes with a blank behind each. -/
def quoted (rs : List (List Char)) : List Char := rs.flatMap fun r => quote :: (r ++ [quote, ' '])

theorem escapes_spaced (hs : List (List Char)) : escapes (spaced hs) = escapes hs.flatten := by
  induction hs with
  | nil => rfl
  | cons h hs ih =>
    unfold spaced at ih ⊢
    rw [List.flatMap_cons, List.flatten_cons, escapes_append, escapes_append, escapes_append, ih]
    rfl

theorem escapes_quoted (rs : List (List Char)) : escapes (quoted rs) = escapes rs.flatten := by
  induction rs with
  | nil => rfl
  | cons r rs ih =>
    unfold quoted at ih ⊢
    have hend : escapes [quote, ' '] = 0 := by decide
    rw [List.flatMap_cons, List.flatten_cons, escapes_append, escapes_append, escapes_cons,
      escapes_append, ih, hend, if_neg (by decide)]
    rfl

theorem words_quoted_all (hrs : quote ∉ rs.flatten) : words (quoted rs) = some rs := by
  induction rs with
  | nil => rfl
  | cons r rs ih =>
    rw [List.flatten_cons, List.mem_append, not_or] at hrs
    have htext : quoted (r :: rs) = quote :: (r ++ quote :: ' ' :: quoted rs) := by
      simp [quoted]
    rw [htext, words_quoted hrs.1, ih hrs.2]
    rfl

/-- **Words in front of a quoted rest stand for themselves** if and only if they are plain, and the rest
has no single quote in its texts. -/
theorem words_iff (hkeep : escapes s = escapes rs.flatten)
    (hrest : quote ∉ rs.flatten → words s = some rs) :
    words (spaced hs ++ s) = some (hs ++ rs) ↔ (∀ h ∈ hs, Plain h) ∧ quote ∉ rs.flatten := by
  constructor
  · intro h
    have hall : escapes (hs ++ rs).flatten = escapes (spaced hs ++ s) := by
      rw [List.flatten_append, escapes_append, escapes_append, escapes_spaced, hkeep]
    have hquote := split_quote h (Or.inl rfl) List.not_mem_nil (by rw [hall, escapes_nil, Nat.zero_add])
    rw [List.flatten_append, List.mem_append, not_or] at hquote
    have hspaced : quote ∉ spaced hs := by
      intro hmem
      obtain ⟨v, hv, hmem⟩ := List.mem_flatMap.1 hmem
      rcases List.mem_append.1 hmem with hmem | hmem
      · exact hquote.1 (List.mem_flatten.2 ⟨v, hv, hmem⟩)
      · exact absurd (List.mem_singleton.1 hmem) (by decide)
    have hlast : ∀ c ∈ (spaced hs).getLast?, c = ' ' := by
      intro c hc
      rcases List.eq_nil_or_concat hs with rfl | ⟨hs', v, rfl⟩
      · cases hc
      · simp [spaced] at hc
        exact hc.symm
    obtain ⟨vs, ws', heq, hws, hvs⟩ := split_unquoted h (Or.inl ⟨rfl, rfl⟩) hspaced hlast
      (by rw [hall, escapes_nil, Nat.zero_add])
    obtain rfl : rs = ws' := Option.some.inj ((hrest hquote.2).symm.trans hws)
    obtain rfl := List.append_cancel_right heq
    exact ⟨hvs, hquote.2⟩
  · rintro ⟨hplain, hquote⟩
    induction hs with
    | nil => exact hrest hquote
    | cons v hs ih =>
      have htext : spaced (v :: hs) ++ s = v ++ ' ' :: (spaced hs ++ s) := by
        simp [spaced]
      rw [htext, words_plain (hplain v List.mem_cons_self),
        ih fun h hh => hplain h (List.mem_cons_of_mem v hh)]
      rfl

end Shell
