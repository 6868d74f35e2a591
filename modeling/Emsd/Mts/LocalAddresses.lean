import Emsd.Lib.Text

/-!
# Local addresses (`emsdaddr.c`, `msgstore.c`)

`mtsua_createRfc822AddrFromEmsd` writes an EMSD address as an RFC-822 address;
`msg_rfc822ToEmsdAddr` takes the numbers with which a text begins for an EMSD address. The check of the
domain is not compiled: `CHECK_DOMAIN` is not defined.

* `readAddress_iff`: what is read is what the text begins with.
* `recognition_iff`: **no address but a rendered one is taken for a local one** if and only if it does
  not begin with such numbers, and **a rendered address is read again** if and only if the personal name
  begins with its numbers.
-/

namespace Mts

open Text

/-! ## The code -/

/-- `mtsua_createRfc822AddrFromEmsd`, for a local address; no function for the rewriting of addresses is
ever set. -/
def createRfc822AddrFromEmsd (emsdName : Option (List Char)) (emsdAddress : UInt32)
    (localDomainAndHost : Option (List Char)) : List Char :=
  emsdName.elim [] cString ++ (" <".toList ++ (padded 3 (emsdAddress / 1000).toNat ++
    ('.' :: (padded 3 (emsdAddress % 1000).toNat ++
      (localDomainAndHost.elim [] (fun domain => '@' :: domain) ++ ['>'])))))

/-- `sscanf` with `%lu.%lu.%lu`, or with as many numbers: those that are assigned. -/
def scanFields : ℕ → List Char → List UInt32
  | 0, _ => []
  | fields + 1, s =>
    match scanUlong s with
    | none => []
    | some (i, '.' :: rest) => i :: scanFields fields rest
    | some (i, _) => [i]

/-- `msg_rfc822ToEmsdAddr`. -/
def msgRfc822ToEmsdAddr (rfc822Addr : Option (List Char)) : UInt32 :=
  match rfc822Addr with
  | none => 0
  | some s =>
    match scanFields 3 s with
    | [i₁] => i₁
    | [i₁, i₂] => i₁ * 1000 + i₂
    | _ => 0

/-! ## The texts that are read -/

/-- A text begins with a number. -/
def Led (s : List Char) (i : UInt32) (rest : List Char) : Prop :=
  ∃ l, s = l ++ rest ∧ Ulong l i ∧ ∀ c ∈ rest.head?, c.isDigit = false

/-- A further number comes next. -/
def Continued (s : List Char) : Prop := ∃ t i rest, s = '.' :: t ∧ Led t i rest

/-- **A text begins with an address**: with one number, or with two, and not with three. -/
inductive Leads (s : List Char) : UInt32 → Prop
  | one {i : UInt32} {rest : List Char} (first : Led s i rest) (last : ¬Continued rest) : Leads s i
  | two {i₁ i₂ : UInt32} {t rest : List Char} (first : Led s i₁ ('.' :: t)) (second : Led t i₂ rest)
    (last : ¬Continued rest) : Leads s (i₁ * 1000 + i₂)

/-- The mailbox of an EMSD address, without its personal name. -/
def mailbox (emsdAddress : UInt32) (localDomainAndHost : Option (List Char)) : List Char :=
  padded 3 (emsdAddress / 1000).toNat ++ ('.' :: (padded 3 (emsdAddress % 1000).toNat ++
    localDomainAndHost.elim [] fun domain => '@' :: domain))

variable {s rest t : List Char} {i x : UInt32} {domain name : Option (List Char)} {fields : ℕ}

theorem scanUlong_iff : scanUlong s = some (i, rest) ↔ Led s i rest := scanUlong_eq_some

theorem scanFields_nil (h : ¬∃ i rest, Led s i rest) : scanFields (fields + 1) s = [] := by
  unfold scanFields
  cases hs : scanUlong s with
  | none => rfl
  | some r => exact absurd ⟨r.1, r.2, scanUlong_iff.1 hs⟩ h

theorem scanFields_dot (h : Led s i ('.' :: t)) :
    scanFields (fields + 1) s = i :: scanFields fields t := by
  rw [scanFields, scanUlong_iff.2 h]
  split
  · rename_i heq
    cases heq
  · rename_i heq
    obtain ⟨rfl, htail⟩ := Prod.mk.inj (Option.some.inj heq)
    rw [(List.cons.inj htail).2]
  · rename_i hne heq
    obtain ⟨rfl, rfl⟩ := Prod.mk.inj (Option.some.inj heq)
    exact (hne _ rfl).elim

theorem scanFields_last (h : Led s i rest) (hrest : rest.head? ≠ some '.') :
    scanFields (fields + 1) s = [i] := by
  rw [scanFields, scanUlong_iff.2 h]
  split
  · rename_i heq
    cases heq
  · rename_i heq
    obtain ⟨-, rfl⟩ := Prod.mk.inj (Option.some.inj heq)
    exact absurd rfl hrest
  · rename_i heq
    rw [(Prod.mk.inj (Option.some.inj heq)).1]

/-- Three cases of a text: no number, a last number, or a number and a dot. -/
theorem led_cases (s : List Char) : (¬∃ i rest, Led s i rest) ∨
    (∃ i rest, Led s i rest ∧ rest.head? ≠ some '.') ∨ ∃ i t, Led s i ('.' :: t) := by
  by_cases h : ∃ i rest, Led s i rest
  · obtain ⟨i, rest, h⟩ := h
    by_cases hdot : rest.head? = some '.'
    · obtain ⟨t, rfl⟩ : ∃ t, rest = '.' :: t := by
        cases rest with
        | nil => cases hdot
        | cons c t =>
          rw [List.head?_cons] at hdot
          exact ⟨t, by rw [Option.some.inj hdot]⟩
      exact Or.inr (Or.inr ⟨i, t, h⟩)
    · exact Or.inr (Or.inl ⟨i, rest, h, hdot⟩)
  · exact Or.inl h

theorem Led.unique {j : UInt32} {u : List Char} (h : Led s i rest) (h' : Led s j u) :
    i = j ∧ rest = u := by
  have := (scanUlong_iff.2 h).symm.trans (scanUlong_iff.2 h')
  exact Prod.mk.inj (Option.some.inj this)

theorem not_continued (h : rest.head? ≠ some '.') : ¬Continued rest := by
  rintro ⟨t, i, u, rfl, -⟩
  exact h rfl

theorem continued_iff : Continued ('.' :: t) ↔ ∃ i rest, Led t i rest := by
  constructor
  · rintro ⟨u, i, rest, heq, h⟩
    rw [(List.cons.inj heq).2]
    exact ⟨i, rest, h⟩
  · rintro ⟨i, rest, h⟩
    exact ⟨t, i, rest, rfl, h⟩

/-- One number is assigned. -/
theorem scanFields_one : scanFields 3 s = [x] ↔ ∃ rest, Led s x rest ∧ ¬Continued rest := by
  constructor
  · intro h
    rcases led_cases s with hno | ⟨i, rest, hled, hlast⟩ | ⟨i, t, hled⟩
    · rw [scanFields_nil hno] at h
      cases h
    · rw [scanFields_last hled hlast] at h
      obtain rfl : i = x := by simpa using h
      exact ⟨rest, hled, not_continued hlast⟩
    · rw [scanFields_dot hled] at h
      obtain ⟨rfl, hnone⟩ := List.cons.inj h
      refine ⟨'.' :: t, hled, ?_⟩
      rw [continued_iff]
      rintro ⟨j, u, hled'⟩
      rcases led_cases t with hno | ⟨j, u, hled', hlast⟩ | ⟨j, u, hled'⟩
      · exact hno ⟨j, u, hled'⟩
      · rw [scanFields_last hled' hlast] at hnone
        cases hnone
      · rw [scanFields_dot hled'] at hnone
        cases hnone
  · rintro ⟨rest, first, last⟩
    by_cases hdot : rest.head? = some '.'
    · obtain ⟨t, rfl⟩ := List.head?_eq_some_iff.1 hdot
      rw [scanFields_dot first, scanFields_nil fun h => last (continued_iff.2 h)]
    · rw [scanFields_last first hdot]

/-- Two numbers are assigned. -/
theorem scanFields_two {i₁ i₂ : UInt32} : scanFields 3 s = [i₁, i₂] ↔
    ∃ t rest, Led s i₁ ('.' :: t) ∧ Led t i₂ rest ∧ ¬Continued rest := by
  constructor
  · intro h
    rcases led_cases s with hno | ⟨i, rest, hled, hlast⟩ | ⟨i, t, hled⟩
    · rw [scanFields_nil hno] at h
      cases h
    · rw [scanFields_last hled hlast] at h
      cases h
    · rw [scanFields_dot hled] at h
      obtain ⟨rfl, hone⟩ := List.cons.inj h
      rcases led_cases t with hno | ⟨j, rest, hled', hlast⟩ | ⟨j, u, hled'⟩
      · rw [scanFields_nil hno] at hone
        cases hone
      · rw [scanFields_last hled' hlast] at hone
        obtain rfl : j = i₂ := by simpa using hone
        exact ⟨t, rest, hled, hled', not_continued hlast⟩
      · rw [scanFields_dot hled'] at hone
        obtain ⟨rfl, hnone⟩ := List.cons.inj hone
        refine ⟨t, '.' :: u, hled, hled', ?_⟩
        rw [continued_iff]
        rintro ⟨k, v, hled''⟩
        -- a third number would be assigned too
        rcases led_cases u with hno | ⟨k, v, hled'', hlast⟩ | ⟨k, v, hled''⟩
        · exact hno ⟨k, v, hled''⟩
        · rw [scanFields_last hled'' hlast] at hnone
          cases hnone
        · rw [scanFields_dot hled''] at hnone
          cases hnone
  · rintro ⟨t, rest, first, second, last⟩
    rw [scanFields_dot first]
    by_cases hdot : rest.head? = some '.'
    · obtain ⟨u, rfl⟩ := List.head?_eq_some_iff.1 hdot
      rw [scanFields_dot second, scanFields_nil fun h => last (continued_iff.2 h)]
    · rw [scanFields_last second hdot]

/-- **What a text begins with** are the one or two numbers that are assigned. -/
theorem leads_iff : Leads s x ↔
    scanFields 3 s = [x] ∨ ∃ i₁ i₂, scanFields 3 s = [i₁, i₂] ∧ x = i₁ * 1000 + i₂ := by
  constructor
  · intro h
    cases h with
    | one first last => exact .inl (scanFields_one.2 ⟨_, first, last⟩)
    | two first second last => exact .inr ⟨_, _, scanFields_two.2 ⟨_, _, first, second, last⟩, rfl⟩
  · rintro (hone | ⟨i₁, i₂, htwo, rfl⟩)
    · obtain ⟨rest, first, last⟩ := scanFields_one.1 hone
      exact .one first last
    · obtain ⟨t, rest, first, second, last⟩ := scanFields_two.1 htwo
      exact .two first second last

/-- What a text begins with is what is read. -/
theorem Leads.read (h : Leads s x) : msgRfc822ToEmsdAddr (some s) = x := by
  unfold msgRfc822ToEmsdAddr
  dsimp only
  rcases leads_iff.1 h with hone | ⟨i₁, i₂, htwo, rfl⟩
  · rw [hone]
  · rw [htwo]

/-- What is read is what a text begins with. -/
theorem leads_of_read (h : msgRfc822ToEmsdAddr (some s) = x) (hx : x ≠ 0) : Leads s x := by
  unfold msgRfc822ToEmsdAddr at h
  dsimp only at h
  apply leads_iff.2
  split at h
  · rename_i i₁ hone
    exact .inl (h ▸ hone)
  · rename_i i₁ i₂ htwo
    exact .inr ⟨i₁, i₂, htwo, h.symm⟩
  · exact absurd h.symm hx

theorem Leads.unique {y : UInt32} (h : Leads s x) (h' : Leads s y) : x = y := h.read.symm.trans h'.read

/-! ## The texts that are written -/

theorem createRfc822AddrFromEmsd_eq (name : Option (List Char)) (x : UInt32)
    (domain : Option (List Char)) : createRfc822AddrFromEmsd name x domain =
      name.elim [] cString ++ (' ' :: '<' :: (mailbox x domain ++ ['>'])) := by
  unfold createRfc822AddrFromEmsd mailbox
  simp

/-- A number is not continued behind a blank and a bracket. -/
theorem led_append : Led (s ++ ' ' :: '<' :: t) i (rest ++ ' ' :: '<' :: t) ↔ Led s i rest := by
  constructor
  · rintro ⟨l, heq, hl, hrest⟩
    rw [← List.append_assoc] at heq
    refine ⟨l, List.append_cancel_right heq, hl, ?_⟩
    intro c hc
    refine hrest c ?_
    cases rest with
    | nil => cases hc
    | cons d rest => exact hc
  · rintro ⟨l, rfl, hl, hrest⟩
    refine ⟨l, List.append_assoc .., hl, ?_⟩
    intro c hc
    cases rest with
    | nil =>
      rw [List.nil_append, List.head?_cons, Option.mem_some_iff] at hc
      rw [← hc]
      rfl
    | cons d rest => exact hrest c hc

/-- No number reaches beyond the bracket. -/
theorem led_inside {u : List Char} (h : Led (s ++ ' ' :: '<' :: t) i u) :
    ∃ rest, u = rest ++ ' ' :: '<' :: t ∧ Led s i rest := by
  obtain ⟨l, heq, hl, hrest⟩ := h
  have hnumber : '<' ∉ l ∧ ∃ k c, l = k ++ [c] ∧ c.isDigit = true := by
    obtain ⟨hblank, hsign, hdigits⟩ := hl
    rename_i blanks sign digits n
    constructor
    · intro hmem
      rcases List.mem_append.1 hmem with hmem | hmem
      · exact absurd (hblank _ hmem) (by decide)
      · rcases List.mem_append.1 hmem with hmem | hmem
        · rcases hsign with rfl | rfl | rfl <;> simp at hmem
        · exact absurd (hdigits.digits _ hmem) (by decide)
    · obtain ⟨k, c, hd⟩ : ∃ k c, digits = k ++ [c] :=
        ⟨digits.dropLast, digits.getLast hdigits.nonempty, (List.dropLast_append_getLast _).symm⟩
      refine ⟨blanks ++ (sign ++ k), c, ?_, hdigits.digits c ?_⟩
      · rw [hd]
        simp
      · rw [hd]
        exact List.mem_append_right _ List.mem_cons_self
  obtain ⟨hbracket, k, c, rfl, hc⟩ := hnumber
  rcases List.append_eq_append_iff.1 heq with ⟨v, hv, hu⟩ | ⟨v, hv, hu⟩
  · -- the number would reach into the blank
    cases v with
    | nil =>
      rw [List.nil_append] at hu
      refine ⟨[], hu.symm, k ++ [c], ?_, hl, ?_⟩
      · simpa using hv.symm
      · intro d hd
        cases hd
    | cons d v =>
      exfalso
      rw [List.cons_append] at hu
      obtain ⟨hd, htail⟩ := List.cons.inj hu
      subst hd
      cases v with
      | nil =>
        -- it would end in the blank
        have hlast := congrArg List.getLast? hv
        simp at hlast
        rw [hlast] at hc
        cases hc
      | cons e v =>
        rw [List.cons_append] at htail
        obtain ⟨he, -⟩ := List.cons.inj htail
        subst he
        apply hbracket
        rw [hv]
        simp
  · refine ⟨v, hu, k ++ [c], hv, hl, ?_⟩
    intro d hd
    refine hrest d ?_
    rw [hu]
    cases v with
    | nil => cases hd
    | cons e v => exact hd

theorem continued_append : Continued (rest ++ ' ' :: '<' :: t) ↔ Continued rest := by
  cases rest with
  | nil =>
    constructor
    · rintro ⟨u, i, v, heq, -⟩
      exact absurd (List.cons.inj heq).1 (by decide)
    · rintro ⟨u, i, v, heq, -⟩
      cases heq
  | cons c rest =>
    by_cases hc : c = '.'
    · subst hc
      rw [List.cons_append, continued_iff, continued_iff]
      constructor
      · rintro ⟨i, u, hled⟩
        obtain ⟨v, -, hled'⟩ := led_inside hled
        exact ⟨i, v, hled'⟩
      · rintro ⟨i, u, hled⟩
        exact ⟨i, _, led_append.2 hled⟩
    · constructor
      · rintro ⟨u, i, v, heq, -⟩
        exact absurd (List.cons.inj heq).1 hc
      · rintro ⟨u, i, v, heq, -⟩
        exact absurd (List.cons.inj heq).1 hc

/-- **What stands behind a personal name does not matter.** -/
theorem leads_append : Leads (s ++ ' ' :: '<' :: t) x ↔ Leads s x := by
  constructor
  · intro h
    cases h with
    | @one i rest first last =>
      obtain ⟨u, rfl, hled⟩ := led_inside first
      exact .one hled fun hcont => last (continued_append.2 hcont)
    | @two i₁ i₂ w rest first second last =>
      obtain ⟨u, hu, hled⟩ := led_inside first
      cases u with
      | nil => exact absurd (List.cons.inj hu).1 (by decide)
      | cons c u =>
        obtain ⟨rfl, rfl⟩ := List.cons.inj hu
        obtain ⟨v, rfl, hled'⟩ := led_inside second
        exact .two hled hled' fun hcont => last (continued_append.2 hcont)
  · intro h
    cases h with
    | one first last => exact .one (led_append.2 first) fun hcont => last (continued_append.1 hcont)
    | two first second last =>
      exact .two (led_append.2 first) (led_append.2 second) fun hcont => last (continued_append.1 hcont)

theorem led_padded (w : ℕ) (x : UInt32) (hrest : ∀ c ∈ rest.head?, c.isDigit = false) :
    Led (padded w x.toNat ++ rest) x rest := by
  have hx : ulong false x.toNat = x := by
    have := x.toNat_lt
    unfold ulong
    rw [if_neg (by omega), if_neg (by decide), UInt32.ofNat_toNat]
  refine ⟨padded w x.toNat, rfl, ?_, hrest⟩
  have hnumber : Ulong ([] ++ ([] ++ padded w x.toNat)) (ulong false x.toNat) :=
    .mk (by simp) (by simp) (padded_numeric w x.toNat)
  rw [hx] at hnumber
  exact hnumber

/-- **A mailbox begins with its address.** -/
theorem mailbox_leads (x : UInt32) (domain : Option (List Char)) : Leads (mailbox x domain) x := by
  have hend : ∀ c ∈ (domain.elim [] fun domain => '@' :: domain).head?, c = '@' := by
    intro c hc
    cases domain with
    | none => cases hc
    | some domain => exact (Option.some.inj hc).symm
  have hdot : ∀ u : List Char, ∀ c ∈ ('.' :: u).head?, c.isDigit = false := by
    intro u c hc
    rw [← Option.some.inj hc]
    rfl
  have hsum : x / 1000 * 1000 + x % 1000 = x := by
    apply UInt32.toNat_inj.1
    have := x.toNat_lt
    simp only [UInt32.toNat_add, UInt32.toNat_mul, UInt32.toNat_div, UInt32.toNat_mod]
    have h1000 : (1000 : UInt32).toNat = 1000 := rfl
    rw [h1000]
    omega
  have htwo : Leads (mailbox x domain) (x / 1000 * 1000 + x % 1000) := by
    refine .two (led_padded 3 (x / 1000) (hdot _)) (led_padded 3 (x % 1000) ?_) ?_
    · intro c hc
      rw [hend c hc]
      rfl
    · refine not_continued fun h => ?_
      exact absurd (hend '.' h) (by decide)
  rwa [hsum] at htwo

/-! ## Results -/

/-- The texts of an EMSD address: what is written for it with any personal name, and its mailbox. -/
def Renders (domain : Option (List Char)) (x : UInt32) (s : List Char) : Prop :=
  s = mailbox x domain ∨ ∃ name, s = createRfc822AddrFromEmsd name x domain

/-- A rendered address is read as what its personal name begins with. -/
theorem rendering_leads (name : Option (List Char)) (x y : UInt32) (domain : Option (List Char)) :
    Leads (createRfc822AddrFromEmsd name x domain) y ↔ Leads (name.elim [] cString) y := by
  rw [createRfc822AddrFromEmsd_eq]
  exact leads_append

/-- **Local addresses are recognised** if and only if a text that begins with an address is the mailbox of
this address, or a rendering with a personal name that begins with it too; and **a rendering is read
again** if and only if its personal name begins with the address. -/
theorem recognition_iff (domain : Option (List Char)) :
    (∀ s, (∀ x, msgRfc822ToEmsdAddr (some s) = x → x ≠ 0 → Renders domain x s) ↔
      (¬∃ x ≠ 0, Leads s x) ∨ ∃ x, s = mailbox x domain ∨
        ∃ name, s = createRfc822AddrFromEmsd name x domain ∧ Leads (name.elim [] cString) x) ∧
    ∀ name x, 0 < x → (msgRfc822ToEmsdAddr (some (createRfc822AddrFromEmsd name x domain)) = x ↔
      Leads (name.elim [] cString) x) := by
  constructor
  · intro s
    constructor
    · intro h
      by_cases hleads : ∃ x ≠ 0, Leads s x
      · obtain ⟨x, hx, hleads⟩ := hleads
        refine Or.inr ⟨x, ?_⟩
        rcases h x hleads.read hx with hs | ⟨name, hs⟩
        · exact Or.inl hs
        · rw [hs] at hleads
          exact Or.inr ⟨name, hs, (rendering_leads name x x domain).1 hleads⟩
      · exact Or.inl hleads
    · rintro (hno | ⟨y, hs⟩) x hread hx
      · exact absurd ⟨x, hx, leads_of_read hread hx⟩ hno
      · have hleads : Leads s y := by
          rcases hs with rfl | ⟨name, rfl, hname⟩
          · exact mailbox_leads y domain
          · exact (rendering_leads name y y domain).2 hname
        obtain rfl : x = y := hread.symm.trans hleads.read
        rcases hs with hs | ⟨name, hs, -⟩
        · exact Or.inl hs
        · exact Or.inr ⟨name, hs⟩
  · intro name x hx
    have hne : x ≠ 0 := (UInt32.lt_iff_toNat_lt.1 hx).ne' ∘ congrArg UInt32.toNat
    rw [← rendering_leads name x x domain]
    exact ⟨fun h => leads_of_read h hne, fun h => h.read⟩

/-- A rendering that is read again: the personal name is the mailbox. -/
theorem recognition_named : msgRfc822ToEmsdAddr (some (createRfc822AddrFromEmsd
    (some "042.001".toList) 42001 (some "emsd.org".toList))) = 42001 :=
  ((recognition_iff (some "emsd.org".toList)).2 (some "042.001".toList) 42001 (by decide)).2 (by
    have hname : (some "042.001".toList).elim [] cString = mailbox 42001 none := by decide +kernel
    rw [hname]
    exact mailbox_leads 42001 none)

/-- A mailbox elsewhere is taken for a subscriber, and what is written for a subscriber is not. -/
theorem recognition_wrong :
    (msgRfc822ToEmsdAddr (some "123@x.org".toList) = 123 ∧
      ¬Renders (some "emsd.org".toList) 123 "123@x.org".toList) ∧
    createRfc822AddrFromEmsd none 42001 (some "emsd.org".toList) = " <042.001@emsd.org>".toList ∧
      msgRfc822ToEmsdAddr (some " <042.001@emsd.org>".toList) = 0 := by
  refine ⟨⟨by decide +kernel, ?_⟩, by decide +kernel, by decide +kernel⟩
  rintro (h | ⟨name, h⟩)
  · exact absurd h (by decide +kernel)
  · -- there is no blank in it
    rw [createRfc822AddrFromEmsd_eq] at h
    have hmem : ' ' ∈ "123@x.org".toList := by
      rw [h]
      simp
    exact absurd hmem (by decide)

end Mts
