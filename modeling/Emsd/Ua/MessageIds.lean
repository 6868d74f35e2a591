import Emsd.Lib.Scanf
import Emsd.Ua.ToShell

/-!
# Message ids and their texts (`uacore/msgid.c`)

A local message id is written as two numbers with a dot between them. A text is taken for one when
`sscanf` finds three numbers in it, the last behind `@mts`, which the renderer does not write any more.
Any other text is stored as it is, and the choice of the message id is left alone.

* `sscanf_localFormat`: a local id is read again when the name of the host is put behind it.
* `not_scans_local`: the text that is written for a local id is not taken for one.
* `messageIds_iff`: **which message ids come back, and which texts are turned into local ids.**
-/

namespace Ua

open Ocp Mtsua Fallible Scanf

variable {a b : UInt32} {text z : ZString} {m : EmsdMessageId} {memory memory' : Blocks}

/-! ## The code -/

/-- `ua_messageIdEmsdLocalToRfc822`. -/
def messageIdEmsdLocalToRfc822 (submissionTime dailyMessageNumber : UInt32) : ZString :=
  .ofOctets (hex8 submissionTime ++ [46] ++ hex8 dailyMessageNumber)

/-- `EMSD_MESSAGEID_CHOICE_LOCAL`. -/
def choiceLocal : UInt8 := 0

/-- `EMSD_MESSAGEID_CHOICE_RFC822`. -/
def choiceRfc822 : UInt8 := 1

/-- `EMSD_MessageId` as a place in memory: the selector, and the member of the union that has been written
last. -/
structure MessageIdFields where
  choice : UInt8
  un : EmsdMessageId
  deriving DecidableEq, Repr

/-- A message id after `OS_memSet`. -/
def MessageIdFields.cleared : MessageIdFields := ⟨0, .emsdLocal 0 0⟩

/-- `"%lx.%lx@mts%lx.emsd.org"`. -/
def localFormat : List Directive :=
  [.ulongHex] ++ literal "." ++ [.ulongHex] ++ literal "@mts" ++ [.ulongHex] ++ literal ".emsd.org"

/-- `ua_messageIdRfc822ToEmsdLocal`. When it fails, there is a null handle in the message id. -/
def messageIdRfc822ToEmsdLocal (pRfc822MessageId : ZString) (pEmsdMessageId : MessageIdFields) :
    Run MessageIdFields :=
  match sscanf localFormat pRfc822MessageId.1 with
  | [a, b, _] => pure ⟨choiceLocal, .emsdLocal a b⟩
  | _ => do pure { pEmsdMessageId with un := .rfc822 (some (← Str.assignZString pRfc822MessageId)) }

/-! ## Texts of local ids -/

/-- `sscanf` finds three numbers. -/
def Scans (text : ZString) : Prop := (sscanf localFormat text.1).length = 3

instance : Decidable (Scans text) := inferInstanceAs (Decidable (_ = _))

/-- The text is one that is written for a local id. -/
def Rendering (text : ZString) : Prop := ∃ a b, text = messageIdEmsdLocalToRfc822 a b

theorem hexDigit_isXDigit : ∀ d < 16, isXDigit (hexDigit d) = true ∧ xDigit (hexDigit d) = d := by
  decide

/-- What `%08lx` writes are digits, at least eight of them, that give the number. -/
theorem hex8_digits (n : UInt32) : (∀ c ∈ hex8 n, isXDigit c = true) ∧ hex8 n ≠ [] ∧
    Numeral.value 16 ((hex8 n).map xDigit) = n.toNat := by
  have hlt : ∀ d ∈ Numeral.digits 16 n.toNat, d < 16 := Numeral.digits_lt (by decide)
  have hmap : ((Numeral.digits 16 n.toNat).map hexDigit).map xDigit = Numeral.digits 16 n.toNat := by
    rw [List.map_map]
    exact (List.map_congr_left fun d hd => (hexDigit_isXDigit d (hlt d hd)).2).trans (List.map_id _)
  refine ⟨?_, ?_, ?_⟩
  · intro c hc
    rcases List.mem_append.1 hc with hc | hc
    · rw [List.eq_of_mem_replicate hc]
      rfl
    · obtain ⟨d, hd, rfl⟩ := List.mem_map.1 hc
      exact (hexDigit_isXDigit d (hlt d hd)).1
  · intro hnil
    have hlen := congrArg List.length hnil
    simp only [hex8, List.length_append, List.length_replicate, List.length_nil] at hlen
    omega
  · have hzeros : ∀ k, Numeral.value 16
        ((List.replicate k 48 ++ (Numeral.digits 16 n.toNat).map hexDigit).map xDigit) = n.toNat := by
      intro k
      induction k with
      | zero =>
        rw [List.replicate_zero, List.nil_append, hmap]
        exact Numeral.value_digits 16 _
      | succ k ih =>
        rw [List.replicate_succ, List.cons_append, List.map_cons]
        exact Numeral.value_zero_cons.trans ih
    exact hzeros _

/-- `%lx` reads what `%08lx` writes. -/
theorem scanUlongHex_hex8 (n : UInt32) {rest : Octets}
    (hrest : ∀ c ∈ rest.head?, isXDigit c = false ∧ c ≠ 120 ∧ c ≠ 88) :
    scanUlongHex (hex8 n ++ rest) = some (n, rest) := by
  obtain ⟨hall, hne, hvalue⟩ := hex8_digits n
  have hlt := n.toNat_lt
  rw [scanUlongHex_digits hall hne hrest, hvalue]
  unfold Text.ulong
  rw [if_neg (by omega), if_neg Bool.false_ne_true, UInt32.ofNat_toNat]

theorem localText (a b : UInt32) :
    (messageIdEmsdLocalToRfc822 a b).1 = hex8 a ++ [46] ++ hex8 b := by
  have hne : ∀ n : UInt32, ∀ c ∈ hex8 n, c ≠ 0 := by
    rintro n c hc rfl
    exact absurd ((hex8_digits n).1 0 hc) (by decide)
  apply List.takeWhile_eq_self_iff.2
  intro c hc
  refine decide_eq_true ?_
  rcases List.mem_append.1 hc with hc | hc
  · rcases List.mem_append.1 hc with hc | hc
    · exact hne a c hc
    · rw [List.mem_singleton.1 hc]
      decide
  · exact hne b c hc

/-- **The texts that the scanner has been made for**: those of the renderer with the name of the host. -/
theorem sscanf_localFormat (a b : UInt32) :
    sscanf localFormat ((messageIdEmsdLocalToRfc822 a b).1 ++
      [64, 109, 116, 115, 48, 48, 50, 51, 46, 101, 109, 115, 100, 46, 111, 114, 103]) = [a, b, 0x23] := by
  have hformat : localFormat = .ulongHex :: .char 46 :: .ulongHex :: .char 64 :: .char 109 :: .char 116 ::
      .char 115 :: .ulongHex :: literal ".emsd.org" := by decide
  have hend : sscanf (.ulongHex :: literal ".emsd.org")
      [48, 48, 50, 51, 46, 101, 109, 115, 100, 46, 111, 114, 103] = [0x23] := by decide
  have hbehind : ∀ x : UInt8, (isXDigit x = false ∧ x ≠ 120 ∧ x ≠ 88) → ∀ s : Octets,
      ∀ c ∈ (x :: s).head?, isXDigit c = false ∧ c ≠ 120 ∧ c ≠ 88 := by
    intro x hx s c hc
    obtain rfl : x = c := by simpa using hc
    exact hx
  rw [localText, hformat, List.append_assoc, List.append_assoc, List.singleton_append, sscanf,
    scanUlongHex_hex8 a (hbehind 46 (by decide) _)]
  simp only [sscanf, if_true]
  rw [scanUlongHex_hex8 b (hbehind 64 (by decide) _)]
  simp only [sscanf, if_true]
  exact congrArg (fun l => a :: b :: l) hend

/-- **A local id is not read again**: there is no `@` in its text. -/
theorem not_scans_local (a b : UInt32) : ¬Scans (messageIdEmsdLocalToRfc822 a b) := by
  intro h
  have hformat : localFormat = ([.ulongHex] ++ literal "." ++ [.ulongHex]) ++
      .char 64 :: (literal "mts" ++ [.ulongHex] ++ literal ".emsd.org") := by decide
  have hat : (64 : UInt8) ∈ (messageIdEmsdLocalToRfc822 a b).1 := by
    unfold Scans at h
    rw [hformat] at h
    have hlt : conversions ([.ulongHex] ++ literal "." ++ [.ulongHex]) < _ :=
      Nat.lt_of_lt_of_eq (Nat.lt_succ_self 2) h.symm
    exact mem_of_assigned hlt
  have hno : ∀ n : UInt32, (64 : UInt8) ∉ hex8 n := fun n hc =>
    absurd ((hex8_digits n).1 64 hc) (by decide)
  rw [localText] at hat
  rcases List.mem_append.1 hat with hat | hat
  · rcases List.mem_append.1 hat with hat | hat
    · exact hno a hat
    · exact absurd (List.mem_singleton.1 hat) (by decide)
  · exact hno b hat

/-! ## What comes back -/

/-- There is memory for the text, and its length can be told. -/
def Storable (memory : Blocks) (text : ZString) : Prop :=
  text.1.length + 1 < 2 ^ 16 ∧ (memory.given memory.next).isSome = true

theorem exists_assignZString_iff :
    (∃ s memory', Gives (Str.assignZString z) memory s memory') ↔ Storable memory z := by
  constructor
  · rintro ⟨s, memory', h⟩
    obtain ⟨s₁, m₁, hs₁, h⟩ := gives_bind.1 h
    obtain ⟨p, m₂, hp, hs₁⟩ := gives_bind.1 hs₁
    obtain ⟨rfl, -⟩ := gives_pure.1 hs₁
    refine ⟨?_, ?_⟩
    · split at h
      · rename_i hle
        simp only at hle
        omega
      · exact absurd h not_gives_stop
    · rw [(gives_osAlloc.1 hp).1]
      rfl
  · rintro ⟨hlen, hsome⟩
    obtain ⟨p, hp⟩ := Option.isSome_iff_exists.1 hsome
    have hroom : z.1.length + 1 ≤ (z.1.length % 2 ^ 16 + 1) % 2 ^ 16 := by omega
    have halloc : Gives (Str.alloc (z.1.length % 2 ^ 16 + 1)) memory
        ⟨(z.1.length % 2 ^ 16 + 1) % 2 ^ 16, 0, []⟩ { memory with next := memory.next + 1 } :=
      gives_bind.2 ⟨p, _, gives_osAlloc.2 ⟨hp, rfl⟩, gives_pure.2 ⟨rfl, rfl⟩⟩
    refine ⟨⟨(z.1.length % 2 ^ 16 + 1) % 2 ^ 16, lenZString, z.1 ++ [0]⟩,
      { memory with next := memory.next + 1 }, gives_bind.2 ⟨_, _, halloc, ?_⟩⟩
    dsimp only
    rw [if_pos hroom]
    exact gives_pure.2 ⟨rfl, rfl⟩

/-- A text that is taken for a local id. -/
theorem gives_of_scans {fields d : MessageIdFields} (h : Scans text) :
    Gives (messageIdRfc822ToEmsdLocal text fields) memory d memory' ↔
      ∃ a b c, sscanf localFormat text.1 = [a, b, c] ∧ d = ⟨choiceLocal, .emsdLocal a b⟩ ∧
        memory' = memory := by
  obtain ⟨a, b, c, habc⟩ := List.length_eq_three.1 h
  unfold messageIdRfc822ToEmsdLocal
  rw [habc]
  dsimp only
  rw [gives_pure]
  constructor
  · rintro ⟨rfl, rfl⟩
    exact ⟨a, b, c, rfl, rfl, rfl⟩
  · rintro ⟨a', b', c', heq, rfl, rfl⟩
    simp only [List.cons.injEq] at heq
    rw [heq.1, heq.2.1]
    exact ⟨rfl, rfl⟩

/-- A text that is not is stored, and the choice is what it was. -/
theorem gives_of_not_scans {fields d : MessageIdFields} (h : ¬Scans text) :
    (∃ memory', Gives (messageIdRfc822ToEmsdLocal text fields) memory d memory') ↔
      Storable memory text ∧ d = ⟨fields.choice, .rfc822 (some (.ofZString text))⟩ := by
  have hcode : messageIdRfc822ToEmsdLocal text fields =
      (Str.assignZString text >>= fun s => pure { fields with un := .rfc822 (some s) }) := by
    unfold messageIdRfc822ToEmsdLocal
    split
    · rename_i heq
      exact absurd (congrArg List.length heq) h
    · rfl
  rw [hcode, ← exists_assignZString_iff]
  constructor
  · rintro ⟨memory', hd⟩
    obtain ⟨s, m₁, hs, hd⟩ := gives_bind.1 hd
    obtain ⟨rfl, -⟩ := gives_pure.1 hd
    obtain rfl := Str.gives_assignZString hs
    exact ⟨⟨_, _, hs⟩, rfl⟩
  · rintro ⟨⟨s, m₁, hs⟩, rfl⟩
    obtain rfl := Str.gives_assignZString hs
    exact ⟨_, gives_bind.2 ⟨_, _, hs, gives_pure.2 ⟨rfl, rfl⟩⟩⟩

/-- The message id is the one in the fields: with the same choice, and the same numbers or text. -/
def MessageIdFields.Is (d : MessageIdFields) : EmsdMessageId → Prop
  | .emsdLocal a b => d.choice = choiceLocal ∧ d.un = .emsdLocal a b
  | .rfc822 string => d.choice = choiceRfc822 ∧
      ∃ held z, d.un = .rfc822 held ∧ Str.stringStart string = pure z ∧ Str.stringStart held = pure z

/-- The text of a message id is turned into the message id again. -/
def IsReadAgain (m : EmsdMessageId) (fields : MessageIdFields) (memory : Blocks) : Prop :=
  ∃ text m₁ d m₂, Gives (messageIdEmsdToRfc822 m) memory text m₁ ∧
    Gives (messageIdRfc822ToEmsdLocal text fields) m₁ d m₂ ∧ d.Is m

/-- A message id that comes back: a text that fits into the buffer, is not scanned, and can be stored, when
the choice of the fields happens to be the one for texts. -/
def Returned (fields : MessageIdFields) (memory : Blocks) : EmsdMessageId → Prop
  | .emsdLocal _ _ => False
  | .rfc822 string => fields.choice = choiceRfc822 ∧
      ∃ z, Str.stringStart string = pure z ∧ z.1.length < messageIdBuffer ∧ ¬Scans z ∧ Storable memory z

/-- The text of a message id with a text. -/
theorem gives_rfc822_iff {string : StrHandle} : Gives (messageIdEmsdToRfc822 (.rfc822 string)) memory text
    memory' ↔ Str.stringStart string = pure text ∧ text.1.length < messageIdBuffer ∧ memory' = memory := by
  have hcases : Str.stringStart string = stop .undefined ∨ ∃ z, Str.stringStart string = pure z := by
    unfold Str.stringStart
    split
    · exact .inl rfl
    · split
      · exact .inr ⟨_, rfl⟩
      · exact .inl rfl
  constructor
  · intro h
    obtain ⟨z, m₁, hz, h⟩ := gives_bind.1 h
    rcases hcases with hstop | ⟨z', hz'⟩
    · rw [hstop] at hz
      exact absurd hz not_gives_stop
    · rw [hz'] at hz ⊢
      obtain ⟨rfl, rfl⟩ := gives_pure.1 hz
      split at h
      · rename_i hlt
        obtain ⟨rfl, rfl⟩ := gives_pure.1 h
        exact ⟨rfl, hlt, rfl⟩
      · exact absurd h not_gives_stop
  · rintro ⟨hz, hlt, rfl⟩
    have htext : Gives (Str.stringStart string) memory' text memory' := by
      rw [hz]
      exact gives_pure.2 ⟨rfl, rfl⟩
    refine gives_bind.2 ⟨text, _, htext, ?_⟩
    rw [if_pos hlt]
    exact gives_pure.2 ⟨rfl, rfl⟩

/-- **Which message ids come back.** -/
theorem isReadAgain_iff (m : EmsdMessageId) (fields : MessageIdFields) (memory : Blocks) :
    IsReadAgain m fields memory ↔ Returned fields memory m := by
  unfold IsReadAgain
  cases m with
  | emsdLocal a b =>
    refine iff_of_false ?_ id
    rintro ⟨text, m₁, d, m₂, htext, hd, hchoice, hun⟩
    obtain ⟨rfl, rfl⟩ := gives_pure.1 htext
    obtain ⟨-, rfl⟩ := (gives_of_not_scans (not_scans_local a b)).1 ⟨_, hd⟩
    cases hun
  | rfc822 string =>
    constructor
    · rintro ⟨text, m₁, d, m₂, htext, hd, hchoice, held, z, hun, hz, hheld⟩
      obtain ⟨hstart, hlt, rfl⟩ := gives_rfc822_iff.1 htext
      by_cases hscan : Scans text
      · obtain ⟨a, b, c, -, rfl, -⟩ := (gives_of_scans hscan).1 hd
        cases hun
      · obtain ⟨hstore, rfl⟩ := (gives_of_not_scans hscan).1 ⟨_, hd⟩
        exact ⟨hchoice, text, hstart, hlt, hscan, hstore⟩
    · rintro ⟨hchoice, z, hz, hlt, hscan, hstore⟩
      obtain ⟨m₂, hd⟩ := (gives_of_not_scans hscan).2 ⟨hstore, rfl⟩
      exact ⟨z, memory, _, m₂, gives_rfc822_iff.2 ⟨hz, hlt, rfl⟩, hd, hchoice, _, z, rfl, hz,
        Str.stringStart_ofZString z⟩

/-- **A DELIVER.verify never names its message**: the message id has been cleared before. -/
theorem not_isReadAgain_cleared (m : EmsdMessageId) (memory : Blocks) :
    ¬IsReadAgain m .cleared memory := by
  rw [isReadAgain_iff]
  cases m with
  | emsdLocal a b => exact id
  | rfc822 string => exact fun h => absurd h.1 (by decide)

/-- A text that is turned into a local id is one that is written for a local id. -/
def OnlyRenderings (text : ZString) (fields : MessageIdFields) (memory : Blocks) : Prop :=
  ∀ d memory', Gives (messageIdRfc822ToEmsdLocal text fields) memory d memory' →
    d.choice = choiceLocal → Rendering text

/-- **Which texts are turned into local ids.** -/
theorem onlyRenderings_iff (text : ZString) (fields : MessageIdFields) (memory : Blocks) :
    OnlyRenderings text fields memory ↔
      ¬Scans text ∧ (fields.choice = choiceLocal → Storable memory text → Rendering text) := by
  unfold OnlyRenderings
  constructor
  · intro h
    have hscan : ¬Scans text := by
      intro hscan
      obtain ⟨a, b, c, habc⟩ := List.length_eq_three.1 hscan
      have hd : Gives (messageIdRfc822ToEmsdLocal text fields) memory ⟨choiceLocal, .emsdLocal a b⟩ memory :=
        (gives_of_scans hscan).2 ⟨a, b, c, habc, rfl, rfl⟩
      obtain ⟨a', b', rfl⟩ := h _ _ hd rfl
      exact not_scans_local a' b' hscan
    refine ⟨hscan, fun hchoice hstore => ?_⟩
    obtain ⟨m', hd⟩ := (gives_of_not_scans hscan).2 ⟨hstore, rfl⟩
    exact h _ _ hd hchoice
  · rintro ⟨hscan, hlocal⟩ d m' hd hchoice
    obtain ⟨hstore, rfl⟩ := (gives_of_not_scans hscan).1 ⟨_, hd⟩
    exact hlocal hchoice hstore

/-- **Message ids and their texts**: a message id comes back exactly when it is a text that is not scanned
and the choice is the one for texts before, and a text that is turned into a local id is the text of one
exactly when it is not scanned and the choice is not the local one before. -/
theorem messageIds_iff (fields : MessageIdFields) (memory : Blocks) :
    (∀ m, IsReadAgain m fields memory ↔ Returned fields memory m) ∧
    ∀ text, OnlyRenderings text fields memory ↔
      ¬Scans text ∧ (fields.choice = choiceLocal → Storable memory text → Rendering text) :=
  ⟨fun m => isReadAgain_iff m fields memory, fun text => onlyRenderings_iff text fields memory⟩

/-- **A message id that is lost**: the local id of a message is stored as a text. -/
theorem local_id_lost : ∃ memory : Blocks, memory.Plenty ∧
    ¬IsReadAgain (.emsdLocal 1 2) .cleared memory ∧
    messageIdRfc822ToEmsdLocal (messageIdEmsdLocalToRfc822 1 2) .cleared memory =
      .ok (⟨choiceLocal, .rfc822 (some (.ofZString (messageIdEmsdLocalToRfc822 1 2)))⟩,
        { memory with next := 1 }) ∧
    ¬OnlyRenderings (.ofOctets [48, 46, 48, 64, 109, 116, 115, 48]) .cleared memory := by
  refine ⟨⟨fun _ => some fun _ => 0, 0⟩, fun _ => rfl, ?_, ?_, ?_⟩
  · rintro ⟨text, m₁, d, m₂, htext, hd, hchoice, hun⟩
    obtain ⟨rfl, rfl⟩ := gives_pure.1 htext
    obtain ⟨-, rfl⟩ := (gives_of_not_scans (not_scans_local 1 2)).1 ⟨_, hd⟩
    cases hun
  · rfl
  · intro h
    obtain ⟨a, b, heq⟩ := h ⟨choiceLocal, .emsdLocal 0 0⟩ _ rfl rfl
    have hscan : Scans (.ofOctets [48, 46, 48, 64, 109, 116, 115, 48]) := by decide
    exact not_scans_local a b (heq ▸ hscan)

end Ua
