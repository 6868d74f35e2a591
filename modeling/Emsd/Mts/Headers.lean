import Emsd.Lib.Needs
import Emsd.Mtsua.Heading

/-!
# The header text of a message (`rfc2emsd.c`)

`parseHeaderString` goes over the items of a header text, in which a line that begins with a blank goes
on with the one before it, and adds what the envelope does not have to the heading of the message.

* `parseItems_eq`: the items are parsed one after the other, and a folded item without a newline at its
  end makes the code follow a null pointer.
* `parseHeaderString_needs`: **what the function needs** of a header text.
-/

namespace Mts

open Ocp Mtsua Fallible

/-! ## The code -/

/-- A text as the string that is copied. -/
def zString (s : List Char) : ZString := .ofOctets (s.map fun c => .ofNat c.toNat)

/-- `STR_assignZString`. -/
def assignText (s : List Char) : Run Str := Str.assignZString (zString s)

/-- A space or a tab. -/
def isBlank (c : Char) : Bool := c = ' ' ∨ c = '\t'

/-- `OS_strncasecmp` with the length of the name. -/
def startsWith (name s : List Char) : Bool :=
  (s.take name.length).map Char.toLower = name.map Char.toLower

/-- The items that are in the envelope, as far as they are compared. -/
def ignoreHeaderList : List (List Char) :=
  [">From".toList, "BCC:".toList, "CC:".toList, "Date:".toList, "From ".toList, "From:".toList,
    "In-Reply-To:".toList, "Message-ID:".toList, "Reply-To:".toList, "Sender:".toList,
    "Subject:".toList, "To:".toList]

inductive MimeField
  | contentDescription
  | contentId
  | contentTransferEncoding
  | contentType
  | version

def mimeHeaders : List (List Char × MimeField) :=
  [("Content-Description:".toList, .contentDescription), ("Content-Id:".toList, .contentId),
    ("Content-Transfer-Encoding:".toList, .contentTransferEncoding),
    ("Content-Type:".toList, .contentType), ("MIME-Version:".toList, .version)]

def setMime (pHeading : EmsdMessage) (string : StrHandle) : MimeField → EmsdMessage
  | .contentDescription => { pHeading with mimeContentDescription := ⟨true, string⟩ }
  | .contentId => { pHeading with mimeContentId := ⟨true, string⟩ }
  | .contentTransferEncoding => { pHeading with mimeContentTransferEncoding := ⟨true, string⟩ }
  | .contentType => { pHeading with mimeContentType := ⟨true, string⟩ }
  | .version => { pHeading with mimeVersion := ⟨true, string⟩ }

/-- The MIME header that an item is. -/
def findMime (item : List Char) : Option (List Char × MimeField) :=
  mimeHeaders.find? fun m => startsWith m.1 item

/-- The item is in the envelope. -/
def isIgnored (item : List Char) : Bool := ignoreHeaderList.any (startsWith · item)

/-- The text behind the name of a MIME header. -/
def mimeText (name item : List Char) : List Char := (item.drop name.length).dropWhile isBlank

def labelText (item : List Char) : List Char := item.takeWhile (· ≠ ':')

def valueText (item : List Char) : List Char :=
  (item.drop ((labelText item).length + 1)).dropWhile isBlank

/-- The label and the value of an extension. -/
def newExtension (item : List Char) : Run EmsdExtension := do
  let label ← assignText (labelText item)
  let value ← assignText (valueText item)
  pure ⟨some label, some value⟩

/-- What is done with one item, and whether the loop goes on: an item without a label ends it. -/
def parseItem (item : List Char) (pHeading : EmsdMessage) : Run (EmsdMessage × Bool) :=
  if isIgnored item then pure (pHeading, true)
  else
    match findMime item with
    | some (name, field) => do
      let string ← assignText (mimeText name item)
      pure (setMime pHeading (some string) field, true)
    | none =>
      if ':' ∈ item then do
        let extensions ← collect newExtension .undefined [item] pHeading.extensions
        pure ({ pHeading with extensions }, true)
      else pure (pHeading, false)

/-- The loop of `parseHeaderString`, with the item as far as its end has been looked for: `folded` says
whether this is done by the second `strchr`, whose null pointer is given to `strlen`. -/
def parseItems : Bool → List Char → List Char → EmsdMessage → Run EmsdMessage
  | folded, item, [], pHeading =>
    if item = [] then pure pHeading
    else if folded then stop .undefined
    else do
      let r ← parseItem item pHeading
      pure r.1
  | folded, item, c :: s, pHeading =>
    if c = '\n' then
      if s.head?.any isBlank then parseItems true (item ++ [c]) s pHeading
      else do
        let r ← parseItem item pHeading
        if r.2 then parseItems false [] s r.1 else pure r.1
    else parseItems folded (item ++ [c]) s pHeading

/-- `parseHeaderString`. -/
def parseHeaderString (pHeaderStr : List Char) (pHeading : EmsdMessage) : Run EmsdMessage :=
  parseItems false [] (pHeaderStr.filter (· ≠ '\r')) pHeading

/-! ## The items -/

/-- An item of a header text, and whether there is a newline at its end. -/
structure HeaderItem where
  text : List Char
  ended : Bool
  deriving DecidableEq, Repr

/-- The items of a text, with the first of them as far as it has been read. -/
def itemsFrom : List Char → List Char → List HeaderItem
  | item, [] => if item = [] then [] else [⟨item, false⟩]
  | item, c :: s =>
    if c = '\n' ∧ s.head?.any isBlank = false then ⟨item, true⟩ :: itemsFrom [] s
    else itemsFrom (item ++ [c]) s

/-- The items of a header text, without the carriage returns. -/
def headerItems (pHeaderStr : List Char) : List HeaderItem :=
  itemsFrom [] (pHeaderStr.filter (· ≠ '\r'))

/-- A folded item that the text breaks off. -/
def HeaderItem.CutShort (i : HeaderItem) : Prop := '\n' ∈ i.text ∧ i.ended = false

instance (i : HeaderItem) : Decidable i.CutShort := inferInstanceAs (Decidable (_ ∧ _))

/-- The items are parsed one after the other. -/
def parseEach : List HeaderItem → EmsdMessage → Run EmsdMessage
  | [], pHeading => pure pHeading
  | i :: is, pHeading =>
    if i.CutShort then stop .undefined
    else do
      let r ← parseItem i.text pHeading
      if r.2 then parseEach is r.1 else pure r.1

variable {item s : List Char} {pHeading : EmsdMessage} {folded : Bool} {is : List HeaderItem}
  {count : ℕ}

/-- **The loop parses the items**, where what has been read of the first is folded if and only if there
is a newline in it. -/
theorem parseItems_eq (hfolded : folded = true ↔ '\n' ∈ item) :
    parseItems folded item s pHeading = parseEach (itemsFrom item s) pHeading := by
  induction s generalizing folded item pHeading with
  | nil =>
    unfold parseItems itemsFrom
    by_cases hitem : item = []
    · rw [if_pos hitem, if_pos hitem]
      rfl
    · rw [if_neg hitem, if_neg hitem]
      unfold parseEach
      by_cases hf : folded = true
      · rw [if_pos hf, if_pos ⟨hfolded.1 hf, rfl⟩]
      · rw [if_neg hf, if_neg fun h => hf (hfolded.2 h.1)]
        congr 1
        funext r
        split <;> rfl
  | cons c s ih =>
    unfold parseItems itemsFrom
    by_cases hc : c = '\n'
    · rw [if_pos hc]
      cases hblank : s.head?.any isBlank with
      | true =>
        -- a continuation line: from here on the item is folded
        rw [if_pos rfl, if_neg (by simp)]
        exact ih (by simp [hc])
      | false =>
        rw [if_neg (by simp), if_pos ⟨hc, rfl⟩]
        unfold parseEach
        rw [if_neg (by simp [HeaderItem.CutShort])]
        congr 1
        funext r
        rw [ih (by simp)]
    · rw [if_neg hc, if_neg fun h => hc h.1]
      refine ih ?_
      rw [hfolded, List.mem_append, List.mem_singleton]
      constructor
      · exact Or.inl
      · rintro (h | h)
        · exact h
        · exact absurd h.symm hc

/-! ## What it takes -/

/-- A string that is copied as it is: its length with the null character is an `OS_Uint16`. -/
def Short (s : List Char) : Prop := (zString s).1.length + 1 < 2 ^ 16

/-- The item is put into the list of extensions. -/
def isExtension (item : List Char) : Bool :=
  !isIgnored item && (findMime item).isNone && decide (':' ∈ item)

/-- The item has a label, or a name that is known. -/
def isLabelled (item : List Char) : Bool :=
  isIgnored item || (findMime item).isSome || decide (':' ∈ item)

/-- The texts that are copied out of an item. -/
def copied (item : List Char) : List (List Char) :=
  if isIgnored item then []
  else
    match findMime item with
    | some (name, _) => [mimeText name item]
    | none => if ':' ∈ item then [labelText item, valueText item] else []

/-- The items that are looked at: up to the first one that is not labelled. -/
def examined : List HeaderItem → List HeaderItem
  | [] => []
  | i :: is => i :: if isLabelled i.text then examined is else []

/-- **What is needed of the items**, with as many extensions before them. -/
structure ItemsFit (count : ℕ) (is : List HeaderItem) : Prop where
  ended : ∀ i ∈ examined is, ¬i.CutShort
  room : count + (examined is).countP (fun i => isExtension i.text) ≤ maxHeaderExtensions
  short : ∀ i ∈ examined is, ∀ t ∈ copied i.text, Short t

/-- What a function of the agents needs to do nothing that is undefined. -/
abbrev Requires {α : Type} (x : Run α) (P : Prop) (R : α → Prop) : Prop :=
  Needs (· = Stop.undefined) Blocks.Plenty x P R

theorem stop_requires {α : Type} {R : α → Prop} : Requires (stop .undefined : Run α) False R :=
  Needs.stop rfl

theorem pure_requires {α : Type} {a : α} {R : α → Prop} (ha : R a) : Requires (pure a) True R :=
  Needs.pure ha

theorem collect_requires {α β : Type} {n : ℕ} {f : α → Run β} {l : List α} {t : Slots β n}
    {need : α → Prop} {T : β → Prop} (hf : ∀ a ∈ l, Requires (f a) (need a) T) :
    Requires (collect f .undefined l t) (t.1.length + l.length ≤ n ∧ ∀ a ∈ l, need a)
      (fun t' => t'.1.length = t.1.length + l.length) :=
  Needs.collect rfl hf

theorem osAlloc_requires : Requires osAlloc True (fun _ => True) where
  post := fun _ _ _ _ => trivial
  safe := by
    intro _ m e h
    unfold osAlloc at h
    split at h
    · obtain rfl := Except.error.inj h
      simp
    · cases h
  ends := fun _ m hm => hm.osAlloc
  harm := fun h => absurd trivial h

theorem alloc_requires (len : ℕ) : Requires (Str.alloc len) True (fun s => s.maxLen = len % 2 ^ 16) :=
  osAlloc_requires.bind_pure fun _ _ => rfl

theorem assignText_requires (s : List Char) : Requires (assignText s) (Short s) (fun _ => True) := by
  unfold assignText Str.assignZString
  refine ((alloc_requires _).bind (Q := Short s) fun str hstr => ?_).congr (and_iff_right trivial)
  rw [hstr]
  refine (Needs.ite (fun _ => pure_requires trivial) fun _ => stop_requires).congr ?_
  rw [imp_false, not_not, and_iff_right fun _ => trivial]
  unfold Short
  omega

theorem newExtension_requires (item : List Char) : Requires (newExtension item)
    (Short (labelText item) ∧ Short (valueText item)) (fun _ => True) := by
  unfold newExtension
  refine (assignText_requires _).bind fun label _ => ?_
  exact (assignText_requires _).bind_pure fun _ _ => trivial

/-- What one item needs, and what it does to the number of extensions. -/
theorem parseItem_requires (item : List Char) (pHeading : EmsdMessage) :
    Requires (parseItem item pHeading)
      (pHeading.extensions.1.length + (if isExtension item then 1 else 0) ≤ maxHeaderExtensions ∧
        ∀ t ∈ copied item, Short t)
      (fun r => r.1.extensions.1.length =
        pHeading.extensions.1.length + (if isExtension item then 1 else 0) ∧
        r.2 = isLabelled item) := by
  have hroom := pHeading.extensions.2
  unfold parseItem isExtension isLabelled copied
  cases hignored : isIgnored item with
  | true =>
    have h : Requires (pure (pHeading, true) : Run _) True (fun r : EmsdMessage × Bool =>
      r.1.extensions.1.length = pHeading.extensions.1.length ∧ r.2 = true) := .pure ⟨rfl, rfl⟩
    simpa [hroom] using h.congr (iff_of_true trivial hroom)
  | false =>
    cases hmime : findMime item with
    | some m =>
      obtain ⟨name, field⟩ := m
      have h : Requires (assignText (mimeText name item) >>= fun string =>
          pure (setMime pHeading (some string) field, true)) (Short (mimeText name item))
          (fun r : EmsdMessage × Bool =>
            r.1.extensions.1.length = pHeading.extensions.1.length ∧ r.2 = true) := by
        refine (assignText_requires _).bind_pure fun string _ => ⟨?_, rfl⟩
        cases field <;> rfl
      simpa [hroom] using h
    | none =>
      by_cases hcolon : ':' ∈ item
      · have h : Requires (collect newExtension .undefined [item] pHeading.extensions >>= fun extensions =>
            pure ({ pHeading with extensions }, true))
            (pHeading.extensions.1.length + 1 ≤ maxHeaderExtensions ∧
              ∀ i ∈ [item], Short (labelText i) ∧ Short (valueText i))
            (fun r : EmsdMessage × Bool =>
              r.1.extensions.1.length = pHeading.extensions.1.length + 1 ∧ r.2 = true) :=
          (collect_requires fun i _ => newExtension_requires i).bind_pure fun extensions hlen =>
            ⟨hlen, rfl⟩
        simpa [hcolon] using h
      · have h : Requires (pure (pHeading, false) : Run _) True (fun r : EmsdMessage × Bool =>
          r.1.extensions.1.length = pHeading.extensions.1.length ∧ r.2 = false) := .pure ⟨rfl, rfl⟩
        simpa [hcolon, hroom] using h.congr (iff_of_true trivial hroom)

theorem itemsFit_nil (h : count ≤ maxHeaderExtensions) : ItemsFit count [] where
  ended := by simp [examined]
  room := h
  short := by simp [examined]

theorem itemsFit_cons {i : HeaderItem} : ItemsFit count (i :: is) ↔ ¬i.CutShort ∧
    ((count + (if isExtension i.text then 1 else 0) ≤ maxHeaderExtensions ∧
      ∀ t ∈ copied i.text, Short t) ∧
    (isLabelled i.text = true → ItemsFit (count + if isExtension i.text then 1 else 0) is)) := by
  have hexamined : examined (i :: is) = i :: if isLabelled i.text then examined is else [] := rfl
  constructor
  · rintro ⟨hended, hroom, hshort⟩
    rw [hexamined] at hended hroom hshort
    rw [List.countP_cons] at hroom
    refine ⟨hended i List.mem_cons_self, ⟨by omega, hshort i List.mem_cons_self⟩, fun hlabelled => ?_⟩
    rw [if_pos hlabelled] at hended hroom hshort
    exact ⟨fun j hj => hended j (List.mem_cons_of_mem i hj), by omega,
      fun j hj => hshort j (List.mem_cons_of_mem i hj)⟩
  · rintro ⟨hended, ⟨hroom, hshort⟩, hrest⟩
    by_cases hlabelled : isLabelled i.text = true
    · obtain ⟨hended', hroom', hshort'⟩ := hrest hlabelled
      rw [if_pos hlabelled] at hexamined
      constructor
      · rw [hexamined]
        exact List.forall_mem_cons.2 ⟨hended, hended'⟩
      · rw [hexamined, List.countP_cons]
        omega
      · rw [hexamined]
        exact List.forall_mem_cons.2 ⟨hshort, hshort'⟩
    · rw [if_neg hlabelled] at hexamined
      constructor
      · rw [hexamined]
        exact List.forall_mem_singleton.2 hended
      · rw [hexamined, List.countP_cons, List.countP_nil]
        omega
      · rw [hexamined]
        exact List.forall_mem_singleton.2 hshort

theorem parseEach_requires (is : List HeaderItem) (pHeading : EmsdMessage) :
    Requires (parseEach is pHeading) (ItemsFit pHeading.extensions.1.length is) (fun _ => True) := by
  induction is generalizing pHeading with
  | nil =>
    exact (pure_requires trivial).congr (iff_of_true trivial (itemsFit_nil pHeading.extensions.2))
  | cons i is ih =>
    rw [itemsFit_cons]
    unfold parseEach
    have hturn : Requires (parseItem i.text pHeading >>= fun r =>
        if r.2 then parseEach is r.1 else pure r.1)
        ((pHeading.extensions.1.length + (if isExtension i.text then 1 else 0) ≤ maxHeaderExtensions ∧
          ∀ t ∈ copied i.text, Short t) ∧
        (isLabelled i.text = true →
          ItemsFit (pHeading.extensions.1.length + if isExtension i.text then 1 else 0) is))
        (fun _ => True) := by
      refine (parseItem_requires i.text pHeading).bind fun r hr => ?_
      obtain ⟨hcount, hmore⟩ := hr
      rw [hmore]
      -- the loop goes on behind an item with a label
      cases isLabelled i.text with
      | true =>
        rw [if_pos rfl, ← hcount]
        exact (ih r.1).congr ⟨fun h _ => h, fun h => h rfl⟩
      | false =>
        rw [if_neg (by simp)]
        exact (pure_requires trivial).congr (iff_of_true trivial fun h => by cases h)
    refine (Needs.ite (fun _ => stop_requires) fun _ => hturn).congr ?_
    rw [imp_false]
    exact and_congr_right fun hended => ⟨fun h => h hended, fun h _ => h⟩

/-- **What `parseHeaderString` needs**: no item is broken off after a continuation line, there is room for
the extensions, and the texts are short, among the items up to the first one without a label. -/
theorem parseHeaderString_requires (pHeaderStr : List Char) (pHeading : EmsdMessage) :
    Requires (parseHeaderString pHeaderStr pHeading)
      (ItemsFit pHeading.extensions.1.length (headerItems pHeaderStr)) (fun _ => True) := by
  unfold parseHeaderString
  rw [parseItems_eq (by simp)]
  exact parseEach_requires _ pHeading

end Mts
