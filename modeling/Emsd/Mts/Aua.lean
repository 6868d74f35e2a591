import Emsd.Mts.Conversion

/-!
# EMSD addresses of recipients (`mts.c`, `subpro.c`)

`convertRfc822ToEmsdAua` cuts the address of a recipient behind the user name, looks the user name up
among the subscribers, and reads a number. `SUB_getEntry` compares numbers too, so the user name of a
profile that it finds is always a number itself, and the profile's EMSD AUA is never read.

* `numericValue_iff`: the signed numbers that `getEmsdAddrNumericValue` reads.
* `convertRfc822ToEmsdAua_eq`: what the conversion gives, and that no null pointer is followed.
* `recipient_iff`: **a recipient is converted as it should be** exactly when there is nothing to convert,
  or the user name ends where the text ends and begins with the number of the profile's EMSD AUA.
-/

namespace Mts.Aua

open Text Ocp

/-- What the functions read of a `SUB_Profile`. -/
structure Profile where
  subscriberId : List Char
  emsdAua : List Char

/-- The address of a recipient, from its user name on: a text without a null character, and the length of
the part that is looked up. -/
structure Recipient where
  text : List Char
  len : ℕ
  noNull : '\x00' ∉ text
  len_le : len ≤ text.length

/-! ## The code -/

/-- `SUB_getEntry` without an NSAP. The array is null before `SUB_init`. -/
def subGetEntry (subproArray : Option (List Profile)) (subscriberId : List Char) : Option Profile :=
  subproArray.bind fun profiles => profiles.find? fun p => emsdAuaEqual p.subscriberId subscriberId

/-- What `convertRfc822ToEmsdAua` leaves behind. -/
structure Converted where
  /-- It returns `Success`. -/
  rc : Bool
  /-- What is written to `*pEmsdAddress`. -/
  emsdAddress : Option UInt32
  /-- The memory from `pUserName` on. -/
  memory : List Char
  deriving DecidableEq

/-- A host of the EMSD domain. -/
def isEmsdHost (emsdHosts : List (List Char)) (host : List Char) : Bool :=
  emsdHosts.any fun pHostName => sameName pHostName host

/-- The memory from `pUserName` on, with the terminator. -/
def Recipient.memory (a : Recipient) : List Char := a.text ++ ['\x00']

/-- The user name. -/
def Recipient.user (a : Recipient) : List Char := a.text.take a.len

/-- `convertRfc822ToEmsdAua`. There is no result where it copies the EMSD AUA to `pUser`, which is null.
The character behind the user name is put back when it fails. -/
def convertRfc822ToEmsdAua (emsdHosts : List (List Char)) (subproArray : Option (List Profile))
    (a : Recipient) (host : List Char) : Option Converted :=
  if !isEmsdHost emsdHosts host then some ⟨false, none, a.memory⟩
  else
    let endChar := a.memory.getD a.len '\x00'
    let cut := a.memory.set a.len '\x00'
    match subGetEntry subproArray (cString cut) with
    | none => some ⟨false, none, cut.set a.len endChar⟩
    | some _ =>
      match getEmsdAddrNumericValue (cString cut) with
      -- the profile is not read, and `*pEnd` is not put back
      | some n => some ⟨true, some n, cut⟩
      | none => none

/-! ## What it should do -/

/-- A recipient is converted as it should be: no null pointer is followed, it succeeds exactly for a host
of the domain and a user name with a profile, gives the number that the profile's EMSD AUA begins with,
and leaves the address as it was. -/
structure Proper (emsdHosts : List (List Char)) (subproArray : Option (List Profile)) (a : Recipient)
    (host : List Char) (r : Converted) : Prop where
  succeeds : r.rc = true ↔
    isEmsdHost emsdHosts host = true ∧ (subGetEntry subproArray a.user).isSome = true
  number : ∀ p ∈ subGetEntry subproArray a.user, r.rc = true →
    ∃ x, r.emsdAddress = some x ∧ Leads p.emsdAua x
  memory : r.memory = a.memory

/-- **A text begins with a signed address**: with one number, or with two, and not with three. A number is
clamped to the range of an `int`. -/
inductive Denotes (s : List Char) : UInt32 → Prop
  | one {i : UInt32} {rest : List Char} (first : Led s i rest) (last : ¬Continued rest) :
    Denotes s (.ofInt (strtol s))
  | two {i₁ i₂ : UInt32} {t rest : List Char} (first : Led s i₁ ('.' :: t)) (second : Led t i₂ rest)
    (last : ¬Continued rest) : Denotes s (.ofInt (strtol s * 1000 + strtol t))

variable {s t rest : List Char} {i x : UInt32} {fields : ℕ} {p : Profile} {emsdHosts : List (List Char)}
  {subproArray : Option (List Profile)} {host : List Char}

/-! ## The numbers -/

theorem scanInts_head (fields : ℕ) (h : Led s i rest) :
    (scanInts '.' (fields + 1) s).head? = some (strtol s) := by
  unfold scanInts scanInt
  rw [scanUlong_iff.2 h]
  rfl

theorem scanInts_dot (h : Led s i ('.' :: t)) :
    scanInts '.' (fields + 1) s = strtol s :: scanInts '.' fields t := by
  rw [scanInts]
  unfold scanInt
  rw [scanUlong_iff.2 h]
  rfl

/-- A single number is the one at the front. -/
theorem scanInts_single (h : Led s i rest) (hlength : (scanInts '.' (fields + 1) s).length = 1) :
    scanInts '.' (fields + 1) s = [strtol s] := by
  obtain ⟨j, hlist⟩ := List.length_eq_one_iff.1 hlength
  have hhead := scanInts_head fields h
  rw [hlist] at hhead ⊢
  rw [Option.some.inj hhead]

/-- **What `getEmsdAddrNumericValue` reads.** -/
theorem numericValue_iff : getEmsdAddrNumericValue s = some x ↔ Denotes s x := by
  have hlength := scanInts_length 3 s
  constructor
  · intro h
    unfold getEmsdAddrNumericValue at h
    split at h
    · -- one number, which is that in front
      rename_i hi hlist
      obtain rfl := Option.some.inj h
      rw [hlist] at hlength
      obtain ⟨i, hone⟩ := List.length_eq_one_iff.1 hlength.symm
      obtain ⟨rest, first, last⟩ := scanFields_one.1 hone
      have hhead := scanInts_head 2 first
      rw [hlist] at hhead
      rw [Option.some.inj hhead]
      exact .one first last
    · -- two numbers, with the dot between them
      rename_i hi lo hlist
      obtain rfl := Option.some.inj h
      rw [hlist] at hlength
      obtain ⟨i₁, i₂, htwo⟩ := List.length_eq_two.1 hlength.symm
      obtain ⟨t, rest, first, second, last⟩ := scanFields_two.1 htwo
      rw [scanInts_dot first] at hlist
      obtain ⟨rfl, htail⟩ := List.cons.inj hlist
      have hhead := scanInts_head 1 second
      rw [htail] at hhead
      rw [Option.some.inj hhead]
      exact .two first second last
    · cases h
  · intro h
    unfold getEmsdAddrNumericValue
    cases h with
    | one first last =>
      rw [scanFields_one.2 ⟨_, first, last⟩] at hlength
      rw [scanInts_single first hlength]
    | two first second last =>
      rw [scanFields_two.2 ⟨_, _, first, second, last⟩, scanInts_dot first] at hlength
      rw [scanInts_dot first, scanInts_single second (Nat.succ.inj hlength)]

/-- **The user name of a profile that is found is read as a number**, so that its EMSD AUA is not looked
at. -/
theorem numericValue_of_entry (h : subGetEntry subproArray s = some p) :
    ∃ n, getEmsdAddrNumericValue s = some n := by
  obtain ⟨profiles, -, hfind⟩ := Option.bind_eq_some_iff.1 h
  have hequal : emsdAuaEqual p.subscriberId s = true :=
    List.find?_some (p := fun q : Profile => emsdAuaEqual q.subscriberId s) hfind
  exact numericValue_of_equal hequal

/-! ## The address -/

/-- The text that is looked up ends behind the user name. -/
theorem Recipient.cString_cut (a : Recipient) : cString (a.memory.set a.len '\x00') = a.user := by
  have hsplit : a.memory.set a.len '\x00' = a.user ++ '\x00' :: a.memory.drop (a.len + 1) := by
    have hlen := a.len_le
    have hlt : a.len < a.memory.length := by
      unfold Recipient.memory
      rw [List.length_append, List.length_singleton]
      omega
    -- the octet behind the user name is in the memory, if only as the terminator
    rw [List.set_eq_take_append_cons_drop, if_pos hlt]
    unfold Recipient.user Recipient.memory
    rw [List.take_append_of_le_length a.len_le]
  have huser : ∀ c ∈ a.user, decide (c ≠ '\x00') = true := by
    intro c hc
    refine decide_eq_true ?_
    rintro rfl
    exact a.noNull (List.mem_of_mem_take hc)
  have htake : (a.user ++ '\x00' :: a.memory.drop (a.len + 1)).takeWhile
      (fun c => decide (c ≠ '\x00')) = a.user ++ ('\x00' :: _).takeWhile _ :=
    List.takeWhile_append_of_pos huser
  rw [hsplit]
  unfold cString
  rw [htake, List.takeWhile_cons_of_neg (by decide), List.append_nil]

/-- What has been cut off can be put back. -/
theorem Recipient.restored (a : Recipient) :
    (a.memory.set a.len '\x00').set a.len (a.memory.getD a.len '\x00') = a.memory := by
  rw [List.set_set]
  refine List.ext_getElem? fun k => ?_
  by_cases hk : a.len = k
  · subst hk
    rw [List.getElem?_set_self', List.getD_eq_getElem?_getD]
    cases a.memory[a.len]? with
    | none => rfl
    | some c => rfl
  · rw [List.getElem?_set_ne hk]

/-- Nothing is cut off exactly where the user name ends with the text. -/
theorem Recipient.cut_eq_iff (a : Recipient) :
    a.memory.set a.len '\x00' = a.memory ↔ a.len = a.text.length := by
  have hlen := a.len_le
  constructor
  · intro h
    by_contra hne
    have hlt : a.len < a.text.length := by omega
    -- the character there would be a null character
    have hget : a.memory[a.len]? = some a.text[a.len] := by
      unfold Recipient.memory
      rw [List.getElem?_append_left hlt, List.getElem?_eq_getElem hlt]
    have hset : (a.memory.set a.len '\x00')[a.len]? = some '\x00' := by
      rw [List.getElem?_set_self']
      rw [hget]
      rfl
    rw [h, hget] at hset
    have hnull : a.text[a.len] = '\x00' := Option.some.inj hset
    exact a.noNull (hnull ▸ List.getElem_mem hlt)
  · intro h
    unfold Recipient.memory
    rw [h, List.set_append_right _ _ (Nat.le_refl _), Nat.sub_self]
    rfl

/-! ## The conversion -/

/-- **No null pointer is followed**, and what the conversion gives in each case. -/
theorem convertRfc822ToEmsdAua_eq (emsdHosts : List (List Char)) (subproArray : Option (List Profile))
    (a : Recipient) (host : List Char) :
    ∃ r, convertRfc822ToEmsdAua emsdHosts subproArray a host = some r ∧
      if isEmsdHost emsdHosts host = true ∧ (subGetEntry subproArray a.user).isSome = true then
        r.rc = true ∧ r.emsdAddress = getEmsdAddrNumericValue a.user ∧
          r.memory = a.memory.set a.len '\x00'
      else r.rc = false ∧ r.memory = a.memory := by
  unfold convertRfc822ToEmsdAua
  dsimp only
  rw [a.cString_cut]
  by_cases hhost : isEmsdHost emsdHosts host = true
  · rw [hhost]
    cases hentry : subGetEntry subproArray a.user with
    | none =>
      refine ⟨_, rfl, ?_⟩
      rw [if_neg (by simp)]
      exact ⟨rfl, a.restored⟩
    | some p =>
      -- the branch that follows the null pointer `pUser` is not taken
      obtain ⟨n, hn⟩ := numericValue_of_entry hentry
      refine ⟨⟨true, some n, a.memory.set a.len '\x00'⟩, ?_, ?_⟩
      · simp [hn]
      · rw [if_pos ⟨rfl, rfl⟩]
        exact ⟨rfl, hn.symm, rfl⟩
  · have hfalse : isEmsdHost emsdHosts host = false := by simpa using hhost
    rw [hfalse]
    refine ⟨⟨false, none, a.memory⟩, rfl, ?_⟩
    rw [if_neg (by simp)]
    exact ⟨rfl, rfl⟩

/-- The conversion that the headers of a message go through gives the same number. -/
theorem convertRfc822ToEmsdAua_conversion (emsdHosts : List (List Char)) (profiles : List Profile)
    (a : Recipient) (pAddr : Mts.Address) (h : pAddr.host = some host) :
    ∃ r, convertRfc822ToEmsdAua emsdHosts (some profiles) a host = some r ∧
      Mts.convertRfc822ToEmsdAua ⟨emsdHosts, profiles.map Profile.subscriberId⟩ a.user pAddr =
        pure (if r.rc then r.emsdAddress else none) := by
  obtain ⟨r, hr, hcases⟩ := convertRfc822ToEmsdAua_eq emsdHosts (some profiles) a host
  refine ⟨r, hr, ?_⟩
  have hentry : ConvertEnv.subGetEntry ⟨emsdHosts, profiles.map Profile.subscriberId⟩ a.user =
      (subGetEntry (some profiles) a.user).isSome := by
    unfold ConvertEnv.subGetEntry subGetEntry
    rw [Option.bind_some, List.isSome_find?]
    exact List.any_map
  unfold Mts.convertRfc822ToEmsdAua
  rw [h]
  dsimp only
  rw [hentry]
  change (if emsdHosts = [] then _ else if (isEmsdHost emsdHosts host && _) = true then _ else _) = _
  by_cases hhosts : emsdHosts = []
  · subst hhosts
    rw [if_neg (by simp [isEmsdHost])] at hcases
    rw [if_pos rfl, hcases.1]
    rfl
  · rw [if_neg hhosts]
    by_cases hfound : isEmsdHost emsdHosts host = true ∧
        (subGetEntry (some profiles) a.user).isSome = true
    · rw [if_pos hfound] at hcases
      obtain ⟨hrc, haddress, -⟩ := hcases
      obtain ⟨p, hp⟩ := Option.isSome_iff_exists.1 hfound.2
      obtain ⟨n, hn⟩ := numericValue_of_entry hp
      rw [if_pos (Bool.and_eq_true_iff.2 hfound), hn, hrc, haddress, hn]
      rfl
    · rw [if_neg hfound] at hcases
      rw [if_neg fun hboth => hfound (Bool.and_eq_true_iff.1 hboth), hcases.1]
      rfl

/-- **Recipients.** For every address, every list of hosts and every table, the conversion does what it
should if and only if the user name, where it has a profile and the host is one of the domain, ends where
the text does, and begins with the number with which the profile's EMSD AUA begins. -/
theorem recipient_iff (emsdHosts : List (List Char)) (subproArray : Option (List Profile))
    (a : Recipient) (host : List Char) :
    (∃ r, convertRfc822ToEmsdAua emsdHosts subproArray a host = some r ∧
      Proper emsdHosts subproArray a host r) ↔
    (isEmsdHost emsdHosts host = true → ∀ p ∈ subGetEntry subproArray a.user,
      a.len = a.text.length ∧ ∃ x, Denotes a.user x ∧ Leads p.emsdAua x) := by
  simp only [← numericValue_iff]
  obtain ⟨r, hr, hcases⟩ := convertRfc822ToEmsdAua_eq emsdHosts subproArray a host
  have hunique : (∃ r, convertRfc822ToEmsdAua emsdHosts subproArray a host = some r ∧
      Proper emsdHosts subproArray a host r) ↔ Proper emsdHosts subproArray a host r := by
    constructor
    · rintro ⟨r', hr', hproper⟩
      obtain rfl : r = r' := Option.some.inj (hr.symm.trans hr')
      exact hproper
    · exact fun hproper => ⟨r, hr, hproper⟩
  rw [hunique]
  by_cases hfound : isEmsdHost emsdHosts host = true ∧ (subGetEntry subproArray a.user).isSome = true
  · rw [if_pos hfound] at hcases
    obtain ⟨hrc, haddress, hmemory⟩ := hcases
    obtain ⟨p, hp⟩ := Option.isSome_iff_exists.1 hfound.2
    constructor
    · intro hproper hhost q hq
      -- the memory tells where the user name ends, the number what it begins with
      have hlen : a.len = a.text.length := a.cut_eq_iff.1 (hmemory.symm.trans hproper.memory)
      obtain ⟨x, hx, haua⟩ := hproper.number q hq hrc
      exact ⟨hlen, x, haddress.symm.trans hx, haua⟩
    · intro hcond
      have hlen := (hcond hfound.1 p hp).1
      refine ⟨iff_of_true hrc hfound, fun q hq _ => ?_, hmemory.trans (a.cut_eq_iff.2 hlen)⟩
      obtain ⟨-, x, hx, haua⟩ := hcond hfound.1 q hq
      exact ⟨x, haddress.trans hx, haua⟩
  · rw [if_neg hfound] at hcases
    obtain ⟨hrc, hmemory⟩ := hcases
    have hfail : ¬r.rc = true := by
      rw [hrc]
      decide
    refine iff_of_true ⟨iff_of_false hfail hfound, fun p _ h => absurd h hfail, hmemory⟩ ?_
    intro hhost p hp
    exact absurd ⟨hhost, Option.isSome_iff_exists.2 ⟨p, hp⟩⟩ hfound

/-- A subscriber whose EMSD AUA is his subscriber id with a dot. -/
def oneSubscriber : Option (List Profile) := some [⟨"201045".toList, "201.045".toList⟩]

/-- The user name in angle brackets. -/
def bracketed : Recipient := ⟨"201.045>".toList, 7, by decide, by decide⟩

/-- **A bracket that is lost**: the recipient is found, and the address is cut behind the user name. -/
theorem recipient_cut :
    convertRfc822ToEmsdAua ["emsd".toList] oneSubscriber bracketed "EMSD".toList =
      some ⟨true, some 201045, "201.045".toList ++ ['\x00', '\x00']⟩ ∧
    ¬∃ r, convertRfc822ToEmsdAua ["emsd".toList] oneSubscriber bracketed "EMSD".toList = some r ∧
      Proper ["emsd".toList] oneSubscriber bracketed "EMSD".toList r := by
  have hrun : convertRfc822ToEmsdAua ["emsd".toList] oneSubscriber bracketed "EMSD".toList =
      some ⟨true, some 201045, "201.045".toList ++ ['\x00', '\x00']⟩ := by decide +kernel
  refine ⟨hrun, ?_⟩
  rintro ⟨r, hr, hproper⟩
  obtain rfl := Option.some.inj (hrun.symm.trans hr)
  exact absurd hproper.memory (by decide)

end Mts.Aua
