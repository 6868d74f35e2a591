import Emsd.Asn.BitStrings
import Emsd.Asn.Formatter

/-!
# The length that the formatter gives (`asnber.c`, `strfunc.c`)

`asn_berFormat` counts what it puts into the buffer by itself, element by element. It asks
`STR_getStringLength` for the length of an octet string, which cuts the length of a null-terminated one
to 16 bits, and puts all of the string into the buffer.

* `format_counts`: the length of any element, but for the strings with 65536 octets or more.
* `formatted_length`: **the length is what the buffer has grown by** exactly when what is cut off the
  lengths of the strings in the PDU makes up a multiple of 2^32.
-/

namespace Asn.Shared

open Ocp

variable {p : Path} {m m' : Memory} {e : Element} {base : Nat} {len before : UInt32} {l l' : List Octets}
  {calls : List Put} {r : Formatter} {next : UInt32 × Memory → Formatter} {s : Record}
  {grant : Nat → Bool} {t t' : Target}

/-! ## The octet strings of a value -/

/-- The loop over the elements of a sequence-of. -/
def stringsOfSequenceOf (strings : Nat → List Octets) (elementSize : Nat) : Nat → Nat → List Octets
  | 0, _ => []
  | count + 1, base =>
    strings base ++ stringsOfSequenceOf strings elementSize count (base + elementSize)

mutual

/-- The octet strings that the element has in the PDU. -/
def strings (c : CStruct) : Element → Nat → List Octets
  | .octetString i, base => if (i.at base).present c then [c.string (i.at base).dataOffset] else []
  | .sequence i es, base => if (i.at base).present c then stringsOfElements c es base else []
  | .sequenceOf i elementSize e, base =>
    if (i.at base).present c then
      stringsOfSequenceOf (fun base => strings c e base) elementSize
        (c.uint32 (i.at base).dataOffset).toNat base
    else []
  | .choice i es, base =>
    if (i.at base).present c then
      stringsOfAlternative c es ((c.selector (i.at base).dataOffset).toNat % (es.length + 1)) base
    else []
  | .integer _, _ | .bitString _, _ | .bcdString _, _ | .buffer _, _ | .other _, _ => []

def stringsOfElements (c : CStruct) : List Element → Nat → List Octets
  | [], _ => []
  | e :: es, base => stringsOfElements c es base ++ strings c e base

def stringsOfAlternative (c : CStruct) : List Element → Nat → Nat → List Octets
  | [], _, _ => []
  | e :: _, 0, base => strings c e base
  | _ :: es, n + 1, base => stringsOfAlternative c es n base

end

/-- How many times 65536 octets are cut off the lengths of the strings. -/
def cutOff (l : List Octets) : Nat := (l.map fun string => string.length / 2 ^ 16).sum

theorem cutOff_append : cutOff (l ++ l') = cutOff l + cutOff l' := by
  simp [cutOff]

/-- Nothing is cut off when no string has as many octets. -/
theorem cutOff_eq_zero (h : ∀ string ∈ l, string.length < 2 ^ 16) : cutOff l = 0 := by
  induction l with
  | nil => rfl
  | cons string l ih =>
    rw [List.forall_mem_cons] at h
    have hcons : cutOff (string :: l) = string.length / 2 ^ 16 + cutOff l := rfl
    rw [hcons, ih h.2, Nat.div_eq_of_lt h.1]

/-! ## What the calls put into the buffer -/

def Put.octets : Put → Octets
  | .octet x => [x]
  | .chunk string => string
  | .buffer f => f.octets

/-- What the calls put in front of the buffer, the first call last. -/
def written (calls : List (Put × Point)) : Octets :=
  (calls.map fun call => call.1.octets).reverse.flatten

theorem written_append (calls calls' : List (Put × Point)) :
    written (calls ++ calls') = written calls' ++ written calls := by
  simp [written]

theorem written_octets (os : Octets) (n : Point) : written ((octets os).map (·, n)) = os := by
  unfold written octets
  rw [List.map_map, List.map_map, ← List.map_reverse, List.reverse_reverse]
  induction os with
  | nil => rfl
  | cons o os ih =>
    rw [List.map_cons, List.flatten_cons, ih]
    rfl

theorem Put.run_octets {put : Put} (h : put.run grant t = some t') :
    t'.buf.octets = put.octets ++ t.buf.octets := by
  have hsegment : ∀ f, t.allocSegment grant f = some t' → t'.buf = f := by
    intro f hf
    unfold Target.allocSegment at hf
    split at hf
    · obtain rfl := Option.some.inj hf
      rfl
    · cases hf
  cases put with
  | octet x =>
    simp only [Put.run] at h
    split at h
    · rw [hsegment _ h]
      exact Front.addOctet_octets
    · obtain rfl := Option.some.inj h
      exact Front.addOctet_octets
  | chunk string =>
    rw [hsegment _ h]
    exact Front.prependChunk_octets
  | buffer f =>
    obtain rfl := Option.some.inj h
    simp [prependBuffer, Front.octets, Put.octets]

/-- **The calls** put in front of the buffer what they are given. -/
theorem runCalls_octets {calls : List (Put × Point)}
    (h : Script.runCalls (Put.run grant) calls t = .ok t') :
    t'.buf.octets = written calls ++ t.buf.octets := by
  induction calls generalizing t with
  | nil =>
    cases h
    rfl
  | cons call calls ih =>
    obtain ⟨put, n⟩ := call
    unfold Script.runCalls at h
    cases hput : put.run grant t with
    | none => rw [hput] at h; cases h
    | some t₁ =>
      rw [hput] at h
      have hcons : written ((put, n) :: calls) = written calls ++ put.octets := by
        simp [written]
      rw [ih h, Put.run_octets hput, hcons, List.append_assoc]

/-! ## What the formatter counts -/

/-- With `before` counted before, the formatter counts what it puts into the buffer but for what is cut
off the lengths of the strings `l`, in 32 bits. -/
def Counts (before : UInt32) (r : Formatter) (l : List Octets) : Prop :=
  ∀ len m, r.ending = .ok (len, m) →
    (before.toNat + (written r.calls).length) % 2 ^ 32 = (len.toNat + 2 ^ 16 * cutOff l) % 2 ^ 32

theorem Counts.puts (h : (before.toNat + (written (calls.map (·, ⟨p, m⟩))).length) % 2 ^ 32 =
    (len.toNat + 2 ^ 16 * cutOff l) % 2 ^ 32) : Counts before (puts p m calls len) l := by
  intro len' m' hend
  obtain ⟨rfl, -⟩ := Prod.mk.inj (Except.ok.inj hend)
  exact h

theorem Counts.none (p : Path) (m : Memory) (len : UInt32) : Counts len (Shared.puts p m [] len) [] :=
  .puts rfl

/-- Octets of one element. -/
theorem Counts.octets (os : Octets) (p : Path) (m : Memory) :
    Counts 0 (Shared.puts p m (Shared.octets os) (UInt32.ofNat os.length)) [] := by
  apply Counts.puts
  rw [written_octets, UInt32.toNat_ofNat']
  simp [cutOff]

theorem Counts.andThen (hr : Counts before r l) (hnext : ∀ a, Counts a.1 (next a) l') :
    Counts before (r.andThen next) (l ++ l') := by
  intro len m hend
  obtain ⟨a, ha, hb⟩ := Script.ending_andThen.1 hend
  have hfirst := hr a.1 a.2 ha
  have hsecond := hnext a len m hb
  rw [Script.andThen_of_ok ha, written_append, List.length_append, cutOff_append]
  omega

/-- An element whose length is added to what has been counted. -/
theorem Counts.add (hr : Counts 0 r l) (p : Path) (before : UInt32) :
    Counts before (r.andThen fun r' => Shared.puts p r'.2 [] (before + r'.1)) l := by
  intro len m hend
  obtain ⟨a, ha, hb⟩ := Script.ending_andThen.1 hend
  obtain ⟨rfl, -⟩ := Prod.mk.inj (Except.ok.inj hb)
  have hfirst := hr a.1 a.2 ha
  have hnone : written ((Shared.puts p a.2 [] (before + a.1)).calls) = [] := rfl
  rw [Script.andThen_of_ok ha, written_append, hnone, List.nil_append, UInt32.toNat_add]
  simp only [UInt32.toNat_zero] at hfirst
  omega

theorem Counts.addTag (r : UInt32 × Memory) (p : Path) (tag : UInt8) :
    Counts r.1 (addTag p tag r) [] := by
  unfold Shared.addTag
  split
  · apply Counts.puts
    rw [written_octets, List.length_cons, UInt32.toNat_add, UInt32.toNat_add, UInt32.toNat_ofNat']
    simp only [UInt32.toNat_one, cutOff, List.map_nil, List.sum_nil]
    omega
  · exact .none p r.2 r.1

/-- What has been counted is right when what has been cut off makes up a multiple of 2^32. -/
theorem Counts.exact_iff (h : Counts 0 r l) (hend : r.ending = .ok (len, m)) :
    len = UInt32.ofNat (written r.calls).length ↔ 2 ^ 16 ∣ cutOff l := by
  have hmod := h len m hend
  have hlt := len.toNat_lt
  rw [← UInt32.toNat_inj, UInt32.toNat_ofNat']
  rw [UInt32.toNat_zero] at hmod
  omega

/-- An element that counts what it puts into the buffer, and has its length behind its tag, but for what
is cut off the lengths of the strings `l`. -/
structure Counted (r : Formatter) (tag : UInt8) (l : List Octets) : Prop where
  counts : Counts 0 r l
  enclosed : tag ≠ 0 → ∀ len m, r.ending = .ok (len, m) → ∃ (n : UInt32) (data : Octets),
    written r.calls = tag :: lengthOctets n.toNat ++ data ∧
      (n = UInt32.ofNat data.length ↔ 2 ^ 16 ∣ cutOff l)

/-- **An element is counted** when its contents are. -/
theorem Counts.element (h : Counts 0 r l) :
    Counted (element s e p base m r)
      (if (e.info.at base).present s.c then closingTag s.c base (m.tag p) e else 0)
      (if (e.info.at base).present s.c then l else []) := by
  unfold Shared.element
  split
  · have hall := h.andThen fun a => Counts.addTag a p (closingTag s.c base (m.tag p) e)
    rw [List.append_nil] at hall
    refine ⟨hall, fun htag len m' hend => ?_⟩
    obtain ⟨a, ha, hb⟩ := Script.ending_andThen.1 hend
    refine ⟨a.1, written r.calls, ?_, h.exact_iff ha⟩
    rw [Script.andThen_of_ok ha, written_append]
    unfold Shared.addTag
    rw [if_pos htag]
    exact congrArg (· ++ written r.calls) (written_octets _ _)
  · exact ⟨.none p m 0, fun htag => absurd rfl htag⟩

/-- An element without octet strings. -/
theorem Counts.plain (h : Counts 0 r []) :
    Counted (Shared.element s e p base m r)
      (if (e.info.at base).present s.c then closingTag s.c base (m.tag p) e else 0) [] := by
  have hall : Counted (Shared.element s e p base m r)
      (if (e.info.at base).present s.c then closingTag s.c base (m.tag p) e else 0)
      (if (e.info.at base).present s.c then [] else []) := h.element
  rwa [ite_self] at hall

theorem formatBitString_length (string : BitString) :
    (formatBitString string ⟨[], 0⟩).1.octets.length = (formatBitString string ⟨[], 0⟩).2 := by
  by_cases hn : string.maxLen = 0
  · unfold formatBitString
    rw [if_pos hn]
    rfl
  · obtain ⟨last, -, heq⟩ := formatBitString_eq ⟨[], 0⟩ hn
    rw [heq, addOctets_octets]
    simp only [List.length_append, List.length_cons, packed_length, Front.octets, List.flatten_nil,
      List.length_nil]
    omega

theorem Counts.string (string : Octets) (p : Path) (m : Memory) :
    Counts 0 (Shared.puts p m [.chunk string] (stringLength string)) [string] := by
  apply Counts.puts
  have hwritten : written ([Put.chunk string].map (·, ⟨p, m⟩)) = string := by
    simp [written, Put.octets]
  have hcut : cutOff [string] = string.length / 2 ^ 16 := by
    simp [cutOff]
  rw [hwritten, hcut, stringLength, UInt32.toNat_ofNat', UInt32.toNat_zero]
  omega

theorem Counts.buffer (hBuf : Nat) (p : Path) (m : Memory) : Counts 0 (putBuffer hBuf p m) [] := by
  have hlen : bufferLength (m.buffer hBuf) = UInt32.ofNat (m.buffer hBuf).octets.length := rfl
  unfold putBuffer
  dsimp only
  split
  · intro len m' hend
    obtain ⟨rfl, -⟩ := Prod.mk.inj (Except.ok.inj hend)
    have hwritten : written [(Put.buffer (m.buffer hBuf), ⟨p, m⟩)] = (m.buffer hBuf).octets := by
      simp [written, Put.octets]
    rw [hwritten, hlen, UInt32.toNat_ofNat', UInt32.toNat_zero]
    simp [cutOff]
  · -- nothing is moved when the length is zero
    rename_i hzero
    have h0 : bufferLength (m.buffer hBuf) = 0 := by
      rw [← UInt32.toNat_inj]
      rw [gt_iff_lt, UInt32.lt_iff_toNat_lt] at hzero
      exact Nat.eq_zero_of_not_pos hzero
    rw [h0]
    exact .none p m 0

/-- The loop over the elements of a sequence-of. -/
theorem formatSequenceOf_counts {format : Nat → Memory → Formatter} {strings : Nat → List Octets}
    (h : ∀ base m, Counts 0 (format base m) (strings base)) (elementSize : Nat) (p : Path) :
    ∀ count base m, Counts 0 (formatSequenceOf format elementSize p count base m)
      (stringsOfSequenceOf strings elementSize count base) := by
  intro count
  induction count with
  | zero => exact fun base m => .none p m 0
  | succ count ih =>
    intro base m
    exact (h base m).andThen fun r => (ih (base + elementSize) r.2).add p r.1

mutual

/-- **What the formatter counts** for an element. -/
theorem format_counts (s : Record) : ∀ (e : Element) (p : Path) (base : Nat) (m : Memory),
    Counted (format s e p base m)
      (if (e.info.at base).present s.c then closingTag s.c base (m.tag p) e else 0)
      (strings s.c e base)
  | .integer i, p, base, m => by
    have h := Counts.octets (integerOctets (s.c.uint32 (i.at base).dataOffset)) p m
    rw [integerOctets_length] at h
    exact h.plain
  | .bitString i, p, base, m => by
    have h := Counts.octets (formatBitString ⟨(s.maxLen (i.at base).dataOffset).toNat,
      s.c.string (i.at base).dataOffset⟩ ⟨[], 0⟩).1.octets p m
    rw [formatBitString_length] at h
    exact h.plain
  | .bcdString i, p, base, m =>
    (Counts.octets (intToBcd (s.c.uint32 (i.at base).dataOffset)) p m).plain
  | .octetString i, p, base, m => (Counts.string _ p m).element
  | .sequence i es, p, base, m => (formatElements_counts s es 0 p base m).element
  | .sequenceOf i elementSize e, p, base, m =>
    (formatSequenceOf_counts (fun base m => (format_counts s e (p ++ [0]) base m).counts) elementSize p _ base
      m).element
  | .choice i es, p, base, m => (formatAlternative_counts s es _ 0 _ p base m).element
  | .buffer i, p, base, m => (Counts.buffer (s.hBuf (i.at base).dataOffset) p m).plain
  | .other i, p, base, m => by
    have h : Counts 0 (.stop .programmerError ⟨p, m⟩) [] := fun len m' hend => by cases hend
    exact h.plain

theorem formatElements_counts (s : Record) : ∀ (es : List Element) (k : Nat) (p : Path) (base : Nat)
    (m : Memory), Counts 0 (formatElements s es k p base m) (stringsOfElements s.c es base)
  | [], _, p, _, m => .none p m 0
  | e :: es, k, p, base, m =>
    (formatElements_counts s es (k + 1) p base m).andThen fun r =>
      (format_counts s e (p ++ [k]) base r.2).counts.add p r.1

theorem formatAlternative_counts (s : Record) : ∀ (es : List Element) (n k : Nat) (tag : UInt8)
    (p : Path) (base : Nat) (m : Memory),
    Counts 0 (formatAlternative s es n k tag p base m) (stringsOfAlternative s.c es n base)
  | [], _, _, _, _, _, _ => fun len m' hend => by cases hend
  | e :: _, 0, k, tag, p, base, m => by
    have hall := (format_counts s e (p ++ [k]) base
      (if tag ≠ 0 then m.setTag (p ++ [k]) tag else m)).counts.andThen fun r =>
        Counts.none p (r.2.setTag (p ++ [k]) (m.tag (p ++ [k]))) r.1
    rwa [List.append_nil] at hall
  | _ :: es, n + 1, k, tag, p, base, m => formatAlternative_counts s es n (k + 1) tag p base m

end

/-- **The formatted length** is what the buffer has grown by, and the length octets of the element are
those of its contents, exactly when what is cut off the lengths of its strings makes up a multiple of
2^32. -/
theorem formatted_length (grant : Nat → Bool) (s : Record) (e : Element) (p : Path) (base : Nat)
    (m m' : Memory) (t t' : Target) (len : UInt32)
    (h : asnBerFormat grant s e p base m t = .ok len m' t') :
    (bufferLength t'.buf = bufferLength t.buf + len ↔ 2 ^ 16 ∣ cutOff (strings s.c e base)) ∧
      ((e.info.at base).present s.c → closingTag s.c base (m.tag p) e ≠ 0 →
        ∃ (n : UInt32) (data : Octets),
          t'.buf.octets = closingTag s.c base (m.tag p) e :: lengthOctets n.toNat ++ data ++
            t.buf.octets ∧
          (n = UInt32.ofNat data.length ↔ 2 ^ 16 ∣ cutOff (strings s.c e base))) := by
  obtain ⟨hend, hcalls⟩ := asnBerFormat_ok h
  have hcounted := format_counts s e p base m
  have hoctets := runCalls_octets hcalls
  refine ⟨?_, fun hpresent htag => ?_⟩
  · rw [← hcounted.counts.exact_iff hend, bufferLength, bufferLength, hoctets, List.length_append,
      Nat.add_comm, UInt32.ofNat_add, UInt32.add_right_inj, eq_comm]
  · obtain ⟨n, data, hwritten, hn⟩ := hcounted.enclosed (by rwa [if_pos hpresent]) len m' hend
    refine ⟨n, data, ?_, hn⟩
    rw [hoctets, hwritten, if_pos hpresent]

/-- Nothing is cut off when every string in the PDU has less than 65536 octets. -/
theorem two_pow_dvd_cutOff (h : ∀ string ∈ l, string.length < 2 ^ 16) : 2 ^ 16 ∣ cutOff l := by
  rw [cutOff_eq_zero h]
  exact Nat.dvd_zero _

/-- A sequence of a number and a string. -/
def numberAndString : Element :=
  .sequence { tag := 0x10 } [.integer { tag := 2 }, .octetString { tag := 4, dataOffset := 4 }]

/-- The tags of the sequence, and no pre-formatted buffers. -/
def numberAndStringTags : Memory :=
  ⟨fun p => if p = [] then 0x10 else if p = [0] then 2 else 4, fun _ => ⟨[], 0⟩⟩

/-- A value of the sequence. -/
def fiveAndAb : Record := { c := { uint32 := fun _ => 5, string := fun _ => [0x61, 0x62] } }

/-- The length of a sequence that is formatted. -/
theorem formatted_length_sequence :
    ∃ m t, asnBerFormat (fun _ => true) fiveAndAb numberAndString [] 0 numberAndStringTags
        ⟨Front.alloc 16, 0⟩ = .ok 9 m t ∧
      bufferLength t.buf = bufferLength (Front.alloc 16) + 9 := by
  have hok : ∃ m t, asnBerFormat (fun _ => true) fiveAndAb numberAndString [] 0 numberAndStringTags
      ⟨Front.alloc 16, 0⟩ = .ok 9 m t := ⟨_, _, rfl⟩
  obtain ⟨m, t, hok⟩ := hok
  have hshort : ∀ string ∈ strings fiveAndAb.c numberAndString 0, string.length < 2 ^ 16 := by decide
  exact ⟨m, t, hok, (formatted_length _ _ _ _ _ _ _ _ _ _ hok).1.2 (two_pow_dvd_cutOff hshort)⟩

/-- **A length that is too small**: of a string of 65536 octets none is counted. -/
theorem string_not_counted :
    ∃ m t, asnBerFormat (fun _ => true)
        { c := { string := fun _ => List.replicate (2 ^ 16) 0x61 } } (.octetString { tag := 4 }) [] 0
        ⟨fun _ => 4, fun _ => ⟨[], 0⟩⟩ ⟨Front.alloc 16, 0⟩ = .ok 2 m t ∧
      bufferLength t.buf = 65538 := by
  generalize hstring : List.replicate (2 ^ 16) (0x61 : UInt8) = string
  have hlen : string.length = 2 ^ 16 := by
    rw [← hstring, List.length_replicate]
  have hzero : stringLength string = 0 := by
    rw [stringLength, hlen]
    rfl
  refine ⟨⟨fun _ => 4, fun _ => ⟨[], 0⟩⟩, ⟨⟨[[4, 0], string, []], 126⟩, 2⟩, ?_, ?_⟩
  · have hformat : format { c := { string := fun _ => string } } (.octetString { tag := 4 }) [] 0
        ⟨fun _ => 4, fun _ => ⟨[], 0⟩⟩ =
          (puts [] ⟨fun _ => 4, fun _ => ⟨[], 0⟩⟩ [.chunk string] (stringLength string)).andThen
            (addTag [] 4) := rfl
    unfold asnBerFormat
    rw [hformat, hzero]
    rfl
  · have hall : (⟨[[4, 0], string, []], 126⟩ : Front).octets = 4 :: 0 :: string := by
      simp [Front.octets]
    rw [bufferLength, hall, List.length_cons, List.length_cons, hlen]
    rfl

end Asn.Shared
