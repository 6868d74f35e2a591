import Emsd.Mm.Agent

/-!
# Lists of names (`mm_/hosted/agent.c`)

The functions that list names count their octets in one loop and copy them in another;
`MM_agentProcessEvent` looks for the end in a third. They agree on how long a list is, but not on how
much of it is the extra null at its end: the length is one too many, and the block one too short for a
list without names.

* `getNameList_octets`: what is in the block.
* `listLength_eq`: the length that is sent.
* `nameLists_iff`: **the writes stay in the block exactly where there is a name; the length is never that
  of the list; and the manager finds the names exactly where it fits 16 bits.**
* `nameLists_none`: a list without names.
-/

namespace Mm

open Ocp

/-- A block of `OS_alloc` and where it has been written to. -/
structure Block where
  size : ℕ
  /-- What is in memory from its first octet on, as far as the functions write and read. -/
  octets : Octets
  written : List ℕ := []
  deriving DecidableEq, Repr

/-- The first loop: how many octets the names take. -/
def nBytes (names : List ZString) : ℕ := (names.map fun pName => pName.1.length + 1).sum

/-- `strlen` of the string at an offset. -/
def strlen (octets : Octets) (k : ℕ) : ℕ := ((octets.drop k).takeWhile (· ≠ 0)).length

namespace Block

def put (b : Block) (k : ℕ) (v : UInt8) : Block :=
  { b with octets := b.octets.set k v, written := b.written ++ [k] }

def puts (b : Block) (k : ℕ) : Octets → Block
  | [] => b
  | v :: vs => (b.put k v).puts (k + 1) vs

/-- The second loop: each name is copied with its terminator. -/
def copyNames (b : Block) (pBuf : ℕ) : List ZString → Block × ℕ
  | [] => (b, pBuf)
  | pName :: names =>
    let b := b.puts pBuf (pName.1 ++ [0])
    b.copyNames (pBuf + (strlen b.octets pBuf + 1)) names

/-- The third loop: over the names up to an empty one. Each step goes at least one octet on. -/
def scan (b : Block) : ℕ → ℕ → ℕ
  | 0, p => p
  | fuel + 1, p =>
    if b.octets.getD p 0 = 0 then p else b.scan fuel (p + (strlen b.octets p + 1))

/-- The length that is given to `STR_attachString`. -/
def len (b : Block) : ℕ := b.scan b.octets.length 0 + 2

/-- `STR_getStringLength` of the list. -/
def listLength (b : Block) : ℕ :=
  let len := b.len % 2 ^ 16
  if len = lenZString then strlen b.octets 0 % 2 ^ 16 else len

/-- The octets that the manager gets. -/
def received (b : Block) : Octets := b.octets.take b.listLength

/-- Nothing has been written outside of the block. -/
def Inside (b : Block) : Prop := ∀ k ∈ b.written, k < b.size

instance (b : Block) : Decidable b.Inside := inferInstanceAs (Decidable (∀ _ ∈ _, _))

end Block

/-- The block before the names are copied: there is nothing in it yet. -/
def startBlock (left : ℕ → UInt8) (names : List ZString) : Block :=
  let b : Block := { size := nBytes names + 1, octets := (List.range (nBytes names + 2)).map left }
  (b.put 1 0).put 0 0

/-- The part that `getApplicationEntityInstanceList`, `getModuleList`, `getManagableObjectList` and
`getDestinationList` share, with what is left in memory from the block on. There is no result where an
`int` does not hold the count. -/
def getNameList (left : ℕ → UInt8) (names : List ZString) : Option Block :=
  if nBytes names + 1 < 2 ^ 31 then
    let r := (startBlock left names).copyNames 0 names
    some (r.1.put r.2 0)
  else none

/-- The manager's scan of a list, in `test_m.c`: the names, each up to its null, and an empty one at the
end. There is no result where it reads on behind what it has got. -/
def readNames (pStart : Octets) : Octets → Option (List Octets)
  | [] => none
  | c :: list =>
    if c = 0 then if pStart = [] then some [] else (readNames [] list).map (pStart :: ·)
    else readNames (pStart ++ [c]) list

/-- A request for a list. -/
inductive ListRequest
  | getApplicationEntityList
  | getModuleList (a : ZString)
  | getManagableObjectList (a m : ZString)
  | getDestinationList (a : ZString)
  deriving DecidableEq, Repr

/-- The names that are registered, in order. -/
def ListRequest.names (s : State) : ListRequest → Except ReturnCode (List ZString)
  | getApplicationEntityList => .ok (getApplicationEntityInstanceList s)
  | getModuleList a => Mm.getModuleList s a
  | getManagableObjectList a m => Mm.getManagableObjectList s a m
  | getDestinationList a => Mm.getDestinationList s a

/-- The operation of a request, and its names. -/
def ListRequest.op : ListRequest → RemOp
  | getApplicationEntityList => .getApplicationEntityList
  | getModuleList _ => .getModuleList
  | getManagableObjectList _ _ => .getManagableObjectList
  | getDestinationList _ => .getDestinationList

def ListRequest.request : ListRequest → Protocol
  | getApplicationEntityList => {}
  | getModuleList a | getDestinationList a => { hApplicationEntityInstanceName := some a.1 }
  | getManagableObjectList a m =>
    { hApplicationEntityInstanceName := some a.1, hModuleName := some m.1 }

/-! ## The block -/

/-- The names with their terminators. -/
def terminated (names : List ZString) : Octets := names.flatMap fun pName => pName.1 ++ [0]

theorem terminated_length (names : List ZString) : (terminated names).length = nBytes names := by
  unfold terminated nBytes
  rw [List.length_flatMap]
  simp only [List.length_append, List.length_singleton]

theorem terminated_cons (pName : ZString) (names : List ZString) :
    terminated (pName :: names) = pName.1 ++ [0] ++ terminated names := rfl

theorem nBytes_cons (pName : ZString) (names : List ZString) :
    nBytes (pName :: names) = pName.1.length + 1 + nBytes names := rfl

/-- The string before a null. -/
theorem strlen_append (before : Octets) (pName : ZString) (after : Octets) :
    strlen (before ++ (pName.1 ++ 0 :: after)) before.length = pName.1.length := by
  have hall : ∀ c ∈ pName.1, decide (c ≠ 0) = true := by
    intro c hc
    have hne : c ≠ 0 := fun h0 => pName.2 (h0 ▸ hc)
    exact decide_eq_true hne
  unfold strlen
  rw [List.drop_left, List.takeWhile_append_of_pos hall, List.takeWhile_cons_of_neg (by simp),
    List.append_nil]

namespace Block

variable {b : Block} {before after octets : Octets} {k : ℕ}

/-- Octets that are put behind what is there. -/
theorem puts_spec (vs : Octets) (ho : b.octets = before ++ after) (hlen : vs.length ≤ after.length) :
    (b.puts before.length vs).octets = before ++ (vs ++ after.drop vs.length) ∧
      (b.puts before.length vs).written = b.written ++ List.range' before.length vs.length ∧
      (b.puts before.length vs).size = b.size := by
  induction vs generalizing b before after with
  | nil =>
    unfold puts
    rw [ho]
    exact ⟨rfl, (List.append_nil _).symm, rfl⟩
  | cons v vs ih =>
    obtain ⟨c, after, rfl⟩ := List.exists_cons_of_length_pos (Nat.lt_of_lt_of_le (Nat.succ_pos _) hlen)
    have hput : (b.put before.length v).octets = (before ++ [v]) ++ after := by
      unfold put
      dsimp only
      rw [ho, List.set_append_right _ _ (Nat.le_refl _), Nat.sub_self, List.set_cons_zero,
        List.append_assoc]
      rfl
    have hnext : before.length + 1 = (before ++ [v]).length := by simp
    obtain ⟨hoctets, hwritten, hsize⟩ := ih hput (Nat.le_of_succ_le_succ hlen)
    unfold puts
    rw [hnext, hoctets, hwritten, hsize]
    refine ⟨?_, ?_, rfl⟩
    · rw [List.append_assoc]
      rfl
    · unfold put
      dsimp only
      rw [List.append_assoc, ← hnext]
      rfl

/-- **The second loop.** -/
theorem copyNames_spec (before : Octets) (names : List ZString) (ho : b.octets = before ++ after)
    (hlen : nBytes names ≤ after.length) :
    (b.copyNames before.length names).1.octets =
        before ++ (terminated names ++ after.drop (nBytes names)) ∧
      (b.copyNames before.length names).1.written =
        b.written ++ List.range' before.length (nBytes names) ∧
      (b.copyNames before.length names).1.size = b.size ∧
      (b.copyNames before.length names).2 = before.length + nBytes names := by
  induction names generalizing b before after with
  | nil =>
    unfold copyNames
    rw [ho]
    exact ⟨rfl, (List.append_nil _).symm, rfl, rfl⟩
  | cons pName names ih =>
    rw [nBytes_cons] at hlen ⊢
    have hlength : (pName.1 ++ [0]).length = pName.1.length + 1 := by simp
    obtain ⟨hoctets, hwritten, hsize⟩ := puts_spec (pName.1 ++ [0]) ho (by rw [hlength]; omega)
    rw [hlength] at hoctets hwritten
    unfold copyNames
    dsimp only
    generalize b.puts before.length (pName.1 ++ [0]) = b' at hoctets hwritten hsize
    have hstrlen : strlen b'.octets before.length = pName.1.length := by
      rw [hoctets, List.append_assoc]
      exact strlen_append before pName _
    have hnext : before.length + (strlen b'.octets before.length + 1) =
        (before ++ (pName.1 ++ [0])).length := by
      rw [hstrlen, List.length_append, hlength]
    have ho' : b'.octets = (before ++ (pName.1 ++ [0])) ++ after.drop (pName.1.length + 1) := by
      rw [hoctets]
      exact (List.append_assoc _ _ _).symm
    obtain ⟨hoctets', hwritten', hsize', hend⟩ := ih _ ho' (by rw [List.length_drop]; omega)
    rw [hnext, hoctets', hwritten', hsize', hend, terminated_cons, hwritten, hsize]
    refine ⟨?_, ?_, rfl, ?_⟩
    · rw [List.drop_drop]
      simp only [List.append_assoc]
    · rw [List.append_assoc, List.length_append, hlength, List.range'_append_1]
    · rw [List.length_append, hlength]
      omega

/-- **The third loop** stops at the extra null, when no name is empty. -/
theorem scan_spec (before : Octets) (names : List ZString) (hn : ∀ pName ∈ names, pName ≠ .empty)
    (fuel : ℕ) (hfuel : names.length < fuel) (ho : b.octets = before ++ (terminated names ++ 0 :: after)) :
    b.scan fuel before.length = before.length + nBytes names := by
  induction names generalizing before fuel with
  | nil =>
    obtain ⟨fuel, rfl⟩ := Nat.exists_eq_succ_of_ne_zero (Nat.ne_of_gt hfuel)
    have hzero : b.octets.getD before.length 0 = 0 := by
      rw [ho]
      simp [terminated]
    unfold scan
    rw [if_pos hzero]
    rfl
  | cons pName names ih =>
    obtain ⟨fuel, rfl⟩ := Nat.exists_eq_succ_of_ne_zero (Nat.ne_of_gt (Nat.zero_lt_of_lt hfuel))
    obtain ⟨hfirst, hrest⟩ := List.forall_mem_cons.1 hn
    have ho' : b.octets = before ++ (pName.1 ++ 0 :: (terminated names ++ 0 :: after)) := by
      rw [ho, terminated_cons]
      simp only [List.append_assoc, List.cons_append, List.nil_append]
    have hstrlen : strlen b.octets before.length = pName.1.length := by
      rw [ho']
      exact strlen_append before pName _
    have hne : b.octets.getD before.length 0 ≠ 0 := by
      -- it is the first octet of the name
      match hs : pName.1 with
      | [] => exact absurd (Subtype.ext hs) hfirst
      | c :: cs =>
        rw [ho', hs]
        have hc : c ≠ 0 := fun h0 => pName.2 (by rw [hs, h0]; exact List.mem_cons_self)
        simpa using hc
    have hnext : before.length + (strlen b.octets before.length + 1) =
        (before ++ (pName.1 ++ [0])).length := by
      rw [hstrlen]
      simp
    unfold scan
    rw [if_neg hne, hnext, ih _ hrest fuel (Nat.lt_of_succ_lt_succ hfuel), nBytes_cons]
    · simp only [List.length_append, List.length_singleton]
      omega
    · rw [ho']
      simp only [List.append_assoc, List.singleton_append]

end Block

section List

variable {left : ℕ → UInt8} {names : List ZString} {b : Block}

/-- What is behind the block: without names it has been written to. -/
def behind (left : ℕ → UInt8) (names : List ZString) : UInt8 :=
  if names = [] then 0 else left (nBytes names + 1)

theorem nBytes_pos : 0 < nBytes names ↔ names ≠ [] := by
  cases names with
  | nil => exact ⟨fun h => absurd h (Nat.lt_irrefl 0), fun h => absurd rfl h⟩
  | cons pName names =>
    rw [nBytes_cons]
    exact ⟨fun _ => List.cons_ne_nil _ _, fun _ => by omega⟩

/-- It ends with the octet behind it. -/
theorem startBlock_drop (left : ℕ → UInt8) (names : List ZString) :
    ∃ x, (startBlock left names).octets.drop (nBytes names) = [x, behind left names] := by
  have hlength : ((startBlock left names).octets.drop (nBytes names)).length = 2 := by
    rw [List.length_drop]
    unfold startBlock Block.put
    simp
  obtain ⟨x, y, hxy⟩ := List.length_eq_two.1 hlength
  have hget : (startBlock left names).octets[nBytes names + 1]? = some y := by
    rw [← List.getElem?_drop, hxy]
    rfl
  refine ⟨x, ?_⟩
  rw [hxy]
  unfold startBlock Block.put at hget
  dsimp only at hget
  unfold behind
  by_cases hnil : names = []
  · subst hnil
    rw [if_pos rfl]
    have hzero : (0 : UInt8) = y := by simpa [nBytes] using hget
    rw [hzero]
  · have hpos := nBytes_pos.2 hnil
    rw [List.getElem?_set_ne (by omega), List.getElem?_set_ne (by omega)] at hget
    rw [if_neg hnil]
    have hleft : left (nBytes names + 1) = y := by simpa using hget
    rw [hleft]

/-- **What is in the block**, and where it has been written to. -/
theorem getNameList_octets (hb : getNameList left names = some b) :
    b.octets = terminated names ++ [0, behind left names] ∧ b.size = nBytes names + 1 ∧
      b.written = [1, 0] ++ List.range' 0 (nBytes names) ++ [nBytes names] := by
  unfold getNameList at hb
  split at hb
  · obtain ⟨x, hdrop⟩ := startBlock_drop left names
    have hlength : nBytes names ≤ (startBlock left names).octets.length := by
      unfold startBlock Block.put
      simp
    obtain ⟨hoctets, hwritten, hsize, hend⟩ := Block.copyNames_spec [] names rfl hlength
    rw [List.length_nil] at hoctets hwritten hsize hend
    rw [hdrop, List.nil_append] at hoctets
    rw [Nat.zero_add] at hend
    obtain rfl := Option.some.inj hb
    unfold Block.put
    dsimp only
    rw [hoctets, hwritten, hsize, hend]
    refine ⟨?_, rfl, rfl⟩
    -- the extra null is the last octet of the block
    rw [← terminated_length names, List.set_append_right _ _ (Nat.le_refl _), Nat.sub_self]
    rfl
  · cases hb

/-! ## The length and what is sent -/

theorem length_le_nBytes (names : List ZString) : names.length ≤ nBytes names := by
  induction names with
  | nil => exact Nat.zero_le _
  | cons pName names ih =>
    rw [nBytes_cons, List.length_cons]
    omega

/-- **The length that is given to `STR_attachString`** is one more than the list has. -/
theorem len_eq (hn : ∀ pName ∈ names, pName ≠ .empty) (hb : getNameList left names = some b) :
    b.len = nBytes names + 2 := by
  obtain ⟨hoctets, -⟩ := getNameList_octets hb
  have hlength : b.octets.length = nBytes names + 2 := by
    rw [hoctets, List.length_append, terminated_length]
    rfl
  have hscan := Block.scan_spec [] names hn b.octets.length
    (by rw [hlength]; exact Nat.lt_of_le_of_lt (length_le_nBytes names) (by omega)) hoctets
  unfold Block.len
  rw [List.length_nil, Nat.zero_add] at hscan
  rw [hscan]

/-- The first string of the list is a name, or is empty. -/
theorem strlen_first (hb : getNameList left names = some b) : strlen b.octets 0 ≤ nBytes names := by
  obtain ⟨hoctets, -⟩ := getNameList_octets hb
  rw [hoctets]
  cases names with
  | nil => simp [strlen, terminated]
  | cons pName names =>
    have hfirst : strlen (terminated (pName :: names) ++ [0, behind left (pName :: names)]) 0 =
        pName.1.length := by
      rw [terminated_cons]
      simp only [List.append_assoc, List.cons_append, List.nil_append]
      exact strlen_append [] pName _
    rw [hfirst, nBytes_cons]
    omega

/-- **The length of the list**, as far as it fits. -/
theorem listLength_eq (hn : ∀ pName ∈ names, pName ≠ .empty) (hb : getNameList left names = some b) :
    nBytes names + 2 < lenZString ∧ b.listLength = nBytes names + 2 ∨
      lenZString ≤ nBytes names + 2 ∧ b.listLength ≤ nBytes names := by
  have hlen := len_eq hn hb
  have hfirst := strlen_first hb
  have hz : lenZString = 2 ^ 16 - 1 := rfl
  have hmod := Nat.mod_le (strlen b.octets 0) (2 ^ 16)
  unfold Block.listLength
  dsimp only
  rw [hlen, hz]
  by_cases hlt : nBytes names + 2 < 2 ^ 16 - 1
  · left
    rw [Nat.mod_eq_of_lt (by omega), if_neg (by omega)]
    exact ⟨hlt, rfl⟩
  · right
    refine ⟨Nat.not_lt.1 hlt, ?_⟩
    split
    · exact hmod.trans hfirst
    · -- a round of 16 bits is missing
      rename_i hne
      have hdiv := Nat.div_add_mod (nBytes names + 2) (2 ^ 16)
      have hbound := Nat.mod_lt (nBytes names + 2) (show 2 ^ 16 > 0 by decide)
      have hround : 1 ≤ (nBytes names + 2) / 2 ^ 16 := by
        by_contra hnone
        have hzero : (nBytes names + 2) / 2 ^ 16 = 0 := by omega
        rw [hzero] at hdiv
        omega
      omega

/-! ## What the manager finds -/

/-- A name is read up to its null. -/
theorem readNames_append (pStart name : Octets) (hname : 0 ∉ name) (list : Octets) :
    readNames pStart (name ++ list) = readNames (pStart ++ name) list := by
  induction name generalizing pStart with
  | nil => rw [List.nil_append, List.append_nil]
  | cons c name ih =>
    have hc : c ≠ 0 := fun h0 => hname (h0 ▸ List.mem_cons_self)
    have hrest : 0 ∉ name := fun hmem => hname (List.mem_cons_of_mem c hmem)
    rw [List.cons_append, readNames, if_neg hc, ih _ hrest, List.append_assoc]
    rfl

/-- **The names are read back.** -/
theorem readNames_terminated (names : List ZString) (hn : ∀ pName ∈ names, pName ≠ .empty)
    (list : Octets) : readNames [] (terminated names ++ 0 :: list) = some (names.map (·.1)) := by
  induction names with
  | nil => rfl
  | cons pName names ih =>
    obtain ⟨hfirst, hrest⟩ := List.forall_mem_cons.1 hn
    have hne : pName.1 ≠ [] := fun h => hfirst (Subtype.ext h)
    rw [terminated_cons, List.append_assoc, List.append_assoc, readNames_append [] pName.1 pName.2,
      List.nil_append, List.singleton_append, readNames, if_pos rfl, if_neg hne, ih hrest]
    rfl

/-- What is read takes its room. -/
theorem readNames_length {pStart list : Octets} {found : List Octets}
    (h : readNames pStart list = some found) :
    (found.map fun name => name.length + 1).sum + 1 ≤ pStart.length + list.length := by
  induction list generalizing pStart found with
  | nil => cases h
  | cons c list ih =>
    rw [readNames] at h
    split at h
    · split at h
      · cases h
        rw [List.map_nil, List.sum_nil, List.length_cons]
        omega
      · obtain ⟨rest, hrest, rfl⟩ := Option.map_eq_some_iff.1 h
        have hle := ih hrest
        rw [List.length_nil] at hle
        rw [List.map_cons, List.sum_cons, List.length_cons]
        omega
    · have hle := ih h
      rw [List.length_append, List.length_singleton] at hle
      rw [List.length_cons]
      omega

/-! ## The requests -/

theorem ofOctets_val (z : ZString) : ZString.ofOctets z.1 = z := by
  have hpos : ∀ c ∈ z.1, decide (c ≠ 0) = true := by
    intro c hc
    have hne : c ≠ 0 := fun h0 => z.2 (h0 ▸ hc)
    exact decide_eq_true hne
  exact Subtype.ext (List.takeWhile_eq_self_iff.2 hpos)

/-- The octets that the agent sends are those that the loops leave. -/
theorem listOctets_eq {env : Env} (hn : ∀ pName ∈ names, pName ≠ .empty)
    (hb : getNameList left names = some b) (henv : env.behind = behind left names) :
    listOctets env names = b.received := by
  obtain ⟨hoctets, -⟩ := getNameList_octets hb
  have hall : names.takeWhile (fun pName => decide (pName.1 ≠ [])) = names := by
    refine List.takeWhile_eq_self_iff.2 fun pName hmem => decide_eq_true fun h => ?_
    exact hn pName hmem (Subtype.ext h)
  unfold listOctets
  rw [hall, henv]
  change (terminated names ++ [0, behind left names]).take
    (attachedLength (terminated names ++ [0, behind left names])) = _
  rw [← hoctets]
  have hlength : b.octets.length = b.len := by
    rw [len_eq hn hb, hoctets, List.length_append, terminated_length]
    rfl
  unfold Block.received Block.listLength attachedLength strlen
  rw [hlength]
  rfl

/-- **A request for a list** is answered with what the loops leave. -/
theorem execute_list {env : Env} {s : State} {r : ListRequest} (hr : r.names s = .ok names)
    (hn : ∀ pName ∈ names, pName ≠ .empty) (hb : getNameList left names = some b)
    (hnames : env.names = true) (hlist : env.list = true) (hattach : env.attach = true)
    (henv : env.behind = behind left names) :
    execute env s r.op r.request = some { state := s, reply := .ok { hString := some b.received } } := by
  have hcopy : ∀ z : ZString, copyName env (some z.1) = some z := by
    intro z
    unfold copyName
    rw [if_pos hnames]
    exact congrArg some (ofOctets_val z)
  have hexec : execute env s r.op r.request = some (agentList env s (r.names s)) := by
    cases r with
    | getApplicationEntityList => rfl
    | getModuleList a =>
      unfold execute ListRequest.op ListRequest.request
      dsimp only
      rw [hcopy]
      rfl
    | getManagableObjectList a m =>
      unfold execute ListRequest.op ListRequest.request
      dsimp only
      rw [hcopy, hcopy]
      rfl
    | getDestinationList a =>
      unfold execute ListRequest.op ListRequest.request
      dsimp only
      rw [hcopy]
      rfl
  rw [hexec, hr, ← listOctets_eq hn hb henv]
  unfold agentList attach
  simp only [Except.bind, hlist, hattach, Bool.true_eq_false, if_false, if_true]

/-- **The lists of names.** The agent sends what the loops leave: the writes stay in the block exactly
where there is a name; the length is never that of the list; and the manager finds the names exactly
where their length fits. -/
theorem nameLists_iff {env : Env} {s : State} {r : ListRequest} (hr : r.names s = .ok names)
    (hn : ∀ pName ∈ names, pName ≠ .empty) (hb : getNameList left names = some b)
    (hnames : env.names = true) (hlist : env.list = true) (hattach : env.attach = true)
    (henv : env.behind = behind left names) :
    execute env s r.op r.request =
        some { state := s, reply := .ok { hString := some b.received } } ∧
      (b.Inside ↔ names ≠ []) ∧ b.listLength ≠ (terminated names ++ [0]).length ∧
      (readNames [] b.received = some (names.map (·.1)) ↔ nBytes names + 2 < lenZString) := by
  obtain ⟨hoctets, hsize, hwritten⟩ := getNameList_octets hb
  have hlength := listLength_eq hn hb
  refine ⟨execute_list hr hn hb hnames hlist hattach henv, ?_, ?_, ?_⟩
  · rw [← nBytes_pos]
    unfold Block.Inside
    rw [hwritten, hsize]
    constructor
    · intro h
      have hone := h 1 (by simp)
      omega
    · intro hpos k hk
      rcases List.mem_append.1 hk with hk | hk
      · rcases List.mem_append.1 hk with hk | hk
        · have hle : k ≤ 1 := by
            rcases List.mem_cons.1 hk with rfl | hk
            · exact Nat.le_refl 1
            · rw [List.mem_singleton.1 hk]
              exact Nat.zero_le 1
          omega
        · obtain ⟨-, hlt⟩ := List.mem_range'_1.1 hk
          omega
      · rw [List.mem_singleton.1 hk]
        exact Nat.lt_succ_self _
  · rw [List.length_append, terminated_length, List.length_singleton]
    rcases hlength with ⟨-, heq⟩ | ⟨-, hle⟩
    · omega
    · omega
  · have hreceived : b.received = (terminated names ++ [0, behind left names]).take b.listLength := by
      unfold Block.received
      rw [hoctets]
    constructor
    · intro h
      -- a list that is cut has no room for all of the names
      have hroom := readNames_length h
      rw [List.map_map, List.length_nil, hreceived] at hroom
      have hcut := List.length_take_le b.listLength (terminated names ++ [0, behind left names])
      have htotal : ((names.map ((fun name => name.length + 1) ∘ fun pName => pName.1)).sum) =
          nBytes names := rfl
      rcases hlength with ⟨hlt, -⟩ | ⟨-, hle⟩
      · exact hlt
      · omega
    · intro hlt
      have heq : b.listLength = nBytes names + 2 := by
        rcases hlength with ⟨-, heq⟩ | ⟨hge, -⟩
        · exact heq
        · exact absurd hlt (Nat.not_lt.2 hge)
      rw [hreceived, heq, List.take_of_length_le]
      · exact readNames_terminated names hn _
      · rw [List.length_append, terminated_length]
        exact Nat.le_refl _

/-! ## A program with one name -/

/-- An application entity that has registered no module. -/
def oneEntity : State := { applicationEntityInstances := [.ofOctets [97]] }

theorem nameLists_iff_one : ∃ b, getNameList (fun _ => 7) [.ofOctets [97]] = some b ∧
    b.received = [97, 0, 0, 7] ∧ b.Inside ∧ b.listLength ≠ 3 ∧
    readNames [] b.received = some [[97]] := by
  obtain ⟨b, hb, hreceived⟩ : ∃ b, getNameList (fun _ => 7) [.ofOctets [97]] = some b ∧
      b.received = [97, 0, 0, 7] := ⟨_, rfl, by decide⟩
  obtain ⟨-, hinside, hlength, hfound⟩ := nameLists_iff (s := oneEntity)
    (r := .getApplicationEntityList) rfl (by decide) hb (rfl : ({ behind := 7 } : Env).names = true) rfl
    rfl rfl
  exact ⟨b, hb, hreceived, hinside.2 (by decide), hlength, hfound.2 (by decide)⟩

/-- **A list without names**: the block has one octet and two are written; the length is two. -/
theorem nameLists_none :
    (ListRequest.getModuleList (.ofOctets [97])).names oneEntity = .ok [] ∧
    ∃ b, getNameList (fun _ => 7) [] = some b ∧ b.size = 1 ∧ b.written = [1, 0, 0] ∧ ¬b.Inside ∧
      b.listLength = 2 ∧ (terminated [] ++ [0]).length = 1 :=
  ⟨rfl, _, rfl, by decide, by decide, by decide, by decide, by decide⟩

end List

end Mm
