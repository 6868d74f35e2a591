import Mathlib.Data.List.Basic

/-!
# Pools of elements (`seq.c`)

A pool has its own elements, or takes each one from the heap when it was created with none.
-/

namespace Ocp

/-- The address of an element. -/
abbrev Ptr := ℕ

/-- `SeqPoolInfo`, with the blocks that `SF_memObtain` can still give for its elements. -/
structure SeqPoolInfo where
  nuOfElems : ℕ
  freeList : List Ptr
  memory : List Ptr
  deriving DecidableEq, Repr

/-- What `SEQ_elemObtain` comes to: an element, a null pointer, or the end of the process (`EH_fatal`). -/
inductive Obtained
  | elem (p : Ptr) (pool : SeqPoolInfo)
  | null
  | fatal
  deriving DecidableEq, Repr

namespace SeqPoolInfo

variable {pool pool' : SeqPoolInfo} {p : Ptr}

/-- `SEQ_elemObtain`. -/
def elemObtain (pool : SeqPoolInfo) : Obtained :=
  if pool.nuOfElems = 0 then
    match pool.memory with
    | [] => .fatal
    | p :: memory => .elem p { pool with memory := memory }
  else
    match pool.freeList with
    | [] => .null
    | p :: freeList => .elem p { pool with freeList := freeList }

/-- `SEQ_elemRelease`. -/
def elemRelease (pool : SeqPoolInfo) (p : Ptr) : SeqPoolInfo :=
  if pool.nuOfElems = 0 then { pool with memory := p :: pool.memory }
  else { pool with freeList := pool.freeList ++ [p] }

/-- The elements that the pool has to give. -/
def available (pool : SeqPoolInfo) : List Ptr :=
  if pool.nuOfElems = 0 then pool.memory else pool.freeList

/-- **An element that is obtained** was the first one that the pool had. -/
theorem available_obtain (h : pool.elemObtain = .elem p pool') : pool.available = p :: pool'.available := by
  unfold elemObtain at h
  split at h
  · rename_i hdyn
    split at h
    · cases h
    · rename_i memory hmem
      cases h
      unfold available
      rw [if_pos hdyn, if_pos hdyn, hmem]
  · rename_i hdyn
    split at h
    · cases h
    · rename_i freeList hfree
      cases h
      unfold available
      rw [if_neg hdyn, if_neg hdyn, hfree]

/-- A pool that has elements gives one. -/
theorem obtain_of_available (h : pool.available ≠ []) : ∃ p pool', pool.elemObtain = .elem p pool' := by
  unfold available at h
  unfold elemObtain
  split
  · rename_i hdyn
    rw [if_pos hdyn] at h
    obtain ⟨p, memory, hmem⟩ := List.exists_cons_of_ne_nil h
    rw [hmem]
    exact ⟨p, _, rfl⟩
  · rename_i hdyn
    rw [if_neg hdyn] at h
    obtain ⟨p, freeList, hfree⟩ := List.exists_cons_of_ne_nil h
    rw [hfree]
    exact ⟨p, _, rfl⟩

/-- **An element that is released** can be obtained again. -/
theorem available_release : ((pool.elemRelease p).available).Perm (p :: pool.available) := by
  unfold elemRelease available
  split
  · exact List.Perm.refl _
  · exact List.perm_append_singleton p pool.freeList

theorem obtain_ne (h : pool.elemObtain = .elem p pool') : pool' ≠ pool := by
  rintro rfl
  exact absurd (available_obtain h).symm (List.cons_ne_self p _)

end SeqPoolInfo

end Ocp
