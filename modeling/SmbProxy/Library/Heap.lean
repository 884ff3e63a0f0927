import Mathlib.Data.List.Perm.Basic
import Mathlib.Tactic.Common

/-!
# The heap as a ledger

What a program owes for the blocks it allocates: every block is freed once. A block is named
by the number of the `malloc` call it comes from, so that no name is used again; which calls
succeed is the environment's choice `ok`. `Returned` says that a stretch of the program has
given back what it has obtained, and nothing else.
-/

set_option autoImplicit false

namespace SmbProxy.Library

/-- The calls of `malloc` so far, the blocks they have returned and the blocks that have been
passed to `free`, the latest first. -/
structure Heap where
  calls : ℕ
  obtained : List ℕ
  freed : List ℕ

namespace Heap

/-- No call has been made. -/
def init : Heap := ⟨0, [], []⟩

/-- `malloc`: the block, or nothing, and the heap. -/
def malloc (ok : ℕ → Bool) (heap : Heap) : Option ℕ × Heap :=
  if ok heap.calls then
    (some heap.calls, ⟨heap.calls + 1, heap.calls :: heap.obtained, heap.freed⟩)
  else (none, ⟨heap.calls + 1, heap.obtained, heap.freed⟩)

/-- `free`. -/
def free (block : ℕ) (heap : Heap) : Heap := { heap with freed := block :: heap.freed }

/-- The blocks are named by the calls that have been made. -/
structure WellFormed (heap : Heap) : Prop where
  obtained_lt : ∀ block ∈ heap.obtained, block < heap.calls
  obtained_nodup : heap.obtained.Nodup
  freed_lt : ∀ block ∈ heap.freed, block < heap.calls

/-- The block has been obtained and not been freed. -/
def Owned (heap : Heap) (block : ℕ) : Prop := block ∈ heap.obtained ∧ block ∉ heap.freed

/-- From one heap to the other every block that has been obtained has been freed, once, and
no other block has. -/
def Returned (heap heap' : Heap) : Prop :=
  ∃ got back, heap'.obtained = got ++ heap.obtained ∧ heap'.freed = back ++ heap.freed ∧
    back.Perm got ∧ back.Nodup

/-- At the beginning nothing has been obtained. -/
theorem wellFormed_init : init.WellFormed :=
  ⟨fun _ h => absurd h List.not_mem_nil, List.nodup_nil, fun _ h => absurd h List.not_mem_nil⟩

variable {ok : ℕ → Bool} {heap : Heap}

/-- A `malloc` that succeeds gives a new block. -/
theorem malloc_of_ok (h : ok heap.calls = true) :
    heap.malloc ok =
      (some heap.calls, ⟨heap.calls + 1, heap.calls :: heap.obtained, heap.freed⟩) := if_pos h

/-- One that fails gives none. -/
theorem malloc_of_not_ok (h : ok heap.calls = false) :
    heap.malloc ok = (none, ⟨heap.calls + 1, heap.obtained, heap.freed⟩) :=
  if_neg (by simp [h])

/-- Blocks stay different from one another. -/
theorem wellFormed_malloc (h : heap.WellFormed) : (heap.malloc ok).2.WellFormed := by
  cases hok : ok heap.calls with
  | false =>
      rw [malloc_of_not_ok hok]
      refine ⟨fun block hblock => ?_, h.obtained_nodup, fun block hblock => ?_⟩
      · exact Nat.lt_succ_of_lt (h.obtained_lt block hblock)
      · exact Nat.lt_succ_of_lt (h.freed_lt block hblock)
  | true =>
      rw [malloc_of_ok hok]
      refine ⟨fun block hblock => ?_, ?_, fun block hblock => ?_⟩
      · cases hblock with
        | head => exact Nat.lt_succ_self _
        | tail _ hmem => exact Nat.lt_succ_of_lt (h.obtained_lt block hmem)
      · exact List.nodup_cons.mpr
          ⟨fun hmem => absurd (h.obtained_lt _ hmem) (Nat.lt_irrefl _), h.obtained_nodup⟩
      · exact Nat.lt_succ_of_lt (h.freed_lt block hblock)

/-- To free exactly what has been obtained is to give it back. -/
theorem returned_of_freed {start heap heap' : Heap} {got back : List ℕ} (hwf : heap.WellFormed)
    (hgot : heap.obtained = got ++ start.obtained) (hfreed : heap.freed = start.freed)
    (hobtained : heap'.obtained = heap.obtained) (hcalls : heap'.calls = heap.calls)
    (hback : heap'.freed = back ++ heap.freed) (hperm : back.Perm got) :
    heap'.WellFormed ∧ start.Returned heap' := by
  have hnodup : got.Nodup := by
    have hall := hwf.obtained_nodup
    rw [hgot] at hall
    exact (List.nodup_append.mp hall).1
  refine ⟨⟨?_, ?_, fun block hmem => ?_⟩,
    got, back, hobtained.trans hgot, by rw [hback, hfreed], hperm, hperm.nodup_iff.mpr hnodup⟩
  · rw [hobtained, hcalls]
    exact hwf.obtained_lt
  · rw [hobtained]
    exact hwf.obtained_nodup
  · rw [hcalls]
    rw [hback] at hmem
    rcases List.mem_append.mp hmem with hnew | hold
    · apply hwf.obtained_lt
      rw [hgot]
      exact List.mem_append_left _ (hperm.subset hnew)
    · exact hwf.freed_lt block hold

end Heap

end SmbProxy.Library
