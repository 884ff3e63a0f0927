import Mathlib.Data.List.Basic
import Mathlib.Tactic.Common
import Mathlib.Tactic.Ring

/-!
# Memory cells, windows and circular windows

A memory is a function from addresses to cells. `window` reads a run of cells as a
list, `store` writes a list, `moveCells` is `memmove`. `cyclicWindow` reads a run of
cells of a circular buffer of a given size: addresses are taken modulo the size.

The lemmas say how the three meet: what a window sees of a store
(`window_store_self`, `window_store_of_disjoint`), how windows split
(`window_add`, `cyclicWindow_add`), and when a circular window is a plain one
(`cyclicWindow_eq_window`). `LongestRun` is a run of cells with a property that cannot be
longer.
-/

set_option autoImplicit false

namespace SmbProxy.Library

variable {α : Type*}

/-- The `n` cells from `start` on. -/
def window (mem : ℤ → α) (start : ℤ) (n : ℕ) : List α :=
  (List.range n).map fun i : ℕ => mem (start + i)

/-- The memory after writing the list `bs` from `start` on. -/
def store (mem : ℤ → α) (start : ℤ) (bs : List α) : ℤ → α :=
  fun a => if start ≤ a then bs.getD (a - start).toNat (mem a) else mem a

/-- `memmove`: the `n` cells from `src` are copied to `dst`, as if through a
temporary array. -/
def moveCells (mem : ℤ → α) (dst src n : ℤ) : ℤ → α :=
  fun a => if dst ≤ a ∧ a < dst + n then mem (src + (a - dst)) else mem a

/-- The `n` cells from `start` on in a circular buffer of `size` cells. -/
def cyclicWindow (mem : ℤ → α) (size start : ℤ) (n : ℕ) : List α :=
  (List.range n).map fun i : ℕ => mem ((start + i) % size)

/-- A window of `n` cells has `n` values. -/
@[simp] theorem window_length (mem : ℤ → α) (start : ℤ) (n : ℕ) :
    (window mem start n).length = n := by
  simp [window]

/-- No cells have no values. -/
@[simp] theorem window_zero (mem : ℤ → α) (start : ℤ) : window mem start 0 = [] := rfl

/-- The same of a window that goes round. -/
@[simp] theorem cyclicWindow_length (mem : ℤ → α) (size start : ℤ) (n : ℕ) :
    (cyclicWindow mem size start n).length = n := by
  simp [cyclicWindow]

/-- No cells have no values, round or not. -/
@[simp] theorem cyclicWindow_zero (mem : ℤ → α) (size start : ℤ) :
    cyclicWindow mem size start 0 = [] := rfl

/-- The values of a window are those of its cells. -/
@[simp] theorem getElem_window (mem : ℤ → α) (start : ℤ) (n i : ℕ)
    (h : i < (window mem start n).length) : (window mem start n)[i] = mem (start + i) := by
  simp [window]

/-- Memories that agree on the cells of a window have the same window. -/
theorem window_congr {m m' : ℤ → α} {start : ℤ} {n : ℕ}
    (h : ∀ a, start ≤ a → a < start + n → m a = m' a) :
    window m start n = window m' start n := by
  unfold window
  apply List.map_congr_left
  intro i hi
  rw [List.mem_range] at hi
  exact h _ (by omega) (by omega)

/-- A window is one window behind the other. -/
theorem window_add (mem : ℤ → α) (start : ℤ) (m n : ℕ) :
    window mem start (m + n) = window mem start m ++ window mem (start + m) n := by
  unfold window
  rw [List.range_add, List.map_append, List.map_map]
  congr 1
  apply List.map_congr_left
  intro i _
  simp only [Function.comp_apply]
  congr 1
  push_cast
  ring

/-- The beginning of a window is a window. -/
theorem window_take (mem : ℤ → α) (start : ℤ) {m n : ℕ} (h : m ≤ n) :
    (window mem start n).take m = window mem start m := by
  obtain ⟨k, rfl⟩ := Nat.exists_eq_add_of_le h
  rw [window_add, List.take_left' (window_length _ _ _)]

/-- The rest of a window is a window. -/
theorem window_drop (mem : ℤ → α) (start : ℤ) {m n : ℕ} (h : m ≤ n) :
    (window mem start n).drop m = window mem (start + m) (n - m) := by
  obtain ⟨k, rfl⟩ := Nat.exists_eq_add_of_le h
  calc
    (window mem start (m + k)).drop m = window mem (start + m) k := by
      rw [window_add, List.drop_left' (window_length _ _ _)]
    _ = window mem (start + m) (m + k - m) := by rw [Nat.add_sub_cancel_left]

/-- A window through a pointer. -/
theorem window_shift (mem : ℤ → α) (d start : ℤ) (n : ℕ) :
    window (fun i => mem (d + i)) start n = window mem (d + start) n := by
  unfold window
  simp only [add_assoc]

/-- A window that goes round is one such window behind the other. -/
theorem cyclicWindow_add (mem : ℤ → α) (size start : ℤ) (m n : ℕ) :
    cyclicWindow mem size start (m + n) =
      cyclicWindow mem size start m ++ cyclicWindow mem size (start + m) n := by
  unfold cyclicWindow
  rw [List.range_add, List.map_append, List.map_map]
  congr 1
  apply List.map_congr_left
  intro i _
  simp only [Function.comp_apply]
  congr 2
  push_cast
  ring

/-- Where a window starts counts up to whole rounds only. -/
theorem cyclicWindow_emod (mem : ℤ → α) (size start : ℤ) (n : ℕ) :
    cyclicWindow mem size (start % size) n = cyclicWindow mem size start n := by
  unfold cyclicWindow
  simp only [Int.emod_add_emod]

/-- A window that does not come to the end does not go round. -/
theorem cyclicWindow_eq_window (mem : ℤ → α) {size start : ℤ} {n : ℕ}
    (h0 : 0 ≤ start) (h : start + n ≤ size) :
    cyclicWindow mem size start n = window mem start n := by
  unfold cyclicWindow window
  apply List.map_congr_left
  intro i hi
  rw [List.mem_range] at hi
  rw [Int.emod_eq_of_lt (by omega) (by omega)]

/-- Memories that agree on the cells of a window that goes round have the same one. -/
theorem cyclicWindow_congr {m m' : ℤ → α} {size start : ℤ} {n : ℕ}
    (h : ∀ i : ℕ, i < n → m ((start + i) % size) = m' ((start + i) % size)) :
    cyclicWindow m size start n = cyclicWindow m' size start n := by
  unfold cyclicWindow
  apply List.map_congr_left
  intro i hi
  exact h i (List.mem_range.mp hi)

/-- One wrap at most: the residue of an address below twice the size. -/
theorem emod_eq_wrap {a size : ℤ} (h0 : 0 ≤ a) (h : a < 2 * size) :
    a < size ∧ a % size = a ∨ size ≤ a ∧ a % size = a - size := by
  by_cases hlt : a < size
  · exact Or.inl ⟨hlt, Int.emod_eq_of_lt h0 hlt⟩
  · refine Or.inr ⟨not_lt.mp hlt, ?_⟩
    calc
      a % size = (a - size) % size := (Int.sub_emod_right a size).symm
      _ = a - size := Int.emod_eq_of_lt (by omega) (by omega)

/-! ## Runs of cells -/

/-- The `n` cells from `start` on have the property, and no longer run of cells from there
to the end of an array of `size` cells has it. -/
structure LongestRun (P : ℤ → Prop) (size start n : ℤ) : Prop where
  start_nonneg : 0 ≤ start
  nonneg : 0 ≤ n
  inside : start + n ≤ size
  holds : ∀ a, start ≤ a → a < start + n → P a
  longest : ∀ m, start + m ≤ size → (∀ a, start ≤ a → a < start + m → P a) → m ≤ n

/-- A run is the longest one if it ends with the array or before a cell without the
property. -/
theorem LongestRun.of_stop {P : ℤ → Prop} {size start n : ℤ} (hstart : 0 ≤ start) (hn : 0 ≤ n)
    (hinside : start + n ≤ size) (hholds : ∀ a, start ≤ a → a < start + n → P a)
    (hstop : start + n < size → ¬ P (start + n)) : LongestRun P size start n := by
  refine ⟨hstart, hn, hinside, hholds, fun m hm hrun => ?_⟩
  by_contra hlong
  exact hstop (by omega) (hrun (start + n) (by omega) (by omega))

/-! ## Stores -/

/-- In front of where is stored the memory stays. -/
theorem store_of_lt (mem : ℤ → α) {start a : ℤ} (bs : List α) (h : a < start) :
    store mem start bs a = mem a := by
  simp [store, not_le.mpr h]

/-- Behind it the memory stays, too. -/
theorem store_of_ge (mem : ℤ → α) {start a : ℤ} (bs : List α) (h : start + bs.length ≤ a) :
    store mem start bs a = mem a := by
  unfold store
  split
  · rw [List.getD_eq_getElem?_getD, List.getElem?_eq_none (by omega), Option.getD_none]
  · rfl

/-- In between it has what is stored. -/
theorem store_inside (mem : ℤ → α) (start : ℤ) (bs : List α) (i : ℕ) (h : i < bs.length) :
    store mem start bs (start + i) = bs[i] := by
  simp [store, h]

/-- To store nothing changes nothing. -/
@[simp] theorem store_nil (mem : ℤ → α) (start : ℤ) : store mem start [] = mem := by
  funext a
  simp [store]

/-- What is stored is what is then there. -/
theorem window_store_self (mem : ℤ → α) (start : ℤ) (bs : List α) :
    window (store mem start bs) start bs.length = bs := by
  apply List.ext_getElem
  · simp
  · intro i h₁ h₂
    rw [getElem_window, store_inside mem start bs i h₂]

/-- A window that ends before the store, or starts after it, does not see it. -/
theorem window_store_of_disjoint (mem : ℤ → α) {start p : ℤ} {n : ℕ} (bs : List α)
    (h : start + n ≤ p ∨ p + bs.length ≤ start) :
    window (store mem p bs) start n = window mem start n := by
  apply window_congr
  intro a h₁ h₂
  cases h with
  | inl h => exact store_of_lt mem bs (by omega)
  | inr h => exact store_of_ge mem bs (by omega)

end SmbProxy.Library
