import Mathlib.Data.Finset.Card
import Mathlib.Data.Fintype.Pigeonhole
import Mathlib.Tactic.Common

/-!
# Chains of a partial successor function

A linked structure whose node names at most one successor is a partial function
`f : α → Option α`. Following it from `a` either stops or goes on for ever.
`follow f n a` is the node `n` links away, and `Cyclic f a` says that some node
reachable from `a` is reached again from itself.

When every link leads into a finite set `K`, the two ways to go on are one:
a chain of more than `|K|` links has met a node twice (`cyclic_of_long`), and a
cyclic chain never stops (`follow_isSome_of_cyclic`).
-/

set_option autoImplicit false

namespace SmbProxy.Library

variable {α : Type*}

/-- The node `n` links away from `a`, if the chain is that long. -/
def follow (f : α → Option α) : ℕ → α → Option α
  | 0, a => some a
  | n + 1, a => (f a).bind (follow f n)

/-- A node reachable from `a` lies on a cycle. -/
def Cyclic (f : α → Option α) (a : α) : Prop :=
  ∃ n b, follow f n a = some b ∧ ∃ m, 0 < m ∧ follow f m b = some b

/-- No step stays. -/
@[simp] theorem follow_zero (f : α → Option α) (a : α) : follow f 0 a = some a := rfl

/-- One step, and the others. -/
theorem follow_succ (f : α → Option α) (n : ℕ) (a : α) :
    follow f (n + 1) a = (f a).bind (follow f n) := rfl

/-- Some steps, and others behind them. -/
theorem follow_add (f : α → Option α) (m n : ℕ) (a : α) :
    follow f (m + n) a = (follow f m a).bind (follow f n) := by
  induction m generalizing a with
  | zero => simp
  | succ m ih =>
      rw [Nat.add_right_comm, follow_succ, follow_succ]
      cases f a with
      | none => rfl
      | some b => exact ih b

/-- A chain that has ended does not go on. -/
theorem follow_eq_none_of_le (f : α → Option α) {m n : ℕ} (hmn : m ≤ n) {a : α}
    (h : follow f m a = none) : follow f n a = none := by
  obtain ⟨k, rfl⟩ := Nat.exists_eq_add_of_le hmn
  rw [follow_add, h]
  rfl

/-- Behind a step a chain is among the targets. -/
theorem follow_succ_mem (f : α → Option α) (K : Finset α)
    (hK : ∀ a b, f a = some b → b ∈ K) (n : ℕ) {a b : α}
    (h : follow f (n + 1) a = some b) : b ∈ K := by
  rw [follow_add] at h
  cases hc : follow f n a with
  | none => simp [hc] at h
  | some c =>
      rw [hc, Option.bind_some, follow_succ] at h
      cases hd : f c with
      | none => simp [hd] at h
      | some d =>
          simp only [hd, Option.bind_some, follow_zero, Option.some.injEq] at h
          exact h ▸ hK c d hd

/-- **Pigeonhole on a chain.** A chain with more links than there are targets has
come back to a node. -/
theorem cyclic_of_long (f : α → Option α) (K : Finset α)
    (hK : ∀ a b, f a = some b → b ∈ K) (n : ℕ) (hn : K.card < n) (a : α)
    (h : (follow f n a).isSome) : Cyclic f a := by
  have hnode : ∀ i : Fin n, ∃ b, follow f (i + 1) a = some b := by
    intro i
    rw [← Option.isSome_iff_exists]
    by_contra hno
    rw [Bool.not_eq_true, Option.isSome_eq_false_iff, Option.isNone_iff_eq_none] at hno
    rw [follow_eq_none_of_le f i.isLt hno] at h
    cases h
  choose node hnode using hnode
  have hmem : ∀ i ∈ Finset.univ, node i ∈ K :=
    fun i _ => follow_succ_mem f K hK i (hnode i)
  obtain ⟨i, -, j, -, hij, heq⟩ :=
    Finset.exists_ne_map_eq_of_card_lt_of_maps_to (by simpa using hn) hmem
  -- Order the two visits; the later one is a positive number of links after the earlier.
  wlog hlt : (i : ℕ) < j generalizing i j
  · exact this j i hij.symm heq.symm
      (lt_of_le_of_ne (Nat.le_of_not_lt hlt) (fun e => hij (Fin.ext e.symm)))
  refine ⟨i + 1, node i, hnode i, j - i, Nat.sub_pos_of_lt hlt, ?_⟩
  have hlinks : (i : ℕ) + 1 + (j - i) = j + 1 := by omega
  calc
    follow f (j - i) (node i) = (follow f (i + 1) a).bind (follow f (j - i)) := by
      rw [hnode i, Option.bind_some]
    _ = follow f (i + 1 + (j - i)) a := (follow_add ..).symm
    _ = some (node j) := by rw [hlinks, hnode j]
    _ = some (node i) := by rw [heq]

/-- A cycle comes back to where it was, however often. -/
theorem follow_mul_of_cycle (f : α → Option α) {m : ℕ} {b : α}
    (h : follow f m b = some b) (k : ℕ) : follow f (k * m) b = some b := by
  induction k with
  | zero => simp
  | succ k ih => rw [Nat.succ_mul, follow_add, ih, Option.bind_some, h]

/-- A chain that runs into a cycle never stops. -/
theorem follow_isSome_of_cyclic (f : α → Option α) {a : α} (h : Cyclic f a) (n : ℕ) :
    (follow f n a).isSome := by
  obtain ⟨k, b, hk, m, hm, hb⟩ := h
  by_contra hno
  rw [Bool.not_eq_true, Option.isSome_eq_false_iff, Option.isNone_iff_eq_none] at hno
  have hround : follow f (k + n * m) a = some b := by
    rw [follow_add, hk]
    exact follow_mul_of_cycle f hb n
  have hle : n ≤ k + n * m := calc
    n ≤ n * m := Nat.le_mul_of_pos_right n hm
    _ ≤ k + n * m := Nat.le_add_left _ _
  rw [follow_eq_none_of_le f hle hno] at hround
  cases hround

/-- **A chain into a finite set stops iff it meets no cycle**, and then within any
number of links that exceeds the number of targets. -/
theorem follow_eq_none_iff_not_cyclic (f : α → Option α) (K : Finset α)
    (hK : ∀ a b, f a = some b → b ∈ K) {n : ℕ} (hn : K.card < n) (a : α) :
    follow f n a = none ↔ ¬ Cyclic f a := by
  constructor
  · intro h hc
    have := follow_isSome_of_cyclic f hc n
    rw [h] at this
    cases this
  · intro hc
    by_contra hne
    exact hc (cyclic_of_long f K hK n hn a (Option.ne_none_iff_isSome.mp hne))

end SmbProxy.Library
