import Mathlib.Logic.Relation
import Mathlib.Tactic.Common

/-!
# Loops with a trace

One pass through the body of a loop emits events and then either comes back to the
loop head with a new state or leaves the loop with a value (`Pass`). `loop body n`
runs at most `n` passes; it is how an unbounded `do … while` with `return`s in its
body is read: the loop *finishes within* `n` passes when `loop body n` has left it.

The rules a proof uses are `loop_invariant` (what every head satisfies),
`mem_loop_events_iff` (every event belongs to one pass from a reachable head),
`finishes_of_measure` (a measure that decreases at every head bounds the passes),
`not_finishes_of_invariant` (what every pass comes back with keeps the loop going) and
`while_rule` for plain `while` loops.
-/

set_option autoImplicit false

namespace SmbProxy.Library

/-- What one pass does: the events it emits and where control goes afterwards, to
the loop head in a new state or out of the loop with a value. -/
structure Pass (σ ε ρ : Type*) where
  events : List ε
  next : σ ⊕ ρ

section Traced

variable {σ ε ρ : Type*} (body : σ → Pass σ ε ρ)

/-- At most `n` passes of `body` from the loop head in state `s`. -/
def loop : ℕ → σ → Pass σ ε ρ
  | 0, s => ⟨[], .inl s⟩
  | n + 1, s =>
    match body s with
    | ⟨es, .inl t⟩ => ⟨es ++ (loop n t).events, (loop n t).next⟩
    | ⟨es, .inr v⟩ => ⟨es, .inr v⟩

/-- The loop has been left after at most `n` passes. -/
def FinishesWithin (n : ℕ) (s : σ) : Prop := ∃ v, (loop body n s).next = .inr v

/-- `t` is the next loop head after a pass from `s`. -/
def Follows (s t : σ) : Prop := (body s).next = .inl t

/-- `t` is a loop head some number of passes after `s`. -/
def Heads : σ → σ → Prop := Relation.ReflTransGen (Follows body)

/-- A pass goes on or leaves. -/
theorem follows_or_exit (s : σ) : (∃ t, Follows body s t) ∨ ∃ v, (body s).next = .inr v := by
  unfold Follows
  cases h : (body s).next with
  | inl t => exact Or.inl ⟨t, rfl⟩
  | inr v => exact Or.inr ⟨v, rfl⟩

variable {body}

/-- No passes are no step. -/
@[simp] theorem loop_zero (s : σ) : loop body 0 s = ⟨[], .inl s⟩ := rfl

/-- A loop whose pass goes on is the pass, and the loop from there. -/
theorem loop_succ_of_follows {n : ℕ} {s t : σ} (h : Follows body s t) :
    loop body (n + 1) s = ⟨(body s).events ++ (loop body n t).events, (loop body n t).next⟩ := by
  unfold Follows at h
  cases hb : body s with
  | mk es next =>
      rw [hb] at h
      cases next with
      | inl u => cases h; simp [loop, hb]
      | inr v => cases h

/-- A loop whose pass leaves is this pass. -/
theorem loop_succ_of_exit {n : ℕ} {s : σ} {v : ρ} (h : (body s).next = .inr v) :
    loop body (n + 1) s = ⟨(body s).events, .inr v⟩ := by
  cases hb : body s with
  | mk es next =>
      rw [hb] at h
      cases next with
      | inl u => cases h
      | inr w => cases h; simp [loop, hb]

/-- A loop whose pass goes on ends as the loop from there does, one pass later. -/
theorem finishesWithin_succ_of_follows {n : ℕ} {s t : σ} (h : Follows body s t) :
    FinishesWithin body (n + 1) s ↔ FinishesWithin body n t := by
  unfold FinishesWithin
  rw [loop_succ_of_follows h]

/-- A loop whose pass leaves ends with it. -/
theorem finishesWithin_succ_of_exit {n : ℕ} {s : σ} {v : ρ} (h : (body s).next = .inr v) :
    FinishesWithin body (n + 1) s :=
  ⟨v, by rw [loop_succ_of_exit h]⟩

/-- Without a pass no loop ends. -/
theorem not_finishesWithin_zero (s : σ) : ¬ FinishesWithin body 0 s := by
  rintro ⟨v, hv⟩
  cases hv

/-- **A finished run does not change with more passes.** -/
theorem loop_eq_of_finishesWithin {m n : ℕ} (hmn : m ≤ n) {s : σ}
    (h : FinishesWithin body m s) : loop body n s = loop body m s := by
  induction m generalizing n s with
  | zero => exact absurd h (not_finishesWithin_zero s)
  | succ m ih =>
      obtain ⟨k, rfl⟩ : ∃ k, n = k + 1 := ⟨n - 1, by omega⟩
      rcases follows_or_exit body s with ⟨t, ht⟩ | ⟨v, hv⟩
      · rw [finishesWithin_succ_of_follows ht] at h
        rw [loop_succ_of_follows ht, loop_succ_of_follows ht, ih (by omega) h]
      · rw [loop_succ_of_exit hv, loop_succ_of_exit hv]

/-- A loop that ends within some passes ends within more. -/
theorem finishesWithin_mono {m n : ℕ} (hmn : m ≤ n) {s : σ}
    (h : FinishesWithin body m s) : FinishesWithin body n s := by
  unfold FinishesWithin
  rw [loop_eq_of_finishesWithin hmn h]
  exact h

/-- One pass of a loop does what a pass does. -/
theorem loop_one_events (s : σ) : (loop body 1 s).events = (body s).events := by
  rcases follows_or_exit body s with ⟨t, ht⟩ | ⟨v, hv⟩
  · rw [loop_succ_of_follows ht, loop_zero, List.append_nil]
  · rw [loop_succ_of_exit hv]

/-- **The invariant rule for loop heads.** What holds at the first head and survives
a pass holds at every head. -/
theorem loop_invariant (I : σ → Prop) (hstep : ∀ s t, I s → Follows body s t → I t)
    {s t : σ} (hs : I s) (h : Heads body s t) : I t := by
  induction h with
  | refl => exact hs
  | tail _ hft ih => exact hstep _ _ ih hft

/-- **Every event of a run belongs to the pass of one reachable head**, and every
such pass is part of a long enough run. -/
theorem mem_loop_events_iff {s : σ} {e : ε} :
    (∃ n, e ∈ (loop body n s).events) ↔ ∃ t, Heads body s t ∧ e ∈ (body t).events := by
  constructor
  · rintro ⟨n, he⟩
    induction n generalizing s with
    | zero => simp at he
    | succ n ih =>
        rcases follows_or_exit body s with ⟨t, ht⟩ | ⟨v, hv⟩
        · rw [loop_succ_of_follows ht, List.mem_append] at he
          cases he with
          | inl he => exact ⟨s, .refl, he⟩
          | inr he =>
              obtain ⟨u, hu, heu⟩ := ih he
              exact ⟨u, .head ht hu, heu⟩
        · rw [loop_succ_of_exit hv] at he
          exact ⟨s, .refl, he⟩
  · rintro ⟨t, ht, he⟩
    induction ht using Relation.ReflTransGen.head_induction_on with
    | refl =>
        refine ⟨1, ?_⟩
        rw [loop_one_events]
        exact he
    | head hfu _ ih =>
        obtain ⟨n, hn⟩ := ih
        refine ⟨n + 1, ?_⟩
        rw [loop_succ_of_follows hfu]
        exact List.mem_append_right _ hn

/-- Two bodies that agree at every head of one run make the same run. -/
theorem loop_congr {body' : σ → Pass σ ε ρ} {s : σ}
    (h : ∀ t, Heads body s t → body' t = body t) (n : ℕ) : loop body' n s = loop body n s := by
  induction n generalizing s with
  | zero => rfl
  | succ n ih =>
      have hbody := h s .refl
      rcases follows_or_exit body s with ⟨t, ht⟩ | ⟨v, hv⟩
      · have ht' : Follows body' s t := by rwa [Follows, hbody]
        rw [loop_succ_of_follows ht, loop_succ_of_follows ht', hbody,
          ih fun u hu => h u (.head ht hu)]
      · rw [loop_succ_of_exit hv, loop_succ_of_exit (by rwa [hbody]), hbody]

/-- **The measure rule.** If an invariant holds at the first head and every pass that
comes back keeps it and lowers `μ`, the loop finishes within `μ s + 1` passes. -/
theorem finishes_of_measure (I : σ → Prop) (μ : σ → ℕ)
    (hstep : ∀ s t, I s → Follows body s t → I t ∧ μ t < μ s) {s : σ} (hs : I s) :
    FinishesWithin body (μ s + 1) s := by
  induction hn : μ s using Nat.strongRecOn generalizing s with
  | _ n ih =>
      rcases follows_or_exit body s with ⟨t, ht⟩ | ⟨v, hv⟩
      · obtain ⟨hIt, hlt⟩ := hstep s t hs ht
        rw [finishesWithin_succ_of_follows ht]
        exact finishesWithin_mono (by omega) (ih (μ t) (by omega) hIt rfl)
      · exact finishesWithin_succ_of_exit hv

/-- The loop is left. -/
def Finishes (body : σ → Pass σ ε ρ) (s : σ) : Prop := ∃ n, FinishesWithin body n s

/-- A loop whose pass leaves ends. -/
theorem finishes_of_exit {s : σ} {v : ρ} (h : (body s).next = .inr v) : Finishes body s :=
  ⟨1, finishesWithin_succ_of_exit h⟩

/-- A loop is left iff it is left from the next head. -/
theorem finishes_iff_of_follows {s t : σ} (h : Follows body s t) :
    Finishes body s ↔ Finishes body t := by
  constructor
  · rintro ⟨n, hn⟩
    cases n with
    | zero => exact absurd hn (not_finishesWithin_zero s)
    | succ n => exact ⟨n, (finishesWithin_succ_of_follows h).mp hn⟩
  · rintro ⟨n, hn⟩
    exact ⟨n + 1, (finishesWithin_succ_of_follows h).mpr hn⟩

/-- **The divergence rule.** A loop is never left from a head with what every pass comes back
with. -/
theorem not_finishes_of_invariant (I : σ → Prop) (hstep : ∀ s, I s → ∃ t, Follows body s t ∧ I t)
    {s : σ} (hs : I s) : ¬ Finishes body s := by
  rintro ⟨n, hn⟩
  induction n generalizing s with
  | zero => exact not_finishesWithin_zero s hn
  | succ n ih =>
      obtain ⟨t, ht, hIt⟩ := hstep s hs
      exact ih hIt ((finishesWithin_succ_of_follows ht).mp hn)

/-- The loop is left with a value. -/
def Exits (body : σ → Pass σ ε ρ) (s : σ) (v : ρ) : Prop := ∃ n, (loop body n s).next = .inr v

/-- A loop that is left with a value ends. -/
theorem Exits.finishes {s : σ} {v : ρ} (h : Exits body s v) : Finishes body s := by
  obtain ⟨n, hn⟩ := h
  exact ⟨n, v, hn⟩

/-- A loop is left with what it is left with from the next head. -/
theorem exits_iff_of_follows {s t : σ} {v : ρ} (h : Follows body s t) :
    Exits body s v ↔ Exits body t v := by
  constructor
  · rintro ⟨n, hn⟩
    cases n with
    | zero => cases hn
    | succ n =>
        rw [loop_succ_of_follows h] at hn
        exact ⟨n, hn⟩
  · rintro ⟨n, hn⟩
    refine ⟨n + 1, ?_⟩
    rw [loop_succ_of_follows h]
    exact hn

/-- A loop whose pass leaves is left with its value. -/
theorem exits_iff_of_exit {s : σ} {v w : ρ} (h : (body s).next = .inr v) :
    Exits body s w ↔ w = v := by
  constructor
  · rintro ⟨n, hn⟩
    cases n with
    | zero => cases hn
    | succ n =>
        rw [loop_succ_of_exit h] at hn
        cases hn
        rfl
  · rintro rfl
    exact ⟨1, by rw [loop_succ_of_exit h]⟩

/-- A loop is left with one value. -/
theorem exits_unique {s : σ} {v w : ρ} (hv : Exits body s v) (hw : Exits body s w) : v = w := by
  obtain ⟨n, hn⟩ := hv
  induction n generalizing s with
  | zero => cases hn
  | succ n ih =>
      cases hnext : (body s).next with
      | inl t =>
          rw [loop_succ_of_follows hnext] at hn
          exact ih ((exits_iff_of_follows hnext).mp hw) hn
      | inr r =>
          calc
            v = r := (exits_iff_of_exit hnext).mp ⟨n + 1, hn⟩
            _ = w := ((exits_iff_of_exit hnext).mp hw).symm

/-- What a loop is left with comes from one pass. -/
theorem exists_pass_of_exit {n : ℕ} {s : σ} {v : ρ} (h : (loop body n s).next = .inr v) :
    ∃ t, (body t).next = .inr v := by
  induction n generalizing s with
  | zero => cases h
  | succ n ih =>
      rcases follows_or_exit body s with ⟨t, ht⟩ | ⟨w, hw⟩
      · rw [loop_succ_of_follows ht] at h
        exact ih h
      · rw [loop_succ_of_exit hw] at h
        cases h
        exact ⟨s, hw⟩

end Traced

/-! ## Plain `while` loops -/

section While

variable {σ : Type*}

/-- At most `fuel` passes of `while (c) body`. -/
def whileLoop (c : σ → Bool) (body : σ → σ) : ℕ → σ → σ
  | 0, s => s
  | fuel + 1, s => if c s then whileLoop c body fuel (body s) else s

/-- What the body keeps, the loop keeps, also when it is cut short. -/
theorem whileLoop_keeps {c : σ → Bool} {body : σ → σ} (I : σ → Prop)
    (hstep : ∀ s, c s = true → I s → I (body s)) (fuel : ℕ) {s : σ} (hs : I s) :
    I (whileLoop c body fuel s) := by
  induction fuel generalizing s with
  | zero => exact hs
  | succ fuel ih =>
      cases hc : c s with
      | false => simpa [whileLoop, hc] using hs
      | true => simpa [whileLoop, hc] using ih (hstep s hc hs)

/-- **The total while rule.** An invariant kept by the body, together with a measure
that the body lowers and that `fuel` covers, holds at the end, where the condition fails. -/
theorem while_rule {c : σ → Bool} {body : σ → σ} (I : σ → Prop) (μ : σ → ℕ)
    (hstep : ∀ s, I s → c s = true → I (body s) ∧ μ (body s) < μ s)
    (fuel : ℕ) {s : σ} (hs : I s) (hfuel : μ s ≤ fuel) :
    I (whileLoop c body fuel s) ∧ c (whileLoop c body fuel s) = false := by
  induction fuel generalizing s with
  | zero =>
      refine ⟨hs, ?_⟩
      by_contra hc
      have := (hstep s hs (by simpa [whileLoop] using hc)).2
      omega
  | succ fuel ih =>
      cases hc : c s with
      | false => simpa [whileLoop, hc] using hs
      | true =>
          obtain ⟨hI, hlt⟩ := hstep s hs hc
          simpa [whileLoop, hc] using ih hI (by omega)

end While

end SmbProxy.Library
