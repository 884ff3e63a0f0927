import Mathlib.Data.List.Basic
import Mathlib.Order.Nat
import Mathlib.Tactic.Common

/-!
# Machines driven by their environment

A machine is a total step function `step : σ → ι → σ`: the environment's next input
decides what the step does. A run over a finite list of inputs is a fold, a run over
an unending schedule is `runAt`.

`run_invariant` is the induction over a run, `run_invariant_of` the same for runs whose
steps all meet a condition on the state and the input (`Along`), `eventually_of_progress`
the rule for what an unending run reaches. `run_refinement` takes the runs of one machine to
runs of another one that may take several steps, or none, where the first takes one, and
`run_refinement_of` takes the conditions of the steps along.
`run_counted` is the invariant rule that counts steps of a kind (`runCount`), and
`reaches_of_measure` counts the steps a party has to take itself, however the others
interleave.
-/

set_option autoImplicit false

namespace SmbProxy.Library

variable {σ ι : Type*} (step : σ → ι → σ)

/-- The state after the inputs `is`. -/
def run (s : σ) (is : List ι) : σ := is.foldl step s

/-- The state before the `t`-th input of a schedule. -/
def runAt (s : σ) (sched : ℕ → ι) : ℕ → σ
  | 0 => s
  | t + 1 => step (runAt s sched t) (sched t)

/-- Every step of the run from `s` over `is` is taken in a state and on an input that
satisfy `G`. -/
def Along (G : σ → ι → Prop) : σ → List ι → Prop
  | _, [] => True
  | s, i :: is => G s i ∧ Along G (step s i) is

instance decidableAlong (G : σ → ι → Prop) [∀ s i, Decidable (G s i)] :
    ∀ (s : σ) (is : List ι), Decidable (Along step G s is)
  | _, [] => inferInstanceAs (Decidable True)
  | s, i :: is =>
    have := decidableAlong G (step s i) is
    inferInstanceAs (Decidable (G s i ∧ Along step G (step s i) is))

/-- How many steps of the run from `s` over `is` are taken in a state and on an input with `p`. -/
def runCount (p : σ → ι → Bool) : σ → List ι → ℕ
  | _, [] => 0
  | s, i :: is => (p s i).toNat + runCount p (step s i) is

/-- No inputs change nothing. -/
@[simp] theorem run_nil (s : σ) : run step s [] = s := rfl

/-- The first input, and the others from there. -/
@[simp] theorem run_cons (s : σ) (i : ι) (is : List ι) :
    run step s (i :: is) = run step (step s i) is := rfl

variable {step}

/-- **The invariant rule for runs.** -/
theorem run_invariant (I : σ → Prop) (hstep : ∀ s i, I s → I (step s i)) {s : σ} (hs : I s)
    (is : List ι) : I (run step s is) := by
  induction is generalizing s with
  | nil => exact hs
  | cons i is ih => exact ih (hstep s i hs)

/-- **The invariant rule for runs whose steps all meet a condition.** -/
theorem run_invariant_of (G : σ → ι → Prop) (I : σ → Prop)
    (hstep : ∀ s i, I s → G s i → I (step s i)) {s : σ} (hs : I s) {is : List ι}
    (h : Along step G s is) : I (run step s is) := by
  induction is generalizing s with
  | nil => exact hs
  | cons i is ih => exact ih (hstep s i hs h.1) h.2

/-- A condition that every input meets, in whatever state. -/
theorem along_of_forall {G : σ → ι → Prop} {is : List ι} (h : ∀ i ∈ is, ∀ s, G s i) (s : σ) :
    Along step G s is := by
  induction is generalizing s with
  | nil => trivial
  | cons i is ih =>
      exact ⟨h i List.mem_cons_self s, ih (fun j hj => h j (List.mem_cons_of_mem i hj)) _⟩

/-- A weaker condition is met as well. -/
theorem along_mono {G G' : σ → ι → Prop} (hweaker : ∀ s i, G s i → G' s i) {s : σ} {is : List ι}
    (h : Along step G s is) : Along step G' s is := by
  induction is generalizing s with
  | nil => trivial
  | cons i is ih => exact ⟨hweaker s i h.1, ih h.2⟩

/-- Two conditions that are met each are met together. -/
theorem along_and {G G' : σ → ι → Prop} {s : σ} {is : List ι} (h : Along step G s is)
    (h' : Along step G' s is) : Along step (fun s i => G s i ∧ G' s i) s is := by
  induction is generalizing s with
  | nil => trivial
  | cons i is ih => exact ⟨⟨h.1, h'.1⟩, ih h.2 h'.2⟩

/-- **The exact invariant rule.** If from a state with `I` a step keeps `I` exactly when
it meets `G`, then `I` holds in every state of a run exactly when all its steps meet `G`. -/
theorem run_invariant_iff (G : σ → ι → Prop) (I : σ → Prop)
    (hstep : ∀ s i, I s → (I (step s i) ↔ G s i)) {s : σ} (hs : I s) (is : List ι) :
    (∀ js, js <+: is → I (run step s js)) ↔ Along step G s is := by
  induction is generalizing s with
  | nil =>
      refine ⟨fun _ => trivial, fun _ js hjs => ?_⟩
      rw [List.prefix_nil.mp hjs]
      exact hs
  | cons i is ih =>
      constructor
      · intro h
        have hi : I (step s i) := h [i] (List.prefix_append [i] is)
        refine ⟨(hstep s i hs).mp hi, (ih hi).mp fun js hjs => ?_⟩
        exact h (i :: js) (List.cons_prefix_cons.mpr ⟨rfl, hjs⟩)
      · rintro ⟨hi, hrest⟩ js hjs
        cases js with
        | nil => exact hs
        | cons j js =>
            obtain ⟨rfl, htail⟩ := List.cons_prefix_cons.mp hjs
            exact (ih ((hstep s j hs).mpr hi)).mpr hrest js htail

/-- Along a run two conditions are the same, if where an invariant holds they are, and a step
that meets them keeps it. -/
theorem along_iff {G G' : σ → ι → Prop} (I : σ → Prop) (hiff : ∀ s i, I s → (G s i ↔ G' s i))
    (hstep : ∀ s i, I s → G s i → I (step s i)) {s : σ} (hs : I s) (is : List ι) :
    Along step G s is ↔ Along step G' s is := by
  induction is generalizing s with
  | nil => exact Iff.rfl
  | cons i is ih =>
      constructor
      · rintro ⟨hi, hrest⟩
        exact ⟨(hiff s i hs).mp hi, (ih (hstep s i hs hi)).mp hrest⟩
      · rintro ⟨hi, hrest⟩
        have hG := (hiff s i hs).mpr hi
        exact ⟨hG, (ih (hstep s i hs hG)).mpr hrest⟩

/-- **The simulation rule.** Two machines that take the same inputs stay related when
every step does, in runs of the first whose steps all meet `G`. -/
theorem run_simulation {τ : Type*} {step' : τ → ι → τ} (R : σ → τ → Prop) (G : σ → ι → Prop)
    (hstep : ∀ s t i, R s t → G s i → R (step s i) (step' t i)) {s : σ} {t : τ} (hst : R s t)
    {is : List ι} (h : Along step G s is) : R (run step s is) (run step' t is) := by
  induction is generalizing s t with
  | nil => exact hst
  | cons i is ih => exact ih (hstep s t i hst h.1) h.2

/-- A run over two lists is one run behind the other. -/
theorem run_append (s : σ) (is js : List ι) :
    run step s (is ++ js) = run step (run step s is) js :=
  List.foldl_append

/-- A condition is met along two runs, one behind the other. -/
theorem along_append {G : σ → ι → Prop} {s : σ} {is js : List ι} (h : Along step G s is)
    (h' : Along step G (run step s is) js) : Along step G s (is ++ js) := by
  induction is generalizing s with
  | nil => exact h'
  | cons i is ih => exact ⟨h.1, ih h.2 h'⟩

/-- A machine that takes only some of the inputs, each as one of its own, runs over those. -/
theorem run_filterMap {κ : Type*} {step' : σ → κ → σ} (f : ι → Option κ) (s : σ) (is : List ι) :
    run (fun s i => (f i).elim s (step' s)) s is = run step' s (is.filterMap f) := by
  induction is generalizing s with
  | nil => rfl
  | cons i is ih =>
      rw [run_cons, ih, List.filterMap_cons]
      cases f i with
      | none => rfl
      | some k => rfl

/-- **The counting rule.** What goes with a count that each step with `p` raises by one goes
with the number of these steps in a run. -/
theorem run_counted {p : σ → ι → Bool} (J : ℕ → σ → Prop)
    (hstep : ∀ n s i, J n s → J (n + (p s i).toNat) (step s i)) {n : ℕ} {s : σ} (hs : J n s)
    (is : List ι) : J (n + runCount step p s is) (run step s is) := by
  induction is generalizing n s with
  | nil => exact hs
  | cons i is ih =>
      have hrest := ih (hstep n s i hs)
      rw [Nat.add_assoc] at hrest
      exact hrest

/-- **The refinement rule.** If every step that meets `G` from a state with `I` is, seen through
`f`, a run of another machine whose steps meet `H`, then so is every run whose steps all meet
`G`. -/
theorem run_refinement_of {τ κ : Type*} {step' : τ → κ → τ} (f : σ → τ) (I : σ → Prop)
    (G : σ → ι → Prop) (H : τ → κ → Prop) (hI : ∀ s i, I s → I (step s i))
    (hstep : ∀ s i, I s → G s i →
      ∃ ks, Along step' H (f s) ks ∧ f (step s i) = run step' (f s) ks) {s : σ} (hs : I s)
    {is : List ι} (h : Along step G s is) :
    ∃ ks, Along step' H (f s) ks ∧ f (run step s is) = run step' (f s) ks := by
  induction is generalizing s with
  | nil => exact ⟨[], trivial, rfl⟩
  | cons i is ih =>
      obtain ⟨first, hfirst, heq⟩ := hstep s i hs h.1
      obtain ⟨rest, hrest, heq'⟩ := ih (hI s i hs) h.2
      rw [heq] at hrest heq'
      refine ⟨first ++ rest, along_append hfirst hrest, ?_⟩
      calc
        f (run step s (i :: is)) = f (run step (step s i) is) := rfl
        _ = run step' (run step' (f s) first) rest := heq'
        _ = run step' (f s) (first ++ rest) := (run_append ..).symm

/-- The same without conditions. -/
theorem run_refinement {τ κ : Type*} {step' : τ → κ → τ} (f : σ → τ) (I : σ → Prop)
    (hI : ∀ s i, I s → I (step s i))
    (hstep : ∀ s i, I s → ∃ ks, f (step s i) = run step' (f s) ks) {s : σ} (hs : I s)
    (is : List ι) : ∃ ks, f (run step s is) = run step' (f s) ks := by
  obtain ⟨ks, -, hks⟩ := run_refinement_of f I (fun _ _ => True) (fun _ _ => True) hI
    (fun s i hs _ => (hstep s i hs).imp fun _ hks =>
      ⟨along_of_forall (fun _ _ _ => trivial) _, hks⟩) hs
    (along_of_forall (fun _ _ _ => trivial) s)
  exact ⟨ks, hks⟩

/-- **The rule of own steps.** As long as something is under way (`I`), the steps of one party
(`mine`) lower a measure and no step raises it, until `P` is reached. Then in every run whose
steps all meet `G` and in which that party takes as many steps as the measure says, `P` holds on
the way. -/
theorem reaches_of_measure_of (G : σ → ι → Prop) {P I : σ → Prop} {mine : ι → Bool} (μ : σ → ℕ)
    (hpos : ∀ s, I s → 0 < μ s)
    (hstep : ∀ s i, I s → G s i → P (step s i) ∨
      I (step s i) ∧ μ (step s i) ≤ μ s ∧ (mine i = true → μ (step s i) < μ s)) {s : σ} (hs : I s)
    {is : List ι} (h : Along step G s is) (hcount : μ s ≤ is.countP mine) :
    ∃ js, js <+: is ∧ P (run step s js) := by
  induction is generalizing s with
  | nil =>
      have := hpos s hs
      simp only [List.countP_nil] at hcount
      omega
  | cons i is ih =>
      rcases hstep s i hs h.1 with hP | ⟨hI, hle, hlt⟩
      · exact ⟨[i], List.prefix_append [i] is, hP⟩
      · -- The rest of the run still holds enough steps of the party.
        have hrest : μ (step s i) ≤ is.countP mine := by
          rw [List.countP_cons] at hcount
          cases hi : mine i with
          | true =>
              have hlt := hlt hi
              simp only [hi, if_true] at hcount
              omega
          | false =>
              simp only [hi, Bool.false_eq_true, if_false] at hcount
              omega
        obtain ⟨js, hjs, hP⟩ := ih hI h.2 hrest
        exact ⟨i :: js, List.cons_prefix_cons.mpr ⟨rfl, hjs⟩, hP⟩

/-- The same for every run. -/
theorem reaches_of_measure {P I : σ → Prop} {mine : ι → Bool} (μ : σ → ℕ)
    (hpos : ∀ s, I s → 0 < μ s)
    (hstep : ∀ s i, I s → P (step s i) ∨
      I (step s i) ∧ μ (step s i) ≤ μ s ∧ (mine i = true → μ (step s i) < μ s)) {s : σ} (hs : I s)
    {is : List ι} (hcount : μ s ≤ is.countP mine) : ∃ js, js <+: is ∧ P (run step s js) :=
  reaches_of_measure_of (fun _ _ => True) μ hpos (fun s i hI _ => hstep s i hI) hs
    (along_of_forall (fun _ _ _ => trivial) s) hcount

/-- **The invariant rule for scheduled runs.** What holds at some time and survives every
step holds from that time on. -/
theorem runAt_invariant {s : σ} {sched : ℕ → ι} (I : σ → Prop) (hstep : ∀ s i, I s → I (step s i))
    {T : ℕ} (hT : I (runAt step s sched T)) {t : ℕ} (ht : T ≤ t) :
    I (runAt step s sched t) := by
  induction t, ht using Nat.le_induction with
  | base => exact hT
  | succ t ht ih => exact hstep _ _ ih

/-- **The progress rule.** What is not yet true comes true, when as long as it is not a
measure goes on falling. -/
theorem eventually_of_progress {P : ℕ → Prop} (μ : ℕ → ℕ)
    (h : ∀ t, ¬ P t → ∃ t', t < t' ∧ μ t' < μ t) (t : ℕ) : ∃ T, t ≤ T ∧ P T := by
  induction hn : μ t using Nat.strongRecOn generalizing t with
  | _ n ih =>
      by_cases hP : P t
      · exact ⟨t, Nat.le_refl t, hP⟩
      · obtain ⟨t', hlt, hμ⟩ := h t hP
        obtain ⟨T, hT, hPT⟩ := ih (μ t') (by omega) t' rfl
        exact ⟨T, by omega, hPT⟩

end SmbProxy.Library
