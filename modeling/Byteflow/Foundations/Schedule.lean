import Mathlib.Data.List.Induction
import Mathlib.Order.RelClasses

/-!
# Runs of a deterministic machine under a schedule

A machine is a step function `σ → ι → σ`: the input of a step resolves every choice, so a run is
the fold of a list of inputs, its schedule. `Guarded` says that every step of a run meets a
condition on the state it starts from; `Guarded.invariant` is the induction over guarded runs.
`trace` collects what the steps of a run emit. A run under an unbounded schedule ends when a
measure decreases with every step (`ends`).
-/

namespace Schedule

variable {σ ι ε ε' : Type*}

section

variable (step : σ → ι → σ)

/-- The state after a schedule. -/
def run (s : σ) (is : List ι) : σ := is.foldl step s

/-- Every step of the schedule meets the guard in the state it starts from. -/
def Guarded (guard : σ → ι → Prop) (s : σ) : List ι → Prop
  | [] => True
  | i :: is => guard s i ∧ Guarded guard (step s i) is

instance Guarded.decidable (guard : σ → ι → Prop) [∀ s i, Decidable (guard s i)] (s : σ)
    (is : List ι) : Decidable (Guarded step guard s is) :=
  match is with
  | [] => inferInstanceAs (Decidable True)
  | i :: is =>
    haveI := Guarded.decidable guard (step s i) is
    inferInstanceAs (Decidable (_ ∧ _))

/-- What the steps of the schedule emit, in order. -/
def trace (emit : σ → ι → List ε) (s : σ) : List ι → List ε
  | [] => []
  | i :: is => emit s i ++ trace emit (step s i) is

end

variable {step : σ → ι → σ}

@[simp] theorem run_nil (s : σ) : run step s [] = s := rfl

@[simp] theorem run_cons (s : σ) (i : ι) (is : List ι) :
    run step s (i :: is) = run step (step s i) is := rfl

theorem run_append (s : σ) (is is' : List ι) :
    run step s (is ++ is') = run step (run step s is) is' := List.foldl_append

theorem run_concat (s : σ) (is : List ι) (i : ι) :
    run step s (is ++ [i]) = step (run step s is) i := run_append s is [i]

theorem Guarded.append {guard : σ → ι → Prop} {s : σ} {is is' : List ι} :
    Guarded step guard s (is ++ is') ↔
      Guarded step guard s is ∧ Guarded step guard (run step s is) is' := by
  induction is generalizing s with
  | nil => simp [Guarded]
  | cons i is ih => simp only [List.cons_append, Guarded, ih, run_cons, and_assoc]

theorem Guarded.and {guard guard' : σ → ι → Prop} {s : σ} {is : List ι}
    (h : Guarded step guard s is) (h' : Guarded step guard' s is) :
    Guarded step (fun s i => guard s i ∧ guard' s i) s is := by
  induction is generalizing s with
  | nil => trivial
  | cons i is ih => exact ⟨⟨h.1, h'.1⟩, ih h.2 h'.2⟩

/-- **Invariants of guarded runs.** What every step that meets the guard preserves holds after
every guarded schedule. -/
theorem Guarded.invariant {guard : σ → ι → Prop} {I : σ → Prop}
    (hstep : ∀ s i, guard s i → I s → I (step s i)) {s : σ} {is : List ι}
    (his : Guarded step guard s is) (h : I s) : I (run step s is) := by
  induction is generalizing s with
  | nil => exact h
  | cons i is ih =>
    obtain ⟨hi, his⟩ := his
    exact ih his (hstep s i hi h)

/-- A guard that is weaker in the states of an invariant. -/
theorem Guarded.weaken {guard guard' : σ → ι → Prop} {I : σ → Prop}
    (hstep : ∀ s i, guard s i → I s → I (step s i))
    (hweak : ∀ s i, I s → guard s i → guard' s i) {s : σ} {is : List ι}
    (his : Guarded step guard s is) (h : I s) : Guarded step guard' s is := by
  induction is generalizing s with
  | nil => trivial
  | cons i is ih => exact ⟨hweak s i h his.1, ih his.2 (hstep s i his.1 h)⟩

/-- A weaker guard. -/
theorem Guarded.mono {guard guard' : σ → ι → Prop} {s : σ} {is : List ι}
    (his : Guarded step guard s is) (h : ∀ s i, guard s i → guard' s i) :
    Guarded step guard' s is :=
  his.weaken (I := fun _ => True) (fun _ _ _ _ => trivial) (fun s i _ => h s i) trivial

theorem guarded_of_mem {guard : σ → ι → Prop} {is : List ι} (h : ∀ s, ∀ i ∈ is, guard s i)
    (s : σ) : Guarded step guard s is := by
  induction is generalizing s with
  | nil => trivial
  | cons i is ih =>
    exact ⟨h s i List.mem_cons_self, ih (fun s i hi => h s i (List.mem_cons_of_mem _ hi)) _⟩

theorem guarded_of_forall {guard : σ → ι → Prop} (h : ∀ s i, guard s i) (s : σ) (is : List ι) :
    Guarded step guard s is := guarded_of_mem (fun s i _ => h s i) s

/-- A guard that is asked for only under a condition. -/
theorem guarded_of_imp {p : Prop} {guard : σ → ι → Prop} {s : σ} {is : List ι}
    (h : p → Guarded step guard s is) : Guarded step (fun s i => p → guard s i) s is := by
  induction is generalizing s with
  | nil => trivial
  | cons i is ih => exact ⟨fun hp => (h hp).1, ih fun hp => (h hp).2⟩

/-- What every step preserves holds after every schedule. -/
theorem invariant {I : σ → Prop} (hstep : ∀ s i, I s → I (step s i)) {s : σ} (h : I s)
    (is : List ι) : I (run step s is) := by
  induction is generalizing s with
  | nil => exact h
  | cons i is ih => exact ih (hstep s i h)

theorem trace_append (emit : σ → ι → List ε) (s : σ) (is is' : List ι) :
    trace step emit s (is ++ is') =
      trace step emit s is ++ trace step emit (run step s is) is' := by
  induction is generalizing s with
  | nil => rfl
  | cons i is ih => simp only [List.cons_append, trace, ih, run_cons, List.append_assoc]

theorem trace_concat (emit : σ → ι → List ε) (s : σ) (is : List ι) (i : ι) :
    trace step emit s (is ++ [i]) = trace step emit s is ++ emit (run step s is) i := by
  rw [trace_append, trace, trace, List.append_nil]

/-- **Invariants of runs and their traces.** What every step preserves of the state and two traces
holds after every schedule. -/
theorem trace_invariant {emit : σ → ι → List ε} {emit' : σ → ι → List ε'}
    {I : σ → List ε → List ε' → Prop}
    (hstep : ∀ s i es es', I s es es' → I (step s i) (es ++ emit s i) (es' ++ emit' s i)) {s : σ}
    (h : I s [] []) (is : List ι) :
    I (run step s is) (trace step emit s is) (trace step emit' s is) := by
  induction is using List.reverseRecOn with
  | nil => exact h
  | append_singleton is i ih =>
    rw [run_concat, trace_concat, trace_concat]
    exact hstep _ i _ _ ih

/-- What every step that meets the guard preserves of the state and a trace holds after every
guarded schedule. -/
theorem Guarded.trace_invariant {guard : σ → ι → Prop} {emit : σ → ι → List ε}
    {I : σ → List ε → Prop}
    (hstep : ∀ s i es, guard s i → I s es → I (step s i) (es ++ emit s i)) {s : σ} (h : I s [])
    {is : List ι} (his : Guarded step guard s is) : I (run step s is) (trace step emit s is) := by
  induction is using List.reverseRecOn with
  | nil => exact h
  | append_singleton is i ih =>
    obtain ⟨his, hi, -⟩ := Guarded.append.mp his
    rw [run_concat, trace_concat]
    exact hstep _ i _ hi (ih his)

/-! ## Unbounded schedules -/

/-- The first `n` inputs of an unbounded schedule. -/
def first (is : ℕ → ι) (n : ℕ) : List ι := (List.range n).map is

theorem first_succ (is : ℕ → ι) (n : ℕ) : first is (n + 1) = first is n ++ [is n] := by
  simp [first, List.range_succ]

/-- **Runs that end.** If every step before the end keeps an invariant of the state and a trace, and
decreases a measure, then the end is reached, and the invariant holds there. -/
theorem ends {α : Type*} [Preorder α] [WellFoundedLT α] (μ : σ → α) {guard : σ → ι → Prop}
    {emit : σ → ι → List ε} {I : σ → List ε → Prop} {final : σ → Prop}
    (hstep : ∀ s i es, guard s i → I s es → ¬final s → I (step s i) (es ++ emit s i) ∧
      μ (step s i) < μ s)
    {s : σ} (h : I s []) {is : ℕ → ι} (his : ∀ n, guard (run step s (first is n)) (is n)) :
    ∃ n, final (run step s (first is n)) ∧
      I (run step s (first is n)) (trace step emit s (first is n)) := by
  -- by induction on the measure of the state after `n` steps
  have hends : ∀ m n, μ (run step s (first is n)) = m →
      I (run step s (first is n)) (trace step emit s (first is n)) →
      ∃ n, final (run step s (first is n)) ∧
        I (run step s (first is n)) (trace step emit s (first is n)) := by
    intro m
    induction m using WellFoundedLT.induction with
    | ind m ih =>
      intro n hm hI
      by_cases hfinal : final (run step s (first is n))
      · exact ⟨n, hfinal, hI⟩
      · obtain ⟨hI', hlt⟩ := hstep _ (is n) _ (his n) hI hfinal
        have hrun : run step s (first is (n + 1)) = step (run step s (first is n)) (is n) := by
          rw [first_succ, run_concat]
        rw [← hrun] at hI' hlt
        refine ih _ (hm ▸ hlt) (n + 1) rfl ?_
        rwa [first_succ, trace_concat, ← first_succ]
  exact hends _ 0 rfl h

end Schedule
