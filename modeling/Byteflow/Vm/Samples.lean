import Byteflow.Vm.Compiled

/-!
# A loop, from its source to the VM

The counting loop in the documentation of `bytecode/program.rs` and in its tests. That the flow ends
with its count is proved on the source (`counts`), and holds on the VM because the compiled program
means the same: for every limit, and wherever the flow is preempted.
-/

namespace Byteflow

namespace Source

/-- Count to `n` in steps of one. -/
def countTo (n : Int64) : Module where
  name := "count"
  defs := [{
    name := "main"
    arity := 0
    body := [.loadInt n, .loadI32 0, .whileLt 1 0 [.addImm 1 1], .return 1]
    inScope := rfl
    ends := rfl
    fits := Nat.le_of_ble_eq_true rfl }]
  main := List.cons_ne_nil _ _
  calls d hd function hf := by
    obtain rfl := List.mem_singleton.mp hd
    exact absurd hf List.not_mem_nil
  small := by
    show 8 < 2147483648
    decide

/-- The loop, with the counter at `i`. -/
def looping (n i : Int64) : Config :=
  .running ⟨[.stmt (.whileLt 1 0 [.addImm 1 1]), .stmt (.return 1)], [.int n, .int i]⟩ []

variable {defs : List Def} {n i : Int64}

theorem step_looping : (system defs).step (looping n i) = (none, .running
    ⟨if (Value.bool (decide (i < n))).isTruthy then
      [.stmt (.addImm 1 1), .again 2 1 0 [.addImm 1 1], .stmt (.return 1)] else [.stmt (.return 1)],
      [.int n, .int i]⟩ []) := rfl

theorem looping_enters (h : i < n) :
    (system defs).Silent 3 (looping n i) (looping n (i + 1)) := by
  have hhead := @step_looping defs n i
  rw [decide_eq_true h] at hhead
  exact .step hhead (.step rfl (.step rfl (.refl _)))

theorem looping_leaves (h : ¬i < n) :
    (system defs).Ends 1 (looping n i) (.complete (.int i)) .finished := by
  have hhead := @step_looping defs n i
  rw [decide_eq_false h] at hhead
  exact ⟨_, .one hhead, rfl⟩

/-- The counter goes up to the limit: the induction is on how far it is. -/
theorem looping_ends (k : ℕ) : ∀ i : Int64, i ≤ n → (n.toInt - i.toInt).toNat = k →
    ∃ m, (system defs).Ends m (looping n i) (.complete (.int n)) .finished := by
  induction k with
  | zero =>
    intro i hle hk
    have hle' := Int64.le_iff_toInt_le.mp hle
    have heq : i = n := Int64.toInt_inj.mp (by omega)
    subst heq
    exact ⟨1, looping_leaves (fun hlt => absurd (Int64.lt_iff_toInt_lt.mp hlt) (by omega))⟩
  | succ k ih =>
    intro i hle hk
    have hlt : i < n := Int64.lt_iff_toInt_lt.mpr (by omega)
    have hmax := n.toInt_lt
    have hmin := i.le_toInt
    have hnext : (i + 1).toInt = i.toInt + 1 := by
      rw [Int64.toInt_add, Int64.toInt_one, Int.bmod_eq_of_le (by omega) (by omega)]
    obtain ⟨m, hends⟩ := ih (i + 1) (Int64.le_iff_toInt_le.mpr (by omega)) (by omega)
    exact ⟨3 + m, (looping_enters hlt).ends hends⟩

/-- The source counts to its limit, and not below zero. -/
theorem countTo_ends (n : Int64) : ∃ m, (system (countTo n).defs).Ends m
    ((countTo n).start ⟨0, Nat.zero_lt_one⟩ []) (.complete (.int (max n 0))) .finished := by
  have hfirst : (system (countTo n).defs).Silent 2 ((countTo n).start ⟨0, Nat.zero_lt_one⟩ [])
      (looping n 0) := .step rfl (.step rfl (.refl _))
  have hmax : max n 0 = if n ≤ 0 then 0 else n := rfl
  rw [hmax]
  split_ifs with hle
  · refine ⟨2 + 1, hfirst.ends (looping_leaves fun hlt => ?_)⟩
    have hle := Int64.le_iff_toInt_le.mp hle
    have hlt := Int64.lt_iff_toInt_lt.mp hlt
    omega
  · have hpos : (0 : Int64) ≤ n := by
      have hnot := mt Int64.le_iff_toInt_le.mpr hle
      exact Int64.le_iff_toInt_le.mpr (by omega)
    obtain ⟨m, hends⟩ := looping_ends _ 0 hpos rfl
    exact ⟨2 + m, hfirst.ends hends⟩

/-- **Counting.** The flow ends with its count, and asks the scheduler for nothing, wherever it is
preempted. -/
theorem countTo_completes (n : Int64) (natives : NativeTable) (gate : NativeGate) :
    ∃ vm, Vm.withNativeGate (countTo n).chunk natives gate 0 [] = .ok vm ∧
      ∀ (quota : Option FlowQuota) (host : ℕ → Host) (quanta : ℕ → { n : ℕ // 0 < n })
        (c : List (VmResult × LightValue)) (q : VmResult),
        (Vm.sliced Subtype.val host quanta).Converses { vm with quota := quota } c q ↔
          c = [] ∧ q = .complete (.int (max n 0)) := by
  obtain ⟨vm, hvm, hmatches⟩ := (countTo n).spawned ⟨0, Nat.zero_lt_one⟩ [] natives gate
  refine ⟨vm, hvm, fun quota host quanta c q => ?_⟩
  rw [(hmatches quota).sliced_conversations host quanta c q]
  obtain ⟨m, hends⟩ := countTo_ends n
  exact System.converses_of_ends (hends.answering fun _ _ => rfl) fun _ => rfl

end Source

end Byteflow
