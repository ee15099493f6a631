import Byteflow.Foundations.Conversation
import Byteflow.Vm.Frames

/-!
# The VM and its scheduler

`Vm.system` is the VM as a system that asks the scheduler and is answered. A worker does not run it
step by step but a quantum at a time (`Vm.sliced`), and a run that is out of budget looks like one
that yields. Where the quanta end makes no difference to what a flow asks for, whatever it is
answered (`sliced_simulation`).
-/

namespace Byteflow

namespace VmResult

/-- The result ends the flow. -/
def final : VmResult → Bool
  | complete _ | trap _ => true
  | _ => false

/-- The result, with its answer in another register. -/
def into (dest : UInt8) : VmResult → VmResult
  | spawn function args _ requestedRights => spawn function args dest requestedRights
  | selfPid _ => selfPid dest
  | receive _ timeout matchTag matchRequestId => receive dest timeout matchTag matchRequestId
  | ask _ targetCap request timeout => ask dest targetCap request timeout
  | monitor _ targetCap => monitor dest targetCap
  | link _ targetCap => link dest targetCap
  | whereis _ name => whereis dest name
  | delegate _ srcCap wantRights wantNativeCap => delegate dest srcCap wantRights wantNativeCap
  | r => r

/-- The result, whatever register its answer goes to. -/
def erase (r : VmResult) : VmResult := r.into 0

theorem dest_into (dest : UInt8) (r : VmResult) :
    (r.into dest).dest = r.dest.map fun _ => dest := by
  cases r <;> rfl

theorem final_into (dest : UInt8) (r : VmResult) : (r.into dest).final = r.final := by
  cases r <;> rfl

theorem erase_into (dest : UInt8) (r : VmResult) : (r.into dest).erase = r.erase := by
  cases r <;> rfl

theorem erase_eq_yield {r : VmResult} : r.erase = .yield ↔ r = .yield := by
  cases r <;> simp [erase, into]

end VmResult

namespace Vm

variable {α : Type} (value : α → Value) (host : ℕ → Host)

/-- What the scheduler does with an answer: it goes to the register that the result names. -/
def resumed (r : VmResult) (a : α) (vm : Vm) : Option Vm :=
  if r.final then none
  else some (match r.dest with
    | some dest => vm.resumeWith (host vm.instructionsExecuted) dest (value a)
    | none => vm)

/-- The VM with its scheduler. -/
def system : System Vm VmResult VmResult α where
  step vm := vm.step (host vm.instructionsExecuted)
  label := VmResult.erase
  answer := resumed value host

/-- The VM with its scheduler, a quantum at a time. A flow that yields is queued and runs again. -/
def sliced (quanta : ℕ → { n : ℕ // 0 < n }) : System Vm VmResult VmResult α where
  step vm :=
    let (r, vm) := vm.run host (quanta vm.instructionsExecuted)
    (if r = .yield then none else some r, vm)
  label := VmResult.erase
  answer := resumed value host

/-- A yield is answered at once. -/
def resumeYield [Inhabited α] (r : VmResult) : Option α := if r = .yield then some default else none

/-! ## Preemption -/

variable {value host} {vm vm' : Vm}

theorem of_sliced {quanta : ℕ → { n : ℕ // 0 < n }} {o : Option VmResult}
    (h : (sliced value host quanta).step vm = (o, vm')) :
    ∃ r, vm.run host (quanta vm.instructionsExecuted) = (r, vm') ∧
      (r = .yield ∧ o = none ∨ r ≠ .yield ∧ o = some r) := by
  cases h
  refine ⟨_, rfl, ?_⟩
  show _ ∨ _ ≠ _ ∧ (if (vm.run host (quanta vm.instructionsExecuted)).1 = .yield then none
    else some _) = _
  by_cases hr : (vm.run host (quanta vm.instructionsExecuted)).1 = .yield
  · exact .inl ⟨hr, if_pos hr⟩
  · exact .inr ⟨hr, if_neg hr⟩

variable [Inhabited α]

theorem step_resumes (h : vm.step (host vm.instructionsExecuted) = (some .yield, vm')) :
    ((system value host).answering resumeYield).step vm = (none, vm') := by
  have hauto : resumeYield ((system value host).label .yield) = some (default : α) := if_pos rfl
  exact System.answering_answered h hauto rfl

theorem step_answering {r : VmResult} (hr : r ≠ .yield)
    (h : vm.step (host vm.instructionsExecuted) = (some r, vm')) :
    ((system value host).answering resumeYield).step vm = (some r, vm') := by
  refine System.answering_result h fun a ha => ?_
  have hne : ¬r.erase = .yield := fun herase => hr (VmResult.erase_eq_yield.mp herase)
  rw [show resumeYield ((system value host).label r) = none from if_neg hne] at ha
  cases ha

/-- A quantum comes to some steps, and to a step at least. -/
theorem run_ends (budget : ℕ) : ∀ {vm vm' : Vm} {r : VmResult},
    vm.run host budget = (r, vm') →
    (r = .yield ∧ ∃ k, (0 < budget → 0 < k) ∧
      ((system value host).answering resumeYield).Silent k vm vm') ∨
    (r ≠ .yield ∧ ∃ k, ((system value host).answering resumeYield).Ends k vm r vm') := by
  induction budget with
  | zero =>
    intro vm vm' r h
    cases h
    exact .inl ⟨rfl, 0, id, .refl vm⟩
  | succ budget ih =>
    intro vm vm' r h
    rcases hstep : vm.step (host vm.instructionsExecuted) with ⟨_ | q, vm₁⟩
    · rw [run, hstep] at h
      have hsilent : ((system value host).answering resumeYield).step vm = (none, vm₁) :=
        System.answering_silent hstep
      have hone := System.Silent.one hsilent
      rcases ih h with ⟨hr, k, -, hsilent⟩ | ⟨hr, k, hends⟩
      · exact .inl ⟨hr, 1 + k, fun _ => by omega, hone.trans hsilent⟩
      · exact .inr ⟨hr, 1 + k, hone.ends hends⟩
    · rw [run, hstep] at h
      cases h
      by_cases hq : r = .yield
      · subst hq
        exact .inl ⟨rfl, 1, fun _ => one_pos, .one (step_resumes hstep)⟩
      · exact .inr ⟨hq, 0, .of_step (step_answering hq hstep)⟩

theorem sliced_simulation (quanta : ℕ → { n : ℕ // 0 < n }) :
    System.Simulation (sliced value host quanta)
      ((system value host).answering resumeYield) Eq where
  silent {vm _ vm'} heq hstep := by
    subst heq
    obtain ⟨r, hrun, ⟨hr, -⟩ | ⟨-, ho⟩⟩ := of_sliced hstep
    · rcases @run_ends α value host _ _ _ _ _ hrun with ⟨-, k, hpos, hsilent⟩ | ⟨hne, -⟩
      · obtain ⟨k, rfl⟩ := Nat.exists_eq_succ_of_ne_zero (hpos (quanta _).property).ne'
        exact ⟨k, vm', hsilent, rfl⟩
      · exact absurd hr hne
    · cases ho
  result {vm _ r vm'} heq hstep := by
    subst heq
    obtain ⟨q, hrun, ⟨-, ho⟩ | ⟨hq, ho⟩⟩ := of_sliced hstep
    · cases ho
    · cases ho
      rcases @run_ends α value host _ _ _ _ _ hrun with ⟨hr, -⟩ | ⟨-, k, hends⟩
      · exact absurd hr hq
      · exact ⟨k, r, vm', hends, rfl, fun a => System.answered_refl _⟩

/-- **Preemption.** A flow that runs in quanta asks for the same as one that is never preempted and
whose yields are answered at once. -/
theorem sliced_converses_iff (value : α → Value) (host : ℕ → Host)
    (quanta : ℕ → { n : ℕ // 0 < n }) (vm : Vm) (c : List (VmResult × α)) (q : VmResult) :
    (sliced value host quanta).Converses vm c q ↔
      ((system value host).answering resumeYield).Converses vm c q :=
  (sliced_simulation quanta).same_conversations rfl

end Vm

end Byteflow
