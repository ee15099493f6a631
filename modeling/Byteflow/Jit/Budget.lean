import Byteflow.Jit.Kept
import Byteflow.Vm.Account

/-!
# The budget of a run with traces

The loop of `run_vm_with_jit` takes from its budget for instructions of the interpreter only: a
trace starts with all that is left, counts in its own frame, and what it has taken is not taken from
the loop's budget, nor counted in `instructions_executed`. A trace that runs takes at least one
instruction (`runTrace_spends`), so the loop respects its budget, and counts what it executes,
exactly when it runs no trace (`accounted_iff_quiet`).
-/

namespace Byteflow

namespace Jit

/-! ## Traces -/

/-- A trace takes from its budget. -/
theorem run_spends {trace : SourcedTrace} {fuel : ℕ} {fr fr' : JitFrame} (h0 : fr.budget ≠ 0)
    (hfuel : fr.budget.toNat < fuel)
    (h : trace.trace.entry.run fuel (.region trace.trace.span.start) fr = .returned fr') :
    fr'.budget.toNat < fr.budget.toNat := by
  obtain ⟨f, himpl⟩ := of_compileTrace trace.compiled
  have hpos : 0 < fr.budget.toNat := by
    have hone := toNat_sub_one h0
    omega
  have hpc :
      (blockAt (collectTraceRegion trace.chunk trace.key) trace.trace.span.start).isSome := by
    rw [himpl.start]
    exact himpl.entry
  refine run_rule himpl (I := fun _ fr₁ => fr₁.budget.toNat ≤ fr.budget.toNat)
    (Q := fun exit => ∀ fr₁, exit = .returned fr₁ → fr₁.budget.toNat < fr.budget.toNat)
    ?_ hfuel hpc le_rfl fr' h
  intro pc b fr₁ hb hle
  have hpcs : b.pcs ≠ [] := (follows_of_mem_collect (List.mem_of_find?_eq_some hb)).2
  by_cases hexhausted : fr₁.budget = 0
  · obtain ⟨pc', hexit⟩ := execBlock_of_exhausted
      (regionContext trace.chunk (collectTraceRegion trace.chunk trace.key))
      (RegisterMap.new f.numRegisters.toNat) hpcs hexhausted
    rw [hexit]
    intro fr₂ hfr₂
    cases hfr₂
    show fr₁.budget.toNat < fr.budget.toNat
    rw [hexhausted]
    exact hpos
  have hspends := execBlock_spends
    (regionContext trace.chunk (collectTraceRegion trace.chunk trace.key))
    (RegisterMap.new f.numRegisters.toNat) hpcs hexhausted
  generalize execBlock _ b.pcs _ fr₁ = r at hspends
  cases r with
  | jump target fr₂ =>
    cases target with
    | region pc' => exact hspends.2.1.le.trans hle
    | trap =>
      intro trapPc fr₃ hfr₃
      cases hfr₃
      exact hspends.1.trans_le hle
    | «return» =>
      intro fr₃ hfr₃
      cases hfr₃
      exact hspends.1.trans_le hle
  | returned fr₂ =>
    intro fr₃ hfr₃
    cases hfr₃
    exact hspends.1.trans_le hle
  | _ =>
    intro fr₃ hfr₃
    cases hfr₃

/-- The instructions that the interpreter counts are those of its own. -/
theorem setPc_instructionsExecuted (vm : Vm) (pc : ℕ) :
    (vm.setPc pc).instructionsExecuted = vm.instructionsExecuted := by
  unfold Vm.setPc
  split <;> rfl

theorem returnValue_instructionsExecuted (host : Host) (vm : Vm) (value : Value) :
    (vm.returnValue host value).2.instructionsExecuted = vm.instructionsExecuted := by
  unfold Vm.returnValue Vm.popFrame
  simp only [Exec.runFrom_bind, Exec.runFrom_get]
  cases vm.frames with
  | nil => rfl
  | cons finished rest =>
    dsimp only
    cases finished.destReg with
    | none => rfl
    | some dest =>
      have hset := (Vm.setReg_cpu host { vm with frames := rest } dest value).2
      rcases hr : ({ vm with frames := rest } : Vm).setReg host dest value with ⟨r, vm'⟩
      rw [hr] at hset
      simp only [hr, Exec.runFrom_bind, Exec.runFrom_set]
      cases r <;> exact hset

theorem syncedAt_instructionsExecuted (vm : Vm) (slots : List Int64) (pc : UInt32) :
    (syncedAt vm slots pc).2.instructionsExecuted = vm.instructionsExecuted := by
  have hpc := setPc_instructionsExecuted vm pc.toNat
  unfold syncedAt syncSlotsToVm
  cases (vm.setPc pc.toNat).frames with
  | nil => exact hpc
  | cons frame rest => exact hpc

theorem applyExitToVm_instructionsExecuted {host : Host} {vm vm' : Vm} {slots : List Int64}
    {reason : ExitReason} {r : Except Fault (Option VmResult)}
    (h : applyExitToVm host vm slots reason = some (r, vm')) :
    vm'.instructionsExecuted = vm.instructionsExecuted := by
  have hsynced (pc : UInt32) (hsome : some (syncedAt vm slots pc) = some (r, vm')) :
      vm'.instructionsExecuted = vm.instructionsExecuted := by
    have hvm' : (syncedAt vm slots pc).2 = vm' := congrArg Prod.snd (Option.some.inj hsome)
    rw [← hvm']
    exact syncedAt_instructionsExecuted vm slots pc
  cases reason with
  | «return» returnReg =>
    obtain ⟨i, hi, h⟩ := Option.bind_eq_some_iff.mp h
    dsimp only at h
    have hset := (Vm.setReg_cpu host vm returnReg (.int i)).2
    rcases hr : vm.setReg host returnReg (.int i) with ⟨stored, vm₁⟩
    rw [hr] at hset h
    cases stored with
    | error fault =>
      cases h
      exact hset
    | ok _ =>
      dsimp only at h
      cases hpc : vm₁.currentPc with
      | none =>
        rw [hpc] at h
        cases h
        exact hset
      | some pc =>
        rw [hpc] at h
        have hvm' : ((vm₁.setPc (pc + 1)).returnValue host (.int i)).2 = vm' :=
          congrArg Prod.snd (Option.some.inj h)
        rw [← hset, ← setPc_instructionsExecuted vm₁ (pc + 1), ← hvm']
        exact returnValue_instructionsExecuted host _ _
  | trap pc =>
    cases h
    exact setPc_instructionsExecuted vm _
  | deopt pc =>
    cases h
    exact setPc_instructionsExecuted vm _
  | budget pc => exact hsynced pc h
  | «continue» pc => exact hsynced pc h
  | effect pc => exact hsynced pc h

/-- What a trace has done: instructions that the VM did not count. -/
def JitStep.Spends (vm : Vm) : JitStep → Prop
  | .resume vm' native => 0 < native ∧ vm'.instructionsExecuted = vm.instructionsExecuted
  | .done _ vm' native => 0 < native ∧ vm'.instructionsExecuted = vm.instructionsExecuted
  | .undefined => True

theorem runTrace_spends (host : Host) (vm : Vm) (found : Found) {budget : UInt32}
    (h0 : budget ≠ 0) : (runTrace host vm found budget).Spends vm := by
  unfold runTrace
  cases hrun : runCompiledTrace found.trace.trace found.slots (UInt32.ofNat found.pc) budget
      vm.currentFunction found.registerCount.toUInt32 with
  | returned fr =>
    have hspends : fr.budget.toNat < budget.toNat :=
      run_spends h0 (Nat.lt_add_of_pos_right two_pos) hrun
    have hnative : 0 < (budget - fr.budget).toNat := by
      rw [UInt32.toNat_sub_of_le _ _ (UInt32.le_iff_toNat_le.mpr hspends.le)]
      omega
    dsimp only
    cases happ : applyExitToVm host vm fr.slots (intoReason fr) with
    | none => trivial
    | some applied =>
      obtain ⟨r, vm'⟩ := applied
      have hvm' := applyExitToVm_instructionsExecuted happ
      rcases r with fault | _ | result <;> exact ⟨hnative, hvm'⟩
  | _ => trivial

/-! ## The loop -/

section

variable {σ : Type} (find : σ → Vm → TraceKey → σ × Option SourcedTrace) (host : ℕ → Host)

/-- No trace is found before any of the instructions that the interpreter executes. -/
def Quiet : ℕ → σ → Vm → Prop
  | 0, _, _ => True
  | remaining + 1, s, vm =>
    (tryFind find s vm).2 = none ∧
      ((Vm.run host 1 vm).1 = .yield →
        Quiet remaining (tryFind find s vm).1 (Vm.run host 1 vm).2)

/-- No more than the budget is executed, and all of it is counted. -/
def Ran.Accounted (ran : Ran) (budget : ℕ) (vm : Vm) : Prop :=
  ran.native + ran.interpreted ≤ budget ∧
    ran.vm.instructionsExecuted = vm.instructionsExecuted + (ran.native + ran.interpreted)

variable {find}

theorem run_one (vm : Vm) :
    (Vm.run host 1 vm).2.instructionsExecuted = vm.instructionsExecuted + 1 := by
  have hstep := (Vm.step_cpu (host vm.instructionsExecuted) vm).2
  unfold Vm.run
  rcases hr : vm.step (host vm.instructionsExecuted) with ⟨_ | result, vm'⟩ <;>
    rw [hr] at hstep <;> exact hstep

variable {host}

/-- A try finds no trace and leaves the VM alone, or runs one. -/
theorem tryStep_cases {h : Host} {s s' : σ} {vm : Vm} {budget : UInt32} {step : JitStep}
    (h0 : budget ≠ 0) (htry : tryStep find h s vm budget = (s', step)) :
    tryFind find s vm = (s', none) ∧ step = .resume vm 0 ∨
      (tryFind find s vm).2 ≠ none ∧ step.Spends vm := by
  unfold tryStep at htry
  rcases hfind : tryFind find s vm with ⟨s₁, _ | found⟩
  · rw [hfind] at htry
    cases htry
    exact .inl ⟨rfl, rfl⟩
  · rw [hfind] at htry
    cases htry
    exact .inr ⟨Option.some_ne_none found, runTrace_spends h vm found h0⟩

theorem ofNat_succ_ne_zero {remaining : ℕ} (hbound : remaining + 1 < 2 ^ 32) :
    UInt32.ofNat (remaining + 1) ≠ 0 := by
  intro h0
  have hzero := congrArg UInt32.toNat h0
  rw [UInt32.toNat_ofNat_of_lt' (by exact hbound)] at hzero
  exact Nat.succ_ne_zero remaining hzero

/-- A run of the loop counts what the interpreter executes, and only that. It executes something
natively unless it is quiet. -/
theorem loop_counts {remaining : ℕ} {s s' : σ} {vm : Vm} {ran : Ran} (hbound : remaining < 2 ^ 32)
    (h : runVmWithJitLoop host (tryStep find) remaining s vm = some (ran, s')) :
    ran.vm.instructionsExecuted = vm.instructionsExecuted + ran.interpreted ∧
      ran.interpreted ≤ remaining ∧ (ran.native = 0 → Quiet find host remaining s vm) := by
  induction remaining generalizing s vm ran with
  | zero =>
    cases h
    exact ⟨rfl, le_rfl, fun _ => trivial⟩
  | succ remaining ih =>
    rw [runVmWithJitLoop] at h
    rcases htry : tryStep find (host vm.instructionsExecuted) s vm (UInt32.ofNat (remaining + 1))
      with ⟨s₁, step⟩
    rw [htry] at h
    have htried := tryStep_cases (ofNat_succ_ne_zero hbound) htry
    cases step with
    | undefined => cases h
    | done result vm₁ native =>
      cases h
      rcases htried with ⟨-, hstep⟩ | ⟨-, hspends⟩
      · cases hstep
      · exact ⟨hspends.2, Nat.zero_le _, fun hzero => absurd hzero hspends.1.ne'⟩
    | resume vm₁ native =>
      dsimp only at h
      -- What the try has done to the VM that the interpreter goes on with.
      have hvm₁ : vm₁.instructionsExecuted = vm.instructionsExecuted ∧
          (native = 0 → tryFind find s vm = (s₁, none) ∧ vm₁ = vm) := by
        rcases htried with ⟨hnone, hstep⟩ | ⟨-, hspends⟩
        · cases hstep
          exact ⟨rfl, fun _ => ⟨hnone, rfl⟩⟩
        · exact ⟨hspends.2, fun hzero => absurd hzero hspends.1.ne'⟩
      have hone := run_one host vm₁
      split at h
      · rename_i vm₂ hrun
        rw [hrun] at hone
        obtain ⟨⟨ran', s''⟩, hloop, hran⟩ := Option.bind_eq_some_iff.mp h
        cases hran
        obtain ⟨hcount, hle, hquiet⟩ := ih (by omega) hloop
        dsimp only at hone ⊢
        refine ⟨by omega, by omega, fun hzero => ?_⟩
        obtain ⟨hnone, rfl⟩ := hvm₁.2 (by omega)
        refine ⟨congrArg Prod.snd hnone, fun _ => ?_⟩
        rw [hnone, hrun]
        exact hquiet (by omega)
      · rename_i other vm₂ hother hrun
        rw [hrun] at hone
        cases h
        dsimp only at hone ⊢
        refine ⟨by omega, by omega, fun hzero => ?_⟩
        obtain ⟨hnone, rfl⟩ := hvm₁.2 hzero
        refine ⟨congrArg Prod.snd hnone, fun hyield => ?_⟩
        rw [hrun] at hyield
        exact (hother hyield).elim

/-- A quiet run of the loop is one of the interpreter. -/
theorem loop_of_quiet {remaining : ℕ} {s : σ} {vm : Vm} (h : Quiet find host remaining s vm) :
    ∃ ran s', runVmWithJitLoop host (tryStep find) remaining s vm = some (ran, s') ∧
      ran.native = 0 := by
  induction remaining generalizing s vm with
  | zero => exact ⟨_, _, rfl, rfl⟩
  | succ remaining ih =>
    obtain ⟨hnone, hrest⟩ := h
    have htry : tryStep find (host vm.instructionsExecuted) s vm (UInt32.ofNat (remaining + 1)) =
        ((tryFind find s vm).1, .resume vm 0) := by
      unfold tryStep
      rcases hfind : tryFind find s vm with ⟨s₁, found⟩
      rw [hfind] at hnone
      cases hnone
      rfl
    rw [runVmWithJitLoop, htry]
    dsimp only
    split
    · rename_i vm₂ hrun
      rw [hrun] at hrest
      obtain ⟨ran, s', hloop, hzero⟩ := ih (hrest rfl)
      refine ⟨_, _, by rw [hloop]; rfl, ?_⟩
      show 0 + ran.native = 0
      omega
    · exact ⟨_, _, rfl, rfl⟩

/-- **The budget of a run with traces.** -/
theorem accounted_iff_quiet {remaining : ℕ} {s : σ} {vm : Vm} (hbound : remaining < 2 ^ 32) :
    (∃ ran s', runVmWithJitLoop host (tryStep find) remaining s vm = some (ran, s') ∧
      ran.Accounted remaining vm) ↔ Quiet find host remaining s vm := by
  constructor
  · rintro ⟨ran, s', hloop, -, hcounted⟩
    obtain ⟨hcount, -, hquiet⟩ := loop_counts hbound hloop
    exact hquiet (by omega)
  · intro hquiet
    obtain ⟨ran, s', hloop, hzero⟩ := loop_of_quiet hquiet
    obtain ⟨hcount, hle, -⟩ := loop_counts hbound hloop
    exact ⟨ran, s', hloop, by omega, by omega⟩

end

/-- **The JIT respects the budget only while it runs no trace.** -/
theorem jit_accounted_iff (host : ℕ → Host) (vm : Vm) (budget : UInt32) (sameChunk : Bool)
    (ctx : JitContext) (shared : SharedTraces) :
    ((∃ ran ctx', runVmWithJit host sameChunk vm budget ctx = some (ran, ctx') ∧
        ran.Accounted budget.toNat vm) ↔
      Quiet (findInContext sameChunk) host budget.toNat ctx vm) ∧
    ((∃ ran shared', runVmWithJitRuntime host vm budget shared = some (ran, shared') ∧
        ran.Accounted budget.toNat vm) ↔
      Quiet SharedTraces.find host budget.toNat shared vm) :=
  ⟨accounted_iff_quiet budget.toNat_lt, accounted_iff_quiet budget.toNat_lt⟩

/-- `main` jumps to itself. -/
def spin : Chunk where
  name := "spin"
  constants := []
  code := [.onlyImm .jump (-1)]
  functions := [⟨"main", 0, 0, 1⟩]

/-- A context that compiles at once. -/
def eager (chunk : Chunk) : JitContext where
  chunk := chunk
  cache := fun _ => none
  hot := ⟨fun _ => 0⟩
  hotThreshold := 1

def stillHost : Host := ⟨0, false, fun _ => 0⟩

/-- A budget of three instructions, spent six times over in traces. -/
example : (runVmWithJit (fun _ => stillHost) true (atStart spin [.unit]) 3 (eager spin)).map
    (fun p => (p.1.native, p.1.interpreted, p.1.vm.instructionsExecuted)) = some (6, 3, 3) := by
  decide

/-- The loop overruns its budget. -/
theorem jit_overruns_budget :
    ¬∀ (host : ℕ → Host) (vm : Vm) (budget : UInt32) (sameChunk : Bool) (ctx : JitContext),
      vm.chunk.verifyWith .untrusted = .ok () →
        ∃ ran ctx', runVmWithJit host sameChunk vm budget ctx = some (ran, ctx') ∧
          ran.Accounted budget.toNat vm := by
  intro hall
  have hverified : spin.verifyWith .untrusted = .ok () := by decide
  obtain ⟨ran, ctx', hrun, hle, -⟩ :=
    hall (fun _ => stillHost) (atStart spin [.unit]) 3 true (eager spin) hverified
  have hnine : (runVmWithJit (fun _ => stillHost) true (atStart spin [.unit]) 3
      (eager spin)).map (fun p => p.1.native + p.1.interpreted) = some 9 := by decide
  rw [hrun] at hnine
  have hsum : ran.native + ran.interpreted = 9 := Option.some.inj hnine
  have hthree : (3 : UInt32).toNat = 3 := rfl
  omega

end Jit

end Byteflow
