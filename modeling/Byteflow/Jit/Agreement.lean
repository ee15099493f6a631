import Byteflow.Jit.Budget
import Byteflow.Jit.Simulation

/-!
# What a trace leaves

A VM at the entry of a compiled trace (`Entered`), and what it has to do with the interpreter when
the trace ends. Without calls the integers are the interpreter's (`trace_simulates`), with calls the
whole frame stack (`trace_keeps_frames`), and if kinds are asked for, the values
(`trace_keeps_kinds`), each where the instructions that are executed are faithful. None holds of
every run: the returns of a trace share one exit, its frames share their slots, and an exit makes
every register an integer. -/

namespace Byteflow

namespace Jit

open Vm

/-- A VM at the entry of a trace of a verified chunk, and the slots that the trace starts from. -/
structure Entered (chunk : Chunk) (trust : TrustLevel) (key : TraceKey) (trace : CompiledTrace)
    (vm : Vm) (frame : Frame) (rest : List Frame) (slots : List Int64) : Prop where
  verified : chunk.verifyWith trust = .ok ()
  compiled : compileTrace chunk key = .ok trace
  wellFormed : vm.WellFormed chunk
  frames : vm.frames = frame :: rest
  function : frame.function = key.function
  pc : frame.pc = key.entryPc.toNat
  synced : syncSlotsFromVm vm (List.replicate (slotCapacity vm) 0) = .ok slots

section

variable {chunk : Chunk} {trust : TrustLevel} {key : TraceKey} {trace : CompiledTrace} {vm : Vm}
  {frame : Frame} {rest : List Frame} {slots : List Int64}

theorem Entered.agrees (hentered : Entered chunk trust key trace vm frame rest slots) (d : Demand)
    (host : ℕ → Host) (h : Host) (hlength : chunk.code.length < 2 ^ 32)
    (budget registerCount : UInt32)
    (hfaithful : FaithfulRun d host chunk key frame.registers (budget.toNat + 2) key.entryPc
      (startFrame slots key.entryPc budget key.function registerCount) vm) :
    Ends d host h chunk key vm budget.toNat
      (runCompiledTrace trace slots key.entryPc budget key.function registerCount) :=
  trace_agrees d host h hentered.verified hlength hentered.compiled hentered.wellFormed
    hentered.frames hentered.function hentered.pc hentered.synced budget registerCount hfaithful

/-! ## Traces without calls -/

/-- **A trace without calls simulates the interpreter.** -/
theorem trace_simulates (hentered : Entered chunk trust key trace vm frame rest slots)
    (host : ℕ → Host) (h : Host) (hlength : chunk.code.length < 2 ^ 32)
    (hcalls : (regionContext chunk (collectTraceRegion chunk key)).supportsCalls = false)
    (budget registerCount : UInt32)
    (hfaithful : FaithfulRun .integers host chunk key frame.registers (budget.toNat + 2)
      key.entryPc (startFrame slots key.entryPc budget key.function registerCount) vm) :
    ∃ fr applied, runCompiledTrace trace slots key.entryPc budget key.function registerCount =
        .returned fr ∧
      applyExitToVm h vm fr.slots (intoReason fr) = some applied ∧
        Agree .integers applied (Vm.run host (budget.toNat - fr.budget.toNat) vm) := by
  obtain ⟨fr, n, hrun, hexecuted, -, applied, happlied, hagree⟩ :=
    hentered.agrees .integers host h hlength budget registerCount hfaithful
  have hspent : n + fr.budget.toNat = budget.toNat := by
    refine hexecuted.resolve_right ?_
    rintro ⟨-, instr, hmem, hop⟩
    rw [supportsCalls_of_mem hmem hop] at hcalls
    cases hcalls
  refine ⟨fr, applied, hrun, happlied, ?_⟩
  rw [← hspent, Nat.add_sub_cancel]
  exact hagree

end

/-- A frame that is entered at the start of the code. -/
theorem entered_atStart {chunk : Chunk} {trace : CompiledTrace} {registers : List Value}
    {slots : List Int64} {f : FunctionDef} (hverified : chunk.verifyWith .untrusted = .ok ())
    (hcompiled : compileTrace chunk ⟨0, 0⟩ = .ok trace) (hf : chunk.function 0 = some f)
    (hregisters : registers.length = f.numRegisters.toNat)
    (hsynced : syncSlotsFromVm (atStart chunk registers)
      (List.replicate (slotCapacity (atStart chunk registers)) 0) = .ok slots) :
    Entered chunk .untrusted ⟨0, 0⟩ trace (atStart chunk registers) ⟨0, 0, registers, none⟩ []
      slots where
  verified := hverified
  compiled := hcompiled
  wellFormed := by
    refine ⟨rfl, fun frame hframe => ?_, (by decide : 1 ≤ maxCallDepth)⟩
    cases List.mem_singleton.mp hframe
    exact ⟨Nat.zero_le _, f, hf, hregisters⟩
  frames := rfl
  function := rfl
  pc := rfl
  synced := hsynced

theorem faithful_addition (d : Demand) :
    FaithfulRun d (fun _ => stillHost) addition ⟨0, 0⟩ [.unit, .unit, .unit] 12 0
      (startFrame [0, 0, 0] 0 10 0 3) (atStart addition [.unit, .unit, .unit]) := by
  refine ⟨⟨⟨by decide, by decide⟩, ⟨by decide, by decide⟩, ?_⟩, trivial⟩
  refine ⟨⟨⟨by decide, by decide⟩, 41, 1, rfl, rfl, trivial⟩, ?_, trivial⟩
  refine ⟨.int 42, rfl, fun _ => ⟨42, rfl⟩, fun _ => ⟨by decide, .inl rfl⟩⟩

theorem trace_simulates_addition :
    ∃ trace, compileTrace addition ⟨0, 0⟩ = .ok trace ∧
      ∃ fr applied, runCompiledTrace trace [0, 0, 0] 0 10 0 3 = .returned fr ∧
        applyExitToVm stillHost (atStart addition [.unit, .unit, .unit]) fr.slots (intoReason fr) =
          some applied ∧
        Agree .integers applied (Vm.run (fun _ => stillHost)
          ((10 : UInt32).toNat - fr.budget.toNat) (atStart addition [.unit, .unit, .unit])) := by
  obtain ⟨trace, htrace⟩ := exists_of_isOk (x := compileTrace addition ⟨0, 0⟩) (by decide)
  exact ⟨trace, htrace, trace_simulates (entered_atStart (by decide) htrace rfl rfl rfl)
    (fun _ => stillHost) stillHost (by decide) (by decide) 10 3 (faithful_addition .integers)⟩

/-- `main` returns `r1` or `r2`, as `r0` says. -/
def chooses : Chunk where
  name := "chooses"
  constants := []
  code := [.aImm .branch 0 1, .abc .return 1 0 0, .abc .return 2 0 0]
  functions := [⟨"main", 0, 0, 3⟩]

/-- The frame in which a trace of `chooses` returns. -/
def chosen : JitFrame :=
  { startFrame [1, 10, 20] 0 10 0 3 with
    budget := 8, pc := 2, exitKind := jitReturn, returnReg := 2 }

/-- All returns of a trace return the register of the last. -/
theorem shared_return_differs :
    ¬∀ (chunk : Chunk) (trust : TrustLevel) (key : TraceKey) (trace : CompiledTrace) (vm : Vm)
        (frame : Frame) (rest : List Frame) (slots : List Int64) (host : ℕ → Host) (h : Host)
        (budget registerCount : UInt32) (fr : JitFrame),
      Entered chunk trust key trace vm frame rest slots →
      (regionContext chunk (collectTraceRegion chunk key)).supportsCalls = false →
      (∀ v ∈ frame.registers, ∃ i, v = .int i) →
      runCompiledTrace trace slots key.entryPc budget key.function registerCount = .returned fr →
      fr.exitKind ≠ jitBudget →
        ∃ applied, applyExitToVm h vm fr.slots (intoReason fr) = some applied ∧
          Agree .integers applied (Vm.run host (budget.toNat - fr.budget.toNat) vm) := by
  intro hall
  obtain ⟨trace, htrace⟩ := exists_of_isOk (x := compileTrace chooses ⟨0, 0⟩) (by decide)
  have hrun : (compileTrace chooses ⟨0, 0⟩).toOption.map
      (fun trace => runCompiledTrace trace [1, 10, 20] 0 10 0 3) =
        some (.returned chosen) := by decide
  rw [htrace] at hrun
  obtain ⟨applied, happlied, hagree⟩ := hall chooses .untrusted ⟨0, 0⟩ trace
    (atStart chooses [.int 1, .int 10, .int 20]) _ _ [1, 10, 20] (fun _ => stillHost) stillHost 10 3
    chosen (entered_atStart (by decide) htrace rfl rfl rfl) (by decide) (by simp)
    (Option.some.inj hrun) (by decide)
  have hnative : (applyExitToVm stillHost (atStart chooses [.int 1, .int 10, .int 20]) chosen.slots
      (intoReason chosen)).map (resultOf ·.1) = some (.complete (.int 20)) := by rfl
  have hinterpreted : (Vm.run (fun _ => stillHost) ((10 : UInt32).toNat - chosen.budget.toNat)
      (atStart chooses [.int 1, .int 10, .int 20])).1 = .complete (.int 10) := by rfl
  rw [happlied] at hnative
  have hresult := hagree.result
  rw [show resultOf applied.1 = _ from Option.some.inj hnative, hinterpreted] at hresult
  exact absurd (SameInteger.eq hresult.value) (by decide)

/-! ## Calls -/

/-- `main` calls `negate`, which has the same register. -/
def negates : Chunk where
  name := "negates"
  constants := []
  code := [.aImm .loadImm 0 41, ⟨.call, 0, 1, 0, 1⟩, .abc .return 0 0 0, .abc .neg 0 0 0,
    .abc .return 0 0 0]
  functions := [⟨"main", 0, 0, 1⟩, ⟨"negate", 3, 1, 1⟩]

/-- `main` calls `seven`, which writes the register that `main` keeps. -/
def clobbers : Chunk where
  name := "clobbers"
  constants := []
  code := [⟨.call, 1, 0, 0, 1⟩, .abc .return 0 0 0, .aImm .loadImm 0 7, .abc .return 0 0 0]
  functions := [⟨"main", 0, 0, 2⟩, ⟨"seven", 2, 0, 1⟩]

/-- The frame in which a trace of `clobbers` comes back to `main`. -/
def clobbered : JitFrame :=
  { startFrame [7, 7] 1 7 0 2 with
    callStack := (List.replicate maxJitCallDepth ⟨0, 0, 0, 0⟩).set 0 ⟨1, 0, 1, 2⟩ }

theorem syncedAt_ok {vm : Vm} {frame : Frame} {rest : List Frame}
    (hframes : vm.frames = frame :: rest) (slots : List Int64) (pc : UInt32) :
    (syncedAt vm slots pc).1 = .ok none := by
  unfold syncedAt syncSlotsToVm
  rw [setPc_of_frames hframes]

theorem intoReason_budget {fr : JitFrame} (h : fr.exitKind = jitBudget) :
    intoReason fr = .budget fr.pc := by
  unfold intoReason
  rw [h]
  rfl

/-- **A budget exit keeps the work of the trace.** The interpreter can take a step for each unit of
the budget, and is then where the exit leaves the VM. -/
theorem budget_exit_keeps_work {chunk : Chunk} {trust : TrustLevel} {key : TraceKey}
    {trace : CompiledTrace} {vm : Vm} {frame : Frame} {rest : List Frame} {slots : List Int64}
    (hentered : Entered chunk trust key trace vm frame rest slots) (host : ℕ → Host) (h : Host)
    (hlength : chunk.code.length < 2 ^ 32) (budget registerCount : UInt32)
    (hfaithful : FaithfulRun .integers host chunk key frame.registers (budget.toNat + 2)
      key.entryPc (startFrame slots key.entryPc budget key.function registerCount) vm)
    {fr : JitFrame} (hrun : runCompiledTrace trace slots key.entryPc budget key.function
      registerCount = .returned fr) (hbudget : fr.exitKind = jitBudget) :
    ∃ applied vm', applyExitToVm h vm fr.slots (intoReason fr) = some applied ∧
      StepsTo host budget.toNat vm vm' ∧ applied.1 = .ok none ∧
        List.Forall₂ (Demand.OnFrame .integers) applied.2.frames vm'.frames := by
  obtain ⟨fr', n, hrun', -, hall, applied, happlied, hagree⟩ :=
    hentered.agrees .integers host h hlength budget registerCount hfaithful
  rw [hrun] at hrun'
  cases hrun'
  obtain ⟨rfl, vm', hsteps⟩ := hall hbudget
  rw [hsteps.run_eq] at hagree
  refine ⟨applied, vm', happlied, hsteps, ?_, hagree.frames (.inr VmResult.noConfusion)⟩
  rw [intoReason_budget hbudget] at happlied
  rw [← Option.some.inj happlied]
  exact syncedAt_ok hentered.frames fr.slots fr.pc

/-- `main` loads a number and jumps to its return. -/
def loadsAndJumps : Chunk where
  name := "loads and jumps"
  constants := []
  code := [.aImm .loadImm 0 7, .onlyImm .jump 0, .abc .return 0 0 0]
  functions := [⟨"main", 0, 0, 1⟩]

/-- The frame in which the budget runs out after the jump. -/
def afterJump : JitFrame := { startFrame [7] 2 0 0 1 with exitKind := jitBudget }

theorem budget_exit_keeps_work_jump :
    ∃ trace, compileTrace loadsAndJumps ⟨0, 0⟩ = .ok trace ∧
      ∃ applied vm', applyExitToVm stillHost (atStart loadsAndJumps [.int 5]) afterJump.slots
          (intoReason afterJump) = some applied ∧
        StepsTo (fun _ => stillHost) (2 : UInt32).toNat (atStart loadsAndJumps [.int 5]) vm' ∧
        applied.1 = .ok none ∧
        List.Forall₂ (Demand.OnFrame .integers) applied.2.frames vm'.frames := by
  obtain ⟨trace, htrace⟩ := exists_of_isOk (x := compileTrace loadsAndJumps ⟨0, 0⟩) (by decide)
  have hrun : (compileTrace loadsAndJumps ⟨0, 0⟩).toOption.map
      (fun trace => runCompiledTrace trace [5] 0 2 0 1) = some (.returned afterJump) := by decide
  rw [htrace] at hrun
  refine ⟨trace, htrace, budget_exit_keeps_work (entered_atStart (by decide) htrace rfl rfl rfl)
    (fun _ => stillHost) stillHost (by decide) 2 1 ?_ (Option.some.inj hrun) rfl⟩
  -- the block up to the jump, then the return, at which nothing is left of the budget
  refine ⟨⟨⟨by decide, by decide⟩, fun h => absurd h (by decide), trivial⟩, ⟨?_, rfl, ?_⟩, trivial⟩
  · intro r i hr
    cases r with
    | zero => cases hr
    | succ r => cases hr
  · intro hd
    cases hd

/-- `main` loads a number and returns it. -/
def loadsAndReturns : Chunk where
  name := "loads and returns"
  constants := []
  code := [.aImm .loadImm 0 7, .abc .return 0 0 0]
  functions := [⟨"main", 0, 0, 1⟩]

/-- The frame in which the budget runs out before the number is stored. -/
def beforeReturn : JitFrame := { startFrame [5] 1 0 0 1 with exitKind := jitBudget }

/-- What the block has not stored yet is lost when the budget runs out. -/
theorem budget_exit_loses_work :
    ¬∀ (chunk : Chunk) (trust : TrustLevel) (key : TraceKey) (trace : CompiledTrace) (vm : Vm)
        (frame : Frame) (rest : List Frame) (slots : List Int64) (host : ℕ → Host) (h : Host)
        (budget registerCount : UInt32) (fr : JitFrame),
      Entered chunk trust key trace vm frame rest slots →
      (∀ v ∈ frame.registers, ∃ i, v = .int i) →
      runCompiledTrace trace slots key.entryPc budget key.function registerCount = .returned fr →
      fr.exitKind = jitBudget →
        ∃ applied vm', applyExitToVm h vm fr.slots (intoReason fr) = some applied ∧
          StepsTo host budget.toNat vm vm' ∧
          List.Forall₂ (Demand.OnFrame .integers) applied.2.frames vm'.frames := by
  intro hall
  obtain ⟨trace, htrace⟩ := exists_of_isOk (x := compileTrace loadsAndReturns ⟨0, 0⟩) (by decide)
  have hrun : (compileTrace loadsAndReturns ⟨0, 0⟩).toOption.map
      (fun trace => runCompiledTrace trace [5] 0 1 0 1) = some (.returned beforeReturn) := by decide
  rw [htrace] at hrun
  obtain ⟨applied, vm', happlied, hsteps, hframes⟩ := hall loadsAndReturns .untrusted ⟨0, 0⟩ trace
    (atStart loadsAndReturns [.int 5]) _ _ [5] (fun _ => stillHost) stillHost 1 1 beforeReturn
    (entered_atStart (by decide) htrace rfl rfl rfl) (by simp) (Option.some.inj hrun) rfl
  have hnative : (applyExitToVm stillHost (atStart loadsAndReturns [.int 5]) beforeReturn.slots
      (intoReason beforeReturn)).map (·.2.frames) = some [⟨0, 1, [.int 5], none⟩] := by rfl
  have hinterpreted : (Vm.run (fun _ => stillHost) 1
      (atStart loadsAndReturns [.int 5])).2.frames = [⟨0, 1, [.int 7], none⟩] := by rfl
  rw [happlied] at hnative
  rw [show applied.2.frames = _ from Option.some.inj hnative,
    ← congrArg (fun r => r.2.frames) hsteps.run_eq] at hframes
  obtain ⟨hframe, -⟩ := List.forall₂_cons.mp (hinterpreted ▸ hframes)
  obtain ⟨hregister, -⟩ := List.forall₂_cons.mp hframe.registers
  exact absurd (SameInteger.eq hregister) (by decide)

/-! ## Kinds -/

/-- **A trace keeps the kinds.** -/
theorem trace_keeps_kinds {chunk : Chunk} {trust : TrustLevel} {key : TraceKey}
    {trace : CompiledTrace} {vm : Vm} {frame : Frame} {rest : List Frame} {slots : List Int64}
    (hentered : Entered chunk trust key trace vm frame rest slots) (host : ℕ → Host) (h : Host)
    (hlength : chunk.code.length < 2 ^ 32) (budget registerCount : UInt32)
    (hfaithful : FaithfulRun .kinds host chunk key frame.registers (budget.toNat + 2)
      key.entryPc (startFrame slots key.entryPc budget key.function registerCount) vm) :
    ∃ fr n applied, runCompiledTrace trace slots key.entryPc budget key.function registerCount =
        .returned fr ∧
      Executed chunk key budget.toNat n fr ∧
      applyExitToVm h vm fr.slots (intoReason fr) = some applied ∧
        Agree .kinds applied (Vm.run host n vm) := by
  obtain ⟨fr, n, hrun, hexecuted, -, applied, happlied, hagree⟩ :=
    hentered.agrees .kinds host h hlength budget registerCount hfaithful
  exact ⟨fr, n, applied, hrun, hexecuted, happlied, hagree⟩

theorem trace_keeps_kinds_addition :
    ∃ trace, compileTrace addition ⟨0, 0⟩ = .ok trace ∧
      ∃ fr n applied, runCompiledTrace trace [0, 0, 0] 0 10 0 3 = .returned fr ∧
        Executed addition ⟨0, 0⟩ (10 : UInt32).toNat n fr ∧
        applyExitToVm stillHost (atStart addition [.unit, .unit, .unit]) fr.slots (intoReason fr) =
          some applied ∧
        Agree .kinds applied
          (Vm.run (fun _ => stillHost) n (atStart addition [.unit, .unit, .unit])) := by
  obtain ⟨trace, htrace⟩ := exists_of_isOk (x := compileTrace addition ⟨0, 0⟩) (by decide)
  exact ⟨trace, htrace, trace_keeps_kinds (entered_atStart (by decide) htrace rfl rfl rfl)
    (fun _ => stillHost) stillHost (by decide) 10 3 (faithful_addition .kinds)⟩

/-- `main` returns whether one number is less than another. -/
def compares : Chunk where
  name := "compares"
  constants := []
  code := [.aImm .loadImm 0 1, .aImm .loadImm 1 2, .abc .lt 2 0 1, .abc .return 2 0 0]
  functions := [⟨"main", 0, 0, 3⟩]

/-- The frame in which a trace of `compares` returns. -/
def compared : JitFrame :=
  { startFrame [0, 0, 1] 3 6 0 3 with exitKind := jitReturn, returnReg := 2 }

/-- A boolean is returned as an integer. -/
theorem boolean_becomes_integer :
    ¬∀ (chunk : Chunk) (trust : TrustLevel) (key : TraceKey) (trace : CompiledTrace) (vm : Vm)
        (frame : Frame) (rest : List Frame) (slots : List Int64) (host : ℕ → Host) (h : Host)
        (budget registerCount : UInt32) (fr : JitFrame) (n : ℕ),
      Entered chunk trust key trace vm frame rest slots →
      runCompiledTrace trace slots key.entryPc budget key.function registerCount = .returned fr →
      Executed chunk key budget.toNat n fr →
        ∃ applied, applyExitToVm h vm fr.slots (intoReason fr) = some applied ∧
          Agree .kinds applied (Vm.run host n vm) := by
  intro hall
  obtain ⟨trace, htrace⟩ := exists_of_isOk (x := compileTrace compares ⟨0, 0⟩) (by decide)
  have hrun : (compileTrace compares ⟨0, 0⟩).toOption.map
      (fun trace => runCompiledTrace trace [0, 0, 0] 0 10 0 3) = some (.returned compared) := by
    decide
  rw [htrace] at hrun
  obtain ⟨applied, happlied, hagree⟩ := hall compares .untrusted ⟨0, 0⟩ trace
    (atStart compares [.unit, .unit, .unit]) _ _ [0, 0, 0] (fun _ => stillHost) stillHost 10 3
    compared 4 (entered_atStart (by decide) htrace rfl rfl rfl) (Option.some.inj hrun) (.inl rfl)
  have hnative : (applyExitToVm stillHost (atStart compares [.unit, .unit, .unit]) compared.slots
      (intoReason compared)).map (resultOf ·.1) = some (.complete (.int 1)) := by rfl
  have hinterpreted : (Vm.run (fun _ => stillHost) 4
      (atStart compares [.unit, .unit, .unit])).1 = .complete (.bool true) := by rfl
  rw [happlied] at hnative
  have hresult := hagree.result
  rw [show resultOf applied.1 = _ from Option.some.inj hnative, hinterpreted] at hresult
  exact absurd hresult.value (by
    intro heq
    cases heq)

end Jit

end Byteflow
