import Byteflow.Jit.Kept

/-!
# Divisions in compiled code

`sdiv` and `srem` trap on operands of which the interpreter makes a fault or a wrapped result. The
code of a `Div` or `Mod` tests for a zero divisor before, so `srem` never traps; `sdiv` does where
the quotient of the least integer by -1 would not fit. A run of a trace faults in hardware exactly
if it comes to such a division (`divisions_safe_iff`).
-/

namespace Byteflow

namespace Jit

/-! ## Along a run -/

/-- `P` holds of each instruction that the code of the rest of a block executes, with the registers
and the frame that it starts from. -/
def AlongBlock (P : UInt32 → Instruction → RegisterMap Int64 → JitFrame → Prop)
    (ctx : EmitContext) : List UInt32 → RegisterMap Int64 → JitFrame → Prop
  | [], _, _ => True
  | pc :: pcs, m, fr =>
    if fr.budget = 0 then True
    else
      match ctx.chunk.code[pc.toNat]? with
      | none => True
      | some instr =>
        P pc instr m { fr with budget := fr.budget - 1 } ∧
          match exec ctx pc instr m { fr with budget := fr.budget - 1 } with
          | .next m fr => AlongBlock P ctx pcs m fr
          | .stop _ => True

/-- `P` holds of each instruction that a trace executes from the block at `pc` on. -/
def AlongRun (P : UInt32 → Instruction → RegisterMap Int64 → JitFrame → Prop) (chunk : Chunk)
    (key : TraceKey) : ℕ → UInt32 → JitFrame → Prop
  | 0, _, _ => True
  | fuel + 1, pc, fr =>
    match blockAt (collectTraceRegion chunk key) pc, chunk.function key.function with
    | some b, some f =>
      let ctx := regionContext chunk (collectTraceRegion chunk key)
      let m := RegisterMap.new f.numRegisters.toNat
      AlongBlock P ctx b.pcs m fr ∧
        match execBlock ctx b.pcs m fr with
        | .jump (.region pc) fr => AlongRun P chunk key fuel pc fr
        | _ => True
    | _, _ => True

section

variable {P Q : UInt32 → Instruction → RegisterMap Int64 → JitFrame → Prop} {ctx : EmitContext}
  {m : RegisterMap Int64} {fr : JitFrame}

theorem AlongBlock.mono (hPQ : ∀ pc instr m fr, P pc instr m fr → Q pc instr m fr)
    {pcs : List UInt32} (h : AlongBlock P ctx pcs m fr) : AlongBlock Q ctx pcs m fr := by
  induction pcs generalizing m fr with
  | nil => trivial
  | cons pc pcs ih =>
    unfold AlongBlock at h ⊢
    by_cases h0 : fr.budget = 0
    · rw [if_pos h0]
      trivial
    rw [if_neg h0] at h ⊢
    cases hinstr : ctx.chunk.code[pc.toNat]? with
    | none => trivial
    | some instr =>
      rw [hinstr] at h
      obtain ⟨hone, hrest⟩ := h
      refine ⟨hPQ _ _ _ _ hone, ?_⟩
      cases hexec : exec ctx pc instr m { fr with budget := fr.budget - 1 } with
      | next m' fr' =>
        rw [hexec] at hrest
        exact ih hrest
      | stop r => trivial

theorem AlongRun.mono (hPQ : ∀ pc instr m fr, P pc instr m fr → Q pc instr m fr) {chunk : Chunk}
    {key : TraceKey} {fuel : ℕ} {pc : UInt32} (h : AlongRun P chunk key fuel pc fr) :
    AlongRun Q chunk key fuel pc fr := by
  induction fuel generalizing pc fr with
  | zero => trivial
  | succ fuel ih =>
    unfold AlongRun at h ⊢
    split
    · rename_i b f hb hf
      rw [hb, hf] at h
      obtain ⟨hblock, hrest⟩ := h
      refine ⟨hblock.mono hPQ, ?_⟩
      split
      · rename_i pc' fr' hblock
        rw [hblock] at hrest
        exact ih hrest
      · trivial
    · trivial

/-! ## One instruction -/

/-- The operands with which the code of a division comes to its test: they are loaded, and the
registers are flushed. -/
def dividing (instr : Instruction) (m : RegisterMap Int64) (fr : JitFrame) :
    Option (Int64 × Int64 × RegisterMap Int64 × JitFrame) := do
  let (lhs, rhs, m) ← readOperands m fr instr
  (flushSlots 0 m fr).map fun fr => (lhs, rhs, m, fr)

/-- A `Div` of which the quotient does not fit. -/
def Overflows (instr : Instruction) (m : RegisterMap Int64) (fr : JitFrame) : Prop :=
  instr.op = .div ∧ ∃ m' fr', dividing instr m fr = some (Int64.minValue, -1, m', fr')

/-- A `Div` or `Mod` goes on with the interpreter's result, and jumps to the exit of traps where the
interpreter divides by zero. -/
structure Divides (ctx : EmitContext) (pc : UInt32) (instr : Instruction) (m : RegisterMap Int64)
    (fr : JitFrame) (lhs rhs : Int64) (m' : RegisterMap Int64) (fr' : JitFrame) : Prop where
  traps : Vm.numericBinop instr.op (.int lhs) (.int rhs) = .error .divideByZero →
    exec ctx pc instr m fr = .stop (.jump .trap fr')
  wraps : ∀ q, Vm.numericBinop instr.op (.int lhs) (.int rhs) = .ok (.int q) →
    exec ctx pc instr m fr = .next (m'.set instr.a q) fr'

/-- If the instruction divides, it divides as the interpreter does. -/
def DividesAsInterpreted (ctx : EmitContext) (pc : UInt32) (instr : Instruction)
    (m : RegisterMap Int64) (fr : JitFrame) : Prop :=
  instr.op = .div ∨ instr.op = .mod → ∀ lhs rhs m' fr',
    dividing instr m fr = some (lhs, rhs, m', fr') → Divides ctx pc instr m fr lhs rhs m' fr'

theorem execDivision_of_none {op : Binary} {instr : Instruction}
    (h : dividing instr m fr = none) : execDivision op instr m fr = .stop .outOfBounds := by
  unfold dividing at h
  unfold execDivision
  rcases hread : readOperands m fr instr with _ | ⟨lhs, rhs, m'⟩
  · rfl
  · rw [hread, Option.bind_eq_bind, Option.bind_some, Option.map_eq_none_iff] at h
    dsimp only at h ⊢
    rw [h]

theorem execDivision_of_some {op : Binary} {instr : Instruction} {lhs rhs : Int64}
    {m' : RegisterMap Int64} {fr' : JitFrame}
    (h : dividing instr m fr = some (lhs, rhs, m', fr')) :
    execDivision op instr m fr =
      if rhs = 0 then .stop (.jump .trap fr')
      else (op.eval lhs rhs).elim (.stop .fault) fun x => .next (m'.set instr.a x) fr' := by
  unfold dividing at h
  unfold execDivision
  rcases hread : readOperands m fr instr with _ | ⟨lhs₀, rhs₀, m₀⟩
  · rw [hread] at h
    cases h
  · rw [hread, Option.bind_eq_bind, Option.bind_some] at h
    obtain ⟨fr₀, hflush, hsame⟩ := Option.map_eq_some_iff.mp h
    cases hsame
    dsimp only
    rw [hflush]
    dsimp only
    cases op.eval lhs rhs <;> rfl

theorem divides_of_eval {ctx : EmitContext} {pc : UInt32} {instr : Instruction} {op : Binary}
    {lhs rhs q : Int64} {m' : RegisterMap Int64} {fr' : JitFrame}
    (hexec : exec ctx pc instr m fr = execDivision op instr m fr)
    (hdividing : dividing instr m fr = some (lhs, rhs, m', fr'))
    (heval : rhs ≠ 0 → op.eval lhs rhs = some q)
    (hvalue : Vm.numericBinop instr.op (.int lhs) (.int rhs) =
      if rhs = 0 then .error .divideByZero else .ok (.int q)) :
    Divides ctx pc instr m fr lhs rhs m' fr' := by
  rw [execDivision_of_some hdividing] at hexec
  by_cases h0 : rhs = 0
  · rw [if_pos h0] at hexec hvalue
    refine ⟨fun _ => hexec, fun q' hq' => ?_⟩
    rw [hvalue] at hq'
    cases hq'
  · rw [if_neg h0, heval h0] at hexec
    rw [if_neg h0] at hvalue
    refine ⟨fun htrap => ?_, fun q' hq' => ?_⟩
    · rw [hvalue] at htrap
      cases htrap
    · rw [hvalue] at hq'
      cases hq'
      exact hexec

/-- A division that does not overflow is the interpreter's. -/
theorem divides_of_not_overflows (ctx : EmitContext) (pc : UInt32) {instr : Instruction}
    (h : ¬Overflows instr m fr) : DividesAsInterpreted ctx pc instr m fr := by
  rintro (hop | hop) lhs rhs m' fr' hdividing
  · have hfits : ¬(lhs = Int64.minValue ∧ rhs = -1) := by
      rintro ⟨rfl, rfl⟩
      exact h ⟨hop, m', fr', hdividing⟩
    have hexec : exec ctx pc instr m fr = execDivision .sdiv instr m fr := by
      unfold exec
      rw [hop]
    refine divides_of_eval hexec hdividing (fun h0 => if_neg (not_or.mpr ⟨h0, hfits⟩)) ?_
    rw [hop]
    rfl
  · have hexec : exec ctx pc instr m fr = execDivision .srem instr m fr := by
      unfold exec
      rw [hop]
    refine divides_of_eval hexec hdividing (fun h0 => if_neg h0) ?_
    rw [hop]
    rfl

/-! ## Faults -/

theorem inBounds_ne_fault {α : Type} {a : Option α} {k : α → Run} (h : ∀ x, k x ≠ .fault) :
    inBounds a k ≠ .fault := by
  cases a with
  | none => exact Run.noConfusion
  | some x => exact h x

theorem goTo_ne_fault (ctx : EmitContext) (pc : UInt32) (fr : JitFrame) :
    goTo ctx pc fr ≠ .fault := by
  unfold goTo
  split_ifs <;> exact Run.noConfusion

theorem execBranch_ne_fault (ctx : EmitContext) (pc : UInt32) (instr : Instruction) :
    execBranch ctx pc instr m fr ≠ .fault := by
  refine inBounds_ne_fault fun cond => inBounds_ne_fault fun fr => ?_
  dsimp only
  split_ifs
  · exact Run.noConfusion
  · exact goTo_ne_fault _ _ _
  · exact goTo_ne_fault _ _ _

theorem execReturn_ne_fault (pc : UInt32) (reg : UInt8) : execReturn pc reg fr ≠ .fault := by
  unfold execReturn
  split_ifs
  · exact Run.noConfusion
  · refine inBounds_ne_fault fun r => inBounds_ne_fault fun v => inBounds_ne_fault fun fr => ?_
    exact Run.noConfusion

theorem execCall_ne_fault (ctx : EmitContext) (pc : UInt32) (instr : Instruction)
    (callee : FunctionDef) : execCall ctx pc instr callee m fr ≠ .fault := by
  refine inBounds_ne_fault fun fr => ?_
  split_ifs
  · exact Run.noConfusion
  · exact Run.noConfusion
  · exact inBounds_ne_fault fun r => inBounds_ne_fault fun fr => Run.noConfusion

theorem execBinary_ne_fault {op : Binary} (hop : ∀ x y, op.eval x y ≠ none) (instr : Instruction) :
    execBinary op instr m fr ≠ .stop .fault := by
  unfold execBinary
  rcases readOperands m fr instr with _ | ⟨lhs, rhs, m'⟩
  · simp
  · dsimp only
    obtain ⟨x, hx⟩ := Option.ne_none_iff_exists'.mp (hop lhs rhs)
    rw [hx]
    simp

theorem execCompare_ne_fault (cc : IntCC) (instr : Instruction) :
    execCompare cc instr m fr ≠ .stop .fault := by
  unfold execCompare
  rcases readOperands m fr instr with _ | ⟨lhs, rhs, m'⟩ <;> simp

/-- A division that does not fault goes on, traps, or leaves the slots. -/
theorem execDivision_fault_iff {op : Binary} {instr : Instruction} :
    execDivision op instr m fr = .stop .fault ↔
      ∃ lhs rhs m' fr', dividing instr m fr = some (lhs, rhs, m', fr') ∧ rhs ≠ 0 ∧
        op.eval lhs rhs = none := by
  rcases hdividing : dividing instr m fr with _ | ⟨lhs, rhs, m', fr'⟩
  · rw [execDivision_of_none hdividing]
    simp
  · rw [execDivision_of_some hdividing]
    by_cases h0 : rhs = 0
    · simp [h0]
    · cases heval : op.eval lhs rhs <;> simp [h0, heval]

theorem srem_ne_fault (instr : Instruction) : execDivision .srem instr m fr ≠ .stop .fault := by
  rw [Ne, execDivision_fault_iff]
  rintro ⟨lhs, rhs, m', fr', -, h0, heval⟩
  simp [Binary.eval, h0] at heval

theorem sdiv_fault_iff (instr : Instruction) :
    execDivision .sdiv instr m fr = .stop .fault ↔
      ∃ m' fr', dividing instr m fr = some (Int64.minValue, -1, m', fr') := by
  rw [execDivision_fault_iff]
  constructor
  · rintro ⟨lhs, rhs, m', fr', hdividing, h0, heval⟩
    simp only [Binary.eval, ite_eq_left_iff, reduceCtorEq, imp_false, not_not, h0, false_or]
      at heval
    rw [heval.1, heval.2] at hdividing
    exact ⟨m', fr', hdividing⟩
  · rintro ⟨m', fr', hdividing⟩
    exact ⟨_, _, m', fr', hdividing, by decide, by decide⟩

/-- **Only a division that overflows faults.** -/
theorem exec_fault_iff (ctx : EmitContext) (pc : UInt32) (instr : Instruction) :
    exec ctx pc instr m fr = .stop .fault ↔ Overflows instr m fr := by
  have hstop {r : Run} (h : r ≠ .fault) : Step.stop r ≠ .stop .fault := fun heq =>
    h (Step.stop.inj heq)
  unfold Overflows exec
  cases hop : instr.op with
  | div => exact (sdiv_fault_iff instr).trans (by simp)
  | mod => exact iff_of_false (srem_ne_fault instr) (by simp)
  | add | sub | mul =>
    exact iff_of_false (execBinary_ne_fault (fun x y => by simp [Binary.eval]) instr) (by simp)
  | eq | lt | le => exact iff_of_false (execCompare_ne_fault _ instr) (by simp)
  | loadConst =>
    dsimp only
    cases (ctx.chunk.constant instr.imm.toUInt32).bind scalar <;> simp
  | move | neg =>
    dsimp only
    cases readReg m fr instr.b <;> simp
  | jump =>
    exact iff_of_false (hstop (inBounds_ne_fault fun fr => goTo_ne_fault ctx _ fr)) (by simp)
  | branch => exact iff_of_false (hstop (execBranch_ne_fault ctx pc instr)) (by simp)
  | «return» =>
    refine iff_of_false (hstop (inBounds_ne_fault fun v => inBounds_ne_fault fun fr => ?_))
      (by simp)
    split_ifs
    · exact execReturn_ne_fault pc instr.a
    · exact Run.noConfusion
  | call =>
    dsimp only
    cases ctx.chunk.function instr.imm.toUInt32 with
    | none => simp
    | some callee => exact iff_of_false (hstop (execCall_ne_fault ctx pc instr callee)) (by simp)
  | _ => simp

/-! ## Runs -/

variable (ctx) in
/-- The code of a block faults exactly if it comes to a division that overflows. -/
theorem execBlock_fault_iff (pcs : List UInt32) :
    execBlock ctx pcs m fr ≠ .fault ↔
      AlongBlock (fun _ instr m fr => ¬Overflows instr m fr) ctx pcs m fr := by
  induction pcs generalizing m fr with
  | nil => exact iff_of_true Run.noConfusion trivial
  | cons pc pcs ih =>
    unfold execBlock AlongBlock
    by_cases h0 : fr.budget = 0
    · rw [if_pos h0, if_pos h0]
      exact iff_of_true Run.noConfusion trivial
    rw [if_neg h0, if_neg h0]
    cases hinstr : ctx.chunk.code[pc.toNat]? with
    | none => exact iff_of_true Run.noConfusion trivial
    | some instr =>
      have hfault := @exec_fault_iff m { fr with budget := fr.budget - 1 } ctx pc instr
      dsimp only
      cases hexec : exec ctx pc instr m { fr with budget := fr.budget - 1 } with
      | next m' fr' =>
        rw [hexec] at hfault
        exact ih.trans (by simp [← hfault])
      | stop r =>
        rw [hexec] at hfault
        rw [← hfault]
        simp [Step.andThen]

/-- **A run faults exactly if it comes to a division that overflows.** -/
theorem run_fault_iff {chunk : Chunk} {key : TraceKey} {f : FunctionDef} {trace : CompiledTrace}
    (himpl : Implements chunk key f trace) {fuel : ℕ} {pc : UInt32}
    (hpc : (blockAt (collectTraceRegion chunk key) pc).isSome) :
    trace.entry.run fuel (.region pc) fr ≠ .fault ↔
      AlongRun (fun _ instr m fr => ¬Overflows instr m fr) chunk key fuel pc fr := by
  induction fuel generalizing pc fr with
  | zero => exact iff_of_true Exit.noConfusion trivial
  | succ fuel ih =>
    obtain ⟨b, hb⟩ := Option.isSome_iff_exists.mp hpc
    obtain ⟨code, hcode, hrun⟩ := himpl.block pc b hb
    have hfault := @execBlock_fault_iff (regionContext chunk (collectTraceRegion chunk key))
      (RegisterMap.new f.numRegisters.toNat) fr b.pcs
    have hleaves := execBlock_leaves (regionContext chunk (collectTraceRegion chunk key))
      (RegisterMap.new f.numRegisters.toNat) fr b.pcs
    rw [JitEntry.run, hcode, AlongRun, hb, himpl.function]
    dsimp only
    rw [hrun, ← hfault]
    cases hblock : execBlock (regionContext chunk (collectTraceRegion chunk key)) b.pcs
        (RegisterMap.new f.numRegisters.toNat) fr with
    | jump target fr' =>
      rw [hblock] at hleaves
      cases target with
      | region pc' =>
        dsimp only
        rw [ih hleaves.1]
        simp
      | trap =>
        refine iff_of_true ?_ ⟨Run.noConfusion, trivial⟩
        rcases run_exit himpl (.inl rfl) fuel fr' with h | ⟨fr'', h⟩ <;> simp [h]
      | «return» =>
        refine iff_of_true ?_ ⟨Run.noConfusion, trivial⟩
        rcases run_exit himpl (.inr rfl) fuel fr' with h | ⟨fr'', h⟩ <;> simp [h]
    | _ => simp

/-- **Divisions are safe exactly if none overflows.** -/
theorem divisions_safe_iff {chunk : Chunk} {key : TraceKey} {trace : CompiledTrace}
    (htrace : compileTrace chunk key = .ok trace) (slots : List Int64)
    (pc budget function registerCount : UInt32) :
    (runCompiledTrace trace slots pc budget function registerCount ≠ .fault ∧
      AlongRun (DividesAsInterpreted (regionContext chunk (collectTraceRegion chunk key))) chunk key
        (budget.toNat + 2) key.entryPc (startFrame slots pc budget function registerCount) ∧
      ∃ trapPc, trace.entry .trap = some (writeExit jitTrap trapPc 0)) ↔
    AlongRun (fun _ instr m fr => ¬Overflows instr m fr) chunk key (budget.toNat + 2) key.entryPc
      (startFrame slots pc budget function registerCount) := by
  obtain ⟨f, himpl⟩ := of_compileTrace htrace
  unfold runCompiledTrace
  rw [himpl.start, run_fault_iff himpl himpl.entry]
  refine ⟨And.left, fun h => ⟨h, ?_, himpl.trap⟩⟩
  exact h.mono fun pc instr m fr hfits => divides_of_not_overflows _ pc hfits

end

/-- `main` divides a constant by a number. -/
def divides (n : Int64) (d : Int32) : Chunk where
  name := "divides"
  constants := [.int n]
  code := [.aImm .loadConst 0 0, .aImm .loadImm 1 d, .abc .div 2 0 1, .abc .return 2 0 0]
  functions := [⟨"main", 0, 0, 3⟩]

theorem divisions_safe_seven :
    ∃ trace, compileTrace (divides 7 2) ⟨0, 0⟩ = .ok trace ∧
      ((runCompiledTrace trace [0, 0, 0] 0 10 0 3 ≠ .fault ∧
        AlongRun (DividesAsInterpreted (regionContext (divides 7 2)
          (collectTraceRegion (divides 7 2) ⟨0, 0⟩))) (divides 7 2) ⟨0, 0⟩ 12 0
          (startFrame [0, 0, 0] 0 10 0 3) ∧
        ∃ trapPc, trace.entry .trap = some (writeExit jitTrap trapPc 0)) ↔
      AlongRun (fun _ instr m fr => ¬Overflows instr m fr) (divides 7 2) ⟨0, 0⟩ 12 0
        (startFrame [0, 0, 0] 0 10 0 3)) := by
  obtain ⟨trace, htrace⟩ := exists_of_isOk (x := compileTrace (divides 7 2) ⟨0, 0⟩) (by decide)
  exact ⟨trace, htrace, divisions_safe_iff htrace [0, 0, 0] 0 10 0 3⟩

/-- The least integer divided by -1. -/
theorem division_faults :
    ¬∀ (chunk : Chunk) (trust : TrustLevel) (key : TraceKey) (trace : CompiledTrace)
        (slots : List Int64) (pc budget function registerCount : UInt32),
      chunk.verifyWith trust = .ok () → compileTrace chunk key = .ok trace →
        runCompiledTrace trace slots pc budget function registerCount ≠ .fault := by
  intro hall
  obtain ⟨trace, htrace⟩ := exists_of_isOk
    (x := compileTrace (divides Int64.minValue (-1)) ⟨0, 0⟩) (by decide)
  have hrun : (compileTrace (divides Int64.minValue (-1)) ⟨0, 0⟩).toOption.map
      (fun trace => runCompiledTrace trace [0, 0, 0] 0 10 0 3) = some .fault := by decide
  rw [htrace] at hrun
  exact hall _ .untrusted ⟨0, 0⟩ trace [0, 0, 0] 0 10 0 3 (by decide) htrace
    (Option.some.inj hrun)

end Jit

end Byteflow
