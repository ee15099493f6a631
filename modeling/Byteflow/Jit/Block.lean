import Byteflow.Jit.Compiler

/-!
# What the code of a block does

The emitted code of an instruction, run on a frame, is a step on the registers that the block holds
as values and on the frame (`exec`); the code of a block is its instructions in turn, each after a
tick of the budget (`execBlock`). `run_emitInstruction` and `run_emitBlock` connect the two with the
emitters, and `of_compileTrace` says what is behind the labels of a compiled trace. What follows
argues about `exec` only.
-/

namespace Byteflow

namespace Jit

/-- What an instruction of a block leads to: the rest of the block, or the end of its code. -/
inductive Step
  | next (registers : RegisterMap Int64) (fr : JitFrame)
  | stop (r : Run)

/-- The value of a register: what the block holds, else its slot. -/
def readReg (m : RegisterMap Int64) (fr : JitFrame) (reg : UInt8) : Option Int64 :=
  (m.get reg).or fr.slots[reg.toNat]?

def JitFrame.exit (fr : JitFrame) (kind pc returnReg : UInt32) : JitFrame :=
  { fr with exitKind := kind, pc := pc, returnReg := returnReg }

/-- Store a slot, if there is one. -/
def JitFrame.store (fr : JitFrame) (slot : ℕ) (x : Int64) : Option JitFrame :=
  if slot < fr.slots.length then some { fr with slots := fr.slots.set slot x } else none

/-- Store the values that the block holds. -/
def flushSlots : ℕ → RegisterMap Int64 → JitFrame → Option JitFrame
  | _, [], fr => some fr
  | reg, some v :: values, fr =>
    (fr.store (UInt8.ofNat reg).toNat v).bind (flushSlots (reg + 1) values)
  | reg, none :: values, fr => flushSlots (reg + 1) values fr

def copySlots (dst : UInt8) : ℕ → ℕ → JitFrame → Option JitFrame
  | _, 0, fr => some fr
  | i, argc + 1, fr => do
    let v ← fr.slots[(dst.toUInt32 + UInt32.ofNat i).toNat]?
    let fr ← fr.store (UInt32.ofNat i).toNat v
    copySlots dst (i + 1) argc fr

/-- Go on with the frame of an access, which may have been out of bounds. -/
def inBounds {α : Type} (a : Option α) (k : α → Run) : Run :=
  match a with
  | some a => k a
  | none => .outOfBounds

/-- The operands of an instruction, and the registers with them. -/
def readOperands (m : RegisterMap Int64) (fr : JitFrame) (instr : Instruction) :
    Option (Int64 × Int64 × RegisterMap Int64) := do
  let lhs ← readReg m fr instr.b
  let m := m.set instr.b lhs
  let rhs ← readReg m fr instr.c
  return (lhs, rhs, m.set instr.c rhs)

def execBinary (op : Binary) (instr : Instruction) (m : RegisterMap Int64) (fr : JitFrame) : Step :=
  match readOperands m fr instr with
  | none => .stop .outOfBounds
  | some (lhs, rhs, m) =>
    match op.eval lhs rhs with
    | some x => .next (m.set instr.a x) fr
    | none => .stop .fault

def execCompare (cc : IntCC) (instr : Instruction) (m : RegisterMap Int64) (fr : JitFrame) : Step :=
  match readOperands m fr instr with
  | none => .stop .outOfBounds
  | some (lhs, rhs, m) => .next (m.set instr.a (if cc.holds lhs.toInt rhs.toInt then 1 else 0)) fr

def execDivision (op : Binary) (instr : Instruction) (m : RegisterMap Int64) (fr : JitFrame) :
    Step :=
  match readOperands m fr instr with
  | none => .stop .outOfBounds
  | some (lhs, rhs, m) =>
    match flushSlots 0 m fr with
    | none => .stop .outOfBounds
    | some fr =>
      if rhs = 0 then .stop (.jump .trap fr)
      else match op.eval lhs rhs with
        | some x => .next (m.set instr.a x) fr
        | none => .stop .fault

/-- Control goes to the block at `pc`, or leaves the trace there. -/
def goTo (ctx : EmitContext) (pc : UInt32) (fr : JitFrame) : Run :=
  if ctx.pcToBlock pc then .jump (.region pc) fr else .returned (fr.exit jitContinue pc 0)

def execBranch (ctx : EmitContext) (pc : UInt32) (instr : Instruction) (m : RegisterMap Int64)
    (fr : JitFrame) : Run :=
  inBounds (readReg m fr instr.a) fun cond =>
  inBounds (flushSlots 0 (m.set instr.a cond) fr) fun fr =>
  let falsyPc := jumpTarget pc instr.imm
  if !ctx.pcToBlock (pc + 1) && !ctx.pcToBlock falsyPc then
    .returned (fr.exit jitContinue falsyPc 0)
  else goTo ctx (if cond = 0 then falsyPc else pc + 1) fr

def execReturn (pc : UInt32) (returnReg : UInt8) (fr : JitFrame) : Run :=
  if fr.callDepth = 0 then .returned (fr.exit jitReturn pc returnReg.toUInt32)
  else
    let depth := fr.callDepth - 1
    let fr := { fr with callDepth := depth }
    inBounds fr.callStack[depth.toNat]? fun r =>
    inBounds fr.slots[returnReg.toNat]? fun v =>
    inBounds (fr.store r.destReg.toNat v) fun fr =>
    .returned ({ fr with
      function := r.returnFunction
      registerCount := r.callerRegisterCount }.exit jitContinue r.returnPc 0)

def execCall (ctx : EmitContext) (pc : UInt32) (instr : Instruction) (callee : FunctionDef)
    (m : RegisterMap Int64) (fr : JitFrame) : Run :=
  inBounds (flushSlots 0 m fr) fun fr =>
  if !ctx.pcToBlock callee.entry then .returned (fr.exit jitContinue pc 0)
  else if (maxJitCallDepth : ℤ) ≤ fr.callDepth.toInt32.toInt then
    .returned (fr.exit jitEffect pc 0)
  else
    inBounds fr.callStack[fr.callDepth.toNat]? fun _ =>
    let record := ⟨pc + 1, fr.function, instr.a.toUInt32, fr.registerCount⟩
    let fr := { fr with
      callStack := fr.callStack.set fr.callDepth.toNat record
      callDepth := fr.callDepth + 1 }
    inBounds (copySlots instr.a 0 instr.b.toNat fr) fun fr =>
    .jump (.region callee.entry) { fr with
      function := instr.imm.toUInt32
      registerCount := callee.numRegisters.toUInt32 }

/-- What the code of one instruction does. -/
def exec (ctx : EmitContext) (pc : UInt32) (instr : Instruction) (m : RegisterMap Int64)
    (fr : JitFrame) : Step :=
  match instr.op with
  | .loadImm => .next (m.set instr.a instr.imm.toInt64) fr
  | .loadConst =>
    match (ctx.chunk.constant instr.imm.toUInt32).bind scalar with
    | some n => .next (m.set instr.a n) fr
    | none => .stop .unfilled
  | .move =>
    match readReg m fr instr.b with
    | some v => .next ((m.set instr.b v).set instr.a v) fr
    | none => .stop .outOfBounds
  | .add => execBinary .iadd instr m fr
  | .sub => execBinary .isub instr m fr
  | .mul => execBinary .imul instr m fr
  | .eq => execCompare .equal instr m fr
  | .lt => execCompare .signedLessThan instr m fr
  | .le => execCompare .signedLessThanOrEqual instr m fr
  | .div => execDivision .sdiv instr m fr
  | .mod => execDivision .srem instr m fr
  | .neg =>
    match readReg m fr instr.b with
    | some v => .next ((m.set instr.b v).set instr.a (0 - v)) fr
    | none => .stop .outOfBounds
  | .jump => .stop (inBounds (flushSlots 0 m fr) (goTo ctx (jumpTarget pc instr.imm)))
  | .branch => .stop (execBranch ctx pc instr m fr)
  | .return =>
    .stop <| inBounds (readReg m fr instr.a) fun v =>
      inBounds (fr.store instr.a.toNat v) fun fr =>
      if ctx.supportsCalls then execReturn pc instr.a fr
      else .jump .return { fr with pc := pc }
  | .nop => .next m fr
  | .call =>
    match ctx.chunk.function instr.imm.toUInt32 with
    | some callee => .stop (execCall ctx pc instr callee m fr)
    | none => .stop .unfilled
  | _ => .stop .unfilled

/-- Go on with the rest of the block. -/
def Step.andThen (s : Step) (k : RegisterMap Int64 → JitFrame → Run) : Run :=
  match s with
  | .next m fr => k m fr
  | .stop r => r

/-- What the code of the rest of a block does. -/
def execBlock (ctx : EmitContext) : List UInt32 → RegisterMap Int64 → JitFrame → Run
  | [], _, _ => .unfilled
  | pc :: pcs, m, fr =>
    if fr.budget = 0 then .returned (fr.exit jitBudget pc 0)
    else
      match ctx.chunk.code[pc.toNat]? with
      | none => .unfilled
      | some instr =>
        (exec ctx pc instr m { fr with budget := fr.budget - 1 }).andThen (execBlock ctx pcs)

/-! ## Running the emitters -/

section

variable {m : RegisterMap Int64} {fr : JitFrame}

theorem RegisterMap.set_of_get {V : Type} {m : RegisterMap V} {reg : UInt8} {v : V}
    (h : m.get reg = some v) : m.set reg v = m := by
  have hget : m[reg.toNat]? = some (some v) := by
    unfold RegisterMap.get at h
    cases hm : m[reg.toNat]? with
    | none =>
      rw [hm] at h
      cases h
    | some o =>
      rw [hm] at h
      exact congrArg some h
  obtain ⟨hlt, hget⟩ := List.getElem?_eq_some_iff.mp hget
  rw [RegisterMap.set, ← hget]
  exact List.set_getElem_self hlt

theorem run_loadReg {reg : UInt8} {k : Int64 → RegisterMap Int64 → Code Int64 UInt32} :
    (loadReg m reg k).run fr =
      inBounds (readReg m fr reg) fun v => (k v (m.set reg v)).run fr := by
  unfold loadReg readReg
  cases hget : m.get reg with
  | some v =>
    show (k v m).run fr = (k v (m.set reg v)).run fr
    rw [RegisterMap.set_of_get hget]
  | none =>
    simp only [Code.run, UInt8.toNat_toUInt32, Option.none_or]
    cases fr.slots[reg.toNat]? <;> rfl

theorem run_storeSlot {reg : UInt8} {v : Int64} {k : Code Int64 UInt32} :
    (storeSlot reg v k).run fr = inBounds (fr.store reg.toNat v) k.run := by
  simp only [storeSlot, Code.run, UInt8.toNat_toUInt32, JitFrame.store]
  split_ifs <;> rfl

theorem run_flushFrom {k : Code Int64 UInt32} (reg : ℕ) :
    (flushFrom reg m k).run fr = inBounds (flushSlots reg m fr) k.run := by
  induction m generalizing reg fr with
  | nil => rfl
  | cons value values ih =>
    cases value with
    | none => exact ih (reg + 1)
    | some v =>
      rw [flushFrom, run_storeSlot, flushSlots]
      cases fr.store (UInt8.ofNat reg).toNat v with
      | none => rfl
      | some fr' => exact ih (reg + 1)

theorem run_flushRegisters {k : Code Int64 UInt32} :
    (flushRegisters m k).run fr = inBounds (flushSlots 0 m fr) k.run := run_flushFrom 0

theorem run_writeExit {kind pc returnReg : UInt32} :
    (writeExit kind pc returnReg : Code Int64 UInt32).run fr =
      .returned (fr.exit kind pc returnReg) := rfl

theorem holds_equal {x y : UInt32} :
    (IntCC.equal.holds x.toInt32.toInt y.toInt32.toInt) = decide (x = y) := by
  simp only [IntCC.holds, Int32.toInt_inj, decide_eq_decide]
  constructor
  · intro h
    simpa using congrArg Int32.toUInt32 h
  · rintro rfl
    rfl

theorem ofBool_eq_zero {b : Bool} : ofBool b = 0 ↔ b = false := by
  cases b <;> decide

theorem run_emitBudgetTick {pc : UInt32} {k : Code Int64 UInt32} :
    (emitBudgetTick pc k).run fr =
      if fr.budget = 0 then .returned (fr.exit jitBudget pc 0)
      else k.run { fr with budget := fr.budget - 1 } := by
  simp only [emitBudgetTick, Code.run, JitFrame.get, holds_equal, ofBool_eq_zero,
    decide_eq_false_iff_not, run_writeExit]
  split_ifs <;> rfl

theorem run_branchToPc {ctx : EmitContext} {targetPc : UInt32} :
    (branchToPc ctx targetPc : Code Int64 UInt32).run fr = goTo ctx targetPc fr := by
  unfold branchToPc goTo
  split_ifs <;> rfl

theorem run_loadOperands {instr : Instruction}
    {f : Int64 → Int64 → RegisterMap Int64 → Code Int64 UInt32} :
    (loadOperands instr f m).run fr =
      inBounds (readOperands m fr instr) fun x => (f x.1 x.2.1 x.2.2).run fr := by
  unfold loadOperands readOperands
  rw [run_loadReg]
  cases hlhs : readReg m fr instr.b with
  | none => rfl
  | some lhs =>
    show (loadReg (m.set instr.b lhs) instr.c _).run fr = _
    rw [run_loadReg]
    cases hrhs : readReg (m.set instr.b lhs) fr instr.c with
    | none => simp [hrhs, inBounds]
    | some rhs => simp [hrhs, inBounds]

theorem run_emitBinary {op : Binary} {instr : Instruction}
    {k : RegisterMap Int64 → Code Int64 UInt32} :
    (emitBinary op instr m k).run fr =
      (execBinary op instr m fr).andThen fun m fr => (k m).run fr := by
  unfold emitBinary execBinary
  rw [run_loadOperands]
  rcases readOperands m fr instr with _ | ⟨lhs, rhs, m'⟩
  · rfl
  · simp only [inBounds, Code.run]
    cases op.eval lhs rhs <;> rfl

theorem run_boolAsI64 {b : Bool} {k : Int64 → Code Int64 UInt32} :
    (boolAsI64 (ofBool b) k).run fr = (k (if b then 1 else 0)).run fr := by
  cases b <;> rfl

theorem run_emitCompare {cc : IntCC} {instr : Instruction}
    {k : RegisterMap Int64 → Code Int64 UInt32} :
    (emitCompare cc instr m k).run fr =
      (execCompare cc instr m fr).andThen fun m fr => (k m).run fr := by
  unfold emitCompare execCompare
  rw [run_loadOperands]
  rcases readOperands m fr instr with _ | ⟨lhs, rhs, m'⟩
  · rfl
  · simp only [inBounds, Code.run]
    exact run_boolAsI64

/-- The test of an integer for zero. -/
theorem isZero_eq_zero {x : Int64} :
    ofBool (IntCC.equal.holds x.toInt (0 : Int64).toInt) = 0 ↔ ¬x = 0 := by
  rw [ofBool_eq_zero, IntCC.holds, decide_eq_false_iff_not, Int64.toInt_inj]

theorem run_emitDivision {op : Binary} {instr : Instruction}
    {k : RegisterMap Int64 → Code Int64 UInt32} :
    (emitDivision op instr m k).run fr =
      (execDivision op instr m fr).andThen fun m fr => (k m).run fr := by
  unfold emitDivision execDivision
  rw [run_loadOperands]
  rcases readOperands m fr instr with _ | ⟨lhs, rhs, m'⟩
  · rfl
  simp only [inBounds]
  rw [run_flushRegisters]
  rcases flushSlots 0 m' fr with _ | fr'
  · rfl
  simp only [inBounds, Code.run, isZero_eq_zero]
  split_ifs with h
  · rfl
  · rcases op.eval lhs rhs with _ | x <;> rfl

theorem run_emitBranch {ctx : EmitContext} {pc : UInt32} {instr : Instruction}
    {k : RegisterMap Int64 → Code Int64 UInt32} :
    (emitBranch ctx pc instr m k).run fr = execBranch ctx pc instr m fr := by
  unfold emitBranch execBranch
  rw [run_loadReg]
  rcases readReg m fr instr.a with _ | cond
  · rfl
  simp only [inBounds]
  rw [run_flushRegisters]
  rcases flushSlots 0 (m.set instr.a cond) fr with _ | fr'
  · rfl
  simp only [inBounds, Code.run]
  unfold goTo
  have hflag := @isZero_eq_zero cond
  generalize ofBool (IntCC.equal.holds cond.toInt (0 : Int64).toInt) = flag at hflag
  cases hfall : ctx.pcToBlock (pc + 1) <;>
    cases hfalsy : ctx.pcToBlock (jumpTarget pc instr.imm) <;>
    by_cases hc : cond = 0 <;>
    simp [Code.run, run_writeExit, hflag, hc, hfall, hfalsy]

theorem run_emitReturn {pc : UInt32} {reg : UInt8} :
    (emitReturn pc reg : Code Int64 UInt32).run fr = execReturn pc reg fr := by
  unfold emitReturn execReturn
  simp only [Code.run, JitFrame.get, holds_equal, ofBool_eq_zero, decide_eq_false_iff_not,
    run_writeExit]
  split_ifs with h
  · rfl
  · simp only [JitFrame.set, inBounds]
    cases fr.callStack[(fr.callDepth - 1).toNat]? with
    | none => rfl
    | some r =>
      simp only [UInt8.toNat_toUInt32]
      cases fr.slots[reg.toNat]? with
      | none => rfl
      | some v =>
        simp only [JitFrame.store, JitCallRecord.get]
        by_cases hdest : r.destReg.toNat < fr.slots.length
        · rw [if_pos hdest]
          exact if_pos hdest
        · rw [if_neg hdest]
          exact if_neg hdest

theorem run_copyArgs {dst : UInt8} {k : Code Int64 UInt32} (i argc : ℕ) :
    (copyArgs dst i argc k).run fr = inBounds (copySlots dst i argc fr) k.run := by
  induction argc generalizing i fr with
  | zero => rfl
  | succ argc ih =>
    simp only [copyArgs, Code.run, copySlots]
    cases fr.slots[(dst.toUInt32 + UInt32.ofNat i).toNat]? with
    | none => rfl
    | some v =>
      simp only [JitFrame.store]
      split_ifs with h
      · exact ih (i + 1)
      · rfl

theorem run_saveRecord {pc : UInt32} {dst : UInt8} {k : Code Int64 UInt32} {depth : UInt32} :
    (saveRecord depth pc dst k).run fr =
      inBounds fr.callStack[depth.toNat]? fun _ => k.run { fr with
        callStack := fr.callStack.set depth.toNat
          ⟨pc + 1, fr.function, dst.toUInt32, fr.registerCount⟩ } := by
  simp only [saveRecord, Code.run]
  cases hr : fr.callStack[depth.toNat]? with
  | none => rfl
  | some r =>
    obtain ⟨hlt, -⟩ := List.getElem?_eq_some_iff.mp hr
    simp [inBounds, hlt, JitFrame.get, JitCallRecord.set]

theorem run_emitCall {ctx : EmitContext} {pc : UInt32} {instr : Instruction}
    {callee : FunctionDef} :
    (emitCall ctx pc instr callee m : Code Int64 UInt32).run fr =
      execCall ctx pc instr callee m fr := by
  unfold emitCall execCall
  rw [run_flushRegisters]
  rcases flushSlots 0 m fr with _ | fr'
  · rfl
  simp only [inBounds]
  cases hblock : ctx.pcToBlock callee.entry with
  | false => rfl
  | true =>
    simp only [Bool.not_true, Bool.false_eq_true, if_false, Code.run, JitFrame.get, run_writeExit]
    have hflag : ofBool (IntCC.signedGreaterThanOrEqual.holds fr'.callDepth.toInt32.toInt
        (UInt32.ofNat maxJitCallDepth).toInt32.toInt) = 0 ↔
        ¬(maxJitCallDepth : ℤ) ≤ fr'.callDepth.toInt32.toInt := by
      rw [ofBool_eq_zero, IntCC.holds, decide_eq_false_iff_not]
      rfl
    by_cases hdeep : (maxJitCallDepth : ℤ) ≤ fr'.callDepth.toInt32.toInt
    · rw [if_pos hdeep]
      exact if_neg fun h0 => hflag.mp h0 hdeep
    · rw [if_neg hdeep]
      refine (if_pos (hflag.mpr hdeep)).trans ?_
      rw [run_saveRecord]
      cases fr'.callStack[fr'.callDepth.toNat]? with
      | none => rfl
      | some r =>
        simp only [inBounds, Code.run, JitFrame.set, run_copyArgs]
        split <;> rfl

/-- **Emitted instructions.** The code of an instruction does what `exec` says, then the rest. -/
theorem run_emitInstruction {ctx : EmitContext} {pc : UInt32} {instr : Instruction}
    {emit : Emit Int64 UInt32} (h : emitInstruction ctx pc instr = .ok emit)
    (k : RegisterMap Int64 → Code Int64 UInt32) :
    (emit m k).run fr = (exec ctx pc instr m fr).andThen fun m fr => (k m).run fr := by
  unfold emitInstruction at h
  unfold exec
  cases hop : instr.op with
  | loadImm =>
    rw [hop] at h
    cases h
    rfl
  | loadConst =>
    rw [hop] at h
    dsimp only at h ⊢
    cases hconst : (ctx.chunk.constant instr.imm.toUInt32).bind scalar with
    | none =>
      rw [hconst] at h
      cases h
    | some n =>
      rw [hconst] at h
      cases h
      rfl
  | move =>
    rw [hop] at h
    cases h
    dsimp only
    rw [run_loadReg]
    cases readReg m fr instr.b <;> rfl
  | neg =>
    rw [hop] at h
    cases h
    dsimp only
    rw [run_loadReg]
    cases readReg m fr instr.b <;> rfl
  | jump =>
    rw [hop] at h
    cases h
    dsimp only
    rw [run_flushRegisters]
    cases flushSlots 0 m fr with
    | none => rfl
    | some fr' => exact run_branchToPc
  | branch =>
    rw [hop] at h
    cases h
    exact run_emitBranch
  | «return» =>
    rw [hop] at h
    cases h
    dsimp only
    rw [run_loadReg]
    cases readReg m fr instr.a with
    | none => rfl
    | some v =>
      simp only [inBounds]
      rw [run_storeSlot]
      cases fr.store instr.a.toNat v with
      | none => rfl
      | some fr' =>
        simp only [inBounds]
        split_ifs
        · exact run_emitReturn
        · rfl
  | nop =>
    rw [hop] at h
    cases h
    rfl
  | call =>
    rw [hop] at h
    dsimp only at h ⊢
    cases hcallee : ctx.chunk.function instr.imm.toUInt32 with
    | none =>
      rw [hcallee] at h
      cases h
    | some callee =>
      rw [hcallee] at h
      cases h
      exact run_emitCall
  | add | sub | mul =>
    rw [hop] at h
    cases h
    exact run_emitBinary
  | eq | lt | le =>
    rw [hop] at h
    cases h
    exact run_emitCompare
  | div | mod =>
    rw [hop] at h
    cases h
    exact run_emitDivision
  | _ =>
    rw [hop] at h
    cases h

/-- **Emitted blocks.** -/
theorem run_emitBlock {ctx : EmitContext} {pcs : List UInt32}
    {code : RegisterMap Int64 → Code Int64 UInt32} (h : emitBlock ctx pcs = .ok code) :
    (code m).run fr = execBlock ctx pcs m fr := by
  induction pcs generalizing code m fr with
  | nil =>
    cases h
    rfl
  | cons pc pcs ih =>
    unfold emitBlock at h
    unfold execBlock
    cases hinstr : ctx.chunk.code[pc.toNat]? with
    | none =>
      rw [hinstr] at h
      cases h
    | some instr =>
      rw [hinstr] at h
      dsimp only at h
      cases hemit : (emitInstruction ctx pc instr : Except CompileError (Emit Int64 UInt32)) with
      | error e =>
        rw [hemit] at h
        cases h
      | ok emit =>
        rw [hemit] at h
        cases hrest : (emitBlock ctx pcs :
            Except CompileError (RegisterMap Int64 → Code Int64 UInt32)) with
        | error e =>
          rw [hrest] at h
          cases h
        | ok rest =>
          rw [hrest] at h
          cases h
          rw [run_emitBudgetTick, run_emitInstruction hemit]
          split_ifs
          · rfl
          · dsimp only
            congr 1
            funext m' fr'
            exact ih hrest

end

/-! ## Compiled traces -/

/-- The exit that the returns of a trace without calls share: that of the last one. -/
def sharedReturn (chunk : Chunk) (key : TraceKey) : UInt32 × UInt32 :=
  match lastReturnInRegion chunk (collectTraceRegion chunk key) with
  | some (pc, reg) => (pc, reg.toUInt32)
  | none => (key.entryPc, 0)

/-- What is behind the labels of a trace. -/
structure Implements (chunk : Chunk) (key : TraceKey) (f : FunctionDef) (trace : CompiledTrace) :
    Prop where
  function : chunk.function key.function = some f
  start : trace.span.start = key.entryPc
  entry : (blockAt (collectTraceRegion chunk key) key.entryPc).isSome
  filled : ∀ b ∈ collectTraceRegion chunk key, isFilled chunk b = true
  block : ∀ pc b, blockAt (collectTraceRegion chunk key) pc = some b →
    ∃ code, trace.entry (.region pc) = some code ∧
      ∀ fr, code.run fr = execBlock (regionContext chunk (collectTraceRegion chunk key)) b.pcs
        (RegisterMap.new f.numRegisters.toNat) fr
  trap : ∃ trapPc, trace.entry .trap = some (writeExit jitTrap trapPc 0)
  «return» : trace.entry .return =
    some (writeExit jitReturn (sharedReturn chunk key).1 (sharedReturn chunk key).2)

theorem find_emitRegion {ctx : EmitContext} {n : ℕ} {blocks : List TraceBlock}
    {codes : List (UInt32 × Code Int64 UInt32)} (h : emitRegion ctx n blocks = .ok codes)
    {pc : UInt32} {b : TraceBlock} (hb : blockAt blocks pc = some b) :
    ∃ code, (codes.find? (·.1 == pc)).map (·.2) = some code ∧
      ∀ fr, code.run fr = execBlock ctx b.pcs (RegisterMap.new n) fr := by
  induction blocks generalizing codes with
  | nil => cases hb
  | cons block blocks ih =>
    unfold emitRegion at h
    cases hcode : (emitBlock ctx block.pcs :
        Except CompileError (RegisterMap Int64 → Code Int64 UInt32)) with
    | error e =>
      rw [hcode] at h
      cases h
    | ok code =>
      rw [hcode] at h
      cases hcodes : emitRegion ctx n blocks with
      | error e =>
        rw [hcodes] at h
        cases h
      | ok codes' =>
        rw [hcodes] at h
        cases h
        rw [blockAt, List.find?_cons] at hb
        rw [List.find?_cons]
        cases hpc : block.startPc == pc with
        | true =>
          rw [hpc] at hb
          cases hb
          exact ⟨_, rfl, fun fr => run_emitBlock hcode⟩
        | false =>
          rw [hpc] at hb
          exact ih hcodes hb

/-- **Compiled traces.** -/
theorem of_compileTrace {chunk : Chunk} {key : TraceKey} {trace : CompiledTrace}
    (h : compileTrace chunk key = .ok trace) : ∃ f, Implements chunk key f trace := by
  unfold compileTrace at h
  cases hf : chunk.function key.function with
  | none =>
    rw [hf] at h
    cases h
  | some f =>
    rw [hf] at h
    cases hmax : regionMaxPc (collectTraceRegion chunk key) key with
    | error e =>
      simp only [hmax] at h
      cases h
    | ok endPc =>
      simp only [hmax] at h
      cases hentry : blockAt (collectTraceRegion chunk key) key.entryPc with
      | none =>
        simp only [hentry] at h
        cases h
      | some b₀ =>
        simp only [hentry] at h
        cases hcodes : emitRegion (regionContext chunk (collectTraceRegion chunk key))
            f.numRegisters.toNat (collectTraceRegion chunk key) with
        | error e =>
          simp only [hcodes] at h
          cases h
        | ok codes =>
          simp only [hcodes] at h
          by_cases hfilled : (collectTraceRegion chunk key).all (isFilled chunk) = true
          swap
          · simp only [hfilled] at h
            cases h
          simp only [hfilled] at h
          cases h
          refine ⟨f, hf, rfl, by rw [hentry]; rfl, List.all_eq_true.mp hfilled, ?_, ⟨endPc, rfl⟩,
            rfl⟩
          intro pc b hb
          exact find_emitRegion hcodes hb

end Jit

end Byteflow
