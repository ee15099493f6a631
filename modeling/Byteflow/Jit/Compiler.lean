import Byteflow.Jit.Ir
import Byteflow.Jit.Trace

/-!
# The trace compiler

`jit/compiler.rs`: the region of a trace as code. Each block of the region becomes one labelled
block, in which a register that was read or written is an SSA value; the values are flushed to the
slots before control leaves the block. Traps share one block, and so do the returns of a trace
without calls. All frames of a trace with calls share the slots.

An emitter gets the registers of the block so far and what is emitted after it. The values are
parameters (`V`, `W`), as in the code itself.
-/

namespace Byteflow

namespace Jit

/-! ## Exit codes -/

def jitContinue : UInt32 := 0

def jitEffect : UInt32 := 1

def jitReturn : UInt32 := 2

def jitBudget : UInt32 := 3

def jitTrap : UInt32 := 4

def jitDeopt : UInt32 := 5

/-! ## Registers -/

/-- The registers of a block as SSA values. -/
abbrev RegisterMap (V : Type) := List (Option V)

namespace RegisterMap

variable {V : Type}

def new (registers : ℕ) : RegisterMap V := List.replicate registers none

def get (m : RegisterMap V) (reg : UInt8) : Option V := m[reg.toNat]?.join

/-- A register outside of the map is not kept. -/
def set (m : RegisterMap V) (reg : UInt8) (value : V) : RegisterMap V :=
  List.set m reg.toNat (some value)

end RegisterMap

/-! ## Emitters -/

section

variable {V W : Type}

def storeSlot (reg : UInt8) (value : V) (k : Code V W) : Code V W :=
  .iconst32 reg.toUInt32 fun slot => .store slot value k

def loadReg (registers : RegisterMap V) (reg : UInt8) (k : V → RegisterMap V → Code V W) :
    Code V W :=
  match registers.get reg with
  | some v => k v registers
  | none => .iconst32 reg.toUInt32 fun slot => .load slot fun v => k v (registers.set reg v)

/-- Store the values of the registers from `reg` on. -/
def flushFrom : ℕ → RegisterMap V → Code V W → Code V W
  | _, [], k => k
  | reg, some v :: values, k => storeSlot (UInt8.ofNat reg) v (flushFrom (reg + 1) values k)
  | reg, none :: values, k => flushFrom (reg + 1) values k

def flushRegisters (registers : RegisterMap V) (k : Code V W) : Code V W := flushFrom 0 registers k

def writeField (f : Field) (value : UInt32) (k : Code V W) : Code V W :=
  .iconst32 value fun x => .storeField f x k

def writeExit (kind pc returnReg : UInt32) : Code V W :=
  writeField .exitKind kind (writeField .pc pc (writeField .returnReg returnReg .ret))

def writeDynamicExit (kind : UInt32) (pc : W) (returnReg : UInt32) : Code V W :=
  writeField .exitKind kind (.storeField .pc pc (writeField .returnReg returnReg .ret))

def boolAsI64 (cond : W) (k : V → Code V W) : Code V W :=
  .iconst 1 fun one => .iconst 0 fun zero => .select cond one zero k

def emitBudgetTick (pc : UInt32) (k : Code V W) : Code V W :=
  .loadField .budget fun budget => .iconst32 0 fun zero =>
  .icmp32 .equal budget zero fun exhausted =>
  .brif exhausted (writeExit jitBudget pc 0)
    (.iconst32 1 fun one => .isub32 budget one fun newBudget => .storeField .budget newBudget k)

/-- What emission depends on: the chunk, which program counters start a block, and whether the
region has calls. -/
structure EmitContext where
  chunk : Chunk
  pcToBlock : UInt32 → Bool
  supportsCalls : Bool

def branchToPc (ctx : EmitContext) (targetPc : UInt32) : Code V W :=
  if ctx.pcToBlock targetPc then .jump (.region targetPc) else writeExit jitContinue targetPc 0

/-- The arguments `dst ..` to the slots `0 ..`. -/
def copyArgs (dst : UInt8) : ℕ → ℕ → Code V W → Code V W
  | _, 0, k => k
  | i, argc + 1, k =>
    .iconst32 (dst.toUInt32 + UInt32.ofNat i) fun src => .load src fun value =>
    .iconst32 (UInt32.ofNat i) fun slot => .store slot value (copyArgs dst (i + 1) argc k)

def saveRecord (depth : W) (pc : UInt32) (dst : UInt8) (k : Code V W) : Code V W :=
  .iconst32 (pc + 1) fun returnPc => .storeRecord depth .returnPc returnPc <|
  .loadField .function fun callerFn => .storeRecord depth .returnFunction callerFn <|
  .iconst32 dst.toUInt32 fun dest => .storeRecord depth .destReg dest <|
  .loadField .registerCount fun callerRegs => .storeRecord depth .callerRegisterCount callerRegs k

/-- A call whose callee starts a block goes on there; its frame gets the same slots. -/
def emitCall (ctx : EmitContext) (pc : UInt32) (instr : Instruction) (callee : FunctionDef)
    (registers : RegisterMap V) : Code V W :=
  flushRegisters registers <|
  if !ctx.pcToBlock callee.entry then writeExit jitContinue pc 0
  else
    .loadField .callDepth fun depth => .iconst32 (UInt32.ofNat maxJitCallDepth) fun maxDepth =>
    .icmp32 .signedGreaterThanOrEqual depth maxDepth fun tooDeep =>
    .brif tooDeep (writeExit jitEffect pc 0) <|
    saveRecord depth pc instr.a <|
    .iconst32 1 fun one => .iadd32 depth one fun newDepth => .storeField .callDepth newDepth <|
    copyArgs instr.a 0 instr.b.toNat <|
    writeField .function instr.imm.toUInt32 <|
    writeField .registerCount callee.numRegisters.toUInt32 (.jump (.region callee.entry))

/-- A return leaves the trace: from the outermost frame with its value, from a callee to the
caller's next instruction. -/
def emitReturn (pc : UInt32) (returnReg : UInt8) : Code V W :=
  .loadField .callDepth fun depth => .iconst32 0 fun zero =>
  .icmp32 .equal depth zero fun isOuter =>
  .brif isOuter (writeExit jitReturn pc returnReg.toUInt32) <|
  .iconst32 1 fun one => .isub32 depth one fun newDepth => .storeField .callDepth newDepth <|
  .loadRecord newDepth .returnPc fun returnPc =>
    .loadRecord newDepth .returnFunction fun returnFn =>
  .loadRecord newDepth .destReg fun destReg =>
  .loadRecord newDepth .callerRegisterCount fun callerRegs =>
  .iconst32 returnReg.toUInt32 fun slot => .load slot fun retVal => .store destReg retVal <|
  .storeField .function returnFn <| .storeField .registerCount callerRegs <|
  writeDynamicExit jitContinue returnPc 0

/-- An emitter: the code of an instruction, before the code of the rest of its block. -/
abbrev Emit (V W : Type) := RegisterMap V → (RegisterMap V → Code V W) → Code V W

/-- Both operands, then the instruction on them. -/
def loadOperands (instr : Instruction) (f : V → V → RegisterMap V → Code V W)
    (registers : RegisterMap V) : Code V W :=
  loadReg registers instr.b fun lhs registers => loadReg registers instr.c fun rhs registers =>
  f lhs rhs registers

/-- A binary operation into register `a`. -/
def emitBinary (op : Binary) (instr : Instruction) : Emit V W := fun registers k =>
  loadOperands instr (fun lhs rhs registers =>
    .binary op lhs rhs fun result => k (registers.set instr.a result)) registers

def emitCompare (cc : IntCC) (instr : Instruction) : Emit V W := fun registers k =>
  loadOperands instr (fun lhs rhs registers =>
    .icmp cc lhs rhs fun cmp => boolAsI64 cmp fun result => k (registers.set instr.a result))
    registers

/-- A division, after the test for a zero divisor. -/
def emitDivision (op : Binary) (instr : Instruction) : Emit V W := fun registers k =>
  loadOperands instr (fun lhs rhs registers =>
    flushRegisters registers <|
    .iconst 0 fun zero => .icmp .equal rhs zero fun isZero =>
    .brif isZero (.jump .trap) <|
    .binary op lhs rhs fun result => k (registers.set instr.a result)) registers

/-- A branch whose successors are both outside of the region exits to its target. -/
def emitBranch (ctx : EmitContext) (pc : UInt32) (instr : Instruction) : Emit V W :=
  fun registers _ =>
  loadReg registers instr.a fun cond registers =>
  flushRegisters registers <|
  .iconst 0 fun zero => .icmp .equal cond zero fun isFalsy =>
  let fallPc := pc + 1
  let falsyPc := jumpTarget pc instr.imm
  match ctx.pcToBlock fallPc, ctx.pcToBlock falsyPc with
  | true, true => .brif isFalsy (.jump (.region falsyPc)) (.jump (.region fallPc))
  | true, false => .brif isFalsy (writeExit jitContinue falsyPc 0) (.jump (.region fallPc))
  | false, true => .brif isFalsy (.jump (.region falsyPc)) (writeExit jitContinue fallPc 0)
  | false, false => writeExit jitContinue falsyPc 0

def emitInstruction (ctx : EmitContext) (pc : UInt32) (instr : Instruction) :
    Except CompileError (Emit V W) :=
  match instr.op with
  | .loadImm =>
    pure fun registers k => .iconst instr.imm.toInt64 fun v => k (registers.set instr.a v)
  | .loadConst =>
    match (ctx.chunk.constant instr.imm.toUInt32).bind scalar with
    | some n => pure fun registers k => .iconst n fun v => k (registers.set instr.a v)
    | none => throw (.unsupportedOpcode .loadConst pc)
  | .move => pure fun registers k =>
    loadReg registers instr.b fun v registers => k (registers.set instr.a v)
  | .add => pure (emitBinary .iadd instr)
  | .sub => pure (emitBinary .isub instr)
  | .mul => pure (emitBinary .imul instr)
  | .eq => pure (emitCompare .equal instr)
  | .lt => pure (emitCompare .signedLessThan instr)
  | .le => pure (emitCompare .signedLessThanOrEqual instr)
  | .div => pure (emitDivision .sdiv instr)
  | .mod => pure (emitDivision .srem instr)
  | .neg => pure fun registers k =>
    loadReg registers instr.b fun v registers =>
    .iconst 0 fun zero => .binary .isub zero v fun result => k (registers.set instr.a result)
  | .jump => pure fun registers _ =>
    flushRegisters registers (branchToPc ctx (jumpTarget pc instr.imm))
  | .branch => pure (emitBranch ctx pc instr)
  | .return => pure fun registers _ =>
    loadReg registers instr.a fun v _ =>
    storeSlot instr.a v <|
    if ctx.supportsCalls then emitReturn pc instr.a
    else writeField .pc pc (.jump .return)
  | .nop => pure fun registers k => k registers
  | .call =>
    match ctx.chunk.function instr.imm.toUInt32 with
    | some callee => pure fun registers _ => emitCall ctx pc instr callee registers
    | none => throw (.unsupportedOpcode .call pc)
  | other => throw (.unsupportedOpcode other pc)

/-- The instructions of a block in turn, each after a tick of the budget. -/
def emitBlock (ctx : EmitContext) : List UInt32 → Except CompileError (RegisterMap V → Code V W)
  | [] => return fun _ => .unfilled
  | pc :: pcs =>
    match ctx.chunk.code[pc.toNat]? with
    | none => throw .module
    | some instr => do
      let emit ← emitInstruction ctx pc instr
      let rest ← emitBlock ctx pcs
      return fun registers => emitBudgetTick pc (emit registers rest)

end

/-! ## Compilation -/

/-- Instructions that end a block. -/
def isTerminator : Opcode → Bool
  | .jump | .branch | .return | .call => true
  | _ => false

/-- The block ends with an instruction that fills it. -/
def isFilled (chunk : Chunk) (block : TraceBlock) : Bool :=
  (block.pcs.getLast?.bind fun pc => chunk.code[pc.toNat]?).any (isTerminator ·.op)

structure TraceSpan where
  function : UInt32
  start : UInt32
  stop : UInt32
  deriving DecidableEq

structure CompiledTrace where
  span : TraceSpan
  entry : JitEntry

/-- What emission knows of a region. -/
def regionContext (chunk : Chunk) (region : List TraceBlock) : EmitContext where
  chunk := chunk
  pcToBlock pc := (blockAt region pc).isSome
  supportsCalls := (regionInstructions chunk region).any (·.2.op == .call)

/-- The code of the blocks, each with its label. -/
def emitRegion (ctx : EmitContext) (registers : ℕ) :
    List TraceBlock → Except CompileError (List (UInt32 × Code Int64 UInt32))
  | [] => return []
  | block :: blocks => do
    let code ← emitBlock ctx block.pcs
    let codes ← emitRegion ctx registers blocks
    return (block.startPc, code (RegisterMap.new registers)) :: codes

/-- The code behind the labels of a trace. -/
def linkTrace (codes : List (UInt32 × Code Int64 UInt32)) (trapPc lastPc returnReg : UInt32) :
    JitEntry
  | .region startPc => (codes.find? (·.1 == startPc)).map (·.2)
  | .trap => some (writeExit jitTrap trapPc 0)
  | .return => some (writeExit jitReturn lastPc returnReg)

/-- Compile the region of a trace. The backend refuses a function with a block that is not
filled. -/
def compileTrace (chunk : Chunk) (key : TraceKey) : Except CompileError CompiledTrace := do
  let .some f := chunk.function key.function | throw (.emptyTrace key.function key.entryPc)
  let region := collectTraceRegion chunk key
  let endPc ← regionMaxPc region key
  let .some _ := blockAt region key.entryPc | throw (.emptyTrace key.function key.entryPc)
  let codes ← emitRegion (regionContext chunk region) f.numRegisters.toNat region
  let (lastPc, returnReg) := match lastReturnInRegion chunk region with
    | some (pc, reg) => (pc, reg.toUInt32)
    | none => (key.entryPc, 0)
  if region.all (isFilled chunk) then
    return { span := ⟨key.function, key.entryPc, if endPc + 1 = 0 then endPc else endPc + 1⟩,
             entry := linkTrace codes endPc lastPc returnReg }
  else throw .module

/-- A compiled trace, with what it was compiled from. -/
structure SourcedTrace where
  chunk : Chunk
  key : TraceKey
  trace : CompiledTrace
  compiled : compileTrace chunk key = .ok trace

def SourcedTrace.compile (chunk : Chunk) (key : TraceKey) : Except CompileError SourcedTrace :=
  match h : compileTrace chunk key with
  | .ok trace => .ok ⟨chunk, key, trace, h⟩
  | .error e => .error e

theorem exists_of_isOk {ε α : Type} {x : Except ε α} (h : x.isOk = true) : ∃ a, x = .ok a := by
  cases x with
  | error e => cases h
  | ok a => exact ⟨a, rfl⟩

end Jit

end Byteflow
