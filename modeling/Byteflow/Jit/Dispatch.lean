import Byteflow.Jit.Compiler
import Byteflow.Vm.Machine

/-!
# Dispatch

How traces run on a VM (`jit/dispatch.rs`, `jit/exit.rs`): the registers of the top frame are copied
into slots, the code of the trace runs on them, and its exit is applied to the VM. The loop tries a
trace, then lets the interpreter execute one instruction.

A run of native code that leaves its buffers or faults in hardware has no result. `Ran` counts what
the loop has executed, which the code does not: the instructions of traces, by the ticks that they
took from their budget, and those of the interpreter.
-/

namespace Byteflow

namespace Vm

def currentFunction (vm : Vm) : UInt32 :=
  match vm.frames with
  | frame :: _ => frame.function
  | [] => 0

def currentPc (vm : Vm) : Option ℕ := vm.frames.head?.map (·.pc)

def currentNumRegisters (vm : Vm) : Option UInt8 :=
  vm.frames.head?.map fun frame => UInt8.ofNat frame.registers.length

def setPc (vm : Vm) (pc : ℕ) : Vm :=
  match vm.frames with
  | frame :: rest => { vm with frames := { frame with pc := pc } :: rest }
  | [] => vm

/-- Deliver a return value through the call stack. -/
def returnValue (host : Host) (vm : Vm) (value : Value) : Except Fault (Option VmResult) × Vm :=
  match (popFrame host value).runFrom vm with
  | (.ok _, vm) => (.ok none, vm)
  | (.error (.trap fault), vm) => (.error fault, vm)
  | (.error result, vm) => (.ok (some result), vm)

end Vm

namespace Jit

/-! ## Slots -/

/-- The integer that stands for a register value in a slot. -/
def flat : Value → Option Int64
  | .int i => some i
  | .bool b => some b.toInt64
  | .unit => some 0
  | _ => none

/-- Copy the registers into the slots, pairwise. -/
def copyIn : List Int64 → List Value → Option (List Int64)
  | slots, [] => some slots
  | [], _ => some []
  | _ :: slots, v :: vs => do
    let i ← flat v
    let slots ← copyIn slots vs
    return i :: slots

/-- Copy the slots into the registers, pairwise. -/
def copyOut : List Value → List Int64 → List Value
  | _ :: vs, i :: slots => .int i :: copyOut vs slots
  | vs, _ => vs

inductive SyncSlotsResult
  | ok (slots : List Int64)
  /-- A register held something else: the interpreter must resume. -/
  | deopt
  | unavailable

def syncSlotsFromVm (vm : Vm) (slots : List Int64) : SyncSlotsResult :=
  match vm.frames with
  | [] => .unavailable
  | frame :: _ =>
    match copyIn slots frame.registers with
    | some slots => .ok slots
    | none => .deopt

def syncSlotsToVm (vm : Vm) (slots : List Int64) : Except Fault Vm :=
  match vm.frames with
  | [] => .error (.invariant "empty frame stack while syncing slots")
  | frame :: rest =>
    .ok { vm with frames := { frame with registers := copyOut frame.registers slots } :: rest }

def slotCapacity (vm : Vm) : ℕ :=
  match (vm.chunk.functions.map (·.numRegisters.toNat)).max?, vm.currentNumRegisters with
  | some maxRegs, some current => max maxRegs current.toNat
  | some maxRegs, none => maxRegs
  | none, some current => current.toNat
  | none, none => 0

/-! ## Exits -/

/-- Why a compiled trace stopped. -/
inductive ExitReason
  | continue (pc : UInt32)
  | effect (pc : UInt32)
  | «return» (returnReg : UInt8)
  | budget (pc : UInt32)
  | trap (pc : UInt32)
  | deopt (pc : UInt32)
  deriving DecidableEq

def intoReason (fr : JitFrame) : ExitReason :=
  if fr.exitKind = jitContinue then .continue fr.pc
  else if fr.exitKind = jitEffect then .effect fr.pc
  else if fr.exitKind = jitReturn then .return fr.returnReg.toUInt8
  else if fr.exitKind = jitBudget then .budget fr.pc
  else if fr.exitKind = jitTrap then .trap fr.pc
  else .deopt fr.pc

/-- What applying an exit gives: a result if the trace finished the flow, or a fault. -/
abbrev Applied := Except Fault (Option VmResult) × Vm

def syncedAt (vm : Vm) (slots : List Int64) (pc : UInt32) : Applied :=
  match syncSlotsToVm (vm.setPc pc.toNat) slots with
  | .ok vm => (.ok none, vm)
  | .error fault => (.error fault, vm.setPc pc.toNat)

/-- Apply the exit of a trace to the VM. `none` when the index of a returned slot panics. -/
def applyExitToVm (host : Host) (vm : Vm) (slots : List Int64) : ExitReason → Option Applied
  | .return returnReg => do
    let value := Value.int (← slots[returnReg.toNat]?)
    match vm.setReg host returnReg value with
    | (.error fault, vm) => return (.error fault, vm)
    | (.ok _, vm) =>
      match vm.currentPc with
      | none => return (.error Vm.emptyStack, vm)
      | some pc => return (vm.setPc (pc + 1)).returnValue host value
  | .trap pc => some (.ok (some (.trap .divideByZero)), vm.setPc pc.toNat)
  | .budget pc => some (syncedAt vm slots pc)
  | .continue pc => some (syncedAt vm slots pc)
  | .effect pc => some (syncedAt vm slots pc)
  | .deopt pc => some (.ok none, vm.setPc pc.toNat)

/-! ## Running a trace -/

/-- The frame of a run of native code. -/
def startFrame (slots : List Int64) (pc budget function registerCount : UInt32) : JitFrame where
  slots := slots
  registerCount := registerCount
  pc := pc
  budget := budget
  function := function
  exitKind := 0
  returnReg := 0
  callDepth := 0
  callStack := List.replicate maxJitCallDepth ⟨0, 0, 0, 0⟩

/-- Run a trace from its entry. Every block takes from the budget, or leaves the trace. -/
def runCompiledTrace (trace : CompiledTrace) (slots : List Int64)
    (pc budget function registerCount : UInt32) : Exit :=
  trace.entry.run (budget.toNat + 2) (.region trace.span.start)
    (startFrame slots pc budget function registerCount)

/-- How often a program point has run. -/
structure HotCounter where
  counters : TraceKey → UInt32

/-- Count, and tell whether the threshold is reached. -/
def HotCounter.hit (hot : HotCounter) (key : TraceKey) (threshold : UInt32) : HotCounter × Bool :=
  let n := hot.counters key
  let n := if n + 1 = 0 then n else n + 1
  (⟨Function.update hot.counters key n⟩, threshold ≤ n)

structure JitContext where
  chunk : Chunk
  cache : TraceKey → Option SourcedTrace
  hot : HotCounter
  hotThreshold : UInt32

/-- The compiled trace of a program point: from the cache, or compiled once the point is hot. -/
def JitContext.find (ctx : JitContext) (chunk : Chunk) (key : TraceKey) :
    JitContext × Option SourcedTrace :=
  match ctx.cache key with
  | some trace => (ctx, some trace)
  | none =>
    let (hot, isHot) := ctx.hot.hit key ctx.hotThreshold
    let ctx := { ctx with hot := hot }
    if !isHot then (ctx, none)
    else match SourcedTrace.compile chunk key with
      | .ok trace => ({ ctx with cache := Function.update ctx.cache key (some trace) }, some trace)
      | .error _ => (ctx, none)

/-- What a try at a trace leads to. -/
inductive JitStep
  /-- The interpreter goes on, after so many native instructions. -/
  | resume (vm : Vm) (native : ℕ)
  | done (result : VmResult) (vm : Vm) (native : ℕ)
  /-- Native code left its buffers or faulted, or the dispatcher panicked. -/
  | undefined

/-- A trace for the current program point, with the slots that it starts from. -/
structure Found where
  trace : SourcedTrace
  slots : List Int64
  pc : ℕ
  registerCount : UInt8

/-- What `find` looks up, or compiles, for the current program point. -/
def tryFind {σ : Type} (find : σ → Vm → TraceKey → σ × Option SourcedTrace) (s : σ) (vm : Vm) :
    σ × Option Found :=
  match vm.currentPc, vm.currentNumRegisters with
  | some pc, some registerCount =>
    match syncSlotsFromVm vm (List.replicate (slotCapacity vm) 0) with
    | .ok slots =>
      match find s vm ⟨vm.currentFunction, UInt32.ofNat pc⟩ with
      | (s, some trace) => (s, some ⟨trace, slots, pc, registerCount⟩)
      | (s, none) => (s, none)
    | _ => (s, none)
  | _, _ => (s, none)

/-- Run a trace on the VM, and apply its exit. -/
def runTrace (host : Host) (vm : Vm) (found : Found) (budget : UInt32) : JitStep :=
  match runCompiledTrace found.trace.trace found.slots (UInt32.ofNat found.pc) budget
    vm.currentFunction found.registerCount.toUInt32 with
  | .returned fr =>
    let native := (budget - fr.budget).toNat
    match applyExitToVm host vm fr.slots (intoReason fr) with
    | some (.ok (some result), vm) => .done result vm native
    | some (.ok none, vm) => .resume vm native
    | some (.error fault, vm) => .done (.trap fault) vm native
    | none => .undefined
  | _ => .undefined

/-- Try one trace at the current program point. -/
def tryStep {σ : Type} (find : σ → Vm → TraceKey → σ × Option SourcedTrace) (host : Host) (s : σ)
    (vm : Vm) (budget : UInt32) : σ × JitStep :=
  match tryFind find s vm with
  | (s, some found) => (s, runTrace host vm found budget)
  | (s, none) => (s, .resume vm 0)

/-! ## The loop -/

/-- What a run of the loop returns, and how many instructions were executed in it. -/
structure Ran where
  result : VmResult
  vm : Vm
  native : ℕ
  interpreted : ℕ

/-- Run at most `remaining` instructions of the interpreter, with a try at a trace before each. -/
def runVmWithJitLoop {σ : Type} (host : ℕ → Host)
    (tryStep : Host → σ → Vm → UInt32 → σ × JitStep) : ℕ → σ → Vm → Option (Ran × σ)
  | 0, s, vm => some (⟨.yield, vm, 0, 0⟩, s)
  | remaining + 1, s, vm =>
    match tryStep (host vm.instructionsExecuted) s vm (UInt32.ofNat (remaining + 1)) with
    | (_, .undefined) => none
    | (s, .done result vm native) => some (⟨result, vm, native, 0⟩, s)
    | (s, .resume vm native) =>
      match Vm.run host 1 vm with
      | (.yield, vm) => do
        let (ran, s) ← runVmWithJitLoop host tryStep remaining s vm
        return ({ ran with native := native + ran.native, interpreted := 1 + ran.interpreted }, s)
      | (other, vm) => some (⟨other, vm, native, 1⟩, s)

/-- Look a trace up in a context of this thread, if the VM runs the chunk of the context. -/
def findInContext (sameChunk : Bool) (ctx : JitContext) (vm : Vm) (key : TraceKey) :
    JitContext × Option SourcedTrace :=
  if sameChunk then ctx.find vm.chunk key else (ctx, none)

def runVmWithJit (host : ℕ → Host) (sameChunk : Bool) (vm : Vm) (budget : UInt32)
    (ctx : JitContext) : Option (Ran × JitContext) :=
  runVmWithJitLoop host (tryStep (findInContext sameChunk)) budget.toNat ctx vm

/-- The shared runtime: other threads insert and drop traces at any time, so each try finds what
they have left there. -/
structure SharedTraces where
  found : List (Option SourcedTrace)

def SharedTraces.find (shared : SharedTraces) (_ : Vm) (_ : TraceKey) :
    SharedTraces × Option SourcedTrace :=
  (⟨shared.found.tail⟩, shared.found.head?.join)

def runVmWithJitRuntime (host : ℕ → Host) (vm : Vm) (budget : UInt32) (shared : SharedTraces) :
    Option (Ran × SharedTraces) :=
  runVmWithJitLoop host (tryStep SharedTraces.find) budget.toNat shared vm

/-- A VM at the start of the code, without natives and with unbounded memory. -/
def atStart (chunk : Chunk) (registers : List Value) : Vm where
  chunk := chunk
  natives := []
  nativeGate := ⟨false, .empty 0, 0, 0, 0, 0⟩
  frames := [⟨0, 0, registers, none⟩]
  instructionsExecuted := 0
  nextRequestId := 1
  quota := none

end Jit

end Byteflow
