import Byteflow.Foundations.Exec
import Byteflow.Scheduler.Quota
import Byteflow.Vm.Native

/-!
# The VM

The register machine that interprets one flow (`vm/machine.rs`, `vm/frame.rs`). `Vm.step` executes
one instruction, `Vm.run` as many as its budget allows. An instruction that needs the scheduler
stops the run with a `VmResult`; what it changed before that stays changed.

The top frame is the head of the list. Arithmetic wraps, as in a release build. A store of a `Str`
or `Bytes` is charged to the quota unless the register holds the very same buffer; values have no
addresses here, so the `Host` of a step says whether the buffer is the same.
-/

namespace Byteflow

/-- What the outside decides in one step: the state that a native reads, whether the buffer stored
is the one that the register holds, and the epochs of the revocation cells. -/
structure Host where
  tick : ℕ
  aliased : Bool
  epoch : CellId → UInt64

namespace Vm

/-- An activation record. -/
structure Frame where
  function : UInt32
  pc : ℕ
  registers : List Value
  /-- The register of the caller that gets the return value; none in the outermost frame. -/
  destReg : Option UInt8
  deriving DecidableEq

def Frame.new (function : UInt32) (numRegisters : UInt8) (destReg : Option UInt8) : Frame :=
  ⟨function, 0, List.replicate numRegisters.toNat .unit, destReg⟩

end Vm

/-- One flow's execution state. -/
structure Vm where
  chunk : Chunk
  natives : NativeTable
  nativeGate : NativeGate
  frames : List Vm.Frame
  instructionsExecuted : ℕ
  nextRequestId : UInt64
  quota : Option FlowQuota

namespace Vm

def maxCallDepth : ℕ := 4096

/-! ## Registers -/

def emptyStack : Fault := .invariant "empty frame stack while running"

def getReg (vm : Vm) (reg : UInt8) : Except Fault Value :=
  match vm.frames with
  | [] => .error emptyStack
  | frame :: _ =>
    match frame.registers[reg.toNat]? with
    | some v => .ok v
    | none => .error (.registerOutOfRange reg (UInt8.ofNat frame.registers.length))

def peekReg (vm : Vm) (reg : UInt8) : Option Value :=
  vm.frames.head?.bind fun frame => frame.registers[reg.toNat]?

/-- `Str` and `Bytes` are charged by length; empty buffers are free. -/
def chargeHeapValue (quota : FlowQuota) (value : Value) : Except Fault FlowQuota :=
  let charge (bytes : ℕ) : Except Fault FlowQuota :=
    if bytes = 0 then .ok quota
    else match quota.alloc bytes with
      | .ok quota => .ok quota
      | .error e => .error (.quotaExceeded e.message)
  match value with
  | .str s => charge s.utf8ByteSize
  | .bytes b => charge b.length
  | _ => .ok quota

/-- The charge of a store, unless the same buffer is already there. -/
def chargeRegisterStore (host : Host) (vm : Vm) (reg : UInt8) (value : Value) : Except Fault Vm :=
  match vm.quota with
  | none => .ok vm
  | some quota =>
    if host.aliased && vm.peekReg reg = some value then .ok vm
    else match chargeHeapValue quota value with
      | .ok quota => .ok { vm with quota := some quota }
      | .error fault => .error fault

def setReg (host : Host) (vm : Vm) (reg : UInt8) (value : Value) : Except Fault Unit × Vm :=
  match vm.chargeRegisterStore host reg value with
  | .error fault => (.error fault, vm)
  | .ok vm =>
    match vm.frames with
    | [] => (.error emptyStack, vm)
    | frame :: rest =>
      if reg.toNat < frame.registers.length then
        (.ok (), { vm with
          frames := { frame with registers := frame.registers.set reg.toNat value } :: rest })
      else (.error (.registerOutOfRange reg (UInt8.ofNat frame.registers.length)), vm)

/-- A value that the scheduler delivers. An error is dropped. -/
def resumeWith (host : Host) (vm : Vm) (destReg : UInt8) (value : Value) : Vm :=
  (vm.setReg host destReg value).2

/-- A correlation id, never `0`. -/
def freshRequestId (vm : Vm) : UInt64 × Vm :=
  let next (id : UInt64) : UInt64 := if id + 1 = 0 then id else id + 1
  if vm.nextRequestId = 0 then (1, { vm with nextRequestId := next 1 })
  else (vm.nextRequestId, { vm with nextRequestId := next vm.nextRequestId })

/-! ## Entering a function -/

/-- The arguments in `r0..`, as far as there are registers. -/
def loadArgs (frameSize : UInt8) : ℕ → List Value → List Value → Except Fault (List Value)
  | _, [], registers => .ok registers
  | i, _ :: _, [] => .error (.registerOutOfRange (UInt8.ofNat i) frameSize)
  | i, a :: as, _ :: registers => do
    let registers ← loadArgs frameSize (i + 1) as registers
    return a :: registers

def enter (chunk : Chunk) (function : UInt32) (args : List Value) (destReg : Option UInt8) :
    Except Fault Frame := do
  match chunk.function function with
  | none => .error (.badFunction function chunk.functions.length)
  | some f =>
    let frame := Frame.new function f.numRegisters destReg
    let registers ← loadArgs f.numRegisters 0 (args.take f.arity.toNat) frame.registers
    return { frame with pc := f.entry.toNat, registers := registers }

def withNativeGate (chunk : Chunk) (natives : NativeTable) (gate : NativeGate)
    (function : UInt32) (args : List Value) : Except Fault Vm := do
  let frame ← enter chunk function args none
  return ⟨chunk, natives, gate, [frame], 0, 1, none⟩

def chargeAll (quota : FlowQuota) : List Value → Except Fault FlowQuota
  | [] => .ok quota
  | v :: vs => do
    let quota ← chargeHeapValue quota v
    chargeAll quota vs

/-- Attach the quota, and charge what the registers hold already. -/
def setQuota (vm : Vm) (quota : FlowQuota) : Except Fault Vm := do
  let quota ← chargeAll quota (vm.frames.flatMap (·.registers))
  return { vm with quota := some quota }

/-! ## Operands -/

def asF64 : Value → Except Fault Float
  | .int i => .ok i.toFloat
  | .float bits => .ok (.ofBits bits)
  | v => .error (.typeMismatch "int or float" v.typeName)

def numericBinop (op : Opcode) (a b : Value) : Except Fault Value :=
  match op, a, b with
  | .add, .int x, .int y => .ok (.int (x + y))
  | .add, a, b => return .float ((← asF64 a) + (← asF64 b)).toBits
  | .sub, .int x, .int y => .ok (.int (x - y))
  | .sub, a, b => return .float ((← asF64 a) - (← asF64 b)).toBits
  | .mul, .int x, .int y => .ok (.int (x * y))
  | .mul, a, b => return .float ((← asF64 a) * (← asF64 b)).toBits
  | .div, .int x, .int y => if y = 0 then .error .divideByZero else .ok (.int (x / y))
  | .div, a, b => do
    let denom ← asF64 b
    return .float ((← asF64 a) / denom).toBits
  | .mod, .int x, .int y => if y = 0 then .error .divideByZero else .ok (.int (x % y))
  | .eq, a, b => .ok (.bool (a.eq b))
  | .lt, .int x, .int y => .ok (.bool (x < y))
  | .lt, a, b => return .bool ((← asF64 a) < (← asF64 b))
  | .le, .int x, .int y => .ok (.bool (x ≤ y))
  | .le, a, b => return .bool ((← asF64 a) ≤ (← asF64 b))
  | _, _, _ => .error (.invariant "numeric_binop called with a non-arithmetic opcode")

def negate : Value → Except Fault Value
  | .int x => .ok (.int (-x))
  | .float bits => .ok (.float (-(Float.ofBits bits)).toBits)
  | v => .error (.typeMismatch "int or float" v.typeName)

/-- The register index `base + offset`, if there is one. -/
def regAt (base : UInt8) (offset : ℕ) : Except Fault UInt8 :=
  if base.toNat + offset < 256 then .ok (UInt8.ofNat (base.toNat + offset))
  else .error (.registerIndexOverflow base (UInt8.ofNat (min offset 255)))

def tagFromValue (v : Value) : Except Fault UInt16 :=
  match v.asInt with
  | some i =>
    if 0 ≤ i.toInt ∧ i.toInt < 2 ^ 16 then .ok (UInt16.ofNat i.toInt.toNat)
    else .error (.typeMismatch "tag u16" "int-out-of-range")
  | none => .error (.typeMismatch "int" v.typeName)

def tagFromImm (imm : Int32) : Except Fault UInt16 :=
  if 0 ≤ imm.toInt ∧ imm.toInt < 2 ^ 16 then .ok (UInt16.ofNat imm.toInt.toNat)
  else .error (.typeMismatch "tag u16" "imm-out-of-range")

def requestIdFromValue (v : Value) : Except Fault UInt64 :=
  match v.asInt with
  | some i =>
    if 0 ≤ i then .ok i.toUInt64 else .error (.typeMismatch "request_id u64" "negative-int")
  | none => .error (.typeMismatch "int" v.typeName)

/-- The milliseconds of a timeout: `0` for anything that is no duration. -/
def timeoutMillis (v : Value) : ℕ :=
  match v.asInt with
  | some n => n.toInt.toNat
  | none => 0

def capOf (v : Value) : Except Fault CapId :=
  match v.asCap with
  | some id => .ok id
  | none => .error (.typeMismatch "cap" v.typeName)

def expectMessage (v : Value) : Except Fault Unit :=
  match v.asMessage with
  | some _ => .ok ()
  | none => .error (.typeMismatch "message" v.typeName)

def nameOf : Value → Except Fault String
  | .str s => .ok s
  | v => .error (.typeMismatch "str" v.typeName)

/-- The argument values at `base + offset ..`. -/
def gather (vm : Vm) (base : UInt8) : ℕ → ℕ → Except Fault (List Value)
  | _, 0 => .ok []
  | offset, argc + 1 => do
    let v ← vm.getReg (← regAt base offset)
    let vs ← vm.gather base (offset + 1) argc
    return v :: vs

/-! ## Instructions -/

/-- Code of the VM: it stops with what the run returns. -/
abbrev Code := Exec VmResult Vm

/-- A fault ends the run. -/
def trap {α : Type} : Except Fault α → Code α
  | .ok a => pure a
  | .error fault => throw (.trap fault)

def read (reg : UInt8) : Code Value := do trap ((← get).getReg reg)

def write (host : Host) (reg : UInt8) (value : Value) : Code Unit := do
  let (r, vm) := (← get).setReg host reg value
  set vm
  trap r

/-- The next instruction, if control has not fallen off the end of the code. -/
def fetch : Code (Option Instruction) := do
  let vm ← get
  match vm.frames with
  | [] => throw (.trap emptyStack)
  | frame :: rest =>
    match vm.chunk.code[frame.pc]? with
    | some instr =>
      set { vm with frames := { frame with pc := frame.pc + 1 } :: rest }
      return some instr
    | none => return none

def jump (imm : Int32) : Code Unit := do
  let vm ← get
  match vm.frames with
  | [] => throw (.trap emptyStack)
  | frame :: rest =>
    -- the sum of two `i64` as a `usize`
    let target := ((frame.pc + imm.toInt) % 2 ^ 64).toNat
    set { vm with frames := { frame with pc := target } :: rest }

/-- Pop the current frame, and deliver the value to the caller. -/
def popFrame (host : Host) (value : Value) : Code Unit := do
  let vm ← get
  match vm.frames with
  | [] => throw (.trap (.invariant "pop_frame on empty stack"))
  | finished :: rest =>
    let vm := { vm with frames := rest }
    match finished.destReg with
    | none =>
      set vm
      throw (.complete value)
    | some dest =>
      let (r, vm) := vm.setReg host dest value
      set vm
      match r with
      | .ok _ => pure ()
      | .error _ =>
        let frameSize := (rest.head?.map (·.registers.length)).getD 0
        throw (.trap (.registerOutOfRange dest (UInt8.ofNat frameSize)))

def call (function : UInt32) (argc dst : UInt8) : Code Unit := do
  let vm ← get
  if maxCallDepth ≤ vm.frames.length then
    throw (.trap (.callStackOverflow vm.frames.length))
  else match vm.chunk.function function with
  | none => throw (.trap (.badFunction function vm.chunk.functions.length))
  | some _ =>
    let args ← trap (vm.gather dst 0 argc.toNat)
    let frame ← trap (enter vm.chunk function args (some dst))
    set { vm with frames := frame :: vm.frames }

/-- The native that `CallNative` is about to invoke, with its arguments. -/
def nativeCall (host : Host) (vm : Vm) (index : UInt32) (argc dst : UInt8) :
    Except Fault (NativeFn × List Value) :=
  match checkNativeGate vm.nativeGate host.epoch vm.natives index with
  | .error (.indexOutOfRange index) => .error (.badNative index vm.natives.length)
  | .error e => .error (.nativeDenied e.message)
  | .ok _ =>
    match vm.natives.get index with
    | none => .error (.badNative index vm.natives.length)
    | some native => do
      let args ← vm.gather dst 0 argc.toNat
      return (native, args)

def callNative (host : Host) (index : UInt32) (argc dst : UInt8) : Code Unit := do
  let (native, args) ← trap ((← get).nativeCall host index argc dst)
  write host dst (← trap (native host.tick args))

def sleepMillis (v : Value) : Except Fault ℕ :=
  match v.asInt with
  | some ms =>
    if 0 ≤ ms then .ok ms.toInt.toNat else .error (.typeMismatch "non-negative int" v.typeName)
  | none => .error (.typeMismatch "non-negative int" v.typeName)

/-- Execute one instruction. -/
def exec (host : Host) (instr : Instruction) : Code Unit := do
  match instr.op with
  | .halt => throw (.complete (← read 0))
  | .nop => pure ()
  | .loadConst =>
    let chunk := (← get).chunk
    match chunk.constant instr.imm.toUInt32 with
    | some v => write host instr.a v
    | none => throw (.trap (.badConstant instr.imm.toUInt32 chunk.constants.length))
  | .loadImm => write host instr.a (.int instr.imm.toInt64)
  | .move => write host instr.a (← read instr.b)
  | .add | .sub | .mul | .div | .mod | .eq | .lt | .le =>
    let a ← read instr.b
    let b ← read instr.c
    write host instr.a (← trap (numericBinop instr.op a b))
  | .neg =>
    let v ← read instr.b
    write host instr.a (← trap (negate v))
  | .jump => jump instr.imm
  | .branch =>
    let cond ← read instr.a
    if !cond.isTruthy then jump instr.imm
  | .call => call instr.imm.toUInt32 instr.b instr.a
  | .callNative => callNative host instr.imm.toUInt32 instr.b instr.a
  | .return => popFrame host (← read instr.a)
  | .spawn =>
    -- the arguments start after `a`, which gets the `Cap` to the child
    let args ← trap ((← get).gather instr.a 1 instr.b.toNat)
    throw (.spawn instr.imm.toUInt32 args instr.a (CapRights.fromU8 instr.c))
  | .yield => throw .yield
  | .sleep => throw (.sleep (← trap (sleepMillis (← read instr.a))))
  | .exit => throw (.complete (← read instr.a))
  | .selfPid => throw (.selfPid instr.a)
  | .send =>
    let target ← read instr.a
    let message ← read instr.b
    let cap ← trap (capOf target)
    trap (expectMessage message)
    throw (.send cap message)
  | .receive => throw (.receive instr.a none none none)
  | .receiveTimeout =>
    let millis ← read instr.b
    throw (.receive instr.a (some (timeoutMillis millis)) none none)
  | .receiveMatch =>
    let tag ← trap (tagFromValue (← read instr.b))
    throw (.receive instr.a none (some tag) none)
  | .receiveMatchImm =>
    let tag ← trap (tagFromImm instr.imm)
    throw (.receive instr.a none (some tag) none)
  | .freshRequestId =>
    let (id, vm) := (← get).freshRequestId
    set vm
    write host instr.a (.int id.toInt64)
  | .receiveMatchCorr =>
    let tag ← trap (tagFromValue (← read instr.b))
    let rid ← trap (requestIdFromValue (← read instr.c))
    throw (.receive instr.a none (some tag) (some rid))
  | .receiveMatchCorrImm =>
    let tag ← trap (tagFromImm instr.imm)
    let rid ← trap (requestIdFromValue (← read instr.b))
    throw (.receive instr.a none (some tag) (some rid))
  | .ask =>
    let target ← read instr.b
    let request ← read instr.c
    let cap ← trap (capOf target)
    trap (expectMessage request)
    throw (.ask instr.a cap request none)
  | .askTimeout =>
    let target ← read instr.b
    let request ← read instr.c
    if instr.imm.toInt < 0 ∨ 2 ^ 8 ≤ instr.imm.toInt then
      throw (.trap (.typeMismatch "millis register" "imm-out-of-range"))
    let millis ← read (UInt8.ofNat instr.imm.toInt.toNat)
    let cap ← trap (capOf target)
    trap (expectMessage request)
    throw (.ask instr.a cap request (some (timeoutMillis millis)))
  | .monitor => throw (.monitor instr.a (← trap (capOf (← read instr.b))))
  | .demonitor => throw (.demonitor instr.a)
  | .link => throw (.link instr.a (← trap (capOf (← read instr.b))))
  | .unlink => throw (.unlink instr.a)
  | .registerName => throw (.registerName (← trap (nameOf (← read instr.a))))
  | .whereis => throw (.whereis instr.a (← trap (nameOf (← read instr.b))))
  | .delegate =>
    let src ← trap (capOf (← read instr.b))
    let native ← if instr.c = 255 then pure none
      else some <$> do trap (capOf (← read instr.c))
    throw (.delegate instr.a src ⟨instr.imm.toUInt32⟩ native)
  | .trap => throw (.trap (.explicit instr.imm))

/-- One instruction, or the implicit return at the end of a function. -/
def instruction (host : Host) : Code Unit := do
  modify fun vm => { vm with instructionsExecuted := vm.instructionsExecuted + 1 }
  match ← fetch with
  | some instr => exec host instr
  | none => popFrame host .unit

/-- What one instruction leads to: the run goes on, or it ends with a result. -/
def step (host : Host) (vm : Vm) : Option VmResult × Vm :=
  match (instruction host).runFrom vm with
  | (.ok _, vm) => (none, vm)
  | (.error result, vm) => (some result, vm)

/-- Run at most `budget` instructions. -/
def run (host : ℕ → Host) : ℕ → Vm → VmResult × Vm
  | 0, vm => (.yield, vm)
  | budget + 1, vm =>
    match vm.step (host vm.instructionsExecuted) with
    | (none, vm) => run host budget vm
    | (some result, vm) => (result, vm)

end Vm

end Byteflow
