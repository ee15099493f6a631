import Byteflow.Vm.Values

/-!
# One instruction

What the execution of one instruction leads to (`step_moves`): the run ends with a result and the
registers as they were, or the instruction stores into one register, jumps, enters a function or
leaves one. What an instruction may raise is told apart from its own operands (`Raises`).
-/

namespace Byteflow

/-- The faults of bad program data: all but those of a malformed chunk or a broken machine. -/
def Fault.OfProgram : Fault → Prop
  | badConstant .. | badFunction .. | invariant _ => False
  | _ => True

/-- The faults of operands that an instruction cannot use. -/
def Fault.OfOperands : Fault → Prop
  | typeMismatch .. | divideByZero => True
  | _ => False

theorem Fault.OfOperands.ofProgram {fault : Fault} (h : fault.OfOperands) : fault.OfProgram := by
  cases fault <;> trivial

/-- The length of the buffer that a value refers to. -/
def Value.bufferLen : Value → ℕ
  | .str s => s.utf8ByteSize
  | .bytes b => b.length
  | _ => 0

/-- The register that gets the answer of the scheduler. -/
def VmResult.dest : VmResult → Option UInt8
  | spawn _ _ destReg _ => some destReg
  | selfPid destReg => some destReg
  | receive destReg .. => some destReg
  | ask destReg .. => some destReg
  | monitor destReg _ => some destReg
  | link destReg _ => some destReg
  | whereis destReg _ => some destReg
  | delegate destReg .. => some destReg
  | _ => none

/-- The operand that names this register. -/
def Instruction.dest (instr : Instruction) : Option UInt8 :=
  match instr.op with
  | .spawn | .selfPid | .receive | .receiveTimeout | .receiveMatch | .receiveMatchImm
  | .receiveMatchCorr | .receiveMatchCorrImm | .ask | .askTimeout | .monitor | .link | .whereis
  | .delegate => some instr.a
  | _ => none

/-- What asks the scheduler for anything but a child, or ends the flow without a fault. -/
def VmResult.Effect : VmResult → Prop
  | trap _ | spawn .. => False
  | _ => True

namespace Vm

open Exec

/-- The instruction at the program counter. -/
def next (vm : Vm) : Option Instruction :=
  vm.frames.head?.bind fun frame => vm.chunk.code[frame.pc]?

/-- The flow with one more instruction on its account. -/
def counted (vm : Vm) : Vm := { vm with instructionsExecuted := vm.instructionsExecuted + 1 }

/-- The flow with its program counter at `pc`. -/
def goto (vm : Vm) (pc : ℕ) : Vm :=
  match vm.frames with
  | [] => vm
  | frame :: rest => { vm with frames := { frame with pc := pc } :: rest }

/-- The flow after its next instruction was fetched. -/
def fetched (vm : Vm) : Vm := vm.counted.goto ((vm.frames.head?.map (·.pc)).getD 0 + 1)

/-- The value that the next instruction returns from its function. -/
def returned (vm : Vm) : Option Value :=
  match vm.frames, vm.next with
  | [], _ => none
  | _ :: _, none => some .unit
  | _ :: _, some instr => if instr.op = .return then (vm.getReg instr.a).toOption else none

/-- What an instruction may end the run with when it changes nothing. -/
inductive Raises (host : Host) (instr : Instruction) (vm : Vm) : VmResult → Prop
  | fault {fault : Fault} (h : fault.OfProgram) : Raises host instr vm (.trap fault)
  | stack (h : vm.frames = []) : Raises host instr vm (.trap emptyStack)
  | constant (hop : instr.op = .loadConst) (h : vm.chunk.constant instr.imm.toUInt32 = none) :
      Raises host instr vm (.trap (.badConstant instr.imm.toUInt32 vm.chunk.constants.length))
  | function (hop : instr.op = .call) (h : vm.chunk.function instr.imm.toUInt32 = none) :
      Raises host instr vm (.trap (.badFunction instr.imm.toUInt32 vm.chunk.functions.length))
  /-- There is no remainder but of two integers. -/
  | modulo (hop : instr.op = .mod) {a b : Value} (ha : vm.getReg instr.b = .ok a)
      (hb : vm.getReg instr.c = .ok b) (h : ∀ x y, ¬(a = .int x ∧ b = .int y)) {fault : Fault}
      (hfault : ∃ message, fault = .invariant message) : Raises host instr vm (.trap fault)
  | native (hop : instr.op = .callNative) {f : NativeFn} {args : List Value}
      (h : vm.nativeCall host instr.imm.toUInt32 instr.b instr.a = .ok (f, args)) {fault : Fault}
      (hf : f host.tick args = .error fault) : Raises host instr vm (.trap fault)
  | spawn (hop : instr.op = .spawn) (args : List Value) (rights : CapRights) :
      Raises host instr vm (.spawn instr.imm.toUInt32 args instr.a rights)
  | effect {result : VmResult} (h : result.Effect) (hdest : result.dest = instr.dest) :
      Raises host instr vm result

/-- What one instruction leads to. -/
inductive Moves (host : Host) (vm : Vm) : Option VmResult → Vm → Prop
  | stuck (h : vm.frames = []) : Moves host vm (some (.trap emptyStack)) vm.counted
  | result {instr : Instruction} (hnext : vm.next = some instr) {r : VmResult}
      (h : Raises host instr vm r) : Moves host vm (some r) vm.fetched
  | passes {instr : Instruction} (hnext : vm.next = some instr) : Moves host vm none vm.fetched
  | jumps {instr : Instruction} (hnext : vm.next = some instr)
      (hop : instr.op = .jump ∨ instr.op = .branch) {frame : Frame} {rest : List Frame}
      (hframes : vm.frames = frame :: rest) :
      Moves host vm none (vm.counted.goto (((frame.pc + 1 + instr.imm.toInt) % 2 ^ 64).toNat))
  /-- A store into the registers of the top frame; a fresh request id was drawn for it, perhaps. -/
  | stores {instr : Instruction} (hnext : vm.next = some instr) (reg : UInt8) (v : Value)
      {vm₁ vm' : Vm} (hvm : vm₁ = vm.fetched ∨ vm₁ = vm.fetched.freshRequestId.2)
      (h : vm₁.setReg host reg v = (.ok (), vm')) : Moves host vm none vm'
  | refuses {instr : Instruction} (hnext : vm.next = some instr) (reg : UInt8) (v : Value)
      {vm₁ vm' : Vm} (hvm : vm₁ = vm.fetched ∨ vm₁ = vm.fetched.freshRequestId.2) {fault : Fault}
      (h : vm₁.setReg host reg v = (.error fault, vm')) : Moves host vm (some (.trap fault)) vm'
  | calls {instr : Instruction} (hnext : vm.next = some instr) (hop : instr.op = .call)
      (hdepth : vm.frames.length < maxCallDepth) {args : List Value} {frame : Frame}
      (hargs : vm.gather instr.a 0 instr.b.toNat = .ok args)
      (h : enter vm.chunk instr.imm.toUInt32 args (some instr.a) = .ok frame) :
      Moves host vm none { vm.fetched with frames := frame :: vm.fetched.frames }
  | completes {finished : Frame} {rest : List Frame} (hframes : vm.frames = finished :: rest)
      {v : Value} (hv : vm.returned = some v) (hdest : finished.destReg = none) :
      Moves host vm (some (.complete v)) { vm.counted with frames := rest }
  | returns {finished : Frame} {rest : List Frame} (hframes : vm.frames = finished :: rest)
      {v : Value} (hv : vm.returned = some v) {dest : UInt8} (hdest : finished.destReg = some dest)
      {vm' : Vm} (h : { vm.counted with frames := rest }.setReg host dest v = (.ok (), vm')) :
      Moves host vm none vm'
  /-- The caller cannot take the value. -/
  | loses {finished : Frame} {rest : List Frame} (hframes : vm.frames = finished :: rest)
      {v : Value} (hv : vm.returned = some v) {dest : UInt8} (hdest : finished.destReg = some dest)
      {vm' : Vm} {fault : Fault}
      (h : { vm.counted with frames := rest }.setReg host dest v = (.error fault, vm'))
      (frameSize : UInt8) :
      Moves host vm (some (.trap (.registerOutOfRange dest frameSize))) vm'

variable {host : Host} {vm : Vm} {instr : Instruction}

/-! ## Small facts -/

@[simp] theorem counted_frames : vm.counted.frames = vm.frames := rfl

@[simp] theorem counted_chunk : vm.counted.chunk = vm.chunk := rfl

@[simp] theorem goto_chunk (pc : ℕ) : (vm.goto pc).chunk = vm.chunk := by
  unfold goto
  split <;> rfl

theorem goto_of_frames {frame : Frame} {rest : List Frame} (h : vm.frames = frame :: rest)
    (pc : ℕ) : vm.goto pc = { vm with frames := { frame with pc := pc } :: rest } := by
  unfold goto
  rw [h]

theorem fetched_of_frames {frame : Frame} {rest : List Frame} (h : vm.frames = frame :: rest) :
    vm.fetched = { vm.counted with frames := { frame with pc := frame.pc + 1 } :: rest } := by
  unfold fetched
  rw [@goto_of_frames vm.counted _ _ h]
  simp [h]

@[simp] theorem fetched_chunk : vm.fetched.chunk = vm.chunk := goto_chunk _

/-- Nothing that an instruction reads depends on the program counter. -/
theorem getReg_fetched (reg : UInt8) : vm.fetched.getReg reg = vm.getReg reg := by
  cases h : vm.frames with
  | nil =>
    unfold fetched goto getReg
    simp only [counted_frames, h]
  | cons frame rest =>
    rw [fetched_of_frames h]
    unfold getReg
    simp only [h]

theorem gather_congr {vm vm' : Vm} (h : ∀ reg, vm'.getReg reg = vm.getReg reg) (dst : UInt8)
    (offset argc : ℕ) : vm'.gather dst offset argc = vm.gather dst offset argc := by
  induction argc generalizing offset with
  | zero => rfl
  | succ argc ih =>
    unfold gather
    simp only [h, ih]

theorem frames_of_next (h : vm.next = some instr) : ∃ frame rest, vm.frames = frame :: rest := by
  cases hf : vm.frames with
  | nil => simp [next, hf] at h
  | cons frame rest => exact ⟨frame, rest, rfl⟩

/-! ## Faults -/

theorem fault_of_getReg {reg : UInt8} {fault : Fault} (h : vm.getReg reg = .error fault) :
    fault.OfProgram ∨ vm.frames = [] ∧ fault = emptyStack := by
  unfold getReg at h
  split at h
  · rename_i hframes
    cases h
    exact .inr ⟨hframes, rfl⟩
  · split at h <;> cases h
    exact .inl trivial

theorem fault_of_regAt {base : UInt8} {offset : ℕ} {fault : Fault}
    (h : regAt base offset = .error fault) : fault.OfProgram := by
  unfold regAt at h
  split at h <;> cases h
  trivial

/-- Gathering fails on one of its operands. -/
theorem error_of_gather {base : UInt8} {offset argc : ℕ} {fault : Fault}
    (h : vm.gather base offset argc = .error fault) :
    (∃ offset, regAt base offset = .error fault) ∨ ∃ reg, vm.getReg reg = .error fault := by
  induction argc generalizing offset with
  | zero => cases h
  | succ argc ih =>
    unfold gather at h
    obtain h | ⟨reg, _, h⟩ := of_bind_error h
    · exact .inl ⟨offset, h⟩
    obtain h | ⟨v, _, h⟩ := of_bind_error h
    · exact .inr ⟨reg, h⟩
    obtain h | ⟨vs, _, h⟩ := of_bind_error h
    · exact ih h
    · cases h

theorem fault_of_gather {base : UInt8} {offset argc : ℕ} {fault : Fault}
    (h : vm.gather base offset argc = .error fault) :
    fault.OfProgram ∨ vm.frames = [] ∧ fault = emptyStack := by
  obtain ⟨_, h⟩ | ⟨_, h⟩ := error_of_gather h
  · exact .inl (fault_of_regAt h)
  · exact fault_of_getReg h

/-- The first argument without a register is reported. -/
theorem error_of_loadArgs {frameSize : UInt8} {i : ℕ} {args registers : List Value} {fault : Fault}
    (h : loadArgs frameSize i args registers = .error fault) :
    fault = .registerOutOfRange (UInt8.ofNat (i + registers.length)) frameSize := by
  induction args generalizing i registers with
  | nil => cases h
  | cons a args ih =>
    cases registers with
    | nil =>
      cases h
      rfl
    | cons r registers =>
      obtain h | ⟨_, _, h⟩ := of_bind_error h
      · rw [ih h, List.length_cons, Nat.add_assoc, Nat.add_comm 1]
      · cases h

theorem error_of_enter {chunk : Chunk} {function : UInt32} {args : List Value}
    {destReg : Option UInt8} {f : FunctionDef} (hf : chunk.function function = some f)
    {fault : Fault} (h : enter chunk function args destReg = .error fault) :
    fault = .registerOutOfRange f.numRegisters f.numRegisters := by
  unfold enter at h
  simp only [hf] at h
  obtain h | ⟨_, _, h⟩ := of_bind_error h
  · rw [error_of_loadArgs h]
    simp [Frame.new]
  · cases h

theorem fault_of_asF64 {v : Value} {fault : Fault} (h : asF64 v = .error fault) :
    fault.OfOperands := by
  cases v <;> cases h <;> trivial

theorem fault_of_floats {α : Type} {x y : Value} {f : Float → Float → α} {fault : Fault}
    (h : (do return f (← asF64 x) (← asF64 y)) = Except.error fault) : fault.OfOperands := by
  obtain h | ⟨_, _, h⟩ := of_bind_error h
  · exact fault_of_asF64 h
  obtain h | ⟨_, _, h⟩ := of_bind_error h
  · exact fault_of_asF64 h
  · cases h

/-- A charge allocates, unless it is free. -/
theorem alloc_of_chargeHeapValue {q q' : FlowQuota} {v : Value}
    (h : chargeHeapValue q v = .ok q') :
    q' = q ∧ v.bufferLen = 0 ∨ q.alloc v.bufferLen = .ok q' := by
  unfold chargeHeapValue at h
  cases v with
  | str _ | bytes _ =>
    dsimp only at h
    split at h
    · rename_i hzero
      cases h
      exact .inl ⟨rfl, hzero⟩
    · split at h
      · rename_i halloc
        cases h
        exact .inr halloc
      · cases h
  | _ =>
    cases h
    exact .inl ⟨rfl, rfl⟩

/-- A charge is refused by the quota. -/
theorem fault_of_chargeHeapValue {q : FlowQuota} {v : Value} {fault : Fault}
    (h : chargeHeapValue q v = .error fault) : ∃ message, fault = .quotaExceeded message := by
  unfold chargeHeapValue at h
  cases v with
  | str _ | bytes _ =>
    dsimp only at h
    split at h
    · cases h
    · split at h <;> cases h
      exact ⟨_, rfl⟩
  | _ => cases h

theorem fault_of_charge {reg : UInt8} {v : Value} {fault : Fault}
    (h : vm.chargeRegisterStore host reg v = .error fault) :
    ∃ message, fault = .quotaExceeded message := by
  unfold chargeRegisterStore at h
  split at h
  · cases h
  · split at h
    · cases h
    · split at h <;> cases h
      rename_i hcharge
      exact fault_of_chargeHeapValue hcharge

/-- Only a remainder of what are not two integers, or no arithmetic at all, is an invariant. -/
theorem fault_of_numericBinop {op : Opcode} {a b : Value} {fault : Fault}
    (h : numericBinop op a b = .error fault) :
    fault.OfOperands ∨ (op = .mod → ∀ x y, ¬(a = .int x ∧ b = .int y)) ∧
      op ∉ [Opcode.add, .sub, .mul, .div, .eq, .lt, .le] ∧
        ∃ message, fault = .invariant message := by
  have hzero {c : Prop} [Decidable c] {v : Value}
      (h : (if c then Except.error Fault.divideByZero else .ok v) = .error fault) :
      fault.OfOperands := by
    split at h <;> cases h
    trivial
  unfold numericBinop at h
  split at h
  · cases h
  · exact .inl (fault_of_floats h)
  · cases h
  · exact .inl (fault_of_floats h)
  · cases h
  · exact .inl (fault_of_floats h)
  · exact .inl (hzero h)
  · obtain h | ⟨_, _, h⟩ := of_bind_error h
    · exact .inl (fault_of_asF64 h)
    obtain h | ⟨_, _, h⟩ := of_bind_error h
    · exact .inl (fault_of_asF64 h)
    · cases h
  · exact .inl (hzero h)
  · cases h
  · cases h
  · exact .inl (fault_of_floats h)
  · cases h
  · exact .inl (fault_of_floats h)
  · refine .inr ⟨?_, ?_, ?_⟩
    · rintro rfl x y ⟨rfl, rfl⟩
      simp_all
    · simp_all
    · cases h
      exact ⟨_, rfl⟩

/-! ## Stores -/

/-- A charge changes nothing but the quota. -/
theorem charged {reg : UInt8} {v : Value} {vm' : Vm}
    (h : vm.chargeRegisterStore host reg v = .ok vm') :
    ∃ quota, vm' = { vm with quota := quota } := by
  unfold chargeRegisterStore at h
  split at h
  · cases h
    exact ⟨vm.quota, rfl⟩
  · split at h
    · cases h
      exact ⟨vm.quota, rfl⟩
    · split at h <;> cases h
      exact ⟨_, rfl⟩

/-- A store that succeeds. -/
theorem setReg_ok {reg : UInt8} {v : Value} {vm' : Vm} (h : vm.setReg host reg v = (.ok (), vm')) :
    ∃ frame rest, vm.frames = frame :: rest ∧ reg.toNat < frame.registers.length ∧
      vm' = { vm with
        quota := vm'.quota
        frames := { frame with registers := frame.registers.set reg.toNat v } :: rest } := by
  unfold setReg at h
  cases hcharge : vm.chargeRegisterStore host reg v with
  | error fault => simp [hcharge] at h
  | ok vm₁ =>
    obtain ⟨quota, rfl⟩ := charged hcharge
    simp only [hcharge] at h
    split at h
    · cases h
    · rename_i frame rest hframes
      split_ifs at h with hreg
      · cases h
        exact ⟨frame, rest, hframes, hreg, rfl⟩
      · cases h

/-- A store that fails. -/
theorem setReg_error {reg : UInt8} {v : Value} {vm' : Vm} {fault : Fault}
    (h : vm.setReg host reg v = (.error fault, vm')) :
    (∃ quota, vm' = { vm with quota := quota }) ∧
      (fault.OfProgram ∨ vm.frames = [] ∧ fault = emptyStack) := by
  unfold setReg at h
  cases hcharge : vm.chargeRegisterStore host reg v with
  | error fault' =>
    simp only [hcharge] at h
    cases h
    obtain ⟨message, rfl⟩ := fault_of_charge hcharge
    exact ⟨⟨vm.quota, rfl⟩, .inl trivial⟩
  | ok vm₁ =>
    obtain ⟨quota, rfl⟩ := charged hcharge
    simp only [hcharge] at h
    split at h
    · rename_i hframes
      cases h
      exact ⟨⟨quota, rfl⟩, .inr ⟨hframes, rfl⟩⟩
    · split_ifs at h <;> cases h
      exact ⟨⟨quota, rfl⟩, .inl trivial⟩

/-! ## Operands -/

theorem fault_of_capOf {v : Value} {fault : Fault} (h : capOf v = .error fault) :
    fault.OfOperands := by
  cases v <;> cases h <;> trivial

theorem fault_of_expectMessage {v : Value} {fault : Fault} (h : expectMessage v = .error fault) :
    fault.OfOperands := by
  cases v <;> cases h <;> trivial

theorem fault_of_nameOf {v : Value} {fault : Fault} (h : nameOf v = .error fault) :
    fault.OfOperands := by
  cases v <;> cases h <;> trivial

theorem fault_of_negate {v : Value} {fault : Fault} (h : negate v = .error fault) :
    fault.OfOperands := by
  cases v <;> cases h <;> trivial

theorem fault_of_tagFromImm {imm : Int32} {fault : Fault} (h : tagFromImm imm = .error fault) :
    fault.OfOperands := by
  unfold tagFromImm at h
  split_ifs at h
  cases h
  trivial

/-- An operand that is read as an integer, and checked. -/
theorem fault_of_asInt {α : Type} {v : Value} {f : Int64 → Except Fault α}
    (hf : ∀ i fault, f i = .error fault → fault.OfOperands) {expected : String} {fault : Fault}
    (h : (match v.asInt with
      | some i => f i
      | none => .error (.typeMismatch expected v.typeName)) = .error fault) :
    fault.OfOperands := by
  split at h
  · exact hf _ _ h
  · cases h
    trivial

theorem fault_of_tagFromValue {v : Value} {fault : Fault} (h : tagFromValue v = .error fault) :
    fault.OfOperands :=
  fault_of_asInt (fun i fault h => by split_ifs at h; cases h; trivial) h

theorem fault_of_requestIdFromValue {v : Value} {fault : Fault}
    (h : requestIdFromValue v = .error fault) : fault.OfOperands :=
  fault_of_asInt (fun i fault h => by split_ifs at h; cases h; trivial) h

theorem fault_of_sleepMillis {v : Value} {fault : Fault} (h : sleepMillis v = .error fault) :
    fault.OfOperands :=
  fault_of_asInt (fun i fault h => by split_ifs at h; cases h; trivial) h

theorem fault_of_nativeCall {index : UInt32} {argc dst : UInt8} {fault : Fault}
    (h : vm.nativeCall host index argc dst = .error fault) :
    fault.OfProgram ∨ vm.frames = [] ∧ fault = emptyStack := by
  unfold nativeCall at h
  split at h
  · cases h
    exact .inl trivial
  · cases h
    exact .inl trivial
  · split at h
    · cases h
      exact .inl trivial
    · obtain h | ⟨_, _, h⟩ := of_bind_error h
      · exact fault_of_gather h
      · cases h

/-- A native call sees the registers, and nothing else of the frames. -/
theorem nativeCall_fetched (index : UInt32) (argc dst : UInt8) :
    vm.fetched.nativeCall host index argc dst = vm.nativeCall host index argc dst := by
  have hgather := gather_congr (@getReg_fetched vm) dst 0 argc.toNat
  have hrest : vm.fetched.natives = vm.natives ∧ vm.fetched.nativeGate = vm.nativeGate := by
    unfold fetched goto
    split <;> exact ⟨rfl, rfl⟩
  unfold nativeCall
  rw [hrest.1, hrest.2]
  simp only [hgather]

/-! ## The opcodes -/

/-- The opcodes of `numericBinop`. -/
def Numeric (op : Opcode) : Prop := op ∈ [Opcode.add, .sub, .mul, .div, .mod, .eq, .lt, .le]

/-- What holds of an instruction opcode by opcode: `E` of what it ends the run with before it
changes anything, and `P` of what its code leads to. -/
structure Opcodes (host : Host) (vm : Vm) (instr : Instruction) (E : VmResult → Prop)
    (P : Except VmResult Unit × Vm → Prop) : Prop where
  ends : ∀ r, E r → P (.error r, vm.fetched)
  register : ∀ reg fault, vm.getReg reg = .error fault → E (.trap fault)
  index : ∀ base offset fault, regAt base offset = .error fault → E (.trap fault)
  operands : ∀ fault : Fault, fault.OfOperands → E (.trap fault)
  numeric : Numeric instr.op → ∀ x y fault, vm.getReg instr.b = .ok x → vm.getReg instr.c = .ok y →
    numericBinop instr.op x y = .error fault → E (.trap fault)
  constant : instr.op = .loadConst → vm.chunk.constant instr.imm.toUInt32 = none →
    E (.trap (.badConstant instr.imm.toUInt32 vm.chunk.constants.length))
  native : instr.op = .callNative → ∀ fault,
    vm.nativeCall host instr.imm.toUInt32 instr.b instr.a = .error fault → E (.trap fault)
  fails : instr.op = .callNative → ∀ f args fault,
    vm.nativeCall host instr.imm.toUInt32 instr.b instr.a = .ok (f, args) →
    f host.tick args = .error fault → E (.trap fault)
  explicit : E (.trap (.explicit instr.imm))
  effect : ∀ r : VmResult, r.Effect → r.dest = instr.dest → E r
  spawn : instr.op = .spawn → ∀ args rights, E (.spawn instr.imm.toUInt32 args instr.a rights)
  passes : P (.ok (), vm.fetched)
  writes : ∀ reg v vm₁, vm₁ = vm.fetched ∨ vm₁ = vm.fetched.freshRequestId.2 →
    P ((write host reg v).runFrom vm₁)
  jumps : instr.op = .jump ∨ instr.op = .branch → P ((jump instr.imm).runFrom vm.fetched)
  calls : instr.op = .call → P ((call instr.imm.toUInt32 instr.b instr.a).runFrom vm.fetched)
  returns : instr.op = .return → ∀ v, vm.getReg instr.a = .ok v →
    P ((popFrame host v).runFrom vm.fetched)

/-- Code of an instruction that only reads. -/
abbrev Looks {α : Type} (vm : Vm) (x : Code α) (Q : α → Prop) (E : VmResult → Prop) : Prop :=
  Reads vm.fetched x Q E

theorem looks_trap {α : Type} {E : VmResult → Prop} {r : Except Fault α}
    (h : ∀ fault, r = .error fault → E (.trap fault)) :
    Looks vm (trap r) (fun a => r = .ok a) E := by
  cases r with
  | ok a => exact reads_pure rfl
  | error fault => exact reads_throw (h fault rfl)

namespace Opcodes

variable {E : VmResult → Prop} {P : Except VmResult Unit × Vm → Prop}

theorem looks_read (h : Opcodes host vm instr E P) (reg : UInt8) :
    Looks vm (read reg) (fun v => vm.getReg reg = .ok v) E := by
  refine reads_get.bind fun s hs => ?_
  rw [hs, getReg_fetched]
  exact looks_trap (h.register reg)

/-- A conversion of an operand. -/
theorem looks_plain (h : Opcodes host vm instr E P) {α : Type} {r : Except Fault α}
    (hr : ∀ fault, r = .error fault → fault.OfOperands) :
    Looks vm (trap r) (fun a => r = .ok a) E :=
  looks_trap fun fault hfault => h.operands fault (hr fault hfault)

theorem goesOn (h : Opcodes host vm instr E P) {α : Type} {x : Code α} {f : α → Code Unit}
    {Q : α → Prop} (hx : Looks vm x Q E) (hf : ∀ a, Q a → P ((f a).runFrom vm.fetched)) :
    P ((x >>= f).runFrom vm.fetched) :=
  hx.next h.ends hf

/-- An operand that is read. -/
theorem reads (h : Opcodes host vm instr E P) (reg : UInt8) {f : Value → Code Unit}
    (hf : ∀ v, vm.getReg reg = .ok v → P ((f v).runFrom vm.fetched)) :
    P ((read reg >>= f).runFrom vm.fetched) :=
  h.goesOn (h.looks_read reg) hf

/-- An operand that is converted. -/
theorem converts (h : Opcodes host vm instr E P) {α : Type} {r : Except Fault α}
    (hr : ∀ fault, r = .error fault → fault.OfOperands) {f : α → Code Unit}
    (hf : ∀ a, P ((f a).runFrom vm.fetched)) : P ((trap r >>= f).runFrom vm.fetched) :=
  h.goesOn (h.looks_plain hr) fun a _ => hf a

theorem throws (h : Opcodes host vm instr E P) {r : VmResult} (heffect : r.Effect)
    (hdest : r.dest = instr.dest) : P ((throw r : Code Unit).runFrom vm.fetched) :=
  h.ends r (h.effect r heffect hdest)

theorem arithmetic (h : Opcodes host vm instr E P) (hop : Numeric instr.op) :
    P ((do
      let a ← read instr.b
      let b ← read instr.c
      write host instr.a (← trap (numericBinop instr.op a b)) : Code Unit).runFrom vm.fetched) :=
  h.reads _ fun a ha => h.reads _ fun b hb =>
    h.goesOn (looks_trap fun fault hfault => h.numeric hop a b fault ha hb hfault) fun v _ =>
      h.writes _ v _ (.inl rfl)

theorem callNative (h : Opcodes host vm instr E P) (hop : instr.op = .callNative) :
    P ((Vm.callNative host instr.imm.toUInt32 instr.b instr.a).runFrom vm.fetched) := by
  unfold Vm.callNative
  refine h.goesOn reads_get fun s hs => ?_
  subst hs
  rw [nativeCall_fetched]
  refine h.goesOn (looks_trap (h.native hop)) fun r hr => ?_
  refine h.goesOn (looks_trap fun fault hfault => h.fails hop _ _ fault hr hfault) fun v _ => ?_
  exact h.writes _ v _ (.inl rfl)

theorem spawns (h : Opcodes host vm instr E P) (hop : instr.op = .spawn) :
    P ((do
      let args ← trap ((← get).gather instr.a 1 instr.b.toNat)
      throw (.spawn instr.imm.toUInt32 args instr.a (CapRights.fromU8 instr.c)) :
        Code Unit).runFrom vm.fetched) := by
  refine h.goesOn reads_get fun s hs => ?_
  subst hs
  rw [gather_congr getReg_fetched]
  refine h.goesOn (looks_trap fun fault hfault => ?_) fun args _ =>
    h.ends _ (h.spawn hop args _)
  obtain ⟨offset, hindex⟩ | ⟨reg, hreg⟩ := error_of_gather hfault
  · exact h.index _ _ _ hindex
  · exact h.register _ _ hreg

/-- **Opcodes.** -/
theorem exec (h : Opcodes host vm instr E P) : P ((Vm.exec host instr).runFrom vm.fetched) := by
  obtain ⟨op, a, b, c, imm⟩ := instr
  have hwrite (reg : UInt8) (v : Value) := h.writes reg v vm.fetched (.inl rfl)
  cases op with
  | halt => exact h.reads 0 fun v _ => h.throws trivial rfl
  | nop => exact h.passes
  | loadConst =>
    refine h.goesOn reads_get fun s hs => ?_
    subst hs
    simp only [fetched_chunk]
    split
    · exact hwrite _ _
    · rename_i hnone
      exact h.ends _ (h.constant rfl hnone)
  | loadImm => exact hwrite _ _
  | move => exact h.reads b fun v _ => hwrite _ v
  | add | sub | mul | div | mod | eq | lt | le => exact h.arithmetic (by simp [Numeric])
  | neg =>
    exact h.reads b fun v _ => h.converts (fun _ => fault_of_negate) fun v => hwrite _ v
  | jump => exact h.jumps (.inl rfl)
  | branch =>
    refine h.reads a fun v _ => ?_
    split
    · exact h.jumps (.inr rfl)
    · exact h.passes
  | call => exact h.calls rfl
  | callNative => exact h.callNative rfl
  | «return» => exact h.reads a fun v hv => h.returns rfl v hv
  | spawn => exact h.spawns rfl
  | yield | selfPid | receive | demonitor | unlink => exact h.throws trivial rfl
  | sleep =>
    exact h.reads a fun v _ => h.converts (fun _ => fault_of_sleepMillis) fun _ =>
      h.throws trivial rfl
  | exit => exact h.reads a fun v _ => h.throws trivial rfl
  | send =>
    exact h.reads a fun target _ => h.reads b fun message _ =>
      h.converts (fun _ => fault_of_capOf) fun cap =>
        h.converts (fun _ => fault_of_expectMessage) fun _ => h.throws trivial rfl
  | receiveTimeout => exact h.reads b fun _ _ => h.throws trivial rfl
  | receiveMatch =>
    exact h.reads b fun _ _ => h.converts (fun _ => fault_of_tagFromValue) fun _ =>
      h.throws trivial rfl
  | receiveMatchImm =>
    exact h.converts (fun _ => fault_of_tagFromImm) fun _ => h.throws trivial rfl
  | freshRequestId =>
    refine h.goesOn reads_get fun s hs => ?_
    subst hs
    exact h.writes _ _ _ (.inr rfl)
  | receiveMatchCorr =>
    exact h.reads b fun _ _ => h.converts (fun _ => fault_of_tagFromValue) fun _ =>
      h.reads c fun _ _ => h.converts (fun _ => fault_of_requestIdFromValue) fun _ =>
        h.throws trivial rfl
  | receiveMatchCorrImm =>
    exact h.converts (fun _ => fault_of_tagFromImm) fun _ => h.reads b fun _ _ =>
      h.converts (fun _ => fault_of_requestIdFromValue) fun _ => h.throws trivial rfl
  | ask =>
    exact h.reads b fun target _ => h.reads c fun request _ =>
      h.converts (fun _ => fault_of_capOf) fun cap =>
        h.converts (fun _ => fault_of_expectMessage) fun _ => h.throws trivial rfl
  | askTimeout =>
    refine h.reads b fun target _ => h.reads c fun request _ => ?_
    split
    · exact h.goesOn (reads_throw (h.operands _ trivial)) fun _ (hfalse : False) => hfalse.elim
    · exact h.reads _ fun millis _ => h.converts (fun _ => fault_of_capOf) fun cap =>
        h.converts (fun _ => fault_of_expectMessage) fun _ => h.throws trivial rfl
  | monitor | link =>
    exact h.reads b fun v _ => h.converts (fun _ => fault_of_capOf) fun cap => h.throws trivial rfl
  | registerName =>
    exact h.reads a fun v _ => h.converts (fun _ => fault_of_nameOf) fun name =>
      h.throws trivial rfl
  | whereis =>
    exact h.reads b fun v _ => h.converts (fun _ => fault_of_nameOf) fun name =>
      h.throws trivial rfl
  | delegate =>
    refine h.reads b fun v _ => h.converts (fun _ => fault_of_capOf) fun src => ?_
    split
    · exact h.goesOn (reads_pure trivial) fun _ (_ : True) => h.throws trivial rfl
    · have hcap (v : Value) : Looks vm (trap (capOf v)) (fun _ => True) E :=
        (h.looks_plain fun _ => fault_of_capOf).mono fun _ _ => trivial
      exact h.goesOn (((h.looks_read c).bind fun v _ => hcap v).map fun _ _ => trivial)
        fun _ (_ : True) => h.throws trivial rfl
  | trap => exact h.ends _ h.explicit

end Opcodes

/-! ## Inversion -/

/-- A result of code as one of a step. -/
def MovesTo (host : Host) (vm : Vm) : Except VmResult Unit × Vm → Prop
  | (.ok _, vm') => Moves host vm none vm'
  | (.error r, vm') => Moves host vm (some r) vm'

theorem raises_of_fault {fault : Fault}
    (h : fault.OfProgram ∨ vm.frames = [] ∧ fault = emptyStack) :
    Raises host instr vm (.trap fault) := by
  rcases h with h | ⟨h, rfl⟩
  · exact .fault h
  · exact .stack h

theorem movesTo_write (hnext : vm.next = some instr) (reg : UInt8) (v : Value) {vm₁ : Vm}
    (h : vm₁ = vm.fetched ∨ vm₁ = vm.fetched.freshRequestId.2) :
    MovesTo host vm ((write host reg v).runFrom vm₁) := by
  unfold write
  rw [runFrom_bind, runFrom_get]
  rcases hset : vm₁.setReg host reg v with ⟨r, vm'⟩
  simp only [hset, runFrom_bind, runFrom_set]
  cases r with
  | ok _ => exact .stores hnext reg v h hset
  | error fault => exact .refuses hnext reg v h hset

theorem movesTo_jump (hnext : vm.next = some instr)
    (hop : instr.op = .jump ∨ instr.op = .branch) :
    MovesTo host vm ((jump instr.imm).runFrom vm.fetched) := by
  obtain ⟨frame, rest, hframes⟩ := frames_of_next hnext
  have h := @Moves.jumps host vm _ hnext hop _ _ hframes
  rw [@goto_of_frames vm.counted _ _ hframes] at h
  unfold jump
  rw [runFrom_bind, runFrom_get, fetched_of_frames hframes]
  exact h

theorem movesTo_call (hnext : vm.next = some instr) (hop : instr.op = .call) :
    MovesTo host vm ((call instr.imm.toUInt32 instr.b instr.a).runFrom vm.fetched) := by
  obtain ⟨frame, rest, hframes⟩ := frames_of_next hnext
  have hlength : vm.fetched.frames.length = vm.frames.length := by
    rw [fetched_of_frames hframes, hframes]
    rfl
  have hgoesOn {α : Type} {x : Code α} {f : α → Code Unit} {Q : α → Prop}
      (hx : Looks vm x Q (Raises host instr vm))
      (hf : ∀ a, Q a → MovesTo host vm ((f a).runFrom vm.fetched)) :
      MovesTo host vm ((x >>= f).runFrom vm.fetched) :=
    hx.next (fun _ h => .result hnext h) hf
  unfold call
  refine hgoesOn reads_get fun s hs => ?_
  subst hs
  rw [hlength, fetched_chunk]
  split_ifs with hdepth
  · exact .result hnext (.fault trivial)
  split
  · rename_i hf
    exact .result hnext (.function hop hf)
  · rename_i f hf
    rw [gather_congr getReg_fetched]
    refine hgoesOn (looks_trap fun fault h => raises_of_fault (fault_of_gather h))
      fun args hargs => ?_
    refine hgoesOn (looks_trap fun fault h => ?_) fun callee hcallee => ?_
    · rw [error_of_enter hf h]
      exact .fault trivial
    · rw [← @fetched_chunk vm]
      exact .calls hnext hop (by omega) hargs hcallee

/-- A return, from a state with the frame that is left on top. -/
theorem movesTo_popFrame {finished : Frame} {rest : List Frame}
    (hframes : vm.frames = finished :: rest)
    {v : Value} (hv : vm.returned = some v) {vm₁ : Vm} {top : Frame}
    (htop : vm₁.frames = top :: rest) (hdest : top.destReg = finished.destReg)
    (hrest : { vm₁ with frames := rest } = { vm.counted with frames := rest }) :
    MovesTo host vm ((popFrame host v).runFrom vm₁) := by
  unfold popFrame
  rw [runFrom_bind, runFrom_get]
  simp only [htop, hdest, hrest]
  cases hd : finished.destReg with
  | none => exact .completes hframes hv hd
  | some dest =>
    simp only
    rcases hset : ({ vm.counted with frames := rest } : Vm).setReg host dest v with ⟨r, vm'⟩
    simp only [runFrom_bind, runFrom_set]
    cases r with
    | ok _ => exact .returns hframes hv hd hset
    | error fault => exact .loses hframes hv hd hset _

/-- **Opcodes.** -/
theorem exec_moves (host : Host) (hnext : vm.next = some instr) :
    MovesTo host vm ((exec host instr).runFrom vm.fetched) := by
  refine Opcodes.exec (E := Raises host instr vm) (P := MovesTo host vm) ?_
  exact
    { ends := fun r h => .result hnext h
      register := fun reg fault h => raises_of_fault (fault_of_getReg h)
      index := fun base offset fault h => .fault (fault_of_regAt h)
      operands := fun fault h => .fault h.ofProgram
      numeric := by
        intro hop x y fault hx hy h
        rcases fault_of_numericBinop h with h | ⟨hmod, hnone, hfault⟩
        · exact .fault h.ofProgram
        · have hop : instr.op = .mod := by
            simp only [Numeric, List.mem_cons, List.not_mem_nil, or_false, not_or] at hop hnone
            tauto
          exact .modulo hop hx hy (hmod hop) hfault
      constant := fun hop h => .constant hop h
      native := fun hop fault h => raises_of_fault (fault_of_nativeCall h)
      fails := fun hop f args fault h hf => .native hop h hf
      explicit := .fault trivial
      effect := fun r h hdest => .effect h hdest
      spawn := fun hop args rights => .spawn hop args rights
      passes := .passes hnext
      writes := fun reg v vm₁ h => movesTo_write hnext reg v h
      jumps := movesTo_jump hnext
      calls := movesTo_call hnext
      returns := by
        intro hop v hv
        obtain ⟨frame, rest, hframes⟩ := frames_of_next hnext
        refine movesTo_popFrame hframes ?_ (congrArg Vm.frames (fetched_of_frames hframes)) rfl
          (by rw [fetched_of_frames hframes])
        unfold returned
        simp only [hframes, hnext, hop, hv, if_true]
        rfl }

/-! ## Steps -/

/-- A result of code as one of a step. -/
def outcome : Except VmResult Unit × Vm → Option VmResult × Vm
  | (.ok _, vm') => (none, vm')
  | (.error r, vm') => (some r, vm')

theorem MovesTo.moves {r : Except VmResult Unit × Vm} (h : MovesTo host vm r) :
    Moves host vm (outcome r).1 (outcome r).2 := by
  rcases r with ⟨_ | _, vm'⟩
  · exact h
  · exact h

theorem runFrom_fetch (hnext : vm.next = some instr) :
    fetch.runFrom vm.counted = (.ok (some instr), vm.fetched) := by
  obtain ⟨frame, rest, hframes⟩ := frames_of_next hnext
  have hinstr : vm.chunk.code[frame.pc]? = some instr := by
    simpa only [next, hframes, List.head?_cons, Option.bind_some] using hnext
  rw [fetched_of_frames hframes]
  unfold fetch
  simp only [runFrom_bind, runFrom_get, counted_frames, hframes, counted_chunk, hinstr,
    runFrom_set, runFrom_pure]

/-- A step executes the next instruction, if there is one. -/
theorem step_of_next (host : Host) (hnext : vm.next = some instr) :
    vm.step host = outcome ((exec host instr).runFrom vm.fetched) := by
  have hrun : (instruction host).runFrom vm = (exec host instr).runFrom vm.fetched := by
    unfold instruction
    rw [runFrom_bind, runFrom_modify, ← counted]
    simp only [runFrom_bind, runFrom_fetch hnext]
  show outcome ((instruction host).runFrom vm) = _
  rw [hrun]

theorem runFrom_trap_ok {α : Type} {r : Except Fault α} {a : α} (h : r = .ok a) :
    (trap r).runFrom vm = (.ok a, vm) := by
  rw [h]
  rfl

theorem runFrom_trap_error {α : Type} {r : Except Fault α} {fault : Fault} (h : r = .error fault) :
    (trap r).runFrom vm = (.error (.trap fault), vm) := by
  rw [h]
  rfl

/-- Reading changes nothing. -/
theorem runFrom_readReg (reg : UInt8) :
    (read reg).runFrom vm = (trap (vm.getReg reg)).runFrom vm := by
  unfold read
  rw [runFrom_bind, runFrom_get]

theorem runFrom_read_fetched {reg : UInt8} {v : Value} (h : vm.getReg reg = .ok v) :
    (read reg).runFrom vm.fetched = (.ok v, vm.fetched) := by
  rw [runFrom_readReg, getReg_fetched, runFrom_trap_ok h]

/-- A function that runs off its end returns `Unit`. -/
theorem step_of_end (host : Host) {frame : Frame} {rest : List Frame}
    (hframes : vm.frames = frame :: rest) (hnext : vm.next = none) :
    vm.step host = outcome ((popFrame host .unit).runFrom vm.counted) := by
  have hinstr : vm.chunk.code[frame.pc]? = none := by
    simpa only [next, hframes, List.head?_cons, Option.bind_some] using hnext
  have hrun : (instruction host).runFrom vm = (popFrame host .unit).runFrom vm.counted := by
    unfold instruction
    rw [runFrom_bind, runFrom_modify, ← counted]
    unfold fetch
    simp only [bind_assoc, runFrom_bind, runFrom_get, counted_frames, hframes, counted_chunk,
      hinstr, runFrom_pure]
  show outcome ((instruction host).runFrom vm) = _
  rw [hrun]

theorem step_of_nil (host : Host) (hframes : vm.frames = []) :
    vm.step host = (some (.trap emptyStack), vm.counted) := by
  have hrun : (instruction host).runFrom vm = (.error (.trap emptyStack), vm.counted) := by
    unfold instruction
    rw [runFrom_bind, runFrom_modify, ← counted]
    unfold fetch
    simp only [bind_assoc, runFrom_bind, runFrom_get, counted_frames, hframes, runFrom_throw]
  show outcome ((instruction host).runFrom vm) = _
  rw [hrun]
  rfl

/-- **One instruction.** -/
theorem step_moves (host : Host) (vm : Vm) : Moves host vm (vm.step host).1 (vm.step host).2 := by
  cases hnext : vm.next with
  | some instr =>
    rw [step_of_next host hnext]
    exact (exec_moves host hnext).moves
  | none =>
    cases hframes : vm.frames with
    | nil =>
      rw [step_of_nil host hframes]
      exact .stuck hframes
    | cons frame rest =>
      rw [step_of_end host hframes hnext]
      have h : MovesTo host vm ((popFrame host .unit).runFrom vm.counted) :=
        movesTo_popFrame hframes (by simp [returned, hframes, hnext]) hframes rfl rfl
      exact h.moves

/-- An answer that is asked for goes to the register that the instruction names. -/
theorem dest_of_step {r : VmResult} {reg : UInt8} (h : (vm.step host).1 = some r)
    (hdest : r.dest = some reg) :
    ∃ instr, vm.next = some instr ∧ instr.dest = some reg ∧ (vm.step host).2 = vm.fetched := by
  have hmoves := step_moves host vm
  rw [h] at hmoves
  generalize (vm.step host).2 = vm' at hmoves
  cases hmoves with
  | result hnext hraises =>
    refine ⟨_, hnext, ?_, rfl⟩
    cases hraises with
    | spawn hop args rights =>
      cases hdest
      simp only [Instruction.dest, hop]
    | effect heffect hinstr => exact hinstr.symm.trans hdest
    | _ => cases hdest
  | _ => cases hdest

@[simp] theorem peekReg_fetched (reg : UInt8) : vm.fetched.peekReg reg = vm.peekReg reg := by
  unfold peekReg
  cases hframes : vm.frames with
  | nil => simp [fetched, goto, hframes]
  | cons frame rest => rw [fetched_of_frames hframes]; rfl

end Vm

end Byteflow
