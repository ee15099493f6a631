import Byteflow.Bytecode.Value

/-!
# Bytecode modules

Instructions (`bytecode/opcode.rs`, `bytecode/instruction.rs`), the compiled unit they form
(`bytecode/chunk.rs`) and the checks it passes before a runtime runs it (`bytecode/verify.rs`).
-/

namespace Byteflow

inductive Opcode
  | halt
  | loadConst
  | move
  | loadImm
  | add
  | sub
  | mul
  | div
  | mod
  | neg
  | eq
  | lt
  | le
  | jump
  | branch
  | call
  | return
  | callNative
  | spawn
  | yield
  | sleep
  | exit
  | selfPid
  | send
  | receive
  | receiveTimeout
  | receiveMatch
  | receiveMatchImm
  | ask
  | monitor
  | demonitor
  | link
  | unlink
  | askTimeout
  | delegate
  | freshRequestId
  | receiveMatchCorr
  | receiveMatchCorrImm
  | registerName
  | whereis
  | trap
  | nop
  deriving DecidableEq

/-- An instruction word. What its operands mean depends on the opcode. -/
structure Instruction where
  op : Opcode
  a : UInt8
  b : UInt8
  c : UInt8
  imm : Int32
  deriving DecidableEq

namespace Instruction

def nullary (op : Opcode) : Instruction := ⟨op, 0, 0, 0, 0⟩

def abc (op : Opcode) (a b c : UInt8) : Instruction := ⟨op, a, b, c, 0⟩

def aImm (op : Opcode) (a : UInt8) (imm : Int32) : Instruction := ⟨op, a, 0, 0, imm⟩

def onlyImm (op : Opcode) (imm : Int32) : Instruction := ⟨op, 0, 0, 0, imm⟩

end Instruction

/-- An entry point of a chunk. -/
structure FunctionDef where
  name : String
  /-- Where in the code execution starts. -/
  entry : UInt32
  /-- Number of parameters, passed in `r0..r{arity}`. -/
  arity : UInt8
  numRegisters : UInt8
  deriving DecidableEq

/-- A compiled unit of bytecode. -/
structure Chunk where
  name : String
  constants : List Value
  code : List Instruction
  functions : List FunctionDef
  deriving DecidableEq

namespace Chunk

def function (chunk : Chunk) (index : UInt32) : Option FunctionDef :=
  chunk.functions[index.toNat]?

def constant (chunk : Chunk) (index : UInt32) : Option Value := chunk.constants[index.toNat]?

end Chunk

/-! ## Verification -/

/-- Whether the constants of a chunk may hold authority. -/
inductive TrustLevel
  | trusted
  | untrusted
  deriving DecidableEq

/-- Constants that untrusted modules must not embed. -/
inductive ConstantKind
  | capability
  | processId
  | message
  deriving DecidableEq

/-- Why a chunk failed verification. -/
inductive VerifyError
  | constOutOfRange (at_ : ℕ) (index : UInt32) (len : ℕ)
  | functionOutOfRange (at_ : ℕ) (index : UInt32) (len : ℕ)
  | jumpOutOfRange (at_ : ℕ) (target : ℤ) (len : ℕ)
  | emptyFunctionTable
  | entryOutOfRange (function : ℕ) (entry : UInt32) (len : ℕ)
  | arityExceedsRegisters (function : ℕ) (arity numRegisters : UInt8)
  | forbiddenConstant (index : ℕ) (kind : ConstantKind)
  deriving DecidableEq

def validateConstant (trust : TrustLevel) (index : ℕ) (value : Value) : Except VerifyError Unit :=
  match trust, value with
  | .trusted, _ => .ok ()
  | _, .cap _ => .error (.forbiddenConstant index .capability)
  | _, .pid _ => .error (.forbiddenConstant index .processId)
  | _, .message .. => .error (.forbiddenConstant index .message)
  | _, _ => .ok ()

/-- The check of each entry of a table in turn. -/
def checkEach {α ε : Type} (check : ℕ → α → Except ε Unit) : ℕ → List α → Except ε Unit
  | _, [] => .ok ()
  | i, a :: as => do
    check i a
    checkEach check (i + 1) as

namespace Chunk

def verifyFunction (chunk : Chunk) (function : ℕ) (f : FunctionDef) : Except VerifyError Unit :=
  if chunk.code.length ≤ f.entry.toNat then
    .error (.entryOutOfRange function f.entry chunk.code.length)
  else if f.numRegisters < f.arity then
    .error (.arityExceedsRegisters function f.arity f.numRegisters)
  else .ok ()

def verifyInstruction (chunk : Chunk) (at_ : ℕ) (instr : Instruction) : Except VerifyError Unit :=
  let idx := instr.imm.toUInt32
  let target : ℤ := at_ + 1 + instr.imm.toInt
  match instr.op with
  | .loadConst =>
    if chunk.constants.length ≤ idx.toNat then
      .error (.constOutOfRange at_ idx chunk.constants.length)
    else .ok ()
  | .spawn | .call =>
    if chunk.functions.length ≤ idx.toNat then
      .error (.functionOutOfRange at_ idx chunk.functions.length)
    else .ok ()
  | .jump | .branch =>
    -- a jump to one past the end falls off the function
    if target < 0 ∨ chunk.code.length < target then
      .error (.jumpOutOfRange at_ target chunk.code.length)
    else .ok ()
  | _ => .ok ()

/-- Structural checks. -/
def verifyWith (chunk : Chunk) (trust : TrustLevel) : Except VerifyError Unit := do
  if chunk.functions = [] then throw .emptyFunctionTable
  checkEach (validateConstant trust) 0 chunk.constants
  checkEach chunk.verifyFunction 0 chunk.functions
  checkEach chunk.verifyInstruction 0 chunk.code

end Chunk

theorem of_checkEach {α ε : Type} {check : ℕ → α → Except ε Unit} {as : List α} {n : ℕ}
    (h : checkEach check n as = .ok ()) {i : ℕ} {a : α} (ha : as[i]? = some a) :
    check (n + i) a = .ok () := by
  induction as generalizing n i with
  | nil => cases ha
  | cons b bs ih =>
    cases hb : check n b with
    | error e =>
      simp only [checkEach, hb] at h
      cases h
    | ok _ =>
      simp only [checkEach, hb] at h
      cases i with
      | zero =>
        cases ha
        exact hb
      | succ i =>
        have := ih h ha
        rwa [Nat.succ_add_eq_add_succ] at this

/-- An error of a table is one of its entries. -/
theorem error_of_checkEach {α ε : Type} {check : ℕ → α → Except ε Unit} {as : List α} {n : ℕ}
    {e : ε} (h : checkEach check n as = .error e) :
    ∃ i a, as[i]? = some a ∧ check (n + i) a = .error e := by
  induction as generalizing n with
  | nil => cases h
  | cons b bs ih =>
    cases hb : check n b with
    | error e' =>
      simp only [checkEach, hb] at h
      cases h
      exact ⟨0, b, rfl, hb⟩
    | ok _ =>
      simp only [checkEach, hb] at h
      obtain ⟨i, a, ha, hcheck⟩ := ih h
      exact ⟨i + 1, a, ha, by rwa [Nat.add_comm i 1, ← Nat.add_assoc]⟩

namespace Chunk

variable {chunk : Chunk} {trust : TrustLevel}

/-- A chunk that passes has passed each check. -/
theorem checks_of_verify (h : chunk.verifyWith trust = .ok ()) :
    checkEach (validateConstant trust) 0 chunk.constants = .ok () ∧
      checkEach chunk.verifyFunction 0 chunk.functions = .ok () ∧
      checkEach chunk.verifyInstruction 0 chunk.code = .ok () := by
  unfold verifyWith at h
  split at h
  · cases h
  cases hc : checkEach (validateConstant trust) 0 chunk.constants with
  | error e =>
    simp only [hc] at h
    cases h
  | ok _ =>
    cases hf : checkEach chunk.verifyFunction 0 chunk.functions with
    | error e =>
      simp only [hc, hf] at h
      cases h
    | ok _ =>
      simp only [hc, hf] at h
      exact ⟨rfl, rfl, h⟩

/-- No constant of an untrusted chunk holds authority. -/
theorem constants_of_verify (h : chunk.verifyWith .untrusted = .ok ()) :
    ∀ v ∈ chunk.constants, v.asCap = none ∧ v.asMessage = none := by
  intro v hv
  obtain ⟨i, hi⟩ := List.mem_iff_getElem?.mp hv
  have := of_checkEach (checks_of_verify h).1 hi
  cases v <;> first | exact ⟨rfl, rfl⟩ | cases this

/-- A function starts inside the code. -/
theorem entry_of_verify (h : chunk.verifyWith trust = .ok ()) {index : UInt32} {f : FunctionDef}
    (hf : chunk.function index = some f) : f.entry.toNat < chunk.code.length := by
  have h := of_checkEach (checks_of_verify h).2.1 hf
  unfold verifyFunction at h
  split_ifs at h with hentry
  omega

/-- A function has registers for its arguments. -/
theorem arity_of_verify (h : chunk.verifyWith trust = .ok ()) {index : UInt32} {f : FunctionDef}
    (hf : chunk.function index = some f) : f.arity.toNat ≤ f.numRegisters.toNat := by
  have h := of_checkEach (checks_of_verify h).2.1 hf
  unfold verifyFunction at h
  split_ifs at h with hentry harity
  exact UInt8.le_iff_toNat_le.mp (UInt8.not_lt.mp harity)

/-- The constant, the function or the target that an instruction names exists. -/
theorem operand_of_verify (h : chunk.verifyWith trust = .ok ()) {pc : ℕ} {instr : Instruction}
    (hi : chunk.code[pc]? = some instr) :
    (instr.op = .loadConst → instr.imm.toUInt32.toNat < chunk.constants.length) ∧
      (instr.op = .spawn ∨ instr.op = .call →
        instr.imm.toUInt32.toNat < chunk.functions.length) ∧
      (instr.op = .jump ∨ instr.op = .branch →
        0 ≤ pc + 1 + instr.imm.toInt ∧ pc + 1 + instr.imm.toInt ≤ chunk.code.length) := by
  have h := of_checkEach (checks_of_verify h).2.2 hi
  obtain ⟨op, a, b, c, imm⟩ := instr
  rw [Nat.zero_add] at h
  unfold verifyInstruction at h
  refine ⟨?_, ?_, ?_⟩
  · rintro rfl
    simp only at h ⊢
    split_ifs at h
    omega
  · rintro (rfl | rfl) <;> simp only at h ⊢ <;> split_ifs at h <;> omega
  · rintro (rfl | rfl) <;> simp only at h ⊢ <;> split_ifs at h <;> omega

/-- A jump that is refused leads out of the code. -/
theorem target_of_jumpOutOfRange {at_ len : ℕ} {target : ℤ}
    (h : chunk.verifyWith trust = .error (.jumpOutOfRange at_ target len)) :
    ∃ (instr : Instruction) (pc : ℕ), chunk.code[pc]? = some instr ∧
      (instr.op = .jump ∨ instr.op = .branch) ∧
      ¬(0 ≤ pc + 1 + instr.imm.toInt ∧ pc + 1 + instr.imm.toInt ≤ chunk.code.length) := by
  unfold verifyWith at h
  split at h
  · cases h
  cases hc : checkEach (validateConstant trust) 0 chunk.constants with
  | error e =>
    obtain ⟨i, v, -, hv⟩ := error_of_checkEach hc
    simp only [hc] at h
    cases h
    unfold validateConstant at hv
    split at hv <;> cases hv
  | ok _ =>
    cases hf : checkEach chunk.verifyFunction 0 chunk.functions with
    | error e =>
      obtain ⟨i, f, -, hf'⟩ := error_of_checkEach hf
      simp only [hc, hf] at h
      cases h
      unfold verifyFunction at hf'
      split_ifs at hf' <;> cases hf'
    | ok _ =>
      simp only [hc, hf] at h
      obtain ⟨pc, instr, hi, hcheck⟩ := error_of_checkEach h
      obtain ⟨op, a, b, c, imm⟩ := instr
      rw [Nat.zero_add] at hcheck
      refine ⟨_, pc, hi, ?_⟩
      unfold verifyInstruction at hcheck
      cases op with
      | jump =>
        simp only at hcheck ⊢
        split_ifs at hcheck
        exact ⟨.inl trivial, by omega⟩
      | branch =>
        simp only at hcheck ⊢
        split_ifs at hcheck
        exact ⟨.inr trivial, by omega⟩
      | loadConst | call | spawn =>
        simp only at hcheck
        split_ifs at hcheck
        cases hcheck
      | _ => cases hcheck

end Chunk

end Byteflow
