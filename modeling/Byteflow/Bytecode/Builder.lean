import Byteflow.Bytecode.Cap
import Byteflow.Bytecode.Chunk
import Byteflow.Foundations.Schedule
import Mathlib.Logic.Function.Basic

/-!
# The assembler

`ChunkBuilder` (`bytecode/builder.rs`) emits the code of a chunk instruction by instruction. A jump
to a label is emitted without its offset, and `finish` patches the offset when the address of the
label is known. `build` is the state after a sequence of calls; `Placed` says what every such state
keeps, and `finish_of_pending` what becomes of a jump.
-/

namespace Byteflow

/-- An unresolved jump target. -/
structure Label where
  raw : UInt32
  deriving DecidableEq

/-- Low-level assembler for chunks. -/
structure ChunkBuilder where
  name : String
  constants : List Value
  code : List Instruction
  functions : List FunctionDef
  nextLabel : UInt32
  labelTargets : Label → Option UInt32
  /-- The jumps that await a patch, by their place in the code. -/
  pendingJumps : List (ℕ × Label)
  fnStarts : String → Option UInt32

namespace ChunkBuilder

def new (name : String) : ChunkBuilder where
  name := name
  constants := []
  code := []
  functions := []
  nextLabel := 0
  labelTargets _ := none
  pendingJumps := []
  fnStarts _ := none

/-- The index of a constant, which is added unless an equal one is there. -/
def const (b : ChunkBuilder) (v : Value) : UInt32 × ChunkBuilder :=
  match b.constants.findIdx? (·.eq v) with
  | some pos => (UInt32.ofNat pos, b)
  | none => (UInt32.ofNat b.constants.length, { b with constants := b.constants ++ [v] })

def newLabel (b : ChunkBuilder) : Label × ChunkBuilder :=
  (⟨b.nextLabel⟩, { b with nextLabel := b.nextLabel + 1 })

/-- Bind the label to the next instruction that will be emitted. -/
def bindLabel (b : ChunkBuilder) (label : Label) : ChunkBuilder :=
  { b with labelTargets :=
      Function.update b.labelTargets label (some (UInt32.ofNat b.code.length)) }

/-- The place of the instruction in the code. -/
def emit (b : ChunkBuilder) (instr : Instruction) : ℕ × ChunkBuilder :=
  (b.code.length, { b with code := b.code ++ [instr] })

/-! ## Opcodes -/

def emitHalt (b : ChunkBuilder) : ChunkBuilder := (b.emit (.nullary .halt)).2

def emitLoadConst (b : ChunkBuilder) (dst : UInt8) (konst : UInt32) : ChunkBuilder :=
  (b.emit ⟨.loadConst, dst, 0, 0, konst.toInt32⟩).2

def emitLoadImm (b : ChunkBuilder) (dst : UInt8) (imm : Int32) : ChunkBuilder :=
  (b.emit (.aImm .loadImm dst imm)).2

def emitMove (b : ChunkBuilder) (dst src : UInt8) : ChunkBuilder :=
  (b.emit (.abc .move dst src 0)).2

def emitBinop (b : ChunkBuilder) (op : Opcode) (dst lhs rhs : UInt8) : ChunkBuilder :=
  (b.emit (.abc op dst lhs rhs)).2

def emitNeg (b : ChunkBuilder) (dst src : UInt8) : ChunkBuilder := (b.emit (.abc .neg dst src 0)).2

def emitJump (b : ChunkBuilder) (target : Label) : ChunkBuilder :=
  let (idx, b) := b.emit (.onlyImm .jump 0)
  { b with pendingJumps := b.pendingJumps ++ [(idx, target)] }

def emitBranch (b : ChunkBuilder) (cond : UInt8) (target : Label) : ChunkBuilder :=
  let (idx, b) := b.emit (.aImm .branch cond 0)
  { b with pendingJumps := b.pendingJumps ++ [(idx, target)] }

def emitSpawnWithRights (b : ChunkBuilder) (dst : UInt8) (function : UInt32) (argc : UInt8)
    (rights : CapRights) : ChunkBuilder :=
  (b.emit ⟨.spawn, dst, argc, rights.bits.toUInt8, function.toInt32⟩).2

def emitSpawn (b : ChunkBuilder) (dst : UInt8) (function : UInt32) (argc : UInt8) :
    ChunkBuilder :=
  b.emitSpawnWithRights dst function argc CapRights.flow

def emitDelegate (b : ChunkBuilder) (dst srcCap : UInt8) (rights : CapRights) : ChunkBuilder :=
  (b.emit ⟨.delegate, dst, srcCap, 255, rights.bits.toInt32⟩).2

def emitYield (b : ChunkBuilder) : ChunkBuilder := (b.emit (.nullary .yield)).2

def emitSleep (b : ChunkBuilder) (millisReg : UInt8) : ChunkBuilder :=
  (b.emit (.abc .sleep millisReg 0 0)).2

def emitExit (b : ChunkBuilder) (reg : UInt8) : ChunkBuilder := (b.emit (.abc .exit reg 0 0)).2

def emitSelfPid (b : ChunkBuilder) (dst : UInt8) : ChunkBuilder :=
  (b.emit (.abc .selfPid dst 0 0)).2

def emitFreshRequestId (b : ChunkBuilder) (dst : UInt8) : ChunkBuilder :=
  (b.emit (.abc .freshRequestId dst 0 0)).2

def emitSend (b : ChunkBuilder) (targetCapReg msgReg : UInt8) : ChunkBuilder :=
  (b.emit (.abc .send targetCapReg msgReg 0)).2

def emitReceive (b : ChunkBuilder) (dst : UInt8) : ChunkBuilder :=
  (b.emit (.abc .receive dst 0 0)).2

def emitReceiveTimeout (b : ChunkBuilder) (dst millisReg : UInt8) : ChunkBuilder :=
  (b.emit (.abc .receiveTimeout dst millisReg 0)).2

def emitReceiveMatch (b : ChunkBuilder) (dst tagReg : UInt8) : ChunkBuilder :=
  (b.emit (.abc .receiveMatch dst tagReg 0)).2

def emitReceiveMatchImm (b : ChunkBuilder) (dst : UInt8) (tag : UInt16) : ChunkBuilder :=
  (b.emit (.aImm .receiveMatchImm dst tag.toUInt32.toInt32)).2

def emitReceiveMatchCorr (b : ChunkBuilder) (dst tagReg idReg : UInt8) : ChunkBuilder :=
  (b.emit (.abc .receiveMatchCorr dst tagReg idReg)).2

def emitReceiveMatchCorrImm (b : ChunkBuilder) (dst : UInt8) (tag : UInt16) (idReg : UInt8) :
    ChunkBuilder :=
  (b.emit ⟨.receiveMatchCorrImm, dst, idReg, 0, tag.toUInt32.toInt32⟩).2

def emitAsk (b : ChunkBuilder) (dest targetCapReg msgReg : UInt8) : ChunkBuilder :=
  (b.emit (.abc .ask dest targetCapReg msgReg)).2

def emitAskTimeout (b : ChunkBuilder) (dest targetCapReg msgReg millisReg : UInt8) :
    ChunkBuilder :=
  (b.emit ⟨.askTimeout, dest, targetCapReg, msgReg, millisReg.toUInt32.toInt32⟩).2

def emitMonitor (b : ChunkBuilder) (dest targetCapReg : UInt8) : ChunkBuilder :=
  (b.emit (.abc .monitor dest targetCapReg 0)).2

def emitDemonitor (b : ChunkBuilder) (monitorReg : UInt8) : ChunkBuilder :=
  (b.emit (.abc .demonitor monitorReg 0 0)).2

def emitLink (b : ChunkBuilder) (dest targetCapReg : UInt8) : ChunkBuilder :=
  (b.emit (.abc .link dest targetCapReg 0)).2

def emitUnlink (b : ChunkBuilder) (linkReg : UInt8) : ChunkBuilder :=
  (b.emit (.abc .unlink linkReg 0 0)).2

def emitRegisterName (b : ChunkBuilder) (nameReg : UInt8) : ChunkBuilder :=
  (b.emit (.abc .registerName nameReg 0 0)).2

def emitWhereis (b : ChunkBuilder) (dst nameReg : UInt8) : ChunkBuilder :=
  (b.emit (.abc .whereis dst nameReg 0)).2

def emitTrap (b : ChunkBuilder) (code : Int32) : ChunkBuilder := (b.emit (.onlyImm .trap code)).2

def emitCall (b : ChunkBuilder) (dst : UInt8) (function : UInt32) (argc : UInt8) : ChunkBuilder :=
  (b.emit ⟨.call, dst, argc, 0, function.toInt32⟩).2

def emitCallNative (b : ChunkBuilder) (dst : UInt8) (nativeIndex : UInt32) (argc : UInt8) :
    ChunkBuilder :=
  (b.emit ⟨.callNative, dst, argc, 0, nativeIndex.toInt32⟩).2

/-- A call on a copy of `src`. -/
def emitNative1From (b : ChunkBuilder) (dst src : UInt8) (nativeIndex : UInt32) : ChunkBuilder :=
  (b.emitMove dst src).emitCallNative dst nativeIndex 1

def emitNativeN (b : ChunkBuilder) (base : UInt8) (nativeIndex : UInt32) (argc : UInt8) :
    ChunkBuilder :=
  b.emitCallNative base nativeIndex argc

def emitReturn (b : ChunkBuilder) (reg : UInt8) : ChunkBuilder :=
  (b.emit (.abc .return reg 0 0)).2

/-! ## Functions -/

/-- The index of the function that starts here. -/
def beginFunction (b : ChunkBuilder) (name : String) (arity numRegisters : UInt8) :
    UInt32 × ChunkBuilder :=
  let idx := UInt32.ofNat b.functions.length
  (idx, { b with
    functions := b.functions ++ [⟨name, UInt32.ofNat b.code.length, arity, numRegisters⟩]
    fnStarts := Function.update b.fnStarts name (some idx) })

def functionIndex (b : ChunkBuilder) (name : String) : Option UInt32 := b.fnStarts name

/-- Patch the register-file size of a function. -/
def setNumRegisters (b : ChunkBuilder) (functionIndex : UInt32) (numRegisters : UInt8) :
    ChunkBuilder :=
  { b with functions :=
      b.functions.modify functionIndex.toNat fun f => { f with numRegisters := numRegisters } }

/-! ## Patching -/

/-- The offset of a jump, relative to the instruction after it; `0` for a label that was never
bound. -/
def offset (b : ChunkBuilder) (idx : ℕ) (label : Label) : Int32 :=
  match b.labelTargets label with
  | some target => Int32.ofInt (target.toNat - (idx + 1))
  | none => 0

def patch (b : ChunkBuilder) (jump : ℕ × Label) (instr : Instruction) : Instruction :=
  { instr with imm := b.offset jump.1 jump.2 }

/-- Resolve the pending jumps. -/
def finish (b : ChunkBuilder) : Chunk where
  name := b.name
  constants := b.constants
  code := b.pendingJumps.foldl (fun code jump => code.modify jump.1 (b.patch jump)) b.code
  functions := b.functions

/-! ## Sequences of calls -/

/-- A call on the assembler. -/
inductive Call
  | const (v : Value)
  | newLabel
  | bindLabel (label : Label)
  | emitHalt
  | emitLoadConst (dst : UInt8) (konst : UInt32)
  | emitLoadImm (dst : UInt8) (imm : Int32)
  | emitMove (dst src : UInt8)
  | emitBinop (op : Opcode) (dst lhs rhs : UInt8)
  | emitNeg (dst src : UInt8)
  | emitJump (target : Label)
  | emitBranch (cond : UInt8) (target : Label)
  | emitSpawn (dst : UInt8) (function : UInt32) (argc : UInt8)
  | emitSpawnWithRights (dst : UInt8) (function : UInt32) (argc : UInt8) (rights : CapRights)
  | emitDelegate (dst srcCap : UInt8) (rights : CapRights)
  | emitYield
  | emitSleep (millisReg : UInt8)
  | emitExit (reg : UInt8)
  | emitSelfPid (dst : UInt8)
  | emitFreshRequestId (dst : UInt8)
  | emitSend (targetCapReg msgReg : UInt8)
  | emitReceive (dst : UInt8)
  | emitReceiveTimeout (dst millisReg : UInt8)
  | emitReceiveMatch (dst tagReg : UInt8)
  | emitReceiveMatchImm (dst : UInt8) (tag : UInt16)
  | emitReceiveMatchCorr (dst tagReg idReg : UInt8)
  | emitReceiveMatchCorrImm (dst : UInt8) (tag : UInt16) (idReg : UInt8)
  | emitAsk (dest targetCapReg msgReg : UInt8)
  | emitAskTimeout (dest targetCapReg msgReg millisReg : UInt8)
  | emitMonitor (dest targetCapReg : UInt8)
  | emitDemonitor (monitorReg : UInt8)
  | emitLink (dest targetCapReg : UInt8)
  | emitUnlink (linkReg : UInt8)
  | emitRegisterName (nameReg : UInt8)
  | emitWhereis (dst nameReg : UInt8)
  | emitTrap (code : Int32)
  | emitCall (dst : UInt8) (function : UInt32) (argc : UInt8)
  | emitCallNative (dst : UInt8) (nativeIndex : UInt32) (argc : UInt8)
  | emitNative1From (dst src : UInt8) (nativeIndex : UInt32)
  | emitNativeN (base : UInt8) (nativeIndex : UInt32) (argc : UInt8)
  | emitReturn (reg : UInt8)
  | beginFunction (name : String) (arity numRegisters : UInt8)
  | setNumRegisters (functionIndex : UInt32) (numRegisters : UInt8)

def apply (b : ChunkBuilder) : Call → ChunkBuilder
  | .const v => (b.const v).2
  | .newLabel => b.newLabel.2
  | .bindLabel label => b.bindLabel label
  | .emitHalt => b.emitHalt
  | .emitLoadConst dst konst => b.emitLoadConst dst konst
  | .emitLoadImm dst imm => b.emitLoadImm dst imm
  | .emitMove dst src => b.emitMove dst src
  | .emitBinop op dst lhs rhs => b.emitBinop op dst lhs rhs
  | .emitNeg dst src => b.emitNeg dst src
  | .emitJump target => b.emitJump target
  | .emitBranch cond target => b.emitBranch cond target
  | .emitSpawn dst function argc => b.emitSpawn dst function argc
  | .emitSpawnWithRights dst function argc rights => b.emitSpawnWithRights dst function argc rights
  | .emitDelegate dst srcCap rights => b.emitDelegate dst srcCap rights
  | .emitYield => b.emitYield
  | .emitSleep millisReg => b.emitSleep millisReg
  | .emitExit reg => b.emitExit reg
  | .emitSelfPid dst => b.emitSelfPid dst
  | .emitFreshRequestId dst => b.emitFreshRequestId dst
  | .emitSend targetCapReg msgReg => b.emitSend targetCapReg msgReg
  | .emitReceive dst => b.emitReceive dst
  | .emitReceiveTimeout dst millisReg => b.emitReceiveTimeout dst millisReg
  | .emitReceiveMatch dst tagReg => b.emitReceiveMatch dst tagReg
  | .emitReceiveMatchImm dst tag => b.emitReceiveMatchImm dst tag
  | .emitReceiveMatchCorr dst tagReg idReg => b.emitReceiveMatchCorr dst tagReg idReg
  | .emitReceiveMatchCorrImm dst tag idReg => b.emitReceiveMatchCorrImm dst tag idReg
  | .emitAsk dest targetCapReg msgReg => b.emitAsk dest targetCapReg msgReg
  | .emitAskTimeout dest targetCapReg msgReg millisReg =>
    b.emitAskTimeout dest targetCapReg msgReg millisReg
  | .emitMonitor dest targetCapReg => b.emitMonitor dest targetCapReg
  | .emitDemonitor monitorReg => b.emitDemonitor monitorReg
  | .emitLink dest targetCapReg => b.emitLink dest targetCapReg
  | .emitUnlink linkReg => b.emitUnlink linkReg
  | .emitRegisterName nameReg => b.emitRegisterName nameReg
  | .emitWhereis dst nameReg => b.emitWhereis dst nameReg
  | .emitTrap code => b.emitTrap code
  | .emitCall dst function argc => b.emitCall dst function argc
  | .emitCallNative dst nativeIndex argc => b.emitCallNative dst nativeIndex argc
  | .emitNative1From dst src nativeIndex => b.emitNative1From dst src nativeIndex
  | .emitNativeN base nativeIndex argc => b.emitNativeN base nativeIndex argc
  | .emitReturn reg => b.emitReturn reg
  | .beginFunction name arity numRegisters => (b.beginFunction name arity numRegisters).2
  | .setNumRegisters functionIndex numRegisters => b.setNumRegisters functionIndex numRegisters

/-- The assembler after a sequence of calls. -/
def build (name : String) (calls : List Call) : ChunkBuilder :=
  Schedule.run apply (new name) calls

/-! ## What a call does -/

/-- The label of a call that emits a jump. -/
def Call.jumpsTo : Call → Option Label
  | .emitJump target => some target
  | .emitBranch _ target => some target
  | _ => none

/-- A jump is emitted without its offset. -/
def Unresolved (instr : Instruction) : Prop :=
  instr.op = .jump ∨ instr.op = .branch → instr.imm = 0

/-- What a call may change of the code and its labels. -/
inductive Effect (b : ChunkBuilder) : Call → ChunkBuilder → Prop
  | binds (label : Label) : Effect b (.bindLabel label) (b.bindLabel label)
  | jumps {c : Call} {b' : ChunkBuilder} {label : Label} (hc : c.jumpsTo = some label)
      {instr : Instruction} (himm : instr.imm = 0) (hcode : b'.code = b.code ++ [instr])
      (hpending : b'.pendingJumps = b.pendingJumps ++ [(b.code.length, label)])
      (htargets : b'.labelTargets = b.labelTargets) : Effect b c b'
  | emits {c : Call} {b' : ChunkBuilder} (hc : ∀ label, c ≠ .bindLabel label)
      (hjumps : c.jumpsTo = none) (instrs : List Instruction)
      (himms : ∀ instr ∈ instrs, Unresolved instr) (hcode : b'.code = b.code ++ instrs)
      (hpending : b'.pendingJumps = b.pendingJumps)
      (htargets : b'.labelTargets = b.labelTargets) : Effect b c b'

/-- A call that emits one instruction, which is no jump or has no offset. -/
theorem effect_of_emit (b : ChunkBuilder) {c : Call} (hc : ∀ label, c ≠ .bindLabel label)
    (hjumps : c.jumpsTo = none) {instr : Instruction} (himm : Unresolved instr) :
    Effect b c (b.emit instr).2 := by
  refine .emits hc hjumps [instr] (fun i hi => ?_) rfl rfl rfl
  obtain rfl := List.mem_singleton.mp hi
  exact himm

/-- A call that emits nothing. -/
theorem effect_of_silent (b : ChunkBuilder) {c : Call} {b' : ChunkBuilder}
    (hc : ∀ label, c ≠ .bindLabel label) (hjumps : c.jumpsTo = none) (hcode : b'.code = b.code)
    (hpending : b'.pendingJumps = b.pendingJumps) (htargets : b'.labelTargets = b.labelTargets) :
    Effect b c b' :=
  .emits hc hjumps [] (fun _ h => absurd h List.not_mem_nil)
    (hcode.trans (List.append_nil _).symm) hpending htargets

theorem apply_effect (b : ChunkBuilder) (c : Call) : Effect b c (b.apply c) := by
  have hother {op : Opcode} {a x y : UInt8} {imm : Int32} (h : ¬(op = .jump ∨ op = .branch)) :
      Unresolved ⟨op, a, x, y, imm⟩ := fun hop => absurd hop h
  cases c with
  | const v =>
    show Effect b _ (b.const v).2
    unfold const
    split
    · exact effect_of_silent b (fun _ h => by cases h) rfl rfl rfl rfl
    · exact effect_of_silent b (fun _ h => by cases h) rfl rfl rfl rfl
  | bindLabel label => exact .binds label
  | emitJump target => exact @Effect.jumps b _ _ target rfl (.onlyImm .jump 0) rfl rfl rfl rfl
  | emitBranch cond target =>
    exact @Effect.jumps b _ _ target rfl (.aImm .branch cond 0) rfl rfl rfl rfl
  | newLabel | beginFunction | setNumRegisters =>
    exact effect_of_silent b (fun _ h => by cases h) rfl rfl rfl rfl
  | emitBinop => exact effect_of_emit b (fun _ h => by cases h) rfl fun _ => rfl
  | emitNative1From dst src nativeIndex =>
    refine .emits (fun _ h => by cases h) rfl
      [.abc .move dst src 0, ⟨.callNative, dst, 1, 0, nativeIndex.toInt32⟩] (fun i hi => ?_)
      (List.append_assoc _ _ _) rfl rfl
    simp only [List.mem_cons, List.not_mem_nil, or_false] at hi
    rcases hi with rfl | rfl
    · exact hother (by decide)
    · exact hother (by decide)
  | _ => exact effect_of_emit b (fun _ h => by cases h) rfl (hother (by decide))

/-! ## What a sequence of calls keeps -/

variable {b : ChunkBuilder} {c : Call} {label : Label}

theorem code_apply (b : ChunkBuilder) (c : Call) : b.code <+: (b.apply c).code := by
  cases apply_effect b c with
  | binds => exact List.prefix_rfl
  | jumps _ _ hcode | emits _ _ _ _ hcode => exact hcode ▸ List.prefix_append _ _

theorem pendingJumps_apply (b : ChunkBuilder) (c : Call) :
    b.pendingJumps <+: (b.apply c).pendingJumps := by
  cases apply_effect b c with
  | binds => exact List.prefix_rfl
  | jumps _ _ _ hpending => exact hpending ▸ List.prefix_append _ _
  | emits _ _ _ _ _ hpending => exact hpending ▸ List.prefix_rfl

/-- Only `bind_label` moves a label. -/
theorem labelTargets_apply (h : c ≠ .bindLabel label) :
    (b.apply c).labelTargets label = b.labelTargets label := by
  have heffect := apply_effect b c
  generalize b.apply c = b' at heffect
  cases heffect with
  | binds label' => exact Function.update_of_ne (fun heq => h (by rw [heq])) _ _
  | jumps _ _ _ _ htargets => rw [htargets]
  | emits _ _ _ _ _ _ htargets => rw [htargets]

theorem code_run (b : ChunkBuilder) (calls : List Call) :
    b.code <+: (Schedule.run apply b calls).code := by
  induction calls generalizing b with
  | nil => exact List.prefix_rfl
  | cons c calls ih => exact (code_apply b c).trans (ih (b.apply c))

theorem pendingJumps_run (b : ChunkBuilder) (calls : List Call) :
    b.pendingJumps <+: (Schedule.run apply b calls).pendingJumps := by
  induction calls generalizing b with
  | nil => exact List.prefix_rfl
  | cons c calls ih => exact (pendingJumps_apply b c).trans (ih (b.apply c))

theorem labelTargets_run {calls : List Call} (h : .bindLabel label ∉ calls) (b : ChunkBuilder) :
    (Schedule.run apply b calls).labelTargets label = b.labelTargets label := by
  induction calls generalizing b with
  | nil => rfl
  | cons c calls ih =>
    obtain ⟨hc, hcalls⟩ := not_or.mp (mt List.mem_cons.mpr h)
    exact (ih hcalls (b.apply c)).trans (labelTargets_apply (Ne.symm hc))

/-- What holds of an assembler: each pending jump has its own instruction, the labels are bound
inside the code, and no jump has an offset yet. -/
structure Placed (b : ChunkBuilder) : Prop where
  distinct : b.pendingJumps.Pairwise fun j j' => j.1 < j'.1
  inside : ∀ j ∈ b.pendingJumps, j.1 < b.code.length
  bound : ∀ label target, b.labelTargets label = some target → target.toNat ≤ b.code.length
  unresolved : ∀ instr ∈ b.code, Unresolved instr

theorem placed_new (name : String) : Placed (new name) where
  distinct := .nil
  inside _ h := absurd h List.not_mem_nil
  bound _ _ h := by cases h
  unresolved _ h := absurd h List.not_mem_nil

theorem Placed.apply (h : Placed b) (c : Call) : Placed (b.apply c) := by
  have hlen := (code_apply b c).length_le
  have heffect := apply_effect b c
  generalize b.apply c = b' at heffect hlen
  cases heffect with
  | binds label =>
    refine { h with bound := fun label' target ht => ?_ }
    by_cases heq : label' = label
    · have hnew : some (UInt32.ofNat b.code.length) = some target := by
        rw [← ht, heq]
        exact (Function.update_self label _ b.labelTargets).symm
      cases hnew
      exact Nat.mod_le _ _
    · refine h.bound label' target ?_
      rw [← ht]
      exact (Function.update_of_ne heq _ b.labelTargets).symm
  | jumps _ himm hcode hpending htargets =>
    constructor
    · rw [hpending, List.pairwise_append]
      refine ⟨h.distinct, List.pairwise_singleton _ _, fun j hj j' hj' => ?_⟩
      obtain rfl := List.mem_singleton.mp hj'
      exact h.inside j hj
    · intro j hj
      rw [hpending, List.mem_append, List.mem_singleton] at hj
      rw [hcode, List.length_append, List.length_singleton]
      rcases hj with hj | rfl
      · exact (h.inside j hj).trans (Nat.lt_succ_self _)
      · exact Nat.lt_succ_self _
    · intro label target ht
      rw [htargets] at ht
      exact (h.bound label target ht).trans hlen
    · intro i hi
      rw [hcode, List.mem_append, List.mem_singleton] at hi
      rcases hi with hi | rfl
      · exact h.unresolved i hi
      · exact fun _ => himm
  | emits _ _ instrs himms hcode hpending htargets =>
    constructor
    · rw [hpending]
      exact h.distinct
    · intro j hj
      rw [hpending] at hj
      exact (h.inside j hj).trans_le hlen
    · intro label target ht
      rw [htargets] at ht
      exact (h.bound label target ht).trans hlen
    · intro i hi
      rw [hcode, List.mem_append] at hi
      exact hi.elim (h.unresolved i) (himms i)

theorem placed_build (name : String) (calls : List Call) : Placed (build name calls) := by
  suffices h : ∀ b, Placed b → Placed (Schedule.run apply b calls) from h _ (placed_new name)
  induction calls with
  | nil => exact fun _ h => h
  | cons c calls ih => exact fun b h => ih _ (h.apply c)

/-! ## The finished code -/

section

variable {α β : Type} (edit : ℕ × β → α → α)

theorem length_edits (edits : List (ℕ × β)) (as : List α) :
    (edits.foldl (fun as e => as.modify e.1 (edit e)) as).length = as.length := by
  induction edits generalizing as with
  | nil => rfl
  | cons e edits ih => rw [List.foldl_cons, ih, List.length_modify]

/-- An edit leaves the other places alone. -/
theorem getElem?_edits_of_ne {edits : List (ℕ × β)} {i : ℕ} (h : ∀ e ∈ edits, e.1 ≠ i)
    (as : List α) :
    (edits.foldl (fun as e => as.modify e.1 (edit e)) as)[i]? = as[i]? := by
  induction edits generalizing as with
  | nil => rfl
  | cons e edits ih =>
    rw [List.foldl_cons, ih (fun e' he' => h e' (List.mem_cons_of_mem _ he')),
      List.getElem?_modify_ne _ _ (h e List.mem_cons_self)]

/-- Of edits at distinct places, each comes to its own. -/
theorem getElem?_edits {edits : List (ℕ × β)} (hdistinct : edits.Pairwise fun e e' => e.1 < e'.1)
    {e : ℕ × β} (he : e ∈ edits) (as : List α) :
    (edits.foldl (fun as e => as.modify e.1 (edit e)) as)[e.1]? = as[e.1]?.map (edit e) := by
  induction edits generalizing as with
  | nil => exact absurd he List.not_mem_nil
  | cons e' edits ih =>
    rw [List.pairwise_cons] at hdistinct
    rw [List.foldl_cons]
    rcases List.mem_cons.mp he with rfl | hmem
    · rw [getElem?_edits_of_ne edit (fun e' he' => (hdistinct.1 e' he').ne'),
        List.getElem?_modify_eq]
      rfl
    · rw [ih hdistinct.2 hmem, List.getElem?_modify_ne _ _ (hdistinct.1 e hmem).ne]

end

theorem length_finish (b : ChunkBuilder) : b.finish.code.length = b.code.length :=
  length_edits _ _ _

/-- A pending jump gets its offset. -/
theorem Placed.finish_of_pending (h : Placed b) {idx : ℕ} (hmem : (idx, label) ∈ b.pendingJumps) :
    b.finish.code[idx]? = b.code[idx]?.map (b.patch (idx, label)) :=
  getElem?_edits b.patch h.distinct hmem b.code

/-- Every other instruction stays. -/
theorem finish_of_not_pending {idx : ℕ} (h : ∀ j ∈ b.pendingJumps, j.1 ≠ idx) :
    b.finish.code[idx]? = b.code[idx]? :=
  getElem?_edits_of_ne b.patch h b.code

/-- In code of this size the offset of a label is exact. -/
theorem Placed.offset_of_bound (h : Placed b) (hsize : b.code.length < 2 ^ 31) {idx : ℕ}
    (hidx : idx < b.code.length) {target : UInt32} (ht : b.labelTargets label = some target) :
    (b.offset idx label).toInt = target.toNat - (idx + 1) := by
  have hle := h.bound label target ht
  unfold offset
  rw [ht]
  exact Int32.toInt_ofInt_of_le (by omega) (by omega)

theorem offset_of_unbound {idx : ℕ} (ht : b.labelTargets label = none) :
    b.offset idx label = 0 := by
  unfold offset
  rw [ht]

/-- A finished jump stays in the code, or leads to its end. -/
theorem Placed.target_in_range (h : Placed b) (hsize : b.code.length < 2 ^ 31) {idx : ℕ}
    {instr : Instruction} (hi : b.finish.code[idx]? = some instr)
    (hop : instr.op = .jump ∨ instr.op = .branch) :
    0 ≤ idx + 1 + instr.imm.toInt ∧ idx + 1 + instr.imm.toInt ≤ b.finish.code.length := by
  have hidx : idx < b.finish.code.length := (List.getElem?_eq_some_iff.mp hi).1
  rw [length_finish] at hidx ⊢
  have hfalls (himm : instr.imm = 0) :
      0 ≤ idx + 1 + instr.imm.toInt ∧ idx + 1 + instr.imm.toInt ≤ (b.code.length : ℤ) := by
    rw [himm]
    show 0 ≤ (idx : ℤ) + 1 + 0 ∧ (idx : ℤ) + 1 + 0 ≤ b.code.length
    omega
  by_cases hpending : ∃ label, (idx, label) ∈ b.pendingJumps
  · obtain ⟨label, hmem⟩ := hpending
    rw [h.finish_of_pending hmem] at hi
    obtain ⟨raw, -, rfl⟩ := Option.map_eq_some_iff.mp hi
    cases ht : b.labelTargets label with
    | none => exact hfalls (offset_of_unbound ht)
    | some target =>
      have hle := h.bound label target ht
      show 0 ≤ (idx : ℤ) + 1 + (b.offset idx label).toInt ∧
        (idx : ℤ) + 1 + (b.offset idx label).toInt ≤ b.code.length
      rw [h.offset_of_bound hsize hidx ht]
      omega
  · have hnot : ∀ j ∈ b.pendingJumps, j.1 ≠ idx := by
      rintro j hj rfl
      exact hpending ⟨j.2, hj⟩
    rw [finish_of_not_pending hnot] at hi
    exact hfalls (h.unresolved instr (List.mem_of_getElem? hi) hop)

end ChunkBuilder

end Byteflow
