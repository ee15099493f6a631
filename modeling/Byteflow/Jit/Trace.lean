import Byteflow.Bytecode.Chunk

/-!
# Traces

What the trace compiler looks at (`jit/trace.rs`, and the front of `jit/compiler.rs`): from the
entry of a trace it collects a region of straight-line blocks, following jumps, both sides of
branches, and calls, up to `maxTraceLength` instructions. A block ends before an instruction that
needs the scheduler. Program counters are `u32` here.
-/

namespace Byteflow

namespace Jit

/-- At most this many instructions are recorded into one trace. -/
def maxTraceLength : ℕ := 256

structure TraceKey where
  function : UInt32
  entryPc : UInt32
  deriving DecidableEq

structure TraceBlock where
  startPc : UInt32
  pcs : List UInt32
  deriving DecidableEq

/-- Why a trace was not compiled. The text of a backend error is left out. -/
inductive CompileError
  | emptyTrace (function pc : UInt32)
  | unsupportedOpcode (opcode : Opcode) (pc : UInt32)
  | module
  deriving DecidableEq

/-- Opcodes that the interpreter executes. -/
def isEffectOpcode : Opcode → Bool
  | .callNative | .spawn | .yield | .sleep | .exit | .selfPid | .send | .receive
  | .receiveTimeout | .receiveMatch | .receiveMatchImm | .ask | .askTimeout | .monitor | .demonitor
  | .link | .unlink | .delegate | .freshRequestId | .receiveMatchCorr | .receiveMatchCorrImm
  | .registerName | .whereis | .trap | .halt => true
  | _ => false

/-- The target of a jump or a branch: the sum of `i64`s, cut to 32 bits. -/
def jumpTarget (pc : UInt32) (imm : Int32) : UInt32 :=
  UInt32.ofBitVec (BitVec.ofInt 32 (pc.toNat + 1 + imm.toInt))

/-- The value that a constant stands for in compiled code: integers, and booleans as integers. -/
def scalar : Value → Option Int64
  | .int i => some i
  | .bool b => some b.toInt64
  | _ => none

/-- A trace goes on at this instruction. -/
def recorded (chunk : Chunk) (instr : Instruction) : Bool :=
  !isEffectOpcode instr.op &&
    (instr.op != .loadConst || ((chunk.constant instr.imm.toUInt32).bind scalar).isSome)

/-- One block from `pc` on, with room for so many instructions: its program counters, and where
control goes from its end. The last instruction that has room is not followed. -/
def scan (chunk : Chunk) : ℕ → UInt32 → List UInt32 × List UInt32
  | 0, _ => ([], [])
  | room + 1, pc =>
    match chunk.code[pc.toNat]? with
    | none => ([], [])
    | some instr =>
      if !recorded chunk instr then ([], [])
      else if room = 0 then ([pc], [])
      else match instr.op with
        | .return => ([pc], [])
        | .jump => ([pc], [jumpTarget pc instr.imm])
        | .branch => ([pc], [pc + 1, jumpTarget pc instr.imm])
        | .call =>
          ([pc], ((chunk.function instr.imm.toUInt32).map (·.entry)).toList ++ [pc + 1])
        | _ => (pc :: (scan chunk room (pc + 1)).1, (scan chunk room (pc + 1)).2)

/-- The blocks reached from the queue. Every start but those of empty blocks takes from the total,
and adds two starts at most. -/
def collect (chunk : Chunk) : ℕ → List UInt32 → List UInt32 → ℕ → List TraceBlock
  | 0, _, _, _ => []
  | _ + 1, [], _, _ => []
  | fuel + 1, start :: queue, seen, total =>
    if start ∈ seen then collect chunk fuel queue seen total
    else if maxTraceLength ≤ total then []
    else
      let (pcs, next) := scan chunk (maxTraceLength - total) start
      let blocks := collect chunk fuel (queue ++ next) (start :: seen) (total + pcs.length)
      if pcs = [] then blocks else ⟨start, pcs⟩ :: blocks

/-- The region of a trace. -/
def collectTraceRegion (chunk : Chunk) (key : TraceKey) : List TraceBlock :=
  collect chunk (2 * maxTraceLength + 1) [key.entryPc] [] 0

/-- The instructions of a region, block after block. -/
def regionInstructions (chunk : Chunk) (region : List TraceBlock) :
    List (UInt32 × Instruction) :=
  (region.flatMap (·.pcs)).filterMap fun pc => (chunk.code[pc.toNat]?).map fun instr => (pc, instr)

def regionMaxPc (region : List TraceBlock) (key : TraceKey) : Except CompileError UInt32 :=
  match (region.flatMap (·.pcs)).max? with
  | some pc => .ok pc
  | none => .error (.emptyTrace key.function key.entryPc)

/-- The last `Return` of a region, with its register. -/
def lastReturnInRegion (chunk : Chunk) (region : List TraceBlock) : Option (UInt32 × UInt8) :=
  ((regionInstructions chunk region).reverse.find? fun p => p.2.op == .return).map
    fun p => (p.1, p.2.a)

/-- The block that starts at `pc`. -/
def blockAt (region : List TraceBlock) (pc : UInt32) : Option TraceBlock :=
  region.find? (·.startPc == pc)

/-! ## Blocks -/

/-- Recorded instructions at consecutive program counters. -/
def Follows (chunk : Chunk) : UInt32 → List UInt32 → Prop
  | _, [] => True
  | pc, p :: ps =>
    p = pc ∧ (∃ instr, chunk.code[pc.toNat]? = some instr ∧ recorded chunk instr = true) ∧
      Follows chunk (pc + 1) ps

variable {chunk : Chunk}

theorem toNat_succ_pc {pc : UInt32} {instr : Instruction}
    (hlength : chunk.code.length < 2 ^ 32) (hinstr : chunk.code[pc.toNat]? = some instr) :
    (pc + 1).toNat = pc.toNat + 1 := by
  obtain ⟨hlt, -⟩ := List.getElem?_eq_some_iff.mp hinstr
  rw [UInt32.toNat_add, UInt32.toNat_one]
  omega

theorem follows_scan (room : ℕ) (pc : UInt32) : Follows chunk pc (scan chunk room pc).1 := by
  induction room generalizing pc with
  | zero => trivial
  | succ room ih =>
    unfold scan
    cases hinstr : chunk.code[pc.toNat]? with
    | none => trivial
    | some instr =>
      dsimp only
      by_cases hrec : recorded chunk instr = true
      · rw [hrec]
        have hone : Follows chunk pc [pc] := ⟨rfl, ⟨instr, hinstr, hrec⟩, trivial⟩
        split_ifs with hno hroom
        · cases hno
        · exact hone
        · split
          · exact hone
          · exact hone
          · exact hone
          · exact hone
          · exact ⟨rfl, ⟨instr, hinstr, hrec⟩, ih (pc + 1)⟩
      · rw [Bool.eq_false_iff.mpr hrec]
        trivial

/-- The blocks of a region are those that were scanned, and none is empty. -/
theorem follows_of_mem_collect {fuel : ℕ} {queue seen : List UInt32} {total : ℕ} {b : TraceBlock}
    (hb : b ∈ collect chunk fuel queue seen total) :
    Follows chunk b.startPc b.pcs ∧ b.pcs ≠ [] := by
  induction fuel generalizing queue seen total with
  | zero => cases hb
  | succ fuel ih =>
    cases queue with
    | nil => cases hb
    | cons start queue =>
      rw [collect] at hb
      split_ifs at hb
      · exact ih hb
      · cases hb
      dsimp only at hb
      split_ifs at hb with hpcs
      · exact ih hb
      · rcases List.mem_cons.mp hb with rfl | hb
        · exact ⟨follows_scan _ _, hpcs⟩
        · exact ih hb

/-- The block at a program counter starts there. -/
theorem follows_blockAt {key : TraceKey} {pc : UInt32} {b : TraceBlock}
    (hb : blockAt (collectTraceRegion chunk key) pc = some b) : Follows chunk pc b.pcs := by
  have hstart := List.find?_some hb
  rw [← eq_of_beq hstart]
  exact (follows_of_mem_collect (List.mem_of_find?_eq_some hb)).1

end Jit

end Byteflow
