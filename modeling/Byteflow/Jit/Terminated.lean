import Byteflow.Jit.Compiler
import Byteflow.Jit.Region

/-!
# Blocks that are not terminated

A block of a region ends after a jump, a branch, a return or a call, or where the region is cut:
before an instruction that is not recorded, at the end of the code, or at the length limit. The
first four are lowered to code of which every path ends (`Code.Terminated`), the others are not, and
nothing is emitted after the last instruction (`block_terminated_iff`).
-/

namespace Byteflow

namespace Jit

/-- Every path of the code ends in a jump, or leaves the trace. -/
@[simp] def Code.Terminated {V W : Type} : Code V W → Prop
  | .iconst _ k => ∀ v, (k v).Terminated
  | .binary _ _ _ k => ∀ v, (k v).Terminated
  | .icmp _ _ _ k => ∀ w, (k w).Terminated
  | .select _ _ _ k => ∀ v, (k v).Terminated
  | .load _ k => ∀ v, (k v).Terminated
  | .store _ _ k => k.Terminated
  | .iconst32 _ k => ∀ w, (k w).Terminated
  | .iadd32 _ _ k => ∀ w, (k w).Terminated
  | .isub32 _ _ k => ∀ w, (k w).Terminated
  | .icmp32 _ _ _ k => ∀ w, (k w).Terminated
  | .loadField _ k => ∀ w, (k w).Terminated
  | .storeField _ _ k => k.Terminated
  | .loadRecord _ _ k => ∀ w, (k w).Terminated
  | .storeRecord _ _ _ k => k.Terminated
  | .brif _ ifTrue ifFalse => ifTrue.Terminated ∧ ifFalse.Terminated
  | .jump _ => True
  | .ret => True
  | .unfilled => False

/-! ## Emitters -/

section

variable {m : RegisterMap Int64} {T : Prop}

theorem terminated_loadReg {reg : UInt8} {k : Int64 → RegisterMap Int64 → Code Int64 UInt32}
    (hk : ∀ v m, (k v m).Terminated ↔ T) : (loadReg m reg k).Terminated ↔ T := by
  unfold loadReg
  cases m.get reg with
  | some v => exact hk v m
  | none => simp [hk]

theorem terminated_flushFrom {k : Code Int64 UInt32} (reg : ℕ) :
    (flushFrom reg m k).Terminated ↔ k.Terminated := by
  induction m generalizing reg with
  | nil => rfl
  | cons value values ih =>
    cases value with
    | none => exact ih (reg + 1)
    | some v => simp [flushFrom, storeSlot, ih]

theorem terminated_flushRegisters {k : Code Int64 UInt32} :
    (flushRegisters m k).Terminated ↔ k.Terminated := terminated_flushFrom 0

theorem terminated_writeExit (kind pc returnReg : UInt32) :
    (writeExit kind pc returnReg : Code Int64 UInt32).Terminated := by
  simp [writeExit, writeField]

theorem terminated_branchToPc (ctx : EmitContext) (targetPc : UInt32) :
    (branchToPc ctx targetPc : Code Int64 UInt32).Terminated := by
  unfold branchToPc
  split_ifs
  · trivial
  · exact terminated_writeExit _ _ _

theorem terminated_emitBudgetTick {pc : UInt32} {k : Code Int64 UInt32} :
    (emitBudgetTick pc k).Terminated ↔ k.Terminated := by
  simp [emitBudgetTick, terminated_writeExit]

theorem terminated_loadOperands {instr : Instruction}
    {f : Int64 → Int64 → RegisterMap Int64 → Code Int64 UInt32}
    (hf : ∀ lhs rhs m, (f lhs rhs m).Terminated ↔ T) : (loadOperands instr f m).Terminated ↔ T :=
  terminated_loadReg fun lhs _ => terminated_loadReg fun rhs m => hf lhs rhs m

theorem terminated_copyArgs {dst : UInt8} {k : Code Int64 UInt32} (i argc : ℕ) :
    (copyArgs dst i argc k).Terminated ↔ k.Terminated := by
  induction argc generalizing i with
  | zero => rfl
  | succ argc ih => simp [copyArgs, ih]

theorem terminated_emitCall (ctx : EmitContext) (pc : UInt32) (instr : Instruction)
    (callee : FunctionDef) (m : RegisterMap Int64) :
    (emitCall ctx pc instr callee m : Code Int64 UInt32).Terminated := by
  unfold emitCall
  rw [terminated_flushRegisters]
  split_ifs
  · exact terminated_writeExit _ _ _
  · simp [saveRecord, writeField, terminated_writeExit, terminated_copyArgs]

theorem terminated_emitReturn (pc : UInt32) (reg : UInt8) :
    (emitReturn pc reg : Code Int64 UInt32).Terminated := by
  simp [emitReturn, writeDynamicExit, writeField, terminated_writeExit]

theorem terminated_emitBranch (ctx : EmitContext) (pc : UInt32) (instr : Instruction)
    (m : RegisterMap Int64) (k : RegisterMap Int64 → Code Int64 UInt32) :
    (emitBranch ctx pc instr m k).Terminated := by
  unfold emitBranch
  refine (terminated_loadReg (T := True) fun cond m => iff_true_intro ?_).mpr trivial
  rw [terminated_flushRegisters]
  intro zero isFalsy
  dsimp only
  split
  · exact ⟨trivial, trivial⟩
  · exact ⟨terminated_writeExit _ _ _, trivial⟩
  · exact ⟨trivial, terminated_writeExit _ _ _⟩
  · exact terminated_writeExit _ _ _

/-- The code of an instruction is terminated if the instruction is a terminator, and otherwise if
what follows it is. -/
theorem terminated_emitInstruction {ctx : EmitContext} {pc : UInt32} {instr : Instruction}
    {emit : Emit Int64 UInt32} (h : emitInstruction ctx pc instr = .ok emit)
    {k : RegisterMap Int64 → Code Int64 UInt32} (hk : ∀ m, (k m).Terminated ↔ T) :
    (emit m k).Terminated ↔ isTerminator instr.op = true ∨ T := by
  unfold emitInstruction at h
  cases hop : instr.op with
  | loadImm =>
    rw [hop] at h
    cases h
    simp [isTerminator, hk]
  | loadConst =>
    rw [hop] at h
    dsimp only at h
    cases hconst : (ctx.chunk.constant instr.imm.toUInt32).bind scalar with
    | none =>
      rw [hconst] at h
      cases h
    | some n =>
      rw [hconst] at h
      cases h
      simp [isTerminator, hk]
  | move =>
    rw [hop] at h
    cases h
    simpa [isTerminator] using terminated_loadReg fun v m => hk (m.set instr.a v)
  | neg =>
    rw [hop] at h
    cases h
    simpa [isTerminator] using terminated_loadReg fun v m => by simp [hk]
  | nop =>
    rw [hop] at h
    cases h
    simpa [isTerminator] using hk m
  | add | sub | mul =>
    rw [hop] at h
    cases h
    simpa [isTerminator, emitBinary] using
      terminated_loadOperands fun lhs rhs m => by simp [hk]
  | eq | lt | le =>
    rw [hop] at h
    cases h
    simpa [isTerminator, emitCompare] using
      terminated_loadOperands fun lhs rhs m => by simp [boolAsI64, hk]
  | div | mod =>
    rw [hop] at h
    cases h
    simpa [isTerminator, emitDivision] using terminated_loadOperands fun lhs rhs m => by
      rw [terminated_flushRegisters]
      simp [hk]
  | jump =>
    rw [hop] at h
    cases h
    simp [isTerminator, terminated_flushRegisters, terminated_branchToPc]
  | branch =>
    rw [hop] at h
    cases h
    simp [isTerminator, terminated_emitBranch]
  | «return» =>
    rw [hop] at h
    cases h
    refine iff_of_true ?_ (.inl rfl)
    refine (terminated_loadReg (T := True) fun v m => iff_true_intro ?_).mpr trivial
    intro slot
    split_ifs
    · exact terminated_emitReturn _ _
    · exact fun _ => trivial
  | call =>
    rw [hop] at h
    dsimp only at h
    cases hcallee : ctx.chunk.function instr.imm.toUInt32 with
    | none =>
      rw [hcallee] at h
      cases h
    | some callee =>
      rw [hcallee] at h
      cases h
      simp [isTerminator, terminated_emitCall]
  | _ =>
    rw [hop] at h
    cases h

/-- So is the code of a block, if one of its instructions is a terminator. -/
theorem terminated_emitBlock {ctx : EmitContext} {pcs : List UInt32}
    {code : RegisterMap Int64 → Code Int64 UInt32} (h : emitBlock ctx pcs = .ok code) :
    (code m).Terminated ↔
      ∃ pc ∈ pcs, (ctx.chunk.code[pc.toNat]?).any (isTerminator ·.op) = true := by
  induction pcs generalizing code m with
  | nil =>
    cases h
    exact iff_of_false id (by simp)
  | cons pc pcs ih =>
    unfold emitBlock at h
    rw [List.exists_mem_cons_iff]
    cases hinstr : ctx.chunk.code[pc.toNat]? with
    | none =>
      rw [hinstr] at h
      cases h
    | some instr =>
      rw [hinstr] at h
      dsimp only at h
      cases hemit : (emitInstruction ctx pc instr : Except CompileError (Emit Int64 UInt32)) with
      | error e =>
        rw [hemit] at h
        cases h
      | ok emit =>
        rw [hemit] at h
        cases hrest : (emitBlock ctx pcs :
            Except CompileError (RegisterMap Int64 → Code Int64 UInt32)) with
        | error e =>
          rw [hrest] at h
          cases h
        | ok rest =>
          rw [hrest] at h
          cases h
          rw [terminated_emitBudgetTick]
          exact terminated_emitInstruction hemit fun m => ih hrest

end

/-! ## Blocks of a region -/

/-- A terminator ends its block. -/
theorem terminator_scan {chunk : Chunk} {room : ℕ} {pc p : UInt32}
    (hp : p ∈ (scan chunk room pc).1.dropLast) :
    (chunk.code[p.toNat]?).any (isTerminator ·.op) = false := by
  induction room generalizing pc with
  | zero => cases hp
  | succ room ih =>
    unfold scan at hp
    cases hinstr : chunk.code[pc.toNat]? with
    | none =>
      rw [hinstr] at hp
      cases hp
    | some instr =>
      rw [hinstr] at hp
      dsimp only at hp
      split_ifs at hp
      · cases hp
      · cases hp
      · split at hp
        · cases hp
        · cases hp
        · cases hp
        · cases hp
        · rename_i hreturn hjump hbranch hcall
          have hop : isTerminator instr.op = false := by
            cases hop : instr.op with
            | «return» => exact absurd hop hreturn
            | jump => exact absurd hop hjump
            | branch => exact absurd hop hbranch
            | call => exact absurd hop hcall
            | _ => rfl
          rcases hrest : (scan chunk room (pc + 1)).1 with _ | ⟨q, qs⟩
          · rw [hrest] at hp
            cases hp
          · rw [hrest, List.dropLast_cons_cons] at hp
            rcases List.mem_cons.mp hp with rfl | hp
            · rw [hinstr]
              exact hop
            · rw [← hrest] at hp
              exact ih hp

theorem terminator_mem_iff {chunk : Chunk} {key : TraceKey} {b : TraceBlock}
    (hb : b ∈ collectTraceRegion chunk key) :
    (∃ pc ∈ b.pcs, (chunk.code[pc.toNat]?).any (isTerminator ·.op) = true) ↔
      isFilled chunk b = true := by
  obtain ⟨room, hscan, hpcs⟩ := (collects_region chunk key).scanned hb
  have hsplit := List.dropLast_append_getLast hpcs
  have hlast : isFilled chunk b =
      (chunk.code[(b.pcs.getLast hpcs).toNat]?).any (isTerminator ·.op) := by
    unfold isFilled
    rw [List.getLast?_eq_some_getLast hpcs]
    rfl
  rw [hlast]
  refine ⟨?_, fun h => ⟨_, List.getLast_mem hpcs, h⟩⟩
  rintro ⟨pc, hpc, hop⟩
  rw [← hsplit, List.mem_append, List.mem_singleton] at hpc
  rcases hpc with hpc | rfl
  · rw [← hscan] at hpc
    rw [terminator_scan hpc] at hop
    cases hop
  · exact hop

/-- **A block is terminated exactly if its last instruction is a terminator.** -/
theorem block_terminated_iff {chunk : Chunk} {key : TraceKey} {b : TraceBlock}
    (hb : b ∈ collectTraceRegion chunk key) {code : RegisterMap Int64 → Code Int64 UInt32}
    (hcode : emitBlock (regionContext chunk (collectTraceRegion chunk key)) b.pcs = .ok code)
    (registers : RegisterMap Int64) :
    (code registers).Terminated ↔ isFilled chunk b = true :=
  (terminated_emitBlock hcode).trans (terminator_mem_iff hb)

/-- `main` returns a number. -/
def constant : Chunk where
  name := "constant"
  constants := []
  code := [.aImm .loadImm 0 1, .abc .return 0 0 0]
  functions := [⟨"main", 0, 0, 1⟩]

theorem block_terminated_constant :
    ∃ code : RegisterMap Int64 → Code Int64 UInt32,
      emitBlock (regionContext constant (collectTraceRegion constant ⟨0, 0⟩)) [0, 1] = .ok code ∧
        ((code []).Terminated ↔ isFilled constant ⟨0, [0, 1]⟩ = true) := by
  obtain ⟨code, hcode⟩ := exists_of_isOk (x := (emitBlock (regionContext constant
    (collectTraceRegion constant ⟨0, 0⟩)) [0, 1] :
      Except CompileError (RegisterMap Int64 → Code Int64 UInt32))) (by decide)
  exact ⟨code, hcode, @block_terminated_iff constant ⟨0, 0⟩ ⟨0, [0, 1]⟩ (by decide) code hcode []⟩

/-- `main` asks for its own address in between. -/
def cut : Chunk where
  name := "cut"
  constants := []
  code := [.aImm .loadImm 0 1, .abc .selfPid 1 0 0, .abc .return 0 0 0]
  functions := [⟨"main", 0, 0, 2⟩]

/-- A block that is cut before an effect is not terminated. -/
theorem cut_not_terminated :
    ¬∀ (chunk : Chunk) (trust : TrustLevel) (key : TraceKey) (b : TraceBlock)
        (code : RegisterMap Int64 → Code Int64 UInt32) (registers : RegisterMap Int64),
      chunk.verifyWith trust = .ok () → b ∈ collectTraceRegion chunk key →
      emitBlock (regionContext chunk (collectTraceRegion chunk key)) b.pcs = .ok code →
        (code registers).Terminated := by
  intro hall
  obtain ⟨code, hcode⟩ := exists_of_isOk (x := (emitBlock (regionContext cut
    (collectTraceRegion cut ⟨0, 0⟩)) [0] :
      Except CompileError (RegisterMap Int64 → Code Int64 UInt32))) (by decide)
  have hterminated := hall cut .untrusted ⟨0, 0⟩ ⟨0, [0]⟩ code [] (by decide) (by decide) hcode
  rw [terminated_emitBlock hcode] at hterminated
  exact absurd hterminated (by decide)

end Jit

end Byteflow
