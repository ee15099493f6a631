import Byteflow.Jit.Dispatch
import Byteflow.Vm.Stores
import Byteflow.Vm.Verified

/-!
# The interpreter on scalar registers

What one step of the interpreter does for the instructions that traces are made of, when their
operands are integers, booleans or units: it stores one register and goes on, jumps, or returns.
`StepsTo` is a run of the interpreter in which no step ends the slice.
-/

namespace Byteflow

namespace Vm

open Exec Jit

variable {host : Host} {vm : Vm} {chunk : Chunk} {frame : Frame} {rest : List Frame}
  {instr : Instruction} {reg : UInt8} {v : Value} {i : Int64}

/-- The VM runs the chunk, with this frame on top. -/
structure On (chunk : Chunk) (frame : Frame) (rest : List Frame) (vm : Vm) : Prop where
  chunk_eq : vm.chunk = chunk
  frames_eq : vm.frames = frame :: rest

/-! ## Stores -/

/-- Scalars are not charged for. -/
theorem chargeRegisterStore_flat (h : flat v = some i) :
    vm.chargeRegisterStore host reg v = .ok vm := by
  unfold chargeRegisterStore
  cases hquota : vm.quota with
  | none => rfl
  | some quota =>
    have hcharge : chargeHeapValue quota v = .ok quota := by
      cases v with
      | int _ => rfl
      | bool _ => rfl
      | unit => rfl
      | _ => cases h
    dsimp only
    rw [hcharge]
    dsimp only
    rw [← hquota]
    split_ifs <;> rfl

theorem setReg_flat (h : flat v = some i) (hframes : vm.frames = frame :: rest) :
    vm.setReg host reg v =
      if reg.toNat < frame.registers.length then
        (.ok (), { vm with
          frames := { frame with registers := frame.registers.set reg.toNat v } :: rest })
      else (.error (.registerOutOfRange reg (UInt8.ofNat frame.registers.length)), vm) := by
  unfold setReg
  rw [chargeRegisterStore_flat h]
  dsimp only
  rw [hframes]

/-! ## Steps -/

theorem On.next (h : On chunk frame rest vm) : vm.next = chunk.code[frame.pc]? := by
  unfold Vm.next
  rw [h.frames_eq, h.chunk_eq]
  rfl

theorem On.fetched (h : On chunk frame rest vm) :
    On chunk { frame with pc := frame.pc + 1 } rest vm.fetched := by
  refine ⟨fetched_chunk.trans h.chunk_eq, ?_⟩
  rw [fetched_of_frames h.frames_eq]

theorem runFrom_read (h : On chunk frame rest vm) (hv : frame.registers[reg.toNat]? = some v) :
    (read reg).runFrom vm = (.ok v, vm) := by
  have hget : vm.getReg reg = .ok v := by
    unfold Vm.getReg
    rw [h.frames_eq]
    dsimp only
    rw [hv]
  rw [runFrom_readReg, runFrom_trap_ok hget]

theorem runFrom_write (host : Host) (h : On chunk frame rest vm) (hv : flat v = some i)
    (hreg : reg.toNat < frame.registers.length) :
    ∃ vm', (write host reg v).runFrom vm = (.ok (), vm') ∧
      On chunk { frame with registers := frame.registers.set reg.toNat v } rest vm' := by
  unfold write
  rw [runFrom_bind, runFrom_get]
  dsimp only
  rw [setReg_flat hv h.frames_eq, if_pos hreg]
  exact ⟨_, rfl, h.chunk_eq, rfl⟩

theorem runFrom_jump (h : On chunk frame rest vm) {imm : Int32} {target : ℕ}
    (htarget : ((frame.pc + imm.toInt) % 2 ^ 64).toNat = target) :
    ∃ vm', (jump imm).runFrom vm = (.ok (), vm') ∧
      On chunk { frame with pc := target } rest vm' := by
  unfold jump
  rw [runFrom_bind, runFrom_get]
  dsimp only
  rw [h.frames_eq]
  dsimp only
  rw [htarget]
  exact ⟨_, rfl, h.chunk_eq, rfl⟩

/-- A step goes on with the frame. -/
def Goes (host : Host) (chunk : Chunk) (frame : Frame) (rest : List Frame) (vm : Vm) : Prop :=
  ∃ vm', vm.step host = (none, vm') ∧ On chunk frame rest vm'

theorem step_of_on (h : On chunk frame rest vm) (hinstr : chunk.code[frame.pc]? = some instr) :
    vm.step host = outcome ((exec host instr).runFrom vm.fetched) :=
  step_of_next host (h.next.trans hinstr)

/-- An instruction that ends with a store. -/
theorem goes_of_write (h : On chunk frame rest vm) (hinstr : chunk.code[frame.pc]? = some instr)
    (hexec : (exec host instr).runFrom vm.fetched = (write host reg v).runFrom vm.fetched)
    (hv : flat v = some i) (hreg : reg.toNat < frame.registers.length) :
    Goes host chunk { frame with
      pc := frame.pc + 1, registers := frame.registers.set reg.toNat v } rest vm := by
  obtain ⟨vm', hwrite, hon⟩ := runFrom_write host h.fetched hv hreg
  refine ⟨vm', ?_, hon⟩
  rw [step_of_on h hinstr, hexec, hwrite]
  rfl

/-! ## Instructions -/

section

variable (h : On chunk frame rest vm) (hinstr : chunk.code[frame.pc]? = some instr)

include h hinstr

theorem goes_nop (hop : instr.op = .nop) :
    Goes host chunk { frame with pc := frame.pc + 1 } rest vm := by
  refine ⟨vm.fetched, ?_, h.fetched⟩
  rw [step_of_on h hinstr]
  unfold exec
  rw [hop]
  rfl

theorem goes_loadImm (hop : instr.op = .loadImm)
    (hreg : instr.a.toNat < frame.registers.length) :
    Goes host chunk { frame with
      pc := frame.pc + 1
      registers := frame.registers.set instr.a.toNat (.int instr.imm.toInt64) } rest vm := by
  refine goes_of_write h hinstr ?_ rfl hreg
  unfold exec
  rw [hop]

theorem goes_loadConst (hop : instr.op = .loadConst)
    (hv : chunk.constant instr.imm.toUInt32 = some v) (hflat : flat v = some i)
    (hreg : instr.a.toNat < frame.registers.length) :
    Goes host chunk { frame with
      pc := frame.pc + 1, registers := frame.registers.set instr.a.toNat v } rest vm := by
  refine goes_of_write h hinstr ?_ hflat hreg
  unfold exec
  rw [hop]
  dsimp only
  rw [runFrom_bind, runFrom_get]
  dsimp only
  rw [h.fetched.chunk_eq, hv]

theorem goes_move (hop : instr.op = .move) (hv : frame.registers[instr.b.toNat]? = some v)
    (hflat : flat v = some i) (hreg : instr.a.toNat < frame.registers.length) :
    Goes host chunk { frame with
      pc := frame.pc + 1, registers := frame.registers.set instr.a.toNat v } rest vm := by
  refine goes_of_write h hinstr ?_ hflat hreg
  unfold exec
  rw [hop]
  dsimp only
  rw [runFrom_bind, runFrom_read h.fetched hv]

omit hinstr in
/-- The operands are read, and what is computed from them is stored. -/
theorem runFrom_numeric (hop : Numeric instr.op) {lhs rhs : Value}
    (hlhs : frame.registers[instr.b.toNat]? = some lhs)
    (hrhs : frame.registers[instr.c.toNat]? = some rhs) :
    (exec host instr).runFrom vm.fetched =
      (do write host instr.a (← trap (numericBinop instr.op lhs rhs)) : Code Unit).runFrom
        vm.fetched := by
  rw [exec_numeric hop, runFrom_bind, runFrom_read h.fetched hlhs]
  dsimp only
  rw [runFrom_bind, runFrom_read h.fetched hrhs]

theorem goes_numeric (hop : Numeric instr.op) {lhs rhs : Value}
    (hlhs : frame.registers[instr.b.toNat]? = some lhs)
    (hrhs : frame.registers[instr.c.toNat]? = some rhs)
    (hv : numericBinop instr.op lhs rhs = .ok v) (hflat : flat v = some i)
    (hreg : instr.a.toNat < frame.registers.length) :
    Goes host chunk { frame with
      pc := frame.pc + 1, registers := frame.registers.set instr.a.toNat v } rest vm := by
  refine goes_of_write h hinstr ?_ hflat hreg
  rw [runFrom_numeric h hop hlhs hrhs, hv]
  rfl

/-- A fault of the arithmetic ends the slice. -/
theorem traps_numeric (hop : Numeric instr.op) {lhs rhs : Value} {fault : Fault}
    (hlhs : frame.registers[instr.b.toNat]? = some lhs)
    (hrhs : frame.registers[instr.c.toNat]? = some rhs)
    (hfault : numericBinop instr.op lhs rhs = .error fault) :
    vm.step host = (some (.trap fault), vm.fetched) := by
  rw [step_of_on h hinstr, runFrom_numeric h hop hlhs hrhs, hfault]
  rfl

theorem goes_neg (hop : instr.op = .neg) {x : Int64}
    (hx : frame.registers[instr.b.toNat]? = some (.int x))
    (hreg : instr.a.toNat < frame.registers.length) :
    Goes host chunk { frame with
      pc := frame.pc + 1, registers := frame.registers.set instr.a.toNat (.int (-x)) } rest vm := by
  refine goes_of_write h hinstr ?_ rfl hreg
  unfold exec
  rw [hop]
  dsimp only
  rw [runFrom_bind, runFrom_read h.fetched hx]
  rfl

theorem goes_jump (hop : instr.op = .jump) {target : ℕ}
    (htarget : ((frame.pc + 1 + instr.imm.toInt) % 2 ^ 64).toNat = target) :
    Goes host chunk { frame with pc := target } rest vm := by
  obtain ⟨vm', hjump, hon⟩ := runFrom_jump h.fetched htarget
  refine ⟨vm', ?_, hon⟩
  rw [step_of_on h hinstr]
  unfold exec
  rw [hop]
  dsimp only
  rw [hjump]
  rfl

theorem goes_branch_truthy (hop : instr.op = .branch)
    (hv : frame.registers[instr.a.toNat]? = some v) (htruthy : v.isTruthy = true) :
    Goes host chunk { frame with pc := frame.pc + 1 } rest vm := by
  refine ⟨vm.fetched, ?_, h.fetched⟩
  rw [step_of_on h hinstr]
  unfold exec
  rw [hop]
  dsimp only
  rw [runFrom_bind, runFrom_read h.fetched hv]
  dsimp only
  rw [htruthy]
  rfl

theorem goes_branch_falsy (hop : instr.op = .branch)
    (hv : frame.registers[instr.a.toNat]? = some v) (hfalsy : v.isTruthy = false) {target : ℕ}
    (htarget : ((frame.pc + 1 + instr.imm.toInt) % 2 ^ 64).toNat = target) :
    Goes host chunk { frame with pc := target } rest vm := by
  obtain ⟨vm', hjump, hon⟩ := runFrom_jump h.fetched htarget
  refine ⟨vm', ?_, hon⟩
  rw [step_of_on h hinstr]
  unfold exec
  rw [hop]
  dsimp only
  rw [runFrom_bind, runFrom_read h.fetched hv]
  dsimp only
  rw [hfalsy]
  exact congrArg outcome hjump

/-- A return pops the frame. -/
theorem step_return (hop : instr.op = .return) (hv : frame.registers[instr.a.toNat]? = some v) :
    vm.step host = outcome ((popFrame host v).runFrom vm.fetched) := by
  rw [step_of_on h hinstr]
  unfold exec
  rw [hop]
  dsimp only
  rw [runFrom_bind, runFrom_read h.fetched hv]

end

/-! ## Calls -/

theorem gather_eq (h : On chunk frame rest vm) {base : UInt8} {offset argc : ℕ}
    (hregs : base.toNat + offset + argc ≤ frame.registers.length)
    (hsmall : base.toNat + offset + argc ≤ 256) :
    vm.gather base offset argc = .ok ((frame.registers.drop (base.toNat + offset)).take argc) := by
  induction argc generalizing offset with
  | zero => rfl
  | succ argc ih =>
    have hlt : base.toNat + offset < frame.registers.length := by omega
    have hreg : regAt base offset = .ok (UInt8.ofNat (base.toNat + offset)) := if_pos (by omega)
    have hindex : (UInt8.ofNat (base.toNat + offset)).toNat = base.toNat + offset := by
      rw [UInt8.toNat_ofNat']
      omega
    have hget : vm.getReg (UInt8.ofNat (base.toNat + offset)) =
        .ok frame.registers[base.toNat + offset] := by
      unfold getReg
      rw [h.frames_eq]
      dsimp only
      rw [hindex, List.getElem?_eq_getElem hlt]
    rw [gather, hreg]
    simp only [bind, Except.bind, hget]
    rw [ih (by omega) (by omega), List.drop_eq_getElem_cons hlt, List.take_succ_cons]
    rfl

theorem loadArgs_eq {frameSize : UInt8} {i : ℕ} {args registers : List Value}
    (h : args.length ≤ registers.length) :
    loadArgs frameSize i args registers = .ok (args ++ registers.drop args.length) := by
  induction args generalizing i registers with
  | nil => rfl
  | cons a args ih =>
    cases registers with
    | nil => exact absurd h (Nat.not_succ_le_zero _)
    | cons r registers =>
      rw [loadArgs, ih (Nat.le_of_succ_le_succ h)]
      rfl

/-- How many arguments a call passes on. -/
def passed (instr : Instruction) (callee : FunctionDef) : ℕ :=
  min callee.arity.toNat instr.b.toNat

/-- The frame of a callee: the arguments, and units. -/
def called (instr : Instruction) (callee : FunctionDef) (regs : List Value) : Frame where
  function := instr.imm.toUInt32
  pc := callee.entry.toNat
  registers := (regs.drop instr.a.toNat).take (passed instr callee) ++
    List.replicate (callee.numRegisters.toNat - passed instr callee) .unit
  destReg := some instr.a

/-- A register of a callee. -/
theorem getElem?_called {callee : FunctionDef} {regs : List Value}
    (hregs : instr.a.toNat + instr.b.toNat ≤ regs.length) {r : ℕ} {v : Value}
    (hv : (called instr callee regs).registers[r]? = some v) :
    r < passed instr callee ∧ regs[instr.a.toNat + r]? = some v ∨
      passed instr callee ≤ r ∧ r < callee.numRegisters.toNat ∧ v = .unit := by
  have hlength : ((regs.drop instr.a.toNat).take (passed instr callee)).length =
      passed instr callee := by
    rw [List.length_take, List.length_drop]
    unfold passed
    omega
  unfold called at hv
  dsimp only at hv
  rw [List.getElem?_append, hlength] at hv
  split_ifs at hv with hr
  · rw [List.getElem?_take_of_lt hr, List.getElem?_drop] at hv
    exact .inl ⟨hr, hv⟩
  · rw [List.getElem?_replicate] at hv
    split_ifs at hv with hlt
    cases hv
    exact .inr ⟨not_lt.mp hr, by omega, rfl⟩

theorem goes_call (h : On chunk frame rest vm) (hinstr : chunk.code[frame.pc]? = some instr)
    (hop : instr.op = .call) {callee : FunctionDef}
    (hcallee : chunk.function instr.imm.toUInt32 = some callee)
    (harity : callee.arity.toNat ≤ callee.numRegisters.toNat)
    (hdepth : rest.length + 1 < maxCallDepth)
    (hregs : instr.a.toNat + instr.b.toNat ≤ frame.registers.length)
    (hsmall : instr.a.toNat + instr.b.toNat ≤ 256) :
    Goes host chunk (called instr callee frame.registers)
      ({ frame with pc := frame.pc + 1 } :: rest)
      vm := by
  have hgather : vm.fetched.gather instr.a 0 instr.b.toNat =
      .ok ((frame.registers.drop instr.a.toNat).take instr.b.toNat) :=
        gather_eq h.fetched hregs hsmall
  have henter : enter chunk instr.imm.toUInt32
      ((frame.registers.drop instr.a.toNat).take instr.b.toNat) (some instr.a) =
        .ok (called instr callee frame.registers) := by
    have hroom : ((frame.registers.drop instr.a.toNat).take (passed instr callee)).length =
        passed instr callee := by
      rw [List.length_take, List.length_drop]
      unfold passed
      omega
    have hle : passed instr callee ≤ callee.numRegisters.toNat :=
      (Nat.min_le_left _ _).trans harity
    unfold enter
    rw [hcallee]
    dsimp only [Frame.new]
    rw [List.take_take, ← passed, loadArgs_eq (by rw [hroom, List.length_replicate]; exact hle),
      hroom, List.drop_replicate]
    rfl
  have hframes : vm.fetched.frames.length = rest.length + 1 := by
    rw [h.fetched.frames_eq, List.length_cons]
  refine ⟨{ vm.fetched with frames := called instr callee frame.registers :: vm.fetched.frames },
    ?_,
    h.fetched.chunk_eq, congrArg (_ :: ·) h.fetched.frames_eq⟩
  rw [step_of_on h hinstr]
  unfold exec
  rw [hop]
  dsimp only
  unfold call
  rw [runFrom_bind, runFrom_get]
  dsimp only
  rw [if_neg (by omega), h.fetched.chunk_eq, hcallee]
  dsimp only
  rw [runFrom_bind, hgather]
  simp only [trap, runFrom_pure]
  rw [runFrom_bind, henter]
  rfl

/-! ## Runs -/

/-- `n` steps lead from one state to another, and none ends the slice. -/
def StepsTo (host : ℕ → Host) : ℕ → Vm → Vm → Prop
  | 0, vm, vm' => vm' = vm
  | n + 1, vm, vm' =>
    ∃ mid, vm.step (host vm.instructionsExecuted) = (none, mid) ∧ StepsTo host n mid vm'

theorem StepsTo.trans {host : ℕ → Host} {m n : ℕ} {vm₁ vm₂ vm₃ : Vm} (h₁ : StepsTo host m vm₁ vm₂)
    (h₂ : StepsTo host n vm₂ vm₃) : StepsTo host (m + n) vm₁ vm₃ := by
  induction m generalizing vm₁ with
  | zero =>
    obtain rfl := h₁
    rw [Nat.zero_add]
    exact h₂
  | succ m ih =>
    obtain ⟨mid, hstep, h₁⟩ := h₁
    rw [Nat.succ_add]
    exact ⟨mid, hstep, ih h₁⟩

theorem stepsTo_one {host : ℕ → Host} {vm vm' : Vm}
    (h : vm.step (host vm.instructionsExecuted) = (none, vm')) : StepsTo host 1 vm vm' :=
  ⟨vm', h, rfl⟩

/-- What the slice goes on with. -/
theorem StepsTo.run {host : ℕ → Host} {n : ℕ} {vm vm' : Vm} (h : StepsTo host n vm vm') (k : ℕ) :
    run host (n + k) vm = run host k vm' := by
  induction n generalizing vm with
  | zero =>
    obtain rfl := h
    rw [Nat.zero_add]
  | succ n ih =>
    obtain ⟨mid, hstep, h⟩ := h
    rw [Nat.succ_add, Vm.run, hstep]
    exact ih h

theorem StepsTo.run_eq {host : ℕ → Host} {n : ℕ} {vm vm' : Vm} (h : StepsTo host n vm vm') :
    Vm.run host n vm = (.yield, vm') := h.run 0

end Vm

end Byteflow
