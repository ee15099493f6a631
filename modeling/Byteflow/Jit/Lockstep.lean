import Byteflow.Jit.Exits

/-!
# Compiled code beside the interpreter

One instruction of a block and one step of the interpreter, from states in which the code has the
integers of the registers. `Faithful` is what the two need to agree: operands within the frame and
of the kinds that the compiler takes for granted, no division that the hardware refuses, a branch
whose sides are compiled, the return that the trace shares, a callee that starts from zeros and
spares the slots of its caller, no other exit from a callee, and, where an exit writes integers
back, registers that are integers if kinds are asked for. Under it both go the same way
(`exec_follows`).
-/

namespace Byteflow

namespace Jit

open Vm

/-! ## The condition -/

/-- Both operands are integers. -/
def OnIntegers (regs : List Value) (instr : Instruction) (P : Int64 → Int64 → Prop) : Prop :=
  ∃ x y, regs[instr.b.toNat]? = some (.int x) ∧ regs[instr.c.toNat]? = some (.int y) ∧ P x y

/-- Register `a` exists, and the block can hold what is written to it. -/
def Writes (kept : ℕ) (regs : List Value) (instr : Instruction) : Prop :=
  instr.a.toNat < regs.length ∧ instr.a.toNat < kept

/-- Registers whose kinds an exit leaves as they are, if that is asked for. -/
def Demand.Settles (d : Demand) (regs : List Value) : Prop :=
  d = .kinds → ∀ v ∈ regs, ∃ i, v = .int i

/-- The trace may be left: it is in the function that it was entered in. -/
def Demand.Leaves (d : Demand) (regs : List Value) (fr : JitFrame) : Prop :=
  fr.callDepth = 0 ∧ d.Settles regs

/-- A division by zero is faithful: a trap writes no register back. -/
def Demand.Traps (d : Demand) (entry regs : List Value) (fr : JitFrame) : Prop :=
  d ≠ .frames ∧ fr.callDepth = 0 ∧ List.Forall₂ d.OnTrap entry regs

/-- A call from the function that the trace was entered in. The interpreter executes it, and beyond
the arguments the callee finds zeros in its slots. -/
structure Enters (instr : Instruction) (callee : FunctionDef) (frame : Frame) (rest : List Frame)
    (m : RegisterMap Int64) (fr : JitFrame) : Prop where
  outermost : fr.callDepth = 0
  depth : rest.length + 1 < maxCallDepth
  args : instr.a.toNat + instr.b.toNat ≤ min 256 frame.registers.length
  unset : ∀ r, passed instr callee ≤ r → r < callee.numRegisters.toNat →
    view m fr (if r < instr.b.toNat then instr.a.toNat + r else r) = some 0

/-- A callee returns `v`, and has spared the other registers of its caller. -/
def ComesBack (d : Demand) (instr : Instruction) (v : Value) (frame : Frame) (rest : List Frame)
    (fr : JitFrame) : Prop :=
  ∃ caller under dest, rest = caller :: under ∧ frame.destReg = some dest ∧
    dest.toNat < caller.registers.length ∧ d.Settles (caller.registers.set dest.toNat v) ∧
      ∀ (r : ℕ) (w : Value), caller.registers[r]? = some w → r ≠ dest.toNat →
        ∃ i, flat w = some i ∧ (if instr.a.toNat = r then flat v else fr.slots[r]?) = some i

/-- The code of the instruction does what the interpreter does, on these frames of the interpreter,
these values of the block and this frame of the code. The trace was entered with the registers
`entry`. -/
def Faithful (d : Demand) (ctx : EmitContext) (entry : List Value) (returnReg pc : UInt32)
    (instr : Instruction) (frame : Frame) (rest : List Frame) (m : RegisterMap Int64)
    (fr : JitFrame) : Prop :=
  let regs := frame.registers
  match instr.op with
  | .loadImm | .loadConst => Writes m.length regs instr
  | .move => Writes m.length regs instr ∧ instr.b.toNat < regs.length
  | .add | .sub | .mul | .lt | .le =>
    Writes m.length regs instr ∧ OnIntegers regs instr fun _ _ => True
  | .div =>
    Writes m.length regs instr ∧ OnIntegers regs instr fun x y =>
      ¬(x = Int64.minValue ∧ y = -1) ∧ (y = 0 → d.Traps entry regs fr)
  | .mod =>
    Writes m.length regs instr ∧ OnIntegers regs instr fun _ y => y = 0 → d.Traps entry regs fr
  | .eq =>
    Writes m.length regs instr ∧ ∃ v w, regs[instr.b.toNat]? = some v ∧
      regs[instr.c.toNat]? = some w ∧ (flat v = flat w → v = w)
  | .neg => Writes m.length regs instr ∧ ∃ x, regs[instr.b.toNat]? = some (.int x)
  | .jump => ctx.pcToBlock (jumpTarget pc instr.imm) = false → d.Leaves regs fr
  | .branch =>
    ∃ v, regs[instr.a.toNat]? = some v ∧
      (v.isTruthy = true → ctx.pcToBlock (pc + 1) = false →
        ctx.pcToBlock (jumpTarget pc instr.imm) = false → pc + 1 = jumpTarget pc instr.imm) ∧
      (ctx.pcToBlock (if v.isTruthy then pc + 1 else jumpTarget pc instr.imm) = false →
        d.Leaves regs fr)
  | .return =>
    ∃ v, regs[instr.a.toNat]? = some v ∧
      if fr.callDepth = 0 then
        (d = .kinds → ∃ i, v = .int i) ∧
          (ctx.supportsCalls = false → returnReg.toNat < regs.length ∧
            (returnReg.toNat = instr.a.toNat ∨ fr.slots[returnReg.toNat]? = flat v))
      else ComesBack d instr v frame rest fr
  | .call =>
    ∀ callee, ctx.chunk.function instr.imm.toUInt32 = some callee →
      if ctx.pcToBlock callee.entry then Enters instr callee frame rest m fr
      else d.Leaves regs fr
  | _ => True

/-! ## Where the two are -/

/-- The record of a call from `caller`, for a result in `dest`. -/
structure CalledFrom (caller : Frame) (dest : UInt8) (fr : JitFrame) : Prop where
  depth : fr.callDepth = 1
  record : ∃ r, fr.callStack[0]? = some r ∧ r.returnPc.toNat = caller.pc ∧
    r.destReg = dest.toUInt32

/-- The code is in the function that the trace was entered in, or in a callee of it. -/
inductive Stands (calls : Bool) (frame₀ : Frame) (rest₀ : List Frame) :
    Frame → List Frame → JitFrame → Prop
  | entry {frame : Frame} {fr : JitFrame} (hcall : SameCall frame frame₀)
      (hdepth : fr.callDepth = 0) (hstack : 0 < fr.callStack.length) :
      Stands calls frame₀ rest₀ frame rest₀ fr
  | callee {frame caller : Frame} {dest : UInt8} {fr : JitFrame} (hcalls : calls = true)
      (hcall : SameCall caller frame₀) (hdest : frame.destReg = some dest)
      (hfrom : CalledFrom caller dest fr) : Stands calls frame₀ rest₀ frame (caller :: rest₀) fr

/-- The interpreter goes on with the same call, whose integers the code has. -/
structure GoesOn (host : Host) (chunk : Chunk) (frame : Frame) (rest : List Frame) (vm : Vm)
    (pc kept : ℕ) (m : RegisterMap Int64) (fr : JitFrame) (frame' : Frame) : Prop where
  goes : Goes host chunk frame' rest vm
  pc : frame'.pc = pc
  call : SameCall frame' frame
  mirrors : Mirrors kept frame'.registers m fr

/-- The step of the interpreter for each way that the code of an instruction ends. -/
inductive StepFollows (d : Demand) (host : Host) (chunk : Chunk) (ctx : EmitContext)
    (returnReg pc : UInt32) (instr : Instruction) (kept : ℕ) (frame₀ : Frame) (rest₀ : List Frame)
    (frame : Frame) (rest : List Frame) (vm : Vm) (fr₀ : JitFrame) : Step → Prop
  | next {m : RegisterMap Int64} {fr : JitFrame} {frame' : Frame} (honly : fr₀.SlotsOnly fr)
      (h : GoesOn host chunk frame rest vm (frame.pc + 1) kept m fr frame') :
      StepFollows d host chunk ctx returnReg pc instr kept frame₀ rest₀ frame rest vm fr₀
        (.next m fr)
  | region {target : UInt32} {fr : JitFrame} {frame' : Frame} (honly : fr₀.SlotsOnly fr)
      (h : GoesOn host chunk frame rest vm target.toNat kept (RegisterMap.new kept) fr frame') :
      StepFollows d host chunk ctx returnReg pc instr kept frame₀ rest₀ frame rest vm fr₀
        (.stop (.jump (.region target) fr))
  | leaves {fr : JitFrame} {frame' : Frame} {target : UInt32}
      (h : GoesOn host chunk frame rest vm target.toNat kept (RegisterMap.new kept) fr frame')
      (hleaves : d.Leaves frame'.registers fr₀) :
      StepFollows d host chunk ctx returnReg pc instr kept frame₀ rest₀ frame rest vm fr₀
        (.stop (.returned (fr.exit jitContinue target 0)))
  /-- A call that the interpreter is to execute. -/
  | refuses {fr : JitFrame} (hop : instr.op = .call)
      (h : Mirrors kept frame.registers (RegisterMap.new kept) fr)
      (hleaves : d.Leaves frame.registers fr₀) :
      StepFollows d host chunk ctx returnReg pc instr kept frame₀ rest₀ frame rest vm fr₀
        (.stop (.returned (fr.exit jitContinue pc 0)))
  /-- A call that the code executes. -/
  | enters {target : UInt32} {fr : JitFrame} {frame' caller : Frame}
      (hgoes : Goes host chunk frame' (caller :: rest) vm) (hpc : frame'.pc = target.toNat)
      (hstands : Stands ctx.supportsCalls frame₀ rest₀ frame' (caller :: rest) fr)
      (hmirrors : Mirrors kept frame'.registers (RegisterMap.new kept) fr) :
      StepFollows d host chunk ctx returnReg pc instr kept frame₀ rest₀ frame rest vm fr₀
        (.stop (.jump (.region target) fr))
  /-- A return from a callee. -/
  | comesBack {fr : JitFrame} {frame' : Frame} {target : UInt32}
      (hgoes : Goes host chunk frame' rest₀ vm) (hpc : frame'.pc = target.toNat)
      (hcall : SameCall frame' frame₀) (hsettles : d.Settles frame'.registers)
      (hmirrors : Mirrors kept frame'.registers (RegisterMap.new kept) fr) :
      StepFollows d host chunk ctx returnReg pc instr kept frame₀ rest₀ frame rest vm fr₀
        (.stop (.returned (fr.exit jitContinue target 0)))
  | trap {fr : JitFrame} (htraps : d.Traps frame₀.registers frame.registers fr₀)
      (h : vm.step host = (some (.trap .divideByZero), vm.fetched)) :
      StepFollows d host chunk ctx returnReg pc instr kept frame₀ rest₀ frame rest vm fr₀
        (.stop (.jump .trap fr))
  /-- A return through the exit that the returns of the trace share. -/
  | shared {fr : JitFrame} {v : Value} {i : Int64} (hdepth : fr₀.callDepth = 0)
      (hv : flat v = some i) (hkinds : d = .kinds → ∃ j, v = .int j)
      (h : vm.step host = outcome ((popFrame host v).runFrom vm.fetched))
      (hreg : returnReg.toNat < frame.registers.length)
      (hslot : fr.slots[returnReg.toNat]? = some i) :
      StepFollows d host chunk ctx returnReg pc instr kept frame₀ rest₀ frame rest vm fr₀
        (.stop (.jump .return fr))
  | returns {fr : JitFrame} {v : Value} {i : Int64} (hdepth : fr₀.callDepth = 0)
      (hv : flat v = some i) (hkinds : d = .kinds → ∃ j, v = .int j)
      (h : vm.step host = outcome ((popFrame host v).runFrom vm.fetched))
      (hreg : instr.a.toNat < frame.registers.length)
      (hslot : fr.slots[instr.a.toNat]? = some i) :
      StepFollows d host chunk ctx returnReg pc instr kept frame₀ rest₀ frame rest vm fr₀
        (.stop (.returned (fr.exit jitReturn pc instr.a.toUInt32)))

theorem SameCall.trans {frame₁ frame₂ frame₃ : Frame} (h₁ : SameCall frame₁ frame₂)
    (h₂ : SameCall frame₂ frame₃) : SameCall frame₁ frame₃ :=
  ⟨h₁.function.trans h₂.function, h₁.destReg.trans h₂.destReg, h₁.length.trans h₂.length⟩

section

variable {calls : Bool} {frame₀ frame frame' : Frame} {rest₀ rest : List Frame} {fr fr' : JitFrame}

theorem Stands.goOn (h : Stands calls frame₀ rest₀ frame rest fr) (hcall : SameCall frame' frame)
    (honly : fr.SlotsOnly fr') : Stands calls frame₀ rest₀ frame' rest fr' := by
  obtain ⟨slots, -, rfl⟩ := honly
  cases h with
  | entry hcall' hdepth hstack => exact .entry (hcall.trans hcall') hdepth hstack
  | callee hcalls hcall' hdest hfrom =>
    exact .callee hcalls hcall' (hcall.destReg.trans hdest) ⟨hfrom.depth, hfrom.record⟩

/-- Nothing of it depends on the budget. -/
theorem Stands.ticked (h : Stands calls frame₀ rest₀ frame rest fr) :
    Stands calls frame₀ rest₀ frame rest { fr with budget := fr.budget - 1 } := by
  cases h with
  | entry hcall hdepth hstack => exact .entry hcall hdepth hstack
  | callee hcalls hcall hdest hfrom => exact .callee hcalls hcall hdest ⟨hfrom.depth, hfrom.record⟩

theorem Stands.outermost (h : Stands calls frame₀ rest₀ frame rest fr) (hdepth : fr.callDepth = 0) :
    rest = rest₀ ∧ SameCall frame frame₀ ∧ 0 < fr.callStack.length := by
  cases h with
  | entry hcall hdepth hstack => exact ⟨rfl, hcall, hstack⟩
  | callee hcalls hcall hdest hfrom =>
    rw [hfrom.depth] at hdepth
    cases hdepth

end

/-! ## Program counters -/

/-- The compiler and the interpreter agree on the targets of a verified chunk. -/
theorem jumpTarget_eq {chunk : Chunk} {trust : TrustLevel} {pc : UInt32} {instr : Instruction}
    (hverify : chunk.verifyWith trust = .ok ()) (hlength : chunk.code.length < 2 ^ 32)
    (hinstr : chunk.code[pc.toNat]? = some instr) (hop : instr.op = .jump ∨ instr.op = .branch) :
    (((pc.toNat : ℤ) + 1 + instr.imm.toInt) % 2 ^ 64).toNat = (jumpTarget pc instr.imm).toNat := by
  obtain ⟨hlow, hhigh⟩ := (Chunk.operand_of_verify hverify hinstr).2.2 hop
  obtain ⟨t, ht⟩ := Int.eq_ofNat_of_zero_le hlow
  have hbound : t < 2 ^ 32 := by omega
  unfold jumpTarget
  rw [ht]
  have hjump : (UInt32.ofBitVec (BitVec.ofInt 32 (t : ℤ))).toNat = t := by
    show (BitVec.ofInt 32 (t : ℤ)).toNat = t
    rw [BitVec.ofInt_natCast, BitVec.toNat_ofNat]
    omega
  rw [hjump]
  omega

/-! ## Instructions -/

section

variable {d : Demand} {host : Host} {chunk : Chunk} {ctx : EmitContext} {returnReg pc : UInt32}
  {instr : Instruction} {kept : ℕ} {frame₀ frame : Frame} {rest₀ rest : List Frame} {vm : Vm}
  {m : RegisterMap Int64} {fr : JitFrame}

/-- A store into register `a`, and on to the next instruction. -/
theorem follows_store {fr₀ : JitFrame} {v : Value} {i : Int64} (honly : fr₀.SlotsOnly fr)
    (hv : flat v = some i) (hreg : instr.a.toNat < kept)
    (hgoes : Goes host chunk { frame with
      pc := frame.pc + 1, registers := frame.registers.set instr.a.toNat v } rest vm)
    (hmirrors : Mirrors kept frame.registers m fr) :
    StepFollows d host chunk ctx returnReg pc instr kept frame₀ rest₀ frame rest vm fr₀
      (.next (m.set instr.a i) fr) :=
  .next honly ⟨hgoes, rfl, ⟨rfl, rfl, List.length_set⟩, hmirrors.set hreg hv⟩

/-- Both operands. -/
theorem read_operands (h : Mirrors kept frame.registers m fr) {v w : Value}
    (hv : frame.registers[instr.b.toNat]? = some v)
    (hw : frame.registers[instr.c.toNat]? = some w) :
    ∃ x y m', flat v = some x ∧ flat w = some y ∧ readOperands m fr instr = some (x, y, m') ∧
      Mirrors kept frame.registers m' fr := by
  obtain ⟨x, hx, hlhs, h'⟩ := h.read hv
  obtain ⟨y, hy, hrhs, h''⟩ := h'.read hw
  refine ⟨x, y, _, hx, hy, ?_, h''⟩
  unfold readOperands
  simp [hlhs, hrhs]

variable (hon : On chunk frame rest vm) (hinstr : chunk.code[frame.pc]? = some instr)
  (hmirrors : Mirrors kept frame.registers m fr)

include hon hinstr hmirrors

theorem follows_binary {op : Binary} (hop : Numeric instr.op)
    (hwrites : Writes kept frame.registers instr) {x y z : Int64}
    (hx : frame.registers[instr.b.toNat]? = some (.int x))
    (hy : frame.registers[instr.c.toNat]? = some (.int y)) (hnative : op.eval x y = some z)
    (hvalue : numericBinop instr.op (.int x) (.int y) = .ok (.int z)) :
    StepFollows d host chunk ctx returnReg pc instr kept frame₀ rest₀ frame rest vm fr
      (execBinary op instr m fr) := by
  obtain ⟨x', y', m', hx', hy', hread, hmirrors'⟩ := read_operands hmirrors hx hy
  cases hx'
  cases hy'
  unfold execBinary
  rw [hread]
  dsimp only
  rw [hnative]
  exact follows_store (.refl fr) rfl hwrites.2
    (goes_numeric hon hinstr hop hx hy hvalue rfl hwrites.1) hmirrors'

theorem follows_compare {cc : IntCC} (hop : Numeric instr.op)
    (hwrites : Writes kept frame.registers instr) {v w : Value} {b : Bool}
    (hv : frame.registers[instr.b.toNat]? = some v)
    (hw : frame.registers[instr.c.toNat]? = some w)
    (hvalue : numericBinop instr.op v w = .ok (.bool b))
    (hnative : ∀ x y, flat v = some x → flat w = some y → cc.holds x.toInt y.toInt = b) :
    StepFollows d host chunk ctx returnReg pc instr kept frame₀ rest₀ frame rest vm fr
      (execCompare cc instr m fr) := by
  obtain ⟨x, y, m', hx, hy, hread, hmirrors'⟩ := read_operands hmirrors hv hw
  unfold execCompare
  rw [hread]
  dsimp only
  rw [hnative x y hx hy]
  have hflat : flat (.bool b) = some (if b = true then 1 else 0) := rfl
  exact follows_store (.refl fr) hflat hwrites.2
    (goes_numeric hon hinstr hop hv hw hvalue hflat hwrites.1) hmirrors'

/-- A division: its flush, its test for zero, and its quotient. -/
theorem follows_division {op : Binary} (hop : Numeric instr.op)
    (hwrites : Writes kept frame.registers instr) {x y : Int64}
    (hx : frame.registers[instr.b.toNat]? = some (.int x))
    (hy : frame.registers[instr.c.toNat]? = some (.int y))
    (hzero : y = 0 → d.Traps frame₀.registers frame.registers fr)
    (hfault : y = 0 → numericBinop instr.op (.int x) (.int y) = .error .divideByZero)
    (hvalue : y ≠ 0 → ∃ z, op.eval x y = some z ∧
      numericBinop instr.op (.int x) (.int y) = .ok (.int z)) :
    StepFollows d host chunk ctx returnReg pc instr kept frame₀ rest₀ frame rest vm fr
      (execDivision op instr m fr) := by
  obtain ⟨x', y', m', hx', hy', hread, hmirrors'⟩ := read_operands hmirrors hx hy
  cases hx'
  cases hy'
  obtain ⟨fr', hflush, honly, hheld, -⟩ := hmirrors'.flush
  unfold execDivision
  rw [hread]
  dsimp only
  rw [hflush]
  dsimp only
  split_ifs with h0
  · exact .trap (hzero h0) (traps_numeric hon hinstr hop hx hy (hfault h0))
  · obtain ⟨z, hnative, hz⟩ := hvalue h0
    rw [hnative]
    exact follows_store honly rfl hwrites.2 (goes_numeric hon hinstr hop hx hy hz rfl hwrites.1)
      hheld

omit hon hinstr hmirrors in
/-- Control goes to a block of the trace, or leaves it. -/
theorem follows_goTo {fr₀ : JitFrame} {target : UInt32} {frame' : Frame} (honly : fr₀.SlotsOnly fr)
    (h : GoesOn host chunk frame rest vm target.toNat kept (RegisterMap.new kept) fr frame')
    (hleaves : ctx.pcToBlock target = false → d.Leaves frame'.registers fr₀) :
    StepFollows d host chunk ctx returnReg pc instr kept frame₀ rest₀ frame rest vm fr₀
      (.stop (goTo ctx target fr)) := by
  unfold goTo
  cases hblock : ctx.pcToBlock target with
  | true => exact .region honly h
  | false => exact .leaves h (hleaves hblock)

theorem follows_jump (hop : instr.op = .jump) {target : UInt32}
    (htarget : ((frame.pc + 1 + instr.imm.toInt) % 2 ^ 64).toNat = target.toNat)
    (hleaves : ctx.pcToBlock target = false → d.Leaves frame.registers fr) :
    StepFollows d host chunk ctx returnReg pc instr kept frame₀ rest₀ frame rest vm fr
      (.stop (inBounds (flushSlots 0 m fr) (goTo ctx target))) := by
  obtain ⟨fr', hflush, honly, -, -, hslots⟩ := hmirrors.flush
  have hgoes : GoesOn host chunk frame rest vm target.toNat kept (RegisterMap.new kept) fr'
      { frame with pc := target.toNat } :=
    ⟨goes_jump hon hinstr hop htarget, rfl, ⟨rfl, rfl, rfl⟩, hslots⟩
  rw [hflush]
  exact follows_goTo honly hgoes hleaves

omit hon hinstr hmirrors in
/-- The test of a branch. -/
theorem isTruthy_iff {v : Value} {i : Int64} (h : flat v = some i) :
    v.isTruthy = true ↔ i ≠ 0 := by
  cases v with
  | int j =>
    cases h
    simp [Value.isTruthy]
  | bool b =>
    cases h
    cases b <;> decide
  | unit =>
    cases h
    decide
  | _ => cases h

theorem follows_branch (hop : instr.op = .branch) {v : Value}
    (hv : frame.registers[instr.a.toNat]? = some v)
    (hfall : frame.pc + 1 = (pc + 1).toNat)
    (htarget : ((frame.pc + 1 + instr.imm.toInt) % 2 ^ 64).toNat =
      (jumpTarget pc instr.imm).toNat)
    (hsides : v.isTruthy = true → ctx.pcToBlock (pc + 1) = false →
      ctx.pcToBlock (jumpTarget pc instr.imm) = false → pc + 1 = jumpTarget pc instr.imm)
    (hleaves : ctx.pcToBlock (if v.isTruthy then pc + 1 else jumpTarget pc instr.imm) = false →
      d.Leaves frame.registers fr) :
    StepFollows d host chunk ctx returnReg pc instr kept frame₀ rest₀ frame rest vm fr
      (.stop (execBranch ctx pc instr m fr)) := by
  obtain ⟨i, hflat, hread, hmirrors'⟩ := hmirrors.read hv
  obtain ⟨fr', hflush, honly, -, -, hslots⟩ := hmirrors'.flush
  unfold execBranch
  rw [hread]
  dsimp only [inBounds]
  rw [hflush]
  dsimp only
  cases htruthy : v.isTruthy with
  | true =>
    rw [htruthy, if_pos rfl] at hleaves
    have hgoes : GoesOn host chunk frame rest vm (pc + 1).toNat kept (RegisterMap.new kept) fr'
        { frame with pc := frame.pc + 1 } :=
      ⟨goes_branch_truthy hon hinstr hop hv htruthy, hfall, ⟨rfl, rfl, rfl⟩, hslots⟩
    rw [if_neg ((isTruthy_iff hflat).mp htruthy)]
    by_cases hout : (!ctx.pcToBlock (pc + 1) && !ctx.pcToBlock (jumpTarget pc instr.imm)) = true
    · rw [if_pos hout]
      simp only [Bool.and_eq_true, Bool.not_eq_true'] at hout
      rw [← hsides htruthy hout.1 hout.2]
      exact .leaves hgoes (hleaves hout.1)
    · rw [if_neg hout]
      exact follows_goTo honly hgoes hleaves
  | false =>
    rw [htruthy, if_neg Bool.false_ne_true] at hleaves
    have hgoes : GoesOn host chunk frame rest vm (jumpTarget pc instr.imm).toNat kept
        (RegisterMap.new kept) fr' { frame with pc := (jumpTarget pc instr.imm).toNat } :=
      ⟨goes_branch_falsy hon hinstr hop hv htruthy htarget, rfl, ⟨rfl, rfl, rfl⟩, hslots⟩
    have hzero : i = 0 := by
      by_contra hne
      rw [(isTruthy_iff hflat).mpr hne] at htruthy
      cases htruthy
    rw [if_pos hzero]
    by_cases hout : (!ctx.pcToBlock (pc + 1) && !ctx.pcToBlock (jumpTarget pc instr.imm)) = true
    · rw [if_pos hout]
      simp only [Bool.and_eq_true, Bool.not_eq_true'] at hout
      exact .leaves hgoes (hleaves hout.2)
    · rw [if_neg hout]
      exact follows_goTo honly hgoes hleaves

/-! ## Returns and calls -/

/-- A return from the function that the trace was entered in. -/
theorem follows_return (hop : instr.op = .return) (hdepth : fr.callDepth = 0) {v : Value}
    (hv : frame.registers[instr.a.toNat]? = some v) (hkinds : d = .kinds → ∃ j, v = .int j)
    (hshared : ctx.supportsCalls = false → returnReg.toNat < frame.registers.length ∧
      (returnReg.toNat = instr.a.toNat ∨ fr.slots[returnReg.toNat]? = flat v)) :
    StepFollows d host chunk ctx returnReg pc instr kept frame₀ rest₀ frame rest vm fr
      (.stop <| inBounds (readReg m fr instr.a) fun v =>
        inBounds (fr.store instr.a.toNat v) fun fr =>
        if ctx.supportsCalls then execReturn pc instr.a fr
        else .jump .return { fr with pc := pc }) := by
  obtain ⟨i, hflat, hread, -⟩ := hmirrors.read hv
  have hreg : instr.a.toNat < frame.registers.length := (List.getElem?_eq_some_iff.mp hv).1
  obtain ⟨fr', hstore⟩ := JitFrame.exists_store i (hreg.trans_le hmirrors.length_le)
  have hslots := slots_store hstore
  have hstep : vm.step host = outcome ((popFrame host v).runFrom vm.fetched) :=
    step_return hon hinstr hop hv
  obtain ⟨slots, -, rfl⟩ := JitFrame.slotsOnly_of_store hstore
  rw [hread]
  dsimp only [inBounds]
  rw [hstore]
  dsimp only
  cases hcalls : ctx.supportsCalls with
  | true =>
    rw [if_pos rfl]
    unfold execReturn
    rw [if_pos hdepth]
    exact .returns hdepth hflat hkinds hstep hreg (by rw [hslots, if_pos rfl])
  | false =>
    obtain ⟨hlt, hsame⟩ := hshared hcalls
    rw [if_neg Bool.false_ne_true]
    refine .shared hdepth hflat hkinds hstep hlt ?_
    show slots[returnReg.toNat]? = some i
    rw [hslots]
    split_ifs with heq
    · rfl
    · rw [hsame.resolve_left (Ne.symm heq), hflat]

/-- A return from a callee. -/
theorem follows_comesBack (hkept : frame₀.registers.length = kept) (hop : instr.op = .return)
    (hstands : Stands ctx.supportsCalls frame₀ rest₀ frame rest fr) (hdepth : fr.callDepth ≠ 0)
    {v : Value} (hv : frame.registers[instr.a.toNat]? = some v)
    (hback : ComesBack d instr v frame rest fr) :
    StepFollows d host chunk ctx returnReg pc instr kept frame₀ rest₀ frame rest vm fr
      (.stop <| inBounds (readReg m fr instr.a) fun v =>
        inBounds (fr.store instr.a.toNat v) fun fr =>
        if ctx.supportsCalls then execReturn pc instr.a fr
        else .jump .return { fr with pc := pc }) := by
  cases hstands with
  | entry _ hdepth' => exact absurd hdepth' hdepth
  | @callee caller dest _ hcalls hcall hdest hfrom =>
    obtain ⟨caller', under, dest', hrest, hdest', hlt, hsettles, hspared⟩ := hback
    cases hrest
    cases hdest.symm.trans hdest'
    obtain ⟨r, hr, hpc, hdestReg⟩ := hfrom.record
    obtain ⟨i, hflat, hread, -⟩ := hmirrors.read hv
    have hreg : instr.a.toNat < frame.registers.length := (List.getElem?_eq_some_iff.mp hv).1
    obtain ⟨fr₁, hstore⟩ := JitFrame.exists_store i (hreg.trans_le hmirrors.length_le)
    have hslots := slots_store hstore
    obtain ⟨slots₁, hlength, rfl⟩ := JitFrame.slotsOnly_of_store hstore
    have hslot : r.destReg.toNat = dest.toNat := by rw [hdestReg, UInt8.toNat_toUInt32]
    have hroom : dest.toNat < slots₁.length := by
      rw [hlength]
      rw [hcall.length, hkept] at hlt
      exact hlt.trans_le hmirrors.room
    have hgoes := goes_return (h := host) hon hinstr hop hv hflat hdest hlt
    rw [hread]
    dsimp only [inBounds]
    rw [hstore, hcalls]
    dsimp only
    rw [if_pos rfl]
    unfold execReturn
    dsimp only
    rw [if_neg hdepth, hfrom.depth]
    dsimp only [inBounds]
    have htop : ((1 : UInt32) - 1).toNat = 0 := rfl
    have hvalue : slots₁[instr.a.toNat]? = some i := (hslots _).trans (if_pos rfl)
    have hcallee : r.destReg.toNat < slots₁.length := by
      rw [hslot]
      exact hroom
    rw [htop, hr]
    dsimp only
    rw [hvalue]
    dsimp only
    unfold JitFrame.store
    rw [if_pos hcallee, hslot]
    dsimp only
    refine .comesBack hgoes hpc.symm ⟨hcall.function, hcall.destReg, ?_⟩ hsettles ?_
    · exact List.length_set.trans hcall.length
    refine ⟨List.length_replicate, hmirrors.small, ?_, ?_⟩
    · rw [List.length_set, hlength]
      exact hmirrors.room
    intro s w hw
    rw [view_new]
    by_cases hs : dest.toNat = s
    · subst hs
      rw [List.getElem?_set_self hlt] at hw
      cases hw
      exact ⟨i, hflat, List.getElem?_set_self hroom⟩
    · rw [List.getElem?_set_ne hs] at hw
      obtain ⟨j, hj, hsame⟩ := hspared s w hw (Ne.symm hs)
      refine ⟨j, hj, ?_⟩
      dsimp only
      rw [List.getElem?_set_ne hs]
      rw [hflat] at hsame
      exact (hslots s).trans hsame

omit hon hinstr in
/-- A call that the interpreter is to execute. -/
theorem follows_refused {callee : FunctionDef} (hop : instr.op = .call)
    (hrefused : ctx.pcToBlock callee.entry = false) (hleaves : d.Leaves frame.registers fr) :
    StepFollows d host chunk ctx returnReg pc instr kept frame₀ rest₀ frame rest vm fr
      (.stop (execCall ctx pc instr callee m fr)) := by
  obtain ⟨fr', hflush, -, -, -, hslots⟩ := hmirrors.flush
  unfold execCall
  rw [hflush]
  dsimp only [inBounds]
  rw [hrefused]
  exact .refuses hop hslots hleaves

omit hon hinstr in
/-- The slots of a callee, after the copies. -/
theorem mirrors_called {callee : FunctionDef} {fr' : JitFrame}
    (henters : Enters instr callee frame rest m fr) (hroom : kept ≤ fr'.slots.length)
    (hslots : ∀ r, fr'.slots[r]? =
      view m fr (if r < instr.b.toNat then instr.a.toNat + r else r)) :
    Mirrors kept (called instr callee frame.registers).registers (RegisterMap.new kept) fr' := by
  have hargs := henters.args
  refine ⟨List.length_replicate, hmirrors.small, hroom, fun r v hv => ?_⟩
  rw [view_new, hslots]
  rcases getElem?_called (by omega) hv with ⟨hr, hv⟩ | ⟨hr, hlt, rfl⟩
  · have hpassed : r < instr.b.toNat := hr.trans_le (Nat.min_le_right _ _)
    rw [if_pos hpassed]
    exact hmirrors.integer _ v hv
  · exact ⟨0, rfl, henters.unset r hr hlt⟩

/-- A call that the code executes. -/
theorem follows_enters {callee : FunctionDef} (hop : instr.op = .call)
    (hcallee : chunk.function instr.imm.toUInt32 = some callee)
    (harity : callee.arity.toNat ≤ callee.numRegisters.toNat) (hcalls : ctx.supportsCalls = true)
    (hpc : (pc + 1).toNat = frame.pc + 1) (hblock : ctx.pcToBlock callee.entry = true)
    (hstands : Stands ctx.supportsCalls frame₀ rest₀ frame rest fr)
    (henters : Enters instr callee frame rest m fr) :
    StepFollows d host chunk ctx returnReg pc instr kept frame₀ rest₀ frame rest vm fr
      (.stop (execCall ctx pc instr callee m fr)) := by
  obtain ⟨rfl, hcall, hstack⟩ := hstands.outermost henters.outermost
  have hargs := henters.args
  have hgoes : Goes host chunk (called instr callee frame.registers)
      ({ frame with pc := frame.pc + 1 } :: rest) vm :=
    goes_call hon hinstr hop hcallee harity henters.depth (by omega) (by omega)
  obtain ⟨fr₁, hflush, honly, -, hview, hmirrors₁⟩ := hmirrors.flush
  have hregs := hmirrors₁.length_le
  obtain ⟨slots₁, hlength, rfl⟩ := honly
  unfold execCall
  rw [hflush]
  dsimp only [inBounds]
  rw [hblock, henters.outermost]
  have hshallow : ¬(maxJitCallDepth : ℤ) ≤ (0 : UInt32).toInt32.toInt := by decide
  have htop : (0 : UInt32).toNat = 0 := rfl
  rw [if_neg (by decide), if_neg hshallow, htop, List.getElem?_eq_getElem hstack]
  dsimp only
  set fr₂ : JitFrame := { fr with
    slots := slots₁
    callDepth := 0 + 1
    callStack := fr.callStack.set 0
      ⟨pc + 1, fr.function, instr.a.toUInt32, fr.registerCount⟩ } with hfr₂
  dsimp only at hregs hview
  have hroom₂ : instr.a.toNat + 0 + instr.b.toNat ≤ fr₂.slots.length := by
    rw [hfr₂]
    dsimp only
    omega
  have hsmall₂ : instr.a.toNat + 0 + instr.b.toNat ≤ 256 := by omega
  obtain ⟨fr₃, hcopy, honly₃, hslots₃⟩ := slots_copy hroom₂ hsmall₂
  obtain ⟨slots₃, hlength₃, rfl⟩ := honly₃
  rw [hcopy]
  dsimp only
  have hkept : kept ≤ slots₃.length := by
    rw [hlength₃]
    exact hmirrors₁.room
  have hview₃ : ∀ r, slots₃[r]? =
      view m fr (if r < instr.b.toNat then instr.a.toNat + r else r) := by
    intro r
    rw [← hview]
    simpa using hslots₃ r
  refine .enters hgoes rfl ?_ (mirrors_called hmirrors henters hkept hview₃)
  have hcaller : SameCall { frame with pc := frame.pc + 1 } frame₀ :=
    ⟨hcall.function, hcall.destReg, hcall.length⟩
  exact .callee hcalls hcaller rfl ⟨rfl, ⟨_, List.getElem?_set_self hstack, hpc, rfl⟩⟩

end

theorem numericBinop_eq {v w : Value} {x y : Int64} (hx : flat v = some x) (hy : flat w = some y)
    (h : flat v = flat w → v = w) :
    numericBinop .eq v w = .ok (.bool (IntCC.equal.holds x.toInt y.toInt)) := by
  have heq : v.eq w = decide (v = w) := by
    cases v with
    | float _ => cases hx
    | message _ _ _ _ _ => cases hx
    | _ => rfl
  have hiff : v = w ↔ x = y := by
    constructor
    · rintro rfl
      exact Option.some.inj (hx.symm.trans hy)
    · intro hxy
      exact h (by rw [hx, hy, hxy])
  show Except.ok (Value.bool (v.eq w)) = _
  rw [heq]
  simp only [IntCC.holds, Int64.toInt_inj, hiff]

/-- **One instruction of both.** -/
theorem exec_follows {d : Demand} {host : Host} {chunk : Chunk} {trust : TrustLevel}
    {ctx : EmitContext} {returnReg pc : UInt32} {instr : Instruction} {kept : ℕ}
    {frame₀ frame : Frame} {rest₀ rest : List Frame} {vm : Vm} {m : RegisterMap Int64}
    {fr : JitFrame} (hverify : chunk.verifyWith trust = .ok ())
    (hlength : chunk.code.length < 2 ^ 32) (hchunk : ctx.chunk = chunk)
    (hkept : frame₀.registers.length = kept) (hon : On chunk frame rest vm)
    (hpc : frame.pc = pc.toNat) (hinstr : chunk.code[pc.toNat]? = some instr)
    (hrec : recorded chunk instr = true) (hcalls : instr.op = .call → ctx.supportsCalls = true)
    (hmirrors : Mirrors kept frame.registers m fr)
    (hstands : Stands ctx.supportsCalls frame₀ rest₀ frame rest fr)
    (hfaithful : Faithful d ctx frame₀.registers returnReg pc instr frame rest m fr) :
    StepFollows d host chunk ctx returnReg pc instr kept frame₀ rest₀ frame rest vm fr
      (exec ctx pc instr m fr) := by
  have hinstr' : chunk.code[frame.pc]? = some instr := by rw [hpc]; exact hinstr
  unfold Faithful at hfaithful
  rw [hmirrors.length] at hfaithful
  unfold exec
  cases hop : instr.op with
  | nop =>
    exact .next (.refl fr) ⟨goes_nop hon hinstr' hop, rfl, ⟨rfl, rfl, rfl⟩, hmirrors⟩
  | loadImm =>
    rw [hop] at hfaithful
    exact follows_store (.refl fr) rfl hfaithful.2 (goes_loadImm hon hinstr' hop hfaithful.1)
      hmirrors
  | loadConst =>
    rw [hop] at hfaithful
    simp only [recorded, hop, isEffectOpcode, Bool.not_false, bne_self_eq_false, Bool.true_and,
      Bool.false_or] at hrec
    obtain ⟨n, hn⟩ := Option.isSome_iff_exists.mp hrec
    obtain ⟨v, hv, hscalar⟩ := Option.bind_eq_some_iff.mp hn
    have hflat : flat v = some n := by
      cases v with
      | int _ => exact hscalar
      | bool _ => exact hscalar
      | _ => cases hscalar
    dsimp only
    rw [hchunk, hn]
    exact follows_store (.refl fr) hflat hfaithful.2
      (goes_loadConst hon hinstr' hop hv hflat hfaithful.1) hmirrors
  | move =>
    rw [hop] at hfaithful
    obtain ⟨hwrites, hsource⟩ := hfaithful
    obtain ⟨v, hv⟩ := exists_register hsource
    obtain ⟨i, hflat, hread, hmirrors'⟩ := hmirrors.read hv
    dsimp only
    rw [hread]
    exact follows_store (.refl fr) hflat hwrites.2
      (goes_move hon hinstr' hop hv hflat hwrites.1) hmirrors'
  | neg =>
    rw [hop] at hfaithful
    obtain ⟨hwrites, x, hx⟩ := hfaithful
    obtain ⟨i, hflat, hread, hmirrors'⟩ := hmirrors.read hx
    cases hflat
    dsimp only
    rw [hread]
    have hneg : flat (.int (-x)) = some (0 - x) := by
      rw [Int64.zero_sub]
      rfl
    exact follows_store (.refl fr) hneg hwrites.2 (goes_neg hon hinstr' hop hx hwrites.1)
      hmirrors'
  | add =>
    rw [hop] at hfaithful
    obtain ⟨hwrites, x, y, hx, hy, -⟩ := hfaithful
    have hnumeric : Numeric instr.op := by simp [Numeric, hop]
    exact follows_binary hon hinstr' hmirrors hnumeric hwrites hx hy rfl (by rw [hop]; rfl)
  | sub =>
    rw [hop] at hfaithful
    obtain ⟨hwrites, x, y, hx, hy, -⟩ := hfaithful
    have hnumeric : Numeric instr.op := by simp [Numeric, hop]
    exact follows_binary hon hinstr' hmirrors hnumeric hwrites hx hy rfl (by rw [hop]; rfl)
  | mul =>
    rw [hop] at hfaithful
    obtain ⟨hwrites, x, y, hx, hy, -⟩ := hfaithful
    have hnumeric : Numeric instr.op := by simp [Numeric, hop]
    exact follows_binary hon hinstr' hmirrors hnumeric hwrites hx hy rfl (by rw [hop]; rfl)
  | eq =>
    rw [hop] at hfaithful
    obtain ⟨hwrites, v, w, hv, hw, hsame⟩ := hfaithful
    have hnumeric : Numeric instr.op := by simp [Numeric, hop]
    obtain ⟨x, hx, -⟩ := hmirrors.integer _ v hv
    obtain ⟨y, hy, -⟩ := hmirrors.integer _ w hw
    have hvalue := numericBinop_eq hx hy hsame
    refine follows_compare hon hinstr' hmirrors hnumeric hwrites hv hw (by rw [hop]; exact hvalue)
      ?_
    intro x' y' hx' hy'
    rw [Option.some.inj (hx.symm.trans hx'), Option.some.inj (hy.symm.trans hy')]
  | lt =>
    rw [hop] at hfaithful
    obtain ⟨hwrites, x, y, hx, hy, -⟩ := hfaithful
    have hnumeric : Numeric instr.op := by simp [Numeric, hop]
    have hvalue : numericBinop instr.op (.int x) (.int y) = .ok (.bool (x < y)) := by
      rw [hop]
      rfl
    refine follows_compare hon hinstr' hmirrors hnumeric hwrites hx hy hvalue ?_
    intro x' y' hx' hy'
    cases hx'
    cases hy'
    simp only [IntCC.holds, Int64.lt_iff_toInt_lt]
  | le =>
    rw [hop] at hfaithful
    obtain ⟨hwrites, x, y, hx, hy, -⟩ := hfaithful
    have hnumeric : Numeric instr.op := by simp [Numeric, hop]
    have hvalue : numericBinop instr.op (.int x) (.int y) = .ok (.bool (x ≤ y)) := by
      rw [hop]
      rfl
    refine follows_compare hon hinstr' hmirrors hnumeric hwrites hx hy hvalue ?_
    intro x' y' hx' hy'
    cases hx'
    cases hy'
    simp only [IntCC.holds, Int64.le_iff_toInt_le]
  | div =>
    rw [hop] at hfaithful
    obtain ⟨hwrites, x, y, hx, hy, hfits, hzero⟩ := hfaithful
    have hnumeric : Numeric instr.op := by simp [Numeric, hop]
    refine follows_division hon hinstr' hmirrors hnumeric hwrites hx hy hzero ?_ ?_
    · intro h0
      rw [hop]
      exact if_pos h0
    · intro h0
      rw [hop]
      exact ⟨x / y, if_neg (not_or.mpr ⟨h0, hfits⟩), if_neg h0⟩
  | mod =>
    rw [hop] at hfaithful
    obtain ⟨hwrites, x, y, hx, hy, hzero⟩ := hfaithful
    have hnumeric : Numeric instr.op := by simp [Numeric, hop]
    refine follows_division hon hinstr' hmirrors hnumeric hwrites hx hy hzero ?_ ?_
    · intro h0
      rw [hop]
      exact if_pos h0
    · intro h0
      rw [hop]
      exact ⟨x % y, if_neg h0, if_neg h0⟩
  | jump =>
    rw [hop] at hfaithful
    have htarget := jumpTarget_eq hverify hlength hinstr (.inl hop)
    rw [← hpc] at htarget
    exact follows_jump hon hinstr' hmirrors hop htarget hfaithful
  | branch =>
    rw [hop] at hfaithful
    obtain ⟨v, hv, hsides, hleaves⟩ := hfaithful
    have htarget := jumpTarget_eq hverify hlength hinstr (.inr hop)
    rw [← hpc] at htarget
    have hfall : frame.pc + 1 = (pc + 1).toNat := by
      rw [toNat_succ_pc hlength hinstr, hpc]
    exact follows_branch hon hinstr' hmirrors hop hv hfall htarget hsides hleaves
  | «return» =>
    rw [hop] at hfaithful
    obtain ⟨v, hv, hexit⟩ := hfaithful
    by_cases hdepth : fr.callDepth = 0
    · rw [if_pos hdepth] at hexit
      obtain ⟨hkinds, hshared⟩ := hexit
      exact follows_return hon hinstr' hmirrors hop hdepth hv hkinds hshared
    · rw [if_neg hdepth] at hexit
      exact follows_comesBack hon hinstr' hmirrors hkept hop hstands hdepth hv hexit
  | call =>
    rw [hop] at hfaithful
    have hindex := (Chunk.operand_of_verify hverify hinstr).2.1 (.inr hop)
    have hcallee : chunk.function instr.imm.toUInt32 =
        some chunk.functions[instr.imm.toUInt32.toNat] := List.getElem?_eq_getElem hindex
    have hcall := hfaithful _ (by rw [hchunk]; exact hcallee)
    have harity := Chunk.arity_of_verify hverify hcallee
    have hnext : (pc + 1).toNat = frame.pc + 1 := by
      rw [toNat_succ_pc hlength hinstr, hpc]
    dsimp only
    rw [hchunk, hcallee]
    dsimp only
    cases hblock : ctx.pcToBlock chunk.functions[instr.imm.toUInt32.toNat].entry with
    | true =>
      rw [hblock, if_pos rfl] at hcall
      exact follows_enters hon hinstr' hmirrors hop hcallee harity (hcalls hop) hnext hblock hstands
        hcall
    | false =>
      rw [hblock, if_neg Bool.false_ne_true] at hcall
      exact follows_refused hmirrors hop hblock hcall
  | _ => simp [recorded, hop, isEffectOpcode] at hrec

end Jit

end Byteflow
