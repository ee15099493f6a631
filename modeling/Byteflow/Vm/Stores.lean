import Byteflow.Vm.Run

/-!
# What an instruction stores

Every instruction that writes a register ends with one store, and so does a return. `Stores` says
which store a step makes; the step of an instruction with a result does nothing else but to report
how it went (`step_of_result`).
-/

namespace Byteflow

namespace Vm

open Exec

variable {host : Host} {vm : Vm} {instr : Instruction}

/-- The value that an instruction writes into its register `a`, if it gets that far. -/
def result (host : Host) (vm : Vm) (instr : Instruction) : Option Value :=
  match instr.op with
  | .loadConst => vm.chunk.constant instr.imm.toUInt32
  | .loadImm => some (.int instr.imm.toInt64)
  | .move => (vm.getReg instr.b).toOption
  | .add | .sub | .mul | .div | .mod | .eq | .lt | .le => do
    let a ← (vm.getReg instr.b).toOption
    let b ← (vm.getReg instr.c).toOption
    (numericBinop instr.op a b).toOption
  | .neg => do
    let v ← (vm.getReg instr.b).toOption
    (negate v).toOption
  | .callNative => do
    let (native, args) ← (vm.nativeCall host instr.imm.toUInt32 instr.b instr.a).toOption
    (native host.tick args).toOption
  | .freshRequestId => some (.int vm.freshRequestId.1.toInt64)
  | _ => none

/-- The flow when the instruction stores its result: a request id may have been drawn. -/
def drawn (vm : Vm) (instr : Instruction) : Vm :=
  if instr.op = .freshRequestId then vm.fetched.freshRequestId.2 else vm.fetched

/-- The store that a step makes, and the state in which it does. -/
inductive Stores (host : Host) (vm : Vm) : Vm → UInt8 → Value → Prop
  | result {instr : Instruction} (hnext : vm.next = some instr) {v : Value}
      (hv : result host vm instr = some v) : Stores host vm (vm.drawn instr) instr.a v
  /-- The value of a function goes to its caller. -/
  | returned {finished : Frame} {rest : List Frame} (hframes : vm.frames = finished :: rest)
      {v : Value} (hv : vm.returned = some v) {dest : UInt8}
      (hdest : finished.destReg = some dest) :
      Stores host vm { vm.counted with frames := rest } dest v

theorem of_toOption {ε α : Type} {r : Except ε α} {a : α} (h : r.toOption = some a) :
    r = .ok a := by
  cases r <;> cases h
  rfl

theorem runFrom_store (host : Host) (reg : UInt8) (v : Value) :
    (write host reg v).runFrom vm =
      (trap (vm.setReg host reg v).1).runFrom (vm.setReg host reg v).2 := by
  unfold write
  rw [runFrom_bind, runFrom_get]
  rfl

theorem freshRequestId_fetched : vm.fetched.freshRequestId.1 = vm.freshRequestId.1 := by
  have hnext : vm.fetched.nextRequestId = vm.nextRequestId := by
    unfold fetched goto
    split <;> rfl
  unfold freshRequestId
  rw [hnext]
  split <;> rfl

theorem exec_numeric (hop : Numeric instr.op) :
    exec host instr = (do
      let a ← read instr.b
      let b ← read instr.c
      write host instr.a (← trap (numericBinop instr.op a b)) : Code Unit) := by
  unfold exec
  simp only [Numeric, List.mem_cons, List.not_mem_nil, or_false] at hop
  rcases hop with hop | hop | hop | hop | hop | hop | hop | hop <;> rw [hop]

/-- Arithmetic that does not fail. -/
theorem runFrom_arithmetic (hop : Numeric instr.op) {x y v : Value}
    (hx : vm.getReg instr.b = .ok x) (hy : vm.getReg instr.c = .ok y)
    (hv : numericBinop instr.op x y = .ok v) :
    (exec host instr).runFrom vm.fetched = (write host instr.a v).runFrom vm.fetched := by
  rw [exec_numeric hop]
  simp only [runFrom_bind, runFrom_read_fetched hx, runFrom_read_fetched hy, runFrom_trap_ok hv]

/-- An arithmetic fault ends the run. -/
theorem step_of_arithmetic_fault (host : Host) (hnext : vm.next = some instr)
    (hop : Numeric instr.op) {x y : Value} (hx : vm.getReg instr.b = .ok x)
    (hy : vm.getReg instr.c = .ok y) {fault : Fault}
    (hfault : numericBinop instr.op x y = .error fault) :
    vm.step host = (some (.trap fault), vm.fetched) := by
  rw [step_of_next host hnext, exec_numeric hop]
  simp only [runFrom_bind, runFrom_read_fetched hx, runFrom_read_fetched hy,
    runFrom_trap_error hfault]
  rfl

/-- An instruction with a result does nothing but to store it. -/
theorem step_of_result (hnext : vm.next = some instr) {v : Value}
    (hv : result host vm instr = some v) :
    vm.step host = outcome ((write host instr.a v).runFrom (vm.drawn instr)) := by
  rw [step_of_next host hnext]
  obtain ⟨op, a, b, c, imm⟩ := instr
  have hnumeric (hop : Numeric op)
      (hv : (do
        let x ← (vm.getReg b).toOption
        let y ← (vm.getReg c).toOption
        (numericBinop op x y).toOption) = some v) :
      (exec host ⟨op, a, b, c, imm⟩).runFrom vm.fetched = (write host a v).runFrom vm.fetched := by
    obtain ⟨x, hx, hv⟩ := Option.bind_eq_some_iff.mp hv
    obtain ⟨y, hy, hv⟩ := Option.bind_eq_some_iff.mp hv
    exact @runFrom_arithmetic host vm ⟨op, a, b, c, imm⟩ hop _ _ _ (of_toOption hx)
      (of_toOption hy) (of_toOption hv)
  cases op with
  | add | sub | mul | div | mod | eq | lt | le =>
    exact congrArg outcome (hnumeric (by simp [Numeric]) hv)
  | loadConst =>
    have hconst : vm.fetched.chunk.constant imm.toUInt32 = some v := by
      rw [fetched_chunk]
      exact hv
    unfold exec
    simp only [runFrom_bind, runFrom_get, hconst]
    rfl
  | loadImm =>
    cases hv
    rfl
  | move =>
    unfold exec
    simp only [runFrom_bind, runFrom_read_fetched (of_toOption hv)]
    rfl
  | neg =>
    obtain ⟨x, hx, hv⟩ := Option.bind_eq_some_iff.mp hv
    unfold exec
    simp only [runFrom_bind, runFrom_read_fetched (of_toOption hx),
      runFrom_trap_ok (of_toOption hv)]
    rfl
  | callNative =>
    obtain ⟨⟨native, args⟩, hcall, hv⟩ := Option.bind_eq_some_iff.mp hv
    have hcall' : vm.fetched.nativeCall host imm.toUInt32 b a = .ok (native, args) := by
      rw [nativeCall_fetched]
      exact of_toOption hcall
    unfold exec callNative
    simp only [runFrom_bind, runFrom_get, runFrom_trap_ok hcall', runFrom_trap_ok (of_toOption hv)]
    rfl
  | freshRequestId =>
    cases hv
    unfold exec
    simp only [runFrom_bind, runFrom_get, runFrom_set, freshRequestId_fetched]
    rfl
  | _ => cases hv

/-- How a return to a caller goes on: any refusal is reported as one of the register. -/
def delivery (rest : List Frame) (dest : UInt8) : Except Fault Unit → Option VmResult
  | .ok _ => none
  | .error _ =>
    some (.trap (.registerOutOfRange dest
      (UInt8.ofNat ((rest.head?.map (·.registers.length)).getD 0))))

/-- A return from a state with the frame that is left on top. -/
theorem outcome_popFrame {finished : Frame} {rest : List Frame} {v : Value} {vm₁ : Vm}
    (htop : vm₁.frames = finished :: rest)
    (hrest : { vm₁ with frames := rest } = { vm.counted with frames := rest }) :
    outcome ((popFrame host v).runFrom vm₁) =
      (finished.destReg.elim (some (.complete v))
          fun dest => delivery rest dest ({ vm.counted with frames := rest }.setReg host dest v).1,
        finished.destReg.elim { vm.counted with frames := rest }
          fun dest => ({ vm.counted with frames := rest }.setReg host dest v).2) := by
  unfold popFrame
  rw [runFrom_bind, runFrom_get]
  simp only [htop, hrest]
  cases finished.destReg with
  | none => rfl
  | some dest =>
    simp only [Option.elim_some]
    rcases ({ vm.counted with frames := rest } : Vm).setReg host dest v with ⟨r, vm'⟩
    simp only [runFrom_bind, runFrom_set]
    cases r <;> rfl

/-- A return does nothing but to hand over its value. -/
theorem step_of_returned {finished : Frame} {rest : List Frame}
    (hframes : vm.frames = finished :: rest) {v : Value} (hv : vm.returned = some v) :
    vm.step host =
      (finished.destReg.elim (some (.complete v))
          fun dest => delivery rest dest ({ vm.counted with frames := rest }.setReg host dest v).1,
        finished.destReg.elim { vm.counted with frames := rest }
          fun dest => ({ vm.counted with frames := rest }.setReg host dest v).2) := by
  cases hnext : vm.next with
  | some instr =>
    simp only [returned, hframes, hnext] at hv
    split_ifs at hv with hop
    have htop := fetched_of_frames hframes
    rw [step_of_next host hnext]
    unfold exec
    simp only [hop, runFrom_bind, runFrom_read_fetched (of_toOption hv)]
    exact @outcome_popFrame host vm { finished with pc := finished.pc + 1 } rest v vm.fetched
      (congrArg Vm.frames htop) (by rw [htop])
  | none =>
    have hinstr : vm.chunk.code[finished.pc]? = none := by
      simpa only [next, hframes, List.head?_cons, Option.bind_some] using hnext
    have hunit : v = .unit := by
      simp only [returned, hframes, hnext] at hv
      exact (Option.some.inj hv).symm
    have hrun : (instruction host).runFrom vm = (popFrame host v).runFrom vm.counted := by
      unfold instruction
      rw [runFrom_bind, runFrom_modify, ← counted]
      unfold fetch
      simp only [bind_assoc, runFrom_bind, runFrom_get, counted_frames, hframes, counted_chunk,
        hinstr, runFrom_pure, hunit]
    show outcome ((instruction host).runFrom vm) = _
    rw [hrun]
    exact outcome_popFrame hframes rfl

end Vm

end Byteflow
