import Byteflow.Bytecode.Builder
import Byteflow.Vm.Frames

/-!
# Labels

Three programs agree on what the offset of a jump means: the assembler, which patches it
(`ChunkBuilder.finish`), the verifier, which checks it, and the VM, which adds it to a program
counter that is past the jump already. So a jump to a label leads to where the label was last bound
(`labels_resolve`).
-/

namespace Byteflow

namespace Vm

open Exec

variable {host : Host} {vm : Vm} {instr : Instruction} {frame : Frame} {rest : List Frame}

theorem outcome_jump (hframes : vm.frames = frame :: rest) (imm : Int32) :
    outcome ((jump imm).runFrom vm.fetched) =
      (none, vm.counted.goto ((frame.pc + 1 + imm.toInt) % 2 ^ 64).toNat) := by
  unfold jump
  rw [runFrom_bind, runFrom_get, fetched_of_frames hframes, @goto_of_frames vm.counted _ _ hframes]
  rfl

theorem step_of_jump (host : Host) (hnext : vm.next = some instr) (hop : instr.op = .jump)
    (hframes : vm.frames = frame :: rest) :
    vm.step host = (none, vm.counted.goto ((frame.pc + 1 + instr.imm.toInt) % 2 ^ 64).toNat) := by
  rw [step_of_next host hnext, ← outcome_jump hframes]
  unfold exec
  rw [hop]

theorem step_of_branch (host : Host) (hnext : vm.next = some instr) (hop : instr.op = .branch)
    (hframes : vm.frames = frame :: rest) {v : Value} (hv : vm.getReg instr.a = .ok v)
    (hfalsy : v.isTruthy = false) :
    vm.step host = (none, vm.counted.goto ((frame.pc + 1 + instr.imm.toInt) % 2 ^ 64).toNat) := by
  rw [step_of_next host hnext, ← outcome_jump hframes]
  unfold exec
  rw [hop]
  simp only [runFrom_bind, runFrom_read_fetched hv, hfalsy, Bool.not_false, if_true]

end Vm

namespace ChunkBuilder

variable {name : String} {calls front back : List Call} {c : Call} {label : Label}

/-- Where a jump to the label leads from the instruction `idx`: to where the label was last bound,
or to the next instruction if it never was. -/
inductive Target (name : String) (calls : List Call) (label : Label) (idx : ℕ) : ℕ → Prop
  | bound {front back : List Call} (hcalls : calls = front ++ .bindLabel label :: back)
      (hlast : .bindLabel label ∉ back) :
      Target name calls label idx (build name front).code.length
  | unbound (h : .bindLabel label ∉ calls) : Target name calls label idx (idx + 1)

/-- The VM takes the jump that a call emitted. -/
inductive Takes (vm : Vm) : Call → Label → Prop
  | jump (target : Label) : Takes vm (.emitJump target) target
  | branch {cond : UInt8} {v : Value} (hv : vm.getReg cond = .ok v) (hfalsy : v.isTruthy = false)
      (target : Label) : Takes vm (.emitBranch cond target) target

theorem build_append (name : String) (front back : List Call) :
    build name (front ++ back) = Schedule.run apply (build name front) back :=
  Schedule.run_append _ _ _

/-- What a call that emits a jump leaves in the code, and among the pending jumps. -/
theorem emitted_jump (hc : c.jumpsTo = some label) :
    ∃ instr : Instruction,
      (c = .emitJump label ∧ instr.op = .jump ∨
        ∃ cond, c = .emitBranch cond label ∧ instr.op = .branch ∧ instr.a = cond) ∧
      (build name (front ++ c :: back)).code[(build name front).code.length]? = some instr ∧
      ((build name front).code.length, label) ∈
        (build name (front ++ c :: back)).pendingJumps := by
  rw [build_append]
  show ∃ instr : Instruction, _ ∧
    (Schedule.run apply ((build name front).apply c) back).code[_]? = _ ∧
      _ ∈ (Schedule.run apply ((build name front).apply c) back).pendingJumps
  generalize build name front = b
  suffices h : ∃ instr : Instruction,
      (c = .emitJump label ∧ instr.op = .jump ∨
        ∃ cond, c = .emitBranch cond label ∧ instr.op = .branch ∧ instr.a = cond) ∧
      (b.apply c).code = b.code ++ [instr] ∧
      (b.apply c).pendingJumps = b.pendingJumps ++ [(b.code.length, label)] by
    obtain ⟨instr, hkind, hcode, hpending⟩ := h
    refine ⟨instr, hkind, ?_, (pendingJumps_run (b.apply c) back).subset ?_⟩
    · have hlast : (b.apply c).code[b.code.length]? = some instr := by
        rw [hcode, List.getElem?_concat_length]
      obtain ⟨suffix, hsuffix⟩ := code_run (b.apply c) back
      rw [← hsuffix, List.getElem?_append_left (List.getElem?_eq_some_iff.mp hlast).1, hlast]
    · rw [hpending]
      exact List.mem_append_right _ (List.mem_singleton_self _)
  cases c <;> cases hc
  · exact ⟨.onlyImm .jump 0, .inl ⟨rfl, rfl⟩, rfl, rfl⟩
  · exact ⟨.aImm .branch _ 0, .inr ⟨_, rfl, rfl, rfl⟩, rfl, rfl⟩

/-- The assembler knows where a label was last bound. -/
theorem labelTargets_of_bound (hlast : .bindLabel label ∉ back) :
    (build name (front ++ .bindLabel label :: back)).labelTargets label =
      some (UInt32.ofNat (build name front).code.length) := by
  rw [build_append, Schedule.run_cons, labelTargets_run hlast]
  exact Function.update_self _ _ _

theorem labelTargets_of_unbound (h : .bindLabel label ∉ calls) :
    (build name calls).labelTargets label = none :=
  labelTargets_run h (new name)

/-- The offset of a jump to the label leads to the target. -/
theorem target_of_offset (hsize : (build name calls).code.length < 2 ^ 31) {idx target : ℕ}
    (hidx : idx < (build name calls).code.length) (h : Target name calls label idx target) :
    (((idx : ℤ) + 1 + ((build name calls).offset idx label).toInt) % 2 ^ 64).toNat = target := by
  cases h with
  | bound hcalls hlast =>
    rename_i front back
    have ht : (build name calls).labelTargets label =
        some (UInt32.ofNat (build name front).code.length) := by
      rw [hcalls]
      exact labelTargets_of_bound hlast
    have hle : (build name front).code.length ≤ (build name calls).code.length := by
      rw [hcalls, build_append]
      exact (code_run _ _).length_le
    have hexact : (UInt32.ofNat (build name front).code.length).toNat =
        (build name front).code.length := UInt32.toNat_ofNat_of_lt' (by
          show _ < 2 ^ 32
          omega)
    rw [(placed_build name calls).offset_of_bound hsize hidx ht, hexact]
    omega
  | unbound h =>
    rw [offset_of_unbound (labelTargets_of_unbound h)]
    show (((idx : ℤ) + 1 + 0) % 2 ^ 64).toNat = _
    omega

/-- **Labels.** In the finished chunk, every jump that is taken leads to where its label was last
bound, or falls through if it never was; and the verifier finds no jump out of range. -/
theorem labels_resolve (hsize : (build name calls).code.length < 2 ^ 31) :
    (∀ {host : Host} {vm : Vm} {frame : Vm.Frame} {rest : List Vm.Frame} {front back : List Call}
        {c : Call} {label : Label} {target : ℕ},
      vm.chunk = (build name calls).finish → vm.frames = frame :: rest →
      calls = front ++ c :: back → frame.pc = (build name front).code.length →
      Takes vm c label → Target name calls label frame.pc target →
      vm.step host = (none, vm.counted.goto target)) ∧
    ∀ trust at_ target len,
      (build name calls).finish.verifyWith trust ≠ .error (.jumpOutOfRange at_ target len) := by
  have hplaced := placed_build name calls
  constructor
  · intro host vm frame rest front back c label target hchunk hframes hcalls hpc htakes htarget
    have hc : c.jumpsTo = some label := by cases htakes <;> rfl
    obtain ⟨instr, hkind, hcode, hpending⟩ :=
      @emitted_jump name front back c label hc
    rw [← hcalls, ← hpc] at hcode hpending
    have hidx : frame.pc < (build name calls).code.length :=
      (List.getElem?_eq_some_iff.mp hcode).1
    have hnext : vm.next = some ((build name calls).patch (frame.pc, label) instr) := by
      unfold Vm.next
      rw [hframes, hchunk]
      show (build name calls).finish.code[frame.pc]? = _
      rw [hplaced.finish_of_pending hpending, hcode]
      rfl
    have hleads := target_of_offset hsize hidx htarget
    generalize hpatched : (build name calls).patch (frame.pc, label) instr = patched at hnext
    have himm : (build name calls).offset frame.pc label = patched.imm := by
      rw [← hpatched]
      rfl
    have hop' : patched.op = instr.op := by
      rw [← hpatched]
      rfl
    have ha' : patched.a = instr.a := by
      rw [← hpatched]
      rfl
    rw [himm] at hleads
    cases htakes with
    | jump =>
      rcases hkind with ⟨-, hop⟩ | ⟨cond, heq, -⟩
      · rw [Vm.step_of_jump host hnext (hop'.trans hop) hframes, hleads]
      · cases heq
    | branch hv hfalsy =>
      rcases hkind with ⟨heq, -⟩ | ⟨cond, heq, hop, ha⟩
      · cases heq
      · cases heq
        rw [← ha, ← ha'] at hv
        rw [Vm.step_of_branch host hnext (hop'.trans hop) hframes hv hfalsy, hleads]
  · intro trust at_ target len h
    obtain ⟨instr, pc, hi, hop, hout⟩ := Chunk.target_of_jumpOutOfRange h
    exact hout (hplaced.target_in_range hsize hi hop)

/-- A loop: a branch forward out of it, and a jump back. -/
def loop : List Call :=
  [.beginFunction "main" 0 1, .newLabel, .newLabel, .bindLabel ⟨0⟩, .emitBranch 0 ⟨1⟩,
    .emitJump ⟨0⟩, .bindLabel ⟨1⟩, .emitReturn 0]

/-- A flow in it, at the given instruction. -/
def loopVm (pc : ℕ) : Vm :=
  ⟨(build "loop" loop).finish, [], ⟨false, ⟨[]⟩, 0, 0, 0, 0⟩, [⟨0, pc, [.unit], none⟩], 0, 1, none⟩

theorem labels_resolve_loop :
    (loopVm 0).step ⟨0, false, fun _ => 0⟩ = (none, (loopVm 0).counted.goto 2) ∧
      (loopVm 1).step ⟨0, false, fun _ => 0⟩ = (none, (loopVm 1).counted.goto 0) := by
  obtain ⟨h, -⟩ := @labels_resolve "loop" loop (by decide)
  constructor
  · exact @h _ _ _ _ (loop.take 4) (loop.drop 5) _ _ _ rfl rfl rfl rfl
      (@Takes.branch _ _ .unit rfl rfl _)
      (@Target.bound _ _ _ _ (loop.take 6) (loop.drop 7) rfl (by simp [loop]))
  · exact @h _ _ _ _ (loop.take 5) (loop.drop 6) _ _ _ rfl rfl rfl rfl (.jump _)
      (@Target.bound _ _ _ _ (loop.take 3) (loop.drop 4) rfl (by simp [loop]))

end ChunkBuilder

end Byteflow
