import Byteflow.Jit.Mirror
import Mathlib.Data.List.Forall2

/-!
# Exits beside the interpreter

What it means that a trace, once its exit is applied, has done what the interpreter does: the same
result and the same frames, up to what is asked of the values (`Agree`). An exit in the middle of a
function agrees if the slots have the integers of the registers (`agree_synced`), a return if the
slot that is returned has the integer of the returned value (`agree_return`).
-/

namespace Byteflow

namespace Jit

open Vm

/-! ## Agreement -/

/-- The VM's register has the integer of the interpreter's. -/
def SameInteger (native interpreted : Value) : Prop :=
  native = interpreted ∨ ∃ i, native = .int i ∧ flat interpreted = some i

/-- What is asked of a trace: the integers of the registers, the frames as well where it traps, or
the kinds of the registers as well. -/
inductive Demand
  | integers
  | frames
  | kinds
  deriving DecidableEq

def Demand.OnValue : Demand → Value → Value → Prop
  | .kinds => Eq
  | _ => SameInteger

/-- The same call, at the same program counter, with registers that agree. -/
structure Demand.OnFrame (d : Demand) (native interpreted : Frame) : Prop where
  function : native.function = interpreted.function
  pc : native.pc = interpreted.pc
  destReg : native.destReg = interpreted.destReg
  registers : List.Forall₂ d.OnValue native.registers interpreted.registers

inductive Demand.OnResult (d : Demand) : VmResult → VmResult → Prop
  | complete {v w : Value} (h : d.OnValue v w) : OnResult d (.complete v) (.complete w)
  | same (r : VmResult) : OnResult d r r

/-- The result of a slice that ends, or goes on, with an exit. -/
def resultOf : Except Fault (Option VmResult) → VmResult
  | .ok none => .yield
  | .ok (some result) => result
  | .error fault => .trap fault

/-- What is asked of a register where the flow traps: its integer, or its kind. -/
def Demand.OnTrap : Demand → Value → Value → Prop
  | .kinds, native, interpreted => native.typeName = interpreted.typeName
  | _, native, interpreted => flat native = flat interpreted

/-- An exit that was applied, and a run of the interpreter. -/
structure Agree (d : Demand) (native : Applied) (interpreted : VmResult × Vm) : Prop where
  result : d.OnResult (resultOf native.1) interpreted.1
  frames : d = .frames ∨ interpreted.1 ≠ .trap .divideByZero →
    List.Forall₂ d.OnFrame native.2.frames interpreted.2.frames
  trapped : interpreted.1 = .trap .divideByZero → List.Forall₂
    (fun frame frame' => List.Forall₂ d.OnTrap frame.registers frame'.registers) native.2.frames
      interpreted.2.frames

theorem Demand.OnValue.refl (d : Demand) (v : Value) : d.OnValue v v := by
  cases d with
  | kinds => rfl
  | _ => exact .inl rfl

theorem Demand.OnResult.value {d : Demand} {v w : Value}
    (h : d.OnResult (.complete v) (.complete w)) : d.OnValue v w := by
  cases h with
  | complete h => exact h
  | same => exact .refl d v

/-- An integer for a value, which is one if kinds are asked for. -/
theorem onValue_int {d : Demand} {v : Value} {i : Int64} (h : flat v = some i)
    (hkinds : d = .kinds → ∃ j, v = .int j) : d.OnValue (.int i) v := by
  cases d with
  | kinds =>
    obtain ⟨j, rfl⟩ := hkinds rfl
    cases h
    rfl
  | _ => exact .inr ⟨i, rfl, h⟩

theorem SameInteger.eq {i j : Int64} (h : SameInteger (.int i) (.int j)) : i = j := by
  rcases h with h | ⟨k, hi, hj⟩
  · exact Value.int.inj h
  · cases hi
    exact (Option.some.inj hj).symm

/-- One register of two files. -/
theorem forall₂_set {d : Demand} {v w : Value} (h : d.OnValue v w) (regs : List Value) (r : ℕ) :
    List.Forall₂ d.OnValue (regs.set r v) (regs.set r w) := by
  induction regs generalizing r with
  | nil => exact .nil
  | cons u us ih =>
    cases r with
    | zero => exact .cons h (List.forall₂_same.mpr fun x _ => .refl d x)
    | succ r => exact .cons (.refl d u) (ih r)

theorem Demand.OnFrame.refl (d : Demand) (frame : Frame) : d.OnFrame frame frame :=
  ⟨rfl, rfl, rfl, List.forall₂_same.mpr fun v _ => .refl d v⟩

theorem Demand.OnTrap.refl (d : Demand) (v : Value) : d.OnTrap v v := by
  cases d <;> rfl

theorem forall₂_onFrame_refl (d : Demand) (frames : List Frame) :
    List.Forall₂ d.OnFrame frames frames :=
  List.forall₂_same.mpr fun frame _ => .refl d frame

/-! ## Slots and registers -/

/-- The slots that a trace starts from hold the registers. -/
theorem copyIn_mirrors {regs : List Value} {slots slots' : List Int64}
    (hlength : regs.length ≤ slots.length) (h : copyIn slots regs = some slots') :
    slots'.length = slots.length ∧
      ∀ (r : ℕ) (v : Value), regs[r]? = some v → ∃ i, flat v = some i ∧ slots'[r]? = some i := by
  induction regs generalizing slots slots' with
  | nil =>
    have hslots : slots' = slots := by
      cases slots <;> exact (Option.some.inj h).symm
    refine ⟨congrArg List.length hslots, fun r v hv => ?_⟩
    rw [List.getElem?_nil] at hv
    cases hv
  | cons w ws ih =>
    cases slots with
    | nil => simp at hlength
    | cons s slots =>
      obtain ⟨i, hflat, h⟩ := Option.bind_eq_some_iff.mp h
      obtain ⟨rest, hrest, h⟩ := Option.bind_eq_some_iff.mp h
      cases h
      obtain ⟨hlen, hregs⟩ := ih (Nat.le_of_succ_le_succ hlength) hrest
      refine ⟨congrArg Nat.succ hlen, fun r v hv => ?_⟩
      cases r with
      | zero =>
        cases hv
        exact ⟨i, hflat, rfl⟩
      | succ r => exact hregs r v hv

theorem length_copyOut (regs : List Value) (slots : List Int64) :
    (copyOut regs slots).length = regs.length := by
  induction regs generalizing slots with
  | nil => rfl
  | cons v vs ih =>
    cases slots with
    | nil => rfl
    | cons i slots => exact congrArg Nat.succ (ih slots)

theorem getElem?_copyOut {regs : List Value} {slots : List Int64} {r : ℕ} {i : Int64}
    (hr : r < regs.length) (hi : slots[r]? = some i) :
    (copyOut regs slots)[r]? = some (.int i) := by
  induction regs generalizing slots r with
  | nil => exact absurd hr (Nat.not_lt_zero r)
  | cons v vs ih =>
    cases slots with
    | nil =>
      rw [List.getElem?_nil] at hi
      cases hi
    | cons j slots =>
      cases r with
      | zero =>
        cases hi
        rfl
      | succ r => exact ih (Nat.lt_of_succ_lt_succ hr) hi

/-- The registers that a trace leaves. -/
theorem copyOut_agrees {d : Demand} {kept : ℕ} {regs regs' : List Value} {fr : JitFrame}
    (hlength : regs.length = regs'.length) (h : Mirrors kept regs' (RegisterMap.new kept) fr)
    (hkinds : d = .kinds → ∀ v ∈ regs', ∃ j, v = .int j) :
    List.Forall₂ d.OnValue (copyOut regs fr.slots) regs' := by
  have hlen : (copyOut regs fr.slots).length = regs'.length := (length_copyOut _ _).trans hlength
  refine List.forall₂_of_length_eq_of_get hlen fun r hr hr' => ?_
  obtain ⟨i, hflat, hview⟩ := h.integer r _ (List.getElem?_eq_getElem hr')
  rw [view_new] at hview
  have hout : (copyOut regs fr.slots)[r]? = some (.int i) := getElem?_copyOut (by omega) hview
  have hget : (copyOut regs fr.slots).get ⟨r, hr⟩ = .int i := by
    rw [List.getElem?_eq_getElem hr] at hout
    exact Option.some.inj hout
  rw [hget]
  exact onValue_int hflat fun hd => hkinds hd _ (List.get_mem regs' ⟨r, hr'⟩)

/-- The same call, wherever it is. -/
structure SameCall (frame frame₀ : Frame) : Prop where
  function : frame.function = frame₀.function
  destReg : frame.destReg = frame₀.destReg
  length : frame.registers.length = frame₀.registers.length

section

variable {d : Demand} {chunk : Chunk} {host : ℕ → Host} {h : Host} {frame₀ frame : Frame}
  {rest : List Frame} {vm₀ vm : Vm} {fr : JitFrame} {n : ℕ}

theorem setPc_of_frames (hframes : vm.frames = frame :: rest) (pc : ℕ) :
    vm.setPc pc = { vm with frames := { frame with pc := pc } :: rest } := by
  unfold Vm.setPc
  rw [hframes]

/-- An exit that writes the slots back. -/
theorem agree_synced (hframes₀ : vm₀.frames = frame₀ :: rest) (hreaches : StepsTo host n vm₀ vm)
    (hon : On chunk frame rest vm) (hcall : SameCall frame frame₀)
    (hpc : frame.pc = fr.pc.toNat)
    {kept : ℕ} (hmirrors : Mirrors kept frame.registers (RegisterMap.new kept) fr)
    (hkinds : d = .kinds → ∀ v ∈ frame.registers, ∃ j, v = .int j)
    (hexit : intoReason fr = .continue fr.pc ∨ intoReason fr = .budget fr.pc) :
    ∃ applied, applyExitToVm h vm₀ fr.slots (intoReason fr) = some applied ∧
      Agree d applied (Vm.run host n vm₀) := by
  have hsynced : syncedAt vm₀ fr.slots fr.pc = (.ok none, { vm₀ with
      frames := { frame₀ with
        pc := fr.pc.toNat, registers := copyOut frame₀.registers fr.slots } :: rest }) := by
    unfold syncedAt syncSlotsToVm
    rw [setPc_of_frames hframes₀]
  refine ⟨syncedAt vm₀ fr.slots fr.pc, ?_, ?_⟩
  · rcases hexit with hexit | hexit <;> rw [hexit] <;> rfl
  rw [hsynced, hreaches.run_eq]
  refine ⟨.same _, fun _ => ?_, fun htrap => VmResult.noConfusion htrap⟩
  rw [hon.frames_eq]
  refine .cons ⟨hcall.function.symm, hpc.symm, hcall.destReg.symm, ?_⟩ (forall₂_onFrame_refl d rest)
  exact copyOut_agrees hcall.length.symm hmirrors hkinds

/-! ## Returns -/

/-- What the return of a scalar leaves. -/
def popped : Option UInt8 → List Frame → Value → Except VmResult Unit × List Frame
  | none, rest, v => (.error (.complete v), rest)
  | some dest, [], _ => (.error (.trap (.registerOutOfRange dest 0)), [])
  | some dest, caller :: rest, v =>
    if dest.toNat < caller.registers.length then
      (.ok (), { caller with registers := caller.registers.set dest.toNat v } :: rest)
    else
      (.error (.trap (.registerOutOfRange dest (UInt8.ofNat caller.registers.length))),
        caller :: rest)

theorem runFrom_popFrame {v : Value} {i : Int64} (hframes : vm.frames = frame :: rest)
    (hv : flat v = some i) :
    (popFrame h v).runFrom vm =
      ((popped frame.destReg rest v).1, { vm with frames := (popped frame.destReg rest v).2 }) := by
  unfold popFrame
  rw [Exec.runFrom_bind, Exec.runFrom_get]
  dsimp only
  rw [hframes]
  dsimp only
  cases frame.destReg with
  | none => rfl
  | some dest =>
    cases rest with
    | nil =>
      have hset : ({ vm with frames := [] } : Vm).setReg h dest v =
          (.error emptyStack, { vm with frames := [] }) := by
        unfold Vm.setReg
        rw [chargeRegisterStore_flat hv]
      simp only [hset, Exec.runFrom_bind, Exec.runFrom_set]
      rfl
    | cons caller rest =>
      have hset := @setReg_flat h { vm with frames := caller :: rest } caller rest dest v i hv rfl
      unfold popped
      simp only [hset]
      split_ifs <;> rfl

/-- A return to a caller. -/
theorem goes_return {instr : Instruction} {reg : UInt8} {v : Value} {i : Int64} {caller : Frame}
    {under : List Frame} (hon : On chunk frame (caller :: under) vm)
    (hinstr : chunk.code[frame.pc]? = some instr) (hop : instr.op = .return)
    (hv : frame.registers[instr.a.toNat]? = some v) (hflat : flat v = some i)
    (hdest : frame.destReg = some reg) (hreg : reg.toNat < caller.registers.length) :
    Goes h chunk { caller with registers := caller.registers.set reg.toNat v } under vm := by
  refine ⟨{ vm.fetched with frames := { caller with
    registers := caller.registers.set reg.toNat v } :: under }, ?_, hon.fetched.chunk_eq, rfl⟩
  rw [step_return hon hinstr hop hv, runFrom_popFrame hon.fetched.frames_eq hflat]
  dsimp only
  rw [hdest]
  simp only [popped, if_pos hreg]
  rfl

/-- The result of a slice that ends, or goes on, with this. -/
def sliceResult : Except VmResult Unit → VmResult
  | .ok _ => .yield
  | .error result => result

theorem sliceResult_popped_ne (dest : Option UInt8) (rest : List Frame) (v : Value) :
    sliceResult (popped dest rest v).1 ≠ .trap .divideByZero := by
  intro h
  cases dest with
  | none => cases h
  | some dest =>
    cases rest with
    | nil => cases h
    | cons caller rest =>
      dsimp only [popped] at h
      split_ifs at h
      · cases h
      · cases h

/-- A return of an integer, beside the return of its value. -/
theorem agree_popped {v : Value} {i : Int64} (hvalue : d.OnValue (.int i) v) (dest : Option UInt8)
    (rest : List Frame) :
    d.OnResult (sliceResult (popped dest rest (.int i)).1) (sliceResult (popped dest rest v).1) ∧
      List.Forall₂ d.OnFrame (popped dest rest (.int i)).2 (popped dest rest v).2 := by
  cases dest with
  | none => exact ⟨.complete hvalue, forall₂_onFrame_refl d rest⟩
  | some dest =>
    cases rest with
    | nil => exact ⟨.same _, .nil⟩
    | cons caller rest =>
      by_cases hdest : dest.toNat < caller.registers.length
      · simp only [popped, if_pos hdest]
        refine ⟨.same _, .cons ⟨rfl, rfl, rfl, ?_⟩ (forall₂_onFrame_refl d rest)⟩
        exact forall₂_set hvalue _ _
      · simp only [popped, if_neg hdest]
        exact ⟨.same _, forall₂_onFrame_refl d _⟩

/-- What the dispatcher makes of a return. -/
theorem returnValue_eq {v : Value} {i : Int64} (hframes : vm.frames = frame :: rest)
    (hv : flat v = some i) :
    resultOf (vm.returnValue h v).1 = sliceResult (popped frame.destReg rest v).1 ∧
      (vm.returnValue h v).2.frames = (popped frame.destReg rest v).2 := by
  unfold Vm.returnValue
  rw [runFrom_popFrame hframes hv]
  rcases (popped frame.destReg rest v).1 with result | _
  · cases result <;> exact ⟨rfl, rfl⟩
  · exact ⟨rfl, rfl⟩

/-- What a slice makes of one. -/
theorem run_one_of_popFrame {v : Value} {i : Int64} (hframes : vm.frames = frame :: rest)
    (hv : flat v = some i)
    (hstep : vm.step (host vm.instructionsExecuted) =
      outcome ((popFrame (host vm.instructionsExecuted) v).runFrom vm.fetched)) :
    (Vm.run host 1 vm).1 = sliceResult (popped frame.destReg rest v).1 ∧
      (Vm.run host 1 vm).2.frames = (popped frame.destReg rest v).2 := by
  have hfetched : vm.fetched.frames = { frame with pc := frame.pc + 1 } :: rest := by
    rw [fetched_of_frames hframes]
  rw [runFrom_popFrame hfetched hv] at hstep
  unfold Vm.run
  rw [hstep]
  dsimp only
  rcases (popped frame.destReg rest v).1 with result | _ <;> exact ⟨rfl, rfl⟩

/-- The VM when the dispatcher returns from its top frame. -/
def returning (vm₀ : Vm) (frame₀ : Frame) (rest : List Frame) (reg : UInt8) (i : Int64) : Vm :=
  { vm₀ with frames := { frame₀ with
      pc := frame₀.pc + 1, registers := frame₀.registers.set reg.toNat (.int i) } :: rest }

theorem applyExit_return {i : Int64} (hframes₀ : vm₀.frames = frame₀ :: rest) {reg : UInt8}
    (hreg : reg.toNat < frame₀.registers.length) {slots : List Int64}
    (hslot : slots[reg.toNat]? = some i) :
    applyExitToVm h vm₀ slots (.return reg) =
      some ((returning vm₀ frame₀ rest reg i).returnValue h (.int i)) := by
  unfold applyExitToVm
  dsimp only
  rw [hslot]
  simp only [Option.bind_eq_bind, Option.bind_some]
  rw [setReg_flat (i := i) rfl hframes₀, if_pos hreg]
  rfl

/-- A return from the function of the trace. -/
theorem agree_return {v : Value} {i : Int64} (hframes₀ : vm₀.frames = frame₀ :: rest)
    (hreaches : StepsTo host n vm₀ vm) (hon : On chunk frame rest vm)
    (hcall : SameCall frame frame₀) (hv : flat v = some i)
    (hkinds : d = .kinds → ∃ j, v = .int j)
    (hstep : vm.step (host vm.instructionsExecuted) =
      outcome ((popFrame (host vm.instructionsExecuted) v).runFrom vm.fetched))
    {reg : UInt8} (hreg : reg.toNat < frame₀.registers.length)
    (hslot : fr.slots[reg.toNat]? = some i) (hexit : intoReason fr = .return reg) :
    ∃ applied, applyExitToVm h vm₀ fr.slots (intoReason fr) = some applied ∧
      Agree d applied (Vm.run host (n + 1) vm₀) := by
  have hpop := agree_popped (onValue_int hv hkinds) frame₀.destReg rest
  have hinterpreted := run_one_of_popFrame hon.frames_eq hv hstep
  have hreturning : (returning vm₀ frame₀ rest reg i).frames = { frame₀ with
      pc := frame₀.pc + 1, registers := frame₀.registers.set reg.toNat (.int i) } :: rest := rfl
  have hnative := returnValue_eq (h := h) (v := .int i) (i := i) hreturning rfl
  rw [hcall.destReg] at hinterpreted
  rw [hexit, applyExit_return hframes₀ hreg hslot, hreaches.run]
  refine ⟨_, rfl, ?_, fun _ => ?_, fun htrap => ?_⟩
  · rw [hinterpreted.1, hnative.1]
    exact hpop.1
  · rw [hinterpreted.2, hnative.2]
    exact hpop.2
  · rw [hinterpreted.1] at htrap
    exact absurd htrap (sliceResult_popped_ne _ _ _)

/-- A division by zero, which writes nothing back. -/
theorem agree_trap {pc : UInt32} (hframes₀ : vm₀.frames = frame₀ :: rest)
    (hreaches : StepsTo host n vm₀ vm) (hon : On chunk frame rest vm) (hd : d ≠ .frames)
    (hregs : List.Forall₂ d.OnTrap frame₀.registers frame.registers)
    (hstep : vm.step (host vm.instructionsExecuted) = (some (.trap .divideByZero), vm.fetched))
    (hexit : intoReason fr = .trap pc) :
    ∃ applied, applyExitToVm h vm₀ fr.slots (intoReason fr) = some applied ∧
      Agree d applied (Vm.run host (n + 1) vm₀) := by
  have hrun : Vm.run host 1 vm = (.trap .divideByZero, vm.fetched) := by
    unfold Vm.run
    rw [hstep]
  rw [hexit, hreaches.run, hrun]
  refine ⟨_, rfl, .same _, fun hasked => ?_, fun _ => ?_⟩
  · exact (hasked.resolve_left hd rfl).elim
  · rw [setPc_of_frames hframes₀, hon.fetched.frames_eq]
    exact .cons hregs (List.forall₂_same.mpr fun frame _ =>
      List.forall₂_same.mpr fun v _ => .refl d v)

end

end Jit

end Byteflow
