import Byteflow.Vm.Run
import Byteflow.Vm.StdNatives

/-!
# Verified chunks

What the verifier settles before a chunk runs: a VM that runs a verified chunk stays well formed
through any calls, and never misses a constant or a function (`verified_sound`). What it does not
settle is left to the faults of the program; a broken invariant is reported for the one operator
that the interpreter does not define on all numbers (`invariant_iff_remainder`).
-/

namespace Byteflow

namespace Vm

/-! ## Frames -/

/-- An activation record of the chunk. -/
structure Frame.Fits (chunk : Chunk) (frame : Frame) : Prop where
  pc : frame.pc ≤ chunk.code.length
  registers : ∃ f, chunk.function frame.function = some f ∧
    frame.registers.length = f.numRegisters.toNat

/-- A call stack of the chunk. -/
structure WellFormed (chunk : Chunk) (vm : Vm) : Prop where
  chunk_eq : vm.chunk = chunk
  frames : ∀ frame ∈ vm.frames, frame.Fits chunk
  depth : vm.frames.length ≤ maxCallDepth

variable {chunk : Chunk} {trust : TrustLevel} {vm : Vm} {host : Host}

theorem length_of_loadArgs {frameSize : UInt8} {i : ℕ} {args registers registers' : List Value}
    (h : loadArgs frameSize i args registers = .ok registers') :
    registers'.length = registers.length := by
  induction args generalizing i registers registers' with
  | nil =>
    cases h
    rfl
  | cons a args ih =>
    cases registers with
    | nil => cases h
    | cons r registers =>
      obtain ⟨rest, hrest, h⟩ := of_bind_ok h
      cases h
      rw [List.length_cons, List.length_cons, ih hrest]

theorem fits_of_enter (hverify : chunk.verifyWith trust = .ok ()) {function : UInt32}
    {args : List Value} {destReg : Option UInt8} {frame : Frame}
    (h : enter chunk function args destReg = .ok frame) : frame.Fits chunk := by
  unfold enter at h
  split at h
  · cases h
  · rename_i f hf
    obtain ⟨registers, hl, h⟩ := of_bind_ok h
    cases h
    refine ⟨(Chunk.entry_of_verify hverify hf).le, f, hf, ?_⟩
    rw [length_of_loadArgs hl]
    exact List.length_replicate

namespace WellFormed

theorem congr (h : WellFormed chunk vm) {vm' : Vm} (hc : vm'.chunk = vm.chunk)
    (hf : vm'.frames = vm.frames) : WellFormed chunk vm' :=
  ⟨hc.trans h.chunk_eq, hf ▸ h.frames, hf ▸ h.depth⟩

/-- The top frame is replaced by one that fits. -/
theorem top (h : WellFormed chunk vm) {frame frame' : Frame} {rest : List Frame}
    (hframes : vm.frames = frame :: rest) (hfits : frame'.Fits chunk) {vm' : Vm}
    (hc : vm'.chunk = vm.chunk) (hf : vm'.frames = frame' :: rest) : WellFormed chunk vm' := by
  refine ⟨hc.trans h.chunk_eq, fun g hg => ?_, ?_⟩
  · rw [hf] at hg
    rcases List.mem_cons.mp hg with rfl | hg
    · exact hfits
    · exact h.frames g (hframes ▸ List.mem_cons_of_mem _ hg)
  · have hdepth := h.depth
    rw [hframes] at hdepth
    rw [hf]
    exact hdepth

theorem setReg (h : WellFormed chunk vm) {reg : UInt8} {v : Value} {r : Except Fault Unit}
    {vm' : Vm} (hset : vm.setReg host reg v = (r, vm')) : WellFormed chunk vm' := by
  cases r with
  | error fault =>
    obtain ⟨⟨quota, rfl⟩, -⟩ := setReg_error hset
    exact h.congr rfl rfl
  | ok _ =>
    obtain ⟨frame, rest, hframes, -, heq⟩ := setReg_ok hset
    obtain ⟨hpc, f, hf, hlength⟩ := h.frames frame (hframes ▸ List.mem_cons_self)
    have hfits : Frame.Fits chunk { frame with registers := frame.registers.set reg.toNat v } :=
      ⟨hpc, f, hf, by rw [List.length_set, hlength]⟩
    rw [heq]
    exact h.top hframes hfits rfl rfl

theorem pop (h : WellFormed chunk vm) {finished : Frame} {rest : List Frame}
    (hframes : vm.frames = finished :: rest) {vm' : Vm} (hc : vm'.chunk = vm.chunk)
    (hf : vm'.frames = rest) : WellFormed chunk vm' := by
  refine ⟨hc.trans h.chunk_eq, fun g hg => ?_, ?_⟩
  · exact h.frames g (hframes ▸ List.mem_cons_of_mem _ (hf ▸ hg))
  · have hdepth := h.depth
    rw [hframes, List.length_cons] at hdepth
    rw [hf]
    omega

theorem fetched (h : WellFormed chunk vm) {instr : Instruction} (hnext : vm.next = some instr) :
    WellFormed chunk vm.fetched := by
  obtain ⟨frame, rest, hframes⟩ := frames_of_next hnext
  obtain ⟨hpc, hregs⟩ := h.frames frame (hframes ▸ List.mem_cons_self)
  have hcode : frame.pc < chunk.code.length := by
    simp only [next, hframes, List.head?_cons, Option.bind_some, h.chunk_eq] at hnext
    exact (List.getElem?_eq_some_iff.mp hnext).1
  have hfits : Frame.Fits chunk { frame with pc := frame.pc + 1 } := ⟨hcode, hregs⟩
  rw [fetched_of_frames hframes]
  exact h.top hframes hfits rfl rfl

/-- A jump of a verified chunk stays in the code, or goes to its end. -/
theorem target (h : WellFormed chunk vm) (hverify : chunk.verifyWith trust = .ok ())
    {instr : Instruction} (hnext : vm.next = some instr)
    (hop : instr.op = .jump ∨ instr.op = .branch) {frame : Frame} {rest : List Frame}
    (hframes : vm.frames = frame :: rest) :
    0 ≤ frame.pc + 1 + instr.imm.toInt ∧ frame.pc + 1 + instr.imm.toInt ≤ chunk.code.length := by
  simp only [next, hframes, List.head?_cons, Option.bind_some, h.chunk_eq] at hnext
  exact (Chunk.operand_of_verify hverify hnext).2.2 hop

end WellFormed

/-- **One instruction.** -/
theorem WellFormed.step (h : WellFormed chunk vm) (hverify : chunk.verifyWith trust = .ok ())
    (host : Host) : WellFormed chunk (vm.step host).2 := by
  have hmoves := step_moves host vm
  generalize (vm.step host).1 = r, (vm.step host).2 = vm' at hmoves
  have hfresh {instr : Instruction} (hnext : vm.next = some instr) {vm₁ : Vm}
      (hvm : vm₁ = vm.fetched ∨ vm₁ = vm.fetched.freshRequestId.2) : WellFormed chunk vm₁ := by
    have hfetched := h.fetched hnext
    rcases hvm with rfl | rfl
    · exact hfetched
    · unfold freshRequestId
      split <;> exact hfetched.congr rfl rfl
  have hpop {finished : Frame} {rest : List Frame} (hframes : vm.frames = finished :: rest) :
      WellFormed chunk { vm.counted with frames := rest } := h.pop hframes rfl rfl
  cases hmoves with
  | stuck => exact h.congr rfl rfl
  | result hnext => exact h.fetched hnext
  | passes hnext => exact h.fetched hnext
  | @jumps instr hnext hop frame rest hframes =>
    obtain ⟨hpos, hle⟩ := h.target hverify hnext hop hframes
    obtain ⟨-, hregs⟩ := h.frames frame (hframes ▸ List.mem_cons_self)
    have hfits : Frame.Fits chunk
        { frame with pc := ((frame.pc + 1 + instr.imm.toInt) % 2 ^ 64).toNat } := by
      refine ⟨?_, hregs⟩
      show ((frame.pc + 1 + instr.imm.toInt) % 2 ^ 64).toNat ≤ chunk.code.length
      omega
    rw [@goto_of_frames vm.counted _ _ hframes]
    exact h.top hframes hfits rfl rfl
  | stores hnext reg v hvm hset => exact (hfresh hnext hvm).setReg hset
  | refuses hnext reg v hvm hset => exact (hfresh hnext hvm).setReg hset
  | @calls instr hnext hop hdepth args frame hargs henter =>
    have hfetched := h.fetched hnext
    rw [h.chunk_eq] at henter
    refine ⟨hfetched.chunk_eq, fun g hg => ?_, ?_⟩
    · rcases List.mem_cons.mp hg with rfl | hg
      · exact fits_of_enter hverify henter
      · exact hfetched.frames g hg
    · obtain ⟨top, rest, hframes⟩ := frames_of_next hnext
      rw [hframes] at hdepth
      rw [fetched_of_frames hframes]
      exact hdepth
  | completes hframes => exact hpop hframes
  | returns hframes hv hdest hset => exact (hpop hframes).setReg hset
  | loses hframes hv hdest hset => exact (hpop hframes).setReg hset

/-! ## Results -/

/-- No constant and no function is missing, and a child runs a function of the table. -/
def Sane (chunk : Chunk) : VmResult → Prop
  | .trap (.badConstant ..) | .trap (.badFunction ..) => False
  | .spawn function .. => function.toNat < chunk.functions.length
  | _ => True

theorem sane_of_program {fault : Fault} (h : fault.OfProgram) : Sane chunk (.trap fault) := by
  cases fault <;> trivial

theorem sane_of_effect {result : VmResult} (h : result.Effect) : Sane chunk result := by
  cases result <;> trivial

/-- What an instruction of a verified chunk raises is sane. -/
theorem Raises.sane {instr : Instruction} {r : VmResult} (hr : Raises host instr vm r)
    (h : WellFormed chunk vm) (hverify : chunk.verifyWith trust = .ok ())
    (hnatives : vm.natives.FailsAsNative) (hnext : vm.next = some instr) : Sane chunk r := by
  obtain ⟨frame, rest, hframes⟩ := frames_of_next hnext
  simp only [next, hframes, List.head?_cons, Option.bind_some, h.chunk_eq] at hnext
  obtain ⟨hconst, hfunction, -⟩ := Chunk.operand_of_verify hverify hnext
  cases hr with
  | fault hf => exact sane_of_program hf
  | stack hf => exact trivial
  | constant hop hnone =>
    rw [h.chunk_eq, Chunk.constant, List.getElem?_eq_none_iff] at hnone
    have := hconst hop
    omega
  | function hop hnone =>
    rw [h.chunk_eq, Chunk.function, List.getElem?_eq_none_iff] at hnone
    have := hfunction (.inr hop)
    omega
  | modulo hop ha hb hints hfault =>
    obtain ⟨message, rfl⟩ := hfault
    exact trivial
  | native hop hcall hf =>
    obtain ⟨message, rfl⟩ := hnatives _ _ (nativeCall_ok hcall).2.1 _ _ _ hf
    exact trivial
  | spawn hop args rights => exact hfunction (.inl hop)
  | effect hf => exact sane_of_effect hf

theorem sane_of_step (h : WellFormed chunk vm) (hverify : chunk.verifyWith trust = .ok ())
    (hnatives : vm.natives.FailsAsNative) (host : Host) {r : VmResult}
    (hr : (vm.step host).1 = some r) : Sane chunk r := by
  have hmoves := step_moves host vm
  rw [hr] at hmoves
  have hrefused {vm₁ vm' : Vm} {reg : UInt8} {v : Value} {fault : Fault}
      (hset : vm₁.setReg host reg v = (.error fault, vm')) : Sane chunk (.trap fault) := by
    rcases (setReg_error hset).2 with hf | ⟨-, rfl⟩
    · exact sane_of_program hf
    · exact trivial
  generalize (vm.step host).2 = vm' at hmoves
  cases hmoves with
  | stuck => exact trivial
  | result hnext hraises => exact hraises.sane h hverify hnatives hnext
  | refuses hnext reg v hvm hset => exact hrefused hset
  | completes => exact trivial
  | loses => exact trivial

/-! ## Runs -/

theorem wellFormed_of_new (hverify : chunk.verifyWith trust = .ok ()) {natives : NativeTable}
    {gate : NativeGate} {function : UInt32} {args : List Value}
    (hnew : withNativeGate chunk natives gate function args = .ok vm) : WellFormed chunk vm := by
  obtain ⟨frame, henter, hnew⟩ := of_bind_ok hnew
  cases hnew
  refine ⟨rfl, fun g hg => ?_, (by decide : 1 ≤ maxCallDepth)⟩
  rw [List.mem_singleton.mp hg]
  exact fits_of_enter hverify henter

/-- What verification promises of a VM, whatever its registers hold. -/
structure Safe (chunk : Chunk) (vm : Vm) : Prop where
  frames : ∀ frame ∈ vm.frames, frame.Fits chunk
  depth : vm.frames.length ≤ maxCallDepth
  target : ∀ instr, vm.next = some instr → instr.op = .jump ∨ instr.op = .branch →
    ∀ frame ∈ vm.frames.head?, 0 ≤ frame.pc + 1 + instr.imm.toInt
  result : ∀ host budget, Sane chunk (run host budget vm).1

/-- **Verification is sound.** -/
theorem verified_sound (hverify : chunk.verifyWith trust = .ok ()) {natives : NativeTable}
    (hnatives : natives.FailsAsNative) {gate : NativeGate} {function : UInt32} {args : List Value}
    (hnew : withNativeGate chunk natives gate function args = .ok vm) (cs : List Call) :
    Safe chunk (vm.calls cs) := by
  have hstep (vm : Vm) (host : Host) (h : WellFormed chunk vm ∧ vm.natives = natives) :
      WellFormed chunk (vm.step host).2 ∧ (vm.step host).2.natives = natives :=
    ⟨h.1.step hverify host, (congrArg Program.natives (step_program host vm)).trans h.2⟩
  have hinit : WellFormed chunk vm ∧ vm.natives = natives := by
    refine ⟨wellFormed_of_new hverify hnew, ?_⟩
    obtain ⟨frame, henter, hnew⟩ := of_bind_ok hnew
    cases hnew
    rfl
  obtain ⟨hwf, hnat⟩ := calls_induct hstep (fun vm host reg v h => ⟨h.1.setReg rfl, by
    rw [← h.2]
    exact congrArg Program.natives (setReg_cases host vm reg v).1⟩)
    (fun vm quota h => ⟨h.1.congr rfl rfl, h.2⟩) hinit cs
  refine ⟨hwf.frames, hwf.depth, fun instr hnext hop frame hframe => ?_, fun host budget => ?_⟩
  · obtain ⟨top, rest, hframes⟩ := frames_of_next hnext
    rw [hframes, List.head?_cons] at hframe
    cases hframe
    exact (hwf.target hverify hnext hop hframes).1
  · refine run_induct (I := fun vm => WellFormed chunk vm ∧ vm.natives = natives)
      (fun vm host h => ⟨fun _ => hstep vm host h, fun r hr => ?_⟩) (fun _ _ => trivial) host budget
      ⟨hwf, hnat⟩
    exact sane_of_step h.1 hverify (h.2 ▸ hnatives) host hr

/-- A program that counts down from three in a loop, and calls another function. -/
def countdown : Chunk where
  name := "countdown"
  constants := [.int 3]
  code := [.aImm .loadConst 0 0, .aImm .loadImm 1 (-1), .abc .add 0 0 1, .aImm .branch 0 1,
    .onlyImm .jump (-3), ⟨.call, 0, 1, 0, 1⟩, .aImm .return 0 0]
  functions := [⟨"main", 0, 0, 2⟩, ⟨"last", 6, 1, 1⟩]

/-- A flow at the start of it, without rights. -/
def countdownVm : Vm :=
  ⟨countdown, stdNatives, ⟨false, ⟨[]⟩, 0, 0, 0, 0⟩, [⟨0, 0, [.unit, .unit], none⟩], 0, 1, none⟩

theorem verified_sound_countdown :
    Safe countdown (countdownVm.calls [.run (fun _ => ⟨0, false, fun _ => 0⟩) 7]) := by
  have hverify : countdown.verifyWith .untrusted = .ok () := by decide
  have hnew : withNativeGate countdown stdNatives ⟨false, ⟨[]⟩, 0, 0, 0, 0⟩ 0 [] =
      .ok countdownVm := rfl
  exact verified_sound hverify stdNatives_failsAsNative hnew _

/-! ## Broken invariants -/

/-- The slice is the last one. -/
def Ended : Option VmResult → Prop
  | some (.complete _) | some (.trap _) => True
  | _ => False

/-- The next instruction takes the remainder of what are not two integers. -/
def Remainder (vm : Vm) : Prop :=
  ∃ instr a b, vm.next = some instr ∧ instr.op = .mod ∧ vm.getReg instr.b = .ok a ∧
    vm.getReg instr.c = .ok b ∧ ∀ x y, ¬(a = .int x ∧ b = .int y)

theorem not_invariant_of_program {fault : Fault} (h : fault.OfProgram) (message : String) :
    fault ≠ .invariant message := by
  rintro rfl
  exact h

/-- An instruction that raises a broken invariant takes such a remainder. -/
theorem remainder_of_step (hframes : vm.frames ≠ []) (hnatives : vm.natives.FailsAsNative)
    {message : String} (h : (vm.step host).1 = some (.trap (.invariant message))) :
    vm.Remainder := by
  have hmoves := step_moves host vm
  rw [h] at hmoves
  generalize (vm.step host).2 = vm' at hmoves
  cases hmoves with
  | stuck hnil => exact absurd hnil hframes
  | @result instr hnext _ hraises =>
    cases hraises with
    | fault hf => exact absurd rfl (not_invariant_of_program hf message)
    | stack hnil => exact absurd hnil hframes
    | modulo hop ha hb hints _ => exact ⟨instr, _, _, hnext, hop, ha, hb, hints⟩
    | native hop hcall hf =>
      obtain ⟨_, hne⟩ := hnatives _ _ (nativeCall_ok hcall).2.1 _ _ _ hf
      cases hne
    | effect hf => cases hf
  | refuses hnext reg v hvm hset =>
    rcases (setReg_error hset).2 with hf | ⟨hnil, -⟩
    · exact absurd rfl (not_invariant_of_program hf message)
    · obtain ⟨frame, rest, hframes'⟩ := frames_of_next hnext
      rcases hvm with rfl | rfl
      · rw [fetched_of_frames hframes'] at hnil
        cases hnil
      · rw [fetched_of_frames hframes'] at hnil
        unfold freshRequestId at hnil
        split at hnil <;> cases hnil

/-- Such a remainder is reported as a broken invariant. -/
theorem step_of_remainder (host : Host) (h : vm.Remainder) :
    ∃ message, (vm.step host).1 = some (.trap (.invariant message)) := by
  obtain ⟨instr, a, b, hnext, hop, ha, hb, hints⟩ := h
  have hfault : numericBinop .mod a b =
      .error (.invariant "numeric_binop called with a non-arithmetic opcode") := by
    cases a <;> cases b <;> first | rfl | exact absurd ⟨rfl, rfl⟩ (hints _ _)
  refine ⟨"numeric_binop called with a non-arithmetic opcode", ?_⟩
  obtain ⟨op, dst, lhs, rhs, imm⟩ := instr
  simp only at hop ha hb
  rw [step_of_next host hnext, hop]
  simp only [exec, Exec.runFrom_bind, runFrom_read_fetched ha, runFrom_read_fetched hb, hfault]
  rfl

/-- A step after which the flow goes on leaves a frame. -/
theorem frames_of_step (h : ¬Ended (vm.step host).1) : (vm.step host).2.frames ≠ [] := by
  have hmoves := step_moves host vm
  generalize (vm.step host).1 = r, (vm.step host).2 = vm' at hmoves h
  have hfetched {instr : Instruction} (hnext : vm.next = some instr) : vm.fetched.frames ≠ [] := by
    obtain ⟨frame, rest, hframes⟩ := frames_of_next hnext
    rw [fetched_of_frames hframes]
    exact List.cons_ne_nil _ _
  cases hmoves with
  | stuck => exact absurd trivial h
  | result hnext => exact hfetched hnext
  | passes hnext => exact hfetched hnext
  | jumps hnext hop hframes =>
    rw [@goto_of_frames vm.counted _ _ hframes]
    exact List.cons_ne_nil _ _
  | stores hnext reg v hvm hset =>
    obtain ⟨_, _, _, _, heq⟩ := setReg_ok hset
    rw [heq]
    exact List.cons_ne_nil _ _
  | refuses => exact absurd trivial h
  | calls => exact List.cons_ne_nil _ _
  | completes => exact absurd trivial h
  | returns hframes hv hdest hset =>
    obtain ⟨_, _, _, _, heq⟩ := setReg_ok hset
    rw [heq]
    exact List.cons_ne_nil _ _
  | loses => exact absurd trivial h

/-- A slice after which the flow goes on leaves a frame. -/
theorem frames_of_run {host : ℕ → Host} {budget : ℕ} (hframes : vm.frames ≠ [])
    (h : ¬Ended (some (run host budget vm).1)) : (run host budget vm).2.frames ≠ [] := by
  induction budget generalizing vm with
  | zero => exact hframes
  | succ budget ih =>
    unfold run at h ⊢
    have hstep := @frames_of_step vm (host vm.instructionsExecuted)
    rcases hr : vm.step (host vm.instructionsExecuted) with ⟨r, vm'⟩
    rw [hr] at hstep
    simp only [hr] at h ⊢
    cases r with
    | none => exact ih (hstep fun h => h) h
    | some r => exact hstep h

/-- The VM before a slice that is not the last one. -/
structure Live (natives : NativeTable) (vm : Vm) : Prop where
  frames : vm.frames ≠ []
  natives_eq : vm.natives = natives

theorem live_step {natives : NativeTable} (h : vm.natives = natives) (host : Host) :
    (vm.step host).2.natives = natives :=
  (congrArg Program.natives (step_program host vm)).trans h

theorem Live.apply {natives : NativeTable} (h : Live natives vm) (c : Call)
    (hc : ¬Ended (vm.apply c).1) : Live natives (vm.apply c).2 := by
  refine ⟨?_, apply_keeps (I := fun vm => vm.natives = natives) (fun vm host h => live_step h host)
    (fun vm host reg v h => ?_) (fun _ _ h => h) h.natives_eq c⟩
  · cases c with
    | run host budget => exact frames_of_run h.frames hc
    | resumeWith host reg v =>
      rcases (setReg_cases host vm reg v).2 with hf | ⟨frame, rest, _, hf⟩
      · exact fun hnil => h.frames (hf.symm.trans hnil)
      · exact fun hnil => List.cons_ne_nil _ _ (hf.symm.trans hnil)
    | setQuota quota =>
      show ((vm.setQuota quota).toOption.getD vm).frames ≠ []
      cases hset : vm.setQuota quota with
      | error fault => exact h.frames
      | ok vm' =>
        obtain ⟨quota', _, hset⟩ := of_bind_ok hset
        cases hset
        exact h.frames
    | alloc bytes => exact h.frames
    | free bytes => exact h.frames
  · rw [← h]
    exact congrArg Program.natives (setReg_cases host vm reg v).1

/-- A slice breaks an invariant exactly where it takes a remainder of what are not integers. -/
theorem run_invariant_iff {natives : NativeTable} (hnatives : natives.FailsAsNative)
    (h : Live natives vm) (host : ℕ → Host) (budget : ℕ) :
    (∃ message, (run host budget vm).1 = .trap (.invariant message)) ↔
      ∃ v ∈ visited host budget vm, v.Remainder := by
  induction budget generalizing vm with
  | zero =>
    constructor
    · rintro ⟨message, hrun⟩
      cases hrun
    · rintro ⟨v, hv, -⟩
      cases hv
  | succ budget ih =>
    have hstep := @frames_of_step vm (host vm.instructionsExecuted)
    have hnat := live_step h.natives_eq (host vm.instructionsExecuted)
    have hremainder {message : String} := @remainder_of_step vm (host vm.instructionsExecuted)
      h.frames (h.natives_eq ▸ hnatives) message
    have hreports := @step_of_remainder vm (host vm.instructionsExecuted)
    unfold run visited
    rcases hr : vm.step (host vm.instructionsExecuted) with ⟨r, vm'⟩
    rw [hr] at hstep hnat hremainder hreports
    cases r with
    | none =>
      refine (ih ⟨hstep fun h => h, hnat⟩).trans ?_
      constructor
      · rintro ⟨v, hv, hrem⟩
        exact ⟨v, List.mem_cons_of_mem _ hv, hrem⟩
      · rintro ⟨v, hv, hrem⟩
        rcases List.mem_cons.mp hv with rfl | hv
        · obtain ⟨message, hm⟩ := hreports hrem
          cases hm
        · exact ⟨v, hv, hrem⟩
    | some r =>
      constructor
      · rintro ⟨message, hm⟩
        exact ⟨vm, List.mem_cons_self, hremainder (congrArg some hm)⟩
      · rintro ⟨v, hv, hrem⟩
        obtain rfl := List.mem_singleton.mp hv
        obtain ⟨message, hm⟩ := hreports hrem
        exact ⟨message, Option.some.inj hm⟩

/-- **Broken invariants.** Until the flow ends, a slice reports one exactly if it takes the
remainder of what are not two integers. -/
theorem invariant_iff_remainder {natives : NativeTable} (hnatives : natives.FailsAsNative)
    {gate : NativeGate} {function : UInt32} {args : List Value}
    (hnew : withNativeGate chunk natives gate function args = .ok vm) {cs : List Call}
    (hcs : Schedule.Guarded (fun vm c => (vm.apply c).2) (fun vm c => ¬Ended (vm.apply c).1) vm cs)
    (host : ℕ → Host) (budget : ℕ) :
    (∃ message, (run host budget (vm.calls cs)).1 = .trap (.invariant message)) ↔
      ∃ v ∈ visited host budget (vm.calls cs), v.Remainder := by
  have hlive : Live natives vm := by
    obtain ⟨frame, henter, hnew⟩ := of_bind_ok hnew
    cases hnew
    exact ⟨List.cons_ne_nil _ _, rfl⟩
  exact run_invariant_iff hnatives
    (hcs.invariant (I := Live natives) (fun _ c hc h => h.apply c hc) hlive) host budget

/-- A program that divides a unit by itself, with remainder. -/
def unitRemainder : Chunk where
  name := "unitRemainder"
  constants := []
  code := [.abc .mod 0 0 0, .aImm .return 0 0]
  functions := [⟨"main", 0, 0, 1⟩]

/-- A flow at the start of it, without rights. -/
def unitRemainderVm : Vm :=
  ⟨unitRemainder, stdNatives, ⟨false, ⟨[]⟩, 0, 0, 0, 0⟩, [⟨0, 0, [.unit], none⟩], 0, 1, none⟩

theorem unitRemainder_new :
    withNativeGate unitRemainder stdNatives ⟨false, ⟨[]⟩, 0, 0, 0, 0⟩ 0 [] =
      .ok unitRemainderVm := rfl

theorem invariant_iff_remainder_unit :
    (∃ message, (run (fun _ => ⟨0, false, fun _ => 0⟩) 1 (unitRemainderVm.calls [])).1 =
        .trap (.invariant message)) ↔
      ∃ v ∈ visited (fun _ => ⟨0, false, fun _ => 0⟩) 1 (unitRemainderVm.calls []),
        v.Remainder := by
  have hcs : Schedule.Guarded (fun vm c => (Vm.apply vm c).2) (fun vm c => ¬Ended (vm.apply c).1)
      unitRemainderVm [] := trivial
  exact invariant_iff_remainder stdNatives_failsAsNative unitRemainder_new hcs _ _

/-- The chunk is verified, and its flow reports a broken invariant. -/
theorem invariant_reached :
    unitRemainder.verifyWith .untrusted = .ok () ∧
      withNativeGate unitRemainder stdNatives ⟨false, ⟨[]⟩, 0, 0, 0, 0⟩ 0 [] =
        .ok unitRemainderVm ∧
      (run (fun _ => ⟨0, false, fun _ => 0⟩) 1 unitRemainderVm).1 =
        .trap (.invariant "numeric_binop called with a non-arithmetic opcode") :=
  ⟨by decide, unitRemainder_new, rfl⟩

end Vm

end Byteflow
