import Byteflow.Vm.Machine

/-!
# What a flow can come by

A flow's registers hold what its instructions put there: constants of its chunk, results of natives
and of arithmetic, what the scheduler delivers. If a property holds of each of these, it holds of
every register and of every value that the VM hands to the scheduler (`step_holds`).
-/

/-- Inversion of a sequence that succeeds. -/
theorem of_bind_ok {ε α β : Type} {x : Except ε α} {f : α → Except ε β} {b : β}
    (h : x >>= f = .ok b) : ∃ a, x = .ok a ∧ f a = .ok b := by
  cases x with
  | error e => cases h
  | ok a => exact ⟨a, rfl, h⟩

/-- Inversion of a sequence that fails. -/
theorem of_bind_error {ε α β : Type} {x : Except ε α} {f : α → Except ε β} {e : ε}
    (h : x >>= f = .error e) : x = .error e ∨ ∃ a, x = .ok a ∧ f a = .error e := by
  cases x with
  | error e' =>
    cases h
    exact .inl rfl
  | ok a => exact .inr ⟨a, rfl, h⟩

namespace Byteflow

namespace Value

/-- A value without a token or a message in it. -/
def Plain (v : Value) : Prop := v.asCap = none ∧ v.asMessage = none

theorem plain_unit : Plain .unit := ⟨rfl, rfl⟩

theorem plain_bool (b : Bool) : Plain (.bool b) := ⟨rfl, rfl⟩

theorem plain_int (i : Int64) : Plain (.int i) := ⟨rfl, rfl⟩

theorem plain_float (bits : UInt64) : Plain (.float bits) := ⟨rfl, rfl⟩

end Value

/-- Every value that the scheduler is handed satisfies `p`. -/
def VmResult.All (p : Value → Prop) : VmResult → Prop
  | complete value => p value
  | spawn _ args _ _ => ∀ v ∈ args, p v
  | send targetCap message => p (.cap targetCap) ∧ p message
  | ask _ targetCap request _ => p (.cap targetCap) ∧ p request
  | monitor _ targetCap | link _ targetCap => p (.cap targetCap)
  | delegate _ srcCap _ native => p (.cap srcCap) ∧ ∀ id ∈ native, p (.cap id)
  | _ => True

namespace Vm

open Exec

/-- The program of a flow: what does not change as it runs. -/
structure Program where
  chunk : Chunk
  natives : NativeTable
  nativeGate : NativeGate

def program (vm : Vm) : Program := ⟨vm.chunk, vm.natives, vm.nativeGate⟩

/-- `p` holds of whatever the program makes without the scheduler. -/
structure Program.Closed (prog : Program) (p : Value → Prop) : Prop where
  plain : ∀ v : Value, v.Plain → p v
  constant : ∀ index v, prog.chunk.constant index = some v → p v
  native : ∀ epoch index, checkNativeGate prog.nativeGate epoch prog.natives index = .ok () →
    ∀ f, prog.natives.get index = some f → ∀ tick args v, (∀ a ∈ args, p a) →
      f tick args = .ok v → p v

/-- `p` holds of whatever the program makes without the scheduler and without natives. -/
structure Program.Supplies (prog : Program) (p : Value → Prop) : Prop where
  plain : ∀ v : Value, v.Plain → p v
  constant : ∀ index v, prog.chunk.constant index = some v → p v

theorem Program.Closed.supplies {prog : Program} {p : Value → Prop} (h : prog.Closed p) :
    prog.Supplies p := ⟨h.plain, h.constant⟩

/-- A VM that runs the program, all of whose registers satisfy `p`. -/
structure Holds (prog : Program) (p : Value → Prop) (vm : Vm) : Prop where
  program : vm.program = prog
  registers : ∀ frame ∈ vm.frames, ∀ v ∈ frame.registers, p v

variable {prog : Program} {p : Value → Prop} {vm : Vm}

theorem Holds.congr (h : Holds prog p vm) {vm' : Vm} (hp : vm'.program = vm.program)
    (hf : vm'.frames = vm.frames) : Holds prog p vm' :=
  ⟨hp.trans h.program, hf ▸ h.registers⟩

theorem Holds.getReg (h : Holds prog p vm) {reg : UInt8} {v : Value}
    (hv : vm.getReg reg = .ok v) : p v := by
  unfold Vm.getReg at hv
  cases hframes : vm.frames with
  | nil => simp [hframes] at hv
  | cons frame rest =>
    simp only [hframes] at hv
    cases hreg : frame.registers[reg.toNat]? with
    | none => simp [hreg] at hv
    | some w =>
      simp only [hreg] at hv
      cases hv
      exact h.registers frame (hframes ▸ List.mem_cons_self) v (List.mem_of_getElem? hreg)

/-- A store changes one register of the top frame, or nothing but the quota. -/
theorem setReg_cases (host : Host) (vm : Vm) (reg : UInt8) (value : Value) :
    (vm.setReg host reg value).2.program = vm.program ∧
      ((vm.setReg host reg value).2.frames = vm.frames ∨
        ∃ frame rest, vm.frames = frame :: rest ∧ (vm.setReg host reg value).2.frames =
          { frame with registers := frame.registers.set reg.toNat value } :: rest) := by
  have hcharge (vm' : Vm) (h : vm.chargeRegisterStore host reg value = .ok vm') :
      vm'.program = vm.program ∧ vm'.frames = vm.frames := by
    unfold chargeRegisterStore at h
    split at h
    · cases h
      exact ⟨rfl, rfl⟩
    split at h
    · cases h
      exact ⟨rfl, rfl⟩
    split at h <;> cases h
    exact ⟨rfl, rfl⟩
  unfold setReg
  cases h : vm.chargeRegisterStore host reg value with
  | error fault => exact ⟨rfl, .inl rfl⟩
  | ok vm' =>
    obtain ⟨hprog, hframes⟩ := hcharge vm' h
    cases hf : vm'.frames with
    | nil => simp only [hf]; exact ⟨hprog, .inl (hf ▸ hframes)⟩
    | cons frame rest =>
      rw [hf] at hframes
      simp only [hf]
      split
      · exact ⟨hprog, .inr ⟨frame, rest, hframes.symm, rfl⟩⟩
      · exact ⟨hprog, .inl (hf.trans hframes)⟩

theorem Holds.setReg (h : Holds prog p vm) (host : Host) (reg : UInt8) {value : Value}
    (hv : p value) : Holds prog p (vm.setReg host reg value).2 := by
  obtain ⟨hprog, hframes | ⟨frame, rest, hold, hnew⟩⟩ := vm.setReg_cases host reg value
  · exact h.congr hprog hframes
  · refine ⟨hprog.trans h.program, fun frame' hmem v hreg => ?_⟩
    rw [hnew] at hmem
    rcases List.mem_cons.mp hmem with rfl | hmem
    · rcases List.mem_or_eq_of_mem_set hreg with hreg | rfl
      · exact h.registers frame (hold ▸ List.mem_cons_self) v hreg
      · exact hv
    · exact h.registers frame' (hold ▸ List.mem_cons_of_mem _ hmem) v hreg

theorem Holds.gather (h : Holds prog p vm) {base : UInt8} {offset argc : ℕ} {args : List Value}
    (ha : vm.gather base offset argc = .ok args) : ∀ v ∈ args, p v := by
  induction argc generalizing offset args with
  | zero =>
    cases ha
    exact fun v hv => absurd hv List.not_mem_nil
  | succ argc ih =>
    rw [Vm.gather] at ha
    obtain ⟨reg, _, ha⟩ := of_bind_ok ha
    obtain ⟨v, hv, ha⟩ := of_bind_ok ha
    obtain ⟨vs, hvs, ha⟩ := of_bind_ok ha
    cases ha
    intro w hw
    rcases List.mem_cons.mp hw with rfl | hw
    · exact h.getReg hv
    · exact ih hvs w hw

theorem loadArgs_holds {frameSize : UInt8} {i : ℕ} {args registers registers' : List Value}
    (h : loadArgs frameSize i args registers = .ok registers') (ha : ∀ v ∈ args, p v)
    (hr : ∀ v ∈ registers, p v) : ∀ v ∈ registers', p v := by
  induction args generalizing i registers registers' with
  | nil =>
    cases h
    exact hr
  | cons a args ih =>
    cases registers with
    | nil => cases h
    | cons r registers =>
      obtain ⟨rest, hrest, h⟩ := of_bind_ok h
      cases h
      intro v hv
      rcases List.mem_cons.mp hv with rfl | hv
      · exact ha _ List.mem_cons_self
      · exact ih hrest (fun v hv => ha v (List.mem_cons_of_mem _ hv))
          (fun v hv => hr v (List.mem_cons_of_mem _ hv)) v hv

/-- The registers of a new frame hold the arguments and `Unit`. -/
theorem enter_holds {chunk : Chunk} {function : UInt32} {args : List Value}
    {destReg : Option UInt8} {frame : Frame} (h : enter chunk function args destReg = .ok frame)
    (hunit : p .unit) (ha : ∀ v ∈ args, p v) : ∀ v ∈ frame.registers, p v := by
  unfold enter at h
  cases hf : chunk.function function with
  | none => simp [hf] at h
  | some f =>
    simp only [hf] at h
    obtain ⟨registers, hl, h⟩ := of_bind_ok h
    cases h
    refine loadArgs_holds hl (fun v hv => ha v (List.mem_of_mem_take hv)) fun v hv => ?_
    exact (List.eq_of_mem_replicate hv) ▸ hunit

theorem withNativeGate_holds {chunk : Chunk} {natives : NativeTable} {gate : NativeGate}
    {function : UInt32} {args : List Value} {vm : Vm}
    (h : withNativeGate chunk natives gate function args = .ok vm) (hunit : p .unit)
    (ha : ∀ v ∈ args, p v) : Holds ⟨chunk, natives, gate⟩ p vm := by
  obtain ⟨frame, hf, h⟩ := of_bind_ok h
  cases h
  refine ⟨rfl, fun frame' hmem => ?_⟩
  obtain rfl := List.mem_singleton.mp hmem
  exact enter_holds hf hunit ha

theorem Holds.setQuota (h : Holds prog p vm) {quota : FlowQuota} {vm' : Vm}
    (hq : vm.setQuota quota = .ok vm') : Holds prog p vm' := by
  obtain ⟨quota', _, hq⟩ := of_bind_ok hq
  cases hq
  exact h.congr rfl rfl

theorem Holds.freshRequestId (h : Holds prog p vm) : Holds prog p vm.freshRequestId.2 := by
  unfold Vm.freshRequestId
  split <;> exact h.congr rfl rfl

theorem Holds.resumeWith (h : Holds prog p vm) (host : Host) (reg : UInt8) {value : Value}
    (hv : p value) : Holds prog p (vm.resumeWith host reg value) := h.setReg host reg hv

/-! ## Instructions -/

/-- The code keeps what the registers hold, and hands over nothing else. -/
abbrev Keeps (prog : Program) (p : Value → Prop) {α : Type} (x : Code α) (Q : α → Prop) : Prop :=
  Sat (Holds prog p) x Q (VmResult.All p)

theorem keeps_trap {α : Type} {r : Except Fault α} {Q : α → Prop} (h : ∀ a, r = .ok a → Q a) :
    Keeps prog p (trap r) Q := by
  cases r with
  | ok a => exact sat_pure (h a rfl)
  | error fault => exact sat_throw trivial

theorem keeps_read (reg : UInt8) : Keeps prog p (read reg) p :=
  sat_get.bind fun _ h => keeps_trap fun _ hv => h.getReg hv

theorem keeps_write (host : Host) (reg : UInt8) {value : Value} (hv : p value) :
    Keeps prog p (write host reg value) fun _ => True :=
  sat_get.bind fun _ h => (sat_set (h.setReg host reg hv)).bind fun _ _ =>
    keeps_trap fun _ _ => trivial

theorem keeps_fetch : Keeps prog p fetch fun _ => True := by
  refine sat_get.bind fun vm h => ?_
  split
  · exact sat_throw trivial
  · rename_i frame rest hframes
    split
    · refine (sat_set ⟨h.program, fun frame' hmem => ?_⟩).bind fun _ _ => sat_pure trivial
      rcases List.mem_cons.mp hmem with rfl | hmem
      · exact h.registers frame (hframes ▸ List.mem_cons_self)
      · exact h.registers frame' (hframes ▸ List.mem_cons_of_mem _ hmem)
    · exact sat_pure trivial

theorem keeps_jump (imm : Int32) : Keeps prog p (jump imm) fun _ => True := by
  refine sat_get.bind fun vm h => ?_
  split
  · exact sat_throw trivial
  · rename_i frame rest hframes
    refine sat_set ⟨h.program, fun frame' hmem => ?_⟩
    rcases List.mem_cons.mp hmem with rfl | hmem
    · exact h.registers frame (hframes ▸ List.mem_cons_self)
    · exact h.registers frame' (hframes ▸ List.mem_cons_of_mem _ hmem)

theorem keeps_popFrame (host : Host) {value : Value} (hv : p value) :
    Keeps prog p (popFrame host value) fun _ => True := by
  refine sat_get.bind fun vm h => ?_
  split
  · exact sat_throw trivial
  · rename_i finished rest hframes
    have hrest : Holds prog p { vm with frames := rest } :=
      ⟨h.program, fun frame hmem => h.registers frame (hframes ▸ List.mem_cons_of_mem _ hmem)⟩
    split
    · exact (sat_set hrest).bind fun _ _ => sat_throw hv
    · rename_i dest _
      refine (sat_set (hrest.setReg host dest hv)).bind fun _ _ => ?_
      split
      · exact sat_pure trivial
      · exact sat_throw trivial

theorem keeps_call (hc : prog.Supplies p) (function : UInt32) (argc dst : UInt8) :
    Keeps prog p (call function argc dst) fun _ => True := by
  refine sat_get.bind fun vm h => ?_
  split
  · exact sat_throw trivial
  split
  · exact sat_throw trivial
  · refine (keeps_trap fun args ha => h.gather ha).bind fun args ha => ?_
    refine (keeps_trap fun frame hf => enter_holds hf (hc.plain _ Value.plain_unit) ha).bind
      fun frame hf => sat_set ⟨h.program, fun frame' hmem => ?_⟩
    rcases List.mem_cons.mp hmem with rfl | hmem
    · exact hf
    · exact h.registers frame' hmem

theorem nativeCall_ok {host : Host} {vm : Vm} {index : UInt32} {argc dst : UInt8}
    {native : NativeFn} {args : List Value}
    (h : vm.nativeCall host index argc dst = .ok (native, args)) :
    checkNativeGate vm.nativeGate host.epoch vm.natives index = .ok () ∧
      vm.natives.get index = some native ∧ vm.gather dst 0 argc.toNat = .ok args := by
  unfold nativeCall at h
  split at h
  · cases h
  · cases h
  · rename_i hgate
    refine ⟨hgate, ?_⟩
    split at h
    · cases h
    · rename_i f hf
      obtain ⟨args', hg, h⟩ := of_bind_ok h
      cases h
      exact ⟨hf, hg⟩

/-- What a native returns is written. -/
theorem callNative_holds (h : Holds prog p vm) {host : Host} {index : UInt32} {argc dst : UInt8}
    (hv : ∀ call, vm.nativeCall host index argc dst = .ok call →
      ∀ v, call.1 host.tick call.2 = .ok v → p v) :
    Holds prog p ((callNative host index argc dst).runFrom vm).2 ∧
      (∀ a, ((callNative host index argc dst).runFrom vm).1 = .ok a → True) ∧
      ∀ r, ((callNative host index argc dst).runFrom vm).1 = .error r → r.All p := by
  unfold callNative
  rw [runFrom_bind, runFrom_get]
  exact ((keeps_trap hv).bind fun _ hcall => (keeps_trap hcall).bind fun _ hv =>
    keeps_write host dst hv) vm h

theorem keeps_callNative (hc : prog.Closed p) (host : Host) (index : UInt32) (argc dst : UInt8) :
    Keeps prog p (callNative host index argc dst) fun _ => True := by
  refine fun vm h => callNative_holds h fun call hcall v hrun => ?_
  obtain ⟨native, args⟩ := call
  obtain ⟨hgate, hget, hargs⟩ := nativeCall_ok hcall
  obtain rfl := h.program
  exact hc.native _ index hgate native hget host.tick args v (h.gather hargs) hrun

theorem plain_of_numericBinop {op : Opcode} {a b v : Value} (h : numericBinop op a b = .ok v) :
    v.Plain := by
  have hfloat {x y : Except Fault Float} {f : Float → Float → UInt64}
      (h : (do return .float (f (← x) (← y))) = Except.ok v) : v.Plain := by
    obtain ⟨_, _, h⟩ := of_bind_ok h
    obtain ⟨_, _, h⟩ := of_bind_ok h
    cases h
    exact Value.plain_float _
  have hbool {x y : Except Fault Float} {f : Float → Float → Bool}
      (h : (do return .bool (f (← x) (← y))) = Except.ok v) : v.Plain := by
    obtain ⟨_, _, h⟩ := of_bind_ok h
    obtain ⟨_, _, h⟩ := of_bind_ok h
    cases h
    exact Value.plain_bool _
  have hint {c : Prop} [Decidable c] {fault : Fault} {i : Int64}
      (h : (if c then Except.error fault else .ok (.int i)) = .ok v) : v.Plain := by
    split at h <;> cases h
    exact Value.plain_int _
  unfold numericBinop at h
  split at h
  · cases h
    exact Value.plain_int _
  · exact hfloat h
  · cases h
    exact Value.plain_int _
  · exact hfloat h
  · cases h
    exact Value.plain_int _
  · exact hfloat h
  · exact hint h
  · obtain ⟨y, _, h⟩ := of_bind_ok h
    obtain ⟨x, _, h⟩ := of_bind_ok h
    cases h
    exact Value.plain_float _
  · exact hint h
  · cases h
    exact Value.plain_bool _
  · cases h
    exact Value.plain_bool _
  · exact hbool h
  · cases h
    exact Value.plain_bool _
  · exact hbool h
  · cases h

theorem plain_of_negate {a v : Value} (h : negate a = .ok v) : v.Plain := by
  cases a <;> cases h
  · exact ⟨rfl, rfl⟩
  · exact ⟨rfl, rfl⟩

theorem cap_of_capOf {v : Value} {id : CapId} (h : capOf v = .ok id) : v = .cap id := by
  cases v <;> cases h
  rfl

theorem keeps_numeric (hc : prog.Supplies p) (host : Host) (op : Opcode) (dst lhs rhs : UInt8) :
    Keeps prog p (do
      let a ← read lhs
      let b ← read rhs
      write host dst (← trap (numericBinop op a b))) fun _ => True :=
  (keeps_read lhs).bind fun _ _ => (keeps_read rhs).bind fun _ _ =>
    (keeps_trap fun _ h => plain_of_numericBinop h).bind fun v hv =>
      keeps_write host dst (hc.plain v hv)

theorem keeps_plain {α : Type} (r : Except Fault α) : Keeps prog p (trap r) fun _ => True :=
  keeps_trap fun _ _ => trivial

theorem keeps_capOf {v : Value} (hv : p v) : Keeps prog p (trap (capOf v)) fun id => p (.cap id) :=
  keeps_trap fun _ h => cap_of_capOf h ▸ hv

/-- **Opcodes.** What an instruction writes, and what it hands over, satisfies `p`. -/
theorem keeps_exec (hc : prog.Supplies p) (host : Host) (instr : Instruction)
    (hcall : instr.op = .callNative →
      Keeps prog p (callNative host instr.imm.toUInt32 instr.b instr.a) fun _ => True) :
    Keeps prog p (exec host instr) fun _ => True := by
  obtain ⟨op, a, b, c, imm⟩ := instr
  cases op with
  | halt => exact (keeps_read _).bind fun v hv => sat_throw hv
  | nop => exact sat_pure trivial
  | loadConst =>
    refine sat_get.bind fun vm h => ?_
    obtain rfl := h.program
    cases hk : vm.chunk.constant imm.toUInt32 with
    | some v =>
      simp only [hk]
      exact keeps_write host _ (hc.constant _ _ hk)
    | none =>
      simp only [hk]
      exact sat_throw trivial
  | loadImm => exact keeps_write host _ (hc.plain _ (Value.plain_int _))
  | move => exact (keeps_read _).bind fun v hv => keeps_write host _ hv
  | neg =>
    exact (keeps_read _).bind fun v hv => (keeps_trap fun _ h => plain_of_negate h).bind
      fun v hv => keeps_write host _ (hc.plain v hv)
  | jump => exact keeps_jump _
  | branch =>
    refine (keeps_read _).bind fun v _ => ?_
    split
    · exact keeps_jump _
    · exact sat_pure trivial
  | call => exact keeps_call hc imm.toUInt32 b a
  | callNative => exact hcall rfl
  | «return» => exact (keeps_read _).bind fun v hv => keeps_popFrame host hv
  | spawn =>
    exact sat_get.bind fun vm h => (keeps_trap fun args ha => h.gather ha).bind
      fun args ha => sat_throw ha
  | yield => exact sat_throw trivial
  | sleep =>
    exact (keeps_read _).bind fun v _ => (keeps_plain _).bind fun _ _ => sat_throw trivial
  | exit => exact (keeps_read _).bind fun v hv => sat_throw hv
  | selfPid => exact sat_throw trivial
  | send =>
    exact (keeps_read _).bind fun target ht => (keeps_read _).bind fun message hm =>
      (keeps_capOf ht).bind fun cap hcap => (keeps_plain _).bind fun _ _ => sat_throw ⟨hcap, hm⟩
  | receive => exact sat_throw trivial
  | receiveTimeout => exact (keeps_read _).bind fun _ _ => sat_throw trivial
  | receiveMatch =>
    exact (keeps_read _).bind fun _ _ => (keeps_plain _).bind fun _ _ => sat_throw trivial
  | receiveMatchImm => exact (keeps_plain _).bind fun _ _ => sat_throw trivial
  | freshRequestId =>
    refine sat_get.bind fun vm h => ?_
    exact (sat_set h.freshRequestId).bind fun _ _ =>
      keeps_write host _ (hc.plain _ (Value.plain_int _))
  | receiveMatchCorr =>
    exact (keeps_read _).bind fun _ _ => (keeps_plain _).bind fun _ _ =>
      (keeps_read _).bind fun _ _ => (keeps_plain _).bind fun _ _ => sat_throw trivial
  | receiveMatchCorrImm =>
    exact (keeps_plain _).bind fun _ _ => (keeps_read _).bind fun _ _ =>
      (keeps_plain _).bind fun _ _ => sat_throw trivial
  | ask =>
    exact (keeps_read _).bind fun target ht => (keeps_read _).bind fun request hr =>
      (keeps_capOf ht).bind fun cap hcap => (keeps_plain _).bind fun _ _ => sat_throw ⟨hcap, hr⟩
  | askTimeout =>
    refine (keeps_read _).bind fun target ht => (keeps_read _).bind fun request hr => ?_
    have hrest : Keeps prog p (do
        let millis ← read (UInt8.ofNat imm.toInt.toNat)
        let cap ← trap (capOf target)
        trap (expectMessage request)
        throw (.ask a cap request (some (timeoutMillis millis))) : Code Unit)
        fun _ => True :=
      (keeps_read _).bind fun _ _ => (keeps_capOf ht).bind fun cap hcap =>
        (keeps_plain _).bind fun _ _ => sat_throw ⟨hcap, hr⟩
    split
    · exact (sat_throw trivial).bind fun _ (_ : True) => hrest
    · exact hrest
  | monitor =>
    exact (keeps_read _).bind fun v hv => (keeps_capOf hv).bind fun cap hcap => sat_throw hcap
  | demonitor => exact sat_throw trivial
  | link =>
    exact (keeps_read _).bind fun v hv => (keeps_capOf hv).bind fun cap hcap => sat_throw hcap
  | unlink => exact sat_throw trivial
  | registerName =>
    exact (keeps_read _).bind fun _ _ => (keeps_plain _).bind fun _ _ => sat_throw trivial
  | whereis =>
    exact (keeps_read _).bind fun _ _ => (keeps_plain _).bind fun _ _ => sat_throw trivial
  | delegate =>
    refine (keeps_read _).bind fun v hv => (keeps_capOf hv).bind fun src hsrc => ?_
    have hthrow (native : Option CapId) (hn : ∀ id ∈ native, p (.cap id)) : Keeps prog p
        (throw (.delegate a src ⟨imm.toUInt32⟩ native) : Code Unit) fun _ => True :=
      sat_throw ⟨hsrc, hn⟩
    split
    · exact (sat_pure fun _ h => nomatch h).bind hthrow
    · refine Sat.bind (((keeps_read _).bind fun v hv => keeps_capOf hv).map fun id hid => ?_) hthrow
      intro id' hmem
      cases hmem
      exact hid
  | trap => exact sat_throw trivial
  | add | sub | mul | div | mod | eq | lt | le => exact keeps_numeric hc host _ a b c

theorem keeps_instruction (hc : prog.Closed p) (host : Host) :
    Keeps prog p (instruction host) fun _ => True := by
  refine (sat_modify fun vm h => h.congr rfl rfl).bind fun _ _ => keeps_fetch.bind fun r _ => ?_
  cases r with
  | some instr =>
    exact keeps_exec hc.supplies host instr fun _ => keeps_callNative hc host _ _ _
  | none => exact keeps_popFrame host (hc.plain _ Value.plain_unit)

/-- **One instruction.** The registers keep `p`, and so does all that is handed over. -/
theorem Holds.step (hc : prog.Closed p) (h : Holds prog p vm) (host : Host) :
    Holds prog p (vm.step host).2 ∧ ∀ r ∈ (vm.step host).1, r.All p := by
  obtain ⟨hI, _, hE⟩ := keeps_instruction hc host vm h
  unfold Vm.step
  rcases hrun : (instruction host).runFrom vm with ⟨r, vm'⟩
  rw [hrun] at hI hE
  cases r with
  | ok _ => exact ⟨hI, fun _ hr => nomatch hr⟩
  | error result =>
    refine ⟨hI, fun r hr => ?_⟩
    cases hr
    exact hE result rfl

/-- Nothing that a VM does changes its program. -/
theorem step_program (host : Host) (vm : Vm) : (vm.step host).2.program = vm.program := by
  have hholds : Holds vm.program (fun _ => True) vm := ⟨rfl, fun _ _ _ _ => trivial⟩
  have hclosed : vm.program.Closed fun _ => True :=
    ⟨fun _ _ => trivial, fun _ _ _ => trivial, fun _ _ _ _ _ _ _ _ _ _ => trivial⟩
  exact (hholds.step hclosed host).1.program

end Vm

end Byteflow
