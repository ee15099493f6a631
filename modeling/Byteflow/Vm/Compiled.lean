import Byteflow.Bytecode.Linked
import Byteflow.Vm.Labels
import Byteflow.Vm.Meaning

/-!
# Compiled programs

The VM runs the chunk of a `Module` as the program says. A frame of the VM matches an activation if
its registers hold the values in scope (`Holds`) and its program counter stands where the code of
what is left to do begins (`Follows`); a caller waits for the value of one more variable. Every step
of the program is one step of the VM or two (`simulation`), so the two hold the same conversations
with the scheduler.
-/

namespace Byteflow

/-! ## Small facts of the VM -/

namespace Vm

open Exec

variable {host : Host} {vm : Vm} {frame : Frame} {rest : List Frame}

theorem next_of_frames (hframes : vm.frames = frame :: rest) {instr : Instruction}
    (hcode : vm.chunk.code[frame.pc]? = some instr) : vm.next = some instr := by
  unfold next
  rw [hframes]
  exact hcode

theorem getReg_of_frames (hframes : vm.frames = frame :: rest) {reg : UInt8} {v : Value}
    (hv : frame.registers[reg.toNat]? = some v) : vm.getReg reg = .ok v := by
  unfold getReg
  rw [hframes]
  simp only [hv]

/-- No quota is charged for a light value. -/
theorem setReg_light (hframes : vm.frames = frame :: rest) {reg : UInt8} {v : Value}
    (hreg : reg.toNat < frame.registers.length) (hv : v.bufferLen = 0) (host : Host) :
    vm.setReg host reg v = (.ok (), { vm with
      frames := { frame with registers := frame.registers.set reg.toNat v } :: rest }) := by
  have hfree (quota : FlowQuota) : chargeHeapValue quota v = .ok quota := by
    cases v with
    | str s => exact if_pos hv
    | bytes b => exact if_pos hv
    | _ => rfl
  have hcharge : vm.chargeRegisterStore host reg v = .ok vm := by
    obtain ⟨chunk, natives, nativeGate, frames, instructionsExecuted, nextRequestId, quota⟩ := vm
    unfold chargeRegisterStore
    cases quota with
    | none => rfl
    | some quota =>
      simp only [hfree]
      exact ite_self _
  unfold setReg
  rw [hcharge]
  simp only [hframes, hreg, if_true]

/-- A number that is not negative as an immediate. -/
theorem toInt_toInt32 {n : UInt32} (h : n.toNat < 2 ^ 31) : n.toInt32.toInt = n.toNat := by
  rw [Int32.toInt, UInt32.toBitVec_toInt32, BitVec.toInt_eq_toNat_of_lt]
  · rfl
  · show 2 * n.toNat < 2 ^ 32
    omega

theorem toInt_index (reg : UInt8) : reg.toUInt32.toInt32.toInt = reg.toNat := by
  have hlt := reg.toNat_lt
  rw [toInt_toInt32 (by rw [UInt8.toNat_toUInt32]; omega), UInt8.toNat_toUInt32]

theorem tagFromImm_toInt32 (tag : UInt16) : tagFromImm tag.toUInt32.toInt32 = .ok tag := by
  have hlt := tag.toNat_lt
  have hint : tag.toUInt32.toInt32.toInt = tag.toNat := by
    rw [toInt_toInt32 (by rw [UInt16.toNat_toUInt32]; omega), UInt16.toNat_toUInt32]
  unfold tagFromImm
  rw [hint, if_pos ⟨by omega, by omega⟩, Int.toNat_natCast, UInt16.ofNat_toNat]

/-- What arithmetic results in has no buffer. -/
theorem light_of_numericBinop {op : Opcode} {a b v : Value} (h : numericBinop op a b = .ok v) :
    v.bufferLen = 0 := by
  have hfloat {x y : Except Fault Float} {f : Float → Float → Value}
      (hf : ∀ x y, (f x y).bufferLen = 0)
      (h : (do return f (← x) (← y)) = Except.ok v) : v.bufferLen = 0 := by
    obtain ⟨x, _, h⟩ := of_bind_ok h
    obtain ⟨y, _, h⟩ := of_bind_ok h
    cases h
    exact hf x y
  have hint {c : Prop} [Decidable c] {fault : Fault} {i : Int64}
      (h : (if c then Except.error fault else .ok (.int i)) = .ok v) : v.bufferLen = 0 := by
    split at h <;> cases h
    rfl
  unfold numericBinop at h
  split at h
  · cases h
    rfl
  · exact hfloat (fun _ _ => rfl) h
  · cases h
    rfl
  · exact hfloat (fun _ _ => rfl) h
  · cases h
    rfl
  · exact hfloat (fun _ _ => rfl) h
  · exact hint h
  · exact hfloat (f := fun y x => .float (x / y).toBits) (fun _ _ => rfl) h
  · exact hint h
  · cases h
    rfl
  · cases h
    rfl
  · exact hfloat (f := fun x y => .bool (x < y)) (fun _ _ => rfl) h
  · cases h
    rfl
  · exact hfloat (f := fun x y => .bool (x ≤ y)) (fun _ _ => rfl) h
  · cases h

theorem light_of_negate {a v : Value} (h : negate a = .ok v) : v.bufferLen = 0 := by
  cases a <;> cases h <;> rfl

theorem step_of_branch_truthy (host : Host) {cond : UInt8} {imm : Int32}
    (hnext : vm.next = some (.aImm .branch cond imm)) {v : Value} (hv : vm.getReg cond = .ok v)
    (htruthy : v.isTruthy = true) : vm.step host = (none, vm.fetched) := by
  rw [step_of_next host hnext]
  show outcome ((read cond >>= fun v => if !v.isTruthy then jump imm else pure ()).runFrom
    vm.fetched) = _
  rw [runFrom_bind, runFrom_read_fetched hv]
  simp only [htruthy, Bool.not_true, Bool.false_eq_true, if_false]
  rfl

/-- A return from the outermost function. -/
theorem runFrom_popFrame_nil (hframes : vm.frames = frame :: rest) (hdest : frame.destReg = none)
    (host : Host) (v : Value) :
    (popFrame host v).runFrom vm = (.error (.complete v), { vm with frames := rest }) := by
  unfold popFrame
  rw [runFrom_bind, runFrom_get]
  simp only [hframes, hdest]
  rfl

/-- A return of a light value. -/
theorem runFrom_popFrame {caller : Frame} {frames : List Frame}
    (hframes : vm.frames = frame :: caller :: frames) {dest : UInt8}
    (hdest : frame.destReg = some dest) (hreg : dest.toNat < caller.registers.length) {v : Value}
    (hv : v.bufferLen = 0) (host : Host) :
    (popFrame host v).runFrom vm = (.ok (), { vm with
      frames := { caller with registers := caller.registers.set dest.toNat v } :: frames }) := by
  have hset := @setReg_light { vm with frames := caller :: frames } caller frames rfl dest v hreg
    hv host
  unfold popFrame
  rw [runFrom_bind, runFrom_get]
  simp only [hframes, hdest, hset]
  rfl

theorem loadArgs_fits {frameSize : UInt8} {i : ℕ} {args registers : List Value}
    (h : args.length ≤ registers.length) :
    loadArgs frameSize i args registers = .ok (args ++ registers.drop args.length) := by
  induction args generalizing i registers with
  | nil => rfl
  | cons a args ih =>
    cases registers with
    | nil => exact absurd h (Nat.not_succ_le_zero _)
    | cons r registers =>
      rw [loadArgs, ih (Nat.le_of_succ_le_succ h)]
      rfl

/-- A call without arguments. -/
theorem step_call (host : Host) {dst : UInt8} {function : UInt32}
    (hnext : vm.next = some ⟨.call, dst, 0, 0, function.toInt32⟩) {callee : Frame}
    (hframes : vm.frames = frame :: rest) (hdepth : vm.frames.length < maxCallDepth)
    (henter : enter vm.chunk function [] (some dst) = .ok callee) :
    vm.step host = (none, { vm.counted with
      frames := callee :: { frame with pc := frame.pc + 1 } :: rest }) := by
  have hlen : ¬maxCallDepth ≤ vm.fetched.frames.length := by
    rw [fetched_of_frames hframes, Nat.not_le]
    rwa [hframes] at hdepth
  have hf : ∃ f, vm.fetched.chunk.function function = some f := by
    rw [fetched_chunk]
    cases hf : vm.chunk.function function with
    | some f => exact ⟨f, rfl⟩
    | none =>
      unfold enter at henter
      rw [hf] at henter
      cases henter
  obtain ⟨f, hf⟩ := hf
  have henter' : enter vm.fetched.chunk function [] (some dst) = .ok callee :=
    fetched_chunk.symm ▸ henter
  rw [step_of_next host hnext]
  show outcome ((call function 0 dst).runFrom vm.fetched) = _
  have hcall : (call function 0 dst).runFrom vm.fetched =
      (.ok (), { vm.fetched with frames := callee :: vm.fetched.frames }) := by
    unfold call
    rw [runFrom_bind, runFrom_get]
    simp only [hlen, if_false, hf]
    rw [runFrom_bind, show vm.fetched.gather dst 0 (0 : UInt8).toNat = .ok [] from rfl]
    show ((do
      let frame ← trap (enter vm.fetched.chunk function [] (some dst))
      set { vm.fetched with frames := frame :: vm.fetched.frames } : Code Unit)).runFrom
        vm.fetched = _
    rw [runFrom_bind, henter']
    rfl
  rw [hcall, fetched_of_frames hframes]
  rfl

/-- The frames are too many already. -/
theorem step_call_overflow (host : Host) {dst : UInt8} {function : UInt32}
    (hnext : vm.next = some ⟨.call, dst, 0, 0, function.toInt32⟩)
    (hframes : vm.frames = frame :: rest) (hdepth : maxCallDepth ≤ vm.frames.length) :
    vm.step host = (some (.trap (.callStackOverflow vm.frames.length)), vm.fetched) := by
  have hlen : vm.fetched.frames.length = vm.frames.length := by
    rw [fetched_of_frames hframes, hframes]
    rfl
  rw [step_of_next host hnext]
  show outcome ((call function 0 dst).runFrom vm.fetched) = _
  unfold call
  rw [runFrom_bind, runFrom_get]
  simp only [hlen, hdepth, if_true]
  rfl

theorem step_call_missing (host : Host) {dst : UInt8} {function : UInt32}
    (hnext : vm.next = some ⟨.call, dst, 0, 0, function.toInt32⟩)
    (hframes : vm.frames = frame :: rest) (hdepth : vm.frames.length < maxCallDepth)
    (hf : vm.chunk.function function = none) :
    vm.step host =
      (some (.trap (.badFunction function vm.chunk.functions.length)), vm.fetched) := by
  have hlen : ¬maxCallDepth ≤ vm.fetched.frames.length := by
    rw [fetched_of_frames hframes, Nat.not_le]
    rwa [hframes] at hdepth
  rw [step_of_next host hnext]
  show outcome ((call function 0 dst).runFrom vm.fetched) = _
  unfold call
  rw [runFrom_bind, runFrom_get]
  simp only [hlen, if_false, fetched_chunk, hf]
  rfl

end Vm

namespace Source

/-! ## Values in registers -/

/-- The registers hold the values, none of which has a buffer. -/
structure Holds (regs : List Reg) (registers env : List Value) : Prop where
  length : env.length = regs.length
  slot : ∀ (x : ℕ) (r : Reg), regs[x]? = some r → registers[r.index.toNat]? = env[x]?
  light : ∀ v ∈ env, v.bufferLen = 0

theorem toNat_index_ne {r t : Reg} (h : r ≠ t) : r.index.toNat ≠ t.index.toNat := fun heq =>
  h (congrArg Reg.mk (UInt8.toNat_inj.mp heq))

theorem getElem?_reg {regs : List Reg} {x : ℕ} (hx : x < regs.length) :
    regs[x]? = some (Stmt.reg regs x) := by
  unfold Stmt.reg
  rw [List.getD_eq_getElem?_getD, List.getElem?_eq_getElem hx]
  rfl

namespace Holds

variable {regs : List Reg} {registers env : List Value}

theorem get (h : Holds regs registers env) {x : ℕ} (hx : x < regs.length) :
    registers[(Stmt.reg regs x).index.toNat]? = some (value env x) ∧
      (value env x).bufferLen = 0 := by
  have hx' : x < env.length := h.length ▸ hx
  have hvalue : env[x]? = some (value env x) := by
    unfold value
    rw [List.getD_eq_getElem?_getD, List.getElem?_eq_getElem hx']
    rfl
  exact ⟨(h.slot x _ (getElem?_reg hx)).trans hvalue, h.light _ (List.mem_of_getElem? hvalue)⟩

/-- A store to no variable. -/
theorem scratch (h : Holds regs registers env) {t : Reg} (ht : t ∉ regs) (v : Value) :
    Holds regs (registers.set t.index.toNat v) env := by
  refine ⟨h.length, fun x r hr => ?_, h.light⟩
  have hne : r ≠ t := fun heq => ht (heq ▸ List.mem_of_getElem? hr)
  rw [List.getElem?_set_ne (toNat_index_ne hne).symm, h.slot x r hr]

/-- A variable more. -/
theorem push (h : Holds regs registers env) {dst : Reg} (hdst : dst ∉ regs)
    (hlt : dst.index.toNat < registers.length) {v : Value} (hv : v.bufferLen = 0) :
    Holds (regs ++ [dst]) (registers.set dst.index.toNat v) (env ++ [v]) := by
  refine ⟨by rw [List.length_append, List.length_append, h.length]; rfl, fun x r hr => ?_,
    fun w hw => ?_⟩
  · rcases lt_trichotomy x regs.length with hx | rfl | hx
    · rw [List.getElem?_append_left hx] at hr
      rw [(h.scratch hdst v).slot x r hr, List.getElem?_append_left (h.length ▸ hx)]
    · rw [List.getElem?_concat_length] at hr
      cases hr
      rw [List.getElem?_set_self hlt, ← h.length, List.getElem?_concat_length]
    · rw [List.getElem?_eq_none (by rw [List.length_append]; exact hx)] at hr
      cases hr
  · rcases List.mem_append.mp hw with hw | hw
    · exact h.light w hw
    · rw [List.mem_singleton.mp hw]
      exact hv

/-- Another value for a variable. -/
theorem store (h : Holds regs registers env) (hnodup : regs.Nodup) {x : ℕ} (hx : x < regs.length)
    {v : Value} (hv : v.bufferLen = 0) :
    Holds regs (registers.set (Stmt.reg regs x).index.toNat v) (env.set x v) := by
  have hlt := (List.getElem?_eq_some_iff.mp (h.get hx).1).1
  refine ⟨by rw [List.length_set, h.length], fun y r hr => ?_, fun w hw => ?_⟩
  · by_cases hxy : x = y
    · subst hxy
      rw [getElem?_reg hx] at hr
      cases hr
      rw [List.getElem?_set_self hlt, List.getElem?_set_self (h.length ▸ hx)]
    · have hne : Stmt.reg regs x ≠ r := fun heq =>
        hxy ((List.getElem?_inj hx hnodup).mp ((getElem?_reg hx).trans (heq ▸ hr.symm)))
      rw [List.getElem?_set_ne (toNat_index_ne hne), List.getElem?_set_ne hxy, h.slot y r hr]
  · rcases List.mem_or_eq_of_mem_set hw with hw | rfl
    · exact h.light w hw
    · exact hv

/-- The variables of an outer scope. -/
theorem take (h : Holds regs registers env) {regs₀ : List Reg} (hsub : regs₀ <+: regs) :
    Holds regs₀ registers (env.take regs₀.length) := by
  have hle := hsub.length_le
  refine ⟨by rw [List.length_take, h.length]; exact Nat.min_eq_left hle, fun x r hr => ?_,
    fun v hv => h.light v (List.mem_of_mem_take hv)⟩
  have hx := (List.getElem?_eq_some_iff.mp hr).1
  obtain ⟨rest, rfl⟩ := hsub
  rw [List.getElem?_take_of_lt hx]
  exact h.slot x r (by rw [List.getElem?_append_left hx, hr])

end Holds

/-! ## What is left to do -/

theorem Laid.prefix {chunk : Chunk} {width pc pc' : ℕ} {regs regs' : List Reg} {s : Stmt}
    (h : Laid chunk width regs pc s regs' pc') : regs <+: regs' := by
  cases h with
  | plain =>
    split_ifs
    · exact List.prefix_append _ _
    · exact List.prefix_rfl
  | whileLt => exact List.prefix_rfl

theorem LaidAll.prefix {chunk : Chunk} {width : ℕ} {ss : List Stmt} :
    ∀ {regs regs' : List Reg} {pc pc' : ℕ}, LaidAll chunk width regs pc ss regs' pc' →
    regs <+: regs' := by
  induction ss with
  | nil =>
    intro regs regs' pc pc' h
    cases h
    exact List.prefix_rfl
  | cons s ss ih =>
    intro regs regs' pc pc' h
    cases h with
    | cons hs hss => exact hs.prefix.trans (ih hss)

/-- The code of what is left to do begins at `pc`, where these registers are in scope. -/
inductive Follows (chunk : Chunk) (width : ℕ) : List Reg → ℕ → List Task → Prop
  /-- Nothing follows a call that ends the function. -/
  | ends {regs regs' : List Reg} {pc pc' : ℕ} {s : Stmt} (hs : Laid chunk width regs pc s regs' pc')
      (hends : s.Ends = true) (rest : List Task) : Follows chunk width regs pc (.stmt s :: rest)
  | stmt {regs regs' : List Reg} {pc pc' : ℕ} {s : Stmt} {rest : List Task}
      (hs : Laid chunk width regs pc s regs' pc') (hrest : Follows chunk width regs' pc' rest) :
      Follows chunk width regs pc (.stmt s :: rest)
  | again {regs regs₀ : List Reg} {pc pc₀ counter limit : ℕ} {body : List Stmt}
      {rest : List Task} {back : Int32} (hjump : chunk.code[pc]? = some (.onlyImm .jump back))
      (hback : Leads pc back pc₀) (hsub : regs₀ <+: regs)
      (hloop : Laid chunk width regs₀ pc₀ (.whileLt counter limit body) regs₀ (pc + 1))
      (hrest : Follows chunk width regs₀ (pc + 1) rest) :
      Follows chunk width regs pc (.again regs₀.length counter limit body :: rest)

theorem Follows.laid {chunk : Chunk} {width pc : ℕ} {regs : List Reg} {s : Stmt}
    {rest : List Task} (h : Follows chunk width regs pc (.stmt s :: rest)) :
    ∃ regs' pc', Laid chunk width regs pc s regs' pc' := by
  cases h with
  | ends hs => exact ⟨_, _, hs⟩
  | stmt hs => exact ⟨_, _, hs⟩

theorem LaidAll.follows {chunk : Chunk} {width : ℕ} {rest : List Task} {ss : List Stmt} :
    ∀ {regs regs' : List Reg} {pc pc' : ℕ}, LaidAll chunk width regs pc ss regs' pc' →
    Follows chunk width regs' pc' rest → Follows chunk width regs pc (ss.map .stmt ++ rest) := by
  induction ss with
  | nil =>
    intro regs regs' pc pc' h hrest
    cases h
    exact hrest
  | cons s ss ih =>
    intro regs regs' pc pc' h hrest
    cases h with
    | cons hs hss => exact .stmt hs (ih hss hrest)

/-- The body of a function is followed by nothing. -/
theorem LaidAll.follows_of_ends {chunk : Chunk} {width : ℕ} {ss : List Stmt} :
    ∀ {regs regs' : List Reg} {pc pc' : ℕ}, LaidAll chunk width regs pc ss regs' pc' →
    ss.getLast?.any Stmt.Ends = true → Follows chunk width regs pc (ss.map .stmt) := by
  induction ss with
  | nil =>
    intro regs regs' pc pc' h hends
    cases hends
  | cons s ss ih =>
    intro regs regs' pc pc' h hends
    cases h with
    | cons hs hss =>
      cases ss with
      | nil => exact .ends hs hends []
      | cons s' ss => exact .stmt hs (ih hss (by rwa [List.getLast?_cons_cons] at hends))

/-! ## Matching states -/

/-- The frame runs the activation. -/
structure Runs (chunk : Chunk) (regs : List Reg) (tasks : List Task) (env : List Value)
    (frame : Vm.Frame) : Prop where
  nodup : regs.Nodup
  holds : Holds regs frame.registers env
  follows : Follows chunk frame.registers.length regs frame.pc tasks

/-- The frame of a caller, which waits for the value of one more variable. -/
structure Waits (chunk : Chunk) (dest : UInt8) (a : Activation) (frame : Vm.Frame)
    (regs : List Reg) : Prop where
  nodup : regs.Nodup
  holds : Holds regs frame.registers a.env
  fresh : Fresh frame.registers.length regs ⟨dest⟩
  follows : Follows chunk frame.registers.length (regs ++ [⟨dest⟩]) frame.pc a.tasks

/-- The frames of the callers, from the register on that the innermost call returns to. -/
inductive Stacked (chunk : Chunk) : Option UInt8 → List Activation → List Vm.Frame → Prop
  | nil : Stacked chunk none [] []
  | cons {dest : UInt8} {a : Activation} {callers : List Activation} {frame : Vm.Frame}
      {frames : List Vm.Frame} {regs : List Reg} (h : Waits chunk dest a frame regs)
      (hrest : Stacked chunk frame.destReg callers frames) :
      Stacked chunk (some dest) (a :: callers) (frame :: frames)

theorem Stacked.length {chunk : Chunk} {dest : Option UInt8} {callers : List Activation}
    {frames : List Vm.Frame} (h : Stacked chunk dest callers frames) :
    frames.length = callers.length := by
  induction h with
  | nil => rfl
  | cons _ _ ih => rw [List.length_cons, List.length_cons, ih]

/-- The VM is where the program is. -/
inductive Matches (chunk : Chunk) : Config → Vm → Prop
  | running {top : Activation} {callers : List Activation} {vm : Vm} {frame : Vm.Frame}
      {frames : List Vm.Frame} {regs : List Reg} (hchunk : vm.chunk = chunk)
      (hframes : vm.frames = frame :: frames) (htop : Runs chunk regs top.tasks top.env frame)
      (hcallers : Stacked chunk frame.destReg callers frames) :
      Matches chunk (.running top callers) vm

/-- The value arrives that a caller waits for. -/
theorem Waits.resume {chunk : Chunk} {dest : UInt8} {a : Activation} {frame : Vm.Frame}
    {regs : List Reg} (h : Waits chunk dest a frame regs) {v : Value} (hv : v.bufferLen = 0) :
    Runs chunk (regs ++ [⟨dest⟩]) a.tasks (a.env ++ [v])
      { frame with registers := frame.registers.set dest.toNat v } where
  nodup := List.nodup_append.mpr ⟨h.nodup, List.pairwise_singleton _ _, fun r hr r' hr' heq =>
    h.fresh.1 (List.mem_singleton.mp hr' ▸ heq ▸ hr)⟩
  holds := h.holds.push h.fresh.1 h.fresh.2 hv
  follows := by
    show Follows chunk (frame.registers.set _ v).length _ _ _
    rw [List.length_set]
    exact h.follows

/-- What the VM makes of a step of the program. -/
def Simulated (chunk : Chunk) (defs : List Def) (host : ℕ → Host)
    (out : Option VmResult × Config) (vm : Vm) : Prop :=
  match out with
  | (none, c) => ∃ n vm', (Vm.lightSystem host).Silent (n + 1) vm vm' ∧ Matches chunk c vm'
  | (some r, c) => ∃ n r' vm', (Vm.lightSystem host).Ends n vm r' vm' ∧ r'.erase = r ∧
    ∀ v, System.Answered (Matches chunk) ((system defs).answer r v c)
      ((Vm.lightSystem host).answer r' v vm')

section

variable {chunk : Chunk} {defs : List Def} {host : ℕ → Host} {vm vm' : Vm}
  {out : Option VmResult × Config}

theorem Simulated.of_step {c : Config}
    (hstep : vm.step (host vm.instructionsExecuted) = (none, vm')) (h : Matches chunk c vm') :
    Simulated chunk defs host (none, c) vm :=
  ⟨0, vm', .one hstep, h⟩

/-- A result that ends the flow. -/
theorem Simulated.of_final {r : VmResult} (hfinal : r.final = true) (herase : r.erase = r)
    (hstep : vm.step (host vm.instructionsExecuted) = (some r, vm')) (c : Config) :
    Simulated chunk defs host (some r, c) vm :=
  ⟨0, r, vm', .of_step hstep, herase, fun _ => .inl ⟨if_pos hfinal, if_pos hfinal⟩⟩

theorem Simulated.fault {f : Fault}
    (hstep : vm.step (host vm.instructionsExecuted) = (some (.trap f), vm')) :
    Simulated chunk defs host (Source.fault f) vm :=
  .of_final rfl rfl hstep _

/-- A step of the VM before. -/
theorem Simulated.after (h : Simulated chunk defs host out vm')
    (hstep : vm.step (host vm.instructionsExecuted) = (none, vm')) :
    Simulated chunk defs host out vm := by
  have hone : (Vm.lightSystem host).Silent 1 vm vm' := .one hstep
  obtain ⟨r | r, c⟩ := out
  · obtain ⟨n, vm₁, hsilent, hmatches⟩ := h
    exact ⟨1 + n, vm₁, hone.trans hsilent, hmatches⟩
  · obtain ⟨n, r', vm₁, hends, hresult⟩ := h
    exact ⟨1 + n, r', vm₁, hone.ends hends, hresult⟩

end

/-! ## Computation -/

/-- The instruction stores the value in the register, or fails with the fault. -/
def Computes (host : Host) (vm : Vm) (instr : Instruction) (reg : UInt8)
    (x : Except Fault Value) : Prop :=
  (Vm.exec host instr).runFrom vm.fetched = (do Vm.write host reg (← Vm.trap x)).runFrom vm.fetched

section

open Vm Exec

variable {host : Host} {vm : Vm} {frame : Frame} {frames : List Frame} {instr : Instruction}

theorem computes_loadImm (a : UInt8) (imm : Int32) :
    Computes host vm (.aImm .loadImm a imm) a (.ok (.int imm.toInt64)) := rfl

theorem computes_loadConst {konst : UInt32} {v : Value} (h : vm.chunk.constant konst = some v)
    (a : UInt8) : Computes host vm ⟨.loadConst, a, 0, 0, konst.toInt32⟩ a (.ok v) := by
  have hfetched : vm.fetched.chunk.constant konst.toInt32.toUInt32 = some v := by
    rw [fetched_chunk]
    exact h
  unfold Computes
  dsimp only [exec]
  rw [runFrom_bind, runFrom_get]
  simp only [hfetched]
  rfl

theorem computes_move {b : UInt8} {v : Value} (h : vm.getReg b = .ok v) (a : UInt8) :
    Computes host vm (.abc .move a b 0) a (.ok v) := by
  show (read b >>= fun v => write host a v).runFrom vm.fetched =
    (write host a v).runFrom vm.fetched
  rw [runFrom_bind, runFrom_read_fetched h]

theorem computes_binop (op : BinOp) {b c : UInt8} {v w : Value} (hv : vm.getReg b = .ok v)
    (hw : vm.getReg c = .ok w) (a : UInt8) :
    Computes host vm (.abc op.opcode a b c) a (numericBinop op.opcode v w) := by
  have hexec : exec host (.abc op.opcode a b c) = (do
      let v ← read b
      let w ← read c
      write host a (← trap (numericBinop op.opcode v w))) := by cases op <;> rfl
  unfold Computes
  rw [hexec, runFrom_bind, runFrom_read_fetched hv]
  simp only [runFrom_bind (read c), runFrom_read_fetched hw]

theorem computes_neg {b : UInt8} {v : Value} (h : vm.getReg b = .ok v) (a : UInt8) :
    Computes host vm (.abc .neg a b 0) a (negate v) := by
  show (read b >>= fun v => do write host a (← trap (negate v))).runFrom vm.fetched = _
  rw [runFrom_bind, runFrom_read_fetched h]

theorem step_computes (hframes : vm.frames = frame :: frames)
    (hcode : vm.chunk.code[frame.pc]? = some instr) {reg : UInt8} {v : Value}
    (h : Computes host vm instr reg (.ok v)) (hreg : reg.toNat < frame.registers.length)
    (hv : v.bufferLen = 0) :
    ∃ vm', vm.step host = (none, vm') ∧ vm'.chunk = vm.chunk ∧
      vm'.frames = { frame with
        pc := frame.pc + 1
        registers := frame.registers.set reg.toNat v } :: frames ∧
      vm'.getReg reg = .ok v := by
  let stored : Frame := { frame with
    pc := frame.pc + 1
    registers := frame.registers.set reg.toNat v }
  have hset := @setReg_light vm.fetched { frame with pc := frame.pc + 1 } frames
    (congrArg Vm.frames (fetched_of_frames hframes)) reg v hreg hv host
  have hwrite : (write host reg v).runFrom vm.fetched =
      (.ok (), { vm.fetched with frames := stored :: frames }) := by
    unfold write
    rw [runFrom_bind, runFrom_get]
    simp only [hset]
    rfl
  have hexec : (exec host instr).runFrom vm.fetched = (write host reg v).runFrom vm.fetched := h
  refine ⟨{ vm.fetched with frames := stored :: frames }, ?_, fetched_chunk, rfl,
    getReg_of_frames rfl (List.getElem?_set_self hreg)⟩
  rw [step_of_next host (next_of_frames hframes hcode), hexec, hwrite]
  rfl

theorem step_computes_error (hframes : vm.frames = frame :: frames)
    (hcode : vm.chunk.code[frame.pc]? = some instr) {reg : UInt8} {f : Fault}
    (h : Computes host vm instr reg (.error f)) : vm.step host = (some (.trap f), vm.fetched) := by
  rw [step_of_next host (next_of_frames hframes hcode), h]
  rfl

end

section

variable {chunk : Chunk} {defs : List Def} {host : ℕ → Host} {vm : Vm} {frame : Vm.Frame}
  {frames : List Vm.Frame} {regs : List Reg} {rest : List Task} {env : List Value}
  {callers : List Activation} {instr : Instruction}

/-- An instruction that binds a variable. -/
theorem simulated_bind (hchunk : vm.chunk = chunk) (hframes : vm.frames = frame :: frames)
    (hcallers : Stacked chunk frame.destReg callers frames)
    (hcode : chunk.code[frame.pc]? = some instr) {dst : UInt8} {x : Except Fault Value}
    (hx : Computes (host vm.instructionsExecuted) vm instr dst x)
    (hlight : ∀ v, x = .ok v → v.bufferLen = 0)
    (h : Waits chunk dst ⟨rest, env⟩ { frame with pc := frame.pc + 1 } regs) :
    Simulated chunk defs host (conclude rest callers (x.map (env ++ [·]))) vm := by
  subst hchunk
  cases x with
  | error f => exact .fault (step_computes_error hframes hcode hx)
  | ok v =>
    have hv := hlight v rfl
    obtain ⟨vm', hstep, hchunk, hframes', -⟩ := step_computes hframes hcode hx h.fresh.2 hv
    exact .of_step hstep (.running hchunk hframes' (h.resume hv) hcallers)

/-- An instruction that changes a variable. -/
theorem simulated_store (hchunk : vm.chunk = chunk) (hframes : vm.frames = frame :: frames)
    (hcallers : Stacked chunk frame.destReg callers frames)
    (hcode : chunk.code[frame.pc]? = some instr) {y : ℕ} (hy : y < regs.length)
    {x : Except Fault Value}
    (hx : Computes (host vm.instructionsExecuted) vm instr (Stmt.reg regs y).index x)
    (hlight : ∀ v, x = .ok v → v.bufferLen = 0)
    (h : Runs chunk regs rest env { frame with pc := frame.pc + 1 }) :
    Simulated chunk defs host (conclude rest callers (x.map (env.set y ·))) vm := by
  subst hchunk
  cases x with
  | error f => exact .fault (step_computes_error hframes hcode hx)
  | ok v =>
    have hv := hlight v rfl
    have hreg := (List.getElem?_eq_some_iff.mp (h.holds.get hy).1).1
    obtain ⟨vm', hstep, hchunk, hframes', -⟩ := step_computes hframes hcode hx hreg hv
    refine .of_step hstep
      (.running hchunk hframes' ⟨h.nodup, h.holds.store h.nodup hy hv, ?_⟩ hcallers)
    show Follows vm.chunk (frame.registers.set _ v).length regs _ rest
    rw [List.length_set]
    exact h.follows

/-- The code of a call that binds a variable, and the frame that waits for it after the code. -/
theorem Runs.binds {s : Stmt} (h : Runs chunk regs (.stmt s :: rest) env frame) (hs : s.Plain)
    (hends : s.Ends = false) (hbinds : s.binds = true) :
    ∃ (dst temp : Reg) (konst : UInt32), (∀ x ∈ s.vars, x < regs.length) ∧
      (s.usesTemp = true → Fresh frame.registers.length regs temp) ∧
      (∀ n, s = .loadInt n → chunk.constant konst = some (.int n)) ∧
      CodeAt chunk frame.pc (s.code (Stmt.reg regs) dst temp konst) ∧
      ∀ (registers : List Value), registers.length = frame.registers.length →
        Holds regs registers env → Waits chunk dst.index ⟨rest, env⟩
          { frame with pc := frame.pc + s.size, registers := registers } regs := by
  cases h.follows with
  | ends _ hends' =>
    rw [hends] at hends'
    cases hends'
  | stmt hlaid hrest =>
    cases hlaid with
    | @plain _ _ _ _ hvars dst temp konst hdst htemp hkonst hcode =>
      rw [if_pos hbinds] at hrest
      refine ⟨dst, temp, konst, hvars, htemp, hkonst, hcode, fun registers hlen hholds => ?_⟩
      exact ⟨h.nodup, hholds, hlen ▸ hdst hbinds, hlen ▸ hrest⟩
    | whileLt => exact hs.elim

/-- The code of a call that binds none, and the frame after it. -/
theorem Runs.goes_on {s : Stmt} (h : Runs chunk regs (.stmt s :: rest) env frame) (hs : s.Plain)
    (hends : s.Ends = false) (hbinds : s.binds = false) :
    ∃ (dst temp : Reg) (konst : UInt32), (∀ x ∈ s.vars, x < regs.length) ∧
      (s.usesTemp = true → Fresh frame.registers.length regs temp) ∧
      CodeAt chunk frame.pc (s.code (Stmt.reg regs) dst temp konst) ∧
      ∀ (registers : List Value), registers.length = frame.registers.length →
        Holds regs registers env → Runs chunk regs rest env
          { frame with pc := frame.pc + s.size, registers := registers } := by
  cases h.follows with
  | ends _ hends' =>
    rw [hends] at hends'
    cases hends'
  | stmt hlaid hrest =>
    cases hlaid with
    | @plain _ _ _ _ hvars dst temp konst hdst htemp hkonst hcode =>
      rw [if_neg (by rw [hbinds]; exact Bool.false_ne_true)] at hrest
      exact ⟨dst, temp, konst, hvars, htemp, hcode, fun registers hlen hholds =>
        ⟨h.nodup, hholds, hlen ▸ hrest⟩⟩
    | whileLt => exact hs.elim

/-- A variable, in its register. -/
theorem Runs.getReg {tasks : List Task} (h : Runs chunk regs tasks env frame)
    (hframes : vm.frames = frame :: frames) {x : ℕ} (hx : x < regs.length) :
    vm.getReg (Stmt.reg regs x).index = .ok (value env x) :=
  Vm.getReg_of_frames hframes (h.holds.get hx).1

theorem simulated_loadI32 {n : Int32} (hchunk : vm.chunk = chunk)
    (hframes : vm.frames = frame :: frames) (hcallers : Stacked chunk frame.destReg callers frames)
    (h : Runs chunk regs (.stmt (.loadI32 n) :: rest) env frame) :
    Simulated chunk defs host (perform defs (.loadI32 n) rest env callers) vm := by
  obtain ⟨dst, temp, konst, hvars, htemp, hkonst, hcode, hwaits⟩ := h.binds trivial rfl rfl
  exact simulated_bind hchunk hframes hcallers (hcode 0 _ rfl) (computes_loadImm dst.index n)
    (fun _ hv => by cases hv; rfl) (hwaits _ rfl h.holds)

theorem simulated_addImm {y : ℕ} {imm : Int32} (hchunk : vm.chunk = chunk)
    (hframes : vm.frames = frame :: frames) (hcallers : Stacked chunk frame.destReg callers frames)
    (h : Runs chunk regs (.stmt (.addImm y imm) :: rest) env frame) :
    Simulated chunk defs host (perform defs (.addImm y imm) rest env callers) vm := by
  obtain ⟨dst, temp, konst, hvars, htemp, hcode, hruns⟩ := h.goes_on trivial rfl rfl
  have hy : y < regs.length := hvars y (List.mem_singleton_self _)
  have hfresh := htemp rfl
  obtain ⟨vm₁, hstep, hchunk₁, hframes₁, hliteral⟩ :=
    @step_computes (host vm.instructionsExecuted) _ _ _ _ hframes (hchunk ▸ hcode 0 _ rfl) _ _
      (computes_loadImm temp.index imm) hfresh.2 rfl
  have hholds := h.holds.scratch hfresh.1 (.int imm.toInt64)
  have hadd := @computes_binop (host vm₁.instructionsExecuted) _ .add _ _ _ _
    (Vm.getReg_of_frames hframes₁ (hholds.get hy).1) hliteral (Stmt.reg regs y).index
  exact .after (simulated_store (hchunk₁.trans hchunk) hframes₁ hcallers (hcode 1 _ rfl) hy hadd
    (fun _ hv => Vm.light_of_numericBinop hv) (hruns _ List.length_set hholds)) hstep

theorem simulated_eqImm {y : ℕ} {imm : Int32} (hchunk : vm.chunk = chunk)
    (hframes : vm.frames = frame :: frames) (hcallers : Stacked chunk frame.destReg callers frames)
    (h : Runs chunk regs (.stmt (.eqImm y imm) :: rest) env frame) :
    Simulated chunk defs host (perform defs (.eqImm y imm) rest env callers) vm := by
  obtain ⟨dst, temp, konst, hvars, htemp, -, hcode, hwaits⟩ := h.binds trivial rfl rfl
  have hy : y < regs.length := hvars y (List.mem_singleton_self _)
  have hfresh := htemp rfl
  obtain ⟨vm₁, hstep, hchunk₁, hframes₁, hliteral⟩ :=
    @step_computes (host vm.instructionsExecuted) _ _ _ _ hframes (hchunk ▸ hcode 0 _ rfl) _ _
      (computes_loadImm temp.index imm) hfresh.2 rfl
  have hholds := h.holds.scratch hfresh.1 (.int imm.toInt64)
  have heq := @computes_binop (host vm₁.instructionsExecuted) _ .eq _ _ _ _
    (Vm.getReg_of_frames hframes₁ (hholds.get hy).1) hliteral dst.index
  exact .after (simulated_bind (hchunk₁.trans hchunk) hframes₁ hcallers (hcode 1 _ rfl) heq
    (fun _ hv => Vm.light_of_numericBinop hv) (hwaits _ List.length_set hholds)) hstep

/-- A loop compares, and goes into its body or past it. -/
theorem simulated_whileLt {counter limit : ℕ} {body : List Stmt} (hchunk : vm.chunk = chunk)
    (hframes : vm.frames = frame :: frames) (hcallers : Stacked chunk frame.destReg callers frames)
    (h : Runs chunk regs (.stmt (.whileLt counter limit body) :: rest) env frame) :
    Simulated chunk defs host (perform defs (.whileLt counter limit body) rest env callers) vm := by
  subst hchunk
  obtain ⟨hnodup, hholds, hfollows⟩ := h
  cases hfollows with
  | ends _ hends => cases hends
  | stmt hlaid hrest =>
    have hloop := hlaid
    cases hlaid with
    | plain hs => exact hs.elim
    | @whileLt _ regs' _ pc' _ _ _ cond out back hcounter hlimit hcond hcode hout hbody hjump
        hback =>
      have hlt := @computes_binop (host vm.instructionsExecuted) _ .lt _ _ _ _
        (Vm.getReg_of_frames hframes (hholds.get hcounter).1)
        (Vm.getReg_of_frames hframes (hholds.get hlimit).1) cond.index
      have hlight (v : Value) :=
        @Vm.light_of_numericBinop .lt (value env counter) (value env limit) v
      have hpc : vm.chunk.code[frame.pc]? = _ := hcode 0 _ rfl
      show Simulated vm.chunk defs host (choose _ rest env callers
        (Vm.numericBinop .lt (value env counter) (value env limit))) vm
      cases hx : Vm.numericBinop .lt (value env counter) (value env limit) with
      | error f => exact .fault (step_computes_error hframes hpc (hx ▸ hlt))
      | ok v =>
        obtain ⟨vm₁, hstep, hchunk₁, hframes₁, hv⟩ :=
          step_computes hframes hpc (hx ▸ hlt) hcond.2 (hlight v hx)
        have hlen : (frame.registers.set cond.index.toNat v).length = frame.registers.length :=
          List.length_set
        have hholds' := hholds.scratch hcond.1 v
        have hnext : vm₁.next = some (.aImm .branch cond.index out) :=
          Vm.next_of_frames hframes₁ (hchunk₁ ▸ hcode 1 _ rfl)
        refine Simulated.after ?_ hstep
        cases htruthy : v.isTruthy with
        | true =>
          refine .of_step (Vm.step_of_branch_truthy _ hnext hv htruthy) ?_
          refine .running (Vm.fetched_chunk.trans hchunk₁)
            (congrArg Vm.frames (Vm.fetched_of_frames hframes₁)) ⟨hnodup, hholds', ?_⟩ hcallers
          rw [hlen, if_pos htruthy, hholds.length]
          exact hbody.follows (.again hjump hback hbody.prefix hloop hrest)
        | false =>
          refine .of_step (Vm.step_of_branch _ hnext rfl hframes₁ hv htruthy) ?_
          refine .running ((Vm.goto_chunk _).trans hchunk₁)
            (congrArg Vm.frames (@Vm.goto_of_frames vm₁.counted _ _ hframes₁ _))
            ⟨hnodup, hholds', ?_⟩ hcallers
          rw [hlen, if_neg (by rw [htruthy]; exact Bool.false_ne_true)]
          have hleads : ((((frame.pc + 1 : ℕ) : ℤ) + 1 + out.toInt) % 2 ^ 64).toNat = pc' + 1 :=
            hout
          rw [← hleads] at hrest
          exact hrest

/-- The jump back to the head of a loop. -/
theorem simulated_again {scope counter limit : ℕ} {body : List Stmt} (hchunk : vm.chunk = chunk)
    (hframes : vm.frames = frame :: frames) (hcallers : Stacked chunk frame.destReg callers frames)
    (h : Runs chunk regs (.again scope counter limit body :: rest) env frame) :
    Simulated chunk defs host
      (none, .running ⟨.stmt (.whileLt counter limit body) :: rest, env.take scope⟩ callers)
      vm := by
  subst hchunk
  obtain ⟨hnodup, hholds, hfollows⟩ := h
  cases hfollows with
  | again hjump hback hsub hloop hrest =>
    have hnext := Vm.next_of_frames hframes hjump
    have hleads : (((frame.pc : ℤ) + 1 + _) % 2 ^ 64).toNat = _ := hback
    refine .of_step (Vm.step_of_jump _ hnext rfl hframes)
      (.running (Vm.goto_chunk _) (congrArg Vm.frames (@Vm.goto_of_frames vm.counted _ _ hframes _))
        ⟨hnodup.sublist hsub.sublist, hholds.take hsub, ?_⟩ hcallers)
    exact hleads ▸ .stmt hloop hrest

/-- A return, to the scheduler or to a caller. -/
theorem simulated_return {x : ℕ} (hchunk : vm.chunk = chunk)
    (hframes : vm.frames = frame :: frames) (hcallers : Stacked chunk frame.destReg callers frames)
    (h : Runs chunk regs (.stmt (.return x) :: rest) env frame) :
    Simulated chunk defs host (perform defs (.return x) rest env callers) vm := by
  subst hchunk
  obtain ⟨regs', pc', hlaid⟩ := h.follows.laid
  cases hlaid with
  | plain _ hvars _ _ _ hcode =>
    have hx : x < regs.length := hvars x (List.mem_singleton_self _)
    have hnext := Vm.next_of_frames hframes (hcode 0 _ rfl)
    have hread := Vm.runFrom_read_fetched (h.getReg hframes hx)
    have hlight := (h.holds.get hx).2
    have hfetched := congrArg Vm.frames (Vm.fetched_of_frames hframes)
    have hstep : vm.step (host vm.instructionsExecuted) = Vm.outcome
        ((Vm.popFrame (host vm.instructionsExecuted) (value env x)).runFrom vm.fetched) := by
      rw [Vm.step_of_next _ hnext]
      show Vm.outcome ((Vm.read (Stmt.reg regs x).index >>= fun v =>
        Vm.popFrame (host vm.instructionsExecuted) v).runFrom vm.fetched) = _
      rw [Exec.runFrom_bind, hread]
    show Simulated vm.chunk defs host (leave (value env x) callers) vm
    generalize hdest : frame.destReg = dest at hcallers
    cases hcallers with
    | nil =>
      rw [Vm.runFrom_popFrame_nil hfetched hdest] at hstep
      exact .of_final rfl rfl hstep .finished
    | cons hwaits hrest =>
      rw [Vm.runFrom_popFrame hfetched hdest hwaits.fresh.2 hlight] at hstep
      exact .of_step hstep (.running Vm.fetched_chunk rfl (hwaits.resume hlight) hrest)

theorem simulated_trap {code : Int32} (callers : List Activation) (hchunk : vm.chunk = chunk)
    (hframes : vm.frames = frame :: frames)
    (h : Runs chunk regs (.stmt (.trap code) :: rest) env frame) :
    Simulated chunk defs host (perform defs (.trap code) rest env callers) vm := by
  subst hchunk
  obtain ⟨regs', pc', hlaid⟩ := h.follows.laid
  cases hlaid with
  | plain _ _ _ _ _ hcode =>
    have hstep := Vm.step_of_next (host vm.instructionsExecuted)
      (Vm.next_of_frames hframes (hcode 0 _ rfl))
    exact .fault hstep

end

/-! ## Functions -/

/-- The chunk has the code of these functions. -/
structure Linked (chunk : Chunk) (defs : List Def) : Prop where
  count : chunk.functions.length = defs.length
  function : ∀ (j : ℕ) (d : Def), defs[j]? = some d → ∃ f regs, chunk.functions[j]? = some f ∧
    f.arity = d.arity ∧ f.numRegisters.toNat = d.width ∧
    LaidAll chunk d.width (params d.arity) f.entry.toNat d.body regs
      (f.entry.toNat + Stmt.sizeAll d.body)

theorem Module.linked (m : Module) : Linked m.chunk m.defs where
  count := m.built.functions
  function j d hd := by
    obtain ⟨f, regs, hf, -, harity, hwidth, -, hlaid⟩ := m.function hd
    exact ⟨f, regs, hf, harity, hwidth, hlaid⟩

/-- A function is entered, by the scheduler or by a call. -/
theorem Linked.enter {chunk : Chunk} {defs : List Def} (h : Linked chunk defs) {function : UInt32}
    {d : Def} (hd : defs[function.toNat]? = some d) {args : List Value}
    (hargs : ∀ v ∈ args, v.bufferLen = 0) (dest : Option UInt8) :
    ∃ frame, Vm.enter chunk function args dest = .ok frame ∧ frame.destReg = dest ∧
      Runs chunk (params d.arity) (d.enter args).tasks (d.enter args).env frame := by
  obtain ⟨f, regs, hf, harity, hwidth, hlaid⟩ := h.function _ d hd
  have hle := d.arity_le_width
  have hshort : (args.take d.arity.toNat).length ≤ d.width := by
    rw [List.length_take]
    omega
  have hload : Vm.loadArgs f.numRegisters 0 (args.take f.arity.toNat)
      (List.replicate f.numRegisters.toNat .unit) = .ok (args.take d.arity.toNat ++
        List.replicate (d.width - (args.take d.arity.toNat).length) .unit) := by
    rw [harity, Vm.loadArgs_fits (by rw [List.length_replicate, hwidth]; exact hshort),
      List.drop_replicate, hwidth]
  refine ⟨⟨function, f.entry.toNat, args.take d.arity.toNat ++
    List.replicate (d.width - (args.take d.arity.toNat).length) .unit, dest⟩, ?_, rfl,
    nodup_params _, ⟨?_, fun x r hr => ?_, fun v hv => ?_⟩, ?_⟩
  · unfold Vm.enter
    rw [show chunk.function function = some f from hf]
    show (do
      let registers ← Vm.loadArgs f.numRegisters 0 (args.take f.arity.toNat)
        (List.replicate f.numRegisters.toNat .unit)
      return { Vm.Frame.new function f.numRegisters dest with
        pc := f.entry.toNat, registers := registers } : Except Fault Vm.Frame) = _
    rw [hload]
    rfl
  · show (args.take d.arity.toNat ++ List.replicate _ Value.unit).length = _
    rw [List.length_append, List.length_take, List.length_replicate, length_params]
    omega
  · have hx : x < d.arity.toNat := length_params d.arity ▸ (List.getElem?_eq_some_iff.mp hr).1
    have hindex : r.index.toNat = x := by
      unfold params at hr
      rw [List.getElem?_map, List.getElem?_range hx] at hr
      cases hr
      exact UInt8.toNat_ofNat_of_lt' (hx.trans d.arity.toNat_lt)
    show (args.take d.arity.toNat ++ List.replicate _ Value.unit)[r.index.toNat]? =
      (args.take d.arity.toNat ++ List.replicate _ Value.unit)[x]?
    rw [hindex]
    rcases lt_or_ge x (args.take d.arity.toNat).length with hlt | hge
    · rw [List.getElem?_append_left hlt, List.getElem?_append_left hlt]
    · have hlen := @List.length_take _ d.arity.toNat args
      rw [List.getElem?_append_right hge, List.getElem?_append_right hge,
        List.getElem?_replicate_of_lt (by omega), List.getElem?_replicate_of_lt (by omega)]
  · rcases List.mem_append.mp hv with hv | hv
    · exact hargs v (List.mem_of_mem_take hv)
    · rw [List.eq_of_mem_replicate hv]
      rfl
  · show Follows chunk (args.take d.arity.toNat ++ List.replicate _ Value.unit).length _ _ _
    rw [List.length_append, List.length_replicate, Nat.add_sub_cancel' hshort]
    exact hlaid.follows_of_ends d.ends

section

variable {chunk : Chunk} {defs : List Def} {host : ℕ → Host} {vm : Vm} {frame : Vm.Frame}
  {frames : List Vm.Frame} {regs : List Reg} {rest : List Task} {env : List Value}
  {callers : List Activation}

theorem simulated_call (hlinked : Linked chunk defs) {function : UInt32} (hchunk : vm.chunk = chunk)
    (hframes : vm.frames = frame :: frames) (hcallers : Stacked chunk frame.destReg callers frames)
    (h : Runs chunk regs (.stmt (.call function) :: rest) env frame) :
    Simulated chunk defs host (perform defs (.call function) rest env callers) vm := by
  subst hchunk
  obtain ⟨dst, temp, konst, -, -, -, hcode, hwaits⟩ := h.binds trivial rfl rfl
  have hnext := Vm.next_of_frames hframes (hcode 0 _ rfl)
  have hdepth : vm.frames.length = callers.length + 1 := by
    rw [hframes, List.length_cons, hcallers.length]
  unfold perform
  dsimp only
  rw [← hdepth]
  by_cases hover : Vm.maxCallDepth ≤ vm.frames.length
  · rw [if_pos hover]
    exact .fault (Vm.step_call_overflow _ hnext hframes hover)
  · rw [if_neg hover]
    cases hd : defs[function.toNat]? with
    | none =>
      have hf : vm.chunk.function function = none :=
        List.getElem?_eq_none (hlinked.count ▸ List.getElem?_eq_none_iff.mp hd)
      have hstep := Vm.step_call_missing (host vm.instructionsExecuted) hnext hframes
        (Nat.not_le.mp hover) hf
      rw [hlinked.count] at hstep
      exact .fault hstep
    | some d =>
      obtain ⟨callee, henter, hdest, hruns⟩ :=
        hlinked.enter hd (fun _ hv => absurd hv List.not_mem_nil) (some dst.index)
      exact .of_step (Vm.step_call _ hnext hframes (Nat.not_le.mp hover) henter)
        (.running rfl rfl hruns (hdest ▸ .cons (hwaits _ rfl h.holds) hcallers))

/-- What a request of an effect is. -/
theorem of_request {e : Effect} {r : VmResult} (h : e.request env = .ok r) :
    r.erase = r ∧ r.dest.isSome = e.binds ∧ r.final = (Stmt.effect e).Ends := by
  cases e with
  | yield | exit | selfCap | spawnWithRights | receive | receiveTimeout | receiveMatchImm =>
    cases h
    exact ⟨rfl, rfl, rfl⟩
  | sleep | delegate | receiveMatch | receiveMatchCorrImm | monitor | link =>
    obtain ⟨_, _, h⟩ := of_bind_ok h
    cases h
    exact ⟨rfl, rfl, rfl⟩
  | send | receiveMatchCorr | ask | askTimeout =>
    obtain ⟨_, _, h⟩ := of_bind_ok h
    obtain ⟨_, _, h⟩ := of_bind_ok h
    cases h
    exact ⟨rfl, rfl, rfl⟩

/-- A request that computes one operand. -/
theorem runFrom_request {α : Type} (x : Except Fault α) (r : α → VmResult) (dst : UInt8)
    (vm : Vm) :
    (do throw ((r (← Vm.trap x)).into dst) : Vm.Code Unit).runFrom vm =
      (do throw ((← Vm.trap (do return r (← x))).into dst) : Vm.Code Unit).runFrom vm := by
  cases x <;> rfl

theorem runFrom_request₂ {α β : Type} (x : Except Fault α) (y : Except Fault β)
    (r : α → β → VmResult) (dst : UInt8) (vm : Vm) :
    (do throw ((r (← Vm.trap x) (← Vm.trap y)).into dst) : Vm.Code Unit).runFrom vm =
      (do throw ((← Vm.trap (do return r (← x) (← y))).into dst) : Vm.Code Unit).runFrom vm := by
  cases x with
  | error => rfl
  | ok => cases y <;> rfl

/-- A read between two operands. -/
theorem runFrom_read_between {α β : Type} (x : Except Fault α) {reg : UInt8} {w : Value}
    (hw : (Vm.read reg).runFrom vm.fetched = (.ok w, vm.fetched)) (k : α → Value → Vm.Code β) :
    (Vm.trap x >>= fun a => Vm.read reg >>= k a).runFrom vm.fetched =
      (Vm.trap x >>= fun a => k a w).runFrom vm.fetched := by
  cases x with
  | error => rfl
  | ok a =>
    show (Vm.read reg >>= k a).runFrom vm.fetched = _
    rw [Exec.runFrom_bind, hw]
    rfl

/-- The instruction of an effect makes its request, for its own register. -/
theorem exec_effect (host : Host) (e : Effect) (reg : ℕ → Reg) (dst : Reg)
    (hread : ∀ x ∈ e.vars, vm.getReg (reg x).index = .ok (value env x)) :
    (Vm.exec host (e.instr reg dst)).runFrom vm.fetched =
      (do throw ((← Vm.trap (e.request env)).into dst.index) : Vm.Code Unit).runFrom
        vm.fetched := by
  have hrun {x : ℕ} (hx : x ∈ e.vars) := Vm.runFrom_read_fetched (hread x hx)
  have hsecond {x y : ℕ} {xs : List ℕ} (hxs : e.vars = x :: y :: xs) : y ∈ e.vars :=
    hxs ▸ List.mem_cons_of_mem _ List.mem_cons_self
  cases e with
  | yield | selfCap | receive => rfl
  | spawnWithRights function rights => rfl
  | receiveMatchImm tag =>
    show (do throw (.receive dst.index none (some (← Vm.trap (Vm.tagFromImm
      tag.toUInt32.toInt32))) none) : Vm.Code Unit).runFrom _ = _
    rw [Vm.tagFromImm_toInt32]
    rfl
  | exit x =>
    show (Vm.read (reg x).index >>= fun v => throw (.complete v)).runFrom _ = _
    rw [Exec.runFrom_bind, hrun (List.mem_singleton_self x)]
    rfl
  | receiveTimeout x =>
    show (Vm.read (reg x).index >>= fun v =>
      throw (.receive dst.index (some (Vm.timeoutMillis v)) none none)).runFrom _ = _
    rw [Exec.runFrom_bind, hrun (List.mem_singleton_self x)]
    rfl
  | sleep x =>
    show (Vm.read (reg x).index >>= fun v => do
      throw (.sleep (← Vm.trap (Vm.sleepMillis v)))).runFrom _ = _
    rw [Exec.runFrom_bind, hrun (List.mem_singleton_self x)]
    exact runFrom_request _ .sleep dst.index vm.fetched
  | delegate x rights =>
    show (Vm.read (reg x).index >>= fun v => do
      throw (.delegate dst.index (← Vm.trap (Vm.capOf v)) rights none)).runFrom _ = _
    rw [Exec.runFrom_bind, hrun (List.mem_singleton_self x)]
    exact runFrom_request _ (.delegate 0 · rights none) dst.index vm.fetched
  | receiveMatch x =>
    show (Vm.read (reg x).index >>= fun v => do
      throw (.receive dst.index none (some (← Vm.trap (Vm.tagFromValue v))) none)).runFrom _ = _
    rw [Exec.runFrom_bind, hrun (List.mem_singleton_self x)]
    exact runFrom_request _ (fun tag => .receive 0 none (some tag) none) dst.index vm.fetched
  | receiveMatchCorrImm tag x =>
    show (Vm.trap (Vm.tagFromImm tag.toUInt32.toInt32) >>= fun tag => Vm.read (reg x).index >>=
      fun v => do
        throw (.receive dst.index none (some tag) (some (← Vm.trap
          (Vm.requestIdFromValue v))))).runFrom _ = _
    rw [Exec.runFrom_bind, Vm.tagFromImm_toInt32]
    show (Vm.read (reg x).index >>= fun v => do
      throw (.receive dst.index none (some tag) (some (← Vm.trap
        (Vm.requestIdFromValue v))))).runFrom _ = _
    rw [Exec.runFrom_bind, hrun (List.mem_singleton_self x)]
    exact runFrom_request _ (fun id => .receive 0 none (some tag) (some id)) dst.index vm.fetched
  | monitor x =>
    show (Vm.read (reg x).index >>= fun v => do
      throw (.monitor dst.index (← Vm.trap (Vm.capOf v)))).runFrom _ = _
    rw [Exec.runFrom_bind, hrun (List.mem_singleton_self x)]
    exact runFrom_request _ (.monitor 0) dst.index vm.fetched
  | link x =>
    show (Vm.read (reg x).index >>= fun v => do
      throw (.link dst.index (← Vm.trap (Vm.capOf v)))).runFrom _ = _
    rw [Exec.runFrom_bind, hrun (List.mem_singleton_self x)]
    exact runFrom_request _ (.link 0) dst.index vm.fetched
  | send x y =>
    show (Vm.read (reg x).index >>= fun v => Vm.read (reg y).index >>= fun w => do
      let cap ← Vm.trap (Vm.capOf v)
      Vm.trap (Vm.expectMessage w)
      throw (.send cap w)).runFrom _ = _
    rw [Exec.runFrom_bind, hrun List.mem_cons_self]
    simp only [Exec.runFrom_bind (Vm.read (reg y).index), hrun (hsecond rfl)]
    exact runFrom_request₂ _ _ (fun cap _ => .send cap (value env y)) dst.index vm.fetched
  | receiveMatchCorr x y =>
    show (Vm.read (reg x).index >>= fun v => Vm.trap (Vm.tagFromValue v) >>= fun tag =>
      Vm.read (reg y).index >>= fun w => do
        throw (.receive dst.index none (some tag) (some (← Vm.trap
          (Vm.requestIdFromValue w))))).runFrom _ = _
    rw [Exec.runFrom_bind, hrun List.mem_cons_self]
    refine (runFrom_read_between _ (hrun (hsecond rfl)) _).trans ?_
    exact runFrom_request₂ _ _ (fun tag id => .receive 0 none (some tag) (some id)) dst.index
      vm.fetched
  | ask x y =>
    show (Vm.read (reg x).index >>= fun v => Vm.read (reg y).index >>= fun w => do
      let cap ← Vm.trap (Vm.capOf v)
      Vm.trap (Vm.expectMessage w)
      throw (.ask dst.index cap w none)).runFrom _ = _
    rw [Exec.runFrom_bind, hrun List.mem_cons_self]
    simp only [Exec.runFrom_bind (Vm.read (reg y).index), hrun (hsecond rfl)]
    exact runFrom_request₂ _ _ (fun cap _ => .ask 0 cap (value env y) none) dst.index vm.fetched
  | askTimeout x y z =>
    have hz : z ∈ (Effect.askTimeout x y z).vars :=
      List.mem_cons_of_mem _ (List.mem_cons_of_mem _ List.mem_cons_self)
    have hlt := (reg z).index.toNat_lt
    have hbyte : ¬((reg z).index.toUInt32.toInt32.toInt < 0 ∨
        2 ^ 8 ≤ (reg z).index.toUInt32.toInt32.toInt) := by
      rw [Vm.toInt_index]
      omega
    have hreg : UInt8.ofNat (reg z).index.toUInt32.toInt32.toInt.toNat = (reg z).index := by
      rw [Vm.toInt_index, Int.toNat_natCast, UInt8.ofNat_toNat]
    show (Vm.read (reg x).index >>= fun v => Vm.read (reg y).index >>= fun w => do
      if (reg z).index.toUInt32.toInt32.toInt < 0 ∨
          2 ^ 8 ≤ (reg z).index.toUInt32.toInt32.toInt then
        throw (.trap (.typeMismatch "millis register" "imm-out-of-range"))
      let millis ← Vm.read (UInt8.ofNat (reg z).index.toUInt32.toInt32.toInt.toNat)
      let cap ← Vm.trap (Vm.capOf v)
      Vm.trap (Vm.expectMessage w)
      throw (.ask dst.index cap w (some (Vm.timeoutMillis millis)))).runFrom _ = _
    rw [Exec.runFrom_bind, hrun List.mem_cons_self]
    simp only [Exec.runFrom_bind (Vm.read (reg y).index), hrun (hsecond rfl), hbyte, if_false, hreg]
    rw [Exec.runFrom_bind, hrun hz]
    exact runFrom_request₂ _ _ (fun cap _ => .ask 0 cap (value env y)
      (some (Vm.timeoutMillis (value env z)))) dst.index vm.fetched

/-- An effect, given what an answer to its request makes of both sides. -/
theorem simulated_consult {e : Effect} {dst : Reg} (hframes : vm.frames = frame :: frames)
    (hcode : vm.chunk.code[frame.pc]? = some (e.instr (Stmt.reg regs) dst))
    (hvars : ∀ x ∈ e.vars, x < regs.length) (hholds : Holds regs frame.registers env)
    (hanswer : ∀ r, e.request env = .ok r → r.final = false → ∀ v : LightValue,
      Matches chunk (if r.dest.isSome then .running ⟨rest, env ++ [v.val]⟩ callers
          else .running ⟨rest, env⟩ callers)
        (if r.dest.isSome then vm.fetched.resumeWith (host vm.fetched.instructionsExecuted)
          dst.index v.val else vm.fetched)) :
    Simulated chunk defs host (consult rest env callers (e.request env)) vm := by
  have hread : ∀ x ∈ e.vars, vm.getReg (Stmt.reg regs x).index = .ok (value env x) :=
    fun x hx => Vm.getReg_of_frames hframes (hholds.get (hvars x hx)).1
  have hstep := Vm.step_of_next (host vm.instructionsExecuted) (Vm.next_of_frames hframes hcode)
  rw [exec_effect _ e _ dst hread] at hstep
  cases hr : e.request env with
  | error f =>
    rw [hr] at hstep
    exact .fault hstep
  | ok r =>
    rw [hr] at hstep
    refine ⟨0, r.into dst.index, vm.fetched, .of_step hstep, ?_, fun v => ?_⟩
    · rw [VmResult.erase_into, (of_request hr).1]
    · cases hfinal : r.final with
      | true =>
        exact .inl ⟨if_pos hfinal, if_pos ((VmResult.final_into _ r).trans hfinal)⟩
      | false =>
        have hmatches := hanswer r hr hfinal v
        have hfinal' : ¬(r.into dst.index).final = true := by
          rw [VmResult.final_into, hfinal]
          exact Bool.false_ne_true
        refine .inr ⟨_, _, if_neg (by rw [hfinal]; exact Bool.false_ne_true), if_neg hfinal', ?_⟩
        rw [VmResult.dest_into]
        cases hd : r.dest with
        | none =>
          rw [hd] at hmatches
          exact hmatches
        | some dest =>
          rw [hd] at hmatches
          exact hmatches

/-- An effect: its request, and what the answer makes of both sides. -/
theorem simulated_effect {e : Effect} (hchunk : vm.chunk = chunk)
    (hframes : vm.frames = frame :: frames) (hcallers : Stacked chunk frame.destReg callers frames)
    (h : Runs chunk regs (.stmt (.effect e) :: rest) env frame) :
    Simulated chunk defs host (perform defs (.effect e) rest env callers) vm := by
  subst hchunk
  have hfetched := congrArg Vm.frames (Vm.fetched_of_frames hframes)
  show Simulated vm.chunk defs host (consult rest env callers (e.request env)) vm
  cases hends : (Stmt.effect e).Ends with
  | true =>
    -- an exit, which is answered by nothing
    obtain ⟨regs', pc', hlaid⟩ := h.follows.laid
    cases hlaid with
    | plain _ hvars _ _ _ hcode =>
      refine simulated_consult hframes (hcode 0 _ rfl) hvars h.holds fun r hr hfinal v => ?_
      rw [(of_request hr).2.2, hends] at hfinal
      cases hfinal
  | false =>
    cases hbinds : e.binds with
    | true =>
      obtain ⟨dst, _, _, hvars, -, -, hcode, hwaits⟩ := h.binds trivial hends hbinds
      refine simulated_consult hframes (hcode 0 _ rfl) hvars h.holds fun r hr _ v => ?_
      have hwaits := hwaits _ rfl h.holds
      rw [(of_request hr).2.1, hbinds, if_pos rfl, if_pos rfl]
      have hset := Vm.setReg_light hfetched hwaits.fresh.2 v.property
        (host vm.fetched.instructionsExecuted)
      unfold Vm.resumeWith
      rw [hset]
      exact .running Vm.fetched_chunk rfl (hwaits.resume v.property) hcallers
    | false =>
      obtain ⟨_, _, _, hvars, -, hcode, hruns⟩ := h.goes_on trivial hends hbinds
      refine simulated_consult hframes (hcode 0 _ rfl) hvars h.holds fun r hr _ v => ?_
      rw [(of_request hr).2.1, hbinds]
      exact .running Vm.fetched_chunk hfetched (hruns _ rfl h.holds) hcallers

/-- **Steps.** -/
theorem simulated_step (hlinked : Linked chunk defs) {c : Config} (h : Matches chunk c vm) :
    Simulated chunk defs host (step defs c) vm := by
  cases h with
  | @running top callers _ frame frames regs hchunk hframes htop hcallers =>
    obtain ⟨tasks, env⟩ := top
    cases tasks with
    | nil => cases htop.follows
    | cons task rest =>
      cases task with
      | again scope counter limit body =>
        exact simulated_again hchunk hframes hcallers htop
      | stmt s =>
        cases s with
        | loadI32 n => exact simulated_loadI32 hchunk hframes hcallers htop
        | loadInt n =>
          obtain ⟨dst, temp, konst, -, -, hkonst, hcode, hwaits⟩ := htop.binds trivial rfl rfl
          exact simulated_bind hchunk hframes hcallers (hcode 0 _ rfl)
            (computes_loadConst (hchunk ▸ hkonst n rfl) dst.index) (fun _ hv => by cases hv; rfl)
            (hwaits _ rfl htop.holds)
        | set x imm =>
          obtain ⟨dst, temp, konst, hvars, -, hcode, hruns⟩ := htop.goes_on trivial rfl rfl
          have hx := hvars x (List.mem_singleton_self _)
          exact simulated_store hchunk hframes hcallers (hcode 0 _ rfl) hx
            (computes_loadImm _ imm) (fun _ hv => by cases hv; rfl) (hruns _ rfl htop.holds)
        | mov x src =>
          obtain ⟨dst, temp, konst, hvars, -, hcode, hruns⟩ := htop.goes_on trivial rfl rfl
          have hx := hvars x List.mem_cons_self
          have hsrc := hvars src (List.mem_cons_of_mem _ List.mem_cons_self)
          exact simulated_store hchunk hframes hcallers (hcode 0 _ rfl) hx
            (computes_move (htop.getReg hframes hsrc) _)
            (fun _ hv => by cases hv; exact (htop.holds.get hsrc).2) (hruns _ rfl htop.holds)
        | binop op lhs rhs =>
          obtain ⟨dst, temp, konst, hvars, -, -, hcode, hwaits⟩ := htop.binds trivial rfl rfl
          have hlhs := hvars lhs List.mem_cons_self
          have hrhs := hvars rhs (List.mem_cons_of_mem _ List.mem_cons_self)
          exact simulated_bind hchunk hframes hcallers (hcode 0 _ rfl)
            (computes_binop op (htop.getReg hframes hlhs) (htop.getReg hframes hrhs) dst.index)
            (fun _ hv => Vm.light_of_numericBinop hv) (hwaits _ rfl htop.holds)
        | eqImm lhs imm => exact simulated_eqImm hchunk hframes hcallers htop
        | addImm dst imm => exact simulated_addImm hchunk hframes hcallers htop
        | neg src =>
          obtain ⟨dst, temp, konst, hvars, -, -, hcode, hwaits⟩ := htop.binds trivial rfl rfl
          have hsrc := hvars src (List.mem_singleton_self _)
          exact simulated_bind hchunk hframes hcallers (hcode 0 _ rfl)
            (computes_neg (htop.getReg hframes hsrc) dst.index)
            (fun _ hv => Vm.light_of_negate hv) (hwaits _ rfl htop.holds)
        | whileLt counter limit body => exact simulated_whileLt hchunk hframes hcallers htop
        | call function => exact simulated_call hlinked hchunk hframes hcallers htop
        | «return» value => exact simulated_return hchunk hframes hcallers htop
        | trap code => exact simulated_trap callers hchunk hframes htop
        | effect e => exact simulated_effect hchunk hframes hcallers htop

end

/-! ## Programs -/

/-- **Simulation.** The VM follows the program step by step. -/
theorem simulation {chunk : Chunk} {defs : List Def} (hlinked : Linked chunk defs)
    (host : ℕ → Host) :
    System.Simulation (system defs) (Vm.lightSystem host) (Matches chunk) where
  silent {_ vm _} hmatches hstep := by
    have h := @simulated_step chunk defs host vm hlinked _ hmatches
    rw [show step defs _ = _ from hstep] at h
    exact h
  result {_ vm _ _} hmatches hstep := by
    have h := @simulated_step chunk defs host vm hlinked _ hmatches
    rw [show step defs _ = _ from hstep] at h
    exact h

/-- A flow that starts in a function of the module. -/
def Module.start (m : Module) (function : Fin m.defs.length) (args : List LightValue) : Config :=
  .running ((m.defs.get function).enter (args.map (·.val))) []

/-- A flow is spawned where its program starts. -/
theorem Module.spawned (m : Module) (function : Fin m.defs.length) (args : List LightValue)
    (natives : NativeTable) (gate : NativeGate) :
    ∃ vm, Vm.withNativeGate m.chunk natives gate (UInt32.ofNat function) (args.map (·.val)) =
        .ok vm ∧
      ∀ quota : Option FlowQuota,
        Matches m.chunk (m.start function args) { vm with quota := quota } := by
  have hsmall : m.defs.length < 2 ^ 31 := lt_of_le_of_lt m.built.count
    (by rw [m.built.code]; exact m.small)
  have hindex : (UInt32.ofNat function).toNat = function := UInt32.toNat_ofNat_of_lt' (by
    have := function.isLt
    show (function : ℕ) < 2 ^ 32
    omega)
  have hd : m.defs[(UInt32.ofNat function).toNat]? = some (m.defs.get function) := by
    rw [hindex]
    exact List.getElem?_eq_getElem function.isLt
  have hargs : ∀ v ∈ args.map (·.val), v.bufferLen = 0 := by
    intro v hv
    obtain ⟨w, -, rfl⟩ := List.mem_map.mp hv
    exact w.property
  obtain ⟨frame, henter, hdest, hruns⟩ := m.linked.enter hd hargs none
  refine ⟨⟨m.chunk, natives, gate, [frame], 0, 1, none⟩, ?_, fun quota =>
    .running rfl rfl hruns (hdest ▸ .nil)⟩
  unfold Vm.withNativeGate
  rw [henter]
  rfl

section

variable {m : Module} {start : Config} {vm : Vm}

theorem Matches.conversations (h : Matches m.chunk start vm) (host : ℕ → Host)
    (c : List (VmResult × LightValue)) (q : VmResult) :
    (Vm.lightSystem host).Converses vm c q ↔ (system m.defs).Converses start c q :=
  ((simulation m.linked host).same_conversations h).symm

theorem Matches.sliced_conversations (h : Matches m.chunk start vm) (host : ℕ → Host)
    (quanta : ℕ → { n : ℕ // 0 < n }) (c : List (VmResult × LightValue)) (q : VmResult) :
    (Vm.sliced Subtype.val host quanta).Converses vm c q ↔
      ((system m.defs).answering Vm.resumeYield).Converses start c q :=
  ((Vm.sliced_simulation quanta).same_conversations rfl).trans
    (((simulation m.linked host).answering Vm.resumeYield).same_conversations h).symm

end

end Source

end Byteflow
