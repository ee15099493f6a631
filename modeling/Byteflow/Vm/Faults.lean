import Byteflow.Vm.Stores
import Byteflow.Vm.Verified

/-!
# What a fault says

A run that ends with a register out of range names a register that the frame in question does not
have (`targetSize`), and a store that the quota refuses ends the run with that refusal. Both fail
together, in one place: a return whose value the caller cannot pay for is reported as a register
out of range (`ReturnRefused`, `honest_iff`).
-/

namespace Byteflow

/-- The fault is about no register. -/
def Fault.RangeFree : Fault → Prop
  | registerOutOfRange .. => False
  | _ => True

theorem Fault.OfOperands.rangeFree {fault : Fault} (h : fault.OfOperands) : fault.RangeFree := by
  cases fault <;> trivial

namespace Vm

open Exec

variable {host : Host} {vm : Vm} {instr : Instruction}

/-! ## The frames -/

/-- A call stack: the sizes fit a byte, and the outermost frame has no caller. -/
def Stacked : List Frame → Prop
  | [] => True
  | frame :: rest =>
    frame.registers.length < 256 ∧ (rest = [] → frame.destReg = none) ∧ Stacked rest

/-- Only the sizes count. -/
theorem Stacked.top {frame frame' : Frame} {rest : List Frame} (h : Stacked (frame :: rest))
    (hlength : frame'.registers.length = frame.registers.length)
    (hdest : frame'.destReg = frame.destReg) : Stacked (frame' :: rest) := by
  obtain ⟨hsize, hbottom, hrest⟩ := h
  exact ⟨hlength ▸ hsize, fun hnil => hdest.trans (hbottom hnil), hrest⟩

theorem stacked_goto (h : Stacked vm.frames) (pc : ℕ) : Stacked (vm.goto pc).frames := by
  unfold goto
  split
  · exact h
  · rename_i frame rest hframes
    rw [hframes] at h
    exact h.top rfl rfl

theorem stacked_setReg (h : Stacked vm.frames) (host : Host) (reg : UInt8) (v : Value) :
    Stacked (vm.setReg host reg v).2.frames := by
  rcases (setReg_cases host vm reg v).2 with hf | ⟨frame, rest, hframes, hf⟩
  · rwa [hf]
  · rw [hf]
    rw [hframes] at h
    exact h.top List.length_set rfl

theorem stacked_drawn (h : Stacked vm.frames) {vm₁ : Vm}
    (hvm : vm₁ = vm.fetched ∨ vm₁ = vm.fetched.freshRequestId.2) : Stacked vm₁.frames := by
  have hfetched : Stacked vm.fetched.frames := @stacked_goto vm.counted h _
  rcases hvm with rfl | rfl
  · exact hfetched
  · unfold freshRequestId
    split <;> exact hfetched

theorem stacked_of_enter {chunk : Chunk} {function : UInt32} {args : List Value}
    {dest : Option UInt8} {frame : Frame} {rest : List Frame}
    (h : enter chunk function args dest = .ok frame) (hdest : rest = [] → dest = none)
    (hrest : Stacked rest) : Stacked (frame :: rest) := by
  unfold enter at h
  split at h
  · cases h
  · rename_i f hf
    obtain ⟨registers, hload, h⟩ := of_bind_ok h
    cases h
    refine ⟨?_, hdest, hrest⟩
    rw [length_of_loadArgs hload]
    exact List.length_replicate.trans_lt f.numRegisters.toNat_lt

theorem stacked_step (h : Stacked vm.frames) (host : Host) : Stacked (vm.step host).2.frames := by
  have hmoves := step_moves host vm
  generalize (vm.step host).1 = r at hmoves
  generalize (vm.step host).2 = vm' at hmoves ⊢
  have hfetched : Stacked vm.fetched.frames := @stacked_goto vm.counted h _
  have hstore {vm₁ vm' : Vm} {r : Except Fault Unit} {reg : UInt8} {v : Value}
      (h : Stacked vm₁.frames) (hset : vm₁.setReg host reg v = (r, vm')) : Stacked vm'.frames := by
    have := stacked_setReg h host reg v
    rwa [hset] at this
  have hpop {finished : Frame} {rest : List Frame} (hframes : vm.frames = finished :: rest) :
      Stacked rest := by
    rw [hframes] at h
    exact h.2.2
  cases hmoves with
  | stuck => exact h
  | result | passes => exact hfetched
  | jumps => exact @stacked_goto vm.counted h _
  | stores hnext reg v hvm hset => exact hstore (stacked_drawn h hvm) hset
  | refuses hnext reg v hvm hset => exact hstore (stacked_drawn h hvm) hset
  | calls hnext hop hdepth hargs henter =>
    refine stacked_of_enter henter (fun hnil => ?_) hfetched
    obtain ⟨frame, rest, hframes⟩ := frames_of_next hnext
    rw [fetched_of_frames hframes] at hnil
    cases hnil
  | completes hframes => exact hpop hframes
  | returns hframes hv hdest hset =>
    exact @hstore { vm.counted with frames := _ } _ _ _ _ (hpop hframes) hset
  | loses hframes hv hdest hset =>
    exact @hstore { vm.counted with frames := _ } _ _ _ _ (hpop hframes) hset

/-- **The call stack** of a flow, between its calls and in them. -/
theorem stacked_of_new {chunk : Chunk} {natives : NativeTable} {gate : NativeGate}
    {function : UInt32} {args : List Value}
    (hnew : withNativeGate chunk natives gate function args = .ok vm) (cs : List Call) :
    Stacked (vm.calls cs).frames := by
  refine calls_induct (I := fun vm => Stacked vm.frames) (fun vm host h => stacked_step h host)
    (fun vm host reg v h => stacked_setReg h host reg v) (fun _ _ h => h) ?_ cs
  obtain ⟨frame, henter, hnew⟩ := of_bind_ok hnew
  cases hnew
  exact stacked_of_enter henter (fun _ => rfl) trivial

/-! ## Registers out of range -/

/-- The size of the frame whose register a step may miss: the caller's for a return, the new frame's
for an argument of a call, else that of the frame on top. -/
def targetSize (vm : Vm) : Option ℕ :=
  match vm.frames with
  | [] => none
  | top :: rest =>
    if vm.returned.isSome then rest.head?.map (·.registers.length)
    else vm.next.bind fun instr =>
      if instr.op = .call ∧ (vm.gather instr.a 0 instr.b.toNat).toOption.isSome then
        (vm.chunk.function instr.imm.toUInt32).map (·.numRegisters.toNat)
      else some top.registers.length

/-- A result that reports a register out of range does so rightly. -/
def Fair (vm : Vm) (r : VmResult) : Prop :=
  ∀ reg size, r = .trap (.registerOutOfRange reg size) →
    vm.targetSize = some size.toNat ∧ size.toNat ≤ reg.toNat

/-- A return whose value the caller cannot pay for. -/
def ReturnRefused (host : Host) (vm : Vm) : Prop :=
  ∃ finished rest v dest fault, vm.frames = finished :: rest ∧ vm.returned = some v ∧
    finished.destReg = some dest ∧
      { vm.counted with frames := rest }.chargeRegisterStore host dest v = .error fault

theorem fair_of_rangeFree {fault : Fault} (h : fault.RangeFree) (vm : Vm) :
    Fair vm (.trap fault) := by
  intro reg size hr
  cases hr
  exact h.elim

theorem fair_range {n : ℕ} {reg : UInt8} (htarget : vm.targetSize = some n) (hn : n < 256)
    (h : n ≤ reg.toNat) : Fair vm (.trap (.registerOutOfRange reg (UInt8.ofNat n))) := by
  intro reg' size hr
  cases hr
  rw [htarget, UInt8.toNat_ofNat_of_lt' hn]
  exact ⟨rfl, h⟩

/-- The instruction works on the registers of the frame on top. -/
structure OnTop (vm : Vm) (frame : Frame) : Prop where
  frames : ∃ rest, vm.frames = frame :: rest
  size : frame.registers.length < 256
  target : vm.targetSize = some frame.registers.length

/-- What code ends the run with, if it does, is right. -/
def EndsFair (vm : Vm) (r : Except VmResult Unit × Vm) : Prop :=
  ∀ result, r.1 = .error result → Fair vm result

variable {frame : Frame}

theorem OnTop.getReg (h : OnTop vm frame) {reg : UInt8} {fault : Fault}
    (hreg : vm.getReg reg = .error fault) : Fair vm (.trap fault) := by
  obtain ⟨rest, hframes⟩ := h.frames
  unfold Vm.getReg at hreg
  simp only [hframes] at hreg
  split at hreg
  · cases hreg
  · rename_i hnone
    cases hreg
    exact fair_range h.target h.size (List.getElem?_eq_none_iff.mp hnone)

theorem OnTop.gather (h : OnTop vm frame) {base : UInt8} {offset argc : ℕ} {fault : Fault}
    (hgather : vm.gather base offset argc = .error fault) : Fair vm (.trap fault) := by
  obtain ⟨offset, hindex⟩ | ⟨reg, hreg⟩ := error_of_gather hgather
  · unfold regAt at hindex
    split at hindex <;> cases hindex
    refine fair_of_rangeFree ?_ vm
    trivial
  · exact h.getReg hreg

theorem error_of_setReg {rest : List Frame} (hframes : vm.frames = frame :: rest) {reg : UInt8}
    {v : Value} {fault : Fault} (h : (vm.setReg host reg v).1 = .error fault) :
    vm.chargeRegisterStore host reg v = .error fault ∨ frame.registers.length ≤ reg.toNat ∧
      fault = .registerOutOfRange reg (UInt8.ofNat frame.registers.length) := by
  unfold setReg at h
  cases hcharge : vm.chargeRegisterStore host reg v with
  | error fault' =>
    simp only [hcharge] at h
    cases h
    exact .inl rfl
  | ok vm₁ =>
    obtain ⟨quota, rfl⟩ := charged hcharge
    simp only [hcharge, hframes] at h
    split_ifs at h with hreg
    cases h
    exact .inr ⟨Nat.le_of_not_lt hreg, rfl⟩

/-- A refusal by the quota is about no register. -/
theorem fair_of_charge {vm₁ : Vm} {reg : UInt8} {v : Value} {fault : Fault}
    (h : vm₁.chargeRegisterStore host reg v = .error fault) (vm : Vm) : Fair vm (.trap fault) := by
  obtain ⟨message, rfl⟩ := fault_of_charge h
  refine fair_of_rangeFree ?_ vm
  trivial

theorem OnTop.write (h : OnTop vm frame) (reg : UInt8) (v : Value) {vm₁ : Vm}
    (hvm : vm₁ = vm.fetched ∨ vm₁ = vm.fetched.freshRequestId.2) :
    EndsFair vm ((write host reg v).runFrom vm₁) := by
  obtain ⟨rest, hframes⟩ := h.frames
  have htop : vm₁.frames = { frame with pc := frame.pc + 1 } :: rest := by
    have hfetched := congrArg Vm.frames (fetched_of_frames hframes)
    rcases hvm with rfl | rfl
    · exact hfetched
    · unfold freshRequestId
      split <;> exact hfetched
  rw [runFrom_store]
  cases hset : (vm₁.setReg host reg v).1 with
  | ok _ => exact fun _ hr => by cases hr
  | error fault =>
    rintro _ ⟨⟩
    rcases error_of_setReg htop hset with hcharge | ⟨hreg, rfl⟩
    · exact fair_of_charge hcharge vm
    · exact fair_range h.target h.size hreg

/-- **Opcodes** that neither call a function nor return from one. -/
theorem OnTop.exec (h : OnTop vm frame) (hnatives : vm.natives.FailsAsNative) (host : Host)
    (hcall : instr.op ≠ .call) (hreturn : instr.op ≠ .return) :
    EndsFair vm ((Vm.exec host instr).runFrom vm.fetched) := by
  have hfree {fault : Fault} (hfault : fault.RangeFree) : Fair vm (.trap fault) :=
    fair_of_rangeFree hfault vm
  have hindex {base : UInt8} {offset : ℕ} {fault : Fault} (hr : regAt base offset = .error fault) :
      Fair vm (.trap fault) := by
    unfold regAt at hr
    split at hr <;> cases hr
    exact hfree trivial
  refine Opcodes.exec (E := Fair vm) (P := EndsFair vm) ?_
  exact
    { ends := by
        rintro r hr _ ⟨⟩
        exact hr
      register := fun reg fault hreg => h.getReg hreg
      index := fun base offset fault hr => hindex hr
      operands := fun fault hfault => hfree hfault.rangeFree
      numeric := by
        intro _ x y fault _ _ hfault
        rcases fault_of_numericBinop hfault with hfault | ⟨-, -, message, rfl⟩
        · exact hfree hfault.rangeFree
        · exact hfree trivial
      constant := fun _ _ => hfree trivial
      native := by
        intro _ fault hfault
        unfold nativeCall at hfault
        split at hfault
        · cases hfault
          exact hfree trivial
        · cases hfault
          exact hfree trivial
        · split at hfault
          · cases hfault
            exact hfree trivial
          · obtain hargs | ⟨_, _, hfault⟩ := of_bind_error hfault
            · exact h.gather hargs
            · cases hfault
      fails := by
        intro _ f args fault hf hfault
        obtain ⟨-, hget, -⟩ := nativeCall_ok hf
        obtain ⟨message, rfl⟩ := hnatives _ _ hget _ _ _ hfault
        exact hfree trivial
      explicit := hfree trivial
      effect := fun r hr _ reg size htrap => by
        rw [htrap] at hr
        exact hr.elim
      spawn := fun _ args rights reg size htrap => by cases htrap
      passes := fun _ hr => by cases hr
      writes := fun reg v vm₁ hvm => h.write reg v hvm
      jumps := by
        intro _
        obtain ⟨rest, hframes⟩ := h.frames
        unfold jump
        rw [runFrom_bind, runFrom_get, fetched_of_frames hframes]
        exact fun _ hr => by cases hr
      calls := fun hop => absurd hop hcall
      returns := fun hop => absurd hop hreturn }

/-- A call: an argument may lack its register in the new frame. -/
theorem fair_call {rest : List Frame} (hframes : vm.frames = frame :: rest)
    (hsize : frame.registers.length < 256) (hnext : vm.next = some instr)
    (hop : instr.op = .call) :
    EndsFair vm ((call instr.imm.toUInt32 instr.b instr.a).runFrom vm.fetched) := by
  have hreturned : vm.returned = none := by
    simp only [returned, hframes, hnext, hop]
    rfl
  have hgoesOn {α : Type} {x : Code α} {f : α → Code Unit} {Q : α → Prop}
      (hx : Looks vm x Q (Fair vm)) (hf : ∀ a, Q a → EndsFair vm ((f a).runFrom vm.fetched)) :
      EndsFair vm ((x >>= f).runFrom vm.fetched) := by
    refine hx.next (fun r hr => ?_) hf
    rintro _ ⟨⟩
    exact hr
  unfold call
  refine hgoesOn reads_get fun s hs => ?_
  subst hs
  rw [fetched_chunk]
  split_ifs with hdepth
  · rintro _ ⟨⟩ reg size hr
    cases hr
  split
  · rintro _ ⟨⟩ reg size hr
    cases hr
  · rename_i f hf
    rw [gather_congr getReg_fetched]
    have htarget (b : Bool)
        (h : (vm.gather instr.a 0 instr.b.toNat).toOption.isSome = b) :
        vm.targetSize = if b then some f.numRegisters.toNat else some frame.registers.length := by
      simp [targetSize, hframes, hreturned, hnext, hop, hf, h]
    refine hgoesOn (looks_trap fun fault hfault => ?_) fun args hargs => ?_
    · exact OnTop.gather ⟨⟨rest, hframes⟩, hsize, htarget false (by rw [hfault]; rfl)⟩ hfault
    · refine hgoesOn (looks_trap fun fault hfault => ?_) fun callee _ => fun _ hr => by cases hr
      rw [error_of_enter hf hfault]
      rintro reg size hr
      cases hr
      exact ⟨htarget true (by rw [hargs]; rfl), le_rfl⟩

/-- **One instruction** reports a register out of range rightly, but for a refused return. -/
theorem fair_step (hstacked : Stacked vm.frames) (hnatives : vm.natives.FailsAsNative)
    (hpaid : ¬ReturnRefused host vm) {r : VmResult} (hr : (vm.step host).1 = some r) :
    Fair vm r := by
  have hrun {x : Except VmResult Unit × Vm} (hfair : EndsFair vm x)
      (hx : vm.step host = outcome x) : Fair vm r := by
    rw [hx] at hr
    rcases x with ⟨_ | _, _⟩ <;> cases hr
    exact hfair _ rfl
  cases hframes : vm.frames with
  | nil =>
    have hnone {instr : Instruction} (hnext : vm.next = some instr) : False := by
      obtain ⟨_, _, h⟩ := frames_of_next hnext
      rw [hframes] at h
      cases h
    have hmoves := step_moves host vm
    rw [hr] at hmoves
    generalize (vm.step host).2 = vm' at hmoves
    cases hmoves with
    | stuck => exact fun _ _ h => by cases h
    | result hnext | refuses hnext => exact (hnone hnext).elim
    | completes h | loses h =>
      rw [hframes] at h
      cases h
  | cons frame rest =>
    rw [hframes] at hstacked
    obtain ⟨hsize, hbottom, hrest⟩ := hstacked
    cases hv : vm.returned with
    | some v =>
      rw [step_of_returned hframes hv] at hr
      cases hdest : frame.destReg with
      | none =>
        simp only [hdest, Option.elim_none] at hr
        cases hr
        exact fun _ _ h => by cases h
      | some dest =>
        simp only [hdest, Option.elim_some] at hr
        cases hset : (({ vm.counted with frames := rest } : Vm).setReg host dest v).1 with
        | ok _ =>
          rw [hset] at hr
          cases hr
        | error fault =>
          rw [hset] at hr
          cases hr
          cases rest with
          | nil =>
            rw [hbottom rfl] at hdest
            cases hdest
          | cons caller rest =>
            have hrefused := @error_of_setReg host { vm.counted with frames := caller :: rest }
              caller rest rfl dest v fault hset
            rcases hrefused with hcharge | ⟨hreg, -⟩
            · exact absurd ⟨_, _, v, dest, fault, hframes, hv, hdest, hcharge⟩ hpaid
            · refine fair_range ?_ hrest.1 hreg
              simp [targetSize, hframes, hv]
    | none =>
      cases hnext : vm.next with
      | none => simp [returned, hframes, hnext] at hv
      | some instr =>
        refine hrun ?_ (step_of_next host hnext)
        have hon (hop : instr.op ≠ .call) : OnTop vm frame :=
          ⟨⟨rest, hframes⟩, hsize, by simp [targetSize, hframes, hv, hnext, hop]⟩
        rcases eq_or_ne instr.op .call with hop | hop
        · unfold exec
          rw [hop]
          exact fair_call hframes hsize hnext hop
        rcases eq_or_ne instr.op .return with hop' | hop'
        · have herror : ∃ fault, vm.getReg instr.a = .error fault := by
            simp only [returned, hframes, hnext, hop', if_true] at hv
            cases h : vm.getReg instr.a with
            | ok v =>
              rw [h] at hv
              cases hv
            | error fault => exact ⟨fault, rfl⟩
          obtain ⟨fault, herror⟩ := herror
          unfold exec
          simp only [hop', runFrom_bind, runFrom_readReg, getReg_fetched,
            runFrom_trap_error herror]
          rintro _ ⟨⟩
          exact (hon hop).getReg herror
        · exact (hon hop).exec hnatives host hop hop'

/-! ## Stores that the quota refuses -/

theorem setReg_of_charge {reg : UInt8} {v : Value} {fault : Fault}
    (h : vm.chargeRegisterStore host reg v = .error fault) :
    vm.setReg host reg v = (.error fault, vm) := by
  unfold setReg
  rw [h]

/-- **One instruction** reports a refusal by the quota, but for a return. -/
theorem step_of_refusal {vm₁ : Vm} {reg : UInt8} {v : Value} {fault : Fault}
    (hstores : Stores host vm vm₁ reg v)
    (hcharge : vm₁.chargeRegisterStore host reg v = .error fault)
    (hpaid : ¬ReturnRefused host vm) : (vm.step host).1 = some (.trap fault) := by
  cases hstores with
  | result hnext hv =>
    rw [step_of_result hnext hv, runFrom_store, setReg_of_charge hcharge]
    rfl
  | returned hframes hv hdest =>
    exact absurd ⟨_, _, _, _, fault, hframes, hv, hdest, hcharge⟩ hpaid

/-- A refused return is reported as a register out of range. -/
theorem step_of_returnRefused (h : ReturnRefused host vm) :
    (∃ vm₁ reg v fault, Stores host vm vm₁ reg v ∧
      vm₁.chargeRegisterStore host reg v = .error fault) ∧
      ∃ reg size, (vm.step host).1 = some (.trap (.registerOutOfRange reg size)) := by
  obtain ⟨finished, rest, v, dest, fault, hframes, hv, hdest, hcharge⟩ := h
  refine ⟨⟨_, dest, v, fault, .returned hframes hv hdest, hcharge⟩, dest,
    UInt8.ofNat ((rest.head?.map (·.registers.length)).getD 0), ?_⟩
  rw [step_of_returned hframes hv]
  simp only [hdest, Option.elim_some, setReg_of_charge hcharge]
  rfl

/-! ## Runs -/

/-- A slice ends with its budget, or with the result of the last instruction. -/
theorem run_last (host : ℕ → Host) (budget : ℕ) (vm : Vm) :
    (run host budget vm).1 = .yield ∨ ∃ v, (visited host budget vm).getLast? = some v ∧
      (v.step (host v.instructionsExecuted)).1 = some (run host budget vm).1 := by
  induction budget generalizing vm with
  | zero => exact .inl rfl
  | succ budget ih =>
    unfold run visited
    rcases hstep : vm.step (host vm.instructionsExecuted) with ⟨r, vm'⟩
    cases r with
    | some r => exact .inr ⟨vm, rfl, congrArg Prod.fst hstep⟩
    | none =>
      rcases ih vm' with hyield | ⟨v, hlast, hr⟩
      · exact .inl hyield
      · exact .inr ⟨v, by simp [List.getLast?_cons, hlast], hr⟩

/-- An instruction with a result ends its slice. -/
theorem run_of_visited {host : ℕ → Host} {budget : ℕ} {v : Vm} {r : VmResult}
    (hv : v ∈ visited host budget vm) (hr : (v.step (host v.instructionsExecuted)).1 = some r) :
    (run host budget vm).1 = r := by
  induction budget generalizing vm with
  | zero => exact absurd hv List.not_mem_nil
  | succ budget ih =>
    unfold run
    unfold visited at hv
    rcases hstep : vm.step (host vm.instructionsExecuted) with ⟨r', vm'⟩
    rw [hstep] at hv
    rcases List.mem_cons.mp hv with rfl | hv
    · rw [hstep] at hr
      simp only at hr
      rw [hr]
    · cases r' with
      | none => exact ih hv
      | some r' => exact absurd hv List.not_mem_nil

/-- A slice reports its faults honestly: a register out of range is one that the frame in question
lacks, and a refusal by the quota is reported as such. -/
structure Honest (host : ℕ → Host) (budget : ℕ) (vm : Vm) : Prop where
  range : ∀ reg size, (run host budget vm).1 = .trap (.registerOutOfRange reg size) →
    ∃ v, (visited host budget vm).getLast? = some v ∧ v.targetSize = some size.toNat ∧
      size.toNat ≤ reg.toNat
  quota : ∀ v ∈ visited host budget vm, ∀ vm₁ reg value fault,
    Stores (host v.instructionsExecuted) v vm₁ reg value →
    vm₁.chargeRegisterStore (host v.instructionsExecuted) reg value = .error fault →
    (∃ message, fault = .quotaExceeded message) ∧ (run host budget vm).1 = .trap fault

/-- **Faults.** The slices of a flow report their faults honestly exactly as long as no return is
refused. -/
theorem honest_iff {chunk : Chunk} {natives : NativeTable} (hnatives : natives.FailsAsNative)
    {gate : NativeGate} {function : UInt32} {args : List Value}
    (hnew : withNativeGate chunk natives gate function args = .ok vm) (cs : List Call)
    (host : ℕ → Host) (budget : ℕ) :
    Honest host budget (vm.calls cs) ↔
      ∀ v ∈ visited host budget (vm.calls cs), ¬ReturnRefused (host v.instructionsExecuted) v := by
  have hstacked := visited_keeps (I := fun vm => Stacked vm.frames)
    (fun vm host h => stacked_step h host) host budget (stacked_of_new hnew cs)
  have hprogram (vm : Vm) (host : Host) (h : vm.natives = natives) :
      (vm.step host).2.natives = natives := live_step h host
  have hstart : (vm.calls cs).natives = natives := by
    refine calls_induct (I := fun vm => vm.natives = natives) hprogram (fun vm host reg v h => ?_)
      (fun _ _ h => h) ?_ cs
    · exact (congrArg Program.natives (setReg_cases host vm reg v).1).trans h
    · obtain ⟨frame, henter, hnew⟩ := of_bind_ok hnew
      cases hnew
      rfl
  have hfails := visited_keeps hprogram host budget hstart
  constructor
  · intro h v hv hrefused
    obtain ⟨⟨vm₁, reg, value, fault, hstores, hcharge⟩, reg', size, hr⟩ :=
      step_of_returnRefused hrefused
    obtain ⟨⟨message, rfl⟩, hrun⟩ := h.quota v hv vm₁ reg value fault hstores hcharge
    rw [run_of_visited hv hr] at hrun
    cases hrun
  · intro h
    constructor
    · intro reg size hrun
      rcases run_last host budget (vm.calls cs) with hyield | ⟨v, hlast, hr⟩
      · rw [hrun] at hyield
        cases hyield
      · have hv := List.mem_of_getLast? hlast
        rw [hrun] at hr
        have hfair := fair_step (hstacked v hv) ((hfails v hv).symm ▸ hnatives) (h v hv) hr
        exact ⟨v, hlast, hfair _ _ rfl⟩
    · intro v hv vm₁ reg value fault hstores hcharge
      exact ⟨fault_of_charge hcharge,
        run_of_visited hv (step_of_refusal hstores hcharge (h v hv))⟩

/-- A program that calls a function for a greeting. -/
def greeting : Chunk where
  name := "greeting"
  constants := [.str "hi"]
  code := [⟨.call, 0, 0, 0, 1⟩, .aImm .return 0 0, .aImm .loadConst 0 0, .aImm .return 0 0]
  functions := [⟨"main", 0, 0, 1⟩, ⟨"greet", 2, 0, 1⟩]

/-- A flow at the start of it, without rights. -/
def greetingVm : Vm :=
  ⟨greeting, stdNatives, ⟨false, ⟨[]⟩, 0, 0, 0, 0⟩, [⟨0, 0, [.unit], none⟩], 0, 1, none⟩

theorem honest_iff_greeting :
    Honest (fun _ => ⟨0, false, fun _ => 0⟩) 4 (greetingVm.calls []) ↔
      ∀ v ∈ visited (fun _ => ⟨0, false, fun _ => 0⟩) 4 (greetingVm.calls []),
        ¬ReturnRefused ⟨0, false, fun _ => 0⟩ v := by
  have hnew : withNativeGate greeting stdNatives ⟨false, ⟨[]⟩, 0, 0, 0, 0⟩ 0 [] =
      .ok greetingVm := rfl
  exact honest_iff stdNatives_failsAsNative hnew [] (fun _ => ⟨0, false, fun _ => 0⟩) 4

/-- The quota pays for the greeting in the function, and not for the one that it returns. -/
theorem refused_greeting :
    withNativeGate greeting stdNatives ⟨false, ⟨[]⟩, 0, 0, 0, 0⟩ 0 [] = .ok greetingVm ∧
      (run (fun _ => ⟨0, false, fun _ => 0⟩) 4 (greetingVm.calls [.setQuota ⟨100, 2, 0⟩])).1 =
        .trap (.registerOutOfRange 0 1) ∧
      ¬Honest (fun _ => ⟨0, false, fun _ => 0⟩) 4 (greetingVm.calls [.setQuota ⟨100, 2, 0⟩]) := by
  have hrun : (run (fun _ => ⟨0, false, fun _ => 0⟩) 4
      (greetingVm.calls [.setQuota ⟨100, 2, 0⟩])).1 = .trap (.registerOutOfRange 0 1) := by rfl
  refine ⟨rfl, hrun, fun h => ?_⟩
  obtain ⟨v, -, -, hle⟩ := h.range 0 1 hrun
  exact absurd hle (by decide)

end Vm

end Byteflow
