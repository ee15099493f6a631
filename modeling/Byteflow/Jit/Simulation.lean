import Byteflow.Jit.Buffers
import Byteflow.Jit.Lockstep

/-!
# Traces beside the interpreter

A run of a trace and the run of the interpreter over the same instructions, in step from block to
block: at the head of each the slots have the integers of the interpreter's registers (`InStep`).
If each of the instructions is faithful when its turn comes (`FaithfulRun`), the trace ends, its
exit can be applied, and the VM is then as the interpreter would have left it (`trace_agrees`).
-/

namespace Byteflow

namespace Jit

open Vm

/-! ## The condition on a run -/

/-- The instructions of the rest of a block are faithful, and nothing is left to flush where the
budget runs out. -/
def FaithfulBlock (d : Demand) (host : ℕ → Host) (ctx : EmitContext) (entry : List Value)
    (returnReg : UInt32) : List UInt32 → RegisterMap Int64 → JitFrame → Vm → Prop
  | [], _, _, _ => True
  | pc :: pcs, m, fr, vm =>
    match vm.frames with
    | [] => True
    | frame :: rest =>
      if fr.budget = 0 then Flushed m fr ∧ d.Leaves frame.registers fr
      else
        match ctx.chunk.code[pc.toNat]? with
        | none => True
        | some instr =>
          Faithful d ctx entry returnReg pc instr frame rest m
              { fr with budget := fr.budget - 1 } ∧
            match exec ctx pc instr m { fr with budget := fr.budget - 1 } with
            | .next m fr =>
              FaithfulBlock d host ctx entry returnReg pcs m fr
                (vm.step (host vm.instructionsExecuted)).2
            | .stop _ => True

/-- The instructions that a trace executes from the block at `pc` on are faithful, with the
interpreter beside it. -/
def FaithfulRun (d : Demand) (host : ℕ → Host) (chunk : Chunk) (key : TraceKey)
    (entry : List Value) : ℕ → UInt32 → JitFrame → Vm → Prop
  | 0, _, _, _ => True
  | fuel + 1, pc, fr, vm =>
    match blockAt (collectTraceRegion chunk key) pc, chunk.function key.function with
    | some b, some f =>
      let ctx := regionContext chunk (collectTraceRegion chunk key)
      let m := RegisterMap.new f.numRegisters.toNat
      FaithfulBlock d host ctx entry (sharedReturn chunk key).2 b.pcs m fr vm ∧
        match execBlock ctx b.pcs m fr with
        | .jump (.region pc) fr' =>
          FaithfulRun d host chunk key entry fuel pc fr'
            (Vm.run host (fr.budget - fr'.budget).toNat vm).2
        | _ => True
    | _, _ => True

/-! ## In step -/

/-- After `n` steps of the interpreter the code has the integers of its registers, and has taken
`n` from the budget `B`. -/
structure InStep (host : ℕ → Host) (chunk : Chunk) (calls : Bool) (kept : ℕ) (vm₀ : Vm)
    (frame₀ : Frame) (rest₀ : List Frame) (B n : ℕ) (vm : Vm) (frame : Frame) (rest : List Frame)
    (m : RegisterMap Int64) (fr : JitFrame) : Prop where
  reaches : StepsTo host n vm₀ vm
  on : On chunk frame rest vm
  stands : Stands calls frame₀ rest₀ frame rest fr
  mirrors : Mirrors kept frame.registers m fr
  spent : n + fr.budget.toNat = B

/-- How many instructions of the interpreter a trace stands for: as many as it took from its budget,
but for a call that it leaves to the interpreter. -/
def Executed (chunk : Chunk) (key : TraceKey) (B n : ℕ) (fr : JitFrame) : Prop :=
  n + fr.budget.toNat = B ∨ n + 1 + fr.budget.toNat = B ∧
    ∃ instr, (fr.pc, instr) ∈ regionInstructions chunk (collectTraceRegion chunk key) ∧
      instr.op = .call

/-- The trace ends, and its exit agrees with the interpreter. Where the budget runs out, the
interpreter has taken a step for each unit of it. -/
def Ends (d : Demand) (host : ℕ → Host) (h : Host) (chunk : Chunk) (key : TraceKey)
    (vm₀ : Vm) (B : ℕ) (exit : Exit) : Prop :=
  ∃ fr n, exit = .returned fr ∧ Executed chunk key B n fr ∧
    (fr.exitKind = jitBudget → n = B ∧ ∃ vm, StepsTo host n vm₀ vm) ∧
    ∃ applied, applyExitToVm h vm₀ fr.slots (intoReason fr) = some applied ∧
      Agree d applied (Vm.run host n vm₀)

theorem Run.Leads.mono {chunk : Chunk} {key : TraceKey} {I I' : UInt32 → JitFrame → Prop}
    {Q : Exit → Prop} {r : Run} (h : r.Leads chunk key I Q) (hI : ∀ pc fr, I pc fr → I' pc fr) :
    r.Leads chunk key I' Q := by
  cases r with
  | jump target fr =>
    cases target with
    | region pc => exact hI pc fr h
    | trap => exact h
    | «return» => exact h
  | _ => exact h

/-- An instruction that ends a block. -/
theorem exec_of_isTerminator (ctx : EmitContext) (pc : UInt32) {instr : Instruction}
    (h : isTerminator instr.op = true) (m : RegisterMap Int64) (fr : JitFrame) :
    ∃ r, exec ctx pc instr m fr = .stop r := by
  unfold exec
  cases hop : instr.op with
  | jump => exact ⟨_, rfl⟩
  | branch => exact ⟨_, rfl⟩
  | «return» => exact ⟨_, rfl⟩
  | call =>
    dsimp only
    split
    · exact ⟨_, rfl⟩
    · exact ⟨_, rfl⟩
  | _ => simp [hop, isTerminator] at h

theorem toUInt8_sharedReturn (chunk : Chunk) (key : TraceKey) :
    (sharedReturn chunk key).2.toUInt8.toNat = (sharedReturn chunk key).2.toNat := by
  have hsmall : (sharedReturn chunk key).2.toNat < 256 := by
    unfold sharedReturn
    split
    · rename_i reg _
      rw [UInt8.toNat_toUInt32]
      exact reg.toNat_lt
    · exact Nat.zero_lt_succ 255
  rw [UInt32.toNat_toUInt8]
  omega

theorem mem_regionInstructions {chunk : Chunk} {region : List TraceBlock} {pc : UInt32}
    {instr : Instruction} (hpc : pc ∈ region.flatMap (·.pcs))
    (hinstr : chunk.code[pc.toNat]? = some instr) : (pc, instr) ∈ regionInstructions chunk region :=
  List.mem_filterMap.mpr ⟨pc, hpc, by rw [hinstr]; rfl⟩

theorem supportsCalls_of_mem {chunk : Chunk} {region : List TraceBlock} {pc : UInt32}
    {instr : Instruction} (h : (pc, instr) ∈ regionInstructions chunk region)
    (hop : instr.op = .call) : (regionContext chunk region).supportsCalls = true :=
  List.any_eq_true.mpr ⟨_, h, by rw [hop]; rfl⟩

section

variable {d : Demand} {host : ℕ → Host} {h : Host} {chunk : Chunk} {key : TraceKey}
  {trust : TrustLevel} {kept : ℕ} {vm₀ vm : Vm} {frame₀ frame : Frame} {rest₀ rest : List Frame}
  {B n : ℕ} {m : RegisterMap Int64} {fr : JitFrame}

/-- What the head of the next block has, after a block that started in step with `vm`. -/
def NextHead (host : ℕ → Host) (chunk : Chunk) (calls : Bool) (kept : ℕ) (vm₀ : Vm)
    (frame₀ : Frame) (rest₀ : List Frame) (B n : ℕ) (vm : Vm) (pc : UInt32) (fr : JitFrame) :
    Prop :=
  ∃ k vm' frame' rest', StepsTo host k vm vm' ∧ frame'.pc = pc.toNat ∧
    InStep host chunk calls kept vm₀ frame₀ rest₀ B (n + k) vm' frame' rest' (RegisterMap.new kept)
      fr

/-- An exit in the function that the trace was entered in. -/
theorem ends_synced (hframes₀ : vm₀.frames = frame₀ :: rest₀) (hreaches : StepsTo host n vm₀ vm)
    (hon : On chunk frame rest₀ vm) (hcall : SameCall frame frame₀)
    (hmirrors : Mirrors kept frame.registers (RegisterMap.new kept) fr)
    (hsettles : d.Settles frame.registers) {kind pc : UInt32}
    (hkind : kind = jitContinue ∨ kind = jitBudget ∧ n = B) (hpc : frame.pc = pc.toNat)
    (hexecuted : Executed chunk key B n (fr.exit kind pc 0)) :
    Ends d host h chunk key vm₀ B (.returned (fr.exit kind pc 0)) := by
  have hslots : Mirrors kept frame.registers (RegisterMap.new kept) (fr.exit kind pc 0) :=
    hmirrors.congr rfl
  have hexit : intoReason (fr.exit kind pc 0) = .continue pc ∨
      intoReason (fr.exit kind pc 0) = .budget pc := by
    rcases hkind with rfl | ⟨rfl, -⟩
    · exact .inl rfl
    · exact .inr rfl
  refine ⟨_, n, rfl, hexecuted, fun hbudget => ?_,
    agree_synced hframes₀ hreaches hon hcall hpc hslots hsettles hexit⟩
  rcases hkind with rfl | ⟨-, hall⟩
  · cases hbudget
  · exact ⟨hall, vm, hreaches⟩

/-- A return from the function that the trace was entered in. -/
theorem ends_return {v : Value} {i : Int64} (hframes₀ : vm₀.frames = frame₀ :: rest₀)
    (hreaches : StepsTo host n vm₀ vm) (hon : On chunk frame rest₀ vm)
    (hcall : SameCall frame frame₀) (hv : flat v = some i) (hkinds : d = .kinds → ∃ j, v = .int j)
    (hstep : vm.step (host vm.instructionsExecuted) =
      outcome ((popFrame (host vm.instructionsExecuted) v).runFrom vm.fetched))
    {pc reg : UInt32} (hsmall : reg.toUInt8.toNat = reg.toNat)
    (hreg : reg.toNat < frame.registers.length) (hslot : fr.slots[reg.toNat]? = some i)
    (hspent : n + 1 + fr.budget.toNat = B) :
    Ends d host h chunk key vm₀ B (.returned (fr.exit jitReturn pc reg)) := by
  refine ⟨_, n + 1, rfl, .inl hspent, (fun hbudget => by cases hbudget), ?_⟩
  have hreg' : reg.toUInt8.toNat < frame₀.registers.length := by
    rw [hsmall, ← hcall.length]
    exact hreg
  have hslot' : (fr.exit jitReturn pc reg).slots[reg.toUInt8.toNat]? = some i := by
    rw [hsmall]
    exact hslot
  exact agree_return hframes₀ hreaches hon hcall hv hkinds hstep hreg' hslot' rfl

/-! ## Blocks -/

/-- What one instruction does to the budget. -/
theorem budget_of_exec {ctx : EmitContext} {pc : UInt32} {instr : Instruction} {s : Step}
    (h0 : fr.budget ≠ 0) (hexec : exec ctx pc instr m { fr with budget := fr.budget - 1 } = s)
    (hspent : n + fr.budget.toNat = B) :
    s.Leaves ctx fun fr' => n + 1 + fr'.budget.toNat = B := by
  have hkeeps := exec_keeps ctx pc instr m { fr with budget := fr.budget - 1 }
  have hone := toNat_sub_one h0
  have hbudget (fr' : JitFrame) (hfr' : JitFrame.Keeps { fr with budget := fr.budget - 1 } fr') :
      n + 1 + fr'.budget.toNat = B := by
    have hsame : fr'.budget.toNat = (fr.budget - 1).toNat := congrArg UInt32.toNat hfr'.1
    omega
  rw [hexec] at hkeeps
  cases s with
  | next m' fr' => exact hbudget fr' hkeeps
  | stop r => exact hkeeps.mono hbudget

/-- **Blocks in step.** -/
theorem block_follows (hverify : chunk.verifyWith trust = .ok ())
    (hlength : chunk.code.length < 2 ^ 32) (hframes₀ : vm₀.frames = frame₀ :: rest₀)
    (hkept : frame₀.registers.length = kept) {pc : UInt32} {pcs : List UInt32} (hpcs : pcs ≠ [])
    (hregion : ∀ pc ∈ pcs, pc ∈ (collectTraceRegion chunk key).flatMap (·.pcs))
    (hfollows : Follows chunk pc pcs)
    (hlast : (pcs.getLast?.bind fun pc => chunk.code[pc.toNat]?).any (isTerminator ·.op) = true)
    (hin : InStep host chunk (regionContext chunk (collectTraceRegion chunk key)).supportsCalls kept
      vm₀ frame₀ rest₀ B n vm frame rest m fr) (hpc : frame.pc = pc.toNat)
    (hfaithful : FaithfulBlock d host (regionContext chunk (collectTraceRegion chunk key))
      frame₀.registers (sharedReturn chunk key).2 pcs m fr vm) :
    (execBlock (regionContext chunk (collectTraceRegion chunk key)) pcs m fr).Leads chunk key
      (NextHead host chunk (regionContext chunk (collectTraceRegion chunk key)).supportsCalls kept
        vm₀ frame₀ rest₀ B n vm) (Ends d host h chunk key vm₀ B) := by
  induction pcs generalizing pc n vm frame rest m fr with
  | nil => exact absurd rfl hpcs
  | cons pc' pcs ih =>
    obtain ⟨rfl, ⟨instr, hinstr, hrec⟩, hrest⟩ := hfollows
    have hmem := mem_regionInstructions (hregion pc' List.mem_cons_self) hinstr
    unfold FaithfulBlock at hfaithful
    rw [hin.on.frames_eq] at hfaithful
    dsimp only at hfaithful
    unfold execBlock
    by_cases h0 : fr.budget = 0
    · rw [if_pos h0] at hfaithful ⊢
      obtain ⟨hflushed, hdepth, hsettles⟩ := hfaithful
      obtain ⟨rfl, hcall, -⟩ := hin.stands.outermost hdepth
      have hall : n = B := by
        have hspent := hin.spent
        rwa [h0, UInt32.toNat_zero, Nat.add_zero] at hspent
      exact ends_synced hframes₀ hin.reaches hin.on hcall (hin.mirrors.of_flushed hflushed)
        hsettles (.inr ⟨rfl, hall⟩) hpc (.inl hin.spent)
    rw [if_neg h0] at hfaithful ⊢
    have hcode : (regionContext chunk (collectTraceRegion chunk key)).chunk.code[pc'.toNat]? =
      some instr := hinstr
    rw [hcode] at hfaithful ⊢
    obtain ⟨hone, hrestFaithful⟩ := hfaithful
    have hmirrors : Mirrors kept frame.registers m { fr with budget := fr.budget - 1 } :=
      hin.mirrors.congr rfl
    have hstands := hin.stands.ticked
    have hstep : StepFollows d (host vm.instructionsExecuted) chunk
        (regionContext chunk (collectTraceRegion chunk key)) (sharedReturn chunk key).2 pc' instr
        kept frame₀ rest₀ frame rest vm { fr with budget := fr.budget - 1 }
        (exec (regionContext chunk (collectTraceRegion chunk key)) pc' instr m
          { fr with budget := fr.budget - 1 }) :=
      exec_follows hverify hlength rfl hkept hin.on hpc hinstr hrec (supportsCalls_of_mem hmem)
        hmirrors hstands hone
    dsimp only
    generalize hexec : exec (regionContext chunk (collectTraceRegion chunk key)) pc' instr m
      { fr with budget := fr.budget - 1 } = s at hstep hrestFaithful
    have hspent := budget_of_exec h0 hexec hin.spent
    cases hstep with
    | @next m' fr' frame' honly hgoes =>
      obtain ⟨⟨vm', hvm', hon'⟩, hpc'', hcall', hmirrors'⟩ := hgoes
      have hin' : InStep host chunk
          (regionContext chunk (collectTraceRegion chunk key)).supportsCalls kept vm₀ frame₀ rest₀ B
          (n + 1) vm' frame' rest m' fr' :=
        ⟨hin.reaches.trans (stepsTo_one hvm'), hon', hstands.goOn hcall' honly, hmirrors', hspent⟩
      have hnext : frame'.pc = (pc' + 1).toNat := by
        rw [hpc'', hpc, toNat_succ_pc hlength hinstr]
      cases pcs with
      | nil =>
        have hterminator : isTerminator instr.op = true := by
          simpa [hinstr] using hlast
        obtain ⟨r, hr⟩ := exec_of_isTerminator
          (regionContext chunk (collectTraceRegion chunk key)) pc' hterminator m
          { fr with budget := fr.budget - 1 }
        rw [hr] at hexec
        cases hexec
      | cons p ps =>
        rw [hvm'] at hrestFaithful
        rw [List.getLast?_cons_cons] at hlast
        have hleads := ih (List.cons_ne_nil p ps)
          (fun pc hpc => hregion pc (List.mem_cons_of_mem _ hpc)) hrest hlast hin' hnext
          hrestFaithful
        refine hleads.mono ?_
        rintro target fr'' ⟨k, vm'', frame'', rest'', hreaches, htarget, hin''⟩
        refine ⟨k + 1, vm'', frame'', rest'', ⟨vm', hvm', hreaches⟩, htarget, ?_⟩
        rw [Nat.add_comm k 1, ← Nat.add_assoc]
        exact hin''
    | @region target fr' frame' honly hgoes =>
      obtain ⟨⟨vm', hvm', hon'⟩, hpc'', hcall', hmirrors'⟩ := hgoes
      exact ⟨1, vm', frame', rest, stepsTo_one hvm', hpc'',
        hin.reaches.trans (stepsTo_one hvm'), hon', hstands.goOn hcall' honly, hmirrors', hspent.2⟩
    | @leaves fr' frame' target hgoes hleaves =>
      obtain ⟨⟨vm', hvm', hon'⟩, hpc'', hcall', hmirrors'⟩ := hgoes
      obtain ⟨rfl, hcall, -⟩ := hstands.outermost hleaves.1
      exact ends_synced hframes₀ (hin.reaches.trans (stepsTo_one hvm')) hon' (hcall'.trans hcall)
        hmirrors' hleaves.2 (.inl rfl) hpc'' (.inl hspent)
    | @refuses fr' hop hslots hleaves =>
      obtain ⟨rfl, hcall, -⟩ := hstands.outermost hleaves.1
      exact ends_synced hframes₀ hin.reaches hin.on hcall hslots hleaves.2 (.inl rfl) hpc
        (.inr ⟨hspent, instr, hmem, hop⟩)
    | @enters target fr' frame' caller hgoes hpc' hstands' hmirrors' =>
      obtain ⟨vm', hvm', hon'⟩ := hgoes
      exact ⟨1, vm', frame', caller :: rest, stepsTo_one hvm', hpc',
        hin.reaches.trans (stepsTo_one hvm'), hon', hstands', hmirrors', hspent.2⟩
    | @comesBack fr' frame' target hgoes hpc' hcall hsettles hmirrors' =>
      obtain ⟨vm', hvm', hon'⟩ := hgoes
      exact ends_synced hframes₀ (hin.reaches.trans (stepsTo_one hvm')) hon' hcall hmirrors'
        hsettles (.inl rfl) hpc' (.inl hspent)
    | @trap fr' htraps htrap =>
      obtain ⟨hd, hdepth, hregs⟩ := htraps
      obtain ⟨rfl, -, -⟩ := hstands.outermost hdepth
      intro trapPc
      refine ⟨fr'.exit jitTrap trapPc 0, n + 1, rfl, .inl hspent, (fun hbudget => by cases hbudget),
        ?_⟩
      exact agree_trap hframes₀ hin.reaches hin.on hd hregs htrap rfl
    | @shared fr' v i hdepth hv hkinds hpop hreg hslot =>
      obtain ⟨rfl, hcall, -⟩ := hstands.outermost hdepth
      exact ends_return hframes₀ hin.reaches hin.on hcall hv hkinds hpop
        (toUInt8_sharedReturn chunk key) hreg hslot hspent
    | @returns fr' v i hdepth hv hkinds hpop hreg hslot =>
      obtain ⟨rfl, hcall, -⟩ := hstands.outermost hdepth
      have hsmall : instr.a.toUInt32.toUInt8.toNat = instr.a.toUInt32.toNat := by
        rw [UInt8.toUInt8_toUInt32, UInt8.toNat_toUInt32]
      rw [← UInt8.toNat_toUInt32] at hreg hslot
      exact ends_return hframes₀ hin.reaches hin.on hcall hv hkinds hpop hsmall hreg hslot hspent

/-! ## Runs -/

/-- What the head of a block has: both are in step, and the rest of the run is faithful. -/
def Head (d : Demand) (host : ℕ → Host) (chunk : Chunk) (key : TraceKey) (kept : ℕ) (vm₀ : Vm)
    (frame₀ : Frame) (rest₀ : List Frame) (B : ℕ) (pc : UInt32) (fr : JitFrame) : Prop :=
  ∃ fuel n vm frame rest, fr.budget.toNat < fuel ∧
    FaithfulRun d host chunk key frame₀.registers fuel pc fr vm ∧
    frame.pc = pc.toNat ∧
    InStep host chunk (regionContext chunk (collectTraceRegion chunk key)).supportsCalls kept vm₀
      frame₀ rest₀ B n vm frame rest (RegisterMap.new kept) fr

/-- From the head of a block to the head of the next. -/
theorem head_follows {f : FunctionDef} (hverify : chunk.verifyWith trust = .ok ())
    (hlength : chunk.code.length < 2 ^ 32) (hframes₀ : vm₀.frames = frame₀ :: rest₀)
    (hf : chunk.function key.function = some f)
    (hregs : frame₀.registers.length = f.numRegisters.toNat) {pc : UInt32} {b : TraceBlock}
    (hb : blockAt (collectTraceRegion chunk key) pc = some b) (hfilled : isFilled chunk b = true)
    (hhead : Head d host chunk key f.numRegisters.toNat vm₀ frame₀ rest₀ B pc fr) :
    (execBlock (regionContext chunk (collectTraceRegion chunk key)) b.pcs
      (RegisterMap.new f.numRegisters.toNat) fr).Leads chunk key
        (Head d host chunk key f.numRegisters.toNat vm₀ frame₀ rest₀ B)
        (Ends d host h chunk key vm₀ B) := by
  obtain ⟨fuel, n, vm, frame, rest, hfuel, hfaithful, hpc, hin⟩ := hhead
  obtain ⟨fuel, rfl⟩ := Nat.exists_eq_succ_of_ne_zero (Nat.ne_zero_of_lt hfuel)
  have hmem := List.mem_of_find?_eq_some hb
  have hpcs : b.pcs ≠ [] := (follows_of_mem_collect hmem).2
  have hregion : ∀ pc ∈ b.pcs, pc ∈ (collectTraceRegion chunk key).flatMap (·.pcs) :=
    fun pc hpc => List.mem_flatMap.mpr ⟨b, hmem, hpc⟩
  unfold FaithfulRun at hfaithful
  rw [hb, hf] at hfaithful
  obtain ⟨hblock, hnext⟩ := hfaithful
  have hleads := block_follows (h := h) hverify hlength hframes₀ hregs hpcs hregion
    (follows_blockAt hb) hfilled hin hpc hblock
  have hspends : fr.budget ≠ 0 → _ := execBlock_spends
    (regionContext chunk (collectTraceRegion chunk key)) (RegisterMap.new f.numRegisters.toNat) hpcs
  generalize hr : execBlock (regionContext chunk (collectTraceRegion chunk key)) b.pcs
    (RegisterMap.new f.numRegisters.toNat) fr = r at hleads hspends hnext ⊢
  cases r with
  | jump target fr' =>
    cases target with
    | region pc' =>
      obtain ⟨k, vm', frame', rest', hreaches, hpc', hin'⟩ := hleads
      have h0 : fr.budget ≠ 0 := by
        intro h0
        obtain ⟨pc'', hexit⟩ := execBlock_of_exhausted
          (regionContext chunk (collectTraceRegion chunk key))
          (RegisterMap.new f.numRegisters.toNat) hpcs h0
        rw [hexit] at hr
        cases hr
      have hlt := (hspends h0).2.1
      have hspent := hin.spent
      have hspent' := hin'.spent
      have hk : (fr.budget - fr'.budget).toNat = k := by
        rw [UInt32.toNat_sub_of_le _ _ (UInt32.le_iff_toNat_le.mpr hlt.le)]
        omega
      dsimp only at hnext
      rw [hk, hreaches.run_eq] at hnext
      exact ⟨fuel, n + k, vm', frame', rest', by omega, hnext, hpc', hin'⟩
    | trap => exact hleads
    | «return» => exact hleads
  | _ => exact hleads

/-- **Traces in step.** -/
theorem trace_agrees (d : Demand) (host : ℕ → Host) (h : Host) {trace : CompiledTrace}
    (hverify : chunk.verifyWith trust = .ok ()) (hlength : chunk.code.length < 2 ^ 32)
    (htrace : compileTrace chunk key = .ok trace) (hvm : vm₀.WellFormed chunk)
    (hframes₀ : vm₀.frames = frame₀ :: rest₀) (hfunction : frame₀.function = key.function)
    (hpc : frame₀.pc = key.entryPc.toNat) {slots : List Int64}
    (hslots : syncSlotsFromVm vm₀ (List.replicate (slotCapacity vm₀) 0) = .ok slots)
    (budget registerCount : UInt32)
    (hfaithful : FaithfulRun d host chunk key frame₀.registers (budget.toNat + 2) key.entryPc
      (startFrame slots key.entryPc budget key.function registerCount) vm₀) :
    Ends d host h chunk key vm₀ budget.toNat
      (runCompiledTrace trace slots key.entryPc budget key.function registerCount) := by
  obtain ⟨f, himpl⟩ := of_compileTrace htrace
  have hfits := hvm.frames frame₀ (by rw [hframes₀]; exact List.mem_cons_self)
  have hregs : frame₀.registers.length = f.numRegisters.toNat := by
    obtain ⟨f', hf', hlen⟩ := hfits.registers
    rw [hfunction, himpl.function] at hf'
    cases hf'
    exact hlen
  have hcapacity : f.numRegisters.toNat ≤ slotCapacity vm₀ :=
    numRegisters_le_slotCapacity (by rw [hvm.chunk_eq]; exact himpl.function)
  have hcopy : copyIn (List.replicate (slotCapacity vm₀) 0) frame₀.registers = some slots := by
    unfold syncSlotsFromVm at hslots
    rw [hframes₀] at hslots
    dsimp only at hslots
    cases hcopied : copyIn (List.replicate (slotCapacity vm₀) 0) frame₀.registers with
    | none =>
      rw [hcopied] at hslots
      cases hslots
    | some slots' =>
      rw [hcopied] at hslots
      cases hslots
      rfl
  have hroom : frame₀.registers.length ≤
      (List.replicate (slotCapacity vm₀) (0 : Int64)).length := by
    rw [List.length_replicate, hregs]
    exact hcapacity
  obtain ⟨hslotsLength, hintegers⟩ := copyIn_mirrors hroom hcopy
  have hmirrors : Mirrors f.numRegisters.toNat frame₀.registers
      (RegisterMap.new f.numRegisters.toNat)
      (startFrame slots key.entryPc budget key.function registerCount) := by
    have hsmall := f.numRegisters.toNat_lt
    have hslots' : f.numRegisters.toNat ≤ slots.length := by
      rw [← hregs]
      exact hroom.trans_eq hslotsLength.symm
    refine ⟨List.length_replicate, by omega, hslots', ?_⟩
    intro r v hv
    obtain ⟨i, hflat, hi⟩ := hintegers r v hv
    exact ⟨i, hflat, by rw [view_new]; exact hi⟩
  unfold runCompiledTrace
  rw [himpl.start]
  have hstands : Stands (regionContext chunk (collectTraceRegion chunk key)).supportsCalls frame₀
      rest₀ frame₀ rest₀ (startFrame slots key.entryPc budget key.function registerCount) :=
    .entry ⟨rfl, rfl, rfl⟩ rfl (by rw [startFrame, List.length_replicate]; decide)
  refine run_rule himpl
    (I := Head d host chunk key f.numRegisters.toNat vm₀ frame₀ rest₀ budget.toNat)
    (Q := Ends d host h chunk key vm₀ budget.toNat) ?_ (Nat.lt_add_of_pos_right two_pos)
    himpl.entry ?_
  · intro pc b fr hb hhead
    exact head_follows hverify hlength hframes₀ himpl.function hregs hb
      (himpl.filled b (List.mem_of_find?_eq_some hb)) hhead
  · exact ⟨budget.toNat + 2, 0, vm₀, frame₀, rest₀, Nat.lt_add_of_pos_right two_pos, hfaithful, hpc,
      rfl, ⟨hvm.chunk_eq, hframes₀⟩, hstands, hmirrors, Nat.zero_add _⟩

end

end Jit

end Byteflow
