import Byteflow.Jit.Kept

/-!
# The buffers of compiled code

Compiled code does not check the slots that it loads from and stores to, and the verifier does not
bound the registers of an instruction. The slots that dispatch allocates hold the registers of every
function of the chunk, so code that keeps to registers of its functions stays inside of them; an
operand beyond them is loaded or stored all the same (`run_inBounds_iff`). The call records need no
condition: the code tests the depth before it saves one.
-/

namespace Byteflow

namespace Jit

open JitFrame

/-! ## What is accessed -/

/-- The slots that the code of an instruction may load or store, besides those of registers that
its block holds. -/
def accesses (ctx : EmitContext) (instr : Instruction) (fr : JitFrame) : List ℕ :=
  match instr.op with
  | .move | .neg => [instr.b.toNat]
  | .add | .sub | .mul | .eq | .lt | .le | .div | .mod => [instr.b.toNat, instr.c.toNat]
  | .branch => [instr.a.toNat]
  | .return =>
    instr.a.toNat ::
      if ctx.supportsCalls ∧ fr.callDepth ≠ 0 then
        (fr.callStack[(fr.callDepth - 1).toNat]?.map (·.destReg.toNat)).toList
      else []
  | .call =>
    match ctx.chunk.function instr.imm.toUInt32 with
    | some callee =>
      if ctx.pcToBlock callee.entry ∧ fr.callDepth.toNat < maxJitCallDepth then
        (List.range instr.b.toNat).map (instr.a.toNat + ·)
      else []
    | none => []
  | _ => []

/-- The instructions that the code of a block executes, each with the frame it starts from. -/
def executedInBlock (ctx : EmitContext) :
    List UInt32 → RegisterMap Int64 → JitFrame → List (Instruction × JitFrame)
  | [], _, _ => []
  | pc :: pcs, m, fr =>
    if fr.budget = 0 then []
    else
      match ctx.chunk.code[pc.toNat]? with
      | none => []
      | some instr =>
        (instr, { fr with budget := fr.budget - 1 }) ::
          match exec ctx pc instr m { fr with budget := fr.budget - 1 } with
          | .next m fr => executedInBlock ctx pcs m fr
          | .stop _ => []

/-- The instructions that a run of a trace executes, from the block at `pc` on. -/
def executed (chunk : Chunk) (key : TraceKey) :
    ℕ → UInt32 → JitFrame → List (Instruction × JitFrame)
  | 0, _, _ => []
  | fuel + 1, pc, fr =>
    match blockAt (collectTraceRegion chunk key) pc, chunk.function key.function with
    | some b, some f =>
      let ctx := regionContext chunk (collectTraceRegion chunk key)
      let m := RegisterMap.new f.numRegisters.toNat
      executedInBlock ctx b.pcs m fr ++
        match execBlock ctx b.pcs m fr with
        | .jump (.region pc) fr => executed chunk key fuel pc fr
        | _ => []
    | _, _ => []

/-- All accesses of these instructions are to slots below `n`. -/
def Within (ctx : EmitContext) (n : ℕ) (steps : List (Instruction × JitFrame)) : Prop :=
  ∀ p ∈ steps, ∀ slot ∈ accesses ctx p.1 p.2, slot < n

/-! ## Sizes -/

/-- The buffers of a frame have their sizes. -/
structure JitFrame.Sized (n : ℕ) (fr : JitFrame) : Prop where
  slots : fr.slots.length = n
  records : fr.callStack.length = maxJitCallDepth
  depth : fr.callDepth.toNat ≤ maxJitCallDepth

/-- The registers that a block holds have slots. -/
def RegisterMap.Fits (n : ℕ) (m : RegisterMap Int64) : Prop := m.length ≤ n ∧ m.length ≤ 256

theorem RegisterMap.Fits.set {n : ℕ} {m : RegisterMap Int64} (h : m.Fits n) (reg : UInt8)
    (v : Int64) : RegisterMap.Fits n (m.set reg v) := by
  unfold RegisterMap.Fits RegisterMap.set at *
  rw [List.length_set]
  exact h

theorem JitFrame.SlotsOnly.sized {n : ℕ} {fr fr' : JitFrame} (h : fr.SlotsOnly fr')
    (hfr : fr.Sized n) : fr'.Sized n := by
  obtain ⟨slots, hlen, rfl⟩ := h
  exact ⟨hlen.trans hfr.slots, hfr.records, hfr.depth⟩

section

variable {ctx : EmitContext} {pc : UInt32} {instr : Instruction} {m : RegisterMap Int64}
  {fr : JitFrame} {n : ℕ}

/-- A register has a value exactly if it has a slot. -/
theorem readReg_cases (hm : m.Fits n) (hfr : fr.Sized n) (reg : UInt8) :
    readReg m fr reg = none ∧ n ≤ reg.toNat ∨
      ∃ v, readReg m fr reg = some v ∧ ¬n ≤ reg.toNat := by
  unfold readReg
  by_cases hreg : n ≤ reg.toNat
  · refine .inl ⟨?_, hreg⟩
    unfold RegisterMap.get
    rw [List.getElem?_eq_none_iff.mpr (hm.1.trans hreg),
      List.getElem?_eq_none_iff.mpr (by rw [hfr.slots]; exact hreg)]
    rfl
  · rw [List.getElem?_eq_getElem (by rw [hfr.slots]; omega)]
    cases hget : m.get reg with
    | some v => exact .inr ⟨v, rfl, hreg⟩
    | none => exact .inr ⟨_, rfl, hreg⟩

theorem flush_fits (hm : m.Fits n) (hfr : fr.Sized n) :
    ∃ fr', flushSlots 0 m fr = some fr' ∧ fr'.Sized n ∧ fr.SlotsOnly fr' := by
  obtain ⟨fr', hflush⟩ := @flushSlots_fits m 0 fr
    (by rw [Nat.zero_add, hfr.slots]; exact hm.1) (by rw [Nat.zero_add]; exact hm.2)
  have hslots := slotsOnly_of_flush hflush
  exact ⟨fr', hflush, hslots.sized hfr, hslots⟩

/-- The arguments are copied if all of them have slots. -/
theorem copySlots_eq_none_iff {dst : UInt8} {i argc : ℕ} (hsmall : i + argc ≤ 256)
    (hfr : fr.Sized n) :
    copySlots dst i argc fr = none ↔ ∃ j, i ≤ j ∧ j < i + argc ∧ n ≤ dst.toNat + j := by
  induction argc generalizing i fr with
  | zero =>
    simp only [copySlots, reduceCtorEq, false_iff]
    rintro ⟨j, hle, hlt, -⟩
    omega
  | succ argc ih =>
    have hsrc : (dst.toUInt32 + UInt32.ofNat i).toNat = dst.toNat + i := by
      have hdst := dst.toNat_lt
      rw [UInt32.toNat_add, UInt8.toNat_toUInt32, UInt32.toNat_ofNat']
      omega
    have hslot : (UInt32.ofNat i).toNat = i := by
      rw [UInt32.toNat_ofNat']
      omega
    rw [copySlots, hsrc, hslot]
    by_cases hi : n ≤ dst.toNat + i
    · rw [List.getElem?_eq_none_iff.mpr (by rw [hfr.slots]; exact hi)]
      exact ⟨fun _ => ⟨i, le_rfl, by omega, hi⟩, fun _ => rfl⟩
    · obtain ⟨v, hv⟩ : ∃ v, fr.slots[dst.toNat + i]? = some v :=
        ⟨_, List.getElem?_eq_getElem (by rw [hfr.slots]; omega)⟩
      obtain ⟨fr₁, hstore⟩ : ∃ fr₁, fr.store i v = some fr₁ := by
        unfold JitFrame.store
        rw [if_pos (by rw [hfr.slots]; omega)]
        exact ⟨_, rfl⟩
      rw [hv]
      simp only [Option.bind_eq_bind, Option.bind_some, hstore]
      rw [ih (by omega) ((slotsOnly_of_store hstore).sized hfr)]
      constructor
      · rintro ⟨j, hle, hlt, hj⟩
        exact ⟨j, by omega, by omega, hj⟩
      · rintro ⟨j, hle, hlt, hj⟩
        have hne : j ≠ i := by
          rintro rfl
          exact hi hj
        exact ⟨j, by omega, by omega, hj⟩

/-! ## One instruction -/

/-- The code of a block leaves the buffers exactly if an access does. -/
def Run.Checks (n : ℕ) (outside : Prop) : Run → Prop
  | .outOfBounds => outside
  | .jump _ fr => ¬outside ∧ fr.Sized n
  | _ => ¬outside

/-- So does the code of an instruction; the rest of its block runs with registers that fit. -/
def Step.Checks (n : ℕ) (outside : Prop) : Step → Prop
  | .next m fr => ¬outside ∧ m.Fits n ∧ fr.Sized n
  | .stop r => r.Checks n outside

/-- Some access of the instruction has no slot. -/
def Outside (ctx : EmitContext) (n : ℕ) (instr : Instruction) (fr : JitFrame) : Prop :=
  ∃ slot ∈ accesses ctx instr fr, n ≤ slot

theorem outside_single {reg : ℕ} (h : accesses ctx instr fr = [reg]) :
    Outside ctx n instr fr ↔ n ≤ reg := by
  simp [Outside, h]

theorem outside_pair {reg reg' : ℕ} (h : accesses ctx instr fr = [reg, reg']) :
    Outside ctx n instr fr ↔ n ≤ reg ∨ n ≤ reg' := by
  simp [Outside, h]

theorem not_outside_nil (h : accesses ctx instr fr = []) : ¬Outside ctx n instr fr := by
  simp [Outside, h]

/-- An operand that is read, and the rest of the code with it. -/
theorem readOperands_cases (hm : m.Fits n) (hfr : fr.Sized n)
    (h : accesses ctx instr fr = [instr.b.toNat, instr.c.toNat]) :
    readOperands m fr instr = none ∧ Outside ctx n instr fr ∨
      ∃ lhs rhs m', readOperands m fr instr = some (lhs, rhs, m') ∧ m'.Fits n ∧
        ¬Outside ctx n instr fr := by
  rw [outside_pair h]
  unfold readOperands
  rcases readReg_cases hm hfr instr.b with ⟨hlhs, hb⟩ | ⟨lhs, hlhs, hb⟩
  · rw [hlhs]
    exact .inl ⟨rfl, .inl hb⟩
  have hm' := hm.set instr.b lhs
  rcases readReg_cases hm' hfr instr.c with ⟨hrhs, hc⟩ | ⟨rhs, hrhs, hc⟩
  · refine .inl ⟨?_, .inr hc⟩
    simp [hlhs, hrhs]
  · refine .inr ⟨lhs, rhs, _, ?_, hm'.set instr.c rhs, by omega⟩
    simp [hlhs, hrhs]

theorem execBinary_checks {op : Binary} (hm : m.Fits n) (hfr : fr.Sized n)
    (h : accesses ctx instr fr = [instr.b.toNat, instr.c.toNat]) :
    (execBinary op instr m fr).Checks n (Outside ctx n instr fr) := by
  unfold execBinary
  rcases readOperands_cases hm hfr h with ⟨hread, hout⟩ | ⟨lhs, rhs, m', hread, hm', hin⟩
  · rw [hread]
    exact hout
  · rw [hread]
    dsimp only
    cases op.eval lhs rhs with
    | none => exact hin
    | some x => exact ⟨hin, hm'.set instr.a x, hfr⟩

theorem execCompare_checks {cc : IntCC} (hm : m.Fits n) (hfr : fr.Sized n)
    (h : accesses ctx instr fr = [instr.b.toNat, instr.c.toNat]) :
    (execCompare cc instr m fr).Checks n (Outside ctx n instr fr) := by
  unfold execCompare
  rcases readOperands_cases hm hfr h with ⟨hread, hout⟩ | ⟨lhs, rhs, m', hread, hm', hin⟩
  · rw [hread]
    exact hout
  · rw [hread]
    exact ⟨hin, hm'.set instr.a _, hfr⟩

theorem execDivision_checks {op : Binary} (hm : m.Fits n) (hfr : fr.Sized n)
    (h : accesses ctx instr fr = [instr.b.toNat, instr.c.toNat]) :
    (execDivision op instr m fr).Checks n (Outside ctx n instr fr) := by
  unfold execDivision
  rcases readOperands_cases hm hfr h with ⟨hread, hout⟩ | ⟨lhs, rhs, m', hread, hm', hin⟩
  · rw [hread]
    exact hout
  · obtain ⟨fr', hflush, hfr', -⟩ := flush_fits hm' hfr
    rw [hread]
    dsimp only
    rw [hflush]
    dsimp only
    split_ifs
    · exact ⟨hin, hfr'⟩
    · cases op.eval lhs rhs with
      | none => exact hin
      | some x => exact ⟨hin, hm'.set instr.a x, hfr'⟩

/-- A register that is read, and the code after it. -/
theorem read_checks {reg : UInt8} {k : Int64 → Run} (hm : m.Fits n) (hfr : fr.Sized n)
    {outside : Prop} (hout : n ≤ reg.toNat → outside)
    (hk : ∀ v, ¬n ≤ reg.toNat → (k v).Checks n outside) :
    (inBounds (readReg m fr reg) k).Checks n outside := by
  rcases readReg_cases hm hfr reg with ⟨hread, hreg⟩ | ⟨v, hread, hreg⟩
  · rw [hread]
    exact hout hreg
  · rw [hread]
    exact hk v hreg

theorem goTo_checks {targetPc : UInt32} {outside : Prop} (hin : ¬outside) (hfr : fr.Sized n) :
    (goTo ctx targetPc fr).Checks n outside := by
  unfold goTo
  split_ifs
  · exact ⟨hin, hfr⟩
  · exact hin

theorem execBranch_checks (hm : m.Fits n) (hfr : fr.Sized n)
    (h : accesses ctx instr fr = [instr.a.toNat]) :
    (execBranch ctx pc instr m fr).Checks n (Outside ctx n instr fr) := by
  rw [outside_single h]
  refine read_checks hm hfr id fun cond hin => ?_
  obtain ⟨fr', hflush, hfr', -⟩ := flush_fits (hm.set instr.a cond) hfr
  rw [hflush]
  dsimp only [inBounds]
  split_ifs
  · exact hin
  · exact goTo_checks hin hfr'
  · exact goTo_checks hin hfr'

/-- The return of a callee has one more access: to the register that gets the value. -/
theorem execReturn_checks {reg : UInt8} (hfr : fr.Sized n) (hin : ¬n ≤ reg.toNat) {outside : Prop}
    (hout : outside ↔
      fr.callDepth ≠ 0 ∧ ∃ r, fr.callStack[(fr.callDepth - 1).toNat]? = some r ∧
        n ≤ r.destReg.toNat) :
    (execReturn pc reg fr).Checks n outside := by
  unfold execReturn
  split_ifs with h0
  · intro hcontra
    exact (hout.mp hcontra).1 h0
  have hdepth := hfr.depth
  have hone := toNat_sub_one h0
  obtain ⟨r, hr⟩ : ∃ r, fr.callStack[(fr.callDepth - 1).toNat]? = some r :=
    ⟨_, List.getElem?_eq_getElem (by rw [hfr.records]; omega)⟩
  obtain ⟨v, hv⟩ : ∃ v, fr.slots[reg.toNat]? = some v :=
    ⟨_, List.getElem?_eq_getElem (by rw [hfr.slots]; omega)⟩
  dsimp only
  rw [hr]
  dsimp only [inBounds]
  rw [hv]
  dsimp only [JitFrame.store]
  rw [hfr.slots]
  split_ifs with hdest
  · intro hcontra
    obtain ⟨-, r', hr', hle⟩ := hout.mp hcontra
    rw [hr] at hr'
    cases hr'
    omega
  · exact hout.mpr ⟨h0, r, hr, not_lt.mp hdest⟩

theorem execReturn_outside {reg : UInt8} (hop : instr.op = .return) (hreg : instr.a = reg) :
    Outside ctx n instr fr ↔ n ≤ reg.toNat ∨ ctx.supportsCalls = true ∧ fr.callDepth ≠ 0 ∧
      ∃ r, fr.callStack[(fr.callDepth - 1).toNat]? = some r ∧ n ≤ r.destReg.toNat := by
  unfold Outside accesses
  rw [hop, ← hreg]
  dsimp only
  rw [List.exists_mem_cons_iff]
  by_cases hcalls : ctx.supportsCalls = true ∧ fr.callDepth ≠ 0
  · rw [if_pos hcalls]
    simp [hcalls.1, hcalls.2]
  · rw [if_neg hcalls]
    simp only [List.not_mem_nil, false_and, exists_const, or_false]
    tauto

theorem execCall_outside {callee : FunctionDef} (hop : instr.op = .call)
    (hcallee : ctx.chunk.function instr.imm.toUInt32 = some callee) :
    Outside ctx n instr fr ↔
      (ctx.pcToBlock callee.entry = true ∧ fr.callDepth.toNat < maxJitCallDepth) ∧
        ∃ j, j < instr.b.toNat ∧ n ≤ instr.a.toNat + j := by
  unfold Outside accesses
  rw [hop]
  dsimp only
  rw [hcallee]
  dsimp only
  split_ifs with henters
  · simp [henters]
  · simp [henters]

/-- The test for the depth of calls. -/
theorem maxDepth_le_iff {depth : UInt32} (h : depth.toNat ≤ maxJitCallDepth) :
    (maxJitCallDepth : ℤ) ≤ depth.toInt32.toInt ↔ maxJitCallDepth ≤ depth.toNat := by
  have hint : depth.toInt32.toInt = depth.toNat := by
    unfold maxJitCallDepth at h
    show depth.toBitVec.toInt = depth.toBitVec.toNat
    rw [BitVec.toInt_eq_toNat_of_lt]
    show 2 * depth.toNat < 2 ^ 32
    omega
  rw [hint]
  exact Int.ofNat_le

theorem execCall_checks {callee : FunctionDef} (hm : m.Fits n) (hfr : fr.Sized n)
    (hop : instr.op = .call) (hcallee : ctx.chunk.function instr.imm.toUInt32 = some callee) :
    (execCall ctx pc instr callee m fr).Checks n (Outside ctx n instr fr) := by
  rw [execCall_outside hop hcallee]
  obtain ⟨fr', hflush, hfr', hslots⟩ := flush_fits hm hfr
  have hdepth' : fr'.callDepth = fr.callDepth := by
    obtain ⟨slots, -, rfl⟩ := hslots
    rfl
  unfold execCall
  rw [hflush, ← hdepth']
  dsimp only [inBounds]
  split_ifs with hblock hdeep
  · intro hcontra
    simp [hcontra.1.1] at hblock
  · intro hcontra
    exact absurd hcontra.1.2 (not_lt.mpr ((maxDepth_le_iff hfr'.depth).mp hdeep))
  have hlt : fr'.callDepth.toNat < maxJitCallDepth :=
    not_le.mp fun hle => hdeep ((maxDepth_le_iff hfr'.depth).mpr hle)
  obtain ⟨r, hr⟩ : ∃ r, fr'.callStack[fr'.callDepth.toNat]? = some r :=
    ⟨_, List.getElem?_eq_getElem (by rw [hfr'.records]; exact hlt)⟩
  rw [hr]
  dsimp only
  generalize hrecord : (⟨pc + 1, fr'.function, instr.a.toUInt32, fr'.registerCount⟩ :
    JitCallRecord) = record
  have hsaved : JitFrame.Sized n { fr' with
      callStack := fr'.callStack.set fr'.callDepth.toNat record
      callDepth := fr'.callDepth + 1 } := by
    refine ⟨hfr'.slots, List.length_set.trans hfr'.records, ?_⟩
    unfold maxJitCallDepth at hlt ⊢
    show (fr'.callDepth + 1).toNat ≤ 32
    rw [UInt32.toNat_add, UInt32.toNat_one]
    omega
  have hsmall : 0 + instr.b.toNat ≤ 256 := by
    have hb := instr.b.toNat_lt
    omega
  have hcopy := @copySlots_eq_none_iff _ n instr.a 0 _ hsmall hsaved
  cases hcopied : copySlots instr.a 0 instr.b.toNat { fr' with
      callStack := fr'.callStack.set fr'.callDepth.toNat record
      callDepth := fr'.callDepth + 1 } with
  | none =>
    obtain ⟨j, -, hj, hle⟩ := hcopy.mp hcopied
    exact ⟨⟨by simpa using hblock, hlt⟩, j, by omega, hle⟩
  | some fr₂ =>
    have hfr₂ := (slotsOnly_of_copy hcopied).sized hsaved
    refine ⟨?_, hfr₂.slots, hfr₂.records, hfr₂.depth⟩
    rintro ⟨-, j, hj, hle⟩
    rw [hcopy.mpr ⟨j, Nat.zero_le j, by omega, hle⟩] at hcopied
    cases hcopied

variable (ctx pc instr) in
/-- **The accesses of an instruction.** -/
theorem exec_checks (hm : m.Fits n) (hfr : fr.Sized n) :
    (exec ctx pc instr m fr).Checks n (Outside ctx n instr fr) := by
  -- An instruction with one operand reads it, then sets a register.
  have hsingle (h : accesses ctx instr fr = [instr.b.toNat]) :=
    outside_single (n := n) h
  unfold exec
  cases hop : instr.op with
  | loadImm => exact ⟨not_outside_nil (by simp [accesses, hop]), hm.set _ _, hfr⟩
  | loadConst =>
    have hin : ¬Outside ctx n instr fr := not_outside_nil (by simp [accesses, hop])
    dsimp only
    split
    · exact ⟨hin, hm.set _ _, hfr⟩
    · exact hin
  | nop => exact ⟨not_outside_nil (by simp [accesses, hop]), hm, hfr⟩
  | move =>
    rw [hsingle (by simp [accesses, hop])]
    dsimp only
    rcases readReg_cases hm hfr instr.b with ⟨hread, hb⟩ | ⟨v, hread, hb⟩
    · rw [hread]
      exact hb
    · rw [hread]
      exact ⟨hb, (hm.set _ _).set _ _, hfr⟩
  | neg =>
    rw [hsingle (by simp [accesses, hop])]
    dsimp only
    rcases readReg_cases hm hfr instr.b with ⟨hread, hb⟩ | ⟨v, hread, hb⟩
    · rw [hread]
      exact hb
    · rw [hread]
      exact ⟨hb, (hm.set _ _).set _ _, hfr⟩
  | add => exact execBinary_checks hm hfr (by simp [accesses, hop])
  | sub => exact execBinary_checks hm hfr (by simp [accesses, hop])
  | mul => exact execBinary_checks hm hfr (by simp [accesses, hop])
  | eq => exact execCompare_checks hm hfr (by simp [accesses, hop])
  | lt => exact execCompare_checks hm hfr (by simp [accesses, hop])
  | le => exact execCompare_checks hm hfr (by simp [accesses, hop])
  | div => exact execDivision_checks hm hfr (by simp [accesses, hop])
  | mod => exact execDivision_checks hm hfr (by simp [accesses, hop])
  | jump =>
    obtain ⟨fr', hflush, hfr', -⟩ := flush_fits hm hfr
    dsimp only
    rw [hflush]
    exact goTo_checks (not_outside_nil (by simp [accesses, hop])) hfr'
  | branch => exact execBranch_checks hm hfr (by simp [accesses, hop])
  | «return» =>
    rw [execReturn_outside hop rfl]
    refine read_checks hm hfr .inl fun v hin => ?_
    obtain ⟨fr', hstore⟩ : ∃ fr', fr.store instr.a.toNat v = some fr' := by
      unfold JitFrame.store
      rw [if_pos (by rw [hfr.slots]; omega)]
      exact ⟨_, rfl⟩
    have hslots := slotsOnly_of_store hstore
    have hfr' := hslots.sized hfr
    rw [hstore]
    dsimp only [inBounds]
    split_ifs with hcalls
    · refine execReturn_checks hfr' hin ?_
      obtain ⟨slots, -, rfl⟩ := hslots
      simp [hin, hcalls]
    · refine ⟨?_, hfr'.slots, hfr'.records, hfr'.depth⟩
      simp [hin, hcalls]
  | call =>
    dsimp only
    cases hcallee : ctx.chunk.function instr.imm.toUInt32 with
    | some callee => exact execCall_checks hm hfr hop hcallee
    | none => exact not_outside_nil (by simp [accesses, hop, hcallee])
  | _ => exact not_outside_nil (by simp [accesses, hop])

/-! ## Blocks and runs -/

theorem within_cons {step : Instruction × JitFrame} {steps : List (Instruction × JitFrame)} :
    Within ctx n (step :: steps) ↔ ¬Outside ctx n step.1 step.2 ∧ Within ctx n steps := by
  unfold Within Outside
  simp only [List.forall_mem_cons, not_exists, not_and, not_le]

theorem within_append {steps steps' : List (Instruction × JitFrame)} :
    Within ctx n (steps ++ steps') ↔ Within ctx n steps ∧ Within ctx n steps' :=
  List.forall_mem_append

/-- An equivalent condition. -/
theorem Run.Checks.congr {r : Run} {outside outside' : Prop} (h : r.Checks n outside)
    (hiff : outside ↔ outside') : r.Checks n outside' := by
  rwa [← propext hiff]

variable (ctx) in
/-- The code of a block leaves the buffers exactly if one of its instructions does. -/
theorem execBlock_checks (pcs : List UInt32) (hm : m.Fits n) (hfr : fr.Sized n) :
    (execBlock ctx pcs m fr).Checks n ¬Within ctx n (executedInBlock ctx pcs m fr) := by
  have hnone : Within ctx n [] := fun p hp => absurd hp List.not_mem_nil
  induction pcs generalizing m fr with
  | nil => exact not_not.mpr hnone
  | cons pc pcs ih =>
    unfold execBlock executedInBlock
    by_cases h0 : fr.budget = 0
    · rw [if_pos h0, if_pos h0]
      exact not_not.mpr hnone
    rw [if_neg h0, if_neg h0]
    cases hinstr : ctx.chunk.code[pc.toNat]? with
    | none => exact not_not.mpr hnone
    | some instr =>
      have hfr' : JitFrame.Sized n { fr with budget := fr.budget - 1 } :=
        ⟨hfr.slots, hfr.records, hfr.depth⟩
      have hchecks := exec_checks ctx pc instr hm hfr'
      dsimp only
      rw [within_cons]
      cases hexec : exec ctx pc instr m { fr with budget := fr.budget - 1 } with
      | next m' fr'' =>
        rw [hexec] at hchecks
        obtain ⟨hin, hm', hfr''⟩ := hchecks
        exact (ih hm' hfr'').congr (by simp [hin])
      | stop r =>
        rw [hexec] at hchecks
        exact Run.Checks.congr hchecks (by simp [hnone])

end

/-- **The accesses of a run.** -/
theorem run_inBounds_of_implements {chunk : Chunk} {key : TraceKey} {f : FunctionDef}
    {trace : CompiledTrace} (himpl : Implements chunk key f trace) {n fuel : ℕ} {pc : UInt32}
    {fr : JitFrame} (hn : f.numRegisters.toNat ≤ n)
    (hpc : (blockAt (collectTraceRegion chunk key) pc).isSome) (hfr : fr.Sized n) :
    trace.entry.run fuel (.region pc) fr ≠ .outOfBounds ↔
      Within (regionContext chunk (collectTraceRegion chunk key)) n
        (executed chunk key fuel pc fr) := by
  induction fuel generalizing pc fr with
  | zero => exact ⟨fun _ p hp => absurd hp List.not_mem_nil, fun _ h => by cases h⟩
  | succ fuel ih =>
    obtain ⟨b, hb⟩ := Option.isSome_iff_exists.mp hpc
    obtain ⟨code, hcode, hrun⟩ := himpl.block pc b hb
    have hm : (RegisterMap.new f.numRegisters.toNat).Fits n := by
      have hsmall := f.numRegisters.toNat_lt
      unfold RegisterMap.Fits RegisterMap.new
      rw [List.length_replicate]
      omega
    have hchecks := execBlock_checks (regionContext chunk (collectTraceRegion chunk key)) b.pcs hm
      hfr
    have hleaves := execBlock_leaves (regionContext chunk (collectTraceRegion chunk key))
      (RegisterMap.new f.numRegisters.toNat) fr b.pcs
    rw [JitEntry.run, hcode, executed, hb, himpl.function]
    dsimp only
    rw [hrun, within_append]
    have hnone : Within (regionContext chunk (collectTraceRegion chunk key)) n [] :=
      fun p hp => absurd hp List.not_mem_nil
    cases hblock : execBlock (regionContext chunk (collectTraceRegion chunk key)) b.pcs
        (RegisterMap.new f.numRegisters.toNat) fr with
    | jump target fr' =>
      rw [hblock] at hchecks hleaves
      obtain ⟨hin, hfr'⟩ := hchecks
      rw [not_not] at hin
      cases target with
      | region pc' =>
        dsimp only
        rw [ih hleaves.1 hfr']
        exact ⟨fun h => ⟨hin, h⟩, And.right⟩
      | trap =>
        refine ⟨fun _ => ⟨hin, hnone⟩, fun _ => ?_⟩
        rcases run_exit himpl (.inl rfl) fuel fr' with h | ⟨fr'', h⟩ <;> simp [h]
      | «return» =>
        refine ⟨fun _ => ⟨hin, hnone⟩, fun _ => ?_⟩
        rcases run_exit himpl (.inr rfl) fuel fr' with h | ⟨fr'', h⟩ <;> simp [h]
    | outOfBounds =>
      rw [hblock] at hchecks
      exact ⟨fun h => absurd rfl h, fun h => absurd h.1 hchecks⟩
    | _ =>
      rw [hblock] at hchecks
      exact ⟨fun _ => ⟨not_not.mp hchecks, hnone⟩, fun _ h => by cases h⟩

theorem numRegisters_le_slotCapacity {vm : Vm} {index : UInt32} {f : FunctionDef}
    (h : vm.chunk.function index = some f) : f.numRegisters.toNat ≤ slotCapacity vm := by
  have hmem : f.numRegisters.toNat ∈ vm.chunk.functions.map (·.numRegisters.toNat) :=
    List.mem_map_of_mem (List.mem_of_getElem? h)
  unfold slotCapacity
  cases hmax : (vm.chunk.functions.map (·.numRegisters.toNat)).max? with
  | none =>
    rw [List.max?_eq_none_iff] at hmax
    rw [hmax] at hmem
    cases hmem
  | some maxRegs =>
    have hle := (List.max?_eq_some_iff.mp hmax).2 _ hmem
    cases vm.currentNumRegisters with
    | none => exact hle
    | some current => exact hle.trans (le_max_left _ _)

/-- **Compiled code stays in its buffers exactly if its operands do.** -/
theorem run_inBounds_iff (vm : Vm) (key : TraceKey) (trace : CompiledTrace) (slots : List Int64)
    (pc budget function registerCount : UInt32) (htrace : compileTrace vm.chunk key = .ok trace)
    (hslots : slots.length = slotCapacity vm) :
    runCompiledTrace trace slots pc budget function registerCount ≠ .outOfBounds ↔
      Within (regionContext vm.chunk (collectTraceRegion vm.chunk key)) (slotCapacity vm)
        (executed vm.chunk key (budget.toNat + 2) key.entryPc
          (startFrame slots pc budget function registerCount)) := by
  obtain ⟨f, himpl⟩ := of_compileTrace htrace
  have hfr : (startFrame slots pc budget function registerCount).Sized (slotCapacity vm) :=
    ⟨hslots, List.length_replicate, Nat.zero_le _⟩
  unfold runCompiledTrace
  rw [himpl.start]
  exact run_inBounds_of_implements himpl
    (numRegisters_le_slotCapacity himpl.function) himpl.entry hfr

/-- `main` adds two constants. -/
def addition : Chunk where
  name := "addition"
  constants := []
  code := [.aImm .loadImm 0 41, .aImm .loadImm 1 1, .abc .add 2 0 1, .abc .return 2 0 0]
  functions := [⟨"main", 0, 0, 3⟩]

theorem run_inBounds_addition :
    ∃ trace, compileTrace addition ⟨0, 0⟩ = .ok trace ∧
      runCompiledTrace trace [0, 0, 0] 0 10 0 3 ≠ .outOfBounds := by
  obtain ⟨trace, htrace⟩ := exists_of_isOk (x := compileTrace addition ⟨0, 0⟩) (by decide)
  refine ⟨trace, htrace, ?_⟩
  refine (run_inBounds_iff (atStart addition [.unit, .unit, .unit]) ⟨0, 0⟩ trace [0, 0, 0] 0 10 0 3
    htrace rfl).mpr ?_
  unfold Within
  decide

/-- `main` has one register, and reads another. -/
def stray : Chunk where
  name := "stray"
  constants := []
  code := [.abc .move 0 200 0, .abc .return 0 0 0]
  functions := [⟨"main", 0, 0, 1⟩]

/-- A load beyond the slots. -/
theorem run_leaves_slots :
    ¬∀ (vm : Vm) (key : TraceKey) (trace : CompiledTrace) (slots : List Int64)
        (pc budget function registerCount : UInt32),
      vm.chunk.verifyWith .untrusted = .ok () → compileTrace vm.chunk key = .ok trace →
      slots.length = slotCapacity vm →
        runCompiledTrace trace slots pc budget function registerCount ≠ .outOfBounds := by
  intro hall
  obtain ⟨trace, htrace⟩ := exists_of_isOk (x := compileTrace stray ⟨0, 0⟩) (by decide)
  have hrun : (compileTrace stray ⟨0, 0⟩).toOption.map
      (fun trace => runCompiledTrace trace [0] 0 10 0 1) = some .outOfBounds := by decide
  rw [htrace] at hrun
  exact hall (atStart stray [.unit]) ⟨0, 0⟩ trace [0] 0 10 0 1 (by decide) htrace rfl
    (Option.some.inj hrun)

end Jit

end Byteflow
