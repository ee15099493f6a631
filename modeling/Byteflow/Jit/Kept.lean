import Byteflow.Jit.Block
import Byteflow.Jit.Dispatch

/-!
# Runs of traces

What the code of an instruction keeps of the frame: between two ticks no code changes the budget or
the length of the slots, and the code of a block goes on only at blocks that exist (`exec_keeps`).
Every block ticks first, so a run of a trace goes through fewer blocks than its budget says, and
what each block keeps holds at its end (`run_rule`).
-/

namespace Byteflow

namespace Jit

/-- Frames that differ at most in what the slots hold. -/
def JitFrame.SlotsOnly (fr fr' : JitFrame) : Prop :=
  ∃ slots, slots.length = fr.slots.length ∧ fr' = { fr with slots := slots }

namespace JitFrame

theorem SlotsOnly.refl (fr : JitFrame) : fr.SlotsOnly fr := ⟨fr.slots, rfl, rfl⟩

theorem SlotsOnly.trans {fr₁ fr₂ fr₃ : JitFrame} (h₁ : fr₁.SlotsOnly fr₂) (h₂ : fr₂.SlotsOnly fr₃) :
    fr₁.SlotsOnly fr₃ := by
  obtain ⟨slots, hlen, rfl⟩ := h₁
  obtain ⟨slots', hlen', rfl⟩ := h₂
  exact ⟨slots', hlen'.trans hlen, rfl⟩

theorem SlotsOnly.budget {fr fr' : JitFrame} (h : fr.SlotsOnly fr') : fr'.budget = fr.budget := by
  obtain ⟨slots, -, rfl⟩ := h
  rfl

theorem SlotsOnly.length {fr fr' : JitFrame} (h : fr.SlotsOnly fr') :
    fr'.slots.length = fr.slots.length := by
  obtain ⟨slots, hlen, rfl⟩ := h
  exact hlen

theorem slotsOnly_of_store {fr fr' : JitFrame} {slot : ℕ} {x : Int64}
    (h : fr.store slot x = some fr') : fr.SlotsOnly fr' := by
  unfold store at h
  split_ifs at h
  cases h
  exact ⟨_, List.length_set, rfl⟩

theorem exists_store {fr : JitFrame} {slot : ℕ} (x : Int64) (h : slot < fr.slots.length) :
    ∃ fr', fr.store slot x = some fr' := by
  unfold store
  rw [if_pos h]
  exact ⟨_, rfl⟩

end JitFrame

open JitFrame

theorem slotsOnly_of_flush {m : RegisterMap Int64} {reg : ℕ} {fr fr' : JitFrame}
    (h : flushSlots reg m fr = some fr') : fr.SlotsOnly fr' := by
  induction m generalizing reg fr with
  | nil =>
    cases h
    exact .refl _
  | cons value values ih =>
    cases value with
    | none => exact ih h
    | some v =>
      obtain ⟨mid, hstore, hflush⟩ := Option.bind_eq_some_iff.mp h
      exact (slotsOnly_of_store hstore).trans (ih hflush)

/-- All slots that are flushed to exist. -/
theorem flushSlots_fits {m : RegisterMap Int64} {reg : ℕ} {fr : JitFrame}
    (hreg : reg + m.length ≤ fr.slots.length) (hsmall : reg + m.length ≤ 256) :
    ∃ fr', flushSlots reg m fr = some fr' := by
  induction m generalizing reg fr with
  | nil => exact ⟨fr, rfl⟩
  | cons value values ih =>
    rw [List.length_cons] at hreg hsmall
    cases value with
    | none =>
      have hnext : reg + 1 + values.length ≤ fr.slots.length := by omega
      exact ih hnext (by omega)
    | some v =>
      have hslot : (UInt8.ofNat reg).toNat = reg := by
        rw [UInt8.toNat_ofNat']
        omega
      have hlt : (UInt8.ofNat reg).toNat < fr.slots.length := by omega
      obtain ⟨fr₁, hstore⟩ := exists_store v hlt
      have hnext : reg + 1 + values.length ≤ fr₁.slots.length := by
        rw [(slotsOnly_of_store hstore).length]
        omega
      obtain ⟨fr', hflush⟩ := ih hnext (by omega)
      refine ⟨fr', ?_⟩
      rw [flushSlots, hstore]
      exact hflush

theorem slotsOnly_of_copy {dst : UInt8} {i argc : ℕ} {fr fr' : JitFrame}
    (h : copySlots dst i argc fr = some fr') : fr.SlotsOnly fr' := by
  induction argc generalizing i fr with
  | zero =>
    cases h
    exact .refl _
  | succ argc ih =>
    obtain ⟨v, -, h⟩ := Option.bind_eq_some_iff.mp h
    obtain ⟨mid, hstore, hcopy⟩ := Option.bind_eq_some_iff.mp h
    exact (slotsOnly_of_store hstore).trans (ih hcopy)

/-! ## One instruction -/

/-- What holds of the frame when the code of a block ends. -/
def Run.Leaves (ctx : EmitContext) (P : JitFrame → Prop) : Run → Prop
  | .jump (.region pc) fr => ctx.pcToBlock pc = true ∧ P fr
  | .jump _ fr => P fr
  | .returned fr => P fr
  | _ => True

/-- What holds of the frame after an instruction. -/
def Step.Leaves (ctx : EmitContext) (P : JitFrame → Prop) : Step → Prop
  | .next _ fr => P fr
  | .stop r => r.Leaves ctx P

theorem Run.Leaves.mono {ctx : EmitContext} {P P' : JitFrame → Prop} {r : Run} (h : r.Leaves ctx P)
    (hP : ∀ fr, P fr → P' fr) : r.Leaves ctx P' := by
  cases r with
  | jump target fr =>
    cases target with
    | region pc => exact ⟨h.1, hP fr h.2⟩
    | trap => exact hP fr h
    | «return» => exact hP fr h
  | returned fr => exact hP fr h
  | _ => trivial

/-- Between two ticks the budget stands, and so does the size of the slots. -/
def JitFrame.Keeps (fr fr' : JitFrame) : Prop :=
  fr'.budget = fr.budget ∧ fr'.slots.length = fr.slots.length

theorem JitFrame.Keeps.trans {fr₁ fr₂ fr₃ : JitFrame} (h₁ : fr₁.Keeps fr₂) (h₂ : fr₂.Keeps fr₃) :
    fr₁.Keeps fr₃ := ⟨h₂.1.trans h₁.1, h₂.2.trans h₁.2⟩

theorem JitFrame.SlotsOnly.keeps {fr fr' : JitFrame} (h : fr.SlotsOnly fr') : fr.Keeps fr' :=
  ⟨h.budget, h.length⟩

section

variable {ctx : EmitContext} {pc : UInt32} {instr : Instruction} {m : RegisterMap Int64}
  {fr : JitFrame}

theorem leaves_inBounds {α : Type} {a : Option α} {k : α → Run} {P : JitFrame → Prop}
    (h : ∀ x, a = some x → (k x).Leaves ctx P) : (inBounds a k).Leaves ctx P := by
  cases a with
  | none => trivial
  | some x => exact h x rfl

theorem leaves_goTo {P : JitFrame → Prop} {targetPc : UInt32} (h : P fr)
    (hexit : ∀ kind pc reg, P (fr.exit kind pc reg)) : (goTo ctx targetPc fr).Leaves ctx P := by
  unfold goTo
  split_ifs with hblock
  · exact ⟨hblock, h⟩
  · exact hexit _ _ _

theorem execBinary_keeps {op : Binary} : (execBinary op instr m fr).Leaves ctx fr.Keeps := by
  unfold execBinary
  rcases readOperands m fr instr with _ | ⟨lhs, rhs, m'⟩
  · trivial
  · dsimp only
    cases op.eval lhs rhs with
    | none => trivial
    | some x => exact (SlotsOnly.refl fr).keeps

theorem execCompare_keeps {cc : IntCC} : (execCompare cc instr m fr).Leaves ctx fr.Keeps := by
  unfold execCompare
  rcases readOperands m fr instr with _ | ⟨lhs, rhs, m'⟩
  · trivial
  · exact (SlotsOnly.refl fr).keeps

theorem execDivision_keeps {op : Binary} : (execDivision op instr m fr).Leaves ctx fr.Keeps := by
  unfold execDivision
  rcases readOperands m fr instr with _ | ⟨lhs, rhs, m'⟩
  · trivial
  dsimp only
  cases hflush : flushSlots 0 m' fr with
  | none => trivial
  | some fr' =>
    have hkeeps := (slotsOnly_of_flush hflush).keeps
    dsimp only
    split_ifs
    · exact hkeeps
    · cases op.eval lhs rhs with
      | none => trivial
      | some x => exact hkeeps

theorem execBranch_keeps : (execBranch ctx pc instr m fr).Leaves ctx fr.Keeps := by
  refine leaves_inBounds fun cond _ => leaves_inBounds fun fr' hflush => ?_
  have hkeeps := (slotsOnly_of_flush hflush).keeps
  dsimp only
  split_ifs
  · exact hkeeps
  · exact leaves_goTo hkeeps fun _ _ _ => hkeeps
  · exact leaves_goTo hkeeps fun _ _ _ => hkeeps

theorem execReturn_keeps {reg : UInt8} : (execReturn pc reg fr).Leaves ctx fr.Keeps := by
  unfold execReturn
  split_ifs
  · exact ⟨rfl, rfl⟩
  · refine leaves_inBounds fun r _ => leaves_inBounds fun v _ =>
      leaves_inBounds fun fr' hstore => ?_
    have hkeeps := (slotsOnly_of_store hstore).keeps
    exact hkeeps

theorem execCall_keeps {callee : FunctionDef} :
    (execCall ctx pc instr callee m fr).Leaves ctx fr.Keeps := by
  refine leaves_inBounds fun fr' hflush => ?_
  have hkeeps := (slotsOnly_of_flush hflush).keeps
  cases hblock : ctx.pcToBlock callee.entry with
  | false => exact hkeeps
  | true =>
    simp only [Bool.not_true, Bool.false_eq_true, if_false]
    split_ifs
    · exact hkeeps
    · refine leaves_inBounds fun r _ => leaves_inBounds fun fr'' hcopy => ⟨hblock, ?_⟩
      exact hkeeps.trans (slotsOnly_of_copy hcopy).keeps

variable (ctx pc instr m fr) in
/-- **What the code of an instruction keeps.** -/
theorem exec_keeps : (exec ctx pc instr m fr).Leaves ctx fr.Keeps := by
  have hrefl := (SlotsOnly.refl fr).keeps
  unfold exec
  cases instr.op with
  | loadConst =>
    dsimp only
    split
    · exact hrefl
    · trivial
  | move | neg =>
    dsimp only
    split
    · exact hrefl
    · trivial
  | add | sub | mul => exact execBinary_keeps
  | eq | lt | le => exact execCompare_keeps
  | div | mod => exact execDivision_keeps
  | jump =>
    refine leaves_inBounds fun fr' hflush => ?_
    have hkeeps := (slotsOnly_of_flush hflush).keeps
    exact leaves_goTo hkeeps fun _ _ _ => hkeeps
  | branch => exact execBranch_keeps
  | «return» =>
    refine leaves_inBounds fun v _ => leaves_inBounds fun fr' hstore => ?_
    have hkeeps := (slotsOnly_of_store hstore).keeps
    split_ifs
    · exact execReturn_keeps.mono fun _ h => hkeeps.trans h
    · exact hkeeps
  | call =>
    dsimp only
    split
    · exact execCall_keeps
    · trivial
  | loadImm | nop => exact hrefl
  | _ => trivial

/-! ## Blocks -/

variable (ctx m) in
theorem execBlock_of_exhausted {pcs : List UInt32} (hpcs : pcs ≠ []) (h : fr.budget = 0) :
    ∃ pc, execBlock ctx pcs m fr = .returned (fr.exit jitBudget pc 0) := by
  cases pcs with
  | nil => exact absurd rfl hpcs
  | cons pc pcs => exact ⟨pc, if_pos h⟩

theorem toNat_sub_one {b : UInt32} (h : b ≠ 0) : (b - 1).toNat + 1 = b.toNat := by
  have hpos : b.toNat ≠ 0 := fun h0 => h (UInt32.toNat_inj.mp h0)
  have hle : (1 : UInt32) ≤ b := by
    rw [UInt32.le_iff_toNat_le]
    show 1 ≤ b.toNat
    omega
  rw [UInt32.toNat_sub_of_le _ _ hle]
  show b.toNat - 1 + 1 = b.toNat
  omega

/-- One instruction of a block, after its tick. -/
theorem execBlock_cons_leaves {P : JitFrame → Prop} {pcs : List UInt32} (h0 : fr.budget ≠ 0)
    (hexit : ∀ fr', JitFrame.Keeps { fr with budget := fr.budget - 1 } fr' → P fr')
    (hrest : ∀ m' fr', JitFrame.Keeps { fr with budget := fr.budget - 1 } fr' →
      (execBlock ctx pcs m' fr').Leaves ctx P) :
    (execBlock ctx (pc :: pcs) m fr).Leaves ctx P := by
  rw [execBlock, if_neg h0]
  cases ctx.chunk.code[pc.toNat]? with
  | none => trivial
  | some instr =>
    dsimp only
    have hkeeps := exec_keeps ctx pc instr m { fr with budget := fr.budget - 1 }
    cases hexec : exec ctx pc instr m { fr with budget := fr.budget - 1 } with
    | next m' fr' =>
      rw [hexec] at hkeeps
      exact hrest m' fr' hkeeps
    | stop r =>
      rw [hexec] at hkeeps
      exact hkeeps.mono hexit

/-- A block takes from the budget, if the rest of it gives nothing back. -/
theorem execBlock_cons_spends {pc : UInt32} {pcs : List UInt32} (h0 : fr.budget ≠ 0)
    (hrest : ∀ m' fr', (execBlock ctx pcs m' fr').Leaves ctx fun fr'' =>
      fr''.budget.toNat ≤ fr'.budget.toNat ∧ fr''.slots.length = fr'.slots.length) :
    (execBlock ctx (pc :: pcs) m fr).Leaves ctx fun fr' =>
      fr'.budget.toNat < fr.budget.toNat ∧ fr'.slots.length = fr.slots.length := by
  have hone := toNat_sub_one h0
  refine execBlock_cons_leaves h0 (fun fr' hkeeps => ?_) fun m' fr' hkeeps => ?_
  · have hbudget : fr'.budget.toNat = (fr.budget - 1).toNat := congrArg UInt32.toNat hkeeps.1
    exact ⟨by omega, hkeeps.2⟩
  · have hbudget : fr'.budget.toNat = (fr.budget - 1).toNat := congrArg UInt32.toNat hkeeps.1
    exact (hrest m' fr').mono fun fr'' h => ⟨by omega, h.2.trans hkeeps.2⟩

variable (ctx m fr) in
/-- The budget does not grow in the rest of a block. -/
theorem execBlock_leaves (pcs : List UInt32) :
    (execBlock ctx pcs m fr).Leaves ctx fun fr' =>
      fr'.budget.toNat ≤ fr.budget.toNat ∧ fr'.slots.length = fr.slots.length := by
  induction pcs generalizing m fr with
  | nil => trivial
  | cons pc pcs ih =>
    by_cases h0 : fr.budget = 0
    · rw [execBlock, if_pos h0]
      exact ⟨le_rfl, rfl⟩
    · exact (execBlock_cons_spends h0 ih).mono fun fr' h => ⟨h.1.le, h.2⟩

variable (ctx m) in
/-- A block takes from the budget. -/
theorem execBlock_spends {pcs : List UInt32} (hpcs : pcs ≠ []) (h0 : fr.budget ≠ 0) :
    (execBlock ctx pcs m fr).Leaves ctx fun fr' =>
      fr'.budget.toNat < fr.budget.toNat ∧ fr'.slots.length = fr.slots.length := by
  cases pcs with
  | nil => exact absurd rfl hpcs
  | cons pc pcs => exact execBlock_cons_spends h0 fun m' fr' => execBlock_leaves ctx m' fr' pcs

end

/-! ## Traces -/

/-- The exits that traps and returns share. -/
theorem run_exit {chunk : Chunk} {key : TraceKey} {f : FunctionDef} {trace : CompiledTrace}
    (himpl : Implements chunk key f trace) {label : Label}
    (hlabel : label = .trap ∨ label = .return) (fuel : ℕ) (fr : JitFrame) :
    trace.entry.run fuel label fr = .outOfFuel ∨
      ∃ fr', trace.entry.run fuel label fr = .returned fr' := by
  cases fuel with
  | zero => exact .inl rfl
  | succ fuel =>
    obtain ⟨trapPc, htrap⟩ := himpl.trap
    rcases hlabel with rfl | rfl
    · simp only [JitEntry.run, htrap, run_writeExit]
      exact .inr ⟨_, rfl⟩
    · simp only [JitEntry.run, himpl.return, run_writeExit]
      exact .inr ⟨_, rfl⟩

/-- How the code of a block may end, when `I` holds at the heads of blocks and `Q` of the exits. -/
def Run.Leads (chunk : Chunk) (key : TraceKey) (I : UInt32 → JitFrame → Prop) (Q : Exit → Prop) :
    Run → Prop
  | .jump (.region pc) fr => I pc fr
  | .jump .trap fr => ∀ trapPc, Q (.returned (fr.exit jitTrap trapPc 0))
  | .jump .return fr =>
    Q (.returned (fr.exit jitReturn (sharedReturn chunk key).1 (sharedReturn chunk key).2))
  | .returned fr => Q (.returned fr)
  | .outOfBounds => Q .outOfBounds
  | .fault => Q .fault
  | .unfilled => Q .unfilled

/-- **Runs of traces.** What every block keeps from its head to the head of the next, or to an exit,
holds at the exit. The run does not get stuck, and ends within its budget. -/
theorem run_rule {chunk : Chunk} {key : TraceKey} {f : FunctionDef} {trace : CompiledTrace}
    (himpl : Implements chunk key f trace) {I : UInt32 → JitFrame → Prop} {Q : Exit → Prop}
    (hblock : ∀ pc b fr, blockAt (collectTraceRegion chunk key) pc = some b → I pc fr →
      (execBlock (regionContext chunk (collectTraceRegion chunk key)) b.pcs
        (RegisterMap.new f.numRegisters.toNat) fr).Leads chunk key I Q)
    {fuel : ℕ} {pc : UInt32} {fr : JitFrame} (hfuel : fr.budget.toNat < fuel)
    (hpc : (blockAt (collectTraceRegion chunk key) pc).isSome) (hI : I pc fr) :
    Q (trace.entry.run fuel (.region pc) fr) := by
  induction fuel generalizing pc fr with
  | zero => omega
  | succ fuel ih =>
    obtain ⟨b, hb⟩ := Option.isSome_iff_exists.mp hpc
    obtain ⟨code, hcode, hrun⟩ := himpl.block pc b hb
    have hleads := hblock pc b fr hb hI
    have hpcs : b.pcs ≠ [] := (follows_of_mem_collect (List.mem_of_find?_eq_some hb)).2
    rw [JitEntry.run, hcode]
    dsimp only
    rw [hrun]
    by_cases h0 : fr.budget = 0
    · obtain ⟨pc', hexit⟩ := execBlock_of_exhausted
        (regionContext chunk (collectTraceRegion chunk key))
        (RegisterMap.new f.numRegisters.toNat) hpcs h0
      rw [hexit] at hleads ⊢
      exact hleads
    have hspends := execBlock_spends (regionContext chunk (collectTraceRegion chunk key))
      (RegisterMap.new f.numRegisters.toNat) hpcs h0
    generalize execBlock (regionContext chunk (collectTraceRegion chunk key)) b.pcs
      (RegisterMap.new f.numRegisters.toNat) fr = r at hleads hspends
    cases r with
    | jump target fr' =>
      cases target with
      | region pc' => exact ih (by have := hspends.2.1; omega) hspends.1 hleads
      | trap =>
        obtain ⟨trapPc, htrap⟩ := himpl.trap
        have hlt := hspends.1
        obtain ⟨fuel, rfl⟩ := Nat.exists_eq_succ_of_ne_zero (show fuel ≠ 0 by omega)
        simp only [JitEntry.run, htrap, run_writeExit]
        exact hleads trapPc
      | «return» =>
        have hlt := hspends.1
        obtain ⟨fuel, rfl⟩ := Nat.exists_eq_succ_of_ne_zero (show fuel ≠ 0 by omega)
        simp only [JitEntry.run, himpl.return, run_writeExit]
        exact hleads
    | _ => exact hleads

end Jit

end Byteflow
