import Byteflow.Bytecode.Source

/-!
# The layout of assembled programs

Where the code of a statement stands in a chunk, and which registers it uses: `Laid` says this of
one statement, with the scope before and after it and the addresses where its code starts and ends.
`laid_of_assemble` is the assembler's half of the correctness of a program: what `Stmt.assemble`
emits is laid out in the finished chunk, whatever is emitted after it, and each loop has the two
jumps that close it. It needs of the rest of the chunk only that it grows (`Grows`).
-/

namespace Byteflow

namespace Source

/-! ## Code in a chunk -/

/-- The instruction of an effect. -/
def Effect.instr (reg : ℕ → Reg) (dst : Reg) : Effect → Instruction
  | yield => .nullary .yield
  | sleep millis => .abc .sleep (reg millis).index 0 0
  | exit x => .abc .exit (reg x).index 0 0
  | selfCap => .abc .selfPid dst.index 0 0
  | spawnWithRights function rights =>
    ⟨.spawn, dst.index, 0, rights.bits.toUInt8, function.toInt32⟩
  | delegate src rights => ⟨.delegate, dst.index, (reg src).index, 255, rights.bits.toInt32⟩
  | send targetCap msg => .abc .send (reg targetCap).index (reg msg).index 0
  | receive => .abc .receive dst.index 0 0
  | receiveTimeout millis => .abc .receiveTimeout dst.index (reg millis).index 0
  | receiveMatch tag => .abc .receiveMatch dst.index (reg tag).index 0
  | receiveMatchImm tag => .aImm .receiveMatchImm dst.index tag.toUInt32.toInt32
  | receiveMatchCorr tag requestId =>
    .abc .receiveMatchCorr dst.index (reg tag).index (reg requestId).index
  | receiveMatchCorrImm tag requestId =>
    ⟨.receiveMatchCorrImm, dst.index, (reg requestId).index, 0, tag.toUInt32.toInt32⟩
  | ask targetCap msg => .abc .ask dst.index (reg targetCap).index (reg msg).index
  | askTimeout targetCap msg millis =>
    ⟨.askTimeout, dst.index, (reg targetCap).index, (reg msg).index,
      (reg millis).index.toUInt32.toInt32⟩
  | monitor targetCap => .abc .monitor dst.index (reg targetCap).index 0
  | link targetCap => .abc .link dst.index (reg targetCap).index 0

namespace Stmt

/-- The code of a statement but a loop, with its result register, the scratch register and the index
of its constant. -/
def code (reg : ℕ → Reg) (dst temp : Reg) (konst : UInt32) : Stmt → List Instruction
  | loadI32 n => [.aImm .loadImm dst.index n]
  | loadInt _ => [⟨.loadConst, dst.index, 0, 0, konst.toInt32⟩]
  | set x imm => [.aImm .loadImm (reg x).index imm]
  | mov x src => [.abc .move (reg x).index (reg src).index 0]
  | binop op lhs rhs => [.abc op.opcode dst.index (reg lhs).index (reg rhs).index]
  | eqImm lhs imm =>
    [.aImm .loadImm temp.index imm, .abc .eq dst.index (reg lhs).index temp.index]
  | addImm x imm =>
    [.aImm .loadImm temp.index imm, .abc .add (reg x).index (reg x).index temp.index]
  | neg src => [.abc .neg dst.index (reg src).index 0]
  | whileLt .. => []
  | call function => [⟨.call, dst.index, 0, 0, function.toInt32⟩]
  | .return value => [.abc .return (reg value).index 0 0]
  | trap code => [.onlyImm .trap code]
  | effect e => [e.instr reg dst]

/-- The statement is no loop. -/
def Plain : Stmt → Prop
  | whileLt .. => False
  | _ => True

/-- The statement uses the scratch register. -/
def usesTemp : Stmt → Bool
  | eqImm .. | addImm .. => true
  | _ => false

theorem length_code {s : Stmt} (hs : s.Plain) (reg : ℕ → Reg) (dst temp : Reg) (konst : UInt32) :
    (s.code reg dst temp konst).length = s.size := by
  cases s <;> first | rfl | exact hs.elim

theorem vars_of_inScope (s : Stmt) (hs : s.Plain) {n : ℕ} (h : s.inScope n = true) :
    ∀ x ∈ s.vars, x < n := by
  have hall : s.vars.all (· < n) = true := by
    cases s with
    | whileLt => exact hs.elim
    | _ => exact h
  exact fun x hx => of_decide_eq_true (List.all_eq_true.mp hall x hx)

end Stmt

/-- The instructions stand in the chunk, from `pc` on. -/
def CodeAt (chunk : Chunk) (pc : ℕ) (instrs : List Instruction) : Prop :=
  ∀ i instr, instrs[i]? = some instr → chunk.code[pc + i]? = some instr

/-- A jump with this offset leads to the target. -/
def Leads (pc : ℕ) (imm : Int32) (target : ℕ) : Prop :=
  (((pc : ℤ) + 1 + imm.toInt) % 2 ^ 64).toNat = target

/-- A register of the frame that no variable in scope has. -/
def Fresh (width : ℕ) (regs : List Reg) (r : Reg) : Prop := r ∉ regs ∧ r.index.toNat < width

mutual

/-- The code of the statement stands in the chunk between the two addresses; the scope before and
after it. -/
inductive Laid (chunk : Chunk) (width : ℕ) : List Reg → ℕ → Stmt → List Reg → ℕ → Prop
  | plain {regs : List Reg} {pc : ℕ} {s : Stmt} (hs : s.Plain)
      (hvars : ∀ x ∈ s.vars, x < regs.length) {dst temp : Reg} {konst : UInt32}
      (hdst : s.binds = true → Fresh width regs dst)
      (htemp : s.usesTemp = true → Fresh width regs temp)
      (hkonst : ∀ n, s = .loadInt n → chunk.constant konst = some (.int n))
      (hcode : CodeAt chunk pc (s.code (Stmt.reg regs) dst temp konst)) :
      Laid chunk width regs pc s (if s.binds then regs ++ [dst] else regs) (pc + s.size)
  | whileLt {regs regs' : List Reg} {pc pc' counter limit : ℕ} {body : List Stmt} {cond : Reg}
      {out back : Int32} (hcounter : counter < regs.length) (hlimit : limit < regs.length)
      (hcond : Fresh width regs cond)
      (hcode : CodeAt chunk pc
        [.abc .lt cond.index (Stmt.reg regs counter).index (Stmt.reg regs limit).index,
          .aImm .branch cond.index out])
      (hout : Leads (pc + 1) out (pc' + 1))
      (hbody : LaidAll chunk width regs (pc + 2) body regs' pc')
      (hjump : chunk.code[pc']? = some (.onlyImm .jump back)) (hback : Leads pc' back pc) :
      Laid chunk width regs pc (.whileLt counter limit body) regs (pc' + 1)

inductive LaidAll (chunk : Chunk) (width : ℕ) : List Reg → ℕ → List Stmt → List Reg → ℕ → Prop
  | nil (regs : List Reg) (pc : ℕ) : LaidAll chunk width regs pc [] regs pc
  | cons {regs regs₁ regs' : List Reg} {pc pc₁ pc' : ℕ} {s : Stmt} {ss : List Stmt}
      (hs : Laid chunk width regs pc s regs₁ pc₁)
      (hrest : LaidAll chunk width regs₁ pc₁ ss regs' pc') :
      LaidAll chunk width regs pc (s :: ss) regs' pc'

end

/-! ## What later calls keep -/

/-- Code, pending jumps and constants only grow, and the labels from `lo` on stay where they are. -/
structure Grows (lo : ℕ) (b b' : ChunkBuilder) : Prop where
  code : b.code <+: b'.code
  pending : ∃ new, b'.pendingJumps = b.pendingJumps ++ new ∧ ∀ j ∈ new, b.code.length ≤ j.1
  label : b.nextLabel.toNat ≤ b'.nextLabel.toNat
  targets : ∀ l : Label, lo ≤ l.raw.toNat → l.raw.toNat < b.nextLabel.toNat →
    b'.labelTargets l = b.labelTargets l
  constants : b.constants <+: b'.constants

namespace Grows

variable {lo : ℕ} {b b' b'' : ChunkBuilder}

theorem refl (lo : ℕ) (b : ChunkBuilder) : Grows lo b b :=
  ⟨List.prefix_rfl, ⟨[], (List.append_nil _).symm, fun _ h => absurd h List.not_mem_nil⟩, le_rfl,
    fun _ _ _ => rfl, List.prefix_rfl⟩

/-- Later changes, which may move labels that came after. -/
theorem after {lo' : ℕ} (h : Grows lo b b') (h' : Grows lo' b' b'')
    (htargets : ∀ l : Label, lo ≤ l.raw.toNat → l.raw.toNat < b.nextLabel.toNat →
      b''.labelTargets l = b'.labelTargets l) : Grows lo b b'' := by
  obtain ⟨new, hnew, hfrom⟩ := h.pending
  obtain ⟨new', hnew', hfrom'⟩ := h'.pending
  refine ⟨h.code.trans h'.code, ⟨new ++ new', ?_, fun j hj => ?_⟩, h.label.trans h'.label,
    fun l hl hlt => ?_, h.constants.trans h'.constants⟩
  · rw [hnew', hnew, List.append_assoc]
  · rcases List.mem_append.mp hj with hj | hj
    · exact hfrom j hj
    · exact h.code.length_le.trans (hfrom' j hj)
  · rw [htargets l hl hlt, h.targets l hl hlt]

theorem trans (h : Grows lo b b') (h' : Grows lo b' b'') : Grows lo b b'' :=
  h.after h' fun l hl hlt => h'.targets l hl (hlt.trans_le h.label)

theorem mono (h : Grows lo b b') {lo' : ℕ} (hle : lo ≤ lo') : Grows lo' b b' :=
  ⟨h.code, h.pending, h.label, fun l hl => h.targets l (hle.trans hl), h.constants⟩

theorem getElem?_code (h : Grows lo b b') {i : ℕ} {instr : Instruction}
    (hi : b.code[i]? = some instr) : b'.code[i]? = some instr := by
  obtain ⟨rest, hrest⟩ := h.code
  rw [← hrest, List.getElem?_append_left (List.getElem?_eq_some_iff.mp hi).1, hi]

theorem mem_pending (h : Grows lo b b') {j : ℕ × Label} (hj : j ∈ b.pendingJumps) :
    j ∈ b'.pendingJumps := by
  obtain ⟨new, hnew, -⟩ := h.pending
  exact hnew ▸ List.mem_append_left _ hj

theorem of_mem_pending (h : Grows lo b b') {j : ℕ × Label} (hj : j ∈ b'.pendingJumps) :
    j ∈ b.pendingJumps ∨ b.code.length ≤ j.1 := by
  obtain ⟨new, hnew, hfrom⟩ := h.pending
  rw [hnew, List.mem_append] at hj
  exact hj.imp id (hfrom j)

end Grows

/-- The constants are integers, and no more than there are instructions. -/
structure Pooled (b : ChunkBuilder) : Prop where
  size : b.constants.length ≤ b.code.length
  ints : ∀ v ∈ b.constants, ∃ n, v = .int n

theorem Pooled.keep {b b' : ChunkBuilder} (h : Pooled b) (hconst : b'.constants = b.constants)
    (hcode : b.code.length ≤ b'.code.length) : Pooled b' :=
  ⟨hconst ▸ h.size.trans hcode, hconst ▸ h.ints⟩

/-- Nothing changes in the function table but the width of the frame of function `i`. -/
def Retouches (i : ℕ) (fs fs' : List FunctionDef) : Prop :=
  fs'.length = fs.length ∧ ∀ (j : ℕ) (d' : FunctionDef), fs'[j]? = some d' →
    ∃ d, fs[j]? = some d ∧ d'.name = d.name ∧ d'.entry = d.entry ∧ d'.arity = d.arity ∧
      (j ≠ i → d' = d)

theorem Retouches.refl (i : ℕ) (fs : List FunctionDef) : Retouches i fs fs :=
  ⟨rfl, fun _ d h => ⟨d, h, rfl, rfl, rfl, fun _ => rfl⟩⟩

theorem Retouches.trans {i : ℕ} {fs fs' fs'' : List FunctionDef} (h : Retouches i fs fs')
    (h' : Retouches i fs' fs'') : Retouches i fs fs'' := by
  refine ⟨h'.1.trans h.1, fun j d'' hd'' => ?_⟩
  obtain ⟨d', hd', hname', hentry', harity', hne'⟩ := h'.2 j d'' hd''
  obtain ⟨d, hd, hname, hentry, harity, hne⟩ := h.2 j d' hd'
  exact ⟨d, hd, hname'.trans hname, hentry'.trans hentry, harity'.trans harity,
    fun hj => (hne' hj).trans (hne hj)⟩

theorem retouches_setNumRegisters (b : ChunkBuilder) (function : UInt32) (width : UInt8) :
    Retouches function.toNat b.functions (b.setNumRegisters function width).functions := by
  refine ⟨List.length_modify _ _ _, fun j d' hd' => ?_⟩
  rw [show (b.setNumRegisters function width).functions = b.functions.modify function.toNat _ from
    rfl, List.getElem?_modify] at hd'
  obtain ⟨d, hd, rfl⟩ := Option.map_eq_some_iff.mp hd'
  refine ⟨d, hd, ?_⟩
  split_ifs with hj
  · exact ⟨rfl, rfl, rfl, fun hne => absurd hj.symm hne⟩
  · exact ⟨rfl, rfl, rfl, fun _ => rfl⟩

/-! ## The open function -/

open ChunkBuilder (Placed Unresolved)

/-- A function that is being assembled, of which so much was asked, with these registers in
scope. -/
structure Ready (f : Fn) (d : Demand) (regs : List Reg) : Prop where
  allocated : f.Allocated d
  frame : f.numRegisters = f.nextReg
  nodup : regs.Nodup
  below : ∀ r ∈ regs, r.index.toNat < d.width
  temp : ∀ t, f.scratch = some t → t ∉ regs ∧ t.index.toNat < d.width
  placed : Placed f.b
  label : f.b.nextLabel.toNat ≤ f.b.code.length

/-- What calls that emit no jump do. -/
structure Writes (f f' : Fn) (instrs : List Instruction) : Prop where
  code : f'.b.code = f.b.code ++ instrs
  pending : f'.b.pendingJumps = f.b.pendingJumps
  targets : f'.b.labelTargets = f.b.labelTargets
  label : f'.b.nextLabel = f.b.nextLabel
  constants : f.b.constants <+: f'.b.constants
  unresolved : ∀ instr ∈ instrs, Unresolved instr
  function : f'.function = f.function
  functions : Retouches f.function.toNat f.b.functions f'.b.functions

namespace Writes

variable {f f' f'' : Fn} {instrs instrs' : List Instruction}

theorem trans (h : Writes f f' instrs) (h' : Writes f' f'' instrs') :
    Writes f f'' (instrs ++ instrs') where
  code := by rw [h'.code, h.code, List.append_assoc]
  pending := h'.pending.trans h.pending
  targets := h'.targets.trans h.targets
  label := h'.label.trans h.label
  constants := h.constants.trans h'.constants
  unresolved instr hi := (List.mem_append.mp hi).elim (h.unresolved instr) (h'.unresolved instr)
  function := h'.function.trans h.function
  functions := h.functions.trans (h.function ▸ h'.functions)

theorem grows (h : Writes f f' instrs) (lo : ℕ) : Grows lo f.b f'.b where
  code := h.code ▸ List.prefix_append _ _
  pending := ⟨[], by rw [h.pending, List.append_nil], fun _ hj => absurd hj List.not_mem_nil⟩
  label := h.label ▸ le_rfl
  targets _ _ _ := by rw [h.targets]
  constants := h.constants

theorem placed (h : Writes f f' instrs) (hb : Placed f.b) : Placed f'.b := by
  have hlen : f.b.code.length ≤ f'.b.code.length := (h.grows 0).code.length_le
  constructor
  · rw [h.pending]
    exact hb.distinct
  · intro j hj
    rw [h.pending] at hj
    exact (hb.inside j hj).trans_le hlen
  · intro label target ht
    rw [h.targets] at ht
    exact (hb.bound label target ht).trans hlen
  · intro instr hi
    rw [h.code, List.mem_append] at hi
    exact hi.elim (hb.unresolved instr) (h.unresolved instr)

/-- What was written stays, and is never patched. -/
theorem codeAt (h : Writes f f' instrs) (hb : Placed f.b) {lo : ℕ} {b : ChunkBuilder}
    (hgrows : Grows lo f'.b b) : CodeAt b.finish f.b.code.length instrs := by
  intro i instr hi
  have hlt : i < instrs.length := (List.getElem?_eq_some_iff.mp hi).1
  have hlen : f'.b.code.length = f.b.code.length + instrs.length := by
    rw [h.code, List.length_append]
  have hcode : f'.b.code[f.b.code.length + i]? = some instr := by
    rw [h.code, List.getElem?_append_right (Nat.le_add_right _ _), Nat.add_sub_cancel_left, hi]
  rw [ChunkBuilder.finish_of_not_pending, hgrows.getElem?_code hcode]
  intro j hj
  rcases hgrows.of_mem_pending hj with hj | hj
  · rw [h.pending] at hj
    have := hb.inside j hj
    omega
  · omega

end Writes

namespace Ready

variable {f f' : Fn} {d : Demand} {regs regs' : List Reg}

theorem forget (h : Ready f d regs') (hsub : regs <+: regs') : Ready f d regs where
  allocated := h.allocated
  frame := h.frame
  nodup := h.nodup.sublist hsub.sublist
  below r hr := h.below r (hsub.subset hr)
  temp t ht := ⟨fun hmem => (h.temp t ht).1 (hsub.subset hmem), (h.temp t ht).2⟩
  placed := h.placed
  label := h.label

/-- Another assembler with the same function table. -/
theorem rebuild (h : Ready f d regs) {b : ChunkBuilder} (hfunctions : b.functions = f.b.functions)
    (hb : Placed b) (hlabel : b.nextLabel.toNat ≤ b.code.length) :
    Ready { f with b := b } d regs := by
  have hnum : Fn.numRegisters { f with b := b } = f.numRegisters := by
    unfold Fn.numRegisters
    rw [hfunctions]
  have ha := h.allocated
  exact ⟨⟨ha.next, ha.scratch, hfunctions ▸ ha.declared, ha.frame.imp id fun hf => hnum.trans hf,
    ha.fits, ha.spills⟩, hnum.trans h.frame, h.nodup, h.below, h.temp, hb, hlabel⟩

/-- An emission. -/
theorem emit (h : Ready f d regs) {instr : Instruction} (hi : Unresolved instr) :
    Ready { f with b := (f.b.emit instr).2 } d regs ∧
      Writes f { f with b := (f.b.emit instr).2 } [instr] := by
  have hw : Writes f { f with b := (f.b.emit instr).2 } [instr] :=
    ⟨rfl, rfl, rfl, rfl, List.prefix_rfl, fun i hmem => List.mem_singleton.mp hmem ▸ hi, rfl,
      Retouches.refl _ _⟩
  exact ⟨h.rebuild rfl (hw.placed h.placed) (h.label.trans (hw.grows 0).code.length_le), hw⟩

/-- A fresh register. -/
theorem «local» (h : Ready f d regs) (hfits : d.width + 1 ≤ 255) :
    Ready (Fn.local.run f).2 (d.grow 1) (regs ++ [(Fn.local.run f).1]) ∧
      Fresh (d.width + 1) regs (Fn.local.run f).1 ∧ Writes f (Fn.local.run f).2 [] := by
  have hnext : f.nextReg.toNat = d.width := by
    rw [h.allocated.next]
    omega
  have hnew : (Fn.local.run f).1 ∉ regs := fun hmem => by
    have : f.nextReg.toNat < d.width := h.below _ hmem
    omega
  have hw : Writes f (Fn.local.run f).2 [] :=
    ⟨(List.append_nil _).symm, rfl, rfl, rfl, List.prefix_rfl,
      fun _ hi => absurd hi List.not_mem_nil, rfl, retouches_setNumRegisters _ _ _⟩
  refine ⟨⟨Fn.asks_local f d h.allocated, Fn.numRegisters_widen h.allocated.declared _ _, ?_, ?_,
    ?_, hw.placed h.placed, h.label⟩, ⟨hnew, ?_⟩, hw⟩
  · refine List.nodup_append.mpr ⟨h.nodup, List.pairwise_singleton _ _, fun r hr r' hr' heq => ?_⟩
    rw [heq, List.mem_singleton.mp hr'] at hr
    exact hnew hr
  · intro r hr
    show r.index.toNat < d.width + 1
    rcases List.mem_append.mp hr with hr | hr
    · exact (h.below r hr).trans (Nat.lt_succ_self _)
    · rw [List.mem_singleton.mp hr]
      show f.nextReg.toNat < d.width + 1
      omega
  · intro t ht
    obtain ⟨hout, hlt⟩ := h.temp t ht
    refine ⟨fun hmem => ?_, hlt.trans (Nat.lt_succ_self _)⟩
    rcases List.mem_append.mp hmem with hmem | hmem
    · exact hout hmem
    · rw [List.mem_singleton.mp hmem] at hlt
      have : f.nextReg.toNat < d.width := hlt
      omega
  · show f.nextReg.toNat < d.width + 1
    omega

/-- The scratch register. -/
theorem scratch (h : Ready f d regs) (hfits : d.temp.width ≤ 255) :
    Ready (Fn.temp.run f).2 d.temp regs ∧ Fresh d.temp.width regs (Fn.temp.run f).1 ∧
      Writes f (Fn.temp.run f).2 [] ∧ (Fn.temp.run f).2.b.constants = f.b.constants := by
  have hscratch := h.allocated.scratch
  cases hs : f.scratch with
  | some t =>
    have hd : d.temp = d := if_pos (by rw [← hscratch, hs]; rfl)
    have hrun : Fn.temp.run f = (t, f) := by
      cases f
      cases hs
      rfl
    rw [hrun, hd]
    exact ⟨h, h.temp t hs, ⟨(List.append_nil _).symm, rfl, rfl, rfl, List.prefix_rfl,
      fun _ hi => absurd hi List.not_mem_nil, rfl, Retouches.refl _ _⟩, rfl⟩
  | none =>
    have hd : d.temp = ⟨d.width + 1, true⟩ :=
      if_neg (by rw [← hscratch, hs]; exact Bool.false_ne_true)
    have hrun : Fn.temp.run f =
        ((Fn.local.run f).1, { (Fn.local.run f).2 with scratch := some (Fn.local.run f).1 }) := by
      cases f
      cases hs
      rfl
    rw [hd] at hfits
    obtain ⟨hready, hfresh, hw⟩ := h.local hfits
    have hasks := Fn.asks_temp f d h.allocated
    rw [hrun, hd] at hasks ⊢
    refine ⟨⟨hasks, hready.frame, h.nodup, fun r hr => (h.below r hr).trans (Nat.lt_succ_self _),
      fun t ht => ?_, hready.placed, hready.label⟩, hfresh, ⟨hw.code, hw.pending, hw.targets,
      hw.label, hw.constants, hw.unresolved, hw.function, hw.functions⟩, rfl⟩
    cases ht
    exact hfresh

/-- A constant. -/
theorem const (h : Ready f d regs) (n : Int64) :
    Ready { f with b := (f.b.const (.int n)).2 } d regs ∧
      Writes f { f with b := (f.b.const (.int n)).2 } [] ∧
      (f.b.const (.int n)).2.constants.length ≤ f.b.constants.length + 1 ∧
      (∀ v ∈ (f.b.const (.int n)).2.constants, v ∈ f.b.constants ∨ v = .int n) ∧
      (f.b.constants.length < 2 ^ 31 →
        (f.b.const (.int n)).2.constants[(f.b.const (.int n)).1.toNat]? = some (.int n)) := by
  have hshape : (f.b.const (.int n)).2 =
      { f.b with constants := (f.b.const (.int n)).2.constants } := by
    unfold ChunkBuilder.const
    split <;> rfl
  have hconst : f.b.constants <+: (f.b.const (.int n)).2.constants ∧
      (f.b.const (.int n)).2.constants.length ≤ f.b.constants.length + 1 ∧
      (∀ v ∈ (f.b.const (.int n)).2.constants, v ∈ f.b.constants ∨ v = .int n) ∧
      (f.b.constants.length < 2 ^ 31 →
        (f.b.const (.int n)).2.constants[(f.b.const (.int n)).1.toNat]? = some (.int n)) := by
    unfold ChunkBuilder.const
    split
    · rename_i pos hpos
      obtain ⟨hlt, heq, -⟩ := List.findIdx?_eq_some_iff_getElem.mp hpos
      refine ⟨List.prefix_rfl, Nat.le_succ _, fun v hv => .inl hv, fun hsize => ?_⟩
      show f.b.constants[(UInt32.ofNat pos).toNat]? = _
      rw [UInt32.toNat_ofNat_of_lt' (by show pos < 2 ^ 32; omega), List.getElem?_eq_getElem hlt]
      generalize f.b.constants[pos] = v at heq
      cases v <;> simp_all [Value.eq]
    · refine ⟨List.prefix_append _ _, by rw [List.length_append]; exact le_rfl, fun v hv => ?_,
        fun hsize => ?_⟩
      · exact (List.mem_append.mp hv).imp id List.mem_singleton.mp
      show (f.b.constants ++ [Value.int n])[(UInt32.ofNat f.b.constants.length).toNat]? = _
      rw [UInt32.toNat_ofNat_of_lt' (by show f.b.constants.length < 2 ^ 32; omega),
        List.getElem?_concat_length]
  rw [hshape]
  have hw : Writes f { f with
      b := { f.b with constants := (f.b.const (.int n)).2.constants } } [] :=
    ⟨(List.append_nil _).symm, rfl, rfl, rfl, hconst.1, fun _ hi => absurd hi List.not_mem_nil, rfl,
      Retouches.refl _ _⟩
  exact ⟨h.rebuild rfl (hw.placed h.placed) h.label, hw, hconst.2⟩

end Ready

/-! ## Assembly -/

/-- What assembling so many instructions comes to. What was asked for is `d'` then, and the code is
laid out in every chunk that the assembler makes of it. -/
structure Assembles (f : Fn) (regs : List Reg) (size : ℕ) (d' : Demand) (out : List Reg × Fn)
    (L : Chunk → ℕ → List Reg → ℕ → Prop) : Prop where
  ready : Ready out.2 d' out.1
  scope : regs <+: out.1
  code : out.2.b.code.length = f.b.code.length + size
  pooled : Pooled out.2.b
  grows : Grows 0 f.b out.2.b
  function : out.2.function = f.function
  functions : Retouches f.function.toNat f.b.functions out.2.b.functions
  laid : ∀ b, Placed b → b.code.length < 2 ^ 31 → Grows f.b.nextLabel.toNat out.2.b b →
    ∀ width, d'.width ≤ width → L b.finish width out.1 (f.b.code.length + size)

section

variable {f : Fn} {d d' : Demand} {regs : List Reg} {s : Stmt} {out : List Reg × Fn}

/-- A statement but a loop. -/
theorem Assembles.of_writes (dst temp : Reg) (konst : UInt32) (hs : s.Plain) (h : Ready f d regs)
    (hvars : ∀ x ∈ s.vars, x < regs.length)
    (hw : Writes f out.2 (s.code (Stmt.reg regs) dst temp konst)) (hready : Ready out.2 d' out.1)
    (hout : out.1 = if s.binds then regs ++ [dst] else regs)
    (hdst : s.binds = true → Fresh d'.width regs dst)
    (htemp : s.usesTemp = true → Fresh d'.width regs temp)
    (hpool : Pooled out.2.b)
    (hkonst : ∀ n, s = .loadInt n → out.2.b.constants[konst.toNat]? = some (.int n)) :
    Assembles f regs s.size d' out fun chunk width => Laid chunk width regs f.b.code.length s where
  ready := hready
  scope := by
    rw [hout]
    split_ifs
    · exact List.prefix_append _ _
    · exact List.prefix_rfl
  code := by rw [hw.code, List.length_append, Stmt.length_code hs]
  pooled := hpool
  grows := hw.grows 0
  function := hw.function
  functions := hw.functions
  laid b _ _ hgrows width hwidth := by
    rw [hout]
    refine .plain hs hvars (fun hb => ?_) (fun ht => ?_) (fun n hn => ?_)
      (hw.codeAt h.placed hgrows)
    · exact ⟨(hdst hb).1, (hdst hb).2.trans_le hwidth⟩
    · exact ⟨(htemp ht).1, (htemp ht).2.trans_le hwidth⟩
    · obtain ⟨rest, hrest⟩ := hgrows.constants
      have hmem := hkonst n hn
      show b.constants[konst.toNat]? = _
      rw [← hrest, List.getElem?_append_left (List.getElem?_eq_some_iff.mp hmem).1, hmem]

/-- An opcode that is no jump. -/
theorem unresolved_of_op {op : Opcode} {x y z : UInt8} {imm : Int32} (h : op ≠ .jump)
    (h' : op ≠ .branch) : Unresolved ⟨op, x, y, z, imm⟩ := fun hop => (hop.elim h h').elim

/-- A call that emits one instruction and returns no register. -/
theorem assembles_emit (s : Stmt) (hs : s.Plain) (h : Ready f d regs)
    (hscope : s.inScope regs.length = true) (hpool : Pooled f.b) (hbinds : s.binds = false)
    (htemp : s.usesTemp = false) (hconst : ∀ n, s ≠ .loadInt n) {instr : Instruction}
    (hcode : s.code (Stmt.reg regs) ⟨0⟩ ⟨0⟩ 0 = [instr]) (hi : Unresolved instr) :
    Assembles f regs s.size d (regs, { f with b := (f.b.emit instr).2 }) fun chunk width =>
      Laid chunk width regs f.b.code.length s := by
  obtain ⟨hready, hw⟩ := h.emit hi
  refine .of_writes ⟨0⟩ ⟨0⟩ 0 hs h (s.vars_of_inScope hs hscope) (hcode ▸ hw) hready
    (by rw [hbinds]; rfl) (fun hb => ?_) (fun ht => ?_)
    (hpool.keep rfl (hw.grows 0).code.length_le) fun n hn => absurd hn (hconst n)
  · rw [hbinds] at hb
    cases hb
  · rw [htemp] at ht
    cases ht

/-- A call that emits one instruction and returns its register. -/
theorem assembles_fresh (s : Stmt) (hs : s.Plain) (h : Ready f d regs)
    (hscope : s.inScope regs.length = true) (hpool : Pooled f.b)
    (hfits : d.width + 1 ≤ 255) (hbinds : s.binds = true) (htemp : s.usesTemp = false)
    (hconst : ∀ n, s ≠ .loadInt n) {instr : Reg → Instruction}
    (hcode : ∀ dst, s.code (Stmt.reg regs) dst ⟨0⟩ 0 = [instr dst])
    (hi : ∀ dst, Unresolved (instr dst)) :
    Assembles f regs s.size (d.grow 1)
      ((Stmt.extend regs (Fn.fresh fun b dst => (b.emit (instr ⟨dst⟩)).2)).run f)
      fun chunk width => Laid chunk width regs f.b.code.length s := by
  obtain ⟨hlocal, hfresh, hw⟩ := h.local hfits
  obtain ⟨hready, hw'⟩ := hlocal.emit (hi (Fn.local.run f).1)
  refine .of_writes ⟨f.nextReg⟩ ⟨0⟩ 0 hs h (s.vars_of_inScope hs hscope) ?_ hready
    (by rw [hbinds]; rfl) (fun _ => hfresh) (fun ht => ?_)
    (hpool.keep rfl ((hw.trans hw').grows 0).code.length_le) fun n hn => absurd hn (hconst n)
  · rw [hcode]
    exact hw.trans hw'
  · rw [htemp] at ht
    cases ht

theorem assembles_loadInt (h : Ready f d regs) (n : Int64)
    (hpool : Pooled f.b) (hfits : d.width + 1 ≤ 255)
    (hsize : f.b.code.length + 1 < 2 ^ 31) :
    Assembles f regs 1 (d.grow 1) ((Stmt.extend regs (Fn.loadInt n)).run f) fun chunk width =>
      Laid chunk width regs f.b.code.length (.loadInt n) := by
  obtain ⟨hconst, hw, hlength, hnew, hindex⟩ := h.const n
  obtain ⟨hlocal, hfresh, hw'⟩ := hconst.local hfits
  let instr : Instruction := ⟨.loadConst, f.nextReg, 0, 0, (f.b.const (.int n)).1.toInt32⟩
  obtain ⟨hready, hw''⟩ := @Ready.emit _ _ _ hlocal instr fun hop => by cases hop <;> contradiction
  have hpool' : Pooled ((f.b.const (.int n)).2.emit instr).2 := by
    constructor
    · show (f.b.const (.int n)).2.constants.length ≤
        ((f.b.const (.int n)).2.code ++ [instr]).length
      rw [hw.code, List.append_nil, List.length_append, List.length_singleton]
      exact hlength.trans (Nat.succ_le_succ hpool.size)
    · exact fun v hv => (hnew v hv).elim (hpool.ints v) fun heq => ⟨n, heq⟩
  have hlt : f.b.constants.length < 2 ^ 31 := by
    have := hpool.size
    omega
  exact @Assembles.of_writes f d _ regs (.loadInt n) _ ⟨f.nextReg⟩ ⟨0⟩ (f.b.const (.int n)).1
    trivial h (fun _ hx => absurd hx List.not_mem_nil) ((hw.trans hw').trans hw'') hready rfl
    (fun _ => hfresh) (fun ht => by cases ht) (hpool'.keep rfl le_rfl)
    fun _ hn => by cases hn; exact hindex hlt

theorem assembles_addImm (h : Ready f d regs) {x : ℕ} (hx : x < regs.length) (imm : Int32)
    (hpool : Pooled f.b) (hfits : d.temp.width ≤ 255) :
    Assembles f regs 2 d.temp (((Stmt.addImm x imm).assemble regs).run f) fun chunk width =>
      Laid chunk width regs f.b.code.length (.addImm x imm) := by
  obtain ⟨htemp, hfresh, hw, hconst⟩ := h.scratch hfits
  obtain ⟨hload, hw'⟩ := @Ready.emit _ _ _ htemp (.aImm .loadImm (Fn.temp.run f).1.index imm)
    fun hop => by cases hop <;> contradiction
  obtain ⟨hadd, hw''⟩ := @Ready.emit _ _ _ hload
    (.abc .add (Stmt.reg regs x).index (Stmt.reg regs x).index (Fn.temp.run f).1.index)
    fun _ => rfl
  refine @Assembles.of_writes f d _ regs (.addImm x imm) _ ⟨0⟩ (Fn.temp.run f).1 0 trivial h
    (fun y hy => ?_) ((hw.trans hw').trans hw'') hadd rfl (fun hb => by cases hb) (fun _ => hfresh)
    ?_ fun n hn => by cases hn
  · rw [List.mem_singleton.mp hy]
    exact hx
  · exact hpool.keep hconst (((hw.trans hw').trans hw'').grows 0).code.length_le

theorem assembles_eqImm (h : Ready f d regs) {x : ℕ} (hx : x < regs.length) (imm : Int32)
    (hpool : Pooled f.b) (hfits : d.temp.width + 1 ≤ 255) :
    Assembles f regs 2 (d.temp.grow 1) (((Stmt.eqImm x imm).assemble regs).run f)
      fun chunk width => Laid chunk width regs f.b.code.length (.eqImm x imm) := by
  obtain ⟨htemp, hfresh, hw, hconst⟩ := h.scratch ((Nat.le_succ _).trans hfits)
  obtain ⟨hload, hw'⟩ := @Ready.emit _ _ _ htemp (.aImm .loadImm (Fn.temp.run f).1.index imm)
    fun hop => by cases hop <;> contradiction
  obtain ⟨hlocal, hfresh', hlw⟩ := hload.local hfits
  obtain ⟨heq, hw''⟩ := @Ready.emit _ _ _ hlocal
    (.abc .eq (Fn.temp.run f).2.nextReg (Stmt.reg regs x).index (Fn.temp.run f).1.index)
    fun _ => rfl
  refine @Assembles.of_writes f d _ regs (.eqImm x imm) _ ⟨(Fn.temp.run f).2.nextReg⟩
    (Fn.temp.run f).1 0 trivial h (fun y hy => ?_) (((hw.trans hw').trans hlw).trans hw'') heq rfl
    (fun _ => hfresh') (fun _ => ⟨hfresh.1, hfresh.2.trans (Nat.lt_succ_self _)⟩) ?_
    fun n hn => by cases hn
  · rw [List.mem_singleton.mp hy]
    exact hx
  · exact hpool.keep hconst ((((hw.trans hw').trans hlw).trans hw'').grows 0).code.length_le

end

/-! ## Loops -/

/-- A pending jump leads to the target of its label. -/
theorem leads_of_pending {b : ChunkBuilder} (hb : Placed b) (hsize : b.code.length < 2 ^ 31)
    {idx : ℕ} {label : Label} {raw : Instruction} {target : UInt32}
    (hmem : (idx, label) ∈ b.pendingJumps) (hraw : b.code[idx]? = some raw)
    (ht : b.labelTargets label = some target) :
    b.finish.code[idx]? = some { raw with imm := b.offset idx label } ∧
      Leads idx (b.offset idx label) target.toNat := by
  have hidx : idx < b.code.length := (List.getElem?_eq_some_iff.mp hraw).1
  have htarget := hb.bound label target ht
  refine ⟨by rw [hb.finish_of_pending hmem, hraw]; rfl, ?_⟩
  unfold Leads
  rw [hb.offset_of_bound hsize hidx ht]
  omega

/-- The code of a loop, with the two jumps that were patched. -/
theorem laid_whileLt {b : ChunkBuilder} (hb : Placed b) (hsize : b.code.length < 2 ^ 31)
    {regs regs' : List Reg} {width pc pc' counter limit : ℕ} {cond : Reg} {head done : Label}
    {body : List Stmt}
    (hlt : b.code[pc]? = some (.abc .lt cond.index (Stmt.reg regs counter).index
      (Stmt.reg regs limit).index)) (hnot : ∀ j ∈ b.pendingJumps, j.1 ≠ pc)
    (hbranch : b.code[pc + 1]? = some (.aImm .branch cond.index 0))
    (hout : (pc + 1, done) ∈ b.pendingJumps) (hjump : b.code[pc']? = some (.onlyImm .jump 0))
    (hback : (pc', head) ∈ b.pendingJumps)
    (hhead : b.labelTargets head = some (UInt32.ofNat pc))
    (hdone : b.labelTargets done = some (UInt32.ofNat (pc' + 1))) (hcounter : counter < regs.length)
    (hlimit : limit < regs.length) (hcond : Fresh width regs cond)
    (hbody : LaidAll b.finish width regs (pc + 2) body regs' pc') :
    Laid b.finish width regs pc (.whileLt counter limit body) regs (pc' + 1) := by
  have hbound {n : ℕ} (hn : n ≤ b.code.length) : (UInt32.ofNat n).toNat = n :=
    UInt32.toNat_ofNat_of_lt' (by show n < 2 ^ 32; omega)
  have hpc : pc < b.code.length := (List.getElem?_eq_some_iff.mp hlt).1
  have hpc' : pc' < b.code.length := (List.getElem?_eq_some_iff.mp hjump).1
  obtain ⟨hbranch', hout'⟩ := leads_of_pending hb hsize hout hbranch hdone
  obtain ⟨hjump', hback'⟩ := leads_of_pending hb hsize hback hjump hhead
  rw [hbound hpc'] at hout'
  rw [hbound hpc.le] at hback'
  refine .whileLt hcounter hlimit hcond (fun i instr hi => ?_) hout' hbody hjump' hback'
  match i with
  | 0 =>
    cases hi
    rw [Nat.add_zero, ChunkBuilder.finish_of_not_pending hnot, hlt]
  | 1 =>
    cases hi
    exact hbranch'
  | i + 2 => cases hi

/-- The assembler at the body of a loop. -/
def whileHead (f : Fn) (counter limit : Reg) : Fn :=
  let f' := (Fn.local.run { f with b := f.b.newLabel.2.newLabel.2 }).2
  { f' with b :=
      ((f'.b.bindLabel ⟨f.b.nextLabel⟩).emitBinop .lt f.nextReg counter.index
        limit.index).emitBranch f.nextReg ⟨f.b.nextLabel + 1⟩ }

/-- The assembler after a loop. -/
def whileEnd (head done : Label) (f : Fn) : Fn := { f with b := (f.b.emitJump head).bindLabel done }

section

variable {f : Fn} {d d' : Demand} {regs : List Reg}

theorem code_whileHead (f : Fn) (counter limit : Reg) :
    (whileHead f counter limit).b.code = f.b.code ++
      [.abc .lt f.nextReg counter.index limit.index, .aImm .branch f.nextReg 0] :=
  List.append_assoc _ _ _

theorem pending_whileHead (f : Fn) (counter limit : Reg) :
    (whileHead f counter limit).b.pendingJumps =
      f.b.pendingJumps ++ [(f.b.code.length + 1, ⟨f.b.nextLabel + 1⟩)] := by
  show f.b.pendingJumps ++ [((f.b.code ++ [_]).length, _)] = _
  rw [List.length_append, List.length_singleton]

/-- Two labels come with two instructions, so the labels do not run out. -/
theorem toNat_labels (h : f.b.nextLabel.toNat ≤ f.b.code.length)
    (hsize : f.b.code.length + 2 < 2 ^ 31) :
    (f.b.nextLabel + 1).toNat = f.b.nextLabel.toNat + 1 ∧
      (f.b.nextLabel + 1 + 1).toNat = f.b.nextLabel.toNat + 2 := by
  have hone : (f.b.nextLabel + 1).toNat = f.b.nextLabel.toNat + 1 := by
    rw [UInt32.toNat_add, UInt32.toNat_one]
    omega
  refine ⟨hone, ?_⟩
  rw [UInt32.toNat_add, hone, UInt32.toNat_one]
  omega

theorem ready_whileHead (h : Ready f d regs) (hfits : d.width + 1 ≤ 255)
    (hsize : f.b.code.length + 2 < 2 ^ 31) (counter limit : Reg) :
    Ready (whileHead f counter limit) (d.grow 1) regs ∧ Fresh (d.width + 1) regs ⟨f.nextReg⟩ ∧
      Retouches f.function.toNat f.b.functions (whileHead f counter limit).b.functions := by
  obtain ⟨hlocal, hfresh, -⟩ := h.local hfits
  have hplaced : Placed (whileHead f counter limit).b :=
    (((((h.placed.apply .newLabel).apply .newLabel).apply (.setNumRegisters f.function _)).apply
      (.bindLabel ⟨f.b.nextLabel⟩)).apply
      (.emitBinop .lt f.nextReg counter.index limit.index)).apply
      (.emitBranch f.nextReg ⟨f.b.nextLabel + 1⟩)
  have hlabel : (whileHead f counter limit).b.nextLabel.toNat ≤
      (whileHead f counter limit).b.code.length := by
    rw [code_whileHead, List.length_append]
    show (f.b.nextLabel + 1 + 1).toNat ≤ f.b.code.length + 2
    rw [(toNat_labels h.label hsize).2]
    exact Nat.add_le_add_right h.label 2
  have hready := @Ready.rebuild _ _ _ hlocal (whileHead f counter limit).b rfl hplaced hlabel
  exact ⟨hready.forget (List.prefix_append _ _), hfresh, retouches_setNumRegisters _ _ _⟩

theorem ne_of_toNat_ne {l : Label} {n : UInt32} (h : l.raw.toNat ≠ n.toNat) : l ≠ ⟨n⟩ :=
  fun heq => h (congrArg (fun l => l.raw.toNat) heq)

theorem grows_whileHead (h : f.b.nextLabel.toNat ≤ f.b.code.length)
    (hsize : f.b.code.length + 2 < 2 ^ 31) (counter limit : Reg) :
    Grows 0 f.b (whileHead f counter limit).b where
  code := code_whileHead f counter limit ▸ List.prefix_append _ _
  pending := ⟨_, pending_whileHead f counter limit, fun j hj => by
    rw [List.mem_singleton.mp hj]
    exact Nat.le_succ _⟩
  label := by
    show f.b.nextLabel.toNat ≤ (f.b.nextLabel + 1 + 1).toNat
    rw [(toNat_labels h hsize).2]
    exact Nat.le_add_right _ _
  targets _ _ hlt := Function.update_of_ne (ne_of_toNat_ne hlt.ne) _ _
  constants := List.prefix_rfl

theorem grows_whileEnd (f : Fn) (head : Label) {n : UInt32} {lo : ℕ} (hlo : n.toNat < lo) :
    Grows lo f.b (whileEnd head ⟨n⟩ f).b where
  code := List.prefix_append _ _
  pending := ⟨_, rfl, fun j hj => by
    rw [List.mem_singleton.mp hj]⟩
  label := le_rfl
  targets _ hle _ := Function.update_of_ne (ne_of_toNat_ne (hlo.trans_le hle).ne') _ _
  constants := List.prefix_rfl

/-- A loop, given that its body is laid out. -/
theorem assembles_whileLt (h : Ready f d regs) {counter limit : ℕ} {body : List Stmt}
    (hcounter : counter < regs.length) (hlimit : limit < regs.length)
    (hfits : d.width + 1 ≤ 255) (hwidth : d.width + 1 ≤ d'.width)
    (hsize : f.b.code.length + (Stmt.sizeAll body + 3) < 2 ^ 31)
    (hbody : Assembles (whileHead f (Stmt.reg regs counter) (Stmt.reg regs limit)) regs
      (Stmt.sizeAll body) d' ((Stmt.assembleAll regs body).run
        (whileHead f (Stmt.reg regs counter) (Stmt.reg regs limit)))
      fun chunk width => LaidAll chunk width regs (f.b.code.length + 2) body) :
    Assembles f regs (Stmt.sizeAll body + 3) d' (((Stmt.whileLt counter limit body).assemble
      regs).run f) fun chunk width => Laid chunk width regs f.b.code.length
        (.whileLt counter limit body) := by
  obtain ⟨-, hcond, hretouches⟩ := ready_whileHead h hfits (by omega) (Stmt.reg regs counter)
    (Stmt.reg regs limit)
  obtain ⟨hdone, hnext⟩ := toNat_labels h.label (by omega)
  have hcode₀ := code_whileHead f (Stmt.reg regs counter) (Stmt.reg regs limit)
  have hpending₀ := pending_whileHead f (Stmt.reg regs counter) (Stmt.reg regs limit)
  have hgrows₀ := grows_whileHead h.label (by omega) (Stmt.reg regs counter) (Stmt.reg regs limit)
  have hhead₀ : (whileHead f (Stmt.reg regs counter) (Stmt.reg regs limit)).b.labelTargets
    ⟨f.b.nextLabel⟩ = some (UInt32.ofNat f.b.code.length) := Function.update_self _ _ _
  have hlabel₀ : (whileHead f (Stmt.reg regs counter) (Stmt.reg regs limit)).b.nextLabel.toNat =
    f.b.nextLabel.toNat + 2 := hnext
  have hfunction₀ : (whileHead f (Stmt.reg regs counter) (Stmt.reg regs limit)).function =
    f.function := rfl
  have hout : ((Stmt.whileLt counter limit body).assemble regs).run f = (regs,
    whileEnd ⟨f.b.nextLabel⟩ ⟨f.b.nextLabel + 1⟩ ((Stmt.assembleAll regs body).run
      (whileHead f (Stmt.reg regs counter) (Stmt.reg regs limit))).2) := rfl
  generalize whileHead f (Stmt.reg regs counter) (Stmt.reg regs limit) = f₀ at *
  rw [hout]
  obtain ⟨hready, hscope, hcode, hpooled, hgrows, hfunction, hfunctions, hlaid⟩ := hbody
  generalize (Stmt.assembleAll regs body).run f₀ = out at *
  have hgrows₁ := grows_whileEnd out.2 ⟨f.b.nextLabel⟩ (hdone.trans_lt (Nat.lt_succ_self _))
  have hlen₀ : f₀.b.code.length = f.b.code.length + 2 := by rw [hcode₀, List.length_append]; rfl
  have hlen : (whileEnd ⟨f.b.nextLabel⟩ ⟨f.b.nextLabel + 1⟩ out.2).b.code.length =
      out.2.b.code.length + 1 := List.length_append
  have hplaced : Placed (whileEnd ⟨f.b.nextLabel⟩ ⟨f.b.nextLabel + 1⟩ out.2).b :=
    (hready.placed.apply (.emitJump ⟨f.b.nextLabel⟩)).apply (.bindLabel ⟨f.b.nextLabel + 1⟩)
  have hend := @Ready.rebuild _ _ _ hready (whileEnd ⟨f.b.nextLabel⟩ ⟨f.b.nextLabel + 1⟩ out.2).b
    rfl hplaced (hready.label.trans hgrows₁.code.length_le)
  have hgrows' : Grows 0 f.b (whileEnd ⟨f.b.nextLabel⟩ ⟨f.b.nextLabel + 1⟩ out.2).b :=
    (hgrows₀.trans hgrows).after hgrows₁ fun l _ hlt =>
      Function.update_of_ne (ne_of_toNat_ne (by omega)) _ _
  refine ⟨hend.forget hscope, List.prefix_rfl, hlen.trans (by omega),
    hpooled.keep rfl hgrows₁.code.length_le, hgrows', hfunction.trans hfunction₀,
    hretouches.trans (hfunction₀ ▸ hfunctions), fun b hb hbsize hb' width hd' => ?_⟩
  have hlabel := hgrows.label
  have hinner : Grows (f.b.nextLabel.toNat + 2) out.2.b b := hgrows₁.trans (hb'.mono (by omega))
  have hafter : Grows f₀.b.nextLabel.toNat f₀.b b :=
    (hgrows.mono (Nat.zero_le _)).trans (hlabel₀ ▸ hinner)
  -- the head was bound before the body, the end after it
  have hhead : b.labelTargets ⟨f.b.nextLabel⟩ = some (UInt32.ofNat f.b.code.length) := by
    rw [hb'.targets _ le_rfl (hlabel.trans' (hlabel₀ ▸ Nat.lt_add_of_pos_right two_pos)), ← hhead₀,
      ← hgrows.targets _ (Nat.zero_le _) (hlabel₀ ▸ Nat.lt_add_of_pos_right two_pos)]
    exact Function.update_of_ne (ne_of_toNat_ne (hdone ▸ Nat.ne_of_lt (Nat.lt_succ_self _))) _ _
  have hdone' : b.labelTargets ⟨f.b.nextLabel + 1⟩ =
      some (UInt32.ofNat (out.2.b.code.length + 1)) := by
    rw [hb'.targets _ (hdone ▸ Nat.le_succ _) (hlabel.trans' (hlabel₀ ▸ hdone ▸ le_rfl)), ← hlen]
    exact Function.update_self _ _ _
  have hlt : f₀.b.code[f.b.code.length]? = some (.abc .lt f.nextReg
      (Stmt.reg regs counter).index (Stmt.reg regs limit).index) := by
    rw [hcode₀, List.getElem?_append_right le_rfl, Nat.sub_self]
    rfl
  have hbranch : f₀.b.code[f.b.code.length + 1]? = some (.aImm .branch f.nextReg 0) := by
    rw [hcode₀, List.getElem?_append_right (Nat.le_add_right _ _), Nat.add_sub_cancel_left]
    rfl
  have hnot : ∀ j ∈ b.pendingJumps, j.1 ≠ f.b.code.length := by
    intro j hj
    rcases hafter.of_mem_pending hj with hj | hj
    · rw [hpending₀, List.mem_append, List.mem_singleton] at hj
      rcases hj with hj | rfl
      · exact (h.placed.inside j hj).ne
      · exact Nat.succ_ne_self _
    · omega
  have hbody : LaidAll b.finish width regs (f.b.code.length + 2) body out.1
      out.2.b.code.length := by
    rw [hcode]
    exact hlaid b hb hbsize (hlabel₀ ▸ hinner) width hd'
  have hend' : f.b.code.length + (Stmt.sizeAll body + 3) = out.2.b.code.length + 1 := by omega
  rw [hend']
  exact laid_whileLt hb hbsize (hafter.getElem?_code hlt) hnot (hafter.getElem?_code hbranch)
    (hafter.mem_pending (hpending₀ ▸ List.mem_append_right _ (List.mem_singleton_self _)))
    (hb'.getElem?_code List.getElem?_concat_length)
    (hb'.mem_pending (List.mem_append_right _ (List.mem_singleton_self _))) hhead hdone' hcounter
    hlimit ⟨hcond.1, hcond.2.trans_le (hwidth.trans hd')⟩ hbody

end

/-! ## Statements -/

namespace Stmt

mutual

theorem le_demand (s : Stmt) (d : Demand) : d.width ≤ (s.demand d).width := by
  have hgrow (d : Demand) (n : ℕ) : d.width ≤ (d.grow n).width := Nat.le_add_right _ _
  have htemp : d.width ≤ d.temp.width := by
    unfold Demand.temp
    split
    · exact le_rfl
    · exact Nat.le_succ _
  cases s with
  | eqImm => exact htemp.trans (hgrow _ 1)
  | addImm => exact htemp
  | whileLt _ _ body => exact (hgrow d 1).trans (le_demandAll body _)
  | effect e =>
    unfold demand
    split
    · exact hgrow d 1
    · exact le_rfl
  | loadI32 | loadInt | binop | neg | call => exact hgrow d 1
  | set | mov | «return» | trap => exact le_rfl

theorem le_demandAll (ss : List Stmt) (d : Demand) : d.width ≤ (demandAll ss d).width := by
  cases ss with
  | nil => exact le_rfl
  | cons s ss => exact (le_demand s d).trans (le_demandAll ss _)

end

/-- The scope grows by what a call binds. -/
theorem length_assemble (s : Stmt) (regs : List Reg) (f : Fn) :
    ((s.assemble regs).run f).1.length = regs.length + s.binds.toNat := by
  cases s with
  | effect e => cases e <;> exact List.length_append
  | loadI32 | loadInt | binop | eqImm | neg | call => exact List.length_append
  | set | mov | addImm | whileLt | «return» | trap => rfl

end Stmt

theorem unresolved_effect (e : Effect) (reg : ℕ → Reg) (dst : Reg) :
    Unresolved (e.instr reg dst) := by
  cases e <;> exact unresolved_of_op (by decide) (by decide)

/-- An effect that binds is assembled like any other instruction with a result. -/
theorem run_effect_of_binds {e : Effect} (h : e.binds = true) (regs : List Reg) (f : Fn) :
    ((Stmt.effect e).assemble regs).run f = (Stmt.extend regs (Fn.fresh fun b dst =>
      (b.emit (e.instr (Stmt.reg regs) ⟨dst⟩)).2)).run f := by
  cases e with
  | yield | sleep | exit | send => cases h
  | _ => rfl

theorem run_effect_of_not_binds {e : Effect} (h : e.binds = false) (regs : List Reg) (f : Fn) :
    ((Stmt.effect e).assemble regs).run f =
      (regs, { f with b := (f.b.emit (e.instr (Stmt.reg regs) ⟨0⟩)).2 }) := by
  cases e with
  | yield | sleep | exit | send => exact congrArg (·, _) (List.append_nil regs)
  | _ => cases h

mutual

/-- **Assembly.** What is emitted for a call is laid out in the finished chunk. -/
theorem assembles (s : Stmt) {f : Fn} {d : Demand} {regs : List Reg} (h : Ready f d regs)
    (hpool : Pooled f.b) (hscope : s.inScope regs.length = true)
    (hfits : (s.demand d).width ≤ 255) (hsize : f.b.code.length + s.size < 2 ^ 31) :
    Assembles f regs s.size (s.demand d) ((s.assemble regs).run f)
      fun chunk width => Laid chunk width regs f.b.code.length s := by
  cases s with
  | loadI32 n =>
    exact assembles_fresh (.loadI32 n) trivial h hscope hpool hfits rfl rfl
      (fun _ hn => by cases hn) (fun _ => rfl) fun _ => unresolved_of_op (by decide) (by decide)
  | loadInt n => exact assembles_loadInt h n hpool hfits hsize
  | set x imm =>
    exact assembles_emit (.set x imm) trivial h hscope hpool rfl rfl
      (fun _ hn => by cases hn) rfl (unresolved_of_op (by decide) (by decide))
  | mov dst src =>
    exact assembles_emit (.mov dst src) trivial h hscope hpool rfl rfl
      (fun _ hn => by cases hn) rfl (unresolved_of_op (by decide) (by decide))
  | binop op lhs rhs =>
    have hrun : (Stmt.binop op lhs rhs).assemble regs = Stmt.extend regs
        (Fn.binop op.opcode (Stmt.reg regs lhs) (Stmt.reg regs rhs)) := by
      rw [← Source.BinOp.call_eq]
      rfl
    rw [hrun]
    exact assembles_fresh (.binop op lhs rhs) trivial h hscope hpool hfits rfl rfl
      (fun _ hn => by cases hn) (fun _ => rfl) fun _ => fun _ => rfl
  | eqImm lhs imm =>
    exact assembles_eqImm h (Stmt.vars_of_inScope (.eqImm lhs imm) trivial hscope lhs
      (List.mem_singleton_self _)) imm
      hpool hfits
  | addImm dst imm =>
    exact assembles_addImm h (Stmt.vars_of_inScope (.addImm dst imm) trivial hscope dst
      (List.mem_singleton_self _))
      imm hpool hfits
  | neg src =>
    exact assembles_fresh (.neg src) trivial h hscope hpool hfits rfl rfl
      (fun _ hn => by cases hn) (fun _ => rfl) fun _ => unresolved_of_op (by decide) (by decide)
  | whileLt counter limit body =>
    obtain ⟨hvars, hinner⟩ := Bool.and_eq_true_iff.mp hscope
    obtain ⟨hcounter, hlimit⟩ := Bool.and_eq_true_iff.mp hvars
    have hwidth := Stmt.le_demandAll body (d.grow 1)
    have hsize' : f.b.code.length + (Stmt.sizeAll body + 3) < 2 ^ 31 := hsize
    have hready := (ready_whileHead h (hwidth.trans hfits) (by omega) (Stmt.reg regs counter)
      (Stmt.reg regs limit)).1
    have hcode := code_whileHead f (Stmt.reg regs counter) (Stmt.reg regs limit)
    have hlen : (whileHead f (Stmt.reg regs counter) (Stmt.reg regs limit)).b.code.length =
        f.b.code.length + 2 := by rw [hcode, List.length_append]; rfl
    have hbody := assemblesAll body hready (hpool.keep rfl (hlen ▸ Nat.le_add_right _ _)) hinner
      hfits (by omega)
    rw [hlen] at hbody
    exact assembles_whileLt h (of_decide_eq_true hcounter) (of_decide_eq_true hlimit)
      (hwidth.trans hfits) hwidth hsize' hbody
  | call function =>
    exact assembles_fresh (.call function) trivial h hscope hpool hfits rfl rfl
      (fun _ hn => by cases hn) (fun _ => rfl) fun _ => unresolved_of_op (by decide) (by decide)
  | «return» value =>
    exact assembles_emit (.return value) trivial h hscope hpool rfl rfl
      (fun _ hn => by cases hn) rfl (unresolved_of_op (by decide) (by decide))
  | trap code =>
    exact assembles_emit (.trap code) trivial h hscope hpool rfl rfl
      (fun _ hn => by cases hn) rfl (unresolved_of_op (by decide) (by decide))
  | effect e =>
    cases hbinds : e.binds with
    | true =>
      have hdemand : (Stmt.effect e).demand d = d.grow 1 := if_pos hbinds
      rw [hdemand] at hfits ⊢
      rw [run_effect_of_binds hbinds]
      exact assembles_fresh (.effect e) trivial h hscope hpool hfits hbinds rfl
        (fun _ hn => by cases hn) (fun _ => rfl) fun dst => unresolved_effect e _ dst
    | false =>
      have hdemand : (Stmt.effect e).demand d = d := if_neg (by rw [Stmt.binds, hbinds]; decide)
      rw [hdemand, run_effect_of_not_binds hbinds]
      exact assembles_emit (.effect e) trivial h hscope hpool hbinds rfl (fun _ hn => by cases hn)
        rfl (unresolved_effect e _ _)

theorem assemblesAll (ss : List Stmt) {f : Fn} {d : Demand} {regs : List Reg} (h : Ready f d regs)
    (hpool : Pooled f.b) (hscope : Stmt.inScopeAll regs.length ss = true)
    (hfits : (Stmt.demandAll ss d).width ≤ 255)
    (hsize : f.b.code.length + Stmt.sizeAll ss < 2 ^ 31) :
    Assembles f regs (Stmt.sizeAll ss) (Stmt.demandAll ss d) ((Stmt.assembleAll regs ss).run f)
      fun chunk width => LaidAll chunk width regs f.b.code.length ss := by
  cases ss with
  | nil =>
    exact ⟨h, List.prefix_rfl, rfl, hpool, .refl _ _, rfl, .refl _ _, fun _ _ _ _ _ _ =>
      .nil regs _⟩
  | cons s ss =>
    obtain ⟨hscope₁, hscope₂⟩ := Bool.and_eq_true_iff.mp hscope
    have hsize' : f.b.code.length + (s.size + Stmt.sizeAll ss) < 2 ^ 31 := hsize
    have hs := assembles s h hpool hscope₁ ((Stmt.le_demandAll ss _).trans hfits) (by omega)
    have hlength := Stmt.length_assemble s regs f
    have hrun : (Stmt.assembleAll regs (s :: ss)).run f =
      (Stmt.assembleAll ((s.assemble regs).run f).1 ss).run ((s.assemble regs).run f).2 := rfl
    rw [hrun]
    generalize (s.assemble regs).run f = out at *
    have hcode := hs.code
    have hrest := assemblesAll ss hs.ready hs.pooled (hlength ▸ hscope₂) hfits (by omega)
    refine ⟨hrest.ready, hs.scope.trans hrest.scope, ?_, hrest.pooled, hs.grows.trans hrest.grows,
      hrest.function.trans hs.function, hs.functions.trans (hs.function ▸ hrest.functions),
      fun b hb hbsize hgrows width hwidth => ?_⟩
    · show _ = f.b.code.length + (s.size + Stmt.sizeAll ss)
      have := hrest.code
      omega
    · have hlabel := hs.grows.label
      have hlaid := hs.laid b hb hbsize ((hrest.grows.mono (Nat.zero_le _)).trans hgrows) width
        ((Stmt.le_demandAll ss _).trans hwidth)
      have hlaid' := hrest.laid b hb hbsize (hgrows.mono hlabel) width hwidth
      rw [hcode, Nat.add_assoc] at hlaid'
      exact .cons hlaid hlaid'

end

end Source

end Byteflow
