import Byteflow.Foundations.Plain
import Byteflow.Vm.Stores
import Byteflow.Vm.Verified

/-!
# The arithmetic of the interpreter

Integer instructions compute modulo `2 ^ 64`: their result is the exact one, reduced to a signed
number, and only a division by zero fails (`Exact`). `plain` lists the sums and negations that a
step evaluates with plain operators, which a build with overflow checks guards: all stay in the
range of their types but the negation of the least integer (`safe_iff`).
-/

namespace Byteflow

namespace Vm

open Exec

variable {host : Host} {vm : Vm} {instr : Instruction}

/-! ## Results -/

/-- The mathematical result; division truncates. -/
def exact : Opcode → ℤ → ℤ → ℤ
  | .add, x, y => x + y
  | .sub, x, y => x - y
  | .mul, x, y => x * y
  | .div, x, y => x.tdiv y
  | .mod, x, y => x.tmod y
  | _, _, _ => 0

/-- The opcodes of integer arithmetic with two operands. -/
def Arithmetic (op : Opcode) : Prop := op ∈ [Opcode.add, .sub, .mul, .div, .mod]

theorem Arithmetic.numeric {op : Opcode} (h : Arithmetic op) : Numeric op := by
  simp only [Arithmetic, List.mem_cons, List.not_mem_nil, or_false] at h
  rcases h with rfl | rfl | rfl | rfl | rfl <;> simp [Numeric]

theorem ofInt_tdiv (x y : Int64) : Int64.ofInt (x.toInt.tdiv y.toInt) = x / y := by
  apply Int64.toInt_inj.mp
  rw [Int64.toInt_ofInt, Int64.toInt_div]

theorem ofInt_tmod (x y : Int64) : Int64.ofInt (x.toInt.tmod y.toInt) = x % y := by
  rw [← Int64.toInt_mod, Int64.ofInt_toInt]

/-- Two integers: the exact result modulo `2 ^ 64`, or a division by zero. -/
theorem numericBinop_int {op : Opcode} (hop : Arithmetic op) (x y : Int64) :
    numericBinop op (.int x) (.int y) =
      if (op = .div ∨ op = .mod) ∧ y = 0 then .error .divideByZero
      else .ok (.int (Int64.ofInt (exact op x.toInt y.toInt))) := by
  simp only [Arithmetic, List.mem_cons, List.not_mem_nil, or_false] at hop
  rcases hop with rfl | rfl | rfl | rfl | rfl
  · simp [numericBinop, exact]
  · simp [numericBinop, exact]
  · simp [numericBinop, exact]
  · simp [numericBinop, exact, ofInt_tdiv]
  · simp [numericBinop, exact, ofInt_tmod]

theorem negate_int (x : Int64) : negate (.int x) = .ok (.int (Int64.ofInt (-x.toInt))) := by
  simp [negate]

/-- What the arithmetic instructions do: they store the exact result modulo `2 ^ 64`, or fail by a
division by zero. -/
structure Exact (host : Host) (vm : Vm) : Prop where
  binary : ∀ {instr : Instruction} {x y : Int64}, vm.next = some instr → Arithmetic instr.op →
    vm.getReg instr.b = .ok (.int x) → vm.getReg instr.c = .ok (.int y) →
    vm.step host =
      if (instr.op = .div ∨ instr.op = .mod) ∧ y = 0 then (some (.trap .divideByZero), vm.fetched)
      else outcome ((write host instr.a
        (.int (Int64.ofInt (exact instr.op x.toInt y.toInt)))).runFrom vm.fetched)
  neg : ∀ {instr : Instruction} {x : Int64}, vm.next = some instr → instr.op = .neg →
    vm.getReg instr.b = .ok (.int x) →
    vm.step host = outcome ((write host instr.a (.int (Int64.ofInt (-x.toInt)))).runFrom vm.fetched)

theorem exact_of_step (host : Host) (vm : Vm) : Exact host vm where
  binary := by
    intro instr x y hnext hop hx hy
    have hvalue := numericBinop_int hop x y
    split_ifs at hvalue ⊢ with hzero
    · exact step_of_arithmetic_fault host hnext hop.numeric hx hy hvalue
    · rw [step_of_next host hnext, runFrom_arithmetic hop.numeric hx hy hvalue]
  neg := by
    intro instr x hnext hop hx
    rw [step_of_next host hnext]
    unfold exec
    rw [hop]
    simp only [runFrom_bind, runFrom_read_fetched hx, runFrom_trap_ok (negate_int x)]

/-! ## Plain operators -/

/-- The plain operations of an instruction that was fetched at `pc`. -/
def plainOf (vm : Vm) (pc : ℕ) (instr : Instruction) : List Plain :=
  match instr.op with
  | .neg =>
    match vm.getReg instr.b with
    | .ok (.int x) => [.i64 (-x.toInt)]
    | _ => []
  | .jump => [.i64 (pc + 1 + instr.imm.toInt)]
  | .branch =>
    match vm.getReg instr.a with
    | .ok cond => if cond.isTruthy then [] else [.i64 (pc + 1 + instr.imm.toInt)]
    | .error _ => []
  | .call | .callNative =>
    (List.range instr.b.toNat).map fun (i : ℕ) => .u32 (instr.a.toNat + i)
  | .spawn =>
    (List.range instr.b.toNat).flatMap fun (i : ℕ) =>
      [.u16 (i + 1), .u32 (instr.a.toNat + (i + 1))]
  | _ => []

/-- The plain operations of a step: the count of instructions, the program counter, and those of the
instruction. -/
def plain (vm : Vm) : List Plain :=
  .u64 (vm.instructionsExecuted + 1) ::
    match vm.frames, vm.next with
    | frame :: _, some instr => .u64 (frame.pc + 1) :: vm.plainOf frame.pc instr
    | _, _ => []

/-- The next instruction negates the least integer. -/
def NegatesMin (vm : Vm) : Prop :=
  ∃ instr, vm.next = some instr ∧ instr.op = .neg ∧
    vm.getReg instr.b = .ok (.int Int64.minValue)

/-- An offset of the index space of the registers. -/
theorem fits_u32 {x y : ℕ} (hx : x < 256) (hy : y < 256) : (Plain.u32 (x + y)).Fits := by
  show (0 : ℤ) ≤ x + y ∧ (x + y : ℤ) ≤ 0xFFFFFFFF
  omega

theorem fits_neg_iff (x : Int64) : (Plain.i64 (-x.toInt)).Fits ↔ x ≠ Int64.minValue := by
  have hlow := x.le_toInt
  have hhigh := x.toInt_lt
  have hmin : Int64.minValue.toInt = -0x8000000000000000 := rfl
  rw [ne_eq, ← Int64.toInt_inj, hmin]
  show (-0x8000000000000000 ≤ -x.toInt ∧ -x.toInt ≤ 0x7FFFFFFFFFFFFFFF) ↔ _
  omega

/-- What a verified instruction computes with plain operators fits, but for a negation. -/
theorem fits_plainOf {trust : TrustLevel} (hverify : vm.chunk.verifyWith trust = .ok ())
    (hsize : vm.chunk.code.length < 2 ^ 63) (hnext : vm.next = some instr) {frame : Frame}
    {rest : List Frame} (hframes : vm.frames = frame :: rest) :
    (∀ p ∈ vm.plainOf frame.pc instr, p.Fits) ↔ ¬vm.NegatesMin := by
  have hinstr : vm.chunk.code[frame.pc]? = some instr := by
    simpa only [Vm.next, hframes, List.head?_cons, Option.bind_some] using hnext
  have hjump (hop : instr.op = .jump ∨ instr.op = .branch) :
      (Plain.i64 (frame.pc + 1 + instr.imm.toInt)).Fits := by
    obtain ⟨hpos, hle⟩ := (Chunk.operand_of_verify hverify hinstr).2.2 hop
    show -0x8000000000000000 ≤ (frame.pc : ℤ) + 1 + instr.imm.toInt ∧
      (frame.pc : ℤ) + 1 + instr.imm.toInt ≤ 0x7FFFFFFFFFFFFFFF
    omega
  have hindex (i : ℕ) (hi : i < instr.b.toNat) : i < 256 := hi.trans instr.b.toNat_lt
  have hother (hop : instr.op ≠ .neg) : ¬vm.NegatesMin := by
    rintro ⟨instr', hnext', hneg, -⟩
    rw [hnext] at hnext'
    cases hnext'
    exact hop hneg
  have hall {ps : List Plain} (hop : instr.op ≠ .neg) (h : ∀ p ∈ ps, p.Fits) :
      (∀ p ∈ ps, p.Fits) ↔ ¬vm.NegatesMin := ⟨fun _ => hother hop, fun _ => h⟩
  unfold plainOf
  split
  · rename_i hop
    split
    · rename_i x hx
      rw [List.forall_mem_singleton, fits_neg_iff]
      constructor
      · rintro hx' ⟨instr', hnext', -, hmin⟩
        rw [hnext] at hnext'
        cases hnext'
        rw [hx] at hmin
        cases hmin
        exact hx' rfl
      · rintro h rfl
        exact h ⟨instr, hnext, hop, hx⟩
    · rename_i hx
      refine ⟨?_, fun _ _ h => absurd h List.not_mem_nil⟩
      rintro - ⟨instr', hnext', -, hmin⟩
      rw [hnext] at hnext'
      cases hnext'
      exact hx _ hmin
  · rename_i hop
    refine hall (by rw [hop]; decide) fun p hp => ?_
    rw [List.mem_singleton.mp hp]
    exact hjump (.inl hop)
  · rename_i hop
    refine hall (by rw [hop]; decide) fun p hp => ?_
    split at hp
    · split_ifs at hp
      · exact absurd hp List.not_mem_nil
      · rw [List.mem_singleton.mp hp]
        exact hjump (.inr hop)
    · exact absurd hp List.not_mem_nil
  · rename_i hop
    refine hall (by rw [hop]; decide) fun p hp => ?_
    obtain ⟨i, hi, rfl⟩ := List.mem_map.mp hp
    exact fits_u32 instr.a.toNat_lt (hindex i (List.mem_range.mp hi))
  · rename_i hop
    refine hall (by rw [hop]; decide) fun p hp => ?_
    obtain ⟨i, hi, rfl⟩ := List.mem_map.mp hp
    exact fits_u32 instr.a.toNat_lt (hindex i (List.mem_range.mp hi))
  · rename_i hop
    refine hall (by rw [hop]; decide) fun p hp => ?_
    obtain ⟨i, hi, hp⟩ := List.mem_flatMap.mp hp
    have hi := List.mem_range.mp hi
    have hb := instr.b.toNat_lt
    have ha := instr.a.toNat_lt
    simp only [List.mem_cons, List.not_mem_nil, or_false] at hp
    rcases hp with rfl | rfl
    · show (0 : ℤ) ≤ i + 1 ∧ (i + 1 : ℤ) ≤ 0xFFFF
      omega
    · show (0 : ℤ) ≤ instr.a.toNat + (i + 1) ∧ (instr.a.toNat + (i + 1) : ℤ) ≤ 0xFFFFFFFF
      omega
  · rename_i hop _ _ _ _ _
    exact hall hop fun _ h => absurd h List.not_mem_nil

/-- The arithmetic of a step is exact, and a build with overflow checks does not stop in it. -/
def SafeArithmetic (host : Host) (vm : Vm) : Prop := Exact host vm ∧ ∀ p ∈ vm.plain, p.Fits

/-- **One instruction.** -/
theorem safe_step_iff {trust : TrustLevel} (hverify : vm.chunk.verifyWith trust = .ok ())
    (hsize : vm.chunk.code.length < 2 ^ 63) (host : Host) :
    SafeArithmetic host vm ↔ ¬vm.NegatesMin ∧ vm.instructionsExecuted + 1 < 2 ^ 64 := by
  have hcount : (Plain.u64 (vm.instructionsExecuted + 1)).Fits ↔
      vm.instructionsExecuted + 1 < 2 ^ 64 := by
    show ((0 : ℤ) ≤ vm.instructionsExecuted + 1 ∧
      (vm.instructionsExecuted + 1 : ℤ) ≤ 0xFFFFFFFFFFFFFFFF) ↔ _
    omega
  unfold SafeArithmetic plain
  rw [and_iff_right (exact_of_step host vm), List.forall_mem_cons, hcount, and_comm]
  refine and_congr_left fun _ => ?_
  split
  · rename_i frame rest instr hframes hnext
    have hpc : frame.pc < vm.chunk.code.length := by
      simp only [Vm.next, hframes, List.head?_cons, Option.bind_some] at hnext
      exact (List.getElem?_eq_some_iff.mp hnext).1
    have hfetch : (Plain.u64 (frame.pc + 1)).Fits := by
      show (0 : ℤ) ≤ frame.pc + 1 ∧ (frame.pc + 1 : ℤ) ≤ 0xFFFFFFFFFFFFFFFF
      omega
    rw [List.forall_mem_cons, and_iff_right hfetch, fits_plainOf hverify hsize hnext hframes]
  · rename_i hnone
    refine ⟨?_, fun _ _ h => absurd h List.not_mem_nil⟩
    rintro - ⟨instr, hnext, -, -⟩
    obtain ⟨frame, rest, hframes⟩ := frames_of_next hnext
    exact hnone frame rest instr hframes hnext

/-- **Arithmetic.** In every run of a verified chunk the arithmetic is safe exactly as long as the
least integer is not negated, and the count of instructions fits its type. A vector has fewer than
`2 ^ 63` elements. -/
theorem safe_iff {chunk : Chunk} {trust : TrustLevel} (hverify : chunk.verifyWith trust = .ok ())
    (hsize : chunk.code.length < 2 ^ 63) {natives : NativeTable} {gate : NativeGate}
    {function : UInt32} {args : List Value}
    (hnew : withNativeGate chunk natives gate function args = .ok vm) (cs : List Call)
    (host : ℕ → Host) (budget : ℕ) :
    (∀ v ∈ visited host budget (vm.calls cs), SafeArithmetic (host v.instructionsExecuted) v) ↔
      ∀ v ∈ visited host budget (vm.calls cs),
        ¬v.NegatesMin ∧ v.instructionsExecuted + 1 < 2 ^ 64 := by
  have hstep (vm : Vm) (host : Host) (h : vm.chunk = chunk) : (vm.step host).2.chunk = chunk :=
    (congrArg Program.chunk (step_program host vm)).trans h
  have hchunk : (vm.calls cs).chunk = chunk := by
    refine calls_induct (I := fun vm => vm.chunk = chunk) hstep (fun vm host reg v h => ?_)
      (fun _ _ h => h) ?_ cs
    · exact (congrArg Program.chunk (setReg_cases host vm reg v).1).trans h
    · obtain ⟨frame, henter, hnew⟩ := of_bind_ok hnew
      cases hnew
      rfl
  have hvisited := visited_keeps (I := fun vm => vm.chunk = chunk) hstep host budget hchunk
  refine forall₂_congr fun v hv => ?_
  have hv := hvisited v hv
  exact safe_step_iff (by rw [hv]; exact hverify) (by rw [hv]; exact hsize) _

theorem safe_iff_countdown :
    (∀ v ∈ visited (fun _ => ⟨0, false, fun _ => 0⟩) 7 (countdownVm.calls []),
        SafeArithmetic ⟨0, false, fun _ => 0⟩ v) ↔
      ∀ v ∈ visited (fun _ => ⟨0, false, fun _ => 0⟩) 7 (countdownVm.calls []),
        ¬v.NegatesMin ∧ v.instructionsExecuted + 1 < 2 ^ 64 := by
  have hverify : countdown.verifyWith .untrusted = .ok () := by decide
  have hnew : withNativeGate countdown stdNatives ⟨false, ⟨[]⟩, 0, 0, 0, 0⟩ 0 [] =
      .ok countdownVm := rfl
  exact safe_iff hverify (by decide) hnew [] (fun _ => ⟨0, false, fun _ => 0⟩) 7

/-- A program that negates the least integer. -/
def leastNegated : Chunk where
  name := "leastNegated"
  constants := [.int Int64.minValue]
  code := [.aImm .loadConst 0 0, .abc .neg 0 0 0, .aImm .return 0 0]
  functions := [⟨"main", 0, 0, 1⟩]

/-- A flow at the start of it, without rights. -/
def leastNegatedVm : Vm :=
  ⟨leastNegated, stdNatives, ⟨false, ⟨[]⟩, 0, 0, 0, 0⟩, [⟨0, 0, [.unit], none⟩], 0, 1, none⟩

/-- The chunk is verified, and a build with overflow checks stops in its second instruction. -/
theorem least_negated :
    leastNegated.verifyWith .untrusted = .ok () ∧
      withNativeGate leastNegated stdNatives ⟨false, ⟨[]⟩, 0, 0, 0, 0⟩ 0 [] = .ok leastNegatedVm ∧
      ∃ v ∈ visited (fun _ => ⟨0, false, fun _ => 0⟩) 2 leastNegatedVm,
        ¬SafeArithmetic ⟨0, false, fun _ => 0⟩ v := by
  refine ⟨by decide, rfl, (leastNegatedVm.step ⟨0, false, fun _ => 0⟩).2,
    List.mem_cons_of_mem _ List.mem_cons_self, fun h => ?_⟩
  have hplain : (leastNegatedVm.step ⟨0, false, fun _ => 0⟩).2.plain =
      [.u64 2, .u64 2, .i64 0x8000000000000000] := rfl
  have hfits := h.2 (.i64 0x8000000000000000) (by simp [hplain])
  exact absurd hfits (by decide)

end Vm

end Byteflow
