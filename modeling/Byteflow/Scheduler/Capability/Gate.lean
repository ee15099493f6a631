import Byteflow.Scheduler.Capability.Lineage
import Byteflow.Vm.Frames

/-!
# The native gate

The gate of a VM is fixed when its flow is spawned. An instruction `CallNative` invokes a native
exactly when the slot is registered, the cells of the gate are live, the authority of the flow has
the right and the index, and the registers of the arguments exist; a flow may call no native that
an ancestor may not; and while its cells are live the gate answers as the authority itself would
(`nativeGate_exact`).
-/

namespace Byteflow

/-! ## The two checks -/

theorem NativeMask.not_allows_empty (n : ℕ) (idx : UInt32) : (empty n).allows idx = false := by
  unfold allows empty
  rw [List.getElem?_replicate]
  split
  · rename_i word h
    split at h <;> cases h
    rw [UInt64.zero_and]
    rfl
  · rfl

theorem NativeGate.allows_fromAuthority (cap : Cap) (flowCell nativeCell : CellId)
    (nativeEpoch : UInt64) (n : ℕ) (idx : UInt32) :
    (fromAuthority cap flowCell nativeCell nativeEpoch n).mask.allows idx = cap.allows idx := by
  unfold fromAuthority Cap.allows
  cases cap.nativeMask with
  | none => exact NativeMask.not_allows_empty n idx
  | some m => rfl

/-- A live gate answers as the authority it was made from. -/
theorem checkNativeGate_fromAuthority {cap : Cap} {flowCell nativeCell : CellId}
    {nativeEpoch : UInt64} {natives : NativeTable} {epoch : CellId → UInt64}
    (h : (NativeGate.fromAuthority cap flowCell nativeCell nativeEpoch natives.length).isLive
      epoch) (idx : UInt32) :
    checkNativeGate
        (.fromAuthority cap flowCell nativeCell nativeEpoch natives.length) epoch natives
      idx = checkNativeCall cap natives idx := by
  unfold checkNativeGate checkNativeCall
  rw [NativeGate.allows_fromAuthority, h]
  rfl

theorem checkNativeCall_ok_iff {cap : Cap} {natives : NativeTable} {idx : UInt32} :
    checkNativeCall cap natives idx = .ok () ↔
      idx.toNat < natives.length ∧ cap.rights.contains CapRights.native ∧ cap.allows idx := by
  unfold checkNativeCall
  split
  · simpa using fun h _ => absurd h (by omega)
  split
  · simp_all
  split
  · simp_all
  · simp_all

theorem checkNativeGate_ok_iff {gate : NativeGate} {epoch : CellId → UInt64}
    {natives : NativeTable} {idx : UInt32} :
    checkNativeGate gate epoch natives idx = .ok () ↔ idx.toNat < natives.length ∧
      gate.isLive epoch ∧ gate.hasNative ∧ gate.mask.allows idx := by
  unfold checkNativeGate
  split
  · simpa using fun h _ => absurd h (by omega)
  split
  · simp_all
  split
  · simp_all
  split
  · simp_all
  · simp_all

namespace Vm

/-! ## The call -/

/-- The registers of `argc` arguments exist. -/
def HasArgs (vm : Vm) (dst : UInt8) (offset argc : ℕ) : Prop :=
  ∀ k, offset ≤ k → k < offset + argc → ∃ reg v, regAt dst k = .ok reg ∧ vm.getReg reg = .ok v

theorem gather_ok_iff {vm : Vm} {dst : UInt8} {offset argc : ℕ} :
    (∃ args, vm.gather dst offset argc = .ok args) ↔ vm.HasArgs dst offset argc := by
  induction argc generalizing offset with
  | zero => exact ⟨fun _ k h h' => absurd h' (by omega), fun _ => ⟨[], rfl⟩⟩
  | succ argc ih =>
    constructor
    · rintro ⟨args, h⟩ k hk hk'
      obtain ⟨reg, hreg, h⟩ := of_bind_ok h
      obtain ⟨v, hv, h⟩ := of_bind_ok h
      obtain ⟨vs, hvs, _⟩ := of_bind_ok h
      rcases Nat.eq_or_lt_of_le hk with rfl | hlt
      · exact ⟨reg, v, hreg, hv⟩
      · exact ih.mp ⟨vs, hvs⟩ k hlt (by omega)
    · intro h
      obtain ⟨reg, v, hreg, hv⟩ := h offset le_rfl (by omega)
      obtain ⟨vs, hvs⟩ := (@ih (offset + 1)).mpr fun k hk hk' => h k (by omega) (by omega)
      exact ⟨v :: vs, by rw [gather, hreg]; simp only [bind, Except.bind, hv, hvs]; rfl⟩

/-- The native that the next instruction invokes: its index, itself and its arguments. -/
def invoked (host : Host) (vm : Vm) : Option (UInt32 × NativeFn × List Value) :=
  match fetch.runFrom { vm with instructionsExecuted := vm.instructionsExecuted + 1 } with
  | (.ok (some instr), vm) =>
    match instr.op, vm.nativeCall host instr.imm.toUInt32 instr.b instr.a with
    | .callNative, .ok call => some (instr.imm.toUInt32, call)
    | _, _ => none
  | _ => none

variable {host : Host} {vm : Vm} {instr : Instruction}

theorem invoked_of_next (h : vm.next = some instr) (hop : instr.op = .callNative) :
    vm.invoked host = (vm.nativeCall host instr.imm.toUInt32 instr.b instr.a).toOption.map
      fun call => (instr.imm.toUInt32, call) := by
  have hfetch : fetch.runFrom { vm with instructionsExecuted := vm.instructionsExecuted + 1 } =
      (.ok (some instr), vm.fetched) := runFrom_fetch h
  unfold invoked
  simp only [hfetch, hop, nativeCall_fetched]
  cases vm.nativeCall host instr.imm.toUInt32 instr.b instr.a <;> rfl

theorem invoked_eq (h : vm.next = some instr) (hop : instr.op = .callNative) :
    (vm.invoked host).isSome ↔
      ∃ native args,
        vm.nativeCall host instr.imm.toUInt32 instr.b instr.a = .ok (native, args) := by
  rw [invoked_of_next h hop]
  cases vm.nativeCall host instr.imm.toUInt32 instr.b instr.a with
  | error e => simp [Except.toOption]
  | ok call => simpa [Except.toOption] using ⟨call.1, call.2, rfl⟩

/-- What is invoked has passed the gate. -/
theorem gate_of_invoked {call : UInt32 × NativeFn × List Value} (h : vm.invoked host = some call) :
    checkNativeGate vm.nativeGate host.epoch vm.natives call.1 = .ok () ∧
      vm.natives.get call.1 = some call.2.1 := by
  have hholds : Holds vm.program (fun _ => True) vm.counted := ⟨rfl, fun _ _ _ _ => trivial⟩
  have hprogram := (keeps_fetch _ hholds).1.program
  unfold invoked at h
  rw [← counted] at h
  generalize fetch.runFrom vm.counted = out at h hprogram
  split at h
  · rename_i instr vm'
    have hgate : vm'.nativeGate = vm.nativeGate := congrArg Program.nativeGate hprogram
    have hnatives : vm'.natives = vm.natives := congrArg Program.natives hprogram
    split at h
    · rename_i native _ hcall
      obtain rfl := Option.some_inj.mp h
      obtain ⟨hpassed, hget, -⟩ := nativeCall_ok hcall
      rw [← hgate, ← hnatives]
      exact ⟨hpassed, hget⟩
    · cases h
  · cases h

/-- **One instruction.** The registers keep `p`, and so does all that is handed over, if what the
native that is invoked returns satisfies `p`. -/
theorem Holds.step_of_invoked {prog : Program} {p : Value → Prop} (hc : prog.Supplies p)
    (h : Holds prog p vm) (host : Host) (hcall : ∀ call ∈ vm.invoked host,
      (∀ a ∈ call.2.2, p a) → ∀ v, call.2.1 host.tick call.2.2 = .ok v → p v) :
    Holds prog p (vm.step host).2 ∧ ∀ r ∈ (vm.step host).1, r.All p := by
  have houtcome {r : Except VmResult Unit × Vm} (hr : Holds prog p r.2)
      (he : ∀ e, r.1 = .error e → e.All p) :
      Holds prog p (outcome r).2 ∧ ∀ e ∈ (outcome r).1, e.All p := by
    rcases r with ⟨_ | _, vm'⟩
    · refine ⟨hr, fun e hmem => ?_⟩
      cases hmem
      exact he _ rfl
    · exact ⟨hr, fun e hmem => nomatch hmem⟩
  cases hnext : vm.next with
  | none =>
    cases hframes : vm.frames with
    | nil =>
      rw [step_of_nil host hframes]
      exact @houtcome (.error (.trap emptyStack), vm.counted) (h.congr rfl rfl)
        fun e he => by cases he; trivial
    | cons frame rest =>
      obtain ⟨hpop, -, he⟩ :=
        keeps_popFrame host (hc.plain _ Value.plain_unit) vm.counted (h.congr rfl rfl)
      rw [step_of_end host hframes hnext]
      exact houtcome hpop he
  | some instr =>
    have hfetched := (keeps_fetch _ (h.congr rfl rfl : Holds prog p vm.counted)).1
    rw [runFrom_fetch hnext] at hfetched
    rw [step_of_next host hnext]
    by_cases hop : instr.op = .callNative
    · have hexec : exec host instr = callNative host instr.imm.toUInt32 instr.b instr.a := by
        unfold exec
        rw [hop]
      obtain ⟨hcalled, -, he⟩ := callNative_holds hfetched fun call hok v hrun => by
        rw [nativeCall_fetched] at hok
        refine hcall (instr.imm.toUInt32, call) ?_ (h.gather (nativeCall_ok hok).2.2) v hrun
        rw [invoked_of_next hnext hop, hok]
        rfl
      rw [hexec]
      exact houtcome hcalled he
    · obtain ⟨hrun, -, he⟩ := keeps_exec hc host instr (fun hop' => absurd hop' hop) _ hfetched
      exact houtcome hrun he

/-- What `CallNative` needs. -/
theorem nativeCall_ok_iff {host : Host} {vm : Vm} {index : UInt32} {argc dst : UInt8} :
    (∃ native args, vm.nativeCall host index argc dst = .ok (native, args)) ↔
      checkNativeGate vm.nativeGate host.epoch vm.natives index = .ok () ∧
        (vm.natives.get index).isSome ∧ vm.HasArgs dst 0 argc.toNat := by
  constructor
  · rintro ⟨native, args, h⟩
    obtain ⟨hgate, hget, hargs⟩ := nativeCall_ok h
    exact ⟨hgate, hget ▸ rfl, gather_ok_iff.mp ⟨args, hargs⟩⟩
  · rintro ⟨hgate, hget, hargs⟩
    obtain ⟨native, hnative⟩ := Option.isSome_iff_exists.mp hget
    obtain ⟨args, hargs⟩ := gather_ok_iff.mpr hargs
    refine ⟨native, args, ?_⟩
    unfold nativeCall
    simp only [hgate, hnative, hargs]
    rfl

/-! ## A flow's VM -/

/-- The VMs of a flow that runs a program: it is spawned, executes instructions and is resumed. -/
inductive Started (prog : Program) : Vm → Prop
  | spawn {function : UInt32} {args : List Value} {vm vm' : Vm} {quota : FlowQuota}
      (h : withNativeGate prog.chunk prog.natives prog.nativeGate function args = .ok vm)
      (hq : vm.setQuota quota = .ok vm') : Started prog vm'
  | step {vm : Vm} (h : Started prog vm) (host : Host) : Started prog (vm.step host).2
  | resume {vm : Vm} (h : Started prog vm) (host : Host) (reg : UInt8) (value : Value) :
      Started prog (vm.resumeWith host reg value)
  | request {vm : Vm} (h : Started prog vm) : Started prog vm.freshRequestId.2

theorem Started.program {prog : Program} {vm : Vm} (h : Started prog vm) : vm.program = prog := by
  have hc : prog.Closed fun _ => True :=
    ⟨fun _ _ => trivial, fun _ _ _ => trivial, fun _ _ _ _ _ _ _ _ _ _ => trivial⟩
  suffices hholds : Holds prog (fun _ => True) vm from hholds.program
  induction h with
  | spawn h hq => exact (withNativeGate_holds h trivial fun _ _ => trivial).setQuota hq
  | step _ host ih => exact (ih.step hc host).1
  | resume _ host reg value ih => exact ih.resumeWith host reg trivial
  | request _ ih => exact ih.freshRequestId

end Vm

open Vm in
/-- Along any chain of spawns: `CallNative` invokes a native exactly when the slot is registered,
the cells of the gate are live, the authority has the right and the index, and the argument
registers exist; what a flow may call its ancestors may call; and a live gate answers as the
authority it was made from. -/
theorem nativeGate_exact (draws : List (List CapId)) (ops : List Lineage.Op) {flow : FlowId}
    {cap : Cap} (hcap : ((Lineage.init draws).run ops).authority flow = some cap) (chunk : Chunk)
    (natives : NativeTable) (flowCell nativeCell : CellId) (nativeEpoch : UInt64) :
    let gate := NativeGate.fromAuthority cap flowCell nativeCell nativeEpoch natives.length
    (∀ vm, Started ⟨chunk, natives, gate⟩ vm → ∀ host instr, vm.next = some instr →
      instr.op = .callNative → ((vm.invoked host).isSome ↔
        instr.imm.toUInt32.toNat < natives.length ∧ (natives.get instr.imm.toUInt32).isSome ∧
        gate.isLive host.epoch ∧ cap.rights.contains CapRights.native ∧
        cap.allows instr.imm.toUInt32 ∧ vm.HasArgs instr.a 0 instr.b.toNat)) ∧
    (∀ a ∈ ((Lineage.init draws).run ops).flowAncestors flow, ∀ idx,
      checkNativeCall cap natives idx = .ok () → checkNativeCall a natives idx = .ok ()) ∧
    ∀ epoch, gate.isLive epoch → ∀ idx,
      checkNativeGate gate epoch natives idx = checkNativeCall cap natives idx := by
  intro gate
  refine ⟨fun vm hvm host instr hnext hop => ?_, fun a ha idx h => ?_,
    fun epoch h idx => checkNativeGate_fromAuthority h idx⟩
  · have hprog := hvm.program
    have hgate : vm.nativeGate = gate := congrArg Program.nativeGate hprog
    have hnatives : vm.natives = natives := congrArg Program.natives hprog
    rw [invoked_eq hnext hop, nativeCall_ok_iff, hgate, hnatives, checkNativeGate_ok_iff,
      NativeGate.allows_fromAuthority]
    tauto
  · have hle := (((Lineage.Sound.init draws).run ops).flow hcap).le a ha
    rw [checkNativeCall_ok_iff] at h ⊢
    exact ⟨h.1, CapRights.contains_trans hle.rights h.2.1, hle.natives idx h.2.2⟩

/-! ## A native of one argument -/

namespace Vm

/-- The authority of flow 1, which the host spawned with a table of one native. -/
def hostAuthority : Cap := ⟨.flow 1, CapRights.root, some (NativeMask.full 1), 0⟩

/-- A function that calls native 0 with one argument. -/
def callOnce (numRegisters : UInt8) : Chunk where
  name := "callOnce"
  constants := []
  code := [⟨.callNative, 0, 1, 0, 0⟩]
  functions := [⟨"main", 0, 0, numRegisters⟩]

def oneNative : NativeTable := [some fun _ _ => .ok .unit]

def callOnceGate : NativeGate := .fromAuthority hostAuthority 2 CapTable.nativeCell 0 1

/-- Flow 1 at its start. -/
def callOnceVm (numRegisters : UInt8) : Vm where
  chunk := callOnce numRegisters
  natives := oneNative
  nativeGate := callOnceGate
  frames := [⟨0, 0, List.replicate numRegisters.toNat .unit, none⟩]
  instructionsExecuted := 0
  nextRequestId := 1
  quota := some (.fromConfig ⟨0, 0⟩)

def quietHost : Host := ⟨0, false, fun _ => 0⟩

theorem authority_hostAuthority :
    ((Lineage.init []).run [.spawnHost 1 1 0]).authority 1 = some hostAuthority := rfl

theorem started_callOnceVm {numRegisters : UInt8} (h : numRegisters = 0 ∨ numRegisters = 1) :
    Started ⟨callOnce numRegisters, oneNative, callOnceGate⟩ (callOnceVm numRegisters) := by
  have hq : ({ callOnceVm numRegisters with quota := none } : Vm).setQuota (.fromConfig ⟨0, 0⟩) =
      .ok (callOnceVm numRegisters) := by
    rcases h with rfl | rfl <;> rfl
  exact @Started.spawn ⟨callOnce numRegisters, oneNative, callOnceGate⟩ 0 []
    { callOnceVm numRegisters with quota := none } _ _ rfl hq

/-- A call that the gate lets through invokes no native if the register of its argument does not
exist; and a gate whose cell was revoked refuses what the authority allows. -/
theorem callNative_without_argument :
    (callOnce 0).verifyWith .untrusted = .ok () ∧
    Started ⟨callOnce 0, oneNative, callOnceGate⟩ (callOnceVm 0) ∧
    (callOnceVm 0).next = some ⟨.callNative, 0, 1, 0, 0⟩ ∧
    (oneNative.get 0).isSome ∧ callOnceGate.isLive quietHost.epoch ∧
    hostAuthority.rights.contains CapRights.native ∧ hostAuthority.allows 0 ∧
    (callOnceVm 0).invoked quietHost = none ∧
    checkNativeGate callOnceGate (fun _ => 1) oneNative 0 = .error .revoked ∧
    checkNativeCall hostAuthority oneNative 0 = .ok () :=
  ⟨rfl, started_callOnceVm (.inl rfl), rfl, rfl, rfl, rfl, rfl, rfl, rfl, rfl⟩

/-- With a register for the argument the native is invoked. -/
theorem nativeGate_exact_callOnce : ((callOnceVm 1).invoked quietHost).isSome := by
  have h := nativeGate_exact [] [.spawnHost 1 1 0] authority_hostAuthority (callOnce 1) oneNative 2
    CapTable.nativeCell 0
  refine (h.1 (callOnceVm 1) (started_callOnceVm (.inr rfl)) quietHost ⟨.callNative, 0, 1, 0, 0⟩ rfl
    rfl).mpr ⟨by decide, rfl, rfl, rfl, rfl, fun k _ hk => ?_⟩
  obtain rfl : k = 0 := by
    have : k < 1 := hk
    omega
  exact ⟨0, .unit, rfl, rfl⟩

end Vm

end Byteflow
