import Byteflow.Vm.Frames

/-!
# What a VM is billed for

Each instruction counts once, whatever it leads to, and the VM does not touch the CPU budget of its
quota (`step_cpu`).
-/

namespace Byteflow

namespace Vm

variable {vm vm' : Vm} {host : Host}

/-- The CPU budget of the quota, if one is attached. -/
def cpu (vm : Vm) : Option Int64 := vm.quota.map (·.cpuBudget)

theorem alloc_cpuBudget {q q' : FlowQuota} {bytes : ℕ} (h : q.alloc bytes = .ok q') :
    q'.cpuBudget = q.cpuBudget := by
  simp only [FlowQuota.alloc] at h
  split at h <;> cases h
  rfl

theorem chargeHeapValue_cpuBudget {q q' : FlowQuota} {v : Value}
    (h : chargeHeapValue q v = .ok q') : q'.cpuBudget = q.cpuBudget := by
  rcases alloc_of_chargeHeapValue h with ⟨rfl, -⟩ | halloc
  · rfl
  · exact alloc_cpuBudget halloc

theorem chargeAll_cpuBudget {q q' : FlowQuota} {vs : List Value} (h : chargeAll q vs = .ok q') :
    q'.cpuBudget = q.cpuBudget := by
  induction vs generalizing q with
  | nil =>
    cases h
    rfl
  | cons v vs ih =>
    obtain ⟨q₁, hv, hvs⟩ := of_bind_ok h
    exact (ih hvs).trans (chargeHeapValue_cpuBudget hv)

/-- A quota that is attached keeps its budget. -/
theorem setQuota_cpu {q : FlowQuota} (h : vm.setQuota q = .ok vm') :
    vm'.cpu = some q.cpuBudget ∧ vm'.instructionsExecuted = vm.instructionsExecuted := by
  obtain ⟨q', hcharge, h⟩ := of_bind_ok h
  cases h
  exact ⟨congrArg some (chargeAll_cpuBudget hcharge), rfl⟩

theorem chargeRegisterStore_cpu {reg : UInt8} {v : Value}
    (h : vm.chargeRegisterStore host reg v = .ok vm') :
    vm'.cpu = vm.cpu ∧ vm'.instructionsExecuted = vm.instructionsExecuted := by
  unfold chargeRegisterStore at h
  split at h
  · cases h
    exact ⟨rfl, rfl⟩
  · rename_i q hq
    split at h
    · cases h
      exact ⟨rfl, rfl⟩
    · split at h
      · rename_i q' hcharge
        cases h
        have hcpu : vm.cpu = some q.cpuBudget := congrArg (Option.map _) hq
        exact ⟨(congrArg some (chargeHeapValue_cpuBudget hcharge)).trans hcpu.symm, rfl⟩
      · cases h

/-- Neither does a store bill anything but memory. -/
theorem setReg_cpu (host : Host) (vm : Vm) (reg : UInt8) (v : Value) :
    (vm.setReg host reg v).2.cpu = vm.cpu ∧
      (vm.setReg host reg v).2.instructionsExecuted = vm.instructionsExecuted := by
  unfold setReg
  cases hcharge : vm.chargeRegisterStore host reg v with
  | error fault => exact ⟨rfl, rfl⟩
  | ok vm₁ =>
    have hvm₁ := chargeRegisterStore_cpu hcharge
    simp only
    split
    · exact hvm₁
    · split <;> exact hvm₁

theorem cpu_of_setReg {vm₁ : Vm} {reg : UInt8} {v : Value} {r : Except Fault Unit}
    (h : vm₁.setReg host reg v = (r, vm')) :
    vm'.cpu = vm₁.cpu ∧ vm'.instructionsExecuted = vm₁.instructionsExecuted := by
  have hcpu := setReg_cpu host vm₁ reg v
  rwa [h] at hcpu

theorem goto_cpu (pc : ℕ) : (vm.goto pc).cpu = vm.cpu ∧
    (vm.goto pc).instructionsExecuted = vm.instructionsExecuted := by
  unfold goto
  split <;> exact ⟨rfl, rfl⟩

theorem fetched_cpu (vm : Vm) : vm.fetched.cpu = vm.cpu ∧
    vm.fetched.instructionsExecuted = vm.instructionsExecuted + 1 := goto_cpu _

/-- **Each instruction counts.** -/
theorem step_cpu (host : Host) (vm : Vm) : (vm.step host).2.cpu = vm.cpu ∧
    (vm.step host).2.instructionsExecuted = vm.instructionsExecuted + 1 := by
  have hmoves := step_moves host vm
  generalize vm.step host = out at hmoves
  obtain ⟨r, vm'⟩ := out
  have hstored {vm₁ : Vm} {reg : UInt8} {v : Value} {r : Except Fault Unit}
      (hvm : vm₁ = vm.fetched ∨ vm₁ = vm.fetched.freshRequestId.2)
      (h : vm₁.setReg host reg v = (r, vm')) :
      vm'.cpu = vm.cpu ∧ vm'.instructionsExecuted = vm.instructionsExecuted + 1 := by
    obtain ⟨hcpu, hexecuted⟩ := cpu_of_setReg h
    rw [hcpu, hexecuted]
    obtain rfl | rfl := hvm
    · exact fetched_cpu vm
    · unfold freshRequestId
      split <;> exact fetched_cpu vm
  cases hmoves with
  | stuck h => exact ⟨rfl, rfl⟩
  | result hnext h => exact fetched_cpu vm
  | passes hnext => exact fetched_cpu vm
  | jumps hnext hop hframes => exact goto_cpu _
  | stores hnext reg v hvm h => exact hstored hvm h
  | refuses hnext reg v hvm h => exact hstored hvm h
  | calls hnext hop hdepth hargs h => exact fetched_cpu vm
  | completes hframes hv hdest => exact ⟨rfl, rfl⟩
  | returns hframes hv hdest h => exact cpu_of_setReg h
  | loses hframes hv hdest h frameSize => exact cpu_of_setReg h

end Vm

end Byteflow
