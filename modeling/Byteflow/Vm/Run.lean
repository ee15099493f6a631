import Byteflow.Foundations.Schedule
import Byteflow.Vm.Frames

/-!
# Runs of a VM

What the owner of a VM does with it: it runs slices, delivers values, attaches the quota and
charges it for hops. A property that one instruction and one delivery keep is kept by any sequence
of such calls (`calls_induct`), and what a slice ends with is what one of its instructions ended
with, or the end of the budget (`run_induct`).
-/

namespace Byteflow

namespace Vm

/-- A call on a VM. -/
inductive Call
  | run (host : ℕ → Host) (budget : ℕ)
  | resumeWith (host : Host) (destReg : UInt8) (value : Value)
  | setQuota (quota : FlowQuota)
  /-- The quota pays for a hop. -/
  | alloc (bytes : ℕ)
  | free (bytes : ℕ)

def onQuota (vm : Vm) (f : FlowQuota → FlowQuota) : Vm := { vm with quota := vm.quota.map f }

/-- What a call answers, if it is a slice, and what it leaves. -/
def apply (vm : Vm) : Call → Option VmResult × Vm
  | .run host budget => ((run host budget vm).1, (run host budget vm).2)
  | .resumeWith host destReg value => (none, vm.resumeWith host destReg value)
  | .setQuota quota => (none, (vm.setQuota quota).toOption.getD vm)
  | .alloc bytes => (none, vm.onQuota fun q => (q.alloc bytes).toOption.getD q)
  | .free bytes => (none, vm.onQuota (·.free bytes))

/-- The VM after a sequence of calls. -/
def calls (vm : Vm) (cs : List Call) : Vm := Schedule.run (fun vm c => (vm.apply c).2) vm cs

/-- The states in which a slice executes an instruction. -/
def visited (host : ℕ → Host) : ℕ → Vm → List Vm
  | 0, _ => []
  | budget + 1, vm =>
    vm :: match vm.step (host vm.instructionsExecuted) with
      | (none, vm') => visited host budget vm'
      | (some _, _) => []

variable {I : Vm → Prop} {E : VmResult → Prop} {vm : Vm}

/-- **Slices.** -/
theorem run_induct (hstep : ∀ vm host, I vm →
      ((vm.step host).1 = none → I (vm.step host).2) ∧
        ∀ r, (vm.step host).1 = some r → E r)
    (hyield : ∀ vm, I vm → E .yield) (host : ℕ → Host) (budget : ℕ) (h : I vm) :
    E (run host budget vm).1 := by
  induction budget generalizing vm with
  | zero => exact hyield vm h
  | succ budget ih =>
    obtain ⟨hnone, hsome⟩ := hstep vm (host vm.instructionsExecuted) h
    unfold run
    rcases hr : vm.step (host vm.instructionsExecuted) with ⟨r, vm'⟩
    rw [hr] at hnone hsome
    cases r with
    | none => exact ih (hnone rfl)
    | some r => exact hsome r rfl

theorem run_keeps (hstep : ∀ vm host, I vm → I (vm.step host).2) (host : ℕ → Host) (budget : ℕ)
    (h : I vm) : I (run host budget vm).2 := by
  induction budget generalizing vm with
  | zero => exact h
  | succ budget ih =>
    have hnext := hstep vm (host vm.instructionsExecuted) h
    unfold run
    rcases hr : vm.step (host vm.instructionsExecuted) with ⟨r, vm'⟩
    rw [hr] at hnext
    cases r with
    | none => exact ih hnext
    | some r => exact hnext

/-- What the steps keep holds in every state of a slice. -/
theorem visited_keeps (hstep : ∀ vm host, I vm → I (vm.step host).2) (host : ℕ → Host)
    (budget : ℕ) (h : I vm) : ∀ v ∈ visited host budget vm, I v := by
  induction budget generalizing vm with
  | zero => exact fun _ hv => absurd hv List.not_mem_nil
  | succ budget ih =>
    intro v hv
    have hnext := hstep vm (host vm.instructionsExecuted) h
    unfold visited at hv
    rcases List.mem_cons.mp hv with rfl | hv
    · exact h
    · rcases hr : vm.step (host vm.instructionsExecuted) with ⟨r, vm'⟩
      rw [hr] at hnext hv
      cases r with
      | none => exact ih hnext v hv
      | some r => exact absurd hv List.not_mem_nil

/-- What does not look at the quota is kept by all calls but slices. -/
theorem apply_keeps (hstep : ∀ vm host, I vm → I (vm.step host).2)
    (hresume : ∀ vm host reg v, I vm → I (vm.resumeWith host reg v))
    (hquota : ∀ vm quota, I vm → I { vm with quota := quota }) (h : I vm) (c : Call) :
    I (vm.apply c).2 := by
  cases c with
  | run host budget => exact run_keeps hstep host budget h
  | resumeWith host reg v => exact hresume vm host reg v h
  | setQuota quota =>
    show I ((vm.setQuota quota).toOption.getD vm)
    cases hset : vm.setQuota quota with
    | error fault => exact h
    | ok vm' =>
      obtain ⟨quota', _, hset⟩ := of_bind_ok hset
      cases hset
      exact hquota vm (some quota') h
  | alloc bytes => exact hquota vm _ h
  | free bytes => exact hquota vm _ h

/-- **Calls.** -/
theorem calls_induct (hstep : ∀ vm host, I vm → I (vm.step host).2)
    (hresume : ∀ vm host reg v, I vm → I (vm.resumeWith host reg v))
    (hquota : ∀ vm quota, I vm → I { vm with quota := quota }) (h : I vm) (cs : List Call) :
    I (vm.calls cs) :=
  Schedule.invariant (I := I) (fun _ c hvm => apply_keeps hstep hresume hquota hvm c) h cs

/-! ## Instruction by instruction -/

/-- What happens to a VM between two instructions, or in one. -/
inductive Event
  | step (host : Host)
  | resumeWith (host : Host) (destReg : UInt8) (value : Value)
  /-- The quota is attached, or changes. -/
  | quota (quota : Option FlowQuota)

def event (vm : Vm) : Event → Vm
  | .step host => (vm.step host).2
  | .resumeWith host destReg value => vm.resumeWith host destReg value
  | .quota quota => { vm with quota := quota }

def events (vm : Vm) (es : List Event) : Vm := Schedule.run event vm es

theorem events_append (es es' : List Event) : vm.events (es ++ es') = (vm.events es).events es' :=
  Schedule.run_append ..

/-- A slice is a sequence of steps. -/
theorem events_of_run (host : ℕ → Host) (budget : ℕ) (vm : Vm) :
    ∃ es, (run host budget vm).2 = vm.events es := by
  induction budget generalizing vm with
  | zero => exact ⟨[], rfl⟩
  | succ budget ih =>
    unfold run
    rcases hr : vm.step (host vm.instructionsExecuted) with ⟨r, vm'⟩
    have hevent : vm.event (.step (host vm.instructionsExecuted)) = vm' := congrArg Prod.snd hr
    cases r with
    | none =>
      obtain ⟨es, hes⟩ := ih vm'
      refine ⟨.step (host vm.instructionsExecuted) :: es, hes.trans ?_⟩
      rw [← hevent]
      rfl
    | some r =>
      refine ⟨[.step (host vm.instructionsExecuted)], ?_⟩
      rw [← hevent]
      rfl

/-- Calls are sequences of events. -/
theorem events_of_calls (vm : Vm) (cs : List Call) : ∃ es, vm.calls cs = vm.events es := by
  induction cs generalizing vm with
  | nil => exact ⟨[], rfl⟩
  | cons c cs ih =>
    have hone : ∃ es, (vm.apply c).2 = vm.events es := by
      cases c with
      | run host budget => exact events_of_run host budget vm
      | resumeWith host reg v => exact ⟨[.resumeWith host reg v], rfl⟩
      | setQuota quota =>
        show ∃ es, (vm.setQuota quota).toOption.getD vm = vm.events es
        cases hset : vm.setQuota quota with
        | error fault => exact ⟨[], rfl⟩
        | ok vm' =>
          obtain ⟨quota', _, hset⟩ := of_bind_ok hset
          cases hset
          exact ⟨[.quota (some quota')], rfl⟩
      | alloc bytes => exact ⟨[.quota _], rfl⟩
      | free bytes => exact ⟨[.quota _], rfl⟩
    obtain ⟨es, hes⟩ := hone
    obtain ⟨es', hes'⟩ := ih (vm.apply c).2
    refine ⟨es ++ es', ?_⟩
    rw [events_append, ← hes, ← hes']
    rfl

end Vm

end Byteflow
