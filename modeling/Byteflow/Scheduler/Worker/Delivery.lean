import Byteflow.Foundations.Ledger
import Byteflow.Scheduler.Machine.Due
import Byteflow.Scheduler.Worker.Owned
import Byteflow.Scheduler.Worker.Quantum
import Byteflow.Scheduler.Worker.Upheld
import Byteflow.Vm.Frames
import Byteflow.Vm.StdNatives

/-!
# Answers are delivered

An instruction may name a register for what the scheduler answers. Whoever has the answer, a worker,
the timer or a host thread, stores it while the flow waits, and drops the error if the store fails.
If the register is one of the flow's frame, no store fails and the flow goes on only with its answer
(`answers_delivered`), as long as the recheck of an `Ask` takes its flow out of no other wait.
Otherwise a hop is taken from its mailbox and lost (`hop_lost`).
-/

namespace Byteflow

/-- A store of the value is free. -/
def Value.Bufferless (v : Value) : Prop := ∀ quota, Vm.chargeHeapValue quota v = .ok quota

namespace Vm

/-- A register that there is takes a value that is free. -/
theorem peekReg_resumeWith {vm : Vm} {reg : UInt8} {v : Value} (host : Host)
    (hreg : (vm.peekReg reg).isSome) (hv : v.Bufferless) (r : UInt8) :
    (vm.resumeWith host reg v).peekReg r = if r = reg then some v else vm.peekReg r := by
  have hcharge : ∃ vm₁, vm.chargeRegisterStore host reg v = .ok vm₁ ∧ vm₁.frames = vm.frames := by
    unfold chargeRegisterStore
    cases vm.quota with
    | none => exact ⟨vm, rfl, rfl⟩
    | some quota =>
      simp only [hv quota]
      split <;> exact ⟨_, rfl, rfl⟩
  obtain ⟨vm₁, hok, hframes⟩ := hcharge
  unfold resumeWith setReg
  rw [hok]
  unfold peekReg at hreg ⊢
  dsimp only
  rw [hframes]
  cases hvm : vm.frames with
  | nil => simp [hvm] at hreg
  | cons frame rest =>
    simp only [hvm, List.head?_cons, Option.bind_some] at hreg
    have hlt : reg.toNat < frame.registers.length := by simpa using hreg
    simp only [hlt, if_true, List.head?_cons, Option.bind_some, List.getElem?_set]
    by_cases hr : r = reg
    · simp [hr]
    · have hne : reg.toNat ≠ r.toNat := fun he => hr (UInt8.toNat_inj.mp he.symm)
      simp [hr, hne]

end Vm

namespace Worker

open Function (update update_self update_of_ne)

variable {c : Config} {s s' : State} {hands : ℕ → Hand} {t : ℕ} {id : FlowId}

/-! ## Where an answer goes -/

/-- The register that gets the answer. -/
def Outcome.dest : Outcome → Option UInt8
  | .resume destReg _ => some destReg
  | .effect (some destReg) _ => some destReg
  | .effect none (.receive destReg ..) => some destReg
  | .effect none (.ask destReg ..) => some destReg
  | _ => none

/-- It goes where the flow wants it, unless the effect fails. -/
def Outcome.Addressed (result : VmResult) (outcome : Outcome) : Prop :=
  outcome.dest = result.dest ∨ ∃ message, outcome = .effect none (.trap message)

/-- Code that ends well leads to what satisfies `Q`. -/
def Ends {α : Type} (Q : α → Prop) (x : Code α) : Prop :=
  x.run.Returns fun r => ∀ a, r = .ok a → Q a

theorem ends_pure {α : Type} {Q : α → Prop} {a : α} (h : Q a) : Ends Q (pure a) := by
  intro a' ha
  cases ha
  exact h

theorem ends_throw {α : Type} {Q : α → Prop} (e : String) : Ends Q (throw e) := by
  intro a ha
  cases ha

theorem ends_bind {α β : Type} {Q : β → Prop} {x : Code α} {f : α → Code β}
    (hf : ∀ a, Ends Q (f a)) : Ends Q (x >>= f) :=
  (Prog.returns_true _).bind fun r _ => by
    cases r with
    | ok a => exact hf a
    | error e => exact ends_throw e

theorem effectCode_ends (id : FlowId) (process : Process) (result : VmResult) :
    Ends (fun outcome => outcome.dest = result.dest) (effectCode c id process result) := by
  cases result with
  | complete value => exact ends_pure rfl
  | yield => exact ends_pure rfl
  | sleep delay => exact ends_pure rfl
  | trap fault => exact ends_throw _
  | selfPid destReg => exact ends_bind fun _ => ends_pure rfl
  | spawn function args destReg requestedRights =>
    exact ends_bind fun _ => ends_bind fun _ => ends_pure rfl
  | send targetCap message =>
    rw [effectCode]
    split
    · exact ends_throw _
    · exact ends_bind fun _ => ends_pure rfl
  | receive destReg timeout matchTag matchRequestId =>
    rw [effectCode]
    split_ifs
    · exact ends_throw _
    · exact ends_pure rfl
  | ask destReg targetCap request timeout =>
    rw [effectCode]
    split
    · exact ends_throw _
    · exact ends_bind fun _ => ends_pure rfl
  | monitor destReg targetCap => exact ends_bind fun _ => ends_pure rfl
  | link destReg targetCap => exact ends_bind fun _ => ends_pure rfl
  | demonitor reg =>
    rw [effectCode]
    split
    · exact ends_pure rfl
    · exact ends_throw _
  | unlink reg =>
    rw [effectCode]
    split
    · exact ends_pure rfl
    · exact ends_throw _
  | registerName name =>
    rw [effectCode]
    split
    · exact ends_throw _
    · dsimp only
      split
      · exact ends_throw _
      · exact ends_bind fun _ => ends_pure rfl
  | whereis destReg name =>
    refine ends_bind fun target => ?_
    split
    · exact ends_pure rfl
    · refine ends_bind fun live => ?_
      split_ifs
      · exact ends_bind fun _ => ends_pure rfl
      · exact ends_pure rfl
  | delegate destReg srcCap wantRights wantNativeCap =>
    cases wantNativeCap with
    | none => exact ends_bind fun _ => ends_bind fun _ => ends_pure rfl
    | some native => exact ends_bind fun _ => ends_bind fun _ => ends_bind fun _ => ends_pure rfl

theorem effect_returns (id : FlowId) (process : Process) (result : VmResult) :
    (effect c id process result).Returns (Outcome.Addressed result) := by
  refine Prog.Returns.bind (effectCode_ends id process result) fun r hr => ?_
  cases r with
  | ok outcome => exact .inl (hr outcome rfl)
  | error message => exact .inr ⟨message, rfl⟩

/-! ## What happens to the registers of a flow -/

inductive Event
  /-- An instruction is executed; the answer that it asks for goes to the register. -/
  | executed (dest : Option UInt8)
  /-- The scheduler has a value for a register of the flow. -/
  | stored (reg : UInt8) (value : Value)
  deriving DecidableEq

/-- The flow whose next instruction a step executes. -/
def executes (s : State) : ℕ × Input → Option FlowId
  | (t, .code _) =>
    match s.modes t with
    | .slice _ (_ + 1) => s.driven t
    | _ => none
  | _ => none

/-- The instruction that a step executes. -/
def executed (s : State) : ℕ × Input → List (FlowId × Event)
  | (t, .code env) => ((executes s (t, .code env)).map fun id =>
      (id, .executed (((s.processes id).vm.step (s.host env)).1.bind VmResult.dest))).toList
  | _ => []

/-- What a step has for a flow. -/
def delivered (s : State) : ℕ × Input → Option Machine.Handed
  | (t, .code _) =>
    match s.driven t, s.modes t with
    | some id, .effect _ (.ret (.resume destReg value)) => some ⟨id, destReg, value⟩
    | some id, .effect _ (.ret (.effect (some destReg) vm)) =>
      (yields s.machine.shared id vm).map fun raw => ⟨id, destReg, refValue raw⟩
    | _, _ => none
  | (t, .machine ..) =>
    match s.modes t with
    | .idle => (s.top t).bind (Machine.Frame.hands s.machine.shared)
    | _ => none
  | _ => none

def stores : Option Machine.Handed → List (FlowId × Event)
  | some r => [(r.flow, .stored r.destReg r.value)]
  | none => []

def events (s : State) (ti : ℕ × Input) : List (FlowId × Event) :=
  executed s ti ++ stores (delivered s ti)

/-- The register that the flow named last for an answer, if its last instruction asked for one. -/
def asked (es : List (FlowId × Event)) (id : FlowId) : Option UInt8 :=
  (Ledger.last (es.filterMap fun e =>
    match e.2 with
    | .executed dest => some (e.1, dest)
    | .stored .. => none) id).join

/-- The flow waits for no answer. -/
def Settled (es : List (FlowId × Event)) (id : FlowId) : Prop :=
  ∀ reg, Ledger.last es id ≠ some (.executed (some reg))

section

variable {es : List (FlowId × Event)} {id' : FlowId}

theorem asked_stores (es : List (FlowId × Event)) (r : Option Machine.Handed) :
    asked (es ++ stores r) = asked es := by
  funext id
  cases r <;> simp [asked, stores]

theorem asked_executed_self (dest : Option UInt8) :
    asked (es ++ [(id, .executed dest)]) id = dest := by
  simp [asked]

theorem asked_executed_of_ne (dest : Option UInt8) (h : id' ≠ id) :
    asked (es ++ [(id, .executed dest)]) id' = asked es id' := by
  unfold asked
  rw [List.filterMap_append]
  refine congrArg Option.join (Ledger.last_append_of_ne fun e he => ?_)
  rw [List.mem_singleton.mp he]
  exact h.symm

theorem last_of_ne {e : Event} (h : id' ≠ id) :
    Ledger.last (es ++ [(id, e)]) id' = Ledger.last es id' :=
  Ledger.last_append_of_ne fun _ he => List.mem_singleton.mp he ▸ h.symm

theorem Settled.executed_of_ne {dest : Option UInt8} (hs : Settled es id') (h : id' ≠ id) :
    Settled (es ++ [(id, .executed dest)]) id' := by
  unfold Settled
  rw [last_of_ne h]
  exact hs

theorem settled_executed : Settled (es ++ [(id, .executed none)]) id := by
  unfold Settled
  rw [Ledger.last_append_self]
  exact nofun

theorem settled_stored (r : Machine.Handed) : Settled (es ++ stores (some r)) r.flow := by
  unfold Settled stores
  rw [Ledger.last_append_self]
  exact nofun

theorem Settled.stores (hs : Settled es id) (r : Option Machine.Handed) :
    Settled (es ++ stores r) id := by
  cases r with
  | none => rwa [Worker.stores, List.append_nil]
  | some r =>
    by_cases hid : id = r.flow
    · rw [hid]
      exact settled_stored r
    · unfold Settled Worker.stores
      rw [last_of_ne hid]
      exact hs

end

/-! ## The condition -/

/-- The flow and the register of an `Ask` that is about to be rechecked. -/
def rechecked (s : State) : ℕ × Input → Option (FlowId × UInt8)
  | (t, .machine ..) => (s.top t).bind Machine.Frame.rechecks
  | _ => none

/-- An instruction that is executed asks for an answer in a register of its frame, and the recheck
of an `Ask` takes its flow out of no wait for another register. -/
def Answerable (s : State) (ti : ℕ × Input) : Prop :=
  (∀ id ∈ executes s ti, ∀ instr ∈ (s.processes id).vm.next, ∀ reg ∈ instr.dest,
    ((s.processes id).vm.peekReg reg).isSome) ∧
  ∀ r ∈ rechecked s ti, ∀ flow ∈ (s.machine.shared.mailboxes r.1).parked,
    flow.lastReceiveDest = some r.2

instance (s : State) (ti : ℕ × Input) : Decidable (Answerable s ti) :=
  inferInstanceAs (Decidable (_ ∧ _))

/-! ## Registers -/

/-- A register of the flow's frame. -/
def State.reg (s : State) (id : FlowId) (reg : UInt8) : Option Value :=
  (s.processes id).vm.peekReg reg

theorem reg_setProcess {p : Process} (h : p.vm.frames = (s.processes id).vm.frames) :
    (s.setProcess id p).reg = s.reg := by
  funext id' reg
  unfold State.reg State.setProcess
  by_cases hid : id' = id
  · subst hid
    simp only [update_self, Vm.peekReg, h]
  · simp only [update_of_ne hid]

/-- A value that is stored. -/
theorem reg_resume (env : Env) {destReg : UInt8} {value : Value} (hreg : (s.reg id destReg).isSome)
    (hv : value.Bufferless) (id' : FlowId) (r : UInt8) :
    (s.resume env id destReg value).reg id' r =
      if id' = id ∧ r = destReg then some value else s.reg id' r := by
  unfold State.reg State.resume State.setProcess
  by_cases hid : id' = id
  · subst hid
    simp only [update_self, true_and]
    exact Vm.peekReg_resumeWith _ hreg hv r
  · simp only [update_of_ne hid, hid, false_and, if_false]

/-- The registers after what the scheduler has for a flow was stored. -/
def State.regAfter (s : State) (r : Option Machine.Handed) (id : FlowId) (reg : UInt8) :
    Option Value :=
  match r with
  | some r => if id = r.flow ∧ reg = r.destReg then some r.value else s.reg id reg
  | none => s.reg id reg

/-- What the scheduler has for a flow can be stored. -/
def State.Storable (s : State) (r : Option Machine.Handed) : Prop :=
  ∀ h ∈ r, (s.reg h.flow h.destReg).isSome ∧ h.value.Bufferless

theorem reg_withQuota (s : State) (id : FlowId) (quota : FlowQuota) :
    (s.setProcess id ((s.processes id).withQuota quota)).reg = s.reg := reg_setProcess rfl

theorem reg_settle (env : Env) {f : Machine.Frame}
    (h : s.Storable (f.hands s.machine.shared)) :
    (s.settle env f).reg = s.regAfter (f.hands s.machine.shared) := by
  have hrefund (id : FlowId) (bytes : ℕ) : (s.refund id bytes).reg = s.reg := reg_withQuota s id _
  unfold State.settle
  dsimp only
  cases hhands : f.hands s.machine.shared with
  | none =>
    cases refunds s.machine.shared f <;> cases forgets f <;> first | rfl | exact hrefund _ _
  | some r =>
    obtain ⟨hreg, hv⟩ := h r hhands
    have hstore : (s.resume env r.flow r.destReg r.value).reg = s.regAfter (some r) := by
      funext id reg
      exact reg_resume env hreg hv id reg
    have hrefunded (id : FlowId) (bytes : ℕ) :
        ((s.refund id bytes).resume env r.flow r.destReg r.value).reg = s.regAfter (some r) := by
      funext id' reg
      rw [reg_resume env (by rwa [hrefund]) hv, hrefund]
      rfl
    cases refunds s.machine.shared f <;> cases forgets f <;>
      first | exact hstore | exact hrefunded _ _

theorem reg_advance {input : Machine.Input} (env : Env)
    (h : s.Storable ((s.top t).bind (Machine.Frame.hands s.machine.shared))) :
    (s.advance t input env).reg =
      s.regAfter ((s.top t).bind (Machine.Frame.hands s.machine.shared)) := by
  cases htop : s.top t with
  | none =>
    unfold State.advance
    simp only [htop]
    rfl
  | some f =>
    rw [htop, Option.bind_some] at h
    have hsettle := reg_settle env h
    unfold State.advance
    simp only [htop]
    exact hsettle

/-- A thread that drives a flow has nothing in a mailbox for it. -/
theorem reg_advance_driven {input : Machine.Input} (env : Env) (hrun : s.driven t = some id) :
    (s.advance t input env).reg = s.reg := by
  obtain ⟨flow, rest, hs, -⟩ := State.driven_eq_some.mp hrun
  have hnone : (s.top t).bind (Machine.Frame.hands s.machine.shared) = none := by
    rw [State.top_of_cons hs]
    rfl
  rw [reg_advance env (by rw [hnone]; exact nofun), hnone]
  rfl

/-- Only a new flow gets other registers from an operation. -/
theorem reg_exec (s : State) (env : Env) {op : Op} (hid : ∀ process, op ≠ .place id process) :
    (s.exec env op).1.reg id = s.reg id := by
  have htopUp (target : FlowId) (f : FlowQuota → FlowQuota) : (s.topUp target f).reg = s.reg := by
    unfold State.topUp
    split_ifs
    · exact reg_withQuota s target _
    · rfl
  cases op with
  | tables op => cases op <;> rfl
  | place id' process =>
    have hne : id ≠ id' := fun he => hid process (he ▸ rfl)
    funext reg
    simp only [State.reg, State.exec, State.setProcess, update_of_ne hne]
  | alloc flow bytes =>
    simp only [State.exec]
    split
    · exact congrFun (reg_withQuota s flow _) id
    · rfl
  | free flow bytes => exact congrFun (reg_withQuota s flow _) id
  | freshRequestId flow =>
    have hframes : (s.processes flow).vm.freshRequestId.2.frames =
        (s.processes flow).vm.frames := by
      unfold Vm.freshRequestId
      split <;> rfl
    exact congrFun (reg_setProcess (p := { s.processes flow with
      vm := (s.processes flow).vm.freshRequestId.2 }) hframes) id
  | topUpCpu target extra => exact congrFun (htopUp target _) id
  | topUpMem target extra => exact congrFun (htopUp target _) id
  | _ => rfl

/-- What the registers hold of the answers. -/
structure Registers (s : State) (es : List (FlowId × Event)) : Prop where
  named : ∀ id reg, asked es id = some reg → (s.reg id reg).isSome
  stored : ∀ id reg v, Ledger.last es id = some (.stored reg v) →
    asked es id = some reg ∧ s.reg id reg = some v

theorem mem_of_asked {es : List (FlowId × Event)} {reg : UInt8} (h : asked es id = some reg) :
    ∃ e ∈ es, e.1 = id := by
  obtain ⟨e, he, hdest⟩ := List.mem_filterMap.mp (Ledger.mem_of_last (Option.join_eq_some_iff.mp h))
  obtain ⟨id', event⟩ := e
  cases event with
  | executed dest =>
    cases hdest
    exact ⟨_, he, rfl⟩
  | stored reg value => cases hdest

namespace Registers

variable {es : List (FlowId × Event)}

/-- What the scheduler has for a flow is stored in the register that the flow named. -/
theorem stores (h : Registers s es) {r : Option Machine.Handed}
    (hreg : ∀ id, (∃ e ∈ es, e.1 = id) → s'.reg id = s.regAfter r id)
    (hasked : ∀ x ∈ r, asked es x.flow = some x.destReg) :
    Registers s' (es ++ Worker.stores r) where
  named := fun id reg hid => by
    rw [asked_stores] at hid
    rw [hreg id (mem_of_asked hid)]
    have hnamed := h.named id reg hid
    cases r with
    | none => exact hnamed
    | some x =>
      unfold State.regAfter
      dsimp only
      split_ifs
      · rfl
      · exact hnamed
  stored := fun id reg v hlast => by
    rw [asked_stores]
    cases r with
    | none =>
      rw [Worker.stores, List.append_nil] at hlast
      rw [hreg id ⟨_, Ledger.mem_of_last hlast, rfl⟩]
      exact h.stored id reg v hlast
    | some x =>
      by_cases hid : id = x.flow
      · subst hid
        rw [Worker.stores, Ledger.last_append_self] at hlast
        cases hlast
        rw [hreg _ (mem_of_asked (hasked x rfl))]
        exact ⟨hasked x rfl, if_pos ⟨rfl, rfl⟩⟩
      · rw [Worker.stores, last_of_ne hid] at hlast
        obtain ⟨hnamed, hvalue⟩ := h.stored id reg v hlast
        rw [hreg id ⟨_, Ledger.mem_of_last hlast, rfl⟩]
        exact ⟨hnamed, (if_neg fun hx => hid hx.1).trans hvalue⟩

/-- An instruction. -/
theorem executes (h : Registers s es) {dest : Option UInt8}
    (hreg : ∀ id', id' ≠ id → s'.reg id' = s.reg id')
    (hdest : ∀ reg, dest = some reg → (s'.reg id reg).isSome) :
    Registers s' (es ++ [(id, .executed dest)]) where
  named := fun id' reg hid' => by
    by_cases hid : id' = id
    · subst hid
      rw [asked_executed_self] at hid'
      exact hdest reg hid'
    · rw [asked_executed_of_ne dest hid] at hid'
      rw [hreg id' hid]
      exact h.named id' reg hid'
  stored := fun id' reg v hlast => by
    by_cases hid : id' = id
    · subst hid
      rw [Ledger.last_append_self] at hlast
      cases hlast
    · rw [last_of_ne hid] at hlast
      rw [hreg id' hid, asked_executed_of_ne dest hid]
      exact h.stored id' reg v hlast

end Registers

/-! ## Modes -/

/-- The VM of the flow waits for the worker. -/
def Mode.Busy : Mode → Prop
  | .charge .. => True
  | .effect .. => True
  | _ => False

/-- A worker answers the flow. -/
def State.Busy (s : State) (id : FlowId) : Prop := ∃ t, s.driven t = some id ∧ (s.modes t).Busy

/-- The flow waits for an answer if the result of its run asks for one. -/
structure Raised (es : List (FlowId × Event)) (id : FlowId) (result : VmResult) : Prop where
  asked : ∀ reg, result.dest = some reg → asked es id = some reg
  settled : result.dest = none → Settled es id

/-- What a thread at a point of its code knows of the flow that it drives. -/
def Mode.Due (es : List (FlowId × Event)) (id : FlowId) : Mode → Prop
  | .idle => Settled es id
  | .slice .. => Settled es id
  | .charge _ result => Raised es id result
  | .effect result p => Raised es id result ∧ p.Returns (Outcome.Addressed result)
  | .call .. => True

theorem Raised.congr {es es' : List (FlowId × Event)} {result : VmResult} (h : Raised es id result)
    (hasked : Worker.asked es' id = Worker.asked es id)
    (hsettled : Settled es id → Settled es' id) :
    Raised es' id result :=
  ⟨fun reg hreg => hasked.trans (h.asked reg hreg), fun hnone => hsettled (h.settled hnone)⟩

theorem Mode.Due.congr {es es' : List (FlowId × Event)} {mode : Mode} (h : mode.Due es id)
    (hasked : asked es' id = asked es id) (hsettled : Settled es id → Settled es' id) :
    mode.Due es' id := by
  cases mode with
  | idle => exact hsettled h
  | slice ran left => exact hsettled h
  | charge ran result => exact Raised.congr h hasked hsettled
  | effect result p => exact ⟨h.1.congr hasked hsettled, h.2⟩
  | call call p => trivial

/-- Every answer is on its way, or in the register that the flow named. -/
structure Answered (s : State) (hands : ℕ → Hand) (es : List (FlowId × Event)) : Prop where
  due : Machine.Due (asked es) (Settled es) s.Busy s.machine
  modes : ∀ t id, s.driven t = some id → (s.modes t).Due es id
  registers : Registers s es
  fresh : ∀ e ∈ es, s.Allocated e.1 ∧ ∀ t, (hands t).box.id ≠ some e.1

/-! ## What can be stored -/

/-- Hops are free to store. -/
def bufferlessPolicy : Policy where
  holds := fun _ _ _ => True
  carries := fun _ _ hop => hop.value.Bufferless
  waits := fun _ _ _ => True
  brings := fun _ _ => True
  sends := fun _ => True

theorem bufferlessPolicy_kept (c : Config) (strict : Prop) : bufferlessPolicy.Kept c strict where
  holds_mono := fun _ _ => trivial
  carries_mono := fun _ h => h
  waits_mono := fun _ _ => trivial
  brings_mono := fun _ _ => trivial
  plain := fun _ => trivial
  native := fun _ _ _ _ _ => trivial
  token := fun _ _ _ _ => trivial
  delegate := fun _ _ _ => trivial
  built := fun _ _ _ _ => ⟨fun _ _ _ _ => trivial, fun _ _ => trivial⟩
  send := fun _ hsent _ quota => by
    cases hsent
    rfl
  stamp := fun _ _ _ _ => rfl
  down := fun _ _ _ _ => rfl
  receive := fun _ _ _ _ => trivial
  ask := fun _ _ _ _ => trivial
  handed := fun _ _ _ _ => trivial
  notice := fun _ _ _ => trivial

theorem bufferless_of_hands (hr : Running c False s) (hu : Upheld bufferlessPolicy s)
    {f : Machine.Frame} (hf : f ∈ s.machine.frames) {r : Machine.Handed}
    (hands : f.hands s.machine.shared = some r) : r.value.Bufferless := by
  intro quota
  cases hu.transit.handed hr.sound hf hands with
  | hop hvalue hcarries hwaits haccepts =>
    rw [hvalue]
    exact hcarries quota
  | deadline hvalue => rw [hvalue]; rfl
  | notice code hvalue hexited => rw [hvalue]; rfl

/-! ## Steps -/

theorem settled_of_unborn {es : List (FlowId × Event)} (h : ∀ e ∈ es, e.1 ≠ id) : Settled es id :=
  fun _ hlast => h _ (Ledger.mem_of_last hlast) rfl

/-- A step leaves a flow alone that does not run. -/
theorem asked_events {ti : ℕ × Input} (h : ∀ id' ∈ executes s ti, id ≠ id')
    (es : List (FlowId × Event)) :
    asked (es ++ events s ti) id = asked es id ∧
      (Settled es id → Settled (es ++ events s ti) id) := by
  have hexecuted : asked (es ++ executed s ti) id = asked es id ∧
      (Settled es id → Settled (es ++ executed s ti) id) := by
    obtain ⟨t, input⟩ := ti
    cases input with
    | code env =>
      unfold executed
      dsimp only
      cases hexec : executes s (t, .code env) with
      | none => simp
      | some id' =>
        have hne := h id' hexec
        exact ⟨asked_executed_of_ne _ hne, fun hs => hs.executed_of_ne hne⟩
    | machine input env => simp [executed]
    | call call => simp [executed]
  rw [events, ← List.append_assoc, asked_stores]
  exact ⟨hexecuted.1, fun hs => (hexecuted.2 hs).stores _⟩

namespace Answered

variable {es : List (FlowId × Event)}

/-- What a frame gives to a flow goes to the register that the flow named. -/
theorem gives (h : Answered s hands es) (hr : Running c False s) {input : Machine.Input} {env : Env}
    (hans : Answerable s (t, .machine input env)) {f : Machine.Frame} {rest : List Machine.Frame}
    (hs : s.machine.threads t = f :: rest) {v : Value}
    (hgives : f.gives s.machine.shared = some (id, v)) :
    ∃ reg, f.hands s.machine.shared = some ⟨id, reg, v⟩ ∧ asked es id = some reg := by
  have hf := Machine.mem_frames_of_cons hs
  refine h.due.hands hf (fun flow he => ?_) (fun r hrecheck => ?_) hgives
  · subst he
    exact (hr.sound.tracked.flows.frames _ hf flow List.mem_cons_self).2
  · exact hans.2 r (Option.bind_eq_some_iff.mpr ⟨f, State.top_of_cons hs, hrecheck⟩)

/-- What the scheduler has for a flow goes to the register that the flow named. -/
theorem named (h : Answered s hands es) (hr : Running c False s) (hu : Upheld bufferlessPolicy s)
    {ti : ℕ × Input} (hans : Answerable s ti) :
    ∀ x ∈ delivered s ti, asked es x.flow = some x.destReg ∧ x.value.Bufferless := by
  intro x hx
  obtain ⟨t, input⟩ := ti
  cases input with
  | code env =>
    unfold delivered at hx
    dsimp only at hx
    split at hx
    · rename_i id result destReg value hrun hmode
      cases hx
      obtain ⟨hraised, hreturns⟩ : Raised es id result ∧ Outcome.Addressed result _ := by
        have hdue := h.modes t id hrun
        rwa [hmode] at hdue
      have hgoing := hr.going t
      unfold Going at hgoing
      rw [hmode] at hgoing
      refine ⟨hraised.asked _ (hreturns.resolve_right nofun).symm, fun quota => ?_⟩
      cases (hgoing id hrun).2 with
      | _ => rfl
    · rename_i id result destReg vm hrun hmode
      obtain ⟨raw, -, rfl⟩ := Option.map_eq_some_iff.mp hx
      obtain ⟨hraised, hreturns⟩ : Raised es id result ∧ Outcome.Addressed result _ := by
        have hdue := h.modes t id hrun
        rwa [hmode] at hdue
      exact ⟨hraised.asked _ (hreturns.resolve_right nofun).symm, fun _ => rfl⟩
    · cases hx
  | machine input env =>
    unfold delivered at hx
    dsimp only at hx
    split at hx
    · obtain ⟨f, htop, hhands⟩ := Option.bind_eq_some_iff.mp hx
      obtain ⟨rest, hs⟩ := State.cons_of_top htop
      obtain ⟨reg, hhands', hasked⟩ := h.gives hr hans hs (Machine.gives_of_hands hhands)
      have hreg : x.destReg = reg :=
        congrArg Machine.Handed.destReg (Option.some_inj.mp (hhands.symm.trans hhands'))
      exact ⟨hreg ▸ hasked, bufferless_of_hands hr hu (Machine.mem_frames_of_cons hs) hhands⟩
    · cases hx
  | call call => cases hx

theorem storable (h : Answered s hands es) {r : Option Machine.Handed}
    (hr : ∀ x ∈ r, asked es x.flow = some x.destReg ∧ x.value.Bufferless) : s.Storable r :=
  fun x hx => ⟨h.registers.named _ _ (hr x hx).1, (hr x hx).2⟩

/-- The machine stays, and the thread turns to another point of its code. -/
theorem stays (h : Answered s hands es) (hc : Continues c False t s s')
    (hthreads : s'.machine.threads = s.machine.threads)
    (hmailboxes : s'.machine.shared.mailboxes = s.machine.shared.mailboxes)
    (hqueues : ∀ flow ∈ s'.machine.shared.queues,
      flow ∈ s.machine.shared.queues ∨ ∀ e ∈ es, e.1 ≠ flow.id)
    (htimers : s'.machine.shared.timers = s.machine.shared.timers) (r : Option Machine.Handed)
    (hmode : ∀ id, s.driven t = some id → (s'.modes t).Due (es ++ stores r) id ∧
      ((s.modes t).Busy → (s'.modes t).Busy ∨ Settled (es ++ stores r) id)) :
    Machine.Due (asked (es ++ stores r)) (Settled (es ++ stores r)) s'.Busy s'.machine ∧
      ∀ id, s'.driven t = some id → (s'.modes t).Due (es ++ stores r) id := by
  have hdriven (r : ℕ) : s'.driven r = s.driven r := State.driven_congr (by rw [hthreads])
  refine ⟨?_, fun id hrun => (hmode id ((hdriven t).symm.trans hrun)).1⟩
  rw [asked_stores]
  refine h.due.congr hthreads hmailboxes (fun flow hflow => ?_) htimers (fun id hs => hs.stores r)
    fun flow _ hbusy => ?_
  · exact (hqueues flow hflow).imp_right fun hnew => (settled_of_unborn hnew).stores r
  · obtain ⟨q, hrun, hbusy⟩ := hbusy
    by_cases hq : q = t
    · subst hq
      exact ((hmode _ hrun).2 hbusy).imp_left fun hb => ⟨q, (hdriven q).trans hrun, hb⟩
    · exact .inl ⟨q, (hdriven q).trans hrun, hc.modes q hq ▸ hbusy⟩

/-- The machine makes a step, and the thread is at the end of its code. -/
theorem moves (h : Answered s hands es) (hh : Handled c s hands) (hc : Continues c False t s s')
    {hands' : ℕ → Hand} (hh' : Handled c s' hands') {input : Machine.Input}
    (hmachine : s'.machine = Machine.step s.machine (t, input)) (hidle : s'.modes t = .idle)
    (r : Option Machine.Handed)
    (hgives : ∀ f rest id v, s.machine.threads t = f :: rest →
      f.gives s.machine.shared = some (id, v) → Settled (es ++ stores r) id)
    (hrun : ∀ flow rest, s.machine.threads t = .run flow :: rest → ∃ result, input = .vm result ∧
      result.Due (asked es) (Settled (es ++ stores r)) s.machine.shared flow.id) :
    Machine.Due (asked (es ++ stores r)) (Settled (es ++ stores r)) s'.Busy s'.machine ∧
      ∀ id, s'.driven t = some id → (s'.modes t).Due (es ++ stores r) id := by
  have hdue : Machine.Due (asked (es ++ stores r)) (Settled (es ++ stores r)) s'.Busy
      s'.machine := by
    rw [asked_stores, hmachine]
    refine h.due.step (t, input) (fun id hs => hs.stores r) hgives hrun
      (fun flow hothers hbusy => ?_)
      ((settled_of_unborn fun e he hid => ?_).stores r)
    · obtain ⟨q, hq, hbusy⟩ := hbusy
      have hne : q ≠ t := by
        rintro rfl
        obtain ⟨flow', rest, hs, hid⟩ := State.driven_eq_some.mp hq
        exact hh.owned.others_not_mem hs hothers (Multiset.mem_singleton.mpr hid.symm)
          (Multiset.mem_singleton_self _)
      refine .inl ⟨q, ?_, hc.modes q hne ▸ hbusy⟩
      exact (State.driven_congr (hc.threads q hne)).trans hq
    · exact absurd (hid ▸ (h.fresh e he).1) (lt_irrefl _)
  refine ⟨hdue, fun id hdriven => ?_⟩
  rw [hidle]
  obtain ⟨flow, rest, hs, rfl⟩ := State.driven_eq_some.mp hdriven
  rcases hdue.frames _ (Machine.mem_frames_of_cons hs) with ⟨q, hq, hbusy⟩ | hsettled
  · rw [hh'.driven_unique hq hdriven, hidle] at hbusy
    exact hbusy.elim
  · exact hsettled

end Answered

/-! ## Runs -/

/-- What a thread has in hand after an operation it had before, or it is new. -/
theorem box_next {h : Hand} {self : Option FlowId} (env : Env) {op : Op}
    (hop : h.Allows c self op) (hbox : (h.next op (s.exec env op).2).box.id = some id) :
    h.box.id = some id ∨ id = s.machine.shared.nextFlowId := by
  cases op with
  | allocate origin => exact .inr (Option.some_inj.mp hbox).symm
  | place id' process =>
    refine .inl ?_
    rw [hop.1]
    exact hbox
  | tables op =>
    cases op with
    | register id' =>
      have hbuilt : h.box = .built id' := hop
      refine .inl ?_
      rw [hbuilt]
      exact hbox
    | inject id' => cases hbox
    | _ => exact .inl hbox
  | alloc flow bytes =>
    refine .inl ?_
    generalize (s.exec env (.alloc flow bytes)).2 = r at hbox
    cases r <;> exact hbox
  | _ => exact .inl hbox

theorem handed_box (hh : Handled c s hands) {ti : ℕ × Input} {r : ℕ}
    (hbox : (handed s hands ti r).box.id = some id) :
    (hands r).box.id = some id ∨ id = s.machine.shared.nextFlowId := by
  obtain ⟨t, input⟩ := ti
  have hupdate {hand : Hand} (hself : hand.box.id = some id →
        (hands t).box.id = some id ∨ id = s.machine.shared.nextFlowId)
      (hbox : (update hands t hand r).box.id = some id) :
      (hands r).box.id = some id ∨ id = s.machine.shared.nextFlowId := by
    by_cases hr : r = t
    · subst hr
      rw [update_self] at hbox
      exact hself hbox
    · rw [update_of_ne hr] at hbox
      exact .inl hbox
  have hempty : Hand.empty.box.id ≠ some id := nofun
  have hfits := hh.fits t
  cases input with
  | code env =>
    cases hmode : s.modes t with
    | effect result p =>
      rw [hmode] at hfits
      cases p with
      | ret outcome =>
        simp only [handed, hmode] at hbox
        exact hupdate (fun he => absurd he hempty) hbox
      | act op k =>
        simp only [handed, hmode] at hbox
        obtain ⟨flow, -, hcarries⟩ := hfits
        exact hupdate (box_next env (Prog.carries_act.mp hcarries).1) hbox
    | call call p =>
      rw [hmode] at hfits
      cases p with
      | ret outcome =>
        simp only [handed, hmode] at hbox
        exact hupdate (fun he => absurd he hempty) hbox
      | act op k =>
        simp only [handed, hmode] at hbox
        exact hupdate (box_next env (Prog.carries_act.mp hfits.2).1) hbox
    | _ =>
      simp only [handed, hmode] at hbox
      exact .inl hbox
  | _ => exact .inl hbox

/-- A thread that does not go on has nothing for a flow. -/
theorem events_stay (hh : Handled c s hands) {ti : ℕ × Input}
    (hcode : ∀ env, ti.2 = .code env →
      (s.driven ti.1 = none ↔ ∀ call p, s.modes ti.1 ≠ .call call p))
    (hmachine : ∀ input env, ti.2 = .machine input env → s.modes ti.1 = .idle →
      (∃ flow, s.top ti.1 = some (.run flow)) ∨ s.top ti.1 = none) : events s ti = [] := by
  obtain ⟨t, input⟩ := ti
  cases input with
  | code env =>
    have hnone : s.driven t = none := (hcode env rfl).mpr (hh.op_of_stay (hcode env rfl)).2
    have hexecutes : executes s (t, .code env) = none := by
      unfold executes
      dsimp only
      split
      · exact hnone
      · rfl
    simp [events, executed, hexecutes, delivered, hnone, stores]
  | machine input env =>
    cases hmode : s.modes t with
    | idle =>
      rcases hmachine input env rfl hmode with ⟨flow, htop⟩ | htop
      · have htop : s.top t = some (.run flow) := htop
        simp [events, executed, delivered, hmode, htop, Machine.Frame.hands, stores]
      · have htop : s.top t = none := htop
        simp [events, executed, delivered, hmode, htop, stores]
    | _ => simp [events, executed, delivered, hmode, stores]
  | call call => rfl

/-- A thread that drives no flow, or is in no slice, executes nothing. -/
theorem events_of_not_slice {env : Env}
    (h : ∀ ran left, s.modes t ≠ .slice ran (left + 1)) :
    events s (t, .code env) = stores (delivered s (t, .code env)) := by
  have hexecutes : executes s (t, .code env) = none := by
    unfold executes
    dsimp only
    split
    · rename_i ran left hmode
      exact absurd hmode (h ran left)
    · rfl
  simp [events, executed, hexecutes]

theorem mem_stores {r : Option Machine.Handed} {e : FlowId × Event} (h : e ∈ stores r) :
    ∃ x ∈ r, e = (x.flow, .stored x.destReg x.value) := by
  cases r with
  | none => cases h
  | some x => exact ⟨x, rfl, List.mem_singleton.mp h⟩

/-- The flow that executes an instruction is driven. -/
theorem driven_of_executes {ti : ℕ × Input} (h : executes s ti = some id) :
    s.driven ti.1 = some id := by
  obtain ⟨t, input⟩ := ti
  cases input with
  | code env =>
    unfold executes at h
    dsimp only at h
    split at h
    · exact h
    · cases h
  | _ => cases h

theorem driven_of_executed {ti : ℕ × Input} {e : FlowId × Event} (h : e ∈ executed s ti) :
    s.driven ti.1 = some e.1 := by
  obtain ⟨t, input⟩ := ti
  cases input with
  | code env =>
    obtain ⟨id, hid, rfl⟩ := Option.map_eq_some_iff.mp (Option.mem_toList.mp h)
    exact driven_of_executes hid
  | _ => cases h

/-- What thread `t` knows after its step. -/
structure Informed (t : ℕ) (s : State) (es : List (FlowId × Event)) : Prop where
  due : Machine.Due (asked es) (Settled es) s.Busy s.machine
  mode : ∀ id, s.driven t = some id → (s.modes t).Due es id
  registers : Registers s es

namespace Answered

variable {es : List (FlowId × Event)}

theorem fresh_step (h : Answered s hands es) (hh : Handled c s hands) (hr : Running c False s)
    (hu : Upheld bufferlessPolicy s) {ti : ℕ × Input} (hans : Answerable s ti) :
    ∀ e ∈ es ++ events s ti, (Worker.step c s ti).Allocated e.1 ∧
      ∀ t, (handed s hands ti t).box.id ≠ some e.1 := by
  have hc := hr.step_continues ti False.elim
  -- a flow that something happens to is there, and in no hand
  have hold : ∀ e ∈ es ++ events s ti, s.Allocated e.1 ∧ ∀ t, (hands t).box.id ≠ some e.1 := by
    intro e he
    rcases List.mem_append.mp he with he | he
    · exact h.fresh e he
    rcases List.mem_append.mp he with he | he
    · have hrun := driven_of_executed he
      exact ⟨(hr.sound.tracked.driven hrun).1, fun r hbox => hh.not_driven hbox _ hrun⟩
    · obtain ⟨x, hx, rfl⟩ := mem_stores he
      obtain ⟨e', he', hid⟩ := mem_of_asked (h.named hr hu hans x hx).1
      have hfresh := h.fresh e' he'
      rwa [hid] at hfresh
  intro e he
  obtain ⟨ha, hbox⟩ := hold e he
  refine ⟨hc.grows.allocated _ ha, fun t ht => ?_⟩
  rcases handed_box hh ht with ht | hnew
  · exact hbox t ht
  · exact absurd (hnew ▸ ha) (lt_irrefl _)

/-- The other threads know what they knew. -/
theorem informs (h : Answered s hands es) (hh : Handled c s hands) (hr : Running c False s)
    (hu : Upheld bufferlessPolicy s) {ti : ℕ × Input} (hans : Answerable s ti)
    (hinformed : Informed ti.1 (Worker.step c s ti) (es ++ events s ti)) :
    Answered (Worker.step c s ti) (handed s hands ti) (es ++ events s ti) where
  due := hinformed.due
  registers := hinformed.registers
  fresh := h.fresh_step hh hr hu hans
  modes := fun r id hrun => by
    by_cases hrt : r = ti.1
    · subst hrt
      exact hinformed.mode id hrun
    · have hc := hr.step_continues ti False.elim
      have hrun : s.driven r = some id := (State.driven_congr (hc.threads r hrt)).symm.trans hrun
      have hne : ∀ id' ∈ executes s ti, id ≠ id' := by
        rintro id' hid' rfl
        exact hrt (hh.driven_unique hrun (driven_of_executes hid'))
      obtain ⟨hasked, hsettled⟩ := asked_events hne es
      rw [hc.modes r hrt]
      exact (h.modes r id hrun).congr hasked hsettled

/-- An instruction. -/
theorem executes (h : Answered s hands es) (hh : Handled c s hands) {env : Env} {ran left : ℕ}
    (hans : Answerable s (t, .code env)) (hrun : s.driven t = some id)
    (hmode : s.modes t = .slice ran (left + 1)) :
    Informed t (s.execute t env id ran left) (es ++ events s (t, .code env)) := by
  have hexecutes : Worker.executes s (t, .code env) = some id := by
    simp only [Worker.executes, hmode, hrun]
  have hevents : events s (t, .code env) =
      [(id, .executed (((s.processes id).vm.step (s.host env)).1.bind VmResult.dest))] := by
    simp [events, executed, hexecutes, delivered, hmode, stores]
  rw [hevents]
  obtain ⟨mode, -, hmodes⟩ := s.execute_modes t env id ran left
  have hexecute := s.execute_mode t env id ran left
  have hmachine : (s.execute t env id ran left).machine = s.machine := by
    unfold State.execute
    dsimp only
    split <;> rfl
  have hprocesses : (s.execute t env id ran left).processes =
      update s.processes id
        { s.processes id with vm := ((s.processes id).vm.step (s.host env)).2 } := by
    unfold State.execute
    dsimp only
    split <;> rfl
  have hdriven (r : ℕ) : (s.execute t env id ran left).driven r = s.driven r :=
    State.driven_congr (by rw [hmachine])
  -- the thread goes on in the slice, or the VM waits
  have hself : (s.execute t env id ran left).Busy id ∧
        ((s.execute t env id ran left).modes t).Due (es ++ [(id, .executed
          (((s.processes id).vm.step (s.host env)).1.bind VmResult.dest))]) id ∨
      Settled (es ++ [(id, .executed
          (((s.processes id).vm.step (s.host env)).1.bind VmResult.dest))]) id ∧
        ((s.execute t env id ran left).modes t).Due (es ++ [(id, .executed
          (((s.processes id).vm.step (s.host env)).1.bind VmResult.dest))]) id := by
    unfold State.Busy
    cases hresult : ((s.processes id).vm.step (s.host env)).1 with
    | none =>
      simp only [hresult] at hexecute
      rw [hexecute]
      exact .inr ⟨settled_executed, settled_executed⟩
    | some result =>
      simp only [hresult] at hexecute
      refine .inl ⟨⟨t, (hdriven t).trans hrun, by rw [hexecute]; trivial⟩, ?_⟩
      rw [hexecute]
      refine ⟨fun reg hreg => ?_, fun hnone => ?_⟩
      · rw [asked_executed_self]
        exact hreg
      · rw [Option.bind_some, hnone]
        exact settled_executed
  obtain ⟨flow, rest, hs, rfl⟩ := State.driven_eq_some.mp hrun
  refine ⟨?_, fun id' hid' => ?_, h.registers.executes (fun id' hne => ?_) fun reg hreg => ?_⟩
  · rw [hmachine]
    refine h.due.runs hh.owned hs (fun id' hne => asked_executed_of_ne _ hne)
      (fun id' hne hsettled => hsettled.executed_of_ne hne) (fun id' hne hbusy => ?_)
      (hself.imp And.left And.left)
    obtain ⟨q, hq, hbusy⟩ := hbusy
    have hqt : q ≠ t := by
      rintro rfl
      exact hne (Option.some_inj.mp (hq.symm.trans hrun))
    refine ⟨q, (hdriven q).trans hq, ?_⟩
    rw [hmodes, update_of_ne hqt]
    exact hbusy
  · obtain rfl : flow.id = id' := Option.some_inj.mp (hrun.symm.trans ((hdriven t).symm.trans hid'))
    exact hself.elim And.right And.right
  · funext reg
    simp only [State.reg, hprocesses, update_of_ne hne]
  · obtain ⟨result, hresult, hdest⟩ := Option.bind_eq_some_iff.mp hreg
    obtain ⟨instr, hnext, hinstr, hvm⟩ := Vm.dest_of_step hresult hdest
    simp only [State.reg, hprocesses, update_self, hvm, Vm.peekReg_fetched]
    exact hans.1 flow.id hexecutes instr hnext reg hinstr

end Answered

namespace Answered

variable {es : List (FlowId × Event)}

/-- The thread turns to another point of its code. -/
theorem turns (h : Answered s hands es) (hc : Continues c False t s s')
    (hmachine : s'.machine = s.machine) (hreg : s'.reg = s.reg)
    (hmode : ∀ id, s.driven t = some id → (s'.modes t).Due es id ∧
      ((s.modes t).Busy → (s'.modes t).Busy ∨ Settled es id)) : Informed t s' es := by
  have hstays := h.stays hc (by rw [hmachine]) (by rw [hmachine])
    (fun flow hq => .inl (by rwa [hmachine] at hq)) (by rw [hmachine]) none
  simp only [Worker.stores, List.append_nil] at hstays
  obtain ⟨hdue, hmode'⟩ := hstays hmode
  refine ⟨hdue, hmode', ?_⟩
  rw [← List.append_nil es]
  exact h.registers.stores (r := none) (fun id _ => by rw [hreg]; rfl) nofun

/-- An operation. -/
theorem exec (h : Answered s hands es) {self : Option FlowId} {env : Env} {op : Op} {mode : Mode}
    (hop : (hands t).Allows c self op)
    (hc : Continues c False t s ((s.exec env op).1.setMode t mode))
    (hmode : ∀ id, s.driven t = some id → mode.Due es id ∧
      ((s.modes t).Busy → mode.Busy ∨ Settled es id)) :
    Informed t ((s.exec env op).1.setMode t mode) es := by
  obtain ⟨hthreads, hmailboxes, htimers, -⟩ := exec_frame s env op
  have hself : ((s.exec env op).1.setMode t mode).modes t = mode := update_self ..
  have hstays := h.stays hc hthreads hmailboxes ?_ htimers none
  · simp only [Worker.stores, List.append_nil, hself] at hstays
    obtain ⟨hdue, hmode'⟩ := hstays hmode
    refine ⟨hdue, fun id hid => by rw [hself]; exact hmode' id hid, ?_⟩
    rw [← List.append_nil es]
    refine h.registers.stores (r := none) (fun id hid => ?_) nofun
    obtain ⟨e, he, rfl⟩ := hid
    -- a flow that is built has asked for nothing
    refine reg_exec s env fun process hplace => (h.fresh e he).2 t ?_
    subst hplace
    rw [hop.1]
    rfl
  · intro flow hflow
    rcases exec_queues s env op with hq | ⟨id, rfl, hq⟩
    · exact .inl (hq ▸ hflow)
    · have hflow : flow ∈ .new id :: s.machine.shared.queues := hq ▸ hflow
      rcases List.mem_cons.mp hflow with rfl | hflow
      · refine .inr fun e he hid => (h.fresh e he).2 t ?_
        have hbox : (hands t).box = .registered id := hop
        rw [hbox, hid]
        rfl
      · exact .inl hflow

/-- The machine goes on after the VM has answered. -/
theorem goesOn (h : Answered s hands es) (hh : Handled c s hands) {hands' : ℕ → Hand} {env : Env}
    {destReg : Option UInt8} {vm : Machine.VmResult}
    (hh' : Handled c ((s.setMode t .idle).goOn t env destReg vm) hands')
    (hc : Continues c False t s ((s.setMode t .idle).goOn t env destReg vm))
    (hrun : s.driven t = some id) {r : Option Machine.Handed}
    (hr : r = destReg.bind fun destReg =>
      (yields s.machine.shared id vm).map fun raw => ⟨id, destReg, refValue raw⟩)
    (hasked : ∀ x ∈ r, asked es x.flow = some x.destReg ∧ x.value.Bufferless)
    (hvm : vm.Due (asked es) (Settled (es ++ Worker.stores r)) s.machine.shared id) :
    Informed t ((s.setMode t .idle).goOn t env destReg vm) (es ++ Worker.stores r) := by
  have hmachine : ((s.setMode t .idle).goOn t env destReg vm).machine =
      Machine.step s.machine (t, .vm vm) :=
    goOn_induct (P := fun s' => s'.machine = Machine.step s.machine (t, .vm vm)) rfl
      fun _ _ _ _ h => h
  have hidle : ((s.setMode t .idle).goOn t env destReg vm).modes t = .idle :=
    goOn_induct (P := fun s' => s'.modes t = .idle)
      (by rw [State.advance_modes]; exact update_self ..) fun _ _ _ _ h => h
  have hreg : ((s.setMode t .idle).goOn t env destReg vm).reg = s.regAfter r := by
    have hadvance : ((s.setMode t .idle).advance t (.vm vm) env).reg = s.reg :=
      reg_advance_driven (s := s.setMode t .idle) env hrun
    have hdriven : (s.setMode t .idle).driven t = some id := hrun
    unfold State.goOn
    simp only [hdriven]
    subst hr
    cases destReg with
    | none => exact hadvance
    | some destReg =>
      cases hyields : yields s.machine.shared id vm with
      | none =>
        have hnone : yields (s.setMode t .idle).machine.shared id vm = none := hyields
        simp only [hnone]
        exact hadvance
      | some raw =>
        have hsome : yields (s.setMode t .idle).machine.shared id vm = some raw := hyields
        simp only [hsome, Option.bind_some, Option.map_some]
        funext id' reg
        obtain ⟨hnamed, hv⟩ := hasked ⟨id, destReg, refValue raw⟩ (by rw [hyields]; rfl)
        rw [reg_resume env (by rw [hadvance]; exact h.registers.named _ _ hnamed) hv, hadvance]
        rfl
  obtain ⟨flow, rest, hs, hid⟩ := State.driven_eq_some.mp hrun
  have hmoves := h.moves hh hc hh' hmachine hidle r ?_ ?_
  · exact ⟨hmoves.1, hmoves.2, h.registers.stores (fun id' _ => congrFun hreg id') fun x hx =>
      (hasked x hx).1⟩
  · intro f rest' id' v hs' hgives
    rw [hs] at hs'
    cases hs'
    cases hgives
  · intro flow' rest' hs'
    rw [hs] at hs'
    cases hs'
    rw [hid]
    exact ⟨vm, rfl, hvm⟩

end Answered

/-- After an effect the flow waits, or goes on with what it asked for. -/
theorem due_of_answers {strict : Prop} {es : List (FlowId × Event)} {result : VmResult}
    {destReg : Option UInt8} {vm : Machine.VmResult}
    (h : Answers strict id s result (.effect destReg vm)) (hraised : Raised es id result)
    {r : Option Machine.Handed}
    (hr : r = destReg.bind fun destReg =>
      (yields s.machine.shared id vm).map fun raw => ⟨id, destReg, refValue raw⟩) :
    vm.Due (asked es) (Settled (es ++ stores r)) s.machine.shared id := by
  have hsettled (hdest : result.dest = none) : Settled (es ++ stores r) id :=
    (hraised.settled hdest).stores r
  have hyielded (destReg : UInt8) (raw : UInt64)
      (hx : r = some ⟨id, destReg, refValue raw⟩) : Settled (es ++ stores r) id := by
    rw [hx]
    exact settled_stored _
  cases h with
  | trap message => trivial
  | complete value => trivial
  | receive destReg timeout matchTag matchRequestId hfree => exact hraised.asked destReg rfl
  | ask destReg timeout hm hcap hready hreply => exact hraised.asked destReg rfl
  | @monitor destReg cap target hcap =>
    by_cases hself : target = id
    · exact .inl hself
    · refine .inr (hyielded destReg (s.machine.shared.monitors.create id target).2 ?_)
      rw [hr, Option.bind_some, yields, if_neg hself]
      rfl
  | @link destReg cap target hcap =>
    by_cases hself : target = id
    · exact .inl hself
    · cases hlink : (s.machine.shared.links.link id target).2 with
      | error e => exact .inr (.inl ⟨e, hlink⟩)
      | ok raw =>
        refine .inr (.inr (hyielded destReg raw ?_))
        rw [hr, Option.bind_some, yields, if_neg hself, hlink]
        rfl
  | _ => exact hsettled rfl

theorem handed_of_goOn {env : Env} {result : VmResult} {destReg : Option UInt8}
    {vm : Machine.VmResult} (hrun : s.driven t = some id)
    (hmode : s.modes t = .effect result (.ret (.effect destReg vm))) :
    delivered s (t, .code env) = destReg.bind fun destReg =>
      (yields s.machine.shared id vm).map fun raw => ⟨id, destReg, refValue raw⟩ := by
  unfold delivered
  simp only [hrun, hmode]
  cases destReg <;> rfl

/-- A call goes on in the machine. -/
theorem Answered.enters {es : List (FlowId × Event)} (h : Answered s hands es)
    (hrun : s.driven t = none) {call : Call} {frames : List Machine.Frame}
    (hreplies : Replies s call (.call frames)) : Informed t (s.enter t frames) es := by
  -- no flow is in a frame of the call
  have hframes : ∀ f ∈ frames, f.Due (asked es) (Settled es) (s.enter t frames).Busy ∧
      ∀ flow, f ≠ .run flow := by
    intro f hf
    cases hreplies with
    | done => cases hf
    | _ =>
      rw [List.mem_singleton.mp hf]
      exact ⟨trivial, nofun⟩
  have hdriven {r : ℕ} (hr : r ≠ t) : (s.enter t frames).driven r = s.driven r :=
    State.driven_congr (update_of_ne hr ..)
  have hmodes {r : ℕ} (hr : r ≠ t) : (s.enter t frames).modes r = s.modes r := update_of_ne hr ..
  refine ⟨⟨fun f hf => ?_, h.due.waiting, h.due.parked, h.due.queues, h.due.timers⟩,
    fun id hid => ?_, ⟨h.registers.named, h.registers.stored⟩⟩
  · rcases State.frames_of_enter hf with hf | hf
    · refine (h.due.frames f hf).congr (fun _ _ => rfl) (fun _ _ hs => hs) fun flow _ hbusy =>
        .inl ?_
      obtain ⟨q, hq, hbusy⟩ := hbusy
      have hqt : q ≠ t := by
        rintro rfl
        rw [hrun] at hq
        cases hq
      exact ⟨q, (hdriven hqt).trans hq, (hmodes hqt).symm ▸ hbusy⟩
    · exact (hframes f hf).1
  · obtain ⟨flow, rest, hs, -⟩ := State.driven_eq_some.mp hid
    have hself : (s.enter t frames).machine.threads t = frames := update_self ..
    have hs : frames = .run flow :: rest := hself.symm.trans hs
    exact absurd rfl ((hframes (.run flow) (hs ▸ List.mem_cons_self)).2 flow)

/-- The thread informs itself. -/
theorem Answered.informed {es : List (FlowId × Event)} (h : Answered s hands es)
    (hh : Handled c s hands) (hr : Running c False s) (hu : Upheld bufferlessPolicy s)
    {ti : ℕ × Input} (hans : Answerable s ti) :
    Informed ti.1 (Worker.step c s ti) (es ++ events s ti) := by
  have hc := hr.step_continues ti False.elim
  have hh' := hh.step hr ti
  have hnamed := h.named hr hu hans
  have hstep := stepped c s ti
  generalize Worker.step c s ti = s' at hc hh' hstep ⊢
  -- nothing happens to a flow
  have hquiet {t : ℕ} {env : Env} (hslice : ∀ ran left, s.modes t ≠ .slice ran (left + 1))
      (hnone : delivered s (t, .code env) = none) : es ++ events s (t, .code env) = es := by
    rw [events_of_not_slice hslice, hnone, stores, List.append_nil]
  cases hstep with
  | stay ti hcode hmachine =>
    rw [events_stay hh hcode hmachine, List.append_nil]
    exact ⟨h.due, h.modes _, h.registers⟩
  | advance t input env hmode hrun hstart =>
    have hdelivered : delivered s (t, .machine input env) =
        (s.top t).bind (Machine.Frame.hands s.machine.shared) := by
      simp only [delivered, hmode]
    have hevents : events s (t, .machine input env) =
        stores ((s.top t).bind (Machine.Frame.hands s.machine.shared)) := by
      simp only [events, executed, List.nil_append, hdelivered]
    rw [hdelivered] at hnamed
    rw [hevents]
    have hmachine : (s.advance t input env).machine = Machine.step s.machine (t, input) := rfl
    have hmoves := h.moves hh hc hh' hmachine (by rw [State.advance_modes]; exact hmode)
      ((s.top t).bind (Machine.Frame.hands s.machine.shared)) ?_ ?_
    · refine ⟨hmoves.1, hmoves.2, h.registers.stores (fun id _ => ?_) fun x hx => (hnamed x hx).1⟩
      exact congrFun (reg_advance env (h.storable hnamed)) id
    · intro f rest id v hs hgives
      obtain ⟨reg, hhands, -⟩ := h.gives hr hans hs hgives
      rw [State.top_of_cons hs, Option.bind_some, hhands]
      exact settled_stored _
    · intro flow rest hs
      rw [State.driven_of_top (State.top_of_cons hs)] at hrun
      cases hrun
  | round t env id hrun hmode hbudget =>
    rw [hquiet (by simp [hmode]) (by simp [delivered, hmode, hrun])]
    refine h.turns hc rfl rfl fun id' hid' => ⟨?_, fun hbusy => ?_⟩
    · have hdue := h.modes t id' hid'
      rw [hmode] at hdue
      simp only [State.setMode, update_self]
      exact hdue
    · rw [hmode] at hbusy
      exact hbusy.elim
  | fail t env id message hrun hfail =>
    have hslice : ∀ ran left, s.modes t ≠ .slice ran (left + 1) := by
      rcases hfail with hmode | ⟨ran, result, e, hmode, -⟩ <;> simp [hmode]
    have hnone : delivered s (t, .code env) = none := by
      rcases hfail with hmode | ⟨ran, result, e, hmode, -⟩ <;> simp [delivered, hmode, hrun]
    rw [events_of_not_slice hslice, hnone]
    exact h.goesOn hh hh' hc hrun rfl (by rintro _ ⟨⟩) trivial
  | expire t env id ran hrun hmode =>
    rw [hquiet (by simp [hmode]) (by simp [delivered, hmode, hrun])]
    refine h.turns hc rfl rfl fun id' hid' => ⟨?_, fun hbusy => ?_⟩
    · have hdue := h.modes t id' hid'
      rw [hmode] at hdue
      simp only [State.setMode, update_self]
      exact ⟨by rintro _ ⟨⟩, fun _ => hdue⟩
    · rw [hmode] at hbusy
      exact hbusy.elim
  | execute t env id ran left hrun hmode => exact h.executes hh hans hrun hmode
  | account t env id ran result quota hrun hmode hquota =>
    rw [hquiet (by simp [hmode]) (by simp [delivered, hmode, hrun])]
    refine h.turns hc rfl (reg_withQuota s id quota) fun id' hid' => ?_
    have hdue := h.modes t id' hid'
    rw [hmode] at hdue
    simp only [State.setMode, update_self]
    exact ⟨⟨hdue, effect_returns id _ result⟩, fun _ => .inl trivial⟩
  | act t env id result op k hrun hmode =>
    rw [hquiet (by simp [hmode]) (by simp [delivered, hmode, hrun])]
    have hfits := hh.fits t
    rw [hmode] at hfits
    obtain ⟨flow, -, hcarries⟩ := hfits
    refine h.exec (Prog.carries_act.mp hcarries).1 hc fun id' hid' => ?_
    have hdue := h.modes t id' hid'
    rw [hmode] at hdue
    exact ⟨⟨hdue.1, hdue.2 _⟩, fun _ => .inl trivial⟩
  | resume t env id result destReg value hrun hmode =>
    have hdelivered : delivered s (t, .code env) = some ⟨id, destReg, value⟩ := by
      simp only [delivered, hmode, hrun]
    rw [events_of_not_slice (by simp [hmode]), hdelivered]
    obtain ⟨hasked, hv⟩ := hnamed _ hdelivered
    have hstays := h.stays hc rfl rfl (fun flow hq => .inl hq) rfl (some ⟨id, destReg, value⟩)
      fun id' hid' => ?_
    · refine ⟨hstays.1, hstays.2, h.registers.stores (fun id' _ => ?_) fun x hx => ?_⟩
      · funext reg
        exact reg_resume (s := s.setMode t .idle) env (h.registers.named _ _ hasked) hv id' reg
      · cases hx
        exact hasked
    · obtain rfl : id = id' := Option.some_inj.mp (hrun.symm.trans hid')
      have hidle : ((s.setMode t .idle).resume env id destReg value).modes t = .idle :=
        update_self ..
      rw [hidle]
      exact ⟨settled_stored ⟨id, destReg, value⟩, fun _ => .inr (settled_stored _)⟩
  | goOn t env id result destReg vm hrun hmode =>
    rw [events_of_not_slice (by simp [hmode])]
    have hdue := h.modes t id hrun
    have hgoing := hr.going t
    unfold Going at hgoing
    rw [hmode] at hdue hgoing
    have hdelivered : delivered s (t, .code env) = _ := handed_of_goOn hrun hmode
    exact h.goesOn hh hh' hc hrun hdelivered hnamed
      (due_of_answers (hgoing id hrun).2 hdue.1 hdelivered)
  | leave t env hmode =>
    have hnone : s.driven t = none := by
      rcases hmode with ⟨result, frames, hmode⟩ | ⟨call, outcome, hmode⟩
      · -- an effect never ends as a call does
        have hgoing := hr.going t
        unfold Going at hgoing
        rw [hmode] at hgoing
        refine Option.eq_none_iff_forall_ne_some.mpr fun id hrun => ?_
        cases (hgoing id hrun).2
      · have hfits := hh.fits t
        rw [hmode] at hfits
        unfold State.driven
        rw [hfits.1]
    rw [hquiet (by rcases hmode with ⟨_, _, hmode⟩ | ⟨_, _, hmode⟩ <;> simp [hmode])
      (by simp [delivered, hnone])]
    exact h.turns hc rfl rfl fun id hid => absurd (hnone.symm.trans hid) (by rintro ⟨⟩)
  | begin t call hmode htop hcall =>
    have hnone : s.driven t = none := by
      unfold State.driven
      rw [htop]
    have hevents : es ++ events s (t, .call call) = es := List.append_nil es
    rw [hevents]
    exact h.turns hc rfl rfl fun id hid => absurd (hnone.symm.trans hid) (by rintro ⟨⟩)
  | serve t env call op k hrun hmode =>
    rw [hquiet (by simp [hmode]) (by simp [delivered, hrun])]
    have hfits := hh.fits t
    rw [hmode] at hfits
    refine h.exec (Prog.carries_act.mp hfits.2).1 hc fun id hid => ?_
    exact absurd (hrun.symm.trans hid) (by rintro ⟨⟩)
  | enter t env call frames hrun hmode =>
    rw [hquiet (by simp [hmode]) (by simp [delivered, hrun])]
    have hgoing := hr.going t
    unfold Going at hgoing
    rw [hmode] at hgoing
    exact h.enters hrun hgoing

/-- **A step.** -/
theorem Answered.step {es : List (FlowId × Event)} (h : Answered s hands es)
    (hh : Handled c s hands) (hr : Running c False s) (hu : Upheld bufferlessPolicy s)
    {ti : ℕ × Input} (hans : Answerable s ti) :
    Answered (Worker.step c s ti) (handed s hands ti) (es ++ events s ti) :=
  h.informs hh hr hu hans (h.informed hh hr hu hans)

theorem answered_init (c : Config) : Answered (State.init c) (fun _ => .empty) [] where
  due := Machine.due_init c.mailbox
  modes := nofun
  registers := ⟨nofun, nofun⟩
  fresh := nofun

/-- What a run keeps. -/
theorem run_answered {sched : List (ℕ × Input)}
    (h : Schedule.Guarded (Worker.step c) Answerable (State.init c) sched) :
    Running c False (run c sched) ∧ ∃ hands, Handled c (run c sched) hands ∧
      Answered (run c sched) hands
        (Schedule.trace (Worker.step c) events (State.init c) sched) := by
  have hinit : Running c False (State.init c) ∧ Upheld bufferlessPolicy (State.init c) ∧
      ∃ hands, Handled c (State.init c) hands ∧ Answered (State.init c) hands [] :=
    ⟨running_init c False, upheld_init _ c, _, handled_init c, answered_init c⟩
  suffices hi : Running c False (run c sched) ∧ Upheld bufferlessPolicy (run c sched) ∧ ∃ hands,
      Handled c (run c sched) hands ∧ Answered (run c sched) hands
        (Schedule.trace (Worker.step c) events (State.init c) sched) from ⟨hi.1, hi.2.2⟩
  refine h.trace_invariant (I := fun s es => Running c False s ∧ Upheld bufferlessPolicy s ∧
    ∃ hands, Handled c s hands ∧ Answered s hands es) (fun s ti es hans hi => ?_) hinit
  · obtain ⟨hr, hu, hands, hh, ha⟩ := hi
    have hkept := bufferlessPolicy_kept c False
    refine ⟨hr.step ti False.elim, hu.step hkept.toSustained hr ti False.elim ?_
      (hkept.invokes hr.sound ti), _, hh.step hr ti, ha.step hh hr hu hans⟩
    exact observes_of_forall (fun _ => trivial) (fun _ _ => trivial) s ti

/-- What came last is the instruction that asked for an answer, or an answer. -/
theorem last_of_asked {es : List (FlowId × Event)} {reg : UInt8} (h : asked es id = some reg) :
    Ledger.last es id = some (.executed (some reg)) ∨
      ∃ reg' v, Ledger.last es id = some (.stored reg' v) := by
  induction es using List.reverseRecOn with
  | nil => cases h
  | append_singleton es e ih =>
    obtain ⟨id', event⟩ := e
    by_cases hid : id = id'
    · subst hid
      rw [Ledger.last_append_self]
      cases event with
      | executed dest =>
        rw [asked_executed_self] at h
        exact .inl (by rw [h])
      | stored reg' v => exact .inr ⟨reg', v, rfl⟩
    · rw [last_of_ne hid]
      refine ih ?_
      cases event with
      | executed dest => rwa [asked_executed_of_ne dest hid] at h
      | stored reg' v =>
        rwa [show es ++ [(id', .stored reg' v)] = es ++ stores (some ⟨id', reg', v⟩)
          from rfl, asked_stores] at h

/-- A flow that goes on: it is about to be queued, it is queued, or a worker runs it. -/
inductive State.Resumed (s : State) : FlowId → Prop
  | woken {flow : Flow Hop} (h : .wake flow ∈ s.machine.frames) : Resumed s flow.id
  | queued {flow : Flow Hop} (h : flow ∈ s.machine.shared.queues) : Resumed s flow.id
  | taken {flow : Flow Hop} (h : .drive flow ∈ s.machine.frames) : Resumed s flow.id
  | runs {t : ℕ} {id : FlowId} (hrun : s.driven t = some id) (hmode : ¬(s.modes t).Busy) :
    Resumed s id

/-- A flow that goes on has what it asked for. -/
theorem Answered.settled {es : List (FlowId × Event)} (h : Answered s hands es)
    (hh : Handled c s hands) (hid : s.Resumed id) : Settled es id := by
  cases hid with
  | woken hf => exact h.due.frames _ hf
  | queued hq => exact h.due.queues _ hq
  | taken hf => exact h.due.frames _ hf
  | @runs t id hrun hbusy =>
    have hdue := h.modes t id hrun
    have hfits := hh.fits t
    cases hmode : s.modes t with
    | call call p =>
      rw [hmode] at hfits
      unfold State.driven at hrun
      rw [hfits.1] at hrun
      cases hrun
    | idle =>
      rw [hmode] at hdue
      exact hdue
    | slice ran left =>
      rw [hmode] at hdue
      exact hdue
    | charge ran result =>
      rw [hmode] at hbusy
      exact absurd trivial hbusy
    | effect result p =>
      rw [hmode] at hbusy
      exact absurd trivial hbusy

/-- Nothing that a flow asked for is dropped. -/
structure AnswersDelivered (s : State) (es : List (FlowId × Event)) : Prop where
  /-- A flow goes on with the answer that its last instruction asked for. -/
  answered : ∀ id reg, s.Resumed id → asked es id = some reg →
    ∃ v, Ledger.last es id = some (.stored reg v)
  /-- The answer is in the register that the instruction named. -/
  held : ∀ id reg v, Ledger.last es id = some (.stored reg v) →
    asked es id = some reg ∧ s.reg id reg = some v
  /-- Nothing is taken out of a mailbox for a flow but to be stored. -/
  taken : ∀ t input env f rest id v, Answerable s (t, .machine input env) → s.modes t = .idle →
    s.machine.threads t = f :: rest → f.gives s.machine.shared = some (id, v) →
    ∃ reg, events s (t, .machine input env) = [(id, .stored reg v)] ∧ asked es id = some reg

/-- **Answers are delivered** as long as every instruction that asks for one names a register of its
frame, and no recheck of an `Ask` takes a flow out of another wait. -/
theorem answers_delivered (c : Config) (sched : List (ℕ × Input))
    (h : Schedule.Guarded (step c) Answerable (State.init c) sched) :
    AnswersDelivered (run c sched) (Schedule.trace (step c) events (State.init c) sched) := by
  obtain ⟨hr, hands, hh, ha⟩ := run_answered h
  refine ⟨fun id reg hid hasked => ?_, ha.registers.stored, ?_⟩
  · rcases last_of_asked hasked with hlast | ⟨reg', v, hlast⟩
    · exact absurd hlast (ha.settled hh hid reg)
    · obtain ⟨hnamed, -⟩ := ha.registers.stored id reg' v hlast
      cases hnamed.symm.trans hasked
      exact ⟨v, hlast⟩
  · intro t input env f rest id v hans hmode hs hgives
    obtain ⟨reg, hhands, hasked⟩ := ha.gives hr hans hs hgives
    refine ⟨reg, ?_, hasked⟩
    simp only [events, executed, List.nil_append, delivered, hmode, State.top_of_cons hs,
      Option.bind_some, hhands, stores]

/-! ## A flow that receives a message -/

def receivesIn (reg : UInt8) : Chunk where
  name := "receivesIn"
  constants := []
  code := [.abc .receive reg 0 0, .onlyImm .jump (-1)]
  functions := [⟨"main", 0, 0, 1⟩]

/-- The host sends the flow a message, which it is about to receive. -/
def driveReceives (reg : UInt8) : List (ℕ × Input) :=
  driveChunk (receivesIn reg) ++
    (1, .call (.send 1 (.message 0 .none 0 7 (.int 3)))) :: codes 1 3 ⟨6⟩ ++ picks 1 2 ⟨6⟩ ++
    codes 0 4 ⟨7⟩

set_option maxRecDepth 4000 in
theorem answers_delivered_received : AnswersDelivered
    (run quantumTwo (driveReceives 0 ++ picks 0 3 ⟨7⟩))
    (Schedule.trace (step quantumTwo) events (State.init quantumTwo)
      (driveReceives 0 ++ picks 0 3 ⟨7⟩)) :=
  answers_delivered quantumTwo _ (by decide)

/-- There is no register 9. The hop is taken, and the flow goes on without it. -/
theorem hop_lost : (receivesIn 9).verifyWith .untrusted = .ok () ∧
    ((run quantumTwo (driveReceives 9)).machine.shared.mailboxes 1).queue.inner.length = 1 ∧
    ((run quantumTwo (driveReceives 9 ++ picks 0 3 ⟨7⟩)).machine.shared.mailboxes 1).queue.inner =
      [] ∧
    ((run quantumTwo (driveReceives 9 ++ picks 0 3 ⟨7⟩)).processes 1).vm.frames.map
      (·.registers) = [[.unit]] ∧
    ¬AnswersDelivered (run quantumTwo (driveReceives 9 ++ picks 0 3 ⟨7⟩))
      (Schedule.trace (step quantumTwo) events (State.init quantumTwo)
        (driveReceives 9 ++ picks 0 3 ⟨7⟩)) := by
  refine ⟨by decide, by decide, by decide, by decide, fun h => ?_⟩
  obtain ⟨hrun, hmode, hasked, hreg⟩ :
      (run quantumTwo (driveReceives 9 ++ picks 0 3 ⟨7⟩)).driven 0 = some 1 ∧
      (run quantumTwo (driveReceives 9 ++ picks 0 3 ⟨7⟩)).modes 0 = .idle ∧
      asked (Schedule.trace (step quantumTwo) events (State.init quantumTwo)
        (driveReceives 9 ++ picks 0 3 ⟨7⟩)) 1 = some 9 ∧
      (run quantumTwo (driveReceives 9 ++ picks 0 3 ⟨7⟩)).reg 1 9 = none :=
    ⟨by decide, rfl, by decide, by decide⟩
  have hresumed : (run quantumTwo (driveReceives 9 ++ picks 0 3 ⟨7⟩)).Resumed 1 :=
    .runs hrun (by rw [hmode]; exact id)
  obtain ⟨v, hlast⟩ := h.answered 1 9 hresumed hasked
  rw [(h.held 1 9 v hlast).2] at hreg
  cases hreg

end Worker

end Byteflow
