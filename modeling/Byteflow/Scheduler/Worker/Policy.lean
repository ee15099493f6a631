import Byteflow.Scheduler.Capability.Gate
import Byteflow.Scheduler.Machine.Waits
import Byteflow.Scheduler.Worker.Sound

/-!
# What flows come by

A policy says which values a flow may hold, which hops may be on their way to it, for which hops it
may wait, what it may send and what the embedder may bring along. A value reaches a register through
the program of the flow, through the answer to an effect, as an argument of a spawn, or from a
mailbox. A policy that each of these ways keeps (`Policy.Kept`) is kept by every step; one that each
but the natives keeps (`Policy.Sustained`), by every step whose native keeps it (`Upheld.step`).
-/

namespace Byteflow

/-- The message that a flow sends. -/
def VmResult.message : VmResult → Option Message
  | .send _ message => message.asMessage
  | .ask _ _ message _ => message.asMessage
  | _ => none

theorem VmResult.All.mono {p q : Value → Prop} {result : VmResult} (h : result.All p)
    (hpq : ∀ v, p v → q v) : result.All q := by
  cases result with
  | complete value => exact hpq _ h
  | spawn function args destReg requestedRights => exact fun v hv => hpq v (h v hv)
  | send cap message => exact ⟨hpq _ h.1, hpq _ h.2⟩
  | ask destReg cap message timeout => exact ⟨hpq _ h.1, hpq _ h.2⟩
  | monitor destReg cap => exact hpq _ h
  | link destReg cap => exact hpq _ h
  | delegate destReg src rights native => exact ⟨hpq _ h.1, fun id hid => hpq _ (h.2 id hid)⟩
  | _ => trivial

theorem VmResult.All.of_spawnArgs {p : Value → Prop} {result : VmResult} (h : result.All p) :
    ∀ v ∈ Worker.spawnArgs result, p v := by
  cases result with
  | spawn function args destReg requestedRights => exact h
  | _ => exact List.forall_mem_nil _

namespace Worker

open Function (update)

/-- What may be where. -/
structure Policy where
  /-- The values that a flow may hold. -/
  holds : State → FlowId → Value → Prop
  /-- The hops to a flow. -/
  carries : State → FlowId → Hop → Prop
  /-- The hops that a flow waits for. -/
  waits : State → FlowId → WaitFilter → Prop
  /-- What the embedder brings along. -/
  brings : State → Value → Prop
  /-- The messages that flows send. -/
  sends : Message → Prop

variable {π : Policy} {c : Config} {strict : Prop} {k : Context} {s s' : State} {t : ℕ}

/-- A hop that a flow sends. -/
inductive Sends (π : Policy) (s : State) (id target : FlowId) : Hop → Prop
  | intro {cap : CapId} {m m' : Message} {reply : CapId} (n : ℕ)
      (hcap : s.Holds id target cap) (hready : s.Ready (some id) target m m')
      (hreply : s.Holds target id reply) (hholds : π.holds s id (.cap cap))
      (hmessage : π.holds s id m.toValue) (hsends : π.sends m) :
      Sends π s id target ⟨n, (m'.authenticate id reply).toValue⟩

/-- A hop that the embedder sends, before it is stamped. -/
def Hosts (π : Policy) (s : State) (target : FlowId) (m' : Message) : Prop :=
  ∃ m : Message, π.brings s m.toValue ∧ s.Ready none target m m'

/-- The values of a VM are those that its flow may hold. -/
structure Keeps (π : Policy) (s : State) (id : FlowId) (vm : Vm) : Prop where
  registers : ∀ frame ∈ vm.frames, ∀ v ∈ frame.registers, π.holds s id v
  constants : ∀ v ∈ vm.chunk.constants, π.holds s id v

/-- What the embedder brings along with a call. -/
def brought : Call → List Value
  | .send _ message => [message]
  | call => callArgs call

/-- Every way in which a value or a hop comes into being keeps the policy, but for the natives. -/
structure Policy.Sustained (π : Policy) (c : Config) (strict : Prop) : Prop where
  holds_mono : ∀ {s s' id v}, Grows strict s s' → π.holds s id v → π.holds s' id v
  carries_mono : ∀ {s s' id hop}, Grows strict s s' → π.carries s id hop → π.carries s' id hop
  waits_mono : ∀ {s s' id filter}, Grows strict s s' → π.waits s id filter → π.waits s' id filter
  brings_mono : ∀ {s s' v}, Grows strict s s' → π.brings s v → π.brings s' v
  -- the program of a flow
  plain : ∀ {s id} {v : Value}, v.Plain → π.holds s id v
  -- the answers to its effects
  token : ∀ {s id token entry}, Sound c strict s → s.Given token entry → entry.holder = id →
    (strict → s.Confined id → entry.target = some id) → π.holds s id (.cap token)
  delegate : ∀ {s id src token}, Sound c strict s → s.Moved (some id) id src token →
    π.holds s id (.cap src) → π.holds s id (.cap token)
  built : ∀ {k s id process}, Sound c strict s → Built c strict k s id process →
    (∀ v ∈ k.args, ∀ parent ∈ k.flow, π.holds s parent v) →
    (k.flow = none → ∀ v ∈ k.args, π.brings s v) → Keeps π s id process.vm
  -- hops
  send : ∀ {s id target hop}, Sound c strict s → Sends π s id target hop →
    ⟨.flow id, hop⟩ ∈ s.log.hops → π.carries s target hop
  stamp : ∀ {s target n} {m' : Message}, Sound c strict s → Hosts π s target m' →
    ⟨.host, n, (m'.authenticate FlowId.host CapId.none).toValue⟩ ∈ s.log.hops →
    π.carries s target ⟨n, (m'.authenticate FlowId.host CapId.none).toValue⟩
  down : ∀ {s target owner n monitor code}, Sound c strict s → s.Exited target →
    ⟨.monitor, n, (Message.down monitor target code).toValue⟩ ∈ s.log.hops →
    π.carries s owner ⟨n, (Message.down monitor target code).toValue⟩
  -- what a flow is handed
  receive : ∀ {s id} tag requestId, s.Allocated id → ¬s.Confined id →
    π.waits s id (Machine.receiveFilter tag requestId)
  ask : ∀ {s id target cap} requestId, Sound c strict s → s.Holds id target cap →
    π.holds s id (.cap cap) → π.waits s id (.ask requestId target)
  handed : ∀ {s id} {hop : Hop} {filter}, Sound c strict s → π.carries s id hop →
    π.waits s id filter → filter.accepts hop = true → π.holds s id hop.value
  notice : ∀ {s id target} code, Sound c strict s → s.Exited target →
    π.holds s id (Message.linkedExit target code).toValue

/-- Every way in which a value or a hop comes into being keeps the policy. -/
structure Policy.Kept (π : Policy) (c : Config) (strict : Prop) : Prop
    extends π.Sustained c strict where
  native : ∀ {s id epoch index f tick args v}, Sound c strict s →
    checkNativeGate (s.processes id).vm.nativeGate epoch (s.processes id).vm.natives index =
      .ok () →
    (s.processes id).vm.natives.get index = some f → (∀ a ∈ args, π.holds s id a) →
    f tick args = .ok v → π.holds s id v

/-! ## Values of the VMs -/

theorem Keeps.mono (hk : π.Sustained c strict) {id : FlowId} {vm : Vm} (h : Keeps π s id vm)
    (hgrows : Grows strict s s') : Keeps π s' id vm where
  registers := fun frame hf v hv => hk.holds_mono hgrows (h.registers frame hf v hv)
  constants := fun v hv => hk.holds_mono hgrows (h.constants v hv)

theorem Keeps.congr {id : FlowId} {vm vm' : Vm} (h : Keeps π s id vm)
    (hframes : vm'.frames = vm.frames) (hchunk : vm'.chunk = vm.chunk) : Keeps π s id vm' where
  registers := by
    rw [hframes]
    exact h.registers
  constants := by
    rw [hchunk]
    exact h.constants

theorem Keeps.of_holds {id : FlowId} {vm vm' : Vm} (h : Keeps π s id vm)
    (hholds : vm'.Holds vm.program (π.holds s id)) : Keeps π s id vm' where
  registers := hholds.registers
  constants := by
    have hchunk : vm'.chunk = vm.chunk := congrArg Vm.Program.chunk hholds.program
    rw [hchunk]
    exact h.constants

theorem Keeps.resumeWith {id : FlowId} {vm : Vm} (h : Keeps π s id vm) (host : Host)
    (destReg : UInt8) {value : Value} (hv : π.holds s id value) :
    Keeps π s id (vm.resumeWith host destReg value) :=
  h.of_holds (Vm.Holds.setReg ⟨rfl, h.registers⟩ host destReg hv)

/-- One instruction, if what the native that it invokes returns may be held. What it hands over is
held, too. -/
theorem Keeps.step (hk : π.Sustained c strict) {id : FlowId} (h : Keeps π s id (s.processes id).vm)
    (host : Host) (hnative : ∀ call ∈ (s.processes id).vm.invoked host,
      (∀ a ∈ call.2.2, π.holds s id a) → ∀ v, call.2.1 host.tick call.2.2 = .ok v →
        π.holds s id v) :
    Keeps π s id ((s.processes id).vm.step host).2 ∧
      ∀ r ∈ ((s.processes id).vm.step host).1, r.All (π.holds s id) := by
  have hsupplies : (s.processes id).vm.program.Supplies (π.holds s id) :=
    ⟨fun v => hk.plain, fun index v hv => h.constants v (List.mem_of_getElem? hv)⟩
  have hholds : (s.processes id).vm.Holds (s.processes id).vm.program (π.holds s id) :=
    ⟨rfl, h.registers⟩
  obtain ⟨hnext, hresult⟩ := hholds.step_of_invoked hsupplies host hnative
  exact ⟨h.of_holds hnext, hresult⟩

/-- Every box keeps the policy of the state. -/
def Boxes (π : Policy) (s₀ s : State) : Prop := ∀ id, Keeps π s₀ id (s.processes id).vm

theorem Boxes.setProcess {s₀ : State} (h : Boxes π s₀ s) {id : FlowId} {p : Process}
    (hp : Keeps π s₀ id p.vm) : Boxes π s₀ (s.setProcess id p) := by
  intro id'
  by_cases hid : id' = id
  · subst hid
    simpa only [State.setProcess, Function.update_self] using hp
  · simpa only [State.setProcess, Function.update_of_ne hid] using h id'

theorem Boxes.resume {s₀ : State} (h : Boxes π s₀ s) (env : Env) {id : FlowId} (destReg : UInt8)
    {value : Value} (hv : π.holds s₀ id value) : Boxes π s₀ (s.resume env id destReg value) :=
  h.setProcess ((h id).resumeWith _ destReg hv)

theorem Boxes.withQuota {s₀ : State} (h : Boxes π s₀ s) (id : FlowId) (q : FlowQuota) :
    Boxes π s₀ (s.setProcess id ((s.processes id).withQuota q)) :=
  h.setProcess ((h id).congr rfl rfl)

theorem Boxes.settle {s₀ : State} (h : Boxes π s₀ s) (env : Env) {f : Machine.Frame}
    (hands : ∀ r, f.hands s.machine.shared = some r → π.holds s₀ r.flow r.value) :
    Boxes π s₀ (s.settle env f) :=
  settle_induct (P := Boxes π s₀) h (fun _ id _ _ h => h.withQuota id _)
    (fun _ r hr h => h.resume env r.destReg (hands r hr)) fun _ _ _ h => h

theorem Boxes.topUp {s₀ : State} (h : Boxes π s₀ s) (target : FlowId) (f : FlowQuota → FlowQuota) :
    Boxes π s₀ (s.topUp target f) := by
  unfold State.topUp
  split_ifs
  · exact h.withQuota target _
  · exact h

/-- An operation puts new boxes in their places. -/
theorem Boxes.exec {s₀ : State} (h : Boxes π s₀ s) (env : Env) {op : Op}
    (hplace : ∀ id process, op = .place id process → Keeps π s₀ id process.vm) :
    Boxes π s₀ (s.exec env op).1 := by
  cases op with
  | tables op => cases op <;> exact h
  | place id process => exact h.setProcess (hplace id process rfl)
  | alloc flow bytes =>
    simp only [State.exec]
    split
    · exact h.withQuota flow _
    · exact h
  | free flow bytes => exact h.withQuota flow _
  | freshRequestId flow =>
    have hvm : Keeps π s₀ flow (s.processes flow).vm.freshRequestId.2 := by
      unfold Vm.freshRequestId
      split <;> exact (h flow).congr rfl rfl
    exact h.setProcess hvm
  | topUpCpu target extra => exact h.topUp target _
  | topUpMem target extra => exact h.topUp target _
  | _ => exact h

/-! ## Hops -/

/-- The hops on their way, and the hops that flows wait for, are those of the policy. -/
structure Transit (π : Policy) (s : State) (machine : Machine.State) : Prop where
  carries : Machine.Carries (π.carries s) machine
  waits : Machine.Waits (π.waits s) machine
  stamps : ∀ f ∈ machine.frames, f.Stamps (Hosts π s)
  homed : Machine.Homed machine

theorem Sends.mono (hk : π.Sustained c strict) {id target : FlowId} {hop : Hop}
    (h : Sends π s id target hop) (hgrows : Grows strict s s') : Sends π s' id target hop := by
  cases h with
  | intro n hcap hready hreply hholds hmessage hsends =>
    exact .intro n (hcap.mono hgrows) (hready.mono hgrows) (hreply.mono hgrows)
      (hk.holds_mono hgrows hholds) (hk.holds_mono hgrows hmessage) hsends

theorem Hosts.mono (hk : π.Sustained c strict) {target : FlowId} {m' : Message}
    (h : Hosts π s target m') (hgrows : Grows strict s s') : Hosts π s' target m' :=
  h.imp fun _ hm => ⟨hk.brings_mono hgrows hm.1, hm.2.mono hgrows⟩

theorem Transit.mono (hk : π.Sustained c strict) {machine : Machine.State} (h : Transit π s machine)
    (hgrows : Grows strict s s') : Transit π s' machine where
  carries := h.carries.mono fun _ _ => hk.carries_mono hgrows
  waits := h.waits.mono fun _ _ => hk.waits_mono hgrows
  stamps := fun f hf => (h.stamps f hf).mono fun _ _ hm => hm.mono hk hgrows
  homed := h.homed

/-- The threads and the mailboxes are as they were. -/
theorem Transit.congr {machine machine' : Machine.State} (h : Transit π s machine)
    (hthreads : machine'.threads = machine.threads)
    (hmailboxes : machine'.shared.mailboxes = machine.shared.mailboxes) :
    Transit π s machine' := by
  have hframes : machine'.frames = machine.frames := by
    unfold Machine.State.frames
    rw [hthreads]
  refine ⟨⟨?_, ?_, ?_⟩, ⟨?_, ?_, ?_⟩, ?_, ?_⟩
  · rw [hframes]
    exact h.carries.frames
  · rw [hmailboxes]
    exact h.carries.waiting
  · rw [hmailboxes]
    exact h.carries.queued
  · rw [hframes]
    exact h.waits.frames
  · rw [hmailboxes]
    exact h.waits.waiting
  · rw [hmailboxes]
    exact h.waits.parked
  · rw [hframes]
    exact h.stamps
  · unfold Machine.Homed
    rw [hmailboxes]
    exact h.homed

/-- What a flow is handed: a hop to it that it waits for, `Unit`, or the notice that the target of
its `Ask` has exited. -/
inductive Delivered (π : Policy) (s : State) (r : Machine.Handed) : Prop
  | hop {hop : Hop} {filter : WaitFilter} (hvalue : r.value = hop.value)
      (hcarries : π.carries s r.flow hop) (hwaits : π.waits s r.flow filter)
      (haccepts : filter.accepts hop = true) : Delivered π s r
  | deadline (hvalue : r.value = .unit) : Delivered π s r
  | notice {target : FlowId} (code : UInt64)
      (hvalue : r.value = (Message.linkedExit target code).toValue) (hexited : s.Exited target) :
      Delivered π s r

theorem Transit.handed (hs : Sound c strict s) (h : Transit π s s.machine) {f : Machine.Frame}
    (hf : f ∈ s.machine.frames) {r : Machine.Handed} (hr : f.hands s.machine.shared = some r) :
    Delivered π s r := by
  cases Machine.handed_to h.waits h.homed hf (hs.tracked.honest.frames f hf) hr with
  | @pending flow hop _ hp =>
    -- no flow keeps a hop
    rw [(hs.tracked.flows.frames _ hf flow List.mem_cons_self).2] at hp
    cases hp
  | hop hvalue hwaits haccepts hhop =>
    refine .hop hvalue ?_ hwaits haccepts
    rcases hhop with haimed | hqueued
    · exact h.carries.frames f hf _ _ haimed
    · exact h.carries.queued _ _ hqueued
  | deadline hvalue => exact .deadline hvalue
  | exit code hvalue hexited => exact .notice code hvalue hexited

/-- What a flow is handed is one of the values that it may hold. -/
theorem Delivered.holds (hk : π.Sustained c strict) (hs : Sound c strict s) {r : Machine.Handed}
    (h : Delivered π s r) : π.holds s r.flow r.value := by
  cases h with
  | hop hvalue hcarries hwaits haccepts =>
    rw [hvalue]
    exact hk.handed hs hcarries hwaits haccepts
  | deadline hvalue =>
    rw [hvalue]
    exact hk.plain Value.plain_unit
  | notice code hvalue hexited =>
    rw [hvalue]
    exact hk.notice code hs hexited

/-- What the VM of a running flow may ask the machine for. -/
structure Requests (π : Policy) (s : State) (id : FlowId) (vm : Machine.VmResult) : Prop where
  waits : vm.Waits (π.waits s) id
  sends : ∀ n target hop, vm.hop? id n = some (target, hop) → Sends π s id target hop

/-- A hop is noted down when it is issued. -/
theorem carries_of_aims (hk : π.Sustained c strict) (hs : Sound c strict s)
    (hs' : Sound c strict s') (hgrows : Grows strict s s') (h : Transit π s s.machine)
    {input : Machine.Input}
    (hhops : ∀ issue ∈ Machine.issued s.machine (t, input), issue ∈ s'.log.hops)
    (hvm : ∀ flow rest vm, s.machine.threads t = .run flow :: rest → input = .vm vm →
      Requests π s flow.id vm) {target : FlowId} {hop : Hop}
    (haims : Machine.aims s.machine (t, input) = some (target, hop)) : π.carries s' target hop := by
  unfold Machine.aims at haims
  unfold Machine.issued at hhops
  split at haims
  · rename_i flow rest vm hrun hi
    obtain rfl : input = .vm vm := hi
    rw [hrun] at hhops
    simp only [haims, Option.toList_some, List.map_cons, List.map_nil, List.forall_mem_singleton]
      at hhops
    have hsends := (hvm flow rest vm hrun rfl).sends _ _ _ haims
    exact hk.send hs' (hsends.mono hk hgrows) hhops
  · rename_i event rest hdown
    rw [hdown] at hhops
    cases haims
    have hexited := hs.tracked.honest.frames _ (Machine.mem_frames_of_cons hdown)
    exact hk.down hs' (hgrows.exited _ hexited) (hhops _ List.mem_cons_self)
  · rename_i target' message rest hstamp
    rw [hstamp] at hhops
    cases haims
    have hhosts := h.stamps _ (Machine.mem_frames_of_cons hstamp)
    exact hk.stamp hs' (Hosts.mono hk hhosts hgrows) (hhops _ List.mem_cons_self)
  · cases haims

end Worker

end Byteflow
