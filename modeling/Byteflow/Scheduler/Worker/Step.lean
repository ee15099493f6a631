import Byteflow.Scheduler.Machine.Exited
import Byteflow.Scheduler.Worker.Effect

/-!
# Workers that run VMs

The machine of `Scheduler/Machine` takes what a VM returns as an input. Here the VM runs: a worker
in the loop of `drive_process` takes a slice of the quantum, executes it instruction by
instruction, charges the CPU quota and answers the effect, after which the machine makes the step
that the effect stands for. A value that the machine hands to a flow is written to its registers.

One instruction is one step, and so is each atomic operation of an effect. Left out with the
shutdown flag: the JIT, the metrics, and the budgets of a flow that has exited.
-/

namespace Byteflow

namespace CapTable

/-- The token that an operation made or found, with its entry in the table after it. -/
def given (t : CapTable) : (op : Op) → op.Result → List (CapId × Capability)
  | .insert _, .ok id => (t.entries id).toList.map fun entry => (id, entry)
  | .mintOrReuse .., .ok id => (t.entries id).toList.map fun entry => (id, entry)
  | _, _ => []

end CapTable

namespace Value

/-- The tokens of a value, at any depth. -/
def tokens : Value → List CapId
  | cap id => [id]
  | message _ replyCap _ _ payload => replyCap :: payload.tokens
  | _ => []

end Value

namespace Worker

open Function (update)

/-! ## State -/

namespace Process

/-- A flow that was never spawned. -/
def none : Process where
  vm := ⟨⟨"", [], [], []⟩, [], ⟨false, ⟨[]⟩, 0, 0, 0, 0⟩, [], 0, 1, .none⟩
  authority := ⟨.flow FlowId.host, CapRights.none, .none, 0⟩
  cell := 0

def quota (p : Process) : FlowQuota := p.vm.quota.getD ⟨0, 0, 0⟩

def withQuota (p : Process) (q : FlowQuota) : Process := { p with vm := { p.vm with quota := q } }

end Process

/-- Where a thread is in code that the machine does not have: between two rounds of the loop, in
`Vm::run` with the instructions executed and left, before the charge for them, or in a program. -/
inductive Mode
  | idle
  | slice (ran left : ℕ)
  | charge (ran : ℕ) (result : VmResult)
  | effect (result : VmResult) (p : Prog Op.Result Outcome)
  | call (call : Call) (p : Prog Op.Result Outcome)

/-- What happened so far. Nothing reads it. -/
structure Log where
  /-- For each thread, the instructions executed since it last read a kill signal in
  `drive_process`. -/
  executed : ℕ → ℕ
  /-- Who spawned a flow. -/
  origins : FlowId → Origin
  /-- The flows whose finalization began. -/
  exited : List FlowId
  /-- The tokens that the capability table made or found, with their entries. -/
  given : List (CapId × Capability)
  /-- The tokens that the VMs and the embedder brought along. -/
  seen : List CapId
  /-- The hops that were issued. -/
  hops : List Machine.Issue

structure State where
  machine : Machine.State
  caps : CapTable
  processes : FlowId → Process
  hostNextRequestId : UInt64
  /-- Which flows `shared.quotas` knows. -/
  quotas : FlowId → Bool
  modes : ℕ → Mode
  log : Log

/-- A runtime that has spawned nothing. -/
def State.init (c : Config) : State where
  machine := .init c.mailbox
  caps := .new
  processes := fun _ => .none
  hostNextRequestId := 1
  quotas := fun _ => false
  modes := fun _ => .idle
  log := ⟨fun _ => 0, fun _ => .host, [], [], [], []⟩

/-- What the outside decides in a step: the tokens that are drawn, what a token bucket answers, the
state of the host that a native reads, and whether a stored buffer is the one that is there. -/
structure Env extends Spawn.Env where
  tick : ℕ
  aliased : Bool
  deriving DecidableEq

inductive Input
  /-- The machine makes a step. -/
  | machine (input : Machine.Input) (env : Env)
  /-- The thread goes on in its code. -/
  | code (env : Env)
  /-- The embedder calls, on an idle thread. -/
  | call (call : Call)

namespace State

variable (s : State)

def setMode (t : ℕ) (mode : Mode) : State := { s with modes := update s.modes t mode }

def setProcess (id : FlowId) (p : Process) : State :=
  { s with processes := update s.processes id p }

def host (env : Env) : Host := ⟨env.tick, env.aliased, s.caps.epoch⟩

/-- A value for a register of a flow. -/
def resume (env : Env) (id : FlowId) (destReg : UInt8) (value : Value) : State :=
  s.setProcess id
    { s.processes id with vm := (s.processes id).vm.resumeWith (s.host env) destReg value }

/-- A flow gets its bytes back. -/
def refund (id : FlowId) (bytes : ℕ) : State :=
  s.setProcess id ((s.processes id).withQuota ((s.processes id).quota.free bytes))

/-- The capabilities and the quota of a flow that is finalized. -/
def forget (id : FlowId) : State :=
  { s with caps := s.caps.revokeFlow id, quotas := update s.quotas id false }

/-! ## Atomic operations -/

def onShared (f : Machine.Shared → Machine.Shared) : State :=
  { s with machine := { s.machine with shared := f s.machine.shared } }

def countFlow : State := s.onShared fun σ => { σ with nextFlowId := σ.nextFlowId + 1 }

def execTables (env : Env) : (op : Spawn.Op) → State × op.Result
  | .caps op =>
    let (table, r) := s.caps.exec env.draws op
    ({ s with caps := table, log := { s.log with given := table.given op r ++ s.log.given } }, r)
  | .shardLen shard =>
    (s, (List.range s.machine.shared.nextFlowId).countP fun id =>
      s.machine.shared.directory id && id % Spawn.shards = shard)
  | .nextFlowId => (s.countFlow, s.machine.shared.nextFlowId)
  | .checkSpawn => (s, env.token)
  | .register id =>
    (s.onShared fun σ => { σ with directory := update σ.directory id true }, ())
  | .insertQuota id _ => ({ s with quotas := update s.quotas id true }, ())
  | .inject id => (s.onShared fun σ => { σ with queues := .new id :: σ.queues }, ())
  -- what a finalization does is a step of the machine
  | .revokeFlow _ => (s, ())
  | .removeQuota _ => (s, ())
  | .unregister _ => (s, ())

/-- A change of a quota that `shared.quotas` knows. -/
def topUp (target : FlowId) (f : FlowQuota → FlowQuota) : State :=
  if s.quotas target then
    s.setProcess target ((s.processes target).withQuota (f (s.processes target).quota))
  else s

def exec (env : Env) : (op : Op) → State × op.Result
  | .tables op => s.execTables env op
  | .allocate origin =>
    ({ s.countFlow with log := { s.log with
        origins := update s.log.origins s.machine.shared.nextFlowId origin } },
      s.machine.shared.nextFlowId)
  | .place id process => (s.setProcess id process, ())
  | .target name => (s, s.machine.shared.registry.target name)
  | .live id => (s, s.machine.shared.directory id)
  | .checkSend => (s, env.token)
  | .alloc flow bytes =>
    match (s.processes flow).quota.alloc bytes with
    | .ok quota => (s.setProcess flow ((s.processes flow).withQuota quota), .ok ())
    | .error e => (s, .error e)
  | .free flow bytes => (s.refund flow bytes, ())
  | .freshRequestId flow =>
    let (id, vm) := (s.processes flow).vm.freshRequestId
    (s.setProcess flow { s.processes flow with vm := vm }, id)
  | .hostRequestId =>
    ({ s with hostNextRequestId := s.hostNextRequestId + 1 }, s.hostNextRequestId)
  | .topUpCpu target extra => (s.topUp target fun q => q.topUpCpu extra, ())
  | .topUpMem target extra => (s.topUp target fun q => q.topUpMem extra, ())

end State

/-! ## Steps of the machine -/

/-- The bytes that a sender gets back: the hop was accepted, or its target is gone. -/
def refunds (σ : Machine.Shared) : Machine.Frame → Option (FlowId × ℕ)
  | .send .lookup flow out =>
    if σ.directory out.target then none else some (flow.id, out.hop.value.memorySize)
  | .send .push flow out =>
    match ((σ.mailboxes out.target).push out.hop).2 with
    | .ok _ => some (flow.id, out.hop.value.memorySize)
    | .error _ => none
  | _ => none

/-- The flow whose capabilities and quota `finalize_one` removes. -/
def forgets : Machine.Frame → Option FlowId
  | .fin .revoke cur _ => some cur.id
  | _ => none

/-- The reference that `Monitor` and `Link` yield. -/
def yields (σ : Machine.Shared) (flow : FlowId) : Machine.VmResult → Option UInt64
  | .monitor target =>
    if target = flow then none else some (σ.monitors.create flow target).2
  | .link target =>
    if target = flow then none else (σ.links.link flow target).2.toOption
  | _ => none

/-- The reference as an `Int`. -/
def refValue (raw : UInt64) : Value :=
  .int (if raw.toNat < 2 ^ 63 then raw.toInt64 else Int64.maxValue)

namespace State

variable (s : State)

/-- The frame on top of a thread. -/
def top (t : ℕ) : Option Machine.Frame := (s.machine.threads t).head?

/-- The flow that a worker drives. -/
def driven (t : ℕ) : Option FlowId :=
  match s.top t with
  | some (.run flow) => some flow.id
  | _ => none

/-- What the frame on top does besides what the machine knows of it. -/
def settle (env : Env) (f : Machine.Frame) : State :=
  let s₁ := match refunds s.machine.shared f with
    | some (id, bytes) => s.refund id bytes
    | none => s
  let s₂ := match f.hands s.machine.shared with
    | some r => s₁.resume env r.flow r.destReg r.value
    | none => s₁
  match forgets f with
  | some id => s₂.forget id
  | none => s₂

/-- The machine makes a step. -/
def advance (t : ℕ) (input : Machine.Input) (env : Env) : State :=
  let settled := match s.top t with
    | some f => s.settle env f
    | none => s
  { settled with
    machine := Machine.step s.machine (t, input)
    log := { s.log with
      executed := match s.top t with
        | some (.drive _) => update s.log.executed t 0
        | _ => s.log.executed
      exited := Machine.exits s.machine (t, input) ++ s.log.exited
      hops := s.log.hops ++ Machine.issued s.machine (t, input) } }

/-- The machine makes the step that an effect stands for, and the reference goes to the register. -/
def goOn (t : ℕ) (env : Env) (destReg : Option UInt8) (result : Machine.VmResult) : State :=
  let s' := s.advance t (.vm result) env
  match s.driven t with
  | none => s'
  | some id =>
    match destReg, yields s.machine.shared id result with
    | some destReg, some raw => s'.resume env id destReg (refValue raw)
    | _, _ => s'

/-! ## The loop of `drive_process` -/

/-- What a round of the loop may execute. -/
def share (c : Config) (id : FlowId) : ℕ :=
  min c.quantum.toNat (s.processes id).quota.remainingCpu.toInt.toNat

/-- The start of a round. -/
def round (c : Config) (t : ℕ) (env : Env) (id : FlowId) : State :=
  if (s.processes id).quota.remainingCpu ≤ 0 then
    (s.setMode t .idle).goOn t env none (.trap QuotaError.cpuExhausted.message)
  else s.setMode t (.slice 0 (s.share c id))

/-- The tokens that the registers of a flow hold, and those that it hands to the scheduler. -/
def seenIn (vm : Vm) (result : Option VmResult) : List CapId :=
  (vm.frames.flatMap fun frame => frame.registers.flatMap Value.tokens) ++
    match result with
    | some (.spawn _ args _ _) => args.flatMap Value.tokens
    | _ => []

/-- One instruction. -/
def execute (t : ℕ) (env : Env) (id : FlowId) (ran left : ℕ) : State :=
  let (result, vm) := (s.processes id).vm.step (s.host env)
  let s := s.setProcess id { s.processes id with vm := vm }
  let s := { s with log := { s.log with
    executed := update s.log.executed t (s.log.executed t + 1)
    seen := seenIn vm result ++ s.log.seen } }
  match result with
  | none => s.setMode t (.slice (ran + 1) left)
  | some result => s.setMode t (.charge (ran + 1) result)

/-- The CPU quota pays for the slice, and the effect is answered. -/
def account (c : Config) (t : ℕ) (env : Env) (id : FlowId) (ran : ℕ) (result : VmResult) :
    State :=
  match (s.processes id).quota.chargeCpu (Int64.ofNat ran) with
  | .error e => (s.setMode t .idle).goOn t env none (.trap e.message)
  | .ok quota =>
    let process := (s.processes id).withQuota quota
    (s.setProcess id process).setMode t (.effect result (Worker.effect c id process result))

/-- The end of an effect. -/
def finish (t : ℕ) (env : Env) (id : FlowId) : Outcome → State
  | .resume destReg value => (s.setMode t .idle).resume env id destReg value
  | .effect destReg result => (s.setMode t .idle).goOn t env destReg result
  | .call _ => s.setMode t .idle

/-- The worker goes on in its code. -/
def work (c : Config) (t : ℕ) (env : Env) (id : FlowId) : Mode → State
  | .idle => s.round c t env id
  | .slice ran 0 => s.setMode t (.charge ran .yield)
  | .slice ran (left + 1) => s.execute t env id ran left
  | .charge ran result => s.account c t env id ran result
  | .effect _ (.ret outcome) => s.finish t env id outcome
  | .effect result (.act op k) =>
    (s.exec env op).1.setMode t (.effect result (k (s.exec env op).2))
  | .call .. => s

/-! ## Calls of the embedder -/

/-- The tokens that the embedder brings along. -/
def seenBy : Call → List CapId
  | .spawn chunk _ args => chunk.constants.flatMap Value.tokens ++ args.flatMap Value.tokens
  | .spawnChild chunk _ args _ =>
    chunk.constants.flatMap Value.tokens ++ args.flatMap Value.tokens
  | .send _ message => message.tokens
  | _ => []

/-- A call begins. -/
def begin (c : Config) (t : ℕ) (call : Call) : State :=
  { s.setMode t (.call call (Worker.call c call)) with
    log := { s.log with seen := seenBy call ++ s.log.seen } }

/-- A call goes on in the machine. -/
def enter (t : ℕ) (frames : List Machine.Frame) : State :=
  { s.setMode t .idle with
    machine := { s.machine with threads := update s.machine.threads t frames } }

/-- The thread of the embedder goes on in a call. -/
def serve (t : ℕ) (env : Env) : Mode → State
  | .call _ (.ret (.call frames)) => s.enter t frames
  | .call _ (.ret _) => s.setMode t .idle
  | .call call (.act op k) =>
    (s.exec env op).1.setMode t (.call call (k (s.exec env op).2))
  | _ => s

end State

/-- The operations of an idle thread that are the machine's own. -/
def ofMachine : Machine.Input → Bool
  | .start (.work _) => true
  | .start (.fire _) => true
  | .start (.kill ..) => true
  | .start (.monitor ..) => true
  | .start (.demonitor ..) => true
  | .start (.link ..) => true
  | .start (.unlink ..) => true
  | .start (.unregisterName _) => true
  | _ => false

/-- One step: the thread and its choices. -/
def step (c : Config) (s : State) : ℕ × Input → State
  | (t, .machine input env) =>
    match s.modes t, s.top t with
    | .idle, some (.run _) => s
    | .idle, some _ => s.advance t input env
    | .idle, none => if ofMachine input then s.advance t input env else s
    | _, _ => s
  | (t, .code env) =>
    match s.driven t with
    | some id => s.work c t env id (s.modes t)
    | none => s.serve t env (s.modes t)
  | (t, .call call) =>
    match s.modes t, s.top t with
    | .idle, none => if call.Loaded c.trust then s.begin c t call else s
    | _, _ => s

/-- The state that a schedule leads to. -/
def run (c : Config) (sched : List (ℕ × Input)) : State :=
  Schedule.run (step c) (State.init c) sched

end Worker

end Byteflow
