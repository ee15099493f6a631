import Byteflow.Scheduler.Capability.Reissue
import Byteflow.Vm.Machine

/-!
# Spawning

`spawn_on` of `scheduler/runtime.rs`, and the part of `finalize_one` that undoes it. A spawn touches
several tables, one lock at a time: it counts the live flows, binds a revocation cell, delegates the
tokens among the arguments, builds the VM, registers the flow and its quota, and queues the flow.
Each critical section is an `Op`. The table of live flows is sharded, and counted shard by shard.
-/

namespace Byteflow

/-- Why a spawn failed. -/
inductive SpawnError
  | badFunction (index : UInt32) (tableSize : ℕ)
  | invalidCapability
  | flowLimit (current : ℕ) (max : UInt32)
  | spawnDenied (message : String)
  | vmInit (message : String)
  deriving DecidableEq

/-- `Display`. -/
def SpawnError.message : SpawnError → String
  | badFunction index tableSize =>
    "spawn: function index " ++ toString index ++ " out of range (table size " ++
      toString tableSize ++ ")"
  | invalidCapability => "spawn: argument capability is unknown or not held"
  | flowLimit current max =>
    "spawn: live flow limit reached (" ++ toString current ++ "/" ++ toString max ++ ")"
  | spawnDenied message => "spawn: " ++ message
  | vmInit message => "vm init failed: " ++ message

def SpawnError.ofFault : Fault → SpawnError
  | .badFunction index tableSize => badFunction index tableSize
  | fault => vmInit fault.message

namespace Spawn

open Function (update)

/-- What the runtime was configured with. -/
structure Config where
  /-- `0` for no limit. -/
  maxFlows : UInt32
  natives : NativeTable
  quota : QuotaConfig

/-- What bytecode brings to a spawn. -/
structure BytecodeSpawn where
  authority : Cap
  cell : CellId
  requestedRights : CapRights
  deriving DecidableEq

/-- The tables of a runtime that a spawn writes to. `swept` lists the flows whose capabilities were
revoked as they were finalized. Nothing reads it. -/
structure Tables where
  caps : CapTable
  directory : List FlowId
  quotas : FlowId → Option FlowQuota
  injector : List FlowId
  nextFlowId : FlowId
  swept : List FlowId

def shards : ℕ := 64

namespace Tables

def new : Tables where
  caps := .new
  directory := []
  quotas := fun _ => none
  injector := []
  nextFlowId := 1
  swept := []

/-- The number of flows in a shard of the directory. -/
def shardLen (s : Tables) (shard : ℕ) : ℕ := s.directory.countP fun id => id % shards = shard

end Tables

/-- The critical sections. -/
inductive Op
  | caps (op : CapTable.Op)
  | shardLen (shard : ℕ)
  | nextFlowId
  /-- The parent's spawn bucket. The answer counts once the other checks have passed. -/
  | checkSpawn
  | register (id : FlowId)
  | insertQuota (id : FlowId) (quota : FlowQuota)
  | inject (id : FlowId)
  | revokeFlow (id : FlowId)
  | removeQuota (id : FlowId)
  | unregister (id : FlowId)

def Op.Result : Op → Type
  | caps op => op.Result
  | shardLen _ => ℕ
  | nextFlowId => FlowId
  | checkSpawn => Bool
  | _ => Unit

/-- What the outside decides in a step: the tokens that are drawn, and what the bucket answers. -/
structure Env where
  draws : List CapId
  token : Bool
  deriving DecidableEq

def Tables.exec (s : Tables) (env : Env) : (op : Op) → Tables × op.Result
  | .caps op =>
    let (caps, r) := s.caps.exec env.draws op
    ({ s with caps := caps }, r)
  | .shardLen shard => (s, s.shardLen shard)
  | .nextFlowId => ({ s with nextFlowId := s.nextFlowId + 1 }, s.nextFlowId)
  | .checkSpawn => (s, env.token)
  | .register id =>
    ({ s with directory := if id ∈ s.directory then s.directory else id :: s.directory }, ())
  | .insertQuota id quota => ({ s with quotas := update s.quotas id (some quota) }, ())
  | .inject id => ({ s with injector := s.injector ++ [id] }, ())
  | .revokeFlow id => ({ s with caps := s.caps.revokeFlow id, swept := id :: s.swept }, ())
  | .removeQuota id => ({ s with quotas := update s.quotas id none }, ())
  | .unregister id => ({ s with directory := s.directory.filter (· ≠ id) }, ())

/-! ## The code -/

abbrev Code := ExceptT SpawnError (Prog Op.Result)

def perform (op : Op) : Code op.Result := ExceptT.lift (Prog.perform op)

def onCaps {α : Type} (p : Prog CapTable.Op.Result α) : Prog Op.Result α :=
  p.rename Op.caps fun _ r => r

/-- The flows in the last `k` shards, on top of `n`. -/
def lenFrom : ℕ → ℕ → Prog Op.Result ℕ
  | 0, n => pure n
  | k + 1, n => do
    let m : ℕ ← Prog.perform (Op.shardLen (shards - (k + 1)))
    lenFrom k (n + m)

/-- `Directory::len`: the shards are counted one after the other. -/
def len : Code ℕ := ExceptT.lift (lenFrom shards 0)

def checkLimit (c : Config) : Code Unit :=
  if 0 < c.maxFlows then do
    let current ← len
    if c.maxFlows.toNat ≤ current then throw (.flowLimit current c.maxFlows) else pure ()
  else pure ()

/-- The self-authority of the new flow. -/
def authority (c : Config) (id : FlowId) (cell : CellId) : Option BytecodeSpawn → Code Cap
  | none => do
    let epoch ← perform (.caps (.readEpoch cell))
    return ⟨.flow id, CapRights.root, some (NativeMask.full c.natives.length), epoch⟩
  | some ctx => do
    let parentEpoch ← perform (.caps (.readEpoch ctx.cell))
    let token ← perform .checkSpawn
    let epoch ← perform (.caps (.readEpoch cell))
    match execSpawnAuthority ctx.authority parentEpoch token id ctx.requestedRights none epoch with
    | .ok cap => pure cap
    | .error e => throw (.spawnDenied e.message)

/-- `grant_caps_in_args`. -/
def grantArgs (parent : Option FlowId) (id : FlowId) (args : List Value) : Code (List Value) :=
  ExceptT.mk do
    match ← onCaps (CapTable.grantCapsInArgs parent id args).run with
    | .ok args => pure (.ok args)
    | .error _ => pure (.error .invalidCapability)

/-- The VM of the new flow, with its quota attached. -/
def buildVm (c : Config) (chunk : Chunk) (function : UInt32) (args : List Value) (authority : Cap)
    (cell : CellId) (nativeEpoch : UInt64) : Except Fault Vm := do
  let gate := NativeGate.fromAuthority authority cell CapTable.nativeCell nativeEpoch
    c.natives.length
  let vm ← Vm.withNativeGate chunk c.natives gate function args
  vm.setQuota (FlowQuota.fromConfig c.quota)

/-- `spawn_on` once the flow has its id and its cell. -/
def spawnBound (c : Config) (chunk : Chunk) (function : UInt32) (args : List Value)
    (parent : Option FlowId) (bytecode : Option BytecodeSpawn) (id : FlowId) (cell : CellId) :
    Code FlowId := do
  let authority ← authority c id cell bytecode
  let args ← grantArgs parent id args
  let nativeEpoch ← perform (.caps (.readEpoch CapTable.nativeCell))
  match buildVm c chunk function args authority cell nativeEpoch with
  | .error fault => throw (.ofFault fault)
  | .ok vm =>
    perform (.register id)
    perform (.insertQuota id (vm.quota.getD (FlowQuota.fromConfig c.quota)))
    perform (.inject id)
    return id

def spawnOn (c : Config) (chunk : Chunk) (function : UInt32) (args : List Value)
    (parent : Option FlowId) (bytecode : Option BytecodeSpawn) : Code FlowId := do
  checkLimit c
  let id ← perform .nextFlowId
  let cell ← perform (.caps (.bindFlow id))
  spawnBound c chunk function args parent bytecode id cell

/-- What `finalize_one` does to these tables. -/
def finalize (id : FlowId) : Prog Op.Result Unit := do
  Prog.perform (Op.revokeFlow id)
  Prog.perform (Op.removeQuota id)
  Prog.perform (Op.unregister id)

end Spawn

end Byteflow
