import Byteflow.Scheduler.Machine.Step
import Byteflow.Scheduler.Spawn.Code

/-!
# Effects

How `drive_process` of `scheduler/worker.rs` answers what the VM asks for, up to the point where
the machine of mailboxes and tables takes over: the resolution of tokens, the quota, the stamp of a
hop, the spawn of a child. Each effect is a program of atomic operations that ends with an
`Outcome`. The calls of the embedder that deal in capabilities (`scheduler/runtime.rs`) are such
programs too, and so is `spawn_child` of the supervisor.
-/

namespace Byteflow

namespace Worker

/-- What the runtime was configured with. -/
structure Config extends Spawn.Config where
  mailbox : MailboxConfig
  quantum : UInt32
  trust : TrustLevel

/-- Who spawned a flow. Bytecode does so with the rights and the arguments of its `Spawn`. -/
inductive Origin
  | host
  | bytecode (parent : FlowId) (requestedRights : CapRights) (args : List Value)
  deriving DecidableEq

/-- What a flow box holds besides what the machine knows of it. -/
structure Process where
  vm : Vm
  authority : Cap
  cell : CellId

/-- The atomic operations of a worker, and of a host thread. -/
inductive Op
  | tables (op : Spawn.Op)
  /-- `next_flow_id`. Nothing reads the origin. -/
  | allocate (origin : Origin)
  /-- The flow box is built. -/
  | place (id : FlowId) (process : Process)
  /-- `registry.target`. -/
  | target (name : String)
  /-- `directory.lookup`. -/
  | live (id : FlowId)
  /-- The sender's bucket. -/
  | checkSend
  | alloc (flow : FlowId) (bytes : ℕ)
  | free (flow : FlowId) (bytes : ℕ)
  | freshRequestId (flow : FlowId)
  | hostRequestId
  | topUpCpu (target : FlowId) (extra : Int64)
  | topUpMem (target : FlowId) (extra : ℕ)

def Op.Result : Op → Type
  | tables op => op.Result
  | allocate _ => FlowId
  | target _ => Option FlowId
  | live _ => Bool
  | checkSend => Bool
  | alloc .. => Except QuotaError Unit
  | freshRequestId _ => UInt64
  | hostRequestId => UInt64
  | _ => Unit

/-- Code of a worker; it fails with the text of an error. -/
abbrev Code := ExceptT String (Prog Op.Result)

/-- What the code of a worker leads to. -/
inductive Outcome
  /-- The VM goes on with a value. -/
  | resume (destReg : UInt8) (value : Value)
  /-- The machine goes on. A reference that it yields goes to the register. -/
  | effect (destReg : Option UInt8) (result : Machine.VmResult)
  /-- A call of the embedder goes on in the machine. -/
  | call (frames : List Machine.Frame)
  deriving DecidableEq

def perform (op : Op) : Code op.Result := ExceptT.lift (Prog.perform op)

/-- The operations on the tables, as a worker's. -/
def onTables {α : Type} (p : Prog Spawn.Op.Result α) : Prog Op.Result α :=
  p.rename Op.tables fun _ r => r

def onCaps {α : Type} (p : Prog CapTable.Op.Result α) : Prog Op.Result α :=
  onTables (Spawn.onCaps p)

/-- An error becomes its text. -/
def orThrow {α ε : Type} (message : ε → String) (p : Prog Op.Result (Except ε α)) : Code α :=
  ExceptT.mk do
    match ← p with
    | .ok a => pure (.ok a)
    | .error e => pure (.error (message e))

def caps {α : Type} (p : CapTable.Code α) : Code α := orThrow CapError.message (onCaps p.run)

def minted (p : Prog CapTable.Op.Result (Except RuntimeError CapId)) : Code CapId :=
  orThrow RuntimeError.message (onCaps p)

def spawning {α : Type} (p : Spawn.Code α) : Code α :=
  orThrow SpawnError.message (onTables p.run)

/-! ## Hops -/

/-- A new token, or `CapError::Unavailable`. -/
def replyCap (recipient sender : FlowId) : Code CapId :=
  orThrow (fun _ => CapError.unavailable.message)
    (onCaps (Prog.perform (CapTable.Op.mintOrReuse recipient sender CapRights.send)))

/-- The message with its request id and payload final, and its reply cap. The stamp itself is the
machine's. -/
def authenticateOutgoingMessage (sender recipient : FlowId) (message : Message) :
    Code (Message × CapId) := do
  let requestId : UInt64 ← if message.requestId = 0 then perform (.freshRequestId sender)
    else pure message.requestId
  let payload ← caps (CapTable.reissueCapsInValue sender recipient message.payload)
  let reply ← replyCap recipient sender
  return ({ message with requestId := requestId, payload := payload }, reply)

def authenticateHostOutgoingMessage (recipient : FlowId) (message : Message) : Code Message := do
  let requestId : UInt64 ← if message.requestId = 0 then do
      let rid : UInt64 ← perform .hostRequestId
      pure (if rid = 0 then 1 else rid)
    else pure message.requestId
  let payload ← caps (CapTable.reissueCapsFromHost recipient message.payload)
  return { message with requestId := requestId, payload := payload }

/-! ## Addresses -/

/-- The record that a held token shows. -/
def resolve (id : CapId) (holder : FlowId) (need : CapRights) : CapTable.Code Capability := do
  liftM (← CapTable.perform (.resolve id holder need))

/-- The flow that a held token addresses. -/
def resolveCapHeld (id : CapId) (holder : FlowId) (need : CapRights) : CapTable.Code FlowId := do
  let entry ← resolve id holder need
  match entry.target with
  | some flow => pure flow
  | none => throw .wrongTarget

/-- `check_link` and `check_monitor`, which differ in the right they ask for. -/
def checkRelation (cap : Cap) (epoch : UInt64) (target : FlowId) (need : CapRights) :
    Except String Unit :=
  if !cap.isValid epoch then .error "capability revoked"
  else if cap.target ≠ .flow target then .error "cap does not target this flow"
  else if !cap.rights.contains need then .error "cap lacks LINK/MONITOR right"
  else .ok ()

def resolveRelationCap (id : CapId) (holder : FlowId) (need : CapRights) : Code FlowId := do
  let entry ← caps (resolve id holder need)
  match entry.target with
  | none => throw CapError.wrongTarget.message
  | some target =>
    match ← perform (.tables (.caps (.flowCell target))) with
    | none => throw CapError.unknown.message
    | some cell =>
      liftM (checkRelation entry.cap (← perform (.tables (.caps (.readEpoch cell)))) target need)
      return target

/-! ## Spawns -/

/-- `spawn_on`, with the flow box. -/
def spawnOn (c : Config) (chunk : Chunk) (function : UInt32) (args : List Value)
    (parent : Option FlowId) (bytecode : Option Spawn.BytecodeSpawn) (origin : Origin) :
    Code FlowId := do
  spawning (Spawn.checkLimit c.toConfig)
  let id : FlowId ← perform (.allocate origin)
  let cell : CellId ← perform (.tables (.caps (.bindFlow id)))
  let authority ← spawning (Spawn.authority c.toConfig id cell bytecode)
  let args ← spawning (Spawn.grantArgs parent id args)
  let nativeEpoch : UInt64 ← perform (.tables (.caps (.readEpoch CapTable.nativeCell)))
  match Spawn.buildVm c.toConfig chunk function args authority cell nativeEpoch with
  | .error fault => throw (SpawnError.ofFault fault).message
  | .ok vm =>
    perform (.place id ⟨vm, authority, cell⟩)
    perform (.tables (.register id))
    perform (.tables (.insertQuota id (vm.quota.getD (FlowQuota.fromConfig c.quota))))
    perform (.tables (.inject id))
    return id

/-! ## The effects -/

/-- `Send` and `Ask` up to the delivery: the hop is resolved, paid for and made ready. -/
def outgoing (sender : FlowId) (targetCap : CapId) (need : CapRights) (message : Message) :
    Code (FlowId × Message × CapId) := do
  let target ← caps (resolveCapHeld targetCap sender need)
  let token : Bool ← perform .checkSend
  if !token then throw QuotaError.sendRateExceeded.message
  let hopCost := message.toValue.memorySize
  orThrow QuotaError.message (Prog.perform (Op.alloc sender hopCost))
  match ← ExceptT.lift (authenticateOutgoingMessage sender target message).run with
  | .ok (message, reply) => return (target, message, reply)
  | .error e =>
    perform (.free sender hopCost)
    throw e

/-- A reference that a register holds. -/
def reference (vm : Vm) (reg : UInt8) : Option UInt64 :=
  match vm.peekReg reg with
  | some (.int n) => if 0 ≤ n then some n.toUInt64 else none
  | _ => none

/-- The answer to what the VM of a flow asks for. -/
def effectCode (c : Config) (id : FlowId) (process : Process) : VmResult → Code Outcome
  | .complete value => return .effect none (.complete value)
  | .trap fault => throw fault.message
  | .yield => return .effect none .yield
  | .sleep delay => return .effect none (.sleep delay)
  | .selfPid destReg => do
    let cap ← minted (CapTable.mint id id CapRights.addressing)
    return .resume destReg (.cap cap)
  | .spawn function args destReg requestedRights => do
    let child ← spawnOn c process.vm.chunk function args (some id)
      (some ⟨process.authority, process.cell, requestedRights⟩)
      (.bytecode id requestedRights args)
    let cap ← minted (CapTable.mint id child CapRights.addressing)
    return .resume destReg (.cap cap)
  | .send targetCap message => do
    match message.asMessage with
    | none => throw "Send invariant broken: hop is not Value::Message"
    | some msg =>
      let (target, msg, reply) ← outgoing id targetCap CapRights.send msg
      return .effect none (.send target msg reply)
  | .receive destReg timeout matchTag matchRequestId => do
    if !process.authority.rights.contains CapRights.recv then
      throw "receive denied: flow lacks RECV right"
    return .effect none (.receive destReg timeout matchTag matchRequestId)
  | .ask destReg targetCap request timeout => do
    match request.asMessage with
    | none => throw "Ask invariant broken: request is not Value::Message"
    | some msg =>
      let (target, msg, reply) ← outgoing id targetCap CapRights.ask msg
      return .effect none (.ask destReg target msg reply timeout)
  | .monitor destReg targetCap => do
    let target ← resolveRelationCap targetCap id CapRights.monitor
    return .effect (some destReg) (.monitor target)
  | .demonitor monitorReg =>
    match reference process.vm monitorReg with
    | some raw => return .effect none (.demonitor raw)
    | none => throw "demonitor: expected Int ref"
  | .link destReg targetCap => do
    let target ← resolveRelationCap targetCap id CapRights.link
    return .effect (some destReg) (.link target)
  | .unlink linkReg =>
    match reference process.vm linkReg with
    | some raw => return .effect none (.unlink raw)
    | none => throw "unlink: expected Int id"
  | .registerName name => do
    if !process.authority.rights.contains CapRights.send then
      throw "register_name denied: flow lacks SEND right"
    if name = "" then throw "register_name: name must be non-empty"
    let cap ← minted (CapTable.mint id id CapRights.addressing)
    return .effect none (.registerName name cap)
  | .whereis destReg name => do
    match ← perform (.target name) with
    | none => return .resume destReg .unit
    | some target =>
      let live : Bool ← perform (.live target)
      if live then
        let cap ← minted (Prog.perform (CapTable.Op.mintOrReuse id target CapRights.send))
        return .resume destReg (.cap cap)
      else return .resume destReg .unit
  | .delegate destReg srcCap wantRights wantNativeCap => do
    let wantNative ← match wantNativeCap with
      | none => pure none
      | some native => do
        let entry ← caps (resolve native id CapRights.native)
        pure entry.cap.nativeMask
    let cap ← caps (CapTable.attenuate srcCap id id wantRights wantNative)
    return .resume destReg (.cap cap)

/-- A failure of the code is one of the flow: `finish_failed`. -/
def effect (c : Config) (id : FlowId) (process : Process) (result : VmResult) :
    Prog Op.Result Outcome := do
  match ← (effectCode c id process result).run with
  | .ok outcome => pure outcome
  | .error message => pure (.effect none (.trap message))

/-! ## Calls of the embedder -/

/-- A call that deals in capabilities, spawns or admits. A spawn comes with the image that the
runtime has at that time. -/
inductive Call
  | spawn (chunk : Chunk) (function : UInt32) (args : List Value)
  /-- `spawn_child` of the supervisor. -/
  | spawnChild (chunk : Chunk) (function : UInt32) (args : List Value) (name : String)
  | send (target : FlowId) (message : Value)
  | mintCap (flow : FlowId)
  | grantCap (holder target : FlowId)
  | mintAdminCap (holder : FlowId)
  | adminKill (holder : FlowId) (cap : CapId) (target : FlowId)
  | adminTopUpCpu (holder : FlowId) (cap : CapId) (target : FlowId) (extra : Int64)
  | adminTopUpMem (holder : FlowId) (cap : CapId) (target : FlowId) (extra : ℕ)
  | registerName (name : String) (cap : CapId)

/-- The chunk is one that the runtime took: `verify_with` accepts it. -/
def Call.Loaded (trust : TrustLevel) : Call → Prop
  | spawn chunk _ _ => chunk.verifyWith trust = .ok ()
  | spawnChild chunk _ _ _ => chunk.verifyWith trust = .ok ()
  | _ => True

instance (trust : TrustLevel) (call : Call) : Decidable (call.Loaded trust) :=
  match call with
  | .spawn .. | .spawnChild .. => inferInstanceAs (Decidable (_ = _))
  | .send .. | .mintCap _ | .grantCap .. | .mintAdminCap _ | .adminKill .. | .adminTopUpCpu ..
  | .adminTopUpMem .. | .registerName .. => inferInstanceAs (Decidable True)

def requireLive (id : FlowId) : Code Unit := do
  let live : Bool ← perform (.live id)
  if !live then throw ("no live flow#" ++ toString id)

/-- `check_admin`. -/
def checkAdmin (cap : Cap) (epoch : UInt64) : Except String Unit :=
  if !cap.isValid epoch then .error "capability revoked"
  else if cap.target ≠ .scheduler then .error "ADMIN requires CapTarget::Scheduler"
  else if !cap.rights.contains CapRights.admin then .error "cap lacks ADMIN right"
  else .ok ()

def requireAdmin (holder : FlowId) (cap : CapId) : Code Unit := do
  let entry ← caps (resolve cap holder CapRights.admin)
  liftM (checkAdmin entry.cap (← perform (.tables (.caps (.readEpoch CapTable.schedulerCell)))))

def callCode (c : Config) : Call → Code Outcome
  | .spawn chunk function args => do
    let _ ← spawnOn c chunk function args none none .host
    return .call []
  | .spawnChild chunk function args name => do
    let child ← spawnOn c chunk function args none none .host
    if name = "" then return .call []
    else
      match ← ExceptT.lift (onCaps (CapTable.mint child child CapRights.addressing)) with
      | .ok cap => return .call [.nameChild child name cap]
      | .error _ => return .call [.kill .lookup child .supervisor .request]
  | .send target message => do
    match message.asMessage with
    | none => return .call []
    | some msg =>
      requireLive target
      let msg ← authenticateHostOutgoingMessage target msg
      return .call [.hostStamp target msg]
  | .mintCap flow => do
    requireLive flow
    let _ ← minted (CapTable.mint flow flow CapRights.addressing)
    return .call []
  | .grantCap holder target => do
    requireLive holder
    requireLive target
    let _ ← minted (CapTable.mint holder target CapRights.addressing)
    return .call []
  | .mintAdminCap holder => do
    requireLive holder
    let epoch : UInt64 ← perform (.tables (.caps (.readEpoch CapTable.schedulerCell)))
    let _ ← minted
      (Prog.perform (CapTable.Op.insert ⟨holder, ⟨.scheduler, CapRights.admin, none, epoch⟩⟩))
    return .call []
  | .adminKill holder cap target => do
    requireAdmin holder cap
    requireLive target
    return .call [.kill .lookup target .killed .request]
  | .adminTopUpCpu holder cap target extra => do
    requireAdmin holder cap
    perform (.topUpCpu target extra)
    return .call []
  | .adminTopUpMem holder cap target extra => do
    requireAdmin holder cap
    perform (.topUpMem target extra)
    return .call []
  | .registerName name cap => do
    match ← perform (.tables (.caps (.lookup cap))) with
    | none => return .call []
    | some entry =>
      match entry.target with
      | none => return .call []
      | some target => return .call [.relate (.registerName name cap target)]

/-- A call that fails does nothing more. -/
def call (c : Config) (call : Call) : Prog Op.Result Outcome := do
  match ← (callCode c call).run with
  | .ok outcome => pure outcome
  | .error _ => pure (.call [])

end Worker

end Byteflow
