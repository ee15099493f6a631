import Byteflow.Scheduler.Machine.Frame
import Byteflow.Scheduler.Mailbox.Named

/-!
# The runtime as a machine

The state of a runtime is what its threads share and the stack of frames of each thread. In a step
one thread runs one critical section: `Frame.next` says which `Action` on the shared state the top
frame performs and which frames the result leads to, `Shared.exec` performs it. Any number of
threads take part, each as a worker, as the timer or as a host thread.

Left out, besides poisoned locks: capabilities and quotas, whose refusals are traps of the VM
here and whose tables a finalization empties in `FinStage.revoke`; the supervisor's own tables, who
kills and spawns as a host thread; the shutdown flag.
The queues of runnable flows are one list from which any entry may be taken.
-/

namespace Byteflow

namespace Machine

open Function (update)

/-! ## Shared state -/

/-- What the threads share. Mailboxes are addressed by their owner, whose id is never reused. -/
structure Shared where
  mailboxes : FlowId → Mailbox Hop
  /-- The flows that are registered. -/
  directory : FlowId → Bool
  nextFlowId : FlowId
  /-- The name of the next hop. -/
  nextHop : ℕ
  killSignals : FlowId → Option FlowExitReason
  waitingSendAt : FlowId → Option FlowId
  askWaits : AskWaitIndex
  monitors : MonitorTable
  links : LinkTable
  registry : Registry
  timers : List TimerPayload
  queues : List (Flow Hop)

/-- A runtime that has spawned nothing. -/
def Shared.init (config : MailboxConfig) : Shared where
  mailboxes := fun _ => .new config
  directory := fun _ => false
  nextFlowId := 1
  nextHop := 0
  killSignals := fun _ => none
  waitingSendAt := fun _ => none
  askWaits := .new
  monitors := .new
  links := .new
  registry := .new
  timers := []
  queues := []

/-- One critical section, with the frames that follow each result. -/
inductive Action
  | nop (k : List Frame)
  /-- Build a hop. -/
  | issue (value : Value) (k : Hop → List Frame)
  /-- Spawn: a new flow with its mailbox in the directory. -/
  | register (k : Flow Hop → List Frame)
  | unregister (id : FlowId) (k : List Frame)
  | lookup (id : FlowId) (k : Bool → List Frame)
  | mail (id : FlowId) (op : Mailbox.Op Hop) (k : op.Result → List Frame)
  | killSet (id : FlowId) (reason : FlowExitReason) (k : List Frame)
  | killTake (id : FlowId) (k : Option FlowExitReason → List Frame)
  | sendAtInsert (sender target : FlowId) (k : List Frame)
  | sendAtRemove (sender : FlowId) (k : List Frame)
  | sendAtGet (sender : FlowId) (k : Option FlowId → List Frame)
  | askInsert (asker target : FlowId) (requestId : UInt64) (k : Bool → List Frame)
  | askRemove (asker : FlowId) (k : List Frame)
  | askTake (target : FlowId) (k : List FlowId → List Frame)
  | monitorCreate (owner target : FlowId) (k : UInt64 → List Frame)
  | monitorRemove (owner : FlowId) (monitor : UInt64)
      (k : Except LifecycleError Unit → List Frame)
  | monitorRemoveOwned (owner : FlowId) (k : List Frame)
  | monitorNotify (target : FlowId) (reason : FlowExitReason) (k : List DownEvent → List Frame)
  | linkCreate (a b : FlowId) (k : Except LifecycleError UInt64 → List Frame)
  | linkRemove (owner : FlowId) (link : UInt64) (k : Except LifecycleError Unit → List Frame)
  | linkRemoveAll (target : FlowId) (k : List FlowId → List Frame)
  | nameRegister (name : String) (cap : CapId) (flow : FlowId)
      (k : Except LifecycleError Unit → List Frame)
  | nameUnregister (name : String) (k : List Frame)
  | nameSweep (flow : FlowId) (k : List Frame)
  | schedule (entry : TimerPayload) (k : List Frame)
  | expire (n : ℕ) (k : TimerPayload → List Frame)
  | queue (flow : Flow Hop) (k : List Frame)
  | steal (n : ℕ) (k : Flow Hop → List Frame)

/-- The shared state after an action, and the frames its result leads to. -/
def Shared.exec (σ : Shared) : Action → Shared × List Frame
  | .nop k => (σ, k)
  | .issue value k => ({ σ with nextHop := σ.nextHop + 1 }, k ⟨σ.nextHop, value⟩)
  | .register k =>
    ({ σ with
        directory := update σ.directory σ.nextFlowId true
        nextFlowId := σ.nextFlowId + 1 },
      k (.new σ.nextFlowId))
  | .unregister id k => ({ σ with directory := update σ.directory id false }, k)
  | .lookup id k => (σ, k (σ.directory id))
  | .mail id op k =>
    ({ σ with mailboxes := update σ.mailboxes id ((σ.mailboxes id).after op) },
      k ((σ.mailboxes id).result op))
  | .killSet id reason k => ({ σ with killSignals := update σ.killSignals id (some reason) }, k)
  | .killTake id k =>
    ({ σ with killSignals := update σ.killSignals id none }, k (σ.killSignals id))
  | .sendAtInsert sender target k =>
    ({ σ with waitingSendAt := update σ.waitingSendAt sender (some target) }, k)
  | .sendAtRemove sender k => ({ σ with waitingSendAt := update σ.waitingSendAt sender none }, k)
  | .sendAtGet sender k => (σ, k (σ.waitingSendAt sender))
  | .askInsert asker target requestId k =>
    let (askWaits, inserted) := σ.askWaits.insert asker target requestId
    ({ σ with askWaits := askWaits }, k inserted)
  | .askRemove asker k => ({ σ with askWaits := σ.askWaits.removeAsker asker }, k)
  | .askTake target k =>
    let (askWaits, askers) := σ.askWaits.takeWaitersOf target
    ({ σ with askWaits := askWaits }, k askers)
  | .monitorCreate owner target k =>
    let (monitors, monitor) := σ.monitors.create owner target
    ({ σ with monitors := monitors }, k monitor)
  | .monitorRemove owner monitor k =>
    let (monitors, removed) := σ.monitors.removeOwned owner monitor
    ({ σ with monitors := monitors }, k removed)
  | .monitorRemoveOwned owner k => ({ σ with monitors := σ.monitors.removeOwnedBy owner }, k)
  | .monitorNotify target reason k =>
    let (monitors, events) := σ.monitors.notifyTargetExit target reason
    ({ σ with monitors := monitors }, k events)
  | .linkCreate a b k =>
    let (links, id) := σ.links.link a b
    ({ σ with links := links }, k id)
  | .linkRemove owner link k =>
    let (links, removed) := σ.links.unlinkOwned owner link
    ({ σ with links := links }, k removed)
  | .linkRemoveAll target k =>
    let (links, peers) := σ.links.removeLinksOf target
    ({ σ with links := links }, k peers)
  | .nameRegister name cap flow k =>
    let (registry, registered) := σ.registry.register name cap flow
    ({ σ with registry := registry }, k registered)
  | .nameUnregister name k => ({ σ with registry := (σ.registry.unregister name).1 }, k)
  | .nameSweep flow k => ({ σ with registry := σ.registry.unregisterFlow flow }, k)
  | .schedule entry k => ({ σ with timers := entry :: σ.timers }, k)
  | .expire n k =>
    match σ.timers[n]? with
    | some entry => ({ σ with timers := σ.timers.eraseIdx n }, k entry)
    | none => (σ, [])
  | .queue flow k => ({ σ with queues := flow :: σ.queues }, k)
  | .steal n k =>
    match σ.queues[n]? with
    | some flow => ({ σ with queues := σ.queues.eraseIdx n }, k flow)
    | none => (σ, [])

/-! ## Control -/

/-- `finalize_flow`. -/
def finalize (flow : Flow Hop) (outcome : FlowOutcome) (reason : FlowExitReason) : List Frame :=
  [.fin .killTake ⟨flow, outcome, reason⟩ []]

/-- `finish_failed`. -/
def finishFailed (flow : Flow Hop) (message : String) : List Frame :=
  finalize flow (.failed message) .fault

/-- The work list is a stack. -/
def finNext (work : List PendingExit) : List Frame :=
  match work.getLast? with
  | some cur => [.fin .killTake cur work.dropLast]
  | none => []

/-- The sender after its hop was accepted. -/
def delivered (flow : Flow Hop) (out : Outgoing) : List Frame :=
  match out.pending with
  | .fireAndForget => [.run flow]
  | .ask destReg requestId target timeout =>
    [.ask .reply flow ⟨destReg, requestId, target, timeout⟩]

def receiveFilter : Option UInt16 → Option UInt64 → WaitFilter
  | some tag, some rid => .taggedCorrelation tag rid
  | some tag, none => .tag tag
  | none, some rid => .correlation rid none
  | none, none => .any

/-- The effect that the VM raised, up to the next critical section. -/
def effect (flow : Flow Hop) : VmResult → Action
  | .complete value => .nop (finalize flow (.completed value) .normal)
  | .trap message => .nop (finishFailed flow message)
  | .yield => .nop [.wake flow]
  | .sleep _ => .schedule (.wakeSleeper flow) []
  | .resumed => .nop [.run flow]
  | .spawn => .register fun child => [.wake child, .run flow]
  | .send target message replyCap =>
    let stamped := message.authenticate flow.id replyCap
    .issue stamped.toValue fun hop => [.send .lookup flow ⟨target, hop, .fireAndForget⟩]
  | .receive destReg timeout matchTag matchRequestId =>
    .nop [.receive { flow with lastReceiveDest := some destReg }
      (receiveFilter matchTag matchRequestId) timeout]
  | .ask destReg target request replyCap timeout =>
    let stamped := request.authenticate flow.id replyCap
    .issue stamped.toValue fun hop =>
      [.send .lookup { flow with lastReceiveDest := some destReg }
        ⟨target, hop, .ask destReg stamped.requestId target timeout⟩]
  | .monitor target =>
    if target = flow.id then .nop (finishFailed flow "cannot monitor self")
    else .monitorCreate flow.id target fun _ => [.run flow]
  | .demonitor monitor => .monitorRemove flow.id monitor fun
      | .ok _ => [.run flow]
      | .error e => finishFailed flow e.message
  | .link target =>
    if target = flow.id then .nop (finishFailed flow "cannot link self")
    else .linkCreate flow.id target fun
      | .ok _ => [.run flow]
      | .error e => finishFailed flow e.message
  | .unlink link => .linkRemove flow.id link fun
      | .ok _ => [.run flow]
      | .error e => finishFailed flow e.message
  | .registerName name cap =>
    if name = "" then .nop (finishFailed flow "register_name: name must be non-empty")
    else .nameRegister name cap flow.id fun
      | .ok _ => [.run flow]
      | .error e => finishFailed flow e.message

/-- What `extract_for_kill` returns to its caller. -/
def KillAfter.resume (reason : FlowExitReason) : KillAfter → Option (Flow Hop) → List Frame
  | .request, some flow => finalize flow (.failed ("killed (" ++ reason.name ++ ")")) reason
  | .request, none => []
  | .link cur peers work, some flow =>
    [.fin (.peers peers) cur (work ++ [⟨flow, .failed "linked exit (link)", .link⟩])]
  | .link cur peers work, none => [.fin (.peers peers) cur work]

def SendStage.next (flow : Flow Hop) (out : Outgoing) : SendStage → Action
  | .lookup => .lookup out.target fun live =>
      if live then [.send .push flow out] else delivered flow out
  | .push => .mail out.target (.push out.hop) fun
      | .ok (.handoff receiver) => .forget receiver :: delivered flow out
      | .ok _ => delivered flow out
      | .error _ => [.send .index { flow with pendingSend := some out.pending } out]
  | .index => .sendAtInsert flow.id out.target [.send .target flow out]
  | .target => .lookup out.target fun live => [.send (if live then .park else .gone) flow out]
  | .park => .mail out.target (.parkSender flow out.hop) fun
      | .parked => []
      | .closed flow => [.send .gone flow out]
  | .gone => .sendAtRemove flow.id (finishFailed flow "send target gone")

def AskStage.next (flow : Flow Hop) (wait : AskWait) : AskStage → Action
  | .reply => .mail flow.id (.tryPopFilter wait.filter) fun
      | some _ => [.run flow]
      | none => [.ask .insert flow wait]
  | .insert => .askInsert flow.id wait.target wait.requestId fun inserted =>
      if inserted then [.ask .park flow wait]
      else finishFailed flow "duplicate in-flight request_id"
  | .park => .mail flow.id (.parkFilter flow wait.filter) fun
      | .ok epoch => [.askRecheck flow.id wait epoch]
      | .error flow => [.forget { flow with pendingMessage := none }]

def FinStage.next (i : Input) (cur : PendingExit) (work : List PendingExit) : FinStage → Action
  | .killTake =>
    if cur.id = FlowId.host then .nop (finNext work)
    else .killTake cur.id fun _ => [.fin .sendAtRemove cur work]
  | .sendAtRemove => .sendAtRemove cur.id [.fin .askRemove cur work]
  | .askRemove => .askRemove cur.id [.fin .lookup cur work]
  | .lookup => .lookup cur.id fun live => [.fin (if live then .close else .waiters) cur work]
  | .close => .mail cur.id .close fun senders => [.fin (.senders senders) cur work]
  | .senders [] => .nop [.fin .waiters cur work]
  | .senders (sender :: rest) => .sendAtRemove sender.id
      [.fin (.senders rest) cur (work ++
        [⟨sender, .failed ("send target flow#" ++ toString cur.id ++ " exited"), .fault⟩])]
  | .waiters => .askTake cur.id fun askers => [.fin (.wake askers) cur work]
  | .wake [] => .nop [.fin .revoke cur work]
  | .wake (asker :: askers) =>
    -- the askers come out of a hash set, in any order
    match i with
    | .pick n =>
      match (asker :: askers)[n]? with
      | some a => .lookup a fun live =>
          if live then [.fin (.wakeTake a ((asker :: askers).eraseIdx n)) cur work]
          else [.fin (.wake ((asker :: askers).eraseIdx n)) cur work]
      | none => .nop [.fin (.wake (asker :: askers)) cur work]
    | _ => .nop [.fin (.wake (asker :: askers)) cur work]
  | .wakeTake asker askers => .mail asker .takeParked fun
      | some flow => [.wake flow, .fin (.wake askers) cur work]
      | none => [.fin (.wake askers) cur work]
  | .revoke => .nop [.fin .unregister cur work]
  | .unregister => .unregister cur.id [.fin .owned cur work]
  | .owned => .monitorRemoveOwned cur.id [.fin .names cur work]
  | .names => .nameSweep cur.id [.fin .notify cur work]
  | .notify => .monitorNotify cur.id cur.reason fun events => [.fin (.downs events) cur work]
  | .downs [] => .nop [.fin .links cur work]
  | .downs (event :: events) => .nop [.down event, .fin (.downs events) cur work]
  | .links => .linkRemoveAll cur.id fun peers =>
      if cur.reason.isAbnormal then [.fin (.peers peers) cur work] else finNext work
  | .peers [] => .nop (finNext work)
  | .peers (peer :: rest) =>
    -- the links come out of a hash table, in any order
    match i with
    | .pick n =>
      match (peer :: rest)[n]? with
      | some p => .nop [.kill .lookup p .link (.link cur ((peer :: rest).eraseIdx n) work)]
      | none => .nop [.fin (.peers (peer :: rest)) cur work]
    | _ => .nop [.fin (.peers (peer :: rest)) cur work]

def KillStage.next (id : FlowId) (reason : FlowExitReason) (next : KillAfter) :
    KillStage → Action
  | .lookup => .lookup id fun live =>
      if live then [.kill .set id reason next] else next.resume reason none
  | .set => .killSet id reason [.kill .takeParked id reason next]
  | .takeParked => .mail id .takeParked fun
      | some flow => next.resume reason (some flow)
      | none => [.kill .sendAtGet id reason next]
  | .sendAtGet => .sendAtGet id fun
      | some target => [.kill (.targetLookup target) id reason next]
      | none => next.resume reason none
  | .targetLookup target => .lookup target fun live =>
      if live then [.kill (.takeSender target) id reason next] else next.resume reason none
  | .takeSender target => .mail target (.takeWaitingSender id) fun
      | some sender => [.kill (.sendAtRemove sender) id reason next]
      | none => next.resume reason none
  | .sendAtRemove sender => .sendAtRemove id (next.resume reason (some sender))

/-- The flow that must be live first. -/
def Relation.first : Relation → FlowId
  | .monitor owner _ => owner
  | .demonitor owner _ => owner
  | .link a _ => a
  | .unlink owner _ => owner
  | .registerName _ _ target => target

/-- The flow that must be live second, if the call names one. -/
def Relation.second : Relation → Option FlowId
  | .monitor _ target => some target
  | .link _ b => some b
  | _ => none

def Relation.make : Relation → Action
  | .monitor owner target => .monitorCreate owner target fun ref =>
      [.monitorRecheck ref owner target]
  | .demonitor owner ref => .monitorRemove owner ref fun _ => []
  | .link a b => .linkCreate a b fun _ => []
  | .unlink owner ref => .linkRemove owner ref fun _ => []
  | .registerName name cap target => .nameRegister name cap target fun _ => []

/-- What the frame on top of a stack does. -/
def Frame.next (i : Input) : Frame → Action
  | .drive flow => .killTake flow.id fun
      | some reason => finalize flow (.failed ("linked exit (" ++ reason.name ++ ")")) reason
      | none => [.run { flow with pendingMessage := none }]
  | .run flow =>
    match i with
    | .vm result => effect flow result
    | _ => .nop [.run flow]
  | .send stage flow out => stage.next flow out
  | .receive flow filter timeout => .mail flow.id (.tryPopFilter filter) fun
      | some _ => [.admitWaitingOn flow]
      | none => [.park flow filter timeout]
  | .admitWaitingOn flow => .mail flow.id .admitWaitingSender fun
      | some sender => [.admitted sender, .run flow]
      | none => [.run flow]
  | .admitted sender => .sendAtRemove sender.id
      (match sender.pendingSend with
      | some (.ask destReg requestId target timeout) =>
        [.ask .insert { sender with pendingSend := none } ⟨destReg, requestId, target, timeout⟩]
      | _ => [.wake { sender with pendingSend := none }])
  | .park flow filter timeout => .mail flow.id (.parkFilter flow filter) fun
      | .ok epoch => if timeout.isSome then [.arm flow.id epoch] else []
      | .error flow => [.wake { flow with pendingMessage := none }]
  | .arm pid epoch => .schedule (.wakeReceiver pid epoch) []
  | .ask stage flow wait => stage.next flow wait
  | .askRecheck asker wait epoch => .lookup wait.target fun live =>
      if live then (if wait.timeout.isSome then [.arm asker epoch] else [])
      else [.askTake asker wait]
  | .askTake asker _ => .mail asker .takeParked fun
      | some flow => [.forget flow]
      | none => []
  | .forget flow => .askRemove flow.id [.wake flow]
  | .wake flow => .queue flow []
  | .fire pid epoch => .mail pid (.takeParkedAt epoch) fun
      | some flow => [.forget flow]
      | none => []
  | .fin stage cur work => stage.next i cur work
  | .kill stage id reason next => stage.next id reason next
  | .down event =>
    .issue (Message.down event.monitor event.target event.reason.asU64).toValue fun hop =>
      [.downLookup event.owner hop]
  | .downLookup owner hop => .lookup owner fun live => if live then [.downPush owner hop] else []
  | .downPush owner hop => .mail owner (.pushSystem hop) fun
      | .handoff receiver => [.forget receiver]
      | _ => []
  | .hostLookup target message => .lookup target fun live =>
      if live then [.hostStamp target message] else []
  | .hostStamp target message =>
    .issue (message.authenticate FlowId.host CapId.none).toValue fun hop => [.hostPush target hop]
  | .hostPush target hop => .mail target (.push hop) fun
      | .ok (.handoff receiver) => [.forget receiver]
      | _ => []
  | .relate relation => .lookup relation.first fun live =>
      if live then
        [if relation.second.isSome then .relateTarget relation else .relateMake relation]
      else []
  | .relateTarget relation => .lookup (relation.second.getD FlowId.host) fun live =>
      if live then [.relateMake relation] else []
  | .relateMake relation => relation.make
  | .nameChild child name cap => .nameRegister name cap child fun
      | .ok _ => []
      | .error _ => [.kill .lookup child .supervisor .request]
  | .monitorRecheck monitor owner target => .lookup target fun live =>
      if live then [] else [.monitorDrop monitor owner target]
  | .monitorDrop monitor owner target => .monitorRemove owner monitor fun _ =>
      [.down ⟨monitor, owner, target, .fault⟩]

/-- What a thread without work does. -/
def Operation.start : Operation → Action
  | .work n => .steal n fun flow => [.drive flow]
  | .fire n => .expire n fun
      | .wakeSleeper flow => [.wake flow]
      | .wakeReceiver pid epoch => [.fire pid epoch]
  | .spawn => .register fun child => [.wake child]
  | .send target message => .nop [.hostLookup target message]
  | .kill id reason => .nop [.kill .lookup id reason .request]
  | .monitor owner target =>
    .nop (if owner = target then [] else [.relate (.monitor owner target)])
  | .demonitor owner ref => .nop [.relate (.demonitor owner ref)]
  | .link a b => .nop (if a = b then [] else [.relate (.link a b)])
  | .unlink owner ref => .nop [.relate (.unlink owner ref)]
  | .spawnChild name cap => .register fun child =>
      if name = "" then [.wake child] else [.wake child, .nameChild child.id name cap]
  | .registerName name cap target => .nop [.relate (.registerName name cap target)]
  | .unregisterName name => .nameUnregister name []

/-! ## Steps and runs -/

structure State where
  shared : Shared
  threads : ℕ → List Frame

def State.init (config : MailboxConfig) : State := ⟨.init config, fun _ => []⟩

/-- What thread `t` does next, and the frames below. -/
def State.next (s : State) (t : ℕ) (i : Input) : Action × List Frame :=
  match s.threads t, i with
  | [], .start op => (op.start, [])
  | [], _ => (.nop [], [])
  | f :: rest, i => (f.next i, rest)

/-- One step: the thread and its choices. -/
def step (s : State) (ti : ℕ × Input) : State :=
  let (action, rest) := s.next ti.1 ti.2
  let (shared, frames) := s.shared.exec action
  ⟨shared, update s.threads ti.1 (frames ++ rest)⟩

/-- The state that a schedule leads to. -/
def run (config : MailboxConfig) (sched : List (ℕ × Input)) : State :=
  Schedule.run step (State.init config) sched

/-- Steps of one thread without choices. -/
def steps (t n : ℕ) : List (ℕ × Input) := List.replicate n (t, .pick 0)

end Machine

end Byteflow
