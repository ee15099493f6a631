import Byteflow.Scheduler.Registry

/-!
# Frames of the runtime's threads

Workers, the timer thread and host threads run the operations of `worker.rs`, `finalize.rs`,
`timer.rs` and `runtime.rs`. A thread is a stack of frames, the top one being the code that runs
next. A frame names the point an operation has reached and carries its local variables, so that
between two frames lies exactly one critical section.
-/

namespace Byteflow

namespace Machine

/-- What the VM asks the scheduler for. `trap` is every way in which a flow fails by itself;
`resumed` is every effect that is answered without another flow (a `Cap` minted, a name looked
up). The messages of `send` and `ask` have their request id and payload final, and come with the
reply cap that the scheduler attaches; `registerName` comes with the self cap minted for it. -/
inductive VmResult
  | complete (value : Value)
  | trap (message : String)
  | yield
  | sleep (delay : ℕ)
  | resumed
  | spawn
  | send (target : FlowId) (message : Message) (replyCap : CapId)
  | receive (destReg : UInt8) (timeout : Option ℕ) (matchTag : Option UInt16)
      (matchRequestId : Option UInt64)
  | ask (destReg : UInt8) (target : FlowId) (request : Message) (replyCap : CapId)
      (timeout : Option ℕ)
  | monitor (target : FlowId)
  | demonitor (monitor : UInt64)
  | link (target : FlowId)
  | unlink (link : UInt64)
  | registerName (name : String) (cap : CapId)
  deriving DecidableEq

/-- What a thread without work may do. `work n` takes the `n`-th runnable flow, `fire n` the
`n`-th deadline; the rest are calls of the embedder or the supervisor. -/
inductive Operation
  | work (n : ℕ)
  | fire (n : ℕ)
  | spawn
  | send (target : FlowId) (message : Message)
  | kill (id : FlowId) (reason : FlowExitReason)
  | monitor (owner target : FlowId)
  | demonitor (owner : FlowId) (monitor : UInt64)
  | link (a b : FlowId)
  | unlink (owner : FlowId) (link : UInt64)
  /-- `spawn_child` of the supervisor, with the cap minted for the name. -/
  | spawnChild (name : String) (cap : CapId)
  /-- `register_name`, with the flow that the cap addresses. -/
  | registerName (name : String) (cap : CapId) (target : FlowId)
  | unregisterName (name : String)
  deriving DecidableEq

/-- The choices of one step: what an idle thread starts, what the VM returns, which entry a hash
table yields next. A step that has another choice to make ignores it. -/
inductive Input
  | start (op : Operation)
  | vm (result : VmResult)
  | pick (n : ℕ)
  deriving DecidableEq

/-- A hop on its way to a target, with what the sender does once it is accepted. -/
structure Outgoing where
  target : FlowId
  hop : Hop
  pending : PendingSend
  deriving DecidableEq

/-- The reply that an `Ask` waits for. -/
structure AskWait where
  destReg : UInt8
  requestId : UInt64
  target : FlowId
  timeout : Option ℕ
  deriving DecidableEq

def AskWait.filter (w : AskWait) : WaitFilter := .ask w.requestId w.target

/-- A flow on the way out. -/
structure PendingExit where
  flow : Flow Hop
  outcome : FlowOutcome
  reason : FlowExitReason
  deriving DecidableEq

def PendingExit.id (p : PendingExit) : FlowId := p.flow.id

/-- `deliver`, then `park_waiting_send`. -/
inductive SendStage
  | lookup
  | push
  | index
  | target
  | park
  | gone
  deriving DecidableEq

/-- The rest of `Ask` after its request is delivered: `try_pop_filter`, then `park_ask`. -/
inductive AskStage
  | reply
  | insert
  | park
  deriving DecidableEq

/-- `finalize_one`. -/
inductive FinStage
  | killTake
  | sendAtRemove
  | askRemove
  | lookup
  | close
  | senders (senders : List (Flow Hop))
  | waiters
  | wake (askers : List FlowId)
  | wakeTake (asker : FlowId) (askers : List FlowId)
  | revoke
  | unregister
  | owned
  | names
  | notify
  | downs (events : List DownEvent)
  | links
  | peers (peers : List FlowId)
  deriving DecidableEq

/-- `extract_for_kill`. -/
inductive KillStage
  | lookup
  | set
  | takeParked
  | sendAtGet
  | targetLookup (target : FlowId)
  | takeSender (target : FlowId)
  | sendAtRemove (sender : Flow Hop)
  deriving DecidableEq

/-- Who called `extract_for_kill`: `request_kill`, or `collect_link_exit` from the finalization of
`cur`. -/
inductive KillAfter
  | request
  | link (cur : PendingExit) (peers : List FlowId) (work : List PendingExit)
  deriving DecidableEq

/-- A call of the embedder that relates two flows, or a flow and a name. -/
inductive Relation
  | monitor (owner target : FlowId)
  | demonitor (owner : FlowId) (monitor : UInt64)
  | link (a b : FlowId)
  | unlink (owner : FlowId) (link : UInt64)
  | registerName (name : String) (cap : CapId) (target : FlowId)
  deriving DecidableEq

inductive Frame
  /-- `drive_process`, before the kill signal is read. -/
  | drive (flow : Flow Hop)
  /-- The loop of `drive_process`: the VM runs. -/
  | run (flow : Flow Hop)
  | send (stage : SendStage) (flow : Flow Hop) (out : Outgoing)
  /-- `Receive`, before `try_pop_filter`. -/
  | receive (flow : Flow Hop) (filter : WaitFilter) (timeout : Option ℕ)
  /-- `admit_waiting_on` the mailbox of the flow, which then runs on. -/
  | admitWaitingOn (flow : Flow Hop)
  /-- `admit_waiting_on`, with the sender it admitted. -/
  | admitted (sender : Flow Hop)
  /-- `park_on_mailbox`. -/
  | park (flow : Flow Hop) (filter : WaitFilter) (timeout : Option ℕ)
  /-- `schedule_receive_timeout`. -/
  | arm (pid : FlowId) (epoch : WaitEpoch)
  | ask (stage : AskStage) (flow : Flow Hop) (wait : AskWait)
  /-- The liveness recheck at the end of `park_ask`. -/
  | askRecheck (asker : FlowId) (wait : AskWait) (epoch : WaitEpoch)
  | askTake (asker : FlowId) (wait : AskWait)
  /-- A flow that was unparked, before `remove_asker`. -/
  | forget (flow : Flow Hop)
  /-- A flow that is runnable, before it is pushed to a queue. -/
  | wake (flow : Flow Hop)
  /-- `fire` of a receive deadline. -/
  | fire (pid : FlowId) (epoch : WaitEpoch)
  | fin (stage : FinStage) (cur : PendingExit) (work : List PendingExit)
  | kill (stage : KillStage) (id : FlowId) (reason : FlowExitReason) (next : KillAfter)
  /-- `deliver_down`: the hop is built, its owner looked up, the hop pushed. -/
  | down (event : DownEvent)
  | downLookup (owner : FlowId) (hop : Hop)
  | downPush (owner : FlowId) (hop : Hop)
  /-- `Runtime::send`: the target is looked up, the hop stamped and pushed. -/
  | hostLookup (target : FlowId) (message : Message)
  | hostStamp (target : FlowId) (message : Message)
  | hostPush (target : FlowId) (hop : Hop)
  /-- `Runtime::monitor` and its siblings: the first flow must be live, then the second. -/
  | relate (relation : Relation)
  | relateTarget (relation : Relation)
  | relateMake (relation : Relation)
  /-- `register_child_name`. -/
  | nameChild (child : FlowId) (name : String) (cap : CapId)
  /-- `Runtime::monitor`: the target may have exited since it was found live. -/
  | monitorRecheck (monitor : UInt64) (owner target : FlowId)
  | monitorDrop (monitor : UInt64) (owner target : FlowId)
  deriving DecidableEq

end Machine

end Byteflow
