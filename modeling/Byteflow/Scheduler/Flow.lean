import Byteflow.Bytecode.Value

/-!
# Flows

A flow as the scheduler moves it around (`scheduler/process.rs`), and the reasons for which it
leaves the runtime (`scheduler/monitor.rs`). The VM is left out: the scheduler only resumes it
with a value, which no scheduler state depends on.
-/

namespace Byteflow

/-- Why a flow left the directory. -/
inductive FlowExitReason
  | normal
  | shutdown
  | killed
  | fault
  | mailboxOverflow
  | supervisor
  | link
  deriving DecidableEq

namespace FlowExitReason

/-- The discriminant carried as the payload of system hops. -/
def asU64 : FlowExitReason → UInt64
  | normal => 0
  | shutdown => 1
  | killed => 2
  | fault => 3
  | mailboxOverflow => 4
  | supervisor => 5
  | link => 6

/-- `Display`. -/
def name : FlowExitReason → String
  | normal => "normal"
  | shutdown => "shutdown"
  | killed => "killed"
  | fault => "fault"
  | mailboxOverflow => "mailbox-overflow"
  | supervisor => "supervisor"
  | link => "link"

/-- Abnormal exits propagate through links. -/
def isAbnormal (r : FlowExitReason) : Bool := r ≠ normal

end FlowExitReason

/-- What the worker does after a parked sender's hop is admitted. The timeout is in
milliseconds. -/
inductive PendingSend
  | fireAndForget
  | ask (destReg : UInt8) (expectRequestId : UInt64) (expectSender : FlowId)
      (timeout : Option ℕ)
  deriving DecidableEq

/-- Terminal outcome of a flow. -/
inductive FlowOutcome
  | completed (value : Value)
  | failed (message : String)
  deriving DecidableEq

/-- A flow box: the unit of work the scheduler moves between deques, mailboxes and threads. -/
structure Flow (H : Type) where
  id : FlowId
  pendingMessage : Option H
  lastReceiveDest : Option UInt8
  pendingSend : Option PendingSend
  deriving DecidableEq

/-- A fresh flow. -/
def Flow.new {H : Type} (id : FlowId) : Flow H := ⟨id, none, none, none⟩

end Byteflow
