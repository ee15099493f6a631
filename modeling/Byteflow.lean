import Byteflow.Scheduler.Mailbox.System
import Byteflow.Scheduler.Mailbox.Epoch
import Byteflow.Scheduler.Mailbox.Metrics
import Byteflow.Scheduler.Mailbox.Accounting
import Byteflow.Foundations.Ownership
import Byteflow.Scheduler.Index
import Byteflow.Scheduler.Machine.Frame
import Byteflow.Scheduler.Machine.Step
import Byteflow.Scheduler.Machine.Boxes
import Byteflow.Scheduler.Machine.Inversion
import Byteflow.Scheduler.Machine.Oversize
import Byteflow.Scheduler.Machine.Admission
import Byteflow.Scheduler.Machine.Ask
import Byteflow.Scheduler.Machine.Fifo
import Byteflow.Scheduler.Machine.Kill
import Byteflow.Scheduler.Machine.Orphan
import Byteflow.Scheduler.Machine.Stray
import Byteflow.Scheduler.Machine.Sound
import Byteflow.Scheduler.Machine.AskIndex
import Byteflow.Scheduler.Machine.Deadline
import Byteflow.Scheduler.Machine.Exit
import Byteflow.Scheduler.Machine.Monitor
import Byteflow.Scheduler.Machine.Link
import Byteflow.Scheduler.Machine.Names
import Byteflow.Scheduler.Machine.Reply
import Byteflow.Scheduler.Machine.Propagation
import Byteflow.Bytecode.Canonical
import Byteflow.Bytecode.Truncation
import Byteflow.Bytecode.Pool
import Byteflow.Bytecode.Program
import Byteflow.Vm.NativeTable
import Byteflow.Vm.Verified
import Byteflow.Vm.Discipline
import Byteflow.Vm.Arithmetic
import Byteflow.Vm.Faults
import Byteflow.Vm.Heap
import Byteflow.Vm.Envelope
import Byteflow.Vm.Labels
import Byteflow.Vm.Samples
import Byteflow.Scheduler.Quota.Overflow
import Byteflow.Scheduler.Supervisor.Accounts
import Byteflow.Scheduler.Supervisor.Events
import Byteflow.Scheduler.Capability.Revocation
import Byteflow.Scheduler.Capability.Lineage
import Byteflow.Scheduler.Capability.Gate
import Byteflow.Scheduler.Capability.Reissue
import Byteflow.Scheduler.Spawn.Forget
import Byteflow.Scheduler.Spawn.Limit
import Byteflow.Scheduler.Spawn.Failure
import Byteflow.Scheduler.Worker.Usable
import Byteflow.Scheduler.Worker.Provenance
import Byteflow.Scheduler.Worker.Confined
import Byteflow.Scheduler.Worker.Nesting
import Byteflow.Scheduler.Worker.Budget
import Byteflow.Scheduler.Worker.Charges
import Byteflow.Scheduler.Worker.Delivery
import Byteflow.Scheduler.Oneshot
import Byteflow.Scheduler.Timer
import Byteflow.Scheduler.Workers
import Byteflow.Jit.Runtime
import Byteflow.Jit.Agreement
import Byteflow.Jit.Terminated
import Byteflow.Jit.Division
