import Byteflow.Scheduler.Flow
import Byteflow.Scheduler.Mailbox.Queue

/-!
# Mailboxes

A flow's inbox with the parked receiver and the senders in `WAITING_SEND` (`mailbox/mod.rs`).
Every operation below is one critical section of the mailbox mutex: it maps the state under the
lock to the state when the lock is released and the value returned. A poisoned lock is left out.
-/

namespace Byteflow

/-- `u64::saturating_add` with one. -/
def satSucc (n : UInt64) : UInt64 := if n + 1 = 0 then n else n + 1

/-- A counter that does not wrap grows. -/
theorem lt_succ_of_ne_zero {n : UInt64} (h : n + 1 ≠ 0) : n < n + 1 := by
  rw [UInt64.lt_iff_toNat_lt, UInt64.toNat_add]
  have hne : (n + 1).toNat ≠ 0 := fun h0 => h (UInt64.toNat_inj.mp h0)
  have hn := n.toNat_lt
  rw [UInt64.toNat_add] at hne
  simp only [UInt64.toNat_one] at *
  omega

/-- Counters of one mailbox. -/
structure MailboxStats where
  enqueued : UInt64
  dequeued : UInt64
  rejected : UInt64
  rejectedByteLimit : UInt64
  droppedNewest : UInt64
  droppedOldest : UInt64
  deriving DecidableEq

def MailboxStats.default : MailboxStats := ⟨0, 0, 0, 0, 0, 0⟩

/-- A bytecode sender waiting for a free slot, with the hop that was refused. -/
structure WaitingSender (H : Type) where
  flow : Flow H
  message : H
  deriving DecidableEq

/-- Outcome of pushing a message. -/
inductive Delivery (H : Type)
  | queued
  | queuedDropOldest
  | droppedNewest
  | handoff (flow : Flow H)
  deriving DecidableEq

/-- Outcome of `park_sender`. -/
inductive ParkSender (H : Type)
  | parked
  | closed (flow : Flow H)
  deriving DecidableEq

/-- Identifies one specific park of a flow in its mailbox. -/
structure WaitEpoch where
  get : UInt64
  deriving DecidableEq

structure Mailbox (H : Type) where
  config : MailboxConfig
  queue : MailboxQueue H
  parked : Option (Flow H)
  /-- Active while `parked` is `some`. -/
  parkedFilter : WaitFilter
  waitEpoch : UInt64
  stats : MailboxStats
  waitingSenders : List (WaitingSender H)
  closed : Bool

namespace Mailbox

variable {H : Type}

def new (config : MailboxConfig) : Mailbox H where
  config := config
  queue := .new config.capacity.get config.bytes.get
  parked := none
  parkedFilter := .any
  waitEpoch := 0
  stats := .default
  waitingSenders := []
  closed := false

variable [HopView H]

/-- Enqueue under a policy and count what happened. -/
def enqueueLocked (m : Mailbox H) (value : H) (policy : OverflowPolicy) :
    Mailbox H × Except MailboxFullReason (Delivery H) :=
  let m' := { m with queue := (m.queue.enqueue value policy).1 }
  match (m.queue.enqueue value policy).2 with
  | .ok .enqueued =>
    ({ m' with stats.enqueued := satSucc m.stats.enqueued }, .ok .queued)
  | .ok .droppedOldest =>
    ({ m' with
        stats.droppedOldest := satSucc m.stats.droppedOldest
        stats.enqueued := satSucc m.stats.enqueued },
      .ok .queuedDropOldest)
  | .ok .droppedNewest =>
    ({ m' with stats.droppedNewest := satSucc m.stats.droppedNewest }, .ok .droppedNewest)
  | .error reason =>
    ({ m' with
        stats.rejected := satSucc m.stats.rejected
        stats.rejectedByteLimit :=
          if reason = .byteLimit then satSucc m.stats.rejectedByteLimit
          else m.stats.rejectedByteLimit },
      .error reason)

/-- The parked flow takes the hop: the wait is over and no queue slot is used. -/
def handOff (m : Mailbox H) : Mailbox H :=
  { m with
    parked := none
    parkedFilter := .any
    stats.dequeued := satSucc m.stats.dequeued
    stats.enqueued := satSucc m.stats.enqueued }

/-- Push `value` under the mailbox config. -/
def push (m : Mailbox H) (value : H) : Mailbox H × Except MailboxFullReason (Delivery H) :=
  match m.parked with
  | some flow =>
    if m.parkedFilter.accepts value then (m.handOff, .ok (.handoff flow))
    else m.enqueueLocked value m.config.overflow
  | none => m.enqueueLocked value m.config.overflow

/-- Non-blocking pop under a filter. -/
def tryPopFilter (m : Mailbox H) (filter : WaitFilter) : Mailbox H × Option H :=
  let m' := { m with queue := (m.queue.take filter).1 }
  match (m.queue.take filter).2 with
  | some v => ({ m' with stats.dequeued := satSucc m.stats.dequeued }, some v)
  | none => (m', none)

/-- Park under a filter. Re-checks the queue under the same mutex: a hop that arrived in between
is stashed in the flow, which is given back. -/
def parkFilter (m : Mailbox H) (flow : Flow H) (filter : WaitFilter) :
    Mailbox H × Except (Flow H) WaitEpoch :=
  let m' := { m with queue := (m.queue.take filter).1 }
  match (m.queue.take filter).2 with
  | some v =>
    ({ m' with stats.dequeued := satSucc m.stats.dequeued },
      .error { flow with pendingMessage := some v })
  | none =>
    ({ m' with
        waitEpoch := m.waitEpoch + 1
        parkedFilter := filter
        parked := some flow },
      .ok ⟨m.waitEpoch + 1⟩)

/-- Take the parked flow back out only if `epoch` is still the current wait. -/
def takeParkedAt (m : Mailbox H) (epoch : WaitEpoch) : Mailbox H × Option (Flow H) :=
  if m.waitEpoch ≠ epoch.get then (m, none)
  else
    match m.parked with
    | some flow => ({ m with parked := none, parkedFilter := .any }, some flow)
    | none => (m, none)

/-- Take the current parked receiver regardless of epoch. -/
def takeParked (m : Mailbox H) : Mailbox H × Option (Flow H) :=
  ({ m with parkedFilter := .any, parked := none }, m.parked)

/-- Enqueue a hop even when the inbox is at a bound (system `DOWN`). -/
def pushSystem (m : Mailbox H) (value : H) : Mailbox H × Delivery H :=
  let forced := { m with
    queue := m.queue.forcePush value
    stats.enqueued := satSucc m.stats.enqueued }
  match m.parked with
  | some flow =>
    if m.parkedFilter.accepts value then (m.handOff, .handoff flow) else (forced, .queued)
  | none => (forced, .queued)

/-- Close the inbox for new `WAITING_SEND` parks, then drain the waiters. -/
def close (m : Mailbox H) : Mailbox H × List (Flow H) :=
  ({ m with closed := true, waitingSenders := [] }, m.waitingSenders.map (·.flow))

/-- Park a bytecode sender whose hop was refused. -/
def parkSender (m : Mailbox H) (flow : Flow H) (message : H) : Mailbox H × ParkSender H :=
  if m.closed then (m, .closed flow)
  else ({ m with waitingSenders := m.waitingSenders ++ [⟨flow, message⟩] }, .parked)

/-- After a pop frees a slot, admit one waiting sender. -/
def admitWaitingSender (m : Mailbox H) : Mailbox H × Option (Flow H) :=
  if m.closed then (m, none)
  else
    match m.waitingSenders with
    | [] => (m, none)
    | waiter :: rest =>
      let (m', result) :=
        { m with waitingSenders := rest }.enqueueLocked waiter.message .reject
      match result with
      | .ok _ => (m', some waiter.flow)
      | .error _ => ({ m' with waitingSenders := waiter :: rest }, none)

/-- Pull one parked sender out (link-kill of a flow blocked on `WAITING_SEND`). -/
def takeWaitingSender (m : Mailbox H) (sender : FlowId) : Mailbox H × Option (Flow H) :=
  match FirstMatch.extract (fun w => w.flow.id == sender) m.waitingSenders with
  | (some w, rest) => ({ m with waitingSenders := rest }, some w.flow)
  | (none, _) => (m, none)

/-! ## Fields through the operations -/

section Enqueue

variable (m : Mailbox H) (value : H) (policy : OverflowPolicy)

@[simp] theorem enqueueLocked_queue :
    (m.enqueueLocked value policy).1.queue = (m.queue.enqueue value policy).1 := by
  unfold enqueueLocked
  split <;> rfl

@[simp] theorem enqueueLocked_parked : (m.enqueueLocked value policy).1.parked = m.parked := by
  unfold enqueueLocked
  split <;> rfl

@[simp] theorem enqueueLocked_parkedFilter :
    (m.enqueueLocked value policy).1.parkedFilter = m.parkedFilter := by
  unfold enqueueLocked
  split <;> rfl

@[simp] theorem enqueueLocked_waitEpoch :
    (m.enqueueLocked value policy).1.waitEpoch = m.waitEpoch := by
  unfold enqueueLocked
  split <;> rfl

@[simp] theorem enqueueLocked_waitingSenders :
    (m.enqueueLocked value policy).1.waitingSenders = m.waitingSenders := by
  unfold enqueueLocked
  split <;> rfl

@[simp] theorem enqueueLocked_closed : (m.enqueueLocked value policy).1.closed = m.closed := by
  unfold enqueueLocked
  split <;> rfl

@[simp] theorem enqueueLocked_config : (m.enqueueLocked value policy).1.config = m.config := by
  unfold enqueueLocked
  split <;> rfl

/-- The delivery reported is the effect on the queue. -/
theorem enqueueLocked_result :
    (m.enqueueLocked value policy).2 = match (m.queue.enqueue value policy).2 with
      | .ok .enqueued => .ok .queued
      | .ok .droppedOldest => .ok .queuedDropOldest
      | .ok .droppedNewest => .ok .droppedNewest
      | .error reason => .error reason := by
  unfold enqueueLocked
  split <;> simp_all

/-- No enqueue reports a handoff. -/
theorem enqueueLocked_ne_handoff (flow : Flow H) :
    (m.enqueueLocked value policy).2 ≠ .ok (.handoff flow) := by
  rw [enqueueLocked_result]
  split <;> simp

end Enqueue

/-- The two ways of a push: a parked receiver that wants the hop takes it, else the hop goes to
the queue. -/
theorem push_cases (m : Mailbox H) (value : H) :
    (∃ flow, m.parked = some flow ∧ m.parkedFilter.accepts value = true ∧
      m.push value = (m.handOff, .ok (.handoff flow))) ∨
    ((∀ flow, m.parked = some flow → m.parkedFilter.accepts value = false) ∧
      m.push value = m.enqueueLocked value m.config.overflow) := by
  unfold push
  cases hp : m.parked with
  | none => exact .inr ⟨by simp, rfl⟩
  | some flow =>
    cases hf : m.parkedFilter.accepts value with
    | true => exact .inl ⟨flow, rfl, rfl, by simp⟩
    | false => exact .inr ⟨fun _ _ => rfl, by simp⟩

/-- The two ways of a system push. -/
theorem pushSystem_cases (m : Mailbox H) (value : H) :
    (∃ flow, m.parked = some flow ∧ m.parkedFilter.accepts value = true ∧
      m.pushSystem value = (m.handOff, .handoff flow)) ∨
    ((∀ flow, m.parked = some flow → m.parkedFilter.accepts value = false) ∧
      m.pushSystem value = ({ m with
        queue := m.queue.forcePush value
        stats.enqueued := satSucc m.stats.enqueued }, .queued)) := by
  unfold pushSystem
  cases hp : m.parked with
  | none => exact .inr ⟨by simp, rfl⟩
  | some flow =>
    cases hf : m.parkedFilter.accepts value with
    | true => exact .inl ⟨flow, rfl, rfl, by simp⟩
    | false => exact .inr ⟨fun _ _ => rfl, by simp⟩

/-- The two ways of a pop. -/
theorem tryPopFilter_cases (m : Mailbox H) (filter : WaitFilter) :
    (∃ h, m.queue.inner.find? filter.accepts = some h ∧
      m.tryPopFilter filter = ({ m with
        queue := (m.queue.take filter).1
        stats.dequeued := satSucc m.stats.dequeued }, some h)) ∨
    (m.queue.inner.find? filter.accepts = none ∧ m.tryPopFilter filter = (m, none)) := by
  unfold tryPopFilter
  rw [MailboxQueue.take_snd]
  cases hf : m.queue.inner.find? filter.accepts with
  | some h => exact .inl ⟨h, rfl, rfl⟩
  | none => exact .inr ⟨rfl, by rw [MailboxQueue.take_of_none hf]⟩

/-- The two ways of a park: a hop that is there ends the wait before it starts. -/
theorem parkFilter_cases (m : Mailbox H) (flow : Flow H) (filter : WaitFilter) :
    (∃ h, m.queue.inner.find? filter.accepts = some h ∧
      m.parkFilter flow filter = ({ m with
        queue := (m.queue.take filter).1
        stats.dequeued := satSucc m.stats.dequeued },
        .error { flow with pendingMessage := some h })) ∨
    (m.queue.inner.find? filter.accepts = none ∧
      m.parkFilter flow filter = ({ m with
        waitEpoch := m.waitEpoch + 1
        parkedFilter := filter
        parked := some flow }, .ok ⟨m.waitEpoch + 1⟩)) := by
  unfold parkFilter
  rw [MailboxQueue.take_snd]
  cases hf : m.queue.inner.find? filter.accepts with
  | some h => exact .inl ⟨h, rfl, rfl⟩
  | none => exact .inr ⟨rfl, by rw [MailboxQueue.take_of_none hf]⟩

omit [HopView H] in
/-- The two ways of a timed wake: the deadline owns the wait and takes the flow, or it does
nothing. -/
theorem takeParkedAt_cases (m : Mailbox H) (epoch : WaitEpoch) :
    (∃ flow, m.waitEpoch = epoch.get ∧ m.parked = some flow ∧
      m.takeParkedAt epoch = ({ m with parked := none, parkedFilter := .any }, some flow)) ∨
    ((m.waitEpoch = epoch.get → m.parked = none) ∧ m.takeParkedAt epoch = (m, none)) := by
  unfold takeParkedAt
  by_cases he : m.waitEpoch = epoch.get
  · rw [if_neg (by simpa using he)]
    cases hp : m.parked with
    | some flow => exact .inl ⟨flow, he, rfl, rfl⟩
    | none => exact .inr ⟨fun _ => rfl, rfl⟩
  · rw [if_pos he]
    exact .inr ⟨fun h => absurd h he, rfl⟩

/-- The ways of an admission: nobody to admit, the head waiter does not fit, or its hop is
enqueued. -/
theorem admitWaitingSender_cases (m : Mailbox H) :
    ((m.closed = true ∨ m.waitingSenders = []) ∧ m.admitWaitingSender = (m, none)) ∨
    (∃ waiter rest stats, m.closed = false ∧ m.waitingSenders = waiter :: rest ∧
      ¬m.queue.HasRoom waiter.message ∧
      m.admitWaitingSender = ({ m with stats := stats }, none)) ∨
    (∃ waiter rest capacity, m.closed = false ∧ m.waitingSenders = waiter :: rest ∧
      m.queue.HasRoom waiter.message ∧
      m.admitWaitingSender = ({ m with
        waitingSenders := rest
        queue := { m.queue with capacity := capacity }.pushBack waiter.message
        stats.enqueued := satSucc m.stats.enqueued }, some waiter.flow)) := by
  unfold admitWaitingSender
  cases hc : m.closed with
  | true => exact .inl ⟨.inl rfl, rfl⟩
  | false =>
    cases hw : m.waitingSenders with
    | nil => exact .inl ⟨.inr rfl, rfl⟩
    | cons waiter rest =>
      right
      by_cases hroom : m.queue.HasRoom waiter.message
      · obtain ⟨capacity, he⟩ := MailboxQueue.enqueue_of_room hroom .reject
        refine .inr ⟨waiter, rest, capacity, rfl, rfl, hroom, ?_⟩
        simp [enqueueLocked, he]
      · have he := MailboxQueue.enqueue_of_no_room hroom .reject
        refine .inl ⟨waiter, rest, (m.enqueueLocked waiter.message .reject).1.stats, rfl, rfl,
          hroom, ?_⟩
        simp [enqueueLocked, he, ← hw]

end Mailbox

end Byteflow
