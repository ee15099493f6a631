import Byteflow.Scheduler.Mailbox.Run

/-!
# The waiting senders of a mailbox

How the list of `WAITING_SEND` changes: `park_sender` appends, an admission takes the head, a kill
takes one out, and `close` takes all and lets nobody in. The limits of the queue never change.
-/

namespace Byteflow

namespace Mailbox

variable {H : Type} [HopView H]

/-- The operation is an admission that enqueues the hop of the waiter. -/
def Admits (m : Mailbox H) (waiter : WaitingSender H) (op : Op H) : Prop :=
  op = .admitWaitingSender ∧ m.closed = false ∧ m.queue.HasRoom waiter.message

/-- The ways in which an operation changes the list of waiting senders. -/
theorem after_waitingSenders (m : Mailbox H) (op : Op H) :
    (m.after op).waitingSenders = m.waitingSenders ∨
      (∃ flow message, op = .parkSender flow message ∧ m.closed = false ∧
        (m.after op).waitingSenders = m.waitingSenders ++ [⟨flow, message⟩]) ∨
      (∃ waiter, m.Admits waiter op ∧
        m.waitingSenders = waiter :: (m.after op).waitingSenders) ∨
      (∃ sender, op = .takeWaitingSender sender ∧
        (m.after op).waitingSenders = m.waitingSenders.eraseP (·.flow.id == sender)) ∨
      (op = .close ∧ (m.after op).waitingSenders = []) := by
  cases op with
  | push value =>
    left
    rcases m.push_cases value with ⟨flow, -, -, he⟩ | ⟨-, he⟩ <;> simp [after, he, handOff]
  | pushSystem value =>
    left
    rcases m.pushSystem_cases value with ⟨flow, -, -, he⟩ | ⟨-, he⟩ <;> simp [after, he, handOff]
  | tryPopFilter filter =>
    left
    rcases m.tryPopFilter_cases filter with ⟨h, -, he⟩ | ⟨-, he⟩ <;> simp [after, he]
  | parkFilter flow filter =>
    left
    rcases m.parkFilter_cases flow filter with ⟨h, -, he⟩ | ⟨-, he⟩ <;> simp [after, he]
  | takeParkedAt epoch =>
    left
    rcases m.takeParkedAt_cases epoch with ⟨flow, -, -, he⟩ | ⟨-, he⟩ <;> simp [after, he]
  | takeParked => exact .inl rfl
  | parkSender flow message =>
    cases hc : m.closed with
    | true => exact .inl (by simp [after, parkSender, hc])
    | false =>
      exact .inr (.inl ⟨flow, message, rfl, rfl, by simp [after, parkSender, hc]⟩)
  | admitWaitingSender =>
    rcases m.admitWaitingSender_cases with ⟨-, he⟩ | ⟨_, _, _, -, -, -, he⟩ |
      ⟨waiter, rest, _, hc, hw, hroom, he⟩
    · exact .inl (by simp [after, he])
    · exact .inl (by simp [after, he])
    · exact .inr (.inr (.inl ⟨waiter, ⟨rfl, hc, hroom⟩, by simp [after, he, hw]⟩))
  | takeWaitingSender sender =>
    refine .inr (.inr (.inr (.inl ⟨sender, rfl, ?_⟩)))
    simp only [after, takeWaitingSender, FirstMatch.extract_eq]
    cases hw : m.waitingSenders.find? (·.flow.id == sender) with
    | some w => rfl
    | none => exact (FirstMatch.eraseP_of_find?_none hw).symm
  | close => exact .inr (.inr (.inr (.inr ⟨rfl, rfl⟩)))

/-- A waiter was there before, or is parked by the operation. -/
theorem mem_waitingSenders_after {m : Mailbox H} {op : Op H} {w : WaitingSender H}
    (hw : w ∈ (m.after op).waitingSenders) :
    w ∈ m.waitingSenders ∨ (op = .parkSender w.flow w.message ∧ m.closed = false) := by
  rcases m.after_waitingSenders op with h | ⟨flow, message, hop, hc, h⟩ | ⟨waiter, -, h⟩ |
    ⟨sender, -, h⟩ | ⟨-, h⟩
  · exact .inl (h ▸ hw)
  · rw [h, List.mem_append, List.mem_singleton] at hw
    rcases hw with hw | rfl
    · exact .inl hw
    · exact .inr ⟨hop, hc⟩
  · exact .inl (h ▸ List.mem_cons_of_mem _ hw)
  · rw [h] at hw
    exact .inl (List.mem_of_mem_eraseP hw)
  · rw [h] at hw
    cases hw

@[simp] theorem after_limit (m : Mailbox H) (op : Op H) :
    (m.after op).queue.limit = m.queue.limit ∧
      (m.after op).queue.byteLimit = m.queue.byteLimit := by
  cases op with
  | push value =>
    rcases m.push_cases value with ⟨flow, -, -, he⟩ | ⟨-, he⟩ <;> simp [after, he, handOff]
  | pushSystem value =>
    rcases m.pushSystem_cases value with ⟨flow, -, -, he⟩ | ⟨-, he⟩ <;>
      simp [after, he, handOff, MailboxQueue.forcePush, MailboxQueue.pushBack]
  | tryPopFilter filter =>
    rcases m.tryPopFilter_cases filter with ⟨h, -, he⟩ | ⟨-, he⟩ <;> simp [after, he]
  | parkFilter flow filter =>
    rcases m.parkFilter_cases flow filter with ⟨h, -, he⟩ | ⟨-, he⟩ <;> simp [after, he]
  | takeParkedAt epoch =>
    rcases m.takeParkedAt_cases epoch with ⟨flow, -, -, he⟩ | ⟨-, he⟩ <;> simp [after, he]
  | takeParked => exact ⟨rfl, rfl⟩
  | parkSender flow message =>
    simp only [after, parkSender]
    split_ifs <;> exact ⟨rfl, rfl⟩
  | admitWaitingSender =>
    rcases m.admitWaitingSender_cases with ⟨-, he⟩ | ⟨_, _, _, -, -, -, he⟩ |
      ⟨waiter, rest, _, -, -, -, he⟩ <;> simp [after, he, MailboxQueue.pushBack]
  | takeWaitingSender sender =>
    simp only [after, takeWaitingSender]
    split <;> exact ⟨rfl, rfl⟩
  | close => exact ⟨rfl, rfl⟩

/-- Only `close` closes. -/
theorem after_closed (m : Mailbox H) (op : Op H) :
    (m.after op).closed = (m.closed || op matches .close) := by
  cases op with
  | push value =>
    rcases m.push_cases value with ⟨flow, -, -, he⟩ | ⟨-, he⟩ <;> simp [after, he, handOff]
  | pushSystem value =>
    rcases m.pushSystem_cases value with ⟨flow, -, -, he⟩ | ⟨-, he⟩ <;> simp [after, he, handOff]
  | tryPopFilter filter =>
    rcases m.tryPopFilter_cases filter with ⟨h, -, he⟩ | ⟨-, he⟩ <;> simp [after, he]
  | parkFilter flow filter =>
    rcases m.parkFilter_cases flow filter with ⟨h, -, he⟩ | ⟨-, he⟩ <;> simp [after, he]
  | takeParkedAt epoch =>
    rcases m.takeParkedAt_cases epoch with ⟨flow, -, -, he⟩ | ⟨-, he⟩ <;> simp [after, he]
  | takeParked => simp [after, takeParked]
  | parkSender flow message =>
    simp only [after, parkSender]
    split_ifs <;> simp [*]
  | admitWaitingSender =>
    rcases m.admitWaitingSender_cases with ⟨-, he⟩ | ⟨_, _, _, -, -, -, he⟩ |
      ⟨waiter, rest, _, -, -, -, he⟩ <;> simp [after, he]
  | takeWaitingSender sender =>
    simp only [after, takeWaitingSender]
    split <;> simp
  | close => simp [after, close]

/-- A closed mailbox has no waiting senders. -/
def ClosedEmpty (m : Mailbox H) : Prop := m.closed = true → m.waitingSenders = []

theorem ClosedEmpty.after {m : Mailbox H} (h : m.ClosedEmpty) (op : Op H) :
    (m.after op).ClosedEmpty := by
  intro hc
  rw [after_closed, Bool.or_eq_true] at hc
  have hempty : m.waitingSenders = [] ∨ op = .close := by
    rcases hc with hc | hc
    · exact .inl (h hc)
    · refine .inr ?_
      cases op <;> first | rfl | cases hc
  refine List.eq_nil_iff_forall_not_mem.mpr fun w hw => ?_
  rcases hempty with hnil | rfl
  · rcases mem_waitingSenders_after hw with hw | ⟨rfl, hopen⟩
    · rw [hnil] at hw
      cases hw
    · rw [hopen] at hc
      simp at hc
  · cases hw

/-- The ways in which an operation changes the parked receiver: it stays under its filter, it is
gone, or a receiver parks because no hop in the queue is one that it waits for. -/
theorem after_parked (m : Mailbox H) (op : Op H) :
    ((m.after op).parked = m.parked ∧ (m.after op).parkedFilter = m.parkedFilter) ∨
      (m.after op).parked = none ∨
      ∃ flow filter, op = .parkFilter flow filter ∧ m.queue.inner.find? filter.accepts = none ∧
        (m.after op).parked = some flow ∧ (m.after op).parkedFilter = filter := by
  cases op with
  | push value =>
    rcases m.push_cases value with ⟨flow, -, -, he⟩ | ⟨-, he⟩
    · exact .inr (.inl (by simp [after, he, handOff]))
    · exact .inl (by simp [after, he])
  | pushSystem value =>
    rcases m.pushSystem_cases value with ⟨flow, -, -, he⟩ | ⟨-, he⟩
    · exact .inr (.inl (by simp [after, he, handOff]))
    · exact .inl (by simp [after, he])
  | tryPopFilter filter =>
    rcases m.tryPopFilter_cases filter with ⟨h, -, he⟩ | ⟨-, he⟩ <;> simp [after, he]
  | parkFilter flow filter =>
    rcases m.parkFilter_cases flow filter with ⟨h, -, he⟩ | ⟨hnone, he⟩
    · exact .inl (by simp [after, he])
    · exact .inr (.inr ⟨flow, filter, rfl, hnone, by simp [after, he]⟩)
  | takeParkedAt epoch =>
    rcases m.takeParkedAt_cases epoch with ⟨flow, -, -, he⟩ | ⟨-, he⟩
    · exact .inr (.inl (by simp [after, he]))
    · exact .inl (by simp [after, he])
  | takeParked => exact .inr (.inl rfl)
  | parkSender flow message =>
    simp only [after, parkSender]
    split_ifs <;> exact .inl ⟨rfl, rfl⟩
  | admitWaitingSender =>
    rcases m.admitWaitingSender_cases with ⟨-, he⟩ | ⟨_, _, _, -, -, -, he⟩ |
      ⟨waiter, rest, _, -, -, -, he⟩ <;> simp [after, he]
  | takeWaitingSender sender =>
    simp only [after, takeWaitingSender]
    split <;> exact .inl ⟨rfl, rfl⟩
  | close => exact .inl ⟨rfl, rfl⟩

/-- A receiver was parked before, or is parked by the operation. -/
theorem parked_of_after {m : Mailbox H} {op : Op H} {flow : Flow H}
    (h : (m.after op).parked = some flow) :
    (m.parked = some flow ∧ (m.after op).parkedFilter = m.parkedFilter) ∨
      ∃ filter, op = .parkFilter flow filter ∧ m.queue.inner.find? filter.accepts = none ∧
        (m.after op).parkedFilter = filter := by
  rcases m.after_parked op with ⟨hp, hf⟩ | hp | ⟨flow', filter, hop, hnone, hp, hf⟩
  · exact .inl ⟨hp ▸ h, hf⟩
  · rw [hp] at h
    cases h
  · rw [hp] at h
    cases h
    exact .inr ⟨filter, hop, hnone, hf⟩

end Mailbox

end Byteflow
