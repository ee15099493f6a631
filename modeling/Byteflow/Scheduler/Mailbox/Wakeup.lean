import Byteflow.Scheduler.Mailbox.Run

/-!
# No lost wakeup of a receiver

A parked flow never sleeps on a hop it waits for: while a flow is parked under a filter, no hop
in the queue matches it. `park` and `push` share one mutex, `park_filter` parks only after it has
searched the queue, and both ways of enqueueing try the handoff first. An admission is the one
way into the queue that does not, so it must not meet a parked receiver (`Legal`).
-/

namespace Byteflow

namespace Mailbox

variable {H : Type} [HopView H]

/-- No hop in the queue is one that the parked flow waits for. -/
def NoMissedHop (m : Mailbox H) : Prop :=
  ∀ flow, m.parked = some flow → ∀ h ∈ m.queue.inner, m.parkedFilter.accepts h = false

theorem noMissedHop_new (config : MailboxConfig) : (new config : Mailbox H).NoMissedHop := by
  intro flow hp
  cases hp

theorem noMissedHop_of_parked_none {m : Mailbox H} (h : m.parked = none) : m.NoMissedHop := by
  intro flow hp
  rw [h] at hp
  cases hp

/-- A hop that the parked flow does not want may be enqueued, under every policy. -/
theorem NoMissedHop.enqueueLocked {m : Mailbox H} (hm : m.NoMissedHop) {value : H}
    (hv : ∀ flow, m.parked = some flow → m.parkedFilter.accepts value = false)
    (policy : OverflowPolicy) : (m.enqueueLocked value policy).1.NoMissedHop := by
  intro flow hp h hh
  rw [enqueueLocked_parked] at hp
  rw [enqueueLocked_parkedFilter]
  rw [enqueueLocked_queue] at hh
  obtain ⟨kept, hkept, hin⟩ := m.queue.enqueue_inner value policy
  have hmem : h ∈ m.queue.inner ∨ h = value := by
    rw [hin, List.mem_append] at hh
    rcases hh with hh | hh
    · exact .inl (hkept ▸ List.mem_append_right _ hh)
    · exact .inr (MailboxQueue.mem_admitted hh)
  rcases hmem with hmem | rfl
  · exact hm flow hp h hmem
  · exact hv flow hp

/-- Every operation keeps the parked flow from missing a hop. -/
theorem NoMissedHop.after {m : Mailbox H} (hm : m.NoMissedHop) (op : Op H)
    (hop : op.Allowed m) : (m.after op).NoMissedHop := by
  cases op with
  | push value =>
    rcases m.push_cases value with ⟨flow, -, -, he⟩ | ⟨hv, he⟩
    · exact noMissedHop_of_parked_none (by simp only [Mailbox.after, he]; rfl)
    · simp only [Mailbox.after, he]
      exact hm.enqueueLocked hv _
  | pushSystem value =>
    rcases m.pushSystem_cases value with ⟨flow, -, -, he⟩ | ⟨hv, he⟩
    · exact noMissedHop_of_parked_none (by simp only [Mailbox.after, he]; rfl)
    · intro flow hp h hh
      simp only [Mailbox.after, he] at hp hh ⊢
      rw [MailboxQueue.forcePush_inner, List.mem_append, List.mem_singleton] at hh
      rcases hh with hh | rfl
      · exact hm flow hp h hh
      · exact hv flow hp
  | tryPopFilter filter =>
    rcases m.tryPopFilter_cases filter with ⟨v, -, he⟩ | ⟨-, he⟩
    · intro flow hp h hh
      simp only [Mailbox.after, he, MailboxQueue.take_inner] at hp hh ⊢
      exact hm flow hp h (List.mem_of_mem_eraseP hh)
    · simpa only [Mailbox.after, he] using hm
  | parkFilter flow filter =>
    rcases m.parkFilter_cases flow filter with ⟨v, -, he⟩ | ⟨hnone, he⟩
    · intro flow hp h hh
      simp only [Mailbox.after, he, MailboxQueue.take_inner] at hp hh ⊢
      exact hm flow hp h (List.mem_of_mem_eraseP hh)
    · intro flow hp h hh
      simp only [Mailbox.after, he] at hh ⊢
      simpa using List.find?_eq_none.mp hnone h hh
  | takeParkedAt epoch =>
    rcases m.takeParkedAt_cases epoch with ⟨flow, -, -, he⟩ | ⟨-, he⟩
    · exact noMissedHop_of_parked_none (by simp only [Mailbox.after, he])
    · simpa only [Mailbox.after, he] using hm
  | takeParked => exact noMissedHop_of_parked_none rfl
  | parkSender flow message =>
    simp only [Mailbox.after, parkSender]
    split_ifs <;> exact hm
  | admitWaitingSender =>
    -- the hop of a waiter is enqueued without a look at the receiver: none is parked
    have hp : m.parked = none := hop
    refine noMissedHop_of_parked_none ?_
    rcases m.admitWaitingSender_cases with ⟨-, he⟩ | ⟨_, _, _, -, -, -, he⟩ |
        ⟨_, _, _, -, -, -, he⟩ <;>
      simpa only [Mailbox.after, he] using hp
  | takeWaitingSender sender =>
    simp only [Mailbox.after, takeWaitingSender]
    split <;> exact hm
  | close => exact hm

/-- **Receiver wakeup.** After every history of a mailbox, under every policy and every limit,
while a flow is parked no hop in the queue matches its filter. -/
theorem receiver_wakeup (config : MailboxConfig) (ops : List (Op H))
    (hops : (new config : Mailbox H).Legal ops) :
    ∀ flow, ((new config).run ops).parked = some flow →
      ∀ h ∈ ((new config).run ops).queue.inner,
        ((new config).run ops).parkedFilter.accepts h = false :=
  hops.invariant (fun _ op hop hm => hm.after op hop) (noMissedHop_new config)

/-- A flow that waits for tag 7 parks next to a queued hop without that tag, and another comes. -/
def selectiveWait : List (Op Value) :=
  [.push (.int 1), .parkFilter (.new 1) (.tag 7), .push (.int 2)]

theorem receiver_wakeup_selective :
    ((new .default).run selectiveWait).parkedFilter.accepts (Value.int 2) = false :=
  receiver_wakeup .default selectiveWait (by decide) (.new 1) (by decide) (.int 2) (by decide)

end Mailbox

end Byteflow
