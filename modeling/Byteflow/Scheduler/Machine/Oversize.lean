import Byteflow.Scheduler.Machine.Refused

/-!
# Hops larger than an inbox

`deliver` reports a refusal without its reason, so a hop that is refused because it is larger than
the whole byte budget takes the way of a hop that finds no room: its sender is parked in
`WAITING_SEND`, where no amount of receiving lets it in, and blocks the senders behind it. While
every hop that is pushed fits the empty inbox, or is not refused, no such sender waits.
-/

namespace Byteflow

open MailboxQueue (cost)

/-- The mailbox does not refuse the hop, or the hop fits the empty inbox. -/
def Mailbox.Deliverable (m : Mailbox Hop) (h : Hop) : Prop :=
  cost h ≤ m.queue.byteLimit ∨ m.config.overflow = .dropNewest ∨
    ∃ receiver, m.parked = some receiver ∧ m.parkedFilter.accepts h = true

instance (m : Mailbox Hop) (h : Hop) : Decidable (m.Deliverable h) :=
  inferInstanceAs (Decidable (_ ∨ _ ∨ ∃ receiver, _ = some receiver ∧ _))

/-- A refused hop that is deliverable fits the empty inbox. -/
theorem Mailbox.cost_le_of_refused {m : Mailbox Hop} {h : Hop} {reason : MailboxFullReason}
    (hd : m.Deliverable h) (hr : (m.push h).2 = .error reason) : cost h ≤ m.queue.byteLimit := by
  rcases m.push_cases h with ⟨_, -, -, he⟩ | ⟨hno, he⟩
  · rw [he] at hr
    cases hr
  rcases hd with hd | hpolicy | ⟨receiver, hp, ha⟩
  · exact hd
  · -- `DropNewest` never refuses
    rw [he, enqueueLocked_result, hpolicy] at hr
    by_cases hroom : m.queue.HasRoom h
    · obtain ⟨capacity, henq⟩ := MailboxQueue.enqueue_of_room hroom .dropNewest
      rw [henq] at hr
      cases hr
    · rw [MailboxQueue.enqueue_of_no_room hroom] at hr
      cases hr
  · rw [hno receiver hp] at ha
    cases ha

namespace Machine

/-- A `Send` or `Ask` that pushes its hop pushes one that the target's inbox can take. -/
def PushFits (s : State) (ti : ℕ × Input) : Prop :=
  match s.threads ti.1 with
  | .send .push _ out :: _ => (s.shared.mailboxes out.target).Deliverable out.hop
  | _ => True

instance (s : State) (ti : ℕ × Input) : Decidable (PushFits s ti) := by
  delta PushFits
  generalize s.threads ti.1 = frames
  induction frames using List.casesOn with
  | nil => exact inferInstanceAs (Decidable True)
  | cons f rest =>
    induction f using Frame.casesOn with
    | send stage flow out =>
      induction stage using SendStage.casesOn <;> dsimp only <;> infer_instance
    | _ =>
      dsimp only
      infer_instance

/-- Refused hops fit the empty inbox. -/
structure Admittable (config : MailboxConfig) (s : State) : Prop where
  configured : Configured config s
  refusedAre : RefusedAre (fun h => cost h ≤ config.bytes.get) s

theorem admittable_init (config : MailboxConfig) : Admittable config (State.init config) :=
  ⟨configured_init config, refusedAre_init _ config⟩

/-- **A step keeps the refused hops admittable.** -/
theorem Admittable.step {config : MailboxConfig} {s : State} (hs : Admittable config s)
    (ti : ℕ × Input) (hfits : PushFits s ti) : Admittable config (step s ti) := by
  refine ⟨hs.configured.step ti, hs.refusedAre.step ti.1 ti.2 ?_⟩
  intro flow out rest reason htop hr
  unfold PushFits at hfits
  rw [htop] at hfits
  have hcost := Mailbox.cost_le_of_refused hfits hr
  rwa [(hs.configured out.target).2.2] at hcost

/-- **When no waiter is larger than its inbox.** In a run in which every `Send` and `Ask` pushes a
hop that its target's inbox can take, each hop in a list of waiting senders keeps within the byte
limit, and the empty inbox has room for it. -/
theorem waiting_hops_fit (config : MailboxConfig) (sched : List (ℕ × Input))
    (hfits : Schedule.Guarded step PushFits (State.init config) sched) (id : FlowId) :
    ∀ w ∈ ((run config sched).shared.mailboxes id).waitingSenders,
      cost w.message ≤ ((run config sched).shared.mailboxes id).queue.byteLimit ∧
        (MailboxQueue.new ((run config sched).shared.mailboxes id).queue.limit
          ((run config sched).shared.mailboxes id).queue.byteLimit).HasRoom w.message := by
  intro w hw
  have hinv : Admittable config (run config sched) :=
    hfits.invariant (fun s ti hti hs => Admittable.step hs ti hti) (admittable_init config)
  have hcost := hinv.refusedAre.waiting id w hw
  have hpos := config.capacity.min_le
  obtain ⟨-, hlimit, hbytes⟩ := hinv.configured id
  rw [hlimit, hbytes]
  refine ⟨hcost, ?_, ?_⟩
  · exact decide_eq_false (not_le.mpr hpos)
  · have hle : satAdd 0 (cost w.message) ≤ config.bytes.get :=
      (min_le_left _ _).trans (by omega)
    exact decide_eq_false (not_lt.mpr hle)

theorem waiting_hops_fit_twice :
    ∃ w ∈ ((run smallest sendTwice).shared.mailboxes 1).waitingSenders,
      cost w.message ≤ ((run smallest sendTwice).shared.mailboxes 1).queue.byteLimit :=
  have hmem : ⟨{ Flow.new 2 with pendingSend := some .fireAndForget },
      ⟨1, (Message.new 2 0 0 .unit).toValue⟩⟩ ∈
        ((run smallest sendTwice).shared.mailboxes 1).waitingSenders := by decide +kernel
  ⟨_, hmem, (waiting_hops_fit smallest sendTwice (by decide +kernel) 1 _ hmem).1⟩

/-- A hop larger than the whole inbox waits in front of the empty inbox. -/
theorem oversize_hop_waits :
    ¬∀ (config : MailboxConfig) (sched : List (ℕ × Input)) (id : FlowId),
      ∀ w ∈ ((run config sched).shared.mailboxes id).waitingSenders,
        cost w.message ≤ ((run config sched).shared.mailboxes id).queue.byteLimit := by
  intro hall
  have h := hall smallest (sendTo (.bytes (List.replicate 1000 0))) 1
    ⟨{ Flow.new 2 with pendingSend := some .fireAndForget },
      ⟨0, (Message.new 2 0 0 (.bytes (List.replicate 1000 0))).toValue⟩⟩ (by decide +kernel)
  revert h
  decide +kernel

end Machine

end Byteflow
