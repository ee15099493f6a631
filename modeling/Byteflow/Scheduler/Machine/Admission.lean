import Byteflow.Scheduler.Machine.Holders
import Byteflow.Scheduler.Machine.Refused
import Byteflow.Scheduler.Mailbox.Admission

/-!
# Lost wakeups of waiting senders

A waiting sender is admitted after a plain `Receive` took a hop, and nowhere else. A pop by `Ask`,
a hop that `park_filter` finds when it looks again, and a sender that is parked after room was
made leave senders behind whose hops fit. In a run in which no step does so (`KeepsUp`), no open
mailbox has such a sender once its admission is done (`no_lost_admission`).
-/

namespace Byteflow

open MailboxQueue (cost)
open Mailbox (Op)

namespace Machine

/-- An admission to the mailbox is in progress. -/
def Admitting (s : State) (id : FlowId) : Prop :=
  ∃ flow, .admitWaitingOn flow ∈ s.frames ∧ flow.id = id

/-- The step leaves no sender behind whose hop the mailbox would accept. -/
def Prompt (s : State) (ti : ℕ × Input) : Prop :=
  match s.threads ti.1 with
  | .ask .reply flow wait :: _ =>
    (Op.tryPopFilter wait.filter).KeepsUp (s.shared.mailboxes flow.id)
  | .ask .park flow wait :: _ =>
    (Op.parkFilter flow wait.filter).KeepsUp (s.shared.mailboxes flow.id)
  | .park flow filter _ :: _ => (Op.parkFilter flow filter).KeepsUp (s.shared.mailboxes flow.id)
  | .send .park flow out :: _ =>
    (Op.parkSender flow out.hop).KeepsUp (s.shared.mailboxes out.target)
  | .admitWaitingOn flow :: _ => Op.admitWaitingSender.KeepsUp (s.shared.mailboxes flow.id)
  | _ => True

instance (s : State) (ti : ℕ × Input) : Decidable (Prompt s ti) := by
  delta Prompt
  generalize s.threads ti.1 = frames
  induction frames using List.casesOn with
  | nil => exact inferInstanceAs (Decidable True)
  | cons f rest =>
    induction f using Frame.casesOn with
    | send stage flow out =>
      induction stage using SendStage.casesOn <;> dsimp only <;> infer_instance
    | ask stage flow wait =>
      induction stage using AskStage.casesOn <;> dsimp only <;> infer_instance
    | _ =>
      dsimp only
      infer_instance

/-- The step leaves nobody behind, or it parks a sender that an admission will look at. -/
def KeepsUp (s : State) (ti : ℕ × Input) : Prop :=
  Prompt s ti ∨ ∃ flow out rest, s.threads ti.1 = .send .park flow out :: rest ∧
    Admitting s out.target

/-- What a run that keeps up preserves. -/
structure KeptUp (config : MailboxConfig) (s : State) : Prop where
  owned : Owned s
  homed : Homed s
  configured : Configured config s
  charged : ∀ id, (s.shared.mailboxes id).queue.Charged
  oversize : RefusedAre (fun h => config.overflow = .dropOldest → config.bytes.get < cost h) s
  caughtUp : ∀ id, Admitting s id ∨ (s.shared.mailboxes id).CaughtUp

theorem keptUp_init (config : MailboxConfig) : KeptUp config (State.init config) where
  owned := owned_init config
  homed := homed_init config
  configured := configured_init config
  charged := fun _ => MailboxQueue.charged_new _ _
  oversize := refusedAre_init _ config
  caughtUp := fun _ => .inr fun _ _ hw => by cases hw

namespace KeptUp

variable {config : MailboxConfig} {s : State}

theorem waitersOversize (h : KeptUp config s) (id : FlowId) :
    (s.shared.mailboxes id).WaitersOversize := by
  intro hpolicy w hw q hq
  obtain ⟨hconfig, -, hbytes⟩ := h.configured id
  have hmax := config.bytes.le_max
  have hlt := h.oversize.waiting id w hw (hconfig ▸ hpolicy)
  rw [hbytes] at hq
  refine MailboxQueue.not_hasRoom_of_lt (hq ▸ hlt) ?_
  rw [hq]
  unfold usizeMax
  omega

/-- What is refused under `DropOldest` is larger than the inbox. -/
theorem oversize_step (h : KeptUp config s) (t : ℕ) (i : Input) :
    RefusedAre (fun h => config.overflow = .dropOldest → config.bytes.get < cost h)
      (step s (t, i)) := by
  refine h.oversize.step t i fun flow out rest reason _ hr hpolicy => ?_
  obtain ⟨hconfig, -, hbytes⟩ := h.configured out.target
  rw [← hbytes]
  exact Mailbox.lt_cost_of_refused (h.charged out.target) (hconfig ▸ hpolicy) hr

/-- An operation on a mailbox leaves it caught up, or an admission follows. -/
theorem caughtUp_after (h : KeptUp config s) {t : ℕ} {i : Input} (hkeep : KeepsUp s (t, i))
    {f : Frame} {rest : List Frame} {id : FlowId} {op : Op Hop} (hs : s.threads t = f :: rest)
    (hw : Writes f (.mail id op)) :
    Admitting (step s (t, i)) id ∨ ((s.shared.mailboxes id).after op).CaughtUp := by
  have hf := mem_frames_of_cons hs
  have hallowed := writes_allowed h.owned h.homed hf hw
  have hafter : op.KeepsUp (s.shared.mailboxes id) →
      (op = .admitWaitingSender ∨ (s.shared.mailboxes id).CaughtUp) →
      ((s.shared.mailboxes id).after op).CaughtUp := fun hop =>
    Mailbox.CaughtUp.after hop hallowed (h.waitersOversize id)
  -- no admission is in progress while the frame on top holds the owner of the mailbox
  have howner : ∀ flow : Flow Hop, flow.id = id → flow.id ∈ f.boxes →
      (∀ flow', f ≠ .admitWaitingOn flow') →
      (s.shared.mailboxes id).CaughtUp := by
    intro flow hid hmem hne
    rcases h.caughtUp id with ⟨flow', hf', hid'⟩ | hc
    · have hmem' : flow.id ∈ (Frame.admitWaitingOn flow').boxes := by
        rw [hid, ← hid']
        exact Multiset.mem_singleton_self _
      exact absurd (h.owned.frame_unique hf hf' hmem hmem') (hne flow')
    · exact hc
  have hprompt : (∀ flow out, f ≠ .send .park flow out) → Prompt s (t, i) := by
    intro hne
    rcases hkeep with hp | ⟨flow, out, rest', hs', -⟩
    · exact hp
    · rw [hs] at hs'
      exact absurd (List.cons.inj hs').1 (hne flow out)
  have hstays : (∀ flow, f ≠ .admitWaitingOn flow) → op.KeepsUp (s.shared.mailboxes id) →
      Admitting (Machine.step s (t, i)) id ∨ ((s.shared.mailboxes id).after op).CaughtUp := by
    intro hne hop
    rcases h.caughtUp id with ⟨flow', hf', hid'⟩ | hc
    · rcases mem_frames_step hf' t i with ⟨rest', hs'⟩ | hf'
      · rw [hs] at hs'
        exact absurd (List.cons.inj hs').1 (hne flow')
      · exact .inl ⟨flow', hf', hid'⟩
    · exact .inr (hafter hop (.inr hc))
  cases hw with
  | parkSender flow out =>
    rcases hkeep with hp | ⟨flow', out', rest', hs', flow'', hf'', hid⟩
    · unfold Prompt at hp
      rw [hs] at hp
      exact hstays (by simp) hp
    · rw [hs] at hs'
      cases hs'
      rcases mem_frames_step hf'' t i with ⟨rest', hs'⟩ | hf''
      · rw [hs] at hs'
        cases hs'
      · exact .inl ⟨flow'', hf'', hid⟩
  | receive flow filter timeout =>
    have hc := howner flow rfl (Multiset.mem_singleton_self _) (by simp)
    cases hpop : ((s.shared.mailboxes flow.id).tryPopFilter filter).2 with
    | some gone =>
      -- the admission of the `Receive` is to come
      refine .inl ⟨flow, mem_frames_of_next hs ?_, rfl⟩
      simp only [Frame.next, Shared.exec, Mailbox.result, hpop, List.mem_singleton]
    | none =>
      refine .inr ?_
      rcases (s.shared.mailboxes flow.id).tryPopFilter_cases filter with ⟨gone, -, he⟩ | ⟨-, he⟩
      · rw [he] at hpop
        cases hpop
      · simpa only [Mailbox.after, he] using hc
  | admitWaitingOn flow =>
    have hp := hprompt (by simp)
    unfold Prompt at hp
    rw [hs] at hp
    exact .inr (hafter hp (.inl rfl))
  | park flow filter timeout =>
    have hp := hprompt (by simp)
    unfold Prompt at hp
    rw [hs] at hp
    exact hstays (by simp) hp
  | reply flow wait =>
    have hp := hprompt (by simp)
    unfold Prompt at hp
    rw [hs] at hp
    exact hstays (by simp) hp
  | askPark flow wait =>
    have hp := hprompt (by simp)
    unfold Prompt at hp
    rw [hs] at hp
    exact hstays (by simp) hp
  | _ => exact hstays (by simp) trivial

theorem step (h : KeptUp config s) (ti : ℕ × Input) (hkeep : KeepsUp s ti) :
    KeptUp config (step s ti) := by
  obtain ⟨t, i⟩ := ti
  refine ⟨h.owned.step _, h.homed.step _, h.configured.step _, fun id => ?_,
    h.oversize_step t i, fun id => ?_⟩
  · rcases step_mailbox s t i id with he | ⟨f, rest, op, -, -, he⟩
    · exact he ▸ h.charged id
    · exact he ▸ Mailbox.after_charged (h.charged id) op
  · rcases step_mailbox s t i id with he | ⟨f, rest, op, hs, hw, he⟩
    · rcases h.caughtUp id with ⟨flow, hf, rfl⟩ | hc
      · rcases mem_frames_step hf t i with ⟨rest, hs⟩ | hf
        · rw [step_mail hs rfl]
          exact h.caughtUp_after hkeep hs (.admitWaitingOn flow)
        · exact .inl ⟨flow, hf, rfl⟩
      · exact .inr (he ▸ hc)
    · rw [he]
      exact h.caughtUp_after hkeep hs hw

end KeptUp

/-- **When no waiting sender is left asleep.** In a run in which every step keeps up, in a state in
which no operation is in progress, no open mailbox would accept the hop of a waiting sender. -/
theorem no_lost_admission (config : MailboxConfig) (sched : List (ℕ × Input))
    (hkeep : Schedule.Guarded step KeepsUp (State.init config) sched)
    (hsettled : Settled (run config sched)) (id : FlowId)
    (hopen : ((run config sched).shared.mailboxes id).closed = false) :
    ∀ w ∈ ((run config sched).shared.mailboxes id).waitingSenders,
      ¬((run config sched).shared.mailboxes id).Acceptable w.message := by
  have hinv : KeptUp config (run config sched) :=
    hkeep.invariant (fun s ti hti h => h.step ti hti) (keptUp_init config)
  rcases hinv.caughtUp id with ⟨flow, hf, -⟩ | hc
  · exact (hsettled _ hf).elim
  · exact hc hopen

/-- The receiver of a full inbox takes its hop with `Receive`, which admits the waiting sender;
the sender runs on and sends once more than the inbox holds. -/
def receiveAdmits : List (ℕ × Input) :=
  sendTwice ++
    [(1, .start (.work 0)), (1, .pick 0), (1, .vm (.receive 0 none none none)), (1, .pick 0),
      (1, .pick 0), (1, .pick 0), (1, .pick 0)] ++ (sendTo .unit).drop 4

theorem no_lost_admission_receive :
    ¬((run smallest receiveAdmits).shared.mailboxes 1).Acceptable
      ⟨2, (Message.new 2 0 0 .unit).toValue⟩ :=
  have hkeep : Schedule.Guarded step Prompt (State.init smallest) receiveAdmits := by
    decide +kernel
  no_lost_admission smallest receiveAdmits (hkeep.mono fun _ _ h => .inl h)
    (settled_of_scheduled (by decide +kernel)) 1 (by decide +kernel)
    ⟨{ Flow.new 2 with pendingSend := some .fireAndForget },
      ⟨2, (Message.new 2 0 0 .unit).toValue⟩⟩ (by decide +kernel)

/-- Flow 1 asks flow 2, which answers at once; then flow 3 sends to the full inbox of flow 1, and
waits. Flow 1 takes the answer out of its inbox and parks in a `Receive`. -/
def askPops : List (ℕ × Input) :=
  [(0, .start .spawn), (0, .pick 0), (0, .start .spawn), (0, .pick 0), (0, .start .spawn),
    (0, .pick 0), (0, .start (.work 2)), (0, .pick 0), (1, .start (.work 1)), (1, .pick 0),
    (2, .start (.work 0)), (2, .pick 0),
    (0, .vm (.ask 0 2 (.new 1 7 0 .unit) CapId.none none)), (0, .pick 0), (0, .pick 0),
    (1, .vm (.send 1 (.new 2 7 0 .unit) CapId.none)), (1, .pick 0), (1, .pick 0),
    (2, .vm (.send 1 (.new 3 0 0 .unit) CapId.none)), (2, .pick 0), (2, .pick 0), (2, .pick 0),
    (2, .pick 0), (2, .pick 0),
    (0, .pick 0), (0, .vm (.receive 0 none none none)), (0, .pick 0), (0, .pick 0)]

/-- The receiver is parked for any hop, the inbox is empty, and the sender still waits. -/
theorem ask_pop_admits_nobody :
    ¬∀ (config : MailboxConfig) (sched : List (ℕ × Input)), Settled (run config sched) →
      ∀ id, ((run config sched).shared.mailboxes id).closed = false →
        ∀ w ∈ ((run config sched).shared.mailboxes id).waitingSenders,
          ¬((run config sched).shared.mailboxes id).Acceptable w.message := by
  intro hall
  have hsettled : Settled (run smallest askPops) := settled_of_scheduled (by decide +kernel)
  have h := hall smallest askPops hsettled 1 (by decide +kernel)
  revert h
  decide +kernel

end Machine

end Byteflow
