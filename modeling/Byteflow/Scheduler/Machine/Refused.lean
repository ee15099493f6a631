import Byteflow.Scheduler.Machine.Inversion
import Byteflow.Scheduler.Mailbox.Waiting

/-!
# Refused hops

A hop that its target refused goes through `park_waiting_send` to the target's list of waiting
senders. What every push refuses is what waits there (`RefusedAre.step`).
-/

namespace Byteflow

namespace Machine

/-- The mailboxes keep the contract that the runtime spawns them with. -/
def Configured (config : MailboxConfig) (s : State) : Prop :=
  ∀ id, (s.shared.mailboxes id).config = config ∧
    (s.shared.mailboxes id).queue.limit = config.capacity.get ∧
    (s.shared.mailboxes id).queue.byteLimit = config.bytes.get

theorem configured_init (config : MailboxConfig) : Configured config (State.init config) :=
  fun _ => ⟨rfl, rfl, rfl⟩

theorem Configured.step {config : MailboxConfig} {s : State} (h : Configured config s)
    (ti : ℕ × Input) : Configured config (step s ti) := by
  intro id
  rcases step_mailbox s ti.1 ti.2 id with he | ⟨f, rest, op, -, -, he⟩
  · rw [he]
    exact h id
  · have hlimits := Mailbox.after_limit (s.shared.mailboxes id) op
    rw [he, Mailbox.after_config, hlimits.1, hlimits.2]
    exact h id

/-- The hop of a frame, when its target refused it. -/
def Frame.refused : Frame → Option Hop
  | .send .index _ out => some out.hop
  | .send .target _ out => some out.hop
  | .send .park _ out => some out.hop
  | _ => none

/-- A frame with a refused hop comes from one, or from a push that is refused. -/
theorem Leads.refused {σ : Shared} {f g : Frame} (hl : Leads σ f g) {h : Hop}
    (hg : g.refused = some h) :
    f.refused = some h ∨ ∃ flow out reason, f = .send .push flow out ∧ out.hop = h ∧
      ((σ.mailboxes out.target).push h).2 = .error reason := by
  cases hl with
  | plain hplain => cases g <;> first | cases hg | cases hplain
  | pushRefused hr =>
    cases hg
    exact .inr ⟨_, _, _, rfl, rfl, hr⟩
  | sendIndex => exact .inl hg
  | sendTarget => exact .inl hg
  | _ => cases hg

/-- The hops that were refused and those that wait have the property. -/
structure RefusedAre (P : Hop → Prop) (s : State) : Prop where
  refused : ∀ f ∈ s.frames, ∀ h, f.refused = some h → P h
  waiting : ∀ id, ∀ w ∈ (s.shared.mailboxes id).waitingSenders, P w.message

theorem refusedAre_init (P : Hop → Prop) (config : MailboxConfig) :
    RefusedAre P (State.init config) where
  refused := fun _ hf => by obtain ⟨t, hf⟩ := hf; cases hf
  waiting := fun _ _ hw => by cases hw

/-- **What waits was refused by a push.** -/
theorem RefusedAre.step {P : Hop → Prop} {s : State} (hs : RefusedAre P s) (t : ℕ) (i : Input)
    (hpush : ∀ flow out rest reason, s.threads t = .send .push flow out :: rest →
      ((s.shared.mailboxes out.target).push out.hop).2 = .error reason → P out.hop) :
    RefusedAre P (step s (t, i)) := by
  constructor
  · intro g hg h hh
    cases step_cases s t i with
    | acts f rest w htop _ hw hσ hnew =>
      rcases hnew g hg with hg | hl
      · exact hs.refused g (mem_frames_of_others hg) h hh
      rcases hl.refused hh with hf | ⟨flow, out, reason, rfl, rfl, hr⟩
      · exact hs.refused f (mem_frames_of_cons htop) h hf
      · exact hpush flow out rest reason htop hr
    | starts w htop hw hσ hnew =>
      rcases hnew g hg with hg | hst
      · exact hs.refused g (mem_frames_of_others hg) h hh
      · cases hst with
        | plain hplain => cases g <;> first | cases hh | cases hplain
        | _ => cases hh
  · intro id w hw
    rcases step_mailbox s t i id with he | ⟨f, rest, op, htop, hw', he⟩
    · rw [he] at hw
      exact hs.waiting id w hw
    · rw [he] at hw
      rcases Mailbox.mem_waitingSenders_after hw with hw | ⟨rfl, -⟩
      · exact hs.waiting id w hw
      · obtain ⟨out, rfl, -, hhop⟩ := hw'.of_parkSender
        exact hhop ▸ hs.refused _ (mem_frames_of_cons htop) _ rfl

/-- The smallest inbox, which refuses what does not fit. -/
def smallest : MailboxConfig := .oneHop .reject

/-- Two flows are spawned, and the second one sends the payload to the first one, up to the end of
`park_waiting_send`. -/
def sendTo (payload : Value) : List (ℕ × Input) :=
  [(0, .start .spawn), (0, .pick 0), (0, .start .spawn), (0, .pick 0), (0, .start (.work 0)),
    (0, .pick 0), (0, .vm (.send 1 (.new 0 0 0 payload) CapId.none)), (0, .pick 0), (0, .pick 0),
    (0, .pick 0), (0, .pick 0), (0, .pick 0)]

/-- One more `Send` than the inbox holds: its hop waits. -/
def sendTwice : List (ℕ × Input) := (sendTo .unit).take 9 ++ (sendTo .unit).drop 6

end Machine

end Byteflow
