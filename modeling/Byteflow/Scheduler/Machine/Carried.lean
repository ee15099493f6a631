import Byteflow.Scheduler.Machine.Origin

/-!
# What hops carry

A hop is on its way to its target from the step that issues it until a receiver takes it: in a
frame, in the list of waiting senders, in the queue. What holds of every hop as it is issued holds
of it all the way (`Carries.step`). What a flow is handed in the end (`Frame.hands`) is the value of
such a hop, or was made by the scheduler: `Unit` when a deadline fires, or the notice that the
target of an `Ask` has exited.
-/

namespace Byteflow

namespace Machine

variable {s : State} {P Q : FlowId → Hop → Prop}

/-- The hop that a frame carries, with its target. -/
def Frame.aimed : Frame → Option (FlowId × Hop)
  | .send _ _ out => some (out.target, out.hop)
  | .downLookup owner hop => some (owner, hop)
  | .downPush owner hop => some (owner, hop)
  | .hostPush target hop => some (target, hop)
  | _ => none

/-- The hop that a step issues, with its target. -/
def aims (s : State) (ti : ℕ × Input) : Option (FlowId × Hop) :=
  match s.threads ti.1, ti.2 with
  | .run flow :: _, .vm result => result.hop? flow.id s.shared.nextHop
  | .down event :: _, _ =>
    some (event.owner, ⟨s.shared.nextHop,
      (Message.down event.monitor event.target event.reason.asU64).toValue⟩)
  | .hostStamp target message :: _, _ =>
    some (target, ⟨s.shared.nextHop, (message.authenticate FlowId.host CapId.none).toValue⟩)
  | _, _ => none

/-- Every hop on its way satisfies `P`, together with its target. -/
structure Carries (P : FlowId → Hop → Prop) (s : State) : Prop where
  frames : ∀ f ∈ s.frames, ∀ id h, f.aimed = some (id, h) → P id h
  waiting : ∀ id, ∀ w ∈ (s.shared.mailboxes id).waitingSenders, P id w.message
  queued : ∀ id, ∀ h ∈ (s.shared.mailboxes id).queue.inner, P id h

theorem carries_init (P : FlowId → Hop → Prop) (config : MailboxConfig) :
    Carries P (State.init config) where
  frames := fun _ hf => by obtain ⟨t, hf⟩ := hf; cases hf
  waiting := fun _ _ hw => by cases hw
  queued := fun _ _ hh => by cases hh

theorem Carries.mono (h : Carries P s) (hPQ : ∀ id hop, P id hop → Q id hop) : Carries Q s where
  frames := fun f hf id hop hh => hPQ id hop (h.frames f hf id hop hh)
  waiting := fun id w hw => hPQ id _ (h.waiting id w hw)
  queued := fun id hop hh => hPQ id hop (h.queued id hop hh)

/-- The hop of a frame after a step: the frame did not act, or it has the hop of the one that did,
or the hop is issued now. -/
theorem aimed_step {t : ℕ} {i : Input} {g : Frame} {target : FlowId} {h : Hop}
    (hg : g ∈ (step s (t, i)).frames) (hh : g.aimed = some (target, h)) :
    g ∈ s.others t ∨ (∃ f rest, s.threads t = f :: rest ∧ f.aimed = some (target, h)) ∨
      aims s (t, i) = some (target, h) := by
  have hhop : g.hop = some h := by
    cases g <;> cases hh <;> rfl
  refine (hop_comes hg hhop).imp_right fun hcomes => ?_
  cases hcomes with
  | send hs hid => exact .inl ⟨_, _, hs, hh⟩
  | down hs => exact .inl ⟨_, _, hs, hh⟩
  | issueSend hs hi hid hissued =>
    subst hi
    cases hh
    refine .inr ?_
    unfold aims
    rw [hs]
    exact hissued
  | issueDown hs =>
    refine .inr ?_
    unfold aims
    rw [hs]
    exact hh
  | issueHost hs =>
    refine .inr ?_
    unfold aims
    rw [hs]
    exact hh

/-- A hop that a mailbox accepts is carried by the frame on top, or was waiting at the mailbox. -/
theorem aimed_of_accepted {f : Frame} {id : FlowId} {op : Mailbox.Op Hop}
    (hw : Writes f (.mail id op)) {h : Hop} (hh : h ∈ (s.shared.mailboxes id).acceptedBy op) :
    f.aimed = some (id, h) ∨ ∃ w ∈ (s.shared.mailboxes id).waitingSenders, w.message = h := by
  cases hw with
  | push flow out =>
    simp only [Mailbox.acceptedBy] at hh
    split at hh
    · cases hh
    · rw [List.mem_singleton.mp hh]
      exact .inl rfl
    · cases hh
  | downPush owner hop =>
    rw [List.mem_singleton.mp hh]
    exact .inl rfl
  | hostPush target hop =>
    simp only [Mailbox.acceptedBy] at hh
    split at hh
    · cases hh
    · rw [List.mem_singleton.mp hh]
      exact .inl rfl
    · cases hh
  | admitWaitingOn flow =>
    simp only [Mailbox.acceptedBy] at hh
    split at hh
    · obtain ⟨w, hw, rfl⟩ := List.mem_map.mp (List.mem_of_mem_take hh)
      exact .inr ⟨w, hw, rfl⟩
    · cases hh
  | _ => cases hh

/-- What the mailbox of a flow accepts satisfies `P`. -/
theorem Carries.accepted (h : Carries P s) {id : FlowId} {t : ℕ} {i : Input} {hop : Hop}
    (hh : hop ∈ accepted id s (t, i)) : P id hop := by
  unfold Machine.accepted at hh
  rcases opOn_cases s id t i with ⟨he, -⟩ | ⟨f, rest, op, he, hs, hw, -⟩ <;> rw [he] at hh
  · cases hh
  · rcases aimed_of_accepted hw hh with hf | ⟨w, hw, rfl⟩
    · exact h.frames f (mem_frames_of_cons hs) id hop hf
    · exact h.waiting id w hw

/-- **All the way.** A property that hops have when they are issued stays with them. -/
theorem Carries.step (h : Carries P s) (ti : ℕ × Input)
    (hissue : ∀ id hop, aims s ti = some (id, hop) → P id hop) :
    Carries P (Machine.step s ti) := by
  obtain ⟨t, i⟩ := ti
  constructor
  · intro g hg id hop hh
    rcases aimed_step hg hh with hg | ⟨f, rest, hs, hf⟩ | hnew
    · exact h.frames g (mem_frames_of_others hg) id hop hh
    · exact h.frames f (mem_frames_of_cons hs) id hop hf
    · exact hissue id hop hnew
  · intro id w hw
    rcases step_mailbox s t i id with he | ⟨f, rest, op, hs, hwrites, he⟩
    · exact h.waiting id w (he ▸ hw)
    · rcases Mailbox.mem_waitingSenders_after (he ▸ hw) with hw | ⟨rfl, -⟩
      · exact h.waiting id w hw
      · obtain ⟨out, rfl, rfl, hhop⟩ := hwrites.of_parkSender
        exact h.frames _ (mem_frames_of_cons hs) _ _ (hhop ▸ rfl)
  · intro id hop hh
    rcases step_mailbox s t i id with he | ⟨f, rest, op, hs, hwrites, he⟩
    · exact h.queued id hop (he ▸ hh)
    · have hmem := (Mailbox.after_sublist (s.shared.mailboxes id) op).subset (he ▸ hh)
      rcases List.mem_append.mp hmem with hmem | hacc
      · exact h.queued id hop hmem
      · rcases aimed_of_accepted hwrites hacc with hf | ⟨w, hw, rfl⟩
        · exact h.frames f (mem_frames_of_cons hs) id hop hf
        · exact h.waiting id w hw

/-! ## Hops of the host -/

/-- A hop that the host is about to stamp satisfies `S`, together with its target. -/
def Frame.Stamps (S : FlowId → Message → Prop) : Frame → Prop
  | .hostLookup _ _ => False
  | .hostStamp target message => S target message
  | _ => True

theorem Frame.Stamps.mono {S S' : FlowId → Message → Prop} {f : Frame} (h : f.Stamps S)
    (hS : ∀ target message, S target message → S' target message) : f.Stamps S' := by
  cases f with
  | hostStamp target message => exact hS _ _ h
  | hostLookup target message => exact h
  | _ => trivial

/-- A call of the host looks its target up first. -/
theorem stamps_next {S : FlowId → Message → Prop} {σ : Shared} {i : Input} {f g : Frame}
    (hf : f.Stamps S) (hg : g ∈ (σ.exec (f.next i)).2) : g.Stamps S := by
  cases leads hg with
  | plain hplain hfplain =>
    cases f with
    | hostLookup target message => exact hf.elim
    | hostStamp target message => cases List.mem_singleton.mp hg; trivial
    | relate relation =>
      simp only [Frame.next, Shared.exec] at hg
      split_ifs at hg
      · cases List.mem_singleton.mp hg
        trivial
      · cases List.mem_singleton.mp hg
        trivial
      · cases hg
    | nameChild child name cap =>
      simp only [Frame.next, Shared.exec] at hg
      split at hg
      · cases hg
      · cases List.mem_singleton.mp hg
        trivial
    | _ => exact hfplain.elim
  | _ => trivial

theorem stamps_of_start {S : FlowId → Message → Prop} {σ : Shared} {op : Operation} {g : Frame}
    (hop : ∀ target message, op ≠ .send target message) (hg : g ∈ (σ.exec op.start).2) :
    g.Stamps S := by
  have hone {f : Frame} (hg : g ∈ [f]) (hf : f.Stamps S) : g.Stamps S :=
    List.mem_singleton.mp hg ▸ hf
  cases op with
  | send target message => exact absurd rfl (hop target message)
  | spawnChild name cap =>
    simp only [Operation.start, Shared.exec] at hg
    split_ifs at hg
    · exact hone hg trivial
    · rcases List.mem_pair.mp hg with rfl | rfl <;> trivial
  | monitor owner target =>
    simp only [Operation.start, Shared.exec] at hg
    split_ifs at hg
    · cases hg
    · exact hone hg trivial
  | link a b =>
    simp only [Operation.start, Shared.exec] at hg
    split_ifs at hg
    · cases hg
    · exact hone hg trivial
  | demonitor owner ref => exact hone hg trivial
  | unlink owner ref => exact hone hg trivial
  | registerName name cap target => exact hone hg trivial
  | unregisterName name => cases hg
  | spawn => exact hone hg trivial
  | kill id reason => exact hone hg trivial
  | work n =>
    simp only [Operation.start, Shared.exec] at hg
    split at hg
    · exact hone hg trivial
    · cases hg
  | fire n =>
    simp only [Operation.start, Shared.exec] at hg
    split at hg
    · split at hg <;> exact hone hg trivial
    · cases hg

/-- A hop that the host stamps was there before, unless the host sends one now. -/
theorem stamps_step {S : FlowId → Message → Prop} (h : ∀ f ∈ s.frames, f.Stamps S)
    {ti : ℕ × Input}
    (hi : s.threads ti.1 = [] → ∀ target message, ti.2 ≠ .start (.send target message)) :
    ∀ f ∈ (Machine.step s ti).frames, f.Stamps S := by
  obtain ⟨t, i⟩ := ti
  intro g hg
  rcases frames_of_step hg with hg | hg
  · exact h g (mem_frames_of_others hg)
  rcases next_cases s t i with ⟨f, rest, hs, hn⟩ | ⟨hs, ⟨op, hop, hn⟩ | hn⟩ <;> rw [hn] at hg
  · exact stamps_next (h f (mem_frames_of_cons hs)) hg
  · refine stamps_of_start (fun target message => ?_) hg
    rintro rfl
    exact hi hs target message hop
  · cases hg

/-! ## What a flow is handed -/

/-- A value for a register of a flow. -/
structure Handed where
  flow : FlowId
  destReg : UInt8
  value : Value
  deriving DecidableEq

/-- The value goes to the register of the wait that it ends. -/
def handOver (flow : Flow Hop) (value : Value) : Option Handed :=
  flow.lastReceiveDest.map fun destReg => ⟨flow.id, destReg, value⟩

/-- The flow that took a hop from its queue gets it. -/
def handPending (flow : Flow Hop) : Option Handed :=
  flow.pendingMessage.bind fun hop => handOver flow hop.value

/-- What a flow is handed when the frame runs. A deadline writes to the register that it was armed
with, which is that of the wait it still owns. -/
def Frame.hands (σ : Shared) : Frame → Option Handed
  | .drive flow => handPending flow
  | .send .push _ out =>
    match ((σ.mailboxes out.target).push out.hop).2 with
    | .ok (.handoff receiver) => handOver receiver out.hop.value
    | _ => none
  | .receive flow filter _ =>
    ((σ.mailboxes flow.id).tryPopFilter filter).2.bind fun hop => handOver flow hop.value
  | .park flow filter _ =>
    match ((σ.mailboxes flow.id).parkFilter flow filter).2 with
    | .error flow => handPending flow
    | .ok _ => none
  | .ask .reply flow wait =>
    ((σ.mailboxes flow.id).tryPopFilter wait.filter).2.map fun hop =>
      ⟨flow.id, wait.destReg, hop.value⟩
  | .ask .park flow wait =>
    match ((σ.mailboxes flow.id).parkFilter flow wait.filter).2 with
    | .error flow => flow.pendingMessage.map fun hop => ⟨flow.id, wait.destReg, hop.value⟩
    | .ok _ => none
  | .askTake asker wait => (σ.mailboxes asker).parked.map fun flow =>
      ⟨flow.id, wait.destReg,
        (Message.linkedExit wait.target FlowExitReason.fault.asU64).toValue⟩
  | .fire pid epoch =>
    ((σ.mailboxes pid).takeParkedAt epoch).2.bind fun flow => handOver flow .unit
  | .downPush owner hop =>
    match ((σ.mailboxes owner).pushSystem hop).2 with
    | .handoff receiver => handOver receiver hop.value
    | _ => none
  | .hostPush target hop =>
    match ((σ.mailboxes target).push hop).2 with
    | .ok (.handoff receiver) => handOver receiver hop.value
    | _ => none
  | .fin (.wakeTake asker _) cur _ => (σ.mailboxes asker).parked.bind fun flow =>
      handOver flow (Message.linkedExit cur.id cur.reason.asU64).toValue
  | _ => none

end Machine

end Byteflow
