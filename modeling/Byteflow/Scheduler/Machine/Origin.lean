import Byteflow.Scheduler.Machine.Fifo

/-!
# Where hops come from

A hop is issued by a flow with `Send` or `Ask`, by the host, or as the `DOWN` of a monitor. It has a
name of its own, and the sender that the runtime stamped on it. Every hop that a thread carries, or
that lies in a mailbox, was issued so (`Originated`).
-/

namespace Byteflow

/-- A monitor `DOWN` hop: it has the reserved tag (`is_down`) and no reply address, which the hop of
a flow always carries. -/
def Message.IsDown (m : Message) : Prop := m.tag = tagSysDown ∧ m.replyCap = CapId.none

instance (m : Message) : Decidable m.IsDown := inferInstanceAs (Decidable (_ ∧ _))

theorem Message.down_isDown (monitor : UInt64) (target : FlowId) (reason : UInt64) :
    (Message.down monitor target reason).IsDown := ⟨rfl, rfl⟩

namespace Machine

variable {s : State}

/-- Who issues a hop. -/
inductive HopSource
  | flow (id : FlowId)
  | host
  | monitor
  deriving DecidableEq

/-- A hop and who issued it. -/
structure Issue where
  source : HopSource
  hop : Hop
  deriving DecidableEq

/-- The hop that a step issues. -/
def issued (s : State) (ti : ℕ × Input) : List Issue :=
  match s.threads ti.1, ti.2 with
  | .run flow :: _, .vm result =>
    (result.hop? flow.id s.shared.nextHop).toList.map fun p => ⟨.flow flow.id, p.2⟩
  | .down event :: _, _ =>
    [⟨.monitor, s.shared.nextHop,
      (Message.down event.monitor event.target event.reason.asU64).toValue⟩]
  | .hostStamp _ message :: _, _ =>
    [⟨.host, s.shared.nextHop, (message.authenticate FlowId.host CapId.none).toValue⟩]
  | _, _ => []

/-- The hops of a run, in the order in which they were issued. -/
def issueTrace (config : MailboxConfig) (sched : List (ℕ × Input)) : List Issue :=
  Schedule.trace step issued (State.init config) sched

def HopSource.Stamps (m : Message) : HopSource → Prop
  | .flow id => m.sender = id
  | .host => m.sender = FlowId.host
  | .monitor => m.IsDown

/-- The hop is a message that shows who issued it. -/
def Issue.Stamped (issue : Issue) : Prop :=
  ∃ m, issue.hop.value.asMessage = some m ∧ issue.source.Stamps m

/-- The frame carries a hop from this source. -/
def Frame.From (source : HopSource) : Frame → Prop
  | .send _ flow _ => source = .flow flow.id
  | .hostPush _ _ => source = .host
  | _ => True

/-- A step issues no hop, or one with the next name. -/
theorem issued_cases (s : State) (t : ℕ) (i : Input) :
    issued s (t, i) = [] ∨ ∃ issue, issued s (t, i) = [issue] ∧
      issue.hop.name = s.shared.nextHop ∧ issue.Stamped ∧
      (step s (t, i)).shared.nextHop = s.shared.nextHop + 1 := by
  unfold issued
  split
  · rename_i flow rest result hs hi
    have hi : i = .vm result := hi
    subst hi
    cases hhop : result.hop? flow.id s.shared.nextHop with
    | none => exact .inl rfl
    | some p =>
      obtain ⟨target, hop⟩ := p
      refine .inr ⟨_, rfl, VmResult.name_of_hop? hhop, ?_, nextHop_of_hop? hs hhop⟩
      cases result <;> cases hhop <;> exact ⟨_, rfl, rfl⟩
  · rename_i event rest hs
    refine .inr ⟨_, rfl, rfl, ⟨_, rfl, Message.down_isDown ..⟩, ?_⟩
    rw [step_shared, next_of_cons i hs]
    rfl
  · rename_i target message rest hs
    refine .inr ⟨_, rfl, rfl, ⟨_, rfl, rfl⟩, ?_⟩
    rw [step_shared, next_of_cons i hs]
    rfl
  · exact .inl rfl

/-- The hop of a frame after a step: the frame did not act, or it has the hop of the one that did,
or the hop is issued now. -/
theorem hop_from {t : ℕ} {i : Input} {g : Frame} {h : Hop} (hg : g ∈ (step s (t, i)).frames)
    (hh : g.hop = some h) :
    g ∈ s.others t ∨
      (∃ f rest, s.threads t = f :: rest ∧ f.hop = some h ∧
        ∀ source, f.From source → g.From source) ∨
      ∃ source, ⟨source, h⟩ ∈ issued s (t, i) ∧ g.From source := by
  refine (hop_comes hg hh).imp_right fun hcomes => ?_
  cases hcomes with
  | send hs hid => exact .inl ⟨_, _, hs, hh, fun _ hfrom => hfrom.trans (congrArg _ hid.symm)⟩
  | down hs => exact .inl ⟨_, _, hs, hh, fun _ _ => trivial⟩
  | @issueSend flow flow' out rest result hs hi hid hhop =>
    subst hi
    cases hh
    refine .inr ⟨.flow flow.id, ?_, congrArg _ hid.symm⟩
    unfold issued
    rw [hs]
    simp only [hhop, Option.toList_some, List.map_cons, List.map_nil, List.mem_singleton]
  | issueDown hs =>
    cases hh
    refine .inr ⟨.monitor, ?_, trivial⟩
    unfold issued
    rw [hs]
    exact List.mem_singleton_self _
  | issueHost hs =>
    cases hh
    refine .inr ⟨.host, ?_, rfl⟩
    unfold issued
    rw [hs]
    exact List.mem_singleton_self _

/-- Every hop was issued once, under its name. -/
structure Originated (s : State) (log : List Issue) : Prop where
  fresh : ∀ issue ∈ log, issue.hop.name < s.shared.nextHop
  unique : ∀ issue ∈ log, ∀ issue' ∈ log, issue.hop.name = issue'.hop.name → issue = issue'
  stamped : ∀ issue ∈ log, issue.Stamped
  frames : ∀ f ∈ s.frames, ∀ h, f.hop = some h → ∃ source, ⟨source, h⟩ ∈ log ∧ f.From source
  waiting : ∀ id, ∀ w ∈ (s.shared.mailboxes id).waitingSenders, ∃ source, ⟨source, w.message⟩ ∈ log
  queued : ∀ id, ∀ h ∈ (s.shared.mailboxes id).queue.inner, ∃ source, ⟨source, h⟩ ∈ log

theorem originated_init (config : MailboxConfig) : Originated (State.init config) [] where
  fresh := nofun
  unique := nofun
  stamped := nofun
  frames := fun _ hf => by obtain ⟨t, hf⟩ := hf; cases hf
  waiting := fun _ _ hw => by cases hw
  queued := fun _ _ hh => by cases hh

/-- **Every hop has its source.** -/
theorem Originated.step {log : List Issue} (h : Originated s log) (ti : ℕ × Input) :
    Originated (Machine.step s ti) (log ++ issued s ti) := by
  obtain ⟨t, i⟩ := ti
  have hle := nextHop_le_step s t i
  have hold : ∀ {hop}, (∃ source, ⟨source, hop⟩ ∈ log) →
      ∃ source, ⟨source, hop⟩ ∈ log ++ issued s (t, i) :=
    fun ⟨source, hs⟩ => ⟨source, List.mem_append_left _ hs⟩
  have hcarried : ∀ f rest hop, s.threads t = f :: rest → f.hop = some hop →
      ∃ source, ⟨source, hop⟩ ∈ log := by
    intro f rest hop hs hf
    obtain ⟨source, hmem, -⟩ := h.frames f (mem_frames_of_cons hs) hop hf
    exact ⟨source, hmem⟩
  constructor
  · intro issue hmem
    rcases List.mem_append.mp hmem with hmem | hmem
    · exact (h.fresh issue hmem).trans_le hle
    · rcases issued_cases s t i with he | ⟨issue', he, hname, -, hnext⟩
      · rw [he] at hmem
        cases hmem
      · rw [he] at hmem
        rw [List.mem_singleton.mp hmem, hname, hnext]
        exact Nat.lt_succ_self _
  · intro issue hmem issue' hmem' hname
    rcases issued_cases s t i with he | ⟨new, he, hnew, -, -⟩ <;> rw [he] at hmem hmem'
    · rw [List.append_nil] at hmem hmem'
      exact h.unique issue hmem issue' hmem' hname
    · rcases List.mem_append.mp hmem with hmem | hmem <;>
        rcases List.mem_append.mp hmem' with hmem' | hmem'
      · exact h.unique issue hmem issue' hmem' hname
      · rw [List.mem_singleton.mp hmem', hnew] at hname
        exact absurd hname (h.fresh issue hmem).ne
      · rw [List.mem_singleton.mp hmem, hnew] at hname
        exact absurd hname.symm (h.fresh issue' hmem').ne
      · rw [List.mem_singleton.mp hmem, List.mem_singleton.mp hmem']
  · intro issue hmem
    rcases List.mem_append.mp hmem with hmem | hmem
    · exact h.stamped issue hmem
    · rcases issued_cases s t i with he | ⟨new, he, -, hstamped, -⟩
      · rw [he] at hmem
        cases hmem
      · rw [he] at hmem
        rwa [List.mem_singleton.mp hmem]
  · intro g hg hop hh
    rcases hop_from hg hh with hg | ⟨f, rest, hs, hf, hfrom⟩ | ⟨source, hmem, hfrom⟩
    · obtain ⟨source, hmem, hfrom⟩ := h.frames g (mem_frames_of_others hg) hop hh
      exact ⟨source, List.mem_append_left _ hmem, hfrom⟩
    · obtain ⟨source, hmem, hsource⟩ := h.frames f (mem_frames_of_cons hs) hop hf
      exact ⟨source, List.mem_append_left _ hmem, hfrom source hsource⟩
    · exact ⟨source, List.mem_append_right _ hmem, hfrom⟩
  · intro id w hw
    rcases step_mailbox s t i id with he | ⟨f, rest, op, hs, hwrites, he⟩
    · exact hold (h.waiting id w (he ▸ hw))
    · rcases Mailbox.mem_waitingSenders_after (he ▸ hw) with hw | ⟨rfl, -⟩
      · exact hold (h.waiting id w hw)
      · obtain ⟨out, rfl, -, hhop⟩ := hwrites.of_parkSender
        exact hold (hcarried _ rest _ hs (congrArg some hhop))
  · intro id hop hh
    rcases step_mailbox s t i id with he | ⟨f, rest, op, hs, hwrites, he⟩
    · exact hold (h.queued id hop (he ▸ hh))
    · have hmem := (Mailbox.after_sublist (s.shared.mailboxes id) op).subset (he ▸ hh)
      rcases List.mem_append.mp hmem with hmem | hacc
      · exact hold (h.queued id hop hmem)
      · rcases accepted_step (i := i) hs hwrites hacc with ⟨hf, -⟩ | ⟨w, hw, rfl, -⟩
        · exact hold (hcarried f rest hop hs hf)
        · exact hold (h.waiting id w hw)

end Machine

end Byteflow
