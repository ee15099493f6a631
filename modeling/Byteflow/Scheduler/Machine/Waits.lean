import Byteflow.Scheduler.Machine.Exited
import Byteflow.Scheduler.Machine.Holders

/-!
# What flows wait for

A flow waits for hops that a filter accepts: that of its `Receive`, or the reply to its `Ask`. What
the VM's requests say of these filters holds as long as the flow waits (`Waits.step`). So what a
flow is handed is a hop to its own mailbox that its filter accepts, or was made by the scheduler
(`handed_to`).
-/

namespace Byteflow

namespace Machine

variable {s : State} {P P' : FlowId → WaitFilter → Prop}

/-- The flow may wait for a reply of the other one. -/
def Asks (P : FlowId → WaitFilter → Prop) (id target : FlowId) : Prop :=
  ∀ requestId, P id (.ask requestId target)

/-- What the VM asks to wait for. -/
def VmResult.Waits (P : FlowId → WaitFilter → Prop) (id : FlowId) : VmResult → Prop
  | .receive _ _ matchTag matchRequestId => P id (receiveFilter matchTag matchRequestId)
  | .ask _ target _ _ _ => Asks P id target
  | _ => True

/-- What the flow of the frame waits for, or will. -/
def Frame.Waits (P : FlowId → WaitFilter → Prop) : Frame → Prop
  | .send stage flow out => out.pending.Awaits (Asks P flow.id) ∧
      (stage = .lookup ∨ stage = .push ∨ AwaitsIfRefused (Asks P flow.id) flow)
  | .receive flow filter _ => P flow.id filter
  | .admitted sender => AwaitsIfRefused (Asks P sender.id) sender
  | .park flow filter _ => P flow.id filter
  | .ask _ flow wait => Asks P flow.id wait.target
  | _ => True

/-- Every flow waits, or will wait, with a filter that it may wait with. -/
structure Waits (P : FlowId → WaitFilter → Prop) (s : State) : Prop where
  frames : ∀ f ∈ s.frames, f.Waits P
  waiting : ∀ id, ∀ w ∈ (s.shared.mailboxes id).waitingSenders,
    AwaitsIfRefused (Asks P w.flow.id) w.flow
  parked : ∀ id flow, (s.shared.mailboxes id).parked = some flow →
    P flow.id (s.shared.mailboxes id).parkedFilter

theorem waits_init (P : FlowId → WaitFilter → Prop) (config : MailboxConfig) :
    Waits P (State.init config) where
  frames := fun _ hf => by obtain ⟨t, hf⟩ := hf; cases hf
  waiting := fun _ _ hw => by cases hw
  parked := nofun

theorem Frame.Waits.mono {f : Frame} (h : f.Waits P)
    (hP : ∀ id filter, P id filter → P' id filter) :
    f.Waits P' := by
  have hasks (id target : FlowId) (h : Asks P id target) : Asks P' id target :=
    fun requestId => hP _ _ (h requestId)
  cases f with
  | send stage flow out =>
    exact ⟨h.1.mono (hasks _), h.2.imp_right fun h => h.imp_right fun h => h.mono (hasks _)⟩
  | receive flow filter timeout => exact hP _ _ h
  | admitted sender => exact AwaitsIfRefused.mono h (hasks _)
  | park flow filter timeout => exact hP _ _ h
  | ask stage flow wait => exact hasks _ _ h
  | _ => trivial

theorem Waits.mono (h : Waits P s) (hP : ∀ id filter, P id filter → P' id filter) : Waits P' s where
  frames := fun f hf => (h.frames f hf).mono hP
  waiting := fun id w hw => (h.waiting id w hw).mono fun _ h requestId => hP _ _ (h requestId)
  parked := fun id flow hp => hP _ _ (h.parked id flow hp)

/-- A frame that the VM's effect leads to waits for what the VM asks. -/
theorem waits_of_effect {σ : Shared} {flow : Flow Hop} {result : VmResult} {g : Frame}
    (hresult : result.Waits P flow.id) (hg : g ∈ (σ.exec (effect flow result)).2) : g.Waits P := by
  cases effects hg with
  | send target message replyCap => exact ⟨trivial, .inl rfl⟩
  | receive destReg timeout tag rid => exact hresult
  | ask destReg target request replyCap timeout => exact ⟨hresult, .inl rfl⟩
  | _ => trivial

/-- What the frame on top leads to waits for nothing else. -/
theorem waits_next {σ : Shared} {i : Input} {f g : Frame} (hf : f.Waits P)
    (hadmitted : ∀ id sender, (σ.mailboxes id).admitWaitingSender.2 = some sender →
      AwaitsIfRefused (Asks P sender.id) sender)
    (hvm : ∀ flow result, f = .run flow → i = .vm result → result.Waits P flow.id)
    (hg : g ∈ (σ.exec (f.next i)).2) : g.Waits P := by
  cases leads hg with
  | plain hplain => cases g <;> first | exact hplain.elim | trivial
  | runSend _ _ | runReceive _ _ _ _ =>
    cases i with
    | vm result => exact waits_of_effect (hvm _ result rfl rfl) hg
    | _ => cases List.mem_singleton.mp hg
  | sendPush hlive => exact ⟨hf.1, .inr (.inl rfl)⟩
  | @sendReply flow out stage wait hstage hout =>
    have := hf.1
    rw [hout] at this
    exact this
  | pushRefused h =>
    refine ⟨hf.1, .inr (.inr fun pending hp => ?_)⟩
    cases hp
    exact hf.1
  | sendIndex | sendTarget h | sendGone h | parkClosed h =>
    exact ⟨hf.1, .inr (.inr (hf.2.resolve_left nofun |>.resolve_left nofun))⟩
  | receivePark h => exact hf
  | admitAdmitted h => exact hadmitted _ _ h
  | admittedAsk h => exact hf _ h
  | replyInsert h => exact hf
  | insertPark h => exact hf
  | _ => trivial

/-- **Waits.** What flows wait for stays as the VM asked. -/
theorem Waits.step (h : Waits P s) (ti : ℕ × Input)
    (hvm : ∀ flow rest result, s.threads ti.1 = .run flow :: rest → ti.2 = .vm result →
      result.Waits P flow.id) : Waits P (Machine.step s ti) := by
  obtain ⟨t, i⟩ := ti
  constructor
  · intro g hg
    rcases frames_of_step hg with hg | hg
    · exact h.frames g (mem_frames_of_others hg)
    rcases next_cases s t i with ⟨f, rest, hs, hn⟩ | ⟨hs, ⟨op, -, hn⟩ | hn⟩
    · rw [hn] at hg
      refine waits_next (h.frames f (mem_frames_of_cons hs)) (fun id sender ha => ?_)
        (fun flow result hrun hi => hvm flow rest result (hrun ▸ hs) hi) hg
      obtain ⟨w, hw, rfl⟩ := Mailbox.waiting_of_admit ha
      exact h.waiting id w hw
    · rw [hn] at hg
      cases starts hg with
      | plain hplain => cases g <;> first | exact hplain.elim | trivial
      | _ => trivial
    · rw [hn] at hg
      cases hg
  · intro id w hw
    rcases step_mailbox s t i id with he | ⟨f, rest, op, hs, hwrites, he⟩
    · exact h.waiting id w (he ▸ hw)
    · rcases Mailbox.mem_waitingSenders_after (he ▸ hw) with hw | ⟨rfl, -⟩
      · exact h.waiting id w hw
      · obtain ⟨out, rfl, -, -⟩ := hwrites.of_parkSender
        have hf := (h.frames _ (mem_frames_of_cons hs)).2
        exact hf.resolve_left nofun |>.resolve_left nofun
  · intro id flow hp
    rcases step_mailbox s t i id with he | ⟨f, rest, op, hs, hwrites, he⟩
    · rw [he] at hp ⊢
      exact h.parked id flow hp
    · rw [he] at hp ⊢
      rcases Mailbox.parked_of_after hp with ⟨hp, hfilter⟩ | ⟨filter, rfl, -, hfilter⟩
      · rw [hfilter]
        exact h.parked id flow hp
      · rw [hfilter]
        obtain ⟨-, ⟨timeout, rfl⟩ | ⟨wait, rfl, rfl⟩⟩ := hwrites.of_parkFilter
        · exact h.frames _ (mem_frames_of_cons hs)
        · exact h.frames _ (mem_frames_of_cons hs) _

/-! ## What a flow is handed -/

/-- Where a value that a flow is handed comes from. -/
inductive HandedTo (P : FlowId → WaitFilter → Prop) (X : FlowId → Prop) (σ : Shared) :
    Frame → Handed → Prop
  | pending {flow hop r} (h : flow.pendingMessage = some hop) : HandedTo P X σ (.drive flow) r
  /-- A hop to the flow, of those that it waits for. -/
  | hop {f r hop filter} (hvalue : r.value = hop.value) (hwaits : P r.flow filter)
      (haccepts : filter.accepts hop = true)
      (hop : f.aimed = some (r.flow, hop) ∨ hop ∈ (σ.mailboxes r.flow).queue.inner) :
      HandedTo P X σ f r
  | deadline {f r} (hvalue : r.value = .unit) : HandedTo P X σ f r
  /-- The target of its `Ask` has exited. -/
  | exit {f r target} (code : UInt64) (hvalue : r.value = (Message.linkedExit target code).toValue)
      (hexited : X target) : HandedTo P X σ f r

theorem handOver_eq {flow : Flow Hop} {value : Value} {r : Handed}
    (h : handOver flow value = some r) : r.flow = flow.id ∧ r.value = value := by
  obtain ⟨destReg, -, rfl⟩ := Option.map_eq_some_iff.mp h
  exact ⟨rfl, rfl⟩

/-- A hop that is popped was in the queue, and is one that was looked for. -/
theorem of_tryPopFilter {m : Mailbox Hop} {filter : WaitFilter} {hop : Hop}
    (h : (m.tryPopFilter filter).2 = some hop) :
    hop ∈ m.queue.inner ∧ filter.accepts hop = true := by
  rcases m.tryPopFilter_cases filter with ⟨hop', hfind, he⟩ | ⟨-, he⟩ <;> rw [he] at h <;> cases h
  exact ⟨List.mem_of_find?_eq_some hfind, List.find?_some hfind⟩

/-- So is a hop that ends a wait before it starts. -/
theorem of_parkFilter {m : Mailbox Hop} {flow flow' : Flow Hop} {filter : WaitFilter} {hop : Hop}
    (h : (m.parkFilter flow filter).2 = .error flow') (hp : flow'.pendingMessage = some hop) :
    flow'.id = flow.id ∧ hop ∈ m.queue.inner ∧ filter.accepts hop = true := by
  rcases m.parkFilter_cases flow filter with ⟨hop', hfind, he⟩ |
    ⟨-, he⟩ <;> rw [he] at h <;> cases h
  cases hp
  exact ⟨rfl, List.mem_of_find?_eq_some hfind, List.find?_some hfind⟩

/-- A receiver that takes a hop wants it. -/
theorem of_handoff {m : Mailbox Hop} {hop : Hop} {receiver : Flow Hop}
    (h : (m.push hop).2 = .ok (.handoff receiver)) :
    m.parked = some receiver ∧ m.parkedFilter.accepts hop = true := by
  rcases m.push_cases hop with ⟨flow, hp, ha, he⟩ | ⟨-, he⟩ <;> rw [he] at h
  · cases h
    exact ⟨hp, ha⟩
  · exact absurd h (m.enqueueLocked_ne_handoff hop _ receiver)

theorem of_system_handoff {m : Mailbox Hop} {hop : Hop} {receiver : Flow Hop}
    (h : (m.pushSystem hop).2 = .handoff receiver) :
    m.parked = some receiver ∧ m.parkedFilter.accepts hop = true := by
  rcases m.pushSystem_cases hop with ⟨flow, hp, ha, he⟩ | ⟨-, he⟩ <;> rw [he] at h <;> cases h
  exact ⟨hp, ha⟩

theorem handed_to {W X : FlowId → Prop} (hw : Waits P s) (hhomed : Homed s) {f : Frame}
    (hf : f ∈ s.frames) (htrue : f.Honest W X) {r : Handed} (h : f.hands s.shared = some r) :
    HandedTo P X s.shared f r := by
  have hwaits := hw.frames f hf
  have hparked {id : FlowId} {hop : Hop} {receiver : Flow Hop} (hin : f.aimed = some (id, hop))
      (hp : (s.shared.mailboxes id).parked = some receiver)
      (ha : (s.shared.mailboxes id).parkedFilter.accepts hop = true)
      (h : handOver receiver hop.value = some r) : HandedTo P X s.shared f r := by
    obtain ⟨hid, hvalue⟩ := handOver_eq h
    have hfilter := hw.parked id receiver hp
    rw [← hid] at hfilter
    rw [← hhomed id receiver hp, ← hid] at hin
    exact .hop hvalue hfilter ha (.inl hin)
  unfold Frame.hands at h
  split at h
  · obtain ⟨hop, hp, -⟩ := Option.bind_eq_some_iff.mp h
    exact .pending hp
  · split at h
    · rename_i hpush
      obtain ⟨hp, ha⟩ := of_handoff hpush
      exact hparked rfl hp ha h
    · cases h
  · obtain ⟨hop, hp, h⟩ := Option.bind_eq_some_iff.mp h
    obtain ⟨hid, hvalue⟩ := handOver_eq h
    obtain ⟨hmem, ha⟩ := of_tryPopFilter hp
    rw [← hid] at hmem
    exact .hop hvalue (hid ▸ hwaits) ha (.inr hmem)
  · split at h
    · rename_i hpark
      obtain ⟨hop, hp, h⟩ := Option.bind_eq_some_iff.mp h
      obtain ⟨hid, hvalue⟩ := handOver_eq h
      obtain ⟨hflow, hmem, ha⟩ := of_parkFilter hpark hp
      rw [← hflow, ← hid] at hmem
      exact .hop hvalue (hid ▸ hflow ▸ hwaits) ha (.inr hmem)
    · cases h
  · obtain ⟨hop, hp, rfl⟩ := Option.map_eq_some_iff.mp h
    obtain ⟨hmem, ha⟩ := of_tryPopFilter hp
    exact .hop rfl (hwaits _) ha (.inr hmem)
  · split at h
    · rename_i hpark
      obtain ⟨hop, hp, rfl⟩ := Option.map_eq_some_iff.mp h
      obtain ⟨hflow, hmem, ha⟩ := of_parkFilter hpark hp
      rw [← hflow] at hmem
      exact .hop rfl (hflow ▸ hwaits _) ha (.inr hmem)
    · cases h
  · obtain ⟨flow, -, rfl⟩ := Option.map_eq_some_iff.mp h
    exact .exit _ rfl htrue
  · obtain ⟨flow, -, h⟩ := Option.bind_eq_some_iff.mp h
    exact .deadline (handOver_eq h).2
  · split at h
    · rename_i hpush
      obtain ⟨hp, ha⟩ := of_system_handoff hpush
      exact hparked rfl hp ha h
    · cases h
  · split at h
    · rename_i hpush
      obtain ⟨hp, ha⟩ := of_handoff hpush
      exact hparked rfl hp ha h
    · cases h
  · obtain ⟨flow, -, h⟩ := Option.bind_eq_some_iff.mp h
    exact .exit _ (handOver_eq h).2 (htrue.1.resolve_left nofun)
  · cases h

end Machine

end Byteflow
