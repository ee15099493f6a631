import Byteflow.Scheduler.Machine.Carried
import Byteflow.Scheduler.Machine.Flows
import Byteflow.Scheduler.Machine.Waits

/-!
# Answers that are due

A flow that asks for an answer names a register for it. Until the flow runs again, its box notes
this register down or the frame that holds the box does (`Due.step`). So a value that the machine
has for a flow goes to the register that the flow named (`Due.hands`), except where the recheck of
an `Ask` takes the flow out of another wait.
-/

namespace Byteflow

namespace Machine

variable {s s' : State} {asked asked' : FlowId → Option UInt8}
  {settled settled' busy busy' : FlowId → Prop} {id : FlowId}

/-- The flow waits for the answer that it asked for. -/
def Expects (asked : FlowId → Option UInt8) (flow : Flow Hop) (reg : UInt8) : Prop :=
  flow.lastReceiveDest = some reg ∧ asked flow.id = some reg

/-- What the flow waits for once its hop is accepted. -/
def ExpectsAfter (asked : FlowId → Option UInt8) (settled : FlowId → Prop) (flow : Flow Hop) :
    Option PendingSend → Prop
  | some (.ask destReg ..) => Expects asked flow destReg
  | _ => settled flow.id

/-- What an effect leaves to wait for. The flow goes on after all but the first ones, unless the
effect fails. -/
def VmResult.Due (asked : FlowId → Option UInt8) (settled : FlowId → Prop) (σ : Shared)
    (id : FlowId) : VmResult → Prop
  | .complete _ => True
  | .trap _ => True
  | .receive destReg .. => asked id = some destReg
  | .ask destReg .. => asked id = some destReg
  | .monitor target => target = id ∨ settled id
  | .link target => target = id ∨ (∃ e, (σ.links.link id target).2 = .error e) ∨ settled id
  | _ => settled id

/-- The frame knows where the answer to its flow goes, or its flow waits for none. -/
def Frame.Due (asked : FlowId → Option UInt8) (settled busy : FlowId → Prop) : Frame → Prop
  | .drive flow => settled flow.id
  | .run flow => busy flow.id ∨ settled flow.id
  | .send stage flow out => ExpectsAfter asked settled flow (some out.pending) ∧
      (stage = .lookup ∨ stage = .push ∨ flow.pendingSend = some out.pending)
  | .receive flow _ _ => ∃ reg, Expects asked flow reg
  | .admitWaitingOn flow => settled flow.id
  | .admitted sender => ExpectsAfter asked settled sender sender.pendingSend
  | .park flow _ _ => ∃ reg, Expects asked flow reg
  | .ask _ flow wait => Expects asked flow wait.destReg
  | .forget flow => settled flow.id
  | .wake flow => settled flow.id
  | _ => True

/-- Every flow that waits for an answer has noted down where it goes. -/
structure Due (asked : FlowId → Option UInt8) (settled busy : FlowId → Prop)
    (s : State) : Prop where
  frames : ∀ f ∈ s.frames, f.Due asked settled busy
  waiting : ∀ id, ∀ w ∈ (s.shared.mailboxes id).waitingSenders,
    ExpectsAfter asked settled w.flow w.flow.pendingSend
  parked : ∀ id flow, (s.shared.mailboxes id).parked = some flow → ∃ reg, Expects asked flow reg
  queues : ∀ flow ∈ s.shared.queues, settled flow.id
  timers : ∀ flow, .wakeSleeper flow ∈ s.shared.timers → settled flow.id

theorem due_init (config : MailboxConfig) : Due asked settled busy (State.init config) where
  frames := fun _ hf => by obtain ⟨t, hf⟩ := hf; cases hf
  waiting := fun _ _ hw => by cases hw
  parked := nofun
  queues := nofun
  timers := nofun

theorem Expects.congr {flow : Flow Hop} {reg : UInt8} (h : Expects asked flow reg)
    (hasked : asked' flow.id = asked flow.id) : Expects asked' flow reg :=
  ⟨h.1, hasked.trans h.2⟩

theorem ExpectsAfter.congr {flow : Flow Hop} {pending : Option PendingSend}
    (h : ExpectsAfter asked settled flow pending) (hasked : asked' flow.id = asked flow.id)
    (hs : settled flow.id → settled' flow.id) : ExpectsAfter asked' settled' flow pending := by
  cases pending with
  | none => exact hs h
  | some pending =>
    cases pending with
    | fireAndForget => exact hs h
    | ask destReg requestId target timeout => exact Expects.congr h hasked

theorem ExpectsAfter.mono {flow : Flow Hop} {pending : Option PendingSend}
    (h : ExpectsAfter asked settled flow pending) (hs : settled flow.id → settled' flow.id) :
    ExpectsAfter asked settled' flow pending := h.congr rfl hs

theorem Frame.Plain.due {g : Frame} (h : g.Plain) : g.Due asked settled busy := by
  cases g <;> first | exact h.elim | trivial

/-! ## What a flow is given -/

/-- The value that a flow is woken with when the frame runs, or that it goes on with. -/
def Frame.gives (σ : Shared) : Frame → Option (FlowId × Value)
  | .drive flow => flow.pendingMessage.map fun hop => (flow.id, hop.value)
  | .send .push _ out =>
    match ((σ.mailboxes out.target).push out.hop).2 with
    | .ok (.handoff receiver) => some (receiver.id, out.hop.value)
    | _ => none
  | .receive flow filter _ =>
    ((σ.mailboxes flow.id).tryPopFilter filter).2.map fun hop => (flow.id, hop.value)
  | .park flow filter _ =>
    match ((σ.mailboxes flow.id).parkFilter flow filter).2 with
    | .error flow => flow.pendingMessage.map fun hop => (flow.id, hop.value)
    | .ok _ => none
  | .ask .reply flow wait =>
    ((σ.mailboxes flow.id).tryPopFilter wait.filter).2.map fun hop => (flow.id, hop.value)
  | .ask .park flow wait =>
    match ((σ.mailboxes flow.id).parkFilter flow wait.filter).2 with
    | .error flow => flow.pendingMessage.map fun hop => (flow.id, hop.value)
    | .ok _ => none
  | .askTake asker wait => (σ.mailboxes asker).parked.map fun flow =>
      (flow.id, (Message.linkedExit wait.target FlowExitReason.fault.asU64).toValue)
  | .fire pid epoch => ((σ.mailboxes pid).takeParkedAt epoch).2.map fun flow => (flow.id, .unit)
  | .downPush owner hop =>
    match ((σ.mailboxes owner).pushSystem hop).2 with
    | .handoff receiver => some (receiver.id, hop.value)
    | _ => none
  | .hostPush target hop =>
    match ((σ.mailboxes target).push hop).2 with
    | .ok (.handoff receiver) => some (receiver.id, hop.value)
    | _ => none
  | .fin (.wakeTake asker _) cur _ => (σ.mailboxes asker).parked.map fun flow =>
      (flow.id, (Message.linkedExit cur.id cur.reason.asU64).toValue)
  | _ => none

/-- The recheck of an `Ask` whose target has exited. -/
def Frame.rechecks : Frame → Option (FlowId × UInt8)
  | .askTake asker wait => some (asker, wait.destReg)
  | _ => none

theorem handOver_of_expects {flow : Flow Hop} {reg : UInt8} (h : Expects asked flow reg)
    (v : Value) :
    handOver flow v = some ⟨flow.id, reg, v⟩ := by
  unfold handOver
  rw [h.1]
  rfl

/-- A flow that could not park comes back with a hop. -/
theorem pending_of_parkFilter {m : Mailbox Hop} {flow flow' : Flow Hop} {filter : WaitFilter}
    (h : (m.parkFilter flow filter).2 = .error flow') :
    ∃ hop, flow' = { flow with pendingMessage := some hop } := by
  rcases m.parkFilter_cases flow filter with ⟨hop, -, he⟩ | ⟨-, he⟩ <;> rw [he] at h <;> cases h
  exact ⟨hop, rfl⟩

/-- What a flow is handed was given to it. -/
theorem gives_of_hands {σ : Shared} {f : Frame} {r : Handed}
    (h : f.hands σ = some r) : f.gives σ = some (r.flow, r.value) := by
  have hover {flow : Flow Hop} {v : Value} (h : handOver flow v = some r) :
      some (flow.id, v) = some (r.flow, r.value) := by
    obtain ⟨hid, hvalue⟩ := handOver_eq h
    rw [hid, hvalue]
  cases f with
  | drive flow =>
    obtain ⟨hop, hp, h⟩ := Option.bind_eq_some_iff.mp h
    simp only [Frame.gives, hp, Option.map_some]
    exact hover h
  | send stage flow out =>
    cases stage with
    | push =>
      simp only [Frame.hands] at h
      simp only [Frame.gives]
      generalize ((σ.mailboxes out.target).push out.hop).2 = delivery at h ⊢
      split at h
      · exact hover h
      · cases h
    | _ => cases h
  | receive flow filter timeout =>
    obtain ⟨hop, hp, h⟩ := Option.bind_eq_some_iff.mp h
    simp only [Frame.gives, hp, Option.map_some]
    exact hover h
  | park flow filter timeout =>
    simp only [Frame.hands] at h
    simp only [Frame.gives]
    generalize ((σ.mailboxes flow.id).parkFilter flow filter).2 = parked at h ⊢
    cases parked with
    | error flow' =>
      obtain ⟨hop, hp, h⟩ := Option.bind_eq_some_iff.mp h
      simp only [hp, Option.map_some]
      exact hover h
    | ok _ => cases h
  | ask stage flow wait =>
    cases stage with
    | reply =>
      obtain ⟨hop, hp, rfl⟩ := Option.map_eq_some_iff.mp h
      simp only [Frame.gives, hp, Option.map_some]
    | insert => cases h
    | park =>
      simp only [Frame.hands] at h
      simp only [Frame.gives]
      generalize ((σ.mailboxes flow.id).parkFilter flow wait.filter).2 = parked at h ⊢
      cases parked with
      | error flow' =>
        obtain ⟨hop, hp, rfl⟩ := Option.map_eq_some_iff.mp h
        simp only [hp, Option.map_some]
      | ok _ => cases h
  | askTake asker wait =>
    obtain ⟨flow, hp, rfl⟩ := Option.map_eq_some_iff.mp h
    simp only [Frame.gives, hp, Option.map_some]
  | fire pid epoch =>
    obtain ⟨flow, hp, h⟩ := Option.bind_eq_some_iff.mp h
    simp only [Frame.gives, hp, Option.map_some]
    exact hover h
  | downPush owner hop =>
    simp only [Frame.hands] at h
    simp only [Frame.gives]
    generalize ((σ.mailboxes owner).pushSystem hop).2 = delivery at h ⊢
    split at h
    · exact hover h
    · cases h
  | hostPush target hop =>
    simp only [Frame.hands] at h
    simp only [Frame.gives]
    generalize ((σ.mailboxes target).push hop).2 = delivery at h ⊢
    split at h
    · exact hover h
    · cases h
  | fin stage cur work =>
    cases stage with
    | wakeTake asker askers =>
      obtain ⟨flow, hp, h⟩ := Option.bind_eq_some_iff.mp h
      simp only [Frame.gives, hp, Option.map_some]
      exact hover h
    | _ => cases h
  | _ => cases h

/-- **What a flow is given goes to the register that it named.** -/
theorem Due.hands (h : Due asked settled busy s) {f : Frame} (hf : f ∈ s.frames)
    (hpending : ∀ flow, f = .drive flow → flow.pendingMessage = none)
    (hrecheck : ∀ r ∈ f.rechecks, ∀ flow ∈ (s.shared.mailboxes r.1).parked,
      flow.lastReceiveDest = some r.2) {v : Value} (hgives : f.gives s.shared = some (id, v)) :
    ∃ reg, f.hands s.shared = some ⟨id, reg, v⟩ ∧ asked id = some reg := by
  have hdue := h.frames f hf
  -- a receiver that is taken out of its mailbox
  have hover {flow : Flow Hop} (hflow : ∃ reg, Expects asked flow reg) {v' : Value}
      (he : (flow.id, v') = (id, v)) :
      ∃ reg, handOver flow v' = some ⟨id, reg, v⟩ ∧ asked id = some reg := by
    obtain ⟨reg, hreg⟩ := hflow
    cases he
    exact ⟨reg, handOver_of_expects hreg v, hreg.2⟩
  cases f with
  | drive flow =>
    simp only [Frame.gives, hpending flow rfl] at hgives
    cases hgives
  | send stage flow out =>
    cases stage with
    | push =>
      simp only [Frame.gives] at hgives
      simp only [Frame.hands]
      generalize hpush : ((s.shared.mailboxes out.target).push out.hop).2 = delivery at hgives ⊢
      split at hgives
      · exact hover (h.parked _ _ (Mailbox.parked_of_handoff hpush)) (Option.some_inj.mp hgives)
      · cases hgives
    | _ => cases hgives
  | receive flow filter timeout =>
    obtain ⟨hop, hpop, he⟩ := Option.map_eq_some_iff.mp hgives
    simp only [Frame.hands, hpop, Option.bind_some]
    exact hover hdue he
  | park flow filter timeout =>
    simp only [Frame.gives] at hgives
    simp only [Frame.hands]
    generalize hpark : ((s.shared.mailboxes flow.id).parkFilter flow filter).2 = parked at hgives ⊢
    cases parked with
    | error flow' =>
      obtain ⟨hop, rfl⟩ := pending_of_parkFilter hpark
      have hexpects : ∃ reg, Expects asked { flow with pendingMessage := some hop } reg := hdue
      exact hover hexpects (Option.some_inj.mp hgives)
    | ok _ => cases hgives
  | ask stage flow wait =>
    obtain ⟨hdest, hasked⟩ := hdue
    cases stage with
    | reply =>
      obtain ⟨hop, hpop, he⟩ := Option.map_eq_some_iff.mp hgives
      cases he
      exact ⟨wait.destReg, by simp only [Frame.hands, hpop, Option.map_some], hasked⟩
    | insert => cases hgives
    | park =>
      simp only [Frame.gives] at hgives
      simp only [Frame.hands]
      generalize hpark : ((s.shared.mailboxes flow.id).parkFilter flow wait.filter).2 = parked
        at hgives ⊢
      cases parked with
      | error flow' =>
        obtain ⟨hop, rfl⟩ := pending_of_parkFilter hpark
        cases hgives
        exact ⟨wait.destReg, rfl, hasked⟩
      | ok _ => cases hgives
  | askTake asker wait =>
    obtain ⟨flow, hp, he⟩ := Option.map_eq_some_iff.mp hgives
    cases he
    obtain ⟨reg, hdest, hasked⟩ := h.parked asker flow hp
    rw [hrecheck _ rfl flow hp] at hdest
    cases hdest
    exact ⟨wait.destReg, by simp only [Frame.hands, hp, Option.map_some], hasked⟩
  | fire pid epoch =>
    obtain ⟨flow, htake, he⟩ := Option.map_eq_some_iff.mp hgives
    simp only [Frame.hands, htake, Option.bind_some]
    exact hover (h.parked _ _ (Mailbox.parked_of_takeParkedAt htake)) he
  | downPush owner hop =>
    simp only [Frame.gives] at hgives
    simp only [Frame.hands]
    generalize hpush : ((s.shared.mailboxes owner).pushSystem hop).2 = delivery at hgives ⊢
    split at hgives
    · exact hover (h.parked _ _ (Mailbox.parked_of_system_handoff hpush))
        (Option.some_inj.mp hgives)
    · cases hgives
  | hostPush target hop =>
    simp only [Frame.gives] at hgives
    simp only [Frame.hands]
    generalize hpush : ((s.shared.mailboxes target).push hop).2 = delivery at hgives ⊢
    split at hgives
    · exact hover (h.parked _ _ (Mailbox.parked_of_handoff hpush)) (Option.some_inj.mp hgives)
    · cases hgives
  | fin stage cur work =>
    cases stage with
    | wakeTake asker askers =>
      obtain ⟨flow, hp, he⟩ := Option.map_eq_some_iff.mp hgives
      simp only [Frame.hands, hp, Option.bind_some]
      exact hover (h.parked _ _ hp) he
    | _ => cases hgives
  | _ => cases hgives

/-! ## Steps -/

/-- A frame that an effect leads to. -/
theorem due_of_effect {σ : Shared} {flow : Flow Hop} {result : VmResult} {g : Frame}
    (hresult : result.Due asked settled σ flow.id) (hnew : settled σ.nextFlowId)
    (hg : g ∈ (σ.exec (effect flow result)).2) : g.Due asked settled busy := by
  cases effects hg with
  | run hresumes =>
    refine .inr ?_
    cases result with
    | monitor target => exact hresult.resolve_left hresumes
    | link target =>
      obtain ⟨hself, link, hlink⟩ := hresumes
      refine (hresult.resolve_left hself).resolve_left ?_
      rintro ⟨e, he⟩
      rw [hlink] at he
      cases he
    | resumed | spawn | demonitor _ | unlink _ | registerName _ _ => exact hresult
    | _ => exact hresumes.elim
  | fin outcome reason => trivial
  | wake => exact hresult
  | new => exact hnew
  | send target message replyCap => exact ⟨hresult, .inl rfl⟩
  | receive destReg timeout tag rid => exact ⟨destReg, rfl, hresult⟩
  | ask destReg target request replyCap timeout => exact ⟨⟨rfl, hresult⟩, .inl rfl⟩

/-- A sender that goes on after its hop was accepted waits for no reply. -/
theorem settled_of_delivered {flow flow' : Flow Hop} {out : Outgoing}
    (h : ExpectsAfter asked settled flow (some out.pending))
    (hg : Frame.run flow' ∈ delivered flow out) : settled flow.id := by
  unfold delivered at hg
  cases hpending : out.pending with
  | fireAndForget =>
    rw [hpending] at h
    exact h
  | ask destReg requestId target timeout =>
    rw [hpending] at hg
    cases List.mem_singleton.mp hg

theorem run_of_send {σ : Shared} {i : Input} {stage : SendStage} {flow flow' : Flow Hop}
    {out : Outgoing} (hstage : stage = .lookup ∨ stage = .push)
    (hg : Frame.run flow' ∈ (σ.exec (Frame.next i (.send stage flow out))).2) :
    Frame.run flow' ∈ delivered flow out := by
  rcases hstage with rfl | rfl
  · simp only [Frame.next, SendStage.next, Shared.exec] at hg
    split_ifs at hg
    · cases List.mem_singleton.mp hg
    · exact hg
  · simp only [Frame.next, SendStage.next, Shared.exec] at hg
    split at hg
    · exact (List.mem_cons.mp hg).resolve_left (by rintro ⟨⟩)
    · exact hg
    · cases List.mem_singleton.mp hg

/-- A frame that the frame on top leads to. -/
theorem due_next {σ : Shared} {i : Input} {f g : Frame} (hf : f.Due asked settled busy)
    (hmono : ∀ id, settled id → settled' id)
    (hadmitted : ∀ id sender, (σ.mailboxes id).admitWaitingSender.2 = some sender →
      ExpectsAfter asked settled sender sender.pendingSend)
    (hgives : ∀ id v, f.gives σ = some (id, v) → settled' id)
    (hrun : ∀ flow, f = .run flow → ∃ result, i = .vm result ∧ result.Due asked settled' σ flow.id)
    (hnew : settled' σ.nextFlowId) (hg : g ∈ (σ.exec (f.next i)).2) :
    g.Due asked settled' busy' := by
  -- what the VM answers is the only input that a running flow takes
  have heffect (flow : Flow Hop) (hrunning : f = .run flow) : g.Due asked settled' busy' := by
    obtain ⟨result, rfl, hresult⟩ := hrun flow hrunning
    subst hrunning
    exact due_of_effect hresult hnew hg
  cases leads hg with
  | plain hplain => exact hplain.due
  | driveRun => exact .inr (hmono _ hf)
  | runRun | runWake | runSpawn | runSend _ _ | runReceive _ _ _ _ => exact heffect _ rfl
  | sendPush => exact ⟨hf.1.mono (hmono _), .inr (.inl rfl)⟩
  | sendRun hstage => exact .inr (hmono _ (settled_of_delivered hf.1 (run_of_send hstage hg)))
  | @sendReply flow out stage wait hstage hout =>
    have hafter := hf.1
    rw [hout] at hafter
    exact hafter
  | pushHandoff h => exact hgives _ _ (by rw [Frame.gives, h])
  | pushRefused h => exact ⟨hf.1.mono (hmono _), .inr (.inr rfl)⟩
  | sendIndex | sendTarget | sendGone | parkClosed =>
    exact ⟨hf.1.mono (hmono _), .inr (.inr (hf.2.resolve_left nofun |>.resolve_left nofun))⟩
  | receiveAdmit h => exact hgives _ _ (by rw [Frame.gives, h]; rfl)
  | receivePark => exact hf
  | admitRun => exact .inr (hmono _ hf)
  | admitAdmitted h => exact (hadmitted _ _ h).mono (hmono _)
  | admittedAsk h =>
    have hafter : ExpectsAfter asked settled _ _ := hf
    rw [h] at hafter
    exact hafter
  | @admittedWake sender =>
    have hafter : ExpectsAfter asked settled sender sender.pendingSend := hf
    refine hmono sender.id ?_
    cases hpending : sender.pendingSend with
    | none =>
      rw [hpending] at hafter
      exact hafter
    | some pending =>
      cases pending with
      | fireAndForget =>
        rw [hpending] at hafter
        exact hafter
      | ask destReg requestId target timeout =>
        simp only [Frame.next, hpending, Shared.exec] at hg
        cases List.mem_singleton.mp hg
  | parkWake h =>
    obtain ⟨hop, rfl⟩ := pending_of_parkFilter h
    exact hgives _ hop.value (by simp only [Frame.gives, h, Option.map_some])
  | replyRun h => exact .inr (hgives _ _ (by rw [Frame.gives, h]; rfl))
  | replyInsert | insertPark => exact hf
  | askForget h =>
    obtain ⟨hop, rfl⟩ := pending_of_parkFilter h
    exact hgives _ hop.value (by simp only [Frame.gives, h, Option.map_some])
  | takeForget h => exact hgives _ _ (by rw [Frame.gives, h]; rfl)
  | forgetWake => exact hmono _ hf
  | fireForget h => exact hgives _ _ (by rw [Frame.gives, h]; rfl)
  | downForget h => exact hgives _ _ (by rw [Frame.gives, h])
  | hostForget h => exact hgives _ _ (by rw [Frame.gives, h])
  | finTookWake h => exact hgives _ _ (by rw [Frame.gives, h]; rfl)
  | _ => trivial

/-- What is known of the flows that the frame holds. -/
theorem Frame.Due.congr {f : Frame} (h : f.Due asked settled busy)
    (hasked : ∀ id ∈ f.boxes, asked' id = asked id)
    (hmono : ∀ id ∈ f.boxes, settled id → settled' id)
    (hbusy : ∀ flow, f = .run flow → busy flow.id → busy' flow.id ∨ settled' flow.id) :
    f.Due asked' settled' busy' := by
  have hself (id : FlowId) : id ∈ ({id} : Multiset FlowId) := Multiset.mem_singleton_self id
  cases f with
  | drive flow => exact hmono _ (hself _) h
  | run flow => exact h.elim (hbusy flow rfl) fun hs => .inr (hmono _ (hself _) hs)
  | send stage flow out => exact ⟨h.1.congr (hasked _ (hself _)) (hmono _ (hself _)), h.2⟩
  | receive flow filter timeout => exact h.imp fun _ he => he.congr (hasked _ (hself _))
  | admitWaitingOn flow => exact hmono _ (hself _) h
  | admitted sender => exact ExpectsAfter.congr h (hasked _ (hself _)) (hmono _ (hself _))
  | park flow filter timeout => exact h.imp fun _ he => he.congr (hasked _ (hself _))
  | ask stage flow wait => exact Expects.congr h (hasked _ (hself _))
  | forget flow => exact hmono _ (hself _) h
  | wake flow => exact hmono _ (hself _) h
  | _ => trivial

/-- **Answers that are due** stay so until they are given. -/
theorem Due.step (h : Due asked settled busy s) (ti : ℕ × Input)
    (hmono : ∀ id, settled id → settled' id)
    (hgives : ∀ f rest id v, s.threads ti.1 = f :: rest → f.gives s.shared = some (id, v) →
      settled' id)
    (hrun : ∀ flow rest, s.threads ti.1 = .run flow :: rest →
      ∃ result, ti.2 = .vm result ∧ result.Due asked settled' s.shared flow.id)
    (hbusy : ∀ flow, .run flow ∈ s.others ti.1 → busy flow.id → busy' flow.id ∨ settled' flow.id)
    (hnew : settled' s.shared.nextFlowId) : Due asked settled' busy' (Machine.step s ti) := by
  obtain ⟨t, i⟩ := ti
  constructor
  · intro g hg
    rcases frames_of_step hg with hg | hg
    · exact (h.frames g (mem_frames_of_others hg)).congr (fun _ _ => rfl) (fun id _ => hmono id)
        fun flow he => hbusy flow (he ▸ hg)
    rcases next_cases s t i with ⟨f, rest, hs, hn⟩ | ⟨hs, ⟨op, -, hn⟩ | hn⟩
    · rw [hn] at hg
      refine due_next (h.frames f (mem_frames_of_cons hs)) hmono (fun id sender ha => ?_)
        (fun id v => hgives f rest id v hs) (fun flow hf => hrun flow rest (hf ▸ hs)) hnew hg
      obtain ⟨w, hw, rfl⟩ := Mailbox.waiting_of_admit ha
      exact h.waiting id w hw
    · rw [hn] at hg
      cases starts hg with
      | plain hplain => exact hplain.due
      | drive hq => exact hmono _ (h.queues _ hq)
      | sleeper ht => exact hmono _ (h.timers _ ht)
      | spawn => exact hnew
      | fire | kill => trivial
    · rw [hn] at hg
      cases hg
  · intro id w hw
    rcases step_mailbox s t i id with he | ⟨f, rest, op, hs, hwrites, he⟩
    · exact (h.waiting id w (he ▸ hw)).mono (hmono _)
    · rcases Mailbox.mem_waitingSenders_after (he ▸ hw) with hw | ⟨rfl, -⟩
      · exact (h.waiting id w hw).mono (hmono _)
      · obtain ⟨out, rfl, -, -⟩ := hwrites.of_parkSender
        obtain ⟨hafter, hstage⟩ := h.frames _ (mem_frames_of_cons hs)
        rw [hstage.resolve_left nofun |>.resolve_left nofun]
        exact hafter.mono (hmono _)
  · intro id flow hp
    rcases step_mailbox s t i id with he | ⟨f, rest, op, hs, hwrites, he⟩
    · exact h.parked id flow (he ▸ hp)
    · rcases Mailbox.parked_of_after (he ▸ hp) with ⟨hp, -⟩ | ⟨filter, rfl, -, -⟩
      · exact h.parked id flow hp
      · obtain ⟨-, ⟨timeout, rfl⟩ | ⟨wait, rfl, -⟩⟩ := hwrites.of_parkFilter
        · exact h.frames _ (mem_frames_of_cons hs)
        · exact ⟨wait.destReg, h.frames _ (mem_frames_of_cons hs)⟩
  · intro flow hflow
    rcases queued_of_step hflow with hq | hf
    · exact hmono _ (h.queues flow hq)
    · exact hmono _ (h.frames _ hf)
  · intro flow hflow
    rcases sleeping_of_step hflow with ht | ⟨rest, delay, hs, hvm⟩
    · exact hmono _ (h.timers flow ht)
    · obtain ⟨result, hi, hresult⟩ := hrun flow rest hs
      cases hvm.symm.trans hi
      exact hresult

/-- Nothing moves; a flow may come to be queued. -/
theorem Due.congr (h : Due asked settled busy s) (hthreads : s'.threads = s.threads)
    (hmailboxes : s'.shared.mailboxes = s.shared.mailboxes)
    (hqueues : ∀ flow ∈ s'.shared.queues, flow ∈ s.shared.queues ∨ settled' flow.id)
    (htimers : s'.shared.timers = s.shared.timers) (hmono : ∀ id, settled id → settled' id)
    (hbusy : ∀ flow, .run flow ∈ s.frames → busy flow.id → busy' flow.id ∨ settled' flow.id) :
    Due asked settled' busy' s' where
  frames := fun f hf => by
    have hf : f ∈ s.frames := by
      unfold State.frames at hf ⊢
      rwa [hthreads] at hf
    exact (h.frames f hf).congr (fun _ _ => rfl) (fun id _ => hmono id)
      fun flow he => hbusy flow (he ▸ hf)
  waiting := fun id w hw => (h.waiting id w (hmailboxes ▸ hw)).mono (hmono _)
  parked := fun id flow hp => h.parked id flow (hmailboxes ▸ hp)
  queues := fun flow hflow => (hqueues flow hflow).elim (fun hq => hmono _ (h.queues flow hq)) id
  timers := fun flow ht => hmono _ (h.timers flow (htimers ▸ ht))

/-- A flow that runs is nowhere else, so what it asks for concerns no other place. -/
theorem Due.runs (h : Due asked settled busy s) (ho : Owned s) {flow : Flow Hop} {t : ℕ}
    {rest : List Frame} (hs : s.threads t = .run flow :: rest)
    (hasked : ∀ id, id ≠ flow.id → asked' id = asked id)
    (hmono : ∀ id, id ≠ flow.id → settled id → settled' id)
    (hbusy : ∀ id, id ≠ flow.id → busy id → busy' id) (hself : busy' flow.id ∨ settled' flow.id) :
    Due asked' settled' busy' s := by
  have hf := mem_frames_of_cons hs
  have hbox : flow.id ∈ (Frame.run flow).boxes := Multiset.mem_singleton_self _
  have hplace {p : Place} (hp : ∀ r, p ≠ .thread r) {id : FlowId} (hid : id ∈ s.held p) :
      id ≠ flow.id := by
    rintro rfl
    exact hp t (ho.exclusive.place_unique hid (mem_held_thread (hs ▸ List.mem_cons_self) hbox))
  have hmailbox {id owner : FlowId} (hid : id ∈ (s.shared.mailboxes owner).boxes) :
      id ≠ flow.id := hplace (p := .mailbox owner) nofun hid
  refine ⟨fun f hf' => ?_, fun id w hw => ?_, fun id flow' hp => ?_, fun flow' hq => ?_,
    fun flow' ht => ?_⟩
  · by_cases hheld : flow.id ∈ f.boxes
    · rw [ho.frame_unique hf' hf hheld hbox]
      exact hself
    · have hne {id : FlowId} (hid : id ∈ f.boxes) : id ≠ flow.id := fun he => hheld (he ▸ hid)
      refine (h.frames f hf').congr (fun id hid => hasked id (hne hid))
        (fun id hid => hmono id (hne hid)) fun flow' he hbusy' => .inl (hbusy _ (hne ?_) hbusy')
      rw [he]
      exact Multiset.mem_singleton_self _
  · have hne := hmailbox (Mailbox.mem_boxes.mpr (.inr ⟨w, hw, rfl⟩))
    exact (h.waiting id w hw).congr (hasked _ hne) (hmono _ hne)
  · have hne := hmailbox (Mailbox.mem_boxes.mpr (.inl ⟨flow', hp, rfl⟩))
    exact (h.parked id flow' hp).imp fun _ he => he.congr (hasked _ hne)
  · refine hmono _ (hplace (p := .queues) nofun ?_) (h.queues flow' hq)
    exact mem_boxesOf.mpr ⟨flow', hq, Multiset.mem_singleton_self _⟩
  · refine hmono _ (hplace (p := .timers) nofun ?_) (h.timers flow' ht)
    exact mem_boxesOf.mpr ⟨_, ht, Multiset.mem_singleton_self _⟩

end Machine

end Byteflow
