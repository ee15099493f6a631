import Byteflow.Scheduler.Machine.Registered

/-!
# What flows have

A flow box goes from thread to thread, and on the way the scheduler changes only what it notes down
of its waits. A property that does not look at these notes, or that a flow has while it waits for
nothing, stays with every flow (`Flows.step`). So no flow comes to rest with a pending message:
`park_on_mailbox` and `park_ask` take the hop that a park returns before they queue the flow, and
`drive_process` never finds one.
-/

namespace Byteflow

namespace Machine

variable {s : State} {Q Q' : Flow Hop → Prop}

/-- The property stays when the scheduler notes where the next hop goes, takes the pending message,
or notes what follows a refused send. -/
structure Kept (Q : Flow Hop → Prop) : Prop where
  dest : ∀ flow destReg, Q flow → Q { flow with lastReceiveDest := destReg }
  message : ∀ flow, Q flow → Q { flow with pendingMessage := none }
  send : ∀ flow pending, Q flow → Q { flow with pendingSend := pending }

def KillAfter.flows : KillAfter → List (Flow Hop)
  | .request => []
  | .link cur _ work => cur.flow :: work.map (·.flow)

def FinStage.flows : FinStage → List (Flow Hop)
  | .senders flows => flows
  | _ => []

def KillStage.flows : KillStage → List (Flow Hop)
  | .sendAtRemove sender => [sender]
  | _ => []

/-- The flows that a frame holds. -/
def Frame.flows : Frame → List (Flow Hop)
  | .drive flow => [flow]
  | .run flow => [flow]
  | .send _ flow _ => [flow]
  | .receive flow _ _ => [flow]
  | .admitWaitingOn flow => [flow]
  | .admitted sender => [sender]
  | .park flow _ _ => [flow]
  | .ask _ flow _ => [flow]
  | .forget flow => [flow]
  | .wake flow => [flow]
  | .fin stage cur work => stage.flows ++ cur.flow :: work.map (·.flow)
  | .kill stage _ _ next => stage.flows ++ next.flows
  | _ => []

/-- Every flow of the frame has the property. -/
def Frame.AllFlows (Q : Flow Hop → Prop) (f : Frame) : Prop := ∀ flow ∈ f.flows, Q flow

/-- Every flow of a mailbox has the property. -/
structure MailboxFlows (Q : Flow Hop → Prop) (m : Mailbox Hop) : Prop where
  parked : ∀ flow, m.parked = some flow → Q flow
  waiting : ∀ w ∈ m.waitingSenders, Q w.flow

/-- Every flow has the property. -/
structure Flows (Q : Flow Hop → Prop) (s : State) : Prop where
  frames : ∀ f ∈ s.frames, f.AllFlows Q
  mailboxes : ∀ id, MailboxFlows Q (s.shared.mailboxes id)
  queues : ∀ flow ∈ s.shared.queues, Q flow
  timers : ∀ flow, .wakeSleeper flow ∈ s.shared.timers → Q flow

theorem flows_init (Q : Flow Hop → Prop) (config : MailboxConfig) :
    Flows Q (State.init config) where
  frames := fun _ hf => by obtain ⟨t, hf⟩ := hf; cases hf
  mailboxes := fun _ => ⟨nofun, fun _ hw => by cases hw⟩
  queues := nofun
  timers := nofun

theorem Flows.mono (h : Flows Q s) (hQ : ∀ flow, Q flow → Q' flow) : Flows Q' s where
  frames := fun f hf flow hflow => hQ flow (h.frames f hf flow hflow)
  mailboxes := fun id => ⟨fun flow hp => hQ flow ((h.mailboxes id).parked flow hp),
    fun w hw => hQ w.flow ((h.mailboxes id).waiting w hw)⟩
  queues := fun flow hflow => hQ flow (h.queues flow hflow)
  timers := fun flow hflow => hQ flow (h.timers flow hflow)

theorem Frame.Plain.allFlows {g : Frame} (h : g.Plain) : g.AllFlows Q := by
  cases g <;> first | exact h.elim | exact nofun

theorem allFlows_singleton {g : Frame} {flow : Flow Hop} (hg : g.flows = [flow]) (h : Q flow) :
    g.AllFlows Q := by
  intro flow' hflow'
  rw [hg] at hflow'
  rwa [List.mem_singleton.mp hflow']

/-- What the VM's flow goes on as, or a new flow. -/
theorem allFlows_of_effect {σ : Shared} {flow : Flow Hop} {result : VmResult} {g : Frame}
    (hQ : Kept Q) (hflow : Q flow) (hnew : result = .spawn → Q (.new σ.nextFlowId))
    (hg : g ∈ (σ.exec (effect flow result)).2) : g.AllFlows Q := by
  cases effects hg with
  | run h => exact allFlows_singleton rfl hflow
  | fin outcome reason => exact allFlows_singleton rfl hflow
  | wake => exact allFlows_singleton rfl hflow
  | new => exact allFlows_singleton rfl (hnew rfl)
  | send target message replyCap => exact allFlows_singleton rfl hflow
  | receive destReg timeout tag rid => exact allFlows_singleton rfl (hQ.dest _ _ hflow)
  | ask destReg target request replyCap timeout =>
    exact allFlows_singleton rfl (hQ.dest _ _ hflow)

theorem allFlows_fin {stage : FinStage} {cur : PendingExit} {work : List PendingExit} :
    (Frame.fin stage cur work).AllFlows Q ↔
      (∀ flow ∈ stage.flows, Q flow) ∧ Q cur.flow ∧ ∀ p ∈ work, Q p.flow := by
  simp [Frame.AllFlows, Frame.flows, or_imp, forall_and]

theorem allFlows_kill {stage : KillStage} {id : FlowId} {reason : FlowExitReason}
    {next : KillAfter} :
    (Frame.kill stage id reason next).AllFlows Q ↔
      (∀ flow ∈ stage.flows, Q flow) ∧ ∀ flow ∈ next.flows, Q flow := by
  simp [Frame.AllFlows, Frame.flows, or_imp, forall_and]

theorem allFlows_link {cur : PendingExit} {peers : List FlowId} {work : List PendingExit} :
    (∀ flow ∈ (KillAfter.link cur peers work).flows, Q flow) ↔
      Q cur.flow ∧ ∀ p ∈ work, Q p.flow := by
  simp [KillAfter.flows]

theorem forall_concat {work : List PendingExit} {flow : Flow Hop} {outcome : FlowOutcome}
    {reason : FlowExitReason} (h : ∀ p ∈ work, Q p.flow) (hflow : Q flow) :
    ∀ p ∈ work ++ [⟨flow, outcome, reason⟩], Q p.flow := by
  intro p hp
  rcases List.mem_append.mp hp with hp | hp
  · exact h p hp
  · exact List.mem_singleton.mp hp ▸ hflow

/-- A flow that could not park comes back with its hop, which it takes. -/
theorem kept_of_parkFilter {m : Mailbox Hop} {flow flow' : Flow Hop} {filter : WaitFilter}
    (hQ : Kept Q) (hflow : Q flow) (h : (m.parkFilter flow filter).2 = .error flow') :
    Q { flow' with pendingMessage := none } := by
  rcases m.parkFilter_cases flow filter with ⟨hop, -, he⟩ | ⟨-, he⟩ <;> rw [he] at h <;> cases h
  exact hQ.message flow hflow

theorem MailboxFlows.admitted {m : Mailbox Hop} (hm : MailboxFlows Q m) {sender : Flow Hop}
    (h : m.admitWaitingSender.2 = some sender) : Q sender := by
  obtain ⟨w, hw, rfl⟩ := Mailbox.waiting_of_admit h
  exact hm.waiting w hw

/-- What the frame on top leads to has the flows that it had, or takes them out of a mailbox. -/
theorem allFlows_next {σ : Shared} {i : Input} {f g : Frame} (hQ : Kept Q) (hf : f.AllFlows Q)
    (hm : ∀ id, MailboxFlows Q (σ.mailboxes id))
    (hnew : ∀ k, f.next i = .register k → Q (.new σ.nextFlowId)) (hg : g ∈ (σ.exec (f.next i)).2) :
    g.AllFlows Q := by
  cases leads hg with
  | plain hplain => exact hplain.allFlows
  | driveRun h => exact allFlows_singleton rfl (hQ.message _ (hf _ List.mem_cons_self))
  | driveFin _ _ | runFin _ _ | goneFin _ _ | insertFin _ _ _ =>
    exact allFlows_singleton rfl (hf _ List.mem_cons_self)
  | runRun | runWake => exact allFlows_singleton rfl (hf _ List.mem_cons_self)
  | runSpawn | runSend _ _ | runReceive _ _ _ _ =>
    cases i with
    | vm result =>
      refine allFlows_of_effect hQ (hf _ List.mem_cons_self) (fun hspawn => ?_) hg
      subst hspawn
      exact hnew _ rfl
    | _ => cases List.mem_singleton.mp hg
  | sendPush | sendRun _ | sendReply _ _ | sendIndex | sendTarget | sendGone | parkClosed
  | receiveAdmit | receivePark | admitRun | replyRun | replyInsert | insertPark | forgetWake =>
    exact allFlows_singleton rfl (hf _ List.mem_cons_self)
  | pushHandoff h =>
    exact allFlows_singleton rfl ((hm _).parked _ (Mailbox.parked_of_handoff h))
  | pushRefused h => exact allFlows_singleton rfl (hQ.send _ _ (hf _ List.mem_cons_self))
  | admitAdmitted h => exact allFlows_singleton rfl ((hm _).admitted h)
  | admittedAsk h => exact allFlows_singleton rfl (hQ.send _ _ (hf _ List.mem_cons_self))
  | admittedWake => exact allFlows_singleton rfl (hQ.send _ _ (hf _ List.mem_cons_self))
  | parkWake h =>
    exact allFlows_singleton rfl (kept_of_parkFilter hQ (hf _ List.mem_cons_self) h)
  | askForget h =>
    exact allFlows_singleton rfl (kept_of_parkFilter hQ (hf _ List.mem_cons_self) h)
  | takeForget h => exact allFlows_singleton rfl ((hm _).parked _ h)
  | fireForget h =>
    exact allFlows_singleton rfl ((hm _).parked _ (Mailbox.parked_of_takeParkedAt h))
  | downForget h =>
    exact allFlows_singleton rfl ((hm _).parked _ (Mailbox.parked_of_system_handoff h))
  | hostForget h =>
    exact allFlows_singleton rfl ((hm _).parked _ (Mailbox.parked_of_handoff h))
  | finNext hstage h =>
    obtain ⟨-, -, hwork⟩ := allFlows_fin.mp hf
    subst h
    exact allFlows_fin.mpr ⟨nofun, hwork _ (List.mem_append_right _ List.mem_cons_self),
      fun p hp => hwork p (List.mem_append_left _ hp)⟩
  | finSendAt | finAsk | finLookup | finClose _ | finUnlisted _ | finWaiters | finWake
  | finWakeStay | finWakeTake _ _ | finWakeSkip _ _ | finTook | finRevoke | finUnregister
  | finOwned | finNames | finNotify | finDowns | finDown | finLinks | finPeers _ | finPeersStay =>
    exact allFlows_fin.mpr ⟨nofun, (allFlows_fin.mp hf).2⟩
  | @finSenders cur work =>
    refine allFlows_fin.mpr ⟨fun flow hflow => ?_, (allFlows_fin.mp hf).2⟩
    obtain ⟨w, hw, rfl⟩ := List.mem_map.mp hflow
    exact (hm _).waiting w hw
  | finSender outcome =>
    obtain ⟨hsenders, hcur, hwork⟩ := allFlows_fin.mp hf
    exact allFlows_fin.mpr ⟨fun flow hflow => hsenders flow (List.mem_cons_of_mem _ hflow), hcur,
      forall_concat hwork (hsenders _ List.mem_cons_self)⟩
  | finTookWake h => exact allFlows_singleton rfl ((hm _).parked _ h)
  | finKill h => exact allFlows_kill.mpr ⟨nofun, allFlows_link.mpr (allFlows_fin.mp hf).2⟩
  | killSet | killParked | killGet _ | killTarget _ | killSender _ =>
    exact allFlows_kill.mpr ⟨nofun, (allFlows_kill.mp hf).2⟩
  | killRemove h =>
    obtain ⟨w, hw, rfl, -⟩ := Mailbox.waiting_of_takeWaitingSender h
    refine allFlows_kill.mpr ⟨fun flow hflow => ?_, (allFlows_kill.mp hf).2⟩
    rw [List.mem_singleton.mp hflow]
    exact (hm _).waiting w hw
  | killBack hstage => exact allFlows_fin.mpr ⟨nofun, allFlows_link.mp (allFlows_kill.mp hf).2⟩
  | killFin outcome h => exact allFlows_singleton rfl ((hm _).parked _ h)
  | killLink outcome h =>
    obtain ⟨hcur, hwork⟩ := allFlows_link.mp (allFlows_kill.mp hf).2
    exact allFlows_fin.mpr ⟨nofun, hcur, forall_concat hwork ((hm _).parked _ h)⟩
  | killSentFin outcome =>
    exact allFlows_singleton rfl ((allFlows_kill.mp hf).1 _ List.mem_cons_self)
  | killSentLink outcome =>
    obtain ⟨hsender, hnext⟩ := allFlows_kill.mp hf
    obtain ⟨hcur, hwork⟩ := allFlows_link.mp hnext
    exact allFlows_fin.mpr ⟨nofun, hcur, forall_concat hwork (hsender _ List.mem_cons_self)⟩
  | finDownEvent | nameKill => exact nofun
  | _ => exact nofun

/-- What a mailbox keeps of its flows, and the flow that parks or waits now. -/
theorem MailboxFlows.after {m : Mailbox Hop} (hm : MailboxFlows Q m) {f : Frame} {id : FlowId}
    {op : Mailbox.Op Hop} (hw : Writes f (.mail id op)) (hf : f.AllFlows Q) :
    MailboxFlows Q (m.after op) where
  parked := fun flow hp => by
    rcases Mailbox.parked_of_after hp with ⟨hp, -⟩ | ⟨filter, rfl, -, -⟩
    · exact hm.parked flow hp
    · cases hw with
      | park => exact hf _ List.mem_cons_self
      | askPark => exact hf _ List.mem_cons_self
  waiting := fun w hw' => by
    rcases Mailbox.mem_waitingSenders_after hw' with hw' | ⟨rfl, -⟩
    · exact hm.waiting w hw'
    · obtain ⟨out, rfl, -, -⟩ := hw.of_parkSender
      exact hf _ List.mem_cons_self

/-- A new flow that a thread without work wakes was made now, unless it slept. -/
theorem new_of_start {σ : Shared} {op : Operation} {flow : Flow Hop}
    (hg : .wake flow ∈ (σ.exec op.start).2)
    (htimers : ∀ flow, .wakeSleeper flow ∈ σ.timers → Q flow)
    (hnew : ∀ k, op.start = .register k → Q (.new σ.nextFlowId)) : Q flow := by
  cases op with
  | work n =>
    simp only [Operation.start, Shared.exec] at hg
    split at hg
    · cases List.mem_singleton.mp hg
    · cases hg
  | fire n =>
    simp only [Operation.start, Shared.exec] at hg
    split at hg
    · rename_i hn
      split at hg
      · cases List.mem_singleton.mp hg
        exact htimers _ (List.mem_of_getElem? hn)
      · cases List.mem_singleton.mp hg
    · cases hg
  | spawn =>
    cases List.mem_singleton.mp hg
    exact hnew _ rfl
  | spawnChild name cap =>
    simp only [Operation.start, Shared.exec] at hg
    split_ifs at hg
    · cases List.mem_singleton.mp hg
      exact hnew _ rfl
    · rcases List.mem_cons.mp hg with hg | hg
      · cases hg
        exact hnew _ rfl
      · cases List.mem_singleton.mp hg
  | monitor owner target =>
    simp only [Operation.start, Shared.exec] at hg
    split_ifs at hg
    · cases hg
    · cases List.mem_singleton.mp hg
  | link a b =>
    simp only [Operation.start, Shared.exec] at hg
    split_ifs at hg
    · cases hg
    · cases List.mem_singleton.mp hg
  | unregisterName name => cases hg
  | _ => cases List.mem_singleton.mp hg

/-- A runnable flow was queued, or is pushed now. -/
theorem queued_of_step {ti : ℕ × Input} {flow : Flow Hop}
    (h : flow ∈ (Machine.step s ti).shared.queues) :
    flow ∈ s.shared.queues ∨ .wake flow ∈ s.frames := by
  have hw {w : Write} (hσ : s.shared.Written w (Machine.step s ti).shared)
      (hq : ∀ flow, w ≠ .queue flow) : flow ∈ s.shared.queues := by
    rw [hσ.queues] at h
    cases w with
    | queue flow' => exact absurd rfl (hq flow')
    | steal n => exact List.mem_of_mem_eraseIdx h
    | _ => exact h
  cases step_cases s ti.1 ti.2 with
  | acts f rest w hs _ hwrites hσ _ =>
    cases hwrites with
    | wake flow' =>
      rw [hσ.queues] at h
      rcases List.mem_cons.mp h with rfl | h
      · exact .inr (mem_frames_of_cons hs)
      · exact .inl h
    | _ => exact .inl (hw hσ nofun)
  | starts w hs hstart hσ _ =>
    cases hstart with
    | _ => exact .inl (hw hσ nofun)

/-- Only a flow that asks to sleep goes to sleep. -/
theorem sleep_of_write {flow flow' : Flow Hop} {i : Input}
    (h : ((Frame.run flow).next i).write = .schedule (.wakeSleeper flow')) :
    ∃ delay, i = .vm (.sleep delay) ∧ flow' = flow := by
  cases i with
  | vm result =>
    cases result with
    | sleep delay =>
      cases h
      exact ⟨delay, rfl, rfl⟩
    | monitor target =>
      simp only [Frame.next, effect] at h
      split_ifs at h <;> cases h
    | link target =>
      simp only [Frame.next, effect] at h
      split_ifs at h <;> cases h
    | registerName name cap =>
      simp only [Frame.next, effect] at h
      split_ifs at h <;> cases h
    | _ => cases h
  | _ => cases h

/-- A sleeping flow slept, or asks to sleep now. -/
theorem sleeping_of_step {ti : ℕ × Input} {flow : Flow Hop}
    (h : .wakeSleeper flow ∈ (Machine.step s ti).shared.timers) :
    .wakeSleeper flow ∈ s.shared.timers ∨
      ∃ rest delay, s.threads ti.1 = .run flow :: rest ∧ ti.2 = .vm (.sleep delay) := by
  have hw {w : Write} (hσ : s.shared.Written w (Machine.step s ti).shared)
      (hq : ∀ entry, w ≠ .schedule entry) : .wakeSleeper flow ∈ s.shared.timers := by
    rw [hσ.timers] at h
    cases w with
    | schedule entry => exact absurd rfl (hq entry)
    | expire n => exact List.mem_of_mem_eraseIdx h
    | _ => exact h
  cases step_cases s ti.1 ti.2 with
  | acts f rest w hs hi hwrites hσ _ =>
    cases hwrites with
    | sleep flow' =>
      rw [hσ.timers] at h
      rcases List.mem_cons.mp h with h | h
      · cases h
        obtain ⟨delay, hvm, -⟩ := sleep_of_write hi
        exact .inr ⟨rest, delay, hs, hvm⟩
      · exact .inl h
    | arm pid epoch =>
      rw [hσ.timers] at h
      rcases List.mem_cons.mp h with h | h
      · cases h
      · exact .inl h
    | _ => exact .inl (hw hσ nofun)
  | starts w hs hstart hσ _ =>
    cases hstart with
    | _ => exact .inl (hw hσ nofun)

/-- **All flows.** A property that does not look at what the scheduler notes down stays. -/
theorem Flows.step (h : Flows Q s) (hQ : Kept Q) (ti : ℕ × Input)
    (hnew : ∀ k, (s.next ti.1 ti.2).1 = .register k → Q (.new s.shared.nextFlowId)) :
    Flows Q (Machine.step s ti) := by
  obtain ⟨t, i⟩ := ti
  constructor
  · intro g hg
    rcases frames_of_step hg with hg | hg
    · exact h.frames g (mem_frames_of_others hg)
    rcases next_cases s t i with ⟨f, rest, hs, hn⟩ | ⟨hs, ⟨op, -, hn⟩ | hn⟩
    · rw [hn] at hg
      rw [hn] at hnew
      exact allFlows_next hQ (h.frames f (mem_frames_of_cons hs)) h.mailboxes hnew hg
    · rw [hn] at hg hnew
      cases starts hg with
      | plain hplain => exact hplain.allFlows
      | drive hq => exact allFlows_singleton rfl (h.queues _ hq)
      | sleeper ht => exact allFlows_singleton rfl (h.timers _ ht)
      | spawn => exact allFlows_singleton rfl (new_of_start hg h.timers hnew)
      | fire ht => exact nofun
      | kill id reason => exact nofun
    · rw [hn] at hg
      cases hg
  · intro id
    rcases step_mailbox s t i id with he | ⟨f, rest, op, hs, hwrites, he⟩
    · rw [he]
      exact h.mailboxes id
    · rw [he]
      exact (h.mailboxes id).after hwrites (h.frames f (mem_frames_of_cons hs))
  · intro flow hflow
    rcases queued_of_step hflow with hq | hf
    · exact h.queues flow hq
    · exact h.frames _ hf flow List.mem_cons_self
  · intro flow hflow
    rcases sleeping_of_step hflow with ht | ⟨rest, delay, hs, -⟩
    · exact h.timers flow ht
    · exact h.frames _ (mem_frames_of_cons hs) flow List.mem_cons_self

end Machine

end Byteflow
