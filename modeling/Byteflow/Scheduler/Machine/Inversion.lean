import Byteflow.Scheduler.Machine.Step

/-!
# What a step can do

The facts about single steps from which the invariants of the runtime are derived. A step writes
the tables as its `Write` says, and the frame on top says what it writes (`Writes`). Every other
frame stays, and a new one comes from the frame on top (`Leads`) or from the start of an operation
(`Starts`). `step_cases` is the two together.
-/

namespace Byteflow

namespace Machine

open Function (update)

theorem step_eq (s : State) (t : ℕ) (i : Input) :
    step s (t, i) = ⟨(s.shared.exec (s.next t i).1).1,
      update s.threads t ((s.shared.exec (s.next t i).1).2 ++ (s.next t i).2)⟩ := rfl

theorem step_shared (s : State) (t : ℕ) (i : Input) :
    (step s (t, i)).shared = (s.shared.exec (s.next t i).1).1 := rfl

theorem step_threads_self (s : State) (t : ℕ) (i : Input) :
    (step s (t, i)).threads t = (s.shared.exec (s.next t i).1).2 ++ (s.next t i).2 := by
  rw [step_eq]
  exact Function.update_self ..

theorem step_threads_of_ne (s : State) {t r : ℕ} (i : Input) (h : r ≠ t) :
    (step s (t, i)).threads r = s.threads r := by
  rw [step_eq]
  exact Function.update_of_ne h ..

theorem next_of_cons {s : State} {t : ℕ} {f : Frame} {rest : List Frame} (i : Input)
    (h : s.threads t = f :: rest) : s.next t i = (f.next i, rest) := by
  unfold State.next
  rw [h]

/-- A thread that has work runs its top frame; one that has none starts an operation or idles. -/
theorem next_cases (s : State) (t : ℕ) (i : Input) :
    (∃ f rest, s.threads t = f :: rest ∧ s.next t i = (f.next i, rest)) ∨
      (s.threads t = [] ∧
        ((∃ op, i = .start op ∧ s.next t i = (op.start, [])) ∨ s.next t i = (.nop [], []))) := by
  cases h : s.threads t with
  | cons f rest => exact .inl ⟨f, rest, rfl, next_of_cons i h⟩
  | nil =>
    refine .inr ⟨rfl, ?_⟩
    unfold State.next
    rw [h]
    cases i with
    | start op => exact .inl ⟨op, rfl, rfl⟩
    | _ => exact .inr rfl

/-- The frames on the stacks of all threads. -/
def State.frames (s : State) : Set Frame := {f | ∃ t, f ∈ s.threads t}

theorem mem_frames_of_cons {s : State} {t : ℕ} {f : Frame} {rest : List Frame}
    (h : s.threads t = f :: rest) : f ∈ s.frames := ⟨t, by rw [h]; exact List.mem_cons_self⟩

/-- The frames that do not act when thread `t` steps. -/
def State.others (s : State) (t : ℕ) : Set Frame :=
  {f | (∃ r, r ≠ t ∧ f ∈ s.threads r) ∨ f ∈ (s.threads t).tail}

theorem mem_frames_of_others {s : State} {t : ℕ} {f : Frame} (hf : f ∈ s.others t) :
    f ∈ s.frames := by
  rcases hf with ⟨r, -, hf⟩ | hf
  · exact ⟨r, hf⟩
  · exact ⟨t, List.mem_of_mem_tail hf⟩

/-- A frame acts when thread `t` steps, or it does not. -/
theorem top_or_others {s : State} {f : Frame} (hf : f ∈ s.frames) (t : ℕ) :
    (∃ rest, s.threads t = f :: rest) ∨ f ∈ s.others t := by
  obtain ⟨r, hf⟩ := hf
  by_cases hr : r = t
  · subst hr
    cases hs : s.threads r with
    | nil =>
      rw [hs] at hf
      cases hf
    | cons g rest =>
      rw [hs, List.mem_cons] at hf
      rcases hf with rfl | hf
      · exact .inl ⟨rest, rfl⟩
      · refine .inr (.inr ?_)
        rw [hs]
        exact hf
  · exact .inr (.inl ⟨r, hr, hf⟩)

/-- A frame that does not act stays. -/
theorem mem_frames_of_others_step {s : State} {t : ℕ} {f : Frame} (hf : f ∈ s.others t)
    (i : Input) : f ∈ (step s (t, i)).frames := by
  rcases hf with ⟨r, hr, hf⟩ | hf
  · exact ⟨r, by rwa [step_threads_of_ne s i hr]⟩
  · refine ⟨t, ?_⟩
    rw [step_threads_self]
    refine List.mem_append_right _ ?_
    cases hs : s.threads t with
    | nil =>
      rw [hs] at hf
      cases hf
    | cons g rest =>
      rw [next_of_cons i hs]
      rwa [hs] at hf

/-- A frame stays unless it is the one that acts. -/
theorem mem_frames_step {s : State} {f : Frame} (hf : f ∈ s.frames) (t : ℕ) (i : Input) :
    (∃ rest, s.threads t = f :: rest) ∨ f ∈ (step s (t, i)).frames :=
  (top_or_others hf t).imp_right fun hf => mem_frames_of_others_step hf i

/-- The frames that an action leads to are there after the step. -/
theorem mem_frames_of_next {s : State} {t : ℕ} {i : Input} {f g : Frame} {rest : List Frame}
    (hs : s.threads t = f :: rest) (hg : g ∈ (s.shared.exec (f.next i)).2) :
    g ∈ (step s (t, i)).frames := by
  refine ⟨t, ?_⟩
  rw [step_threads_self, next_of_cons i hs]
  exact List.mem_append_left _ hg

/-- A frame was there before and did not act, or it comes from the action. -/
theorem frames_of_step {s : State} {t : ℕ} {i : Input} {f : Frame}
    (hf : f ∈ (step s (t, i)).frames) :
    f ∈ s.others t ∨ f ∈ (s.shared.exec (s.next t i).1).2 := by
  obtain ⟨r, hf⟩ := hf
  by_cases hr : r = t
  · subst hr
    rw [step_threads_self, List.mem_append] at hf
    rcases hf with hf | hf
    · exact .inr hf
    · refine .inl (.inr ?_)
      rcases next_cases s r i with ⟨g, rest, hs, hn⟩ | ⟨-, ⟨op, -, hn⟩ | hn⟩
      · rw [hn] at hf
        rw [hs]
        exact hf
      · rw [hn] at hf
        cases hf
      · rw [hn] at hf
        cases hf
  · rw [step_threads_of_ne s i hr] at hf
    exact .inl (.inl ⟨r, hr, hf⟩)

/-! ## What a step writes -/

/-- What an action writes in the tables. -/
inductive Write
  | other
  | issue
  | register
  | unregister (id : FlowId)
  | mail (id : FlowId) (op : Mailbox.Op Hop)
  | killSet (id : FlowId) (reason : FlowExitReason)
  | killTake (id : FlowId)
  | sendAtInsert (sender target : FlowId)
  | sendAtRemove (sender : FlowId)
  | askInsert (asker target : FlowId) (requestId : UInt64)
  | askRemove (asker : FlowId)
  | askTake (target : FlowId)
  | monitorCreate (owner target : FlowId)
  | monitorRemove (owner : FlowId) (monitor : UInt64)
  | monitorRemoveOwned (owner : FlowId)
  | monitorNotify (target : FlowId) (reason : FlowExitReason)
  | linkCreate (a b : FlowId)
  | linkRemove (owner : FlowId) (link : UInt64)
  | linkRemoveAll (target : FlowId)
  | nameRegister (name : String) (cap : CapId) (flow : FlowId)
  | nameUnregister (name : String)
  | nameSweep (flow : FlowId)
  | schedule (entry : TimerPayload)
  | expire (n : ℕ)
  | queue (flow : Flow Hop)
  | steal (n : ℕ)

def Action.write : Action → Write
  | .issue _ _ => .issue
  | .register _ => .register
  | .unregister id _ => .unregister id
  | .mail id op _ => .mail id op
  | .killSet id reason _ => .killSet id reason
  | .killTake id _ => .killTake id
  | .sendAtInsert sender target _ => .sendAtInsert sender target
  | .sendAtRemove sender _ => .sendAtRemove sender
  | .askInsert asker target requestId _ => .askInsert asker target requestId
  | .askRemove asker _ => .askRemove asker
  | .askTake target _ => .askTake target
  | .monitorCreate owner target _ => .monitorCreate owner target
  | .monitorRemove owner monitor _ => .monitorRemove owner monitor
  | .monitorRemoveOwned owner _ => .monitorRemoveOwned owner
  | .monitorNotify target reason _ => .monitorNotify target reason
  | .linkCreate a b _ => .linkCreate a b
  | .linkRemove owner link _ => .linkRemove owner link
  | .linkRemoveAll target _ => .linkRemoveAll target
  | .nameRegister name cap flow _ => .nameRegister name cap flow
  | .nameUnregister name _ => .nameUnregister name
  | .nameSweep flow _ => .nameSweep flow
  | .schedule entry _ => .schedule entry
  | .expire n _ => .expire n
  | .queue flow _ => .queue flow
  | .steal n _ => .steal n
  | _ => .other

namespace Write

def mailboxes (σ : Shared) : Write → FlowId → Mailbox Hop
  | .mail id op => update σ.mailboxes id ((σ.mailboxes id).after op)
  | _ => σ.mailboxes

def directory (σ : Shared) : Write → FlowId → Bool
  | .register => update σ.directory σ.nextFlowId true
  | .unregister id => update σ.directory id false
  | _ => σ.directory

def nextFlowId (σ : Shared) : Write → FlowId
  | .register => σ.nextFlowId + 1
  | _ => σ.nextFlowId

def nextHop (σ : Shared) : Write → ℕ
  | .issue => σ.nextHop + 1
  | _ => σ.nextHop

def killSignals (σ : Shared) : Write → FlowId → Option FlowExitReason
  | .killSet id reason => update σ.killSignals id (some reason)
  | .killTake id => update σ.killSignals id none
  | _ => σ.killSignals

def waitingSendAt (σ : Shared) : Write → FlowId → Option FlowId
  | .sendAtInsert sender target => update σ.waitingSendAt sender (some target)
  | .sendAtRemove sender => update σ.waitingSendAt sender none
  | _ => σ.waitingSendAt

def askWaits (σ : Shared) : Write → AskWaitIndex
  | .askInsert asker target requestId => (σ.askWaits.insert asker target requestId).1
  | .askRemove asker => σ.askWaits.removeAsker asker
  | .askTake target => (σ.askWaits.takeWaitersOf target).1
  | _ => σ.askWaits

def monitors (σ : Shared) : Write → MonitorTable
  | .monitorCreate owner target => (σ.monitors.create owner target).1
  | .monitorRemove owner monitor => (σ.monitors.removeOwned owner monitor).1
  | .monitorRemoveOwned owner => σ.monitors.removeOwnedBy owner
  | .monitorNotify target reason => (σ.monitors.notifyTargetExit target reason).1
  | _ => σ.monitors

def links (σ : Shared) : Write → LinkTable
  | .linkCreate a b => (σ.links.link a b).1
  | .linkRemove owner link => (σ.links.unlinkOwned owner link).1
  | .linkRemoveAll target => (σ.links.removeLinksOf target).1
  | _ => σ.links

def registry (σ : Shared) : Write → Registry
  | .nameRegister name cap flow => (σ.registry.register name cap flow).1
  | .nameUnregister name => (σ.registry.unregister name).1
  | .nameSweep flow => σ.registry.unregisterFlow flow
  | _ => σ.registry

def timers (σ : Shared) : Write → List TimerPayload
  | .schedule entry => entry :: σ.timers
  | .expire n => σ.timers.eraseIdx n
  | _ => σ.timers

def queues (σ : Shared) : Write → List (Flow Hop)
  | .queue flow => flow :: σ.queues
  | .steal n => σ.queues.eraseIdx n
  | _ => σ.queues

end Write

/-- The tables after a write. -/
structure Shared.Written (σ : Shared) (w : Write) (σ' : Shared) : Prop where
  mailboxes : σ'.mailboxes = w.mailboxes σ
  directory : σ'.directory = w.directory σ
  nextFlowId : σ'.nextFlowId = w.nextFlowId σ
  nextHop : σ'.nextHop = w.nextHop σ
  killSignals : σ'.killSignals = w.killSignals σ
  waitingSendAt : σ'.waitingSendAt = w.waitingSendAt σ
  askWaits : σ'.askWaits = w.askWaits σ
  monitors : σ'.monitors = w.monitors σ
  links : σ'.links = w.links σ
  registry : σ'.registry = w.registry σ
  timers : σ'.timers = w.timers σ
  queues : σ'.queues = w.queues σ

/-- An action writes what it writes, and nothing else. -/
theorem exec_written (σ : Shared) (a : Action) : σ.Written a.write (σ.exec a).1 := by
  cases a with
  | expire n k =>
    simp only [Shared.exec]
    split
    · exact ⟨rfl, rfl, rfl, rfl, rfl, rfl, rfl, rfl, rfl, rfl, rfl, rfl⟩
    · rename_i hn
      refine ⟨rfl, rfl, rfl, rfl, rfl, rfl, rfl, rfl, rfl, rfl, ?_, rfl⟩
      exact (List.eraseIdx_of_length_le (List.getElem?_eq_none_iff.mp hn)).symm
  | steal n k =>
    simp only [Shared.exec]
    split
    · exact ⟨rfl, rfl, rfl, rfl, rfl, rfl, rfl, rfl, rfl, rfl, rfl, rfl⟩
    · rename_i hn
      refine ⟨rfl, rfl, rfl, rfl, rfl, rfl, rfl, rfl, rfl, rfl, rfl, ?_⟩
      exact (List.eraseIdx_of_length_le (List.getElem?_eq_none_iff.mp hn)).symm
  | _ => exact ⟨rfl, rfl, rfl, rfl, rfl, rfl, rfl, rfl, rfl, rfl, rfl, rfl⟩

/-- Which frame writes what. -/
inductive Writes : Frame → Write → Prop
  | other (f) : Writes f .other
  | issue (f) : Writes f .issue
  | spawn (flow) : Writes (.run flow) .register
  | unregister (cur work) : Writes (.fin .unregister cur work) (.unregister cur.id)
  | push (flow out) : Writes (.send .push flow out) (.mail out.target (.push out.hop))
  | parkSender (flow out) :
      Writes (.send .park flow out) (.mail out.target (.parkSender flow out.hop))
  | receive (flow filter timeout) :
      Writes (.receive flow filter timeout) (.mail flow.id (.tryPopFilter filter))
  | admitWaitingOn (flow) : Writes (.admitWaitingOn flow) (.mail flow.id .admitWaitingSender)
  | park (flow filter timeout) :
      Writes (.park flow filter timeout) (.mail flow.id (.parkFilter flow filter))
  | reply (flow wait) : Writes (.ask .reply flow wait) (.mail flow.id (.tryPopFilter wait.filter))
  | askPark (flow wait) :
      Writes (.ask .park flow wait) (.mail flow.id (.parkFilter flow wait.filter))
  | recheckTake (asker wait) : Writes (.askTake asker wait) (.mail asker .takeParked)
  | fire (pid epoch) : Writes (.fire pid epoch) (.mail pid (.takeParkedAt epoch))
  | close (cur work) : Writes (.fin .close cur work) (.mail cur.id .close)
  | wakeTake (asker askers cur work) :
      Writes (.fin (.wakeTake asker askers) cur work) (.mail asker .takeParked)
  | killParked (id reason next) : Writes (.kill .takeParked id reason next) (.mail id .takeParked)
  | killSender (target id reason next) :
      Writes (.kill (.takeSender target) id reason next) (.mail target (.takeWaitingSender id))
  | downPush (owner hop) : Writes (.downPush owner hop) (.mail owner (.pushSystem hop))
  | hostPush (target hop) : Writes (.hostPush target hop) (.mail target (.push hop))
  | killSet (id reason next) : Writes (.kill .set id reason next) (.killSet id reason)
  | driveTake (flow) : Writes (.drive flow) (.killTake flow.id)
  | finTake (cur work) (hne : cur.id ≠ FlowId.host) :
      Writes (.fin .killTake cur work) (.killTake cur.id)
  | sendIndex (flow out) : Writes (.send .index flow out) (.sendAtInsert flow.id out.target)
  | sendGone (flow out) : Writes (.send .gone flow out) (.sendAtRemove flow.id)
  | admitted (sender) : Writes (.admitted sender) (.sendAtRemove sender.id)
  | finSendAt (cur work) : Writes (.fin .sendAtRemove cur work) (.sendAtRemove cur.id)
  | finSender (sender rest cur work) :
      Writes (.fin (.senders (sender :: rest)) cur work) (.sendAtRemove sender.id)
  | killSendAt (sender id reason next) :
      Writes (.kill (.sendAtRemove sender) id reason next) (.sendAtRemove id)
  | askInsert (flow wait) :
      Writes (.ask .insert flow wait) (.askInsert flow.id wait.target wait.requestId)
  | forget (flow) : Writes (.forget flow) (.askRemove flow.id)
  | finAsk (cur work) : Writes (.fin .askRemove cur work) (.askRemove cur.id)
  | finWaiters (cur work) : Writes (.fin .waiters cur work) (.askTake cur.id)
  | monitor (flow target) : Writes (.run flow) (.monitorCreate flow.id target)
  | demonitor (flow ref) : Writes (.run flow) (.monitorRemove flow.id ref)
  | makeMonitor (owner target) :
      Writes (.relateMake (.monitor owner target)) (.monitorCreate owner target)
  | makeDemonitor (owner ref) :
      Writes (.relateMake (.demonitor owner ref)) (.monitorRemove owner ref)
  | monitorDrop (ref owner target) :
      Writes (.monitorDrop ref owner target) (.monitorRemove owner ref)
  | finOwned (cur work) : Writes (.fin .owned cur work) (.monitorRemoveOwned cur.id)
  | finNotify (cur work) : Writes (.fin .notify cur work) (.monitorNotify cur.id cur.reason)
  | link (flow target) : Writes (.run flow) (.linkCreate flow.id target)
  | unlink (flow ref) : Writes (.run flow) (.linkRemove flow.id ref)
  | makeLink (a b) : Writes (.relateMake (.link a b)) (.linkCreate a b)
  | makeUnlink (owner ref) : Writes (.relateMake (.unlink owner ref)) (.linkRemove owner ref)
  | finLinks (cur work) : Writes (.fin .links cur work) (.linkRemoveAll cur.id)
  | registerName (flow name cap) : Writes (.run flow) (.nameRegister name cap flow.id)
  | makeName (name cap target) :
      Writes (.relateMake (.registerName name cap target)) (.nameRegister name cap target)
  | nameChild (child name cap) :
      Writes (.nameChild child name cap) (.nameRegister name cap child)
  | finNames (cur work) : Writes (.fin .names cur work) (.nameSweep cur.id)
  | sleep (flow) : Writes (.run flow) (.schedule (.wakeSleeper flow))
  | arm (pid epoch) : Writes (.arm pid epoch) (.schedule (.wakeReceiver pid epoch))
  | wake (flow) : Writes (.wake flow) (.queue flow)

/-- A sender is parked by the last stage of `park_waiting_send`. -/
theorem Writes.of_parkSender {f : Frame} {id : FlowId} {flow : Flow Hop} {message : Hop}
    (h : Writes f (.mail id (.parkSender flow message))) :
    ∃ out, f = .send .park flow out ∧ out.target = id ∧ out.hop = message := by
  generalize hop : Mailbox.Op.parkSender flow message = op at h
  cases h with
  | parkSender flow' out =>
    cases hop
    exact ⟨out, rfl, rfl, rfl⟩
  | _ => cases hop

theorem effect_writes (flow : Flow Hop) (r : VmResult) :
    Writes (.run flow) (effect flow r).write := by
  cases r with
  | spawn => exact .spawn flow
  | sleep delay => exact .sleep flow
  | send target message replyCap => exact .issue _
  | ask destReg target request replyCap timeout => exact .issue _
  | monitor target =>
    simp only [effect]
    split_ifs
    · exact .other _
    · exact .monitor flow target
  | demonitor ref => exact .demonitor flow ref
  | link target =>
    simp only [effect]
    split_ifs
    · exact .other _
    · exact .link flow target
  | unlink ref => exact .unlink flow ref
  | registerName name cap =>
    simp only [effect]
    split_ifs
    · exact .other _
    · exact .registerName flow name cap
  | _ => exact .other _

theorem Frame.next_writes (i : Input) (f : Frame) : Writes f (f.next i).write := by
  cases f with
  | drive flow => exact .driveTake flow
  | run flow =>
    simp only [Frame.next]
    split
    · exact effect_writes flow _
    · exact .other _
  | send stage flow out =>
    cases stage with
    | lookup => exact .other _
    | push => exact .push flow out
    | index => exact .sendIndex flow out
    | target => exact .other _
    | park => exact .parkSender flow out
    | gone => exact .sendGone flow out
  | receive flow filter timeout => exact .receive flow filter timeout
  | admitWaitingOn flow => exact .admitWaitingOn flow
  | admitted sender => exact .admitted sender
  | park flow filter timeout => exact .park flow filter timeout
  | ask stage flow wait =>
    cases stage with
    | reply => exact .reply flow wait
    | insert => exact .askInsert flow wait
    | park => exact .askPark flow wait
  | askTake asker wait => exact .recheckTake asker wait
  | forget flow => exact .forget flow
  | wake flow => exact .wake flow
  | arm pid epoch => exact .arm pid epoch
  | fire pid epoch => exact .fire pid epoch
  | fin stage cur work =>
    cases stage with
    | killTake =>
      simp only [Frame.next, FinStage.next]
      split_ifs with hhost
      · exact .other _
      · exact .finTake cur work hhost
    | sendAtRemove => exact .finSendAt cur work
    | askRemove => exact .finAsk cur work
    | close => exact .close cur work
    | senders flows =>
      cases flows with
      | nil => exact .other _
      | cons sender rest => exact .finSender sender rest cur work
    | waiters => exact .finWaiters cur work
    | wake askers =>
      cases askers with
      | nil => exact .other _
      | cons asker askers =>
        simp only [Frame.next, FinStage.next]
        split
        · split <;> exact .other _
        · exact .other _
    | wakeTake asker askers => exact .wakeTake asker askers cur work
    | unregister => exact .unregister cur work
    | owned => exact .finOwned cur work
    | names => exact .finNames cur work
    | notify => exact .finNotify cur work
    | links => exact .finLinks cur work
    | downs events => cases events <;> exact .other _
    | peers peers =>
      cases peers with
      | nil => exact .other _
      | cons peer rest =>
        simp only [Frame.next, FinStage.next]
        split
        · split <;> exact .other _
        · exact .other _
    | _ => exact .other _
  | kill stage id reason next =>
    cases stage with
    | set => exact .killSet id reason next
    | takeParked => exact .killParked id reason next
    | takeSender target => exact .killSender target id reason next
    | sendAtRemove sender => exact .killSendAt sender id reason next
    | _ => exact .other _
  | down event => exact .issue _
  | downPush owner hop => exact .downPush owner hop
  | hostStamp target message => exact .issue _
  | hostPush target hop => exact .hostPush target hop
  | relateMake relation =>
    cases relation with
    | monitor owner target => exact .makeMonitor owner target
    | demonitor owner ref => exact .makeDemonitor owner ref
    | link a b => exact .makeLink a b
    | unlink owner ref => exact .makeUnlink owner ref
    | registerName name cap target => exact .makeName name cap target
  | nameChild child name cap => exact .nameChild child name cap
  | monitorDrop ref owner target => exact .monitorDrop ref owner target
  | _ => exact .other _

/-! ## Where frames come from -/

/-- Frames that hold neither a flow nor a hop nor an event, and on which no other frame waits: the
calls of the host. -/
def Frame.Plain : Frame → Prop
  | .hostLookup _ _ => True
  | .hostStamp _ _ => True
  | .relate _ => True
  | .nameChild _ _ _ => True
  | _ => False

/-- `Leads σ f g`: run in the shared state `σ`, the frame `f` may leave the frame `g`. -/
inductive Leads (σ : Shared) : Frame → Frame → Prop
  | plain {f g} (hg : g.Plain) (hf : f.Plain) : Leads σ f g
  | driveRun {flow} (hsig : σ.killSignals flow.id = none) :
      Leads σ (.drive flow) (.run { flow with pendingMessage := none })
  | driveFin {flow} (outcome reason) :
      Leads σ (.drive flow) (.fin .killTake ⟨flow, outcome, reason⟩ [])
  | runRun {flow} : Leads σ (.run flow) (.run flow)
  | runWake {flow} : Leads σ (.run flow) (.wake flow)
  | runSpawn {flow} : Leads σ (.run flow) (.wake (.new σ.nextFlowId))
  | runSend {flow flow' out} (hid : flow'.id = flow.id) (hname : out.hop.name = σ.nextHop) :
      Leads σ (.run flow) (.send .lookup flow' out)
  | runReceive {flow flow'} (tag rid timeout) (hid : flow'.id = flow.id) :
      Leads σ (.run flow) (.receive flow' (receiveFilter tag rid) timeout)
  | runFin {flow} (outcome reason) : Leads σ (.run flow) (.fin .killTake ⟨flow, outcome, reason⟩ [])
  | sendPush {flow out} (hlive : σ.directory out.target = true) :
      Leads σ (.send .lookup flow out) (.send .push flow out)
  | sendRun {flow out stage} (hstage : stage = .lookup ∨ stage = .push) :
      Leads σ (.send stage flow out) (.run flow)
  | sendReply {flow out stage wait} (hstage : stage = .lookup ∨ stage = .push)
      (hout : out.pending = .ask wait.destReg wait.requestId wait.target wait.timeout) :
      Leads σ (.send stage flow out) (.ask .reply flow wait)
  | pushHandoff {flow out receiver}
      (h : ((σ.mailboxes out.target).push out.hop).2 = .ok (.handoff receiver)) :
      Leads σ (.send .push flow out) (.forget receiver)
  | pushRefused {flow out reason}
      (h : ((σ.mailboxes out.target).push out.hop).2 = .error reason) :
      Leads σ (.send .push flow out)
        (.send .index { flow with pendingSend := some out.pending } out)
  | sendIndex {flow out} : Leads σ (.send .index flow out) (.send .target flow out)
  | sendTarget {flow out} (hlive : σ.directory out.target = true) :
      Leads σ (.send .target flow out) (.send .park flow out)
  | sendGone {flow out} (hlive : σ.directory out.target = false) :
      Leads σ (.send .target flow out) (.send .gone flow out)
  | parkClosed {flow out} (h : (σ.mailboxes out.target).closed = true) :
      Leads σ (.send .park flow out) (.send .gone flow out)
  | goneFin {flow out} (outcome reason) :
      Leads σ (.send .gone flow out) (.fin .killTake ⟨flow, outcome, reason⟩ [])
  | receiveAdmit {flow filter timeout h}
      (h : ((σ.mailboxes flow.id).tryPopFilter filter).2 = some h) :
      Leads σ (.receive flow filter timeout) (.admitWaitingOn flow)
  | receivePark {flow filter timeout} (h : ((σ.mailboxes flow.id).tryPopFilter filter).2 = none) :
      Leads σ (.receive flow filter timeout) (.park flow filter timeout)
  | admitRun {flow} : Leads σ (.admitWaitingOn flow) (.run flow)
  | admitAdmitted {flow sender} (h : (σ.mailboxes flow.id).admitWaitingSender.2 = some sender) :
      Leads σ (.admitWaitingOn flow) (.admitted sender)
  | admittedAsk {sender wait}
      (h : sender.pendingSend =
        some (.ask wait.destReg wait.requestId wait.target wait.timeout)) :
      Leads σ (.admitted sender) (.ask .insert { sender with pendingSend := none } wait)
  | admittedWake {sender} : Leads σ (.admitted sender) (.wake { sender with pendingSend := none })
  | parkArm {flow filter timeout epoch} (htimeout : timeout.isSome = true)
      (h : ((σ.mailboxes flow.id).parkFilter flow filter).2 = .ok epoch) :
      Leads σ (.park flow filter timeout) (.arm flow.id epoch)
  | parkWake {flow filter timeout flow'}
      (h : ((σ.mailboxes flow.id).parkFilter flow filter).2 = .error flow') :
      Leads σ (.park flow filter timeout) (.wake { flow' with pendingMessage := none })
  | replyRun {flow wait hop}
      (h : ((σ.mailboxes flow.id).tryPopFilter wait.filter).2 = some hop) :
      Leads σ (.ask .reply flow wait) (.run flow)
  | replyInsert {flow wait} (h : ((σ.mailboxes flow.id).tryPopFilter wait.filter).2 = none) :
      Leads σ (.ask .reply flow wait) (.ask .insert flow wait)
  | insertPark {flow wait} (h : (σ.askWaits.insert flow.id wait.target wait.requestId).2 = true) :
      Leads σ (.ask .insert flow wait) (.ask .park flow wait)
  | insertFin {flow wait} (outcome reason)
      (h : (σ.askWaits.insert flow.id wait.target wait.requestId).2 = false) :
      Leads σ (.ask .insert flow wait) (.fin .killTake ⟨flow, outcome, reason⟩ [])
  | askRecheck {flow wait epoch}
      (h : ((σ.mailboxes flow.id).parkFilter flow wait.filter).2 = .ok epoch) :
      Leads σ (.ask .park flow wait) (.askRecheck flow.id wait epoch)
  | askForget {flow wait flow'}
      (h : ((σ.mailboxes flow.id).parkFilter flow wait.filter).2 = .error flow') :
      Leads σ (.ask .park flow wait) (.forget { flow' with pendingMessage := none })
  | recheckArm {asker wait epoch} (htimeout : wait.timeout.isSome = true) :
      Leads σ (.askRecheck asker wait epoch) (.arm asker epoch)
  | recheckTake {asker wait epoch} (hlive : σ.directory wait.target = false) :
      Leads σ (.askRecheck asker wait epoch) (.askTake asker wait)
  | takeForget {asker wait flow} (h : (σ.mailboxes asker).parked = some flow) :
      Leads σ (.askTake asker wait) (.forget flow)
  | forgetWake {flow} : Leads σ (.forget flow) (.wake flow)
  | fireForget {pid epoch flow} (h : ((σ.mailboxes pid).takeParkedAt epoch).2 = some flow) :
      Leads σ (.fire pid epoch) (.forget flow)
  -- `Runtime::monitor` and its siblings
  | relateTarget {relation} (hlive : σ.directory relation.first = true) :
      Leads σ (.relate relation) (.relateTarget relation)
  | relateMake {relation} (hlive : σ.directory relation.first = true) :
      Leads σ (.relate relation) (.relateMake relation)
  | relateBoth {relation} (hlive : σ.directory (relation.second.getD FlowId.host) = true) :
      Leads σ (.relateTarget relation) (.relateMake relation)
  | monitorRecheck {owner target} : Leads σ (.relateMake (.monitor owner target))
      (.monitorRecheck σ.monitors.nextMonitor owner target)
  | monitorDrop {ref owner target} (hgone : σ.directory target = false) :
      Leads σ (.monitorRecheck ref owner target) (.monitorDrop ref owner target)
  | dropDown {ref owner target} :
      Leads σ (.monitorDrop ref owner target) (.down ⟨ref, owner, target, .fault⟩)
  | downIssue {event hop} (hname : hop.name = σ.nextHop) :
      Leads σ (.down event) (.downLookup event.owner hop)
  | downFound {owner hop} : Leads σ (.downLookup owner hop) (.downPush owner hop)
  | downForget {owner hop receiver}
      (h : ((σ.mailboxes owner).pushSystem hop).2 = .handoff receiver) :
      Leads σ (.downPush owner hop) (.forget receiver)
  | hostIssue {target message hop} (hname : hop.name = σ.nextHop) :
      Leads σ (.hostStamp target message) (.hostPush target hop)
  | hostForget {target hop receiver}
      (h : ((σ.mailboxes target).push hop).2 = .ok (.handoff receiver)) :
      Leads σ (.hostPush target hop) (.forget receiver)
  -- `finalize_one`
  | finNext {stage cur work next rest}
      (hstage : (stage = .killTake ∧ cur.id = FlowId.host) ∨ stage = .links ∨ stage = .peers [])
      (h : work = rest ++ [next]) : Leads σ (.fin stage cur work) (.fin .killTake next rest)
  | finSendAt {cur work} : Leads σ (.fin .killTake cur work) (.fin .sendAtRemove cur work)
  | finAsk {cur work} : Leads σ (.fin .sendAtRemove cur work) (.fin .askRemove cur work)
  | finLookup {cur work} : Leads σ (.fin .askRemove cur work) (.fin .lookup cur work)
  | finClose {cur work} (hlive : σ.directory cur.id = true) :
      Leads σ (.fin .lookup cur work) (.fin .close cur work)
  | finUnlisted {cur work} (hlive : σ.directory cur.id = false) :
      Leads σ (.fin .lookup cur work) (.fin .waiters cur work)
  | finSenders {cur work} : Leads σ (.fin .close cur work)
      (.fin (.senders ((σ.mailboxes cur.id).waitingSenders.map (·.flow))) cur work)
  | finSender {sender rest cur work} (outcome) :
      Leads σ (.fin (.senders (sender :: rest)) cur work)
        (.fin (.senders rest) cur (work ++ [⟨sender, outcome, .fault⟩]))
  | finWaiters {cur work} : Leads σ (.fin (.senders []) cur work) (.fin .waiters cur work)
  | finWake {cur work} :
      Leads σ (.fin .waiters cur work) (.fin (.wake (σ.askWaits.askersOf cur.id)) cur work)
  | finWakeStay {askers cur work} :
      Leads σ (.fin (.wake askers) cur work) (.fin (.wake askers) cur work)
  | finWakeTake {askers n asker cur work} (h : askers[n]? = some asker)
      (hlive : σ.directory asker = true) :
      Leads σ (.fin (.wake askers) cur work) (.fin (.wakeTake asker (askers.eraseIdx n)) cur work)
  | finWakeSkip {askers n asker cur work} (h : askers[n]? = some asker)
      (hlive : σ.directory asker = false) :
      Leads σ (.fin (.wake askers) cur work) (.fin (.wake (askers.eraseIdx n)) cur work)
  | finTook {asker askers cur work} :
      Leads σ (.fin (.wakeTake asker askers) cur work) (.fin (.wake askers) cur work)
  | finTookWake {asker askers cur work flow} (h : (σ.mailboxes asker).parked = some flow) :
      Leads σ (.fin (.wakeTake asker askers) cur work) (.wake flow)
  | finRevoke {cur work} : Leads σ (.fin (.wake []) cur work) (.fin .revoke cur work)
  | finUnregister {cur work} : Leads σ (.fin .revoke cur work) (.fin .unregister cur work)
  | finOwned {cur work} : Leads σ (.fin .unregister cur work) (.fin .owned cur work)
  | finNames {cur work} : Leads σ (.fin .owned cur work) (.fin .names cur work)
  | finNotify {cur work} : Leads σ (.fin .names cur work) (.fin .notify cur work)
  | finDowns {cur work} : Leads σ (.fin .notify cur work)
      (.fin (.downs (σ.monitors.notifyTargetExit cur.id cur.reason).2) cur work)
  | finDownEvent {event events cur work} :
      Leads σ (.fin (.downs (event :: events)) cur work) (.down event)
  | finDown {event events cur work} :
      Leads σ (.fin (.downs (event :: events)) cur work) (.fin (.downs events) cur work)
  | finLinks {cur work} : Leads σ (.fin (.downs []) cur work) (.fin .links cur work)
  | finPeers {cur work} (habnormal : cur.reason.isAbnormal = true) :
      Leads σ (.fin .links cur work) (.fin (.peers (σ.links.removeLinksOf cur.id).2) cur work)
  | finPeersStay {peers cur work} :
      Leads σ (.fin (.peers peers) cur work) (.fin (.peers peers) cur work)
  | finKill {peers n peer cur work} (h : peers[n]? = some peer) :
      Leads σ (.fin (.peers peers) cur work)
        (.kill .lookup peer .link (.link cur (peers.eraseIdx n) work))
  -- `extract_for_kill`
  | killSet {id reason next} (hlive : σ.directory id = true) :
      Leads σ (.kill .lookup id reason next) (.kill .set id reason next)
  | killParked {id reason next} :
      Leads σ (.kill .set id reason next) (.kill .takeParked id reason next)
  | killGet {id reason next} (h : (σ.mailboxes id).parked = none) :
      Leads σ (.kill .takeParked id reason next) (.kill .sendAtGet id reason next)
  | killTarget {id reason next target} (h : σ.waitingSendAt id = some target) :
      Leads σ (.kill .sendAtGet id reason next) (.kill (.targetLookup target) id reason next)
  | killSender {id reason next target} (hlive : σ.directory target = true) :
      Leads σ (.kill (.targetLookup target) id reason next)
        (.kill (.takeSender target) id reason next)
  | killRemove {id reason next target sender}
      (h : ((σ.mailboxes target).takeWaitingSender id).2 = some sender) :
      Leads σ (.kill (.takeSender target) id reason next)
        (.kill (.sendAtRemove sender) id reason next)
  | killBack {stage id reason cur peers work}
      (hstage : stage = .lookup ∨ stage = .sendAtGet ∨ (∃ target, stage = .targetLookup target) ∨
        ∃ target, stage = .takeSender target) :
      Leads σ (.kill stage id reason (.link cur peers work)) (.fin (.peers peers) cur work)
  | killFin {id reason flow} (outcome) (h : (σ.mailboxes id).parked = some flow) :
      Leads σ (.kill .takeParked id reason .request) (.fin .killTake ⟨flow, outcome, reason⟩ [])
  | killLink {id reason cur peers work flow} (outcome)
      (h : (σ.mailboxes id).parked = some flow) :
      Leads σ (.kill .takeParked id reason (.link cur peers work))
        (.fin (.peers peers) cur (work ++ [⟨flow, outcome, .link⟩]))
  | killSentFin {id reason sender} (outcome) :
      Leads σ (.kill (.sendAtRemove sender) id reason .request)
        (.fin .killTake ⟨sender, outcome, reason⟩ [])
  | killSentLink {id reason cur peers work sender} (outcome) :
      Leads σ (.kill (.sendAtRemove sender) id reason (.link cur peers work))
        (.fin (.peers peers) cur (work ++ [⟨sender, outcome, .link⟩]))
  -- `register_child_name`
  | nameKill {child name cap} :
      Leads σ (.nameChild child name cap) (.kill .lookup child .supervisor .request)

section

variable {σ : Shared} {i : Input} {g : Frame}

theorem leads_of_mem_delivered {stage : SendStage} {flow : Flow Hop} {out : Outgoing}
    (hstage : stage = .lookup ∨ stage = .push) (hg : g ∈ delivered flow out) :
    Leads σ (.send stage flow out) g := by
  unfold delivered at hg
  split at hg
  · rw [List.mem_singleton] at hg
    exact hg ▸ .sendRun hstage
  · rename_i destReg requestId target timeout hp
    rw [List.mem_singleton] at hg
    exact hg ▸ .sendReply hstage hp

theorem mem_finishFailed {flow : Flow Hop} {message : String} :
    g ∈ finishFailed flow message ↔ g = .fin .killTake ⟨flow, .failed message, .fault⟩ [] :=
  List.mem_singleton

/-- The flow runs on after its effect. -/
def VmResult.Resumes (σ : Shared) (id : FlowId) : VmResult → Prop
  | .resumed | .spawn | .demonitor _ | .unlink _ | .registerName .. => True
  | .monitor target => target ≠ id
  | .link target => target ≠ id ∧ ∃ link, (σ.links.link id target).2 = .ok link
  | _ => False

/-- What an effect of the VM leads to. -/
inductive Effects (σ : Shared) (flow : Flow Hop) : VmResult → Frame → Prop
  | run {result} (h : result.Resumes σ flow.id) : Effects σ flow result (.run flow)
  | fin {result} (outcome reason) :
      Effects σ flow result (.fin .killTake ⟨flow, outcome, reason⟩ [])
  | wake : Effects σ flow .yield (.wake flow)
  | new : Effects σ flow .spawn (.wake (.new σ.nextFlowId))
  | send (target message replyCap) : Effects σ flow (.send target message replyCap)
      (.send .lookup flow
        ⟨target, ⟨σ.nextHop, (message.authenticate flow.id replyCap).toValue⟩, .fireAndForget⟩)
  | receive (destReg timeout tag rid) : Effects σ flow (.receive destReg timeout tag rid)
      (.receive { flow with lastReceiveDest := some destReg } (receiveFilter tag rid) timeout)
  | ask (destReg target request replyCap timeout) :
      Effects σ flow (.ask destReg target request replyCap timeout)
        (.send .lookup { flow with lastReceiveDest := some destReg }
          ⟨target, ⟨σ.nextHop, (request.authenticate flow.id replyCap).toValue⟩,
            .ask destReg (request.authenticate flow.id replyCap).requestId target timeout⟩)

theorem effects {flow : Flow Hop} {result : VmResult}
    (hg : g ∈ (σ.exec (effect flow result)).2) : Effects σ flow result g := by
  have hrun (h : result.Resumes σ flow.id) (hg : g ∈ [Frame.run flow]) :
      Effects σ flow result g := by
    rw [List.mem_singleton.mp hg]
    exact .run h
  have hfail (message : String) (hg : g ∈ finishFailed flow message) :
      Effects σ flow result g := by
    rw [mem_finishFailed.mp hg]
    exact .fin _ _
  cases result with
  | complete value =>
    rw [List.mem_singleton.mp hg]
    exact .fin _ _
  | trap message => exact hfail _ hg
  | yield =>
    rw [List.mem_singleton.mp hg]
    exact .wake
  | sleep delay => cases hg
  | resumed => exact hrun trivial hg
  | spawn =>
    rcases List.mem_pair.mp hg with rfl | rfl
    · exact .new
    · exact .run trivial
  | send target message replyCap =>
    rw [List.mem_singleton.mp hg]
    exact .send ..
  | receive destReg timeout matchTag matchRequestId =>
    rw [List.mem_singleton.mp hg]
    exact .receive ..
  | ask destReg target request replyCap timeout =>
    rw [List.mem_singleton.mp hg]
    exact .ask ..
  | monitor target =>
    simp only [effect] at hg
    split_ifs at hg with hself
    · exact hfail _ hg
    · exact hrun hself hg
  | demonitor monitor =>
    simp only [effect, Shared.exec] at hg
    split at hg
    · exact hrun trivial hg
    · exact hfail _ hg
  | link target =>
    simp only [effect] at hg
    split_ifs at hg with hself
    · exact hfail _ hg
    · simp only [Shared.exec] at hg
      split at hg
      · rename_i link hlink
        exact hrun ⟨hself, link, hlink⟩ hg
      · exact hfail _ hg
  | unlink link =>
    simp only [effect, Shared.exec] at hg
    split at hg
    · exact hrun trivial hg
    · exact hfail _ hg
  | registerName name cap =>
    simp only [effect] at hg
    split_ifs at hg
    · exact hfail _ hg
    · simp only [Shared.exec] at hg
      split at hg
      · exact hrun trivial hg
      · exact hfail _ hg

/-- What follows an effect of the VM. -/
theorem leads_of_effect {flow : Flow Hop} (r : VmResult)
    (hg : g ∈ (σ.exec (effect flow r)).2) : Leads σ (.run flow) g := by
  cases effects hg with
  | run h => exact .runRun
  | fin outcome reason => exact .runFin _ _
  | wake => exact .runWake
  | new => exact .runSpawn
  | send target message replyCap => exact .runSend rfl rfl
  | receive destReg timeout tag rid => exact .runReceive _ _ _ rfl
  | ask destReg target request replyCap timeout => exact .runSend rfl rfl

theorem leads_of_send {flow : Flow Hop} {out : Outgoing} (stage : SendStage)
    (hg : g ∈ (σ.exec (stage.next flow out)).2) : Leads σ (.send stage flow out) g := by
  cases stage with
  | lookup =>
    simp only [SendStage.next, Shared.exec] at hg
    split_ifs at hg with hlive
    · exact List.mem_singleton.mp hg ▸ .sendPush hlive
    · exact leads_of_mem_delivered (.inl rfl) hg
  | push =>
    simp only [SendStage.next, Shared.exec, Mailbox.result] at hg
    split at hg
    · rename_i receiver hr
      rcases List.mem_cons.mp hg with rfl | hg
      · exact .pushHandoff hr
      · exact leads_of_mem_delivered (.inr rfl) hg
    · exact leads_of_mem_delivered (.inr rfl) hg
    · rename_i reason hr
      exact List.mem_singleton.mp hg ▸ .pushRefused hr
  | index => exact List.mem_singleton.mp hg ▸ .sendIndex
  | target =>
    simp only [SendStage.next, Shared.exec, List.mem_singleton] at hg
    subst hg
    cases hlive : σ.directory out.target with
    | true => exact .sendTarget hlive
    | false => exact .sendGone hlive
  | park =>
    simp only [SendStage.next, Shared.exec, Mailbox.result, Mailbox.parkSender] at hg
    by_cases hc : (σ.mailboxes out.target).closed = true
    · rw [if_pos hc] at hg
      exact List.mem_singleton.mp hg ▸ .parkClosed hc
    · rw [if_neg hc] at hg
      cases hg
  | gone => exact mem_finishFailed.mp hg ▸ .goneFin _ _

theorem leads_of_ask {flow : Flow Hop} {wait : AskWait} (stage : AskStage)
    (hg : g ∈ (σ.exec (stage.next flow wait)).2) : Leads σ (.ask stage flow wait) g := by
  cases stage with
  | reply =>
    simp only [AskStage.next, Shared.exec, Mailbox.result] at hg
    split at hg
    · rename_i hr
      exact List.mem_singleton.mp hg ▸ .replyRun hr
    · rename_i hr
      exact List.mem_singleton.mp hg ▸ .replyInsert hr
  | insert =>
    simp only [AskStage.next, Shared.exec] at hg
    split_ifs at hg with hr
    · exact List.mem_singleton.mp hg ▸ .insertPark hr
    · exact mem_finishFailed.mp hg ▸ .insertFin _ _ (Bool.eq_false_iff.mpr hr)
  | park =>
    simp only [AskStage.next, Shared.exec, Mailbox.result] at hg
    split at hg
    · rename_i hr
      exact List.mem_singleton.mp hg ▸ .askRecheck hr
    · rename_i hr
      exact List.mem_singleton.mp hg ▸ .askForget hr

theorem leads_of_finNext {stage : FinStage} {cur : PendingExit} {work : List PendingExit}
    (hstage : (stage = .killTake ∧ cur.id = FlowId.host) ∨ stage = .links ∨ stage = .peers [])
    (hg : g ∈ finNext work) : Leads σ (.fin stage cur work) g := by
  unfold finNext at hg
  split at hg
  · rename_i next hlast
    rw [List.mem_singleton.mp hg]
    exact .finNext hstage (List.dropLast_append_getLast? next hlast).symm
  · cases hg

theorem leads_of_fin {cur : PendingExit} {work : List PendingExit} (stage : FinStage)
    (hg : g ∈ (σ.exec (stage.next i cur work)).2) : Leads σ (.fin stage cur work) g := by
  cases stage with
  | killTake =>
    simp only [FinStage.next] at hg
    split_ifs at hg with hhost
    · exact leads_of_finNext (.inl ⟨rfl, hhost⟩) hg
    · exact List.mem_singleton.mp hg ▸ .finSendAt
  | sendAtRemove => exact List.mem_singleton.mp hg ▸ .finAsk
  | askRemove => exact List.mem_singleton.mp hg ▸ .finLookup
  | lookup =>
    simp only [FinStage.next, Shared.exec, List.mem_singleton] at hg
    subst hg
    cases hlive : σ.directory cur.id with
    | true => exact .finClose hlive
    | false => exact .finUnlisted hlive
  | close => exact List.mem_singleton.mp hg ▸ .finSenders
  | senders flows =>
    cases flows with
    | nil => exact List.mem_singleton.mp hg ▸ .finWaiters
    | cons sender rest => exact List.mem_singleton.mp hg ▸ .finSender _
  | waiters =>
    simp only [FinStage.next, Shared.exec, AskWaitIndex.takeWaitersOf_snd, List.mem_singleton] at hg
    exact hg ▸ .finWake
  | wake askers =>
    cases askers with
    | nil => exact List.mem_singleton.mp hg ▸ .finRevoke
    | cons asker askers =>
      simp only [FinStage.next] at hg
      split at hg
      · split at hg
        · rename_i hn
          simp only [Shared.exec] at hg
          split_ifs at hg with hlive
          · exact List.mem_singleton.mp hg ▸ .finWakeTake hn hlive
          · exact List.mem_singleton.mp hg ▸ .finWakeSkip hn (Bool.eq_false_iff.mpr hlive)
        · rw [List.mem_singleton.mp hg]
          exact .finWakeStay
      · rw [List.mem_singleton.mp hg]
        exact .finWakeStay
  | wakeTake asker askers =>
    simp only [FinStage.next, Shared.exec, Mailbox.result, Mailbox.takeParked] at hg
    split at hg
    · rename_i hr
      rcases List.mem_pair.mp hg with rfl | rfl
      · exact .finTookWake hr
      · exact .finTook
    · exact List.mem_singleton.mp hg ▸ .finTook
  | revoke => exact List.mem_singleton.mp hg ▸ .finUnregister
  | unregister => exact List.mem_singleton.mp hg ▸ .finOwned
  | owned => exact List.mem_singleton.mp hg ▸ .finNames
  | names => exact List.mem_singleton.mp hg ▸ .finNotify
  | notify => exact List.mem_singleton.mp hg ▸ .finDowns
  | downs events =>
    cases events with
    | nil => exact List.mem_singleton.mp hg ▸ .finLinks
    | cons event events =>
      rcases List.mem_pair.mp hg with rfl | rfl
      · exact .finDownEvent
      · exact .finDown
  | links =>
    simp only [FinStage.next, Shared.exec] at hg
    split_ifs at hg with habnormal
    · exact List.mem_singleton.mp hg ▸ .finPeers habnormal
    · exact leads_of_finNext (.inr (.inl rfl)) hg
  | peers peers =>
    cases peers with
    | nil => exact leads_of_finNext (.inr (.inr rfl)) hg
    | cons peer rest =>
      simp only [FinStage.next] at hg
      split at hg
      · split at hg
        · rename_i hn
          exact List.mem_singleton.mp hg ▸ .finKill hn
        · rw [List.mem_singleton.mp hg]
          exact .finPeersStay
      · rw [List.mem_singleton.mp hg]
        exact .finPeersStay

theorem leads_of_killBack {stage : KillStage} {id : FlowId} {reason : FlowExitReason}
    {next : KillAfter}
    (hstage : stage = .lookup ∨ stage = .sendAtGet ∨ (∃ target, stage = .targetLookup target) ∨
      ∃ target, stage = .takeSender target)
    (hg : g ∈ next.resume reason none) : Leads σ (.kill stage id reason next) g := by
  cases next with
  | request => cases hg
  | link cur peers work => exact List.mem_singleton.mp hg ▸ .killBack hstage

theorem leads_of_kill {id : FlowId} {reason : FlowExitReason} {next : KillAfter}
    (stage : KillStage) (hg : g ∈ (σ.exec (stage.next id reason next)).2) :
    Leads σ (.kill stage id reason next) g := by
  cases stage with
  | lookup =>
    simp only [KillStage.next, Shared.exec] at hg
    split_ifs at hg with hlive
    · exact List.mem_singleton.mp hg ▸ .killSet hlive
    · exact leads_of_killBack (.inl rfl) hg
  | set => exact List.mem_singleton.mp hg ▸ .killParked
  | takeParked =>
    simp only [KillStage.next, Shared.exec, Mailbox.result, Mailbox.takeParked] at hg
    split at hg
    · rename_i hr
      cases next with
      | request => exact List.mem_singleton.mp hg ▸ .killFin _ hr
      | link cur peers work => exact List.mem_singleton.mp hg ▸ .killLink _ hr
    · rename_i hr
      exact List.mem_singleton.mp hg ▸ .killGet hr
  | sendAtGet =>
    simp only [KillStage.next, Shared.exec] at hg
    split at hg
    · rename_i hr
      exact List.mem_singleton.mp hg ▸ .killTarget hr
    · exact leads_of_killBack (.inr (.inl rfl)) hg
  | targetLookup target =>
    simp only [KillStage.next, Shared.exec] at hg
    split_ifs at hg with hlive
    · exact List.mem_singleton.mp hg ▸ .killSender hlive
    · exact leads_of_killBack (.inr (.inr (.inl ⟨_, rfl⟩))) hg
  | takeSender target =>
    simp only [KillStage.next, Shared.exec, Mailbox.result] at hg
    split at hg
    · rename_i hr
      exact List.mem_singleton.mp hg ▸ .killRemove hr
    · exact leads_of_killBack (.inr (.inr (.inr ⟨_, rfl⟩))) hg
  | sendAtRemove sender =>
    cases next with
    | request => exact List.mem_singleton.mp hg ▸ .killSentFin _
    | link cur peers work => exact List.mem_singleton.mp hg ▸ .killSentLink _

/-- **Where frames come from.** A frame that the top frame leaves, by cases of the two. -/
theorem leads {f : Frame} (hg : g ∈ (σ.exec (f.next i)).2) : Leads σ f g := by
  cases f with
  | drive flow =>
    simp only [Frame.next, Shared.exec] at hg
    split at hg
    · exact List.mem_singleton.mp hg ▸ .driveFin _ _
    · rename_i hsig
      exact List.mem_singleton.mp hg ▸ .driveRun hsig
  | run flow =>
    simp only [Frame.next] at hg
    split at hg
    · exact leads_of_effect _ hg
    · rw [List.mem_singleton.mp hg]
      exact .runRun
  | send stage flow out => exact leads_of_send stage hg
  | receive flow filter timeout =>
    simp only [Frame.next, Shared.exec, Mailbox.result] at hg
    split at hg
    · rename_i hr
      exact List.mem_singleton.mp hg ▸ .receiveAdmit hr
    · rename_i hr
      exact List.mem_singleton.mp hg ▸ .receivePark hr
  | admitWaitingOn flow =>
    simp only [Frame.next, Shared.exec, Mailbox.result] at hg
    split at hg
    · rename_i hr
      rcases List.mem_pair.mp hg with rfl | rfl
      · exact .admitAdmitted hr
      · exact .admitRun
    · exact List.mem_singleton.mp hg ▸ .admitRun
  | admitted sender =>
    simp only [Frame.next, Shared.exec] at hg
    split at hg
    · rename_i hp
      exact List.mem_singleton.mp hg ▸ .admittedAsk hp
    · exact List.mem_singleton.mp hg ▸ .admittedWake
  | park flow filter timeout =>
    simp only [Frame.next, Shared.exec, Mailbox.result] at hg
    split at hg
    · rename_i hr
      split_ifs at hg with htimeout
      · exact List.mem_singleton.mp hg ▸ .parkArm htimeout hr
      · cases hg
    · rename_i hr
      exact List.mem_singleton.mp hg ▸ .parkWake hr
  | arm pid epoch => cases hg
  | ask stage flow wait => exact leads_of_ask stage hg
  | askRecheck asker wait epoch =>
    simp only [Frame.next, Shared.exec] at hg
    split_ifs at hg with hlive htimeout
    · exact List.mem_singleton.mp hg ▸ .recheckArm htimeout
    · cases hg
    · exact List.mem_singleton.mp hg ▸ .recheckTake (Bool.eq_false_iff.mpr hlive)
  | askTake asker wait =>
    simp only [Frame.next, Shared.exec, Mailbox.result, Mailbox.takeParked] at hg
    split at hg
    · rename_i hr
      exact List.mem_singleton.mp hg ▸ .takeForget hr
    · cases hg
  | forget flow => exact List.mem_singleton.mp hg ▸ .forgetWake
  | wake flow => cases hg
  | fire pid epoch =>
    simp only [Frame.next, Shared.exec, Mailbox.result] at hg
    split at hg
    · rename_i hr
      exact List.mem_singleton.mp hg ▸ .fireForget hr
    · cases hg
  | fin stage cur work => exact leads_of_fin stage hg
  | kill stage id reason next => exact leads_of_kill stage hg
  | down event => exact List.mem_singleton.mp hg ▸ .downIssue rfl
  | downLookup owner hop =>
    simp only [Frame.next, Shared.exec] at hg
    split_ifs at hg
    · exact List.mem_singleton.mp hg ▸ .downFound
    · cases hg
  | downPush owner hop =>
    simp only [Frame.next, Shared.exec, Mailbox.result] at hg
    split at hg
    · rename_i hr
      exact List.mem_singleton.mp hg ▸ .downForget hr
    · cases hg
  | hostLookup target message =>
    simp only [Frame.next, Shared.exec] at hg
    split_ifs at hg
    · exact List.mem_singleton.mp hg ▸ .plain trivial trivial
    · cases hg
  | hostStamp target message => exact List.mem_singleton.mp hg ▸ .hostIssue rfl
  | hostPush target hop =>
    simp only [Frame.next, Shared.exec, Mailbox.result] at hg
    split at hg
    · rename_i hr
      exact List.mem_singleton.mp hg ▸ .hostForget hr
    · cases hg
  | relate relation =>
    simp only [Frame.next, Shared.exec] at hg
    split_ifs at hg with hlive
    · exact List.mem_singleton.mp hg ▸ .relateTarget hlive
    · exact List.mem_singleton.mp hg ▸ .relateMake hlive
    · cases hg
  | relateTarget relation =>
    simp only [Frame.next, Shared.exec] at hg
    split_ifs at hg with hlive
    · exact List.mem_singleton.mp hg ▸ .relateBoth hlive
    · cases hg
  | relateMake relation =>
    cases relation with
    | monitor owner target => exact List.mem_singleton.mp hg ▸ .monitorRecheck
    | _ => cases hg
  | monitorRecheck monitor owner target =>
    simp only [Frame.next, Shared.exec] at hg
    split_ifs at hg with hlive
    · cases hg
    · exact List.mem_singleton.mp hg ▸ .monitorDrop (Bool.eq_false_iff.mpr hlive)
  | nameChild child name cap =>
    simp only [Frame.next, Shared.exec] at hg
    split at hg
    · cases hg
    · exact List.mem_singleton.mp hg ▸ .nameKill
  | monitorDrop monitor owner target => exact List.mem_singleton.mp hg ▸ .dropDown

end

/-- What a thread without work may start. -/
inductive Starts (σ : Shared) : Frame → Prop
  | plain {g} (hg : g.Plain) : Starts σ g
  | drive {flow} (h : flow ∈ σ.queues) : Starts σ (.drive flow)
  | sleeper {flow} (h : .wakeSleeper flow ∈ σ.timers) : Starts σ (.wake flow)
  | fire {pid epoch} (h : .wakeReceiver pid epoch ∈ σ.timers) : Starts σ (.fire pid epoch)
  | spawn : Starts σ (.wake (.new σ.nextFlowId))
  | kill (id reason) : Starts σ (.kill .lookup id reason .request)

theorem starts {σ : Shared} {op : Operation} {g : Frame} (hg : g ∈ (σ.exec op.start).2) :
    Starts σ g := by
  have hplain : ∀ {b : Prop} [Decidable b] {f : Frame}, f.Plain →
      g ∈ (if b then [] else [f]) → Starts σ g := by
    intro b _ f hf hg
    split_ifs at hg
    · cases hg
    · exact List.mem_singleton.mp hg ▸ .plain hf
  cases op with
  | work n =>
    simp only [Operation.start, Shared.exec] at hg
    split at hg
    · rename_i hn
      exact List.mem_singleton.mp hg ▸ .drive (List.mem_of_getElem? hn)
    · cases hg
  | fire n =>
    simp only [Operation.start, Shared.exec] at hg
    split at hg
    · rename_i hn
      split at hg
      · exact List.mem_singleton.mp hg ▸ .sleeper (List.mem_of_getElem? hn)
      · exact List.mem_singleton.mp hg ▸ .fire (List.mem_of_getElem? hn)
    · cases hg
  | spawn => exact List.mem_singleton.mp hg ▸ .spawn
  | send target message => exact List.mem_singleton.mp hg ▸ .plain trivial
  | kill id reason => exact List.mem_singleton.mp hg ▸ .kill id reason
  | monitor owner target => exact hplain (f := .relate (.monitor owner target)) trivial hg
  | demonitor owner ref => exact List.mem_singleton.mp hg ▸ .plain trivial
  | link a b => exact hplain (f := .relate (.link a b)) trivial hg
  | unlink owner ref => exact List.mem_singleton.mp hg ▸ .plain trivial
  | spawnChild name cap =>
    simp only [Operation.start, Shared.exec] at hg
    split_ifs at hg
    · exact List.mem_singleton.mp hg ▸ .spawn
    · rcases List.mem_cons.mp hg with rfl | hg
      · exact .spawn
      · exact List.mem_singleton.mp hg ▸ .plain trivial
  | registerName name cap target => exact List.mem_singleton.mp hg ▸ .plain trivial
  | unregisterName name => cases hg

/-- What the start of an operation writes. -/
inductive StartWrites : Write → Prop
  | other : StartWrites .other
  | register : StartWrites .register
  | expire (n) : StartWrites (.expire n)
  | steal (n) : StartWrites (.steal n)
  | unregisterName (name) : StartWrites (.nameUnregister name)

theorem Operation.start_write (op : Operation) : StartWrites op.start.write := by
  cases op with
  | work n => exact .steal n
  | fire n => exact .expire n
  | spawn => exact .register
  | spawnChild name cap => exact .register
  | unregisterName name => exact .unregisterName name
  | _ => exact .other

/-- What a step of thread `t` does to the tables, and where the frames after it come from: the
frame on top acts, or the thread had none. -/
inductive Stepped (s : State) (t : ℕ) (i : Input) (s' : State) : Prop
  | acts (f rest w) (hs : s.threads t = f :: rest) (hi : (f.next i).write = w) (hw : Writes f w)
      (hσ : s.shared.Written w s'.shared)
      (hnew : ∀ g ∈ s'.frames, g ∈ s.others t ∨ Leads s.shared f g)
  | starts (w) (hs : s.threads t = []) (hw : StartWrites w)
      (hσ : s.shared.Written w s'.shared)
      (hnew : ∀ g ∈ s'.frames, g ∈ s.others t ∨ Starts s.shared g)

/-- **What a step can do.** -/
theorem step_cases (s : State) (t : ℕ) (i : Input) : Stepped s t i (step s (t, i)) := by
  have hσ := exec_written s.shared (s.next t i).1
  rcases next_cases s t i with ⟨f, rest, hs, hn⟩ | ⟨hs, ⟨op, -, hn⟩ | hn⟩
  · rw [hn] at hσ
    refine .acts f rest _ hs rfl (f.next_writes i) (by rw [step_shared, hn]; exact hσ) ?_
    intro g hg
    rcases frames_of_step hg with hg | hg
    · exact .inl hg
    · rw [hn] at hg
      exact .inr (leads hg)
  · rw [hn] at hσ
    refine .starts _ hs op.start_write (by rw [step_shared, hn]; exact hσ) ?_
    intro g hg
    rcases frames_of_step hg with hg | hg
    · exact .inl hg
    · rw [hn] at hg
      exact .inr (Machine.starts hg)
  · rw [hn] at hσ
    refine .starts _ hs .other (by rw [step_shared, hn]; exact hσ) ?_
    intro g hg
    rcases frames_of_step hg with hg | hg
    · exact .inl hg
    · rw [hn] at hg
      cases hg

theorem Shared.Written.mailbox {σ σ' : Shared} {w : Write} (h : σ.Written w σ') (id : FlowId) :
    σ'.mailboxes id = σ.mailboxes id ∨
      ∃ op, w = .mail id op ∧ σ'.mailboxes id = (σ.mailboxes id).after op := by
  rw [h.mailboxes]
  cases w with
  | mail j op =>
    by_cases hj : id = j
    · subst hj
      exact .inr ⟨op, rfl, Function.update_self ..⟩
    · exact .inl (Function.update_of_ne hj ..)
  | _ => exact .inl rfl

/-- The frame on top operates on a mailbox. -/
theorem step_mail {s : State} {t : ℕ} {i : Input} {f : Frame} {rest : List Frame} {id : FlowId}
    {op : Mailbox.Op Hop} {k : op.Result → List Frame} (hs : s.threads t = f :: rest)
    (hn : f.next i = .mail id op k) :
    (step s (t, i)).shared.mailboxes id = (s.shared.mailboxes id).after op := by
  rw [step_shared, next_of_cons i hs, hn]
  exact Function.update_self ..

/-- A mailbox changes only by an operation of the frame on top. -/
theorem step_mailbox (s : State) (t : ℕ) (i : Input) (id : FlowId) :
    (step s (t, i)).shared.mailboxes id = s.shared.mailboxes id ∨
      ∃ f rest op, s.threads t = f :: rest ∧ Writes f (.mail id op) ∧
        (step s (t, i)).shared.mailboxes id = (s.shared.mailboxes id).after op := by
  cases step_cases s t i with
  | acts f rest w hs _ hw hσ _ =>
    rcases hσ.mailbox id with h | ⟨op, rfl, h⟩
    · exact .inl h
    · exact .inr ⟨f, rest, op, hs, hw, h⟩
  | starts w hs hw hσ _ =>
    rcases hσ.mailbox id with h | ⟨op, rfl, h⟩
    · exact .inl h
    · cases hw

/-! ## Invariants of frames -/

/-- What new frames inherit from the frames that lead to them holds of all frames. -/
theorem frames_step {P : Frame → Prop} (hstart : ∀ σ g, Starts σ g → P g)
    (hlead : ∀ σ f g, Leads σ f g → P f → P g) {s : State} (h : ∀ f ∈ s.frames, P f)
    (ti : ℕ × Input) : ∀ f ∈ (step s ti).frames, P f := by
  intro g hg
  cases step_cases s ti.1 ti.2 with
  | acts f rest w hs _ hw hσ hnew =>
    rcases hnew g hg with hg | hl
    · exact h g (mem_frames_of_others hg)
    · exact hlead _ f g hl (h f (mem_frames_of_cons hs))
  | starts w hs hw hσ hnew =>
    rcases hnew g hg with hg | hst
    · exact h g (mem_frames_of_others hg)
    · exact hstart _ g hst

/-! ## Settled states -/

/-- A worker runs the code of a flow, or is about to. -/
def Frame.Running : Frame → Prop
  | .run _ => True
  | .drive _ => True
  | _ => False

instance (f : Frame) : Decidable f.Running := by
  delta Frame.Running
  induction f using Frame.casesOn <;> dsimp only <;> infer_instance

/-- No operation is in progress: a thread that has work runs the code of a flow. -/
def Settled (s : State) : Prop := ∀ f ∈ s.frames, f.Running

/-- A thread that never steps has no work. -/
theorem threads_of_unscheduled (config : MailboxConfig) {sched : List (ℕ × Input)} {t : ℕ}
    (ht : t ∉ sched.map Prod.fst) : (run config sched).threads t = [] := by
  induction sched using List.reverseRecOn with
  | nil => rfl
  | append_singleton sched ti ih =>
    rw [List.map_append, List.mem_append, not_or] at ht
    have hne : t ≠ ti.1 := fun h => ht.2 (h ▸ List.mem_singleton_self _)
    rw [run, Schedule.run_concat]
    exact (step_threads_of_ne _ ti.2 hne).trans (ih ht.1)

theorem settled_of_scheduled {config : MailboxConfig} {sched : List (ℕ × Input)}
    (h : ∀ t ∈ sched.map Prod.fst, ∀ f ∈ (run config sched).threads t, f.Running) :
    Settled (run config sched) := by
  rintro f ⟨t, hf⟩
  by_cases ht : t ∈ sched.map Prod.fst
  · exact h t ht f hf
  · rw [threads_of_unscheduled config ht] at hf
    cases hf

end Machine

end Byteflow
