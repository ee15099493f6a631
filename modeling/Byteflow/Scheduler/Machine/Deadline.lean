import Byteflow.Scheduler.Mailbox.Epoch
import Byteflow.Scheduler.Machine.Ask
import Byteflow.Scheduler.Machine.Sound

/-!
# Deadlines of timed waits

`park_on_mailbox` and `park_ask` arm the deadline of a wait after the flow is parked, with the
epoch of the park. An `AskTimeout` whose request is refused waits in `WAITING_SEND` first, and no
deadline is armed until the request is admitted. In a run in which no such request is refused
(`RefusesUntimed`), every flow in a timed wait has an entry in the timer heap that ends the wait
(`timed_wait_has_deadline`).
-/

namespace Byteflow

/-- The deadline of a refused request. -/
def PendingSend.timeout : PendingSend → Option ℕ
  | .fireAndForget => none
  | .ask _ _ _ timeout => timeout

/-- The deadline that a flow in `WAITING_SEND` gave. -/
def Flow.sendTimeout (flow : Flow Hop) : Option ℕ := flow.pendingSend.bind PendingSend.timeout

namespace Machine

variable {s : State}

/-! ## Timed waits -/

/-- The receiver that the step parks, with the deadline that it gave. -/
def parksUntil (s : State) (ti : ℕ × Input) : List (FlowId × Option ℕ) :=
  match s.threads ti.1 with
  | .park flow _ timeout :: _ => if (parks s ti).isSome then [(flow.id, timeout)] else []
  | .ask .park flow wait :: _ => if (parks s ti).isSome then [(flow.id, wait.timeout)] else []
  | _ => []

/-- The deadline that a flow gave when it last parked. -/
def lastTimeout (parked : List (FlowId × Option ℕ)) (id : FlowId) : Option ℕ :=
  (parked.reverse.find? fun p => p.1 = id).bind Prod.snd

theorem lastTimeout_concat (parked : List (FlowId × Option ℕ)) (id id' : FlowId)
    (timeout : Option ℕ) : lastTimeout (parked ++ [(id', timeout)]) id =
      if id' = id then timeout else lastTimeout parked id := by
  unfold lastTimeout
  rw [List.reverse_append, List.reverse_singleton, List.singleton_append, List.find?_cons]
  by_cases hid : id' = id <;> simp [hid]

/-- The flow is blocked in a `ReceiveTimeout` or an `AskTimeout`: it is parked with a deadline, or
the request of the `AskTimeout` was refused. -/
def TimedWait (s : State) (parked : List (FlowId × Option ℕ)) (flow : Flow Hop) : Prop :=
  (∃ id, (s.shared.mailboxes id).parked = some flow ∧ (lastTimeout parked flow.id).isSome) ∨
    ∃ id, ∃ w ∈ (s.shared.mailboxes id).waitingSenders, w.flow = flow ∧ flow.sendTimeout.isSome

/-- An entry of the timer heap ends the wait of the flow: whichever thread fires it gets hold of the
flow. -/
def HasDeadline (s : State) (flow : Flow Hop) : Prop :=
  ∃ n epoch, s.shared.timers[n]? = some (.wakeReceiver flow.id epoch) ∧
    ∀ t, s.threads t = [] →
      (Schedule.run step s [(t, .start (.fire n)), (t, .pick 0)]).threads t = [.forget flow]

/-- No request of an `AskTimeout` is put among the waiting senders. -/
def RefusesUntimed (s : State) (ti : ℕ × Input) : Prop :=
  match s.threads ti.1 with
  | .send .park flow out :: _ =>
    (s.shared.mailboxes out.target).closed = true ∨ flow.sendTimeout = none
  | _ => True

instance (s : State) (ti : ℕ × Input) : Decidable (RefusesUntimed s ti) := by
  delta RefusesUntimed
  generalize s.threads ti.1 = frames
  induction frames using List.casesOn with
  | nil => exact inferInstanceAs (Decidable True)
  | cons f rest =>
    induction f using Frame.casesOn with
    | send stage flow out =>
      induction stage using SendStage.casesOn <;> dsimp only <;> infer_instance
    | _ =>
      dsimp only
      infer_instance

/-! ## The invariant -/

/-- The frame is between a park and its deadline, or between a deadline and its park. -/
def Frame.Arms (id : FlowId) (epoch : WaitEpoch) : Frame → Prop
  | .arm pid e => pid = id ∧ e = epoch
  | .askRecheck asker wait e => asker = id ∧ e = epoch ∧ wait.timeout.isSome
  | .askTake asker _ => asker = id
  | .fire pid e => pid = id ∧ e = epoch
  | _ => False

/-- Every timed wait has its deadline, and no timed request waits. -/
structure Armed (s : State) (parked : List (FlowId × Option ℕ)) : Prop where
  sound : Sound s
  armed : ∀ id flow, (s.shared.mailboxes id).parked = some flow →
    (lastTimeout parked id).isSome →
      .wakeReceiver id ⟨(s.shared.mailboxes id).waitEpoch⟩ ∈ s.shared.timers ∨
        ∃ f ∈ s.frames, f.Arms id ⟨(s.shared.mailboxes id).waitEpoch⟩
  untimed : ∀ id, ∀ w ∈ (s.shared.mailboxes id).waitingSenders, w.flow.sendTimeout = none

theorem armed_init (config : MailboxConfig) : Armed (State.init config) [] where
  sound := sound_init config
  armed := nofun
  untimed := fun _ _ hw => by cases hw

/-- A receiver that stays parked stays in the same wait. -/
theorem waitEpoch_step (h : Sound s) {id : FlowId} {flow : Flow Hop}
    (hp : (s.shared.mailboxes id).parked = some flow) (t : ℕ) (i : Input) :
    ((step s (t, i)).shared.mailboxes id).waitEpoch = (s.shared.mailboxes id).waitEpoch := by
  rcases step_mailbox s t i id with he | ⟨f, rest, op, hs, hw, he⟩
  · rw [he]
  rw [he]
  cases hb : (s.shared.mailboxes id).began op with
  | none => exact (Mailbox.after_of_began_none hb).1
  | some epoch =>
    cases op with
    | parkFilter flow' filter =>
      -- the frame that parks holds the flow
      obtain ⟨rfl, hf⟩ := hw.of_parkFilter
      have hheld : flow'.id ∈ f.boxes := by
        rcases hf with ⟨timeout, rfl⟩ | ⟨wait, rfl, -⟩ <;> exact Multiset.mem_singleton_self _
      rw [h.owned.parked_none h.homed (mem_frames_of_cons hs) hheld] at hp
      cases hp
    | _ => cases hb

/-- The trace of parks goes on only with a flow in the hands of the frame that acts. -/
theorem lastTimeout_step (h : Sound s) {id : FlowId} {flow : Flow Hop}
    (hp : (s.shared.mailboxes id).parked = some flow) (parked : List (FlowId × Option ℕ))
    (ti : ℕ × Input) : lastTimeout (parked ++ parksUntil s ti) id = lastTimeout parked id := by
  have hother : ∀ f rest timeout, s.threads ti.1 = f :: rest → ∀ flow' : Flow Hop,
      flow'.id ∈ f.boxes → lastTimeout (parked ++ [(flow'.id, timeout)]) id =
        lastTimeout parked id := by
    intro f rest timeout hs flow' hheld
    rw [lastTimeout_concat, if_neg]
    rintro rfl
    rw [h.owned.parked_none h.homed (mem_frames_of_cons hs) hheld] at hp
    cases hp
  unfold parksUntil
  split
  · rename_i hs
    split_ifs
    · exact hother _ _ _ hs _ (Multiset.mem_singleton_self _)
    · rw [List.append_nil]
  · rename_i hs
    split_ifs
    · exact hother _ _ _ hs _ (Multiset.mem_singleton_self _)
    · rw [List.append_nil]
  · rw [List.append_nil]

/-- The deadline of a wait is on its way until it is armed or the wait is over. -/
theorem arms_step {id : FlowId} {epoch : WaitEpoch} {f : Frame} {rest : List Frame} {t : ℕ}
    {i : Input} (harms : f.Arms id epoch) (hs : s.threads t = f :: rest)
    (hepoch : (s.shared.mailboxes id).waitEpoch = epoch.get) :
    .wakeReceiver id epoch ∈ (step s (t, i)).shared.timers ∨
      (∃ f ∈ (step s (t, i)).frames, f.Arms id epoch) ∨
      ((step s (t, i)).shared.mailboxes id).parked = none := by
  cases f with
  | arm pid e =>
    obtain ⟨rfl, rfl⟩ := harms
    refine .inl ?_
    rw [step_shared, next_of_cons i hs]
    exact List.mem_cons_self
  | askRecheck asker wait e =>
    obtain ⟨rfl, rfl, htimeout⟩ := harms
    refine .inr (.inl ?_)
    cases hlive : s.shared.directory wait.target with
    | true =>
      refine ⟨.arm asker e, mem_frames_of_next hs ?_, rfl, rfl⟩
      simp only [Frame.next, Shared.exec, hlive, if_true, htimeout, List.mem_singleton]
    | false =>
      refine ⟨.askTake asker wait, mem_frames_of_next hs ?_, rfl⟩
      simp only [Frame.next, Shared.exec, hlive, if_false, Bool.false_eq_true, List.mem_singleton]
  | askTake asker wait =>
    have hid : asker = id := harms
    subst hid
    refine .inr (.inr ?_)
    rw [step_mail hs rfl]
    rfl
  | fire pid e =>
    obtain ⟨rfl, rfl⟩ := harms
    refine .inr (.inr ?_)
    rw [step_mail hs rfl]
    rcases (s.shared.mailboxes pid).takeParkedAt_cases e with ⟨flow, -, -, he⟩ | ⟨hnone, he⟩
    · simp only [Mailbox.after, he]
    · simp only [Mailbox.after, he]
      exact hnone hepoch
  | _ => exact harms.elim

/-- An entry of the timer heap is there until it is fired. -/
theorem timer_step {id : FlowId} {epoch : WaitEpoch}
    (h : .wakeReceiver id epoch ∈ s.shared.timers) (t : ℕ) (i : Input) :
    .wakeReceiver id epoch ∈ (step s (t, i)).shared.timers ∨
      ∃ f ∈ (step s (t, i)).frames, f.Arms id epoch := by
  rcases next_cases s t i with ⟨f, rest, hs, hn⟩ | ⟨hs, ⟨op, -, hn⟩ | hn⟩
  · refine .inl ?_
    rw [step_shared, hn, (exec_written _ _).timers]
    have hw := f.next_writes i
    generalize (f.next i).write = w at hw
    cases hw <;> first | exact h | exact List.mem_cons_of_mem _ h
  · cases op with
    | fire n =>
      cases hentry : s.shared.timers[n]? with
      | none =>
        refine .inl ?_
        rw [step_shared, hn]
        simpa only [Operation.start, Shared.exec, hentry] using h
      | some entry =>
        rcases mem_cons_eraseIdx hentry h with rfl | hmem
        · refine .inr ⟨.fire id epoch, ⟨t, ?_⟩, rfl, rfl⟩
          rw [step_threads_self, hn]
          simp only [Operation.start, Shared.exec, hentry, List.append_nil, List.mem_singleton]
        · refine .inl ?_
          rw [step_shared, hn]
          simpa only [Operation.start, Shared.exec, hentry] using hmem
    | _ =>
      refine .inl ?_
      rw [step_shared, hn, (exec_written _ _).timers]
      exact h
  · refine .inl ?_
    rw [step_shared, hn]
    exact h

/-- A receiver that the step parks with a deadline is about to get it. -/
theorem arms_of_parks {parked : List (FlowId × Option ℕ)} {t : ℕ} {i : Input} {flow : Flow Hop}
    {filter : WaitFilter} (hparks : parks s (t, i) = some (flow, filter))
    (htimed : (lastTimeout (parked ++ parksUntil s (t, i)) flow.id).isSome) :
    ∃ f ∈ (step s (t, i)).frames,
      f.Arms flow.id ⟨((step s (t, i)).shared.mailboxes flow.id).waitEpoch⟩ := by
  have hsome : (parks s (t, i)).isSome := by
    rw [hparks]
    rfl
  obtain ⟨hnone, f, rest, hs, ⟨timeout, rfl⟩ | ⟨wait, rfl, rfl⟩⟩ := parks_cases hparks
  all_goals
    unfold parksUntil at htimed
    rw [hs] at htimed
    simp only [hsome, if_true, lastTimeout_concat] at htimed
  · rcases (s.shared.mailboxes flow.id).parkFilter_cases flow filter with ⟨v, hv, -⟩ | ⟨-, he⟩
    · rw [hnone] at hv
      cases hv
    · refine ⟨.arm flow.id ⟨(s.shared.mailboxes flow.id).waitEpoch + 1⟩,
        mem_frames_of_next hs ?_, rfl, ?_⟩
      · simp only [Frame.next, Shared.exec, Mailbox.result, he, htimed, if_true,
          List.mem_singleton]
      · rw [step_mail hs rfl]
        simp only [Mailbox.after, he]
  · rcases (s.shared.mailboxes flow.id).parkFilter_cases flow wait.filter with
      ⟨v, hv, -⟩ | ⟨-, he⟩
    · rw [hnone] at hv
      cases hv
    · refine ⟨.askRecheck flow.id wait ⟨(s.shared.mailboxes flow.id).waitEpoch + 1⟩,
        mem_frames_of_next hs ?_, rfl, ?_, htimed⟩
      · simp only [Frame.next, AskStage.next, Shared.exec, Mailbox.result, he, List.mem_singleton]
      · rw [step_mail hs rfl]
        simp only [Mailbox.after, he]

/-- **A step keeps the deadlines**, if it refuses no timed request. -/
theorem Armed.step {parked : List (FlowId × Option ℕ)} (h : Armed s parked) (ti : ℕ × Input)
    (hguard : RefusesUntimed s ti) :
    Armed (Machine.step s ti) (parked ++ parksUntil s ti) := by
  obtain ⟨t, i⟩ := ti
  refine ⟨h.sound.step _, fun id flow hp htimed => ?_, fun id w hw => ?_⟩
  · rcases parked_step hp with ⟨hp', -⟩ | ⟨rfl, hparks⟩
    · rw [lastTimeout_step h.sound hp'] at htimed
      rw [waitEpoch_step h.sound hp']
      rcases h.armed id flow hp' htimed with hentry | ⟨f, hf, harms⟩
      · exact timer_step hentry t i
      · rcases mem_frames_step hf t i with ⟨rest, hs⟩ | hf
        · rcases arms_step harms hs rfl with hentry | hf | hnone
          · exact .inl hentry
          · exact .inr hf
          · rw [hnone] at hp
            cases hp
        · exact .inr ⟨f, hf, harms⟩
    · exact .inr (arms_of_parks hparks htimed)
  · rcases step_mailbox s t i id with he | ⟨f, rest, op, hs, hop, he⟩
    · exact h.untimed id w (he ▸ hw)
    · rcases Mailbox.mem_waitingSenders_after (he ▸ hw) with hw' | ⟨rfl, hopen⟩
      · exact h.untimed id w hw'
      · obtain ⟨out, rfl, rfl, -⟩ := hop.of_parkSender
        unfold RefusesUntimed at hguard
        rw [hs] at hguard
        rcases hguard with hclosed | htimeout
        · rw [hopen] at hclosed
          cases hclosed
        · exact htimeout

/-- The frame is about to arm a deadline, or fires one. -/
def Frame.Arming : Frame → Prop
  | .arm _ _ => True
  | .askRecheck _ _ _ => True
  | .askTake _ _ => True
  | .fire _ _ => True
  | _ => False

theorem not_arming_of_running {f : Frame} (h : f.Running) : ¬f.Arming := by
  cases f <;> first | exact fun h => h | exact h.elim

/-- Firing the entry of the current wait of a parked flow gets hold of the flow. -/
theorem hasDeadline_of_entry {id : FlowId} {flow : Flow Hop}
    (hp : (s.shared.mailboxes id).parked = some flow) (hid : flow.id = id)
    (hentry : .wakeReceiver id ⟨(s.shared.mailboxes id).waitEpoch⟩ ∈ s.shared.timers) :
    HasDeadline s flow := by
  obtain ⟨n, hn, hget⟩ := List.getElem_of_mem hentry
  have hn : s.shared.timers[n]? = some _ := List.getElem?_eq_some_iff.mpr ⟨hn, hget⟩
  refine ⟨n, _, hid ▸ hn, fun t hidle => ?_⟩
  rw [run_start hidle]
  simp only [Operation.start, Shared.exec, hn]
  rw [run_top]
  simp only [Frame.next, Shared.exec, Mailbox.result, Mailbox.takeParkedAt, ne_eq, not_true,
    if_false, hp, List.append_nil]
  exact Function.update_self ..

/-- **When a timed wait has a deadline.** In a run in which no request of an `AskTimeout` waits in
`WAITING_SEND`, whenever no deadline is being armed or fired, every flow in a timed wait has an
entry in the timer heap that ends the wait. -/
theorem timed_wait_has_deadline (config : MailboxConfig) (sched : List (ℕ × Input))
    (hguard : Schedule.Guarded step RefusesUntimed (State.init config) sched)
    (hquiet : ∀ f ∈ (run config sched).frames, ¬f.Arming) (flow : Flow Hop)
    (hwait : TimedWait (run config sched)
      (Schedule.trace step parksUntil (State.init config) sched) flow) :
    HasDeadline (run config sched) flow := by
  have hinv : Armed (run config sched)
      (Schedule.trace step parksUntil (State.init config) sched) :=
    Schedule.Guarded.trace_invariant (fun s ti es hti h => h.step ti hti) (armed_init config)
      hguard
  rcases hwait with ⟨id, hp, htimed⟩ | ⟨id, w, hw, rfl, htimed⟩
  · have hid := hinv.sound.homed id flow hp
    rcases hinv.armed id flow hp (hid ▸ htimed) with hentry | ⟨f, hf, harms⟩
    · exact hasDeadline_of_entry hp hid hentry
    · refine absurd ?_ (hquiet f hf)
      cases f <;> trivial
  · rw [hinv.untimed id w hw] at htimed
    cases htimed

/-- A flow parks in a `ReceiveTimeout`. -/
def receiveTimeout : List (ℕ × Input) :=
  [(0, .start .spawn), (0, .pick 0), (0, .start (.work 0)), (0, .pick 0),
    (0, .vm (.receive 0 (some 5) none none))] ++ steps 0 3

theorem timed_wait_has_deadline_receive :
    HasDeadline (run .default receiveTimeout) { Flow.new 1 with lastReceiveDest := some 0 } :=
  have hsettled : Settled (run .default receiveTimeout) := settled_of_scheduled (by decide +kernel)
  timed_wait_has_deadline .default receiveTimeout (by decide +kernel)
    (fun f hf => not_arming_of_running (hsettled f hf)) _
    (.inl ⟨1, by decide +kernel, by decide +kernel⟩)

/-- Flow 2 fills the inbox of flow 1, which it then asks with a deadline. -/
def askTimeoutFull : List (ℕ × Input) :=
  (sendTo .unit).take 9 ++
    [(0, .vm (.ask 0 1 (.new 0 7 0 .unit) CapId.none (some 5)))] ++ steps 0 5

/-- The request is refused and the timer heap is empty. -/
theorem timed_wait_without_deadline :
    ¬∀ (config : MailboxConfig) (sched : List (ℕ × Input)), Settled (run config sched) →
      ∀ flow, TimedWait (run config sched)
          (Schedule.trace step parksUntil (State.init config) sched) flow →
        HasDeadline (run config sched) flow := by
  intro hall
  have hsettled : Settled (run smallest askTimeoutFull) := settled_of_scheduled (by decide +kernel)
  obtain ⟨n, epoch, hentry, -⟩ := hall smallest askTimeoutFull hsettled
    { Flow.new 2 with lastReceiveDest := some 0, pendingSend := some (.ask 0 7 1 (some 5)) }
    (.inr ⟨1, ⟨_, ⟨1, (Message.new 2 7 0 .unit).toValue⟩⟩, by decide +kernel, rfl, rfl⟩)
  have hnil : (run smallest askTimeoutFull).shared.timers = [] := by decide +kernel
  rw [hnil] at hentry
  cases hentry

end Machine

end Byteflow
