import Byteflow.Scheduler.Machine.Parking

/-!
# Lost kills

`request_kill` sets the signal of a flow, looks for the flow in its mailbox and then in the list of
waiting senders that `waiting_send_at` names. A worker reads the signal before it runs the flow,
and not again when it parks it. In a run in which a flow parks only without a signal, or where a
kill in progress will still look (`Heeds`), no flow sleeps on a signal once its kills have returned
(`no_lost_kill`).
-/

namespace Byteflow

namespace Machine

variable {s : State}

/-! ## Kills in progress -/

/-- A kill at this stage will look into the mailbox of the flow. -/
def KillStage.Finds : KillStage → Prop
  | .lookup => True
  | .set => True
  | .takeParked => True
  | _ => False

/-- A kill at this stage will look into the waiting senders of the target. -/
def KillStage.FindsAt (target : FlowId) : KillStage → Prop
  | .lookup => True
  | .set => True
  | .takeParked => True
  | .sendAtGet => True
  | .targetLookup t => t = target
  | .takeSender t => t = target
  | .sendAtRemove _ => False

/-- A kill of the flow will still find it parked. -/
def KillFinds (s : State) (a : FlowId) : Prop :=
  ∃ stage reason next, .kill stage a reason next ∈ s.frames ∧ stage.Finds

/-- A kill of the flow will still find it among the waiting senders of the target. -/
def KillFindsAt (s : State) (target a : FlowId) : Prop :=
  ∃ stage reason next, .kill stage a reason next ∈ s.frames ∧ stage.FindsAt target

/-- The sender that the step parks, with its target. -/
def parksSender (s : State) (ti : ℕ × Input) : Option (FlowId × FlowId) :=
  match s.threads ti.1 with
  | .send .park flow out :: _ =>
    if (s.shared.mailboxes out.target).closed then none else some (flow.id, out.target)
  | _ => none

/-- A flow parks only without a signal. -/
def ParksUnmarked (s : State) (ti : ℕ × Input) : Prop :=
  (∀ p ∈ parks s ti, s.shared.killSignals p.1.id = none) ∧
    ∀ p ∈ parksSender s ti, s.shared.killSignals p.1 = none

instance (s : State) (ti : ℕ × Input) : Decidable (ParksUnmarked s ti) :=
  inferInstanceAs (Decidable (_ ∧ _))

/-- A flow parks only without a signal, or where a kill in progress will still look. -/
def Heeds (s : State) (ti : ℕ × Input) : Prop :=
  (∀ p ∈ parks s ti, s.shared.killSignals p.1.id = none ∨ KillFinds s p.1.id) ∧
    ∀ p ∈ parksSender s ti, s.shared.killSignals p.1 = none ∨ KillFindsAt s p.2 p.1

theorem ParksUnmarked.heeds {s : State} {ti : ℕ × Input} (h : ParksUnmarked s ti) : Heeds s ti :=
  ⟨fun p hp => .inl (h.1 p hp), fun p hp => .inl (h.2 p hp)⟩

/-! ## The invariant -/

/-- Every sleeping flow with a signal will be found by a kill in progress. -/
structure Heeded (s : State) : Prop where
  owned : Owned s
  homed : Homed s
  registered : Registered s
  closed : ClosedBefore s
  coherent : ∀ f ∈ s.frames, f.Coherent
  indexed : SendIndexed s
  parked : ∀ id flow, (s.shared.mailboxes id).parked = some flow →
    s.shared.killSignals flow.id ≠ none → KillFinds s flow.id
  waiting : ∀ id, ∀ w ∈ (s.shared.mailboxes id).waitingSenders,
    s.shared.killSignals w.flow.id ≠ none → KillFindsAt s id w.flow.id

theorem heeded_init (config : MailboxConfig) : Heeded (State.init config) where
  owned := owned_init config
  homed := homed_init config
  registered := registered_init config
  closed := closedBefore_init config
  coherent := fun _ hf => by obtain ⟨t, hf⟩ := hf; cases hf
  indexed := sendIndexed_init config
  parked := nofun
  waiting := fun _ _ hw => by cases hw

/-- A signal that is there after a step was there before, or a kill has just set it. -/
theorem killSignals_step {t : ℕ} {i : Input} {a : FlowId}
    (h : (step s (t, i)).shared.killSignals a ≠ none) :
    s.shared.killSignals a ≠ none ∨
      ∃ reason next, .kill .takeParked a reason next ∈ (step s (t, i)).frames := by
  cases step_cases s t i with
  | acts f rest w hs hi hw hσ hnew =>
    rw [hσ.killSignals] at h
    have htake : ∀ b, Function.update s.shared.killSignals b none a ≠ none →
        s.shared.killSignals a ≠ none := by
      intro b hb
      by_cases hab : a = b
      · rw [hab, Function.update_self] at hb
        exact absurd rfl hb
      · rwa [Function.update_of_ne hab] at hb
    cases hw with
    | killSet id reason next =>
      by_cases hid : a = id
      · subst hid
        exact .inr ⟨reason, next, mem_frames_of_next hs (List.mem_singleton_self _)⟩
      · rw [Write.killSignals, Function.update_of_ne hid] at h
        exact .inl h
    | driveTake flow => exact .inl (htake _ h)
    | finTake cur work hne => exact .inl (htake _ h)
    | _ => exact .inl h
  | starts w hs hw hσ hnew =>
    rw [hσ.killSignals] at h
    cases hw <;> exact .inl h

namespace Heeded

/-- A kill that will look into the mailbox of a parked flow still will, until the flow is gone. -/
theorem killFinds_step {t : ℕ} {i : Input} {a : FlowId} (hk : KillFinds s a)
    (hreg : s.shared.directory a = true) :
    KillFinds (Machine.step s (t, i)) a ∨
      ((Machine.step s (t, i)).shared.mailboxes a).parked = none := by
  obtain ⟨stage, reason, next, hf, hstage⟩ := hk
  rcases mem_frames_step hf t i with ⟨rest, hs⟩ | hf
  · cases stage with
    | lookup =>
      refine .inl ⟨.set, reason, next, mem_frames_of_next hs ?_, trivial⟩
      simp only [Frame.next, KillStage.next, Shared.exec, hreg, if_true, List.mem_singleton]
    | set =>
      exact .inl ⟨.takeParked, reason, next, mem_frames_of_next hs (List.mem_singleton_self _),
        trivial⟩
    | takeParked =>
      refine .inr ?_
      rw [step_mail hs rfl]
      rfl
    | _ => exact hstage.elim
  · exact .inl ⟨stage, reason, next, hf, hstage⟩

/-- A kill that will look for a waiting sender still will, until the sender is gone. -/
theorem killFindsAt_step (h : Heeded s) {t : ℕ} {i : Input} {id : FlowId}
    {w : WaitingSender Hop} (hw : w ∈ (s.shared.mailboxes id).waitingSenders)
    (hk : KillFindsAt s id w.flow.id) :
    KillFindsAt (Machine.step s (t, i)) id w.flow.id ∨
      w ∉ ((Machine.step s (t, i)).shared.mailboxes id).waitingSenders := by
  obtain ⟨stage, reason, next, hf, hstage⟩ := hk
  obtain ⟨hat, hsp⟩ := h.indexed.waiting id w hw
  have hreg := h.registered.mailboxes id _ (Mailbox.mem_boxes_of_waiting hw)
  rcases mem_frames_step hf t i with ⟨rest, hs⟩ | hf
  · cases stage with
    | lookup =>
      refine .inl ⟨.set, reason, next, mem_frames_of_next hs ?_, trivial⟩
      simp only [Frame.next, KillStage.next, Shared.exec, hreg, if_true, List.mem_singleton]
    | set =>
      exact .inl ⟨.takeParked, reason, next, mem_frames_of_next hs (List.mem_singleton_self _),
        trivial⟩
    | takeParked =>
      -- the flow is not in its mailbox, so the kill looks on
      have hnone : (s.shared.mailboxes w.flow.id).parked = none :=
        Option.eq_none_iff_forall_ne_some.mpr fun flow hp =>
          h.owned.not_parked_of_waiting hw (h.homed _ flow hp) hp
      refine .inl ⟨.sendAtGet, reason, next, mem_frames_of_next hs ?_, trivial⟩
      simp only [Frame.next, KillStage.next, Shared.exec, Mailbox.result, Mailbox.takeParked, hnone,
        List.mem_singleton]
    | sendAtGet =>
      refine .inl ⟨.targetLookup id, reason, next, mem_frames_of_next hs ?_, rfl⟩
      simp only [Frame.next, KillStage.next, Shared.exec, hat, List.mem_singleton]
    | targetLookup target =>
      have hid : target = id := hstage
      have hlive := h.closed.directory_of_waiting hsp hw
      refine .inl ⟨.takeSender id, reason, next, mem_frames_of_next hs ?_, rfl⟩
      simp only [Frame.next, KillStage.next, Shared.exec, hid, hlive, if_true, List.mem_singleton]
    | takeSender target =>
      -- the sender is in the hands of the kill
      have hid : target = id := hstage
      subst hid
      refine .inr fun hw' => ?_
      obtain ⟨sender, hsender⟩ : ∃ sender,
          ((s.shared.mailboxes target).takeWaitingSender w.flow.id).2 = some sender := by
        simp only [Mailbox.takeWaitingSender, FirstMatch.extract_eq]
        cases hfind : (s.shared.mailboxes target).waitingSenders.find?
            (fun w' => w'.flow.id == w.flow.id) with
        | none => exact absurd (List.find?_eq_none.mp hfind w hw) (by simp)
        | some w' => exact ⟨w'.flow, rfl⟩
      obtain ⟨-, -, -, hid⟩ := Mailbox.waiting_of_takeWaitingSender hsender
      have hmem : .kill (.sendAtRemove sender) w.flow.id reason next ∈
          (Machine.step s (t, i)).frames := by
        refine mem_frames_of_next hs ?_
        simp only [Frame.next, KillStage.next, Shared.exec, Mailbox.result, hsender,
          List.mem_singleton]
      refine (h.owned.step (t, i)).not_waiting hmem ?_ target hw'
      exact Multiset.mem_add.mpr (.inl (hid ▸ Multiset.mem_singleton_self _))
    | sendAtRemove sender => exact hstage.elim
  · exact .inl ⟨stage, reason, next, hf, hstage⟩

/-- **A step loses no kill**, if it heeds the signals. -/
theorem step (h : Heeded s) (ti : ℕ × Input) (hheeds : Heeds s ti) :
    Heeded (Machine.step s ti) := by
  obtain ⟨t, i⟩ := ti
  refine ⟨h.owned.step _, h.homed.step _, h.registered.step h.owned _, h.closed.step h.owned _,
    coherent_step h.coherent _, h.indexed.step h.owned h.closed h.coherent _,
    fun id flow hp hsig => ?_, fun id w hw hsig => ?_⟩
  · rcases killSignals_step hsig with hsig | ⟨reason, next, hf⟩
    · have hid : flow.id = id := (h.homed.step (t, i)) id flow hp
      have hnext : s.shared.directory flow.id = true → KillFinds s flow.id →
          KillFinds (Machine.step s (t, i)) flow.id := by
        intro hreg hk
        refine (killFinds_step hk hreg).resolve_right fun hnone => ?_
        rw [hid, hp] at hnone
        cases hnone
      rcases parked_step hp with ⟨hp, -⟩ | ⟨-, hparks⟩
      · exact hnext (h.registered.mailboxes id _ (Mailbox.mem_boxes_of_parked hp))
          (h.parked id flow hp hsig)
      · obtain ⟨-, f, rest, hs, hf⟩ := parks_cases hparks
        refine hnext (h.registered.frames f (mem_frames_of_cons hs) _ ?_)
          ((hheeds.1 _ hparks).resolve_left hsig)
        rcases hf with ⟨timeout, rfl⟩ | ⟨wait, rfl, -⟩ <;> exact Multiset.mem_singleton_self _
    · exact ⟨.takeParked, reason, next, hf, trivial⟩
  · rcases killSignals_step hsig with hsig | ⟨reason, next, hf⟩
    · have hbefore : ∀ w ∈ (s.shared.mailboxes id).waitingSenders,
          w ∈ ((Machine.step s (t, i)).shared.mailboxes id).waitingSenders →
          s.shared.killSignals w.flow.id ≠ none →
          KillFindsAt (Machine.step s (t, i)) id w.flow.id := by
        intro w hw hw' hsig
        exact (h.killFindsAt_step hw (h.waiting id w hw hsig)).resolve_right fun hno => hno hw'
      rcases step_mailbox s t i id with he | ⟨f, rest, op, hs, hop, he⟩
      · exact hbefore w (he ▸ hw) hw hsig
      · rcases Mailbox.mem_waitingSenders_after (he ▸ hw) with hw' | ⟨rfl, hopen⟩
        · exact hbefore w hw' hw hsig
        · -- the sender is parked by this step, which heeds its signal
          obtain ⟨out, rfl, rfl, -⟩ := hop.of_parkSender
          have hparks : parksSender s (t, i) = some (w.flow.id, out.target) := by
            unfold parksSender
            rw [hs]
            simp only [hopen, if_false, Bool.false_eq_true]
          obtain ⟨stage, reason, next, hf, hstage⟩ := (hheeds.2 _ hparks).resolve_left hsig
          rcases mem_frames_step hf t i with ⟨rest', hs'⟩ | hf
          · rw [hs] at hs'
            cases hs'
          · exact ⟨stage, reason, next, hf, hstage⟩
    · exact ⟨.takeParked, reason, next, hf, trivial⟩

end Heeded

/-- **When no kill is lost.** In a run that heeds the signals, a flow whose signal is set and none
of whose kills is in progress sleeps neither in a mailbox nor among the waiting senders. -/
theorem no_lost_kill (config : MailboxConfig) (sched : List (ℕ × Input))
    (hheeds : Schedule.Guarded step Heeds (State.init config) sched) (a : FlowId)
    (hreturned : ∀ stage reason next, .kill stage a reason next ∉ (run config sched).frames)
    (hsig : (run config sched).shared.killSignals a ≠ none) (id : FlowId) :
    (∀ flow, ((run config sched).shared.mailboxes id).parked = some flow → flow.id ≠ a) ∧
      ∀ w ∈ ((run config sched).shared.mailboxes id).waitingSenders, w.flow.id ≠ a := by
  have hinv : Heeded (run config sched) :=
    hheeds.invariant (fun s ti hti h => h.step ti hti) (heeded_init config)
  constructor
  · rintro flow hp rfl
    obtain ⟨stage, reason, next, hf, -⟩ := hinv.parked id flow hp hsig
    exact hreturned stage reason next hf
  · rintro w hw rfl
    obtain ⟨stage, reason, next, hf, -⟩ := hinv.waiting id w hw hsig
    exact hreturned stage reason next hf

/-- A flow is spawned and taken by a worker, which runs it up to its first `Receive`. -/
def receiveFirst : List (ℕ × Input) :=
  [(0, .start .spawn), (0, .pick 0), (0, .start (.work 0)), (0, .pick 0),
    (0, .vm (.receive 0 none none none))]

/-- Another thread kills flow 1, which it finds nowhere. -/
def killOne : List (ℕ × Input) :=
  [(1, .start (.kill 1 .killed)), (1, .pick 0), (1, .pick 0), (1, .pick 0), (1, .pick 0)]

/-- Flow 1 parks, the host wakes it with a hop, and it is killed while it runs. -/
def killRunning : List (ℕ × Input) :=
  receiveFirst ++ [(0, .pick 0), (0, .pick 0), (1, .start (.send 1 (.new 0 0 0 .unit))),
    (1, .pick 0), (1, .pick 0), (1, .pick 0), (1, .pick 0), (1, .pick 0), (0, .start (.work 0)),
    (0, .pick 0)] ++ killOne

theorem no_lost_kill_running :
    ((run .default killRunning).shared.mailboxes 1).parked ≠
      some { Flow.new 1 with lastReceiveDest := some 0 } :=
  have hunmarked : Schedule.Guarded step ParksUnmarked (State.init .default) killRunning := by
    decide +kernel
  have hsettled : Settled (run .default killRunning) := settled_of_scheduled (by decide +kernel)
  fun hp => (no_lost_kill .default killRunning (hunmarked.mono fun _ _ h => h.heeds) 1
    (fun _ _ _ hf => hsettled _ hf) (by decide +kernel) 1).1 _ hp rfl

/-- The kill comes between the worker's look at the signal and the park: the flow sleeps on. -/
theorem kill_lost :
    ¬∀ (config : MailboxConfig) (sched : List (ℕ × Input)), Settled (run config sched) →
      ∀ id flow, ((run config sched).shared.mailboxes id).parked = some flow →
        (run config sched).shared.killSignals flow.id = none := by
  intro hall
  have hsettled :
      Settled (run .default (receiveFirst ++ killOne ++ [(0, .pick 0), (0, .pick 0)])) :=
    settled_of_scheduled (by decide +kernel)
  have h := hall .default _ hsettled 1 { Flow.new 1 with lastReceiveDest := some 0 }
    (by decide +kernel)
  revert h
  decide +kernel

end Machine

end Byteflow
