import Byteflow.Scheduler.Machine.Deadline
import Byteflow.Scheduler.Machine.Exit
import Byteflow.Scheduler.Machine.Origin
import Byteflow.Scheduler.Machine.Stray

/-!
# What an `Ask` gets

An `Ask` ends with its reply, with its deadline, or with the exit of its target. The reply is found
by its request id and sender alone. A monitor `DOWN` hop shows the number of the monitor and the
target in their place, and an `Ask` with that number takes it for the reply (`ask_takes_down`); and
the exit of a former target may end it (`exit_wakes_receive`). In a run where neither happens
(`KeepsReplies`), an `Ask` gets what it asked for (`ask_correlation`).
-/

namespace Byteflow

/-- The `Ask` that the owner of the mailbox waits in: its request id and its target. -/
def Mailbox.asking (m : Mailbox Hop) : Option (UInt64 × FlowId) :=
  match m.parked, m.parkedFilter with
  | some _, .correlation requestId (some target) => some (requestId, target)
  | _, _ => none

theorem Mailbox.asking_eq_some {m : Mailbox Hop} {requestId : UInt64} {target : FlowId} :
    m.asking = some (requestId, target) ↔
      (∃ flow, m.parked = some flow) ∧ m.parkedFilter = .ask requestId target := by
  unfold asking WaitFilter.ask
  constructor
  · intro h
    split at h
    · rename_i hp hf
      cases h
      exact ⟨⟨_, hp⟩, hf⟩
    · cases h
  · rintro ⟨⟨flow, hp⟩, hf⟩
    rw [hp, hf]

/-- A hop that an `Ask` waits for. -/
theorem WaitFilter.accepts_ask {requestId : UInt64} {target : FlowId} {h : Hop}
    (ha : (WaitFilter.ask requestId target).accepts h = true) :
    ∃ m, h.value.asMessage = some m ∧ m.requestId = requestId ∧ m.sender = target := by
  simp only [accepts, ask, «matches»] at ha
  cases hm : (HopView.value h).asMessage with
  | none =>
    rw [hm] at ha
    cases ha
  | some m =>
    rw [hm] at ha
    simp only [Bool.and_eq_true, beq_iff_eq] at ha
    exact ⟨m, rfl, ha.1, ha.2⟩

namespace Machine

variable {s : State}

/-! ## The end of an `Ask` -/

/-- What an `Ask` writes to its destination register: `Unit` when its deadline has passed, the
notice that its target has exited, or a hop. -/
inductive AskReply
  | unit
  | exit (message : Message)
  | hop (hop : Hop)
  deriving DecidableEq

structure AskEnd where
  asker : FlowId
  requestId : UInt64
  target : FlowId
  reply : AskReply
  deriving DecidableEq

/-- A hop for the owner of a mailbox that waits in an `Ask` for it. -/
def handedReply (s : State) (owner : FlowId) (hop : Hop) : Option AskEnd :=
  if (s.shared.mailboxes owner).parkedFilter.accepts hop then
    (s.shared.mailboxes owner).asking.map fun (requestId, target) =>
      ⟨owner, requestId, target, .hop hop⟩
  else none

/-- A hop in the mailbox of the flow that the `Ask` finds. -/
def foundReply (s : State) (asker : FlowId) (wait : AskWait) : Option AskEnd :=
  ((s.shared.mailboxes asker).queue.inner.find? wait.filter.accepts).map fun hop =>
    ⟨asker, wait.requestId, wait.target, .hop hop⟩

/-- The `Ask` that the step ends, and what it writes. -/
def askEnd (s : State) (ti : ℕ × Input) : Option AskEnd :=
  match s.threads ti.1 with
  | .ask .reply flow wait :: _ => foundReply s flow.id wait
  | .ask .park flow wait :: _ => foundReply s flow.id wait
  | .send .push _ out :: _ => handedReply s out.target out.hop
  | .hostPush target hop :: _ => handedReply s target hop
  | .downPush owner hop :: _ => handedReply s owner hop
  | .fire pid epoch :: _ =>
    if (s.shared.mailboxes pid).waitEpoch = epoch.get then
      (s.shared.mailboxes pid).asking.map fun (requestId, target) =>
        ⟨pid, requestId, target, .unit⟩
    else none
  | _ =>
    (exitWake s ti).bind fun (asker, message) =>
      (s.shared.mailboxes asker).asking.map fun (requestId, target) =>
        ⟨asker, requestId, target, .exit message⟩

/-- The reply is one that the `Ask` may get: `Unit` if it gave a deadline, the exit of its target,
or a hop that its target, and nobody else, issued with its request id. -/
def AskEnd.Correlated (e : AskEnd) (log : List Issue) (parked : List (FlowId × Option ℕ)) : Prop :=
  match e.reply with
  | .unit => (lastTimeout parked e.asker).isSome
  | .exit message => message.tag = tagSysExit ∧ message.sender = e.target
  | .hop hop => ∃ message, hop.value.asMessage = some message ∧ message.requestId = e.requestId ∧
      ∀ source, ⟨source, hop⟩ ∈ log ↔ source = .flow e.target

/-! ## The condition -/

/-- No `DOWN` hop is in the way: none lies in the mailbox of an asker that looks for its reply
there, and none that an asker waits for is pushed. -/
def TakesNoDown (s : State) (ti : ℕ × Input) : Prop :=
  match s.threads ti.1 with
  | .ask .reply flow wait :: _ =>
    ∀ h ∈ (s.shared.mailboxes flow.id).queue.inner, wait.filter.accepts h = true →
      ∀ m ∈ h.value.asMessage, ¬m.IsDown
  | .ask .park flow wait :: _ =>
    ∀ h ∈ (s.shared.mailboxes flow.id).queue.inner, wait.filter.accepts h = true →
      ∀ m ∈ h.value.asMessage, ¬m.IsDown
  | .downPush owner hop :: _ =>
    (s.shared.mailboxes owner).asking = none ∨
      (s.shared.mailboxes owner).parkedFilter.accepts hop = false
  | _ => True

/-- The step ends no `Ask` by a hop or an exit of somebody else's: a flow parks only for the wakers
that hold it, and no `DOWN` hop is in the way. The epoch of a mailbox does not wrap. -/
structure KeepsReplies (s : State) (ti : ℕ × Input) : Prop where
  wakers : ParksForWakers s ti
  downs : TakesNoDown s ti
  epochs : ∀ p ∈ parks s ti, (s.shared.mailboxes p.1.id).waitEpoch + 1 ≠ 0

/-! ## Deadlines -/

/-- The frame will arm the deadline of a park, or fires it. -/
def Frame.Ends (id : FlowId) (epoch : WaitEpoch) : Frame → Prop
  | .arm pid e => pid = id ∧ e = epoch
  | .fire pid e => pid = id ∧ e = epoch
  | .askRecheck asker wait e => asker = id ∧ e = epoch ∧ wait.timeout.isSome
  | _ => False

/-- A deadline is of a park that gave one: of the last one, or of one before. -/
def Dated (s : State) (parked : List (FlowId × Option ℕ)) (id : FlowId) (epoch : WaitEpoch) :
    Prop :=
  epoch.get < (s.shared.mailboxes id).waitEpoch ∨
    (epoch.get = (s.shared.mailboxes id).waitEpoch ∧ (lastTimeout parked id).isSome)

structure DeadlinesDated (s : State) (parked : List (FlowId × Option ℕ)) : Prop where
  timers : ∀ id epoch, .wakeReceiver id epoch ∈ s.shared.timers → Dated s parked id epoch
  frames : ∀ f ∈ s.frames, ∀ id epoch, f.Ends id epoch → Dated s parked id epoch

theorem deadlinesDated_init (config : MailboxConfig) : DeadlinesDated (State.init config) [] where
  timers := fun _ _ h => by cases h
  frames := fun _ hf => by obtain ⟨t, hf⟩ := hf; cases hf

/-- A park moves the epoch of its mailbox, and nothing else does. -/
theorem parksUntil_cases (s : State) (t : ℕ) (i : Input) :
    (parks s (t, i) = none ∧ parksUntil s (t, i) = [] ∧ ∀ id,
        ((step s (t, i)).shared.mailboxes id).waitEpoch = (s.shared.mailboxes id).waitEpoch) ∨
      ∃ flow filter timeout f rest, parks s (t, i) = some (flow, filter) ∧
        s.threads t = f :: rest ∧ (f = .park flow filter timeout ∨
          ∃ wait : AskWait, f = .ask .park flow wait ∧ wait.timeout = timeout) ∧
        parksUntil s (t, i) = [(flow.id, timeout)] ∧
        ((step s (t, i)).shared.mailboxes flow.id).waitEpoch =
          (s.shared.mailboxes flow.id).waitEpoch + 1 ∧
        ∀ id ≠ flow.id,
          ((step s (t, i)).shared.mailboxes id).waitEpoch = (s.shared.mailboxes id).waitEpoch := by
  cases hparks : parks s (t, i) with
  | none =>
    refine .inl ⟨rfl, ?_, fun id => ?_⟩
    · unfold parksUntil
      split <;> simp [hparks]
    · rcases step_mailbox s t i id with he | ⟨f, rest, op, hs, hw, he⟩
      · rw [he]
      rw [he]
      cases hb : (s.shared.mailboxes id).began op with
      | none => exact (Mailbox.after_of_began_none hb).1
      | some epoch =>
        cases op with
        | parkFilter flow filter =>
          -- a park that finds no hop is one that `parks` shows
          rcases (s.shared.mailboxes id).parkFilter_cases flow filter with ⟨h, -, hr⟩ | ⟨hnone, -⟩
          · simp [Mailbox.began, hr] at hb
          · unfold parks at hparks
            obtain ⟨rfl, ⟨timeout, rfl⟩ | ⟨wait, rfl, rfl⟩⟩ := hw.of_parkFilter <;>
              simp [hs, hnone] at hparks
        | _ => cases hb
  | some p =>
    obtain ⟨flow, filter⟩ := p
    have hsome : (parks s (t, i)).isSome := by
      rw [hparks]
      rfl
    obtain ⟨hnone, f, rest, hs, hf⟩ := parks_cases hparks
    have hmail : ∀ {filter : WaitFilter} {k},
        (s.shared.mailboxes flow.id).queue.inner.find? filter.accepts = none →
        f.next i = .mail flow.id (.parkFilter flow filter) k →
        ((step s (t, i)).shared.mailboxes flow.id).waitEpoch =
            (s.shared.mailboxes flow.id).waitEpoch + 1 ∧
          ∀ id ≠ flow.id,
            ((step s (t, i)).shared.mailboxes id).waitEpoch =
              (s.shared.mailboxes id).waitEpoch := by
      intro filter k hnone hnext
      constructor
      · rw [step_mail hs hnext]
        rcases (s.shared.mailboxes flow.id).parkFilter_cases flow filter with ⟨v, hv, -⟩ | ⟨-, he⟩
        · rw [hnone] at hv
          cases hv
        · simp only [Mailbox.after, he]
      · intro id hid
        rw [step_shared, next_of_cons i hs, hnext]
        exact congrArg _ (Function.update_of_ne hid ..)
    rcases hf with ⟨timeout, rfl⟩ | ⟨wait, rfl, rfl⟩
    · refine .inr ⟨flow, filter, timeout, _, rest, rfl, hs, .inl rfl, ?_, hmail hnone rfl⟩
      unfold parksUntil
      rw [hs]
      exact if_pos hsome
    · refine .inr ⟨flow, wait.filter, wait.timeout, _, rest, rfl, hs, .inr ⟨wait, rfl, rfl⟩, ?_,
        hmail hnone rfl⟩
      unfold parksUntil
      rw [hs]
      exact if_pos hsome

/-- A deadline stays one of the last park, or becomes one of a park before. -/
theorem Dated.step {parked : List (FlowId × Option ℕ)} {id : FlowId} {epoch : WaitEpoch}
    (h : Dated s parked id epoch) {t : ℕ} {i : Input} (hguard : KeepsReplies s (t, i)) :
    Dated (Machine.step s (t, i)) (parked ++ parksUntil s (t, i)) id epoch := by
  rcases parksUntil_cases s t i with ⟨-, hnil, hsame⟩ |
    ⟨flow, filter, timeout, f, rest, hparks, -, -, huntil, hself, hother⟩
  · unfold Dated
    rw [hnil, List.append_nil, hsame]
    exact h
  · by_cases hid : id = flow.id
    · subst hid
      have hlt := lt_succ_of_ne_zero (hguard.epochs _ hparks)
      refine .inl ?_
      rw [hself]
      rcases h with h | ⟨h, -⟩
      · exact UInt64.lt_trans h hlt
      · rwa [h]
    · unfold Dated
      rw [huntil, lastTimeout_concat, if_neg (Ne.symm hid), hother id hid]
      exact h

/-- The deadline of a park that begins a wait. -/
theorem dated_of_park {parked : List (FlowId × Option ℕ)} {t : ℕ} {i : Input} {f : Frame}
    {rest : List Frame} (hs : s.threads t = f :: rest) {flow : Flow Hop} {filter : WaitFilter}
    {timeout : Option ℕ} {epoch : WaitEpoch}
    (hf : f = .park flow filter timeout ∨
      ∃ wait : AskWait, f = .ask .park flow wait ∧ filter = wait.filter ∧ wait.timeout = timeout)
    (htimeout : timeout.isSome = true)
    (hr : ((s.shared.mailboxes flow.id).parkFilter flow filter).2 = .ok epoch) :
    Dated (Machine.step s (t, i)) (parked ++ parksUntil s (t, i)) flow.id epoch := by
  obtain ⟨hnone, hepoch⟩ : (s.shared.mailboxes flow.id).queue.inner.find? filter.accepts = none ∧
      epoch.get = (s.shared.mailboxes flow.id).waitEpoch + 1 := by
    rcases (s.shared.mailboxes flow.id).parkFilter_cases flow filter with ⟨v, -, he⟩ | ⟨hnone, he⟩
    · rw [he] at hr
      cases hr
    · rw [he] at hr
      cases hr
      exact ⟨hnone, rfl⟩
  have hparks : parks s (t, i) = some (flow, filter) := by
    unfold parks
    rcases hf with rfl | ⟨wait, rfl, rfl, -⟩ <;> simp [hs, hnone]
  rcases parksUntil_cases s t i with ⟨hnot, -⟩ |
    ⟨flow', filter', timeout', f', rest', hparks', hs', hf', huntil, hself, -⟩
  · rw [hparks] at hnot
    cases hnot
  · rw [hparks] at hparks'
    cases hparks'
    have htimes : timeout' = timeout := by
      rw [hs] at hs'
      cases hs'
      rcases hf with rfl | ⟨wait, rfl, -, rfl⟩
      · rcases hf' with heq | ⟨wait, heq, -⟩ <;> cases heq
        rfl
      · rcases hf' with heq | ⟨wait', heq, htimes⟩ <;> cases heq
        exact htimes.symm
    refine .inr ⟨by rw [hself, hepoch], ?_⟩
    rwa [huntil, lastTimeout_concat, if_pos rfl, htimes]

/-- An entry of the timer heap was there before, or a frame arms it. -/
theorem timer_of_step {t : ℕ} {i : Input} {id : FlowId} {epoch : WaitEpoch}
    (h : .wakeReceiver id epoch ∈ (step s (t, i)).shared.timers) :
    .wakeReceiver id epoch ∈ s.shared.timers ∨ ∃ rest, s.threads t = .arm id epoch :: rest := by
  cases step_cases s t i with
  | acts f rest w hs hi hw hσ hnew =>
    rw [hσ.timers] at h
    cases hw with
    | arm pid e =>
      rcases List.mem_cons.mp h with heq | h
      · cases heq
        exact .inr ⟨rest, hs⟩
      · exact .inl h
    | sleep flow =>
      rcases List.mem_cons.mp h with heq | h
      · cases heq
      · exact .inl h
    | _ => exact .inl h
  | starts w hs hw hσ hnew =>
    rw [hσ.timers] at h
    cases hw with
    | expire n => exact .inl (List.mem_of_mem_eraseIdx h)
    | _ => exact .inl h

theorem DeadlinesDated.step {parked : List (FlowId × Option ℕ)} (h : DeadlinesDated s parked)
    (ti : ℕ × Input) (hguard : KeepsReplies s ti) :
    DeadlinesDated (Machine.step s ti) (parked ++ parksUntil s ti) := by
  obtain ⟨t, i⟩ := ti
  constructor
  · intro id epoch hentry
    rcases timer_of_step hentry with hentry | ⟨rest, hs⟩
    · exact (h.timers id epoch hentry).step hguard
    · exact (h.frames _ (mem_frames_of_cons hs) id epoch ⟨rfl, rfl⟩).step hguard
  · intro g hg id epoch hends
    cases step_cases s t i with
    | acts f rest w hs hi hw hσ hnew =>
      rcases hnew g hg with hg | hl
      · exact (h.frames g (mem_frames_of_others hg) id epoch hends).step hguard
      cases hl with
      | plain hplain => cases g <;> first | exact hplain.elim | exact hends.elim
      | parkArm htimeout hr =>
        obtain ⟨rfl, rfl⟩ := hends
        exact dated_of_park hs (.inl rfl) htimeout hr
      | recheckArm htimeout =>
        obtain ⟨rfl, rfl⟩ := hends
        exact (h.frames _ (mem_frames_of_cons hs) _ _ ⟨rfl, rfl, htimeout⟩).step hguard
      | askRecheck hr =>
        obtain ⟨rfl, rfl, htimeout⟩ := hends
        exact dated_of_park hs (.inr ⟨_, rfl, rfl, rfl⟩) htimeout hr
      | _ => exact hends.elim
    | starts w hs hw hσ hnew =>
      rcases hnew g hg with hg | hst
      · exact (h.frames g (mem_frames_of_others hg) id epoch hends).step hguard
      cases hst with
      | plain hplain => cases g <;> first | exact hplain.elim | exact hends.elim
      | fire hentry =>
        obtain ⟨rfl, rfl⟩ := hends
        exact (h.timers _ _ hentry).step hguard
      | _ => exact hends.elim

/-! ## Every reply is one of the target -/

/-- A hop that an `Ask` waits for, and that is no `DOWN`, is of its target. -/
theorem Originated.of_accepts {log : List Issue} (h : Originated s log) {source : HopSource}
    {hop : Hop} (hmem : ⟨source, hop⟩ ∈ log) {requestId : UInt64} {target : FlowId}
    (hflow : target ≠ FlowId.host)
    (haccepts : (WaitFilter.ask requestId target).accepts hop = true)
    (hdown : source = .monitor → ∀ m ∈ hop.value.asMessage, ¬m.IsDown) :
    ∃ message, hop.value.asMessage = some message ∧ message.requestId = requestId ∧
      ∀ source, ⟨source, hop⟩ ∈ log ↔ source = .flow target := by
  obtain ⟨m, hm, hrid, hsender⟩ := WaitFilter.accepts_ask haccepts
  have hsource : source = .flow target := by
    obtain ⟨m', hm', hstamps⟩ := h.stamped _ hmem
    rw [hm] at hm'
    cases hm'
    cases source with
    | flow id =>
      have hid : m.sender = id := hstamps
      rw [← hid, hsender]
    | host =>
      have hhost : m.sender = FlowId.host := hstamps
      exact absurd (hsender.symm.trans hhost) hflow
    | monitor => exact absurd hstamps (hdown rfl m hm)
  subst hsource
  refine ⟨m, hm, hrid, fun source => ⟨fun hmem' => ?_, fun heq => heq ▸ hmem⟩⟩
  exact congrArg Issue.source (h.unique _ hmem' _ hmem rfl)

/-- What a mailbox hands to an asker is what the asker waits for. -/
theorem handedReply_cases {owner : FlowId} {hop : Hop} {e : AskEnd}
    (h : handedReply s owner hop = some e) :
    e.reply = .hop hop ∧ (s.shared.mailboxes owner).asking = some (e.requestId, e.target) ∧
      (s.shared.mailboxes owner).parkedFilter.accepts hop = true ∧
      (WaitFilter.ask e.requestId e.target).accepts hop = true := by
  unfold handedReply at h
  split_ifs at h with haccepts
  obtain ⟨⟨requestId, target⟩, hasking, rfl⟩ := Option.map_eq_some_iff.mp h
  refine ⟨rfl, hasking, haccepts, ?_⟩
  rwa [← (Mailbox.asking_eq_some.mp hasking).2]

/-- What an asker finds is in its queue. -/
theorem foundReply_cases {asker : FlowId} {wait : AskWait} {e : AskEnd}
    (h : foundReply s asker wait = some e) :
    ∃ hop ∈ (s.shared.mailboxes asker).queue.inner, e.reply = .hop hop ∧
      e.target = wait.target ∧ wait.filter.accepts hop = true ∧
      (WaitFilter.ask e.requestId e.target).accepts hop = true := by
  obtain ⟨hop, hfind, rfl⟩ := Option.map_eq_some_iff.mp h
  exact ⟨hop, List.mem_of_find?_eq_some hfind, rfl, rfl, List.find?_some hfind,
    List.find?_some hfind⟩

theorem exitWake_tag {ti : ℕ × Input} {asker : FlowId} {message : Message}
    (h : exitWake s ti = some (asker, message)) : message.tag = tagSysExit := by
  unfold exitWake at h
  split at h
  · split_ifs at h
    cases h
    rfl
  · split_ifs at h
    cases h
    rfl
  · cases h

/-- **When an `Ask` gets what it asked for.** In a run that keeps the replies, an `Ask` to a flow
ends with `Unit` only if it gave a deadline, with the notice of an exit only if it is that of its
target, and with a hop only if its target, and nobody else, issued it with the request id of the
`Ask`. -/
theorem ask_correlation (config : MailboxConfig) (sched : List (ℕ × Input)) (ti : ℕ × Input)
    (hguard : Schedule.Guarded step KeepsReplies (State.init config) (sched ++ [ti])) (e : AskEnd)
    (hend : askEnd (run config sched) ti = some e) (hflow : e.target ≠ FlowId.host) :
    e.Correlated (issueTrace config sched)
      (Schedule.trace step parksUntil (State.init config) sched) := by
  obtain ⟨hguard, hti, -⟩ := Schedule.Guarded.append.mp hguard
  have hlog : Originated (run config sched) (issueTrace config sched) :=
    hguard.trace_invariant (fun s ti es _ h => h.step ti) (originated_init config)
  have hdated : DeadlinesDated (run config sched)
      (Schedule.trace step parksUntil (State.init config) sched) :=
    hguard.trace_invariant (fun s ti es hti h => h.step ti hti) (deadlinesDated_init config)
  have htraced : Traced (run config sched) :=
    hguard.invariant (fun s ti hti h => h.step ti hti.wakers) (traced_init config)
  have hdown := hti.downs
  change KeepsReplies (run config sched) ti at hti
  change TakesNoDown (run config sched) ti at hdown
  generalize run config sched = s at *
  -- a hop that the asker finds lies in its mailbox
  have hfound : ∀ flow wait, foundReply s flow wait = some e →
      (∀ h ∈ (s.shared.mailboxes flow).queue.inner, wait.filter.accepts h = true →
        ∀ m ∈ h.value.asMessage, ¬m.IsDown) → e.Correlated (issueTrace config sched)
          (Schedule.trace step parksUntil (State.init config) sched) := by
    intro flow wait hfound hquiet
    obtain ⟨hop, hmem, hreply, -, hmatch, haccepts⟩ := foundReply_cases hfound
    obtain ⟨source, hissue⟩ := hlog.queued flow hop hmem
    unfold AskEnd.Correlated
    rw [hreply]
    exact hlog.of_accepts hissue hflow haccepts fun _ => hquiet hop hmem hmatch
  -- a hop that is handed over comes from the frame that acts
  have hhanded : ∀ f rest owner hop, s.threads ti.1 = f :: rest → f.hop = some hop →
      (∀ source, f.From source → source ≠ .monitor) → handedReply s owner hop = some e →
      e.Correlated (issueTrace config sched)
        (Schedule.trace step parksUntil (State.init config) sched) := by
    intro f rest owner hop hs hf hsource hhanded
    obtain ⟨hreply, -, -, haccepts⟩ := handedReply_cases hhanded
    obtain ⟨source, hissue, hfrom⟩ := hlog.frames f (mem_frames_of_cons hs) hop hf
    unfold AskEnd.Correlated
    rw [hreply]
    exact hlog.of_accepts hissue hflow haccepts fun heq => absurd heq (hsource source hfrom)
  unfold askEnd at hend
  unfold TakesNoDown at hdown
  split at hend
  · rename_i flow wait rest hs
    rw [hs] at hdown
    exact hfound _ _ hend hdown
  · rename_i flow wait rest hs
    rw [hs] at hdown
    exact hfound _ _ hend hdown
  · rename_i flow out rest hs
    refine hhanded _ rest _ _ hs rfl (fun source hfrom => ?_) hend
    rw [show source = .flow flow.id from hfrom]
    nofun
  · rename_i target hop rest hs
    refine hhanded _ rest _ _ hs rfl (fun source hfrom => ?_) hend
    rw [show source = .host from hfrom]
    nofun
  · rename_i owner hop rest hs
    rw [hs] at hdown
    obtain ⟨-, hasking, haccepts, -⟩ := handedReply_cases hend
    rcases hdown with hnone | hrefused
    · rw [hnone] at hasking
      cases hasking
    · rw [hrefused] at haccepts
      cases haccepts
  · rename_i pid epoch rest hs
    split_ifs at hend with hepoch
    obtain ⟨⟨requestId, target⟩, -, rfl⟩ := Option.map_eq_some_iff.mp hend
    rcases hdated.frames _ (mem_frames_of_cons hs) pid epoch ⟨rfl, rfl⟩ with hlt | ⟨-, htimeout⟩
    · rw [hepoch] at hlt
      exact absurd hlt (UInt64.lt_irrefl _)
    · exact htimeout
  · obtain ⟨⟨asker, message⟩, hwake, hend⟩ := Option.bind_eq_some_iff.mp hend
    obtain ⟨⟨requestId, target⟩, hasking, rfl⟩ := Option.map_eq_some_iff.mp hend
    obtain ⟨requestId', hfilter⟩ := htraced.exitWake hwake
    rw [(Mailbox.asking_eq_some.mp hasking).2] at hfilter
    cases hfilter
    exact ⟨exitWake_tag hwake, rfl⟩

instance (s : State) (ti : ℕ × Input) : Decidable (TakesNoDown s ti) := by
  delta TakesNoDown
  generalize s.threads ti.1 = frames
  induction frames using List.casesOn with
  | nil => exact inferInstanceAs (Decidable True)
  | cons f rest =>
    induction f using Frame.casesOn with
    | ask stage flow wait =>
      induction stage using AskStage.casesOn <;> dsimp only <;> infer_instance
    | _ =>
      dsimp only
      infer_instance

/-- Flow 1 asks flow 2, which answers. -/
def askThenAnswer : List (ℕ × Input) :=
  twoRunning ++ [(0, .vm (.ask 0 2 (.new 0 7 0 .unit) CapId.none none))] ++ steps 0 6 ++
    [(1, .vm (.send 1 (.new 0 7 0 (.bool true)) CapId.none)), (1, .pick 0)]

/-- The answer is that of flow 2. -/
theorem ask_correlation_answer :
    ⟨.flow 2, 1, (Message.new 2 7 0 (.bool true)).toValue⟩ ∈ issueTrace .default askThenAnswer :=
  have hbefore : Schedule.Guarded step (ParksBeforeWakers [0, 1]) (State.init .default)
      (askThenAnswer ++ [(1, .pick 0)]) := by
    decide +kernel
  have hrest : Schedule.Guarded step (fun s ti => TakesNoDown s ti ∧
      ∀ p ∈ parks s ti, (s.shared.mailboxes p.1.id).waitEpoch + 1 ≠ 0) (State.init .default)
        (askThenAnswer ++ [(1, .pick 0)]) := by
    decide +kernel
  have hkept := ((forWakers_of_parksBeforeWakers hbefore).and hrest).mono fun _ _ h =>
    KeepsReplies.mk h.1 h.2.1 h.2.2
  have hcorrelated := ask_correlation .default askThenAnswer (1, .pick 0) hkept
    ⟨1, 7, 2, .hop ⟨1, (Message.new 2 7 0 (.bool true)).toValue⟩⟩ (by decide +kernel) (by decide)
  have ⟨_, _, _, hsource⟩ := hcorrelated
  (hsource _).mpr rfl

/-- Flow 1 monitors flow 2 and asks it with the number of the monitor. Flow 2 completes before flow
1 looks for the reply. -/
def asksLikeMonitor : List (ℕ × Input) :=
  twoRunning ++
    [(0, .vm (.monitor 2)), (0, .vm (.ask 0 2 (.new 0 1 0 .unit) CapId.none none))] ++ steps 0 2 ++
    [(1, .vm (.complete .unit))] ++ steps 1 19

/-- Flow 1 asks flow 2, which answers and completes; the end of the `park_ask` finds it gone. Flow 1
runs on and asks flow 3. -/
def asksAnother : List (ℕ × Input) :=
  [(0, .start .spawn), (0, .pick 0), (0, .start .spawn), (0, .pick 0), (0, .start .spawn),
    (0, .pick 0), (0, .start (.work 2)), (0, .pick 0), (1, .start (.work 1)), (1, .pick 0),
    (0, .vm (.ask 0 2 (.new 0 7 0 .unit) CapId.none none))] ++ steps 0 5 ++
    [(1, .vm (.send 1 (.new 0 7 0 .unit) CapId.none))] ++ steps 1 4 ++
    [(1, .vm (.complete .unit))] ++ steps 1 15 ++ steps 0 1 ++
    [(2, .start (.work 0)), (2, .pick 0), (2, .vm (.ask 0 3 (.new 0 8 0 .unit) CapId.none none))] ++
    steps 2 5

/-- An `Ask` to flow 2 gets the `DOWN` of a monitor, and an `Ask` to flow 3 the exit of flow 2. -/
theorem ask_takes_down :
    (∃ hop, askEnd (run .default asksLikeMonitor) (0, .pick 0) = some ⟨1, 1, 2, .hop hop⟩ ∧
        ⟨.monitor, hop⟩ ∈ issueTrace .default asksLikeMonitor) ∧
      ∃ message, askEnd (run .default asksAnother) (0, .pick 0) = some ⟨1, 8, 3, .exit message⟩ ∧
        message.sender = 2 := by
  refine ⟨⟨⟨1, (Message.down 1 2 0).toValue⟩, ?_, ?_⟩, .linkedExit 2 FlowExitReason.fault.asU64,
    ?_, rfl⟩
  all_goals decide +kernel

end Machine

end Byteflow
