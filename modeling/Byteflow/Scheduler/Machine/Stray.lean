import Byteflow.Scheduler.Machine.Exit
import Byteflow.Scheduler.Machine.Orphan

/-!
# Wakes that hit another wait

The list of a finalization and the end of `park_ask` hold the id of an asker, not its wait: between
their look at the index or the directory and `take_parked` the asker may have been woken by a
reply or a deadline, and have parked again. In a run in which a flow parks only on the target of
every such waker that still holds it (`ParksForWakers`), each wake with the exit of a target ends
an `Ask` to that target (`exit_wake_own_ask`).
-/

namespace Byteflow

namespace Machine

variable {s : State}

/-- A waker with the exit of the target still holds the asker. -/
def Waker (s : State) (target asker : FlowId) : Prop :=
  OnList s target asker ∨ Rechecks s target asker

/-- A flow parks only in an `Ask` to the target of every waker that holds it. -/
def ParksForWakers (s : State) (ti : ℕ × Input) : Prop :=
  ∀ p ∈ parks s ti, ∀ target, Waker s target p.1.id → ∃ requestId, p.2 = .ask requestId target

/-- The frame may hold askers to wake. -/
def Frame.Wakes : Frame → Prop
  | .fin (.wake _) _ _ => True
  | .fin (.wakeTake _ _) _ _ => True
  | .askRecheck _ _ _ => True
  | .askTake _ _ => True
  | _ => False

instance (f : Frame) : Decidable f.Wakes := by
  delta Frame.Wakes
  induction f using Frame.casesOn with
  | fin stage cur work => induction stage using FinStage.casesOn <;> dsimp only <;> infer_instance
  | _ =>
    dsimp only
    infer_instance

theorem Waker.wakes {target asker : FlowId} (h : Waker s target asker) :
    ∃ f ∈ s.frames, f.Wakes := by
  rcases h with ⟨stage, cur, work, hf, -, hstage⟩ | ⟨f, hf, hr⟩
  · refine ⟨_, hf, ?_⟩
    cases stage <;> trivial
  · refine ⟨f, hf, ?_⟩
    cases f <;> trivial

/-- Of the threads listed, one steps, and it parks a receiver only while none has askers to
wake. -/
def ParksBeforeWakers (threads : List ℕ) (s : State) (ti : ℕ × Input) : Prop :=
  ti.1 ∈ threads ∧ ∀ _p ∈ parks s ti, ∀ t ∈ threads, ∀ f ∈ s.threads t, ¬f.Wakes

instance (threads : List ℕ) (s : State) (ti : ℕ × Input) :
    Decidable (ParksBeforeWakers threads s ti) :=
  inferInstanceAs (Decidable (_ ∧ _))

/-- Threads that are not listed have no work. -/
theorem forWakers_of_parksBeforeWakers {config : MailboxConfig} {threads : List ℕ}
    {sched : List (ℕ × Input)}
    (h : Schedule.Guarded step (ParksBeforeWakers threads) (State.init config) sched) :
    Schedule.Guarded step ParksForWakers (State.init config) sched := by
  refine h.weaken (I := fun s => ∀ t, t ∉ threads → s.threads t = []) ?_ ?_ fun _ _ => rfl
  · intro s ti hti hidle t ht
    have hne : t ≠ ti.1 := by
      rintro rfl
      exact ht hti.1
    exact (step_threads_of_ne s ti.2 hne).trans (hidle t ht)
  · rintro s ti hidle ⟨-, hquiet⟩ p hp target hwaker
    obtain ⟨f, ⟨t, hf⟩, hwakes⟩ := hwaker.wakes
    by_cases ht : t ∈ threads
    · exact absurd hwakes (hquiet p hp t ht f hf)
    · rw [hidle t ht] at hf
      cases hf

/-- The asker that the step unparks because a target has exited, and the hop it resumes it with. -/
def exitWake (s : State) (ti : ℕ × Input) : Option (FlowId × Message) :=
  match s.threads ti.1 with
  | .fin (.wakeTake asker _) cur _ :: _ =>
    if (s.shared.mailboxes asker).parked.isSome then
      some (asker, .linkedExit cur.id cur.reason.asU64)
    else none
  | .askTake asker wait :: _ =>
    if (s.shared.mailboxes asker).parked.isSome then
      some (asker, .linkedExit wait.target FlowExitReason.fault.asU64)
    else none
  | _ => none

/-! ## Where an asker in the index is -/

/-- The stages before `remove_asker` of the flow that is finalized. -/
def FinStage.Indexed : FinStage → Prop
  | .killTake => True
  | .sendAtRemove => True
  | .askRemove => True
  | _ => False

/-- The frame holds an asker that may be in the index of the target. -/
def Frame.Asking (target asker : FlowId) : Frame → Prop
  | .ask .park flow wait => flow.id = asker ∧ wait.target = target
  | .forget flow => flow.id = asker
  | .fin stage cur work => (cur.id = asker ∧ stage.Indexed) ∨ ∃ p ∈ work, p.id = asker
  | .kill _ _ _ (.link _ _ work) => ∃ p ∈ work, p.id = asker
  | _ => False

/-- An asker in the index of a target that is not drained is parked on the target, or about to
be, or about to leave the index. -/
structure Traced (s : State) : Prop where
  owned : Owned s
  homed : Homed s
  registered : Registered s
  coherent : ∀ f ∈ s.frames, f.Coherent
  index : s.shared.askWaits.Coherent
  traced : ∀ target, ∀ asker ∈ s.shared.askWaits.askersOf target,
    Drained s target ∨ ParkedAsk s asker target ∨ ∃ f ∈ s.frames, f.Asking target asker
  wakers : ∀ target asker, Waker s target asker → ∀ flow,
    (s.shared.mailboxes asker).parked = some flow →
      ∃ requestId, (s.shared.mailboxes asker).parkedFilter = .ask requestId target

theorem traced_init (config : MailboxConfig) : Traced (State.init config) where
  owned := owned_init config
  homed := homed_init config
  registered := registered_init config
  coherent := fun _ hf => by obtain ⟨t, hf⟩ := hf; cases hf
  index := AskWaitIndex.coherent_new
  traced := fun _ _ ha => by cases ha
  wakers := fun _ _ _ _ hp => by cases hp

/-- A frame that may hold an asker of the index does hold it. -/
theorem Frame.Asking.mem_boxes {f : Frame} {target asker : FlowId} (h : f.Asking target asker) :
    asker ∈ f.boxes := by
  have hwork : ∀ work : List PendingExit, (∃ p ∈ work, p.id = asker) →
      asker ∈ boxesOf PendingExit.box work := by
    rintro work ⟨p, hp, rfl⟩
    exact mem_boxesOf.mpr ⟨p, hp, Multiset.mem_singleton_self _⟩
  cases f with
  | ask stage flow wait =>
    cases stage with
    | park => exact h.1 ▸ Multiset.mem_singleton_self _
    | _ => exact h.elim
  | forget flow =>
    have hid : flow.id = asker := h
    exact hid ▸ Multiset.mem_singleton_self _
  | fin stage cur work =>
    rcases h with ⟨rfl, -⟩ | hp
    · exact cur_mem_boxes ..
    · exact Multiset.mem_add.mpr (.inr (Multiset.mem_add.mpr (.inr (hwork work hp))))
  | kill stage id reason next =>
    cases next with
    | request => exact h.elim
    | link cur peers work =>
      exact Multiset.mem_add.mpr (.inr (Multiset.mem_add.mpr (.inr (hwork work h))))
  | _ => exact h.elim

/-- The index after a step: an asker was there before, or is entered by its `park_ask`. -/
theorem byTarget_of_step (hindex : s.shared.askWaits.Coherent) {t : ℕ} {i : Input}
    {asker target : FlowId} (h : asker ∈ (step s (t, i)).shared.askWaits.askersOf target) :
    asker ∈ s.shared.askWaits.askersOf target ∨
      ∃ f ∈ (step s (t, i)).frames, f.Asking target asker := by
  cases step_cases s t i with
  | acts f rest w hs hi hw hσ hnew =>
    rw [hσ.askWaits] at h
    cases hw with
    | askInsert flow wait =>
      rcases AskWaitIndex.mem_insert.mp h with h | ⟨hinserted, rfl, rfl⟩
      · exact .inl h
      · refine .inr ⟨.ask .park flow wait, mem_frames_of_next hs ?_, rfl, rfl⟩
        simp only [Frame.next, AskStage.next, Shared.exec, hinserted, if_true, List.mem_singleton]
    | forget flow =>
      by_cases hid : asker = flow.id
      · subst hid
        exact absurd h (hindex.not_mem_removeAsker _ _)
      · exact .inl ((AskWaitIndex.mem_removeAsker hid).mp h)
    | finAsk cur work =>
      by_cases hid : asker = cur.id
      · subst hid
        exact absurd h (hindex.not_mem_removeAsker _ _)
      · exact .inl ((AskWaitIndex.mem_removeAsker hid).mp h)
    | finWaiters cur work => exact .inl (AskWaitIndex.mem_takeWaitersOf.mp h).2
    | _ => exact .inl h
  | starts w hs hw hσ hnew =>
    rw [hσ.askWaits] at h
    cases hw <;> exact .inl h

theorem index_step (hindex : s.shared.askWaits.Coherent) (ti : ℕ × Input) :
    (step s ti).shared.askWaits.Coherent := by
  cases step_cases s ti.1 ti.2 with
  | acts f rest w hs hi hw hσ hnew =>
    rw [hσ.askWaits]
    cases w with
    | askInsert asker target requestId => exact hindex.insert _ _ _
    | askRemove asker => exact hindex.removeAsker _
    | askTake target => exact hindex.takeWaitersOf _
    | _ => exact hindex
  | starts w hs hw hσ hnew =>
    rw [hσ.askWaits]
    cases hw <;> exact hindex

/-! ## Askers on the way out of the index -/

theorem Frame.Queues.asking {target asker : FlowId} {f : Frame} (h : f.Queues asker) :
    f.Asking target asker := by
  cases f with
  | fin stage cur work =>
    rcases h with ⟨hid, rfl⟩ | hwork
    · exact .inl ⟨hid, trivial⟩
    · exact .inr hwork
  | kill stage id reason next =>
    cases next with
    | request => exact h.elim
    | link cur peers work => exact h
  | _ => exact h.elim

/-- A flow that is killed is finalized, or enters the work list of a finalization. -/
theorem asking_resume {target asker : FlowId} (reason : FlowExitReason) (next : KillAfter)
    {flow : Flow Hop} (hid : flow.id = asker) :
    ∃ g ∈ next.resume reason (some flow), g.Asking target asker := by
  cases next with
  | request => exact ⟨_, List.mem_singleton_self _, .inl ⟨hid, trivial⟩⟩
  | link cur peers work =>
    exact ⟨_, List.mem_singleton_self _,
      .inr ⟨_, List.mem_append_right _ (List.mem_singleton_self _), hid⟩⟩

/-- A parked flow stays parked, is on its way out of the index, or is woken with the exit of a
target by a finalization. -/
theorem unparked_step (ho : Owned s) (hhome : Homed s) {target asker : FlowId} {flow : Flow Hop}
    (hp : (s.shared.mailboxes asker).parked = some flow) (t : ℕ) (i : Input) :
    (((step s (t, i)).shared.mailboxes asker).parked = some flow ∧
        ((step s (t, i)).shared.mailboxes asker).parkedFilter =
          (s.shared.mailboxes asker).parkedFilter) ∨
      (∃ f ∈ (step s (t, i)).frames, f.Asking target asker) ∨
      ∃ askers cur work rest, s.threads t = .fin (.wakeTake asker askers) cur work :: rest := by
  have hid := hhome asker flow hp
  rcases step_mailbox s t i asker with he | ⟨f, rest, op, hs, hw, he⟩
  · exact .inl ⟨he ▸ hp, by rw [he]⟩
  have hheld : asker ∉ f.boxes := by
    intro ha
    rw [ho.parked_none hhome (mem_frames_of_cons hs) ha] at hp
    cases hp
  have hforget : Frame.forget flow ∈ (s.shared.exec (f.next i)).2 →
      ∃ f ∈ (step s (t, i)).frames, f.Asking target asker :=
    fun hg => ⟨_, mem_frames_of_next hs hg, hid⟩
  rw [he]
  rcases (s.shared.mailboxes asker).after_parked op with ⟨hp', hf⟩ | hnone | ⟨flow', filter, rfl, -⟩
  · exact .inl ⟨hp' ▸ hp, hf⟩
  · refine .inr ?_
    cases hw with
    | push flow' out =>
      rcases (s.shared.mailboxes out.target).push_cases out.hop with ⟨flow'', hp', -, hr⟩ | ⟨-, hr⟩
      · rw [hp] at hp'
        cases hp'
        refine .inl (hforget ?_)
        simp only [Frame.next, SendStage.next, Shared.exec, Mailbox.result, hr]
        exact List.mem_cons_self
      · simp [Mailbox.after, hr, hp] at hnone
    | downPush owner hop =>
      rcases (s.shared.mailboxes asker).pushSystem_cases hop with ⟨flow'', hp', -, hr⟩ | ⟨-, hr⟩
      · rw [hp] at hp'
        cases hp'
        refine .inl (hforget ?_)
        simp only [Frame.next, Shared.exec, Mailbox.result, hr]
        exact List.mem_singleton_self _
      · simp [Mailbox.after, hr, hp] at hnone
    | hostPush target hop =>
      rcases (s.shared.mailboxes asker).push_cases hop with ⟨flow'', hp', -, hr⟩ | ⟨-, hr⟩
      · rw [hp] at hp'
        cases hp'
        refine .inl (hforget ?_)
        simp only [Frame.next, Shared.exec, Mailbox.result, hr]
        exact List.mem_singleton_self _
      · simp [Mailbox.after, hr, hp] at hnone
    | recheckTake a wait =>
      refine .inl (hforget ?_)
      simp only [Frame.next, Shared.exec, Mailbox.result, Mailbox.takeParked, hp]
      exact List.mem_singleton_self _
    | fire pid epoch =>
      rcases (s.shared.mailboxes asker).takeParkedAt_cases epoch with ⟨flow'', -, hp', hr⟩ | ⟨-, hr⟩
      · rw [hp] at hp'
        cases hp'
        refine .inl (hforget ?_)
        simp only [Frame.next, Shared.exec, Mailbox.result, hr]
        exact List.mem_singleton_self _
      · simp [Mailbox.after, hr, hp] at hnone
    | wakeTake a askers cur work => exact .inr ⟨askers, cur, work, rest, hs⟩
    | killParked id reason next =>
      obtain ⟨g, hg, hasking⟩ := asking_resume reason next hid
      refine .inl ⟨g, mem_frames_of_next hs ?_, hasking⟩
      simp only [Frame.next, KillStage.next, Shared.exec, Mailbox.result, Mailbox.takeParked, hp]
      exact hg
    | close cur work => exact absurd (cur_mem_boxes ..) hheld
    | parkSender flow' out =>
      simp only [Mailbox.after, Mailbox.parkSender] at hnone
      split_ifs at hnone <;> simp [hp] at hnone
    | killSender a id reason next =>
      simp only [Mailbox.after, Mailbox.takeWaitingSender] at hnone
      split at hnone <;> simp [hp] at hnone
    | _ => exact absurd (Multiset.mem_singleton_self _) hheld
  · obtain ⟨rfl, ⟨timeout, rfl⟩ | ⟨wait, rfl, -⟩⟩ := hw.of_parkFilter
    · exact absurd (Multiset.mem_singleton_self _) hheld
    · exact absurd (Multiset.mem_singleton_self _) hheld

/-- A frame that holds an asker of the index gives it on, parks it, or takes it out of the
index. -/
theorem asking_step (ho : Owned s) (hindex : s.shared.askWaits.Coherent) {target asker : FlowId}
    {f : Frame} {rest : List Frame} (hasking : f.Asking target asker) {t : ℕ} {i : Input}
    (hs : s.threads t = f :: rest)
    (hmem : asker ∈ (step s (t, i)).shared.askWaits.askersOf target) :
    ParkedAsk (step s (t, i)) asker target ∨
      ∃ g ∈ (step s (t, i)).frames, g.Asking target asker := by
  have hnext : (∃ g ∈ (s.shared.exec (f.next i)).2, g.Asking target asker) →
      ∃ g ∈ (step s (t, i)).frames, g.Asking target asker :=
    fun ⟨g, hg, h⟩ => ⟨g, mem_frames_of_next hs hg, h⟩
  rw [step_shared, next_of_cons i hs] at hmem
  cases f with
  | ask stage flow wait =>
    cases stage with
    | park =>
      obtain ⟨rfl, rfl⟩ := hasking
      rcases (s.shared.mailboxes flow.id).parkFilter_cases flow wait.filter with
        ⟨hop, -, he⟩ | ⟨-, he⟩
      · refine .inr (hnext ⟨.forget { flow with pendingMessage := none }, ?_, rfl⟩)
        simp only [Frame.next, AskStage.next, Shared.exec, Mailbox.result, he, List.mem_singleton]
      · refine .inl ⟨flow, wait.requestId, ?_, ?_⟩ <;> rw [step_mail hs rfl]
        · simp only [Mailbox.after, he]
        · simp only [Mailbox.after, he]
          rfl
    | _ => exact hasking.elim
  | forget flow =>
    have hid : flow.id = asker := hasking
    exact absurd (hid ▸ hmem) (hindex.not_mem_removeAsker _ _)
  | fin stage cur work =>
    rcases hasking with ⟨rfl, hstage⟩ | hwork
    · cases stage with
      | killTake =>
        have hne : cur.id ≠ FlowId.host :=
          (ho.spawned_of_frame (mem_frames_of_cons hs) (cur_mem_boxes .killTake cur work)).1.ne'
        refine .inr (hnext ⟨.fin .sendAtRemove cur work, ?_, .inl ⟨rfl, trivial⟩⟩)
        simp only [Frame.next, FinStage.next, hne, if_false, Shared.exec, List.mem_singleton]
      | sendAtRemove =>
        exact .inr (hnext ⟨_, List.mem_singleton_self _, .inl ⟨rfl, trivial⟩⟩)
      | askRemove => exact absurd hmem (hindex.not_mem_removeAsker _ _)
      | _ => exact hstage.elim
    · obtain ⟨g, hg, hqueues⟩ := queues_fin s.shared i stage hwork
      exact .inr (hnext ⟨g, hg, hqueues.asking⟩)
  | kill stage id reason next =>
    cases next with
    | request => exact hasking.elim
    | link cur peers work =>
      have hafter : (KillAfter.link cur peers work).Queues asker := hasking
      obtain ⟨g, hg, hqueues⟩ := queues_kill s.shared stage id reason hafter
      exact .inr (hnext ⟨g, hg, hqueues.asking⟩)
  | _ => exact hasking.elim

/-- A waker was there before, or it comes from the end of `take_waiters_of` or of `park_ask`. -/
theorem waker_of_step {t : ℕ} {i : Input} {target asker : FlowId}
    (h : Waker (step s (t, i)) target asker) :
    Waker s target asker ∨
      (∃ cur work rest, s.threads t = .fin .waiters cur work :: rest ∧ cur.id = target ∧
        asker ∈ s.shared.askWaits.askersOf cur.id) ∨
      ∃ flow wait rest, s.threads t = .ask .park flow wait :: rest ∧ flow.id = asker ∧
        wait.target = target := by
  rcases h with ⟨stage, cur, work, hf, rfl, hstage⟩ | ⟨g, hg, hr⟩
  · cases step_cases s t i with
    | acts f rest w hs hi hw hσ hnew =>
      rcases hnew _ hf with hf | hl
      · exact .inl (.inl ⟨stage, cur, work, mem_frames_of_others hf, rfl, hstage⟩)
      have hprev : ∀ stage', f = .fin stage' cur work → stage'.Wakes asker →
          Waker s cur.id asker := by
        rintro stage' rfl hwakes
        exact .inl ⟨stage', cur, work, mem_frames_of_cons hs, rfl, hwakes⟩
      cases hl with
      | plain hplain => exact hplain.elim
      | finWake => exact .inr (.inl ⟨cur, work, rest, hs, rfl, hstage⟩)
      | finWakeStay => exact .inl (hprev _ rfl hstage)
      | finWakeTake hn hlive =>
        refine .inl (hprev _ rfl ?_)
        rcases hstage with rfl | hmem
        · exact List.mem_of_getElem? hn
        · exact List.mem_of_mem_eraseIdx hmem
      | finWakeSkip hn hlive => exact .inl (hprev _ rfl (List.mem_of_mem_eraseIdx hstage))
      | finTook => exact .inl (hprev _ rfl (.inr hstage))
      | _ => exact hstage.elim
    | starts w hs hw hσ hnew =>
      rcases hnew _ hf with hf | hst
      · exact .inl (.inl ⟨stage, cur, work, mem_frames_of_others hf, rfl, hstage⟩)
      · cases hst with
        | plain hplain => exact hplain.elim
  · cases step_cases s t i with
    | acts f rest w hs hi hw hσ hnew =>
      rcases hnew _ hg with hg | hl
      · exact .inl (.inr ⟨g, mem_frames_of_others hg, hr⟩)
      cases hl with
      | plain hplain => cases g <;> first | exact hplain.elim | exact hr.elim
      | askRecheck hr' => exact .inr (.inr ⟨_, _, rest, hs, hr⟩)
      | recheckTake hlive => exact .inl (.inr ⟨_, mem_frames_of_cons hs, hr⟩)
      | _ => exact hr.elim
    | starts w hs hw hσ hnew =>
      rcases hnew _ hg with hg | hst
      · exact .inl (.inr ⟨g, mem_frames_of_others hg, hr⟩)
      · cases hst with
        | plain hplain => cases g <;> first | exact hplain.elim | exact hr.elim
        | _ => exact hr.elim

namespace Traced

theorem traced_step (h : Traced s) (t : ℕ) (i : Input) {target asker : FlowId}
    (hmem : asker ∈ (Machine.step s (t, i)).shared.askWaits.askersOf target) :
    Drained (Machine.step s (t, i)) target ∨ ParkedAsk (Machine.step s (t, i)) asker target ∨
      ∃ f ∈ (Machine.step s (t, i)).frames, f.Asking target asker := by
  rcases byTarget_of_step h.index hmem with hbefore | hf
  · rcases h.traced target asker hbefore with hd | ⟨flow, requestId, hp, hfilter⟩ | ⟨f, hf, hasking⟩
    · exact .inl (hd.step h.owned t i)
    · have hunparked := @unparked_step s h.owned h.homed target asker flow hp t i
      rcases hunparked with ⟨hp', hf⟩ | hf | ⟨askers, cur, work, rest, hs⟩
      · exact .inr (.inl ⟨flow, requestId, hp', hf ▸ hfilter⟩)
      · exact .inr (.inr hf)
      · -- the finalization that wakes the asker is that of its target
        have hfin := mem_frames_of_cons hs
        obtain ⟨requestId', hf⟩ := h.wakers cur.id asker
          (.inl ⟨_, cur, work, hfin, rfl, .inl rfl⟩) flow hp
        rw [hfilter] at hf
        cases hf
        have hd : Drained s cur.id := .inr ⟨_, cur, work, hfin, rfl, trivial⟩
        exact .inl (hd.step h.owned t i)
    · rcases mem_frames_step hf t i with ⟨rest, hs⟩ | hf
      · exact .inr (asking_step h.owned h.index hasking hs hmem)
      · exact .inr (.inr ⟨f, hf, hasking⟩)
  · exact .inr (.inr hf)

/-- Nobody else wakes the askers of a flow that takes them from the index. -/
theorem not_drained_of_waiters (h : Traced s) {t : ℕ} {cur : PendingExit} {work : List PendingExit}
    {rest : List Frame} (hs : s.threads t = .fin .waiters cur work :: rest) :
    ¬Drained s cur.id := by
  have hf := mem_frames_of_cons hs
  rintro (⟨-, hdir⟩ | ⟨stage, cur', work', hf', hid, hstage⟩)
  · have hlive := h.registered.frames _ hf cur.id
      (Multiset.mem_add.mpr (.inr (Multiset.mem_add.mpr (.inl (Multiset.mem_singleton_self _)))))
    rw [hdir] at hlive
    cases hlive
  · cases h.owned.frame_unique hf hf' (cur_mem_boxes ..) (hid ▸ cur_mem_boxes ..)
    exact hstage.elim

/-- The askers that a finalization takes are parked on its flow, if they are parked. -/
theorem parkedFilter_of_waiters (h : Traced s) {t : ℕ} {cur : PendingExit}
    {work : List PendingExit} {rest : List Frame}
    (hs : s.threads t = .fin .waiters cur work :: rest) {asker : FlowId}
    (hmem : asker ∈ s.shared.askWaits.askersOf cur.id) {flow : Flow Hop}
    (hp : (s.shared.mailboxes asker).parked = some flow) :
    ∃ requestId, (s.shared.mailboxes asker).parkedFilter = .ask requestId cur.id := by
  rcases h.traced cur.id asker hmem with hd | ⟨-, requestId, -, hfilter⟩ | ⟨f, hf, hasking⟩
  · exact absurd hd (h.not_drained_of_waiters hs)
  · exact ⟨requestId, hfilter⟩
  · rw [h.owned.parked_none h.homed hf hasking.mem_boxes] at hp
    cases hp

/-- **A step keeps the wakers at the asks they belong to**, if it parks for them. -/
theorem step (h : Traced s) (ti : ℕ × Input) (hparks : ParksForWakers s ti) :
    Traced (Machine.step s ti) := by
  obtain ⟨t, i⟩ := ti
  refine ⟨h.owned.step _, h.homed.step _, h.registered.step h.owned _, coherent_step h.coherent _,
    index_step h.index _, fun target asker hmem => h.traced_step t i hmem,
    fun target asker hwaker flow hp => ?_⟩
  rcases parked_step hp with ⟨hp, hsame⟩ | ⟨rfl, hpark⟩
  · rw [hsame]
    rcases waker_of_step hwaker with hwaker | ⟨cur, work, rest, hs, rfl, hmem⟩ |
      ⟨flow', wait, rest, hs, rfl, -⟩
    · exact h.wakers target asker hwaker flow hp
    · exact h.parkedFilter_of_waiters hs hmem hp
    · rw [h.owned.parked_none h.homed (mem_frames_of_cons hs) (Multiset.mem_singleton_self _)] at hp
      cases hp
  · rcases waker_of_step hwaker with hwaker | ⟨cur, work, rest, hs, -⟩ |
      ⟨flow', wait, rest, hs, -, rfl⟩
    · exact hparks _ hpark target hwaker
    all_goals obtain ⟨-, f, rest', hs', ⟨timeout, rfl⟩ | ⟨wait', rfl, hfilter⟩⟩ := parks_cases hpark
    all_goals
      rw [hs] at hs'
      cases hs'
    exact ⟨wait.requestId, hfilter⟩

/-- An asker that is resumed with the exit of a target waits in an `Ask` to it. -/
theorem exitWake (h : Traced s) {ti : ℕ × Input} {asker : FlowId} {hop : Message}
    (hwake : Machine.exitWake s ti = some (asker, hop)) :
    ∃ requestId, (s.shared.mailboxes asker).parkedFilter = .ask requestId hop.sender := by
  unfold Machine.exitWake at hwake
  split at hwake
  · rename_i a askers cur work rest hs
    split_ifs at hwake with hp
    cases hwake
    obtain ⟨flow, hp⟩ := Option.isSome_iff_exists.mp hp
    have hlist : OnList s cur.id asker := ⟨_, cur, work, mem_frames_of_cons hs, rfl, .inl rfl⟩
    exact h.wakers cur.id asker (.inl hlist) flow hp
  · rename_i a wait rest hs
    split_ifs at hwake with hp
    cases hwake
    obtain ⟨flow, hp⟩ := Option.isSome_iff_exists.mp hp
    exact h.wakers wait.target asker (.inr ⟨_, mem_frames_of_cons hs, rfl, rfl⟩) flow hp
  · cases hwake

end Traced

/-- **When a wake hits its own `Ask`.** In a run that parks for the wakers, an asker that is resumed
with the exit of a target waits in an `Ask` to that target. -/
theorem exit_wake_own_ask (config : MailboxConfig) (sched : List (ℕ × Input))
    (hparks : Schedule.Guarded step ParksForWakers (State.init config) sched) (ti : ℕ × Input)
    (asker : FlowId) (hop : Message) (hwake : exitWake (run config sched) ti = some (asker, hop)) :
    ∃ requestId,
      ((run config sched).shared.mailboxes asker).parkedFilter = .ask requestId hop.sender :=
  have hinv : Traced (run config sched) :=
    hparks.invariant (fun _ ti hti h => h.step ti hti) (traced_init config)
  hinv.exitWake hwake

/-- Flow 2 is gone before flow 1 parks; the end of its `park_ask` is about to wake it. -/
def parksAfterExit : List (ℕ × Input) := askThenComplete ++ steps 1 15 ++ steps 0 3

theorem exit_wake_own_ask_gone :
    ∃ requestId,
      ((run .default parksAfterExit).shared.mailboxes 1).parkedFilter = .ask requestId 2 :=
  have hbefore : Schedule.Guarded step (ParksBeforeWakers [0, 1]) (State.init .default)
      parksAfterExit := by
    decide +kernel
  exit_wake_own_ask .default parksAfterExit (forWakers_of_parksBeforeWakers hbefore) (0, .pick 0) 1
    (.linkedExit 2 FlowExitReason.fault.asU64) (by decide +kernel)

/-- Flow 1 asks flow 2 and parks. Flow 2 answers, which wakes flow 1, and completes; the end of
flow 1's `park_ask` finds it gone. Flow 1 parks again, in a `Receive`. -/
def receivesAfterAnswer : List (ℕ × Input) :=
  askThenComplete.dropLast ++ steps 0 2 ++ [(1, .vm (.send 1 (.new 2 7 0 .unit) CapId.none))] ++
    steps 1 4 ++ [(1, .vm (.complete .unit))] ++ steps 1 15 ++ steps 0 1 ++
    [(2, .start (.work 0)), (2, .pick 0), (2, .vm (.receive 0 none none none))] ++ steps 2 2

/-- The exit of flow 2 ends the `Receive`. -/
theorem exit_wakes_receive :
    ¬∀ (config : MailboxConfig) (sched : List (ℕ × Input)) (ti : ℕ × Input) (asker : FlowId)
      (hop : Message), exitWake (run config sched) ti = some (asker, hop) →
        ∃ requestId,
          ((run config sched).shared.mailboxes asker).parkedFilter = .ask requestId hop.sender := by
  intro hall
  obtain ⟨requestId, hfilter⟩ := hall .default receivesAfterAnswer (0, .pick 0) 1
    (.linkedExit 2 FlowExitReason.fault.asU64) (by decide +kernel)
  have hany : ((run .default receivesAfterAnswer).shared.mailboxes 1).parkedFilter = .any := by
    decide +kernel
  rw [hany] at hfilter
  cases hfilter

end Machine

end Byteflow
