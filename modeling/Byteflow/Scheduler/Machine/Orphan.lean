import Byteflow.Scheduler.Machine.Ask

/-!
# Asks that outlive their target

The finalization of a target takes the askers out of the index some time before the target leaves
the directory. An asker that enters the index in between is on no list, and its own look at the
directory still finds the target. In a run in which no `park_ask` ends so (`LooksInTime`), no flow
stays parked on an `Ask` to a flow that was finalized (`no_orphaned_ask`).
-/

namespace Byteflow

namespace Machine

variable {s : State}

/-- A `park_ask` that finds its target live leaves the asker to a finalization that is still to
take the askers or has it on its list, or to another look. -/
def LooksInTime (s : State) (ti : ℕ × Input) : Prop :=
  match s.threads ti.1 with
  | .askRecheck asker wait _ :: _ =>
    s.shared.directory wait.target = true → ParkedAsk s asker wait.target →
      ¬Drained s wait.target ∨ OnList s wait.target asker ∨
        ∃ f ∈ s.others ti.1, f.Rechecks wait.target asker
  | _ => True

/-- A `park_ask` that looks finds its target gone. -/
def LooksLate (s : State) (ti : ℕ × Input) : Prop :=
  match s.threads ti.1 with
  | .askRecheck _ wait _ :: _ => s.shared.directory wait.target = false
  | _ => True

instance (s : State) (ti : ℕ × Input) : Decidable (LooksLate s ti) := by
  delta LooksLate
  generalize s.threads ti.1 = frames
  induction frames using List.casesOn with
  | nil => exact inferInstanceAs (Decidable True)
  | cons f rest => induction f using Frame.casesOn <;> dsimp only <;> infer_instance

theorem LooksLate.inTime {s : State} {ti : ℕ × Input} (h : LooksLate s ti) : LooksInTime s ti := by
  unfold LooksLate at h
  unfold LooksInTime
  split
  · rename_i hs
    rw [hs] at h
    intro hlive
    rw [h] at hlive
    cases hlive
  · trivial

/-- What a run with looks in time preserves. -/
structure Attended (s : State) : Prop where
  owned : Owned s
  homed : Homed s
  registered : Registered s
  coherent : ∀ f ∈ s.frames, f.Coherent
  /-- Before the target is drained, its askers are in the index. -/
  parking : ∀ flow wait, .ask .park flow wait ∈ s.frames → ¬Drained s wait.target →
    flow.id ∈ s.shared.askWaits.askersOf wait.target
  indexed : ∀ asker target, ParkedAsk s asker target → ¬Drained s target →
    asker ∈ s.shared.askWaits.askersOf target
  /-- After that, somebody is about to wake them. -/
  attended : ∀ asker target, ParkedAsk s asker target →
    ¬Drained s target ∨ OnList s target asker ∨ Rechecks s target asker

theorem attended_init (config : MailboxConfig) : Attended (State.init config) where
  owned := owned_init config
  homed := homed_init config
  registered := registered_init config
  coherent := fun _ hf => by obtain ⟨t, hf⟩ := hf; cases hf
  parking := fun _ _ hf => by obtain ⟨t, hf⟩ := hf; cases hf
  indexed := by
    rintro asker target ⟨flow, requestId, hp, -⟩
    cases hp
  attended := by
    rintro asker target ⟨flow, requestId, hp, -⟩
    cases hp

/-- A flow parked on an `Ask` was so before, or its `park_ask` parks it. -/
theorem parkedAsk_of_step (hcoh : ∀ f ∈ s.frames, f.Coherent) {t : ℕ} {i : Input}
    {asker target : FlowId} (h : ParkedAsk (step s (t, i)) asker target) :
    ParkedAsk s asker target ∨ ∃ flow wait rest epoch,
      s.threads t = .ask .park flow wait :: rest ∧ flow.id = asker ∧ wait.target = target ∧
        .askRecheck asker wait epoch ∈ (step s (t, i)).frames := by
  obtain ⟨flow, requestId, hp, hfilter⟩ := h
  rcases parked_step hp with ⟨hp, hsame⟩ | ⟨rfl, hparks⟩
  · exact .inl ⟨flow, requestId, hp, hsame ▸ hfilter⟩
  rw [hfilter] at hparks
  obtain ⟨hnone, f, rest, hs, ⟨timeout, rfl⟩ | ⟨wait, rfl, hwait⟩⟩ := parks_cases hparks
  · exact absurd rfl (hcoh _ (mem_frames_of_cons hs) requestId target)
  · have htarget : wait.target = target := by
      unfold AskWait.filter WaitFilter.ask at hwait
      cases hwait
      rfl
    rw [hwait] at hnone
    rcases (s.shared.mailboxes flow.id).parkFilter_cases flow wait.filter with
      ⟨v, hv, -⟩ | ⟨-, he⟩
    · rw [hnone] at hv
      cases hv
    · refine .inr ⟨flow, wait, rest, ⟨(s.shared.mailboxes flow.id).waitEpoch + 1⟩, hs, rfl,
        htarget, mem_frames_of_next hs ?_⟩
      simp only [Frame.next, AskStage.next, Shared.exec, Mailbox.result, he, List.mem_singleton]

/-- An asker that is parked is in the hands of no frame. -/
theorem ParkedAsk.not_held (ho : Owned s) (hhome : Homed s) {asker target : FlowId}
    (h : ParkedAsk s asker target) {f : Frame} (hf : f ∈ s.frames) : asker ∉ f.boxes := by
  obtain ⟨flow, -, hp, -⟩ := h
  intro ha
  rw [ho.parked_none hhome hf ha] at hp
  cases hp

/-- A finalization keeps an asker on its list as long as the asker stays parked. -/
theorem OnList.keeps (hhome : Homed s) (hreg : Registered s) {t : ℕ} {i : Input}
    {asker target : FlowId} (hp : ParkedAsk s asker target)
    (hp' : ParkedAsk (Machine.step s (t, i)) asker target) (h : OnList s target asker) :
    OnList (Machine.step s (t, i)) target asker := by
  obtain ⟨flow, -, hparked, -⟩ := hp
  rcases h.step t i with hl | hdir | hnone
  · exact hl
  · have hlive := hreg.mailboxes asker _ (Mailbox.mem_boxes_of_parked hparked)
    rw [hhome asker flow hparked, hdir] at hlive
    cases hlive
  · obtain ⟨flow', -, hparked', -⟩ := hp'
    rw [hnone] at hparked'
    cases hparked'

/-- A look that is still to come stays so, unless it finds the target live. -/
theorem Rechecks.keeps {t : ℕ} {i : Input} {asker target : FlowId}
    (hp' : ParkedAsk (step s (t, i)) asker target) (h : Rechecks s target asker) :
    Rechecks (step s (t, i)) target asker ∨ ∃ wait epoch rest,
      s.threads t = .askRecheck asker wait epoch :: rest ∧ wait.target = target ∧
        s.shared.directory wait.target = true := by
  obtain ⟨f, hf, hr⟩ := h
  rcases top_or_others hf t with ⟨rest, hs⟩ | hf
  · cases f with
    | askRecheck a wait epoch =>
      obtain ⟨rfl, rfl⟩ := hr
      cases hlive : s.shared.directory wait.target with
      | true => exact .inr ⟨wait, epoch, rest, hs, rfl, hlive⟩
      | false =>
        refine .inl ⟨.askTake a wait, mem_frames_of_next hs ?_, rfl, rfl⟩
        simp only [Frame.next, Shared.exec, hlive, if_false, Bool.false_eq_true,
          List.mem_singleton]
    | askTake a wait =>
      obtain ⟨rfl, rfl⟩ := hr
      obtain ⟨flow, -, hparked, -⟩ := hp'
      rw [step_mail hs rfl] at hparked
      cases hparked
    | _ => exact hr.elim
  · exact .inl ⟨f, mem_frames_of_others_step hf i, hr⟩

namespace Attended

/-- **A step attends to the askers**, if it looks in time. -/
theorem step (h : Attended s) (ti : ℕ × Input) (hlooks : LooksInTime s ti) :
    Attended (Machine.step s ti) := by
  obtain ⟨t, i⟩ := ti
  have hundrained : ∀ target, ¬Drained (Machine.step s (t, i)) target → ¬Drained s target :=
    fun target hno hd => hno (hd.step h.owned t i)
  refine ⟨h.owned.step _, h.homed.step _, h.registered.step h.owned _, coherent_step h.coherent _,
    fun flow wait hf hno => ?_, fun asker target hp hno => ?_, fun asker target hp => ?_⟩
  · cases step_cases s t i with
    | acts f rest w hs hi hw hσ hnew =>
      rcases hnew _ hf with hf | hl
      · have hmem := h.parking flow wait (mem_frames_of_others hf) (hundrained _ hno)
        refine indexed_of_not_drained hmem ?_ hno
        intro f' rest' hs' ha
        exact h.owned.others_not_mem hs' hf ha (Multiset.mem_singleton_self _)
      · cases hl with
        | plain hplain => exact hplain.elim
        | insertPark hinserted =>
          subst hi
          rw [hσ.askWaits]
          exact AskWaitIndex.mem_insert.mpr (.inr ⟨hinserted, rfl, rfl⟩)
    | starts w hs hw hσ hnew =>
      rcases hnew _ hf with hf | hst
      · have hmem := h.parking flow wait (mem_frames_of_others hf) (hundrained _ hno)
        refine indexed_of_not_drained hmem ?_ hno
        intro f' rest' hs' ha
        exact h.owned.others_not_mem hs' hf ha (Multiset.mem_singleton_self _)
      · cases hst with
        | plain hplain => exact hplain.elim
  · rcases parkedAsk_of_step h.coherent hp with hp | ⟨flow, wait, rest, epoch, hs, rfl, rfl, -⟩
    · exact indexed_of_not_drained (h.indexed asker target hp (hundrained _ hno))
        (fun f rest hs => hp.not_held h.owned h.homed (mem_frames_of_cons hs)) hno
    · have hmem := h.parking flow wait (mem_frames_of_cons hs) (hundrained _ hno)
      rw [step_shared, next_of_cons i hs]
      exact hmem
  · rcases parkedAsk_of_step h.coherent hp with hp' | ⟨flow, wait, rest, epoch, hs, rfl, rfl, hf⟩
    · -- whoever attended to the asker before the step still does
      have hlist : OnList s target asker → OnList (Machine.step s (t, i)) target asker :=
        OnList.keeps h.homed h.registered hp' hp
      have hdrained : ¬Drained s target →
          ¬Drained (Machine.step s (t, i)) target ∨
            OnList (Machine.step s (t, i)) target asker := by
        intro hno
        by_cases hd : Drained (Machine.step s (t, i)) target
        · rcases drained_of_step hd with hd | ⟨cur, work, rest, hs, hid, hf⟩
          · exact absurd hd hno
          · exact .inr ⟨_, cur, work, hf, hid, h.indexed asker target hp' hno⟩
        · exact .inl hd
      rcases h.attended asker target hp' with hno | hl | hr
      · rcases hdrained hno with hno | hl
        · exact .inl hno
        · exact .inr (.inl hl)
      · exact .inr (.inl (hlist hl))
      · rcases hr.keeps hp with hr | ⟨wait, epoch, rest, hs, rfl, hlive⟩
        · exact .inr (.inr hr)
        unfold LooksInTime at hlooks
        rw [hs] at hlooks
        rcases hlooks hlive hp' with hno | hl | ⟨f, hf, hr⟩
        · rcases hdrained hno with hno | hl
          · exact .inl hno
          · exact .inr (.inl hl)
        · exact .inr (.inl (hlist hl))
        · exact .inr (.inr ⟨f, mem_frames_of_others_step hf i, hr⟩)
    · exact .inr (.inr ⟨_, hf, rfl, rfl⟩)

end Attended

/-- The frame is part of a `park_ask` or of a finalization. -/
def Frame.AskOrFinalize : Frame → Prop
  | .ask _ _ _ => True
  | .askRecheck _ _ _ => True
  | .askTake _ _ => True
  | .fin _ _ _ => True
  | _ => False

theorem not_askOrFinalize_of_running {f : Frame} (h : f.Running) : ¬f.AskOrFinalize := by
  cases f <;> first | exact fun h => h | exact h.elim

/-- **When no `Ask` outlives its target.** In a run with looks in time, in a state in which no
`park_ask` and no finalization is in progress, no flow is parked on an `Ask` to a flow that was
finalized. -/
theorem no_orphaned_ask (config : MailboxConfig) (sched : List (ℕ × Input))
    (hlooks : Schedule.Guarded step LooksInTime (State.init config) sched)
    (hquiet : ∀ f ∈ (run config sched).frames, ¬f.AskOrFinalize) (asker target : FlowId)
    (hgone : Finalized (run config sched) target) : ¬ParkedAsk (run config sched) asker target := by
  intro hp
  have hinv : Attended (run config sched) :=
    hlooks.invariant (fun s ti hti h => h.step ti hti) (attended_init config)
  rcases hinv.attended asker target hp with hno | ⟨stage, cur, work, hf, -⟩ | ⟨f, hf, hr⟩
  · exact hno (.inl hgone)
  · exact hquiet _ hf trivial
  · refine hquiet f hf ?_
    cases f <;> trivial

/-- Flow 1 asks flow 2, up to the entry in the index; flow 2 then completes. -/
def askThenComplete : List (ℕ × Input) :=
  [(0, .start .spawn), (0, .pick 0), (0, .start .spawn), (0, .pick 0), (0, .start (.work 1)),
    (0, .pick 0), (1, .start (.work 0)), (1, .pick 0),
    (0, .vm (.ask 0 2 (.new 1 7 0 .unit) CapId.none none)), (0, .pick 0), (0, .pick 0),
    (0, .pick 0), (1, .vm (.complete .unit))]

/-- Flow 2 is gone before flow 1 enters the index, parks and looks. -/
def looksAfterExit : List (ℕ × Input) := askThenComplete ++ steps 1 15 ++ steps 0 6

theorem no_orphaned_ask_exit : ¬ParkedAsk (run .default looksAfterExit) 1 2 :=
  have hlate : Schedule.Guarded step LooksLate (State.init .default) looksAfterExit := by
    decide +kernel
  have hsettled : Settled (run .default looksAfterExit) := settled_of_scheduled (by decide +kernel)
  no_orphaned_ask .default looksAfterExit (hlate.mono fun _ _ h => h.inTime)
    (fun f hf => not_askOrFinalize_of_running (hsettled f hf)) 1 2 (by decide +kernel)

/-- Flow 1 enters the index after flow 2 took its askers, and looks before flow 2 leaves. -/
def looksTooEarly : List (ℕ × Input) := askThenComplete ++ steps 1 7 ++ steps 0 3 ++ steps 1 8

theorem ask_orphaned :
    ¬∀ (config : MailboxConfig) (sched : List (ℕ × Input)), Settled (run config sched) →
      ∀ asker target, Finalized (run config sched) target →
        ¬ParkedAsk (run config sched) asker target := by
  intro hall
  have hsettled : Settled (run .default looksTooEarly) := settled_of_scheduled (by decide +kernel)
  exact hall .default looksTooEarly hsettled 1 2 (by decide +kernel)
    ⟨{ Flow.new 1 with lastReceiveDest := some 0 }, 7, by decide +kernel, by decide +kernel⟩

end Machine

end Byteflow
