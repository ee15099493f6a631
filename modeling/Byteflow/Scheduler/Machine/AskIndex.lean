import Byteflow.Scheduler.Machine.Sound
import Byteflow.Scheduler.Machine.Stray

/-!
# The ask index and the flows that are parked

`AskWaitIndex` is to have an asker under a target exactly while the asker is parked on an `Ask` to
that target. Every waker calls `remove_asker`, but for `wake_orphaned_asks`, whose `take_waiters_of`
has emptied the index long before it unparks: the asker may be there again, with its next `Ask`,
and the entry of an asker that parks after it was looked for is gone. In a run where no wake finds
such an entry and no look misses one (`KeepsIndex`), the index tells the truth, and no `Ask` is
refused for an older one (`ask_index_truthful`).
-/

namespace Byteflow

namespace Machine

variable {s : State}

/-- A finalization unparks no asker that is in the index, and a `park_ask` that finds its target
live leaves the asker in the index, on the list of a finalization, or to another look. -/
def KeepsIndex (s : State) (ti : ℕ × Input) : Prop :=
  match s.threads ti.1 with
  | .fin (.wakeTake asker _) _ _ :: _ =>
    (s.shared.mailboxes asker).parked.isSome → s.shared.askWaits.byAsker asker = none
  | .askRecheck asker wait _ :: _ =>
    s.shared.directory wait.target = true → ParkedAsk s asker wait.target →
      asker ∈ s.shared.askWaits.askersOf wait.target ∨ OnList s wait.target asker ∨
        ∃ f ∈ s.others ti.1, f.Rechecks wait.target asker
  | _ => True

/-- A `park_ask` that finds its target live finds its own entry, too. -/
def FindsEntry (s : State) (ti : ℕ × Input) : Prop :=
  match s.threads ti.1 with
  | .fin (.wakeTake asker _) _ _ :: _ =>
    (s.shared.mailboxes asker).parked.isSome → s.shared.askWaits.byAsker asker = none
  | .askRecheck asker wait _ :: _ =>
    s.shared.directory wait.target = true → asker ∈ s.shared.askWaits.askersOf wait.target
  | _ => True

instance (s : State) (ti : ℕ × Input) : Decidable (FindsEntry s ti) := by
  delta FindsEntry
  generalize s.threads ti.1 = frames
  induction frames using List.casesOn with
  | nil => exact inferInstanceAs (Decidable True)
  | cons f rest =>
    induction f using Frame.casesOn with
    | fin stage cur work => induction stage using FinStage.casesOn <;> dsimp only <;> infer_instance
    | _ =>
      dsimp only
      infer_instance

theorem FindsEntry.keepsIndex {s : State} {ti : ℕ × Input} (h : FindsEntry s ti) :
    KeepsIndex s ti := by
  unfold FindsEntry at h
  unfold KeepsIndex
  split
  · rename_i hs
    rwa [hs] at h
  · rename_i hs
    rw [hs] at h
    exact fun hlive _ => .inl (h hlive)
  · trivial

/-- What a run that keeps the index preserves. -/
structure Truthful (s : State) : Prop where
  sound : Sound s
  index : s.shared.askWaits.Coherent
  complete : s.shared.askWaits.Complete
  /-- An asker in the index is parked, or about to be, or about to leave the index. -/
  traced : ∀ target, ∀ asker ∈ s.shared.askWaits.askersOf target,
    ParkedAsk s asker target ∨ ∃ f ∈ s.frames, f.Asking target asker
  /-- An asker that is parked is in the index, or about to be woken. -/
  indexed : ∀ asker target, ParkedAsk s asker target →
    asker ∈ s.shared.askWaits.askersOf target ∨ Waker s target asker

theorem truthful_init (config : MailboxConfig) : Truthful (State.init config) where
  sound := sound_init config
  index := AskWaitIndex.coherent_new
  complete := AskWaitIndex.Complete.new
  traced := fun _ _ ha => by cases ha
  indexed := by
    rintro asker target ⟨flow, requestId, hp, -⟩
    cases hp

theorem complete_step (h : s.shared.askWaits.Complete) (ti : ℕ × Input) :
    (step s ti).shared.askWaits.Complete := by
  cases step_cases s ti.1 ti.2 with
  | acts f rest w hs hi hw hσ hnew =>
    rw [hσ.askWaits]
    cases w with
    | askInsert asker target requestId => exact h.insert _ _ _
    | askRemove asker => exact h.removeAsker _
    | askTake target => exact h.takeWaitersOf _
    | _ => exact h
  | starts w hs hw hσ hnew =>
    rw [hσ.askWaits]
    cases hw <;> exact h

/-- An asker in the hands of no frame stays in the index, or gets on the list of a finalization. -/
theorem listed_step {asker target : FlowId} (h : asker ∈ s.shared.askWaits.askersOf target)
    {t : ℕ} {i : Input} (hheld : ∀ f rest, s.threads t = f :: rest → asker ∉ f.boxes) :
    asker ∈ (step s (t, i)).shared.askWaits.askersOf target ∨
      OnList (step s (t, i)) target asker := by
  refine (byTarget_step h hheld).imp_right ?_
  rintro ⟨cur, work, rest, hs, rfl⟩
  refine ⟨_, cur, work, mem_frames_of_next hs (List.mem_singleton_self _), rfl, ?_⟩
  show asker ∈ (s.shared.askWaits.takeWaitersOf cur.id).2
  rwa [AskWaitIndex.takeWaitersOf_snd]

namespace Truthful

theorem traced_step (h : Truthful s) (t : ℕ) (i : Input) (hkeeps : KeepsIndex s (t, i))
    {target asker : FlowId}
    (hmem : asker ∈ (Machine.step s (t, i)).shared.askWaits.askersOf target) :
    ParkedAsk (Machine.step s (t, i)) asker target ∨
      ∃ f ∈ (Machine.step s (t, i)).frames, f.Asking target asker := by
  have ho := h.sound.owned
  rcases byTarget_of_step h.index hmem with hbefore | hf
  · rcases h.traced target asker hbefore with ⟨flow, requestId, hp, hfilter⟩ | ⟨f, hf, hasking⟩
    · have hunparked := @unparked_step s ho h.sound.homed target asker flow hp t i
      rcases hunparked with ⟨hp', hf⟩ | hf | ⟨askers, cur, work, rest, hs⟩
      · exact .inl ⟨flow, requestId, hp', hf ▸ hfilter⟩
      · exact .inr hf
      · -- the asker would have to be out of the index
        unfold KeepsIndex at hkeeps
        rw [hs] at hkeeps
        have hnone := hkeeps (by rw [hp]; rfl)
        rw [(h.index asker target hbefore).1] at hnone
        cases hnone
    · rcases mem_frames_step hf t i with ⟨rest, hs⟩ | hf
      · exact asking_step ho h.index hasking hs hmem
      · exact .inr ⟨f, hf, hasking⟩
  · exact .inr hf

theorem indexed_step (h : Truthful s) (t : ℕ) (i : Input) (hkeeps : KeepsIndex s (t, i))
    {asker target : FlowId} (hp : ParkedAsk (Machine.step s (t, i)) asker target) :
    asker ∈ (Machine.step s (t, i)).shared.askWaits.askersOf target ∨
      Waker (Machine.step s (t, i)) target asker := by
  have ho := h.sound.owned
  rcases parkedAsk_of_step h.sound.coherent hp with
    hp' | ⟨flow, wait, rest, epoch, hs, rfl, rfl, hf⟩
  · have hindex : asker ∈ s.shared.askWaits.askersOf target →
        asker ∈ (Machine.step s (t, i)).shared.askWaits.askersOf target ∨
          Waker (Machine.step s (t, i)) target asker := fun hmem =>
      (listed_step hmem fun f rest hs => hp'.not_held ho h.sound.homed
        (mem_frames_of_cons hs)).imp_right .inl
    have hlist : OnList s target asker → OnList (Machine.step s (t, i)) target asker :=
      OnList.keeps h.sound.homed h.sound.registered hp' hp
    rcases h.indexed asker target hp' with hmem | hl | hr
    · exact hindex hmem
    · exact .inr (.inl (hlist hl))
    · rcases hr.keeps hp with hr | ⟨wait, epoch, rest, hs, rfl, hlive⟩
      · exact .inr (.inr hr)
      unfold KeepsIndex at hkeeps
      rw [hs] at hkeeps
      rcases hkeeps hlive hp' with hmem | hl | ⟨f, hf, hr⟩
      · exact hindex hmem
      · exact .inr (.inl (hlist hl))
      · exact .inr (.inr ⟨f, mem_frames_of_others_step hf i, hr⟩)
  · exact .inr (.inr ⟨_, hf, rfl, rfl⟩)

/-- **A step keeps the index true**, if no wake leaves an entry behind. -/
theorem step (h : Truthful s) (ti : ℕ × Input) (hkeeps : KeepsIndex s ti) :
    Truthful (Machine.step s ti) where
  sound := h.sound.step ti
  index := index_step h.index ti
  complete := complete_step h.complete ti
  traced := fun _ _ hmem => h.traced_step ti.1 ti.2 hkeeps hmem
  indexed := fun _ _ hp => h.indexed_step ti.1 ti.2 hkeeps hp

/-- The index has no entry of a flow that is about to enter it. -/
theorem not_asking (h : Truthful s) {flow : Flow Hop} {wait : AskWait}
    (hf : .ask .insert flow wait ∈ s.frames) : s.shared.askWaits.requestIds flow.id = none := by
  rw [← Option.not_isSome_iff_eq_none]
  intro hreq
  obtain ⟨target, hby⟩ := Option.isSome_iff_exists.mp (h.complete.asking _ hreq)
  have hheld : flow.id ∈ (Frame.ask .insert flow wait).boxes := Multiset.mem_singleton_self _
  rcases h.traced target _ (h.complete.listed _ _ hby) with hp | ⟨g, hg, hasking⟩
  · exact hp.not_held h.sound.owned h.sound.homed hf hheld
  · cases h.sound.owned.frame_unique hg hf hasking.mem_boxes hheld
    exact hasking

end Truthful

/-- The frame is part of an operation that begins or ends an `Ask`. -/
def Frame.TouchesAsk : Frame → Prop
  | .ask _ _ _ => True
  | .askRecheck _ _ _ => True
  | .askTake _ _ => True
  | .forget _ => True
  | .fin _ _ _ => True
  | .kill _ _ _ _ => True
  | _ => False

theorem not_touchesAsk_of_running {f : Frame} (h : f.Running) : ¬f.TouchesAsk := by
  cases f <;> first | exact fun h => h | exact h.elim

/-- **When the ask index tells the truth.** In a run that keeps the index, an asker has a target
exactly while it is parked on an `Ask` to it, whenever no operation on either is in progress, and
no flow is refused for an `Ask` in flight. -/
theorem ask_index_truthful (config : MailboxConfig) (sched : List (ℕ × Input))
    (hkeeps : Schedule.Guarded step KeepsIndex (State.init config) sched) :
    ((∀ f ∈ (run config sched).frames, ¬f.TouchesAsk) → ∀ asker target,
        (run config sched).shared.askWaits.byAsker asker = some target ↔
          ParkedAsk (run config sched) asker target) ∧
      ∀ flow wait, .ask .insert flow wait ∈ (run config sched).frames →
        ((run config sched).shared.askWaits.insert flow.id wait.target wait.requestId).2 =
          true := by
  have hinv : Truthful (run config sched) :=
    hkeeps.invariant (fun s ti hti h => h.step ti hti) (truthful_init config)
  refine ⟨fun hquiet asker target => ⟨fun hby => ?_, fun hp => ?_⟩, fun flow wait hf => ?_⟩
  · rcases hinv.traced target asker (hinv.complete.listed _ _ hby) with hp | ⟨f, hf, hasking⟩
    · exact hp
    · refine absurd ?_ (hquiet f hf)
      cases f <;> trivial
  · rcases hinv.indexed asker target hp with hmem | ⟨stage, cur, work, hf, -⟩ | ⟨f, hf, hr⟩
    · exact (hinv.index asker target hmem).1
    · exact absurd trivial (hquiet _ hf)
    · refine absurd ?_ (hquiet f hf)
      cases f <;> trivial
  · simp [AskWaitIndex.insert, hinv.not_asking hf]

/-- Flow 1 asks flow 2 and parks; its deadline is armed. Flow 3 is runnable. -/
def askAndPark : List (ℕ × Input) :=
  [(0, .start .spawn), (0, .pick 0), (0, .start .spawn), (0, .pick 0), (0, .start .spawn),
    (0, .pick 0), (0, .start (.work 2)), (0, .pick 0), (1, .start (.work 1)), (1, .pick 0),
    (0, .vm (.ask 0 2 (.new 1 7 0 .unit) CapId.none (some 5)))] ++ steps 0 7

theorem ask_index_truthful_parked : ParkedAsk (run .default askAndPark) 1 2 :=
  have hfinds : Schedule.Guarded step FindsEntry (State.init .default) askAndPark := by
    decide +kernel
  have hsettled : Settled (run .default askAndPark) := settled_of_scheduled (by decide +kernel)
  ((ask_index_truthful .default askAndPark (hfinds.mono fun _ _ h => h.keepsIndex)).1
    (fun f hf => not_touchesAsk_of_running (hsettled f hf)) 1 2).mp (by decide +kernel)

/-- Flow 2 completes and takes flow 1 out of the index. The deadline of flow 1 fires, flow 1 asks
flow 3 and parks, and the finalization of flow 2 unparks it. -/
def wokenOutOfNextAsk : List (ℕ × Input) :=
  askAndPark ++ [(1, .vm (.complete .unit))] ++ steps 1 8 ++ [(2, .start (.fire 0))] ++ steps 2 3 ++
    [(0, .start (.work 0)), (0, .pick 0), (0, .vm (.ask 0 3 (.new 1 8 0 .unit) CapId.none none))] ++
    steps 0 6 ++ steps 1 10

/-- Flow 1 asks flow 3 again, up to its entry in the index. -/
def asksOnceMore : List (ℕ × Input) :=
  wokenOutOfNextAsk ++
    [(0, .start (.work 0)), (0, .pick 0), (0, .vm (.ask 0 3 (.new 1 9 0 .unit) CapId.none none))] ++
    steps 0 3

/-- The entry of the second `Ask` stays, and the third is refused. -/
theorem stale_ask_index :
    (¬∀ (config : MailboxConfig) (sched : List (ℕ × Input)), Settled (run config sched) →
      ∀ asker target, (run config sched).shared.askWaits.byAsker asker = some target →
        ParkedAsk (run config sched) asker target) ∧
      ¬∀ (config : MailboxConfig) (sched : List (ℕ × Input)) (t : ℕ) flow wait rest,
        (run config sched).threads t = .ask .insert flow wait :: rest →
          ((run config sched).shared.askWaits.insert flow.id wait.target wait.requestId).2 =
            true := by
  refine ⟨fun hall => ?_, fun hall => ?_⟩
  · have hsettled : Settled (run .default wokenOutOfNextAsk) :=
      settled_of_scheduled (by decide +kernel)
    obtain ⟨flow, requestId, hp, -⟩ :=
      hall .default wokenOutOfNextAsk hsettled 1 3 (by decide +kernel)
    have hnone : ((run .default wokenOutOfNextAsk).shared.mailboxes 1).parked = none := by
      decide +kernel
    rw [hnone] at hp
    cases hp
  · have h := hall .default asksOnceMore 0 { Flow.new 1 with lastReceiveDest := some 0 }
      ⟨0, 9, 3, none⟩ [] (by decide +kernel)
    revert h
    decide +kernel

end Machine

end Byteflow
