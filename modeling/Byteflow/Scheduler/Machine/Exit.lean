import Byteflow.Scheduler.Machine.Sound
import Byteflow.Scheduler.Machine.Ask

/-!
# How far an exit has come

A finalization takes its flow out of the directory and then empties one table after the other: the
monitors that the flow owns, its names, the monitors that watch it, its links. Until it has been
through a stage (`ToPass`), an entry of the flow in the table of that stage is taken care of. From
`unregister` on the flow is gone (`Left`).
-/

namespace Byteflow

namespace Machine

variable {s : State}

/-- The stages in the order of `finalize_one`. -/
def FinStage.order : FinStage → ℕ
  | .killTake => 0
  | .sendAtRemove => 1
  | .askRemove => 2
  | .lookup => 3
  | .close => 4
  | .senders _ => 5
  | .waiters => 6
  | .wake _ => 7
  | .wakeTake _ _ => 7
  | .revoke => 8
  | .unregister => 9
  | .owned => 10
  | .names => 11
  | .notify => 12
  | .downs _ => 13
  | .links => 14
  | .peers _ => 15

/-- The flow is registered, or its finalization is at the stage or before it. -/
def ToPass (last : FinStage) (s : State) (id : FlowId) : Prop :=
  s.shared.directory id = true ∨
    ∃ stage cur work, .fin stage cur work ∈ s.frames ∧ cur.id = id ∧ stage.order ≤ last.order

/-- A finalization goes on to the next stage. -/
theorem fin_advances {σ : Shared} {i : Input} {stage : FinStage} {cur : PendingExit}
    {work : List PendingExit} (hhost : cur.id ≠ FlowId.host) {n : ℕ} (hn : 10 ≤ n)
    (hlinks : n ≤ 14) (hstage : stage.order < n) :
    ∃ stage' work', .fin stage' cur work' ∈ (σ.exec (stage.next i cur work)).2 ∧
      stage'.order ≤ n := by
  have hone : ∀ {stage' work'}, stage'.order ≤ n →
      ∃ stage'' work'', Frame.fin stage'' cur work'' ∈ [Frame.fin stage' cur work'] ∧
        stage''.order ≤ n := fun h => ⟨_, _, List.mem_singleton_self _, h⟩
  have hearly : ∀ {stage' : FinStage}, stage'.order ≤ 10 → stage'.order ≤ n := fun h => h.trans hn
  cases stage with
  | killTake =>
    simp only [FinStage.next, hhost, if_false]
    exact hone (hearly (by decide))
  | sendAtRemove => exact hone (hearly (by decide))
  | askRemove => exact hone (hearly (by decide))
  | lookup =>
    simp only [FinStage.next, Shared.exec]
    split_ifs
    · exact hone (hearly (by decide))
    · exact hone (hearly (by decide))
  | close =>
    refine hone (hearly ?_)
    simp only [FinStage.order]
    decide
  | senders senders =>
    cases senders with
    | nil => exact hone (hearly (by decide))
    | cons sender rest => exact hone hstage.le
  | waiters =>
    refine hone (hearly ?_)
    simp only [FinStage.order]
    decide
  | wake askers =>
    cases askers with
    | nil => exact hone (hearly (by decide))
    | cons asker askers =>
      simp only [FinStage.next]
      split
      · split
        · simp only [Shared.exec]
          split_ifs <;> exact hone hstage.le
        · exact hone hstage.le
      · exact hone hstage.le
  | wakeTake a askers =>
    simp only [FinStage.next, Shared.exec]
    split
    · exact ⟨_, _, List.mem_cons_of_mem _ (List.mem_singleton_self _), hstage.le⟩
    · exact hone hstage.le
  | revoke => exact hone (hearly (by decide))
  | unregister => exact hone (hearly (by decide))
  | owned => exact hone hstage
  | names => exact hone hstage
  | notify => exact hone hstage
  | downs events =>
    cases events with
    | nil => exact hone hstage
    | cons event events =>
      exact ⟨_, _, List.mem_cons_of_mem _ (List.mem_singleton_self _), hstage.le⟩
  | links => exact absurd hstage hlinks.not_gt
  | peers peers => exact absurd (hstage.trans_le hlinks) (by simp [FinStage.order])

/-- A flow has a stage still to pass until its finalization acts at that stage. -/
theorem ToPass.step {last : FinStage} (hlast : 10 ≤ last.order) (hlinks : last.order ≤ 14)
    (ho : Owned s) {id : FlowId} (h : ToPass last s id) (t : ℕ) (i : Input) :
    ToPass last (Machine.step s (t, i)) id ∨ ∃ stage cur work rest,
      s.threads t = .fin stage cur work :: rest ∧ cur.id = id ∧ stage.order = last.order := by
  rcases h with hdir | ⟨stage, cur, work, hf, rfl, hstage⟩
  · rcases Registered.directory_step hdir t i with hdir | ⟨cur, work, hf, rfl⟩
    · exact .inl (.inl hdir)
    · exact .inl (.inr ⟨.owned, cur, work, hf, rfl, hlast⟩)
  · rcases mem_frames_step hf t i with ⟨rest, hs⟩ | hf'
    · rcases hstage.lt_or_eq with hlt | heq
      · have hhost := (ho.spawned_of_frame hf (cur_mem_boxes ..)).1.ne'
        obtain ⟨stage', work', hg, hle⟩ :=
          @fin_advances s.shared i _ _ work hhost _ hlast hlinks hlt
        exact .inl (.inr ⟨stage', cur, work', mem_frames_of_next hs hg, rfl, hle⟩)
      · exact .inr ⟨stage, cur, work, rest, hs, rfl, heq⟩
    · exact .inl (.inr ⟨stage, cur, work, hf', rfl, hstage⟩)

/-- Without finalizations in progress, a flow with a stage to pass is registered. -/
theorem ToPass.directory {last : FinStage} {id : FlowId} (h : ToPass last s id)
    (hquiet : ∀ stage cur work, .fin stage cur work ∉ s.frames) :
    s.shared.directory id = true := by
  rcases h with hdir | ⟨stage, cur, work, hf, -⟩
  · exact hdir
  · exact absurd hf (hquiet stage cur work)

/-- A flow with a stage to pass was spawned. -/
theorem ToPass.spawned {last : FinStage} {id : FlowId} (h : ToPass last s id) (hs : Sound s) :
    s.shared.Spawned id := by
  rcases h with hdir | ⟨stage, cur, work, hf, rfl, -⟩
  · exact hs.closed.known id hdir
  · exact hs.owned.spawned_of_frame hf (cur_mem_boxes ..)

/-! ## Flows that are gone -/

/-- A flow that has left does not come back. -/
theorem Finalized.step {id : FlowId} (h : Finalized s id) (ti : ℕ × Input) :
    Finalized (Machine.step s ti) id := by
  obtain ⟨hsp, hd⟩ := h
  refine ⟨spawned_step hsp ti, ?_⟩
  rcases ClosedBefore.directory_cases s ti.1 ti.2 with ⟨he, -⟩ | ⟨he, -⟩ | ⟨cur, _, _, -, he, -⟩ <;>
    rw [he]
  · exact hd
  · rwa [Function.update_of_ne hsp.2.ne]
  · by_cases hid : id = cur.id
    · rw [hid, Function.update_self]
    · rwa [Function.update_of_ne hid]

/-! ## Exits in the hands of a frame -/

def KillAfter.exiting : KillAfter → Option PendingExit
  | .request => none
  | .link cur _ _ => some cur

/-- The exit whose finalization the frame belongs to, once it is past `unregister`. -/
def Frame.exiting : Frame → Option PendingExit
  | .fin stage cur _ => if 10 ≤ stage.order then some cur else none
  | .kill _ _ _ next => next.exiting
  | _ => none

/-- An exit gets past `unregister` by `unregister`. -/
theorem Leads.exiting {σ : Shared} {f g : Frame} (h : Leads σ f g) {cur : PendingExit}
    (hg : g.exiting = some cur) :
    f.exiting = some cur ∨ ∃ work, f = .fin .unregister cur work := by
  cases h with
  | plain hplain => cases g <;> first | exact hplain.elim | cases hg
  | finOwned =>
    cases hg
    exact .inr ⟨_, rfl⟩
  | finSenders => simp [Frame.exiting, FinStage.order] at hg
  | finSender => simp [Frame.exiting, FinStage.order] at hg
  | finWake => simp [Frame.exiting, FinStage.order] at hg
  | finWakeStay => simp [Frame.exiting, FinStage.order] at hg
  | finWakeTake => simp [Frame.exiting, FinStage.order] at hg
  | finWakeSkip => simp [Frame.exiting, FinStage.order] at hg
  | finTook => simp [Frame.exiting, FinStage.order] at hg
  | _ => first | exact .inl hg | cases hg

theorem Starts.exiting {σ : Shared} {g : Frame} (h : Starts σ g) : g.exiting = none := by
  cases h with
  | plain hplain => cases g <;> first | rfl | exact hplain.elim
  | _ => rfl

/-- The flows whose finalization is past `unregister` are gone. -/
def Left (s : State) : Prop :=
  ∀ f ∈ s.frames, ∀ cur, f.exiting = some cur → Finalized s cur.id

theorem left_init (config : MailboxConfig) : Left (State.init config) :=
  fun _ hf => by obtain ⟨t, hf⟩ := hf; cases hf

/-- The flow that is unregistered is gone. -/
theorem finalized_of_unregister (ho : Owned s) {t : ℕ} {i : Input} {cur : PendingExit}
    {work : List PendingExit} {rest : List Frame}
    (hs : s.threads t = .fin .unregister cur work :: rest) : Finalized (step s (t, i)) cur.id := by
  refine ⟨spawned_step (ho.spawned_of_frame (mem_frames_of_cons hs)
    (cur_mem_boxes .unregister ..)) (t, i), ?_⟩
  rw [step_shared, next_of_cons i hs]
  exact Function.update_self ..

theorem Left.step (h : Left s) (ho : Owned s) (ti : ℕ × Input) : Left (Machine.step s ti) := by
  intro g hg cur hcur
  cases step_cases s ti.1 ti.2 with
  | acts f rest w hs hi hw hσ hnew =>
    rcases hnew g hg with hg | hl
    · exact (h g (mem_frames_of_others hg) cur hcur).step ti
    · rcases hl.exiting hcur with hcur | ⟨work, rfl⟩
      · exact (h f (mem_frames_of_cons hs) cur hcur).step ti
      · exact finalized_of_unregister ho hs
  | starts w hs hw hσ hnew =>
    rcases hnew g hg with hg | hst
    · exact (h g (mem_frames_of_others hg) cur hcur).step ti
    · rw [hst.exiting] at hcur
      cases hcur

/-! ## Work lists -/

def KillAfter.Queues (id : FlowId) : KillAfter → Prop
  | .request => False
  | .link _ _ work => ∃ p ∈ work, p.id = id

/-- The frame is about to finalize the flow, or has it on its work list. -/
def Frame.Queues (id : FlowId) : Frame → Prop
  | .fin stage cur work => (cur.id = id ∧ stage = .killTake) ∨ ∃ p ∈ work, p.id = id
  | .kill _ _ _ next => next.Queues id
  | _ => False

section

variable {id : FlowId} {cur : PendingExit} {work : List PendingExit}

/-- A finalization hands its work list on. -/
theorem queues_fin (σ : Shared) (i : Input) (stage : FinStage) (h : ∃ p ∈ work, p.id = id) :
    ∃ g ∈ (σ.exec (stage.next i cur work)).2, g.Queues id := by
  have hnext : ∃ g ∈ finNext work, g.Queues id := by
    obtain ⟨p, hp, hid⟩ := h
    obtain ⟨rest, last, rfl⟩ :=
      (List.eq_nil_or_concat' work).resolve_left (List.ne_nil_of_mem hp)
    refine ⟨.fin .killTake last rest, by simp [finNext], ?_⟩
    rcases List.mem_append.mp hp with hp | hp
    · exact .inr ⟨p, hp, hid⟩
    · exact .inl ⟨List.mem_singleton.mp hp ▸ hid, rfl⟩
  have hone : ∀ stage', ∃ g ∈ [Frame.fin stage' cur work], g.Queues id :=
    fun stage' => ⟨_, List.mem_singleton_self _, .inr h⟩
  cases stage with
  | killTake =>
    simp only [FinStage.next]
    split_ifs
    · exact hnext
    · exact hone _
  | lookup =>
    simp only [FinStage.next, Shared.exec]
    split_ifs <;> exact hone _
  | senders senders =>
    cases senders with
    | nil => exact hone _
    | cons sender rest =>
      obtain ⟨p, hp, hid⟩ := h
      exact ⟨_, List.mem_singleton_self _, .inr ⟨p, List.mem_append_left _ hp, hid⟩⟩
  | wake askers =>
    cases askers with
    | nil => exact hone _
    | cons asker askers =>
      simp only [FinStage.next]
      split
      · split
        · simp only [Shared.exec]
          split_ifs <;> exact hone _
        · exact hone _
      · exact hone _
  | wakeTake a askers =>
    simp only [FinStage.next, Shared.exec]
    split
    · exact ⟨_, List.mem_cons_of_mem _ (List.mem_singleton_self _), .inr h⟩
    · exact hone _
  | downs events =>
    cases events with
    | nil => exact hone _
    | cons event events => exact ⟨_, List.mem_cons_of_mem _ (List.mem_singleton_self _), .inr h⟩
  | links =>
    simp only [FinStage.next, Shared.exec]
    split_ifs
    · exact hone _
    · exact hnext
  | peers peers =>
    cases peers with
    | nil => exact hnext
    | cons peer rest =>
      simp only [FinStage.next]
      split
      · split
        · exact ⟨_, List.mem_singleton_self _, h⟩
        · exact hone _
      · exact hone _
  | _ => exact hone _

/-- A kill goes on, or gives the finalization back what it has found. -/
theorem kill_next {σ : Shared} {stage : KillStage} {id : FlowId} {reason : FlowExitReason}
    {next : KillAfter} :
    (∃ stage', .kill stage' id reason next ∈ (σ.exec (stage.next id reason next)).2) ∨
      ∃ found, (σ.exec (stage.next id reason next)).2 = next.resume reason found := by
  have hstay : ∀ stage', ∃ stage'', Frame.kill stage'' id reason next ∈
      [Frame.kill stage' id reason next] := fun stage' => ⟨_, List.mem_singleton_self _⟩
  cases stage with
  | lookup =>
    simp only [KillStage.next, Shared.exec]
    split_ifs
    · exact .inl (hstay _)
    · exact .inr ⟨_, rfl⟩
  | set => exact .inl (hstay _)
  | takeParked =>
    simp only [KillStage.next, Shared.exec]
    split
    · exact .inr ⟨_, rfl⟩
    · exact .inl (hstay _)
  | sendAtGet =>
    simp only [KillStage.next, Shared.exec]
    split
    · exact .inl (hstay _)
    · exact .inr ⟨_, rfl⟩
  | targetLookup t =>
    simp only [KillStage.next, Shared.exec]
    split_ifs
    · exact .inl (hstay _)
    · exact .inr ⟨_, rfl⟩
  | takeSender t =>
    simp only [KillStage.next, Shared.exec]
    split
    · exact .inl (hstay _)
    · exact .inr ⟨_, rfl⟩
  | sendAtRemove sender => exact .inr ⟨_, rfl⟩

/-- A kill gives the work list of the finalization back. -/
theorem queues_kill (σ : Shared) (stage : KillStage) (a : FlowId) (reason : FlowExitReason)
    {next : KillAfter} (h : next.Queues id) :
    ∃ g ∈ (σ.exec (stage.next a reason next)).2, g.Queues id := by
  rcases @kill_next σ stage a reason next with ⟨stage', hg⟩ | ⟨found, hg⟩
  · exact ⟨_, hg, h⟩
  · rw [hg]
    cases next with
    | request => exact h.elim
    | link cur peers work =>
      obtain ⟨p, hp, hid⟩ := h
      cases found with
      | none => exact ⟨_, List.mem_singleton_self _, .inr ⟨p, hp, hid⟩⟩
      | some flow =>
        exact ⟨_, List.mem_singleton_self _, .inr ⟨p, List.mem_append_left _ hp, hid⟩⟩

end

/-- A worker runs flow 1, another one flow 2. -/
def twoRunning : List (ℕ × Input) :=
  [(0, .start .spawn), (0, .pick 0), (0, .start .spawn), (0, .pick 0), (0, .start (.work 1)),
    (0, .pick 0), (1, .start (.work 0)), (1, .pick 0)]

end Machine

end Byteflow
