import Byteflow.Scheduler.Machine.Exit

/-!
# Monitors and their `DOWN` hops

A monitor lies in the table until the finalization of its target takes it out, makes a `DOWN` hop of
it and gives the hop to the owner. `Runtime::monitor` looks at the target once more after the
insertion, and delivers the `DOWN` itself if the target is gone: a second one, if the finalization
has found the monitor in between. The `Monitor` opcode does not look at all, and its target may have
been through its monitors. In a run where neither happens (`KeepsMonitors`), the owner is given
exactly one `DOWN` (`down_exactly_once`).
-/

namespace Byteflow

open Ownership

/-- The monitor of an event. -/
def DownEvent.entry (event : DownEvent) : MonitorEntry := ⟨event.monitor, event.owner, event.target⟩

namespace Machine

variable {s : State}

/-! ## Events -/

/-- The monitor that a `DOWN` hop for the owner is about. -/
def downEntry (owner : FlowId) (hop : Hop) : List MonitorEntry :=
  match hop.value.asMessage with
  | some m => [⟨m.requestId, owner, m.sender⟩]
  | none => []

theorem owner_of_downEntry {owner : FlowId} {hop : Hop} {e : MonitorEntry}
    (h : e ∈ downEntry owner hop) : e.owner = owner := by
  unfold downEntry at h
  split at h
  · rw [List.mem_singleton.mp h]
  · cases h

/-- What happens to a monitor. -/
inductive MonitorEvent
  | created (entry : MonitorEntry)
  | demonitored (entry : MonitorEntry)
  | given (entry : MonitorEntry)
  deriving DecidableEq

def Write.monitorEvents (σ : Shared) : Write → List MonitorEvent
  | .monitorCreate owner target => [.created ⟨σ.monitors.nextMonitor, owner, target⟩]
  | .monitorRemove owner monitor => (σ.monitors.owned owner monitor).toList.map .demonitored
  | _ => []

/-- The monitor that the step creates, removes for its owner, or gives the `DOWN` of. -/
def monitorEvents (s : State) (ti : ℕ × Input) : List MonitorEvent :=
  match s.threads ti.1 with
  | .downPush owner hop :: _ => (downEntry owner hop).map .given
  | .monitorDrop _ _ _ :: _ => []
  | _ => (s.next ti.1 ti.2).1.write.monitorEvents s.shared

/-- The monitors whose `DOWN` was given. -/
def givenDowns (events : List MonitorEvent) : List MonitorEntry :=
  events.filterMap fun
    | .given entry => some entry
    | _ => none

/-- A monitor is created in bytecode while its target is registered or has yet to go through its
monitors, and `Runtime::monitor` drops a monitor that is still there or has lost its owner. The
counter has not wrapped. -/
def KeepsMonitors (s : State) (ti : ℕ × Input) : Prop :=
  match s.threads ti.1 with
  | .monitorDrop ref owner target :: _ =>
    Finalized s owner ∨ ⟨ref, owner, target⟩ ∈ s.shared.monitors.monitors
  | .run _ :: _ =>
    match (s.next ti.1 ti.2).1.write with
    | .monitorCreate _ target => s.shared.monitors.nextMonitor ≠ 0 ∧ ToPass .notify s target
    | _ => True
  | .relateMake (.monitor _ _) :: _ => s.shared.monitors.nextMonitor ≠ 0
  | _ => True

/-! ## Monitors in the hands of a thread -/

def FinStage.downEntries : FinStage → List MonitorEntry
  | .downs events => events.map DownEvent.entry
  | _ => []

/-- The monitors whose `DOWN` the frame is about to give. -/
def Frame.downEntries : Frame → List MonitorEntry
  | .fin stage _ _ => stage.downEntries
  | .down event => [event.entry]
  | .downLookup owner hop => downEntry owner hop
  | .downPush owner hop => downEntry owner hop
  | _ => []

def stackDowns (frames : List Frame) : Multiset MonitorEntry := frames.flatMap Frame.downEntries

@[simp] theorem stackDowns_cons (f : Frame) (frames : List Frame) :
    stackDowns (f :: frames) = ↑f.downEntries + stackDowns frames := by
  simp [stackDowns]

@[simp] theorem stackDowns_nil : stackDowns [] = 0 := rfl

@[simp] theorem stackDowns_append (frames frames' : List Frame) :
    stackDowns (frames ++ frames') = stackDowns frames + stackDowns frames' := by
  simp [stackDowns]

theorem stackDowns_eq_zero {frames : List Frame} (h : ∀ f ∈ frames, f.downEntries = []) :
    stackDowns frames = 0 := by
  rw [stackDowns, List.flatMap_eq_nil_iff.mpr h]
  rfl

/-- The frame makes, hands on or gives `DOWN` hops. -/
def Frame.HandsDowns : Frame → Prop
  | .fin stage _ _ => stage = .notify ∨ ∃ events, stage = .downs events
  | .down _ => True
  | .downLookup _ _ => True
  | .downPush _ _ => True
  | .monitorDrop _ _ _ => True
  | _ => False

theorem Frame.downEntries_of_not {f : Frame} (h : ¬f.HandsDowns) : f.downEntries = [] := by
  cases f with
  | fin stage cur work =>
    cases stage with
    | downs events => exact absurd (.inr ⟨events, rfl⟩) h
    | _ => rfl
  | down event => exact absurd trivial h
  | downLookup owner hop => exact absurd trivial h
  | downPush owner hop => exact absurd trivial h
  | _ => rfl

theorem Leads.downEntries {σ : Shared} {f g : Frame} (h : Leads σ f g) (hf : ¬f.HandsDowns) :
    g.downEntries = [] := by
  cases h with
  | plain hplain => cases g <;> first | rfl | exact hplain.elim
  | dropDown => exact absurd trivial hf
  | downIssue => exact absurd trivial hf
  | downFound => exact absurd trivial hf
  | finDowns => exact absurd (.inl rfl) hf
  | finDownEvent => exact absurd (.inr ⟨_, rfl⟩) hf
  | finDown => exact absurd (.inr ⟨_, rfl⟩) hf
  | _ => rfl

theorem Starts.downEntries {σ : Shared} {g : Frame} (h : Starts σ g) : g.downEntries = [] := by
  cases h with
  | plain hplain => cases g <;> first | rfl | exact hplain.elim
  | _ => rfl

/-! ## What a step does to the monitors -/

/-- The table and the monitors in the hands of the thread after a step. -/
inductive MonitorStep (s : State) (t : ℕ) (i : Input) (s' : State) : List MonitorEvent → Prop
  | stay (htable : s'.shared.monitors = s.shared.monitors)
      (hstack : stackDowns (s'.threads t) = stackDowns (s.threads t)) : MonitorStep s t i s' []
  | create (owner target)
      (hby : (∃ flow rest, s.threads t = .run flow :: rest ∧ flow.id = owner ∧
          (s.next t i).1.write = .monitorCreate owner target) ∨
        ∃ rest, s.threads t = .relateMake (.monitor owner target) :: rest)
      (htable : s'.shared.monitors = (s.shared.monitors.create owner target).1)
      (hstack : stackDowns (s'.threads t) = stackDowns (s.threads t)) :
      MonitorStep s t i s' [.created ⟨s.shared.monitors.nextMonitor, owner, target⟩]
  | remove (owner ref)
      (htable : s'.shared.monitors = (s.shared.monitors.removeOwned owner ref).1)
      (hstack : stackDowns (s'.threads t) = stackDowns (s.threads t)) :
      MonitorStep s t i s' ((s.shared.monitors.owned owner ref).toList.map .demonitored)
  | drop (ref owner target rest) (hs : s.threads t = .monitorDrop ref owner target :: rest)
      (htable : s'.shared.monitors = (s.shared.monitors.removeOwned owner ref).1)
      (hstack : stackDowns (s'.threads t) = ⟨ref, owner, target⟩ ::ₘ stackDowns (s.threads t)) :
      MonitorStep s t i s' []
  | owned (cur work rest) (hs : s.threads t = .fin .owned cur work :: rest)
      (htable : s'.shared.monitors = s.shared.monitors.removeOwnedBy cur.id)
      (hstack : stackDowns (s'.threads t) = stackDowns (s.threads t)) : MonitorStep s t i s' []
  | notify (cur work rest) (hs : s.threads t = .fin .notify cur work :: rest)
      (htable : s'.shared.monitors = (s.shared.monitors.notifyTargetExit cur.id cur.reason).1)
      (hstack : stackDowns (s'.threads t) =
        ↑(s.shared.monitors.monitors.filter (·.target = cur.id)) + stackDowns (s.threads t)) :
      MonitorStep s t i s' []
  | skip (owner hop rest) (hs : s.threads t = .downLookup owner hop :: rest)
      (hgone : s.shared.directory owner = false)
      (htable : s'.shared.monitors = s.shared.monitors)
      (hstack : stackDowns (s.threads t) = ↑(downEntry owner hop) + stackDowns (s'.threads t)) :
      MonitorStep s t i s' []
  | give (owner hop rest) (hs : s.threads t = .downPush owner hop :: rest)
      (htable : s'.shared.monitors = s.shared.monitors)
      (hstack : stackDowns (s.threads t) = ↑(downEntry owner hop) + stackDowns (s'.threads t)) :
      MonitorStep s t i s' ((downEntry owner hop).map .given)

/-- The entries of the events that a target's exit fires. -/
theorem entries_of_notify (m : MonitorTable) (target : FlowId) (reason : FlowExitReason) :
    (m.notifyTargetExit target reason).2.map DownEvent.entry =
      m.monitors.filter (·.target = target) := by
  simp only [MonitorTable.notifyTargetExit, List.map_map]
  conv_rhs => rw [← List.map_id (m.monitors.filter (·.target = target))]
  refine List.map_congr_left fun e he => ?_
  have htarget : e.target = target := by simpa using (List.mem_filter.mp he).2
  subst htarget
  rfl

theorem monitorEvents_of_not {t : ℕ} {i : Input} {f : Frame} {rest : List Frame}
    (hs : s.threads t = f :: rest) (hf : ¬f.HandsDowns) :
    monitorEvents s (t, i) = (f.next i).write.monitorEvents s.shared := by
  unfold monitorEvents
  split
  · rename_i hs'
    rw [hs] at hs'
    cases hs'
    exact absurd trivial hf
  · rename_i hs'
    rw [hs] at hs'
    cases hs'
    exact absurd trivial hf
  · rw [next_of_cons i hs]

/-- **What a step does to the monitors.** -/
theorem monitor_step (s : State) (t : ℕ) (i : Input) :
    MonitorStep s t i (step s (t, i)) (monitorEvents s (t, i)) := by
  rcases next_cases s t i with ⟨f, rest, hs, hn⟩ | ⟨hs, hn⟩
  · have htable : (step s (t, i)).shared.monitors = (f.next i).write.monitors s.shared := by
      rw [step_shared, hn]
      exact (exec_written _ _).monitors
    have hstack : stackDowns ((step s (t, i)).threads t) =
        stackDowns (s.shared.exec (f.next i)).2 + stackDowns rest := by
      rw [step_threads_self, hn, stackDowns_append]
    have hbefore : stackDowns (s.threads t) = ↑f.downEntries + stackDowns rest := by
      rw [hs, stackDowns_cons]
    by_cases hf : f.HandsDowns
    · cases f with
      | fin stage cur work =>
        rcases hf with rfl | ⟨events, rfl⟩
        · have hevents : monitorEvents s (t, i) = [] := by
            unfold monitorEvents
            rw [hs]
            simp only [hn]
            rfl
          rw [hevents]
          refine .notify cur work rest hs htable ?_
          rw [hstack, hbefore, ← entries_of_notify _ _ cur.reason]
          simp [Frame.next, FinStage.next, Shared.exec, Frame.downEntries, FinStage.downEntries]
        · have hevents : monitorEvents s (t, i) = [] := by
            unfold monitorEvents
            rw [hs]
            simp only [hn]
            cases events <;> rfl
          rw [hevents]
          refine .stay ?_ ?_
          · rw [htable]
            cases events <;> rfl
          · rw [hstack, hbefore]
            cases events <;>
              simp [Frame.next, FinStage.next, Shared.exec, Frame.downEntries,
                FinStage.downEntries, ← Multiset.cons_coe]
      | down event =>
        have hevents : monitorEvents s (t, i) = [] := by
          unfold monitorEvents
          rw [hs]
          simp only [hn]
          rfl
        rw [hevents]
        refine .stay htable ?_
        rw [hstack, hbefore]
        rfl
      | downLookup owner hop =>
        have hevents : monitorEvents s (t, i) = [] := by
          unfold monitorEvents
          rw [hs]
          simp only [hn]
          rfl
        rw [hevents]
        cases hlive : s.shared.directory owner with
        | true =>
          refine .stay htable ?_
          rw [hstack, hbefore]
          simp [Frame.next, Shared.exec, hlive, Frame.downEntries]
        | false =>
          refine .skip owner hop rest hs hlive htable ?_
          rw [hstack, hbefore]
          simp [Frame.next, Shared.exec, hlive, Frame.downEntries]
      | downPush owner hop =>
        have hevents : monitorEvents s (t, i) = (downEntry owner hop).map .given := by
          unfold monitorEvents
          rw [hs]
        rw [hevents]
        refine .give owner hop rest hs htable ?_
        rw [hstack, hbefore]
        have hzero : stackDowns (s.shared.exec ((Frame.downPush owner hop).next i)).2 = 0 := by
          refine stackDowns_eq_zero fun g hg => ?_
          have hl := leads hg
          cases hl with
          | plain hplain => cases g <;> first | rfl | exact hplain.elim
          | downForget => rfl
        rw [hzero, zero_add]
        rfl
      | monitorDrop ref owner target =>
        have hevents : monitorEvents s (t, i) = [] := by
          unfold monitorEvents
          rw [hs]
        rw [hevents]
        refine .drop ref owner target rest hs htable ?_
        rw [hstack, hbefore]
        simp [Frame.next, Shared.exec, Frame.downEntries, DownEvent.entry]
      | _ => exact hf.elim
    · have hsame : stackDowns ((step s (t, i)).threads t) = stackDowns (s.threads t) := by
        have hnil : ∀ g ∈ (s.shared.exec (f.next i)).2, g.downEntries = [] :=
          fun g hg => (leads hg).downEntries hf
        rw [hstack, hbefore, stackDowns_eq_zero hnil, f.downEntries_of_not hf]
        rfl
      rw [monitorEvents_of_not hs hf]
      have hw := f.next_writes i
      generalize hwrite : (f.next i).write = w at hw htable
      cases hw with
      | monitor flow target =>
        exact .create _ target (.inl ⟨flow, rest, hs, rfl, hn ▸ hwrite⟩) htable hsame
      | makeMonitor owner target => exact .create owner target (.inr ⟨rest, hs⟩) htable hsame
      | demonitor flow ref => exact .remove _ ref htable hsame
      | makeDemonitor owner ref => exact .remove owner ref htable hsame
      | monitorDrop ref owner target => exact absurd trivial hf
      | finNotify cur work => exact absurd (.inl rfl) hf
      | finOwned cur work => exact .owned cur work rest hs htable hsame
      | _ => exact .stay htable hsame
  · have hstack : ∀ op : Operation, s.next t i = (op.start, []) →
        stackDowns ((step s (t, i)).threads t) = stackDowns (s.threads t) := by
      intro op hn
      rw [step_threads_self, hn, hs, List.append_nil]
      exact stackDowns_eq_zero fun g hg => (starts hg).downEntries
    have hevents : monitorEvents s (t, i) = (s.next t i).1.write.monitorEvents s.shared := by
      unfold monitorEvents
      rw [hs]
    rcases hn with ⟨op, -, hn⟩ | hn
    · have htable : (step s (t, i)).shared.monitors = op.start.write.monitors s.shared := by
        rw [step_shared, hn]
        exact (exec_written _ _).monitors
      rw [hevents, hn]
      have hw := op.start_write
      generalize op.start.write = w at hw htable
      cases hw <;> exact .stay htable (hstack op hn)
    · rw [hevents, hn]
      refine .stay ?_ ?_
      · rw [step_shared, hn]
        rfl
      · rw [step_threads_self, hn, hs]
        rfl

/-! ## The invariant -/

/-- Where a monitor is whose `DOWN` is due or was given. -/
inductive DownPlace
  | table
  | thread (t : ℕ)
  | given

def State.downs (s : State) (given : List MonitorEntry) : DownPlace → Multiset MonitorEntry
  | .table => s.shared.monitors.monitors
  | .thread t => stackDowns (s.threads t)
  | .given => given

/-- `Runtime::monitor` has still to look whether the target of the monitor is live, or to drop
it. -/
def Frame.Looks (e : MonitorEntry) : Frame → Prop
  | .monitorRecheck ref owner target => e = ⟨ref, owner, target⟩
  | .monitorDrop ref owner target => e = ⟨ref, owner, target⟩
  | _ => False

/-- What a run that keeps the monitors preserves, with its events. -/
structure Monitored (s : State) (events : List MonitorEvent) : Prop where
  sound : Sound s
  left : Left s
  named : ∀ relation, .relateTarget relation ∈ s.frames ∨ .relateMake relation ∈ s.frames →
    s.shared.Spawned relation.first
  numbers : s.shared.monitors.nextMonitor ≠ 0 →
    ∀ e, .created e ∈ events → e.monitor < s.shared.monitors.nextMonitor
  unique : ∀ e e', .created e ∈ events → .created e' ∈ events → e.monitor = e'.monitor → e = e'
  owners : ∀ e, .created e ∈ events → s.shared.Spawned e.owner
  made : ∀ p, ∀ e ∈ s.downs (givenDowns events) p, .created e ∈ events
  looked : ∀ f ∈ s.frames, ∀ e, f.Looks e → .created e ∈ events
  exclusive : Exclusive fun p =>
    (s.downs (givenDowns events) p).filter fun e => ¬Finalized s e.owner
  kept : ∀ e, .created e ∈ events → .demonitored e ∈ events ∨ Finalized s e.owner ∨
    ∃ p, e ∈ s.downs (givenDowns events) p
  watched : ∀ e ∈ s.shared.monitors.monitors,
    ToPass .notify s e.target ∨ ∃ f ∈ s.frames, f.Looks e

theorem monitored_init (config : MailboxConfig) : Monitored (State.init config) [] where
  sound := sound_init config
  left := left_init config
  named := fun _ hf => by rcases hf with ⟨t, hf⟩ | ⟨t, hf⟩ <;> cases hf
  numbers := fun _ _ h => by cases h
  unique := fun _ _ h => by cases h
  owners := fun _ h => by cases h
  made := fun p e he => by cases p <;> exact absurd he (Multiset.notMem_zero e)
  looked := fun _ hf => by obtain ⟨t, hf⟩ := hf; cases hf
  exclusive := by
    have hempty : ∀ p, (State.init config).downs (givenDowns []) p = 0 := by
      intro p
      cases p <;> rfl
    simp [Exclusive, hempty]
  kept := fun _ h => by cases h
  watched := fun _ h => by cases h

/-- The flow that a call names first was found live. -/
theorem named_step (hs : Sound s)
    (h : ∀ relation, .relateTarget relation ∈ s.frames ∨ .relateMake relation ∈ s.frames →
      s.shared.Spawned relation.first) (ti : ℕ × Input) (relation : Relation)
    (hf : .relateTarget relation ∈ (step s ti).frames ∨
      .relateMake relation ∈ (step s ti).frames) :
    (step s ti).shared.Spawned relation.first := by
  refine spawned_step ?_ ti
  cases step_cases s ti.1 ti.2 with
  | acts f rest w hs' hi hw hσ hnew =>
    rcases hf with hf | hf
    · rcases hnew _ hf with hf | hl
      · exact h relation (.inl (mem_frames_of_others hf))
      · cases hl with
        | plain hplain => exact hplain.elim
        | relateTarget hlive => exact hs.closed.known _ hlive
    · rcases hnew _ hf with hf | hl
      · exact h relation (.inr (mem_frames_of_others hf))
      · cases hl with
        | plain hplain => exact hplain.elim
        | relateMake hlive => exact hs.closed.known _ hlive
        | relateBoth => exact h relation (.inl (mem_frames_of_cons hs'))
  | starts w hs' hw hσ hnew =>
    rcases hf with hf | hf
    · rcases hnew _ hf with hf | hst
      · exact h relation (.inl (mem_frames_of_others hf))
      · cases hst with
        | plain hplain => exact hplain.elim
    · rcases hnew _ hf with hf | hst
      · exact h relation (.inr (mem_frames_of_others hf))
      · cases hst with
        | plain hplain => exact hplain.elim

theorem givenDowns_append (events new : List MonitorEvent) :
    givenDowns (events ++ new) = givenDowns events ++ givenDowns new :=
  List.filterMap_append ..

theorem givenDowns_given (entries : List MonitorEntry) :
    givenDowns (entries.map .given) = entries := by
  simp [givenDowns, List.filterMap_map]

namespace Monitored

variable {events : List MonitorEvent}

/-- A monitor in the table is the only one of its number. -/
theorem owned_eq (h : Monitored s events) {e : MonitorEntry}
    (he : e ∈ s.shared.monitors.monitors) :
    s.shared.monitors.owned e.owner e.monitor = some e ∧
      (s.shared.monitors.removeOwned e.owner e.monitor).1.monitors =
        s.shared.monitors.monitors.filter (·.monitor ≠ e.monitor) := by
  have hfind : s.shared.monitors.monitors.find? (·.monitor = e.monitor) = some e := by
    cases hfind : s.shared.monitors.monitors.find? (·.monitor = e.monitor) with
    | none => exact absurd (List.find?_eq_none.mp hfind e he) (by simp)
    | some e' =>
      have hnum : e'.monitor = e.monitor := by simpa using List.find?_some hfind
      rw [h.unique e' e (h.made .table e' (List.mem_of_find?_eq_some hfind))
        (h.made .table e he) hnum]
  constructor
  · simp [MonitorTable.owned, hfind]
  · simp [MonitorTable.removeOwned, hfind]

/-- The number of a new monitor is the number of none before. -/
theorem fresh (h : Monitored s events) (hnext : s.shared.monitors.nextMonitor ≠ 0)
    (owner target : FlowId) :
    .created ⟨s.shared.monitors.nextMonitor, owner, target⟩ ∉ events :=
  fun he => UInt64.lt_irrefl _ (h.numbers hnext _ he)

/-- What the guard says of a step that creates a monitor. -/
theorem guard_of_create {t : ℕ} {i : Input} (hguard : KeepsMonitors s (t, i))
    {owner target : FlowId}
    (hby : (∃ flow rest, s.threads t = .run flow :: rest ∧ flow.id = owner ∧
        (s.next t i).1.write = .monitorCreate owner target) ∨
      ∃ rest, s.threads t = .relateMake (.monitor owner target) :: rest) :
    s.shared.monitors.nextMonitor ≠ 0 ∧
      (ToPass .notify s target ∨
        ∃ rest, s.threads t = .relateMake (.monitor owner target) :: rest) := by
  unfold KeepsMonitors at hguard
  rcases hby with ⟨flow, rest, hs, -, hwrite⟩ | ⟨rest, hs⟩ <;> rw [hs] at hguard
  · simp only [hwrite] at hguard
    exact ⟨hguard.1, .inl hguard.2⟩
  · exact ⟨hguard, .inr ⟨rest, hs⟩⟩

/-- The monitors in the hands of the threads that do not act stay. -/
theorem downs_of_ne {given : List MonitorEntry} {t r : ℕ} (hr : r ≠ t) (i : Input) :
    (Machine.step s (t, i)).downs given (.thread r) = s.downs given (.thread r) := by
  simp only [State.downs, step_threads_of_ne s i hr]

/-- A monitor in the table was there before, or is created now. -/
theorem mem_table_of_step {t : ℕ} {i : Input} {new : List MonitorEvent}
    (hstep : MonitorStep s t i (Machine.step s (t, i)) new) {e : MonitorEntry}
    (he : e ∈ (Machine.step s (t, i)).shared.monitors.monitors) :
    e ∈ s.shared.monitors.monitors ∨ .created e ∈ new := by
  cases hstep with
  | stay ht hstack =>
    rw [ht] at he
    exact .inl he
  | create owner target hby ht hstack =>
    rw [ht, MonitorTable.mem_create] at he
    rcases he with ⟨he, -⟩ | rfl
    · exact .inl he
    · exact .inr (List.mem_singleton_self _)
  | remove owner ref ht hstack =>
    rw [ht] at he
    exact .inl (MonitorTable.mem_removeOwned he)
  | drop ref owner target rest hs ht hstack =>
    rw [ht] at he
    exact .inl (MonitorTable.mem_removeOwned he)
  | owned cur work rest hs ht hstack =>
    rw [ht] at he
    exact .inl (List.mem_of_mem_filter he)
  | notify cur work rest hs ht hstack =>
    rw [ht] at he
    exact .inl (List.mem_of_mem_filter he)
  | skip owner hop rest hs hgone ht hstack =>
    rw [ht] at he
    exact .inl he
  | give owner hop rest hs ht hstack =>
    rw [ht] at he
    exact .inl he

/-- No monitor is made of nothing, but for the one that is created. -/
theorem made_step (h : Monitored s events) {t : ℕ} {i : Input} {new : List MonitorEvent}
    (hstep : MonitorStep s t i (Machine.step s (t, i)) new) (p : DownPlace) (e : MonitorEntry)
    (he : e ∈ (Machine.step s (t, i)).downs (givenDowns (events ++ new)) p) :
    .created e ∈ events ++ new := by
  rw [List.mem_append]
  rw [givenDowns_append] at he
  have htable : e ∈ s.shared.monitors.monitors → .created e ∈ events ∨ .created e ∈ new :=
    fun h' => .inl (h.made .table e h')
  have hthread : e ∈ stackDowns (s.threads t) → .created e ∈ events ∨ .created e ∈ new :=
    fun h' => .inl (h.made (.thread t) e h')
  have hgiven : e ∈ givenDowns events → .created e ∈ events ∨ .created e ∈ new :=
    fun h' => .inl (h.made .given e h')
  cases p with
  | table => exact (mem_table_of_step hstep he).imp_left (h.made .table e)
  | thread r =>
    by_cases hr : r = t
    · subst hr
      change e ∈ stackDowns ((Machine.step s (r, i)).threads r) at he
      cases hstep with
      | stay ht hstack => exact hthread (hstack ▸ he)
      | create owner target hby ht hstack => exact hthread (hstack ▸ he)
      | remove owner ref ht hstack => exact hthread (hstack ▸ he)
      | drop ref owner target rest hs ht hstack =>
        rw [hstack, Multiset.mem_cons] at he
        rcases he with rfl | he
        · exact .inl (h.looked _ (mem_frames_of_cons hs) _ rfl)
        · exact hthread he
      | owned cur work rest hs ht hstack => exact hthread (hstack ▸ he)
      | notify cur work rest hs ht hstack =>
        rw [hstack, Multiset.mem_add] at he
        rcases he with he | he
        · exact htable (List.mem_of_mem_filter he)
        · exact hthread he
      | skip owner hop rest hs hgone ht hstack =>
        exact hthread (hstack ▸ Multiset.mem_add.mpr (.inr he))
      | give owner hop rest hs ht hstack =>
        exact hthread (hstack ▸ Multiset.mem_add.mpr (.inr he))
    · rw [downs_of_ne hr] at he
      exact .inl (h.made (.thread r) e he)
  | given =>
    rcases List.mem_append.mp he with he | he
    · exact hgiven he
    · cases hstep with
      | create owner target hby ht hstack => cases he
      | remove owner ref ht hstack =>
        cases howned : s.shared.monitors.owned owner ref <;> rw [howned] at he <;> cases he
      | give owner hop rest hs ht hstack =>
        rw [givenDowns_given] at he
        exact hthread (hstack ▸ Multiset.mem_add.mpr (.inl he))
      | _ => cases he

/-- **No monitor is given twice.** -/
theorem exclusive_step (h : Monitored s events) {t : ℕ} {i : Input}
    (hguard : KeepsMonitors s (t, i)) {new : List MonitorEvent}
    (hstep : MonitorStep s t i (Machine.step s (t, i)) new) :
    Exclusive fun p => ((Machine.step s (t, i)).downs (givenDowns (events ++ new)) p).filter
      fun e => ¬Finalized (Machine.step s (t, i)) e.owner := by
  have hfewer : ∀ e : MonitorEntry, ¬Finalized (Machine.step s (t, i)) e.owner →
      ¬Finalized s e.owner := fun e he hfin => he (hfin.step (t, i))
  have hbefore := h.exclusive.mono_filter (fun p => le_refl _) hfewer
  have hother : ∀ {r : ℕ}, r ≠ t → ∀ given,
      (Machine.step s (t, i)).downs given (.thread r) ≤
        s.downs (givenDowns events) (.thread r) := by
    intro r hr given
    rw [downs_of_ne hr]
    exact le_refl _
  -- the places other than the table and the thread that acts
  have hrest : givenDowns new = [] → ∀ p : DownPlace, p ≠ .table → p ≠ .thread t →
      (Machine.step s (t, i)).downs (givenDowns (events ++ new)) p ≤
        s.downs (givenDowns events) p := by
    intro hgiven p htable hthread
    rw [givenDowns_append, hgiven, List.append_nil]
    cases p with
    | table => exact absurd rfl htable
    | thread r => exact hother (fun hr => hthread (hr ▸ rfl)) _
    | given => exact le_refl _
  have hstay : givenDowns new = [] →
      (Machine.step s (t, i)).shared.monitors.monitors.Sublist s.shared.monitors.monitors →
      stackDowns ((Machine.step s (t, i)).threads t) ≤ stackDowns (s.threads t) →
      ∀ p, (Machine.step s (t, i)).downs (givenDowns (events ++ new)) p ≤
        s.downs (givenDowns events) p := by
    intro hgiven htable hstack p
    by_cases hp : p = .table
    · subst hp
      exact Multiset.coe_le.mpr htable.subperm
    by_cases hp' : p = .thread t
    · subst hp'
      exact hstack
    exact hrest hgiven p hp hp'
  cases hstep with
  | stay ht hstack => exact hbefore.mono (fun p => Multiset.filter_le_filter _
      (hstay rfl (ht ▸ List.Sublist.refl _) hstack.le p))
  | create owner target hby ht hstack =>
    have hfresh := h.fresh (guard_of_create hguard hby).1 owner target
    refine hbefore.insert_filter (p := .table) (fun q he => hfresh (h.made q _ he)) ?_ ?_
    · change (↑(Machine.step s (t, i)).shared.monitors.monitors : Multiset MonitorEntry) ≤ _
      rw [ht]
      refine Multiset.coe_le.mpr ((List.perm_append_singleton _ _).subperm.trans ?_)
      exact (List.filter_sublist.cons_cons _).subperm
    · intro p hp
      by_cases hp' : p = .thread t
      · subst hp'
        exact hstack.le
      · exact hrest rfl p hp hp'
  | remove owner ref ht hstack =>
    refine hbefore.mono fun p => Multiset.filter_le_filter _ (hstay ?_ ?_ hstack.le p)
    · cases s.shared.monitors.owned owner ref <;> rfl
    · rw [ht]
      rcases s.shared.monitors.removeOwned_cases owner ref with ⟨-, -, -, -, -, he⟩ | ⟨-, he⟩ <;>
        rw [he]
      exact List.filter_sublist
  | drop ref owner target rest hs ht hstack =>
    unfold KeepsMonitors at hguard
    rw [hs] at hguard
    have hsub : (Machine.step s (t, i)).shared.monitors.monitors.Sublist
        s.shared.monitors.monitors := by
      rw [ht]
      rcases s.shared.monitors.removeOwned_cases owner ref with ⟨-, -, -, -, -, he⟩ | ⟨-, he⟩ <;>
        rw [he]
      exact List.filter_sublist
    rcases hguard with hgone | hmem
    · -- nobody is there to be given the hop
      refine hbefore.mono fun p => ?_
      by_cases hp : p = .thread t
      · subst hp
        change (stackDowns ((Machine.step s (t, i)).threads t)).filter _ ≤
          (stackDowns (s.threads t)).filter _
        rw [hstack, Multiset.filter_cons_of_neg _ (by simpa using hgone.step (t, i))]
      · refine Multiset.filter_le_filter _ ?_
        by_cases hp' : p = .table
        · subst hp'
          exact Multiset.coe_le.mpr hsub.subperm
        · exact hrest rfl p hp' hp
    · refine hbefore.transfer_filter (p := .table) (q := .thread t) nofun ?_ ?_
      · change (↑(Machine.step s (t, i)).shared.monitors.monitors : Multiset MonitorEntry) +
          stackDowns ((Machine.step s (t, i)).threads t) ≤
            ↑s.shared.monitors.monitors + stackDowns (s.threads t)
        rw [hstack, Multiset.add_cons, ← Multiset.cons_add]
        refine add_le_add_left ?_ _
        rw [Multiset.cons_le_of_notMem]
        · exact ⟨hmem, Multiset.coe_le.mpr hsub.subperm⟩
        · rw [ht, (h.owned_eq hmem).2]
          simp
      · exact hrest rfl
  | owned cur work rest hs ht hstack =>
    refine hbefore.mono fun p => Multiset.filter_le_filter _ (hstay rfl ?_ hstack.le p)
    rw [ht]
    exact List.filter_sublist
  | notify cur work rest hs ht hstack =>
    refine hbefore.transfer_filter (p := .table) (q := .thread t) nofun ?_ ?_
    · change (↑(Machine.step s (t, i)).shared.monitors.monitors : Multiset MonitorEntry) +
        stackDowns ((Machine.step s (t, i)).threads t) ≤
          ↑s.shared.monitors.monitors + stackDowns (s.threads t)
      rw [hstack, ht, ← add_assoc]
      refine add_le_add_left (le_of_eq ?_) _
      have hsplit := Multiset.filter_add_not (fun e : MonitorEntry => e.target = cur.id)
        (s.shared.monitors.monitors : Multiset MonitorEntry)
      rw [add_comm] at hsplit
      simpa [MonitorTable.notifyTargetExit] using hsplit
    · exact hrest rfl
  | skip owner hop rest hs hgone ht hstack =>
    refine hbefore.mono fun p => Multiset.filter_le_filter _ (hstay rfl ?_ ?_ p)
    · rw [ht]
    · rw [hstack]
      exact Multiset.le_add_left _ _
  | give owner hop rest hs ht hstack =>
    refine hbefore.transfer_filter (p := .thread t) (q := .given) nofun (le_of_eq ?_) ?_
    · change stackDowns ((Machine.step s (t, i)).threads t) + ↑(givenDowns (events ++ _)) =
        stackDowns (s.threads t) + (↑(givenDowns events) : Multiset MonitorEntry)
      rw [hstack, givenDowns_append, ← Multiset.coe_add, givenDowns_given]
      abel
    · intro p hp hp'
      cases p with
      | table => exact le_of_eq (by simp only [State.downs, ht])
      | thread r => exact hother (fun hr => hp (hr ▸ rfl)) _
      | given => exact absurd rfl hp'

/-- A monitor that is created now gets the next number. -/
theorem created_of_step {t : ℕ} {i : Input} {new : List MonitorEvent}
    (hstep : MonitorStep s t i (Machine.step s (t, i)) new) {e : MonitorEntry}
    (he : .created e ∈ new) :
    ∃ owner target, e = ⟨s.shared.monitors.nextMonitor, owner, target⟩ ∧ new = [.created e] ∧
      (Machine.step s (t, i)).shared.monitors = (s.shared.monitors.create owner target).1 ∧
      ((∃ flow rest, s.threads t = .run flow :: rest ∧ flow.id = owner ∧
          (s.next t i).1.write = .monitorCreate owner target) ∨
        ∃ rest, s.threads t = .relateMake (.monitor owner target) :: rest) := by
  cases hstep with
  | create owner target hby ht hstack =>
    cases List.mem_singleton.mp he
    exact ⟨owner, target, rfl, rfl, ht, hby⟩
  | remove owner ref ht hstack =>
    obtain ⟨e', -, he⟩ := List.mem_map.mp he
    cases he
  | give owner hop rest hs ht hstack =>
    obtain ⟨e', -, he⟩ := List.mem_map.mp he
    cases he
  | _ => cases he

theorem numbers_step (h : Monitored s events) {t : ℕ} {i : Input}
    (hguard : KeepsMonitors s (t, i)) {new : List MonitorEvent}
    (hstep : MonitorStep s t i (Machine.step s (t, i)) new)
    (hnext : (Machine.step s (t, i)).shared.monitors.nextMonitor ≠ 0) (e : MonitorEntry)
    (he : .created e ∈ events ++ new) :
    e.monitor < (Machine.step s (t, i)).shared.monitors.nextMonitor := by
  rcases List.mem_append.mp he with hold | hnew
  · have hsame : (Machine.step s (t, i)).shared.monitors.nextMonitor =
        s.shared.monitors.nextMonitor → 
        e.monitor < (Machine.step s (t, i)).shared.monitors.nextMonitor := by
      intro heq
      rw [heq] at hnext ⊢
      exact h.numbers hnext e hold
    cases hstep with
    | create owner target hby ht hstack =>
      have hlt := h.numbers (guard_of_create hguard hby).1 e hold
      rw [ht] at hnext ⊢
      exact UInt64.lt_trans hlt (lt_succ_of_ne_zero hnext)
    | remove owner ref ht hstack => exact hsame (by rw [ht, MonitorTable.removeOwned_nextMonitor])
    | drop ref owner target rest hs ht hstack =>
      exact hsame (by rw [ht, MonitorTable.removeOwned_nextMonitor])
    | owned cur work rest hs ht hstack => exact hsame (by rw [ht]; rfl)
    | notify cur work rest hs ht hstack => exact hsame (by rw [ht]; rfl)
    | _ => exact hsame (by simp only [*])
  · obtain ⟨owner, target, rfl, -, ht, -⟩ := created_of_step hstep hnew
    rw [ht] at hnext ⊢
    exact lt_succ_of_ne_zero hnext

theorem unique_step (h : Monitored s events) {t : ℕ} {i : Input}
    (hguard : KeepsMonitors s (t, i)) {new : List MonitorEvent}
    (hstep : MonitorStep s t i (Machine.step s (t, i)) new) (e e' : MonitorEntry)
    (he : .created e ∈ events ++ new) (he' : .created e' ∈ events ++ new)
    (hnum : e.monitor = e'.monitor) : e = e' := by
  have hmixed : ∀ {e e' : MonitorEntry}, .created e ∈ events → .created e' ∈ new →
      e.monitor ≠ e'.monitor := by
    intro e e' he he' hnum
    obtain ⟨owner, target, rfl, -, -, hby⟩ := created_of_step hstep he'
    have hlt := h.numbers (guard_of_create hguard hby).1 e he
    rw [hnum] at hlt
    exact UInt64.lt_irrefl _ hlt
  rcases List.mem_append.mp he with he | he <;> rcases List.mem_append.mp he' with he' | he'
  · exact h.unique e e' he he' hnum
  · exact absurd hnum (hmixed he he')
  · exact absurd hnum.symm (hmixed he' he)
  · obtain ⟨owner, target, -, rfl, -⟩ := created_of_step hstep he
    cases List.mem_singleton.mp he'
    rfl

theorem owners_step (h : Monitored s events) {t : ℕ} {i : Input} {new : List MonitorEvent}
    (hstep : MonitorStep s t i (Machine.step s (t, i)) new) (e : MonitorEntry)
    (he : .created e ∈ events ++ new) : (Machine.step s (t, i)).shared.Spawned e.owner := by
  refine spawned_step ?_ (t, i)
  rcases List.mem_append.mp he with he | he
  · exact h.owners e he
  · obtain ⟨owner, target, rfl, -, -, ⟨flow, rest, hs, rfl, -⟩ | ⟨rest, hs⟩⟩ :=
      created_of_step hstep he
    · exact h.sound.owned.spawned_of_frame (mem_frames_of_cons hs) (Multiset.mem_singleton_self _)
    · exact h.named _ (.inr (mem_frames_of_cons hs))

theorem looked_step (h : Monitored s events) {t : ℕ} {i : Input} {f : Frame}
    (hf : f ∈ (Machine.step s (t, i)).frames) (e : MonitorEntry) (hlooks : f.Looks e) :
    .created e ∈ events ++ monitorEvents s (t, i) := by
  rw [List.mem_append]
  cases step_cases s t i with
  | acts g rest w hs hi hw hσ hnew =>
    rcases hnew f hf with hf | hl
    · exact .inl (h.looked f (mem_frames_of_others hf) e hlooks)
    · cases hl with
      | plain hplain => cases f <;> first | exact hplain.elim | exact hlooks.elim
      | monitorRecheck =>
        refine .inr ?_
        rw [monitorEvents_of_not hs (fun hf => hf)]
        exact List.mem_singleton.mpr (congrArg _ hlooks)
      | monitorDrop => exact .inl (h.looked _ (mem_frames_of_cons hs) e hlooks)
      | _ => exact hlooks.elim
  | starts w hs hw hσ hnew =>
    rcases hnew f hf with hf | hst
    · exact .inl (h.looked f (mem_frames_of_others hf) e hlooks)
    · cases hst with
      | plain hplain => cases f <;> first | exact hplain.elim | exact hlooks.elim
      | _ => exact hlooks.elim

/-- **No monitor is lost.** -/
theorem kept_step (h : Monitored s events) {t : ℕ} {i : Input} (hguard : KeepsMonitors s (t, i))
    {new : List MonitorEvent} (hstep : MonitorStep s t i (Machine.step s (t, i)) new)
    (e : MonitorEntry) (he : .created e ∈ events ++ new) :
    .demonitored e ∈ events ++ new ∨ Finalized (Machine.step s (t, i)) e.owner ∨
      ∃ p, e ∈ (Machine.step s (t, i)).downs (givenDowns (events ++ new)) p := by
  have htable : e ∈ (Machine.step s (t, i)).shared.monitors.monitors →
      ∃ p, e ∈ (Machine.step s (t, i)).downs (givenDowns (events ++ new)) p :=
    fun he => ⟨.table, he⟩
  have hthread : e ∈ stackDowns ((Machine.step s (t, i)).threads t) →
      ∃ p, e ∈ (Machine.step s (t, i)).downs (givenDowns (events ++ new)) p :=
    fun he => ⟨.thread t, he⟩
  rcases List.mem_append.mp he with hold | hnew
  · rcases h.kept e hold with hdem | hfin | ⟨p, hp⟩
    · exact .inl (List.mem_append_left _ hdem)
    · exact .inr (.inl (hfin.step (t, i)))
    cases p with
    | table =>
      have hmem : e ∈ s.shared.monitors.monitors := hp
      -- an owner takes its own monitor out
      have hremoved : ∀ owner ref, (Machine.step s (t, i)).shared.monitors =
          (s.shared.monitors.removeOwned owner ref).1 →
          e ∈ (Machine.step s (t, i)).shared.monitors.monitors ∨
            (e.monitor = ref ∧ e.owner = owner ∧ s.shared.monitors.owned owner ref = some e) := by
        intro owner ref ht
        rcases s.shared.monitors.removeOwned_cases owner ref with
          ⟨e', he', rfl, rfl, howned, heq⟩ | ⟨-, heq⟩
        · by_cases hnum : e.monitor = e'.monitor
          · cases h.unique e e' hold (h.made .table e' he') hnum
            exact .inr ⟨rfl, rfl, howned⟩
          · rw [ht, heq]
            exact .inl (List.mem_filter.mpr ⟨hmem, by simpa using hnum⟩)
        · rw [ht, heq]
          exact .inl hmem
      cases hstep with
      | stay ht hstack => exact .inr (.inr (htable (ht ▸ hmem)))
      | create owner target hby ht hstack =>
        refine .inr (.inr (htable ?_))
        rw [ht, MonitorTable.mem_create]
        exact .inl ⟨hmem, fun heq =>
          UInt64.lt_irrefl _ (heq ▸ h.numbers (guard_of_create hguard hby).1 e hold)⟩
      | remove owner ref ht hstack =>
        rcases hremoved owner ref ht with hmem | ⟨-, -, howned⟩
        · exact .inr (.inr (htable hmem))
        · refine .inl (List.mem_append_right _ ?_)
          rw [howned]
          exact List.mem_singleton_self _
      | drop ref owner target rest hs ht hstack =>
        rcases hremoved owner ref ht with hmem' | ⟨hnum, howner, -⟩
        · exact .inr (.inr (htable hmem'))
        · unfold KeepsMonitors at hguard
          rw [hs] at hguard
          rcases hguard with hgone | hmem'
          · exact .inr (.inl (howner ▸ hgone.step (t, i)))
          · cases h.unique e _ hold (h.made .table _ hmem') hnum
            exact .inr (.inr (hthread (hstack ▸ Multiset.mem_cons_self _ _)))
      | owned cur work rest hs ht hstack =>
        by_cases howner : e.owner = cur.id
        · refine .inr (.inl (Finalized.step ?_ (t, i)))
          exact howner ▸ h.left _ (mem_frames_of_cons hs) cur rfl
        · refine .inr (.inr (htable ?_))
          rw [ht]
          exact List.mem_filter.mpr ⟨hmem, by simpa using howner⟩
      | notify cur work rest hs ht hstack =>
        by_cases htarget : e.target = cur.id
        · refine .inr (.inr (hthread ?_))
          rw [hstack]
          exact Multiset.mem_add.mpr (.inl (List.mem_filter.mpr ⟨hmem, by simpa using htarget⟩))
        · refine .inr (.inr (htable ?_))
          rw [ht]
          exact List.mem_filter.mpr ⟨hmem, by simpa using htarget⟩
      | skip owner hop rest hs hgone ht hstack => exact .inr (.inr (htable (ht ▸ hmem)))
      | give owner hop rest hs ht hstack => exact .inr (.inr (htable (ht ▸ hmem)))
    | thread r =>
      by_cases hr : r = t
      · subst hr
        have hmem : e ∈ stackDowns (s.threads r) := hp
        cases hstep with
        | drop ref owner target rest hs ht hstack =>
          exact .inr (.inr (hthread (hstack ▸ Multiset.mem_cons_of_mem hmem)))
        | notify cur work rest hs ht hstack =>
          exact .inr (.inr (hthread (hstack ▸ Multiset.mem_add.mpr (.inr hmem))))
        | skip owner hop rest hs hgone ht hstack =>
          rw [hstack, Multiset.mem_add] at hmem
          rcases hmem with hmem | hmem
          · refine .inr (.inl (Finalized.step ⟨h.owners e hold, ?_⟩ (r, i)))
            rw [owner_of_downEntry hmem]
            exact hgone
          · exact .inr (.inr (hthread hmem))
        | give owner hop rest hs ht hstack =>
          rw [hstack, Multiset.mem_add] at hmem
          rcases hmem with hmem | hmem
          · refine .inr (.inr ⟨.given, ?_⟩)
            rw [givenDowns_append, givenDowns_given]
            exact List.mem_append_right _ hmem
          · exact .inr (.inr (hthread hmem))
        | stay ht hstack => exact .inr (.inr (hthread (hstack ▸ hmem)))
        | create owner target hby ht hstack => exact .inr (.inr (hthread (hstack ▸ hmem)))
        | remove owner ref ht hstack => exact .inr (.inr (hthread (hstack ▸ hmem)))
        | owned cur work rest hs ht hstack => exact .inr (.inr (hthread (hstack ▸ hmem)))
      · refine .inr (.inr ⟨.thread r, ?_⟩)
        rwa [downs_of_ne hr]
    | given =>
      refine .inr (.inr ⟨.given, ?_⟩)
      rw [givenDowns_append]
      exact List.mem_append_left _ hp
  · obtain ⟨owner, target, rfl, -, ht, -⟩ := created_of_step hstep hnew
    refine .inr (.inr (htable ?_))
    rw [ht, MonitorTable.mem_create]
    exact .inr rfl

/-- A monitor in the table is looked after. -/
theorem watched_step (h : Monitored s events) {t : ℕ} {i : Input} (hguard : KeepsMonitors s (t, i))
    {new : List MonitorEvent} (hstep : MonitorStep s t i (Machine.step s (t, i)) new)
    (e : MonitorEntry) (he : e ∈ (Machine.step s (t, i)).shared.monitors.monitors) :
    ToPass .notify (Machine.step s (t, i)) e.target ∨
      ∃ f ∈ (Machine.step s (t, i)).frames, f.Looks e := by
  have ho := h.sound.owned
  have hold : e ∈ s.shared.monitors.monitors → ToPass .notify (Machine.step s (t, i)) e.target ∨
      ∃ f ∈ (Machine.step s (t, i)).frames, f.Looks e := by
    intro hmem
    rcases h.watched e hmem with hpass | ⟨f, hf, hlooks⟩
    · rcases hpass.step (by decide) (by decide) ho t i with hpass | ⟨stage, cur, work, rest, hs,
        hid, horder⟩
      · exact .inl hpass
      · -- the exit of the target takes its monitors out
        cases stage with
        | notify =>
          rw [step_shared, next_of_cons i hs] at he
          exact absurd hid.symm (by simpa using (List.mem_filter.mp he).2)
        | _ => simp [FinStage.order] at horder
    · rcases mem_frames_step hf t i with ⟨rest, hs⟩ | hf
      · cases f with
        | monitorRecheck ref owner target =>
          have hlooks : e = ⟨ref, owner, target⟩ := hlooks
          subst hlooks
          cases hlive : s.shared.directory target with
          | true =>
            refine .inl (.inl ?_)
            rw [step_shared, next_of_cons i hs]
            exact hlive
          | false =>
            refine .inr ⟨.monitorDrop ref owner target, mem_frames_of_next hs ?_, rfl⟩
            simp only [Frame.next, Shared.exec, hlive, if_false, Bool.false_eq_true,
              List.mem_singleton]
        | monitorDrop ref owner target =>
          have hlooks : e = ⟨ref, owner, target⟩ := hlooks
          subst hlooks
          rw [step_shared, next_of_cons i hs] at he
          change _ ∈ (s.shared.monitors.removeOwned owner ref).1.monitors at he
          rw [(h.owned_eq hmem).2] at he
          simp at he
        | _ => exact hlooks.elim
      · exact .inr ⟨f, hf, hlooks⟩
  rcases mem_table_of_step hstep he with hmem | hnew
  · exact hold hmem
  · obtain ⟨owner, target, rfl, -, -, hby⟩ := created_of_step hstep hnew
    have hfin : ∀ stage cur work rest, s.threads t ≠ .fin stage cur work :: rest := by
      intro stage cur work rest' hs'
      rcases hby with ⟨flow, rest, hs, -⟩ | ⟨rest, hs⟩ <;> rw [hs] at hs' <;> cases hs'
    rcases (guard_of_create hguard hby).2 with hpass | ⟨rest, hs⟩
    · rcases hpass.step (by decide) (by decide) ho t i with hpass | ⟨stage, cur, work, rest, hs, -⟩
      · exact .inl hpass
      · exact absurd hs (hfin _ _ _ _)
    · exact .inr ⟨_, mem_frames_of_next hs (List.mem_singleton_self _), rfl⟩

/-- **A step keeps the monitors**, if the guard holds. -/
theorem step (h : Monitored s events) (ti : ℕ × Input) (hguard : KeepsMonitors s ti) :
    Monitored (Machine.step s ti) (events ++ monitorEvents s ti) :=
  have hstep := monitor_step s ti.1 ti.2
  { sound := h.sound.step ti
    left := h.left.step h.sound.owned ti
    named := named_step h.sound h.named ti
    numbers := h.numbers_step hguard hstep
    unique := h.unique_step hguard hstep
    owners := h.owners_step hstep
    made := h.made_step hstep
    looked := fun _ hf => h.looked_step hf
    exclusive := h.exclusive_step hguard hstep
    kept := h.kept_step hguard hstep
    watched := h.watched_step hguard hstep }

end Monitored

/-! ## Exactly one `DOWN` -/

theorem count_given (events : List MonitorEvent) (e : MonitorEntry) :
    events.count (.given e) = (givenDowns events).count e := by
  induction events with
  | nil => rfl
  | cons event events ih =>
    unfold givenDowns at ih ⊢
    cases event with
    | given e' => simp [List.count_cons, ih]
    | _ => simp [ih]

/-- What happened to the monitors in a run. -/
def monitorTrace (config : MailboxConfig) (sched : List (ℕ × Input)) : List MonitorEvent :=
  Schedule.trace step monitorEvents (State.init config) sched

/-- With no operation in progress, the target of a monitor that was not removed has exited, and its
owner lives. -/
structure DownDue (config : MailboxConfig) (sched : List (ℕ × Input)) (e : MonitorEntry) :
    Prop where
  settled : Settled (run config sched)
  created : .created e ∈ monitorTrace config sched
  kept : .demonitored e ∉ monitorTrace config sched
  owner : (run config sched).shared.directory e.owner = true
  target : Finalized (run config sched) e.target

/-- **When monitors deliver `DOWN` exactly once.** In a run that keeps the monitors, the owner of a
monitor is never given more than one `DOWN` for it, and it is given one once the target has
exited. -/
theorem down_exactly_once (config : MailboxConfig) (sched : List (ℕ × Input))
    (hguard : Schedule.Guarded step KeepsMonitors (State.init config) sched) (e : MonitorEntry) :
    ((run config sched).shared.directory e.owner = true →
        (monitorTrace config sched).count (.given e) ≤ 1) ∧
      (DownDue config sched e → (monitorTrace config sched).count (.given e) = 1) := by
  have hinv : Monitored (run config sched) (monitorTrace config sched) :=
    Schedule.Guarded.trace_invariant (fun s ti es hti h => h.step ti hti) (monitored_init config)
      hguard
  have hatmost : (run config sched).shared.directory e.owner = true →
      (monitorTrace config sched).count (.given e) ≤ 1 := by
    intro hlive
    have hcounts : ¬Finalized (run config sched) e.owner := by
      rintro ⟨-, hdir⟩
      rw [hlive] at hdir
      cases hdir
    have hnodup := Multiset.nodup_iff_count_le_one.mp (hinv.exclusive.nodup .given) e
    rw [Multiset.count_filter, if_pos hcounts] at hnodup
    rwa [count_given, ← Multiset.coe_count]
  refine ⟨hatmost, fun hdue => le_antisymm (hatmost hdue.owner) ?_⟩
  rw [count_given, Nat.one_le_iff_ne_zero, ← Nat.pos_iff_ne_zero, List.count_pos_iff]
  have hquiet : ∀ f ∈ (run config sched).frames, f.downEntries = [] ∧ ¬f.Looks e ∧
      ∀ stage cur work, f ≠ .fin stage cur work := by
    intro f hf
    have hrunning := hdue.settled f hf
    cases f with
    | run flow => exact ⟨rfl, fun h => h, by simp⟩
    | drive flow => exact ⟨rfl, fun h => h, by simp⟩
    | _ => exact hrunning.elim
  rcases hinv.kept e hdue.created with hdem | ⟨-, hdir⟩ | ⟨p, hp⟩
  · exact absurd hdem hdue.kept
  · rw [hdue.owner] at hdir
    cases hdir
  cases p with
  | table =>
    -- the target is through its monitors, so somebody looks after this one
    rcases hinv.watched e hp with hpass | ⟨f, hf, hlooks⟩
    · have hdir := hpass.directory fun stage cur work hf => (hquiet _ hf).2.2 stage cur work rfl
      rw [hdue.target.2] at hdir
      cases hdir
    · exact absurd hlooks (hquiet f hf).2.1
  | thread t =>
    have hnil : stackDowns ((run config sched).threads t) = 0 :=
      stackDowns_eq_zero fun f hf => (hquiet f ⟨t, hf⟩).1
    change e ∈ stackDowns ((run config sched).threads t) at hp
    rw [hnil] at hp
    cases Multiset.notMem_zero _ hp
  | given => exact hp

/-- A monitor is created in bytecode while its target is registered, and `Runtime::monitor` drops
a monitor that is there. -/
def MonitorsLive (s : State) (ti : ℕ × Input) : Prop :=
  match s.threads ti.1 with
  | .monitorDrop ref owner target :: _ => ⟨ref, owner, target⟩ ∈ s.shared.monitors.monitors
  | .run _ :: _ =>
    match (s.next ti.1 ti.2).1.write with
    | .monitorCreate _ target =>
      s.shared.monitors.nextMonitor ≠ 0 ∧ s.shared.directory target = true
    | _ => True
  | .relateMake (.monitor _ _) :: _ => s.shared.monitors.nextMonitor ≠ 0
  | _ => True

instance (s : State) (ti : ℕ × Input) : Decidable (MonitorsLive s ti) := by
  delta MonitorsLive
  generalize (s.next ti.1 ti.2).1.write = w
  generalize s.threads ti.1 = frames
  induction frames using List.casesOn with
  | nil => exact inferInstanceAs (Decidable True)
  | cons f rest =>
    induction f using Frame.casesOn with
    | run flow => induction w using Write.casesOn <;> dsimp only <;> infer_instance
    | relateMake relation =>
      induction relation using Relation.casesOn <;> dsimp only <;> infer_instance
    | _ =>
      dsimp only
      infer_instance

theorem MonitorsLive.keeps {ti : ℕ × Input} (h : MonitorsLive s ti) : KeepsMonitors s ti := by
  unfold MonitorsLive at h
  unfold KeepsMonitors
  split
  · rename_i hs
    rw [hs] at h
    exact .inr h
  · rename_i hs
    rw [hs] at h
    split
    · rename_i hw
      simp only [hw] at h
      exact ⟨h.1, .inl h.2⟩
    · trivial
  · rename_i hs
    rwa [hs] at h
  · trivial

/-- Flow 1 monitors flow 2, which completes. -/
def monitorThenComplete : List (ℕ × Input) :=
  twoRunning ++ [(0, .vm (.monitor 2)), (1, .vm (.complete .unit))] ++ steps 1 19

theorem down_exactly_once_complete :
    (monitorTrace .default monitorThenComplete).count (.given ⟨1, 1, 2⟩) = 1 :=
  have hlive : Schedule.Guarded step MonitorsLive (State.init .default) monitorThenComplete := by
    decide +kernel
  (down_exactly_once .default monitorThenComplete (hlive.mono fun _ _ h => h.keeps) ⟨1, 1, 2⟩).2
    { settled := settled_of_scheduled (by decide +kernel)
      created := by decide +kernel
      kept := by decide +kernel
      owner := by decide +kernel
      target := by decide +kernel }

/-- Flow 2 completes before flow 1, which has its cap, gets to create the monitor. -/
def completeThenMonitor : List (ℕ × Input) :=
  twoRunning ++ [(1, .vm (.complete .unit))] ++ steps 1 15 ++ [(0, .vm (.monitor 2))]

/-- The host creates a monitor of flow 1 on flow 2, which completes before the host looks at it
again. -/
def hostLooksLate : List (ℕ × Input) :=
  twoRunning ++ [(2, .start (.monitor 1 2))] ++ steps 2 3 ++ [(1, .vm (.complete .unit))] ++
    steps 1 19 ++ steps 2 5

/-- There is a monitor without a `DOWN`, and there is one with two. -/
theorem down_none_and_two :
    (∃ config sched e, DownDue config sched e ∧
        (monitorTrace config sched).count (.given e) = 0) ∧
      ∃ config sched e, DownDue config sched e ∧
        (monitorTrace config sched).count (.given e) = 2 := by
  refine ⟨⟨.default, completeThenMonitor, ⟨1, 1, 2⟩, ⟨?_, ?_, ?_, ?_, ?_⟩, by decide +kernel⟩,
    .default, hostLooksLate, ⟨1, 1, 2⟩, ⟨?_, ?_, ?_, ?_, ?_⟩, by decide +kernel⟩
  all_goals first | exact settled_of_scheduled (by decide +kernel) | decide +kernel

end Machine

end Byteflow
