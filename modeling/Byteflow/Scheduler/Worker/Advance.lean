import Byteflow.Scheduler.Machine.Flows
import Byteflow.Scheduler.Worker.Table

/-!
# Steps of the machine

What a step of the machine does to the facts of a worker. In a worker the machine registers no flow;
it unregisters a flow, and takes its capabilities away, once the flow has exited.
-/

namespace Byteflow

namespace Machine

/-- Only a spawn of the VM registers a flow. -/
theorem register_of_next {f : Frame} {i : Input} {k : Flow Hop → List Frame}
    (h : f.next i = .register k) : ∃ flow, f = .run flow ∧ i = .vm .spawn := by
  have hw := Frame.next_writes i f
  rw [h] at hw
  generalize hwrite : (Action.register k).write = w at hw
  cases hw with
  | spawn flow =>
    refine ⟨flow, rfl, ?_⟩
    cases i with
    | vm result =>
      cases result with
      | spawn => rfl
      | monitor target =>
        simp only [Frame.next, effect] at h
        split_ifs at h
      | link target =>
        simp only [Frame.next, effect] at h
        split_ifs at h
      | registerName name cap =>
        simp only [Frame.next, effect] at h
        split_ifs at h
      | _ => cases h
    | _ => cases h
  | _ => cases hwrite

end Machine

namespace Worker

open Function (update)

variable {c : Config} {strict : Prop} {k : Context} {s s' : State} {t : ℕ} {input : Machine.Input}
  {env : Env}

/-! ## The processes -/

/-- The boxes are those that were built. -/
def SameBoxes (s s' : State) : Prop :=
  ∀ id, (s'.processes id).authority = (s.processes id).authority ∧
    (s'.processes id).vm.program = (s.processes id).vm.program

theorem SameBoxes.refl (s : State) : SameBoxes s s := fun _ => ⟨rfl, rfl⟩

theorem SameBoxes.trans {s'' : State} (h : SameBoxes s s') (h' : SameBoxes s' s'') :
    SameBoxes s s'' :=
  fun id => ⟨(h' id).1.trans (h id).1, (h' id).2.trans (h id).2⟩

theorem sameBoxes_setProcess {id : FlowId} {p : Process}
    (ha : p.authority = (s.processes id).authority)
    (hp : p.vm.program = (s.processes id).vm.program) : SameBoxes s (s.setProcess id p) := by
  intro id'
  by_cases hid : id' = id
  · subst hid
    simp only [State.setProcess, Function.update_self]
    exact ⟨ha, hp⟩
  · simp only [State.setProcess, Function.update_of_ne hid, and_self]

theorem sameBoxes_resume (s : State) (env : Env) (id : FlowId) (destReg : UInt8) (value : Value) :
    SameBoxes s (s.resume env id destReg value) :=
  sameBoxes_setProcess rfl (Vm.setReg_cases _ _ _ _).1

theorem sameBoxes_refund (s : State) (id : FlowId) (bytes : ℕ) :
    SameBoxes s (s.refund id bytes) := sameBoxes_setProcess rfl rfl

theorem sameBoxes_settle (s : State) (env : Env) (f : Machine.Frame) :
    SameBoxes s (s.settle env f) :=
  settle_induct (.refl s) (fun _ _ _ _ h => h.trans (sameBoxes_refund _ _ _))
    (fun _ _ _ h => h.trans (sameBoxes_resume _ _ _ _ _)) fun _ _ _ h => h

theorem sameBoxes_advance (s : State) (t : ℕ) (input : Machine.Input) (env : Env) :
    SameBoxes s (s.advance t input env) := by
  unfold State.advance
  dsimp only
  split
  · exact sameBoxes_settle s env _
  · exact .refl s

/-! ## The facts -/

/-- The capabilities of a flow that has exited are taken away. -/
theorem revoked_sound (hs : Consistent strict s) {id : FlowId} (hid : s.Exited id) :
    Consistent strict (s.withCaps (s.caps.revokeFlow id)) ∧
      Grows strict s (s.withCaps (s.caps.revokeFlow id)) := by
  have hcell {id' : FlowId} {cell : CellId}
      (h : update s.caps.flowCells id none id' = some cell) :
      id' ≠ id ∧ s.caps.flowCells id' = some cell := by
    by_cases hid' : id' = id
    · rw [hid', Function.update_self] at h
      cases h
    · rw [Function.update_of_ne hid'] at h
      exact ⟨hid', h⟩
  have hkeep {id' : FlowId} {cell : CellId} (hne : id' ≠ id)
      (h : s.caps.flowCells id' = some cell) :
      (s.caps.revokeFlow id).flowCells id' = some cell ∧
        (s.caps.revokeFlow id).epoch cell = s.caps.epoch cell := by
    refine ⟨(Function.update_of_ne hne _ _).trans h, ?_⟩
    cases hown : s.caps.flowCells id with
    | none => simp only [CapTable.revokeFlow, hown, Option.elim]
    | some own =>
      simp only [CapTable.revokeFlow, hown, Option.elim]
      refine Function.update_of_ne ?_ _ _
      rintro rfl
      exact hne (hs.distinct _ _ _ h hown)
  have hgrows : Grows strict s (s.withCaps (s.caps.revokeFlow id)) :=
    { @Grows.refl strict s with
      cellOf := fun id' cell hc => by
        by_cases hne : id' = id
        · exact .inl (hne ▸ hid)
        · exact hc.imp_right fun hc => (hkeep hne hc).1
      epochOf := fun id' epoch he => by
        by_cases hne : id' = id
        · exact .inl (hne ▸ hid)
        · exact he.imp_right fun ⟨cell, hc, he⟩ =>
            ⟨cell, (hkeep hne hc).1, (hkeep hne hc).2.trans he⟩ }
  refine ⟨{ hs with
    cells := fun id' cell h => hs.cells id' cell (hcell h).2
    distinct := fun id₁ id₂ cell h₁ h₂ => hs.distinct id₁ id₂ cell (hcell h₁).2 (hcell h₂).2
    epoch := fun cell hlt => ?_
    given := fun token entry he => ?_
    current := fun token entry hg => ?_
    lasting := fun token entry hg => ?_ }, hgrows⟩
  · cases hown : s.caps.flowCells id with
    | none =>
      simp only [State.withCaps, CapTable.revokeFlow, hown, Option.elim]
      exact hs.epoch cell hlt
    | some own =>
      simp only [State.withCaps, CapTable.revokeFlow, hown, Option.elim]
      rw [Function.update_of_ne]
      · exact hs.epoch cell hlt
      · rintro rfl
        exact absurd (hs.cells id cell hown).1 (Nat.not_le.mpr hlt)
  · exact hs.given token entry (Option.eq_some_of_filter_eq_some he)
  · exact (hs.current token entry hg).imp_right fun hc => hc.mono hgrows
  · rcases hs.lasting token entry hg with hh | ht | he
    · exact .inl hh
    · exact .inr (.inl ht)
    · by_cases hholder : entry.holder = id
      · exact .inl (hholder ▸ hid)
      by_cases htarget : entry.cap.target = .flow id
      · exact .inr (.inl ⟨id, target_eq_some.mpr htarget, hid⟩)
      · refine .inr (.inr ?_)
        show (s.caps.entries token).filter _ = some entry
        rw [he, Option.filter_some, if_pos]
        simp only [decide_eq_true_eq]
        exact ⟨hholder, htarget⟩

/-- The machine went on. -/
def State.moved (s : State) (machine : Machine.State) (exits : List FlowId)
    (hops : List Machine.Issue) : State :=
  { s with
    machine := machine
    log := { s.log with exited := exits ++ s.log.exited, hops := s.log.hops ++ hops } }

/-- The machine went on, without a new flow. -/
theorem moved_sound (hs : Consistent strict s) {machine : Machine.State} {exits : List FlowId}
    (hops : List Machine.Issue)
    (hnext : machine.shared.nextFlowId = s.machine.shared.nextFlowId)
    (hdir : ∀ id, machine.shared.directory id = true → s.machine.shared.directory id = true)
    (hgone : ∀ id, s.machine.shared.directory id = true →
      machine.shared.directory id = true ∨ s.Exited id) (hexits : ∀ id ∈ exits, s.WasLive id) :
    Consistent strict (s.moved machine exits hops) ∧
      Grows strict s (s.moved machine exits hops) := by
  have hallocated {id : FlowId} : (s.moved machine exits hops).Allocated id ↔ s.Allocated id := by
    unfold State.Allocated State.moved
    rw [hnext]
  have hexited {id : FlowId} : s.Exited id → (s.moved machine exits hops).Exited id :=
    fun he => List.mem_append_right _ he
  have hlive {id : FlowId} (h : (s.moved machine exits hops).WasLive id) : s.WasLive id := by
    refine ⟨hallocated.mp h.1, ?_⟩
    rcases h.2 with hd | he
    · exact .inl (hdir id hd)
    · rcases List.mem_append.mp he with he | he
      · exact (hexits id he).2
      · exact .inr he
  have hgrows : Grows strict s (s.moved machine exits hops) :=
    { @Grows.refl strict s with
      exited := fun _ => hexited
      wasLive := fun id hl => by
        refine ⟨hallocated.mpr hl.1, ?_⟩
        rcases hl.2 with hd | he
        · exact (hgone id hd).imp_right hexited
        · exact .inr (hexited he)
      allocated := fun _ => hallocated.mpr
      cellOf := fun _ _ hc => hc.imp_left hexited
      epochOf := fun _ _ he => he.imp_left hexited
      hops := fun _ hi => List.mem_append_left _ hi }
  refine ⟨{ hs with
    current := fun token entry hg => ?_
    lasting := fun token entry hg => ?_
    directory := fun id hd => hallocated.mpr (hs.directory id (hdir id hd))
    exited := fun id he => ?_
    host := ⟨hallocated.mpr hs.host.1, hs.host.2⟩
    parents := fun id parent rights args ha ho =>
      hallocated.mpr (hs.parents id parent rights args (hallocated.mp ha) ho)
    spawned := fun id parent rights args hl => hs.spawned id parent rights args (hlive hl) },
    hgrows⟩
  · exact ⟨hallocated.mpr (hs.current token entry hg).1, (hs.current token entry hg).2.mono hgrows⟩
  · rcases hs.lasting token entry hg with hh | ⟨flow, ht, hf⟩ | he
    · exact .inl (hexited hh)
    · exact .inr (.inl ⟨flow, ht, hexited hf⟩)
    · exact .inr (.inr he)
  · rcases List.mem_append.mp he with he | he
    · exact hallocated.mpr (hexits id he).1
    · exact hallocated.mpr (hs.exited id he)

/-! ## What the machine takes for granted -/

/-- The flows of the machine were live, none has a pending message, and whom the scheduler takes
for exited has. -/
structure Tracked (s : State) : Prop where
  honest : Machine.Honest s.WasLive s.Exited s.machine
  flows : Machine.Flows (fun flow => s.WasLive flow.id ∧ flow.pendingMessage = none) s.machine

theorem kept_tracked (s : State) :
    Machine.Kept (fun flow => s.WasLive flow.id ∧ flow.pendingMessage = none) where
  dest := fun _ _ h => h
  message := fun _ h => ⟨h.1, rfl⟩
  send := fun _ _ h => h

/-- The input of a step of the machine is one that a worker may give. -/
structure Permitted (s : State) (t : ℕ) (input : Machine.Input) : Prop where
  vm : ∀ flow rest result, s.machine.threads t = .run flow :: rest → input = .vm result →
    result.Awaits s.WasLive ∧ result ≠ .spawn
  start : s.top t = none → ofMachine input = true

theorem Permitted.noRegister (h : Permitted s t input) (k : Flow Hop → List Machine.Frame) :
    (s.machine.next t input).1 ≠ .register k := by
  intro hreg
  rcases Machine.next_cases s.machine t input with ⟨f, rest, hs, hn⟩ | ⟨hs, ⟨op, hi, hn⟩ | hn⟩
  · rw [hn] at hreg
    obtain ⟨flow, rfl, rfl⟩ := Machine.register_of_next hreg
    exact (h.vm flow rest _ hs rfl).2 rfl
  · rw [hn] at hreg
    have hop : ofMachine input = true := h.start (by unfold State.top; rw [hs]; rfl)
    subst hi
    cases op with
    | spawn => cases hop
    | spawnChild name cap => cases hop
    | _ => cases hreg
  · rw [hn] at hreg
    cases hreg

theorem Permitted.nextFlowId (h : Permitted s t input) :
    (Machine.step s.machine (t, input)).shared.nextFlowId = s.machine.shared.nextFlowId := by
  rw [Machine.step_shared, (Machine.exec_written _ _).nextFlowId]
  cases haction : (s.machine.next t input).1 with
  | register k => exact absurd haction (h.noRegister k)
  | _ => rfl

/-- The machine unregisters no flow but one that has exited. -/
theorem Permitted.directory (h : Permitted s t input) (ht : Tracked s) (id : FlowId) :
    ((Machine.step s.machine (t, input)).shared.directory id = true →
        s.machine.shared.directory id = true) ∧
      (s.machine.shared.directory id = true →
        (Machine.step s.machine (t, input)).shared.directory id = true ∨ s.Exited id) := by
  rcases Machine.ClosedBefore.directory_cases s.machine t input with ⟨hd, -⟩ | ⟨-, hn⟩ |
    ⟨cur, work, rest, hs, hd, -⟩
  · rw [hd]
    exact ⟨fun h => h, .inl⟩
  · rw [h.nextFlowId] at hn
    exact absurd hn (Nat.ne_of_lt (Nat.lt_succ_self _))
  · have hcur : s.Exited cur.id :=
      (ht.honest.frames _ (Machine.mem_frames_of_cons hs)).1.resolve_left nofun
    rw [hd]
    by_cases hid : id = cur.id
    · rw [hid, Function.update_self]
      exact ⟨nofun, fun _ => .inr hcur⟩
    · rw [Function.update_of_ne hid]
      exact ⟨fun h => h, .inl⟩

theorem wasLive_of_exits (ht : Tracked s) {id : FlowId}
    (hid : id ∈ Machine.exits s.machine (t, input)) : s.WasLive id := by
  unfold Machine.exits at hid
  split at hid
  · rename_i cur work rest hs
    split_ifs at hid
    · cases hid
    · rw [List.mem_singleton.mp hid]
      exact (ht.flows.frames _ (Machine.mem_frames_of_cons hs) cur.flow List.mem_cons_self).1
  · cases hid

theorem settle_caps (s : State) (env : Env) (f : Machine.Frame) : (s.settle env f).caps =
    match forgets f with
    | some id => s.caps.revokeFlow id
    | none => s.caps := by
  cases hf : forgets f <;> simp only [State.settle, hf] <;> split <;> split <;> rfl

theorem advance_agrees (s : State) (t : ℕ) (input : Machine.Input) (env : Env) :
    Agrees ((s.withCaps (s.advance t input env).caps).moved (Machine.step s.machine (t, input))
      (Machine.exits s.machine (t, input)) (Machine.issued s.machine (t, input)))
      (s.advance t input env) :=
  ⟨rfl, rfl, rfl, rfl, rfl, rfl, rfl, .rfl, rfl, rfl, fun _ h => h, fun _ h => h⟩

/-- **The machine goes on.** -/
theorem advance_sound (env : Env) (hs : Consistent strict s) (ht : Tracked s)
    (h : Permitted s t input) :
    Consistent strict (s.advance t input env) ∧ Grows strict s (s.advance t input env) := by
  have hcaps : Consistent strict (s.withCaps (s.advance t input env).caps) ∧
      Grows strict s (s.withCaps (s.advance t input env).caps) := by
    have hcaps : (s.advance t input env).caps = s.caps ∨
        ∃ id, s.Exited id ∧ (s.advance t input env).caps = s.caps.revokeFlow id := by
      unfold State.advance
      dsimp only
      split
      · rename_i f htop
        rw [settle_caps]
        split
        · rename_i id hforgets
          refine .inr ⟨id, ?_, rfl⟩
          obtain ⟨rest, hs⟩ := State.cons_of_top htop
          unfold forgets at hforgets
          split at hforgets
          · cases hforgets
            exact (ht.honest.frames _ (Machine.mem_frames_of_cons hs)).1.resolve_left nofun
          · cases hforgets
        · exact .inl rfl
      · exact .inl rfl
    rcases hcaps with he | ⟨id, hid, he⟩ <;> rw [he]
    · exact ⟨hs, .refl s⟩
    · exact revoked_sound hs hid
  obtain ⟨hs₁, hgrows₁⟩ := hcaps
  obtain ⟨hs₂, hgrows₂⟩ := moved_sound hs₁ (Machine.issued s.machine (t, input)) h.nextFlowId
    (fun id => (h.directory ht id).1) (fun id => (h.directory ht id).2)
    (fun id => wasLive_of_exits ht)
  have hagrees := advance_agrees s t input env
  exact ⟨hagrees.consistent hs₂, (hgrows₁.trans hgrows₂).trans hagrees.grows⟩

theorem Tracked.advance (ht : Tracked s) (hs : Consistent strict s) (h : Permitted s t input) :
    Tracked (s.advance t input env) := by
  have hgrows := (advance_sound env hs ht h).2
  constructor
  · refine ht.honest.step (t, input) hgrows.wasLive hgrows.exited ?_ ?_ ?_ ?_
    · exact fun id hd => ⟨hs.directory id hd, .inl hd⟩
    · intro id hl hd
      refine hl.2.resolve_left fun hd' => ?_
      rw [hd] at hd'
      cases hd'
    · exact fun id hid => List.mem_append_left _ hid
    · exact fun flow rest result hrun hi => (h.vm flow rest result hrun hi).1
  · refine (ht.flows.step (kept_tracked s) (t, input) ?_).mono fun flow hflow =>
      ⟨hgrows.wasLive _ hflow.1, hflow.2⟩
    exact fun k hreg => absurd hreg (h.noRegister k)

/-- The machine as it was, but for a new flow that becomes runnable. -/
theorem Tracked.congr (ht : Tracked s) (hgrows : Grows strict s s')
    (hthreads : s'.machine.threads = s.machine.threads)
    (hmailboxes : s'.machine.shared.mailboxes = s.machine.shared.mailboxes)
    (htimers : s'.machine.shared.timers = s.machine.shared.timers)
    (hqueues : ∀ flow ∈ s'.machine.shared.queues, flow ∈ s.machine.shared.queues ∨
      ∃ id, flow = .new id ∧ s'.WasLive id) : Tracked s' := by
  have hframes : s'.machine.frames = s.machine.frames := by
    unfold Machine.State.frames
    rw [hthreads]
  have hflow {flow : Flow Hop} (h : s.WasLive flow.id ∧ flow.pendingMessage = none) :
      s'.WasLive flow.id ∧ flow.pendingMessage = none := ⟨hgrows.wasLive _ h.1, h.2⟩
  refine ⟨⟨?_, ?_⟩, ⟨?_, ?_, ?_, ?_⟩⟩
  · rw [hframes]
    exact fun f hf => (ht.honest.frames f hf).mono hgrows.wasLive hgrows.exited
  · rw [hmailboxes]
    exact fun id w hw => (ht.honest.waiting id w hw).mono hgrows.wasLive
  · rw [hframes]
    exact fun f hf flow hmem => hflow (ht.flows.frames f hf flow hmem)
  · rw [hmailboxes]
    exact fun id => ⟨fun flow hp => hflow ((ht.flows.mailboxes id).parked flow hp),
      fun w hw => hflow ((ht.flows.mailboxes id).waiting w hw)⟩
  · intro flow hmem
    rcases hqueues flow hmem with hmem | ⟨id, rfl, hid⟩
    · exact hflow (ht.flows.queues flow hmem)
    · exact ⟨hid, rfl⟩
  · rw [htimers]
    exact fun flow hmem => hflow (ht.flows.timers flow hmem)

end Worker

end Byteflow
