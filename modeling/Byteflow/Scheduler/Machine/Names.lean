import Byteflow.Scheduler.Machine.Exit

/-!
# Names of flows that are gone

The finalization of a flow sweeps its names. `spawn_child` and `register_name` bind a name to a
flow that they have spawned or found live, in a critical section of its own: the flow may have been
through its names by then, and keeps this one for ever (`name_of_dead_flow`). In a run in which no
flow gets a name so late (`NamesInTime`), the registry has no name of a flow that is gone
(`names_live`).
-/

namespace Byteflow

namespace Machine

variable {s : State}

/-- A name is bound while its flow is registered or has yet to go through its names. -/
def NamesInTime (s : State) (ti : ℕ × Input) : Prop :=
  match (s.next ti.1 ti.2).1.write with
  | .nameRegister name cap flow =>
    (s.shared.registry.register name cap flow).2.isOk = true → ToPass .names s flow
  | _ => True

/-- What a run whose names are bound in time preserves. -/
structure Named (s : State) : Prop where
  sound : Sound s
  coherent : s.shared.registry.Coherent
  swept : ∀ name flow, s.shared.registry.target name = some flow → ToPass .names s flow

theorem named_init (config : MailboxConfig) : Named (State.init config) where
  sound := sound_init config
  coherent := Registry.Coherent.new
  swept := nofun

/-- What a step writes in the registry. -/
theorem registry_step (s : State) (t : ℕ) (i : Input) :
    (step s (t, i)).shared.registry = (s.next t i).1.write.registry s.shared := by
  rw [step_shared]
  exact (exec_written _ _).registry

namespace Named

theorem coherent_step (h : Named s) (t : ℕ) (i : Input) :
    (Machine.step s (t, i)).shared.registry.Coherent := by
  rw [registry_step]
  cases (s.next t i).1.write with
  | nameRegister name cap flow => exact h.coherent.register name cap flow
  | nameUnregister name => exact h.coherent.unregister name
  | nameSweep flow => exact h.coherent.unregisterFlow flow
  | _ => exact h.coherent

/-- A name is new, or it stood for the same flow before and was not swept. -/
theorem target_step (h : Named s) {t : ℕ} {i : Input} {name : String} {flow : FlowId}
    (hname : (Machine.step s (t, i)).shared.registry.target name = some flow) :
    (∃ cap, (s.next t i).1.write = .nameRegister name cap flow ∧
        (s.shared.registry.register name cap flow).2.isOk = true) ∨
      (s.shared.registry.target name = some flow ∧ (s.next t i).1.write ≠ .nameSweep flow) := by
  rw [registry_step] at hname
  cases hwrite : (s.next t i).1.write with
  | nameRegister name' cap flow' =>
    rw [hwrite, Write.registry] at hname
    rcases s.shared.registry.register_cases name' cap flow' with ⟨-, hok, htarget, -⟩ | hsame
    · rw [htarget] at hname
      by_cases hn : name = name'
      · subst hn
        rw [Function.update_self, Option.some.injEq] at hname
        subst hname
        exact .inl ⟨cap, rfl, hok⟩
      · rw [Function.update_of_ne hn] at hname
        exact .inr ⟨hname, nofun⟩
    · rw [hsame] at hname
      exact .inr ⟨hname, nofun⟩
  | nameUnregister name' =>
    rw [hwrite, Write.registry, Registry.target_unregister] at hname
    refine .inr ⟨?_, nofun⟩
    by_cases hn : name = name'
    · rw [hn, Function.update_self] at hname
      cases hname
    · rwa [Function.update_of_ne hn] at hname
  | nameSweep flow' =>
    rw [hwrite, Write.registry, h.coherent.target_unregisterFlow] at hname
    split_ifs at hname with hswept
    refine .inr ⟨hname, fun heq => hswept ?_⟩
    cases heq
    exact hname
  | _ =>
    rw [hwrite] at hname
    exact .inr ⟨hname, nofun⟩

/-- **A step leaves no name behind**, if it binds none too late. -/
theorem step (h : Named s) (ti : ℕ × Input) (hguard : NamesInTime s ti) :
    Named (Machine.step s ti) where
  sound := h.sound.step ti
  coherent := h.coherent_step ti.1 ti.2
  swept := by
    intro name flow hname
    have hpass : ToPass .names s flow ∧ (s.next ti.1 ti.2).1.write ≠ .nameSweep flow := by
      rcases h.target_step hname with ⟨cap, hwrite, hok⟩ | ⟨hold, hkept⟩
      · unfold NamesInTime at hguard
        rw [hwrite] at hguard ⊢
        exact ⟨hguard hok, nofun⟩
      · exact ⟨h.swept name flow hold, hkept⟩
    rcases hpass.1.step (by decide) (by decide) h.sound.owned ti.1 ti.2 with hpass |
      ⟨stage, cur, work, rest, hs, rfl, horder⟩
    · exact hpass
    · -- the finalization that acts sweeps the names of its flow
      cases stage with
      | names => exact absurd (by rw [next_of_cons ti.2 hs]; rfl) hpass.2
      | _ => simp [FinStage.order] at horder

end Named

/-- **When the registry keeps no dead flow.** In a run whose names are bound in time, with no
operation in progress, no name stands for a flow that is gone. A name is refused as taken only if
it stands for a flow whose names are still to be swept. -/
theorem names_live (config : MailboxConfig) (sched : List (ℕ × Input))
    (hguard : Schedule.Guarded step NamesInTime (State.init config) sched) :
    (Settled (run config sched) → ∀ name flow,
        (run config sched).shared.registry.target name = some flow →
        ¬Finalized (run config sched) flow) ∧
      ∀ name cap flow,
        ((run config sched).shared.registry.register name cap flow).2 =
          .error .alreadyRegistered →
        ∃ holder, (run config sched).shared.registry.target name = some holder ∧
          ToPass .names (run config sched) holder := by
  have hinv : Named (run config sched) :=
    hguard.invariant (fun s ti hti h => h.step ti hti) (named_init config)
  refine ⟨?_, fun name cap flow htaken => ?_⟩
  · rintro hsettled name flow hname ⟨-, hdir⟩
    have hlive := (hinv.swept name flow hname).directory fun stage cur work hf => hsettled _ hf
    rw [hdir] at hlive
    cases hlive
  · obtain ⟨holder, hholder⟩ := Registry.taken_of_register htaken
    exact ⟨holder, hholder, hinv.swept name holder hholder⟩

/-- A name is bound to a flow that is registered. -/
def NamesRegistered (s : State) (ti : ℕ × Input) : Prop :=
  match (s.next ti.1 ti.2).1.write with
  | .nameRegister _ _ flow => s.shared.directory flow = true
  | _ => True

instance (s : State) (ti : ℕ × Input) : Decidable (NamesRegistered s ti) := by
  delta NamesRegistered
  generalize (s.next ti.1 ti.2).1.write = w
  induction w using Write.casesOn <;> dsimp only <;> infer_instance

theorem NamesRegistered.inTime {ti : ℕ × Input} (h : NamesRegistered s ti) : NamesInTime s ti := by
  unfold NamesRegistered at h
  unfold NamesInTime
  split
  · rename_i hw
    simp only [hw] at h
    exact fun _ => .inl h
  · trivial

/-- The supervisor spawns flow 1 under a name, and again when the flow has failed. -/
def restartNamed : List (ℕ × Input) :=
  [(0, .start (.spawnChild "db" ⟨7⟩)), (0, .pick 0), (0, .pick 0), (1, .start (.work 0)),
    (1, .pick 0), (1, .vm (.trap "division by zero"))] ++ steps 1 20 ++
    [(0, .start (.spawnChild "db" ⟨8⟩)), (0, .pick 0), (0, .pick 0)]

theorem names_live_restart : ¬Finalized (run .default restartNamed) 2 :=
  have hreg : Schedule.Guarded step NamesRegistered (State.init .default) restartNamed := by
    decide +kernel
  have hsettled : Settled (run .default restartNamed) := settled_of_scheduled (by decide +kernel)
  (names_live .default restartNamed (hreg.mono fun _ _ h => h.inTime)).1 hsettled "db" 2
    (by decide +kernel)

/-- The supervisor spawns flow 1, which fails before it gets its name. -/
def trapBeforeName : List (ℕ × Input) :=
  [(0, .start (.spawnChild "db" ⟨7⟩)), (0, .pick 0), (1, .start (.work 0)), (1, .pick 0),
    (1, .vm (.trap "division by zero"))] ++ steps 1 20 ++ [(0, .pick 0)]

/-- With no operation in progress the name stands for the dead flow, and its successor is
refused. -/
theorem name_of_dead_flow :
    Settled (run .default trapBeforeName) ∧ Finalized (run .default trapBeforeName) 1 ∧
      (run .default trapBeforeName).shared.registry.target "db" = some 1 ∧
      ((run .default trapBeforeName).shared.registry.register "db" ⟨8⟩ 2).2 =
        .error .alreadyRegistered := by
  refine ⟨settled_of_scheduled ?_, ?_, ?_, rfl⟩
  all_goals decide +kernel

end Machine

end Byteflow
