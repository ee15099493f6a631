import Byteflow.Scheduler.Worker.Step

/-!
# What a worker's step can do

A step of the machine, a step of the loop of `drive_process`, or a step of a call (`Stepped`). The
machine's own step changes its state and, for a flow that gets a value or its bytes back or that is
finalized, what the worker keeps of it.
-/

namespace Byteflow

namespace Worker

variable {c : Config} {s : State}

namespace State

variable {t : ℕ}

@[simp] theorem driven_eq_some {id : FlowId} : s.driven t = some id ↔
    ∃ flow rest, s.machine.threads t = .run flow :: rest ∧ flow.id = id := by
  unfold driven top
  cases s.machine.threads t with
  | nil => simp
  | cons f rest => cases f <;> simp

theorem driven_of_top {flow : Flow Hop} (h : s.top t = some (.run flow)) :
    s.driven t = some flow.id := by
  unfold driven
  rw [h]

theorem driven_congr {s' : State} (h : s'.machine.threads t = s.machine.threads t) :
    s'.driven t = s.driven t := by
  unfold driven top
  rw [h]

theorem top_of_cons {f : Machine.Frame} {rest : List Machine.Frame}
    (h : s.machine.threads t = f :: rest) : s.top t = some f := by
  unfold top
  rw [h]
  rfl

theorem cons_of_top {f : Machine.Frame} (h : s.top t = some f) :
    ∃ rest, s.machine.threads t = f :: rest := by
  unfold top at h
  cases hs : s.machine.threads t with
  | nil =>
    rw [hs] at h
    cases h
  | cons g rest =>
    rw [hs] at h
    cases h
    exact ⟨rest, rfl⟩

theorem nil_of_top (h : s.top t = none) : s.machine.threads t = [] := by
  unfold top at h
  exact List.head?_eq_none_iff.mp h

end State

/-- What an operation does: one on the tables, a new flow, or another box in its place. -/
inductive Execs (s : State) (env : Env) : Op → State → Prop
  | tables (op) : Execs s env (.tables op) (s.execTables env op).1
  | allocate (origin) : Execs s env (.allocate origin) (s.exec env (.allocate origin)).1
  | hostRequestId :
      Execs s env .hostRequestId { s with hostNextRequestId := s.hostNextRequestId + 1 }
  | process {op} (id process) : Execs s env op (s.setProcess id process)
  | same {op} : Execs s env op s

theorem execs (s : State) (env : Env) (op : Op) : Execs s env op (s.exec env op).1 := by
  have htopUp {op : Op} (target : FlowId) (f : FlowQuota → FlowQuota) :
      Execs s env op (s.topUp target f) := by
    unfold State.topUp
    split_ifs
    · exact .process ..
    · exact .same
  cases op with
  | tables op => exact .tables op
  | allocate origin => exact .allocate origin
  | place id process => exact .process ..
  | alloc flow bytes =>
    simp only [State.exec]
    split
    · exact .process ..
    · exact .same
  | free flow bytes => exact .process ..
  | freshRequestId flow => exact .process ..
  | hostRequestId => exact .hostRequestId
  | topUpCpu target extra => exact htopUp target fun q => q.topUpCpu extra
  | topUpMem target extra => exact htopUp target fun q => q.topUpMem extra
  | _ => exact .same

/-- What a step does. -/
inductive Stepped (c : Config) (s : State) : ℕ × Input → State → Prop
  | stay (ti)
      (hcode : ∀ env, ti.2 = .code env →
        (s.driven ti.1 = none ↔ ∀ call p, s.modes ti.1 ≠ .call call p))
      (hmachine : ∀ input env, ti.2 = .machine input env → s.modes ti.1 = .idle →
        (∃ flow, s.top ti.1 = some (.run flow)) ∨ s.top ti.1 = none) : Stepped c s ti s
  | advance (t input env) (hmode : s.modes t = .idle) (hrun : s.driven t = none)
      (hstart : s.top t = none → ofMachine input = true) :
      Stepped c s (t, .machine input env) (s.advance t input env)
  -- the loop of `drive_process`
  | round (t env id) (hrun : s.driven t = some id) (hmode : s.modes t = .idle)
      (hbudget : ¬(s.processes id).quota.remainingCpu ≤ 0) :
      Stepped c s (t, .code env) (s.setMode t (.slice 0 (s.share c id)))
  | fail (t env id message) (hrun : s.driven t = some id)
      (hfail : s.modes t = .idle ∨ ∃ ran result e, s.modes t = .charge ran result ∧
        (s.processes id).quota.chargeCpu (Int64.ofNat ran) = .error e) :
      Stepped c s (t, .code env) ((s.setMode t .idle).goOn t env none (.trap message))
  | expire (t env id ran) (hrun : s.driven t = some id) (hmode : s.modes t = .slice ran 0) :
      Stepped c s (t, .code env) (s.setMode t (.charge ran .yield))
  | execute (t env id ran left) (hrun : s.driven t = some id)
      (hmode : s.modes t = .slice ran (left + 1)) :
      Stepped c s (t, .code env) (s.execute t env id ran left)
  | account (t env id ran result quota) (hrun : s.driven t = some id)
      (hmode : s.modes t = .charge ran result)
      (hquota : (s.processes id).quota.chargeCpu (Int64.ofNat ran) = .ok quota) :
      Stepped c s (t, .code env) ((s.setProcess id ((s.processes id).withQuota quota)).setMode t
        (.effect result (effect c id ((s.processes id).withQuota quota) result)))
  | act (t env id result op k) (hrun : s.driven t = some id)
      (hmode : s.modes t = .effect result (.act op k)) :
      Stepped c s (t, .code env)
        ((s.exec env op).1.setMode t (.effect result (k (s.exec env op).2)))
  | resume (t env id result destReg value) (hrun : s.driven t = some id)
      (hmode : s.modes t = .effect result (.ret (.resume destReg value))) :
      Stepped c s (t, .code env) ((s.setMode t .idle).resume env id destReg value)
  | goOn (t env id result destReg vm) (hrun : s.driven t = some id)
      (hmode : s.modes t = .effect result (.ret (.effect destReg vm))) :
      Stepped c s (t, .code env) ((s.setMode t .idle).goOn t env destReg vm)
  | leave (t env)
      (hmode : (∃ result frames, s.modes t = .effect result (.ret (.call frames))) ∨
        ∃ call outcome, s.modes t = .call call (.ret outcome)) :
      Stepped c s (t, .code env) (s.setMode t .idle)
  -- calls of the embedder
  | begin (t call) (hmode : s.modes t = .idle) (htop : s.top t = none)
      (hcall : call.Loaded c.trust) : Stepped c s (t, .call call) (s.begin c t call)
  | serve (t env call op k) (hrun : s.driven t = none)
      (hmode : s.modes t = .call call (.act op k)) :
      Stepped c s (t, .code env) ((s.exec env op).1.setMode t (.call call (k (s.exec env op).2)))
  | enter (t env call frames) (hrun : s.driven t = none)
      (hmode : s.modes t = .call call (.ret (.call frames))) :
      Stepped c s (t, .code env) (s.enter t frames)

variable {t : ℕ}

theorem stepped_work {id : FlowId} (env : Env) (hrun : s.driven t = some id) :
    Stepped c s (t, .code env) (s.work c t env id (s.modes t)) := by
  cases hmode : s.modes t with
  | idle =>
    simp only [State.work, State.round]
    split
    · exact .fail t env id _ hrun (.inl hmode)
    · rename_i hbudget
      exact .round t env id hrun hmode hbudget
  | slice ran left =>
    cases left with
    | zero => exact .expire t env id ran hrun hmode
    | succ left => exact .execute t env id ran left hrun hmode
  | charge ran result =>
    simp only [State.work, State.account]
    split
    · rename_i e hcharge
      exact .fail t env id _ hrun (.inr ⟨ran, result, e, hmode, hcharge⟩)
    · rename_i hcharge
      exact .account t env id ran result _ hrun hmode hcharge
  | effect result p =>
    cases p with
    | ret outcome =>
      cases outcome with
      | resume destReg value => exact .resume t env id result destReg value hrun hmode
      | effect destReg vm => exact .goOn t env id result destReg vm hrun hmode
      | call frames => exact .leave t env (.inl ⟨_, _, hmode⟩)
    | act op k => exact .act t env id result op k hrun hmode
  | call call p =>
    refine .stay _ (fun _ _ => ⟨fun hnone => ?_, fun hmode' => (hmode' call p hmode).elim⟩) nofun
    rw [hrun] at hnone
    cases hnone

theorem stepped_serve (env : Env) (hrun : s.driven t = none) :
    Stepped c s (t, .code env) (s.serve t env (s.modes t)) := by
  cases hmode : s.modes t with
  | call call p =>
    cases p with
    | ret outcome =>
      cases outcome with
      | call frames => exact .enter t env call frames hrun hmode
      | _ => exact .leave t env (.inr ⟨_, _, hmode⟩)
    | act op k => exact .serve t env call op k hrun hmode
  | _ =>
    refine .stay _ (fun _ _ => ⟨fun _ call p hcall => ?_, fun _ => hrun⟩) nofun
    rw [hmode] at hcall
    cases hcall

/-- **What a step can do.** -/
theorem stepped (c : Config) (s : State) (ti : ℕ × Input) : Stepped c s ti (step c s ti) := by
  obtain ⟨t, input⟩ := ti
  cases input with
  | machine input env =>
    simp only [step]
    split
    · rename_i flow hmode htop
      exact .stay _ nofun fun _ _ _ _ => .inl ⟨flow, htop⟩
    · rename_i f hne hmode htop
      refine .advance t input env hmode ?_ (fun h => by rw [htop] at h; cases h)
      unfold State.driven
      rw [htop]
      cases f <;> first | rfl | exact absurd rfl (hne _)
    · rename_i hmode htop
      split
      · rename_i hstart
        refine .advance t input env hmode ?_ fun _ => hstart
        unfold State.driven
        rw [htop]
      · exact .stay _ nofun fun _ _ _ _ => .inr htop
    · rename_i hrun hsome hnone
      refine .stay _ nofun fun _ _ _ hmode => ?_
      cases htop : s.top t with
      | none => exact .inr rfl
      | some f => exact (hsome f hmode htop).elim
  | code env =>
    simp only [step]
    cases hrun : s.driven t with
    | some id => exact stepped_work env hrun
    | none => exact stepped_serve env hrun
  | call call =>
    simp only [step]
    split
    · rename_i hmode htop
      split_ifs with hcall
      · exact .begin t call hmode htop hcall
      · exact .stay _ nofun nofun
    · exact .stay _ nofun nofun

/-- The machine goes on: its own step, and then perhaps a store of a reference. -/
theorem goOn_induct {P : State → Prop} {env : Env} {destReg : Option UInt8}
    {result : Machine.VmResult} (hadvance : P (s.advance t (.vm result) env))
    (hresume : ∀ id destReg raw, s.driven t = some id → P (s.advance t (.vm result) env) →
      P ((s.advance t (.vm result) env).resume env id destReg (refValue raw))) :
    P (s.goOn t env destReg result) := by
  unfold State.goOn
  cases hrun : s.driven t with
  | none => exact hadvance
  | some id =>
    dsimp only
    split
    · exact hresume _ _ _ hrun hadvance
    · exact hadvance

/-- What a frame does besides: a refund, a value for a register, the end of a flow. -/
theorem settle_induct {P : State → Prop} {env : Env} {f : Machine.Frame} (h : P s)
    (hrefund : ∀ s' id bytes, refunds s.machine.shared f = some (id, bytes) → P s' →
      P (s'.refund id bytes))
    (hresume : ∀ s' r, f.hands s.machine.shared = some r → P s' →
      P (s'.resume env r.flow r.destReg r.value))
    (hforget : ∀ s' id, forgets f = some id → P s' → P (s'.forget id)) :
    P (s.settle env f) := by
  unfold State.settle
  cases hr : refunds s.machine.shared f <;> cases hh : f.hands s.machine.shared <;>
    cases hf : forgets f
  · exact h
  · exact hforget _ _ hf h
  · exact hresume _ _ hh h
  · exact hforget _ _ hf (hresume _ _ hh h)
  · exact hrefund _ _ _ hr h
  · exact hforget _ _ hf (hrefund _ _ _ hr h)
  · exact hresume _ _ hh (hrefund _ _ _ hr h)
  · exact hforget _ _ hf (hresume _ _ hh (hrefund _ _ _ hr h))

/-! ## What a step leaves alone -/

namespace State

variable (s)

theorem settle_modes (env : Env) (f : Machine.Frame) : (s.settle env f).modes = s.modes :=
  settle_induct (P := fun s' => s'.modes = s.modes) rfl (fun _ _ _ _ h => h) (fun _ _ _ h => h)
    fun _ _ _ h => h

theorem advance_modes (t : ℕ) (input : Machine.Input) (env : Env) :
    (s.advance t input env).modes = s.modes := by
  unfold advance
  dsimp only
  split
  · exact settle_modes s env _
  · rfl

theorem advance_executed (t : ℕ) (input : Machine.Input) (env : Env) :
    (s.advance t input env).log.executed = s.log.executed ∨
      (s.advance t input env).log.executed = Function.update s.log.executed t 0 := by
  unfold advance
  dsimp only
  cases s.top t with
  | none => exact .inl rfl
  | some f => cases f <;> first | exact .inl rfl | exact .inr rfl

/-- After an instruction the slice goes on, or it is charged. -/
theorem execute_modes (t : ℕ) (env : Env) (id : FlowId) (ran left : ℕ) :
    ∃ mode, (mode = .slice (ran + 1) left ∨ ∃ result, mode = .charge (ran + 1) result) ∧
      (s.execute t env id ran left).modes = Function.update s.modes t mode := by
  unfold execute
  dsimp only
  split
  · exact ⟨_, .inl rfl, rfl⟩
  · exact ⟨_, .inr ⟨_, rfl⟩, rfl⟩

theorem execute_mode (t : ℕ) (env : Env) (id : FlowId) (ran left : ℕ) :
    (s.execute t env id ran left).modes t =
      match ((s.processes id).vm.step (s.host env)).1 with
      | none => .slice (ran + 1) left
      | some result => .charge (ran + 1) result := by
  cases hr : ((s.processes id).vm.step (s.host env)).1 <;>
    simp only [execute, hr, setMode, Function.update_self]

theorem execute_executed (t : ℕ) (env : Env) (id : FlowId) (ran left : ℕ) :
    (s.execute t env id ran left).log.executed =
      Function.update s.log.executed t (s.log.executed t + 1) := by
  unfold execute
  dsimp only
  split <;> rfl

end State

end Worker

end Byteflow
