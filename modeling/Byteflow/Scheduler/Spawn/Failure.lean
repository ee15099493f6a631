import Byteflow.Scheduler.Capability.Calls
import Byteflow.Scheduler.Spawn.Limit

/-!
# Spawns that fail

A spawn binds the revocation cell of its flow before it knows that it will succeed, and nothing
takes it back. So a failed spawn leaves the tables as they were exactly if it was refused for the
flow limit (`failedSpawn_unchanged_iff`). The id of a new flow has no cell: only flows that have
their id already are bound (`Reachable.unbound`).
-/

namespace Byteflow

namespace Spawn

open Function (update)

/-! ## The id of a new flow -/

/-- An operation that binds a cell does so for a flow that has its id. -/
def Issued (s : Tables) : Op → Prop
  | .caps (.bindFlow flow) => flow < s.nextFlowId
  | .caps (.mintOrReuse _ target _) => target < s.nextFlowId
  | _ => True

/-- An operation that binds no cell, and sweeps none. -/
def BindsNone : Op → Prop
  | .caps (.bindFlow _) | .caps (.mintOrReuse ..) | .revokeFlow _ => False
  | _ => True

/-- Ids are only given out. -/
def Grows (s s' : Tables) : Prop := s.nextFlowId ≤ s'.nextFlowId

theorem Grows.refl (s : Tables) : Grows s s := le_rfl

theorem Grows.trans {s s' s'' : Tables} (h : Grows s s') (h' : Grows s' s'') : Grows s s'' :=
  Nat.le_trans h h'

abbrev Binds {α : Type} (s : Tables) (p : Prog Op.Result α) (post : Tables → α → Prop) : Prop :=
  Prog.Wp Grows Does Issued post s p

theorem Grows.exec (s : Tables) (env : Env) (op : Op) : Grows s (s.exec env op).1 := by
  cases op with
  | nextFlowId => exact Nat.le_succ _
  | _ => exact le_rfl

theorem bindsNone_wp {α : Type} {p : Prog Op.Result α} (h : p.All BindsNone) (s : Tables) :
    Binds s p fun s' _ => Grows s s' := by
  refine Prog.All.wp Grows Grows.refl (fun _ _ _ => Grows.trans) (fun _ _ h => h)
    (fun s op hop => ?_) (fun s op s' r _ hstep => ?_) h s
  · cases op with
    | caps op => cases op <;> trivial
    | _ => trivial
  · obtain ⟨env, heq⟩ := hstep
    have hs : (s.exec env op).1 = s' := congrArg Prod.fst heq
    exact hs ▸ Grows.exec s env op

/-- Every flow with a cell has its id, and every thread keeps it so. -/
structure Unbound (s : State) : Prop where
  cell : ∀ {flow cell}, s.tables.caps.flowCells flow = some cell → flow < s.tables.nextFlowId
  binds : ∀ t, Binds s.tables (s.threads t) fun _ _ => True

theorem cells_exec {s : Tables} {op : Op} (hop : Issued s op)
    (h : ∀ flow cell, s.caps.flowCells flow = some cell → flow < s.nextFlowId) (env : Env)
    {flow : FlowId} {cell : CellId} (hf : (s.exec env op).1.caps.flowCells flow = some cell) :
    flow < (s.exec env op).1.nextFlowId := by
  have hbind {t : CapTable} (ht : t.flowCells = s.caps.flowCells) {flow' : FlowId}
      (hflow' : flow' < s.nextFlowId) (hf : (t.bindFlow flow').1.flowCells flow = some cell) :
      flow < s.nextFlowId := by
    rcases t.bindFlow_cases flow' with ⟨_, _, heq⟩ | ⟨_, heq⟩ <;> rw [heq] at hf
    · exact h flow cell (ht ▸ hf)
    · simp only [Function.update_apply] at hf
      split at hf
      · rename_i heq
        exact heq ▸ hflow'
      · exact h flow cell (ht ▸ hf)
  cases op with
  | caps op =>
    cases op with
    | bindFlow flow' => exact hbind rfl hop hf
    | mintOrReuse holder target rights =>
      have hf : (s.caps.mintOrReuse env.draws holder target rights).1.flowCells flow = some cell :=
        hf
      rcases s.caps.mintOrReuse_cases env.draws holder target rights with
        ⟨id, _, _, hr⟩ | ⟨_, ⟨id, _, _, _, _, hr⟩ | ⟨e, hr⟩⟩ <;> rw [hr] at hf
      · exact h flow cell hf
      · exact hbind (t := s.caps.setReply holder target none) rfl hop hf
      · exact hbind (t := s.caps.setReply holder target none) rfl hop hf
    | insert entry =>
      have hf : (s.caps.insert env.draws entry).1.flowCells flow = some cell := hf
      rcases s.caps.insert_cases env.draws entry with ⟨id, _, _, _, hr⟩ | ⟨e, hr⟩ <;> rw [hr] at hf
      · exact h flow cell hf
      · exact h flow cell hf
    | _ => exact h flow cell hf
  | revokeFlow id =>
    have hf : update s.caps.flowCells id none flow = some cell := hf
    rw [Function.update_apply] at hf
    split at hf
    · cases hf
    · exact h flow cell hf
  | nextFlowId => exact Nat.lt_succ_of_lt (h flow cell hf)
  | _ => exact h flow cell hf

theorem bindsNone_onCaps {α : Type} {p : Prog CapTable.Op.Result α}
    (h : p.All fun op => BindsNone (.caps op)) : (onCaps p).All BindsNone := by
  induction p with
  | ret a => trivial
  | act op k ih => exact ⟨h.1, fun r => ih r (h.2 r)⟩

/-! ## Programs on the table -/

theorem bindsNone_perform {op : CapTable.Op} (h : BindsNone (.caps op)) :
    (CapTable.perform op).run.All fun op => BindsNone (.caps op) := ⟨h, fun _ => trivial⟩

theorem bindsNone_liftM {α : Type} (r : Except CapError α) :
    (liftM r : CapTable.Code α).run.All fun op => BindsNone (.caps op) := by
  cases r <;> trivial

theorem bindsNone_token (r : Except RuntimeError CapId) :
    (CapTable.token r).run.All fun op => BindsNone (.caps op) := by
  cases r <;> trivial

theorem bindsNone_attenuate (id : CapId) (fromHolder toHolder : FlowId) (wantRights : CapRights)
    (wantNative : Option NativeMask) :
    (CapTable.attenuate id fromHolder toHolder wantRights wantNative).run.All
      fun op => BindsNone (.caps op) := by
  refine Prog.all_run_bind (bindsNone_perform trivial) fun r =>
    Prog.all_run_bind (bindsNone_liftM r) fun src => ?_
  split
  · refine Prog.all_run_bind (bindsNone_perform trivial) fun cell => ?_
    split
    · trivial
    · refine Prog.all_run_bind (bindsNone_perform trivial) fun epoch => ?_
      split
      · trivial
      · trivial
      · refine Prog.all_run_bind (bindsNone_perform trivial) fun epoch' => ?_
        split
        · exact Prog.all_run_bind (bindsNone_perform trivial) bindsNone_token
        · trivial
  · trivial

theorem bindsNone_delegate (id : CapId) (fromHolder toHolder : FlowId) :
    (CapTable.delegate id fromHolder toHolder).run.All fun op => BindsNone (.caps op) :=
  Prog.all_run_bind (bindsNone_perform trivial) fun r =>
    Prog.all_run_bind (bindsNone_liftM r) fun _ => bindsNone_attenuate ..

theorem bindsNone_reissueFor (id : CapId) (newHolder : FlowId) :
    (CapTable.reissueFor id newHolder).run.All fun op => BindsNone (.caps op) := by
  refine Prog.all_run_bind (bindsNone_perform trivial) fun r => ?_
  split
  · trivial
  · exact Prog.all_run_bind (bindsNone_perform trivial) bindsNone_token

theorem bindsNone_grantCapsInArgs (parent : Option FlowId) (child : FlowId) (args : List Value) :
    (CapTable.grantCapsInArgs parent child args).run.All fun op => BindsNone (.caps op) := by
  induction args with
  | nil => trivial
  | cons arg args ih =>
    have hrest (v : Value) : (do
        let args ← CapTable.grantCapsInArgs parent child args
        return v :: args : CapTable.Code (List Value)).run.All fun op => BindsNone (.caps op) :=
      Prog.all_run_bind ih fun _ => trivial
    cases arg with
    | cap id =>
      cases parent with
      | none => exact Prog.all_run_bind (bindsNone_reissueFor id child) fun _ => hrest _
      | some p => exact Prog.all_run_bind (bindsNone_delegate id p child) fun _ => hrest _
    | _ => exact hrest _

/-! ## Calls -/

theorem bindsNone_lenFrom (k n : ℕ) : (lenFrom k n).All BindsNone := by
  induction k generalizing n with
  | zero => trivial
  | succ k ih => exact ⟨trivial, fun m => ih _⟩

theorem bindsNone_checkLimit (c : Config) : (checkLimit c).run.All BindsNone := by
  unfold checkLimit
  split
  · refine Prog.all_run_bind (Prog.all_bind (bindsNone_lenFrom ..) fun _ => trivial) fun n => ?_
    split <;> trivial
  · trivial

theorem bindsNone_op {op : Op} (h : BindsNone op) : (perform op).run.All BindsNone :=
  ⟨h, fun _ => trivial⟩

theorem bindsNone_spawnBound (c : Config) (chunk : Chunk) (function : UInt32) (args : List Value)
    (parent : Option FlowId) (bytecode : Option BytecodeSpawn) (id : FlowId) (cell : CellId) :
    (spawnBound c chunk function args parent bytecode id cell).run.All BindsNone := by
  have hauthority : (authority c id cell bytecode).run.All BindsNone := by
    cases bytecode with
    | none => exact Prog.all_run_bind (bindsNone_op trivial) fun _ => trivial
    | some ctx =>
      refine Prog.all_run_bind (bindsNone_op trivial) fun _ => Prog.all_run_bind
        (bindsNone_op trivial) fun _ => Prog.all_run_bind (bindsNone_op trivial) fun _ => ?_
      split <;> trivial
  have hargs : (grantArgs parent id args).run.All BindsNone :=
    Prog.all_bind (bindsNone_onCaps (bindsNone_grantCapsInArgs ..)) fun r => by
      cases r <;> trivial
  refine Prog.all_run_bind hauthority fun _ => Prog.all_run_bind hargs fun args =>
    Prog.all_run_bind (bindsNone_op trivial) fun nativeEpoch => ?_
  split
  · trivial
  · exact Prog.all_run_bind (bindsNone_op trivial) fun _ => Prog.all_run_bind (bindsNone_op trivial)
      fun _ => Prog.all_run_bind (bindsNone_op trivial) fun _ => trivial

theorem binds_spawnOn (c : Config) (s : Tables) (chunk : Chunk) (function : UInt32)
    (args : List Value) (parent : Option FlowId) (bytecode : Option BytecodeSpawn) :
    Binds s (spawnOn c chunk function args parent bytecode).run fun _ _ => True := by
  refine Prog.Wp.bind ((bindsNone_wp (bindsNone_checkLimit c) s).mono fun s r _ => ?_)
  cases r with
  | error e => trivial
  | ok _ =>
    refine ⟨trivial, fun s₁ _ s₂ id ⟨env, heq⟩ => ?_⟩
    cases heq
    refine ⟨Nat.lt_succ_self _, fun s₃ _ s₄ cell _ => ?_⟩
    exact (bindsNone_wp (bindsNone_spawnBound c chunk function args parent bytecode s₁.nextFlowId
      cell) s₄).mono fun _ _ _ => trivial

theorem binds_code (c : Config) (s : Tables) {call : Call}
    (hflows : ∀ id ∈ call.flows, id < s.nextFlowId) : Binds s (call.code c) fun _ _ => True := by
  have hnone {α : Type} {p : Prog Op.Result α} (h : p.All BindsNone) :
      Binds s (do let _ ← p) fun _ _ => True :=
    Prog.Wp.bind ((bindsNone_wp h s).mono fun _ _ _ => trivial)
  cases call with
  | spawn chunk function args parent bytecode =>
    exact Prog.Wp.bind ((binds_spawnOn c s chunk function args parent bytecode).mono
      fun _ _ _ => trivial)
  | finalize id =>
    exact ⟨trivial, fun _ _ _ _ _ =>
      ⟨trivial, fun _ _ _ _ _ => ⟨trivial, fun _ _ _ _ _ => trivial⟩⟩⟩
  | mint holder target rights =>
    have ht : target < s.nextFlowId := hflows target (by simp [Call.flows])
    refine ⟨ht, fun s₁ h₁ s₂ cell ⟨env, heq⟩ => ⟨trivial, fun s₃ _ s₄ epoch _ => ?_⟩⟩
    exact ⟨trivial, fun _ _ _ _ _ => trivial⟩
  | mintOrReuse holder target rights =>
    exact ⟨hflows target (by simp [Call.flows]), fun _ _ _ _ _ => trivial⟩
  | attenuate id fromHolder toHolder wantRights wantNative =>
    exact hnone (bindsNone_onCaps (bindsNone_attenuate ..))
  | delegate id fromHolder toHolder => exact hnone (bindsNone_onCaps (bindsNone_delegate ..))
  | reissueFor id newHolder => exact hnone (bindsNone_onCaps (bindsNone_reissueFor ..))

theorem Unbound.step {c : Config} {s : State} (h : Unbound s) (input : ℕ × Input) :
    Unbound (step c s input) := by
  obtain ⟨t, input⟩ := input
  rcases step_cases c s t input with
    heq | ⟨call, u, _, _, hflows, heq⟩ | ⟨env, op, k, _, hp, heq⟩ <;>
    rw [heq]
  · exact h
  · refine ⟨h.cell, fun t' => ?_⟩
    by_cases htt : t' = t
    · subst htt
      simp only [Function.update_self]
      exact binds_code c s.tables hflows
    · simp only [Function.update_of_ne htt]
      exact h.binds t'
  · have hself := h.binds t
    rw [hp] at hself
    refine ⟨fun hf => cells_exec hself.1 (fun _ _ => h.cell) env hf, fun t' => ?_⟩
    by_cases htt : t' = t
    · subst htt
      simp only [Function.update_self]
      exact hself.2 _ (.refl _) _ _ ⟨env, rfl⟩
    · simp only [Function.update_of_ne htt]
      refine Prog.Wp.stable (h.binds t') (Grows.exec s.tables env op) (fun _ _ _ => Grows.trans)
        (fun s s' op hs hpre => ?_) fun _ _ _ _ _ => trivial
      cases op with
      | caps op =>
        cases op with
        | bindFlow flow => exact Nat.lt_of_lt_of_le hpre hs
        | mintOrReuse holder target => exact Nat.lt_of_lt_of_le hpre hs
        | _ => trivial
      | _ => trivial

theorem Reachable.unbound {c : Config} {s : State} (h : Reachable c s) : Unbound s := by
  induction h with
  | init => exact ⟨nofun, fun _ => trivial⟩
  | step _ input _ ih => exact ih.step input

/-! ## A spawn alone -/

/-- An operation of the only thread that runs. -/
def execAlone (op : Op) (s : Tables × List Env) : (Tables × List Env) × op.Result :=
  (((s.1.exec (s.2.headD ⟨[], false⟩) op).1, s.2.tail), (s.1.exec (s.2.headD ⟨[], false⟩) op).2)

/-- The tables after a spawn, and what it returned. -/
def spawnAlone (c : Config) (s : Tables) (envs : List Env) (chunk : Chunk) (function : UInt32)
    (args : List Value) (parent : Option FlowId) (bytecode : Option BytecodeSpawn) :
    Tables × Except SpawnError FlowId :=
  let (s, r) := (spawnOn c chunk function args parent bytecode).run.eval execAlone (s, envs)
  (s.1, r)

/-- What a failed spawn should leave as it was. -/
structure Unchanged (s s' : Tables) : Prop where
  entries : s'.caps.entries = s.caps.entries
  replyIndex : s'.caps.replyIndex = s.caps.replyIndex
  flowCells : s'.caps.flowCells = s.caps.flowCells
  directory : s'.directory = s.directory
  quotas : s'.quotas = s.quotas
  injector : s'.injector = s.injector

/-- The directory is full. -/
def AtLimit (c : Config) (s : Tables) : Prop :=
  0 < c.maxFlows ∧ c.maxFlows.toNat ≤ s.directory.length

theorem lenFrom_alone {k n : ℕ} (hk : k ≤ shards) {s : Tables} {envs : List Env}
    (hn : n = firstShards s (shards - k)) :
    ∃ envs', (lenFrom k n).eval execAlone (s, envs) = ((s, envs'), s.directory.length) := by
  induction k generalizing n envs with
  | zero =>
    rw [Nat.sub_zero, firstShards_shards] at hn
    exact ⟨envs, hn ▸ rfl⟩
  | succ k ih =>
    refine ih (by omega) ?_
    have hlast : shards - k = shards - (k + 1) + 1 := by omega
    rw [hlast, firstShards, hn]
    rfl

/-- The check fails exactly if the directory is full, and changes nothing. -/
theorem checkLimit_alone (c : Config) (s : Tables) (envs : List Env) :
    (AtLimit c s ∧ ∃ envs', (checkLimit c).run.eval execAlone (s, envs) =
      ((s, envs'), .error (.flowLimit s.directory.length c.maxFlows))) ∨
    ¬AtLimit c s ∧ ∃ envs', (checkLimit c).run.eval execAlone (s, envs) = ((s, envs'), .ok ()) := by
  by_cases hmax : 0 < c.maxFlows
  · obtain ⟨envs', hlen⟩ := lenFrom_alone le_rfl (rfl : 0 = firstShards s (shards - shards))
    have heval : (checkLimit c).run.eval execAlone (s, envs) =
        (if c.maxFlows.toNat ≤ s.directory.length then
          throw (.flowLimit s.directory.length c.maxFlows) else pure () : Code Unit).run.eval
          execAlone (s, envs') := by
      unfold checkLimit
      rw [if_pos hmax]
      show ((lenFrom shards 0 >>= (pure ∘ Except.ok)) >>= _).eval execAlone (s, envs) = _
      rw [Prog.eval_bind, Prog.eval_bind, hlen]
      rfl
    by_cases hfull : c.maxFlows.toNat ≤ s.directory.length
    · rw [if_pos hfull] at heval
      exact .inl ⟨⟨hmax, hfull⟩, envs', heval⟩
    · rw [if_neg hfull] at heval
      exact .inr ⟨fun h => hfull h.2, envs', heval⟩
  · refine .inr ⟨fun h => hmax h.1, envs, ?_⟩
    unfold checkLimit
    rw [if_neg hmax]
    rfl

/-- A cell stays bound until a sweep. -/
theorem bound_exec {s : Tables} {flow : FlowId} {cell : CellId}
    (h : s.caps.flowCells flow = some cell) {op : Op} (hop : ∀ id, op ≠ .revokeFlow id)
    (env : Env) :
    (s.exec env op).1.caps.flowCells flow = some cell := by
  have hbind {t : CapTable} (ht : t.flowCells = s.caps.flowCells) (flow' : FlowId) :
      (t.bindFlow flow').1.flowCells flow = some cell := by
    rcases t.bindFlow_cases flow' with ⟨_, _, heq⟩ | ⟨hnone, heq⟩ <;> rw [heq]
    · exact ht ▸ h
    · have hne : flow ≠ flow' := by
        rintro rfl
        rw [ht, h] at hnone
        cases hnone
      exact (Function.update_of_ne hne ..).trans (ht ▸ h)
  cases op with
  | caps op =>
    cases op with
    | bindFlow flow' => exact hbind rfl flow'
    | mintOrReuse holder target rights =>
      show (s.caps.mintOrReuse env.draws holder target rights).1.flowCells flow = _
      rcases s.caps.mintOrReuse_cases env.draws holder target rights with
        ⟨id, _, _, hr⟩ | ⟨_, ⟨id, _, _, _, _, hr⟩ | ⟨e, hr⟩⟩ <;> rw [hr]
      · exact h
      · exact hbind (t := s.caps.setReply holder target none) rfl target
      · exact hbind (t := s.caps.setReply holder target none) rfl target
    | insert entry =>
      show (s.caps.insert env.draws entry).1.flowCells flow = _
      rcases s.caps.insert_cases env.draws entry with ⟨id, _, _, _, hr⟩ | ⟨e, hr⟩ <;> rw [hr]
      · exact h
      · exact h
    | _ => exact h
  | revokeFlow id => exact absurd rfl (hop id)
  | _ => exact h

/-- A spawn, and so one that fails, leaves the tables as they were exactly if the directory was
full. -/
theorem failedSpawn_unchanged_iff {c : Config} {s : State} (h : Reachable c s) (envs : List Env)
    (chunk : Chunk) (function : UInt32) (args : List Value) (parent : Option FlowId)
    (bytecode : Option BytecodeSpawn) :
    Unchanged s.tables (spawnAlone c s.tables envs chunk function args parent bytecode).1 ↔
      AtLimit c s.tables := by
  rcases checkLimit_alone c s.tables envs with ⟨hfull, envs', hcheck⟩ | ⟨hfull, envs', hcheck⟩
  · refine iff_of_true ?_ hfull
    have hrun : spawnAlone c s.tables envs chunk function args parent bytecode =
        (s.tables, .error (.flowLimit s.tables.directory.length c.maxFlows)) := by
      unfold spawnAlone spawnOn
      rw [ExceptT.run_bind, Prog.eval_bind, hcheck]
      rfl
    rw [hrun]
    exact ⟨rfl, rfl, rfl, rfl, rfl, rfl⟩
  · refine iff_of_false (fun hsame => ?_) hfull
    -- the first two operations bind the new flow, and what follows takes nothing back
    have hbound : ∃ cell, (spawnAlone c s.tables envs chunk function args parent
        bytecode).1.caps.flowCells s.tables.nextFlowId = some cell := by
      unfold spawnAlone spawnOn
      rw [ExceptT.run_bind, Prog.eval_bind, hcheck]
      refine ⟨(s.tables.caps.bindFlow s.tables.nextFlowId).2, ?_⟩
      refine Prog.All.eval (P := BindsNone) (I := fun s' : Tables × List Env =>
        s'.1.caps.flowCells s.tables.nextFlowId =
          some (s.tables.caps.bindFlow s.tables.nextFlowId).2)
        (fun op s' hop hs' => bound_exec hs' ?_ _)
          (bindsNone_spawnBound c chunk function args parent
          bytecode s.tables.nextFlowId (s.tables.caps.bindFlow s.tables.nextFlowId).2)
        (s.tables.caps.bindFlow_cell _)
      rintro id rfl
      exact hop
    obtain ⟨cell, hcell⟩ := hbound
    rw [hsame.flowCells] at hcell
    exact absurd (h.unbound.cell hcell) (lt_irrefl _)

/-- A host spawn of a function that does not exist. -/
theorem failedSpawn_binds :
    let c : Config := ⟨0, [], ⟨1000, 1000⟩⟩
    let r := spawnAlone c .new [] ⟨"main", [], [.nullary .halt], [⟨"main", 0, 0, 1⟩]⟩ 7 [] none none
    r.2 = .error (.badFunction 7 1) ∧ r.1.caps.flowCells 1 = some 2 ∧ ¬Unchanged .new r.1 := by
  refine ⟨rfl, rfl, fun h => ?_⟩
  have := congrFun h.flowCells 1
  cases this

/-- A spawn over the limit fails and changes nothing. -/
theorem failedSpawn_unchanged_iff_oneFlow :
    let s := runAll oneFlow .init (alone 0 hostSpawn 71 ⟨3⟩)
    let r := spawnAlone oneFlow s.tables [] ⟨"main", [], [.nullary .halt], [⟨"main", 0, 0, 1⟩]⟩ 0 []
      none none
    r.2 = .error (.flowLimit 1 1) ∧ Unchanged s.tables r.1 :=
  ⟨by decide +kernel, (failedSpawn_unchanged_iff (Run.init.all _) [] _ 0 [] none none).mpr
    ⟨by decide, by decide +kernel⟩⟩

end Spawn

end Byteflow
