import Byteflow.Scheduler.Spawn.Code

/-!
# Spawns, exits and capabilities, interleaved

Any number of threads spawn flows, finalize them and derive capabilities. A thread has the rest of
its program, and a step of the system is one critical section of one thread. `Reachable` is the set
of the states that some schedule leads to; `Run` keeps to schedules whose steps meet a condition.
-/

namespace Byteflow

namespace Spawn

open Function (update)

/-- What a thread is asked to do. -/
inductive Call
  | spawn (chunk : Chunk) (function : UInt32) (args : List Value) (parent : Option FlowId)
      (bytecode : Option BytecodeSpawn)
  | finalize (id : FlowId)
  | mint (holder target : FlowId) (rights : CapRights)
  | mintOrReuse (holder target : FlowId) (rights : CapRights)
  | attenuate (id : CapId) (fromHolder toHolder : FlowId) (wantRights : CapRights)
      (wantNative : Option NativeMask)
  | delegate (id : CapId) (fromHolder toHolder : FlowId)
  | reissueFor (id : CapId) (newHolder : FlowId)
  deriving DecidableEq

/-- The program of a call. Its result does not matter here. -/
def Call.code (c : Config) : Call → Prog Op.Result Unit
  | spawn chunk function args parent bytecode => do
    let _ ← (spawnOn c chunk function args parent bytecode).run
  | finalize id => Spawn.finalize id
  | mint holder target rights => do
    let _ ← onCaps (CapTable.mint holder target rights)
  | mintOrReuse holder target rights => do
    let _ ← Prog.perform (Op.caps (.mintOrReuse holder target rights))
  | attenuate id fromHolder toHolder wantRights wantNative => do
    let _ ← onCaps (CapTable.attenuate id fromHolder toHolder wantRights wantNative).run
  | delegate id fromHolder toHolder => do
    let _ ← onCaps (CapTable.delegate id fromHolder toHolder).run
  | reissueFor id newHolder => do
    let _ ← onCaps (CapTable.reissueFor id newHolder).run

/-- The flows that a call names. A `FlowId` is got from `next_flow_id` only. -/
def Call.flows : Call → List FlowId
  | spawn _ _ _ parent _ => parent.toList
  | finalize id => [id]
  | mint holder target _ => [holder, target]
  | mintOrReuse holder target _ => [holder, target]
  | attenuate _ fromHolder toHolder _ _ => [fromHolder, toHolder]
  | delegate _ fromHolder toHolder => [fromHolder, toHolder]
  | reissueFor _ newHolder => [newHolder]

/-- `overlap t` tells whether a flow was registered by another thread since `t` began its call.
Nothing reads it. -/
structure State where
  tables : Tables
  threads : ℕ → Prog Op.Result Unit
  overlap : ℕ → Bool

def State.init : State := ⟨.new, fun _ => .ret (), fun _ => false⟩

inductive Input
  | call (call : Call)
  /-- The next critical section of the thread. -/
  | next (env : Env)
  deriving DecidableEq

/-- Whether the operation registers a flow. -/
def Op.registers : Op → Bool
  | register _ => true
  | _ => false

/-- The operation that a thread performs next. -/
def State.pending (s : State) (t : ℕ) : Option Op :=
  match s.threads t with
  | .ret _ => none
  | .act op _ => some op

theorem State.pending_act {s : State} {t : ℕ} {op : Op} {k : op.Result → Prog Op.Result Unit}
    (h : s.threads t = .act op k) : s.pending t = some op := by
  unfold State.pending
  rw [h]

/-- One step of a thread. -/
def step (c : Config) (s : State) : ℕ × Input → State
  | (t, .call call) =>
    match s.threads t with
    | .ret _ =>
      if call.flows.all (· < s.tables.nextFlowId) then
        { s with
          threads := update s.threads t (call.code c)
          overlap := update s.overlap t false }
      else s
    | .act .. => s
  | (t, .next env) =>
    match s.threads t with
    | .ret _ => s
    | .act op k =>
      { tables := (s.tables.exec env op).1
        threads := update s.threads t (k (s.tables.exec env op).2)
        overlap := fun t' => s.overlap t' || (op.registers && t' != t) }

/-- A run whose steps all meet a condition. -/
inductive Run (c : Config) (cond : State → ℕ × Input → Prop) : State → Prop
  | init : Run c cond .init
  | step {s : State} (h : Run c cond s) (input : ℕ × Input) (hc : cond s input) :
      Run c cond (step c s input)

/-- A state that some schedule leads to. -/
abbrev Reachable (c : Config) (s : State) : Prop := Run c (fun _ _ => True) s

/-- No call is in progress. -/
def State.quiet (s : State) : Prop := ∀ t, ∃ u, s.threads t = .ret u

/-- The state after a schedule. -/
def runAll (c : Config) (s : State) (inputs : List (ℕ × Input)) : State := inputs.foldl (step c) s

theorem Run.all {c : Config} {s : State} (h : Reachable c s) (inputs : List (ℕ × Input)) :
    Reachable c (runAll c s inputs) := by
  induction inputs generalizing s with
  | nil => exact h
  | cons input inputs ih => exact ih (h.step input trivial)

/-- Whether every step of a schedule meets a condition. -/
def meets (c : Config) (cond : State → ℕ × Input → Prop) [∀ s input, Decidable (cond s input)] :
    State → List (ℕ × Input) → Bool
  | _, [] => true
  | s, input :: inputs => decide (cond s input) && meets c cond (step c s input) inputs

theorem Run.meets {c : Config} {cond : State → ℕ × Input → Prop}
    [∀ s input, Decidable (cond s input)] {s : State} (h : Run c cond s) {inputs : List (ℕ × Input)}
    (hm : meets c cond s inputs) : Run c cond (runAll c s inputs) := by
  induction inputs generalizing s with
  | nil => exact h
  | cons input inputs ih =>
    rw [Spawn.meets, Bool.and_eq_true, decide_eq_true_eq] at hm
    exact ih (h.step input hm.1) hm.2

/-- A step does nothing, begins a call, or performs an operation. -/
theorem step_cases (c : Config) (s : State) (t : ℕ) (input : Input) :
    step c s (t, input) = s ∨
    (∃ call u, input = .call call ∧ s.threads t = .ret u ∧
      (∀ id ∈ call.flows, id < s.tables.nextFlowId) ∧
      step c s (t, input) = { s with
        threads := update s.threads t (call.code c)
        overlap := update s.overlap t false }) ∨
    ∃ env op k, input = .next env ∧ s.threads t = .act op k ∧
      step c s (t, input) =
        { tables := (s.tables.exec env op).1
          threads := update s.threads t (k (s.tables.exec env op).2)
          overlap := fun t' => s.overlap t' || (op.registers && t' != t) } := by
  cases input with
  | call call =>
    cases hp : s.threads t with
    | ret u =>
      by_cases hall : call.flows.all (· < s.tables.nextFlowId)
      · refine .inr (.inl ⟨call, u, rfl, rfl, by simpa using hall, ?_⟩)
        simp only [step, hp, hall, if_true]
      · exact .inl (by simp only [step, hp, hall]; rfl)
    | act op k => exact .inl (by simp only [step, hp])
  | next env =>
    cases hp : s.threads t with
    | ret u => exact .inl (by simp only [step, hp])
    | act op k => exact .inr (.inr ⟨env, op, k, rfl, rfl, by simp only [step, hp]⟩)

/-- The schedule in which a thread makes a call and performs `n` operations, each with a draw. -/
def alone (t : ℕ) (call : Call) (n : ℕ) (draw : CapId) : List (ℕ × Input) :=
  (t, .call call) :: List.replicate n (t, .next ⟨[draw], true⟩)

/-- A spawn by the host of a function that halts. -/
def hostSpawn : Call := .spawn ⟨"main", [], [.nullary .halt], [⟨"main", 0, 0, 1⟩]⟩ 0 [] none none

end Spawn

end Byteflow
