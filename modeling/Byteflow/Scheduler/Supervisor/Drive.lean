import Byteflow.Foundations.Schedule
import Byteflow.Scheduler.Supervisor.Intensity

/-!
# The supervisor

The drive thread of a supervisor and what goes on around it (`scheduler/supervisor.rs`). The thread
handles one exit after the other, in tasks between which others get to run: an embedder that starts
children, and the threads that finalize flows, of which the supervisor sees that a flow leaves the
directory, that its names are dropped, and that its exit is notified. `spawn_child` holds the table
from the spawn to the row, so no other task that needs the table runs meanwhile.
-/

namespace Byteflow

namespace Supervisor

open Function (update)

structure ChildExit where
  id : FlowId
  outcome : FlowOutcome
  deriving DecidableEq

/-- A cascade waits for the kills of the siblings, and then starts the specs again. -/
structure Cascade where
  waiting : List FlowId
  specs : List ChildSpec
  deriving DecidableEq

/-- How far a flow is. -/
inductive Stage
  | unborn
  | live
  /-- It has left the directory. -/
  | unregistered (outcome : FlowOutcome)
  /-- Its names are dropped. -/
  | unnamed (outcome : FlowOutcome)
  | notified
  deriving DecidableEq

/-- What a thread does next. -/
inductive Task
  /-- The first part of `handle_exit`: the row of the child is removed. -/
  | handle (exit : ChildExit)
  /-- `on_cascade_progress`. -/
  | progress (id : FlowId)
  /-- The rest of `handle_exit`: policy, intensity and strategy. -/
  | judge (spec : ChildSpec) (outcome : FlowOutcome) (failedIdx : Option ℕ) (later : List FlowId)
  /-- The first part of `start_cascade`: the rows are marked, and the specs collected. -/
  | mark (failed : ChildSpec) (failedIdx : Option ℕ) (later : List FlowId)
  /-- The slot of the cascade is filled. -/
  | fill (later : List FlowId) (specs : List ChildSpec)
  | kill (id : FlowId)
  /-- The flows that have left the directory already are not waited for. -/
  | prune (ids : List FlowId)
  /-- The cascade is finished at once if nothing is waited for. -/
  | settle (empty : Bool)
  /-- `finish_cascade`, and what it still has to start. -/
  | finish
  | respawn (specs : List ChildSpec)
  /-- `spawn_child`: the flow, its name and its row. -/
  | spawn (spec : ChildSpec)
  | name (id : FlowId) (spec : ChildSpec)
  | row (id : FlowId) (spec : ChildSpec)
  deriving DecidableEq

/-- `spawn_child` holds the table. -/
def Task.Holds : Task → Bool
  | name .. | row .. => true
  | _ => false

/-- The task takes the table. -/
def Task.Takes : Task → Bool
  | handle _ | mark .. | spawn _ => true
  | _ => false

structure State where
  table : ChildTable
  cascade : Option Cascade
  events : List ChildExit
  intensity : Intensity
  /-- What the drive thread does for the present exit. -/
  tasks : List Task
  /-- What an embedder does that starts a child. -/
  host : List Task
  stage : FlowId → Stage
  registry : String → Option FlowId
  killed : FlowId → Bool
  nextFlow : FlowId

def State.init : State where
  table := .new
  cascade := none
  events := []
  intensity := .new
  tasks := []
  host := []
  stage := fun _ => .unborn
  registry := fun _ => none
  killed := fun _ => false
  nextFlow := 1

/-- What a task reads from outside: the clock, whether a spawn succeeds, and which flow is looked up
next. -/
structure Reading where
  now : ℕ
  spawns : Bool
  pick : ℕ

namespace State

variable (cfg : Config)

/-- The siblings that are torn down when the child at `failedIdx` has been removed. -/
def later (table : ChildTable) (failedIdx : Option ℕ) : List FlowId :=
  match cfg.strategy, failedIdx with
  | .oneForAll, _ => table.order
  | .restForOne, some i => table.order.drop i
  | _, _ => []

/-- The specs of a cascade, in the order in which they are started. -/
def cascadeSpecs (failed : ChildSpec) (failedIdx : Option ℕ) (laterSpecs : List ChildSpec) :
    List ChildSpec :=
  match cfg.strategy with
  | .oneForAll => laterSpecs.insertIdx (failedIdx.getD laterSpecs.length) failed
  | .restForOne => failed :: laterSpecs
  | .oneForOne => [failed]

/-- A task changes the state, and says what its thread does instead of it. -/
def exec (r : Reading) (s : State) : Task → State × List Task
  | .handle exit =>
    let failedIdx := s.table.order.idxOf? exit.id
    match s.table.byId exit.id with
    | none => (s, [])
    | some live =>
      let table := s.table.remove exit.id
      ({ s with table := table },
        if live.expectedShutdown then [.progress exit.id]
        else [.judge live.spec exit.outcome failedIdx (later cfg table failedIdx)])
  | .progress id =>
    match s.cascade with
    | none => (s, [])
    | some c =>
      let waiting := c.waiting.filter (· ≠ id)
      ({ s with cascade := some { c with waiting := waiting } },
        if waiting = [] then [.finish] else [])
  | .judge spec outcome failedIdx later =>
    if !shouldRestart spec.restart outcome then (s, [])
    else
      let (allowed, intensity) := s.intensity.allows cfg r.now
      ({ s with intensity := intensity },
        if !allowed then []
        else match cfg.strategy with
          | .oneForOne => [.spawn spec]
          | .oneForAll | .restForOne => [.mark spec failedIdx later])
  | .mark failed failedIdx later =>
    let laterSpecs := later.filterMap fun id => (s.table.byId id).map (·.spec)
    ({ s with table := later.foldl ChildTable.expect s.table },
      [.fill later (cascadeSpecs cfg failed failedIdx laterSpecs)])
  | .fill later specs =>
    ({ s with cascade := some ⟨later, specs⟩ },
      later.map .kill ++ [.prune later, .settle (later = [])])
  | .kill id => ({ s with killed := update s.killed id true }, [])
  | .prune [] => (s, [])
  | .prune (id :: ids) =>
    -- the set is gone through in any order
    let next := (id :: ids).getD r.pick id
    let cascade := s.cascade.map fun c =>
      if s.stage next = .live then c else { c with waiting := c.waiting.filter (· ≠ next) }
    ({ s with cascade := cascade }, [.prune ((id :: ids).erase next)])
  | .settle empty =>
    let remaining := (s.cascade.map fun c => decide (c.waiting = [])).getD true
    (s, if remaining || empty then [.finish] else [])
  | .finish =>
    match s.cascade with
    | none => (s, [])
    | some c => ({ s with cascade := none }, [.respawn c.specs])
  | .respawn [] => (s, [])
  | .respawn (spec :: specs) =>
    (s, if s.intensity.exceeded then [] else [.spawn spec, .respawn specs])
  | .spawn spec =>
    if !r.spawns then (s, [])
    else
      let id := s.nextFlow
      ({ s with nextFlow := id + 1, stage := update s.stage id .live },
        if spec.name = "" then [.row id spec] else [.name id spec])
  | .name id spec =>
    if (s.registry spec.name).isNone then
      ({ s with registry := update s.registry spec.name (some id) }, [.row id spec])
    else ({ s with killed := update s.killed id true }, [])
  | .row id spec => ({ s with table := s.table.insert id ⟨spec, false⟩ }, [])

end State

/-- A step of a thread. -/
inductive Input
  /-- The drive thread takes an exit from the queue, or goes on. -/
  | drive (r : Reading)
  /-- An embedder calls `start_child`. -/
  | start (spec : ChildSpec)
  | host (r : Reading)
  /-- A flow leaves the directory. -/
  | unregister (id : FlowId) (outcome : FlowOutcome)
  | unname (id : FlowId)
  | notify (id : FlowId)
  /-- A flow that is not supervised takes an identity. -/
  | elsewhere

/-- The table is held by another thread. -/
def State.Blocked (others : List Task) (task : Task) : Bool :=
  task.Takes && (others.head?.map Task.Holds).getD false

def step (cfg : Config) (s : State) : Input → State
  | .drive r =>
    match s.tasks with
    | [] =>
      match s.events with
      | [] => s
      | exit :: events => { s with events := events, tasks := [.handle exit] }
    | task :: rest =>
      if State.Blocked s.host task then s
      else { (s.exec cfg r task).1 with tasks := (s.exec cfg r task).2 ++ rest }
  | .start spec => if s.host = [] then { s with host := [.spawn spec] } else s
  | .host r =>
    match s.host with
    | [] => s
    | task :: rest =>
      if State.Blocked s.tasks task then s
      else { (s.exec cfg r task).1 with host := (s.exec cfg r task).2 ++ rest }
  | .unregister id outcome =>
    if s.stage id = .live then { s with stage := update s.stage id (.unregistered outcome) } else s
  | .unname id =>
    match s.stage id with
    | .unregistered outcome =>
      { s with
        stage := update s.stage id (.unnamed outcome)
        registry := fun name => if s.registry name = some id then none else s.registry name }
    | _ => s
  | .notify id =>
    match s.stage id with
    | .unnamed outcome =>
      { s with stage := update s.stage id .notified, events := s.events ++ [⟨id, outcome⟩] }
    | _ => s
  | .elsewhere => { s with nextFlow := s.nextFlow + 1 }

def run (cfg : Config) (s : State) (is : List Input) : State := Schedule.run (step cfg) s is

/-! ## What a task does -/

/-- The outcomes of a task: the state, and what its thread does instead of it. -/
inductive Executes (cfg : Config) (r : Reading) (s : State) : Task → State → List Task → Prop
  | unknown {exit : ChildExit} (h : s.table.byId exit.id = none) :
      Executes cfg r s (.handle exit) s []
  | torn {exit : ChildExit} {spec : ChildSpec} (h : s.table.byId exit.id = some ⟨spec, true⟩) :
      Executes cfg r s (.handle exit) { s with table := s.table.remove exit.id }
        [.progress exit.id]
  | fails {exit : ChildExit} {spec : ChildSpec} (h : s.table.byId exit.id = some ⟨spec, false⟩) :
      Executes cfg r s (.handle exit) { s with table := s.table.remove exit.id }
        [.judge spec exit.outcome (s.table.order.idxOf? exit.id)
          (State.later cfg (s.table.remove exit.id) (s.table.order.idxOf? exit.id))]
  | late {id : FlowId} (h : s.cascade = none) : Executes cfg r s (.progress id) s []
  | progresses {id : FlowId} {c : Cascade} {tasks : List Task} (h : s.cascade = some c)
      (htasks : tasks = [.finish] ∨ tasks = []) :
      Executes cfg r s (.progress id)
        { s with cascade := some { c with waiting := c.waiting.filter (· ≠ id) } } tasks
  | retires {spec : ChildSpec} {outcome : FlowOutcome} {failedIdx : Option ℕ} {later : List FlowId}
      (h : shouldRestart spec.restart outcome = false) :
      Executes cfg r s (.judge spec outcome failedIdx later) s []
  | refuses {spec : ChildSpec} {outcome : FlowOutcome} {failedIdx : Option ℕ} {later : List FlowId}
      (h : shouldRestart spec.restart outcome = true)
      (hallows : (s.intensity.allows cfg r.now).1 = false) :
      Executes cfg r s (.judge spec outcome failedIdx later)
        { s with intensity := (s.intensity.allows cfg r.now).2 } []
  | restarts {spec : ChildSpec} {outcome : FlowOutcome} {failedIdx : Option ℕ} {later : List FlowId}
      (h : shouldRestart spec.restart outcome = true)
      (hallows : (s.intensity.allows cfg r.now).1 = true) (hstrategy : cfg.strategy = .oneForOne) :
      Executes cfg r s (.judge spec outcome failedIdx later)
        { s with intensity := (s.intensity.allows cfg r.now).2 } [.spawn spec]
  | cascades {spec : ChildSpec} {outcome : FlowOutcome} {failedIdx : Option ℕ} {later : List FlowId}
      (h : shouldRestart spec.restart outcome = true)
      (hallows : (s.intensity.allows cfg r.now).1 = true) (hstrategy : cfg.strategy ≠ .oneForOne) :
      Executes cfg r s (.judge spec outcome failedIdx later)
        { s with intensity := (s.intensity.allows cfg r.now).2 } [.mark spec failedIdx later]
  | marks (failed : ChildSpec) (failedIdx : Option ℕ) (later : List FlowId) :
      Executes cfg r s (.mark failed failedIdx later)
        { s with table := later.foldl ChildTable.expect s.table }
        [.fill later (State.cascadeSpecs cfg failed failedIdx
          (later.filterMap fun id => (s.table.byId id).map (·.spec)))]
  | fills (later : List FlowId) (specs : List ChildSpec) :
      Executes cfg r s (.fill later specs) { s with cascade := some ⟨later, specs⟩ }
        (later.map .kill ++ [.prune later, .settle (later = [])])
  | kills (id : FlowId) :
      Executes cfg r s (.kill id) { s with killed := update s.killed id true } []
  | pruned : Executes cfg r s (.prune []) s []
  | prunes {id : FlowId} {ids ids' : List FlowId} {cascade : Option Cascade}
      (h : cascade.map (·.specs) = s.cascade.map (·.specs)) :
      Executes cfg r s (.prune (id :: ids)) { s with cascade := cascade } [.prune ids']
  | settles {empty : Bool} {tasks : List Task} (htasks : tasks = [.finish] ∨ tasks = []) :
      Executes cfg r s (.settle empty) s tasks
  | idles (h : s.cascade = none) : Executes cfg r s .finish s []
  | finishes {c : Cascade} (h : s.cascade = some c) :
      Executes cfg r s .finish { s with cascade := none } [.respawn c.specs]
  | respawned : Executes cfg r s (.respawn []) s []
  | stops {spec : ChildSpec} {specs : List ChildSpec} (h : s.intensity.exceeded = true) :
      Executes cfg r s (.respawn (spec :: specs)) s []
  | respawns {spec : ChildSpec} {specs : List ChildSpec} (h : s.intensity.exceeded = false) :
      Executes cfg r s (.respawn (spec :: specs)) s [.spawn spec, .respawn specs]
  | denied {spec : ChildSpec} (h : r.spawns = false) : Executes cfg r s (.spawn spec) s []
  | spawns {spec : ChildSpec} {tasks : List Task} (h : r.spawns = true)
      (htasks : tasks = [.row s.nextFlow spec] ∨ tasks = [.name s.nextFlow spec]) :
      Executes cfg r s (.spawn spec)
        { s with nextFlow := s.nextFlow + 1, stage := update s.stage s.nextFlow .live } tasks
  | names {id : FlowId} {spec : ChildSpec} (h : (s.registry spec.name).isNone = true) :
      Executes cfg r s (.name id spec)
        { s with registry := update s.registry spec.name (some id) } [.row id spec]
  | taken {id : FlowId} {spec : ChildSpec} (h : (s.registry spec.name).isNone = false) :
      Executes cfg r s (.name id spec) { s with killed := update s.killed id true } []
  | adds (id : FlowId) (spec : ChildSpec) :
      Executes cfg r s (.row id spec) { s with table := s.table.insert id ⟨spec, false⟩ } []

theorem State.executes (cfg : Config) (r : Reading) (s : State) (task : Task) :
    Executes cfg r s task (s.exec cfg r task).1 (s.exec cfg r task).2 := by
  cases task with
  | handle exit =>
    simp only [State.exec]
    split
    · exact .unknown ‹_›
    · rename_i live hlive
      obtain ⟨spec, expected⟩ := live
      cases expected with
      | true => exact .torn hlive
      | false => exact .fails hlive
  | progress id =>
    simp only [State.exec]
    split
    · exact .late ‹_›
    · exact .progresses ‹_› (ite_eq_or_eq ..)
  | judge spec outcome failedIdx later =>
    simp only [State.exec]
    cases hrestart : shouldRestart spec.restart outcome with
    | false => exact .retires hrestart
    | true =>
      cases hallows : (s.intensity.allows cfg r.now).1 with
      | false => exact .refuses hrestart hallows
      | true =>
        cases hstrategy : cfg.strategy with
        | oneForOne => exact .restarts hrestart hallows hstrategy
        | oneForAll | restForOne =>
          exact .cascades hrestart hallows (by rw [hstrategy]; simp)
  | mark failed failedIdx later => exact .marks failed failedIdx later
  | fill later specs => exact .fills later specs
  | kill id => exact .kills id
  | prune ids =>
    cases ids with
    | nil => exact .pruned
    | cons id ids =>
      refine .prunes ?_
      rw [Option.map_map]
      refine Option.map_congr fun c _ => ?_
      rw [Function.comp_apply]
      split_ifs <;> rfl
  | settle empty => exact .settles (ite_eq_or_eq ..)
  | finish =>
    simp only [State.exec]
    split
    · exact .idles ‹_›
    · exact .finishes ‹_›
  | respawn specs =>
    cases specs with
    | nil => exact .respawned
    | cons spec specs =>
      simp only [State.exec]
      split_ifs with h
      · exact .stops h
      · exact .respawns (Bool.eq_false_of_not_eq_true h)
  | spawn spec =>
    simp only [State.exec]
    cases hspawns : r.spawns with
    | false => exact .denied hspawns
    | true => exact .spawns hspawns (ite_eq_or_eq ..)
  | name id spec =>
    simp only [State.exec]
    split_ifs with h
    · exact .names h
    · exact .taken (Bool.eq_false_of_not_eq_true h)
  | row id spec => exact .adds id spec

variable {cfg : Config} {r : Reading} {s s' : State} {task : Task} {tasks : List Task}

/-- What a task leaves to others. -/
theorem Executes.frame (h : Executes cfg r s task s' tasks) :
    s'.tasks = s.tasks ∧ s'.host = s.host ∧ s'.events = s.events := by
  cases h <;> exact ⟨rfl, rfl, rfl⟩

theorem Executes.nextFlow_le (h : Executes cfg r s task s' tasks) : s.nextFlow ≤ s'.nextFlow := by
  cases h with
  | spawns => exact Nat.le_succ _
  | _ => exact le_rfl

/-- A task brings no flow further. -/
theorem Executes.stage (h : Executes cfg r s task s' tasks) {id : FlowId}
    (hlive : s'.stage id ≠ .live) : s'.stage id = s.stage id := by
  cases h with
  | spawns =>
    have hne : id ≠ s.nextFlow := by
      rintro rfl
      exact hlive (Function.update_self ..)
    exact Function.update_of_ne hne ..
  | _ => rfl

end Supervisor

end Byteflow
