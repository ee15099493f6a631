import Byteflow.Scheduler.Flow
import Mathlib.Logic.Function.Basic

/-!
# The children of a supervisor

What a supervisor knows of its children (`scheduler/supervisor.rs`): the table of the live ones, in
the order in which they were started.
-/

namespace Byteflow

/-- What a supervisor does when a child terminates. -/
inductive RestartPolicy
  | always
  | onFailure
  | never
  deriving DecidableEq

namespace Supervisor

/-- A child that the supervisor starts, and restarts perhaps. -/
structure ChildSpec where
  name : String
  function : UInt32
  args : List Value
  restart : RestartPolicy
  deriving DecidableEq

/-- Which siblings die, and come back, when one child exits. -/
inductive RestartStrategy
  | oneForOne
  | oneForAll
  | restForOne
  deriving DecidableEq

structure Config where
  maxRestarts : UInt32
  maxPeriod : ℕ
  strategy : RestartStrategy

structure LiveChild where
  spec : ChildSpec
  /-- A cascade tears this incarnation down: its exit does not start another one. -/
  expectedShutdown : Bool
  deriving DecidableEq

structure ChildTable where
  byId : FlowId → Option LiveChild
  order : List FlowId

namespace ChildTable

open Function (update)

def new : ChildTable := ⟨fun _ => none, []⟩

def insert (table : ChildTable) (id : FlowId) (child : LiveChild) : ChildTable :=
  ⟨update table.byId id (some child), table.order ++ [id]⟩

def remove (table : ChildTable) (id : FlowId) : ChildTable :=
  ⟨update table.byId id none, table.order.filter (· ≠ id)⟩

/-- The row is marked as torn down by a cascade. -/
def expect (table : ChildTable) (id : FlowId) : ChildTable :=
  { table with
    byId := update table.byId id
      ((table.byId id).map fun child => { child with expectedShutdown := true }) }

/-- The rows, in the order of the starts. -/
def rows (table : ChildTable) : List (FlowId × LiveChild) :=
  table.order.filterMap fun id => (table.byId id).map fun child => (id, child)

end ChildTable

def shouldRestart (policy : RestartPolicy) (outcome : FlowOutcome) : Bool :=
  match policy, outcome with
  | .always, _ => true
  | .onFailure, .failed _ => true
  | .onFailure, .completed _ => false
  | .never, _ => false

/-! ## The table as a list of rows -/

/-- The row, marked if it is torn down. -/
def expectRow (ids : List FlowId) (row : FlowId × LiveChild) : FlowId × LiveChild :=
  if row.1 ∈ ids then (row.1, { row.2 with expectedShutdown := true }) else row

@[simp] theorem expectRow_fst (ids : List FlowId) (row : FlowId × LiveChild) :
    (expectRow ids row).1 = row.1 := by
  unfold expectRow
  split_ifs <;> rfl

namespace ChildTable

/-- The map and the order agree on the rows. -/
structure Shows (table : ChildTable) (rows : List (FlowId × LiveChild)) : Prop where
  order : table.order = rows.map Prod.fst
  nodup : (rows.map Prod.fst).Nodup
  found : ∀ row ∈ rows, table.byId row.1 = some row.2
  missing : ∀ id, id ∉ rows.map Prod.fst → table.byId id = none

variable {table : ChildTable} {rows : List (FlowId × LiveChild)}

theorem shows_new : Shows new [] := ⟨rfl, List.nodup_nil, fun _ h => absurd h List.not_mem_nil,
  fun _ _ => rfl⟩

theorem Shows.rows_eq (h : Shows table rows) : table.rows = rows := by
  unfold ChildTable.rows
  rw [h.order, List.filterMap_map]
  have hall : ∀ row ∈ rows, ((table.byId row.1).map fun child => (row.1, child)) = some row :=
    fun row hrow => by rw [h.found row hrow]; rfl
  exact (List.filterMap_congr hall).trans List.filterMap_some

theorem Shows.insert (h : Shows table rows) {id : FlowId} (hid : id ∉ rows.map Prod.fst)
    (child : LiveChild) : Shows (table.insert id child) (rows ++ [(id, child)]) where
  order := by simp [ChildTable.insert, h.order]
  nodup := by
    rw [List.map_append, List.map_singleton, List.nodup_append]
    refine ⟨h.nodup, by simp, ?_⟩
    rintro a ha b hb rfl
    rw [List.mem_singleton.mp hb] at ha
    exact hid ha
  found := by
    intro row hrow
    rcases List.mem_append.mp hrow with hrow | hrow
    · have hne : row.1 ≠ id := fun heq => hid (heq ▸ List.mem_map_of_mem hrow)
      exact (Function.update_of_ne hne ..).trans (h.found row hrow)
    · obtain rfl := List.mem_singleton.mp hrow
      exact Function.update_self ..
  missing := by
    intro id' hid'
    rw [List.map_append, List.map_singleton, List.mem_append, not_or, List.mem_singleton] at hid'
    exact (Function.update_of_ne hid'.2 ..).trans (h.missing id' hid'.1)

theorem Shows.remove (h : Shows table rows) (id : FlowId) :
    Shows (table.remove id) (rows.filter fun row => row.1 ≠ id) where
  order := by
    simp only [ChildTable.remove, h.order, List.filter_map]
    rfl
  nodup := h.nodup.sublist (List.filter_sublist.map _)
  found := by
    intro row hrow
    obtain ⟨hrow, hne⟩ := List.mem_filter.mp hrow
    exact (Function.update_of_ne (of_decide_eq_true hne) ..).trans (h.found row hrow)
  missing := by
    intro id' hid'
    rcases eq_or_ne id' id with rfl | hne
    · exact Function.update_self ..
    · refine (Function.update_of_ne hne ..).trans (h.missing id' fun hmem => hid' ?_)
      obtain ⟨row, hrow, rfl⟩ := List.mem_map.mp hmem
      exact List.mem_map_of_mem (List.mem_filter.mpr ⟨hrow, decide_eq_true hne⟩)

theorem Shows.expect (h : Shows table rows) (id : FlowId) :
    Shows (table.expect id) (rows.map (expectRow [id])) where
  order := by simp [ChildTable.expect, h.order, Function.comp_def]
  nodup := by
    have hids : (rows.map (expectRow [id])).map Prod.fst = rows.map Prod.fst := by
      simp [Function.comp_def]
    rw [hids]
    exact h.nodup
  found := by
    intro row hmem
    obtain ⟨row, hrow, rfl⟩ := List.mem_map.mp hmem
    rw [expectRow_fst]
    unfold ChildTable.expect expectRow
    rcases eq_or_ne row.1 id with rfl | hne
    · simp [h.found row hrow]
    · simp [hne, h.found row hrow]
  missing := by
    intro id' hid'
    have hnone := h.missing id' (by simpa [Function.comp_def] using hid')
    unfold ChildTable.expect
    rcases eq_or_ne id' id with rfl | hne
    · simp [hnone]
    · simp [hne, hnone]

/-- A cascade marks all its rows. -/
theorem Shows.expectAll (h : Shows table rows) (ids : List FlowId) :
    Shows (ids.foldl ChildTable.expect table) (rows.map (expectRow ids)) := by
  induction ids generalizing table rows with
  | nil =>
    have hself : rows.map (expectRow []) = rows :=
      (List.map_congr_left fun row _ => if_neg List.not_mem_nil).trans (List.map_id rows)
    rw [hself]
    exact h
  | cons id ids ih =>
    have hcons := ih (h.expect id)
    have hboth : (rows.map (expectRow [id])).map (expectRow ids) =
        rows.map (expectRow (id :: ids)) := by
      rw [List.map_map]
      refine List.map_congr_left fun row _ => ?_
      rw [Function.comp_apply]
      unfold expectRow
      split_ifs <;> simp_all
    rwa [hboth] at hcons

end ChildTable

end Supervisor

end Byteflow
