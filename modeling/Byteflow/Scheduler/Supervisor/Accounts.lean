import Byteflow.Scheduler.Supervisor.Cascade
import Mathlib.Data.List.Nodup
import Mathlib.Data.List.Perm.Basic

/-!
# No child is lost

A child that was started is represented by a live row, or the drive thread or the cascade that waits
still has to start it again, or it has exited and its policy demands no restart. The accounts
balance after every step (`Balanced`) as long as the drive thread is careful (`Careful`): it fills
an empty slot, it does not mark a row that is marked already, and its restarts succeed. Then no
child is lost when it rests (`no_child_lost`).

The code does not see to any of these. A child that fails while a cascade waits starts another one,
which overwrites the first in its slot (`store_lost`); a cascade may finish while the rows that it
tore down are in the table, and the next one marks them again; and a restart whose name is still
taken is given up.
-/

namespace Byteflow

namespace Supervisor

/-- What becomes of the children. -/
inductive Event
  /-- `start_child` returns a handle. -/
  | started (spec : ChildSpec)
  /-- An exit that demands no restart. -/
  | retired (spec : ChildSpec)
  deriving DecidableEq

namespace Task

/-- The flow that `spawn_child` has spawned and not put in the table yet. -/
def held : Task → List FlowId
  | name id _ | row id _ => [id]
  | _ => []

/-- What the task still has to start. -/
def owed : Task → List ChildSpec
  | judge spec .. | mark spec .. | spawn spec | name _ spec | row _ spec => [spec]
  | fill _ specs | respawn specs => specs
  | _ => []

def starts : Task → List Event
  | row _ spec => [.started spec]
  | _ => []

def retires : Task → List Event
  | judge spec outcome .. => if shouldRestart spec.restart outcome then [] else [.retired spec]
  | _ => []

end Task

/-- The specs of the rows that are not torn down. -/
def ChildTable.live (table : ChildTable) : List ChildSpec :=
  (table.rows.filter fun row => !row.2.expectedShutdown).map fun row => row.2.spec

namespace State

/-- The row is torn down already. -/
def Marked (s : State) (id : FlowId) : Bool :=
  ((s.table.byId id).map (·.expectedShutdown)).getD false

/-- The specs of the cascade that waits. -/
def slot (s : State) : List ChildSpec := (s.cascade.map (·.specs)).getD []

/-- The slot is empty when it is filled, no row is marked twice, and a restart succeeds. -/
def Keeps (s : State) (r : Reading) : Task → Bool
  | .mark _ _ later => later.all fun id => !s.Marked id
  | .fill .. => s.cascade.isNone
  | .spawn _ => r.spawns
  | .name _ spec => (s.registry spec.name).isNone
  | _ => true

end State

/-- The drive thread does not lose a child. -/
def Careful (s : State) : Input → Prop
  | .drive r => ∀ task ∈ s.tasks.head?, State.Blocked s.host task = true ∨ s.Keeps r task = true
  | _ => True

instance Careful.decidable (s : State) : (i : Input) → Decidable (Careful s i)
  | .drive _ => inferInstanceAs (Decidable (∀ task ∈ s.tasks.head?, _ ∨ _))
  | .start _ | .host _ | .unregister _ _ | .unname _ | .notify _ | .elsewhere =>
    inferInstanceAs (Decidable True)

/-- What becomes of the children in a step. -/
def emits (s : State) : Input → List Event
  | .drive _ => (s.tasks.head?.map Task.retires).getD []
  | .host _ => (s.host.head?.map Task.starts).getD []
  | _ => []

def events (cfg : Config) (s : State) (is : List Input) : List Event :=
  Schedule.trace (step cfg) emits s is

variable {cfg : Config} {r : Reading} {s : State} {task : Task} {tasks rest : List Task}
  {table : ChildTable} {rows : List (FlowId × LiveChild)} {id : FlowId} {ids : List FlowId}

/-! ## The live rows -/

namespace ChildTable

theorem Shows.perm_remove (h : table.Shows rows) {live : LiveChild}
    (hfound : table.byId id = some live) :
    rows.Perm ((id, live) :: rows.filter fun row => row.1 ≠ id) := by
  have hmem : (id, live) ∈ rows := by
    by_cases hid : id ∈ rows.map Prod.fst
    · obtain ⟨row, hrow, rfl⟩ := List.mem_map.mp hid
      obtain rfl := Option.some.inj ((h.found row hrow).symm.trans hfound)
      exact hrow
    · cases (h.missing id hid).symm.trans hfound
  have hrows : rows.Nodup := h.nodup.of_map
  have herase : rows.erase (id, live) = rows.filter fun row => row.1 ≠ id := by
    rw [hrows.erase_eq_filter]
    refine List.filter_congr fun row hrow => Bool.eq_iff_iff.mpr ?_
    have hsame : row = (id, live) ↔ row.1 = id :=
      ⟨fun heq => heq ▸ rfl, fun heq => List.inj_on_of_nodup_map h.nodup hrow hmem heq⟩
    rw [bne_iff_ne, decide_eq_true_iff, Ne, hsame]
  rw [← herase]
  exact List.perm_cons_erase hmem

theorem live_eq (h : table.Shows rows) :
    table.live = (rows.filter fun row => !row.2.expectedShutdown).map fun row => row.2.spec := by
  rw [live, h.rows_eq]

theorem live_insert (h : table.Shows rows) (hid : id ∉ table.order) (spec : ChildSpec) :
    (table.insert id ⟨spec, false⟩).live = table.live ++ [spec] := by
  rw [live_eq h, live_eq (h.insert (h.order ▸ hid) ⟨spec, false⟩)]
  simp

theorem live_remove (h : table.Shows rows) {live : LiveChild}
    (hfound : table.byId id = some live) :
    table.live.Perm
      ((if live.expectedShutdown then [] else [live.spec]) ++ (table.remove id).live) := by
  rw [live_eq h, live_eq (h.remove id)]
  refine (((h.perm_remove hfound).filter _).map _).trans (List.Perm.of_eq ?_)
  cases hshutdown : live.expectedShutdown <;> simp [hshutdown]

theorem expect_of_missing (h : table.byId id = none) : table.expect id = table := by
  have hsame : Function.update table.byId id none = table.byId :=
    Function.update_eq_self_iff.mpr h.symm
  simp [expect, h, hsame]

/-- A row that is marked is no longer live. -/
theorem live_expect (h : table.Shows rows) {spec : ChildSpec}
    (hfound : table.byId id = some ⟨spec, false⟩) :
    table.live.Perm (spec :: (table.expect id).live) := by
  have hkept : (rows.filter fun row => row.1 ≠ id).map (expectRow [id]) =
      rows.filter fun row => row.1 ≠ id := by
    refine (List.map_congr_left fun row hrow => ?_).trans (List.map_id _)
    have hne := of_decide_eq_true (List.mem_filter.mp hrow).2
    exact if_neg (by simpa using hne)
  have hperm := (h.perm_remove hfound).map (expectRow [id])
  rw [List.map_cons, hkept] at hperm
  have hlive : (table.expect id).live.Perm (table.remove id).live := by
    rw [live_eq (h.expect id), live_eq (h.remove id)]
    refine ((hperm.filter _).map _).trans (List.Perm.of_eq ?_)
    simp [expectRow]
  exact (live_remove h hfound).trans (hlive.symm.cons spec)

/-- The rows that a cascade marks are no longer live. -/
theorem live_expectAll (h : table.Shows rows) (hnodup : ids.Nodup)
    (hunmarked : ∀ id ∈ ids, ((table.byId id).map (·.expectedShutdown)).getD false = false) :
    table.live.Perm ((ids.filterMap fun id => (table.byId id).map (·.spec)) ++
      (ids.foldl expect table).live) := by
  induction ids generalizing table rows with
  | nil => exact List.Perm.refl _
  | cons id ids ih =>
    rw [List.nodup_cons] at hnodup
    have hsame : ∀ id' ∈ ids, (table.expect id).byId id' = table.byId id' := by
      intro id' hid'
      have hne : id' ≠ id := fun heq => hnodup.1 (heq ▸ hid')
      exact Function.update_of_ne hne ..
    have hih := ih (h.expect id) hnodup.2 fun id' hid' => by
      rw [hsame id' hid']
      exact hunmarked id' (List.mem_cons_of_mem _ hid')
    rw [List.filterMap_congr fun id' hid' => by rw [hsame id' hid']] at hih
    have hid := hunmarked id List.mem_cons_self
    cases hfound : table.byId id with
    | none =>
      rw [expect_of_missing hfound] at hih
      simpa [hfound, expect_of_missing hfound] using hih
    | some live =>
      obtain ⟨spec, expected⟩ := live
      obtain rfl : expected = false := by simpa [hfound] using hid
      simpa [hfound] using (live_expect h hfound).trans (hih.cons spec)

end ChildTable

/-! ## The flows that have a row, or get one -/

/-- The flows with a row, and those that are held, have identities of their own. -/
structure Fresh (table : ChildTable) (held : List FlowId) (next : FlowId) : Prop where
  nodup : (table.order ++ held).Nodup
  old : ∀ id ∈ table.order ++ held, id < next

theorem Fresh.perm {held held' : List FlowId} {next : FlowId} (h : Fresh table held next)
    (hperm : held.Perm held') : Fresh table held' next where
  nodup := ((hperm.append_left table.order).nodup_iff).mp h.nodup
  old id hid := h.old id ((hperm.append_left table.order).mem_iff.mpr hid)

theorem Fresh.sublist {table' : ChildTable} {held held' : List FlowId} {next : FlowId}
    (h : Fresh table held next) (horder : table'.order.Sublist table.order)
    (hheld : held'.Sublist held) : Fresh table' held' next where
  nodup := h.nodup.sublist (horder.append hheld)
  old id hid := h.old id ((horder.append hheld).subset hid)

theorem Fresh.spawn {held : List FlowId} {next : FlowId} (h : Fresh table held next) :
    Fresh table (next :: held) (next + 1) where
  nodup := by
    have hperm : (table.order ++ next :: held).Perm (next :: (table.order ++ held)) :=
      List.perm_middle
    rw [hperm.nodup_iff, List.nodup_cons]
    exact ⟨fun hmem => lt_irrefl next (h.old next hmem), h.nodup⟩
  old := by
    intro id hid
    rcases List.mem_cons.mp (List.perm_middle.mem_iff.mp hid) with rfl | hid
    · exact Nat.lt_succ_self _
    · exact (h.old id hid).trans (Nat.lt_succ_self _)

theorem Fresh.insert {held : List FlowId} {next : FlowId} (h : Fresh table (id :: held) next)
    (child : LiveChild) : Fresh (table.insert id child) held next := by
  have hsame : (table.insert id child).order ++ held = table.order ++ id :: held := by
    simp [ChildTable.insert]
  exact ⟨hsame ▸ h.nodup, hsame ▸ h.old⟩

theorem order_expectAll (ids : List FlowId) (table : ChildTable) :
    (ids.foldl ChildTable.expect table).order = table.order := by
  induction ids generalizing table with
  | nil => rfl
  | cons id ids ih => exact ih (table.expect id)

variable {s' : State} {others : List FlowId}

/-- A task keeps the identities apart. -/
theorem Executes.fresh (h : Executes cfg r s task s' tasks)
    (hfresh : Fresh s.table (task.held ++ others) s.nextFlow) :
    Fresh s'.table (tasks.flatMap Task.held ++ others) s'.nextFlow := by
  cases h with
  | torn | fails => exact hfresh.sublist List.filter_sublist (List.Sublist.refl _)
  | marks failed failedIdx later =>
    exact hfresh.sublist (order_expectAll later s.table ▸ List.Sublist.refl _)
      (List.Sublist.refl _)
  | fills later specs =>
    have hkills : (later.map Task.kill).flatMap Task.held = [] := by
      simp [List.flatMap_map, Task.held]
    rw [List.flatMap_append, hkills]
    exact hfresh
  | spawns _ htasks => rcases htasks with rfl | rfl <;> exact hfresh.spawn
  | taken => exact hfresh.sublist (List.Sublist.refl _) (List.sublist_cons_self ..)
  | adds id spec => exact hfresh.insert ⟨spec, false⟩
  | progresses _ htasks | settles htasks => rcases htasks with rfl | rfl <;> exact hfresh
  | _ => exact hfresh

/-! ## The tasks and the table -/

/-- The children that a cascade will tear down have rows, and the failed one had its place among
them. -/
structure Torn (cfg : Config) (table : ChildTable) (failedIdx : Option ℕ) (later : List FlowId) :
    Prop where
  nodup : later.Nodup
  subset : later ⊆ table.order
  index : cfg.strategy = .oneForAll → failedIdx.getD later.length ≤ later.length
  strategy : cfg.strategy = .oneForOne → later = []

namespace Task

/-- What the drive thread relies on when it gets to the task. -/
def Ready (cfg : Config) (table : ChildTable) : Task → Prop
  | judge _ _ failedIdx later | mark _ failedIdx later => Torn cfg table failedIdx later
  | _ => True

/-- The task waits for others of its thread. -/
def Waits : Task → Bool
  | kill _ | prune _ | settle _ | respawn _ => true
  | _ => false

/-- A task of `spawn_child`. -/
def Spawns : Task → Bool
  | spawn _ | name .. | row .. => true
  | _ => false

theorem ready_of_waits (h : task.Waits = true) : task.Ready cfg table := by
  cases task <;> trivial

theorem Ready.mono {table' : ChildTable} (h : task.Ready cfg table)
    (horder : table.order ⊆ table'.order) : task.Ready cfg table' := by
  cases task with
  | judge _ _ failedIdx later | mark _ failedIdx later =>
    exact { h with subset := fun id hid => horder (h.subset hid) }
  | _ => trivial

end Task

theorem later_sublist (cfg : Config) (table : ChildTable) (failedIdx : Option ℕ) :
    (State.later cfg table failedIdx).Sublist table.order := by
  unfold State.later
  split
  · exact List.Sublist.refl _
  · exact List.drop_sublist ..
  · exact List.nil_sublist _

/-- The siblings of a failed child. -/
theorem torn_remove (h : table.Shows rows) (hid : id ∈ table.order) :
    Torn cfg (table.remove id) (table.order.idxOf? id)
      (State.later cfg (table.remove id) (table.order.idxOf? id)) where
  nodup := by
    have hnodup : (table.remove id).order.Nodup := (h.remove id).order ▸ (h.remove id).nodup
    exact hnodup.sublist (later_sublist ..)
  subset := (later_sublist ..).subset
  index := by
    intro hstrategy
    have hlater : State.later cfg (table.remove id) (table.order.idxOf? id) =
        (table.remove id).order := by
      simp [State.later, hstrategy]
    have hnodup : table.order.Nodup := h.order ▸ h.nodup
    have hlength : (table.remove id).order.length = table.order.length - 1 := by
      rw [← List.length_erase_of_mem hid, hnodup.erase_eq_filter]
      simp [ChildTable.remove, bne, beq_eq_decide]
    rw [hlater, hlength]
    cases hindex : table.order.idxOf? id with
    | none => exact le_rfl
    | some i =>
      obtain ⟨hi, -⟩ := List.idxOf?_eq_some_iff.mp hindex
      exact Nat.le_sub_one_of_lt hi
  strategy := by
    intro hstrategy
    simp [State.later, hstrategy]

/-- Of the tasks that a task leads to, all but the first wait. -/
theorem Executes.waits (h : Executes cfg r s task s' tasks) :
    ∀ task' ∈ tasks.tail, task'.Waits = true := by
  cases h with
  | fills later specs =>
    intro task' htask'
    rcases List.mem_append.mp (List.mem_of_mem_tail htask') with hkill | hlast
    · obtain ⟨id, -, rfl⟩ := List.mem_map.mp hkill
      rfl
    · rcases List.mem_pair.mp hlast with rfl | rfl <;> rfl
  | respawns _ => simp [Task.Waits]
  | progresses _ htasks | settles htasks | spawns _ htasks =>
    rcases htasks with rfl | rfl <;> simp
  | _ => simp

theorem Executes.ready (h : Executes cfg r s task s' tasks)
    (hshows : s.table.Shows s.table.rows) (hready : task.Ready cfg s.table) :
    ∀ task' ∈ tasks, task'.Ready cfg s'.table := by
  cases h with
  | @fails exit spec hfound =>
    have hid : exit.id ∈ s.table.order := by
      by_contra hid
      cases (hshows.missing exit.id (hshows.order ▸ hid)).symm.trans hfound
    simpa [Task.Ready] using torn_remove hshows hid
  | cascades => simpa [Task.Ready] using hready
  | fills later specs =>
    intro task' htask'
    rcases List.mem_append.mp htask' with hkill | hlast
    · obtain ⟨id, -, rfl⟩ := List.mem_map.mp hkill
      trivial
    · rcases List.mem_pair.mp hlast with rfl | rfl <;> trivial
  | progresses _ htasks | settles htasks | spawns _ htasks =>
    rcases htasks with rfl | rfl <;> simp [Task.Ready]
  | _ => simp [Task.Ready]

theorem Executes.shows (h : Executes cfg r s task s' tasks)
    (hshows : s.table.Shows s.table.rows) (hnew : ∀ id ∈ task.held, id ∉ s.table.order) :
    s'.table.Shows s'.table.rows := by
  have hrows {table : ChildTable} {rows : List (FlowId × LiveChild)} (hshows : table.Shows rows) :
      table.Shows table.rows := hshows.rows_eq ▸ hshows
  cases h with
  | torn | fails => exact hrows (hshows.remove _)
  | marks failed failedIdx later => exact hrows (hshows.expectAll later)
  | adds id spec =>
    exact hrows (hshows.insert (hshows.order ▸ hnew id List.mem_cons_self) ⟨spec, false⟩)
  | _ => exact hshows

/-! ## The accounts -/

theorem Torn.length_laterSpecs {failedIdx : Option ℕ} {later : List FlowId}
    (h : Torn cfg table failedIdx later) (hshows : table.Shows rows) :
    (later.filterMap fun id => (table.byId id).map (·.spec)).length = later.length := by
  rw [List.filterMap_length_eq_length]
  intro id hid
  have hmem := h.subset hid
  rw [hshows.order] at hmem
  obtain ⟨row, hrow, rfl⟩ := List.mem_map.mp hmem
  simp [hshows.found row hrow]

/-- A cascade starts the failed child and those that it tore down. -/
theorem Torn.perm_cascadeSpecs {failedIdx : Option ℕ} {later : List FlowId}
    (h : Torn cfg table failedIdx later) {laterSpecs : List ChildSpec}
    (hlength : laterSpecs.length = later.length) (failed : ChildSpec) :
    (State.cascadeSpecs cfg failed failedIdx laterSpecs).Perm (failed :: laterSpecs) := by
  unfold State.cascadeSpecs
  cases hstrategy : cfg.strategy with
  | oneForAll =>
    refine List.perm_insertIdx _ _ ?_
    rw [hlength]
    exact h.index hstrategy
  | restForOne => exact List.Perm.refl _
  | oneForOne =>
    obtain rfl : laterSpecs = [] := List.length_eq_zero_iff.mp (by
      rw [hlength, h.strategy hstrategy, List.length_nil])
    exact List.Perm.refl _

/-- **A task of the drive thread.** What it takes from the live rows or the slot it owes, and what
it no longer owes is in the table or in the slot, or retired. -/
theorem Executes.accounts (h : Executes cfg r s task s' tasks)
    (hshows : s.table.Shows s.table.rows) (hnew : ∀ id ∈ task.held, id ∉ s.table.order)
    (hready : task.Ready cfg s.table) (hkeeps : s.Keeps r task = true)
    (hexceeded : s'.intensity.exceeded = false) (x : ChildSpec) :
    s'.table.live.count x + (tasks.flatMap Task.owed).count x + s'.slot.count x +
        task.retires.count (.retired x) =
      s.table.live.count x + task.owed.count x + s.slot.count x := by
  cases h with
  | torn hfound | fails hfound =>
    have hperm := (ChildTable.live_remove hshows hfound).count_eq x
    simp only [Task.owed, Task.retires, State.slot, List.flatMap_cons, List.flatMap_nil,
      List.count_append, List.count_nil] at hperm ⊢
    simp only [if_true, Bool.false_eq_true, if_false, List.count_nil] at hperm
    omega
  | progresses hcascade htasks =>
    rcases htasks with rfl | rfl <;> simp [Task.owed, Task.retires, State.slot, hcascade]
  | @retires spec outcome failedIdx later hrestart =>
    simp only [Task.owed, Task.retires, hrestart, List.flatMap_nil, List.count_nil,
      List.count_cons, Bool.false_eq_true, if_false, beq_iff_eq, Event.retired.injEq]
    omega
  | refuses hrestart hallows =>
    rw [(Intensity.allows_of_step hexceeded).2] at hallows
    cases hallows
  | restarts hrestart | cascades hrestart =>
    simp [Task.owed, Task.retires, State.slot, hrestart]
  | marks failed failedIdx later =>
    have hunmarked : ∀ id ∈ later, s.Marked id = false := by
      simpa [State.Keeps] using hkeeps
    have htorn : Torn cfg s.table failedIdx later := hready
    have hlive := (ChildTable.live_expectAll hshows htorn.nodup hunmarked).count_eq x
    have hspecs :=
      (htorn.perm_cascadeSpecs (htorn.length_laterSpecs hshows) failed).count_eq x
    simp only [Task.owed, Task.retires, State.slot, List.flatMap_cons, List.flatMap_nil,
      List.count_append, List.count_nil, List.count_cons] at hlive hspecs ⊢
    omega
  | fills later specs =>
    have hslot : s.cascade = none := Option.isNone_iff_eq_none.mp hkeeps
    have hkills : (later.map Task.kill).flatMap Task.owed = [] := by
      simp [List.flatMap_map, Task.owed]
    simp [Task.owed, Task.retires, State.slot, hslot, hkills]
  | prunes hsame => simp [Task.owed, Task.retires, State.slot, hsame]
  | settles htasks => rcases htasks with rfl | rfl <;> simp [Task.owed, Task.retires]
  | finishes hcascade =>
    simp [Task.owed, Task.retires, State.slot, hcascade]
  | stops hstopped =>
    rw [hexceeded] at hstopped
    cases hstopped
  | denied hdenied =>
    have hspawns : r.spawns = true := hkeeps
    rw [hdenied] at hspawns
    cases hspawns
  | spawns _ htasks =>
    rcases htasks with rfl | rfl <;> simp [Task.owed, Task.retires, State.slot]
  | taken htaken =>
    have hfree : (s.registry _).isNone = true := hkeeps
    rw [htaken] at hfree
    cases hfree
  | adds id spec =>
    rw [ChildTable.live_insert hshows (hnew id List.mem_cons_self)]
    simp [Task.owed, Task.retires, State.slot]
  | unknown | late | pruned | idles | respawned => simp [Task.owed, Task.retires]
  | kills | names => simp [Task.owed, Task.retires, State.slot]
  | respawns => simp [Task.owed, Task.retires, List.count_cons]

/-- **A task of an embedder.** It starts one child at most, and is alone. -/
structure Started (s s' : State) (task : Task) (tasks : List Task) : Prop where
  live : ∀ x, s'.table.live.count x = s.table.live.count x + task.starts.count (.started x)
  slot : s'.slot = s.slot
  intensity : s'.intensity = s.intensity
  order : s.table.order ⊆ s'.table.order
  spawns : ∀ task' ∈ tasks, task'.Spawns = true
  alone : tasks.length ≤ 1

theorem Executes.started (h : Executes cfg r s task s' tasks) (hspawns : task.Spawns = true)
    (hshows : s.table.Shows s.table.rows) (hnew : ∀ id ∈ task.held, id ∉ s.table.order) :
    Started s s' task tasks := by
  cases h with
  | adds id spec =>
    refine ⟨fun x => ?_, rfl, rfl, List.subset_append_left .., by simp, by simp⟩
    rw [ChildTable.live_insert hshows (hnew id List.mem_cons_self)]
    simp [Task.starts, List.count_cons]
  | spawns _ htasks =>
    rcases htasks with rfl | rfl <;>
      exact ⟨fun x => rfl, rfl, rfl, List.Subset.refl _, by simp [Task.Spawns], by simp⟩
  | names | taken | denied =>
    exact ⟨fun x => rfl, rfl, rfl, List.Subset.refl _, by simp [Task.Spawns], by simp⟩
  | _ => cases hspawns

/-! ## The steps -/

theorem retires_of_takes (h : task.Takes = true) : task.retires = [] := by
  cases task <;> first | rfl | cases h

theorem starts_of_takes (h : task.Takes = true) : task.starts = [] := by
  cases task <;> first | rfl | cases h

theorem takes_of_blocked {others : List Task} (h : State.Blocked others task = true) :
    task.Takes = true := (Bool.and_eq_true_iff.mp h).1

/-- The drive thread does nothing, takes an exit from the queue or goes on with a task. -/
theorem step_drive (cfg : Config) (s : State) (r : Reading) :
    step cfg s (.drive r) = s ∧ emits s (.drive r) = [] ∨
      (∃ exit events, s.tasks = [] ∧ s.events = exit :: events ∧
        step cfg s (.drive r) = { s with events := events, tasks := [.handle exit] } ∧
          emits s (.drive r) = []) ∨
        ∃ task rest s' tasks, s.tasks = task :: rest ∧ State.Blocked s.host task = false ∧
          Executes cfg r s task s' tasks ∧
            step cfg s (.drive r) = { s' with tasks := tasks ++ rest } ∧
              emits s (.drive r) = task.retires := by
  unfold step emits
  cases htasks : s.tasks with
  | nil =>
    cases hevents : s.events with
    | nil => exact .inl ⟨rfl, rfl⟩
    | cons exit events => exact .inr (.inl ⟨exit, events, rfl, rfl, rfl, rfl⟩)
  | cons task rest =>
    cases hblocked : State.Blocked s.host task with
    | true =>
      refine .inl ⟨by simp [hblocked], ?_⟩
      simp [retires_of_takes (takes_of_blocked hblocked)]
    | false =>
      exact .inr (.inr ⟨task, rest, _, _, rfl, hblocked, s.executes cfg r task, by simp [hblocked],
        rfl⟩)

/-- So does an embedder with the tasks of `start_child`. -/
theorem step_host (cfg : Config) (s : State) (r : Reading) :
    step cfg s (.host r) = s ∧ emits s (.host r) = [] ∨
      ∃ task rest s' tasks, s.host = task :: rest ∧ State.Blocked s.tasks task = false ∧
        Executes cfg r s task s' tasks ∧
          step cfg s (.host r) = { s' with host := tasks ++ rest } ∧
            emits s (.host r) = task.starts := by
  unfold step emits
  cases hhost : s.host with
  | nil => exact .inl ⟨rfl, rfl⟩
  | cons task rest =>
    cases hblocked : State.Blocked s.tasks task with
    | true =>
      refine .inl ⟨by simp [hblocked], ?_⟩
      simp [starts_of_takes (takes_of_blocked hblocked)]
    | false =>
      exact .inr ⟨task, rest, _, _, rfl, hblocked, s.executes cfg r task, by simp [hblocked], rfl⟩

/-- What holds whatever the threads do. -/
structure Sound (cfg : Config) (s : State) : Prop where
  shows : s.table.Shows s.table.rows
  fresh : Fresh s.table (s.tasks.flatMap Task.held ++ s.host.flatMap Task.held) s.nextFlow
  ready : ∀ task ∈ s.tasks, task.Ready cfg s.table
  waits : ∀ task ∈ s.tasks.tail, task.Waits = true
  spawns : ∀ task ∈ s.host, task.Spawns = true
  alone : s.host.length ≤ 1

theorem sound_init : Sound cfg .init where
  shows := ChildTable.shows_new
  fresh := ⟨List.nodup_nil, fun _ h => absurd h List.not_mem_nil⟩
  ready _ h := absurd h List.not_mem_nil
  waits _ h := absurd h List.not_mem_nil
  spawns _ h := absurd h List.not_mem_nil
  alone := Nat.zero_le _

theorem Sound.new_of_held {held : List FlowId} (h : Fresh table (task.held ++ held) s.nextFlow) :
    ∀ id ∈ task.held, id ∉ table.order := fun id hid hmem =>
  (List.nodup_append.mp h.nodup).2.2 id hmem id (List.mem_append_left _ hid) rfl

theorem Sound.drive (h : Sound cfg s) (htasks : s.tasks = task :: rest)
    (hexec : Executes cfg r s task s' tasks) : Sound cfg { s' with tasks := tasks ++ rest } := by
  obtain ⟨-, hhost, -⟩ := hexec.frame
  have hfresh := h.fresh
  rw [htasks, List.flatMap_cons, List.append_assoc] at hfresh
  have hwaits := h.waits
  rw [htasks, List.tail_cons] at hwaits
  have hready := h.ready task (htasks ▸ List.mem_cons_self)
  have hnew := new_of_held hfresh
  refine ⟨hexec.shows h.shows hnew, ?_, ?_, ?_, hhost ▸ h.spawns, hhost ▸ h.alone⟩
  · have hfresh' := hexec.fresh hfresh
    rw [← List.append_assoc, ← List.flatMap_append, ← hhost] at hfresh'
    exact hfresh'
  · intro task' htask'
    rcases List.mem_append.mp htask' with htask' | htask'
    · exact hexec.ready h.shows hready task' htask'
    · exact Task.ready_of_waits (hwaits task' htask')
  · intro task' htask'
    cases tasks with
    | nil => exact hwaits task' (List.mem_of_mem_tail htask')
    | cons first tasks =>
      rcases List.mem_append.mp htask' with htask' | htask'
      · exact hexec.waits task' htask'
      · exact hwaits task' htask'

theorem Sound.host (h : Sound cfg s) (hhost : s.host = task :: rest)
    (hexec : Executes cfg r s task s' tasks) : Sound cfg { s' with host := tasks ++ rest } := by
  obtain ⟨htasks, -, -⟩ := hexec.frame
  obtain rfl : rest = [] := by
    have halone := h.alone
    rw [hhost] at halone
    exact List.length_eq_zero_iff.mp (Nat.le_zero.mp (Nat.le_of_succ_le_succ halone))
  have hfresh := h.fresh.perm List.perm_append_comm
  rw [hhost, List.flatMap_cons, List.append_assoc] at hfresh
  have hnew := new_of_held hfresh
  have hstarted := hexec.started (h.spawns task (hhost ▸ List.mem_cons_self)) h.shows hnew
  rw [List.append_nil]
  refine ⟨hexec.shows h.shows hnew, ?_, ?_, htasks ▸ h.waits, hstarted.spawns, hstarted.alone⟩
  · have hfresh' := (hexec.fresh hfresh).perm List.perm_append_comm
    rw [List.flatMap_nil, List.nil_append, ← htasks] at hfresh'
    exact hfresh'
  · intro task' htask'
    exact (h.ready task' (htasks ▸ htask')).mono hstarted.order

theorem Sound.step (h : Sound cfg s) (i : Input) : Sound cfg (step cfg s i) := by
  cases i with
  | drive r =>
    rcases step_drive cfg s r with ⟨hsame, -⟩ | ⟨exit, events, htasks, -, hstep, -⟩ |
      ⟨task, rest, s', tasks, htasks, -, hexec, hstep, -⟩
    · rwa [hsame]
    · have hfresh := h.fresh
      rw [htasks] at hfresh
      rw [hstep]
      exact { h with
        fresh := hfresh
        ready := by simp [Task.Ready]
        waits := by simp }
    · rw [hstep]
      exact h.drive htasks hexec
  | host r =>
    rcases step_host cfg s r with ⟨hsame, -⟩ | ⟨task, rest, s', tasks, hhost, -, hexec, hstep, -⟩
    · rwa [hsame]
    · rw [hstep]
      exact h.host hhost hexec
  | start spec =>
    dsimp only [Supervisor.step]
    split_ifs with hhost
    · have hfresh := h.fresh
      rw [hhost] at hfresh
      exact { h with
        fresh := hfresh
        spawns := by simp [Task.Spawns]
        alone := by simp }
    · exact h
  | elsewhere =>
    have hold := fun id hid => (h.fresh.old id hid).trans (Nat.lt_succ_self _)
    exact { h with fresh := ⟨h.fresh.nodup, hold⟩ }
  | unregister id outcome | unname id | notify id =>
    dsimp only [Supervisor.step]
    split <;> exact { h with }

/-! ## The balance -/

/-- While no failure is refused, the children that were started have a live row, are owed by the
drive thread or the cascade that waits, or are retired. -/
def Balanced (s : State) (es : List Event) : Prop :=
  s.intensity.exceeded = false → ∀ x,
    s.table.live.count x + (s.tasks.flatMap Task.owed).count x + s.slot.count x +
      es.count (.retired x) = es.count (.started x)

theorem Executes.exceeded (h : Executes cfg r s task s' tasks)
    (hexceeded : s'.intensity.exceeded = false) : s.intensity.exceeded = false := by
  cases h with
  | refuses | restarts | cascades => exact (Intensity.allows_of_step hexceeded).1
  | _ => exact hexceeded

theorem count_started_retires (task : Task) (x : ChildSpec) :
    task.retires.count (.started x) = 0 := by
  unfold Task.retires
  split
  · split_ifs <;> simp
  · rfl

theorem count_retired_starts (task : Task) (x : ChildSpec) :
    task.starts.count (.retired x) = 0 := by
  unfold Task.starts
  split
  · simp
  · rfl

theorem Balanced.step {es : List Event} (hsound : Sound cfg s) (i : Input) (hi : Careful s i)
    (h : Balanced s es) : Balanced (step cfg s i) (es ++ emits s i) := by
  cases i with
  | drive r =>
    rcases step_drive cfg s r with ⟨hsame, hemits⟩ |
      ⟨exit, events, htasks, -, hstep, hemits⟩ |
      ⟨task, rest, s', tasks, htasks, hfree, hexec, hstep, hemits⟩
    · rwa [hsame, hemits, List.append_nil]
    · rw [hstep, hemits, List.append_nil]
      intro hexceeded x
      have hx := h hexceeded x
      rw [htasks] at hx
      exact hx
    · rw [hstep, hemits]
      intro hexceeded x
      have hx := h (hexec.exceeded hexceeded) x
      have hkeeps : s.Keeps r task = true := by
        refine (hi task (by rw [htasks]; rfl)).resolve_left ?_
        rw [hfree]
        exact Bool.false_ne_true
      have hfresh := hsound.fresh
      rw [htasks, List.flatMap_cons, List.append_assoc] at hfresh
      have haccounts := hexec.accounts hsound.shows (Sound.new_of_held hfresh)
        (hsound.ready task (htasks ▸ List.mem_cons_self)) hkeeps hexceeded x
      have hslot : State.slot { s' with tasks := tasks ++ rest } = s'.slot := rfl
      simp only [htasks, List.flatMap_append, List.flatMap_cons, List.count_append,
        count_started_retires, hslot] at hx ⊢
      omega
  | host r =>
    rcases step_host cfg s r with ⟨hsame, hemits⟩ |
      ⟨task, rest, s', tasks, hhost, -, hexec, hstep, hemits⟩
    · rwa [hsame, hemits, List.append_nil]
    · rw [hstep, hemits]
      have hfresh := hsound.fresh.perm List.perm_append_comm
      rw [hhost, List.flatMap_cons, List.append_assoc] at hfresh
      have hstarted := hexec.started (hsound.spawns task (hhost ▸ List.mem_cons_self))
        hsound.shows (Sound.new_of_held hfresh)
      intro hexceeded x
      have hx := h (hstarted.intensity ▸ hexceeded) x
      have hlive := hstarted.live x
      have hslot : State.slot { s' with host := tasks ++ rest } = s.slot := hstarted.slot
      rw [hslot]
      simp only [List.count_append, count_retired_starts, hexec.frame.1] at hx ⊢
      omega
  | start spec =>
    rw [show emits s (.start spec) = [] from rfl, List.append_nil]
    dsimp only [Supervisor.step]
    split_ifs <;> exact h
  | elsewhere =>
    rw [show emits s .elsewhere = [] from rfl, List.append_nil]
    exact h
  | unregister id outcome =>
    rw [show emits s (.unregister id outcome) = [] from rfl, List.append_nil]
    dsimp only [Supervisor.step]
    split_ifs <;> exact h
  | unname id =>
    rw [show emits s (.unname id) = [] from rfl, List.append_nil]
    dsimp only [Supervisor.step]
    split <;> exact h
  | notify id =>
    rw [show emits s (.notify id) = [] from rfl, List.append_nil]
    dsimp only [Supervisor.step]
    split <;> exact h

/-! ## The exits -/

/-- The exit that the drive thread takes up. -/
def Task.handles : Task → List FlowId
  | handle exit => [exit.id]
  | _ => []

/-- An exit that was notified and whose flow has a row, or gets one, is still to be handled. -/
def Told (s : State) : Prop :=
  ∀ id, s.stage id = .notified →
    id ∈ s.table.order ++ (s.tasks.flatMap Task.held ++ s.host.flatMap Task.held) →
      id ∈ s.events.map (·.id) ∨ id ∈ s.tasks.flatMap Task.handles

/-- A flow that gets a row or is held now was so before, or is new. -/
theorem Executes.held (h : Executes cfg r s task s' tasks) (hid : s'.stage id = .notified)
    (hmem : id ∈ s'.table.order ++ (tasks.flatMap Task.held ++ others)) :
    s.stage id = .notified ∧ id ∈ s.table.order ++ (task.held ++ others) := by
  cases h with
  | torn | fails =>
    refine ⟨hid, ?_⟩
    rcases List.mem_append.mp hmem with hmem | hmem
    · exact List.mem_append_left _ (List.mem_of_mem_filter hmem)
    · exact List.mem_append_right _ hmem
  | marks failed failedIdx later =>
    rw [order_expectAll] at hmem
    exact ⟨hid, hmem⟩
  | fills later specs =>
    have hkills : (later.map Task.kill).flatMap Task.held = [] := by
      simp [List.flatMap_map, Task.held]
    rw [List.flatMap_append, hkills] at hmem
    exact ⟨hid, hmem⟩
  | spawns _ htasks =>
    dsimp only at hid
    have hne : id ≠ s.nextFlow := by
      rintro rfl
      rw [Function.update_self] at hid
      cases hid
    rw [Function.update_of_ne hne] at hid
    refine ⟨hid, ?_⟩
    rcases htasks with rfl | rfl <;> simpa [Task.held, hne] using hmem
  | taken =>
    refine ⟨hid, ?_⟩
    rcases List.mem_append.mp hmem with hmem | hmem
    · exact List.mem_append_left _ hmem
    · exact List.mem_append_right _ (List.mem_append_right _ hmem)
  | adds id' spec =>
    refine ⟨hid, ?_⟩
    simpa [ChildTable.insert, Task.held] using hmem
  | progresses _ htasks | settles htasks =>
    rcases htasks with rfl | rfl <;> exact ⟨hid, hmem⟩
  | _ => exact ⟨hid, hmem⟩

theorem flatMap_of_waits {tasks : List Task} (h : ∀ task ∈ tasks, task.Waits = true) :
    tasks.flatMap Task.held = [] ∧ tasks.flatMap Task.handles = [] := by
  have hnone : ∀ task : Task, task.Waits = true → task.held = [] ∧ task.handles = [] := by
    intro task htask
    cases task <;> first | exact ⟨rfl, rfl⟩ | cases htask
  exact ⟨List.flatMap_eq_nil_iff.mpr fun task htask => (hnone task (h task htask)).1,
    List.flatMap_eq_nil_iff.mpr fun task htask => (hnone task (h task htask)).2⟩

/-- A child whose exit is handled has no row. -/
theorem Executes.handled {exit : ChildExit} (h : Executes cfg r s (.handle exit) s' tasks)
    (hshows : s.table.Shows s.table.rows) :
    exit.id ∉ s'.table.order ∧ tasks.flatMap Task.held = [] := by
  cases h with
  | unknown hnone =>
    refine ⟨fun hmem => ?_, rfl⟩
    rw [hshows.order] at hmem
    obtain ⟨row, hrow, hid⟩ := List.mem_map.mp hmem
    cases (hshows.found row hrow).symm.trans (hid ▸ hnone)
  | torn | fails => exact ⟨fun hmem => of_decide_eq_true (List.mem_filter.mp hmem).2 rfl, rfl⟩

/-- The table is not held by an embedder when the drive thread takes it. -/
theorem Sound.held_of_free (h : Sound cfg s) (htask : task.Takes = true)
    (hfree : State.Blocked s.host task = false) : s.host.flatMap Task.held = [] := by
  have halone := h.alone
  unfold State.Blocked at hfree
  rw [htask, Bool.true_and] at hfree
  match hhost : s.host with
  | [] => rfl
  | [first] =>
    rw [hhost] at hfree
    cases first with
    | name | row => cases hfree
    | _ => rfl
  | _ :: _ :: _ =>
    rw [hhost] at halone
    exact absurd halone (by simp)

theorem Told.drive (hsound : Sound cfg s) (h : Told s) (htasks : s.tasks = task :: rest)
    (hfree : State.Blocked s.host task = false) (hexec : Executes cfg r s task s' tasks) :
    Told { s' with tasks := tasks ++ rest } := by
  obtain ⟨-, hhost, hevents⟩ := hexec.frame
  have hwaits := hsound.waits
  rw [htasks, List.tail_cons] at hwaits
  obtain ⟨hheld, hhandles⟩ := flatMap_of_waits hwaits
  intro id hid hmem
  dsimp only at hid hmem ⊢
  rw [List.flatMap_append, hheld, List.append_nil, hhost] at hmem
  obtain ⟨hid', hmem'⟩ := hexec.held hid hmem
  have htold := h id hid' (by rwa [htasks, List.flatMap_cons, hheld, List.append_nil])
  rw [htasks, List.flatMap_cons, hhandles, List.append_nil] at htold
  rcases htold with hevent | hhandle
  · exact .inl (hevents ▸ hevent)
  · cases task with
    | handle exit =>
      obtain rfl := List.mem_singleton.mp hhandle
      obtain ⟨horder, hnone⟩ := hexec.handled hsound.shows
      rw [hnone, hsound.held_of_free rfl hfree, List.append_nil, List.append_nil] at hmem
      exact absurd hmem horder
    | _ => cases hhandle

theorem Told.host (h : Told s) (hhost : s.host = task :: rest)
    (hexec : Executes cfg r s task s' tasks) : Told { s' with host := tasks ++ rest } := by
  obtain ⟨htasks, -, hevents⟩ := hexec.frame
  intro id hid hmem
  dsimp only at hid hmem ⊢
  have hcomm {held held' : List FlowId} (order : List FlowId) :
      id ∈ order ++ (held ++ held') ↔ id ∈ order ++ (held' ++ held) :=
    (List.perm_append_comm.append_left order).mem_iff
  rw [htasks, hcomm, List.flatMap_append, List.append_assoc] at hmem
  obtain ⟨hid', hmem'⟩ := hexec.held hid hmem
  rw [htasks, hevents]
  refine h id hid' ?_
  rwa [hcomm, hhost, List.flatMap_cons, List.append_assoc]

/-- A stage other than the last one. -/
theorem Told.update {stage : Stage} (h : Told s) (hstage : stage ≠ .notified) (id : FlowId) :
    Told { s with stage := Function.update s.stage id stage } := by
  intro id' hid' hmem
  dsimp only at hid'
  have hne : id' ≠ id := by
    rintro rfl
    exact hstage ((Function.update_self ..).symm.trans hid')
  exact h id' ((Function.update_of_ne hne ..).symm.trans hid') hmem

theorem Told.notify (h : Told s) (id : FlowId) (outcome : FlowOutcome) :
    Told { s with
      stage := Function.update s.stage id .notified, events := s.events ++ [⟨id, outcome⟩] } := by
  intro id' hid' hmem
  dsimp only at hid' ⊢
  rw [List.map_append, List.mem_append]
  rcases eq_or_ne id' id with rfl | hne
  · exact .inl (.inr List.mem_cons_self)
  · exact (h id' ((Function.update_of_ne hne ..).symm.trans hid') hmem).imp_left .inl

theorem Told.step (hsound : Sound cfg s) (h : Told s) (i : Input) : Told (step cfg s i) := by
  cases i with
  | drive r =>
    rcases step_drive cfg s r with ⟨hsame, -⟩ | ⟨exit, events, htasks, hevents, hstep, -⟩ |
      ⟨task, rest, s', tasks, htasks, hfree, hexec, hstep, -⟩
    · rwa [hsame]
    · rw [hstep]
      intro id hid hmem
      have htold := h id hid (by rwa [htasks])
      rw [htasks, hevents] at htold
      rcases htold with hevent | hhandle
      · rcases List.mem_cons.mp hevent with rfl | hevent
        · exact .inr List.mem_cons_self
        · exact .inl hevent
      · cases hhandle
    · rw [hstep]
      exact h.drive hsound htasks hfree hexec
  | host r =>
    rcases step_host cfg s r with ⟨hsame, -⟩ | ⟨task, rest, s', tasks, hhost, -, hexec, hstep, -⟩
    · rwa [hsame]
    · rw [hstep]
      exact h.host hhost hexec
  | start spec =>
    dsimp only [Supervisor.step]
    split_ifs with hhost
    · intro id hid hmem
      exact h id hid (by rwa [hhost])
    · exact h
  | elsewhere => exact h
  | unregister id outcome =>
    dsimp only [Supervisor.step]
    split_ifs
    · exact h.update (by simp) id
    · exact h
  | unname id =>
    dsimp only [Supervisor.step]
    split
    · exact h.update (by simp) id
    · exact h
  | notify id =>
    dsimp only [Supervisor.step]
    split
    · exact h.notify id _
    · exact h

/-! ## The runs -/

/-- The accounts after a run of a careful drive thread. -/
structure Accounts (cfg : Config) (s : State) (es : List Event) : Prop where
  sound : Sound cfg s
  told : Told s
  balanced : Balanced s es

theorem told_init : Told .init := by
  intro id hid
  cases hid

theorem accounts_init : Accounts cfg .init [] := ⟨sound_init, told_init, fun _ _ => rfl⟩

theorem Accounts.step {es : List Event} (h : Accounts cfg s es) (i : Input) (hi : Careful s i) :
    Accounts cfg (step cfg s i) (es ++ emits s i) :=
  ⟨h.sound.step i, h.told.step h.sound i, h.balanced.step h.sound i hi⟩

theorem accounts_run {is : List Input}
    (his : Schedule.Guarded (step cfg) Careful .init is) :
    Accounts cfg (run cfg .init is) (events cfg .init is) :=
  his.trace_invariant (I := Accounts cfg) (fun _ i _ hi h => h.step i hi) accounts_init

/-- **No child is lost.** When a drive thread that was careful rests, no cascade waits, and no
failure was refused, each spec has as many live rows as children were started with it and did not
retire; and when all exits are handled, no row is that of a flow whose exit was notified. -/
theorem no_child_lost {is : List Input} (his : Schedule.Guarded (step cfg) Careful .init is)
    (hexceeded : (run cfg .init is).intensity.exceeded = false)
    (htasks : (run cfg .init is).tasks = []) (hcascade : (run cfg .init is).cascade = none) :
    (∀ spec, (run cfg .init is).table.live.count spec +
        (events cfg .init is).count (.retired spec) =
      (events cfg .init is).count (.started spec)) ∧
    ((run cfg .init is).events = [] → ∀ id ∈ (run cfg .init is).table.order,
      (run cfg .init is).stage id ≠ .notified) := by
  obtain ⟨-, htold, hbalanced⟩ := accounts_run his
  refine ⟨fun spec => ?_, fun hevents id hid hstage => ?_⟩
  · have hspec := hbalanced hexceeded spec
    rw [State.slot, htasks, hcascade] at hspec
    exact hspec
  · have hexit := htold id hstage (List.mem_append_left _ hid)
    rw [hevents, htasks] at hexit
    simp at hexit

def restForOne : Config := ⟨3, 5000000000, .restForOne⟩

/-- The store fails, the server is killed, and both are started again. -/
def calm : List Input :=
  started log ++ started store ++ started server ++ exits 2 ++ List.replicate 9 (.drive reading) ++
    exits 3 ++ List.replicate 20 (.drive reading)

theorem no_child_lost_calm :
    (∀ spec, (run restForOne .init calm).table.live.count spec +
        (events restForOne .init calm).count (.retired spec) =
      (events restForOne .init calm).count (.started spec)) ∧
    ((run restForOne .init calm).events = [] → ∀ id ∈ (run restForOne .init calm).table.order,
      (run restForOne .init calm).stage id ≠ .notified) :=
  no_child_lost (by decide) (by decide) (by decide) (by decide)

/-- The store fails, and while the server is killed the log fails. -/
def overlapping : List Input :=
  started log ++ started store ++ started server ++ exits 2 ++ List.replicate 9 (.drive reading) ++
    exits 1 ++ List.replicate 9 (.drive reading) ++ exits 3 ++ List.replicate 20 (.drive reading)

/-- The second cascade overwrites the first one in its slot: the store is not started again. -/
theorem store_lost :
    (run restForOne .init overlapping).intensity.exceeded = false ∧
      (run restForOne .init overlapping).tasks = [] ∧
        (run restForOne .init overlapping).events = [] ∧
          (run restForOne .init overlapping).cascade = none ∧
            (run restForOne .init overlapping).table.live = [log, server] ∧
              (events restForOne .init overlapping).count (.started store) = 1 ∧
                (events restForOne .init overlapping).count (.retired store) = 0 := by
  decide

end Supervisor

end Byteflow
