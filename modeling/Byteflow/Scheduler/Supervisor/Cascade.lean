import Byteflow.Scheduler.Supervisor.Drive

/-!
# A cascade

From the exit of a child that starts a cascade to the end of it, the drive thread goes through a few
phases (`Phase`), whatever order the kills complete in. While no other child starts or exits on its
own and all respawns succeed, the rows that are not being torn down are, when the cascade has
finished, those of the original children in the original order, with new incarnations for those that
it restarts; and so is the whole table when the exits of all that it tore down are handled
(`cascade_restores`).
-/

namespace Byteflow

namespace Supervisor

/-- The children when one of them fails: those started before it, and those started after it. -/
structure Scene where
  cfg : Config
  earlier : List (FlowId × ChildSpec)
  failed : FlowId × ChildSpec
  afterwards : List (FlowId × ChildSpec)
  outcome : FlowOutcome
  /-- The next flow identity. -/
  start : FlowId

/-- A row that is not torn down. -/
def liveRow (kid : FlowId × ChildSpec) : FlowId × LiveChild := (kid.1, ⟨kid.2, false⟩)

/-- A row that is torn down. -/
def tornRow (kid : FlowId × ChildSpec) : FlowId × LiveChild := (kid.1, ⟨kid.2, true⟩)

namespace Scene

variable (sc : Scene)

def kids : List (FlowId × ChildSpec) := sc.earlier ++ sc.failed :: sc.afterwards

def siblings : List (FlowId × ChildSpec) := sc.earlier ++ sc.afterwards

/-- The children that the cascade leaves alone. -/
def untouched : List (FlowId × ChildSpec) :=
  match sc.cfg.strategy with
  | .restForOne => sc.earlier
  | _ => []

/-- The children that it tears down. -/
def tornKids : List (FlowId × ChildSpec) :=
  match sc.cfg.strategy with
  | .oneForAll => sc.siblings
  | .restForOne => sc.afterwards
  | .oneForOne => []

def torn : List FlowId := sc.tornKids.map Prod.fst

/-- The specs that it starts again. -/
def again : List ChildSpec := (sc.kids.drop sc.untouched.length).map Prod.snd

/-- The rows when the exits of `gone` are handled, and `added` was started. -/
def rowsAt (gone : List FlowId) (added : List (FlowId × ChildSpec)) : List (FlowId × LiveChild) :=
  sc.untouched.map liveRow ++ (sc.tornKids.filter fun kid => kid.1 ∉ gone).map tornRow ++
    added.map liveRow

/-- The failure starts a cascade. -/
structure Cascades : Prop where
  strategy : sc.cfg.strategy ≠ .oneForOne
  restart : shouldRestart sc.failed.2.restart sc.outcome = true
  nodup : (sc.kids.map Prod.fst).Nodup
  old : ∀ kid ∈ sc.kids, kid.1 < sc.start

/-- The rows of the original children in the original order: those that were left alone, and new
incarnations of the others. -/
structure Restored (rows : List (FlowId × LiveChild)) : Prop where
  specs : rows.map (fun row => row.2.spec) = sc.kids.map Prod.snd
  untouched : rows.take sc.untouched.length = sc.untouched.map liveRow
  fresh : ∀ row ∈ rows.drop sc.untouched.length, sc.start ≤ row.1
  nodup : (rows.map Prod.fst).Nodup
  live : ∀ row ∈ rows, row.2.expectedShutdown = false

/-- What is known of the rows that were added. -/
structure Added (next : FlowId) (added : List (FlowId × ChildSpec)) : Prop where
  fresh : ∀ kid ∈ added, sc.start ≤ kid.1 ∧ kid.1 < next

end Scene

/-- Where the drive thread is: its tasks, the slot of the cascade, the table and the next flow
identity. -/
inductive Phase (sc : Scene) : List Task → Option Cascade → ChildTable → FlowId → Prop
  | begun {table : ChildTable} {next : FlowId} (h : table.Shows (sc.kids.map liveRow)) :
      Phase sc [.handle ⟨sc.failed.1, sc.outcome⟩] none table next
  | judging {table : ChildTable} {next : FlowId} (h : table.Shows (sc.siblings.map liveRow)) :
      Phase sc [.judge sc.failed.2 sc.outcome (some sc.earlier.length) sc.torn] none table next
  | marking {table : ChildTable} {next : FlowId} (h : table.Shows (sc.siblings.map liveRow)) :
      Phase sc [.mark sc.failed.2 (some sc.earlier.length) sc.torn] none table next
  | filling {table : ChildTable} {next : FlowId} (h : table.Shows (sc.rowsAt [] [])) :
      Phase sc [.fill sc.torn sc.again] none table next
  | killing {table : ChildTable} {next : FlowId} (h : table.Shows (sc.rowsAt [] []))
      (ids : List FlowId) :
      Phase sc (ids.map .kill ++ [.prune sc.torn, .settle (sc.torn = [])])
        (some ⟨sc.torn, sc.again⟩) table next
  | pruning {table : ChildTable} {next : FlowId} (h : table.Shows (sc.rowsAt [] []))
      (ids : List FlowId) {waiting : List FlowId} (hwaiting : waiting ⊆ sc.torn) :
      Phase sc [.prune ids, .settle (sc.torn = [])] (some ⟨waiting, sc.again⟩) table next
  | settling {table : ChildTable} {next : FlowId} (h : table.Shows (sc.rowsAt [] []))
      {waiting : List FlowId} (hwaiting : waiting ⊆ sc.torn) :
      Phase sc [.settle (sc.torn = [])] (some ⟨waiting, sc.again⟩) table next
  | waiting {table : ChildTable} {next : FlowId} {gone waiting : List FlowId}
      (h : table.Shows (sc.rowsAt gone [])) (hsome : waiting ≠ [])
      (hwaiting : ∀ id ∈ waiting, id ∈ sc.torn ∧ id ∉ gone) :
      Phase sc [] (some ⟨waiting, sc.again⟩) table next
  | arriving {table : ChildTable} {next : FlowId} {gone waiting : List FlowId}
      (h : table.Shows (sc.rowsAt gone [])) (hsome : waiting ≠ [])
      (hwaiting : ∀ id ∈ waiting, id ∈ sc.torn ∧ id ∉ gone) {exit : ChildExit}
      (hexit : exit.id ∈ sc.torn) :
      Phase sc [.handle exit] (some ⟨waiting, sc.again⟩) table next
  | progressing {table : ChildTable} {next : FlowId} {gone waiting : List FlowId} {id : FlowId}
      (h : table.Shows (sc.rowsAt (id :: gone) []))
      (hwaiting : ∀ id ∈ waiting, id ∈ sc.torn ∧ id ∉ gone) :
      Phase sc [.progress id] (some ⟨waiting, sc.again⟩) table next
  | finishing {table : ChildTable} {next : FlowId} {gone waiting : List FlowId}
      (h : table.Shows (sc.rowsAt gone [])) :
      Phase sc [.finish] (some ⟨waiting, sc.again⟩) table next
  | respawning {table : ChildTable} {next : FlowId} {gone : List FlowId}
      {added : List (FlowId × ChildSpec)} (h : table.Shows (sc.rowsAt gone added))
      (hadded : sc.Added next added) {specs : List ChildSpec}
      (hspecs : added.map Prod.snd ++ specs = sc.again) :
      Phase sc [.respawn specs] none table next
  | spawning {table : ChildTable} {next : FlowId} {gone : List FlowId}
      {added : List (FlowId × ChildSpec)} (h : table.Shows (sc.rowsAt gone added))
      (hadded : sc.Added next added) {spec : ChildSpec} {specs : List ChildSpec}
      (hspecs : added.map Prod.snd ++ spec :: specs = sc.again) :
      Phase sc [.spawn spec, .respawn specs] none table next
  | naming {table : ChildTable} {next : FlowId} {gone : List FlowId}
      {added : List (FlowId × ChildSpec)} (h : table.Shows (sc.rowsAt gone added))
      (hadded : sc.Added next added) {id : FlowId} {spec : ChildSpec} {specs : List ChildSpec}
      (hid : sc.start ≤ id ∧ id < next) (hnew : id ∉ added.map Prod.fst)
      (hspecs : added.map Prod.snd ++ spec :: specs = sc.again) :
      Phase sc [.name id spec, .respawn specs] none table next
  | adding {table : ChildTable} {next : FlowId} {gone : List FlowId}
      {added : List (FlowId × ChildSpec)} (h : table.Shows (sc.rowsAt gone added))
      (hadded : sc.Added next added) {id : FlowId} {spec : ChildSpec} {specs : List ChildSpec}
      (hid : sc.start ≤ id ∧ id < next) (hnew : id ∉ added.map Prod.fst)
      (hspecs : added.map Prod.snd ++ spec :: specs = sc.again) :
      Phase sc [.row id spec, .respawn specs] none table next
  | done {table : ChildTable} {next : FlowId} {gone : List FlowId}
      {added : List (FlowId × ChildSpec)} (h : table.Shows (sc.rowsAt gone added))
      (hadded : sc.Added next added) (hspecs : added.map Prod.snd = sc.again) {tasks : List Task}
      (htasks : tasks = [] ∨ (∃ exit : ChildExit, exit.id ∈ sc.torn ∧ tasks = [.handle exit]) ∨
        ∃ id, tasks = [.progress id]) :
      Phase sc tasks none table next

variable {sc : Scene} {s : State} {table : ChildTable} {next : FlowId} {gone : List FlowId}
  {added : List (FlowId × ChildSpec)}

namespace Scene

/-! ## The rows -/

theorem Cascades.siblings_eq (h : sc.Cascades) : sc.siblings = sc.untouched ++ sc.tornKids := by
  unfold untouched tornKids siblings
  cases hstrategy : sc.cfg.strategy with
  | oneForOne => exact absurd hstrategy h.strategy
  | oneForAll | restForOne => rfl

theorem siblings_sublist : sc.siblings.Sublist sc.kids :=
  (List.sublist_cons_self sc.failed sc.afterwards).append_left sc.earlier

theorem Cascades.lt_of_torn (h : sc.Cascades) {id : FlowId} (hid : id ∈ sc.torn) :
    id < sc.start := by
  obtain ⟨kid, hkid, rfl⟩ := List.mem_map.mp hid
  have hsibling : kid ∈ sc.siblings := h.siblings_eq ▸ List.mem_append_right _ hkid
  exact h.old kid (siblings_sublist.subset hsibling)

theorem mem_rowsAt {row : FlowId × LiveChild} :
    row ∈ sc.rowsAt gone added ↔
      (∃ kid ∈ sc.untouched, liveRow kid = row) ∨
        (∃ kid ∈ sc.tornKids, kid.1 ∉ gone ∧ tornRow kid = row) ∨
          ∃ kid ∈ added, liveRow kid = row := by
  simp [rowsAt, and_assoc]

/-- An old row is that of a sibling, and a new one was added. -/
theorem Cascades.mem_ids_rowsAt (h : sc.Cascades) {id : FlowId}
    (hid : id ∈ (sc.rowsAt gone added).map Prod.fst) :
    id ∈ sc.siblings.map Prod.fst ∨ id ∈ added.map Prod.fst := by
  obtain ⟨row, hrow, rfl⟩ := List.mem_map.mp hid
  rw [h.siblings_eq]
  rcases mem_rowsAt.mp hrow with ⟨kid, hkid, rfl⟩ | ⟨kid, hkid, -, rfl⟩ | ⟨kid, hkid, rfl⟩
  · exact .inl (List.mem_map_of_mem (f := Prod.fst) (List.mem_append_left _ hkid))
  · exact .inl (List.mem_map_of_mem (f := Prod.fst) (List.mem_append_right _ hkid))
  · exact .inr (List.mem_map_of_mem (f := Prod.fst) hkid)

theorem Cascades.nodup_split (h : sc.Cascades) :
    sc.failed.1 ∉ sc.siblings.map Prod.fst ∧ (sc.siblings.map Prod.fst).Nodup := by
  have hnodup := h.nodup
  have hperm : sc.kids.Perm (sc.failed :: sc.siblings) := List.perm_middle
  rw [(hperm.map Prod.fst).nodup_iff, List.map_cons, List.nodup_cons] at hnodup
  exact hnodup

/-- A child that the cascade leaves alone is not torn down. -/
theorem Cascades.notMem_torn (h : sc.Cascades) {kid : FlowId × ChildSpec}
    (hkid : kid ∈ sc.untouched) : kid.1 ∉ sc.torn := by
  have hnodup := h.nodup_split.2
  rw [h.siblings_eq, List.map_append] at hnodup
  exact fun hid => (List.nodup_append.mp hnodup).2.2 _ (List.mem_map_of_mem hkid) _ hid rfl

/-- A child that the cascade tears down has a row that says so, or none. -/
theorem Cascades.byId_of_torn (h : sc.Cascades) (hadded : sc.Added next added)
    (hshows : table.Shows (sc.rowsAt gone added)) {id : FlowId} (hid : id ∈ sc.torn) :
    table.byId id = none ∨ ∃ spec, table.byId id = some ⟨spec, true⟩ := by
  by_cases hmem : id ∈ (sc.rowsAt gone added).map Prod.fst
  · obtain ⟨row, hrow, rfl⟩ := List.mem_map.mp hmem
    have hfound := hshows.found row hrow
    rcases mem_rowsAt.mp hrow with ⟨kid, hkid, rfl⟩ | ⟨kid, -, -, rfl⟩ | ⟨kid, hkid, rfl⟩
    · exact absurd hid (h.notMem_torn hkid)
    · exact .inr ⟨kid.2, hfound⟩
    · exact absurd (h.lt_of_torn hid) (Nat.not_lt.mpr (hadded.fresh kid hkid).1)
  · exact .inl (hshows.missing id hmem)

/-- A row that is not torn down stays when the row of a child that is torn down goes. -/
theorem filter_liveRow {kids : List (FlowId × ChildSpec)} {id : FlowId}
    (h : id ∉ kids.map Prod.fst) :
    (kids.map liveRow).filter (fun row => row.1 ≠ id) = kids.map liveRow := by
  refine List.filter_eq_self.mpr fun row hrow => decide_eq_true ?_
  obtain ⟨kid, hkid, rfl⟩ := List.mem_map.mp hrow
  exact fun heq => h (heq ▸ List.mem_map_of_mem hkid)

theorem Added.notMem_of_lt (h : sc.Added next added) {id : FlowId} (hid : id < sc.start) :
    id ∉ added.map Prod.fst := by
  intro hmem
  obtain ⟨kid, hkid, rfl⟩ := List.mem_map.mp hmem
  exact absurd hid (Nat.not_lt.mpr (h.fresh kid hkid).1)

theorem Cascades.rowsAt_cons (h : sc.Cascades) (hadded : sc.Added next added) {id : FlowId}
    (hid : id ∈ sc.torn) :
    (sc.rowsAt gone added).filter (fun row => row.1 ≠ id) = sc.rowsAt (id :: gone) added := by
  have hold : id ∉ sc.untouched.map Prod.fst := by
    intro hmem
    obtain ⟨kid, hkid, rfl⟩ := List.mem_map.mp hmem
    exact h.notMem_torn hkid hid
  have htorn : ((sc.tornKids.filter fun kid => kid.1 ∉ gone).map tornRow).filter
      (fun row => row.1 ≠ id) = (sc.tornKids.filter fun kid => kid.1 ∉ id :: gone).map tornRow := by
    rw [List.filter_map, List.filter_filter]
    refine congrArg _ (List.filter_congr fun kid _ => Bool.eq_iff_iff.mpr ?_)
    simp only [Function.comp_apply, Bool.and_eq_true, decide_eq_true_iff, List.mem_cons, not_or]
    rfl
  unfold rowsAt
  rw [List.filter_append, List.filter_append, htorn, filter_liveRow hold,
    filter_liveRow (hadded.notMem_of_lt (h.lt_of_torn hid))]

theorem rowsAt_concat (gone : List FlowId) (added : List (FlowId × ChildSpec)) (id : FlowId)
    (spec : ChildSpec) :
    sc.rowsAt gone added ++ [(id, ⟨spec, false⟩)] = sc.rowsAt gone (added ++ [(id, spec)]) := by
  simp [rowsAt, liveRow]

/-- The rows when the cascade has marked those that it tears down. -/
theorem Cascades.rowsAt_nil (h : sc.Cascades) :
    (sc.siblings.map liveRow).map (expectRow sc.torn) = sc.rowsAt [] [] := by
  have huntouched : ∀ kid ∈ sc.untouched, (expectRow sc.torn ∘ liveRow) kid = liveRow kid :=
    fun kid hkid => if_neg (h.notMem_torn hkid)
  have htorn : ∀ kid ∈ sc.tornKids, (expectRow sc.torn ∘ liveRow) kid = tornRow kid :=
    fun kid hkid => if_pos (List.mem_map_of_mem (f := Prod.fst) hkid)
  rw [h.siblings_eq, List.map_map, List.map_append, List.map_congr_left huntouched,
    List.map_congr_left htorn]
  simp [rowsAt]

theorem Cascades.notMem_rowsAt (h : sc.Cascades) {id : FlowId} (hid : sc.start ≤ id)
    (hnew : id ∉ added.map Prod.fst) : id ∉ (sc.rowsAt gone added).map Prod.fst := by
  intro hmem
  rcases h.mem_ids_rowsAt hmem with hold | hadded
  · obtain ⟨kid, hkid, rfl⟩ := List.mem_map.mp hold
    exact absurd (h.old kid (siblings_sublist.subset hkid)) (Nat.not_lt.mpr hid)
  · exact hnew hadded

/-! ## The start of the cascade -/

theorem Cascades.filter_failed (h : sc.Cascades) :
    (sc.kids.map liveRow).filter (fun row => row.1 ≠ sc.failed.1) = sc.siblings.map liveRow := by
  have hsplit := h.nodup_split.1
  rw [siblings, List.map_append, List.mem_append, not_or] at hsplit
  unfold kids siblings
  rw [List.map_append, List.map_cons, List.filter_append,
    List.filter_cons_of_neg (by simp [liveRow]), filter_liveRow hsplit.1, filter_liveRow hsplit.2,
    List.map_append]

theorem Cascades.idxOf_failed (h : sc.Cascades) :
    (sc.kids.map Prod.fst).idxOf? sc.failed.1 = some sc.earlier.length := by
  have hearlier : sc.failed.1 ∉ sc.earlier.map Prod.fst := fun hmem =>
    h.nodup_split.1 (((List.sublist_append_left sc.earlier sc.afterwards).map Prod.fst).subset hmem)
  rw [List.idxOf?_eq_some_iff]
  refine ⟨by simp [kids], by simp [kids], fun j hj heq => hearlier ?_⟩
  rw [← heq]
  simp only [kids, List.getElem_map, List.getElem_append_left hj]
  exact List.mem_map_of_mem (List.getElem_mem hj)

/-- The siblings that are torn down are taken from the table without the failed child. -/
theorem Cascades.later_eq (h : sc.Cascades) (hshows : table.Shows (sc.siblings.map liveRow)) :
    State.later sc.cfg table (some sc.earlier.length) = sc.torn := by
  have horder : table.order = sc.siblings.map Prod.fst := by
    rw [hshows.order, List.map_map]
    rfl
  unfold State.later torn tornKids
  cases hstrategy : sc.cfg.strategy with
  | oneForOne => exact absurd hstrategy h.strategy
  | oneForAll => exact horder
  | restForOne =>
    simp only [horder, siblings, List.map_append]
    exact List.drop_left' (List.length_map ..)

/-- The specs of the siblings that are torn down. -/
theorem Cascades.laterSpecs_eq (h : sc.Cascades)
    (hshows : table.Shows (sc.siblings.map liveRow)) :
    (sc.torn.filterMap fun id => (table.byId id).map (·.spec)) = sc.tornKids.map Prod.snd := by
  have hfound : ∀ kid ∈ sc.tornKids, (table.byId kid.1).map (·.spec) = some kid.2 := by
    intro kid hkid
    have hsibling : kid ∈ sc.siblings := h.siblings_eq ▸ List.mem_append_right _ hkid
    exact congrArg (Option.map (·.spec))
      (hshows.found (liveRow kid) (List.mem_map_of_mem hsibling))
  rw [torn, List.filterMap_map]
  exact (List.filterMap_congr hfound).trans (congrFun List.filterMap_eq_map _)

theorem insertIdx_append {α : Type} (as bs : List α) (a : α) :
    (as ++ bs).insertIdx as.length a = as ++ a :: bs := by
  induction as with
  | nil => rfl
  | cons b as ih => exact congrArg (b :: ·) ih

/-- They are started again in the order of the children, the failed one among them. -/
theorem Cascades.cascadeSpecs_eq (h : sc.Cascades) :
    State.cascadeSpecs sc.cfg sc.failed.2 (some sc.earlier.length) (sc.tornKids.map Prod.snd) =
      sc.again := by
  unfold State.cascadeSpecs again untouched tornKids
  cases hstrategy : sc.cfg.strategy with
  | oneForOne => exact absurd hstrategy h.strategy
  | oneForAll =>
    have hlength : sc.earlier.length = (sc.earlier.map Prod.snd).length := by simp
    simp only [Option.getD_some, List.length_nil, List.drop_zero, siblings, kids, List.map_append,
      List.map_cons]
    rw [hlength, insertIdx_append]
  | restForOne => simp [kids]

end Scene

/-! ## The steps -/

/-- What the other threads leave to the drive thread. -/
structure Env (sc : Scene) (s : State) : Prop where
  host : s.host = []
  exceeded : s.intensity.exceeded = false
  events : ∀ exit ∈ s.events, exit.id ∈ sc.torn
  unregistered : ∀ id outcome, s.stage id = .unregistered outcome → id ∈ sc.torn
  unnamed : ∀ id outcome, s.stage id = .unnamed outcome → id ∈ sc.torn
  next : sc.start ≤ s.nextFlow

namespace Scene

variable (sc)

/-- The failure is restarted, and a respawn succeeds. -/
def Succeeds (s : State) (r : Reading) : Task → Bool
  | .judge .. => (s.intensity.allows sc.cfg r.now).1
  | .spawn _ => r.spawns
  | .name _ spec => (s.registry spec.name).isNone
  | _ => true

/-- No other child starts or exits on its own, and the drive thread's restarts succeed. -/
def Undisturbed (s : State) : Input → Prop
  | .start _ => False
  | .unregister id _ => id ∈ sc.torn
  | .drive r => ∀ task ∈ s.tasks.head?, sc.Succeeds s r task = true
  | _ => True

instance Undisturbed.decidable (s : State) : (i : Input) → Decidable (sc.Undisturbed s i)
  | .start _ => inferInstanceAs (Decidable False)
  | .unregister _ _ => inferInstanceAs (Decidable (_ ∈ _))
  | .drive _ => inferInstanceAs (Decidable (∀ task ∈ s.tasks.head?, _ = true))
  | .host _ | .unname _ | .notify _ | .elsewhere => inferInstanceAs (Decidable True)

end Scene

variable {cfg : Config} {r : Reading} {s' : State} {task : Task} {tasks rest : List Task}

theorem Intensity.exceeded_of_allows {s : Intensity} {now : ℕ} (h : s.exceeded = false)
    (hallows : (s.allows cfg now).1 = true) : (s.allows cfg now).2.exceeded = false := by
  rw [allows_of_not_exceeded h] at hallows ⊢
  split_ifs at hallows ⊢
  rfl

/-- While no failure is refused, none will be. -/
theorem Executes.not_exceeded (h : Executes sc.cfg r s task s' tasks)
    (hexceeded : s.intensity.exceeded = false) (hsucc : sc.Succeeds s r task = true) :
    s'.intensity.exceeded = false := by
  cases h with
  | refuses | restarts | cascades => exact Intensity.exceeded_of_allows hexceeded hsucc
  | _ => exact hexceeded

theorem Env.exec (h : Env sc s) (hsucc : sc.Succeeds s r task = true) :
    Env sc (s.exec sc.cfg r task).1 := by
  have hexec := s.executes sc.cfg r task
  obtain ⟨-, hhost, hevents⟩ := hexec.frame
  have hold {id : FlowId} {stage : Stage} (hne : stage ≠ .live)
      (hid : (s.exec sc.cfg r task).1.stage id = stage) : s.stage id = stage :=
    (hexec.stage (hid ▸ hne)).symm.trans hid
  exact ⟨hhost.trans h.host, hexec.not_exceeded h.exceeded hsucc,
    fun exit hexit => h.events exit (hevents ▸ hexit),
    fun id outcome hid => h.unregistered id outcome (hold (by simp) hid),
    fun id outcome hid => h.unnamed id outcome (hold (by simp) hid),
    h.next.trans hexec.nextFlow_le⟩

namespace Scene

theorem Added.mono {next' : FlowId} (h : sc.Added next added) (hnext : next ≤ next') :
    sc.Added next' added := ⟨fun kid hkid => (h.fresh kid hkid).imp_right (·.trans_le hnext)⟩

theorem added_nil : sc.Added next [] := ⟨fun _ hkid => absurd hkid List.not_mem_nil⟩

theorem Added.concat (h : sc.Added next added) {id : FlowId} (hid : sc.start ≤ id ∧ id < next)
    (spec : ChildSpec) : sc.Added next (added ++ [(id, spec)]) where
  fresh := by
    intro kid hkid
    rcases List.mem_append.mp hkid with hkid | hkid
    · exact h.fresh kid hkid
    · rw [List.mem_singleton.mp hkid]
      exact hid

end Scene

/-- Others may take flow identities meanwhile. -/
theorem Phase.mono {tasks : List Task} {cascade : Option Cascade} {next' : FlowId}
    (h : Phase sc tasks cascade table next) (hnext : next ≤ next') :
    Phase sc tasks cascade table next' := by
  cases h with
  | begun h => exact .begun h
  | judging h => exact .judging h
  | marking h => exact .marking h
  | filling h => exact .filling h
  | killing h ids => exact .killing h ids
  | pruning h ids hwaiting => exact .pruning h ids hwaiting
  | settling h hwaiting => exact .settling h hwaiting
  | waiting h hsome hwaiting => exact .waiting h hsome hwaiting
  | arriving h hsome hwaiting hexit => exact .arriving h hsome hwaiting hexit
  | progressing h hwaiting => exact .progressing h hwaiting
  | finishing h => exact .finishing h
  | respawning h hadded hspecs => exact .respawning h (hadded.mono hnext) hspecs
  | spawning h hadded hspecs => exact .spawning h (hadded.mono hnext) hspecs
  | naming h hadded hid hnew hspecs =>
    exact .naming h (hadded.mono hnext) (hid.imp_right (·.trans_le hnext)) hnew hspecs
  | adding h hadded hid hnew hspecs =>
    exact .adding h (hadded.mono hnext) (hid.imp_right (·.trans_le hnext)) hnew hspecs
  | done h hadded hspecs htasks => exact .done h (hadded.mono hnext) hspecs htasks

/-- The exit of a child without a row does nothing. -/
theorem State.exec_handle_of_none {exit : ChildExit} (h : s.table.byId exit.id = none) :
    s.exec cfg r (.handle exit) = (s, []) := by
  simp [State.exec, h]

theorem State.exec_handle_of_some {exit : ChildExit} {live : LiveChild}
    (h : s.table.byId exit.id = some live) :
    s.exec cfg r (.handle exit) = ({ s with table := s.table.remove exit.id },
      if live.expectedShutdown then [.progress exit.id]
      else [.judge live.spec exit.outcome (s.table.order.idxOf? exit.id)
        (later cfg (s.table.remove exit.id) (s.table.order.idxOf? exit.id))]) := by
  simp [State.exec, h]

/-- The exit of a child that the cascade tears down removes its row, if it has one. -/
theorem Scene.Cascades.exec_handle (hsc : sc.Cascades) (s : State)
    (hadded : sc.Added s.nextFlow added)
    (h : s.table.Shows (sc.rowsAt gone added)) {exit : ChildExit} (hexit : exit.id ∈ sc.torn) :
    s.exec cfg r (.handle exit) = (s, []) ∨
      (s.table.remove exit.id).Shows (sc.rowsAt (exit.id :: gone) added) ∧
        s.exec cfg r (.handle exit) =
          ({ s with table := s.table.remove exit.id }, [.progress exit.id]) := by
  rcases hsc.byId_of_torn hadded h hexit with hnone | hsome
  · exact .inl (State.exec_handle_of_none hnone)
  · obtain ⟨spec, hspec⟩ := hsome
    refine .inr ⟨?_, by rw [State.exec_handle_of_some hspec]; rfl⟩
    rw [← hsc.rowsAt_cons hadded hexit]
    exact h.remove exit.id

/-- The failure starts a cascade. -/
theorem Scene.Cascades.exec_judge (hsc : sc.Cascades)
    (hallows : (s.intensity.allows sc.cfg r.now).1 = true) (failedIdx : Option ℕ)
    (later : List FlowId) :
    s.exec sc.cfg r (.judge sc.failed.2 sc.outcome failedIdx later) =
      ({ s with intensity := (s.intensity.allows sc.cfg r.now).2 },
        [.mark sc.failed.2 failedIdx later]) := by
  cases hstrategy : sc.cfg.strategy with
  | oneForOne => exact absurd hstrategy hsc.strategy
  | oneForAll | restForOne => simp [State.exec, hsc.restart, hallows, hstrategy]

/-- A flow that is waited for no longer was one of those torn down. -/
theorem State.exec_prune_cons (cfg : Config) (r : Reading) {waiting : List FlowId}
    {specs : List ChildSpec} (h : s.cascade = some ⟨waiting, specs⟩) (id : FlowId)
    (ids : List FlowId) :
    ∃ waiting' ids', waiting' ⊆ waiting ∧ s.exec cfg r (.prune (id :: ids)) =
      ({ s with cascade := some ⟨waiting', specs⟩ }, [.prune ids']) := by
  simp only [State.exec, h, Option.map_some]
  split_ifs with hlive
  · exact ⟨waiting, _, List.Subset.refl _, rfl⟩
  · exact ⟨_, _, List.filter_subset_self _, rfl⟩

theorem Phase.exec_prune (h : s.table.Shows (sc.rowsAt [] [])) {waiting : List FlowId}
    (hcascade : s.cascade = some ⟨waiting, sc.again⟩) (hwaiting : waiting ⊆ sc.torn)
    (ids : List FlowId) :
    Phase sc ((s.exec cfg r (.prune ids)).2 ++ [.settle (sc.torn = [])])
      (s.exec cfg r (.prune ids)).1.cascade (s.exec cfg r (.prune ids)).1.table
      (s.exec cfg r (.prune ids)).1.nextFlow := by
  cases ids with
  | nil =>
    simp only [State.exec, hcascade]
    exact .settling h hwaiting
  | cons id ids =>
    obtain ⟨waiting', ids', hsub, hexec⟩ := State.exec_prune_cons cfg r hcascade id ids
    rw [hexec]
    exact .pruning h ids' fun id hid => hwaiting (hsub hid)

/-- What is waited for is looked at when a flow is not waited for any longer. -/
theorem Phase.of_waiting {waiting : List FlowId} (h : table.Shows (sc.rowsAt gone []))
    (hwaiting : ∀ id ∈ waiting, id ∈ sc.torn ∧ id ∉ gone) {finish : Prop}
    [Decidable finish] (hfinish : waiting = [] → finish) :
    Phase sc (if finish then [.finish] else []) (some ⟨waiting, sc.again⟩) table next := by
  split_ifs with hif
  · exact .finishing h
  · exact .waiting h (fun hnil => hif (hfinish hnil)) hwaiting

/-- **A step of the drive thread.** It goes from phase to phase. -/
theorem Phase.exec (hsc : sc.Cascades) (henv : Env sc s) (hsucc : sc.Succeeds s r task = true)
    (h : Phase sc (task :: rest) s.cascade s.table s.nextFlow) :
    Phase sc ((s.exec sc.cfg r task).2 ++ rest) (s.exec sc.cfg r task).1.cascade
      (s.exec sc.cfg r task).1.table (s.exec sc.cfg r task).1.nextFlow := by
  obtain ⟨table, cascade, events, intensity, tasks, host, stage, registry, killed, next⟩ := s
  dsimp only at h
  generalize htasks : task :: rest = ts at h
  cases h with
  | begun h =>
    obtain ⟨rfl, rfl⟩ := List.cons_eq_cons.mp htasks
    have hfailed : sc.failed ∈ sc.kids := List.mem_append_right _ List.mem_cons_self
    have hrow := h.found _ (List.mem_map_of_mem (f := liveRow) hfailed)
    have hindex : table.order.idxOf? sc.failed.1 = some sc.earlier.length := by
      rw [h.order, List.map_map]
      exact hsc.idxOf_failed
    have hremove := h.remove sc.failed.1
    rw [hsc.filter_failed] at hremove
    rw [State.exec_handle_of_some hrow]
    simp only [hindex, hsc.later_eq hremove, liveRow]
    exact .judging hremove
  | judging h =>
    obtain ⟨rfl, rfl⟩ := List.cons_eq_cons.mp htasks
    rw [hsc.exec_judge hsucc]
    exact .marking h
  | marking h =>
    obtain ⟨rfl, rfl⟩ := List.cons_eq_cons.mp htasks
    have hexpect := h.expectAll sc.torn
    rw [hsc.rowsAt_nil] at hexpect
    simp only [State.exec, hsc.laterSpecs_eq h, hsc.cascadeSpecs_eq]
    exact .filling hexpect
  | filling h =>
    obtain ⟨rfl, rfl⟩ := List.cons_eq_cons.mp htasks
    rw [List.append_nil]
    exact .killing h sc.torn
  | killing h ids =>
    cases ids with
    | nil =>
      obtain ⟨rfl, rfl⟩ := List.cons_eq_cons.mp htasks
      exact exec_prune h rfl (List.Subset.refl _) _
    | cons id ids =>
      obtain ⟨rfl, rfl⟩ := List.cons_eq_cons.mp htasks
      exact .killing h ids
  | pruning h ids hwaiting =>
    obtain ⟨rfl, rfl⟩ := List.cons_eq_cons.mp htasks
    exact exec_prune h rfl hwaiting ids
  | settling h hwaiting =>
    obtain ⟨rfl, rfl⟩ := List.cons_eq_cons.mp htasks
    rw [List.append_nil]
    exact of_waiting h (fun id hid => ⟨hwaiting hid, List.not_mem_nil⟩) fun hnil => by simp [hnil]
  | waiting h hsome hwaiting => cases htasks
  | @arriving _ _ gone _ h hsome hwaiting exit hexit =>
    obtain ⟨rfl, rfl⟩ := List.cons_eq_cons.mp htasks
    rcases hsc.exec_handle ⟨table, _, events, intensity, tasks, host, stage, registry, killed, next⟩
      Scene.added_nil h hexit with hnone | ⟨hremove, hsome⟩
    · rw [hnone]
      exact .waiting h hsome hwaiting
    · rw [hsome]
      exact .progressing hremove hwaiting
  | progressing h hwaiting =>
    obtain ⟨rfl, rfl⟩ := List.cons_eq_cons.mp htasks
    rw [List.append_nil]
    refine of_waiting h (fun id hid => ?_) fun hnil => hnil
    obtain ⟨hid, hne⟩ := List.mem_filter.mp hid
    have hne := of_decide_eq_true hne
    exact ⟨(hwaiting id hid).1, List.not_mem_cons_of_ne_of_not_mem hne (hwaiting id hid).2⟩
  | finishing h =>
    obtain ⟨rfl, rfl⟩ := List.cons_eq_cons.mp htasks
    exact .respawning h Scene.added_nil rfl
  | @respawning _ _ _ _ h hadded specs hspecs =>
    obtain ⟨rfl, rfl⟩ := List.cons_eq_cons.mp htasks
    cases specs with
    | nil => exact .done h hadded (by simpa using hspecs) (.inl rfl)
    | cons spec specs =>
      have hexceeded : intensity.exceeded = false := henv.exceeded
      simp only [State.exec, hexceeded]
      exact .spawning h hadded hspecs
  | @spawning _ _ _ added h hadded spec specs hspecs =>
    obtain ⟨rfl, rfl⟩ := List.cons_eq_cons.mp htasks
    have hid : sc.start ≤ next ∧ next < next + 1 := ⟨henv.next, Nat.lt_succ_self _⟩
    have hnew : next ∉ added.map Prod.fst := by
      intro hmem
      obtain ⟨kid, hkid, rfl⟩ := List.mem_map.mp hmem
      exact lt_irrefl _ (hadded.fresh kid hkid).2
    have hspawns : r.spawns = true := hsucc
    simp only [State.exec, hspawns]
    by_cases hname : spec.name = ""
    · simp only [hname]
      exact .adding h (hadded.mono (Nat.le_succ _)) hid hnew hspecs
    · simp only [hname]
      exact .naming h (hadded.mono (Nat.le_succ _)) hid hnew hspecs
  | naming h hadded hid hnew hspecs =>
    obtain ⟨rfl, rfl⟩ := List.cons_eq_cons.mp htasks
    simp only [State.exec, show (registry _).isNone = true from hsucc]
    exact .adding h hadded hid hnew hspecs
  | @adding _ _ _ _ h hadded id spec _ hid hnew hspecs =>
    obtain ⟨rfl, rfl⟩ := List.cons_eq_cons.mp htasks
    have hinsert := h.insert (hsc.notMem_rowsAt hid.1 hnew) ⟨spec, false⟩
    rw [Scene.rowsAt_concat] at hinsert
    exact .respawning hinsert (hadded.concat hid spec) (by simpa using hspecs)
  | done h hadded hspecs htasks' =>
    rcases htasks' with rfl | ⟨exit, hexit, rfl⟩ | ⟨id, rfl⟩
    · cases htasks
    · obtain ⟨rfl, rfl⟩ := List.cons_eq_cons.mp htasks
      rcases hsc.exec_handle
        ⟨table, _, events, intensity, tasks, host, stage, registry, killed, next⟩
        hadded h hexit with hnone | ⟨hremove, hsome⟩
      · rw [hnone]
        exact .done h hadded hspecs (.inl rfl)
      · rw [hsome]
        exact .done hremove hadded hspecs (.inr (.inr ⟨exit.id, rfl⟩))
    · obtain ⟨rfl, rfl⟩ := List.cons_eq_cons.mp htasks
      exact .done h hadded hspecs (.inl rfl)

/-! ## The run -/

/-- The drive thread is in a phase, and what the others do is of no concern to it. -/
structure Cascading (sc : Scene) (s : State) : Prop extends Env sc s where
  phase : Phase sc s.tasks s.cascade s.table s.nextFlow

/-- An exit that is taken from the queue is one of a child torn down. -/
theorem Phase.take {cascade : Option Cascade} {exit : ChildExit} (hexit : exit.id ∈ sc.torn)
    (h : Phase sc [] cascade table next) : Phase sc [.handle exit] cascade table next := by
  generalize htasks : ([] : List Task) = ts at h
  cases h with
  | waiting h hsome hwaiting => exact .arriving h hsome hwaiting hexit
  | done h hadded hspecs _ =>
    obtain rfl := htasks
    exact .done h hadded hspecs (.inr (.inl ⟨exit, hexit, rfl⟩))
  | killing h ids => simp at htasks
  | _ => cases htasks

theorem Env.drive (h : Env sc s) (hsucc : ∀ task ∈ s.tasks.head?, sc.Succeeds s r task = true) :
    Env sc (step sc.cfg s (.drive r)) := by
  unfold step
  cases htasks : s.tasks with
  | nil =>
    cases hevents : s.events with
    | nil => exact h
    | cons exit events =>
      have hall := h.events
      rw [hevents] at hall
      exact { h with events := fun exit' hmem => hall exit' (List.mem_cons_of_mem _ hmem) }
  | cons task rest =>
    have henv := h.exec (hsucc task (by rw [htasks]; rfl))
    dsimp only
    split_ifs
    · exact h
    · exact { henv with }

/-- A flow that is torn down goes through its stages. -/
theorem Env.update {id : FlowId} (h : Env sc s) (hid : id ∈ sc.torn) (stage : Stage) :
    Env sc { s with stage := Function.update s.stage id stage } := by
  have hold {id' : FlowId} {stage' : Stage}
      (h' : Function.update s.stage id stage id' = stage') :
      id' ∈ sc.torn ∨ s.stage id' = stage' := by
    rcases eq_or_ne id' id with rfl | hne
    · exact .inl hid
    · exact .inr ((Function.update_of_ne hne ..).symm.trans h')
  exact { h with
    unregistered := fun id' outcome h' => (hold h').elim (·) (h.unregistered id' outcome)
    unnamed := fun id' outcome h' => (hold h').elim (·) (h.unnamed id' outcome) }

theorem Env.step (h : Env sc s) (i : Input) (hi : sc.Undisturbed s i) :
    Env sc (step sc.cfg s i) := by
  cases i with
  | drive r => exact h.drive hi
  | start spec => exact hi.elim
  | host r =>
    have hhost : Supervisor.step sc.cfg s (.host r) = s := by
      simp [Supervisor.step, h.host]
    rwa [hhost]
  | unregister id outcome =>
    dsimp only [Supervisor.step]
    split_ifs
    · exact h.update hi _
    · exact h
  | unname id =>
    dsimp only [Supervisor.step]
    split
    · rename_i outcome hstage
      exact { h.update (h.unregistered id outcome hstage) (.unnamed outcome) with }
    · exact h
  | notify id =>
    dsimp only [Supervisor.step]
    split
    · rename_i outcome hstage
      have hid := h.unnamed id outcome hstage
      have hevents : ∀ exit ∈ s.events ++ [⟨id, outcome⟩], exit.id ∈ sc.torn := by
        intro exit hexit
        rcases List.mem_append.mp hexit with hexit | hexit
        · exact h.events exit hexit
        · rw [List.mem_singleton.mp hexit]
          exact hid
      exact { h.update hid .notified with events := hevents }
    · exact h
  | elsewhere => exact { h with next := h.next.trans (Nat.le_succ _) }

theorem Phase.drive (hsc : sc.Cascades) (henv : Env sc s)
    (hsucc : ∀ task ∈ s.tasks.head?, sc.Succeeds s r task = true)
    (h : Phase sc s.tasks s.cascade s.table s.nextFlow) :
    Phase sc (step sc.cfg s (.drive r)).tasks (step sc.cfg s (.drive r)).cascade
      (step sc.cfg s (.drive r)).table (step sc.cfg s (.drive r)).nextFlow := by
  unfold step
  cases htasks : s.tasks with
  | nil =>
    cases hevents : s.events with
    | nil => exact h
    | cons exit events =>
      have hexit := henv.events exit (hevents ▸ List.mem_cons_self)
      rw [htasks] at h
      exact h.take hexit
  | cons task rest =>
    have hblocked : State.Blocked s.host task = false := by
      simp [State.Blocked, henv.host]
    rw [htasks] at h
    simp only [hblocked]
    exact h.exec hsc henv (hsucc task (by rw [htasks]; rfl))

/-- Every step of the threads keeps the drive thread in its phase or takes it to the next one. -/
theorem Cascading.step (hsc : sc.Cascades) (h : Cascading sc s) (i : Input)
    (hi : sc.Undisturbed s i) : Cascading sc (step sc.cfg s i) := by
  refine ⟨h.toEnv.step i hi, ?_⟩
  have hphase := h.phase
  cases i with
  | drive r => exact hphase.drive hsc h.toEnv hi
  | elsewhere => exact hphase.mono (Nat.le_succ _)
  | host r => rwa [show Supervisor.step sc.cfg s (.host r) = s by simp [Supervisor.step, h.host]]
  | start spec => exact hi.elim
  | unregister id outcome | unname id | notify id =>
    dsimp only [Supervisor.step]
    split <;> exact hphase

theorem Cascading.run (hsc : sc.Cascades) (h : Cascading sc s) {is : List Input}
    (his : Schedule.Guarded (Supervisor.step sc.cfg) sc.Undisturbed s is) :
    Cascading sc (run sc.cfg s is) :=
  his.invariant (fun _ i hi h => h.step hsc i hi) h

namespace Scene

variable (sc) in
/-- The drive thread takes the exit of the failed child while no child is torn down yet. -/
structure Begun (s : State) : Prop extends Env sc s where
  tasks : s.tasks = [.handle ⟨sc.failed.1, sc.outcome⟩]
  cascade : s.cascade = none
  table : s.table.Shows (sc.kids.map liveRow)

theorem Begun.cascading (h : sc.Begun s) : Cascading sc s := by
  refine ⟨h.toEnv, ?_⟩
  rw [h.tasks, h.cascade]
  exact .begun h.table

/-- What the cascade leaves alone and what it starts again are the original children. -/
theorem untouched_append_again : sc.untouched.map Prod.snd ++ sc.again = sc.kids.map Prod.snd := by
  have htake : sc.untouched = sc.kids.take sc.untouched.length := by
    unfold untouched kids
    split <;> simp
  rw [again, ← List.map_append]
  nth_rewrite 1 [htake]
  rw [List.take_append_drop]

/-- When a cascade has started all its specs. -/
theorem restored (hadded : sc.Added next added) (hspecs : added.map Prod.snd = sc.again)
    (hnodup : ((sc.untouched.map liveRow ++ added.map liveRow).map Prod.fst).Nodup) :
    sc.Restored (sc.untouched.map liveRow ++ added.map liveRow) where
  specs := by
    rw [← untouched_append_again, ← hspecs]
    simp [liveRow, Function.comp_def]
  untouched := List.take_left' (List.length_map ..)
  fresh := by
    intro row hrow
    rw [List.drop_left' (List.length_map ..)] at hrow
    obtain ⟨kid, hkid, rfl⟩ := List.mem_map.mp hrow
    exact (hadded.fresh kid hkid).1
  nodup := hnodup
  live := by
    intro row hrow
    rw [← List.map_append] at hrow
    obtain ⟨kid, -, rfl⟩ := List.mem_map.mp hrow
    rfl

theorem filter_rowsAt : (sc.rowsAt gone added).filter (fun row => !row.2.expectedShutdown) =
    sc.untouched.map liveRow ++ added.map liveRow := by
  simp [rowsAt, liveRow, tornRow, List.filter_map, Function.comp_def]

/-- When the exits of all children that were torn down are handled. -/
theorem rowsAt_of_gone (h : ∀ id ∈ sc.torn, id ∉ (sc.rowsAt gone added).map Prod.fst) :
    sc.rowsAt gone added = sc.untouched.map liveRow ++ added.map liveRow := by
  have hnil : (sc.tornKids.filter fun kid => kid.1 ∉ gone) = [] := by
    refine List.filter_eq_nil_iff.mpr fun kid hkid hgone => ?_
    have hrow : tornRow kid ∈ sc.rowsAt gone added :=
      mem_rowsAt.mpr (.inr (.inl ⟨kid, hkid, of_decide_eq_true hgone, rfl⟩))
    exact h kid.1 (List.mem_map_of_mem hkid) (List.mem_map_of_mem (f := Prod.fst) hrow)
  rw [rowsAt, hnil, List.map_nil, List.append_nil]

end Scene

/-- When the drive thread rests, either it waits for children whose rows are in the table, or it has
started all specs. -/
theorem Phase.at_rest {cascade : Option Cascade} (h : Phase sc [] cascade table next) :
    (cascade ≠ none ∧ ∃ id ∈ sc.torn, table.byId id ≠ none) ∨
      cascade = none ∧ ∃ gone added, table.Shows (sc.rowsAt gone added) ∧ sc.Added next added ∧
        added.map Prod.snd = sc.again := by
  generalize htasks : ([] : List Task) = ts at h
  cases h with
  | @waiting _ _ gone waiting h hsome hwaiting =>
    obtain ⟨id, hid⟩ := List.exists_mem_of_ne_nil waiting hsome
    obtain ⟨htorn, hgone⟩ := hwaiting id hid
    refine .inl ⟨Option.some_ne_none _, id, htorn, ?_⟩
    obtain ⟨kid, hkid, rfl⟩ := List.mem_map.mp htorn
    have hrow := h.found (tornRow kid) (Scene.mem_rowsAt.mpr (.inr (.inl ⟨kid, hkid, hgone, rfl⟩)))
    exact fun hnone => Option.some_ne_none _ (hrow.symm.trans hnone)
  | done h hadded hspecs _ => exact .inr ⟨rfl, _, _, h, hadded, hspecs⟩
  | killing h ids => simp at htasks
  | _ => cases htasks

/-- **A cascade restores the start order.** When it has finished, the rows that are not being torn
down are those of the original children in order; and it has finished, and there are no other rows,
when the exits of all children that it tore down are handled. -/
theorem cascade_restores {sc : Scene} {s : State} (hsc : sc.Cascades) (h : sc.Begun s)
    {is : List Input} (his : Schedule.Guarded (step sc.cfg) sc.Undisturbed s is)
    (htasks : (run sc.cfg s is).tasks = []) :
    ((run sc.cfg s is).cascade = none →
      sc.Restored ((run sc.cfg s is).table.rows.filter fun row => !row.2.expectedShutdown)) ∧
    ((∀ id ∈ sc.torn, (run sc.cfg s is).table.byId id = none) →
      (run sc.cfg s is).cascade = none ∧ sc.Restored (run sc.cfg s is).table.rows) := by
  have hphase := (h.cascading.run hsc his).phase
  rw [htasks] at hphase
  rcases hphase.at_rest with ⟨hsome, id, hid, hrow⟩ | ⟨hnone, gone, added, hshows, hadded, hspecs⟩
  · exact ⟨fun hnone => absurd hnone hsome, fun hgone => absurd (hgone id hid) hrow⟩
  · rw [hshows.rows_eq]
    have hnodup := hshows.nodup
    refine ⟨fun _ => ?_, fun hgone => ⟨hnone, ?_⟩⟩
    · have hlive := hnodup.sublist ((List.filter_sublist (p := fun row =>
        !row.2.expectedShutdown)).map Prod.fst)
      rw [Scene.filter_rowsAt] at hlive ⊢
      exact Scene.restored hadded hspecs hlive
    · have hrows : ∀ id ∈ sc.torn, id ∉ (sc.rowsAt gone added).map Prod.fst := by
        intro id hid hmem
        obtain ⟨row, hrow, rfl⟩ := List.mem_map.mp hmem
        exact Option.some_ne_none _ ((hshows.found row hrow).symm.trans (hgone row.1 hid))
      rw [Scene.rowsAt_of_gone hrows] at hnodup ⊢
      exact Scene.restored hadded hspecs hnodup

/-! ## A log, a store that uses it, and a server that uses both -/

def log : ChildSpec := ⟨"log", 0, [], .always⟩

def store : ChildSpec := ⟨"store", 1, [], .always⟩

def server : ChildSpec := ⟨"server", 2, [], .onFailure⟩

def oneForAll : Config := ⟨3, 5000000000, .oneForAll⟩

/-- Ten seconds after the first instant. -/
def reading : Reading := ⟨10000000000, true, 0⟩

def started (spec : ChildSpec) : List Input :=
  [.start spec, .host reading, .host reading, .host reading]

def exits (id : FlowId) : List Input :=
  [.unregister id (.failed "trap"), .unname id, .notify id]

/-- The store fails. -/
def storeFails : Scene := ⟨oneForAll, [(1, log)], (2, store), [(3, server)], .failed "trap", 4⟩

def storeFailed : State :=
  run oneForAll .init
    (started log ++ started store ++ started server ++ exits 2 ++ [.drive reading])

theorem storeFails_cascades : storeFails.Cascades :=
  ⟨by decide, by decide, by decide, by decide⟩

theorem storeFails_begun : storeFails.Begun storeFailed := by
  have hstage : storeFailed.stage = Function.update (Function.update (Function.update
      (Function.update (Function.update (Function.update (fun _ => .unborn) 1 .live) 2 .live) 3
        .live) 2 (.unregistered (.failed "trap"))) 2 (.unnamed (.failed "trap"))) 2 .notified := rfl
  have hlog : (ChildTable.new.insert 1 ⟨log, false⟩).Shows [(1, ⟨log, false⟩)] :=
    ChildTable.shows_new.insert (by decide) _
  have hstore : ((ChildTable.new.insert 1 ⟨log, false⟩).insert 2 ⟨store, false⟩).Shows
      [(1, ⟨log, false⟩), (2, ⟨store, false⟩)] := hlog.insert (by decide) _
  have hserver : storeFailed.table.Shows
      [(1, ⟨log, false⟩), (2, ⟨store, false⟩), (3, ⟨server, false⟩)] := hstore.insert (by decide) _
  refine ⟨⟨rfl, rfl, by decide, fun id outcome h => ?_, fun id outcome h => ?_, by decide⟩, rfl,
    rfl, hserver⟩
  all_goals
    rw [hstage] at h
    simp only [Function.update_apply] at h
    split_ifs at h

theorem cascade_restores_storeFails :
    storeFails.Restored (run oneForAll storeFailed (List.replicate 10 (.drive reading) ++ exits 3 ++
      List.replicate 3 (.drive reading) ++ exits 1 ++
        List.replicate 17 (.drive reading))).table.rows :=
  ((cascade_restores storeFails_cascades storeFails_begun (by decide) (by decide)).2
    (by decide)).2

/-- The killed siblings leave the directory before they are looked up. -/
def earlyExits : List Input :=
  List.replicate 6 (.drive reading) ++
    [.unregister 1 (.failed "trap"), .unname 1, .unregister 3 (.failed "trap"), .unname 3] ++
      List.replicate 18 (.drive reading)

/-- They are not waited for, and the cascade finishes while their rows are in the table. -/
theorem storeFails_unrestored :
    storeFails.Cascades ∧ storeFails.Begun storeFailed ∧
      Schedule.Guarded (step oneForAll) storeFails.Undisturbed storeFailed earlyExits ∧
        (run oneForAll storeFailed earlyExits).tasks = [] ∧
          (run oneForAll storeFailed earlyExits).cascade = none ∧
            (run oneForAll storeFailed earlyExits).table.rows.map (fun row => row.2.spec) =
              [log, server, log, store, server] ∧
              [log, server, log, store, server] ≠ storeFails.kids.map Prod.snd :=
  ⟨storeFails_cascades, storeFails_begun, by decide, by decide, by decide, by decide, by decide⟩

end Supervisor

end Byteflow
