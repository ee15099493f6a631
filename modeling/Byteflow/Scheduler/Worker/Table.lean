import Byteflow.Scheduler.Capability.Calls
import Byteflow.Scheduler.Worker.Answers

/-!
# What was given lasts

The capability table agrees with the log (`Consistent`): a token that was given to a flow is in the
table, with the record it was given with, until its holder or the flow that it addresses has exited;
and who was live was spawned by the host or by a flow that is not confined. An operation whose needs
are met keeps this, and tells what `Tells` says (`exec_sound`).
-/

namespace Byteflow

namespace Worker

open Function (update)

variable {c : Config} {strict : Prop} {k : Context} {s s' : State}

/-- The capability table, the directory and the log agree. -/
structure Consistent (strict : Prop) (s : State) : Prop where
  cells : ∀ id cell, s.caps.flowCells id = some cell → 2 ≤ cell ∧ cell < s.caps.nextCell
  nextCell : 2 ≤ s.caps.nextCell
  distinct : ∀ id id' cell, s.caps.flowCells id = some cell → s.caps.flowCells id' = some cell →
    id = id'
  epoch : ∀ cell < 2, s.caps.epoch cell = 0
  given : ∀ id entry, s.caps.entries id = some entry → s.Given id entry
  drawn : ∀ id entry, s.Given id entry → id ∈ s.caps.drawn ∧ id ≠ CapId.none
  current : ∀ id entry, s.Given id entry → s.Allocated entry.holder ∧ s.Current entry.cap
  lasting : ∀ id entry, s.Given id entry → s.Exited entry.holder ∨
    (∃ flow, entry.target = some flow ∧ s.Exited flow) ∨ s.caps.entries id = some entry
  unique : strict → ∀ id entry entry', s.Given id entry → s.Given id entry' → entry = entry'
  directory : ∀ id, s.machine.shared.directory id = true → s.Allocated id
  exited : ∀ id, s.Exited id → s.Allocated id
  host : s.Allocated FlowId.host ∧ s.log.origins FlowId.host = .host
  parents : ∀ id parent rights args, s.Allocated id →
    s.log.origins id = .bytecode parent rights args → s.Allocated parent
  spawned : ∀ id parent rights args, s.WasLive id →
    s.log.origins id = .bytecode parent rights args → ¬s.Confined parent

/-- The facts of the two states are the same, but for what the second one has seen besides. -/
structure Agrees (s s' : State) : Prop where
  entries : s'.caps.entries = s.caps.entries
  flowCells : s'.caps.flowCells = s.caps.flowCells
  epoch : s'.caps.epoch = s.caps.epoch
  nextCell : s'.caps.nextCell = s.caps.nextCell
  drawn : s'.caps.drawn = s.caps.drawn
  directory : s'.machine.shared.directory = s.machine.shared.directory
  nextFlowId : s'.machine.shared.nextFlowId = s.machine.shared.nextFlowId
  given_iff : ∀ {id entry}, s'.Given id entry ↔ s.Given id entry
  exited : s'.log.exited = s.log.exited
  origins : s'.log.origins = s.log.origins
  seen : ∀ id ∈ s.log.seen, id ∈ s'.log.seen
  hops : ∀ issue ∈ s.log.hops, issue ∈ s'.log.hops

namespace Agrees

theorem refl (s : State) : Agrees s s :=
  ⟨rfl, rfl, rfl, rfl, rfl, rfl, rfl, .rfl, rfl, rfl, fun _ h => h, fun _ h => h⟩

/-- Neither the processes nor the modes are facts. -/
theorem setProcess (s : State) (id : FlowId) (p : Process) : Agrees s (s.setProcess id p) :=
  ⟨rfl, rfl, rfl, rfl, rfl, rfl, rfl, .rfl, rfl, rfl, fun _ h => h, fun _ h => h⟩

theorem setMode (s : State) (t : ℕ) (mode : Mode) : Agrees s (s.setMode t mode) :=
  ⟨rfl, rfl, rfl, rfl, rfl, rfl, rfl, .rfl, rfl, rfl, fun _ h => h, fun _ h => h⟩

theorem topUp (s : State) (target : FlowId) (f : FlowQuota → FlowQuota) :
    Agrees s (s.topUp target f) := by
  unfold State.topUp
  split_ifs
  · exact .setProcess s _ _
  · exact .refl s

section

variable (h : Agrees s s')

include h

theorem exited_iff {id : FlowId} : s'.Exited id ↔ s.Exited id := by
  unfold State.Exited
  rw [h.exited]

theorem allocated_iff {id : FlowId} : s'.Allocated id ↔ s.Allocated id := by
  unfold State.Allocated
  rw [h.nextFlowId]

theorem wasLive_iff {id : FlowId} : s'.WasLive id ↔ s.WasLive id := by
  unfold State.WasLive
  rw [h.allocated_iff, h.exited_iff, h.directory]

theorem confined_iff {id : FlowId} : s'.Confined id ↔ s.Confined id := by
  unfold State.Confined
  rw [h.origins]

theorem grows : Grows strict s s' where
  given := fun _ _ => h.given_iff.mpr
  exited := fun _ => h.exited_iff.mpr
  wasLive := fun _ => h.wasLive_iff.mpr
  allocated := fun _ => h.allocated_iff.mpr
  cellOf := fun id cell hc => by
    unfold State.CellOf
    rw [h.exited_iff, h.flowCells]
    exact hc
  epochOf := fun id epoch he => by
    unfold State.EpochOf
    rw [h.exited_iff, h.flowCells, h.epoch]
    exact he
  drawn := fun _ hd => h.drawn ▸ hd
  seen := h.seen
  hops := h.hops
  origins := fun id _ => by rw [h.origins]
  fresh := fun _ _ _ hg => .inl (h.given_iff.mp hg)

theorem consistent (hs : Consistent strict s) : Consistent strict s' where
  cells := by
    rw [h.flowCells, h.nextCell]
    exact hs.cells
  nextCell := by
    rw [h.nextCell]
    exact hs.nextCell
  distinct := by
    rw [h.flowCells]
    exact hs.distinct
  epoch := by
    rw [h.epoch]
    exact hs.epoch
  given := fun id entry he => h.given_iff.mpr (hs.given id entry (h.entries ▸ he))
  drawn := fun id entry hg => by
    rw [h.drawn]
    exact hs.drawn id entry (h.given_iff.mp hg)
  current := fun id entry hg => by
    obtain ⟨ha, hc⟩ := hs.current id entry (h.given_iff.mp hg)
    exact ⟨h.allocated_iff.mpr ha, hc.mono (h.grows : Grows False _ _)⟩
  lasting := fun id entry hg => by
    rw [h.entries, h.exited_iff]
    rcases hs.lasting id entry (h.given_iff.mp hg) with hh | ⟨flow, ht, hf⟩ | he
    · exact .inl hh
    · exact .inr (.inl ⟨flow, ht, h.exited_iff.mpr hf⟩)
    · exact .inr (.inr he)
  unique := fun hstrict id entry entry' hg hg' =>
    hs.unique hstrict id entry entry' (h.given_iff.mp hg) (h.given_iff.mp hg')
  directory := fun id hd => h.allocated_iff.mpr (hs.directory id (h.directory ▸ hd))
  exited := fun id he => h.allocated_iff.mpr (hs.exited id (h.exited_iff.mp he))
  host := by
    rw [h.allocated_iff, h.origins]
    exact hs.host
  parents := fun id parent rights args ha ho =>
    h.allocated_iff.mpr (hs.parents id parent rights args (h.allocated_iff.mp ha) (h.origins ▸ ho))
  spawned := fun id parent rights args hl ho => by
    rw [h.confined_iff]
    exact hs.spawned id parent rights args (h.wasLive_iff.mp hl) (h.origins ▸ ho)

end

end Agrees

/-! ## Operations on the capability table -/

namespace State

def withCaps (s : State) (t : CapTable) : State := { s with caps := t }

/-- A new token. -/
def record (s : State) (id : CapId) (entry : Capability) : State :=
  { s with caps := s.caps.add id entry, log := { s.log with given := (id, entry) :: s.log.given } }

end State

/-- A flow gets a cell, or it has one. -/
theorem bindFlow_sound (hs : Consistent strict s) (flow : FlowId) :
    Consistent strict (s.withCaps (s.caps.bindFlow flow).1) ∧
      Grows strict s (s.withCaps (s.caps.bindFlow flow).1) := by
  rcases s.caps.bindFlow_cases flow with ⟨cell, -, he⟩ | ⟨hnone, he⟩ <;> rw [he]
  · exact ⟨hs, .refl s⟩
  have hold {id : FlowId} {cell : CellId} (h : s.caps.flowCells id = some cell) :
      update s.caps.flowCells flow (some s.caps.nextCell) id = some cell := by
    rw [Function.update_of_ne]
    · exact h
    · rintro rfl
      rw [hnone] at h
      cases h
  have hnew {id : FlowId} {cell : CellId}
      (h : update s.caps.flowCells flow (some s.caps.nextCell) id = some cell) :
      id = flow ∧ cell = s.caps.nextCell ∨ s.caps.flowCells id = some cell := by
    by_cases hid : id = flow
    · rw [hid, Function.update_self] at h
      cases h
      exact .inl ⟨hid, rfl⟩
    · rw [Function.update_of_ne hid] at h
      exact .inr h
  have hgrows : Grows strict s (s.withCaps { s.caps with
      flowCells := update s.caps.flowCells flow (some s.caps.nextCell)
      nextCell := s.caps.nextCell + 1 }) :=
    { @Grows.refl strict s with
      cellOf := fun _ _ hc => hc.imp_right hold
      epochOf := fun _ _ he => he.imp_right fun ⟨cell, hc, he⟩ => ⟨cell, hold hc, he⟩ }
  refine ⟨{ hs with
    cells := fun id cell h => ?_
    nextCell := Nat.le_succ_of_le hs.nextCell
    distinct := fun id id' cell h h' => ?_
    current := fun id entry hg => ?_ }, hgrows⟩
  · rcases hnew h with ⟨-, rfl⟩ | h
    · exact ⟨hs.nextCell, Nat.lt_succ_self _⟩
    · exact ⟨(hs.cells id cell h).1, Nat.lt_succ_of_lt (hs.cells id cell h).2⟩
  · rcases hnew h with ⟨hid, hcell⟩ | h <;> rcases hnew h' with ⟨hid', hcell'⟩ | h'
    · exact hid.trans hid'.symm
    · exact absurd (hcell ▸ (hs.cells _ _ h').2) (lt_irrefl _)
    · exact absurd (hcell' ▸ (hs.cells _ _ h).2) (lt_irrefl _)
    · exact hs.distinct id id' cell h h'
  · exact ⟨(hs.current id entry hg).1, (hs.current id entry hg).2.mono hgrows⟩

/-- A token is made for a record that is current. -/
theorem record_sound (entry : Capability) (hs : Consistent strict s) {id : CapId}
    (hnone : id ≠ CapId.none) (hfree : s.caps.entries id = none)
    (hholder : s.Allocated entry.holder) (hcurrent : s.Current entry.cap)
    (hnew : strict → ¬s.Seen id) :
    Consistent strict (s.record id entry) ∧ Grows strict s (s.record id entry) := by
  have hgiven {id' : CapId} {entry' : Capability} (h : (s.record id entry).Given id' entry') :
      id' = id ∧ entry' = entry ∨ s.Given id' entry' := by
    rcases List.mem_cons.mp h with h | h
    · exact .inl (Prod.mk.inj h)
    · exact .inr h
  have hgrows : Grows strict s (s.record id entry) :=
    { @Grows.refl strict s with
      given := fun _ _ => List.mem_cons_of_mem _
      drawn := fun _ => List.mem_cons_of_mem _
      fresh := fun hstrict id' entry' hg => by
        rcases hgiven hg with ⟨rfl, -⟩ | hg
        · exact .inr (hnew hstrict)
        · exact .inl hg }
  refine ⟨{ hs with
    given := fun id' entry' he => ?_
    drawn := fun id' entry' hg => ?_
    current := fun id' entry' hg => ?_
    lasting := fun id' entry' hg => ?_
    unique := fun hstrict id' entry₁ entry₂ h₁ h₂ => ?_ }, hgrows⟩
  · by_cases hid : id' = id
    · subst hid
      have he : update s.caps.entries id' (some entry) id' = some entry' := he
      rw [Function.update_self] at he
      cases he
      exact List.mem_cons_self
    · have he : update s.caps.entries id (some entry) id' = some entry' := he
      rw [Function.update_of_ne hid] at he
      exact List.mem_cons_of_mem _ (hs.given id' entry' he)
  · rcases hgiven hg with ⟨rfl, -⟩ | hg
    · exact ⟨List.mem_cons_self, hnone⟩
    · exact (hs.drawn id' entry' hg).imp_left (List.mem_cons_of_mem _)
  · rcases hgiven hg with ⟨-, rfl⟩ | hg
    · exact ⟨hholder, hcurrent.mono hgrows⟩
    · exact ⟨(hs.current id' entry' hg).1, (hs.current id' entry' hg).2.mono hgrows⟩
  · rcases hgiven hg with ⟨rfl, rfl⟩ | hg
    · exact .inr (.inr (Function.update_self ..))
    · refine (hs.lasting id' entry' hg).imp_right fun h => h.imp_right fun he => ?_
      refine (Function.update_of_ne ?_ _ _).trans he
      rintro rfl
      rw [hfree] at he
      cases he
  · -- the token was not given before
    have hold {entry' : Capability} (h : s.Given id entry') : False :=
      hnew hstrict (.inl (hs.drawn id entry' h).1)
    rcases hgiven h₁ with ⟨hid, he⟩ | h₁ <;> rcases hgiven h₂ with ⟨hid', he'⟩ | h₂
    · exact he.trans he'.symm
    · exact (hold (hid ▸ h₂)).elim
    · exact (hold (hid' ▸ h₁)).elim
    · exact hs.unique hstrict id' entry₁ entry₂ h₁ h₂

/-- What an operation keeps, and what it tells. -/
structure Performed (strict : Prop) (k : Context) (s s' : State) (op : Op) (r : op.Result) :
    Prop where
  consistent : Consistent strict s'
  grows : Grows strict s s'
  tells : Tells strict k s' op r

/-- The table after an operation, with the tokens that were given. -/
def State.tabled (s : State) (t : CapTable) (given : List (CapId × Capability)) : State :=
  { s with caps := t, log := { s.log with given := given ++ s.log.given } }

theorem exec_caps (s : State) (env : Env) (op : CapTable.Op) :
    s.exec env (.tables (.caps op)) =
      (s.tabled (s.caps.exec env.draws op).1
        ((s.caps.exec env.draws op).1.given op (s.caps.exec env.draws op).2),
        (s.caps.exec env.draws op).2) := rfl

theorem insert_performed (hs : Consistent strict s) (env : Env)
    (hnew : strict → ∀ id ∈ env.draws, ¬s.Seen id) {entry : Capability}
    (hn : s.Allocated entry.holder ∧ s.Current entry.cap) :
    Performed strict k s (s.exec env (.tables (.caps (.insert entry)))).1
      (.tables (.caps (.insert entry))) (s.exec env (.tables (.caps (.insert entry)))).2 := by
  rw [exec_caps]
  simp only [CapTable.exec]
  rcases s.caps.insert_cases env.draws entry with ⟨id, hmem, hnone, hfree, he⟩ | ⟨e, he⟩ <;> rw [he]
  · obtain ⟨hcons, hgrows⟩ := record_sound _ hs hnone hfree hn.1 hn.2
      fun hstrict => hnew hstrict id hmem
    have hgiven : (s.caps.add id entry).given (.insert entry) (.ok id) = [(id, entry)] := by
      simp [CapTable.given, CapTable.add]
    rw [hgiven]
    refine ⟨hcons, hgrows, fun id' hid => ?_⟩
    cases hid
    exact List.mem_cons_self
  · exact ⟨hs, .refl s, fun _ hid => by cases hid⟩

/-- The table in which a reply address is made has a cell for its target. -/
theorem cleared_sound (hs : Consistent strict s) (holder target : FlowId) :
    Consistent strict (s.withCaps (s.caps.cleared holder target)) ∧
      Grows strict s (s.withCaps (s.caps.cleared holder target)) := by
  obtain ⟨hcons, hgrows⟩ := bindFlow_sound hs target
  have hagrees : Agrees (s.withCaps (s.caps.bindFlow target).1)
      (s.withCaps (s.caps.cleared holder target)) := by
    unfold CapTable.cleared CapTable.bindFlow CapTable.setReply
    dsimp only
    split <;> exact ⟨rfl, rfl, rfl, rfl, rfl, rfl, rfl, .rfl, rfl, rfl, fun _ h => h, fun _ h => h⟩
  exact ⟨hagrees.consistent hcons, hgrows.trans hagrees.grows⟩

/-- A reply address that is there was given, or a token is made for it. -/
theorem mintOrReuse_performed (hs : Consistent strict s) (env : Env)
    (hnew : strict → ∀ id ∈ env.draws, ¬s.Seen id) {holder target : FlowId} {rights : CapRights}
    (hn : s.Allocated holder ∧ s.WasLive target) :
    Performed strict k s (s.exec env (.tables (.caps (.mintOrReuse holder target rights)))).1
      (.tables (.caps (.mintOrReuse holder target rights)))
      (s.exec env (.tables (.caps (.mintOrReuse holder target rights)))).2 := by
  rw [exec_caps]
  simp only [CapTable.exec]
  obtain ⟨hcons, hgrows⟩ := cleared_sound hs holder target
  rcases s.caps.mintOrReuse_cases env.draws holder target rights with
    ⟨id, _, hlive, he⟩ | ⟨-, ⟨id, hmem, hnone, hfree, -, he⟩ | ⟨e, he⟩⟩ <;> rw [he]
  · unfold CapTable.replyCapIsLive at hlive
    cases hentry : s.caps.entries id with
    | none =>
      rw [hentry] at hlive
      cases hlive
    | some entry =>
      rw [hentry] at hlive
      simp only [Bool.and_eq_true, decide_eq_true_eq] at hlive
      have hgiven : s.caps.given (.mintOrReuse holder target rights) (.ok id) = [(id, entry)] := by
        simp [CapTable.given, hentry]
      rw [hgiven]
      -- the token was given before
      have hg : s.Given id entry := hs.given id entry hentry
      have hagrees : Agrees s (s.tabled s.caps [(id, entry)]) := by
        refine ⟨rfl, rfl, rfl, rfl, rfl, rfl, rfl, ?_, rfl, rfl, fun _ h => h, fun _ h => h⟩
        intro id' entry'
        refine ⟨fun h => ?_, List.mem_cons_of_mem _⟩
        rcases List.mem_cons.mp h with h | h
        · obtain ⟨rfl, rfl⟩ := Prod.mk.inj h
          exact hg
        · exact h
      refine ⟨hagrees.consistent hs, hagrees.grows, ?_⟩
      rintro id' ⟨⟩
      refine ⟨entry, hagrees.given_iff.mpr hg, hlive.1.1.1, ?_⟩
      exact target_eq_some.mpr hlive.1.1.2
  · have hfree' : (s.caps.cleared holder target).entries id = none := by
      rw [CapTable.cleared_entries, hfree]
    have hcurrent : (s.withCaps (s.caps.cleared holder target)).Current
        (s.caps.replyEntry holder target rights).cap :=
      ⟨hgrows.wasLive _ hn.2, .inr ⟨_, CapTable.bindFlow_cell _ target, rfl⟩⟩
    have hfresh : strict → ¬(s.withCaps (s.caps.cleared holder target)).Seen id := by
      unfold State.Seen State.withCaps CapTable.cleared
      rw [CapTable.bindFlow_drawn]
      exact fun hstrict => hnew hstrict id hmem
    obtain ⟨hcons', hgrows'⟩ := record_sound (s.caps.replyEntry holder target rights) hcons hnone
      hfree' hn.1 hcurrent hfresh
    have hagrees : Agrees
        ((s.withCaps (s.caps.cleared holder target)).record id
          (s.caps.replyEntry holder target rights))
        (s.tabled (((s.caps.cleared holder target).add id
            (s.caps.replyEntry holder target rights)).setReply holder target (some id))
          [(id, s.caps.replyEntry holder target rights)]) :=
      ⟨rfl, rfl, rfl, rfl, rfl, rfl, rfl, .rfl, rfl, rfl, fun _ h => h, fun _ h => h⟩
    have hgiven : (((s.caps.cleared holder target).add id
        (s.caps.replyEntry holder target rights)).setReply holder target (some id)).given
          (.mintOrReuse holder target rights) (.ok id) =
        [(id, s.caps.replyEntry holder target rights)] := by
      simp [CapTable.given, CapTable.add, CapTable.setReply]
    rw [hgiven]
    refine ⟨hagrees.consistent hcons', (hgrows.trans hgrows').trans hagrees.grows, ?_⟩
    rintro id' ⟨⟩
    exact ⟨_, List.mem_cons_self, rfl, rfl⟩
  · exact ⟨hcons, hgrows, fun _ hid => by cases hid⟩

theorem caps_performed (hs : Consistent strict s) (env : Env)
    (hnew : strict → ∀ id ∈ env.draws, ¬s.Seen id) {op : CapTable.Op}
    (hn : Needs c strict k s (.tables (.caps op))) :
    Performed strict k s (s.exec env (.tables (.caps op))).1 (.tables (.caps op))
      (s.exec env (.tables (.caps op))).2 := by
  cases op with
  | bindFlow flow =>
    obtain ⟨hcons, hgrows⟩ := bindFlow_sound hs flow
    exact ⟨hcons, hgrows, .inr (CapTable.bindFlow_cell _ flow)⟩
  | flowCell flow => exact ⟨hs, .refl s, fun cell hc => .inr hc⟩
  | readEpoch cell =>
    refine ⟨hs, .refl s, fun flow hc => hc.imp_right fun hc => ⟨cell, hc, rfl⟩, ?_⟩
    rintro rfl
    exact hs.epoch _ (by decide)
  | insert entry => exact insert_performed hs env hnew hn
  | mintOrReuse holder target rights => exact mintOrReuse_performed hs env hnew hn
  | lookup id =>
    refine ⟨hs, .refl s, fun entry he => ?_⟩
    have hentry : s.caps.entries id = some entry := by
      simp only [exec_caps, CapTable.exec, CapTable.lookup] at he
      split at he
      · cases he
      · exact he
    exact ⟨hs.given id entry hentry, (hs.current id entry (hs.given id entry hentry)).2⟩
  | resolve id holder required =>
    refine ⟨hs, .refl s, fun entry he => ?_⟩
    obtain ⟨-, hentry, hholder, hrights, -⟩ := CapTable.resolve_ok he
    have hg := hs.given id entry hentry
    exact ⟨hg, (hs.current id entry hg).2, hholder, hrights⟩

/-! ## All operations -/

/-- A new flow gets its id. -/
theorem allocate_performed (hs : Consistent strict s) (env : Env) {origin : Origin}
    (hn : Needs c strict k s (.allocate origin)) :
    Performed strict k s (s.exec env (.allocate origin)).1 (.allocate origin)
      (s.exec env (.allocate origin)).2 := by
  have hold {id : FlowId} (h : s.Allocated id) :
      update s.log.origins s.machine.shared.nextFlowId origin id = s.log.origins id :=
    Function.update_of_ne h.ne _ _
  have hgrows : Grows strict s (s.exec env (.allocate origin)).1 :=
    { @Grows.refl strict s with
      wasLive := fun _ hl => ⟨Nat.lt_succ_of_lt hl.1, hl.2⟩
      allocated := fun _ => Nat.lt_succ_of_lt
      origins := fun _ => hold }
  have hlive {id : FlowId} (h : (s.exec env (.allocate origin)).1.WasLive id) : s.WasLive id :=
    ⟨h.2.elim (hs.directory id) (hs.exited id), h.2⟩
  refine ⟨{ hs with
    current := fun id entry hg => ?_
    directory := fun id hd => Nat.lt_succ_of_lt (hs.directory id hd)
    exited := fun id he => Nat.lt_succ_of_lt (hs.exited id he)
    host := ⟨Nat.lt_succ_of_lt hs.host.1, (hold hs.host.1).trans hs.host.2⟩
    parents := fun id parent rights args ha ho => ?_
    spawned := fun id parent rights args hl ho => ?_ }, hgrows, Nat.lt_succ_self _, ?_, ?_⟩
  · obtain ⟨ha, hc⟩ := hs.current id entry hg
    exact ⟨hgrows.allocated _ ha, hc.mono hgrows⟩
  · by_cases hid : id = s.machine.shared.nextFlowId
    · have ho : update s.log.origins s.machine.shared.nextFlowId origin id = _ := ho
      rw [hid, Function.update_self] at ho
      subst ho
      exact Nat.lt_succ_of_lt hn
    · have ha : s.Allocated id := lt_of_le_of_ne (Nat.le_of_lt_succ ha) hid
      exact Nat.lt_succ_of_lt (hs.parents id parent rights args ha ((hold ha).symm.trans ho))
  · have hl := hlive hl
    have ho := (hold hl.1).symm.trans ho
    rw [hgrows.confined (hs.parents id parent rights args hl.1 ho)]
    exact hs.spawned id parent rights args hl ho
  · exact Function.update_self ..
  · refine fun token hseen => ⟨hseen, fun entry hg hholder => ?_⟩
    exact absurd hholder (hs.current token entry hg).1.ne

/-- The flow is live from now on. -/
theorem register_performed (hs : Consistent strict s) (env : Env) {id : FlowId}
    (hn : Needs c strict k s (.tables (.register id))) :
    Performed strict k s (s.exec env (.tables (.register id))).1 (.tables (.register id))
      (s.exec env (.tables (.register id))).2 := by
  have hdir {id' : FlowId} (h : update s.machine.shared.directory id true id' = true) :
      id' = id ∨ s.machine.shared.directory id' = true := by
    by_cases hid : id' = id
    · exact .inl hid
    · rw [Function.update_of_ne hid] at h
      exact .inr h
  have hgrows : Grows strict s (s.exec env (.tables (.register id))).1 :=
    { @Grows.refl strict s with
      wasLive := fun id' hl => ⟨hl.1, hl.2.imp_left fun hd => by
        show update s.machine.shared.directory id true id' = true
        by_cases hid : id' = id
        · rw [hid, Function.update_self]
        · rw [Function.update_of_ne hid, hd]⟩ }
  refine ⟨{ hs with
    current := fun token entry hg => ?_
    directory := fun id' hd => ?_
    spawned := fun id' parent rights args hl ho => ?_ }, hgrows, hn.1, .inl ?_⟩
  · obtain ⟨ha, hc⟩ := hs.current token entry hg
    exact ⟨ha, hc.mono hgrows⟩
  · rcases hdir hd with rfl | hd
    · exact hn.1
    · exact hs.directory id' hd
  · rcases hl.2 with hd | he
    · rcases hdir hd with rfl | hd
      · exact (hn.2 parent rights args ho).2
      · exact hs.spawned id' parent rights args ⟨hl.1, .inl hd⟩ ho
    · exact hs.spawned id' parent rights args ⟨hl.1, .inr he⟩ ho
  · exact Function.update_self ..

/-- An operation that touches none of the facts, and tells nothing. -/
theorem Agrees.performed (h : Agrees s s') (hs : Consistent strict s) {op : Op} {r : op.Result}
    (htells : Tells strict k s' op r) : Performed strict k s s' op r :=
  ⟨h.consistent hs, h.grows, htells⟩

/-- **Operations.** An operation whose needs are met keeps what the table says, lets the facts
grow, and tells the truth. -/
theorem exec_performed (hs : Consistent strict s) (env : Env)
    (hnew : strict → ∀ id ∈ env.draws, ¬s.Seen id) {op : Op} (hn : Needs c strict k s op)
    (hself : strict → ∀ target, op = .live target → s.machine.shared.directory target = true →
      ∀ flow ∈ k.flow, s.Confined flow → target = flow) :
    Performed strict k s (s.exec env op).1 op (s.exec env op).2 := by
  cases op with
  | tables op =>
    cases op with
    | caps op => exact caps_performed hs env hnew hn
    | nextFlowId => exact hn.elim
    | register id => exact register_performed hs env hn
    | _ =>
      refine Agrees.performed ?_ hs trivial
      exact ⟨rfl, rfl, rfl, rfl, rfl, rfl, rfl, .rfl, rfl, rfl, fun _ h => h, fun _ h => h⟩
  | allocate origin => exact allocate_performed hs env hn
  | place id process => exact (Agrees.setProcess s _ _).performed hs trivial
  | target name => exact (Agrees.refl s).performed hs trivial
  | live id =>
    refine (Agrees.refl s).performed hs fun hlive => ⟨⟨hs.directory id hlive, .inl hlive⟩, ?_⟩
    exact fun hstrict flow hflow hc => hself hstrict id rfl hlive flow hflow hc
  | checkSend => exact (Agrees.refl s).performed hs trivial
  | alloc flow bytes =>
    simp only [State.exec]
    split
    · exact (Agrees.setProcess s _ _).performed hs trivial
    · exact (Agrees.refl s).performed hs trivial
  | free flow bytes => exact (Agrees.setProcess s _ _).performed hs trivial
  | freshRequestId flow => exact (Agrees.setProcess s _ _).performed hs trivial
  | hostRequestId =>
    refine Agrees.performed ?_ hs trivial
    exact ⟨rfl, rfl, rfl, rfl, rfl, rfl, rfl, .rfl, rfl, rfl, fun _ h => h, fun _ h => h⟩
  | topUpCpu target extra =>
    exact Agrees.performed (.topUp s target fun q => q.topUpCpu extra) hs trivial
  | topUpMem target extra =>
    exact Agrees.performed (.topUp s target fun q => q.topUpMem extra) hs trivial

end Worker

end Byteflow
