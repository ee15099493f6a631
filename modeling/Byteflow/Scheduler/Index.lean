import Byteflow.Scheduler.Flow
import Byteflow.Scheduler.Mailbox.Basic
import Byteflow.Foundations.Reverse
import Byteflow.Foundations.Schedule

/-!
# Shared tables of the runtime

The indexes behind one mutex each: askers by target (`AskWaitIndex` in `finalize.rs`), monitors
(`monitor.rs`), links (`link.rs`) and what a deadline of the timer wheel does (`timer.rs`). The
kill signals and the waiting-send index are plain maps.
-/

namespace Byteflow

open Function (update)

/-! ## Askers parked on a reply -/

/-- Askers parked on their own mailbox waiting for a reply. -/
structure AskWaitIndex where
  byAsker : FlowId → Option FlowId
  byTarget : FlowId → Option (List FlowId)
  requestIds : FlowId → Option UInt64

namespace AskWaitIndex

def new : AskWaitIndex := ⟨fun _ => none, fun _ => none, fun _ => none⟩

/-- The askers that `byTarget` has for a target. -/
def askersOf (g : AskWaitIndex) (target : FlowId) : List FlowId := Reverse.keys g.byTarget target

/-- Enter an asker. An asker with an `Ask` in flight is refused (`DuplicateAsk`). -/
def insert (g : AskWaitIndex) (asker target : FlowId) (requestId : UInt64) :
    AskWaitIndex × Bool :=
  if (g.requestIds asker).isSome then (g, false)
  else
    ({ byAsker := update g.byAsker asker (some target)
       byTarget := update g.byTarget target (some ((g.askersOf target).insert asker))
       requestIds := update g.requestIds asker (some requestId) }, true)

/-- No caller reads the target that the source returns. -/
def removeAsker (g : AskWaitIndex) (asker : FlowId) : AskWaitIndex :=
  let g' := { g with requestIds := update g.requestIds asker none }
  match g.byAsker asker with
  | none => g'
  | some target =>
    { g' with
      byAsker := update g.byAsker asker none
      byTarget := Reverse.remove g.byTarget target asker }

/-- Remove and return the askers of a target. -/
def takeWaitersOf (g : AskWaitIndex) (target : FlowId) : AskWaitIndex × List FlowId :=
  match g.byTarget target with
  | none => (g, [])
  | some set =>
    ({ byAsker := fun a => if a ∈ set then none else g.byAsker a
       byTarget := update g.byTarget target none
       requestIds := fun a => if a ∈ set then none else g.requestIds a }, set)

section

variable (g : AskWaitIndex) (target : FlowId)

@[simp] theorem takeWaitersOf_snd : (g.takeWaitersOf target).2 = g.askersOf target := by
  unfold takeWaitersOf askersOf Reverse.keys
  cases g.byTarget target <;> rfl

theorem takeWaitersOf_byTarget :
    (g.takeWaitersOf target).1.byTarget = update g.byTarget target none := by
  unfold takeWaitersOf
  cases hset : g.byTarget target with
  | none => exact (Function.update_eq_self_iff.mpr hset.symm).symm
  | some set => rfl

theorem takeWaitersOf_byAsker (a : FlowId) : (g.takeWaitersOf target).1.byAsker a =
    if a ∈ g.askersOf target then none else g.byAsker a := by
  unfold takeWaitersOf askersOf Reverse.keys
  cases g.byTarget target <;> simp

theorem takeWaitersOf_requestIds (a : FlowId) : (g.takeWaitersOf target).1.requestIds a =
    if a ∈ g.askersOf target then none else g.requestIds a := by
  unfold takeWaitersOf askersOf Reverse.keys
  cases g.byTarget target <;> simp

end

/-- An asker of a target has that target and a request in flight. -/
def Coherent (g : AskWaitIndex) : Prop :=
  ∀ asker target, asker ∈ g.askersOf target →
    g.byAsker asker = some target ∧ (g.requestIds asker).isSome = true

theorem coherent_new : new.Coherent := fun _ _ h => by cases h

/-- An asker that was entered before, or is entered now. -/
theorem mem_insert {g : AskWaitIndex} {asker target : FlowId} {requestId : UInt64} {a t : FlowId} :
    a ∈ (g.insert asker target requestId).1.askersOf t ↔
      a ∈ g.askersOf t ∨
        ((g.insert asker target requestId).2 = true ∧ a = asker ∧ t = target) := by
  unfold insert
  split_ifs with h
  · simp
  · unfold askersOf
    rw [Reverse.keys_update]
    by_cases ht : t = target
    · subst ht
      simp [List.mem_insert_iff, or_comm]
    · simp [ht]

theorem mem_removeAsker {g : AskWaitIndex} {asker a t : FlowId} (ha : a ≠ asker) :
    a ∈ (g.removeAsker asker).askersOf t ↔ a ∈ g.askersOf t := by
  unfold removeAsker
  cases g.byAsker asker with
  | none => rfl
  | some target =>
    unfold askersOf
    rw [Reverse.keys_remove]
    by_cases ht : t = target
    · subst ht
      simp [ha]
    · simp [ht]

theorem mem_of_mem_removeAsker {g : AskWaitIndex} {asker a t : FlowId}
    (ha : a ∈ (g.removeAsker asker).askersOf t) : a ∈ g.askersOf t := by
  unfold removeAsker at ha
  cases hasker : g.byAsker asker with
  | none => simpa [hasker, askersOf] using ha
  | some target =>
    simp only [hasker, askersOf, Reverse.keys_remove] at ha
    split_ifs at ha with ht
    · exact ht ▸ List.mem_of_mem_filter ha
    · exact ha

theorem mem_takeWaitersOf {g : AskWaitIndex} {target a t : FlowId} :
    a ∈ (g.takeWaitersOf target).1.askersOf t ↔ t ≠ target ∧ a ∈ g.askersOf t := by
  unfold askersOf
  rw [takeWaitersOf_byTarget, Reverse.keys_update]
  by_cases ht : t = target <;> simp [ht]

namespace Coherent

variable {g : AskWaitIndex}

theorem insert (h : g.Coherent) (asker target : FlowId) (requestId : UInt64) :
    (g.insert asker target requestId).1.Coherent := by
  intro a t ha
  rw [mem_insert] at ha
  unfold AskWaitIndex.insert at *
  split_ifs at ha ⊢ with hdup
  · exact h a t (ha.resolve_right nofun)
  · by_cases hasker : a = asker
    · subst hasker
      rcases ha with ha | ⟨-, -, rfl⟩
      · exact absurd (h a t ha).2 hdup
      · simp
    · rcases ha with ha | ⟨-, ha, -⟩
      · simpa [Function.update_of_ne hasker] using h a t ha
      · exact absurd ha hasker

/-- An asker that is removed is an asker of no target. -/
theorem not_mem_removeAsker (h : g.Coherent) (asker target : FlowId) :
    asker ∉ (g.removeAsker asker).askersOf target := by
  intro ha
  unfold removeAsker at ha
  cases hasker : g.byAsker asker with
  | none =>
    rw [hasker] at ha
    rw [(h asker target ha).1] at hasker
    cases hasker
  | some t =>
    rw [hasker] at ha
    unfold askersOf at ha
    rw [Reverse.keys_remove] at ha
    by_cases ht : target = t
    · simp [ht] at ha
    · rw [if_neg ht] at ha
      rw [(h asker target ha).1] at hasker
      exact ht (Option.some.inj hasker)

theorem removeAsker (h : g.Coherent) (asker : FlowId) : (g.removeAsker asker).Coherent := by
  intro a t ha
  have hne : a ≠ asker := by
    rintro rfl
    exact h.not_mem_removeAsker a t ha
  have hbefore := h a t ((mem_removeAsker hne).mp ha)
  unfold AskWaitIndex.removeAsker
  cases g.byAsker asker with
  | none => simpa [Function.update_of_ne hne] using hbefore
  | some target => simpa [Function.update_of_ne hne] using hbefore

theorem takeWaitersOf (h : g.Coherent) (target : FlowId) : (g.takeWaitersOf target).1.Coherent := by
  intro a t ha
  obtain ⟨hne, ha⟩ := mem_takeWaitersOf.mp ha
  have hbefore := h a t ha
  have hout : a ∉ g.askersOf target := by
    intro hmem
    rw [(h a target hmem).1] at hbefore
    exact hne (Option.some.inj hbefore.1).symm
  rwa [takeWaitersOf_byAsker, takeWaitersOf_requestIds, if_neg hout, if_neg hout]

end Coherent

/-- An asker that has a target is among its askers, and one with a request in flight has a
target. -/
structure Complete (g : AskWaitIndex) : Prop where
  listed : ∀ asker target, g.byAsker asker = some target → asker ∈ g.askersOf target
  asking : ∀ asker, (g.requestIds asker).isSome = true → (g.byAsker asker).isSome = true

namespace Complete

variable {g : AskWaitIndex}

theorem new : AskWaitIndex.new.Complete where
  listed := nofun
  asking := nofun

theorem insert (h : g.Complete) (asker target : FlowId) (requestId : UInt64) :
    (g.insert asker target requestId).1.Complete := by
  refine ⟨fun a t ha => ?_, fun a ha => ?_⟩
  · rw [mem_insert]
    unfold AskWaitIndex.insert at *
    split_ifs at ha ⊢
    · exact .inl (h.listed a t ha)
    · by_cases hasker : a = asker
      · subst hasker
        simp only [Function.update_self, Option.some.injEq] at ha
        exact .inr ⟨rfl, rfl, ha.symm⟩
      · simp only [Function.update_of_ne hasker] at ha
        exact .inl (h.listed a t ha)
  · unfold AskWaitIndex.insert at *
    split_ifs at ha ⊢
    · exact h.asking a ha
    · by_cases hasker : a = asker
      · subst hasker
        simp
      · simp only [Function.update_of_ne hasker] at ha ⊢
        exact h.asking a ha

theorem removeAsker (h : g.Complete) (asker : FlowId) : (g.removeAsker asker).Complete := by
  -- nothing is left of the asker, and all of the others
  have hgone : (g.removeAsker asker).byAsker asker = none ∧
      (g.removeAsker asker).requestIds asker = none := by
    unfold AskWaitIndex.removeAsker
    cases hasker : g.byAsker asker <;> simp [hasker]
  have hkept : ∀ a ≠ asker, (g.removeAsker asker).byAsker a = g.byAsker a ∧
      (g.removeAsker asker).requestIds a = g.requestIds a := by
    intro a ha
    unfold AskWaitIndex.removeAsker
    cases g.byAsker asker <;> simp [Function.update_of_ne ha]
  refine ⟨fun a t ha => ?_, fun a ha => ?_⟩
  · by_cases hasker : a = asker
    · subst hasker
      rw [hgone.1] at ha
      cases ha
    · rw [(hkept a hasker).1] at ha
      exact (mem_removeAsker hasker).mpr (h.listed a t ha)
  · by_cases hasker : a = asker
    · subst hasker
      rw [hgone.2] at ha
      cases ha
    · rw [(hkept a hasker).2] at ha
      rw [(hkept a hasker).1]
      exact h.asking a ha

theorem takeWaitersOf (h : g.Complete) (target : FlowId) :
    (g.takeWaitersOf target).1.Complete := by
  refine ⟨fun a t ha => ?_, fun a ha => ?_⟩
  · rw [takeWaitersOf_byAsker] at ha
    split_ifs at ha with hmem
    have hlisted := h.listed a t ha
    exact mem_takeWaitersOf.mpr ⟨fun heq => hmem (heq ▸ hlisted), hlisted⟩
  · rw [takeWaitersOf_requestIds] at ha
    rw [takeWaitersOf_byAsker]
    split_ifs at ha ⊢ with hmem
    · cases ha
    · exact h.asking a ha

end Complete

/-! ### Any sequence of calls -/

/-- A call that changes the index. -/
inductive Call
  | insert (asker target : FlowId) (requestId : UInt64)
  | removeAsker (asker : FlowId)
  | takeWaitersOf (target : FlowId)

/-- The index after a call. -/
def apply (g : AskWaitIndex) : Call → AskWaitIndex
  | .insert asker target requestId => (g.insert asker target requestId).1
  | .removeAsker asker => g.removeAsker asker
  | .takeWaitersOf target => (g.takeWaitersOf target).1

/-- The index after a sequence of calls on a new one. -/
def calls (cs : List Call) : AskWaitIndex := Schedule.run apply new cs

/-- The three maps agree, and no set of askers is empty or has an asker twice. -/
structure Agrees (g : AskWaitIndex) : Prop where
  coherent : g.Coherent
  complete : g.Complete
  tidy : Reverse.Tidy g.byTarget

namespace Agrees

variable {g : AskWaitIndex}

theorem new : AskWaitIndex.new.Agrees := ⟨coherent_new, .new, .empty⟩

theorem lists (h : g.Agrees) : Reverse.Lists g.byAsker g.byTarget := fun asker target =>
  ⟨fun ha => (h.coherent asker target ha).1, h.complete.listed asker target⟩

/-- An asker has a target exactly if it has a request in flight. -/
theorem isSome_iff (h : g.Agrees) (asker : FlowId) :
    (g.byAsker asker).isSome = true ↔ (g.requestIds asker).isSome = true := by
  refine ⟨fun ha => ?_, h.complete.asking asker⟩
  obtain ⟨target, ha⟩ := Option.isSome_iff_exists.mp ha
  exact (h.coherent asker target ((h.lists asker target).mpr ha)).2

theorem insert (h : g.Agrees) (asker target : FlowId) (requestId : UInt64) :
    (g.insert asker target requestId).1.Agrees := by
  refine ⟨h.coherent.insert asker target requestId, h.complete.insert asker target requestId, ?_⟩
  unfold AskWaitIndex.insert
  split_ifs with hdup
  · exact h.tidy
  · have hfree : g.byAsker asker = none := by
      rwa [← h.isSome_iff, Bool.not_eq_true, Option.isSome_eq_false_iff, Option.isNone_iff_eq_none]
        at hdup
    have hnew : asker ∉ g.askersOf target := h.lists.notMem hfree target
    exact h.tidy.enter hnew (List.insert_of_not_mem hnew ▸ .refl _)

theorem removeAsker (h : g.Agrees) (asker : FlowId) : (g.removeAsker asker).Agrees := by
  refine ⟨h.coherent.removeAsker asker, h.complete.removeAsker asker, ?_⟩
  unfold AskWaitIndex.removeAsker
  cases g.byAsker asker with
  | none => exact h.tidy
  | some target => exact h.tidy.leave target asker

theorem takeWaitersOf (h : g.Agrees) (target : FlowId) : (g.takeWaitersOf target).1.Agrees := by
  refine ⟨h.coherent.takeWaitersOf target, h.complete.takeWaitersOf target, ?_⟩
  rw [takeWaitersOf_byTarget]
  exact h.tidy.sweep target

theorem apply (h : g.Agrees) (c : Call) : (g.apply c).Agrees := by
  cases c with
  | insert asker target requestId => exact h.insert asker target requestId
  | removeAsker asker => exact h.removeAsker asker
  | takeWaitersOf target => exact h.takeWaitersOf target

theorem calls (cs : List Call) : (calls cs).Agrees :=
  Schedule.invariant (fun _ c h => h.apply c) new cs

end Agrees

/-- **The three maps of the index agree** after any sequence of calls. An asker that is present is
refused and changes nothing, and the askers of a target are taken out, each once, and no other. -/
theorem waits_agree (cs : List Call) :
    (∀ asker, ((calls cs).byAsker asker).isSome = true ↔
      ((calls cs).requestIds asker).isSome = true) ∧
    (∀ asker target, (calls cs).byAsker asker = some target ↔
      ∃ set, (calls cs).byTarget target = some set ∧ asker ∈ set) ∧
    (∀ target set, (calls cs).byTarget target = some set →
      set ≠ [] ∧ ∀ asker ∈ set, set.count asker = 1) ∧
    (∀ asker target requestId, ((calls cs).requestIds asker).isSome = true →
      (calls cs).insert asker target requestId = (calls cs, false)) ∧
    ∀ target, ((calls cs).takeWaitersOf target).2.Nodup ∧
      (∀ other ≠ target,
        ((calls cs).takeWaitersOf target).1.byTarget other = (calls cs).byTarget other) ∧
      ∀ asker, (asker ∈ ((calls cs).takeWaitersOf target).2 ↔
          (calls cs).byAsker asker = some target) ∧
        ((calls cs).byAsker asker = some target →
          ((calls cs).takeWaitersOf target).1.byAsker asker = none ∧
          ((calls cs).takeWaitersOf target).1.requestIds asker = none) ∧
        ((calls cs).byAsker asker ≠ some target →
          ((calls cs).takeWaitersOf target).1.byAsker asker = (calls cs).byAsker asker ∧
          ((calls cs).takeWaitersOf target).1.requestIds asker = (calls cs).requestIds asker) := by
  have h := Agrees.calls cs
  refine ⟨h.isSome_iff, fun asker target => h.lists.owner_iff, fun target set => h.tidy.count,
    fun asker target requestId hdup => if_pos hdup, fun target => ?_⟩
  simp only [takeWaitersOf_snd, takeWaitersOf_byTarget, takeWaitersOf_byAsker,
    takeWaitersOf_requestIds]
  refine ⟨h.tidy.nodup target, fun other hother => Function.update_of_ne hother _ _,
    fun asker => ⟨h.lists asker target, fun ha => ?_, fun ha => ?_⟩⟩
  · have hmem : asker ∈ (calls cs).askersOf target := (h.lists asker target).mpr ha
    exact ⟨if_pos hmem, if_pos hmem⟩
  · have hmem : asker ∉ (calls cs).askersOf target :=
      fun hmem => ha ((h.lists asker target).mp hmem)
    exact ⟨if_neg hmem, if_neg hmem⟩

end AskWaitIndex

/-! ## Monitors and links -/

/-- Why a relation was refused. -/
inductive LifecycleError
  | invalidMonitor
  | invalidLink
  | notOwner
  | alreadyRegistered
  | alreadyLinked
  | emptyName
  | selfRelation
  deriving DecidableEq

/-- `Display`. -/
def LifecycleError.message : LifecycleError → String
  | invalidMonitor => "unknown monitor"
  | invalidLink => "unknown link"
  | notOwner => "caller does not own this relation"
  | alreadyRegistered => "registry name already taken"
  | alreadyLinked => "flows are already linked"
  | emptyName => "registry name must be non-empty"
  | selfRelation => "cannot link or monitor a flow to itself"

structure MonitorEntry where
  monitor : UInt64
  owner : FlowId
  target : FlowId
  deriving DecidableEq

/-- One monitor firing after the target left the runtime. -/
structure DownEvent where
  monitor : UInt64
  owner : FlowId
  target : FlowId
  reason : FlowExitReason
  deriving DecidableEq

/-- The monitors, in the order of their references. -/
structure MonitorTable where
  nextMonitor : UInt64
  monitors : List MonitorEntry

namespace MonitorTable

def new : MonitorTable := ⟨1, []⟩

/-- An entry with the reference of a new monitor would be overwritten. -/
def create (m : MonitorTable) (owner target : FlowId) : MonitorTable × UInt64 :=
  (⟨m.nextMonitor + 1,
    m.monitors.filter (·.monitor ≠ m.nextMonitor) ++ [⟨m.nextMonitor, owner, target⟩]⟩,
    m.nextMonitor)

/-- Remove `monitor` only if `owner` still owns it. -/
def removeOwned (m : MonitorTable) (owner : FlowId) (monitor : UInt64) :
    MonitorTable × Except LifecycleError Unit :=
  match m.monitors.find? (·.monitor = monitor) with
  | some entry =>
    if entry.owner = owner then
      ({ m with monitors := m.monitors.filter (·.monitor ≠ monitor) }, .ok ())
    else (m, .error .notOwner)
  | none => (m, .error .invalidMonitor)

/-- Drop every monitor whose owner exited. -/
def removeOwnedBy (m : MonitorTable) (owner : FlowId) : MonitorTable :=
  { m with monitors := m.monitors.filter (·.owner ≠ owner) }

/-- The `DOWN` events for the monitors that watch `target`, which are dropped. -/
def notifyTargetExit (m : MonitorTable) (target : FlowId) (reason : FlowExitReason) :
    MonitorTable × List DownEvent :=
  ({ m with monitors := m.monitors.filter (·.target ≠ target) },
    (m.monitors.filter (·.target = target)).map fun e => ⟨e.monitor, e.owner, target, reason⟩)

variable {m : MonitorTable}

theorem mem_create {owner target : FlowId} {e : MonitorEntry} :
    e ∈ (m.create owner target).1.monitors ↔
      (e ∈ m.monitors ∧ e.monitor ≠ m.nextMonitor) ∨ e = ⟨m.nextMonitor, owner, target⟩ := by
  simp [create]

/-- The entry that `remove_owned` removes. -/
def owned (m : MonitorTable) (owner : FlowId) (monitor : UInt64) : Option MonitorEntry :=
  (m.monitors.find? (·.monitor = monitor)).filter (·.owner = owner)

/-- The two ways of `remove_owned`: the entry is removed, or the table stays. -/
theorem removeOwned_cases (m : MonitorTable) (owner : FlowId) (monitor : UInt64) :
    (∃ e ∈ m.monitors, e.monitor = monitor ∧ e.owner = owner ∧ m.owned owner monitor = some e ∧
      (m.removeOwned owner monitor).1.monitors = m.monitors.filter (·.monitor ≠ monitor)) ∨
    (m.owned owner monitor = none ∧ (m.removeOwned owner monitor).1.monitors = m.monitors) := by
  unfold owned removeOwned
  cases hfind : m.monitors.find? (·.monitor = monitor) with
  | none => exact .inr ⟨rfl, rfl⟩
  | some e =>
    by_cases howner : e.owner = owner
    · refine .inl ⟨e, List.mem_of_find?_eq_some hfind, ?_, howner, ?_, ?_⟩
      · simpa using List.find?_some hfind
      · simp [howner]
      · simp [howner]
    · exact .inr ⟨by simp [howner], by simp [howner]⟩

theorem mem_removeOwned {owner : FlowId} {monitor : UInt64} {e : MonitorEntry}
    (h : e ∈ (m.removeOwned owner monitor).1.monitors) : e ∈ m.monitors := by
  rcases m.removeOwned_cases owner monitor with ⟨-, -, -, -, -, he⟩ | ⟨-, he⟩
  · exact List.mem_of_mem_filter (he ▸ h)
  · exact he ▸ h

@[simp] theorem removeOwned_nextMonitor (owner : FlowId) (monitor : UInt64) :
    (m.removeOwned owner monitor).1.nextMonitor = m.nextMonitor := by
  unfold removeOwned
  split
  · split_ifs <;> rfl
  · rfl

end MonitorTable

structure Link where
  id : UInt64
  a : FlowId
  b : FlowId
  deriving DecidableEq

/-- Bidirectional flow links. -/
structure LinkTable where
  nextLink : UInt64
  links : List Link

namespace LinkTable

def new : LinkTable := ⟨1, []⟩

def link (l : LinkTable) (a b : FlowId) : LinkTable × Except LifecycleError UInt64 :=
  if a = b then (l, .error .selfRelation)
  else if l.links.any fun k => (k.a = a ∧ k.b = b) ∨ (k.a = b ∧ k.b = a) then
    (l, .error .alreadyLinked)
  else
    (⟨l.nextLink + 1, l.links.filter (·.id ≠ l.nextLink) ++ [⟨l.nextLink, a, b⟩]⟩, .ok l.nextLink)

/-- Drop a link of which `owner` is an end. -/
def unlinkOwned (l : LinkTable) (owner : FlowId) (id : UInt64) :
    LinkTable × Except LifecycleError Unit :=
  match l.links.find? (·.id = id) with
  | some k =>
    if k.a = owner ∨ k.b = owner then
      ({ l with links := l.links.filter (·.id ≠ id) }, .ok ())
    else (l, .error .notOwner)
  | none => (l, .error .invalidLink)

/-- The peers of `target`; its links are dropped. -/
def removeLinksOf (l : LinkTable) (target : FlowId) : LinkTable × List FlowId :=
  ({ l with links := l.links.filter fun k => k.a ≠ target ∧ k.b ≠ target },
    l.links.filterMap fun k =>
      if k.a = target then some k.b else if k.b = target then some k.a else none)

/-- The two ways of `link`: a link is made under the next number, or the table stays. -/
theorem link_cases (l : LinkTable) (a b : FlowId) :
    (a ≠ b ∧ (l.link a b).2 = .ok l.nextLink ∧
      (l.link a b).1.links = l.links.filter (·.id ≠ l.nextLink) ++ [⟨l.nextLink, a, b⟩]) ∨
    ((∃ e, (l.link a b).2 = .error e) ∧ (l.link a b).1 = l) := by
  unfold link
  split_ifs with hself
  · exact .inr ⟨⟨_, rfl⟩, rfl⟩
  · exact .inr ⟨⟨_, rfl⟩, rfl⟩
  · exact .inl ⟨hself, rfl, rfl⟩

/-- The link that `unlink_owned` removes. -/
def owned (l : LinkTable) (owner : FlowId) (id : UInt64) : Option Link :=
  (l.links.find? (·.id = id)).filter fun k => k.a = owner ∨ k.b = owner

/-- The two ways of `unlink_owned`: the link is removed, or the table stays. -/
theorem unlinkOwned_cases (l : LinkTable) (owner : FlowId) (id : UInt64) :
    (∃ k ∈ l.links, k.id = id ∧ l.owned owner id = some k ∧
      (l.unlinkOwned owner id).1.links = l.links.filter (·.id ≠ id)) ∨
    (l.owned owner id = none ∧ (l.unlinkOwned owner id).1 = l) := by
  unfold owned unlinkOwned
  cases hfind : l.links.find? (·.id = id) with
  | none => exact .inr ⟨rfl, rfl⟩
  | some k =>
    by_cases howner : k.a = owner ∨ k.b = owner
    · refine .inl ⟨k, List.mem_of_find?_eq_some hfind, ?_, ?_, ?_⟩
      · simpa using List.find?_some hfind
      · simp [howner]
      · simp [howner]
    · exact .inr ⟨by simpa using not_or.mp howner, by simp [howner]⟩

theorem mem_removeLinksOf {l : LinkTable} {target : FlowId} {k : Link} :
    k ∈ (l.removeLinksOf target).1.links ↔ k ∈ l.links ∧ k.a ≠ target ∧ k.b ≠ target := by
  simp [removeLinksOf]

/-- The other end of a link of the target is among its peers. -/
theorem mem_peers {l : LinkTable} {k : Link} (h : k ∈ l.links) :
    k.b ∈ (l.removeLinksOf k.a).2 ∧ (k.a ≠ k.b → k.a ∈ (l.removeLinksOf k.b).2) := by
  constructor
  · exact List.mem_filterMap.mpr ⟨k, h, by simp⟩
  · intro hne
    exact List.mem_filterMap.mpr ⟨k, h, by simp [hne]⟩

end LinkTable

/-! ## Deadlines -/

/-- What a deadline does: requeue a sleeping flow, or end one wait of a receiver. -/
inductive TimerPayload
  | wakeSleeper (flow : Flow Hop)
  | wakeReceiver (pid : FlowId) (epoch : WaitEpoch)
  deriving DecidableEq

end Byteflow
