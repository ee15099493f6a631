import Byteflow.Scheduler.Index

/-!
# The name registry

A name stands for the capability it was registered with and for the flow that the capability
addresses (`registry.rs`). The names of a flow are swept when it exits.
-/

namespace Byteflow

open Function (update)

structure RegistryEntry where
  cap : CapId
  flow : FlowId
  deriving DecidableEq

structure Registry where
  byName : String → Option RegistryEntry
  byFlow : FlowId → Option (List String)

namespace Registry

def new : Registry := ⟨fun _ => none, fun _ => none⟩

/-- The names that `byFlow` has for a flow. -/
def namesOf (r : Registry) (flow : FlowId) : List String := Reverse.keys r.byFlow flow

def register (r : Registry) (name : String) (cap : CapId) (flow : FlowId) :
    Registry × Except LifecycleError Unit :=
  if name = "" then (r, .error .emptyName)
  else if (r.byName name).isSome then (r, .error .alreadyRegistered)
  else
    ({ byName := update r.byName name (some ⟨cap, flow⟩)
       byFlow := update r.byFlow flow (some (r.namesOf flow ++ [name])) }, .ok ())

def whereis (r : Registry) (name : String) : Option CapId := (r.byName name).map (·.cap)

def target (r : Registry) (name : String) : Option FlowId := (r.byName name).map (·.flow)

def unregister (r : Registry) (name : String) : Registry × Bool :=
  match r.byName name with
  | some entry =>
    ({ byName := update r.byName name none
       byFlow := Reverse.remove r.byFlow entry.flow name }, true)
  | none => (r, false)

/-- Drop every name that pointed at `flow`. -/
def unregisterFlow (r : Registry) (flow : FlowId) : Registry :=
  match r.byFlow flow with
  | some names =>
    { byName := fun name => if name ∈ names then none else r.byName name
      byFlow := update r.byFlow flow none }
  | none => r

variable {r : Registry}

/-- The two ways of `register`: a free name is bound, or the registry stays. -/
theorem register_cases (r : Registry) (name : String) (cap : CapId) (flow : FlowId) :
    (r.target name = none ∧ (r.register name cap flow).2.isOk = true ∧
      (r.register name cap flow).1.target = update r.target name (some flow) ∧
      (r.register name cap flow).1.byFlow =
        update r.byFlow flow (some (r.namesOf flow ++ [name]))) ∨
    (r.register name cap flow).1 = r := by
  unfold register
  split_ifs with hempty htaken
  · exact .inr rfl
  · exact .inr rfl
  · refine .inl ⟨by simpa [target] using htaken, rfl, ?_, rfl⟩
    funext name'
    by_cases hname : name' = name <;> simp [target, hname]

/-- A name is refused as taken if somebody has it. -/
theorem taken_of_register {name : String} {cap : CapId} {flow : FlowId}
    (h : (r.register name cap flow).2 = .error .alreadyRegistered) :
    ∃ holder, r.target name = some holder := by
  unfold register at h
  split_ifs at h with hempty htaken
  · cases h
  · obtain ⟨entry, he⟩ := Option.isSome_iff_exists.mp htaken
    exact ⟨entry.flow, by rw [target, he]; rfl⟩

theorem target_unregister (r : Registry) (name : String) :
    (r.unregister name).1.target = update r.target name none := by
  unfold unregister
  funext name'
  by_cases hname : name' = name
  · subst hname
    cases he : r.byName name' <;> simp [target, he]
  · cases he : r.byName name <;> simp [target, hname]

theorem unregisterFlow_byName (r : Registry) (flow : FlowId) (name : String) :
    (r.unregisterFlow flow).byName name =
      if name ∈ r.namesOf flow then none else r.byName name := by
  unfold unregisterFlow namesOf Reverse.keys
  cases r.byFlow flow <;> simp

theorem unregisterFlow_byFlow (r : Registry) (flow : FlowId) :
    (r.unregisterFlow flow).byFlow = update r.byFlow flow none := by
  unfold unregisterFlow
  cases hflow : r.byFlow flow with
  | none => exact (Function.update_eq_self_iff.mpr hflow.symm).symm
  | some names => rfl

theorem target_of_unregisterFlow {flow holder : FlowId} {name : String}
    (h : (r.unregisterFlow flow).target name = some holder) : r.target name = some holder := by
  rw [target, unregisterFlow_byName] at h
  split_ifs at h with hname
  · cases h
  · exact h

/-- The names of a flow are those that stand for it. -/
def Coherent (r : Registry) : Prop := Reverse.Lists r.target r.byFlow

namespace Coherent

theorem new : Registry.new.Coherent := Reverse.Lists.empty

theorem register (h : r.Coherent) (name : String) (cap : CapId) (flow : FlowId) :
    (r.register name cap flow).1.Coherent := by
  rcases r.register_cases name cap flow with ⟨hfree, -, htarget, hbyFlow⟩ | hsame
  · unfold Coherent
    rw [htarget, hbyFlow]
    exact h.enter hfree (List.perm_append_singleton _ _)
  · rwa [hsame]

theorem unregister (h : r.Coherent) (name : String) : (r.unregister name).1.Coherent := by
  unfold Coherent
  rw [target_unregister]
  unfold Registry.unregister
  cases he : r.byName name with
  | none =>
    have hfree : r.target name = none := by simp [target, he]
    rwa [Function.update_eq_self_iff.mpr hfree.symm]
  | some entry =>
    have hholder : r.target name = some entry.flow := by simp [target, he]
    exact h.leave hholder

/-- The sweep of a flow drops its names and no other. -/
theorem byName_unregisterFlow (h : r.Coherent) (flow : FlowId) (name : String) :
    (r.unregisterFlow flow).byName name =
      if r.target name = some flow then none else r.byName name := by
  rw [unregisterFlow_byName]
  exact h.ite_mem_keys none (r.byName name)

theorem target_unregisterFlow (h : r.Coherent) (flow : FlowId) (name : String) :
    (r.unregisterFlow flow).target name =
      if r.target name = some flow then none else r.target name := by
  unfold target
  rw [h.byName_unregisterFlow]
  unfold target
  split_ifs <;> rfl

theorem unregisterFlow (h : r.Coherent) (flow : FlowId) : (r.unregisterFlow flow).Coherent := by
  have htarget : (r.unregisterFlow flow).target =
      fun name => if name ∈ Reverse.keys r.byFlow flow then none else r.target name := by
    funext name
    rw [h.target_unregisterFlow, h.ite_mem_keys]
  unfold Coherent
  rw [htarget, unregisterFlow_byFlow]
  exact h.sweep flow

end Coherent

/-! ## Any sequence of calls -/

/-- A call that changes the registry. -/
inductive Call
  | register (name : String) (cap : CapId) (flow : FlowId)
  | unregister (name : String)
  | unregisterFlow (flow : FlowId)

/-- The registry after a call. -/
def apply (r : Registry) : Call → Registry
  | .register name cap flow => (r.register name cap flow).1
  | .unregister name => (r.unregister name).1
  | .unregisterFlow flow => r.unregisterFlow flow

/-- The registry after a sequence of calls on a new one. -/
def calls (cs : List Call) : Registry := Schedule.run apply new cs

/-- The maps of the registry agree, and no list of names is empty or has a name twice. -/
structure Agrees (r : Registry) : Prop where
  coherent : r.Coherent
  tidy : Reverse.Tidy r.byFlow

namespace Agrees

theorem new : Registry.new.Agrees := ⟨.new, .empty⟩

theorem register (h : r.Agrees) (name : String) (cap : CapId) (flow : FlowId) :
    (r.register name cap flow).1.Agrees := by
  refine ⟨h.coherent.register name cap flow, ?_⟩
  rcases r.register_cases name cap flow with ⟨hfree, -, -, hbyFlow⟩ | hsame
  · rw [hbyFlow]
    exact h.tidy.enter (h.coherent.notMem hfree flow) (List.perm_append_singleton _ _)
  · rw [hsame]
    exact h.tidy

theorem unregister (h : r.Agrees) (name : String) : (r.unregister name).1.Agrees := by
  refine ⟨h.coherent.unregister name, ?_⟩
  unfold Registry.unregister
  cases r.byName name with
  | none => exact h.tidy
  | some entry => exact h.tidy.leave entry.flow name

theorem unregisterFlow (h : r.Agrees) (flow : FlowId) : (r.unregisterFlow flow).Agrees := by
  refine ⟨h.coherent.unregisterFlow flow, ?_⟩
  rw [unregisterFlow_byFlow]
  exact h.tidy.sweep flow

theorem apply (h : r.Agrees) (c : Call) : (r.apply c).Agrees := by
  cases c with
  | register name cap flow => exact h.register name cap flow
  | unregister name => exact h.unregister name
  | unregisterFlow flow => exact h.unregisterFlow flow

theorem calls (cs : List Call) : (calls cs).Agrees :=
  Schedule.invariant (fun _ c h => h.apply c) new cs

end Agrees

/-- **The two maps of the registry agree** after any sequence of calls: a name stands for a flow
exactly if the list of the flow has it, and then once, and there are no empty lists. A name that
is refused changes nothing, and the sweep of a flow drops its names and no other. -/
theorem maps_agree (cs : List Call) :
    (∀ name flow, (calls cs).target name = some flow ↔
      ∃ names, (calls cs).byFlow flow = some names ∧ name ∈ names) ∧
    (∀ flow names, (calls cs).byFlow flow = some names →
      names ≠ [] ∧ ∀ name ∈ names, names.count name = 1) ∧
    (∀ name cap flow e, ((calls cs).register name cap flow).2 = .error e →
      ((calls cs).register name cap flow).1 = calls cs) ∧
    ∀ flow name, ((calls cs).unregisterFlow flow).target name ≠ some flow ∧
      ((calls cs).target name ≠ some flow →
        ((calls cs).unregisterFlow flow).byName name = (calls cs).byName name) := by
  obtain ⟨h, htidy⟩ := Agrees.calls cs
  refine ⟨fun name flow => h.owner_iff, fun flow names => htidy.count, ?_, fun flow name => ?_⟩
  · intro name cap flow e he
    rcases (calls cs).register_cases name cap flow with ⟨-, hok, -⟩ | hsame
    · rw [he] at hok
      cases hok
    · exact hsame
  · refine ⟨fun hname => ?_, fun hname => ?_⟩
    · rw [h.target_unregisterFlow] at hname
      split_ifs at hname with hflow
      exact hflow hname
    · rw [h.byName_unregisterFlow, if_neg hname]

end Registry

end Byteflow
