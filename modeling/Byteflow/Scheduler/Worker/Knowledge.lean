import Byteflow.Foundations.Learning
import Byteflow.Scheduler.Worker.Inversion

/-!
# What a worker knows

Between two operations of a worker other threads act, so what it learned from the first must stay
true until the second. `Grows` collects the facts that stay: which tokens were given to whom, which
flows were live, which cell and epoch a flow has as long as it has not exited. `Tells` is what the
result of an operation shows, `Needs` what must be known before it.

A run is `strict` if every token that is drawn is new, and if no confined flow finds another one by
its name. What a strict run promises besides is kept apart.
-/

namespace Byteflow

namespace Worker

/-! ## Facts -/

/-- Bytecode spawned the flow without rights and without a token among its arguments. -/
def Origin.Confined : Origin → Prop
  | host => False
  | bytecode _ rights args => rights = CapRights.none ∧ ∀ v ∈ args, v.asCap = none

instance (origin : Origin) : Decidable origin.Confined :=
  match origin with
  | .host => inferInstanceAs (Decidable False)
  | .bytecode .. => inferInstanceAs (Decidable (_ ∧ _))

namespace State

variable (s : State)

/-- The capability table made the token, or found it, with this entry. -/
def Given (id : CapId) (entry : Capability) : Prop := (id, entry) ∈ s.log.given

def Exited (id : FlowId) : Prop := id ∈ s.log.exited

def Allocated (id : FlowId) : Prop := id < s.machine.shared.nextFlowId

def WasLive (id : FlowId) : Prop :=
  s.Allocated id ∧ (s.machine.shared.directory id = true ∨ s.Exited id)

/-- The cell of the flow, unless it has exited. -/
def CellOf (id : FlowId) (cell : CellId) : Prop :=
  s.Exited id ∨ s.caps.flowCells id = some cell

/-- The epoch of the flow, unless it has exited. -/
def EpochOf (id : FlowId) (epoch : UInt64) : Prop :=
  s.Exited id ∨ ∃ cell, s.caps.flowCells id = some cell ∧ s.caps.epoch cell = epoch

/-- The record is as old as what it addresses, unless that has exited. -/
def Current (cap : Cap) : Prop :=
  match cap.target with
  | .flow id => s.WasLive id ∧ s.EpochOf id cap.epoch
  | _ => cap.epoch = 0

/-- The token was drawn, or somebody brought it along. -/
def Seen (id : CapId) : Prop := id ∈ s.caps.drawn ∨ id ∈ s.log.seen

instance (id : CapId) : Decidable (s.Seen id) := inferInstanceAs (Decidable (_ ∨ _))

/-- As a token of the flow, it addresses the flow itself. -/
def Harmless (flow : FlowId) (id : CapId) : Prop :=
  s.Seen id ∧ ∀ entry, s.Given id entry → entry.holder = flow → entry.target = some flow

def Confined (id : FlowId) : Prop := (s.log.origins id).Confined

instance (id : FlowId) : Decidable (s.Confined id) :=
  inferInstanceAs (Decidable (Origin.Confined _))

end State

/-- The facts of the first state hold in the second. -/
structure Grows (strict : Prop) (s s' : State) : Prop where
  given : ∀ id entry, s.Given id entry → s'.Given id entry
  exited : ∀ id, s.Exited id → s'.Exited id
  wasLive : ∀ id, s.WasLive id → s'.WasLive id
  allocated : ∀ id, s.Allocated id → s'.Allocated id
  cellOf : ∀ id cell, s.CellOf id cell → s'.CellOf id cell
  epochOf : ∀ id epoch, s.EpochOf id epoch → s'.EpochOf id epoch
  drawn : ∀ id ∈ s.caps.drawn, id ∈ s'.caps.drawn
  seen : ∀ id ∈ s.log.seen, id ∈ s'.log.seen
  hops : ∀ issue ∈ s.log.hops, issue ∈ s'.log.hops
  origins : ∀ id, s.Allocated id → s'.log.origins id = s.log.origins id
  /-- A token that is given now was not seen before. -/
  fresh : strict → ∀ id entry, s'.Given id entry → s.Given id entry ∨ ¬s.Seen id

variable {c : Config} {strict : Prop} {s s' s'' : State}

theorem Grows.refl (s : State) : Grows strict s s where
  given := fun _ _ h => h
  exited := fun _ h => h
  wasLive := fun _ h => h
  allocated := fun _ h => h
  cellOf := fun _ _ h => h
  epochOf := fun _ _ h => h
  drawn := fun _ h => h
  seen := fun _ h => h
  hops := fun _ h => h
  origins := fun _ _ => rfl
  fresh := fun _ _ _ h => .inl h

theorem Grows.wasSeen (h : Grows strict s s') {id : CapId} (hid : s.Seen id) : s'.Seen id :=
  hid.imp (h.drawn id) (h.seen id)

theorem Grows.trans (h : Grows strict s s') (h' : Grows strict s' s'') : Grows strict s s'' where
  given := fun id entry hg => h'.given id entry (h.given id entry hg)
  exited := fun id he => h'.exited id (h.exited id he)
  wasLive := fun id hl => h'.wasLive id (h.wasLive id hl)
  allocated := fun id ha => h'.allocated id (h.allocated id ha)
  cellOf := fun id cell hc => h'.cellOf id cell (h.cellOf id cell hc)
  epochOf := fun id epoch he => h'.epochOf id epoch (h.epochOf id epoch he)
  drawn := fun id hd => h'.drawn id (h.drawn id hd)
  seen := fun id hs => h'.seen id (h.seen id hs)
  hops := fun issue hi => h'.hops issue (h.hops issue hi)
  origins := fun id ha => (h'.origins id (h.allocated id ha)).trans (h.origins id ha)
  fresh := fun hstrict id entry hg => by
    rcases h'.fresh hstrict id entry hg with hg | hn
    · exact h.fresh hstrict id entry hg
    · exact .inr fun hs => hn (h.wasSeen hs)

instance : IsPreorder State (Grows strict) where
  refl := .refl
  trans := fun _ _ _ => .trans

theorem State.Current.mono {cap : Cap} (hc : s.Current cap) (h : Grows strict s s') :
    s'.Current cap := by
  unfold State.Current at hc ⊢
  split at hc
  · exact ⟨h.wasLive _ hc.1, h.epochOf _ _ hc.2⟩
  · exact hc

theorem State.Harmless.mono {flow : FlowId} {id : CapId} (hid : s.Harmless flow id)
    (h : Grows strict s s') (hstrict : strict) : s'.Harmless flow id := by
  refine ⟨h.wasSeen hid.1, fun entry hg hholder => ?_⟩
  rcases h.fresh hstrict id entry hg with hg | hn
  · exact hid.2 entry hg hholder
  · exact absurd hid.1 hn

/-- Who is confined stays so, and who is not stays free. -/
theorem Grows.confined (h : Grows strict s s') {id : FlowId} (ha : s.Allocated id) :
    s'.Confined id ↔ s.Confined id := by
  unfold State.Confined
  rw [h.origins id ha]

/-! ## Operations -/

/-- On whose behalf a program runs, and the arguments that it may hand to a new flow. -/
structure Context where
  flow : Option FlowId
  args : List Value

/-- What the result of an operation tells. -/
def Tells (strict : Prop) (k : Context) (s : State) : (op : Op) → op.Result → Prop
  | .tables (.caps (.bindFlow flow)), cell => s.CellOf flow cell
  | .tables (.caps (.flowCell flow)), r => ∀ cell, r = some cell → s.CellOf flow cell
  | .tables (.caps (.readEpoch cell)), epoch =>
    (∀ flow, s.CellOf flow cell → s.EpochOf flow epoch) ∧
      (cell = CapTable.schedulerCell → epoch = (0 : UInt64))
  | .tables (.caps (.insert entry)), r => ∀ id, r = .ok id → s.Given id entry
  | .tables (.caps (.mintOrReuse holder target _)), r => ∀ id, r = .ok id →
    ∃ entry, s.Given id entry ∧ entry.holder = holder ∧ entry.target = some target
  | .tables (.caps (.lookup id)), r => ∀ entry, r = some entry →
    s.Given id entry ∧ s.Current entry.cap
  | .tables (.caps (.resolve id holder need)), r => ∀ entry, r = .ok entry →
    s.Given id entry ∧ s.Current entry.cap ∧ entry.holder = holder ∧
      entry.cap.rights.contains need
  | .tables (.register id), _ => s.WasLive id
  | .allocate origin, id => s.Allocated id ∧ s.log.origins id = origin ∧
    ∀ token, s.Seen token → s.Harmless id token
  | .live id, r => r = true → s.WasLive id ∧
    (strict → ∀ flow ∈ k.flow, s.Confined flow → id = flow)
  | _, _ => True

/-- A new token for the same record. Who has no holder in mind may pass on any token. -/
def State.Moved (s : State) (holder : Option FlowId) (recipient : FlowId) (id id' : CapId) :
    Prop :=
  ∃ entry entry', s.Given id entry ∧ (∀ flow ∈ holder, entry.holder = flow) ∧
    s.Given id' entry' ∧ entry'.holder = recipient ∧ entry'.cap.target = entry.cap.target

/-- A spawn argument as the child gets it. -/
def State.GrantedArg (s : State) (parent : Option FlowId) (child : FlowId) (v w : Value) : Prop :=
  v.asCap = none ∧ w = v ∨
    ∃ id id', v = .cap id ∧ w = .cap id' ∧ s.Moved parent child id id'

/-- The VM runs what the runtime was given: a chunk that passed its checks, and its natives. -/
def Image (c : Config) (vm : Vm) : Prop :=
  (vm.natives = c.natives ∨ vm.natives = []) ∧
    (vm.chunk.verifyWith c.trust = .ok () ∨ vm.chunk.constants = [])

/-- A flow box as a spawn builds it. -/
structure Built (c : Config) (strict : Prop) (k : Context) (s : State) (id : FlowId)
    (process : Process) : Prop where
  allocated : s.Allocated id
  confined : s.Confined id → process.authority.rights = CapRights.none ∧
    process.vm.nativeGate.hasNative = false
  image : Image c process.vm
  args : ∃ args, List.Forall₂ (s.GrantedArg k.flow id) k.args args ∧
    ∀ frame ∈ process.vm.frames, ∀ v ∈ frame.registers, v = .unit ∨ v ∈ args
  origin : ∀ parent rights args, s.log.origins id = .bytecode parent rights args → args = k.args
  harmless : strict → ∀ v ∈ k.args ++ process.vm.chunk.constants, ∀ token ∈ v.tokens,
    s.Harmless id token

/-- What must be known before an operation. -/
def Needs (c : Config) (strict : Prop) (k : Context) (s : State) : Op → Prop
  | .tables (.caps (.insert entry)) => s.Allocated entry.holder ∧ s.Current entry.cap
  | .tables (.caps (.mintOrReuse holder target _)) => s.Allocated holder ∧ s.WasLive target
  | .tables (.register id) => s.Allocated id ∧
    ∀ parent rights args, s.log.origins id = .bytecode parent rights args →
      s.Allocated parent ∧ ¬s.Confined parent
  | .tables (.inject id) => s.WasLive id
  -- a worker notes down the origin
  | .tables .nextFlowId => False
  | .allocate (.bytecode parent _ _) => s.Allocated parent
  | .place id process => Built c strict k s id process
  | _ => True

theorem State.Moved.mono {holder : Option FlowId} {recipient : FlowId} {id id' : CapId}
    (hm : s.Moved holder recipient id id') (h : Grows strict s s') :
    s'.Moved holder recipient id id' := by
  obtain ⟨entry, entry', hg, hh, hg', hh', ht⟩ := hm
  exact ⟨entry, entry', h.given _ _ hg, hh, h.given _ _ hg', hh', ht⟩

theorem State.GrantedArg.mono {parent : Option FlowId} {child : FlowId} {v w : Value}
    (hv : s.GrantedArg parent child v w) (h : Grows strict s s') :
    s'.GrantedArg parent child v w := by
  rcases hv with hv | ⟨id, id', hv, hw, hm⟩
  · exact .inl hv
  · exact .inr ⟨id, id', hv, hw, hm.mono h⟩

theorem Built.mono {k : Context} {id : FlowId} {process : Process}
    (hb : Built c strict k s id process) (h : Grows strict s s') :
    Built c strict k s' id process where
  allocated := h.allocated id hb.allocated
  confined := fun hc => hb.confined ((h.confined hb.allocated).mp hc)
  image := hb.image
  args := by
    obtain ⟨args, hargs, hregs⟩ := hb.args
    exact ⟨args, hargs.imp fun _ _ hv => hv.mono h, hregs⟩
  origin := fun parent rights args ho => by
    rw [h.origins id hb.allocated] at ho
    exact hb.origin parent rights args ho
  harmless := fun hs v hv token ht => (hb.harmless hs v hv token ht).mono h hs

/-- What is known stays known. -/
theorem Needs.mono {k : Context} {op : Op} (hn : Needs c strict k s op) (h : Grows strict s s') :
    Needs c strict k s' op := by
  unfold Needs at hn ⊢
  split
  · exact ⟨h.allocated _ hn.1, hn.2.mono h⟩
  · exact ⟨h.allocated _ hn.1, h.wasLive _ hn.2⟩
  · refine ⟨h.allocated _ hn.1, fun parent rights args ho => ?_⟩
    rw [h.origins _ hn.1] at ho
    obtain ⟨ha, hfree⟩ := hn.2 parent rights args ho
    exact ⟨h.allocated _ ha, fun hc => hfree ((h.confined ha).mp hc)⟩
  · exact h.wasLive _ hn
  · exact hn
  · exact h.allocated _ hn
  · exact hn.mono h
  · trivial

end Worker

end Byteflow
