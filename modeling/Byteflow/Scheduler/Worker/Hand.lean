import Byteflow.Scheduler.Worker.Answers
import Byteflow.Vm.Account

/-!
# What a worker has in hand

A program of a worker makes at most one flow, builds it and hands it over, and pays for at most one
hop. `Hand` is what it has in hand in between; only its own operations change it (`Hand.next`), and
each comes at its time (`Hand.Allows`). The hop that an effect ends with is paid for, and nothing
else is (`effect_carries`, `call_carries`).
-/

namespace Byteflow

namespace Worker

/-- A flow that is not handed over yet. -/
inductive Box
  | none
  | allocated (id : FlowId)
  | built (id : FlowId)
  | registered (id : FlowId)

def Box.id : Box → Option FlowId
  | none => .none
  | allocated id => some id
  | built id => some id
  | registered id => some id

/-- A flow that was made, and the bytes that a hop was charged. -/
structure Hand where
  box : Box
  paid : ℕ

namespace Hand

def empty : Hand := ⟨.none, 0⟩

variable (c : Config) (self : Option FlowId)

/-- A flow that has executed nothing, with its first quota. -/
structure New (process : Process) : Prop where
  executed : process.vm.instructionsExecuted = 0
  budget : process.quota.cpuBudget = c.quota.cpuBudget

/-- What must be in hand before an operation. -/
def Allows (h : Hand) : Op → Prop
  | .place id process => h.box = .allocated id ∧ New c process
  | .tables (.register id) => h.box = .built id
  | .tables (.insertQuota id _) => h.box = .registered id
  | .tables (.inject id) => h.box = .registered id
  | .tables .nextFlowId => False
  | .alloc flow _ => self = some flow ∧ h.paid = 0
  | .free flow bytes => self = some flow ∧ h.paid = bytes
  | _ => True

/-- What is in hand after it. -/
def next (h : Hand) : (op : Op) → op.Result → Hand
  | .allocate _, id => { h with box := .allocated id }
  | .place id _, _ => { h with box := .built id }
  | .tables (.register id), _ => { h with box := .registered id }
  | .tables (.inject _), _ => { h with box := .none }
  | .alloc _ bytes, .ok _ => { h with paid := bytes }
  | .free .., _ => { h with paid := 0 }
  | _, _ => h

end Hand

/-- The operation has nothing to do with what is in hand. -/
def Op.Quiet : Op → Prop
  | allocate _ | place .. | alloc .. | free .. => False
  | tables (.caps _) | tables (.shardLen _) | tables .checkSpawn => True
  | tables _ => False
  | _ => True

theorem Op.Quiet.keeps {c : Config} {self : Option FlowId} (h : Hand) (op : Op) (hop : op.Quiet) :
    h.Allows c self op ∧ ∀ r, h.next op r = h := by
  cases op with
  | tables op => cases op <;> first | exact hop.elim | exact ⟨trivial, fun _ => rfl⟩
  | allocate origin => exact hop.elim
  | place id process => exact hop.elim
  | alloc flow bytes => exact hop.elim
  | free flow bytes => exact hop.elim
  | _ => exact ⟨trivial, fun _ => rfl⟩

/-- The code may run with `h` in hand. -/
abbrev Carries {α : Type} (c : Config) (self : Option FlowId) (Q : Hand → Except String α → Prop)
    (h : Hand) (x : Code α) : Prop :=
  Prog.Carries (Hand.Allows c self) Hand.next Q h x.run

variable {c : Config} {self : Option FlowId} {α β : Type} {h : Hand}
  {Q : Hand → Except String α → Prop} {R : Hand → Except String β → Prop}

/-! ## Rules -/

theorem carries_pure {a : α} (hQ : Q h (.ok a)) : Carries c self Q h (pure a) := hQ

theorem carries_throw {e : String} (hQ : Q h (.error e)) : Carries c self Q h (throw e) := hQ

/-- **Sequencing.** -/
theorem Carries.bind {x : Code α} {f : α → Code β} (hx : Carries c self Q h x)
    (hf : ∀ h' a, Q h' (.ok a) → Carries c self R h' (f a))
    (herror : ∀ h' e, Q h' (.error e) → R h' (.error e)) : Carries c self R h (x >>= f) := by
  refine Prog.Carries.bind (Prog.Carries.mono hx fun h' r hr => ?_)
  cases r with
  | ok a => exact hf h' a hr
  | error e => exact herror h' e hr

/-- Quiet code first. -/
theorem carries_quiet {x : Code α} {f : α → Code β} (hx : x.run.All Op.Quiet)
    (hf : ∀ a, Carries c self R h (f a)) (herror : ∀ e, R h (.error e)) :
    Carries c self R h (x >>= f) := by
  have hquiet : Carries c self (fun h' _ => h = h') h x :=
    Prog.Carries.of_all Op.Quiet.keeps hx h
  refine hquiet.bind ?_ ?_
  · rintro _ a rfl
    exact hf a
  · rintro _ e rfl
    exact herror e

/-- A quiet program first, which does not fail. -/
theorem carries_quietLift {p : Prog Op.Result α} {f : α → Code β} (hp : p.All Op.Quiet)
    (hf : ∀ a, Carries c self R h (f a)) : Carries c self R h (ExceptT.lift p >>= f) := by
  refine Prog.Carries.bind (Prog.Carries.bind ?_)
  refine (Prog.Carries.of_all Op.Quiet.keeps hp h).mono ?_
  rintro _ a rfl
  exact hf a

/-- One operation first. -/
theorem carries_perform {op : Op} {f : op.Result → Code β} (hop : h.Allows c self op)
    (hf : ∀ r, Carries c self R (h.next op r) (f r)) : Carries c self R h (perform op >>= f) :=
  Prog.carries_act.mpr ⟨hop, hf⟩

/-! ## Quiet code -/

theorem quiet_orThrow {ε : Type} {message : ε → String} {p : Prog Op.Result (Except ε α)}
    (hp : p.All Op.Quiet) : (orThrow message p).run.All Op.Quiet :=
  Prog.all_bind hp fun r => by cases r <;> trivial

theorem quiet_onCaps (p : Prog CapTable.Op.Result α) : (onCaps p).All Op.Quiet :=
  Prog.All.rename (Prog.all_rename (fun _ => by trivial) p)

theorem quiet_caps (x : CapTable.Code α) : (caps x).run.All Op.Quiet :=
  quiet_orThrow (quiet_onCaps _)

theorem quiet_minted (p : Prog CapTable.Op.Result (Except RuntimeError CapId)) :
    (minted p).run.All Op.Quiet := quiet_orThrow (quiet_onCaps p)

theorem quiet_spawning {x : Spawn.Code α} (hx : x.run.All fun op => (Op.tables op).Quiet) :
    (spawning x).run.All Op.Quiet := quiet_orThrow hx.rename

theorem quiet_perform {op : Op} (hop : op.Quiet) : (perform op).run.All Op.Quiet :=
  ⟨hop, fun _ => by trivial⟩

theorem quiet_pure (a : α) : (pure a : Code α).run.All Op.Quiet := by trivial

theorem quiet_throw (e : String) : (throw e : Code α).run.All Op.Quiet := by trivial

theorem quiet_liftM (r : Except String α) : (liftM r : Code α).run.All Op.Quiet := by
  cases r <;> trivial

/-! ## Spawns -/

/-- Operations on the tables that are quiet. -/
abbrev Still {α : Type} (x : Spawn.Code α) : Prop := x.run.All fun op => (Op.tables op).Quiet

theorem still_perform {op : Spawn.Op} (hop : (Op.tables op).Quiet) : Still (Spawn.perform op) :=
  ⟨hop, fun _ => by trivial⟩

theorem still_checkLimit (config : Spawn.Config) : Still (Spawn.checkLimit config) := by
  have hlen (i n : ℕ) : (Spawn.lenFrom i n).All fun op => (Op.tables op).Quiet := by
    induction i generalizing n with
    | zero => trivial
    | succ i ih => exact ⟨trivial, fun m => ih _⟩
  unfold Spawn.checkLimit
  split_ifs
  · refine Prog.all_run_bind (Prog.all_bind (hlen _ _) fun _ => by trivial) fun current => ?_
    split_ifs <;> trivial
  · trivial

theorem still_authority (config : Spawn.Config) (id : FlowId) (cell : CellId)
    (bytecode : Option Spawn.BytecodeSpawn) : Still (Spawn.authority config id cell bytecode) := by
  cases bytecode with
  | none => exact ⟨trivial, fun _ => by trivial⟩
  | some ctx =>
    refine Prog.all_run_bind (still_perform trivial) fun parentEpoch => ?_
    refine Prog.all_run_bind (still_perform trivial) fun token => ?_
    refine Prog.all_run_bind (still_perform trivial) fun epoch => ?_
    split <;> trivial

theorem still_grantArgs (parent : Option FlowId) (id : FlowId) (args : List Value) :
    Still (Spawn.grantArgs parent id args) :=
  Prog.all_bind (Prog.all_rename (fun _ => by trivial) _) fun r => by cases r <;> trivial

/-- The VM of a new flow has executed nothing. -/
theorem new_of_buildVm {chunk : Chunk} {function : UInt32} {args : List Value} {authority : Cap}
    {cell : CellId} {nativeEpoch : UInt64} {vm : Vm}
    (h : Spawn.buildVm c.toConfig chunk function args authority cell nativeEpoch = .ok vm) :
    Hand.New c ⟨vm, authority, cell⟩ := by
  obtain ⟨vm₀, hvm₀, hquota⟩ := of_bind_ok h
  obtain ⟨frame, _, hvm₀⟩ := of_bind_ok hvm₀
  cases hvm₀
  obtain ⟨hcpu, hexecuted⟩ := Vm.setQuota_cpu hquota
  refine ⟨hexecuted, ?_⟩
  obtain ⟨q, hq, hbudget⟩ := Option.map_eq_some_iff.mp hcpu
  simp only [Process.quota, hq, Option.getD_some]
  exact hbudget

theorem spawnOn_carries (chunk : Chunk) (function : UInt32) (args : List Value)
    (parent : Option FlowId) (bytecode : Option Spawn.BytecodeSpawn) (origin : Origin) :
    Carries c self (fun h' _ => h'.paid = h.paid) h
      (spawnOn c chunk function args parent bytecode origin) := by
  refine carries_quiet (quiet_spawning (still_checkLimit _)) (fun _ => ?_) fun _ => rfl
  refine carries_perform trivial fun id => ?_
  refine carries_quiet (quiet_perform trivial) (fun cell => ?_) fun _ => rfl
  refine carries_quiet (quiet_spawning (still_authority ..)) (fun authority => ?_) fun _ => rfl
  refine carries_quiet (quiet_spawning (still_grantArgs ..)) (fun args => ?_) fun _ => rfl
  refine carries_quiet (quiet_perform trivial) (fun nativeEpoch => ?_) fun _ => rfl
  split
  · exact carries_throw rfl
  · rename_i vm hvm
    refine carries_perform ⟨rfl, new_of_buildVm hvm⟩ fun _ => ?_
    refine carries_perform rfl fun _ => ?_
    refine carries_perform rfl fun _ => ?_
    exact carries_perform rfl fun _ => carries_pure rfl

/-! ## Effects -/

/-- What the hop of an effect costs, once the effect goes on to its delivery. -/
def cost : VmResult → Outcome → ℕ
  | .send _ message, .effect _ (.send ..) => message.memorySize
  | .ask _ _ message _, .effect _ (.ask ..) => message.memorySize
  | _, _ => 0

theorem quiet_resolveRelationCap (id : CapId) (holder : FlowId) (need : CapRights) :
    (resolveRelationCap id holder need).run.All Op.Quiet := by
  refine Prog.all_run_bind (quiet_caps _) fun entry => ?_
  split
  · exact quiet_throw _
  · refine Prog.all_run_bind (quiet_perform trivial) fun r => ?_
    split
    · exact quiet_throw _
    · refine Prog.all_run_bind (quiet_perform trivial) fun epoch => ?_
      exact Prog.all_run_bind (quiet_liftM _) fun _ => quiet_pure _

theorem quiet_authenticate (sender recipient : FlowId) (message : Message) :
    (authenticateOutgoingMessage sender recipient message).run.All Op.Quiet := by
  have hrest (requestId : UInt64) : (do
      let payload ← caps (CapTable.reissueCapsInValue sender recipient message.payload)
      let reply ← replyCap recipient sender
      return ({ message with requestId := requestId, payload := payload }, reply) :
        Code (Message × CapId)).run.All Op.Quiet :=
    Prog.all_run_bind (quiet_caps _) fun payload =>
      Prog.all_run_bind (quiet_orThrow (quiet_onCaps _)) fun reply => quiet_pure _
  unfold authenticateOutgoingMessage
  split_ifs
  · exact Prog.all_run_bind (quiet_perform trivial) fun requestId => hrest requestId
  · exact hrest _

theorem toValue_of_asMessage {v : Value} {m : Message} (h : v.asMessage = some m) :
    m.toValue = v := by
  cases v <;> cases h
  rfl

/-- Code that ends well has paid, and code that fails has paid nothing. -/
def PaidFor (bytes : ℕ) (h : Hand) : Except String α → Prop
  | .ok _ => h.paid = bytes
  | .error _ => h.paid = 0

theorem outgoing_carries (sender : FlowId) (targetCap : CapId) (need : CapRights)
    (message : Message) (hpaid : h.paid = 0) :
    Carries c (some sender) (PaidFor message.toValue.memorySize) h
      (outgoing sender targetCap need message) := by
  refine carries_quiet (quiet_caps _) (fun target => ?_) fun _ => hpaid
  refine carries_quiet (quiet_perform trivial) (fun (token : Bool) => ?_) fun _ => hpaid
  cases token with
  | false => exact carries_throw hpaid
  | true =>
    -- a refused charge is none
    have hcharge : Carries c (some sender) (PaidFor message.toValue.memorySize) h
        (orThrow QuotaError.message
          (Prog.perform (Op.alloc sender message.toValue.memorySize))) := by
      refine Prog.carries_act.mpr ⟨⟨rfl, hpaid⟩, fun r => ?_⟩
      cases r with
      | ok u => rfl
      | error e => exact hpaid
    refine hcharge.bind (fun h₁ _ h₁paid => ?_) fun _ _ herror => herror
    refine carries_quietLift (quiet_authenticate ..) fun r => ?_
    cases r with
    | ok r => exact carries_pure h₁paid
    | error e => exact carries_perform ⟨rfl, h₁paid⟩ fun _ => carries_throw rfl

/-- What an effect leaves in hand. A failed one is a trap of the flow. -/
def Leaves (result : VmResult) (h : Hand) : Except String Outcome → Prop
  | .ok outcome => h.paid = cost result outcome
  | .error _ => h.paid = 0

theorem effectCode_carries (id : FlowId) (process : Process) (result : VmResult)
    (hpaid : h.paid = 0) :
    Carries c (some id) (Leaves result) h (effectCode c id process result) := by
  cases result with
  | complete value => exact carries_pure hpaid
  | yield => exact carries_pure hpaid
  | sleep delay => exact carries_pure hpaid
  | trap fault => exact carries_throw hpaid
  | selfPid destReg =>
    exact carries_quiet (quiet_minted _) (fun _ => carries_pure hpaid) fun _ => hpaid
  | spawn function args destReg requestedRights =>
    refine (spawnOn_carries ..).bind (fun h₁ child h₁paid => ?_) fun _ _ h₁paid =>
      h₁paid.trans hpaid
    exact carries_quiet (quiet_minted _) (fun _ => carries_pure (h₁paid.trans hpaid)) fun _ =>
      h₁paid.trans hpaid
  | send targetCap message =>
    rw [effectCode]
    split
    · exact carries_throw hpaid
    · rename_i m hm
      refine (outgoing_carries id targetCap _ m hpaid).bind (fun h₁ r h₁paid => ?_)
        fun _ _ herror => herror
      exact carries_pure (h₁paid.trans (congrArg Value.memorySize (toValue_of_asMessage hm)))
  | receive destReg timeout matchTag matchRequestId =>
    rw [effectCode]
    split_ifs
    · exact carries_throw hpaid
    · exact carries_pure hpaid
  | ask destReg targetCap request timeout =>
    rw [effectCode]
    split
    · exact carries_throw hpaid
    · rename_i m hm
      refine (outgoing_carries id targetCap _ m hpaid).bind (fun h₁ r h₁paid => ?_)
        fun _ _ herror => herror
      exact carries_pure (h₁paid.trans (congrArg Value.memorySize (toValue_of_asMessage hm)))
  | monitor destReg targetCap =>
    exact carries_quiet (quiet_resolveRelationCap ..) (fun _ => carries_pure hpaid) fun _ => hpaid
  | link destReg targetCap =>
    exact carries_quiet (quiet_resolveRelationCap ..) (fun _ => carries_pure hpaid) fun _ => hpaid
  | demonitor reg =>
    rw [effectCode]
    split
    · exact carries_pure hpaid
    · exact carries_throw hpaid
  | unlink reg =>
    rw [effectCode]
    split
    · exact carries_pure hpaid
    · exact carries_throw hpaid
  | registerName name =>
    rw [effectCode]
    split
    · exact carries_throw hpaid
    · dsimp only
      split
      · exact carries_throw hpaid
      · exact carries_quiet (quiet_minted _) (fun _ => carries_pure hpaid) fun _ => hpaid
  | whereis destReg name =>
    refine carries_quiet (quiet_perform trivial) (fun target => ?_) fun _ => hpaid
    split
    · exact carries_pure hpaid
    · refine carries_quiet (quiet_perform trivial) (fun live => ?_) fun _ => hpaid
      split_ifs
      · exact carries_quiet (quiet_minted _) (fun _ => carries_pure hpaid) fun _ => hpaid
      · exact carries_pure hpaid
  | delegate destReg srcCap wantRights wantNativeCap =>
    have hrest (wantNative : Option NativeMask) : Carries c (some id)
        (Leaves (.delegate destReg srcCap wantRights wantNativeCap)) h (do
          let cap ← caps (CapTable.attenuate srcCap id id wantRights wantNative)
          return .resume destReg (.cap cap)) :=
      carries_quiet (quiet_caps _) (fun _ => carries_pure hpaid) fun _ => hpaid
    cases wantNativeCap with
    | none => exact hrest none
    | some native => exact carries_quiet (quiet_caps _) (fun entry => hrest _) fun _ => hpaid

theorem effect_carries (id : FlowId) (process : Process) (result : VmResult) (hpaid : h.paid = 0) :
    Prog.Carries (Hand.Allows c (some id)) Hand.next
      (fun h' outcome => h'.paid = cost result outcome) h (effect c id process result) := by
  refine Prog.Carries.bind (Prog.Carries.mono (effectCode_carries id process result hpaid)
    fun h' r hr => ?_)
  cases r with
  | ok outcome => exact hr
  | error message =>
    have hcost : cost result (.effect none (.trap message)) = 0 := by cases result <;> rfl
    exact hr.trans hcost.symm

/-! ## Calls -/

theorem quiet_requireLive (id : FlowId) : (requireLive id).run.All Op.Quiet := by
  refine Prog.all_run_bind (quiet_perform trivial) fun (live : Bool) => ?_
  cases live <;> trivial

theorem quiet_requireAdmin (holder : FlowId) (cap : CapId) :
    (requireAdmin holder cap).run.All Op.Quiet :=
  Prog.all_run_bind (quiet_caps _) fun _ =>
    Prog.all_run_bind (quiet_perform trivial) fun _ => quiet_liftM _

theorem quiet_authenticateHost (recipient : FlowId) (message : Message) :
    (authenticateHostOutgoingMessage recipient message).run.All Op.Quiet := by
  have hrest (requestId : UInt64) : (do
      let payload ← caps (CapTable.reissueCapsFromHost recipient message.payload)
      return { message with requestId := requestId, payload := payload } :
        Code Message).run.All Op.Quiet :=
    Prog.all_run_bind (quiet_caps _) fun payload => quiet_pure _
  unfold authenticateHostOutgoingMessage
  split_ifs
  · refine Prog.all_run_bind (quiet_perform trivial) fun (rid : UInt64) => ?_
    exact Prog.all_run_bind (quiet_pure _) fun requestId => hrest requestId
  · exact hrest _

/-- Calls other than spawns are quiet. -/
theorem callCode_carries (call : Call) (hpaid : h.paid = 0) :
    Carries c none (fun h' _ => h'.paid = 0) h (callCode c call) := by
  cases call with
  | spawn chunk function args =>
    exact (spawnOn_carries ..).bind (fun _ _ h₁paid => carries_pure (h₁paid.trans hpaid))
      fun _ _ h₁paid => h₁paid.trans hpaid
  | spawnChild chunk function args name =>
    refine (spawnOn_carries ..).bind (fun h₁ child h₁paid => ?_) fun _ _ h₁paid =>
      h₁paid.trans hpaid
    have h₁paid : h₁.paid = 0 := h₁paid.trans hpaid
    split_ifs
    · exact carries_pure h₁paid
    · refine carries_quietLift (quiet_onCaps _) fun r => ?_
      cases r <;> exact carries_pure h₁paid
  | send target message =>
    rw [callCode]
    split
    · exact carries_pure hpaid
    · refine carries_quiet (quiet_requireLive _) (fun _ => ?_) fun _ => hpaid
      exact carries_quiet (quiet_authenticateHost ..) (fun _ => carries_pure hpaid) fun _ => hpaid
  | mintCap flow =>
    refine carries_quiet (quiet_requireLive _) (fun _ => ?_) fun _ => hpaid
    exact carries_quiet (quiet_minted _) (fun _ => carries_pure hpaid) fun _ => hpaid
  | grantCap holder target =>
    refine carries_quiet (quiet_requireLive _) (fun _ => ?_) fun _ => hpaid
    refine carries_quiet (quiet_requireLive _) (fun _ => ?_) fun _ => hpaid
    exact carries_quiet (quiet_minted _) (fun _ => carries_pure hpaid) fun _ => hpaid
  | mintAdminCap holder =>
    refine carries_quiet (quiet_requireLive _) (fun _ => ?_) fun _ => hpaid
    refine carries_quiet (quiet_perform trivial) (fun epoch => ?_) fun _ => hpaid
    exact carries_quiet (quiet_minted _) (fun _ => carries_pure hpaid) fun _ => hpaid
  | adminKill holder cap target =>
    refine carries_quiet (quiet_requireAdmin ..) (fun _ => ?_) fun _ => hpaid
    exact carries_quiet (quiet_requireLive _) (fun _ => carries_pure hpaid) fun _ => hpaid
  | adminTopUpCpu holder cap target extra =>
    refine carries_quiet (quiet_requireAdmin ..) (fun _ => ?_) fun _ => hpaid
    exact carries_quiet (quiet_perform trivial) (fun _ => carries_pure hpaid) fun _ => hpaid
  | adminTopUpMem holder cap target extra =>
    refine carries_quiet (quiet_requireAdmin ..) (fun _ => ?_) fun _ => hpaid
    exact carries_quiet (quiet_perform trivial) (fun _ => carries_pure hpaid) fun _ => hpaid
  | registerName name cap =>
    refine carries_quiet (quiet_perform trivial) (fun entry => ?_) fun _ => hpaid
    split
    · exact carries_pure hpaid
    · split <;> exact carries_pure hpaid

theorem call_carries (call : Call) (hpaid : h.paid = 0) :
    Prog.Carries (Hand.Allows c none) Hand.next (fun h' _ => h'.paid = 0) h
      (Worker.call c call) := by
  refine Prog.Carries.bind (Prog.Carries.mono (callCode_carries call hpaid) fun h' r hr => ?_)
  cases r <;> exact hr

end Worker

end Byteflow
