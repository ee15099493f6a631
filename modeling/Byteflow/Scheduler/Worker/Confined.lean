import Byteflow.Scheduler.Capability.Gate
import Byteflow.Scheduler.Machine.Reply
import Byteflow.Scheduler.Worker.Provenance

/-!
# Confined flows

A flow that bytecode spawned without rights and without a token among its arguments comes by tokens
for itself only: `Spawn`, `Receive`, `RegisterName` and `CallNative` ask for a right, and what an
`Ask` of its own address yields it sent itself. But `Whereis` asks for none, and hands it a token
for the flow behind a name (`unconfined_sendsMain`). As long as it finds no other flow by a name,
it reaches none (`confinement`).
-/

namespace Byteflow

namespace Machine.VmResult

/-- The flow that an effect sends to, monitors or links to. -/
def addressee : Machine.VmResult → Option FlowId
  | send target _ _ => some target
  | ask _ target _ _ _ => some target
  | monitor target => some target
  | link target => some target
  | _ => none

end Machine.VmResult

namespace Worker

variable {c : Config} {strict : Prop} {s s' : State}

/-! ## Tokens -/

/-- A token that the flow may have: if the flow is confined, it addresses the flow itself. -/
def State.Fenced (s : State) (id : FlowId) (token : CapId) : Prop :=
  token = CapId.none ∨ s.Allocated id ∧ (s.Confined id → s.Harmless id token)

theorem State.Fenced.mono {id : FlowId} {token : CapId} (h : s.Fenced id token)
    (hgrows : Grows True s s') : s'.Fenced id token :=
  h.imp_right fun hid => ⟨hgrows.allocated id hid.1, fun hc =>
    (hid.2 ((hgrows.confined hid.1).mp hc)).mono hgrows trivial⟩

/-- A token that was given to a flow. -/
theorem fenced_of_given (hs : Sound c True s) {token : CapId} {entry : Capability}
    (hg : s.Given token entry)
    (hself : s.Confined entry.holder → entry.target = some entry.holder) :
    s.Fenced entry.holder token := by
  refine .inr ⟨(hs.consistent.current _ _ hg).1, fun hc => ?_⟩
  refine ⟨.inl (hs.consistent.drawn _ _ hg).1, fun entry' hg' _ => ?_⟩
  obtain rfl := hs.consistent.unique trivial _ _ _ hg hg'
  exact hself hc

/-- A token that a confined flow may have is of no use for another flow. -/
theorem State.Fenced.target (hs : Sound c True s) {id target : FlowId} {token : CapId}
    (h : s.Fenced id token) (hholds : s.Holds id target token) (hc : s.Confined id) :
    target = id := by
  obtain ⟨entry, hg, hh, ht⟩ := hholds
  obtain ⟨-, hharmless⟩ := h.resolve_left (hs.consistent.drawn _ _ hg).2
  exact Option.some_inj.mp (ht.symm.trans ((hharmless hc).2 entry hg hh))

theorem fenced_of_moved (hs : Sound c True s) {id : FlowId} {src token : CapId}
    (hmoved : s.Moved (some id) id src token) (hsrc : s.Fenced id src) : s.Fenced id token := by
  obtain ⟨entry, entry', hg, hholder, hg', rfl, htarget⟩ := hmoved
  have hholder : entry.holder = entry'.holder := hholder _ rfl
  refine fenced_of_given hs hg' fun hc => ?_
  obtain ⟨-, hharmless⟩ := hsrc.resolve_left (hs.consistent.drawn _ _ hg).2
  have hself := (hharmless hc).2 entry hg hholder
  rw [target_eq_some] at hself ⊢
  exact htarget.trans hself

/-- What a flow sends itself. -/
theorem fenced_of_passed (hs : Sound c True s) {id : FlowId} {v w : Value}
    (hw : s.Passed (some id) id v w) (h : ∀ token ∈ v.tokens, s.Fenced id token) :
    ∀ token ∈ w.tokens, s.Fenced id token := by
  induction v generalizing w with
  | cap src =>
    rcases hw with ⟨-, rfl⟩ | ⟨token, rfl, hmoved⟩
    · exact h
    · exact List.forall_mem_singleton.mpr (fenced_of_moved hs hmoved (h src List.mem_cons_self))
  | message sender replyCap requestId tag payload ih =>
    obtain ⟨payload', rfl, hpayload⟩ := hw
    obtain ⟨hreply, htokens⟩ := List.forall_mem_cons.mp h
    exact List.forall_mem_cons.mpr ⟨hreply, ih hpayload htokens⟩
  | _ =>
    obtain rfl := hw
    exact h

/-- Arguments without tokens are not made anew. -/
theorem eq_of_granted {parent : Option FlowId} {child : FlowId} {args args' : List Value}
    (h : List.Forall₂ (s.GrantedArg parent child) args args') (hcap : ∀ v ∈ args, v.asCap = none) :
    args' = args := by
  induction h with
  | nil => rfl
  | cons hw _ ih =>
    obtain ⟨hv, hrest⟩ := List.forall_mem_cons.mp hcap
    rcases hw with ⟨-, rfl⟩ | ⟨src, token, rfl, -⟩
    · rw [ih hrest]
    · cases hv

/-! ## The policy -/

/-- Only the flow itself, if it is confined, sent the hop. -/
def ReachedBy (s : State) (id : FlowId) (hop : Hop) : Prop :=
  ∃ source, ⟨source, hop⟩ ∈ s.log.hops ∧
    ∀ f, source = .flow f → s.Allocated f ∧ (s.Confined f → f = id)

theorem ReachedBy.mono {id : FlowId} {hop : Hop} (h : ReachedBy s id hop)
    (hgrows : Grows True s s') : ReachedBy s' id hop := by
  obtain ⟨source, hissued, hself⟩ := h
  refine ⟨source, hgrows.hops _ hissued, fun f hf => ?_⟩
  obtain ⟨ha, hself⟩ := hself f hf
  exact ⟨hgrows.allocated f ha, fun hc => hself ((hgrows.confined ha).mp hc)⟩

/-- Confined flows have tokens for themselves only, wait for themselves only, and reach themselves
only. -/
def confinedPolicy : Policy where
  holds := fun s id v => ∀ token ∈ v.tokens, s.Fenced id token
  carries := fun s id hop => (∀ m, hop.value.asMessage = some m → m.sender = id →
    ∀ token ∈ hop.value.tokens, s.Fenced id token) ∧ ReachedBy s id hop
  waits := fun s id filter => s.Allocated id ∧
    (s.Confined id → ∃ requestId, filter = .ask requestId id)
  brings := fun _ _ => True
  sends := fun _ => True

/-- The gate lets no confined flow through. -/
theorem Sound.free_of_gate (hs : Sound c strict s) {id : FlowId} {epoch : CellId → UInt64}
    {index : UInt32} (hgate : checkNativeGate (s.processes id).vm.nativeGate epoch
      (s.processes id).vm.natives index = .ok ()) : s.Allocated id ∧ ¬s.Confined id := by
  by_contra hnot
  have hid : s.Confined id ∨ ¬s.Allocated id := by tauto
  obtain ⟨e, he⟩ := checkNativeGate_of_not_hasNative (hs.fitted.confined id hid).2 epoch
    (s.processes id).vm.natives index
  rw [he] at hgate
  cases hgate

/-- What a flow starts with. -/
theorem fenced_of_built {k : Context} {id : FlowId} {process : Process}
    (hb : Built c True k s id process) : Keeps confinedPolicy s id process.vm where
  registers := fun frame hf v hv token ht => by
    refine .inr ⟨hb.allocated, fun hc => ?_⟩
    obtain ⟨args, hgranted, hregisters⟩ := hb.args
    rcases hregisters frame hf v hv with rfl | hv
    · cases ht
    -- the arguments of a confined flow are as its parent gave them
    unfold State.Confined at hc
    cases horigin : s.log.origins id with
    | host =>
      rw [horigin] at hc
      exact hc.elim
    | bytecode parent rights args' =>
      rw [horigin] at hc
      obtain rfl := hb.origin parent rights args' horigin
      rw [eq_of_granted hgranted hc.2] at hv
      exact hb.harmless trivial v (List.mem_append_left _ hv) token ht
  constants := fun v hv token ht =>
    .inr ⟨hb.allocated, fun _ => hb.harmless trivial v (List.mem_append_right _ hv) token ht⟩

theorem confinedPolicy_kept (c : Config) : confinedPolicy.Kept c True where
  holds_mono := fun hgrows h token ht => (h token ht).mono hgrows
  carries_mono := fun hgrows h =>
    ⟨fun m hm hsender token ht => (h.1 m hm hsender token ht).mono hgrows, h.2.mono hgrows⟩
  waits_mono := fun hgrows h =>
    ⟨hgrows.allocated _ h.1, fun hc => h.2 ((hgrows.confined h.1).mp hc)⟩
  brings_mono := fun _ _ => trivial
  plain := fun hv token ht => by
    rw [hv.tokens] at ht
    cases ht
  native := fun hs hgate _ _ _ _ _ => by
    obtain ⟨hid, hfree⟩ := hs.free_of_gate hgate
    exact .inr ⟨hid, fun hc => absurd hc hfree⟩
  token := fun hs hg hholder hself => by
    subst hholder
    exact List.forall_mem_singleton.mpr (fenced_of_given hs hg (hself trivial))
  delegate := fun hs hmoved hsrc =>
    List.forall_mem_singleton.mpr (fenced_of_moved hs hmoved (hsrc _ List.mem_cons_self))
  built := fun _ hb _ _ => fenced_of_built hb
  send := fun {s id target hop} hs hsent hissued => by
    cases hsent with
    | @intro cap m m' reply n hcap hready hreply hholds hmessage hsends =>
      refine ⟨fun m₁ hm hsender => ?_, .flow id, hissued, fun f hf => ?_⟩
      · -- the flow sends itself the hop
        cases hm
        obtain rfl : id = target := hsender
        obtain ⟨entry, hg, rfl, ht⟩ := hreply
        have hpayload : ∀ token ∈ m'.payload.tokens, s.Fenced entry.holder token :=
          fenced_of_passed hs hready.payload (List.forall_mem_cons.mp hmessage).2
        exact List.forall_mem_cons.mpr ⟨fenced_of_given hs hg fun _ => ht, hpayload⟩
      · cases hf
        have hcap' : s.Fenced id cap := hholds _ List.mem_cons_self
        refine ⟨?_, fun hc => (hcap'.target hs hcap hc).symm⟩
        obtain ⟨entry, hg, rfl, -⟩ := hcap
        exact (hs.consistent.current _ _ hg).1
  stamp := fun hs _ hissued => by
    refine ⟨fun m hm hsender token _ => ?_, .host, hissued, nofun⟩
    cases hm
    obtain rfl : FlowId.host = _ := hsender
    -- nobody spawned the host
    obtain ⟨hhost, horigin⟩ := hs.consistent.host
    refine .inr ⟨hhost, fun hc => ?_⟩
    unfold State.Confined at hc
    rw [horigin] at hc
    exact hc.elim
  down := fun _ _ hissued => by
    refine ⟨fun _ _ _ => ?_, .monitor, hissued, nofun⟩
    exact List.forall_mem_singleton.mpr (.inl rfl)
  receive := fun _ _ hid hfree => ⟨hid, fun hc => absurd hc hfree⟩
  ask := fun {s id target cap} requestId hs hcap hholds => by
    have hcap' : s.Fenced id cap := hholds _ List.mem_cons_self
    refine ⟨?_, fun hc => ⟨requestId, by rw [hcap'.target hs hcap hc]⟩⟩
    obtain ⟨entry, hg, rfl, -⟩ := hcap
    exact (hs.consistent.current _ _ hg).1
  handed := fun {s id hop filter} _ hcarries hwaits haccepts token ht => by
    obtain ⟨hid, hself⟩ := hwaits
    by_cases hc : s.Confined id
    · obtain ⟨requestId, rfl⟩ := hself hc
      obtain ⟨m, hm, -, hsender⟩ := WaitFilter.accepts_ask haccepts
      exact hcarries.1 m hm hsender token ht
    · exact .inr ⟨hid, fun hc' => absurd hc' hc⟩
  notice := fun _ _ _ => List.forall_mem_singleton.mpr (.inl rfl)

/-! ## Runs -/

/-- The effect that a step asks the machine for, and the flow that raised it. -/
def raised (s : State) : ℕ × Input → Option (FlowId × Machine.VmResult)
  | (t, .code _) =>
    match s.modes t, s.driven t with
    | .effect _ (.ret (.effect _ vm)), some id => some (id, vm)
    | _, _ => none
  | _ => none

/-- Confined flows reach nobody. -/
structure Confinement (s : State) : Prop where
  /-- The mailbox of another flow accepts no hop of theirs. -/
  accepted : ∀ t input id hop f, hop ∈ Machine.accepted id s.machine (t, input) →
    ⟨.flow f, hop⟩ ∈ s.log.hops → s.Confined f → id = f
  /-- They send to, monitor and link to nobody else. -/
  raised : ∀ ti f vm, raised s ti = some (f, vm) → s.Confined f →
    ∀ target ∈ vm.addressee, target = f
  /-- No flow that was ever there is a child of theirs. -/
  spawned : ∀ id parent rights args, s.WasLive id →
    s.log.origins id = .bytecode parent rights args → ¬s.Confined parent
  /-- Their next instruction invokes no native. -/
  natives : ∀ f host, s.Confined f → (s.processes f).vm.invoked host = none

/-- What the machine is asked for. -/
theorem Answers.addressee (hs : Sound c True s) {id : FlowId} {result : VmResult}
    {destReg : Option UInt8} {vm : Machine.VmResult}
    (ha : Answers True id s result (.effect destReg vm))
    (hall : result.All (confinedPolicy.holds s id)) (hc : s.Confined id) :
    ∀ target ∈ vm.addressee, target = id := by
  have hself {token : CapId} {target : FlowId} (h : confinedPolicy.holds s id (.cap token))
      (hcap : s.Holds id target token) : ∀ target' ∈ some target, target' = id := by
    rintro _ ⟨⟩
    exact (h token List.mem_cons_self).target hs hcap hc
  cases ha with
  | send hm hcap hready hreply => exact hself hall.1 hcap
  | ask destReg timeout hm hcap hready hreply => exact hself hall.1 hcap
  | monitor destReg hcap => exact hself hall hcap
  | link destReg hcap => exact hself hall hcap
  | _ => exact nofun

/-- **Confinement.** As long as no confined flow finds another one by its name, whatever names there
are and whatever others do, confined flows reach nobody. -/
theorem confinement (c : Config) (sched : List (ℕ × Input))
    (h : Schedule.Guarded (step c) Strict (State.init c) sched) : Confinement (run c sched) := by
  obtain ⟨hr, hu⟩ := run_upheld (confinedPolicy_kept c) sched (fun _ => h)
    (Schedule.guarded_of_forall (observes_of_forall (fun _ => trivial) fun _ _ => trivial) _ _)
  refine ⟨fun t input id hop f hhop hissued hc => ?_, fun ti f vm hraised hc => ?_,
    hr.sound.consistent.spawned, fun f host hc => ?_⟩
  · obtain ⟨-, source, hissued', hself⟩ := hu.transit.carries.accepted hhop
    have hsource : source = .flow f := congrArg Machine.Issue.source
      ((run_sourced c sched).unique _ hissued' _ hissued rfl)
    exact ((hself f hsource).2 hc).symm
  · have hgoing := hr.going ti.1
    have hhand := hu.inHand ti.1
    unfold Going at hgoing
    unfold InHand at hhand
    unfold raised at hraised
    split at hraised
    · split at hraised
      · rename_i hmode hrun
        cases hraised
        rw [hmode] at hgoing hhand
        exact (hgoing f hrun).2.addressee hr.sound (hhand f hrun).1 hc
      · cases hraised
    · cases hraised
  · by_contra hne
    obtain ⟨call, hcall⟩ := Option.ne_none_iff_exists'.mp hne
    exact (hr.sound.free_of_gate (Vm.gate_of_invoked hcall).1).2 hc

/-! ## A confined flow that looks for its parent -/

/-- The flow publishes its name and spawns a confined child, which it gives a message. -/
def spawnsConfined (child : List Instruction) : Chunk where
  name := "spawnsConfined"
  constants := [.str "main"]
  code := [.aImm .loadImm 1 1, .aImm .loadImm 2 7, .aImm .loadImm 3 0, ⟨.callNative, 1, 3, 0, 2⟩,
    .aImm .loadConst 2 0, .abc .registerName 2 0 0, ⟨.spawn, 0, 1, 0, 1⟩] ++ child
  functions := [⟨"main", 0, 0, 4⟩, ⟨"child", 7, 1, 2⟩]

def sendsMain : Chunk :=
  spawnsConfined [.aImm .loadConst 1 0, .abc .whereis 1 1 0, .abc .send 1 0 0]

def sendsSelf : Chunk := spawnsConfined [.abc .selfPid 1 0 0, .abc .send 1 0 0]

/-- `n` steps of a thread in its code, each with a token of its own. -/
def freshCodes (t n : ℕ) (draw : BitVec 128) : List (ℕ × Input) :=
  (List.range n).map fun i => (t, .code (quietEnv ⟨draw + BitVec.ofNat 128 i⟩))

/-- The child executes `n` steps of its code, and the target of its hop is looked up. -/
def driveConfined (chunk : Chunk) (n : ℕ) : List (ℕ × Input) :=
  driveChunk chunk ++ freshCodes 0 29 5 ++
    (1, .machine (.start (.work 0)) (quietEnv ⟨5⟩)) :: picks 1 1 ⟨5⟩ ++ freshCodes 1 n 40 ++
    picks 1 1 ⟨5⟩

set_option maxRecDepth 10000 in
/-- The child asks for its own address and sends itself the message. -/
theorem confinement_sendsSelf : Confinement (run standard (driveConfined sendsSelf 15)) :=
  confinement standard _ (by decide)

set_option maxRecDepth 10000 in
/-- The child finds its parent by its name, and the parent's mailbox accepts its hop. -/
theorem unconfined_sendsMain : sendsMain.verifyWith .untrusted = .ok () ∧
    ¬Confinement (run standard (driveConfined sendsMain 16)) := by
  refine ⟨by decide, fun h => ?_⟩
  obtain ⟨hop, hhop, hissued, hc⟩ :
      ∃ hop ∈ Machine.accepted 1 (run standard (driveConfined sendsMain 16)).machine (1, .pick 0),
        ⟨.flow 2, hop⟩ ∈ (run standard (driveConfined sendsMain 16)).log.hops ∧
          (run standard (driveConfined sendsMain 16)).Confined 2 := by
    decide
  cases h.accepted 1 (.pick 0) 1 hop 2 hhop hissued hc

end Worker

end Byteflow
