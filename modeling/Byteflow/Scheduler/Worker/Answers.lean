import Byteflow.Scheduler.Worker.Tokens

/-!
# What a worker answers

What the programs of `Effect` come to, whatever other threads do in between: the answer to an
effect (`Answers`, `effect_learns`) and to a call of the embedder (`Replies`, `call_learns`). A
token that a flow gets was given to it; the tokens of a hop were given to its recipient.
-/

namespace Byteflow

namespace Worker

variable {c : Config} {strict : Prop} {k : Context} {s s' : State}

/-! ## Spawns -/

theorem checkLimit_ensures (config : Spawn.Config) :
    TablesEnsure c strict k (fun _ _ => True) s (Spawn.checkLimit config) := by
  have hlen (i n : ℕ) (s : State) :
      TablesLearn c strict k (fun _ _ => True) s (Spawn.lenFrom i n) := by
    induction i generalizing n s with
    | zero => trivial
    | succ i ih => exact .act trivial fun s' m _ _ => ih _ s'
  unfold Spawn.checkLimit
  split_ifs
  · refine .bind (.lift (hlen _ _ _)) fun s₁ current _ _ => ?_
    split_ifs
    · exact .throw _
    · exact .pure trivial
  · exact .pure trivial

theorem tablesPerform {op : Spawn.Op} (h : Needs c strict k s (.tables op)) :
    TablesEnsure c strict k (fun s r => Tells strict k s (.tables op) r) s (Spawn.perform op) :=
  .perform h fun _ _ _ hr => hr

/-- Only who has the right spawns, and a child has no right that was not asked for. -/
theorem authority_ensures (config : Spawn.Config) (id : FlowId) (cell : CellId)
    (bytecode : Option Spawn.BytecodeSpawn) :
    TablesEnsure c strict k (fun _ cap => ∀ ctx ∈ bytecode,
      ctx.authority.rights.contains CapRights.spawn ∧
        cap.rights = ctx.authority.rights.intersect ctx.requestedRights) s
      (Spawn.authority config id cell bytecode) := by
  cases bytecode with
  | none =>
    exact (tablesPerform (by trivial)).bind fun _ _ _ _ => .pure nofun
  | some ctx =>
    refine (tablesPerform (by trivial)).bind fun s₁ parentEpoch _ _ => ?_
    refine (tablesPerform (by trivial)).bind fun s₂ token _ _ => ?_
    refine (tablesPerform (by trivial)).bind fun s₃ epoch _ _ => ?_
    split
    · rename_i cap hcap
      obtain ⟨hspawn, rfl⟩ := execSpawnAuthority_ok hcap
      refine .pure fun ctx' hctx => ?_
      cases hctx
      exact ⟨hspawn, rfl⟩
    · exact .throw _

theorem grantArgs_ensures {child : FlowId} (hchild : s.Allocated child) (parent : Option FlowId)
    (args : List Value) :
    TablesEnsure c strict k (fun s args' => List.Forall₂ (s.GrantedArg parent child) args args') s
      (Spawn.grantArgs parent child args) :=
  Prog.Learns.bind ((grantCapsInArgs_ensures hchild parent args).rename (fun _ _ _ h => h)
    fun _ _ h => h) fun s₁ r _ hr => by
    cases r with
    | ok args' =>
      rintro _ ⟨⟩
      exact hr args' rfl
    | error e => exact nofun

/-- The registers of a new VM hold its arguments. -/
theorem of_buildVm {config : Spawn.Config} {chunk : Chunk} {function : UInt32}
    {args : List Value} {authority : Cap} {cell : CellId} {nativeEpoch : UInt64} {vm : Vm}
    (h : Spawn.buildVm config chunk function args authority cell nativeEpoch = .ok vm) :
    Vm.Holds ⟨chunk, config.natives, .fromAuthority authority cell CapTable.nativeCell nativeEpoch
      config.natives.length⟩ (fun v => v = .unit ∨ v ∈ args) vm := by
  obtain ⟨vm', hvm, h⟩ := of_bind_ok h
  exact (Vm.withNativeGate_holds hvm (.inl rfl) fun v hv => .inr hv).setQuota h

/-- What a program may spawn. The rights of a confined flow do not let it spawn. -/
structure Spawns (c : Config) (strict : Prop) (k : Context) (s : State) (chunk : Chunk)
    (bytecode : Option Spawn.BytecodeSpawn) (origin : Origin) : Prop where
  image : chunk.verifyWith c.trust = .ok () ∨ chunk.constants = []
  seen : strict → ∀ v ∈ k.args ++ chunk.constants, ∀ token ∈ v.tokens, s.Seen token
  origin : ∀ parent rights args, origin = .bytecode parent rights args → args = k.args ∧
    s.Allocated parent ∧ ∃ ctx, bytecode = some ctx ∧ ctx.requestedRights = rights ∧
      (s.Confined parent → ctx.authority.rights = CapRights.none)

theorem Spawns.mono {chunk : Chunk} {bytecode : Option Spawn.BytecodeSpawn} {origin : Origin}
    (hs : Spawns c strict k s chunk bytecode origin) (h : Grows strict s s') :
    Spawns c strict k s' chunk bytecode origin where
  image := hs.image
  seen := fun hstrict v hv token ht => h.wasSeen (hs.seen hstrict v hv token ht)
  origin := fun parent rights args ho => by
    obtain ⟨hargs, ha, ctx, hb, hr, hc⟩ := hs.origin parent rights args ho
    exact ⟨hargs, h.allocated _ ha, ctx, hb, hr, fun hconf => hc ((h.confined ha).mp hconf)⟩

/-- One operation of a worker. -/
theorem performed {op : Op} (h : Needs c strict k s op) :
    Ensures c strict k (fun s r => Tells strict k s op r) s (perform op) :=
  .perform h fun _ _ _ hr => hr

/-- The flow box that a spawn builds. -/
theorem Spawns.built {chunk : Chunk} {bytecode : Option Spawn.BytecodeSpawn} {origin : Origin}
    (hs : Spawns c strict k s chunk bytecode origin) {id : FlowId} (hid : s.Allocated id)
    (horigin : s.log.origins id = origin)
    (hharmless : strict → ∀ v ∈ k.args ++ chunk.constants, ∀ token ∈ v.tokens,
      s.Harmless id token)
    {authority : Cap}
    (hauth : ∀ ctx ∈ bytecode, ctx.authority.rights.contains CapRights.spawn ∧
      authority.rights = ctx.authority.rights.intersect ctx.requestedRights)
    {args : List Value} (hargs : List.Forall₂ (s.GrantedArg k.flow id) k.args args) {vm : Vm}
    {function : UInt32} {cell : CellId} {nativeEpoch : UInt64}
    (hvm : Spawn.buildVm c.toConfig chunk function args authority cell nativeEpoch = .ok vm) :
    Built c strict k s id ⟨vm, authority, cell⟩ where
  allocated := hid
  confined := fun hc => by
    unfold State.Confined at hc
    rw [horigin] at hc
    cases origin with
    | host => exact hc.elim
    | bytecode parent rights args' =>
      -- nothing was asked for, so nothing is there
      obtain ⟨-, -, ctx, hctx, hrights, -⟩ := hs.origin _ _ _ rfl
      have hnone : authority.rights = CapRights.none := by
        rw [(hauth ctx hctx).2, hrights, hc.1, CapRights.intersect_none]
      have hprogram := (of_buildVm hvm).program
      have hgate : vm.nativeGate =
          .fromAuthority authority cell CapTable.nativeCell nativeEpoch c.natives.length :=
        congrArg Vm.Program.nativeGate hprogram
      refine ⟨hnone, ?_⟩
      show vm.nativeGate.hasNative = false
      rw [hgate]
      show authority.rights.contains CapRights.native = false
      rw [hnone]
      rfl
  image := by
    have hprogram := (of_buildVm hvm).program
    have hnatives : vm.natives = c.natives := congrArg Vm.Program.natives hprogram
    have hchunk : vm.chunk = chunk := congrArg Vm.Program.chunk hprogram
    exact ⟨.inl hnatives, by rw [hchunk]; exact hs.image⟩
  args := ⟨args, hargs, (of_buildVm hvm).registers⟩
  origin := fun parent rights args' ho =>
    (hs.origin _ _ _ (horigin.symm.trans ho)).1
  harmless := by
    have hchunk : vm.chunk = chunk := congrArg Vm.Program.chunk (of_buildVm hvm).program
    rw [hchunk]
    exact hharmless

/-- The parent of a new flow is not confined. -/
theorem Spawns.parent {chunk : Chunk} {bytecode : Option Spawn.BytecodeSpawn} {origin : Origin}
    (hs : Spawns c strict k s chunk bytecode origin) {authority : Cap}
    (hauth : ∀ ctx ∈ bytecode, ctx.authority.rights.contains CapRights.spawn ∧
      authority.rights = ctx.authority.rights.intersect ctx.requestedRights)
    {parent : FlowId} {rights : CapRights} {args : List Value}
    (ho : origin = .bytecode parent rights args) : s.Allocated parent ∧ ¬s.Confined parent := by
  obtain ⟨-, ha, ctx, hctx, -, hnone⟩ := hs.origin parent rights args ho
  refine ⟨ha, fun hc => ?_⟩
  have hspawn := (hauth ctx hctx).1
  rw [hnone hc] at hspawn
  cases hspawn

theorem spawnOn_ensures {chunk : Chunk} {bytecode : Option Spawn.BytecodeSpawn} {origin : Origin}
    (hs : Spawns c strict k s chunk bytecode origin) (function : UInt32) :
    Ensures c strict k (fun s child => s.Allocated child ∧ s.WasLive child ∧
      ∀ parent rights args, origin = .bytecode parent rights args → ¬s.Confined parent) s
      (spawnOn c chunk function k.args k.flow bytecode origin) := by
  refine (checkLimit_ensures c.toConfig).spawning.bind fun s₁ _ h₁ _ => ?_
  have hs := hs.mono h₁
  refine (performed ?_).bind fun s₂ id h₂ hid => ?_
  · cases origin with
    | host => trivial
    | bytecode parent rights args => exact (hs.origin parent rights args rfl).2.1
  obtain ⟨hid, horigin, hharmless⟩ := hid
  have hs := hs.mono h₂
  refine (performed (by trivial)).bind fun s₃ cell h₃ _ => ?_
  refine (authority_ensures c.toConfig id cell bytecode).spawning.bind
    fun s₄ authority h₄ hauth => ?_
  refine (grantArgs_ensures ((h₃.trans h₄).allocated _ hid) k.flow k.args).spawning.bind
    fun s₅ args h₅ hargs => ?_
  refine (performed (by trivial)).bind fun s₆ nativeEpoch h₆ _ => ?_
  split
  · exact .throw _
  · rename_i vm hvm
    refine (performed ?_).bind fun s₇ _ h₇ _ => ?_
    · have h₂₆ := ((h₃.trans h₄).trans h₅).trans h₆
      refine (hs.mono h₂₆).built (h₂₆.allocated _ hid) ?_ ?_ hauth ?_ hvm
      · exact (h₂₆.origins _ hid).trans horigin
      · exact fun hstrict v hv token ht =>
          (hharmless token (hs.seen hstrict v hv token ht)).mono h₂₆ hstrict
      · exact hargs.imp fun _ _ hv => hv.mono h₆
    have h₂₇ := (((h₃.trans h₄).trans h₅).trans h₆).trans h₇
    refine (performed ?_).bind fun s₈ _ h₈ hlive => ?_
    · refine ⟨h₂₇.allocated _ hid, fun parent rights args ho => ?_⟩
      rw [h₂₇.origins _ hid, horigin] at ho
      exact (hs.mono h₂₇).parent hauth ho
    refine (performed (by trivial)).bind fun s₉ _ h₉ _ => ?_
    refine (performed ?_).bind fun s₁₀ _ h₁₀ _ => .pure ?_
    · exact h₉.wasLive _ hlive
    have h₂₁₀ := ((h₂₇.trans h₈).trans h₉).trans h₁₀
    refine ⟨h₂₁₀.allocated _ hid, (h₉.trans h₁₀).wasLive _ hlive, fun parent rights args ho => ?_⟩
    exact ((hs.mono h₂₁₀).parent hauth ho).2

/-! ## Addresses and hops -/

/-- A held token addresses a flow that was live. -/
theorem resolveCapHeld_ensures (id : CapId) (holder : FlowId) (need : CapRights) :
    CapsEnsure c strict k (fun s target => s.Holds holder target id ∧ s.WasLive target) s
      (resolveCapHeld id holder need) := by
  refine (resolve_ensures id holder need).bind fun s₁ entry _ hentry => ?_
  split
  · rename_i flow htarget
    refine .pure ⟨⟨entry, hentry.1, hentry.2.2.1, htarget⟩, ?_⟩
    exact ((current_flow (target_eq_some.mp htarget)).mp hentry.2.1).1
  · exact .throw _

theorem resolveRelationCap_ensures (id : CapId) (holder : FlowId) (need : CapRights) :
    Ensures c strict k (fun s target => s.Holds holder target id) s
      (resolveRelationCap id holder need) := by
  refine (resolve_ensures id holder need).caps.bind fun s₁ entry h₁ hentry => ?_
  split
  · exact .throw _
  · rename_i target htarget
    refine (performed (by trivial)).bind fun s₂ r h₂ _ => ?_
    split
    · exact .throw _
    · refine (performed (by trivial)).bind fun s₃ epoch h₃ _ => ?_
      refine .bind (.liftM (Q := fun _ _ => True) fun _ _ => trivial) fun s₄ _ h₄ _ => .pure ?_
      exact ⟨entry, ((h₂.trans h₃).trans h₄).given _ _ hentry.1, hentry.2.2.1, htarget⟩

/-- A message that is ready for its recipient. -/
structure State.Ready (s : State) (sender : Option FlowId) (target : FlowId) (m m' : Message) :
    Prop where
  live : s.WasLive target
  tag : m'.tag = m.tag
  payload : s.Passed sender target m.payload m'.payload

theorem State.Ready.mono {sender : Option FlowId} {target : FlowId} {m m' : Message}
    (hm : s.Ready sender target m m') (h : Grows strict s s') : s'.Ready sender target m m' :=
  ⟨h.wasLive _ hm.live, hm.tag, hm.payload.mono h⟩

theorem authenticateOutgoingMessage_ensures {sender target : FlowId} (hsender : s.WasLive sender)
    (htarget : s.WasLive target) (m : Message) :
    Ensures c strict k (fun s r => s.Ready (some sender) target m r.1 ∧ s.Holds target sender r.2)
      s (authenticateOutgoingMessage sender target m) := by
  have hrest (s₁ : State) (requestId : UInt64) (h₁ : Grows strict s s₁) :
      Ensures c strict k (fun s r => s.Ready (some sender) target m r.1 ∧ s.Holds target sender r.2)
        s₁ (do
          let payload ← caps (CapTable.reissueCapsInValue sender target m.payload)
          let reply ← replyCap target sender
          return ({ m with requestId := requestId, payload := payload }, reply)) := by
    refine (reissueCapsInValue_ensures (h₁.allocated _ htarget.1) sender _).caps.bind
      fun s₂ payload h₂ hpayload => ?_
    have hreply : Ensures c strict k (fun s reply => s.Holds target sender reply) s₂
        (replyCap target sender) := by
      refine ensures_orThrow (CapsLearn.onCaps (mintOrReuse_learns ?_ ?_ _))
      · exact (h₁.trans h₂).allocated _ htarget.1
      · exact (h₁.trans h₂).wasLive _ hsender
    refine hreply.grown.bind fun s₃ reply h₃ hr => .pure ⟨⟨?_, rfl, ?_⟩, hr.2⟩
    · exact ((h₁.trans h₂).trans h₃).wasLive _ htarget
    · exact hpayload.mono h₃
  unfold authenticateOutgoingMessage
  split_ifs
  · exact (performed (by trivial)).bind fun s₁ requestId h₁ _ => hrest s₁ requestId h₁
  · exact hrest s _ (.refl s)

theorem authenticateHostOutgoingMessage_ensures {target : FlowId} (htarget : s.WasLive target)
    (m : Message) :
    Ensures c strict k (fun s m' => s.Ready none target m m') s
      (authenticateHostOutgoingMessage target m) := by
  have hrest (s₁ : State) (requestId : UInt64) (h₁ : Grows strict s s₁) :
      Ensures c strict k (fun s m' => s.Ready none target m m') s₁ (do
        let payload ← caps (CapTable.reissueCapsFromHost target m.payload)
        return { m with requestId := requestId, payload := payload }) := by
    refine (reissueCapsFromHost_ensures (h₁.allocated _ htarget.1) _).caps.bind
      fun s₂ payload h₂ hpayload => .pure ⟨?_, rfl, hpayload⟩
    exact (h₁.trans h₂).wasLive _ htarget
  unfold authenticateHostOutgoingMessage
  split_ifs
  · exact (performed (by trivial)).bind fun s₁ _ h₁ _ => hrest s₁ _ h₁
  · exact hrest s _ (.refl s)

/-- `Send` and `Ask` up to the delivery. -/
theorem outgoing_ensures {sender : FlowId} (hsender : s.WasLive sender) (targetCap : CapId)
    (need : CapRights) (m : Message) :
    Ensures c strict k (fun s r => s.Holds sender r.1 targetCap ∧
      s.Ready (some sender) r.1 m r.2.1 ∧ s.Holds r.1 sender r.2.2) s
      (outgoing sender targetCap need m) := by
  refine (resolveCapHeld_ensures targetCap sender need).caps.bind fun s₁ target h₁ htarget => ?_
  refine (performed (by trivial)).bind fun s₂ token h₂ _ => ?_
  split_ifs
  · exact .throw _
  · refine .bind (Q := fun _ _ => True)
      (ensures_orThrow (.act (by trivial) fun _ _ _ _ _ _ => trivial)) fun s₃ _ h₃ _ => ?_
    have h := h₂.trans h₃
    refine .bind (.lift (authenticateOutgoingMessage_ensures
      (h.wasLive _ (h₁.wasLive _ hsender)) (h.wasLive _ htarget.2) m).grown) fun s₄ r h₄ hr => ?_
    split
    · rename_i message reply
      exact .pure ⟨htarget.1.mono (h.trans h₄), (hr _ rfl).2⟩
    · exact .bind (performed (by trivial)) fun _ _ _ _ => .throw _

/-! ## Effects -/

/-- The arguments that the VM hands over for a new flow. -/
def spawnArgs : VmResult → List Value
  | .spawn _ args _ _ => args
  | _ => []

/-- What an effect of the flow may come to. -/
inductive Answers (strict : Prop) (id : FlowId) (s : State) : VmResult → Outcome → Prop
  | trap {result} (message : String) : Answers strict id s result (.effect none (.trap message))
  | complete (value : Value) :
      Answers strict id s (.complete value) (.effect none (.complete value))
  | yield : Answers strict id s .yield (.effect none .yield)
  | sleep (delay : ℕ) : Answers strict id s (.sleep delay) (.effect none (.sleep delay))
  /-- A token for the flow; if the flow is confined, it addresses the flow itself. -/
  | token {result} (destReg : UInt8) {token : CapId} {entry : Capability}
      (hgiven : s.Given token entry) (hholder : entry.holder = id)
      (hself : strict → s.Confined id → entry.target = some id) :
      Answers strict id s result (.resume destReg (.cap token))
  | delegate (destReg : UInt8) {src token : CapId} {rights : CapRights} {native : Option CapId}
      (hmoved : s.Moved (some id) id src token) :
      Answers strict id s (.delegate destReg src rights native) (.resume destReg (.cap token))
  | absent {result} (destReg : UInt8) : Answers strict id s result (.resume destReg .unit)
  | send {cap : CapId} {message : Value} {m m' : Message} {target : FlowId} {reply : CapId}
      (hm : message.asMessage = some m) (hcap : s.Holds id target cap)
      (hready : s.Ready (some id) target m m') (hreply : s.Holds target id reply) :
      Answers strict id s (.send cap message) (.effect none (.send target m' reply))
  | ask (destReg : UInt8) (timeout : Option ℕ) {cap : CapId} {message : Value} {m m' : Message}
      {target : FlowId} {reply : CapId} (hm : message.asMessage = some m)
      (hcap : s.Holds id target cap) (hready : s.Ready (some id) target m m')
      (hreply : s.Holds target id reply) :
      Answers strict id s (.ask destReg cap message timeout)
        (.effect none (.ask destReg target m' reply timeout))
  | receive (destReg : UInt8) (timeout : Option ℕ) (matchTag : Option UInt16)
      (matchRequestId : Option UInt64) (hfree : ¬s.Confined id) :
      Answers strict id s (.receive destReg timeout matchTag matchRequestId)
        (.effect none (.receive destReg timeout matchTag matchRequestId))
  | monitor (destReg : UInt8) {cap : CapId} {target : FlowId} (hcap : s.Holds id target cap) :
      Answers strict id s (.monitor destReg cap) (.effect (some destReg) (.monitor target))
  | demonitor (reg : UInt8) (raw : UInt64) :
      Answers strict id s (.demonitor reg) (.effect none (.demonitor raw))
  | link (destReg : UInt8) {cap : CapId} {target : FlowId} (hcap : s.Holds id target cap) :
      Answers strict id s (.link destReg cap) (.effect (some destReg) (.link target))
  | unlink (reg : UInt8) (raw : UInt64) :
      Answers strict id s (.unlink reg) (.effect none (.unlink raw))
  | registerName (name : String) (cap : CapId) (hfree : ¬s.Confined id) :
      Answers strict id s (.registerName name) (.effect none (.registerName name cap))

theorem Answers.mono {id : FlowId} {result : VmResult} {outcome : Outcome}
    (ha : Answers strict id s result outcome) (hid : s.Allocated id) (h : Grows strict s s') :
    Answers strict id s' result outcome := by
  cases ha with
  | trap message => exact .trap message
  | complete value => exact .complete value
  | yield => exact .yield
  | sleep delay => exact .sleep delay
  | token destReg hgiven hholder hself =>
    exact .token destReg (h.given _ _ hgiven) hholder fun hs hc => hself hs ((h.confined hid).mp hc)
  | delegate destReg hmoved => exact .delegate destReg (hmoved.mono h)
  | absent destReg => exact .absent destReg
  | send hm hcap hready hreply => exact .send hm (hcap.mono h) (hready.mono h) (hreply.mono h)
  | ask destReg timeout hm hcap hready hreply =>
    exact .ask destReg timeout hm (hcap.mono h) (hready.mono h) (hreply.mono h)
  | receive destReg timeout matchTag matchRequestId hfree =>
    exact .receive _ _ _ _ fun hc => hfree ((h.confined hid).mp hc)
  | monitor destReg hcap => exact .monitor destReg (hcap.mono h)
  | demonitor reg raw => exact .demonitor reg raw
  | link destReg hcap => exact .link destReg (hcap.mono h)
  | unlink reg raw => exact .unlink reg raw
  | registerName name cap hfree =>
    exact .registerName name cap fun hc => hfree ((h.confined hid).mp hc)

/-- A token minted for a flow. -/
theorem minted_ensures {holder target : FlowId} (hholder : s.Allocated holder)
    (htarget : s.WasLive target) (rights : CapRights) :
    Ensures c strict k (fun s token => s.Holds holder target token) s
      (minted (CapTable.mint holder target rights)) :=
  ensures_orThrow (CapsLearn.onCaps (mint_learns hholder htarget rights))

/-- **Effects.** Whatever others do while it is answered, an effect comes to one of the answers. -/
theorem effectCode_ensures {id : FlowId} {process : Process} {result : VmResult}
    (hid : s.WasLive id) (himage : Image c process.vm)
    (hfree : s.Confined id → process.authority.rights = CapRights.none)
    (hseen : strict → ∀ v ∈ spawnArgs result ++ process.vm.chunk.constants, ∀ token ∈ v.tokens,
      s.Seen token) :
    Ensures c strict ⟨some id, spawnArgs result⟩ (fun s => Answers strict id s result) s
      (effectCode c id process result) := by
  have hright (need : CapRights) (hneed : CapRights.none.contains need = false)
      (h : process.authority.rights.contains need) : ¬s.Confined id := fun hc => by
    rw [hfree hc, hneed] at h
    cases h
  cases result with
  | complete value => exact .pure (.complete value)
  | yield => exact .pure .yield
  | sleep delay => exact .pure (.sleep delay)
  | trap fault => exact .throw _
  | selfPid destReg =>
    refine (minted_ensures hid.1 hid _).bind fun s₁ token _ htoken => .pure ?_
    obtain ⟨entry, hg, hh, ht⟩ := htoken
    exact .token destReg hg hh fun _ _ => ht
  | spawn function args destReg requestedRights =>
    have hspawns : Spawns c strict ⟨some id, args⟩ s process.vm.chunk
        (some ⟨process.authority, process.cell, requestedRights⟩)
        (.bytecode id requestedRights args) := by
      refine ⟨himage.2, hseen, fun parent rights args' ho => ?_⟩
      cases ho
      exact ⟨rfl, hid.1, _, rfl, rfl, hfree⟩
    refine (spawnOn_ensures hspawns function).bind fun s₁ child h₁ hchild => ?_
    refine (minted_ensures (h₁.allocated _ hid.1) hchild.2.1 _).grown.bind
      fun s₂ token h₂ htoken => .pure ?_
    obtain ⟨h₁₂, entry, hg, hh, ht⟩ := htoken
    refine .token destReg hg hh fun _ hc => ?_
    exact absurd ((h₁₂.confined (h₁.allocated _ hid.1)).mp hc) (hchild.2.2 _ _ _ rfl)
  | send targetCap message =>
    rw [effectCode]
    split
    · exact .throw _
    · rename_i m hm
      refine (outgoing_ensures hid targetCap _ m).bind fun s₁ r _ hr => .pure ?_
      exact .send hm hr.1 hr.2.1 hr.2.2
  | receive destReg timeout matchTag matchRequestId =>
    rw [effectCode]
    split_ifs with hrecv
    · exact .throw _
    · refine .pure (.receive _ _ _ _ (hright CapRights.recv rfl ?_))
      simpa using hrecv
  | ask destReg targetCap request timeout =>
    rw [effectCode]
    split
    · exact .throw _
    · rename_i m hm
      refine (outgoing_ensures hid targetCap _ m).bind fun s₁ r _ hr => .pure ?_
      exact .ask destReg timeout hm hr.1 hr.2.1 hr.2.2
  | monitor destReg targetCap =>
    exact (resolveRelationCap_ensures targetCap id _).bind fun s₁ target _ htarget =>
      .pure (.monitor destReg htarget)
  | link destReg targetCap =>
    exact (resolveRelationCap_ensures targetCap id _).bind fun s₁ target _ htarget =>
      .pure (.link destReg htarget)
  | demonitor reg =>
    rw [effectCode]
    split
    · exact .pure (.demonitor reg _)
    · exact .throw _
  | unlink reg =>
    rw [effectCode]
    split
    · exact .pure (.unlink reg _)
    · exact .throw _
  | registerName name =>
    rw [effectCode]
    by_cases hsend : process.authority.rights.contains CapRights.send
    · rw [if_neg (by simpa using hsend)]
      split_ifs
      · exact .throw _
      refine (minted_ensures hid.1 hid _).grown.bind fun s₁ token _ htoken => .pure ?_
      refine .registerName name token fun hc => ?_
      exact hright CapRights.send rfl hsend ((htoken.1.confined hid.1).mp hc)
    · rw [if_pos (by simpa using hsend)]
      exact .throw _
  | whereis destReg name =>
    refine (performed (by trivial)).bind fun s₁ target h₁ _ => ?_
    split
    · exact .pure (.absent destReg)
    · rename_i target
      refine (performed (by trivial)).bind fun s₂ live h₂ hlive => ?_
      split_ifs with hl
      · obtain ⟨hlive, hself⟩ := hlive hl
        have hida := (h₁.trans h₂).allocated _ hid.1
        refine .bind (ensures_orThrow (CapsLearn.onCaps
          (mintOrReuse_learns hida hlive CapRights.send))) fun s₃ token h₃ htoken => .pure ?_
        obtain ⟨entry, hg, hh, ht⟩ := htoken
        refine .token destReg hg hh fun hs hc => ?_
        rw [ht, hself hs id rfl ((h₃.confined hida).mp hc)]
      · exact .pure (.absent destReg)
  | delegate destReg srcCap wantRights wantNativeCap =>
    have hrest (s₁ : State) (wantNative : Option NativeMask) (h₁ : Grows strict s s₁) :
        Ensures c strict ⟨some id, []⟩
          (fun s => Answers strict id s (.delegate destReg srcCap wantRights wantNativeCap)) s₁ (do
          let cap ← caps (CapTable.attenuate srcCap id id wantRights wantNative)
          return .resume destReg (.cap cap)) :=
      (attenuate_ensures (h₁.allocated _ hid.1) srcCap id wantRights wantNative).caps.bind
        fun s₂ token _ hmoved => .pure (.delegate destReg hmoved)
    cases wantNativeCap with
    | none => exact hrest s none (.refl s)
    | some native =>
      exact (resolve_ensures native id _).caps.bind fun s₁ entry h₁ _ =>
        hrest s₁ entry.cap.nativeMask h₁

/-- A failure of the code is a trap of the flow. -/
theorem effect_learns {id : FlowId} {process : Process} {result : VmResult}
    (hid : s.WasLive id) (himage : Image c process.vm)
    (hfree : s.Confined id → process.authority.rights = CapRights.none)
    (hseen : strict → ∀ v ∈ spawnArgs result ++ process.vm.chunk.constants, ∀ token ∈ v.tokens,
      s.Seen token) :
    Learns c strict ⟨some id, spawnArgs result⟩ (fun s => Answers strict id s result) s
      (effect c id process result) :=
  Prog.Learns.bind (effectCode_ensures hid himage hfree hseen) fun s₁ r _ hr => by
    cases r with
    | ok outcome => exact hr outcome rfl
    | error message => exact .trap message

/-! ## Calls of the embedder -/

/-- The arguments that the embedder hands over for a new flow. -/
def callArgs : Call → List Value
  | .spawn _ _ args => args
  | .spawnChild _ _ args _ => args
  | _ => []

/-- The constants of the image that a spawn comes with. -/
def callConstants : Call → List Value
  | .spawn chunk _ _ => chunk.constants
  | .spawnChild chunk _ _ _ => chunk.constants
  | _ => []

/-- What a call may go on with in the machine. -/
inductive Replies (s : State) : Call → Outcome → Prop
  | done {call} : Replies s call (.call [])
  | nameChild {call} (child : FlowId) (name : String) (cap : CapId) :
      Replies s call (.call [.nameChild child name cap])
  | kill {call} (id : FlowId) (reason : FlowExitReason) :
      Replies s call (.call [.kill .lookup id reason .request])
  | send {target : FlowId} {message : Value} {m m' : Message} (hm : message.asMessage = some m)
      (hready : s.Ready none target m m') :
      Replies s (.send target message) (.call [.hostStamp target m'])
  | registerName {call} (name : String) (cap : CapId) (target : FlowId) :
      Replies s call (.call [.relate (.registerName name cap target)])

theorem Replies.mono {call : Call} {outcome : Outcome} (hr : Replies s call outcome)
    (h : Grows strict s s') : Replies s' call outcome := by
  cases hr with
  | done => exact .done
  | nameChild child name cap => exact .nameChild child name cap
  | kill id reason => exact .kill id reason
  | send hm hready => exact .send hm (hready.mono h)
  | registerName name cap target => exact .registerName name cap target

theorem requireLive_ensures (id : FlowId) :
    Ensures c strict k (fun s _ => s.WasLive id) s (requireLive id) := by
  refine (performed (by trivial)).bind fun s₁ (live : Bool) _ hlive => ?_
  cases live with
  | false => exact .throw _
  | true => exact .pure (hlive rfl).1

theorem requireAdmin_ensures (holder : FlowId) (cap : CapId) :
    Ensures c strict k (fun _ _ => True) s (requireAdmin holder cap) :=
  (resolve_ensures cap holder _).caps.bind fun _ _ _ _ =>
    (performed (by trivial)).bind fun _ _ _ _ => .liftM fun _ _ => trivial

/-- **Calls.** Whatever others do meanwhile, a call comes to one of the replies. -/
theorem callCode_ensures {call : Call} (hcall : call.Loaded c.trust)
    (hseen : strict → ∀ v ∈ callArgs call ++ callConstants call, ∀ token ∈ v.tokens,
      s.Seen token) :
    Ensures c strict ⟨none, callArgs call⟩ (fun s => Replies s call) s (callCode c call) := by
  have hspawns {chunk : Chunk} (hchunk : chunk.verifyWith c.trust = .ok ())
      (hconstants : callConstants call = chunk.constants) :
      Spawns c strict ⟨none, callArgs call⟩ s chunk none .host :=
    ⟨.inl hchunk, hconstants ▸ hseen, nofun⟩
  cases call with
  | spawn chunk function args =>
    exact (spawnOn_ensures (hspawns hcall rfl) function).bind fun _ _ _ _ => .pure .done
  | spawnChild chunk function args name =>
    refine (spawnOn_ensures (hspawns hcall rfl) function).bind fun s₁ child h₁ hchild => ?_
    split_ifs
    · exact .pure .done
    · refine .bind (.lift (CapsLearn.onCaps (mint_learns hchild.1 hchild.2.1 _))) fun s₂ r _ _ => ?_
      split
      · exact .pure (.nameChild child name _)
      · exact .pure (.kill child .supervisor)
  | send target message =>
    rw [callCode]
    split
    · exact .pure .done
    · rename_i m hm
      refine (requireLive_ensures target).bind fun s₁ _ _ hlive => ?_
      exact (authenticateHostOutgoingMessage_ensures hlive m).bind fun s₂ m' _ hready =>
        .pure (.send hm hready)
  | mintCap flow =>
    refine (requireLive_ensures flow).bind fun s₁ _ _ hlive => ?_
    exact (minted_ensures hlive.1 hlive _).bind fun _ _ _ _ => .pure .done
  | grantCap holder target =>
    refine (requireLive_ensures holder).bind fun s₁ _ _ hholder => ?_
    refine (requireLive_ensures target).bind fun s₂ _ h₂ htarget => ?_
    exact (minted_ensures (h₂.allocated _ hholder.1) htarget _).bind fun _ _ _ _ => .pure .done
  | mintAdminCap holder =>
    refine (requireLive_ensures holder).bind fun s₁ _ _ hholder => ?_
    refine (performed (by trivial)).bind fun s₂ epoch h₂ hepoch => ?_
    have hcap : s₂.Current ⟨.scheduler, CapRights.admin, none, epoch⟩ := hepoch.2 rfl
    refine .bind (Q := fun _ _ => True) (ensures_orThrow (CapsLearn.onCaps ?_)) fun _ _ _ _ =>
      .pure .done
    exact .act ⟨h₂.allocated _ hholder.1, hcap⟩ fun _ _ _ _ _ _ => trivial
  | adminKill holder cap target =>
    refine (requireAdmin_ensures holder cap).bind fun s₁ _ _ _ => ?_
    exact (requireLive_ensures target).bind fun _ _ _ _ => .pure (.kill target .killed)
  | adminTopUpCpu holder cap target extra =>
    refine (requireAdmin_ensures holder cap).bind fun s₁ _ _ _ => ?_
    exact (performed (by trivial)).bind fun _ _ _ _ => .pure .done
  | adminTopUpMem holder cap target extra =>
    refine (requireAdmin_ensures holder cap).bind fun s₁ _ _ _ => ?_
    exact (performed (by trivial)).bind fun _ _ _ _ => .pure .done
  | registerName name cap =>
    refine (performed (by trivial)).bind fun s₁ entry _ _ => ?_
    split
    · exact .pure .done
    · split
      · exact .pure .done
      · exact .pure (.registerName _ _ _)

/-- A call that fails does nothing more. -/
theorem call_learns {call : Call} (hcall : call.Loaded c.trust)
    (hseen : strict → ∀ v ∈ callArgs call ++ callConstants call, ∀ token ∈ v.tokens,
      s.Seen token) :
    Learns c strict ⟨none, callArgs call⟩ (fun s => Replies s call) s (Worker.call c call) :=
  Prog.Learns.bind (callCode_ensures hcall hseen) fun s₁ r _ hr => by
    cases r with
    | ok outcome => exact hr outcome rfl
    | error message => exact .done

end Worker

end Byteflow
