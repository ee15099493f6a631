import Byteflow.Scheduler.Worker.Tags

/-!
# Where identity and authority come from

An untrusted chunk over the standard natives can neither name a sender nor make up a token. So if
the embedder brings along no sender but the host and no token but those of the capability table
(`Honest`), then every token anywhere was made by the table, and every message anywhere shows as
its sender the host, the flow that sent it, or the flow that a notice of the runtime is about
(`provenance`).
-/

namespace Byteflow

namespace Value

/-- The messages in a value, at any depth. -/
def messages : Value → List Message
  | message sender replyCap requestId tag payload =>
    ⟨sender, replyCap, requestId, tag, payload⟩ :: payload.messages
  | _ => []

/-- The value without the tokens that are made anew for each recipient. -/
def stripped : Value → Value
  | cap _ => cap CapId.none
  | message sender replyCap requestId tag payload =>
    message sender replyCap requestId tag payload.stripped
  | v => v

theorem Plain.messages {v : Value} (h : v.Plain) : v.messages = [] := by
  obtain ⟨-, hmessage⟩ := h
  cases v with
  | message => cases hmessage
  | _ => rfl

theorem Plain.tokens {v : Value} (h : v.Plain) : v.tokens = [] := by
  obtain ⟨hcap, hmessage⟩ := h
  cases v with
  | cap => cases hcap
  | message => cases hmessage
  | _ => rfl

end Value

namespace Worker

variable {c : Config} {strict : Prop} {s s' : State}

/-! ## Values -/

/-- The token is none, or the capability table made it. -/
def State.Issued (s : State) (token : CapId) : Prop :=
  token = CapId.none ∨ ∃ entry, s.Given token entry

instance (token : CapId) : Decidable (s.Issued token) :=
  decidable_of_iff (token = CapId.none ∨ ∃ p ∈ s.log.given, p.1 = token) <| or_congr_right
    ⟨fun ⟨⟨_, entry⟩, hp, heq⟩ => heq ▸ ⟨entry, hp⟩, fun ⟨entry, hg⟩ => ⟨(token, entry), hg, rfl⟩⟩

theorem State.Issued.mono {token : CapId} (h : s.Issued token) (hgrows : Grows strict s s') :
    s'.Issued token := h.imp_right fun ⟨entry, hg⟩ => ⟨entry, hgrows.given _ _ hg⟩

/-- The sender that a message shows was not made up. -/
inductive Genuine (s : State) (m : Message) : Prop
  | host (hsender : m.sender = FlowId.host)
  | sent (hop : Hop) (hissued : ⟨.flow m.sender, hop⟩ ∈ s.log.hops)
      (hsame : hop.value.stripped = m.toValue.stripped)
  | notice (hbuilt : SystemBuilt s m)

theorem Genuine.mono {m : Message} (h : Genuine s m) (hgrows : Grows strict s s') :
    Genuine s' m := by
  cases h with
  | host hsender => exact .host hsender
  | sent hop hissued hsame => exact .sent hop (hgrows.hops _ hissued) hsame
  | notice hbuilt => exact .notice (hbuilt.mono hgrows)

/-- No sender and no token in the value was made up. -/
structure Vouched (s : State) (v : Value) : Prop where
  messages : ∀ m ∈ v.messages, Genuine s m
  tokens : ∀ token ∈ v.tokens, s.Issued token

namespace Vouched

variable {v w : Value}

theorem mono (h : Vouched s v) (hgrows : Grows strict s s') : Vouched s' v where
  messages := fun m hm => (h.messages m hm).mono hgrows
  tokens := fun token ht => (h.tokens token ht).mono hgrows

theorem plain (h : v.Plain) : Vouched s v where
  messages := by
    rw [h.messages]
    exact List.forall_mem_nil _
  tokens := by
    rw [h.tokens]
    exact List.forall_mem_nil _

theorem cap {token : CapId} (h : s.Issued token) : Vouched s (.cap token) where
  messages := List.forall_mem_nil _
  tokens := List.forall_mem_singleton.mpr h

theorem message {m : Message} (hgenuine : Genuine s m) (hreply : s.Issued m.replyCap)
    (hpayload : Vouched s m.payload) : Vouched s m.toValue where
  messages := List.forall_mem_cons.mpr ⟨hgenuine, hpayload.messages⟩
  tokens := List.forall_mem_cons.mpr ⟨hreply, hpayload.tokens⟩

variable {m : Message}

theorem genuine (h : Vouched s m.toValue) : Genuine s m := h.messages m List.mem_cons_self

theorem replyCap (h : Vouched s m.toValue) : s.Issued m.replyCap :=
  h.tokens m.replyCap List.mem_cons_self

theorem payload (h : Vouched s m.toValue) : Vouched s m.payload where
  messages := fun m' hm' => h.messages m' (List.mem_cons_of_mem _ hm')
  tokens := fun token ht => h.tokens token (List.mem_cons_of_mem _ ht)

/-- The natives make nothing up. -/
theorem shared (s : State) : Value.Shared (Vouched s) where
  plain := fun _ => plain
  built := fun requestId tag payload h =>
    message (m := ⟨FlowId.host, CapId.none, requestId, tag, payload⟩) (.host rfl) (.inl rfl) h
  payload := fun _ => payload
  replyCap := fun _ h => cap h.replyCap

end Vouched

/-- A value that is passed on stays the same but for its tokens. -/
theorem State.Passed.stripped {sender : Option FlowId} {recipient : FlowId} {v w : Value}
    (h : s.Passed sender recipient v w) : w.stripped = v.stripped := by
  induction v generalizing w with
  | cap id =>
    rcases h with ⟨-, rfl⟩ | ⟨id', rfl, -⟩ <;> rfl
  | message sender replyCap requestId tag payload ih =>
    obtain ⟨payload', rfl, hpayload⟩ := h
    simp only [Value.stripped, ih hpayload]
  | _ =>
    obtain rfl := h
    rfl

/-- A message of the runtime has no token to make anew. -/
theorem SystemBuilt.passed {m : Message} (h : SystemBuilt s m) {sender : Option FlowId}
    {recipient : FlowId} {w : Value} (hw : s.Passed sender recipient m.payload w) :
    w = m.payload := by
  obtain ⟨monitor, code, hm⟩ | ⟨code, hm⟩ := h.built <;> rw [hm] at hw ⊢ <;> exact hw

theorem State.Moved.issued {holder : Option FlowId} {recipient : FlowId} {id id' : CapId}
    (h : s.Moved holder recipient id id') : s.Issued id' := by
  obtain ⟨-, entry', -, -, hg, -, -⟩ := h
  exact .inr ⟨entry', hg⟩

theorem Vouched.passed {sender : Option FlowId} {recipient : FlowId} {v w : Value}
    (h : Vouched s v) (hw : s.Passed sender recipient v w) : Vouched s w := by
  induction v generalizing w with
  | cap id =>
    rcases hw with ⟨-, rfl⟩ | ⟨id', rfl, hmoved⟩
    · exact h
    · exact .cap hmoved.issued
  | message a r q t payload ih =>
    obtain ⟨payload', rfl, hpayload⟩ := hw
    have h : Vouched s (Message.mk a r q t payload).toValue := h
    refine Vouched.message (m := ⟨a, r, q, t, payload'⟩) ?_ h.replyCap (ih h.payload hpayload)
    cases h.genuine with
    | host hsender => exact .host hsender
    | sent hop hissued hsame =>
      refine .sent hop hissued (hsame.trans ?_)
      simp only [Message.toValue, Value.stripped, hpayload.stripped]
    | notice hbuilt =>
      obtain rfl := hbuilt.passed hpayload
      exact .notice hbuilt
  | _ =>
    obtain rfl := hw
    exact h

theorem Vouched.granted {parent : Option FlowId} {child : FlowId} {v w : Value}
    (h : Vouched s v) (hw : s.GrantedArg parent child v w) : Vouched s w := by
  rcases hw with ⟨-, rfl⟩ | ⟨id, id', -, rfl, hmoved⟩
  · exact h
  · exact .cap hmoved.issued

/-! ## Runs -/

/-- The sender that a message shows is who issued its hop, or the hop is a notice of the runtime. -/
def Shows (s : State) (m : Message) : Machine.HopSource → Prop
  | .flow id => m.sender = id
  | .host => m.sender = FlowId.host
  | .monitor => SystemBuilt s m

/-- The hop was issued with the sender that its message shows. -/
def Attributed (s : State) (hop : Hop) : Prop :=
  ∃ m source, hop.value.asMessage = some m ∧ ⟨source, hop⟩ ∈ s.log.hops ∧ Shows s m source

theorem Attributed.mono {hop : Hop} (h : Attributed s hop) (hgrows : Grows strict s s') :
    Attributed s' hop := by
  obtain ⟨m, source, hm, hissued, hshows⟩ := h
  refine ⟨m, source, hm, hgrows.hops _ hissued, ?_⟩
  cases source with
  | monitor => exact hshows.mono hgrows
  | _ => exact hshows

/-- What the embedder has: no sender but the host, and no token but those of the table. -/
structure Honest (s : State) (v : Value) : Prop where
  messages : ∀ m ∈ v.messages, m.sender = FlowId.host
  tokens : ∀ token ∈ v.tokens, s.Issued token

theorem Honest.vouched {v : Value} (h : Honest s v) : Vouched s v where
  messages := fun m hm => .host (h.messages m hm)
  tokens := h.tokens

instance (v : Value) : Decidable (Honest s v) :=
  decidable_of_iff ((∀ m ∈ v.messages, m.sender = FlowId.host) ∧ ∀ token ∈ v.tokens, s.Issued token)
    ⟨fun h => ⟨h.1, h.2⟩, fun h => ⟨h.messages, h.tokens⟩⟩

def provenancePolicy : Policy where
  holds := fun s _ v => Vouched s v
  carries := fun s _ hop => Vouched s hop.value ∧ Attributed s hop
  waits := fun _ _ _ => True
  brings := Honest
  sends := fun _ => True

theorem vouched_granted {parent : Option FlowId} {child : FlowId} {args args' : List Value}
    (h : List.Forall₂ (s.GrantedArg parent child) args args') (hargs : ∀ v ∈ args, Vouched s v) :
    ∀ w ∈ args', Vouched s w := by
  induction h with
  | nil => exact List.forall_mem_nil _
  | cons hw _ ih =>
    obtain ⟨hv, hargs⟩ := List.forall_mem_cons.mp hargs
    exact List.forall_mem_cons.mpr ⟨hv.granted hw, ih hargs⟩

/-- What an untrusted chunk starts with is vouched for. -/
theorem keeps_of_built {k : Context} {id : FlowId} {process : Process}
    (htrust : c.trust = .untrusted) (hb : Built c strict k s id process)
    (hargs : ∀ v ∈ k.args, Vouched s v) : Keeps provenancePolicy s id process.vm where
  registers := fun frame hf v hv => by
    obtain ⟨args, hgranted, hregisters⟩ := hb.args
    rcases hregisters frame hf v hv with rfl | hv
    · exact .plain Value.plain_unit
    · exact vouched_granted hgranted hargs v hv
  constants := fun v hv => by
    rcases hb.image.2 with hverify | hnil
    · rw [htrust] at hverify
      exact .plain (Chunk.constants_of_verify hverify v hv)
    · rw [hnil] at hv
      cases hv

theorem provenancePolicy_kept (strict : Prop) (htrust : c.trust = .untrusted)
    (hnatives : c.natives = stdNatives) : provenancePolicy.Kept c strict where
  holds_mono := fun hgrows h => h.mono hgrows
  carries_mono := fun hgrows h => ⟨h.1.mono hgrows, h.2.mono hgrows⟩
  waits_mono := fun _ _ => trivial
  brings_mono := fun hgrows h => ⟨h.messages, fun token ht => (h.tokens token ht).mono hgrows⟩
  plain := .plain
  native := fun {s id _ _ _ _ _ _} hs _ hf ha hv => by
    rcases (hs.fitted.image id).1 with he | he <;> rw [he] at hf
    · rw [hnatives] at hf
      exact stdNatives_closed (Vouched.shared s) hf ha hv
    · cases hf
  token := fun _ hgiven _ _ => .cap (.inr ⟨_, hgiven⟩)
  delegate := fun _ hmoved _ => .cap hmoved.issued
  built := fun {k _ _ _} _ hb hflow hhost => by
    refine keeps_of_built htrust hb fun v hv => ?_
    cases hk : k.flow with
    | some parent => exact hflow v hv parent hk
    | none => exact (hhost hk v hv).vouched
  send := fun _ hsent hissued => by
    cases hsent with
    | @intro cap m m' reply n hcap hready hreply hholds hmessage hsends =>
      obtain ⟨entry, hg, -⟩ := hreply
      have hpayload : Vouched _ m'.payload := hmessage.payload.passed hready.payload
      refine ⟨Vouched.message (.sent _ hissued rfl) (.inr ⟨entry, hg⟩) hpayload, ?_⟩
      exact ⟨_, _, rfl, hissued, rfl⟩
  stamp := fun _ ⟨m, hbrings, hready⟩ hissued => by
    have hpayload := hbrings.vouched.payload.passed hready.payload
    exact ⟨.message (.host rfl) (.inl rfl) hpayload, _, _, rfl, hissued, rfl⟩
  down := fun _ hexited hissued => by
    have hbuilt := systemBuilt_down hexited
    exact ⟨.message (.notice (hbuilt _ _)) (.inl rfl) (.plain (Value.plain_int _)), _, _, rfl,
      hissued, hbuilt _ _⟩
  receive := fun _ _ _ _ => trivial
  ask := fun _ _ _ _ => trivial
  handed := fun _ hcarries _ _ => hcarries.1
  notice := fun code _ hexited =>
    .message (.notice (systemBuilt_linkedExit hexited code)) (.inl rfl)
      (.plain (Value.plain_int _))

/-! ## Every hop has one source -/

/-- The hops of a run are those that its machine issued. -/
abbrev Sourced (s : State) : Prop := Machine.Originated s.machine s.log.hops

/-- A step that the machine does not make. -/
theorem Sourced.stays (h : Sourced s)
    (hframes : ∀ f ∈ s'.machine.frames, f ∈ s.machine.frames ∨ f.hop = none)
    (hmailboxes : s'.machine.shared.mailboxes = s.machine.shared.mailboxes)
    (hnext : s'.machine.shared.nextHop = s.machine.shared.nextHop)
    (hhops : s'.log.hops = s.log.hops) : Sourced s' where
  fresh := by
    rw [hnext, hhops]
    exact h.fresh
  unique := by
    rw [hhops]
    exact h.unique
  stamped := by
    rw [hhops]
    exact h.stamped
  frames := fun f hf hop hh => by
    rw [hhops]
    rcases hframes f hf with hf | hnone
    · exact h.frames f hf hop hh
    · rw [hnone] at hh
      cases hh
  waiting := by
    rw [hmailboxes, hhops]
    exact h.waiting
  queued := by
    rw [hmailboxes, hhops]
    exact h.queued

theorem Sourced.machine (h : Sourced s) (hmachine : s'.machine = s.machine)
    (hhops : s'.log.hops = s.log.hops) : Sourced s' := by
  refine h.stays ?_ ?_ ?_ hhops <;> rw [hmachine]
  exact fun _ => .inl

theorem Sourced.exec (h : Sourced s) (env : Env) (op : Op) : Sourced (s.exec env op).1 := by
  have hexecs := execs s env op
  generalize (s.exec env op).1 = s' at hexecs ⊢
  cases hexecs with
  | tables op => cases op <;> exact h.stays (fun _ => .inl) rfl rfl rfl
  | _ => exact h.stays (fun _ => .inl) rfl rfl rfl

theorem Sourced.goOn (h : Sourced s) (t : ℕ) (env : Env) (destReg : Option UInt8)
    (result : Machine.VmResult) : Sourced (s.goOn t env destReg result) :=
  goOn_induct (h.step (t, .vm result)) fun _ _ _ _ h => h.machine rfl rfl

theorem hop_of_replies {call : Call} {frames : List Machine.Frame}
    (h : Replies s call (.call frames)) : ∀ f ∈ frames, f.hop = none := by
  cases h with
  | done => exact List.forall_mem_nil _
  | _ => exact List.forall_mem_singleton.mpr rfl

theorem Sourced.step (h : Sourced s) (hr : Running c strict s) (ti : ℕ × Input) :
    Sourced (Worker.step c s ti) := by
  have hstep := stepped c s ti
  have hgoing := hr.going
  have hidle {t : ℕ} : Sourced (s.setMode t .idle) := h.machine rfl rfl
  generalize Worker.step c s ti = s' at hstep ⊢
  cases hstep with
  | advance t input env hmode hrun hstart => exact Machine.Originated.step h (t, input)
  | fail t env id message hrun => exact hidle.goOn ..
  | goOn t env id result destReg vm hrun hmode => exact hidle.goOn ..
  | execute t env id ran left hrun hmode =>
    unfold State.execute
    dsimp only
    split <;> exact h.machine rfl rfl
  | act t env id result op k hrun hmode => exact (h.exec env op).machine rfl rfl
  | serve t env call op k hrun hmode => exact (h.exec env op).machine rfl rfl
  | enter t env call frames hrun hmode =>
    have hreplies := hgoing t
    unfold Going at hreplies
    rw [hmode] at hreplies
    refine h.stays (fun f hf => ?_) rfl rfl rfl
    exact (State.frames_of_enter hf).imp_right (hop_of_replies hreplies f)
  | _ => exact h.machine rfl rfl

theorem run_sourced (c : Config) (sched : List (ℕ × Input)) : Sourced (run c sched) :=
  (Schedule.invariant (I := fun s => Running c False s ∧ Sourced s)
    (fun _ ti h => ⟨h.1.step ti False.elim, h.2.step h.1 ti⟩)
    ⟨running_init c False, Machine.originated_init c.mailbox⟩ sched).2

/-! ## Provenance -/

/-- Neither a sender nor a token was made up, wherever it is. -/
structure Provenance (s : State) : Prop where
  /-- What a mailbox accepts was issued by one source, which is the sender that it shows. -/
  accepted : ∀ t input id hop, hop ∈ Machine.accepted id s.machine (t, input) →
    ∃ m source, hop.value.asMessage = some m ∧ Shows s m source ∧
      ∀ source', ⟨source', hop⟩ ∈ s.log.hops ↔ source' = source
  registers : ∀ id, ∀ frame ∈ (s.processes id).vm.frames, ∀ v ∈ frame.registers, Vouched s v
  /-- In the frames, among the waiting senders and in the queues. -/
  hops : Machine.Carries (fun _ hop => Vouched s hop.value) s.machine
  handed : ∀ t f r, s.top t = some f → f.hands s.machine.shared = some r → Vouched s r.value

/-- The embedder brings along what it has. -/
def BringsHonest (s : State) : ℕ × Input → Prop
  | (_, .call call) => ∀ v ∈ brought call, Honest s v
  | _ => True

instance (s : State) (ti : ℕ × Input) : Decidable (BringsHonest s ti) :=
  match ti with
  | (_, .call call) => inferInstanceAs (Decidable (∀ v ∈ brought call, Honest s v))
  | (_, .machine ..) | (_, .code _) => inferInstanceAs (Decidable True)

/-- **Provenance.** In a run of untrusted chunks over the standard natives, whose embedder brings
along nothing that it made up, nobody makes up a sender or a token. -/
theorem provenance (c : Config) (htrust : c.trust = .untrusted) (hnatives : c.natives = stdNatives)
    (sched : List (ℕ × Input))
    (h : Schedule.Guarded (step c) BringsHonest (State.init c) sched) :
    Provenance (run c sched) := by
  have hkept := provenancePolicy_kept False htrust hnatives
  obtain ⟨hr, hu⟩ := run_upheld hkept sched False.elim (h.mono fun s ti hti => by
    match ti with
    | (t, .code env) => exact fun _ _ => trivial
    | (t, .machine input env) => trivial
    | (t, .call call) => exact hti)
  refine ⟨fun t input id hop hhop => ?_, fun id => (hu.boxes id).registers,
    hu.transit.carries.mono fun _ _ hcarries => hcarries.1, fun t f r htop hands => ?_⟩
  · obtain ⟨-, m, source, hm, hissued, hshows⟩ := hu.transit.carries.accepted hhop
    refine ⟨m, source, hm, hshows, fun source' => ⟨fun hissued' => ?_, fun heq => heq ▸ hissued⟩⟩
    exact congrArg Machine.Issue.source ((run_sourced c sched).unique _ hissued' _ hissued rfl)
  · obtain ⟨rest, hs⟩ := State.cons_of_top htop
    exact (hu.transit.handed hr.sound (Machine.mem_frames_of_cons hs) hands).holds
      hkept.toSustained hr.sound

set_option maxRecDepth 4000 in
theorem provenance_sendsItself : Provenance (run standard (driveSendsItself 7)) :=
  provenance standard rfl rfl _ (by decide)

end Worker

end Byteflow
