import Byteflow.Scheduler.Worker.Knowledge
import Byteflow.Vm.Values

/-!
# What the capability table hands out

What the programs that mint, narrow and pass on tokens come to, whatever other threads do in
between. A token that is handed out was given to its new holder for what the old one addresses.
-/

namespace Byteflow

namespace Worker

variable {c : Config} {strict : Prop} {k : Context} {s s' : State} {α ε : Type}

/-! ## Three kinds of code -/

abbrev Learns (c : Config) (strict : Prop) (k : Context) (post : State → α → Prop) (s : State)
    (p : Prog Op.Result α) : Prop :=
  Prog.Learns (Grows strict) (Tells strict k) (Needs c strict k) post s p

abbrev Ensures (c : Config) (strict : Prop) (k : Context) (post : State → α → Prop) (s : State)
    (x : ExceptT ε (Prog Op.Result) α) : Prop :=
  Prog.Ensures (Grows strict) (Tells strict k) (Needs c strict k) post s x

abbrev TablesLearn (c : Config) (strict : Prop) (k : Context) (post : State → α → Prop)
    (s : State) (p : Prog Spawn.Op.Result α) : Prop :=
  Prog.Learns (Grows strict) (fun s op r => Tells strict k s (.tables op) r)
    (fun s op => Needs c strict k s (.tables op)) post s p

abbrev TablesEnsure (c : Config) (strict : Prop) (k : Context) (post : State → α → Prop)
    (s : State) (x : ExceptT ε (Prog Spawn.Op.Result) α) : Prop :=
  Prog.Ensures (Grows strict) (fun s op r => Tells strict k s (.tables op) r)
    (fun s op => Needs c strict k s (.tables op)) post s x

abbrev CapsLearn (c : Config) (strict : Prop) (k : Context) (post : State → α → Prop) (s : State)
    (p : Prog CapTable.Op.Result α) : Prop :=
  Prog.Learns (Grows strict) (fun s op r => Tells strict k s (.tables (.caps op)) r)
    (fun s op => Needs c strict k s (.tables (.caps op))) post s p

abbrev CapsEnsure (c : Config) (strict : Prop) (k : Context) (post : State → α → Prop)
    (s : State) (x : ExceptT ε (Prog CapTable.Op.Result) α) : Prop :=
  Prog.Ensures (Grows strict) (fun s op r => Tells strict k s (.tables (.caps op)) r)
    (fun s op => Needs c strict k s (.tables (.caps op))) post s x

theorem TablesLearn.onTables {post : State → α → Prop} {p : Prog Spawn.Op.Result α}
    (h : TablesLearn c strict k post s p) : Learns c strict k post s (onTables p) :=
  h.rename (fun _ _ _ h => h) fun _ _ h => h

theorem CapsLearn.onCaps {post : State → α → Prop} {p : Prog CapTable.Op.Result α}
    (h : CapsLearn c strict k post s p) : Learns c strict k post s (onCaps p) :=
  TablesLearn.onTables (h.rename (fun _ _ _ h => h) fun _ _ h => h)

/-- Who gets past an error has the result. -/
theorem ensures_orThrow {post : State → α → Prop} {message : ε → String}
    {p : Prog Op.Result (Except ε α)}
    (h : Learns c strict k (fun s r => ∀ a, r = .ok a → post s a) s p) :
    Ensures c strict k post s (orThrow message p) :=
  Prog.Learns.bind h fun s' r _ hr => by
    cases r with
    | ok a =>
      rintro _ ⟨⟩
      exact hr a rfl
    | error e => exact nofun

theorem CapsEnsure.caps {post : State → α → Prop} {x : CapTable.Code α}
    (h : CapsEnsure c strict k post s x) : Ensures c strict k post s (caps x) :=
  ensures_orThrow (CapsLearn.onCaps h)

theorem TablesEnsure.spawning {post : State → α → Prop} {x : Spawn.Code α}
    (h : TablesEnsure c strict k post s x) : Ensures c strict k post s (spawning x) :=
  ensures_orThrow (TablesLearn.onTables h)

/-! ## Tokens -/

/-- The holder has a token for the target. -/
def State.Holds (s : State) (holder target : FlowId) (id : CapId) : Prop :=
  ∃ entry, s.Given id entry ∧ entry.holder = holder ∧ entry.target = some target

theorem State.Holds.mono {holder target : FlowId} {id : CapId} (h : s.Holds holder target id)
    (hs : Grows strict s s') : s'.Holds holder target id := by
  obtain ⟨entry, hg, hh, ht⟩ := h
  exact ⟨entry, hs.given _ _ hg, hh, ht⟩

theorem current_flow {cap : Cap} {id : FlowId} (ht : cap.target = .flow id) :
    s.Current cap ↔ s.WasLive id ∧ s.EpochOf id cap.epoch := by
  unfold State.Current
  rw [ht]

/-- A narrower record addresses the same, and is as old. -/
theorem current_attenuate {cap : Cap} {wantRights : CapRights}
    {wantNative : Option NativeMask} (h : s.Current cap) :
    s.Current (cap.attenuate wantRights wantNative) := h

theorem target_eq_some {entry : Capability} {flow : FlowId} :
    entry.target = some flow ↔ entry.cap.target = .flow flow := by
  unfold Capability.target
  cases entry.cap.target <;> simp [CapTarget.flowId]

theorem mint_learns {holder target : FlowId} (hholder : s.Allocated holder)
    (htarget : s.WasLive target) (rights : CapRights) :
    CapsLearn c strict k (fun s r => ∀ id, r = .ok id → s.Holds holder target id) s
      (CapTable.mint holder target rights) := by
  refine .act trivial fun s₁ cell h₁ hcell => ?_
  refine .act trivial fun s₂ epoch h₂ hepoch => ?_
  have h := h₁.trans h₂
  refine .act ⟨h.allocated _ hholder, (current_flow rfl).mpr ⟨h.wasLive _ htarget, ?_⟩⟩ ?_
  · exact hepoch.1 target (h₂.cellOf _ _ hcell)
  · intro s₃ r _ hr id hid
    exact ⟨_, hr id hid, rfl, rfl⟩

theorem mintOrReuse_learns {holder target : FlowId} (hholder : s.Allocated holder)
    (htarget : s.WasLive target) (rights : CapRights) :
    CapsLearn c strict k (fun s r => ∀ id, r = .ok id → s.Holds holder target id) s
      (Prog.perform (CapTable.Op.mintOrReuse holder target rights)) :=
  .act ⟨hholder, htarget⟩ fun _ _ _ hr => hr

/-- What a token shows that its holder may use. -/
def State.Shows (s : State) (id : CapId) (holder : FlowId) (need : CapRights)
    (entry : Capability) : Prop :=
  s.Given id entry ∧ s.Current entry.cap ∧ entry.holder = holder ∧
    entry.cap.rights.contains need

/-- One operation on the capability table. -/
theorem capsPerform {op : CapTable.Op} (h : Needs c strict k s (.tables (.caps op))) :
    CapsEnsure c strict k (fun s r => Tells strict k s (.tables (.caps op)) r) s
      (CapTable.perform op) :=
  .perform h fun _ _ _ hr => hr

theorem resolve_ensures (id : CapId) (holder : FlowId) (need : CapRights) :
    CapsEnsure c strict k (fun s entry => s.Shows id holder need entry) s
      (resolve id holder need) :=
  (capsPerform (by trivial)).bind fun _ _ _ hr => .liftM hr

theorem token_ensures {post : State → CapId → Prop} {r : Except RuntimeError CapId}
    (h : ∀ id, r = .ok id → post s id) : CapsEnsure c strict k post s (CapTable.token r) := by
  cases r with
  | ok id => exact .pure (h id rfl)
  | error e => exact .throw _

theorem insert_ensures {entry : Capability} (hholder : s.Allocated entry.holder)
    (hcap : s.Current entry.cap) :
    CapsEnsure c strict k (fun s id => s.Given id entry) s
      (CapTable.perform (.insert entry) >>= CapTable.token) :=
  (capsPerform (by exact ⟨hholder, hcap⟩)).bind fun _ _ _ hr => token_ensures hr

theorem attenuate_ensures {toHolder : FlowId} (hto : s.Allocated toHolder) (id : CapId)
    (fromHolder : FlowId) (wantRights : CapRights) (wantNative : Option NativeMask) :
    CapsEnsure c strict k (fun s id' => s.Moved (some fromHolder) toHolder id id') s
      (CapTable.attenuate id fromHolder toHolder wantRights wantNative) := by
  refine (capsPerform (by trivial)).bind fun s₁ r h₁ hr => ?_
  refine .bind (.liftM (Q := fun s src => s.Shows id fromHolder CapRights.none src)
    fun src hsrc => hr src hsrc)
    fun s₂ src h₂ hsrc => ?_
  split
  · rename_i flow htarget
    refine (capsPerform (by trivial)).bind fun s₃ cell h₃ _ => ?_
    split
    · exact .throw _
    · refine (capsPerform (by trivial)).bind fun s₄ epoch h₄ _ => ?_
      split
      · exact .throw _
      · exact .throw _
      · rename_i narrowed hnarrowed
        obtain ⟨rfl, -⟩ := execDelegate_ok hnarrowed
        refine (capsPerform (by trivial)).bind fun s₅ epoch' h₅ _ => ?_
        split
        · have h := (h₃.trans h₄).trans h₅
          have hs := (h₁.trans h₂).trans h
          refine (insert_ensures (hs.allocated _ hto) ?_).grown.mono fun s₆ id' hid' => ?_
          · exact current_attenuate (hsrc.2.1.mono h)
          · obtain ⟨h₆, hid'⟩ := hid'
            refine ⟨src, _, (h.trans h₆).given _ _ hsrc.1, fun flow hflow => ?_, hid', rfl, rfl⟩
            cases hflow
            exact hsrc.2.2.1
        · exact .throw _
  · exact .throw _

theorem delegate_ensures {toHolder : FlowId} (hto : s.Allocated toHolder) (id : CapId)
    (fromHolder : FlowId) :
    CapsEnsure c strict k (fun s id' => s.Moved (some fromHolder) toHolder id id') s
      (CapTable.delegate id fromHolder toHolder) := by
  refine (capsPerform (by trivial)).bind fun s₁ r h₁ hr => ?_
  refine .bind (.liftM (Q := fun s src => s.Shows id fromHolder CapRights.none src)
    fun src hsrc => hr src hsrc)
    fun s₂ src h₂ _ => ?_
  exact attenuate_ensures ((h₁.trans h₂).allocated _ hto) ..

theorem reissueFor_ensures {newHolder : FlowId} (hnew : s.Allocated newHolder) (id : CapId) :
    CapsEnsure c strict k (fun s id' => s.Moved none newHolder id id') s
      (CapTable.reissueFor id newHolder) := by
  refine (capsPerform (by trivial)).bind fun s₁ r h₁ hr => ?_
  split
  · exact .throw _
  · rename_i entry
    obtain ⟨hg, hc⟩ := hr entry rfl
    refine (insert_ensures (h₁.allocated _ hnew) ?_).grown.mono fun s₂ id' hid' => ?_
    · exact current_attenuate hc
    · exact ⟨entry, _, hid'.1.given _ _ hg, nofun, hid'.2, rfl, rfl⟩

/-! ## Tokens in transit -/

/-- A payload as the recipient gets it: every token in it, but for those that are none, is made
anew. -/
def State.Passed (s : State) (sender : Option FlowId) (recipient : FlowId) : Value → Value → Prop
  | .cap id, w => (id = CapId.none ∧ w = .cap id) ∨
    ∃ id', w = .cap id' ∧ s.Moved sender recipient id id'
  | .message a r q t payload, w =>
    ∃ payload', w = .message a r q t payload' ∧ s.Passed sender recipient payload payload'
  | v, w => w = v

theorem State.Passed.mono {sender : Option FlowId} {recipient : FlowId} {v w : Value}
    (hp : s.Passed sender recipient v w) (h : Grows strict s s') :
    s'.Passed sender recipient v w := by
  induction v generalizing w with
  | cap id => exact hp.imp_right fun ⟨id', hw, hm⟩ => ⟨id', hw, hm.mono h⟩
  | message a r q t payload ih =>
    obtain ⟨payload', hw, hp⟩ := hp
    exact ⟨payload', hw, ih hp⟩
  | _ => exact hp

theorem reissueCapsInValue_ensures {recipient : FlowId} (hr : s.Allocated recipient)
    (sender : FlowId) (v : Value) :
    CapsEnsure c strict k (fun s w => s.Passed (some sender) recipient v w) s
      (CapTable.reissueCapsInValue sender recipient v) := by
  induction v with
  | cap id =>
    unfold CapTable.reissueCapsInValue
    split_ifs with hid
    · exact .pure (.inl ⟨hid, rfl⟩)
    · exact (delegate_ensures hr id sender).bind fun _ id' _ hm => .pure (.inr ⟨id', rfl, hm⟩)
  | message a r q t payload ih => exact ih.bind fun _ payload' _ hp => .pure ⟨payload', rfl, hp⟩
  | _ => exact .pure rfl

theorem reissueCapsFromHost_ensures {recipient : FlowId} (hr : s.Allocated recipient)
    (v : Value) :
    CapsEnsure c strict k (fun s w => s.Passed none recipient v w) s
      (CapTable.reissueCapsFromHost recipient v) := by
  induction v with
  | cap id =>
    unfold CapTable.reissueCapsFromHost
    split_ifs with hid
    · exact .pure (.inl ⟨hid, rfl⟩)
    · exact (reissueFor_ensures hr id).bind fun _ id' _ hm => .pure (.inr ⟨id', rfl, hm⟩)
  | message a r q t payload ih => exact ih.bind fun _ payload' _ hp => .pure ⟨payload', rfl, hp⟩
  | _ => exact .pure rfl

theorem grantCapsInArgs_ensures {child : FlowId} (hchild : s.Allocated child)
    (parent : Option FlowId) (args : List Value) :
    CapsEnsure c strict k (fun s args' => List.Forall₂ (s.GrantedArg parent child) args args') s
      (CapTable.grantCapsInArgs parent child args) := by
  induction args generalizing s with
  | nil => exact .pure .nil
  | cons arg args ih =>
    by_cases hcap : ∃ id, arg = .cap id
    · obtain ⟨id, rfl⟩ := hcap
      have hrest (s₁ : State) (id' : CapId) (h₁ : Grows strict s s₁)
          (hm : s₁.Moved parent child id id') :
          CapsEnsure c strict k
            (fun s args' => List.Forall₂ (s.GrantedArg parent child) (.cap id :: args) args') s₁
            (do return .cap id' :: (← CapTable.grantCapsInArgs parent child args)) := by
        refine (ih (h₁.allocated _ hchild)).grown.bind fun s₂ args' _ hargs => .pure ?_
        exact .cons (.inr ⟨id, id', rfl, rfl, hm.mono hargs.1⟩) hargs.2
      cases parent with
      | none => exact (reissueFor_ensures hchild id).bind hrest
      | some p => exact (delegate_ensures hchild id p).bind hrest
    · have hplain : arg.asCap = none := by
        cases arg <;> first | rfl | exact absurd ⟨_, rfl⟩ hcap
      have hcode : CapTable.grantCapsInArgs parent child (arg :: args) = do
          return arg :: (← CapTable.grantCapsInArgs parent child args) := by
        cases arg <;> first | rfl | exact absurd ⟨_, rfl⟩ hcap
      rw [hcode]
      exact (ih hchild).bind fun s₁ args' _ hargs => .pure (.cons (.inl ⟨hplain, rfl⟩) hargs)

end Worker

end Byteflow
