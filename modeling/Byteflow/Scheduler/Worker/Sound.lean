import Byteflow.Scheduler.Worker.Advance

/-!
# Workers keep their word

The invariant of a worker run (`Running`): the table, the machine and the flow boxes agree with the
log, and every thread is at a point of its code from which what it still needs is known. A step
keeps it, and lets the facts grow (`Running.step`). In a strict run every token that is drawn is
new, and no confined flow finds another one by its name (`Strict`).
-/

namespace Byteflow

namespace Worker

open Function (update)

variable {c : Config} {strict : Prop} {k : Context} {s s' : State} {t : ℕ}

/-! ## The flow boxes -/

/-- The flow boxes run what the runtime was given, and a confined one has no right. -/
structure Fitted (c : Config) (strict : Prop) (s : State) : Prop where
  confined : ∀ id, s.Confined id ∨ ¬s.Allocated id →
    (s.processes id).authority.rights = CapRights.none ∧
      (s.processes id).vm.nativeGate.hasNative = false
  image : ∀ id, Image c (s.processes id).vm
  constants : strict → ∀ id, ∀ v ∈ (s.processes id).vm.chunk.constants, ∀ token ∈ v.tokens,
    s.Seen token

theorem Image.congr {vm vm' : Vm} (h : Image c vm) (hp : vm'.program = vm.program) :
    Image c vm' := by
  have hnatives : vm'.natives = vm.natives := congrArg Vm.Program.natives hp
  have hchunk : vm'.chunk = vm.chunk := congrArg Vm.Program.chunk hp
  unfold Image
  rw [hnatives, hchunk]
  exact h

/-- Who was confined, or not there, is so no more than before. -/
theorem Grows.restricted (h : Grows strict s s') {id : FlowId}
    (hid : s'.Confined id ∨ ¬s'.Allocated id) : s.Confined id ∨ ¬s.Allocated id := by
  by_cases ha : s.Allocated id
  · refine .inl (hid.elim (h.confined ha).mp fun hn => ?_)
    exact absurd (h.allocated id ha) hn
  · exact .inr ha

theorem Fitted.congr (h : Fitted c strict s) (hgrows : Grows strict s s')
    (hboxes : SameBoxes s s') : Fitted c strict s' where
  confined := fun id hid => by
    have hgate : (s'.processes id).vm.nativeGate = (s.processes id).vm.nativeGate :=
      congrArg Vm.Program.nativeGate (hboxes id).2
    rw [(hboxes id).1, hgate]
    exact h.confined id (hgrows.restricted hid)
  image := fun id => (h.image id).congr (hboxes id).2
  constants := fun hstrict id v hv token ht => by
    have hchunk : (s'.processes id).vm.chunk = (s.processes id).vm.chunk :=
      congrArg Vm.Program.chunk (hboxes id).2
    rw [hchunk] at hv
    exact hgrows.wasSeen (h.constants hstrict id v hv token ht)

/-- A flow box is put in its place. -/
theorem Fitted.place (h : Fitted c strict s) {id : FlowId} {process : Process}
    (hb : Built c strict k s id process) : Fitted c strict (s.setProcess id process) where
  confined := fun id' hid' => by
    by_cases hid : id' = id
    · subst hid
      simp only [State.setProcess, Function.update_self]
      exact hb.confined (hid'.resolve_right fun hn => hn hb.allocated)
    · simp only [State.setProcess, Function.update_of_ne hid]
      exact h.confined id' hid'
  image := fun id' => by
    by_cases hid : id' = id
    · subst hid
      simp only [State.setProcess, Function.update_self]
      exact hb.image
    · simp only [State.setProcess, Function.update_of_ne hid]
      exact h.image id'
  constants := fun hstrict id' v hv token ht => by
    by_cases hid : id' = id
    · subst hid
      simp only [State.setProcess, Function.update_self] at hv
      exact (hb.harmless hstrict v (List.mem_append_right _ hv) token ht).1
    · simp only [State.setProcess, Function.update_of_ne hid] at hv
      exact h.constants hstrict id' v hv token ht

/-! ## The tables -/

/-- The table, the machine and the flow boxes are as they should be. -/
structure Sound (c : Config) (strict : Prop) (s : State) : Prop where
  consistent : Consistent strict s
  tracked : Tracked s
  fitted : Fitted c strict s

/-- A step that touches none of the facts. -/
theorem Sound.agrees (h : Sound c strict s) (hagrees : Agrees s s') (hboxes : SameBoxes s s')
    (hmachine : s'.machine = s.machine) : Sound c strict s' where
  consistent := hagrees.consistent h.consistent
  tracked := h.tracked.congr (hagrees.grows : Grows strict s s') (by rw [hmachine])
    (by rw [hmachine]) (by rw [hmachine]) fun flow hf => .inl (by rwa [hmachine] at hf)
  fitted := h.fitted.congr hagrees.grows hboxes

theorem Sound.advance (h : Sound c strict s) {input : Machine.Input} (env : Env)
    (hp : Permitted s t input) :
    Sound c strict (s.advance t input env) ∧ Grows strict s (s.advance t input env) := by
  obtain ⟨hconsistent, hgrows⟩ := advance_sound env h.consistent h.tracked hp
  exact ⟨⟨hconsistent, h.tracked.advance h.consistent hp,
    h.fitted.congr hgrows (sameBoxes_advance s t input env)⟩, hgrows⟩

/-- What an operation does to the machine and to the boxes. -/
theorem exec_frame (s : State) (env : Env) (op : Op) :
    (s.exec env op).1.machine.threads = s.machine.threads ∧
      (s.exec env op).1.machine.shared.mailboxes = s.machine.shared.mailboxes ∧
      (s.exec env op).1.machine.shared.timers = s.machine.shared.timers ∧
      (s.exec env op).1.modes = s.modes := by
  have h := execs s env op
  generalize (s.exec env op).1 = s' at h ⊢
  cases h with
  | tables op => cases op <;> exact ⟨rfl, rfl, rfl, rfl⟩
  | _ => exact ⟨rfl, rfl, rfl, rfl⟩

theorem exec_queues (s : State) (env : Env) (op : Op) :
    (s.exec env op).1.machine.shared.queues = s.machine.shared.queues ∨
      ∃ id, op = .tables (.inject id) ∧
        (s.exec env op).1.machine.shared.queues = .new id :: s.machine.shared.queues := by
  have h := execs s env op
  generalize (s.exec env op).1 = s' at h ⊢
  cases h with
  | tables op =>
    cases op with
    | inject id => exact .inr ⟨id, rfl, rfl⟩
    | _ => exact .inl rfl
  | _ => exact .inl rfl

theorem sameBoxes_topUp (s : State) (target : FlowId) (f : FlowQuota → FlowQuota) :
    SameBoxes s (s.topUp target f) := by
  unfold State.topUp
  split_ifs
  · exact sameBoxes_setProcess rfl rfl
  · exact .refl s

theorem sameBoxes_exec (s : State) (env : Env) {op : Op}
    (hplace : ∀ id process, op ≠ .place id process) : SameBoxes s (s.exec env op).1 := by
  cases op with
  | tables op => cases op <;> exact .refl s
  | place id process => exact absurd rfl (hplace id process)
  | alloc flow bytes =>
    simp only [State.exec]
    split
    · exact sameBoxes_setProcess rfl rfl
    · exact .refl s
  | free flow bytes => exact sameBoxes_refund s flow bytes
  | freshRequestId flow =>
    have hprogram : (s.processes flow).vm.freshRequestId.2.program =
        (s.processes flow).vm.program := by
      unfold Vm.freshRequestId
      split <;> rfl
    exact sameBoxes_setProcess rfl hprogram
  | topUpCpu target extra => exact sameBoxes_topUp s target fun q => q.topUpCpu extra
  | topUpMem target extra => exact sameBoxes_topUp s target fun q => q.topUpMem extra
  | _ => exact .refl s

/-- What the outside must not do in a strict run. -/
structure Fair (strict : Prop) (k : Context) (s : State) (env : Env) (op : Op) : Prop where
  draws : strict → ∀ id ∈ env.draws, ¬s.Seen id
  live : strict → ∀ target, op = .live target → s.machine.shared.directory target = true →
    ∀ flow ∈ k.flow, s.Confined flow → target = flow

theorem Sound.exec (h : Sound c strict s) {env : Env} {op : Op} (hn : Needs c strict k s op)
    (hfair : Fair strict k s env op) :
    Sound c strict (s.exec env op).1 ∧ Performed strict k s (s.exec env op).1 op
      (s.exec env op).2 := by
  have hp := exec_performed h.consistent env hfair.draws hn hfair.live
  obtain ⟨hthreads, hmailboxes, htimers, -⟩ := exec_frame s env op
  refine ⟨⟨hp.consistent, h.tracked.congr hp.grows hthreads hmailboxes htimers ?_, ?_⟩, hp⟩
  · rcases exec_queues s env op with he | ⟨id, rfl, he⟩ <;> rw [he]
    · exact fun _ => .inl
    · intro flow hflow
      rcases List.mem_cons.mp hflow with rfl | hflow
      · exact .inr ⟨id, rfl, hp.grows.wasLive id hn⟩
      · exact .inl hflow
  · by_cases hplace : ∃ id process, op = .place id process
    · obtain ⟨id, process, rfl⟩ := hplace
      exact h.fitted.place hn
    · push Not at hplace
      exact h.fitted.congr hp.grows (sameBoxes_exec s env hplace)

/-! ## The threads -/

/-- The program of an effect may run from the state. -/
abbrev EffectLearns (c : Config) (strict : Prop) (id : FlowId) (result : VmResult) (s : State)
    (p : Prog Op.Result Outcome) : Prop :=
  Learns c strict ⟨some id, spawnArgs result⟩
    (fun s outcome => s.Allocated id ∧ Answers strict id s result outcome) s p

/-- The program of a call may run from the state. -/
abbrev CallLearns (c : Config) (strict : Prop) (call : Call) (s : State)
    (p : Prog Op.Result Outcome) : Prop :=
  Learns c strict ⟨none, callArgs call⟩ (fun s => Replies s call) s p

theorem EffectLearns.mono {id : FlowId} {result : VmResult} {p : Prog Op.Result Outcome}
    (h : EffectLearns c strict id result s p) (hgrows : Grows strict s s') :
    EffectLearns c strict id result s' p :=
  Prog.Learns.stable h hgrows (fun _ _ _ hs hn => hn.mono hs)
    fun _ _ _ hs ha => ⟨hs.allocated id ha.1, ha.2.mono ha.1 hs⟩

theorem CallLearns.mono {call : Call} {p : Prog Op.Result Outcome}
    (h : CallLearns c strict call s p) (hgrows : Grows strict s s') :
    CallLearns c strict call s' p :=
  Prog.Learns.stable h hgrows (fun _ _ _ hs hn => hn.mono hs) fun _ _ _ hs hr => hr.mono hs

/-- What the thread needs for the rest of its code is known. -/
def Going (c : Config) (strict : Prop) (s : State) (t : ℕ) : Prop :=
  match s.modes t with
  | .charge _ result => ∀ v ∈ spawnArgs result, ∀ token ∈ v.tokens, s.Seen token
  | .effect result p => ∀ id, s.driven t = some id → EffectLearns c strict id result s p
  | .call call p => CallLearns c strict call s p
  | _ => True

theorem going_of_idle (h : s.modes t = .idle) : Going c strict s t := by
  unfold Going
  rw [h]
  trivial

theorem Going.mono (h : Going c strict s t) (hgrows : Grows strict s s')
    (hmode : s'.modes t = s.modes t) (hrun : s'.driven t = s.driven t) : Going c strict s' t := by
  unfold Going at h ⊢
  rw [hmode, hrun]
  split at h
  · exact fun v hv token ht => hgrows.wasSeen (h v hv token ht)
  · exact fun id hid => EffectLearns.mono (h id hid) hgrows
  · exact CallLearns.mono h hgrows
  · trivial

theorem going_effect {result : VmResult} {p : Prog Op.Result Outcome}
    (h : ∀ id, s.driven t = some id → EffectLearns c strict id result s p) :
    Going c strict (s.setMode t (.effect result p)) t := by
  unfold Going
  simp only [State.setMode, Function.update_self]
  exact fun id hid => EffectLearns.mono (h id hid) (Agrees.setMode s t _).grows

theorem going_call {call : Call} {p : Prog Op.Result Outcome} (h : CallLearns c strict call s p) :
    Going c strict (s.setMode t (.call call p)) t := by
  unfold Going
  simp only [State.setMode, Function.update_self]
  exact CallLearns.mono h (Agrees.setMode s t _).grows

/-- **The invariant of a run.** -/
structure Running (c : Config) (strict : Prop) (s : State) : Prop where
  sound : Sound c strict s
  going : ∀ t, Going c strict s t

/-- What a step of thread `t` leads to. -/
structure Continues (c : Config) (strict : Prop) (t : ℕ) (s s' : State) : Prop where
  sound : Sound c strict s'
  grows : Grows strict s s'
  modes : ∀ r, r ≠ t → s'.modes r = s.modes r
  threads : ∀ r, r ≠ t → s'.machine.threads r = s.machine.threads r
  going : Going c strict s' t

theorem Running.continues (h : Running c strict s) (hs : Continues c strict t s s') :
    Running c strict s' where
  sound := hs.sound
  going := fun r => by
    by_cases hr : r = t
    · exact hr ▸ hs.going
    · exact (h.going r).mono hs.grows (hs.modes r hr) (State.driven_congr (hs.threads r hr))

/-- The flow behind a name, which the effect is about to look up. -/
def found : Mode → Option FlowId
  | .effect _ (.act (.live target) _) => some target
  | _ => none

/-- In a strict run, a token that is drawn is new, and who asks for the flow behind a name is not
confined, or finds itself. -/
def Strict (s : State) : ℕ × Input → Prop
  | (t, .code env) => (∀ id ∈ env.draws, ¬s.Seen id) ∧
    ∀ target ∈ found (s.modes t), s.machine.shared.directory target = true →
      ∀ flow ∈ s.driven t, s.Confined flow → target = flow
  | _ => True

instance (s : State) (ti : ℕ × Input) : Decidable (Strict s ti) :=
  match ti with
  | (_, .code _) => inferInstanceAs (Decidable (_ ∧ _))
  | (_, .machine ..) | (_, .call _) => inferInstanceAs (Decidable True)

/-! ## Steps -/

theorem setMode_continues (h : Sound c strict s) {mode : Mode}
    (hgoing : Going c strict (s.setMode t mode) t) : Continues c strict t s (s.setMode t mode) where
  sound := h.agrees (.setMode s t mode) (.refl s) rfl
  grows := (Agrees.setMode s t mode).grows
  modes := fun _ hr => Function.update_of_ne hr ..
  threads := fun _ _ => rfl
  going := hgoing

theorem Continues.trans (h : Continues c strict t s s') {s'' : State}
    (h' : Continues c strict t s' s'') : Continues c strict t s s'' where
  sound := h'.sound
  grows := h.grows.trans h'.grows
  modes := fun r hr => (h'.modes r hr).trans (h.modes r hr)
  threads := fun r hr => (h'.threads r hr).trans (h.threads r hr)
  going := h'.going

theorem advance_continues (h : Sound c strict s) (hmode : s.modes t = .idle)
    {input : Machine.Input} (env : Env) (hp : Permitted s t input) :
    Continues c strict t s (s.advance t input env) where
  sound := (h.advance env hp).1
  grows := (h.advance env hp).2
  modes := fun _ _ => by rw [State.advance_modes]
  threads := fun r hr => Machine.step_threads_of_ne s.machine input hr
  going := going_of_idle (by rw [State.advance_modes]; exact hmode)

theorem resume_continues (h : Sound c strict s) (hmode : s.modes t = .idle) (env : Env)
    (id : FlowId) (destReg : UInt8) (value : Value) :
    Continues c strict t s (s.resume env id destReg value) where
  sound := h.agrees (.setProcess s _ _) (sameBoxes_resume s env id destReg value) rfl
  grows := (Agrees.setProcess s _ _).grows
  modes := fun _ _ => rfl
  threads := fun _ _ => rfl
  going := going_of_idle hmode

/-- A flow that was live is driven. -/
theorem Tracked.driven (h : Tracked s) {id : FlowId} (hrun : s.driven t = some id) :
    s.WasLive id := by
  obtain ⟨flow, rest, hs, rfl⟩ := State.driven_eq_some.mp hrun
  exact (h.flows.frames _ (Machine.mem_frames_of_cons hs) flow List.mem_cons_self).1

theorem permitted_vm {id : FlowId} (hrun : s.driven t = some id) {result : Machine.VmResult}
    (hresult : result.Awaits s.WasLive ∧ result ≠ .spawn) : Permitted s t (.vm result) where
  vm := fun flow rest result' _ hi => by
    cases hi
    exact hresult
  start := fun htop => by
    obtain ⟨flow, rest, hs, -⟩ := State.driven_eq_some.mp hrun
    rw [State.top_of_cons hs] at htop
    cases htop

theorem goOn_continues (h : Sound c strict s) (hmode : s.modes t = .idle) (env : Env)
    (destReg : Option UInt8) {result : Machine.VmResult} {id : FlowId}
    (hrun : s.driven t = some id) (hresult : result.Awaits s.WasLive ∧ result ≠ .spawn) :
    Continues c strict t s (s.goOn t env destReg result) := by
  have hadvance := advance_continues h hmode env (permitted_vm hrun hresult)
  refine goOn_induct hadvance fun id destReg raw _ _ => hadvance.trans ?_
  exact resume_continues hadvance.sound (by rw [State.advance_modes]; exact hmode) env id destReg _

/-- The end of an effect, or the failure of a charge. -/
theorem leave_continues (h : Sound c strict s) :
    Continues c strict t s (s.setMode t .idle) :=
  setMode_continues h (going_of_idle (Function.update_self ..))

theorem mem_seenIn {vm : Vm} {result : VmResult} {v : Value} (hv : v ∈ spawnArgs result)
    {token : CapId} (ht : token ∈ v.tokens) : token ∈ State.seenIn vm (some result) := by
  cases result with
  | spawn function args destReg requestedRights =>
    exact List.mem_append_right _ (List.mem_flatMap.mpr ⟨v, hv, ht⟩)
  | _ => cases hv

/-- The arguments of a `Spawn` that is charged were noted. -/
theorem execute_charge {env : Env} {id : FlowId} {ran left ran' : ℕ} {result : VmResult}
    (hmode : (s.execute t env id ran left).modes t = .charge ran' result) :
    ∀ v ∈ spawnArgs result, ∀ token ∈ v.tokens,
      token ∈ (s.execute t env id ran left).log.seen := by
  intro v hv token ht
  cases hresult : ((s.processes id).vm.step (s.host env)).1 with
  | none =>
    simp only [State.execute, hresult, State.setMode, Function.update_self] at hmode
    cases hmode
  | some result' =>
    simp only [State.execute, hresult, State.setMode, Function.update_self] at hmode ⊢
    cases hmode
    exact List.mem_append_left _ (mem_seenIn hv ht)

theorem execute_continues (h : Sound c strict s) (env : Env) (id : FlowId) (ran left : ℕ) :
    Continues c strict t s (s.execute t env id ran left) := by
  obtain ⟨mode, hmode, hmodes⟩ := State.execute_modes s t env id ran left
  have hagrees : Agrees s (s.execute t env id ran left) := by
    unfold State.execute
    dsimp only
    split <;> exact ⟨rfl, rfl, rfl, rfl, rfl, rfl, rfl, .rfl, rfl, rfl,
      fun _ h => List.mem_append_right _ h, fun _ h => h⟩
  have hboxes : SameBoxes s (s.execute t env id ran left) := by
    have hprocess : SameBoxes s (s.setProcess id { s.processes id with
        vm := ((s.processes id).vm.step (s.host env)).2 }) :=
      sameBoxes_setProcess rfl (Vm.step_program ..)
    unfold State.execute
    dsimp only
    split <;> exact hprocess
  have hmachine : (s.execute t env id ran left).machine = s.machine := by
    unfold State.execute
    dsimp only
    split <;> rfl
  refine ⟨h.agrees hagrees hboxes hmachine, hagrees.grows, fun r hr => ?_, fun r _ => ?_, ?_⟩
  · rw [hmodes]
    exact Function.update_of_ne hr ..
  · rw [hmachine]
  · unfold Going
    cases hmode' : (s.execute t env id ran left).modes t with
    | charge ran' result =>
      exact fun v hv token ht => .inr (execute_charge hmode' v hv token ht)
    | effect result p =>
      rw [hmodes, Function.update_self] at hmode'
      rcases hmode with rfl | ⟨result', rfl⟩ <;> cases hmode'
    | call call p =>
      rw [hmodes, Function.update_self] at hmode'
      rcases hmode with rfl | ⟨result', rfl⟩ <;> cases hmode'
    | _ => trivial

theorem account_continues (h : Sound c strict s) {ran : ℕ} {result : VmResult}
    (hgoing : Going c strict s t) (hmode : s.modes t = .charge ran result) {id : FlowId}
    (hrun : s.driven t = some id) (quota : FlowQuota) :
    Continues c strict t s ((s.setProcess id ((s.processes id).withQuota quota)).setMode t
      (.effect result (effect c id ((s.processes id).withQuota quota) result))) := by
  have hlive := h.tracked.driven hrun
  unfold Going at hgoing
  rw [hmode] at hgoing
  have hagrees : Agrees s (s.setProcess id ((s.processes id).withQuota quota)) := .setProcess ..
  have hsound := h.agrees hagrees (sameBoxes_setProcess rfl rfl) rfl
  refine Continues.trans ⟨hsound, hagrees.grows, fun _ _ => rfl, fun _ _ => rfl, ?_⟩
    (setMode_continues hsound ?_)
  · unfold Going
    have hmode' : (s.setProcess id ((s.processes id).withQuota quota)).modes t =
        .charge ran result := hmode
    rw [hmode']
    exact hgoing
  · refine going_effect fun id' hid' => ?_
    obtain rfl : id = id' := Option.some_inj.mp (hrun.symm.trans hid')
    refine EffectLearns.mono (s := s) ((effect_learns hlive (h.fitted.image id)
      (fun hc => (h.fitted.confined id (.inl hc)).1) fun hs v hv token htoken => ?_).grown.mono
        fun s' outcome ho => ?_) hagrees.grows
    · rcases List.mem_append.mp hv with hv | hv
      · exact hgoing v hv token htoken
      · exact h.fitted.constants hs id v hv token htoken
    · exact ⟨ho.1.allocated id hlive.1, ho.2⟩

/-- The next operation of a program that knows what it needs. -/
theorem exec_continues {α : Type} (h : Sound c strict s) {post : State → α → Prop} {op : Op}
    {p : op.Result → Prog Op.Result α} (hl : Learns c strict k post s (.act op p)) {env : Env}
    (hfair : Fair strict k s env op) {mode : Mode}
    (hmode : Learns c strict k post (s.exec env op).1 (p (s.exec env op).2) →
      Going c strict ((s.exec env op).1.setMode t mode) t) :
    Continues c strict t s ((s.exec env op).1.setMode t mode) := by
  obtain ⟨hsound, hp⟩ := h.exec hl.1 hfair
  obtain ⟨hthreads, -, -, hmodes⟩ := exec_frame s env op
  have hrest := hl.2 s (.refl s) _ _ ⟨hp.grows, hp.tells⟩
  have hset := setMode_continues hsound (hmode hrest)
  refine ⟨hset.sound, hp.grows.trans hset.grows, fun r hr => ?_, fun r hr => ?_, hset.going⟩
  · rw [hset.modes r hr, hmodes]
  · rw [hset.threads r hr, hthreads]

theorem act_continues (h : Sound c strict s) {result : VmResult} {op : Op}
    {k : op.Result → Prog Op.Result Outcome} (hgoing : Going c strict s t)
    (hmode : s.modes t = .effect result (.act op k)) {id : FlowId} (hrun : s.driven t = some id)
    {env : Env} (hstrict : strict → Strict s (t, .code env)) :
    Continues c strict t s
      ((s.exec env op).1.setMode t (.effect result (k (s.exec env op).2))) := by
  unfold Going at hgoing
  rw [hmode] at hgoing
  refine exec_continues h (hgoing id hrun) ⟨fun hs => (hstrict hs).1, ?_⟩ fun hrest => ?_
  · rintro hs target rfl hd flow ⟨⟩ hc
    refine (hstrict hs).2 target ?_ hd id hrun hc
    rw [hmode]
    rfl
  · refine going_effect fun id' hid' => ?_
    have hrun' : (s.exec env op).1.driven t = s.driven t :=
      State.driven_congr (by rw [(exec_frame s env op).1])
    obtain rfl : id = id' := Option.some_inj.mp ((hrun'.trans hrun).symm.trans hid')
    exact hrest

theorem mem_seenBy {call : Call} {v : Value} (hv : v ∈ callArgs call ++ callConstants call)
    {token : CapId} (ht : token ∈ v.tokens) : token ∈ State.seenBy call := by
  have hmem {args constants : List Value} (hv : v ∈ args ++ constants) :
      token ∈ constants.flatMap Value.tokens ++ args.flatMap Value.tokens := by
    rcases List.mem_append.mp hv with hv | hv
    · exact List.mem_append_right _ (List.mem_flatMap.mpr ⟨v, hv, ht⟩)
    · exact List.mem_append_left _ (List.mem_flatMap.mpr ⟨v, hv, ht⟩)
  cases call with
  | spawn chunk function args => exact hmem hv
  | spawnChild chunk function args name => exact hmem hv
  | _ => cases hv

/-- The embedder brings its tokens along. -/
def State.shown (s : State) (tokens : List CapId) : State :=
  { s with log := { s.log with seen := tokens ++ s.log.seen } }

theorem begin_continues (h : Sound c strict s) {call : Call} (hcall : call.Loaded c.trust)
    (hgoing : Going c strict s t) : Continues c strict t s (s.begin c t call) := by
  have hbegin : s.begin c t call =
      (s.shown (State.seenBy call)).setMode t (.call call (Worker.call c call)) := rfl
  have hagrees : Agrees s (s.shown (State.seenBy call)) :=
    ⟨rfl, rfl, rfl, rfl, rfl, rfl, rfl, .rfl, rfl, rfl, fun _ h => List.mem_append_right _ h,
      fun _ h => h⟩
  have hsound := h.agrees hagrees (.refl s) rfl
  rw [hbegin]
  refine Continues.trans ⟨hsound, hagrees.grows, fun _ _ => rfl, fun _ _ => rfl, ?_⟩
    (setMode_continues hsound (going_call (call_learns hcall fun _ v hv token ht => ?_)))
  · exact hgoing.mono hagrees.grows rfl rfl
  · exact .inr (List.mem_append_left _ (mem_seenBy hv ht))

theorem serve_continues (h : Sound c strict s) {call : Call} {op : Op}
    {k : op.Result → Prog Op.Result Outcome} (hgoing : Going c strict s t)
    (hmode : s.modes t = .call call (.act op k)) {env : Env}
    (hstrict : strict → Strict s (t, .code env)) :
    Continues c strict t s ((s.exec env op).1.setMode t (.call call (k (s.exec env op).2))) := by
  unfold Going at hgoing
  rw [hmode] at hgoing
  exact exec_continues h hgoing ⟨fun hs => (hstrict hs).1, fun _ _ _ _ => nofun⟩ going_call

/-- The frames that a call goes on with hold no flow, and take nothing for granted. -/
theorem Replies.frames {call : Call} {frames : List Machine.Frame}
    (h : Replies s call (.call frames)) : ∀ f ∈ frames, f.flows = [] ∧ ∀ W X, f.Honest W X := by
  have hsingle {g : Machine.Frame} (hg : g.flows = [] ∧ ∀ W X, g.Honest W X) :
      ∀ f ∈ [g], f.flows = [] ∧ ∀ W X, f.Honest W X :=
    List.forall_mem_singleton.mpr hg
  cases h with
  | done => exact List.forall_mem_nil _
  | nameChild child name cap => exact hsingle ⟨rfl, fun _ _ => trivial⟩
  | kill id reason => exact hsingle ⟨rfl, fun _ _ cur hcur => by cases hcur⟩
  | send hm hready => exact hsingle ⟨rfl, fun _ _ => trivial⟩
  | registerName name cap target => exact hsingle ⟨rfl, fun _ _ => trivial⟩

theorem State.frames_of_enter {frames : List Machine.Frame} {f : Machine.Frame}
    (hf : f ∈ (s.enter t frames).machine.frames) : f ∈ s.machine.frames ∨ f ∈ frames := by
  obtain ⟨r, hf⟩ := hf
  by_cases hr : r = t
  · subst hr
    refine .inr ?_
    simpa only [State.enter, Function.update_self] using hf
  · refine .inl ⟨r, ?_⟩
    simpa only [State.enter, Function.update_of_ne hr] using hf

theorem enter_continues (h : Sound c strict s) {call : Call} {frames : List Machine.Frame}
    (hgoing : Going c strict s t) (hmode : s.modes t = .call call (.ret (.call frames))) :
    Continues c strict t s (s.enter t frames) := by
  unfold Going at hgoing
  rw [hmode] at hgoing
  have hframes := Replies.frames hgoing
  have hmem {f : Machine.Frame} (hf : f ∈ (s.enter t frames).machine.frames) :
      f ∈ s.machine.frames ∨ f ∈ frames := State.frames_of_enter hf
  have hagrees : Agrees s (s.enter t frames) :=
    ⟨rfl, rfl, rfl, rfl, rfl, rfl, rfl, .rfl, rfl, rfl, fun _ h => h, fun _ h => h⟩
  refine ⟨⟨hagrees.consistent h.consistent, ⟨⟨fun f hf => ?_, h.tracked.honest.waiting⟩,
    ⟨fun f hf => ?_, h.tracked.flows.mailboxes, h.tracked.flows.queues, h.tracked.flows.timers⟩⟩,
    h.fitted.congr hagrees.grows (.refl s)⟩, hagrees.grows, fun r hr => Function.update_of_ne hr ..,
    fun r hr => Function.update_of_ne hr .., going_of_idle (Function.update_self ..)⟩
  · rcases hmem hf with hf | hf
    · exact h.tracked.honest.frames f hf
    · exact (hframes f hf).2 _ _
  · rcases hmem hf with hf | hf
    · exact h.tracked.flows.frames f hf
    · intro flow hflow
      rw [(hframes f hf).1] at hflow
      cases hflow

/-- Only a flow that was live is asked, and the machine spawns none. -/
theorem Answers.permitted {id : FlowId} {result : VmResult} {destReg : Option UInt8}
    {vm : Machine.VmResult} (h : Answers strict id s result (.effect destReg vm)) :
    vm.Awaits s.WasLive ∧ vm ≠ .spawn := by
  cases h with
  | ask destReg timeout hm hcap hready hreply => exact ⟨hready.live, nofun⟩
  | _ => exact ⟨trivial, nofun⟩

/-- What a step leads to. -/
theorem Running.step_continues (h : Running c strict s) (ti : ℕ × Input)
    (hstrict : strict → Strict s ti) : Continues c strict ti.1 s (Worker.step c s ti) := by
  have hgoing := h.going
  obtain ⟨h, -⟩ := h
  have hstep := stepped c s ti
  generalize Worker.step c s ti = s' at hstep ⊢
  cases hstep with
  | stay => exact ⟨h, .refl s, fun _ _ => rfl, fun _ _ => rfl, hgoing _⟩
  | advance t input env hmode hrun hstart =>
    refine advance_continues h hmode env ⟨fun flow rest result hs _ => ?_, hstart⟩
    rw [State.driven_of_top (State.top_of_cons hs)] at hrun
    cases hrun
  | round t env id hrun hmode =>
    refine setMode_continues h ?_
    unfold Going
    simp only [State.setMode, Function.update_self]
  | fail t env id message hrun =>
    refine (leave_continues h).trans ?_
    exact goOn_continues (leave_continues h).sound (Function.update_self ..) env none hrun
      ⟨trivial, by simp⟩
  | expire t env id ran hrun hmode =>
    refine setMode_continues h ?_
    unfold Going
    simp only [State.setMode, Function.update_self]
    exact fun _ hv => (List.not_mem_nil hv).elim
  | execute t env id ran left hrun hmode => exact execute_continues h env id ran left
  | account t env id ran result quota hrun hmode =>
    exact account_continues h (hgoing t) hmode hrun quota
  | act t env id result op k hrun hmode => exact act_continues h (hgoing t) hmode hrun hstrict
  | resume t env id result destReg value hrun hmode =>
    refine (leave_continues h).trans ?_
    exact resume_continues (leave_continues h).sound (Function.update_self ..) env id destReg value
  | goOn t env id result destReg vm hrun hmode =>
    have hanswer := hgoing t
    unfold Going at hanswer
    rw [hmode] at hanswer
    refine (leave_continues h).trans ?_
    exact goOn_continues (leave_continues h).sound (Function.update_self ..) env destReg hrun
      (hanswer id hrun).2.permitted
  | leave t env => exact leave_continues h
  | begin t call hmode htop hcall => exact begin_continues h hcall (hgoing t)
  | serve t env call op k hrun hmode => exact serve_continues h (hgoing t) hmode hstrict
  | enter t env call frames hrun hmode => exact enter_continues h (hgoing t) hmode

theorem running_init (c : Config) (strict : Prop) : Running c strict (State.init c) where
  sound :=
    { consistent :=
        { cells := nofun
          nextCell := le_refl _
          distinct := nofun
          epoch := fun _ _ => rfl
          given := nofun
          drawn := nofun
          current := nofun
          lasting := nofun
          unique := fun _ => nofun
          directory := nofun
          exited := nofun
          host := ⟨Nat.one_pos, rfl⟩
          parents := fun _ _ _ _ _ => nofun
          spawned := fun _ _ _ _ _ => nofun }
      tracked :=
        { honest := Machine.honest_init ..
          flows := Machine.flows_init .. }
      fitted :=
        { confined := fun _ _ => ⟨rfl, rfl⟩
          image := fun _ => ⟨.inr rfl, .inr rfl⟩
          constants := fun _ _ _ hv => (List.not_mem_nil hv).elim } }
  going := fun _ => trivial

/-- **Steps.** -/
theorem Running.step (h : Running c strict s) (ti : ℕ × Input) (hstrict : strict → Strict s ti) :
    Running c strict (Worker.step c s ti) := h.continues (h.step_continues ti hstrict)

/-- **Runs.** -/
theorem run_running {sched : List (ℕ × Input)}
    (hstrict : strict → Schedule.Guarded (Worker.step c) Strict (State.init c) sched) :
    Running c strict (run c sched) :=
  (Schedule.guarded_of_imp hstrict).invariant (fun _ ti hti hr => hr.step ti hti)
    (running_init c strict)

/-- A thread that is in no step of a run is idle. -/
theorem run_of_not_mem (c : Config) {sched : List (ℕ × Input)} {r : ℕ}
    (h : ∀ ti ∈ sched, ti.1 ≠ r) :
    (run c sched).machine.threads r = [] ∧ (run c sched).modes r = .idle := by
  induction sched using List.reverseRecOn with
  | nil => exact ⟨rfl, rfl⟩
  | append_singleton sched ti ih =>
    obtain ⟨hthreads, hmode⟩ := ih fun ti' hti' => h ti' (List.mem_append_left _ hti')
    have hne : r ≠ ti.1 := (h ti (List.mem_append_right _ (List.mem_singleton_self _))).symm
    have hrunning : Running c False (run c sched) := run_running False.elim
    have hc := hrunning.step_continues ti False.elim
    rw [run, Schedule.run_concat]
    exact ⟨(hc.threads r hne).trans hthreads, (hc.modes r hne).trans hmode⟩

end Worker

end Byteflow
