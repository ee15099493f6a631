import Byteflow.Scheduler.Worker.Policy

/-!
# Runs keep a policy

Every step keeps a policy that each way to come by a value keeps (`Upheld.step`), as long as the
embedder brings along, and the flows send, what the policy allows (`Observes`).
-/

namespace Byteflow

namespace Worker

open Function (update)

variable {π : Policy} {c : Config} {strict : Prop} {s s' : State} {t : ℕ}

/-- What a thread holds in its hands, between two steps, is allowed. -/
def InHand (π : Policy) (s : State) (t : ℕ) : Prop :=
  match s.modes t with
  | .charge _ result => ∀ id, s.driven t = some id → result.All (π.holds s id)
  | .effect result _ => ∀ id, s.driven t = some id →
    result.All (π.holds s id) ∧ ∀ m ∈ result.message, π.sends m
  | .call call _ => ∀ v ∈ brought call, π.brings s v
  | _ => True

/-- **A policy in force.** -/
structure Upheld (π : Policy) (s : State) : Prop where
  boxes : Boxes π s s
  transit : Transit π s s.machine
  inHand : ∀ t, InHand π s t

/-- The message that is about to be sent. -/
def Mode.message : Mode → Option Message
  | .charge _ result => result.message
  | _ => none

/-- What the embedder and the flows must observe. -/
def Observes (π : Policy) (s : State) : ℕ × Input → Prop
  | (t, .code _) => ∀ m ∈ (s.modes t).message, π.sends m
  | (_, .call call) => ∀ v ∈ brought call, π.brings s v
  | _ => True

/-- What the native returns that a step invokes may be held. -/
def Invokes (π : Policy) (s : State) : ℕ × Input → Prop
  | (t, .code env) => ∀ id ran left, s.driven t = some id → s.modes t = .slice ran (left + 1) →
    ∀ call ∈ (s.processes id).vm.invoked (s.host env), (∀ a ∈ call.2.2, π.holds s id a) →
      ∀ v, call.2.1 env.tick call.2.2 = .ok v → π.holds s id v
  | _ => True

theorem Policy.Kept.invokes (hk : π.Kept c strict) (hs : Sound c strict s) (ti : ℕ × Input) :
    Invokes π s ti := by
  match ti with
  | (t, .code env) =>
    intro id ran left _ _ call hcall ha v hv
    obtain ⟨hgate, hget⟩ := Vm.gate_of_invoked hcall
    exact hk.native hs hgate hget ha hv
  | (t, .machine input env) => trivial
  | (t, .call call) => trivial

/-- Nothing to observe. -/
theorem observes_of_forall (hsends : ∀ m, π.sends m) (hbrings : ∀ s v, π.brings s v) (s : State)
    (ti : ℕ × Input) : Observes π s ti :=
  match ti with
  | (_, .code _) => fun m _ => hsends m
  | (_, .call _) => fun v _ => hbrings s v
  | (_, .machine ..) => trivial

theorem upheld_init (π : Policy) (c : Config) : Upheld π (State.init c) where
  boxes := fun _ => ⟨fun _ hf => (List.not_mem_nil hf).elim, fun _ hv => (List.not_mem_nil hv).elim⟩
  transit :=
    { carries := Machine.carries_init _ _
      waits := Machine.waits_init _ _
      stamps := fun _ hf => by obtain ⟨t, hf⟩ := hf; cases hf
      homed := Machine.homed_init _ }
  inHand := fun _ => trivial

theorem InHand.mono (hk : π.Sustained c strict) (h : InHand π s t) (hgrows : Grows strict s s')
    (hmode : s'.modes t = s.modes t) (hrun : s'.driven t = s.driven t) : InHand π s' t := by
  unfold InHand at h ⊢
  rw [hmode, hrun]
  split at h
  · exact fun id hid => (h id hid).mono fun _ => hk.holds_mono hgrows
  · exact fun id hid => ⟨(h id hid).1.mono fun _ => hk.holds_mono hgrows, (h id hid).2⟩
  · exact fun v hv => hk.brings_mono hgrows (h v hv)
  · trivial

theorem Boxes.mono (hk : π.Sustained c strict) {s₀ s₁ : State} (h : Boxes π s₀ s)
    (hgrows : Grows strict s₀ s₁) : Boxes π s₁ s := fun id => (h id).mono hk hgrows

/-- What a step of thread `t` does to a policy. -/
structure Upholds (π : Policy) (t : ℕ) (s' : State) : Prop where
  boxes : Boxes π s' s'
  transit : Transit π s' s'.machine
  inHand : InHand π s' t

theorem Upheld.upholds (hk : π.Sustained c strict) (h : Upheld π s)
    (hc : Continues c strict t s s') (hs : Upholds π t s') : Upheld π s' where
  boxes := hs.boxes
  transit := hs.transit
  inHand := fun r => by
    by_cases hr : r = t
    · exact hr ▸ hs.inHand
    · exact (h.inHand r).mono hk hc.grows (hc.modes r hr) (State.driven_congr (hc.threads r hr))

/-! ## Steps -/

/-- A step that the machine does not make. -/
theorem Upheld.stays (hk : π.Sustained c strict) (h : Upheld π s) (hgrows : Grows strict s s')
    (hboxes : Boxes π s s') (hthreads : s'.machine.threads = s.machine.threads)
    (hmailboxes : s'.machine.shared.mailboxes = s.machine.shared.mailboxes)
    (hhand : InHand π s' t) : Upholds π t s' where
  boxes := hboxes.mono hk hgrows
  transit := (h.transit.congr hthreads hmailboxes).mono hk hgrows
  inHand := hhand

theorem advance_boxes (hk : π.Sustained c strict) (hs : Sound c strict s) (hboxes : Boxes π s s)
    (htransit : Transit π s s.machine) (input : Machine.Input) (env : Env) :
    Boxes π s (s.advance t input env) := by
  unfold State.advance
  dsimp only
  split
  · rename_i f htop
    obtain ⟨rest, hf⟩ := State.cons_of_top htop
    have hf := Machine.mem_frames_of_cons hf
    exact hboxes.settle env fun r hr => (htransit.handed hs hf hr).holds hk hs
  · exact hboxes

theorem advance_transit (hk : π.Sustained c strict) (hs : Sound c strict s)
    (htransit : Transit π s s.machine) {input : Machine.Input} (hp : Permitted s t input)
    (env : Env) (hvm : ∀ flow rest vm, s.machine.threads t = .run flow :: rest → input = .vm vm →
      Requests π s flow.id vm) :
    Transit π (s.advance t input env) (s.advance t input env).machine := by
  obtain ⟨hs', hgrows⟩ := hs.advance env hp
  have hhops : ∀ issue ∈ Machine.issued s.machine (t, input),
      issue ∈ (s.advance t input env).log.hops := fun _ hi => List.mem_append_right _ hi
  have h' := htransit.mono hk hgrows
  refine ⟨h'.carries.step (t, input) fun target hop haims => ?_, ?_, ?_, htransit.homed.step _⟩
  · exact carries_of_aims hk hs hs' hgrows htransit hhops hvm haims
  · refine (htransit.waits.step (t, input) fun flow rest vm hrun hi => ?_).mono
      fun _ _ => hk.waits_mono hgrows
    exact (hvm flow rest vm hrun hi).waits
  · refine Machine.stamps_step h'.stamps fun htop target message hi => ?_
    have hstart := hp.start (by unfold State.top; rw [htop]; rfl)
    obtain rfl : input = .start (.send target message) := hi
    cases hstart

/-- The machine goes on with the effect of a flow. -/
theorem goOn_upholds (hk : π.Sustained c strict) (h : Upheld π s) (hs : Sound c strict s)
    (hmode : s.modes t = .idle) (env : Env) (destReg : Option UInt8) {vm : Machine.VmResult}
    (hp : Permitted s t (.vm vm))
    (hvm : ∀ flow rest, s.machine.threads t = .run flow :: rest → Requests π s flow.id vm) :
    Upholds π t (s.goOn t env destReg vm) := by
  have hgrows := (hs.advance env hp).2
  have hboxes := (advance_boxes (t := t) hk hs h.boxes h.transit (.vm vm) env).mono hk hgrows
  have htransit := advance_transit hk hs h.transit hp env fun flow rest vm' hrun hi => by
    cases hi
    exact hvm flow rest hrun
  have hidle : (s.advance t (.vm vm) env).modes t = .idle :=
    (congrFun (s.advance_modes ..) t).trans hmode
  refine goOn_induct ⟨hboxes, htransit, ?_⟩ fun id destReg raw _ hu => ?_
  · unfold InHand
    rw [hidle]
    trivial
  · have hagrees := Agrees.setProcess (s.advance t (.vm vm) env) id
      { (s.advance t (.vm vm) env).processes id with
        vm := ((s.advance t (.vm vm) env).processes id).vm.resumeWith
          ((s.advance t (.vm vm) env).host env) destReg (refValue raw) }
    refine ⟨(hu.boxes.resume env destReg (hk.plain (Value.plain_int _))).mono hk hagrees.grows,
      hu.transit.mono hk hagrees.grows, ?_⟩
    exact hu.inHand.mono hk hagrees.grows rfl rfl

/-- The answer to an effect that the machine goes on with. -/
theorem Answers.requests (hk : π.Sustained c strict) (hs : Sound c strict s) {id : FlowId}
    {result : VmResult} {destReg : Option UInt8} {vm : Machine.VmResult}
    (ha : Answers strict id s result (.effect destReg vm)) (hid : s.Allocated id)
    (hall : result.All (π.holds s id)) (hsends : ∀ m ∈ result.message, π.sends m) :
    Requests π s id vm := by
  have hmessage {v : Value} {m : Message} (hm : v.asMessage = some m) : m.toValue = v := by
    cases v <;> cases hm
    rfl
  cases ha with
  | send hm hcap hready hreply =>
    refine ⟨trivial, fun n target hop hhop => ?_⟩
    cases hhop
    exact .intro n hcap hready hreply hall.1 (hmessage hm ▸ hall.2) (hsends _ hm)
  | ask destReg timeout hm hcap hready hreply =>
    refine ⟨fun requestId => hk.ask requestId hs hcap hall.1, fun n target hop hhop => ?_⟩
    cases hhop
    exact .intro n hcap hready hreply hall.1 (hmessage hm ▸ hall.2) (hsends _ hm)
  | receive destReg timeout matchTag matchRequestId hfree =>
    exact ⟨hk.receive _ _ hid hfree, nofun⟩
  | _ => exact ⟨trivial, nofun⟩

/-- The answer to an effect that goes to a register. -/
theorem Answers.holds (hk : π.Sustained c strict) (hs : Sound c strict s) {id : FlowId}
    {result : VmResult} {destReg : UInt8} {value : Value}
    (ha : Answers strict id s result (.resume destReg value))
    (hall : result.All (π.holds s id)) : π.holds s id value := by
  cases ha with
  | token destReg hgiven hholder hself => exact hk.token hs hgiven hholder hself
  | delegate destReg hmoved => exact hk.delegate hs hmoved hall.1
  | absent destReg => exact hk.plain Value.plain_unit

theorem execute_upholds (hk : π.Sustained c strict) (h : Upheld π s) {env : Env} {id : FlowId}
    {ran left : ℕ} (hrun : s.driven t = some id) (hmode : s.modes t = .slice ran (left + 1))
    (hi : Invokes π s (t, .code env)) (hgrows : Grows strict s (s.execute t env id ran left)) :
    Upholds π t (s.execute t env id ran left) := by
  obtain ⟨hkeeps, hresult⟩ := (h.boxes id).step hk (s.host env) (hi id ran left hrun hmode)
  have hboxes : Boxes π s (s.setProcess id { s.processes id with
      vm := ((s.processes id).vm.step (s.host env)).2 }) := h.boxes.setProcess hkeeps
  have hmachine : (s.execute t env id ran left).machine = s.machine := by
    unfold State.execute
    dsimp only
    split <;> rfl
  refine h.stays hk hgrows ?_ (by rw [hmachine]) (by rw [hmachine]) ?_
  · unfold State.execute
    dsimp only
    split <;> exact hboxes
  · have hdriven : (s.execute t env id ran left).driven t = s.driven t :=
      State.driven_congr (by rw [hmachine])
    unfold InHand
    rw [hdriven, State.execute_mode]
    cases hr : ((s.processes id).vm.step (s.host env)).1 with
    | none => trivial
    | some result =>
      intro id' hid'
      obtain rfl : id = id' := Option.some_inj.mp (hrun.symm.trans hid')
      exact (hresult result hr).mono fun v => hk.holds_mono hgrows

/-- A new box holds what its spawn was given. -/
theorem Upheld.place (hk : π.Sustained c strict) (h : Upheld π s) (hs : Sound c strict s)
    {k : Context} {post : State → α → Prop} {op : Op} {p : op.Result → Prog Op.Result α}
    (hl : Learns c strict k post s (.act op p))
    (hflow : ∀ v ∈ k.args, ∀ parent ∈ k.flow, π.holds s parent v)
    (hhost : k.flow = none → ∀ v ∈ k.args, π.brings s v) (env : Env) :
    Boxes π s (s.exec env op).1 := by
  refine h.boxes.exec env fun id process hop => ?_
  subst hop
  exact hk.built hs hl.1 hflow hhost

theorem act_upholds (hk : π.Sustained c strict) (h : Upheld π s) {env : Env} {op : Op}
    {mode : Mode} (hgrows : Grows strict s ((s.exec env op).1.setMode t mode))
    (hboxes : Boxes π s (s.exec env op).1)
    (hhand : (s.exec env op).1.driven t = s.driven t →
      InHand π ((s.exec env op).1.setMode t mode) t) :
    Upholds π t ((s.exec env op).1.setMode t mode) := by
  obtain ⟨hthreads, hmailboxes, -, -⟩ := exec_frame s env op
  exact h.stays hk hgrows hboxes hthreads hmailboxes (hhand (State.driven_congr (by rw [hthreads])))

theorem enter_upholds (hk : π.Sustained c strict) (h : Upheld π s)
    {call : Call} {frames : List Machine.Frame} (hgrows : Grows strict s (s.enter t frames))
    (hreplies : Replies s call (.call frames)) (hbrought : ∀ v ∈ brought call, π.brings s v) :
    Upholds π t (s.enter t frames) := by
  have hmem {f : Machine.Frame} (hf : f ∈ (s.enter t frames).machine.frames) :
      f ∈ s.machine.frames ∨ f ∈ frames := State.frames_of_enter hf
  have hnew : ∀ f ∈ frames, f.aimed = none ∧ f.Waits (π.waits s) ∧ f.Stamps (Hosts π s) := by
    cases hreplies with
    | done => exact List.forall_mem_nil _
    | nameChild child name cap => exact List.forall_mem_singleton.mpr ⟨rfl, trivial, trivial⟩
    | kill id reason => exact List.forall_mem_singleton.mpr ⟨rfl, trivial, trivial⟩
    | @send target message m m' hm hready =>
      refine List.forall_mem_singleton.mpr ⟨rfl, trivial, m, ?_, hready⟩
      have hvalue : m.toValue = message := by
        cases message <;> cases hm
        rfl
      rw [hvalue]
      exact hbrought message List.mem_cons_self
    | registerName name cap target => exact List.forall_mem_singleton.mpr ⟨rfl, trivial, trivial⟩
  refine ⟨h.boxes.mono hk hgrows, Transit.mono hk (s := s) ?_ hgrows, ?_⟩
  · refine ⟨⟨fun f hf id hop haimed => ?_, h.transit.carries.waiting, h.transit.carries.queued⟩,
      ⟨fun f hf => ?_, h.transit.waits.waiting, h.transit.waits.parked⟩, fun f hf => ?_,
      h.transit.homed⟩
    · rcases hmem hf with hf | hf
      · exact h.transit.carries.frames f hf id hop haimed
      · rw [(hnew f hf).1] at haimed
        cases haimed
    · rcases hmem hf with hf | hf
      · exact h.transit.waits.frames f hf
      · exact (hnew f hf).2.1
    · rcases hmem hf with hf | hf
      · exact h.transit.stamps f hf
      · exact (hnew f hf).2.2
  · unfold InHand State.enter State.setMode
    simp only [Function.update_self]

theorem Requests.mono (hk : π.Sustained c strict) {id : FlowId} {vm : Machine.VmResult}
    (h : Requests π s id vm) (hgrows : Grows strict s s') : Requests π s' id vm where
  waits := by
    have hwaits := h.waits
    cases vm with
    | receive destReg timeout matchTag matchRequestId => exact hk.waits_mono hgrows hwaits
    | ask destReg target request replyCap timeout =>
      exact fun requestId => hk.waits_mono hgrows (hwaits requestId)
    | _ => trivial
  sends := fun n target hop hhop => (h.sends n target hop hhop).mono hk hgrows

theorem callArgs_subset_brought {call : Call} {v : Value} (hv : v ∈ callArgs call) :
    v ∈ brought call := by
  cases call with
  | send target message => cases hv
  | _ => exact hv

/-- **Steps.** -/
theorem Upheld.step (hk : π.Sustained c strict) (hr : Running c strict s) (h : Upheld π s)
    (ti : ℕ × Input) (hstrict : strict → Strict s ti) (ho : Observes π s ti)
    (hi : Invokes π s ti) : Upheld π (Worker.step c s ti) := by
  have hc := hr.step_continues ti hstrict
  suffices hu : Upholds π ti.1 (Worker.step c s ti) from h.upholds hk hc hu
  have hs := hr.sound
  have hgoing := hr.going
  have hgrows := hc.grows
  have hstep := stepped c s ti
  generalize Worker.step c s ti = s' at hstep hgrows ⊢
  have hset {t : ℕ} {mode : Mode} (hg : Grows strict s (s.setMode t mode))
      (hhand : InHand π (s.setMode t mode) t) : Upholds π t (s.setMode t mode) :=
    h.stays hk hg h.boxes rfl rfl hhand
  have hidle {t : ℕ} : Upheld π (s.setMode t .idle) ∧ Sound c strict (s.setMode t .idle) := by
    have hcont := leave_continues (t := t) hs
    refine ⟨h.upholds hk hcont (hset hcont.grows ?_), hcont.sound⟩
    unfold InHand State.setMode
    simp only [Function.update_self]
  cases hstep with
  | stay => exact ⟨h.boxes, h.transit, h.inHand _⟩
  | advance t input env hmode hrun hstart =>
    have hnone {flow : Flow Hop} {rest : List Machine.Frame}
        (htop : s.machine.threads t = .run flow :: rest) : False := by
      rw [State.driven_of_top (State.top_of_cons htop)] at hrun
      cases hrun
    have hp : Permitted s t input := ⟨fun flow rest result htop => (hnone htop).elim, hstart⟩
    refine ⟨(advance_boxes (t := t) hk hs h.boxes h.transit input env).mono hk hgrows,
      advance_transit hk hs h.transit hp env fun flow rest vm htop => (hnone htop).elim, ?_⟩
    unfold InHand
    rw [State.advance_modes, hmode]
    trivial
  | round t env id hrun hmode =>
    refine hset hgrows ?_
    unfold InHand State.setMode
    simp only [Function.update_self]
  | fail t env id message hrun =>
    refine goOn_upholds hk hidle.1 hidle.2 (Function.update_self ..) env none ?_ ?_
    · exact permitted_vm (s := s.setMode t .idle) hrun ⟨trivial, nofun⟩
    · exact fun _ _ _ => ⟨trivial, nofun⟩
  | expire t env id ran hrun hmode =>
    refine hset hgrows ?_
    unfold InHand State.setMode
    simp only [Function.update_self]
    exact fun _ _ => trivial
  | execute t env id ran left hrun hmode =>
    exact execute_upholds hk h hrun hmode hi hgrows
  | account t env id ran result quota hrun hmode =>
    have hhand := h.inHand t
    unfold InHand at hhand
    rw [hmode] at hhand
    have ho : ∀ m ∈ result.message, π.sends m := by
      simpa only [Observes, hmode, Mode.message] using ho
    refine h.stays hk hgrows (h.boxes.withQuota id quota) rfl rfl ?_
    unfold InHand State.setMode
    simp only [Function.update_self]
    exact fun id' hid' =>
      ⟨(hhand id' hid').mono fun v => hk.holds_mono hgrows, ho⟩
  | act t env id result op k hrun hmode =>
    have hhand := h.inHand t
    unfold InHand at hhand
    have hlearns := hgoing t
    unfold Going at hlearns
    rw [hmode] at hhand hlearns
    refine act_upholds hk h hgrows (h.place hk hs (hlearns id hrun) ?_ nofun env) fun hdriven => ?_
    · rintro v hv parent ⟨⟩
      exact (hhand id hrun).1.of_spawnArgs v hv
    · unfold InHand State.setMode
      simp only [Function.update_self]
      intro id' hid'
      obtain ⟨hall, hsends⟩ := hhand id' (hdriven.symm.trans hid')
      exact ⟨hall.mono fun v => hk.holds_mono hgrows, hsends⟩
  | resume t env id result destReg value hrun hmode =>
    have hhand := h.inHand t
    unfold InHand at hhand
    have hanswer := hgoing t
    unfold Going at hanswer
    rw [hmode] at hhand hanswer
    have hvalue : π.holds s id value := (hanswer id hrun).2.holds hk hs (hhand id hrun).1
    have hboxes : Boxes π s ((s.setMode t .idle).resume env id destReg value) :=
      Boxes.resume (s := s.setMode t .idle) h.boxes env destReg hvalue
    refine h.stays hk hgrows hboxes rfl rfl ?_
    unfold InHand State.resume State.setProcess State.setMode
    simp only [Function.update_self]
  | goOn t env id result destReg vm hrun hmode =>
    have hhand := h.inHand t
    unfold InHand at hhand
    have hanswer := hgoing t
    unfold Going at hanswer
    rw [hmode] at hhand hanswer
    obtain ⟨hid, hanswer⟩ := hanswer id hrun
    obtain ⟨hall, hsends⟩ := hhand id hrun
    have hrequests := hanswer.requests hk hs hid hall hsends
    refine goOn_upholds hk hidle.1 hidle.2 (Function.update_self ..) env destReg
      (permitted_vm (s := s.setMode t .idle) hrun hanswer.permitted) fun flow rest htop => ?_
    have hid : some flow.id = some id :=
      (State.driven_of_top (State.top_of_cons (s := s) htop)).symm.trans hrun
    cases hid
    exact hrequests.mono hk (leave_continues hs).grows
  | leave t env => exact ⟨hidle.1.boxes, hidle.1.transit, hidle.1.inHand t⟩
  | begin t call hmode htop hcall =>
    refine h.stays hk hgrows h.boxes rfl rfl ?_
    unfold InHand State.begin State.setMode
    simp only [Function.update_self]
    exact fun v hv => hk.brings_mono hgrows (ho v hv)
  | serve t env call op k hrun hmode =>
    have hhand := h.inHand t
    unfold InHand at hhand
    have hlearns := hgoing t
    unfold Going at hlearns
    rw [hmode] at hhand hlearns
    refine act_upholds hk h hgrows (h.place hk hs hlearns nofun (fun _ v hv => ?_) env) fun _ => ?_
    · exact hhand v (callArgs_subset_brought hv)
    · unfold InHand State.setMode
      simp only [Function.update_self]
      exact fun v hv => hk.brings_mono hgrows (hhand v hv)
  | enter t env call frames hrun hmode =>
    have hhand := h.inHand t
    unfold InHand at hhand
    have hreplies := hgoing t
    unfold Going at hreplies
    rw [hmode] at hhand hreplies
    exact enter_upholds hk h hgrows hreplies hhand

/-- **Runs.** -/
theorem run_upheld_of_sustained (hk : π.Sustained c strict) (sched : List (ℕ × Input))
    (hstrict : strict → Schedule.Guarded (Worker.step c) Strict (State.init c) sched)
    (ho : Schedule.Guarded (Worker.step c) (Observes π) (State.init c) sched)
    {guard : State → ℕ × Input → Prop}
    (hguard : Schedule.Guarded (Worker.step c) guard (State.init c) sched)
    (hi : ∀ s ti, Running c strict s → guard s ti → Invokes π s ti) :
    Running c strict (run c sched) ∧ Upheld π (run c sched) :=
  (((Schedule.guarded_of_imp hstrict).and ho).and hguard).invariant
    (I := fun s => Running c strict s ∧ Upheld π s)
    (fun s ti hti h => ⟨h.1.step ti hti.1.1,
      h.2.step hk h.1 ti hti.1.1 hti.1.2 (hi s ti h.1 hti.2)⟩)
    ⟨running_init c strict, upheld_init π c⟩

theorem run_upheld (hk : π.Kept c strict) (sched : List (ℕ × Input))
    (hstrict : strict → Schedule.Guarded (Worker.step c) Strict (State.init c) sched)
    (ho : Schedule.Guarded (Worker.step c) (Observes π) (State.init c) sched) :
    Running c strict (run c sched) ∧ Upheld π (run c sched) :=
  run_upheld_of_sustained hk.toSustained sched hstrict ho
    (@Schedule.guarded_of_forall _ _ _ (fun _ _ => True) (fun _ _ => trivial) _ _)
    fun _ ti hr _ => hk.invokes hr.sound ti

end Worker

end Byteflow
