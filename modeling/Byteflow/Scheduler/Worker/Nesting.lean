import Mathlib
import Byteflow.Bytecode.Format
import Byteflow.Scheduler.Worker.Tags

/-!
# How deep messages nest

The decoder refuses a constant that nests more than `MAX_VALUE_DEPTH` messages, and no untrusted
chunk has a message for a constant. But `make_msg` wraps any payload, a message as well, so no bound
on what the embedder brings along is one on what flows hold (`nesting_grows`). As long as `make_msg`
is given nothing but payloads that nest less than a bound, no register and no mailbox holds a value
that nests deeper (`nesting_bounded`).
-/

namespace Byteflow

namespace Value

theorem nesting_of_plain {v : Value} (h : v.Plain) : v.nesting = 0 := by
  cases v with
  | message => cases h.2
  | _ => rfl

end Value

namespace Worker

variable {c : Config} {strict : Prop} {s : State} {b : ℕ}

/-- What is made anew in a payload are its tokens. -/
theorem State.Passed.nesting {sender : Option FlowId} {recipient : FlowId} {v w : Value}
    (h : s.Passed sender recipient v w) : w.nesting = v.nesting := by
  induction v generalizing w with
  | cap id => rcases h with ⟨-, rfl⟩ | ⟨id', rfl, -⟩ <;> rfl
  | message a r q t payload ih =>
    obtain ⟨payload', rfl, hp⟩ := h
    exact congrArg (· + 1) (ih hp)
  | _ =>
    obtain rfl := h
    rfl

theorem State.Ready.nesting {sender : Option FlowId} {target : FlowId} {m m' : Message}
    (h : s.Ready sender target m m') (flow : FlowId) (reply : CapId) :
    (m'.authenticate flow reply).toValue.nesting = m.toValue.nesting :=
  congrArg (· + 1) h.payload.nesting

theorem nesting_granted {parent : Option FlowId} {child : FlowId} {args args' : List Value}
    (h : List.Forall₂ (s.GrantedArg parent child) args args')
    (hargs : ∀ v ∈ args, v.nesting ≤ b) : ∀ w ∈ args', w.nesting ≤ b := by
  induction h with
  | nil => exact List.forall_mem_nil _
  | cons hw _ ih =>
    obtain ⟨hv, hargs⟩ := List.forall_mem_cons.mp hargs
    refine List.forall_mem_cons.mpr ⟨?_, ih hargs⟩
    rcases hw with ⟨-, rfl⟩ | ⟨id, id', -, rfl, -⟩
    · exact hv
    · exact Nat.zero_le b

/-! ## The policy -/

/-- No value nests deeper than `b`. -/
def shallowPolicy (b : ℕ) : Policy where
  holds := fun _ _ v => v.nesting ≤ b
  carries := fun _ _ hop => hop.value.nesting ≤ b
  waits := fun _ _ _ => True
  brings := fun _ v => v.nesting ≤ b
  sends := fun _ => True

theorem nesting_le_of_plain {v : Value} (h : v.Plain) : v.nesting ≤ b :=
  (Value.nesting_of_plain h).trans_le (Nat.zero_le b)

/-- The notices of the runtime are messages themselves. -/
theorem shallowPolicy_sustained (strict : Prop) (htrust : c.trust = .untrusted) (hb : 1 ≤ b) :
    (shallowPolicy b).Sustained c strict where
  holds_mono := fun _ h => h
  carries_mono := fun _ h => h
  waits_mono := fun _ _ => trivial
  brings_mono := fun _ h => h
  plain := nesting_le_of_plain
  token := fun _ _ _ _ => Nat.zero_le b
  delegate := fun _ _ _ => Nat.zero_le b
  built := fun {k _ _ _} _ hbuilt hflow hhost => by
    have hargs : ∀ v ∈ k.args, v.nesting ≤ b := fun v hv => by
      cases hk : k.flow with
      | some parent => exact hflow v hv parent hk
      | none => exact hhost hk v hv
    refine ⟨fun frame hf v hv => ?_, fun v hv => ?_⟩
    · obtain ⟨args, hgranted, hregisters⟩ := hbuilt.args
      rcases hregisters frame hf v hv with rfl | hv
      · exact nesting_le_of_plain Value.plain_unit
      · exact nesting_granted hgranted hargs v hv
    · rcases hbuilt.image.2 with hverify | hnil
      · rw [htrust] at hverify
        exact nesting_le_of_plain (Chunk.constants_of_verify hverify v hv)
      · rw [hnil] at hv
        cases hv
  send := fun _ hsent _ => by
    cases hsent with
    | @intro cap m m' reply n hcap hready hreply hholds hmessage hsends =>
      exact (hready.nesting _ _).trans_le hmessage
  stamp := fun _ ⟨m, hbrings, hready⟩ _ => (hready.nesting _ _).trans_le hbrings
  down := fun _ _ _ => hb
  receive := fun _ _ _ _ => trivial
  ask := fun _ _ _ _ => trivial
  handed := fun _ hcarries _ _ => hcarries
  notice := fun _ _ _ => hb

/-! ## Runs -/

/-- The payload that a thread is about to have wrapped. -/
def State.wraps (s : State) (t : ℕ) (env : Env) : Option Value :=
  match s.driven t, s.modes t with
  | some id, .slice _ (_ + 1) =>
    ((s.processes id).vm.invoked (s.host env)).bind fun call =>
      if call.1 = 2 ∧ (StdNatives.makeMsg env.tick call.2.2).isOk then
        StdNatives.wrapped call.2.2
      else none
  | _, _ => none

theorem State.wraps_of_invoked (s : State) {t : ℕ} {env : Env} {id : FlowId} {ran left : ℕ}
    (hdriven : s.driven t = some id) (hmode : s.modes t = .slice ran (left + 1))
    {native : NativeFn} {args : List Value} {v : Value}
    (hcall : (s.processes id).vm.invoked (s.host env) = some (2, native, args))
    (hv : StdNatives.makeMsg env.tick args = .ok v) :
    s.wraps t env = StdNatives.wrapped args := by
  unfold State.wraps
  simp only [hdriven, hmode, hcall, Option.bind_some, hv]
  rfl

/-- What is wrapped nests less than `b`. -/
def WrapsShallow (b : ℕ) (s : State) : ℕ × Input → Prop
  | (t, .code env) => ∀ v ∈ s.wraps t env, v.nesting < b
  | _ => True

instance (b : ℕ) (s : State) (ti : ℕ × Input) : Decidable (WrapsShallow b s ti) :=
  match ti with
  | (t, .code env) => inferInstanceAs (Decidable (∀ v ∈ s.wraps t env, v.nesting < b))
  | (_, .machine ..) | (_, .call _) => inferInstanceAs (Decidable True)

/-- What the embedder brings along nests no more than `b`. -/
def BringsShallow (b : ℕ) : ℕ × Input → Prop
  | (_, .call call) => ∀ v ∈ brought call, v.nesting ≤ b
  | _ => True

instance (b : ℕ) (ti : ℕ × Input) : Decidable (BringsShallow b ti) :=
  match ti with
  | (_, .call call) => inferInstanceAs (Decidable (∀ v ∈ brought call, v.nesting ≤ b))
  | (_, .machine ..) | (_, .code _) => inferInstanceAs (Decidable True)

/-- Neither a register nor a mailbox holds a value that nests deeper, nor is one on its way. -/
structure Shallow (b : ℕ) (s : State) : Prop where
  registers : ∀ id, ∀ frame ∈ (s.processes id).vm.frames, ∀ v ∈ frame.registers, v.nesting ≤ b
  hops : Machine.Carries (fun _ hop => hop.value.nesting ≤ b) s.machine

/-- What a native returns nests no deeper. -/
theorem WrapsShallow.invokes (hnatives : c.natives = stdNatives) (hr : Running c strict s)
    {ti : ℕ × Input} (h : WrapsShallow b s ti) : Invokes (shallowPolicy b) s ti := by
  match ti with
  | (t, .machine input env) => trivial
  | (t, .call call) => trivial
  | (t, .code env) =>
    rintro id ran left hdriven hmode ⟨index, native, args⟩ hcall ha v hv
    obtain ⟨-, hget⟩ := Vm.gate_of_invoked hcall
    have hstd : stdNatives.get index = some native := by
      rcases (hr.sound.fitted.image id).1 with he | he <;> rw [he] at hget
      · exact hnatives ▸ hget
      · cases hget
    rcases stdNatives_get hstd with ⟨rfl, rfl⟩ | hother
    · obtain ⟨requestId, tag, payload, hpayload, rfl⟩ :=
        @StdNatives.wrapped_of_makeMsg args env.tick v hv
      exact h payload ((s.wraps_of_invoked hdriven hmode hcall hv).trans hpayload)
    · exact holds_of_other (p := fun v => v.nesting ≤ b) (fun _ => nesting_le_of_plain)
        (fun m hm => (Nat.le_succ _).trans hm) (fun _ _ => Nat.zero_le b) hother ha hv

/-- **Nesting.** If what is wrapped nests less than `b` and what the embedder brings along no more
than `b`, no value nests deeper than `b`. -/
theorem nesting_bounded (htrust : c.trust = .untrusted) (hnatives : c.natives = stdNatives)
    (hb : 1 ≤ b) (sched : List (ℕ × Input)) (hbrings : ∀ ti ∈ sched, BringsShallow b ti)
    (hwraps : Schedule.Guarded (step c) (WrapsShallow b) (State.init c) sched) :
    Shallow b (run c sched) := by
  have hobserves : Schedule.Guarded (step c) (Observes (shallowPolicy b)) (State.init c) sched := by
    refine Schedule.guarded_of_mem (fun s ti hti => ?_) _
    match ti, hbrings ti hti with
    | (t, .code env), _ => exact fun _ _ => trivial
    | (t, .machine input env), _ => trivial
    | (t, .call call), hcall => exact hcall
  obtain ⟨-, hu⟩ := run_upheld_of_sustained (shallowPolicy_sustained False htrust hb) sched
    False.elim hobserves hwraps fun s ti hr h => h.invokes hnatives hr
  exact ⟨fun id => (hu.boxes id).registers, hu.transit.carries⟩

/-! ## A flow that wraps its argument -/

/-- `main` wraps its argument over and over. -/
def wraps : Chunk where
  name := "wraps"
  constants := []
  code := [.aImm .loadImm 1 1, .aImm .loadImm 2 7, .abc .move 3 0 0, ⟨.callNative, 1, 3, 0, 2⟩,
    .abc .move 0 1 0, .onlyImm .jump (-6)]
  functions := [⟨"main", 0, 1, 4⟩]

/-- The host spawns the flow, and a worker executes `n` instructions of it. -/
def driveWraps (v : Value) (n : ℕ) : List (ℕ × Input) :=
  (0, .call (.spawn wraps 0 [v])) :: codes 0 9 ⟨5⟩ ++
    (0, .machine (.start (.work 0)) (quietEnv ⟨5⟩)) :: picks 0 1 ⟨5⟩ ++ codes 0 (n + 1) ⟨5⟩

theorem nesting_bounded_once : Shallow 1 (run standard (driveWraps .unit 4)) :=
  nesting_bounded rfl rfl le_rfl _ (by decide) (by decide)

/-- `n` messages around `Unit`. -/
def nested : ℕ → Value
  | 0 => .unit
  | n + 1 => .message FlowId.host CapId.none 1 7 (nested n)

theorem nesting_nested (n : ℕ) : (nested n).nesting = n := by
  induction n with
  | zero => rfl
  | succ n ih => exact congrArg (· + 1) ih

theorem brings_driveWraps (v : Value) (n : ℕ) :
    ∀ ti ∈ driveWraps v n, BringsShallow v.nesting ti := by
  simp [driveWraps, codes, picks, BringsShallow, brought, callArgs, or_imp, forall_and]

set_option maxRecDepth 10000 in
/-- The first round wraps the argument. -/
theorem frames_wraps (n : ℕ) :
    ((run standard (driveWraps (nested n) 4)).processes 1).vm.frames =
      [⟨0, 4, [nested n, nested (n + 1), .int 7, nested n], none⟩] := by
  cases n with
  | zero => rfl
  | succ n =>
    simp only [nested]
    generalize nested n = payload
    cbv

def longQuantum : Config := { standard with quantum := 200 }

set_option maxRecDepth 10000 in
/-- No bound on what the embedder brings along bounds what a flow holds; and what nests deeper than
a constant may is made of plain values. -/
theorem nesting_grows :
    (¬∃ bound, ∀ (c : Config) (sched : List (ℕ × Input)), c.trust = .untrusted →
      c.natives = stdNatives → (∀ ti ∈ sched, BringsShallow bound ti) →
        Shallow bound (run c sched)) ∧
    (∀ ti ∈ driveWraps .unit 102, BringsShallow 0 ti) ∧
      ¬Shallow maxValueDepth (run longQuantum (driveWraps .unit 102)) := by
  refine ⟨?_, brings_driveWraps .unit 102, fun h => ?_⟩
  · rintro ⟨bound, hall⟩
    have hbrings := brings_driveWraps (nested bound) 4
    rw [nesting_nested] at hbrings
    have hregisters := (hall standard _ rfl rfl hbrings).registers 1
    rw [frames_wraps] at hregisters
    have hle := hregisters _ List.mem_cons_self (nested (bound + 1)) (by simp)
    rw [nesting_nested] at hle
    omega
  · obtain ⟨frame, hframe, v, hv, hdeep⟩ :
        ∃ frame ∈ ((run longQuantum (driveWraps .unit 102)).processes 1).vm.frames,
          ∃ v ∈ frame.registers, maxValueDepth < v.nesting := by
      decide
    exact absurd (h.registers 1 frame hframe v hv) (by omega)

end Worker

end Byteflow
