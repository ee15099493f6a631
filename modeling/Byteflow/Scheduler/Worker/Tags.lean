import Byteflow.Scheduler.Worker.Quantum
import Byteflow.Scheduler.Worker.Upheld
import Byteflow.Vm.StdNatives

/-!
# Reserved tags

`TAG_SYS_DOWN` and `TAG_SYS_EXIT` mark the notices of the runtime. Neither `make_msg` nor the
delivery looks at a tag, so a flow may send a notice about itself (`notices_forged`). As long as no
flow does, what has a reserved tag and a flow as its sender was built by the runtime, because that
flow had exited (`notices_genuine`).
-/

namespace Byteflow

/-- The tags of `DOWN` and of the notice that the target of an `Ask` has exited. -/
def Message.Reserved (m : Message) : Prop := m.tag = tagSysDown ∨ m.tag = tagSysExit

instance (m : Message) : Decidable m.Reserved := inferInstanceAs (Decidable (_ ∨ _))

namespace Worker

variable {c : Config} {strict : Prop} {s s' : State}

/-- The runtime built the message, since the flow that it shows as its sender had exited. -/
structure SystemBuilt (s : State) (m : Message) : Prop where
  exited : s.Exited m.sender
  built : (∃ monitor code, m = .down monitor m.sender code) ∨
    ∃ code, m = .linkedExit m.sender code

theorem SystemBuilt.mono {m : Message} (h : SystemBuilt s m) (hgrows : Grows strict s s') :
    SystemBuilt s' m := ⟨hgrows.exited _ h.exited, h.built⟩

theorem systemBuilt_down {target : FlowId} (h : s.Exited target) (monitor code : UInt64) :
    SystemBuilt s (.down monitor target code) := ⟨h, .inl ⟨monitor, code, rfl⟩⟩

theorem systemBuilt_linkedExit {target : FlowId} (h : s.Exited target) (code : UInt64) :
    SystemBuilt s (.linkedExit target code) := ⟨h, .inr ⟨code, rfl⟩⟩

/-- No flow sends a message with a reserved tag. -/
def reservedPolicy : Policy where
  holds := fun _ _ _ => True
  carries := fun s _ hop => ∀ m, hop.value.asMessage = some m → m.Reserved →
    m.sender ≠ FlowId.host → ⟨.monitor, hop⟩ ∈ s.log.hops ∧ SystemBuilt s m
  waits := fun _ _ _ => True
  brings := fun _ _ => True
  sends := fun m => ¬m.Reserved

theorem reservedPolicy_kept (c : Config) (strict : Prop) : reservedPolicy.Kept c strict where
  holds_mono := fun _ _ => trivial
  carries_mono := fun hgrows h m hm hr hsender => by
    obtain ⟨hhop, hbuilt⟩ := h m hm hr hsender
    exact ⟨hgrows.hops _ hhop, hbuilt.mono hgrows⟩
  waits_mono := fun _ _ => trivial
  brings_mono := fun _ _ => trivial
  plain := fun _ => trivial
  native := fun _ _ _ _ _ => trivial
  token := fun _ _ _ _ => trivial
  delegate := fun _ _ _ => trivial
  built := fun _ _ _ _ => ⟨fun _ _ _ _ => trivial, fun _ _ => trivial⟩
  send := fun _ hsent _ m hm hr _ => by
    cases hsent with
    | intro n hcap hready hreply hholds hmessage hsends =>
      -- the tag is the one that the flow chose
      cases hm
      unfold Message.Reserved at hr
      rw [Message.authenticate, hready.tag] at hr
      exact absurd hr hsends
  stamp := fun _ _ _ m hm _ hsender => by
    cases hm
    exact absurd rfl hsender
  down := fun _ hexited hhop m hm _ _ => by
    cases hm
    exact ⟨hhop, systemBuilt_down hexited _ _⟩
  receive := fun _ _ _ _ => trivial
  ask := fun _ _ _ _ => trivial
  handed := fun _ _ _ _ => trivial
  notice := fun _ _ _ => trivial

/-- No flow is about to send a message with a reserved tag. -/
def SendsUnreserved (s : State) : ℕ × Input → Prop
  | (t, .code _) => ∀ m ∈ (s.modes t).message, ¬m.Reserved
  | _ => True

instance (s : State) (ti : ℕ × Input) : Decidable (SendsUnreserved s ti) :=
  match ti with
  | (t, .code _) => inferInstanceAs (Decidable (∀ m ∈ (s.modes t).message, ¬m.Reserved))
  | (_, .machine ..) | (_, .call _) => inferInstanceAs (Decidable True)

/-- What a mailbox accepts, or a flow is handed, with a reserved tag and a flow as its sender is a
notice of the runtime about that flow, which has exited. -/
structure NoticesGenuine (s : State) : Prop where
  accepted : ∀ t input id hop m, hop ∈ Machine.accepted id s.machine (t, input) →
    hop.value.asMessage = some m → m.Reserved → m.sender ≠ FlowId.host →
    ⟨.monitor, hop⟩ ∈ s.log.hops ∧ SystemBuilt s m
  handed : ∀ t f r m, s.top t = some f → f.hands s.machine.shared = some r →
    r.value.asMessage = some m → m.Reserved → m.sender ≠ FlowId.host → SystemBuilt s m

/-- **Notices.** They are genuine as long as no flow sends a message with a reserved tag. -/
theorem notices_genuine (c : Config) (sched : List (ℕ × Input))
    (h : Schedule.Guarded (step c) SendsUnreserved (State.init c) sched) :
    NoticesGenuine (run c sched) := by
  have hkept := reservedPolicy_kept c False
  obtain ⟨hr, hu⟩ := run_upheld hkept sched False.elim (h.mono fun s ti hti => by
    match ti with
    | (t, .code env) => exact hti
    | (t, .machine input env) => trivial
    | (t, .call call) => exact fun _ _ => trivial)
  refine ⟨fun t input id hop m hhop => hu.transit.carries.accepted hhop m, ?_⟩
  intro t f r m htop hands hm hreserved hsender
  obtain ⟨rest, hs⟩ := State.cons_of_top htop
  have hf := Machine.mem_frames_of_cons hs
  cases hu.transit.handed hr.sound hf hands with
  | hop hvalue hcarries hwaits haccepts =>
    rw [hvalue] at hm
    exact (hcarries m hm hreserved hsender).2
  | deadline hvalue =>
    rw [hvalue] at hm
    cases hm
  | notice code hvalue hexited =>
    rw [hvalue] at hm
    cases hm
    exact systemBuilt_linkedExit hexited code

/-! ## A flow that sends itself a message -/

def sendsItself (tag : Int32) : Chunk where
  name := "sendsItself"
  constants := []
  code := [.aImm .loadImm 0 1, .aImm .loadImm 1 tag, .aImm .loadImm 2 0,
    ⟨.callNative, 0, 3, 0, 2⟩, .abc .selfPid 1 0 0, .abc .send 1 0 0]
  functions := [⟨"main", 0, 0, 3⟩]

def standard : Config where
  maxFlows := 0
  natives := stdNatives
  quota := ⟨1000, 1000⟩
  mailbox := .default
  quantum := 8
  trust := .untrusted

/-- The hop is stamped and its target looked up; next it is pushed. -/
def driveSendsItself (tag : Int32) : List (ℕ × Input) :=
  driveChunk (sendsItself tag) ++ codes 0 12 ⟨5⟩ ++ codes 0 7 ⟨6⟩ ++ picks 0 1 ⟨6⟩

theorem notices_genuine_plainTag : NoticesGenuine (run standard (driveSendsItself 7)) :=
  notices_genuine standard _ (by decide)

set_option maxRecDepth 4000 in
/-- `DOWN` of a flow that lives. -/
theorem notices_forged : ¬NoticesGenuine (run standard (driveSendsItself 0xFF01)) := by
  intro h
  obtain ⟨hop, hhop, m, hm, hreserved, hsender, hexited⟩ :
      ∃ hop ∈ Machine.accepted 1 (run standard (driveSendsItself 0xFF01)).machine (0, .pick 0),
        ∃ m ∈ hop.value.asMessage, m.Reserved ∧ m.sender ≠ FlowId.host ∧
          (run standard (driveSendsItself 0xFF01)).log.exited = [] := by
    decide
  have hbuilt := (h.accepted 0 (.pick 0) 1 hop m hhop hm hreserved hsender).2.exited
  unfold State.Exited at hbuilt
  rw [hexited] at hbuilt
  cases hbuilt

end Worker

end Byteflow
