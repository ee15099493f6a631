import Byteflow.Scheduler.Worker.Tags

/-!
# Delivered capabilities

The tokens of a hop are made anew for its recipient: its reply cap, and the one at the bottom of its
payload. When the hop is delivered, the recipient may use them, unless it has exited by then or the
flow that they address has (`delivered_usable`). The reply caps of the messages in between are
those that somebody else got with them (`delivered_unusable`).
-/

namespace Byteflow

namespace Worker

variable {c : Config} {strict : Prop} {s s' : State}

/-! ## Tokens that last -/

/-- Who was given a token may use it, as long as neither it nor the flow that the token addresses
has exited. -/
theorem Consistent.usable (hs : Consistent strict s) {token : CapId} {entry : Capability}
    (hg : s.Given token entry) :
    s.caps.resolve token entry.holder CapRights.none = .ok entry ∨ s.Exited entry.holder ∨
      ∃ target, entry.target = some target ∧ s.Exited target := by
  rcases hs.lasting token entry hg with hh | ht | he
  · exact .inr (.inl hh)
  · exact .inr (.inr ht)
  by_cases ht : ∃ target, entry.target = some target ∧ s.Exited target
  · exact .inr (.inr ht)
  refine .inl ?_
  have hlive : s.caps.isLive entry.cap = true := by
    have hcurrent := (hs.current token entry hg).2
    unfold State.Current at hcurrent
    unfold CapTable.isLive
    cases htarget : entry.cap.target with
    | flow target =>
      rw [htarget] at hcurrent
      rcases hcurrent.2 with hx | ⟨cell, hcell, hepoch⟩
      · exact absurd ⟨target, target_eq_some.mpr htarget, hx⟩ ht
      · simp [hcell, hepoch, Cap.isValid]
    | nativeTable =>
      rw [htarget] at hcurrent
      simp [hs.epoch, CapTable.nativeCell, Cap.isValid, hcurrent]
    | scheduler =>
      rw [htarget] at hcurrent
      simp [hs.epoch, CapTable.schedulerCell, Cap.isValid, hcurrent]
  have hlookup : s.caps.lookup token = some entry := by
    unfold CapTable.lookup
    rw [if_neg (hs.drawn token entry hg).2, he]
  unfold CapTable.resolve
  rw [hlookup]
  simp [hlive, CapRights.contains_none]

/-- The token is none, or it was given to the flow. -/
def State.GivenTo (s : State) (id : FlowId) (token : CapId) : Prop :=
  token = CapId.none ∨ ∃ entry, s.Given token entry ∧ entry.holder = id

theorem State.GivenTo.mono {id : FlowId} {token : CapId} (h : s.GivenTo id token)
    (hgrows : Grows strict s s') : s'.GivenTo id token :=
  h.imp_right fun ⟨entry, hg, hh⟩ => ⟨entry, hgrows.given _ _ hg, hh⟩

theorem State.Holds.givenTo {holder target : FlowId} {id : CapId} (h : s.Holds holder target id) :
    s.GivenTo holder id := by
  obtain ⟨entry, hg, hh, -⟩ := h
  exact .inr ⟨entry, hg, hh⟩

/-- A payload was made anew down to its bottom. -/
theorem State.Passed.bottom {sender : Option FlowId} {recipient : FlowId} {v w : Value}
    (h : s.Passed sender recipient v w) : ∀ token ∈ w.bottom, s.GivenTo recipient token := by
  induction v generalizing w with
  | cap id =>
    rcases h with ⟨hid, rfl⟩ | ⟨id', rfl, entry, entry', -, -, hg, hh, -⟩
    · rintro token ⟨⟩
      exact .inl hid
    · rintro token ⟨⟩
      exact .inr ⟨entry', hg, hh⟩
  | message a r q t payload ih =>
    obtain ⟨payload', rfl, hp⟩ := h
    show ∀ token ∈ payload'.bottom, s.GivenTo recipient token
    exact ih hp
  | _ =>
    obtain rfl := h
    exact nofun

/-- The tokens of a message that are made anew for its recipient. -/
def renewed (m : Message) : List CapId := m.replyCap :: m.payload.bottom.toList

theorem givenTo_renewed {id : FlowId} {m : Message} (hreply : s.GivenTo id m.replyCap)
    (hbottom : ∀ token ∈ m.payload.bottom, s.GivenTo id token) :
    ∀ token ∈ renewed m, s.GivenTo id token := by
  intro token ht
  rcases List.mem_cons.mp ht with rfl | ht
  · exact hreply
  · exact hbottom token (Option.mem_toList.mp ht)

/-! ## Hops -/

/-- The tokens of a hop were given to the flow that it is sent to. -/
def renewedPolicy : Policy where
  holds := fun _ _ _ => True
  carries := fun s id hop => ∀ m, hop.value.asMessage = some m → ∀ token ∈ renewed m,
    s.GivenTo id token
  waits := fun _ _ _ => True
  brings := fun _ _ => True
  sends := fun _ => True

theorem renewedPolicy_kept (c : Config) (strict : Prop) : renewedPolicy.Kept c strict where
  holds_mono := fun _ _ => trivial
  carries_mono := fun hgrows h m hm token ht => (h m hm token ht).mono hgrows
  waits_mono := fun _ _ => trivial
  brings_mono := fun _ _ => trivial
  plain := fun _ => trivial
  native := fun _ _ _ _ _ => trivial
  token := fun _ _ _ _ => trivial
  delegate := fun _ _ _ => trivial
  built := fun _ _ _ _ => ⟨fun _ _ _ _ => trivial, fun _ _ => trivial⟩
  send := fun _ hsent _ m hm => by
    cases hsent with
    | intro n hcap hready hreply hholds hmessage hsends =>
      cases hm
      exact givenTo_renewed hreply.givenTo hready.payload.bottom
  stamp := fun _ ⟨_, _, hready⟩ _ m hm => by
    cases hm
    exact givenTo_renewed (.inl rfl) hready.payload.bottom
  down := fun _ _ _ m hm => by
    cases hm
    exact givenTo_renewed (.inl rfl) nofun
  receive := fun _ _ _ _ => trivial
  ask := fun _ _ _ _ => trivial
  handed := fun _ _ _ _ => trivial
  notice := fun _ _ _ => trivial

/-- **Delivery.** The tokens that were made anew for a hop may be used by its recipient when a
mailbox accepts the hop, unless the recipient or the flow that they address has exited. -/
theorem delivered_usable (c : Config) (sched : List (ℕ × Input)) (t : ℕ) (input : Machine.Input)
    (id : FlowId) (hop : Hop) (m : Message)
    (hhop : hop ∈ Machine.accepted id (run c sched).machine (t, input))
    (hm : hop.value.asMessage = some m) (token : CapId) (ht : token ∈ renewed m)
    (hnone : token ≠ CapId.none) :
    ∃ entry, (run c sched).Given token entry ∧ entry.holder = id ∧
      ((run c sched).caps.resolve token id CapRights.none = .ok entry ∨ (run c sched).Exited id ∨
        ∃ target, entry.target = some target ∧ (run c sched).Exited target) := by
  obtain ⟨hr, hu⟩ := run_upheld (renewedPolicy_kept c False) sched False.elim
    (Schedule.guarded_of_forall (observes_of_forall (fun _ => trivial) fun _ _ => trivial) _ _)
  obtain ⟨entry, hg, rfl⟩ := (hu.transit.carries.accepted hhop m hm token ht).resolve_left hnone
  exact ⟨entry, hg, rfl, hr.sound.consistent.usable hg⟩

/-! ## A message that is forwarded, and a flow that is killed meanwhile -/

/-- The flow sends itself a message, and forwards what it received to a child. -/
def forwards : Chunk where
  name := "forwards"
  constants := []
  code := [.aImm .loadImm 0 1, .aImm .loadImm 1 7, .aImm .loadImm 2 0,
    ⟨.callNative, 0, 3, 0, 2⟩, .abc .selfPid 1 0 0, .abc .send 1 0 0, .abc .receive 2 0 0,
    .aImm .loadImm 0 1, .aImm .loadImm 1 7, ⟨.callNative, 0, 3, 0, 2⟩, .abc .spawn 3 0 1,
    .abc .send 3 0 0]
  functions := [⟨"main", 0, 0, 4⟩]

/-- The flow sends its second child a `Cap` to the first. -/
def passesOn : Chunk where
  name := "passesOn"
  constants := []
  code := [.aImm .loadImm 0 1, .aImm .loadImm 1 7, .abc .spawn 2 0 1, .abc .spawn 3 0 1,
    ⟨.callNative, 0, 3, 0, 2⟩, .abc .send 3 0 0]
  functions := [⟨"main", 0, 0, 4⟩]

/-- Next the child's mailbox is pushed to. -/
def driveForwards : List (ℕ × Input) :=
  driveChunk forwards ++ codes 0 12 ⟨5⟩ ++ codes 0 7 ⟨6⟩ ++ picks 0 2 ⟨6⟩ ++ codes 0 4 ⟨6⟩ ++
    picks 0 2 ⟨6⟩ ++ codes 0 26 ⟨7⟩ ++ codes 0 8 ⟨8⟩ ++ picks 0 1 ⟨8⟩

/-- Before the second child's mailbox is pushed to, the first child is killed. -/
def drivePassesOn : List (ℕ × Input) :=
  driveChunk passesOn ++ codes 0 21 ⟨5⟩ ++ codes 0 20 ⟨6⟩ ++ codes 0 8 ⟨7⟩ ++ codes 0 3 ⟨8⟩ ++
    picks 0 1 ⟨8⟩ ++ (1, .machine (.start (.kill 2 .killed)) (quietEnv ⟨8⟩)) :: picks 1 4 ⟨8⟩ ++
    (1, .machine (.start (.work 1)) (quietEnv ⟨8⟩)) :: picks 1 10 ⟨8⟩

set_option maxRecDepth 10000 in
/-- The child may use the reply cap of the hop. -/
theorem delivered_usable_forwards :
    ∃ hop ∈ Machine.accepted 2 (run standard driveForwards).machine (0, .pick 0), ∃ token entry,
      (run standard driveForwards).Given token entry ∧ entry.holder = 2 ∧
        ((run standard driveForwards).caps.resolve token 2 CapRights.none = .ok entry ∨
          (run standard driveForwards).Exited 2 ∨
          ∃ target, entry.target = some target ∧ (run standard driveForwards).Exited target) := by
  obtain ⟨hop, hhop, m, hm, token, ht, hnone⟩ :
      ∃ hop ∈ Machine.accepted 2 (run standard driveForwards).machine (0, .pick 0),
        ∃ m ∈ hop.value.asMessage, ∃ token ∈ renewed m, token ≠ CapId.none := by
    decide
  exact ⟨hop, hhop, token,
    delivered_usable standard driveForwards 0 (.pick 0) 2 hop m hhop hm token ht hnone⟩

set_option maxRecDepth 10000 in
/-- The child gets the reply cap of the message inside, which is its parent's; and the second child
gets a `Cap` to a flow that is gone. -/
theorem delivered_unusable :
    (∃ hop ∈ Machine.accepted 2 (run standard driveForwards).machine (0, .pick 0),
      ∃ token ∈ hop.value.tokens, token ≠ CapId.none ∧
        (run standard driveForwards).caps.resolve token 2 CapRights.none = .error .notHolder) ∧
    ∃ hop ∈ Machine.accepted 3 (run standard drivePassesOn).machine (0, .pick 0),
      ∃ m ∈ hop.value.asMessage, ∃ token ∈ renewed m, token ≠ CapId.none ∧
        (run standard drivePassesOn).caps.resolve token 3 CapRights.none = .error .unknown := by
  constructor <;> decide

end Worker

end Byteflow
