import Byteflow.Scheduler.Machine.Holders

/-!
# Registration

A flow is in the directory from its spawn to the `unregister` of its finalization, and its mailbox
is closed before it leaves (`Registered`, `ClosedBefore`).
-/

namespace Byteflow

namespace Machine

/-! ## Flows that are registered -/

/-- The flow that is finalized, until it was unregistered. -/
def FinStage.early (cur : PendingExit) : FinStage → Multiset FlowId
  | .owned => 0
  | .names => 0
  | .notify => 0
  | .downs _ => 0
  | .links => 0
  | .peers _ => 0
  | _ => cur.box

def KillAfter.early : KillAfter → Multiset FlowId
  | .request => 0
  | .link _ _ work => boxesOf PendingExit.box work

/-- The flows that a frame holds, but for the one that was unregistered. -/
def Frame.early : Frame → Multiset FlowId
  | .fin stage cur work => stage.boxes + (stage.early cur + boxesOf PendingExit.box work)
  | .kill stage _ _ next => stage.boxes + next.early
  | f => f.boxes

theorem Frame.early_subset (f : Frame) : ∀ a ∈ f.early, a ∈ f.boxes := by
  refine fun a => Multiset.mem_of_le ?_
  cases f with
  | fin stage cur work =>
    refine add_le_add_right (add_le_add_left ?_ _) _
    cases stage <;> first | exact le_refl _ | exact Multiset.zero_le _
  | kill stage id reason next =>
    refine add_le_add_right ?_ _
    cases next with
    | request => exact le_refl _
    | link cur peers work => exact Multiset.le_add_left _ _
  | _ => exact le_refl _

/-- Every flow that has not been unregistered is in the directory. -/
structure Registered (s : State) : Prop where
  frames : ∀ f ∈ s.frames, ∀ a ∈ f.early, s.shared.directory a = true
  mailboxes : ∀ id, ∀ a ∈ (s.shared.mailboxes id).boxes, s.shared.directory a = true
  queues : ∀ flow ∈ s.shared.queues, s.shared.directory flow.id = true
  timers : ∀ flow, .wakeSleeper flow ∈ s.shared.timers → s.shared.directory flow.id = true

theorem registered_init (config : MailboxConfig) : Registered (State.init config) where
  frames := fun _ hf => by obtain ⟨t, hf⟩ := hf; cases hf
  mailboxes := fun _ _ ha => by cases Multiset.notMem_zero _ ha
  queues := fun _ hf => by cases hf
  timers := fun _ hf => by cases hf

end Machine

namespace Mailbox

/-- A push hands over to the receiver that is parked. -/
theorem parked_of_handoff {m : Mailbox Hop} {h : Hop} {receiver : Flow Hop}
    (hr : (m.push h).2 = .ok (.handoff receiver)) : m.parked = some receiver := by
  rcases m.push_cases h with ⟨flow, hp, -, he⟩ | ⟨-, he⟩
  · rw [he] at hr
    cases hr
    exact hp
  · rw [he] at hr
    exact absurd hr (m.enqueueLocked_ne_handoff h _ receiver)

theorem parked_of_system_handoff {m : Mailbox Hop} {h : Hop} {receiver : Flow Hop}
    (hr : (m.pushSystem h).2 = .handoff receiver) : m.parked = some receiver := by
  rcases m.pushSystem_cases h with ⟨flow, hp, -, he⟩ | ⟨-, he⟩ <;> rw [he] at hr <;> cases hr
  exact hp

theorem parked_of_takeParkedAt {m : Mailbox Hop} {epoch : WaitEpoch} {flow : Flow Hop}
    (hr : (m.takeParkedAt epoch).2 = some flow) : m.parked = some flow := by
  rcases m.takeParkedAt_cases epoch with ⟨flow', -, hp, he⟩ | ⟨-, he⟩ <;> rw [he] at hr <;> cases hr
  exact hp

/-- A flow that could not park comes back. -/
theorem id_of_parkFilter {m : Mailbox Hop} {flow flow' : Flow Hop} {filter : WaitFilter}
    (hr : (m.parkFilter flow filter).2 = .error flow') : flow'.id = flow.id := by
  rcases m.parkFilter_cases flow filter with ⟨h, -, he⟩ | ⟨-, he⟩ <;> rw [he] at hr <;> cases hr
  rfl

theorem waiting_of_admit {m : Mailbox Hop} {flow : Flow Hop}
    (hr : m.admitWaitingSender.2 = some flow) : ∃ w ∈ m.waitingSenders, w.flow = flow := by
  rcases m.admitWaitingSender_cases with ⟨-, he⟩ | ⟨_, _, _, -, -, -, he⟩ |
    ⟨w, rest, _, -, hw, -, he⟩ <;> rw [he] at hr <;> cases hr
  exact ⟨w, hw ▸ List.mem_cons_self, rfl⟩

theorem waiting_of_takeWaitingSender {m : Mailbox Hop} {sender : FlowId} {flow : Flow Hop}
    (hr : (m.takeWaitingSender sender).2 = some flow) :
    ∃ w ∈ m.waitingSenders, w.flow = flow ∧ flow.id = sender := by
  simp only [takeWaitingSender, FirstMatch.extract_eq] at hr
  cases hw : m.waitingSenders.find? (fun w => w.flow.id == sender) with
  | none =>
    rw [hw] at hr
    cases hr
  | some w =>
    rw [hw] at hr
    cases hr
    exact ⟨w, List.mem_of_find?_eq_some hw, rfl, by simpa using List.find?_some hw⟩

theorem mem_boxes_of_parked {m : Mailbox Hop} {flow : Flow Hop} (h : m.parked = some flow) :
    flow.id ∈ m.boxes := mem_boxes.mpr (.inl ⟨flow, h, rfl⟩)

theorem mem_boxes_of_waiting {m : Mailbox Hop} {w : WaitingSender Hop}
    (h : w ∈ m.waitingSenders) : w.flow.id ∈ m.boxes := mem_boxes.mpr (.inr ⟨w, h, rfl⟩)

end Mailbox

namespace Machine

theorem Frame.Plain.early {g : Frame} (h : g.Plain) : g.early = 0 := by
  cases g <;> first | rfl | exact h.elim

/-- The registered flows of a new frame come from the frame that leads to it, from a mailbox, or
from a spawn. -/
theorem Leads.early {σ : Shared} {f g : Frame} (h : Leads σ f g) {a : FlowId} (ha : a ∈ g.early) :
    a ∈ f.early ∨ (∃ id, a ∈ (σ.mailboxes id).boxes) ∨ a = σ.nextFlowId := by
  have hparked : ∀ {id flow}, (σ.mailboxes id).parked = some flow → a ∈ flow.box →
      a ∈ f.early ∨ (∃ id, a ∈ (σ.mailboxes id).boxes) ∨ a = σ.nextFlowId := by
    intro id flow hp ha
    rw [Multiset.mem_singleton.mp ha]
    exact .inr (.inl ⟨id, Mailbox.mem_boxes_of_parked hp⟩)
  cases h with
  | plain hplain =>
    rw [hplain.early] at ha
    cases Multiset.notMem_zero _ ha
  | runSpawn => exact .inr (.inr (Multiset.mem_singleton.mp ha))
  | pushHandoff hr => exact hparked (Mailbox.parked_of_handoff hr) ha
  | admitAdmitted hr =>
    obtain ⟨w, hw, rfl⟩ := Mailbox.waiting_of_admit hr
    rw [Multiset.mem_singleton.mp ha]
    exact .inr (.inl ⟨_, Mailbox.mem_boxes_of_waiting hw⟩)
  | runSend hid =>
    refine .inl ?_
    simpa only [Frame.early, Frame.boxes, Flow.box, hid] using ha
  | runReceive tag rid timeout hid =>
    refine .inl ?_
    simpa only [Frame.early, Frame.boxes, Flow.box, hid] using ha
  | parkWake hr =>
    refine .inl ?_
    simpa only [Frame.early, Frame.boxes, Flow.box, Mailbox.id_of_parkFilter hr] using ha
  | askForget hr =>
    refine .inl ?_
    simpa only [Frame.early, Frame.boxes, Flow.box, Mailbox.id_of_parkFilter hr] using ha
  | takeForget hp => exact hparked hp ha
  | fireForget hr => exact hparked (Mailbox.parked_of_takeParkedAt hr) ha
  | downForget hr => exact hparked (Mailbox.parked_of_system_handoff hr) ha
  | hostForget hr => exact hparked (Mailbox.parked_of_handoff hr) ha
  | finTookWake hp => exact hparked hp ha
  | finNext hstage hwork =>
    subst hwork
    simp only [Frame.early, FinStage.boxes, FinStage.early, boxesOf_append, boxesOf_cons,
      boxesOf_nil, Multiset.mem_add, add_zero] at ha ⊢
    tauto
  | finSenders =>
    simp only [Frame.early, FinStage.boxes, FinStage.early, Multiset.mem_add] at ha ⊢
    rcases ha with ha | ha
    · obtain ⟨flow, hflow, ha⟩ := mem_boxesOf.mp ha
      obtain ⟨w, hw, rfl⟩ := List.mem_map.mp hflow
      rw [Multiset.mem_singleton.mp ha]
      exact .inr (.inl ⟨_, Mailbox.mem_boxes_of_waiting hw⟩)
    · exact .inl (.inr ha)
  | finSender outcome =>
    simp only [Frame.early, FinStage.boxes, FinStage.early, boxesOf_append, boxesOf_cons,
      boxesOf_nil, Multiset.mem_add, add_zero, PendingExit.box] at ha ⊢
    tauto
  | finOwned =>
    simp only [Frame.early, FinStage.boxes, FinStage.early, Multiset.mem_add,
      zero_add] at ha ⊢
    tauto
  | finKill =>
    simp only [Frame.early, FinStage.boxes, FinStage.early, KillStage.boxes, KillAfter.early,
      zero_add] at ha ⊢
    tauto
  | killBack hstage =>
    simp only [Frame.early, FinStage.boxes, FinStage.early, KillAfter.early,
      Multiset.mem_add, zero_add] at ha ⊢
    tauto
  | killRemove hr =>
    obtain ⟨w, hw, rfl, -⟩ := Mailbox.waiting_of_takeWaitingSender hr
    rcases Multiset.mem_add.mp ha with ha | ha
    · rw [Multiset.mem_singleton.mp ha]
      exact .inr (.inl ⟨_, Mailbox.mem_boxes_of_waiting hw⟩)
    · exact .inl (Multiset.mem_add.mpr (.inr ha))
  | killFin outcome hp =>
    simp only [Frame.early, FinStage.boxes, FinStage.early, boxesOf_nil, zero_add, add_zero] at ha
    exact hparked hp ha
  | killLink outcome hp =>
    simp only [Frame.early, FinStage.boxes, FinStage.early, Multiset.mem_add, boxesOf_append,
      boxesOf_cons, boxesOf_nil, zero_add, add_zero] at ha
    rcases ha with ha | ha
    · exact .inl (Multiset.mem_add.mpr (.inr ha))
    · exact hparked hp ha
  | killSentFin outcome =>
    simp only [Frame.early, FinStage.boxes, FinStage.early, boxesOf_nil, zero_add, add_zero,
      KillAfter.early, KillStage.boxes] at ha ⊢
    exact .inl ha
  | killSentLink outcome =>
    simp only [Frame.early, FinStage.boxes, FinStage.early, Multiset.mem_add, boxesOf_append,
      boxesOf_cons, boxesOf_nil, zero_add, add_zero, KillAfter.early, KillStage.boxes,
      PendingExit.box] at ha ⊢
    tauto
  | parkArm htimeout hr => cases Multiset.notMem_zero _ ha
  | askRecheck hr => cases Multiset.notMem_zero _ ha
  | recheckTake hlive => cases Multiset.notMem_zero _ ha
  | finDownEvent => cases Multiset.notMem_zero _ ha
  | _ => exact .inl ha

/-- A flow that an operation puts in a mailbox comes from the frame that operates. -/
theorem Writes.gives_early {f : Frame} {id : FlowId} {op : Mailbox.Op Hop}
    (h : Writes f (.mail id op)) {a : FlowId} (ha : a ∈ op.gives) : a ∈ f.early := by
  cases h <;> first | exact ha | cases Multiset.notMem_zero _ ha

namespace Registered

variable {s : State}

/-- A registered flow stays registered, unless the step unregisters it. -/
theorem directory_step {a : FlowId} (ha : s.shared.directory a = true) (t : ℕ) (i : Input) :
    (step s (t, i)).shared.directory a = true ∨
      ∃ cur work, .fin .owned cur work ∈ (step s (t, i)).frames ∧ cur.id = a := by
  cases step_cases s t i with
  | acts f rest w hs hi hw hσ hnew =>
    rw [hσ.directory]
    cases hw with
    | unregister cur work =>
      by_cases hid : a = cur.id
      · exact .inr ⟨cur, work, mem_frames_of_next hs (List.mem_singleton_self _), hid.symm⟩
      · refine .inl ?_
        rwa [Write.directory, Function.update_of_ne hid]
    | spawn flow =>
      refine .inl ?_
      by_cases hid : a = s.shared.nextFlowId
      · rw [Write.directory, hid, Function.update_self]
      · rwa [Write.directory, Function.update_of_ne hid]
    | _ => exact .inl ha
  | starts w hs hw hσ hnew =>
    rw [hσ.directory]
    refine .inl ?_
    cases hw with
    | register =>
      by_cases hid : a = s.shared.nextFlowId
      · rw [Write.directory, hid, Function.update_self]
      · rwa [Write.directory, Function.update_of_ne hid]
    | _ => exact ha

/-- The flow of a spawn is registered. -/
theorem directory_fresh {t : ℕ} {i : Input}
    (ha : s.shared.nextFlowId < (step s (t, i)).shared.nextFlowId) :
    (step s (t, i)).shared.directory s.shared.nextFlowId = true := by
  cases step_cases s t i with
  | acts f rest w hs hi hw hσ hnew =>
    rw [hσ.nextFlowId] at ha
    rw [hσ.directory]
    cases hw with
    | spawn flow => exact Function.update_self ..
    | _ => exact absurd ha (lt_irrefl _)
  | starts w hs hw hσ hnew =>
    rw [hσ.nextFlowId] at ha
    rw [hσ.directory]
    cases hw with
    | register => exact Function.update_self ..
    | _ => exact absurd ha (lt_irrefl _)

/-- Where the flows of a new frame were. -/
theorem frame_from (h : Registered s) {t : ℕ} {i : Input} {g : Frame}
    (hg : g ∈ (Machine.step s (t, i)).frames) {a : FlowId} (ha : a ∈ g.early) :
    s.shared.directory a = true ∨ a = s.shared.nextFlowId := by
  cases step_cases s t i with
  | acts f rest w hs hi hw hσ hnew =>
    rcases hnew g hg with hg | hl
    · exact .inl (h.frames g (mem_frames_of_others hg) a ha)
    · rcases hl.early ha with ha | ⟨id, ha⟩ | ha
      · exact .inl (h.frames f (mem_frames_of_cons hs) a ha)
      · exact .inl (h.mailboxes id a ha)
      · exact .inr ha
  | starts w hs hw hσ hnew =>
    rcases hnew g hg with hg | hst
    · exact .inl (h.frames g (mem_frames_of_others hg) a ha)
    · cases hst with
      | plain hplain =>
        rw [hplain.early] at ha
        cases Multiset.notMem_zero _ ha
      | drive hq =>
        rw [Multiset.mem_singleton.mp ha]
        exact .inl (h.queues _ hq)
      | sleeper ht =>
        rw [Multiset.mem_singleton.mp ha]
        exact .inl (h.timers _ ht)
      | fire ht => cases Multiset.notMem_zero _ ha
      | spawn => exact .inr (Multiset.mem_singleton.mp ha)
      | kill id reason => cases Multiset.notMem_zero _ ha

/-- The flow that was just unregistered lies in the hands of its finalization only. -/
theorem not_owned (ho : Owned s) {p : Place} {a : FlowId} (hp : a ∈ s.held p)
    (hplace : ∀ t, p ≠ .thread t) :
    ¬∃ cur work, .fin .owned cur work ∈ s.frames ∧ cur.id = a := by
  rintro ⟨cur, work, ⟨t, hf⟩, rfl⟩
  exact hplace t (ho.exclusive.place_unique hp (mem_held_thread hf (cur_mem_boxes ..)))

theorem not_owned_of_early (ho : Owned s) {g : Frame} (hg : g ∈ s.frames) {a : FlowId}
    (ha : a ∈ g.early) : ¬∃ cur work, .fin .owned cur work ∈ s.frames ∧ cur.id = a := by
  rintro ⟨cur, work, hf, rfl⟩
  cases ho.frame_unique hg hf (g.early_subset _ ha) (cur_mem_boxes ..)
  -- the finalization does not hold the flow twice
  have hnodup := (Multiset.nodup_add.mp (ho.frame_nodup hf)).2.1
  simp only [Frame.early, FinStage.boxes, FinStage.early, zero_add] at ha
  exact Multiset.disjoint_left.mp (Multiset.nodup_add.mp hnodup).2.2
    (Multiset.mem_singleton_self _) ha

/-- **A step keeps the directory.** -/
theorem step (h : Registered s) (ho : Owned s) (ti : ℕ × Input) :
    Registered (Machine.step s ti) := by
  obtain ⟨t, i⟩ := ti
  have ho' := ho.step (t, i)
  have hplace : ∀ p a, (∀ t, p ≠ .thread t) → a ∈ (Machine.step s (t, i)).held p →
      s.shared.directory a = true → (Machine.step s (t, i)).shared.directory a = true :=
    fun p a hp hmem ha => (directory_step ha t i).resolve_right (not_owned ho' hmem hp)
  refine ⟨fun g hg a ha => ?_, fun id a ha => ?_, fun flow hf => ?_, fun flow hf => ?_⟩
  · rcases h.frame_from hg ha with hdir | rfl
    · exact (directory_step hdir t i).resolve_right (not_owned_of_early ho' hg ha)
    · exact directory_fresh (ho'.spawned_of_frame hg (g.early_subset _ ha)).2
  · refine hplace (.mailbox id) a nofun ha ?_
    rcases step_mailbox s t i id with he | ⟨f, rest, op, hs, hw, he⟩
    · exact h.mailboxes id a (he ▸ ha)
    · have hmem : a ∈ (s.shared.mailboxes id).boxes + op.gives :=
        Multiset.mem_of_le (Mailbox.after_boxes _ op) (Multiset.mem_add.mpr (.inl (he ▸ ha)))
      rcases Multiset.mem_add.mp hmem with hmem | hmem
      · exact h.mailboxes id a hmem
      · exact h.frames f (mem_frames_of_cons hs) a (hw.gives_early hmem)
  · refine hplace .queues flow.id nofun
      (mem_boxesOf.mpr ⟨flow, hf, Multiset.mem_singleton_self _⟩) ?_
    cases step_cases s t i with
    | acts f rest w hs hi hw hσ hnew =>
      rw [hσ.queues] at hf
      cases hw with
      | wake flow' =>
        rcases List.mem_cons.mp hf with rfl | hf
        · exact h.frames _ (mem_frames_of_cons hs) _ (Multiset.mem_singleton_self _)
        · exact h.queues flow hf
      | _ => exact h.queues flow hf
    | starts w hs hw hσ hnew =>
      rw [hσ.queues] at hf
      cases hw with
      | steal n => exact h.queues flow (List.mem_of_mem_eraseIdx hf)
      | _ => exact h.queues flow hf
  · refine hplace .timers flow.id nofun
      (mem_boxesOf.mpr ⟨.wakeSleeper flow, hf, Multiset.mem_singleton_self _⟩) ?_
    cases step_cases s t i with
    | acts f rest w hs hi hw hσ hnew =>
      rw [hσ.timers] at hf
      cases hw with
      | sleep flow' =>
        rcases List.mem_cons.mp hf with heq | hf
        · cases heq
          exact h.frames _ (mem_frames_of_cons hs) _ (Multiset.mem_singleton_self _)
        · exact h.timers flow hf
      | arm pid epoch =>
        rcases List.mem_cons.mp hf with heq | hf
        · cases heq
        · exact h.timers flow hf
      | _ => exact h.timers flow hf
    | starts w hs hw hσ hnew =>
      rw [hσ.timers] at hf
      cases hw with
      | expire n => exact h.timers flow (List.mem_of_mem_eraseIdx hf)
      | _ => exact h.timers flow hf

end Registered

end Machine

end Byteflow
