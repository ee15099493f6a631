import Byteflow.Scheduler.Machine.Boxes
import Byteflow.Scheduler.Machine.Inversion
import Byteflow.Scheduler.Mailbox.Waiting

/-!
# What it means to hold a flow

A frame that holds a flow is the only one to do so, and the flow lies in no mailbox meanwhile
(`Owned.frame_unique`, `Owned.not_parked`, `Owned.not_waiting`). A receiver is parked in its own
mailbox (`Homed`).
-/

namespace Byteflow

namespace Mailbox

theorem mem_boxes {m : Mailbox Hop} {a : FlowId} :
    a ∈ m.boxes ↔ (∃ flow, m.parked = some flow ∧ flow.id = a) ∨
      ∃ w ∈ m.waitingSenders, w.flow.id = a := by
  rw [boxes, Multiset.mem_add, optBox, mem_boxesOf, mem_boxesOf]
  simp only [Option.mem_toList, Flow.box, Multiset.mem_singleton, eq_comm (a := a)]

end Mailbox

namespace Machine

variable {s : State}

theorem mem_held_thread {t : ℕ} {f : Frame} (hf : f ∈ s.threads t) {a : FlowId}
    (ha : a ∈ f.boxes) : a ∈ s.held (.thread t) := mem_boxesOf.mpr ⟨f, hf, ha⟩

/-- A finalization holds the flow that it finalizes. -/
theorem cur_mem_boxes (stage : FinStage) (cur : PendingExit) (work : List PendingExit) :
    cur.id ∈ (Frame.fin stage cur work).boxes :=
  Multiset.mem_add.mpr (.inr (Multiset.mem_add.mpr (.inl (Multiset.mem_singleton_self _))))

theorem boxesOf_nodup_unique {α : Type} {box : α → Multiset FlowId} {l : List α}
    (h : (boxesOf box l).Nodup) {x y : α} (hx : x ∈ l) (hy : y ∈ l) {a : FlowId}
    (hax : a ∈ box x) (hay : a ∈ box y) : x = y := by
  induction l with
  | nil => cases hx
  | cons z l ih =>
    rw [boxesOf_cons, Multiset.nodup_add] at h
    obtain ⟨-, hl, hdisj⟩ := h
    have hout : ∀ b ∈ l, a ∈ box z → a ∈ box b → False := fun b hb haz hab =>
      Multiset.disjoint_left.mp hdisj haz (mem_boxesOf.mpr ⟨b, hb, hab⟩)
    rcases List.mem_cons.mp hx with hxz | hxl
    · rcases List.mem_cons.mp hy with hyz | hyl
      · rw [hxz, hyz]
      · exact (hout y hyl (hxz ▸ hax) hay).elim
    · rcases List.mem_cons.mp hy with hyz | hyl
      · exact (hout x hxl (hyz ▸ hay) hax).elim
      · exact ih hl hxl hyl

namespace Owned

/-- A flow is in the hands of one frame. -/
theorem frame_unique (h : Owned s) {f g : Frame} (hf : f ∈ s.frames) (hg : g ∈ s.frames)
    {a : FlowId} (haf : a ∈ f.boxes) (hag : a ∈ g.boxes) : f = g := by
  obtain ⟨t, hf⟩ := hf
  obtain ⟨r, hg⟩ := hg
  have hplace := h.exclusive.place_unique (mem_held_thread hf haf) (mem_held_thread hg hag)
  cases hplace
  exact boxesOf_nodup_unique (h.exclusive.nodup (.thread t)) hf hg haf hag

/-- The frames that do not act hold no flow of the one that does. -/
theorem others_not_mem (h : Owned s) {t : ℕ} {f g : Frame} {rest : List Frame}
    (hs : s.threads t = f :: rest) (hg : g ∈ s.others t) {a : FlowId} (ha : a ∈ f.boxes) :
    a ∉ g.boxes := by
  intro hag
  have hf : f ∈ s.threads t := hs ▸ List.mem_cons_self
  rcases hg with ⟨r, hr, hg⟩ | hg
  · have hplace := h.exclusive.place_unique (mem_held_thread hf ha) (mem_held_thread hg hag)
    cases hplace
    exact hr rfl
  · have hnodup : (stackBoxes (s.threads t)).Nodup := h.exclusive.nodup (.thread t)
    rw [hs] at hg hnodup
    rw [stackBoxes, boxesOf_cons, Multiset.nodup_add] at hnodup
    exact Multiset.disjoint_left.mp hnodup.2.2 ha (mem_boxesOf.mpr ⟨g, hg, hag⟩)

theorem frame_nodup (h : Owned s) {f : Frame} (hf : f ∈ s.frames) : f.boxes.Nodup := by
  obtain ⟨t, hf⟩ := hf
  have hnodup : (stackBoxes (s.threads t)).Nodup := h.exclusive.nodup (.thread t)
  obtain ⟨l₁, l₂, hl⟩ := List.append_of_mem hf
  rw [hl, stackBoxes, boxesOf_append, boxesOf_cons, Multiset.nodup_add,
    Multiset.nodup_add] at hnodup
  exact hnodup.2.1.1

/-- A flow in the hands of a frame lies in no mailbox. -/
theorem not_mem_mailbox (h : Owned s) {f : Frame} (hf : f ∈ s.frames) {a : FlowId}
    (ha : a ∈ f.boxes) (id : FlowId) : a ∉ (s.shared.mailboxes id).boxes := by
  intro hmem
  obtain ⟨t, hf⟩ := hf
  exact h.exclusive.2 (.thread t) (.mailbox id) nofun a (mem_held_thread hf ha) hmem

theorem not_parked (h : Owned s) {f : Frame} (hf : f ∈ s.frames) {flow : Flow Hop}
    (ha : flow.id ∈ f.boxes) (id : FlowId) : (s.shared.mailboxes id).parked ≠ some flow := by
  intro hp
  exact h.not_mem_mailbox hf ha id (Mailbox.mem_boxes.mpr (.inl ⟨flow, hp, rfl⟩))

theorem not_waiting (h : Owned s) {f : Frame} (hf : f ∈ s.frames) {w : WaitingSender Hop}
    (ha : w.flow.id ∈ f.boxes) (id : FlowId) : w ∉ (s.shared.mailboxes id).waitingSenders := by
  intro hw
  exact h.not_mem_mailbox hf ha id (Mailbox.mem_boxes.mpr (.inr ⟨w, hw, rfl⟩))

/-- A flow lies in one mailbox. -/
theorem mailbox_unique (h : Owned s) {id id' : FlowId} {a : FlowId}
    (ha : a ∈ (s.shared.mailboxes id).boxes) (ha' : a ∈ (s.shared.mailboxes id').boxes) :
    id = id' := by
  have hplace := h.exclusive.place_unique (p := .mailbox id) (q := .mailbox id') ha ha'
  cases hplace
  rfl

/-- A flow is not parked and waiting at once. -/
theorem not_parked_of_waiting (h : Owned s) {id id' : FlowId} {w : WaitingSender Hop}
    (hw : w ∈ (s.shared.mailboxes id).waitingSenders) {flow : Flow Hop}
    (hid : flow.id = w.flow.id) : (s.shared.mailboxes id').parked ≠ some flow := by
  intro hp
  have hw' := Mailbox.mem_boxes.mpr (.inr ⟨w, hw, rfl⟩)
  have hp' := Mailbox.mem_boxes.mpr (.inl ⟨flow, hp, hid⟩)
  cases h.mailbox_unique hw' hp'
  have hnodup : (s.shared.mailboxes id).boxes.Nodup := h.exclusive.nodup (.mailbox id)
  obtain ⟨-, -, hdisj⟩ := Multiset.nodup_add.mp hnodup
  have hparked : w.flow.id ∈ optBox (s.shared.mailboxes id).parked := by
    rw [hp, optBox_some, ← hid]
    exact Multiset.mem_singleton_self _
  exact Multiset.disjoint_left.mp hdisj hparked
    (mem_boxesOf.mpr ⟨w, hw, Multiset.mem_singleton_self _⟩)

/-- A flow waits with one hop. -/
theorem waiting_unique (h : Owned s) {id id' : FlowId} {w w' : WaitingSender Hop}
    (hw : w ∈ (s.shared.mailboxes id).waitingSenders)
    (hw' : w' ∈ (s.shared.mailboxes id').waitingSenders) (hid : w'.flow.id = w.flow.id) :
    id = id' ∧ w = w' := by
  have hm := Mailbox.mem_boxes.mpr (.inr ⟨w, hw, rfl⟩)
  have hm' := Mailbox.mem_boxes.mpr (.inr ⟨w', hw', hid⟩)
  cases h.mailbox_unique hm hm'
  have hnodup : (s.shared.mailboxes id).boxes.Nodup := h.exclusive.nodup (.mailbox id)
  obtain ⟨-, hw'', -⟩ := Multiset.nodup_add.mp hnodup
  exact ⟨rfl, boxesOf_nodup_unique hw'' hw hw' (Multiset.mem_singleton_self _)
    (hid ▸ Multiset.mem_singleton_self _)⟩

/-- A flow in the hands of a frame was spawned. -/
theorem spawned_of_frame (h : Owned s) {f : Frame} (hf : f ∈ s.frames) {a : FlowId}
    (ha : a ∈ f.boxes) : s.shared.Spawned a := by
  obtain ⟨t, hf⟩ := hf
  exact h.spawned (.thread t) a (mem_held_thread hf ha)

end Owned

/-! ## Receivers at home -/

/-- A receiver is parked in its own mailbox. -/
def Homed (s : State) : Prop :=
  ∀ id flow, (s.shared.mailboxes id).parked = some flow → flow.id = id

theorem homed_init (config : MailboxConfig) : Homed (State.init config) := nofun

/-- A receiver is parked by `park_on_mailbox` or by `park_ask`. -/
theorem Writes.of_parkFilter {f : Frame} {id : FlowId} {flow : Flow Hop} {filter : WaitFilter}
    (h : Writes f (.mail id (.parkFilter flow filter))) :
    id = flow.id ∧ ((∃ timeout, f = .park flow filter timeout) ∨
      ∃ wait : AskWait, f = .ask .park flow wait ∧ filter = wait.filter) := by
  generalize hop : Mailbox.Op.parkFilter flow filter = op at h
  cases h with
  | park flow' filter' timeout =>
    cases hop
    exact ⟨rfl, .inl ⟨timeout, rfl⟩⟩
  | askPark flow' wait =>
    cases hop
    exact ⟨rfl, .inr ⟨wait, rfl, rfl⟩⟩
  | _ => cases hop

theorem Homed.step (h : Homed s) (ti : ℕ × Input) : Homed (step s ti) := by
  obtain ⟨t, i⟩ := ti
  intro id flow hp
  rcases step_mailbox s t i id with he | ⟨f, rest, op, -, hw, he⟩
  · exact h id flow (he ▸ hp)
  · rw [he] at hp
    rcases Mailbox.parked_of_after hp with ⟨hp, -⟩ | ⟨filter, rfl, -, -⟩
    · exact h id flow hp
    · exact hw.of_parkFilter.1.symm

/-- While a frame holds a flow, nobody is parked in the mailbox of the flow. -/
theorem Owned.parked_none (h : Owned s) (hhome : Homed s) {f : Frame} (hf : f ∈ s.frames)
    {a : FlowId} (ha : a ∈ f.boxes) : (s.shared.mailboxes a).parked = none := by
  refine Option.eq_none_iff_forall_ne_some.mpr fun flow hp => ?_
  have hid := hhome a flow hp
  exact h.not_parked hf (hid ▸ ha) a hp

/-- The worker admits a waiting sender only while nobody is parked. -/
theorem writes_allowed (h : Owned s) (hhome : Homed s) {f : Frame} (hf : f ∈ s.frames)
    {id : FlowId} {op : Mailbox.Op Hop} (hw : Writes f (.mail id op)) :
    op.Allowed (s.shared.mailboxes id) := by
  cases hw with
  | admitWaitingOn flow => exact h.parked_none hhome hf (Multiset.mem_singleton_self _)
  | _ => trivial

end Machine

end Byteflow
