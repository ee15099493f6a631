import Byteflow.Scheduler.Machine.Registered

/-!
# Where flows fall asleep

A flow sleeps in its own mailbox, under the filter that it parked with (`parked_step`), or in the
list of waiting senders of the target that `waiting_send_at` has for it (`SendIndexed`). A mailbox
is closed before its owner leaves the directory, and a closed one has no waiting senders
(`ClosedBefore`).
-/

namespace Byteflow

namespace Machine

variable {s : State}

/-! ## Receivers -/

/-- The receiver that the step parks, with its filter. -/
def parks (s : State) (ti : ℕ × Input) : Option (Flow Hop × WaitFilter) :=
  match s.threads ti.1 with
  | .park flow filter _ :: _ =>
    if ((s.shared.mailboxes flow.id).queue.inner.find? filter.accepts).isNone then
      some (flow, filter)
    else none
  | .ask .park flow wait :: _ =>
    if ((s.shared.mailboxes flow.id).queue.inner.find? wait.filter.accepts).isNone then
      some (flow, wait.filter)
    else none
  | _ => none

/-- A parked receiver was parked before under the same filter, or the step parks it. -/
theorem parked_step {t : ℕ} {i : Input} {id : FlowId} {flow : Flow Hop}
    (h : ((step s (t, i)).shared.mailboxes id).parked = some flow) :
    ((s.shared.mailboxes id).parked = some flow ∧
        ((step s (t, i)).shared.mailboxes id).parkedFilter =
          (s.shared.mailboxes id).parkedFilter) ∨
      (flow.id = id ∧
        parks s (t, i) =
          some (flow, ((step s (t, i)).shared.mailboxes id).parkedFilter)) := by
  rcases step_mailbox s t i id with he | ⟨f, rest, op, hs, hw, he⟩
  · exact .inl ⟨he ▸ h, by rw [he]⟩
  rw [he] at h ⊢
  rcases Mailbox.parked_of_after h with hp | ⟨filter, rfl, hnone, hf⟩
  · exact .inl hp
  · obtain ⟨rfl, ⟨timeout, rfl⟩ | ⟨wait, rfl, rfl⟩⟩ := hw.of_parkFilter
    all_goals
      refine .inr ⟨rfl, ?_⟩
      unfold parks
      rw [hs, hf]
      simp only [hnone, Option.isNone_none, if_true]

/-- The frame on top parks the receiver: no hop in the queue is one that it waits for. -/
theorem parks_cases {t : ℕ} {i : Input} {flow : Flow Hop} {filter : WaitFilter}
    (h : parks s (t, i) = some (flow, filter)) :
    (s.shared.mailboxes flow.id).queue.inner.find? filter.accepts = none ∧
      ∃ f rest, s.threads t = f :: rest ∧ ((∃ timeout, f = .park flow filter timeout) ∨
        ∃ wait : AskWait, f = .ask .park flow wait ∧ filter = wait.filter) := by
  unfold parks at h
  split at h
  · rename_i flow' filter' timeout rest hs
    split_ifs at h with hnone
    cases h
    exact ⟨Option.isNone_iff_eq_none.mp hnone, _, rest, hs, .inl ⟨timeout, rfl⟩⟩
  · rename_i flow' wait rest hs
    split_ifs at h with hnone
    cases h
    exact ⟨Option.isNone_iff_eq_none.mp hnone, _, rest, hs, .inr ⟨wait, rfl, rfl⟩⟩
  · cases h

/-! ## Coherent frames -/

/-- Frames whose parts belong together: a `Receive` waits under no filter of an `Ask`, and a kill
took out the sender that it looked for. -/
def Frame.Coherent : Frame → Prop
  | .receive _ filter _ => ∀ requestId target, filter ≠ .ask requestId target
  | .park _ filter _ => ∀ requestId target, filter ≠ .ask requestId target
  | .kill (.sendAtRemove sender) id _ _ => sender.id = id
  | _ => True

theorem receiveFilter_ne_ask (tag : Option UInt16) (rid : Option UInt64) (requestId : UInt64)
    (target : FlowId) : receiveFilter tag rid ≠ .ask requestId target := by
  unfold WaitFilter.ask
  cases tag <;> cases rid <;> simp [receiveFilter]

theorem Leads.coherent {σ : Shared} {f g : Frame} (h : Leads σ f g) (hf : f.Coherent) :
    g.Coherent := by
  cases h with
  | plain hplain => cases g <;> trivial
  | runReceive tag rid timeout hid => exact fun requestId target => receiveFilter_ne_ask _ _ _ _
  | receivePark hr => exact hf
  | killRemove hr =>
    obtain ⟨w, -, -, hid⟩ := Mailbox.waiting_of_takeWaitingSender hr
    exact hid
  | _ => trivial

theorem Starts.coherent {σ : Shared} {g : Frame} (h : Starts σ g) : g.Coherent := by
  cases h with
  | plain hplain => cases g <;> trivial
  | _ => trivial

theorem coherent_step (h : ∀ f ∈ s.frames, f.Coherent) (ti : ℕ × Input) :
    ∀ f ∈ (step s ti).frames, f.Coherent :=
  frames_step (fun _ _ hst => hst.coherent) (fun _ _ _ hl => hl.coherent) h ti

/-! ## Closed mailboxes -/

/-- The stages of a finalization between `close` and `unregister`. -/
def FinStage.Closed : FinStage → Prop
  | .senders _ => True
  | .waiters => True
  | .wake _ => True
  | .wakeTake _ _ => True
  | .revoke => True
  | .unregister => True
  | _ => False

/-- Only spawned flows are in the directory, and the mailbox of one that left is closed. -/
structure ClosedBefore (s : State) : Prop where
  known : ∀ id, s.shared.directory id = true → s.shared.Spawned id
  gone : ∀ id, s.shared.Spawned id → s.shared.directory id = false →
    (s.shared.mailboxes id).closed = true
  leaving : ∀ stage cur work, .fin stage cur work ∈ s.frames → stage.Closed →
    (s.shared.mailboxes cur.id).closed = true
  empty : ∀ id, (s.shared.mailboxes id).ClosedEmpty

theorem closedBefore_init (config : MailboxConfig) : ClosedBefore (State.init config) where
  known := nofun
  gone := by
    rintro id ⟨hpos, hlt⟩
    exact absurd (Nat.lt_one_iff.mp hlt) (Nat.pos_iff_ne_zero.mp hpos)
  leaving := fun _ _ _ hf => by obtain ⟨t, hf⟩ := hf; cases hf
  empty := fun _ => nofun

theorem closed_step {id : FlowId} (h : (s.shared.mailboxes id).closed = true) (ti : ℕ × Input) :
    ((step s ti).shared.mailboxes id).closed = true := by
  rcases step_mailbox s ti.1 ti.2 id with he | ⟨f, rest, op, -, -, he⟩
  · exact he ▸ h
  · rw [he, Mailbox.after_closed, h, Bool.true_or]

namespace ClosedBefore

/-- The directory after a step: the flow of a spawn enters, the one that is unregistered
leaves. -/
theorem directory_cases (s : State) (t : ℕ) (i : Input) :
    ((step s (t, i)).shared.directory = s.shared.directory ∧
        (step s (t, i)).shared.nextFlowId = s.shared.nextFlowId) ∨
      ((step s (t, i)).shared.directory =
          Function.update s.shared.directory s.shared.nextFlowId true ∧
        (step s (t, i)).shared.nextFlowId = s.shared.nextFlowId + 1) ∨
      ∃ cur work rest, s.threads t = .fin .unregister cur work :: rest ∧
        (step s (t, i)).shared.directory = Function.update s.shared.directory cur.id false ∧
        (step s (t, i)).shared.nextFlowId = s.shared.nextFlowId := by
  cases step_cases s t i with
  | acts f rest w hs hi hw hσ hnew =>
    rw [hσ.directory, hσ.nextFlowId]
    cases hw with
    | spawn flow => exact .inr (.inl ⟨rfl, rfl⟩)
    | unregister cur work => exact .inr (.inr ⟨cur, work, rest, hs, rfl, rfl⟩)
    | _ => exact .inl ⟨rfl, rfl⟩
  | starts w hs hw hσ hnew =>
    rw [hσ.directory, hσ.nextFlowId]
    cases hw with
    | register => exact .inr (.inl ⟨rfl, rfl⟩)
    | _ => exact .inl ⟨rfl, rfl⟩

/-- **A mailbox is closed before its owner leaves.** -/
theorem step (h : ClosedBefore s) (ho : Owned s) (ti : ℕ × Input) :
    ClosedBefore (Machine.step s ti) := by
  obtain ⟨t, i⟩ := ti
  have hnext : FlowId.host < s.shared.nextFlowId := ho.next
  refine ⟨fun id hid => ?_, fun id hid hdir => ?_, fun stage cur work hf hstage => ?_,
    fun id => ?_⟩
  · unfold Shared.Spawned
    rcases directory_cases s t i with ⟨hd, hn⟩ | ⟨hd, hn⟩ | ⟨cur, work, rest, -, hd, hn⟩ <;>
      rw [hd] at hid <;> rw [hn]
    · exact h.known id hid
    · by_cases heq : id = s.shared.nextFlowId
      · subst heq
        exact ⟨hnext, Nat.lt_succ_self _⟩
      · rw [Function.update_of_ne heq] at hid
        exact ⟨(h.known id hid).1, Nat.lt_succ_of_lt (h.known id hid).2⟩
    · by_cases heq : id = cur.id
      · rw [heq, Function.update_self] at hid
        cases hid
      · rw [Function.update_of_ne heq] at hid
        exact h.known id hid
  · refine closed_step ?_ (t, i)
    unfold Shared.Spawned at hid
    rcases directory_cases s t i with ⟨hd, hn⟩ | ⟨hd, hn⟩ | ⟨cur, work, rest, hs, hd, hn⟩ <;>
      rw [hd] at hdir <;> rw [hn] at hid
    · exact h.gone id hid hdir
    · by_cases heq : id = s.shared.nextFlowId
      · rw [heq, Function.update_self] at hdir
        cases hdir
      · rw [Function.update_of_ne heq] at hdir
        exact h.gone id ⟨hid.1, lt_of_le_of_ne (Nat.le_of_lt_succ hid.2) heq⟩ hdir
    · by_cases heq : id = cur.id
      · rw [heq]
        exact h.leaving _ cur work (mem_frames_of_cons hs) trivial
      · rw [Function.update_of_ne heq] at hdir
        exact h.gone id hid hdir
  · cases step_cases s t i with
    | acts f rest w hs hi hw hσ hnew =>
      rcases hnew _ hf with hf | hl
      · exact closed_step (h.leaving stage cur work (mem_frames_of_others hf) hstage) (t, i)
      have hprev : ∀ stage' work', f = .fin stage' cur work' → stage'.Closed →
          ((Machine.step s (t, i)).shared.mailboxes cur.id).closed = true := by
        rintro stage' work' rfl hc
        exact closed_step (h.leaving stage' cur work' (mem_frames_of_cons hs) hc) (t, i)
      cases hl with
      | plain hplain => exact hplain.elim
      | finUnlisted hlive =>
        have hsp := ho.spawned_of_frame (mem_frames_of_cons hs) (cur_mem_boxes .lookup cur work)
        exact closed_step (h.gone _ hsp hlive) (t, i)
      | finSenders =>
        rw [step_mail hs rfl]
        rfl
      | finSender => exact hprev _ _ rfl trivial
      | finWaiters => exact hprev _ _ rfl trivial
      | finWake => exact hprev _ _ rfl trivial
      | finWakeStay => exact hprev _ _ rfl trivial
      | finWakeTake => exact hprev _ _ rfl trivial
      | finWakeSkip => exact hprev _ _ rfl trivial
      | finTook => exact hprev _ _ rfl trivial
      | finRevoke => exact hprev _ _ rfl trivial
      | finUnregister => exact hprev _ _ rfl trivial
      | _ => exact hstage.elim
    | starts w hs hw hσ hnew =>
      rcases hnew _ hf with hf | hst
      · exact closed_step (h.leaving stage cur work (mem_frames_of_others hf) hstage) (t, i)
      · cases hst with
        | plain hplain => exact hplain.elim
  · rcases step_mailbox s t i id with he | ⟨f, rest, op, -, -, he⟩
    · exact he ▸ h.empty id
    · exact he ▸ (h.empty id).after op

/-- The target of a waiting sender is in the directory. -/
theorem directory_of_waiting (h : ClosedBefore s) {id : FlowId} (hid : s.shared.Spawned id)
    {w : WaitingSender Hop} (hw : w ∈ (s.shared.mailboxes id).waitingSenders) :
    s.shared.directory id = true := by
  cases hd : s.shared.directory id with
  | true => rfl
  | false =>
    rw [h.empty id (h.gone id hid hd)] at hw
    cases hw

end ClosedBefore

/-! ## Waiting senders -/

/-- The index has the target of every sender that waits or is about to. -/
structure SendIndexed (s : State) : Prop where
  target : ∀ flow out, .send .target flow out ∈ s.frames →
    s.shared.waitingSendAt flow.id = some out.target
  park : ∀ flow out, .send .park flow out ∈ s.frames →
    s.shared.waitingSendAt flow.id = some out.target ∧ s.shared.Spawned out.target
  waiting : ∀ id, ∀ w ∈ (s.shared.mailboxes id).waitingSenders,
    s.shared.waitingSendAt w.flow.id = some id ∧ s.shared.Spawned id

theorem sendIndexed_init (config : MailboxConfig) : SendIndexed (State.init config) where
  target := fun _ _ hf => by obtain ⟨t, hf⟩ := hf; cases hf
  park := fun _ _ hf => by obtain ⟨t, hf⟩ := hf; cases hf
  waiting := fun _ _ hw => by cases hw

/-- The index changes for a flow only by the frame that holds it. -/
theorem waitingSendAt_step (hcoh : ∀ f ∈ s.frames, f.Coherent) {t : ℕ} {i : Input} {a : FlowId}
    (ha : ∀ f rest, s.threads t = f :: rest → a ∉ f.boxes) :
    (step s (t, i)).shared.waitingSendAt a = s.shared.waitingSendAt a := by
  cases step_cases s t i with
  | acts f rest w hs hi hw hσ hnew =>
    have ha := ha f rest hs
    have hne : ∀ b, b ∈ f.boxes → a ≠ b := fun b hb hab => ha (hab ▸ hb)
    have hf := hcoh f (mem_frames_of_cons hs)
    rw [hσ.waitingSendAt]
    cases hw with
    | sendIndex flow out => exact Function.update_of_ne (hne _ (Multiset.mem_singleton_self _)) ..
    | sendGone flow out => exact Function.update_of_ne (hne _ (Multiset.mem_singleton_self _)) ..
    | admitted sender => exact Function.update_of_ne (hne _ (Multiset.mem_singleton_self _)) ..
    | finSendAt cur work => exact Function.update_of_ne (hne _ (cur_mem_boxes ..)) ..
    | finSender sender rest cur work =>
      refine Function.update_of_ne (hne _ ?_) ..
      exact Multiset.mem_add.mpr (.inl (mem_boxesOf.mpr
        ⟨sender, List.mem_cons_self, Multiset.mem_singleton_self _⟩))
    | killSendAt sender id reason next =>
      refine Function.update_of_ne (hne _ ?_) ..
      have hid : sender.id = id := hf
      rw [← hid]
      exact Multiset.mem_add.mpr (.inl (Multiset.mem_singleton_self _))
    | _ => rfl
  | starts w hs hw hσ hnew =>
    rw [hσ.waitingSendAt]
    cases hw <;> rfl

theorem spawned_step {a : FlowId} (h : s.shared.Spawned a) (ti : ℕ × Input) :
    (step s ti).shared.Spawned a := by
  unfold Shared.Spawned
  rcases ClosedBefore.directory_cases s ti.1 ti.2 with ⟨-, hn⟩ | ⟨-, hn⟩ | ⟨_, _, _, -, -, hn⟩ <;>
    rw [hn]
  · exact h
  · exact ⟨h.1, Nat.lt_succ_of_lt h.2⟩
  · exact h

theorem SendIndexed.step (h : SendIndexed s) (ho : Owned s) (hc : ClosedBefore s)
    (hcoh : ∀ f ∈ s.frames, f.Coherent) (ti : ℕ × Input) : SendIndexed (Machine.step s ti) := by
  obtain ⟨t, i⟩ := ti
  -- a flow in the hands of a frame that does not act, or in a mailbox, keeps its entry
  have hothers : ∀ g ∈ s.others t, ∀ a ∈ g.boxes,
      (Machine.step s (t, i)).shared.waitingSendAt a = s.shared.waitingSendAt a :=
    fun g hg a hag => waitingSendAt_step hcoh fun f rest hs haf => ho.others_not_mem hs hg haf hag
  have hmailbox : ∀ id, ∀ a ∈ (s.shared.mailboxes id).boxes,
      (Machine.step s (t, i)).shared.waitingSendAt a = s.shared.waitingSendAt a :=
    fun id a ha => waitingSendAt_step hcoh fun f rest hs haf =>
      ho.not_mem_mailbox (mem_frames_of_cons hs) haf id ha
  refine ⟨fun flow out hf => ?_, fun flow out hf => ?_, fun id w hw => ?_⟩
  · cases step_cases s t i with
    | acts f rest w hs hi hw hσ hnew =>
      rcases hnew _ hf with hf | hl
      · rw [hothers _ hf _ (Multiset.mem_singleton_self _)]
        exact h.target flow out (mem_frames_of_others hf)
      · cases hl with
        | plain hplain => exact hplain.elim
        | sendIndex =>
          subst hi
          rw [hσ.waitingSendAt]
          exact Function.update_self ..
    | starts w hs hw hσ hnew =>
      rcases hnew _ hf with hf | hst
      · rw [hothers _ hf _ (Multiset.mem_singleton_self _)]
        exact h.target flow out (mem_frames_of_others hf)
      · cases hst with
        | plain hplain => exact hplain.elim
  · cases step_cases s t i with
    | acts f rest w hs hi hw hσ hnew =>
      rcases hnew _ hf with hf | hl
      · rw [hothers _ hf _ (Multiset.mem_singleton_self _)]
        obtain ⟨hat, hsp⟩ := h.park flow out (mem_frames_of_others hf)
        exact ⟨hat, spawned_step hsp (t, i)⟩
      · cases hl with
        | plain hplain => exact hplain.elim
        | sendTarget hlive =>
          subst hi
          refine ⟨?_, spawned_step (hc.known _ hlive) (t, i)⟩
          rw [hσ.waitingSendAt]
          exact h.target flow out (mem_frames_of_cons hs)
    | starts w hs hw hσ hnew =>
      rcases hnew _ hf with hf | hst
      · rw [hothers _ hf _ (Multiset.mem_singleton_self _)]
        obtain ⟨hat, hsp⟩ := h.park flow out (mem_frames_of_others hf)
        exact ⟨hat, spawned_step hsp (t, i)⟩
      · cases hst with
        | plain hplain => exact hplain.elim
  · have hbefore : ∀ w ∈ (s.shared.mailboxes id).waitingSenders,
        (Machine.step s (t, i)).shared.waitingSendAt w.flow.id = some id ∧
          (Machine.step s (t, i)).shared.Spawned id := by
      intro w hw
      obtain ⟨hat, hsp⟩ := h.waiting id w hw
      rw [hmailbox id _ (Mailbox.mem_boxes_of_waiting hw)]
      exact ⟨hat, spawned_step hsp (t, i)⟩
    rcases step_mailbox s t i id with he | ⟨f, rest, op, hs, hw', he⟩
    · exact hbefore w (he ▸ hw)
    · rw [he] at hw
      rcases Mailbox.mem_waitingSenders_after hw with hw | ⟨rfl, -⟩
      · exact hbefore w hw
      · obtain ⟨out, rfl, rfl, -⟩ := hw'.of_parkSender
        obtain ⟨hat, hsp⟩ := h.park _ _ (mem_frames_of_cons hs)
        refine ⟨?_, spawned_step hsp (t, i)⟩
        rw [step_shared, next_of_cons i hs]
        exact hat

end Machine

end Byteflow
