import Byteflow.Scheduler.Machine.Exit

/-!
# Links and the exits that travel over them

A finalization takes the links of its flow out of the table, and if the exit is abnormal it kills
the peers one by one. `Runtime::link` and the `Link` opcode make a link without another look at its
ends, which may have been through their links by then: such a link stays for ever, and no exit
travels over it (`link_half_made`). In a run in which no link is made so late (`JoinsInTime`), the
links in the table are between live flows, and an abnormal exit of one end is the end of the other
(`links_whole`).
-/

namespace Byteflow

namespace Machine

variable {s : State}

/-! ## Flows that will go -/

def KillAfter.Dooms (id : FlowId) : KillAfter → Prop
  | .request => False
  | .link _ peers work => id ∈ peers ∨ ∃ p ∈ work, p.id = id

/-- The frame finalizes the flow, has it on its work list, or is about to kill it. -/
def Frame.Dooms (id : FlowId) : Frame → Prop
  | .fin stage cur work =>
    cur.id = id ∨ (∃ p ∈ work, p.id = id) ∨ ∃ peers, stage = .peers peers ∧ id ∈ peers
  | .kill stage a _ next => (a = id ∧ (stage = .lookup ∨ stage = .set)) ∨ next.Dooms id
  | _ => False

/-- The flow is gone, its kill signal is set, or a thread is about to do so. -/
def Doomed (s : State) (id : FlowId) : Prop :=
  Finalized s id ∨ s.shared.killSignals id ≠ none ∨ ∃ f ∈ s.frames, f.Dooms id

theorem Frame.Queues.dooms {id : FlowId} {f : Frame} (h : f.Queues id) : f.Dooms id := by
  cases f with
  | fin stage cur work =>
    rcases h with ⟨h, -⟩ | h
    · exact .inl h
    · exact .inr (.inl h)
  | kill stage a reason next =>
    cases next with
    | request => exact h.elim
    | link cur peers work => exact .inr (.inr h)
  | _ => exact h.elim

/-- The loop over the peers: one is killed next, or the loop idles. -/
theorem dooms_peers {σ : Shared} {i : Input} {cur : PendingExit} {work : List PendingExit}
    {peers : List FlowId} {id : FlowId} (hmem : id ∈ peers) :
    ∃ g ∈ (σ.exec ((FinStage.peers peers).next i cur work)).2, g.Dooms id := by
  cases peers with
  | nil => cases hmem
  | cons peer rest =>
    have hstay : ∃ g ∈ [Frame.fin (.peers (peer :: rest)) cur work], g.Dooms id :=
      ⟨_, List.mem_singleton_self _, .inr (.inr ⟨_, rfl, hmem⟩)⟩
    simp only [FinStage.next]
    split
    · split
      · rename_i hn
        refine ⟨_, List.mem_singleton_self _, ?_⟩
        rcases mem_cons_eraseIdx hn hmem with rfl | hmem
        · exact .inl ⟨rfl, .inl rfl⟩
        · exact .inr (.inl hmem)
      · exact hstay
    · exact hstay

/-- A kill gives the peers of the finalization back. -/
theorem dooms_kill (σ : Shared) (stage : KillStage) (a : FlowId) (reason : FlowExitReason)
    {next : KillAfter} {id : FlowId} (h : next.Dooms id) :
    ∃ g ∈ (σ.exec (stage.next a reason next)).2, g.Dooms id := by
  cases next with
  | request => exact h.elim
  | link cur peers work =>
    rcases h with hmem | hwork
    · rcases @kill_next σ stage a reason (.link cur peers work) with ⟨stage', hg⟩ | ⟨found, hg⟩
      · exact ⟨_, hg, .inr (.inl hmem)⟩
      · rw [hg]
        cases found <;> exact ⟨_, List.mem_singleton_self _, .inr (.inr ⟨_, rfl, hmem⟩)⟩
    · have hafter : (KillAfter.link cur peers work).Queues id := hwork
      obtain ⟨g, hg, hqueues⟩ := queues_kill σ stage a reason hafter
      exact ⟨g, hg, hqueues.dooms⟩

/-- A flow that will go stays so. -/
theorem Doomed.step {id : FlowId} (h : Doomed s id) (hsp : s.shared.Spawned id) (hs : Sound s)
    (hleft : Left s) (ti : ℕ × Input) : Doomed (Machine.step s ti) id := by
  rcases h with hfin | hsig | ⟨f, hf, hdooms⟩
  · exact .inl (hfin.step ti)
  · cases step_cases s ti.1 ti.2 with
    | acts f rest w hs' hi hw hσ hnew =>
      have hkeep : (Machine.step s ti).shared.killSignals id = s.shared.killSignals id →
          Doomed (Machine.step s ti) id := fun he => .inr (.inl (he ▸ hsig))
      cases hw with
      | killSet a reason next =>
        by_cases hid : id = a
        · refine .inr (.inl ?_)
          rw [hσ.killSignals, Write.killSignals, hid, Function.update_self]
          exact Option.some_ne_none _
        · exact hkeep (by rw [hσ.killSignals, Write.killSignals, Function.update_of_ne hid])
      | driveTake flow =>
        by_cases hid : id = flow.id
        · -- the worker takes the signal and finalizes the flow
          subst hid
          obtain ⟨reason, hreason⟩ := Option.ne_none_iff_exists'.mp hsig
          let cur : PendingExit := ⟨flow, .failed ("linked exit (" ++ reason.name ++ ")"), reason⟩
          refine .inr (.inr ⟨.fin .killTake cur [], mem_frames_of_next hs' ?_, .inl rfl⟩)
          simp only [Frame.next, Shared.exec, hreason, finalize, List.mem_singleton, cur]
        · exact hkeep (by rw [hσ.killSignals, Write.killSignals, Function.update_of_ne hid])
      | finTake cur work hne =>
        by_cases hid : id = cur.id
        · refine .inr (.inr ⟨.fin .sendAtRemove cur work, mem_frames_of_next hs' ?_, .inl hid.symm⟩)
          simp only [Frame.next, FinStage.next, hne, if_false, Shared.exec, List.mem_singleton]
        · exact hkeep (by rw [hσ.killSignals, Write.killSignals, Function.update_of_ne hid])
      | _ => exact hkeep (by rw [hσ.killSignals]; rfl)
    | starts w hs' hw hσ hnew =>
      refine .inr (.inl ?_)
      rw [hσ.killSignals]
      cases hw <;> exact hsig
  · rcases mem_frames_step hf ti.1 ti.2 with ⟨rest, hs'⟩ | hf'
    · have hnext : (∃ g ∈ (s.shared.exec (f.next ti.2)).2, g.Dooms id) →
          Doomed (Machine.step s ti) id := by
        rintro ⟨g, hg, hdooms⟩
        exact .inr (.inr ⟨g, mem_frames_of_next hs' hg, hdooms⟩)
      cases f with
      | fin stage cur work =>
        rcases hdooms with rfl | hwork | ⟨peers, rfl, hmem⟩
        · by_cases hstage : 10 ≤ stage.order
          · have hexit : (Frame.fin stage cur work).exiting = some cur := if_pos hstage
            exact .inl ((hleft _ hf cur hexit).step ti)
          · have hhost := (hs.owned.spawned_of_frame hf (cur_mem_boxes ..)).1.ne'
            obtain ⟨stage', work', hg, -⟩ := @fin_advances s.shared ti.2 _ _ work hhost 10
              (le_refl _) (by decide) (not_le.mp hstage)
            exact hnext ⟨_, hg, .inl rfl⟩
        · have hqueues : ∃ g ∈ (s.shared.exec (stage.next ti.2 cur work)).2, g.Queues id :=
            queues_fin s.shared ti.2 stage hwork
          obtain ⟨g, hg, hqueues⟩ := hqueues
          exact hnext ⟨g, hg, hqueues.dooms⟩
        · exact hnext (dooms_peers hmem)
      | kill stage a reason next =>
        rcases hdooms with ⟨rfl, rfl | rfl⟩ | hafter
        · cases hlive : s.shared.directory a with
          | true =>
            refine hnext ⟨.kill .set a reason next, ?_, .inl ⟨rfl, .inr rfl⟩⟩
            simp only [Frame.next, KillStage.next, Shared.exec, hlive, if_true, List.mem_singleton]
          | false => exact .inl (Finalized.step ⟨hsp, hlive⟩ ti)
        · refine .inr (.inl ?_)
          rw [step_shared, next_of_cons ti.2 hs']
          simp [Frame.next, KillStage.next, Shared.exec]
        · exact hnext (dooms_kill s.shared stage a reason hafter)
      | _ => exact hdooms.elim
    · exact .inr (.inr ⟨f, hf', hdooms⟩)

/-! ## Events -/

/-- What happens to a link, and the exits. -/
inductive LinkEvent
  | linked (link : Link)
  | unlinked (link : Link)
  | exited (id : FlowId) (reason : FlowExitReason)
  deriving DecidableEq

def Write.linkEvents (σ : Shared) : Write → List LinkEvent
  | .linkCreate a b =>
    match (σ.links.link a b).2 with
    | .ok id => [.linked ⟨id, a, b⟩]
    | .error _ => []
  | .linkRemove owner link => (σ.links.owned owner link).toList.map .unlinked
  | _ => []

/-- The link that the step makes or that an end removes, or the flow that leaves the directory. -/
def linkEvents (s : State) (ti : ℕ × Input) : List LinkEvent :=
  match s.threads ti.1 with
  | .fin .unregister cur _ :: _ => [.exited cur.id cur.reason]
  | _ => (s.next ti.1 ti.2).1.write.linkEvents s.shared

/-- What happened to the links in a run. -/
def linkTrace (config : MailboxConfig) (sched : List (ℕ × Input)) : List LinkEvent :=
  Schedule.trace step linkEvents (State.init config) sched

def LinkEvent.update (links : List Link) : LinkEvent → List Link
  | .linked k => k :: links
  | .unlinked k => links.filter (· ≠ k)
  | .exited _ _ => links

/-- The links that were made, and not removed since by one of their ends. -/
def standing (events : List LinkEvent) : List Link := events.foldl LinkEvent.update []

/-- A link is made while both ends are registered or have yet to go through their links. The
counter has not wrapped. -/
def JoinsInTime (s : State) (ti : ℕ × Input) : Prop :=
  match (s.next ti.1 ti.2).1.write with
  | .linkCreate a b =>
    (s.shared.links.link a b).2.isOk = true →
      ToPass .links s a ∧ ToPass .links s b ∧
        ∀ k ∈ s.shared.links.links, k.id ≠ s.shared.links.nextLink
  | _ => True

/-! ## What a step does to the links -/

/-- The table after a step, and the events. -/
inductive LinkStep (s : State) (t : ℕ) (i : Input) (s' : State) : List LinkEvent → Prop
  | stay (htable : s'.shared.links.links = s.shared.links.links) : LinkStep s t i s' []
  | exit (cur work rest) (hs : s.threads t = .fin .unregister cur work :: rest)
      (htable : s'.shared.links.links = s.shared.links.links) :
      LinkStep s t i s' [.exited cur.id cur.reason]
  | make (a b) (hby : ∀ stage cur work rest, s.threads t ≠ .fin stage cur work :: rest)
      (hwrite : (s.next t i).1.write = .linkCreate a b) (hne : a ≠ b)
      (hok : (s.shared.links.link a b).2.isOk = true)
      (htable : s'.shared.links.links = s.shared.links.links.filter
        (·.id ≠ s.shared.links.nextLink) ++ [⟨s.shared.links.nextLink, a, b⟩]) :
      LinkStep s t i s' [.linked ⟨s.shared.links.nextLink, a, b⟩]
  | remove (k) (hmem : k ∈ s.shared.links.links)
      (htable : s'.shared.links.links = s.shared.links.links.filter (·.id ≠ k.id)) :
      LinkStep s t i s' [.unlinked k]
  | sweep (cur work rest) (hs : s.threads t = .fin .links cur work :: rest)
      (htable : s'.shared.links = (s.shared.links.removeLinksOf cur.id).1) :
      LinkStep s t i s' []

theorem link_step_create {t : ℕ} {i : Input} {a b : FlowId}
    (hby : ∀ stage cur work rest, s.threads t ≠ .fin stage cur work :: rest)
    (hwrite : (s.next t i).1.write = .linkCreate a b)
    (hlinks : (step s (t, i)).shared.links = (s.shared.links.link a b).1) :
    LinkStep s t i (step s (t, i)) ((Write.linkCreate a b).linkEvents s.shared) := by
  rcases s.shared.links.link_cases a b with ⟨hne, hok, htable⟩ | ⟨⟨e, herr⟩, htable⟩
  · simp only [Write.linkEvents, hok]
    refine .make a b hby hwrite hne ?_ (by rw [hlinks, htable])
    rw [hok]
    rfl
  · simp only [Write.linkEvents, herr]
    exact .stay (by rw [hlinks, htable])

theorem link_step_remove {t : ℕ} {i : Input} {owner : FlowId} {ref : UInt64}
    (hlinks : (step s (t, i)).shared.links = (s.shared.links.unlinkOwned owner ref).1) :
    LinkStep s t i (step s (t, i)) ((Write.linkRemove owner ref).linkEvents s.shared) := by
  rcases s.shared.links.unlinkOwned_cases owner ref with ⟨k, hk, rfl, howned, htable⟩ |
    ⟨howned, htable⟩
  · simp only [Write.linkEvents, howned]
    exact .remove k hk (by rw [hlinks, htable])
  · simp only [Write.linkEvents, howned]
    exact .stay (by rw [hlinks, htable])

/-- **What a step does to the links.** -/
theorem link_step (s : State) (t : ℕ) (i : Input) :
    LinkStep s t i (step s (t, i)) (linkEvents s (t, i)) := by
  unfold linkEvents
  split
  · rename_i cur work rest hs
    refine .exit cur work rest hs ?_
    rw [step_shared, next_of_cons i hs]
    rfl
  · have hlinks : (step s (t, i)).shared.links = (s.next t i).1.write.links s.shared := by
      rw [step_shared]
      exact (exec_written _ _).links
    rcases next_cases s t i with ⟨f, rest, hs, hn⟩ | ⟨hs, ⟨op, -, hn⟩ | hn⟩
    · have hw := f.next_writes i
      have hwrite : (s.next t i).1.write = (f.next i).write := by rw [hn]
      generalize (f.next i).write = w at hw hwrite
      have hby : (∀ stage cur work, f ≠ .fin stage cur work) →
          ∀ stage cur work rest, s.threads t ≠ .fin stage cur work :: rest := by
        intro hf stage cur work rest' hs'
        rw [hs] at hs'
        exact hf stage cur work (List.cons.inj hs').1
      rw [hwrite] at hlinks ⊢
      cases hw with
      | link flow target => exact link_step_create (hby (by simp)) hwrite hlinks
      | makeLink a b => exact link_step_create (hby (by simp)) hwrite hlinks
      | unlink flow ref => exact link_step_remove hlinks
      | makeUnlink owner ref => exact link_step_remove hlinks
      | finLinks cur work => exact .sweep cur work rest hs hlinks
      | _ => exact .stay (by rw [hlinks]; rfl)
    · rw [hn] at hlinks ⊢
      have hw := op.start_write
      generalize op.start.write = w at hw hlinks
      cases hw <;> exact .stay (by rw [hlinks]; rfl)
    · rw [hn] at hlinks ⊢
      exact .stay (by rw [hlinks]; rfl)

/-! ## The invariant -/

/-- The flow exited abnormally. -/
def ExitedAbnormally (events : List LinkEvent) (id : FlowId) : Prop :=
  ∃ reason, .exited id reason ∈ events ∧ reason.isAbnormal = true

/-- One end is gone, and takes the other with it if its exit is abnormal. -/
def Severed (s : State) (events : List LinkEvent) (gone peer : FlowId) : Prop :=
  Finalized s gone ∧ (ExitedAbnormally events gone → Doomed s peer)

/-- What a run whose links are made in time preserves, with its events. -/
structure Linked (s : State) (events : List LinkEvent) : Prop where
  sound : Sound s
  left : Left s
  swept : ∀ k ∈ s.shared.links.links, ToPass .links s k.a ∧ ToPass .links s k.b
  distinct : ∀ k ∈ s.shared.links.links, k.a ≠ k.b
  unique : ∀ k ∈ s.shared.links.links, ∀ k' ∈ s.shared.links.links, k.id = k'.id → k = k'
  exits : ∀ id reason, .exited id reason ∈ events → Finalized s id
  reasons : ∀ f ∈ s.frames, ∀ cur, f.exiting = some cur → ∀ reason,
    .exited cur.id reason ∈ events → reason = cur.reason
  ends : ∀ k ∈ standing events, s.shared.Spawned k.a ∧ s.shared.Spawned k.b
  kept : ∀ k ∈ standing events,
    k ∈ s.shared.links.links ∨ Severed s events k.a k.b ∨ Severed s events k.b k.a

theorem linked_init (config : MailboxConfig) : Linked (State.init config) [] where
  sound := sound_init config
  left := left_init config
  swept := fun _ hk => by cases hk
  distinct := fun _ hk => by cases hk
  unique := fun _ hk => by cases hk
  exits := fun _ _ h => by cases h
  reasons := fun _ hf => by obtain ⟨t, hf⟩ := hf; cases hf
  ends := fun _ h => by cases h
  kept := fun _ h => by cases h

theorem standing_append (events new : List LinkEvent) :
    standing (events ++ new) = new.foldl LinkEvent.update (standing events) := List.foldl_append ..

/-- What the guard says of a step that makes a link. -/
theorem JoinsInTime.of_make {t : ℕ} {i : Input} (hguard : JoinsInTime s (t, i)) {a b : FlowId}
    (hwrite : (s.next t i).1.write = .linkCreate a b)
    (hok : (s.shared.links.link a b).2.isOk = true) :
    ToPass .links s a ∧ ToPass .links s b ∧
      ∀ k ∈ s.shared.links.links, k.id ≠ s.shared.links.nextLink := by
  unfold JoinsInTime at hguard
  simp only [hwrite] at hguard
  exact hguard hok

/-- A flow that is unregistered was in the directory. -/
theorem not_finalized_of_unregister (hs : Sound s) {t : ℕ} {cur : PendingExit}
    {work : List PendingExit} {rest : List Frame}
    (htop : s.threads t = .fin .unregister cur work :: rest) : ¬Finalized s cur.id := by
  rintro ⟨-, hdir⟩
  have hlive := hs.registered.frames _ (mem_frames_of_cons htop) cur.id
    (Multiset.mem_add.mpr (.inr (Multiset.mem_add.mpr (.inl (Multiset.mem_singleton_self _)))))
  rw [hdir] at hlive
  cases hlive

section

variable {events new : List LinkEvent} {t : ℕ} {i : Input}

/-- An exit is recorded by `unregister`. -/
theorem exited_of_step {s' : State} (hstep : LinkStep s t i s' new) {id : FlowId}
    {reason : FlowExitReason} (h : .exited id reason ∈ new) :
    ∃ cur work rest, s.threads t = .fin .unregister cur work :: rest ∧ cur.id = id ∧
      cur.reason = reason := by
  cases hstep with
  | exit cur work rest hs htable =>
    cases List.mem_singleton.mp h
    exact ⟨cur, work, rest, hs, rfl, rfl⟩
  | make => cases List.mem_singleton.mp h
  | remove => cases List.mem_singleton.mp h
  | _ => cases h

/-- A link in the table was there before, or is made now. -/
theorem mem_links_of_step {s' : State} (hstep : LinkStep s t i s' new) {k : Link}
    (hk : k ∈ s'.shared.links.links) :
    k ∈ s.shared.links.links ∨ .linked k ∈ new := by
  cases hstep with
  | stay htable => exact .inl (htable ▸ hk)
  | exit cur work rest hs htable => exact .inl (htable ▸ hk)
  | make a b hby hwrite hne hok htable =>
    rw [htable, List.mem_append] at hk
    rcases hk with hk | hk
    · exact .inl (List.mem_of_mem_filter hk)
    · exact .inr (List.mem_singleton.mpr (congrArg _ (List.mem_singleton.mp hk)))
  | remove k' hmem htable => exact .inl (List.mem_of_mem_filter (htable ▸ hk))
  | sweep cur work rest hs htable =>
    rw [htable] at hk
    exact .inl (LinkTable.mem_removeLinksOf.mp hk).1

/-- A link that stands was standing before, or is made now. -/
theorem mem_standing_of_step {s' : State} (hstep : LinkStep s t i s' new) {k : Link}
    (hk : k ∈ standing (events ++ new)) :
    (k ∈ standing events ∧ .unlinked k ∉ new) ∨ .linked k ∈ new := by
  rw [standing_append] at hk
  cases hstep with
  | make a b hby hwrite hne hok htable =>
    rcases List.mem_cons.mp hk with rfl | hk
    · exact .inr (List.mem_singleton_self _)
    · exact .inl ⟨hk, by simp⟩
  | remove k' hmem htable =>
    obtain ⟨hk, hne⟩ := List.mem_filter.mp hk
    exact .inl ⟨hk, by simpa using hne⟩
  | exit cur work rest hs htable => exact .inl ⟨hk, by simp⟩
  | _ => exact .inl ⟨hk, by simp⟩

/-- A link that is made now. -/
theorem made_of_step {s' : State} (hstep : LinkStep s t i s' new) {k : Link}
    (hk : .linked k ∈ new) :
    (∀ stage cur work rest, s.threads t ≠ .fin stage cur work :: rest) ∧ k.a ≠ k.b ∧
      (s.next t i).1.write = .linkCreate k.a k.b ∧
      (s.shared.links.link k.a k.b).2.isOk = true ∧ k.id = s.shared.links.nextLink ∧
      k ∈ s'.shared.links.links := by
  cases hstep with
  | make a b hby hwrite hne hok htable =>
    cases List.mem_singleton.mp hk
    refine ⟨hby, hne, hwrite, hok, rfl, ?_⟩
    rw [htable]
    exact List.mem_append_right _ (List.mem_singleton_self _)
  | exit => cases List.mem_singleton.mp hk
  | remove => cases List.mem_singleton.mp hk
  | _ => cases hk

namespace Linked

/-- An end of a link in the table has yet to go through its links. -/
theorem end_step (h : Linked s events) {k : Link}
    (hk : k ∈ (Machine.step s (t, i)).shared.links.links) {id : FlowId}
    (hid : id = k.a ∨ id = k.b) (hpass : ToPass .links s id) :
    ToPass .links (Machine.step s (t, i)) id := by
  rcases hpass.step (by decide) (by decide) h.sound.owned t i with hpass |
    ⟨stage, cur, work, rest, hs, rfl, horder⟩
  · exact hpass
  · cases stage with
    | links =>
      rw [step_shared, next_of_cons i hs] at hk
      obtain ⟨-, ha, hb⟩ := LinkTable.mem_removeLinksOf.mp hk
      rcases hid with hid | hid
      · exact absurd hid.symm ha
      · exact absurd hid.symm hb
    | _ => simp [FinStage.order] at horder

theorem swept_step (h : Linked s events) (hguard : JoinsInTime s (t, i))
    (hstep : LinkStep s t i (Machine.step s (t, i)) new) (k : Link)
    (hk : k ∈ (Machine.step s (t, i)).shared.links.links) :
    ToPass .links (Machine.step s (t, i)) k.a ∧ ToPass .links (Machine.step s (t, i)) k.b := by
  have hpass : ToPass .links s k.a ∧ ToPass .links s k.b := by
    rcases mem_links_of_step hstep hk with hold | hnew
    · exact h.swept k hold
    · obtain ⟨-, -, hwrite, hok, -, -⟩ := made_of_step hstep hnew
      obtain ⟨ha, hb, -⟩ := hguard.of_make hwrite hok
      exact ⟨ha, hb⟩
  exact ⟨h.end_step hk (.inl rfl) hpass.1, h.end_step hk (.inr rfl) hpass.2⟩

theorem unique_step (h : Linked s events) (hguard : JoinsInTime s (t, i))
    (hstep : LinkStep s t i (Machine.step s (t, i)) new) (k : Link)
    (hk : k ∈ (Machine.step s (t, i)).shared.links.links) (k' : Link)
    (hk' : k' ∈ (Machine.step s (t, i)).shared.links.links) (hid : k.id = k'.id) : k = k' := by
  have hmixed : ∀ k k' : Link, k ∈ s.shared.links.links → .linked k' ∈ new → k.id ≠ k'.id := by
    intro k k' hold hnew heq
    obtain ⟨-, -, hwrite, hok, hnext, -⟩ := made_of_step hstep hnew
    exact (hguard.of_make hwrite hok).2.2 k hold (heq.trans hnext)
  rcases mem_links_of_step hstep hk with hold | hnew <;>
    rcases mem_links_of_step hstep hk' with hold' | hnew'
  · exact h.unique k hold k' hold' hid
  · exact absurd hid (hmixed k k' hold hnew')
  · exact absurd hid.symm (hmixed k' k hold' hnew)
  · cases hstep with
    | make a b hby hwrite hne hok htable =>
      cases List.mem_singleton.mp hnew
      cases List.mem_singleton.mp hnew'
      rfl
    | exit => cases List.mem_singleton.mp hnew
    | remove => cases List.mem_singleton.mp hnew
    | _ => cases hnew

theorem exits_step (h : Linked s events) (hstep : LinkStep s t i (Machine.step s (t, i)) new)
    (id : FlowId) (reason : FlowExitReason) (he : .exited id reason ∈ events ++ new) :
    Finalized (Machine.step s (t, i)) id := by
  rcases List.mem_append.mp he with hold | hnew
  · exact (h.exits id reason hold).step (t, i)
  · obtain ⟨cur, work, rest, hs, rfl, -⟩ := exited_of_step hstep hnew
    exact finalized_of_unregister h.sound.owned hs

theorem reasons_step (h : Linked s events) (hstep : LinkStep s t i (Machine.step s (t, i)) new)
    (g : Frame) (hg : g ∈ (Machine.step s (t, i)).frames) (cur : PendingExit)
    (hcur : g.exiting = some cur) (reason : FlowExitReason)
    (he : .exited cur.id reason ∈ events ++ new) : reason = cur.reason := by
  -- a flow that is gone does not exit once more
  have hgone : ∀ f ∈ s.frames, f.exiting = some cur → reason = cur.reason := by
    intro f hf hcur
    rcases List.mem_append.mp he with hold | hnew
    · exact h.reasons f hf cur hcur reason hold
    · obtain ⟨cur', work, rest, hs, hid, -⟩ := exited_of_step hstep hnew
      exact absurd (hid ▸ h.left f hf cur hcur) (not_finalized_of_unregister h.sound hs)
  cases step_cases s t i with
  | acts f rest w hs hi hw hσ hnew =>
    rcases hnew g hg with hg | hl
    · exact hgone g (mem_frames_of_others hg) hcur
    · rcases hl.exiting hcur with hcur | ⟨work, rfl⟩
      · exact hgone f (mem_frames_of_cons hs) hcur
      · rcases List.mem_append.mp he with hold | hnew
        · exact absurd (h.exits _ _ hold) (not_finalized_of_unregister h.sound hs)
        · obtain ⟨cur', work', rest', hs', -, rfl⟩ := exited_of_step hstep hnew
          rw [hs] at hs'
          cases hs'
          rfl
  | starts w hs hw hσ hnew =>
    rcases hnew g hg with hg | hst
    · exact hgone g (mem_frames_of_others hg) hcur
    · rw [hst.exiting] at hcur
      cases hcur

theorem ends_step (h : Linked s events) (hguard : JoinsInTime s (t, i))
    (hstep : LinkStep s t i (Machine.step s (t, i)) new) (k : Link)
    (hk : k ∈ standing (events ++ new)) :
    (Machine.step s (t, i)).shared.Spawned k.a ∧ (Machine.step s (t, i)).shared.Spawned k.b := by
  have hbefore : s.shared.Spawned k.a ∧ s.shared.Spawned k.b := by
    rcases mem_standing_of_step hstep hk with ⟨hold, -⟩ | hnew
    · exact h.ends k hold
    · obtain ⟨-, -, hwrite, hok, -, -⟩ := made_of_step hstep hnew
      obtain ⟨ha, hb, -⟩ := hguard.of_make hwrite hok
      exact ⟨ha.spawned h.sound, hb.spawned h.sound⟩
  exact ⟨spawned_step hbefore.1 (t, i), spawned_step hbefore.2 (t, i)⟩

/-- A link that is severed stays severed. -/
theorem severed_step (h : Linked s events) (hstep : LinkStep s t i (Machine.step s (t, i)) new)
    {gone peer : FlowId} (hpeer : s.shared.Spawned peer) (hsev : Severed s events gone peer) :
    Severed (Machine.step s (t, i)) (events ++ new) gone peer := by
  refine ⟨hsev.1.step (t, i), ?_⟩
  rintro ⟨reason, he, habnormal⟩
  rcases List.mem_append.mp he with hold | hnew
  · exact (hsev.2 ⟨reason, hold, habnormal⟩).step hpeer h.sound h.left (t, i)
  · obtain ⟨cur, work, rest, hs, rfl, -⟩ := exited_of_step hstep hnew
    exact absurd hsev.1 (not_finalized_of_unregister h.sound hs)

/-- A finalization that sweeps a link severs it. -/
theorem severed_of_sweep (h : Linked s events) {cur : PendingExit} {work : List PendingExit}
    {rest : List Frame} (hs : s.threads t = .fin .links cur work :: rest) {peer : FlowId}
    (hpeer : peer ∈ (s.shared.links.removeLinksOf cur.id).2) :
    Severed (Machine.step s (t, i)) events cur.id peer := by
  have hexit : (Frame.fin .links cur work).exiting = some cur := rfl
  refine ⟨(h.left _ (mem_frames_of_cons hs) cur hexit).step (t, i), ?_⟩
  rintro ⟨reason, he, habnormal⟩
  cases h.reasons _ (mem_frames_of_cons hs) cur hexit reason he
  refine .inr (.inr ⟨.fin (.peers (s.shared.links.removeLinksOf cur.id).2) cur work,
    mem_frames_of_next hs ?_, .inr (.inr ⟨_, rfl, hpeer⟩)⟩)
  simp only [Frame.next, FinStage.next, Shared.exec, habnormal, if_true, List.mem_singleton]

/-- **No link is lost**: it stays in the table until an end removes it or goes. -/
theorem kept_step (h : Linked s events) (hguard : JoinsInTime s (t, i))
    (hstep : LinkStep s t i (Machine.step s (t, i)) new) (k : Link)
    (hk : k ∈ standing (events ++ new)) :
    k ∈ (Machine.step s (t, i)).shared.links.links ∨
      Severed (Machine.step s (t, i)) (events ++ new) k.a k.b ∨
      Severed (Machine.step s (t, i)) (events ++ new) k.b k.a := by
  rcases mem_standing_of_step hstep hk with ⟨hold, hstands⟩ | hnew
  · rcases h.kept k hold with hmem | hsev | hsev
    · cases hstep with
      | stay htable => exact .inl (htable ▸ hmem)
      | exit cur work rest hs htable => exact .inl (htable ▸ hmem)
      | make a b hby hwrite hne hok htable =>
        refine .inl ?_
        rw [htable]
        refine List.mem_append_left _ (List.mem_filter.mpr ⟨hmem, ?_⟩)
        simpa using (hguard.of_make hwrite hok).2.2 k hmem
      | remove k' hmem' htable =>
        refine .inl ?_
        rw [htable]
        refine List.mem_filter.mpr ⟨hmem, ?_⟩
        have hne : k.id ≠ k'.id := fun hid =>
          hstands (h.unique k hmem k' hmem' hid ▸ List.mem_singleton_self _)
        simpa using hne
      | sweep cur work rest hs htable =>
        rw [List.append_nil]
        obtain ⟨hb, ha⟩ := LinkTable.mem_peers hmem
        by_cases hida : k.a = cur.id
        · rw [hida] at hb ⊢
          exact .inr (.inl (h.severed_of_sweep hs hb))
        by_cases hidb : k.b = cur.id
        · have ha := ha (h.distinct k hmem)
          rw [hidb] at ha ⊢
          exact .inr (.inr (h.severed_of_sweep hs ha))
        · refine .inl ?_
          rw [htable]
          exact LinkTable.mem_removeLinksOf.mpr ⟨hmem, hida, hidb⟩
    · exact .inr (.inl (h.severed_step hstep (h.ends k hold).2 hsev))
    · exact .inr (.inr (h.severed_step hstep (h.ends k hold).1 hsev))
  · exact .inl (made_of_step hstep hnew).2.2.2.2.2

/-- **A step keeps the links whole**, if it makes none too late. -/
theorem step (h : Linked s events) (ti : ℕ × Input) (hguard : JoinsInTime s ti) :
    Linked (Machine.step s ti) (events ++ linkEvents s ti) :=
  have hstep := link_step s ti.1 ti.2
  { sound := h.sound.step ti
    left := h.left.step h.sound.owned ti
    swept := h.swept_step hguard hstep
    distinct := fun k hk => (mem_links_of_step hstep hk).elim (h.distinct k) fun hnew =>
      (made_of_step hstep hnew).2.1
    unique := h.unique_step hguard hstep
    exits := h.exits_step hstep
    reasons := h.reasons_step hstep
    ends := h.ends_step hguard hstep
    kept := h.kept_step hguard hstep }

end Linked

end

/-! ## No link is half made -/

/-- **When links are whole.** In a run whose links are made in time, with no operation in progress,
no link mentions a flow that is gone; and if one end of a link that stands exited abnormally, the
other is gone or has its kill signal set. -/
theorem links_whole (config : MailboxConfig) (sched : List (ℕ × Input))
    (hguard : Schedule.Guarded step JoinsInTime (State.init config) sched)
    (hsettled : Settled (run config sched)) :
    (∀ k ∈ (run config sched).shared.links.links,
        ¬Finalized (run config sched) k.a ∧ ¬Finalized (run config sched) k.b) ∧
      ∀ k ∈ standing (linkTrace config sched), ∀ x y : FlowId,
        (x = k.a ∧ y = k.b) ∨ (x = k.b ∧ y = k.a) → ExitedAbnormally (linkTrace config sched) x →
        Finalized (run config sched) y ∨ (run config sched).shared.killSignals y ≠ none := by
  have hinv : Linked (run config sched) (linkTrace config sched) :=
    Schedule.Guarded.trace_invariant (fun s ti es hti h => h.step ti hti)
      (linked_init config) hguard
  have hquiet : ∀ f ∈ (run config sched).frames, ∀ id, ¬f.Dooms id := by
    intro f hf id
    have hrunning := hsettled f hf
    cases f with
    | run flow => exact fun h => h
    | drive flow => exact fun h => h
    | _ => exact hrunning.elim
  have hlive : ∀ {x}, ToPass .links (run config sched) x → ¬Finalized (run config sched) x := by
    rintro x hpass ⟨-, hdir⟩
    rw [hpass.directory fun stage cur work hf => hquiet _ hf cur.id (.inl rfl)] at hdir
    cases hdir
  have hdoomed : ∀ {y}, Doomed (run config sched) y →
      Finalized (run config sched) y ∨ (run config sched).shared.killSignals y ≠ none := by
    rintro y (hfin | hsig | ⟨f, hf, hdooms⟩)
    · exact .inl hfin
    · exact .inr hsig
    · exact absurd hdooms (hquiet f hf y)
  refine ⟨fun k hk => (hinv.swept k hk).imp hlive hlive, fun k hk x y hends hexit => ?_⟩
  have hgone : Finalized (run config sched) x := by
    obtain ⟨reason, he, -⟩ := hexit
    exact hinv.exits x reason he
  rcases hinv.kept k hk with hmem | hsev | hsev
  · obtain ⟨ha, hb⟩ := hinv.swept k hmem
    rcases hends with ⟨rfl, -⟩ | ⟨rfl, -⟩
    · exact absurd hgone (hlive ha)
    · exact absurd hgone (hlive hb)
  · rcases hends with ⟨rfl, rfl⟩ | ⟨rfl, rfl⟩
    · exact hdoomed (hsev.2 hexit)
    · exact .inl hsev.1
  · rcases hends with ⟨rfl, rfl⟩ | ⟨rfl, rfl⟩
    · exact .inl hsev.1
    · exact hdoomed (hsev.2 hexit)

/-- A link is made between registered flows. -/
def JoinsLive (s : State) (ti : ℕ × Input) : Prop :=
  match (s.next ti.1 ti.2).1.write with
  | .linkCreate a b => s.shared.directory a = true ∧ s.shared.directory b = true ∧
      ∀ k ∈ s.shared.links.links, k.id ≠ s.shared.links.nextLink
  | _ => True

instance (s : State) (ti : ℕ × Input) : Decidable (JoinsLive s ti) := by
  delta JoinsLive
  generalize (s.next ti.1 ti.2).1.write = w
  induction w using Write.casesOn <;> dsimp only <;> infer_instance

theorem JoinsLive.inTime {ti : ℕ × Input} (h : JoinsLive s ti) : JoinsInTime s ti := by
  unfold JoinsLive at h
  unfold JoinsInTime
  split
  · rename_i hw
    simp only [hw] at h
    exact fun _ => ⟨.inl h.1, .inl h.2.1, h.2.2⟩
  · trivial

/-- Flow 1 links itself to flow 2, which fails. -/
def linkThenTrap : List (ℕ × Input) :=
  twoRunning ++ [(0, .vm (.link 2)), (1, .vm (.trap "division by zero"))] ++ steps 1 23

theorem links_whole_trap : (run .default linkThenTrap).shared.killSignals 1 ≠ none :=
  have hlive : Schedule.Guarded step JoinsLive (State.init .default) linkThenTrap := by
    decide +kernel
  have hsettled : Settled (run .default linkThenTrap) := settled_of_scheduled (by decide +kernel)
  ((links_whole .default linkThenTrap (hlive.mono fun _ _ h => h.inTime) hsettled).2 ⟨1, 1, 2⟩
    (by decide +kernel) 2 1 (.inr ⟨rfl, rfl⟩) ⟨.fault, by decide +kernel, rfl⟩).resolve_left
      (by decide +kernel)

/-- With no operation in progress, a link stands and mentions a flow that exited abnormally, and
the other end knows nothing of it. -/
structure HalfMade (config : MailboxConfig) (sched : List (ℕ × Input)) (k : Link) : Prop where
  settled : Settled (run config sched)
  standing : k ∈ standing (linkTrace config sched)
  listed : k ∈ (run config sched).shared.links.links
  gone : Finalized (run config sched) k.b
  exited : ExitedAbnormally (linkTrace config sched) k.b
  live : (run config sched).shared.directory k.a = true
  unmarked : (run config sched).shared.killSignals k.a = none

/-- The host finds flows 1 and 2 live, and flow 2 fails before the link is made. -/
def hostLinksLate : List (ℕ × Input) :=
  twoRunning ++ [(2, .start (.link 1 2))] ++ steps 2 2 ++ [(1, .vm (.trap "division by zero"))] ++
    steps 1 17 ++ steps 2 1

/-- Flow 2 fails before flow 1, which has its cap, gets to make the link. -/
def trapThenLink : List (ℕ × Input) :=
  twoRunning ++ [(1, .vm (.trap "division by zero"))] ++ steps 1 17 ++ [(0, .vm (.link 2))]

/-- Both ways to make a link may make half a link. -/
theorem link_half_made :
    HalfMade .default hostLinksLate ⟨1, 1, 2⟩ ∧ HalfMade .default trapThenLink ⟨1, 1, 2⟩ := by
  refine ⟨⟨?_, ?_, ?_, ?_, ⟨.fault, ?_, rfl⟩, ?_, ?_⟩, ?_, ?_, ?_, ?_, ⟨.fault, ?_, rfl⟩, ?_, ?_⟩
  all_goals first | exact settled_of_scheduled (by decide +kernel) | decide +kernel

end Machine

end Byteflow
