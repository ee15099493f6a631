import Byteflow.Scheduler.Machine.Refused
import Byteflow.Scheduler.Machine.Registered
import Byteflow.Scheduler.Mailbox.Conservation

/-!
# Pairwise order of hops

A hop reaches its receiver through the queue, by a handoff to the parked receiver, or from the list
of waiting senders when it is admitted. Its sender runs on only after the hop has been accepted, so
at any time one hop at most of a sender is on its way, and it comes after all its hops that were
accepted (`InOrder`). The hops of a sender that a receiver takes with a plain `Receive` are
therefore in the order in which they were sent (`pairwise_fifo`).
-/

namespace Byteflow

namespace Machine

variable {s : State}

/-- The hop that an effect sends, with its target. -/
def VmResult.hop? (sender : FlowId) (name : ℕ) : VmResult → Option (FlowId × Hop)
  | .send target message replyCap =>
    some (target, ⟨name, (message.authenticate sender replyCap).toValue⟩)
  | .ask _ target request replyCap _ =>
    some (target, ⟨name, (request.authenticate sender replyCap).toValue⟩)
  | _ => none

/-- The hop that flow `a` sends to flow `b` in a step. -/
def sent (a b : FlowId) (s : State) (ti : ℕ × Input) : List Hop :=
  match s.threads ti.1, ti.2 with
  | .run flow :: _, .vm result =>
    match result.hop? flow.id s.shared.nextHop with
    | some (target, hop) => if flow.id = a ∧ target = b then [hop] else []
    | none => []
  | _, _ => []

/-- The operation of a step on the mailbox of flow `b`. -/
def State.opOn (s : State) (b : FlowId) (ti : ℕ × Input) : Option (Mailbox.Op Hop) :=
  match (s.next ti.1 ti.2).1.write with
  | .mail id op => if id = b then some op else none
  | _ => none

/-- The hop that flow `b` takes with a plain `Receive` in a step. -/
def taken (b : FlowId) (s : State) (ti : ℕ × Input) : List Hop :=
  match s.opOn b ti with
  | some op => (s.shared.mailboxes b).takenBy op
  | none => []

/-- The hop that the mailbox of flow `b` accepts in a step. -/
def accepted (b : FlowId) (s : State) (ti : ℕ × Input) : List Hop :=
  match s.opOn b ti with
  | some op => (s.shared.mailboxes b).acceptedBy op
  | none => []

/-! ## Hops in frames -/

/-- The hop that a frame carries. -/
def Frame.hop : Frame → Option Hop
  | .send _ _ out => some out.hop
  | .downLookup _ hop => some hop
  | .downPush _ hop => some hop
  | .hostPush _ hop => some hop
  | _ => none

/-- The frame carries a hop of flow `a` to flow `b`. -/
def Frame.Sends (a b : FlowId) : Frame → Prop
  | .send _ flow out => flow.id = a ∧ out.target = b
  | _ => False

theorem Frame.Plain.hop {g : Frame} (h : g.Plain) : g.hop = none := by
  cases g <;> first | rfl | exact h.elim

theorem VmResult.name_of_hop? {result : VmResult} {sender target : FlowId} {name : ℕ} {hop : Hop}
    (h : result.hop? sender name = some (target, hop)) : hop.name = name := by
  cases result <;> cases h <;> rfl

theorem nextHop_of_hop? {t : ℕ} {flow : Flow Hop} {rest : List Frame} {result : VmResult}
    {target : FlowId} {hop : Hop} (hs : s.threads t = .run flow :: rest)
    (h : result.hop? flow.id s.shared.nextHop = some (target, hop)) :
    (step s (t, .vm result)).shared.nextHop = s.shared.nextHop + 1 := by
  rw [step_shared, next_of_cons _ hs]
  cases result <;> cases h <;> rfl

/-- The hop of a new `send` frame is that of the effect. -/
theorem hop?_of_effect {σ : Shared} {flow flow' : Flow Hop} {result : VmResult}
    {stage : SendStage} {out : Outgoing}
    (hg : .send stage flow' out ∈ (σ.exec (effect flow result)).2) :
    flow'.id = flow.id ∧ result.hop? flow.id σ.nextHop = some (out.target, out.hop) := by
  cases effects hg with
  | send target message replyCap => exact ⟨rfl, rfl⟩
  | ask destReg target request replyCap timeout => exact ⟨rfl, rfl⟩

/-- A step sends a hop from flow `a` to flow `b`, or none. -/
theorem sent_cases (a b : FlowId) (s : State) (t : ℕ) (i : Input) :
    sent a b s (t, i) = [] ∨ ∃ flow rest result hop, s.threads t = .run flow :: rest ∧
      i = .vm result ∧ flow.id = a ∧
        result.hop? flow.id s.shared.nextHop = some (b, hop) ∧ sent a b s (t, i) = [hop] := by
  unfold sent
  split
  · rename_i flow rest result hs hi
    split
    · rename_i target hop hhop
      split_ifs with hab
      · obtain ⟨rfl, rfl⟩ := hab
        exact .inr ⟨flow, rest, result, hop, hs, hi, rfl, hhop, rfl⟩
      · exact .inl rfl
    · exact .inl rfl
  · exact .inl rfl

/-- A step operates on the mailbox of flow `b`, or leaves it as it is. -/
theorem opOn_cases (s : State) (b : FlowId) (t : ℕ) (i : Input) :
    (s.opOn b (t, i) = none ∧
        (step s (t, i)).shared.mailboxes b = s.shared.mailboxes b) ∨
      ∃ f rest op, s.opOn b (t, i) = some op ∧ s.threads t = f :: rest ∧
        Writes f (.mail b op) ∧
          (step s (t, i)).shared.mailboxes b = (s.shared.mailboxes b).after op := by
  have hσ := exec_written s.shared (s.next t i).1
  rw [← step_shared] at hσ
  unfold State.opOn
  dsimp only
  cases hw : (s.next t i).1.write with
  | mail id op =>
    rw [hw] at hσ
    by_cases hid : id = b
    · subst hid
      refine .inr ?_
      rcases next_cases s t i with ⟨f, rest, hs, hn⟩ | ⟨hs, ⟨start, -, hn⟩ | hn⟩
      · have hwrites := f.next_writes i
        rw [hn] at hw
        rw [hw] at hwrites
        refine ⟨f, rest, op, if_pos rfl, hs, hwrites, ?_⟩
        rw [hσ.mailboxes]
        exact Function.update_self ..
      · have hstart := start.start_write
        rw [hn] at hw
        rw [hw] at hstart
        cases hstart
      · rw [hn] at hw
        cases hw
    · refine .inl ⟨if_neg hid, ?_⟩
      rw [hσ.mailboxes]
      exact Function.update_of_ne (Ne.symm hid) ..
  | _ =>
    rw [hw] at hσ
    refine .inl ⟨rfl, ?_⟩
    rw [hσ.mailboxes]
    rfl

theorem nextHop_le_step (s : State) (t : ℕ) (i : Input) :
    s.shared.nextHop ≤ (step s (t, i)).shared.nextHop := by
  have hσ := exec_written s.shared (s.next t i).1
  rw [step_shared, hσ.nextHop]
  cases (s.next t i).1.write <;> first | exact Nat.le_succ _ | exact le_refl _

/-- Where the hop of a new frame comes from: the frame on top goes on with it, or the step issues
it. -/
inductive HopComes (s : State) (t : ℕ) (i : Input) : Frame → Prop
  | send {stage stage' flow flow' out rest} (hs : s.threads t = .send stage flow out :: rest)
      (hid : flow'.id = flow.id) : HopComes s t i (.send stage' flow' out)
  | down {owner hop rest} (hs : s.threads t = .downLookup owner hop :: rest) :
      HopComes s t i (.downPush owner hop)
  | issueSend {flow flow' out rest result} (hs : s.threads t = .run flow :: rest)
      (hi : i = .vm result) (hid : flow'.id = flow.id)
      (hhop : result.hop? flow.id s.shared.nextHop = some (out.target, out.hop)) :
      HopComes s t i (.send .lookup flow' out)
  | issueDown {event rest} (hs : s.threads t = .down event :: rest) :
      HopComes s t i (.downLookup event.owner ⟨s.shared.nextHop,
        (Message.down event.monitor event.target event.reason.asU64).toValue⟩)
  | issueHost {target message rest} (hs : s.threads t = .hostStamp target message :: rest) :
      HopComes s t i (.hostPush target
        ⟨s.shared.nextHop, (message.authenticate FlowId.host CapId.none).toValue⟩)

/-- The hop of a frame after a step, unless the frame did not act. -/
theorem hop_comes {t : ℕ} {i : Input} {g : Frame} {h : Hop} (hg : g ∈ (step s (t, i)).frames)
    (hh : g.hop = some h) : g ∈ s.others t ∨ HopComes s t i g := by
  rcases frames_of_step hg with hg | hg
  · exact .inl hg
  refine .inr ?_
  rcases next_cases s t i with ⟨f, rest, hs, hn⟩ | ⟨hs, ⟨op, -, hn⟩ | hn⟩
  · rw [hn] at hg
    cases leads hg with
    | plain hplain =>
      rw [hplain.hop] at hh
      cases hh
    | @runSend flow flow' out hid hname =>
      cases i with
      | vm result => exact .issueSend hs rfl hid (hop?_of_effect hg).2
      | _ => cases List.mem_singleton.mp hg
    | sendPush hlive => exact .send hs rfl
    | pushRefused hr => exact .send hs rfl
    | sendIndex => exact .send hs rfl
    | sendTarget hlive => exact .send hs rfl
    | sendGone hlive => exact .send hs rfl
    | parkClosed hc => exact .send hs rfl
    | downFound => exact .down hs
    | downIssue hname =>
      cases List.mem_singleton.mp hg
      exact .issueDown hs
    | hostIssue hname =>
      cases List.mem_singleton.mp hg
      exact .issueHost hs
    | _ => cases hh
  · rw [hn] at hg
    cases starts hg with
    | plain hplain =>
      rw [hplain.hop] at hh
      cases hh
    | _ => cases hh
  · rw [hn] at hg
    cases hg

/-- The hop of a frame after a step: the frame did not act, or it has the hop of the frame that did,
or the hop is new. -/
theorem hop_of_step {t : ℕ} {i : Input} {g : Frame} {h : Hop}
    (hg : g ∈ (step s (t, i)).frames) (hh : g.hop = some h) :
    g ∈ s.others t ∨
      (∃ f rest, s.threads t = f :: rest ∧ f.hop = some h ∧
        ∀ a b, f.Sends a b → g.Sends a b) ∨
      (h.name = s.shared.nextHop ∧ (step s (t, i)).shared.nextHop = s.shared.nextHop + 1 ∧
        ∀ a b, ∀ h' ∈ sent a b s (t, i), h' = h ∧ g.Sends a b) := by
  refine (hop_comes hg hh).imp_right fun hcomes => ?_
  have hissue {f : Frame} {rest : List Frame} (hs : s.threads t = f :: rest)
      (hw : (f.next i).write = .issue) :
      (step s (t, i)).shared.nextHop = s.shared.nextHop + 1 := by
    rw [step_shared, next_of_cons i hs, (exec_written s.shared (f.next i)).nextHop, hw]
    rfl
  have hquiet {f : Frame} {rest : List Frame} (hs : s.threads t = f :: rest)
      (hrun : ∀ flow, f ≠ .run flow) (a b : FlowId) : sent a b s (t, i) = [] := by
    rcases sent_cases a b s t i with he | ⟨flow, rest', _, _, hs', -⟩
    · exact he
    · rw [hs] at hs'
      cases hs'
      exact absurd rfl (hrun flow)
  cases hcomes with
  | send hs hid => exact .inl ⟨_, _, hs, hh, fun _ _ hsends => ⟨hid.trans hsends.1, hsends.2⟩⟩
  | down hs => exact .inl ⟨_, _, hs, hh, fun _ _ hsends => hsends.elim⟩
  | @issueSend flow flow' out rest result hs hi hid hhop =>
    subst hi
    cases hh
    refine .inr ⟨VmResult.name_of_hop? hhop, nextHop_of_hop? hs hhop, fun a b h' hh' => ?_⟩
    rcases sent_cases a b s t (.vm result) with he | ⟨_, _, _, hop, hs', hi, rfl, hhop', he⟩
    · rw [he] at hh'
      cases hh'
    · rw [hs] at hs'
      cases hs'
      cases hi
      rw [hhop] at hhop'
      cases hhop'
      rw [he] at hh'
      exact ⟨List.mem_singleton.mp hh', hid, rfl⟩
  | issueDown hs =>
    cases hh
    refine .inr ⟨rfl, hissue hs rfl, fun a b h' hh' => ?_⟩
    rw [hquiet hs (by rintro _ ⟨⟩)] at hh'
    cases hh'
  | issueHost hs =>
    cases hh
    refine .inr ⟨rfl, hissue hs rfl, fun a b h' hh' => ?_⟩
    rw [hquiet hs (by rintro _ ⟨⟩)] at hh'
    cases hh'

/-! ## Accepted hops -/

/-- The sender of a hop that was delivered goes on without it. -/
theorem exists_mem_delivered (flow : Flow Hop) (out : Outgoing) :
    ∃ g ∈ delivered flow out, flow.id ∈ g.boxes ∧ g.hop = none := by
  unfold delivered
  split
  · exact ⟨_, List.mem_singleton_self _, Multiset.mem_singleton_self _, rfl⟩
  · exact ⟨_, List.mem_singleton_self _, Multiset.mem_singleton_self _, rfl⟩

/-- **A hop that is accepted** comes from the frame on top or from a waiting sender, and its sender
goes on without it. -/
theorem accepted_step {t : ℕ} {i : Input} {f : Frame} {rest : List Frame} {b : FlowId}
    {op : Mailbox.Op Hop} (hs : s.threads t = f :: rest) (hw : Writes f (.mail b op)) {h : Hop}
    (hh : h ∈ (s.shared.mailboxes b).acceptedBy op) :
    (f.hop = some h ∧ ∀ a b, f.Sends a b →
        ∃ g ∈ (step s (t, i)).frames, a ∈ g.boxes ∧ g.hop = none) ∨
      ∃ w ∈ (s.shared.mailboxes b).waitingSenders, w.message = h ∧
        ∃ g ∈ (step s (t, i)).frames, w.flow.id ∈ g.boxes ∧ g.hop = none := by
  cases hw with
  | push flow out =>
    obtain ⟨rfl, hok⟩ : h = out.hop ∧
        ∀ reason, ((s.shared.mailboxes out.target).push out.hop).2 ≠ .error reason := by
      simp only [Mailbox.acceptedBy] at hh
      split at hh
      · cases hh
      · rename_i he
        exact ⟨List.mem_singleton.mp hh, fun reason herr => by rw [he] at herr; cases herr⟩
      · cases hh
    refine .inl ⟨rfl, ?_⟩
    rintro a b ⟨rfl, -⟩
    obtain ⟨g, hg, hbox, hhop⟩ := exists_mem_delivered flow out
    refine ⟨g, mem_frames_of_next hs ?_, hbox, hhop⟩
    simp only [Frame.next, SendStage.next, Shared.exec, Mailbox.result]
    split
    · exact List.mem_cons_of_mem _ hg
    · exact hg
    · rename_i reason herr
      exact absurd herr (hok reason)
  | downPush owner hop =>
    exact .inl ⟨congrArg some (List.mem_singleton.mp hh).symm, fun a b hsends => hsends.elim⟩
  | hostPush target hop =>
    refine .inl ⟨?_, fun a b hsends => hsends.elim⟩
    simp only [Mailbox.acceptedBy] at hh
    split at hh
    · cases hh
    · exact congrArg some (List.mem_singleton.mp hh).symm
    · cases hh
  | admitWaitingOn flow =>
    refine .inr ?_
    rcases (s.shared.mailboxes flow.id).admitWaitingSender_cases with ⟨-, he⟩ |
      ⟨_, _, _, -, -, -, he⟩ | ⟨waiter, rest, capacity, -, hwait, -, he⟩
    · simp [Mailbox.acceptedBy, he] at hh
    · simp [Mailbox.acceptedBy, he] at hh
    · simp only [Mailbox.acceptedBy, he, hwait, List.map_cons, List.take_succ_cons, List.take_zero,
        List.mem_singleton] at hh
      refine ⟨waiter, hwait ▸ List.mem_cons_self, hh.symm, .admitted waiter.flow,
        mem_frames_of_next hs ?_, Multiset.mem_singleton_self _, rfl⟩
      simp only [Frame.next, Shared.exec, Mailbox.result, he]
      exact List.mem_cons_self
  | _ => cases hh

/-! ## The invariant -/

/-- The hops of a list that are among those sent. -/
def among (sent l : List Hop) : List Hop := l.filter fun h => h.name ∈ sent.map Hop.name

theorem among_append (sent l l' : List Hop) :
    among sent (l ++ l') = among sent l ++ among sent l' := List.filter_append ..

theorem among_sublist {l l' : List Hop} (h : l.Sublist l') (sent : List Hop) :
    (among sent l).Sublist (among sent l') := h.filter _

theorem among_eq_self {sent l : List Hop} (h : ∀ hop ∈ l, hop.name ∈ sent.map Hop.name) :
    among sent l = l := List.filter_eq_self.mpr fun hop hh => decide_eq_true (h hop hh)

theorem among_eq_nil {sent l : List Hop} (h : ∀ hop ∈ l, hop.name ∉ sent.map Hop.name) :
    among sent l = [] :=
  List.filter_eq_nil_iff.mpr fun hop hh hpos => h hop hh (of_decide_eq_true hpos)

/-- Hops that are sent later are not in the list. -/
theorem among_append_sent {sent new l : List Hop} {n : ℕ} (hl : ∀ h ∈ l, h.name < n)
    (hnew : ∀ h ∈ new, h.name = n) : among (sent ++ new) l = among sent l := by
  refine List.filter_congr fun h hh => ?_
  have hout : h.name ∉ new.map Hop.name := by
    intro hmem
    obtain ⟨h', hh', hname⟩ := List.mem_map.mp hmem
    have hlt := hl h hh
    have heq := hnew h' hh'
    omega
  simp [hout]

/-- The hop was sent after those in the list. -/
def Follows (sent l : List Hop) (h : Hop) : Prop := (among sent l ++ [h]).Sublist sent

/-- The hops from flow `a` that flow `b` took and those in its queue, in this order, were sent in
this order, and a hop on its way from `a` to `b` was sent after them. -/
structure InOrder (a b : FlowId) (s : State) (sent taken : List Hop) : Prop where
  owned : Owned s
  homed : Homed s
  wakeful : (s.shared.mailboxes b).NoMissedHop
  named : (sent.map Hop.name).Nodup
  issued : ∀ h ∈ sent, h.name < s.shared.nextHop
  known : ∀ h ∈ taken ++ (s.shared.mailboxes b).queue.inner, h.name < s.shared.nextHop
  ordered : (among sent (taken ++ (s.shared.mailboxes b).queue.inner)).Sublist sent
  frames : ∀ f ∈ s.frames, ∀ h, f.hop = some h → h.name < s.shared.nextHop ∧
    (h.name ∈ sent.map Hop.name →
      f.Sends a b ∧ Follows sent (taken ++ (s.shared.mailboxes b).queue.inner) h)
  waiting : ∀ id, ∀ w ∈ (s.shared.mailboxes id).waitingSenders,
    w.message.name < s.shared.nextHop ∧ (w.message.name ∈ sent.map Hop.name →
      w.flow.id = a ∧ id = b ∧
        Follows sent (taken ++ (s.shared.mailboxes b).queue.inner) w.message)

theorem inOrder_init (a b : FlowId) (config : MailboxConfig) :
    InOrder a b (State.init config) [] [] where
  owned := owned_init config
  homed := homed_init config
  wakeful := Mailbox.noMissedHop_new config
  named := List.nodup_nil
  issued := nofun
  known := nofun
  ordered := List.Sublist.slnil
  frames := fun _ hf => by obtain ⟨t, hf⟩ := hf; cases hf
  waiting := fun _ _ hw => by cases hw

namespace InOrder

variable {a b : FlowId} {es es' : List Hop}

/-- What was taken and queued grows at the end, by the hop that is accepted. -/
theorem taken_step (h : InOrder a b s es es') (t : ℕ) (i : Input) :
    (es' ++ taken b s (t, i) ++ ((Machine.step s (t, i)).shared.mailboxes b).queue.inner).Sublist
      (es' ++ (s.shared.mailboxes b).queue.inner ++ accepted b s (t, i)) := by
  rw [List.append_assoc, List.append_assoc]
  refine List.Sublist.append_left ?_ es'
  unfold taken accepted
  rcases opOn_cases s b t i with ⟨hop, he⟩ | ⟨f, rest, op, hop, -, -, he⟩ <;> rw [hop, he]
  · rw [List.nil_append, List.append_nil]
  · exact Mailbox.takenBy_sublist h.wakeful op

theorem accepted_cases (b : FlowId) (s : State) (t : ℕ) (i : Input) :
    accepted b s (t, i) = [] ∨ ∃ hop, accepted b s (t, i) = [hop] := by
  unfold accepted
  split
  · exact Mailbox.acceptedBy_cases _ _
  · exact .inl rfl

/-- The hop that is accepted is not new; if flow `a` sent it to flow `b`, it was sent after the hops
before it, and a frame without a hop now has the sender. -/
theorem of_accepted (h : InOrder a b s es es') {t : ℕ} {i : Input} {hop : Hop}
    (hh : hop ∈ accepted b s (t, i)) :
    hop.name < s.shared.nextHop ∧ (hop.name ∈ es.map Hop.name →
      Follows es (es' ++ (s.shared.mailboxes b).queue.inner) hop ∧
        ∃ g ∈ (Machine.step s (t, i)).frames, a ∈ g.boxes ∧ g.hop = none) := by
  unfold accepted at hh
  rcases opOn_cases s b t i with ⟨hop, -⟩ | ⟨f, rest, op, hop, hs, hw, -⟩ <;> rw [hop] at hh
  · cases hh
  rcases accepted_step (i := i) hs hw hh with ⟨hf, hgoes⟩ | ⟨w, hmem, rfl, hgoes⟩
  · obtain ⟨hlt, hsent⟩ := h.frames f (mem_frames_of_cons hs) _ hf
    refine ⟨hlt, fun hmem => ?_⟩
    obtain ⟨hsends, hfollows⟩ := hsent hmem
    exact ⟨hfollows, hgoes a b hsends⟩
  · obtain ⟨hlt, hsent⟩ := h.waiting b w hmem
    refine ⟨hlt, fun hmem => ?_⟩
    obtain ⟨rfl, -, hfollows⟩ := hsent hmem
    exact ⟨hfollows, hgoes⟩

theorem ordered_step (h : InOrder a b s es es') (t : ℕ) (i : Input) :
    (among es (es' ++ taken b s (t, i) ++
      ((Machine.step s (t, i)).shared.mailboxes b).queue.inner)).Sublist es := by
  refine (among_sublist (h.taken_step t i) es).trans ?_
  rw [among_append]
  rcases accepted_cases b s t i with he | ⟨hop, he⟩ <;> rw [he]
  · simpa [among] using h.ordered
  · by_cases hmem : hop.name ∈ es.map Hop.name
    · have hfollows := ((h.of_accepted (he ▸ List.mem_singleton_self hop)).2 hmem).1
      rw [among_eq_self (List.forall_mem_singleton.mpr hmem)]
      exact hfollows
    · rw [among_eq_nil (List.forall_mem_singleton.mpr hmem), List.append_nil]
      exact h.ordered

/-- A hop on its way stays behind those that are accepted: they are of other senders. -/
theorem follows_step (h : InOrder a b s es es') {t : ℕ} {i : Input} {hop : Hop}
    (hf : Follows es (es' ++ (s.shared.mailboxes b).queue.inner) hop)
    (hway : (∃ g ∈ (Machine.step s (t, i)).frames, a ∈ g.boxes ∧ g.hop ≠ none) ∨
      ∃ id, ∃ w ∈ ((Machine.step s (t, i)).shared.mailboxes id).waitingSenders, w.flow.id = a) :
    Follows es (es' ++ taken b s (t, i) ++
      ((Machine.step s (t, i)).shared.mailboxes b).queue.inner) hop := by
  have ho := h.owned.step (t, i)
  have hothers : ∀ hop ∈ accepted b s (t, i), hop.name ∉ es.map Hop.name := by
    intro hop hh hmem
    obtain ⟨-, g, hg, ha, hnone⟩ := (h.of_accepted hh).2 hmem
    rcases hway with ⟨g', hg', ha', hsome⟩ | ⟨id, w, hw, rfl⟩
    · cases ho.frame_unique hg hg' ha ha'
      exact hsome hnone
    · exact ho.not_waiting hg ha id hw
  refine List.Sublist.trans (List.Sublist.append_right ?_ [hop]) hf
  have hsub := among_sublist (h.taken_step t i) es
  rwa [among_append es _ (accepted b s (t, i)), among_eq_nil hothers, List.append_nil] at hsub

/-- **A step keeps the hops in order.** -/
theorem step (h : InOrder a b s es es') (ti : ℕ × Input) :
    InOrder a b (Machine.step s ti) (es ++ sent a b s ti) (es' ++ taken b s ti) := by
  obtain ⟨t, i⟩ := ti
  have hle := nextHop_le_step s t i
  have hnew : ∀ hop ∈ sent a b s (t, i), hop.name = s.shared.nextHop ∧
      s.shared.nextHop < (Machine.step s (t, i)).shared.nextHop := by
    intro hop hh
    rcases sent_cases a b s t i with he | ⟨flow, rest, result, hop', hs, rfl, -, hhop, he⟩ <;>
      rw [he] at hh
    · cases hh
    · rw [List.mem_singleton.mp hh, nextHop_of_hop? hs hhop]
      exact ⟨VmResult.name_of_hop? hhop, Nat.lt_succ_self _⟩
  have hknown : ∀ hop ∈ es' ++ taken b s (t, i) ++
      ((Machine.step s (t, i)).shared.mailboxes b).queue.inner, hop.name < s.shared.nextHop := by
    intro hop hh
    rcases List.mem_append.mp ((h.taken_step t i).subset hh) with hh | hh
    · exact h.known hop hh
    · exact (h.of_accepted hh).1
  have hamong := @among_append_sent es _ _ _ hknown fun hop hh => (hnew hop hh).1
  -- a hop that is not new stays where it is in the order
  have hold : ∀ hop : Hop, hop.name < s.shared.nextHop →
      hop.name ∈ (es ++ sent a b s (t, i)).map Hop.name → hop.name ∈ es.map Hop.name := by
    intro hop hlt hmem
    rw [List.map_append, List.mem_append] at hmem
    refine hmem.resolve_right fun hmem => ?_
    obtain ⟨hop', hh, hname⟩ := List.mem_map.mp hmem
    rw [← hname, (hnew hop' hh).1] at hlt
    exact lt_irrefl _ hlt
  have hfollows : ∀ hop, Follows es (es' ++ taken b s (t, i) ++
      ((Machine.step s (t, i)).shared.mailboxes b).queue.inner) hop →
      Follows (es ++ sent a b s (t, i)) (es' ++ taken b s (t, i) ++
        ((Machine.step s (t, i)).shared.mailboxes b).queue.inner) hop := by
    intro hop hf
    unfold Follows
    rw [hamong]
    exact hf.trans (List.sublist_append_left _ _)
  have ho := h.owned.step (t, i)
  refine ⟨ho, h.homed.step _, ?_, ?_, ?_, fun hop hh => (hknown hop hh).trans_le hle, ?_,
    fun g hg hop hhop => ?_, fun id w hw => ?_⟩
  · rcases step_mailbox s t i b with he | ⟨f, rest, op, hs, hw, he⟩
    · exact he ▸ h.wakeful
    · exact he ▸ h.wakeful.after op (writes_allowed h.owned h.homed (mem_frames_of_cons hs) hw)
  · rcases sent_cases a b s t i with he | ⟨_, _, _, hop, -, -, -, -, he⟩
    · simpa [he] using h.named
    · have hname := (hnew hop (he ▸ List.mem_singleton_self hop)).1
      rw [he, List.map_append, List.map_singleton, List.nodup_append]
      refine ⟨h.named, List.nodup_singleton _, ?_⟩
      rintro n hn m hm rfl
      obtain ⟨hop', hh, rfl⟩ := List.mem_map.mp hn
      have hlt := h.issued hop' hh
      rw [List.mem_singleton.mp hm, hname] at hlt
      exact lt_irrefl _ hlt
  · intro hop hh
    rcases List.mem_append.mp hh with hh | hh
    · exact (h.issued hop hh).trans_le hle
    · obtain ⟨hname, hlt⟩ := hnew hop hh
      rwa [hname]
  · rw [hamong]
    exact (h.ordered_step t i).trans (List.sublist_append_left _ _)
  · have hway : g.Sends a b → a ∈ g.boxes := by
      intro hsends
      cases g with
      | send stage flow out => exact hsends.1 ▸ Multiset.mem_singleton_self _
      | _ => exact hsends.elim
    have hbefore : ∀ f ∈ s.frames, f.hop = some hop → (f.Sends a b → g.Sends a b) →
        hop.name < (Machine.step s (t, i)).shared.nextHop ∧
          (hop.name ∈ (es ++ sent a b s (t, i)).map Hop.name → g.Sends a b ∧
            Follows (es ++ sent a b s (t, i)) (es' ++ taken b s (t, i) ++
              ((Machine.step s (t, i)).shared.mailboxes b).queue.inner) hop) := by
      intro f hf hfhop hkeep
      obtain ⟨hlt, hsent⟩ := h.frames f hf hop hfhop
      refine ⟨hlt.trans_le hle, fun hmem => ?_⟩
      obtain ⟨hsends, hf⟩ := hsent (hold hop hlt hmem)
      have hsome : g.hop ≠ none := by
        rw [hhop]
        nofun
      have hf' := h.follows_step hf (.inl ⟨g, hg, hway (hkeep hsends), hsome⟩)
      exact ⟨hkeep hsends, hfollows hop hf'⟩
    rcases hop_of_step hg hhop with hg' | ⟨f, rest, hs, hfhop, hkeep⟩ | ⟨hname, hnext, hsends⟩
    · exact hbefore g (mem_frames_of_others hg') hhop id
    · exact hbefore f (mem_frames_of_cons hs) hfhop (hkeep a b)
    · refine ⟨by omega, fun hmem => ?_⟩
      obtain ⟨hop', hh, hname'⟩ := List.mem_map.mp hmem
      rcases List.mem_append.mp hh with hh | hh
      · have hlt := h.issued hop' hh
        omega
      · obtain ⟨rfl, hs⟩ := hsends a b hop' hh
        refine ⟨hs, ?_⟩
        unfold Follows
        rw [hamong]
        exact (h.ordered_step t i).append (List.singleton_sublist.mpr hh)
  · have hbefore : w.message.name < s.shared.nextHop →
        (w.message.name ∈ es.map Hop.name → w.flow.id = a ∧ id = b ∧
          Follows es (es' ++ (s.shared.mailboxes b).queue.inner) w.message) →
        w.message.name < (Machine.step s (t, i)).shared.nextHop ∧
          (w.message.name ∈ (es ++ sent a b s (t, i)).map Hop.name → w.flow.id = a ∧ id = b ∧
            Follows (es ++ sent a b s (t, i)) (es' ++ taken b s (t, i) ++
              ((Machine.step s (t, i)).shared.mailboxes b).queue.inner) w.message) := by
      intro hlt hsent
      refine ⟨hlt.trans_le hle, fun hmem => ?_⟩
      obtain ⟨hid, hb, hf⟩ := hsent (hold _ hlt hmem)
      exact ⟨hid, hb, hfollows _ (h.follows_step hf (.inr ⟨id, w, hw, hid⟩))⟩
    rcases step_mailbox s t i id with he | ⟨f, rest, op, hs, hop, he⟩
    · obtain ⟨hlt, hsent⟩ := h.waiting id w (he ▸ hw)
      exact hbefore hlt hsent
    · rcases Mailbox.mem_waitingSenders_after (he ▸ hw) with hw' | ⟨rfl, -⟩
      · obtain ⟨hlt, hsent⟩ := h.waiting id w hw'
        exact hbefore hlt hsent
      · obtain ⟨out, rfl, rfl, hout⟩ := hop.of_parkSender
        obtain ⟨hlt, hsent⟩ := h.frames _ (mem_frames_of_cons hs) w.message (congrArg some hout)
        refine hbefore hlt fun hmem => ?_
        obtain ⟨⟨hid, hb⟩, hf⟩ := hsent hmem
        exact ⟨hid, hb, hf⟩

end InOrder

/-- **Pairwise order.** In every run under every policy, the hops from flow `a` that flow `b` takes
with a plain `Receive` are taken in the order in which they were sent, and none twice. -/
theorem pairwise_fifo (config : MailboxConfig) (sched : List (ℕ × Input)) (a b : FlowId) :
    let sentHops := Schedule.trace step (sent a b) (State.init config) sched
    let takenHops := Schedule.trace step (taken b) (State.init config) sched
    (takenHops.filter fun h => h.name ∈ sentHops.map Hop.name).Sublist sentHops ∧
      (sentHops.map Hop.name).Nodup := by
  have hinv : InOrder a b (run config sched)
      (Schedule.trace step (sent a b) (State.init config) sched)
      (Schedule.trace step (taken b) (State.init config) sched) :=
    Schedule.trace_invariant (fun _ i _ _ h => h.step i) (inOrder_init a b config) sched
  refine ⟨List.Sublist.trans ?_ hinv.ordered, hinv.named⟩
  exact among_sublist (List.sublist_append_left _ _) _

/-- Flow 1 takes a hop of flow 2 that was queued, one that waited, and one that is handed to it. -/
def threeRoutes : List (ℕ × Input) :=
  sendTwice ++
    [(1, .start (.work 0)), (1, .pick 0), (1, .vm (.receive 0 none none none)), (1, .pick 0),
      (1, .pick 0), (1, .pick 0), (1, .pick 0), (1, .vm (.receive 0 none none none)), (1, .pick 0),
      (1, .pick 0), (1, .vm (.receive 0 none none none)), (1, .pick 0), (1, .pick 0)] ++
    (sendTo .unit).drop 4

example : (Schedule.trace step (taken 1) (State.init smallest) threeRoutes).map Hop.name =
    [0, 1, 2] := by
  decide +kernel

end Machine

end Byteflow
