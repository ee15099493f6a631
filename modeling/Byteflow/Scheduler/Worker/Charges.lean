import Byteflow.Foundations.Ledger
import Byteflow.Scheduler.Mailbox.Admission
import Byteflow.Scheduler.Machine.Carried
import Byteflow.Scheduler.Worker.Owned
import Byteflow.Scheduler.Worker.Quantum
import Byteflow.Vm.StdNatives

/-!
# What a hop costs

A flow pays for its hop before the hop is delivered, and gets the bytes back when the mailbox takes
the hop, or when the target is gone. Until then the flow is in the hands of the thread that sends,
so what it owes is what one hop costs, or nothing (`charges_returned`). A hop that finds its mailbox
full waits with its sender, and whoever admits it later gives nothing back (`charge_kept`).
-/

namespace Byteflow

namespace Mailbox

variable {H : Type} [HopView H]

/-- Without room for a hop, the policy drops one. -/
def Drops (m : Mailbox H) (h : H) : Prop :=
  match m.config.overflow with
  | .reject => False
  | .dropNewest => True
  | .dropOldest => (m.queue.slid h).wouldExceedBytes (MailboxQueue.cost h) = false

instance (m : Mailbox H) (h : H) : Decidable (m.Drops h) :=
  match hp : m.config.overflow with
  | .reject => .isFalse (by simp [Drops, hp])
  | .dropNewest => .isTrue (by simp [Drops, hp])
  | .dropOldest =>
    decidable_of_iff ((m.queue.slid h).wouldExceedBytes (MailboxQueue.cost h) = false)
      (by simp only [Drops, hp])

/-- The mailbox takes the hop at once, or its policy drops one. -/
def Takes (m : Mailbox H) (h : H) : Prop := m.Acceptable h ∨ m.Drops h

instance (m : Mailbox H) (h : H) : Decidable (m.Takes h) :=
  inferInstanceAs (Decidable (_ ∨ _))

theorem enqueue_ok_iff (m : Mailbox H) (h : H) :
    (∃ effect, (m.queue.enqueue h m.config.overflow).2 = .ok effect) ↔
      m.queue.HasRoom h ∨ m.Drops h := by
  by_cases hroom : m.queue.HasRoom h
  · obtain ⟨capacity, he⟩ := MailboxQueue.enqueue_of_room hroom m.config.overflow
    exact ⟨fun _ => .inl hroom, fun _ => ⟨.enqueued, by rw [he]⟩⟩
  · rw [MailboxQueue.enqueue_of_no_room hroom]
    unfold Drops
    cases m.config.overflow with
    | reject => simp [hroom]
    | dropNewest => simp
    | dropOldest =>
      rw [MailboxQueue.slide_eq]
      split_ifs with hbytes <;> simp [hroom, hbytes]

/-- Otherwise the push is refused. -/
theorem takes_iff (m : Mailbox H) (h : H) :
    m.Takes h ↔ ∃ delivery, (m.push h).2 = .ok delivery := by
  unfold Takes Acceptable
  rcases m.push_cases h with ⟨flow, hp, haccepts, he⟩ | ⟨hnone, he⟩
  · rw [he]
    exact ⟨fun _ => ⟨_, rfl⟩, fun _ => .inl (.inr ⟨flow, hp, haccepts⟩)⟩
  · have hreceiver : ¬∃ receiver, m.parked = some receiver ∧ m.parkedFilter.accepts h = true := by
      rintro ⟨receiver, hp, haccepts⟩
      rw [hnone receiver hp] at haccepts
      cases haccepts
    rw [he, enqueueLocked_result, or_iff_left hreceiver, ← enqueue_ok_iff]
    cases (m.queue.enqueue h m.config.overflow).2 with
    | ok effect => cases effect <;> simp
    | error reason => simp

end Mailbox

namespace Machine

/-! ## Hops on the way to a mailbox -/

/-- The sender of a hop that a frame is to deliver, and what the hop costs. -/
def Frame.sending : Frame → Option (FlowId × ℕ)
  | .send _ flow out => some (flow.id, out.hop.value.memorySize)
  | _ => none

/-- The hop that a frame pushes to its mailbox. -/
def Frame.pushes : Frame → Option Outgoing
  | .send .push _ out => some out
  | _ => none

/-- The hop was not refused. -/
def Frame.Early : Frame → Prop
  | .send stage _ _ => stage = .lookup ∨ stage = .push
  | _ => True

theorem Frame.Plain.sending {g : Frame} (h : g.Plain) : g.sending = none := by
  cases g <;> first | rfl | exact h.elim

theorem Frame.mem_boxes_of_sending {g : Frame} {id : FlowId} {n : ℕ}
    (h : g.sending = some (id, n)) : id ∈ g.boxes := by
  cases g <;> cases h
  exact Multiset.mem_singleton_self _

end Machine

namespace Worker

open Function (update)

variable {c : Config} {s s' : State} {hands hands' : ℕ → Hand} {entries : List (FlowId × ℤ)}
  {t : ℕ} {id : FlowId}

/-- The hop of a `Send` or an `Ask` that a step pushes to its mailbox. -/
def pushed (s : State) : ℕ × Input → Option Machine.Outgoing
  | (t, .machine ..) => (s.top t).bind Machine.Frame.pushes
  | _ => none

/-- The mailbox takes the hop that a step pushes. -/
def Taken (s : State) (ti : ℕ × Input) : Prop :=
  ∀ out ∈ pushed s ti, (s.machine.shared.mailboxes out.target).Takes out.hop

instance (s : State) (ti : ℕ × Input) : Decidable (Taken s ti) :=
  inferInstanceAs (Decidable (∀ out ∈ pushed s ti, _))

theorem takes_of_taken {input : Machine.Input} {env : Env} (h : Taken s (t, .machine input env))
    (flow : Flow Hop) (out : Machine.Outgoing) (rest : List Machine.Frame)
    (hs : s.machine.threads t = .send .push flow out :: rest) :
    (s.machine.shared.mailboxes out.target).Takes out.hop :=
  h out (Option.bind_eq_some_iff.mpr ⟨_, State.top_of_cons hs, rfl⟩)

/-- A hop that a thread is to deliver after its step: it was to be delivered before by a frame that
did not act, or by one that did and gave no bytes back, or it is issued. -/
theorem sending_step {input : Machine.Input} {g : Machine.Frame} {n : ℕ}
    (hg : g ∈ (Machine.step s.machine (t, input)).frames) (hn : g.sending = some (id, n)) :
    g ∈ s.machine.others t ∨
      (∃ f rest, s.machine.threads t = f :: rest ∧ f.sending = some (id, n) ∧
        refunds s.machine.shared f = none) ∨
      ∃ flow rest vm target hop, s.machine.threads t = .run flow :: rest ∧ input = .vm vm ∧
        flow.id = id ∧ vm.hop? flow.id s.machine.shared.nextHop = some (target, hop) ∧
        hop.value.memorySize = n := by
  rcases Machine.frames_of_step hg with hg | hg
  · exact .inl hg
  refine .inr ?_
  rcases Machine.next_cases s.machine t input with ⟨f, rest, hs, he⟩ | ⟨hs, ⟨op, -, he⟩ | he⟩
  · rw [he] at hg
    have hkeep (hf : f.sending = some (id, n)) (hr : refunds s.machine.shared f = none) :
        ∃ f rest, s.machine.threads t = f :: rest ∧ f.sending = some (id, n) ∧
          refunds s.machine.shared f = none := ⟨f, rest, hs, hf, hr⟩
    cases Machine.leads hg with
    | plain hplain =>
      rw [hplain.sending] at hn
      cases hn
    | @runSend flow flow' out hid hname =>
      refine .inr ?_
      cases input with
      | vm vm =>
        obtain ⟨-, hhop⟩ := Machine.hop?_of_effect hg
        cases hn
        exact ⟨flow, rest, vm, _, _, hs, rfl, hid.symm, hhop, rfl⟩
      | _ => cases List.mem_singleton.mp hg
    | sendPush hlive =>
      refine .inl (hkeep hn ?_)
      simp only [refunds, hlive, if_true]
    | pushRefused hr =>
      refine .inl (hkeep hn ?_)
      simp only [refunds, hr]
    | sendIndex => exact .inl (hkeep hn rfl)
    | sendTarget hlive => exact .inl (hkeep hn rfl)
    | sendGone hlive => exact .inl (hkeep hn rfl)
    | parkClosed hc => exact .inl (hkeep hn rfl)
    | _ => cases hn
  · rw [he] at hg
    cases Machine.starts hg with
    | plain hplain =>
      rw [hplain.sending] at hn
      cases hn
    | _ => cases hn
  · rw [he] at hg
    cases hg

/-- As long as no push is refused. -/
theorem early_step {input : Machine.Input}
    (htaken : ∀ flow out rest, s.machine.threads t = .send .push flow out :: rest →
      (s.machine.shared.mailboxes out.target).Takes out.hop)
    (hearly : ∀ g ∈ s.machine.frames, g.Early) {g : Machine.Frame}
    (hg : g ∈ (Machine.step s.machine (t, input)).frames) : g.Early := by
  rcases Machine.frames_of_step hg with hg | hg
  · exact hearly g (Machine.mem_frames_of_others hg)
  rcases Machine.next_cases s.machine t input with ⟨f, rest, hs, he⟩ | ⟨hs, ⟨op, -, he⟩ | he⟩
  · rw [he] at hg
    have hf := hearly f (Machine.mem_frames_of_cons hs)
    cases Machine.leads hg with
    | plain hplain => cases g <;> trivial
    | runSend hid hname => exact .inl rfl
    | sendPush hlive => exact .inr rfl
    | @pushRefused flow out reason hr =>
      obtain ⟨delivery, hok⟩ := (Mailbox.takes_iff _ _).mp (htaken flow out rest hs)
      rw [hr] at hok
      cases hok
    | sendIndex => rcases hf with hf | hf <;> cases hf
    | sendTarget hlive => rcases hf with hf | hf <;> cases hf
    | sendGone hlive => rcases hf with hf | hf <;> cases hf
    | parkClosed hc => rcases hf with hf | hf <;> cases hf
    | _ => trivial
  · rw [he] at hg
    cases Machine.starts hg with
    | plain hplain => cases g <;> trivial
    | _ => trivial
  · rw [he] at hg
    cases hg

/-! ## Charges -/

/-- What an operation charges a flow for a hop, or gives back. -/
def charged (s : State) : Op → List (FlowId × ℤ)
  | .alloc flow bytes =>
    match (s.processes flow).quota.alloc bytes with
    | .ok _ => [(flow, bytes)]
    | .error _ => []
  | .free flow bytes => [(flow, -bytes)]
  | _ => []

/-- What a step charges a flow for a hop, or gives back. -/
def charges (s : State) : ℕ × Input → List (FlowId × ℤ)
  | (t, .code _) => (s.modes t).op.elim [] (charged s)
  | (t, .machine ..) =>
    match s.modes t with
    | .idle => (((s.top t).bind (refunds s.machine.shared)).map fun r => (r.1, -(r.2 : ℤ))).toList
    | _ => []
  | _ => []

/-- What a flow has paid for a hop that is not delivered yet. -/
inductive Owes (s : State) (hands : ℕ → Hand) (id : FlowId) : ℤ → Prop
  | driven {t : ℕ} (hrun : s.driven t = some id) : Owes s hands id (hands t).paid
  | sending {g : Machine.Frame} {n : ℕ} (hg : g ∈ s.machine.frames)
      (hsend : g.sending = some (id, n)) : Owes s hands id n
  | none (hrun : ∀ t, s.driven t ≠ some id)
      (hsend : ∀ g ∈ s.machine.frames, ∀ n, g.sending ≠ some (id, n)) : Owes s hands id 0

/-- The books are right, and no hop was refused. -/
structure Paid (s : State) (hands : ℕ → Hand) (entries : List (FlowId × ℤ)) : Prop where
  owes : ∀ id, Owes s hands id (Ledger.total entries id)
  early : ∀ g ∈ s.machine.frames, g.Early

namespace Paid

/-- Nobody pays. -/
theorem congr (h : Paid s hands entries) (hthreads : s'.machine.threads = s.machine.threads)
    (hpaid : ∀ r id, s.driven r = some id → (hands' r).paid = (hands r).paid) :
    Paid s' hands' entries := by
  have hframes : s'.machine.frames = s.machine.frames := by
    unfold Machine.State.frames
    rw [hthreads]
  have hdriven (r : ℕ) : s'.driven r = s.driven r := State.driven_congr (by rw [hthreads])
  refine ⟨fun id => ?_, by rw [hframes]; exact h.early⟩
  have howes := h.owes id
  generalize Ledger.total entries id = n at howes
  cases howes with
  | driven hrun =>
    rw [← hpaid _ id hrun]
    exact .driven ((hdriven _).trans hrun)
  | sending hg hsend => exact .sending (hframes ▸ hg) hsend
  | none hrun hsend =>
    exact .none (fun r hr => hrun r ((hdriven r).symm.trans hr)) fun g hg => hsend g (hframes ▸ hg)

end Paid

/-- A flow that is driven is in the hands of no other frame. -/
theorem not_sending_of_driven (hh : Handled c s hands) (hrun : s.driven t = some id)
    {g : Machine.Frame} (hg : g ∈ s.machine.frames) (n : ℕ) : g.sending ≠ some (id, n) := by
  intro hn
  obtain ⟨flow, rest, hs, hid⟩ := State.driven_eq_some.mp hrun
  have heq := hh.owned.frame_unique hg (Machine.mem_frames_of_cons hs)
    (Machine.Frame.mem_boxes_of_sending hn) (Multiset.mem_singleton.mpr hid.symm)
  rw [heq] at hn
  cases hn

theorem sending_of_refunds {σ : Machine.Shared} {f : Machine.Frame} {n : ℕ}
    (h : refunds σ f = some (id, n)) : f.sending = some (id, n) := by
  unfold refunds at h
  split at h
  · split_ifs at h
    exact h
  · split at h
    · exact h
    · cases h
  · cases h

/-- The step gives the flow nothing back. -/
theorem total_charges {input : Machine.Input} {env : Env}
    (h : ∀ f rest n, s.machine.threads t = f :: rest → f.sending ≠ some (id, n)) :
    Ledger.total (charges s (t, .machine input env)) id = 0 := by
  refine Ledger.total_eq_zero fun e he hid => ?_
  unfold charges at he
  dsimp only at he
  split at he
  · obtain ⟨r, hr, rfl⟩ := Option.map_eq_some_iff.mp (Option.mem_toList.mp he)
    obtain ⟨f, htop, hrefunds⟩ := Option.bind_eq_some_iff.mp hr
    obtain ⟨rest, hs⟩ := State.cons_of_top htop
    obtain rfl : r.1 = id := hid
    exact h f rest r.2 hs (sending_of_refunds hrefunds)
  · cases he

theorem charges_of_refunds {input : Machine.Input} {env : Env} (hmode : s.modes t = .idle)
    {f : Machine.Frame} {rest : List Machine.Frame} (hs : s.machine.threads t = f :: rest) :
    charges s (t, .machine input env) =
      ((refunds s.machine.shared f).map fun r => (r.1, -(r.2 : ℤ))).toList := by
  simp only [charges, hmode, State.top_of_cons hs, Option.bind_some]

/-- A hop is delivered, or its target is gone; or it is on its way to the mailbox. -/
theorem refunds_or_sends
    (htaken : ∀ flow out rest, s.machine.threads t = .send .push flow out :: rest →
      (s.machine.shared.mailboxes out.target).Takes out.hop)
    {f : Machine.Frame} {rest : List Machine.Frame} (hs : s.machine.threads t = f :: rest)
    (hearly : f.Early) {n : ℕ} (hn : f.sending = some (id, n)) (input : Machine.Input) :
    refunds s.machine.shared f = some (id, n) ∨
      refunds s.machine.shared f = none ∧
        ∃ g ∈ (Machine.step s.machine (t, input)).frames, g.sending = some (id, n) := by
  cases f with
  | send stage flow out =>
    cases hn
    rcases hearly with rfl | rfl
    · cases hlive : s.machine.shared.directory out.target with
      | false => exact .inl (by simp [refunds, hlive])
      | true =>
        refine .inr ⟨by simp [refunds, hlive], .send .push flow out, ?_, rfl⟩
        refine Machine.mem_frames_of_next hs ?_
        simp [Machine.Frame.next, Machine.SendStage.next, Machine.Shared.exec, hlive]
    · obtain ⟨delivery, hok⟩ := (Mailbox.takes_iff _ _).mp (htaken flow out rest hs)
      exact .inl (by simp only [refunds, hok])
  | _ => cases hn

/-- The machine goes on for a thread in no program. -/
theorem Paid.advance (h : Paid s hands entries) (hh : Handled c s hands) (hmode : s.modes t = .idle)
    (hrun : s.driven t = none) (input : Machine.Input) (env : Env)
    (htaken : Taken s (t, .machine input env)) :
    Paid (s.advance t input env) hands (entries ++ charges s (t, .machine input env)) := by
  have hhand : hands t = .empty := by
    have hfits := hh.fits t
    rwa [hmode] at hfits
  have hdriven {r : ℕ} (hr : r ≠ t) : (s.advance t input env).driven r = s.driven r :=
    State.driven_congr (Machine.step_threads_of_ne s.machine input hr)
  refine ⟨fun id => ?_, fun g hg => early_step (takes_of_taken htaken) h.early hg⟩
  -- a flow of which no hop is on its way any more owes nothing
  have hnothing (hothers : ∀ r, r ≠ t → s.driven r ≠ some id)
      (hsend : ∀ g ∈ (s.advance t input env).machine.frames, ∀ n, g.sending ≠ some (id, n)) :
      Owes (s.advance t input env) hands id 0 := by
    by_cases ht : (s.advance t input env).driven t = some id
    · have howes : Owes (s.advance t input env) hands id (hands t).paid := .driven ht
      rwa [hhand] at howes
    · refine .none (fun r hr => ?_) hsend
      by_cases hrt : r = t
      · exact ht (hrt ▸ hr)
      · exact hothers r hrt (hdriven hrt ▸ hr)
  have hnorun {flow : Flow Hop} {rest : List Machine.Frame}
      (hs : s.machine.threads t = .run flow :: rest) : False := by
    rw [State.driven_of_top (State.top_of_cons hs)] at hrun
    cases hrun
  have howes := h.owes id
  rw [Ledger.total_append]
  by_cases htop : ∃ f rest n, s.machine.threads t = f :: rest ∧ f.sending = some (id, n)
  · obtain ⟨f, rest, n, hs, hn⟩ := htop
    have hf := Machine.mem_frames_of_cons hs
    have hbox := Machine.Frame.mem_boxes_of_sending hn
    have htotal : Ledger.total entries id = n := by
      generalize Ledger.total entries id = m at howes
      cases howes with
      | driven hr => exact absurd hn (not_sending_of_driven hh hr hf n)
      | sending hg hm =>
        have heq := hh.owned.frame_unique hg hf (Machine.Frame.mem_boxes_of_sending hm) hbox
        rw [heq, hn] at hm
        cases hm
        rfl
      | none hr hsend => exact absurd hn (hsend f hf n)
    rw [charges_of_refunds hmode hs, htotal]
    rcases refunds_or_sends (takes_of_taken htaken) hs (h.early f hf) hn input with
      hrefunds | ⟨hrefunds, g, hg, hgn⟩
    · rw [hrefunds]
      simp only [Option.map_some, Option.toList_some, Ledger.total_single_self, add_neg_cancel]
      refine hnothing (fun r _ hr => not_sending_of_driven hh hr hf n hn) fun g hg m hm => ?_
      rcases sending_step hg hm with hg | ⟨f', rest', hs', -, hnone⟩ | ⟨_, _, _, _, _, hs', -⟩
      · exact hh.owned.others_not_mem hs hg hbox (Machine.Frame.mem_boxes_of_sending hm)
      · rw [hs] at hs'
        cases hs'
        rw [hrefunds] at hnone
        cases hnone
      · exact hnorun hs'
    · rw [hrefunds]
      simp only [Option.map_none, Option.toList_none, Ledger.total_nil, add_zero]
      exact .sending hg hgn
  · have hnot (f : Machine.Frame) (rest : List Machine.Frame) (n : ℕ)
        (hs : s.machine.threads t = f :: rest) : f.sending ≠ some (id, n) :=
      fun hn => htop ⟨f, rest, n, hs, hn⟩
    rw [total_charges hnot, add_zero]
    generalize Ledger.total entries id = m at howes ⊢
    cases howes with
    | @driven r hr =>
      have hrt : r ≠ t := by
        rintro rfl
        rw [hrun] at hr
        cases hr
      exact .driven ((hdriven hrt).trans hr)
    | sending hg hm =>
      rcases Machine.top_or_others hg t with ⟨rest, hs⟩ | hg
      · exact absurd hm (hnot _ rest _ hs)
      · exact .sending (Machine.mem_frames_of_others_step hg input) hm
    | none hr hsend =>
      refine hnothing (fun r _ => hr r) fun g hg m hm => ?_
      rcases sending_step hg hm with hg | ⟨f', rest', hs', hm', -⟩ | ⟨_, _, _, _, _, hs', -⟩
      · exact hsend g (Machine.mem_frames_of_others hg) m hm
      · exact hnot f' rest' m hs' hm'
      · exact hnorun hs'

theorem goOn_threads (s : State) (t : ℕ) (env : Env) (destReg : Option UInt8)
    (vm : Machine.VmResult) :
    (s.goOn t env destReg vm).machine = Machine.step s.machine (t, .vm vm) :=
  goOn_induct (P := fun s' => s'.machine = Machine.step s.machine (t, .vm vm)) rfl
    fun _ _ _ _ h => h

/-- A `Send` or an `Ask` is on its way. -/
theorem sends_of_hop? {flow : Flow Hop} {rest : List Machine.Frame}
    (hs : s.machine.threads t = .run flow :: rest) {vm : Machine.VmResult} {target : FlowId}
    {hop : Hop} (hhop : vm.hop? flow.id s.machine.shared.nextHop = some (target, hop)) :
    ∃ g ∈ (Machine.step s.machine (t, .vm vm)).frames,
      g.sending = some (flow.id, hop.value.memorySize) := by
  cases vm with
  | send target' message replyCap =>
    cases hhop
    exact ⟨_, Machine.mem_frames_of_next hs List.mem_cons_self, rfl⟩
  | ask destReg target' request replyCap timeout =>
    cases hhop
    exact ⟨_, Machine.mem_frames_of_next hs List.mem_cons_self, rfl⟩
  | _ => cases hhop

/-- The machine goes on after an effect, which paid for the hop that it leads to. -/
theorem Paid.goOn (h : Paid s hands entries) (hh : Handled c s hands) (hrun : s.driven t = some id)
    {vm : Machine.VmResult}
    (hsome : ∀ target hop, vm.hop? id s.machine.shared.nextHop = some (target, hop) →
      (hands t).paid = hop.value.memorySize)
    (hnone : vm.hop? id s.machine.shared.nextHop = none → (hands t).paid = 0)
    (hmachine : s'.machine = Machine.step s.machine (t, .vm vm)) :
    Paid s' (update hands t .empty) entries := by
  obtain ⟨flow, rest, hs, rfl⟩ := State.driven_eq_some.mp hrun
  have hdriven {r : ℕ} (hr : r ≠ t) : s'.driven r = s.driven r :=
    State.driven_congr (by rw [hmachine]; exact Machine.step_threads_of_ne s.machine _ hr)
  have hframes : s'.machine.frames = (Machine.step s.machine (t, .vm vm)).frames := by
    rw [hmachine]
  refine ⟨fun id' => ?_, fun g hg => ?_⟩
  · have hnothing (hothers : ∀ r, r ≠ t → s.driven r ≠ some id')
        (hsend : ∀ g ∈ s'.machine.frames, ∀ n, g.sending ≠ some (id', n)) :
        Owes s' (update hands t .empty) id' 0 := by
      by_cases ht : s'.driven t = some id'
      · have howes : Owes s' (update hands t .empty) id' (update hands t .empty t).paid :=
          .driven ht
        rwa [Function.update_self] at howes
      · refine .none (fun r hr => ?_) hsend
        by_cases hrt : r = t
        · exact ht (hrt ▸ hr)
        · exact hothers r hrt (hdriven hrt ▸ hr)
    have hothers {g : Machine.Frame} (hg : g ∈ s.machine.others t) (n : ℕ) :
        g.sending ≠ some (flow.id, n) := fun hn =>
      hh.owned.others_not_mem hs hg (Multiset.mem_singleton_self _)
        (Machine.Frame.mem_boxes_of_sending hn)
    have howes := h.owes id'
    by_cases hid : id' = flow.id
    · subst hid
      have htotal : Ledger.total entries flow.id = (hands t).paid := by
        generalize Ledger.total entries flow.id = m at howes
        cases howes with
        | driven hr => rw [hh.driven_unique hr hrun]
        | sending hg hm => exact absurd hm (not_sending_of_driven hh hrun hg _)
        | none hr hsend => exact absurd hrun (hr t)
      rw [htotal]
      cases hhop : vm.hop? flow.id s.machine.shared.nextHop with
      | some r =>
        obtain ⟨g, hg, hn⟩ := sends_of_hop? hs hhop
        rw [hsome r.1 r.2 hhop]
        exact .sending (hframes ▸ hg) hn
      | none =>
        rw [hnone hhop]
        refine hnothing (fun r hrt hr => hrt (hh.driven_unique hr hrun)) fun g hg n hn => ?_
        rw [hframes] at hg
        rcases sending_step hg hn with
          hg | ⟨f, rest', hs', hf, -⟩ | ⟨_, _, _, _, _, hs', hi, hid, hhop', -⟩
        · exact hothers hg n hn
        · rw [hs] at hs'
          cases hs'
          cases hf
        · rw [hs] at hs'
          cases hs'
          cases hi
          rw [hhop] at hhop'
          cases hhop'
    · generalize Ledger.total entries id' = m at howes ⊢
      cases howes with
      | @driven r hr =>
        have hrt : r ≠ t := by
          rintro rfl
          exact hid (Option.some_inj.mp (hr.symm.trans hrun))
        have howes : Owes s' (update hands t .empty) id' (update hands t .empty r).paid :=
          .driven ((hdriven hrt).trans hr)
        rwa [Function.update_of_ne hrt] at howes
      | sending hg hm =>
        rcases Machine.top_or_others hg t with ⟨rest', hs'⟩ | hg
        · rw [hs] at hs'
          cases hs'
          cases hm
        · exact .sending (hframes ▸ Machine.mem_frames_of_others_step hg _) hm
      | none hr hsend =>
        refine hnothing (fun r _ => hr r) fun g hg n hn => ?_
        rw [hframes] at hg
        rcases sending_step hg hn with
          hg | ⟨f, rest', hs', hf, -⟩ | ⟨_, _, _, _, _, hs', -, hid', -⟩
        · exact hsend g (Machine.mem_frames_of_others hg) n hn
        · rw [hs] at hs'
          cases hs'
          cases hf
        · rw [hs] at hs'
          cases hs'
          exact hid hid'.symm
  · rw [hframes] at hg
    refine early_step (fun flow' out rest' hs' => ?_) h.early hg
    rw [hs] at hs'
    cases hs'

/-- Only the flow that is driven is charged. -/
theorem charged_self {h : Hand} {self : Option FlowId} {op : Op} (hop : h.Allows c self op) :
    ∀ e ∈ charged s op, self = some e.1 := by
  intro e he
  cases op with
  | alloc flow bytes =>
    simp only [charged] at he
    split at he
    · rw [List.mem_singleton.mp he]
      exact hop.1
    · cases he
  | free flow bytes =>
    rw [List.mem_singleton.mp he]
    exact hop.1
  | _ => cases he

theorem paid_next {h : Hand} (env : Env) {op : Op} (hop : h.Allows c (some id) op) :
    h.paid + Ledger.total (charged s op) id = (h.next op (s.exec env op).2).paid := by
  cases op with
  | alloc flow bytes =>
    obtain ⟨hid, hpaid⟩ := hop
    cases hid
    simp only [charged, State.exec]
    cases (s.processes id).quota.alloc bytes with
    | ok quota => simp [Hand.next, hpaid]
    | error e => simp [Hand.next]
  | free flow bytes =>
    obtain ⟨hid, hpaid⟩ := hop
    cases hid
    simp [charged, Hand.next, hpaid]
  | tables op => cases op <;> exact add_zero _
  | _ => exact add_zero _

/-- An operation is paid by the flow that is driven. -/
theorem Paid.exec (h : Paid s hands entries) (hh : Handled c s hands) {env : Env} {op : Op}
    (hop : (hands t).Allows c (s.driven t) op) :
    Paid (s.exec env op).1 (update hands t ((hands t).next op (s.exec env op).2))
      (entries ++ charged s op) := by
  obtain ⟨hthreads, -, -, -⟩ := exec_frame s env op
  have hframes : (s.exec env op).1.machine.frames = s.machine.frames := by
    unfold Machine.State.frames
    rw [hthreads]
  have hdriven (r : ℕ) : (s.exec env op).1.driven r = s.driven r :=
    State.driven_congr (by rw [hthreads])
  have hself := charged_self (s := s) hop
  refine ⟨fun id => ?_, by rw [hframes]; exact h.early⟩
  have howes := h.owes id
  rw [Ledger.total_append]
  by_cases ht : s.driven t = some id
  · have htotal : Ledger.total entries id = (hands t).paid := by
      generalize Ledger.total entries id = m at howes
      cases howes with
      | driven hr => rw [hh.driven_unique hr ht]
      | sending hg hm => exact absurd hm (not_sending_of_driven hh ht hg _)
      | none hr hsend => exact absurd ht (hr t)
    rw [ht] at hop
    rw [htotal, paid_next env hop]
    have howes : Owes (s.exec env op).1
        (update hands t ((hands t).next op (s.exec env op).2)) id _ :=
          .driven ((hdriven t).trans ht)
    rwa [Function.update_self] at howes
  · rw [Ledger.total_eq_zero fun e he hid => ht ((hself e he).trans (congrArg _ hid)),
      add_zero]
    generalize Ledger.total entries id = m at howes ⊢
    cases howes with
    | @driven r hr =>
      have hrt : r ≠ t := fun he => ht (he ▸ hr)
      have howes : Owes (s.exec env op).1
          (update hands t ((hands t).next op (s.exec env op).2)) id _ :=
        .driven ((hdriven r).trans hr)
      rwa [Function.update_of_ne hrt] at howes
    | sending hg hm => exact .sending (hframes ▸ hg) hm
    | none hr hsend =>
      exact .none (fun r hr' => hr r ((hdriven r).symm.trans hr'))
        fun g hg => hsend g (hframes ▸ hg)

/-! ## The bytes of a hop -/

/-- A payload in transit keeps its size. -/
theorem State.Passed.heapSize {sender : Option FlowId} {recipient : FlowId} {v w : Value}
    (h : s.Passed sender recipient v w) : w.heapSize = v.heapSize := by
  induction v generalizing w with
  | cap id =>
    rcases h with ⟨-, rfl⟩ | ⟨id', rfl, -⟩ <;> rfl
  | message a r q t payload ih =>
    obtain ⟨payload', rfl, hp⟩ := h
    exact congrArg (sizeOfValue + ·) (ih hp)
  | _ => rw [show w = _ from h]

theorem memorySize_of_ready {sender : Option FlowId} {target : FlowId} {m m' : Message} {v : Value}
    (hm : v.asMessage = some m) (h : s.Ready sender target m m') (id : FlowId) (reply : CapId) :
    (m'.authenticate id reply).toValue.memorySize = v.memorySize := by
  rw [← toValue_of_asMessage hm]
  exact congrArg (fun n => sizeOfValue + (sizeOfValue + n)) h.payload.heapSize

/-- What an effect has paid is what the hop that it leads to costs. -/
theorem cost_of_answers {strict : Prop} {result : VmResult} {destReg : Option UInt8}
    {vm : Machine.VmResult} (h : Answers strict id s result (.effect destReg vm)) (n : ℕ) :
    (∀ target hop, vm.hop? id n = some (target, hop) →
      cost result (.effect destReg vm) = hop.value.memorySize) ∧
    (vm.hop? id n = none → cost result (.effect destReg vm) = 0) := by
  cases h with
  | send hm hcap hready hreply =>
    refine ⟨fun target hop hhop => ?_, nofun⟩
    cases hhop
    exact (memorySize_of_ready hm hready _ _).symm
  | ask destReg timeout hm hcap hready hreply =>
    refine ⟨fun target hop hhop => ?_, nofun⟩
    cases hhop
    exact (memorySize_of_ready hm hready _ _).symm
  | trap message => exact ⟨nofun, fun _ => by cases result <;> rfl⟩
  | _ => exact ⟨nofun, fun _ => rfl⟩

/-! ## Runs -/

theorem charges_stay (hh : Handled c s hands) {ti : ℕ × Input}
    (hcode : ∀ env, ti.2 = .code env →
      (s.driven ti.1 = none ↔ ∀ call p, s.modes ti.1 ≠ .call call p))
    (hmachine : ∀ input env, ti.2 = .machine input env → s.modes ti.1 = .idle →
      (∃ flow, s.top ti.1 = some (.run flow)) ∨ s.top ti.1 = none) : charges s ti = [] := by
  obtain ⟨t, input⟩ := ti
  cases input with
  | code env =>
    simp only [charges, hh.op_none_of_stay (hcode env rfl), Option.elim]
  | machine input env =>
    cases hmode : s.modes t with
    | idle =>
      rcases hmachine input env rfl hmode with ⟨flow, htop⟩ | htop
      · have htop : s.top t = some (.run flow) := htop
        simp [charges, hmode, htop, refunds]
      · have htop : s.top t = none := htop
        simp [charges, hmode, htop]
    | _ => simp only [charges, hmode]
  | call call => rfl

theorem cost_resume (result : VmResult) (destReg : UInt8) (value : Value) :
    cost result (.resume destReg value) = 0 := by cases result <;> rfl

theorem cost_call (result : VmResult) (frames : List Machine.Frame) :
    cost result (.call frames) = 0 := by cases result <;> rfl

/-- What the program of an effect has paid when it ends. -/
theorem Handled.paid (hh : Handled c s hands) {result : VmResult} {outcome : Outcome}
    (hmode : s.modes t = .effect result (.ret outcome)) : (hands t).paid = cost result outcome := by
  have hfits := hh.fits t
  rw [hmode] at hfits
  obtain ⟨_, _, hcarries⟩ := hfits
  exact hcarries

/-- A thread whose hand is worth nothing empties it. -/
theorem Paid.empties (h : Paid s hands entries) (hthreads : s'.machine.threads = s.machine.threads)
    (hpaid : ∀ id, s.driven t = some id → (hands t).paid = 0) :
    Paid s' (update hands t .empty) entries := by
  refine h.congr hthreads fun r id hr => ?_
  by_cases hrt : r = t
  · rw [hrt] at hr ⊢
    rw [Function.update_self, hpaid id hr]
    rfl
  · rw [Function.update_of_ne hrt]

/-- A call goes on in the machine. -/
theorem Paid.enter (h : Paid s hands entries) (htop : s.top t = none)
    {frames : List Machine.Frame} (hframes : ∀ f ∈ frames, f.sending = none ∧ f.Early)
    (hboxes : Machine.stackBoxes frames = 0) :
    Paid (s.enter t frames) (update hands t .empty) entries := by
  have hthread (r : ℕ) (hr : r ≠ t) :
      (s.enter t frames).machine.threads r = s.machine.threads r := Function.update_of_ne hr ..
  have hdriven (r : ℕ) (hr : r ≠ t) : (s.enter t frames).driven r = s.driven r :=
    State.driven_congr (hthread r hr)
  have hnone : s.driven t = none := by
    unfold State.driven
    rw [htop]
  have hrun (id : FlowId) : (s.enter t frames).driven t ≠ some id := by
    intro hrun
    obtain ⟨flow, rest, hs, -⟩ := State.driven_eq_some.mp hrun
    have hthreads : (s.enter t frames).machine.threads t = frames := Function.update_self ..
    have hs : frames = .run flow :: rest := hthreads.symm.trans hs
    rw [hs, Machine.stackBoxes, boxesOf_cons] at hboxes
    have hmem : flow.id ∈ Machine.Frame.boxes (.run flow) + boxesOf Machine.Frame.boxes rest :=
      Multiset.mem_add.mpr (.inl (Multiset.mem_singleton_self _))
    rw [hboxes] at hmem
    exact Multiset.notMem_zero _ hmem
  refine ⟨fun id => ?_, fun g hg => ?_⟩
  · have howes := h.owes id
    generalize Ledger.total entries id = m at howes
    cases howes with
    | @driven r hr =>
      have hrt : r ≠ t := by
        rintro rfl
        rw [hnone] at hr
        cases hr
      have howes : Owes (s.enter t frames) (update hands t .empty) id _ :=
        .driven ((hdriven r hrt).trans hr)
      rwa [Function.update_of_ne hrt] at howes
    | @sending g n hg hm =>
      obtain ⟨r, hg⟩ := hg
      have hrt : r ≠ t := by
        rintro rfl
        rw [State.nil_of_top htop] at hg
        cases hg
      exact .sending ⟨r, (hthread r hrt).symm ▸ hg⟩ hm
    | none hr hsend =>
      refine .none (fun r hr' => ?_) fun g hg n hn => ?_
      · by_cases hrt : r = t
        · exact hrun id (hrt ▸ hr')
        · exact hr r (hdriven r hrt ▸ hr')
      · rcases State.frames_of_enter hg with hg | hg
        · exact hsend g hg n hn
        · rw [(hframes g hg).1] at hn
          cases hn
  · rcases State.frames_of_enter hg with hg | hg
    · exact h.early g hg
    · exact (hframes g hg).2

theorem sending_of_replies {call : Call} {frames : List Machine.Frame}
    (h : Replies s call (.call frames)) : ∀ f ∈ frames, f.sending = none ∧ f.Early := by
  cases h with
  | done => exact List.forall_mem_nil _
  | _ => exact List.forall_mem_singleton.mpr ⟨rfl, trivial⟩

/-- **A step.** -/
theorem Paid.step (h : Paid s hands entries) (hh : Handled c s hands) (hr : Running c False s)
    (ti : ℕ × Input) (htaken : Taken s ti) :
    Paid (Worker.step c s ti) (handed s hands ti) (entries ++ charges s ti) := by
  have hstep := stepped c s ti
  have hgoing := hr.going
  generalize Worker.step c s ti = s' at hstep ⊢
  cases hstep with
  | stay ti hcode hmachine =>
    rw [hh.handed_stay hcode, charges_stay hh hcode hmachine, List.append_nil]
    exact h
  | advance t input env hmode hrun hstart => exact h.advance hh hmode hrun input env htaken
  | round t env id hrun hmode hbudget =>
    simp only [handed, charges, hmode, Mode.op, Option.elim, List.append_nil]
    exact h.congr rfl fun _ _ _ => rfl
  | fail t env id message hrun hfail =>
    have hmode : ∀ env, handed s hands (t, .code env) = hands ∧ charges s (t, .code env) = [] := by
      intro env
      rcases hfail with hmode | ⟨ran, result, e, hmode, -⟩ <;>
        exact ⟨by simp only [handed, hmode], by simp only [charges, hmode, Mode.op, Option.elim]⟩
    have hhand : hands t = .empty := by
      have hfits := hh.fits t
      rcases hfail with hmode | ⟨ran, result, e, hmode, -⟩ <;> rw [hmode] at hfits
      · exact hfits
      · exact hfits.2
    rw [(hmode env).1, (hmode env).2, List.append_nil]
    have hhop : (Machine.VmResult.trap message).hop? id s.machine.shared.nextHop = none := rfl
    have hgoOn : Paid ((s.setMode t .idle).goOn t env none (.trap message))
        (update hands t .empty) entries := by
      refine h.goOn hh hrun (fun target hop hsome => ?_) (fun _ => by rw [hhand]; rfl)
        (goOn_threads (s.setMode t .idle) t env none (.trap message))
      rw [hhop] at hsome
      cases hsome
    rwa [← hhand, Function.update_eq_self] at hgoOn
  | expire t env id ran hrun hmode =>
    simp only [handed, charges, hmode, Mode.op, Option.elim, List.append_nil]
    exact h.congr rfl fun _ _ _ => rfl
  | execute t env id ran left hrun hmode =>
    simp only [handed, charges, hmode, Mode.op, Option.elim, List.append_nil]
    refine h.congr ?_ fun _ _ _ => rfl
    unfold State.execute
    dsimp only
    split <;> rfl
  | account t env id ran result quota hrun hmode hquota =>
    simp only [handed, charges, hmode, Mode.op, Option.elim, List.append_nil]
    exact h.congr rfl fun _ _ _ => rfl
  | act t env id result op k hrun hmode =>
    have hfits := hh.fits t
    rw [hmode] at hfits
    obtain ⟨flow, htop, hcarries⟩ := hfits
    simp only [handed, charges, hmode, Mode.op, Option.elim]
    have hop := (Prog.carries_act.mp hcarries).1
    rw [← State.driven_of_top htop] at hop
    exact (h.exec hh hop).congr rfl fun _ _ _ => rfl
  | resume t env id result destReg value hrun hmode =>
    simp only [handed, charges, hmode, Mode.op, Option.elim, List.append_nil]
    exact h.empties rfl fun _ _ => (hh.paid hmode).trans (cost_resume ..)
  | goOn t env id result destReg vm hrun hmode =>
    have hanswer := hgoing t
    unfold Going at hanswer
    rw [hmode] at hanswer
    obtain ⟨hsome, hnone⟩ := cost_of_answers (hanswer id hrun).2 s.machine.shared.nextHop
    simp only [handed, charges, hmode, Mode.op, Option.elim, List.append_nil]
    exact h.goOn hh hrun (fun target hop hhop => (hh.paid hmode).trans (hsome target hop hhop))
      (fun hhop => (hh.paid hmode).trans (hnone hhop)) (goOn_threads (s.setMode t .idle) ..)
  | leave t env hmode =>
    rcases hmode with ⟨result, frames, hmode⟩ | ⟨call, outcome, hmode⟩ <;>
      simp only [handed, charges, hmode, Mode.op, Option.elim, List.append_nil]
    · exact h.empties rfl fun _ _ => (hh.paid hmode).trans (cost_call ..)
    · have hfits := hh.fits t
      rw [hmode] at hfits
      refine h.empties rfl fun id hrun => ?_
      unfold State.driven at hrun
      rw [hfits.1] at hrun
      cases hrun
  | begin t call hmode htop hcall =>
    show Paid _ hands (entries ++ [])
    rw [List.append_nil]
    exact h.congr rfl fun _ _ _ => rfl
  | serve t env call op k hrun hmode =>
    have hfits := hh.fits t
    rw [hmode] at hfits
    simp only [handed, charges, hmode, Mode.op, Option.elim]
    have hop := (Prog.carries_act.mp hfits.2).1
    rw [← hrun] at hop
    exact (h.exec hh hop).congr rfl fun _ _ _ => rfl
  | enter t env call frames hrun hmode =>
    have hfits := hh.fits t
    rw [hmode] at hfits
    have hreplies := hgoing t
    unfold Going at hreplies
    rw [hmode] at hreplies
    simp only [handed, charges, hmode, Mode.op, Option.elim, List.append_nil]
    exact h.enter hfits.1 (sending_of_replies hreplies) (Handled.boxes_of_replies hreplies)

theorem paid_init (c : Config) : Paid (State.init c) (fun _ => .empty) [] :=
  ⟨fun _ => .none (fun _ => nofun) fun _ hg => (by obtain ⟨t, hg⟩ := hg; cases hg),
    fun _ hg => by obtain ⟨t, hg⟩ := hg; cases hg⟩

/-- What a run charges the flows for their hops, and gives back. -/
def hopCharges (c : Config) (sched : List (ℕ × Input)) : List (FlowId × ℤ) :=
  Schedule.trace (step c) charges (State.init c) sched

theorem run_paid {sched : List (ℕ × Input)}
    (h : Schedule.Guarded (step c) Taken (State.init c) sched) :
    ∃ hands, Handled c (run c sched) hands ∧
      Paid (run c sched) hands (hopCharges c sched) := by
  have hrun : Running c False (run c sched) ∧ ∃ hands, Handled c (run c sched) hands ∧
      Paid (run c sched) hands (hopCharges c sched) := by
    refine h.trace_invariant (I := fun s entries => Running c False s ∧ ∃ hands,
      Handled c s hands ∧ Paid s hands entries) ?_
      ⟨running_init c False, fun _ => .empty, handled_init c, paid_init c⟩
    rintro s ti entries htaken ⟨hr, hands, hh, hp⟩
    exact ⟨hr.step ti False.elim, handed s hands ti, hh.step hr ti, hp.step hh hr ti htaken⟩
  exact hrun.2

/-- A `Send` or an `Ask` of the flow is not completed: it is being answered, or a thread has its hop
to deliver. -/
def State.Sends (s : State) (id : FlowId) : Prop :=
  (∃ t result p, s.driven t = some id ∧ s.modes t = .effect result p) ∨
    ∃ g ∈ s.machine.frames, ∃ n, g.sending = some (id, n)

/-- **Hop charges are returned** in a run in which the mailbox takes each hop that is pushed. -/
theorem charges_returned (c : Config) (sched : List (ℕ × Input))
    (h : Schedule.Guarded (step c) Taken (State.init c) sched) (id : FlowId)
    (hsends : ¬(run c sched).Sends id) : Ledger.total (hopCharges c sched) id = 0 := by
  obtain ⟨hands, hh, hp⟩ := run_paid h
  have howes := hp.owes id
  generalize Ledger.total (hopCharges c sched) id = n at howes
  cases howes with
  | @driven t hrun =>
    have hempty : hands t = .empty := by
      have hfits := hh.fits t
      cases hmode : (run c sched).modes t with
      | idle =>
        rw [hmode] at hfits
        exact hfits
      | slice ran left =>
        rw [hmode] at hfits
        exact hfits.2
      | charge ran result =>
        rw [hmode] at hfits
        exact hfits.2
      | effect result p => exact absurd (.inl ⟨t, result, p, hrun, hmode⟩) hsends
      | call call p =>
        rw [hmode] at hfits
        unfold State.driven at hrun
        rw [hfits.1] at hrun
        cases hrun
    rw [hempty]
    rfl
  | sending hg hsend => exact absurd (.inr ⟨_, hg, _, hsend⟩) hsends
  | none hrun hsend => rfl

/-! ## A send that completes at once, and one that waits -/

/-- A flow spawns another one and sends it a message twice. -/
def spawnsAndSends : Chunk where
  name := "spawnsAndSends"
  constants := []
  code := [.aImm .loadImm 0 1, .aImm .loadImm 1 7, .aImm .loadImm 2 0,
    ⟨.callNative, 0, 3, 0, 2⟩, ⟨.spawn, 1, 0, 255, 1⟩, .abc .send 1 0 0, .abc .send 1 0 0,
    .onlyImm .jump (-1), .abc .receive 0 0 0, .onlyImm .jump (-2)]
  functions := [⟨"main", 0, 0, 3⟩, ⟨"child", 8, 0, 1⟩]

/-- A mailbox refuses its second hop. -/
def oneHop : Config where
  maxFlows := 0
  natives := stdNatives
  quota := ⟨1000, 1000⟩
  mailbox := .oneHop .reject
  quantum := 8
  trust := .untrusted

/-- The first hop is delivered. -/
def driveDelivered : List (ℕ × Input) :=
  driveChunk spawnsAndSends ++ codes 0 21 ⟨6⟩ ++ codes 0 9 ⟨7⟩ ++ picks 0 3 ⟨7⟩

set_option maxRecDepth 4000 in
theorem not_sends_delivered : ¬(run oneHop driveDelivered).Sends 1 := by
  have hothers : ∀ ti ∈ driveDelivered, ti.1 = 0 := by decide
  have hidle {t : ℕ} (ht : t ≠ 0) := run_of_not_mem oneHop (r := t) fun ti hti he =>
    ht (he.symm.trans (hothers ti hti))
  obtain ⟨hmode, hplain⟩ : (run oneHop driveDelivered).modes 0 = .idle ∧
      ∀ g ∈ (run oneHop driveDelivered).machine.threads 0, g.sending = none :=
    ⟨rfl, by decide⟩
  rintro (⟨t, result, p, -, heffect⟩ | ⟨g, ⟨t, hg⟩, n, hn⟩)
  · have hmode' : (run oneHop driveDelivered).modes t = .idle := by
      by_cases ht : t = 0
      · exact ht ▸ hmode
      · exact (hidle ht).2
    rw [hmode'] at heffect
    cases heffect
  · by_cases ht : t = 0
    · rw [hplain g (ht ▸ hg)] at hn
      cases hn
    · rw [(hidle ht).1] at hg
      cases hg

set_option maxRecDepth 4000 in
theorem charges_returned_delivered : Ledger.total (hopCharges oneHop driveDelivered) 1 = 0 :=
  charges_returned oneHop driveDelivered (by decide) 1 not_sends_delivered

/-- The second one waits with its sender until the other flow receives the first. -/
def driveAdmitted : List (ℕ × Input) :=
  driveDelivered ++ codes 0 9 ⟨8⟩ ++ picks 0 5 ⟨8⟩ ++
    (0, .machine (.start (.work 0)) (quietEnv ⟨8⟩)) :: picks 0 1 ⟨8⟩ ++ codes 0 5 ⟨8⟩ ++
    picks 0 4 ⟨8⟩

set_option maxRecDepth 4000 in
/-- Then it is in the mailbox, and its sender is runnable and has paid for it. -/
theorem charge_kept : spawnsAndSends.verifyWith .untrusted = .ok () ∧
    ((run oneHop driveAdmitted).machine.shared.mailboxes 2).queue.inner.length = 1 ∧
    (run oneHop driveAdmitted).machine.shared.queues.map Flow.id = [1] ∧
    ((run oneHop driveAdmitted).processes 1).quota.memUsed = 128 ∧
    Ledger.total (hopCharges oneHop driveAdmitted) 1 = 128 := by
  decide

end Worker

end Byteflow
