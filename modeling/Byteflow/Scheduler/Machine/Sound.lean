import Byteflow.Scheduler.Machine.Parking
import Byteflow.Scheduler.Machine.Refused

/-!
# Waiting senders can be found

What holds in every state that a schedule leads to, whatever the threads do (`Sound`). A sender in
`WAITING_SEND` is in the list of an open mailbox, under the target that `waiting_send_at` has for
it, so that a kill of the sender and the finalization of the target reach it
(`waiting_sender_found`).
-/

namespace Byteflow

namespace Machine

open Function (update)

/-- The invariants that no step breaks. -/
structure Sound (s : State) : Prop where
  owned : Owned s
  homed : Homed s
  registered : Registered s
  closed : ClosedBefore s
  coherent : ∀ f ∈ s.frames, f.Coherent
  indexed : SendIndexed s

theorem sound_init (config : MailboxConfig) : Sound (State.init config) where
  owned := owned_init config
  homed := homed_init config
  registered := registered_init config
  closed := closedBefore_init config
  coherent := fun _ hf => by obtain ⟨t, hf⟩ := hf; cases hf
  indexed := sendIndexed_init config

theorem Sound.step {s : State} (h : Sound s) (ti : ℕ × Input) : Sound (Machine.step s ti) where
  owned := h.owned.step ti
  homed := h.homed.step ti
  registered := h.registered.step h.owned ti
  closed := h.closed.step h.owned ti
  coherent := coherent_step h.coherent ti
  indexed := h.indexed.step h.owned h.closed h.coherent ti

theorem run_sound (config : MailboxConfig) (sched : List (ℕ × Input)) : Sound (run config sched) :=
  Schedule.invariant (I := Sound) (fun _ ti h => h.step ti) (sound_init config) sched

/-! ## One thread without interleaving -/

/-- A thread runs its top frame. -/
theorem run_top {σ : Shared} {threads : ℕ → List Frame} {t : ℕ} {f : Frame} {rest : List Frame}
    {i : Input} {is : List (ℕ × Input)} :
    Schedule.run step ⟨σ, update threads t (f :: rest)⟩ ((t, i) :: is) =
      Schedule.run step ⟨(σ.exec (f.next i)).1,
        update threads t ((σ.exec (f.next i)).2 ++ rest)⟩ is := by
  simp only [Schedule.run_cons, step, State.next, Function.update_self, Function.update_idem]

/-- A thread without work starts an operation. -/
theorem run_start {s : State} {t : ℕ} {op : Operation} {is : List (ℕ × Input)}
    (hidle : s.threads t = []) :
    Schedule.run step s ((t, .start op) :: is) =
      Schedule.run step ⟨(s.shared.exec op.start).1,
        update s.threads t (s.shared.exec op.start).2⟩ is := by
  simp only [Schedule.run_cons, step, State.next, hidle, List.append_nil]

theorem steps_succ (t n : ℕ) : steps t (n + 1) = (t, .pick 0) :: steps t n := rfl

/-! ## Senders in `WAITING_SEND` -/

/-- The waiting sender that `take_waiting_sender` takes. -/
theorem Owned.takeWaitingSender {s : State} (h : Owned s) {id : FlowId} {w : WaitingSender Hop}
    (hw : w ∈ (s.shared.mailboxes id).waitingSenders) {m : Mailbox Hop}
    (hm : m.waitingSenders = (s.shared.mailboxes id).waitingSenders) :
    (m.takeWaitingSender w.flow.id).2 = some w.flow := by
  simp only [Mailbox.takeWaitingSender, FirstMatch.extract_eq, hm]
  cases hfind :
      (s.shared.mailboxes id).waitingSenders.find? (fun w' => w'.flow.id == w.flow.id) with
  | none => exact absurd (List.find?_eq_none.mp hfind w hw) (by simp)
  | some w' =>
    have hid : w'.flow.id = w.flow.id := by simpa using List.find?_some hfind
    obtain ⟨-, rfl⟩ := h.waiting_unique hw (List.mem_of_find?_eq_some hfind) hid
    rfl

variable {s : State}

/-- A kill of a waiting sender takes it out of the list and finalizes it. -/
theorem Sound.kill_reaches (h : Sound s) {id : FlowId} {w : WaitingSender Hop}
    (hw : w ∈ (s.shared.mailboxes id).waitingSenders) {t : ℕ} (hidle : s.threads t = [])
    (reason : FlowExitReason) :
    (Schedule.run Machine.step s ((t, .start (.kill w.flow.id reason)) :: steps t 7)).threads t =
      finalize w.flow (.failed ("killed (" ++ reason.name ++ ")")) reason := by
  obtain ⟨hat, hsp⟩ := h.indexed.waiting id w hw
  have hlive := h.registered.mailboxes id _ (Mailbox.mem_boxes_of_waiting hw)
  have htarget := h.closed.directory_of_waiting hsp hw
  have hparked : (s.shared.mailboxes w.flow.id).parked = none :=
    Option.eq_none_iff_forall_ne_some.mpr fun flow hp =>
      h.owned.not_parked_of_waiting hw (h.homed _ flow hp) hp
  -- `take_parked` looks into the mailbox of the sender, which may be the one it waits at
  have hkeep : (update s.shared.mailboxes w.flow.id
      ((s.shared.mailboxes w.flow.id).after .takeParked) id).waitingSenders =
        (s.shared.mailboxes id).waitingSenders := by
    by_cases hid : id = w.flow.id
    · rw [← hid, Function.update_self]
      rfl
    · rw [Function.update_of_ne hid]
  have htake := h.owned.takeWaitingSender hw hkeep
  rw [run_start hidle]
  simp only [Operation.start, Shared.exec]
  rw [steps_succ, run_top]
  simp only [Frame.next, KillStage.next, Shared.exec, hlive, if_true, List.append_nil]
  rw [steps_succ, run_top]
  simp only [Frame.next, KillStage.next, Shared.exec, List.append_nil]
  rw [steps_succ, run_top]
  simp only [Frame.next, KillStage.next, Shared.exec, Mailbox.result, Mailbox.takeParked, hparked,
    List.append_nil]
  rw [steps_succ, run_top]
  simp only [Frame.next, KillStage.next, Shared.exec, hat, List.append_nil]
  rw [steps_succ, run_top]
  simp only [Frame.next, KillStage.next, Shared.exec, htarget, if_true, List.append_nil]
  rw [steps_succ, run_top]
  simp only [Frame.next, KillStage.next, Shared.exec, Mailbox.result, htake, List.append_nil]
  rw [steps_succ, run_top]
  simp only [Frame.next, KillStage.next, Shared.exec, KillAfter.resume, List.append_nil]
  exact Function.update_self ..

/-- The finalization of a flow takes out the senders that wait at it. -/
theorem Sound.finalize_reaches (h : Sound s) {w : WaitingSender Hop} {r : ℕ} {cur : PendingExit}
    {work : List PendingExit} {rest : List Frame}
    (hs : s.threads r = .fin .killTake cur work :: rest)
    (hw : w ∈ (s.shared.mailboxes cur.id).waitingSenders) :
    ∃ senders, w.flow ∈ senders ∧
      (Schedule.run Machine.step s (steps r 5)).threads r =
        .fin (.senders senders) cur work :: rest := by
  have hcur := h.owned.spawned_of_frame (mem_frames_of_cons hs) (cur_mem_boxes .killTake cur work)
  have hlive := h.closed.directory_of_waiting hcur hw
  have hstate : s = ⟨s.shared, update s.threads r (.fin .killTake cur work :: rest)⟩ := by
    rw [← hs, Function.update_eq_self]
  refine ⟨(s.shared.mailboxes cur.id).waitingSenders.map (·.flow),
    List.mem_map.mpr ⟨w, hw, rfl⟩, ?_⟩
  rw [hstate, steps_succ, run_top]
  simp only [Frame.next, FinStage.next, hcur.1.ne', if_false, Shared.exec, List.singleton_append]
  rw [steps_succ, run_top]
  simp only [Frame.next, FinStage.next, Shared.exec, List.singleton_append]
  rw [steps_succ, run_top]
  simp only [Frame.next, FinStage.next, Shared.exec, List.singleton_append]
  rw [steps_succ, run_top]
  simp only [Frame.next, FinStage.next, Shared.exec, hlive, if_true, List.singleton_append]
  rw [steps_succ, run_top]
  simp only [Frame.next, FinStage.next, Shared.exec, Mailbox.result, Mailbox.close,
    List.singleton_append]
  exact Function.update_self ..

/-- **A waiting sender can be found**: the mailbox at which it waits is open, and
`waiting_send_at` has it. A kill of the sender gets to its finalization, and a finalization of the
target gets the sender out of the mailbox. -/
theorem waiting_sender_found (config : MailboxConfig) (sched : List (ℕ × Input)) (id : FlowId)
    (w : WaitingSender Hop) (hw : w ∈ ((run config sched).shared.mailboxes id).waitingSenders) :
    ((run config sched).shared.mailboxes id).closed = false ∧
      (run config sched).shared.waitingSendAt w.flow.id = some id ∧
      (∀ t reason, (run config sched).threads t = [] →
        (Schedule.run step (run config sched)
            ((t, .start (.kill w.flow.id reason)) :: steps t 7)).threads t =
          finalize w.flow (.failed ("killed (" ++ reason.name ++ ")")) reason) ∧
      ∀ t cur work rest, (run config sched).threads t = .fin .killTake cur work :: rest →
        cur.id = id → ∃ senders, w.flow ∈ senders ∧
          (Schedule.run step (run config sched) (steps t 5)).threads t =
            .fin (.senders senders) cur work :: rest := by
  have h := run_sound config sched
  refine ⟨?_, (h.indexed.waiting id w hw).1, fun t reason hidle => h.kill_reaches hw hidle reason,
    fun t cur work rest hs hid => h.finalize_reaches hs (hid ▸ hw)⟩
  rw [Bool.eq_false_iff]
  intro hclosed
  rw [h.closed.empty id hclosed] at hw
  cases hw

/-- Flow 2 waits at flow 1, and is killed. -/
theorem waiting_sender_found_killed :
    (Schedule.run step (run smallest sendTwice)
        ((1, .start (.kill 2 .killed)) :: steps 1 7)).threads 1 =
      finalize { Flow.new 2 with pendingSend := some .fireAndForget }
        (.failed ("killed (" ++ FlowExitReason.killed.name ++ ")")) .killed := by
  have h := waiting_sender_found smallest sendTwice 1
    ⟨{ Flow.new 2 with pendingSend := some .fireAndForget },
      ⟨1, (Message.new 2 0 0 .unit).toValue⟩⟩ (by decide +kernel)
  have hidle : (run smallest sendTwice).threads 1 = [] := by decide +kernel
  exact h.2.2.1 1 .killed hidle

end Machine

end Byteflow
