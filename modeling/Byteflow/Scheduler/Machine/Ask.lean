import Byteflow.Scheduler.Machine.Parking

/-!
# Askers and the targets that exit

An `Ask` enters the asker in the index of its target, parks it, and then looks whether the target
is still live. The target's finalization takes the askers out of the index (it is then `Drained`),
wakes them one by one, and leaves the directory. Two kinds of wakers follow: the list of a
finalization (`OnList`), and the end of `park_ask` (`Rechecks`).
-/

namespace Byteflow

namespace Machine

variable {s : State}

/-- The flow is parked on an `Ask` to the target. -/
def ParkedAsk (s : State) (asker target : FlowId) : Prop :=
  ∃ flow requestId, (s.shared.mailboxes asker).parked = some flow ∧
    (s.shared.mailboxes asker).parkedFilter = .ask requestId target

/-- The stages between the end of `take_waiters_of` and `unregister`. -/
def FinStage.Drained : FinStage → Prop
  | .wake _ => True
  | .wakeTake _ _ => True
  | .revoke => True
  | .unregister => True
  | _ => False

/-- The flow has left the runtime. -/
def Finalized (s : State) (target : FlowId) : Prop :=
  s.shared.Spawned target ∧ s.shared.directory target = false

instance (s : State) (target : FlowId) : Decidable (Finalized s target) :=
  inferInstanceAs (Decidable ((_ < _ ∧ _ < _) ∧ _))

/-- The finalization of the flow has taken its askers. -/
def Drained (s : State) (target : FlowId) : Prop :=
  Finalized s target ∨
    ∃ stage cur work, .fin stage cur work ∈ s.frames ∧ cur.id = target ∧ stage.Drained

/-- The stage has the asker still to wake. -/
def FinStage.Wakes (asker : FlowId) : FinStage → Prop
  | .wake askers => asker ∈ askers
  | .wakeTake a askers => asker = a ∨ asker ∈ askers
  | _ => False

/-- The finalization of the target has the asker still to wake. -/
def OnList (s : State) (target asker : FlowId) : Prop :=
  ∃ stage cur work, .fin stage cur work ∈ s.frames ∧ cur.id = target ∧ stage.Wakes asker

/-- The end of a `park_ask` of the asker. -/
def Frame.Rechecks (target asker : FlowId) : Frame → Prop
  | .askRecheck a wait _ => a = asker ∧ wait.target = target
  | .askTake a wait => a = asker ∧ wait.target = target
  | _ => False

/-- A `park_ask` has still to look whether the target is live, or to unpark the asker. -/
def Rechecks (s : State) (target asker : FlowId) : Prop :=
  ∃ f ∈ s.frames, f.Rechecks target asker

/-! ## Frames that wake -/

theorem mem_cons_eraseIdx {α : Type} {l : List α} {n : ℕ} {a b : α} (h : l[n]? = some a)
    (hb : b ∈ l) : b = a ∨ b ∈ l.eraseIdx n := by
  obtain ⟨hn, rfl⟩ := List.getElem?_eq_some_iff.mp h
  have hperm := List.getElem_cons_eraseIdx_perm hn
  exact List.mem_cons.mp (hperm.symm.subset hb)

/-- The loop over the askers: it ends, idles, takes an asker that is live, or skips one that is
not. -/
theorem wake_step {t : ℕ} {i : Input} {askers : List FlowId} {cur : PendingExit}
    {work : List PendingExit} {rest : List Frame}
    (hs : s.threads t = .fin (.wake askers) cur work :: rest) :
    (askers = [] ∧ .fin .revoke cur work ∈ (step s (t, i)).frames) ∨
      .fin (.wake askers) cur work ∈ (step s (t, i)).frames ∨
      ∃ n a, askers[n]? = some a ∧
        ((s.shared.directory a = true ∧
            .fin (.wakeTake a (askers.eraseIdx n)) cur work ∈ (step s (t, i)).frames) ∨
          (s.shared.directory a = false ∧
            .fin (.wake (askers.eraseIdx n)) cur work ∈ (step s (t, i)).frames)) := by
  have hnext := fun g => mem_frames_of_next (i := i) (g := g) hs
  cases askers with
  | nil => exact .inl ⟨rfl, hnext _ (List.mem_singleton_self _)⟩
  | cons asker askers =>
    refine .inr ?_
    cases i with
    | pick n =>
      cases hn : (asker :: askers)[n]? with
      | none =>
        refine .inl (hnext _ ?_)
        simp only [Frame.next, FinStage.next, hn, Shared.exec, List.mem_singleton]
      | some a =>
        refine .inr ⟨n, a, hn, ?_⟩
        cases hlive : s.shared.directory a with
        | true =>
          refine .inl ⟨rfl, hnext _ ?_⟩
          simp only [Frame.next, FinStage.next, hn, Shared.exec, hlive, if_true,
            List.mem_singleton]
        | false =>
          refine .inr ⟨rfl, hnext _ ?_⟩
          simp only [Frame.next, FinStage.next, hn, Shared.exec, hlive, if_false,
            Bool.false_eq_true, List.mem_singleton]
    | start op => exact .inl (hnext _ (List.mem_singleton_self _))
    | vm result => exact .inl (hnext _ (List.mem_singleton_self _))

/-- After `take_parked` of one asker the loop goes on. -/
theorem wakeTake_step {t : ℕ} {i : Input} {asker : FlowId} {askers : List FlowId}
    {cur : PendingExit} {work : List PendingExit} {rest : List Frame}
    (hs : s.threads t = .fin (.wakeTake asker askers) cur work :: rest) :
    .fin (.wake askers) cur work ∈ (step s (t, i)).frames := by
  refine mem_frames_of_next hs ?_
  simp only [Frame.next, FinStage.next, Shared.exec]
  split
  · exact List.mem_cons_of_mem _ (List.mem_singleton_self _)
  · exact List.mem_singleton_self _

/-- A drained target stays drained. -/
theorem Drained.step {target : FlowId} (h : Drained s target) (ho : Owned s) (t : ℕ) (i : Input) :
    Drained (Machine.step s (t, i)) target := by
  rcases h with ⟨hsp, hd⟩ | ⟨stage, cur, work, hf, rfl, hstage⟩
  · refine .inl ⟨spawned_step hsp (t, i), ?_⟩
    rcases ClosedBefore.directory_cases s t i with ⟨he, -⟩ | ⟨he, -⟩ | ⟨cur, _, _, -, he, -⟩ <;>
      rw [he]
    · exact hd
    · rwa [Function.update_of_ne hsp.2.ne]
    · by_cases hid : target = cur.id
      · rw [hid, Function.update_self]
      · rwa [Function.update_of_ne hid]
  · rcases mem_frames_step hf t i with ⟨rest, hs⟩ | hf'
    · cases stage with
      | wake askers =>
        refine .inr ?_
        rcases wake_step (i := i) hs with ⟨-, hg⟩ | hg | ⟨n, a, -, ⟨-, hg⟩ | ⟨-, hg⟩⟩ <;>
          exact ⟨_, cur, work, hg, rfl, trivial⟩
      | wakeTake a askers => exact .inr ⟨_, cur, work, wakeTake_step hs, rfl, trivial⟩
      | revoke =>
        exact .inr ⟨_, cur, work, mem_frames_of_next hs (List.mem_singleton_self _), rfl, trivial⟩
      | unregister =>
        refine .inl ⟨spawned_step (ho.spawned_of_frame hf (cur_mem_boxes ..)) (t, i), ?_⟩
        rw [step_shared, next_of_cons i hs]
        exact Function.update_self ..
      | _ => exact hstage.elim
    · exact .inr ⟨stage, cur, work, hf', rfl, hstage⟩

/-- A step that drains a target is the `take_waiters_of` of its finalization. -/
theorem drained_of_step {target : FlowId} {t : ℕ} {i : Input}
    (h : Drained (step s (t, i)) target) :
    Drained s target ∨ ∃ cur work rest, s.threads t = .fin .waiters cur work :: rest ∧
      cur.id = target ∧ .fin (.wake (s.shared.askWaits.askersOf target)) cur work ∈
        (step s (t, i)).frames := by
  rcases h with ⟨hsp, hd⟩ | ⟨stage, cur, work, hf, rfl, hstage⟩
  · refine .inl ?_
    unfold Shared.Spawned at hsp
    rcases ClosedBefore.directory_cases s t i with ⟨he, hn⟩ | ⟨he, hn⟩ |
      ⟨cur, work, rest, hs, he, hn⟩ <;> rw [he] at hd <;> rw [hn] at hsp
    · exact .inl ⟨hsp, hd⟩
    · by_cases hid : target = s.shared.nextFlowId
      · rw [hid, Function.update_self] at hd
        cases hd
      · rw [Function.update_of_ne hid] at hd
        exact .inl ⟨⟨hsp.1, lt_of_le_of_ne (Nat.le_of_lt_succ hsp.2) hid⟩, hd⟩
    · by_cases hid : target = cur.id
      · exact .inr ⟨.unregister, cur, work, mem_frames_of_cons hs, hid.symm, trivial⟩
      · rw [Function.update_of_ne hid] at hd
        exact .inl ⟨hsp, hd⟩
  · cases step_cases s t i with
    | acts f rest w hs hi hw hσ hnew =>
      rcases hnew _ hf with hf' | hl
      · exact .inl (.inr ⟨stage, cur, work, mem_frames_of_others hf', rfl, hstage⟩)
      have hprev : ∀ stage', f = .fin stage' cur work → stage'.Drained → Drained s cur.id := by
        rintro stage' rfl hd
        exact .inr ⟨stage', cur, work, mem_frames_of_cons hs, rfl, hd⟩
      cases hl with
      | plain hplain => exact hplain.elim
      | finWake => exact .inr ⟨cur, work, rest, hs, rfl, hf⟩
      | finWakeStay => exact .inl (hprev _ rfl trivial)
      | finWakeTake => exact .inl (hprev _ rfl trivial)
      | finWakeSkip => exact .inl (hprev _ rfl trivial)
      | finTook => exact .inl (hprev _ rfl trivial)
      | finRevoke => exact .inl (hprev _ rfl trivial)
      | finUnregister => exact .inl (hprev _ rfl trivial)
      | _ => exact hstage.elim
    | starts w hs hw hσ hnew =>
      rcases hnew _ hf with hf' | hst
      · exact .inl (.inr ⟨stage, cur, work, mem_frames_of_others hf', rfl, hstage⟩)
      · cases hst with
        | plain hplain => exact hplain.elim

/-- An asker on the list of a finalization is still there, is not live, or has been taken out of
its mailbox. -/
theorem OnList.step {target asker : FlowId} (h : OnList s target asker) (t : ℕ) (i : Input) :
    OnList (Machine.step s (t, i)) target asker ∨ s.shared.directory asker = false ∨
      ((Machine.step s (t, i)).shared.mailboxes asker).parked = none := by
  obtain ⟨stage, cur, work, hf, rfl, hstage⟩ := h
  rcases mem_frames_step hf t i with ⟨rest, hs⟩ | hf
  · cases stage with
    | wake askers =>
      have hmem : asker ∈ askers := hstage
      rcases wake_step (i := i) hs with ⟨rfl, -⟩ | hg | ⟨n, a, hn, ⟨-, hg⟩ | ⟨hlive, hg⟩⟩
      · cases hmem
      · exact .inl ⟨_, cur, work, hg, rfl, hmem⟩
      · exact .inl ⟨_, cur, work, hg, rfl, mem_cons_eraseIdx hn hmem⟩
      · rcases mem_cons_eraseIdx hn hmem with rfl | hmem
        · exact .inr (.inl hlive)
        · exact .inl ⟨_, cur, work, hg, rfl, hmem⟩
    | wakeTake a askers =>
      rcases hstage with rfl | hmem
      · refine .inr (.inr ?_)
        rw [step_mail hs rfl]
        rfl
      · exact .inl ⟨_, cur, work, wakeTake_step hs, rfl, hmem⟩
    | _ => exact hstage.elim
  · exact .inl ⟨stage, cur, work, hf, rfl, hstage⟩

/-! ## The index of askers -/

/-- An asker in the hands of no frame stays in the index, or the finalization of its target takes
it out. -/
theorem byTarget_step {asker target : FlowId} (h : asker ∈ s.shared.askWaits.askersOf target)
    {t : ℕ} {i : Input} (hheld : ∀ f rest, s.threads t = f :: rest → asker ∉ f.boxes) :
    asker ∈ (step s (t, i)).shared.askWaits.askersOf target ∨
      ∃ cur work rest, s.threads t = .fin .waiters cur work :: rest ∧ cur.id = target := by
  cases step_cases s t i with
  | acts f rest w hs hi hw hσ hnew =>
    have hheld := hheld f rest hs
    rw [hσ.askWaits]
    cases hw with
    | askInsert flow wait => exact .inl (AskWaitIndex.mem_insert.mpr (.inl h))
    | forget flow =>
      refine .inl ((AskWaitIndex.mem_removeAsker ?_).mpr h)
      rintro rfl
      exact hheld (Multiset.mem_singleton_self _)
    | finAsk cur work =>
      refine .inl ((AskWaitIndex.mem_removeAsker ?_).mpr h)
      rintro rfl
      exact hheld (cur_mem_boxes ..)
    | finWaiters cur work =>
      by_cases hid : cur.id = target
      · exact .inr ⟨cur, work, rest, hs, hid⟩
      · exact .inl (AskWaitIndex.mem_takeWaitersOf.mpr ⟨Ne.symm hid, h⟩)
    | _ => exact .inl h
  | starts w hs hw hσ hnew =>
    rw [hσ.askWaits]
    cases hw <;> exact .inl h

/-- An asker stays in the index unless the frame on top holds it or drains the target. -/
theorem indexed_of_not_drained {asker target : FlowId}
    (h : asker ∈ s.shared.askWaits.askersOf target) {t : ℕ} {i : Input}
    (hheld : ∀ f rest, s.threads t = f :: rest → asker ∉ f.boxes)
    (hdrained : ¬Drained (step s (t, i)) target) :
    asker ∈ (step s (t, i)).shared.askWaits.askersOf target := by
  refine (byTarget_step h hheld).resolve_right ?_
  rintro ⟨cur, work, rest, hs, rfl⟩
  exact hdrained (.inr ⟨_, cur, work, mem_frames_of_next hs (List.mem_singleton_self _), rfl,
    trivial⟩)

end Machine

end Byteflow
