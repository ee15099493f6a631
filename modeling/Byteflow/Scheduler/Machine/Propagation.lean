import Byteflow.Scheduler.Machine.Finalize
import Byteflow.Scheduler.Registry
import Mathlib.Tactic.IntervalCases

/-!
# What an exit draws along

A finalization takes the senders that wait at its flow and, when the exit is abnormal, the peers
that its links name. Those that it finds in a mailbox it finalizes as well; to the others it leaves
a kill signal (`exit_propagation`).
-/

namespace Byteflow

namespace Machine

open Function (update)

/-! ## The relations of an exit -/

def Shared.Linked (σ : Shared) (a b : FlowId) : Prop :=
  ∃ k ∈ σ.links.links, (k.a = a ∧ k.b = b) ∨ (k.a = b ∧ k.b = a)

/-- The exit draws the flow along: it waits to send to the one that exits, or is linked to it and
the exit is abnormal. -/
def Draws (σ : Shared) (p : PendingExit) (id : FlowId) : Prop :=
  (∃ w ∈ (σ.mailboxes p.id).waitingSenders, w.flow.id = id) ∨
    (p.reason.isAbnormal = true ∧ σ.Linked p.id id)

/-- The flow is in no mailbox. -/
def Shared.Unparked (σ : Shared) (id : FlowId) : Prop :=
  (σ.mailboxes id).parked = none ∧
    ∀ target, ∀ w ∈ (σ.mailboxes target).waitingSenders, w.flow.id ≠ id

theorem Shrinks.unparked {σ σ' : Shared} (h : Shrinks σ σ') {id : FlowId} (hid : σ.Unparked id) :
    σ'.Unparked id := by
  refine ⟨?_, fun target w hw => hid.2 target w ((h.mailboxes target).waiting hw)⟩
  rcases (h.mailboxes id).parked with hnone | ⟨hp, -⟩
  · exact hnone
  · rw [hp]
    exact hid.1

/-! ## What the frames of a finalization hold -/

/-- The flows that the frame has yet to finalize. -/
def Frame.taken : Frame → List FlowId
  | .fin .killTake cur work => cur.id :: work.map (·.id)
  | .fin (.senders senders) _ work => senders.map (·.id) ++ work.map (·.id)
  | .fin _ _ work => work.map (·.id)
  | .kill (.sendAtRemove sender) _ _ (.link _ _ work) => sender.id :: work.map (·.id)
  | .kill _ _ _ (.link _ _ work) => work.map (·.id)
  | _ => []

/-- The peers that the frame has yet to kill. -/
def Frame.told : Frame → List FlowId
  | .fin (.peers peers) _ _ => peers
  | .kill _ peer _ (.link _ peers _) => peer :: peers
  | _ => []

/-- The askers that the frame has yet to wake, with their target. -/
def Frame.askers : Frame → List (FlowId × FlowId)
  | .fin (.wake askers) cur _ => askers.map (·, cur.id)
  | .fin (.wakeTake asker askers) cur _ => (asker :: askers).map (·, cur.id)
  | _ => []

/-- The exit that the frame is at, and how far it has come. -/
def Frame.current : Frame → Option (PendingExit × ℕ)
  | .fin stage cur _ => some (cur, stage.order)
  | .kill _ _ _ (.link cur _ _) => some (cur, 15)
  | _ => none

/-- The senders that were taken out of a mailbox, but are still in `waiting_send_at`. -/
def Frame.indexed : Frame → List FlowId
  | .fin (.senders senders) _ _ => senders.map (·.id)
  | .kill (.sendAtRemove sender) _ _ _ => [sender.id]
  | _ => []

/-- The exit that the frame is about to finalize. -/
def Frame.starts : Frame → List PendingExit
  | .fin .killTake cur _ => [cur]
  | _ => []

/-- What a kill has found out by now. -/
def Frame.Knows (σ : Shared) : Frame → Prop
  | .kill .set peer _ _ => σ.directory peer = true
  | .kill .takeParked peer _ _ => σ.killSignals peer = some .link
  | .kill .sendAtGet peer _ _ =>
    σ.killSignals peer = some .link ∧ (σ.mailboxes peer).parked = none
  | .kill (.targetLookup target) peer _ _ => σ.killSignals peer = some .link ∧
      (σ.mailboxes peer).parked = none ∧ σ.waitingSendAt peer = some target
  | .kill (.takeSender target) peer _ _ => σ.killSignals peer = some .link ∧
      (σ.mailboxes peer).parked = none ∧ σ.waitingSendAt peer = some target
  | _ => True

theorem Frame.starts_cases (f : Frame) :
    f.starts = [] ∨ ∃ cur work, f = .fin .killTake cur work ∧ f.starts = [cur] := by
  unfold starts
  split
  · exact .inr ⟨_, _, rfl, rfl⟩
  · exact .inl rfl

theorem Frame.current_of_told {f : Frame} {a : FlowId} (ha : a ∈ f.told) :
    ∃ p, f.current = some (p, 15) := by
  unfold told at ha
  split at ha
  · exact ⟨_, rfl⟩
  · exact ⟨_, rfl⟩
  · cases ha

theorem mem_taken_finNext {work : List PendingExit} {a : FlowId} :
    a ∈ (finNext work).flatMap Frame.taken ↔ a ∈ work.map (·.id) := by
  unfold finNext
  cases hlast : work.getLast? with
  | none =>
    rw [List.getLast?_eq_none_iff] at hlast
    simp [hlast]
  | some cur =>
    obtain ⟨rest, rfl⟩ := List.getLast?_eq_some_iff.mp hlast
    simp [Frame.taken, or_comm]

namespace Advances

variable {σ σ' : Shared} {f : Frame} {k : List Frame}

/-- A flow that is to be finalized stays so until it is. -/
theorem taken_next (h : Advances σ f σ' k) {a : FlowId} (ha : a ∈ f.taken) :
    a ∈ k.flatMap Frame.taken ∨ ∃ cur work, f = .fin .killTake cur work ∧ a = cur.id := by
  cases h with
  | killTake =>
    rcases List.mem_cons.mp ha with rfl | ha
    · exact .inr ⟨_, _, rfl, rfl⟩
    · exact .inl (by simpa [Frame.taken] using ha)
  | linksNormal h => exact .inl (mem_taken_finNext.mpr ha)
  | peersNil => exact .inl (mem_taken_finNext.mpr ha)
  | senders =>
    simp only [Frame.taken, List.map_cons, List.mem_append, List.mem_cons] at ha
    refine .inl ?_
    simp only [List.flatMap_cons, Frame.taken, List.map_append, List.map_cons, List.map_nil,
      List.flatMap_nil, List.append_nil, List.mem_append, List.mem_singleton]
    rcases ha with (rfl | ha) | ha
    · exact .inr (.inr rfl)
    · exact .inl ha
    · exact .inr (.inl ha)
  | killSendAtRemove =>
    simp only [Frame.taken, List.mem_cons] at ha
    refine .inl ?_
    simp only [List.flatMap_cons, Frame.taken, List.map_append, List.map_cons, List.map_nil,
      List.flatMap_nil, List.append_nil, List.mem_append, List.mem_singleton]
    rcases ha with rfl | ha
    · exact .inr rfl
    · exact .inl ha
  | _ =>
    refine .inl ?_
    simp_all [Frame.taken]

/-- A flow that is to be finalized comes out of a mailbox: it waits at the flow that exits, or the
frame is killing it. -/
theorem taken_of_next (h : Advances σ f σ' k)
    (hhome : ∀ id flow, (σ.mailboxes id).parked = some flow → flow.id = id) {a : FlowId}
    (ha : a ∈ k.flatMap Frame.taken) :
    a ∈ f.taken ∨ a ∈ f.told ∨ ∃ cur work, f = .fin .close cur work ∧
      ∃ w ∈ (σ.mailboxes cur.id).waitingSenders, w.flow.id = a := by
  cases h with
  | killTake =>
    refine .inl (List.mem_cons_of_mem _ ?_)
    simpa [Frame.taken] using ha
  | linksNormal h => exact .inl (mem_taken_finNext.mp ha)
  | peersNil => exact .inl (mem_taken_finNext.mp ha)
  | close =>
    simp only [List.flatMap_cons, Frame.taken, List.map_map, List.flatMap_nil, List.append_nil,
      List.mem_append, List.mem_map] at ha
    rcases ha with ⟨w, hw, rfl⟩ | ha
    · exact .inr (.inr ⟨_, _, rfl, w, hw, rfl⟩)
    · exact .inl (List.mem_map.mpr ha)
  | senders =>
    simp only [List.flatMap_cons, Frame.taken, List.map_append, List.map_cons, List.map_nil,
      List.flatMap_nil, List.append_nil, List.mem_append, List.mem_singleton] at ha
    refine .inl ?_
    simp only [Frame.taken, List.map_cons, List.mem_append, List.mem_cons]
    rcases ha with ha | ha | rfl
    · exact .inl (.inr ha)
    · exact .inr ha
    · exact .inl (.inl rfl)
  | @killTakeParked peer flow cur peers work h =>
    simp only [List.flatMap_cons, Frame.taken, List.map_append, List.map_cons, List.map_nil,
      List.flatMap_nil, List.append_nil, List.mem_append, List.mem_singleton] at ha
    rcases ha with ha | rfl
    · exact .inl ha
    · refine .inr (.inl ?_)
      show flow.id ∈ peer :: peers
      rw [hhome peer flow h]
      exact List.mem_cons_self
  | @killTakeSender target sender peer cur peers work h =>
    simp only [List.flatMap_cons, Frame.taken, List.flatMap_nil, List.append_nil,
      List.mem_cons] at ha
    rcases ha with rfl | ha
    · obtain ⟨-, -, -, hid⟩ := Mailbox.waiting_of_takeWaitingSender h
      refine .inr (.inl ?_)
      show sender.id ∈ peer :: peers
      rw [hid]
      exact List.mem_cons_self
    · exact .inl ha
  | killSendAtRemove =>
    simp only [List.flatMap_cons, Frame.taken, List.map_append, List.map_cons, List.map_nil,
      List.flatMap_nil, List.append_nil, List.mem_append, List.mem_singleton] at ha
    refine .inl (List.mem_cons.mpr ?_)
    rcases ha with ha | rfl
    · exact .inr ha
    · exact .inl rfl
  | _ =>
    refine .inl ?_
    simp_all [Frame.taken]

/-- The peers that are to be killed were linked to the flow that exits. -/
theorem told_of_next (h : Advances σ f σ' k) {b : Frame} (hb : b ∈ k) {a : FlowId}
    (ha : a ∈ b.told) :
    a ∈ f.told ∨ ∃ cur work, f = .fin .links cur work ∧ cur.reason.isAbnormal = true ∧
      a ∈ (σ.links.removeLinksOf cur.id).2 := by
  have hnone : ∀ work, b ∉ finNext work := by
    intro work hb
    unfold finNext at hb
    split at hb
    · cases List.mem_singleton.mp hb
      cases ha
    · cases hb
  cases h with
  | links h =>
    cases List.mem_singleton.mp hb
    exact .inr ⟨_, _, rfl, h, ha⟩
  | linksNormal h => exact absurd hb (hnone _)
  | peersNil => exact absurd hb (hnone _)
  | peers h =>
    cases List.mem_singleton.mp hb
    refine .inl ?_
    rcases List.mem_cons.mp ha with rfl | ha
    · exact List.mem_of_getElem? h
    · exact List.mem_of_mem_eraseIdx ha
  | wakeTake h =>
    simp only [List.mem_cons, List.not_mem_nil, or_false] at hb
    rcases hb with rfl | rfl <;> cases ha
  | downs =>
    simp only [List.mem_cons, List.not_mem_nil, or_false] at hb
    rcases hb with rfl | rfl <;> cases ha
  | downGone => cases hb
  | downPush => cases hb
  | wakeQueue => cases hb
  | _ =>
    cases List.mem_singleton.mp hb
    first
    | exact .inl ha
    | exact .inl (List.mem_cons_of_mem _ ha)

/-- The exit goes on. -/
theorem current_of_next (h : Advances σ f σ' k) {b : Frame} (hb : b ∈ k) {p : PendingExit} {n : ℕ}
    (hcur : b.current = some (p, n)) (hn : 0 < n) : ∃ m, f.current = some (p, m) := by
  have hnone : ∀ work, b ∉ finNext work := by
    intro work hb
    unfold finNext at hb
    split at hb
    · cases List.mem_singleton.mp hb
      cases hcur
      cases hn
    · cases hb
  cases h with
  | linksNormal h => exact absurd hb (hnone _)
  | peersNil => exact absurd hb (hnone _)
  | wakeTake h =>
    simp only [List.mem_cons, List.not_mem_nil, or_false] at hb
    rcases hb with rfl | rfl
    · cases hcur
    · cases hcur
      exact ⟨_, rfl⟩
  | downs =>
    simp only [List.mem_cons, List.not_mem_nil, or_false] at hb
    rcases hb with rfl | rfl
    · cases hcur
    · cases hcur
      exact ⟨_, rfl⟩
  | downGone => cases hb
  | downPush => cases hb
  | wakeQueue => cases hb
  | _ =>
    cases List.mem_singleton.mp hb
    cases hcur <;> exact ⟨_, rfl⟩

end Advances

/-! ## What the stages leave of a flow -/

/-- What holds of a flow after the stage of its finalization that is at this place. -/
def Clears : ℕ → Shared → FlowId → Prop
  | 0, σ, id => σ.killSignals id = none
  | 1, σ, id => σ.waitingSendAt id = none
  | 2, σ, id => σ.askWaits.byAsker id = none ∧ σ.askWaits.requestIds id = none
  | 6, σ, id => σ.askWaits.askersOf id = []
  | 9, σ, id => σ.directory id = false
  | 10, σ, id => ∀ e ∈ σ.monitors.monitors, e.owner ≠ id
  | 11, σ, id => ∀ name, σ.registry.target name ≠ some id
  | 12, σ, id => ∀ e ∈ σ.monitors.monitors, e.target ≠ id
  | 14, σ, id => ∀ k ∈ σ.links.links, k.a ≠ id ∧ k.b ≠ id
  | _, _, _ => True

theorem Shrinks.clears {σ σ' : Shared} (h : Shrinks σ σ') {id : FlowId} {n : ℕ}
    (hid : Clears n σ id) (hsignal : σ.killSignals id = none → σ'.killSignals id = none) :
    Clears n σ' id := by
  unfold Clears at *
  split
  · exact hsignal hid
  · exact Option.eq_none_iff_forall_ne_some.mpr fun target ht =>
      nomatch hid.symm.trans (h.waitingSendAt id target ht)
  · change σ.askWaits.byAsker id = none ∧ σ.askWaits.requestIds id = none at hid
    constructor
    · exact Option.eq_none_iff_forall_ne_some.mpr fun target ht =>
        nomatch hid.1.symm.trans (h.byAsker id target ht)
    · rw [← Option.not_isSome_iff_eq_none]
      intro hsome
      have hbefore := h.requestIds id hsome
      rw [hid.2] at hbefore
      cases hbefore
  · exact List.eq_nil_iff_forall_not_mem.mpr fun a ha =>
      absurd (h.byTarget id ha) (hid ▸ List.not_mem_nil)
  · change σ.directory id = false at hid
    rw [Bool.eq_false_iff]
    intro hdir
    rw [h.directory id hdir] at hid
    cases hid
  · exact fun e he => hid e (h.monitors he)
  · exact fun name hname => hid name (h.names name id hname)
  · exact fun e he => hid e (h.monitors he)
  · exact fun k hk => hid k (h.links hk)
  · trivial

/-- A stage clears what it is there for, and the exit goes on to the next one. -/
theorem Advances.clears {σ σ' : Shared} {f : Frame} {k : List Frame} (h : Advances σ f σ' k)
    (hnames : σ.registry.Coherent) {p : PendingExit} {n : ℕ} (hcur : f.current = some (p, n)) :
    ∃ m, (∀ j, n ≤ j → j < m → Clears j σ' p.id) ∧
      (m = 15 ∨ 0 < m ∧ ∃ b ∈ k, b.current = some (p, m)) := by
  cases h with
  | killTake =>
    cases hcur
    refine ⟨1, fun j _ hj => ?_, .inr ⟨Nat.one_pos, _, List.mem_singleton_self _, rfl⟩⟩
    obtain rfl : j = 0 := by omega
    exact Function.update_self ..
  | sendAtRemove =>
    cases hcur
    refine ⟨2, fun j hn hj => ?_, .inr ⟨Nat.two_pos, _, List.mem_singleton_self _, rfl⟩⟩
    obtain rfl : j = 1 := Nat.le_antisymm (Nat.le_of_lt_succ hj) hn
    exact Function.update_self ..
  | askRemove =>
    cases hcur
    refine ⟨3, fun j hn hj => ?_, .inr ⟨by omega, _, List.mem_singleton_self _, rfl⟩⟩
    obtain rfl : j = 2 := Nat.le_antisymm (Nat.le_of_lt_succ hj) hn
    show (σ.askWaits.removeAsker p.id).byAsker p.id = none ∧
      (σ.askWaits.removeAsker p.id).requestIds p.id = none
    unfold AskWaitIndex.removeAsker
    cases hasker : σ.askWaits.byAsker p.id <;> simp [hasker]
  | waiters =>
    cases hcur
    refine ⟨7, fun j hn hj => ?_, .inr ⟨by omega, _, List.mem_singleton_self _, rfl⟩⟩
    obtain rfl : j = 6 := Nat.le_antisymm (Nat.le_of_lt_succ hj) hn
    exact List.eq_nil_iff_forall_not_mem.mpr fun a ha =>
      (AskWaitIndex.mem_takeWaitersOf.mp ha).1 rfl
  | unregister =>
    cases hcur
    refine ⟨10, fun j hn hj => ?_, .inr ⟨by omega, _, List.mem_singleton_self _, rfl⟩⟩
    obtain rfl : j = 9 := Nat.le_antisymm (Nat.le_of_lt_succ hj) hn
    exact Function.update_self ..
  | owned =>
    cases hcur
    refine ⟨11, fun j hn hj => ?_, .inr ⟨by omega, _, List.mem_singleton_self _, rfl⟩⟩
    obtain rfl : j = 10 := Nat.le_antisymm (Nat.le_of_lt_succ hj) hn
    intro e he
    simpa using (List.mem_filter.mp he).2
  | names =>
    cases hcur
    refine ⟨12, fun j hn hj => ?_, .inr ⟨by omega, _, List.mem_singleton_self _, rfl⟩⟩
    obtain rfl : j = 11 := Nat.le_antisymm (Nat.le_of_lt_succ hj) hn
    intro name
    show (σ.registry.unregisterFlow p.id).target name ≠ some p.id
    rw [hnames.target_unregisterFlow]
    split_ifs with hname
    · nofun
    · exact hname
  | notify =>
    cases hcur
    refine ⟨13, fun j hn hj => ?_, .inr ⟨by omega, _, List.mem_singleton_self _, rfl⟩⟩
    obtain rfl : j = 12 := Nat.le_antisymm (Nat.le_of_lt_succ hj) hn
    intro e he
    simpa using (List.mem_filter.mp he).2
  | links h =>
    cases hcur
    refine ⟨15, fun j hn hj => ?_, .inl rfl⟩
    obtain rfl : j = 14 := Nat.le_antisymm (Nat.le_of_lt_succ hj) hn
    exact fun k hk => (LinkTable.mem_removeLinksOf.mp hk).2
  | linksNormal h =>
    cases hcur
    refine ⟨15, fun j hn hj => ?_, .inl rfl⟩
    obtain rfl : j = 14 := Nat.le_antisymm (Nat.le_of_lt_succ hj) hn
    exact fun k hk => (LinkTable.mem_removeLinksOf.mp hk).2
  | peersNil =>
    cases hcur
    exact ⟨15, fun j hn hj => absurd hj (Nat.not_lt.mpr hn), .inl rfl⟩
  | wakeTake h =>
    cases hcur
    exact ⟨7, fun j hn hj => absurd hj (Nat.not_lt.mpr hn),
      .inr ⟨by omega, _, List.mem_cons_of_mem _ (List.mem_singleton_self _), rfl⟩⟩
  | downs =>
    cases hcur
    exact ⟨13, fun j hn hj => absurd hj (Nat.not_lt.mpr hn),
      .inr ⟨by omega, _, List.mem_cons_of_mem _ (List.mem_singleton_self _), rfl⟩⟩
  | down => cases hcur
  | downLookup => cases hcur
  | downGone => cases hcur
  | downHandoff h => cases hcur
  | downPush => cases hcur
  | forget => cases hcur
  | wakeQueue => cases hcur
  | _ =>
    cases hcur
    refine ⟨_, fun j hn hj => ?_, .inr ⟨?_, _, List.mem_singleton_self _, rfl⟩⟩
    · first
      | exact absurd hj (Nat.not_lt.mpr hn)
      | simp only [FinStage.order] at hn hj
        interval_cases j <;> trivial
    · simp [FinStage.order]

/-! ## Kills -/

section

variable {σ σ' : Shared} {f : Frame} {k : List Frame}

/-- Kill signals are taken by `finalize_one` and set by a kill. -/
theorem Advances.killSignals (h : Advances σ f σ' k) :
    (∃ cur work, f = .fin .killTake cur work ∧
        σ'.killSignals = update σ.killSignals cur.id none) ∨
      (∃ peer cur peers work, f = .kill .set peer .link (.link cur peers work) ∧
        σ'.killSignals = update σ.killSignals peer (some .link)) ∨
      σ'.killSignals = σ.killSignals := by
  cases h with
  | killTake => exact .inl ⟨_, _, rfl, rfl⟩
  | killSet => exact .inr (.inl ⟨_, _, _, _, rfl, rfl⟩)
  | _ => exact .inr (.inr rfl)

/-- A kill knows what it has found out. -/
theorem Advances.knows (h : Advances σ f σ' k) (hf : f.Knows σ) {b : Frame} (hb : b ∈ k) :
    b.Knows σ' := by
  have hnext : ∀ {work σ}, b ∈ finNext work → b.Knows σ := by
    intro work σ hb
    unfold finNext at hb
    split at hb
    · cases List.mem_singleton.mp hb
      trivial
    · cases hb
  cases h with
  | linksNormal h => exact hnext hb
  | peersNil => exact hnext hb
  | wakeTake h =>
    simp only [List.mem_cons, List.not_mem_nil, or_false] at hb
    rcases hb with rfl | rfl <;> trivial
  | downs =>
    simp only [List.mem_cons, List.not_mem_nil, or_false] at hb
    rcases hb with rfl | rfl <;> trivial
  | downGone => cases hb
  | downPush => cases hb
  | wakeQueue => cases hb
  | killLookup h =>
    cases List.mem_singleton.mp hb
    exact h
  | killSet =>
    cases List.mem_singleton.mp hb
    exact Function.update_self ..
  | killNotParked h =>
    cases List.mem_singleton.mp hb
    refine ⟨hf, ?_⟩
    simp [Shared.mail, Mailbox.after, Mailbox.takeParked]
  | killSendAt h =>
    cases List.mem_singleton.mp hb
    exact ⟨hf.1, hf.2, h⟩
  | killTarget h =>
    cases List.mem_singleton.mp hb
    exact hf
  | _ =>
    cases List.mem_singleton.mp hb
    trivial

/-- A peer that is to be killed stays so, or it is taken out of its mailbox, or it is gone, or the
kill leaves it its signal. -/
theorem Advances.told_next {s : State} (hs : Sound s) (h : Advances s.shared f σ' k)
    (hcoh : f.Coherent) (hf : f.Knows s.shared) {a : FlowId} (ha : a ∈ f.told) :
    (∃ b ∈ k, a ∈ b.told) ∨ a ∈ k.flatMap Frame.taken ∨ s.shared.directory a = false ∨
      (σ'.killSignals a = some .link ∧ σ'.Unparked a) := by
  cases h with
  | peersNil => cases ha
  | @peers peers peer n cur work h =>
    refine .inl ⟨_, List.mem_singleton_self _, ?_⟩
    exact List.mem_cons.mpr (mem_cons_eraseIdx h ha)
  | killLookupGone h =>
    rcases List.mem_cons.mp ha with rfl | ha
    · exact .inr (.inr (.inl h))
    · exact .inl ⟨_, List.mem_singleton_self _, ha⟩
  | @killTakeParked peer flow cur peers work h =>
    rcases List.mem_cons.mp ha with rfl | ha
    · refine .inr (.inl ?_)
      simp [Frame.taken, PendingExit.id, hs.homed _ _ h]
    · exact .inl ⟨_, List.mem_singleton_self _, ha⟩
  | @killNoSendAt peer cur peers work h =>
    rcases List.mem_cons.mp ha with rfl | ha
    · -- a flow that waits somewhere is in `waiting_send_at`
      refine .inr (.inr (.inr ⟨hf.1, hf.2, fun target w hw hid => ?_⟩))
      rw [← hid, (hs.indexed.waiting target w hw).1] at h
      cases h
    · exact .inl ⟨_, List.mem_singleton_self _, ha⟩
  | @killTargetGone target peer cur peers work h =>
    rcases List.mem_cons.mp ha with rfl | ha
    · refine .inr (.inr (.inr ⟨hf.1, hf.2.1, fun target' w hw hid => ?_⟩))
      obtain ⟨hat, hsp⟩ := hs.indexed.waiting target' w hw
      rw [hid, hf.2.2] at hat
      cases hat
      rw [hs.closed.directory_of_waiting hsp hw] at h
      cases h
    · exact .inl ⟨_, List.mem_singleton_self _, ha⟩
  | @killNoSender target peer cur peers work h =>
    rcases List.mem_cons.mp ha with rfl | ha
    · have hshrinks : Shrinks s.shared (s.shared.mail target (.takeWaitingSender a)) :=
        .mail (takeWaitingSender_shrinks ..)
      have hunparked : s.shared.Unparked a := by
        refine ⟨hf.2.1, fun target' w hw hid => ?_⟩
        obtain ⟨hat, -⟩ := hs.indexed.waiting target' w hw
        rw [hid, hf.2.2] at hat
        cases hat
        have htake := hs.owned.takeWaitingSender hw rfl
        rw [hid, h] at htake
        cases htake
      exact .inr (.inr (.inr ⟨hf.1, hshrinks.unparked hunparked⟩))
    · exact .inl ⟨_, List.mem_singleton_self _, ha⟩
  | @killSendAtRemove sender peer cur peers work =>
    rcases List.mem_cons.mp ha with rfl | ha
    · have hid : sender.id = a := hcoh
      refine .inr (.inl ?_)
      simp [Frame.taken, PendingExit.id, hid]
    · exact .inl ⟨_, List.mem_singleton_self _, ha⟩
  | wakeTake h => cases ha
  | downs => cases ha
  | linksNormal h => cases ha
  | downGone => cases ha
  | downPush => cases ha
  | wakeQueue => cases ha
  | _ =>
    refine .inl ⟨_, List.mem_singleton_self _, ?_⟩
    first
    | exact ha
    | exact absurd ha List.not_mem_nil

end

/-! ## Askers -/

/-- An asker that is parked is in the index or on the list of the finalization of its target. -/
theorem Advances.asking_next {s : State} {σ' : Shared} {f : Frame} {k : List Frame} (hs : Sound s)
    (h : Advances s.shared f σ' k) (hf : f ∈ s.frames) {a target : FlowId} {flow : Flow Hop}
    (hp : (σ'.mailboxes a).parked = some flow)
    (hin : a ∈ s.shared.askWaits.askersOf target ∨ (a, target) ∈ f.askers) :
    a ∈ σ'.askWaits.askersOf target ∨ (a, target) ∈ k.flatMap Frame.askers := by
  -- the flow was parked before, so no frame holds it
  have hbefore : (s.shared.mailboxes a).parked = some flow := by
    rcases (h.shrinks.mailboxes a).parked with hnone | ⟨hsame, -⟩
    · rw [hp] at hnone
      cases hnone
    · rw [← hsame, hp]
  have hid : flow.id = a := hs.homed a flow hbefore
  have hne : ∀ b ∈ f.boxes, a ≠ b := by
    rintro b hb rfl
    exact hs.owned.not_parked hf (hid ▸ hb) a hbefore
  cases h with
  | @askRemove cur work =>
    rcases hin with hin | hin
    · exact .inl ((AskWaitIndex.mem_removeAsker (hne _ (cur_mem_boxes ..))).mpr hin)
    · cases hin
  | @waiters cur work =>
    rcases hin with hin | hin
    · by_cases ht : target = cur.id
      · subst ht
        exact .inr (by simpa [Frame.askers] using hin)
      · exact .inl (AskWaitIndex.mem_takeWaitersOf.mpr ⟨ht, hin⟩)
    · cases hin
  | wakeNil =>
    rcases hin with hin | hin
    · exact .inl hin
    · cases hin
  | @wake askers asker n cur work h hlive =>
    rcases hin with hin | hin
    · exact .inl hin
    · obtain ⟨b, hb, heq⟩ := List.mem_map.mp hin
      cases heq
      exact .inr (by simpa [Frame.askers] using mem_cons_eraseIdx h hb)
  | @wakeGone askers asker n cur work h hgone =>
    rcases hin with hin | hin
    · exact .inl hin
    · obtain ⟨b, hb, heq⟩ := List.mem_map.mp hin
      cases heq
      rcases mem_cons_eraseIdx h hb with rfl | hb
      · have hlive := hs.registered.mailboxes a _ (Mailbox.mem_boxes_of_parked hbefore)
        rw [hid, hgone] at hlive
        cases hlive
      · exact .inr (by simpa [Frame.askers] using hb)
  | @wakeTake asker flow' askers cur work h =>
    rcases hin with hin | hin
    · exact .inl hin
    · obtain ⟨b, hb, heq⟩ := List.mem_map.mp hin
      cases heq
      rcases List.mem_cons.mp hb with rfl | hb
      · simp [Shared.mail, Mailbox.after, Mailbox.takeParked] at hp
      · exact .inr (by simpa [Frame.askers] using hb)
  | @wakeTakeNone asker askers cur work h =>
    rcases hin with hin | hin
    · exact .inl hin
    · obtain ⟨b, hb, heq⟩ := List.mem_map.mp hin
      cases heq
      rcases List.mem_cons.mp hb with rfl | hb
      · rw [h] at hbefore
        cases hbefore
      · exact .inr (by simpa [Frame.askers] using hb)
  | @forget flow' =>
    rcases hin with hin | hin
    · exact .inl ((AskWaitIndex.mem_removeAsker (hne _ (Multiset.mem_singleton_self _))).mpr hin)
    · cases hin
  | _ =>
    rcases hin with hin | hin
    · exact .inl hin
    · exact absurd hin List.not_mem_nil

/-! ## Tables -/

section

variable {σ σ' : Shared} {f : Frame} {k : List Frame}

/-- A sender waits on until it is taken out of the mailbox. -/
theorem Advances.waiting_next (h : Advances σ f σ' k) {id : FlowId} {w : WaitingSender Hop}
    (hw : w ∈ (σ.mailboxes id).waitingSenders) :
    w ∈ (σ'.mailboxes id).waitingSenders ∨
      (w.flow.id ∈ k.flatMap Frame.indexed ∧ w.flow.id ∈ k.flatMap Frame.taken) := by
  have hmail : ∀ {target op}, ((σ.mailboxes target).after op).waitingSenders =
      (σ.mailboxes target).waitingSenders →
        w ∈ ((σ.mail target op).mailboxes id).waitingSenders := by
    intro target op he
    by_cases hid : id = target
    · subst hid
      simpa [Shared.mail, he] using hw
    · simpa [Shared.mail, hid] using hw
  cases h with
  | @close cur work =>
    by_cases hid : id = cur.id
    · subst hid
      refine .inr ?_
      simp only [List.flatMap_cons, Frame.indexed, Frame.taken, List.map_map, List.flatMap_nil,
        List.append_nil, List.mem_append, List.mem_map, Function.comp_apply]
      exact ⟨⟨w, hw, rfl⟩, .inl ⟨w, hw, rfl⟩⟩
    · exact .inl (by simpa [Shared.mail, hid] using hw)
  | wakeTake h => exact .inl (hmail rfl)
  | wakeTakeNone h => exact .inl (hmail rfl)
  | killTakeParked h => exact .inl (hmail rfl)
  | killNotParked h => exact .inl (hmail rfl)
  | @killTakeSender target sender peer cur peers work h =>
    by_cases hpeer : w.flow.id = peer
    · obtain ⟨-, -, -, hid⟩ := Mailbox.waiting_of_takeWaitingSender h
      refine .inr ?_
      simp [Frame.indexed, Frame.taken, hpeer, hid]
    · refine .inl ?_
      by_cases hid : id = target
      · subst hid
        simp only [Shared.mail, Function.update_self, Mailbox.after, Mailbox.takeWaitingSender,
          FirstMatch.extract_eq]
        cases (σ.mailboxes id).waitingSenders.find? (fun w => w.flow.id == peer) with
        | none => exact hw
        | some w' => exact (List.mem_eraseP_of_neg (by simpa using hpeer)).mpr hw
      · simpa [Shared.mail, hid] using hw
  | @killNoSender target peer cur peers work h =>
    refine .inl (hmail ?_)
    simp only [Mailbox.takeWaitingSender, Mailbox.after, FirstMatch.extract_eq] at h ⊢
    cases hfind : (σ.mailboxes target).waitingSenders.find? (fun w => w.flow.id == peer) with
    | none => rfl
    | some w' =>
      rw [hfind] at h
      cases h
  | downHandoff h => exact .inl (hmail (pushSystem_waitingSenders ..))
  | downPush => exact .inl (hmail (pushSystem_waitingSenders ..))
  | _ => exact .inl hw

/-- An entry of `waiting_send_at` is that of a sender that waits, or was just taken out. -/
theorem Advances.indexed_next (h : Advances σ f σ' k) (hcoh : f.Coherent) {a target : FlowId}
    (hat : σ'.waitingSendAt a = some target)
    (hin : (∃ w ∈ (σ.mailboxes target).waitingSenders, w.flow.id = a) ∨ a ∈ f.indexed) :
    (∃ w ∈ (σ'.mailboxes target).waitingSenders, w.flow.id = a) ∨
      a ∈ k.flatMap Frame.indexed := by
  rcases hin with ⟨w, hw, rfl⟩ | hin
  · rcases h.waiting_next hw with hw | ⟨hk, -⟩
    · exact .inl ⟨w, hw, rfl⟩
    · exact .inr hk
  · cases h with
    | senders =>
      rcases List.mem_cons.mp hin with rfl | hin
      · simp at hat
      · exact .inr (by simpa [Frame.indexed] using hin)
    | @killSendAtRemove sender peer cur peers work =>
      have hid : sender.id = peer := hcoh
      rw [List.mem_singleton.mp hin, hid] at hat
      simp at hat
    | _ => exact absurd hin List.not_mem_nil

/-- A flow leaves the directory by `unregister`. -/
theorem Advances.directory_next (h : Advances σ f σ' k) {id : FlowId}
    (hid : σ.directory id = true) :
    σ'.directory id = true ∨ ∃ cur work, f = .fin .unregister cur work ∧ id = cur.id := by
  rcases h.closer with ⟨cur, work, rfl, he⟩ | ⟨he, -⟩
  · by_cases hcur : id = cur.id
    · exact .inr ⟨cur, work, rfl, hcur⟩
    · exact .inl (by simpa [he, hcur] using hid)
  · exact .inl (he ▸ hid)

/-- A link is broken by the exit of an end. An abnormal exit has the other end on its list. -/
theorem Advances.links_next (h : Advances σ f σ' k) {l : Link} (hl : l ∈ σ.links.links) :
    l ∈ σ'.links.links ∨ ∃ cur work, f = .fin .links cur work ∧
      ((cur.id = l.a ∧ (cur.reason.isAbnormal = true → l.b ∈ k.flatMap Frame.told)) ∨
        (cur.id = l.b ∧ (cur.reason.isAbnormal = true → l.a ∈ k.flatMap Frame.told))) := by
  have hkept : ∀ {id}, l.a ≠ id → l.b ≠ id → l ∈ (σ.links.removeLinksOf id).1.links :=
    fun ha hb => LinkTable.mem_removeLinksOf.mpr ⟨hl, ha, hb⟩
  obtain ⟨hb, ha⟩ := LinkTable.mem_peers hl
  cases h with
  | @links cur work h =>
    by_cases hla : cur.id = l.a
    · refine .inr ⟨cur, work, rfl, .inl ⟨hla, fun _ => ?_⟩⟩
      simpa [Frame.told, hla] using hb
    · by_cases hlb : cur.id = l.b
      · refine .inr ⟨cur, work, rfl, .inr ⟨hlb, fun _ => ?_⟩⟩
        simpa [Frame.told, hlb] using ha fun heq => hla (hlb.trans heq.symm)
      · exact .inl (hkept (Ne.symm hla) (Ne.symm hlb))
  | @linksNormal cur work h =>
    by_cases hla : cur.id = l.a
    · exact .inr ⟨cur, work, rfl, .inl ⟨hla, fun habnormal => by simp [h] at habnormal⟩⟩
    · by_cases hlb : cur.id = l.b
      · exact .inr ⟨cur, work, rfl, .inr ⟨hlb, fun habnormal => by simp [h] at habnormal⟩⟩
      · exact .inl (hkept (Ne.symm hla) (Ne.symm hlb))
  | _ => exact .inl hl

end

/-! ## The invariant -/

/-- The exits that were finalized, and the one that is being finalized, up to where it has come. -/
structure Logged (σ₀ σ : Shared) (stack : List Frame) (log : List PendingExit) : Prop where
  once : (log.map (·.id)).Nodup
  current : ∀ b ∈ stack, ∀ p n, b.current = some (p, n) → 0 < n → p ∈ log
  cleared : ∀ p ∈ log, ∃ n, (∀ j < n, Clears j σ p.id) ∧
    (n = 15 ∨ 0 < n ∧ ∃ b ∈ stack, b.current = some (p, n))
  gone : ∀ id, σ₀.directory id = true → σ.directory id = true ∨ id ∈ log.map (·.id)

section

variable {σ₀ σ' : Shared} {s : State} {f : Frame} {k below : List Frame} {log : List PendingExit}

theorem Logged.finalized (h : Logged σ₀ s.shared (f :: below) log) (hstack : Stack (f :: below))
    {n : ℕ} {cur : PendingExit} (hcur : f.current = some (cur, n)) (hn : n = 0 ∨ n = 15)
    {p : PendingExit} (hp : p ∈ log) : s.shared.directory p.id = false := by
  obtain ⟨m, hm, rfl | ⟨hpos, b, hb, hb'⟩⟩ := h.cleared p hp
  · exact hm 9 (by omega)
  · cases hstack with
    | body hf =>
      cases List.mem_singleton.mp hb
      rw [hcur] at hb'
      cases hb'
      rcases hn with rfl | rfl
      · cases hpos
      · exact hm 9 (by omega)
    | aside hf =>
      cases f <;> first | exact hf.elim | cases hcur

theorem Logged.step (h : Logged σ₀ s.shared (f :: below) log) (hs : Sound s) (hf : f ∈ s.frames)
    (hstack : Stack (f :: below)) (hnames : s.shared.registry.Coherent)
    (hknows : f.Knows s.shared) (ha : Advances s.shared f σ' k) :
    Logged σ₀ σ' (k ++ below) (log ++ f.starts) where
  once := by
    cases f with
    | fin stage cur work =>
      cases stage with
      | killTake =>
        have hcur : s.shared.directory cur.id = true :=
          hs.registered.frames _ hf cur.id (cur_mem_boxes .killTake cur work)
        simp only [Frame.starts, List.map_append, List.map_cons, List.map_nil]
        refine List.nodup_append.mpr ⟨h.once, List.nodup_singleton _, ?_⟩
        rintro a ha b hb rfl
        obtain ⟨p, hp, hid⟩ := List.mem_map.mp ha
        have hgone := h.finalized hstack rfl (.inl rfl) hp
        rw [hid, List.mem_singleton.mp hb, hcur] at hgone
        cases hgone
      | _ => simpa [Frame.starts] using h.once
    | _ => simpa [Frame.starts] using h.once
  current := by
    intro b hb p n hcur hn
    rcases List.mem_append.mp hb with hb | hb
    · obtain ⟨m, hm⟩ := ha.current_of_next hb hcur hn
      rcases Nat.eq_zero_or_pos m with rfl | hm'
      · -- only `killTake` is at the start of an exit
        cases f with
        | fin stage cur work =>
          cases stage <;> simp [Frame.current, FinStage.order] at hm
          exact List.mem_append_right _ (by simp [Frame.starts, hm])
        | kill stage peer reason next => cases next <;> simp [Frame.current] at hm
        | _ => cases hm
      · exact List.mem_append_left _ (h.current f List.mem_cons_self p m hm hm')
    · exact List.mem_append_left _ (h.current b (List.mem_cons_of_mem _ hb) p n hcur hn)
  cleared := by
    intro p hp
    have hcurrent : ∀ n, (∀ j < n, Clears j σ' p.id) → f.current = some (p, n) →
        ∃ n, (∀ j < n, Clears j σ' p.id) ∧
          (n = 15 ∨ 0 < n ∧ ∃ b ∈ k ++ below, b.current = some (p, n)) := by
      intro n hn hcur
      obtain ⟨m, hm, hnext⟩ := ha.clears hnames hcur
      refine ⟨m, fun j hj => ?_, ?_⟩
      · by_cases hjn : j < n
        · exact hn j hjn
        · exact hm j (Nat.le_of_not_lt hjn) hj
      · rcases hnext with rfl | ⟨hpos, b, hb, hb'⟩
        · exact .inl rfl
        · exact .inr ⟨hpos, b, List.mem_append_left _ hb, hb'⟩
    rcases List.mem_append.mp hp with hold | hp
    · obtain ⟨n, hn, hcur⟩ := h.cleared p hold
      have hsignal : s.shared.killSignals p.id = none → σ'.killSignals p.id = none := by
        intro hnone
        rcases ha.killSignals with ⟨cur, work, -, he⟩ | ⟨peer, cur, peers, work, rfl, he⟩ | he
        · by_cases hid : p.id = cur.id
          · simp [he, hid]
          · simpa [he, hid] using hnone
        · -- a kill signal is for a flow that is registered
          have hgone := h.finalized hstack rfl (.inr rfl) hold
          have hne : p.id ≠ peer := by
            rintro rfl
            rw [show s.shared.directory p.id = true from hknows] at hgone
            cases hgone
          simpa [he, hne] using hnone
        · rwa [he]
      have hkept : ∀ j < n, Clears j σ' p.id := fun j hj =>
        ha.shrinks.clears (hn j hj) hsignal
      rcases hcur with rfl | ⟨hpos, b, hb, hb'⟩
      · exact ⟨15, hkept, .inl rfl⟩
      · rcases List.mem_cons.mp hb with rfl | hb
        · exact hcurrent n hkept hb'
        · exact ⟨n, hkept, .inr ⟨hpos, b, List.mem_append_right _ hb, hb'⟩⟩
    · have hcur : f.current = some (p, 0) := by
        unfold Frame.starts at hp
        split at hp
        · cases List.mem_singleton.mp hp
          rfl
        · cases hp
      exact hcurrent 0 (fun j hj => absurd hj (Nat.not_lt_zero j)) hcur
  gone := by
    intro id hid
    rcases h.gone id hid with hd | hlog
    · rcases ha.directory_next hd with hd | ⟨cur, work, rfl, rfl⟩
      · exact .inl hd
      · refine .inr (List.mem_map.mpr ⟨cur, List.mem_append_left _ ?_, rfl⟩)
        exact h.current _ List.mem_cons_self cur 9 rfl (by omega)
    · refine .inr ?_
      rw [List.map_append]
      exact List.mem_append_left _ hlog

/-- Every exit but the first is drawn along by one before it. -/
structure Drawn (σ₀ σ : Shared) (start : PendingExit) (stack : List Frame)
    (log : List PendingExit) : Prop where
  begins : (log = [] ∧ stack = [.fin .killTake start []]) ∨ log.head? = some start
  drawn : ∀ before p after, log = before ++ p :: after →
    before = [] ∨ ∃ q ∈ before, Draws σ₀ q p.id
  taken : ∀ a ∈ stack.flatMap Frame.taken, log = [] ∨ ∃ q ∈ log, Draws σ₀ q a
  told : ∀ b ∈ stack, ∀ p n, b.current = some (p, n) → ∀ a ∈ b.told,
    p.reason.isAbnormal = true ∧ σ₀.Linked p.id a
  signals : ∀ id, id ∈ log.map (·.id) ∨ σ.killSignals id = σ₀.killSignals id ∨
    (σ.killSignals id = some .link ∧
      ∃ p ∈ log, p.reason.isAbnormal = true ∧ σ₀.Linked p.id id)

variable {start : PendingExit}

/-- A peer that is to be killed is linked to an exit that is being finalized. -/
theorem Drawn.linked (h : Drawn σ₀ s.shared start (f :: below) log)
    (hlog : Logged σ₀ s.shared (f :: below) log) {a : FlowId} (ha : a ∈ f.told) :
    ∃ p ∈ log, p.reason.isAbnormal = true ∧ σ₀.Linked p.id a := by
  obtain ⟨p, hp⟩ := Frame.current_of_told ha
  exact ⟨p, hlog.current f List.mem_cons_self p 15 hp (by omega),
    h.told f List.mem_cons_self p 15 hp a ha⟩

theorem Drawn.step (h : Drawn σ₀ s.shared start (f :: below) log)
    (hlog : Logged σ₀ s.shared (f :: below) log) (hs : Sound s) (hshrinks : Shrinks σ₀ s.shared)
    (ha : Advances s.shared f σ' k) : Drawn σ₀ σ' start (k ++ below) (log ++ f.starts) where
  begins := by
    rcases h.begins with ⟨rfl, he⟩ | hhead
    · cases he
      exact .inr rfl
    · exact .inr (by rw [List.head?_append, hhead]; rfl)
  drawn := by
    intro before p after he
    rcases f.starts_cases with hnone | ⟨cur, work, rfl, hone⟩
    · rw [hnone, List.append_nil] at he
      exact h.drawn before p after he
    · rw [hone] at he
      rcases List.eq_nil_or_concat' after with rfl | ⟨after, last, rfl⟩
      · obtain ⟨rfl, hp⟩ := List.append_inj' he rfl
        cases hp
        exact h.taken p.id (by simp [Frame.taken])
      · rw [← List.cons_append, ← List.append_assoc] at he
        exact h.drawn before p after (List.append_inj' he rfl).1
  taken := by
    intro a hin
    have hmono : (log = [] ∨ ∃ q ∈ log, Draws σ₀ q a) → log ≠ [] →
        ∃ q ∈ log ++ f.starts, Draws σ₀ q a := by
      rintro (hnil | ⟨q, hq, hdraws⟩) hne
      · exact absurd hnil hne
      · exact ⟨q, List.mem_append_left _ hq, hdraws⟩
    rcases h.begins with ⟨rfl, he⟩ | hhead
    · -- the first exit has drawn nothing along yet
      cases he
      cases ha
      cases hin
    have hne : log ≠ [] := by
      rintro rfl
      cases hhead
    rw [List.flatMap_append, List.mem_append] at hin
    rcases hin with hin | hin
    · rcases ha.taken_of_next hs.homed hin with hin | hin | ⟨cur, work, rfl, w, hw, rfl⟩
      · exact .inr (hmono (h.taken a (by simp [hin])) hne)
      · obtain ⟨p, hp, habnormal, hlinked⟩ := h.linked hlog hin
        exact .inr ⟨p, List.mem_append_left _ hp, .inr ⟨habnormal, hlinked⟩⟩
      · have hcur := hlog.current _ List.mem_cons_self cur 4 rfl (by omega)
        exact .inr ⟨cur, List.mem_append_left _ hcur,
          .inl ⟨w, (hshrinks.mailboxes cur.id).waiting hw, rfl⟩⟩
    · exact .inr (hmono (h.taken a (by simp [hin])) hne)
  told := by
    intro b hb p n hcur a hin
    rcases List.mem_append.mp hb with hb | hb
    · obtain ⟨p', hp'⟩ := Frame.current_of_told hin
      rw [hcur] at hp'
      cases hp'
      obtain ⟨m, hm⟩ := ha.current_of_next hb hcur (by omega)
      rcases ha.told_of_next hb hin with hin | ⟨cur, work, rfl, habnormal, hin⟩
      · exact h.told f List.mem_cons_self p m hm a hin
      · cases hm
        refine ⟨habnormal, ?_⟩
        obtain ⟨l, hl, hpeer⟩ := List.mem_filterMap.mp hin
        refine ⟨l, hshrinks.links hl, ?_⟩
        split_ifs at hpeer with hla hlb
        · exact .inl ⟨hla, Option.some.inj hpeer⟩
        · exact .inr ⟨Option.some.inj hpeer, hlb⟩
    · exact h.told b (List.mem_cons_of_mem _ hb) p n hcur a hin
  signals := by
    intro id
    have hkept : σ'.killSignals id = s.shared.killSignals id → id ∈ (log ++ f.starts).map (·.id) ∨
        σ'.killSignals id = σ₀.killSignals id ∨ (σ'.killSignals id = some .link ∧
          ∃ p ∈ log ++ f.starts, p.reason.isAbnormal = true ∧ σ₀.Linked p.id id) := by
      intro he
      rw [he]
      rcases h.signals id with hin | hsame | ⟨hlink, p, hp, hlinked⟩
      · rw [List.map_append]
        exact .inl (List.mem_append_left _ hin)
      · exact .inr (.inl hsame)
      · exact .inr (.inr ⟨hlink, p, List.mem_append_left _ hp, hlinked⟩)
    rcases ha.killSignals with ⟨cur, work, rfl, he⟩ | ⟨peer, cur, peers, work, rfl, he⟩ | he
    · by_cases hid : id = cur.id
      · exact .inl (by simp [Frame.starts, hid])
      · exact hkept (by simp [he, hid])
    · by_cases hid : id = peer
      · subst hid
        obtain ⟨p, hp, hlinked⟩ := h.linked hlog List.mem_cons_self
        exact .inr (.inr ⟨by simp [he], p, List.mem_append_left _ hp, hlinked⟩)
      · exact hkept (by simp [he, hid])
    · exact hkept (by rw [he])

/-- A peer of an abnormal exit is finalized or will be, or its kill signal has reached it. -/
def Reached (σ : Shared) (stack : List Frame) (log : List PendingExit) (id : FlowId) : Prop :=
  id ∈ log.map (·.id) ∨ id ∈ stack.flatMap Frame.taken ∨ id ∈ stack.flatMap Frame.told ∨
    (σ.killSignals id = some .link ∧ σ.Unparked id)

/-- Nobody who waits to send to an exit, or is linked to an abnormal one, is forgotten. -/
structure Caught (σ₀ σ : Shared) (stack : List Frame) (log : List PendingExit) : Prop where
  senders : ∀ id, ∀ w ∈ (σ₀.mailboxes id).waitingSenders,
    w ∈ (σ.mailboxes id).waitingSenders ∨ w.flow.id ∈ stack.flatMap Frame.taken ∨
      w.flow.id ∈ log.map (·.id)
  peers : ∀ l ∈ σ₀.links.links, l ∈ σ.links.links ∨ ∃ p ∈ log,
    (p.id = l.a ∧ (p.reason.isAbnormal = true → σ₀.directory l.b = true →
        Reached σ stack log l.b)) ∨
      (p.id = l.b ∧ (p.reason.isAbnormal = true → σ₀.directory l.a = true →
        Reached σ stack log l.a))

/-- A flow that is to be finalized still is, or it is being finalized now. -/
theorem Advances.taken_append (ha : Advances s.shared f σ' k) {id : FlowId}
    (h : id ∈ (f :: below).flatMap Frame.taken ∨ id ∈ log.map (·.id)) :
    id ∈ (k ++ below).flatMap Frame.taken ∨ id ∈ (log ++ f.starts).map (·.id) := by
  rw [List.flatMap_append, List.map_append, List.mem_append, List.mem_append]
  rcases h with hin | hin
  · rw [List.flatMap_cons, List.mem_append] at hin
    rcases hin with hin | hin
    · rcases ha.taken_next hin with hk | ⟨cur, work, rfl, rfl⟩
      · exact .inl (.inl hk)
      · exact .inr (.inr List.mem_cons_self)
    · exact .inl (.inr hin)
  · exact .inr (.inl hin)

theorem Reached.step {id : FlowId} (h : Reached s.shared (f :: below) log id) (hs : Sound s)
    (hf : f ∈ s.frames) (hknows : f.Knows s.shared)
    (hgone : s.shared.directory id = true ∨ id ∈ log.map (·.id))
    (ha : Advances s.shared f σ' k) : Reached σ' (k ++ below) (log ++ f.starts) id := by
  have htaken : id ∈ (f :: below).flatMap Frame.taken ∨ id ∈ log.map (·.id) →
      Reached σ' (k ++ below) (log ++ f.starts) id := by
    intro hin
    rcases ha.taken_append hin with hin | hin
    · exact .inr (.inl hin)
    · exact .inl hin
  rcases h with hin | hin | hin | ⟨hsignal, hunparked⟩
  · exact htaken (.inr hin)
  · exact htaken (.inl hin)
  · rw [List.flatMap_cons, List.mem_append] at hin
    rcases hin with hin | hin
    · rcases ha.told_next hs (hs.coherent f hf) hknows hin with ⟨b, hb, hin⟩ | hin | hdir | hsignal
      · refine .inr (.inr (.inl ?_))
        rw [List.flatMap_append, List.mem_append]
        exact .inl (List.mem_flatMap.mpr ⟨b, hb, hin⟩)
      · refine .inr (.inl ?_)
        rw [List.flatMap_append, List.mem_append]
        exact .inl hin
      · rcases hgone with hlive | hlog
        · rw [hdir] at hlive
          cases hlive
        · exact htaken (.inr hlog)
      · exact .inr (.inr (.inr hsignal))
    · refine .inr (.inr (.inl ?_))
      rw [List.flatMap_append, List.mem_append]
      exact .inr hin
  · have hunparked' := ha.shrinks.unparked hunparked
    rcases ha.killSignals with ⟨cur, work, rfl, he⟩ | ⟨peer, cur, peers, work, rfl, he⟩ | he
    · by_cases hid : id = cur.id
      · exact .inl (by simp [Frame.starts, hid])
      · exact .inr (.inr (.inr ⟨by simp [he, hid, hsignal], hunparked'⟩))
    · refine .inr (.inr (.inr ⟨?_, hunparked'⟩))
      by_cases hid : id = peer
      · simp [he, hid]
      · simp [he, hid, hsignal]
    · exact .inr (.inr (.inr ⟨he ▸ hsignal, hunparked'⟩))

theorem Caught.step (h : Caught σ₀ s.shared (f :: below) log)
    (hlog : Logged σ₀ s.shared (f :: below) log) (hs : Sound s) (hf : f ∈ s.frames)
    (hknows : f.Knows s.shared) (ha : Advances s.shared f σ' k) :
    Caught σ₀ σ' (k ++ below) (log ++ f.starts) where
  senders := by
    intro id w hw
    rcases h.senders id w hw with hw | hin
    · rcases ha.waiting_next hw with hw | ⟨-, hin⟩
      · exact .inl hw
      · refine .inr (.inl ?_)
        rw [List.flatMap_append, List.mem_append]
        exact .inl hin
    · exact .inr (ha.taken_append hin)
  peers := by
    intro l hl
    have hstep : ∀ {p : PendingExit} {id : FlowId}, (p.reason.isAbnormal = true →
        σ₀.directory id = true → Reached s.shared (f :: below) log id) →
          p.reason.isAbnormal = true → σ₀.directory id = true →
            Reached σ' (k ++ below) (log ++ f.starts) id :=
      fun hp habnormal hid => (hp habnormal hid).step hs hf hknows (hlog.gone _ hid) ha
    have htold : ∀ {id : FlowId}, id ∈ k.flatMap Frame.told →
        Reached σ' (k ++ below) (log ++ f.starts) id := by
      intro id hin
      refine .inr (.inr (.inl ?_))
      rw [List.flatMap_append, List.mem_append]
      exact .inl hin
    rcases h.peers l hl with hl | ⟨p, hp, ⟨hid, hreached⟩ | ⟨hid, hreached⟩⟩
    · rcases ha.links_next hl with hl | ⟨cur, work, rfl, hcur⟩
      · exact .inl hl
      · have hin := hlog.current _ List.mem_cons_self cur 14 rfl (by omega)
        refine .inr ⟨cur, List.mem_append_left _ hin, ?_⟩
        rcases hcur with ⟨hid, hb⟩ | ⟨hid, hb⟩
        · exact .inl ⟨hid, fun habnormal _ => htold (hb habnormal)⟩
        · exact .inr ⟨hid, fun habnormal _ => htold (hb habnormal)⟩
    · exact .inr ⟨p, List.mem_append_left _ hp, .inl ⟨hid, hstep hreached⟩⟩
    · exact .inr ⟨p, List.mem_append_left _ hp, .inr ⟨hid, hstep hreached⟩⟩

/-- The indexes tell the truth, but for what the finalization has just taken out. -/
structure Tracked (s : State) (stack : List Frame) : Prop where
  coherent : s.shared.askWaits.Coherent
  complete : s.shared.askWaits.Complete
  names : s.shared.registry.Coherent
  knows : ∀ b ∈ stack, b.Knows s.shared
  indexed : ∀ a target, s.shared.waitingSendAt a = some target →
    (∃ w ∈ (s.shared.mailboxes target).waitingSenders, w.flow.id = a) ∨
      a ∈ stack.flatMap Frame.indexed
  asking : ∀ a target, ParkedAsk s a target →
    a ∈ s.shared.askWaits.askersOf target ∨ (a, target) ∈ stack.flatMap Frame.askers

theorem Advances.askWaits_next (ha : Advances s.shared f σ' k) :
    σ'.askWaits = s.shared.askWaits ∨ (∃ a, σ'.askWaits = s.shared.askWaits.removeAsker a) ∨
      ∃ target, σ'.askWaits = (s.shared.askWaits.takeWaitersOf target).1 := by
  cases ha with
  | askRemove => exact .inr (.inl ⟨_, rfl⟩)
  | forget => exact .inr (.inl ⟨_, rfl⟩)
  | waiters => exact .inr (.inr ⟨_, rfl⟩)
  | _ => exact .inl rfl

theorem Advances.registry_next (ha : Advances s.shared f σ' k) :
    σ'.registry = s.shared.registry ∨ ∃ id, σ'.registry = s.shared.registry.unregisterFlow id := by
  cases ha with
  | names => exact .inr ⟨_, rfl⟩
  | _ => exact .inl rfl

theorem Tracked.step (h : Tracked s (f :: below)) (hs : Sound s) (hf : f ∈ s.frames) {s' : State}
    (hstack : Stack (f :: below)) (ha : Advances s.shared f s'.shared k) :
    Tracked s' (k ++ below) where
  coherent := by
    rcases ha.askWaits_next with he | ⟨a, he⟩ | ⟨target, he⟩
    · exact he ▸ h.coherent
    · exact he ▸ h.coherent.removeAsker a
    · exact he ▸ h.coherent.takeWaitersOf target
  complete := by
    rcases ha.askWaits_next with he | ⟨a, he⟩ | ⟨target, he⟩
    · exact he ▸ h.complete
    · exact he ▸ h.complete.removeAsker a
    · exact he ▸ h.complete.takeWaitersOf target
  names := by
    rcases ha.registry_next with he | ⟨id, he⟩
    · exact he ▸ h.names
    · exact he ▸ h.names.unregisterFlow id
  knows := by
    intro b hb
    rcases List.mem_append.mp hb with hb | hb
    · exact ha.knows (h.knows f List.mem_cons_self) hb
    · cases hstack with
      | body hf => cases hb
      | aside hf =>
        cases List.mem_singleton.mp hb
        trivial
  indexed := by
    intro a target hat
    rw [List.flatMap_append, List.mem_append]
    have hcoh := hs.coherent f hf
    rcases h.indexed a target (ha.shrinks.waitingSendAt a target hat) with hw | hin
    · rcases ha.indexed_next hcoh hat (.inl hw) with hw | hin
      · exact .inl hw
      · exact .inr (.inl hin)
    · rw [List.flatMap_cons, List.mem_append] at hin
      rcases hin with hin | hin
      · rcases ha.indexed_next hcoh hat (.inr hin) with hw | hin
        · exact .inl hw
        · exact .inr (.inl hin)
      · exact .inr (.inr hin)
  asking := by
    rintro a target ⟨flow, requestId, hp, hfilter⟩
    rw [List.flatMap_append, List.mem_append]
    have hbefore : ParkedAsk s a target := by
      rcases (ha.shrinks.mailboxes a).parked with hnone | ⟨hsame, hsame'⟩
      · rw [hp] at hnone
        cases hnone
      · exact ⟨flow, requestId, hsame ▸ hp, hsame' ▸ hfilter⟩
    have hnext : a ∈ s.shared.askWaits.askersOf target ∨ (a, target) ∈ f.askers →
        a ∈ s'.shared.askWaits.askersOf target ∨ (a, target) ∈ k.flatMap Frame.askers ∨
          (a, target) ∈ below.flatMap Frame.askers := by
      intro hin
      rcases ha.asking_next hs hf hp hin with hin | hin
      · exact .inl hin
      · exact .inr (.inl hin)
    rcases h.asking a target hbefore with hin | hin
    · exact hnext (.inl hin)
    · rw [List.flatMap_cons, List.mem_append] at hin
      rcases hin with hin | hin
      · exact hnext (.inr hin)
      · exact .inr (.inr hin)

end

/-! ## A finalization from beginning to end -/

/-- The exits that the step starts to finalize. -/
def started (s : State) (ti : ℕ × Input) : List PendingExit :=
  match s.threads ti.1 with
  | f :: _ => f.starts
  | [] => []

/-- The step takes an entry that the hash table holds. -/
def Picks (s : State) (ti : ℕ × Input) : Prop :=
  match s.threads ti.1 with
  | f :: _ => f.Picks ti.2
  | [] => True

/-- The indexes agree with the mailboxes: who waits to send or is parked on an `Ask` is in the index
under its target, nobody else is in `waiting_send_at`, and the two directions of the ask index and
of the registry match. -/
structure Agree (s : State) : Prop where
  sound : Sound s
  waiting : ∀ sender target, s.shared.waitingSendAt sender = some target →
    ∃ w ∈ (s.shared.mailboxes target).waitingSenders, w.flow.id = sender
  asking : ∀ asker target, ParkedAsk s asker target →
    asker ∈ s.shared.askWaits.askersOf target
  coherent : s.shared.askWaits.Coherent
  complete : s.shared.askWaits.Complete
  names : s.shared.registry.Coherent

/-- Nothing is left of the flow in any table. -/
structure Swept (σ : Shared) (id : FlowId) : Prop where
  directory : σ.directory id = false
  killSignal : σ.killSignals id = none
  sender : σ.waitingSendAt id = none
  target : ∀ sender, σ.waitingSendAt sender ≠ some id
  asker : σ.askWaits.byAsker id = none ∧ σ.askWaits.requestIds id = none ∧
    ∀ target, id ∉ σ.askWaits.askersOf target
  asked : σ.askWaits.askersOf id = [] ∧ ∀ asker, σ.askWaits.byAsker asker ≠ some id
  monitors : ∀ e ∈ σ.monitors.monitors, e.owner ≠ id ∧ e.target ≠ id
  names : ∀ name, σ.registry.target name ≠ some id
  links : ∀ l ∈ σ.links.links, l.a ≠ id ∧ l.b ≠ id

/-- What a finalization of `start` does: the exits of `log` are those that it has finalized. -/
structure Propagated (s : State) (start : PendingExit) (log : List PendingExit) (s' : State) :
    Prop where
  head : log.head? = some start
  once : (log.map (·.id)).Nodup
  drawn : ∀ before p after, log = before ++ p :: after →
    before = [] ∨ ∃ q ∈ before, Draws s.shared q p.id
  senders : ∀ p ∈ log, ∀ w ∈ (s.shared.mailboxes p.id).waitingSenders,
    w.flow.id ∈ log.map (·.id)
  peers : ∀ p ∈ log, p.reason.isAbnormal = true → ∀ peer, s.shared.Linked p.id peer →
    s.shared.directory peer = true → peer ∈ log.map (·.id) ∨
      (s'.shared.killSignals peer = some .link ∧ s'.shared.Unparked peer)
  askers : ∀ p ∈ log, ∀ asker, ParkedAsk s asker p.id →
    (s'.shared.mailboxes asker).parked = none
  swept : ∀ p ∈ log, Swept s'.shared p.id
  signals : ∀ id, id ∈ log.map (·.id) ∨ s'.shared.killSignals id = s.shared.killSignals id ∨
    (s'.shared.killSignals id = some .link ∧
      ∃ p ∈ log, p.reason.isAbnormal = true ∧ s.shared.Linked p.id id)
  quiet : start.reason = .normal → (s.shared.mailboxes start.id).waitingSenders = [] →
    log = [start] ∧ ∀ id ≠ start.id, s'.shared.killSignals id = s.shared.killSignals id

/-- The state of a finalization, with the frames that it has on its thread. -/
structure Cascade (σ₀ : Shared) (start : PendingExit) (s : State) (stack : List Frame)
    (log : List PendingExit) : Prop where
  sound : Sound s
  shape : Stack stack
  shrinks : Shrinks σ₀ s.shared
  logged : Logged σ₀ s.shared stack log
  drawn : Drawn σ₀ s.shared start stack log
  caught : Caught σ₀ s.shared stack log
  tracked : Tracked s stack

theorem Agree.cascade {s : State} (h : Agree s) (start : PendingExit) :
    Cascade s.shared start s [.fin .killTake start []] [] where
  sound := h.sound
  shape := .body trivial
  shrinks := .refl _
  logged :=
    { once := List.nodup_nil
      current := fun b hb p n hcur hn => by
        cases List.mem_singleton.mp hb
        cases hcur
        cases hn
      cleared := fun p hp => by cases hp
      gone := fun id hid => .inl hid }
  drawn :=
    { begins := .inl ⟨rfl, rfl⟩
      drawn := fun before p after he => by simp at he
      taken := fun a _ => .inl rfl
      told := fun b hb p n hcur a ha => by
        cases List.mem_singleton.mp hb
        cases ha
      signals := fun id => .inr (.inl rfl) }
  caught :=
    { senders := fun id w hw => .inl hw
      peers := fun l hl => .inl hl }
  tracked :=
    { coherent := h.coherent
      complete := h.complete
      names := h.names
      knows := fun b hb => by
        cases List.mem_singleton.mp hb
        trivial
      indexed := fun a target hat => .inl (h.waiting a target hat)
      asking := fun a target hp => .inl (h.asking a target hp) }

/-- A step of a finalization that is not at its end. -/
theorem Cascade.step {σ₀ : Shared} {start : PendingExit} {s : State} {f : Frame}
    {below rest : List Frame} {log : List PendingExit}
    (h : Cascade σ₀ start s (f :: below) log) {t : ℕ} {i : Input}
    (hs : s.threads t = f :: below ++ rest) (hpick : f.Picks i) :
    ∃ k, (Machine.step s (t, i)).threads t = k ++ below ++ rest ∧
      Cascade σ₀ start (Machine.step s (t, i)) (k ++ below) (log ++ f.starts) ∧
      workLeft t (Machine.step s (t, i)) < workLeft t s := by
  have hf : f ∈ s.frames := mem_frames_of_cons hs
  have hkind : f.Body ∨ f.Aside := by
    cases h.shape with
    | body hb => exact .inl hb
    | aside ha => exact .inr ha
  obtain ⟨k, ha, hthread⟩ := step_advances h.sound.owned hs hkind hpick
  have hknows := h.tracked.knows f List.mem_cons_self
  refine ⟨k, hthread.trans (List.append_assoc ..).symm, ?_, workLeft_step h.sound hs ha hthread⟩
  exact {
    sound := h.sound.step (t, i)
    shape := ha.stack_append h.shape
    shrinks := h.shrinks.trans ha.shrinks
    logged := h.logged.step h.sound hf h.shape h.tracked.names hknows ha
    drawn := h.drawn.step h.logged h.sound h.shrinks ha
    caught := h.caught.step h.logged h.sound hf hknows ha
    tracked := h.tracked.step h.sound hf h.shape ha }

/-- Nothing is left of a flow that was finalized. -/
theorem Cascade.swept {σ₀ : Shared} {start : PendingExit} {s : State} {log : List PendingExit}
    (h : Cascade σ₀ start s [] log) {p : PendingExit} (hp : p ∈ log) : Swept s.shared p.id := by
  obtain ⟨n, hn, rfl | ⟨-, b, hb, -⟩⟩ := h.logged.cleared p hp
  · have hdir : s.shared.directory p.id = false := hn 9 (by omega)
    have hasker :
        s.shared.askWaits.byAsker p.id = none ∧ s.shared.askWaits.requestIds p.id = none :=
      hn 2 (by omega)
    have hasked : s.shared.askWaits.askersOf p.id = [] := hn 6 (by omega)
    have howner : ∀ e ∈ s.shared.monitors.monitors, e.owner ≠ p.id := hn 10 (by omega)
    have htarget : ∀ e ∈ s.shared.monitors.monitors, e.target ≠ p.id := hn 12 (by omega)
    refine ⟨hdir, hn 0 (by omega), hn 1 (by omega), fun sender hat => ?_,
      ⟨hasker.1, hasker.2, fun target hin => ?_⟩, ⟨hasked, fun asker hby => ?_⟩,
      fun e he => ⟨howner e he, htarget e he⟩, hn 11 (by omega), hn 14 (by omega)⟩
    · -- who waits at the flow would wait at a closed mailbox
      rcases h.tracked.indexed sender p.id hat with ⟨w, hw, -⟩ | hin
      · have hsp := (h.sound.indexed.waiting p.id w hw).2
        rw [h.sound.closed.directory_of_waiting hsp hw] at hdir
        cases hdir
      · cases hin
    · have hby := (h.tracked.coherent p.id target hin).1
      rw [hasker.1] at hby
      cases hby
    · have hin := h.tracked.complete.listed asker p.id hby
      rw [hasked] at hin
      cases hin
  · cases hb

/-- What has happened when a finalization is at its end. -/
theorem Cascade.propagated {s₀ s : State} {start : PendingExit} {log : List PendingExit}
    (h : Cascade s₀.shared start s [] log) : Propagated s₀ start log s := by
  have hhead : log.head? = some start := by
    rcases h.drawn.begins with ⟨-, he⟩ | hhead
    · cases he
    · exact hhead
  have hreached : ∀ {id}, Reached s.shared [] log id → id ∈ log.map (·.id) ∨
      (s.shared.killSignals id = some .link ∧ s.shared.Unparked id) := by
    rintro id (hin | hin | hin | hsignal)
    · exact .inl hin
    · cases hin
    · cases hin
    · exact .inr hsignal
  refine ⟨hhead, h.logged.once, h.drawn.drawn, fun p hp w hw => ?_, ?_, ?_, fun p hp => h.swept hp,
    h.drawn.signals, fun hnormal hnobody => ?_⟩
  · rcases h.caught.senders p.id w hw with hw | hin | hin
    · have hsp := (h.sound.indexed.waiting p.id w hw).2
      have hdir := (h.swept hp).directory
      rw [h.sound.closed.directory_of_waiting hsp hw] at hdir
      cases hdir
    · cases hin
    · exact hin
  · intro p hp habnormal peer ⟨l, hl, hends⟩ hlive
    rcases h.caught.peers l hl with hl | ⟨q, hq, hcaught⟩
    · obtain ⟨ha, hb⟩ := (h.swept hp).links l hl
      rcases hends with ⟨hla, -⟩ | ⟨-, hlb⟩
      · exact absurd hla ha
      · exact absurd hlb hb
    · -- the end that broke the link is the exit itself, or the peer
      have hsame : q.id = p.id → q = p := fun hid =>
        List.inj_on_of_nodup_map h.logged.once hq hp hid
      have hpeer : q.id = peer → peer ∈ log.map (·.id) :=
        fun hid => List.mem_map.mpr ⟨q, hq, hid⟩
      rcases hends with ⟨hla, hlb⟩ | ⟨hla, hlb⟩
      · rcases hcaught with ⟨hid, hnext⟩ | ⟨hid, -⟩
        · obtain rfl := hsame (hid.trans hla)
          exact hreached (hlb ▸ hnext habnormal (hlb ▸ hlive))
        · exact .inl (hpeer (hid.trans hlb))
      · rcases hcaught with ⟨hid, -⟩ | ⟨hid, hnext⟩
        · exact .inl (hpeer (hid.trans hla))
        · obtain rfl := hsame (hid.trans hlb)
          exact hreached (hla ▸ hnext habnormal (hla ▸ hlive))
  · rintro p hp asker hasking
    rw [Option.eq_none_iff_forall_ne_some]
    intro flow hparked
    obtain ⟨flow', requestId, hp', hfilter⟩ := hasking
    have hnow : ParkedAsk s asker p.id := by
      rcases (h.shrinks.mailboxes asker).parked with hnone | ⟨-, hsame⟩
      · rw [hnone] at hparked
        cases hparked
      · exact ⟨flow, requestId, hparked, hsame ▸ hfilter⟩
    rcases h.tracked.asking asker p.id hnow with hin | hin
    · rw [(h.swept hp).asked.1] at hin
      cases hin
    · cases hin
  · obtain ⟨others, rfl⟩ := List.head?_eq_some_iff.mp hhead
    have hnone : others = [] := by
      cases others with
      | nil => rfl
      | cons p after =>
        rcases h.drawn.drawn [start] p after rfl with he | ⟨q, hq, ⟨w, hw, -⟩ | ⟨habnormal, -⟩⟩
        · cases he
        · rw [List.mem_singleton.mp hq, hnobody] at hw
          cases hw
        · rw [List.mem_singleton.mp hq, hnormal] at habnormal
          cases habnormal
    subst hnone
    refine ⟨rfl, fun id hid => ?_⟩
    rcases h.drawn.signals id with hin | hsame | ⟨-, p, hp, habnormal, -⟩
    · exact absurd (List.mem_singleton.mp hin) hid
    · exact hsame
    · rw [List.mem_singleton.mp hp, hnormal] at habnormal
      cases habnormal

/-- **Exit propagation is complete and exact.** A finalization that no other step interrupts ends,
whatever order the hash tables have. It finalizes no flow twice, every sender that waits at a
flow it finalizes, and the peers of abnormal exits that it finds in a mailbox; to the others it
leaves the kill signal. It wakes the askers, and nothing is left of a flow that it finalized. -/
theorem exit_propagation (s : State) (hagree : Agree s) (t : ℕ) (flow : Flow Hop)
    (outcome : FlowOutcome) (reason : FlowExitReason) (rest : List Frame)
    (hs : s.threads t = finalize flow outcome reason ++ rest) (order : ℕ → Input)
    (horder : ∀ n, Picks (Schedule.run step s (Schedule.first (fun m => (t, order m)) n))
      (t, order n)) :
    ∃ n, (Schedule.run step s (Schedule.first (fun m => (t, order m)) n)).threads t = rest ∧
      Propagated s ⟨flow, outcome, reason⟩
        (Schedule.trace step started s (Schedule.first (fun m => (t, order m)) n))
        (Schedule.run step s (Schedule.first (fun m => (t, order m)) n)) := by
  have hstep : ∀ (s' : State) (ti : ℕ × Input) (log : List PendingExit),
      (ti.1 = t ∧ Picks s' ti) →
      (∃ stack, s'.threads t = stack ++ rest ∧
        Cascade s.shared ⟨flow, outcome, reason⟩ s' stack log) →
      ¬s'.threads t = rest →
      (∃ stack, (step s' ti).threads t = stack ++ rest ∧
        Cascade s.shared ⟨flow, outcome, reason⟩ (step s' ti) stack (log ++ started s' ti)) ∧
          workLeft t (step s' ti) < workLeft t s' := by
    rintro s' ⟨r, i⟩ log ⟨rfl, hpick⟩ ⟨stack, hthread, hcascade⟩ hend
    cases stack with
    | nil => exact absurd hthread hend
    | cons f below =>
      have hpick' : f.Picks i := by
        simpa only [Picks, hthread, List.cons_append] using hpick
      have hstarted : started s' (r, i) = f.starts := by
        simp only [started, hthread, List.cons_append]
      obtain ⟨k, hthread', hcascade', hless⟩ := hcascade.step hthread hpick'
      exact ⟨⟨k ++ below, hthread', hstarted ▸ hcascade'⟩, hless⟩
  obtain ⟨n, hend, stack, hthread, hcascade⟩ :=
    Schedule.ends (workLeft t) hstep ⟨_, hs, hagree.cascade _⟩ fun n => ⟨rfl, horder n⟩
  refine ⟨n, hend, Cascade.propagated ?_⟩
  rw [hend] at hthread
  obtain rfl : stack = [] := by simpa using hthread
  exact hcascade

/-- The first entry is always there. -/
theorem picks_zero (s : State) (t : ℕ) : Picks s (t, .pick 0) := by
  unfold Picks
  split
  · unfold Frame.Picks
    split
    · exact ⟨0, Nat.zero_le _, rfl⟩
    · exact ⟨0, Nat.zero_le _, rfl⟩
    · trivial
  · trivial

/-- Flow 2 is linked to flow 1 and monitors it. Flow 1 traps. -/
def trapsWithPeer : List (ℕ × Input) :=
  twoRunning ++ [(0, .vm (.link 2)), (1, .vm (.monitor 1)), (0, .vm (.trap "out of gas"))]

/-- Flow 1 goes, and flow 2 has its signal. -/
theorem exit_propagation_trap :
    ∃ n, (Schedule.run step (run .default trapsWithPeer) (steps 0 n)).threads 0 = [] ∧
      ((Schedule.run step (run .default trapsWithPeer) (steps 0 n)).shared.killSignals 2 = none →
        2 ∈ (Schedule.trace step started (run .default trapsWithPeer) (steps 0 n)).map (·.id)) := by
  have hmail : (run .default trapsWithPeer).shared.mailboxes = fun _ => .new .default := rfl
  have hat : (run .default trapsWithPeer).shared.waitingSendAt = fun _ => none := rfl
  have hask : (run .default trapsWithPeer).shared.askWaits = .new := rfl
  have hagree : Agree (run .default trapsWithPeer) := by
    refine ⟨run_sound .default trapsWithPeer, fun sender target h => ?_, ?_,
      hask ▸ AskWaitIndex.coherent_new, hask ▸ .new, Registry.Coherent.new⟩
    · rw [hat] at h
      cases h
    · rintro asker target ⟨flow, requestId, hp, -⟩
      rw [hmail] at hp
      cases hp
  have hfirst : ∀ n, Schedule.first (fun _ => ((0 : ℕ), Input.pick 0)) n = steps 0 n := by
    intro n
    simp [Schedule.first, steps]
  obtain ⟨n, hend, hprop⟩ := exit_propagation (run .default trapsWithPeer) hagree 0 (.new 1)
    (.failed "out of gas") .fault [] rfl (fun _ => .pick 0) fun n => picks_zero _ 0
  rw [hfirst] at hend hprop
  refine ⟨n, hend, fun hnone => ?_⟩
  obtain ⟨log, hlog⟩ := List.head?_eq_some_iff.mp hprop.head
  have hpeer := hprop.peers ⟨.new 1, .failed "out of gas", .fault⟩ (hlog ▸ List.mem_cons_self)
    rfl 2 ⟨⟨1, 1, 2⟩, List.mem_singleton_self _, .inl ⟨rfl, rfl⟩⟩ rfl
  rcases hpeer with hin | ⟨hsignal, -⟩
  · exact hin
  · rw [hnone] at hsignal
    cases hsignal

end Machine

end Byteflow
