import Byteflow.Scheduler.Mailbox.Named
import Byteflow.Scheduler.Mailbox.Wakeup
import Mathlib.Algebra.Order.Group.Multiset
import Mathlib.Data.List.Perm.Subperm
import Mathlib.Tactic.Abel

/-!
# Conservation and order of hops

A ledger of one mailbox: the hops it has accepted, delivered and evicted, each in the order in
which that happened. One step keeps the balance of the ledger (`after_perm`), the order of the
queue (`after_sublist`) and names no hop twice (`after_subperm`); over a history the queue is what
the ledger calls live (`queue_eq_live`).
-/

namespace Byteflow

namespace Mailbox

variable {H : Type} [HopView H]

/-! ## What one operation does -/

/-- The hop that an operation makes the mailbox accept: queued, handed off or admitted from a
waiting sender. -/
def acceptedBy (m : Mailbox H) : Op H → List H
  | .push value =>
    match (m.push value).2 with
    | .ok .droppedNewest => []
    | .ok _ => [value]
    | .error _ => []
  | .pushSystem value => [value]
  | .admitWaitingSender =>
    match m.admitWaitingSender.2 with
    | some _ => (m.waitingSenders.map (·.message)).take 1
    | none => []
  | _ => []

/-- The hop that an operation gives to a receiver. -/
def deliveredBy (m : Mailbox H) : Op H → List H
  | .push value =>
    match (m.push value).2 with
    | .ok (.handoff _) => [value]
    | _ => []
  | .pushSystem value =>
    match (m.pushSystem value).2 with
    | .handoff _ => [value]
    | _ => []
  | .tryPopFilter filter => (m.tryPopFilter filter).2.toList
  | .parkFilter flow filter =>
    match (m.parkFilter flow filter).2 with
    | .ok _ => []
    | .error flow => flow.pendingMessage.toList
  | _ => []

/-- The filter under which an operation delivers: a direct handoff is for the parked receiver. -/
def deliveryFilter (m : Mailbox H) : Op H → WaitFilter
  | .tryPopFilter filter => filter
  | .parkFilter _ filter => filter
  | _ => m.parkedFilter

/-- The hops that an operation evicts. -/
def evictedBy (m : Mailbox H) : Op H → List H
  | .push value =>
    match (m.push value).2 with
    | .ok (.handoff _) => []
    | _ => m.queue.evicted value m.config.overflow
  | _ => []

/-- A push that hands nothing off accepts what its enqueue admits. -/
theorem ledger_of_enqueueLocked {m : Mailbox H} {value : H}
    (he : m.push value = m.enqueueLocked value m.config.overflow) :
    m.acceptedBy (.push value) =
        MailboxQueue.admitted value (m.queue.enqueue value m.config.overflow).2 ∧
      m.deliveredBy (.push value) = [] ∧
      m.evictedBy (.push value) = m.queue.evicted value m.config.overflow := by
  simp only [acceptedBy, deliveredBy, evictedBy, he, enqueueLocked_result]
  rcases (m.queue.enqueue value m.config.overflow).2 with _ | _ | _ | _ <;> exact ⟨rfl, rfl, rfl⟩

/-- **Balance.** What was queued or is accepted is delivered, queued or evicted. -/
theorem after_perm (m : Mailbox H) (op : Op H) :
    (m.queue.inner ++ m.acceptedBy op).Perm
      (m.deliveredBy op ++ ((m.after op).queue.inner ++ m.evictedBy op)) := by
  cases op with
  | push value =>
    rcases m.push_cases value with ⟨flow, -, -, he⟩ | ⟨-, he⟩
    · simp only [acceptedBy, deliveredBy, evictedBy, Mailbox.after, he, List.append_nil]
      exact List.perm_append_comm
    · obtain ⟨hacc, hdel, hev⟩ := ledger_of_enqueueLocked he
      obtain ⟨kept, hkept, hin⟩ := m.queue.enqueue_inner value m.config.overflow
      rw [hacc, hdel, hev, Mailbox.after, he, enqueueLocked_queue, hin, List.nil_append, hkept,
        List.append_assoc]
      exact List.perm_append_comm
  | pushSystem value =>
    rcases m.pushSystem_cases value with ⟨flow, -, -, he⟩ | ⟨-, he⟩
    · simp only [acceptedBy, deliveredBy, evictedBy, Mailbox.after, he, List.append_nil]
      exact List.perm_append_comm
    · simp [acceptedBy, deliveredBy, evictedBy, Mailbox.after, he]
  | tryPopFilter filter =>
    rcases m.tryPopFilter_cases filter with ⟨h, hfind, he⟩ | ⟨-, he⟩
    · simpa [acceptedBy, deliveredBy, evictedBy, Mailbox.after, he]
        using FirstMatch.perm_cons_eraseP hfind
    · simp [acceptedBy, deliveredBy, evictedBy, Mailbox.after, he]
  | parkFilter flow filter =>
    rcases m.parkFilter_cases flow filter with ⟨h, hfind, he⟩ | ⟨-, he⟩
    · simpa [acceptedBy, deliveredBy, evictedBy, Mailbox.after, he]
        using FirstMatch.perm_cons_eraseP hfind
    · simp [acceptedBy, deliveredBy, evictedBy, Mailbox.after, he]
  | takeParkedAt epoch =>
    rcases m.takeParkedAt_cases epoch with ⟨flow, -, -, he⟩ | ⟨-, he⟩ <;>
      simp [acceptedBy, deliveredBy, evictedBy, Mailbox.after, he]
  | takeParked => simp [acceptedBy, deliveredBy, evictedBy, Mailbox.after, takeParked]
  | parkSender flow message =>
    simp only [acceptedBy, deliveredBy, evictedBy, Mailbox.after, parkSender]
    split_ifs <;> simp
  | admitWaitingSender =>
    rcases m.admitWaitingSender_cases with ⟨-, he⟩ | ⟨_, _, _, -, -, -, he⟩ |
      ⟨waiter, rest, capacity, -, hw, -, he⟩
    · simp [acceptedBy, deliveredBy, evictedBy, Mailbox.after, he]
    · simp [acceptedBy, deliveredBy, evictedBy, Mailbox.after, he]
    · simp [acceptedBy, deliveredBy, evictedBy, Mailbox.after, he, hw, MailboxQueue.pushBack]
  | takeWaitingSender sender =>
    simp only [acceptedBy, deliveredBy, evictedBy, Mailbox.after, takeWaitingSender]
    split <;> simp
  | close => simp [acceptedBy, deliveredBy, evictedBy, Mailbox.after, close]

/-- **Order.** Hops never overtake each other in the queue. -/
theorem after_sublist (m : Mailbox H) (op : Op H) :
    ((m.after op).queue.inner).Sublist (m.queue.inner ++ m.acceptedBy op) := by
  cases op with
  | push value =>
    rcases m.push_cases value with ⟨flow, -, -, he⟩ | ⟨-, he⟩
    · simp only [Mailbox.after, he]
      exact List.sublist_append_left _ _
    · obtain ⟨hacc, -, -⟩ := ledger_of_enqueueLocked he
      obtain ⟨kept, hkept, hin⟩ := m.queue.enqueue_inner value m.config.overflow
      rw [hacc, Mailbox.after, he, enqueueLocked_queue, hin, hkept]
      exact (List.sublist_append_right _ _).append_right _
  | pushSystem value =>
    rcases m.pushSystem_cases value with ⟨flow, -, -, he⟩ | ⟨-, he⟩
    · simp only [Mailbox.after, he]
      exact List.sublist_append_left _ _
    · simp [Mailbox.after, he, acceptedBy]
  | tryPopFilter filter =>
    rcases m.tryPopFilter_cases filter with ⟨h, -, he⟩ | ⟨-, he⟩ <;>
      simp [Mailbox.after, he, acceptedBy, List.eraseP_sublist]
  | parkFilter flow filter =>
    rcases m.parkFilter_cases flow filter with ⟨h, -, he⟩ | ⟨-, he⟩ <;>
      simp [Mailbox.after, he, acceptedBy, List.eraseP_sublist]
  | takeParkedAt epoch =>
    rcases m.takeParkedAt_cases epoch with ⟨flow, -, -, he⟩ | ⟨-, he⟩ <;>
      simp [Mailbox.after, he, acceptedBy]
  | takeParked => simp [Mailbox.after, acceptedBy, takeParked]
  | parkSender flow message =>
    simp only [Mailbox.after, acceptedBy, parkSender]
    split_ifs <;> simp
  | admitWaitingSender =>
    rcases m.admitWaitingSender_cases with ⟨-, he⟩ | ⟨_, _, _, -, -, -, he⟩ |
      ⟨waiter, rest, capacity, -, hw, -, he⟩
    · simp [Mailbox.after, he, acceptedBy]
    · simp [Mailbox.after, he, acceptedBy]
    · simp [Mailbox.after, he, acceptedBy, hw, MailboxQueue.pushBack]
  | takeWaitingSender sender =>
    simp only [Mailbox.after, acceptedBy, takeWaitingSender]
    split <;> simp
  | close => simp [Mailbox.after, acceptedBy, close]

/-- The hop that an operation gives to a receiver of any hop. -/
def takenBy (m : Mailbox H) (op : Op H) : List H :=
  if m.deliveryFilter op = .any then m.deliveredBy op else []

/-- **A receiver of any hop takes the oldest one**, which is in front of the queue, or comes to an
empty queue. -/
theorem takenBy_sublist {m : Mailbox H} (hm : m.NoMissedHop) (op : Op H) :
    (m.takenBy op ++ (m.after op).queue.inner).Sublist (m.queue.inner ++ m.acceptedBy op) := by
  have hsame : m.deliveredBy op = [] →
      (m.deliveredBy op ++ (m.after op).queue.inner).Sublist
        (m.queue.inner ++ m.acceptedBy op) := by
    intro hnone
    rw [hnone]
    exact m.after_sublist op
  have hhanded : ∀ flow, m.parked = some flow → m.parkedFilter = .any → m.queue.inner = [] := by
    intro flow hp hany
    refine List.eq_nil_iff_forall_not_mem.mpr fun h hh => ?_
    have hno := hm flow hp h hh
    rw [hany] at hno
    cases hno
  have hpopped : ∀ h, m.queue.inner.find? WaitFilter.any.accepts = some h →
      m.queue.inner = h :: m.queue.inner.eraseP WaitFilter.any.accepts :=
    fun h hfind => FirstMatch.eq_cons_eraseP_of_forall hfind fun _ _ => rfl
  unfold takenBy
  split_ifs with hany
  swap
  · exact m.after_sublist op
  cases op with
  | push value =>
    rcases m.push_cases value with ⟨flow, hp, -, he⟩ | ⟨-, he⟩
    · simp [deliveredBy, acceptedBy, Mailbox.after, he, handOff, hhanded flow hp hany]
    · exact hsame (ledger_of_enqueueLocked he).2.1
  | pushSystem value =>
    rcases m.pushSystem_cases value with ⟨flow, hp, -, he⟩ | ⟨-, he⟩
    · simp [deliveredBy, acceptedBy, Mailbox.after, he, handOff, hhanded flow hp hany]
    · exact hsame (by simp [deliveredBy, he])
  | tryPopFilter filter =>
    have hany : filter = .any := hany
    subst hany
    rcases m.tryPopFilter_cases .any with ⟨h, hfind, he⟩ | ⟨-, he⟩
    · simp [deliveredBy, acceptedBy, Mailbox.after, he, ← hpopped h hfind]
    · exact hsame (by simp [deliveredBy, he])
  | parkFilter flow filter =>
    have hany : filter = .any := hany
    subst hany
    rcases m.parkFilter_cases flow .any with ⟨h, hfind, he⟩ | ⟨-, he⟩
    · simp [deliveredBy, acceptedBy, Mailbox.after, he, ← hpopped h hfind]
    · exact hsame (by simp [deliveredBy, he])
  | _ => exact hsame rfl

/-- An operation accepts one hop at most. -/
theorem acceptedBy_cases (m : Mailbox H) (op : Op H) :
    m.acceptedBy op = [] ∨ ∃ h, m.acceptedBy op = [h] := by
  cases op with
  | push value =>
    simp only [acceptedBy]
    split
    · exact .inl rfl
    · exact .inr ⟨value, rfl⟩
    · exact .inl rfl
  | pushSystem value => exact .inr ⟨value, rfl⟩
  | admitWaitingSender =>
    simp only [acceptedBy]
    split
    · cases m.waitingSenders with
      | nil => exact .inl rfl
      | cons w rest => exact .inr ⟨w.message, rfl⟩
    · exact .inl rfl
  | _ => exact .inl rfl

/-- **No hop from nowhere.** What is accepted or waits came with the operation or waited. -/
theorem after_subperm (m : Mailbox H) (op : Op H) :
    (m.acceptedBy op ++ (m.after op).waitingSenders.map (·.message)).Subperm
      (m.waitingSenders.map (·.message) ++ op.hop?.toList) := by
  cases op with
  | push value =>
    have hacc : (m.acceptedBy (.push value)).Subperm [value] := by
      simp only [acceptedBy]
      split
      · exact List.nil_subperm
      · exact List.Subperm.refl _
      · exact List.nil_subperm
    have hwait : (m.after (.push value)).waitingSenders = m.waitingSenders := by
      rcases m.push_cases value with ⟨flow, -, -, he⟩ | ⟨-, he⟩ <;>
        simp [Mailbox.after, he, handOff]
    rw [hwait]
    exact ((List.subperm_append_right _).mpr hacc).trans List.perm_append_comm.subperm
  | pushSystem value =>
    have hwait : (m.after (.pushSystem value)).waitingSenders = m.waitingSenders := by
      rcases m.pushSystem_cases value with ⟨flow, -, -, he⟩ | ⟨-, he⟩ <;>
        simp [Mailbox.after, he, handOff]
    rw [hwait]
    exact List.perm_append_comm.subperm
  | tryPopFilter filter =>
    rcases m.tryPopFilter_cases filter with ⟨h, -, he⟩ | ⟨-, he⟩ <;>
      simp [Mailbox.after, he, acceptedBy, Op.hop?, List.Subperm.refl]
  | parkFilter flow filter =>
    rcases m.parkFilter_cases flow filter with ⟨h, -, he⟩ | ⟨-, he⟩ <;>
      simp [Mailbox.after, he, acceptedBy, Op.hop?, List.Subperm.refl]
  | takeParkedAt epoch =>
    rcases m.takeParkedAt_cases epoch with ⟨flow, -, -, he⟩ | ⟨-, he⟩ <;>
      simp [Mailbox.after, he, acceptedBy, Op.hop?, List.Subperm.refl]
  | takeParked => simp [Mailbox.after, acceptedBy, Op.hop?, takeParked, List.Subperm.refl]
  | parkSender flow message =>
    simp only [Mailbox.after, acceptedBy, Op.hop?, parkSender]
    split_ifs
    · exact (List.sublist_append_left _ _).subperm
    · simp [List.Subperm.refl]
  | admitWaitingSender =>
    rcases m.admitWaitingSender_cases with ⟨-, he⟩ | ⟨_, _, _, -, -, -, he⟩ |
      ⟨waiter, rest, capacity, -, hw, -, he⟩
    · simp [Mailbox.after, he, acceptedBy, Op.hop?, List.Subperm.refl]
    · simp [Mailbox.after, he, acceptedBy, Op.hop?, List.Subperm.refl]
    · simp [Mailbox.after, he, acceptedBy, Op.hop?, hw, List.Subperm.refl]
  | takeWaitingSender sender =>
    simp only [Mailbox.after, acceptedBy, Op.hop?, takeWaitingSender, FirstMatch.extract_eq]
    split
    · rename_i heq
      obtain ⟨-, rfl⟩ := Prod.mk.inj heq
      simpa using (List.eraseP_sublist.map _).subperm
    · simp [List.Subperm.refl]
  | close => simp [Mailbox.after, acceptedBy, Op.hop?, close, List.nil_subperm]

/-- **Oldest first.** An operation delivers the first hop of the queue, the one it brings
included, that its filter accepts. For a handoff this needs that no queued hop is one that the
parked receiver waits for. -/
theorem find?_of_mem_deliveredBy {m : Mailbox H} (hm : m.NoMissedHop) {op : Op H} {h : H}
    (hh : h ∈ m.deliveredBy op) :
    (m.queue.inner ++ m.acceptedBy op).find? (m.deliveryFilter op).accepts = some h := by
  cases op with
  | push value =>
    rcases m.push_cases value with ⟨flow, hp, ha, he⟩ | ⟨-, he⟩
    · simp only [deliveredBy, he, List.mem_singleton] at hh
      subst hh
      simp only [acceptedBy, he, deliveryFilter]
      exact FirstMatch.find?_append_of_none (hm flow hp) ha
    · rw [(ledger_of_enqueueLocked he).2.1] at hh
      cases hh
  | pushSystem value =>
    rcases m.pushSystem_cases value with ⟨flow, hp, ha, he⟩ | ⟨-, he⟩
    · simp only [deliveredBy, he, List.mem_singleton] at hh
      subst hh
      exact FirstMatch.find?_append_of_none (hm flow hp) ha
    · simp [deliveredBy, he] at hh
  | tryPopFilter filter =>
    rcases m.tryPopFilter_cases filter with ⟨h', hfind, he⟩ | ⟨-, he⟩
    · simp only [deliveredBy, he, Option.toList_some, List.mem_singleton] at hh
      simpa [acceptedBy, deliveryFilter, hh] using hfind
    · simp [deliveredBy, he] at hh
  | parkFilter flow filter =>
    rcases m.parkFilter_cases flow filter with ⟨h', hfind, he⟩ | ⟨-, he⟩
    · simp only [deliveredBy, he, Option.toList_some, List.mem_singleton] at hh
      simpa [acceptedBy, deliveryFilter, hh] using hfind
    · simp [deliveredBy, he] at hh
  | takeParkedAt epoch => cases hh
  | takeParked => cases hh
  | parkSender flow message => cases hh
  | admitWaitingSender => cases hh
  | takeWaitingSender sender => cases hh
  | close => cases hh

/-! ## The ledger of a history -/

/-- The hops that a mailbox has accepted, delivered and evicted, in the order of the events. -/
structure Ledger (H : Type) where
  accepted : List H
  delivered : List H
  evicted : List H

/-- The ledger after one operation on `m`. -/
def Ledger.after (l : Ledger H) (m : Mailbox H) (op : Op H) : Ledger H :=
  ⟨l.accepted ++ m.acceptedBy op, l.delivered ++ m.deliveredBy op, l.evicted ++ m.evictedBy op⟩

/-- The ledger after a list of operations on `m`. -/
def ledgerFrom (m : Mailbox H) (l : Ledger H) : List (Op H) → Ledger H
  | [] => l
  | op :: ops => ledgerFrom (m.after op) (l.after m op) ops

/-- The ledger of a history of a new mailbox. -/
def ledger (config : MailboxConfig) (ops : List (Op H)) : Ledger H :=
  (new config).ledgerFrom ⟨[], [], []⟩ ops

theorem ledgerFrom_append (m : Mailbox H) (l : Ledger H) (ops ops' : List (Op H)) :
    m.ledgerFrom l (ops ++ ops') = (m.run ops).ledgerFrom (m.ledgerFrom l ops) ops' := by
  induction ops generalizing m l with
  | nil => rfl
  | cons op ops ih => exact ih (m.after op) (l.after m op)

theorem ledger_concat (config : MailboxConfig) (ops : List (Op H)) (op : Op H) :
    ledger config (ops ++ [op]) = (ledger config ops).after ((new config).run ops) op :=
  ledgerFrom_append _ _ _ _

/-- The books balance: what was accepted is delivered, queued or evicted, and the queue keeps the
order of acceptance. -/
structure Ledger.Balanced (l : Ledger H) (m : Mailbox H) : Prop where
  perm : l.accepted.Perm (l.delivered ++ (m.queue.inner ++ l.evicted))
  sublist : m.queue.inner.Sublist l.accepted

theorem Ledger.Balanced.after {l : Ledger H} {m : Mailbox H} (h : l.Balanced m) (op : Op H) :
    (l.after m op).Balanced (m.after op) where
  perm := by
    have hl := Multiset.coe_eq_coe.mpr h.perm
    have hop := Multiset.coe_eq_coe.mpr (m.after_perm op)
    rw [← Multiset.coe_eq_coe]
    simp only [Ledger.after, ← Multiset.coe_add] at hl hop ⊢
    calc (l.accepted : Multiset H) + m.acceptedBy op
        = l.delivered + (m.queue.inner + l.evicted) + m.acceptedBy op := by rw [hl]
      _ = l.delivered + (m.queue.inner + m.acceptedBy op) + l.evicted := by abel
      _ = _ := by rw [hop]; abel
  sublist := (m.after_sublist op).trans (h.sublist.append_right _)

theorem ledger_balanced (config : MailboxConfig) (ops : List (Op H)) :
    (ledger config ops).Balanced ((new config).run ops) := by
  induction ops using List.reverseRecOn with
  | nil => exact ⟨List.Perm.refl _, List.Sublist.refl _⟩
  | append_singleton ops op ih =>
    rw [ledger_concat, run_append]
    exact ih.after op

/-- What is accepted or waits came with an operation, once. -/
theorem ledger_subperm (config : MailboxConfig) (ops : List (Op H)) :
    ((ledger config ops).accepted ++ ((new config).run ops).waitingSenders.map (·.message)).Subperm
      (ops.filterMap Op.hop?) := by
  induction ops using List.reverseRecOn with
  | nil => exact List.Subperm.refl _
  | append_singleton ops op ih =>
    have hop := ((new config).run ops).after_subperm op
    rw [ledger_concat, run_append, List.filterMap_append, Ledger.after, List.append_assoc]
    have hlast : [op].filterMap Op.hop? = op.hop?.toList := by
      cases h : op.hop? <;> simp [h]
    rw [hlast]
    refine ((List.subperm_append_left _).mpr hop).trans ?_
    rw [← List.append_assoc]
    exact (List.subperm_append_right _).mpr ih

theorem ledger_accepted_nodup (config : MailboxConfig) {ops : List (Op H)}
    (hops : (ops.filterMap Op.hop?).Nodup) : (ledger config ops).accepted.Nodup := by
  obtain ⟨l, hperm, hsub⟩ := ledger_subperm config ops
  have hd := hperm.nodup_iff.mp (hsub.nodup hops)
  exact (List.nodup_append.mp hd).1

/-- Only `DropOldest` evicts. -/
theorem ledger_evicted (config : MailboxConfig) (hp : config.overflow ≠ .dropOldest)
    (ops : List (Op H)) : (ledger config ops).evicted = [] := by
  induction ops using List.reverseRecOn with
  | nil => rfl
  | append_singleton ops op ih =>
    have hop : ((new config).run ops).evictedBy op = [] := by
      cases op with
      | push value =>
        have hconfig : ((new config).run ops).config.overflow ≠ .dropOldest := by
          rwa [run_config]
        simp only [evictedBy, MailboxQueue.evicted, if_pos (Or.inr hconfig)]
        split <;> rfl
      | _ => rfl
    rw [ledger_concat, Ledger.after, ih, hop, List.append_nil]

/-- The hops that were accepted, and neither delivered nor evicted before the last operation, in
the order of acceptance. -/
def candidates (config : MailboxConfig) (ops : List (Op Hop)) (op : Op Hop) : List Hop :=
  (ledger config (ops ++ [op])).accepted.filter fun h =>
    h ∉ (ledger config ops).delivered ∧ h ∉ (ledger config ops).evicted

/-- The candidates are the queue, and the hop that the operation brings. -/
theorem candidates_eq (config : MailboxConfig) {ops : List (Op Hop)} {op : Op Hop}
    (hd : (ledger config (ops ++ [op])).accepted.Nodup) :
    candidates config ops op =
      ((new config).run ops).queue.inner ++ ((new config).run ops).acceptedBy op := by
  obtain ⟨hperm, hsub⟩ := ledger_balanced config ops
  rw [candidates, ledger_concat]
  rw [ledger_concat] at hd
  generalize ledger config ops = l at *
  generalize (new config).run ops = m at *
  obtain ⟨hl, -, hdisj⟩ := List.nodup_append.mp hd
  have hbooks := hperm.nodup_iff.mp hl
  rw [Ledger.after, List.filter_append]
  congr 1
  · -- the accepted hops that are left are those in the queue
    rw [← FirstMatch.filter_mem_of_sublist hsub hl]
    refine List.filter_congr fun h hh => ?_
    have hmem := hperm.subset hh
    simp only [List.mem_append, List.nodup_append] at hmem hbooks
    rw [decide_eq_decide]
    constructor
    · rintro ⟨hdel, hev⟩
      rcases hmem with hmem | hmem | hmem
      · exact absurd hmem hdel
      · exact hmem
      · exact absurd hmem hev
    · intro hq
      exact ⟨fun hdel => hbooks.2.2 h hdel h (.inl hq) rfl,
        fun hev => hbooks.2.1.2.2 h hq h hev rfl⟩
  · -- the hop accepted last is new to the books
    refine List.filter_eq_self.mpr fun h hh => ?_
    have hnew : h ∉ l.accepted := fun hmem => hdisj h hmem h hh rfl
    have hmem : h ∉ l.delivered ++ (m.queue.inner ++ l.evicted) :=
      fun hmem => hnew (hperm.symm.subset hmem)
    simp only [List.mem_append, not_or] at hmem
    simp [hmem.1, hmem.2.2]

/-- **Conservation and selective FIFO.** In every history, under every policy, an accepted hop is
exactly one of delivered, queued and evicted, and only `DropOldest` evicts; the queue is a
subsequence of the order of acceptance. While admissions do not meet a parked receiver, every hop
delivered is the oldest candidate that matches the filter it is delivered for. -/
theorem hop_conservation (config : MailboxConfig) (ops : List (Op Value)) :
    (ledger config (named ops)).accepted.Nodup ∧
      (ledger config (named ops)).accepted.Perm ((ledger config (named ops)).delivered ++
        (((new config).run (named ops)).queue.inner ++ (ledger config (named ops)).evicted)) ∧
      (config.overflow ≠ .dropOldest → (ledger config (named ops)).evicted = []) ∧
      ((new config).run (named ops)).queue.inner.Sublist (ledger config (named ops)).accepted ∧
      ∀ pre op post h, named ops = pre ++ op :: post → (new config : Mailbox Hop).Legal pre →
        h ∈ ((new config).run pre).deliveredBy op →
        (candidates config pre op).find? (((new config).run pre).deliveryFilter op).accepts =
          some h := by
  have hnamed := named_nodup 0 ops
  have hd := ledger_accepted_nodup config hnamed
  have hb := ledger_balanced config (named ops)
  refine ⟨hd, hb.perm, fun hp => ledger_evicted config hp _, hb.sublist, ?_⟩
  intro pre op post h hops hlegal hh
  have hsplit : (ledger config (pre ++ [op])).accepted.Nodup := by
    refine ledger_accepted_nodup config (List.Nodup.sublist ?_ hnamed)
    change List.Sublist _ ((named ops).filterMap Op.hop?)
    have hassoc : pre ++ op :: post = (pre ++ [op]) ++ post := List.append_cons pre op post
    rw [hops, hassoc]
    exact (List.sublist_append_left _ _).filterMap _
  have hm := hlegal.invariant (fun _ op hop hm => hm.after op hop) (noMissedHop_new config)
  rw [candidates_eq config hsplit]
  exact find?_of_mem_deliveredBy hm hh

/-- `park_sender` parks a hop of flow 1, flow 2 parks for any hop, the hop is admitted to the
queue under its eyes, and a push goes to flow 2 directly. -/
def admissionUnderReceiver : List (Op Value) :=
  [.parkSender (.new 1) (.int 1), .parkFilter (.new 2) .any, .admitWaitingSender, .push (.int 2)]

/-- An admission that meets a parked receiver lets a later hop overtake the admitted one. -/
theorem handoff_overtakes_admitted :
    ¬∀ (config : MailboxConfig) (ops : List (Op Value)) (pre : List (Op Hop)) (op : Op Hop)
      (post : List (Op Hop)) (h : Hop), named ops = pre ++ op :: post →
        h ∈ ((new config).run pre).deliveredBy op →
        (candidates config pre op).find? (((new config).run pre).deliveryFilter op).accepts =
          some h := by
  intro hall
  have h := hall .default admissionUnderReceiver (named (admissionUnderReceiver.take 3))
    (.push ⟨3, .int 2⟩) [] ⟨3, .int 2⟩ (by decide) (by decide)
  revert h
  decide

end Mailbox

end Byteflow
