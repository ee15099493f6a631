import Byteflow.Scheduler.Mailbox.Waiting
import Mathlib.Algebra.BigOperators.Group.List.Basic

/-!
# Admission of waiting senders

A mailbox is caught up when it would accept the hop of none of its waiting senders (`CaughtUp`).
The operations keep it so when those that free room, or park a receiver, leave no waiting sender
behind that fits (`Op.KeepsUp`); a push never makes room for a waiter. Under `DropOldest` this
rests on the charge of the queue: what the policy refuses is larger than the inbox.
-/

namespace Byteflow

namespace MailboxQueue

variable {H : Type} [HopView H]

/-! ## The charge of a queue -/

/-- The queue is charged for no more than its hops. -/
def Charged (q : MailboxQueue H) : Prop := q.bytes ≤ (q.inner.map cost).sum

theorem charged_new (limit byteLimit : ℕ) : (new limit byteLimit : MailboxQueue H).Charged :=
  Nat.zero_le _

theorem Charged.pushBack {q : MailboxQueue H} (h : q.Charged) (capacity : ℕ) (value : H) :
    ({ q with capacity := capacity }.pushBack value).Charged := by
  unfold Charged at *
  simp only [MailboxQueue.pushBack, satAdd, List.map_append, List.sum_append, List.map_cons,
    List.map_nil, List.sum_cons, List.sum_nil]
  omega

theorem Charged.take {q : MailboxQueue H} (h : q.Charged) (filter : WaitFilter) :
    (q.take filter).1.Charged := by
  cases hf : q.inner.find? filter.accepts with
  | none => rwa [take_of_none hf]
  | some v =>
    have hbytes : (q.take filter).1.bytes = q.bytes - cost v := by
      rw [MailboxQueue.take, pick_eq, hf]
    have hsum := ((FirstMatch.perm_cons_eraseP hf).map cost).sum_eq
    rw [List.map_cons, List.sum_cons] at hsum
    unfold Charged at *
    rw [hbytes, take_inner]
    omega

theorem evict_charged (limit byteLimit cost₀ : ℕ) (l : List H) (bytes : ℕ) (dropped : Bool)
    (h : bytes ≤ (l.map cost).sum) :
    (evict limit byteLimit cost₀ l bytes dropped).2.1 ≤
      ((evict limit byteLimit cost₀ l bytes dropped).1.map cost).sum := by
  induction l generalizing bytes dropped with
  | nil => exact h
  | cons old rest ih =>
    rw [evict]
    split_ifs
    · refine ih _ _ ?_
      rw [List.map_cons, List.sum_cons] at h
      omega
    · exact h

/-- The eviction loop ends with an empty queue, or with room. -/
theorem evict_room (limit byteLimit cost₀ : ℕ) (l : List H) (bytes : ℕ) (dropped : Bool) :
    (evict limit byteLimit cost₀ l bytes dropped).1 = [] ∨
      satAdd (evict limit byteLimit cost₀ l bytes dropped).2.1 cost₀ ≤ byteLimit := by
  induction l generalizing bytes dropped with
  | nil => exact .inl rfl
  | cons old rest ih =>
    rw [evict]
    split_ifs with hc
    · exact ih _ _
    · simp only [Bool.or_eq_true, decide_eq_true_eq, not_or, not_lt] at hc
      exact .inr hc.2

theorem Charged.slid {q : MailboxQueue H} (h : q.Charged) (value : H) : (q.slid value).Charged :=
  evict_charged _ _ _ _ _ _ h

theorem Charged.enqueue {q : MailboxQueue H} (h : q.Charged) (value : H)
    (policy : OverflowPolicy) : (q.enqueue value policy).1.Charged := by
  by_cases hroom : q.HasRoom value
  · obtain ⟨capacity, he⟩ := enqueue_of_room hroom policy
    rw [he]
    exact h.pushBack capacity value
  · rw [enqueue_of_no_room hroom]
    cases policy with
    | reject => exact h
    | dropNewest => exact h
    | dropOldest =>
      dsimp only
      rw [slide_eq]
      by_cases hexceeds : (q.slid value).wouldExceedBytes (cost value) = true
      · rw [if_pos hexceeds]
        exact h.slid value
      · rw [if_neg hexceeds]
        exact (h.slid value).pushBack _ value

/-- What `DropOldest` refuses is larger than the whole budget. -/
theorem lt_cost_of_slide {q : MailboxQueue H} (h : q.Charged) {value : H}
    {reason : MailboxFullReason} (he : (q.slide value).2 = .error reason) :
    q.byteLimit < cost value := by
  rw [slide_eq] at he
  split_ifs at he with hexceeds
  have hcharged : (q.slid value).bytes ≤ ((q.slid value).inner.map cost).sum := h.slid value
  have hroom : (q.slid value).inner = [] ∨ satAdd (q.slid value).bytes (cost value) ≤ q.byteLimit :=
    evict_room _ _ _ _ _ _
  have hlt : q.byteLimit < satAdd (q.slid value).bytes (cost value) := of_decide_eq_true hexceeds
  rcases hroom with hnil | hroom
  · rw [hnil, List.map_nil, List.sum_nil] at hcharged
    unfold satAdd at hlt
    omega
  · omega

/-! ## Room -/

/-- No queue has room for a hop larger than its budget. -/
theorem not_hasRoom_of_lt {q : MailboxQueue H} {h : H} (hlt : q.byteLimit < cost h)
    (hmax : q.byteLimit < usizeMax) : ¬q.HasRoom h := by
  intro hroom
  have hbytes := (hasRoom_iff.mp hroom).2
  unfold satAdd at hbytes
  omega

/-- A hop that is enqueued makes no room. -/
theorem not_hasRoom_pushBack {q : MailboxQueue H} {h : H} (hno : ¬q.HasRoom h) (capacity : ℕ)
    (value : H) : ¬({ q with capacity := capacity }.pushBack value).HasRoom h := by
  rw [hasRoom_iff] at *
  intro hroom
  simp only [MailboxQueue.pushBack, List.length_append, List.length_singleton, satAdd] at hroom
  unfold satAdd at hno
  omega

/-- The queue without the hop `gone` has room for another. -/
def FitsWithout (q : MailboxQueue H) (gone h : H) : Prop :=
  q.inner.length - 1 < q.limit ∧ satAdd (q.bytes - cost gone) (cost h) ≤ q.byteLimit

instance (q : MailboxQueue H) (gone h : H) : Decidable (q.FitsWithout gone h) :=
  inferInstanceAs (Decidable (_ ∧ _))

/-- The queue with the hop `added` has room for another. -/
def FitsBeside (q : MailboxQueue H) (added h : H) : Prop :=
  q.inner.length + 1 < q.limit ∧ satAdd (satAdd q.bytes (cost added)) (cost h) ≤ q.byteLimit

instance (q : MailboxQueue H) (added h : H) : Decidable (q.FitsBeside added h) :=
  inferInstanceAs (Decidable (_ ∧ _))

theorem hasRoom_take_iff {q : MailboxQueue H} {filter : WaitFilter} {gone : H}
    (hgone : q.inner.find? filter.accepts = some gone) (h : H) :
    (q.take filter).1.HasRoom h ↔ q.FitsWithout gone h := by
  have hbytes : (q.take filter).1.bytes = q.bytes - cost gone := by
    rw [MailboxQueue.take, pick_eq, hgone]
  have hlength := (FirstMatch.perm_cons_eraseP hgone).length_eq
  rw [List.length_cons] at hlength
  rw [hasRoom_iff, hbytes, take_inner, take_limit, take_byteLimit, FitsWithout, hlength,
    Nat.add_sub_cancel]

theorem hasRoom_pushBack_iff (q : MailboxQueue H) (capacity : ℕ) (added h : H) :
    ({ q with capacity := capacity }.pushBack added).HasRoom h ↔ q.FitsBeside added h := by
  rw [hasRoom_iff]
  simp only [MailboxQueue.pushBack, List.length_append, List.length_singleton, FitsBeside]

end MailboxQueue

namespace Mailbox

variable {H : Type} [HopView H]

open MailboxQueue (cost)

theorem after_charged {m : Mailbox H} (h : m.queue.Charged) (op : Op H) :
    (m.after op).queue.Charged := by
  cases op with
  | push value =>
    rcases m.push_cases value with ⟨flow, -, -, he⟩ | ⟨-, he⟩
    · simp only [after, he]
      exact h
    · simpa only [after, he, enqueueLocked_queue] using h.enqueue value _
  | pushSystem value =>
    rcases m.pushSystem_cases value with ⟨flow, -, -, he⟩ | ⟨-, he⟩
    · simp only [after, he]
      exact h
    · simp only [after, he]
      exact h.pushBack _ value
  | tryPopFilter filter =>
    rcases m.tryPopFilter_cases filter with ⟨v, -, he⟩ | ⟨-, he⟩
    · simpa only [after, he] using h.take filter
    · simpa only [after, he] using h
  | parkFilter flow filter =>
    rcases m.parkFilter_cases flow filter with ⟨v, -, he⟩ | ⟨-, he⟩
    · simpa only [after, he] using h.take filter
    · simpa only [after, he] using h
  | takeParkedAt epoch =>
    rcases m.takeParkedAt_cases epoch with ⟨flow, -, -, he⟩ | ⟨-, he⟩ <;>
      simpa only [after, he] using h
  | takeParked => exact h
  | parkSender flow message =>
    simp only [after, parkSender]
    split_ifs <;> exact h
  | admitWaitingSender =>
    rcases m.admitWaitingSender_cases with ⟨-, he⟩ | ⟨_, _, _, -, -, -, he⟩ |
      ⟨waiter, rest, capacity, -, -, -, he⟩
    · simpa only [after, he] using h
    · simpa only [after, he] using h
    · simpa only [after, he] using h.pushBack capacity waiter.message
  | takeWaitingSender sender =>
    simp only [after, takeWaitingSender]
    split <;> exact h
  | close => exact h

/-- What a push refuses under `DropOldest` is larger than the whole budget. -/
theorem lt_cost_of_refused {m : Mailbox H} (hm : m.queue.Charged)
    (hpolicy : m.config.overflow = .dropOldest) {h : H} {reason : MailboxFullReason}
    (hr : (m.push h).2 = .error reason) : m.queue.byteLimit < cost h := by
  rcases m.push_cases h with ⟨_, -, -, he⟩ | ⟨-, he⟩
  · rw [he] at hr
    cases hr
  rw [he, enqueueLocked_result, hpolicy] at hr
  by_cases hroom : m.queue.HasRoom h
  · obtain ⟨capacity, henq⟩ := MailboxQueue.enqueue_of_room hroom .dropOldest
    rw [henq] at hr
    cases hr
  · rw [MailboxQueue.enqueue_of_no_room hroom] at hr
    cases hs : (m.queue.slide h).2 with
    | ok effect =>
      rw [hs] at hr
      cases effect <;> cases hr
    | error reason => exact MailboxQueue.lt_cost_of_slide hm hs

/-! ## Keeping up with the waiting senders -/

/-- The mailbox would accept the hop at once. -/
def Acceptable (m : Mailbox H) (h : H) : Prop :=
  m.queue.HasRoom h ∨ ∃ receiver, m.parked = some receiver ∧ m.parkedFilter.accepts h = true

instance (m : Mailbox H) (h : H) : Decidable (m.Acceptable h) :=
  inferInstanceAs (Decidable (_ ∨ ∃ receiver, _ = some receiver ∧ _))

/-- An open mailbox would accept the hop of no waiting sender. -/
def CaughtUp (m : Mailbox H) : Prop :=
  m.closed = false → ∀ w ∈ m.waitingSenders, ¬m.Acceptable w.message

/-- The operation leaves no waiting sender behind whose hop the mailbox would accept: what it
takes from the queue makes room for none, a receiver does not park for one, the hop of a new
waiter is not acceptable, and an admission admits all that fit. -/
def Op.KeepsUp (m : Mailbox H) : Op H → Prop
  | .tryPopFilter filter =>
    ∀ gone ∈ m.queue.inner.find? filter.accepts,
      ∀ w ∈ m.waitingSenders, ¬m.queue.FitsWithout gone w.message
  | .parkFilter _ filter =>
    match m.queue.inner.find? filter.accepts with
    | some gone => ∀ w ∈ m.waitingSenders, ¬m.queue.FitsWithout gone w.message
    | none => ∀ w ∈ m.waitingSenders, filter.accepts w.message = false
  | .parkSender _ message => m.closed = false → ¬m.Acceptable message
  | .admitWaitingSender =>
    match m.waitingSenders with
    | [] => True
    | head :: rest =>
      if m.queue.HasRoom head.message then
        ∀ w ∈ rest, ¬m.queue.FitsBeside head.message w.message
      else ∀ w ∈ rest, ¬m.queue.HasRoom w.message
  | _ => True

instance (m : Mailbox H) (op : Op H) : Decidable (op.KeepsUp m) := by
  induction op using Op.casesOn with
  | parkFilter flow filter =>
    delta Op.KeepsUp
    dsimp only
    generalize m.queue.inner.find? filter.accepts = gone
    induction gone using Option.casesOn <;> dsimp only <;> infer_instance
  | admitWaitingSender =>
    delta Op.KeepsUp
    dsimp only
    generalize m.waitingSenders = waiting
    induction waiting using List.casesOn <;> dsimp only <;> infer_instance
  | _ =>
    delta Op.KeepsUp
    dsimp only
    infer_instance

/-- Waiters under `DropOldest` are larger than the inbox. -/
def WaitersOversize (m : Mailbox H) : Prop :=
  m.config.overflow = .dropOldest → ∀ w ∈ m.waitingSenders, ∀ q : MailboxQueue H,
    q.byteLimit = m.queue.byteLimit → ¬q.HasRoom w.message

/-- A hop that is enqueued makes no room for a waiter, whatever it evicts. -/
theorem not_hasRoom_enqueue {m : Mailbox H} (hover : m.WaitersOversize) {w : WaitingSender H}
    (hw : w ∈ m.waitingSenders) (hno : ¬m.queue.HasRoom w.message) (value : H) :
    ¬(m.queue.enqueue value m.config.overflow).1.HasRoom w.message := by
  by_cases hroom : m.queue.HasRoom value
  · obtain ⟨capacity, he⟩ := MailboxQueue.enqueue_of_room hroom m.config.overflow
    rw [he]
    exact MailboxQueue.not_hasRoom_pushBack hno capacity value
  · rw [MailboxQueue.enqueue_of_no_room hroom]
    cases hp : m.config.overflow with
    | reject => exact hno
    | dropNewest => exact hno
    | dropOldest =>
      refine hover hp w hw _ ?_
      have hlimits := (m.queue.enqueue_limits value .dropOldest).2
      rwa [MailboxQueue.enqueue_of_no_room hroom] at hlimits

theorem CaughtUp.mono {m m' : Mailbox H} (h : m.CaughtUp) (hclosed : m'.closed = m.closed)
    (hwaiting : m'.waitingSenders ⊆ m.waitingSenders)
    (hroom : ∀ w ∈ m.waitingSenders, ¬m.queue.HasRoom w.message → ¬m'.queue.HasRoom w.message)
    (hparked : m'.parked = none ∨ m'.parked = m.parked ∧ m'.parkedFilter = m.parkedFilter) :
    m'.CaughtUp := by
  intro hopen w hw hacc
  have hno := h (hclosed ▸ hopen) w (hwaiting hw)
  apply hno
  rcases hacc with hacc | ⟨receiver, hp, ha⟩
  · exact absurd hacc (hroom w (hwaiting hw) fun hr => hno (.inl hr))
  · rcases hparked with hnone | ⟨hsame, hfilter⟩
    · rw [hnone] at hp
      cases hp
    · exact .inr ⟨receiver, hsame ▸ hp, hfilter ▸ ha⟩

/-- A pop of the hop `gone`. -/
theorem CaughtUp.take {m : Mailbox H} (h : m.CaughtUp) {filter : WaitFilter} {gone : H}
    (hgone : m.queue.inner.find? filter.accepts = some gone)
    (hfits : ∀ w ∈ m.waitingSenders, ¬m.queue.FitsWithout gone w.message) (stats : MailboxStats) :
    ({ m with queue := (m.queue.take filter).1, stats := stats } : Mailbox H).CaughtUp := by
  refine h.mono rfl (fun _ hw => hw) (fun w hw _ hroom => ?_) (.inr ⟨rfl, rfl⟩)
  exact hfits w hw ((MailboxQueue.hasRoom_take_iff hgone _).mp hroom)

/-- **Keeping up.** An operation that keeps up leaves the mailbox caught up, and an admission
catches up. -/
theorem CaughtUp.after {m : Mailbox H} {op : Op H} (hop : op.KeepsUp m) (hallowed : op.Allowed m)
    (hover : m.WaitersOversize) (h : op = .admitWaitingSender ∨ m.CaughtUp) :
    (m.after op).CaughtUp := by
  cases op with
  | push value =>
    have h := h.resolve_left (by simp)
    rcases m.push_cases value with ⟨flow, -, -, he⟩ | ⟨-, he⟩ <;> simp only [Mailbox.after, he]
    · exact h.mono rfl (fun _ hw => hw) (fun _ _ hno => hno) (.inl rfl)
    · refine h.mono (by simp) (by simp) (fun w hw hno => ?_) (.inr (by simp))
      rw [enqueueLocked_queue]
      exact not_hasRoom_enqueue hover hw hno value
  | pushSystem value =>
    have h := h.resolve_left (by simp)
    rcases m.pushSystem_cases value with ⟨flow, -, -, he⟩ | ⟨-, he⟩ <;>
      simp only [Mailbox.after, he]
    · exact h.mono rfl (fun _ hw => hw) (fun _ _ hno => hno) (.inl rfl)
    · exact h.mono rfl (fun _ hw => hw)
        (fun _ _ hno => MailboxQueue.not_hasRoom_pushBack hno _ value) (.inr ⟨rfl, rfl⟩)
  | tryPopFilter filter =>
    have h := h.resolve_left (by simp)
    rcases m.tryPopFilter_cases filter with ⟨gone, hgone, he⟩ | ⟨-, he⟩ <;>
      simp only [Mailbox.after, he]
    · exact h.take hgone (hop gone hgone) _
    · exact h
  | parkFilter flow filter =>
    have h := h.resolve_left (by simp)
    rcases m.parkFilter_cases flow filter with ⟨gone, hgone, he⟩ | ⟨hnone, he⟩ <;>
      simp only [Mailbox.after, he]
    · simp only [Op.KeepsUp, hgone] at hop
      exact h.take hgone hop _
    · -- the room is as before, and the receiver waits for no hop of a waiter
      simp only [Op.KeepsUp, hnone] at hop
      intro hopen w hw hacc
      rcases hacc with hroom | ⟨receiver, -, ha⟩
      · exact h hopen w hw (.inl hroom)
      · rw [hop w hw] at ha
        cases ha
  | takeParkedAt epoch =>
    have h := h.resolve_left (by simp)
    rcases m.takeParkedAt_cases epoch with ⟨flow, -, -, he⟩ | ⟨-, he⟩ <;>
      simp only [Mailbox.after, he]
    · exact h.mono rfl (fun _ hw => hw) (fun _ _ hno => hno) (.inl rfl)
    · exact h
  | takeParked =>
    exact (h.resolve_left (by simp)).mono rfl (fun _ hw => hw) (fun _ _ hno => hno) (.inl rfl)
  | parkSender flow message =>
    have h := h.resolve_left (by simp)
    simp only [Mailbox.after, parkSender]
    split_ifs with hc
    · exact h
    · intro hopen w hw hacc
      rcases List.mem_append.mp hw with hw | hw
      · exact h hopen w hw hacc
      · rw [List.mem_singleton.mp hw] at hacc
        exact hop (Bool.eq_false_iff.mpr hc) hacc
  | admitWaitingSender =>
    have hparked : m.parked = none := hallowed
    rcases m.admitWaitingSender_cases with ⟨hnobody, he⟩ | ⟨head, rest, stats, -, hw, hno, he⟩ |
      ⟨head, rest, capacity, -, hw, hroom, he⟩ <;> simp only [Mailbox.after, he]
    · intro hopen w hw
      rcases hnobody with hc | hnil
      · rw [hc] at hopen
        cases hopen
      · rw [hnil] at hw
        cases hw
    · simp only [Op.KeepsUp, hw, if_neg hno] at hop
      intro hopen w hmem hacc
      rcases hacc with hacc | ⟨receiver, hp, -⟩
      · rcases List.mem_cons.mp (hw ▸ hmem) with rfl | hmem
        · exact hno hacc
        · exact hop w hmem hacc
      · simp [hparked] at hp
    · simp only [Op.KeepsUp, hw, if_pos hroom] at hop
      intro hopen w hmem hacc
      rcases hacc with hacc | ⟨receiver, hp, -⟩
      · exact hop w hmem ((MailboxQueue.hasRoom_pushBack_iff _ capacity _ _).mp hacc)
      · simp [hparked] at hp
  | takeWaitingSender sender =>
    have h := h.resolve_left (by simp)
    have hsub : (m.after (.takeWaitingSender sender)).waitingSenders ⊆ m.waitingSenders := by
      intro w hw
      rcases mem_waitingSenders_after hw with hw | ⟨hop, -⟩
      · exact hw
      · cases hop
    revert hsub
    simp only [Mailbox.after, takeWaitingSender]
    split <;> intro hsub
    · exact h.mono rfl hsub (fun _ _ hno => hno) (.inr ⟨rfl, rfl⟩)
    · exact h
  | close =>
    intro hopen
    simp [Mailbox.after, close] at hopen

end Mailbox

end Byteflow
