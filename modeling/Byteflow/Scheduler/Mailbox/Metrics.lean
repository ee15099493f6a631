import Byteflow.Scheduler.Mailbox.Refusal
import Byteflow.Scheduler.Mailbox.System
import Byteflow.Scheduler.Mailbox.Waiting
import Mathlib.Algebra.Order.BigOperators.Group.List

/-!
# The mailbox counters

The counters of a mailbox (`mailbox/metrics.rs`) are updated beside the queue. They balance when
the hops that were enqueued are those that were dequeued, those dropped by `DropOldest`, and those
still queued. `enqueue` reports one bit for its evictions and `enqueue_locked` counts it as one
hop, so a push that evicts several hops, or evicts and then refuses, breaks the balance
(`balanced_push_iff`). Nothing else does (`metrics_balanced`).
-/

namespace Byteflow

/-- A counter short of its maximum counts. -/
theorem satSucc_toNat {n : UInt64} (h : n.toNat < UInt64.size - 1) :
    (satSucc n).toNat = n.toNat + 1 := by
  have hne : n + 1 ≠ 0 := by
    intro h0
    have h0 := congrArg UInt64.toNat h0
    simp only [UInt64.toNat_add, UInt64.toNat_one, UInt64.toNat_zero, UInt64.size] at h0 h
    omega
  rw [satSucc, if_neg hne, UInt64.toNat_add, UInt64.toNat_one]
  simp only [UInt64.size] at h
  omega

namespace MailboxQueue

variable {H : Type} [HopView H]

/-- The loop reports a drop exactly when hops are missing afterwards. -/
theorem evict_dropped (limit byteLimit cost₀ : ℕ) (l : List H) (bytes : ℕ) (dropped : Bool) :
    (evict limit byteLimit cost₀ l bytes dropped).2.2 =
      (dropped || decide ((evict limit byteLimit cost₀ l bytes dropped).1.length < l.length)) := by
  induction l generalizing bytes dropped with
  | nil => simp [evict]
  | cons old rest ih =>
    rw [evict]
    split_ifs
    · have hle := (evict_suffix limit byteLimit cost₀ rest (bytes - cost old) true).length_le
      rw [ih, List.length_cons, Bool.true_or, decide_eq_true (by omega), Bool.or_true]
    · simp

/-- A hop that finds room in the emptied queue is queued, and one bit tells of the drops. -/
theorem slide_of_not_neverFits {q : MailboxQueue H} {value : H} (h : ¬q.NeverFits value) :
    q.slide value = ((q.slid value).pushBack value,
      .ok (if (q.slid value).inner.length < q.inner.length then .droppedOldest
        else .enqueued)) := by
  rw [slide_eq, if_neg (mt (wouldExceedBytes_slid_iff q value).mp h), evict_dropped]
  simp only [Bool.false_or, decide_eq_true_eq]
  rfl

instance (q : MailboxQueue H) (value : H) (n : ℕ) : Decidable (q.RoomAfter value n) :=
  inferInstanceAs (Decidable (_ ∧ _))

theorem neverFits_of_roomAfter {q : MailboxQueue H} {value : H} {n : ℕ}
    (h : q.RoomAfter value n) : ¬q.NeverFits value := by
  have hle : ((q.inner.take n).map cost).sum ≤ (q.inner.map cost).sum :=
    ((List.take_sublist n q.inner).map cost).sum_le_sum fun _ _ => Nat.zero_le _
  have hsat := satAdd_le_satAdd (Nat.sub_le_sub_left hle q.bytes) (cost value)
  exact not_lt.mpr (hsat.trans h.2)

theorem roomAfter_one_of_zero {q : MailboxQueue H} {value : H} (h : q.RoomAfter value 0) :
    q.RoomAfter value 1 := by
  obtain ⟨hlen, hbytes⟩ := h
  simp only [List.take_zero, List.map_nil, List.sum_nil, Nat.sub_zero] at hlen hbytes
  refine ⟨?_, (satAdd_le_satAdd (Nat.sub_le _ _) _).trans hbytes⟩
  omega

/-- How much the loop drops, when the hop finds no room. -/
theorem slid_length {q : MailboxQueue H} {value : H} (hroom : ¬q.HasRoom value) :
    ∃ n ≤ q.inner.length, (q.slid value).inner.length + n = q.inner.length ∧
      (∀ k < n, ¬q.RoomAfter value k) ∧ (n < q.inner.length → q.RoomAfter value n) := by
  obtain ⟨n, hn, hevicted, hmin, hfound⟩ := evicted_spec hroom
  refine ⟨n, hn, ?_, hmin, hfound⟩
  have hlen := congrArg List.length (evicted_append_slid hroom)
  rw [List.length_append, hevicted, List.length_take] at hlen
  omega

/-- A hop that fits drops at most one hop exactly when dropping the oldest makes room. -/
theorem roomAfter_one_iff {q : MailboxQueue H} {value : H} (hlimit : 0 < q.limit)
    (hroom : ¬q.HasRoom value) (hne : q.inner ≠ []) (hfits : ¬q.NeverFits value) :
    q.RoomAfter value 1 ↔ q.inner.length ≤ (q.slid value).inner.length + 1 := by
  obtain ⟨n, hn, hlen, hmin, hfound⟩ := slid_length hroom
  constructor
  · intro hone
    have hn : n ≤ 1 := not_lt.mp fun hlt => hmin 1 hlt hone
    omega
  · intro hshort
    rcases hn.lt_or_eq with hlt | heq
    · -- the loop has stopped with room, after at most one hop
      cases n with
      | zero => exact roomAfter_one_of_zero (hfound hlt)
      | succ n =>
        obtain rfl : n = 0 := by omega
        exact hfound hlt
    · -- the one hop of the queue was dropped
      have hpos := List.length_pos_iff.mpr hne
      have hall : q.inner.take 1 = q.inner := List.take_of_length_le (by omega)
      refine ⟨by omega, ?_⟩
      rw [hall]
      exact not_lt.mp hfits

end MailboxQueue

namespace Mailbox

variable {H : Type} [HopView H]

/-- What was enqueued was dequeued, was dropped as the oldest, or is queued. -/
def Balanced (m : Mailbox H) : Prop :=
  m.stats.enqueued.toNat =
    m.stats.dequeued.toNat + m.stats.droppedOldest.toNat + m.queue.inner.length

instance (m : Mailbox H) : Decidable m.Balanced := inferInstanceAs (Decidable (_ = _))

/-- The counter of enqueued hops is short of its maximum. -/
def Counting (m : Mailbox H) : Prop := m.stats.enqueued.toNat < UInt64.size - 1

instance (m : Mailbox H) : Decidable m.Counting := inferInstanceAs (Decidable (_ < _))

/-- Under `DropOldest`, a hop that a parked receiver does not take finds the queue empty, or finds
room when at most the oldest hop is dropped. -/
def DropsAtMostOne (m : Mailbox H) (value : H) : Prop :=
  m.config.overflow = .dropOldest →
    (∀ flow, m.parked = some flow → m.parkedFilter.accepts value = false) →
    m.queue.inner = [] ∨ m.queue.RoomAfter value 1

omit [HopView H] in
theorem balanced_handOff {m : Mailbox H} (hb : m.Balanced) (hc : m.Counting) :
    m.handOff.Balanced := by
  simp only [Balanced, Counting] at hb hc
  simp only [Balanced, handOff]
  rw [satSucc_toNat hc, satSucc_toNat (by omega)]
  omega

/-- A hop taken out of the queue is counted. -/
theorem balanced_take {m : Mailbox H} (hb : m.Balanced) {filter : WaitFilter} {h : H}
    (hfind : m.queue.inner.find? filter.accepts = some h) :
    Balanced { m with
      queue := (m.queue.take filter).1
      stats.dequeued := satSucc m.stats.dequeued } := by
  have hmem := List.mem_of_find?_eq_some hfind
  have hlen : (m.queue.inner.eraseP filter.accepts).length = m.queue.inner.length - 1 :=
    List.length_eraseP_of_mem hmem (List.find?_some hfind)
  have hpos := List.length_pos_of_mem hmem
  have hmax := m.stats.enqueued.toNat_lt
  simp only [Balanced] at hb
  simp only [Balanced, MailboxQueue.take_inner, hlen]
  rw [satSucc_toNat (by simp only [UInt64.size]; omega)]
  omega

omit [HopView H] in
/-- A hop that is appended is counted. -/
theorem balanced_append {m : Mailbox H} (hb : m.Balanced) (hc : m.Counting) {q : MailboxQueue H}
    {value : H} (hq : q.inner = m.queue.inner ++ [value]) :
    Balanced { m with queue := q, stats.enqueued := satSucc m.stats.enqueued } := by
  simp only [Balanced, Counting] at hb hc
  simp only [Balanced, hq, List.length_append, List.length_singleton]
  rw [satSucc_toNat hc]
  omega

/-- What is left when the eviction loop ran: a refusal that cost the queue, or one count for all
drops. -/
theorem balanced_slide_iff {m : Mailbox H} (hb : m.Balanced) (hc : m.Counting) {value : H}
    (hroom : ¬m.queue.HasRoom value) (hlimit : 0 < m.queue.limit) :
    (m.enqueueLocked value .dropOldest).1.Balanced ↔
      m.queue.inner = [] ∨ m.queue.RoomAfter value 1 := by
  have hle := (m.queue.slid_suffix value).length_le
  simp only [Balanced, Counting] at hb hc
  unfold enqueueLocked
  rw [MailboxQueue.enqueue_of_no_room hroom]
  by_cases hfits : m.queue.NeverFits value
  · -- refused: the counters stand, and the queue is empty
    rw [MailboxQueue.slide_eq, if_pos ((MailboxQueue.wouldExceedBytes_slid_iff _ _).mpr hfits)]
    have hslid := MailboxQueue.slid_of_neverFits hfits
    simp only [Balanced, hslid, List.length_nil]
    rw [← List.length_eq_zero_iff]
    have hnone := mt (MailboxQueue.neverFits_of_roomAfter (n := 1)) (not_not.mpr hfits)
    constructor
    · intro h
      left
      omega
    · rintro (h | h)
      · omega
      · exact absurd h hnone
  · rw [MailboxQueue.slide_of_not_neverFits hfits]
    have hwhen : m.queue.inner = [] ∨ m.queue.RoomAfter value 1 ↔
        m.queue.inner.length ≤ (m.queue.slid value).inner.length + 1 := by
      by_cases hne : m.queue.inner = []
      · exact iff_of_true (.inl hne) (by simp [hne])
      · rw [MailboxQueue.roomAfter_one_iff hlimit hroom hne hfits]
        exact or_iff_right hne
    rw [hwhen]
    split_ifs with hdropped
    · simp only [Balanced, MailboxQueue.pushBack, List.length_append, List.length_singleton]
      have hpos : m.stats.droppedOldest.toNat < UInt64.size - 1 := by omega
      rw [satSucc_toNat hc, satSucc_toNat hpos]
      omega
    · simp only [Balanced, MailboxQueue.pushBack, List.length_append, List.length_singleton]
      rw [satSucc_toNat hc]
      omega

/-- **When a push keeps the balance.** -/
theorem balanced_push_iff {m : Mailbox H} (hb : m.Balanced) (hc : m.Counting)
    (hlimit : 0 < m.queue.limit) (value : H) :
    (m.push value).1.Balanced ↔ m.DropsAtMostOne value := by
  rcases m.push_cases value with ⟨flow, hp, ha, he⟩ | ⟨hno, he⟩
  · rw [he]
    refine iff_of_true (balanced_handOff hb hc) fun _ hno => ?_
    rw [hno flow hp] at ha
    cases ha
  rw [he]
  by_cases hroom : m.queue.HasRoom value
  · obtain ⟨capacity, henq⟩ := MailboxQueue.enqueue_of_room hroom m.config.overflow
    refine iff_of_true ?_ fun _ _ => ?_
    · simp only [enqueueLocked, henq]
      exact balanced_append hb hc rfl
    · exact .inr (MailboxQueue.roomAfter_one_of_zero (MailboxQueue.roomAfter_zero hroom))
  cases hpolicy : m.config.overflow with
  | dropOldest =>
    rw [balanced_slide_iff hb hc hroom hlimit]
    constructor
    · intro h _ _
      exact h
    · intro h
      exact h hpolicy hno
  | reject =>
    refine iff_of_true ?_ fun h => ?_
    · simp only [enqueueLocked, MailboxQueue.enqueue_of_no_room hroom]
      exact hb
    · rw [hpolicy] at h
      cases h
  | dropNewest =>
    refine iff_of_true ?_ fun h => ?_
    · simp only [enqueueLocked, MailboxQueue.enqueue_of_no_room hroom]
      exact hb
    · rw [hpolicy] at h
      cases h

/-! ## Histories -/

/-- The operation drops at most one hop, and the counter of enqueued hops has room for the one it
brings. -/
def Op.Counted (m : Mailbox H) : Op H → Prop
  | .push value => m.Counting ∧ m.DropsAtMostOne value
  | .pushSystem _ => m.Counting
  | .admitWaitingSender => m.Counting
  | _ => True

/-- An admission enqueues the hop of the head waiter, or counts a refusal. -/
theorem balanced_admitWaitingSender {m : Mailbox H} (hb : m.Balanced) (hc : m.Counting) :
    m.admitWaitingSender.1.Balanced := by
  unfold admitWaitingSender
  split_ifs
  · exact hb
  cases hw : m.waitingSenders with
  | nil => exact hb
  | cons waiter rest =>
    by_cases hroom : m.queue.HasRoom waiter.message
    · obtain ⟨capacity, henq⟩ := MailboxQueue.enqueue_of_room hroom .reject
      simp only [enqueueLocked, henq]
      exact balanced_append hb hc rfl
    · simp only [enqueueLocked, MailboxQueue.enqueue_of_no_room hroom]
      exact hb

/-- Every operation that drops at most one hop keeps the balance. -/
theorem balanced_after {m : Mailbox H} (hlimit : 0 < m.queue.limit) (op : Op H)
    (hop : op.Counted m) (hb : m.Balanced) : (m.after op).Balanced := by
  cases op with
  | push value => exact (balanced_push_iff hb hop.1 hlimit value).mpr hop.2
  | pushSystem value =>
    rcases m.pushSystem_cases value with ⟨_, -, -, he⟩ | ⟨-, he⟩
    · rw [after, he]
      exact balanced_handOff hb hop
    · rw [after, he]
      exact balanced_append hb hop (m.queue.forcePush_inner value)
  | tryPopFilter filter =>
    rcases m.tryPopFilter_cases filter with ⟨h, hfind, he⟩ | ⟨-, he⟩
    · rw [after, he]
      exact balanced_take hb hfind
    · rw [after, he]
      exact hb
  | parkFilter flow filter =>
    rcases m.parkFilter_cases flow filter with ⟨h, hfind, he⟩ | ⟨-, he⟩
    · rw [after, he]
      exact balanced_take hb hfind
    · rw [after, he]
      exact hb
  | takeParkedAt epoch =>
    rcases m.takeParkedAt_cases epoch with ⟨_, -, -, he⟩ | ⟨-, he⟩
    · rw [after, he]
      exact hb
    · rw [after, he]
      exact hb
  | takeParked => exact hb
  | parkSender flow message =>
    simp only [after, parkSender]
    split_ifs
    · exact hb
    · exact hb
  | admitWaitingSender => exact balanced_admitWaitingSender hb hop
  | takeWaitingSender sender =>
    simp only [after, takeWaitingSender]
    split
    · exact hb
    · exact hb
  | close => exact hb

/-- **The metrics balance.** In every history whose pushes drop at most one hop each, what was
enqueued was dequeued, was dropped as the oldest, or is queued. -/
theorem metrics_balanced (config : MailboxConfig) {ops : List (Op H)}
    (hops : Schedule.Guarded after (fun m op => op.Counted m) (new config) ops) :
    ((new config).run ops).Balanced := by
  have hstart : (new config : Mailbox H).Balanced := by
    simp [Balanced, new, MailboxStats.default, MailboxQueue.new]
  have hinv := Schedule.Guarded.invariant
    (I := fun m : Mailbox H => 0 < m.queue.limit ∧ m.Balanced)
    (fun m op hop h => ⟨by rw [(m.after_limit op).1]; exact h.1, balanced_after h.1 op hop h.2⟩)
    hops ⟨config.capacity.min_le, hstart⟩
  exact hinv.2

/-- Four hops, one kibibyte, and the oldest hops make room. -/
def fourSliding : MailboxConfig where
  capacity := ⟨4, by decide, by decide⟩
  bytes := ⟨1024, by decide, by decide⟩
  overflow := .dropOldest

/-- A hop that evicts the hop before it, and is then received. -/
theorem metrics_balanced_slide :
    ((new (.oneHop .dropOldest)).run
      [.push (.int 1), .push (.int 2), .tryPopFilter .any] : Mailbox Value).Balanced := by
  refine metrics_balanced (.oneHop .dropOldest) ⟨⟨by decide, fun _ _ => .inl rfl⟩, ?_, trivial,
    trivial⟩
  exact ⟨by decide, fun _ _ => .inr (by decide)⟩

/-- Three small hops that one large hop evicts are counted as one. -/
theorem evictions_undercounted :
    ¬∀ (config : MailboxConfig) (ops : List (Op Value)), ((new config).run ops).Balanced := by
  intro hall
  have h := hall fourSliding [.push (.int 1), .push (.int 2), .push (.int 3),
    .push (.bytes (List.replicate 900 0))]
  revert h
  decide +kernel

end Mailbox

end Byteflow
