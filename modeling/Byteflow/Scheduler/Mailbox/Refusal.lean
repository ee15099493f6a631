import Byteflow.Scheduler.Mailbox.Run

/-!
# Refused pushes

A push that is refused should leave the inbox alone. It does under `Reject`. Under `DropOldest` the
eviction loop runs before the refusal: a hop that finds no room in the emptied queue has emptied it.
`push_refused_intact_iff` says that no other refusal touches the queue.
-/

namespace Byteflow

namespace MailboxQueue

variable {H : Type} [HopView H]

/-- The hop finds no room within the byte budget even when every queued hop is dropped. -/
def NeverFits (q : MailboxQueue H) (value : H) : Prop :=
  q.byteLimit < satAdd (q.bytes - (q.inner.map cost).sum) (cost value)

instance (q : MailboxQueue H) (value : H) : Decidable (q.NeverFits value) :=
  inferInstanceAs (Decidable (_ < _))

omit [HopView H] in
theorem satAdd_le_satAdd {a b : ℕ} (h : a ≤ b) (c : ℕ) : satAdd a c ≤ satAdd b c :=
  min_le_min_right usizeMax (Nat.add_le_add_right h c)

/-- The charge left by the loop leaves no room exactly when that of the emptied queue does. -/
theorem evict_exceeds_iff (limit byteLimit cost₀ : ℕ) (l : List H) (bytes : ℕ) (dropped : Bool) :
    byteLimit < satAdd (evict limit byteLimit cost₀ l bytes dropped).2.1 cost₀ ↔
      byteLimit < satAdd (bytes - (l.map cost).sum) cost₀ := by
  induction l generalizing bytes dropped with
  | nil => simp [evict]
  | cons old rest ih =>
    have hsum : bytes - ((old :: rest).map cost).sum = bytes - cost old - (rest.map cost).sum := by
      rw [List.map_cons, List.sum_cons, Nat.sub_sub]
    rw [evict]
    split_ifs with hfull
    · rw [ih, hsum]
    · -- the loop stops with room left, and dropping more hops keeps it
      simp only [Bool.or_eq_true, decide_eq_true_eq, not_or, not_lt] at hfull
      have hle := satAdd_le_satAdd (Nat.sub_le bytes ((old :: rest).map cost).sum) cost₀
      exact iff_of_false (not_lt.mpr hfull.2) (not_lt.mpr (hle.trans hfull.2))

/-- A loop that ends without room has dropped everything. -/
theorem evict_eq_nil_of_exceeds {limit byteLimit cost₀ : ℕ} {l : List H} {bytes : ℕ}
    {dropped : Bool}
    (h : byteLimit < satAdd (evict limit byteLimit cost₀ l bytes dropped).2.1 cost₀) :
    (evict limit byteLimit cost₀ l bytes dropped).1 = [] := by
  induction l generalizing bytes dropped with
  | nil => rfl
  | cons old rest ih =>
    rw [evict] at h ⊢
    split_ifs at h ⊢ with hfull
    · exact ih h
    · simp only [Bool.or_eq_true, decide_eq_true_eq, not_or] at hfull
      exact absurd h hfull.2

theorem wouldExceedBytes_slid_iff (q : MailboxQueue H) (value : H) :
    (q.slid value).wouldExceedBytes (cost value) = true ↔ q.NeverFits value := by
  rw [wouldExceedBytes, decide_eq_true_iff]
  exact evict_exceeds_iff _ _ _ _ _ _

theorem slid_of_neverFits {q : MailboxQueue H} {value : H} (h : q.NeverFits value) :
    (q.slid value).inner = [] := by
  apply evict_eq_nil_of_exceeds
  rwa [evict_exceeds_iff]

/-- A hop that never fits has no room now. -/
theorem not_hasRoom_of_neverFits {q : MailboxQueue H} {value : H} (h : q.NeverFits value) :
    ¬q.HasRoom value := by
  intro hroom
  have hle := satAdd_le_satAdd (Nat.sub_le q.bytes (q.inner.map cost).sum) (cost value)
  have hbytes := (hasRoom_iff.mp hroom).2
  unfold NeverFits at h
  omega

/-- Under `DropOldest` the hops that never fit are refused, and no others. -/
theorem enqueue_dropOldest_of_neverFits {q : MailboxQueue H} {value : H} (h : q.NeverFits value) :
    q.enqueue value .dropOldest = (q.slid value, .error .byteLimit) := by
  rw [enqueue_of_no_room (not_hasRoom_of_neverFits h)]
  dsimp only
  rw [slide_eq, if_pos ((wouldExceedBytes_slid_iff q value).mpr h)]

theorem enqueue_dropOldest_ok {q : MailboxQueue H} {value : H} (h : ¬q.NeverFits value) :
    ∃ effect, (q.enqueue value .dropOldest).2 = .ok effect := by
  by_cases hroom : q.HasRoom value
  · obtain ⟨capacity, he⟩ := enqueue_of_room hroom .dropOldest
    exact ⟨.enqueued, by rw [he]⟩
  · rw [enqueue_of_no_room hroom]
    dsimp only
    rw [slide_eq, if_neg (mt (wouldExceedBytes_slid_iff q value).mp h)]
    exact ⟨_, rfl⟩

/-- The other policies leave the queue alone when they refuse. -/
theorem enqueue_refused {q : MailboxQueue H} {value : H} {policy : OverflowPolicy}
    (hpolicy : policy ≠ .dropOldest) {reason : MailboxFullReason}
    (h : (q.enqueue value policy).2 = .error reason) : (q.enqueue value policy).1 = q := by
  by_cases hroom : q.HasRoom value
  · obtain ⟨capacity, he⟩ := enqueue_of_room hroom policy
    rw [he] at h
    cases h
  · rw [enqueue_of_no_room hroom] at h ⊢
    cases policy with
    | reject => rfl
    | dropNewest => rfl
    | dropOldest => exact absurd rfl hpolicy

end MailboxQueue

namespace Mailbox

variable {H : Type} [HopView H]

/-- The hop, which no parked receiver takes, empties the queue under `DropOldest` and is refused
all the same. -/
def EvictsInVain (m : Mailbox H) (value : H) : Prop :=
  m.config.overflow = .dropOldest ∧ m.queue.inner ≠ [] ∧ m.queue.NeverFits value ∧
    ∀ flow, m.parked = some flow → m.parkedFilter.accepts value = false

theorem enqueueLocked_error_iff {m : Mailbox H} {value : H} {policy : OverflowPolicy}
    {reason : MailboxFullReason} :
    (m.enqueueLocked value policy).2 = .error reason ↔
      (m.queue.enqueue value policy).2 = .error reason := by
  rw [enqueueLocked_result]
  split <;> simp_all

/-- **When a refused push leaves the inbox intact.** The queued hops, their order and their charge
are as before every refusal exactly when the hop does not evict the queue in vain. -/
theorem push_refused_intact_iff (m : Mailbox H) (value : H) :
    (∀ reason, (m.push value).2 = .error reason →
      (m.push value).1.queue.inner = m.queue.inner ∧
        (m.push value).1.queue.bytes = m.queue.bytes) ↔
      ¬m.EvictsInVain value := by
  rcases m.push_cases value with ⟨flow, hp, ha, he⟩ | ⟨hno, he⟩
  · -- a hand-off is no refusal
    rw [he]
    constructor
    · intro _ hvain
      rw [hvain.2.2.2 flow hp] at ha
      cases ha
    · intro _ reason h
      cases h
  rw [he, enqueueLocked_queue]
  by_cases hpolicy : m.config.overflow = .dropOldest
  swap
  · refine iff_of_true (fun reason h => ?_) fun hvain => hpolicy hvain.1
    have hq := MailboxQueue.enqueue_refused hpolicy (enqueueLocked_error_iff.mp h)
    rw [hq]
    exact ⟨rfl, rfl⟩
  rw [hpolicy]
  by_cases hfits : m.queue.NeverFits value
  swap
  · obtain ⟨effect, hok⟩ := MailboxQueue.enqueue_dropOldest_ok hfits
    refine iff_of_true (fun reason h => ?_) fun hvain => hfits hvain.2.2.1
    rw [enqueueLocked_error_iff, hok] at h
    cases h
  have hslid := MailboxQueue.slid_of_neverFits hfits
  have henq := MailboxQueue.enqueue_dropOldest_of_neverFits hfits
  rw [henq]
  constructor
  · intro hintact hvain
    have herror : (m.enqueueLocked value .dropOldest).2 = .error .byteLimit := by
      rw [enqueueLocked_error_iff, henq]
    have hinner := (hintact _ herror).1
    rw [hslid] at hinner
    exact hvain.2.1 hinner.symm
  · intro hvain reason _
    -- nothing was queued, so nothing was evicted
    have hnil : m.queue.inner = [] := by
      by_contra hne
      exact hvain ⟨hpolicy, hne, hfits, hno⟩
    rw [MailboxQueue.slid, hnil]
    exact ⟨rfl, rfl⟩

/-- One kibibyte for a hop, and the oldest hop makes room. -/
def smallSliding : MailboxConfig := .oneHop .dropOldest

/-- A hop larger than the budget is refused, and the hop that was queued is gone. -/
theorem refusal_empties_the_inbox :
    ¬∀ (m : Mailbox Value) (value : Value) (reason : MailboxFullReason),
      (m.push value).2 = .error reason →
        (m.push value).1.queue.inner = m.queue.inner ∧
          (m.push value).1.queue.bytes = m.queue.bytes := by
  intro hall
  have h := hall ((new smallSliding).push (.int 1)).1 (.bytes (List.replicate 1000 0)) .byteLimit
    (by decide +kernel)
  revert h
  decide +kernel

end Mailbox

end Byteflow
