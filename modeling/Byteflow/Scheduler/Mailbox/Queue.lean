import Byteflow.Foundations.FirstMatch
import Byteflow.Scheduler.Mailbox.Config

/-!
# The hop queue

FIFO hop storage with a hop count and a byte budget (`mailbox/queue.rs`). `capacity` is what the
allocator reserved: `VecDeque::reserve` and `push_back` are taken to reserve exactly what they
must.

The operations come with one lemma each, in terms of lists: `take` is `List.find?` and
`List.eraseP` (`take_snd`, `take_inner`), and a hop that is enqueued is appended to a suffix of the
queue (`enqueue_inner`).
-/

namespace Byteflow

open FirstMatch

/-- Which of a mailbox's two bounds refused a hop. -/
inductive MailboxFullReason
  | messageLimit
  | byteLimit
  deriving DecidableEq

/-- What `enqueue` did. -/
inductive EnqueueEffect
  | enqueued
  | droppedNewest
  | droppedOldest
  deriving DecidableEq

structure MailboxQueue (H : Type) where
  inner : List H
  capacity : ℕ
  limit : ℕ
  bytes : ℕ
  byteLimit : ℕ
  deriving DecidableEq

namespace MailboxQueue

variable {H : Type}

def new (limit byteLimit : ℕ) : MailboxQueue H := ⟨[], 0, limit, 0, byteLimit⟩

def isFull (q : MailboxQueue H) : Bool := q.limit ≤ q.inner.length

def wouldExceedBytes (q : MailboxQueue H) (cost : ℕ) : Bool := q.byteLimit < satAdd q.bytes cost

variable [HopView H]

/-- `memory_size` of a hop. -/
def cost (h : H) : ℕ := (HopView.value h).memorySize

/-- The hop `take` removes, and the hops it leaves: the front under `Any`, else the one at the
position of the first match. -/
def pick (filter : WaitFilter) (inner : List H) : Option H × List H :=
  match filter with
  | .any => (inner.head?, inner.tail)
  | other => extract other.accepts inner

/-- Remove one hop matching `filter`, preserving the relative order of everything else. -/
def take (q : MailboxQueue H) (filter : WaitFilter) : MailboxQueue H × Option H :=
  match pick filter q.inner with
  | (some v, rest) => ({ q with inner := rest, bytes := q.bytes - cost v }, some v)
  | (none, rest) => ({ q with inner := rest }, none)

/-- Physical growth: double the capacity, never past `capacity`. Returns whether a slot is
there, and the capacity reserved. -/
def reserveForPush (q : MailboxQueue H) (capacity : ℕ) : Bool × ℕ :=
  if q.inner.length < q.capacity then (true, q.capacity)
  else
    let current := q.capacity
    let next := min (max current 1 * 2) capacity
    if next ≤ current then (q.inner.length < capacity, q.capacity)
    else (true, max q.capacity (q.inner.length + (next - current)))

/-- `VecDeque::push_back`, with the charge for the hop. -/
def pushBack (q : MailboxQueue H) (value : H) : MailboxQueue H :=
  { q with
    inner := q.inner ++ [value]
    capacity := max q.capacity (q.inner.length + 1)
    bytes := satAdd q.bytes (cost value) }

/-- The loop of `DropOldest`: while the hop of this cost finds no room, drop the oldest hop.
Returns what is left, its charge, and whether a hop was dropped. -/
def evict (limit byteLimit cost₀ : ℕ) : List H → ℕ → Bool → List H × ℕ × Bool
  | [], bytes, dropped => ([], bytes, dropped)
  | old :: rest, bytes, dropped =>
    if limit ≤ (old :: rest).length || byteLimit < satAdd bytes cost₀ then
      evict limit byteLimit cost₀ rest (bytes - cost old) true
    else (old :: rest, bytes, dropped)

/-- The bound a refusal reports: the hop count first. -/
def fullReason (q : MailboxQueue H) : MailboxFullReason :=
  if q.isFull then .messageLimit else .byteLimit

/-- Overflow under `DropOldest`. A hop larger than the whole budget is refused, after the queue
has been emptied. -/
def slide (q : MailboxQueue H) (value : H) :
    MailboxQueue H × Except MailboxFullReason EnqueueEffect :=
  let (inner, bytes, dropped) := evict q.limit q.byteLimit (cost value) q.inner q.bytes false
  let q' := { q with inner := inner, bytes := bytes }
  if q'.wouldExceedBytes (cost value) then (q', .error .byteLimit)
  else (q'.pushBack value, .ok (if dropped then .droppedOldest else .enqueued))

/-- Try to accept `value` under `policy`. -/
def enqueue (q : MailboxQueue H) (value : H) (policy : OverflowPolicy) :
    MailboxQueue H × Except MailboxFullReason EnqueueEffect :=
  if !q.isFull && !q.wouldExceedBytes (cost value) then
    match q.reserveForPush q.limit with
    | (false, capacity) => ({ q with capacity := capacity }, .error .messageLimit)
    | (true, capacity) => ({ q with capacity := capacity }.pushBack value, .ok .enqueued)
  else
    match policy with
    | .reject => (q, .error q.fullReason)
    | .dropNewest => (q, .ok .droppedNewest)
    | .dropOldest => q.slide value

/-- System hops must not be lost to overflow. -/
def forcePush (q : MailboxQueue H) (value : H) : MailboxQueue H :=
  let cap := max q.limit (satAdd q.inner.length 1)
  { q with capacity := (q.reserveForPush cap).2 }.pushBack value

/-! ## What the operations do -/

/-- The queue has room for the hop by both bounds. -/
def HasRoom (q : MailboxQueue H) (h : H) : Prop :=
  q.isFull = false ∧ q.wouldExceedBytes (cost h) = false

instance (q : MailboxQueue H) (h : H) : Decidable (q.HasRoom h) :=
  inferInstanceAs (Decidable (_ ∧ _))

theorem hasRoom_iff {q : MailboxQueue H} {h : H} :
    q.HasRoom h ↔ q.inner.length < q.limit ∧ satAdd q.bytes (cost h) ≤ q.byteLimit :=
  and_congr (decide_eq_false_iff_not.trans not_le) (decide_eq_false_iff_not.trans not_lt)

theorem pick_eq (filter : WaitFilter) (l : List H) :
    pick filter l = (l.find? filter.accepts, l.eraseP filter.accepts) := by
  cases filter with
  | any => cases l <;> rfl
  | tag t => exact extract_eq _ _
  | correlation r s => exact extract_eq _ _
  | taggedCorrelation t r => exact extract_eq _ _

@[simp] theorem take_snd (q : MailboxQueue H) (filter : WaitFilter) :
    (q.take filter).2 = q.inner.find? filter.accepts := by
  rw [take, pick_eq]
  cases q.inner.find? filter.accepts <;> rfl

@[simp] theorem take_inner (q : MailboxQueue H) (filter : WaitFilter) :
    (q.take filter).1.inner = q.inner.eraseP filter.accepts := by
  rw [take, pick_eq]
  cases q.inner.find? filter.accepts <;> rfl

@[simp] theorem take_limit (q : MailboxQueue H) (filter : WaitFilter) :
    (q.take filter).1.limit = q.limit := by
  unfold take; split <;> rfl

@[simp] theorem take_byteLimit (q : MailboxQueue H) (filter : WaitFilter) :
    (q.take filter).1.byteLimit = q.byteLimit := by
  unfold take; split <;> rfl

/-- A queue without a match stays as it is. -/
theorem take_of_none {q : MailboxQueue H} {filter : WaitFilter}
    (h : q.inner.find? filter.accepts = none) : (q.take filter).1 = q := by
  rw [take, pick_eq, h, eraseP_of_find?_none h]

omit [HopView H] in
/-- A queue that is not full always has a slot: growth stops at the limit. -/
theorem reserveForPush_of_not_full {q : MailboxQueue H} (h : q.isFull = false) :
    (q.reserveForPush q.limit).1 = true := by
  have h : q.inner.length < q.limit := by simpa [isFull] using h
  unfold reserveForPush
  split_ifs
  · rfl
  · dsimp only
    split_ifs <;> simp [h]

theorem evict_suffix (limit byteLimit cost₀ : ℕ) (l : List H) (bytes : ℕ) (dropped : Bool) :
    (evict limit byteLimit cost₀ l bytes dropped).1 <:+ l := by
  induction l generalizing bytes dropped with
  | nil => simp [evict]
  | cons old rest ih =>
    rw [evict]
    split_ifs
    · exact (ih _ _).trans (List.suffix_cons _ _)
    · exact List.suffix_rfl

/-- With room the hop is appended, whatever the policy. -/
theorem enqueue_of_room {q : MailboxQueue H} {value : H} (h : q.HasRoom value)
    (policy : OverflowPolicy) :
    ∃ capacity, q.enqueue value policy =
      ({ q with capacity := capacity }.pushBack value, .ok .enqueued) := by
  have hres := reserveForPush_of_not_full h.1
  unfold enqueue
  rw [if_pos (by simp [h.1, h.2])]
  generalize q.reserveForPush q.limit = r at hres
  obtain ⟨ok, capacity⟩ := r
  subst hres
  exact ⟨capacity, rfl⟩

/-- Without room the policy decides. -/
theorem enqueue_of_no_room {q : MailboxQueue H} {value : H} (h : ¬q.HasRoom value)
    (policy : OverflowPolicy) :
    q.enqueue value policy = match policy with
      | .reject => (q, .error q.fullReason)
      | .dropNewest => (q, .ok .droppedNewest)
      | .dropOldest => q.slide value := by
  unfold enqueue
  rw [if_neg]
  intro hroom
  simp only [Bool.and_eq_true, Bool.not_eq_true'] at hroom
  exact h hroom

/-- What the eviction loop leaves of the queue, with its charge. -/
def slid (q : MailboxQueue H) (value : H) : MailboxQueue H :=
  let e := evict q.limit q.byteLimit (cost value) q.inner q.bytes false
  { q with inner := e.1, bytes := e.2.1 }

theorem slid_suffix (q : MailboxQueue H) (value : H) : (q.slid value).inner <:+ q.inner :=
  evict_suffix _ _ _ _ _ _

/-- `DropOldest` refuses a hop exactly when the emptied queue has no room for it. -/
theorem slide_eq (q : MailboxQueue H) (value : H) :
    q.slide value =
      if (q.slid value).wouldExceedBytes (cost value) then (q.slid value, .error .byteLimit)
      else ((q.slid value).pushBack value,
        .ok (if (evict q.limit q.byteLimit (cost value) q.inner q.bytes false).2.2
          then .droppedOldest else .enqueued)) := rfl

/-- The hops that an enqueue evicts: the ones before what the eviction loop leaves. -/
def evicted (q : MailboxQueue H) (value : H) (policy : OverflowPolicy) : List H :=
  if q.HasRoom value ∨ policy ≠ .dropOldest then []
  else q.inner.take (q.inner.length - (q.slid value).inner.length)

/-- The hop of an enqueue, when it was put in the queue. -/
def admitted {H : Type} (value : H) : Except MailboxFullReason EnqueueEffect → List H
  | .ok .enqueued => [value]
  | .ok .droppedOldest => [value]
  | .ok .droppedNewest => []
  | .error _ => []

omit [HopView H] in
theorem mem_admitted {h value : H} {r : Except MailboxFullReason EnqueueEffect}
    (hh : h ∈ admitted value r) : h = value := by
  rcases r with _ | _ | _ | _ <;>
    simp only [admitted, List.mem_singleton, List.not_mem_nil] at hh <;> exact hh

theorem evicted_append_slid {q : MailboxQueue H} {value : H} (h : ¬q.HasRoom value) :
    q.evicted value .dropOldest ++ (q.slid value).inner = q.inner := by
  rw [evicted, if_neg (by simpa using h)]
  have hdrop := List.suffix_iff_eq_drop.mp (q.slid_suffix value)
  calc _ = q.inner.take (q.inner.length - (q.slid value).inner.length) ++
        q.inner.drop (q.inner.length - (q.slid value).inner.length) := by rw [← hdrop]
    _ = q.inner := List.take_append_drop _ _

/-- **What `enqueue` does to the hops**: a hop that is admitted is appended to what the eviction
left, and only `DropOldest` evicts. -/
theorem enqueue_inner (q : MailboxQueue H) (value : H) (policy : OverflowPolicy) :
    ∃ kept, q.inner = q.evicted value policy ++ kept ∧
      (q.enqueue value policy).1.inner = kept ++ admitted value (q.enqueue value policy).2 := by
  by_cases hroom : q.HasRoom value
  · obtain ⟨capacity, h⟩ := enqueue_of_room hroom policy
    exact ⟨q.inner, by simp [evicted, hroom], by rw [h]; rfl⟩
  · rw [enqueue_of_no_room hroom]
    cases policy with
    | reject => exact ⟨q.inner, by simp [evicted], by simp [admitted]⟩
    | dropNewest => exact ⟨q.inner, by simp [evicted], by simp [admitted]⟩
    | dropOldest =>
      refine ⟨(q.slid value).inner, (evicted_append_slid hroom).symm, ?_⟩
      dsimp only
      rw [slide_eq]
      split_ifs <;> simp [admitted, pushBack]

@[simp] theorem enqueue_limits (q : MailboxQueue H) (value : H) (policy : OverflowPolicy) :
    (q.enqueue value policy).1.limit = q.limit ∧
      (q.enqueue value policy).1.byteLimit = q.byteLimit := by
  by_cases hroom : q.HasRoom value
  · obtain ⟨capacity, h⟩ := enqueue_of_room hroom policy
    rw [h]
    exact ⟨rfl, rfl⟩
  · rw [enqueue_of_no_room hroom]
    cases policy with
    | reject => exact ⟨rfl, rfl⟩
    | dropNewest => exact ⟨rfl, rfl⟩
    | dropOldest =>
      dsimp only
      rw [slide_eq]
      split_ifs <;> exact ⟨rfl, rfl⟩

@[simp] theorem forcePush_inner (q : MailboxQueue H) (value : H) :
    (q.forcePush value).inner = q.inner ++ [value] := rfl

end MailboxQueue

end Byteflow
