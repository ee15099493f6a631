import Byteflow.Scheduler.Mailbox.Admission
import Byteflow.Scheduler.Mailbox.System

/-!
# The accounts of a queue

`bytes` follows the hops of the queue with saturating additions and subtractions. It stays the sum
of their sizes as long as that sum is a `usize`, which only forced hops can make false while the
budget is below the largest `usize` (`accounts_exact`). On exact accounts `DropOldest` drops no
more than it must (`dropOldest_minimal`).
-/

namespace Byteflow

namespace MailboxQueue

variable {H : Type} [HopView H]

/-- The sizes of the hops, added up. -/
def charge (l : List H) : ℕ := (l.map cost).sum

@[simp] theorem charge_nil : charge ([] : List H) = 0 := rfl

@[simp] theorem charge_cons (h : H) (l : List H) : charge (h :: l) = cost h + charge l := by
  simp [charge]

@[simp] theorem charge_append (l l' : List H) : charge (l ++ l') = charge l + charge l' := by
  simp [charge]

theorem charge_le_of_suffix {l l' : List H} (h : l <:+ l') : charge l ≤ charge l' := by
  obtain ⟨front, rfl⟩ := h
  simp

theorem satAdd_le (a b : ℕ) : satAdd a b ≤ a + b := min_le_left _ _

omit [HopView H] in
theorem fits_of_not_exceeds {q : MailboxQueue H} {n : ℕ} (h : ¬q.wouldExceedBytes n = true) :
    satAdd q.bytes n ≤ q.byteLimit :=
  not_lt.mp (mt decide_eq_true h)

/-! ## Exact accounts -/

/-- The queue is charged for its hops. -/
def Exact (q : MailboxQueue H) : Prop := q.bytes = charge q.inner

namespace Exact

variable {q : MailboxQueue H}

theorem pushBack (h : q.Exact) (capacity : ℕ) {value : H}
    (hfits : charge q.inner + cost value ≤ usizeMax) :
    ({ q with capacity := capacity }.pushBack value).Exact := by
  unfold Exact at *
  simp only [MailboxQueue.pushBack, satAdd, charge_append, charge_cons, charge_nil]
  omega

theorem take (h : q.Exact) (filter : WaitFilter) : (q.take filter).1.Exact := by
  cases hf : q.inner.find? filter.accepts with
  | none => rwa [take_of_none hf]
  | some v =>
    have hbytes : (q.take filter).1.bytes = q.bytes - cost v := by
      rw [MailboxQueue.take, pick_eq, hf]
    have hsum : charge q.inner = cost v + charge (q.inner.eraseP filter.accepts) :=
      ((FirstMatch.perm_cons_eraseP hf).map cost).sum_eq
    unfold Exact at *
    rw [hbytes, take_inner, h, hsum, Nat.add_sub_cancel_left]

end Exact

theorem evict_exact (limit byteLimit cost₀ : ℕ) (l : List H) (dropped : Bool) :
    (evict limit byteLimit cost₀ l (charge l) dropped).2.1 =
      charge (evict limit byteLimit cost₀ l (charge l) dropped).1 := by
  induction l generalizing dropped with
  | nil => rfl
  | cons old rest ih =>
    rw [evict]
    split_ifs
    · rw [charge_cons, Nat.add_sub_cancel_left]
      exact ih true
    · rfl

theorem Exact.slid {q : MailboxQueue H} (h : q.Exact) (value : H) : (q.slid value).Exact := by
  unfold Exact MailboxQueue.slid
  rw [h]
  exact evict_exact _ _ _ _ _

/-- The sum that an enqueue leads to is no obstacle if the budget is below the largest `usize`. -/
theorem Exact.enqueue {q : MailboxQueue H} (h : q.Exact) (value : H) (policy : OverflowPolicy)
    (hfits : q.byteLimit < usizeMax ∨ charge (q.enqueue value policy).1.inner ≤ usizeMax) :
    (q.enqueue value policy).1.Exact := by
  by_cases hroom : q.HasRoom value
  · obtain ⟨capacity, he⟩ := enqueue_of_room hroom policy
    have hbytes := (hasRoom_iff.mp hroom).2
    rw [he] at hfits ⊢
    refine h.pushBack capacity ?_
    simp only [MailboxQueue.pushBack, charge_append, charge_cons, charge_nil] at hfits
    unfold Exact at h
    unfold satAdd at hbytes
    omega
  · rw [enqueue_of_no_room hroom] at hfits ⊢
    cases policy with
    | reject => exact h
    | dropNewest => exact h
    | dropOldest =>
      dsimp only at hfits ⊢
      rw [slide_eq] at hfits ⊢
      by_cases hexceeds : (q.slid value).wouldExceedBytes (cost value) = true
      · rw [if_pos hexceeds]
        exact h.slid value
      · rw [if_neg hexceeds] at hfits ⊢
        refine (h.slid value).pushBack _ ?_
        have hslid : (q.slid value).bytes = charge (q.slid value).inner := h.slid value
        have hbytes : satAdd (q.slid value).bytes (cost value) ≤ q.byteLimit :=
          fits_of_not_exceeds hexceeds
        simp only [MailboxQueue.pushBack, charge_append, charge_cons, charge_nil] at hfits
        unfold satAdd at hbytes
        omega

/-! ## Bounds -/

/-- The queue is within both bounds. -/
def Bounded (q : MailboxQueue H) : Prop := q.inner.length ≤ q.limit ∧ q.bytes ≤ q.byteLimit

theorem evict_bytes_le (limit byteLimit cost₀ : ℕ) (l : List H) (bytes : ℕ) (dropped : Bool) :
    (evict limit byteLimit cost₀ l bytes dropped).2.1 ≤ bytes := by
  induction l generalizing bytes dropped with
  | nil => exact le_rfl
  | cons old rest ih =>
    rw [evict]
    split_ifs
    · exact (ih _ _).trans (Nat.sub_le _ _)
    · exact le_rfl

/-- What the eviction loop leaves has a free slot. -/
theorem length_slid_lt {q : MailboxQueue H} (hlimit : 1 ≤ q.limit) (value : H) :
    (q.slid value).inner.length < q.limit := by
  obtain ⟨n, hn, hdrop, -, hroom⟩ :=
    evict_spec q.limit q.byteLimit (cost value) q.inner q.bytes false
  have hslid : (q.slid value).inner = q.inner.drop n := hdrop
  rw [hslid, List.length_drop]
  rcases hn.lt_or_eq with hlt | heq
  · exact (hroom hlt).1
  · omega

namespace Bounded

variable {q : MailboxQueue H}

theorem take (h : q.Bounded) (filter : WaitFilter) : (q.take filter).1.Bounded := by
  have hbytes : (q.take filter).1.bytes ≤ q.bytes := by
    unfold MailboxQueue.take
    split
    · exact Nat.sub_le _ _
    · exact le_rfl
  refine ⟨?_, ?_⟩
  · rw [take_inner, take_limit]
    exact List.length_eraseP_le.trans h.1
  · rw [take_byteLimit]
    exact hbytes.trans h.2

theorem enqueue (h : q.Bounded) (hlimit : 1 ≤ q.limit) (value : H) (policy : OverflowPolicy) :
    (q.enqueue value policy).1.Bounded := by
  by_cases hroom : q.HasRoom value
  · obtain ⟨capacity, he⟩ := enqueue_of_room hroom policy
    obtain ⟨hlen, hbytes⟩ := hasRoom_iff.mp hroom
    rw [he]
    refine ⟨?_, hbytes⟩
    simp only [pushBack, List.length_append, List.length_singleton]
    omega
  · rw [enqueue_of_no_room hroom]
    cases policy with
    | reject => exact h
    | dropNewest => exact h
    | dropOldest =>
      have hlen := length_slid_lt hlimit value
      dsimp only
      rw [slide_eq]
      by_cases hexceeds : (q.slid value).wouldExceedBytes (cost value) = true
      · rw [if_pos hexceeds]
        exact ⟨hlen.le, (evict_bytes_le _ _ _ _ _ _).trans h.2⟩
      · rw [if_neg hexceeds]
        refine ⟨?_, fits_of_not_exceeds hexceeds⟩
        simp only [pushBack, List.length_append, List.length_singleton]
        exact hlen

end Bounded

/-! ## Any sequence of calls -/

/-- A call that changes a queue. -/
inductive Call (H : Type)
  | enqueue (value : H) (policy : OverflowPolicy)
  | take (filter : WaitFilter)
  | forcePush (value : H)

/-- The queue after a call. -/
def apply (q : MailboxQueue H) : Call H → MailboxQueue H
  | .enqueue value policy => (q.enqueue value policy).1
  | .take filter => (q.take filter).1
  | .forcePush value => q.forcePush value

/-- The queue after a sequence of calls on a new one. -/
def calls (limit byteLimit : ℕ) (cs : List (Call H)) : MailboxQueue H :=
  Schedule.run apply (new limit byteLimit) cs

variable {limit byteLimit : ℕ} {cs : List (Call H)}

theorem calls_concat (c : Call H) :
    calls limit byteLimit (cs ++ [c]) = (calls limit byteLimit cs).apply c :=
  Schedule.run_concat _ _ _

theorem apply_limits (q : MailboxQueue H) (c : Call H) :
    (q.apply c).limit = q.limit ∧ (q.apply c).byteLimit = q.byteLimit := by
  cases c with
  | enqueue value policy => exact enqueue_limits q value policy
  | take filter => exact ⟨take_limit q filter, take_byteLimit q filter⟩
  | forcePush value => exact ⟨rfl, rfl⟩

theorem calls_limits (limit byteLimit : ℕ) (cs : List (Call H)) :
    (calls limit byteLimit cs).limit = limit ∧ (calls limit byteLimit cs).byteLimit = byteLimit :=
  Schedule.invariant (I := fun q => q.limit = limit ∧ q.byteLimit = byteLimit)
    (fun q c h => ⟨(apply_limits q c).1.trans h.1, (apply_limits q c).2.trans h.2⟩) ⟨rfl, rfl⟩ cs

/-- A call keeps exact accounts if the sum that it leads to is a `usize`. -/
theorem Exact.apply {q : MailboxQueue H} (h : q.Exact) (c : Call H)
    (hfits : charge (q.apply c).inner ≤ usizeMax) : (q.apply c).Exact := by
  cases c with
  | enqueue value policy => exact h.enqueue value policy (.inr hfits)
  | take filter => exact h.take filter
  | forcePush value => exact h.pushBack _ (by simpa [MailboxQueue.apply] using hfits)

theorem exact_calls (hfits : ∀ front, front <+: cs →
    charge (calls limit byteLimit front).inner ≤ usizeMax) : (calls limit byteLimit cs).Exact := by
  induction cs using List.reverseRecOn with
  | nil => rfl
  | append_singleton cs c ih =>
    have hlast := hfits (cs ++ [c]) List.prefix_rfl
    rw [calls_concat] at hlast ⊢
    exact (ih fun front hfront => hfits front (hfront.trans (List.prefix_append _ _))).apply c hlast

/-- Without forced hops the queue stays within its bounds, and its accounts exact. -/
theorem bounded_calls (hlimit : 1 ≤ limit) (hforce : ∀ value, Call.forcePush value ∉ cs) :
    (calls limit byteLimit cs).Bounded ∧
      (byteLimit < usizeMax → (calls limit byteLimit cs).Exact) := by
  induction cs using List.reverseRecOn with
  | nil => exact ⟨⟨Nat.zero_le _, Nat.zero_le _⟩, fun _ => rfl⟩
  | append_singleton cs c ih =>
    obtain ⟨hbounded, hexact⟩ := ih fun value hmem => hforce value (List.mem_append_left _ hmem)
    obtain ⟨hlim, hbyte⟩ := calls_limits limit byteLimit cs
    rw [calls_concat]
    cases c with
    | enqueue value policy =>
      exact ⟨hbounded.enqueue (hlimit.trans_eq hlim.symm) value policy,
        fun hmax => (hexact hmax).enqueue value policy (.inl (hbyte.trans_lt hmax))⟩
    | take filter => exact ⟨hbounded.take filter, fun hmax => (hexact hmax).take filter⟩
    | forcePush value => exact absurd (by simp) (hforce value)

/-- **The accounts of a queue.** As long as the sizes of the queued hops add up to a `usize`,
`bytes` is their sum. Without forced hops the queue stays within both bounds, and the sum is a
`usize` if the budget is below the largest. A hop that both bounds have room for is queued, and
nothing is dropped for it. -/
theorem accounts_exact (limit byteLimit : ℕ) (hlimit : 1 ≤ limit) (cs : List (Call H)) :
    ((∀ front, front <+: cs → charge (calls limit byteLimit front).inner ≤ usizeMax) →
      (calls limit byteLimit cs).bytes = charge (calls limit byteLimit cs).inner) ∧
    ((∀ value, Call.forcePush value ∉ cs) →
      (calls limit byteLimit cs).inner.length ≤ limit ∧
      (calls limit byteLimit cs).bytes ≤ byteLimit ∧
      (byteLimit < usizeMax →
        (calls limit byteLimit cs).bytes = charge (calls limit byteLimit cs).inner)) ∧
    ∀ value policy, (calls limit byteLimit cs).inner.length < limit →
      (calls limit byteLimit cs).bytes + cost value ≤ byteLimit →
      ((calls limit byteLimit cs).enqueue value policy).2 = .ok .enqueued ∧
      ((calls limit byteLimit cs).enqueue value policy).1.inner =
        (calls limit byteLimit cs).inner ++ [value] := by
  obtain ⟨hlim, hbyte⟩ := calls_limits limit byteLimit cs
  refine ⟨exact_calls, fun hforce => ?_, fun value policy hlen hfits => ?_⟩
  · have hbounded : (calls limit byteLimit cs).Bounded ∧ _ := bounded_calls hlimit hforce
    exact ⟨hbounded.1.1.trans_eq hlim, hbounded.1.2.trans_eq hbyte, hbounded.2⟩
  · have hroom : (calls limit byteLimit cs).HasRoom value :=
      hasRoom_iff.mpr ⟨hlen.trans_eq hlim.symm, ((satAdd_le _ _).trans hfits).trans_eq hbyte.symm⟩
    obtain ⟨capacity, he⟩ := enqueue_of_room hroom policy
    rw [he]
    exact ⟨rfl, rfl⟩

/-- A queue of one slot refuses the second hop. -/
def oneQueued : List (Call Value) := [.enqueue (.int 1) .reject, .enqueue (.int 2) .reject]

theorem accounts_exact_oneQueued :
    (calls 1 1024 oneQueued).inner.length ≤ 1 ∧ (calls 1 1024 oneQueued).bytes ≤ 1024 ∧
      (1024 < usizeMax →
        (calls 1 1024 oneQueued).bytes = charge (calls 1 1024 oneQueued).inner) :=
  (accounts_exact 1 1024 le_rfl oneQueued).2.1 (by simp [oneQueued])

/-- A buffer of `n` bytes. -/
theorem exists_cost (n : ℕ) : ∃ v : Value, cost v = sizeOfValue + n := by
  refine ⟨.bytes (List.replicate n 0), ?_⟩
  show sizeOfValue + (List.replicate n (0 : UInt8)).length = _
  rw [List.length_replicate]

/-- Two forced hops, each with half of what a `usize` can count, and a third. -/
theorem calls_overcharged {a b c : Value} (ha : cost a = 2 ^ 63) (hb : cost b = 2 ^ 63)
    (limit byteLimit : ℕ) :
    (calls limit byteLimit [.forcePush a, .forcePush b, .forcePush c]).inner = [a, b, c] ∧
      (calls limit byteLimit [.forcePush a, .forcePush b, .forcePush c]).bytes = usizeMax := by
  refine ⟨rfl, ?_⟩
  show satAdd (satAdd (satAdd 0 (cost a)) (cost b)) (cost c) = usizeMax
  rw [ha, hb]
  unfold satAdd usizeMax
  omega

theorem accounts_saturate :
    ¬∀ (limit byteLimit : ℕ) (cs : List (Call Value)), 1 ≤ limit → 1 ≤ byteLimit →
      (calls limit byteLimit cs).bytes = charge (calls limit byteLimit cs).inner := by
  intro hall
  obtain ⟨a, ha⟩ := exists_cost (2 ^ 63 - sizeOfValue)
  have ha : cost a = 2 ^ 63 := ha
  obtain ⟨hinner, hbytes⟩ := calls_overcharged (c := .unit) ha ha 8 1024
  have h := hall 8 1024 [.forcePush a, .forcePush a, .forcePush .unit] (by decide) (by decide)
  rw [hinner, hbytes] at h
  simp only [charge_cons, charge_nil, ha, usizeMax] at h
  omega

/-! ## What `DropOldest` drops -/

/-- The hop can be appended to these hops within both bounds. -/
def FitsAfter (q : MailboxQueue H) (value : H) (kept : List H) : Prop :=
  kept.length + 1 ≤ q.limit ∧ charge kept + cost value ≤ q.byteLimit

/-- The loop reports a drop exactly if it leaves less than there was. -/
theorem evict_dropped_iff (limit byteLimit cost₀ : ℕ) (l : List H) (bytes : ℕ) (dropped : Bool) :
    (evict limit byteLimit cost₀ l bytes dropped).2.2 = false ↔
      dropped = false ∧ (evict limit byteLimit cost₀ l bytes dropped).1 = l := by
  induction l generalizing bytes dropped with
  | nil => simp [evict]
  | cons old rest ih =>
    rw [evict]
    split_ifs
    · refine iff_of_false (fun h => Bool.noConfusion ((ih _ _).mp h).1) fun h => ?_
      have hlen := (evict_suffix limit byteLimit cost₀ rest (bytes - cost old) true).length_le
      rw [h.2, List.length_cons] at hlen
      omega
    · simp

/-- On exact accounts the loop stops where the hop fits. -/
theorem Exact.roomAfter_iff {q : MailboxQueue H} (h : q.Exact) {value : H}
    (hmax : q.byteLimit < usizeMax ∨ charge q.inner + cost value ≤ usizeMax) {n : ℕ}
    (hn : n ≤ q.inner.length) : q.RoomAfter value n ↔ q.FitsAfter value (q.inner.drop n) := by
  have hsplit : charge q.inner = charge (q.inner.take n) + charge (q.inner.drop n) := by
    rw [← charge_append, List.take_append_drop]
  unfold Exact at h
  unfold RoomAfter RoomWithout FitsAfter satAdd
  rw [List.length_drop, h, show ((q.inner.take n).map cost).sum = charge (q.inner.take n) from rfl]
  omega

/-- **`DropOldest` drops no more than it must.** On exact accounts a hop that is let in follows the
longest suffix of the queue after which it fits. -/
theorem dropOldest_minimal {q : MailboxQueue H} (hexact : q.bytes = charge q.inner)
    (hlimit : 1 ≤ q.limit) {value : H}
    (hmax : q.byteLimit < usizeMax ∨ charge q.inner + cost value ≤ usizeMax)
    {effect : EnqueueEffect} (hok : (q.enqueue value .dropOldest).2 = .ok effect) :
    ∃ kept, kept <:+ q.inner ∧ q.FitsAfter value kept ∧
      (∀ other, other <:+ q.inner → q.FitsAfter value other → other.length ≤ kept.length) ∧
      (q.enqueue value .dropOldest).1.inner = kept ++ [value] ∧
      (effect = .enqueued ↔ kept = q.inner) := by
  have hexact : q.Exact := hexact
  by_cases hroom : q.HasRoom value
  · obtain ⟨capacity, he⟩ := enqueue_of_room hroom .dropOldest
    rw [he] at hok ⊢
    have hfits := (hexact.roomAfter_iff hmax (Nat.zero_le _)).mp (roomAfter_zero hroom)
    refine ⟨q.inner, List.suffix_rfl, hfits, fun other hother _ => hother.length_le, rfl, ?_⟩
    exact iff_of_true (Except.ok.inj hok).symm rfl
  · rw [enqueue_of_no_room hroom] at hok ⊢
    dsimp only at hok ⊢
    rw [slide_eq] at hok ⊢
    by_cases hexceeds : (q.slid value).wouldExceedBytes (cost value) = true
    · rw [if_pos hexceeds] at hok
      cases hok
    rw [if_neg hexceeds] at hok ⊢
    obtain ⟨n, hn, hdrop, hmin, -⟩ :=
      evict_spec q.limit q.byteLimit (cost value) q.inner q.bytes false
    have hslid : (q.slid value).inner = q.inner.drop n := hdrop
    refine ⟨(q.slid value).inner, q.slid_suffix value, ⟨length_slid_lt hlimit value, ?_⟩,
      fun other hother hfits => ?_, rfl, ?_⟩
    · have hbytes : satAdd (q.slid value).bytes (cost value) ≤ q.byteLimit :=
        fits_of_not_exceeds hexceeds
      have hcharge : (q.slid value).bytes = charge (q.slid value).inner := hexact.slid value
      have hle := charge_le_of_suffix (q.slid_suffix value)
      unfold satAdd at hbytes
      omega
    · -- a longer suffix would have stopped the loop before
      have heq := List.suffix_iff_eq_drop.mp hother
      have hlen := hother.length_le
      rw [hslid, List.length_drop]
      by_contra hlt
      refine hmin (q.inner.length - other.length) (by omega) ?_
      exact (hexact.roomAfter_iff hmax (Nat.sub_le _ _)).mpr (heq ▸ hfits)
    · have hflag := evict_dropped_iff q.limit q.byteLimit (cost value) q.inner q.bytes false
      have hkept : (q.slid value).inner =
        (evict q.limit q.byteLimit (cost value) q.inner q.bytes false).1 := rfl
      rw [← Except.ok.inj hok, hkept]
      cases hdropped : (evict q.limit q.byteLimit (cost value) q.inner q.bytes false).2.2 with
      | true => simpa [hdropped] using hflag
      | false => simpa [hdropped] using hflag

/-- A queue that two hops fill. -/
def twoQueued : MailboxQueue Value := calls 2 1024 [.forcePush (.int 1), .forcePush (.int 2)]

/-- The third hop drops the first. -/
theorem dropOldest_minimal_third :
    ∃ kept, kept <:+ twoQueued.inner ∧ twoQueued.FitsAfter (.int 3) kept ∧
      (∀ other, other <:+ twoQueued.inner → twoQueued.FitsAfter (.int 3) other →
        other.length ≤ kept.length) ∧
      (twoQueued.enqueue (.int 3) .dropOldest).1.inner = kept ++ [.int 3] ∧
      (EnqueueEffect.droppedOldest = .enqueued ↔ kept = twoQueued.inner) :=
  dropOldest_minimal (by decide) (by decide) (.inl (by decide)) (by decide)

/-- Once the accounts saturate, the loop stops too early: the hop of 1064 bytes that is kept is
over the budget of 1024. -/
theorem dropOldest_keeps_too_much :
    ¬∀ (limit byteLimit : ℕ) (cs : List (Call Value)) (value : Value) (effect : EnqueueEffect),
      1 ≤ limit → 1 ≤ byteLimit →
      ((calls limit byteLimit cs).enqueue value .dropOldest).2 = .ok effect →
      ∃ kept, kept <:+ (calls limit byteLimit cs).inner ∧
        (calls limit byteLimit cs).FitsAfter value kept ∧
        ((calls limit byteLimit cs).enqueue value .dropOldest).1.inner = kept ++ [value] := by
  intro hall
  obtain ⟨a, ha⟩ := exists_cost (2 ^ 63 - sizeOfValue)
  have ha : cost a = 2 ^ 63 := ha
  obtain ⟨c, hc⟩ := exists_cost 1000
  have hc : cost c = 1064 := hc
  obtain ⟨hinner, hbytes⟩ := calls_overcharged (c := c) ha ha 8 1024
  obtain ⟨hlim, hbyte⟩ := calls_limits 8 1024 [.forcePush a, .forcePush a, .forcePush c]
  have hall := hall 8 1024 [.forcePush a, .forcePush a, .forcePush c] .unit .droppedOldest
    (by decide) (by decide)
  generalize calls 8 1024 [.forcePush a, .forcePush a, .forcePush c] = q at *
  have hunit : cost Value.unit = 64 := rfl
  have hroom : ¬q.HasRoom .unit := by
    rw [hasRoom_iff, hbytes, hbyte, hunit]
    exact fun hroom => absurd hroom.2 (by decide)
  have hevict : evict q.limit q.byteLimit (cost Value.unit) q.inner q.bytes false =
      ([c], 0, true) := by
    rw [hlim, hbyte, hunit, hinner, hbytes]
    simp [evict, ha, satAdd, usizeMax]
  have hslid : q.slid .unit = { q with inner := [c], bytes := 0 } := by
    unfold slid
    rw [hevict]
  rw [enqueue_of_no_room hroom] at hall
  dsimp only at hall
  rw [slide_eq, hslid, hevict, if_neg (by simp [wouldExceedBytes, hbyte, hunit, satAdd])] at hall
  obtain ⟨kept, -, hfits, hkept⟩ := hall rfl
  obtain rfl : kept = [c] := (List.append_inj_left' hkept.symm rfl)
  simp [FitsAfter, hbyte, hc, hunit] at hfits

end MailboxQueue

end Byteflow
