import Byteflow.Scheduler.Mailbox.Conservation

/-!
# System hops in the queue

`push_system` ignores both bounds so that a `DOWN` hop is not lost to overflow. Once queued it is
an ordinary element: a later user push under `DropOldest` may evict it. This module says exactly
when it does not. The eviction loop drops the shortest prefix that makes room (`evict_spec`), so a
push spares the system hops when dropping user hops alone makes room.
-/

namespace Byteflow

/-! ## The eviction loop -/

namespace MailboxQueue

variable {H : Type} [HopView H]

/-- Without its `n` oldest hops, a queue of this charge has room for a hop of this cost. -/
def RoomWithout (limit byteLimit cost₀ : ℕ) (l : List H) (bytes n : ℕ) : Prop :=
  l.length - n < limit ∧ satAdd (bytes - ((l.take n).map cost).sum) cost₀ ≤ byteLimit

/-- The loop drops the shortest prefix that makes room, or everything. -/
theorem evict_spec (limit byteLimit cost₀ : ℕ) (l : List H) (bytes : ℕ) (dropped : Bool) :
    ∃ n ≤ l.length, (evict limit byteLimit cost₀ l bytes dropped).1 = l.drop n ∧
      (∀ k < n, ¬RoomWithout limit byteLimit cost₀ l bytes k) ∧
      (n < l.length → RoomWithout limit byteLimit cost₀ l bytes n) := by
  induction l generalizing bytes dropped with
  | nil => exact ⟨0, le_rfl, rfl, fun k hk => by omega, fun h => by simp at h⟩
  | cons old rest ih =>
    rw [evict]
    by_cases hfull : (limit ≤ (old :: rest).length || byteLimit < satAdd bytes cost₀) = true
    · rw [if_pos hfull]
      obtain ⟨n, hn, hdrop, hmin, hroom⟩ := ih (bytes - cost old) true
      have hshift : ∀ k, RoomWithout limit byteLimit cost₀ (old :: rest) bytes (k + 1) ↔
          RoomWithout limit byteLimit cost₀ rest (bytes - cost old) k := by
        intro k
        simp [RoomWithout, Nat.sub_sub]
      refine ⟨n + 1, by simpa using hn, by simpa using hdrop, fun k hk => ?_, fun h => ?_⟩
      · cases k with
        | zero =>
          simp only [Bool.or_eq_true, decide_eq_true_eq] at hfull
          simp only [RoomWithout, List.take_zero, List.map_nil, List.sum_nil, Nat.sub_zero]
          omega
        | succ k => exact fun hk' => hmin k (by omega) ((hshift k).mp hk')
      · exact (hshift n).mpr (hroom (by simpa using h))
    · rw [if_neg hfull]
      refine ⟨0, Nat.zero_le _, rfl, fun k hk => by omega, fun _ => ?_⟩
      simp only [Bool.or_eq_true, decide_eq_true_eq, not_or] at hfull
      simp only [RoomWithout, List.take_zero, List.map_nil, List.sum_nil, Nat.sub_zero]
      omega

/-- Dropping the `n` oldest hops makes room for the hop. -/
def RoomAfter (q : MailboxQueue H) (value : H) (n : ℕ) : Prop :=
  RoomWithout q.limit q.byteLimit (cost value) q.inner q.bytes n

theorem roomAfter_zero {q : MailboxQueue H} {value : H} (h : q.HasRoom value) :
    q.RoomAfter value 0 := by
  obtain ⟨hfull, hbytes⟩ := h
  simp only [isFull, wouldExceedBytes, decide_eq_false_iff_not] at hfull hbytes
  simp only [RoomAfter, RoomWithout, List.take_zero, List.map_nil, List.sum_nil, Nat.sub_zero]
  omega

/-- A hop that finds no room evicts the shortest prefix that makes room, or everything. -/
theorem evicted_spec {q : MailboxQueue H} {value : H} (h : ¬q.HasRoom value) :
    ∃ n ≤ q.inner.length, q.evicted value .dropOldest = q.inner.take n ∧
      (∀ k < n, ¬q.RoomAfter value k) ∧ (n < q.inner.length → q.RoomAfter value n) := by
  obtain ⟨n, hn, hdrop, hmin, hroom⟩ :=
    evict_spec q.limit q.byteLimit (cost value) q.inner q.bytes false
  refine ⟨n, hn, ?_, hmin, hroom⟩
  have hslid : (q.slid value).inner = q.inner.drop n := hdrop
  have hsplit := evicted_append_slid h
  rw [hslid] at hsplit
  have hlen := congrArg List.length hsplit
  rw [List.length_append, List.length_drop] at hlen
  have htake : q.inner.take (q.evicted value .dropOldest).length =
      q.evicted value .dropOldest := by
    conv_lhs => rw [← hsplit]
    exact List.take_left
  rw [← htake]
  congr 1
  omega

end MailboxQueue

/-! ## Pushes that spare the system hops -/

namespace Mailbox

variable {H : Type} [HopView H]

/-- The operation does not reach the system hops `sys` of the queue: it is no push, or no
`DropOldest` push, or the parked receiver takes the hop, or there is no system hop to reach, or
dropping user hops alone makes room. -/
def SparesSystem (sys : List H) (m : Mailbox H) : Op H → Prop
  | .push value =>
    m.config.overflow ≠ .dropOldest ∨
      (∃ flow, m.parked = some flow ∧ m.parkedFilter.accepts value = true) ∨
      (∀ h ∈ m.queue.inner, h ∉ sys) ∨
      ∃ n, (∀ h ∈ m.queue.inner.take n, h ∉ sys) ∧ m.queue.RoomAfter value n
  | _ => True

/-- **Exactly the sparing operations evict no system hop.** -/
theorem evictedBy_spares_iff (sys : List H) (m : Mailbox H) (op : Op H) :
    (∀ h ∈ m.evictedBy op, h ∉ sys) ↔ m.SparesSystem sys op := by
  cases op with
  | push value =>
    rcases m.push_cases value with ⟨flow, hp, ha, he⟩ | ⟨hno, he⟩
    · simp only [evictedBy, he, SparesSystem]
      exact ⟨fun _ => .inr (.inl ⟨flow, hp, ha⟩), fun _ h hh => by cases hh⟩
    rw [(ledger_of_enqueueLocked he).2.2, SparesSystem]
    by_cases hpolicy : m.config.overflow = .dropOldest
    swap
    · simp [MailboxQueue.evicted, hpolicy]
    rw [hpolicy]
    by_cases hroom : m.queue.HasRoom value
    · constructor
      · intro _
        exact .inr (.inr (.inr ⟨0, by simp, MailboxQueue.roomAfter_zero hroom⟩))
      · intro _ h hh
        simp [MailboxQueue.evicted, hroom] at hh
    obtain ⟨n, hn, hevicted, hmin, hfound⟩ := MailboxQueue.evicted_spec hroom
    rw [hevicted]
    constructor
    · intro hspared
      rcases hn.lt_or_eq with hlt | heq
      · exact .inr (.inr (.inr ⟨n, hspared, hfound hlt⟩))
      · rw [heq, List.take_length] at hspared
        exact .inr (.inr (.inl hspared))
    · rintro (hne | ⟨flow, hp, ha⟩ | hnone | ⟨k, hk, hroomk⟩) h hh
      · exact absurd rfl hne
      · rw [hno flow hp] at ha
        cases ha
      · exact hnone h (List.mem_of_mem_take hh)
      · -- the loop has stopped at `k` at the latest
        have hle : n ≤ k := not_lt.mp fun hlt => hmin k hlt hroomk
        exact hk h ((List.take_sublist_take_left hle).subset hh)
  | _ => simp [evictedBy, SparesSystem]

/-! ## Histories -/

/-- The hops that `push_system` brought. -/
def systemHops (ops : List (Op H)) : List H :=
  ops.filterMap fun
    | .pushSystem value => some value
    | _ => none

/-- Every step of the history satisfies `P`, which may look at the steps before it. -/
def EachStep (P : List (Op H) → Op H → Prop) (ops : List (Op H)) : Prop :=
  ∀ pre op post, ops = pre ++ op :: post → P pre op

omit [HopView H] in
theorem eachStep_concat {P : List (Op H) → Op H → Prop} {ops : List (Op H)} {op : Op H} :
    EachStep P (ops ++ [op]) ↔ EachStep P ops ∧ P ops op := by
  constructor
  · intro h
    refine ⟨fun pre op' post hops => ?_, h ops op [] rfl⟩
    exact h pre op' (post ++ [op]) (by simp [hops])
  · rintro ⟨h, hlast⟩ pre op' post hops
    rcases List.eq_nil_or_concat post with rfl | ⟨post, op'', rfl⟩
    · obtain ⟨rfl, hop⟩ := List.append_inj' hops rfl
      cases hop
      exact hlast
    · rw [List.concat_eq_append, ← List.cons_append, ← List.append_assoc] at hops
      obtain ⟨rfl, -⟩ := List.append_inj' hops rfl
      exact h pre op' post rfl

theorem systemHops_subset_accepted (config : MailboxConfig) (ops : List (Op H)) :
    systemHops ops ⊆ (ledger config ops).accepted := by
  induction ops using List.reverseRecOn with
  | nil => exact List.nil_subset _
  | append_singleton ops op ih =>
    rw [ledger_concat, Ledger.after, systemHops, List.filterMap_append]
    refine List.append_subset.mpr ⟨List.Subset.trans ih (List.subset_append_left _ _), ?_⟩
    refine List.Subset.trans ?_ (List.subset_append_right _ _)
    cases op <;> simp [acceptedBy]

theorem mem_hops_of_accepted {config : MailboxConfig} {ops : List (Op H)} {h : H}
    (hh : h ∈ (ledger config ops).accepted) : h ∈ ops.filterMap Op.hop? :=
  (ledger_subperm config ops).subset (List.mem_append_left _ hh)

theorem mem_hops_of_evicted {config : MailboxConfig} {ops : List (Op H)} {h : H}
    (hh : h ∈ (ledger config ops).evicted) : h ∈ ops.filterMap Op.hop? := by
  have hmem : h ∈ (ledger config ops).delivered ++
      (((new config).run ops).queue.inner ++ (ledger config ops).evicted) := by
    simp [hh]
  exact mem_hops_of_accepted ((ledger_balanced config ops).perm.symm.subset hmem)

omit [HopView H] in
theorem mem_hops_of_system {ops : List (Op H)} {h : H} (hh : h ∈ systemHops ops) :
    h ∈ ops.filterMap Op.hop? := by
  obtain ⟨op, hop, heq⟩ := List.mem_filterMap.mp hh
  refine List.mem_filterMap.mpr ⟨op, hop, ?_⟩
  cases op <;> simp_all [Op.hop?]

/-- In a history whose hops are distinct, no system hop is evicted iff every step spares those
queued before it. -/
theorem eachStep_spares_iff (config : MailboxConfig) {ops : List (Op H)}
    (hops : (ops.filterMap Op.hop?).Nodup) :
    EachStep (fun pre op => ((new config).run pre).SparesSystem (systemHops pre) op) ops ↔
      ∀ h ∈ systemHops ops, h ∉ (ledger config ops).evicted := by
  induction ops using List.reverseRecOn with
  | nil => simp [EachStep, systemHops]
  | append_singleton ops op ih =>
    have hpre : (ops.filterMap Op.hop?).Nodup := by
      rw [List.filterMap_append] at hops
      exact (List.nodup_append.mp hops).1
    rw [eachStep_concat, ih hpre, ← evictedBy_spares_iff, ledger_concat, Ledger.after]
    have hsys : systemHops (ops ++ [op]) = systemHops ops ++ systemHops [op] :=
      List.filterMap_append
    rw [hsys]
    constructor
    · rintro ⟨hpast, hlast⟩ h hh hev
      rcases List.mem_append.mp hev with hev | hev
      · rcases List.mem_append.mp hh with hh | hh
        · exact hpast h hh hev
        · -- a hop that comes last was not in the queue before
          have hcame : h ∈ ops.filterMap Op.hop? := mem_hops_of_evicted hev
          rw [List.filterMap_append] at hops
          exact (List.nodup_append.mp hops).2.2 h hcame h (mem_hops_of_system hh) rfl
      · rcases List.mem_append.mp hh with hh | hh
        · exact hlast h hev hh
        · cases op <;> simp [systemHops, evictedBy] at hh hev
    · intro hall
      refine ⟨fun h hh hev => ?_, fun h hev hh => ?_⟩
      · exact hall h (List.mem_append_left _ hh) (List.mem_append_left _ hev)
      · exact hall h (List.mem_append_left _ hh) (List.mem_append_right _ hev)

/-- A hop of the history is either evicted, or queued or delivered, but not both. -/
theorem not_mem_evicted_iff (config : MailboxConfig) {ops : List (Op H)}
    (hops : (ops.filterMap Op.hop?).Nodup) {h : H} (hh : h ∈ (ledger config ops).accepted) :
    h ∉ (ledger config ops).evicted ↔
      h ∈ ((new config).run ops).queue.inner ∨ h ∈ (ledger config ops).delivered := by
  have hb := ledger_balanced config ops
  have hd := hb.perm.nodup_iff.mp (ledger_accepted_nodup config hops)
  have hmem := hb.perm.subset hh
  rw [List.nodup_append] at hd
  simp only [List.nodup_append, List.mem_append] at hd hmem
  constructor
  · intro hev
    rcases hmem with hmem | hmem | hmem
    · exact .inr hmem
    · exact .inl hmem
    · exact absurd hmem hev
  · rintro (hq | hdel) hev
    · exact hd.2.1.2.2 h hq h hev rfl
    · exact hd.2.2 h hdel h (.inr hev) rfl

/-- **When system hops are not droppable.** In a history, every hop that `push_system` brought is
still queued or was delivered exactly when every push spares the system hops queued before it. -/
theorem system_hops_kept_iff (config : MailboxConfig) (ops : List (Op Value)) :
    (∀ h ∈ systemHops (named ops), h ∈ ((new config).run (named ops)).queue.inner ∨
        h ∈ (ledger config (named ops)).delivered) ↔
      EachStep (fun pre op => ((new config).run pre).SparesSystem (systemHops pre) op)
        (named ops) := by
  have hnamed : ((named ops).filterMap Op.hop?).Nodup := named_nodup 0 ops
  rw [eachStep_spares_iff config hnamed]
  refine forall₂_congr fun h hh => ?_
  exact (not_mem_evicted_iff config hnamed (systemHops_subset_accepted config _ hh)).symm

/-- One slot, and the oldest hop makes room. -/
def oneSlot : MailboxConfig := .oneHop .dropOldest

/-- A `DOWN` hop, then a user hop. -/
def downThenUser : List (Op Value) :=
  [.pushSystem (Message.down 1 7 0).toValue, .push (.int 1)]

/-- The user hop evicts the `DOWN` hop, which nobody has received. -/
theorem user_push_evicts_down :
    ¬∀ (config : MailboxConfig) (ops : List (Op Value)), ∀ h ∈ systemHops (named ops),
      h ∈ ((new config).run (named ops)).queue.inner ∨
        h ∈ (ledger config (named ops)).delivered := by
  intro hall
  have h := hall oneSlot downThenUser ⟨0, (Message.down 1 7 0).toValue⟩ (by decide)
  revert h
  decide

end Mailbox

end Byteflow
