import Byteflow.Scheduler.Mailbox.Run

/-!
# Wait epochs identify waits

A park that begins a wait returns the epoch of the wait, and a timer ends a wait only under its
epoch. The history of the waits of a mailbox is read off the results of its operations: which
epoch each park returned (`began`), and which operations gave the parked flow back (`ended`).
Below `2 ^ 64` parks the epochs are distinct, and `take_parked_at` ends exactly the wait it names.
-/

namespace Byteflow

namespace Mailbox

variable {H : Type} [HopView H]

/-- The epoch returned, when the operation is a park that began a wait. -/
def began (m : Mailbox H) : Op H → Option WaitEpoch
  | .parkFilter flow filter =>
    match (m.parkFilter flow filter).2 with
    | .ok epoch => some epoch
    | .error _ => none
  | _ => none

/-- Did the operation give the parked flow to its caller? -/
def ended (m : Mailbox H) : Op H → Bool
  | .push value =>
    match (m.push value).2 with
    | .ok (.handoff _) => true
    | _ => false
  | .pushSystem value =>
    match (m.pushSystem value).2 with
    | .handoff _ => true
    | _ => false
  | .takeParkedAt epoch => (m.takeParkedAt epoch).2.isSome
  | .takeParked => m.takeParked.2.isSome
  | _ => false

/-- The waits of a history: the epochs its parks returned, in order, and the position there of
the wait in progress. -/
structure Waits where
  epochs : List WaitEpoch
  current : Option ℕ

namespace Waits

def after (w : Waits) (m : Mailbox H) (op : Op H) : Waits :=
  match m.began op with
  | some epoch => ⟨w.epochs ++ [epoch], some w.epochs.length⟩
  | none => if m.ended op then { w with current := none } else w

/-- The counter numbers the waits from one, and a wait is in progress while a flow is parked. -/
structure Numbered (w : Waits) (m : Mailbox H) : Prop where
  epochs : w.epochs = (List.range w.epochs.length).map fun k => ⟨UInt64.ofNat (k + 1)⟩
  counter : m.waitEpoch = UInt64.ofNat w.epochs.length
  current : ∀ k, w.current = some k → k + 1 = w.epochs.length ∧ m.parked.isSome
  idle : w.current = none → m.parked = none

end Waits

/-- The waits after a list of operations on `m`. -/
def waitsFrom (m : Mailbox H) (w : Waits) : List (Op H) → Waits
  | [] => w
  | op :: ops => (m.after op).waitsFrom (w.after m op) ops

/-- The waits of a history of a new mailbox. -/
def waits (config : MailboxConfig) (ops : List (Op H)) : Waits :=
  (new config).waitsFrom ⟨[], none⟩ ops

/-- An operation that begins no wait leaves the counter, and either ends the wait or leaves the
parked flow. -/
theorem after_of_began_none {m : Mailbox H} {op : Op H} (h : m.began op = none) :
    (m.after op).waitEpoch = m.waitEpoch ∧
      ((m.ended op = true ∧ (m.after op).parked = none) ∨
        (m.ended op = false ∧ (m.after op).parked = m.parked)) := by
  cases op with
  | push value =>
    rcases m.push_cases value with ⟨flow, -, -, he⟩ | ⟨-, he⟩
    · simp [after, ended, he, handOff]
    · have hne := m.enqueueLocked_ne_handoff value m.config.overflow
      exact ⟨by simp [after, he], .inr ⟨by simp only [ended, he], by simp [after, he]⟩⟩
  | pushSystem value =>
    rcases m.pushSystem_cases value with ⟨flow, -, -, he⟩ | ⟨-, he⟩ <;>
      simp [after, ended, he, handOff]
  | tryPopFilter filter =>
    rcases m.tryPopFilter_cases filter with ⟨v, -, he⟩ | ⟨-, he⟩ <;> simp [after, ended, he]
  | parkFilter flow filter =>
    rcases m.parkFilter_cases flow filter with ⟨v, -, he⟩ | ⟨-, he⟩
    · simp [after, ended, he]
    · simp [began, he] at h
  | takeParkedAt epoch =>
    rcases m.takeParkedAt_cases epoch with ⟨flow, -, -, he⟩ | ⟨-, he⟩ <;> simp [after, ended, he]
  | takeParked =>
    cases hp : m.parked <;> simp [after, ended, takeParked, hp]
  | parkSender flow message =>
    simp only [after, ended, parkSender]
    split_ifs <;> simp
  | admitWaitingSender =>
    rcases m.admitWaitingSender_cases with ⟨-, he⟩ | ⟨_, _, _, -, -, -, he⟩ |
      ⟨_, _, _, -, -, -, he⟩ <;> simp [after, ended, he]
  | takeWaitingSender sender =>
    simp only [after, ended, takeWaitingSender]
    split <;> simp
  | close => simp [after, ended, close]

/-- An operation that begins a wait counts it and parks its flow. -/
theorem after_of_began_some {m : Mailbox H} {op : Op H} {epoch : WaitEpoch}
    (h : m.began op = some epoch) :
    epoch = ⟨m.waitEpoch + 1⟩ ∧ (m.after op).waitEpoch = m.waitEpoch + 1 ∧
      (m.after op).parked.isSome := by
  cases op with
  | parkFilter flow filter =>
    rcases m.parkFilter_cases flow filter with ⟨v, -, he⟩ | ⟨-, he⟩
    · simp [began, he] at h
    · simp only [began, he, Option.some.injEq] at h
      simp [after, he, h]
  | _ => cases h

theorem Waits.Numbered.after {w : Waits} {m : Mailbox H} (h : w.Numbered m) (op : Op H) :
    (w.after m op).Numbered (m.after op) := by
  cases hb : m.began op with
  | some epoch =>
    obtain ⟨rfl, hcounter, hparked⟩ := after_of_began_some hb
    have hsucc : m.waitEpoch + 1 = UInt64.ofNat (w.epochs.length + 1) := by
      rw [h.counter]
      simp
    have hw : w.after m op = ⟨w.epochs ++ [⟨m.waitEpoch + 1⟩], some w.epochs.length⟩ := by
      rw [Waits.after, hb]
    rw [hw]
    constructor
    · rw [List.length_append, List.length_singleton, List.range_succ, List.map_append, ← h.epochs,
        List.map_singleton, hsucc]
    · rw [hcounter, hsucc, List.length_append, List.length_singleton]
    · intro k hk
      cases hk
      exact ⟨by simp, hparked⟩
    · intro hk
      cases hk
  | none =>
    obtain ⟨hcounter, ⟨he, hp⟩ | ⟨he, hp⟩⟩ := after_of_began_none hb
    · have hw : w.after m op = { w with current := none } := by rw [Waits.after, hb]; simp [he]
      rw [hw]
      exact ⟨h.epochs, hcounter.trans h.counter, fun _ hk => (by cases hk), fun _ => hp⟩
    · have hw : w.after m op = w := by rw [Waits.after, hb]; simp [he]
      rw [hw]
      exact ⟨h.epochs, hcounter.trans h.counter, fun k hk => hp ▸ h.current k hk,
        fun hk => hp ▸ h.idle hk⟩

theorem Waits.Numbered.waitsFrom {w : Waits} {m : Mailbox H} (h : w.Numbered m)
    (ops : List (Op H)) : (m.waitsFrom w ops).Numbered (m.run ops) := by
  induction ops generalizing m w with
  | nil => exact h
  | cons op ops ih => exact ih (h.after op)

theorem waits_numbered (config : MailboxConfig) (ops : List (Op H)) :
    (waits config ops).Numbered ((new config).run ops) :=
  Waits.Numbered.waitsFrom ⟨rfl, rfl, fun _ h => (by cases h), fun _ => rfl⟩ ops

omit [HopView H] in
/-- The epoch of the `k`-th wait. -/
theorem Waits.Numbered.get {w : Waits} {m : Mailbox H} (h : w.Numbered m) {k : ℕ}
    {epoch : WaitEpoch} (hk : w.epochs[k]? = some epoch) :
    k < w.epochs.length ∧ epoch.get = UInt64.ofNat (k + 1) := by
  have hlt : k < w.epochs.length := (List.getElem?_eq_some_iff.mp hk).1
  rw [h.epochs, List.getElem?_map, List.getElem?_range hlt] at hk
  exact ⟨hlt, by rw [← Option.some.inj hk]⟩

/-- **Epochs identify waits.** After any history with fewer than `2 ^ 64` parks, `take_parked_at`
under the epoch of a wait gives the parked flow exactly when that wait is in progress, under any
other epoch it gives nothing, and when it gives nothing it changes nothing. -/
theorem wait_epoch_identifies_wait (config : MailboxConfig) (ops : List (Op H))
    (hparks : (waits config ops).epochs.length < 2 ^ 64) (epoch : WaitEpoch) :
    (∀ k, (waits config ops).epochs[k]? = some epoch →
        ((((new config).run ops).takeParkedAt epoch).2.isSome ↔
          (waits config ops).current = some k)) ∧
      (∀ flow, (((new config).run ops).takeParkedAt epoch).2 = some flow →
        ((new config).run ops).parked = some flow ∧ epoch ∈ (waits config ops).epochs) ∧
      ((((new config).run ops).takeParkedAt epoch).2 = none →
        (((new config).run ops).takeParkedAt epoch).1 = (new config).run ops) := by
  have hn := waits_numbered config ops
  generalize waits config ops = w at hn hparks ⊢
  generalize (new config).run ops = m at hn ⊢
  -- a parked flow is in the last wait, whose epoch is the counter
  have hlast : ∀ flow, m.parked = some flow →
      ∃ k, w.current = some k ∧ w.epochs[k]? = some ⟨m.waitEpoch⟩ := by
    intro flow hp
    cases hc : w.current with
    | none =>
      rw [hn.idle hc] at hp
      cases hp
    | some k =>
      obtain ⟨hk, -⟩ := hn.current k hc
      have hlt : k < w.epochs.length := by omega
      refine ⟨k, rfl, ?_⟩
      rw [hn.epochs, List.getElem?_map, List.getElem?_range hlt, hn.counter, ← hk]
      rfl
  refine ⟨fun k hk => ⟨fun hsome => ?_, fun hc => ?_⟩, fun flow hflow => ?_, fun hnone => ?_⟩
  · rcases m.takeParkedAt_cases epoch with ⟨flow, he, hp, -⟩ | ⟨-, he⟩
    · obtain ⟨j, hj, hjk⟩ := hlast flow hp
      -- fewer than `2 ^ 64` epochs are distinct, so the `k`-th is the last
      obtain ⟨hlt, hget⟩ := hn.get hk
      obtain ⟨hlt', hget'⟩ := hn.get hjk
      have heq : UInt64.ofNat (k + 1) = UInt64.ofNat (j + 1) := by
        rw [← hget, ← hget']
        exact he.symm
      have hnat := congrArg UInt64.toNat heq
      rw [UInt64.toNat_ofNat', UInt64.toNat_ofNat', Nat.mod_eq_of_lt (by omega),
        Nat.mod_eq_of_lt (by omega)] at hnat
      rw [hj]
      congr 1
      omega
    · rw [he] at hsome
      cases hsome
  · obtain ⟨hlen, hp⟩ := hn.current k hc
    obtain ⟨-, hget⟩ := hn.get hk
    have hcounter : m.waitEpoch = epoch.get := by rw [hget, hn.counter, hlen]
    rcases m.takeParkedAt_cases epoch with ⟨flow, -, -, he⟩ | ⟨hidle, -⟩
    · rw [he]
      rfl
    · rw [hidle hcounter] at hp
      cases hp
  · rcases m.takeParkedAt_cases epoch with ⟨flow', he, hp, heq⟩ | ⟨-, heq⟩
    · rw [heq] at hflow
      obtain ⟨j, -, hj⟩ := hlast flow' hp
      refine ⟨hp.trans hflow, List.mem_of_getElem? (i := j) ?_⟩
      rw [hj, he]
    · rw [heq] at hflow
      cases hflow
  · rcases m.takeParkedAt_cases epoch with ⟨flow, -, -, heq⟩ | ⟨-, heq⟩
    · rw [heq] at hnone
      cases hnone
    · rw [heq]

/-- A flow parks, is handed a hop and parks again: two waits, the second in progress. -/
def twoWaits : List (Op Value) :=
  [.parkFilter (.new 1) .any, .push (.int 1), .parkFilter (.new 1) .any]

/-- The timer of the first wait does not end the second. -/
theorem stale_timer_harmless :
    ((((new .default).run twoWaits).takeParkedAt ⟨1⟩).2.isSome ↔
      (waits .default twoWaits).current = some 0) :=
  (wait_epoch_identifies_wait .default twoWaits (by decide) ⟨1⟩).1 0 (by decide)

end Mailbox

end Byteflow
