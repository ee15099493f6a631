import Byteflow.Foundations.Wakeup
import Byteflow.Scheduler.Flow

/-!
# The handoff of an outcome

A flow's outcome is handed to whoever holds its `FlowHandle` through a oneshot channel
(`scheduler/oneshot.rs`, `scheduler/handle.rs`): a slot behind a mutex, with a condition variable.
Time is in ticks of `Instant`, which go up to `latest`. Poisoned locks are left out.

Whatever the receivers and the sender do and in whatever order, the joins are answered as by one
caller after the other (`Answers`): `Pending` for a while, then the outcome once. A bounded join
sleeps up to its deadline and no further (`joins_bounded`). The sender wakes one waiter: with one
receiver no wakeup is lost, with two one may be (`no_lost_wakeup_iff`).
-/

namespace Byteflow

variable {T ι : Type}

/-- The shared slot. -/
inductive Slot (T : Type)
  | pending
  | ready (value : T)
  | abandoned
  | taken

/-- The errors of a join. -/
inductive JoinError
  | abandoned
  | alreadyCollected
  deriving DecidableEq

/-- `Display`, for a oneshot. -/
def JoinError.message : JoinError → String
  | abandoned => "oneshot: flow was destroyed before producing an outcome"
  | alreadyCollected => "oneshot: outcome was already collected"

inductive JoinState (T : Type)
  | ready (value : T)
  | pending

/-- Inspect the slot without waiting. -/
def Slot.collect : Slot T → Option (Except JoinError T) × Slot T
  | .ready value => (some (.ok value), .taken)
  | .pending => (none, .pending)
  | .abandoned => (some (.error .abandoned), .abandoned)
  | .taken => (some (.error .alreadyCollected), .taken)

/-- What became of the `Sender`, which `send` and `drop` consume. -/
inductive Sender (T : Type)
  | held
  | sent (value : T)
  | dropped

namespace Oneshot

structure Inner (T : Type) where
  slot : Slot T
  sender : Sender T

/-- How long a join waits. -/
inductive Bound
  /-- `try_join`. -/
  | poll
  /-- `join_deadline`. -/
  | deadline (instant : ℕ)
  /-- `join`. -/
  | forever
  deriving DecidableEq

inductive Call (T : Type)
  | send (value : T)
  | drop
  | join (bound : Bound)
  | joinTimeout (timeout : ℕ)

inductive Place (T : Type)
  | joinTimeout (timeout : ℕ)
  | join (bound : Bound)
  /-- A turn of the loop of a join, which begins with `collect`. -/
  | turn (bound : Bound)
  | send (value : T)
  | store (value : T)
  | drop
  | disconnect
  /-- The slot is written, and the guard is still held. -/
  | written
  | notify
  | gone

inductive Reply (T : Type)
  | joined (bound : Bound) (result : Except JoinError (JoinState T))
  | gone

/-- `Instant::checked_duration_since`. -/
def checkedDurationSince (deadline now : ℕ) : Option ℕ :=
  if now ≤ deadline then some (deadline - now) else none

/-- How long a join of a pending slot still waits. -/
inductive Wait
  | giveUp
  | sleep (span : Option ℕ)

def Bound.wait (now : ℕ) : Bound → Wait
  | .poll => .giveUp
  | .deadline instant =>
    match checkedDurationSince instant now with
    | none => .giveUp
    | some remaining => if remaining = 0 then .giveUp else .sleep (some remaining)
  | .forever => .sleep none

open Condvar (Move)

def Wait.move (bound : Bound) (s : Inner T) : Wait → Move (Inner T) (Place T) (Reply T)
  | .giveUp => .done (.joined bound (.ok .pending)) s
  | .sleep span => .wait (.turn bound) span

/-- The bodies of `Sender` and `Receiver`. Only who still holds the `Sender` can send or drop it. -/
def code (latest : ℕ) : Place T → ℕ → Inner T → Move (Inner T) (Place T) (Reply T)
  | .joinTimeout timeout, now, s =>
    .go (.join (if now + timeout ≤ latest then .deadline (now + timeout) else .forever)) s
  | .join bound, _, _ => .lock (.turn bound)
  | .turn bound, now, s =>
    match s.slot.collect with
    | (some result, slot) => .done (.joined bound (result.map .ready)) { s with slot := slot }
    | (none, slot) => (bound.wait now).move bound { s with slot := slot }
  | .send value, _, _ => .lock (.store value)
  | .store value, _, s =>
    match s.sender with
    | .held => .go .written { slot := .ready value, sender := .sent value }
    | _ => .done .gone s
  | .drop, _, _ => .lock .disconnect
  | .disconnect, _, s =>
    match s.sender, s.slot with
    | .held, .pending => .go .written { slot := .abandoned, sender := .dropped }
    | .held, _ => .done .gone { s with sender := .dropped }
    | _, _ => .done .gone s
  | .written, _, _ => .unlock .notify
  | .notify, _, _ => .notifyOne .gone
  -- after `send`, `Drop` returns at once
  | .gone, _, s => .done .gone s

def inside : Place T → Bool
  | .turn _ | .store _ | .disconnect | .written => true
  | _ => false

def start : Call T → Place T
  | .send value => .send value
  | .drop => .drop
  | .join bound => .join bound
  | .joinTimeout timeout => .joinTimeout timeout

theorem fits (latest : ℕ) (k : Place T) (now : ℕ) (s : Inner T) :
    (code latest k now s).Fits inside (inside k) := by
  obtain ⟨slot, sender⟩ := s
  cases k with
  | turn bound =>
    cases slot with
    | pending =>
      show ((bound.wait now).move bound ⟨.pending, sender⟩).Fits inside true
      cases bound.wait now with
      | giveUp => trivial
      | sleep span => exact ⟨rfl, rfl⟩
    | _ => trivial
  | store value =>
    cases sender with
    | held => rfl
    | _ => trivial
  | disconnect =>
    cases sender with
    | held =>
      cases slot with
      | pending => rfl
      | _ => trivial
    | _ => trivial
  | joinTimeout timeout => rfl
  | join bound => exact ⟨rfl, rfl⟩
  | send value => exact ⟨rfl, rfl⟩
  | drop => exact ⟨rfl, rfl⟩
  | written => exact ⟨rfl, rfl⟩
  | notify => rfl
  | gone => trivial

end Oneshot

open Oneshot in
/-- `channel`, and what is done with its two ends. -/
def oneshot (T : Type) (latest : ℕ) : Condvar (Inner T) (Place T) (Call T) (Reply T) where
  start := start
  code := code latest
  inside := inside
  start_outside c := by cases c <;> rfl
  fits := fits latest

namespace Oneshot

open Condvar (Input Thread)

variable [DecidableEq ι] {latest now : ℕ}

/-- A new channel. -/
def new : Inner T := ⟨.pending, .held⟩

abbrev State (T ι : Type) := Condvar.State (Inner T) (Place T) (Reply T) ι

/-- The channel after a schedule. -/
def after (T : Type) (latest now : ℕ) (is : List (Input ι (Call T))) : State T ι :=
  Schedule.run (oneshot T latest).step (.init now new) is

/-! ## What the joins are answered -/

def Reply.answer : Reply T → Option (Except JoinError (JoinState T))
  | .joined _ result => some result
  | .gone => none

/-- The answers of the joins, in the order in which they returned. -/
def answers (results : List (ι × ℕ × Reply T)) : List (Except JoinError (JoinState T)) :=
  results.filterMap (·.2.2.answer)

/-- The answers that one caller after the other gets of a channel. -/
inductive Answers : Inner T → List (Except JoinError (JoinState T)) → Prop
  | pending (n : ℕ) : Answers ⟨.pending, .held⟩ (List.replicate n (.ok .pending))
  | ready (n : ℕ) (v : T) : Answers ⟨.ready v, .sent v⟩ (List.replicate n (.ok .pending))
  | taken (n : ℕ) (v : T) (m : ℕ) : Answers ⟨.taken, .sent v⟩
      (List.replicate n (.ok .pending) ++ .ok (.ready v) ::
        List.replicate m (.error .alreadyCollected))
  | abandoned (n m : ℕ) : Answers ⟨.abandoned, .dropped⟩
      (List.replicate n (.ok .pending) ++ List.replicate m (.error .abandoned))

theorem Answers.quiet {s : Inner T} {as : List (Except JoinError (JoinState T))}
    (h : Answers s as) : Answers s (as ++ []) := (List.append_nil as).symm ▸ h

theorem Answers.move {s : Inner T} {as : List (Except JoinError (JoinState T))}
    (h : Answers s as) (k : Place T) (now : ℕ) :
    Answers ((code latest k now s).shared s)
      (as ++ ((code latest k now s).result.bind Reply.answer).toList) := by
  cases k with
  | turn bound =>
    cases h with
    | pending n =>
      show Answers (((bound.wait now).move bound ⟨.pending, .held⟩).shared ⟨.pending, .held⟩)
        (List.replicate n _ ++
          (((bound.wait now).move bound ⟨.pending, .held⟩).result.bind Reply.answer).toList)
      cases bound.wait now with
      | giveUp =>
        show Answers _ (List.replicate n _ ++ [_])
        rw [← List.replicate_succ']
        exact .pending (n + 1)
      | sleep span => exact (Answers.pending n).quiet
    | ready n v => exact .taken n v 0
    | taken n v m =>
      show Answers _ ((List.replicate n _ ++ _ :: List.replicate m _) ++ [.error .alreadyCollected])
      rw [List.append_assoc, List.cons_append, ← List.replicate_succ']
      exact .taken n v (m + 1)
    | abandoned n m =>
      show Answers _ ((List.replicate n _ ++ List.replicate m _) ++ [.error .abandoned])
      rw [List.append_assoc, ← List.replicate_succ']
      exact .abandoned n (m + 1)
  | store v =>
    cases h with
    | pending n => exact (Answers.ready n v).quiet
    | ready n w => exact (Answers.ready n w).quiet
    | taken n w m => exact (Answers.taken n w m).quiet
    | abandoned n m => exact (Answers.abandoned n m).quiet
  | disconnect =>
    cases h with
    | pending n => exact .abandoned n 0
    | ready n w => exact (Answers.ready n w).quiet
    | taken n w m => exact (Answers.taken n w m).quiet
    | abandoned n m => exact (Answers.abandoned n m).quiet
  | _ => exact h.quiet

omit [DecidableEq ι] in
theorem answers_append (rs : List (ι × ℕ × Reply T)) (i : ι) (now : ℕ) (r : Option (Reply T)) :
    answers (rs ++ (r.map fun r => (i, now, r)).toList) =
      answers rs ++ (r.bind Reply.answer).toList := by
  rw [answers, List.filterMap_append]
  cases r with
  | none => rfl
  | some r => cases r <;> rfl

/-- **The answers of a channel.** However many threads join, bounded or not, and whenever the
sender sends or is dropped: the joins are answered `Pending` up to then, the value is handed out
once, and after it `AlreadyCollected`; `Abandoned` is answered if nothing was sent. -/
theorem answers_after (is : List (Input ι (Call T))) :
    Answers (after T latest now is).shared (answers (after T latest now is).results) := by
  refine Condvar.ledger (M := oneshot T latest) (I := fun s rs => Answers s (answers rs))
    (fun {k now s i rs} h => ?_) (.pending 0) is
  rw [answers_append]
  exact h.move k now

/-! ## Deadlines -/

theorem wait_deadline (instant now : ℕ) : Bound.wait now (.deadline instant) =
    if now < instant then .sleep (some (instant - now)) else .giveUp := by
  rcases lt_trichotomy now instant with h | rfl | h
  · have hne : instant - now ≠ 0 := (Nat.sub_pos_of_lt h).ne'
    simp [Bound.wait, checkedDurationSince, h.le, h, hne]
  · simp [Bound.wait, checkedDurationSince]
  · simp [Bound.wait, checkedDurationSince, h.not_ge, h.not_gt]

/-- What a reply at a time says: a bounded join gave up at its deadline or later. -/
def Reply.Timely (now : ℕ) : Reply T → Prop
  | .joined (.deadline instant) (.ok .pending) => instant ≤ now
  | .joined .forever (.ok .pending) => False
  | _ => True

/-- A thread that sleeps is in a join, and sleeps up to its deadline. -/
def Sleeps : Thread (Place T) → Prop
  | .asleep (.turn (.deadline instant)) since span =>
    since < instant ∧ span = some (instant - since)
  | .asleep (.turn .forever) _ span => span = none
  | .asleep .. => False
  | _ => True

theorem timely_wait {bound : Bound} (h : bound.wait now = .giveUp) :
    (Reply.joined bound (.ok .pending) : Reply T).Timely now := by
  cases bound with
  | poll => trivial
  | deadline instant =>
    rw [wait_deadline] at h
    by_contra hlt
    rw [if_pos (not_le.mp hlt)] at h
    cases h
  | forever => cases h

theorem sleeps_wait {bound : Bound} {span : Option ℕ} (h : bound.wait now = .sleep span) :
    Sleeps (.asleep (.turn bound : Place T) now span) := by
  cases bound with
  | poll => cases h
  | deadline instant =>
    rw [wait_deadline] at h
    by_cases hlt : now < instant
    · rw [if_pos hlt] at h
      cases h
      exact ⟨hlt, rfl⟩
    · rw [if_neg hlt] at h
      cases h
  | forever =>
    cases h
    rfl

/-- What a move returns is timely, and what it waits for ends at the deadline. -/
theorem timely_code (k : Place T) (now : ℕ) (s : Inner T) :
    (∀ r, (code latest k now s).result = some r → r.Timely now) ∧
      Sleeps ((code latest k now s).thread now) := by
  obtain ⟨slot, sender⟩ := s
  cases k with
  | turn bound =>
    cases slot with
    | pending =>
      show (∀ r, ((bound.wait now).move bound ⟨.pending, sender⟩).result = some r → _) ∧
        Sleeps (((bound.wait now).move bound ⟨.pending, sender⟩).thread now)
      cases hw : bound.wait now with
      | giveUp => exact ⟨fun r hr => (by cases hr; exact timely_wait hw), trivial⟩
      | sleep span => exact ⟨fun r hr => (by cases hr), sleeps_wait hw⟩
    | _ => exact ⟨fun r hr => (by cases hr; cases bound <;> trivial), trivial⟩
  | store value =>
    cases sender with
    | held => exact ⟨fun r hr => (by cases hr), trivial⟩
    | _ => exact ⟨fun r hr => (by cases hr; trivial), trivial⟩
  | disconnect =>
    cases sender with
    | held =>
      cases slot with
      | pending => exact ⟨fun r hr => (by cases hr), trivial⟩
      | _ => exact ⟨fun r hr => (by cases hr; trivial), trivial⟩
    | _ => exact ⟨fun r hr => (by cases hr; trivial), trivial⟩
  | gone => exact ⟨fun r hr => (by cases hr; trivial), trivial⟩
  | _ => exact ⟨fun r hr => (by cases hr), trivial⟩

/-- **Bounded joins.** However often the wait is interrupted, a join with a deadline never gives up
before it, and never sleeps past it; a join without one never gives up, and a poll never sleeps. -/
theorem joins_bounded (is : List (Input ι (Call T))) :
    (∀ i t r, (i, t, r) ∈ (after T latest now is).results → r.Timely t) ∧
      ∀ i, Sleeps ((after T latest now is).threads i) := by
  refine ⟨fun i t r hr => ?_, ?_⟩
  · have hledger : ∀ e ∈ (after T latest now is).results, e.2.2.Timely e.2.1 := by
      refine Condvar.ledger (M := oneshot T latest)
        (I := fun _ rs => ∀ e ∈ rs, e.2.2.Timely e.2.1) (fun {k now s i rs} h e he => ?_)
        (fun e he => absurd he List.not_mem_nil) is
      rcases List.mem_append.mp he with he | he
      · exact h e he
      · obtain ⟨r, hr, rfl⟩ := Option.map_eq_some_iff.mp (Option.mem_toList.mp he)
        exact (timely_code k now s).1 r hr
    exact hledger _ hr
  · refine Schedule.invariant (I := fun s : State T ι => ∀ i, Sleeps (s.threads i))
      (fun s input h => Condvar.threads_step (J := fun _ => Sleeps) (C := fun _ _ => True)
        (fun {i t} ht => ?_) (fun hturn _ => ?_) (fun _ => trivial) h)
      (fun i => show Sleeps .idle from trivial) is
    · cases t <;> trivial
    · cases hturn with
      | call hc => trivial
      | take k => trivial
      | move k => exact (timely_code k _ _).2

/-! ## Wakeups -/

/-- The sender is on its way to its notify. -/
def notifying : Place T → Bool
  | .written | .notify => true
  | _ => false

/-- The places of the joins. -/
def joining : Place T → Bool
  | .joinTimeout _ | .join _ | .turn _ => true
  | _ => false

/-- Whoever sleeps, sleeps beside a pending slot, or is about to be woken. -/
def NoLostWakeup (s : State T ι) : Prop :=
  ∀ i, (s.threads i).isAsleep = true → s.shared.slot = .pending ∨
    ∃ j, (s.threads j).At notifying

/-- A thread waits in a join, beside a pending slot. -/
theorem of_wait {k k' : Place T} {s : Inner T} {span : Option ℕ}
    (h : code latest k now s = .wait k' span) :
    s.slot = .pending ∧ ∃ bound, k = .turn bound ∧ k' = .turn bound := by
  obtain ⟨slot, sender⟩ := s
  cases k with
  | turn bound =>
    cases slot with
    | pending =>
      change (bound.wait now).move bound ⟨.pending, sender⟩ = _ at h
      cases hw : bound.wait now with
      | giveUp =>
        rw [hw] at h
        cases h
      | sleep span =>
        rw [hw] at h
        cases h
        exact ⟨rfl, bound, rfl, rfl⟩
    | _ => cases h
  | store value => cases sender <;> cases h
  | disconnect => cases sender <;> cases slot <;> cases h
  | _ => cases h

theorem attends (latest : ℕ) :
    (oneshot T latest).Attends (fun _ _ _ s => s.slot = .pending) notifying where
  wait h := (of_wait h).1
  keeps {k₀ since span s} h k now := by
    obtain ⟨slot, sender⟩ := s
    cases h
    cases k with
    | turn bound =>
      show (((bound.wait now).move bound ⟨.pending, sender⟩).shared ⟨.pending, sender⟩).slot =
        .pending ∨ _
      cases bound.wait now <;> exact .inl rfl
    | store value =>
      cases sender with
      | held => exact .inr rfl
      | _ => exact .inl rfl
    | disconnect =>
      cases sender with
      | held => exact .inr rfl
      | _ => exact .inl rfl
    | _ => exact .inl rfl
  stays {k} h now s := by
    cases k with
    | written => exact .inl rfl
    | notify => exact .inr rfl
    | _ => cases h

theorem closed_joining (latest : ℕ) : (oneshot T latest).Closed joining := by
  intro k k' now s h hP
  cases k with
  | joinTimeout timeout => rfl
  | join bound => rfl
  | turn bound => rfl
  | store value =>
    obtain ⟨slot, sender⟩ := s
    cases sender <;> cases h
    cases hP
  | disconnect =>
    obtain ⟨slot, sender⟩ := s
    cases sender <;> cases slot <;> cases h
    cases hP
  | gone => cases h
  | _ =>
    cases h
    cases hP

theorem waits_joining (latest : ℕ) : (oneshot T latest).Waits joining := by
  intro k k' now s span h
  obtain ⟨-, bound, -, rfl⟩ := of_wait h
  rfl

/-- Of the calls that join, only those of the receivers. -/
def JoinedBy (receivers : Set ι) : Input ι (Call T) → Prop
  | .call i (.join _) | .call i (.joinTimeout _) => i ∈ receivers
  | _ => True

omit [DecidableEq ι] in
theorem only_of_joinedBy {receivers : Set ι} {i₀ : ι} (h : ∀ i ∈ receivers, i = i₀)
    {input : Input ι (Call T)} (hinput : JoinedBy receivers input) :
    input.Only (oneshot T latest) joining i₀ := by
  cases input with
  | call i c =>
    intro hc
    cases c with
    | send value => cases hc
    | drop => cases hc
    | join bound => exact h i hinput
    | joinTimeout timeout => exact h i hinput
  | _ => trivial

theorem no_lost_wakeup {receivers : Set ι} (h : receivers.Subsingleton)
    {is : List (Input ι (Call T))} (his : ∀ input ∈ is, JoinedBy receivers input) :
    NoLostWakeup (after T latest now is) := by
  intro i hi
  obtain ⟨i₀, hi₀⟩ : ∃ i₀, ∀ i ∈ receivers, i = i₀ := by
    rcases receivers.eq_empty_or_nonempty with rfl | ⟨i₀, hi₀⟩
    · exact ⟨i, fun j hj => absurd hj (Set.notMem_empty j)⟩
    · exact ⟨i₀, fun j hj => h hj hi₀⟩
  have hrun : Condvar.Attended (fun _ _ _ s => s.slot = .pending) notifying
      (after T latest now is) :=
    (attends latest).run (closed_joining latest) (waits_joining latest)
      (Schedule.guarded_of_mem (fun _ input hin => only_of_joinedBy hi₀ (his input hin)) _)
  cases ht : (after T latest now is).threads i with
  | asleep k since span => exact hrun i k since span ht
  | _ =>
    rw [ht] at hi
    cases hi

/-- A `join_timeout` of a pending slot, up to its wait. -/
def sleep (timeout : ℕ) (i : ι) : List (Input ι (Call T)) :=
  [.call i (.joinTimeout timeout), .turn i 0, .turn i 0, .turn i 0, .turn i 0]

/-- A `drop` of the sender, up to its return. -/
def disconnect (i : ι) : List (Input ι (Call T)) :=
  [.call i .drop, .turn i 0, .turn i 0, .turn i 0, .turn i 0, .turn i 0]

/-- Without a deadline that the clock can represent, there is none. -/
theorem run_sleep {s : State T ι} {i : ι} {timeout : ℕ} (hlate : latest < s.now + timeout)
    (hidle : s.threads i = .idle) (hfree : s.owner = none) (hslot : s.shared.slot = .pending) :
    Schedule.run (oneshot T latest).step s (sleep timeout i) =
      { s with
        waiters := s.waiters ++ [i]
        threads := Function.update s.threads i (.asleep (.turn .forever) s.now none) } := by
  obtain ⟨now, ⟨slot, sender⟩, owner, waiters, threads, results⟩ := s
  cases hslot
  cases hfree
  have htimeout : code latest (.joinTimeout timeout : Place T) now ⟨.pending, sender⟩ =
    .go (.join .forever) ⟨.pending, sender⟩ := by
    simp only [code, if_neg (not_le.mpr hlate)]
  have hjoin : code latest (.join .forever : Place T) now ⟨.pending, sender⟩ =
    .lock (.turn .forever) := rfl
  have hturn : code latest (.turn .forever : Place T) now ⟨.pending, sender⟩ =
    .wait (.turn .forever) none := rfl
  simp [sleep, Condvar.step_call hidle, oneshot, start, htimeout, hjoin, hturn]

/-- The notify wakes the first of the waiters, and nobody else. -/
theorem run_disconnect {s : State T ι} {i : ι} (hidle : s.threads i = .idle)
    (hfree : s.owner = none) (hshared : s.shared = new) {j : ι} {waiters : List ι}
    (hwaiters : s.waiters = j :: waiters) :
    Schedule.run (oneshot T latest).step s (disconnect i) =
      ({ s with
        shared := ⟨.abandoned, .dropped⟩
        threads := Function.update s.threads i (.running .gone) } : State T ι).rouse [j] := by
  obtain ⟨now, shared, owner, waiters', threads, results⟩ := s
  cases hshared
  cases hfree
  cases hwaiters
  have hdrop : code latest (.drop : Place T) now ⟨.pending, .held⟩ = .lock .disconnect := rfl
  have hdisconnect : code latest (.disconnect : Place T) now ⟨.pending, .held⟩ =
    .go .written ⟨.abandoned, .dropped⟩ := rfl
  have hwritten : code latest (.written : Place T) now ⟨.abandoned, .dropped⟩ =
    .unlock .notify := rfl
  have hnotify : code latest (.notify : Place T) now ⟨.abandoned, .dropped⟩ =
    .notifyOne .gone := rfl
  simp [disconnect, Condvar.step_call hidle, oneshot, start, hdrop, hdisconnect, hwritten, hnotify]

/-- **One receiver.** The sender wakes one waiter, so that no wakeup is lost is to say that there
is at most one receiver. Two threads that share a handle may both be in `join_timeout`. -/
theorem no_lost_wakeup_iff {receivers : Set ι} (hsender : ∃ c, c ∉ receivers) :
    (∀ latest now, ∀ is : List (Input ι (Call T)), (∀ input ∈ is, JoinedBy receivers input) →
      NoLostWakeup (after T latest now is)) ↔ receivers.Subsingleton := by
  refine ⟨fun h a ha b hb => ?_, fun h latest now is his => no_lost_wakeup h his⟩
  by_contra hab
  obtain ⟨c, hc⟩ := hsender
  have hca : a ≠ c := fun heq => hc (heq ▸ ha)
  have hcb : b ≠ c := fun heq => hc (heq ▸ hb)
  -- two receivers sleep, and the sender is dropped
  let is : List (Input ι (Call T)) := sleep 1 a ++ (sleep 1 b ++ disconnect c)
  have his : ∀ input ∈ is, JoinedBy receivers input := by
    simp [is, sleep, disconnect, JoinedBy, ha, hb]
  let asleep : Thread (Place T) := .asleep (.turn .forever) 0 none
  let s₁ : State T ι := { (.init 0 new : State T ι) with
    waiters := [a]
    threads := Function.update (fun _ => .idle) a asleep }
  let s₂ : State T ι := { s₁ with
    waiters := [a, b]
    threads := Function.update s₁.threads b asleep }
  let s₃ : State T ι := ({ s₂ with
    shared := ⟨.abandoned, .dropped⟩
    threads := Function.update s₂.threads c (.running .gone) } : State T ι).rouse [a]
  have h₁ : Schedule.run (oneshot T 0).step (.init 0 new) (sleep 1 a) = s₁ :=
    run_sleep Nat.one_pos rfl rfl rfl
  have h₂ : Schedule.run (oneshot T 0).step s₁ (sleep 1 b) = s₂ :=
    run_sleep Nat.one_pos (by simp [s₁, Ne.symm hab]) rfl rfl
  have h₃ : Schedule.run (oneshot T 0).step s₂ (disconnect c) = s₃ :=
    run_disconnect (by simp [s₂, s₁, hca.symm, hcb.symm]) rfl rfl rfl
  have hlost := h 0 0 is his
  rw [after, Schedule.run_append, h₁, Schedule.run_append, h₂, h₃] at hlost
  have hthreads (j : ι) : s₃.threads j = if j = a then .locking (.turn .forever)
      else if j = c then .running .gone else if j = b then asleep else .idle := by
    show (if j ∈ [a] then Condvar.Thread.roused _ else _) = _
    by_cases hja : j = a
    · subst hja
      simp [s₂, s₁, asleep, hca, hab, Condvar.Thread.roused]
    · simp only [List.mem_singleton, hja, if_false, s₂, s₁, Function.update_apply]
  rcases hlost b (by rw [hthreads, if_neg (Ne.symm hab), if_neg hcb, if_pos rfl]; rfl) with
    hpending | ⟨j, hj⟩
  · cases hpending
  · rw [hthreads] at hj
    split_ifs at hj <;> cases hj

theorem no_lost_wakeup_iff_one : (∀ latest now, ∀ is : List (Input ℕ (Call Unit)),
    (∀ input ∈ is, JoinedBy {0} input) → NoLostWakeup (after Unit latest now is)) ↔
      ({0} : Set ℕ).Subsingleton :=
  no_lost_wakeup_iff ⟨1, by simp⟩

end Oneshot

/-! ## Handles of flows -/

namespace FlowHandle

open Condvar (Input)
open Oneshot

/-- What a handle makes of a join. `none` is "still running". -/
def settle : Except JoinError (JoinState FlowOutcome) → Option FlowOutcome
  | .ok (.ready outcome) => some outcome
  | .ok .pending => none
  | .error e => some (.failed e.message)

/-- What a handle answers from the end of the flow on. -/
def ended : Inner FlowOutcome → ℕ → List (Option FlowOutcome)
  | ⟨.taken, .sent outcome⟩, n =>
    some outcome :: List.replicate n (some (.failed JoinError.alreadyCollected.message))
  | ⟨.abandoned, _⟩, n => List.replicate n (some (.failed JoinError.abandoned.message))
  | _, _ => []

/-- **The outcome, once.** However many threads use a handle: it answers "still running" until the
flow has ended, then the outcome of the flow to one call, and an error to every further one. -/
theorem answered_once [DecidableEq ι] {latest now : ℕ} (is : List (Input ι (Call FlowOutcome))) :
    ∃ m n, (answers (after FlowOutcome latest now is).results).map settle =
      List.replicate m none ++ ended (after FlowOutcome latest now is).shared n := by
  have h := @answers_after FlowOutcome _ _ latest now is
  generalize (after FlowOutcome latest now is).shared = s at h
  generalize answers (after FlowOutcome latest now is).results = as at h
  cases h with
  | pending m => exact ⟨m, 0, by simp [settle, ended]⟩
  | ready m v => exact ⟨m, 0, by simp [settle, ended]⟩
  | taken m v n => exact ⟨m, n, by simp [settle, ended]⟩
  | abandoned m n => exact ⟨m, n, by simp [settle, ended]⟩

end FlowHandle

end Byteflow
