import Byteflow.Foundations.Wakeup
import Byteflow.Foundations.PriorityQueue
import Byteflow.Scheduler.Index

/-!
# The timer wheel

`TimerWheel` (`scheduler/timer.rs`): a priority queue of deadlines behind a mutex, with a condition
variable, and one thread that drives it. The shutdown flag is behind a mutex of its own. Time is in
nanoseconds. What an entry does when it fires is in `Machine.step`; poisoned locks are left out.

In every run the wheel is a priority queue that fires no entry early (`fires`), and at most one
entry fires after the shutdown flag is set (`late_le_one`). One driver never sleeps past a deadline
in the heap (`no_oversleep`), but it may sleep through a shutdown (`shutdown_missed`).
-/

namespace Byteflow

structure TimerEntry where
  deadline : ℕ
  payload : TimerPayload

namespace TimerWheel

open Condvar (Move)

variable {Q ι : Type}

/-- What happens to the heap. -/
inductive Event
  | pushed (entry : TimerEntry)
  /-- An entry fires, before or after the shutdown flag was set. -/
  | fired (now : ℕ) (entry : TimerEntry) (stopping : Bool)

/-- The heap and the shutdown flag, with what happened to the heap. -/
structure Wheel (Q : Type) where
  heap : Q
  shutdown : Bool
  events : List Event

inductive Call
  /-- `schedule_sleep` and `schedule_receive_timeout`. -/
  | schedule (delay : ℕ) (payload : TimerPayload)
  | shutdown
  | drive

inductive Place
  | schedule (delay : ℕ) (payload : TimerPayload)
  | push (entry : TimerEntry)
  | insert (entry : TimerEntry)
  | inserted
  | pushed
  | shutdown
  | flagged
  | off
  /-- The top of the loop of `drive`. -/
  | drive
  | look
  | looked (shuttingDown : Bool)
  /-- The guard that a wait returned is dropped. -/
  | woken
  | popped (entry : TimerEntry)
  | fire (entry : TimerEntry)

/-- How long the driver waits beside an empty heap, 250 ms. -/
def idleWait : ℕ := 250000000

variable (queue : PriorityQueue Q TimerEntry TimerEntry.deadline)

/-- The bodies of `push`, `shutdown` and `drive`. -/
def code : Place → ℕ → Wheel Q → Move (Wheel Q) Place Unit
  | .schedule delay payload, now, s => .go (.push ⟨now + delay, payload⟩) s
  | .push entry, _, _ => .lock (.insert entry)
  | .insert entry, _, s => .go .inserted
      { s with heap := queue.push entry s.heap, events := s.events ++ [.pushed entry] }
  | .inserted, _, _ => .notifyOne .pushed
  | .pushed, _, s => .done () s
  | .shutdown, _, s => .go .flagged { s with shutdown := true }
  | .flagged, _, _ => .notifyAll .off
  | .off, _, s => .done () s
  | .drive, _, _ => .lock .look
  | .look, _, s => .go (.looked s.shutdown) s
  | .looked true, _, s => .done () s
  | .looked false, now, s =>
    match queue.pop s.heap with
    | none => .wait .woken (some idleWait)
    | some (top, heap) =>
      if top.deadline ≤ now then
        .go (.popped top)
          { s with heap := heap, events := s.events ++ [.fired now top s.shutdown] }
      else .wait .woken (some (top.deadline - now))
  | .woken, _, _ => .unlock .drive
  | .popped entry, _, _ => .unlock (.fire entry)
  -- the flow goes to the injector
  | .fire _, _, s => .go .drive s

def inside : Place → Bool
  | .insert _ | .inserted | .pushed | .look | .looked _ | .woken | .popped _ => true
  | _ => false

def start : Call → Place
  | .schedule delay payload => .schedule delay payload
  | .shutdown => .shutdown
  | .drive => .drive

/-- What a thread does next. -/
inductive Goes (now : ℕ) (s : Wheel Q) : Place → Move (Wheel Q) Place Unit → Prop
  | schedule {delay : ℕ} {payload : TimerPayload} :
      Goes now s (.schedule delay payload) (.go (.push ⟨now + delay, payload⟩) s)
  | push {entry : TimerEntry} : Goes now s (.push entry) (.lock (.insert entry))
  | insert {entry : TimerEntry} : Goes now s (.insert entry) (.go .inserted
      { s with heap := queue.push entry s.heap, events := s.events ++ [.pushed entry] })
  | inserted : Goes now s .inserted (.notifyOne .pushed)
  | pushed : Goes now s .pushed (.done () s)
  | shutdown : Goes now s .shutdown (.go .flagged { s with shutdown := true })
  | flagged : Goes now s .flagged (.notifyAll .off)
  | off : Goes now s .off (.done () s)
  | drive : Goes now s .drive (.lock .look)
  | look : Goes now s .look (.go (.looked s.shutdown) s)
  | leave : Goes now s (.looked true) (.done () s)
  | idle (h : queue.entries s.heap = 0) :
      Goes now s (.looked false) (.wait .woken (some idleWait))
  | pop {top : TimerEntry} {heap : Q} (h : queue.pop s.heap = some (top, heap))
      (hdue : top.deadline ≤ now) : Goes now s (.looked false) (.go (.popped top)
        { s with heap := heap, events := s.events ++ [.fired now top s.shutdown] })
  | sleep {top : TimerEntry} {heap : Q} (h : queue.pop s.heap = some (top, heap))
      (hdue : now < top.deadline) :
      Goes now s (.looked false) (.wait .woken (some (top.deadline - now)))
  | woken : Goes now s .woken (.unlock .drive)
  | popped {entry : TimerEntry} : Goes now s (.popped entry) (.unlock (.fire entry))
  | fire {entry : TimerEntry} : Goes now s (.fire entry) (.go .drive s)

theorem goes (k : Place) (now : ℕ) (s : Wheel Q) : Goes queue now s k (code queue k now s) := by
  cases k with
  | looked shuttingDown =>
    cases shuttingDown with
    | true => exact .leave
    | false =>
      cases h : queue.pop s.heap with
      | none =>
        simp only [code, h]
        exact .idle (queue.pop_none h)
      | some p =>
        obtain ⟨top, heap⟩ := p
        simp only [code, h]
        split
        · exact .pop h ‹_›
        · exact .sleep h (not_le.mp ‹_›)
  | _ => constructor

theorem fits (k : Place) (now : ℕ) (s : Wheel Q) :
    (code queue k now s).Fits inside (inside k) := by
  have h := goes queue k now s
  generalize code queue k now s = m at h
  cases h with
  | pushed | off | leave => trivial
  | push | drive | idle | sleep | woken | popped => exact ⟨rfl, rfl⟩
  | _ => rfl

end TimerWheel

/-- The wheel, and the threads that use it. -/
def timerWheel {Q : Type} (queue : PriorityQueue Q TimerEntry TimerEntry.deadline) :
    Condvar (TimerWheel.Wheel Q) TimerWheel.Place TimerWheel.Call Unit where
  start := TimerWheel.start
  code := TimerWheel.code queue
  inside := TimerWheel.inside
  start_outside c := by cases c <;> rfl
  fits := TimerWheel.fits queue

namespace TimerWheel

open Condvar (Input Move)

variable {Q ι : Type} (queue : PriorityQueue Q TimerEntry TimerEntry.deadline)

def new : Wheel Q := ⟨queue.empty, false, []⟩

abbrev State (Q ι : Type) := Condvar.State (Wheel Q) Place Unit ι

section

variable [DecidableEq ι]

/-- The wheel after a schedule. -/
def after (now : ℕ) (is : List (Input ι Call)) : State Q ι :=
  Schedule.run (timerWheel queue).step (.init now (new queue)) is

end

/-! ## What fires -/

/-- The runs of a timer, with the entries that are still to fire: an entry fires at its deadline or
later, and no entry with an earlier deadline is left behind. -/
inductive Fires : List Event → Multiset TimerEntry → Prop
  | new : Fires [] 0
  | pushed {events : List Event} {entries : Multiset TimerEntry} (h : Fires events entries)
      (entry : TimerEntry) : Fires (events ++ [.pushed entry]) (entry ::ₘ entries)
  | fired {events : List Event} {entries : Multiset TimerEntry} {entry : TimerEntry}
      (h : Fires events (entry ::ₘ entries)) {now : ℕ} (hdue : entry.deadline ≤ now)
      (hfirst : ∀ e ∈ entries, entry.deadline ≤ e.deadline) (stopping : Bool) :
      Fires (events ++ [.fired now entry stopping]) entries

theorem Fires.move {s : Wheel Q} (h : Fires s.events (queue.entries s.heap)) (k : Place) (now : ℕ) :
    Fires ((code queue k now s).shared s).events
      (queue.entries ((code queue k now s).shared s).heap) := by
  have hgoes := goes queue k now s
  generalize code queue k now s = m at hgoes
  cases hgoes with
  | @insert entry =>
    show Fires (s.events ++ [.pushed entry]) (queue.entries (queue.push entry s.heap))
    rw [queue.entries_push]
    exact h.pushed entry
  | pop hpop hdue =>
    obtain ⟨hentries, hfirst⟩ := queue.pop_some hpop
    exact .fired (hentries ▸ h) hdue hfirst s.shutdown
  | _ => exact h

/-- **Earliest deadline first.** Whatever is scheduled, whenever and by whom, and however often the
driver is interrupted: what is pushed fires once or is in the heap, not before its deadline, and in
the order of the deadlines. -/
theorem fires [DecidableEq ι] (now : ℕ) (is : List (Input ι Call)) :
    Fires (after queue now is).shared.events (queue.entries (after queue now is).shared.heap) := by
  refine Condvar.ledger (M := timerWheel queue)
    (I := fun s _ => Fires s.events (queue.entries s.heap))
    (fun {k now s i rs} h => h.move queue k now) ?_ is
  show Fires [] (queue.entries queue.empty)
  rw [queue.entries_empty]
  exact .new

/-! ## How long the driver sleeps -/

/-- The wait ends, and not after a deadline in the heap. -/
def Ends (_ : Place) (since : ℕ) (span : Option ℕ) (s : Wheel Q) : Prop :=
  ∃ r, span = some r ∧ ∀ e ∈ queue.entries s.heap, since + r ≤ e.deadline

/-- An entry is pushed, and its notify is to come. -/
def notifying : Place → Bool
  | .inserted => true
  | _ => false

/-- The places of `drive`. -/
def driving : Place → Bool
  | .drive | .look | .looked _ | .woken | .popped _ | .fire _ => true
  | _ => false

/-- Only one thread drives the wheel. -/
def DrivenBy (driver : ι) : Input ι Call → Prop
  | .call i .drive => i = driver
  | _ => True

theorem attends : (timerWheel queue).Attends (Ends queue) notifying where
  wait {k k' now s span} h := by
    change code queue k now s = _ at h
    have hgoes := goes queue k now s
    rw [h] at hgoes
    cases hgoes with
    | idle hnone =>
      refine ⟨idleWait, rfl, fun e he => ?_⟩
      rw [hnone] at he
      exact absurd he (Multiset.notMem_zero e)
    | sleep hpop hdue =>
      refine ⟨_, rfl, fun e he => ?_⟩
      have hle := queue.le_of_pop hpop he
      omega
  keeps {k₀ since span s} h k now := by
    show Ends queue k₀ since span ((code queue k now s).shared s) ∨
      ((code queue k now s).thread now).At notifying
    have hgoes := goes queue k now s
    generalize code queue k now s = m at hgoes
    cases hgoes with
    | insert => exact .inr rfl
    | pop hpop hdue =>
      obtain ⟨r, hspan, hr⟩ := h
      refine .inl ⟨r, hspan, fun e he => hr e ?_⟩
      rw [(queue.pop_some hpop).1]
      exact Multiset.mem_cons_of_mem he
    | _ => exact .inl h
  stays {k} h now s := by
    cases k with
    | inserted => exact .inr rfl
    | _ => cases h

theorem closed_driving : (timerWheel queue).Closed driving := by
  intro k k' now s h hP
  change ((code queue k now s).thread now).place = some k' at h
  have hgoes := goes queue k now s
  generalize code queue k now s = m at hgoes h
  cases hgoes with
  | drive | look | idle | pop | sleep | woken | popped | fire => rfl
  | pushed | off | leave => cases h
  | _ =>
    cases h
    cases hP

theorem waits_driving : (timerWheel queue).Waits driving := by
  intro k k' now s span h
  change code queue k now s = _ at h
  have hgoes := goes queue k now s
  rw [h] at hgoes
  cases hgoes <;> rfl

theorem only_of_drivenBy {driver : ι} {input : Input ι Call} (h : DrivenBy driver input) :
    input.Only (timerWheel queue) driving driver := by
  cases input with
  | call i c =>
    intro hc
    cases c with
    | drive => exact h
    | _ => cases hc
  | _ => trivial

/-- **The driver never oversleeps.** A driver that sleeps wakes before every deadline in the heap,
or an entry was pushed just now and its notify wakes it. -/
theorem no_oversleep [DecidableEq ι] (now : ℕ) {driver : ι} {is : List (Input ι Call)}
    (his : ∀ input ∈ is, DrivenBy driver input) :
    Condvar.Attended (Ends queue) notifying (after queue now is) :=
  (attends queue).run (closed_driving queue) (waits_driving queue)
    (Schedule.guarded_of_mem (fun _ input hin => only_of_drivenBy queue (his input hin)) _)

theorem no_oversleep_idle : Condvar.Attended (Ends (PriorityQueue.sorted TimerEntry.deadline))
    notifying (after (PriorityQueue.sorted TimerEntry.deadline) 0
      [.call 0 .drive, .turn 0 0, .turn 0 0, .turn 0 0, .turn 0 0]) :=
  @no_oversleep _ _ _ _ 0 0 _ (by simp [DrivenBy])

/-! ## Shutdown -/

/-- An entry that fires after the shutdown flag was set. -/
def Event.isLate : Event → Bool
  | .fired _ _ stopping => stopping
  | .pushed _ => false

/-- The driver goes by a flag that it saw unset. -/
def past : Place → Bool
  | .looked shuttingDown => !shuttingDown
  | _ => false

theorem ceases :
    (timerWheel queue).Ceases Wheel.shutdown (·.events.countP Event.isLate) past where
  start c := by cases c <;> rfl
  blocked k now s := by
    show ((code queue k now s).thread now).Blocked _
    have hgoes := goes queue k now s
    generalize code queue k now s = m at hgoes
    cases hgoes <;> trivial
  sticky {s} h k now := by
    show ((code queue k now s).shared s).shutdown = true
    have hgoes := goes queue k now s
    generalize code queue k now s = m at hgoes
    cases hgoes with
    | shutdown => rfl
    | _ => exact h
  unset {s} h hlate k now := by
    show ((code queue k now s).shared s).events.countP Event.isLate = 0
    have hgoes := goes queue k now s
    generalize code queue k now s = m at hgoes
    cases hgoes with
    | insert => simpa [Move.shared, Event.isLate] using hlate
    | pop => simpa [Move.shared, Event.isLate, h] using hlate
    | _ => exact hlate
  enters {s} h k now hpast := by
    change ((code queue k now s).thread now).has past = true at hpast
    have hgoes := goes queue k now s
    generalize code queue k now s = m at hgoes hpast
    cases hgoes with
    | look =>
      change (!s.shutdown) = true at hpast
      rw [h] at hpast
      cases hpast
    | _ => cases hpast
  counts {s} h k now := by
    show ((code queue k now s).shared s).events.countP Event.isLate = _ ∨ _ ∧
      ((code queue k now s).shared s).events.countP Event.isLate = _ ∧
      ((code queue k now s).thread now).has past = false
    have hgoes := goes queue k now s
    generalize code queue k now s = m at hgoes
    cases hgoes with
    | insert => exact .inl (by simp [Move.shared, Event.isLate])
    | pop => exact .inr ⟨rfl, by simp [Move.shared, Event.isLate, h], rfl⟩
    | _ => exact .inl rfl

/-- **Shutdown.** However many threads drive the wheel: after the flag is set, at most one entry
fires. -/
theorem late_le_one [DecidableEq ι] (now : ℕ) (is : List (Input ι Call)) :
    (after queue now is).shared.events.countP Event.isLate ≤ 1 :=
  (ceases queue).run_inside (fun k hk => by cases k <;> first | rfl | cases hk) rfl is

section

variable [DecidableEq ι] {queue : PriorityQueue Q TimerEntry TimerEntry.deadline} {s : State Q ι}
  {i : ι}

/-- A `schedule_sleep` or `schedule_receive_timeout`, up to its return. -/
def scheduling (i : ι) (delay : ℕ) (payload : TimerPayload) : List (Input ι Call) :=
  [.call i (.schedule delay payload), .turn i 0, .turn i 0, .turn i 0, .turn i 0, .turn i 0,
    .turn i 0]

/-- A `drive`, up to the test of the flag. -/
def looking (i : ι) : List (Input ι Call) := [.call i .drive, .turn i 0, .turn i 0, .turn i 0]

/-- A `shutdown`, up to its return. -/
def shutting (i : ι) : List (Input ι Call) := [.call i .shutdown, .turn i 0, .turn i 0, .turn i 0]

theorem run_scheduling (delay : ℕ) (payload : TimerPayload) (hidle : s.threads i = .idle)
    (hfree : s.owner = none) (hwaiters : s.waiters = []) :
    Schedule.run (timerWheel queue).step s (scheduling i delay payload) =
      { s with
        shared := { s.shared with
          heap := queue.push ⟨s.now + delay, payload⟩ s.shared.heap
          events := s.shared.events ++ [.pushed ⟨s.now + delay, payload⟩] }
        threads := Function.update s.threads i .idle
        results := s.results ++ [(i, s.now, ())] } := by
  obtain ⟨now, shared, owner, waiters, threads, results⟩ := s
  cases hfree
  cases hwaiters
  simp [scheduling, Condvar.step_call hidle, timerWheel, start, code, inside]

theorem run_looking (hidle : s.threads i = .idle) (hfree : s.owner = none) :
    Schedule.run (timerWheel queue).step s (looking i) =
      { s with
        owner := some i
        threads := Function.update s.threads i (.running (.looked s.shared.shutdown)) } := by
  obtain ⟨now, shared, owner, waiters, threads, results⟩ := s
  cases hfree
  simp [looking, Condvar.step_call hidle, timerWheel, start, code, inside]

/-- The shutdown does not take the mutex of the heap. -/
theorem run_shutting (hidle : s.threads i = .idle) (hwaiters : s.waiters = []) :
    Schedule.run (timerWheel queue).step s (shutting i) =
      { s with
        shared := { s.shared with shutdown := true }
        threads := Function.update s.threads i .idle
        results := s.results ++ [(i, s.now, ())] } := by
  obtain ⟨now, shared, owner, waiters, threads, results⟩ := s
  cases hwaiters
  simp [shutting, Condvar.step_call hidle, timerWheel, start, code, inside]

/-- The driver sleeps up to the deadline of the one entry. -/
theorem code_looked {entry : TimerEntry} {s : Wheel Q} {now : ℕ}
    (hentries : queue.entries s.heap = {entry}) (hdue : now < entry.deadline) :
    code queue (.looked false) now s = .wait .woken (some (entry.deadline - now)) := by
  have hgoes := goes queue (.looked false) now s
  generalize code queue (.looked false) now s = m at hgoes
  cases hgoes with
  | idle hnone =>
    rw [hentries] at hnone
    exact absurd hnone (Multiset.singleton_ne_zero entry)
  | pop hpop htop =>
    obtain rfl := queue.eq_of_pop hpop hentries
    omega
  | sleep hpop =>
    rw [queue.eq_of_pop hpop hentries]

end

/-- **A shutdown may be missed.** Between the test of the flag and the wait, the flag may be set and
the notify be over: then the driver sleeps up to its deadline, however far that is, and nobody is on
the way to wake it. -/
theorem shutdown_missed (delay : ℕ) (payload : TimerPayload) :
    ∃ is : List (Input ℕ Call), (∀ input ∈ is, DrivenBy 0 input) ∧
      (after queue 0 is).shared.shutdown = true ∧
      (after queue 0 is).threads =
        Function.update (fun _ => .idle) 0 (.asleep .woken 0 (some (delay + 1))) := by
  let entry : TimerEntry := ⟨delay + 1, payload⟩
  let looked : List (Input ℕ Call) :=
    scheduling 1 (delay + 1) payload ++ (looking 0 ++ shutting 1)
  have hlooked : after queue 0 looked = ⟨0, ⟨queue.push entry queue.empty, true, [.pushed entry]⟩,
      some 0, [], Function.update (fun _ => .idle) 0 (.running (.looked false)),
      [(1, 0, ()), (1, 0, ())]⟩ := by
    rw [after, Schedule.run_append, run_scheduling (delay + 1) payload rfl rfl rfl,
      Schedule.run_append, run_looking (by simp [Condvar.State.init]) rfl,
      run_shutting (by simp [Condvar.State.init]) rfl]
    simp [Condvar.State.init, new, entry, Function.update_eq_self_iff]
  have hwait : code queue (.looked false) 0 ⟨queue.push entry queue.empty, true, [.pushed entry]⟩ =
      .wait .woken (some (delay + 1)) := by
    have hentries : queue.entries (queue.push entry queue.empty) = {entry} := by
      rw [queue.entries_push, queue.entries_empty]
      rfl
    exact code_looked hentries (show 0 < entry.deadline from Nat.succ_pos delay)
  refine ⟨looked ++ [.turn 0 0], ?_, ?_⟩
  · simp [looked, scheduling, looking, shutting, DrivenBy]
  · rw [after, Schedule.run_append, ← after, hlooked]
    simp [timerWheel, hwait]

end TimerWheel

end Byteflow
