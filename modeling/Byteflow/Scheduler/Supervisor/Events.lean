import Byteflow.Foundations.Wakeup
import Byteflow.Scheduler.Supervisor.Drive

/-!
# The exits that a supervisor is told

`SupervisorLink::notify`, `Supervisor::shutdown` and the loop of `drive`
(`scheduler/supervisor.rs`): a queue of exits behind a mutex, with a condition variable, and a
shutdown flag beside it. What `handle_exit` does is in `Supervisor.step`. Time is in nanoseconds;
poisoned locks are left out.

Every exit is handled once, in the order of the notifications, and at most one after the shutdown
flag is set (`handled_once`). A single driver does not sleep beside an exit (`no_exit_waits`).
-/

namespace Byteflow

namespace ExitQueue

open Condvar (Move)
open Supervisor (ChildExit)

/-- The queue and the shutdown flag, with what came in and what was handled: `true` if the flag was
set by then. -/
structure Inner where
  events : List ChildExit
  shutdown : Bool
  notified : List ChildExit
  taken : List (ChildExit × Bool)

inductive Call
  | notify (exit : ChildExit)
  | shutdown
  | drive

inductive Place
  | notify (exit : ChildExit)
  | queue (exit : ChildExit)
  | queued
  | notified
  | shutdown
  | flagged
  | off
  /-- The top of the loop of `drive`. -/
  | drive
  | enter
  /-- The top of the inner loop. -/
  | look
  | front
  | took (exit : ChildExit)
  | handle (exit : ChildExit)

/-- How long the driver waits beside an empty queue, 100 ms. -/
def idleWait : ℕ := 100000000

def code : Place → ℕ → Inner → Move Inner Place Unit
  | .notify exit, _, _ => .lock (.queue exit)
  | .queue exit, _, s => .go .queued
      { s with events := s.events ++ [exit], notified := s.notified ++ [exit] }
  | .queued, _, _ => .notifyOne .notified
  | .notified, _, s => .done () s
  | .shutdown, _, s => .go .flagged { s with shutdown := true }
  | .flagged, _, _ => .notifyAll .off
  | .off, _, s => .done () s
  | .drive, _, s => if s.shutdown then .done () s else .go .enter s
  | .enter, _, _ => .lock .look
  | .look, _, s => if s.shutdown then .done () s else .go .front s
  | .front, _, s =>
    match s.events with
    | exit :: events => .go (.took exit)
        { s with events := events, taken := s.taken ++ [(exit, s.shutdown)] }
    | [] => .wait .look (some idleWait)
  | .took exit, _, _ => .unlock (.handle exit)
  -- `handle_exit`
  | .handle _, _, s => .go .drive s

def inside : Place → Bool
  | .queue _ | .queued | .notified | .look | .front | .took _ => true
  | _ => false

def start : Call → Place
  | .notify exit => .notify exit
  | .shutdown => .shutdown
  | .drive => .drive

/-- What a thread does next. -/
inductive Goes (s : Inner) : Place → Move Inner Place Unit → Prop
  | notify {exit : ChildExit} : Goes s (.notify exit) (.lock (.queue exit))
  | queue {exit : ChildExit} : Goes s (.queue exit) (.go .queued
      { s with events := s.events ++ [exit], notified := s.notified ++ [exit] })
  | queued : Goes s .queued (.notifyOne .notified)
  | notified : Goes s .notified (.done () s)
  | shutdown : Goes s .shutdown (.go .flagged { s with shutdown := true })
  | flagged : Goes s .flagged (.notifyAll .off)
  | off : Goes s .off (.done () s)
  | stop (h : s.shutdown = true) : Goes s .drive (.done () s)
  | again (h : s.shutdown = false) : Goes s .drive (.go .enter s)
  | enter : Goes s .enter (.lock .look)
  | leave (h : s.shutdown = true) : Goes s .look (.done () s)
  | look (h : s.shutdown = false) : Goes s .look (.go .front s)
  | take {exit : ChildExit} {events : List ChildExit} (h : s.events = exit :: events) :
      Goes s .front (.go (.took exit)
        { s with events := events, taken := s.taken ++ [(exit, s.shutdown)] })
  | idle (h : s.events = []) : Goes s .front (.wait .look (some idleWait))
  | took {exit : ChildExit} : Goes s (.took exit) (.unlock (.handle exit))
  | handle {exit : ChildExit} : Goes s (.handle exit) (.go .drive s)

theorem goes (k : Place) (now : ℕ) (s : Inner) : Goes s k (code k now s) := by
  cases k with
  | drive =>
    cases h : s.shutdown with
    | true =>
      simp only [code, h]
      exact .stop h
    | false =>
      simp only [code, h]
      exact .again h
  | look =>
    cases h : s.shutdown with
    | true =>
      simp only [code, h]
      exact .leave h
    | false =>
      simp only [code, h]
      exact .look h
  | front =>
    cases h : s.events with
    | nil =>
      simp only [code, h]
      exact .idle h
    | cons exit events =>
      simp only [code, h]
      exact .take h
  | _ => constructor

theorem fits (k : Place) (now : ℕ) (s : Inner) : (code k now s).Fits inside (inside k) := by
  have h := goes k now s
  generalize code k now s = m at h
  cases h with
  | notified | off | stop | leave => trivial
  | notify | enter | idle | took => exact ⟨rfl, rfl⟩
  | _ => rfl

end ExitQueue

/-- The queue of exits, and the threads that use it. -/
def exitQueue : Condvar ExitQueue.Inner ExitQueue.Place ExitQueue.Call Unit where
  start := ExitQueue.start
  code := ExitQueue.code
  inside := ExitQueue.inside
  start_outside c := by cases c <;> rfl
  fits := ExitQueue.fits

namespace ExitQueue

open Condvar (Input Move)

variable {ι : Type}

def new : Inner := ⟨[], false, [], []⟩

section

variable [DecidableEq ι]

/-- The queue after a schedule. -/
def after (now : ℕ) (is : List (Input ι Call)) : Condvar.State Inner Place Unit ι :=
  Schedule.run exitQueue.step (.init now new) is

end

/-! ## What is handled -/

theorem notified_move {s : Inner} (h : s.notified = s.taken.map Prod.fst ++ s.events) (k : Place)
    (now : ℕ) : ((code k now s).shared s).notified =
      ((code k now s).shared s).taken.map Prod.fst ++ ((code k now s).shared s).events := by
  have hgoes := goes k now s
  generalize code k now s = m at hgoes
  cases hgoes with
  | queue => simp [Move.shared, h]
  | take hfront => simp [Move.shared, h, hfront]
  | _ => exact h

/-- The driver goes by a flag that it saw unset, with the mutex. -/
def past : Place → Bool
  | .front => true
  | _ => false

theorem ceases : exitQueue.Ceases Inner.shutdown (·.taken.countP Prod.snd) past where
  start c := by cases c <;> rfl
  blocked k now s := by
    show ((code k now s).thread now).Blocked _
    have hgoes := goes k now s
    generalize code k now s = m at hgoes
    cases hgoes <;> trivial
  sticky {s} h k now := by
    show ((code k now s).shared s).shutdown = true
    have hgoes := goes k now s
    generalize code k now s = m at hgoes
    cases hgoes with
    | shutdown => rfl
    | _ => exact h
  unset {s} h hlate k now := by
    show ((code k now s).shared s).taken.countP Prod.snd = 0
    have hgoes := goes k now s
    generalize code k now s = m at hgoes
    cases hgoes with
    | take => simpa [Move.shared, h] using hlate
    | _ => exact hlate
  enters {s} h k now hpast := by
    change ((code k now s).thread now).has past = true at hpast
    have hgoes := goes k now s
    generalize code k now s = m at hgoes hpast
    cases hgoes with
    | look hunset =>
      rw [h] at hunset
      cases hunset
    | _ => cases hpast
  counts {s} h k now := by
    show ((code k now s).shared s).taken.countP Prod.snd = _ ∨ _ ∧
      ((code k now s).shared s).taken.countP Prod.snd = _ ∧
      ((code k now s).thread now).has past = false
    have hgoes := goes k now s
    generalize code k now s = m at hgoes
    cases hgoes with
    | take => exact .inr ⟨rfl, by simp [Move.shared, h], rfl⟩
    | _ => exact .inl rfl

/-- **Every exit, once.** However many threads notify and drive: the exits are handled in the order
in which they were notified, each once, and the rest is in the queue. After the shutdown flag is
set, at most one more is handled. -/
theorem handled_once [DecidableEq ι] (now : ℕ) (is : List (Input ι Call)) :
    (after now is).shared.notified =
        (after now is).shared.taken.map Prod.fst ++ (after now is).shared.events ∧
      (after now is).shared.taken.countP Prod.snd ≤ 1 :=
  ⟨Condvar.ledger (M := exitQueue) (I := fun s _ => s.notified = s.taken.map Prod.fst ++ s.events)
      (fun {k now _ _ _} h => notified_move h k now) rfl is,
    ceases.run_inside (fun k hk => by cases k <;> first | rfl | cases hk) rfl is⟩

/-! ## How long the driver sleeps -/

/-- An exit is queued, and its notify is to come. -/
def notifying : Place → Bool
  | .queued => true
  | _ => false

/-- The places of `drive`. -/
def driving : Place → Bool
  | .drive | .enter | .look | .front | .took _ | .handle _ => true
  | _ => false

/-- Only one thread drives the supervisor. -/
def DrivenBy (driver : ι) : Input ι Call → Prop
  | .call i .drive => i = driver
  | _ => True

/-- Nothing is queued, and the wait ends. -/
def Idle (_ : Place) (_ : ℕ) (span : Option ℕ) (s : Inner) : Prop :=
  s.events = [] ∧ span = some idleWait

theorem attends : exitQueue.Attends Idle notifying where
  wait {k k' now s span} h := by
    change code k now s = _ at h
    have hgoes := goes k now s
    rw [h] at hgoes
    cases hgoes with
    | idle hempty => exact ⟨hempty, rfl⟩
  keeps {k₀ since span s} h k now := by
    show Idle k₀ since span ((code k now s).shared s) ∨ ((code k now s).thread now).At notifying
    have hgoes := goes k now s
    generalize code k now s = m at hgoes
    cases hgoes with
    | queue => exact .inr rfl
    | take hfront =>
      rw [h.1] at hfront
      cases hfront
    | _ => exact .inl h
  stays {k} h now s := by
    cases k with
    | queued => exact .inr rfl
    | _ => cases h

theorem closed_driving : exitQueue.Closed driving := by
  intro k k' now s h hP
  change ((code k now s).thread now).place = some k' at h
  have hgoes := goes k now s
  generalize code k now s = m at hgoes h
  cases hgoes with
  | again | enter | look | take | idle | took | handle => rfl
  | notified | off | stop | leave => cases h
  | _ =>
    cases h
    cases hP

theorem waits_driving : exitQueue.Waits driving := by
  intro k k' now s span h
  change code k now s = _ at h
  have hgoes := goes k now s
  rw [h] at hgoes
  cases hgoes
  rfl

theorem only_of_drivenBy {driver : ι} {input : Input ι Call} (h : DrivenBy driver input) :
    input.Only exitQueue driving driver := by
  cases input with
  | call i c =>
    intro hc
    cases c with
    | drive => exact h
    | _ => cases hc
  | _ => trivial

/-- **No exit waits for a sleeper.** A driver that sleeps has nothing to handle, or the notify of
the exit that was queued wakes it. -/
theorem no_exit_waits [DecidableEq ι] (now : ℕ) {driver : ι} {is : List (Input ι Call)}
    (his : ∀ input ∈ is, DrivenBy driver input) :
    Condvar.Attended Idle notifying (after now is) :=
  attends.run closed_driving waits_driving
    (Schedule.guarded_of_mem (fun _ input hin => only_of_drivenBy (his input hin)) _)

theorem no_exit_waits_idle : Condvar.Attended Idle notifying
    (after 0 [.call 0 .drive, .turn 0 0, .turn 0 0, .turn 0 0, .turn 0 0, .turn 0 0]) :=
  @no_exit_waits _ _ 0 0 _ (by simp [DrivenBy])

end ExitQueue

end Byteflow
