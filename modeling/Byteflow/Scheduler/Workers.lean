import Byteflow.Foundations.Wakeup

/-!
# The worker threads

`run_worker`, `find_work`, `wait_for_work` and the loop of `drive_process` (`scheduler/worker.rs`),
with `wake_workers` and `request_shutdown` (`scheduler/runtime.rs`): a deque for each worker, the
injector for all, a shutdown flag, and a mutex and condition variable to wait for work. A step on a
queue is atomic; a steal that is told to retry changes nothing and is left out. What a flow does
while it is driven is any function of the time and the flow. Time is in nanoseconds; poisoned locks
are left out.

In every run the queues lose no flow and serve none twice (`served`). After the shutdown flag is
set, each worker runs one quantum at most (`late_quanta_le_one`), and no worker sleeps once the
notify of the shutdown is done (`no_sleep_after_shutdown`). A lone worker that is kept busy takes no
second flow from the injector (`injected_le_one`).
-/

namespace Byteflow

namespace Workers

open Condvar (Move)

variable {W F : Type}

/-- A flow that is made runnable: on the deque of the worker or on the injector, with a call of
`wake_workers` after it or not. -/
structure Push (F : Type) where
  flow : F
  toLocal : Bool
  wakes : Bool

/-- What comes of a flow: the flows that become runnable, and the flow itself if the worker goes on
with it. -/
structure Slice (F : Type) where
  pushes : List (Push F)
  again : Option F

/-- What `drive_process` does before its loop, and in one round of it. -/
structure Driver (F : Type) where
  enter : ℕ → F → Slice F
  run : ℕ → F → Slice F

/-- What happens in the pool. The queue `none` is the injector. -/
inductive Event (W F : Type)
  | pushed (queue : Option W) (flow : F)
  | taken (queue : Option W) (worker : W) (flow : F)
  /-- A worker runs a quantum, before or after the shutdown flag was set. -/
  | ran (worker : W) (flow : F) (stopping : Bool)

/-- The queues and the shutdown flag, with what happened. -/
structure Pool (W F : Type) where
  queue : Option W → List F
  shutdown : Bool
  events : List (Event W F)

namespace Pool

variable [DecidableEq W] (s : Pool W F)

def push (queue : Option W) (flow : F) : Pool W F :=
  { s with
    queue := Function.update s.queue queue (s.queue queue ++ [flow])
    events := s.events ++ [.pushed queue flow] }

/-- Take the flow in front. -/
def pop (queue : Option W) (worker : W) : Option (F × Pool W F) :=
  match s.queue queue with
  | [] => none
  | flow :: flows => some (flow, { s with
      queue := Function.update s.queue queue flows
      events := s.events ++ [.taken queue worker flow] })

end Pool

inductive Call (W F : Type)
  | runWorker (worker : W)
  /-- A host or the timer makes flows runnable. -/
  | inject (flows : List F)
  | shutdown

/-- Where a thread goes on after it made flows runnable. -/
inductive Rest (W F : Type)
  | again (worker : W) (flow : F)
  | next (worker : W)
  | leave

namespace Rest

def worker : Rest W F → Option W
  | .again worker _ | .next worker => some worker
  | .leave => none

def ofSlice (worker : W) (slice : Slice F) : Rest W F :=
  match slice.again with
  | some flow => .again worker flow
  | none => .next worker

@[simp] theorem worker_ofSlice (worker : W) (slice : Slice F) :
    (ofSlice worker slice).worker = some worker := by
  unfold ofSlice
  split <;> rfl

end Rest

inductive Place (W F : Type)
  /-- The test of the loop in `run_worker`. -/
  | top (worker : W)
  /-- In `find_work`, with the queues that are still to try. -/
  | find (worker : W) (queues : List (Option W))
  | got (worker : W) (flow : F)
  /-- The test of the loop in `drive_process`. -/
  | drive (worker : W) (flow : F)
  | run (worker : W) (flow : F)
  | push (rest : Rest W F) (pushes : List (Push F))
  | wake (rest : Rest W F) (pushes : List (Push F))
  | waking (rest : Rest W F) (pushes : List (Push F))
  | woken (rest : Rest W F) (pushes : List (Push F))
  | wait (worker : W)
  | check (worker : W)
  | park (worker : W)
  | parked (worker : W)
  | shutdown
  | flagged
  | telling
  | told

/-- How long a worker waits for work, 50 ms. -/
def parkWait : ℕ := 50000000

/-- Go on after the flows are made runnable. -/
def resume (s : Pool W F) : Rest W F → Move (Pool W F) (Place W F) Unit
  | .again worker flow => .go (.drive worker flow) s
  | .next worker => .go (.top worker) s
  | .leave => .done () s

variable [DecidableEq W] (stealers : List W) (driver : Driver F)

def code : Place W F → ℕ → Pool W F → Move (Pool W F) (Place W F) Unit
  | .top worker, _, s =>
    if s.shutdown then .done () s
    else .go (.find worker (some worker :: none :: stealers.map some)) s
  | .find worker [], _, s => .go (.wait worker) s
  | .find worker (queue :: queues), _, s =>
    match s.pop queue worker with
    | some (flow, s') => .go (.got worker flow) s'
    | none => .go (.find worker queues) s
  | .got worker flow, now, s =>
    .go (.push (.ofSlice worker (driver.enter now flow)) (driver.enter now flow).pushes) s
  | .drive worker flow, _, s =>
    if s.shutdown then .go (.top worker) (s.push (some worker) flow) else .go (.run worker flow) s
  | .run worker flow, now, s =>
    .go (.push (.ofSlice worker (driver.run now flow)) (driver.run now flow).pushes)
      { s with events := s.events ++ [.ran worker flow s.shutdown] }
  | .push rest [], _, s => resume s rest
  | .push rest (p :: pushes), _, s =>
    .go (if p.wakes then .wake rest pushes else .push rest pushes)
      (s.push (if p.toLocal then rest.worker else none) p.flow)
  | .wake rest pushes, _, _ => .lock (.waking rest pushes)
  | .waking rest pushes, _, _ => .notifyOne (.woken rest pushes)
  | .woken rest pushes, _, _ => .unlock (.push rest pushes)
  | .wait worker, _, _ => .lock (.check worker)
  | .check worker, _, s => if s.shutdown then .unlock (.top worker) else .go (.park worker) s
  | .park worker, _, _ => .wait (.parked worker) (some parkWait)
  | .parked worker, _, _ => .unlock (.top worker)
  | .shutdown, _, s => .go .flagged { s with shutdown := true }
  | .flagged, _, _ => .lock .telling
  | .telling, _, _ => .notifyAll .told
  | .told, _, s => .done () s

def inside : Place W F → Bool
  | .waking .. | .woken .. | .check _ | .park _ | .parked _ | .telling | .told => true
  | _ => false

def start : Call W F → Place W F
  | .runWorker worker => .top worker
  | .inject flows => .push .leave (flows.map fun flow => ⟨flow, false, true⟩)
  | .shutdown => .shutdown

/-- What a thread does next. -/
inductive Goes (now : ℕ) (s : Pool W F) : Place W F → Move (Pool W F) (Place W F) Unit → Prop
  | stop {worker : W} (h : s.shutdown = true) : Goes now s (.top worker) (.done () s)
  | find {worker : W} (h : s.shutdown = false) : Goes now s (.top worker)
      (.go (.find worker (some worker :: none :: stealers.map some)) s)
  | nowhere {worker : W} : Goes now s (.find worker []) (.go (.wait worker) s)
  | found {worker : W} {queue : Option W} {queues : List (Option W)} {flow : F} {flows : List F}
      (h : s.queue queue = flow :: flows) : Goes now s (.find worker (queue :: queues))
        (.go (.got worker flow)
          { s with
            queue := Function.update s.queue queue flows
            events := s.events ++ [.taken queue worker flow] })
  | empty {worker : W} {queue : Option W} {queues : List (Option W)} (h : s.queue queue = []) :
      Goes now s (.find worker (queue :: queues)) (.go (.find worker queues) s)
  | enter {worker : W} {flow : F} : Goes now s (.got worker flow)
      (.go (.push (.ofSlice worker (driver.enter now flow)) (driver.enter now flow).pushes) s)
  | putBack {worker : W} {flow : F} (h : s.shutdown = true) :
      Goes now s (.drive worker flow) (.go (.top worker) (s.push (some worker) flow))
  | pass {worker : W} {flow : F} (h : s.shutdown = false) :
      Goes now s (.drive worker flow) (.go (.run worker flow) s)
  | run {worker : W} {flow : F} : Goes now s (.run worker flow)
      (.go (.push (.ofSlice worker (driver.run now flow)) (driver.run now flow).pushes)
        { s with events := s.events ++ [.ran worker flow s.shutdown] })
  | again {worker : W} {flow : F} :
      Goes now s (.push (.again worker flow) []) (.go (.drive worker flow) s)
  | next {worker : W} : Goes now s (.push (.next worker) []) (.go (.top worker) s)
  | leave : Goes now s (.push .leave []) (.done () s)
  | push {rest : Rest W F} {p : Push F} {ps : List (Push F)} :
      Goes now s (.push rest (p :: ps))
        (.go (.push rest ps) (s.push (if p.toLocal then rest.worker else none) p.flow))
  | pushWake {rest : Rest W F} {p : Push F} {ps : List (Push F)} :
      Goes now s (.push rest (p :: ps))
        (.go (.wake rest ps) (s.push (if p.toLocal then rest.worker else none) p.flow))
  | wake {rest : Rest W F} {ps : List (Push F)} :
      Goes now s (.wake rest ps) (.lock (.waking rest ps))
  | waking {rest : Rest W F} {ps : List (Push F)} :
      Goes now s (.waking rest ps) (.notifyOne (.woken rest ps))
  | woken {rest : Rest W F} {ps : List (Push F)} :
      Goes now s (.woken rest ps) (.unlock (.push rest ps))
  | wait {worker : W} : Goes now s (.wait worker) (.lock (.check worker))
  | quit {worker : W} (h : s.shutdown = true) : Goes now s (.check worker) (.unlock (.top worker))
  | stay {worker : W} (h : s.shutdown = false) : Goes now s (.check worker) (.go (.park worker) s)
  | park {worker : W} : Goes now s (.park worker) (.wait (.parked worker) (some parkWait))
  | parked {worker : W} : Goes now s (.parked worker) (.unlock (.top worker))
  | shutdown : Goes now s .shutdown (.go .flagged { s with shutdown := true })
  | flagged : Goes now s .flagged (.lock .telling)
  | telling : Goes now s .telling (.notifyAll .told)
  | told : Goes now s .told (.done () s)

theorem goes (k : Place W F) (now : ℕ) (s : Pool W F) :
    Goes stealers driver now s k (code stealers driver k now s) := by
  cases k with
  | top worker =>
    cases h : s.shutdown with
    | true =>
      simp only [code, h]
      exact .stop h
    | false =>
      simp only [code, h]
      exact .find h
  | find worker queues =>
    cases queues with
    | nil => exact .nowhere
    | cons queue queues =>
      cases h : s.queue queue with
      | nil =>
        simp only [code, Pool.pop, h]
        exact .empty h
      | cons flow flows =>
        simp only [code, Pool.pop, h]
        exact .found h
  | drive worker flow =>
    cases h : s.shutdown with
    | true =>
      simp only [code, h]
      exact .putBack h
    | false =>
      simp only [code, h]
      exact .pass h
  | push rest ps =>
    cases ps with
    | nil =>
      cases rest with
      | again worker flow => exact .again
      | next worker => exact .next
      | leave => exact .leave
    | cons p ps =>
      cases h : p.wakes with
      | true =>
        simp only [code, h]
        exact .pushWake
      | false =>
        simp only [code, h]
        exact .push
  | check worker =>
    cases h : s.shutdown with
    | true =>
      simp only [code, h]
      exact .quit h
    | false =>
      simp only [code, h]
      exact .stay h
  | _ => constructor

theorem fits (k : Place W F) (now : ℕ) (s : Pool W F) :
    (code stealers driver k now s).Fits inside (inside k) := by
  have h := goes stealers driver k now s
  generalize code stealers driver k now s = m at h
  cases h with
  | stop | leave | told => trivial
  | wake | woken | wait | quit | park | parked | flagged => exact ⟨rfl, rfl⟩
  | _ => rfl

end Workers

/-- The queues, and the threads that use them. -/
def workerPool {W F : Type} [DecidableEq W] (stealers : List W) (driver : Workers.Driver F) :
    Condvar (Workers.Pool W F) (Workers.Place W F) (Workers.Call W F) Unit where
  start := Workers.start
  code := Workers.code stealers driver
  inside := Workers.inside
  start_outside c := by cases c <;> rfl
  fits := Workers.fits stealers driver

namespace Workers

open Condvar (Input Move Thread)

variable {W F ι : Type} [DecidableEq W] (stealers : List W) (driver : Driver F)

def new : Pool W F := ⟨fun _ => [], false, []⟩

section

variable [DecidableEq ι]

/-- The pool after a schedule. -/
def after (now : ℕ) (is : List (Input ι (Call W F))) :
    Condvar.State (Pool W F) (Place W F) Unit ι :=
  Schedule.run (workerPool stealers driver).step (.init now new) is

end

/-! ## What the workers take -/

/-- The runs of first-in first-out queues, with what is still on them. -/
inductive Served : List (Event W F) → (Option W → List F) → Prop
  | new : Served [] fun _ => []
  | pushed {events : List (Event W F)} {queues : Option W → List F} (h : Served events queues)
      (queue : Option W) (flow : F) : Served (events ++ [.pushed queue flow])
        (Function.update queues queue (queues queue ++ [flow]))
  | taken {events : List (Event W F)} {queues : Option W → List F} (h : Served events queues)
      {queue : Option W} {flow : F} {flows : List F} (hfront : queues queue = flow :: flows)
      (worker : W) : Served (events ++ [.taken queue worker flow])
        (Function.update queues queue flows)
  | ran {events : List (Event W F)} {queues : Option W → List F} (h : Served events queues)
      (worker : W) (flow : F) (stopping : Bool) :
      Served (events ++ [.ran worker flow stopping]) queues

theorem Served.move {s : Pool W F} (h : Served s.events s.queue) (k : Place W F) (now : ℕ) :
    Served ((code stealers driver k now s).shared s).events
      ((code stealers driver k now s).shared s).queue := by
  have hgoes := goes stealers driver k now s
  generalize code stealers driver k now s = m at hgoes
  cases hgoes with
  | @found worker queue queues flow flows hfront => exact h.taken hfront worker
  | run => exact h.ran _ _ s.shutdown
  | putBack | push | pushWake => exact h.pushed _ _
  | _ => exact h

/-- A quantum of the worker that runs after the shutdown flag was set. -/
def Event.isLate (worker : W) : Event W F → Bool
  | .ran worker' _ stopping => decide (worker' = worker) && stopping
  | _ => false

/-- The worker of the thread. -/
def Place.worker : Place W F → Option W
  | .top worker | .find worker _ | .got worker _ | .drive worker _ | .run worker _
  | .wait worker | .check worker | .park worker | .parked worker => some worker
  | .push rest _ | .wake rest _ | .waking rest _ | .woken rest _ => rest.worker
  | .shutdown | .flagged | .telling | .told => none

/-- The place is of the worker. -/
def Place.isOf (worker : W) (k : Place W F) : Bool := decide (k.worker = some worker)

/-- The worker goes by a flag that it saw unset. -/
def past (worker : W) : Place W F → Bool
  | .run worker' _ => decide (worker' = worker)
  | _ => false

/-- Only one thread runs the worker. -/
def RunBy (worker : W) (thread : ι) : Input ι (Call W F) → Prop
  | .call i (.runWorker worker') => worker' = worker → i = thread
  | _ => True

theorem only_of_runBy {worker : W} {thread : ι} {input : Input ι (Call W F)}
    (h : RunBy worker thread input) :
    input.Only (workerPool stealers driver) (Place.isOf worker) thread := by
  cases input with
  | call i c =>
    intro hc
    cases c with
    | runWorker worker' => exact h (Option.some.inj (of_decide_eq_true hc))
    | _ => cases of_decide_eq_true hc
  | _ => trivial

theorem closed_isOf (worker : W) : (workerPool stealers driver).Closed (Place.isOf worker) := by
  intro k k' now s h hP
  refine decide_eq_true ((?_ : k.worker = k'.worker).trans (of_decide_eq_true hP))
  have hgoes := goes stealers driver k now s
  change ((code stealers driver k now s).thread now).place = some k' at h
  generalize code stealers driver k now s = m at hgoes h
  cases hgoes with
  | enter =>
    cases h
    exact (Rest.worker_ofSlice _ _).symm
  | run =>
    cases h
    exact (Rest.worker_ofSlice _ _).symm
  | stop | leave | told => cases h
  | _ =>
    cases h
    rfl

theorem ceases (worker : W) : (workerPool stealers driver).Ceases Pool.shutdown
    (·.events.countP (Event.isLate worker)) (past worker) where
  start c := by cases c <;> rfl
  blocked k now s := by
    show ((code stealers driver k now s).thread now).Blocked _
    have hgoes := goes stealers driver k now s
    generalize code stealers driver k now s = m at hgoes
    cases hgoes <;> trivial
  sticky {s} h k now := by
    show ((code stealers driver k now s).shared s).shutdown = true
    have hgoes := goes stealers driver k now s
    generalize code stealers driver k now s = m at hgoes
    cases hgoes with
    | shutdown => rfl
    | _ => exact h
  unset {s} h hlate k now := by
    show ((code stealers driver k now s).shared s).events.countP (Event.isLate worker) = 0
    have hgoes := goes stealers driver k now s
    generalize code stealers driver k now s = m at hgoes
    cases hgoes with
    | found => simpa [Move.shared, Event.isLate] using hlate
    | run => simpa [Move.shared, Event.isLate, h] using hlate
    | putBack | push | pushWake => simpa [Move.shared, Pool.push, Event.isLate] using hlate
    | _ => exact hlate
  enters {s} h k now hpast := by
    change ((code stealers driver k now s).thread now).has (past worker) = true at hpast
    have hgoes := goes stealers driver k now s
    generalize code stealers driver k now s = m at hgoes hpast
    cases hgoes with
    | pass hunset =>
      rw [h] at hunset
      cases hunset
    | _ => cases hpast
  counts {s} h k now := by
    show ((code stealers driver k now s).shared s).events.countP (Event.isLate worker) = _ ∨ _ ∧
      ((code stealers driver k now s).shared s).events.countP (Event.isLate worker) = _ ∧
      ((code stealers driver k now s).thread now).has (past worker) = false
    have hgoes := goes stealers driver k now s
    generalize code stealers driver k now s = m at hgoes
    cases hgoes with
    | @run worker' flow =>
      by_cases hworker : worker' = worker
      · refine .inr ⟨decide_eq_true hworker, ?_, rfl⟩
        simp [Move.shared, Event.isLate, h, hworker]
      · refine .inl ?_
        simp [Move.shared, Event.isLate, hworker]
    | found | putBack | push | pushWake =>
      refine .inl ?_
      simp [Move.shared, Pool.push, Event.isLate]
    | _ => exact .inl rfl

/-- Flows that yield for ever. -/
def Driver.yielding (F : Type) : Driver F where
  enter _ flow := ⟨[], some flow⟩
  run _ flow := ⟨[⟨flow, true, false⟩], none⟩

/-- The shutdown flag is set when the worker has passed by it. -/
def lastQuantum : List (Input ℕ (Call ℕ ℕ)) :=
  [.call 2 (.inject [7]), .turn 2 0, .call 0 (.runWorker 0), .turn 0 0, .turn 0 0, .turn 0 0,
    .turn 0 0, .turn 0 0, .turn 0 0, .call 1 .shutdown, .turn 1 0, .turn 0 0, .turn 0 0, .turn 0 0]

example : (after [0] (.yielding ℕ) 0 lastQuantum).shared.events.countP (Event.isLate 0) = 1 := rfl

/-- The worker saw the flag unset and is about to sleep. -/
def parking : Place W F → Bool
  | .park _ => true
  | _ => false

/-- The flag is set, and its notify is to come. -/
def notifying : Place W F → Bool
  | .flagged | .telling => true
  | _ => false

theorem heeds : (workerPool stealers driver).Heeds Pool.shutdown parking notifying where
  start c := by cases c <;> rfl
  blocked k now s := by
    show ((code stealers driver k now s).thread now).Blocked _
    have hgoes := goes stealers driver k now s
    generalize code stealers driver k now s = m at hgoes
    cases hgoes <;> trivial
  inside {k} h := by
    cases k with
    | park worker => rfl
    | _ => cases h
  enters {k now s} h := by
    change ((code stealers driver k now s).thread now).near _ = true at h
    show _ ∨ ((code stealers driver k now s).shared s).shutdown = false
    have hgoes := goes stealers driver k now s
    generalize code stealers driver k now s = m at hgoes h
    cases hgoes with
    | stay hunset => exact .inr hunset
    | park => exact .inl rfl
    | _ => cases h
  sets {s} h k now h' := by
    change ((code stealers driver k now s).shared s).shutdown = true at h'
    show ((code stealers driver k now s).thread now).At _
    have hgoes := goes stealers driver k now s
    generalize code stealers driver k now s = m at hgoes h'
    cases hgoes with
    | shutdown => rfl
    | _ =>
      change s.shutdown = true at h'
      rw [h] at h'
      cases h'
  stays {k} h now s := by
    cases k with
    | flagged => exact .inl rfl
    | telling => exact .inr ⟨rfl, rfl, _, rfl⟩
    | _ => cases h

/-- **Nobody sleeps through the shutdown.** A worker sleeps only while the flag is unset, or until
the notify that is on its way. -/
theorem no_sleep_after_shutdown [DecidableEq ι] (now : ℕ) (is : List (Input ι (Call W F))) (i : ι) :
    ((after stealers driver now is).threads i).isAsleep = false ∨
      (after stealers driver now is).shared.shutdown = false ∨
      ∃ j, ((after stealers driver now is).threads j).At notifying := by
  have hheeded : Condvar.Heeded Pool.shutdown parking notifying (after stealers driver now is) :=
    (heeds stealers driver).run rfl is
  cases hflag : (after stealers driver now is).shared.shutdown with
  | false => exact .inr (.inl rfl)
  | true =>
    rcases hheeded.heeds hflag with hnotifies | hawake
    · exact .inr (.inr hnotifies)
    · exact .inl (Bool.or_eq_false_iff.mp (hawake i)).1

/-! ## Starvation -/

/-- The worker goes on with the flow, or a flow becomes runnable on its deque. -/
def Slice.Busy (slice : Slice F) : Prop :=
  slice.again.isSome = true ∨ ∃ p ∈ slice.pushes, p.toLocal = true

/-- Whatever is driven keeps the worker busy. -/
def Driver.Busy (driver : Driver F) : Prop :=
  ∀ now flow, (driver.enter now flow).Busy ∧ (driver.run now flow).Busy

/-- A flow is taken from the injector. -/
def Event.isInjected : Event W F → Bool
  | .taken none _ _ => true
  | _ => false

section

variable {stealers : List Unit} {driver : Driver F} {s : Pool Unit F} {k : Place Unit F} {now : ℕ}
  {d d' : Prop} {t t' : Thread (Place Unit F)}

/-- A thread that makes flows runnable goes on with one, or one is for its deque. -/
def Rest.Keeps (rest : Rest Unit F) (ps : List (Push F)) : Prop :=
  (∃ worker flow, rest = .again worker flow) ∨
    rest.worker.isSome = true ∧ ∃ p ∈ ps, p.toLocal = true

/-- At this place the deque has a flow (`d`), or the only worker has one; it did not go by its
deque. -/
def Place.Fed (d : Prop) : Place Unit F → Prop
  | .got .. | .drive .. | .run .. => True
  | .push rest ps | .wake rest ps | .waking rest ps | .woken rest ps => d ∨ rest.Keeps ps
  | .find _ (none :: _) | .find _ [] | .wait _ | .check _ | .park _ | .parked _ => False
  | _ => d

def fed (d : Prop) (t : Thread (Place Unit F)) : Prop := t.place.elim d (Place.Fed d)

theorem Place.Fed.mono (hd : d → d') (h : k.Fed d) : k.Fed d' := by
  cases k with
  | find worker queues =>
    cases queues with
    | nil => exact h
    | cons queue queues =>
      cases queue with
      | none => exact h
      | some w => exact hd h
  | push | wake | waking | woken => exact Or.imp_left hd h
  | top | shutdown | flagged | telling | told => exact hd h
  | _ => exact h

theorem fed_mono (hd : d → d') (h : fed d t) : fed d' t := by
  cases t with
  | idle => exact hd h
  | _ => exact Place.Fed.mono hd h

theorem fed_roused (h : fed d t) : fed d t.roused := by
  rwa [fed, Thread.place_roused]

theorem fed_passes (h : Condvar.Passes (workerPool stealers driver) t t') (ht : fed d t) :
    fed d t' := by
  cases h with
  | same => exact ht
  | roused => exact fed_roused ht
  | take k => exact ht
  | call c =>
    cases c with
    | inject flows => exact .inl ht
    | _ => exact ht

theorem keeps_ofSlice {slice : Slice F} (h : slice.Busy) (worker : Unit) :
    (Rest.ofSlice worker slice).Keeps slice.pushes := by
  rcases h with hagain | hpush
  · obtain ⟨flow, hflow⟩ := Option.isSome_iff_exists.mp hagain
    refine .inl ⟨worker, flow, ?_⟩
    rw [Rest.ofSlice, hflow]
  · exact .inr ⟨by rw [Rest.worker_ofSlice]; rfl, hpush⟩

/-- Only a worker at the injector takes a flow from it. -/
theorem isInjected_code :
    ((code stealers driver k now s).shared s).events.countP Event.isInjected =
        s.events.countP Event.isInjected ∨
      ((code stealers driver k now s).shared s).events.countP Event.isInjected =
          s.events.countP Event.isInjected + 1 ∧
        (∃ queues, k = .find () (none :: queues)) ∧
          ∃ flow, (code stealers driver k now s).thread now = .running (.got () flow) := by
  have hgoes := goes stealers driver k now s
  generalize code stealers driver k now s = m at hgoes
  cases hgoes with
  | @found _ queue queues flow =>
    cases queue with
    | none => exact .inr ⟨by simp [Move.shared, Event.isInjected], ⟨queues, rfl⟩, flow, rfl⟩
    | some w => exact .inl (by simp [Move.shared, Event.isInjected])
  | putBack | run | push | pushWake =>
    exact .inl (by simp [Move.shared, Pool.push, Event.isInjected])
  | _ => exact .inl rfl

theorem push_self (w : Unit) (flow : F) : (s.push (some w) flow).queue (some ()) ≠ [] := by
  simp [Pool.push]

theorem push_deque (queue : Option Unit) (flow : F) (h : s.queue (some ()) ≠ []) :
    (s.push queue flow).queue (some ()) ≠ [] := by
  cases queue with
  | none => exact h
  | some w => exact push_self w flow

/-- The flows on the deque stay there while other threads run. -/
theorem deque_code (hk : k.worker = none) (h : s.queue (some ()) ≠ []) :
    ((code stealers driver k now s).shared s).queue (some ()) ≠ [] := by
  have hgoes := goes stealers driver k now s
  generalize code stealers driver k now s = m at hgoes
  cases hgoes with
  | found => cases hk
  | putBack | push | pushWake => exact push_deque _ _ h
  | _ => exact h

/-- What is pushed to the deque is there, or is still to come. -/
theorem fed_push {rest : Rest Unit F} {p : Push F} {ps : List (Push F)}
    (h : s.queue (some ()) ≠ [] ∨ rest.Keeps (p :: ps)) :
    (s.push (if p.toLocal then rest.worker else none) p.flow).queue (some ()) ≠ [] ∨
      rest.Keeps ps := by
  rcases h with h | hagain | ⟨hworker, q, hq, hlocal⟩
  · exact .inl (push_deque _ _ h)
  · exact .inr (.inl hagain)
  · rcases List.mem_cons.mp hq with rfl | hq
    · obtain ⟨w, hw⟩ := Option.isSome_iff_exists.mp hworker
      rw [if_pos hlocal, hw]
      exact .inl (push_self w _)
    · exact .inr (.inr ⟨hworker, q, hq, hlocal⟩)

/-- A worker that is kept busy does not go by its deque. -/
theorem fed_code (hbusy : driver.Busy) (h : k.Fed (s.queue (some ()) ≠ [])) :
    fed (((code stealers driver k now s).shared s).queue (some ()) ≠ [])
      ((code stealers driver k now s).thread now) := by
  have hgoes := goes stealers driver k now s
  generalize code stealers driver k now s = m at hgoes
  cases hgoes with
  | nowhere | wait | quit | stay | park | parked => exact h.elim
  | @empty _ queue _ hempty =>
    cases queue with
    | none => exact h.elim
    | some w => exact absurd hempty h
  | enter => exact .inr (keeps_ofSlice (hbusy _ _).1 _)
  | run => exact .inr (keeps_ofSlice (hbusy _ _).2 _)
  | putBack => exact push_self _ _
  | found | pass | again => trivial
  | next =>
    rcases h with h | ⟨w, flow, hrest⟩ | ⟨-, p, hp, -⟩
    · exact h
    · cases hrest
    · cases hp
  | leave =>
    rcases h with h | ⟨w, flow, hrest⟩ | ⟨-, p, hp, -⟩
    · exact h
    · cases hrest
    · cases hp
  | push | pushWake => exact fed_push h
  | _ => exact h

/-- Nothing was taken from the injector yet, or one flow was and the worker is fed. -/
def Starving (thread : ι) (s : Condvar.State (Pool Unit F) (Place Unit F) Unit ι) : Prop :=
  s.shared.events.countP Event.isInjected = 0 ∨
    s.shared.events.countP Event.isInjected = 1 ∧
      fed (s.shared.queue (some ()) ≠ []) (s.threads thread)

variable [DecidableEq ι] {thread : ι} {σ : Condvar.State (Pool Unit F) (Place Unit F) Unit ι}

theorem Starving.move (hbusy : driver.Busy) (halone : Condvar.Alone (Place.isOf ()) thread σ)
    (hs : Starving thread σ) {i : ι} (hi : σ.threads i = .running k) (pick : ℕ) :
    Starving thread (σ.perform i pick (inside k) (code stealers driver k σ.now σ.shared)) := by
  unfold Starving
  rw [Condvar.threads_perform]
  show ((code stealers driver k σ.now σ.shared).shared σ.shared).events.countP _ = 0 ∨
    ((code stealers driver k σ.now σ.shared).shared σ.shared).events.countP _ = 1 ∧
      fed (((code stealers driver k σ.now σ.shared).shared σ.shared).queue (some ()) ≠ []) _
  have hown (hk : k.worker = some ()) : i = thread :=
    halone i k (by rw [hi]; rfl) (decide_eq_true hk)
  rcases @isInjected_code _ stealers driver σ.shared k σ.now with
    hsame | ⟨hsucc, ⟨queues, rfl⟩, flow, hgot⟩
  · rcases hs with hzero | ⟨hone, hfed⟩
    · exact .inl (hsame.trans hzero)
    · refine .inr ⟨hsame.trans hone, ?_⟩
      by_cases hthread : thread = i
      · subst hthread
        rw [if_pos rfl]
        rw [hi] at hfed
        exact fed_code hbusy hfed
      · have hk : k.worker = none := by
          cases hworker : k.worker with
          | none => rfl
          | some w => exact absurd (hown hworker).symm hthread
        have hdeque (h : σ.shared.queue (some ()) ≠ []) :
            ((code stealers driver k σ.now σ.shared).shared σ.shared).queue (some ()) ≠ [] :=
          deque_code hk h
        have hfed' := fed_mono hdeque hfed
        rw [if_neg hthread]
        split
        · exact fed_roused hfed'
        · exact hfed'
  · -- the worker is at the injector, so that it was not fed before
    obtain rfl := hown rfl
    rcases hs with hzero | ⟨-, hfed⟩
    · refine .inr ⟨by omega, ?_⟩
      rw [if_pos rfl, hgot]
      trivial
    · rw [hi] at hfed
      exact hfed.elim

theorem Starving.step (hbusy : driver.Busy) (halone : Condvar.Alone (Place.isOf ()) thread σ)
    (hs : Starving thread σ) (input : Input ι (Call Unit F)) :
    Starving thread ((workerPool stealers driver).step σ input) := by
  have hacts := (workerPool stealers driver).acts_step σ input
  generalize (workerPool stealers driver).step σ input = σ' at hacts
  rcases hacts.passes with ⟨hshared, hpasses⟩ | ⟨i, k, pick, hi, rfl⟩
  · unfold Starving
    rw [hshared]
    exact hs.imp_right (And.imp_right (fed_passes (hpasses thread)))
  · exact hs.move hbusy halone hi pick

/-- **The injector starves.** A lone worker looks at its deque first: if all that it drives keeps it
busy, it takes one flow from the injector and never another, whatever is injected. -/
theorem injected_le_one {now : ℕ} (hbusy : driver.Busy) {is : List (Input ι (Call Unit F))}
    (his : ∀ input ∈ is, RunBy () thread input) :
    (after stealers driver now is).shared.events.countP Event.isInjected ≤ 1 := by
  have hclosed : (workerPool stealers driver).Closed (Place.isOf ()) :=
    closed_isOf stealers driver ()
  have hguarded : Schedule.Guarded (workerPool stealers driver).step
      (fun _ input => input.Only (workerPool stealers driver) (Place.isOf ()) thread)
      (.init now new) is :=
    Schedule.guarded_of_mem (fun _ input hin => only_of_runBy stealers driver (his input hin)) _
  have hrun := hguarded.invariant
    (I := fun σ => Condvar.Alone (Place.isOf ()) thread σ ∧ Starving thread σ)
    (fun σ input hinput hs => ⟨hclosed.alone_step hinput hs.1, hs.2.step hbusy hs.1 input⟩)
    ⟨fun i k hk => (by cases hk), .inl rfl⟩
  have hcount : (after stealers driver now is).shared.events.countP Event.isInjected = 0 ∨
      (after stealers driver now is).shared.events.countP Event.isInjected = 1 :=
    hrun.2.imp_right And.left
  omega

theorem injected_le_one_yielding :
    (after [()] (.yielding ℕ) 0 [.call 1 (.inject [7, 8]), .turn 1 0,
      .call 0 (.runWorker ())]).shared.events.countP Event.isInjected ≤ 1 :=
  @injected_le_one _ _ [()] (.yielding ℕ) _ 0 0
    (fun _ _ => ⟨.inl rfl, .inr ⟨_, List.mem_singleton_self _, rfl⟩⟩) _ (by simp [RunBy])

end

end Workers

end Byteflow
