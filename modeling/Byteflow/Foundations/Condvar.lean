import Byteflow.Foundations.Schedule
import Mathlib.Logic.Function.Basic

/-!
# Threads beside a mutex and a condition variable

Threads run code over a shared state, beside one mutex and one condition variable. A thread that
waits gives the mutex back and sleeps; it is woken by a notify, or by itself at any time (its span
is over, or the wakeup is spurious), and takes the mutex again before it goes on. Which thread
makes the next step, and which sleeper a notify wakes, is the input of the step.

`Sound` is kept by every step (`Sound.step`): no two threads have the mutex, and the waiters are the
threads that sleep.
-/

namespace Condvar

variable {σ κ γ ρ ι : Type}

/-- What a thread does next. -/
inductive Move (σ κ ρ : Type)
  | go (k : κ) (s : σ)
  | lock (k : κ)
  | unlock (k : κ)
  /-- Give the mutex back and sleep, for a span at most if there is one. -/
  | wait (k : κ) (span : Option ℕ)
  | notifyOne (k : κ)
  | notifyAll (k : κ)
  /-- Return. A guard that is held is dropped. -/
  | done (r : ρ) (s : σ)

/-- Where a thread is. -/
inductive Thread (κ : Type)
  | idle
  | running (k : κ)
  /-- Blocked on the mutex. -/
  | locking (k : κ)
  /-- In a wait, from `since` on. -/
  | asleep (k : κ) (since : ℕ) (span : Option ℕ)
  deriving DecidableEq

namespace Move

/-- The move agrees with `inside` on who has the mutex. -/
def Fits (inside : κ → Bool) (held : Bool) : Move σ κ ρ → Prop
  | .go k _ | .notifyOne k | .notifyAll k => inside k = held
  | .lock k => held = false ∧ inside k = true
  | .unlock k => held = true ∧ inside k = false
  | .wait k _ => held = true ∧ inside k = true
  | .done .. => True

/-- The shared state after the move. -/
def shared (s : σ) : Move σ κ ρ → σ
  | .go _ s' | .done _ s' => s'
  | _ => s

/-- Where the move leaves the thread. -/
def thread (now : ℕ) : Move σ κ ρ → Thread κ
  | .go k _ | .unlock k | .notifyOne k | .notifyAll k => .running k
  | .lock k => .locking k
  | .wait k span => .asleep k now span
  | .done .. => .idle

/-- The move gives the mutex back. -/
def frees (held : Bool) : Move σ κ ρ → Bool
  | .unlock _ | .wait .. => true
  | .done .. => held
  | _ => false

/-- The waiters that the move wakes. -/
def told (pick : ℕ) (waiters : List ι) : Move σ κ ρ → List ι
  | .notifyOne _ => waiters[pick % waiters.length]?.toList
  | .notifyAll _ => waiters
  | _ => []

def notifies : Move σ κ ρ → Bool
  | .notifyOne _ | .notifyAll _ => true
  | _ => false

def result : Move σ κ ρ → Option ρ
  | .done r _ => some r
  | _ => none

end Move

namespace Thread

/-- A thread that is woken takes the mutex again. -/
def roused : Thread κ → Thread κ
  | .asleep k _ _ => .locking k
  | t => t

def isAsleep : Thread κ → Bool
  | .asleep .. => true
  | _ => false

/-- The place in the code where the thread is, or goes on. -/
def place : Thread κ → Option κ
  | .idle => none
  | .running k | .locking k | .asleep k _ _ => some k

/-- The thread has the mutex. -/
def has (inside : κ → Bool) : Thread κ → Bool
  | .running k => inside k
  | _ => false

/-- The thread is at one of the places, or blocked on its way there. -/
def At (P : κ → Bool) : Thread κ → Prop
  | .running k | .locking k => P k = true
  | _ => False

/-- The thread has to have the mutex where it goes on. -/
def Blocked (inside : κ → Bool) : Thread κ → Prop
  | .locking k | .asleep k _ _ => inside k = true
  | _ => True

@[simp] theorem place_roused (t : Thread κ) : t.roused.place = t.place := by cases t <;> rfl

@[simp] theorem has_roused (inside : κ → Bool) (t : Thread κ) :
    t.roused.has inside = t.has inside := by cases t <;> rfl

@[simp] theorem isAsleep_roused (t : Thread κ) : t.roused.isAsleep = false := by cases t <;> rfl

theorem Blocked.roused {inside : κ → Bool} {t : Thread κ} (h : t.Blocked inside) :
    t.roused.Blocked inside := by
  cases t <;> exact h

theorem At.roused {P : κ → Bool} {t : Thread κ} (h : t.At P) : t.roused.At P := by
  cases t with
  | asleep k since span => exact h.elim
  | _ => exact h

end Thread

namespace Move

variable {inside : κ → Bool} {held : Bool} {m : Move σ κ ρ}

theorem Fits.has (h : m.Fits inside held) (now : ℕ) :
    (m.thread now).has inside = (held && !m.frees held) := by
  cases m with
  | go k s => exact h.trans (Bool.and_true held).symm
  | lock k => exact h.1 ▸ rfl
  | unlock k => exact h.2.trans (Bool.and_false held).symm
  | wait k span => exact (Bool.and_false held).symm
  | notifyOne k => exact h.trans (Bool.and_true held).symm
  | notifyAll k => exact h.trans (Bool.and_true held).symm
  | done r s => exact (Bool.and_not_self held).symm

theorem Fits.blocked (h : m.Fits inside held) (now : ℕ) : (m.thread now).Blocked inside := by
  cases m with
  | lock k => exact h.2
  | wait k span => exact h.2
  | _ => trivial

/-- Only a thread that has the mutex gives it back. -/
theorem Fits.had (h : m.Fits inside held) (hfrees : m.frees held = true) : held = true := by
  cases m with
  | unlock k => exact h.1
  | wait k span => exact h.1
  | done r s => exact hfrees
  | _ => cases hfrees

/-- The notify of a lone waiter, or of all, wakes whoever sleeps. -/
theorem mem_told (h : m.notifies = true) {waiters : List ι} (hone : waiters.length ≤ 1) {i : ι}
    (hi : i ∈ waiters) (pick : ℕ) : i ∈ m.told pick waiters := by
  cases m with
  | notifyAll k => exact hi
  | notifyOne k =>
    obtain ⟨j, rfl⟩ : ∃ j, waiters = [j] :=
      List.length_eq_one_iff.mp (Nat.le_antisymm hone (List.length_pos_of_mem hi))
    simpa [told, Nat.mod_one] using hi
  | _ => cases h

end Move

end Condvar

/-- The code of the threads: where a call starts, what is done at each place, and at which places
a thread has the mutex. -/
structure Condvar (σ κ γ ρ : Type) where
  start : γ → κ
  code : κ → ℕ → σ → Condvar.Move σ κ ρ
  inside : κ → Bool
  start_outside (c : γ) : inside (start c) = false
  fits (k : κ) (now : ℕ) (s : σ) : (code k now s).Fits inside (inside k)

namespace Condvar

variable {σ κ γ ρ ι : Type}

structure State (σ κ ρ ι : Type) where
  now : ℕ
  shared : σ
  /-- Who has the mutex. -/
  owner : Option ι
  waiters : List ι
  threads : ι → Thread κ
  /-- What the calls returned, and when. -/
  results : List (ι × ℕ × ρ)

def State.init (now : ℕ) (s : σ) : State σ κ ρ ι := ⟨now, s, none, [], fun _ => .idle, []⟩

inductive Input (ι γ : Type)
  | tick
  | call (i : ι) (c : γ)
  | wake (i : ι)
  /-- A step of a thread. A notify wakes the waiter that is picked. -/
  | turn (i : ι) (pick : ℕ)

variable (M : Condvar σ κ γ ρ)

/-- No two threads have the mutex, and the waiters are the threads that sleep. -/
structure Sound (s : State σ κ ρ ι) : Prop where
  owner (i : ι) : s.owner = some i ↔ (s.threads i).has M.inside = true
  blocked (i : ι) : (s.threads i).Blocked M.inside
  waiters (i : ι) : i ∈ s.waiters ↔ (s.threads i).isAsleep = true
  nodup : s.waiters.Nodup

theorem Sound.exclusive {M : Condvar σ κ γ ρ} {s : State σ κ ρ ι} (h : M.Sound s) {i j : ι}
    (hi : (s.threads i).has M.inside = true)
    (hj : (s.threads j).has M.inside = true) : i = j :=
  Option.some.inj (((h.owner i).mpr hi).symm.trans ((h.owner j).mpr hj))

theorem sound_init (now : ℕ) (s : σ) : M.Sound (State.init now s : State σ κ ρ ι) where
  owner i := by simp [State.init, Thread.has]
  blocked i := trivial
  waiters i := by simp [State.init, Thread.isAsleep]
  nodup := List.nodup_nil

variable [DecidableEq ι]

namespace State

open Function (update)

/-- Wake some of the waiters. -/
def rouse (s : State σ κ ρ ι) (js : List ι) : State σ κ ρ ι :=
  { s with
    waiters := s.waiters.filter (· ∉ js)
    threads := fun j => if j ∈ js then (s.threads j).roused else s.threads j }

def perform (s : State σ κ ρ ι) (i : ι) (pick : ℕ) (held : Bool) (m : Move σ κ ρ) :
    State σ κ ρ ι :=
  rouse
    { now := s.now
      shared := m.shared s.shared
      owner := if m.frees held then none else s.owner
      waiters := if (m.thread s.now).isAsleep then s.waiters ++ [i] else s.waiters
      threads := update s.threads i (m.thread s.now)
      results := s.results ++ (m.result.map fun r => (i, s.now, r)).toList }
    (m.told pick s.waiters)

end State

open Function (update update_self update_of_ne)

def step (s : State σ κ ρ ι) : Input ι γ → State σ κ ρ ι
  | .tick => { s with now := s.now + 1 }
  | .call i c =>
    match s.threads i with
    | .idle => { s with threads := update s.threads i (.running (M.start c)) }
    | _ => s
  | .wake i => s.rouse [i]
  | .turn i pick =>
    match s.threads i with
    | .running k => s.perform i pick (M.inside k) (M.code k s.now s.shared)
    | .locking k =>
      match s.owner with
      | none => { s with owner := some i, threads := update s.threads i (.running k) }
      | some _ => s
    | .idle | .asleep .. => s

/-- What an input leads to. -/
inductive Acts (s : State σ κ ρ ι) : Input ι γ → State σ κ ρ ι → Prop
  | stays (input : Input ι γ) : Acts s input s
  | tick : Acts s .tick { s with now := s.now + 1 }
  | call {i : ι} (h : s.threads i = .idle) (c : γ) :
      Acts s (.call i c) { s with threads := update s.threads i (.running (M.start c)) }
  | wake (i : ι) : Acts s (.wake i) (s.rouse [i])
  | take {i : ι} {k : κ} (h : s.threads i = .locking k) (hfree : s.owner = none) (pick : ℕ) :
      Acts s (.turn i pick)
        { s with owner := some i, threads := update s.threads i (.running k) }
  | move {i : ι} {k : κ} (h : s.threads i = .running k) (pick : ℕ) :
      Acts s (.turn i pick) (s.perform i pick (M.inside k) (M.code k s.now s.shared))

theorem acts_step (s : State σ κ ρ ι) (input : Input ι γ) : M.Acts s input (M.step s input) := by
  cases input with
  | tick => exact .tick
  | call i c =>
    cases hi : s.threads i with
    | idle =>
      simp only [step, hi]
      exact .call hi c
    | _ =>
      simp only [step, hi]
      exact .stays _
  | wake i => exact .wake i
  | turn i pick =>
    cases hi : s.threads i with
    | running k =>
      simp only [step, hi]
      exact .move hi pick
    | locking k =>
      cases hfree : s.owner with
      | none =>
        simp only [step, hi, hfree]
        exact .take hi hfree pick
      | some j =>
        simp only [step, hi, hfree]
        exact .stays _
    | _ =>
      simp only [step, hi]
      exact .stays _

section

variable {M}

theorem step_call {s : State σ κ ρ ι} {i : ι} (h : s.threads i = .idle) (c : γ) :
    M.step s (.call i c) = { s with threads := update s.threads i (.running (M.start c)) } := by
  simp only [step, h]

variable (now : ℕ) (r : σ) (owner : Option ι) (waiters : List ι) (threads : ι → Thread κ)
  (results : List (ι × ℕ × ρ)) (i : ι) (k : κ) (pick : ℕ)

@[simp] theorem step_locking :
    M.step ⟨now, r, none, waiters, update threads i (.locking k), results⟩ (.turn i pick) =
      ⟨now, r, some i, waiters, update threads i (.running k), results⟩ := by
  simp [step]

@[simp] theorem step_running :
    M.step ⟨now, r, owner, waiters, update threads i (.running k), results⟩ (.turn i pick) =
      State.perform ⟨now, r, owner, waiters, update threads i (.running k), results⟩ i pick
        (M.inside k) (M.code k now r) := by
  simp [step]

namespace State

@[simp] theorem rouse_nil (s : State σ κ ρ ι) : s.rouse [] = s := by
  have hfilter : s.waiters.filter (· ∉ []) = s.waiters := List.filter_eq_self.mpr (by simp)
  unfold rouse
  rw [hfilter]
  simp

variable (s : State σ κ ρ ι) (i : ι) (pick : ℕ) (held : Bool) (k : κ)

/-- A move that does not return: the results stay. -/
theorem perform_of_result {m : Move σ κ ρ} (h : m.result = none) : s.perform i pick held m =
    ({ s with
      shared := m.shared s.shared
      owner := if m.frees held then none else s.owner
      waiters := if (m.thread s.now).isAsleep then s.waiters ++ [i] else s.waiters
      threads := update s.threads i (m.thread s.now) } : State σ κ ρ ι).rouse
      (m.told pick s.waiters) := by
  unfold perform
  rw [h, Option.map_none, Option.toList_none, List.append_nil]

@[simp] theorem perform_go (s' : σ) : s.perform i pick held (.go k s') =
    { s with shared := s', threads := update s.threads i (.running k) } :=
  (s.perform_of_result i pick held rfl).trans (rouse_nil _)

@[simp] theorem perform_lock : s.perform i pick held (.lock k) =
    { s with threads := update s.threads i (.locking k) } :=
  (s.perform_of_result i pick held rfl).trans (rouse_nil _)

@[simp] theorem perform_unlock : s.perform i pick held (.unlock k) =
    { s with owner := none, threads := update s.threads i (.running k) } :=
  (s.perform_of_result i pick held rfl).trans (rouse_nil _)

@[simp] theorem perform_wait (span : Option ℕ) : s.perform i pick held (.wait k span) =
    { s with
      owner := none
      waiters := s.waiters ++ [i]
      threads := update s.threads i (.asleep k s.now span) } :=
  (s.perform_of_result i pick held rfl).trans (rouse_nil _)

@[simp] theorem perform_notifyOne : s.perform i pick held (.notifyOne k) =
    ({ s with threads := update s.threads i (.running k) } : State σ κ ρ ι).rouse
      s.waiters[pick % s.waiters.length]?.toList :=
  s.perform_of_result i pick held rfl

@[simp] theorem perform_notifyAll : s.perform i pick held (.notifyAll k) =
    ({ s with threads := update s.threads i (.running k) } : State σ κ ρ ι).rouse s.waiters :=
  s.perform_of_result i pick held rfl

@[simp] theorem perform_done (r : ρ) (s' : σ) : s.perform i pick held (.done r s') =
    { s with
      shared := s'
      owner := if held then none else s.owner
      threads := update s.threads i .idle
      results := s.results ++ [(i, s.now, r)] } :=
  rouse_nil _

end State

end

/-! ## What a step leaves of a thread -/

section

variable {M} {s s' : State σ κ ρ ι} {input : Input ι γ} {i j : ι} {k : κ} {pick : ℕ}

theorem threads_perform (m : Move σ κ ρ) (held : Bool) :
    (s.perform i pick held m).threads j =
      if j = i then m.thread s.now
      else if j ∈ m.told pick s.waiters then (s.threads j).roused else s.threads j := by
  show (if j ∈ m.told pick s.waiters then (update s.threads i (m.thread s.now) j).roused
    else update s.threads i (m.thread s.now) j) = _
  by_cases hj : j = i
  · subst hj
    rw [Function.update_self, if_pos rfl]
    cases m with
    | notifyOne k => exact ite_self _
    | notifyAll k => exact ite_self _
    | _ => exact if_neg List.not_mem_nil
  · rw [Function.update_of_ne hj, if_neg hj]

/-- One step of a thread by itself, with the calls that it may make. -/
inductive Turn (M : Condvar σ κ γ ρ) (calls : γ → Prop) (now : ℕ) (s : σ) :
    Thread κ → Thread κ → Prop
  | call {c : γ} (h : calls c) : Turn M calls now s .idle (.running (M.start c))
  | take (k : κ) : Turn M calls now s (.locking k) (.running k)
  | move (k : κ) : Turn M calls now s (.running k) ((M.code k now s).thread now)

/-- Each thread stays, is woken, or is the one that makes the step. -/
theorem Acts.threads (h : M.Acts s input s') (j : ι) :
    s'.threads j = s.threads j ∨ s'.threads j = (s.threads j).roused ∨
      Turn M (fun c => input = .call j c) s.now s.shared (s.threads j) (s'.threads j) := by
  cases h with
  | stays => exact .inl rfl
  | tick => exact .inl rfl
  | @call i h c =>
    by_cases hj : j = i
    · subst hj
      refine .inr (.inr ?_)
      simp only [h, Function.update_self]
      exact .call rfl
    · exact .inl (Function.update_of_ne hj _ _)
  | wake i =>
    by_cases hj : j ∈ [i]
    · exact .inr (.inl (if_pos hj))
    · exact .inl (if_neg hj)
  | @take i k h hfree =>
    by_cases hj : j = i
    · subst hj
      refine .inr (.inr ?_)
      simp only [h, Function.update_self]
      exact .take k
    · exact .inl (Function.update_of_ne hj _ _)
  | @move i k h pick =>
    rw [threads_perform]
    by_cases hj : j = i
    · subst hj
      refine .inr (.inr ?_)
      rw [if_pos rfl, h]
      exact .move k
    · rw [if_neg hj]
      by_cases htold : j ∈ (M.code k s.now s.shared).told pick s.waiters
      · exact .inr (.inl (if_pos htold))
      · exact .inl (if_neg htold)

end

/-! ## Mutual exclusion -/

namespace Sound

variable {M} {s s' : State σ κ ρ ι}

theorem rouse (h : M.Sound s) (js : List ι) : M.Sound (s.rouse js) where
  owner i := by
    show _ ↔ (if i ∈ js then (s.threads i).roused else s.threads i).has M.inside = true
    split
    · rw [Thread.has_roused]
      exact h.owner i
    · exact h.owner i
  blocked i := by
    show (if i ∈ js then (s.threads i).roused else s.threads i).Blocked M.inside
    split
    · exact (h.blocked i).roused
    · exact h.blocked i
  waiters i := by
    show i ∈ s.waiters.filter (· ∉ js) ↔
      (if i ∈ js then (s.threads i).roused else s.threads i).isAsleep = true
    rw [List.mem_filter, h.waiters i]
    split <;> simp [*]
  nodup := h.nodup.filter _

/-- A thread that neither has the mutex nor sleeps goes on to another such place. -/
theorem update (h : M.Sound s) {i : ι} {t : Thread κ} (hhas : (s.threads i).has M.inside = false)
    (hasleep : (s.threads i).isAsleep = false) (ht : t.has M.inside = false)
    (htasleep : t.isAsleep = false) (hblocked : t.Blocked M.inside) :
    M.Sound { s with threads := Function.update s.threads i t } where
  owner j := by
    by_cases hj : j = i
    · subst hj
      rw [h.owner j, hhas]
      simp [ht]
    · simpa only [Function.update_of_ne hj] using h.owner j
  blocked j := by
    by_cases hj : j = i
    · subst hj
      simpa only [Function.update_self] using hblocked
    · simpa only [Function.update_of_ne hj] using h.blocked j
  waiters j := by
    by_cases hj : j = i
    · subst hj
      rw [h.waiters j, hasleep]
      simp [htasleep]
    · simpa only [Function.update_of_ne hj] using h.waiters j
  nodup := h.nodup

theorem take (h : M.Sound s) {i : ι} {k : κ} (hi : s.threads i = .locking k)
    (hfree : s.owner = none) :
    M.Sound { s with owner := some i, threads := Function.update s.threads i (.running k) } where
  owner j := by
    by_cases hj : j = i
    · subst hj
      have hblocked := h.blocked j
      rw [hi] at hblocked
      simp only [Function.update_self, true_iff]
      exact hblocked
    · have hnone := h.owner j
      rw [hfree] at hnone
      simpa only [Function.update_of_ne hj, Option.some.injEq, Ne.symm hj, false_iff,
        reduceCtorEq] using hnone
  blocked j := by
    by_cases hj : j = i
    · subst hj
      simp only [Function.update_self]
      trivial
    · simpa only [Function.update_of_ne hj] using h.blocked j
  waiters j := by
    by_cases hj : j = i
    · subst hj
      rw [h.waiters j, hi]
      simp [Thread.isAsleep]
    · simpa only [Function.update_of_ne hj] using h.waiters j
  nodup := h.nodup

theorem perform (h : M.Sound s) {i : ι} {k : κ} (hi : s.threads i = .running k) (pick : ℕ) :
    M.Sound (s.perform i pick (M.inside k) (M.code k s.now s.shared)) := by
  have hfits := M.fits k s.now s.shared
  generalize M.code k s.now s.shared = m at hfits
  have hheld : s.owner = some i ↔ M.inside k = true := by
    have howner := h.owner i
    rwa [hi] at howner
  have hawake : i ∉ s.waiters := fun hmem => by
    have hasleep := (h.waiters i).mp hmem
    rw [hi] at hasleep
    cases hasleep
  refine .rouse (s := { s with
    shared := m.shared s.shared
    owner := if m.frees (M.inside k) then none else s.owner
    waiters := if (m.thread s.now).isAsleep then s.waiters ++ [i] else s.waiters
    threads := Function.update s.threads i (m.thread s.now)
    results := s.results ++ (m.result.map fun r => (i, s.now, r)).toList }) ⟨?_, ?_, ?_, ?_⟩ _
  · intro j
    by_cases hj : j = i
    · subst hj
      simp only [Function.update_self, hfits.has]
      cases hfrees : m.frees (M.inside k) with
      | true => simp
      | false => simpa using hheld
    · simp only [Function.update_of_ne hj]
      cases hfrees : m.frees (M.inside k) with
      | true =>
        have hother : ¬(s.threads j).has M.inside = true := fun hhas => by
          have howner := hheld.mpr (hfits.had hfrees)
          rw [(h.owner j).mpr hhas] at howner
          exact hj (Option.some.inj howner)
        simpa using hother
      | false => simpa using h.owner j
  · intro j
    by_cases hj : j = i
    · subst hj
      simpa only [Function.update_self] using hfits.blocked s.now
    · simpa only [Function.update_of_ne hj] using h.blocked j
  · intro j
    by_cases hj : j = i
    · subst hj
      cases hasleep : (m.thread s.now).isAsleep <;> simp [hasleep, hawake]
    · simp only [Function.update_of_ne hj]
      rw [← h.waiters j]
      split <;> simp [hj]
  · show (if (m.thread s.now).isAsleep then s.waiters ++ [i] else s.waiters).Nodup
    split
    · rw [List.nodup_append]
      exact ⟨h.nodup, List.pairwise_singleton _ i, fun a ha b hb hab =>
        hawake (List.mem_singleton.mp hb ▸ hab ▸ ha)⟩
    · exact h.nodup

theorem step (h : M.Sound s) (input : Input ι γ) : M.Sound (M.step s input) := by
  have hacts := M.acts_step s input
  generalize M.step s input = s' at hacts
  cases hacts with
  | stays => exact h
  | tick => exact ⟨h.owner, h.blocked, h.waiters, h.nodup⟩
  | call hidle c =>
    exact h.update (by rw [hidle]; rfl) (by rw [hidle]; rfl) (M.start_outside c) rfl trivial
  | wake i => exact h.rouse [i]
  | take hi hfree => exact h.take hi hfree
  | move hi pick => exact h.perform hi pick

end Sound

end Condvar
