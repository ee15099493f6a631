import Byteflow.Foundations.Schedule
import Byteflow.Scheduler.Supervisor.Table
import Mathlib.Data.List.TakeWhile
import Mathlib.Data.Nat.Init
import Mathlib.Order.Nat

/-!
# Restart intensity

How many restarts a supervisor allows (`scheduler/supervisor.rs`). The times of the failures are
kept as long as they are in the window that ends with the latest one, and a failure is refused, and
all after it, when more are kept than allowed. Where the start of the window is before the first
instant that the clock can represent, the code takes the present time for it and forgets what came
before; `restarts_bounded` is the bound for every window of a run in which that does not happen.

Instants are nanoseconds since the first one that the clock can represent.
-/

namespace Byteflow

namespace Supervisor

/-- The times of the restarts, and whether there were too many. -/
structure Intensity where
  restartTimes : List ℕ
  exceeded : Bool
  deriving DecidableEq

namespace Intensity

/-- `Instant::checked_sub`. -/
def checkedSub (now period : ℕ) : Option ℕ := if period ≤ now then some (now - period) else none

def windowStart (cfg : Config) (now : ℕ) : ℕ := (checkedSub now cfg.maxPeriod).getD now

/-- The times with that of a new failure, without those before the window. -/
def kept (cfg : Config) (now : ℕ) (s : Intensity) : List ℕ :=
  (s.restartTimes ++ [now]).dropWhile (· < windowStart cfg now)

def intensityHit (cfg : Config) (now : ℕ) (s : Intensity) : Bool × Intensity :=
  let times := s.kept cfg now
  if cfg.maxRestarts < UInt32.ofNat times.length then (true, ⟨times, true⟩)
  else (false, ⟨times, s.exceeded⟩)

/-- Whether a failure is restarted. -/
def allows (cfg : Config) (now : ℕ) (s : Intensity) : Bool × Intensity :=
  if s.exceeded then (false, s) else (!(s.intensityHit cfg now).1, (s.intensityHit cfg now).2)

def step (cfg : Config) (s : Intensity) (now : ℕ) : Intensity := (s.allows cfg now).2

def new : Intensity := ⟨[], false⟩

/-- The times of the failures that are restarted. -/
def allowed (cfg : Config) (s : Intensity) (ts : List ℕ) : List ℕ :=
  Schedule.trace (step cfg) (fun s now => if (s.allows cfg now).1 then [now] else []) s ts

/-- Nothing is forgotten before its time: the window starts at an instant, or there is nothing older
than the failure; and the number of the times kept fits an `u32`. -/
def Countable (cfg : Config) (s : Intensity) (now : ℕ) : Prop :=
  (cfg.maxPeriod ≤ now ∨ ∀ t ∈ s.restartTimes, now ≤ t) ∧
    (cfg.maxRestarts.toNat + 1 < 2 ^ 32 ∨ s.restartTimes.length + 1 < 2 ^ 32)

variable {cfg : Config} {s : Intensity} {now : ℕ}

/-! ## One failure -/

theorem kept_eq (h : Countable cfg s now) :
    s.kept cfg now = (s.restartTimes ++ [now]).dropWhile (· < now - cfg.maxPeriod) := by
  unfold kept windowStart checkedSub
  split_ifs with hperiod
  · rfl
  · have hall : ∀ t ∈ s.restartTimes ++ [now], now ≤ t := by
      intro t ht
      rcases List.mem_append.mp ht with ht | ht
      · exact h.1.resolve_left hperiod t ht
      · exact (List.mem_singleton.mp ht).ge
    have hdrop (w : ℕ) (hw : w ≤ now) :
        (s.restartTimes ++ [now]).dropWhile (· < w) = s.restartTimes ++ [now] := by
      rw [List.dropWhile_eq_self_iff]
      intro hpos
      have := hall _ (List.getElem_mem hpos)
      simp only [decide_eq_true_eq]
      omega
    rw [hdrop _ (Nat.sub_le ..)]
    exact hdrop now le_rfl

/-- Forgetting what is older than `w` loses nothing of what is not. -/
theorem filter_dropWhile {w w' : ℕ} (hw : w ≤ w') (ts : List ℕ) :
    (ts.dropWhile (· < w)).filter (w' ≤ ·) = ts.filter (w' ≤ ·) := by
  induction ts with
  | nil => rfl
  | cons t ts ih =>
    rw [List.dropWhile_cons]
    split_ifs with ht
    · have hlt : ¬w' ≤ t := by
        simp only [decide_eq_true_eq] at ht
        omega
      rw [ih, List.filter_cons_of_neg (by simpa using hlt)]
    · rfl

/-- A failure is restarted when the number of what is kept, as an `u32`, is not above the bound. -/
theorem allows_of_not_exceeded (h : s.exceeded = false) :
    s.allows cfg now =
      if cfg.maxRestarts < UInt32.ofNat (s.kept cfg now).length then
        (false, ⟨s.kept cfg now, true⟩)
      else (true, ⟨s.kept cfg now, false⟩) := by
  unfold allows intensityHit
  rw [h]
  by_cases hmany : cfg.maxRestarts < UInt32.ofNat (s.kept cfg now).length
  · simp [hmany]
  · simp [hmany]

theorem allows_of_exceeded (h : s.exceeded = true) : s.allows cfg now = (false, s) := if_pos h

theorem step_restartTimes (h : s.exceeded = false) :
    (s.step cfg now).restartTimes = s.kept cfg now := by
  unfold step
  rw [allows_of_not_exceeded h]
  split_ifs <;> rfl

/-- A failure that is refused ends the restarts. -/
theorem allows_of_step (h : (s.step cfg now).exceeded = false) :
    s.exceeded = false ∧ (s.allows cfg now).1 = true := by
  unfold step at h
  cases hs : s.exceeded with
  | true =>
    rw [allows_of_exceeded hs] at h
    cases hs.symm.trans h
  | false =>
    refine ⟨rfl, ?_⟩
    by_cases hmany : cfg.maxRestarts < UInt32.ofNat (s.kept cfg now).length
    · simp [allows_of_not_exceeded hs, hmany] at h
    · simp [allows_of_not_exceeded hs, hmany]

/-- While failures are restarted, no more are kept than allowed. -/
def Counted (cfg : Config) (s : Intensity) : Prop :=
  s.exceeded = false → s.restartTimes.length ≤ cfg.maxRestarts.toNat

theorem length_kept_le (h : Countable cfg s now) :
    (s.kept cfg now).length ≤ s.restartTimes.length + 1 := by
  rw [kept_eq h]
  exact (List.dropWhile_sublist _).length_le.trans_eq (by simp)

/-- A failure that is restarted is kept with no more than are allowed. -/
theorem length_kept_of_allows (hcounted : Counted cfg s)
    (h : s.exceeded = false → Countable cfg s now) (hallows : (s.allows cfg now).1 = true) :
    s.exceeded = false ∧ (s.kept cfg now).length ≤ cfg.maxRestarts.toNat := by
  have hexceeded : s.exceeded = false := by
    cases hs : s.exceeded with
    | false => rfl
    | true =>
      rw [allows_of_exceeded hs] at hallows
      cases hallows
  refine ⟨hexceeded, ?_⟩
  have hlength := length_kept_le (h hexceeded)
  have hroom := (h hexceeded).2
  have hbefore := hcounted hexceeded
  have hmany : ¬cfg.maxRestarts < UInt32.ofNat (s.kept cfg now).length := by
    intro hmany
    simp [allows_of_not_exceeded hexceeded, hmany] at hallows
  rw [UInt32.lt_iff_toNat_lt, UInt32.toNat_ofNat_of_lt'] at hmany
  · omega
  · show (s.kept cfg now).length < 2 ^ 32
    omega

theorem Counted.step (hcounted : Counted cfg s) (h : s.exceeded = false → Countable cfg s now) :
    Counted cfg (s.step cfg now) := by
  intro hexceeded
  obtain ⟨hs, hallows⟩ := allows_of_step hexceeded
  rw [step_restartTimes hs]
  exact (length_kept_of_allows hcounted h hallows).2

/-! ## Windows -/

/-- The state knows what was restarted, but for what is too old at `now`; `A` are the times of the
restarts. -/
structure Knows (cfg : Config) (s : Intensity) (A : List ℕ) (now : ℕ) : Prop where
  counted : Counted cfg s
  past : ∀ t ∈ A, t ≤ now
  same : s.exceeded = false → ∀ w, now - cfg.maxPeriod ≤ w →
    A.filter (w ≤ ·) = s.restartTimes.filter (w ≤ ·)
  bounded : ∀ a, A.countP (fun t => a ≤ t ∧ t ≤ a + cfg.maxPeriod) ≤ cfg.maxRestarts.toNat

theorem Knows.step {A : List ℕ} {last : ℕ} (h : Knows cfg s A last) (hnow : last ≤ now)
    (hcountable : s.exceeded = false → Countable cfg s now) :
    Knows cfg (s.step cfg now) (A ++ if (s.allows cfg now).1 then [now] else []) now := by
  have hcounted := h.counted.step hcountable
  cases hallows : (s.allows cfg now).1 with
  | false =>
    simp only [Bool.false_eq_true, if_false, List.append_nil]
    refine ⟨hcounted, fun t ht => (h.past t ht).trans hnow, fun hexceeded => ?_, h.bounded⟩
    have hallowed := (allows_of_step hexceeded).2
    rw [hallows] at hallowed
    cases hallowed
  | true =>
    obtain ⟨hexceeded, hlength⟩ := length_kept_of_allows h.counted hcountable hallows
    have hsame (w : ℕ) (hw : now - cfg.maxPeriod ≤ w) :
        (A ++ [now]).filter (w ≤ ·) = (s.kept cfg now).filter (w ≤ ·) := by
      rw [kept_eq (hcountable hexceeded), filter_dropWhile hw, List.filter_append,
        List.filter_append, h.same hexceeded w (by omega)]
    simp only [if_true]
    refine ⟨hcounted, ?_, fun _ w hw => ?_, fun a => ?_⟩
    · intro t ht
      rcases List.mem_append.mp ht with ht | ht
      · exact (h.past t ht).trans hnow
      · exact (List.mem_singleton.mp ht).le
    · rw [step_restartTimes hexceeded]
      exact hsame w hw
    · by_cases hin : a ≤ now ∧ now ≤ a + cfg.maxPeriod
      · -- all that the window holds is kept
        calc (A ++ [now]).countP (fun t => a ≤ t ∧ t ≤ a + cfg.maxPeriod)
            ≤ (A ++ [now]).countP (now - cfg.maxPeriod ≤ ·) :=
              List.countP_mono_left fun t _ ht => by
                simp only [decide_eq_true_eq] at ht ⊢
                omega
          _ = ((s.kept cfg now).filter (now - cfg.maxPeriod ≤ ·)).length := by
              rw [List.countP_eq_length_filter, hsame _ le_rfl]
          _ ≤ (s.kept cfg now).length := List.length_filter_le ..
          _ ≤ cfg.maxRestarts.toNat := hlength
      · rw [List.countP_append, List.countP_singleton, if_neg (by simpa using hin), Nat.add_zero]
        exact h.bounded a

theorem knows_new (cfg : Config) (now : ℕ) : Knows cfg new [] now :=
  ⟨fun _ => Nat.zero_le _, fun _ h => absurd h List.not_mem_nil, fun _ _ _ => rfl,
    fun _ => Nat.zero_le _⟩

/-- What a run restarts keeps the bound. -/
theorem Knows.bounded_run {A : List ℕ} {last : ℕ} (h : Knows cfg s A last) {ts : List ℕ}
    (hlast : ∀ t ∈ ts, last ≤ t) (hts : ts.Pairwise (· ≤ ·))
    (hguard : Schedule.Guarded (Intensity.step cfg)
      (fun s now => s.exceeded = false → Countable cfg s now) s ts) (a : ℕ) :
    (A ++ s.allowed cfg ts).countP (fun t => a ≤ t ∧ t ≤ a + cfg.maxPeriod) ≤
      cfg.maxRestarts.toNat := by
  induction ts generalizing s A last with
  | nil =>
    rw [show s.allowed cfg [] = [] from rfl, List.append_nil]
    exact h.bounded a
  | cons now ts ih =>
    obtain ⟨hnow, hts⟩ := List.pairwise_cons.mp hts
    have hstep := h.step (hlast now List.mem_cons_self) hguard.1
    have hrest := ih hstep hnow hts hguard.2
    rwa [List.append_assoc] at hrest

/-- After too many failures none is restarted. -/
theorem allowed_of_exceeded (h : s.exceeded = true) (ts : List ℕ) : s.allowed cfg ts = [] := by
  induction ts with
  | nil => rfl
  | cons now ts ih =>
    have hsame : s.step cfg now = s := congrArg Prod.snd (allows_of_exceeded h)
    have hcons : s.allowed cfg (now :: ts) = (if (s.allows cfg now).1 then [now] else []) ++
        (s.step cfg now).allowed cfg ts := rfl
    rw [hcons, allows_of_exceeded h, hsame, ih]
    rfl

/-- **Restart intensity.** As long as nothing is forgotten before its time, every closed window of
the length of the period sees no more restarts than allowed; and none comes after the bound was
exceeded. -/
theorem restarts_bounded {ts : List ℕ} (hts : ts.Pairwise (· ≤ ·))
    (hguard : Schedule.Guarded (step cfg)
      (fun s now => s.exceeded = false → Countable cfg s now) new ts) :
    (∀ a, (new.allowed cfg ts).countP (fun t => a ≤ t ∧ t ≤ a + cfg.maxPeriod) ≤
      cfg.maxRestarts.toNat) ∧
      ∀ before after, ts = before ++ after →
        (Schedule.run (step cfg) new before).exceeded = true →
        (Schedule.run (step cfg) new before).allowed cfg after = [] :=
  ⟨(knows_new cfg 0).bounded_run (fun _ _ => Nat.zero_le _) hts hguard,
    fun _ after _ hexceeded => allowed_of_exceeded hexceeded after⟩

theorem restarts_bounded_default :
    (∀ a, (new.allowed ⟨3, 5, .oneForOne⟩ [7, 8, 13, 20]).countP (fun t => a ≤ t ∧ t ≤ a + 5) ≤
      (3 : UInt32).toNat) ∧
      ∀ before after, [7, 8, 13, 20] = before ++ after →
        (Schedule.run (step ⟨3, 5, .oneForOne⟩) new before).exceeded = true →
        (Schedule.run (step ⟨3, 5, .oneForOne⟩) new before).allowed ⟨3, 5, .oneForOne⟩ after =
          [] := by
  have hguard : Schedule.Guarded (step ⟨3, 5, .oneForOne⟩)
      (fun s now => s.exceeded = false → Countable ⟨3, 5, .oneForOne⟩ s now) new
      [7, 8, 13, 20] := by
    refine ⟨fun _ => ⟨?_, ?_⟩, fun _ => ⟨?_, ?_⟩, fun _ => ⟨?_, ?_⟩, fun _ => ⟨?_, ?_⟩, trivial⟩ <;>
      simp
  exact restarts_bounded (by decide) hguard

/-- A period that is longer than the clock goes back: each failure is the first in its window, and
all three are restarted, where one is allowed. -/
theorem restarts_forgotten :
    [1, 2, 3].Pairwise (· ≤ ·) ∧
      ¬(new.allowed ⟨1, 1000, .oneForOne⟩ [1, 2, 3]).countP (fun t => 0 ≤ t ∧ t ≤ 0 + 1000) ≤
        (1 : UInt32).toNat := by decide

end Intensity

end Supervisor

end Byteflow
