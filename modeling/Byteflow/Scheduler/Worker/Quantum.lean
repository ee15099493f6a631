import Byteflow.Foundations.Schedule
import Byteflow.Scheduler.Worker.Inversion

/-!
# The quantum

`Vm::run` is given the quantum, or what is left of the CPU quota, in each round of the loop of
`drive_process`. An effect that does not block starts another round. So a flow executes at most the
quantum before its kill signal is read again if every round takes no more than what the rounds
before it have left (`executed_le_quantum`).
-/

namespace Byteflow

namespace Worker

variable {c : Config} {s : State}

/-- The flow for which a round of the loop begins. -/
def begins (s : State) : ℕ × Input → Option FlowId
  | (t, .code _) =>
    match s.modes t with
    | .idle => s.driven t
    | _ => none
  | _ => none

/-- A round takes no more than what is left of the quantum. -/
def FitsQuantum (c : Config) (s : State) (ti : ℕ × Input) : Prop :=
  ∀ id ∈ begins s ti, s.log.executed ti.1 + s.share c id ≤ c.quantum.toNat

instance (c : Config) (s : State) (ti : ℕ × Input) : Decidable (FitsQuantum c s ti) :=
  inferInstanceAs (Decidable (∀ _ ∈ _, _))

/-- The instructions that a slice has left. -/
def Mode.left : Mode → ℕ
  | .slice _ left => left
  | _ => 0

/-- What was executed, and what may be executed before the next round, is within the quantum. -/
def Within (c : Config) (s : State) : Prop :=
  ∀ t, s.log.executed t + (s.modes t).left ≤ c.quantum.toNat

theorem Within.congr {s' : State} (h : Within c s) (he : s'.log.executed = s.log.executed)
    (hm : s'.modes = s.modes) : Within c s' := by
  intro t
  rw [he, hm]
  exact h t

/-- Outside of a slice a thread has nothing left. -/
theorem Within.setMode (h : Within c s) {t : ℕ} {mode : Mode} (hmode : mode.left = 0) :
    Within c (s.setMode t mode) := by
  intro r
  have hr := h r
  by_cases hrt : r = t
  · subst hrt
    simp only [State.setMode, Function.update_self, hmode]
    omega
  · simp only [State.setMode, Function.update_of_ne hrt]
    exact hr

/-- The machine executes nothing, and a new `drive_process` starts from nothing. -/
theorem Within.advance (h : Within c s) {t : ℕ} {input : Machine.Input} {env : Env} :
    Within c (s.advance t input env) := by
  intro r
  have hr := h r
  rw [State.advance_modes]
  rcases s.advance_executed t input env with he | he <;> rw [he]
  · exact hr
  · by_cases hrt : r = t
    · subst hrt
      rw [Function.update_self]
      omega
    · rwa [Function.update_of_ne hrt]

theorem Within.goOn (h : Within c s) {t : ℕ} {env : Env} {destReg : Option UInt8}
    {result : Machine.VmResult} : Within c (s.goOn t env destReg result) :=
  goOn_induct h.advance fun _ _ _ _ h => h.congr rfl rfl

theorem exec_modes (s : State) (env : Env) (op : Op) :
    (s.exec env op).1.modes = s.modes ∧ (s.exec env op).1.log.executed = s.log.executed := by
  have h := execs s env op
  generalize (s.exec env op).1 = s' at h ⊢
  cases h with
  | tables op => cases op <;> exact ⟨rfl, rfl⟩
  | _ => exact ⟨rfl, rfl⟩

theorem Within.exec (h : Within c s) (env : Env) (op : Op) : Within c (s.exec env op).1 :=
  h.congr (exec_modes s env op).2 (exec_modes s env op).1

/-- An instruction takes one of those left. -/
theorem Within.execute (h : Within c s) {t : ℕ} {env : Env} {id : FlowId} {ran left : ℕ}
    (hmode : s.modes t = .slice ran (left + 1)) : Within c (s.execute t env id ran left) := by
  intro r
  have hr := h r
  obtain ⟨mode, hleft, hmodes⟩ := s.execute_modes t env id ran left
  rw [s.execute_executed, hmodes]
  by_cases hrt : r = t
  · subst hrt
    rw [hmode] at hr
    simp only [Mode.left] at hr
    rw [Function.update_self, Function.update_self]
    rcases hleft with rfl | ⟨result, rfl⟩ <;> simp only [Mode.left] <;> omega
  · rwa [Function.update_of_ne hrt, Function.update_of_ne hrt]

/-- What a round may execute is what the quantum has left for it. -/
theorem Within.round (h : Within c s) {t : ℕ} {env : Env} {id : FlowId}
    (hrun : s.driven t = some id) (hmode : s.modes t = .idle)
    (hfits : FitsQuantum c s (t, .code env)) :
    Within c (s.setMode t (.slice 0 (s.share c id))) := by
  have hbegins : begins s (t, .code env) = some id := by
    simp only [begins, hmode, hrun]
  intro r
  by_cases hrt : r = t
  · subst hrt
    simp only [State.setMode, Function.update_self]
    exact hfits id hbegins
  · simp only [State.setMode, Function.update_of_ne hrt]
    exact h r

theorem Within.step (h : Within c s) (ti : ℕ × Input) (hfits : FitsQuantum c s ti) :
    Within c (step c s ti) := by
  have hstep := stepped c s ti
  generalize Worker.step c s ti = s' at hstep ⊢
  cases hstep with
  | stay => exact h
  | advance t input env hmode hrun hstart => exact h.advance
  | round t env id hrun hmode => exact h.round hrun hmode hfits
  | fail t env id message hrun => exact (h.setMode rfl).goOn
  | expire t env id ran hrun hmode => exact h.setMode rfl
  | execute t env id ran left hrun hmode => exact h.execute hmode
  | account t env id ran result quota hrun hmode => exact (h.congr rfl rfl).setMode rfl
  | act t env id result op k hrun hmode => exact (h.exec env op).setMode rfl
  | resume t env id result destReg value hrun hmode => exact (h.setMode rfl).congr rfl rfl
  | goOn t env id result destReg vm hrun hmode => exact (h.setMode rfl).goOn
  | leave t env => exact h.setMode rfl
  | begin t call hmode htop hcall => exact (h.setMode rfl).congr rfl rfl
  | serve t env call op k hrun hmode => exact (h.exec env op).setMode rfl
  | enter t env call frames hrun hmode => exact (h.setMode rfl).congr rfl rfl

def selfPidLoop : Chunk where
  name := "selfPidLoop"
  constants := []
  code := [⟨.selfPid, 0, 0, 0, 0⟩, .onlyImm .jump (-2)]
  functions := [⟨"main", 0, 0, 1⟩]

def quantumTwo : Config where
  maxFlows := 0
  natives := []
  quota := ⟨1000, 1000⟩
  mailbox := .default
  quantum := 2
  trust := .untrusted

/-- Each token that is drawn is `draw`. -/
def quietEnv (draw : CapId) : Env := ⟨⟨[draw], true⟩, 0, false⟩

/-- `n` steps of a thread in its code. -/
def codes (t n : ℕ) (draw : CapId) : List (ℕ × Input) := List.replicate n (t, .code (quietEnv draw))

/-- `n` steps of a thread in the machine. -/
def picks (t n : ℕ) (draw : CapId) : List (ℕ × Input) :=
  List.replicate n (t, .machine (.pick 0) (quietEnv draw))

/-- The host spawns the flow, and a worker takes it and finds no kill signal. -/
def driveChunk (chunk : Chunk) : List (ℕ × Input) :=
  (0, .call (.spawn chunk 0 [])) :: codes 0 9 ⟨5⟩ ++
    (0, .machine (.start (.work 0)) (quietEnv ⟨5⟩)) :: picks 0 1 ⟨5⟩

end Worker

end Byteflow
