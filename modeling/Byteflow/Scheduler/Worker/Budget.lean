import Byteflow.Foundations.Ledger
import Byteflow.Scheduler.Worker.Owned
import Byteflow.Scheduler.Worker.Quantum

/-!
# The CPU budget

A slice is no longer than what is left of the budget, and it is charged when it ends. Only the
thread that drives a flow executes its instructions and charges them, and a top-up comes from
another one in between. So what is left and what was executed add up to what was granted, but for
the slice in progress, and no charge fails (`cpu_accounted`).
-/

namespace Byteflow

/-! ## Quotas -/

namespace FlowQuota

variable {q q' : FlowQuota}

theorem chargeCpu_of_le {n : ℕ} (h : (n : ℤ) ≤ q.cpuBudget.toInt) :
    ∃ q', q.chargeCpu (Int64.ofNat n) = .ok q' ∧
      q'.cpuBudget.toInt = q.cpuBudget.toInt - n := by
  have hlt := q.cpuBudget.toInt_lt
  have hn : (Int64.ofNat n).toInt = n := Int64.toInt_ofNat_of_lt (by omega)
  have hsub : (q.cpuBudget - Int64.ofNat n).toInt = q.cpuBudget.toInt - n := by
    rw [Int64.toInt_sub, hn, Int.bmod_eq_of_le] <;> omega
  have hnonneg : ¬q.cpuBudget - Int64.ofNat n < 0 := by
    rw [Int64.lt_iff_toInt_lt, hsub, Int64.toInt_zero]
    omega
  exact ⟨_, by rw [chargeCpu, if_neg hnonneg], hsub⟩

theorem topUpCpu_toInt {extra : Int64} (hextra : 0 ≤ extra.toInt)
    (h : q.cpuBudget.toInt + extra.toInt < 2 ^ 63) :
    (q.topUpCpu extra).cpuBudget.toInt = q.cpuBudget.toInt + extra.toInt := by
  have hle := q.cpuBudget.le_toInt
  rw [topUpCpu, Int64.toInt_add, Int.bmod_eq_of_le] <;> omega

theorem remainingCpu_of_pos (h : ¬q.remainingCpu ≤ 0) :
    q.remainingCpu = q.cpuBudget ∧ 0 < q.cpuBudget.toInt := by
  have hmax : q.remainingCpu = if q.cpuBudget ≤ 0 then 0 else q.cpuBudget := rfl
  rw [hmax] at h ⊢
  split_ifs at h ⊢ with hle
  · exact absurd (Int64.le_refl 0) h
  · rw [Int64.le_iff_toInt_le, Int64.toInt_zero] at hle
    exact ⟨rfl, by omega⟩

end FlowQuota

namespace Worker

open Function (update)

variable {c : Config} {s s' s'' : State} {hands hands' : ℕ → Hand} {tops : List (FlowId × ℤ)}
  {t : ℕ} {id : FlowId}

/-! ## Bills -/

/-- What is left of the CPU budget, and the instructions that were executed. -/
def Process.bill (p : Process) : Int64 × ℕ := (p.quota.cpuBudget, p.vm.instructionsExecuted)

/-- What is left of a flow's CPU budget. -/
def State.left (s : State) (id : FlowId) : ℤ := (s.processes id).bill.1.toInt

/-- The instructions that a flow has executed. -/
def State.executed (s : State) (id : FlowId) : ℕ := (s.processes id).bill.2

theorem Process.bill_eq (p : Process) :
    p.bill = (p.vm.cpu.getD 0, p.vm.instructionsExecuted) := by
  unfold bill quota Vm.cpu
  cases p.vm.quota <;> rfl

theorem bill_of_cpu {p p' : Process} (hcpu : p'.vm.cpu = p.vm.cpu)
    (hexecuted : p'.vm.instructionsExecuted = p.vm.instructionsExecuted) : p'.bill = p.bill := by
  rw [p.bill_eq, p'.bill_eq, hcpu, hexecuted]

section

variable {p : Process} {id' : FlowId}

theorem left_setProcess : (s.setProcess id p).left id = p.bill.1.toInt := by
  simp only [State.left, State.setProcess, Function.update_self]

theorem executed_setProcess : (s.setProcess id p).executed id = p.bill.2 := by
  simp only [State.executed, State.setProcess, Function.update_self]

theorem left_setProcess_of_ne (h : id' ≠ id) : (s.setProcess id p).left id' = s.left id' := by
  simp only [State.left, State.setProcess, Function.update_of_ne h]

theorem executed_setProcess_of_ne (h : id' ≠ id) :
    (s.setProcess id p).executed id' = s.executed id' := by
  simp only [State.executed, State.setProcess, Function.update_of_ne h]

end

/-- Nobody is billed. -/
def SameBills (s s' : State) : Prop := ∀ id, (s'.processes id).bill = (s.processes id).bill

theorem SameBills.refl (s : State) : SameBills s s := fun _ => rfl

theorem SameBills.trans (h : SameBills s s') (h' : SameBills s' s'') : SameBills s s'' :=
  fun id => (h' id).trans (h id)

theorem sameBills_setProcess {p : Process} (h : p.bill = (s.processes id).bill) :
    SameBills s (s.setProcess id p) := by
  intro id'
  by_cases hid : id' = id
  · subst hid
    simpa only [State.setProcess, Function.update_self] using h
  · simp only [State.setProcess, Function.update_of_ne hid]

theorem sameBills_resume (s : State) (env : Env) (id : FlowId) (destReg : UInt8) (value : Value) :
    SameBills s (s.resume env id destReg value) := by
  obtain ⟨hcpu, hexecuted⟩ := Vm.setReg_cpu (s.host env) (s.processes id).vm destReg value
  exact sameBills_setProcess (bill_of_cpu hcpu hexecuted)

theorem sameBills_refund (s : State) (id : FlowId) (bytes : ℕ) : SameBills s (s.refund id bytes) :=
  sameBills_setProcess rfl

theorem sameBills_advance (s : State) (t : ℕ) (input : Machine.Input) (env : Env) :
    SameBills s (s.advance t input env) := by
  have hsettle (f : Machine.Frame) : SameBills s (s.settle env f) :=
    settle_induct (P := SameBills s) (.refl s) (fun _ _ _ _ h => h.trans (sameBills_refund _ _ _))
      (fun _ _ _ h => h.trans (sameBills_resume _ _ _ _ _)) fun _ _ _ h => h
  unfold State.advance
  dsimp only
  split
  · exact hsettle _
  · exact .refl s

/-- Only a new flow, and a top-up of the budget, make a difference. -/
theorem sameBills_exec (s : State) (env : Env) {op : Op}
    (hplace : ∀ id process, op ≠ .place id process) (htop : ∀ id extra, op ≠ .topUpCpu id extra) :
    SameBills s (s.exec env op).1 := by
  cases op with
  | tables op => cases op <;> exact .refl s
  | place id process => exact absurd rfl (hplace id process)
  | alloc flow bytes =>
    simp only [State.exec]
    split
    · rename_i halloc
      refine sameBills_setProcess ?_
      simp only [Process.bill, Process.withQuota, Process.quota, Option.getD_some]
      rw [Vm.alloc_cpuBudget halloc]
      rfl
    · exact .refl s
  | free flow bytes => exact sameBills_refund s flow bytes
  | freshRequestId flow =>
    have hvm : (s.processes flow).vm.freshRequestId.2.cpu = (s.processes flow).vm.cpu ∧
        (s.processes flow).vm.freshRequestId.2.instructionsExecuted =
          (s.processes flow).vm.instructionsExecuted := by
      unfold Vm.freshRequestId
      split <;> exact ⟨rfl, rfl⟩
    exact sameBills_setProcess (bill_of_cpu hvm.1 hvm.2)
  | topUpCpu target extra => exact absurd rfl (htop target extra)
  | topUpMem target extra =>
    simp only [State.exec, State.topUp]
    split_ifs
    · exact sameBills_setProcess rfl
    · exact .refl s
  | _ => exact .refl s

/-! ## Who was live -/

/-- A worker's machine brings no flow to life. -/
theorem Permitted.wasLive {input : Machine.Input} (hp : Permitted s t input) (ht : Tracked s)
    (hs : Consistent False s) (env : Env) (h : (s.advance t input env).WasLive id) :
    s.WasLive id := by
  rcases h.2 with hd | he
  · have hd := (hp.directory ht id).1 hd
    exact ⟨hs.directory id hd, .inl hd⟩
  · rcases List.mem_append.mp he with he | he
    · exact wasLive_of_exits ht he
    · exact ⟨hs.exited id he, .inr he⟩

theorem exec_directory (s : State) (env : Env) (op : Op) :
    (s.exec env op).1.log.exited = s.log.exited ∧
      ((s.exec env op).1.machine.shared.directory = s.machine.shared.directory ∨
        ∃ id, op = .tables (.register id) ∧ (s.exec env op).1.machine.shared.directory =
          update s.machine.shared.directory id true) := by
  have h := execs s env op
  generalize (s.exec env op).1 = s' at h ⊢
  cases h with
  | tables op =>
    cases op with
    | register id => exact ⟨rfl, .inr ⟨id, rfl, rfl⟩⟩
    | _ => exact ⟨rfl, .inl rfl⟩
  | _ => exact ⟨rfl, .inl rfl⟩

/-- Nobody is billed, and nobody comes to life. -/
structure Calm (s s' : State) : Prop where
  bills : SameBills s s'
  quotas : ∀ id, s'.quotas id = true → s.quotas id = true ∨ s.WasLive id
  live : ∀ id, s'.WasLive id → s.WasLive id

theorem Calm.resume (h : Calm s s') (env : Env) (id : FlowId) (destReg : UInt8) (value : Value) :
    Calm s (s'.resume env id destReg value) :=
  ⟨h.bills.trans (sameBills_resume _ _ _ _ _), h.quotas, h.live⟩

theorem calm_advance {input : Machine.Input} (hp : Permitted s t input) (ht : Tracked s)
    (hs : Consistent False s) (env : Env) : Calm s (s.advance t input env) := by
  refine ⟨sameBills_advance s t input env, fun id hq => .inl ?_, fun id => hp.wasLive ht hs env⟩
  have hsettle (f : Machine.Frame) : (s.settle env f).quotas id = true → s.quotas id = true := by
    refine settle_induct (P := fun s' => s'.quotas id = true → s.quotas id = true) (fun h => h)
      (fun _ _ _ _ h => h) (fun _ _ _ h => h) fun s' id' _ h hq => h ?_
    by_cases hid : id = id'
    · simp only [State.forget, hid, Function.update_self] at hq
      cases hq
    · simpa only [State.forget, Function.update_of_ne hid] using hq
  unfold State.advance at hq
  dsimp only at hq
  split at hq
  · exact hsettle _ hq
  · exact hq

theorem calm_goOn {result : Machine.VmResult} (hp : Permitted s t (.vm result)) (ht : Tracked s)
    (hs : Consistent False s) (env : Env) (destReg : Option UInt8) :
    Calm s (s.goOn t env destReg result) :=
  goOn_induct (P := Calm s) (calm_advance hp ht hs env) fun _ _ _ _ h => h.resume _ _ _ _

/-- `shared.quotas` gets to know a flow. -/
theorem quotas_of_exec (s : State) (env : Env) (op : Op)
    (h : (s.exec env op).1.quotas id = true) :
    s.quotas id = true ∨ ∃ quota, op = .tables (.insertQuota id quota) := by
  have hexec := execs s env op
  generalize (s.exec env op).1 = s' at hexec h
  cases hexec with
  | tables op =>
    cases op with
    | insertQuota id' quota =>
      have h : update s.quotas id' true id = true := h
      by_cases hid : id = id'
      · exact .inr ⟨quota, by rw [hid]⟩
      · exact .inl (by rwa [Function.update_of_ne hid] at h)
    | _ => exact .inl h
  | _ => exact .inl h

/-- An operation brings a flow to life when it registers it. -/
theorem wasLive_of_exec (hs : Consistent False s) (env : Env) {op : Op}
    (h : (s.exec env op).1.WasLive id) : s.WasLive id ∨ op = .tables (.register id) := by
  obtain ⟨hexited, hdir⟩ := exec_directory s env op
  rcases h.2 with hd | he
  · rcases hdir with hdir | ⟨id', rfl, hdir⟩
    · rw [hdir] at hd
      exact .inl ⟨hs.directory id hd, .inl hd⟩
    · by_cases hid : id = id'
      · exact .inr (hid ▸ rfl)
      · rw [hdir, Function.update_of_ne hid] at hd
        exact .inl ⟨hs.directory id hd, .inl hd⟩
  · unfold State.Exited at he
    rw [hexited] at he
    exact .inl ⟨hs.exited id he, .inr he⟩

/-! ## Top-ups -/

/-- The top-up of a flow that `shared.quotas` knows. -/
def toppedBy (s : State) : Op → List (FlowId × ℤ)
  | .topUpCpu target extra => if s.quotas target then [(target, extra.toInt)] else []
  | _ => []

theorem toppedBy_of_ne {op : Op} (h : ∀ target extra, op ≠ .topUpCpu target extra) :
    toppedBy s op = [] := by
  cases op with
  | topUpCpu target extra => exact absurd rfl (h target extra)
  | _ => rfl

/-- The top-up that a step brings. -/
def toppedUp (s : State) : ℕ × Input → List (FlowId × ℤ)
  | (t, .code _) => (s.modes t).op.elim [] (toppedBy s)
  | _ => []

/-- A top-up is not negative, and what it leads to is an `i64`. -/
def InRange (s : State) (ti : ℕ × Input) : Prop :=
  ∀ top ∈ toppedUp s ti, 0 ≤ top.2 ∧ s.left top.1 + top.2 < 2 ^ 63

instance (s : State) (ti : ℕ × Input) : Decidable (InRange s ti) :=
  inferInstanceAs (Decidable (∀ top ∈ toppedUp s ti, _))

/-! ## Accounts -/

/-- The instructions of a slice that were executed and are not charged yet. -/
def Mode.ran : Mode → ℕ
  | .slice ran _ => ran
  | .charge ran _ => ran
  | _ => 0

/-- The rest of the slice is paid for. -/
def Mode.Affordable (left : ℤ) : Mode → Prop
  | .slice ran more => ran + more ≤ left
  | .charge ran _ => ran ≤ left
  | _ => True

theorem Mode.Affordable.mono {mode : Mode} {left left' : ℤ} (h : mode.Affordable left)
    (hle : left ≤ left') : mode.Affordable left' := by
  cases mode with
  | slice ran more => exact le_trans h hle
  | charge ran result => exact le_trans h hle
  | _ => trivial

/-- What a flow has executed and is not charged yet. -/
inductive Uncharged (s : State) (id : FlowId) : ℕ → Prop
  | driven {t : ℕ} (hrun : s.driven t = some id) : Uncharged s id (s.modes t).ran
  | idle (hrun : ∀ t, s.driven t ≠ some id) : Uncharged s id 0

/-- The flow was built. -/
def Born (s : State) (hands : ℕ → Hand) (id : FlowId) : Prop :=
  s.WasLive id ∨ ∃ t, (hands t).box = .built id

/-- **The accounts.** `tops` are the top-ups so far. -/
structure Accounts (c : Config) (s : State) (hands : ℕ → Hand) (tops : List (FlowId × ℤ)) :
    Prop where
  balance : ∀ id, Born s hands id → ∀ n, Uncharged s id n →
    s.left id + s.executed id = c.quota.cpuBudget.toInt + Ledger.total tops id + n
  spent : ∀ id, Born s hands id → 0 ≤ s.left id ∨ s.executed id = 0
  affordable : ∀ t id, s.driven t = some id → (s.modes t).Affordable (s.left id)
  unborn : ∀ id, ¬s.WasLive id → s.quotas id = false ∧ Ledger.total tops id = 0
  allocated : ∀ t id, (hands t).box = .allocated id → ¬s.WasLive id
  built : ∀ t id, (hands t).box = .built id → ¬s.WasLive id
  registered : ∀ t id, (hands t).box = .registered id → s.WasLive id

theorem Uncharged.congr {n : ℕ} (hn : Uncharged s' id n) (hdriven : ∀ r, s'.driven r = s.driven r)
    (hran : ∀ r, (s'.modes r).ran = (s.modes r).ran) : Uncharged s id n := by
  cases hn with
  | driven hrun =>
    rw [hran]
    exact .driven (hdriven _ ▸ hrun)
  | idle hrun => exact .idle fun r hr => hrun r ((hdriven r).trans hr)

/-- A thread that is in no slice takes a flow, or puts it down. -/
theorem Uncharged.of_step {n : ℕ} (hn : Uncharged s' id n) (h' : Handled c s' hands')
    (hmodes : ∀ r, r ≠ t → s'.modes r = s.modes r) (hdriven : ∀ r, r ≠ t → s'.driven r = s.driven r)
    (hran : (s.modes t).ran = 0) (hran' : (s'.modes t).ran = 0) : Uncharged s id n := by
  -- nobody but the thread drives the flow before
  have hzero (hothers : ∀ r, r ≠ t → s.driven r ≠ some id) : Uncharged s id 0 := by
    by_cases ht : s.driven t = some id
    · rw [← hran]
      exact .driven ht
    · refine .idle fun r hr => ?_
      by_cases hrt : r = t
      · exact ht (hrt ▸ hr)
      · exact hothers r hrt hr
  cases hn with
  | @driven r hrun =>
    by_cases hrt : r = t
    · subst hrt
      rw [hran']
      refine hzero fun r' hne hr' => hne ?_
      exact h'.driven_unique ((hdriven r' hne).trans hr') hrun
    · rw [hmodes r hrt]
      exact .driven (hdriven r hrt ▸ hrun)
  | idle hrun => exact hzero fun r hne hr => hrun r ((hdriven r hne).trans hr)

namespace Accounts

/-- Nobody is billed, and nobody comes to life. -/
theorem calm (h : Accounts c s hands tops) (hcalm : Calm s s')
    (hgrows : ∀ id, s.WasLive id → s'.WasLive id)
    (hhands : ∀ r, (hands' r).box = (hands r).box ∨ ∀ id, (hands' r).box ≠ .built id ∧
      ((hands' r).box = .registered id → s.WasLive id) ∧
      ((hands' r).box = .allocated id → ¬s.WasLive id))
    (hcharge : ∀ id n, Uncharged s' id n → Uncharged s id n)
    (haffordable : ∀ r id, s'.driven r = some id → (s'.modes r).Affordable (s.left id)) :
    Accounts c s' hands' tops := by
  obtain ⟨hbills, hquotas, hlive⟩ := hcalm
  have hleft (id : FlowId) : s'.left id = s.left id := congrArg (·.1.toInt) (hbills id)
  have hexecuted (id : FlowId) : s'.executed id = s.executed id := congrArg (·.2) (hbills id)
  have hbuilt {r : ℕ} {id : FlowId} (hbox : (hands' r).box = .built id) :
      (hands r).box = .built id := by
    rcases hhands r with he | hne
    · rwa [he] at hbox
    · exact absurd hbox (hne id).1
  have hborn {id : FlowId} (hid : Born s' hands' id) : Born s hands id :=
    hid.imp (hlive id) fun ⟨r, hbox⟩ => ⟨r, hbuilt hbox⟩
  refine ⟨fun id hid n hn => ?_, fun id hid => ?_, fun r id hrun => ?_, fun id hid => ?_,
    fun r id hbox hid => ?_, fun r id hbox hid => ?_, fun r id hbox => ?_⟩
  · rw [hleft, hexecuted]
    exact h.balance id (hborn hid) n (hcharge id n hn)
  · rw [hleft, hexecuted]
    exact h.spent id (hborn hid)
  · rw [hleft]
    exact haffordable r id hrun
  · have hnot : ¬s.WasLive id := fun hl => hid (hgrows id hl)
    obtain ⟨hq, hg⟩ := h.unborn id hnot
    refine ⟨Bool.eq_false_iff.mpr fun hq' => ?_, hg⟩
    rw [(hquotas id hq').resolve_right hnot] at hq
    cases hq
  · rcases hhands r with he | hne
    · rw [he] at hbox
      exact h.allocated r id hbox (hlive id hid)
    · exact (hne id).2.2 hbox (hlive id hid)
  · exact h.built r id (hbuilt hbox) (hlive id hid)
  · rcases hhands r with he | hne
    · rw [he] at hbox
      exact hgrows id (h.registered r id hbox)
    · exact hgrows id ((hne id).2.1 hbox)

/-- A flow box is put in its place. -/
theorem place (h : Accounts c s hands tops) (hh : Handled c s hands) {process : Process}
    (hbox : (hands t).box = .allocated id) (hnew : Hand.New c process) :
    Accounts c (s.setProcess id process)
      (update hands t { hands t with box := .built id }) tops := by
  have hnot := h.allocated t id hbox
  have hid : (hands t).box.id = some id := by rw [hbox]; rfl
  have hleft : (s.setProcess id process).left id = c.quota.cpuBudget.toInt :=
    left_setProcess.trans (congrArg _ hnew.budget)
  have hexecuted : (s.setProcess id process).executed id = 0 :=
    executed_setProcess.trans hnew.executed
  have hborn {id' : FlowId} (hne : id' ≠ id)
      (hb : Born (s.setProcess id process) (update hands t { hands t with box := .built id }) id') :
      Born s hands id' := by
    rcases hb with hl | ⟨r, hr⟩
    · exact .inl hl
    · refine .inr ⟨r, ?_⟩
      by_cases hrt : r = t
      · subst hrt
        rw [Function.update_self] at hr
        cases hr
        exact absurd rfl hne
      · rwa [Function.update_of_ne hrt] at hr
  refine ⟨fun id' hb n hn => ?_, fun id' hb => ?_, fun r id' hrun => ?_, h.unborn,
    fun r id' hr => ?_, fun r id' hr => ?_, fun r id' hr => ?_⟩
  · by_cases hne : id' = id
    · subst hne
      -- nobody drives it yet
      have hn : n = 0 := by
        cases hn with
        | driven hrun => exact absurd hrun (hh.not_driven hid _)
        | idle hrun => rfl
      rw [hleft, hexecuted, (h.unborn id' hnot).2, hn]
      simp
    · rw [left_setProcess_of_ne hne, executed_setProcess_of_ne hne]
      exact h.balance id' (hborn hne hb) n (hn.congr (fun _ => rfl) fun _ => rfl)
  · by_cases hne : id' = id
    · exact .inr (hne ▸ hexecuted)
    · rw [left_setProcess_of_ne hne, executed_setProcess_of_ne hne]
      exact h.spent id' (hborn hne hb)
  · have hne : id' ≠ id := fun he => hh.not_driven hid r (he ▸ hrun)
    rw [left_setProcess_of_ne hne]
    exact h.affordable r id' hrun
  · by_cases hrt : r = t
    · subst hrt
      rw [Function.update_self] at hr
      cases hr
    · rw [Function.update_of_ne hrt] at hr
      exact h.allocated r id' hr
  · by_cases hrt : r = t
    · subst hrt
      rw [Function.update_self] at hr
      cases hr
      exact hnot
    · rw [Function.update_of_ne hrt] at hr
      exact h.built r id' hr
  · by_cases hrt : r = t
    · subst hrt
      rw [Function.update_self] at hr
      cases hr
    · rw [Function.update_of_ne hrt] at hr
      exact h.registered r id' hr

/-- A flow comes to life. -/
theorem register (h : Accounts c s hands tops) (hh : Handled c s hands) (hs : Consistent False s)
    (env : Env) (hbox : (hands t).box = .built id) :
    Accounts c (s.exec env (.tables (.register id))).1
      (update hands t { hands t with box := .registered id }) tops := by
  have hid : (hands t).box.id = some id := by rw [hbox]; rfl
  have hlive {id' : FlowId} (hne : id' ≠ id)
      (hl : (s.exec env (.tables (.register id))).1.WasLive id') : s.WasLive id' := by
    refine (wasLive_of_exec hs env hl).resolve_right fun he => hne ?_
    cases he
    rfl
  have hgrows {id' : FlowId} (hl : s.WasLive id') :
      (s.exec env (.tables (.register id))).1.WasLive id' := by
    refine ⟨hl.1, hl.2.imp_left fun hd => ?_⟩
    show update s.machine.shared.directory id true id' = true
    by_cases hne : id' = id
    · rw [hne, Function.update_self]
    · rwa [Function.update_of_ne hne]
  have hhand {r : ℕ} {box : Box} {id' : FlowId}
      (hr : (update hands t { hands t with box := .registered id } r).box = box)
      (hbid : box.id = some id') (hne : box ≠ .registered id) :
      id' ≠ id ∧ (hands r).box = box := by
    by_cases hrt : r = t
    · subst hrt
      rw [Function.update_self] at hr
      exact absurd hr.symm hne
    · rw [Function.update_of_ne hrt] at hr
      refine ⟨fun he => hrt ?_, hr⟩
      exact hh.hand_unique (by rw [hr, hbid, he]) hid
  have hborn {id' : FlowId}
      (hb : Born (s.exec env (.tables (.register id))).1
        (update hands t { hands t with box := .registered id }) id') : Born s hands id' := by
    by_cases hne : id' = id
    · exact .inr ⟨t, hne ▸ hbox⟩
    · rcases hb with hl | ⟨r, hr⟩
      · exact .inl (hlive hne hl)
      · exact .inr ⟨r, (hhand hr rfl nofun).2⟩
  refine ⟨fun id' hb n hn => ?_, fun id' hb => ?_, h.affordable, fun id' hid' => ?_,
    fun r id' hr hl => ?_, fun r id' hr hl => ?_, fun r id' hr => ?_⟩
  · exact h.balance id' (hborn hb) n (hn.congr (fun _ => rfl) fun _ => rfl)
  · exact h.spent id' (hborn hb)
  · exact h.unborn id' fun hl => hid' (hgrows hl)
  · obtain ⟨hne, hr⟩ := hhand hr rfl nofun
    exact h.allocated r id' hr (hlive hne hl)
  · obtain ⟨hne, hr⟩ := hhand hr rfl nofun
    exact h.built r id' hr (hlive hne hl)
  · by_cases hne : id' = id
    · subst hne
      refine ⟨(hh.spawned (.inr t) id' (Multiset.mem_coe.mpr (Option.mem_toList.mpr hid))).2,
        .inl ?_⟩
      exact Function.update_self ..
    · exact hgrows (h.registered r id' (hhand hr rfl fun he => hne (by cases he; rfl)).2)

/-- A flow gets instructions. -/
theorem topUp (h : Accounts c s hands tops) {extra : Int64} (hq : s.quotas id = true)
    (hextra : 0 ≤ extra.toInt) (hrange : s.left id + extra.toInt < 2 ^ 63) :
    Accounts c
      (s.setProcess id ((s.processes id).withQuota ((s.processes id).quota.topUpCpu extra)))
      hands (tops ++ [(id, extra.toInt)]) := by
  have hlive : s.WasLive id := by
    by_contra hnot
    rw [(h.unborn id hnot).1] at hq
    cases hq
  have hleft : State.left (s.setProcess id
      ((s.processes id).withQuota ((s.processes id).quota.topUpCpu extra))) id =
        s.left id + extra.toInt :=
    left_setProcess.trans (FlowQuota.topUpCpu_toInt hextra hrange)
  have hexecuted : State.executed (s.setProcess id
      ((s.processes id).withQuota ((s.processes id).quota.topUpCpu extra))) id = s.executed id :=
    executed_setProcess
  refine ⟨fun id' hb n hn => ?_, fun id' hb => ?_, fun r id' hrun => ?_, fun id' hid' => ?_,
    h.allocated, h.built, h.registered⟩
  · have hbalance := h.balance id' hb n (hn.congr (fun _ => rfl) fun _ => rfl)
    rw [Ledger.total_append]
    by_cases hne : id' = id
    · subst hne
      rw [hleft, hexecuted, Ledger.total_single_self]
      omega
    · rw [left_setProcess_of_ne hne, executed_setProcess_of_ne hne, Ledger.total_single_of_ne hne]
      omega
  · by_cases hne : id' = id
    · subst hne
      rw [hleft, hexecuted]
      exact (h.spent id' hb).imp_left fun hl => by omega
    · rw [left_setProcess_of_ne hne, executed_setProcess_of_ne hne]
      exact h.spent id' hb
  · by_cases hne : id' = id
    · subst hne
      rw [hleft]
      exact (h.affordable r id' hrun).mono (by omega)
    · rw [left_setProcess_of_ne hne]
      exact h.affordable r id' hrun
  · obtain ⟨hquota, htotal⟩ := h.unborn id' hid'
    have hne : id' ≠ id := fun he => hid' (he ▸ hlive)
    exact ⟨hquota, by rw [Ledger.total_append, htotal, Ledger.total_single_of_ne hne, add_zero]⟩

/-- An operation of a program. -/
theorem exec (h : Accounts c s hands tops) (hh : Handled c s hands) (hs : Consistent False s)
    {self : Option FlowId} {env : Env} {op : Op} (hop : (hands t).Allows c self op)
    (hgrows : ∀ id, s.WasLive id → (s.exec env op).1.WasLive id)
    (hrange : ∀ top ∈ toppedBy s op, 0 ≤ top.2 ∧ s.left top.1 + top.2 < 2 ^ 63) :
    Accounts c (s.exec env op).1 (update hands t ((hands t).next op (s.exec env op).2))
      (tops ++ toppedBy s op) := by
  obtain ⟨hthreads, -, -, hmodes⟩ := exec_frame s env op
  have hdriven (r : ℕ) : (s.exec env op).1.driven r = s.driven r :=
    State.driven_congr (by rw [hthreads])
  have hcalm (hbills : SameBills s (s.exec env op).1)
      (hquota : ∀ id quota, op = .tables (.insertQuota id quota) → s.WasLive id)
      (hregister : ∀ id, op ≠ .tables (.register id))
      (hbox : ((hands t).next op (s.exec env op).2).box = (hands t).box ∨ ∀ id,
        ((hands t).next op (s.exec env op).2).box ≠ .built id ∧
        (((hands t).next op (s.exec env op).2).box = .registered id → s.WasLive id) ∧
        (((hands t).next op (s.exec env op).2).box = .allocated id → ¬s.WasLive id)) :
      Accounts c (s.exec env op).1 (update hands t ((hands t).next op (s.exec env op).2)) tops := by
    refine h.calm ⟨hbills, fun id hq => (quotas_of_exec s env op hq).imp_right fun ⟨quota, he⟩ =>
      hquota id quota he, fun id hl => (wasLive_of_exec hs env hl).resolve_right (hregister id)⟩
      hgrows (fun r => ?_) (fun id n hn => hn.congr hdriven fun r => by rw [hmodes])
        fun r id hrun => ?_
    · by_cases hr : r = t
      · subst hr
        rwa [Function.update_self]
      · exact .inl (by rw [Function.update_of_ne hr])
    · rw [hmodes]
      exact h.affordable r id (hdriven r ▸ hrun)
  have hnone (hne : ∀ target extra, op ≠ .topUpCpu target extra) :
      tops ++ toppedBy s op = tops := by
    rw [toppedBy_of_ne hne, List.append_nil]
  cases op with
  | tables op =>
    rw [hnone (by rintro _ _ ⟨⟩)]
    cases op with
    | register id => exact h.register hh hs env hop
    | nextFlowId => exact hop.elim
    | inject id =>
      refine hcalm (.refl s) (by rintro _ _ ⟨⟩) (by rintro _ ⟨⟩) (.inr fun _ => ?_)
      exact ⟨by rintro ⟨⟩, by rintro ⟨⟩, by rintro ⟨⟩⟩
    | insertQuota id quota =>
      refine hcalm (.refl s) (fun id' quota' he => ?_) (by rintro _ ⟨⟩) (.inl rfl)
      cases he
      exact h.registered t id hop
    | _ => exact hcalm (.refl s) (by rintro _ _ ⟨⟩) (by rintro _ ⟨⟩) (.inl rfl)
  | allocate origin =>
    rw [hnone (by rintro _ _ ⟨⟩)]
    refine hcalm (.refl s) (by rintro _ _ ⟨⟩) (by rintro _ ⟨⟩)
      (.inr fun id => ⟨by rintro ⟨⟩, by rintro ⟨⟩, fun he hl => ?_⟩)
    cases he
    exact absurd hl.1 (Nat.lt_irrefl _)
  | place id process =>
    rw [hnone (by rintro _ _ ⟨⟩)]
    exact h.place hh hop.1 hop.2
  | topUpCpu target extra =>
    simp only [Hand.next, Function.update_eq_self, State.exec, State.topUp]
    simp only [toppedBy] at hrange ⊢
    split_ifs with hq
    · rw [if_pos hq] at hrange
      obtain ⟨hextra, hlt⟩ := hrange _ List.mem_cons_self
      exact h.topUp hq hextra hlt
    · rwa [List.append_nil]
  | alloc flow bytes =>
    rw [hnone (by rintro _ _ ⟨⟩)]
    refine hcalm (sameBills_exec s env (by rintro _ _ ⟨⟩) (by rintro _ _ ⟨⟩)) (by rintro _ _ ⟨⟩)
      (by rintro _ ⟨⟩) (.inl ?_)
    generalize (s.exec env (.alloc flow bytes)).2 = r
    cases r <;> rfl
  | _ =>
    rw [hnone (by rintro _ _ ⟨⟩)]
    exact hcalm (sameBills_exec s env (by rintro _ _ ⟨⟩) (by rintro _ _ ⟨⟩)) (by rintro _ _ ⟨⟩)
      (by rintro _ ⟨⟩) (.inl rfl)

/-- The thread that drives a flow bills it. -/
theorem bills (h : Accounts c s hands tops) (hh : Handled c s hands) (hrun : s.driven t = some id)
    {p : Process} {mode : Mode} (hmachine : s'.machine = s.machine)
    (hexited : s'.log.exited = s.log.exited) (hquotas : s'.quotas = s.quotas)
    (hprocesses : s'.processes = update s.processes id p)
    (hmodes : s'.modes = update s.modes t mode)
    (hbalance : p.bill.1.toInt + p.bill.2 + (s.modes t).ran =
      s.left id + s.executed id + mode.ran)
    (hspent : 0 ≤ p.bill.1.toInt ∨ p.bill.2 = 0) (haffordable : mode.Affordable p.bill.1.toInt) :
    Accounts c s' hands tops := by
  have hdriven (r : ℕ) : s'.driven r = s.driven r := State.driven_congr (by rw [hmachine])
  have hlive {id' : FlowId} : s'.WasLive id' ↔ s.WasLive id' := by
    simp only [State.WasLive, State.Allocated, State.Exited, hmachine, hexited]
  have hself : s'.left id = p.bill.1.toInt ∧ s'.executed id = p.bill.2 := by
    simp only [State.left, State.executed, hprocesses, Function.update_self, and_self]
  have hother {id' : FlowId} (hne : id' ≠ id) :
      s'.left id' = s.left id' ∧ s'.executed id' = s.executed id' := by
    simp only [State.left, State.executed, hprocesses, Function.update_of_ne hne, and_self]
  have hborn {id' : FlowId} (hb : Born s' hands id') : Born s hands id' := hb.imp_left hlive.mp
  refine ⟨fun id' hb n hn => ?_, fun id' hb => ?_, fun r id' hr => ?_, fun id' hid' => ?_,
    fun r id' hr hl => h.allocated r id' hr (hlive.mp hl),
    fun r id' hr hl => h.built r id' hr (hlive.mp hl),
    fun r id' hr => hlive.mpr (h.registered r id' hr)⟩
  · by_cases hne : id' = id
    · subst hne
      have hn : n = mode.ran := by
        cases hn with
        | @driven r hr =>
          obtain rfl := hh.driven_unique hrun ((hdriven r).symm.trans hr)
          rw [hmodes, Function.update_self]
        | idle hr => exact absurd ((hdriven t).trans hrun) (hr t)
      rw [hself.1, hself.2, hn]
      have hbefore := h.balance id' (hborn hb) _ (.driven hrun)
      omega
    · rw [(hother hne).1, (hother hne).2]
      refine h.balance id' (hborn hb) n ?_
      cases hn with
      | @driven r hr =>
        have hr := (hdriven r).symm.trans hr
        have hrt : r ≠ t := by
          rintro rfl
          exact hne (Option.some_inj.mp (hr.symm.trans hrun))
        rw [hmodes, Function.update_of_ne hrt]
        exact .driven hr
      | idle hr => exact .idle fun r hr' => hr r ((hdriven r).trans hr')
  · by_cases hne : id' = id
    · subst hne
      rw [hself.1, hself.2]
      exact hspent
    · rw [(hother hne).1, (hother hne).2]
      exact h.spent id' (hborn hb)
  · have hr := (hdriven r).symm.trans hr
    by_cases hrt : r = t
    · subst hrt
      obtain rfl := Option.some_inj.mp (hr.symm.trans hrun)
      rw [hmodes, Function.update_self, hself.1]
      exact haffordable
    · have hne : id' ≠ id := fun he => hrt (hh.driven_unique hr (he ▸ hrun))
      rw [hmodes, Function.update_of_ne hrt, (hother hne).1]
      exact h.affordable r id' hr
  · rw [hquotas]
    exact h.unborn id' fun hl => hid' (hlive.mpr hl)

/-- One instruction. -/
theorem execute (h : Accounts c s hands tops) (hh : Handled c s hands) {env : Env} {ran left : ℕ}
    (hrun : s.driven t = some id) (hmode : s.modes t = .slice ran (left + 1)) :
    Accounts c (s.execute t env id ran left) hands tops := by
  obtain ⟨mode, hkind, hmodes⟩ := s.execute_modes t env id ran left
  obtain ⟨hcpu, hexecuted⟩ := Vm.step_cpu (s.host env) (s.processes id).vm
  have hroom := h.affordable t id hrun
  rw [hmode] at hroom
  have hroom : (ran : ℤ) + (left + 1 : ℕ) ≤ s.left id := hroom
  have hbill : Process.bill
      { s.processes id with vm := ((s.processes id).vm.step (s.host env)).2 } =
      ((s.processes id).bill.1, (s.processes id).bill.2 + 1) := by
    rw [Process.bill_eq, Process.bill_eq, hcpu, hexecuted]
  have hfields : (s.execute t env id ran left).machine = s.machine ∧
      (s.execute t env id ran left).log.exited = s.log.exited ∧
      (s.execute t env id ran left).quotas = s.quotas ∧
      (s.execute t env id ran left).processes = update s.processes id
        { s.processes id with vm := ((s.processes id).vm.step (s.host env)).2 } := by
    unfold State.execute
    dsimp only
    split <;> exact ⟨rfl, rfl, rfl, rfl⟩
  obtain ⟨hmachine, hexited, hquotas, hprocesses⟩ := hfields
  refine h.bills hh hrun hmachine hexited hquotas hprocesses hmodes ?_ (.inl ?_) ?_ <;> rw [hbill]
  · have hran : mode.ran = ran + 1 := by rcases hkind with rfl | ⟨result, rfl⟩ <;> rfl
    rw [hmode, hran]
    simp only [Mode.ran, State.left, State.executed]
    omega
  · exact le_trans (by omega) hroom
  · rcases hkind with rfl | ⟨result, rfl⟩
    · exact le_trans (by push_cast; omega) hroom
    · exact le_trans (by push_cast; omega) hroom

/-- A slice is charged. -/
theorem account (h : Accounts c s hands tops) (hh : Handled c s hands) {ran : ℕ} {result : VmResult}
    {quota : FlowQuota} {p : Prog Op.Result Outcome} (hrun : s.driven t = some id)
    (hmode : s.modes t = .charge ran result)
    (hquota : (s.processes id).quota.chargeCpu (Int64.ofNat ran) = .ok quota) :
    Accounts c ((s.setProcess id ((s.processes id).withQuota quota)).setMode t (.effect result p))
      hands tops := by
  have hroom := h.affordable t id hrun
  rw [hmode] at hroom
  have hroom : (ran : ℤ) ≤ s.left id := hroom
  obtain ⟨quota', hquota', hleft⟩ := FlowQuota.chargeCpu_of_le hroom
  rw [hquota] at hquota'
  cases hquota'
  have hleft : ((s.processes id).withQuota quota).bill.1.toInt = s.left id - ran := hleft
  refine h.bills hh hrun rfl rfl rfl rfl rfl ?_ (.inl ?_) trivial
  · have hexecuted : ((s.processes id).withQuota quota).bill.2 = s.executed id := rfl
    rw [hmode, hleft, hexecuted]
    simp only [Mode.ran]
    omega
  · rw [hleft]
    omega

/-- A thread turns to another point of its code. -/
theorem turns (h : Accounts c s hands tops) {mode : Mode} (hbills : SameBills s s')
    (hmachine : s'.machine = s.machine) (hexited : s'.log.exited = s.log.exited)
    (hquotas : s'.quotas = s.quotas) (hmodes : s'.modes = update s.modes t mode)
    (hran : mode.ran = (s.modes t).ran)
    (haffordable : ∀ id, s.driven t = some id → mode.Affordable (s.left id))
    (hhands : hands' = hands ∨ hands' = update hands t .empty) : Accounts c s' hands' tops := by
  have hdriven (r : ℕ) : s'.driven r = s.driven r := State.driven_congr (by rw [hmachine])
  have hlive {id' : FlowId} : s'.WasLive id' ↔ s.WasLive id' := by
    simp only [State.WasLive, State.Allocated, State.Exited, hmachine, hexited]
  refine h.calm ⟨hbills, fun id hq => .inl (hquotas ▸ hq), fun id => hlive.mp⟩
    (fun id => hlive.mpr) (fun r => ?_) (fun id n hn => hn.congr hdriven fun r => ?_)
    fun r id hr => ?_
  · rcases hhands with rfl | rfl
    · exact .inl rfl
    · by_cases hrt : r = t
      · subst hrt
        rw [Function.update_self]
        exact .inr fun _ => ⟨nofun, nofun, nofun⟩
      · exact .inl (by rw [Function.update_of_ne hrt])
  · by_cases hrt : r = t
    · rw [hrt, hmodes, Function.update_self, hran]
    · rw [hmodes, Function.update_of_ne hrt]
  · have hr := (hdriven r).symm.trans hr
    by_cases hrt : r = t
    · subst hrt
      rw [hmodes, Function.update_self]
      exact haffordable id hr
    · rw [hmodes, Function.update_of_ne hrt]
      exact h.affordable r id hr

/-- The machine goes on for a thread that is in no slice. -/
theorem moves (h : Accounts c s hands tops) (hh' : Handled c s' hands')
    (hc : Continues c False t s s') (hcalm : Calm s s') (hran : (s.modes t).ran = 0)
    (hmode : s'.modes t = .idle) (hhands : hands' = hands ∨ hands' = update hands t .empty) :
    Accounts c s' hands' tops := by
  have hdriven (r : ℕ) (hr : r ≠ t) : s'.driven r = s.driven r :=
    State.driven_congr (hc.threads r hr)
  refine h.calm hcalm hc.grows.wasLive (fun r => ?_)
    (fun id n hn => hn.of_step hh' hc.modes hdriven hran (by rw [hmode]; rfl)) fun r id hr => ?_
  · rcases hhands with rfl | rfl
    · exact .inl rfl
    · by_cases hrt : r = t
      · subst hrt
        rw [Function.update_self]
        exact .inr fun _ => ⟨nofun, nofun, nofun⟩
      · exact .inl (by rw [Function.update_of_ne hrt])
  · by_cases hrt : r = t
    · rw [hrt, hmode]
      trivial
    · rw [hc.modes r hrt]
      exact h.affordable r id ((hdriven r hrt).symm.trans hr)

theorem goOn (h : Accounts c s hands tops) (hh : Handled c s hands) (hs : Sound c False s)
    (hmode : s.modes t = .idle) (hrun : s.driven t = some id) {vm : Machine.VmResult}
    (hvm : vm.Awaits s.WasLive ∧ vm ≠ .spawn) (env : Env) (destReg : Option UInt8) :
    Accounts c (s.goOn t env destReg vm) hands tops := by
  have hmodes : (s.goOn t env destReg vm).modes = s.modes :=
    goOn_induct (P := fun s' => s'.modes = s.modes) (s.advance_modes t _ env) fun _ _ _ _ h => h
  exact h.moves (hh.goOn hmode env destReg vm) (goOn_continues hs hmode env destReg hrun hvm)
    (calm_goOn (permitted_vm hrun hvm) hs.tracked hs.consistent env destReg) (by rw [hmode]; rfl)
    (by rw [hmodes, hmode]) (.inl rfl)

theorem toppedUp_stay (hh : Handled c s hands) {ti : ℕ × Input}
    (hcode : ∀ env, ti.2 = .code env →
      (s.driven ti.1 = none ↔ ∀ call p, s.modes ti.1 ≠ .call call p)) : toppedUp s ti = [] := by
  obtain ⟨t, input⟩ := ti
  cases input with
  | code env =>
    simp only [toppedUp, hh.op_none_of_stay (hcode env rfl), Option.elim]
  | _ => rfl

/-- **A step.** -/
theorem step (h : Accounts c s hands tops) (hh : Handled c s hands) (hr : Running c False s)
    (ti : ℕ × Input) (hrange : InRange s ti) :
    Accounts c (Worker.step c s ti) (handed s hands ti) (tops ++ toppedUp s ti) := by
  have hc := hr.step_continues ti False.elim
  have hh' := hh.step hr ti
  have hgoing := hr.going
  obtain ⟨hs, ht, -⟩ := hr.sound
  have hstep := stepped c s ti
  generalize Worker.step c s ti = s' at hstep hc hh' ⊢
  cases hstep with
  | stay ti hcode =>
    rw [hh.handed_stay hcode, toppedUp_stay hh hcode, List.append_nil]
    exact h
  | advance t input env hmode hrun hstart =>
    have hp : Permitted s t input := by
      refine ⟨fun flow rest result htop _ => ?_, hstart⟩
      rw [State.driven_of_top (State.top_of_cons htop)] at hrun
      cases hrun
    show Accounts c _ hands (tops ++ [])
    rw [List.append_nil]
    exact h.moves hh' hc (calm_advance hp ht hs env) (by rw [hmode]; rfl)
      (by rw [State.advance_modes, hmode]) (.inl rfl)
  | round t env id hrun hmode hbudget =>
    obtain ⟨hremaining, hpos⟩ := FlowQuota.remainingCpu_of_pos hbudget
    simp only [handed, toppedUp, hmode, Mode.op, Option.elim, List.append_nil]
    refine h.turns (.refl s) rfl rfl rfl rfl (by rw [hmode]; rfl) (fun id' hid' => ?_) (.inl rfl)
    obtain rfl := Option.some_inj.mp (hid'.symm.trans hrun)
    -- no more than what remains
    have hshare : (s.share c id' : ℤ) ≤ s.left id' := by
      have hle : s.share c id' ≤ (s.processes id').quota.remainingCpu.toInt.toNat :=
        Nat.min_le_right ..
      rw [hremaining] at hle
      have hleft : s.left id' = (s.processes id').quota.cpuBudget.toInt := rfl
      omega
    simpa [Mode.Affordable] using hshare
  | fail t env id message hrun hfail =>
    have hidle : s.modes t = .idle := by
      refine hfail.resolve_right ?_
      rintro ⟨ran, result, e, hmode, hcharge⟩
      -- the slice was paid for
      have hroom := h.affordable t id hrun
      rw [hmode] at hroom
      obtain ⟨quota, hquota, -⟩ := FlowQuota.chargeCpu_of_le hroom
      rw [hcharge] at hquota
      cases hquota
    have hfits := hh.fits t
    rw [hidle] at hfits
    simp only [handed, toppedUp, hidle, Mode.op, Option.elim, List.append_nil]
    have hvm : (Machine.VmResult.trap message).Awaits (s.setMode t .idle).WasLive ∧
        Machine.VmResult.trap message ≠ .spawn := ⟨trivial, by simp⟩
    exact goOn (s := s.setMode t .idle) (h.turns (.refl s) rfl rfl rfl rfl (by rw [hidle])
      (fun _ _ => trivial) (.inl rfl)) (hh.turns_same (.of_eq rfl) rfl hfits)
      (leave_continues hr.sound).sound (Function.update_self ..) hrun hvm env none
  | expire t env id ran hrun hmode =>
    simp only [handed, toppedUp, hmode, Mode.op, Option.elim, List.append_nil]
    refine h.turns (.refl s) rfl rfl rfl rfl (by rw [hmode]; rfl) (fun id' hid' => ?_) (.inl rfl)
    have hroom := h.affordable t id' hid'
    rw [hmode] at hroom
    simpa [Mode.Affordable] using hroom
  | execute t env id ran left hrun hmode =>
    simp only [handed, toppedUp, hmode, Mode.op, Option.elim, List.append_nil]
    exact h.execute hh hrun hmode
  | account t env id ran result quota hrun hmode hquota =>
    simp only [handed, toppedUp, hmode, Mode.op, Option.elim, List.append_nil]
    exact h.account hh hrun hmode hquota
  | act t env id result op k hrun hmode =>
    have hfits := hh.fits t
    rw [hmode] at hfits
    obtain ⟨flow, -, hcarries⟩ := hfits
    have hrange : ∀ top ∈ toppedBy s op, 0 ≤ top.2 ∧ s.left top.1 + top.2 < 2 ^ 63 := by
      simpa only [InRange, toppedUp, hmode, Mode.op, Option.elim] using hrange
    simp only [handed, toppedUp, hmode, Mode.op, Option.elim]
    have hexec := h.exec hh hs (Prog.carries_act.mp hcarries).1 hc.grows.wasLive hrange
    have hmodes : (s.exec env op).1.modes t = .effect result (.act op k) :=
      (congrFun (exec_frame s env op).2.2.2 t).trans hmode
    exact hexec.turns (.refl _) rfl rfl rfl rfl (by rw [hmodes]; rfl) (fun _ _ => trivial)
      (.inl rfl)
  | resume t env id result destReg value hrun hmode =>
    simp only [handed, toppedUp, hmode, Mode.op, Option.elim, List.append_nil]
    exact h.turns (sameBills_resume (s.setMode t .idle) _ _ _ _) rfl rfl rfl rfl
      (by rw [hmode]; rfl) (fun _ _ => trivial) (.inr rfl)
  | goOn t env id result destReg vm hrun hmode =>
    have hanswer := hgoing t
    unfold Going at hanswer
    rw [hmode] at hanswer
    simp only [handed, toppedUp, hmode, Mode.op, Option.elim, List.append_nil]
    exact goOn (s := s.setMode t .idle) (h.turns (.refl s) rfl rfl rfl rfl (by rw [hmode]; rfl)
      (fun _ _ => trivial) (.inr rfl)) (hh.turns_idle t) (leave_continues hr.sound).sound
      (Function.update_self ..) hrun (hanswer id hrun).2.permitted env destReg
  | leave t env hmode =>
    rcases hmode with ⟨result, frames, hmode⟩ | ⟨call, outcome, hmode⟩ <;>
      simp only [handed, toppedUp, hmode, Mode.op, Option.elim, List.append_nil] <;>
      exact h.turns (.refl s) rfl rfl rfl rfl (by rw [hmode]; rfl) (fun _ _ => trivial) (.inr rfl)
  | begin t call hmode htop hcall =>
    show Accounts c _ hands (tops ++ [])
    rw [List.append_nil]
    exact h.turns (.refl s) rfl rfl rfl rfl (by rw [hmode]; rfl) (fun _ _ => trivial) (.inl rfl)
  | serve t env call op k hrun hmode =>
    have hfits := hh.fits t
    rw [hmode] at hfits
    obtain ⟨-, hcarries⟩ := hfits
    have hrange : ∀ top ∈ toppedBy s op, 0 ≤ top.2 ∧ s.left top.1 + top.2 < 2 ^ 63 := by
      simpa only [InRange, toppedUp, hmode, Mode.op, Option.elim] using hrange
    simp only [handed, toppedUp, hmode, Mode.op, Option.elim]
    have hexec := h.exec hh hs (Prog.carries_act.mp hcarries).1 hc.grows.wasLive hrange
    have hmodes : (s.exec env op).1.modes t = .call call (.act op k) :=
      (congrFun (exec_frame s env op).2.2.2 t).trans hmode
    exact hexec.turns (.refl _) rfl rfl rfl rfl (by rw [hmodes]; rfl) (fun _ _ => trivial)
      (.inl rfl)
  | enter t env call frames hrun hmode =>
    have hlive {id : FlowId} : (s.enter t frames).WasLive id ↔ s.WasLive id := Iff.rfl
    simp only [handed, toppedUp, hmode, Mode.op, Option.elim, List.append_nil] at hh' ⊢
    exact h.moves hh' hc ⟨.refl s, fun _ => .inl, fun _ => hlive.mp⟩ (by rw [hmode]; rfl)
      (Function.update_self ..) (.inr rfl)

end Accounts

theorem accounts_init (c : Config) : Accounts c (State.init c) (fun _ => .empty) [] where
  balance := fun _ hb => by
    rcases hb with ⟨-, hd | he⟩ | ⟨_, hb⟩
    · cases hd
    · cases he
    · cases hb
  spent := fun _ _ => .inr rfl
  affordable := fun _ _ _ => trivial
  unborn := fun _ _ => ⟨rfl, rfl⟩
  allocated := fun _ _ hb => by cases hb
  built := fun _ _ hb => by cases hb
  registered := fun _ _ hb => by cases hb

/-! ## Runs -/

/-- The top-ups of a run. -/
def topUps (c : Config) (sched : List (ℕ × Input)) : List (FlowId × ℤ) :=
  Schedule.trace (step c) toppedUp (State.init c) sched

theorem run_accounts {sched : List (ℕ × Input)}
    (h : Schedule.Guarded (step c) InRange (State.init c) sched) :
    ∃ hands, Handled c (run c sched) hands ∧
      Accounts c (run c sched) hands (topUps c sched) := by
  have hrun : Running c False (run c sched) ∧ ∃ hands, Handled c (run c sched) hands ∧
      Accounts c (run c sched) hands (topUps c sched) := by
    refine h.trace_invariant (I := fun s tops => Running c False s ∧ ∃ hands,
      Handled c s hands ∧ Accounts c s hands tops) ?_
      ⟨running_init c False, fun _ => .empty, handled_init c, accounts_init c⟩
    rintro s ti tops hrange ⟨hr, hands, hh, ha⟩
    exact ⟨hr.step ti False.elim, handed s hands ti, hh.step hr ti, ha.step hh hr ti hrange⟩
  exact hrun.2

/-- The budget of a flow is a limit, `sum` being all that it was granted. -/
structure Budgeted (s : State) (id : FlowId) (sum : ℤ) : Prop where
  /-- It executes no more, and nothing if that is negative. -/
  executed : s.executed id ≤ max 0 sum
  /-- What is left and what was executed add up, but for the slice in progress. -/
  left : ∀ n, Uncharged s id n → s.left id + s.executed id = sum + n
  /-- A slice can be charged. -/
  charge : ∀ t ran result, s.driven t = some id → s.modes t = .charge ran result →
    ∃ quota, (s.processes id).quota.chargeCpu (Int64.ofNat ran) = .ok quota

/-- **The CPU budget is a hard limit**, whatever the quantum is and whenever the top-ups come. -/
theorem cpu_accounted (c : Config) (sched : List (ℕ × Input))
    (h : Schedule.Guarded (step c) InRange (State.init c) sched) (id : FlowId)
    (hlive : (run c sched).WasLive id) :
    Budgeted (run c sched) id (c.quota.cpuBudget.toInt + Ledger.total (topUps c sched) id) := by
  obtain ⟨hands, hh, ha⟩ := run_accounts h
  have hbalance := ha.balance id (.inl hlive)
  refine ⟨?_, hbalance, fun t ran result hrun hmode => ?_⟩
  · have hspent := ha.spent id (.inl hlive)
    by_cases hdriven : ∃ t, (run c sched).driven t = some id
    · obtain ⟨t, hrun⟩ := hdriven
      have hsum := hbalance _ (.driven hrun)
      -- what is not charged yet is paid for
      have hran : (((run c sched).modes t).ran : ℤ) ≤ (run c sched).left id ∨
          ((run c sched).modes t).ran = 0 := by
        have hroom := ha.affordable t id hrun
        cases hmode : (run c sched).modes t with
        | slice ran more =>
          rw [hmode] at hroom
          have hroom : (ran : ℤ) + more ≤ (run c sched).left id := hroom
          exact .inl (show (ran : ℤ) ≤ _ by omega)
        | charge ran result =>
          rw [hmode] at hroom
          exact .inl hroom
        | _ => exact .inr rfl
      omega
    · push Not at hdriven
      have hsum := hbalance _ (.idle hdriven)
      omega
  · have hroom := ha.affordable t id hrun
    rw [hmode] at hroom
    obtain ⟨quota, hquota, -⟩ := FlowQuota.chargeCpu_of_le hroom
    exact ⟨quota, hquota⟩

/-! ## A flow that is topped up, and one that starts in debt -/

/-- The host tops up a flow, which executes `SelfPid` and `Jump`. -/
def driveTopUp : List (ℕ × Input) :=
  driveChunk selfPidLoop ++ (1, .call (.mintAdminCap 1)) :: codes 1 4 ⟨6⟩ ++
    (1, .call (.adminTopUpCpu 1 ⟨6⟩ 1 5)) :: codes 1 4 ⟨7⟩ ++ codes 0 12 ⟨8⟩

theorem cpu_accounted_topUp : Ledger.total (topUps quantumTwo driveTopUp) 1 = 5 ∧
    Budgeted (run quantumTwo driveTopUp) 1
      (quantumTwo.quota.cpuBudget.toInt + Ledger.total (topUps quantumTwo driveTopUp) 1) :=
  ⟨by decide, cpu_accounted quantumTwo driveTopUp (by decide) 1
    ⟨by unfold State.Allocated; decide, .inl (by decide)⟩⟩

/-- A budget below zero. -/
def inDebt : Config := { quantumTwo with quota := ⟨-1, 1000⟩ }

/-- A flow whose budget is below zero executes nothing, which is more; and in a slice, what is left
is not yet what was not executed. -/
theorem cpu_not_exact :
    inDebt.quota.cpuBudget.toInt < (run inDebt (driveChunk selfPidLoop)).executed 1 ∧
      (run quantumTwo (driveChunk selfPidLoop ++ codes 0 2 ⟨5⟩)).left 1 ≠
        quantumTwo.quota.cpuBudget.toInt -
          (run quantumTwo (driveChunk selfPidLoop ++ codes 0 2 ⟨5⟩)).executed 1 := by
  decide

end Worker

end Byteflow
