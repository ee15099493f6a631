import Byteflow.Scheduler.Machine.Holders
import Byteflow.Scheduler.Worker.Hand
import Byteflow.Scheduler.Worker.Sound

/-!
# Who holds a flow in a worker

A flow that a spawn makes is in the hand of its thread until the thread hands it over; from then on
the machine holds it. Nobody copies it in between, so two threads never drive one flow
(`Handled.driven_unique`), and each program pays for its own hop only.
-/

namespace Byteflow

namespace Worker

open Function (update)
open Ownership

variable {c : Config} {s s' : State} {hands : ℕ → Hand} {t : ℕ}

/-- The flow in a hand. -/
def Box.flows (box : Box) : Multiset FlowId := ↑box.id.toList

/-- The flows in the places of the machine, and those in the hands of the threads. -/
def State.held (s : State) (hands : ℕ → Hand) : Machine.Place ⊕ ℕ → Multiset FlowId
  | .inl p => s.machine.held p
  | .inr t => (hands t).box.flows

/-- A thread at a point of its code has the right frame on top, and may go on with what it has in
hand. -/
def Mode.Fits (c : Config) (top : Option Machine.Frame) (h : Hand) : Mode → Prop
  | .idle => h = .empty
  | .slice .. => (∃ flow, top = some (.run flow)) ∧ h = .empty
  | .charge .. => (∃ flow, top = some (.run flow)) ∧ h = .empty
  | .effect result p => ∃ flow, top = some (.run flow) ∧
      Prog.Carries (Hand.Allows c (some flow.id)) Hand.next
        (fun h' outcome => h'.paid = cost result outcome) h p
  | .call _ p => top = none ∧
      Prog.Carries (Hand.Allows c none) Hand.next (fun h' _ => h'.paid = 0) h p

/-- **Every flow is held once**, and the threads go on with what they have in hand. -/
structure Handled (c : Config) (s : State) (hands : ℕ → Hand) : Prop where
  exclusive : Exclusive (s.held hands)
  spawned : ∀ p, ∀ id ∈ s.held hands p, s.machine.shared.Spawned id
  next : FlowId.host < s.machine.shared.nextFlowId
  fits : ∀ t, (s.modes t).Fits c (s.top t) (hands t)

/-- The operation that comes next. -/
def Mode.op : Mode → Option Op
  | .effect _ (.act op _) => some op
  | .call _ (.act op _) => some op
  | _ => none

/-- What the threads have in hand after a step. -/
def handed (s : State) (hands : ℕ → Hand) : ℕ × Input → ℕ → Hand
  | (t, .code env) =>
    match s.modes t with
    | .effect _ (.act op _) => update hands t ((hands t).next op (s.exec env op).2)
    | .call _ (.act op _) => update hands t ((hands t).next op (s.exec env op).2)
    | .effect _ (.ret _) => update hands t .empty
    | .call _ (.ret _) => update hands t .empty
    | _ => hands
  | _ => hands

/-- The machine holds the flows that it held. -/
structure SameFlows (s s' : State) : Prop where
  held : ∀ p, s'.machine.held p = s.machine.held p
  next : s'.machine.shared.nextFlowId = s.machine.shared.nextFlowId
  top : ∀ t, s'.top t = s.top t

theorem SameFlows.of_eq (h : s'.machine = s.machine) : SameFlows s s' where
  held := fun _ => by rw [h]
  next := by rw [h]
  top := fun _ => by
    unfold State.top
    rw [h]

/-- Only a new flow, and one that is handed over, make a difference. -/
theorem exec_sameFlows (s : State) (env : Env) {op : Op}
    (hallocate : ∀ origin, op ≠ .allocate origin) (hinject : ∀ id, op ≠ .tables (.inject id))
    (hnext : op ≠ .tables .nextFlowId) : SameFlows s (s.exec env op).1 := by
  have h := execs s env op
  generalize (s.exec env op).1 = s' at h ⊢
  cases h with
  | tables op =>
    cases op with
    | inject id => exact absurd rfl (hinject id)
    | nextFlowId => exact absurd rfl hnext
    | register id => exact ⟨fun p => by cases p <;> rfl, rfl, fun _ => rfl⟩
    | _ => exact .of_eq rfl
  | allocate origin => exact absurd rfl (hallocate origin)
  | _ => exact .of_eq rfl

namespace Handled

theorem owned (h : Handled c s hands) : Machine.Owned s.machine where
  exclusive := ⟨fun p => h.exclusive.nodup (.inl p), fun _ _ hpq _ hp hq =>
    hpq (Sum.inl_injective (h.exclusive.place_unique (p := .inl _) (q := .inl _) hp hq))⟩
  spawned := fun p => h.spawned (.inl p)
  next := h.next

/-- Two threads do not drive one flow. -/
theorem driven_unique (h : Handled c s hands) {t r : ℕ} {id : FlowId} (ht : s.driven t = some id)
    (hr : s.driven r = some id) : t = r := by
  obtain ⟨flow, rest, hs, hid⟩ := State.driven_eq_some.mp ht
  obtain ⟨flow', rest', hs', hid'⟩ := State.driven_eq_some.mp hr
  have hmem {flow : Flow Hop} {rest : List Machine.Frame} {t : ℕ}
      (hs : s.machine.threads t = .run flow :: rest) (hid : flow.id = id) :
      id ∈ s.machine.held (.thread t) :=
    Machine.mem_held_thread (f := .run flow) (hs ▸ List.mem_cons_self)
      (Multiset.mem_singleton.mpr hid.symm)
  cases h.owned.exclusive.place_unique (hmem hs hid) (hmem hs' hid')
  rfl

/-- A flow that is in hand is nowhere in the machine. -/
theorem not_held (h : Handled c s hands) {id : FlowId} (hid : (hands t).box.id = some id)
    (p : Machine.Place) : id ∉ s.machine.held p := by
  intro hp
  have hbox : id ∈ s.held hands (.inr t) :=
    Multiset.mem_coe.mpr (Option.mem_toList.mpr hid)
  cases h.exclusive.place_unique (p := .inl p) hp hbox

theorem not_driven (h : Handled c s hands) {id : FlowId} (hid : (hands t).box.id = some id)
    (r : ℕ) : s.driven r ≠ some id := by
  intro hr
  obtain ⟨flow, rest, hs, rfl⟩ := State.driven_eq_some.mp hr
  exact h.not_held hid (.thread r)
    (Machine.mem_held_thread (f := .run flow) (hs ▸ List.mem_cons_self)
      (Multiset.mem_singleton_self _))

/-- A flow is in one hand. -/
theorem hand_unique (h : Handled c s hands) {t r : ℕ} {id : FlowId}
    (ht : (hands t).box.id = some id) (hr : (hands r).box.id = some id) : t = r := by
  have hmem {t : ℕ} (ht : (hands t).box.id = some id) : id ∈ s.held hands (.inr t) :=
    Multiset.mem_coe.mpr (Option.mem_toList.mpr ht)
  cases h.exclusive.place_unique (hmem ht) (hmem hr)
  rfl

/-! ## Steps -/

theorem fits_update (h : Handled c s hands) {mode : Mode} {hand : Hand}
    (hfits : mode.Fits c (s.top t) hand) (r : ℕ) :
    (update s.modes t mode r).Fits c (s.top r) (update hands t hand r) := by
  by_cases hr : r = t
  · subst hr
    simpa only [Function.update_self] using hfits
  · simpa only [Function.update_of_ne hr] using h.fits r

/-- A thread turns to another point of its code, perhaps with less in its hand. -/
theorem turns (h : Handled c s hands) {mode : Mode} {hand : Hand} (hsame : SameFlows s s')
    (hmodes : s'.modes = update s.modes t mode) (hbox : hand.box.flows ≤ (hands t).box.flows)
    (hfits : mode.Fits c (s.top t) hand) : Handled c s' (update hands t hand) := by
  have hle : ∀ p, s'.held (update hands t hand) p ≤ s.held hands p := by
    rintro (p | r)
    · exact (hsame.held p).le
    · by_cases hr : r = t
      · subst hr
        simpa only [State.held, Function.update_self] using hbox
      · simp only [State.held, Function.update_of_ne hr, le_refl]
  refine ⟨h.exclusive.mono hle, fun p id hid => ?_, hsame.next ▸ h.next, fun r => ?_⟩
  · unfold Machine.Shared.Spawned
    rw [hsame.next]
    exact h.spawned p id (Multiset.mem_of_le (hle p) hid)
  · rw [hsame.top, hmodes]
    exact h.fits_update hfits r

theorem turns_same (h : Handled c s hands) {mode : Mode} (hsame : SameFlows s s')
    (hmodes : s'.modes = update s.modes t mode) (hfits : mode.Fits c (s.top t) (hands t)) :
    Handled c s' hands := by
  have hturns := h.turns hsame hmodes le_rfl hfits
  rwa [Function.update_eq_self] at hturns

theorem turns_idle (h : Handled c s hands) (t : ℕ) :
    Handled c (s.setMode t .idle) (update hands t .empty) :=
  h.turns (.of_eq rfl) rfl (Multiset.zero_le _) rfl

/-- Nothing that matters here happens. -/
theorem congr (h : Handled c s hands) (hmachine : s'.machine = s.machine)
    (hmodes : s'.modes = s.modes) : Handled c s' hands :=
  h.turns_same (t := 0) (.of_eq hmachine) (by rw [hmodes, Function.update_eq_self]) (h.fits 0)

/-- The machine goes on. -/
theorem advance (h : Handled c s hands) (hmode : s.modes t = .idle) (input : Machine.Input)
    (env : Env) : Handled c (s.advance t input env) hands := by
  have hheld (p : Machine.Place) (id : FlowId)
      (hid : id ∈ (Machine.step s.machine (t, input)).held p) :
      (Machine.step s.machine (t, input)).shared.Spawned id :=
    (h.owned.step (t, input)).spawned p id hid
  have hnext : s.machine.shared.nextFlowId ≤
      (Machine.step s.machine (t, input)).shared.nextFlowId := by
    rcases Machine.held_step s.machine t input with ⟨-, -, -, -, he⟩ | ⟨-, -, he⟩
    · exact he.ge
    · exact he ▸ Nat.le_succ _
  refine ⟨?_, ?_, (h.owned.step (t, input)).next, fun r => ?_⟩
  · rcases Machine.held_step s.machine t input with ⟨p, hp, hsum, hsame, -⟩ | ⟨hle, hsame, -⟩
    · refine h.exclusive.transfer (p := .inl p) (q := .inl (.thread t))
        (fun he => hp (Sum.inl_injective he)) hsum ?_
      rintro (q | r) hqp hqt
      · exact (hsame q (fun he => hqp (congrArg _ he)) fun he => hqt (congrArg _ he)).le
      · exact le_rfl
    · refine h.exclusive.insert (p := .inl (.thread t)) (a := s.machine.shared.nextFlowId)
        (fun q hq => (h.spawned q _ hq).2.false) hle ?_
      rintro (q | r) hqt
      · exact (hsame q fun he => hqt (congrArg _ he)).le
      · exact le_rfl
  · rintro (p | r) id hid
    · exact hheld p id hid
    · exact ⟨(h.spawned (.inr r) id hid).1, (h.spawned (.inr r) id hid).2.trans_le hnext⟩
  · have hfits := h.fits r
    rw [State.advance_modes]
    by_cases hr : r = t
    · subst hr
      rw [hmode] at hfits ⊢
      exact hfits
    · have htop : (s.advance t input env).top r = s.top r := by
        have hthreads : (s.advance t input env).machine.threads r = s.machine.threads r :=
          Machine.step_threads_of_ne s.machine input hr
        unfold State.top
        rw [hthreads]
      rwa [htop]

theorem goOn (h : Handled c s hands) (hmode : s.modes t = .idle) (env : Env)
    (destReg : Option UInt8) (result : Machine.VmResult) :
    Handled c (s.goOn t env destReg result) hands :=
  goOn_induct (P := fun s' => Handled c s' hands) (h.advance hmode _ env)
    fun _ _ _ _ hadvance => hadvance.congr rfl rfl

/-- A new flow gets into the hand of its thread. -/
theorem allocate (h : Handled c s hands) (env : Env) (origin : Origin) {mode : Mode}
    (hfits : mode.Fits c (s.top t) { hands t with box := .allocated s.machine.shared.nextFlowId }) :
    Handled c ((s.exec env (.allocate origin)).1.setMode t mode)
      (update hands t { hands t with box := .allocated s.machine.shared.nextFlowId }) := by
  refine ⟨h.exclusive.insert (p := .inr t) (a := s.machine.shared.nextFlowId)
    (fun q hq => (h.spawned q _ hq).2.false) ?_ ?_, ?_, Nat.lt_succ_of_lt h.next,
    h.fits_update hfits⟩
  · simp only [State.held, Function.update_self]
    exact Multiset.cons_le_cons _ (Multiset.zero_le _)
  · rintro (p | r) hr
    · cases p <;> exact le_rfl
    · simp only [State.held, Function.update_of_ne fun he => hr (congrArg _ he), le_refl]
  · rintro (p | r) id hid
    · have hid : id ∈ s.machine.held p := by cases p <;> exact hid
      exact ⟨(h.spawned (.inl p) id hid).1, Nat.lt_succ_of_lt (h.spawned (.inl p) id hid).2⟩
    · by_cases hr : r = t
      · subst hr
        simp only [State.held, Function.update_self] at hid
        rw [Multiset.mem_singleton.mp hid]
        exact ⟨h.next, Nat.lt_succ_self _⟩
      · simp only [State.held, Function.update_of_ne hr] at hid
        exact ⟨(h.spawned (.inr r) id hid).1, Nat.lt_succ_of_lt (h.spawned (.inr r) id hid).2⟩

/-- The flow in hand is handed over. -/
theorem inject (h : Handled c s hands) (env : Env) {id : FlowId}
    (hbox : (hands t).box = .registered id)
    {mode : Mode} (hfits : mode.Fits c (s.top t) { hands t with box := .none }) :
    Handled c ((s.exec env (.tables (.inject id))).1.setMode t mode)
      (update hands t { hands t with box := .none }) := by
  have hin : s.held hands (.inr t) = {id} := by
    simp only [State.held, hbox]
    rfl
  have hqueues : State.held ((s.exec env (.tables (.inject id))).1.setMode t mode)
      (update hands t { hands t with box := .none }) (.inl .queues) =
        {id} + s.held hands (.inl .queues) := boxesOf_cons ..
  have hout : State.held ((s.exec env (.tables (.inject id))).1.setMode t mode)
      (update hands t { hands t with box := .none }) (.inr t) = 0 := by
    simp only [State.held, Function.update_self]
    rfl
  have hrest (p : Machine.Place ⊕ ℕ) (hp : p ≠ .inl .queues) (hpt : p ≠ .inr t) :
      State.held ((s.exec env (.tables (.inject id))).1.setMode t mode)
        (update hands t { hands t with box := .none }) p = s.held hands p := by
    rcases p with p | r
    · cases p with
      | queues => exact absurd rfl hp
      | _ => rfl
    · simp only [State.held, Function.update_of_ne fun he => hpt (congrArg _ he)]
  refine ⟨h.exclusive.transfer (p := .inl .queues) (q := .inr t) nofun ?_ fun p hp hpt =>
    (hrest p hp hpt).le, fun p id' hid => ?_, h.next, h.fits_update hfits⟩
  · rw [hqueues, hin, hout, add_zero, add_comm]
  · by_cases hp : p = .inl .queues
    · rw [hp, hqueues] at hid
      rcases Multiset.mem_add.mp hid with hid | hid
      · rw [Multiset.mem_singleton.mp hid]
        exact h.spawned (.inr t) id (hin ▸ Multiset.mem_singleton_self _)
      · exact h.spawned (.inl .queues) id' hid
    by_cases hpt : p = .inr t
    · rw [hpt, hout] at hid
      exact (Multiset.notMem_zero _ hid).elim
    · exact h.spawned p id' (hrest p hp hpt ▸ hid)

/-- An operation of a program. -/
theorem exec (h : Handled c s hands) {self : Option FlowId} (env : Env) {op : Op}
    (hop : (hands t).Allows c self op) {mode : Mode}
    (hfits : mode.Fits c (s.top t) ((hands t).next op (s.exec env op).2)) :
    Handled c ((s.exec env op).1.setMode t mode)
      (update hands t ((hands t).next op (s.exec env op).2)) := by
  have hsame (hmachine : SameFlows s (s.exec env op).1)
      (hbox : ((hands t).next op (s.exec env op).2).box.flows = (hands t).box.flows) :
      Handled c ((s.exec env op).1.setMode t mode)
        (update hands t ((hands t).next op (s.exec env op).2)) := by
    refine h.turns ⟨hmachine.held, hmachine.next, hmachine.top⟩ ?_ hbox.le hfits
    unfold State.setMode
    rw [(exec_frame s env op).2.2.2]
  cases op with
  | allocate origin => exact h.allocate env origin hfits
  | tables op =>
    cases op with
    | nextFlowId => exact hop.elim
    | inject id => exact h.inject env hop hfits
    | register id =>
      refine hsame (exec_sameFlows s env nofun nofun nofun) ?_
      have hbox : (hands t).box = .built id := hop
      unfold Box.flows
      rw [hbox]
      rfl
    | _ => exact hsame (.of_eq rfl) rfl
  | place id process =>
    refine hsame (.of_eq rfl) ?_
    unfold Box.flows
    rw [hop.1]
    rfl
  | alloc flow bytes =>
    refine hsame (exec_sameFlows s env nofun nofun nofun) ?_
    generalize (s.exec env (.alloc flow bytes)).2 = r
    cases r <;> rfl
  | _ => exact hsame (exec_sameFlows s env nofun nofun nofun) rfl

/-- A call goes on in the machine. -/
theorem enter (h : Handled c s hands) (htop : s.top t = none) {frames : List Machine.Frame}
    (hboxes : Machine.stackBoxes frames = 0) :
    Handled c (s.enter t frames) (update hands t .empty) := by
  have hidle := h.turns_idle t
  have hle : ∀ p, State.held (s.enter t frames) (update hands t .empty) p ≤
      State.held (s.setMode t .idle) (update hands t .empty) p := by
    rintro (p | r)
    · cases p with
      | thread r =>
        by_cases hr : r = t
        · subst hr
          simp only [State.held, Machine.State.held, State.enter, Function.update_self, hboxes]
          exact Multiset.zero_le _
        · simp only [State.held, Machine.State.held, State.enter, Function.update_of_ne hr]
          exact le_rfl
      | _ => exact le_rfl
    · exact le_rfl
  refine ⟨hidle.exclusive.mono hle, fun p id hid => ?_, h.next, fun r => ?_⟩
  · exact hidle.spawned p id (Multiset.mem_of_le (hle p) hid)
  · by_cases hr : r = t
    · subst hr
      simp only [State.enter, State.setMode, Function.update_self]
      rfl
    · have htop : (s.enter t frames).top r = s.top r := by
        simp only [State.top, State.enter, Function.update_of_ne hr]
      rw [htop]
      exact hidle.fits r

theorem boxes_of_replies {call : Call} {frames : List Machine.Frame}
    (h : Replies s call (.call frames)) : Machine.stackBoxes frames = 0 := by
  cases h <;> rfl

/-- A thread that does not go on is in no program. -/
theorem op_of_stay (h : Handled c s hands) {t : ℕ}
    (hcode : s.driven t = none ↔ ∀ call p, s.modes t ≠ .call call p) :
    (∀ result p, s.modes t ≠ .effect result p) ∧ ∀ call p, s.modes t ≠ .call call p := by
  have hfits := h.fits t
  constructor
  · -- a flow is driven in an effect
    intro result p hmode
    rw [hmode] at hfits
    obtain ⟨flow, htop, -⟩ := hfits
    have hnone := hcode.mpr fun call p he => by
      rw [hmode] at he
      cases he
    rw [State.driven_of_top htop] at hnone
    cases hnone
  · -- none is in a call
    intro call p hmode
    rw [hmode] at hfits
    have hnone : s.driven t = none := by
      unfold State.driven
      rw [hfits.1]
    exact hcode.mp hnone call p hmode

theorem op_none_of_stay (h : Handled c s hands) {t : ℕ}
    (hcode : s.driven t = none ↔ ∀ call p, s.modes t ≠ .call call p) : (s.modes t).op = none := by
  obtain ⟨heffect, hcall⟩ := h.op_of_stay hcode
  cases hmode : s.modes t with
  | effect result p => exact absurd hmode (heffect result p)
  | call call p => exact absurd hmode (hcall call p)
  | _ => rfl

/-- It has the same in hand. -/
theorem handed_stay (h : Handled c s hands) {ti : ℕ × Input}
    (hcode : ∀ env, ti.2 = .code env →
      (s.driven ti.1 = none ↔ ∀ call p, s.modes ti.1 ≠ .call call p)) :
    handed s hands ti = hands := by
  obtain ⟨t, input⟩ := ti
  cases input with
  | code env =>
    obtain ⟨heffect, hcall⟩ := h.op_of_stay (hcode env rfl)
    cases hmode : s.modes t with
    | effect result p => exact absurd hmode (heffect result p)
    | call call p => exact absurd hmode (hcall call p)
    | _ => simp only [handed, hmode]
  | _ => rfl

/-- **A step.** -/
theorem step (h : Handled c s hands) (hr : Running c False s) (ti : ℕ × Input) :
    Handled c (Worker.step c s ti) (handed s hands ti) := by
  have hstep := stepped c s ti
  have hgoing := hr.going
  generalize Worker.step c s ti = s' at hstep ⊢
  have hidle {t : ℕ} : (s.setMode t .idle).modes t = .idle := Function.update_self ..
  have hrunning {t : ℕ} {id : FlowId} (hrun : s.driven t = some id) :
      ∃ flow : Flow Hop, s.top t = some (.run flow) ∧ flow.id = id := by
    obtain ⟨flow, rest, hs, hid⟩ := State.driven_eq_some.mp hrun
    exact ⟨flow, State.top_of_cons hs, hid⟩
  cases hstep with
  | stay ti hcode => exact (h.handed_stay hcode).symm ▸ h
  | advance t input env hmode hrun hstart => exact h.advance hmode input env
  | round t env id hrun hmode hbudget =>
    have hfits := h.fits t
    rw [hmode] at hfits
    simp only [handed, hmode]
    exact h.turns_same (.of_eq rfl) rfl ⟨(hrunning hrun).imp fun _ => And.left, hfits⟩
  | fail t env id message hrun hfail =>
    have hfits := h.fits t
    rcases hfail with hmode | ⟨ran, result, e, hmode, -⟩
    · rw [hmode] at hfits
      simp only [handed, hmode]
      have hturned : Handled c (s.setMode t .idle) hands := h.turns_same (.of_eq rfl) rfl hfits
      exact hturned.goOn hidle env none _
    · rw [hmode] at hfits
      simp only [handed, hmode]
      have hturned : Handled c (s.setMode t .idle) hands := h.turns_same (.of_eq rfl) rfl hfits.2
      exact hturned.goOn hidle env none _
  | expire t env id ran hrun hmode =>
    have hfits := h.fits t
    rw [hmode] at hfits
    simp only [handed, hmode]
    exact h.turns_same (.of_eq rfl) rfl hfits
  | execute t env id ran left hrun hmode =>
    have hfits := h.fits t
    rw [hmode] at hfits
    simp only [handed, hmode]
    obtain ⟨mode, hkind, hmodes⟩ := s.execute_modes t env id ran left
    refine h.turns_same (.of_eq ?_) hmodes ?_
    · unfold State.execute
      dsimp only
      split <;> rfl
    · rcases hkind with rfl | ⟨result, rfl⟩ <;> exact hfits
  | account t env id ran result quota hrun hmode hquota =>
    have hfits := h.fits t
    rw [hmode] at hfits
    simp only [handed, hmode]
    obtain ⟨flow, htop, rfl⟩ := hrunning hrun
    refine h.turns_same (.of_eq rfl) rfl ⟨flow, htop, ?_⟩
    rw [hfits.2]
    exact effect_carries flow.id _ result rfl
  | act t env id result op k hrun hmode =>
    have hfits := h.fits t
    rw [hmode] at hfits
    simp only [handed, hmode]
    obtain ⟨flow, htop, hcarries⟩ := hfits
    rw [Prog.carries_act] at hcarries
    exact h.exec env hcarries.1 ⟨flow, htop, hcarries.2 _⟩
  | resume t env id result destReg value hrun hmode =>
    simp only [handed, hmode]
    exact (h.turns_idle t).congr rfl rfl
  | goOn t env id result destReg vm hrun hmode =>
    simp only [handed, hmode]
    exact (h.turns_idle t).goOn hidle env destReg vm
  | leave t env hmode =>
    rcases hmode with ⟨result, frames, hmode⟩ | ⟨call, outcome, hmode⟩ <;>
      simp only [handed, hmode] <;> exact h.turns_idle t
  | begin t call hmode htop hcall =>
    have hfits := h.fits t
    rw [hmode] at hfits
    refine h.turns_same (.of_eq rfl) rfl ⟨htop, ?_⟩
    rw [hfits]
    exact call_carries call rfl
  | serve t env call op k hrun hmode =>
    have hfits := h.fits t
    rw [hmode] at hfits
    simp only [handed, hmode]
    obtain ⟨htop, hcarries⟩ := hfits
    rw [Prog.carries_act] at hcarries
    exact h.exec env hcarries.1 ⟨htop, hcarries.2 _⟩
  | enter t env call frames hrun hmode =>
    have hfits := h.fits t
    rw [hmode] at hfits
    have hreplies := hgoing t
    unfold Going at hreplies
    rw [hmode] at hreplies
    simp only [handed, hmode]
    exact h.enter hfits.1 (boxes_of_replies hreplies)

end Handled

theorem handled_init (c : Config) : Handled c (State.init c) fun _ => .empty where
  exclusive := by
    have hempty : ∀ p, State.held (State.init c) (fun _ => .empty) p = 0 := by
      rintro (p | t)
      · cases p <;> rfl
      · rfl
    exact ⟨fun p => by simp [hempty], fun p q _ id hid => by simp [hempty] at hid⟩
  spawned := by
    rintro (p | t) id hid
    · cases p <;> cases hid
    · cases hid
  next := Nat.zero_lt_one
  fits := fun _ => rfl

end Worker

end Byteflow
