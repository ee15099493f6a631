import Byteflow.Scheduler.Capability.Calls
import Byteflow.Scheduler.Spawn.System

/-!
# What the table keeps of dead flows

A flow that exits is swept from the capability table once. What is written for it after that stays:
`late_mintOrReuse` is a run in which the reply address of a hop is made after its recipient was
swept. As long as no operation writes for a flow that was swept, the table has nothing of such
flows (`forgets_of_not_late`).
-/

namespace Byteflow

namespace Spawn

open Function (update)

/-- The table has no token held by or for the flows, no reply address of one, and no cell. -/
structure Forgets (t : CapTable) (flows : List FlowId) : Prop where
  holder : ∀ {id entry}, t.entries id = some entry → entry.holder ∉ flows
  target : ∀ {id entry flow}, t.entries id = some entry → entry.cap.target = .flow flow →
    flow ∉ flows
  reply : ∀ {holder target id}, t.replyIndex holder target = some id →
    holder ∉ flows ∧ target ∉ flows
  cell : ∀ {flow cell}, t.flowCells flow = some cell → flow ∉ flows

/-- An operation that is about to write for a flow that was swept. -/
def Late (s : Tables) (env : Env) : Op → Prop
  | .caps (.bindFlow flow) => flow ∈ s.swept
  | .caps (.insert entry) =>
    (s.caps.freshId CapTable.mintAttempts env.draws).isOk ∧
      (entry.holder ∈ s.swept ∨ ∃ flow ∈ s.swept, entry.cap.target = .flow flow)
  | .caps (.mintOrReuse holder target _) =>
    target ∈ s.swept ∨
      (s.caps.freshId CapTable.mintAttempts env.draws).isOk ∧ holder ∈ s.swept
  | _ => False

instance (s : Tables) (env : Env) (op : Op) : Decidable (Late s env op) :=
  match op with
  | .caps (.bindFlow flow) => inferInstanceAs (Decidable (flow ∈ s.swept))
  | .caps (.insert entry) =>
    inferInstanceAs (Decidable ((s.caps.freshId CapTable.mintAttempts env.draws).isOk ∧
      (entry.holder ∈ s.swept ∨ ∃ flow ∈ s.swept, entry.cap.target = .flow flow)))
  | .caps (.mintOrReuse holder target _) =>
    inferInstanceAs (Decidable (target ∈ s.swept ∨
      (s.caps.freshId CapTable.mintAttempts env.draws).isOk ∧ holder ∈ s.swept))
  | .caps (.flowCell _) | .caps (.readEpoch _) | .caps (.lookup _) | .caps (.resolve ..) =>
    inferInstanceAs (Decidable False)
  | .shardLen _ | .nextFlowId | .checkSpawn | .register _ | .insertQuota .. | .inject _
  | .revokeFlow _ | .removeQuota _ | .unregister _ => inferInstanceAs (Decidable False)

/-- A step whose operation is late. -/
def LateStep (s : State) : ℕ × Input → Prop
  | (t, .next env) => ∃ op ∈ s.pending t, Late s.tables env op
  | (_, .call _) => False

instance (s : State) (input : ℕ × Input) : Decidable (LateStep s input) :=
  match input with
  | (t, .next env) => inferInstanceAs (Decidable (∃ op ∈ s.pending t, Late s.tables env op))
  | (_, .call _) => inferInstanceAs (Decidable False)

theorem Forgets.bindFlow {t : CapTable} {flows : List FlowId} (h : Forgets t flows) {flow : FlowId}
    (hflow : flow ∉ flows) : Forgets (t.bindFlow flow).1 flows where
  holder he := h.holder (t.bindFlow_entries flow ▸ he)
  target he := h.target (t.bindFlow_entries flow ▸ he)
  reply hr := h.reply (t.bindFlow_replyIndex flow ▸ hr)
  cell {f cell} hf := by
    rcases t.bindFlow_cases flow with ⟨_, _, heq⟩ | ⟨_, heq⟩ <;> rw [heq] at hf
    · exact h.cell hf
    · simp only [Function.update_apply] at hf
      split at hf
      · rename_i heq
        exact heq ▸ hflow
      · exact h.cell hf

theorem Forgets.add {t : CapTable} {flows : List FlowId} (h : Forgets t flows) {entry : Capability}
    (hholder : entry.holder ∉ flows) (htarget : ∀ f, entry.cap.target = .flow f → f ∉ flows)
    (id : CapId) : Forgets (t.add id entry) flows where
  holder {id' e} he := by
    simp only [CapTable.add, Function.update_apply] at he
    split at he
    · cases he
      exact hholder
    · exact h.holder he
  target {id' e f} he hf := by
    simp only [CapTable.add, Function.update_apply] at he
    split at he
    · cases he
      exact htarget f hf
    · exact h.target he hf
  reply := h.reply
  cell := h.cell

theorem Forgets.setReply {t : CapTable} {flows : List FlowId} (h : Forgets t flows)
    {holder target : FlowId} {r : Option CapId}
    (hr : r = none ∨ holder ∉ flows ∧ target ∉ flows) :
    Forgets (t.setReply holder target r) flows where
  holder := h.holder
  target := h.target
  reply hidx := by
    rcases CapTable.setReply_eq hidx with ⟨rfl, rfl, hsome⟩ | hold
    · rcases hr with rfl | hr
      · cases hsome
      · exact hr
    · exact h.reply hold
  cell := h.cell

theorem Forgets.cleared {t : CapTable} {flows : List FlowId} (h : Forgets t flows)
    (holder : FlowId) {target : FlowId} (ht : target ∉ flows) :
    Forgets (t.cleared holder target) flows :=
  (h.setReply (.inl rfl)).bindFlow ht

/-- The sweep itself. -/
theorem Forgets.revokeFlow {t : CapTable} {flows : List FlowId} (h : Forgets t flows)
    (flow : FlowId) : Forgets (t.revokeFlow flow) (flow :: flows) where
  holder {id e} he := by
    obtain ⟨he, hkept⟩ := Option.filter_eq_some_iff.mp he
    simp only [ne_eq, decide_eq_true_eq] at hkept
    exact List.not_mem_cons_of_ne_of_not_mem hkept.1 (h.holder he)
  target {id e f} he hf := by
    obtain ⟨he, hkept⟩ := Option.filter_eq_some_iff.mp he
    simp only [ne_eq, decide_eq_true_eq] at hkept
    exact List.not_mem_cons_of_ne_of_not_mem (fun heq => hkept.2 (heq ▸ hf)) (h.target he hf)
  reply {holder target id} hr := by
    have hr : (if holder ≠ flow ∧ target ≠ flow then t.replyIndex holder target else none) =
        some id := hr
    split at hr
    · rename_i hne
      obtain ⟨hh, ht⟩ := h.reply hr
      exact ⟨List.not_mem_cons_of_ne_of_not_mem hne.1 hh,
        List.not_mem_cons_of_ne_of_not_mem hne.2 ht⟩
    · cases hr
  cell {f cell} hf := by
    simp only [CapTable.revokeFlow, Function.update_apply] at hf
    split at hf
    · cases hf
    · rename_i hne
      exact List.not_mem_cons_of_ne_of_not_mem hne (h.cell hf)

theorem Forgets.insert {t : CapTable} {flows : List FlowId} (h : Forgets t flows)
    {draws : List CapId} {entry : Capability}
    (hlate : (t.freshId CapTable.mintAttempts draws).isOk →
      entry.holder ∉ flows ∧ ∀ f, entry.cap.target = .flow f → f ∉ flows) :
    Forgets (t.insert draws entry).1 flows := by
  rcases t.insert_cases draws entry with ⟨id, _, _, _, hins⟩ | ⟨e, hins⟩
  · have hfresh := CapTable.freshId_of_insert (congrArg Prod.snd hins)
    obtain ⟨hh, ht⟩ := hlate (hfresh ▸ rfl)
    rw [hins]
    exact h.add hh ht id
  · rw [hins]
    exact h

/-- An operation that writes for no swept flow leaves nothing of one. -/
theorem Forgets.exec {s : Tables} (h : Forgets s.caps s.swept) (env : Env) (op : Op)
    (hlate : ¬Late s env op) : Forgets (s.exec env op).1.caps (s.exec env op).1.swept := by
  cases op with
  | caps op =>
    cases op with
    | bindFlow flow => exact h.bindFlow hlate
    | insert entry =>
      refine Forgets.insert h fun hfresh => ⟨fun hh => hlate ⟨hfresh, .inl hh⟩, fun f hf hmem => ?_⟩
      exact hlate ⟨hfresh, .inr ⟨f, hmem, hf⟩⟩
    | mintOrReuse holder target rights =>
      have ht : target ∉ s.swept := fun ht => hlate (.inl ht)
      rcases s.caps.mintOrReuse_cases env.draws holder target rights with
        ⟨id, _, _, hr⟩ | ⟨_, ⟨id, _, _, _, hfresh, hr⟩ | ⟨e, hr⟩⟩
      · show Forgets (s.caps.mintOrReuse env.draws holder target rights).1 s.swept
        rw [hr]
        exact h
      · show Forgets (s.caps.mintOrReuse env.draws holder target rights).1 s.swept
        have hh : holder ∉ s.swept := fun hh => hlate (.inr ⟨hfresh ▸ rfl, hh⟩)
        rw [hr]
        refine ((h.cleared holder ht).add hh (fun f hf => ?_) id).setReply (.inr ⟨hh, ht⟩)
        cases hf
        exact ht
      · show Forgets (s.caps.mintOrReuse env.draws holder target rights).1 s.swept
        rw [hr]
        exact h.cleared holder ht
    | _ => exact h
  | revokeFlow flow => exact h.revokeFlow flow
  | _ => exact h

/-- In a run in which nothing is written for a flow that was swept, the table has nothing of such
flows. -/
theorem forgets_of_not_late {c : Config} {s : State}
    (h : Run c (fun s input => ¬LateStep s input) s) :
    Forgets s.tables.caps s.tables.swept := by
  induction h with
  | init => exact ⟨nofun, nofun, nofun, nofun⟩
  | @step s _ input hc ih =>
    obtain ⟨t, input⟩ := input
    rcases step_cases c s t input with h | ⟨call, u, _, _, _, h⟩ | ⟨env, op, k, rfl, hp, h⟩
    · rw [h]
      exact ih
    · rw [h]
      exact ih
    · rw [h]
      exact ih.exec env op fun hlate => hc ⟨op, State.pending_act hp, hlate⟩

/-- Flow 1 is spawned and exits, and flow 2 is spawned after it. -/
theorem forgets_of_not_late_exit :
    let s := runAll ⟨0, [], ⟨1000, 1000⟩⟩ .init
      (alone 0 hostSpawn 7 ⟨3⟩ ++ alone 0 (.finalize 1) 3 ⟨4⟩ ++ alone 0 hostSpawn 7 ⟨5⟩)
    s.tables.swept = [1] ∧ Forgets s.tables.caps s.tables.swept :=
  ⟨by decide +kernel, forgets_of_not_late (Run.init.meets (by decide +kernel))⟩

/-- Flows 1 and 2 are spawned, and flow 1 exits while flow 2 sends to it: the reply address for flow
1 is made when flow 1 was swept. -/
def lateReply : List (ℕ × Input) :=
  alone 0 hostSpawn 7 ⟨3⟩ ++ alone 0 hostSpawn 7 ⟨4⟩ ++ alone 0 (.finalize 1) 3 ⟨5⟩ ++
    alone 1 (.mintOrReuse 1 2 CapRights.send) 1 ⟨6⟩

/-- After the exit the table has a token of flow 1, with its index. -/
theorem late_mintOrReuse :
    let s := runAll ⟨0, [], ⟨1000, 1000⟩⟩ .init lateReply
    Reachable ⟨0, [], ⟨1000, 1000⟩⟩ s ∧ s.quiet ∧ 1 ∈ s.tables.swept ∧
      1 ∉ s.tables.directory ∧
      s.tables.caps.entries ⟨6⟩ = some ⟨1, ⟨.flow 2, CapRights.send, none, 0⟩⟩ ∧
      s.tables.caps.replyIndex 1 2 = some ⟨6⟩ ∧ ¬Forgets s.tables.caps s.tables.swept := by
  refine ⟨Run.init.all _, fun t => ?_, by decide +kernel, by decide +kernel, by decide +kernel,
    by decide +kernel, fun h => ?_⟩
  · match t with
    | 0 => exact ⟨(), rfl⟩
    | 1 => exact ⟨(), rfl⟩
    | n + 2 => exact ⟨(), rfl⟩
  · have he : (runAll ⟨0, [], ⟨1000, 1000⟩⟩ .init lateReply).tables.caps.entries ⟨6⟩ =
        some ⟨1, ⟨.flow 2, CapRights.send, none, 0⟩⟩ := by decide +kernel
    exact h.holder he (by decide +kernel)

end Spawn

end Byteflow
