import Mathlib.Logic.Relation
import Byteflow.Scheduler.Capability.Table

/-!
# Sequences of calls

The public methods of `CapTable`, one after the other. A `Run` is a sequence of calls in which no
random token repeats. What a call can do to the table is a sequence of `Change`s: an invariant that
every change keeps holds along every run.
-/

namespace Byteflow.CapTable

open Function (update)

/-- A call, with its arguments. -/
inductive Call
  | bindFlow (flow : FlowId)
  | mint (holder target : FlowId) (rights : CapRights)
  | mintOrReuse (holder target : FlowId) (rights : CapRights)
  | grant (holder : FlowId) (cap : Cap)
  | attenuate (id : CapId) (fromHolder toHolder : FlowId) (wantRights : CapRights)
      (wantNative : Option NativeMask)
  | delegate (id : CapId) (fromHolder toHolder : FlowId)
  | reissueFor (id : CapId) (newHolder : FlowId)
  | revokeFlow (flow : FlowId)
  deriving DecidableEq

/-- The table after a call, and the token it returned. -/
def Call.run (s : Session) : Call → Session × Option CapId
  | bindFlow flow => (((s.1.bindFlow flow).1, s.2), none)
  | mint holder target rights =>
    let (s, r) := atOnce (CapTable.mint holder target rights) s
    (s, r.toOption)
  | mintOrReuse holder target rights =>
    let (s, r) := s.exec (.mintOrReuse holder target rights)
    (s, r.toOption)
  | grant holder cap =>
    let (s, r) := s.exec (.insert ⟨holder, cap⟩)
    (s, r.toOption)
  | attenuate id fromHolder toHolder wantRights wantNative =>
    let (s, r) := tryAtOnce (CapTable.attenuate id fromHolder toHolder wantRights wantNative) s
    (s, r.toOption)
  | delegate id fromHolder toHolder =>
    let (s, r) := tryAtOnce (CapTable.delegate id fromHolder toHolder) s
    (s, r.toOption)
  | reissueFor id newHolder =>
    let (s, r) := tryAtOnce (CapTable.reissueFor id newHolder) s
    (s, r.toOption)
  | revokeFlow flow => ((s.1.revokeFlow flow, s.2), none)

/-- Calls that `p` allows, with tokens that are new. -/
inductive Run (p : Call → Prop) : CapTable → CapTable → Prop
  | refl (t : CapTable) : Run p t t
  | call {t t' : CapTable} (h : Run p t t') (c : Call) (hc : p c) (draws : List (List CapId))
      (hnew : ∀ ds ∈ draws, ∀ id ∈ ds, id ∉ t'.drawn) : Run p t (c.run (t', draws)).1.1

/-! ## What a call does -/

theorem bindFlow_cases (t : CapTable) (flow : FlowId) :
    (∃ cell, t.flowCells flow = some cell ∧ t.bindFlow flow = (t, cell)) ∨
    t.flowCells flow = none ∧ t.bindFlow flow = ({ t with
      flowCells := update t.flowCells flow (some t.nextCell)
      nextCell := t.nextCell + 1 }, t.nextCell) := by
  unfold bindFlow
  cases h : t.flowCells flow with
  | some cell => exact .inl ⟨cell, rfl, rfl⟩
  | none => exact .inr ⟨rfl, rfl⟩

theorem bindFlow_entries (t : CapTable) (flow : FlowId) :
    (t.bindFlow flow).1.entries = t.entries := by
  unfold bindFlow
  split <;> rfl

theorem bindFlow_replyIndex (t : CapTable) (flow : FlowId) :
    (t.bindFlow flow).1.replyIndex = t.replyIndex := by
  unfold bindFlow
  split <;> rfl

theorem bindFlow_drawn (t : CapTable) (flow : FlowId) : (t.bindFlow flow).1.drawn = t.drawn := by
  unfold bindFlow
  split <;> rfl

theorem bindFlow_epoch (t : CapTable) (flow : FlowId) : (t.bindFlow flow).1.epoch = t.epoch := by
  unfold bindFlow
  split <;> rfl

theorem bindFlow_cell (t : CapTable) (flow : FlowId) :
    (t.bindFlow flow).1.flowCells flow = some (t.bindFlow flow).2 := by
  unfold bindFlow
  split
  · assumption
  · exact Function.update_self ..

/-- Read the index after a write. -/
theorem setReply_eq {t : CapTable} {holder target holder' target' : FlowId} {r : Option CapId}
    {id : CapId} (h : (t.setReply holder target r).replyIndex holder' target' = some id) :
    holder' = holder ∧ target' = target ∧ r = some id ∨
      t.replyIndex holder' target' = some id := by
  by_cases hh : holder' = holder
  · subst hh
    by_cases ht : target' = target
    · subst ht
      simp only [setReply, Function.update_self] at h
      exact .inl ⟨rfl, rfl, h⟩
    · simp only [setReply, Function.update_self, Function.update_of_ne ht] at h
      exact .inr h
  · simp only [setReply, Function.update_of_ne hh] at h
    exact .inr h

theorem setReply_of_ne {t : CapTable} {holder target holder' target' : FlowId}
    (h : ¬(holder' = holder ∧ target' = target)) (r : Option CapId) :
    (t.setReply holder target r).replyIndex holder' target' = t.replyIndex holder' target' := by
  by_cases hh : holder' = holder
  · subst hh
    have ht : target' ≠ target := fun ht => h ⟨rfl, ht⟩
    simp only [setReply, Function.update_self, Function.update_of_ne ht]
  · simp only [setReply, Function.update_of_ne hh]

theorem cleared_replyIndex (t : CapTable) (holder target : FlowId) :
    (t.cleared holder target).replyIndex = (t.setReply holder target none).replyIndex :=
  bindFlow_replyIndex ..

theorem cleared_entries (t : CapTable) (holder target : FlowId) :
    (t.cleared holder target).entries = t.entries := bindFlow_entries ..

/-- A change of the table by calls that `p` allows: a cell is bound, a token is added, a reply
address is added with its index, the entries of a flow are swept. -/
inductive Change (p : Call → Prop) (t : CapTable) : CapTable → Prop
  | bind (flow : FlowId) : Change p t (t.bindFlow flow).1
  | clear (holder target : FlowId) (rights : CapRights)
      (hp : p (.mintOrReuse holder target rights))
      (hstale : ∀ id, t.replyIndex holder target = some id →
        t.replyCapIsLive id holder target rights = false) : Change p t (t.cleared holder target)
  | add (id : CapId) (hnone : id ≠ CapId.none) (hfree : t.entries id = none)
      (hdrawn : id ∉ t.drawn) (entry : Capability) : Change p t (t.add id entry)
  | index (holder target : FlowId) (rights : CapRights)
      (hp : p (.mintOrReuse holder target rights))
      (hstale : ∀ id, t.replyIndex holder target = some id →
        t.replyCapIsLive id holder target rights = false) (id : CapId) (hnone : id ≠ CapId.none)
      (hfree : t.entries id = none) (hdrawn : id ∉ t.drawn) :
      Change p t (((t.cleared holder target).add id (t.replyEntry holder target rights)).setReply
        holder target (some id))
  | revoke (flow : FlowId) (hp : p (.revokeFlow flow)) : Change p t (t.revokeFlow flow)

/-- `mint_or_reuse` reuses, or changes the table. -/
theorem mintOrReuse_change {p : Call → Prop} {t : CapTable} {draws : List CapId}
    (hnew : ∀ id ∈ draws, id ∉ t.drawn) {holder target : FlowId} {rights : CapRights}
    (hp : p (.mintOrReuse holder target rights)) :
    (t.mintOrReuse draws holder target rights).1 = t ∨
      Change p t (t.mintOrReuse draws holder target rights).1 := by
  rcases t.mintOrReuse_cases draws holder target rights with
    ⟨id, _, _, h⟩ | ⟨hstale, ⟨id, hmem, hnone, hfree, _, h⟩ | ⟨e, h⟩⟩
  · exact .inl (congrArg Prod.fst h)
  · rw [h]
    exact .inr (.index holder target rights hp hstale id hnone hfree (hnew id hmem))
  · rw [h]
    exact .inr (.clear holder target rights hp hstale)

/-- A call is a sequence of changes. -/
theorem Call.run_changes {p : Call → Prop} {c : Call} (hc : p c) {t : CapTable}
    {draws : List (List CapId)} (hnew : ∀ ds ∈ draws, ∀ id ∈ ds, id ∉ t.drawn) :
    Relation.ReflTransGen (Change p) t (c.run (t, draws)).1.1 := by
  have hhead : ∀ id ∈ Session.draws (t, draws), id ∉ t.drawn := by
    cases draws with
    | nil => exact fun id h => absurd h List.not_mem_nil
    | cons ds draws => exact hnew ds List.mem_cons_self
  cases c with
  | bindFlow flow => exact .single (.bind flow)
  | mint holder target rights =>
    rcases mint_cases holder target rights (t, draws) with
      ⟨id, hmem, hnone, hfree, epoch, h⟩ | ⟨draws', e, h⟩
    · simp only [Call.run, h]
      refine (Relation.ReflTransGen.single (.bind target)).tail (.add id hnone ?_ ?_ _)
      · rw [bindFlow_entries]
        exact hfree
      · rw [bindFlow_drawn]
        exact hhead id hmem
    · simp only [Call.run, h]
      exact .single (.bind target)
  | mintOrReuse holder target rights =>
    rcases mintOrReuse_change hhead hc with h | h
    · exact h.symm ▸ .refl
    · exact .single h
  | grant holder cap =>
    rcases t.insert_cases (Session.draws (t, draws)) ⟨holder, cap⟩ with
      ⟨id, hmem, hnone, hfree, h⟩ | ⟨e, h⟩
    · simp only [Call.run, Session.exec, exec, h]
      exact .single (.add id hnone hfree (hhead id hmem) _)
    · simp only [Call.run, Session.exec, exec, h]
      exact .refl
  | attenuate id fromHolder toHolder wantRights wantNative =>
    rcases attenuate_cases id fromHolder toHolder wantRights wantNative (t, draws) with
      ⟨src, flow, _, _, id', hmem, hnone, hfree, h⟩ | ⟨draws', e, h⟩
    · simp only [Call.run, h]
      exact .single (.add id' hnone hfree (hhead id' hmem) _)
    · simp only [Call.run, h]
      exact .refl
  | delegate id fromHolder toHolder =>
    rcases delegate_cases id fromHolder toHolder (t, draws) with
      ⟨src, flow, _, _, id', hmem, hnone, hfree, h⟩ | ⟨draws', e, h⟩
    · simp only [Call.run, h]
      exact .single (.add id' hnone hfree (hhead id' hmem) _)
    · simp only [Call.run, h]
      exact .refl
  | reissueFor id newHolder =>
    rcases reissueFor_cases id newHolder (t, draws) with
      ⟨src, _, _, id', hmem, hnone, hfree, h⟩ | ⟨draws', e, h⟩
    · simp only [Call.run, h]
      exact .single (.add id' hnone hfree (hhead id' hmem) _)
    · simp only [Call.run, h]
      exact .refl
  | revokeFlow flow => exact .single (.revoke flow hc)

/-- The rule of runs: what every change keeps holds at the end. -/
theorem Run.induct {p : Call → Prop} {motive : CapTable → Prop}
    (hstep : ∀ t t', Change p t t' → motive t → motive t') {t t' : CapTable} (h : Run p t t')
    (h₀ : motive t) : motive t' := by
  induction h with
  | refl => exact h₀
  | @call t' _ c hc draws hnew ih =>
    have hkept (t'') (h : Relation.ReflTransGen (Change p) t' t'') : motive t'' := by
      induction h with
      | refl => exact ih
      | tail _ hchange ih => exact hstep _ _ hchange ih
    exact hkept _ (Call.run_changes hc hnew)

end Byteflow.CapTable
