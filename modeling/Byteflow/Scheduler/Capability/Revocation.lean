import Byteflow.Scheduler.Capability.Calls

/-!
# Reply addresses and revocation

`mint_or_reuse` keeps one reply address for a holder and a target until one of the two is swept,
and a swept token is dead for good (`replyAddresses_stable_and_revocation_final`). The invariant of
the index is `Indexed`: an indexed token is a live `SEND` capability of its pair.
-/

namespace Byteflow.CapTable

open Function (update)

/-- Reply addresses carry the `SEND` right only. -/
def SendOnly : Call → Prop
  | .mintOrReuse _ _ rights => rights = CapRights.send
  | _ => True

/-- The calls that do not sweep either of two flows. -/
def Keeps (holder target : FlowId) (c : Call) : Prop :=
  SendOnly c ∧ c ≠ .revokeFlow holder ∧ c ≠ .revokeFlow target

/-- A token that resolves for the holder to the target with exactly `SEND`. -/
def IsReply (t : CapTable) (holder target : FlowId) (id : CapId) : Prop :=
  id ≠ CapId.none ∧ ∃ cell, t.flowCells target = some cell ∧
    t.entries id = some ⟨holder, ⟨.flow target, CapRights.send, none, t.epoch cell⟩⟩

/-- What the index says is so, and no two flows share a cell. -/
structure Indexed (t : CapTable) : Prop where
  reply : ∀ {holder target id}, t.replyIndex holder target = some id → t.IsReply holder target id
  cells : ∀ {f g cell}, t.flowCells f = some cell → t.flowCells g = some cell → f = g
  bound : ∀ {f cell}, t.flowCells f = some cell → cell < t.nextCell

theorem IsReply.isLive {t : CapTable} {holder target : FlowId} {id : CapId}
    (h : t.IsReply holder target id) :
    t.replyCapIsLive id holder target CapRights.send = true := by
  obtain ⟨_, cell, hcell, hentry⟩ := h
  have hcontains : CapRights.send.contains CapRights.send = true := by decide
  simp [replyCapIsLive, hentry, hcontains, CapTable.isLive, hcell, Cap.isValid]

theorem IsReply.resolve {t : CapTable} {holder target : FlowId} {id : CapId}
    (h : t.IsReply holder target id) : ∃ epoch, t.resolve id holder CapRights.send =
      .ok ⟨holder, ⟨.flow target, CapRights.send, none, epoch⟩⟩ := by
  obtain ⟨hnone, cell, hcell, hentry⟩ := h
  refine ⟨t.epoch cell, ?_⟩
  have hcontains : CapRights.send.contains CapRights.send = true := by decide
  simp [CapTable.resolve, lookup, hnone, hentry, hcontains, CapTable.isLive, hcell, Cap.isValid]

/-- With one token a holder addresses one target. -/
theorem IsReply.unique {t : CapTable} {holder target holder' target' : FlowId} {id : CapId}
    (h : t.IsReply holder target id) (h' : t.IsReply holder' target' id) :
    holder = holder' ∧ target = target' := by
  obtain ⟨_, cell, _, hentry⟩ := h
  obtain ⟨_, cell', _, hentry'⟩ := h'
  have heq := hentry.symm.trans hentry'
  simp only [Option.some.injEq, Capability.mk.injEq, Cap.mk.injEq, CapTarget.flow.injEq] at heq
  exact ⟨heq.1, heq.2.1⟩

/-! ## Changes -/

theorem IsReply.bindFlow {t : CapTable} {holder target : FlowId} {id : CapId}
    (h : t.IsReply holder target id) (flow : FlowId) :
    (t.bindFlow flow).1.IsReply holder target id := by
  obtain ⟨hnone, cell, hcell, hentry⟩ := h
  refine ⟨hnone, cell, ?_, ?_⟩
  · unfold CapTable.bindFlow
    split
    · exact hcell
    · rename_i hfree
      have : target ≠ flow := by
        rintro rfl
        cases hfree.symm.trans hcell
      exact (Function.update_of_ne this ..).trans hcell
  · rw [bindFlow_entries, bindFlow_epoch]
    exact hentry

theorem IsReply.add {t : CapTable} {holder target : FlowId} {id : CapId}
    (h : t.IsReply holder target id) {id' : CapId} (hfree : t.entries id' = none)
    (entry : Capability) : (t.add id' entry).IsReply holder target id := by
  obtain ⟨hnone, cell, hcell, hentry⟩ := h
  refine ⟨hnone, cell, hcell, ?_⟩
  have : id ≠ id' := by
    rintro rfl
    cases hfree.symm.trans hentry
  exact (Function.update_of_ne this ..).trans hentry

theorem IsReply.revokeFlow {t : CapTable} (hi : t.Indexed) {holder target : FlowId} {id : CapId}
    (h : t.IsReply holder target id) {flow : FlowId} (hh : holder ≠ flow) (ht : target ≠ flow) :
    (t.revokeFlow flow).IsReply holder target id := by
  obtain ⟨hnone, cell, hcell, hentry⟩ := h
  have hepoch : (t.revokeFlow flow).epoch cell = t.epoch cell := by
    show ((t.flowCells flow).elim t.epoch fun c => update t.epoch c (t.epoch c + 1)) cell = _
    cases hflow : t.flowCells flow with
    | none => rfl
    | some c =>
      have : cell ≠ c := by
        rintro rfl
        exact ht (hi.cells hcell hflow)
      exact Function.update_of_ne this ..
  refine ⟨hnone, cell, (Function.update_of_ne ht ..).trans hcell, ?_⟩
  rw [hepoch]
  show (t.entries id).filter _ = _
  rw [hentry, Option.filter_some, if_pos]
  simpa using ⟨hh, ht⟩

theorem Indexed.bindFlow {t : CapTable} (hi : t.Indexed) (flow : FlowId) :
    (t.bindFlow flow).1.Indexed where
  reply h := by
    rw [bindFlow_replyIndex] at h
    exact (hi.reply h).bindFlow flow
  cells {f g cell} hf hg := by
    rcases t.bindFlow_cases flow with ⟨_, _, h⟩ | ⟨_, h⟩ <;> rw [h] at hf hg
    · exact hi.cells hf hg
    · simp only [Function.update_apply] at hf hg
      split at hf <;> split at hg
      · simp_all
      · cases hf
        exact absurd (hi.bound hg) (lt_irrefl _)
      · cases hg
        exact absurd (hi.bound hf) (lt_irrefl _)
      · exact hi.cells hf hg
  bound {f cell} hf := by
    rcases t.bindFlow_cases flow with ⟨_, _, h⟩ | ⟨_, h⟩ <;> rw [h] at hf ⊢
    · exact hi.bound hf
    · simp only [Function.update_apply] at hf
      split at hf
      · cases hf
        exact Nat.lt_succ_self _
      · exact Nat.lt_succ_of_lt (hi.bound hf)

theorem Indexed.setReply_none {t : CapTable} (hi : t.Indexed) (holder target : FlowId) :
    (t.setReply holder target none).Indexed where
  reply h := by
    rcases setReply_eq h with ⟨_, _, h⟩ | h
    · cases h
    · exact hi.reply h
  cells := hi.cells
  bound := hi.bound

theorem Indexed.add {t : CapTable} (hi : t.Indexed) {id : CapId} (hfree : t.entries id = none)
    (entry : Capability) : (t.add id entry).Indexed where
  reply h := (hi.reply h).add hfree entry
  cells := hi.cells
  bound := hi.bound

theorem Indexed.cleared {t : CapTable} (hi : t.Indexed) (holder target : FlowId) :
    (t.cleared holder target).Indexed :=
  (hi.setReply_none holder target).bindFlow target

/-- The new reply address. -/
theorem isReply_index {t : CapTable} {holder target : FlowId} {id : CapId}
    (hnone : id ≠ CapId.none) :
    (((t.cleared holder target).add id (t.replyEntry holder target CapRights.send)).setReply
      holder target (some id)).IsReply holder target id :=
  ⟨hnone, _, bindFlow_cell .., Function.update_self ..⟩

theorem Indexed.revokeFlow {t : CapTable} (hi : t.Indexed) (flow : FlowId) :
    (t.revokeFlow flow).Indexed where
  reply {holder target id} h := by
    have h : (if holder ≠ flow ∧ target ≠ flow then t.replyIndex holder target else none) =
        some id := h
    split at h
    · rename_i hne
      exact (hi.reply h).revokeFlow hi hne.1 hne.2
    · cases h
  cells {f g cell} hf hg := by
    simp only [CapTable.revokeFlow, Function.update_apply] at hf hg
    split at hf <;> split at hg
    · cases hf
    · cases hf
    · cases hg
    · exact hi.cells hf hg
  bound {f cell} hf := by
    simp only [CapTable.revokeFlow, Function.update_apply] at hf
    split at hf
    · cases hf
    · exact hi.bound hf

theorem Indexed.index {t : CapTable} (hi : t.Indexed) {holder target : FlowId} {id : CapId}
    (hnone : id ≠ CapId.none) (hfree : t.entries id = none) :
    (((t.cleared holder target).add id (t.replyEntry holder target CapRights.send)).setReply
      holder target (some id)).Indexed := by
  have hentries : (t.cleared holder target).entries = t.entries := bindFlow_entries ..
  have hadd := (hi.cleared holder target).add (hentries ▸ hfree)
    (t.replyEntry holder target CapRights.send)
  refine ⟨fun h => ?_, hadd.cells, hadd.bound⟩
  rcases setReply_eq h with ⟨rfl, rfl, hr⟩ | h
  · cases hr
    exact isReply_index hnone
  · exact hadd.reply h

theorem Indexed.change {t t' : CapTable} (hi : t.Indexed) (h : Change SendOnly t t') :
    t'.Indexed := by
  cases h with
  | bind flow => exact hi.bindFlow flow
  | clear holder target => exact hi.cleared holder target
  | add id _ hfree _ entry => exact hi.add hfree entry
  | index holder target rights hp _ id hnone hfree =>
    obtain rfl : rights = CapRights.send := hp
    exact hi.index hnone hfree
  | revoke flow => exact hi.revokeFlow flow

theorem Indexed.new : CapTable.new.Indexed :=
  ⟨nofun, nofun, nofun⟩

theorem Run.indexed {t : CapTable} (h : Run SendOnly new t) : t.Indexed :=
  h.induct (fun _ _ hchange hi => hi.change hchange) .new

/-! ## Stability -/

/-- An indexed reply address stays so as long as neither flow is swept. -/
theorem reply_change {t t' : CapTable} (hi : t.Indexed) {holder target : FlowId} {id : CapId}
    (hid : t.replyIndex holder target = some id) (h : Change (Keeps holder target) t t') :
    t'.replyIndex holder target = some id := by
  -- an index that is cleared is not that of a live address
  have hother {h' f' rights} (hp : Keeps holder target (.mintOrReuse h' f' rights))
      (hstale : ∀ id, t.replyIndex h' f' = some id →
        t.replyCapIsLive id h' f' rights = false) : ¬(holder = h' ∧ target = f') := by
    rintro ⟨rfl, rfl⟩
    obtain rfl : rights = CapRights.send := hp.1
    exact Bool.false_ne_true ((hstale id hid).symm.trans (hi.reply hid).isLive)
  cases h with
  | bind flow =>
    rw [bindFlow_replyIndex]
    exact hid
  | clear h' f' rights hp hstale =>
    rw [cleared_replyIndex, setReply_of_ne (hother hp hstale)]
    exact hid
  | add => exact hid
  | index h' f' rights hp hstale =>
    rw [setReply_of_ne (hother hp hstale)]
    show (t.cleared h' f').replyIndex holder target = _
    rw [cleared_replyIndex, setReply_of_ne (hother hp hstale)]
    exact hid
  | revoke flow hp =>
    show (if holder ≠ flow ∧ target ≠ flow then t.replyIndex holder target else none) = _
    rw [if_pos]
    · exact hid
    · exact ⟨fun h => hp.2.1 (h ▸ rfl), fun h => hp.2.2 (h ▸ rfl)⟩

theorem Change.mono {p q : Call → Prop} (hpq : ∀ c, p c → q c) {t t' : CapTable}
    (h : Change p t t') : Change q t t' := by
  cases h with
  | bind flow => exact .bind flow
  | clear holder target rights hp hstale => exact .clear holder target rights (hpq _ hp) hstale
  | add id hnone hfree hdrawn entry => exact .add id hnone hfree hdrawn entry
  | index holder target rights hp hstale id hnone hfree hdrawn =>
    exact .index holder target rights (hpq _ hp) hstale id hnone hfree hdrawn
  | revoke flow hp => exact .revoke flow (hpq _ hp)

theorem Run.reply {t t' : CapTable} (hi : t.Indexed) {holder target : FlowId} {id : CapId}
    (hid : t.replyIndex holder target = some id) (h : Run (Keeps holder target) t t') :
    t'.Indexed ∧ t'.replyIndex holder target = some id :=
  h.induct (motive := fun t => t.Indexed ∧ t.replyIndex holder target = some id)
    (fun _ _ hchange ⟨hi, hid⟩ =>
      ⟨hi.change (hchange.mono fun _ hp => hp.1), reply_change hi hid hchange⟩) ⟨hi, hid⟩

/-- What `mint_or_reuse` returns is indexed. -/
theorem Indexed.mintOrReuse {t t' : CapTable} (hi : t.Indexed) {draws : List CapId}
    {holder target : FlowId} {id : CapId}
    (h : t.mintOrReuse draws holder target CapRights.send = (t', .ok id)) :
    t'.Indexed ∧ t'.replyIndex holder target = some id := by
  rcases t.mintOrReuse_cases draws holder target CapRights.send with
    ⟨id', hid, _, h'⟩ | ⟨hstale, ⟨id', _, hnone, hfree, _, h'⟩ | ⟨e, h'⟩⟩
  · cases h.symm.trans h'
    exact ⟨hi, hid⟩
  · cases h.symm.trans h'
    exact ⟨hi.index hnone hfree, by simp only [setReply, Function.update_self]⟩
  · cases h.symm.trans h'

/-! ## Finality -/

/-- A token of a flow that was drawn; in the table it is only for that flow. -/
def Concerns (flow : FlowId) (id : CapId) (t : CapTable) : Prop :=
  id ∈ t.drawn ∧ ∀ e, t.entries id = some e → e.holder = flow ∨ e.cap.target = .flow flow

/-- A token that was drawn and is not in the table. -/
def Dead (id : CapId) (t : CapTable) : Prop := id ∈ t.drawn ∧ t.entries id = none

/-- What a change leaves of the entry of a token that was drawn. -/
theorem Change.entries {p : Call → Prop} {t t' : CapTable} (h : Change p t t') {id : CapId}
    (hid : id ∈ t.drawn) :
    id ∈ t'.drawn ∧ (t'.entries id = t.entries id ∨ t'.entries id = none) := by
  cases h with
  | bind flow =>
    rw [bindFlow_entries, bindFlow_drawn]
    exact ⟨hid, .inl rfl⟩
  | clear holder target =>
    unfold CapTable.cleared
    rw [bindFlow_entries, bindFlow_drawn]
    exact ⟨hid, .inl rfl⟩
  | add id' _ _ hdrawn entry =>
    have : id ≠ id' := fun h => hdrawn (h ▸ hid)
    exact ⟨List.mem_cons_of_mem _ hid, .inl (Function.update_of_ne this ..)⟩
  | index holder target _ _ _ id' _ _ hdrawn =>
    have hne : id ≠ id' := fun h => hdrawn (h ▸ hid)
    have hdrawn' : (t.cleared holder target).drawn = t.drawn := bindFlow_drawn ..
    have hentries : (t.cleared holder target).entries = t.entries := bindFlow_entries ..
    refine ⟨List.mem_cons_of_mem _ (hdrawn' ▸ hid), .inl ?_⟩
    exact (Function.update_of_ne hne ..).trans (congrFun hentries id)
  | revoke flow =>
    refine ⟨hid, ?_⟩
    show (t.entries id).filter _ = _ ∨ (t.entries id).filter _ = _
    cases t.entries id with
    | none => exact .inl rfl
    | some e =>
      rw [Option.filter_some]
      split
      · exact .inl rfl
      · exact .inr rfl

theorem Run.concerns {p : Call → Prop} {t t' : CapTable} (h : Run p t t') {flow : FlowId}
    {id : CapId} (hc : Concerns flow id t) : Concerns flow id t' := by
  refine h.induct (motive := Concerns flow id) (fun t t' hchange ⟨hid, he⟩ => ?_) hc
  obtain ⟨hid', hentry | hentry⟩ := hchange.entries hid
  · exact ⟨hid', fun e h => he e (hentry ▸ h)⟩
  · exact ⟨hid', fun e h => nomatch hentry.symm.trans h⟩

theorem Run.dead {p : Call → Prop} {t t' : CapTable} (h : Run p t t') {id : CapId}
    (hd : Dead id t) : Dead id t' := by
  refine h.induct (motive := Dead id) (fun t t' hchange ⟨hid, he⟩ => ?_) hd
  obtain ⟨hid', hentry | hentry⟩ := hchange.entries hid
  · exact ⟨hid', hentry.trans he⟩
  · exact ⟨hid', hentry⟩

/-- The sweep of a flow kills what concerns it. -/
theorem Concerns.revokeFlow {flow : FlowId} {id : CapId} {t : CapTable} (h : Concerns flow id t) :
    Dead id (t.revokeFlow flow) := by
  refine ⟨h.1, ?_⟩
  show (t.entries id).filter _ = none
  cases he : t.entries id with
  | none => rfl
  | some e =>
    rw [Option.filter_some, if_neg]
    have := h.2 e he
    simp only [ne_eq, decide_eq_true_eq, not_and, not_not]
    exact fun hne => this.resolve_left hne

theorem Dead.resolve {id : CapId} {t : CapTable} (h : Dead id t) (holder : FlowId)
    (required : CapRights) : t.resolve id holder required = .error .unknown := by
  simp [CapTable.resolve, lookup, h.2]

/-- What is in the table was drawn. -/
theorem Run.drawn {p : Call → Prop} {t : CapTable} (h : Run p new t) {id : CapId}
    {e : Capability} (he : t.entries id = some e) : id ∈ t.drawn := by
  suffices hall : ∀ id e, t.entries id = some e → id ∈ t.drawn from hall id e he
  refine h.induct (motive := fun t => ∀ id e, t.entries id = some e → id ∈ t.drawn)
    (fun t t' hchange hall id e he => ?_) nofun
  by_cases hid : id ∈ t.drawn
  · exact (hchange.entries hid).1
  have hfree : t.entries id = none := by
    cases h : t.entries id with
    | none => rfl
    | some e => exact absurd (hall id e h) hid
  cases hchange with
  | bind flow =>
    rw [bindFlow_entries] at he
    cases hfree.symm.trans he
  | clear holder target =>
    have hentries : (t.cleared holder target).entries = t.entries := bindFlow_entries ..
    rw [hentries] at he
    cases hfree.symm.trans he
  | add id' =>
    by_cases hne : id = id'
    · exact hne ▸ List.mem_cons_self
    · cases hfree.symm.trans ((Function.update_of_ne hne ..).symm.trans he)
  | index holder target _ _ _ id' =>
    by_cases hne : id = id'
    · exact hne ▸ List.mem_cons_self
    · have hentries : (t.cleared holder target).entries = t.entries := bindFlow_entries ..
      rw [← hentries] at hfree
      cases hfree.symm.trans ((Function.update_of_ne hne ..).symm.trans he)
  | revoke flow =>
    have he : (t.entries id).filter _ = some e := he
    rw [hfree] at he
    cases he

/-- In every run, a reply address resolves for its holder to its target with exactly the `SEND`
right; `mint_or_reuse` returns the same one until the holder or the target is swept, and no pair
has two; a token held by a swept flow, or for it, never resolves again. -/
theorem replyAddresses_stable_and_revocation_final {t : CapTable} (h : Run SendOnly new t) :
    (∀ holder target draws t' id,
      t.mintOrReuse draws holder target CapRights.send = (t', .ok id) →
      (∃ epoch, t'.resolve id holder CapRights.send =
        .ok ⟨holder, ⟨.flow target, CapRights.send, none, epoch⟩⟩) ∧
      ∀ t'', Run (Keeps holder target) t' t'' → ∀ draws',
        t''.mintOrReuse draws' holder target CapRights.send = (t'', .ok id)) ∧
    (∀ holder target holder' target' id, t.replyIndex holder target = some id →
      (∃ epoch, t.entries id = some ⟨holder, ⟨.flow target, CapRights.send, none, epoch⟩⟩) ∧
      (t.replyIndex holder' target' = some id → holder' = holder ∧ target' = target)) ∧
    ∀ flow id e, t.entries id = some e → e.holder = flow ∨ e.cap.target = .flow flow →
      ∀ t', Run SendOnly t t' → ∀ t'', Run SendOnly (t'.revokeFlow flow) t'' →
        ∀ holder required, t''.resolve id holder required = .error .unknown := by
  have hi := h.indexed
  refine ⟨fun holder target draws t' id hmint => ?_, fun holder target holder' target' id hid => ?_,
    fun flow id e he hflow t' ht' t'' ht'' holder required => ?_⟩
  · obtain ⟨hi', hid⟩ := hi.mintOrReuse hmint
    refine ⟨(hi'.reply hid).resolve, fun t'' hrun draws' => ?_⟩
    obtain ⟨hi'', hid''⟩ := hrun.reply hi' hid
    rcases t''.mintOrReuse_cases draws' holder target CapRights.send with
      ⟨id', hid', _, h'⟩ | ⟨hstale, _⟩
    · cases hid''.symm.trans hid'
      exact h'
    · exact absurd ((hstale id hid'').symm.trans (hi''.reply hid'').isLive) Bool.false_ne_true
  · have hreply := hi.reply hid
    obtain ⟨_, _, _, hentry⟩ := hi.reply hid
    exact ⟨⟨_, hentry⟩, fun hid' => (hi.reply hid').unique hreply⟩
  · have hc : Concerns flow id t := ⟨h.drawn he, fun e' he' => by
      cases he.symm.trans he'
      exact hflow⟩
    exact (ht''.dead (ht'.concerns hc).revokeFlow).resolve holder required

/-- Flow 1 has a reply address for flow 2. -/
def addressed : CapTable := (Call.run (new, [[⟨5⟩]]) (.mintOrReuse 1 2 CapRights.send)).1.1

theorem addressed_run : Run SendOnly new addressed :=
  (Run.refl new).call (p := SendOnly) (.mintOrReuse 1 2 CapRights.send) rfl [[⟨5⟩]] (by decide)

/-- The address is reused, and dead once flow 2 is swept and addressed anew. -/
theorem replyAddresses_stable_and_revocation_final_addressed :
    addressed.mintOrReuse [⟨6⟩] 1 2 CapRights.send = (addressed, .ok ⟨5⟩) ∧
    ∀ required, (Call.run (addressed.revokeFlow 2, [[⟨6⟩]])
      (.mintOrReuse 1 2 CapRights.send)).1.1.resolve ⟨5⟩ 1 required = .error .unknown := by
  have h := replyAddresses_stable_and_revocation_final addressed_run
  have hmint : addressed.mintOrReuse [] 1 2 CapRights.send = (addressed, .ok ⟨5⟩) := rfl
  have hentry : addressed.entries ⟨5⟩ = some ⟨1, ⟨.flow 2, CapRights.send, none, 0⟩⟩ := rfl
  have hrun : Run SendOnly (addressed.revokeFlow 2) (Call.run (addressed.revokeFlow 2, [[⟨6⟩]])
      (.mintOrReuse 1 2 CapRights.send)).1.1 :=
    (Run.refl (addressed.revokeFlow 2)).call (p := SendOnly) (.mintOrReuse 1 2 CapRights.send) rfl
      [[⟨6⟩]] (by decide)
  exact ⟨(h.1 1 2 [] addressed ⟨5⟩ hmint).2 addressed (.refl _) [⟨6⟩], fun required =>
    h.2.2 2 ⟨5⟩ _ hentry (.inr rfl) addressed (.refl _) _ hrun 1 required⟩

end Byteflow.CapTable
