import Byteflow.Scheduler.Capability.Calls

/-!
# No escalation

Along any sequence of grants and derivations no capability has more rights, or allows more natives,
than one that it was derived from (`noEscalation`). A `Lineage` remembers where each token and each
flow's self-authority comes from: the records of its ancestors, the nearest first, and the records
that the host or the runtime granted without a source.
-/

namespace Byteflow

open Function (update)

/-- The table, the self-authorities of the flows, and their ancestry, which nothing reads. -/
structure Lineage where
  session : CapTable.Session
  authority : FlowId → Option Cap
  tokenAncestors : CapId → List Cap
  flowAncestors : FlowId → List Cap
  granted : List Cap

namespace Lineage

open CapTable

def init (draws : List (List CapId)) : Lineage where
  session := (CapTable.new, draws)
  authority := fun _ => none
  tokenAncestors := fun _ => []
  flowAncestors := fun _ => []
  granted := []

/-- Where a record that is granted comes from. -/
inductive Grant
  /-- A record that the host makes. -/
  | root (cap : Cap)
  /-- A part of the self-authority of a flow. -/
  | authority (flow : FlowId) (wantRights : CapRights) (wantNative : Option NativeMask)
  deriving DecidableEq

/-- A grant or a derivation. What a cell reads when a flow is spawned, and whether the spawn bucket
has a token, is an input. -/
inductive Op
  | mint (holder target : FlowId) (rights : CapRights)
  | mintOrReuse (holder target : FlowId) (rights : CapRights)
  | grant (holder : FlowId) (source : Grant)
  | attenuate (id : CapId) (fromHolder toHolder : FlowId) (wantRights : CapRights)
      (wantNative : Option NativeMask)
  | delegate (id : CapId) (fromHolder toHolder : FlowId)
  | reissueFor (id : CapId) (newHolder : FlowId)
  | spawnHost (child : FlowId) (nativeCount : ℕ) (childEpoch : UInt64)
  | spawn (parent child : FlowId) (parentEpoch : UInt64) (token : Bool)
      (requestedRights : CapRights) (requestedNative : Option NativeMask) (childEpoch : UInt64)
  | revokeFlow (flow : FlowId)
  deriving DecidableEq

/-- The records that a token is derived from, itself first. -/
def ofToken (s : Lineage) (id : CapId) : List Cap :=
  match s.session.1.entries id with
  | some entry => entry.cap :: s.tokenAncestors id
  | none => []

/-- The records that a self-authority is derived from, itself first. -/
def ofFlow (s : Lineage) (flow : FlowId) : List Cap :=
  match s.authority flow with
  | some cap => cap :: s.flowAncestors flow
  | none => []

/-- The table after a call. The token it returned, if it is new, has the ancestors given; one
without any was granted. -/
def record (s : Lineage) (r : Session × Option CapId) (ancestors : List Cap) : Lineage :=
  match r.2 with
  | none => { s with session := r.1 }
  | some id =>
    if (s.session.1.entries id).isSome then { s with session := r.1 }
    else { s with
      session := r.1
      tokenAncestors := update s.tokenAncestors id ancestors
      granted := if ancestors = [] then
          (r.1.1.entries id).toList.map (·.cap) ++ s.granted
        else s.granted }

/-- A flow with a self-authority. -/
def settle (s : Lineage) (flow : FlowId) (cap : Cap) (ancestors : List Cap) : Lineage :=
  { s with
    authority := update s.authority flow (some cap)
    flowAncestors := update s.flowAncestors flow ancestors
    granted := if ancestors = [] then cap :: s.granted else s.granted }

def step (s : Lineage) : Op → Lineage
  | .mint holder target rights => s.record (Call.run s.session (.mint holder target rights)) []
  | .mintOrReuse holder target rights =>
    s.record (Call.run s.session (.mintOrReuse holder target rights)) []
  | .grant holder (.root cap) => s.record (Call.run s.session (.grant holder cap)) []
  | .grant holder (.authority flow wantRights wantNative) =>
    match s.authority flow with
    | none => s
    | some cap =>
      s.record (Call.run s.session (.grant holder (cap.attenuate wantRights wantNative)))
        (s.ofFlow flow)
  | .attenuate id fromHolder toHolder wantRights wantNative =>
    s.record (Call.run s.session (.attenuate id fromHolder toHolder wantRights wantNative))
      (s.ofToken id)
  | .delegate id fromHolder toHolder =>
    s.record (Call.run s.session (.delegate id fromHolder toHolder)) (s.ofToken id)
  | .reissueFor id newHolder =>
    s.record (Call.run s.session (.reissueFor id newHolder)) (s.ofToken id)
  | .spawnHost child nativeCount childEpoch =>
    s.settle child ⟨.flow child, CapRights.root, some (NativeMask.full nativeCount), childEpoch⟩ []
  | .spawn parent child parentEpoch token requestedRights requestedNative childEpoch =>
    match s.authority parent with
    | none => s
    | some parentCap =>
      match execSpawnAuthority parentCap parentEpoch token child requestedRights requestedNative
        childEpoch with
      | .ok cap => s.settle child cap (s.ofFlow parent)
      | .error _ => s
  | .revokeFlow flow => s.record (Call.run s.session (.revokeFlow flow)) []

/-- The state after a sequence of operations. -/
def run (s : Lineage) (ops : List Op) : Lineage := ops.foldl step s

/-! ## The invariant -/

/-- A record has no more than its ancestors, the last of which was granted. -/
structure Narrow (cap : Cap) (ancestors granted : List Cap) : Prop where
  le : ∀ a ∈ ancestors, cap.Le a
  root : ∃ root ∈ granted, (cap :: ancestors).getLast? = some root

theorem Narrow.granted (cap : Cap) (granted : List Cap) : Narrow cap [] (cap :: granted) :=
  ⟨fun _ h => absurd h List.not_mem_nil, cap, List.mem_cons_self, rfl⟩

theorem Narrow.mono {cap : Cap} {ancestors granted granted' : List Cap}
    (h : Narrow cap ancestors granted) (hsub : granted ⊆ granted') :
    Narrow cap ancestors granted' :=
  ⟨h.le, h.root.imp fun _ hr => ⟨hsub hr.1, hr.2⟩⟩

theorem Narrow.derive {cap src : Cap} {ancestors granted : List Cap}
    (h : Narrow src ancestors granted) (hle : cap.Le src) :
    Narrow cap (src :: ancestors) granted := by
  refine ⟨fun a ha => ?_, ?_⟩
  · rcases List.mem_cons.mp ha with rfl | ha
    · exact hle
    · exact hle.trans (h.le a ha)
  · obtain ⟨root, hroot, hlast⟩ := h.root
    refine ⟨root, hroot, ?_⟩
    rw [List.getLast?_cons_cons]
    exact hlast

/-- The `ADMIN` right comes from the root. -/
theorem Narrow.rights {cap : Cap} {ancestors granted : List Cap} (h : Narrow cap ancestors granted)
    {rights : CapRights} (hcap : cap.rights.contains rights) :
    ∃ root ∈ granted, (cap :: ancestors).getLast? = some root ∧ root.rights.contains rights := by
  obtain ⟨root, hroot, hlast⟩ := h.root
  refine ⟨root, hroot, hlast, ?_⟩
  rcases List.mem_cons.mp (List.mem_of_getLast? hlast) with rfl | hmem
  · exact hcap
  · exact CapRights.contains_trans (h.le root hmem).rights hcap

/-- Every record is narrow, and keeps the target of its source. -/
structure Sound (s : Lineage) : Prop where
  token : ∀ {id entry}, s.session.1.entries id = some entry →
    Narrow entry.cap (s.tokenAncestors id) s.granted
  tokenTarget : ∀ {id entry src}, s.session.1.entries id = some entry →
    (s.tokenAncestors id).head? = some src → entry.cap.target = src.target
  flow : ∀ {flow cap}, s.authority flow = some cap →
    Narrow cap (s.flowAncestors flow) s.granted
  flowTarget : ∀ {flow cap}, s.authority flow = some cap → cap.target = .flow flow

/-- Where a new record may come from: nowhere, or a narrow one that has all it has. -/
def Derives (s : Lineage) (cap : Cap) (ancestors : List Cap) : Prop :=
  ancestors = [] ∨ ∃ src rest, ancestors = src :: rest ∧ cap.Le src ∧ Narrow src rest s.granted

theorem Derives.narrow {s : Lineage} {cap : Cap} {ancestors : List Cap}
    (h : s.Derives cap ancestors) :
    Narrow cap ancestors (if ancestors = [] then cap :: s.granted else s.granted) := by
  rcases h with rfl | ⟨src, rest, rfl, hle, hsrc⟩
  · exact .granted cap s.granted
  · rw [if_neg (List.cons_ne_nil _ _)]
    exact hsrc.derive hle

theorem granted_subset (ancestors granted : List Cap) (cap : Cap) :
    granted ⊆ if ancestors = [] then cap :: granted else granted := by
  split
  · exact List.subset_cons_self ..
  · exact List.Subset.refl _

theorem Sound.settle {s : Lineage} (hs : s.Sound) {child : FlowId} {cap : Cap}
    {ancestors : List Cap} (htarget : cap.target = .flow child) (h : s.Derives cap ancestors) :
    (s.settle child cap ancestors).Sound where
  token he := (hs.token he).mono (granted_subset ..)
  tokenTarget := hs.tokenTarget
  flow {f c} hf := by
    simp only [Lineage.settle, Function.update_apply] at hf ⊢
    split at hf
    · rename_i heq
      cases hf
      rw [if_pos heq]
      exact h.narrow
    · rename_i hne
      rw [if_neg hne]
      exact (hs.flow hf).mono (granted_subset ..)
  flowTarget {f c} hf := by
    simp only [Lineage.settle, Function.update_apply] at hf
    split at hf
    · rename_i heq
      cases hf
      exact heq ▸ htarget
    · exact hs.flowTarget hf

/-- What a call does to the entries: one new token, or no more than before. -/
def Calls (s : Lineage) (r : Session × Option CapId) (ancestors : List Cap) : Prop :=
  ((∀ id entry, r.1.1.entries id = some entry → s.session.1.entries id = some entry) ∧
    ∀ id, r.2 = some id → (s.session.1.entries id).isSome) ∨
  ∃ id entry, s.session.1.entries id = none ∧ r.2 = some id ∧
    r.1.1.entries = update s.session.1.entries id (some entry) ∧ s.Derives entry.cap ancestors ∧
    ∀ src, ancestors.head? = some src → entry.cap.target = src.target

theorem Sound.record {s : Lineage} (hs : s.Sound) {r : Session × Option CapId}
    {ancestors : List Cap} (h : s.Calls r ancestors) : (s.record r ancestors).Sound := by
  rcases h with ⟨hkept, hold⟩ | ⟨id, entry, hfree, hid, hentries, hderives, htarget⟩
  · have hrecord : s.record r ancestors = { s with session := r.1 } := by
      unfold Lineage.record
      split
      · rfl
      · rename_i id hid
        rw [if_pos (hold id hid)]
    rw [hrecord]
    exact ⟨fun he => hs.token (hkept _ _ he), fun he => hs.tokenTarget (hkept _ _ he), hs.flow,
      hs.flowTarget⟩
  · have hrecord : s.record r ancestors = { s with
        session := r.1
        tokenAncestors := update s.tokenAncestors id ancestors
        granted := if ancestors = [] then entry.cap :: s.granted else s.granted } := by
      unfold Lineage.record
      simp [hid, hfree, hentries]
    rw [hrecord]
    refine ⟨fun {id' e} he => ?_, fun {id' e src} he hsrc => ?_,
      fun hf => (hs.flow hf).mono (granted_subset ..), hs.flowTarget⟩
    · simp only [hentries, Function.update_apply] at he ⊢
      split at he
      · rename_i heq
        cases he
        rw [if_pos heq]
        exact hderives.narrow
      · rename_i hne
        rw [if_neg hne]
        exact (hs.token he).mono (granted_subset ..)
    · simp only [hentries, Function.update_apply] at he hsrc
      split at he
      · rename_i heq
        cases he
        rw [if_pos heq] at hsrc
        exact htarget src hsrc
      · rename_i hne
        rw [if_neg hne] at hsrc
        exact hs.tokenTarget he hsrc

/-- A token that is derived from another one. -/
theorem Sound.ofToken {s : Lineage} (hs : s.Sound) {id : CapId} {src : Capability}
    (hsrc : s.session.1.entries id = some src) (wantRights : CapRights)
    (wantNative : Option NativeMask) :
    s.Derives (src.cap.attenuate wantRights wantNative) (s.ofToken id) ∧
      ∀ a, (s.ofToken id).head? = some a →
        (src.cap.attenuate wantRights wantNative).target = a.target := by
  have hof : s.ofToken id = src.cap :: s.tokenAncestors id := by
    unfold Lineage.ofToken
    rw [hsrc]
  rw [hof]
  refine ⟨.inr ⟨_, _, rfl, src.cap.attenuate_le .., hs.token hsrc⟩, fun a ha => ?_⟩
  cases ha
  rfl

/-- What is derived from the self-authority of a flow. -/
theorem Sound.ofFlow {s : Lineage} (hs : s.Sound) {flow : FlowId} {cap : Cap}
    (hcap : s.authority flow = some cap) :
    s.ofFlow flow = cap :: s.flowAncestors flow ∧
      ∀ c : Cap, c.Le cap → s.Derives c (s.ofFlow flow) := by
  have hof : s.ofFlow flow = cap :: s.flowAncestors flow := by
    unfold Lineage.ofFlow
    rw [hcap]
  refine ⟨hof, fun c hle => ?_⟩
  rw [hof]
  exact .inr ⟨_, _, rfl, hle, hs.flow hcap⟩

/-! ## Operations -/

/-- A new token for a record. -/
theorem calls_add {s : Lineage} {r : Session × Option CapId} {t : CapTable} {id : CapId}
    (entry : Capability) {ancestors : List Cap} (hfree : s.session.1.entries id = none)
    (ht : t.entries = s.session.1.entries) (hr : r.1.1.entries = (t.add id entry).entries)
    (hid : r.2 = some id) (h : s.Derives entry.cap ancestors ∧
      ∀ src, ancestors.head? = some src → entry.cap.target = src.target) :
    s.Calls r ancestors :=
  .inr ⟨id, entry, hfree, hid, hr.trans (ht ▸ rfl), h.1, h.2⟩

/-- A call that made no token. -/
theorem calls_same {s : Lineage} {r : Session × Option CapId} {ancestors : List Cap}
    (hr : r.1.1.entries = s.session.1.entries)
    (hold : ∀ id, r.2 = some id → (s.session.1.entries id).isSome) : s.Calls r ancestors :=
  .inl ⟨fun id _ he => (congrFun hr id).symm.trans he, hold⟩

theorem derives_root (s : Lineage) (cap : Cap) : s.Derives cap [] ∧
    ∀ src, ([] : List Cap).head? = some src → cap.target = src.target :=
  ⟨.inl rfl, nofun⟩

theorem calls_grant (s : Lineage) {cap : Cap} {ancestors : List Cap} (holder : FlowId)
    (h : s.Derives cap ancestors ∧
      ∀ src, ancestors.head? = some src → cap.target = src.target) :
    s.Calls (Call.run s.session (.grant holder cap)) ancestors := by
  rcases s.session.1.insert_cases s.session.draws ⟨holder, cap⟩ with
    ⟨id, _, _, hfree, hins⟩ | ⟨e, hins⟩
  · refine calls_add ⟨holder, cap⟩ hfree rfl ?_ ?_ h <;>
      simp [Call.run, Session.exec, exec, hins, Except.toOption]
  · refine calls_same ?_ ?_ <;> simp [Call.run, Session.exec, exec, hins, Except.toOption]

theorem calls_mint (s : Lineage) (holder target : FlowId) (rights : CapRights) :
    s.Calls (Call.run s.session (.mint holder target rights)) [] := by
  rcases mint_cases holder target rights s.session with
    ⟨id, _, _, hfree, epoch, h⟩ | ⟨draws, e, h⟩
  · refine calls_add ⟨holder, ⟨.flow target, rights, none, epoch⟩⟩ hfree
      (s.session.1.bindFlow_entries target) ?_ ?_ (s.derives_root _) <;>
      simp [Call.run, h, Except.toOption]
  · refine calls_same ?_ ?_ <;> simp [Call.run, h, Except.toOption, bindFlow_entries]

theorem calls_mintOrReuse (s : Lineage) (holder target : FlowId) (rights : CapRights) :
    s.Calls (Call.run s.session (.mintOrReuse holder target rights)) [] := by
  have hcleared : (s.session.1.cleared holder target).entries = s.session.1.entries :=
    bindFlow_entries ..
  rcases s.session.1.mintOrReuse_cases s.session.draws holder target rights with
    ⟨id, _, hlive, h⟩ | ⟨_, ⟨id, _, _, hfree, _, h⟩ | ⟨e, h⟩⟩
  · refine calls_same ?_ ?_
    · simp [Call.run, Session.exec, exec, h]
    · simp only [Call.run, Session.exec, exec, h, Except.toOption, Option.some.injEq]
      rintro _ rfl
      unfold replyCapIsLive at hlive
      split at hlive
      · cases hlive
      · rename_i he
        rw [he]
        rfl
  · refine calls_add (s.session.1.replyEntry holder target rights) hfree hcleared ?_ ?_
      (s.derives_root _)
    · simp only [Call.run, Session.exec, exec, h]
      rfl
    · simp [Call.run, Session.exec, exec, h, Except.toOption]
  · refine calls_same ?_ ?_ <;> simp [Call.run, Session.exec, exec, h, Except.toOption, hcleared]

theorem Sound.calls_attenuate {s : Lineage} (hs : s.Sound) (id : CapId)
    (fromHolder toHolder : FlowId) (wantRights : CapRights) (wantNative : Option NativeMask) :
    s.Calls (Call.run s.session (.attenuate id fromHolder toHolder wantRights wantNative))
      (s.ofToken id) := by
  rcases attenuate_cases id fromHolder toHolder wantRights wantNative s.session with
    ⟨src, flow, hres, _, id', _, _, hfree, h⟩ | ⟨draws, e, h⟩
  · refine calls_add ⟨toHolder, src.cap.attenuate wantRights wantNative⟩ hfree rfl ?_ ?_
      (hs.ofToken (resolve_ok hres).2.1 wantRights wantNative) <;>
      simp [Call.run, h, Except.toOption]
  · refine calls_same ?_ ?_ <;> simp [Call.run, h, Except.toOption]

theorem Sound.calls_delegate {s : Lineage} (hs : s.Sound) (id : CapId)
    (fromHolder toHolder : FlowId) :
    s.Calls (Call.run s.session (.delegate id fromHolder toHolder)) (s.ofToken id) := by
  rcases delegate_cases id fromHolder toHolder s.session with
    ⟨src, flow, hres, _, id', _, _, hfree, h⟩ | ⟨draws, e, h⟩
  · refine calls_add ⟨toHolder, src.cap.attenuate src.cap.rights src.cap.nativeMask⟩ hfree rfl
      ?_ ?_ (hs.ofToken (resolve_ok hres).2.1 _ _) <;>
      simp [Call.run, h, Except.toOption]
  · refine calls_same ?_ ?_ <;> simp [Call.run, h, Except.toOption]

theorem Sound.calls_reissueFor {s : Lineage} (hs : s.Sound) (id : CapId) (newHolder : FlowId) :
    s.Calls (Call.run s.session (.reissueFor id newHolder)) (s.ofToken id) := by
  rcases reissueFor_cases id newHolder s.session with
    ⟨src, _, hsrc, id', _, _, hfree, h⟩ | ⟨draws, e, h⟩
  · refine calls_add ⟨newHolder, src.cap.attenuate src.cap.rights src.cap.nativeMask⟩ hfree rfl
      ?_ ?_ (hs.ofToken hsrc _ _) <;>
      simp [Call.run, h, Except.toOption]
  · refine calls_same ?_ ?_ <;> simp [Call.run, h, Except.toOption]

/-- A sweep only removes. -/
theorem calls_revokeFlow (s : Lineage) (flow : FlowId) :
    s.Calls (Call.run s.session (.revokeFlow flow)) [] := by
  refine .inl ⟨fun id _ he => ?_, nofun⟩
  exact (Option.filter_eq_some_iff.mp he).1

theorem Sound.step {s : Lineage} (hs : s.Sound) (op : Op) : (s.step op).Sound := by
  cases op with
  | mint holder target rights => exact hs.record (s.calls_mint holder target rights)
  | mintOrReuse holder target rights => exact hs.record (s.calls_mintOrReuse holder target rights)
  | grant holder source =>
    cases source with
    | root cap => exact hs.record (s.calls_grant holder (s.derives_root cap))
    | authority flow wantRights wantNative =>
      cases hcap : s.authority flow with
      | none => simpa only [Lineage.step, hcap] using hs
      | some cap =>
        obtain ⟨hof, hderives⟩ := hs.ofFlow hcap
        simp only [Lineage.step, hcap]
        refine hs.record (s.calls_grant holder ⟨hderives _ (cap.attenuate_le ..), fun a ha => ?_⟩)
        rw [hof] at ha
        cases ha
        rfl
  | attenuate id fromHolder toHolder wantRights wantNative =>
    exact hs.record (hs.calls_attenuate id fromHolder toHolder wantRights wantNative)
  | delegate id fromHolder toHolder =>
    exact hs.record (hs.calls_delegate id fromHolder toHolder)
  | reissueFor id newHolder => exact hs.record (hs.calls_reissueFor id newHolder)
  | spawnHost child nativeCount childEpoch => exact hs.settle rfl (.inl rfl)
  | spawn parent child parentEpoch token requestedRights requestedNative childEpoch =>
    cases hparent : s.authority parent with
    | none => simpa only [Lineage.step, hparent] using hs
    | some parentCap =>
      cases hspawn : execSpawnAuthority parentCap parentEpoch token child requestedRights
        requestedNative childEpoch with
      | error e => simpa only [Lineage.step, hparent, hspawn] using hs
      | ok cap =>
        obtain ⟨_, rfl⟩ := execSpawnAuthority_ok hspawn
        simp only [Lineage.step, hparent, hspawn]
        refine hs.settle rfl ((hs.ofFlow hparent).2 _ ?_)
        have hle := parentCap.attenuate_le requestedRights requestedNative
        exact ⟨hle.rights, hle.natives⟩
  | revokeFlow flow => exact hs.record (s.calls_revokeFlow flow)

theorem Sound.init (draws : List (List CapId)) : (init draws).Sound :=
  ⟨nofun, nofun, nofun, nofun⟩

theorem Sound.run {s : Lineage} (hs : s.Sound) (ops : List Op) : (s.run ops).Sound := by
  induction ops generalizing s with
  | nil => exact hs
  | cons op ops ih => exact ih (hs.step op)

/-- Along any sequence of operations: a token has the target of its source, a self-authority is for
its own flow, and neither has a right or a native that one of its ancestors has not. The `ADMIN`
right comes from a record that was granted with it. -/
theorem noEscalation (draws : List (List CapId)) (ops : List Op) :
    let s := (init draws).run ops
    (∀ id entry, s.session.1.entries id = some entry →
      (∀ src, (s.tokenAncestors id).head? = some src → entry.cap.target = src.target) ∧
      (∀ a ∈ s.tokenAncestors id, a.rights.contains entry.cap.rights ∧
        ∀ idx, entry.cap.allows idx → a.allows idx) ∧
      (entry.cap.rights.contains CapRights.admin → ∃ root ∈ s.granted,
        (entry.cap :: s.tokenAncestors id).getLast? = some root ∧
          root.rights.contains CapRights.admin)) ∧
    ∀ flow cap, s.authority flow = some cap →
      cap.target = .flow flow ∧
      (∀ a ∈ s.flowAncestors flow, a.rights.contains cap.rights ∧
        ∀ idx, cap.allows idx → a.allows idx) ∧
      (cap.rights.contains CapRights.admin → ∃ root ∈ s.granted,
        (cap :: s.flowAncestors flow).getLast? = some root ∧
          root.rights.contains CapRights.admin) := by
  intro s
  have hs : s.Sound := (Sound.init draws).run ops
  refine ⟨fun id entry he => ?_, fun flow cap hcap => ?_⟩
  · refine ⟨fun src hsrc => hs.tokenTarget he hsrc, fun a ha => ?_, (hs.token he).rights⟩
    exact ⟨((hs.token he).le a ha).rights, ((hs.token he).le a ha).natives⟩
  · refine ⟨hs.flowTarget hcap, fun a ha => ?_, (hs.flow hcap).rights⟩
    exact ⟨((hs.flow hcap).le a ha).rights, ((hs.flow hcap).le a ha).natives⟩

/-- A flow that the host spawned delegates nothing with `ADMIN` to its child. -/
example :
    let s := (init [[⟨7⟩], [⟨8⟩]]).run
      [.spawnHost 1 70 0, .grant 1 (.authority 1 CapRights.flow none),
        .spawn 1 2 0 true ⟨0xff⟩ none 0, .reissueFor ⟨7⟩ 2]
    (s.ofToken ⟨8⟩).length = 3 ∧ (s.ofFlow 2).length = 2 ∧
      (s.ofFlow 2).head?.all fun cap => !cap.rights.contains CapRights.admin := by
  decide +kernel

end Lineage

end Byteflow
