import Mathlib.Logic.Function.Basic
import Byteflow.Foundations.Prog
import Byteflow.Vm.Native

/-!
# The capability table

`CapTable` of `scheduler/capability.rs`. A critical section is one `CapTable.Op`, as is the read of
a revocation cell outside of the lock; what is made of several (`mint`, `attenuate`, `delegate`) is
a program of them. A drawn token is an input: `draws` are the tokens that `CapId::random` yields
one after the other, and the list ends where the generator fails.
-/

namespace Byteflow

open Function (update)

/-- Why a token could not be made. -/
inductive RuntimeError
  | entropyFailed
  | capIdCollision
  deriving DecidableEq

/-- `Display`. -/
def RuntimeError.message : RuntimeError → String
  | entropyFailed => "capability CSPRNG unavailable"
  | capIdCollision => "could not allocate a unique capability id"

/-- Why a token was refused. -/
inductive CapError
  | unknown
  | notHolder
  | insufficientRights
  | wrongTarget
  | unavailable
  deriving DecidableEq

/-- `Display`. -/
def CapError.message : CapError → String
  | unknown => "unknown or revoked capability"
  | notHolder => "calling flow does not hold this capability"
  | insufficientRights => "capability lacks required rights"
  | wrongTarget => "capability target is not a flow"
  | unavailable => "capability table unavailable (poisoned lock)"

/-- A live entry: who may use the token, and what for. -/
structure Capability where
  holder : FlowId
  cap : Cap
  deriving DecidableEq

def Capability.target (c : Capability) : Option FlowId := c.cap.target.flowId

/-- `drawn` lists the tokens that were ever inserted. Nothing reads it. -/
structure CapTable where
  entries : CapId → Option Capability
  flowCells : FlowId → Option CellId
  /-- The reply address of a holder for a target. -/
  replyIndex : FlowId → FlowId → Option CapId
  epoch : CellId → UInt64
  nextCell : CellId
  drawn : List CapId

namespace CapTable

def nativeCell : CellId := 0

def schedulerCell : CellId := 1

def new : CapTable where
  entries := fun _ => none
  flowCells := fun _ => none
  replyIndex := fun _ _ => none
  epoch := fun _ => 0
  nextCell := 2
  drawn := []

/-! ## Critical sections -/

/-- Get or create the revocation cell of a flow. -/
def bindFlow (t : CapTable) (flow : FlowId) : CapTable × CellId :=
  match t.flowCells flow with
  | some cell => (t, cell)
  | none =>
    ({ t with
        flowCells := update t.flowCells flow (some t.nextCell)
        nextCell := t.nextCell + 1 },
      t.nextCell)

def mintAttempts : ℕ := 32

/-- The first drawn token that is none and not taken. -/
def freshId (t : CapTable) : ℕ → List CapId → Except RuntimeError CapId
  | 0, _ => .error .capIdCollision
  | _ + 1, [] => .error .entropyFailed
  | n + 1, id :: draws =>
    if id = CapId.none ∨ (t.entries id).isSome then t.freshId n draws else .ok id

def insert (t : CapTable) (draws : List CapId) (entry : Capability) :
    CapTable × Except RuntimeError CapId :=
  match t.freshId mintAttempts draws with
  | .ok id =>
    ({ t with entries := update t.entries id (some entry), drawn := id :: t.drawn }, .ok id)
  | .error e => (t, .error e)

/-- Whether the record is as old as the cell of what it addresses. -/
def isLive (t : CapTable) (cap : Cap) : Bool :=
  match cap.target with
  | .flow flow =>
    match t.flowCells flow with
    | some cell => cap.isValid (t.epoch cell)
    | none => false
  | .nativeTable => cap.isValid (t.epoch nativeCell)
  | .scheduler => cap.isValid (t.epoch schedulerCell)

def replyCapIsLive (t : CapTable) (id : CapId) (holder target : FlowId) (rights : CapRights) :
    Bool :=
  match t.entries id with
  | none => false
  | some entry =>
    entry.holder = holder && entry.cap.target = .flow target && entry.cap.rights.contains rights &&
      t.isLive entry.cap

def setReply (t : CapTable) (holder target : FlowId) (id : Option CapId) : CapTable :=
  { t with replyIndex := update t.replyIndex holder (update (t.replyIndex holder) target id) }

/-- The reply address: the live one, or a new one. -/
def mintOrReuse (t : CapTable) (draws : List CapId) (holder target : FlowId)
    (rights : CapRights) : CapTable × Except RuntimeError CapId :=
  let mint (t : CapTable) : CapTable × Except RuntimeError CapId :=
    let (t, cell) := t.bindFlow target
    let (t, r) := t.insert draws ⟨holder, ⟨.flow target, rights, none, t.epoch cell⟩⟩
    match r with
    | .ok id => (t.setReply holder target (some id), .ok id)
    | .error e => (t, .error e)
  match t.replyIndex holder target with
  | some id =>
    if t.replyCapIsLive id holder target rights then (t, .ok id)
    else mint (t.setReply holder target none)
  | none => mint t

/-- Existence only. -/
def lookup (t : CapTable) (id : CapId) : Option Capability :=
  if id = CapId.none then none else t.entries id

/-- Token, holder, rights and epoch. -/
def resolve (t : CapTable) (id : CapId) (holder : FlowId) (required : CapRights) :
    Except CapError Capability :=
  match t.lookup id with
  | none => .error .unknown
  | some entry =>
    if entry.holder ≠ holder then .error .notHolder
    else if !entry.cap.rights.contains required then .error .insufficientRights
    else if !t.isLive entry.cap then .error .unknown
    else .ok entry

/-- Drop every capability held by or targeting the flow. -/
def revokeFlow (t : CapTable) (flow : FlowId) : CapTable :=
  { t with
    epoch := (t.flowCells flow).elim t.epoch fun cell => update t.epoch cell (t.epoch cell + 1)
    flowCells := update t.flowCells flow none
    entries := fun id => (t.entries id).filter fun e =>
      e.holder ≠ flow ∧ e.cap.target ≠ .flow flow
    replyIndex := fun holder target =>
      if holder ≠ flow ∧ target ≠ flow then t.replyIndex holder target else none }

/-! ## Programs -/

/-- The atomic operations on the table. -/
inductive Op
  | bindFlow (flow : FlowId)
  | flowCell (flow : FlowId)
  | readEpoch (cell : CellId)
  | insert (entry : Capability)
  | mintOrReuse (holder target : FlowId) (rights : CapRights)
  | lookup (id : CapId)
  | resolve (id : CapId) (holder : FlowId) (required : CapRights)

def Op.Result : Op → Type
  | bindFlow _ => CellId
  | flowCell _ => Option CellId
  | readEpoch _ => UInt64
  | insert _ => Except RuntimeError CapId
  | mintOrReuse .. => Except RuntimeError CapId
  | lookup _ => Option Capability
  | resolve .. => Except CapError Capability

def exec (t : CapTable) (draws : List CapId) : (op : Op) → CapTable × op.Result
  | .bindFlow flow => t.bindFlow flow
  | .flowCell flow => (t, t.flowCells flow)
  | .readEpoch cell => (t, t.epoch cell)
  | .insert entry => t.insert draws entry
  | .mintOrReuse holder target rights => t.mintOrReuse draws holder target rights
  | .lookup id => (t, t.lookup id)
  | .resolve id holder required => (t, t.resolve id holder required)

/-- Code that may fail. -/
abbrev Code := ExceptT CapError (Prog Op.Result)

def perform (op : Op) : Code op.Result := ExceptT.lift (Prog.perform op)

/-- A token, or `CapError::Unavailable`. -/
def token : Except RuntimeError CapId → Code CapId
  | .ok id => pure id
  | .error _ => throw .unavailable

def mint (holder target : FlowId) (rights : CapRights) :
    Prog Op.Result (Except RuntimeError CapId) := do
  let cell ← Prog.perform (Op.bindFlow target)
  let epoch ← Prog.perform (Op.readEpoch cell)
  Prog.perform (Op.insert ⟨holder, ⟨.flow target, rights, none, epoch⟩⟩)

/-- `attenuate`: a new token with narrower rights for another holder. -/
def attenuate (id : CapId) (fromHolder toHolder : FlowId) (wantRights : CapRights)
    (wantNative : Option NativeMask) : Code CapId := do
  let src ← liftM (← perform (.resolve id fromHolder CapRights.none))
  match src.cap.target with
  | .flow flow =>
    match ← perform (.flowCell flow) with
    | none => throw .unknown
    | some cell =>
      match execDelegate src.cap (← perform (.readEpoch cell)) wantRights wantNative with
      | .error .sourceRevoked => throw .unknown
      | .error .sourceLacksNative => throw .insufficientRights
      | .ok narrowed =>
        let epoch ← perform (.readEpoch cell)
        if narrowed.isValid epoch then token (← perform (.insert ⟨toHolder, narrowed⟩))
        else throw .unknown
  | _ => throw .wrongTarget

/-- A new token with the same target and rights. -/
def delegate (id : CapId) (fromHolder toHolder : FlowId) : Code CapId := do
  let src ← liftM (← perform (.resolve id fromHolder CapRights.none))
  attenuate id fromHolder toHolder src.cap.rights src.cap.nativeMask

/-- The trusted host gives a capability to a flow. -/
def reissueFor (id : CapId) (newHolder : FlowId) : Code CapId := do
  match ← perform (.lookup id) with
  | none => throw .unknown
  | some entry =>
    token (← perform (.insert
      ⟨newHolder, entry.cap.attenuate entry.cap.rights entry.cap.nativeMask⟩))

/-! ## Without interruption -/

/-- A table, with the draws for the tokens to be made. -/
abbrev Session := CapTable × List (List CapId)

/-- Each operation that makes a token takes draws of its own. -/
def Op.rest : Op → List (List CapId) → List (List CapId)
  | insert _, draws => draws.tail
  | mintOrReuse .., draws => draws.tail
  | _, draws => draws

/-- What the generator yields next. -/
def Session.draws (s : Session) : List CapId := s.2.headD []

def Session.exec (op : Op) (s : Session) : Session × op.Result :=
  (((s.1.exec s.draws op).1, op.rest s.2), (s.1.exec s.draws op).2)

/-- A program on the table in one go. -/
def atOnce {α : Type} (p : Prog Op.Result α) (s : Session) : Session × α := p.eval Session.exec s

/-- Code on the table in one go. -/
def tryAtOnce {α : Type} (p : Code α) (s : Session) : Session × Except CapError α := atOnce p.run s

@[simp] theorem tryAtOnce_bind {α β : Type} (p : Code α) (f : α → Code β) (s : Session) :
    tryAtOnce (p >>= f) s = match tryAtOnce p s with
      | (s', .ok a) => tryAtOnce (f a) s'
      | (s', .error e) => (s', .error e) := by
  unfold tryAtOnce atOnce
  rw [ExceptT.run_bind, Prog.eval_bind]
  generalize p.run.eval Session.exec s = r
  obtain ⟨s', r⟩ := r
  cases r <;> rfl

@[simp] theorem tryAtOnce_pure {α : Type} (a : α) (s : Session) :
    tryAtOnce (pure a : Code α) s = (s, .ok a) := rfl

@[simp] theorem tryAtOnce_throw {α : Type} (e : CapError) (s : Session) :
    tryAtOnce (throw e : Code α) s = (s, .error e) := rfl

@[simp] theorem tryAtOnce_perform (op : Op) (s : Session) :
    tryAtOnce (perform op) s = ((Session.exec op s).1, .ok (Session.exec op s).2) := rfl

@[simp] theorem tryAtOnce_liftM {α : Type} (r : Except CapError α) (s : Session) :
    tryAtOnce (liftM r : Code α) s = (s, r) := by
  cases r <;> rfl

theorem freshId_spec {t : CapTable} {n : ℕ} {draws : List CapId} {id : CapId}
    (h : t.freshId n draws = .ok id) : id ≠ CapId.none ∧ t.entries id = none ∧ id ∈ draws := by
  induction n generalizing draws with
  | zero => cases h
  | succ n ih =>
    cases draws with
    | nil => cases h
    | cons d draws =>
      rw [freshId] at h
      split at h
      · obtain ⟨h₁, h₂, h₃⟩ := ih h
        exact ⟨h₁, h₂, List.mem_cons_of_mem _ h₃⟩
      · rename_i hd
        cases h
        rw [not_or] at hd
        exact ⟨hd.1, by simpa using hd.2, List.mem_cons_self⟩

theorem freshId_congr {t t' : CapTable} (h : t'.entries = t.entries) (n : ℕ) (draws : List CapId) :
    t'.freshId n draws = t.freshId n draws := by
  induction n generalizing draws with
  | zero => rfl
  | succ n ih =>
    cases draws with
    | nil => rfl
    | cons id draws => rw [freshId, freshId, h, ih]

theorem freshId_of_insert {t : CapTable} {draws : List CapId} {entry : Capability} {id : CapId}
    (h : (t.insert draws entry).2 = .ok id) : t.freshId mintAttempts draws = .ok id := by
  unfold insert at h
  split at h
  · rename_i heq
    cases h
    exact heq
  · cases h

/-- The table with a new token. -/
def add (t : CapTable) (id : CapId) (entry : Capability) : CapTable :=
  { t with entries := update t.entries id (some entry), drawn := id :: t.drawn }

/-- A token is made, or the table is as it was. -/
theorem insert_cases (t : CapTable) (draws : List CapId) (entry : Capability) :
    (∃ id ∈ draws, id ≠ CapId.none ∧ t.entries id = none ∧
      t.insert draws entry = (t.add id entry, .ok id)) ∨
    ∃ e, t.insert draws entry = (t, .error e) := by
  unfold insert
  cases h : t.freshId mintAttempts draws with
  | ok id =>
    obtain ⟨hnone, hfree, hmem⟩ := freshId_spec h
    exact .inl ⟨id, hmem, hnone, hfree, rfl⟩
  | error e => exact .inr ⟨e, rfl⟩

/-- What a token that resolves shows. -/
theorem resolve_ok {t : CapTable} {id : CapId} {holder : FlowId} {required : CapRights}
    {entry : Capability} (h : t.resolve id holder required = .ok entry) :
    id ≠ CapId.none ∧ t.entries id = some entry ∧ entry.holder = holder ∧
      entry.cap.rights.contains required ∧ t.isLive entry.cap := by
  unfold resolve lookup at h
  split at h
  · cases h
  · rename_i hl
    split at hl
    · cases hl
    · rename_i hnone
      split at h
      · cases h
      · rename_i hholder
        split at h
        · cases h
        · rename_i hrights
          split at h
          · cases h
          · rename_i hlive
            cases h
            exact ⟨hnone, hl, by simpa using hholder, by simpa using hrights, by simpa using hlive⟩

/-! ## What the programs do -/

/-- `attenuate` makes one token with the narrowed record of the source, or changes nothing. -/
theorem attenuate_cases (id : CapId) (fromHolder toHolder : FlowId) (wantRights : CapRights)
    (wantNative : Option NativeMask) (s : Session) :
    (∃ src flow, s.1.resolve id fromHolder CapRights.none = .ok src ∧ src.cap.target = .flow flow ∧
      ∃ id' ∈ s.draws, id' ≠ CapId.none ∧ s.1.entries id' = none ∧
        tryAtOnce (attenuate id fromHolder toHolder wantRights wantNative) s =
          ((s.1.add id' ⟨toHolder, src.cap.attenuate wantRights wantNative⟩, s.2.tail), .ok id')) ∨
      ∃ draws e, tryAtOnce (attenuate id fromHolder toHolder wantRights wantNative) s =
        ((s.1, draws), .error e) := by
  cases hres : s.1.resolve id fromHolder CapRights.none with
  | error e =>
    exact .inr ⟨s.2, e, by simp [attenuate, Session.exec, exec, Op.rest, hres]⟩
  | ok src =>
    cases htarget : src.cap.target with
    | flow flow =>
      cases hcell : s.1.flowCells flow with
      | none =>
        exact .inr ⟨s.2, .unknown, by
          simp [attenuate, Session.exec, exec, Op.rest, hres, htarget, hcell]⟩
      | some cell =>
        cases hexec : execDelegate src.cap (s.1.epoch cell) wantRights wantNative with
        | error e =>
          cases e
          · exact .inr ⟨s.2, .unknown, by
              simp [attenuate, Session.exec, exec, Op.rest, hres, htarget, hcell, hexec]⟩
          · exact .inr ⟨s.2, .insufficientRights, by
              simp [attenuate, Session.exec, exec, Op.rest, hres, htarget, hcell, hexec]⟩
        | ok narrowed =>
          obtain ⟨rfl, hvalid⟩ := execDelegate_ok hexec
          rcases s.1.insert_cases s.draws ⟨toHolder, src.cap.attenuate wantRights wantNative⟩ with
            ⟨id', hmem, hnone, hfree, hins⟩ | ⟨e, hins⟩
          · refine .inl ⟨src, flow, rfl, htarget, id', hmem, hnone, hfree, ?_⟩
            simp [attenuate, token, Session.exec, exec, Op.rest, hres, htarget, hcell, hexec,
              hvalid,
              hins]
          · refine .inr ⟨s.2.tail, .unavailable, ?_⟩
            simp [attenuate, token, Session.exec, exec, Op.rest, hres, htarget, hcell, hexec,
              hvalid,
              hins]
    | _ =>
      exact .inr ⟨s.2, .wrongTarget, by
        simp [attenuate, Session.exec, exec, Op.rest, hres, htarget]⟩

/-- `delegate` is `attenuate` with all that the source has. -/
theorem delegate_cases (id : CapId) (fromHolder toHolder : FlowId) (s : Session) :
    (∃ src flow, s.1.resolve id fromHolder CapRights.none = .ok src ∧ src.cap.target = .flow flow ∧
      ∃ id' ∈ s.draws, id' ≠ CapId.none ∧ s.1.entries id' = none ∧
        tryAtOnce (delegate id fromHolder toHolder) s =
          ((s.1.add id' ⟨toHolder, src.cap.attenuate src.cap.rights src.cap.nativeMask⟩, s.2.tail),
            .ok id')) ∨
      ∃ draws e, tryAtOnce (delegate id fromHolder toHolder) s = ((s.1, draws), .error e) := by
  cases hres : s.1.resolve id fromHolder CapRights.none with
  | error e =>
    exact .inr ⟨s.2, e, by simp [delegate, Session.exec, exec, Op.rest, hres]⟩
  | ok src =>
    have hdel : tryAtOnce (delegate id fromHolder toHolder) s =
        tryAtOnce (attenuate id fromHolder toHolder src.cap.rights src.cap.nativeMask) s := by
      simp [delegate, Session.exec, exec, Op.rest, hres]
    rw [hdel]
    rcases attenuate_cases id fromHolder toHolder src.cap.rights src.cap.nativeMask s with
      ⟨src', flow, hres', h⟩ | h
    · cases hres.symm.trans hres'
      exact .inl ⟨src, flow, rfl, h⟩
    · exact .inr h

/-- `reissueFor` copies the record, whoever holds it. -/
theorem reissueFor_cases (id : CapId) (newHolder : FlowId) (s : Session) :
    (∃ src, id ≠ CapId.none ∧ s.1.entries id = some src ∧
      ∃ id' ∈ s.draws, id' ≠ CapId.none ∧ s.1.entries id' = none ∧
        tryAtOnce (reissueFor id newHolder) s =
          ((s.1.add id' ⟨newHolder, src.cap.attenuate src.cap.rights src.cap.nativeMask⟩, s.2.tail),
            .ok id')) ∨
      ∃ draws e, tryAtOnce (reissueFor id newHolder) s = ((s.1, draws), .error e) := by
  cases hl : s.1.lookup id with
  | none => exact .inr ⟨s.2, .unknown, by simp [reissueFor, Session.exec, exec, Op.rest, hl]⟩
  | some src =>
    have hid : id ≠ CapId.none ∧ s.1.entries id = some src := by
      unfold lookup at hl
      split at hl
      · cases hl
      · exact ⟨‹_›, hl⟩
    rcases s.1.insert_cases s.draws
      ⟨newHolder, src.cap.attenuate src.cap.rights src.cap.nativeMask⟩ with
      ⟨id', hmem, hnone, hfree, hins⟩ | ⟨e, hins⟩
    · refine .inl ⟨src, hid.1, hid.2, id', hmem, hnone, hfree, ?_⟩
      simp [reissueFor, token, Session.exec, exec, Op.rest, hl, hins]
    · refine .inr ⟨s.2.tail, .unavailable, ?_⟩
      simp [reissueFor, token, Session.exec, exec, Op.rest, hl, hins]

/-- `mint` binds the target and makes a token for it. -/
theorem mint_cases (holder target : FlowId) (rights : CapRights) (s : Session) :
    (∃ id ∈ s.draws, id ≠ CapId.none ∧ s.1.entries id = none ∧
      ∃ epoch, atOnce (mint holder target rights) s =
        (((s.1.bindFlow target).1.add id ⟨holder, ⟨.flow target, rights, none, epoch⟩⟩, s.2.tail),
          .ok id)) ∨
      ∃ draws e, atOnce (mint holder target rights) s =
        (((s.1.bindFlow target).1, draws), .error e) := by
  have hentries : (s.1.bindFlow target).1.entries = s.1.entries := by
    unfold bindFlow
    split <;> rfl
  have hmint (r) (h : (s.1.bindFlow target).1.insert s.draws ⟨holder, ⟨.flow target, rights, none,
      (s.1.bindFlow target).1.epoch (s.1.bindFlow target).2⟩⟩ = r) :
      atOnce (mint holder target rights) s = ((r.1, s.2.tail), r.2) := by
    subst h
    rfl
  rcases (s.1.bindFlow target).1.insert_cases s.draws ⟨holder, ⟨.flow target, rights, none,
    (s.1.bindFlow target).1.epoch (s.1.bindFlow target).2⟩⟩ with
    ⟨id, hmem, hnone, hfree, hins⟩ | ⟨e, hins⟩
  · rw [hentries] at hfree
    exact .inl ⟨id, hmem, hnone, hfree, _, hmint _ hins⟩
  · exact .inr ⟨s.2.tail, e, hmint _ hins⟩

/-- The table in which a new reply address is inserted. -/
def cleared (t : CapTable) (holder target : FlowId) : CapTable :=
  ((t.setReply holder target none).bindFlow target).1

/-- The entry of a reply address. -/
def replyEntry (t : CapTable) (holder target : FlowId) (rights : CapRights) : Capability :=
  ⟨holder, ⟨.flow target, rights, none, (t.cleared holder target).epoch
    ((t.setReply holder target none).bindFlow target).2⟩⟩

/-- `mintOrReuse` gives the live reply address, or makes one and indexes it. -/
theorem mintOrReuse_cases (t : CapTable) (draws : List CapId) (holder target : FlowId)
    (rights : CapRights) :
    (∃ id, t.replyIndex holder target = some id ∧ t.replyCapIsLive id holder target rights ∧
      t.mintOrReuse draws holder target rights = (t, .ok id)) ∨
    (∀ id, t.replyIndex holder target = some id →
      t.replyCapIsLive id holder target rights = false) ∧
    ((∃ id ∈ draws, id ≠ CapId.none ∧ t.entries id = none ∧
      t.freshId mintAttempts draws = .ok id ∧ t.mintOrReuse draws holder target rights =
        (((t.cleared holder target).add id (t.replyEntry holder target rights)).setReply
          holder target (some id), .ok id)) ∨
      ∃ e, t.mintOrReuse draws holder target rights = (t.cleared holder target, .error e)) := by
  have hclear (h : t.replyIndex holder target = none) : t.setReply holder target none = t := by
    unfold setReply
    rw [← h, Function.update_eq_self, Function.update_eq_self]
  have hentries : (t.cleared holder target).entries = t.entries := by
    unfold cleared bindFlow
    split <;> rfl
  by_cases hlive : ∃ id, t.replyIndex holder target = some id ∧
      t.replyCapIsLive id holder target rights
  · obtain ⟨id, hid, hlive⟩ := hlive
    refine .inl ⟨id, hid, hlive, ?_⟩
    simp only [mintOrReuse, hid, hlive, if_true]
  · refine .inr ⟨fun id hid => Bool.eq_false_iff.mpr fun h => hlive ⟨id, hid, h⟩, ?_⟩
    have hmint : t.mintOrReuse draws holder target rights =
        match (t.cleared holder target).insert draws (t.replyEntry holder target rights) with
        | (t, .ok id) => (t.setReply holder target (some id), .ok id)
        | (t, .error e) => (t, .error e) := by
      unfold mintOrReuse replyEntry cleared
      split
      · rename_i id hid
        rw [if_neg fun h => hlive ⟨id, hid, h⟩]
        split <;> simp_all
      · rename_i hnone
        rw [hclear hnone]
        split <;> simp_all
    rcases (t.cleared holder target).insert_cases draws (t.replyEntry holder target rights) with
      ⟨id, hmem, hnone, hfree, hins⟩ | ⟨e, hins⟩
    · have hfresh := freshId_of_insert (congrArg Prod.snd hins)
      rw [freshId_congr hentries] at hfresh
      rw [hentries] at hfree
      rw [hins] at hmint
      exact .inl ⟨id, hmem, hnone, hfree, hfresh, hmint⟩
    · rw [hins] at hmint
      exact .inr ⟨e, hmint⟩

end CapTable

end Byteflow
