import Byteflow.Bytecode.Value
import Byteflow.Foundations.Words

/-!
# Capabilities

The authorization records behind tokens (`bytecode/cap.rs`), and the two ways in which bytecode
derives one from another: `DELEGATE` (`scheduler/delegate.rs`) and `SPAWN` (`scheduler/spawn.rs`).
A `RevocationCell` is a counter that several records refer to. Here a cell is a number, and
whoever reads a cell is given its epoch.
-/

namespace Byteflow

/-- Fixed-width rights bitset. -/
structure CapRights where
  bits : UInt32
  deriving DecidableEq

namespace CapRights

def none : CapRights := ⟨0⟩
def send : CapRights := ⟨0x01⟩
def ask : CapRights := ⟨0x02⟩
def recv : CapRights := ⟨0x04⟩
def spawn : CapRights := ⟨0x08⟩
def link : CapRights := ⟨0x10⟩
def monitor : CapRights := ⟨0x20⟩
def admin : CapRights := ⟨0x40⟩
def native : CapRights := ⟨0x80⟩

def union (r other : CapRights) : CapRights := ⟨r.bits ||| other.bits⟩

def intersect (r other : CapRights) : CapRights := ⟨r.bits &&& other.bits⟩

def contains (r other : CapRights) : Bool := r.bits &&& other.bits == other.bits

/-- The grant minted on `SelfPid` and `Spawn`. -/
def addressing : CapRights := send.union (ask.union (link.union monitor))

/-- All rights but `admin`. -/
def flow : CapRights :=
  send.union (ask.union (recv.union (spawn.union (link.union (monitor.union native)))))

/-- The authority of a flow spawned by the host. -/
def root : CapRights := flow

def fromU8 (bits : UInt8) : CapRights := ⟨bits.toUInt32⟩

theorem intersect_none (r : CapRights) : r.intersect none = none := by
  simp [none, intersect]

theorem contains_iff {r other : CapRights} :
    r.contains other ↔ r.bits &&& other.bits = other.bits :=
  beq_iff_eq

theorem contains_none (r : CapRights) : r.contains none := contains_iff.mpr UInt32.and_zero

theorem contains_trans {r s t : CapRights} (h : r.contains s) (h' : s.contains t) :
    r.contains t := by
  rw [contains_iff] at h h' ⊢
  rw [← h', ← UInt32.and_assoc, h]

theorem contains_intersect (r other : CapRights) : r.contains (r.intersect other) := by
  rw [contains_iff]
  show r.bits &&& (r.bits &&& other.bits) = _
  rw [← UInt32.and_assoc, UInt32.and_self]
  rfl

end CapRights

/-- Bitset over the indices of a native table, in words. -/
structure NativeMask where
  words : List UInt64
  deriving DecidableEq

namespace NativeMask

def empty (nativeCount : ℕ) : NativeMask := ⟨List.replicate ((nativeCount + 63) / 64) 0⟩

/-- The tail bits above `nativeCount` are clear. -/
def full (nativeCount : ℕ) : NativeMask :=
  let words : List UInt64 := List.replicate (nativeCount / 64) 0xFFFFFFFFFFFFFFFF
  ⟨if nativeCount % 64 = 0 then words
    else words ++ [((1 : UInt64) <<< UInt64.ofNat (nativeCount % 64)) - 1]⟩

/-- Set the bit of an index below `nativeCount`. -/
def setBit (nativeCount : ℕ) (v : List UInt64) (i : UInt32) : List UInt64 :=
  if i.toNat / 64 < v.length ∧ i.toNat < nativeCount then
    v.modify (i.toNat / 64) (· ||| ((1 : UInt64) <<< UInt64.ofNat (i.toNat % 64)))
  else v

def fromIndices (nativeCount : ℕ) (idxs : List UInt32) : NativeMask :=
  ⟨idxs.foldl (setBit nativeCount) (List.replicate ((nativeCount + 63) / 64) 0)⟩

def allows (m : NativeMask) (idx : UInt32) : Bool :=
  match m.words[idx.toNat / 64]? with
  | some word => word &&& ((1 : UInt64) <<< UInt64.ofNat (idx.toNat % 64)) != 0
  | none => false

def intersect (m requested : NativeMask) : NativeMask :=
  ⟨List.zipWith (· &&& ·) m.words requested.words⟩

theorem intersect_self (m : NativeMask) : m.intersect m = m := by
  unfold intersect
  congr 1
  rw [List.zipWith_self]
  exact (List.map_congr_left fun _ _ => UInt64.and_self).trans (List.map_id _)

/-- The mask as a set of numbers. -/
theorem allows_eq (m : NativeMask) (idx : UInt32) :
    m.allows idx = Words.holds m.words idx.toNat := by
  have hword (word : UInt64) := @Words.and_single_ne_zero word (idx.toNat % 64)
    (Nat.mod_lt _ (by decide))
  unfold allows Words.holds
  cases m.words[idx.toNat / 64]? with
  | none => rfl
  | some word => exact hword word

@[simp] theorem allows_empty (nativeCount : ℕ) (idx : UInt32) :
    (empty nativeCount).allows idx = false := by
  rw [allows_eq]
  exact Words.holds_replicate_zero _ _

@[simp] theorem allows_full (nativeCount : ℕ) (idx : UInt32) :
    (full nativeCount).allows idx = decide (idx.toNat < nativeCount) := by
  have hones := Words.holds_replicate_ones (nativeCount / 64) idx.toNat
  rw [allows_eq]
  unfold full
  dsimp only
  split_ifs with hrem
  · rw [hones, decide_eq_decide]
    omega
  · have hlast := Words.holds_append_below (List.replicate (nativeCount / 64) 0xFFFFFFFFFFFFFFFF)
      (Nat.mod_lt nativeCount (by decide : 0 < 64)) idx.toNat
    refine hlast.trans ?_
    rw [hones, List.length_replicate, ← Bool.decide_or, decide_eq_decide]
    omega

/-- An intersection allows what the two masks allow, of whatever lengths they are. -/
@[simp] theorem allows_intersect (m requested : NativeMask) (idx : UInt32) :
    (m.intersect requested).allows idx = (m.allows idx && requested.allows idx) := by
  simp only [allows_eq]
  exact Words.holds_zipWith_and _ _ _

theorem allows_of_intersect {m requested : NativeMask} {idx : UInt32}
    (h : (m.intersect requested).allows idx) : m.allows idx := by
  rw [allows_intersect, Bool.and_eq_true] at h
  exact h.1

@[simp] theorem length_setBit (nativeCount : ℕ) (v : List UInt64) (i : UInt32) :
    (setBit nativeCount v i).length = v.length := by
  unfold setBit
  split_ifs
  · exact List.length_modify _ _ _
  · rfl

theorem holds_setBit {nativeCount : ℕ} {v : List UInt64}
    (hlength : v.length = (nativeCount + 63) / 64) (i idx : UInt32) :
    Words.holds (setBit nativeCount v i) idx.toNat =
      (Words.holds v idx.toNat || decide (idx = i ∧ idx.toNat < nativeCount)) := by
  unfold setBit
  split_ifs with hi
  · have hsame : idx.toNat = i.toNat ↔ idx = i ∧ idx.toNat < nativeCount := by
      rw [UInt32.toNat_inj]
      refine ⟨fun h => ⟨h, ?_⟩, And.left⟩
      rw [h]
      exact hi.2
    refine (Words.holds_modify_or hi.1 idx.toNat).trans ?_
    rw [decide_eq_decide.mpr hsame]
  · have hout : ¬(idx = i ∧ idx.toNat < nativeCount) := by
      rintro ⟨rfl, hlt⟩
      omega
    rw [decide_eq_false hout, Bool.or_false]

/-- The indices are set one after the other. -/
theorem holds_foldl_setBit {nativeCount : ℕ} (idxs : List UInt32) {v : List UInt64}
    (hlength : v.length = (nativeCount + 63) / 64) (idx : UInt32) :
    Words.holds (idxs.foldl (setBit nativeCount) v) idx.toNat =
      (Words.holds v idx.toNat || decide (idx ∈ idxs ∧ idx.toNat < nativeCount)) := by
  induction idxs generalizing v with
  | nil => simp
  | cons i idxs ih =>
    rw [List.foldl_cons, ih ((length_setBit _ _ _).trans hlength), holds_setBit hlength,
      Bool.or_assoc, ← Bool.decide_or]
    congr 2
    rw [List.mem_cons, or_and_right]

@[simp] theorem allows_fromIndices (nativeCount : ℕ) (idxs : List UInt32) (idx : UInt32) :
    (fromIndices nativeCount idxs).allows idx =
      decide (idx ∈ idxs ∧ idx.toNat < nativeCount) := by
  rw [allows_eq]
  refine (holds_foldl_setBit idxs List.length_replicate idx).trans ?_
  rw [Words.holds_replicate_zero, Bool.false_or]

/-- **A mask is a set of indices.** -/
theorem allows_faithful :
    (∀ (nativeCount : ℕ) (idx : UInt32),
      (full nativeCount).allows idx = true ↔ idx.toNat < nativeCount) ∧
    (∀ (nativeCount : ℕ) (idxs : List UInt32) (idx : UInt32),
      (fromIndices nativeCount idxs).allows idx = true ↔
        idx ∈ idxs ∧ idx.toNat < nativeCount) ∧
    (∀ (nativeCount : ℕ) (idx : UInt32), (empty nativeCount).allows idx = false) ∧
    ∀ (m requested : NativeMask) (idx : UInt32),
      (m.intersect requested).allows idx = true ↔
        m.allows idx = true ∧ requested.allows idx = true := by
  refine ⟨fun n idx => ?_, fun n idxs idx => ?_, allows_empty, fun m requested idx => ?_⟩
  · rw [allows_full, decide_eq_true_iff]
  · rw [allows_fromIndices, decide_eq_true_iff]
  · rw [allows_intersect, Bool.and_eq_true]

end NativeMask

/-- What a capability addresses. -/
inductive CapTarget
  | flow (id : FlowId)
  | nativeTable
  | scheduler
  deriving DecidableEq

def CapTarget.flowId : CapTarget → Option FlowId
  | flow id => some id
  | _ => none

/-- Authorization record, never in bytecode. -/
structure Cap where
  target : CapTarget
  rights : CapRights
  nativeMask : Option NativeMask
  epoch : UInt64
  deriving DecidableEq

namespace Cap

/-- The record is as old as its cell. -/
def isValid (c : Cap) (epoch : UInt64) : Bool := c.epoch = epoch

/-- A narrower or equal record. -/
def attenuate (c : Cap) (wantRights : CapRights) (wantNative : Option NativeMask) : Cap :=
  { c with
    rights := c.rights.intersect wantRights
    nativeMask := match c.nativeMask, wantNative with
      | some cur, some req => some (cur.intersect req)
      | some cur, none => some cur
      | none, _ => none }

@[simp] theorem attenuate_target (c : Cap) (wantRights : CapRights)
    (wantNative : Option NativeMask) : (c.attenuate wantRights wantNative).target = c.target := rfl

@[simp] theorem attenuate_rights (c : Cap) (wantRights : CapRights)
    (wantNative : Option NativeMask) :
    (c.attenuate wantRights wantNative).rights = c.rights.intersect wantRights := rfl

@[simp] theorem attenuate_isValid (c : Cap) (wantRights : CapRights)
    (wantNative : Option NativeMask) (epoch : UInt64) :
    (c.attenuate wantRights wantNative).isValid epoch = c.isValid epoch := rfl

/-- Who asks for all that there is gets it. -/
theorem attenuate_self (c : Cap) : c.attenuate c.rights c.nativeMask = c := by
  obtain ⟨target, rights, nativeMask, epoch⟩ := c
  have hrights : rights.intersect rights = rights := congrArg CapRights.mk UInt32.and_self
  unfold attenuate
  cases nativeMask with
  | none => simp [hrights]
  | some m => simp [hrights, NativeMask.intersect_self]

/-- The natives that the mask allows. -/
def allows (c : Cap) (idx : UInt32) : Bool := c.nativeMask.any (·.allows idx)

/-- `c` has no right and no native that `p` has not. -/
structure Le (c p : Cap) : Prop where
  rights : p.rights.contains c.rights
  natives : ∀ idx, c.allows idx → p.allows idx

theorem Le.trans {c p q : Cap} (h : c.Le p) (h' : p.Le q) : c.Le q :=
  ⟨CapRights.contains_trans h'.rights h.rights, fun idx hc => h'.natives idx (h.natives idx hc)⟩

/-- Attenuation only narrows. -/
theorem attenuate_le (c : Cap) (wantRights : CapRights) (wantNative : Option NativeMask) :
    (c.attenuate wantRights wantNative).Le c where
  rights := CapRights.contains_intersect ..
  natives idx h := by
    unfold allows attenuate at h
    unfold allows
    cases hc : c.nativeMask with
    | none => simp [hc] at h
    | some cur =>
      cases wantNative with
      | none => simpa [hc] using h
      | some req => exact NativeMask.allows_of_intersect (by simpa [hc] using h)

end Cap

/-! ## Derivation -/

inductive DelegateError
  | sourceRevoked
  | sourceLacksNative
  deriving DecidableEq

def execDelegate (src : Cap) (srcEpoch : UInt64) (wantRights : CapRights)
    (wantNative : Option NativeMask) : Except DelegateError Cap :=
  if !src.isValid srcEpoch then .error .sourceRevoked
  else if wantNative.isSome && !src.rights.contains CapRights.native then
    .error .sourceLacksNative
  else .ok (src.attenuate wantRights wantNative)

theorem execDelegate_ok {src cap : Cap} {srcEpoch : UInt64} {wantRights : CapRights}
    {wantNative : Option NativeMask}
    (h : execDelegate src srcEpoch wantRights wantNative = .ok cap) :
    cap = src.attenuate wantRights wantNative ∧ src.isValid srcEpoch := by
  unfold execDelegate at h
  split at h
  · cases h
  · rename_i hvalid
    split at h <;> cases h
    exact ⟨rfl, by simpa using hvalid⟩

inductive ConfinedSpawnError
  | rateLimited
  | sourceCapRevoked
  | missingSpawnRight
  deriving DecidableEq

/-- `Display`. -/
def ConfinedSpawnError.message : ConfinedSpawnError → String
  | rateLimited => "spawn rate exceeded"
  | sourceCapRevoked => "parent capability revoked"
  | missingSpawnRight => "parent lacks SPAWN right"

/-- The authority of a child: its rights come from the parent's by attenuation. `token` is what the
parent's spawn bucket answers. -/
def execSpawnAuthority (parentCap : Cap) (parentEpoch : UInt64) (token : Bool)
    (newChildId : FlowId) (requestedRights : CapRights) (requestedNative : Option NativeMask)
    (childEpoch : UInt64) : Except ConfinedSpawnError Cap :=
  if !parentCap.isValid parentEpoch then .error .sourceCapRevoked
  else if !parentCap.rights.contains CapRights.spawn then .error .missingSpawnRight
  else if !token then .error .rateLimited
  else
    let attenuated := parentCap.attenuate requestedRights requestedNative
    .ok ⟨.flow newChildId, attenuated.rights, attenuated.nativeMask, childEpoch⟩

/-- What a child gets, and from whom. -/
theorem execSpawnAuthority_ok {parentCap cap : Cap} {parentEpoch childEpoch : UInt64}
    {token : Bool} {newChildId : FlowId} {requestedRights : CapRights}
    {requestedNative : Option NativeMask}
    (h : execSpawnAuthority parentCap parentEpoch token newChildId requestedRights requestedNative
      childEpoch = .ok cap) :
    parentCap.rights.contains CapRights.spawn ∧
      cap = ⟨.flow newChildId, (parentCap.attenuate requestedRights requestedNative).rights,
        (parentCap.attenuate requestedRights requestedNative).nativeMask, childEpoch⟩ := by
  unfold execSpawnAuthority at h
  split at h
  · cases h
  split at h
  · cases h
  rename_i hspawn
  split at h <;> cases h
  exact ⟨by simpa using hspawn, rfl⟩

end Byteflow
