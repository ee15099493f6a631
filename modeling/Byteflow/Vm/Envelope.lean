import Byteflow.Scheduler.Machine.Step
import Byteflow.Vm.Frames
import Byteflow.Vm.StdNatives

/-!
# Taking a hop apart

A flow reads the fields of a hop with `msg_request_id`, `msg_tag` and `msg_payload`, and answers it
with a hop that `make_msg` builds of them (`Fn::reply_to`). The fields of an envelope are unsigned
and registers hold signed integers: from `2 ^ 63` on a request id is read as a negative number. So
neither `make_msg` nor a correlated receive takes it back (`restored_iff`).
-/

namespace Byteflow

open StdNatives Exec

/-! ## Signed and unsigned -/

theorem toInt_toInt64_of_lt {id : UInt64} (h : id.toNat < 2 ^ 63) :
    id.toInt64.toInt = id.toNat := by
  show id.toBitVec.toInt = _
  rw [BitVec.toInt_eq_toNat_of_lt]
  · rfl
  · show 2 * id.toNat < 2 ^ 64
    omega

/-- The sign of an unsigned number in a register. -/
theorem toInt64_nonneg_iff (id : UInt64) : 0 ≤ id.toInt64 ↔ id.toNat < 2 ^ 63 := by
  rw [Int64.le_iff_toInt_le, Int64.toInt_zero]
  constructor
  · intro h
    have hsign : 2 * id.toBitVec.toNat < 2 ^ 64 := BitVec.toInt_pos_iff.mp h
    have : id.toBitVec.toNat = id.toNat := rfl
    omega
  · intro h
    rw [toInt_toInt64_of_lt h]
    exact Int.natCast_nonneg _

/-- What a register holds of a request id is taken back up to `2 ^ 63`. -/
theorem requestIdFromValue_toInt64 (id : UInt64) :
    Vm.requestIdFromValue (.int id.toInt64) =
      if id.toNat < 2 ^ 63 then .ok id
      else .error (.typeMismatch "request_id u64" "negative-int") := by
  show (if 0 ≤ id.toInt64 then Except.ok id.toInt64.toUInt64 else _) = _
  simp only [toInt64_nonneg_iff, UInt64.toUInt64_toInt64]

theorem expectU64_toInt64 {args : List Value} {index : ℕ} {fnName : String} {id : UInt64}
    (h : args[index]? = some (.int id.toInt64)) :
    expectU64 args index fnName =
      if id.toNat < 2 ^ 63 then .ok id
      else .error (.nativeError (fnName ++ ": argument " ++ toString index ++
        " is not a non-negative int/pid (got " ++ "int" ++ ")")) := by
  have harg : expectArg args index fnName = .ok (.int id.toInt64) := by
    unfold expectArg
    rw [h]
  unfold expectU64
  rw [harg]
  show (if 0 ≤ id.toInt64 then Except.ok id.toInt64.toUInt64 else _) = _
  simp only [toInt64_nonneg_iff, UInt64.toUInt64_toInt64, Value.typeName]

/-- A tag always fits. -/
theorem toNat_tag_lt (tag : UInt16) : tag.toUInt64.toNat < 2 ^ 63 := by
  have := tag.toNat_lt
  rw [UInt16.toNat_toUInt64]
  omega

theorem tagFromValue_toInt64 (tag : UInt16) :
    Vm.tagFromValue (.int tag.toUInt64.toInt64) = .ok tag := by
  have hlt := tag.toNat_lt
  have hint : tag.toUInt64.toInt64.toInt = tag.toNat := by
    rw [toInt_toInt64_of_lt (toNat_tag_lt tag), UInt16.toNat_toUInt64]
  show (if 0 ≤ tag.toUInt64.toInt64.toInt ∧ tag.toUInt64.toInt64.toInt < 2 ^ 16
    then Except.ok (UInt16.ofNat tag.toUInt64.toInt64.toInt.toNat) else _) = _
  rw [hint, if_pos (by omega), Int.toNat_natCast, UInt16.ofNat_toNat]

/-! ## Rebuilding -/

/-- `make_msg` of the request id, the tag and the payload that are read from a hop. -/
def rebuild (tick : ℕ) (hop : Value) : Except Fault Value := do
  let requestId ← msgRequestId tick [hop]
  let tag ← msgTag tick [hop]
  let payload ← msgPayload tick [hop]
  makeMsg tick [requestId, tag, payload]

/-- What is rebuilt carries the request id, the tag and the payload. -/
def Rebuilds (tick : ℕ) (m : Message) : Prop :=
  ∃ m' : Message, rebuild tick m.toValue = .ok m'.toValue ∧
    m'.requestId = m.requestId ∧ m'.tag = m.tag ∧ m'.payload = m.payload

theorem rebuild_eq (tick : ℕ) (m : Message) :
    rebuild tick m.toValue =
      if m.requestId.toNat < 2 ^ 63 then
        .ok (Message.new 0 m.requestId m.tag m.payload).toValue
      else .error (.nativeError
        "make_msg: argument 0 is not a non-negative int/pid (got int)") := by
  show makeMsg tick [.int m.requestId.toInt64, .int m.tag.toUInt64.toInt64, m.payload] = _
  have htag : m.tag.toUInt64.toNat < 2 ^ 16 := by
    rw [UInt16.toNat_toUInt64]
    exact m.tag.toNat_lt
  unfold makeMsg
  simp only [List.length_cons, List.length_nil, Nat.reduceAdd, Nat.reduceLeDiff, if_false,
    Nat.zero_add]
  rw [@expectU64_toInt64 _ 0 _ m.requestId rfl, @expectU64_toInt64 _ 1 _ m.tag.toUInt64 rfl,
    if_pos (toNat_tag_lt m.tag)]
  split
  · show (if m.tag.toUInt64.toNat < 2 ^ 16 then Except.ok _ else _) = _
    rw [if_pos htag, UInt16.toNat_toUInt64, UInt16.ofNat_toNat]
  · rfl

theorem rebuilds_iff (tick : ℕ) (m : Message) :
    Rebuilds tick m ↔ m.requestId.toNat < 2 ^ 63 := by
  unfold Rebuilds
  rw [rebuild_eq]
  constructor
  · rintro ⟨m', h, -⟩
    by_contra hlarge
    rw [if_neg hlarge] at h
    cases h
  · intro hsmall
    rw [if_pos hsmall]
    exact ⟨_, rfl, rfl, rfl, rfl⟩

/-! ## Waiting for the reply -/

/-- A correlated receive is next, with a tag and what `msg_request_id` reads from a hop. -/
structure AwaitsReply (vm : Vm) (instr : Instruction) (tick : ℕ) (m : Message) (tag : UInt16) :
    Prop where
  next : vm.next = some instr
  op : instr.op = .receiveMatchCorr
  tag : vm.getReg instr.b = .ok (.int tag.toUInt64.toInt64)
  requestId : vm.getReg instr.c = msgRequestId tick [m.toValue]

/-- The step waits, and the replies with the tag and the request id of the hop are what it waits
for. -/
def Matches (host : Host) (vm : Vm) (m : Message) (tag : UInt16) : Prop :=
  ∃ dest matchTag rid, (vm.step host).1 = some (.receive dest none matchTag rid) ∧
    ∀ reply : Message, (Machine.receiveFilter matchTag rid).matches reply.toValue = true ↔
      reply.tag = tag ∧ reply.requestId = m.requestId

theorem AwaitsReply.step_eq {vm : Vm} {instr : Instruction} {tick : ℕ} {m : Message} {tag : UInt16}
    (h : AwaitsReply vm instr tick m tag) (host : Host) :
    (vm.step host).1 = some (if m.requestId.toNat < 2 ^ 63
      then .receive instr.a none (some tag) (some m.requestId)
      else .trap (.typeMismatch "request_id u64" "negative-int")) := by
  have hc : vm.getReg instr.c = .ok (.int m.requestId.toInt64) := h.requestId
  rw [Vm.step_of_next host h.next]
  unfold Vm.exec
  rw [h.op]
  simp only [runFrom_bind, Vm.runFrom_read_fetched h.tag, Vm.runFrom_read_fetched hc,
    Vm.runFrom_trap_ok (tagFromValue_toInt64 tag)]
  have hrid := requestIdFromValue_toInt64 m.requestId
  split_ifs at hrid ⊢
  · rw [Vm.runFrom_trap_ok hrid]
    rfl
  · rw [Vm.runFrom_trap_error hrid]
    rfl

theorem AwaitsReply.matches_iff {vm : Vm} {instr : Instruction} {tick : ℕ} {m : Message}
    {tag : UInt16} (h : AwaitsReply vm instr tick m tag) (host : Host) :
    Matches host vm m tag ↔ m.requestId.toNat < 2 ^ 63 := by
  unfold Matches
  rw [h.step_eq host]
  constructor
  · rintro ⟨dest, matchTag, rid, hstep, -⟩
    by_contra hlarge
    rw [if_neg hlarge] at hstep
    cases hstep
  · intro hsmall
    rw [if_pos hsmall]
    refine ⟨_, _, _, rfl, fun reply => ?_⟩
    show (reply.tag == tag && reply.requestId == m.requestId) = true ↔ _
    simp only [Bool.and_eq_true, beq_iff_eq]

/-- **Hops.** A hop can be rebuilt, and its reply be awaited, exactly if its request id is below
`2 ^ 63`. -/
theorem restored_iff (tick : ℕ) (m : Message) :
    (Rebuilds tick m ↔ m.requestId.toNat < 2 ^ 63) ∧
      ∀ (host : Host) (vm : Vm) (instr : Instruction) (tag : UInt16),
        AwaitsReply vm instr tick m tag →
          (Matches host vm m tag ↔ m.requestId.toNat < 2 ^ 63) :=
  ⟨rebuilds_iff tick m, fun host _ _ _ h => h.matches_iff host⟩

/-- A flow that holds what `msg_request_id` reads from a hop, and waits for the reply. -/
def awaitingVm (requestId : UInt64) : Vm :=
  ⟨⟨"await", [], [.abc .receiveMatchCorr 0 1 2, .aImm .return 0 0], [⟨"main", 0, 0, 3⟩]⟩,
    stdNatives, ⟨false, ⟨[]⟩, 0, 0, 0, 0⟩, [⟨0, 0, [.unit, .int 7, .int requestId.toInt64], none⟩],
    0, 1, none⟩

theorem restored_seven :
    Rebuilds 0 ⟨3, CapId.none, 7, 7, .unit⟩ ∧
      Matches ⟨0, false, fun _ => 0⟩ (awaitingVm 7) ⟨3, CapId.none, 7, 7, .unit⟩ 7 := by
  have h := restored_iff 0 ⟨3, CapId.none, 7, 7, .unit⟩
  exact ⟨h.1.mpr (by decide), (h.2 _ _ (.abc .receiveMatchCorr 0 1 2) 7
    ⟨rfl, rfl, rfl, rfl⟩).mpr (by decide)⟩

/-- The first request id that no flow can answer. -/
theorem lost_requestId :
    rebuild 0 (Message.toValue ⟨3, CapId.none, 0x8000000000000000, 7, .unit⟩) = .error (.nativeError
        "make_msg: argument 0 is not a non-negative int/pid (got int)") ∧
      ¬Rebuilds 0 ⟨3, CapId.none, 0x8000000000000000, 7, .unit⟩ ∧
      ((awaitingVm 0x8000000000000000).step ⟨0, false, fun _ => 0⟩).1 =
        some (.trap (.typeMismatch "request_id u64" "negative-int")) := by
  refine ⟨rfl, ?_, rfl⟩
  rintro ⟨m', h, -⟩
  cases h

end Byteflow
