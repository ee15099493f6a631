import Byteflow.Bytecode.Cap
import Byteflow.Bytecode.Chunk

/-!
# What the VM reports and calls

The faults of a running flow (`vm/fault.rs`), what the VM hands back to the scheduler
(`vm/result.rs`), and the native table with its gate (`vm/native.rs`).

A native is host code, and may read what the host pleases: besides the arguments it is given a
number that stands for the state of the host. A native that panics is one that returns a fault.
-/

namespace Byteflow

/-- Anything that can go wrong inside a running VM. -/
inductive Fault
  | divideByZero
  | registerOutOfRange (reg frameSize : UInt8)
  | registerIndexOverflow (base offset : UInt8)
  | badConstant (index : UInt32) (poolSize : ℕ)
  | badFunction (index : UInt32) (tableSize : ℕ)
  | callStackOverflow (depth : ℕ)
  | typeMismatch (expected got : String)
  | badNative (index : UInt32) (tableSize : ℕ)
  | nativeError (message : String)
  | nativeDenied (message : String)
  | explicit (code : Int32)
  | invariant (message : String)
  | quotaExceeded (message : String)
  deriving DecidableEq

/-- `Display`. -/
def Fault.message : Fault → String
  | divideByZero => "division by zero"
  | registerOutOfRange reg frameSize =>
    "register r" ++ toString reg ++ " out of range (frame has " ++ toString frameSize ++
      " registers)"
  | registerIndexOverflow base offset =>
    "register index r" ++ toString base ++ "+" ++ toString offset ++
      " overflows the register index space (max r255)"
  | badConstant index poolSize =>
    "constant index " ++ toString index ++ " out of range (pool size " ++ toString poolSize ++ ")"
  | badFunction index tableSize =>
    "function index " ++ toString index ++ " out of range (table size " ++ toString tableSize ++
      ")"
  | callStackOverflow depth => "call stack overflow at depth " ++ toString depth
  | typeMismatch expected got => "type mismatch: expected " ++ expected ++ ", got " ++ got
  | badNative index tableSize =>
    "native function index " ++ toString index ++ " out of range (table size " ++
      toString tableSize ++ ")"
  | nativeError message => "native function error: " ++ message
  | nativeDenied message => message
  | explicit code => "explicit trap (code " ++ toString code ++ ")"
  | invariant message => "vm invariant broken: " ++ message
  | quotaExceeded message => message

/-- What happened at the end of a slice. Durations are in milliseconds. -/
inductive VmResult
  | complete (value : Value)
  | yield
  | sleep (delay : ℕ)
  | spawn (function : UInt32) (args : List Value) (destReg : UInt8) (requestedRights : CapRights)
  | selfPid (destReg : UInt8)
  | send (targetCap : CapId) (message : Value)
  | receive (destReg : UInt8) (timeout : Option ℕ) (matchTag : Option UInt16)
      (matchRequestId : Option UInt64)
  | ask (destReg : UInt8) (targetCap : CapId) (request : Value) (timeout : Option ℕ)
  | monitor (destReg : UInt8) (targetCap : CapId)
  | demonitor (monitorReg : UInt8)
  | link (destReg : UInt8) (targetCap : CapId)
  | unlink (linkReg : UInt8)
  | registerName (name : String)
  | whereis (destReg : UInt8) (name : String)
  | delegate (destReg : UInt8) (srcCap : CapId) (wantRights : CapRights)
      (wantNativeCap : Option CapId)
  | trap (fault : Fault)
  deriving DecidableEq

/-! ## Natives -/

abbrev NativeFn := ℕ → List Value → Except Fault Value

/-- The natives by slot. A slot may be empty. -/
abbrev NativeTable := List (Option NativeFn)

def NativeTable.get (natives : NativeTable) (index : UInt32) : Option NativeFn :=
  natives[index.toNat]?.join

/-- Natives fail by a native error, the one channel that `CallNative` gives them. -/
def NativeTable.FailsAsNative (natives : NativeTable) : Prop :=
  ∀ index f, natives.get index = some f → ∀ tick args fault, f tick args = .error fault →
    ∃ message, fault = .nativeError message

/-- A revocation cell. -/
abbrev CellId := ℕ

/-- The allowlist of one flow. -/
structure NativeGate where
  hasNative : Bool
  mask : NativeMask
  authorityEpoch : UInt64
  flowCell : CellId
  nativeEpoch : UInt64
  nativeCell : CellId
  deriving DecidableEq

def NativeGate.fromAuthority (cap : Cap) (flowCell nativeCell : CellId) (nativeEpoch : UInt64)
    (nativeCount : ℕ) : NativeGate where
  hasNative := cap.rights.contains CapRights.native
  mask := cap.nativeMask.getD (NativeMask.empty nativeCount)
  authorityEpoch := cap.epoch
  flowCell := flowCell
  nativeEpoch := nativeEpoch
  nativeCell := nativeCell

/-- No cell that the gate depends on was revoked. -/
def NativeGate.isLive (gate : NativeGate) (epoch : CellId → UInt64) : Bool :=
  epoch gate.flowCell = gate.authorityEpoch && epoch gate.nativeCell = gate.nativeEpoch

inductive NativeCallError
  | noNativeRight
  | indexNotAllowlisted (idx : UInt32)
  | indexOutOfRange (idx : UInt32)
  | revoked
  deriving DecidableEq

/-- `Display`. -/
def NativeCallError.message : NativeCallError → String
  | noNativeRight => "CALL_NATIVE: flow lacks NATIVE right"
  | indexNotAllowlisted idx => "CALL_NATIVE: index " ++ toString idx ++ " not on allowlist"
  | indexOutOfRange idx => "CALL_NATIVE: index " ++ toString idx ++ " out of range"
  | revoked => "CALL_NATIVE: capability revoked"

/-- The check of the authority itself. -/
def checkNativeCall (cap : Cap) (natives : NativeTable) (idx : UInt32) :
    Except NativeCallError Unit :=
  if natives.length ≤ idx.toNat then .error (.indexOutOfRange idx)
  else if !cap.rights.contains CapRights.native then .error .noNativeRight
  else if cap.allows idx then .ok ()
  else .error (.indexNotAllowlisted idx)

def checkNativeGate (gate : NativeGate) (epoch : CellId → UInt64) (natives : NativeTable)
    (idx : UInt32) : Except NativeCallError Unit :=
  if natives.length ≤ idx.toNat then .error (.indexOutOfRange idx)
  else if !gate.isLive epoch then .error .revoked
  else if !gate.hasNative then .error .noNativeRight
  else if gate.mask.allows idx then .ok ()
  else .error (.indexNotAllowlisted idx)

/-- Without the `NATIVE` right no native is called. -/
theorem checkNativeGate_of_not_hasNative {gate : NativeGate} (h : gate.hasNative = false)
    (epoch : CellId → UInt64) (natives : NativeTable) (idx : UInt32) :
    ∃ e, checkNativeGate gate epoch natives idx = .error e := by
  unfold checkNativeGate
  split
  · exact ⟨_, rfl⟩
  split
  · exact ⟨_, rfl⟩
  · rw [h]
    exact ⟨_, rfl⟩

end Byteflow
