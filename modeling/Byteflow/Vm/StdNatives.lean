import Byteflow.Vm.Values

/-!
# The standard natives

The native table that the facade ships (`natives.rs`), with the helpers that its entries read their
arguments with (`vm/native.rs`). They build a message and take it apart; a message that is built has
neither a sender nor a reply address. So a property that a message shares with its parts is kept by
them (`Value.Shared`, `stdNatives_closed`).
-/

namespace Byteflow

namespace StdNatives

/-! ## Arguments -/

/-- Require `args[index]` to exist. -/
def expectArg (args : List Value) (index : ℕ) (fnName : String) : Except Fault Value :=
  match args[index]? with
  | some v => .ok v
  | none => .error (.nativeError (fnName ++ ": missing argument " ++ toString index))

def expectMessage (args : List Value) (index : ℕ) (fnName : String) : Except Fault Message := do
  match (← expectArg args index fnName).asMessage with
  | some m => .ok m
  | none =>
    .error (.nativeError (fnName ++ ": argument " ++ toString index ++ " is not a message"))

/-- `Int` from `0` on, `Pid` or `Bool`. -/
def expectU64 (args : List Value) (index : ℕ) (fnName : String) : Except Fault UInt64 := do
  let v ← expectArg args index fnName
  let refused : Except Fault UInt64 := .error (.nativeError
    (fnName ++ ": argument " ++ toString index ++ " is not a non-negative int/pid (got " ++
      v.typeName ++ ")"))
  match v with
  | .pid p => .ok (UInt64.ofNat p)
  | .int i => if 0 ≤ i then .ok i.toUInt64 else refused
  | .bool b => .ok (if b then 1 else 0)
  | _ => refused

/-! ## The table -/

/-- The arguments go to the sink of the host. -/
def print : NativeFn := fun _ _ => .ok .unit

/-- The number is one more than the milliseconds of the clock, or `0` for a clock before 1970. -/
def nowMs : NativeFn := fun tick _ =>
  match tick with
  | 0 => .error (.nativeError "system clock error: second time provided was later than self")
  | millis + 1 =>
    if millis < 2 ^ 63 then .ok (.int (Int64.ofNat millis))
    else .error (.nativeError "system clock value exceeds i64")

/-- `(request_id, tag, payload)`, or the same after an argument that is not used. -/
def makeMsg : NativeFn := fun _ args => do
  let first := if 4 ≤ args.length then 1 else 0
  let requestId ← expectU64 args first "make_msg"
  let tag ← expectU64 args (first + 1) "make_msg"
  let payload ← expectArg args (first + 2) "make_msg"
  if tag.toNat < 2 ^ 16 then .ok (Message.new 0 requestId (UInt16.ofNat tag.toNat) payload).toValue
  else .error (.nativeError ("make_msg: tag " ++ toString tag ++ " does not fit in u16"))

/-- What the natives that take a message apart have in common. -/
def msgPart (fnName : String) (part : Message → Value) : NativeFn := fun _ args => do
  return part (← expectMessage args 0 fnName)

def msgSender : NativeFn := msgPart "msg_sender" fun m => .pid m.sender

def msgRequestId : NativeFn := msgPart "msg_request_id" fun m => .int m.requestId.toInt64

def msgTag : NativeFn := msgPart "msg_tag" fun m => .int m.tag.toUInt64.toInt64

def msgPayload : NativeFn := msgPart "msg_payload" fun m => m.payload

def msgReplyCap : NativeFn := msgPart "msg_reply_cap" fun m => .cap m.replyCap

end StdNatives

open StdNatives in
/-- `std_native_table`. -/
def stdNatives : NativeTable :=
  [some print, some nowMs, some makeMsg, some msgSender, some msgRequestId, some msgTag,
    some msgPayload, some msgReplyCap]

/-- A message has the property if its parts do and it was not stamped; and its parts have it if the
message does. -/
structure Value.Shared (p : Value → Prop) : Prop where
  plain : ∀ v : Value, v.Plain → p v
  built : ∀ requestId tag payload, p payload →
    p (.message FlowId.host CapId.none requestId tag payload)
  payload : ∀ m : Message, p m.toValue → p m.payload
  replyCap : ∀ m : Message, p m.toValue → p (.cap m.replyCap)

namespace StdNatives

variable {p : Value → Prop} {args : List Value}

theorem getElem?_of_expectArg {index : ℕ} {fnName : String} {v : Value}
    (h : expectArg args index fnName = .ok v) : args[index]? = some v := by
  unfold expectArg at h
  split at h
  · rename_i hv
    cases h
    exact hv
  · cases h

theorem expectArg_holds {index : ℕ} {fnName : String} {v : Value} (ha : ∀ a ∈ args, p a)
    (h : expectArg args index fnName = .ok v) : p v :=
  ha v (List.mem_of_getElem? (getElem?_of_expectArg h))

theorem expectMessage_holds {index : ℕ} {fnName : String} {m : Message} (ha : ∀ a ∈ args, p a)
    (h : expectMessage args index fnName = .ok m) : p m.toValue := by
  obtain ⟨v, hv, h⟩ := of_bind_ok h
  have hp := expectArg_holds ha hv
  split at h
  · rename_i hm
    cases h
    cases v <;> cases hm
    exact hp
  · cases h

/-- The argument that `make_msg` wraps. -/
def wrapped (args : List Value) : Option Value := args[(if 4 ≤ args.length then 1 else 0) + 2]?

theorem wrapped_of_makeMsg {tick : ℕ} {v : Value} (h : makeMsg tick args = .ok v) :
    ∃ requestId tag payload, wrapped args = some payload ∧
      v = .message FlowId.host CapId.none requestId tag payload := by
  obtain ⟨requestId, _, h⟩ := of_bind_ok h
  obtain ⟨tag, _, h⟩ := of_bind_ok h
  obtain ⟨payload, hpayload, h⟩ := of_bind_ok h
  split at h <;> cases h
  exact ⟨_, _, payload, getElem?_of_expectArg hpayload, rfl⟩

theorem makeMsg_holds (hp : Value.Shared p) {tick : ℕ} {v : Value} (ha : ∀ a ∈ args, p a)
    (h : makeMsg tick args = .ok v) : p v := by
  obtain ⟨requestId, tag, payload, hpayload, rfl⟩ := wrapped_of_makeMsg h
  exact hp.built requestId tag payload (ha payload (List.mem_of_getElem? hpayload))

theorem msgPart_holds {fnName : String} {part : Message → Value} {tick : ℕ} {v : Value}
    (hpart : ∀ m : Message, p m.toValue → p (part m)) (ha : ∀ a ∈ args, p a)
    (h : msgPart fnName part tick args = .ok v) : p v := by
  obtain ⟨m, hm, h⟩ := of_bind_ok h
  cases h
  exact hpart m (expectMessage_holds ha hm)

end StdNatives

open StdNatives in
/-- `make_msg` is number 2. -/
theorem stdNatives_get {index : UInt32} {f : NativeFn} (hf : stdNatives.get index = some f) :
    index = 2 ∧ f = makeMsg ∨
      f ∈ [print, nowMs, msgSender, msgRequestId, msgTag, msgPayload, msgReplyCap] := by
  have hget : stdNatives[index.toNat]?.join = some f := by
    rw [← hf]
    unfold NativeTable.get
    cases stdNatives[index.toNat]? with
    | none => rfl
    | some o => cases o <;> rfl
  generalize hi : index.toNat = i at hget
  match i, hget with
  | 0, rfl | 1, rfl | 3, rfl | 4, rfl | 5, rfl | 6, rfl | 7, rfl => exact .inr (by simp)
  | 2, rfl => exact .inl ⟨UInt32.toNat_inj.mp hi, rfl⟩

open StdNatives in
/-- The other natives take messages apart. -/
theorem holds_of_other {p : Value → Prop} (hplain : ∀ v : Value, v.Plain → p v)
    (hpayload : ∀ m : Message, p m.toValue → p m.payload)
    (hreply : ∀ m : Message, p m.toValue → p (.cap m.replyCap)) {f : NativeFn}
    (hf : f ∈ [print, nowMs, msgSender, msgRequestId, msgTag, msgPayload, msgReplyCap]) {tick : ℕ}
    {args : List Value} {v : Value} (ha : ∀ a ∈ args, p a) (h : f tick args = .ok v) : p v := by
  simp only [List.mem_cons, List.not_mem_nil, or_false] at hf
  rcases hf with rfl | rfl | rfl | rfl | rfl | rfl | rfl
  · cases h
    exact hplain _ Value.plain_unit
  · unfold nowMs at h
    split at h
    · cases h
    · split at h <;> cases h
      exact hplain _ (Value.plain_int _)
  · exact msgPart_holds (fun m _ => hplain _ ⟨rfl, rfl⟩) ha h
  · exact msgPart_holds (fun m _ => hplain _ ⟨rfl, rfl⟩) ha h
  · exact msgPart_holds (fun m _ => hplain _ ⟨rfl, rfl⟩) ha h
  · exact msgPart_holds hpayload ha h
  · exact msgPart_holds hreply ha h

/-- **Natives.** The standard natives make nothing that does not share in their arguments. -/
theorem stdNatives_closed {p : Value → Prop} (hp : Value.Shared p) {index : UInt32} {f : NativeFn}
    (hf : stdNatives.get index = some f) {tick : ℕ} {args : List Value} {v : Value}
    (ha : ∀ a ∈ args, p a) (h : f tick args = .ok v) : p v := by
  rcases stdNatives_get hf with ⟨-, rfl⟩ | hf
  · exact StdNatives.makeMsg_holds hp ha h
  · exact holds_of_other hp.plain hp.payload hp.replyCap hf ha h

open StdNatives in
/-- The standard natives fail as natives do. -/
theorem stdNatives_failsAsNative : stdNatives.FailsAsNative := by
  intro index f hf tick args fault h
  have harg {i : ℕ} {fnName : String} (h : expectArg args i fnName = .error fault) :
      ∃ message, fault = .nativeError message := by
    unfold expectArg at h
    split at h <;> cases h
    exact ⟨_, rfl⟩
  have hu64 {i : ℕ} {fnName : String} (h : expectU64 args i fnName = .error fault) :
      ∃ message, fault = .nativeError message := by
    obtain h | ⟨v, _, h⟩ := of_bind_error h
    · exact harg h
    split at h
    · cases h
    · split_ifs at h
      cases h
      exact ⟨_, rfl⟩
    · cases h
    · cases h
      exact ⟨_, rfl⟩
  have hpart {fnName : String} {part : Message → Value}
      (h : msgPart fnName part tick args = .error fault) :
      ∃ message, fault = .nativeError message := by
    obtain h | ⟨m, _, h⟩ := of_bind_error h
    · obtain h | ⟨v, _, h⟩ := of_bind_error h
      · exact harg h
      · split at h <;> cases h
        exact ⟨_, rfl⟩
    · cases h
  rcases stdNatives_get hf with ⟨-, rfl⟩ | hf
  · obtain h | ⟨requestId, _, h⟩ := of_bind_error h
    · exact hu64 h
    obtain h | ⟨tag, _, h⟩ := of_bind_error h
    · exact hu64 h
    obtain h | ⟨payload, _, h⟩ := of_bind_error h
    · exact harg h
    split at h <;> cases h
    exact ⟨_, rfl⟩
  simp only [List.mem_cons, List.not_mem_nil, or_false] at hf
  rcases hf with rfl | rfl | rfl | rfl | rfl | rfl | rfl
  · cases h
  · unfold nowMs at h
    split at h
    · cases h
      exact ⟨_, rfl⟩
    · split at h <;> cases h
      exact ⟨_, rfl⟩
  · exact hpart h
  · exact hpart h
  · exact hpart h
  · exact hpart h
  · exact hpart h

end Byteflow
