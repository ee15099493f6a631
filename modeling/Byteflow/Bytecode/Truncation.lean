import Byteflow.Bytecode.Format

/-!
# Truncated modules

A module that was cut off is reported as truncated, wherever the cut is (`decode_truncated`). The
decoder takes its bytes in order and refuses nothing that it has not read: so it reads a prefix as
it reads the whole module, up to the first part that is not all there.
-/

namespace Byteflow

open Parser

namespace Reader

/-- The reader fails by `truncated` if the input is too short, and looks at no more than it
takes. -/
abbrev Cuttable {α : Type} (p : Reader α) : Prop := Steady FormatError.truncated p

theorem cuttable_u8 : Cuttable readU8 := (steady_number _ 1).map _

theorem cuttable_u16 : Cuttable readU16 := (steady_number _ 2).map _

theorem cuttable_u32 : Cuttable readU32 := (steady_number _ 4).map _

theorem cuttable_i32 : Cuttable readI32 := (steady_number _ 4).map _

theorem cuttable_u64 : Cuttable readU64 := (steady_number _ 8).map _

theorem cuttable_i64 : Cuttable readI64 := (steady_number _ 8).map _

theorem cuttable_u128 : Cuttable readU128 := (steady_number _ 16).map _

theorem cuttable_upTo (limit : UInt32) (what : String) : Cuttable (readUpTo limit what) := by
  refine cuttable_u32.bind fun n => ?_
  split_ifs
  · exact steady_throw _
  · exact steady_pure n

theorem cuttable_utf8 (bytes : List UInt8) : Cuttable (utf8 bytes) := by
  unfold utf8
  split
  · exact steady_pure _
  · exact steady_throw _

theorem cuttable_string : Cuttable readString :=
  (cuttable_upTo _ _).bind fun len => (steady_take _ len.toNat).bind cuttable_utf8

theorem cuttable_blob (what : String) : Cuttable (readBlob what) :=
  (cuttable_upTo _ _).bind fun len => steady_take _ len.toNat

theorem cuttable_allowed (trust : TrustLevel) (kind : ConstantKind) :
    Cuttable (allowed trust kind) := by
  cases trust with
  | trusted => exact steady_pure ()
  | untrusted => exact steady_throw _

theorem cuttable_tagged (trust : TrustLevel) {readPayload : Reader Value}
    (hpayload : Cuttable readPayload) (tag : UInt8) :
    Cuttable (readTagged trust readPayload tag) := by
  unfold readTagged
  split
  · exact steady_pure _
  · exact cuttable_u8.bind fun _ => steady_pure _
  · exact cuttable_i64.bind fun _ => steady_pure _
  · exact cuttable_u64.bind fun _ => steady_pure _
  · exact (cuttable_allowed _ _).bind fun _ => cuttable_u64.bind fun _ => steady_pure _
  · exact (cuttable_allowed _ _).bind fun _ => cuttable_u64.bind fun _ =>
      cuttable_u128.bind fun _ => cuttable_u64.bind fun _ => cuttable_u16.bind fun _ =>
        hpayload.bind fun _ => steady_pure _
  · exact (cuttable_allowed _ _).bind fun _ => cuttable_u128.bind fun _ => steady_pure _
  · exact (cuttable_blob _).bind fun bytes => (cuttable_utf8 bytes).bind fun _ => steady_pure _
  · exact (cuttable_blob _).bind fun _ => steady_pure _
  · exact steady_throw _

/-- At any depth: the payload of a message is one deeper. -/
theorem cuttable_value (trust : TrustLevel) (depth : ℕ) : Cuttable (readValue trust depth) := by
  induction hleft : maxValueDepth + 1 - depth generalizing depth with
  | zero =>
    rw [readValue, if_pos (by omega)]
    exact steady_throw _
  | succ left ih =>
    rw [readValue_of_le (by omega)]
    exact cuttable_u8.bind (cuttable_tagged trust (ih (depth + 1) (by omega)))

theorem cuttable_function : Cuttable readFunction :=
  cuttable_string.bind fun _ => cuttable_u32.bind fun _ => cuttable_u8.bind fun _ =>
    cuttable_u8.bind fun _ => steady_pure _

theorem cuttable_opcode (at_ : ℕ) : Cuttable (readOpcode at_) := by
  refine cuttable_u8.bind fun byte => ?_
  split
  · exact steady_pure _
  · exact steady_throw _

theorem cuttable_instruction (at_ : ℕ) : Cuttable (readInstruction at_) :=
  (cuttable_opcode at_).bind fun _ => cuttable_u8.bind fun _ => cuttable_u8.bind fun _ =>
    cuttable_u8.bind fun _ => cuttable_i32.bind fun _ => steady_pure _

theorem cuttable_magic : Cuttable readMagic := by
  refine (steady_take _ 4).bind fun found => ?_
  split_ifs
  · exact steady_pure _
  · exact steady_throw _

theorem cuttable_abi : Cuttable readAbi := by
  refine cuttable_u32.bind fun abi => ?_
  split_ifs
  · exact steady_pure _
  · exact steady_throw _

theorem cuttable_chunk (trust : TrustLevel) : Cuttable (readChunk trust) :=
  cuttable_magic.bind fun _ => cuttable_abi.bind fun _ => cuttable_string.bind fun _ =>
    (cuttable_upTo _ _).bind fun nConst =>
      (steady_many (fun _ => cuttable_value trust 0) 0 nConst.toNat).bind fun _ =>
    (cuttable_upTo _ _).bind fun nFn =>
      (steady_many (fun _ => cuttable_function) 0 nFn.toNat).bind fun _ =>
    (cuttable_upTo _ _).bind fun nCode =>
      (steady_many cuttable_instruction 0 nCode.toNat).bind fun _ => steady_pure _

end Reader

/-- **Truncation.** Every strict prefix of a module is reported as truncated. -/
theorem decode_truncated {chunk : Chunk} (h : Reader.InLimits chunk) {front : List UInt8}
    (hfront : front <+: chunk.encode) (hstrict : front ≠ chunk.encode) :
    decodeWith front .trusted = .error .truncated := by
  obtain ⟨missing, hmissing⟩ := hfront
  have hne : missing ≠ [] := by
    rintro rfl
    exact hstrict ((List.append_nil front).symm.trans hmissing)
  have hparses : Parses (Reader.readChunk .trusted) chunk.encode chunk :=
    Reader.parses_chunk h fun _ _ => .inl rfl
  have hrun := hparses.truncated (Reader.cuttable_chunk .trusted) hmissing hne
  rw [decodeWith, StateT.run'_eq, hrun]
  rfl

/-- A module whose last instruction is not all there. -/
theorem decode_truncated_halt :
    decodeWith ((Chunk.mk "halt" [.int 7] [.nullary .halt] []).encode.dropLast) .trusted =
      .error .truncated := by
  refine decode_truncated ?_ ( List.dropLast_prefix _) (by decide)
  exact
    { name := by decide
      constants := by decide
      functions := by decide
      code := by decide
      names := by decide
      values := by simp [Value.Bounded, Value.nesting] }

end Byteflow
