import Byteflow.Bytecode.Chunk
import Byteflow.Foundations.Codec

/-!
# The module format

`bytecode/format.rs`: a chunk as bytes, and the decoder that reads it back. The two are written
separately; within the limits of the decoder they agree (`decodeWith_encode`, `decode_encode`).
-/

namespace Byteflow

/-! ## Opcodes as bytes -/

namespace Opcode

def asU8 : Opcode → UInt8
  | halt => 0x00
  | loadConst => 0x01
  | move => 0x02
  | loadImm => 0x03
  | add => 0x10
  | sub => 0x11
  | mul => 0x12
  | div => 0x13
  | mod => 0x14
  | neg => 0x15
  | eq => 0x18
  | lt => 0x19
  | le => 0x1A
  | jump => 0x20
  | branch => 0x21
  | call => 0x30
  | «return» => 0x31
  | callNative => 0x32
  | spawn => 0x40
  | yield => 0x41
  | sleep => 0x42
  | exit => 0x43
  | selfPid => 0x44
  | send => 0x50
  | receive => 0x51
  | receiveTimeout => 0x52
  | receiveMatch => 0x53
  | receiveMatchImm => 0x54
  | ask => 0x55
  | monitor => 0x56
  | demonitor => 0x57
  | link => 0x58
  | unlink => 0x59
  | askTimeout => 0x5A
  | delegate => 0x5B
  | freshRequestId => 0x5C
  | receiveMatchCorr => 0x5D
  | receiveMatchCorrImm => 0x5E
  | registerName => 0x62
  | whereis => 0x63
  | trap => 0x60
  | nop => 0x61

/-- Rejects anything outside the instruction set. -/
def fromU8 : UInt8 → Option Opcode
  | 0x00 => some halt
  | 0x01 => some loadConst
  | 0x02 => some move
  | 0x03 => some loadImm
  | 0x10 => some add
  | 0x11 => some sub
  | 0x12 => some mul
  | 0x13 => some div
  | 0x14 => some mod
  | 0x15 => some neg
  | 0x18 => some eq
  | 0x19 => some lt
  | 0x1A => some le
  | 0x20 => some jump
  | 0x21 => some branch
  | 0x30 => some call
  | 0x31 => some «return»
  | 0x32 => some callNative
  | 0x40 => some spawn
  | 0x41 => some yield
  | 0x42 => some sleep
  | 0x43 => some exit
  | 0x44 => some selfPid
  | 0x50 => some send
  | 0x51 => some receive
  | 0x52 => some receiveTimeout
  | 0x53 => some receiveMatch
  | 0x54 => some receiveMatchImm
  | 0x55 => some ask
  | 0x56 => some monitor
  | 0x57 => some demonitor
  | 0x58 => some link
  | 0x59 => some unlink
  | 0x5A => some askTimeout
  | 0x5B => some delegate
  | 0x5C => some freshRequestId
  | 0x5D => some receiveMatchCorr
  | 0x5E => some receiveMatchCorrImm
  | 0x60 => some trap
  | 0x62 => some registerName
  | 0x63 => some whereis
  | 0x61 => some nop
  | _ => none

@[simp] theorem fromU8_asU8 (op : Opcode) : fromU8 op.asU8 = some op := by
  cases op <;> rfl

end Opcode

/-! ## The encoder -/

def magic : List UInt8 := [0x42, 0x46, 0x56, 0x30]

def abiVersion : UInt32 := 5

/-- A length, cut to 32 bits. -/
def writeLen (n : ℕ) : List UInt8 := leBytes 4 (UInt32.ofNat n).toNat

def writeBlob (bytes : List UInt8) : List UInt8 := writeLen bytes.length ++ bytes

def utf8Bytes (s : String) : List UInt8 := s.toUTF8.data.toList

def writeString (s : String) : List UInt8 := writeBlob (utf8Bytes s)

def writeValue : Value → List UInt8
  | .unit => [0]
  | .bool b => [1, b.toUInt8]
  | .int i => 2 :: leBytes 8 i.toBitVec.toNat
  | .float bits => 3 :: leBytes 8 bits.toNat
  | .pid id => 4 :: leBytes 8 id
  | .message sender replyCap requestId tag payload =>
    5 :: (leBytes 8 sender ++ (leBytes 16 replyCap.raw.toNat ++ (leBytes 8 requestId.toNat ++
      (leBytes 2 tag.toNat ++ writeValue payload))))
  | .cap id => 6 :: leBytes 16 id.raw.toNat
  | .str s => 7 :: writeString s
  | .bytes b => 8 :: writeBlob b

def writeFunction (f : FunctionDef) : List UInt8 :=
  writeString f.name ++ (leBytes 4 f.entry.toNat ++ [f.arity, f.numRegisters])

def writeInstruction (instr : Instruction) : List UInt8 :=
  instr.op.asU8 :: instr.a :: instr.b :: instr.c :: leBytes 4 instr.imm.toBitVec.toNat

/-- The chunk as a module. -/
def Chunk.encode (chunk : Chunk) : List UInt8 :=
  magic ++ (leBytes 4 abiVersion.toNat ++ (writeString chunk.name ++
    (writeLen chunk.constants.length ++ (chunk.constants.flatMap writeValue ++
    (writeLen chunk.functions.length ++ (chunk.functions.flatMap writeFunction ++
    (writeLen chunk.code.length ++ chunk.code.flatMap writeInstruction)))))))

/-! ## The decoder -/

def maxName : UInt32 := 64 * 1024

def maxItems : UInt32 := 1000000

/-- The longest `Str` or `Bytes` constant. -/
def maxBlob : UInt32 := 1048576

/-- How deep messages of the constant pool may nest. -/
def maxValueDepth : ℕ := 16

/-- Why a buffer failed to decode. -/
inductive FormatError
  | badMagic (found : List UInt8)
  | unsupportedAbi (version : UInt32)
  | truncated
  | limitExceeded (what : String) (got : UInt32)
  | badUtf8
  | unknownValueTag (tag : UInt8)
  | unknownOpcode (at_ : ℕ) (byte : UInt8)
  | forbiddenConstant (kind : ConstantKind)
  | valueTooNested
  deriving DecidableEq

abbrev Reader := Parser FormatError

namespace Reader

/-- An unsigned number of `n` bytes. -/
def number (n : ℕ) : Reader ℕ := Parser.number .truncated n

def readU8 : Reader UInt8 := UInt8.ofNat <$> number 1

def readU16 : Reader UInt16 := UInt16.ofNat <$> number 2

def readU32 : Reader UInt32 := UInt32.ofNat <$> number 4

def readI32 : Reader Int32 := (fun x => Int32.ofBitVec (BitVec.ofNat 32 x)) <$> number 4

def readU64 : Reader UInt64 := UInt64.ofNat <$> number 8

def readI64 : Reader Int64 := (fun x => Int64.ofBitVec (BitVec.ofNat 64 x)) <$> number 8

def readU128 : Reader (BitVec 128) := BitVec.ofNat 128 <$> number 16

/-- A length, at most the limit. -/
def readUpTo (limit : UInt32) (what : String) : Reader UInt32 := do
  let n ← readU32
  if limit < n then throw (.limitExceeded what n) else return n

def readCount : String → Reader UInt32 := readUpTo maxItems

def utf8 (bytes : List UInt8) : Reader String :=
  match String.fromUTF8? ⟨bytes.toArray⟩ with
  | some s => return s
  | none => throw .badUtf8

def readString : Reader String := do
  let len ← readUpTo maxName "name"
  let bytes ← Parser.take .truncated len.toNat
  utf8 bytes

def readBlob (what : String) : Reader (List UInt8) := do
  let len ← readUpTo maxBlob what
  Parser.take .truncated len.toNat

/-- Authority in the constant pool is for trusted modules. -/
def allowed (trust : TrustLevel) (kind : ConstantKind) : Reader Unit :=
  match trust with
  | .trusted => return ()
  | .untrusted => throw (.forbiddenConstant kind)

/-- What follows the tag of a value. The payload of a message is read by `readPayload`. -/
def readTagged (trust : TrustLevel) (readPayload : Reader Value) : UInt8 → Reader Value
  | 0 => return .unit
  | 1 => return .bool ((← readU8) != 0)
  | 2 => return .int (← readI64)
  | 3 => return .float (← readU64)
  | 4 => do
    allowed trust .processId
    return .pid (← readU64).toNat
  | 5 => do
    allowed trust .message
    let sender ← readU64
    let replyCap ← readU128
    let requestId ← readU64
    let tag ← readU16
    let payload ← readPayload
    return ((Message.new sender.toNat requestId tag payload).authenticate sender.toNat
      ⟨replyCap⟩).toValue
  | 6 => do
    allowed trust .capability
    return .cap ⟨← readU128⟩
  | 7 => do
    let bytes ← readBlob "str"
    return .str (← utf8 bytes)
  | 8 => return .bytes (← readBlob "bytes")
  | tag => throw (.unknownValueTag tag)

def readValue (trust : TrustLevel) (depth : ℕ) : Reader Value :=
  if maxValueDepth < depth then throw .valueTooNested
  else readU8 >>= readTagged trust (readValue trust (depth + 1))
termination_by maxValueDepth + 1 - depth

def readFunction : Reader FunctionDef := do
  return { name := ← readString, entry := ← readU32, arity := ← readU8,
           numRegisters := ← readU8 }

def readOpcode (at_ : ℕ) : Reader Opcode := do
  let byte ← readU8
  match Opcode.fromU8 byte with
  | some op => return op
  | none => throw (.unknownOpcode at_ byte)

def readInstruction (at_ : ℕ) : Reader Instruction := do
  return { op := ← readOpcode at_, a := ← readU8, b := ← readU8, c := ← readU8, imm := ← readI32 }

def readMagic : Reader Unit := do
  let found ← Parser.take .truncated 4
  if found = magic then return () else throw (.badMagic found)

def readAbi : Reader Unit := do
  let abi ← readU32
  if abi = abiVersion then return () else throw (.unsupportedAbi abi)

def readChunk (trust : TrustLevel) : Reader Chunk := do
  readMagic
  readAbi
  let name ← readString
  let nConst ← readCount "constants"
  let constants ← Parser.many (fun _ => readValue trust 0) 0 nConst.toNat
  let nFn ← readCount "functions"
  let functions ← Parser.many (fun _ => readFunction) 0 nFn.toNat
  let nCode ← readCount "code"
  let code ← Parser.many readInstruction 0 nCode.toNat
  return { name, constants, code, functions }

end Reader

/-- The chunk a module holds. What follows it is ignored. -/
def decodeWith (bytes : List UInt8) (trust : TrustLevel) : Except FormatError Chunk :=
  (Reader.readChunk trust).run' bytes

/-- Untrusted by default. -/
def decode (bytes : List UInt8) : Except FormatError Chunk := decodeWith bytes .untrusted

/-! ## What the decoder reads back -/

open Parser

namespace Reader

theorem parses_u8 (x : UInt8) : Parses readU8 [x] x := by
  have h := (parses_number FormatError.truncated (n := 1) x.toNat_lt).map UInt8.ofNat
  rw [UInt8.ofNat_toNat] at h
  have hbytes : leBytes 1 x.toNat = [x] := by simp [leBytes]
  rwa [hbytes] at h

theorem parses_u16 (x : UInt16) : Parses readU16 (leBytes 2 x.toNat) x := by
  have h := (parses_number FormatError.truncated (n := 2) x.toNat_lt).map UInt16.ofNat
  rwa [UInt16.ofNat_toNat] at h

theorem parses_u32 (x : UInt32) : Parses readU32 (leBytes 4 x.toNat) x := by
  have h := (parses_number FormatError.truncated (n := 4) x.toNat_lt).map UInt32.ofNat
  rwa [UInt32.ofNat_toNat] at h

theorem parses_u64 (x : UInt64) : Parses readU64 (leBytes 8 x.toNat) x := by
  have h := (parses_number FormatError.truncated (n := 8) x.toNat_lt).map UInt64.ofNat
  rwa [UInt64.ofNat_toNat] at h

theorem parses_i32 (x : Int32) : Parses readI32 (leBytes 4 x.toBitVec.toNat) x := by
  have h := (parses_number FormatError.truncated (n := 4) x.toBitVec.isLt).map
    fun n => Int32.ofBitVec (BitVec.ofNat 32 n)
  rwa [BitVec.ofNat_toNat, BitVec.setWidth_eq] at h

theorem parses_i64 (x : Int64) : Parses readI64 (leBytes 8 x.toBitVec.toNat) x := by
  have h := (parses_number FormatError.truncated (n := 8) x.toBitVec.isLt).map
    fun n => Int64.ofBitVec (BitVec.ofNat 64 n)
  rwa [BitVec.ofNat_toNat, BitVec.setWidth_eq] at h

theorem parses_u128 (x : BitVec 128) : Parses readU128 (leBytes 16 x.toNat) x := by
  have h := (parses_number FormatError.truncated (n := 16) x.isLt).map (BitVec.ofNat 128)
  rwa [BitVec.ofNat_toNat, BitVec.setWidth_eq] at h

/-- Flow ids are `u64`. -/
theorem parses_id {id : FlowId} (h : id < 2 ^ 64) :
    Parses readU64 (leBytes 8 id) (UInt64.ofNat id) ∧ (UInt64.ofNat id).toNat = id := by
  have hid : (UInt64.ofNat id).toNat = id := UInt64.toNat_ofNat_of_lt' h
  have hread := parses_u64 (UInt64.ofNat id)
  rw [hid] at hread
  exact ⟨hread, hid⟩

theorem toNat_len {limit : UInt32} {n : ℕ} (h : n ≤ limit.toNat) : (UInt32.ofNat n).toNat = n :=
  UInt32.toNat_ofNat_of_lt' (lt_of_le_of_lt h limit.toNat_lt)

/-- A length within the limit is read as it is. -/
theorem parses_upTo {limit : UInt32} {n : ℕ} (what : String) (h : n ≤ limit.toNat) :
    Parses (readUpTo limit what) (writeLen n) (UInt32.ofNat n) := by
  have hn := toNat_len h
  have hle : ¬limit < UInt32.ofNat n := by
    rw [UInt32.lt_iff_toNat_lt, hn]
    omega
  exact (parses_u32 (UInt32.ofNat n)).ret (if_neg hle)

/-- A counted part: the length, then as many bytes or entries as it says. -/
theorem parses_counted {limit : UInt32} {n : ℕ} {what : String} (h : n ≤ limit.toNat)
    {p : ℕ → Reader α} {bs : List UInt8} {a : α} (hp : Parses (p n) bs a) :
    Parses (readUpTo limit what >>= fun len => p len.toNat) (writeLen n ++ bs) a := by
  refine (parses_upTo what h).bind ?_
  rwa [toNat_len h]

theorem parses_blob {bytes : List UInt8} (what : String) (h : bytes.length ≤ maxBlob.toNat) :
    Parses (readBlob what) (writeBlob bytes) bytes :=
  parses_counted h (parses_take _ bytes)

theorem utf8_utf8Bytes (s : String) : utf8 (utf8Bytes s) = pure s := by
  have hvalid : String.fromUTF8? ⟨(utf8Bytes s).toArray⟩ = some s := by
    rw [utf8Bytes, Array.toArray_toList]
    exact dif_pos s.isValidUTF8
  rw [utf8, hvalid]

theorem length_utf8Bytes (s : String) : (utf8Bytes s).length = s.utf8ByteSize := rfl

theorem parses_string {s : String} (h : s.utf8ByteSize ≤ maxName.toNat) :
    Parses readString (writeString s) s := by
  rw [← length_utf8Bytes] at h
  exact parses_counted (p := fun n => Parser.take .truncated n >>= utf8) h
    ((parses_take _ (utf8Bytes s)).ret (utf8_utf8Bytes s))

theorem parses_str {s : String} (h : s.utf8ByteSize ≤ maxBlob.toNat) :
    Parses (readBlob "str") (writeString s) (utf8Bytes s) := by
  rw [← length_utf8Bytes] at h
  exact parses_blob "str" h

end Reader

/-! ## Values -/

namespace Value

/-- How many messages a value is nested in itself. -/
def nesting : Value → ℕ
  | .message _ _ _ _ payload => payload.nesting + 1
  | _ => 0

/-- The flow ids are `u64`, and the texts no longer than the decoder accepts. -/
def Bounded : Value → Prop
  | .pid id => id < 2 ^ 64
  | .message sender _ _ _ payload => sender < 2 ^ 64 ∧ payload.Bounded
  | .str s => s.utf8ByteSize ≤ maxBlob.toNat
  | .bytes b => b.length ≤ maxBlob.toNat
  | _ => True

/-- A value without authority: no `Cap`, `Pid` or `Message`. -/
def Inert : Value → Prop
  | .cap _ => False
  | .pid _ => False
  | .message .. => False
  | _ => True

end Value

namespace Reader

/-- The trust level lets the value into the constant pool. -/
def Admits (trust : TrustLevel) (v : Value) : Prop := trust = .trusted ∨ v.Inert

theorem Admits.trusted {trust : TrustLevel} {v : Value} (h : Admits trust v) (hv : ¬v.Inert) :
    trust = .trusted :=
  h.resolve_right hv

theorem readValue_of_le {trust : TrustLevel} {depth : ℕ} (h : depth ≤ maxValueDepth) :
    readValue trust depth = readU8 >>= readTagged trust (readValue trust (depth + 1)) := by
  rw [readValue, if_neg (Nat.not_lt.mpr h)]

theorem parses_value {trust : TrustLevel} {v : Value} {depth : ℕ} (hv : v.Bounded)
    (hdepth : depth + v.nesting ≤ maxValueDepth) (htrust : Admits trust v) :
    Parses (readValue trust depth) (writeValue v) v := by
  induction v generalizing depth with rw [readValue_of_le (le_trans (Nat.le_add_right _ _) hdepth)]
  | unit => exact (parses_u8 0).ret rfl
  | bool b =>
    refine (parses_u8 1).bind ((parses_u8 b.toUInt8).ret ?_)
    cases b <;> rfl
  | int i => exact (parses_u8 2).bind ((parses_i64 i).ret rfl)
  | float bits => exact (parses_u8 3).bind ((parses_u64 bits).ret rfl)
  | pid id =>
    obtain rfl := htrust.trusted fun h => h
    obtain ⟨hread, hid⟩ := parses_id hv
    refine (parses_u8 4).bind ((parses_pure ()).bind (hread.ret ?_))
    rw [hid]
  | message sender replyCap requestId tag payload ih =>
    obtain rfl := htrust.trusted fun h => h
    obtain ⟨hsender, hpayload⟩ := hv
    obtain ⟨hread, hid⟩ := parses_id hsender
    have hnested : depth + 1 + payload.nesting ≤ maxValueDepth := by
      rw [Value.nesting] at hdepth
      omega
    have hih := ih hpayload hnested (.inl rfl)
    refine (parses_u8 5).bind ((parses_pure ()).bind (hread.bind ((parses_u128 _).bind
      ((parses_u64 _).bind ((parses_u16 _).bind (hih.ret ?_))))))
    rw [hid]
    rfl
  | cap id =>
    obtain rfl := htrust.trusted fun h => h
    exact (parses_u8 6).bind ((parses_pure ()).bind ((parses_u128 id.raw).ret rfl))
  | str s =>
    have hstr : utf8 (utf8Bytes s) >>= (fun s => pure (Value.str s)) = pure (Value.str s) := by
      rw [utf8_utf8Bytes, pure_bind]
    exact (parses_u8 7).bind ((parses_str hv).ret hstr)
  | bytes b => exact (parses_u8 8).bind ((parses_blob "bytes" hv).ret rfl)

/-! ## Modules -/

/-- The decoder's limits, for a whole chunk. -/
structure InLimits (chunk : Chunk) : Prop where
  name : chunk.name.utf8ByteSize ≤ maxName.toNat
  constants : chunk.constants.length ≤ maxItems.toNat
  functions : chunk.functions.length ≤ maxItems.toNat
  code : chunk.code.length ≤ maxItems.toNat
  names : ∀ f ∈ chunk.functions, f.name.utf8ByteSize ≤ maxName.toNat
  values : ∀ v ∈ chunk.constants, v.Bounded ∧ v.nesting ≤ maxValueDepth

theorem parses_function {f : FunctionDef} (h : f.name.utf8ByteSize ≤ maxName.toNat) :
    Parses readFunction (writeFunction f) f :=
  (parses_string h).bind ((parses_u32 f.entry).bind
    ((parses_u8 f.arity).bind ((parses_u8 f.numRegisters).ret rfl)))

theorem parses_opcode (at_ : ℕ) (op : Opcode) : Parses (readOpcode at_) [op.asU8] op := by
  refine (parses_u8 op.asU8).ret ?_
  rw [Opcode.fromU8_asU8]

theorem parses_instruction (at_ : ℕ) (instr : Instruction) :
    Parses (readInstruction at_) (writeInstruction instr) instr :=
  (parses_opcode at_ instr.op).bind ((parses_u8 instr.a).bind ((parses_u8 instr.b).bind
    ((parses_u8 instr.c).bind ((parses_i32 instr.imm).ret rfl))))

theorem parses_magic : Parses readMagic magic () :=
  Parses.ret (f := fun found => if found = magic then pure () else throw (.badMagic found))
    (parses_take FormatError.truncated magic) (if_pos rfl)

theorem parses_abi : Parses readAbi (leBytes 4 abiVersion.toNat) () :=
  (parses_u32 abiVersion).ret (if_pos rfl)

theorem parses_table {α : Type} {p : ℕ → Reader α} {write : α → List UInt8} {as : List α}
    (hlen : as.length ≤ maxItems.toNat) (h : ∀ a ∈ as, ∀ i, Parses (p i) (write a) a) :
    Parses (many p 0 (UInt32.ofNat as.length).toNat) (as.flatMap write) as := by
  rw [toNat_len hlen]
  exact parses_many h

theorem parses_chunk {trust : TrustLevel} {chunk : Chunk} (h : InLimits chunk)
    (htrust : ∀ v ∈ chunk.constants, Admits trust v) :
    Parses (readChunk trust) chunk.encode chunk := by
  have hvalue : ∀ v ∈ chunk.constants, ∀ _ : ℕ, Parses (readValue trust 0) (writeValue v) v := by
    intro v hv _
    obtain ⟨hbounded, hnesting⟩ := h.values v hv
    exact parses_value hbounded (by rwa [Nat.zero_add]) (htrust v hv)
  have hfunction : ∀ f ∈ chunk.functions, ∀ _ : ℕ, Parses readFunction (writeFunction f) f :=
    fun f hf _ => parses_function (h.names f hf)
  have hcode := parses_table h.code fun instr _ at_ => parses_instruction at_ instr
  refine parses_magic.bind (parses_abi.bind ((parses_string h.name).bind ?_))
  refine (parses_upTo "constants" h.constants).bind ((parses_table h.constants hvalue).bind ?_)
  refine (parses_upTo "functions" h.functions).bind ((parses_table h.functions hfunction).bind ?_)
  exact (parses_upTo "code" h.code).bind (hcode.ret rfl)

end Reader

/-- A chunk within the decoder's limits comes back from its module, for trusted code. Without
authority among its constants it comes back for untrusted code as well. -/
theorem decode_encode {chunk : Chunk} (h : Reader.InLimits chunk) :
    decodeWith chunk.encode .trusted = .ok chunk ∧
      ((∀ v ∈ chunk.constants, v.Inert) → decode chunk.encode = .ok chunk) := by
  have hdecode : ∀ trust, (∀ v ∈ chunk.constants, Reader.Admits trust v) →
      decodeWith chunk.encode trust = .ok chunk := by
    intro trust htrust
    have hread := Reader.parses_chunk h htrust []
    rw [List.append_nil] at hread
    rw [decodeWith, StateT.run'_eq, hread]
    rfl
  exact ⟨hdecode _ fun _ _ => .inl rfl, fun hinert => hdecode _ fun v hv => .inr (hinert v hv)⟩

/-- A chunk with a constant of every inert kind, and others. -/
def kinds (others : List Value) : Chunk where
  name := "kinds"
  constants := others ++ [.unit, .bool true, .int (-1), .float 0x3FF8000000000000, .str "olá",
    .bytes [0, 255]]
  code := [.aImm .loadImm 0 (-1), .nullary .halt]
  functions := [⟨"main", 0, 0, 1⟩]

def authorities : List Value :=
  [.pid 7, .message 1 ⟨2⟩ 3 4 (.message 5 CapId.none 6 7 .unit), .cap ⟨8⟩]

theorem decode_encode_kinds :
    decodeWith (kinds authorities).encode .trusted = .ok (kinds authorities) ∧
      decode (kinds []).encode = .ok (kinds []) := by
  have htrusted : Reader.InLimits (kinds authorities) :=
    { name := by decide
      constants := by decide
      functions := by decide
      code := by decide
      names := by decide
      values := by
        have hstr : "olá".utf8ByteSize ≤ maxBlob.toNat := by decide
        simpa [kinds, authorities, Value.Bounded, Value.nesting, maxValueDepth, maxBlob]
          using hstr }
  have hinert : Reader.InLimits (kinds []) :=
    { htrusted with
      constants := by decide
      values := fun v hv => htrusted.values v (List.mem_append_right authorities hv) }
  exact ⟨(decode_encode htrusted).1, (decode_encode hinert).2 (by simp [kinds, Value.Inert])⟩

end Byteflow
