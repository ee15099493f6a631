import Byteflow.Bytecode.Format
import Mathlib.Data.List.Forall2

/-!
# Which byte strings are modules

The decoder of `bytecode/format.rs` read backwards: what it accepts and with which result
(`decodeWith_ok_iff`). A module is the encoding of its chunk, except that any non-zero byte spells
the `true` of a constant, and what follows the module is ignored (`module_of_decode`). The trust
level decides nothing but which constants may be there (`decode_iff_trusted`).
-/

namespace Byteflow

theorem Opcode.asU8_of_fromU8 {byte : UInt8} {op : Opcode} (h : fromU8 byte = some op) :
    byte = op.asU8 := by
  unfold fromU8 at h
  split at h <;> cases h <;> rfl

/-! ## Spellings -/

/-- The byte of a `Bool` constant, as the decoder reads it. -/
def looseBit (b : Bool) (x : UInt8) : Prop := (x != 0) = b

/-- The byte of a `Bool` constant, as the encoder writes it. -/
def exactBit (b : Bool) (x : UInt8) : Prop := x = b.toUInt8

/-- The bytes are those of the value, up to the bytes of `Bool` values in it. -/
def Value.SpelledBy (bit : Bool → UInt8 → Prop) : Value → List UInt8 → Prop
  | .bool b, bs => ∃ x, bit b x ∧ bs = [1, x]
  | .message sender replyCap requestId tag payload, bs =>
    ∃ inner, payload.SpelledBy bit inner ∧
      bs = 5 :: (leBytes 8 sender ++ (leBytes 16 replyCap.raw.toNat ++
        (leBytes 8 requestId.toNat ++ (leBytes 2 tag.toNat ++ inner))))
  | v, bs => bs = writeValue v

/-- The bytes are those of the module, up to the bytes of `Bool` values among the constants. -/
def Chunk.SpelledBy (bit : Bool → UInt8 → Prop) (chunk : Chunk) (bs : List UInt8) : Prop :=
  ∃ parts, List.Forall₂ (Value.SpelledBy bit) chunk.constants parts ∧
    bs = magic ++ (leBytes 4 abiVersion.toNat ++ (writeString chunk.name ++
      (writeLen chunk.constants.length ++ (parts.flatten ++
      (writeLen chunk.functions.length ++ (chunk.functions.flatMap writeFunction ++
      (writeLen chunk.code.length ++ chunk.code.flatMap writeInstruction)))))))

theorem Value.spelledBy_exact_iff {v : Value} {bs : List UInt8} :
    v.SpelledBy exactBit bs ↔ bs = writeValue v := by
  induction v generalizing bs with
  | bool b => simp [SpelledBy, exactBit, writeValue]
  | message sender replyCap requestId tag payload ih => simp [SpelledBy, ih, writeValue]
  | _ => rfl

/-- A table whose entries are spelled as written. -/
theorem forall₂_exact_iff {vs : List Value} {parts : List (List UInt8)} :
    List.Forall₂ (Value.SpelledBy exactBit) vs parts ↔ parts = vs.map writeValue := by
  induction vs generalizing parts with
  | nil => simp
  | cons v vs ih =>
    rw [List.forall₂_cons_left_iff]
    simp [Value.spelledBy_exact_iff, ih]

/-- Exactly spelled, a module is what the encoder writes. -/
theorem Chunk.spelledBy_exact_iff {chunk : Chunk} {bs : List UInt8} :
    chunk.SpelledBy exactBit bs ↔ bs = chunk.encode := by
  unfold SpelledBy
  simp only [forall₂_exact_iff, exists_eq_left, ← List.flatMap_def]
  rfl

/-- The spelling changes no length. -/
theorem Value.SpelledBy.length {bit : Bool → UInt8 → Prop} {v : Value} {bs : List UInt8}
    (h : v.SpelledBy bit bs) : bs.length = (writeValue v).length := by
  induction v generalizing bs with
  | bool b =>
    obtain ⟨x, -, rfl⟩ := h
    rfl
  | message sender replyCap requestId tag payload ih =>
    obtain ⟨inner, hinner, rfl⟩ := h
    simp [writeValue, ih hinner]
  | _ => exact congrArg List.length h

theorem Chunk.SpelledBy.length {bit : Bool → UInt8 → Prop} {chunk : Chunk} {bs : List UInt8}
    (h : chunk.SpelledBy bit bs) : bs.length = chunk.encode.length := by
  obtain ⟨parts, hparts, rfl⟩ := h
  have hlens : parts.map List.length = chunk.constants.map fun v => (writeValue v).length :=
    List.forall₂_eq_eq_eq ▸ List.forall₂_map_left_iff.mpr
      (List.forall₂_map_right_iff.mpr (hparts.flip.imp fun _ _ hv => Value.SpelledBy.length hv))
  simp only [encode, List.length_append, List.length_flatten, List.length_flatMap, hlens]

/-! ## What the decoder takes -/

namespace Reader

open Parser

theorem takes_u8 : Takes readU8 fun x taken => taken = [x] := by
  refine ((takes_number FormatError.truncated 1).map UInt8.ofNat).mono ?_
  rintro _ taken ⟨n, ⟨hn, rfl⟩, rfl⟩
  simp [leBytes]

theorem takes_u16 : Takes readU16 fun x taken => taken = leBytes 2 x.toNat := by
  refine ((takes_number FormatError.truncated 2).map UInt16.ofNat).mono ?_
  rintro _ taken ⟨n, ⟨hn, rfl⟩, rfl⟩
  rw [UInt16.toNat_ofNat_of_lt' hn]

theorem takes_u32 : Takes readU32 fun x taken => taken = leBytes 4 x.toNat := by
  refine ((takes_number FormatError.truncated 4).map UInt32.ofNat).mono ?_
  rintro _ taken ⟨n, ⟨hn, rfl⟩, rfl⟩
  rw [UInt32.toNat_ofNat_of_lt' hn]

theorem takes_u64 : Takes readU64 fun x taken => taken = leBytes 8 x.toNat := by
  refine ((takes_number FormatError.truncated 8).map UInt64.ofNat).mono ?_
  rintro _ taken ⟨n, ⟨hn, rfl⟩, rfl⟩
  rw [UInt64.toNat_ofNat_of_lt' hn]

theorem takes_i32 : Takes readI32 fun x taken => taken = leBytes 4 x.toBitVec.toNat := by
  refine ((takes_number FormatError.truncated 4).map _).mono ?_
  rintro _ taken ⟨n, ⟨hn, rfl⟩, rfl⟩
  rw [Int32.toBitVec_ofBitVec, BitVec.toNat_ofNat, Nat.mod_eq_of_lt (by omega)]

theorem takes_i64 : Takes readI64 fun x taken => taken = leBytes 8 x.toBitVec.toNat := by
  refine ((takes_number FormatError.truncated 8).map _).mono ?_
  rintro _ taken ⟨n, ⟨hn, rfl⟩, rfl⟩
  rw [Int64.toBitVec_ofBitVec, BitVec.toNat_ofNat, Nat.mod_eq_of_lt (by omega)]

theorem takes_u128 : Takes readU128 fun x taken => taken = leBytes 16 x.toNat := by
  refine ((takes_number FormatError.truncated 16).map _).mono ?_
  rintro _ taken ⟨n, ⟨hn, rfl⟩, rfl⟩
  rw [BitVec.toNat_ofNat, Nat.mod_eq_of_lt (by omega)]

theorem takes_upTo (limit : UInt32) (what : String) :
    Takes (readUpTo limit what) fun n taken =>
      n.toNat ≤ limit.toNat ∧ taken = writeLen n.toNat := by
  refine takes_u32.bind fun n taken hn => ?_
  split_ifs with h
  · exact takes_throw _ _
  · refine takes_pure ?_
    rw [UInt32.lt_iff_toNat_lt] at h
    rw [List.append_nil, hn, writeLen, UInt32.ofNat_toNat]
    exact ⟨by omega, rfl⟩

theorem takes_counted {limit : UInt32} {what : String} :
    Takes (readUpTo limit what >>= fun len => Parser.take .truncated len.toNat)
      fun bytes taken => bytes.length ≤ limit.toNat ∧ taken = writeBlob bytes := by
  refine (takes_upTo limit what).bind fun n taken hn => ?_
  refine (takes_take _ n.toNat).mono ?_
  rintro bytes taken' ⟨rfl, hlen⟩
  obtain ⟨hle, rfl⟩ := hn
  exact ⟨hlen.trans_le hle, by rw [writeBlob, hlen]⟩

theorem takes_utf8 (bytes : List UInt8) :
    Takes (utf8 bytes) fun s taken => taken = [] ∧ bytes = utf8Bytes s := by
  unfold utf8
  split
  · next s hs =>
    refine takes_pure ⟨rfl, ?_⟩
    unfold String.fromUTF8? at hs
    split_ifs at hs
    cases hs
    rfl
  · exact takes_throw _ _

theorem takes_string :
    Takes readString fun s taken =>
      s.utf8ByteSize ≤ maxName.toNat ∧ taken = writeString s := by
  have hread : readString =
      (readUpTo maxName "name" >>= fun len => Parser.take .truncated len.toNat) >>= utf8 := by
    rw [bind_assoc]
    rfl
  rw [hread]
  refine takes_counted.bind fun bytes taken hbytes => (takes_utf8 bytes).mono ?_
  rintro s taken' ⟨rfl, rfl⟩
  obtain ⟨hle, rfl⟩ := hbytes
  exact ⟨hle, List.append_nil _⟩

theorem takes_blob (what : String) :
    Takes (readBlob what) fun bytes taken =>
      bytes.length ≤ maxBlob.toNat ∧ taken = writeBlob bytes := takes_counted

/-- Authority is read only under trust, and the check takes nothing. -/
theorem takes_allowed (trust : TrustLevel) (kind : ConstantKind) :
    Takes (allowed trust kind) fun _ taken => taken = [] ∧ trust = .trusted := by
  cases trust with
  | trusted => exact takes_pure ⟨rfl, rfl⟩
  | untrusted => exact takes_throw _ _

/-- What the decoder knows about a value it has read at this depth, and its bytes. -/
structure ReadAs (trust : TrustLevel) (depth : ℕ) (v : Value) (taken : List UInt8) : Prop where
  spelled : v.SpelledBy looseBit taken
  bounded : v.Bounded
  nesting : depth + v.nesting ≤ maxValueDepth
  admitted : Admits trust v

theorem takes_tagged {trust : TrustLevel} {depth : ℕ} (hdepth : depth ≤ maxValueDepth)
    {readPayload : Reader Value} (hpayload : Takes readPayload (ReadAs trust (depth + 1)))
    (tag : UInt8) :
    Takes (readTagged trust readPayload tag) fun v taken =>
      ReadAs trust depth v (tag :: taken) := by
  unfold readTagged
  split
  · exact takes_pure ⟨rfl, trivial, hdepth, .inr trivial⟩
  · refine takes_u8.bind fun x taken hx => takes_pure ?_
    subst hx
    exact ⟨⟨x, rfl, rfl⟩, trivial, hdepth, .inr trivial⟩
  · refine takes_i64.bind fun i taken hi => takes_pure ?_
    subst hi
    exact ⟨by rw [List.append_nil]; rfl, trivial, hdepth, .inr trivial⟩
  · refine takes_u64.bind fun bits taken hbits => takes_pure ?_
    subst hbits
    exact ⟨by rw [List.append_nil]; rfl, trivial, hdepth, .inr trivial⟩
  · refine (takes_allowed _ _).bind fun _ taken htrust => takes_u64.bind fun id taken' hid =>
      takes_pure ?_
    obtain ⟨rfl, htrust⟩ := htrust
    subst hid
    exact ⟨by rw [List.append_nil]; rfl, id.toNat_lt, hdepth, .inl htrust⟩
  · refine (takes_allowed _ _).bind fun _ taken htrust => takes_u64.bind fun sender t₁ h₁ =>
      takes_u128.bind fun replyCap t₂ h₂ => takes_u64.bind fun requestId t₃ h₃ =>
      takes_u16.bind fun tag t₄ h₄ => hpayload.bind fun payload t₅ h₅ => takes_pure ?_
    obtain ⟨rfl, htrust⟩ := htrust
    subst h₁ h₂ h₃ h₄
    refine ⟨⟨t₅, h₅.spelled, ?_⟩, ⟨sender.toNat_lt, h₅.bounded⟩, ?_, .inl htrust⟩
    · simp [Message.authenticate, Message.new]
    · have hnesting := h₅.nesting
      show depth + (payload.nesting + 1) ≤ maxValueDepth
      omega
  · refine (takes_allowed _ _).bind fun _ taken htrust => takes_u128.bind fun id taken' hid =>
      takes_pure ?_
    obtain ⟨rfl, htrust⟩ := htrust
    subst hid
    exact ⟨by rw [List.append_nil]; rfl, trivial, hdepth, .inl htrust⟩
  · refine (takes_blob "str").bind fun bytes taken hbytes => (takes_utf8 bytes).bind
      fun s taken' hs => takes_pure ?_
    obtain ⟨hle, rfl⟩ := hbytes
    obtain ⟨rfl, rfl⟩ := hs
    exact ⟨by simp [Value.SpelledBy, writeValue, writeString], hle, hdepth, .inr trivial⟩
  · refine (takes_blob "bytes").bind fun bytes taken hbytes => takes_pure ?_
    obtain ⟨hle, rfl⟩ := hbytes
    exact ⟨by rw [List.append_nil]; rfl, hle, hdepth, .inr trivial⟩
  · exact takes_throw _ _

/-- By induction on the depth that is left. -/
theorem takes_value (trust : TrustLevel) (depth : ℕ) :
    Takes (readValue trust depth) (ReadAs trust depth) := by
  induction hleft : maxValueDepth + 1 - depth generalizing depth with
  | zero =>
    rw [readValue, if_pos (by omega)]
    exact takes_throw _ _
  | succ left ih =>
    have hdepth : depth ≤ maxValueDepth := by omega
    rw [readValue_of_le hdepth]
    refine takes_u8.bind fun tag taken htag => ?_
    subst htag
    exact takes_tagged hdepth (ih (depth + 1) (by omega)) tag

theorem takes_function :
    Takes readFunction fun f taken =>
      f.name.utf8ByteSize ≤ maxName.toNat ∧ taken = writeFunction f := by
  refine takes_string.bind fun name t₁ h₁ => takes_u32.bind fun entry t₂ h₂ =>
    takes_u8.bind fun arity t₃ h₃ => takes_u8.bind fun numRegisters t₄ h₄ => takes_pure ?_
  obtain ⟨hname, rfl⟩ := h₁
  subst h₂ h₃ h₄
  exact ⟨hname, by simp [writeFunction]⟩

theorem takes_opcode (at_ : ℕ) : Takes (readOpcode at_) fun op taken => taken = [op.asU8] := by
  refine takes_u8.bind fun byte taken hbyte => ?_
  subst hbyte
  cases hop : Opcode.fromU8 byte with
  | none => exact takes_throw _ _
  | some op =>
    refine takes_pure ?_
    rw [List.append_nil, Opcode.asU8_of_fromU8 hop]

theorem takes_instruction (at_ : ℕ) :
    Takes (readInstruction at_) fun instr taken => taken = writeInstruction instr := by
  refine (takes_opcode at_).bind fun op t₁ h₁ => takes_u8.bind fun a t₂ h₂ =>
    takes_u8.bind fun b t₃ h₃ => takes_u8.bind fun c t₄ h₄ => takes_i32.bind fun imm t₅ h₅ =>
    takes_pure ?_
  subst h₁ h₂ h₃ h₄ h₅
  simp [writeInstruction]

theorem takes_magic : Takes readMagic fun _ taken => taken = magic := by
  refine (takes_take _ 4).bind fun found taken hfound => ?_
  obtain ⟨rfl, -⟩ := hfound
  split_ifs with h
  · exact takes_pure (by rw [List.append_nil, h])
  · exact takes_throw _ _

theorem takes_abi : Takes readAbi fun _ taken => taken = leBytes 4 abiVersion.toNat := by
  refine takes_u32.bind fun abi taken habi => ?_
  split_ifs with h
  · exact takes_pure (by rw [List.append_nil, habi, h])
  · exact takes_throw _ _

/-- A counted table: its length, then the bytes of its entries. -/
theorem takes_table {α : Type} {p : ℕ → Reader α} {Q : α → List UInt8 → Prop}
    (h : ∀ i, Takes (p i) Q) (what : String) :
    Takes (readCount what >>= fun n => many p 0 n.toNat) fun as taken =>
      as.length ≤ maxItems.toNat ∧
        ∃ parts, List.Forall₂ Q as parts ∧ taken = writeLen as.length ++ parts.flatten := by
  refine (takes_upTo maxItems what).bind fun n taken hn => (takes_many h 0 n.toNat).mono ?_
  rintro as taken' ⟨hlen, parts, hparts, rfl⟩
  obtain ⟨hle, rfl⟩ := hn
  exact ⟨hlen.trans_le hle, parts, hparts, by rw [hlen]⟩

/-- The bytes of a table whose entries have one spelling. -/
theorem flatten_of_forall₂ {α : Type} {write : α → List UInt8} {as : List α}
    {parts : List (List UInt8)} (h : List.Forall₂ (fun a taken => taken = write a) as parts) :
    parts.flatten = as.flatMap write := by
  induction h with
  | nil => rfl
  | cons ha _ ih => rw [List.flatten_cons, List.flatMap_cons, ha, ih]

/-- What the decoder knows about a chunk it has read, and its bytes. -/
structure ChunkReadAs (trust : TrustLevel) (chunk : Chunk) (taken : List UInt8) : Prop where
  spelled : chunk.SpelledBy looseBit taken
  limits : InLimits chunk
  admitted : ∀ v ∈ chunk.constants, Admits trust v

theorem takes_chunk (trust : TrustLevel) : Takes (readChunk trust) (ChunkReadAs trust) := by
  have hread : readChunk trust = (do
      readMagic
      readAbi
      let name ← readString
      let constants ← readCount "constants" >>= fun n => many (fun _ => readValue trust 0) 0 n.toNat
      let functions ← readCount "functions" >>= fun n => many (fun _ => readFunction) 0 n.toNat
      let code ← readCount "code" >>= fun n => many readInstruction 0 n.toNat
      return { name, constants, code, functions }) := by
    simp only [bind_assoc]
    rfl
  rw [hread]
  refine takes_magic.bind fun _ t₁ h₁ => takes_abi.bind fun _ t₂ h₂ => takes_string.bind
    fun name t₃ h₃ => (takes_table (fun _ => takes_value trust 0) _).bind fun constants t₄ h₄ =>
    (takes_table (fun _ => takes_function) _).bind fun functions t₅ h₅ =>
    (takes_table takes_instruction _).bind fun code t₆ h₆ => takes_pure ?_
  subst h₁ h₂
  obtain ⟨hname, rfl⟩ := h₃
  obtain ⟨hconstants, parts, hparts, rfl⟩ := h₄
  obtain ⟨hfunctions, fparts, hfparts, rfl⟩ := h₅
  obtain ⟨hcode, cparts, hcparts, rfl⟩ := h₆
  obtain ⟨hnames, hfparts⟩ := (List.forall₂_and_left _ _).mp hfparts
  have hread : List.Forall₂ (fun v taken => ((v.Bounded ∧ v.nesting ≤ maxValueDepth) ∧
      Admits trust v) ∧ v.SpelledBy looseBit taken) constants parts :=
    hparts.imp fun v taken h => ⟨⟨⟨h.bounded, by simpa using h.nesting⟩, h.admitted⟩, h.spelled⟩
  obtain ⟨hvalues, hspelled⟩ := (List.forall₂_and_left _ _).mp hread
  refine ⟨⟨parts, hspelled, ?_⟩, ?_, fun v hv => (hvalues v hv).2⟩
  · simp [flatten_of_forall₂ hfparts, flatten_of_forall₂ hcparts]
  · exact { name := hname, constants := hconstants, functions := hfunctions, code := hcode,
            names := hnames, values := fun v hv => (hvalues v hv).1 }

/-! ## What the decoder accepts -/

/-- Every spelling of a value is read, whatever follows it. -/
theorem parses_spelled {trust : TrustLevel} {v : Value} {bs : List UInt8} {depth : ℕ}
    (h : ReadAs trust depth v bs) : Parses (readValue trust depth) bs v := by
  obtain ⟨hspelled, hbounded, hnesting, htrust⟩ := h
  induction v generalizing depth bs with
  | bool b =>
    obtain ⟨x, hx, rfl⟩ := hspelled
    rw [readValue_of_le (le_trans (Nat.le_add_right _ _) hnesting)]
    refine (parses_u8 1).bind ((parses_u8 x).ret ?_)
    rw [hx]
  | message sender replyCap requestId tag payload ih =>
    obtain rfl := htrust.trusted fun h => h
    obtain ⟨inner, hinner, rfl⟩ := hspelled
    obtain ⟨hsender, hpayload⟩ := hbounded
    obtain ⟨hread, hid⟩ := parses_id hsender
    have hdeeper : depth + 1 + payload.nesting ≤ maxValueDepth := by
      rw [Value.nesting] at hnesting
      omega
    have hih := ih hinner hpayload hdeeper (.inl rfl)
    rw [readValue_of_le (le_trans (Nat.le_add_right _ _) hnesting)]
    refine (parses_u8 5).bind ((parses_pure ()).bind (hread.bind ((parses_u128 _).bind
      ((parses_u64 _).bind ((parses_u16 _).bind (hih.ret ?_))))))
    rw [hid]
    rfl
  | _ =>
    -- the other values have one spelling
    obtain rfl := hspelled
    exact parses_value hbounded hnesting htrust

theorem parses_values {trust : TrustLevel} {vs : List Value} {parts : List (List UInt8)} {i : ℕ}
    (h : List.Forall₂ (ReadAs trust 0) vs parts) :
    Parses (many (fun _ => readValue trust 0) i vs.length) parts.flatten vs := by
  induction h generalizing i with
  | nil => exact parses_pure []
  | cons hv _ ih => exact (parses_spelled hv).bind (ih.ret rfl)

theorem parses_spelled_chunk {trust : TrustLevel} {chunk : Chunk} {bs : List UInt8}
    (h : ChunkReadAs trust chunk bs) : Parses (readChunk trust) bs chunk := by
  obtain ⟨⟨parts, hparts, rfl⟩, hlimits, hadmits⟩ := h
  have hread : List.Forall₂ (ReadAs trust 0) chunk.constants parts := by
    have hvalues : ∀ v ∈ chunk.constants, (v.Bounded ∧ v.nesting ≤ maxValueDepth) ∧
        Admits trust v := fun v hv => ⟨hlimits.values v hv, hadmits v hv⟩
    refine ((List.forall₂_and_left _ _).mpr ⟨hvalues, hparts⟩).imp fun v taken hv => ?_
    exact ⟨hv.2, hv.1.1.1, by simpa using hv.1.1.2, hv.1.2⟩
  have hvalues : Parses (many (fun _ => readValue trust 0) 0
      (UInt32.ofNat chunk.constants.length).toNat) parts.flatten chunk.constants := by
    rw [toNat_len hlimits.constants]
    exact parses_values hread
  have hfunctions := parses_table hlimits.functions fun f hf _ =>
    parses_function (hlimits.names f hf)
  have hcode := parses_table hlimits.code fun instr _ at_ => parses_instruction at_ instr
  refine parses_magic.bind (parses_abi.bind ((parses_string hlimits.name).bind ?_))
  refine (parses_upTo "constants" hlimits.constants).bind (hvalues.bind ?_)
  refine (parses_upTo "functions" hlimits.functions).bind (hfunctions.bind ?_)
  exact (parses_upTo "code" hlimits.code).bind (hcode.ret rfl)

end Reader

/-- **What the decoder accepts**: the spellings of the chunks within its limits whose constants the
trust level admits, whatever follows them. -/
theorem decodeWith_ok_iff {bytes : List UInt8} {trust : TrustLevel} {chunk : Chunk} :
    decodeWith bytes trust = .ok chunk ↔
      Reader.InLimits chunk ∧ (∀ v ∈ chunk.constants, Reader.Admits trust v) ∧
        ∃ module_ rest, bytes = module_ ++ rest ∧ chunk.SpelledBy looseBit module_ := by
  constructor
  · intro h
    rw [decodeWith, StateT.run'_eq] at h
    cases hrun : (Reader.readChunk trust).run bytes with
    | error e =>
      rw [hrun] at h
      cases h
    | ok r =>
      obtain ⟨c, rest⟩ := r
      rw [hrun] at h
      cases h
      obtain ⟨module_, hbytes, hread⟩ := Reader.takes_chunk trust bytes c rest hrun
      exact ⟨hread.limits, hread.admitted, module_, rest, hbytes, hread.spelled⟩
  · rintro ⟨hlimits, hadmits, module_, rest, rfl, hspelled⟩
    have hread := Reader.parses_spelled_chunk ⟨hspelled, hlimits, hadmits⟩ rest
    rw [decodeWith, StateT.run'_eq, hread]
    rfl

/-- **How far the format is canonical.** An accepted byte string is a module and what follows it.
The module is the encoding of the chunk up to the bytes of `Bool` constants, where every non-zero
byte spells `true`, and the byte string is the encoding exactly when no such byte is above one and
nothing follows. The byte strings that decode to the chunk are those of this kind. -/
theorem module_of_decode {bytes : List UInt8} {chunk : Chunk}
    (h : decodeWith bytes .trusted = .ok chunk) :
    (∃ module_ rest, bytes = module_ ++ rest ∧ chunk.SpelledBy looseBit module_ ∧
      (chunk.encode = bytes ↔ rest = [] ∧ chunk.SpelledBy exactBit module_)) ∧
    ∀ other, decodeWith other .trusted = .ok chunk ↔
      ∃ module_ rest, other = module_ ++ rest ∧ chunk.SpelledBy looseBit module_ := by
  obtain ⟨hlimits, hadmits, module_, rest, rfl, hspelled⟩ := decodeWith_ok_iff.mp h
  refine ⟨⟨module_, rest, rfl, hspelled, ?_⟩, fun other => ?_⟩
  · rw [Chunk.spelledBy_exact_iff]
    constructor
    · intro hencode
      have hlen := congrArg List.length hencode
      rw [List.length_append, hspelled.length] at hlen
      obtain rfl : rest = [] := List.length_eq_zero_iff.mp (by omega)
      exact ⟨rfl, by rw [hencode, List.append_nil]⟩
    · rintro ⟨rfl, rfl⟩
      rw [List.append_nil]
  · rw [decodeWith_ok_iff]
    exact ⟨fun h => h.2.2, fun h => ⟨hlimits, hadmits, h⟩⟩

/-- A chunk with one constant, and no code. -/
def truth : Chunk := ⟨"", [.bool true], [], []⟩

/-- The constant is spelled with a two, and one byte follows. -/
def looseTruth : List UInt8 :=
  [0x42, 0x46, 0x56, 0x30, 5, 0, 0, 0, 0, 0, 0, 0, 1, 0, 0, 0, 1, 2, 0, 0, 0, 0, 0, 0, 0, 0, 9]

theorem decodeWith_looseTruth : decodeWith looseTruth .trusted = .ok truth := by
  have hlimits : Reader.InLimits truth :=
    { name := by decide, constants := by decide, functions := by decide, code := by decide,
      names := by decide, values := by simp [truth, Value.Bounded, Value.nesting] }
  refine decodeWith_ok_iff.mpr ⟨hlimits, fun _ _ => .inl rfl, looseTruth.dropLast, [9], rfl, ?_⟩
  exact ⟨[[1, 2]], .cons ⟨2, rfl, rfl⟩ .nil, by decide⟩

theorem module_of_decode_looseTruth :
    ∃ module_ rest, looseTruth = module_ ++ rest ∧ truth.SpelledBy looseBit module_ ∧
      (truth.encode = looseTruth ↔ rest = [] ∧ truth.SpelledBy exactBit module_) :=
  (module_of_decode decodeWith_looseTruth).1

/-- The format is not canonical. -/
theorem decode_not_canonical :
    ¬∀ (bytes : List UInt8) (chunk : Chunk),
      decodeWith bytes .trusted = .ok chunk → chunk.encode = bytes := by
  intro hall
  have h := hall looseTruth truth decodeWith_looseTruth
  revert h
  decide

/-! ## Untrusted modules -/

namespace Chunk

/-- A chunk without authority among its constants passes this check of the verifier. -/
theorem checkEach_of_inert {vs : List Value} (h : ∀ v ∈ vs, v.Inert) (n : ℕ) :
    checkEach (validateConstant .untrusted) n vs = .ok () := by
  induction vs generalizing n with
  | nil => rfl
  | cons v vs ih =>
    obtain ⟨hv, hvs⟩ := List.forall_mem_cons.mp h
    have hcheck : validateConstant .untrusted n v = .ok () := by
      cases v with
      | cap id => exact hv.elim
      | pid id => exact hv.elim
      | message sender replyCap requestId tag payload => exact hv.elim
      | _ => rfl
    rw [checkEach, hcheck]
    exact ih hvs (n + 1)

theorem error_of_checkEach {α ε : Type} {check : ℕ → α → Except ε Unit} {as : List α} {n : ℕ}
    {e : ε} (h : checkEach check n as = .error e) : ∃ i a, check i a = .error e := by
  induction as generalizing n with
  | nil => cases h
  | cons a as ih =>
    cases ha : check n a with
    | error e' =>
      rw [checkEach, ha] at h
      cases h
      exact ⟨n, a, ha⟩
    | ok _ =>
      rw [checkEach, ha] at h
      exact ih h

theorem verifyFunction_ne_forbidden (chunk : Chunk) (i : ℕ) (f : FunctionDef) (index : ℕ)
    (kind : ConstantKind) : chunk.verifyFunction i f ≠ .error (.forbiddenConstant index kind) := by
  unfold verifyFunction
  split_ifs <;> simp

theorem verifyInstruction_ne_forbidden (chunk : Chunk) (i : ℕ) (instr : Instruction) (index : ℕ)
    (kind : ConstantKind) :
    chunk.verifyInstruction i instr ≠ .error (.forbiddenConstant index kind) := by
  unfold verifyInstruction
  dsimp only
  split <;> (try split_ifs) <;> simp

/-- The verifier has nothing to forbid in a chunk without authority. -/
theorem verify_ne_forbidden {chunk : Chunk} (h : ∀ v ∈ chunk.constants, v.Inert) (index : ℕ)
    (kind : ConstantKind) :
    chunk.verifyWith .untrusted ≠ .error (.forbiddenConstant index kind) := by
  intro herror
  unfold verifyWith at herror
  rw [checkEach_of_inert h 0] at herror
  split at herror
  · cases herror
  cases hf : checkEach chunk.verifyFunction 0 chunk.functions with
  | error e =>
    rw [hf] at herror
    cases herror
    obtain ⟨i, f, hi⟩ := error_of_checkEach hf
    exact chunk.verifyFunction_ne_forbidden i f index kind hi
  | ok _ =>
    rw [hf] at herror
    obtain ⟨i, instr, hi⟩ := error_of_checkEach herror
    exact chunk.verifyInstruction_ne_forbidden i instr index kind hi

end Chunk

/-- **Untrusted decoding is trusted decoding without authority.** A byte string decodes for
untrusted code exactly when it decodes for trusted code to a chunk whose constants hold no `Cap`,
`Pid` or `Message`, to the same chunk; and the verifier has nothing to forbid in it. -/
theorem decode_iff_trusted (bytes : List UInt8) (chunk : Chunk) :
    (decodeWith bytes .untrusted = .ok chunk ↔
      decodeWith bytes .trusted = .ok chunk ∧ ∀ v ∈ chunk.constants, v.Inert) ∧
    (decodeWith bytes .untrusted = .ok chunk → ∀ index kind,
      chunk.verifyWith .untrusted ≠ .error (.forbiddenConstant index kind)) := by
  have hiff : decodeWith bytes .untrusted = .ok chunk ↔
      decodeWith bytes .trusted = .ok chunk ∧ ∀ v ∈ chunk.constants, v.Inert := by
    have htrusted : ∀ v, Reader.Admits .trusted v := fun _ => .inl rfl
    have huntrusted : ∀ v, Reader.Admits .untrusted v ↔ v.Inert := fun v =>
      or_iff_right (by decide)
    simp only [decodeWith_ok_iff, htrusted, huntrusted]
    tauto
  refine ⟨hiff, fun h index kind => ?_⟩
  exact chunk.verify_ne_forbidden (hiff.mp h).2 index kind

end Byteflow
