import Mathlib.Data.Int.Notation
import Mathlib.Data.List.Basic

/-!
# The code of traces

The part of Cranelift IR that the trace compiler uses, and the frame that compiled code works on
(`jit/frame.rs`). A value of the code is a parameter: `V` for `i64` and `W` for `i32` and for the
results of comparisons, so a compiler can pass values on but not look at them. A block that has one
predecessor stands where that branches to it, as a tree; the other blocks have labels.

The operations mean what Cranelift documents. Addresses are resolved: a slot is named by its index,
a field of the frame and of a call record by its name, and an access outside of a buffer ends the
run (`Run.outOfBounds`).
-/

namespace Byteflow

namespace Jit

/-! ## The frame -/

/-- Saved caller state of one call. -/
structure JitCallRecord where
  returnPc : UInt32
  returnFunction : UInt32
  destReg : UInt32
  callerRegisterCount : UInt32
  deriving DecidableEq

inductive RecordField
  | returnPc
  | returnFunction
  | destReg
  | callerRegisterCount
  deriving DecidableEq

namespace JitCallRecord

def get (r : JitCallRecord) : RecordField → UInt32
  | .returnPc => r.returnPc
  | .returnFunction => r.returnFunction
  | .destReg => r.destReg
  | .callerRegisterCount => r.callerRegisterCount

def set (r : JitCallRecord) (f : RecordField) (x : UInt32) : JitCallRecord :=
  match f with
  | .returnPc => { r with returnPc := x }
  | .returnFunction => { r with returnFunction := x }
  | .destReg => { r with destReg := x }
  | .callerRegisterCount => { r with callerRegisterCount := x }

end JitCallRecord

/-- Calls that one run of a trace may nest. -/
def maxJitCallDepth : ℕ := 32

/-- The state of one run of compiled code. -/
structure JitFrame where
  slots : List Int64
  registerCount : UInt32
  pc : UInt32
  budget : UInt32
  function : UInt32
  exitKind : UInt32
  returnReg : UInt32
  callDepth : UInt32
  callStack : List JitCallRecord
  deriving DecidableEq

inductive Field
  | registerCount
  | pc
  | budget
  | function
  | exitKind
  | returnReg
  | callDepth
  deriving DecidableEq

namespace JitFrame

def get (fr : JitFrame) : Field → UInt32
  | .registerCount => fr.registerCount
  | .pc => fr.pc
  | .budget => fr.budget
  | .function => fr.function
  | .exitKind => fr.exitKind
  | .returnReg => fr.returnReg
  | .callDepth => fr.callDepth

def set (fr : JitFrame) (f : Field) (x : UInt32) : JitFrame :=
  match f with
  | .registerCount => { fr with registerCount := x }
  | .pc => { fr with pc := x }
  | .budget => { fr with budget := x }
  | .function => { fr with function := x }
  | .exitKind => { fr with exitKind := x }
  | .returnReg => { fr with returnReg := x }
  | .callDepth => { fr with callDepth := x }

end JitFrame

/-! ## The operations -/

inductive Binary
  | iadd
  | isub
  | imul
  | sdiv
  | srem
  deriving DecidableEq

inductive IntCC
  | equal
  | signedLessThan
  | signedLessThanOrEqual
  | signedGreaterThanOrEqual
  deriving DecidableEq

/-- Division traps on a zero divisor, and when the quotient does not fit. -/
def Binary.eval : Binary → Int64 → Int64 → Option Int64
  | .iadd, x, y => some (x + y)
  | .isub, x, y => some (x - y)
  | .imul, x, y => some (x * y)
  | .sdiv, x, y => if y = 0 ∨ (x = Int64.minValue ∧ y = -1) then none else some (x / y)
  | .srem, x, y => if y = 0 then none else some (x % y)

def IntCC.holds (cc : IntCC) (x y : ℤ) : Bool :=
  match cc with
  | .equal => decide (x = y)
  | .signedLessThan => decide (x < y)
  | .signedLessThanOrEqual => decide (x ≤ y)
  | .signedGreaterThanOrEqual => decide (y ≤ x)

/-- Blocks that are jumped to: those of the region, and the two that traps and returns share. -/
inductive Label
  | region (startPc : UInt32)
  | trap
  | «return»
  deriving DecidableEq

/-- Code up to the next jump between labelled blocks. -/
inductive Code (V W : Type) : Type
  | iconst (n : Int64) (k : V → Code V W)
  | binary (op : Binary) (x y : V) (k : V → Code V W)
  | icmp (cc : IntCC) (x y : V) (k : W → Code V W)
  | select (c : W) (x y : V) (k : V → Code V W)
  | load (slot : W) (k : V → Code V W)
  | store (slot : W) (x : V) (k : Code V W)
  | iconst32 (n : UInt32) (k : W → Code V W)
  | iadd32 (x y : W) (k : W → Code V W)
  | isub32 (x y : W) (k : W → Code V W)
  | icmp32 (cc : IntCC) (x y : W) (k : W → Code V W)
  | loadField (f : Field) (k : W → Code V W)
  | storeField (f : Field) (x : W) (k : Code V W)
  | loadRecord (depth : W) (f : RecordField) (k : W → Code V W)
  | storeRecord (depth : W) (f : RecordField) (x : W) (k : Code V W)
  | brif (c : W) (ifTrue ifFalse : Code V W)
  | jump (target : Label)
  | ret
  /-- The block has not been filled. -/
  | unfilled

/-! ## Running code -/

/-- How a run of code ends. -/
inductive Run
  | jump (target : Label) (fr : JitFrame)
  | returned (fr : JitFrame)
  | outOfBounds
  /-- The hardware traps. -/
  | fault
  | unfilled
  deriving DecidableEq

def ofBool (b : Bool) : UInt32 := if b then 1 else 0

namespace Code

@[simp] def run : Code Int64 UInt32 → JitFrame → Run
  | .iconst n k, fr => (k n).run fr
  | .binary op x y k, fr =>
    match op.eval x y with
    | some z => (k z).run fr
    | none => .fault
  | .icmp cc x y k, fr => (k (ofBool (cc.holds x.toInt y.toInt))).run fr
  | .select c x y k, fr => (k (if c = 0 then y else x)).run fr
  | .load slot k, fr =>
    match fr.slots[slot.toNat]? with
    | some x => (k x).run fr
    | none => .outOfBounds
  | .store slot x k, fr =>
    if slot.toNat < fr.slots.length then
      k.run { fr with slots := fr.slots.set slot.toNat x }
    else .outOfBounds
  | .iconst32 n k, fr => (k n).run fr
  | .iadd32 x y k, fr => (k (x + y)).run fr
  | .isub32 x y k, fr => (k (x - y)).run fr
  | .icmp32 cc x y k, fr => (k (ofBool (cc.holds x.toInt32.toInt y.toInt32.toInt))).run fr
  | .loadField f k, fr => (k (fr.get f)).run fr
  | .storeField f x k, fr => k.run (fr.set f x)
  | .loadRecord depth f k, fr =>
    match fr.callStack[depth.toNat]? with
    | some r => (k (r.get f)).run fr
    | none => .outOfBounds
  | .storeRecord depth f x k, fr =>
    match fr.callStack[depth.toNat]? with
    | some r => k.run { fr with callStack := fr.callStack.set depth.toNat (r.set f x) }
    | none => .outOfBounds
  | .brif c ifTrue ifFalse, fr => if c = 0 then ifFalse.run fr else ifTrue.run fr
  | .jump target, fr => .jump target fr
  | .ret, fr => .returned fr
  | .unfilled, _ => .unfilled

end Code

/-- The compiled code of a trace: the code of each of its labels. -/
def JitEntry : Type := Label → Option (Code Int64 UInt32)

/-- How a run of a trace ends. -/
inductive Exit
  | returned (fr : JitFrame)
  | outOfBounds
  | fault
  | unfilled
  | noSuchBlock
  | outOfFuel
  deriving DecidableEq

/-- Run from a label, through at most `fuel` blocks. -/
def JitEntry.run (entry : JitEntry) : ℕ → Label → JitFrame → Exit
  | 0, _, _ => .outOfFuel
  | fuel + 1, label, fr =>
    match entry label with
    | none => .noSuchBlock
    | some code =>
      match code.run fr with
      | .jump target fr => run entry fuel target fr
      | .returned fr => .returned fr
      | .outOfBounds => .outOfBounds
      | .fault => .fault
      | .unfilled => .unfilled

end Jit

end Byteflow
