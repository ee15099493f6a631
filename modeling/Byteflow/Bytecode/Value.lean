import Mathlib.Algebra.Order.Ring.Nat
import Mathlib.Data.List.Basic

/-!
# Values and Atomic Hops

The runtime value of the bytecode (`bytecode/value.rs`) and the envelope that mailboxes carry.
`Value.message` holds the fields of `Message` in line, so that `Value` is one inductive type;
`Message` is the record the source uses, and `Value.asMessage` and `Message.toValue` go between
the two.

A float is its bit pattern. Flow ids are natural numbers: the counter behind them never reuses
an id.
-/

namespace Byteflow

/-- Identifier of a flow; `0` is the host. -/
abbrev FlowId := ℕ

/-- The embedder's origin: never spawned, never finalized. -/
def FlowId.host : FlowId := 0

/-- Unpredictable capability token. -/
structure CapId where
  raw : BitVec 128
  deriving DecidableEq

/-- Placeholder used on hops without a reply address. -/
def CapId.none : CapId := ⟨0⟩

/-- Reserved tag of monitor `DOWN` hops. -/
def tagSysDown : UInt16 := 0xFF01

/-- Reserved tag of linked-exit notices. -/
def tagSysExit : UInt16 := 0xFF02

/-- A dynamically tagged runtime value. -/
inductive Value
  | unit
  | bool (b : Bool)
  | int (i : Int64)
  | float (bits : UInt64)
  | pid (id : FlowId)
  | message (sender : FlowId) (replyCap : CapId) (requestId : UInt64) (tag : UInt16)
      (payload : Value)
  | cap (id : CapId)
  | str (s : String)
  | bytes (b : List UInt8)
  deriving DecidableEq

/-- Envelope carried in mailboxes and registers (Atomic Hop). -/
structure Message where
  sender : FlowId
  replyCap : CapId
  requestId : UInt64
  tag : UInt16
  payload : Value
  deriving DecidableEq

namespace Message

/-- The message as a value. -/
def toValue (m : Message) : Value :=
  .message m.sender m.replyCap m.requestId m.tag m.payload

/-- An envelope whose `sender` and `reply_cap` are placeholders until it is authenticated. -/
def new (sender : FlowId) (requestId : UInt64) (tag : UInt16) (payload : Value) : Message :=
  ⟨sender, CapId.none, requestId, tag, payload⟩

/-- The monitor `DOWN` hop. -/
def down (monitor : UInt64) (targetFlow : FlowId) (reason : UInt64) : Message :=
  new targetFlow monitor tagSysDown (.int reason.toInt64)

/-- The hop an asker gets when the target of its `Ask` has exited. -/
def linkedExit (targetFlow : FlowId) (reason : UInt64) : Message :=
  new targetFlow 0 tagSysExit (.int reason.toInt64)

/-- Stamp the origin flow and attach a reply capability (scheduler only). -/
def authenticate (m : Message) (sender : FlowId) (replyCap : CapId) : Message :=
  { m with sender := sender, replyCap := replyCap }

end Message

/-- `size_of::<Value>()` on a 64-bit target: the 48 bytes of a `Message`, whose `u128` token is
16-aligned, after the discriminant. -/
def sizeOfValue : ℕ := 64

namespace Value

/-- The message a value is, if it is one. -/
def asMessage : Value → Option Message
  | .message sender replyCap requestId tag payload =>
    some ⟨sender, replyCap, requestId, tag, payload⟩
  | _ => none

/-- The token a value is, if it is one. -/
def asCap : Value → Option CapId
  | .cap id => some id
  | _ => none

def asInt : Value → Option Int64
  | .int i => some i
  | .bool b => some b.toInt64
  | _ => none

/-- Truthiness used by `Branch`. -/
def isTruthy : Value → Bool
  | .unit => false
  | .bool b => b
  | .int i => i ≠ 0
  | .str s => !s.isEmpty
  | .bytes b => !b.isEmpty
  | _ => true

def typeName : Value → String
  | .unit => "unit"
  | .bool _ => "bool"
  | .int _ => "int"
  | .float _ => "float"
  | .pid _ => "pid"
  | .message .. => "message"
  | .cap _ => "cap"
  | .str _ => "str"
  | .bytes _ => "bytes"

/-- `==`: floats compare as numbers, everything else by its contents. -/
def eq : Value → Value → Bool
  | .float x, .float y => Float.ofBits x == Float.ofBits y
  | .message s c r t p, .message s' c' r' t' p' => s = s' && c = c' && r = r' && t = t' && p.eq p'
  | v, w => v = w

/-- Heap bytes owned, transitively, by a value, excluding the enum itself. -/
def heapSize : Value → ℕ
  | .str s => s.utf8ByteSize
  | .bytes b => b.length
  | .message _ _ _ _ payload => sizeOfValue + payload.heapSize
  | _ => 0

/-- Bytes a value is charged for against a mailbox byte budget. -/
def memorySize (v : Value) : ℕ := sizeOfValue + v.heapSize

end Value

@[simp] theorem Message.asMessage_toValue (m : Message) : m.toValue.asMessage = some m := rfl

@[simp] theorem Message.authenticate_sender (m : Message) (s : FlowId) (c : CapId) :
    (m.authenticate s c).sender = s := rfl

/-- A hop seen as the value it carries. The mailbox code handles `Value`s; a proof that follows
one hop through a mailbox lets it carry a name as well. -/
class HopView (H : Type) where
  value : H → Value

instance : HopView Value := ⟨id⟩

/-- A hop with a name. -/
structure Hop where
  name : ℕ
  value : Value
  deriving DecidableEq

instance : HopView Hop := ⟨Hop.value⟩

end Byteflow
