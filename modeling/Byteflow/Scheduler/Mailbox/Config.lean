import Byteflow.Bytecode.Value

/-!
# The contract of a mailbox

Capacity, byte budget and overflow policy (`mailbox/capacity.rs`, `mailbox/policy.rs`), and the
selective wait criterion of a parked flow (`WaitFilter` in `mailbox/mod.rs`).
-/

namespace Byteflow

/-- Largest `usize` of a 64-bit target. -/
def usizeMax : ℕ := 2 ^ 64 - 1

/-- `usize::saturating_add`. -/
def satAdd (a b : ℕ) : ℕ := min (a + b) usizeMax

/-! ## Capacity, budget and policy -/

/-- Logical hop bound of one inbox. -/
structure MailboxCapacity where
  get : ℕ
  min_le : 1 ≤ get
  le_max : get ≤ 2 ^ 20

/-- `MailboxCapacity::new`: `some` iff the value is in range. -/
def MailboxCapacity.new (value : ℕ) : Option MailboxCapacity :=
  if h : 1 ≤ value ∧ value ≤ 2 ^ 20 then some ⟨value, h.1, h.2⟩ else none

/-- Byte budget of one inbox. -/
structure MailboxBytes where
  get : ℕ
  min_le : 2 ^ 10 ≤ get
  le_max : get ≤ 2 ^ 30

/-- `MailboxBytes::new`: `some` iff the value is in range. -/
def MailboxBytes.new (value : ℕ) : Option MailboxBytes :=
  if h : 2 ^ 10 ≤ value ∧ value ≤ 2 ^ 30 then some ⟨value, h.1, h.2⟩ else none

/-- What happens when a hop would exceed the logical capacity. -/
inductive OverflowPolicy
  | reject
  | dropNewest
  | dropOldest
  deriving DecidableEq

/-- Memory and overflow contract of every mailbox a runtime spawns. -/
structure MailboxConfig where
  capacity : MailboxCapacity
  bytes : MailboxBytes
  overflow : OverflowPolicy

/-- 256 hops, 4 MiB, reject on overflow. -/
def MailboxConfig.default : MailboxConfig where
  capacity := ⟨256, by decide, by decide⟩
  bytes := ⟨2 ^ 22, by decide, by decide⟩
  overflow := .reject

/-- The smallest inbox: one hop, one kibibyte. -/
def MailboxConfig.oneHop (overflow : OverflowPolicy) : MailboxConfig where
  capacity := ⟨1, by decide, by decide⟩
  bytes := ⟨2 ^ 10, by decide, by decide⟩
  overflow := overflow

/-! ## Wait filters -/

/-- Selective wait criterion installed while a flow is parked in its mailbox. -/
inductive WaitFilter
  | any
  | tag (expectedTag : UInt16)
  | correlation (expectRequestId : UInt64) (expectSender : Option FlowId)
  | taggedCorrelation (tag : UInt16) (expectRequestId : UInt64)
  deriving DecidableEq

namespace WaitFilter

/-- Does a value satisfy the criterion? -/
def «matches» : WaitFilter → Value → Bool
  | .any, _ => true
  | .tag expectedTag, v =>
    match v.asMessage with
    | some m => m.tag == expectedTag
    | none => false
  | .correlation expectRequestId expectSender, v =>
    match v.asMessage with
    | some m =>
      let idOk := m.requestId == expectRequestId
      let senderOk := match expectSender with
        | some s => m.sender == s
        | none => true
      idOk && senderOk
    | none => false
  | .taggedCorrelation expectedTag expectRequestId, v =>
    match v.asMessage with
    | some m => m.tag == expectedTag && m.requestId == expectRequestId
    | none => false

/-- The criterion on a hop. -/
def accepts {H : Type} [HopView H] (f : WaitFilter) (h : H) : Bool := f.matches (HopView.value h)

@[simp] theorem accepts_any {H : Type} [HopView H] (h : H) : any.accepts h = true := rfl

/-- The filter of an `Ask` to `target`. -/
def ask (requestId : UInt64) (target : FlowId) : WaitFilter := .correlation requestId (some target)

end WaitFilter

end Byteflow
