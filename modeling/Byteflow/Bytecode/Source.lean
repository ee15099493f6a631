import Byteflow.Bytecode.Program

/-!
# Programs as their authors write them

The closures given to `Program::function` (`bytecode/program.rs`) make calls on the `Fn` and use the
registers that earlier calls returned. A `Stmt` is one such call: the variable `n` stands for the
`n`-th register in scope, the parameters first, and what the body of a loop binds is out of scope
after it. `Stmt.assemble` makes the call, and `Module.chunk` is the chunk of a whole program. A
`Def` and a `Module` carry the conditions under which the assembler does not run out of registers
or of code space.

Natives, strings, names and the counter of request ids are left out, and so are calls that pass
arguments: `Fn::call` and `Fn::spawn` take these from the fresh destination register on.
-/

namespace Byteflow

namespace Source

/-! ## Statements -/

/-- The methods that emit a binary operation. -/
inductive BinOp
  | add
  | sub
  | mul
  | div
  | modulo
  | eq
  | lt
  | le
  deriving DecidableEq

namespace BinOp

def opcode : BinOp → Opcode
  | add => .add
  | sub => .sub
  | mul => .mul
  | div => .div
  | modulo => .mod
  | eq => .eq
  | lt => .lt
  | le => .le

def call : BinOp → Reg → Reg → Assemble Reg
  | add => Fn.add
  | sub => Fn.sub
  | mul => Fn.mul
  | div => Fn.div
  | modulo => Fn.modulo
  | eq => Fn.eq
  | lt => Fn.lt
  | le => Fn.le

theorem call_eq (op : BinOp) : op.call = Fn.binop op.opcode := by cases op <;> rfl

end BinOp

/-- The methods whose instruction hands the flow to the scheduler. -/
inductive Effect
  | yield
  | sleep (millis : ℕ)
  | exit (reg : ℕ)
  | selfCap
  | spawnWithRights (function : UInt32) (rights : CapRights)
  | delegate (src : ℕ) (rights : CapRights)
  | send (targetCap msg : ℕ)
  | receive
  | receiveTimeout (millis : ℕ)
  | receiveMatch (tag : ℕ)
  | receiveMatchImm (tag : UInt16)
  | receiveMatchCorr (tag requestId : ℕ)
  | receiveMatchCorrImm (tag : UInt16) (requestId : ℕ)
  | ask (targetCap msg : ℕ)
  | askTimeout (targetCap msg millis : ℕ)
  | monitor (targetCap : ℕ)
  | link (targetCap : ℕ)
  deriving DecidableEq

namespace Effect

/-- Whether the method returns a register. -/
def binds : Effect → Bool
  | yield | sleep _ | exit _ | send .. => false
  | _ => true

def vars : Effect → List ℕ
  | sleep millis => [millis]
  | exit reg => [reg]
  | delegate src _ => [src]
  | send targetCap msg => [targetCap, msg]
  | receiveTimeout millis => [millis]
  | receiveMatch tag => [tag]
  | receiveMatchCorr tag requestId => [tag, requestId]
  | receiveMatchCorrImm _ requestId => [requestId]
  | ask targetCap msg => [targetCap, msg]
  | askTimeout targetCap msg millis => [targetCap, msg, millis]
  | monitor targetCap => [targetCap]
  | link targetCap => [targetCap]
  | _ => []

/-- The call, with a register for each variable. -/
def call (reg : ℕ → Reg) : Effect → Assemble (Option Reg)
  | yield => do Fn.yield; return none
  | sleep millis => do Fn.sleep (reg millis); return none
  | exit x => do Fn.exit (reg x); return none
  | selfCap => some <$> Fn.selfCap
  | spawnWithRights function rights => some <$> Fn.spawnWithRights function 0 rights
  | delegate src rights => some <$> Fn.delegate (reg src) rights
  | send targetCap msg => do Fn.send (reg targetCap) (reg msg); return none
  | receive => some <$> Fn.receive
  | receiveTimeout millis => some <$> Fn.receiveTimeout (reg millis)
  | receiveMatch tag => some <$> Fn.receiveMatch (reg tag)
  | receiveMatchImm tag => some <$> Fn.receiveMatchImm tag
  | receiveMatchCorr tag requestId => some <$> Fn.receiveMatchCorr (reg tag) (reg requestId)
  | receiveMatchCorrImm tag requestId => some <$> Fn.receiveMatchCorrImm tag (reg requestId)
  | ask targetCap msg => some <$> Fn.ask (reg targetCap) (reg msg)
  | askTimeout targetCap msg millis =>
    some <$> Fn.askTimeout (reg targetCap) (reg msg) (reg millis)
  | monitor targetCap => some <$> Fn.monitor (reg targetCap)
  | link targetCap => some <$> Fn.link (reg targetCap)

end Effect

/-- A call on the `Fn`. -/
inductive Stmt
  | loadI32 (n : Int32)
  | loadInt (n : Int64)
  | set (reg : ℕ) (imm : Int32)
  | mov (dst src : ℕ)
  | binop (op : BinOp) (lhs rhs : ℕ)
  | eqImm (lhs : ℕ) (imm : Int32)
  | addImm (dst : ℕ) (imm : Int32)
  | neg (src : ℕ)
  | whileLt (counter limit : ℕ) (body : List Stmt)
  | call (function : UInt32)
  | return (value : ℕ)
  | trap (code : Int32)
  | effect (e : Effect)

namespace Stmt

/-- Whether the call returns a register. -/
def binds : Stmt → Bool
  | loadI32 _ | loadInt _ | binop .. | eqImm .. | neg _ | call _ => true
  | effect e => e.binds
  | _ => false

/-- Nothing runs after the call. -/
def Ends : Stmt → Bool
  | .return _ | trap _ | effect (.exit _) => true
  | _ => false

/-- The variables that the call itself names. -/
def vars : Stmt → List ℕ
  | set reg _ => [reg]
  | mov dst src => [dst, src]
  | binop _ lhs rhs => [lhs, rhs]
  | eqImm lhs _ => [lhs]
  | addImm dst _ => [dst]
  | neg src => [src]
  | whileLt counter limit _ => [counter, limit]
  | .return value => [value]
  | effect e => e.vars
  | _ => []

mutual

/-- The number of instructions. -/
def size : Stmt → ℕ
  | eqImm .. | addImm .. => 2
  | whileLt _ _ body => sizeAll body + 3
  | _ => 1

def sizeAll : List Stmt → ℕ
  | [] => 0
  | s :: ss => s.size + sizeAll ss

end

mutual

/-- What the call asks for. -/
def demand : Stmt → Demand → Demand
  | eqImm .., d => d.temp.grow 1
  | addImm .., d => d.temp
  | whileLt _ _ body, d => demandAll body (d.grow 1)
  | s, d => if s.binds then d.grow 1 else d

def demandAll : List Stmt → Demand → Demand
  | [], d => d
  | s :: ss, d => demandAll ss (s.demand d)

end

mutual

/-- The variables are in scope, of which there are so many. -/
def inScope (n : ℕ) : Stmt → Bool
  | whileLt counter limit body => counter < n && limit < n && inScopeAll n body
  | s => s.vars.all (· < n)

def inScopeAll (n : ℕ) : List Stmt → Bool
  | [] => true
  | s :: ss => s.inScope n && inScopeAll (n + s.binds.toNat) ss

end

mutual

/-- The functions that are called. -/
def targets : Stmt → List UInt32
  | call function => [function]
  | effect (.spawnWithRights function _) => [function]
  | whileLt _ _ body => targetsAll body
  | _ => []

def targetsAll : List Stmt → List UInt32
  | [] => []
  | s :: ss => s.targets ++ targetsAll ss

end

/-- The register of a variable. -/
def reg (regs : List Reg) (x : ℕ) : Reg := regs.getD x ⟨0⟩

/-- The scope with the register that a call returned. -/
def extend (regs : List Reg) (r : Assemble Reg) : Assemble (List Reg) := do return regs ++ [← r]

mutual

/-- Make the call. The result is the scope after it. -/
def assemble (regs : List Reg) : Stmt → Assemble (List Reg)
  | loadI32 n => extend regs (Fn.loadI32 n)
  | loadInt n => extend regs (Fn.loadInt n)
  | set x imm => do Fn.set (reg regs x) imm; return regs
  | mov dst src => do Fn.mov (reg regs dst) (reg regs src); return regs
  | binop op lhs rhs => extend regs (op.call (reg regs lhs) (reg regs rhs))
  | eqImm lhs imm => extend regs (Fn.eqImm (reg regs lhs) imm)
  | addImm dst imm => do Fn.addImm (reg regs dst) imm; return regs
  | neg src => extend regs (Fn.neg (reg regs src))
  | whileLt counter limit body => do
    Fn.whileLt (reg regs counter) (reg regs limit) (discard (assembleAll regs body))
    return regs
  | call function => extend regs (Fn.call function 0)
  | .return value => do Fn.return (reg regs value); return regs
  | trap code => do Fn.trap code; return regs
  | effect e => do return regs ++ (← e.call (reg regs)).toList

def assembleAll (regs : List Reg) : List Stmt → Assemble (List Reg)
  | [] => return regs
  | s :: ss => do assembleAll (← s.assemble regs) ss

end

end Stmt

/-! ## Programs -/

/-- The registers of the parameters. -/
def params (arity : UInt8) : List Reg := (List.range arity.toNat).map fun i => ⟨UInt8.ofNat i⟩

/-- One bytecode module in the making. -/
structure Program where
  inner : ChunkBuilder

namespace Program

def new (name : String) : Program := ⟨.new name⟩

/-- Run `body` on the open function. -/
def close (f : Fn) (body : Assemble Unit) : UInt32 × Program := (f.function, ⟨(body.run f).2.b⟩)

def function (p : Program) (name : String) (arity : UInt8) (body : Assemble Unit) :
    UInt32 × Program :=
  close (Fn.open p.inner name arity) body

def functionRaw (p : Program) (name : String) (arity numRegisters : UInt8) (body : Assemble Unit) :
    UInt32 × Program :=
  close (Fn.openWith p.inner name arity numRegisters) body

def functionIndex (p : Program) (name : String) : Option UInt32 := p.inner.functionIndex name

def build (p : Program) : Chunk := p.inner.finish

end Program

/-- A function, which names what is in scope, ends by itself, and fits into a frame. -/
structure Def where
  name : String
  arity : UInt8
  body : List Stmt
  inScope : Stmt.inScopeAll arity.toNat body = true
  ends : body.getLast?.any Stmt.Ends = true
  fits : (Stmt.demandAll body ⟨(max arity 4).toNat, false⟩).width ≤ 255

/-- A call of `Program::function`. -/
def Def.assemble (p : Program) (d : Def) : Program :=
  (p.function d.name d.arity (discard (Stmt.assembleAll (params d.arity) d.body))).2

/-- A program whose calls name its functions, of fewer than `2 ^ 31` instructions. -/
structure Module where
  name : String
  defs : List Def
  main : defs ≠ []
  calls : ∀ d ∈ defs, ∀ function ∈ Stmt.targetsAll d.body, function.toNat < defs.length
  small : (defs.map fun d => Stmt.sizeAll d.body).sum < 2 ^ 31

def Module.program (m : Module) : Program := m.defs.foldl Def.assemble (.new m.name)

def Module.chunk (m : Module) : Chunk := m.program.build

end Source

end Byteflow
