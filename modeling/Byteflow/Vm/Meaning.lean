import Byteflow.Bytecode.Source
import Byteflow.Vm.Dialogue

/-!
# What programs mean

The behaviour of a `Module`, step by step, with no registers and no addresses: each function has a
list of values, one for each variable in scope, and what is left to do in it. A variable stays in
scope until the end of the body that bound it. `system` is a program that talks to the scheduler, as
`Vm.system` is a VM that does; in what a program asks for, register `0` stands for every register.
-/

namespace Byteflow

/-- A value that no quota charges for. -/
abbrev LightValue := { v : Value // v.bufferLen = 0 }

instance : Inhabited LightValue := ⟨.unit, rfl⟩

namespace Source

/-! ## Configurations -/

/-- What is left to do in a function. -/
inductive Task
  | stmt (s : Stmt)
  /-- Back to the head of a loop, where so many variables were in scope. -/
  | again (scope counter limit : ℕ) (body : List Stmt)

/-- A function that was entered. -/
structure Activation where
  tasks : List Task
  env : List Value

inductive Config
  | running (top : Activation) (callers : List Activation)
  | finished

def value (env : List Value) (x : ℕ) : Value := env.getD x .unit

/-- The activation of a function: parameters that get no argument are unit. -/
def Def.enter (d : Def) (args : List Value) : Activation where
  tasks := d.body.map .stmt
  env := args.take d.arity.toNat ++ List.replicate (d.arity.toNat - args.length) .unit

/-- The value that the innermost function waits for. -/
def Config.bind (v : Value) : Config → Config
  | running top callers => running { top with env := top.env ++ [v] } callers
  | finished => finished

/-! ## Statements -/

/-- What an effect asks the scheduler for. -/
def Effect.request (env : List Value) : Effect → Except Fault VmResult
  | yield => .ok .yield
  | sleep millis => do return .sleep (← Vm.sleepMillis (value env millis))
  | exit x => .ok (.complete (value env x))
  | selfCap => .ok (.selfPid 0)
  -- a byte of the instruction holds the rights of a child
  | spawnWithRights function rights => .ok (.spawn function [] 0 (.fromU8 rights.bits.toUInt8))
  | delegate src rights => do return .delegate 0 (← Vm.capOf (value env src)) rights none
  | send targetCap msg => do
    let cap ← Vm.capOf (value env targetCap)
    Vm.expectMessage (value env msg)
    return .send cap (value env msg)
  | receive => .ok (.receive 0 none none none)
  | receiveTimeout millis =>
    .ok (.receive 0 (some (Vm.timeoutMillis (value env millis))) none none)
  | receiveMatch tag => do
    return .receive 0 none (some (← Vm.tagFromValue (value env tag))) none
  | receiveMatchImm tag => .ok (.receive 0 none (some tag) none)
  | receiveMatchCorr tag requestId => do
    let tag ← Vm.tagFromValue (value env tag)
    return .receive 0 none (some tag) (some (← Vm.requestIdFromValue (value env requestId)))
  | receiveMatchCorrImm tag requestId => do
    return .receive 0 none (some tag) (some (← Vm.requestIdFromValue (value env requestId)))
  | ask targetCap msg => do
    let cap ← Vm.capOf (value env targetCap)
    Vm.expectMessage (value env msg)
    return .ask 0 cap (value env msg) none
  | askTimeout targetCap msg millis => do
    let cap ← Vm.capOf (value env targetCap)
    Vm.expectMessage (value env msg)
    return .ask 0 cap (value env msg) (some (Vm.timeoutMillis (value env millis)))
  | monitor targetCap => do return .monitor 0 (← Vm.capOf (value env targetCap))
  | link targetCap => do return .link 0 (← Vm.capOf (value env targetCap))

/-- The values in scope after a call that only computes. -/
def Stmt.compute (env : List Value) : Stmt → Except Fault (List Value)
  | loadI32 n => .ok (env ++ [.int n.toInt64])
  | loadInt n => .ok (env ++ [.int n])
  | set x imm => .ok (env.set x (.int imm.toInt64))
  | mov dst src => .ok (env.set dst (value env src))
  | binop op lhs rhs =>
    (Vm.numericBinop op.opcode (value env lhs) (value env rhs)).map (env ++ [·])
  | eqImm lhs imm => (Vm.numericBinop .eq (value env lhs) (.int imm.toInt64)).map (env ++ [·])
  | addImm x imm => (Vm.numericBinop .add (value env x) (.int imm.toInt64)).map (env.set x ·)
  | neg src => (Vm.negate (value env src)).map (env ++ [·])
  | _ => .ok env

/-! ## Steps -/

def fault (f : Fault) : Option VmResult × Config := (some (.trap f), .finished)

/-- Go on with these values in scope. -/
def conclude (rest : List Task) (callers : List Activation) :
    Except Fault (List Value) → Option VmResult × Config
  | .error f => fault f
  | .ok env => (none, .running ⟨rest, env⟩ callers)

/-- Into the body of a loop, or past it. -/
def choose (entered rest : List Task) (env : List Value) (callers : List Activation) :
    Except Fault Value → Option VmResult × Config
  | .error f => fault f
  | .ok v => (none, .running ⟨if v.isTruthy then entered else rest, env⟩ callers)

/-- Ask the scheduler. -/
def consult (rest : List Task) (env : List Value) (callers : List Activation) :
    Except Fault VmResult → Option VmResult × Config
  | .error f => fault f
  | .ok r => (some r, if r.final then .finished else .running ⟨rest, env⟩ callers)

/-- Return to the caller, which binds the value. -/
def leave (v : Value) : List Activation → Option VmResult × Config
  | [] => (some (.complete v), .finished)
  | caller :: callers => (none, Config.bind v (.running caller callers))

/-- One call of the innermost function. -/
def perform (defs : List Def) (s : Stmt) (rest : List Task) (env : List Value)
    (callers : List Activation) : Option VmResult × Config :=
  match s with
  | .whileLt counter limit body =>
    let entered := body.map .stmt ++ .again env.length counter limit body :: rest
    choose entered rest env callers
      (Vm.numericBinop .lt (value env counter) (value env limit))
  | .call function =>
    let depth := callers.length + 1
    if Vm.maxCallDepth ≤ depth then fault (.callStackOverflow depth)
    else match defs[function.toNat]? with
    | none => fault (.badFunction function defs.length)
    | some d => (none, .running (d.enter []) (⟨rest, env⟩ :: callers))
  | .return x => leave (value env x) callers
  | .trap code => fault (.explicit code)
  | .effect e => consult rest env callers (e.request env)
  | s => conclude rest callers (s.compute env)

def step (defs : List Def) : Config → Option VmResult × Config
  | .running ⟨.stmt s :: rest, env⟩ callers => perform defs s rest env callers
  | .running ⟨.again scope counter limit body :: rest, env⟩ callers =>
    (none, .running ⟨.stmt (.whileLt counter limit body) :: rest, env.take scope⟩ callers)
  -- nothing is left only after a call that ends the function
  | .running ⟨[], _⟩ callers => leave .unit callers
  | .finished => fault Vm.emptyStack

/-- A program with its scheduler. -/
def system (defs : List Def) : System Config VmResult VmResult LightValue where
  step := step defs
  label := id
  answer r v c :=
    if r.final then none else some (if r.dest.isSome then c.bind v.val else c)

end Source

/-- The VM with its scheduler, which answers light values. -/
abbrev Vm.lightSystem (host : ℕ → Host) : System Vm VmResult VmResult LightValue :=
  Vm.system Subtype.val host

end Byteflow
