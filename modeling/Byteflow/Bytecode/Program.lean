import Byteflow.Bytecode.Builder

/-!
# The function builder

An `Fn` (`bytecode/program.rs`) emits the code of one function and hands out its registers: the next
register is a byte, which stays at `255` when it gets there. `Demand` counts the registers that
calls ask for without that limit, and the registers are distinct and inside the frame exactly if no
more than `255` are asked for (`unaliased_iff`).
-/

namespace Byteflow

/-- A virtual register of the current function. -/
structure Reg where
  index : UInt8
  deriving DecidableEq

/-- `saturating_add`. -/
def saturatingAdd (x y : UInt8) : UInt8 := UInt8.ofNat (min (x.toNat + y.toNat) 255)

/-- Contiguous registers. -/
structure RegWindow where
  base : Reg
  len : UInt8
  deriving DecidableEq

/-- The register at an offset; a debug build checks that it is inside. -/
def RegWindow.at (w : RegWindow) (i : UInt8) : Reg := ⟨saturatingAdd w.base.index i⟩

/-- The emission of one function. -/
structure Fn where
  b : ChunkBuilder
  function : UInt32
  nextReg : UInt8
  scratch : Option Reg
  /-- The registers handed out so far, in order. The source does not list them. -/
  handed : List Reg

/-- Code that emits instructions. -/
abbrev Assemble := StateM Fn

namespace Fn

/-- A call on the assembler behind it. -/
def emit (f : ChunkBuilder → ChunkBuilder) : Assemble Unit := modify fun s => { s with b := f s.b }

def openWith (b : ChunkBuilder) (name : String) (arity numRegisters : UInt8) : Fn :=
  let (function, b) := b.beginFunction name arity numRegisters
  ⟨b, function, numRegisters, none, []⟩

def «open» (b : ChunkBuilder) (name : String) (arity : UInt8) : Fn :=
  openWith b name arity (max arity 4)

/-! ## Registers -/

/-- Allocate a fresh register. -/
def «local» : Assemble Reg := do
  let f ← get
  let nextReg := saturatingAdd f.nextReg 1
  set { f with
    b := f.b.setNumRegisters f.function nextReg
    nextReg := nextReg
    handed := f.handed ++ [Reg.mk f.nextReg] }
  return ⟨f.nextReg⟩

/-- An explicit register, which need not be in the frame. -/
def reg (index : UInt8) : Assemble Reg := return ⟨index⟩

/-- Make the register file at least `count` wide. -/
def reserve (count : UInt8) : Assemble Unit := do
  let f ← get
  if f.nextReg < count then
    set { f with
      b := f.b.setNumRegisters f.function count
      nextReg := count
      handed := f.handed ++
        (List.range' f.nextReg.toNat (count.toNat - f.nextReg.toNat)).map
          fun i => Reg.mk (UInt8.ofNat i) }

def locals : ℕ → Assemble Unit
  | 0 => return ()
  | count + 1 => do
    let _ ← «local»
    locals count

/-- Allocate contiguous registers. -/
def window (count : UInt8) : Assemble RegWindow := do
  let base := (← get).nextReg
  locals count.toNat
  return ⟨⟨base⟩, count⟩

/-- The scratch register, which is allocated once. -/
def temp : Assemble Reg := do
  match (← get).scratch with
  | some scratch => return scratch
  | none =>
    let scratch ← «local»
    modify fun f => { f with scratch := some scratch }
    return scratch

/-- A register for the result of what is emitted. -/
def fresh (f : ChunkBuilder → UInt8 → ChunkBuilder) : Assemble Reg := do
  let dst ← «local»
  emit fun b => f b dst.index
  return dst

/-! ## Data -/

def loadI32 (n : Int32) : Assemble Reg := fresh fun b reg => b.emitLoadImm reg n

def loadConst (v : Value) : Assemble Reg := do
  let konst := ((← get).b.const v).1
  emit fun b => (b.const v).2
  fresh fun b reg => b.emitLoadConst reg konst

def loadInt (n : Int64) : Assemble Reg := loadConst (.int n)

def loadStr (s : String) : Assemble Reg := loadConst (.str s)

def set (reg : Reg) (imm : Int32) : Assemble Unit := emit fun b => b.emitLoadImm reg.index imm

def mov (dst src : Reg) : Assemble Unit := emit fun b => b.emitMove dst.index src.index

def binop (op : Opcode) (lhs rhs : Reg) : Assemble Reg :=
  fresh fun b dst => b.emitBinop op dst lhs.index rhs.index

def binopImm (op : Opcode) (lhs : Reg) (imm : Int32) : Assemble Reg := do
  let rhs ← temp
  emit fun b => b.emitLoadImm rhs.index imm
  binop op lhs rhs

def add : Reg → Reg → Assemble Reg := binop .add

/-- `dst += imm` in place. -/
def addImm (dst : Reg) (imm : Int32) : Assemble Unit := do
  let tmp ← temp
  emit fun b => b.emitLoadImm tmp.index imm
  emit fun b => b.emitBinop .add dst.index dst.index tmp.index

def sub : Reg → Reg → Assemble Reg := binop .sub

def mul : Reg → Reg → Assemble Reg := binop .mul

def div : Reg → Reg → Assemble Reg := binop .div

def modulo : Reg → Reg → Assemble Reg := binop .mod

def neg (src : Reg) : Assemble Reg := fresh fun b dst => b.emitNeg dst src.index

def eq : Reg → Reg → Assemble Reg := binop .eq

def eqImm : Reg → Int32 → Assemble Reg := binopImm .eq

def lt : Reg → Reg → Assemble Reg := binop .lt

def le : Reg → Reg → Assemble Reg := binop .le

/-! ## Control -/

def label : Assemble Label := do
  let (label, b) := (← get).b.newLabel
  emit fun _ => b
  return label

def bind (label : Label) : Assemble Unit := emit fun b => b.bindLabel label

def jump (label : Label) : Assemble Unit := emit fun b => b.emitJump label

def branchIfFalsy (cond : Reg) (target : Label) : Assemble Unit :=
  emit fun b => b.emitBranch cond.index target

/-- While `counter < limit`. -/
def whileLt (counter limit : Reg) (body : Assemble Unit) : Assemble Unit := do
  let head ← label
  let done ← label
  let cond ← «local»
  bind head
  emit fun b => b.emitBinop .lt cond.index counter.index limit.index
  branchIfFalsy cond done
  body
  jump head
  bind done

def «return» (value : Reg) : Assemble Unit := emit fun b => b.emitReturn value.index

def call (function : UInt32) (argc : UInt8) : Assemble Reg :=
  fresh fun b dst => b.emitCall dst function argc

def halt : Assemble Unit := emit fun b => b.emitHalt

def yield : Assemble Unit := emit fun b => b.emitYield

def sleep (millis : Reg) : Assemble Unit := emit fun b => b.emitSleep millis.index

def exit (reg : Reg) : Assemble Unit := emit fun b => b.emitExit reg.index

def trap (code : Int32) : Assemble Unit := emit fun b => b.emitTrap code

/-! ## Flows -/

def selfCap : Assemble Reg := fresh fun b cap => b.emitSelfPid cap

def selfAddress : Assemble Reg := selfCap

def spawnWithRights (function : UInt32) (argc : UInt8) (rights : CapRights) : Assemble Reg :=
  fresh fun b cap => b.emitSpawnWithRights cap function argc rights

def spawn (function : UInt32) (argc : UInt8) : Assemble Reg :=
  spawnWithRights function argc CapRights.flow

def spawnConfined (function : UInt32) (argc : UInt8) : Assemble Reg :=
  spawnWithRights function argc CapRights.none

/-- Spawn into an explicit register. -/
def spawnAt (dst : Reg) (function : UInt32) (argc : UInt8) : Assemble Unit :=
  emit fun b => b.emitSpawn dst.index function argc

def delegate (src : Reg) (rights : CapRights) : Assemble Reg :=
  fresh fun b dst => b.emitDelegate dst src.index rights

def send (targetCap msg : Reg) : Assemble Unit := emit fun b => b.emitSend targetCap.index msg.index

def receive : Assemble Reg := fresh fun b msg => b.emitReceive msg

def receiveTimeout (millis : Reg) : Assemble Reg :=
  fresh fun b msg => b.emitReceiveTimeout msg millis.index

def receiveMatch (tag : Reg) : Assemble Reg := fresh fun b msg => b.emitReceiveMatch msg tag.index

def receiveMatchImm (tag : UInt16) : Assemble Reg :=
  fresh fun b msg => b.emitReceiveMatchImm msg tag

def freshRequestId : Assemble Reg := fresh fun b dst => b.emitFreshRequestId dst

def receiveMatchCorr (tag requestId : Reg) : Assemble Reg :=
  fresh fun b msg => b.emitReceiveMatchCorr msg tag.index requestId.index

def receiveMatchCorrImm (tag : UInt16) (requestId : Reg) : Assemble Reg :=
  fresh fun b msg => b.emitReceiveMatchCorrImm msg tag requestId.index

def ask (targetCap msg : Reg) : Assemble Reg :=
  fresh fun b reply => b.emitAsk reply targetCap.index msg.index

def askTimeout (targetCap msg millis : Reg) : Assemble Reg :=
  fresh fun b reply => b.emitAskTimeout reply targetCap.index msg.index millis.index

def monitor (targetCap : Reg) : Assemble Reg := fresh fun b dst => b.emitMonitor dst targetCap.index

def demonitor (monitor : Reg) : Assemble Unit := emit fun b => b.emitDemonitor monitor.index

def link (targetCap : Reg) : Assemble Reg := fresh fun b dst => b.emitLink dst targetCap.index

def unlink (link : Reg) : Assemble Unit := emit fun b => b.emitUnlink link.index

def registerName (name : Reg) : Assemble Unit := emit fun b => b.emitRegisterName name.index

def whereis (name : Reg) : Assemble Reg := fresh fun b dst => b.emitWhereis dst name.index

/-! ## Natives and hops -/

/-- A one-argument native, on a copy of the argument. -/
def native1From (src : Reg) (native : UInt32) : Assemble Reg :=
  fresh fun b dst => b.emitNative1From dst src.index native

def native1On (src : Reg) (native : UInt32) : Assemble Unit := do
  let _ ← native1From src native

def nativeN (base : Reg) (native : UInt32) (argc : UInt8) : Assemble Unit :=
  emit fun b => b.emitNativeN base.index native argc

def callNative (base : Reg) (native : UInt32) (argc : UInt8) : Assemble Unit :=
  nativeN base native argc

def callNative0 (native : UInt32) : Assemble Reg := fresh fun b dst => b.emitCallNative dst native 0

def makeMsg (nativeIndex : UInt32) (requestId : Reg) (tag : Int32) (payload : Reg) :
    Assemble Reg := do
  let w ← window 3
  mov (w.at 0) requestId
  set (w.at 1) tag
  mov (w.at 2) payload
  nativeN w.base nativeIndex 3
  return w.base

def makeMsgLegacySender (nativeIndex : UInt32) (sender requestId : Reg) (tag : Int32)
    (payload : Reg) : Assemble Reg := do
  let w ← window 4
  mov (w.at 0) sender
  mov (w.at 1) requestId
  set (w.at 2) tag
  mov (w.at 3) payload
  nativeN w.base nativeIndex 4
  return w.base

/-- The message native is the third of the standard table. -/
def hop (requestId : Reg) (tag : Int32) (payload : Reg) : Assemble Reg :=
  makeMsg 2 requestId tag payload

def hopFresh (tag : Int32) (payload : Reg) : Assemble Reg := do
  let reqId ← freshRequestId
  hop reqId tag payload

def hopSender (msg : Reg) : Assemble Reg := native1From msg 3

def hopRequestId (msg : Reg) : Assemble Reg := native1From msg 4

def hopTag (msg : Reg) : Assemble Reg := native1From msg 5

def hopPayload (msg : Reg) : Assemble Reg := native1From msg 6

def hopReplyCap (msg : Reg) : Assemble Reg := native1From msg 7

/-- A reply hop with the request id of the request. -/
def replyTo (req : Reg) (tag : Int32) (payload : Reg) : Assemble Reg := do
  let reqId ← hopRequestId req
  hop reqId tag payload

def sendReply (req : Reg) (tag : Int32) (payload : Reg) : Assemble Unit := do
  let replyCap ← hopReplyCap req
  let reply ← replyTo req tag payload
  send replyCap reply

/-! ## Sequences of calls -/

/-- A call on an `Fn`. The body of a loop makes calls of its own. -/
inductive Call
  | local
  | reg (index : UInt8)
  | reserve (count : UInt8)
  | window (count : UInt8)
  | loadI32 (n : Int32)
  | loadInt (n : Int64)
  | loadStr (s : String)
  | set (reg : Reg) (imm : Int32)
  | mov (dst src : Reg)
  | add (lhs rhs : Reg)
  | addImm (dst : Reg) (imm : Int32)
  | sub (lhs rhs : Reg)
  | mul (lhs rhs : Reg)
  | div (lhs rhs : Reg)
  | modulo (lhs rhs : Reg)
  | neg (src : Reg)
  | eq (lhs rhs : Reg)
  | eqImm (lhs : Reg) (imm : Int32)
  | lt (lhs rhs : Reg)
  | le (lhs rhs : Reg)
  | whileLt (counter limit : Reg) (body : List Call)
  | label
  | bind (label : Label)
  | jump (label : Label)
  | branchIfFalsy (cond : Reg) (target : Label)
  | return (value : Reg)
  | call (function : UInt32) (argc : UInt8)
  | halt
  | yield
  | sleep (millis : Reg)
  | exit (reg : Reg)
  | trap (code : Int32)
  | selfCap
  | selfAddress
  | spawn (function : UInt32) (argc : UInt8)
  | spawnWithRights (function : UInt32) (argc : UInt8) (rights : CapRights)
  | spawnConfined (function : UInt32) (argc : UInt8)
  | spawnAt (dst : Reg) (function : UInt32) (argc : UInt8)
  | delegate (src : Reg) (rights : CapRights)
  | send (targetCap msg : Reg)
  | receive
  | receiveTimeout (millis : Reg)
  | receiveMatch (tag : Reg)
  | receiveMatchImm (tag : UInt16)
  | freshRequestId
  | receiveMatchCorr (tag requestId : Reg)
  | receiveMatchCorrImm (tag : UInt16) (requestId : Reg)
  | ask (targetCap msg : Reg)
  | askTimeout (targetCap msg millis : Reg)
  | monitor (targetCap : Reg)
  | demonitor (monitor : Reg)
  | link (targetCap : Reg)
  | unlink (link : Reg)
  | registerName (name : Reg)
  | whereis (name : Reg)
  | native1From (src : Reg) (native : UInt32)
  | native1On (src : Reg) (native : UInt32)
  | nativeN (base : Reg) (native : UInt32) (argc : UInt8)
  | callNative (base : Reg) (native : UInt32) (argc : UInt8)
  | callNative0 (native : UInt32)
  | makeMsg (nativeIndex : UInt32) (requestId : Reg) (tag : Int32) (payload : Reg)
  | makeMsgLegacySender (nativeIndex : UInt32) (sender requestId : Reg) (tag : Int32)
      (payload : Reg)
  | hop (requestId : Reg) (tag : Int32) (payload : Reg)
  | hopFresh (tag : Int32) (payload : Reg)
  | hopSender (msg : Reg)
  | hopRequestId (msg : Reg)
  | hopTag (msg : Reg)
  | hopPayload (msg : Reg)
  | hopReplyCap (msg : Reg)
  | replyTo (req : Reg) (tag : Int32) (payload : Reg)
  | sendReply (req : Reg) (tag : Int32) (payload : Reg)

mutual

def perform : Call → Assemble Unit
  | .local => discard «local»
  | .reg index => discard (reg index)
  | .reserve count => reserve count
  | .window count => discard (window count)
  | .loadI32 n => discard (loadI32 n)
  | .loadInt n => discard (loadInt n)
  | .loadStr s => discard (loadStr s)
  | .set reg imm => set reg imm
  | .mov dst src => mov dst src
  | .add lhs rhs => discard (add lhs rhs)
  | .addImm dst imm => addImm dst imm
  | .sub lhs rhs => discard (sub lhs rhs)
  | .mul lhs rhs => discard (mul lhs rhs)
  | .div lhs rhs => discard (div lhs rhs)
  | .modulo lhs rhs => discard (modulo lhs rhs)
  | .neg src => discard (neg src)
  | .eq lhs rhs => discard (eq lhs rhs)
  | .eqImm lhs imm => discard (eqImm lhs imm)
  | .lt lhs rhs => discard (lt lhs rhs)
  | .le lhs rhs => discard (le lhs rhs)
  | .whileLt counter limit body => whileLt counter limit (performAll body)
  | .label => discard label
  | .bind label => bind label
  | .jump label => jump label
  | .branchIfFalsy cond target => branchIfFalsy cond target
  | .return value => «return» value
  | .call function argc => discard (call function argc)
  | .halt => halt
  | .yield => yield
  | .sleep millis => sleep millis
  | .exit reg => exit reg
  | .trap code => trap code
  | .selfCap => discard selfCap
  | .selfAddress => discard selfAddress
  | .spawn function argc => discard (spawn function argc)
  | .spawnWithRights function argc rights => discard (spawnWithRights function argc rights)
  | .spawnConfined function argc => discard (spawnConfined function argc)
  | .spawnAt dst function argc => spawnAt dst function argc
  | .delegate src rights => discard (delegate src rights)
  | .send targetCap msg => send targetCap msg
  | .receive => discard receive
  | .receiveTimeout millis => discard (receiveTimeout millis)
  | .receiveMatch tag => discard (receiveMatch tag)
  | .receiveMatchImm tag => discard (receiveMatchImm tag)
  | .freshRequestId => discard freshRequestId
  | .receiveMatchCorr tag requestId => discard (receiveMatchCorr tag requestId)
  | .receiveMatchCorrImm tag requestId => discard (receiveMatchCorrImm tag requestId)
  | .ask targetCap msg => discard (ask targetCap msg)
  | .askTimeout targetCap msg millis => discard (askTimeout targetCap msg millis)
  | .monitor targetCap => discard (monitor targetCap)
  | .demonitor monitor => demonitor monitor
  | .link targetCap => discard (link targetCap)
  | .unlink link => unlink link
  | .registerName name => registerName name
  | .whereis name => discard (whereis name)
  | .native1From src native => discard (native1From src native)
  | .native1On src native => native1On src native
  | .nativeN base native argc => nativeN base native argc
  | .callNative base native argc => callNative base native argc
  | .callNative0 native => discard (callNative0 native)
  | .makeMsg nativeIndex requestId tag payload =>
    discard (makeMsg nativeIndex requestId tag payload)
  | .makeMsgLegacySender nativeIndex sender requestId tag payload =>
    discard (makeMsgLegacySender nativeIndex sender requestId tag payload)
  | .hop requestId tag payload => discard (hop requestId tag payload)
  | .hopFresh tag payload => discard (hopFresh tag payload)
  | .hopSender msg => discard (hopSender msg)
  | .hopRequestId msg => discard (hopRequestId msg)
  | .hopTag msg => discard (hopTag msg)
  | .hopPayload msg => discard (hopPayload msg)
  | .hopReplyCap msg => discard (hopReplyCap msg)
  | .replyTo req tag payload => discard (replyTo req tag payload)
  | .sendReply req tag payload => sendReply req tag payload

def performAll : List Call → Assemble Unit
  | [] => return ()
  | c :: cs => do
    perform c
    performAll cs

end

/-- The register file that the declared function has. -/
def numRegisters (f : Fn) : UInt8 :=
  (f.b.functions[f.function.toNat]?.map (·.numRegisters)).getD 0

/-- The function after a sequence of calls. -/
def after (f : Fn) (calls : List Call) : Fn := ((performAll calls).run f).2

/-- No register was handed out twice, and all are in the frame. -/
def Unaliased (f : Fn) : Prop :=
  f.handed.Pairwise (· ≠ ·) ∧ ∀ reg ∈ f.handed, reg.index < f.numRegisters

instance (f : Fn) : Decidable (Unaliased f) :=
  inferInstanceAs (Decidable (_ ∧ _))

end Fn

/-! ## What calls ask for -/

/-- The width of the frame that was asked for, and whether there is a scratch register. -/
structure Demand where
  width : ℕ
  scratch : Bool

namespace Demand

def grow (count : ℕ) (d : Demand) : Demand := { d with width := d.width + count }

def atLeast (count : ℕ) (d : Demand) : Demand := { d with width := max d.width count }

def temp (d : Demand) : Demand := if d.scratch then d else ⟨d.width + 1, true⟩

mutual

/-- What a call asks for. -/
def ask : Fn.Call → Demand → Demand
  | .reserve count, d => d.atLeast count.toNat
  | .window count, d => d.grow count.toNat
  | .addImm .., d => d.temp
  | .eqImm .., d => d.temp.grow 1
  | .whileLt _ _ body, d => askAll body (d.grow 1)
  | .makeMsg .., d | .hop .., d => d.grow 3
  | .makeMsgLegacySender .., d | .hopFresh .., d | .replyTo .., d => d.grow 4
  | .sendReply .., d => d.grow 5
  | .reg .., d | .set .., d | .mov .., d | .label, d | .bind .., d | .jump .., d
  | .branchIfFalsy .., d | .return .., d | .halt, d | .yield, d | .sleep .., d | .exit .., d
  | .trap .., d | .spawnAt .., d | .send .., d | .demonitor .., d | .unlink .., d
  | .registerName .., d | .nativeN .., d | .callNative .., d => d
  | _, d => d.grow 1

def askAll : List Fn.Call → Demand → Demand
  | [], d => d
  | c :: cs, d => askAll cs (ask c d)

end

end Demand

/-! ## The allocator -/

namespace Fn

variable {α β : Type}

/-- The registers of a function of which so much was asked: the next register stays at `255`, and
was handed out if more was asked for. -/
structure Allocated (f : Fn) (d : Demand) : Prop where
  next : f.nextReg.toNat = min d.width 255
  scratch : f.scratch.isSome = d.scratch
  declared : f.function.toNat < f.b.functions.length
  frame : f.handed = [] ∨ f.numRegisters = f.nextReg
  fits : d.width ≤ 255 → f.handed.Pairwise (fun r r' => r.index < r'.index) ∧
    ∀ r ∈ f.handed, r.index.toNat < d.width
  spills : 255 < d.width → ⟨255⟩ ∈ f.handed

/-- The code changes what was asked for by `g`. -/
def Asks (x : Assemble α) (g : Demand → Demand) : Prop :=
  ∀ f d, Allocated f d → Allocated (x.run f).2 (g d)

theorem asks_pure (a : α) : Asks (pure a) id := fun _ _ h => h

theorem Asks.bind {x : Assemble α} {k : α → Assemble β} {g g' : Demand → Demand}
    (hx : Asks x g) (hk : ∀ a, Asks (k a) g') : Asks (x >>= k) (g' ∘ g) :=
  fun f d h => hk (x.run f).1 (x.run f).2 (g d) (hx f d h)

theorem Asks.discard {x : Assemble α} {g : Demand → Demand} (hx : Asks x g) :
    Asks (discard x) g := hx

theorem asks_get : Asks (get : Assemble Fn) id := fun _ _ h => h

/-- An emission does not touch the function table. -/
theorem asks_emit {g : ChunkBuilder → ChunkBuilder}
    (hg : ∀ b, (g b).functions = b.functions) : Asks (emit g) id := by
  intro f d h
  have hnum : Fn.numRegisters { f with b := g f.b } = f.numRegisters := by
    unfold numRegisters
    rw [hg]
  exact
    { next := h.next
      scratch := h.scratch
      declared := (hg f.b).symm ▸ h.declared
      frame := h.frame.imp id fun hframe => hnum.trans hframe
      fits := h.fits
      spills := h.spills }

/-- The function with a wider frame, of which registers were handed out. -/
def widen (f : Fn) (width : UInt8) (regs : List Reg) : Fn :=
  { f with
    b := f.b.setNumRegisters f.function width
    nextReg := width
    handed := f.handed ++ regs }

theorem numRegisters_widen {f : Fn} (h : f.function.toNat < f.b.functions.length) (width : UInt8)
    (regs : List Reg) : (f.widen width regs).numRegisters = width := by
  unfold numRegisters
  show ((f.b.functions.modify f.function.toNat fun d =>
    { d with numRegisters := width })[f.function.toNat]?.map (·.numRegisters)).getD 0 = width
  rw [List.getElem?_modify_eq, List.getElem?_eq_getElem h]
  rfl

/-- Registers from the old width on, in order, up to the new one. -/
theorem Allocated.widen {f : Fn} {d : Demand} (h : Allocated f d) {width : UInt8}
    {regs : List Reg} {width' : ℕ} (hwidth : width.toNat = min width' 255) (hle : d.width ≤ width')
    (hsorted : width' ≤ 255 → regs.Pairwise fun r r' => r.index < r'.index)
    (hnew : width' ≤ 255 → ∀ r ∈ regs, d.width ≤ r.index.toNat ∧ r.index.toNat < width')
    (hspills : d.width ≤ 255 → 255 < width' → ⟨255⟩ ∈ regs) :
    Allocated (f.widen width regs) { d with width := width' } where
  next := hwidth
  scratch := h.scratch
  declared := by
    show _ < (f.b.functions.modify _ _).length
    rw [List.length_modify]
    exact h.declared
  frame := .inr (numRegisters_widen h.declared _ _)
  fits hfits := by
    obtain ⟨hold, hbelow⟩ := h.fits (hle.trans hfits)
    refine ⟨List.pairwise_append.mpr ⟨hold, hsorted hfits, fun r hr r' hr' => ?_⟩, fun r hr => ?_⟩
    · exact UInt8.lt_iff_toNat_lt.mpr ((hbelow r hr).trans_le (hnew hfits r' hr').1)
    · rcases List.mem_append.mp hr with hr | hr
      · exact (hbelow r hr).trans_le hle
      · exact (hnew hfits r hr).2
  spills hgt := by
    by_cases hwas : d.width ≤ 255
    · exact List.mem_append_right _ (hspills hwas hgt)
    · exact List.mem_append_left _ (h.spills (by omega))

theorem toNat_saturatingAdd (x y : UInt8) :
    (saturatingAdd x y).toNat = min (x.toNat + y.toNat) 255 :=
  UInt8.toNat_ofNat_of_lt' (lt_of_le_of_lt (Nat.min_le_right _ _) (by decide))

theorem asks_local : Asks «local» (Demand.grow 1) := by
  intro f d h
  have hnext := h.next
  have hwidth : (saturatingAdd f.nextReg 1).toNat = min (d.width + 1) 255 := by
    rw [toNat_saturatingAdd, hnext]
    show min (min d.width 255 + 1) 255 = _
    omega
  refine @Allocated.widen f d h _ [⟨f.nextReg⟩] _ hwidth (Nat.le_succ _)
    (fun _ => List.pairwise_singleton _ _) (fun hle r hr => ?_) fun hle hgt => ?_
  · obtain rfl := List.mem_singleton.mp hr
    show d.width ≤ f.nextReg.toNat ∧ f.nextReg.toNat < d.width + 1
    omega
  · have hreg : f.nextReg = 255 := by
      apply UInt8.toNat_inj.mp
      rw [hnext]
      show min d.width 255 = 255
      omega
    rw [hreg]
    exact List.mem_singleton_self _

theorem asks_reserve (count : UInt8) : Asks (reserve count) (Demand.atLeast count.toNat) := by
  intro f d h
  have hnext := h.next
  have hcount : count.toNat < 256 := count.toNat_lt
  by_cases hlt : f.nextReg < count
  · have hrun : ((reserve count).run f).2 = f.widen count
        ((List.range' f.nextReg.toNat (count.toNat - f.nextReg.toNat)).map
          fun i => Reg.mk (UInt8.ofNat i)) := by
      show ((if f.nextReg < count then _ else _ : Assemble Unit).run f).2 = _
      rw [if_pos hlt]
      rfl
    have hlt' := UInt8.lt_iff_toNat_lt.mp hlt
    have hmem {i : ℕ} (hi : i ∈ List.range' f.nextReg.toNat (count.toNat - f.nextReg.toNat)) :
        f.nextReg.toNat ≤ i ∧ i < count.toNat := by
      rw [List.mem_range'_1] at hi
      omega
    have hindex {i : ℕ} (hi : i < count.toNat) : (UInt8.ofNat i).toNat = i :=
      UInt8.toNat_ofNat_of_lt' (hi.trans hcount)
    rw [hrun]
    refine h.widen (by omega) (Nat.le_max_left _ _) (fun _ => ?_) (fun hle r hr => ?_)
      fun hle hgt => ?_
    · rw [List.pairwise_map]
      refine List.Pairwise.imp_of_mem (fun hi hj hij => ?_) List.pairwise_lt_range'
      rw [UInt8.lt_iff_toNat_lt, hindex (hmem hi).2, hindex (hmem hj).2]
      exact hij
    · obtain ⟨i, hi, rfl⟩ := List.mem_map.mp hr
      obtain ⟨hge, hbelow⟩ := hmem hi
      show d.width ≤ (UInt8.ofNat i).toNat ∧ (UInt8.ofNat i).toNat < max d.width count.toNat
      rw [hindex hbelow]
      omega
    · omega
  · have hge : ¬f.nextReg.toNat < count.toNat := fun hlt' => hlt (UInt8.lt_iff_toNat_lt.mpr hlt')
    have hmax : Demand.atLeast count.toNat d = d := by
      show { d with width := max d.width count.toNat } = d
      rw [Nat.max_eq_left (by omega)]
    have hrun : ((reserve count).run f).2 = f := by
      show ((if f.nextReg < count then _ else _ : Assemble Unit).run f).2 = _
      rw [if_neg hlt]
      rfl
    rw [hrun, hmax]
    exact h

theorem asks_locals (count : ℕ) : Asks (locals count) (Demand.grow count) := by
  induction count with
  | zero => exact asks_pure ()
  | succ count ih =>
    intro f d h
    have hrest := asks_local.bind (fun _ => ih) f d h
    have hsum : Demand.grow count (Demand.grow 1 d) = Demand.grow (count + 1) d := by
      unfold Demand.grow
      rw [Nat.add_assoc, Nat.add_comm 1 count]
    rw [← hsum]
    exact hrest

theorem asks_window (count : UInt8) : Asks (window count) (Demand.grow count.toNat) :=
  asks_get.bind fun _ => (asks_locals count.toNat).bind fun _ => asks_pure _

theorem asks_temp : Asks temp Demand.temp := by
  intro f d h
  have hscratch := h.scratch
  unfold Demand.temp
  cases hs : f.scratch with
  | some scratch =>
    rw [hs] at hscratch
    have hd : d.scratch = true := hscratch.symm
    rw [if_pos hd]
    have hrun : (temp.run f).2 = f := by
      show ((match f.scratch with
        | some scratch => pure scratch
        | none => _ : Assemble Reg).run f).2 = f
      rw [hs]
      rfl
    rw [hrun]
    exact h
  | none =>
    rw [hs] at hscratch
    have hd : ¬d.scratch = true := by
      rw [← hscratch]
      exact Bool.false_ne_true
    rw [if_neg hd]
    have hrun : (temp.run f).2 = { («local».run f).2 with scratch := some («local».run f).1 } := by
      show ((match f.scratch with
        | some scratch => pure scratch
        | none => _ : Assemble Reg).run f).2 = _
      rw [hs]
      rfl
    rw [hrun]
    exact { asks_local f d h with scratch := rfl }

theorem asks_fresh {g : ChunkBuilder → UInt8 → ChunkBuilder}
    (hg : ∀ b reg, (g b reg).functions = b.functions) : Asks (fresh g) (Demand.grow 1) :=
  asks_local.bind fun dst => (asks_emit fun b => hg b dst.index).bind fun _ => asks_pure dst

theorem functions_const (b : ChunkBuilder) (v : Value) : (b.const v).2.functions = b.functions := by
  unfold ChunkBuilder.const
  split <;> rfl

theorem asks_loadConst (v : Value) : Asks (loadConst v) (Demand.grow 1) := by
  refine asks_get.bind fun _ => (asks_emit fun b => functions_const b v).bind fun _ =>
    asks_fresh ?_
  exact fun _ _ => rfl

theorem asks_binopImm (op : Opcode) (lhs : Reg) (imm : Int32) :
    Asks (binopImm op lhs imm) (Demand.grow 1 ∘ Demand.temp) := by
  refine asks_temp.bind fun _ => (asks_emit ?_).bind fun _ => asks_fresh ?_
  · exact fun _ => rfl
  · exact fun _ _ => rfl

theorem asks_addImm (dst : Reg) (imm : Int32) : Asks (addImm dst imm) Demand.temp := by
  refine asks_temp.bind fun _ => (asks_emit ?_).bind fun _ => asks_emit ?_
  all_goals exact fun _ => rfl

/-- A label is no register. -/
theorem asks_label : Asks label id :=
  fun f d h => @asks_emit (fun b => b.newLabel.2) (fun _ => rfl) f d h

theorem asks_whileLt {body : Assemble Unit} {g : Demand → Demand} (hbody : Asks body g)
    (counter limit : Reg) : Asks (whileLt counter limit body) (g ∘ Demand.grow 1) := by
  refine asks_label.bind fun head => asks_label.bind fun done => asks_local.bind fun cond =>
    (asks_emit ?_).bind fun _ => (asks_emit ?_).bind fun _ => (asks_emit ?_).bind fun _ =>
    hbody.bind fun _ => (asks_emit ?_).bind fun _ => asks_emit ?_
  all_goals exact fun _ => rfl

theorem asks_makeMsg (nativeIndex : UInt32) (requestId : Reg) (tag : Int32) (payload : Reg) :
    Asks (makeMsg nativeIndex requestId tag payload) (Demand.grow 3) := by
  refine (asks_window 3).bind fun _ => (asks_emit ?_).bind fun _ => (asks_emit ?_).bind fun _ =>
    (asks_emit ?_).bind fun _ => (asks_emit ?_).bind fun _ => asks_pure _
  all_goals exact fun _ => rfl

theorem asks_makeMsgLegacySender (nativeIndex : UInt32) (sender requestId : Reg) (tag : Int32)
    (payload : Reg) :
    Asks (makeMsgLegacySender nativeIndex sender requestId tag payload) (Demand.grow 4) := by
  refine (asks_window 4).bind fun _ => (asks_emit ?_).bind fun _ => (asks_emit ?_).bind fun _ =>
    (asks_emit ?_).bind fun _ => (asks_emit ?_).bind fun _ => (asks_emit ?_).bind fun _ =>
    asks_pure _
  all_goals exact fun _ => rfl

theorem asks_native1From (src : Reg) (native : UInt32) :
    Asks (native1From src native) (Demand.grow 1) :=
  asks_fresh fun _ _ => rfl

theorem asks_replyTo (req : Reg) (tag : Int32) (payload : Reg) :
    Asks (replyTo req tag payload) (Demand.grow 4) :=
  (asks_native1From req 4).bind fun reqId => asks_makeMsg 2 reqId tag payload

theorem asks_hopFresh (tag : Int32) (payload : Reg) :
    Asks (hopFresh tag payload) (Demand.grow 4) := by
  refine Asks.bind (x := freshRequestId) (asks_fresh ?_) fun reqId =>
    asks_makeMsg 2 reqId tag payload
  exact fun _ _ => rfl

theorem asks_sendReply (req : Reg) (tag : Int32) (payload : Reg) :
    Asks (sendReply req tag payload) (Demand.grow 5) := by
  refine (asks_native1From req 7).bind fun _ => (asks_replyTo req tag payload).bind fun _ =>
    asks_emit ?_
  exact fun _ => rfl

mutual

/-- **Calls.** What a call hands out is what it asks for. -/
theorem asks_perform (c : Call) : Asks (perform c) (Demand.ask c) := by
  cases c with
  | «local» => exact asks_local.discard
  | reserve count => exact asks_reserve count
  | window count => exact (asks_window count).discard
  | loadInt n => exact (asks_loadConst (.int n)).discard
  | loadStr s => exact (asks_loadConst (.str s)).discard
  | addImm dst imm => exact asks_addImm dst imm
  | eqImm lhs imm => exact (asks_binopImm .eq lhs imm).discard
  | whileLt counter limit body => exact asks_whileLt (asks_performAll body) counter limit
  | makeMsg nativeIndex requestId tag payload =>
    exact (asks_makeMsg nativeIndex requestId tag payload).discard
  | makeMsgLegacySender nativeIndex sender requestId tag payload =>
    exact (asks_makeMsgLegacySender nativeIndex sender requestId tag payload).discard
  | hop requestId tag payload => exact (asks_makeMsg 2 requestId tag payload).discard
  | hopFresh tag payload => exact (asks_hopFresh tag payload).discard
  | replyTo req tag payload => exact (asks_replyTo req tag payload).discard
  | sendReply req tag payload => exact asks_sendReply req tag payload
  | reg index => exact asks_pure ()
  | label => exact asks_label.discard
  | native1On src native => exact (asks_native1From src native).bind fun _ => asks_pure ()
  | set | mov | bind | jump | branchIfFalsy | «return» | halt | yield | sleep | exit | trap
  | spawnAt | send | demonitor | unlink | registerName | nativeN | callNative =>
    refine asks_emit ?_
    exact fun _ => rfl
  | _ =>
    refine Asks.discard (asks_fresh ?_)
    exact fun _ _ => rfl

theorem asks_performAll (cs : List Call) : Asks (performAll cs) (Demand.askAll cs) := by
  cases cs with
  | nil => exact asks_pure ()
  | cons c cs => exact (asks_perform c).bind fun _ => asks_performAll cs

end

theorem allocated_openWith (b : ChunkBuilder) (name : String) (arity numRegisters : UInt8) :
    Allocated (openWith b name arity numRegisters) ⟨numRegisters.toNat, false⟩ where
  next := (Nat.min_eq_left (Nat.le_of_lt_succ numRegisters.toNat_lt)).symm
  scratch := rfl
  declared := by
    show b.functions.length % 2 ^ 32 < (b.functions ++ [_]).length
    rw [List.length_append]
    exact lt_of_le_of_lt (Nat.mod_le _ _) (Nat.lt_succ_self _)
  frame := .inl rfl
  fits _ := ⟨.nil, fun _ h => absurd h List.not_mem_nil⟩
  spills h := absurd numRegisters.toNat_lt (Nat.not_lt.mpr h)

theorem Allocated.distinct_iff {f : Fn} {d : Demand} (h : Allocated f d) :
    f.Unaliased ↔ d.width ≤ 255 := by
  constructor
  · rintro ⟨-, hinside⟩
    by_contra hgt
    have hlt := UInt8.lt_iff_toNat_lt.mp (hinside _ (h.spills (by omega)))
    exact absurd f.numRegisters.toNat_lt (Nat.not_lt.mpr hlt)
  · intro hle
    obtain ⟨hsorted, hbelow⟩ := h.fits hle
    refine ⟨hsorted.imp fun hlt heq => ?_, fun r hr => ?_⟩
    · rw [heq] at hlt
      exact absurd hlt (UInt8.lt_irrefl _)
    · rcases h.frame with hnil | hframe
      · rw [hnil] at hr
        exact absurd hr List.not_mem_nil
      · rw [hframe, UInt8.lt_iff_toNat_lt, h.next, Nat.min_eq_left hle]
        exact hbelow r hr

/-- **Registers.** The registers that calls hand out are distinct and in the frame exactly if the
calls ask for no more than `255`. -/
theorem unaliased_iff (b : ChunkBuilder) (name : String) (arity numRegisters : UInt8)
    (calls : List Call) :
    ((openWith b name arity numRegisters).after calls).Unaliased ↔
      (Demand.askAll calls ⟨numRegisters.toNat, false⟩).width ≤ 255 :=
  (asks_performAll calls _ _ (allocated_openWith b name arity numRegisters)).distinct_iff

/-- Two registers that are one, outside the frame. -/
theorem aliased_locals :
    ((«open» (.new "full") "main" 255).after [.local, .local]).handed = [⟨255⟩, ⟨255⟩] ∧
      ((«open» (.new "full") "main" 255).after [.local, .local]).numRegisters = 255 ∧
      ¬((«open» (.new "full") "main" 255).after [.local, .local]).Unaliased :=
  ⟨rfl, rfl, by decide⟩

end Fn

end Byteflow
