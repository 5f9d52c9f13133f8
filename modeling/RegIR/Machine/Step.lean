import RegIR.Machine.Pointer
import RegIR.Machine.Register
/-!
# Steps

One step executes the operation at the cursor of the running activation.  It leads to another
state, returns the bytes of the outermost result, ends the invocation, or asks for a host
function and waits for its answer.
-/

namespace RegIR.Machine

/-- What the steps of a machine depend on.  `H` is the type of host functions. -/
structure Env (H : Type) where
  program : Program
  maxCallDepth : Option Nat
  /-- The host function bound to a symbol. -/
  host? : String → Option H

/-- What a step leads to. -/
inductive Transition (H : Type) where
  | next (s : State)
  | returned (value : Bytes) (stats : Stats)
  | halted (h : Halt) (stats : Stats)
  /-- The host function gets the arguments; its answer goes to a register of the running
  activation. -/
  | host (run : H) (args : List Int32) (target : Reg) (s : State)

/-- The code of a defined function. -/
@[inline] def codeOf (p : Program) (f : FuncId) : Exec Code :=
  match p.linked? f with
  | some (.code c) => .ok c
  | some (.external e _) => .error (.fault (.notDefined e.signature.name))
  | none => .error (.fault (.notDefined s!"#{f.index}"))

/-- Turns a refused move into the end of the invocation. -/
@[inline] def moved (r : Except MemoryViolation Memory) : Exec Memory :=
  match r with
  | .error v => .error (.violation v)
  | .ok m => .ok m

/-! ## Operations on data

These change the bytes of the stack and nothing else. -/

/-- Copies an argument into a register. -/
@[inline] def execReadArg (a : Activation) (stack : Memory) (target : Reg) (index : Nat) :
    Exec Memory :=
  match a.code.args.extent? index with
  | none => .error (.fault (.argumentCount a.name a.code.args.length (index + 1)))
  | some src => do
    let dst ← a.extent target
    if dst.size ≠ src.size then .error (a.registerFault target)
    else moved (stack.copyWithin (a.argsBase + src.start) (a.argsBase + src.stop) dst.start)

@[inline] def execUnary (a : Activation) (stack : Memory) (target : Reg) (op : UnaryOp)
    (operand : Reg) : Exec Memory := do
  let x ← a.readInt stack operand
  a.writeInt stack target (op.eval x)

@[inline] def execBinary (a : Activation) (stack : Memory) (target : Reg) (op : BinaryOp)
    (lhs rhs : Reg) : Exec Memory := do
  let l ← a.readInt stack lhs
  let r ← a.readInt stack rhs
  match op.eval? l r with
  | none => .error (.fault (.divisionByZero a.name))
  | some v => a.writeInt stack target v

/-- Puts the address of a slot into a register. -/
def execStackAlloc (a : Activation) (stack : Memory) (target : Reg) (slot : SlotId) :
    Exec Memory :=
  match a.code.frame.slotExtent? slot with
  | none => .error (a.registerFault target)
  | some e => do
    let dst ← a.extent target
    moved (stack.replace dst.start (Bytes.ofWord64 (addressOf (a.frameBase + e.start))))

/-- Copies a slot into a register. -/
def execLoad (c : CallStack) (stack : Memory) (target pointer : Reg) : Exec Memory := do
  let t ← c.top.typeOf target
  let address ← c.top.readPointer stack pointer
  let place ← c.resolve address t
  let dst ← c.top.extent target
  moved (stack.copyWithin place.offset (place.offset + t.size.toNat) dst.start)

/-- A pointer may not be kept in a frame older than the one that it points into. -/
def checkStore (c : CallStack) (stack : Memory) (t : Ty) (source : Reg) (depth : Nat) :
    Exec Unit :=
  if t.isPointer then do
    let stored ← c.top.readPointer stack source
    if c.outlives stored depth then .error (.fault (.pointerEscape c.top.name)) else .ok ()
  else .ok ()

/-- Copies a register into a slot. -/
def execStore (c : CallStack) (stack : Memory) (pointer source : Reg) : Exec Memory := do
  let t ← c.top.typeOf source
  let address ← c.top.readPointer stack pointer
  let place ← c.resolve address t
  checkStore c stack t source place.depth
  let src ← c.top.extent source
  moved (stack.copyWithin src.start src.stop place.offset)

/-! ## Calls and returns -/

/-- Copies the argument registers of a call into the argument block of the callee, from a
position on. -/
def passArgs (caller : Activation) (callee : Code) (base position : Nat) (args : List Reg)
    (stack : Memory) : Exec Memory :=
  match args with
  | [] => .ok stack
  | r :: rs => do
    let src ← caller.extent r
    match callee.args.extent? position with
    | none => .error (.fault (.argumentSize callee.name position 0 src.size))
    | some dst =>
      if dst.size ≠ src.size then
        .error (.fault (.argumentSize callee.name position dst.size src.size))
      else
        let stack ← moved (stack.copyWithin src.start src.stop (base + dst.start))
        passArgs caller callee base (position + 1) rs stack

/-- The limit on live activations allows one more. -/
@[inline] def checkDepth (limit : Option Nat) (depth : Nat) : Exec Unit :=
  match limit with
  | none => .ok ()
  | some limit => if limit ≤ depth then .error (.fault (.callDepthExceeded limit)) else .ok ()

/-- Starts the frame of a function whose argument block is on the stack. -/
@[inline] def startFrame (stack : Memory) (c : Code) (argsBase : Nat) : Activation × Memory :=
  let (base, stack) := reserve stack c.frame.size c.frame.layout.align.toNat
  (⟨c, argsBase, base, 0, 0⟩, stack)

/-- Calls a defined function: the caller waits, with its cursor behind the call. -/
@[inline] def enterCall {H : Type} (env : Env H) (stack : Memory) (calls : CallStack) (target : Reg)
    (callee : FuncId) (args : List Reg) : Exec (Memory × CallStack) := do
  checkDepth env.maxCallDepth calls.depth
  let c ← codeOf env.program callee
  if args.length ≠ c.args.length then
    .error (.fault (.argumentCount c.name c.args.length args.length))
  else
    let ⟨caller, below⟩ := calls
    -- The argument block comes first and the frame of the callee above it.
    let (argsBase, stack) := reserve stack c.args.size.toNat c.args.align.toNat
    let stack ← passArgs caller c argsBase 0 args stack
    let dst ← caller.extent target
    let (a, stack) := startFrame stack c argsBase
    .ok (stack, ⟨a, below.push ⟨caller.advance, dst.start⟩⟩)

/-- Calls a function of the program: a defined one gets an activation, an external one goes to
the host when it takes and returns integers only and is bound. -/
def execCall {H : Type} (env : Env H) (stack : Memory) (calls : CallStack) (stats : Stats)
    (target : Reg) (callee : FuncId) (args : List Reg) : Transition H :=
  match env.program.linked? callee with
  | some (.external e _) =>
    -- The arguments are read before the signature and the binding are looked at.
    match calls.top.readInts stack args with
    | .error h => .halted h stats
    | .ok values =>
      if !e.signature.allInt then
        .halted (.fault (.unsupportedExternalSignature e.symbol)) stats
      else
        match env.host? e.symbol with
        | none => .halted (.fault (.unboundExternal e.symbol)) stats
        | some run => .host run values target ⟨stack, calls.advance, stats⟩
  | _ =>
    match enterCall env stack calls target callee args with
    | .error h => .halted h stats
    | .ok (stack, calls) => .next ⟨stack, calls, stats.reach calls.depth⟩

/-- A pointer to the stack at or above the argument block may not be returned. -/
@[inline] def checkReturn (a : Activation) (stack : Memory) (value : Reg) : Exec Unit := do
  let t ← a.typeOf value
  if t.isPointer then
    let address ← a.readPointer stack value
    match stackOffset? address with
    | none => .ok ()
    | some offset =>
      if a.argsBase ≤ offset then .error (.fault (.danglingPointer a.name)) else .ok ()
  else .ok ()

/-- The bytes of the returned register. -/
@[inline] def returned (a : Activation) (stack : Memory) (value : Reg) : Exec Extent := do
  let src ← a.extent value
  checkReturn a stack value
  .ok src

/-- Delivers a result to the register that the caller named, or to the outside, and drops the
argument block and the frame. -/
def execReturn {H : Type} (stack : Memory) (calls : CallStack) (stats : Stats) (value : Reg) :
    Transition H :=
  match returned calls.top stack value with
  | .error h => .halted h stats
  | .ok src =>
    let ⟨a, below⟩ := calls
    match below.back? with
    | none =>
      -- The outermost activation hands its result to the outside.
      match stack.area src.start src.stop with
      | .error v => .halted (.violation v) stats
      | .ok bytes => .returned bytes stats
    | some ⟨caller, offset⟩ =>
      match stack.copyWithin src.start src.stop offset with
      | .error v => .halted (.violation v) stats
      | .ok stack => .next ⟨stack.cut a.argsBase, ⟨caller, below.pop⟩, stats⟩

/-! ## The step -/

/-- Goes on behind an operation that changed the bytes of the stack. -/
@[inline] def andAdvance {H : Type} (calls : CallStack) (stats : Stats) (r : Exec Memory) :
    Transition H :=
  match r with
  | .error h => .halted h stats
  | .ok stack => .next ⟨stack, calls.advance, stats⟩

/-- Executes one operation. -/
@[inline] def execute {H : Type} (env : Env H) (stack : Memory) (calls : CallStack)
    (stats : Stats) (op : Operation) : Transition H :=
  match op with
  | .readArg target index => andAdvance calls stats (execReadArg calls.top stack target index)
  | .literal target value => andAdvance calls stats (calls.top.writeInt stack target value)
  | .unary target op operand => andAdvance calls stats (execUnary calls.top stack target op operand)
  | .binary target op lhs rhs => andAdvance calls stats (execBinary calls.top stack target op lhs rhs)
  | .stackAlloc target slot => andAdvance calls stats (execStackAlloc calls.top stack target slot)
  | .load target pointer => andAdvance calls stats (execLoad calls stack target pointer)
  | .store pointer source => andAdvance calls stats (execStore calls stack pointer source)
  | .call target callee args =>
    execCall env stack calls { stats with calls := stats.calls + 1 } target callee args
  | .branch target => .next ⟨stack, calls.jump target, stats⟩
  | .condBranch test thenBlock elseBlock =>
    match calls.top.readInt stack test with
    | .error h => .halted h stats
    | .ok x => .next ⟨stack, calls.jump (if x ≠ 0 then thenBlock else elseBlock), stats⟩
  | .ret value => execReturn stack calls stats value

/-- Executes the operation at the cursor. -/
@[inline] def step {H : Type} (env : Env H) (s : State) : Transition H :=
  let ⟨stack, calls, stats⟩ := s
  match calls.top.operation? with
  | none => .halted (.fault (.missingTerminator calls.top.name ⟨calls.top.block⟩)) stats
  | some op => execute env stack calls { stats with instructions := stats.instructions + 1 } op

/-- Stores the answer of a host function. -/
def State.answer (s : State) (target : Reg) (v : Int32) : Exec State := do
  let ⟨stack, calls, stats⟩ := s
  let stack ← calls.top.writeInt stack target v
  .ok ⟨stack, calls, stats⟩

end RegIR.Machine
