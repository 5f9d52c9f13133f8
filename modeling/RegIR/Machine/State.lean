import RegIR.Memory
import RegIR.Machine.Fault
import RegIR.Program
/-!
# Machine states

The machine runs one invocation.  Its stack is one memory, in which the argument block
and the frame of every live activation lie at increasing offsets.  The call stack
keeps the activations themselves: the running one, and those that wait for it to return.
-/

namespace RegIR

/-- The settings of a machine. -/
structure Config where
  /-- The number of live activations at which a call is refused, if any. -/
  maxCallDepth : Option Nat
  /-- Bytes set aside for the stack at the start; it grows when it has to. -/
  stackCapacity : Nat
  deriving DecidableEq, Repr

def Config.default : Config := ⟨some 65536, 65536⟩

/-- Counts over the invocations of one machine. -/
structure Stats where
  invocations : Nat
  calls : Nat
  instructions : Nat
  maxDepth : Nat
  deriving DecidableEq, Repr

namespace Stats

def zero : Stats := ⟨0, 0, 0, 0⟩

/-- Counts a number of live activations. -/
def reach (s : Stats) (depth : Nat) : Stats := { s with maxDepth := max s.maxDepth depth }

end Stats

namespace Machine

/-- One live call of a defined function. -/
structure Activation where
  code : Code
  /-- Where the argument block starts. -/
  argsBase : Nat
  /-- Where the registers and slots start. -/
  frameBase : Nat
  /-- The next operation, by block and position. -/
  block : Nat
  pos : Nat
  deriving DecidableEq, Repr

namespace Activation

def name (a : Activation) : String := a.code.name

/-- Where the frame ends. -/
def frameEnd (a : Activation) : Nat := a.frameBase + a.code.frame.size

/-- The operation at the cursor. -/
@[inline] def operation? (a : Activation) : Option Operation :=
  match a.code.definition.blocks[a.block]? with
  | none => none
  | some b => b[a.pos]?

/-- Moves the cursor behind the operation. -/
@[inline] def advance (a : Activation) : Activation := { a with pos := a.pos + 1 }

/-- Moves the cursor to the start of a block. -/
@[inline] def jump (a : Activation) (b : BlockId) : Activation :=
  { a with block := b.index, pos := 0 }

end Activation

/-- An activation that waits for a call to return. -/
structure Suspended where
  caller : Activation
  /-- The stack offset that receives the result. -/
  returnTo : Nat
  deriving DecidableEq, Repr

/-- The live activations: the running one and those that wait, oldest first. -/
structure CallStack where
  top : Activation
  below : Array Suspended
  deriving DecidableEq, Repr

namespace CallStack

/-- The number of live activations. -/
def depth (c : CallStack) : Nat := c.below.size + 1

/-- The live activation with a given number of older ones. -/
def activation? (c : CallStack) (i : Nat) : Option Activation :=
  if i = c.below.size then some c.top else c.below[i]?.map Suspended.caller

@[inline] def advance (c : CallStack) : CallStack := { c with top := c.top.advance }

@[inline] def jump (c : CallStack) (b : BlockId) : CallStack := { c with top := c.top.jump b }

end CallStack

structure State where
  stack : Memory
  calls : CallStack
  stats : Stats

/-- Why a machine cannot go on. -/
inductive Halt where
  | fault (f : Fault)
  | violation (v : MemoryViolation)
  deriving DecidableEq, Repr

/-- A computation that may end the invocation. -/
abbrev Exec := Except Halt

/-- The address of stack offset 0.  The zero word is never an address. -/
def stackBase : Nat := 0x10000

/-- The least alignment of argument blocks and frames. -/
def frameAlign : Nat := 16

/-- Appends a zeroed area at a multiple of its alignment and answers where it starts. -/
@[inline] def reserve (stack : Memory) (size align : Nat) : Nat × Memory :=
  let align := max align frameAlign
  let base := (stack.size + align - 1) / align * align
  (base, stack.grow (base + size - stack.size))

end Machine

end RegIR
