import RegIR.Operation
import RegIR.Ty
/-!
# Functions

A function is either defined by blocks of operations or external, with a body that the host
supplies under a symbol.  A definition records the type of every register and slot by index.
-/

namespace RegIR

/-- A straight line of operations. -/
abbrev Block := Array Operation

/-- The last operation of a block, when it ends the block. -/
def Block.terminator? (b : Block) : Option Operation :=
  b.back?.filter Operation.isTerminator

structure Signature where
  name : String
  args : List Ty
  ret : Ty
  deriving DecidableEq, Repr, Inhabited

/-- Only integers enter and leave the function. -/
def Signature.allInt (s : Signature) : Bool := s.ret.isInt && s.args.all Ty.isInt

/-- A function with a body. -/
structure Definition where
  signature : Signature
  blocks : Array Block
  /-- The type of each register. -/
  regTypes : Array Ty
  /-- The type of each stack slot. -/
  slotTypes : Array Ty
  deriving DecidableEq, Repr, Inhabited

namespace Definition

/-- A function without any block yet. -/
def ofSignature (s : Signature) : Definition := ⟨s, #[], #[], #[]⟩

def name (d : Definition) : String := d.signature.name

def regType? (d : Definition) (r : Reg) : Option Ty := d.regTypes[r.index]?

def block? (d : Definition) (b : BlockId) : Option Block := d.blocks[b.index]?

/-- The number of operations in all blocks. -/
def instructionCount (d : Definition) : Nat := d.blocks.foldl (fun n b => n + b.size) 0

end Definition

/-- A function whose body the host supplies. -/
structure External where
  signature : Signature
  symbol : String
  deriving DecidableEq, Repr, Inhabited

inductive Function where
  | defined (d : Definition)
  | external (e : External)
  deriving DecidableEq, Repr, Inhabited

namespace Function

def signature : Function → Signature
  | defined d => d.signature
  | external e => e.signature

def name (f : Function) : String := f.signature.name

def definition? : Function → Option Definition
  | defined d => some d
  | external _ => none

def isDefined (f : Function) : Bool := f.definition?.isSome

end Function

end RegIR
