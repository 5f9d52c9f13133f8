import RegIR.Operator
/-!
# Operations

Registers, blocks, functions and slots are named by dense indices.  An operation defines at most
one register, reads a list of registers, and, when it ends a block, may transfer control to a
list of blocks.
-/

namespace RegIR

/-- A register of one function. -/
structure Reg where
  index : Nat
  deriving DecidableEq, Repr, Inhabited

/-- A block of one function. -/
structure BlockId where
  index : Nat
  deriving DecidableEq, Repr, Inhabited

/-- A function of a module. -/
structure FuncId where
  index : Nat
  deriving DecidableEq, Repr, Inhabited

/-- A stack slot of one function. -/
structure SlotId where
  index : Nat
  deriving DecidableEq, Repr, Inhabited

def Reg.name (r : Reg) : String := s!"%{r.index}"

def BlockId.name (b : BlockId) : String := s!"bb{b.index}"

inductive Operation where
  /-- Copies a declared argument into a register. -/
  | readArg (target : Reg) (index : Nat)
  | literal (target : Reg) (value : Int32)
  | unary (target : Reg) (op : UnaryOp) (operand : Reg)
  | binary (target : Reg) (op : BinaryOp) (lhs rhs : Reg)
  /-- Takes the address of a slot. -/
  | stackAlloc (target : Reg) (slot : SlotId)
  | load (target pointer : Reg)
  | store (pointer source : Reg)
  | call (target : Reg) (callee : FuncId) (args : List Reg)
  | branch (target : BlockId)
  /-- Continues at the first block when the test is not zero, else at the second. -/
  | condBranch (test : Reg) (thenBlock elseBlock : BlockId)
  | ret (value : Reg)
  deriving DecidableEq, Repr, Inhabited

namespace Operation

/-- Branches and returns end a block. -/
def isTerminator : Operation → Bool
  | branch _ | condBranch .. | ret _ => true
  | _ => false

/-- The register that the operation defines. -/
def target? : Operation → Option Reg
  | readArg t _ | literal t _ | unary t _ _ | binary t _ _ _ | stackAlloc t _ | load t _
  | call t _ _ => some t
  | store .. | branch _ | condBranch .. | ret _ => none

/-- The registers that the operation reads, in operand order. -/
def uses : Operation → List Reg
  | readArg .. | literal .. | stackAlloc .. | branch _ => []
  | unary _ _ x => [x]
  | binary _ _ l r => [l, r]
  | load _ p => [p]
  | store p s => [p, s]
  | call _ _ args => args
  | condBranch t _ _ => [t]
  | ret v => [v]

/-- The blocks to which the operation may transfer control. -/
def successors : Operation → List BlockId
  | branch b => [b]
  | condBranch _ b c => [b, c]
  | _ => []

end Operation

end RegIR
