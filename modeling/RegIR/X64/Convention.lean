import RegIR.X64.Register
/-!
# The System V calling convention

Integer arguments arrive in six registers, and then on the stack in units of eight bytes.  The
result leaves in rax.
-/

namespace RegIR.X64

/-- Rounds up to a multiple of a power of two. -/
def alignTo (value align : UInt32) : UInt32 := (value + align - 1) &&& ~~~(align - 1)

/-- Where an argument or a result goes. -/
structure Assignment where
  size : UInt32
  align : UInt32
  reg : Option Gp
  /-- The offset above the first stack argument. -/
  stackOffset : Option Int32
  deriving DecidableEq, Repr, Inhabited

/-- A value without a place. -/
def Assignment.unassigned (size align : UInt32) : Assignment := ⟨size, align, none, none⟩

/-- The registers of the first arguments, in order. -/
def argRegs : List Gp := [.rdi, .rsi, .rdx, .rcx, .r8, .r9]

/-- What the arguments assigned so far have taken. -/
structure Assigner where
  gpUsed : Nat
  stack : UInt32
  retAssigned : Bool
  deriving DecidableEq, Repr, Inhabited

namespace Assigner

def empty : Assigner := ⟨0, 0, false⟩

/-- Places the next argument. -/
def assignArg (a : Assigner) (size align : UInt32) : Assignment × Assigner :=
  match argRegs[a.gpUsed]? with
  | some r => (⟨size, align, some r, none⟩, { a with gpUsed := a.gpUsed + 1 })
  | none =>
    let offset := alignTo a.stack (max align 8)
    (⟨size, align, none, some offset.toInt32⟩, { a with stack := offset + alignTo size 8 })

/-- Places the result, when it is the first and fits in the register. -/
def assignRet (a : Assigner) (size align : UInt32) : Assignment × Assigner :=
  if !a.retAssigned && size ≤ 8 then
    (⟨size, align, some .rax, none⟩, { a with retAssigned := true })
  else (.unassigned size align, a)

/-- Places a list of arguments. -/
def assignArgs (a : Assigner) : List (UInt32 × UInt32) → List Assignment × Assigner
  | [] => ([], a)
  | (size, align) :: rest =>
    let (first, a) := a.assignArg size align
    let (others, a) := a.assignArgs rest
    (first :: others, a)

/-- Starts afresh. -/
def reset (_ : Assigner) : Assigner := empty

/-- The bytes that the stack arguments take. -/
def stackSize (a : Assigner) : UInt32 := alignTo a.stack 16

end Assigner

end RegIR.X64
