import RegIR.Function
import RegIR.Ty.Registry
/-!
# Modules under construction

A module owns functions, numbered in order of declaration, and the aggregates that they use.
Names are unique, so a name finds at most one function.
-/

namespace RegIR

/-- Why a construction step was refused.  A refused step changes nothing. -/
inductive BuildError where
  | noFunctionSelected
  | noOpenBlock (function : String)
  | argumentIndexOutOfRange (index count : Nat)
  | unknownRegister (reg : Reg)
  | unknownBlock (block : BlockId)
  | typeMismatch (reg : Reg) (expected found : Ty)
  | callArity (callee : String) (expected found : Nat)
  | callArgument (callee : String) (position : Nat) (reg : Reg) (expected found : Ty)
  | returnTypeMismatch (reg : Reg) (expected found : Ty)
  | unknownFunction (index : Nat)
  | notDefined (name : String)
  | duplicateSymbol (name : String)
  | invalidType (cause : TypeError)
  deriving DecidableEq, Repr

namespace BuildError

def message : BuildError → String
  | noFunctionSelected => "no function is selected"
  | noOpenBlock function => s!"no block is open in function `{function}`"
  | argumentIndexOutOfRange index count =>
    s!"argument index {index} out of range ({count} declared)"
  | unknownRegister reg => s!"register {reg.name} does not exist"
  | unknownBlock block => s!"block {block.name} does not exist"
  | typeMismatch reg expected found =>
    s!"type mismatch on {reg.name}: expected {expected.name}, found {found.name}"
  | callArity callee expected found =>
    s!"call to `{callee}`: expected {expected} arguments, got {found}"
  | callArgument callee position reg expected found =>
    s!"call to `{callee}`: argument {position} is {found.name} ({reg.name}), expected {expected.name}"
  | returnTypeMismatch reg expected found =>
    s!"return type mismatch: function returns {expected.name}, {reg.name} is {found.name}"
  | unknownFunction index => s!"function index {index} does not exist"
  | notDefined name => s!"`{name}` is not a defined function"
  | duplicateSymbol name => s!"symbol `{name}` is already declared"
  | invalidType cause => "invalid type: " ++ cause.message

end BuildError

structure Module where
  functions : Array Function
  types : Registry
  deriving DecidableEq, Repr, Inhabited

namespace Module

def empty : Module := ⟨#[], .empty⟩

def size (m : Module) : Nat := m.functions.size

def function? (m : Module) (f : FuncId) : Option Function := m.functions[f.index]?

/-- The function of a given name. -/
def lookup? (m : Module) (name : String) : Option FuncId :=
  (m.functions.findIdx? fun f => f.name == name).map FuncId.mk

/-- Adds a function, unless its name is taken. -/
def declareFunction (m : Module) (f : Function) : Except BuildError (FuncId × Module) :=
  if (m.lookup? f.name).isSome then .error (.duplicateSymbol f.name)
  else .ok (⟨m.size⟩, { m with functions := m.functions.push f })

/-- Declares a function whose body is built in this module. -/
def declare (m : Module) (s : Signature) : Except BuildError (FuncId × Module) :=
  m.declareFunction (.defined (.ofSignature s))

/-- Declares a function whose body the host supplies under a symbol. -/
def declareExternal (m : Module) (s : Signature) (symbol : String) :
    Except BuildError (FuncId × Module) :=
  m.declareFunction (.external ⟨s, symbol⟩)

/-- Registers an aggregate. -/
def defineStruct (m : Module) (size align : UInt32) : Except BuildError (Ty × Module) :=
  match m.types.define size align with
  | .error e => .error (.invalidType e)
  | .ok (t, types) => .ok (t, { m with types })

end Module

end RegIR
