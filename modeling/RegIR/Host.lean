import RegIR.Machine.Run
import RegIR.Text.Quoted
/-!
# Hosts

External functions get their bodies from a host, under their symbols.  A host function sees its
integer arguments.  It may enter programs through native entry points, look at the fault that
the last entry left, answer with an integer, or fail.
-/

namespace RegIR

mutual

/-- What a host function does. -/
inductive HostAction where
  | value (v : Int32)
  | panic (p : Panic)
  /-- Calls a native entry point, and goes on with its result. -/
  | native (entry : NativeEntry) (args : List Int32) (next : Int32 → HostAction)
  /-- Takes the fault of the last native call, if it left one, and goes on. -/
  | takeFault (next : Option Fault → HostAction)

/-- The host functions, each under its symbol. -/
inductive HostTable where
  | empty
  | bind (symbol : String) (body : List Int32 → HostAction) (rest : HostTable)

/-- A native entry point: a defined function of a program that takes and returns integers, with
the settings and the host functions of its calls. -/
inductive NativeEntry where
  | mk (program : Program) (func : FuncId) (signature : Signature) (config : Config)
    (hosts : HostTable)

end

/-- The body of a host function. -/
abbrev HostFunction := List Int32 → HostAction

namespace HostTable

/-- The function bound to a symbol. -/
def get? : HostTable → String → Option HostFunction
  | empty, _ => none
  | bind s f rest, symbol => if s = symbol then some f else rest.get? symbol

def contains (t : HostTable) (symbol : String) : Bool := (t.get? symbol).isSome

/-- Forgets a symbol. -/
def erase : HostTable → String → HostTable
  | empty, _ => empty
  | bind s f rest, symbol =>
    if s = symbol then rest.erase symbol else bind s f (rest.erase symbol)

/-- Binds a symbol, in place of an earlier function of that symbol. -/
def insert (t : HostTable) (symbol : String) (f : HostFunction) : HostTable :=
  bind symbol f (t.erase symbol)

/-- The bound symbols. -/
def symbols : HostTable → List String
  | empty => []
  | bind s _ rest => s :: rest.symbols

/-- The bound symbols as a set in braces. -/
def text (t : HostTable) : String :=
  "\x7b" ++ String.intercalate ", " (t.symbols.map Quoted.encode) ++ "\x7d"

end HostTable

namespace NativeEntry

def program : NativeEntry → Program
  | mk p _ _ _ _ => p

def func : NativeEntry → FuncId
  | mk _ f _ _ _ => f

def signature : NativeEntry → Signature
  | mk _ _ s _ _ => s

def config : NativeEntry → Config
  | mk _ _ _ c _ => c

def hosts : NativeEntry → HostTable
  | mk _ _ _ _ h => h

/-- The number of integers that the entry point takes. -/
def arity (e : NativeEntry) : Nat := e.signature.args.length

end NativeEntry

/-- Runs the action of a host function, given what a native call does.  The state is the slot
that holds the fault of the last native call. -/
def HostAction.perform
    (call : NativeEntry → List Int32 → Option Fault → Option (Int32 × Option Fault)) :
    HostAction → Option Fault → Option (Answer × Option Fault)
  | .value v, slot => some (.value v, slot)
  | .panic p, slot => some (.panic p, slot)
  | .native entry args next, slot =>
    match call entry args slot with
    | none => none
    | some (v, slot) => (next v).perform call slot
  | .takeFault next, slot => (next slot).perform call none

end RegIR
