import RegIR.Interpreter
import RegIR.X64.EntryStub
/-!
# Native entry points

An entry point exists for every defined function that takes and returns integers.  It may be
called with its number of arguments; the checked call also reports the fault, and takes eight
arguments at most.
-/

namespace RegIR

/-- The place of a type in a signature. -/
inductive Position where
  | argument (index : Nat)
  | result
  deriving DecidableEq, Repr

def Position.name : Position → String
  | argument index => s!"argument {index}"
  | result => "return"

/-- Why there is no entry point, or why it cannot be called. -/
inductive EntryError where
  | notDefined (function : String)
  | unsupportedType (function : String) (position : Position) (t : Ty)
  | unsupportedArity (count : Nat)
  deriving DecidableEq, Repr

def EntryError.message : EntryError → String
  | notDefined function => s!"`{function}` is not a defined function"
  | unsupportedType function position t =>
    s!"`{function}`: {position.name} type {t.name} has no native representation"
  | unsupportedArity count =>
    s!"cannot call a {count}-argument stub through `invoke`; use `cast`"

/-- The first type of a signature that is not the integer. -/
def Signature.firstNonInt? (s : Signature) : Option (Position × Ty) :=
  match s.args.zipIdx.find? fun (t, _) => !t.isInt with
  | some (t, i) => some (.argument i, t)
  | none => if s.ret.isInt then none else some (.result, s.ret)

/-- The entry point of a function. -/
def Program.entry (p : Program) (f : FuncId) (config : Config) (hosts : HostTable) :
    Except EntryError NativeEntry :=
  match p.linked? f with
  | none => .error (.notDefined s!"#{f.index}")
  | some (.external e _) => .error (.notDefined e.signature.name)
  | some (.code c) =>
    let s := c.definition.signature
    match s.firstNonInt? with
    | some (position, t) => .error (.unsupportedType s.name position t)
    | none => .ok (.mk p f s config hosts)

namespace NativeEntry

/-- The size and alignment of a value. -/
def storage (t : Ty) : UInt32 × UInt32 := (t.size, t.align)

/-- The frame of the entry point's stub. -/
def frame (e : NativeEntry) : X64.EntryFrame :=
  (X64.EntryFrame.plan (e.signature.args.map storage) (storage e.signature.ret)).1

/-- The machine code of the entry point, for a context and a bridge at given addresses. -/
def machineCode (e : NativeEntry) (context bridge : Int64) : List UInt8 :=
  X64.encodeAll (e.frame.stub context bridge)

/-- Why a checked call failed. -/
inductive CallError where
  | entry (e : EntryError)
  | fault (f : Fault)
  deriving DecidableEq, Repr

def CallError.message : CallError → String
  | entry e => e.message
  | fault f => f.message

/-- The most arguments of a checked call. -/
def maxCheckedArity : Nat := 8

/-- Calls the entry point and takes the fault that it leaves.  A wrong number of arguments is
noticed before the fault slot is touched. -/
def invoke (fuel : Nat) (e : NativeEntry) (args : List Int32) (slot : Option Fault) :
    Option (Except CallError Int32 × Option Fault) :=
  if args.length ≠ e.arity then
    some (.error (.fault (.argumentCount e.signature.name e.arity args.length)), slot)
  else if maxCheckedArity < args.length then
    some (.error (.entry (.unsupportedArity args.length)), none)
  else
    match e.call fuel args none with
    | none => none
    | some (_, some f) => some (.error (.fault f), none)
    | some (v, none) => some (.ok v, none)

end NativeEntry

end RegIR
