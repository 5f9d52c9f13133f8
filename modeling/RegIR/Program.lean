import RegIR.Function.Validation
import RegIR.Layout.Frame
import RegIR.Module
/-!
# Programs

A program is a module in which every definition is well-formed and every frame and argument
block has a layout.  Its functions keep their numbers and can no longer change.
-/

namespace RegIR

/-- A definition with the layouts of its frame and of its arguments. -/
structure Code where
  definition : Definition
  frame : FrameLayout
  args : Layout
  deriving DecidableEq, Repr, Inhabited

def Code.name (c : Code) : String := c.definition.name

/-- A function that is ready to run. -/
inductive Linked where
  | code (c : Code)
  | external (e : External) (args : Layout)
  deriving DecidableEq, Repr, Inhabited

namespace Linked

def function : Linked → Function
  | code c => .defined c.definition
  | external e _ => .external e

def name (f : Linked) : String := f.function.name

def args : Linked → Layout
  | code c => c.args
  | external _ l => l

def frame? : Linked → Option FrameLayout
  | code c => some c.frame
  | external .. => none

/-- Computes the layouts of one function. -/
def ofFunction (f : Function) : Except ValidationError Linked :=
  match f with
  | .defined d =>
    match FrameLayout.ofDefinition? d, Layout.ofTypes? d.signature.args with
    | some frame, some args => .ok (.code ⟨d, frame, args⟩)
    | _, _ => .error (.frameTooLarge d.name)
  | .external e =>
    match Layout.ofTypes? e.signature.args with
    | some args => .ok (.external e args)
    | none => .error (.frameTooLarge e.signature.name)

end Linked

structure Program where
  functions : Array Linked
  deriving DecidableEq, Repr, Inhabited

namespace Program

def size (p : Program) : Nat := p.functions.size

def linked? (p : Program) (f : FuncId) : Option Linked := p.functions[f.index]?

def function? (p : Program) (f : FuncId) : Option Function := (p.linked? f).map Linked.function

/-- The function of a given name. -/
def lookup? (p : Program) (name : String) : Option FuncId :=
  (p.functions.findIdx? fun f => f.name == name).map FuncId.mk

end Program

namespace Module

/-- The first flaw of the definitions. -/
def flaw? (m : Module) : Option ValidationError :=
  m.functions.toList.findSome? fun
    | .defined d => d.flaw?
    | .external _ => none

/-- Checks every definition, then lays out every function. -/
def finalize (m : Module) : Except ValidationError Program :=
  match m.flaw? with
  | some e => .error e
  | none => (m.functions.mapM Linked.ofFunction).map Program.mk

end Module

end RegIR
