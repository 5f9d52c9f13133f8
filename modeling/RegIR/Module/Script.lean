import RegIR.Module.Builder
/-!
# Construction scripts

Construction as data: a script lists the steps that declare functions, select one of them, and
append to its body.  A draft is a module together with the place where the next operation goes.
A refused step answers with its cause and leaves the draft as it was.
-/

namespace RegIR

/-- A step on the body of one function. -/
inductive Builder.Step where
  | openBlock
  | switchTo (block : BlockId)
  | readArg (index : Nat)
  | literal (value : Int32)
  | unary (op : UnaryOp) (operand : Reg)
  | binary (op : BinaryOp) (lhs rhs : Reg)
  | call (callee : FuncId) (args : List Reg)
  | stackAlloc (t : Ty)
  | load (pointer : Reg) (t : Ty)
  | store (pointer source : Reg)
  | branch (target : BlockId)
  | condBranch (test : Reg) (thenBlock elseBlock : BlockId)
  | ret (value : Reg)
  deriving DecidableEq, Repr

/-- What a successful step answers. -/
inductive Reply where
  | done
  | block (b : BlockId)
  | reg (r : Reg)
  | function (f : FuncId)
  | type (t : Ty)
  deriving DecidableEq, Repr

/-- Performs one step on the body. -/
def Builder.Step.perform : Builder.Step → Build Reply
  | openBlock => .block <$> Builder.openBlock
  | switchTo block => (fun _ => .done) <$> Builder.switchTo block
  | readArg index => .reg <$> Builder.readArg index
  | literal value => .reg <$> Builder.literal value
  | unary op operand => .reg <$> Builder.unary op operand
  | binary op lhs rhs => .reg <$> Builder.binary op lhs rhs
  | call callee args => .reg <$> Builder.call callee args
  | stackAlloc t => .reg <$> Builder.stackAlloc t
  | load pointer t => .reg <$> Builder.load pointer t
  | store pointer source => (fun _ => .done) <$> Builder.store pointer source
  | branch target => (fun _ => .done) <$> Builder.branch target
  | condBranch test thenBlock elseBlock =>
    (fun _ => .done) <$> Builder.condBranch test thenBlock elseBlock
  | ret value => (fun _ => .done) <$> Builder.ret value

/-- A module, the selected function, and its selected block. -/
structure Draft where
  module : Module
  selected : Option (FuncId × Option BlockId)
  deriving DecidableEq, Repr

namespace Draft

def empty : Draft := ⟨.empty, none⟩

/-- A builder at the selected place. -/
def builder? (d : Draft) : Option Builder :=
  match d.selected with
  | none => none
  | some (f, current) =>
    match d.module.builder f with
    | .error _ => none
    | .ok b => some { b with current }

/-- The draft that a builder leaves. -/
def ofBuilder (b : Builder) : Draft := ⟨b.close, some (b.id, b.current)⟩

/-- A step on a draft. -/
inductive Step where
  | defineStruct (size align : UInt32)
  | declare (s : Signature)
  | declareExternal (s : Signature) (symbol : String)
  /-- Selects a function, at the end of its last block. -/
  | select (f : FuncId)
  | body (step : Builder.Step)
  deriving DecidableEq, Repr

/-- Performs one step on a draft. -/
def Step.perform (step : Step) (d : Draft) : Except BuildError (Reply × Draft) :=
  match step with
  | defineStruct size align =>
    (d.module.defineStruct size align).map fun (t, m) => (.type t, { d with module := m })
  | declare s => (d.module.declare s).map fun (f, m) => (.function f, { d with module := m })
  | declareExternal s symbol =>
    (d.module.declareExternal s symbol).map fun (f, m) => (.function f, { d with module := m })
  | select f => (d.module.builder f).map fun b => (.done, .ofBuilder b)
  | body step =>
    match d.builder? with
    | none => .error .noFunctionSelected
    | some b => (step.perform b).map fun (reply, b') => (reply, .ofBuilder b')

/-- Performs a script: the answer to each step, and the draft at the end. -/
def run (d : Draft) : List Step → List (Except BuildError Reply) × Draft
  | [] => ([], d)
  | step :: steps =>
    match step.perform d with
    | .error e =>
      let (replies, d') := d.run steps
      (.error e :: replies, d')
    | .ok (reply, d₁) =>
      let (replies, d') := d₁.run steps
      (.ok reply :: replies, d')

end Draft

end RegIR
