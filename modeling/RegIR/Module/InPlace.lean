import RegIR.Module.Script
/-!
# Construction in place

The steps of construction as changes to one module where it stands, each made as soon as it is
reached.  A failure takes nothing back: what a step has changed before it fails stays changed.  The
module keeps its symbol table and the number of the next aggregate beside its functions.
-/

namespace RegIR

/-- A step that changes a state where it stands, whether it succeeds or fails. -/
abbrev InPlace (σ : Type) := ExceptT BuildError (StateM σ)

namespace InPlace

variable {σ α : Type}

/-- Looks at the state and goes on or fails. -/
def check (f : σ → Except BuildError α) : InPlace σ α := fun s => (f s, s)

/-- Looks at the state. -/
def look (f : σ → α) : InPlace σ α := fun s => (.ok (f s), s)

/-- Changes the state. -/
def change (f : σ → σ) : InPlace σ Unit := fun s => (.ok (), f s)

end InPlace

/-! ## Function bodies -/

namespace Builder.InPlace

open RegIR.InPlace

def addRegister (t : Ty) (b : Builder) : Builder :=
  { b with body := { b.body with regTypes := b.body.regTypes.push t } }

def addSlot (t : Ty) (b : Builder) : Builder :=
  { b with body := { b.body with slotTypes := b.body.slotTypes.push t } }

def addBlock (b : Builder) : Builder :=
  { b with body := { b.body with blocks := b.body.blocks.push #[] } }

def setCurrent (block : BlockId) (b : Builder) : Builder := { b with current := some block }

/-- Makes a register, then appends the operation that defines it. -/
def appendValue (block : BlockId) (t : Ty) (op : Reg → Operation) : InPlace Builder Reg := do
  let r ← look fun b => ⟨b.body.regTypes.size⟩
  change (addRegister t)
  change (·.append block (op r))
  return r

def openBlock : InPlace Builder BlockId := do
  change addBlock
  let block ← look fun b => ⟨b.body.blocks.size - 1⟩
  change (setCurrent block)
  return block

def switchTo (block : BlockId) : InPlace Builder Unit := do
  check fun b => if block.index < b.body.blocks.size then .ok () else .error (.unknownBlock block)
  change (setCurrent block)

def readArg (index : Nat) : InPlace Builder Reg := do
  let block ← check openedBlock
  let t ← check fun b =>
    match b.body.signature.args[index]? with
    | none => .error (.argumentIndexOutOfRange index b.body.signature.args.length)
    | some t => .ok t
  appendValue block t (.readArg · index)

def literal (value : Int32) : InPlace Builder Reg := do
  let block ← check openedBlock
  appendValue block .int (.literal · value)

def unary (op : UnaryOp) (operand : Reg) : InPlace Builder Reg := do
  let block ← check openedBlock
  check (·.expectType operand .int)
  appendValue block .int (.unary · op operand)

def binary (op : BinaryOp) (lhs rhs : Reg) : InPlace Builder Reg := do
  let block ← check openedBlock
  check (·.expectType lhs .int)
  check (·.expectType rhs .int)
  appendValue block .int (.binary · op lhs rhs)

def call (callee : FuncId) (args : List Reg) : InPlace Builder Reg := do
  let block ← check openedBlock
  let s ← check fun b =>
    match b.module.function? callee with
    | none => .error (.unknownFunction callee.index)
    | some f => .ok f.signature
  check fun _ =>
    if args.length ≠ s.args.length then .error (.callArity s.name s.args.length args.length)
    else .ok ()
  check (·.checkArgs s.name 0 args s.args)
  appendValue block s.ret (.call · callee args)

def stackAlloc (t : Ty) : InPlace Builder Reg := do
  let block ← check openedBlock
  let slot ← look fun b => ⟨b.body.slotTypes.size⟩
  change (addSlot t)
  appendValue block .pointer (.stackAlloc · slot)

def load (pointer : Reg) (t : Ty) : InPlace Builder Reg := do
  let block ← check openedBlock
  check (·.expectType pointer .pointer)
  appendValue block t (.load · pointer)

def store (pointer source : Reg) : InPlace Builder Unit := do
  let block ← check openedBlock
  check (·.expectType pointer .pointer)
  let _ ← check (·.typeOf source)
  change (·.append block (.store pointer source))

def branch (target : BlockId) : InPlace Builder Unit := do
  let block ← check openedBlock
  change (·.append block (.branch target))

def condBranch (test : Reg) (thenBlock elseBlock : BlockId) : InPlace Builder Unit := do
  let block ← check openedBlock
  check (·.expectType test .int)
  change (·.append block (.condBranch test thenBlock elseBlock))

def ret (value : Reg) : InPlace Builder Unit := do
  let block ← check openedBlock
  let found ← check (·.typeOf value)
  check fun b =>
    if found.compatible b.body.signature.ret then .ok ()
    else .error (.returnTypeMismatch value b.body.signature.ret found)
  change (·.append block (.ret value))

end Builder.InPlace

/-- Performs one step on the body in place. -/
def Builder.Step.inPlace : Builder.Step → InPlace Builder Reply
  | openBlock => .block <$> InPlace.openBlock
  | switchTo block => (fun _ => .done) <$> InPlace.switchTo block
  | readArg index => .reg <$> InPlace.readArg index
  | literal value => .reg <$> InPlace.literal value
  | unary op operand => .reg <$> InPlace.unary op operand
  | binary op lhs rhs => .reg <$> InPlace.binary op lhs rhs
  | call callee args => .reg <$> InPlace.call callee args
  | stackAlloc t => .reg <$> InPlace.stackAlloc t
  | load pointer t => .reg <$> InPlace.load pointer t
  | store pointer source => (fun _ => .done) <$> InPlace.store pointer source
  | branch target => (fun _ => .done) <$> InPlace.branch target
  | condBranch test thenBlock elseBlock =>
    (fun _ => .done) <$> InPlace.condBranch test thenBlock elseBlock
  | ret value => (fun _ => .done) <$> InPlace.ret value

/-! ## Modules -/

/-- A module where it stands, and the builder that is open on it. -/
structure Workbench where
  functions : Array Function
  /-- The number of each name. -/
  symbols : List (String × FuncId)
  types : Array Ty
  /-- The number of the next aggregate. -/
  nextId : Nat
  selected : Option (FuncId × Option BlockId)
  deriving DecidableEq, Repr

namespace Workbench

open InPlace

def empty : Workbench := ⟨#[], [], #[], 1, none⟩

/-- What is left without the tables. -/
def draft (s : Workbench) : Draft := ⟨⟨s.functions, ⟨s.types⟩⟩, s.selected⟩

def addFunction (f : Function) (s : Workbench) : Workbench :=
  { s with functions := s.functions.push f }

def addSymbol (name : String) (f : FuncId) (s : Workbench) : Workbench :=
  { s with symbols := (name, f) :: s.symbols }

def addType (t : Ty) (s : Workbench) : Workbench := { s with types := s.types.push t }

def countType (s : Workbench) : Workbench := { s with nextId := s.nextId + 1 }

def select (f : FuncId) (current : Option BlockId) (s : Workbench) : Workbench :=
  { s with selected := some (f, current) }

/-- Puts the body of a builder back. -/
def putBack (s : Workbench) (b : Builder) : Workbench :=
  { s with functions := b.close.functions, selected := some (b.id, b.current) }

/-- Adds a function, then its name. -/
def insert (f : Function) : InPlace Workbench FuncId := do
  check fun s =>
    if (s.symbols.lookup f.name).isSome then .error (.duplicateSymbol f.name) else .ok ()
  let id ← look fun s => ⟨s.functions.size⟩
  change (addFunction f)
  change (addSymbol f.name id)
  return id

/-- Counts an aggregate, then adds it. -/
def defineStruct (size align : UInt32) : InPlace Workbench Ty := do
  let k ← check fun _ =>
    match Registry.log2? align with
    | none => .error (.invalidType (.alignmentNotPowerOfTwo align))
    | some k => .ok k
  check fun _ =>
    if size % align ≠ 0 then .error (.invalidType (.sizeNotMultipleOfAlignment size align))
    else .ok ()
  check fun _ =>
    if size > maxStructSize then .error (.invalidType (.tooLarge size)) else .ok ()
  let t ← look fun s => ⟨.struct s.nextId, size, k⟩
  change countType
  change (addType t)
  return t

/-- Opens a builder without a block, then goes to the end of the last block if there is one. -/
def openBuilder (f : FuncId) : InPlace Workbench Unit := do
  let d ← check fun s =>
    match s.functions[f.index]? with
    | none => .error (.unknownFunction f.index)
    | some (.external e) => .error (.notDefined e.signature.name)
    | some (.defined d) => .ok d
  change (select f none)
  if 0 < d.blocks.size then change (select f (some ⟨d.blocks.size - 1⟩))

/-- Works on the body of the open builder.  What has been done to it is done to the module, also when
it ends in a failure. -/
def onBody {α : Type} (x : InPlace Builder α) : InPlace Workbench α := fun s =>
  match s.draft.builder? with
  | none => (.error .noFunctionSelected, s)
  | some b =>
    let (r, b) := x b
    (r, s.putBack b)

end Workbench

/-- Performs one step in place. -/
def Draft.Step.inPlace : Draft.Step → InPlace Workbench Reply
  | defineStruct size align => .type <$> Workbench.defineStruct size align
  | declare s => .function <$> Workbench.insert (.defined (.ofSignature s))
  | declareExternal s symbol => .function <$> Workbench.insert (.external ⟨s, symbol⟩)
  | select f => (fun _ => .done) <$> Workbench.openBuilder f
  | body step => Workbench.onBody step.inPlace

/-- Performs a script in place: the answer to each step, and the module at the end. -/
def Workbench.run (s : Workbench) : List Draft.Step → List (Except BuildError Reply) × Workbench
  | [] => ([], s)
  | step :: steps =>
    let (reply, s) := step.inPlace s
    let (replies, s) := s.run steps
    (reply :: replies, s)

end RegIR
