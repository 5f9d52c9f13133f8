import RegIR.Module
/-!
# Function bodies

A builder takes the definition of one function out of a module and appends to it.  It makes
registers in the order of construction, one per operation that has a value, and checks the type
of every operand before it appends.  The shape of the control flow is left unchecked, because
a branch may name a block that is opened later.
-/

namespace RegIR

/-- A definition taken out of its module.  The other functions stay in reach for calls. -/
structure Builder where
  module : Module
  id : FuncId
  body : Definition
  /-- The block to which operations are appended. -/
  current : Option BlockId
  deriving DecidableEq, Repr

/-- A step of construction, with a value on success. -/
abbrev Build := StateT Builder (Except BuildError)

/-- Takes out a definition, to go on after its last block. -/
def Module.builder (m : Module) (f : FuncId) : Except BuildError Builder :=
  match m.function? f with
  | none => .error (.unknownFunction f.index)
  | some (.external e) => .error (.notDefined e.signature.name)
  | some (.defined d) =>
    .ok ⟨m, f, d, if d.blocks.isEmpty then none else some ⟨d.blocks.size - 1⟩⟩

namespace Builder

/-- Puts the definition back into the module. -/
def close (b : Builder) : Module :=
  { b.module with functions := b.module.functions.setIfInBounds b.id.index (.defined b.body) }

/-- Appends an empty block and selects it. -/
def openBlock : Build BlockId := fun b =>
  let block : BlockId := ⟨b.body.blocks.size⟩
  .ok (block, { b with
    body := { b.body with blocks := b.body.blocks.push #[] }, current := some block })

/-- Selects an existing block. -/
def switchTo (block : BlockId) : Build Unit := fun b =>
  if block.index < b.body.blocks.size then .ok ((), { b with current := some block })
  else .error (.unknownBlock block)

/-- The selected block. -/
def openedBlock (b : Builder) : Except BuildError BlockId :=
  match b.current with
  | none => .error (.noOpenBlock b.body.name)
  | some block => .ok block

def typeOf (b : Builder) (r : Reg) : Except BuildError Ty :=
  match b.body.regType? r with
  | none => .error (.unknownRegister r)
  | some t => .ok t

def expectType (b : Builder) (r : Reg) (expected : Ty) : Except BuildError Unit := do
  let found ← b.typeOf r
  if found.compatible expected then .ok () else .error (.typeMismatch r expected found)

/-- Appends an operation to a block. -/
def append (b : Builder) (block : BlockId) (op : Operation) : Builder :=
  { b with body := { b.body with blocks := b.body.blocks.modify block.index (·.push op) } }

/-- Appends an operation that defines a new register of the given type. -/
def appendValue (b : Builder) (block : BlockId) (t : Ty) (op : Reg → Operation) : Reg × Builder :=
  let r : Reg := ⟨b.body.regTypes.size⟩
  (r, { b with body := { b.body with
    regTypes := b.body.regTypes.push t
    blocks := b.body.blocks.modify block.index (·.push (op r)) } })

/-- Copies a declared argument into a new register. -/
def readArg (index : Nat) : Build Reg := fun b => do
  let block ← b.openedBlock
  match b.body.signature.args[index]? with
  | none => .error (.argumentIndexOutOfRange index b.body.signature.args.length)
  | some t => .ok (b.appendValue block t (.readArg · index))

def literal (value : Int32) : Build Reg := fun b => do
  let block ← b.openedBlock
  .ok (b.appendValue block .int (.literal · value))

def unary (op : UnaryOp) (operand : Reg) : Build Reg := fun b => do
  let block ← b.openedBlock
  b.expectType operand .int
  .ok (b.appendValue block .int (.unary · op operand))

def binary (op : BinaryOp) (lhs rhs : Reg) : Build Reg := fun b => do
  let block ← b.openedBlock
  b.expectType lhs .int
  b.expectType rhs .int
  .ok (b.appendValue block .int (.binary · op lhs rhs))

/-- Compares the registers of a call with the declared arguments, from a position on. -/
def checkArgs (b : Builder) (callee : String) (position : Nat) :
    List Reg → List Ty → Except BuildError Unit
  | r :: rs, expected :: ts => do
    let found ← b.typeOf r
    if found.compatible expected then b.checkArgs callee (position + 1) rs ts
    else .error (.callArgument callee position r expected found)
  | _, _ => .ok ()

/-- Calls a function of the module; the register receives its result. -/
def call (callee : FuncId) (args : List Reg) : Build Reg := fun b => do
  let block ← b.openedBlock
  match b.module.function? callee with
  | none => .error (.unknownFunction callee.index)
  | some f =>
    let s := f.signature
    if args.length ≠ s.args.length then .error (.callArity s.name s.args.length args.length)
    else
      b.checkArgs s.name 0 args s.args
      .ok (b.appendValue block s.ret (.call · callee args))

/-- Reserves a slot; the register receives its address. -/
def stackAlloc (t : Ty) : Build Reg := fun b => do
  let block ← b.openedBlock
  let slot : SlotId := ⟨b.body.slotTypes.size⟩
  let b' : Builder := { b with body := { b.body with slotTypes := b.body.slotTypes.push t } }
  .ok (b'.appendValue block .pointer (.stackAlloc · slot))

/-- Loads a value of the given type. -/
def load (pointer : Reg) (t : Ty) : Build Reg := fun b => do
  let block ← b.openedBlock
  b.expectType pointer .pointer
  .ok (b.appendValue block t (.load · pointer))

def store (pointer source : Reg) : Build Unit := fun b => do
  let block ← b.openedBlock
  b.expectType pointer .pointer
  let _ ← b.typeOf source
  .ok ((), b.append block (.store pointer source))

def branch (target : BlockId) : Build Unit := fun b => do
  let block ← b.openedBlock
  .ok ((), b.append block (.branch target))

def condBranch (test : Reg) (thenBlock elseBlock : BlockId) : Build Unit := fun b => do
  let block ← b.openedBlock
  b.expectType test .int
  .ok ((), b.append block (.condBranch test thenBlock elseBlock))

def ret (value : Reg) : Build Unit := fun b => do
  let block ← b.openedBlock
  let found ← b.typeOf value
  let expected := b.body.signature.ret
  if found.compatible expected then .ok ((), b.append block (.ret value))
  else .error (.returnTypeMismatch value expected found)

end Builder

end RegIR
