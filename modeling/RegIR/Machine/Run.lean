import RegIR.Machine.Step
/-!
# Runs

An invocation starts from the bytes of its arguments and steps until it ends.  Host functions
may keep a state of their own, which a run passes through.  A run is given a number of steps and
has no result when they do not suffice.
-/

namespace RegIR

/-- A failure outside the rules of the machine, with the text that it carries, if any. -/
structure Panic where
  text : Option String
  deriving DecidableEq, Repr

namespace Panic

def message (p : Panic) : String := p.text.getD "unknown panic"

def ofViolation (v : MemoryViolation) : Panic := ⟨some v.message⟩

end Panic

/-- What a host function answers. -/
inductive Answer where
  | value (v : Int32)
  | panic (p : Panic)
  deriving DecidableEq, Repr

namespace Machine

/-- How an invocation ends. -/
inductive Ending where
  | returned (value : Bytes)
  | fault (f : Fault)
  | panic (p : Panic)

def Ending.ofHalt : Halt → Ending
  | .fault f => .fault f
  | .violation v => .panic (.ofViolation v)

/-- Copies argument bytes into the argument block at `base`, from a position on. -/
def placeArgs (c : Code) (base position : Nat) (args : List Bytes) (types : List Ty)
    (stack : Memory) : Exec Memory :=
  match args, types with
  | bytes :: args, t :: types =>
    if bytes.size ≠ t.size.toNat then
      .error (.fault (.argumentSize c.name position t.size.toNat bytes.size))
    else
      match c.args.extent? position with
      | none => .error (.violation .destination)
      | some dst => do
        let stack ← moved (stack.replace (base + dst.start) bytes)
        placeArgs c base (position + 1) args types stack
  | _, _ => .ok stack

/-- The first state of an invocation: an argument block, and a frame above it. -/
def enter (p : Program) (f : FuncId) (args : List Bytes) (returnSize : Nat) (stats : Stats) :
    Exec State := do
  let c ← codeOf p f
  let s := c.definition.signature
  if args.length ≠ s.args.length then
    .error (.fault (.argumentCount s.name s.args.length args.length))
  else if returnSize ≠ s.ret.size.toNat then
    .error (.fault (.returnSlotSize s.name s.ret.size.toNat returnSize))
  else
    let (argsBase, stack) := reserve .empty c.args.size.toNat c.args.align.toNat
    let stack ← placeArgs c argsBase 0 args s.args stack
    let (a, stack) := startFrame stack c argsBase
    .ok ⟨stack, ⟨a, #[]⟩, stats.reach 1⟩

/-- Steps until the invocation ends.  `perform` runs a host function on its arguments. -/
def run {H σ : Type} (env : Env H) (perform : H → List Int32 → σ → Option (Answer × σ)) :
    Nat → State → σ → Option (Ending × Stats × σ)
  | 0, _, _ => none
  | fuel + 1, s, w =>
    match step env s with
    | .next s => run env perform fuel s w
    | .returned v stats => some (.returned v, stats, w)
    | .halted h stats => some (.ofHalt h, stats, w)
    | .host f args target s =>
      match perform f args w with
      | none => none
      | some (.panic p, w) => some (.panic p, s.stats, w)
      | some (.value v, w) =>
        match s.answer target v with
        | .error h => some (.ofHalt h, s.stats, w)
        | .ok s => run env perform fuel s w

end Machine

end RegIR
