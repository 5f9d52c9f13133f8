import RegIR.Function.Dominance
/-!
# Well-formed functions

A function is well-formed when it has a block, every block ends in its only terminator, every
branch leads to a block, and every register that a reachable block reads is defined earlier in
the block or in a block that dominates it.
-/

namespace RegIR

/-- The first flaw of a function or module. -/
inductive ValidationError where
  | emptyFunction (function : String)
  | missingTerminator (function : String) (block : BlockId)
  | terminatorNotLast (function : String) (block : BlockId)
  | branchTargetOutOfRange (function : String) (block target : BlockId)
  | frameTooLarge (function : String)
  | useNotDominated (function : String) (block : BlockId) (reg : Reg)
  deriving DecidableEq, Repr

namespace ValidationError

def message : ValidationError → String
  | emptyFunction function => s!"function `{function}` has no blocks"
  | missingTerminator function block =>
    s!"{block.name} in `{function}` does not end in a terminator"
  | terminatorNotLast function block =>
    s!"{block.name} in `{function}` has a terminator before its last instruction"
  | branchTargetOutOfRange function block target =>
    s!"{block.name} in `{function}` branches to missing {target.name}"
  | frameTooLarge function => s!"frame or argument block of `{function}` exceeds 4 GiB"
  | useNotDominated function block reg =>
    s!"{reg.name} used in {block.name} of `{function}` is not defined on every path"

end ValidationError

namespace Definition

/-- The block and the position of the last operation that defines each register. -/
def definitionSites (f : Definition) : Array (Option (Nat × Nat)) :=
  f.blocks.zipIdx.foldl (fun sites (block, b) =>
    block.zipIdx.foldl (fun sites (op, i) =>
      match op.target? with
      | none => sites
      | some r => sites.setIfInBounds r.index (some (b, i))) sites)
    (Array.replicate f.regTypes.size none)

/-- What is wrong with the shape of one block. -/
def shapeFlaw? (f : Definition) (block : Block) (b : BlockId) : Option ValidationError :=
  match block.back? with
  | none => some (.missingTerminator f.name b)
  | some last =>
    if !last.isTerminator then some (.missingTerminator f.name b)
    else if block.pop.any Operation.isTerminator then some (.terminatorNotLast f.name b)
    else
      (last.successors.find? fun t => !(t.index < f.blocks.size)).map
        (.branchTargetOutOfRange f.name b)

/-- The definition at `site` comes before position `i` of block `b` on every path, given the
dominators of the block. -/
def definedBefore (dominators : Array Bool) (site : Option (Nat × Nat)) (b i : Nat) : Bool :=
  match site with
  | none => false
  | some (db, di) => if db = b then di < i else dominators[db]?.getD false

/-- The first register that a block reads without a definition before it. -/
def undefinedUse? (dominators : Array Bool) (sites : Array (Option (Nat × Nat)))
    (block : Block) (b : Nat) : Option Reg :=
  block.toList.zipIdx.findSome? fun (op, i) =>
    op.uses.find? fun r => !definedBefore dominators (sites[r.index]?.getD none) b i

/-- The first use that is not dominated by its definition. -/
def dominanceFlaw? (f : Definition) : Option ValidationError :=
  let sites := f.definitionSites
  let dominators := f.graph.dominators
  f.blocks.toList.zipIdx.findSome? fun (block, b) =>
    match dominators[b]?.getD none with
    | none => none
    | some row => (undefinedUse? row sites block b).map (.useNotDominated f.name ⟨b⟩)

/-- The first flaw of a function: of its shape, then of its data flow. -/
def flaw? (f : Definition) : Option ValidationError :=
  if f.blocks.isEmpty then some (.emptyFunction f.name)
  else
    match f.blocks.toList.zipIdx.findSome? fun (block, b) => f.shapeFlaw? block ⟨b⟩ with
    | some e => some e
    | none => f.dominanceFlaw?

/-- Accepts the well-formed functions. -/
def validate (f : Definition) : Except ValidationError Unit :=
  match f.flaw? with
  | some e => .error e
  | none => .ok ()

end Definition

end RegIR
