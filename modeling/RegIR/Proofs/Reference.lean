import RegIR.Machine.Fault
import RegIR.Program
/-!
# Evaluation by recursion

Programs on integers have a meaning that mentions no stack.  Every call has its own map from
registers to integers and follows its blocks operation by operation; a call of a defined function
is evaluated by itself, from its argument values to its result.
-/

namespace RegIR

/-- The operations of a block from a position on. -/
def Definition.line (d : Definition) (block pos : Nat) : List Operation :=
  match d.blocks[block]? with
  | none => []
  | some b => b.toList.drop pos

namespace Reference

/-- The host functions by symbol, each a function of its arguments. -/
abbrev Hosts := String → Option (List Int32 → Int32)

/-- A call in progress. -/
structure Call where
  definition : Definition
  args : List Int32
  /-- The registers that have a value. -/
  regs : Reg → Option Int32
  /-- The operations up to the end of the block. -/
  rest : List Operation

namespace Call

/-- A call that has done nothing yet. -/
def start (d : Definition) (args : List Int32) : Call := ⟨d, args, fun _ => none, d.line 0 0⟩

/-- Gives a register its value and goes behind the operation. -/
def define (c : Call) (target : Reg) (v : Int32) : Call :=
  { c with regs := fun r => if r = target then some v else c.regs r, rest := c.rest.tail }

/-- Goes to the start of a block. -/
def jump (c : Call) (b : BlockId) : Call := { c with rest := c.definition.line b.index 0 }

end Call

/-- What the next operation of a call asks for. -/
inductive Move where
  /-- The call goes on by itself. -/
  | go (c : Call)
  /-- The register gets the result of another call. -/
  | enter (callee : Call) (target : Reg)
  /-- The call is over. -/
  | done (r : Except Fault Int32)

/-- The next move of a call.  There is none behind the last operation, for a register without a
value, for a missing argument, block or function, and for an operation on memory. -/
def Call.move? (p : Program) (hosts : Hosts) (c : Call) : Option Move :=
  match c.rest with
  | [] => none
  | .readArg target index :: _ => do
    let v ← c.args[index]?
    return .go (c.define target v)
  | .literal target v :: _ => some (.go (c.define target v))
  | .unary target op operand :: _ => do
    let x ← c.regs operand
    return .go (c.define target (op.eval x))
  | .binary target op lhs rhs :: _ => do
    let l ← c.regs lhs
    let r ← c.regs rhs
    match op.eval? l r with
    | none => return .done (.error (.divisionByZero c.definition.name))
    | some v => return .go (c.define target v)
  | .call target callee args :: _ => do
    let values ← args.mapM c.regs
    match p.function? callee with
    | none => none
    | some (.defined d) => return .enter (.start d values) target
    | some (.external e) =>
      match hosts e.symbol with
      | none => return .done (.error (.unboundExternal e.symbol))
      | some h => return .go (c.define target (h values))
  | .branch b :: _ => some (.go (c.jump b))
  | .condBranch test thenBlock elseBlock :: _ => do
    let x ← c.regs test
    return .go (c.jump (if x ≠ 0 then thenBlock else elseBlock))
  | .ret value :: _ => do
    let v ← c.regs value
    return .done (.ok v)
  | .stackAlloc .. :: _ | .load .. :: _ | .store .. :: _ => none

/-- The call evaluates to an integer or to a fault.  A fault ends every call around it. -/
inductive Evaluates (p : Program) (hosts : Hosts) : Call → Except Fault Int32 → Prop
  | go {c c' : Call} {r : Except Fault Int32} (h : c.move? p hosts = some (.go c'))
      (hrest : Evaluates p hosts c' r) : Evaluates p hosts c r
  | done {c : Call} {r : Except Fault Int32} (h : c.move? p hosts = some (.done r)) :
      Evaluates p hosts c r
  | call {c callee : Call} {target : Reg} {v : Int32} {r : Except Fault Int32}
      (h : c.move? p hosts = some (.enter callee target))
      (hcallee : Evaluates p hosts callee (.ok v))
      (hrest : Evaluates p hosts (c.define target v) r) : Evaluates p hosts c r
  | fault {c callee : Call} {target : Reg} {e : Fault}
      (h : c.move? p hosts = some (.enter callee target))
      (hcallee : Evaluates p hosts callee (.error e)) : Evaluates p hosts c (.error e)

/-- The result of a function on integers.  Only a defined function that gets its number of
arguments is evaluated. -/
inductive Results (p : Program) (hosts : Hosts) (f : FuncId) (args : List Int32) :
    Except Fault Int32 → Prop
  | body {d : Definition} {r : Except Fault Int32} (hd : p.function? f = some (.defined d))
      (hlen : args.length = d.signature.args.length)
      (h : Evaluates p hosts (.start d args) r) : Results p hosts f args r
  | argumentCount {d : Definition} (hd : p.function? f = some (.defined d))
      (hlen : args.length ≠ d.signature.args.length) :
      Results p hosts f args
        (.error (.argumentCount d.name d.signature.args.length args.length))
  | external {e : External} (he : p.function? f = some (.external e)) :
      Results p hosts f args (.error (.notDefined e.signature.name))
  | absent (hnone : p.function? f = none) :
      Results p hosts f args (.error (.notDefined s!"#{f.index}"))

/-- An evaluation goes on as the move of the call says. -/
theorem Evaluates.of_move {p : Program} {hosts : Hosts} {c : Call} {r : Except Fault Int32}
    {move : Move} (hmove : c.move? p hosts = some move) (h : Evaluates p hosts c r) :
    match move with
    | .go c' => Evaluates p hosts c' r
    | .enter callee target =>
      (∃ v, Evaluates p hosts callee (.ok v) ∧ Evaluates p hosts (c.define target v) r) ∨
        ∃ e, Evaluates p hosts callee (.error e) ∧ r = .error e
    | .done r' => r' = r := by
  cases h with
  | go h hrest =>
    rw [hmove] at h
    cases h
    exact hrest
  | done h =>
    rw [hmove] at h
    cases h
    rfl
  | call h hcallee hrest =>
    rw [hmove] at h
    cases h
    exact Or.inl ⟨_, hcallee, hrest⟩
  | fault h hcallee =>
    rw [hmove] at h
    cases h
    exact Or.inr ⟨_, hcallee, rfl⟩

/-- A call has at most one result. -/
theorem Evaluates.unique {p : Program} {hosts : Hosts} {c : Call} {r r' : Except Fault Int32}
    (h : Evaluates p hosts c r) (h' : Evaluates p hosts c r') : r = r' := by
  -- Along the first evaluation; the second one makes the same moves.
  induction h generalizing r' with
  | go hmove _ ih => exact ih (h'.of_move hmove)
  | done hmove => exact h'.of_move hmove
  | call hmove _ _ ihcallee ihrest =>
    rcases h'.of_move hmove with ⟨v, hcallee, hrest⟩ | ⟨e, hcallee, -⟩
    · cases ihcallee hcallee
      exact ihrest hrest
    · cases ihcallee hcallee
  | fault hmove _ ih =>
    rcases h'.of_move hmove with ⟨v, hcallee, -⟩ | ⟨e, hcallee, rfl⟩
    · cases ih hcallee
    · exact ih hcallee

end Reference

end RegIR
