import RegIR.Machine.Pointer
/-!
# Owners by halving

The frames of the live activations start at increasing offsets.  So the owner of an offset can be
found by halving: it is the last activation whose frame starts at or below the offset, if the
offset lies in that frame.  An empty frame may start where the next one does.
-/

namespace RegIR.Machine

/-- The first number from `lo` on and before `hi` at which a test fails, if it fails from there on. -/
def firstFailure (test : Nat → Bool) (lo hi : Nat) : Nat :=
  if lo < hi then
    let mid := lo + (hi - lo) / 2
    if test mid then firstFailure test (mid + 1) hi else firstFailure test lo mid
  else lo
termination_by hi - lo

namespace CallStack

/-- The frame of a live activation starts at or below an offset. -/
def startsBelow (c : CallStack) (offset i : Nat) : Bool :=
  match c.activation? i with
  | none => false
  | some a => a.frameBase ≤ offset

/-- The live activation whose frame holds a stack offset, and how many are older. -/
def ownerByHalving? (c : CallStack) (offset : Nat) : Option (Nat × Activation) :=
  match firstFailure (c.startsBelow offset) 0 c.depth with
  | 0 => none
  | i + 1 =>
    match c.activation? i with
    | none => none
    | some a => if offset < a.frameEnd then some (i, a) else none

end CallStack

end RegIR.Machine
