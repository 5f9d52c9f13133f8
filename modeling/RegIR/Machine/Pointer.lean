import RegIR.Machine.State
/-!
# Pointers

An address is the stack offset of a slot above a base.  It may be used while the frame around it
is live, at the start of a slot, and with a type compatible to the slot's own.
-/

namespace RegIR

/-- The types of the slots of a function that start at an offset of its frame. -/
def Code.slotsAt (c : Code) (offset : Nat) : List Ty :=
  (c.definition.slotTypes.toList.zipIdx.filter fun (_, i) =>
    match c.frame.slotExtent? ⟨i⟩ with
    | none => false
    | some e => e.start == offset).map (·.1)

namespace Machine

/-- The stack offset of an address. -/
def stackOffset? (address : UInt64) : Option Nat :=
  if stackBase ≤ address.toNat then some (address.toNat - stackBase) else none

/-- The address of a stack offset. -/
def addressOf (offset : Nat) : UInt64 := UInt64.ofNat (stackBase + offset)

/-- A slot that an access may use. -/
structure Place where
  offset : Nat
  /-- The number of activations older than the owner of the slot. -/
  depth : Nat
  deriving DecidableEq, Repr

namespace CallStack

/-- Among the `n` oldest waiting activations, the newest whose frame starts at or below an
offset, if the offset lies in its frame. -/
def ownerBelow? (below : Array Suspended) (offset : Nat) : Nat → Option (Nat × Activation)
  | 0 => none
  | n + 1 =>
    match below[n]? with
    | none => none
    | some s =>
      if s.caller.frameBase ≤ offset then
        if offset < s.caller.frameEnd then some (n, s.caller) else none
      else ownerBelow? below offset n

/-- The live activation whose frame holds a stack offset, and how many are older. -/
def ownerOf? (c : CallStack) (offset : Nat) : Option (Nat × Activation) :=
  if c.top.frameBase ≤ offset then
    if offset < c.top.frameEnd then some (c.below.size, c.top) else none
  else ownerBelow? c.below offset c.below.size

/-- Finds the slot at an address for an access with a given type. -/
def resolve (c : CallStack) (address : UInt64) (t : Ty) : Exec Place :=
  match stackOffset? address with
  | none => .error (.fault (.invalidPointer address t.size))
  | some offset =>
    match c.ownerOf? offset with
    | none => .error (.fault (.invalidPointer address t.size))
    | some (depth, owner) =>
      let slots := owner.code.slotsAt (offset - owner.frameBase)
      if slots.any (·.compatible t) then .ok ⟨offset, depth⟩
      else
        match slots.head? with
        | none => .error (.fault (.invalidPointer address t.size))
        | some expected =>
          .error (.fault (.accessTypeMismatch c.top.name address expected t))

/-- An address points into a frame newer than the activation with `depth` older ones. -/
def outlives (c : CallStack) (address : UInt64) (depth : Nat) : Bool :=
  match stackOffset? address with
  | none => false
  | some offset =>
    match c.ownerOf? offset with
    | none => false
    | some (owner, _) => depth < owner

end CallStack

end Machine

end RegIR
