import RegIR.Machine.State
/-!
# Registers on the stack

A register is an extent of its activation's frame.  Integers and pointers are read from the
bytes at its start.
-/

namespace RegIR.Machine

namespace Activation

def registerFault (a : Activation) (r : Reg) : Halt := .fault (.registerOutOfRange a.name r)

/-- Where a register starts on the stack, and its size. -/
@[inline] def extent (a : Activation) (r : Reg) : Exec Extent :=
  match a.code.frame.regExtent? r with
  | none => .error (a.registerFault r)
  | some e => .ok ⟨a.frameBase + e.start, e.size⟩

@[inline] def typeOf (a : Activation) (r : Reg) : Exec Ty :=
  match a.code.definition.regType? r with
  | none => .error (a.registerFault r)
  | some t => .ok t

/-- The integer in a register. -/
@[inline] def readInt (a : Activation) (stack : Memory) (r : Reg) : Exec Int32 := do
  let e ← a.extent r
  match stack.word32? e.start with
  | none => .error (a.registerFault r)
  | some w => .ok w.toInt32

/-- Replaces the integer in a register. -/
@[inline] def writeInt (a : Activation) (stack : Memory) (r : Reg) (v : Int32) : Exec Memory := do
  let e ← a.extent r
  match stack.setWord32? e.start v.toUInt32 with
  | none => .error (a.registerFault r)
  | some stack => .ok stack

/-- The address in a register. -/
def readPointer (a : Activation) (stack : Memory) (r : Reg) : Exec UInt64 := do
  let e ← a.extent r
  match stack.word64? e.start with
  | none => .error (a.registerFault r)
  | some w => .ok w

/-- The integers in a list of registers. -/
def readInts (a : Activation) (stack : Memory) : List Reg → Exec (List Int32)
  | [] => .ok []
  | r :: rs => do
    let v ← a.readInt stack r
    let vs ← a.readInts stack rs
    .ok (v :: vs)

end Activation

end RegIR.Machine
