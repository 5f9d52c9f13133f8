import RegIR.X64.Convention
/-!
# Entry frames

The frame of an entry stub lies below the saved frame pointer.  It holds the return slot, one
slot for the value of each argument, and an array of pointers to those slots.

    rbp + 16 + k       stack arguments
    rbp + 8            return address
    rbp                saved frame pointer
    rbp - 8            return slot
    rbp - 16 - 8 i     value of argument i
    rbp - 8 - 16 n     array of n pointers, number i at 8 i
-/

namespace RegIR.X64

structure EntryFrame where
  args : List Assignment
  ret : Assignment
  deriving DecidableEq, Repr, Inhabited

namespace EntryFrame

/-- Places the arguments and the result of a signature.  The assigner starts afresh. -/
def plan (args : List (UInt32 × UInt32)) (ret : UInt32 × UInt32) : EntryFrame × Assigner :=
  let (places, a) := Assigner.empty.assignArgs args
  let (result, a) := a.assignRet ret.1 ret.2
  (⟨places, result⟩, a)

/-- The bytes below the frame pointer, in units of sixteen. -/
def frameSize (f : EntryFrame) : UInt32 := alignTo (8 + 16 * UInt32.ofNat f.args.length) 16

/-- Where the result is returned, from the frame pointer. -/
def retSlot : Int32 := -8

/-- Where the value of an argument is kept, from the frame pointer. -/
def valueOffset (i : Nat) : Int32 := -16 - 8 * Int32.ofNat i

/-- Where the array of pointers starts, from the frame pointer. -/
def pointerArrayOffset (f : EntryFrame) : Int32 := -8 - 16 * Int32.ofNat f.args.length

/-- Where a stack argument arrives, from the frame pointer. -/
def incomingOffset (stackOffset : Int32) : Int32 := 16 + stackOffset

end EntryFrame

end RegIR.X64
