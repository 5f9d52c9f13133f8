import RegIR.Ty
/-!
# Storage layout

A layout places the values of a list of types one after the other.  Each starts at the end of
the one before, rounded up to its own alignment.  Offsets are 32-bit words, and a list of types
that would run past the last of them has no layout.
-/

namespace RegIR

/-- Rounds up to a multiple of `mask + 1`, for a mask of low bits; nothing when the sum leaves
the word. -/
def alignUp? (value mask : UInt32) : Option UInt32 :=
  if value.toNat + mask.toNat < UInt32.size then some ((value + mask) &&& ~~~mask) else none

/-- The bytes that one value takes. -/
structure Extent where
  start : Nat
  size : Nat
  deriving DecidableEq, Repr, Inhabited

/-- The first byte behind the value. -/
@[inline] def Extent.stop (e : Extent) : Nat := e.start + e.size

structure Layout where
  extents : Array Extent
  /-- The end of the last value, without padding behind it. -/
  size : UInt32
  /-- The largest alignment of a value. -/
  align : UInt32
  deriving DecidableEq, Repr, Inhabited

namespace Layout

def empty : Layout := ⟨#[], 0, 1⟩

/-- Places one more value. -/
def push? (l : Layout) (t : Ty) : Option Layout :=
  match alignUp? l.size t.alignMask with
  | none => none
  | some start =>
    if start.toNat + t.size.toNat < UInt32.size then
      some ⟨l.extents.push ⟨start.toNat, t.size.toNat⟩, start + t.size, max l.align t.align⟩
    else none

/-- Places the values of a list of types behind those of a layout. -/
def append? (l : Layout) : List Ty → Option Layout
  | [] => some l
  | t :: ts =>
    match l.push? t with
    | none => none
    | some l' => l'.append? ts

/-- The layout of a list of types, if it fits in 2³² bytes. -/
def ofTypes? (ts : List Ty) : Option Layout := empty.append? ts

def length (l : Layout) : Nat := l.extents.size

@[inline] def extent? (l : Layout) (i : Nat) : Option Extent := l.extents[i]?

end Layout

end RegIR
