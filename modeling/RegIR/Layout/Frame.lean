import RegIR.Function
import RegIR.Layout
/-!
# Frames

The frame of a defined function holds its registers, then its stack slots.
-/

namespace RegIR

structure FrameLayout where
  layout : Layout
  regCount : Nat
  deriving DecidableEq, Repr, Inhabited

namespace FrameLayout

/-- The frame of a function, if it fits in 2³² bytes. -/
def ofDefinition? (d : Definition) : Option FrameLayout :=
  match Layout.ofTypes? (d.regTypes.toList ++ d.slotTypes.toList) with
  | none => none
  | some l => some ⟨l, d.regTypes.size⟩

@[inline] def regExtent? (f : FrameLayout) (r : Reg) : Option Extent :=
  if r.index < f.regCount then f.layout.extent? r.index else none

@[inline] def slotExtent? (f : FrameLayout) (s : SlotId) : Option Extent :=
  f.layout.extent? (f.regCount + s.index)

def size (f : FrameLayout) : Nat := f.layout.size.toNat

end FrameLayout

end RegIR
