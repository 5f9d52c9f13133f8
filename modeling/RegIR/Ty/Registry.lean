import RegIR.Ty
/-!
# Registered aggregates

A registry numbers the aggregates of one module from 1, in order of definition.  It accepts a
size and an alignment when the alignment is a power of two, the size is a multiple of it, and
the size is at most 16 MiB.
-/

namespace RegIR

/-- Why an aggregate was refused. -/
inductive TypeError where
  | alignmentNotPowerOfTwo (align : UInt32)
  | sizeNotMultipleOfAlignment (size align : UInt32)
  | tooLarge (size : UInt32)
  deriving DecidableEq, Repr

namespace TypeError

def message : TypeError → String
  | alignmentNotPowerOfTwo align => s!"alignment {align.toNat} is not a power of two"
  | sizeNotMultipleOfAlignment size align =>
    s!"size {size.toNat} is not a multiple of alignment {align.toNat}"
  | tooLarge size => s!"size {size.toNat} exceeds the 16 MiB limit"

end TypeError

/-- The largest size of an aggregate, 16 MiB. -/
def maxStructSize : UInt32 := 16777216

/-- The aggregates defined so far, in order: the one at index `i` has the number `i + 1`. -/
structure Registry where
  defined : Array Ty
  deriving DecidableEq, Repr, Inhabited

namespace Registry

def empty : Registry := ⟨#[]⟩

/-- The number that the next aggregate receives. -/
def nextId (r : Registry) : Nat := r.defined.size + 1

/-- The exponent of a power of two. -/
def log2? (align : UInt32) : Option (Fin 32) :=
  (List.finRange 32).find? fun k => powerOfTwo k == align

theorem powerOfTwo_of_log2? {align : UInt32} {k : Fin 32} (h : log2? align = some k) :
    powerOfTwo k = align := by
  simpa using List.find?_some h

/-- Adds an aggregate of the given size and alignment. -/
def define (r : Registry) (size align : UInt32) : Except TypeError (Ty × Registry) :=
  match log2? align with
  | none => .error (.alignmentNotPowerOfTwo align)
  | some k =>
    if size % align ≠ 0 then .error (.sizeNotMultipleOfAlignment size align)
    else if size > maxStructSize then .error (.tooLarge size)
    else
      let t : Ty := ⟨.struct r.nextId, size, k⟩
      .ok (t, ⟨r.defined.push t⟩)

end Registry

end RegIR
