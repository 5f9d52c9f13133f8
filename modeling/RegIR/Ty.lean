/-!
# Value types

A value is a 32-bit integer, a pointer to a stack slot, or an opaque aggregate of fixed size.
A type pairs the kind of the value with the storage it takes.  Two types are compatible when
their kinds are equal: the kind carries the whole identity, and sizes are never compared.
-/

namespace RegIR

/-- The powers of two that a word holds. -/
def powerOfTwo (k : Fin 32) : UInt32 := (1 : UInt32) <<< UInt32.ofNat k.val

/-- The identity of a type. -/
inductive Kind where
  | int
  | pointer
  | struct (id : Nat)
  deriving DecidableEq, Repr, Inhabited

/-- A kind together with the storage of its values.  The alignment is kept as its logarithm, so
every type is aligned to a power of two. -/
structure Ty where
  kind : Kind
  /-- Bytes that a value occupies. -/
  size : UInt32
  /-- The base-two logarithm of the alignment. -/
  alignLog : Fin 32
  deriving DecidableEq, Repr, Inhabited

namespace Ty

/-- The signed 32-bit integer, the type of all arithmetic. -/
def int : Ty := ⟨.int, 4, 2⟩

/-- The address of a stack slot. -/
def pointer : Ty := ⟨.pointer, 8, 3⟩

/-- Every stack offset of a value is a multiple of its type's alignment. -/
def align (t : Ty) : UInt32 := powerOfTwo t.alignLog

/-- The low bits that an aligned address leaves clear. -/
def alignMask (t : Ty) : UInt32 := t.align - 1

def isInt (t : Ty) : Bool := t.kind == .int

def isPointer (t : Ty) : Bool := t.kind == .pointer

/-- A value of one type may stand where the other is asked for. -/
def compatible (t u : Ty) : Bool := t.kind == u.kind

/-- The number of a type: zero for the integer, the registry's number for an aggregate. -/
def id? (t : Ty) : Option Nat :=
  match t.kind with
  | .int => some 0
  | .pointer => none
  | .struct id => some id

/-- The spelling of a type in listings and messages. -/
def name (t : Ty) : String :=
  match t.kind with
  | .int => "i32"
  | .pointer => "ptr"
  | .struct id => s!"struct.{id}"

theorem align_pos (t : Ty) : 0 < t.align := by
  have h : ∀ k : Fin 32, 0 < powerOfTwo k := by decide
  exact h t.alignLog

theorem compatible_iff {t u : Ty} : t.compatible u = true ↔ t.kind = u.kind := by
  simp [compatible]

theorem isInt_iff {t : Ty} : t.isInt = true ↔ t.kind = .int := by
  simp [isInt]

theorem isPointer_iff {t : Ty} : t.isPointer = true ↔ t.kind = .pointer := by
  simp [isPointer]

end Ty

end RegIR
