/-!
# Code regions

Machine code runs from a region of whole pages: the code, and zero bytes up to the end of its
last page.  There is no region for empty code.
-/

namespace RegIR.X64

def pageSize : Nat := 4096

structure CodeRegion where
  bytes : List UInt8
  deriving DecidableEq, Repr

inductive RegionError where
  | emptyCode
  deriving DecidableEq, Repr

def RegionError.message : RegionError → String
  | emptyCode => "executable memory: cannot create executable region for empty code"

namespace CodeRegion

/-- A region that starts with the given code. -/
def ofCode (code : List UInt8) : Except RegionError CodeRegion :=
  if code.isEmpty then .error .emptyCode
  else
    let size := (code.length + pageSize - 1) / pageSize * pageSize
    .ok ⟨code ++ List.replicate (size - code.length) 0⟩

def length (r : CodeRegion) : Nat := r.bytes.length

/-- The region holds a copy of the code at its start. -/
def startsWith (r : CodeRegion) (code : List UInt8) : Bool := code.isPrefixOf r.bytes

end CodeRegion

end RegIR.X64
