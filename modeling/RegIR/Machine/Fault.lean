import RegIR.Operation
import RegIR.Ty
/-!
# Faults

A fault ends an invocation and every call in it.
-/

namespace RegIR

inductive Fault where
  | notDefined (function : String)
  | argumentCount (function : String) (expected found : Nat)
  | argumentSize (function : String) (index expected found : Nat)
  | returnSlotSize (function : String) (expected found : Nat)
  | registerOutOfRange (function : String) (reg : Reg)
  | missingTerminator (function : String) (block : BlockId)
  | divisionByZero (function : String)
  | callDepthExceeded (limit : Nat)
  | invalidPointer (address : UInt64) (size : UInt32)
  | danglingPointer (function : String)
  | pointerEscape (function : String)
  | accessTypeMismatch (function : String) (address : UInt64) (expected found : Ty)
  | unboundExternal (symbol : String)
  | unsupportedExternalSignature (symbol : String)
  | hostPanic (message : String)
  deriving DecidableEq, Repr

namespace Fault

/-- An address in lower-case hexadecimal digits behind `0x`. -/
def addressText (a : UInt64) : String := "0x" ++ String.ofList (Nat.toDigits 16 a.toNat)

def message : Fault → String
  | notDefined function => s!"`{function}` is not a defined function"
  | argumentCount function expected found =>
    s!"`{function}` expects {expected} arguments, got {found}"
  | argumentSize function index expected found =>
    s!"argument {index} of `{function}` must be {expected} bytes, got {found}"
  | returnSlotSize function expected found =>
    s!"return slot for `{function}` must be {expected} bytes, got {found}"
  | registerOutOfRange function reg => s!"register {reg.name} out of range in `{function}`"
  | missingTerminator function block => s!"fell off the end of {block.name} in `{function}`"
  | divisionByZero function => s!"division by zero in `{function}`"
  | callDepthExceeded limit => s!"call depth limit of {limit} exceeded"
  | invalidPointer address size =>
    s!"invalid pointer {addressText address} for a {size.toNat}-byte access"
  | danglingPointer function => s!"`{function}` returned a pointer into its own frame"
  | pointerEscape function =>
    s!"`{function}` stored a pointer into a frame older than the one it points to"
  | accessTypeMismatch function address expected found =>
    s!"`{function}` accessed a {expected.name} slot at {addressText address} as {found.name}"
  | unboundExternal symbol => s!"external function `{symbol}` has no host binding"
  | unsupportedExternalSignature symbol =>
    s!"external function `{symbol}` must take and return i32 values"
  | hostPanic message => s!"host code panicked: {message}"

end Fault

end RegIR
