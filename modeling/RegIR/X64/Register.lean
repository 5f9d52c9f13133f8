/-!
# Machine registers

A machine register is named by a bank and a number.  Bank 0 holds the sixteen general-purpose
registers; no other bank is in use.
-/

namespace RegIR.X64

/-- A general-purpose register, by its number in instruction codes. -/
structure Gp where
  number : Fin 16
  deriving DecidableEq, Repr, Inhabited

namespace Gp

def rax : Gp := ⟨0⟩
def rcx : Gp := ⟨1⟩
def rdx : Gp := ⟨2⟩
def rbx : Gp := ⟨3⟩
def rsp : Gp := ⟨4⟩
def rbp : Gp := ⟨5⟩
def rsi : Gp := ⟨6⟩
def rdi : Gp := ⟨7⟩
def r8 : Gp := ⟨8⟩
def r9 : Gp := ⟨9⟩
def r12 : Gp := ⟨12⟩
def r13 : Gp := ⟨13⟩
def r14 : Gp := ⟨14⟩
def r15 : Gp := ⟨15⟩

/-- The names of the 64-bit registers, by number. -/
def names : List String :=
  ["rax", "rcx", "rdx", "rbx", "rsp", "rbp", "rsi", "rdi",
    "r8", "r9", "r10", "r11", "r12", "r13", "r14", "r15"]

def name (r : Gp) : String := names[r.number.val]?.getD "?"

/-- The low three bits of the number, which stand in the instruction code. -/
def low (r : Gp) : UInt8 := UInt8.ofNat (r.number.val % 8)

/-- The high bit of the number, which stands in a code prefix. -/
def high (r : Gp) : Bool := 8 ≤ r.number.val

end Gp

/-- A register of any bank. -/
structure Register where
  bank : Nat
  number : Nat
  deriving DecidableEq, Repr, Inhabited

namespace Register

/-- The general-purpose register that is meant, if any. -/
def gp? (r : Register) : Option Gp :=
  if h : r.bank = 0 ∧ r.number < 16 then some ⟨r.number, h.2⟩ else none

def name (r : Register) : String :=
  match r.gp? with
  | some g => g.name
  | none => "?"

/-- The register belongs to the general-purpose bank. -/
def isGp (r : Register) : Bool := r.bank == 0

end Register

end RegIR.X64
