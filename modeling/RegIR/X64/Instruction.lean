import RegIR.X64.Register
/-!
# Instructions

The instructions of entry stubs, over a type of register names, and the code of each over the
general-purpose registers.  Every instruction takes its shortest form, except that a 64-bit
immediate is always written in full.
-/

namespace RegIR.X64

inductive Instruction (ρ : Type) where
  | push (r : ρ)
  | pop (r : ρ)
  | mov (dst src : ρ)
  | movImm (dst : ρ) (imm : Int64)
  | subImm (dst : ρ) (imm : Int32)
  /-- Loads 32 bits and clears the high half of the destination. -/
  | load32 (dst base : ρ) (offset : Int32)
  | store32 (base : ρ) (offset : Int32) (src : ρ)
  | storeImm32 (base : ρ) (offset imm : Int32)
  | store64 (base : ρ) (offset : Int32) (src : ρ)
  | lea (dst base : ρ) (offset : Int32)
  | call (r : ρ)
  | ret
  deriving DecidableEq, Repr, Inhabited

namespace Instruction

/-! ## Parts of a code -/

/-- The four bytes of an immediate, low byte first. -/
def imm32 (v : Int32) : List UInt8 :=
  let w := v.toUInt32
  [w.toUInt8, (w >>> 8).toUInt8, (w >>> 16).toUInt8, (w >>> 24).toUInt8]

/-- The eight bytes of an immediate, low byte first. -/
def imm64 (v : Int64) : List UInt8 :=
  let w := v.toUInt64
  [w.toUInt8, (w >>> 8).toUInt8, (w >>> 16).toUInt8, (w >>> 24).toUInt8,
    (w >>> 32).toUInt8, (w >>> 40).toUInt8, (w >>> 48).toUInt8, (w >>> 56).toUInt8]

/-- A signed byte holds the value. -/
def fitsByte (v : Int32) : Bool := -128 ≤ v.toInt && v.toInt ≤ 127

def imm8 (v : Int32) : List UInt8 := [v.toUInt32.toUInt8]

/-- The prefix byte with the operand width and the high bits of the two register fields. -/
def rex (wide reg rm : Bool) : UInt8 :=
  0x40 ||| (if wide then 8 else 0) ||| (if reg then 4 else 0) ||| (if rm then 1 else 0)

/-- The prefix byte, where an operand needs it. -/
def rex? (reg rm : Bool) : List UInt8 := if reg || rm then [rex false reg rm] else []

/-- The byte that names the operands: an addressing mode and two register fields. -/
def modRm (mode reg rm : UInt8) : UInt8 := mode <<< 6 ||| reg <<< 3 ||| rm

/-- An operand in memory.  The fields that would mean rsp or rbp stand for other forms: rsp and
r12 as base need an index byte, and rbp and r13 a displacement even when it is zero. -/
def memory (reg : UInt8) (base : Gp) (offset : Int32) : List UInt8 :=
  let index : List UInt8 := if base.low = 4 then [0x24] else []
  if offset = 0 ∧ base.low ≠ 5 then modRm 0 reg base.low :: index
  else if fitsByte offset then modRm 1 reg base.low :: index ++ imm8 offset
  else modRm 2 reg base.low :: index ++ imm32 offset

/-! ## Codes -/

/-- The code of an instruction. -/
def encode : Instruction Gp → List UInt8
  | push r => rex? false r.high ++ [0x50 + r.low]
  | pop r => rex? false r.high ++ [0x58 + r.low]
  | mov dst src => [rex true src.high dst.high, 0x89, modRm 3 src.low dst.low]
  | movImm dst imm => [rex true false dst.high, 0xB8 + dst.low] ++ imm64 imm
  | subImm dst imm =>
    if fitsByte imm then [rex true false dst.high, 0x83, modRm 3 5 dst.low] ++ imm8 imm
    else if dst = Gp.rax then [rex true false false, 0x2D] ++ imm32 imm
    else [rex true false dst.high, 0x81, modRm 3 5 dst.low] ++ imm32 imm
  | load32 dst base offset =>
    rex? dst.high base.high ++ [0x8B] ++ memory dst.low base offset
  | store32 base offset src =>
    rex? src.high base.high ++ [0x89] ++ memory src.low base offset
  | storeImm32 base offset imm =>
    rex? false base.high ++ [0xC7] ++ memory 0 base offset ++ imm32 imm
  | store64 base offset src =>
    [rex true src.high base.high, 0x89] ++ memory src.low base offset
  | lea dst base offset => [rex true dst.high base.high, 0x8D] ++ memory dst.low base offset
  | call r => rex? false r.high ++ [0xFF, modRm 3 2 r.low]
  | ret => [0xC3]

end Instruction

/-- The code of a list of instructions. -/
def encodeAll (code : List (Instruction Gp)) : List UInt8 := code.flatMap Instruction.encode

end RegIR.X64
