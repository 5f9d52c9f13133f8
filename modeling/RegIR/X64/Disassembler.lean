import RegIR.Memory
import RegIR.X64.Instruction
/-!
# Disassembling

Machine code read back.  A code starts with an opcode, or with a prefix byte that extends it; the
opcode says what follows.  Every length of offset is read, whether or not it is the shortest.  The
codes of other instructions are refused, and so are operands in memory with an index or without a
base register.
-/

namespace RegIR.X64

/-- The register with a high bit and three low bits of its number. -/
def Gp.ofFields (high : Bool) (low : UInt8) : Gp :=
  ⟨⟨(if high then 8 else 0) + low.toNat % 8, by split <;> omega⟩⟩

namespace Disassembler

/-! ## Immediates -/

def readImm8 : List UInt8 → Option (Int32 × List UInt8)
  | b :: rest => some (b.toInt8.toInt32, rest)
  | [] => none

def readImm32 : List UInt8 → Option (Int32 × List UInt8)
  | b₀ :: b₁ :: b₂ :: b₃ :: rest => some ((Bytes.joinWord32 b₀ b₁ b₂ b₃).toInt32, rest)
  | _ => none

def readImm64 : List UInt8 → Option (Int64 × List UInt8)
  | b₀ :: b₁ :: b₂ :: b₃ :: b₄ :: b₅ :: b₆ :: b₇ :: rest =>
    some ((Bytes.joinWord64 (Bytes.joinWord32 b₀ b₁ b₂ b₃)
      (Bytes.joinWord32 b₄ b₅ b₆ b₇)).toInt64, rest)
  | _ => none

/-! ## Prefixes and operands -/

/-- What a prefix byte says: the operand width, and the high bits of the two register fields. -/
structure Extension where
  wide : Bool
  reg : Bool
  rm : Bool
  deriving DecidableEq, Repr

def Extension.none : Extension := ⟨false, false, false⟩

/-- Reads a prefix byte, if there is one.  One that extends an index register is left alone. -/
def readExtension : List UInt8 → Extension × List UInt8
  | b :: rest =>
    if b &&& 0xF2 = 0x40 then (⟨b &&& 8 != 0, b &&& 4 != 0, b &&& 1 != 0⟩, rest)
    else (.none, b :: rest)
  | [] => (.none, [])

/-- What the byte behind an opcode, with the bytes that belong to it, stands for. -/
inductive Operand where
  | register (r : Gp)
  | memory (base : Gp) (offset : Int32)
  deriving DecidableEq, Repr

/-- Reads the index byte that the fields of rsp and r12 need: it must say that there is no index. -/
def readIndex (base : UInt8) (code : List UInt8) : Option (List UInt8) :=
  if base = 4 then
    match code with
    | b :: rest => if b = 0x24 then some rest else none
    | [] => none
  else some code

/-- Reads an offset, whose length the addressing mode says. -/
def readOffset (mode : UInt8) (code : List UInt8) : Option (Int32 × List UInt8) :=
  if mode = 0 then some (0, code) else if mode = 1 then readImm8 code else readImm32 code

/-- Reads an operand, and the field of three bits that stands beside it. -/
def readOperand (e : Extension) : List UInt8 → Option (UInt8 × Operand × List UInt8)
  | [] => none
  | b :: rest =>
    let mode := b >>> 6
    let field := b >>> 3 &&& 7
    let base := b &&& 7
    if mode = 3 then some (field, .register (.ofFields e.rm base), rest)
    else if mode = 0 ∧ base = 5 then none
    else
      match readIndex base rest with
      | none => none
      | some rest =>
        match readOffset mode rest with
        | none => none
        | some (offset, rest) => some (field, .memory (.ofFields e.rm base) offset, rest)

/-! ## Instructions -/

/-- Reads what is behind an opcode that has no operand byte. -/
def readPlain (e : Extension) (op : UInt8) (rest : List UInt8) :
    Option (Instruction Gp × List UInt8) :=
  let r := Gp.ofFields e.rm (op &&& 7)
  if op = 0xC3 then some (.ret, rest)
  else if op &&& 0xF8 = 0x50 then some (.push r, rest)
  else if op &&& 0xF8 = 0x58 then some (.pop r, rest)
  else if op &&& 0xF8 = 0xB8 ∧ e.wide then (readImm64 rest).map fun (v, rest) => (.movImm r v, rest)
  else if op = 0x2D ∧ e.wide then (readImm32 rest).map fun (v, rest) => (.subImm .rax v, rest)
  else none

/-- Reads what is behind an opcode and an operand, which stands beside a field. -/
def readWith (e : Extension) (op field : UInt8) (rest : List UInt8) :
    Operand → Option (Instruction Gp × List UInt8)
  | .register r =>
    if op = 0x89 ∧ e.wide then some (.mov r (.ofFields e.reg field), rest)
    else if op = 0x83 ∧ field = 5 ∧ e.wide then
      (readImm8 rest).map fun (v, rest) => (.subImm r v, rest)
    else if op = 0x81 ∧ field = 5 ∧ e.wide then
      (readImm32 rest).map fun (v, rest) => (.subImm r v, rest)
    else if op = 0xFF ∧ field = 2 then some (.call r, rest)
    else none
  | .memory base offset =>
    if op = 0x89 then
      let src := Gp.ofFields e.reg field
      some (if e.wide then .store64 base offset src else .store32 base offset src, rest)
    else if op = 0x8B ∧ !e.wide then some (.load32 (.ofFields e.reg field) base offset, rest)
    else if op = 0x8D ∧ e.wide then some (.lea (.ofFields e.reg field) base offset, rest)
    else if op = 0xC7 ∧ field = 0 ∧ !e.wide then
      (readImm32 rest).map fun (v, rest) => (.storeImm32 base offset v, rest)
    else none

/-- Reads the code of one instruction from the start of a code. -/
def read (code : List UInt8) : Option (Instruction Gp × List UInt8) :=
  match readExtension code with
  | (_, []) => none
  | (e, op :: rest) =>
    match readPlain e op rest with
    | some r => some r
    | none =>
      match readOperand e rest with
      | none => none
      | some (field, operand, rest) => readWith e op field rest operand

end Disassembler

/-- The instructions whose codes stand one behind the other, if there are such. -/
def disassemble : List UInt8 → Option (List (Instruction Gp))
  | [] => some []
  | b :: bs =>
    match Disassembler.read (b :: bs) with
    | none => none
    | some (i, rest) =>
      -- A read takes at least an opcode.
      if rest.length ≤ bs.length then (disassemble rest).map (i :: ·) else none
termination_by code => code.length

end RegIR.X64
