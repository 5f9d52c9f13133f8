import RegIR.X64.Instruction
/-!
# Assembling

An assembler collects instructions.  It takes registers of any bank and refuses an instruction
with a register that is not general-purpose.
-/

namespace RegIR.X64

inductive AssemblyError where
  | invalidRegister (r : Register)
  deriving DecidableEq, Repr

def AssemblyError.message : AssemblyError → String
  | invalidRegister r => s!"register {r.name} is not valid for this operation"

/-- The general-purpose register that is meant. -/
def Register.resolve (r : Register) : Except AssemblyError Gp :=
  match r.gp? with
  | some g => .ok g
  | none => .error (.invalidRegister r)

/-- Resolves the registers of an instruction, in the order of its operands. -/
def Instruction.resolve : Instruction Register → Except AssemblyError (Instruction Gp)
  | push r => return .push (← r.resolve)
  | pop r => return .pop (← r.resolve)
  | mov dst src => do
    let dst ← dst.resolve
    let src ← src.resolve
    return .mov dst src
  | movImm dst imm => return .movImm (← dst.resolve) imm
  | subImm dst imm => return .subImm (← dst.resolve) imm
  | load32 dst base offset => do
    let dst ← dst.resolve
    let base ← base.resolve
    return .load32 dst base offset
  | store32 base offset src => do
    let base ← base.resolve
    let src ← src.resolve
    return .store32 base offset src
  | storeImm32 base offset imm => return .storeImm32 (← base.resolve) offset imm
  | store64 base offset src => do
    let base ← base.resolve
    let src ← src.resolve
    return .store64 base offset src
  | lea dst base offset => do
    let dst ← dst.resolve
    let base ← base.resolve
    return .lea dst base offset
  | call r => return .call (← r.resolve)
  | ret => return .ret

/-- Saves the caller's frame pointer and reserves a frame of the given number of bytes. -/
def prologue (frameSize : UInt32) : List (Instruction Gp) :=
  [.push .rbp, .mov .rbp .rsp] ++
    if frameSize = 0 then [] else [.subImm .rsp frameSize.toInt32]

/-- Drops the frame and returns to the caller. -/
def epilogue : List (Instruction Gp) := [.mov .rsp .rbp, .pop .rbp, .ret]

/-- What an assembler is told to append. -/
inductive Emission where
  | instruction (i : Instruction Register)
  | prologue (frameSize : UInt32)
  | epilogue
  deriving DecidableEq, Repr

def Emission.instructions : Emission → Except AssemblyError (List (Instruction Gp))
  | instruction i => return [← i.resolve]
  | prologue frameSize => return X64.prologue frameSize
  | epilogue => return X64.epilogue

/-- The instructions appended so far. -/
structure Assembler where
  code : Array (Instruction Gp)
  deriving DecidableEq, Repr, Inhabited

namespace Assembler

def empty : Assembler := ⟨#[]⟩

def emit (a : Assembler) (e : Emission) : Except AssemblyError Assembler :=
  match e.instructions with
  | .error err => .error err
  | .ok is => .ok ⟨a.code ++ is⟩

/-- Appends one after the other: the answer to each, and the assembler at the end. -/
def emitAll (a : Assembler) : List Emission → List (Except AssemblyError Unit) × Assembler
  | [] => ([], a)
  | e :: es =>
    match a.emit e with
    | .error err =>
      let (answers, a') := a.emitAll es
      (.error err :: answers, a')
    | .ok a₁ =>
      let (answers, a') := a₁.emitAll es
      (.ok () :: answers, a')

def instructionCount (a : Assembler) : Nat := a.code.size

/-- The machine code of everything appended so far. -/
def bytes (a : Assembler) : List UInt8 := encodeAll a.code.toList

end Assembler

end RegIR.X64
