import RegIR.Memory
import RegIR.X64.Instruction
/-!
# The processor

What the instructions of entry stubs do to the general-purpose registers, to the instruction
pointer and to memory.  An address is a 64-bit word, and addresses wrap.  The flags are left out:
no instruction of a stub reads them.
-/

namespace RegIR.X64

/-- The byte at each address. -/
abbrev AddressSpace := UInt64 → UInt8

namespace AddressSpace

/-- Replaces the bytes from an address on. -/
def write (m : AddressSpace) (a : UInt64) (bs : Bytes) : AddressSpace := fun x =>
  if h : (x - a).toNat < bs.size then bs[(x - a).toNat] else m x

/-- The 32-bit word at an address, low byte first. -/
def read32 (m : AddressSpace) (a : UInt64) : UInt32 :=
  Bytes.joinWord32 (m a) (m (a + 1)) (m (a + 2)) (m (a + 3))

/-- The 64-bit word at an address, low byte first. -/
def read64 (m : AddressSpace) (a : UInt64) : UInt64 :=
  Bytes.joinWord64 (m.read32 a) (m.read32 (a + 4))

end AddressSpace

structure Processor where
  regs : Gp → UInt64
  /-- The address of the next instruction. -/
  rip : UInt64
  mem : AddressSpace

namespace Processor

/-- Replaces the content of a register. -/
def set (s : Processor) (r : Gp) (v : UInt64) : Processor :=
  { s with regs := fun r' => if r' = r then v else s.regs r' }

/-- Writes bytes to memory. -/
def store (s : Processor) (a : UInt64) (bs : Bytes) : Processor :=
  { s with mem := s.mem.write a bs }

/-- Goes on at an address. -/
def goto (s : Processor) (a : UInt64) : Processor := { s with rip := a }

/-- The address at a displacement, which has a sign, from a base register. -/
def address (s : Processor) (base : Gp) (offset : Int32) : UInt64 :=
  s.regs base + UInt64.ofInt offset.toInt

/-- Pushes a word: the stack grows downwards. -/
def push (s : Processor) (v : UInt64) : Processor :=
  let top := s.regs .rsp - 8
  (s.store top (Bytes.ofWord64 v)).set .rsp top

/-- Takes a word off the stack into a register. -/
def pop (s : Processor) (r : Gp) : Processor :=
  (s.set .rsp (s.regs .rsp + 8)).set r (s.mem.read64 (s.regs .rsp))

end Processor

namespace Instruction

/-- What an instruction does.  All but calls and returns go on behind their code. -/
def exec (i : Instruction Gp) (s : Processor) : Processor :=
  let next := s.rip + UInt64.ofNat i.encode.length
  match i with
  | push r => (s.push (s.regs r)).goto next
  | pop r => (s.pop r).goto next
  | mov dst src => (s.set dst (s.regs src)).goto next
  | movImm dst imm => (s.set dst imm.toUInt64).goto next
  | subImm dst imm => (s.set dst (s.regs dst - UInt64.ofInt imm.toInt)).goto next
  | load32 dst base offset =>
    (s.set dst (s.mem.read32 (s.address base offset)).toUInt64).goto next
  | store32 base offset src =>
    (s.store (s.address base offset) (Bytes.ofWord32 (s.regs src).toUInt32)).goto next
  | storeImm32 base offset imm =>
    (s.store (s.address base offset) (Bytes.ofWord32 imm.toUInt32)).goto next
  | store64 base offset src =>
    (s.store (s.address base offset) (Bytes.ofWord64 (s.regs src))).goto next
  | lea dst base offset => (s.set dst (s.address base offset)).goto next
  | call r => (s.push next).goto (s.regs r)
  | ret => (s.set .rsp (s.regs .rsp + 8)).goto (s.mem.read64 (s.regs .rsp))

end Instruction

/-- Executes instructions that stand one behind the other. -/
def execAll (code : List (Instruction Gp)) (s : Processor) : Processor :=
  code.foldl (fun s i => i.exec s) s

/-! ## Small laws -/

section
variable (s : Processor) (r : Gp) (v a : UInt64) (bs : Bytes)

namespace Processor

@[simp] theorem regs_set_self : (s.set r v).regs r = v := if_pos rfl

theorem regs_set_of_ne {r' : Gp} (h : r' ≠ r) : (s.set r v).regs r' = s.regs r' := if_neg h

@[simp] theorem rip_set : (s.set r v).rip = s.rip := rfl
@[simp] theorem mem_set : (s.set r v).mem = s.mem := rfl
@[simp] theorem regs_store : (s.store a bs).regs = s.regs := rfl
@[simp] theorem rip_store : (s.store a bs).rip = s.rip := rfl
@[simp] theorem mem_store : (s.store a bs).mem = s.mem.write a bs := rfl
@[simp] theorem regs_goto : (s.goto a).regs = s.regs := rfl
@[simp] theorem rip_goto : (s.goto a).rip = a := rfl
@[simp] theorem mem_goto : (s.goto a).mem = s.mem := rfl

end Processor

@[simp] theorem execAll_nil : execAll [] s = s := rfl

@[simp] theorem execAll_cons (i : Instruction Gp) (code : List (Instruction Gp)) :
    execAll (i :: code) s = execAll code (i.exec s) := rfl

theorem execAll_append (code code' : List (Instruction Gp)) :
    execAll (code ++ code') s = execAll code' (execAll code s) := List.foldl_append

end

end RegIR.X64
