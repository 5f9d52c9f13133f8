import RegIR.X64.Assembler
import RegIR.X64.EntryFrame
/-!
# Entry stubs

The machine code of a native entry point keeps the incoming arguments in its frame, builds an
array of pointers to them, and calls a bridge function with a context, the address of a zeroed
return slot, and the array.  It returns what the bridge left in the slot.
-/

namespace RegIR.X64

namespace EntryFrame

/-- Keeps the arguments that arrive in registers. -/
def spillRegisters (f : EntryFrame) : List (Instruction Gp) :=
  f.args.zipIdx.flatMap fun (a, i) =>
    match a.reg with
    | some r => [.store32 .rbp (valueOffset i) r]
    | none => []

/-- Keeps the arguments that arrive on the stack. -/
def spillStack (f : EntryFrame) : List (Instruction Gp) :=
  f.args.zipIdx.flatMap fun (a, i) =>
    match a.stackOffset with
    | some offset =>
      [.load32 .rax .rbp (incomingOffset offset), .store32 .rbp (valueOffset i) .rax]
    | none => []

/-- Builds the array of pointers to the arguments. -/
def buildArray (f : EntryFrame) : List (Instruction Gp) :=
  (List.range f.args.length).flatMap fun i =>
    [.lea .rax .rbp (valueOffset i),
      .store64 .rbp (f.pointerArrayOffset + 8 * Int32.ofNat i) .rax]

/-- Calls the bridge. -/
def callBridge (f : EntryFrame) (context bridge : Int64) : List (Instruction Gp) :=
  [.storeImm32 .rbp retSlot 0,
    .movImm .rdi context, .lea .rsi .rbp retSlot, .lea .rdx .rbp f.pointerArrayOffset,
    .movImm .rax bridge, .call .rax]

/-- The instructions of the stub. -/
def stub (f : EntryFrame) (context bridge : Int64) : List (Instruction Gp) :=
  -- Register arguments are kept first: the later parts use rax, rdi, rsi and rdx.
  prologue f.frameSize ++ f.spillRegisters ++ f.spillStack ++ f.buildArray ++
    f.callBridge context bridge ++ [.load32 (f.ret.reg.getD .rax) .rbp retSlot] ++ epilogue

end EntryFrame

end RegIR.X64
