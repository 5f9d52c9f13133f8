import RegIR.Interpreter
/-!
# Sessions

An interpreter keeps its storage from one invocation to the next: the bytes of its stack, and the
activations on it.  An invocation clears both at its end, whether it returned or ended with a fault.
What it has left there by then is not followed: it is given from outside, as anything at all.  A
panic leaves it there, and the session is over.
-/

namespace RegIR

namespace Machine

/-- The storage of an interpreter. -/
structure Storage where
  stack : Memory
  live : Array Suspended

namespace Storage

def empty : Storage := ⟨.empty, #[]⟩

/-- Drops the bytes and the activations.  The store of the stack keeps its content. -/
def clear (s : Storage) : Storage := ⟨s.stack.cut 0, #[]⟩

/-- What stays of the storage at the end of an invocation. -/
def after (s : Storage) (o : Outcome) : Storage :=
  match o.failure with
  | some (.panic _) => s
  | _ => s.clear

end Storage

/-- The first state of an invocation on top of what the storage holds. -/
def enterOn (storage : Storage) (p : Program) (f : FuncId) (args : List Bytes) (returnSize : Nat)
    (stats : Stats) : Exec State := do
  let c ← codeOf p f
  let s := c.definition.signature
  if args.length ≠ s.args.length then
    .error (.fault (.argumentCount s.name s.args.length args.length))
  else if returnSize ≠ s.ret.size.toNat then
    .error (.fault (.returnSlotSize s.name s.ret.size.toNat returnSize))
  else
    let (argsBase, stack) := reserve storage.stack c.args.size.toNat c.args.align.toNat
    let stack ← placeArgs c argsBase 0 args s.args stack
    let (a, stack) := startFrame stack c argsBase
    .ok ⟨stack, ⟨a, storage.live⟩, stats.reach (storage.live.size + 1)⟩

end Machine

/-- An interpreter with its storage. -/
structure Session where
  interpreter : Interpreter
  storage : Machine.Storage

namespace Session

/-- A session that has not invoked anything yet. -/
def start (p : Program) (config : Config) (hosts : HostTable) : Session :=
  ⟨.fresh p config hosts, .empty⟩

def stats (k : Session) : Stats := k.interpreter.stats

/-- The session behind an invocation. -/
def leave (k : Session) (left : Machine.Storage) (o : Outcome) (stats : Stats) : Session :=
  ⟨{ k.interpreter with stats }, left.after o⟩

/-- Invokes a function on the bytes of its arguments.  At its end the invocation has left the
storage as given. -/
def invoke (left : Machine.Storage) (fuel : Nat) (k : Session) (f : FuncId) (args : List Bytes)
    (buffer : Bytes) (slot : Option Fault) : Option (Outcome × Session × Option Fault) :=
  let i := k.interpreter
  let stats := { i.stats with invocations := i.stats.invocations + 1 }
  match Machine.enterOn k.storage i.program f args buffer.size stats with
  | .error h =>
    let o := Outcome.ofEnding buffer (.ofHalt h)
    some (o, k.leave left o stats, slot)
  | .ok s =>
    match Machine.run i.env
      (fun body args slot => (body args).perform (NativeEntry.call fuel) slot) fuel s slot with
    | none => none
    | some (ending, stats, slot) =>
      let o := Outcome.ofEnding buffer ending
      some (o, k.leave left o stats, slot)

/-- Invokes a function that takes and returns integers. -/
def callInts (left : Machine.Storage) (fuel : Nat) (k : Session) (f : FuncId) (args : List Int32)
    (slot : Option Fault) : Option (Except Failure Int32 × Session × Option Fault) :=
  match k.invoke left fuel f (args.map Bytes.ofInt) (Bytes.ofInt 0) slot with
  | none => none
  | some (outcome, k, slot) =>
    match outcome.failure with
    | none => some (.ok (outcome.buffer.toInt), k, slot)
    | some cause => some (.error cause, k, slot)

/-- The second session is what an invocation leaves of the first, a returned one or one that ended
with a fault, whatever it has left in the storage. -/
inductive Goes (k k' : Session) : Prop
  | invoke {left : Machine.Storage} {fuel : Nat} {f : FuncId} {args : List Bytes} {buffer : Bytes}
      {slot slot' : Option Fault} {o : Outcome}
      (h : k.invoke left fuel f args buffer slot = some (o, k', slot'))
      (ho : ∀ p, o.failure ≠ some (.panic p))
  | callInts {left : Machine.Storage} {fuel : Nat} {f : FuncId} {args : List Int32}
      {slot slot' : Option Fault} {a : Except Failure Int32}
      (h : k.callInts left fuel f args slot = some (a, k', slot'))
      (ha : ∀ p, a ≠ .error (.panic p))

end Session

end RegIR
