import RegIR.Host
/-!
# Interpreters and native entry points

An interpreter invokes the defined functions of a program and counts what it does.  A native
entry point does the same through machine code that can only return an integer: every call runs
a fresh interpreter, a failed call returns 0, and the fault goes to a slot that is shared by all
entry points.  Calls through host functions nest, so both are defined with a bound: on the steps
of a run, and on the depth of nested native calls.
-/

namespace RegIR

structure Interpreter where
  program : Program
  config : Config
  hosts : HostTable
  stats : Stats

namespace Interpreter

/-- An interpreter that has not invoked anything yet. -/
def fresh (p : Program) (config : Config) (hosts : HostTable) : Interpreter :=
  ⟨p, config, hosts, .zero⟩

/-- What the steps of an interpreter depend on. -/
def env (i : Interpreter) : Machine.Env HostFunction := ⟨i.program, i.config.maxCallDepth, i.hosts.get?⟩

end Interpreter

/-- Why an invocation returned nothing. -/
inductive Failure where
  | fault (f : Fault)
  | panic (p : Panic)
  deriving DecidableEq, Repr

def Failure.message : Failure → String
  | fault f => f.message
  | panic p => p.message

/-- The result of an invocation: the return buffer, and why it was not filled. -/
structure Outcome where
  failure : Option Failure
  buffer : Bytes

/-- Fills a return buffer.  On any failure it keeps its bytes. -/
def Outcome.ofEnding (buffer : Bytes) : Machine.Ending → Outcome
  | .fault f => ⟨some (.fault f), buffer⟩
  | .panic p => ⟨some (.panic p), buffer⟩
  | .returned v =>
    if v.size = buffer.size then ⟨none, v⟩
    else ⟨some (.panic (.ofViolation (.lengths v.size buffer.size))), buffer⟩

/-- What native calls do. -/
abbrev NativeCall := NativeEntry → List Int32 → Option Fault → Option (Int32 × Option Fault)

/-- Invokes a function on the bytes of its arguments, given what native calls do. -/
def Interpreter.invokeWith (call : NativeCall) (fuel : Nat) (i : Interpreter) (f : FuncId)
    (args : List Bytes) (buffer : Bytes) (slot : Option Fault) :
    Option (Outcome × Interpreter × Option Fault) :=
  let stats := { i.stats with invocations := i.stats.invocations + 1 }
  match Machine.enter i.program f args buffer.size stats with
  | .error h => some (.ofEnding buffer (.ofHalt h), { i with stats }, slot)
  | .ok s =>
    match Machine.run i.env (fun body args slot => (body args).perform call slot) fuel s slot with
    | none => none
    | some (ending, stats, slot) => some (.ofEnding buffer ending, { i with stats }, slot)

namespace NativeEntry

/-- The fault that a failed call leaves. -/
def faultOf : Failure → Fault
  | .fault f => f
  | .panic p => .hostPanic p.message

/-- A native call, with a bound on the depth of native calls inside it. -/
def callWithin (fuel : Nat) : Nat → NativeCall
  | 0, _, _, _ => none
  | depth + 1, e, args, _ =>
    let fresh := Interpreter.fresh e.program e.config e.hosts
    match fresh.invokeWith (callWithin fuel depth) fuel e.func (args.map Bytes.ofInt) (Bytes.ofInt 0)
        none with
    | none => none
    | some (outcome, _, _) =>
      match outcome.failure with
      | none => some (outcome.buffer.toInt, none)
      | some cause => some (0, some (faultOf cause))

/-- Calls the entry point natively. -/
def call (fuel : Nat) (e : NativeEntry) (args : List Int32) (slot : Option Fault) :
    Option (Int32 × Option Fault) :=
  callWithin fuel fuel e args slot

end NativeEntry

namespace Interpreter

/-- Invokes a function on the bytes of its arguments. -/
def invoke (fuel : Nat) (i : Interpreter) (f : FuncId) (args : List Bytes) (buffer : Bytes)
    (slot : Option Fault) : Option (Outcome × Interpreter × Option Fault) :=
  i.invokeWith (NativeEntry.call fuel) fuel f args buffer slot

/-- Invokes a function that takes and returns integers. -/
def callInts (fuel : Nat) (i : Interpreter) (f : FuncId) (args : List Int32)
    (slot : Option Fault) :
    Option (Except Failure Int32 × Interpreter × Option Fault) :=
  match i.invoke fuel f (args.map Bytes.ofInt) (Bytes.ofInt 0) slot with
  | none => none
  | some (outcome, i, slot) =>
    match outcome.failure with
    | none => some (.ok (outcome.buffer.toInt), i, slot)
    | some cause => some (.error cause, i, slot)

end Interpreter

end RegIR
