import RegIR.Ackermann
import RegIR.NativeEntry
import RegIR.Program.Listing
/-!
# The command line

The command computes the Ackermann function directly and by the machine, and compares the two.
Arguments are read from left to right: the first one that is wrong refuses the whole line, and a
request for help ends the reading.
-/

namespace RegIR.CommandLine

/-! ## Arguments -/

structure Options where
  m : Int32
  n : Int32
  /-- Print the listing first. -/
  dumpIr : Bool
  /-- The limit on live activations; zero stands for none. -/
  maxCallDepth : Nat
  /-- Use the interpreter itself, not a native entry point. -/
  interpreterOnly : Bool
  deriving DecidableEq, Repr

def defaults : Options := ⟨3, 8, false, 65536, false⟩

/-- What a command line asks for. -/
inductive Request where
  | run (o : Options)
  | help
  | refused
  deriving DecidableEq, Repr

/-- The number that a non-empty list of decimal digits stands for. -/
def digits? (cs : List Char) : Option Nat :=
  if cs.isEmpty then none
  else if cs.all Char.isDigit then
    some (cs.foldl (fun n c => 10 * n + (c.toNat - '0'.toNat)) 0)
  else none

/-- A natural number below 2⁶⁴, perhaps behind a plus sign. -/
def depth? (s : String) : Option Nat := do
  let n ← match s.toList with
    | '+' :: cs => digits? cs
    | cs => digits? cs
  if n < UInt64.size then some n else none

/-- An integer from 0 to 2³¹ - 1, perhaps behind a sign. -/
def argument? (s : String) : Option Int32 := do
  let n ← match s.toList with
    | '+' :: cs => digits? cs
    | '-' :: cs => (digits? cs).bind fun n => if n = 0 then some 0 else none
    | cs => digits? cs
  if n < 2147483648 then some (Int32.ofNat n) else none

/-- The arguments read so far.  A number that is absent has not been given yet. -/
structure Partial where
  m : Option Int32
  n : Option Int32
  dumpIr : Bool
  maxCallDepth : Option Nat
  interpreterOnly : Bool

namespace Partial

def empty : Partial := ⟨none, none, false, none, false⟩

/-- Fills in the defaults. -/
def options (p : Partial) : Options :=
  ⟨p.m.getD defaults.m, p.n.getD defaults.n, p.dumpIr,
    p.maxCallDepth.getD defaults.maxCallDepth, p.interpreterOnly⟩

/-- Takes the next of the two numbers. -/
def number? (p : Partial) (s : String) : Option Partial :=
  match argument? s, p.m, p.n with
  | some v, none, _ => some { p with m := some v }
  | some v, some _, none => some { p with n := some v }
  | _, _, _ => none

/-- Takes the limit, which may be given once. -/
def limit? (p : Partial) (s : String) : Option Partial :=
  match depth? s, p.maxCallDepth with
  | some d, none => some { p with maxCallDepth := some d }
  | _, _ => none

end Partial

/-- The text behind a beginning. -/
def behind? (start s : String) : Option String :=
  if start.toList.isPrefixOf s.toList then some (String.ofList (s.toList.drop start.length))
  else none

/-- The argument starts with a hyphen, and is more than a hyphen. -/
def looksLikeOption (s : String) : Bool :=
  match s.toList with
  | '-' :: _ :: _ => true
  | _ => false

/-- Reads the arguments behind `--`: there are no options among them. -/
def readNumbers (p : Partial) : List String → Request
  | [] => .run p.options
  | s :: rest =>
    match p.number? s with
    | some p => readNumbers p rest
    | none => .refused

/-- Reads the arguments. -/
def read (p : Partial) : List String → Request
  | [] => .run p.options
  | "--" :: rest => readNumbers p rest
  | "--help" :: _ => .help
  | "--dump-ir" :: rest => if p.dumpIr then .refused else read { p with dumpIr := true } rest
  | "--interpreter-only" :: rest =>
    if p.interpreterOnly then .refused else read { p with interpreterOnly := true } rest
  | "--max-call-depth" :: rest =>
    match rest with
    | [] => .refused
    | s :: rest =>
      if looksLikeOption s then .refused
      else
        match p.limit? s with
        | some p => read p rest
        | none => .refused
  | s :: rest =>
    match behind? "--max-call-depth=" s with
    | some v =>
      match p.limit? v with
      | some p => read p rest
      | none => .refused
    | none =>
      -- A cluster of short options that starts with `-h` asks for help.
      if looksLikeOption s then if s.toList.take 2 = ['-', 'h'] then .help else .refused
      else
        match p.number? s with
        | some p => read p rest
        | none => .refused

/-- What a command line asks for. -/
def Request.ofArgs (args : List String) : Request := read .empty args

/-- The help text, by lines. -/
def helpLines : List String :=
  ["Run Ackermann through the IR interpreter and a native trampoline",
    "",
    "Usage: ackermann [OPTIONS] [M] [N]",
    "",
    "Arguments:",
    "  [M]  First argument [default: 3]",
    "  [N]  Second argument [default: 8]",
    "",
    "Options:",
    "      --dump-ir             Print the IR before running it",
    "      --max-call-depth <D>  Maximum nested IR calls (0 disables the limit) [default: 65536]",
    "      --interpreter-only    Call the interpreter directly instead of through a native entry point",
    "  -h, --help                Print help"]

/-! ## The run -/

/-- Why there is no value to report. -/
inductive Error where
  | build (e : BuildError)
  | validation (e : ValidationError)
  | entry (e : EntryError)
  | call (f : Failure)
  deriving DecidableEq, Repr

def Error.message : Error → String
  | build e => e.message
  | validation e => e.message
  | entry e => e.message
  | call f => f.message

/-- The program with the sample function. -/
def sample : Except Error (FuncId × Program) :=
  match Ackermann.build .empty with
  | .error e => .error (.build e)
  | .ok (f, m) =>
    match m.finalize with
    | .error e => .error (.validation e)
    | .ok p => .ok (f, p)

namespace Options

def config (o : Options) : Config :=
  { Config.default with
    maxCallDepth := if o.maxCallDepth = 0 then none else some o.maxCallDepth }

/-- The value of the function itself. -/
def expected (o : Options) : Int32 := Ackermann.onWords o.m o.n

/-- The value that the interpreter computes. -/
def interpreted (fuel : Nat) (o : Options) (f : FuncId) (p : Program) :
    Option (Except Error Int32) :=
  match (Interpreter.fresh p o.config .empty).callInts fuel f [o.m, o.n] none with
  | none => none
  | some (.ok v, _, _) => some (.ok v)
  | some (.error f, _, _) => some (.error (.call f))

/-- The value that a native entry point computes. -/
def entered (fuel : Nat) (o : Options) (f : FuncId) (p : Program) :
    Option (Except Error Int32) :=
  match p.entry f o.config .empty with
  | .error e => some (.error (.entry e))
  | .ok e =>
    match e.invoke fuel [o.m, o.n] none with
    | none => none
    | some (.ok v, _) => some (.ok v)
    | some (.error (.entry e), _) => some (.error (.entry e))
    | some (.error (.fault f), _) => some (.error (.call (.fault f)))

/-- The value that the machine computes. -/
def computed (fuel : Nat) (o : Options) : Option (Except Error Int32) :=
  match sample with
  | .error e => some (.error e)
  | .ok (f, p) => if o.interpreterOnly then o.interpreted fuel f p else o.entered fuel f p

end Options

/-! ## The report -/

/-- What the command prints, and its exit code. -/
structure Report where
  exitCode : UInt32
  lines : List String
  failure : Option String
  deriving DecidableEq, Repr

namespace Options

/-- The listing, when it is asked for. -/
def dump (o : Options) : List String :=
  match sample with
  | .error _ => []
  | .ok (f, p) =>
    if o.dumpIr then
      match p.function? f with
      | some (.defined d) => p.definitionLines d
      | _ => []
    else []

/-- A line that reports a value and the time that it took. -/
def resultLine (o : Options) (label : String) (v : Int32) (time : String) : String :=
  s!"{label} ack({o.m.toInt}, {o.n.toInt}) = {v.toInt} in {time} ms"

/-- Compares the value of the function with the one that the machine computed. -/
def report (o : Options) (expected : Int32) (expectedTime : String)
    (computed : Except Error Int32) (computedTime : String) : Report :=
  let first := o.dump ++ [o.resultLine "compiled:   " expected expectedTime]
  match computed with
  | .error e => ⟨1, first, some ("Error: " ++ e.message)⟩
  | .ok v =>
    let label := if o.interpreterOnly then "interpreted:" else "trampoline:"
    ⟨if v = expected then 0 else 1, first ++ [o.resultLine label v computedTime], none⟩

end Options

/-- The whole command, with given texts for the times. -/
def run (fuel : Nat) (args : List String) (expectedTime computedTime : String) : Option Report :=
  match Request.ofArgs args with
  | .help => some ⟨0, helpLines, none⟩
  | .refused => some ⟨2, [], none⟩
  | .run o =>
    match o.computed fuel with
    | none => none
    | some computed => some (o.report o.expected expectedTime computed computedTime)

end RegIR.CommandLine
