import RegIR.CommandLine
/-!
# The program

Runs the command line, takes the time of both computations, and prints the report.
-/

namespace RegIR

/-- More steps than any run can take. -/
def stepLimit : Nat := 4611686018427387904

/-- A time in milliseconds with three places. -/
def millisText (nanos : Nat) : String :=
  let micros := (nanos + 500) / 1000
  let places := toString (micros % 1000)
  s!"{micros / 1000}." ++ "".pushn '0' (3 - places.length) ++ places

/-- Evaluates a computation and takes its time. -/
def timed {α : Type} (compute : Unit → α) : IO (α × Nat) := do
  let start ← IO.monoNanosNow
  let value ← IO.lazyPure compute
  let stop ← IO.monoNanosNow
  return (value, stop - start)

def printReport (r : CommandLine.Report) : IO UInt32 := do
  for line in r.lines do
    IO.println line
  match r.failure with
  | some text => IO.eprintln text
  | none => pure ()
  return r.exitCode

end RegIR

open RegIR in
def main (args : List String) : IO UInt32 := do
  match CommandLine.Request.ofArgs args with
  | .help => printReport ⟨0, CommandLine.helpLines, none⟩
  | .refused => do
    IO.eprintln "error: the arguments are not understood; try '--help'"
    return 2
  | .run o => do
    let (expected, expectedTime) ← timed fun _ => o.expected
    let (computed, computedTime) ← timed fun _ => o.computed stepLimit
    match computed with
    | none => return 1
    | some computed =>
      printReport (o.report expected (millisText expectedTime) computed (millisText computedTime))
