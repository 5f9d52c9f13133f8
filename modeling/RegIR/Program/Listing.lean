import RegIR.Program
/-!
# Listings

The printed form of the functions of a program, one operation a line under the label of its
block.
-/

namespace RegIR

/-- The elements of a list with commas between them. -/
def commaSeparated (xs : List String) : String := String.intercalate ", " xs

namespace Program

/-- The name of a called function. -/
def calleeName (p : Program) (f : FuncId) : String :=
  match p.linked? f with
  | none => "<unknown>"
  | some l => l.name

/-- The printed form of an operation; `t` is the spelling of its register's type. -/
def operationText (p : Program) (t : String) : Operation → String
  | .readArg r i => s!"{r.name} = arg {i} : {t}"
  | .literal r v => s!"{r.name} = const {v.toInt}"
  | .unary r op x => s!"{r.name} = {op.mnemonic} {x.name}"
  | .binary r op x y => s!"{r.name} = {op.mnemonic} {x.name}, {y.name}"
  | .stackAlloc r s => s!"{r.name} = alloca slot{s.index}"
  | .load r q => s!"{r.name} = load {t}, {q.name}"
  | .store q x => s!"store {x.name}, {q.name}"
  | .call r f args => s!"{r.name} = call @{p.calleeName f}({commaSeparated (args.map Reg.name)})"
  | .branch b => s!"br {b.name}"
  | .condBranch x b c => s!"condbr {x.name}, {b.name}, {c.name}"
  | .ret x => s!"ret {x.name}"

/-- The spelling of the type that an operation gives to its register. -/
def targetTypeText (d : Definition) (op : Operation) : String :=
  match op.target? with
  | none => ""
  | some r =>
    match d.regType? r with
    | none => ""
    | some t => t.name

/-- The lines of one block. -/
def blockLines (p : Program) (d : Definition) (b : BlockId) (block : Block) : List String :=
  s!"{b.name}:" ::
    block.toList.map fun op => "    " ++ p.operationText (targetTypeText d op) op

def signatureText (s : Signature) : String :=
  s!"{s.ret.name} @{s.name}({commaSeparated (s.args.map Ty.name)})"

/-- The lines of a defined function. -/
def definitionLines (p : Program) (d : Definition) : List String :=
  ("define " ++ signatureText d.signature ++ " \x7b") ::
    (d.blocks.toList.zipIdx.flatMap fun (block, b) => p.blockLines d ⟨b⟩ block) ++ ["\x7d"]

/-- The printed form of a function; each line ends with a line feed. -/
def listing (p : Program) (f : FuncId) : String :=
  match p.function? f with
  | none => s!"; unknown function {f.index}"
  | some (.external e) => s!"declare {signatureText e.signature} ; symbol {e.symbol}\n"
  | some (.defined d) => String.join ((p.definitionLines d).map (· ++ "\n"))

end Program

end RegIR
