/-!
# Arithmetic

The operators work on 32-bit words in two's complement and wrap around.  Comparisons give 1 or
0.  Division truncates toward zero, and division and remainder by zero have no result.
-/

namespace RegIR

inductive BinaryOp where
  | add | sub | mul | div | rem
  | eq | ne | gt | lt | ge | le
  deriving DecidableEq, Repr, Inhabited

inductive UnaryOp where
  | neg | not
  deriving DecidableEq, Repr, Inhabited

/-- The word for a truth value. -/
def truth (b : Bool) : Int32 := if b then 1 else 0

namespace BinaryOp

def all : List BinaryOp := [add, sub, mul, div, rem, eq, ne, gt, lt, ge, le]

def mnemonic : BinaryOp → String
  | add => "add"
  | sub => "sub"
  | mul => "mul"
  | div => "div"
  | rem => "rem"
  | eq => "eq"
  | ne => "ne"
  | gt => "gt"
  | lt => "lt"
  | ge => "ge"
  | le => "le"

/-- The value of an operation, absent for a division or remainder by zero.  The quotient of the
least integer by -1 wraps around to the least integer. -/
@[inline] def eval? (op : BinaryOp) (l r : Int32) : Option Int32 :=
  match op with
  | add => some (l + r)
  | sub => some (l - r)
  | mul => some (l * r)
  | div => if r = 0 then none else some (l / r)
  | rem => if r = 0 then none else some (l % r)
  | eq => some (truth (l == r))
  | ne => some (truth (l != r))
  | gt => some (truth (decide (r < l)))
  | lt => some (truth (decide (l < r)))
  | ge => some (truth (decide (r ≤ l)))
  | le => some (truth (decide (l ≤ r)))

/-- The operator with a given mnemonic. -/
def ofMnemonic? (s : String) : Option BinaryOp := all.find? (·.mnemonic == s)

theorem ofMnemonic?_mnemonic (op : BinaryOp) : ofMnemonic? op.mnemonic = some op := by
  cases op <;> rfl

theorem eval?_eq_none_iff {op : BinaryOp} {l r : Int32} :
    op.eval? l r = none ↔ (op = div ∨ op = rem) ∧ r = 0 := by
  cases op <;> simp [eval?]

end BinaryOp

namespace UnaryOp

def all : List UnaryOp := [neg, not]

def mnemonic : UnaryOp → String
  | neg => "neg"
  | not => "not"

/-- `neg` wraps around on the least integer; `not` tests for zero. -/
@[inline] def eval (op : UnaryOp) (x : Int32) : Int32 :=
  match op with
  | neg => -x
  | not => truth (x == 0)

/-- The operator with a given mnemonic. -/
def ofMnemonic? (s : String) : Option UnaryOp := all.find? (·.mnemonic == s)

theorem ofMnemonic?_mnemonic (op : UnaryOp) : ofMnemonic? op.mnemonic = some op := by
  cases op <;> rfl

end UnaryOp

end RegIR
