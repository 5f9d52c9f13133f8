import RegIR.Module.Builder
/-!
# The Ackermann function

A sample program: the two-argument Ackermann function as a function of the register language,
beside the function itself.
-/

namespace RegIR

/-- The Ackermann function. -/
def ackermann : Nat → Nat → Nat
  | 0, n => n + 1
  | m + 1, 0 => ackermann m 1
  | m + 1, n + 1 => ackermann m (ackermann (m + 1) n)
  termination_by m n => (m, n)

namespace Ackermann

/-- Counting down from a word other than zero does not wrap around. -/
theorem toNat_pred_lt {w : Int32} (h : w ≠ 0) : (w - 1).toUInt32.toNat < w.toUInt32.toNat := by
  have hw : w.toUInt32.toNat ≠ 0 := by
    intro h0
    apply h
    rw [← Int32.toInt32_toUInt32 w, ← UInt32.ofNat_toNat (x := w.toUInt32), h0]
    rfl
  have hlt := w.toUInt32.toNat_lt
  rw [show (w - 1).toUInt32 = w.toUInt32 - 1 from rfl, UInt32.toNat_sub]
  simp only [UInt32.toNat_one]
  omega

/-- The Ackermann function on words.  Sums and differences wrap around, so that counting down ends
at zero from every word. -/
def onWords (m n : Int32) : Int32 :=
  if m = 0 then n + 1
  else if n = 0 then onWords (m - 1) 1
  else onWords (m - 1) (onWords m (n - 1))
  termination_by (m.toUInt32.toNat, n.toUInt32.toNat)
  decreasing_by
    · exact .left _ _ (toNat_pred_lt ‹_›)
    · exact .right _ (toNat_pred_lt ‹_›)
    · exact .left _ _ (toNat_pred_lt ‹_›)

def signature : Signature := ⟨"ack", [.int, .int], .int⟩

open Builder in
/-- The body of the function, given its own number.

    bb0: m = 0 ? bb1 : bb2
    bb1: return n + 1
    bb2: n = 0 ? bb3 : bb4
    bb3: return ack(m - 1, 1)
    bb4: return ack(m - 1, ack(m, n - 1))
-/
def body (ack : FuncId) : Build Unit := do
  let entry ← openBlock
  let mZero ← openBlock
  let mPos ← openBlock
  let nZero ← openBlock
  let nPos ← openBlock
  switchTo entry
  let m ← readArg 0
  let zero ← literal 0
  let test ← binary .eq m zero
  condBranch test mZero mPos
  switchTo mZero
  let n ← readArg 1
  let one ← literal 1
  let result ← binary .add n one
  ret result
  switchTo mPos
  let n ← readArg 1
  let zero ← literal 0
  let test ← binary .eq n zero
  condBranch test nZero nPos
  switchTo nZero
  let m ← readArg 0
  let one ← literal 1
  let mDec ← binary .sub m one
  let result ← call ack [mDec, one]
  ret result
  switchTo nPos
  let m ← readArg 0
  let n ← readArg 1
  let one ← literal 1
  let nDec ← binary .sub n one
  let inner ← call ack [m, nDec]
  let mDec ← binary .sub m one
  let result ← call ack [mDec, inner]
  ret result

/-- Declares and builds the function in a module. -/
def build (m : Module) : Except BuildError (FuncId × Module) := do
  let (ack, m) ← m.declare signature
  let b ← m.builder ack
  let (_, b) ← body ack b
  return (ack, b.close)

end Ackermann

end RegIR
