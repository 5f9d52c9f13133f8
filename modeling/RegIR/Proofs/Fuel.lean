import RegIR.Interpreter
/-!
# More fuel

An invocation that ends within its bounds, on the steps of a run and on the depth of native calls,
ends in the same way within larger bounds.
-/

namespace RegIR

/-! ## 1. Host functions -/

/-- The second computation answers whatever the first one answers. -/
def NativeCall.Le (call call' : NativeCall) : Prop :=
  ∀ e args slot r, call e args slot = some r → call' e args slot = some r

theorem HostAction.perform_mono {call call' : NativeCall} (h : call.Le call') {action : HostAction}
    {slot : Option Fault} {r : Answer × Option Fault}
    (hr : action.perform call slot = some r) : action.perform call' slot = some r := by
  -- Along the action; only a native call looks at the computation that it is given.
  fun_induction HostAction.perform call action slot with
  | case1 v slot => exact hr
  | case2 p slot => exact hr
  | case3 entry args next slot hcall => cases hr
  | case4 slot entry args next v slot' hcall ih =>
    rw [perform, h _ _ _ _ hcall]
    exact ih hr
  | case5 next slot ih =>
    rw [perform]
    exact ih hr

/-! ## 2. Runs -/

/-- A run that ends does so with more steps, and with hosts that answer more. -/
theorem Machine.run_mono {H σ : Type} {env : Env H}
    {perform perform' : H → List Int32 → σ → Option (Answer × σ)}
    (hp : ∀ f args w r, perform f args w = some r → perform' f args w = some r) {fuel fuel' : Nat}
    (hle : fuel ≤ fuel') {s : State} {w : σ} {r : Ending × Stats × σ}
    (h : run env perform fuel s w = some r) : run env perform' fuel' s w = some r := by
  -- The shorter run decides the cases; the longer one has a step left wherever it has.
  induction fuel generalizing fuel' s w with
  | zero => cases h
  | succ fuel ih =>
    obtain ⟨fuel', rfl⟩ : ∃ n, fuel' = n + 1 := ⟨fuel' - 1, by omega⟩
    have hle' : fuel ≤ fuel' := by omega
    rw [run] at h ⊢
    split at h
    · exact ih hle' h
    · exact h
    · exact h
    · -- The host function answers the same; only then does the run go on.
      rename_i f args target u _
      split at h
      · cases h
      · rename_i pn w' hperform
        rw [hp _ _ _ _ hperform]
        exact h
      · rename_i v w' hperform
        simp only [hp _ _ _ _ hperform]
        split at h
        · exact h
        · exact ih hle' h

theorem Interpreter.invokeWith_mono {call call' : NativeCall} (hcall : call.Le call')
    {fuel fuel' : Nat} (hle : fuel ≤ fuel') {i : Interpreter} {f : FuncId} {args : List Bytes}
    {buffer : Bytes} {slot : Option Fault} {r : Outcome × Interpreter × Option Fault}
    (h : i.invokeWith call fuel f args buffer slot = some r) :
    i.invokeWith call' fuel' f args buffer slot = some r := by
  unfold invokeWith at h ⊢
  dsimp only at h ⊢
  split at h
  · exact h
  · split at h
    · cases h
    · rename_i hrun
      rw [Machine.run_mono (fun _ _ _ _ => HostAction.perform_mono hcall) hle hrun]
      exact h

/-! ## 3. Native calls -/

theorem NativeEntry.callWithin_mono {fuel fuel' depth depth' : Nat} (hfuel : fuel ≤ fuel')
    (hdepth : depth ≤ depth') : NativeCall.Le (callWithin fuel depth) (callWithin fuel' depth') := by
  -- The bound on the depth of nested calls decreases; the bound on the steps stays.
  induction depth generalizing depth' with
  | zero =>
    intro e args slot r h
    cases h
  | succ depth ih =>
    intro e args slot r h
    obtain ⟨depth', rfl⟩ : ∃ n, depth' = n + 1 := ⟨depth' - 1, by omega⟩
    rw [callWithin] at h ⊢
    split at h
    · cases h
    · rename_i hinvoke
      rw [Interpreter.invokeWith_mono (ih (by omega)) hfuel hinvoke]
      exact h

theorem NativeEntry.call_mono {fuel fuel' : Nat} (hle : fuel ≤ fuel') :
    NativeCall.Le (call fuel) (call fuel') := callWithin_mono hle hle

namespace Interpreter

variable {fuel fuel' : Nat} {i : Interpreter} {f : FuncId} {slot : Option Fault}

theorem invoke_mono (hle : fuel ≤ fuel') {args : List Bytes} {buffer : Bytes}
    {r : Outcome × Interpreter × Option Fault}
    (h : i.invoke fuel f args buffer slot = some r) :
    i.invoke fuel' f args buffer slot = some r :=
  invokeWith_mono (NativeEntry.call_mono hle) hle h

theorem callInts_mono (hle : fuel ≤ fuel') {args : List Int32}
    {r : Except Failure Int32 × Interpreter × Option Fault}
    (h : i.callInts fuel f args slot = some r) : i.callInts fuel' f args slot = some r := by
  unfold callInts at h ⊢
  split at h
  · cases h
  · rename_i hinvoke
    rw [invoke_mono hle hinvoke]
    exact h

end Interpreter

end RegIR
