import RegIR.NativeEntry
import RegIR.Proofs.Fuel
import RegIR.Proofs.Safety
/-!
# Native calls

A native call of an entry point answers what a fresh interpreter answers, and leaves a fault
exactly if that interpreter failed: its own.  The slot before the call does not matter, nor do the
faults that native calls inside it leave there.
-/

namespace RegIR

/-! ## 1. Answers -/

/-- The value that the invocation returned, or why it returned none. -/
def Outcome.answer (o : Outcome) : Except Failure Int32 :=
  match o.failure with
  | none => .ok o.buffer.toInt
  | some cause => .error cause

namespace Interpreter

/-- A call of a function on integers ends with the answer, within some bounds. -/
def Answers (i : Interpreter) (f : FuncId) (args : List Int32) (slot : Option Fault)
    (a : Except Failure Int32) : Prop :=
  ∃ fuel i' slot', i.callInts fuel f args slot = some (a, i', slot')

variable {i i' : Interpreter} {f : FuncId} {args : List Int32} {slot slot' : Option Fault}
  {fuel : Nat} {a : Except Failure Int32}

theorem callInts_eq_map : i.callInts fuel f args slot =
    (i.invoke fuel f (args.map Bytes.ofInt) (Bytes.ofInt 0) slot).map
      fun (o, i', slot') => (o.answer, i', slot') := by
  unfold callInts Outcome.answer
  split
  · rename_i hinvoke
    rw [hinvoke]
    rfl
  · rename_i o i₁ slot₁ hinvoke
    rw [hinvoke]
    dsimp only [Option.map_some]
    cases o.failure <;> rfl

theorem callInts_eq_some_iff : i.callInts fuel f args slot = some (a, i', slot') ↔
    ∃ o, i.invoke fuel f (args.map Bytes.ofInt) (Bytes.ofInt 0) slot = some (o, i', slot') ∧
      o.answer = a := by
  rw [callInts_eq_map, Option.map_eq_some_iff]
  constructor
  · rintro ⟨⟨o, i₁, slot₁⟩, hinvoke, h⟩
    cases h
    exact ⟨o, hinvoke, rfl⟩
  · rintro ⟨o, hinvoke, rfl⟩
    exact ⟨_, hinvoke, rfl⟩

/-- A call has one answer, whatever the bound. -/
theorem Answers.unique {a' : Except Failure Int32} (h : i.Answers f args slot a)
    (h' : i.Answers f args slot a') : a = a' := by
  obtain ⟨fuel, i₁, w, hcall⟩ := h
  obtain ⟨fuel', i₁', w', hcall'⟩ := h'
  have hleft := callInts_mono (Nat.le_max_left fuel fuel') hcall
  have hright := callInts_mono (Nat.le_max_right fuel fuel') hcall'
  rw [hleft] at hright
  cases hright
  rfl

end Interpreter

namespace NativeEntry

/-- The interpreter that a call of the entry point runs. -/
def interpreter (e : NativeEntry) : Interpreter := .fresh e.program e.config e.hosts

/-- What a native call shows of an answer: an integer, and the content of the fault slot. -/
def shown : Except Failure Int32 → Int32 × Option Fault
  | .ok v => (v, none)
  | .error (.fault f) => (0, some f)
  | .error (.panic p) => (0, some (.hostPanic p.message))

/-- What a checked call reports of an answer. -/
def reported : Except Failure Int32 → Except CallError Int32
  | .ok v => .ok v
  | .error (.fault f) => .error (.fault f)
  | .error (.panic p) => .error (.fault (.hostPanic p.message))

/-- What a checked call makes of what the native call shows. -/
def taken : Int32 × Option Fault → Except CallError Int32
  | (v, none) => .ok v
  | (_, some f) => .error (.fault f)

theorem taken_shown (a : Except Failure Int32) : taken (shown a) = reported a := by
  obtain (f | p) | v := a <;> rfl

variable {e : NativeEntry} {args : List Int32} {slot : Option Fault} {fuel depth : Nat}
  {a : Except Failure Int32} {r : Int32 × Option Fault}

/-- A native call is an invocation from an empty slot, whatever was in it. -/
theorem callWithin_succ : callWithin fuel (depth + 1) e args slot =
    (e.interpreter.invokeWith (callWithin fuel depth) fuel e.func (args.map Bytes.ofInt)
      (Bytes.ofInt 0) none).map fun (o, _, _) => shown o.answer := by
  rw [callWithin, ← interpreter]
  split
  · rename_i hinvoke
    rw [hinvoke]
    rfl
  · rename_i o i₁ slot₁ hinvoke
    rw [hinvoke]
    dsimp only [Option.map_some, Outcome.answer]
    obtain _ | cause := o.failure
    · rfl
    · cases cause <;> rfl

theorem callWithin_succ_eq_some_iff : callWithin fuel (depth + 1) e args slot = some r ↔
    ∃ o i' slot', e.interpreter.invokeWith (callWithin fuel depth) fuel e.func
      (args.map Bytes.ofInt) (Bytes.ofInt 0) none = some (o, i', slot') ∧ shown o.answer = r := by
  simp only [callWithin_succ, Option.map_eq_some_iff, Prod.exists]

/-! ## 2. Entry points -/

/-- A native call, at whatever depth, shows what the interpreter answers from an empty slot. -/
theorem answers_of_callWithin (h : callWithin fuel depth e args slot = some r) :
    ∃ a, e.interpreter.Answers e.func args none a ∧ r = shown a := by
  cases depth with
  | zero => cases h
  | succ depth =>
    obtain ⟨o, i', slot', hinvoke, rfl⟩ := callWithin_succ_eq_some_iff.mp h
    -- One bound for both the steps and the depth.
    have hle : NativeCall.Le (callWithin fuel depth) (call (max fuel depth)) :=
      callWithin_mono (Nat.le_max_left ..) (Nat.le_max_right ..)
    have hinvoke' := Interpreter.invokeWith_mono hle (Nat.le_max_left fuel depth) hinvoke
    exact ⟨o.answer, ⟨_, i', slot', Interpreter.callInts_eq_some_iff.mpr ⟨o, hinvoke', rfl⟩⟩, rfl⟩

theorem exists_call_of_answers (h : e.interpreter.Answers e.func args none a) :
    ∃ fuel, e.call fuel args slot = some (shown a) := by
  obtain ⟨fuel, i', slot', hcall⟩ := h
  obtain ⟨o, hinvoke, rfl⟩ := Interpreter.callInts_eq_some_iff.mp hcall
  have hle : NativeCall.Le (call fuel) (callWithin (fuel + 1) fuel) :=
    callWithin_mono (Nat.le_succ fuel) (Nat.le_refl fuel)
  have hinvoke' := Interpreter.invokeWith_mono hle (Nat.le_succ fuel) hinvoke
  exact ⟨fuel + 1, callWithin_succ_eq_some_iff.mpr ⟨o, i', slot', hinvoke', rfl⟩⟩

theorem exists_call_iff :
    (∃ fuel, e.call fuel args slot = some r) ↔
      ∃ a, e.interpreter.Answers e.func args none a ∧ r = shown a := by
  constructor
  · rintro ⟨fuel, hcall⟩
    exact answers_of_callWithin hcall
  · rintro ⟨a, ha, rfl⟩
    exact exists_call_of_answers ha

theorem invoke_of_length_ne (h : args.length ≠ e.arity) : e.invoke fuel args slot =
    some (.error (.fault (.argumentCount e.signature.name e.arity args.length)), slot) := by
  rw [invoke, if_pos h]

/-- A checked call takes what the native call left. -/
theorem invoke_eq_some_iff (hlength : args.length = e.arity) (harity : e.arity ≤ maxCheckedArity)
    {w : Except CallError Int32 × Option Fault} : e.invoke fuel args slot = some w ↔
      ∃ r, e.call fuel args none = some r ∧ w = (taken r, none) := by
  rw [invoke, if_neg (fun hne => hne hlength), if_neg (by omega)]
  cases hcall : e.call fuel args none with
  | none => simp
  | some r =>
    obtain ⟨v, _ | f⟩ := r
    · simp [taken, eq_comm]
    · simp [taken, eq_comm]

theorem exists_invoke_iff (hlength : args.length = e.arity) (harity : e.arity ≤ maxCheckedArity)
    {w : Except CallError Int32 × Option Fault} :
    (∃ fuel, e.invoke fuel args slot = some w) ↔
      ∃ a, e.interpreter.Answers e.func args none a ∧ w = (reported a, none) := by
  constructor
  · rintro ⟨fuel, hinvoke⟩
    obtain ⟨r, hcall, rfl⟩ := (invoke_eq_some_iff hlength harity).mp hinvoke
    obtain ⟨a, ha, rfl⟩ := answers_of_callWithin hcall
    exact ⟨a, ha, by rw [taken_shown]⟩
  · rintro ⟨a, ha, rfl⟩
    obtain ⟨fuel, hcall⟩ := exists_call_of_answers ha
    exact ⟨fuel, (invoke_eq_some_iff hlength harity).mpr ⟨_, hcall, by rw [taken_shown]⟩⟩

end NativeEntry

/-! ## 3. Faults of earlier calls -/

/-- The function uses no fault but those of its own native calls: one that was there before, it
takes only to forget it. -/
def HostAction.UsesOwnFaults : HostAction → Prop
  | .takeFault next => ∀ fault fault', next fault = next fault'
  | _ => True

/-- Every function of the table uses no fault but those of its own native calls. -/
def HostTable.UsesOwnFaults (t : HostTable) : Prop :=
  ∀ symbol body args, t.get? symbol = some body → (body args).UsesOwnFaults

theorem HostAction.perform_of_slot {call : NativeCall} {action : HostAction} {slot w : Option Fault}
    {answer : Answer} (hcall : ∀ e args slot slot', call e args slot = call e args slot')
    (h : action.UsesOwnFaults) (hr : action.perform call slot = some (answer, w))
    (slot' : Option Fault) : ∃ w', action.perform call slot' = some (answer, w') := by
  cases action with
  | value v =>
    cases hr
    exact ⟨slot', rfl⟩
  | panic p =>
    cases hr
    exact ⟨slot', rfl⟩
  | native entry args next =>
    -- The native call clears the slot, so that both slots are one from here on.
    rw [perform, hcall entry args slot slot', ← perform] at hr
    exact ⟨w, hr⟩
  | takeFault next =>
    rw [perform, h slot slot', ← perform] at hr
    exact ⟨w, hr⟩

/-- What is in the slot at the start shows in what is there at the end only. -/
theorem Machine.run_of_slot {H σ : Type} {env : Env H}
    {perform : H → List Int32 → σ → Option (Answer × σ)}
    (hp : ∀ symbol body, env.host? symbol = some body → ∀ args w answer w₁,
      perform body args w = some (answer, w₁) →
        ∀ w', ∃ w₁', perform body args w' = some (answer, w₁'))
    {fuel : Nat} {s : State} {w w₁ : σ} {ending : Ending} {stats : Stats}
    (h : run env perform fuel s w = some (ending, stats, w₁)) (w' : σ) :
    ∃ w₁', run env perform fuel s w' = some (ending, stats, w₁') := by
  -- On the number of steps; a step does not see the slot, a host function answers the same.
  induction fuel generalizing s w w' with
  | zero => cases h
  | succ fuel ih =>
    rw [run] at h ⊢
    split at h
    · exact ih h w'
    · cases h
      exact ⟨w', rfl⟩
    · cases h
      exact ⟨w', rfl⟩
    · rename_i body args target u hst
      obtain ⟨symbol, hsymbol⟩ := bound_of_step_host hst
      split at h
      · cases h
      · rename_i pn w₂ hperform
        obtain ⟨w₂', hperform'⟩ := hp symbol body hsymbol args w _ w₂ hperform w'
        cases h
        rw [hperform']
        exact ⟨w₂', rfl⟩
      · rename_i v w₂ hperform
        obtain ⟨w₂', hperform'⟩ := hp symbol body hsymbol args w _ w₂ hperform w'
        simp only [hperform']
        split at h
        · cases h
          exact ⟨w₂', rfl⟩
        · exact ih h w₂'

theorem NativeEntry.call_of_slot (fuel : Nat) (e : NativeEntry) (args : List Int32)
    (slot slot' : Option Fault) : e.call fuel args slot = e.call fuel args slot' := by
  cases fuel with
  | zero => rfl
  | succ fuel => rfl

namespace Interpreter

variable {i : Interpreter} {f : FuncId} {args : List Int32} {slot : Option Fault}
  {a : Except Failure Int32}

theorem Answers.of_slot (hown : i.hosts.UsesOwnFaults) (h : i.Answers f args slot a)
    (slot' : Option Fault) : i.Answers f args slot' a := by
  obtain ⟨fuel, i₁, w, hcall⟩ := h
  obtain ⟨o, hinvoke, rfl⟩ := callInts_eq_some_iff.mp hcall
  have hp : ∀ symbol body, i.env.host? symbol = some body → ∀ args w answer w₁,
      (body args).perform (NativeEntry.call fuel) w = some (answer, w₁) →
        ∀ w', ∃ w₁', (body args).perform (NativeEntry.call fuel) w' = some (answer, w₁') :=
    fun symbol body hbody args w answer w₁ hr w' => HostAction.perform_of_slot
      (NativeEntry.call_of_slot fuel) (hown symbol body args hbody) hr w'
  suffices h : ∃ i₁' w', i.invoke fuel f (args.map Bytes.ofInt) (Bytes.ofInt 0) slot' =
      some (o, i₁', w') by
    obtain ⟨i₁', w', h⟩ := h
    exact ⟨fuel, i₁', w', callInts_eq_some_iff.mpr ⟨o, h, rfl⟩⟩
  unfold invoke invokeWith at hinvoke ⊢
  dsimp only at hinvoke ⊢
  split at hinvoke
  · cases hinvoke
    exact ⟨_, _, rfl⟩
  · split at hinvoke
    · cases hinvoke
    · rename_i hrun
      obtain ⟨w', hrun'⟩ := Machine.run_of_slot hp hrun slot'
      cases hinvoke
      rw [hrun']
      exact ⟨_, _, rfl⟩

end Interpreter

/-! ## 4. The law of native calls -/

theorem Signature.firstNonInt?_eq_none {s : Signature} (h : s.allInt = true) :
    s.firstNonInt? = none := by
  rw [allInt, Bool.and_eq_true, List.all_eq_true] at h
  rw [firstNonInt?, List.find?_eq_none.mpr]
  · exact if_pos h.1
  · rintro ⟨t, i⟩ ht
    simp [h.2 t (List.fst_mem_of_mem_zipIdx ht)]

/-- Every defined function that takes at most eight integers and returns one has an entry point.
A checked call of it reports what a fresh interpreter answers, and leaves the slot empty; a native
call shows it, and leaves the fault of that answer or none.  Both end exactly if the interpreter
does, whatever was in the slot, and so do native calls inside others, at any depth.  What was in
the slot matters to the interpreter neither, unless a host function looks for a fault before it
has made a native call. -/
theorem NativeEntry.calls_answer_own {p : Program} {f : FuncId} {c : Code}
    (hc : p.linked? f = some (.code c)) (hint : c.definition.signature.allInt = true)
    (harity : c.definition.signature.args.length ≤ 8) (config : Config) (hosts : HostTable) :
    ∃ e, p.entry f config hosts = .ok e ∧ ∀ (args : List Int32) (slot : Option Fault),
      (args.length ≠ c.definition.signature.args.length → ∀ fuel, e.invoke fuel args slot =
        some (.error (.fault (.argumentCount c.definition.signature.name
          c.definition.signature.args.length args.length)), slot)) ∧
      (args.length = c.definition.signature.args.length →
        (∀ w, (∃ fuel, e.invoke fuel args slot = some w) ↔
          ∃ a, (Interpreter.fresh p config hosts).Answers f args none a ∧
            w = (reported a, none)) ∧
        (∀ r, (∃ fuel, e.call fuel args slot = some r) ↔
          ∃ a, (Interpreter.fresh p config hosts).Answers f args none a ∧ r = shown a) ∧
        ∀ fuel depth r, callWithin fuel depth e args slot = some r →
          ∃ a, (Interpreter.fresh p config hosts).Answers f args none a ∧ r = shown a) ∧
      (hosts.UsesOwnFaults → ∀ a, (Interpreter.fresh p config hosts).Answers f args slot a ↔
        (Interpreter.fresh p config hosts).Answers f args none a) := by
  refine ⟨.mk p f c.definition.signature config hosts, ?_, ?_⟩
  · rw [Program.entry, hc]
    dsimp only
    rw [Signature.firstNonInt?_eq_none hint]
  · intro args slot
    have hchecked : (mk p f c.definition.signature config hosts).arity ≤ maxCheckedArity := harity
    refine ⟨fun hne fuel => invoke_of_length_ne hne, ?_, ?_⟩
    · intro hlength
      exact ⟨fun w => exists_invoke_iff hlength hchecked, fun r => exists_call_iff,
        fun fuel depth r h => answers_of_callWithin h⟩
    · intro hown a
      exact ⟨fun h => h.of_slot hown none, fun h => h.of_slot hown slot⟩

/-- A function that calls the host, and a function that divides one by its argument. -/
def reentrant : Program :=
  ⟨#[.external ⟨⟨"h", [.int], .int⟩, "h"⟩ ⟨#[⟨0, 4⟩], 4, 4⟩,
    .code ⟨⟨⟨"main", [.int], .int⟩, #[#[.readArg ⟨0⟩ 0, .call ⟨1⟩ ⟨0⟩ [⟨0⟩], .ret ⟨1⟩]],
      #[.int, .int], #[]⟩, ⟨⟨#[⟨0, 4⟩, ⟨4, 4⟩], 8, 4⟩, 2⟩, ⟨#[⟨0, 4⟩], 4, 4⟩⟩,
    .code ⟨⟨⟨"inverse", [.int], .int⟩, #[#[.readArg ⟨0⟩ 0, .literal ⟨1⟩ 1,
        .binary ⟨2⟩ .div ⟨1⟩ ⟨0⟩, .ret ⟨2⟩]], #[.int, .int, .int], #[]⟩,
      ⟨⟨#[⟨0, 4⟩, ⟨4, 4⟩, ⟨8, 4⟩], 12, 4⟩, 3⟩, ⟨#[⟨0, 4⟩], 4, 4⟩⟩]⟩

/-- A host that calls a function of the program natively and adds one to what it shows. -/
def reentrantHosts : HostTable :=
  .bind "h" (fun args => .native (.mk reentrant ⟨2⟩ ⟨"inverse", [.int], .int⟩ .default .empty) args
    fun v => .value (v + 1)) .empty

/-- The checked call returns the value although the native call inside it failed, and whatever an
earlier call left; so does the interpreter, with that fault in the slot. -/
theorem NativeEntry.calls_answer_own_reentrant :
    ∃ e, reentrant.entry ⟨1⟩ .default reentrantHosts = .ok e ∧
      (∀ slot, ∃ fuel, e.invoke fuel [0] slot = some (.ok 1, none)) ∧
      (∀ slot, (Interpreter.fresh reentrant .default reentrantHosts).Answers ⟨1⟩ [0] slot (.ok 1)) ∧
      ∀ fuel slot, e.invoke fuel [] slot =
        some (.error (.fault (.argumentCount "main" 1 0)), slot) := by
  have hanswer : (Interpreter.fresh reentrant .default reentrantHosts).Answers ⟨1⟩ [0] none
      (.ok 1) := by
    have hcall : ((Interpreter.fresh reentrant .default reentrantHosts).callInts 6 ⟨1⟩ [0]
        none).map (·.1) = some (.ok 1) := by decide +kernel
    obtain ⟨⟨a, i', slot'⟩, hcall, rfl⟩ := Option.map_eq_some_iff.mp hcall
    exact ⟨6, i', slot', hcall⟩
  have hown : reentrantHosts.UsesOwnFaults := by
    intro symbol body args hbody
    unfold reentrantHosts HostTable.get? at hbody
    split at hbody
    · cases hbody
      trivial
    · cases hbody
  obtain ⟨e, he, hcalls⟩ :=
    calls_answer_own (p := reentrant) (f := ⟨1⟩) rfl (by decide) (by decide) .default reentrantHosts
  refine ⟨e, he, fun slot => ?_, fun slot => ?_, fun fuel slot => ?_⟩
  · exact ((hcalls [0] slot).2.1 rfl).1 _ |>.mpr ⟨.ok 1, hanswer, rfl⟩
  · exact ((hcalls [0] slot).2.2 hown (.ok 1)).mpr hanswer
  · exact (hcalls [] slot).1 (by decide) fuel

end RegIR
