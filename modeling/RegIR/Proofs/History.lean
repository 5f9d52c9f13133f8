import RegIR.Proofs.Leftovers
import RegIR.Proofs.NativeCalls
import RegIR.Proofs.Passages
/-!
# The history of an interpreter

Behind any history of invocations that returned or ended with a fault, an invocation does what it
does on a fresh interpreter, and adds to the counts what it counts there.
-/

namespace RegIR

namespace Machine

/-! ## 1. Runs -/

section Runs

variable {H σ : Type} {env : Env H} {perform : Nat → H → List Int32 → σ → Option (Answer × σ)}

/-- The bound host functions are functions of their arguments. -/
def Env.Computes (env : Env H) (perform : Nat → H → List Int32 → σ → Option (Answer × σ)) : Prop :=
  ∀ symbol body, env.host? symbol = some body → ∃ g, Machine.Computes perform body g

variable {a b : Stats} {s s' t : State} {w w₁ : σ}

/-- A host function answers with a value, the same from every state of the hosts. -/
theorem Env.Computes.exists_value (hhosts : env.Computes perform) (hgrows : Grows perform)
    {body : H} {args : List Int32} {target : Reg} {n : Nat} {answer : Answer}
    (hstep : step env s = .host body args target t)
    (h : perform n body args w = some (answer, w₁)) (w' : σ) :
    ∃ v n' w₁', answer = .value v ∧ perform n' body args w' = some (.value v, w₁') := by
  obtain ⟨symbol, hsymbol⟩ := bound_of_step_host hstep
  obtain ⟨g, hg⟩ := hhosts symbol body hsymbol
  obtain ⟨n₀, w₀, hvalue⟩ := hg args w
  obtain ⟨n', w₁', hvalue'⟩ := hg args w'
  cases hgrows.unique h hvalue
  exact ⟨g args, n', w₁', rfl, hvalue'⟩

namespace Shadows

variable (hhosts : env.Computes perform) (hgrows : Grows perform)
include hhosts hgrows

/-- A run passes on from one state as it does from the other. -/
theorem exists_passes (h : Shadows a b s s') (hpass : Passes env perform (s, w) (t, w₁)) (w' : σ) :
    ∃ t' w₁', Passes env perform (s', w') (t', w₁') ∧ Shadows a b t t' := by
  have hstep := h.step env
  cases hpass with
  | next ht =>
    rw [ht] at hstep
    obtain ⟨t', ht', hnext⟩ := hstep.exists_next
    exact ⟨t', w', .next ht', hnext⟩
  | @host _ _ u _ _ body args target v n hu hv ht =>
    rw [hu] at hstep
    obtain ⟨u', hu', hhost⟩ := hstep.exists_host
    -- The host function answers the same, and both registers take its answer.
    obtain ⟨v', n', w₁', hvalue, hv'⟩ := hhosts.exists_value hgrows hu hv w'
    cases hvalue
    have hanswer := hhost.answer target v
    rw [ht] at hanswer
    obtain ⟨t', ht', hnext⟩ := hanswer.exists_ok
    exact ⟨t', w₁', .host hu' hv' ht', hnext⟩

theorem exists_passesTo (h : Shadows a b s s') {c : State × σ}
    (hpasses : PassesTo env perform (s, w) c) (w' : σ) :
    ∃ c', PassesTo env perform (s', w') c' ∧ Shadows a b c.1 c'.1 := by
  induction hpasses with
  | refl => exact ⟨_, .refl, h⟩
  | tail _ hpass ih =>
    obtain ⟨c', hpasses', h'⟩ := ih
    obtain ⟨t', w₁', hpass', hnext⟩ := exists_passes hhosts hgrows h' hpass c'.2
    exact ⟨_, hpasses'.tail hpass', hnext⟩

/-- A run stops in one state as it does in the other. -/
theorem exists_stops (h : Shadows a b s s') {ending : Ending} {x : Stats}
    (hstops : Stops env perform (s, w) (ending, x, w₁)) (w' : σ) :
    ∃ x' w₁', Stops env perform (s', w') (ending, x', w₁') ∧ a.add x = b.add x' := by
  have hstep := h.step env
  cases hstops with
  | returned ht =>
    rw [ht] at hstep
    obtain ⟨x', hx', hstats⟩ := hstep.exists_returned
    exact ⟨x', w', .returned hx', hstats⟩
  | halted ht =>
    rw [ht] at hstep
    obtain ⟨x', hx', hstats⟩ := hstep.exists_halted
    exact ⟨x', w', .halted hx', hstats⟩
  | panic hu hp =>
    obtain ⟨v, -, -, hvalue, -⟩ := hhosts.exists_value hgrows hu hp w'
    cases hvalue
  | @unanswered _ u _ _ body args target v e n hu hv he =>
    rw [hu] at hstep
    obtain ⟨u', hu', hhost⟩ := hstep.exists_host
    obtain ⟨v', n', w₁', hvalue, hv'⟩ := hhosts.exists_value hgrows hu hv w'
    cases hvalue
    have hanswer := hhost.answer target v
    rw [he] at hanswer
    exact ⟨u'.stats, w₁', .unanswered hu' hv' hanswer.eq_error, hhost.stats⟩

/-- Runs from both states come to the same end, whatever the states of their hosts. -/
theorem exists_runsTo (h : Shadows a b s s') {ending : Ending} {x : Stats}
    (hrun : RunsTo env perform (s, w) (ending, x, w₁)) (w' : σ) :
    ∃ x' w₁', RunsTo env perform (s', w') (ending, x', w₁') ∧ a.add x = b.add x' := by
  obtain ⟨⟨t, w₂⟩, hpasses, hstops⟩ := (runsTo_iff hgrows).mp hrun
  obtain ⟨⟨t', w₂'⟩, hpasses', h'⟩ := exists_passesTo hhosts hgrows h hpasses w'
  obtain ⟨x', w₁', hstops', hstats⟩ := exists_stops hhosts hgrows h' hstops w₂'
  exact ⟨x', w₁', (runsTo_iff hgrows).mpr ⟨_, hpasses', hstops'⟩, hstats⟩

end Shadows

end Runs

theorem enterOn_empty (p : Program) (f : FuncId) (args : List Bytes) (returnSize : Nat)
    (stats : Stats) : enterOn .empty p f args returnSize stats = enter p f args returnSize stats :=
  rfl

end Machine

open Machine

/-! ## 2. Invocations of a session -/

/-- The invocation ends with the outcome and the counts, within some bound. -/
def Interpreter.Invokes (i : Interpreter) (f : FuncId) (args : List Bytes) (buffer : Bytes)
    (slot : Option Fault) (o : Outcome) (stats : Stats) : Prop :=
  ∃ fuel i' slot', i.invoke fuel f args buffer slot = some (o, i', slot') ∧ i'.stats = stats

/-- The call on integers ends with the answer and the counts, within some bound. -/
def Interpreter.Calls (i : Interpreter) (f : FuncId) (args : List Int32) (slot : Option Fault)
    (a : Except Failure Int32) (stats : Stats) : Prop :=
  ∃ fuel i' slot', i.callInts fuel f args slot = some (a, i', slot') ∧ i'.stats = stats

theorem Interpreter.calls_iff {i : Interpreter} {f : FuncId} {args : List Int32}
    {slot : Option Fault} {a : Except Failure Int32} {stats : Stats} :
    i.Calls f args slot a stats ↔
      ∃ o, i.Invokes f (args.map Bytes.ofInt) (Bytes.ofInt 0) slot o stats ∧ o.answer = a := by
  constructor
  · rintro ⟨fuel, i', slot', hcall, hstats⟩
    obtain ⟨o, hinvoke, ha⟩ := callInts_eq_some_iff.mp hcall
    exact ⟨o, ⟨fuel, i', slot', hinvoke, hstats⟩, ha⟩
  · rintro ⟨o, ⟨fuel, i', slot', hinvoke, hstats⟩, ha⟩
    exact ⟨fuel, i', slot', callInts_eq_some_iff.mpr ⟨o, hinvoke, ha⟩, hstats⟩

theorem HostTable.Computes.env {i : Interpreter} {answers : Reference.Hosts}
    (h : i.hosts.Computes answers) : i.env.Computes HostFunction.within := by
  intro symbol body hbody
  have hrel : Option.Rel (Machine.Computes HostFunction.within) (some body) (answers symbol) := by
    rw [← hbody]
    exact h symbol
  generalize answers symbol = g at hrel
  cases hrel with
  | some hg => exact ⟨_, hg⟩

namespace Session

variable {k k' : Session} {left : Storage} {f : FuncId} {args : List Bytes} {buffer : Bytes}
  {slot slot' : Option Fault} {o : Outcome} {fuel : Nat}

/-- The invocation ends with the outcome and the counts, within some bound. -/
def Invokes (k : Session) (left : Storage) (f : FuncId) (args : List Bytes) (buffer : Bytes)
    (slot : Option Fault) (o : Outcome) (stats : Stats) : Prop :=
  ∃ fuel k' slot', k.invoke left fuel f args buffer slot = some (o, k', slot') ∧ k'.stats = stats

/-- The call on integers ends with the answer and the counts, within some bound. -/
def Calls (k : Session) (left : Storage) (f : FuncId) (args : List Int32) (slot : Option Fault)
    (a : Except Failure Int32) (stats : Stats) : Prop :=
  ∃ fuel k' slot', k.callInts left fuel f args slot = some (a, k', slot') ∧ k'.stats = stats

theorem callInts_eq_some_iff {args : List Int32} {a : Except Failure Int32} :
    k.callInts left fuel f args slot = some (a, k', slot') ↔
      ∃ o, k.invoke left fuel f (args.map Bytes.ofInt) (Bytes.ofInt 0) slot = some (o, k', slot') ∧
        o.answer = a := by
  have hmap : k.callInts left fuel f args slot =
      (k.invoke left fuel f (args.map Bytes.ofInt) (Bytes.ofInt 0) slot).map
        fun (o, k', slot') => (o.answer, k', slot') := by
    unfold callInts Outcome.answer
    split
    · rename_i hinvoke
      rw [hinvoke]
      rfl
    · rename_i o k₁ slot₁ hinvoke
      rw [hinvoke]
      dsimp only [Option.map_some]
      cases o.failure <;> rfl
  rw [hmap, Option.map_eq_some_iff]
  constructor
  · rintro ⟨⟨o, k₁, slot₁⟩, hinvoke, h⟩
    cases h
    exact ⟨o, hinvoke, rfl⟩
  · rintro ⟨o, hinvoke, rfl⟩
    exact ⟨_, hinvoke, rfl⟩

theorem calls_iff {args : List Int32} {a : Except Failure Int32} {stats : Stats} :
    k.Calls left f args slot a stats ↔
      ∃ o, k.Invokes left f (args.map Bytes.ofInt) (Bytes.ofInt 0) slot o stats ∧ o.answer = a := by
  constructor
  · rintro ⟨fuel, k', slot', hcall, hstats⟩
    obtain ⟨o, hinvoke, ha⟩ := callInts_eq_some_iff.mp hcall
    exact ⟨o, ⟨fuel, k', slot', hinvoke, hstats⟩, ha⟩
  · rintro ⟨o, ⟨fuel, k', slot', hinvoke, hstats⟩, ha⟩
    exact ⟨fuel, k', slot', callInts_eq_some_iff.mpr ⟨o, hinvoke, ha⟩, hstats⟩

/-- An invocation whose arguments are refused ends at once. -/
theorem invoke_of_refused {e : Halt}
    (h : enterOn k.storage k.interpreter.program f args buffer.size k.interpreter.counting =
      .error e) (left : Storage) (fuel : Nat) (slot : Option Fault) :
    k.invoke left fuel f args buffer slot =
      some (.ofEnding buffer (.ofHalt e),
        k.leave left (.ofEnding buffer (.ofHalt e)) k.interpreter.counting, slot) := by
  unfold Interpreter.counting at h
  unfold invoke
  dsimp only
  rw [h]
  rfl

/-- An invocation that starts is the run from its first state. -/
theorem invoke_of_entered {s : State}
    (h : enterOn k.storage k.interpreter.program f args buffer.size k.interpreter.counting = .ok s)
    (left : Storage) (fuel : Nat) (slot : Option Fault) :
    k.invoke left fuel f args buffer slot =
      (run k.interpreter.env (HostFunction.within fuel) fuel s slot).map fun (e, stats, slot') =>
        (.ofEnding buffer e, k.leave left (.ofEnding buffer e) stats, slot') := by
  have hrun : run k.interpreter.env
      (fun body args slot => (body args).perform (NativeEntry.call fuel) slot) fuel s slot =
        run k.interpreter.env (HostFunction.within fuel) fuel s slot := rfl
  unfold Interpreter.counting at h
  unfold invoke
  dsimp only
  rw [h]
  dsimp only
  rw [hrun]
  cases run k.interpreter.env (HostFunction.within fuel) fuel s slot <;> rfl

/-- On empty storage a session does what its interpreter does. -/
theorem invoke_of_empty (i : Interpreter) : invoke left fuel ⟨i, .empty⟩ f args buffer slot =
    (i.invoke fuel f args buffer slot).map fun (o, i', slot') =>
      (o, ⟨i', left.after o⟩, slot') := by
  cases h : enterOn .empty i.program f args buffer.size i.counting with
  | error e =>
    rw [invoke_of_refused (k := ⟨i, .empty⟩) h]
    rw [enterOn_empty] at h
    rw [i.invoke_of_refused h]
    rfl
  | ok s =>
    rw [invoke_of_entered (k := ⟨i, .empty⟩) h]
    rw [enterOn_empty] at h
    rw [i.invoke_of_entered h, Option.map_map]
    rfl

theorem exists_leave_of_invoke
    (h : k.invoke left fuel f args buffer slot = some (o, k', slot')) :
    ∃ ending stats, o = .ofEnding buffer ending ∧ k' = k.leave left o stats := by
  cases henter : enterOn k.storage k.interpreter.program f args buffer.size
      k.interpreter.counting with
  | error e =>
    rw [invoke_of_refused henter] at h
    cases h
    exact ⟨_, _, rfl, rfl⟩
  | ok s =>
    rw [invoke_of_entered henter, Option.map_eq_some_iff] at h
    obtain ⟨⟨ending, stats, slot₁⟩, -, h⟩ := h
    cases h
    exact ⟨ending, stats, rfl, rfl⟩

/-! ## 3. Sessions with the same storage -/

/-- The same session for every invocation: what differs is the leftover bytes, and what was counted
before. -/
structure Shadows (a b : Stats) (k j : Session) : Prop where
  program : k.interpreter.program = j.interpreter.program
  config : k.interpreter.config = j.interpreter.config
  hosts : k.interpreter.hosts = j.interpreter.hosts
  stack : Memory.Same k.storage.stack j.storage.stack
  live : k.storage.live = j.storage.live
  stats : a.add k.stats = b.add j.stats

namespace Shadows

variable {a b : Stats} {j : Session} (h : Shadows a b k j)
include h

theorem symm : Shadows b a j k :=
  ⟨h.program.symm, h.config.symm, h.hosts.symm, h.stack.symm, h.live.symm, h.stats.symm⟩

theorem env_eq : k.interpreter.env = j.interpreter.env := by
  simp only [Interpreter.env, h.program, h.config, h.hosts]

/-- The invocation ends alike in both sessions, and counts alike. -/
theorem invokes {answers : Reference.Hosts} (hhosts : j.interpreter.hosts.Computes answers)
    {stats : Stats} (hk : k.Invokes left f args buffer slot o stats) (left' : Storage)
    (slot₁ : Option Fault) :
    ∃ stats', j.Invokes left' f args buffer slot₁ o stats' ∧ a.add stats = b.add stats' := by
  obtain ⟨fuel, k', slot', hinvoke, rfl⟩ := hk
  have hcounting : a.add k.interpreter.counting = b.add j.interpreter.counting :=
    Stats.add_counts_congr h.stats 1 0 0
  have hstart := alike_enterOn hcounting h.stack h.live k.interpreter.program f args buffer.size
  cases hs : enterOn k.storage k.interpreter.program f args buffer.size
      k.interpreter.counting with
  | error e =>
    rw [hs, h.program] at hstart
    rw [invoke_of_refused hs] at hinvoke
    cases hinvoke
    exact ⟨_, ⟨0, _, slot₁, invoke_of_refused hstart.eq_error left' 0 slot₁, rfl⟩, hcounting⟩
  | ok s =>
    rw [hs, h.program] at hstart
    obtain ⟨s', hs', hshadows⟩ := hstart.exists_ok
    rw [invoke_of_entered hs, Option.map_eq_some_iff] at hinvoke
    obtain ⟨⟨ending, x, w⟩, hrun, hinvoke⟩ := hinvoke
    cases hinvoke
    -- The runs come to the same end.
    rw [h.env_eq] at hrun
    obtain ⟨x', w', ⟨fuel', hrun'⟩, hstats⟩ :=
      hshadows.exists_runsTo hhosts.env HostFunction.grows_within ⟨fuel, hrun⟩ slot₁
    refine ⟨x', ⟨fuel', j.leave left' (.ofEnding buffer ending) x', w', ?_, rfl⟩, hstats⟩
    rw [invoke_of_entered hs', hrun']
    rfl

end Shadows

/-! ## 4. Histories -/

variable {p : Program} {config : Config} {table : HostTable}

theorem shadows_start : Shadows .zero (start p config table).stats (start p config table)
    (start p config table) :=
  ⟨rfl, rfl, rfl, fun _ => rfl, rfl, rfl⟩

/-- An invocation that returned or ended with a fault leaves nothing to see. -/
theorem Shadows.of_invoke (h : Shadows .zero k.stats k (start p config table))
    (hinvoke : k.invoke left fuel f args buffer slot = some (o, k', slot'))
    (ho : ∀ p, o.failure ≠ some (.panic p)) :
    Shadows .zero k'.stats k' (start p config table) := by
  obtain ⟨ending, stats, -, rfl⟩ := exists_leave_of_invoke hinvoke
  have hafter : (k.leave left o stats).storage = left.clear := by
    show left.after o = left.clear
    unfold Storage.after
    split
    · rename_i p hp
      exact absurd hp (ho p)
    · rfl
  refine ⟨h.program, h.config, h.hosts, ?_, ?_, ?_⟩
  · rw [hafter]
    exact Memory.same_cut_zero _
  · rw [hafter]
    rfl
  · rw [Stats.zero_add]
    exact (Stats.add_zero _).symm

/-- Whatever a session has gone through, it can be told from a fresh one by its counts only. -/
theorem shadows_of_goes (h : Relation.ReflTransGen Goes (start p config table) k) :
    Shadows .zero k.stats k (start p config table) := by
  induction h with
  | refl => exact shadows_start
  | tail _ hgoes ih =>
    cases hgoes with
    | invoke hinvoke ho => exact ih.of_invoke hinvoke ho
    | callInts hcall ha =>
      obtain ⟨o, hinvoke, rfl⟩ := callInts_eq_some_iff.mp hcall
      refine ih.of_invoke hinvoke fun p hp => ha p ?_
      rw [Outcome.answer, hp]

/-- A fresh session does what a fresh interpreter does. -/
theorem invokes_start_iff {stats : Stats} :
    (start p config table).Invokes left f args buffer slot o stats ↔
      (Interpreter.fresh p config table).Invokes f args buffer slot o stats := by
  unfold Invokes Interpreter.Invokes start
  simp only [invoke_of_empty, Option.map_eq_some_iff, Prod.exists]
  constructor
  · rintro ⟨fuel, k', slot', ⟨o', i', w, hinvoke, h⟩, rfl⟩
    cases h
    exact ⟨fuel, i', slot', hinvoke, rfl⟩
  · rintro ⟨fuel, i', slot', hinvoke, rfl⟩
    exact ⟨fuel, _, slot', ⟨o, i', slot', hinvoke, rfl⟩, rfl⟩

/-- Behind a history an invocation ends as on a fresh interpreter, and adds its counts. -/
theorem invokes_iff {answers : Reference.Hosts} (hhosts : table.Computes answers)
    (h : Shadows .zero k.stats k (start p config table)) (slot₀ : Option Fault) {stats : Stats} :
    k.Invokes left f args buffer slot o stats ↔
      ∃ own, (Interpreter.fresh p config table).Invokes f args buffer slot₀ o own ∧
        stats = k.stats.add own := by
  constructor
  · intro hk
    obtain ⟨own, hfresh, hstats⟩ := h.invokes hhosts hk .empty slot₀
    rw [Stats.zero_add] at hstats
    exact ⟨own, invokes_start_iff.mp hfresh, hstats⟩
  · rintro ⟨own, hfresh, rfl⟩
    have hk : k.interpreter.hosts.Computes answers := by
      rw [h.hosts]
      exact hhosts
    have hstart : (start p config table).Invokes .empty f args buffer slot₀ o own :=
      invokes_start_iff.mpr hfresh
    obtain ⟨stats, hinvokes, hstats⟩ := h.symm.invokes hk hstart left slot
    rw [Stats.zero_add] at hstats
    rwa [hstats]

/-- An invocation that fails keeps the bytes of the return buffer. -/
theorem buffer_of_failure {stats : Stats} (h : k.Invokes left f args buffer slot o stats)
    (ho : o.failure ≠ none) : o.buffer = buffer := by
  obtain ⟨fuel, k', slot', hinvoke, -⟩ := h
  obtain ⟨ending, stats', rfl, -⟩ := exists_leave_of_invoke hinvoke
  cases ending with
  | fault f => rfl
  | panic p => rfl
  | returned v =>
    unfold Outcome.ofEnding at ho ⊢
    dsimp only at ho ⊢
    split
    · rename_i hsize
      rw [if_pos hsize] at ho
      exact absurd rfl ho
    · rfl

/-- With host functions that are functions of their arguments, and behind any invocations and calls
that returned or ended with a fault, an invocation ends exactly if it does on a fresh interpreter,
with the same outcome, whatever it and the earlier ones have left in the storage and whatever native
calls have left in the fault slot.  It adds to the counts what the fresh interpreter counts, and the
depth is the greater of both.  The same holds of a call on integers.  An invocation that fails, in
any session, keeps the bytes of the return buffer. -/
theorem carries_no_history {answers : Reference.Hosts} (hhosts : table.Computes answers)
    (hk : Relation.ReflTransGen Goes (start p config table) k) (f : FuncId) :
    (∀ left args buffer slot slot₀ o stats, k.Invokes left f args buffer slot o stats ↔
      ∃ own, (Interpreter.fresh p config table).Invokes f args buffer slot₀ o own ∧
        stats = k.stats.add own) ∧
    (∀ left args slot slot₀ a stats, k.Calls left f args slot a stats ↔
      ∃ own, (Interpreter.fresh p config table).Calls f args slot₀ a own ∧
        stats = k.stats.add own) ∧
    ∀ (j : Session) left args buffer slot o stats, j.Invokes left f args buffer slot o stats →
      o.failure ≠ none → o.buffer = buffer := by
  have hshadows := shadows_of_goes hk
  refine ⟨fun left args buffer slot slot₀ o stats => invokes_iff hhosts hshadows slot₀, ?_,
    fun j left args buffer slot o stats => buffer_of_failure⟩
  intro left args slot slot₀ a stats
  rw [calls_iff]
  constructor
  · rintro ⟨o, hinvokes, ha⟩
    obtain ⟨own, hfresh, hstats⟩ := (invokes_iff hhosts hshadows slot₀).mp hinvokes
    exact ⟨own, Interpreter.calls_iff.mpr ⟨o, hfresh, ha⟩, hstats⟩
  · rintro ⟨own, hfresh, hstats⟩
    obtain ⟨o, hinvokes, ha⟩ := Interpreter.calls_iff.mp hfresh
    exact ⟨o, (invokes_iff hhosts hshadows slot₀).mpr ⟨own, hinvokes, hstats⟩, ha⟩

/-- A division by zero that leaves bytes behind does not show in the next division. -/
theorem carries_no_history_reentrant : ∃ k : Session, ∃ fuel,
    (start reentrant .default .empty).callInts ⟨Memory.empty.grow 64, #[]⟩ fuel ⟨2⟩ [0] none =
      some (.error (.fault (.divisionByZero "inverse")), k, none) ∧
    ∀ left slot, k.Calls left ⟨2⟩ [1] slot (.ok 1) (k.stats.add ⟨1, 0, 4, 1⟩) := by
  have hhosts : HostTable.empty.Computes fun _ => none := fun _ => .none
  have hfirst : ((start reentrant .default .empty).callInts ⟨Memory.empty.grow 64, #[]⟩ 5 ⟨2⟩ [0]
      none).map (fun x => (x.1, x.2.2)) =
        some (.error (.fault (.divisionByZero "inverse")), none) := by decide +kernel
  have hsecond : ((Interpreter.fresh reentrant .default .empty).callInts 5 ⟨2⟩ [1] none).map
      (fun x => (x.1, x.2.1.stats)) = some (.ok 1, ⟨1, 0, 4, 1⟩) := by decide +kernel
  obtain ⟨⟨a, k, slot'⟩, hcall, h⟩ := Option.map_eq_some_iff.mp hfirst
  obtain ⟨rfl, rfl⟩ := Prod.mk.inj h
  obtain ⟨⟨a, i', slot'⟩, hown, h⟩ := Option.map_eq_some_iff.mp hsecond
  obtain ⟨rfl, hstats⟩ := Prod.mk.inj h
  refine ⟨k, 5, hcall, fun left slot => ?_⟩
  have hgoes : Goes (start reentrant .default .empty) k := .callInts hcall fun p hp => by cases hp
  refine ((carries_no_history hhosts (.single hgoes) ⟨2⟩).2.1 left [1] slot none (.ok 1) _).mpr ?_
  exact ⟨_, ⟨5, i', slot', hown, hstats⟩, rfl⟩

end Session

end RegIR
