import RegIR.Proofs.Agreement
/-!
# The states of a run

A run passes from state to state, and its hosts from one state of their own to the next.  It comes
from each of them to the same end.
-/

namespace RegIR

namespace Machine

variable {H σ : Type} {env : Env H} {perform : Nat → H → List Int32 → σ → Option (Answer × σ)}

/-! ## 1. Passing on -/

/-- One step of a run, with the answer that the host function gives. -/
inductive Passes (env : Env H) (perform : Nat → H → List Int32 → σ → Option (Answer × σ)) :
    State × σ → State × σ → Prop
  | next {s t : State} {w : σ} (h : step env s = .next t) : Passes env perform (s, w) (t, w)
  | host {s t u : State} {w w' : σ} {body : H} {args : List Int32} {target : Reg} {v : Int32}
      {n : Nat} (h : step env s = .host body args target u)
      (hv : perform n body args w = some (.value v, w')) (ht : u.answer target v = .ok t) :
      Passes env perform (s, w) (t, w')

/-- Some steps of a run. -/
abbrev PassesTo (env : Env H) (perform : Nat → H → List Int32 → σ → Option (Answer × σ)) :
    State × σ → State × σ → Prop :=
  Relation.ReflTransGen (Passes env perform)

variable {a b : State × σ} {r r' : Ending × Stats × σ}

theorem Passes.advances (h : Passes env perform a b) : Advances env a.1 b.1 := by
  cases h with
  | next h => exact Or.inl h
  | host h _ ht => exact Or.inr ⟨_, _, _, _, _, h, ht⟩

/-- With hosts that are functions of their arguments, the moves of the machine are steps of its
runs. -/
theorem exists_passes_of_moves {s t : State} (h : Moves env (Computes perform) s t) (w : σ) :
    ∃ w', Passes env perform (s, w) (t, w') := by
  rcases h with h | ⟨body, args, target, u, g, h, hg, ht⟩
  · exact ⟨w, .next h⟩
  · obtain ⟨n, w', hv⟩ := hg args w
    exact ⟨w', .host h hv ht⟩

theorem exists_passesTo_of_leads {s t : State} (h : Leads env (Computes perform) s t) (w : σ) :
    ∃ w', PassesTo env perform (s, w) (t, w') := by
  induction h with
  | refl => exact ⟨w, .refl⟩
  | tail _ h ih =>
    obtain ⟨w₁, h₁⟩ := ih
    obtain ⟨w₂, h₂⟩ := exists_passes_of_moves h w₁
    exact ⟨w₂, h₁.tail h₂⟩

/-! ## 2. The end of a run -/

/-- With enough steps, a run comes to the end. -/
def RunsTo (env : Env H) (perform : Nat → H → List Int32 → σ → Option (Answer × σ))
    (a : State × σ) (r : Ending × Stats × σ) : Prop :=
  ∃ n, run env (perform n) n a.1 a.2 = some r

theorem Grows.unique (hgrows : Grows perform) {n n' : Nat} {body : H} {args : List Int32} {w : σ}
    {x x' : Answer × σ} (h : perform n body args w = some x)
    (h' : perform n' body args w = some x') : x = x' := by
  have hleft := hgrows n (max n n') (Nat.le_max_left ..) _ _ _ _ h
  have hright := hgrows n' (max n n') (Nat.le_max_right ..) _ _ _ _ h'
  rw [hleft] at hright
  exact Option.some.inj hright

/-- A run has one step less to go from the next state. -/
theorem run_of_passes (hgrows : Grows perform) (h : Passes env perform a b) {n k : Nat}
    (hrun : run env (perform n) k a.1 a.2 = some r) :
    ∃ k' < k, run env (perform n) k' b.1 b.2 = some r := by
  cases k with
  | zero => cases hrun
  | succ k =>
    refine ⟨k, Nat.lt_succ_self k, ?_⟩
    rw [run] at hrun
    cases h with
    | next h =>
      rw [h] at hrun
      exact hrun
    | @host s t u w w' body args target v n' h hv ht =>
      rw [h] at hrun
      dsimp only at hrun
      cases hperform : perform n body args w with
      | none =>
        rw [hperform] at hrun
        cases hrun
      | some x =>
        cases hgrows.unique hperform hv
        rw [hperform] at hrun
        simp only [ht] at hrun
        exact hrun

/-- A run comes from the next state to the same end. -/
theorem runsTo_iff_of_passes (hgrows : Grows perform) (h : Passes env perform a b) :
    RunsTo env perform a r ↔ RunsTo env perform b r := by
  constructor
  · rintro ⟨n, hn⟩
    obtain ⟨k, hk, hrun⟩ := run_of_passes hgrows h hn
    exact ⟨n, run_mono (fun _ _ _ _ h => h) (Nat.le_of_lt hk) hrun⟩
  · rintro ⟨n, hn⟩
    cases h with
    | next h =>
      refine ⟨n + 1, ?_⟩
      rw [run, h]
      exact run_mono (hgrows n (n + 1) (Nat.le_succ n)) (Nat.le_refl n) hn
    | @host s t u w w' body args target v n' h hv ht =>
      -- The bound must do for the host function and for the rest of the run.
      refine ⟨max n n' + 1, ?_⟩
      rw [run, h]
      simp only [hgrows n' (max n n' + 1) (by omega) _ _ _ _ hv, ht]
      exact run_mono (hgrows n (max n n' + 1) (by omega)) (Nat.le_max_left n n') hn

theorem runsTo_iff_of_passesTo (hgrows : Grows perform) (h : PassesTo env perform a b) :
    RunsTo env perform a r ↔ RunsTo env perform b r := by
  induction h with
  | refl => exact Iff.rfl
  | tail _ h ih => exact ih.trans (runsTo_iff_of_passes hgrows h)

/-- The next step ends the run. -/
inductive Stops (env : Env H) (perform : Nat → H → List Int32 → σ → Option (Answer × σ)) :
    State × σ → Ending × Stats × σ → Prop
  | returned {s : State} {w : σ} {bs : Bytes} {stats : Stats} (h : step env s = .returned bs stats) :
      Stops env perform (s, w) (.returned bs, stats, w)
  | halted {s : State} {w : σ} {e : Halt} {stats : Stats} (h : step env s = .halted e stats) :
      Stops env perform (s, w) (.ofHalt e, stats, w)
  | panic {s u : State} {w w' : σ} {body : H} {args : List Int32} {target : Reg} {p : Panic}
      {n : Nat} (h : step env s = .host body args target u)
      (hp : perform n body args w = some (.panic p, w')) :
      Stops env perform (s, w) (.panic p, u.stats, w')
  | unanswered {s u : State} {w w' : σ} {body : H} {args : List Int32} {target : Reg} {v : Int32}
      {e : Halt} {n : Nat} (h : step env s = .host body args target u)
      (hv : perform n body args w = some (.value v, w')) (he : u.answer target v = .error e) :
      Stops env perform (s, w) (.ofHalt e, u.stats, w')

theorem Stops.step_of_returned {bs : Bytes} {stats : Stats} {w : σ}
    (h : Stops env perform a (.returned bs, stats, w)) : step env a.1 = .returned bs stats := by
  generalize hr : (Ending.returned bs, stats, w) = r at h
  cases h with
  | returned h =>
    cases hr
    exact h
  | @halted s w e stats h => cases e <;> cases hr
  | panic h hp => cases hr
  | @unanswered s u w w' body args target v e n h hv he => cases e <;> cases hr

theorem Stops.runsTo (hgrows : Grows perform) (h : Stops env perform a r) :
    RunsTo env perform a r := by
  cases h with
  | returned h => exact ⟨1, by rw [run, h]⟩
  | halted h => exact ⟨1, by rw [run, h]⟩
  | @panic s u w w' body args target p n h hp =>
    refine ⟨n + 1, ?_⟩
    rw [run, h]
    simp only [hgrows n (n + 1) (Nat.le_succ n) _ _ _ _ hp]
  | @unanswered s u w w' body args target v e n h hv he =>
    refine ⟨n + 1, ?_⟩
    rw [run, h]
    simp only [hgrows n (n + 1) (Nat.le_succ n) _ _ _ _ hv, he]

theorem exists_stops {n k : Nat} {s : State} {w : σ}
    (h : run env (perform n) k s w = some r) :
    ∃ b, PassesTo env perform (s, w) b ∧ Stops env perform b r := by
  -- On the number of steps: the first either stops the run or passes to a shorter one.
  induction k generalizing s w with
  | zero => cases h
  | succ k ih =>
    have hpass : ∀ {t w'}, Passes env perform (s, w) (t, w') →
        run env (perform n) k t w' = some r →
          ∃ b, PassesTo env perform (s, w) b ∧ Stops env perform b r := by
      intro t w' hp hrun
      obtain ⟨b, hb, hstops⟩ := ih hrun
      exact ⟨b, .head hp hb, hstops⟩
    rw [run] at h
    split at h
    · rename_i hstep
      exact hpass (.next hstep) h
    · rename_i hstep
      cases h
      exact ⟨_, .refl, .returned hstep⟩
    · rename_i hstep
      cases h
      exact ⟨_, .refl, .halted hstep⟩
    · rename_i hstep
      split at h
      · cases h
      · rename_i hp
        cases h
        exact ⟨_, .refl, .panic hstep hp⟩
      · rename_i hv
        split at h
        · rename_i he
          cases h
          exact ⟨_, .refl, .unanswered hstep hv he⟩
        · rename_i ht
          exact hpass (.host hstep hv ht) h

/-- A run ends by passing to a state in which it stops. -/
theorem runsTo_iff (hgrows : Grows perform) :
    RunsTo env perform a r ↔ ∃ b, PassesTo env perform a b ∧ Stops env perform b r := by
  constructor
  · rintro ⟨n, hn⟩
    exact exists_stops hn
  · rintro ⟨b, hpasses, hstops⟩
    exact (runsTo_iff_of_passesTo hgrows hpasses).mpr (hstops.runsTo hgrows)

end Machine

/-! ## 3. Invocations -/

open Machine

namespace Interpreter

variable {i : Interpreter} {f : FuncId} {args : List Bytes} {buffer : Bytes} {slot : Option Fault}
  {s : State}

/-- The counts with which the next invocation starts. -/
def counting (i : Interpreter) : Stats := { i.stats with invocations := i.stats.invocations + 1 }

/-- An invocation whose arguments are refused ends at once. -/
theorem invoke_of_refused {e : Halt}
    (h : enter i.program f args buffer.size i.counting = .error e) (fuel : Nat) :
    i.invoke fuel f args buffer slot =
      some (.ofEnding buffer (.ofHalt e), { i with stats := i.counting }, slot) := by
  unfold counting at h
  unfold invoke invokeWith
  dsimp only
  rw [h]
  rfl

/-- An invocation that starts is the run from its first state. -/
theorem invoke_of_entered (h : enter i.program f args buffer.size i.counting = .ok s)
    (fuel : Nat) : i.invoke fuel f args buffer slot =
      (run i.env (HostFunction.within fuel) fuel s slot).map fun (e, stats, slot') =>
        (.ofEnding buffer e, { i with stats }, slot') := by
  have hrun : run i.env (fun body args slot => (body args).perform (NativeEntry.call fuel) slot)
      fuel s slot = run i.env (HostFunction.within fuel) fuel s slot := rfl
  unfold counting at h
  unfold invoke invokeWith
  dsimp only
  rw [h]
  dsimp only
  rw [hrun]
  cases run i.env (HostFunction.within fuel) fuel s slot <;> rfl

/-- An invocation changes the counts of the interpreter and nothing else. -/
theorem exists_stats_of_invoke {fuel : Nat} {o : Outcome} {j : Interpreter} {slot' : Option Fault}
    (h : i.invoke fuel f args buffer slot = some (o, j, slot')) :
    ∃ stats, j = { i with stats } := by
  cases henter : enter i.program f args buffer.size i.counting with
  | error e =>
    rw [invoke_of_refused henter] at h
    cases h
    exact ⟨_, rfl⟩
  | ok s =>
    rw [invoke_of_entered henter, Option.map_eq_some_iff] at h
    obtain ⟨⟨e, stats, slot₁⟩, -, h⟩ := h
    cases h
    exact ⟨stats, rfl⟩

/-- The run of the invocation gets to the state, with the content of the fault slot. -/
def Visits (i : Interpreter) (f : FuncId) (args : List Bytes) (buffer : Bytes)
    (slot : Option Fault) (a : State × Option Fault) : Prop :=
  ∃ s, enter i.program f args buffer.size i.counting = .ok s ∧
    PassesTo i.env HostFunction.within (s, slot) a

/-- An invocation ends as the run ends from any of its states. -/
theorem exists_invoke_of_visits {a : State × Option Fault} (h : i.Visits f args buffer slot a)
    {ending : Ending} {stats : Stats} {slot' : Option Fault}
    (ha : RunsTo i.env HostFunction.within a (ending, stats, slot')) :
    ∃ fuel, i.invoke fuel f args buffer slot =
      some (.ofEnding buffer ending, { i with stats }, slot') := by
  obtain ⟨s, hs, hpasses⟩ := h
  obtain ⟨fuel, hrun⟩ := (runsTo_iff_of_passesTo HostFunction.grows_within hpasses).mpr ha
  refine ⟨fuel, ?_⟩
  rw [invoke_of_entered hs, hrun]
  rfl

end Interpreter

end RegIR
