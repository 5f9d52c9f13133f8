import RegIR.Proofs.Passages
/-!
# The limit on live activations

A limit shows in nothing but the calls that it refuses.  Up to the first call of a defined function
at the limit, the limited run and the unlimited one go through the same states; there the limited
one ends.
-/

namespace RegIR

/-- The counts behind a call that is refused. -/
def Stats.refusing (stats : Stats) : Stats :=
  { stats with instructions := stats.instructions + 1, calls := stats.calls + 1 }

namespace Machine

variable {H σ : Type}

/-! ## 1. Steps and depth -/

/-- The state is about to call a defined function. -/
def State.Nests (p : Program) (s : State) : Prop :=
  ∃ target callee args c, s.calls.top.operation? = some (.call target callee args) ∧
    p.linked? callee = some (.code c)

/-- The transition starts no activation. -/
def Transition.Flat (s : State) : Transition H → Prop
  | .next t => t.calls.depth ≤ s.calls.depth ∧ t.stats.maxDepth = s.stats.maxDepth
  | .host _ _ _ u => u.calls.depth = s.calls.depth ∧ u.stats.maxDepth = s.stats.maxDepth
  | .returned _ stats | .halted _ stats => stats.maxDepth = s.stats.maxDepth

/-- The transition starts one activation, which the limit allows, unless it halts. -/
def Transition.Deep (limit : Option Nat) (s : State) : Transition H → Prop
  | .next t => checkDepth limit s.calls.depth = .ok () ∧ t.calls.depth = s.calls.depth + 1 ∧
      t.stats.maxDepth = max s.stats.maxDepth t.calls.depth
  | .halted _ stats => stats.maxDepth = s.stats.maxDepth
  | .returned _ _ | .host _ _ _ _ => False

section Flat

variable {m : Memory} {calls : CallStack} {stats stats' : Stats}
  (hstats : stats'.maxDepth = stats.maxDepth)
include hstats

theorem flat_andAdvance (x : Exec Memory) :
    (andAdvance (H := H) calls stats' x).Flat ⟨m, calls, stats⟩ := by
  cases x with
  | error e => exact hstats
  | ok n => exact ⟨Nat.le_refl _, hstats⟩

theorem flat_execReturn (value : Reg) :
    (execReturn (H := H) m calls stats' value).Flat ⟨m, calls, stats⟩ := by
  unfold execReturn
  cases returned calls.top m value with
  | error e => exact hstats
  | ok src =>
    dsimp only
    cases calls.below.back? with
    | none =>
      dsimp only
      cases m.area src.start src.stop <;> exact hstats
    | some u =>
      dsimp only
      cases m.copyWithin src.start src.stop u.returnTo with
      | error v => exact hstats
      | ok n =>
        refine ⟨?_, hstats⟩
        show calls.below.pop.size + 1 ≤ calls.below.size + 1
        rw [Array.size_pop]
        omega

end Flat

variable {env : Env H} {s : State}

/-- Every other step keeps the number of live activations, or lowers it. -/
theorem flat_step (h : ¬ s.Nests env.program) : (step env s).Flat s := by
  obtain ⟨m, calls, stats⟩ := s
  cases hop : calls.top.operation? with
  | none =>
    simp only [step, hop]
    rfl
  | some op =>
    rw [step_of_operation? hop]
    cases op with
    | call target callee args =>
      simp only [execute, execCall]
      split
      · split
        · rfl
        · split
          · rfl
          · split
            · rfl
            · exact ⟨rfl, rfl⟩
      · -- Without a defined callee the call gets nowhere.
        split
        · rfl
        · rename_i henter
          unfold enterCall at henter
          obtain ⟨-, -, henter⟩ := Except.bind_eq_ok.mp henter
          obtain ⟨c, hc, -⟩ := Except.bind_eq_ok.mp henter
          exact absurd ⟨target, callee, args, c, hop, codeOf_eq_ok.mp hc⟩ h
    | branch b => exact ⟨Nat.le_refl _, rfl⟩
    | condBranch test b c =>
      simp only [execute]
      split
      · rfl
      · exact ⟨Nat.le_refl _, rfl⟩
    | ret value => exact flat_execReturn rfl value
    | _ => exact flat_andAdvance (m := m) rfl _

theorem deep_step (h : s.Nests env.program) : (step env s).Deep env.maxCallDepth s := by
  obtain ⟨target, callee, args, c, hop, hc⟩ := h
  rw [step_eq hop]
  simp only [execute, execCall, hc]
  split
  · rfl
  · rename_i n calls henter
    unfold enterCall at henter
    obtain ⟨⟨⟩, hcheck, henter⟩ := Except.bind_eq_ok.mp henter
    obtain ⟨c, -, henter⟩ := Except.bind_eq_ok.mp henter
    split at henter
    · cases henter
    · obtain ⟨m₁, -, henter⟩ := Except.bind_eq_ok.mp henter
      obtain ⟨dst, -, henter⟩ := Except.bind_eq_ok.mp henter
      cases henter
      refine ⟨hcheck, ?_, rfl⟩
      show (Array.push _ _).size + 1 = _
      rw [Array.size_push]
      rfl

/-- An answer goes to a register, and leaves all but the stack as it was. -/
theorem State.answer_keeps {t : State} {target : Reg} {v : Int32} (h : s.answer target v = .ok t) :
    t.calls = s.calls ∧ t.stats = s.stats := by
  obtain ⟨n, -, h⟩ := Except.bind_eq_ok.mp h
  cases h
  exact ⟨rfl, rfl⟩

theorem lt_of_checkDepth {limit depth : Nat} (h : checkDepth (some limit) depth = .ok ()) :
    depth < limit := by
  unfold checkDepth at h
  dsimp only at h
  split at h
  · cases h
  · omega

/-- Only the call of a defined function makes the stack of activations grow, by one. -/
theorem Advances.depth {t : State} (h : Advances env s t) :
    ¬ s.Nests env.program ∧ t.calls.depth ≤ s.calls.depth ∧
        t.stats.maxDepth = s.stats.maxDepth ∨
      s.Nests env.program ∧ checkDepth env.maxCallDepth s.calls.depth = .ok () ∧
        t.calls.depth = s.calls.depth + 1 ∧
        t.stats.maxDepth = max s.stats.maxDepth t.calls.depth := by
  by_cases hnests : s.Nests env.program
  · have hdeep := deep_step hnests
    refine Or.inr ⟨hnests, ?_⟩
    rcases h with hstep | ⟨_, _, _, _, _, hstep, -⟩
    · rw [hstep] at hdeep
      exact hdeep
    · rw [hstep] at hdeep
      exact absurd hdeep id
  · have hflat := flat_step hnests
    refine Or.inl ⟨hnests, ?_⟩
    rcases h with hstep | ⟨_, _, _, _, _, hstep, ht⟩
    · rw [hstep] at hflat
      exact hflat
    · rw [hstep] at hflat
      obtain ⟨hcalls, hstats⟩ := State.answer_keeps ht
      rw [hcalls, hstats]
      exact ⟨Nat.le_of_eq hflat.1, hflat.2⟩

/-! ## 2. Two runs -/

/-- The same machine with another limit. -/
def Env.withLimit (env : Env H) (limit : Option Nat) : Env H := { env with maxCallDepth := limit }

/-- The state is about to call a defined function with as many live activations as a limit
allows. The outermost one is always allowed. -/
def State.Overruns (p : Program) (limit : Nat) (s : State) : Prop :=
  s.Nests p ∧ max limit 1 ≤ s.calls.depth

theorem State.Nests.lt_of_not_overruns {p : Program} {limit : Nat} (h : s.Nests p)
    (hs : ¬ s.Overruns p limit) : s.calls.depth < limit := by
  have hlt : s.calls.depth < max limit 1 := Nat.lt_of_not_le fun hle => hs ⟨h, hle⟩
  have hpos : 1 ≤ s.calls.depth := Nat.succ_le_succ (Nat.zero_le _)
  omega

/-- In a program whose calls name its functions, the limit is looked at in calls only. -/
theorem step_withLimit {limit : Nat} (hsound : env.program.Sound) (hs : Stacked env.program s)
    (h : ¬ s.Overruns env.program limit) :
    step (env.withLimit (some limit)) s = step (env.withLimit none) s := by
  obtain ⟨f, hf⟩ := hs.linked _ _ s.calls.activation?_top
  obtain ⟨m, calls, stats⟩ := s
  cases hop : calls.top.operation? with
  | none => simp only [step, hop]
  | some op =>
    rw [step_of_operation? hop, step_of_operation? hop]
    cases op with
    | call target callee args =>
      have hty := hsound.wellTyped f _ hf _ _ _ (Activation.operation?_eq_some.mp hop)
      obtain ⟨sig, hsig, -⟩ := id hty
      obtain ⟨fn, hfn, -⟩ := Option.map_eq_some_iff.mp hsig
      obtain ⟨linked, hl, -⟩ := Option.map_eq_some_iff.mp hfn
      have hl₁ : (env.withLimit (some limit)).program.linked? callee = some linked := hl
      have hl₂ : (env.withLimit none).program.linked? callee = some linked := hl
      simp only [execute, execCall, hl₁, hl₂]
      cases linked with
      | external e l => rfl
      | code c =>
        have hlt := State.Nests.lt_of_not_overruns ⟨target, callee, args, c, hop, hl⟩ h
        have hcheck : checkDepth (some limit) calls.depth = .ok () := if_neg (Nat.not_le_of_lt hlt)
        have henter : enterCall (env.withLimit (some limit)) m calls target callee args =
            enterCall (env.withLimit none) m calls target callee args := by
          unfold enterCall Env.withLimit
          rw [hcheck]
          rfl
        simp only [henter]
    | _ => rfl

/-- A call at the limit is refused before anything else happens. -/
theorem step_of_overruns {limit : Nat} (h : s.Overruns env.program limit) :
    step (env.withLimit (some limit)) s =
      .halted (.fault (.callDepthExceeded limit)) s.stats.refusing := by
  obtain ⟨⟨target, callee, args, c, hop, hc⟩, hle⟩ := h
  have hc' : (env.withLimit (some limit)).program.linked? callee = some (.code c) := hc
  have hcheck : checkDepth (some limit) s.calls.depth =
      .error (.fault (.callDepthExceeded limit)) :=
    if_pos (Nat.le_trans (Nat.le_max_left limit 1) hle)
  have henter : enterCall (env.withLimit (some limit)) s.stack s.calls target callee args =
      .error (.fault (.callDepthExceeded limit)) := by
    unfold enterCall Env.withLimit
    rw [hcheck]
    rfl
  rw [step_eq hop]
  simp only [execute, execCall, hc', henter]
  rfl

section Runs

variable {perform : Nat → H → List Int32 → σ → Option (Answer × σ)} {a b : State × σ} {limit : Nat}

theorem stacked_of_passes_withLimit {l : Option Nat} (hlaid : env.program.Laid)
    (hs : Stacked env.program a.1) (h : Passes (env.withLimit l) perform a b) :
    Stacked env.program b.1 := by
  have hlaid' : (env.withLimit l).program.Laid := hlaid
  exact (Stacked.advances hlaid' hs h.advances).2

theorem passes_withLimit (hsound : env.program.Sound) (hs : Stacked env.program a.1)
    (h : ¬ a.1.Overruns env.program limit) :
    Passes (env.withLimit (some limit)) perform a b ↔ Passes (env.withLimit none) perform a b := by
  have hstep := step_withLimit hsound hs h
  constructor
  · intro hp
    cases hp with
    | next hn => exact .next (hstep.symm.trans hn)
    | host hn hv ht => exact .host (hstep.symm.trans hn) hv ht
  · intro hp
    cases hp with
    | next hn => exact .next (hstep.trans hn)
    | host hn hv ht => exact .host (hstep.trans hn) hv ht

/-- The limited run goes through the states of the unlimited one as long as they are allowed. -/
theorem passesTo_withLimit (hsound : env.program.Sound) (hs : Stacked env.program a.1)
    (h : Relation.ReflTransGen (fun b c => ¬ b.1.Overruns env.program limit ∧
      Passes (env.withLimit none) perform b c) a b) :
    PassesTo (env.withLimit (some limit)) perform a b ∧ Stacked env.program b.1 := by
  induction h with
  | refl => exact ⟨.refl, hs⟩
  | tail _ h ih =>
    obtain ⟨hpasses, hs⟩ := ih
    exact ⟨hpasses.tail ((passes_withLimit hsound hs h.1).mpr h.2),
      stacked_of_passes_withLimit hsound.laid hs h.2⟩

/-- Both runs are the same when the unlimited one does not overrun the limit. -/
theorem run_withLimit (hsound : env.program.Sound) {s : State} {w : σ}
    (hs : Stacked env.program s) (h : ∀ b, PassesTo (env.withLimit none) perform (s, w) b →
      ¬ b.1.Overruns env.program limit) (n k : Nat) :
    run (env.withLimit (some limit)) (perform n) k s w =
      run (env.withLimit none) (perform n) k s w := by
  -- On the number of steps; the next state starts a run that does not overrun the limit either.
  induction k generalizing s w with
  | zero => rfl
  | succ k ih =>
    have hnext : ∀ {t w'}, Passes (env.withLimit none) perform (s, w) (t, w') →
        run (env.withLimit (some limit)) (perform n) k t w' =
          run (env.withLimit none) (perform n) k t w' :=
      fun hp => ih (stacked_of_passes_withLimit hsound.laid hs hp) fun b hb => h b (.head hp hb)
    rw [run, run, step_withLimit hsound hs (h _ .refl)]
    cases hstep : step (env.withLimit none) s with
    | next t => exact hnext (.next hstep)
    | returned v stats => rfl
    | halted e stats => rfl
    | host body args target u =>
      dsimp only
      cases hperform : perform n body args w with
      | none => rfl
      | some x =>
        obtain ⟨v | pn, w'⟩ := x
        · dsimp only
          cases hanswer : u.answer target v with
          | error e => rfl
          | ok t => exact hnext (.host hstep hperform hanswer)
        · rfl

/-- No step leads to more live activations than the limit allows. -/
theorem Passes.depth_le (hlimit : env.maxCallDepth = some limit) (h : Passes env perform a b)
    (ha : a.1.calls.depth ≤ max limit 1) : b.1.calls.depth ≤ max limit 1 := by
  obtain ⟨-, hle, -⟩ | ⟨-, hcheck, hdepth, -⟩ := h.advances.depth
  · exact Nat.le_trans hle ha
  · rw [hlimit] at hcheck
    have hlt := lt_of_checkDepth hcheck
    omega

/-- A limited run never has more live activations than the limit allows. -/
theorem depth_le_of_passesTo (h : PassesTo (env.withLimit (some limit)) perform a b)
    (ha : a.1.calls.depth ≤ max limit 1) : b.1.calls.depth ≤ max limit 1 := by
  induction h with
  | refl => exact ha
  | tail _ h ih => exact h.depth_le rfl ih

end Runs

/-- Of the states of a run with some property, one is the first. -/
theorem exists_first_passesTo {perform : Nat → H → List Int32 → σ → Option (Answer × σ)}
    {a b : State × σ} {P : State → Prop} (h : PassesTo env perform a b) (hb : P b.1) :
    ∃ c, P c.1 ∧ Relation.ReflTransGen (fun b c => ¬ P b.1 ∧ Passes env perform b c) a c := by
  induction h using Relation.ReflTransGen.head_induction_on with
  | refl => exact ⟨b, hb, .refl⟩
  | @head a _ h _ ih =>
    by_cases ha : P a.1
    · exact ⟨a, ha, .refl⟩
    · obtain ⟨c, hc, hpasses⟩ := ih
      exact ⟨c, hc, .head ⟨ha, h⟩ hpasses⟩

/-! ## 3. The peak of a run -/

section Peak

variable {perform : Nat → H → List Int32 → σ → Option (Answer × σ)} {a b : State × σ} {limit : Nat}

theorem Stops.maxDepth {r : Ending × Stats × σ} (h : Stops env perform a r) :
    r.2.1.maxDepth = a.1.stats.maxDepth := by
  by_cases hnests : a.1.Nests env.program
  · have hdeep := deep_step hnests
    cases h with
    | halted hstep =>
      rw [hstep] at hdeep
      exact hdeep
    | _ hstep =>
      rw [hstep] at hdeep
      exact absurd hdeep id
  · have hflat := flat_step hnests
    cases h with
    | returned hstep =>
      rw [hstep] at hflat
      exact hflat
    | halted hstep =>
      rw [hstep] at hflat
      exact hflat
    | _ hstep _ =>
      rw [hstep] at hflat
      exact hflat.2

theorem PassesTo.maxDepth_le (h : PassesTo env perform a b) :
    a.1.stats.maxDepth ≤ b.1.stats.maxDepth := by
  induction h with
  | refl => exact Nat.le_refl _
  | tail _ h ih =>
    obtain ⟨-, -, hmax⟩ | ⟨-, -, -, hmax⟩ := h.advances.depth
    · omega
    · omega

/-- Short of an overrun, the counted depth stays within the limit. -/
theorem maxDepth_le_of_not_overruns (h : PassesTo env perform a b)
    (hnot : ∀ c, PassesTo env perform a c → ¬ c.1.Overruns env.program limit)
    (ha : a.1.stats.maxDepth ≤ max limit 1) : b.1.stats.maxDepth ≤ max limit 1 := by
  induction h with
  | refl => exact ha
  | tail hc h ih =>
    obtain ⟨-, -, hmax⟩ | ⟨hnests, -, hdepth, hmax⟩ := h.advances.depth
    · omega
    · have hlt := hnests.lt_of_not_overruns (hnot _ hc)
      omega

/-- A run that returns has overrun a limit exactly if the depth that it counted exceeds it. -/
theorem exists_overruns_iff (hgrows : Grows perform) {bs : Bytes} {stats : Stats} {w : σ}
    (hret : RunsTo env perform a (.returned bs, stats, w))
    (ha : a.1.stats.maxDepth ≤ max limit 1) :
    (∃ b, PassesTo env perform a b ∧ b.1.Overruns env.program limit) ↔
      max limit 1 < stats.maxDepth := by
  constructor
  · rintro ⟨b, hb, hnests, hle⟩
    obtain ⟨c, hc, hstops⟩ := (runsTo_iff hgrows).mp ((runsTo_iff_of_passesTo hgrows hb).mp hret)
    have hmax : stats.maxDepth = c.1.stats.maxDepth := hstops.maxDepth
    -- The call does not stop a run that returns, so there is a state behind it.
    rcases hc.cases_head with rfl | ⟨d, hd, hc⟩
    · have hdeep := deep_step hnests
      rw [hstops.step_of_returned] at hdeep
      exact absurd hdeep id
    · obtain ⟨hflat, -, -⟩ | ⟨-, -, hdepth, hcount⟩ := hd.advances.depth
      · exact absurd hnests hflat
      · have hmono := PassesTo.maxDepth_le hc
        omega
  · intro hlt
    by_contra hnone
    obtain ⟨c, hc, hstops⟩ := (runsTo_iff hgrows).mp hret
    have hmax : stats.maxDepth = c.1.stats.maxDepth := hstops.maxDepth
    have hle := maxDepth_le_of_not_overruns hc (fun d hd hover => hnone ⟨d, hd, hover⟩) ha
    omega

end Peak

theorem depth_of_enter {p : Program} {f : FuncId} {args : List Bytes} {returnSize : Nat}
    {stats : Stats} (h : enter p f args returnSize stats = .ok s) :
    s.calls.depth = 1 ∧ s.stats = stats.reach 1 := by
  unfold enter at h
  obtain ⟨c, -, h⟩ := Except.bind_eq_ok.mp h
  dsimp only at h
  split at h
  · cases h
  · split at h
    · cases h
    · obtain ⟨m, -, h⟩ := Except.bind_eq_ok.mp h
      cases h
      exact ⟨rfl, rfl⟩

end Machine

/-! ## 4. Invocations -/

open Machine

namespace Interpreter

/-- The same interpreter with another limit. -/
def withLimit (i : Interpreter) (limit : Option Nat) : Interpreter :=
  { i with config := { i.config with maxCallDepth := limit } }

/-- The state is the first one with the property that the run of the invocation gets to. -/
def VisitsFirst (i : Interpreter) (P : State → Prop) (f : FuncId) (args : List Bytes)
    (buffer : Bytes) (slot : Option Fault) (a : State × Option Fault) : Prop :=
  P a.1 ∧ ∃ s, enter i.program f args buffer.size i.counting = .ok s ∧
    Relation.ReflTransGen (fun b c => ¬ P b.1 ∧ Passes i.env HostFunction.within b c) (s, slot) a

variable {i : Interpreter} {f : FuncId} {args : List Bytes} {buffer : Bytes} {slot : Option Fault}
  {limit : Nat}

/-- Without an overrun the two invocations are the same. -/
theorem invoke_withLimit (hsound : i.program.Sound)
    (h : ∀ a, (i.withLimit none).Visits f args buffer slot a → ¬ a.1.Overruns i.program limit)
    (fuel : Nat) : (i.withLimit (some limit)).invoke fuel f args buffer slot =
      ((i.withLimit none).invoke fuel f args buffer slot).map fun (o, j, slot') =>
        (o, j.withLimit (some limit), slot') := by
  cases henter : enter i.program f args buffer.size i.counting with
  | error e =>
    rw [invoke_of_refused (i := i.withLimit (some limit)) henter,
      invoke_of_refused (i := i.withLimit none) henter]
    rfl
  | ok s =>
    have hnot : ∀ a, PassesTo (i.env.withLimit none) HostFunction.within (s, slot) a →
        ¬ a.1.Overruns i.program limit := fun a ha => h a ⟨s, henter, ha⟩
    have hrun : run (i.env.withLimit (some limit)) (HostFunction.within fuel) fuel s slot =
        run (i.env.withLimit none) (HostFunction.within fuel) fuel s slot :=
      run_withLimit hsound (Stacked.of_enter hsound.laid henter) hnot fuel fuel
    rw [invoke_of_entered (i := i.withLimit (some limit)) henter,
      invoke_of_entered (i := i.withLimit none) henter, Option.map_map]
    exact congrArg (Option.map _) hrun

/-- At the first overrun the limited invocation ends. -/
theorem exists_invoke_of_overruns (hsound : i.program.Sound) {a : State × Option Fault}
    (h : (i.withLimit none).VisitsFirst (State.Overruns i.program limit) f args buffer slot a) :
    ∃ fuel, (i.withLimit (some limit)).invoke fuel f args buffer slot =
      some (⟨some (.fault (.callDepthExceeded limit)), buffer⟩,
        { i.withLimit (some limit) with stats := a.1.stats.refusing }, a.2) := by
  obtain ⟨hover, s, henter, hpasses⟩ := h
  have hsound' : i.env.program.Sound := hsound
  have hs : Stacked i.env.program s := Stacked.of_enter hsound.laid henter
  obtain ⟨hpasses, -⟩ := passesTo_withLimit hsound' hs hpasses
  have hstep : step (i.env.withLimit (some limit)) a.1 =
      .halted (.fault (.callDepthExceeded limit)) a.1.stats.refusing := step_of_overruns hover
  have hstops : Stops (i.withLimit (some limit)).env HostFunction.within a
      (.fault (.callDepthExceeded limit), a.1.stats.refusing, a.2) := .halted hstep
  have hvisits : (i.withLimit (some limit)).Visits f args buffer slot a := ⟨s, henter, hpasses⟩
  exact exists_invoke_of_visits hvisits (hstops.runsTo HostFunction.grows_within)

theorem exists_visitsFirst {P : State → Prop} {a : State × Option Fault}
    (h : i.Visits f args buffer slot a) (ha : P a.1) :
    ∃ b, i.VisitsFirst P f args buffer slot b := by
  obtain ⟨s, henter, hpasses⟩ := h
  obtain ⟨b, hb, hpasses⟩ := exists_first_passesTo hpasses ha
  exact ⟨b, hb, s, henter, hpasses⟩

/-- A limited invocation against the unlimited one, whatever the host functions are.  Unless the
unlimited one calls a defined function with as many live activations as the limit allows, they
return the same, leave the same counts and end with the same number of steps, or neither ends.
Otherwise the limited one ends with the fault of the limit at the first such call, which it
counts, and leaves the return buffer alone.  It never has more live activations than allowed.  And
what it answers short of that fault, it answers with any higher limit and with none. -/
theorem depth_limit_exact {m : Module} (hbuilt : m.Built) {i : Interpreter}
    (hm : m.finalize = .ok i.program) (limit : Nat) (f : FuncId) (args : List Bytes)
    (buffer : Bytes) (slot : Option Fault) :
    ((∀ a, (i.withLimit none).Visits f args buffer slot a → a.1.Nests i.program →
        a.1.calls.depth < max limit 1) →
      ∀ fuel, (i.withLimit (some limit)).invoke fuel f args buffer slot =
        ((i.withLimit none).invoke fuel f args buffer slot).map fun (o, j, slot') =>
          (o, j.withLimit (some limit), slot')) ∧
    ((∃ a, (i.withLimit none).Visits f args buffer slot a ∧ a.1.Nests i.program ∧
        max limit 1 ≤ a.1.calls.depth) →
      ∃ a, (i.withLimit none).VisitsFirst
          (fun s => s.Nests i.program ∧ max limit 1 ≤ s.calls.depth) f args buffer slot a ∧
        ∃ fuel, (i.withLimit (some limit)).invoke fuel f args buffer slot =
          some (⟨some (.fault (.callDepthExceeded limit)), buffer⟩,
            { i.withLimit (some limit) with stats := a.1.stats.refusing }, a.2)) ∧
    (∀ a, (i.withLimit (some limit)).Visits f args buffer slot a →
      a.1.calls.depth ≤ max limit 1) ∧
    ∀ higher : Option Nat, (∀ l, higher = some l → limit ≤ l) → ∀ fuel o j slot',
      (i.withLimit (some limit)).invoke fuel f args buffer slot = some (o, j, slot') →
      o.failure ≠ some (.fault (.callDepthExceeded limit)) →
        (i.withLimit higher).invoke fuel f args buffer slot =
          some (o, j.withLimit higher, slot') := by
  have hsound := hbuilt.sound.finalize hm
  refine ⟨?_, ?_, ?_, ?_⟩
  · intro h fuel
    exact invoke_withLimit hsound (fun a ha hover => Nat.not_lt.mpr hover.2 (h a ha hover.1)) fuel
  · rintro ⟨a, hvisits, ha⟩
    obtain ⟨b, hb⟩ := exists_visitsFirst (P := State.Overruns i.program limit) hvisits ha
    exact ⟨b, hb, exists_invoke_of_overruns hsound hb⟩
  · rintro a ⟨s, henter, hpasses⟩
    have hpasses' : PassesTo (i.env.withLimit (some limit)) HostFunction.within (s, slot) a :=
      hpasses
    refine depth_le_of_passesTo hpasses' ?_
    rw [(depth_of_enter henter).1]
    exact Nat.le_max_right limit 1
  · intro higher hhigher fuel o j slot' hinvoke hne
    -- An overrun of the limit would have shown, so there is none, nor of a higher limit.
    have hnot : ∀ a, (i.withLimit none).Visits f args buffer slot a →
        ¬ a.1.Overruns i.program limit := by
      intro a ha hover
      obtain ⟨b, hb⟩ := exists_visitsFirst ha hover
      obtain ⟨fuel', hfault⟩ := exists_invoke_of_overruns hsound hb
      have hleft := invoke_mono (Nat.le_max_left fuel fuel') hinvoke
      have hright := invoke_mono (Nat.le_max_right fuel fuel') hfault
      rw [hleft] at hright
      cases hright
      exact hne rfl
    rw [invoke_withLimit hsound hnot, Option.map_eq_some_iff] at hinvoke
    obtain ⟨⟨o', j', slot''⟩, hnone, heq⟩ := hinvoke
    cases heq
    cases higher with
    | none =>
      obtain ⟨stats, rfl⟩ := exists_stats_of_invoke hnone
      exact hnone
    | some l =>
      have hle := hhigher l rfl
      rw [invoke_withLimit hsound, hnone]
      · rfl
      · intro a ha hover
        have hover' := hover.2
        exact hnot a ha ⟨hover.1, by omega⟩

/-- A function that calls another one, which returns 7. -/
def calling : Module :=
  (Draft.empty.run
    [.declare ⟨"seven", [], .int⟩, .select ⟨0⟩, .body .openBlock, .body (.literal 7),
      .body (.ret ⟨0⟩), .declare ⟨"main", [], .int⟩, .select ⟨1⟩, .body .openBlock,
      .body (.call ⟨0⟩ []), .body (.ret ⟨0⟩)]).2.module

def callingInterpreter : Interpreter :=
  .fresh ⟨#[.code ⟨⟨⟨"seven", [], .int⟩, #[#[.literal ⟨0⟩ 7, .ret ⟨0⟩]], #[.int], #[]⟩,
        ⟨⟨#[⟨0, 4⟩], 4, 4⟩, 1⟩, ⟨#[], 0, 1⟩⟩,
      .code ⟨⟨⟨"main", [], .int⟩, #[#[.call ⟨0⟩ ⟨0⟩ [], .ret ⟨0⟩]], #[.int], #[]⟩,
        ⟨⟨#[⟨0, 4⟩], 4, 4⟩, 1⟩, ⟨#[], 0, 1⟩⟩]⟩
    ⟨none, 0⟩ .empty

/-- With one live activation allowed the call is refused; with two the function returns 7, and so
it does with any higher limit. -/
theorem depth_limit_exact_calling :
    calling.finalize = .ok callingInterpreter.program ∧
    (∃ fuel j slot, (callingInterpreter.withLimit (some 1)).invoke fuel ⟨1⟩ [] (Bytes.ofInt 0)
      none = some (⟨some (.fault (.callDepthExceeded 1)), Bytes.ofInt 0⟩, j, slot)) ∧
    ∀ limit, 2 ≤ limit → ∃ j slot, (callingInterpreter.withLimit (some limit)).invoke 5 ⟨1⟩ []
      (Bytes.ofInt 0) none = some (⟨none, Bytes.ofInt 7⟩, j, slot) := by
  have hm : calling.finalize = .ok callingInterpreter.program :=
    Module.finalize_eq_ok_iff.mpr ⟨by decide +kernel, by cbv, by decide +kernel⟩
  refine ⟨hm, ?_, ?_⟩
  · obtain ⟨-, hover, -⟩ := depth_limit_exact ⟨_, rfl⟩ hm 1 ⟨1⟩ [] (Bytes.ofInt 0) none
    have hfirst : ∃ s, enter callingInterpreter.program ⟨1⟩ [] (Bytes.ofInt 0).size
        callingInterpreter.counting = .ok s ∧
          s.calls.top.operation? = some (.call ⟨0⟩ ⟨0⟩ []) := ⟨_, rfl, rfl⟩
    obtain ⟨s, henter, hop⟩ := hfirst
    obtain ⟨a, -, fuel, hinvoke⟩ := hover ⟨(s, none), ⟨s, henter, .refl⟩,
      ⟨_, _, _, _, hop, rfl⟩, Nat.le_of_eq (depth_of_enter henter).1.symm⟩
    exact ⟨fuel, _, _, hinvoke⟩
  · intro limit hle
    obtain ⟨-, -, -, hhigher⟩ := depth_limit_exact ⟨_, rfl⟩ hm 2 ⟨1⟩ [] (Bytes.ofInt 0) none
    have hinvoke : ((callingInterpreter.withLimit (some 2)).invoke 5 ⟨1⟩ [] (Bytes.ofInt 0)
        none).map (fun (o, _, _) => (o.failure, o.buffer)) = some (none, Bytes.ofInt 7) := by
      decide +kernel
    obtain ⟨⟨⟨failure, bytes⟩, j, slot⟩, hinvoke, heq⟩ := Option.map_eq_some_iff.mp hinvoke
    cases heq
    exact ⟨_, _, hhigher (some limit) (fun l hl => Option.some.inj hl ▸ hle) 5 _ j slot hinvoke
      (by simp)⟩

end Interpreter

end RegIR
