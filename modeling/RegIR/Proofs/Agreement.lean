import RegIR.Proofs.Fuel
import RegIR.Proofs.Simulation
/-!
# The interpreter agrees with the evaluation

An invocation on integers ends exactly when the evaluation of the function has a result, and it
ends with that result.
-/

namespace RegIR

namespace Machine

open Memory Reference

/-! ## 1. Runs along moves -/

section Runs

variable {H σ : Type}

/-- Within some bound, the host function answers as the function says, whatever its state. -/
def Computes (perform : Nat → H → List Int32 → σ → Option (Answer × σ)) (run : H)
    (g : List Int32 → Int32) : Prop :=
  ∀ args w, ∃ n w', perform n run args w = some (.value (g args), w')

/-- A host function answers the same within larger bounds. -/
def Grows (perform : Nat → H → List Int32 → σ → Option (Answer × σ)) : Prop :=
  ∀ n n', n ≤ n' → ∀ run args w r, perform n run args w = some r → perform n' run args w = some r

/-- Whatever the state of the hosts, a run from the state ends as given. -/
def Finishes (env : Env H) (perform : Nat → H → List Int32 → σ → Option (Answer × σ)) (s : State)
    (e : Ending) : Prop :=
  ∀ w, ∃ n stats w', run env (perform n) n s w = some (e, stats, w')

variable {env : Env H} {perform : Nat → H → List Int32 → σ → Option (Answer × σ)} {s t : State}
  {e : Ending}

/-- Some moves lead from a state to another. -/
abbrev Leads (env : Env H) (answers : H → (List Int32 → Int32) → Prop) : State → State → Prop :=
  Relation.ReflTransGen (Moves env answers)

theorem finishes_of_halted {h : Halt} {stats : Stats} (hs : step env s = .halted h stats) :
    Finishes env perform s (.ofHalt h) := by
  intro w
  refine ⟨1, stats, w, ?_⟩
  rw [run, hs]

theorem finishes_of_returned {bs : Bytes} {stats : Stats} (hs : step env s = .returned bs stats) :
    Finishes env perform s (.returned bs) := by
  intro w
  refine ⟨1, stats, w, ?_⟩
  rw [run, hs]

theorem Finishes.of_moves (hgrows : Grows perform) (hm : Moves env (Computes perform) s t)
    (ht : Finishes env perform t e) : Finishes env perform s e := by
  intro w
  rcases hm with hstep | ⟨f, args, target, u, g, hstep, hcomputes, hanswer⟩
  · obtain ⟨n, stats, w', hrun⟩ := ht w
    refine ⟨n + 1, stats, w', ?_⟩
    rw [run, hstep]
    exact run_mono (hgrows n (n + 1) (by omega)) (Nat.le_refl n) hrun
  · -- The bound must do for the host function and for the rest of the run.
    obtain ⟨n₁, w₁, hperform⟩ := hcomputes args w
    obtain ⟨n, stats, w', hrun⟩ := ht w₁
    refine ⟨max n₁ n + 1, stats, w', ?_⟩
    rw [run, hstep]
    simp only [hgrows n₁ (max n₁ n + 1) (by omega) _ _ _ _ hperform, hanswer]
    exact run_mono (hgrows n (max n₁ n + 1) (by omega)) (by omega) hrun

/-- A run that ends does so by the moves of the machine. -/
theorem exists_run_of_moves (hgrows : Grows perform) (hm : Moves env (Computes perform) s t)
    {n k : Nat} {w : σ} {r : Ending × Stats × σ} (h : run env (perform n) k s w = some r) :
    ∃ k' < k, ∃ w', run env (perform n) k' t w' = some r := by
  cases k with
  | zero => cases h
  | succ k =>
    refine ⟨k, Nat.lt_succ_self k, ?_⟩
    rw [run] at h
    rcases hm with hstep | ⟨f, args, target, u, g, hstep, hcomputes, hanswer⟩
    · rw [hstep] at h
      exact ⟨w, h⟩
    · rw [hstep] at h
      dsimp only at h
      cases hperform : perform n f args w with
      | none =>
        rw [hperform] at h
        cases h
      | some a =>
        -- The host function has one answer only.
        obtain ⟨n₁, w₁, hvalue⟩ := hcomputes args w
        have hleft := hgrows n (max n n₁) (by omega) _ _ _ _ hperform
        have hright := hgrows n₁ (max n n₁) (by omega) _ _ _ _ hvalue
        rw [hleft] at hright
        cases hright
        rw [hperform] at h
        simp only [hanswer] at h
        exact ⟨w₁, h⟩

theorem Finishes.of_leads (hgrows : Grows perform) (hl : Leads env (Computes perform) s t)
    (ht : Finishes env perform t e) : Finishes env perform s e := by
  induction hl using Relation.ReflTransGen.head_induction_on with
  | refl => exact ht
  | head hm _ ih => exact ih.of_moves hgrows hm

theorem exists_run_of_leads (hgrows : Grows perform) (hl : Leads env (Computes perform) s t)
    {n k : Nat} {w : σ} {r : Ending × Stats × σ} (h : run env (perform n) k s w = some r) :
    ∃ k' ≤ k, ∃ w', run env (perform n) k' t w' = some r := by
  induction hl with
  | refl => exact ⟨k, Nat.le_refl k, w, h⟩
  | tail _ hm ih =>
    obtain ⟨k₁, hk₁, w₁, hrun₁⟩ := ih
    obtain ⟨k₂, hk₂, w₂, hrun₂⟩ := exists_run_of_moves hgrows hm hrun₁
    exact ⟨k₂, by omega, w₂, hrun₂⟩

end Runs

/-! ## 2. Evaluations and runs -/

section Evaluation

variable {H σ : Type} {env : Env H} {answers : H → (List Int32 → Int32) → Prop} {hosts : Hosts}
  {s t : State} {c : Call}

/-- The machine moves on until it delivers the result of the call, or halts with its fault. -/
def Ends (env : Env H) (answers : H → (List Int32 → Int32) → Prop) (s : State) :
    Except Fault Int32 → Prop
  | .ok v => ∃ t, Leads env answers s t ∧ Above s t ∧ Delivers env.program t v
  | .error e => ∃ t stats, Leads env answers s t ∧ step env t = .halted (.fault e) stats

theorem Ends.of_leads {r : Except Fault Int32} (hl : Leads env answers s t) (ha : Above s t)
    (h : Ends env answers t r) : Ends env answers s r := by
  cases r with
  | ok v =>
    obtain ⟨u, hu, habove, hdelivers⟩ := h
    exact ⟨u, hl.trans hu, ha.trans habove, hdelivers⟩
  | error e =>
    obtain ⟨u, stats, hu, hstep⟩ := h
    exact ⟨u, stats, hl.trans hu, hstep⟩

/-- The machine gets to the result of an evaluation. -/
theorem Simulates.ends (henv : env.Plain answers hosts) {r : Except Fault Int32}
    (hr : Evaluates env.program hosts c r) (h : Simulates env.program s c) :
    Ends env answers s r := by
  -- Along the evaluation: a nested one takes the machine up to the return of its callee.
  induction hr generalizing s with
  | go hmove _ ih =>
    obtain ⟨t, ht, hsim, habove⟩ := h.follows henv hmove
    exact (ih hsim).of_leads (.single ht) habove
  | @done c r hmove =>
    cases r with
    | ok v => exact ⟨s, .refl, .refl s, h.follows henv hmove⟩
    | error e =>
      obtain ⟨stats, hstep⟩ := h.follows henv hmove
      exact ⟨s, stats, .refl, hstep⟩
  | call hmove _ _ ihcallee ihrest =>
    obtain ⟨t, ht, hsim, hresume⟩ := h.follows henv hmove
    -- To the callee, through it, back, and on in the caller.
    obtain ⟨u, hu, habove, hdelivers⟩ := ihcallee hsim
    obtain ⟨w, hw, hsim', habove'⟩ := hresume u _ habove hdelivers
    exact (ihrest hsim').of_leads (.head ht (hu.tail hw)) habove'
  | fault hmove _ ih =>
    obtain ⟨t, ht, hsim, -⟩ := h.follows henv hmove
    obtain ⟨u, stats, hu, hstep⟩ := ih hsim
    exact ⟨u, stats, .head ht hu, hstep⟩

/-- A call has a result when the run of the machine ends. -/
theorem Simulates.exists_evaluates {perform : Nat → H → List Int32 → σ → Option (Answer × σ)}
    (hgrows : Grows perform) (henv : env.Plain (Computes perform) hosts)
    (h : Simulates env.program s c) {n k : Nat} {w : σ} {x : Ending × Stats × σ}
    (hrun : run env (perform n) k s w = some x) : ∃ r, Evaluates env.program hosts c r := by
  -- Each move takes a step of the run, so what is left is shorter, for the callee as well as for
  -- the caller that goes on behind it.
  induction k using Nat.strongRecOn generalizing s c w with
  | _ k ih =>
    obtain ⟨move, hmove, hfollows⟩ := h.exists_move henv
    cases move with
    | go c' =>
      obtain ⟨t, ht, hsim, -⟩ := hfollows
      obtain ⟨k', hk', w', hrun'⟩ := exists_run_of_moves hgrows ht hrun
      obtain ⟨r, hr⟩ := ih k' hk' hsim hrun'
      exact ⟨r, .go hmove hr⟩
    | done r => exact ⟨r, .done hmove⟩
    | enter callee target =>
      obtain ⟨t, ht, hsim, hresume⟩ := hfollows
      obtain ⟨k₁, hk₁, w₁, hrun₁⟩ := exists_run_of_moves hgrows ht hrun
      obtain ⟨r, hr⟩ := ih k₁ hk₁ hsim hrun₁
      cases r with
      | error e => exact ⟨.error e, .fault hmove hr⟩
      | ok v =>
        -- The steps of the callee are spent before the caller goes on.
        obtain ⟨u, hu, habove, hdelivers⟩ := hsim.ends henv hr
        obtain ⟨w, hw, hsim', -⟩ := hresume u v habove hdelivers
        obtain ⟨k₂, hk₂, w₂, hrun₂⟩ := exists_run_of_leads hgrows hu hrun₁
        obtain ⟨k₃, hk₃, w₃, hrun₃⟩ := exists_run_of_moves hgrows hw hrun₂
        obtain ⟨r, hr'⟩ := ih k₃ (by omega) hsim' hrun₃
        exact ⟨r, .call hmove hr hr'⟩

/-- The outermost call hands its result to the outside. -/
theorem exists_returned (henv : env.Plain answers hosts) {v : Int32}
    (h : Delivers env.program s v) (hbelow : s.calls.below = #[]) :
    ∃ bs stats, step env s = .returned bs stats ∧ bs.size = 4 ∧ bs.toInt = v := by
  obtain ⟨value, hret, hread⟩ := h.ret
  obtain ⟨src, w, hsrc, hw, rfl⟩ := Activation.readInt_eq_ok hread
  obtain ⟨f, hf⟩ := h.stacked.linked _ _ s.calls.activation?_top
  have hvalue := (h.stacked.top_framed henv.sound.laid).reg_within hsrc
  rw [Extent.stop, henv.ints.regExtent henv.sound.laid hf hsrc] at hvalue
  obtain ⟨bs, hbs⟩ : ∃ bs, s.stack.area (s.calls.top.frameBase + src.start)
      (s.calls.top.frameBase + src.start + 4) = .ok bs := by
    unfold area
    rw [if_pos (by omega)]
    exact ⟨_, rfl⟩
  have hsize := size_of_area (Nat.le_add_right _ _) hbs
  rw [Nat.add_sub_cancel_left] at hsize
  have hback : s.calls.below.back? = none := by
    rw [hbelow]
    rfl
  obtain ⟨stats, hstep⟩ : ∃ stats, step env s = .returned bs stats := by
    rw [step_eq hret]
    simp only [execute, execReturn, returned_of_int henv hf hsrc, hback, Extent.stop, hbs]
    exact ⟨_, rfl⟩
  exact ⟨bs, stats, hstep, hsize, toInt_of_area hw hbs⟩

/-- An invocation on integers starts the call of its function. -/
theorem simulates_of_enter (hsound : env.program.Sound) {f : FuncId} {d : Definition}
    (hd : env.program.function? f = some (.defined d)) {args : List Int32} {returnSize : Nat}
    {stats : Stats}
    (h : enter env.program f (args.map Bytes.ofInt) returnSize stats = .ok s) :
    Simulates env.program s (.start d args) ∧ s.calls.below = #[] := by
  obtain ⟨c, a, hc, -, hlen, hcalls, hentered, hplaced⟩ := entered_of_enter hsound.laid h
  rw [Program.function?_of_linked? hc] at hd
  cases hd
  rw [List.length_map] at hlen
  have hstacked := Stacked.of_enter hsound.laid h
  obtain ⟨m, calls, stats'⟩ := s
  cases hcalls
  refine ⟨.of_entered hsound hc hstacked hentered hlen ?_, rfl⟩
  intro i v hv
  have hbs : (args.map Bytes.ofInt)[i]? = some (Bytes.ofInt v) := by
    rw [List.getElem?_map, hv]
    rfl
  obtain ⟨dst, hdst, -, hbytes⟩ := hplaced i _ hbs
  rw [Nat.zero_add] at hdst
  exact ⟨dst, hdst, word32?_of_bytes hbytes⟩

/-- An invocation on the right number of integers starts. -/
theorem exists_enter (henv : env.Plain answers hosts) {f : FuncId} {d : Definition}
    (hd : env.program.function? f = some (.defined d)) {args : List Int32}
    (hlen : args.length = d.signature.args.length) (stats : Stats) :
    ∃ s, enter env.program f (args.map Bytes.ofInt) (Bytes.ofInt 0).size stats = .ok s := by
  obtain ⟨c, hc, hcd⟩ := Option.map_eq_some_iff.mp hd
  cases c with
  | external e l => cases hcd
  | code c =>
    cases hcd
    have hsig := Program.sig?_of_linked? hc
    apply enter_ok henv.sound.laid hc
    · rw [List.forall₂_map_left_iff, List.forall₂_iff_zip]
      refine ⟨hlen, ?_⟩
      intro v t hvt
      rw [henv.ints t (Program.mentions_arg hsig (List.of_mem_zip hvt).2)]
      rfl
    · rw [henv.ints _ (Program.mentions_ret hsig)]
      rfl

end Evaluation

end Machine

/-! ## 3. Invocations -/

open Machine Reference

/-- What the caller of an invocation on integers gets. -/
def Outcome.result (o : Outcome) : Except Failure Int32 :=
  match o.failure with
  | none => .ok o.buffer.toInt
  | some cause => .error cause

/-- A run from the outermost call ends with the result of the call. -/
theorem Machine.Ends.exists_finishes {H σ : Type} {env : Env H} {hosts : Hosts} {s : State}
    {perform : Nat → H → List Int32 → σ → Option (Answer × σ)} {r : Except Fault Int32}
    (h : Ends env (Machine.Computes perform) s r) (hgrows : Grows perform)
    (henv : env.Plain (Machine.Computes perform) hosts) (hbelow : s.calls.below = #[]) :
    ∃ e, Finishes env perform s e ∧
      (Outcome.ofEnding (Bytes.ofInt 0) e).result = r.mapError .fault := by
  cases r with
  | ok v =>
    obtain ⟨t, hleads, habove, hdelivers⟩ := h
    obtain ⟨bs, stats, hstep, hsize, rfl⟩ := exists_returned henv hdelivers
      (habove.below.trans hbelow)
    refine ⟨_, (finishes_of_returned hstep).of_leads hgrows hleads, ?_⟩
    -- The bytes of an integer fill the buffer.
    rw [show Outcome.ofEnding (Bytes.ofInt 0) (.returned bs) = ⟨none, bs⟩ from if_pos hsize]
    rfl
  | error e =>
    obtain ⟨t, stats, hleads, hstep⟩ := h
    exact ⟨_, (finishes_of_halted hstep).of_leads hgrows hleads, rfl⟩

/-- What a host function does within a bound on the native calls that it makes. -/
def HostFunction.within (n : Nat) (body : HostFunction) (args : List Int32) (slot : Option Fault) :
    Option (Answer × Option Fault) :=
  (body args).perform (NativeEntry.call n) slot

theorem HostFunction.grows_within : Grows HostFunction.within := by
  intro n n' hle body args slot r h
  exact HostAction.perform_mono (NativeEntry.call_mono hle) h

/-- The host functions of the table are functions of their arguments. -/
def HostTable.Computes (t : HostTable) (hosts : Hosts) : Prop :=
  ∀ symbol, Option.Rel (Machine.Computes HostFunction.within) (t.get? symbol) (hosts symbol)

namespace Interpreter

variable {i : Interpreter} {hosts : Hosts} {f : FuncId} {args : List Int32} {slot : Option Fault}

theorem callInts_of_error {fuel : Nat} {e : Fault}
    (h : codeOf i.program f = .error (.fault e) ∨ ∃ c, codeOf i.program f = .ok c ∧
      args.length ≠ c.definition.signature.args.length ∧
      e = .argumentCount c.name c.definition.signature.args.length args.length) :
    ∃ i' slot', i.callInts fuel f args slot = some (.error (.fault e), i', slot') := by
  unfold callInts invoke invokeWith enter
  rcases h with h | ⟨c, hc, hlen, rfl⟩
  · rw [h]
    exact ⟨_, _, rfl⟩
  · rw [hc]
    simp only [bind, Except.bind, List.length_map, if_pos hlen]
    exact ⟨_, _, rfl⟩

/-- The result of an invocation that starts is that of its run. -/
theorem callInts_eq {s : State} (h : enter i.program f (args.map Bytes.ofInt) (Bytes.ofInt 0).size
      { i.stats with invocations := i.stats.invocations + 1 } = .ok s) (fuel : Nat) :
    i.callInts fuel f args slot =
      (run i.env (HostFunction.within fuel) fuel s slot).map fun (e, stats, slot') =>
        ((Outcome.ofEnding (Bytes.ofInt 0) e).result, { i with stats }, slot') := by
  have hrun : run i.env (fun body args slot => (body args).perform (NativeEntry.call fuel) slot)
      fuel s slot = run i.env (HostFunction.within fuel) fuel s slot := rfl
  unfold callInts invoke invokeWith
  dsimp only
  rw [h]
  dsimp only
  rw [hrun]
  cases run i.env (HostFunction.within fuel) fuel s slot with
  | none => rfl
  | some x =>
    obtain ⟨e, stats, slot'⟩ := x
    show (match (Outcome.ofEnding (Bytes.ofInt 0) e).failure with | none => _ | some cause => _) = _
    unfold Outcome.result
    dsimp only [Option.map_some]
    cases (Outcome.ofEnding (Bytes.ofInt 0) e).failure <;> rfl

/-- An invocation gets to the result of its function. -/
theorem exists_callInts (henv : i.env.Plain (Machine.Computes HostFunction.within) hosts)
    {r : Except Fault Int32} (hr : Results i.program hosts f args r) (slot : Option Fault) :
    ∃ fuel i' slot', i.callInts fuel f args slot = some (r.mapError .fault, i', slot') := by
  cases hr with
  | @body d r hd hlen hev =>
    obtain ⟨s, hs⟩ := exists_enter henv hd hlen
      { i.stats with invocations := i.stats.invocations + 1 }
    obtain ⟨hsim, hbelow⟩ := simulates_of_enter henv.sound hd hs
    obtain ⟨e, hfinishes, hresult⟩ :=
      (hsim.ends henv hev).exists_finishes HostFunction.grows_within henv hbelow
    obtain ⟨fuel, stats, slot', hrun⟩ := hfinishes slot
    refine ⟨fuel, { i with stats }, slot', ?_⟩
    rw [callInts_eq hs, hrun, ← hresult]
    rfl
  | argumentCount hd hlen =>
    obtain ⟨l, hl, hfn⟩ := Option.map_eq_some_iff.mp hd
    cases l with
    | external e l => cases hfn
    | code c =>
      cases hfn
      exact ⟨0, callInts_of_error (Or.inr ⟨c, codeOf_eq_ok.mpr hl, hlen, rfl⟩)⟩
  | external he =>
    obtain ⟨l, hl, hfn⟩ := Option.map_eq_some_iff.mp he
    cases l with
    | code c => cases hfn
    | external e l =>
      cases hfn
      refine ⟨0, callInts_of_error (Or.inl ?_)⟩
      rw [codeOf, hl]
  | absent hnone =>
    have hl : i.program.linked? f = none := Option.map_eq_none_iff.mp hnone
    refine ⟨0, callInts_of_error (Or.inl ?_)⟩
    rw [codeOf, hl]

/-- A function has a result when an invocation of it ends. -/
theorem exists_results (henv : i.env.Plain (Machine.Computes HostFunction.within) hosts)
    {fuel : Nat} {x : Except Failure Int32 × Interpreter × Option Fault}
    (h : i.callInts fuel f args slot = some x) : ∃ r, Results i.program hosts f args r := by
  cases hfn : i.program.function? f with
  | none => exact ⟨_, .absent hfn⟩
  | some fn =>
    cases fn with
    | external e => exact ⟨_, .external hfn⟩
    | defined d =>
      -- With the right number of arguments the invocation is a run, and the run has ended.
      by_cases hlen : args.length = d.signature.args.length
      · obtain ⟨s, hs⟩ := exists_enter henv hfn hlen
          { i.stats with invocations := i.stats.invocations + 1 }
        rw [callInts_eq hs, Option.map_eq_some_iff] at h
        obtain ⟨y, hrun, -⟩ := h
        have hsim := (simulates_of_enter henv.sound hfn hs).1
        obtain ⟨r, hr⟩ := hsim.exists_evaluates HostFunction.grows_within henv hrun
        exact ⟨r, .body hfn hlen hr⟩
      · exact ⟨_, .argumentCount hfn hlen⟩

/-- An invocation of a built program on integers, without a limit on calls and with hosts that are
functions of their arguments, gives what the evaluation of the function gives: an integer, a
fault, or nothing at all. -/
theorem callInts_iff_results {m : Module} (hbuilt : m.Built) (hm : m.finalize = .ok i.program)
    (hint : i.program.IntOnly) (hlimit : i.config.maxCallDepth = none)
    (hhosts : i.hosts.Computes hosts) (f : FuncId) (args : List Int32) (slot : Option Fault) :
    (∀ v, (∃ fuel i' slot', i.callInts fuel f args slot = some (.ok v, i', slot')) ↔
      Results i.program hosts f args (.ok v)) ∧
    (∀ e, (∃ fuel i' slot', i.callInts fuel f args slot = some (.error (.fault e), i', slot')) ↔
      Results i.program hosts f args (.error e)) ∧
    ((∀ fuel, i.callInts fuel f args slot = none) ↔ ¬ ∃ r, Results i.program hosts f args r) := by
  have henv : i.env.Plain (Machine.Computes HostFunction.within) hosts :=
    ⟨hbuilt.sound.finalize hm, hint, hlimit, hhosts⟩
  -- An invocation that ends does so with the result of its function.
  have hresult : ∀ fuel x, i.callInts fuel f args slot = some x →
      ∃ r, Results i.program hosts f args r ∧ x.1 = r.mapError .fault := by
    intro fuel x hx
    obtain ⟨r, hr⟩ := exists_results henv hx
    obtain ⟨fuel', i', slot', hcall⟩ := exists_callInts henv hr slot
    have hleft := callInts_mono (Nat.le_max_left fuel fuel') hx
    have hright := callInts_mono (Nat.le_max_right fuel fuel') hcall
    rw [hleft] at hright
    cases hright
    exact ⟨r, hr, rfl⟩
  refine ⟨?_, ?_, ?_⟩
  · intro v
    constructor
    · rintro ⟨fuel, i', slot', hcall⟩
      obtain ⟨r, hr, heq⟩ := hresult fuel _ hcall
      cases r with
      | ok w =>
        cases heq
        exact hr
      | error e => cases heq
    · intro hr
      exact exists_callInts henv hr slot
  · intro e
    constructor
    · rintro ⟨fuel, i', slot', hcall⟩
      obtain ⟨r, hr, heq⟩ := hresult fuel _ hcall
      cases r with
      | ok w => cases heq
      | error e' =>
        cases heq
        exact hr
    · intro hr
      exact exists_callInts henv hr slot
  · constructor
    · rintro hnone ⟨r, hr⟩
      obtain ⟨fuel, i', slot', hcall⟩ := exists_callInts henv hr slot
      rw [hnone fuel] at hcall
      cases hcall
    · intro hnone fuel
      cases hcall : i.callInts fuel f args slot with
      | none => rfl
      | some x =>
        obtain ⟨r, hr, -⟩ := hresult fuel x hcall
        exact absurd ⟨r, hr⟩ hnone

/-- The function that asks the host for its result, without a limit on calls. -/
def askHostUnlimited : Interpreter := { askHostInterpreter with config := ⟨none, 0⟩ }

def askHostHosts : Hosts := fun symbol =>
  if symbol = "h" then some fun args => args.headD 0 + 1 else none

/-- The function evaluates to 6 on 5, so its invocation ends with 6. -/
theorem callInts_iff_results_askHost : ∃ fuel i' slot',
    askHostUnlimited.callInts fuel ⟨1⟩ [5] none = some (.ok 6, i', slot') := by
  have hm : askHost.finalize = .ok askHostUnlimited.program := finalize_askHost
  have hint : askHostUnlimited.program.IntOnly := by
    rintro t ⟨f, fn, hfn, ht⟩
    rw [Module.function?_of_finalize hm] at hfn
    exact mentions_askHost hfn ht
  have hhosts : askHostUnlimited.hosts.Computes askHostHosts := by
    intro symbol
    unfold askHostUnlimited askHostInterpreter Interpreter.fresh askHostHosts
    rw [HostTable.get?]
    by_cases hsymbol : "h" = symbol
    · rw [if_pos hsymbol, if_pos hsymbol.symm]
      exact .some fun args slot => ⟨0, slot, rfl⟩
    · rw [if_neg hsymbol, if_neg (Ne.symm hsymbol)]
      exact .none
  have hresult : Results askHostUnlimited.program askHostHosts ⟨1⟩ [5] (.ok 6) :=
    .body rfl rfl (.go rfl (.go rfl (.done rfl)))
  exact ((callInts_iff_results ⟨_, rfl⟩ hm hint rfl hhosts ⟨1⟩ [5] none).1 6).mpr
    hresult

end Interpreter

end RegIR
