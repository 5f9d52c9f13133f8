import RegIR.Proofs.DepthLimit
import RegIR.Proofs.NativeCalls
/-!
# The depth of an evaluation

An evaluation nests its calls.  The number of them that are in progress at a time is the number of
activations that the machine has to keep alive, so it decides which limits let the function return.
-/

namespace RegIR

namespace Reference

/-- The call evaluates to the integer, and at its peak that many calls are in progress: itself, and
those that wait for one another. -/
inductive Peaks (p : Program) (hosts : Hosts) : Call → Int32 → Nat → Prop
  | go {c c' : Call} {v : Int32} {k : Nat} (h : c.move? p hosts = some (.go c'))
      (hrest : Peaks p hosts c' v k) : Peaks p hosts c v k
  | done {c : Call} {v : Int32} (h : c.move? p hosts = some (.done (.ok v))) : Peaks p hosts c v 1
  | call {c callee : Call} {target : Reg} {v w : Int32} {k l : Nat}
      (h : c.move? p hosts = some (.enter callee target)) (hcallee : Peaks p hosts callee v k)
      (hrest : Peaks p hosts (c.define target v) w l) : Peaks p hosts c w (max (k + 1) l)

variable {p : Program} {hosts : Hosts} {c : Call} {v : Int32} {k : Nat}

theorem Peaks.pos (h : Peaks p hosts c v k) : 1 ≤ k := by
  induction h with
  | go _ _ ih => exact ih
  | done _ => exact Nat.le_refl 1
  | call _ _ _ _ ihrest => exact Nat.le_trans ihrest (Nat.le_max_right _ _)

/-- Only the operation of a call of a defined function enters another call. -/
theorem Call.move?_eq_enter {callee : Call} {target : Reg}
    (h : c.move? p hosts = some (.enter callee target)) :
    ∃ f args d rest, c.rest = .call target f args :: rest ∧ p.function? f = some (.defined d) := by
  cases hrest : c.rest with
  | nil => simp [move?, hrest] at h
  | cons op rest =>
    cases op with
    | call r f args =>
      simp only [move?, hrest] at h
      obtain ⟨values, -, h⟩ := Option.bind_eq_some_iff.mp h
      split at h
      · cases h
      · rename_i d hd
        exact ⟨f, args, d, rest, by cases h; rfl, hd⟩
      · split at h <;> cases h
    | binary r op lhs rhs =>
      simp only [move?, hrest] at h
      obtain ⟨x, -, h⟩ := Option.bind_eq_some_iff.mp h
      obtain ⟨y, -, h⟩ := Option.bind_eq_some_iff.mp h
      split at h <;> cases h
    | _ => simp [move?, hrest, Option.bind_eq_some_iff] at h

end Reference

namespace Machine

open Reference

section Peaks

variable {H σ : Type} {env : Env H} {answers : H → (List Int32 → Int32) → Prop} {hosts : Hosts}
  {s t : State} {c : Call}

theorem Moves.advances (h : Moves env answers s t) : Advances env s t := by
  rcases h with h | ⟨run, args, target, u, g, h, -, ht⟩
  · exact Or.inl h
  · exact Or.inr ⟨run, args, target, u, g args, h, ht⟩

/-- The machine starts an activation when the call enters another one. -/
theorem Simulates.nests (hsound : env.program.Sound) (h : Simulates env.program s c)
    {callee : Call} {target : Reg} (hmove : c.move? env.program hosts = some (.enter callee target)) :
    s.Nests env.program := by
  obtain ⟨f, args, d, rest, hrest, hfn⟩ := Call.move?_eq_enter hmove
  obtain ⟨-, op, rest', -, hop, hrest', -⟩ := h.exists_operation hsound
  rw [hrest] at hrest'
  cases hrest'
  obtain ⟨l, hl, hd⟩ := Option.map_eq_some_iff.mp hfn
  cases l with
  | code c' => exact ⟨target, f, args, c', hop, hl⟩
  | external e l => cases hd

/-- No activation starts while the machine stays in one. -/
theorem Moves.maxDepth_of_above (h : Moves env answers s t) (ha : Above s t) :
    t.stats.maxDepth = s.stats.maxDepth := by
  obtain ⟨-, -, hmax⟩ | ⟨-, -, hdepth, -⟩ := h.advances.depth
  · exact hmax
  · rw [CallStack.depth, CallStack.depth, ha.below] at hdepth
    omega

theorem Delivers.maxDepth {v : Int32} (hv : Delivers env.program s v)
    (h : Moves env answers s t) : t.stats.maxDepth = s.stats.maxDepth := by
  obtain ⟨-, -, hmax⟩ | ⟨⟨_, _, _, _, hop, -⟩, -⟩ := h.advances.depth
  · exact hmax
  · obtain ⟨value, hret, -⟩ := hv.ret
    rw [hret] at hop
    cases hop

/-- The machine gets to the result of an evaluation, and counts its peak on top of the activations
that were there before. -/
theorem Simulates.delivers (henv : env.Plain answers hosts) {v : Int32} {k : Nat}
    (hv : Peaks env.program hosts c v k) (h : Simulates env.program s c)
    (hs : s.calls.depth ≤ s.stats.maxDepth) :
    ∃ t, Leads env answers s t ∧ Above s t ∧ Delivers env.program t v ∧
      t.stats.maxDepth = max s.stats.maxDepth (s.calls.below.size + k) := by
  -- Along the evaluation, as for its result: a nested one has one more activation below it.
  induction hv generalizing s with
  | go hmove _ ih =>
    obtain ⟨t, ht, hsim, habove⟩ := h.follows henv hmove
    have hmax := ht.maxDepth_of_above habove
    have hbelow := habove.below
    obtain ⟨u, hu, habove', hdelivers, hpeak⟩ := ih hsim (by
      rw [hmax, CallStack.depth, hbelow]
      exact hs)
    refine ⟨u, .head ht hu, habove.trans habove', hdelivers, ?_⟩
    rw [hpeak, hmax, hbelow]
  | done hmove =>
    refine ⟨s, .refl, .refl s, h.follows henv hmove, ?_⟩
    exact (Nat.max_eq_left hs).symm
  | @call c callee target v w k l hmove hcallee hrest ihcallee ihrest =>
    obtain ⟨t, ht, hsim, hresume⟩ := h.follows henv hmove
    obtain ⟨hflat, -⟩ | ⟨-, -, hdepth, hmax⟩ := ht.advances.depth
    · exact absurd (h.nests henv.sound hmove) hflat
    · -- To the callee, through it, back, and on in the caller.
      obtain ⟨u, hu, habove, hdelivers, hpeak⟩ := ihcallee hsim (by omega)
      obtain ⟨x, hx, hsim', habove'⟩ := hresume u _ habove hdelivers
      have hback := hdelivers.maxDepth hx
      have hbelow : x.calls.below.size = s.calls.below.size := by rw [habove'.below]
      have hpos := hcallee.pos
      unfold CallStack.depth at hs hdepth hmax
      obtain ⟨y, hy, habove'', hdelivers', hpeak'⟩ := ihrest hsim' (by
        unfold CallStack.depth
        omega)
      refine ⟨y, .head ht ((hu.tail hx).trans hy), habove'.trans habove'', hdelivers', ?_⟩
      omega

end Peaks

end Machine

namespace Interpreter

open Machine Reference

variable {i : Interpreter} {hosts : Hosts} {f : FuncId} {d : Definition} {args : List Int32}
  {v : Int32} {k : Nat}

/-- The run of an invocation on integers returns the result of the evaluation, and counts its
peak. -/
theorem exists_runsTo_of_peaks (henv : i.env.Plain (Machine.Computes HostFunction.within) hosts)
    (hd : i.program.function? f = some (.defined d))
    (hlen : args.length = d.signature.args.length)
    (hv : Peaks i.program hosts (.start d args) v k) (slot : Option Fault) :
    ∃ s bs stats slot', enter i.program f (args.map Bytes.ofInt) (Bytes.ofInt 0).size i.counting =
        .ok s ∧
      RunsTo i.env HostFunction.within (s, slot) (.returned bs, stats, slot') ∧
      bs.size = 4 ∧ bs.toInt = v ∧ stats.maxDepth = max i.stats.maxDepth k := by
  obtain ⟨s, hs⟩ := exists_enter henv hd hlen i.counting
  obtain ⟨hsim, hbelow⟩ := simulates_of_enter henv.sound hd hs
  obtain ⟨hdepth, hstats⟩ := depth_of_enter hs
  have hmax : s.stats.maxDepth = max i.stats.maxDepth 1 := by
    rw [hstats]
    rfl
  obtain ⟨t, hleads, habove, hdelivers, hpeak⟩ := hsim.delivers henv hv (by omega)
  obtain ⟨bs, stats, hstep, hsize, hbs⟩ := exists_returned henv hdelivers
    (habove.below.trans hbelow)
  obtain ⟨slot', hpasses⟩ := exists_passesTo_of_leads hleads slot
  have hstops : Stops i.env HostFunction.within (t, slot') (.returned bs, stats, slot') :=
    .returned hstep
  refine ⟨s, bs, stats, slot', hs, (runsTo_iff HostFunction.grows_within).mpr
    ⟨(t, slot'), hpasses, hstops⟩, hsize, hbs, ?_⟩
  have hend : stats.maxDepth = t.stats.maxDepth := hstops.maxDepth
  have hpos := hv.pos
  rw [hend, hpeak, hmax, hbelow, Array.size_empty]
  omega

/-- Whether a limit shows in an invocation that returns without one, the depth decides that the
unlimited run counts. -/
theorem exists_invoke_withLimit (hsound : i.program.Sound) (hnew : i.stats.maxDepth ≤ 1)
    {args : List Bytes} {buffer bs : Bytes} {stats : Stats} {slot slot' : Option Fault} {s : State}
    (henter : enter i.program f args buffer.size i.counting = .ok s)
    (hruns : RunsTo (i.withLimit none).env HostFunction.within (s, slot)
      (.returned bs, stats, slot')) (limit : Nat) :
    ∃ fuel j slot'', (i.withLimit (some limit)).invoke fuel f args buffer slot =
      some (.ofEnding buffer (if stats.maxDepth ≤ max limit 1 then .returned bs
        else .fault (.callDepthExceeded limit)), j, slot'') := by
  have hstart : s.stats.maxDepth ≤ max limit 1 := by
    have hs : s.stats.maxDepth = max i.stats.maxDepth 1 := by
      rw [(depth_of_enter henter).2]
      rfl
    omega
  have hover := exists_overruns_iff HostFunction.grows_within hruns hstart
  by_cases hle : stats.maxDepth ≤ max limit 1
  · have hnot : ∀ a, (i.withLimit none).Visits f args buffer slot a →
        ¬ a.1.Overruns i.program limit := by
      rintro a ⟨s', henter', ha⟩ hoverruns
      obtain rfl : s = s' := Except.ok.inj (henter.symm.trans henter')
      have hlt := hover.mp ⟨a, ha, hoverruns⟩
      omega
    have hvisits : (i.withLimit none).Visits f args buffer slot (s, slot) := ⟨s, henter, .refl⟩
    obtain ⟨fuel, hinvoke⟩ := exists_invoke_of_visits hvisits hruns
    have hlimited := invoke_withLimit hsound hnot fuel
    rw [hinvoke] at hlimited
    rw [if_pos hle]
    exact ⟨fuel, _, _, hlimited⟩
  · obtain ⟨a, ha, hoverruns⟩ := hover.mpr (by omega)
    have hvisits : (i.withLimit none).Visits f args buffer slot a := ⟨s, henter, ha⟩
    obtain ⟨b, hb⟩ := exists_visitsFirst (P := State.Overruns i.program limit) hvisits hoverruns
    obtain ⟨fuel, hfault⟩ := exists_invoke_of_overruns hsound hb
    rw [if_neg hle]
    exact ⟨fuel, _, _, hfault⟩

/-- A function on integers that evaluates to an integer returns it without a limit, and the depth
that the interpreter counts is the peak of the evaluation.  With a limit it returns if the peak is
allowed, and fails with the fault of the limit if not. -/
theorem answers_of_peaks (hsound : i.program.Sound) (hint : i.program.IntOnly)
    (hhosts : i.hosts.Computes hosts) (hnew : i.stats.maxDepth ≤ 1)
    (hd : i.program.function? f = some (.defined d))
    (hlen : args.length = d.signature.args.length)
    (hv : Peaks i.program hosts (.start d args) v k) (slot : Option Fault) :
    (∃ fuel j slot', (i.withLimit none).callInts fuel f args slot = some (.ok v, j, slot') ∧
      j.stats.maxDepth = k) ∧
    ∀ limit, (i.withLimit (some limit)).Answers f args slot
      (if k ≤ max limit 1 then .ok v else .error (.fault (.callDepthExceeded limit))) := by
  have henv : (i.withLimit none).env.Plain (Machine.Computes HostFunction.within) hosts :=
    ⟨hsound, hint, rfl, hhosts⟩
  obtain ⟨s, bs, stats, slot', henter, hruns, hsize, rfl, hmax⟩ :=
    exists_runsTo_of_peaks henv hd hlen hv slot
  have houtcome : Outcome.ofEnding (Bytes.ofInt 0) (.returned bs) = ⟨none, bs⟩ := if_pos hsize
  have hpeak : stats.maxDepth = k := by
    have hpos := hv.pos
    have hmax' : stats.maxDepth = max i.stats.maxDepth k := hmax
    omega
  constructor
  · obtain ⟨fuel, hinvoke⟩ := exists_invoke_of_visits ⟨s, henter, .refl⟩ hruns
    rw [houtcome] at hinvoke
    exact ⟨fuel, _, slot', callInts_eq_some_iff.mpr ⟨_, hinvoke, rfl⟩, hpeak⟩
  · intro limit
    obtain ⟨fuel, j, slot'', hinvoke⟩ := exists_invoke_withLimit hsound hnew henter hruns limit
    refine ⟨fuel, j, slot'', callInts_eq_some_iff.mpr ⟨_, hinvoke, ?_⟩⟩
    rw [hpeak]
    split
    · rw [houtcome]
      rfl
    · rfl

end Interpreter

end RegIR
