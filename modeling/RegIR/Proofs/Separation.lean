import RegIR.Proofs.Traces
import RegIR.Proofs.Variables
/-!
# Separate variables

Arguments, registers and slots share one memory and still behave as separate variables.  A step
assigns at most one of them, a load finds what the last store into its slot left there, and an
argument keeps its value as long as its activation lives.
-/

namespace RegIR.Machine

open Memory

/-! ## 1. The last store into a slot -/

/-- The operation at the cursor stores the register into the slot. -/
inductive State.Stores (s : State) (source : Reg) (v : Variable) : Prop
  | intro {pointer : Reg} {t : Ty} (hop : s.calls.top.operation? = some (.store pointer source))
      (ht : s.calls.top.code.definition.regType? source = some t) (h : s.Accesses pointer t v) :
      Stores s source v

/-- The last of the states, latest first, that stores into the slot, with the stored register. -/
inductive LastStore (v : Variable) : List State → Option (State × Reg) → Prop
  | none : LastStore v [] none
  | here {s : State} {us : List State} {source : Reg} (h : s.Stores source v) :
      LastStore v (s :: us) (some (s, source))
  | earlier {s : State} {us : List State} {r : Option (State × Reg)}
      (h : ∀ source, ¬ s.Stores source v) (hr : LastStore v us r) : LastStore v (s :: us) r

/-- The area at `y` has the bytes of the register in the state, or zeros if there is none. -/
def Contents (m : Memory) (y : Nat) (t : Ty) : Option (State × Reg) → Prop
  | none => ∀ k < t.size.toNat, m.byte? (y + k) = some 0
  | some (s, source) => ∃ x, s.calls.Binds (s.calls.own (.reg source)) t x ∧
      SameArea m s.stack y x t.size.toNat

theorem Contents.of_sameArea {m n : Memory} {x y : Nat} {t : Ty} {r : Option (State × Reg)}
    (h : Contents m x t r) (hsame : SameArea n m y x t.size.toNat) : Contents n y t r := by
  cases r with
  | none =>
    intro k hk
    rw [hsame k hk]
    exact h k hk
  | some r =>
    obtain ⟨z, hz, hm⟩ := h
    exact ⟨z, hz, hsame.trans hm⟩

/-! ## 2. What slots and arguments remember -/

/-- Every slot has what the last store into it left there, counted from the start of its
activation, and every argument has what it had in all states since then. -/
structure Remembers (us : List State) (s : State) : Prop where
  slot : ∀ d k t x, s.calls.Binds ⟨d, .slot k⟩ t x →
    ∃ r, LastStore ⟨d, .slot k⟩ (since d us) r ∧ Contents s.stack x t r
  arg : ∀ d i t x, s.calls.Binds ⟨d, .arg i⟩ t x → ∀ u ∈ since d us,
    u.calls.Binds ⟨d, .arg i⟩ t x ∧ SameArea s.stack u.stack x x t.size.toNat

section Remembering

variable {p : Program} (hsound : p.Sound)
include hsound

theorem remembers_of_enter {f : FuncId} {args : List Bytes} {returnSize : Nat} {stats : Stats}
    {s : State} (h : enter p f args returnSize stats = .ok s) : Remembers [] s := by
  obtain ⟨c, a, hc, -, -, hcalls, hentered, -⟩ := entered_of_enter hsound.laid h
  constructor
  · intro d k t x hslot
    have hd : d = 0 := by
      have hle := hslot.depth_le
      rw [hcalls] at hle
      exact Nat.le_zero.mp hle
    subst hd
    obtain ⟨b, hb, hcell⟩ := hslot
    rw [hcalls] at hb
    cases hb
    exact ⟨none, .none,
      hentered.zero_of_holds (hsound.laid f c hc) hcell fun i hi => Cell.noConfusion hi⟩
  · intro d i t x _ u hu
    cases hu

variable (hone : p.OneRegistry) {s t : State} {op : Operation}
include hone

omit hsound in
/-- A slot that an access lands on has the type of the access. -/
theorem exists_binds_of_accesses (hs : Stacked p s) {pointer : Reg} {u : Ty} {v : Variable}
    (hu : p.Mentions u) (h : s.Accesses pointer u v) : ∃ x, s.calls.Binds v u x := by
  obtain ⟨_, _, hslot, hkind⟩ := h
  have heq := hone.eq_of_kind (hs.binds_mentions hslot) hu hkind
  subst heq
  exact ⟨_, hslot⟩

/-- After a store, the slot has the bytes of the stored register. -/
theorem contents_of_stores (hs : Stacked p s) (hn : Next p s t)
    (hop : s.calls.top.operation? = some op) (h : Effect p s t op) {source : Reg} {v : Variable}
    {u : Ty} {y : Nat} (hstores : s.Stores source v) (hv : t.calls.Binds v u y) :
    Contents t.stack y u (some (s, source)) := by
  obtain ⟨hop', ht, haccess⟩ := hstores
  rw [hop] at hop'
  cases hop'
  obtain ⟨f, hf⟩ := hs.linked _ _ s.calls.activation?_top
  obtain ⟨x, hx⟩ := exists_binds_of_accesses hone hs (Program.mentions_reg hf ht) haccess
  have hbefore := hn.binds_before hv haccess.depth_le
  obtain ⟨rfl, rfl⟩ := hbefore.unique hx
  obtain ⟨e, he, -, -⟩ := (hs.top_framed hsound.laid).extent ht
  have hsource := CallStack.binds_own (.reg ht he)
  exact ⟨_, hsource, h.sameArea_of_copies hn (.store ht haccess) hsource hv⟩

theorem Remembers.next {us : List State} (h : Remembers us s) (hs : Stacked p s)
    (hn : Next p s t) : Remembers (s :: us) t := by
  have ht := hs.next hn
  obtain ⟨op, hop, heffect⟩ := hn.effect hsound hone hs
  constructor
  · intro d k u y hslot
    by_cases hstores : ∃ source, s.Stores source ⟨d, .slot k⟩
    · obtain ⟨source, hstores⟩ := hstores
      obtain ⟨-, -, haccess⟩ := id hstores
      refine ⟨some (s, source), ?_, contents_of_stores hsound hone hs hn hop heffect hstores hslot⟩
      rw [since_cons_of_le haccess.depth_le]
      exact .here hstores
    · -- A slot that is not stored into keeps its bytes, or is new.
      have hno : ∀ source, ¬ s.Stores source ⟨d, .slot k⟩ := fun source hsource =>
        hstores ⟨source, hsource⟩
      cases heffect.origin hsound.laid hs ht hn hslot with
      | kept hold hsame =>
        obtain ⟨r, hr, hcontents⟩ := h.slot d k u y hold
        rw [since_cons_of_le hold.depth_le]
        exact ⟨r, .earlier hno hr, hcontents.of_sameArea hsame⟩
      | copied hcopy =>
        cases hcopy with
        | store ht haccess => exact absurd ⟨hop, ht, haccess⟩ (hno _)
      | int hw => cases hw
      | address _ hw => cases hw
      | zero hdepth hzero =>
        dsimp only at hdepth
        rw [since_cons_of_lt (by omega)]
        exact ⟨none, .none, hzero⟩
  · intro d i u y harg
    cases heffect.origin hsound.laid hs ht hn harg with
    | kept hold hsame =>
      rw [since_cons_of_le hold.depth_le]
      intro w hw
      rcases List.mem_cons.mp hw with rfl | hw
      · exact ⟨hold, hsame⟩
      · obtain ⟨hbinds, hbefore⟩ := h.arg d i u y hold w hw
        exact ⟨hbinds, hsame.trans hbefore⟩
    | copied hcopy =>
      cases hcopy with
      | pass =>
        -- The argument of an activation that starts with this step.
        rw [since_cons_of_lt (Nat.lt_succ_self _)]
        intro w hw
        cases hw
      | store _ haccess => cases haccess
    | int hw => cases hw
    | address _ hw => cases hw
    | zero hdepth hzero =>
      dsimp only at hdepth
      rw [since_cons_of_lt (by omega)]
      intro w hw
      cases hw

end Remembering

/-! ## 3. Every step -/

section Inversions

variable {p : Program} {s t : State}

theorem Effect.of_readArg {target : Reg} {index : Nat} (h : Effect p s t (.readArg target index)) :
    ∃ u x y, s.calls.Binds (s.calls.own (.arg index)) u x ∧
      s.calls.Binds (s.calls.own (.reg target)) u y ∧
      SameArea t.stack s.stack y x u.size.toNat := by
  cases h with
  | copy h hv hw hsame _ =>
    cases h
    exact ⟨_, _, _, hv, hw, hsame⟩
  | int h => cases h
  | address h => cases h
  | jump h => cases h
  | call h => cases h

theorem Effect.of_load {target pointer : Reg} (h : Effect p s t (.load target pointer)) :
    ∃ v u x y, s.calls.top.code.definition.regType? target = some u ∧ s.Accesses pointer u v ∧
      s.calls.Binds v u x ∧ s.calls.Binds (s.calls.own (.reg target)) u y ∧
      SameArea t.stack s.stack y x u.size.toNat := by
  cases h with
  | copy h hv hw hsame _ =>
    cases h with
    | load ht haccess =>
      obtain ⟨a, ha, hcell⟩ := id hw
      cases hcell with
      | reg ht' he =>
        rw [CallStack.own, CallStack.activation?_top] at ha
        cases ha
        rw [ht] at ht'
        cases ht'
        exact ⟨_, _, _, _, ht, haccess, hv, hw, hsame⟩
  | int h => cases h
  | address h => cases h
  | jump h => cases h
  | call h => cases h

end Inversions

/-- What the step from `s` to `t` does to the variables, in a run that has left the states `us`. -/
structure Separate {H : Type} (env : Env H) (us : List State) (s t : State) (op : Operation) :
    Prop where
  /-- One variable at most is assigned, and a call makes those of the callee. -/
  effect : Effect env.program s t op
  /-- The activations stay whole, but for the one that returns. -/
  live : ∀ i a, s.calls.activation? i = some a →
    (∀ value, op = .ret value → i < s.calls.below.size) →
    ∃ b, t.calls.activation? i = some b ∧ b.SameFrame a ∧ b.frameEnd ≤ t.stack.size
  apart : ∀ v w u u' x y, t.calls.Binds v u x → t.calls.Binds w u' y → v ≠ w →
    x + u.size.toNat ≤ y ∨ y + u'.size.toNat ≤ x
  /-- A load finds what the last store into the slot left there. -/
  load : ∀ target pointer, op = .load target pointer → ∃ u,
    s.calls.top.code.definition.regType? target = some u ∧ (∃ v, s.Accesses pointer u v) ∧
      ∀ v, s.Accesses pointer u v → ∃ y r, t.calls.Binds (s.calls.own (.reg target)) u y ∧
        LastStore v (since v.depth us) r ∧ Contents t.stack y u r
  /-- An argument is read as it was read before in the same activation. -/
  readArg : ∀ target index, op = .readArg target index →
    ∀ w w' target', w ∈ since s.calls.below.size us → w.calls.below.size = s.calls.below.size →
      w.calls.top.operation? = some (.readArg target' index) → Advances env w w' →
      ∃ u y y', t.calls.Binds (s.calls.own (.reg target)) u y ∧
        w'.calls.Binds (w.calls.own (.reg target')) u y' ∧
        SameArea t.stack w'.stack y y' u.size.toNat

/-- In every state of every run, a step treats arguments, registers and slots as separate
variables: it changes what its operation assigns and nothing else, loads find the last store, and
arguments do not change. -/
theorem variables_separate {H : Type} {env : Env H} {m : Module} (hbuilt : m.Built)
    (hm : m.finalize = .ok env.program) (hone : env.program.OneRegistry) {f : FuncId}
    {args : List Bytes} {returnSize : Nat} {stats : Stats} {s₀ s t : State} {us : List State}
    (henter : enter env.program f args returnSize stats = .ok s₀) (h : Trace env s₀ us s)
    (hst : Advances env s t) :
    ∃ op, s.calls.top.operation? = some op ∧ Separate env us s t op := by
  have hsound := hbuilt.sound.finalize hm
  have hs₀ := Stacked.of_enter hsound.laid henter
  obtain ⟨hs, hremembers⟩ := h.invariant hsound.laid hs₀ (remembers_of_enter hsound henter)
    fun _ _ _ hs hn hremembers => hremembers.next hsound hone hs hn
  obtain ⟨hn, ht⟩ := hs.advances hsound.laid hst
  obtain ⟨op, hop, heffect⟩ := hn.effect hsound hone hs
  refine ⟨op, hop, heffect, ?_, ?_, ?_, ?_⟩
  · intro i a ha hret
    obtain ⟨b, hb⟩ := CallStack.exists_activation?
      (hn.depth_le hop (CallStack.le_of_activation? ha) hret)
    exact ⟨b, hb, hn.sameFrame ha hb, ht.within i b hb⟩
  · intro v w u u' x y hv hw hne
    exact ht.binds_apart hsound.laid hv hw hne
  · rintro target pointer rfl
    obtain ⟨v₀, u, -, y, hu, hv₀, -, hy, -⟩ := heffect.of_load
    obtain ⟨f', hf'⟩ := hs.linked _ _ s.calls.activation?_top
    have hty := hn.binds hy (hn.depth_le hop (Nat.le_refl _) fun _ heq => by cases heq)
    refine ⟨u, hu, ⟨v₀, hv₀⟩, ?_⟩
    intro v hv
    obtain ⟨x, hx⟩ := exists_binds_of_accesses hone hs (Program.mentions_reg hf' hu) hv
    have hsame := heffect.sameArea_of_copies hn (.load hu hv) hx hty
    obtain ⟨-, -, -, -⟩ := id hv
    obtain ⟨r, hr, hcontents⟩ := hremembers.slot _ _ _ _ hx
    exact ⟨y, r, hty, hr, hcontents.of_sameArea hsame⟩
  · rintro target index rfl w w' target' hw hdepth hop' hadvance
    have hsw := h.stacked_of_mem hsound.laid hs₀ ((List.takeWhile_sublist _).mem hw)
    obtain ⟨hn', -⟩ := hsw.advances hsound.laid hadvance
    obtain ⟨op', hop'', heffect'⟩ := hn'.effect hsound hone hsw
    rw [hop'] at hop''
    cases hop''
    obtain ⟨u, x, y, harg, hy, hsame⟩ := heffect.of_readArg
    obtain ⟨u', x', y', harg', hy', hsame'⟩ := heffect'.of_readArg
    -- Both read one variable, and it has had the same bytes in both states.
    obtain ⟨hbefore, hkept⟩ := hremembers.arg _ _ _ _ harg w hw
    rw [CallStack.own, hdepth] at harg'
    obtain ⟨rfl, rfl⟩ := harg'.unique hbefore
    refine ⟨u', y, y', hn.binds hy (hn.depth_le hop (Nat.le_refl _) fun _ heq => by cases heq),
      hn'.binds hy' (hn'.depth_le hop' (Nat.le_refl _) fun _ heq => by cases heq), ?_⟩
    exact hsame.trans (hkept.trans hsame'.symm)

/-- The function `probe` returns what a fresh slot for a pointer holds.  Its caller has a slot of
its own, which it reads behind the call. -/
def probing : Module :=
  (Draft.empty.run
    [.declare ⟨"probe", [.int], .pointer⟩, .declare ⟨"main", [], .int⟩,
      .select ⟨0⟩, .body .openBlock, .body (.readArg 0), .body (.stackAlloc .int),
      .body (.store ⟨1⟩ ⟨0⟩), .body (.stackAlloc .pointer), .body (.load ⟨2⟩ .pointer),
      .body (.ret ⟨3⟩),
      .select ⟨1⟩, .body .openBlock, .body (.stackAlloc .int), .body (.literal 5),
      .body (.store ⟨0⟩ ⟨1⟩), .body (.call ⟨0⟩ [⟨1⟩]), .body (.load ⟨0⟩ .int),
      .body (.ret ⟨3⟩)]).2.module

def probeCode : Code where
  definition := ⟨⟨"probe", [.int], .pointer⟩,
    #[#[.readArg ⟨0⟩ 0, .stackAlloc ⟨1⟩ ⟨0⟩, .store ⟨1⟩ ⟨0⟩, .stackAlloc ⟨2⟩ ⟨1⟩, .load ⟨3⟩ ⟨2⟩,
      .ret ⟨3⟩]], #[.int, .pointer, .pointer, .pointer], #[.int, .pointer]⟩
  frame := ⟨⟨#[⟨0, 4⟩, ⟨8, 8⟩, ⟨16, 8⟩, ⟨24, 8⟩, ⟨32, 4⟩, ⟨40, 8⟩], 48, 8⟩, 4⟩
  args := ⟨#[⟨0, 4⟩], 4, 4⟩

def probingEnv : Env Unit where
  program := ⟨#[.code probeCode, .code
    ⟨⟨⟨"main", [], .int⟩, #[#[.stackAlloc ⟨0⟩ ⟨0⟩, .literal ⟨1⟩ 5, .store ⟨0⟩ ⟨1⟩,
        .call ⟨2⟩ ⟨0⟩ [⟨1⟩], .load ⟨3⟩ ⟨0⟩, .ret ⟨3⟩]], #[.pointer, .int, .pointer, .int], #[.int]⟩,
      ⟨⟨#[⟨0, 8⟩, ⟨8, 4⟩, ⟨16, 8⟩, ⟨24, 4⟩, ⟨28, 4⟩], 32, 8⟩, 4⟩, ⟨#[], 0, 1⟩⟩]⟩
  maxCallDepth := none
  host? _ := none

theorem finalize_probing : probing.finalize = .ok probingEnv.program :=
  Module.finalize_eq_ok_iff.mpr ⟨by decide +kernel, by cbv, by decide +kernel⟩

theorem oneRegistry_probing : probingEnv.program.OneRegistry :=
  Program.oneRegistry_of_types (r := .empty) (fun i t h => by cases h) (by decide)

theorem run_probing : ∃ s₀ s t, enter probingEnv.program ⟨1⟩ [] 4 .zero = .ok s₀ ∧
    after? probingEnv 10 s₀ = some s ∧ s.calls.top.operation? = some (.load ⟨3⟩ ⟨0⟩) ∧
    after? probingEnv 1 s = some t ∧ t.stack.word32? 24 = some 5 := by
  have hrun : (enter probingEnv.program ⟨1⟩ [] 4 .zero).toOption.any (fun s₀ =>
      (after? probingEnv 10 s₀).any fun s => (after? probingEnv 1 s).any fun t =>
        decide (s.calls.top.operation? = some (.load ⟨3⟩ ⟨0⟩) ∧
          t.stack.word32? 24 = some 5)) = true := by decide +kernel
  obtain ⟨s₀, h₀, hrun⟩ := (Option.any_eq_true _ _).mp hrun
  obtain ⟨s, hs, hrun⟩ := (Option.any_eq_true _ _).mp hrun
  obtain ⟨t, ht, hrun⟩ := (Option.any_eq_true _ _).mp hrun
  obtain ⟨hop, hword⟩ := of_decide_eq_true hrun
  exact ⟨s₀, s, t, Except.toOption_eq_some.mp h₀, hs, hop, ht, hword⟩

/-- Behind the call, the load of the caller finds its own last store. -/
theorem variables_separate_probing :
    ∃ s₀ us s t, enter probingEnv.program ⟨1⟩ [] 4 .zero = .ok s₀ ∧ Trace probingEnv s₀ us s ∧
      Advances probingEnv s t ∧ Separate probingEnv us s t (.load ⟨3⟩ ⟨0⟩) ∧
      t.stack.word32? 24 = some 5 := by
  obtain ⟨s₀, s, t, henter, hs, hop, ht, hword⟩ := run_probing
  obtain ⟨us, hus⟩ := exists_trace (reaches_of_addressable (reachesAddressable_of_after? hs))
  have hst := (advances_of_after? ht).1
  obtain ⟨op, hop', hseparate⟩ :=
    variables_separate ⟨_, rfl⟩ finalize_probing oneRegistry_probing henter hus hst
  rw [hop] at hop'
  cases hop'
  exact ⟨s₀, us, s, t, henter, hus, hst, hseparate, hword⟩

end RegIR.Machine
