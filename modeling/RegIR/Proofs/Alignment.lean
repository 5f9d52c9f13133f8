import Mathlib.Algebra.Divisibility.Basic
import RegIR.Proofs.TightLayouts
import RegIR.Proofs.Variables
/-!
# Alignment

The stack offsets of argument blocks and frames are multiples of 16 and of the alignment of
everything in them, whatever calls and returns came before, so every variable is aligned as its
type asks.  The address of a slot is its stack offset above the base of the stack: it is aligned
exactly when the base is, which is so for alignments up to 2¹⁶.
-/

namespace RegIR

/-! ## 1. The alignment of a layout -/

namespace Layout

variable {l : Layout} {t : Ty} {ts : List Ty}

theorem exists_align_eq (h : ofTypes? ts = some l) : ∃ k, l.align.toNat = 2 ^ k := by
  rcases (tight_of_ofTypes? h).align.1 with hone | ⟨t, -, ht⟩
  · exact ⟨0, hone⟩
  · exact ⟨t.alignLog.val, by rw [← ht, t.align_toNat]⟩

/-- Of two powers of two, the smaller divides the larger. -/
theorem align_dvd (h : ofTypes? ts = some l) (ht : t ∈ ts) : t.align.toNat ∣ l.align.toNat := by
  obtain ⟨k, hk⟩ := exists_align_eq h
  have hle : t.align.toNat ≤ l.align.toNat := (tight_of_ofTypes? h).align.2 (Or.inr ⟨t, ht, rfl⟩)
  rw [hk, t.align_toNat] at hle ⊢
  exact Nat.pow_dvd_pow 2 ((Nat.pow_le_pow_iff_right (by decide)).mp hle)

end Layout

/-- The layouts are those of the definition. -/
structure Code.Computed (c : Code) : Prop where
  frame : FrameLayout.ofDefinition? c.definition = some c.frame
  args : Layout.ofTypes? c.definition.signature.args = some c.args

theorem Linked.computed_of_ofFunction {f : Function} {c : Code}
    (h : Linked.ofFunction f = .ok (.code c)) : c.Computed := by
  unfold Linked.ofFunction at h
  split at h
  · split at h
    · rename_i frame args hframe hargs
      cases h
      exact ⟨hframe, hargs⟩
    · cases h
  · split at h <;> cases h

theorem Module.computed_of_finalize {m : Module} {p : Program} (h : m.finalize = .ok p) {f : FuncId}
    {c : Code} (hc : p.linked? f = some (.code c)) : c.Computed := by
  rcases linked?_of_finalize h f with ⟨fn, l, -, hl, hof⟩ | ⟨-, hl⟩
  · rw [hl] at hc
    cases hc
    exact Linked.computed_of_ofFunction hof
  · rw [hl] at hc
    cases hc

namespace Machine

open Memory

/-! ## 2. Where an activation is put -/

/-- The argument block and the frame lie on a stack of the given size as tight as their alignments
allow. -/
structure Activation.Seated (a : Activation) (size : Nat) : Prop where
  argsBase : a.argsBase = roundUp size (max a.code.args.align.toNat frameAlign)
  frameBase : a.frameBase = roundUp (a.argsBase + a.code.args.size.toNat)
    (max a.code.frame.layout.align.toNat frameAlign)

theorem base_of_reserve {m n : Memory} {len align base : Nat}
    (h : reserve m len align = (base, n)) : base = roundUp m.size (max align frameAlign) := by
  unfold reserve at h
  exact (Prod.mk.inj h).1.symm

theorem seated_of_startFrame {c : Code} {a : Activation} {m₁ m₂ n : Memory} {argsBase size : Nat}
    (hbase : argsBase = roundUp size (max c.args.align.toNat frameAlign))
    (hsize : m₁.size = argsBase + c.args.size.toNat) (hfills : Fills c.args argsBase 0 m₁ m₂)
    (h : startFrame m₂ c argsBase = (a, n)) : a.Seated size := by
  unfold startFrame at h
  generalize hr : reserve m₂ c.frame.size c.frame.layout.align.toNat = r at h
  obtain ⟨base, n'⟩ := r
  have hframe := base_of_reserve hr
  rw [hfills.size, hsize] at hframe
  obtain ⟨rfl, rfl⟩ := Prod.mk.inj h
  exact ⟨hbase, hframe⟩

theorem seated_of_enterCall {H : Type} {env : Env H} {stack n : Memory} {calls calls' : CallStack}
    {target : Reg} {callee : FuncId} {args : List Reg} (hp : env.program.Laid)
    (hcaller : ∀ r e, calls.top.code.frame.regExtent? r = some e →
      calls.top.frameBase + e.stop ≤ stack.size)
    (h : enterCall env stack calls target callee args = .ok (n, calls')) :
    calls'.top.Seated stack.size := by
  unfold enterCall at h
  obtain ⟨-, -, h⟩ := Except.bind_eq_ok.mp h
  obtain ⟨c, hc, h⟩ := Except.bind_eq_ok.mp h
  rw [codeOf_eq_ok] at hc
  split at h
  · cases h
  · obtain ⟨top, below⟩ := calls
    generalize hr : reserve stack c.args.size.toNat c.args.align.toNat = r at h
    obtain ⟨argsBase, m₁⟩ := r
    have hres := reserved_of_reserve hr
    obtain ⟨m₂, hpass, h⟩ := Except.bind_eq_ok.mp h
    obtain ⟨dst, -, h⟩ := Except.bind_eq_ok.mp h
    have hfills := (passArgs_eq_ok (hp callee c hc)
      (fun r e he => Nat.le_trans (hcaller r e he) hres.above) hpass).1
    generalize hs : startFrame m₂ c argsBase = r at h
    obtain ⟨a, n'⟩ := r
    cases h
    exact seated_of_startFrame (base_of_reserve hr) hres.size hfills hs

theorem seated_of_enter {p : Program} {f : FuncId} {args : List Bytes} {returnSize : Nat}
    {stats : Stats} {s : State} (hp : p.Laid) (h : enter p f args returnSize stats = .ok s) :
    s.calls.top.Seated 0 := by
  unfold enter at h
  obtain ⟨c, hc, h⟩ := Except.bind_eq_ok.mp h
  rw [codeOf_eq_ok] at hc
  dsimp only at h
  split at h
  · cases h
  · rename_i hlen
    split at h
    · cases h
    · generalize hr : reserve .empty c.args.size.toNat c.args.align.toNat = r at h
      obtain ⟨argsBase, m₁⟩ := r
      obtain ⟨m₂, hplace, h⟩ := Except.bind_eq_ok.mp h
      have hfills := (placeArgs_eq_ok (hp f c hc) (fun i t ht => by rwa [Nat.zero_add])
        (Decidable.not_not.mp hlen) hplace).1
      generalize hs : startFrame m₂ c argsBase = r at h
      obtain ⟨a, n⟩ := r
      cases h
      exact seated_of_startFrame (base_of_reserve hr) (reserved_of_reserve hr).size hfills hs

/-- A step that starts an activation puts it on the stack that it finds. -/
theorem Stacked.seated_of_advances {H : Type} {env : Env H} {s t : State}
    (hp : env.program.Laid) (hs : Stacked env.program s) (h : Advances env s t)
    (hlt : s.calls.below.size < t.calls.below.size) :
    t.calls.below.size = s.calls.below.size + 1 ∧ t.calls.top.Seated s.stack.size := by
  have htop := hs.top_framed hp
  have hn := next_of_advances hp htop h
  cases hn with
  | data _ _ => exact absurd hlt (Nat.lt_irrefl _)
  | jump _ _ => exact absurd hlt (Nat.lt_irrefl _)
  | ret _ _ _ hback _ =>
    have hpop := CallStack.size_pop_of_back? hback
    dsimp only at hlt hpop
    omega
  | @call m n calls stats stats' target callee args c a e hop hc hlen he hentered hpassed =>
    refine ⟨Array.size_push _, ?_⟩
    rw [Advances, step_of_operation? hop] at h
    simp only [execute, execCall, hc] at h
    split at h
    · rcases h with h | ⟨_, _, _, _, _, h, -⟩ <;> cases h
    · rename_i n' calls' henter
      rcases h with h | ⟨_, _, _, _, _, h, -⟩
      · cases h
        exact seated_of_enterCall hp (fun r e he => htop.reg_within he) henter
      · cases h

/-! ## 3. Aligned activations -/

/-- The argument block and the frame start at multiples of 16 and of the alignment of everything
in them. -/
structure Activation.Aligned (a : Activation) : Prop where
  argsBase : 16 ∣ a.argsBase
  frameBase : 16 ∣ a.frameBase
  args : ∀ t ∈ a.code.definition.signature.args, t.align.toNat ∣ a.argsBase
  regs : ∀ t ∈ a.code.definition.regTypes, t.align.toNat ∣ a.frameBase
  slots : ∀ t ∈ a.code.definition.slotTypes, t.align.toNat ∣ a.frameBase

theorem dvd_max_frameAlign {align k : Nat} (h : align = 2 ^ k) :
    align ∣ max align frameAlign ∧ 16 ∣ max align frameAlign := by
  rw [h]
  exact two_pow_dvd_max k 4

namespace Activation

variable {a b : Activation}

theorem Seated.aligned {size : Nat} (hc : a.code.Computed) (h : a.Seated size) : a.Aligned := by
  obtain ⟨hlayout, -⟩ := FrameLayout.ofDefinition?_eq_some_iff.mp hc.frame
  obtain ⟨k, hk⟩ := Layout.exists_align_eq hc.args
  obtain ⟨j, hj⟩ := Layout.exists_align_eq hlayout
  have hargs := dvd_max_frameAlign hk
  have hframe := dvd_max_frameAlign hj
  have hbase := dvd_roundUp size (max a.code.args.align.toNat frameAlign)
  rw [← h.argsBase] at hbase
  have hbase' := dvd_roundUp (a.argsBase + a.code.args.size.toNat)
    (max a.code.frame.layout.align.toNat frameAlign)
  rw [← h.frameBase] at hbase'
  -- The strictest entry of a layout is aligned to all others.
  have hentry : ∀ t ∈ a.code.definition.regTypes.toList ++ a.code.definition.slotTypes.toList,
      t.align.toNat ∣ a.frameBase := fun t ht =>
    ((Layout.align_dvd hlayout ht).trans hframe.1).trans hbase'
  refine ⟨hargs.2.trans hbase, hframe.2.trans hbase', ?_, ?_, ?_⟩
  · intro t ht
    exact ((Layout.align_dvd hc.args ht).trans hargs.1).trans hbase
  · intro t ht
    exact hentry t (List.mem_append_left _ (Array.mem_toList_iff.mpr ht))
  · intro t ht
    exact hentry t (List.mem_append_right _ (Array.mem_toList_iff.mpr ht))

theorem Aligned.of_sameFrame (h : a.Aligned) (hab : b.SameFrame a) : b.Aligned := by
  obtain ⟨hcode, hargs, hframe⟩ := hab
  refine ⟨hargs ▸ h.argsBase, hframe ▸ h.frameBase, ?_, ?_, ?_⟩
  · rw [hcode, hargs]
    exact h.args
  · rw [hcode, hframe]
    exact h.regs
  · rw [hcode, hframe]
    exact h.slots

/-- In an aligned activation every cell is aligned. -/
theorem Aligned.dvd_of_holds (hc : a.code.Computed) (h : a.Aligned) {cell : Cell} {t : Ty} {x : Nat}
    (hx : a.Holds cell t x) : t.align.toNat ∣ x := by
  have hframe := FrameLayout.tight_of_ofDefinition? hc.frame
  cases hx with
  | arg ht he =>
    have htight := Layout.tight_of_ofTypes? hc.args
    rw [Layout.extent?, ← Array.getElem?_toList, htight.extents] at he
    exact Nat.dvd_add (h.args t (List.mem_of_getElem? ht)) (htight.aligned _ t _ ht he)
  | @reg r _ _ ht he =>
    have hlt : r.index < a.code.definition.regTypes.size := (Array.getElem?_eq_some_iff.mp ht).1
    obtain ⟨e', he', hreg⟩ := hframe.reg r.index hlt
    cases he.symm.trans hreg
    refine Nat.dvd_add (h.regs t (Array.mem_of_getElem? ht)) (hframe.layout.aligned _ t _ ?_ he')
    rw [List.getElem?_append_left (by rwa [Array.length_toList]), Array.getElem?_toList]
    exact ht
  | @slot s _ _ ht he =>
    have hlt : s.index < a.code.definition.slotTypes.size := (Array.getElem?_eq_some_iff.mp ht).1
    obtain ⟨e', he', hslot⟩ := hframe.slot s.index hlt
    cases he.symm.trans hslot
    refine Nat.dvd_add (h.slots t (Array.mem_of_getElem? ht)) (hframe.layout.aligned _ t _ ?_ he')
    rw [List.getElem?_append_right (by rw [Array.length_toList]; omega), Array.length_toList,
      Nat.add_sub_cancel_left, Array.getElem?_toList]
    exact ht

end Activation

/-- Every live activation is aligned. -/
def State.Aligned (s : State) : Prop := ∀ i a, s.calls.activation? i = some a → a.Aligned

/-- A step leaves the live activations where they are, and aligns the one that it starts. -/
theorem State.Aligned.advances {H : Type} {env : Env H} {s t : State} (hp : env.program.Laid)
    (hcomputed : ∀ f c, env.program.linked? f = some (.code c) → c.Computed)
    (hs : Stacked env.program s) (h : s.Aligned) (hst : Advances env s t) : t.Aligned := by
  obtain ⟨hn, ht⟩ := hs.advances hp hst
  intro i b hb
  rcases Nat.lt_or_ge s.calls.below.size i with hnew | hold
  · have hi := CallStack.le_of_activation? hb
    obtain ⟨hsize, hseated⟩ := hs.seated_of_advances hp hst (by omega)
    obtain rfl : i = t.calls.below.size := by omega
    obtain ⟨f, hf⟩ := ht.linked _ _ hb
    rw [CallStack.activation?_top] at hb
    cases hb
    exact hseated.aligned (hcomputed f _ hf)
  · obtain ⟨a, ha⟩ := CallStack.exists_activation? hold
    exact (h i a ha).of_sameFrame (hn.sameFrame ha hb)

theorem State.Aligned.reaches {H : Type} {env : Env H} {s t : State} (hp : env.program.Laid)
    (hcomputed : ∀ f c, env.program.linked? f = some (.code c) → c.Computed)
    (hs : Stacked env.program s) (h : s.Aligned) (hst : Reaches env s t) : t.Aligned := by
  induction hst with
  | refl => exact h
  | tail hr hstep ih => exact ih.advances hp hcomputed (hs.reaches hp hr) hstep

theorem State.aligned_of_enter {p : Program} {f : FuncId} {args : List Bytes} {returnSize : Nat}
    {stats : Stats} {s : State} (hp : p.Laid)
    (hcomputed : ∀ f c, p.linked? f = some (.code c) → c.Computed)
    (h : enter p f args returnSize stats = .ok s) : s.Aligned := by
  obtain ⟨c, a, hc, -, -, hcalls, hentered, -⟩ := entered_of_enter hp h
  have hseated := seated_of_enter hp h
  intro i b hb
  rw [hcalls] at hb hseated
  obtain rfl : i = 0 := Nat.le_zero.mp (CallStack.le_of_activation? hb)
  cases hb
  exact hseated.aligned (hentered.code ▸ hcomputed f c hc)

/-! ## 4. Addresses -/

/-- The address of an aligned offset is aligned exactly if the base of the stack is. -/
theorem dvd_addressOf_iff {t : Ty} {x : Nat} (h : t.align.toNat ∣ x) :
    t.align.toNat ∣ (addressOf x).toNat ↔ t.align.toNat ≤ stackBase := by
  have hword : t.align.toNat ∣ 2 ^ 64 := by
    rw [t.align_toNat]
    exact Nat.pow_dvd_pow 2 (by omega)
  rw [addressOf, UInt64.toNat_ofNat', Nat.dvd_mod_iff hword, Nat.dvd_add_left h, t.align_toNat,
    show stackBase = 2 ^ 16 from rfl, Nat.pow_dvd_pow_iff_le_right (by decide),
    Nat.pow_le_pow_iff_right (by decide)]

theorem Activation.readPointer_of_word64? {a : Activation} {m : Memory} {r : Reg} {e : Extent}
    {w : UInt64} (he : a.code.frame.regExtent? r = some e)
    (hw : m.word64? (a.frameBase + e.start) = some w) : a.readPointer m r = .ok w := by
  unfold readPointer
  rw [extent_of_regExtent? he]
  simp only [bind, Except.bind, hw]

/-- Taking the address of a slot puts the address into the target. -/
theorem Next.takes {p : Program} (hp : p.Laid) {s t : State} (hs : Stacked p s) (hn : Next p s t)
    {target : Reg} {slot : SlotId} (hop : s.calls.top.operation? = some (.stackAlloc target slot)) :
    ∃ u x, s.calls.Binds (s.calls.own (.slot slot)) u x ∧
      t.calls.top.readPointer t.stack target = .ok (addressOf x) := by
  obtain ⟨f, hf⟩ := hs.linked _ _ s.calls.activation?_top
  have hlaid := hp f _ hf
  cases hn with
  | data hop' hm =>
    cases hop.symm.trans hop'
    cases hm with
    | stackAlloc hsrc hdst _ hword =>
      obtain ⟨u, hu, -⟩ := hlaid.exists_slotType hsrc
      exact ⟨u, _, CallStack.binds_own (.slot hu hsrc), Activation.readPointer_of_word64? hdst hword⟩
    | int hint => cases hint
  | jump hop' hb =>
    cases hop.symm.trans hop'
    cases hb
  | call hop' => cases hop.symm.trans hop'
  | ret hop' => cases hop.symm.trans hop'

/-- In every state that an invocation reaches, the live activations and all their variables are
aligned on the stack.  The address that a step takes of a slot is aligned exactly if the alignment
of the slot is at most 2¹⁶. -/
theorem aligned_at_run_time {H : Type} {env : Env H} {m : Module}
    (hm : m.finalize = .ok env.program) {f : FuncId} {args : List Bytes} {returnSize : Nat}
    {stats : Stats} {s₀ s : State} (henter : enter env.program f args returnSize stats = .ok s₀)
    (h : Reaches env s₀ s) :
    s.Aligned ∧ (∀ v t x, s.calls.Binds v t x → t.align.toNat ∣ x) ∧
    ∀ target slot t, s.calls.top.operation? = some (.stackAlloc target slot) → Advances env s t →
      ∃ u x w, s.calls.Binds (s.calls.own (.slot slot)) u x ∧
        t.calls.top.readPointer t.stack target = .ok w ∧
        (u.align.toNat ∣ w.toNat ↔ u.align.toNat ≤ stackBase) := by
  have hp := Module.laid_of_finalize hm
  have hcomputed : ∀ f c, env.program.linked? f = some (.code c) → c.Computed :=
    fun _ _ hc => Module.computed_of_finalize hm hc
  have hs₀ := Stacked.of_enter hp henter
  have hs := hs₀.reaches hp h
  have haligned := (State.aligned_of_enter hp hcomputed henter).reaches hp hcomputed hs₀ h
  have hbinds : ∀ v t x, s.calls.Binds v t x → t.align.toNat ∣ x := by
    intro v t x ⟨a, ha, hcell⟩
    obtain ⟨g, hg⟩ := hs.linked _ a ha
    exact (haligned _ a ha).dvd_of_holds (hcomputed g _ hg) hcell
  refine ⟨haligned, hbinds, ?_⟩
  intro target slot t hop hst
  obtain ⟨u, x, hx, hread⟩ := (hs.advances hp hst).1.takes hp hs hop
  exact ⟨u, x, _, hx, hread, dvd_addressOf_iff (hbinds _ u x hx)⟩

/-- An aggregate that is aligned more strictly than the base of the stack. -/
def coarseTy : Ty := ⟨.struct 1, 131072, ⟨17, by decide⟩⟩

/-- The function `probe` takes the address of a coarse slot.  Its caller hands it a number, so its
arguments do not start where its frame may. -/
def coarse : Module :=
  (Draft.empty.run
    [.defineStruct 131072 131072, .declare ⟨"probe", [.int], .int⟩, .declare ⟨"main", [], .int⟩,
      .select ⟨0⟩, .body .openBlock, .body (.stackAlloc coarseTy), .body (.load ⟨0⟩ .int),
      .body (.ret ⟨1⟩),
      .select ⟨1⟩, .body .openBlock, .body (.literal 5), .body (.call ⟨0⟩ [⟨0⟩]),
      .body (.ret ⟨1⟩)]).2.module

def coarseProbe : Code where
  definition := ⟨⟨"probe", [.int], .int⟩,
    #[#[.stackAlloc ⟨0⟩ ⟨0⟩, .load ⟨1⟩ ⟨0⟩, .ret ⟨1⟩]], #[.pointer, .int], #[coarseTy]⟩
  frame := ⟨⟨#[⟨0, 8⟩, ⟨8, 4⟩, ⟨131072, 131072⟩], 262144, 131072⟩, 2⟩
  args := ⟨#[⟨0, 4⟩], 4, 4⟩

def coarseMain : Code where
  definition := ⟨⟨"main", [], .int⟩,
    #[#[.literal ⟨0⟩ 5, .call ⟨1⟩ ⟨0⟩ [⟨0⟩], .ret ⟨1⟩]], #[.int, .int], #[]⟩
  frame := ⟨⟨#[⟨0, 4⟩, ⟨4, 4⟩], 8, 4⟩, 2⟩
  args := ⟨#[], 0, 1⟩

def coarseEnv : Env Unit where
  program := ⟨#[.code coarseProbe, .code coarseMain]⟩
  maxCallDepth := none
  host? _ := none

theorem finalize_coarse : coarse.finalize = .ok coarseEnv.program :=
  Module.finalize_eq_ok_iff.mpr ⟨by decide +kernel, by cbv, by decide +kernel⟩

theorem ownTypes_coarse : coarse.OwnTypes := by
  have hfunctions : coarse.functions =
      #[.defined coarseProbe.definition, .defined coarseMain.definition] := by decide +kernel
  have htypes : coarse.types = ⟨#[coarseTy]⟩ := by decide +kernel
  intro f fn t hfn ht
  rw [Registry.Knows, htypes]
  rw [Module.function?, hfunctions] at hfn
  obtain ⟨_ | _ | k⟩ := f
  · cases hfn
    cases ht <;> simp_all [Function.signature, coarseProbe]
    grind
  · cases hfn
    cases ht <;> simp_all [Function.signature, coarseMain]
  · cases hfn

/-- The activation of `probe` when it is called. -/
def coarseActivation : Activation := ⟨coarseProbe, 16, 131072, 0, 0⟩

theorem run_coarse : ∃ s₀ s t, enter coarseEnv.program ⟨1⟩ [] 4 .zero = .ok s₀ ∧
    Reaches coarseEnv s₀ s ∧ Advances coarseEnv s t ∧ s.calls.top = coarseActivation ∧
    s.calls.top.operation? = some (.stackAlloc ⟨0⟩ ⟨0⟩) ∧
    s.calls.Binds (s.calls.own (.slot ⟨0⟩)) coarseTy 262144 := by
  have hrun : (enter coarseEnv.program ⟨1⟩ [] 4 .zero).toOption.any (fun s₀ =>
      (after? coarseEnv 2 s₀).any fun s => (after? coarseEnv 1 s).any fun _ =>
        decide (s.calls.top = coarseActivation)) = true := by decide +kernel
  obtain ⟨s₀, henter, hrun⟩ := (Option.any_eq_true _ _).mp hrun
  obtain ⟨s, hs, hrun⟩ := (Option.any_eq_true _ _).mp hrun
  obtain ⟨t, ht, hrun⟩ := (Option.any_eq_true _ _).mp hrun
  have htop : s.calls.top = coarseActivation := of_decide_eq_true hrun
  refine ⟨s₀, s, t, Except.toOption_eq_some.mp henter,
    reaches_of_addressable (reachesAddressable_of_after? hs), (advances_of_after? ht).1, htop, ?_,
    CallStack.binds_own ?_⟩
  · rw [htop]
    rfl
  · rw [htop]
    exact .slot (e := ⟨131072, 131072⟩) rfl rfl

/-- The coarse slot starts at a multiple of its alignment, and its address is none. -/
theorem aligned_at_run_time_coarse :
    ∃ s₀ s t w, enter coarseEnv.program ⟨1⟩ [] 4 .zero = .ok s₀ ∧ Reaches coarseEnv s₀ s ∧
      Advances coarseEnv s t ∧ s.Aligned ∧
      s.calls.Binds (s.calls.own (.slot ⟨0⟩)) coarseTy 262144 ∧ coarseTy.align.toNat ∣ 262144 ∧
      t.calls.top.readPointer t.stack ⟨0⟩ = .ok w ∧
      (coarseTy.align.toNat ∣ w.toNat ↔ coarseTy.align.toNat ≤ stackBase) := by
  obtain ⟨s₀, s, t, henter, hs, hst, -, hop, hslot⟩ := run_coarse
  obtain ⟨haligned, hbinds, htakes⟩ := aligned_at_run_time finalize_coarse henter hs
  obtain ⟨u, x, w, hx, hread, hw⟩ := htakes _ _ t hop hst
  obtain ⟨rfl, rfl⟩ := hx.unique hslot
  exact ⟨s₀, s, t, w, henter, hs, hst, haligned, hslot, hbinds _ _ _ hslot, hread, hw⟩

/-- The address of the coarse slot is an odd multiple of 2¹⁶. -/
theorem misaligned_coarse :
    ∃ s₀ s t, coarse.Built ∧ coarse.OwnTypes ∧ coarse.finalize = .ok coarseEnv.program ∧
      enter coarseEnv.program ⟨1⟩ [] 4 .zero = .ok s₀ ∧ Reaches coarseEnv s₀ s ∧
      s.calls.top.operation? = some (.stackAlloc ⟨0⟩ ⟨0⟩) ∧
      s.calls.top.code.definition.slotTypes[0]? = some coarseTy ∧ Advances coarseEnv s t ∧
      t.calls.top.readPointer t.stack ⟨0⟩ = .ok 0x50000 ∧
      ¬ coarseTy.align.toNat ∣ (0x50000 : UInt64).toNat := by
  obtain ⟨s₀, s, t, henter, hs, hst, htop, hop, hslot⟩ := run_coarse
  have hlaid := Module.laid_of_finalize finalize_coarse
  have hstacked := (Stacked.of_enter hlaid henter).reaches hlaid hs
  obtain ⟨u, x, hx, hread⟩ := (hstacked.advances hlaid hst).1.takes hlaid hstacked hop
  obtain ⟨rfl, rfl⟩ := hx.unique hslot
  refine ⟨s₀, s, t, ⟨_, rfl⟩, ownTypes_coarse, finalize_coarse, henter, hs, hop, ?_, hst, hread,
    by decide⟩
  rw [htop]
  rfl

end Machine

end RegIR
