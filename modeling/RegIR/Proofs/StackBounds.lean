import Mathlib.Order.Lattice.Nat
import RegIR.Machine.OwnerSearch
import RegIR.Proofs.Alignment
/-!
# The bounds of the stack

Frames lie in order, so halving finds the one around an offset even where empty frames coincide.
A return cuts the stack back to where the argument block began, and leaves the padding in front of
it.  The next call starts from there, so all the padding behind a frame ends where the strictest of
the callees may begin, however many calls there were.
-/

namespace RegIR

namespace Machine

/-! ## 1. Halving -/

/-- Before the failure the test holds, and from there on it does not. -/
theorem firstFailure_spec {test : Nat → Bool} {lo hi : Nat} (hle : lo ≤ hi)
    (hmono : ∀ i j, i ≤ j → test j = true → test i = true) :
    lo ≤ firstFailure test lo hi ∧ firstFailure test lo hi ≤ hi ∧
      ∀ i, lo ≤ i → i < hi → (test i = true ↔ i < firstFailure test lo hi) := by
  fun_induction firstFailure test lo hi with
  | case1 lo hi hlt mid htest ih =>
    have hmid : lo ≤ mid ∧ mid < hi := by omega
    obtain ⟨hlower, hupper, hiff⟩ := ih (by omega)
    refine ⟨by omega, hupper, ?_⟩
    intro i hlo hhi
    rcases Nat.lt_or_ge mid i with habove | hbelow
    · exact hiff i habove hhi
    · exact iff_of_true (hmono i mid hbelow htest) (by omega)
  | case2 lo hi hlt mid htest ih =>
    have hmid : lo ≤ mid ∧ mid < hi := by omega
    obtain ⟨hlower, hupper, hiff⟩ := ih hmid.1
    refine ⟨hlower, by omega, ?_⟩
    intro i hlo hhi
    rcases Nat.lt_or_ge i mid with hbelow | habove
    · exact hiff i hlo hbelow
    · exact iff_of_false (fun hi => htest (hmono mid i habove hi)) (by omega)
  | case3 lo hi hge =>
    refine ⟨Nat.le_refl _, hle, ?_⟩
    intro i hlo hhi
    omega

namespace CallStack

variable {c : CallStack}

/-- Every frame starts at or above the end of an older one. -/
def Ascending (c : CallStack) : Prop :=
  ∀ i j a b, i < j → c.activation? i = some a → c.activation? j = some b →
    a.frameEnd ≤ b.frameBase

theorem startsBelow_iff {offset i : Nat} :
    c.startsBelow offset i = true ↔ ∃ a, c.activation? i = some a ∧ a.frameBase ≤ offset := by
  unfold startsBelow
  cases c.activation? i with
  | none => simp
  | some a => simp

namespace Ascending

variable (h : c.Ascending)
include h

/-- A frame that starts below an offset has all older ones below it. -/
theorem startsBelow_mono {offset i j : Nat} (hij : i ≤ j) (hj : c.startsBelow offset j = true) :
    c.startsBelow offset i = true := by
  obtain ⟨b, hb, hoff⟩ := startsBelow_iff.mp hj
  rcases Nat.lt_or_eq_of_le hij with hlt | rfl
  · obtain ⟨a, ha⟩ := exists_activation? (Nat.le_trans hij (le_of_activation? hb))
    have hab : a.frameBase + a.code.frame.size ≤ b.frameBase := h i j a b hlt ha hb
    exact startsBelow_iff.mpr ⟨a, ha, by omega⟩
  · exact hj

/-- The owner is the one live activation that has the offset in its frame. -/
theorem ownerByHalving?_eq_some_iff {offset i : Nat} {a : Activation} :
    c.ownerByHalving? offset = some (i, a) ↔
      c.activation? i = some a ∧ a.frameBase ≤ offset ∧ offset < a.frameEnd := by
  obtain ⟨-, hupper, hiff⟩ := firstFailure_spec (Nat.zero_le c.depth)
    fun i j hij hj => h.startsBelow_mono hij hj
  unfold ownerByHalving?
  generalize firstFailure (c.startsBelow offset) 0 c.depth = r at hupper hiff
  constructor
  · intro howner
    split at howner
    · cases howner
    · rename_i k
      have hstarts := (hiff k (Nat.zero_le k) hupper).mpr (Nat.lt_succ_self k)
      obtain ⟨b, hb, hbase⟩ := startsBelow_iff.mp hstarts
      rw [hb] at howner
      dsimp only at howner
      split at howner
      · cases howner
        exact ⟨hb, hbase, by assumption⟩
      · cases howner
  · rintro ⟨ha, hbase, hend⟩
    have hdepth : i < c.depth := Nat.lt_succ_of_le (le_of_activation? ha)
    have hlt : i < r := (hiff i (Nat.zero_le i) hdepth).mp (startsBelow_iff.mpr ⟨a, ha, hbase⟩)
    -- The next frame starts above the offset, behind the end of this one.
    have hnext : ¬ i + 1 < r := by
      intro hnext
      obtain ⟨b, hb, hbelow⟩ := startsBelow_iff.mp
        ((hiff (i + 1) (Nat.zero_le _) (Nat.lt_of_lt_of_le hnext hupper)).mpr hnext)
      have := h i (i + 1) a b (Nat.lt_succ_self i) ha hb
      omega
    obtain rfl : r = i + 1 := by omega
    dsimp only
    rw [ha]
    dsimp only
    rw [if_pos hend]

theorem ownerOf?_eq_some_iff {offset i : Nat} {a : Activation} :
    c.ownerOf? offset = some (i, a) ↔
      c.activation? i = some a ∧ a.frameBase ≤ offset ∧ offset < a.frameEnd := by
  constructor
  · exact ownerOf?_eq_some
  · rintro ⟨ha, hbase, hend⟩
    refine ownerOf?_of_newest ha hbase hend ?_
    intro j b hj hb
    exact Nat.lt_of_lt_of_le hend (h i j a b hj ha hb)

/-- Halving finds what the machine finds by looking at one activation after the other. -/
theorem ownerByHalving?_eq (offset : Nat) : c.ownerByHalving? offset = c.ownerOf? offset := by
  refine Option.ext fun owner => ?_
  obtain ⟨i, a⟩ := owner
  exact h.ownerByHalving?_eq_some_iff.trans h.ownerOf?_eq_some_iff.symm

theorem ownerByHalving?_eq_none_iff {offset : Nat} : c.ownerByHalving? offset = none ↔
    ∀ i a, c.activation? i = some a → ¬ (a.frameBase ≤ offset ∧ offset < a.frameEnd) := by
  rw [Option.eq_none_iff_forall_ne_some]
  constructor
  · intro hnone i a ha hin
    exact hnone (i, a) (h.ownerByHalving?_eq_some_iff.mpr ⟨ha, hin⟩)
  · rintro hnone ⟨i, a⟩ howner
    obtain ⟨ha, hin⟩ := h.ownerByHalving?_eq_some_iff.mp howner
    exact hnone i a ha hin

end Ascending

end CallStack

theorem Stacked.ascending {p : Program} {s : State} (hs : Stacked p s) : s.calls.Ascending := by
  intro i j a b hij ha hb
  have hord := hs.ordered i j a b hij ha hb
  have hargs := hs.args j b hb
  omega

end Machine

/-! ## 2. The strictest callee -/

/-- The code has a call of a function with the code `d`. -/
def Code.Calls (p : Program) (c d : Code) : Prop :=
  ∃ block pos target callee args, c.definition.OpAt block pos (.call target callee args) ∧
    p.linked? callee = some (.code d)

/-- 16, and the alignments of the argument blocks of the functions that the code calls.  A host
function has no argument block on the stack. -/
def Code.blockAligns (p : Program) (c : Code) : Set Nat :=
  {k | k = Machine.frameAlign ∨ ∃ d, c.Calls p d ∧ k = d.args.align.toNat}

section Strictest

variable {p : Program} {c d : Code} {k : Nat}

theorem Code.exists_isGreatest_blockAligns (p : Program) (c : Code) :
    ∃ k, IsGreatest (c.blockAligns p) k := by
  have hne : (c.blockAligns p).Nonempty := ⟨Machine.frameAlign, Or.inl rfl⟩
  have hbound : BddAbove (c.blockAligns p) := by
    refine ⟨UInt32.size, ?_⟩
    rintro k (rfl | ⟨d, -, rfl⟩)
    · decide
    · exact Nat.le_of_lt d.args.align.toNat_lt
  exact ⟨_, Nat.sSup_mem hne hbound, fun _ hk => le_csSup hbound hk⟩

theorem Code.blockAligns_pos (hk : IsGreatest (c.blockAligns p) k) : 0 < k :=
  Nat.lt_of_lt_of_le (by decide) (hk.2 (Or.inl rfl) : Machine.frameAlign ≤ k)

variable (hcomputed : ∀ f c, p.linked? f = some (.code c) → c.Computed)
include hcomputed

theorem Code.exists_eq_of_mem_blockAligns (hk : k ∈ c.blockAligns p) : ∃ j, k = 2 ^ j := by
  rcases hk with rfl | ⟨d, ⟨_, _, _, callee, _, -, hd⟩, rfl⟩
  · exact ⟨4, rfl⟩
  · exact Layout.exists_align_eq (hcomputed callee d hd).args

/-- Where the argument block of a callee begins, if the stack reaches no further than the strictest
callee allows. -/
theorem Code.Calls.roundUp_le (h : c.Calls p d) (hk : IsGreatest (c.blockAligns p) k)
    {size stop : Nat} (hsize : size ≤ roundUp stop k) :
    roundUp size (max d.args.align.toNat Machine.frameAlign) ≤ roundUp stop k := by
  have hmem : max d.args.align.toNat Machine.frameAlign ∈ c.blockAligns p := by
    rcases Nat.le_total d.args.align.toNat Machine.frameAlign with hle | hle
    · rw [Nat.max_eq_right hle]
      exact Or.inl rfl
    · rw [Nat.max_eq_left hle]
      exact Or.inr ⟨d, h, rfl⟩
  have hle := hk.2 hmem
  -- Both are powers of two, so the strictest alignment is a multiple of this one.
  obtain ⟨j, hj⟩ := Code.exists_eq_of_mem_blockAligns hcomputed hmem
  obtain ⟨i, hi⟩ := Code.exists_eq_of_mem_blockAligns hcomputed hk.1
  rw [hj, hi] at hle
  rw [hj]
  refine roundUp_le_of_dvd (Nat.two_pow_pos j) (Nat.dvd_trans ?_ (dvd_roundUp stop k)) hsize
  rw [hi]
  exact Nat.pow_dvd_pow 2 ((Nat.pow_le_pow_iff_right (by decide)).mp hle)

end Strictest

namespace Machine

/-! ## 3. Padding -/

variable {p : Program} {s t : State}

/-- What follows a frame, the next argument block or the end of the stack, is no further away than
the strictest callee of its activation may ask for. -/
structure Snug (p : Program) (s : State) : Prop where
  top : ∀ k, IsGreatest (s.calls.top.code.blockAligns p) k →
    s.stack.size ≤ roundUp s.calls.top.frameEnd k
  next : ∀ i a b k, s.calls.activation? i = some a → s.calls.activation? (i + 1) = some b →
    IsGreatest (a.code.blockAligns p) k → b.argsBase ≤ roundUp a.frameEnd k

/-- An activation runs a callee of the one below it. -/
theorem Stacked.calls (hs : Stacked p s) {i : Nat} {a b : Activation}
    (ha : s.calls.activation? i = some a) (hb : s.calls.activation? (i + 1) = some b) :
    a.code.Calls p b.code := by
  have hlt := CallStack.le_of_activation? hb
  have hu : s.calls.below[i]? = some s.calls.below[i] := Array.getElem?_eq_getElem hlt
  rw [CallStack.activation?_below hu] at ha
  cases ha
  obtain ⟨-, hop, hc, -, -⟩ := hs.waits i _ b hu hb
  exact ⟨_, _, _, _, _, hop, hc⟩

/-- The stack ends with the frame of an activation that has just started. -/
theorem snug_of_enter {f : FuncId} {args : List Bytes} {returnSize : Nat} {stats : Stats}
    (hp : p.Laid) (h : enter p f args returnSize stats = .ok s) : Snug p s := by
  obtain ⟨c, a, -, -, -, hcalls, hentered, -⟩ := entered_of_enter hp h
  constructor
  · intro k hk
    rw [hentered.size, ← hentered.code, hcalls]
    exact le_roundUp (Code.blockAligns_pos hk)
  · intro i a b k ha hb
    have hle := CallStack.le_of_activation? hb
    rw [hcalls] at hle
    exact absurd hle (Nat.not_succ_le_zero i)

section Step

variable {H : Type} {env : Env H} (hp : env.program.Laid)
  (hcomputed : ∀ f c, env.program.linked? f = some (.code c) → c.Computed)
include hp

/-- A step of the running activation leaves the stack as long as it is, a call starts from it, and
a return cuts it back to where the call began. -/
theorem Snug.top_advances (hs : Stacked env.program s) (h : Snug env.program s)
    (hst : Advances env s t) {k : Nat}
    (hk : IsGreatest (t.calls.top.code.blockAligns env.program) k) :
    t.stack.size ≤ roundUp t.calls.top.frameEnd k := by
  have hn := (hs.advances hp hst).1
  cases hn with
  | data _ hm =>
    rw [hm.size]
    exact h.top k hk
  | jump _ _ => exact h.top k hk
  | call _ _ _ _ hentered _ =>
    rw [hentered.size, ← hentered.code]
    exact le_roundUp (Code.blockAligns_pos hk)
  | @ret _ _ calls _ _ _ _ caller _ _ _ _ hback _ =>
    obtain ⟨hpos, hlast⟩ := CallStack.getElem?_of_back? hback
    rw [Memory.size_cut]
    refine Nat.le_trans (Nat.min_le_left _ _) ?_
    have htop : calls.activation? (calls.below.size - 1 + 1) = some calls.top := by
      rw [Nat.sub_add_cancel hpos]
      exact calls.activation?_top
    exact h.next _ caller calls.top k (CallStack.activation?_below hlast) htop hk

include hcomputed

theorem Snug.advances (hs : Stacked env.program s) (h : Snug env.program s)
    (hst : Advances env s t) : Snug env.program t := by
  obtain ⟨hn, ht⟩ := hs.advances hp hst
  refine ⟨fun k hk => h.top_advances hp hs hst hk, ?_⟩
  intro i a b k ha hb hk
  have hi := CallStack.le_of_activation? hb
  rcases Nat.lt_or_ge s.calls.below.size (i + 1) with hnew | hold
  · -- The step has started the newer one, behind the one that was running.
    obtain ⟨hsize, hseated⟩ := hs.seated_of_advances hp hst (by omega)
    obtain rfl : i = s.calls.below.size := by omega
    have hsame := hn.sameFrame s.calls.activation?_top ha
    have hcalls := ht.calls ha hb
    rw [← hsize, CallStack.activation?_top] at hb
    cases hb
    rw [hsame.code] at hk hcalls
    rw [hseated.argsBase, hsame.frameEnd]
    exact hcalls.roundUp_le hcomputed hk (h.top k hk)
  · obtain ⟨a', ha'⟩ := CallStack.exists_activation? (Nat.le_of_succ_le hold)
    obtain ⟨b', hb'⟩ := CallStack.exists_activation? hold
    have hsame := hn.sameFrame ha' ha
    rw [(hn.sameFrame hb' hb).argsBase, hsame.frameEnd]
    exact h.next i a' b' k ha' hb' (hsame.code ▸ hk)

theorem Snug.reaches (hs : Stacked env.program s) (h : Snug env.program s)
    (hst : Reaches env s t) : Snug env.program t := by
  induction hst with
  | refl => exact h
  | tail hr hstep ih => exact ih.advances hp hcomputed (hs.reaches hp hr) hstep

end Step

/-! ## 4. Every state of a run -/

/-- In every state that an invocation reaches, the argument blocks and frames of the live
activations lie in order on the stack, and results go to the targets of the calls that wait for
them.  Halving finds the one activation that has an offset in its frame, if there is any.  The
stack ends at the latest where the frame of the running activation does, rounded up to the largest
of 16 and the alignments of the argument blocks of its callees. -/
theorem stack_stays_in_order {H : Type} {env : Env H} {m : Module}
    (hm : m.finalize = .ok env.program) {f : FuncId} {args : List Bytes} {returnSize : Nat}
    {stats : Stats} {s₀ s : State} (henter : enter env.program f args returnSize stats = .ok s₀)
    (h : Reaches env s₀ s) :
    Stacked env.program s ∧
    (∀ offset, s.calls.ownerByHalving? offset = s.calls.ownerOf? offset) ∧
    (∀ offset i a, s.calls.ownerByHalving? offset = some (i, a) ↔
      s.calls.activation? i = some a ∧ a.frameBase ≤ offset ∧ offset < a.frameEnd) ∧
    (∀ offset, s.calls.ownerByHalving? offset = none ↔ ∀ i a, s.calls.activation? i = some a →
      ¬ (a.frameBase ≤ offset ∧ offset < a.frameEnd)) ∧
    ∃ k, IsGreatest (s.calls.top.code.blockAligns env.program) k ∧
      s.stack.size ≤ roundUp s.calls.top.frameEnd k := by
  have hp := Module.laid_of_finalize hm
  have hcomputed : ∀ f c, env.program.linked? f = some (.code c) → c.Computed :=
    fun _ _ hc => Module.computed_of_finalize hm hc
  have hs₀ := Stacked.of_enter hp henter
  have hs := hs₀.reaches hp h
  have hsnug := (snug_of_enter hp henter).reaches hp hcomputed hs₀ h
  have hasc := hs.ascending
  obtain ⟨k, hk⟩ := Code.exists_isGreatest_blockAligns env.program s.calls.top.code
  exact ⟨hs, hasc.ownerByHalving?_eq, fun _ _ _ => hasc.ownerByHalving?_eq_some_iff,
    fun _ => hasc.ownerByHalving?_eq_none_iff, k, hk, hsnug.top k hk⟩

def strictTy : Ty := ⟨.struct 2, 32, ⟨5, by decide⟩⟩

/-- The function `main` calls `take` with a strictly aligned aggregate, and then `relay`.  Both
`relay` and its callee `pass` hand on an empty aggregate, and nothing in their frames has bytes. -/
def crowded : Module :=
  (Draft.empty.run
    [.defineStruct 0 1, .defineStruct 32 32, .declare ⟨"pass", [emptyTy], emptyTy⟩,
      .declare ⟨"relay", [emptyTy], emptyTy⟩, .declare ⟨"take", [strictTy], .int⟩,
      .declare ⟨"main", [], .int⟩,
      .select ⟨0⟩, .body .openBlock, .body (.readArg 0), .body (.ret ⟨0⟩),
      .select ⟨1⟩, .body .openBlock, .body (.readArg 0), .body (.call ⟨0⟩ [⟨0⟩]),
      .body (.ret ⟨1⟩),
      .select ⟨2⟩, .body .openBlock, .body (.literal 5), .body (.ret ⟨0⟩),
      .select ⟨3⟩, .body .openBlock, .body (.stackAlloc strictTy), .body (.load ⟨0⟩ strictTy),
      .body (.stackAlloc emptyTy), .body (.load ⟨2⟩ emptyTy), .body (.stackAlloc .int),
      .body (.call ⟨2⟩ [⟨1⟩]), .body (.call ⟨1⟩ [⟨3⟩]), .body (.ret ⟨5⟩)]).2.module

def crowdedMain : Code where
  definition := ⟨⟨"main", [], .int⟩,
    #[#[.stackAlloc ⟨0⟩ ⟨0⟩, .load ⟨1⟩ ⟨0⟩, .stackAlloc ⟨2⟩ ⟨1⟩, .load ⟨3⟩ ⟨2⟩,
      .stackAlloc ⟨4⟩ ⟨2⟩, .call ⟨5⟩ ⟨2⟩ [⟨1⟩], .call ⟨6⟩ ⟨1⟩ [⟨3⟩], .ret ⟨5⟩]],
    #[.pointer, strictTy, .pointer, emptyTy, .pointer, .int, emptyTy], #[strictTy, emptyTy, .int]⟩
  frame := ⟨⟨#[⟨0, 8⟩, ⟨32, 32⟩, ⟨64, 8⟩, ⟨72, 0⟩, ⟨72, 8⟩, ⟨80, 4⟩, ⟨84, 0⟩, ⟨96, 32⟩,
    ⟨128, 0⟩, ⟨128, 4⟩], 132, 32⟩, 7⟩
  args := ⟨#[], 0, 1⟩

def crowdedEnv : Env Unit where
  program := ⟨#[
    .code ⟨⟨⟨"pass", [emptyTy], emptyTy⟩, #[#[.readArg ⟨0⟩ 0, .ret ⟨0⟩]], #[emptyTy], #[]⟩,
      ⟨⟨#[⟨0, 0⟩], 0, 1⟩, 1⟩, ⟨#[⟨0, 0⟩], 0, 1⟩⟩,
    .code ⟨⟨⟨"relay", [emptyTy], emptyTy⟩,
        #[#[.readArg ⟨0⟩ 0, .call ⟨1⟩ ⟨0⟩ [⟨0⟩], .ret ⟨1⟩]], #[emptyTy, emptyTy], #[]⟩,
      ⟨⟨#[⟨0, 0⟩, ⟨0, 0⟩], 0, 1⟩, 2⟩, ⟨#[⟨0, 0⟩], 0, 1⟩⟩,
    .code ⟨⟨⟨"take", [strictTy], .int⟩, #[#[.literal ⟨0⟩ 5, .ret ⟨0⟩]], #[.int], #[]⟩,
      ⟨⟨#[⟨0, 4⟩], 4, 4⟩, 1⟩, ⟨#[⟨0, 32⟩], 32, 32⟩⟩,
    .code crowdedMain]⟩
  maxCallDepth := none
  host? _ := none

theorem finalize_crowded : crowded.finalize = .ok crowdedEnv.program :=
  Module.finalize_eq_ok_iff.mpr ⟨by decide +kernel, by cbv, by decide +kernel⟩

/-- Where the frames of the live activations begin and end, oldest first. -/
def CallStack.spans (c : CallStack) : List (Nat × Nat) :=
  (c.below.toList.map Suspended.caller ++ [c.top]).map fun a => (a.frameBase, a.frameEnd)

theorem CallStack.getElem?_spans {c : CallStack} {i : Nat} {a : Activation}
    (ha : c.activation? i = some a) : c.spans[i]? = some (a.frameBase, a.frameEnd) := by
  unfold activation? at ha
  rw [spans, List.getElem?_map]
  split at ha
  · rename_i hi
    cases ha
    rw [List.getElem?_append_right (by simp [hi])]
    simp [hi]
  · obtain ⟨u, hu, rfl⟩ := Option.map_eq_some_iff.mp ha
    have hlt := (Array.getElem?_eq_some_iff.mp hu).1
    rw [List.getElem?_append_left (by simpa using hlt)]
    simp [hu]

/-- When `pass` runs, two empty frames begin and end at one offset, which has no owner.  When `main`
goes on, the padding in front of the arguments of `take` is still there. -/
theorem stack_stays_in_order_crowded :
    ∃ s₀ s t, crowded.finalize = .ok crowdedEnv.program ∧
      enter crowdedEnv.program ⟨3⟩ [] 4 .zero = .ok s₀ ∧ Reaches crowdedEnv s₀ s ∧
      Reaches crowdedEnv s₀ t ∧ Stacked crowdedEnv.program s ∧
      s.calls.spans = [(0, 132), (160, 160), (160, 160)] ∧
      s.calls.ownerByHalving? 160 = none ∧
      (∃ a, s.calls.ownerByHalving? 131 = some (0, a)) ∧
      t.calls.spans = [(0, 132)] ∧ t.stack.size = 160 ∧
      ∃ k, IsGreatest (t.calls.top.code.blockAligns crowdedEnv.program) k ∧
        160 ≤ roundUp 132 k := by
  have hrun : (enter crowdedEnv.program ⟨3⟩ [] 4 .zero).toOption.any (fun s₀ =>
      (after? crowdedEnv 11 s₀).any fun s => (after? crowdedEnv 3 s).any fun t =>
        decide (s.calls.spans = [(0, 132), (160, 160), (160, 160)] ∧
          t.calls.spans = [(0, 132)] ∧ t.stack.size = 160)) = true := by decide +kernel
  obtain ⟨s₀, henter, hrun⟩ := (Option.any_eq_true _ _).mp hrun
  obtain ⟨s, hs, hrun⟩ := (Option.any_eq_true _ _).mp hrun
  obtain ⟨t, ht, hrun⟩ := (Option.any_eq_true _ _).mp hrun
  obtain ⟨hspans, hspan, hsize⟩ := of_decide_eq_true hrun
  rw [Except.toOption_eq_some] at henter
  have hreach := reaches_of_addressable (reachesAddressable_of_after? hs)
  have hreach' := hreach.trans (reaches_of_addressable (reachesAddressable_of_after? ht))
  obtain ⟨hstacked, -, hsome, hnone, -⟩ := stack_stays_in_order finalize_crowded henter hreach
  obtain ⟨-, -, -, -, k, hk, hbound⟩ := stack_stays_in_order finalize_crowded henter hreach'
  refine ⟨s₀, s, t, finalize_crowded, henter, hreach, hreach', hstacked, hspans, ?_, ?_, hspan,
    hsize, k, hk, ?_⟩
  · refine (hnone 160).mpr ?_
    rintro i a ha ⟨hbase, hend⟩
    have hmem := List.mem_of_getElem? (CallStack.getElem?_spans ha)
    rw [hspans] at hmem
    have hall : ∀ x ∈ [(0, 132), (160, 160), (160, 160)], ¬ (x.1 ≤ 160 ∧ 160 < x.2) := by decide
    exact hall _ hmem ⟨hbase, hend⟩
  · obtain ⟨a, ha⟩ := CallStack.exists_activation? (Nat.zero_le s.calls.below.size)
    have hfirst := CallStack.getElem?_spans ha
    rw [hspans, List.getElem?_cons_zero, Option.some.injEq, Prod.mk.injEq] at hfirst
    exact ⟨a, (hsome 131 0 a).mpr ⟨ha, by omega, by omega⟩⟩
  · have hmem := List.mem_of_getElem? (CallStack.getElem?_spans t.calls.activation?_top)
    rw [hspan, List.mem_singleton, Prod.mk.injEq] at hmem
    rw [← hmem.2, ← hsize]
    exact hbound

end Machine

end RegIR
