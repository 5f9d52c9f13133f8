import Mathlib.Algebra.BigOperators.Ring.Finset
import Mathlib.Algebra.Order.BigOperators.Group.List
import Mathlib.Algebra.Order.Ring.Nat
import Mathlib.Data.List.Perm.Subperm
import Mathlib.Order.Lattice.Nat
import RegIR.Proofs.Bursts
import RegIR.Proofs.DepthLimit
/-!
# Runs that have to end

In a function whose blocks form no cycle an activation executes each operation at most once, so
only deeper and deeper calls could keep a run going.  With a limit on the live activations every
invocation ends, and the limit and the longest function bound the number of operations.
-/

namespace RegIR

/-! ## 1. Functions without cycles -/

namespace Graph

variable {g : Graph} {before : List Nat} {b : Nat}

/-- No walk from node 0 comes back to a node that it has left. -/
def Acyclic (g : Graph) : Prop := ∀ before b, g.Walk before b → b ∉ before

theorem Acyclic.nodup (hg : g.Acyclic) (hw : g.Walk before b) : (b :: before).Nodup := by
  induction hw with
  | start => exact List.nodup_singleton 0
  | step hw hc hlt ih => exact List.nodup_cons.mpr ⟨hg _ _ (hw.step hc hlt), ih⟩

/-- A graph whose edges all lead to greater nodes has no cycle. -/
theorem acyclic_of_lt (h : ∀ b, ∀ c ∈ g.succ b, b < c) : g.Acyclic := by
  have hbelow : ∀ {before b}, g.Walk before b → ∀ c ∈ before, c < b := by
    intro before b hw
    induction hw with
    | start =>
      intro c hc
      cases hc
    | @step before b d hw hd hlt ih =>
      intro c hc
      have hbd := h b d hd
      rcases List.mem_cons.mp hc with rfl | hc
      · exact hbd
      · exact Nat.lt_trans (ih c hc) hbd
  intro before b hw hmem
  exact Nat.lt_irrefl b (hbelow hw b hmem)

end Graph

namespace Definition

variable {d : Definition}

/-- The number of operations in a block. -/
def blockLength (d : Definition) (b : Nat) : Nat := (d.blocks[b]?.map Array.size).getD 0

/-- The number of operations in some blocks. -/
def lengthOf (d : Definition) (bs : List Nat) : Nat := (bs.map d.blockLength).sum

theorem lengthOf_cons (b : Nat) (bs : List Nat) :
    d.lengthOf (b :: bs) = d.blockLength b + d.lengthOf bs := List.sum_cons

theorem blockLength_of_getElem? {b : Nat} {block : Block} (h : d.blocks[b]? = some block) :
    d.blockLength b = block.size := by
  rw [blockLength, h]
  rfl

theorem instructionCount_eq_lengthOf :
    d.instructionCount = d.lengthOf (List.range d.blocks.size) := by
  have hblocks : (List.range d.blocks.size).map d.blockLength = d.blocks.toList.map Array.size := by
    refine List.ext_getElem (by simp) fun i hi hi' => ?_
    have hlt : i < d.blocks.size := by simpa using hi
    simp [blockLength, hlt]
  rw [lengthOf, hblocks, List.sum_eq_foldl, List.foldl_map, instructionCount, Array.foldl_toList]

theorem lengthOf_le_instructionCount {bs : List Nat} (hnodup : bs.Nodup)
    (hbs : ∀ b ∈ bs, b < d.blocks.size) : d.lengthOf bs ≤ d.instructionCount := by
  -- The blocks occur in the list of all blocks, up to their order.
  obtain ⟨cs, hperm, hsub⟩ := List.subperm_of_subset hnodup fun b hb =>
    List.mem_range.mpr (hbs b hb)
  rw [instructionCount_eq_lengthOf, lengthOf, ← (hperm.map d.blockLength).sum_eq]
  exact (hsub.map d.blockLength).sum_le_sum fun n _ => Nat.zero_le n

/-- The blocks that a walk has left and the one that it has reached are different, so all their
operations are counted. -/
theorem lengthOf_walk_le (hd : d.Shaped) (hacyclic : d.graph.Acyclic) {before : List Nat} {b : Nat}
    (hw : d.graph.Walk before b) : d.lengthOf (b :: before) ≤ d.instructionCount :=
  lengthOf_le_instructionCount (hacyclic.nodup hw) fun _ hc => hw.lt_size hd.nonempty hc

/-- Every branch leads to a later block. -/
def Forward (d : Definition) : Prop := ∀ b < d.blocks.size, ∀ c ∈ d.graph.succ b, b < c

instance : DecidablePred Forward := fun d => by unfold Forward; infer_instance

theorem Forward.acyclic (h : d.Forward) : d.graph.Acyclic := by
  refine Graph.acyclic_of_lt fun b c hc => ?_
  by_cases hb : b < d.blocks.size
  · exact h b hb c hc
  · simp [graph, Array.getElem?_eq_none (Nat.le_of_not_lt hb)] at hc

end Definition

namespace Program

/-- No function of the program has a cycle of blocks that control can enter. -/
def Acyclic (p : Program) : Prop :=
  ∀ f d, p.function? f = some (.defined d) → d.graph.Acyclic

/-- The number of operations of the longest function of the program. -/
def longest (p : Program) : Nat :=
  Finset.univ.sup fun f : Fin p.functions.size =>
    (p.functions[f].function.definition?.map Definition.instructionCount).getD 0

theorem instructionCount_le_longest {p : Program} {f : FuncId} {c : Code}
    (hc : p.linked? f = some (.code c)) : c.definition.instructionCount ≤ p.longest := by
  obtain ⟨hlt, hc⟩ := Array.getElem?_eq_some_iff.mp hc
  refine Nat.le_trans (Nat.le_of_eq ?_) (Finset.le_sup (Finset.mem_univ ⟨f.index, hlt⟩))
  show _ = (p.functions[f.index].function.definition?.map Definition.instructionCount).getD 0
  rw [hc]
  rfl

theorem acyclic_of_forward {p : Program}
    (h : ∀ l ∈ p.functions.toList, ∀ d ∈ l.function.definition?, d.Forward) : p.Acyclic := by
  intro f d hd
  obtain ⟨l, hl, hd⟩ := Option.map_eq_some_iff.mp hd
  refine (h l (Array.mem_toList_iff.mpr (Array.mem_of_getElem? hl)) d ?_).acyclic
  rw [hd]
  rfl

end Program

namespace Machine

/-! ## 2. The operations that are left -/

namespace Activation

variable {a : Activation} {op : Operation} {k : Nat}

/-- Apart from the blocks on some walk to the cursor, and from the operations before the cursor in
its block, the function has that many operations. -/
def Remains (a : Activation) (k : Nat) : Prop :=
  ∃ before, a.code.definition.graph.Walk before a.block ∧
    a.code.definition.lengthOf before + a.pos + k = a.code.definition.instructionCount

/-- A fresh activation has executed nothing. -/
theorem remains_of_entered {c : Code} {m n : Memory} (h : Entered c a m n) :
    a.Remains c.definition.instructionCount := by
  refine ⟨[], h.block ▸ .start, ?_⟩
  rw [h.code, h.pos]
  exact Nat.zero_add _

theorem Remains.advance (h : a.Remains (k + 1)) : a.advance.Remains k := by
  obtain ⟨before, hw, hk⟩ := h
  refine ⟨before, hw, ?_⟩
  show a.code.definition.lengthOf before + (a.pos + 1) + k = a.code.definition.instructionCount
  omega

section Shaped

variable (hd : a.code.definition.Shaped)
include hd

/-- The operation at the cursor is one of them. -/
theorem Remains.pos (hacyclic : a.code.definition.graph.Acyclic) (h : a.Remains k)
    (hop : a.operation? = some op) : 0 < k := by
  obtain ⟨before, hw, hk⟩ := h
  obtain ⟨block, hblock, hop⟩ := operation?_eq_some.mp hop
  have hlt := (Array.getElem?_eq_some_iff.mp hop).1
  have hle := Definition.lengthOf_walk_le hd hacyclic hw
  rw [Definition.lengthOf_cons, Definition.blockLength_of_getElem? hblock] at hle
  omega

/-- A jump leaves the end of a block. -/
theorem Remains.jump (h : a.Remains (k + 1)) (hop : a.operation? = some op) {b : BlockId}
    (hb : b ∈ op.successors) : (a.jump b).Remains k := by
  obtain ⟨before, hw, hk⟩ := h
  have hat := operation?_eq_some.mp hop
  obtain ⟨hedge, hlt⟩ := hd.edge_of_successor hat hb
  refine ⟨a.block :: before, hw.step hedge hlt, ?_⟩
  have hterm : op.isTerminator = true := by
    cases op <;> first | rfl | cases hb
  obtain ⟨block, hblock, hop⟩ := hat
  have hend := hd.inner hblock hop hterm
  show a.code.definition.lengthOf (a.block :: before) + 0 + k = a.code.definition.instructionCount
  rw [Definition.lengthOf_cons, Definition.blockLength_of_getElem? hblock]
  omega

end Shaped

end Activation

/-- What executing one operation can come to, with functions of at most `n` operations: itself,
and, as long as that many further activations are allowed, all operations of a callee. -/
def cost (n : Nat) : Nat → Nat
  | 0 => 1
  | k + 1 => 1 + n * cost n k

theorem cost_pos {n k : Nat} : 0 < cost n k := by
  cases k with
  | zero => exact Nat.one_pos
  | succ k => exact Nat.lt_of_lt_of_le Nat.one_pos (Nat.le_add_right 1 _)

theorem mul_cost (n k : Nat) : n * cost n k = ∑ j ∈ Finset.range (k + 1), n ^ (j + 1) := by
  induction k with
  | zero => simp [cost]
  | succ k ih =>
    rw [cost, ih, Nat.mul_add, Finset.mul_sum, Finset.sum_range_succ' _ (k + 1), Nat.add_comm]
    simp [pow_succ, Nat.mul_comm]

/-- What the waiting activations can still come to, with at most `limit` live ones. -/
inductive Waiting (n limit : Nat) : Array Suspended → Nat → Prop
  | empty : Waiting n limit #[] 0
  | push {below : Array Suspended} {u : Suspended} {total k : Nat} (h : Waiting n limit below total)
      (hk : u.caller.Remains k) :
      Waiting n limit (below.push u) (total + k * cost n (limit - (below.size + 1)))

/-- What all live activations can still come to. -/
inductive CallStack.Affords (n limit : Nat) : CallStack → Nat → Prop
  | intro {c : CallStack} {total k : Nat} (h : Waiting n limit c.below total)
      (hk : c.top.Remains k) : Affords n limit c (total + k * cost n (limit - c.depth))

theorem Waiting.of_back? {n limit total : Nat} {below : Array Suspended} {u : Suspended}
    (h : Waiting n limit below total) (hback : below.back? = some u) :
    ∃ rest k, Waiting n limit below.pop rest ∧ u.caller.Remains k ∧
      total = rest + k * cost n (limit - below.size) := by
  cases h with
  | empty => simp at hback
  | @push below v rest k h hk =>
    rw [Array.back?_push] at hback
    cases hback
    refine ⟨rest, k, by rwa [Array.pop_push], hk, ?_⟩
    rw [Array.size_push]

section Descent

variable {p : Program} (hsound : p.Sound) (hacyclic : p.Acyclic) {s t : State} (hs : Stacked p s)
  {limit k : Nat}
include hsound hacyclic hs

theorem Stacked.top_shaped : s.calls.top.code.definition.Shaped ∧
    s.calls.top.code.definition.graph.Acyclic := by
  obtain ⟨f, hf⟩ := hs.linked _ _ s.calls.activation?_top
  exact ⟨Definition.shaped_of_flaw? (hsound.accepted f _ hf),
    hacyclic f _ (Program.function?_of_linked? hf)⟩

theorem affords_pos {n : Nat} (h : s.calls.Affords n limit k) {op : Operation}
    (hop : s.calls.top.operation? = some op) : 0 < k := by
  obtain ⟨hd, hg⟩ := hs.top_shaped hsound hacyclic
  cases h with
  | intro _ hk =>
    have hpos := Nat.mul_pos (hk.pos hd hg hop) (cost_pos (n := n) (k := limit - s.calls.depth))
    omega

/-- A step leaves less than there was before it. -/
theorem affords_of_next (h : Next p s t) (hdepth : t.calls.depth ≤ limit)
    (hk : s.calls.Affords p.longest limit k) :
    ∃ k' < k, t.calls.Affords p.longest limit k' := by
  obtain ⟨hd, hg⟩ := hs.top_shaped hsound hacyclic
  obtain ⟨hwaiting, hremains⟩ := hk
  rename_i total left
  -- Every step executes the operation at the cursor, which is one of those that are left.
  have hleft : ∀ {op}, s.calls.top.operation? = some op → ∃ rest, left = rest + 1 :=
    fun hop => Nat.exists_eq_add_one.mpr (hremains.pos hd hg hop)
  have hcost : 0 < cost p.longest (limit - s.calls.depth) := cost_pos
  cases h with
  | data hop _ =>
    obtain ⟨rest, rfl⟩ := hleft hop
    refine ⟨_, ?_, .intro hwaiting hremains.advance⟩
    dsimp only [CallStack.depth, CallStack.advance] at hcost ⊢
    rw [Nat.succ_mul]
    omega
  | jump hop hb =>
    obtain ⟨rest, rfl⟩ := hleft hop
    refine ⟨_, ?_, .intro hwaiting (hremains.jump hd hop hb)⟩
    dsimp only [CallStack.depth, CallStack.jump] at hcost ⊢
    rw [Nat.succ_mul]
    omega
  | @call m n calls stats stats' target callee args c a e hop hc _ _ hentered _ =>
    obtain ⟨rest, rfl⟩ := hleft hop
    have hcallee := Activation.remains_of_entered hentered
    refine ⟨_, ?_, .intro (.push hwaiting hremains.advance) hcallee⟩
    -- What the operation frees pays for the callee.
    have hlong := Nat.mul_le_mul_right (cost p.longest (limit - (calls.below.size + 1 + 1)))
      (Program.instructionCount_le_longest hc)
    dsimp only [CallStack.depth] at hdepth ⊢
    rw [Array.size_push] at hdepth ⊢
    obtain ⟨l, rfl⟩ : ∃ l, limit = l + (calls.below.size + 1 + 1) :=
      ⟨limit - (calls.below.size + 1 + 1), by omega⟩
    rw [show l + (calls.below.size + 1 + 1) - (calls.below.size + 1) = l + 1 by omega, cost,
      Nat.succ_mul]
    rw [Nat.add_sub_cancel] at hlong ⊢
    omega
  | @ret m n calls stats stats' value src caller offset hop _ _ hback _ =>
    obtain ⟨rest, left', hwaiting', hremains', rfl⟩ := hwaiting.of_back? hback
    obtain ⟨rest', rfl⟩ := hleft hop
    refine ⟨_, ?_, .intro hwaiting' hremains'⟩
    have hsize := CallStack.size_pop_of_back? hback
    dsimp only [CallStack.depth] at hcost hsize ⊢
    rw [hsize, Nat.succ_mul]
    omega

end Descent

/-! ## 3. Counting operations -/

section Counts

variable {H σ : Type} {env : Env H} {s : State}

/-- The counts behind a step. -/
def Transition.stats : Transition H → Stats
  | .next s | .host _ _ _ s => s.stats
  | .returned _ stats | .halted _ stats => stats

theorem stats_andAdvance {calls : CallStack} {stats : Stats} (x : Exec Memory) :
    (andAdvance (H := H) calls stats x).stats = stats := by
  cases x <;> rfl

theorem stats_execReturn {m : Memory} {calls : CallStack} {stats : Stats} {value : Reg} :
    (execReturn (H := H) m calls stats value).stats = stats := by
  unfold execReturn
  cases returned calls.top m value with
  | error e => rfl
  | ok src =>
    dsimp only
    split
    · split <;> rfl
    · split <;> rfl

theorem instructions_execCall {m : Memory} {calls : CallStack} {stats : Stats} {target : Reg}
    {callee : FuncId} {args : List Reg} :
    (execCall env m calls stats target callee args).stats.instructions = stats.instructions := by
  unfold execCall
  split
  · split
    · rfl
    · split
      · rfl
      · split <;> rfl
  · split <;> rfl

/-- A step counts the operation that it executes. -/
theorem instructions_step : (step env s).stats.instructions =
    s.stats.instructions + if s.calls.top.operation?.isSome then 1 else 0 := by
  obtain ⟨m, calls, stats⟩ := s
  cases hop : calls.top.operation? with
  | none =>
    simp only [step, hop]
    rfl
  | some op =>
    rw [step_of_operation? hop]
    cases op with
    | call target callee args => exact instructions_execCall
    | branch b => rfl
    | condBranch test b c =>
      simp only [execute]
      split <;> rfl
    | ret value => exact congrArg Stats.instructions stats_execReturn
    | _ => exact congrArg Stats.instructions (stats_andAdvance _)

variable {perform : Nat → H → List Int32 → σ → Option (Answer × σ)} {a b : State × σ}
  {r : Ending × Stats × σ}

theorem Passes.stats (h : Passes env perform a b) : b.1.stats = (step env a.1).stats := by
  cases h with
  | next h =>
    rw [h]
    rfl
  | host h _ ht =>
    rw [h]
    exact (State.answer_keeps ht).2

theorem Stops.stats (h : Stops env perform a r) : r.2.1 = (step env a.1).stats := by
  cases h with
  | returned h | halted h =>
    rw [h]
    rfl
  | panic h _ | unanswered h _ _ =>
    rw [h]
    rfl

end Counts

/-! ## 4. Runs -/

section Runs

variable {H σ : Type} {env : Env H} {perform : Nat → H → List Int32 → σ → Option (Answer × σ)}
  {a : State × σ} {n : Nat}

/-- Where host functions return, nothing holds a run up. -/
theorem passes_or_stops (hreturns : env.Returns perform) (a : State × σ) :
    (∃ b, Passes env perform a b) ∨ ∃ r, Stops env perform a r := by
  obtain ⟨s, w⟩ := a
  cases hstep : step env s with
  | next t => exact Or.inl ⟨_, .next hstep⟩
  | returned bytes stats => exact Or.inr ⟨_, .returned hstep⟩
  | halted e stats => exact Or.inr ⟨_, .halted hstep⟩
  | host body args target u =>
    obtain ⟨symbol, hsymbol⟩ := bound_of_step_host hstep
    obtain ⟨n, v, w', hv⟩ := hreturns symbol body args w hsymbol
    cases ht : u.answer target v with
    | error e => exact Or.inr ⟨_, .unanswered hstep hv ht⟩
    | ok t => exact Or.inl ⟨_, .host hstep hv ht⟩

/-- A run ends before its operations cost more than the live activations can come to. -/
theorem exists_runsTo (hsound : env.program.Sound) (hacyclic : env.program.Acyclic)
    {limit : Nat} (hlimit : env.maxCallDepth = some limit) (hgrows : Grows perform)
    (hreturns : env.Returns perform) (hs : Stacked env.program a.1)
    (hdepth : a.1.calls.depth ≤ max limit 1)
    (hk : a.1.calls.Affords env.program.longest (max limit 1) n) :
    ∃ r, RunsTo env perform a r ∧ r.2.1.instructions ≤ a.1.stats.instructions + n := by
  -- The number goes down with every step.
  induction n using Nat.strongRecOn generalizing a with
  | ind n ih =>
    have hcount : (step env a.1).stats.instructions = _ := instructions_step
    rcases passes_or_stops hreturns a with ⟨b, hpasses⟩ | ⟨r, hstops⟩
    · obtain ⟨hnext, hs'⟩ := hs.advances hsound.laid hpasses.advances
      have hdepth' := hpasses.depth_le hlimit hdepth
      obtain ⟨k, hlt, hk'⟩ := affords_of_next hsound hacyclic hs hnext hdepth' hk
      obtain ⟨r, hruns, hle⟩ := ih k hlt hs' hdepth' hk'
      refine ⟨r, (runsTo_iff_of_passes hgrows hpasses).mpr hruns, ?_⟩
      rw [hpasses.stats, hcount] at hle
      split at hle <;> omega
    · refine ⟨r, hstops.runsTo hgrows, ?_⟩
      rw [hstops.stats, hcount]
      split
      · rename_i hop
        obtain ⟨op, hop⟩ := Option.isSome_iff_exists.mp hop
        have hpos := affords_pos hsound hacyclic hs hk hop
        omega
      · omega

/-- The function of an invocation and its callees, down to the limit. -/
theorem affords_of_enter {p : Program} (hlaid : p.Laid) {f : FuncId} {args : List Bytes}
    {returnSize limit : Nat} {stats : Stats} {s : State}
    (h : enter p f args returnSize stats = .ok s) :
    ∃ n ≤ ∑ j ∈ Finset.range (max limit 1), p.longest ^ (j + 1),
      s.calls.Affords p.longest (max limit 1) n := by
  obtain ⟨c, a, hc, -, -, hcalls, hentered, -⟩ := entered_of_enter hlaid h
  rw [hcalls]
  refine ⟨_, ?_, .intro .empty (Activation.remains_of_entered hentered)⟩
  have hlong := Nat.mul_le_mul_right (cost p.longest (max limit 1 - 1))
    (Program.instructionCount_le_longest hc)
  rw [mul_cost, Nat.sub_add_cancel (Nat.le_max_right limit 1)] at hlong
  rw [Nat.zero_add]
  exact hlong

end Runs

end Machine

/-! ## 5. Invocations -/

open Machine

/-- Every host function of the table returns, whatever its arguments are and whatever fault its
native calls may find. -/
def HostTable.Returns (t : HostTable) : Prop :=
  ∀ symbol body args slot, t.get? symbol = some body →
    ∃ n v slot', HostFunction.within n body args slot = some (.value v, slot')

namespace Interpreter

theorem visits_iff {i : Interpreter} {f : FuncId} {args : List Bytes} {buffer : Bytes}
    {slot : Option Fault} {s : State} {a : State × Option Fault}
    (henter : enter i.program f args buffer.size i.counting = .ok s) :
    i.Visits f args buffer slot a ↔ PassesTo i.env HostFunction.within (s, slot) a := by
  constructor
  · rintro ⟨s', henter', ha⟩
    rw [henter] at henter'
    cases henter'
    exact ha
  · exact fun ha => ⟨s, henter, ha⟩

/-- In a program without cycles of blocks, recursion or not, every invocation under a limit on the
live activations ends, if its host functions return.  The longest function and the limit bound the
number of operations.  It returns or faults exactly if no value on its way runs over the end of the
stack or of the return buffer, as no value does in a program of one registry. -/
theorem invocation_ends {m : Module} (hbuilt : m.Built) {i : Interpreter}
    (hm : m.finalize = .ok i.program) (hacyclic : i.program.Acyclic) {limit : Nat}
    (hlimit : i.config.maxCallDepth = some limit) (hhosts : i.hosts.Returns) (f : FuncId)
    (args : List Bytes) (buffer : Bytes) (slot : Option Fault) :
    ∃ fuel o j slot',
      (∀ fuel', fuel ≤ fuel' → i.invoke fuel' f args buffer slot = some (o, j, slot')) ∧
      j.stats.instructions ≤ i.stats.instructions +
        ∑ k ∈ Finset.range (max limit 1), i.program.longest ^ (k + 1) ∧
      (o.Regular ↔ ∀ a, i.Visits f args buffer slot a → ¬ a.1.Bursts) ∧
      (i.program.OneRegistry → o.Regular) := by
  have hsound : i.env.program.Sound := hbuilt.sound.finalize hm
  cases henter : enter i.program f args buffer.size i.counting with
  | error e =>
    obtain ⟨fault, rfl⟩ := faultsOnly_enter hsound.laid e henter
    have hregular : (Outcome.ofEnding buffer (.ofHalt (.fault fault))).Regular :=
      Or.inr ⟨fault, rfl⟩
    have hnone : ∀ a, ¬ i.Visits f args buffer slot a := by
      rintro a ⟨s, hs, -⟩
      rw [henter] at hs
      cases hs
    refine ⟨0, _, _, _, fun fuel _ => invoke_of_refused henter fuel, Nat.le_add_right _ _, ?_,
      fun _ => hregular⟩
    exact ⟨fun _ a ha => absurd ha (hnone a), fun _ => hregular⟩
  | ok s =>
    have hreturns : i.env.Returns HostFunction.within := hhosts
    have hs := Stacked.of_enter hsound.laid henter
    obtain ⟨hdepth, hstats⟩ := depth_of_enter henter
    have hstart : s.stats.instructions = i.stats.instructions := by
      rw [hstats]
      rfl
    obtain ⟨n, hn, haffords⟩ : ∃ n ≤ ∑ k ∈ Finset.range (max limit 1), i.program.longest ^ (k + 1),
        s.calls.Affords i.program.longest (max limit 1) n := affords_of_enter hsound.laid henter
    have hwithin : s.calls.depth ≤ max limit 1 := hdepth ▸ Nat.le_max_right limit 1
    obtain ⟨⟨ending, stats, slot'⟩, hruns, hcount⟩ := exists_runsTo (a := (s, slot)) hsound hacyclic
      hlimit HostFunction.grows_within hreturns hs hwithin haffords
    obtain ⟨fuel, hinvoke⟩ := exists_invoke_of_visits ⟨s, henter, .refl⟩ hruns
    have hregular := regular_iff_not_bursts hsound HostFunction.grows_within hreturns henter hruns
    refine ⟨fuel, _, _, _, fun fuel' hle => invoke_mono hle hinvoke, ?_, ?_, ?_⟩
    · dsimp only at hcount ⊢
      omega
    · simp only [visits_iff henter]
      exact hregular
    · intro hone
      refine hregular.mpr fun a ha => ?_
      exact not_bursts_of_oneRegistry hsound (hs.reaches hsound.laid ha.reaches) hone

/-- A function that asks the host and then calls itself, without an end. -/
def recurring : Module :=
  (Draft.empty.run
    [.declareExternal ⟨"h", [.int], .int⟩ "h", .declare ⟨"main", [.int], .int⟩, .select ⟨1⟩,
      .body .openBlock, .body (.readArg 0), .body (.call ⟨0⟩ [⟨0⟩]), .body (.call ⟨1⟩ [⟨1⟩]),
      .body (.ret ⟨2⟩)]).2.module

def recurringInterpreter : Interpreter :=
  .fresh ⟨#[.external ⟨⟨"h", [.int], .int⟩, "h"⟩ ⟨#[⟨0, 4⟩], 4, 4⟩,
      .code ⟨⟨⟨"main", [.int], .int⟩,
        #[#[.readArg ⟨0⟩ 0, .call ⟨1⟩ ⟨0⟩ [⟨0⟩], .call ⟨2⟩ ⟨1⟩ [⟨1⟩], .ret ⟨2⟩]],
        #[.int, .int, .int], #[]⟩, ⟨⟨#[⟨0, 4⟩, ⟨4, 4⟩, ⟨8, 4⟩], 12, 4⟩, 3⟩, ⟨#[⟨0, 4⟩], 4, 4⟩⟩]⟩
    ⟨some 3, 0⟩ (.bind "h" (fun args => .value (args.headD 0 + 1)) .empty)

theorem finalize_recurring : recurring.finalize = .ok recurringInterpreter.program :=
  Module.finalize_eq_ok_iff.mpr ⟨by decide +kernel, by cbv, by decide +kernel⟩

theorem returns_recurring : recurringInterpreter.hosts.Returns := by
  intro symbol body args slot hbody
  unfold recurringInterpreter Interpreter.fresh HostTable.get? at hbody
  split at hbody
  · cases hbody
    exact ⟨0, _, slot, rfl⟩
  · cases hbody

/-- With three live activations allowed, the recursion ends within 84 operations. -/
theorem invocation_ends_recurring : ∃ fuel o j slot,
    recurringInterpreter.invoke fuel ⟨1⟩ [Bytes.ofInt 5] (Bytes.ofInt 0) none = some (o, j, slot) ∧
      j.stats.instructions ≤ 84 ∧ o.Regular := by
  have hone : recurringInterpreter.program.OneRegistry :=
    Program.oneRegistry_of_types (r := .empty) (fun i t h => by cases h) (by decide)
  obtain ⟨fuel, o, j, slot, hinvoke, hcount, -, hregular⟩ := invocation_ends ⟨_, rfl⟩
    finalize_recurring (Program.acyclic_of_forward (by decide)) rfl returns_recurring ⟨1⟩
    [Bytes.ofInt 5] (Bytes.ofInt 0) none
  exact ⟨fuel, o, j, slot, hinvoke fuel (Nat.le_refl fuel), hcount, hregular hone⟩

/-- The function returns eight bytes of the one registry to a caller that has room for four of the
other, and the invocation ends without a result and without a fault. -/
theorem breaks_off_mixing :
    mixing.Built ∧ mixing.finalize = .ok mixingEnv.program ∧ mixingEnv.program.Acyclic ∧
      HostTable.empty.Returns ∧
      ∃ o j slot, (fresh mixingEnv.program ⟨some 4, 0⟩ .empty).invoke 4 ⟨0⟩ [] (Bytes.ofInt 0)
        none = some (o, j, slot) ∧ o.failure = some (.panic (.ofViolation (.lengths 8 4))) ∧
          ¬ o.Regular := by
  refine ⟨⟨_, rfl⟩, finalize_mixing, Program.acyclic_of_forward (by decide), ?_, ?_⟩
  · intro symbol body args slot hbody
    cases hbody
  · have hrun : ((fresh mixingEnv.program ⟨some 4, 0⟩ .empty).invoke 4 ⟨0⟩ [] (Bytes.ofInt 0)
        none).map (fun result => result.1.failure) =
          some (some (.panic (.ofViolation (.lengths 8 4)))) := by decide +kernel
    obtain ⟨⟨o, j, slot⟩, hinvoke, hfailure⟩ := Option.map_eq_some_iff.mp hrun
    have hpanic : o.failure = some (.panic (.ofViolation (.lengths 8 4))) := hfailure
    refine ⟨o, j, slot, hinvoke, hpanic, ?_⟩
    unfold Outcome.Regular
    rw [hpanic]
    simp

end Interpreter

end RegIR
