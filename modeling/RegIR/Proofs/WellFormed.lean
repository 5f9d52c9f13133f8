import RegIR.Proofs.ControlFlow
import RegIR.Proofs.Declarations
/-!
# Well-formed definitions

A definition is well-formed when its blocks have the right shape and every path of operations from
the start of block 0 defines a register before it uses it.  The checks accept the well-formed
definitions and, where no register is defined twice, no others; what they report is really wrong.
-/

namespace RegIR

namespace Definition

/-! ## 1. Paths -/

/-- The paths from the start of block 0: the operations passed so far, latest first, and the
block and position reached. -/
inductive Path (d : Definition) : List Operation → Nat → Nat → Prop
  | start : Path d [] 0 0
  | next {done : List Operation} {block pos : Nat} {op : Operation} (h : Path d done block pos)
      (hop : d.OpAt block pos op) (hterm : op.isTerminator = false) :
      Path d (op :: done) block (pos + 1)
  | jump {done : List Operation} {block pos : Nat} {op : Operation} {t : BlockId}
      (h : Path d done block pos) (hop : d.OpAt block pos op) (ht : t ∈ op.successors) :
      Path d (op :: done) t.index 0

/-- The blocks have the right shape, and on every path to an operation stands, for each register
that it uses, an operation that defines it. -/
structure WellFormed (d : Definition) : Prop where
  shape : d.Shaped
  defined : ∀ {done : List Operation} {block pos : Nat} {op : Operation}, d.Path done block pos →
    d.OpAt block pos op → ∀ r ∈ op.uses, ∃ op' ∈ done, op'.target? = some r

variable {d : Definition}

/-- The blocks that a path has left form a walk, on which everything defined has been passed. -/
theorem covers_of_path (hd : d.Shaped) {done : List Operation} {block pos : Nat}
    (h : d.Path done block pos) :
    d.Covers (fun r => ∃ op ∈ done, op.target? = some r) block pos := by
  have hcons : ∀ {done : List Operation} (op : Operation) (r : Reg),
      (∃ op' ∈ done, op'.target? = some r) → ∃ op' ∈ op :: done, op'.target? = some r :=
    fun op r ⟨op', hmem, hr⟩ => ⟨op', List.mem_cons_of_mem op hmem, hr⟩
  induction h with
  | start => exact .start
  | @next done block pos op h hop hterm ih =>
    exact (ih.mono (hcons op)).advance hop fun r hr => ⟨op, List.mem_cons_self, hr⟩
  | @jump done block pos op t h hop ht ih => exact (ih.mono (hcons op)).jump hd hop ht

theorem wellFormed_of_flaw? (h : d.flaw? = none) : d.WellFormed :=
  ⟨shaped_of_flaw? h, fun hpath hop _ hr =>
    (covers_of_path (shaped_of_flaw? h) hpath).written_of_uses h hop hr⟩

/-- Inside a block a path goes on to any operation. -/
theorem Path.within (hd : d.Shaped) {done : List Operation} {block : Nat}
    (h : d.Path done block 0) {pos : Nat} {op : Operation} (hop : d.OpAt block pos op) :
    ∃ done', d.Path done' block pos ∧
      ∀ op' ∈ done', op' ∈ done ∨ ∃ i < pos, d.OpAt block i op' := by
  induction pos generalizing op with
  | zero => exact ⟨done, h, fun op' hop' => Or.inl hop'⟩
  | succ pos ih =>
    obtain ⟨b, hb, hpos⟩ := hop
    have hlt : pos < b.size := Nat.lt_of_succ_lt (Array.getElem?_eq_some_iff.mp hpos).1
    have hprev : b[pos]? = some b[pos] := Array.getElem?_eq_getElem hlt
    obtain ⟨done', hpath, hdone⟩ := ih ⟨b, hb, hprev⟩
    -- A terminator would be the last operation of the block.
    have hterm : b[pos].isTerminator = false := by
      rw [Bool.eq_false_iff]
      intro hterm
      have hlast := hd.inner hb hprev hterm
      have hsucc := (Array.getElem?_eq_some_iff.mp hpos).1
      omega
    refine ⟨_, hpath.next ⟨b, hb, hprev⟩ hterm, ?_⟩
    intro op' hop'
    rcases List.mem_cons.mp hop' with rfl | hop'
    · exact Or.inr ⟨pos, Nat.lt_succ_self pos, b, hb, hprev⟩
    · rcases hdone op' hop' with hold | ⟨i, hi, hat⟩
      · exact Or.inl hold
      · exact Or.inr ⟨i, Nat.lt_succ_of_lt hi, hat⟩

/-- An edge of the graph is a successor of the last operation of its block. -/
theorem exists_successor {block next : Nat} (h : next ∈ d.graph.succ block) :
    ∃ pos op t, d.OpAt block pos op ∧ t ∈ op.successors ∧ t.index = next := by
  unfold graph at h
  dsimp only at h
  split at h
  · cases h
  · rename_i b hb
    split at h
    · cases h
    · rename_i op hterm
      obtain ⟨t, ht, rfl⟩ := List.mem_map.mp h
      have hback := (Option.filter_eq_some_iff.mp hterm).1
      rw [Array.back?_eq_getElem?] at hback
      exact ⟨_, op, t, ⟨b, hb, hback⟩, ht, rfl⟩

/-- Along a walk leads a path through the blocks that the walk has left. -/
theorem exists_path_of_walk (hd : d.Shaped) {before : List Nat} {block : Nat}
    (hw : d.graph.Walk before block) :
    ∃ done, d.Path done block 0 ∧ ∀ op ∈ done, ∃ b ∈ before, ∃ i, d.OpAt b i op := by
  induction hw with
  | start => exact ⟨[], .start, fun op hop => nomatch hop⟩
  | @step before block next hw hedge hlt ih =>
    obtain ⟨done, hpath, hdone⟩ := ih
    obtain ⟨pos, op, t, hop, ht, rfl⟩ := exists_successor hedge
    obtain ⟨done', hpath', hdone'⟩ := hpath.within hd hop
    refine ⟨_, hpath'.jump hop ht, ?_⟩
    intro op' hop'
    rcases List.mem_cons.mp hop' with rfl | hop'
    · exact ⟨block, List.mem_cons_self, pos, hop⟩
    · rcases hdone' op' hop' with hold | ⟨i, -, hat⟩
      · obtain ⟨b, hb, hat⟩ := hdone op' hold
        exact ⟨b, List.mem_cons_of_mem _ hb, hat⟩
      · exact ⟨block, List.mem_cons_self, i, hat⟩

/-- A walk to the block of an operation extends to a path to the operation. -/
theorem exists_path (hd : d.Shaped) {before : List Nat} {block pos : Nat} {op : Operation}
    (hw : d.graph.Walk before block) (hop : d.OpAt block pos op) :
    ∃ done, d.Path done block pos ∧ ∀ op' ∈ done,
      (∃ b ∈ before, ∃ i, d.OpAt b i op') ∨ ∃ i < pos, d.OpAt block i op' := by
  obtain ⟨done, hpath, hdone⟩ := exists_path_of_walk hd hw
  obtain ⟨done', hpath', hdone'⟩ := hpath.within hd hop
  refine ⟨done', hpath', ?_⟩
  intro op' hop'
  exact (hdone' op' hop').imp_left (hdone op')

/-! ## 2. Definition sites -/

theorem size_record (sites : Array (Option (Nat × Nat))) (op : Operation) (site : Nat × Nat) :
    (record sites op site).size = sites.size := by
  unfold record
  split
  · rfl
  · exact Array.size_setIfInBounds

/-- A site may be replaced, but is never taken away. -/
theorem exists_site_record {sites : Array (Option (Nat × Nat))} {r : Nat}
    (h : ∃ site, sites[r]? = some (some site)) (op : Operation) (site : Nat × Nat) :
    ∃ site', (record sites op site)[r]? = some (some site') := by
  obtain ⟨old, hold⟩ := h
  unfold record
  split
  · exact ⟨old, hold⟩
  · rename_i t _
    have hlt := (Array.getElem?_eq_some_iff.mp hold).1
    by_cases ht : t.index = r
    · exact ⟨site, by rw [Array.getElem?_setIfInBounds, if_pos ht, if_pos (ht ▸ hlt)]⟩
    · exact ⟨old, by rw [Array.getElem?_setIfInBounds, if_neg ht]; exact hold⟩

/-- Every definition of a register leaves a site. -/
theorem exists_site {block pos : Nat} {op : Operation} {r : Reg} (hop : d.OpAt block pos op)
    (hr : op.target? = some r) (hlt : r.index < d.regTypes.size) :
    ∃ site, d.definitionSites[r.index]? = some (some site) := by
  obtain ⟨b, hb, hop⟩ := hop
  let Sized (sites : Array (Option (Nat × Nat))) : Prop := sites.size = d.regTypes.size
  let Known (sites : Array (Option (Nat × Nat))) : Prop :=
    ∃ site, sites[r.index]? = some (some site)
  have hmemOp : (op, pos) ∈ b.toList.zipIdx := by
    rw [List.mem_zipIdx_iff_getElem?, Array.getElem?_toList]
    exact hop
  have hsized : ∀ sites (b' : Block) i, Sized sites → Sized (b'.toList.zipIdx.foldl
      (fun sites y => record sites y.1 (i, y.2)) sites) :=
    fun sites b' i h => foldl_keeps h fun sites y _ h => (size_record sites y.1 _).trans h
  -- The fold over the blocks, and in the block of the operation the fold over its operations.
  rw [definitionSites_eq]
  refine foldl_reaches (P := Known) (Q := Sized) Array.size_replicate
    (fun sites x _ => hsized sites x.1 x.2) (mem_zipIdx_blocks hb) ?_ ?_
  · intro sites h
    refine foldl_reaches (P := Known) (Q := Sized) h
      (fun sites y _ h => (size_record sites y.1 _).trans h) hmemOp ?_
      fun sites y _ _ h => exists_site_record h y.1 _
    intro sites h
    refine ⟨(block, pos), ?_⟩
    simp only [record, hr]
    rw [Array.getElem?_setIfInBounds, if_pos rfl, if_pos (by rw [h]; exact hlt)]
  · intro sites x _ _ h
    exact foldl_keeps h fun sites y _ h => exists_site_record h y.1 _

/-! ## 3. Flaws -/

/-- The path reaches the operation without a definition of the register. -/
def UsesUndefined (d : Definition) (block : Nat) (r : Reg) : Prop :=
  ∃ done pos op, d.Path done block pos ∧ d.OpAt block pos op ∧ r ∈ op.uses ∧
    ∀ op' ∈ done, op'.target? ≠ some r

/-- The reported flaw is there, in the block and with the target or the register that it names. -/
def Exhibits (d : Definition) : ValidationError → Prop
  | .emptyFunction f => f = d.name ∧ d.blocks.size = 0
  | .missingTerminator f b => f = d.name ∧ ∃ block, d.blocks[b.index]? = some block ∧
      ∀ op, block.back? = some op → op.isTerminator = false
  | .terminatorNotLast f b => f = d.name ∧ ∃ block pos op, d.blocks[b.index]? = some block ∧
      block[pos]? = some op ∧ op.isTerminator = true ∧ pos + 1 < block.size
  | .branchTargetOutOfRange f b t => f = d.name ∧ ∃ block op, d.blocks[b.index]? = some block ∧
      block.back? = some op ∧ t ∈ op.successors ∧ d.blocks.size ≤ t.index
  | .frameTooLarge _ => False
  | .useNotDominated f b r => f = d.name ∧ d.UsesUndefined b.index r

/-- A definition that exhibits a flaw is not well-formed. -/
theorem not_wellFormed_of_exhibits {e : ValidationError} (h : d.Exhibits e) : ¬ d.WellFormed := by
  intro hd
  cases e with
  | emptyFunction f => exact absurd h.2 (Nat.ne_of_gt hd.shape.nonempty)
  | missingTerminator f b =>
    obtain ⟨-, block, hb, hlast⟩ := h
    obtain ⟨op, hback, hterm⟩ := hd.shape.last hb
    rw [hlast op hback] at hterm
    cases hterm
  | terminatorNotLast f b =>
    obtain ⟨-, block, pos, op, hb, hop, hterm, hlt⟩ := h
    exact absurd (hd.shape.inner hb hop hterm) (Nat.ne_of_lt hlt)
  | branchTargetOutOfRange f b t =>
    obtain ⟨-, block, op, hb, hback, ht, hle⟩ := h
    exact absurd (hd.shape.target hb hback ht) (Nat.not_lt.mpr hle)
  | frameTooLarge f => exact h
  | useNotDominated f b r =>
    obtain ⟨-, done, pos, op, hpath, hop, hr, hnone⟩ := h
    obtain ⟨op', hmem, htarget⟩ := hd.defined hpath hop r hr
    exact hnone op' hmem htarget

theorem exhibits_of_shapeFlaw? {b : Block} {id : BlockId} {e : ValidationError}
    (hb : d.blocks[id.index]? = some b) (h : d.shapeFlaw? b id = some e) : d.Exhibits e := by
  unfold shapeFlaw? at h
  split at h
  · rename_i hback
    cases h
    refine ⟨rfl, b, hb, fun op hop => ?_⟩
    rw [hback] at hop
    cases hop
  · rename_i last hback
    split at h
    · rename_i hterm
      cases h
      refine ⟨rfl, b, hb, fun op hop => ?_⟩
      rw [hback] at hop
      cases hop
      simpa using hterm
    · split at h
      · rename_i hinner
        cases h
        rw [Array.any_eq_true'] at hinner
        obtain ⟨op, hmem, hop⟩ := hinner
        obtain ⟨pos, hpos⟩ := Array.mem_iff_getElem?.mp hmem
        rw [Array.getElem?_pop] at hpos
        split at hpos
        · exact ⟨rfl, b, pos, op, hb, hpos, hop, by omega⟩
        · cases hpos
      · obtain ⟨t, ht, rfl⟩ := Option.map_eq_some_iff.mp h
        have hmem := List.mem_of_find?_eq_some ht
        have hlarge := List.find?_some ht
        exact ⟨rfl, b, last, hb, hback, hmem, by simpa using hlarge⟩

/-- A use without a definition before it, in terms of the recorded sites. -/
theorem exists_use_of_undefinedUse? {row : Array Bool} {sites : Array (Option (Nat × Nat))}
    {b : Block} {block : Nat} {r : Reg} (h : undefinedUse? row sites b block = some r) :
    ∃ pos op, b[pos]? = some op ∧ r ∈ op.uses ∧
      definedBefore row (sites[r.index]?.getD none) block pos = false := by
  obtain ⟨⟨op, pos⟩, hmem, hfind⟩ := List.exists_of_findSome?_eq_some h
  rw [List.mem_zipIdx_iff_getElem?, Array.getElem?_toList] at hmem
  exact ⟨pos, op, hmem, List.mem_of_find?_eq_some hfind, by simpa using List.find?_some hfind⟩

/-- Some walk to the block passes no place at which the register has a site. -/
theorem exists_walk_of_definedBefore (hpos : 0 < d.graph.size) {row : Array Bool} {block pos : Nat}
    {r : Reg} (hrow : d.graph.dominators[block]? = some (some row))
    (h : definedBefore row (d.definitionSites[r.index]?.getD none) block pos = false) :
    ∃ before, d.graph.Walk before block ∧ ∀ i j, d.definitionSites[r.index]? = some (some (i, j)) →
      i ∉ before ∧ (i = block → pos ≤ j) := by
  obtain ⟨before, hw⟩ := Graph.reaches_of_dominators hrow
  cases hsite : d.definitionSites[r.index]?.getD none with
  | none =>
    refine ⟨before, hw, fun i j hij => ?_⟩
    rw [hij] at hsite
    cases hsite
  | some site =>
    obtain ⟨i, j⟩ := site
    have hget : ∀ i' j', d.definitionSites[r.index]? = some (some (i', j')) → i' = i ∧ j' = j := by
      intro i' j' hij
      rw [hij] at hsite
      cases hsite
      exact ⟨rfl, rfl⟩
    rw [hsite] at h
    unfold definedBefore at h
    by_cases hi : i = block
    · -- The site is in the block itself, behind the use: the first visit of the block will do.
      obtain ⟨before', hw', hnew⟩ := hw.exists_first List.mem_cons_self
      refine ⟨before', hw', fun i' j' hij => ?_⟩
      obtain ⟨rfl, rfl⟩ := hget i' j' hij
      refine ⟨hi ▸ hnew, fun _ => ?_⟩
      simpa [hi] using h
    · have hsome : d.definitionSites[r.index]? = some (some (i, j)) := by
        cases hd : d.definitionSites[r.index]? with
        | none => rw [hd] at hsite; cases hsite
        | some s => rw [hd] at hsite; exact congrArg some hsite
      obtain ⟨op, ⟨b, hb, -⟩, -⟩ := opAt_of_definitionSites hsome
      have hlt : i < d.graph.size := (Array.getElem?_eq_some_iff.mp hb).1
      simp only [if_neg hi] at h
      obtain ⟨before', hw', hnot⟩ := Graph.walk_around_of_dominators hpos hrow hlt h
      refine ⟨before', hw', fun i' j' hij => ?_⟩
      obtain ⟨rfl, rfl⟩ := hget i' j' hij
      exact ⟨hnot, fun heq => absurd heq hi⟩

/-- Where no register is defined twice, the walk leads to a path without a definition. -/
theorem usesUndefined_of_undefinedUse? (hd : d.Shaped) (hsingle : d.SinglyDefined)
    {row : Array Bool} {b : Block} {block : Nat} {r : Reg} (hb : d.blocks[block]? = some b)
    (hrow : d.graph.dominators[block]? = some (some row))
    (h : undefinedUse? row d.definitionSites b block = some r) : d.UsesUndefined block r := by
  obtain ⟨pos, op, hop, hr, hbefore⟩ := exists_use_of_undefinedUse? h
  obtain ⟨before, hw, hclear⟩ := exists_walk_of_definedBefore hd.nonempty hrow hbefore
  obtain ⟨done, hpath, hdone⟩ := exists_path hd hw ⟨b, hb, hop⟩
  refine ⟨done, pos, op, hpath, ⟨b, hb, hop⟩, hr, ?_⟩
  intro op' hmem htarget
  -- A definition on the path would be the recorded one.
  have hsite : ∀ i j, d.OpAt i j op' → d.definitionSites[r.index]? = some (some (i, j)) := by
    intro i j hat
    obtain ⟨⟨i', j'⟩, hsome⟩ := exists_site hat htarget (hsingle.exists_reg hat htarget)
    obtain ⟨op'', hat'', htarget''⟩ := opAt_of_definitionSites hsome
    obtain ⟨rfl, rfl⟩ := hsingle.unique hat hat'' htarget htarget''
    exact hsome
  rcases hdone op' hmem with ⟨i, hi, j, hat⟩ | ⟨j, hj, hat⟩
  · exact (hclear i j (hsite i j hat)).1 hi
  · exact absurd ((hclear block j (hsite block j hat)).2 rfl) (Nat.not_le.mpr hj)

/-- What a rejection says: the flaw is there, or registers are defined twice and a reachable use of
one of them is reported. -/
theorem exhibits_or_of_flaw? {e : ValidationError} (h : d.flaw? = some e) :
    d.Exhibits e ∨ ¬ d.SinglyDefined ∧ ∃ b r done pos op, e = .useNotDominated d.name b r ∧
      d.Path done b.index pos ∧ d.OpAt b.index pos op ∧ r ∈ op.uses := by
  unfold flaw? at h
  split at h
  · rename_i hempty
    cases h
    exact Or.inl ⟨rfl, by simpa using hempty⟩
  · rename_i hempty
    split at h
    · rename_i e' hshape
      cases h
      obtain ⟨⟨b, i⟩, hmem, hflaw⟩ := List.exists_of_findSome?_eq_some hshape
      rw [List.mem_zipIdx_iff_getElem?, Array.getElem?_toList] at hmem
      exact Or.inl (exhibits_of_shapeFlaw? hmem hflaw)
    · rename_i hshape
      have hd : d.Shaped := shaped_of_shapeFlaw? (by simpa using hempty) hshape
      obtain ⟨⟨b, i⟩, hmem, hflaw⟩ := List.exists_of_findSome?_eq_some h
      rw [List.mem_zipIdx_iff_getElem?, Array.getElem?_toList] at hmem
      dsimp only at hflaw
      split at hflaw
      · cases hflaw
      · rename_i row hrow
        obtain ⟨r, hr, rfl⟩ := Option.map_eq_some_iff.mp hflaw
        have hrow : d.graph.dominators[i]? = some (some row) := by
          cases hget : d.graph.dominators[i]? with
          | none => rw [hget] at hrow; cases hrow
          | some o => rw [hget] at hrow; exact congrArg some hrow
        by_cases hsingle : d.SinglyDefined
        · exact Or.inl ⟨rfl, usesUndefined_of_undefinedUse? hd hsingle hmem hrow hr⟩
        · obtain ⟨pos, op, hop, huse, -⟩ := exists_use_of_undefinedUse? hr
          obtain ⟨before, hw⟩ := Graph.reaches_of_dominators hrow
          obtain ⟨done, hpath, -⟩ := exists_path hd hw ⟨b, hmem, hop⟩
          exact Or.inr ⟨hsingle, ⟨i⟩, r, done, pos, op, rfl, hpath, ⟨b, hmem, hop⟩, huse⟩

end Definition

/-! ## 4. Validation -/

/-- An accepted definition is well-formed.  A rejection names a flaw that is there; only where
registers are defined more than once may a reachable use be reported although its paths define the
register.  Constructed definitions define each register once, and of these the well-formed ones
are accepted. -/
theorem Definition.validate_exact (d : Definition) :
    (d.validate = .ok () → d.WellFormed) ∧
    (d.SinglyDefined → d.WellFormed → d.validate = .ok ()) ∧
    (∀ e, d.validate = .error e → d.Exhibits e ∨ ¬ d.SinglyDefined ∧
      ∃ b r done pos op, e = .useNotDominated d.name b r ∧ d.Path done b.index pos ∧
        d.OpAt b.index pos op ∧ r ∈ op.uses) ∧
    ∀ (m : Module) (f : FuncId), m.Built → m.function? f = some (.defined d) →
      d.SinglyDefined := by
  have herror : ∀ e, d.validate = .error e ↔ d.flaw? = some e := by
    intro e
    unfold validate
    split <;> rename_i hflaw <;> simp [hflaw]
  have hok : d.validate = .ok () ↔ d.flaw? = none := by
    unfold validate
    split <;> rename_i hflaw <;> simp [hflaw]
  refine ⟨?_, ?_, ?_, ?_⟩
  · intro h
    exact wellFormed_of_flaw? (hok.mp h)
  · intro hsingle hwell
    rw [hok]
    cases hflaw : d.flaw? with
    | none => rfl
    | some e =>
      rcases exhibits_or_of_flaw? hflaw with hexhibits | ⟨hnot, -⟩
      · exact absurd hwell (not_wellFormed_of_exhibits hexhibits)
      · exact absurd hsingle hnot
  · intro e h
    exact exhibits_or_of_flaw? ((herror e).mp h)
  · intro m f hm hf
    exact (hm.singleAssignment hf).singlyDefined

/-- A loop whose test is defined before it. -/
def Definition.looping : Definition :=
  ⟨⟨"loop", [.int], .int⟩,
    #[#[.readArg ⟨0⟩ 0, .branch ⟨1⟩], #[.condBranch ⟨0⟩ ⟨1⟩ ⟨2⟩], #[.ret ⟨0⟩]], #[.int], #[]⟩

/-- A register that is defined in one branch and used in the other. -/
def Definition.onOtherBranch : Definition :=
  ⟨⟨"t", [.int], .int⟩,
    #[#[.readArg ⟨0⟩ 0, .condBranch ⟨0⟩ ⟨1⟩ ⟨2⟩], #[.literal ⟨1⟩ 5, .ret ⟨1⟩], #[.ret ⟨1⟩]],
    #[.int, .int], #[]⟩

/-- A script for the second of these functions. -/
def Draft.otherBranch : List Draft.Step :=
  [.declare ⟨"t", [.int], .int⟩, .select ⟨0⟩, .body .openBlock, .body (.readArg 0),
    .body (.condBranch ⟨0⟩ ⟨1⟩ ⟨2⟩), .body .openBlock, .body (.literal 5), .body (.ret ⟨1⟩),
    .body .openBlock, .body (.ret ⟨1⟩)]

/-- The loop is accepted and well-formed.  The other function is rejected for the use in its last
block, which a path reaches without a definition. -/
theorem Definition.validate_exact_onOtherBranch :
    looping.validate = .ok () ∧ looping.WellFormed ∧ onOtherBranch.SinglyDefined ∧
      onOtherBranch.validate = .error (.useNotDominated "t" ⟨2⟩ ⟨1⟩) ∧
      onOtherBranch.UsesUndefined 2 ⟨1⟩ := by
  have hok : looping.validate = .ok () := by cbv
  have herror : onOtherBranch.validate = .error (.useNotDominated "t" ⟨2⟩ ⟨1⟩) := by cbv
  have hbuilt : (Draft.empty.run Draft.otherBranch).2.module.function? ⟨0⟩ =
      some (.defined onOtherBranch) := by decide +kernel
  obtain ⟨-, -, hexhibits, hsingle⟩ := onOtherBranch.validate_exact
  have hsingle := hsingle _ ⟨0⟩ ⟨_, rfl⟩ hbuilt
  refine ⟨hok, looping.validate_exact.1 hok, hsingle, herror, ?_⟩
  rcases hexhibits _ herror with h | ⟨hnot, -⟩
  · exact h.2
  · exact absurd hsingle hnot

end RegIR
