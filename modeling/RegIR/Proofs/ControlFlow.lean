import RegIR.Proofs.Typing
import RegIR.Proofs.Walks
/-!
# Accepted control flow

An accepted definition never runs off a block, and on every walk to a use of a register stands an
operation that defines it.  The second fact is put to work as an invariant of execution: when the
blocks of some walk to the cursor are done, every register that the operation at the cursor uses
has been written.
-/

namespace RegIR

namespace Definition

/-! ## 1. Shape -/

/-- Every block ends in its only terminator, and branches lead to blocks. -/
structure Shaped (d : Definition) : Prop where
  nonempty : 0 < d.blocks.size
  last : ∀ {i : Nat} {b : Block}, d.blocks[i]? = some b →
    ∃ op, b.back? = some op ∧ op.isTerminator = true
  inner : ∀ {i pos : Nat} {b : Block} {op : Operation}, d.blocks[i]? = some b →
    b[pos]? = some op → op.isTerminator = true → pos + 1 = b.size
  target : ∀ {i : Nat} {b : Block} {op : Operation} {t : BlockId}, d.blocks[i]? = some b →
    b.back? = some op → t ∈ op.successors → t.index < d.blocks.size

theorem shapeFlaw?_eq_none {d : Definition} {b : Block} {id : BlockId}
    (h : d.shapeFlaw? b id = none) :
    ∃ op, b.back? = some op ∧ op.isTerminator = true ∧
      (∀ pos op', b[pos]? = some op' → op'.isTerminator = true → pos + 1 = b.size) ∧
      ∀ t ∈ op.successors, t.index < d.blocks.size := by
  unfold shapeFlaw? at h
  split at h
  · cases h
  · rename_i last hlast
    split at h
    · cases h
    · rename_i hterm
      split at h
      · cases h
      · rename_i hinner
        refine ⟨last, hlast, by simpa using hterm, ?_, ?_⟩
        · intro pos op' hop hop'
          have hlt := (Array.getElem?_eq_some_iff.mp hop).1
          by_cases hpos : pos + 1 = b.size
          · exact hpos
          · -- Before the last position the block has no terminator.
            exfalso
            refine hinner ?_
            rw [Array.any_eq_true']
            refine ⟨op', ?_, hop'⟩
            rw [Array.mem_iff_getElem?]
            refine ⟨pos, ?_⟩
            rw [Array.getElem?_pop, if_pos (by omega)]
            exact hop
        · intro t ht
          rw [Option.map_eq_none_iff, List.find?_eq_none] at h
          simpa using h t ht

theorem mem_zipIdx_blocks {d : Definition} {i : Nat} {b : Block} (hb : d.blocks[i]? = some b) :
    (b, i) ∈ d.blocks.toList.zipIdx := by
  rw [List.mem_zipIdx_iff_getElem?, Array.getElem?_toList]
  exact hb

theorem shaped_of_shapeFlaw? {d : Definition} (hne : d.blocks.size ≠ 0)
    (h : d.blocks.toList.zipIdx.findSome? (fun (block, b) => d.shapeFlaw? block ⟨b⟩) = none) :
    d.Shaped := by
  rw [List.findSome?_eq_none_iff] at h
  have hblock : ∀ {i : Nat} {b : Block}, d.blocks[i]? = some b → d.shapeFlaw? b ⟨i⟩ = none :=
    fun hb => h _ (mem_zipIdx_blocks hb)
  refine ⟨by omega, ?_, ?_, ?_⟩
  · intro i b hb
    obtain ⟨op, hback, hterm, -⟩ := shapeFlaw?_eq_none (hblock hb)
    exact ⟨op, hback, hterm⟩
  · intro i pos b op hb hop hterm
    obtain ⟨-, -, -, hinner, -⟩ := shapeFlaw?_eq_none (hblock hb)
    exact hinner pos op hop hterm
  · intro i b op t hb hback ht
    obtain ⟨op', hback', -, -, htarget⟩ := shapeFlaw?_eq_none (hblock hb)
    rw [hback] at hback'
    cases hback'
    exact htarget t ht

theorem shaped_of_flaw? {d : Definition} (h : d.flaw? = none) : d.Shaped := by
  unfold flaw? at h
  split at h
  · cases h
  · rename_i hempty
    split at h
    · cases h
    · rename_i hshape
      exact shaped_of_shapeFlaw? (by simpa using hempty) hshape

namespace Shaped

variable {d : Definition} (hd : d.Shaped)
include hd

/-- Every block has a first operation. -/
theorem exists_first {i : Nat} (hi : i < d.blocks.size) : ∃ op, d.OpAt i 0 op := by
  have hb : d.blocks[i]? = some d.blocks[i] := Array.getElem?_eq_getElem hi
  obtain ⟨op, hback, -⟩ := hd.last hb
  have hpos : 0 < d.blocks[i].size := by
    rw [Array.back?_eq_getElem?] at hback
    have := (Array.getElem?_eq_some_iff.mp hback).1
    omega
  exact ⟨_, _, hb, Array.getElem?_eq_getElem hpos⟩

/-- Behind an operation that does not end its block stands another one. -/
theorem exists_next {i pos : Nat} {op : Operation} (hop : d.OpAt i pos op)
    (hterm : op.isTerminator = false) : ∃ op', d.OpAt i (pos + 1) op' := by
  obtain ⟨b, hb, hop⟩ := hop
  obtain ⟨last, hback, hlast⟩ := hd.last hb
  rw [Array.back?_eq_getElem?] at hback
  have hlt := (Array.getElem?_eq_some_iff.mp hop).1
  -- At the end of its block the operation would be the terminator.
  have hne : pos + 1 ≠ b.size := by
    intro heq
    rw [← heq, Nat.add_sub_cancel, hop] at hback
    cases hback
    rw [hterm] at hlast
    cases hlast
  have hnext : pos + 1 < b.size := by omega
  exact ⟨_, b, hb, Array.getElem?_eq_getElem hnext⟩

/-- A terminator stands at the end of its block. -/
theorem back?_of_terminator {i pos : Nat} {b : Block} {op : Operation} (hb : d.blocks[i]? = some b)
    (hop : b[pos]? = some op) (hterm : op.isTerminator = true) : b.back? = some op := by
  have hpos := hd.inner hb hop hterm
  rw [Array.back?_eq_getElem?, ← hpos, Nat.add_sub_cancel]
  exact hop

/-- The successors of the operation at the cursor are edges of the graph. -/
theorem edge_of_successor {i pos : Nat} {op : Operation} {t : BlockId} (hop : d.OpAt i pos op)
    (ht : t ∈ op.successors) : t.index ∈ d.graph.succ i ∧ t.index < d.graph.size := by
  obtain ⟨b, hb, hop⟩ := hop
  have hterm : op.isTerminator = true := by
    cases op <;> first | rfl | cases ht
  have hback := hd.back?_of_terminator hb hop hterm
  refine ⟨?_, hd.target hb hback ht⟩
  have hblock : b.terminator? = some op := by
    rw [Block.terminator?, hback, Option.filter_some, if_pos hterm]
  simp only [graph, hb, hblock]
  exact List.mem_map_of_mem ht

end Shaped

/-! ## 2. Definitions and uses -/

/-- A fold keeps what each of its steps keeps. -/
theorem foldl_keeps {α β : Type} {P : β → Prop} {f : β → α → β} {xs : List α} {init : β}
    (hinit : P init) (hstep : ∀ acc, ∀ x ∈ xs, P acc → P (f acc x)) : P (xs.foldl f init) := by
  induction xs generalizing init with
  | nil => exact hinit
  | cons x xs ih =>
    refine ih (hstep init x List.mem_cons_self hinit) ?_
    intro acc y hy
    exact hstep acc y (List.mem_cons_of_mem x hy)

/-- A fold reaches what one of its steps makes and the later ones keep. -/
theorem foldl_reaches {α β : Type} {P Q : β → Prop} {f : β → α → β} {xs : List α} {init : β}
    {x : α} (hinit : Q init) (hQ : ∀ acc, ∀ y ∈ xs, Q acc → Q (f acc y)) (hx : x ∈ xs)
    (hmake : ∀ acc, Q acc → P (f acc x)) (hkeep : ∀ acc, ∀ y ∈ xs, Q acc → P acc → P (f acc y)) :
    P (xs.foldl f init) := by
  induction xs generalizing init with
  | nil => cases hx
  | cons y ys ih =>
    have hQy := hQ init y List.mem_cons_self hinit
    rcases List.mem_cons.mp hx with rfl | hx
    · -- From here on the fold only keeps what is there.
      have hboth : Q (ys.foldl f (f init x)) ∧ P (ys.foldl f (f init x)) :=
        foldl_keeps (P := fun acc => Q acc ∧ P acc) ⟨hQy, hmake init hinit⟩
          fun acc z hz h => ⟨hQ acc z (List.mem_cons_of_mem _ hz) h.1,
            hkeep acc z (List.mem_cons_of_mem _ hz) h.1 h.2⟩
      exact hboth.2
    · exact ih hQy (fun acc z hz => hQ acc z (List.mem_cons_of_mem _ hz)) hx
        fun acc z hz => hkeep acc z (List.mem_cons_of_mem _ hz)

/-- The sites behind an operation at `site`. -/
def record (sites : Array (Option (Nat × Nat))) (op : Operation) (site : Nat × Nat) :
    Array (Option (Nat × Nat)) :=
  match op.target? with
  | none => sites
  | some r => sites.setIfInBounds r.index (some site)

theorem definitionSites_eq (d : Definition) :
    d.definitionSites = d.blocks.toList.zipIdx.foldl (fun sites x =>
      x.1.toList.zipIdx.foldl (fun sites y => record sites y.1 (x.2, y.2)) sites)
      (Array.replicate d.regTypes.size none) := by
  unfold definitionSites
  rw [← Array.foldl_toList, Array.toList_zipIdx]
  congr 1
  funext sites ⟨block, b⟩
  dsimp only
  rw [← Array.foldl_toList, Array.toList_zipIdx]
  rfl

/-- At the recorded site of a register stands an operation that defines it. -/
theorem opAt_of_definitionSites {d : Definition} {r : Nat} {site : Nat × Nat}
    (h : d.definitionSites[r]? = some (some site)) :
    ∃ op, d.OpAt site.1 site.2 op ∧ op.target? = some ⟨r⟩ := by
  let Good (sites : Array (Option (Nat × Nat))) : Prop :=
    ∀ (r : Nat) (site : Nat × Nat), sites[r]? = some (some site) →
      ∃ op, d.OpAt site.1 site.2 op ∧ op.target? = some ⟨r⟩
  -- The sites are collected block by block, and in a block operation by operation.
  suffices hgood : Good d.definitionSites from hgood r site h
  rw [definitionSites_eq]
  refine foldl_keeps ?_ ?_
  · intro r site hr
    rw [Array.getElem?_replicate] at hr
    split at hr <;> cases hr
  · rintro sites ⟨b, i⟩ hmem hsites
    rw [List.mem_zipIdx_iff_getElem?, Array.getElem?_toList] at hmem
    refine foldl_keeps hsites ?_
    rintro sites ⟨op, pos⟩ hop hsites r site hr
    rw [List.mem_zipIdx_iff_getElem?, Array.getElem?_toList] at hop
    unfold record at hr
    split at hr
    · exact hsites r site hr
    · rename_i t htarget
      rw [Array.getElem?_setIfInBounds] at hr
      split at hr
      · rename_i hrt
        split at hr
        · -- The operation overwrites the site of its target.
          cases hr
          exact ⟨op, ⟨b, hmem, hop⟩, by rw [htarget, ← hrt]⟩
        · cases hr
      · exact hsites r site hr

/-- A use in a reachable block is preceded by a definition: earlier in its block, or in another
block that dominates it. -/
theorem exists_definition {d : Definition} (h : d.flaw? = none) {before : List Nat} {i pos : Nat}
    {op : Operation} {r : Reg} (hw : d.graph.Walk before i) (hop : d.OpAt i pos op)
    (hr : r ∈ op.uses) :
    ∃ j k def', d.OpAt j k def' ∧ def'.target? = some r ∧
      (j = i ∧ k < pos ∨ j ≠ i ∧ d.graph.Dominates j i) := by
  have hshaped := shaped_of_flaw? h
  have hrow := d.graph.dominators_of_walk hshaped.nonempty hw
  obtain ⟨b, hb, hop⟩ := hop
  unfold flaw? at h
  rw [if_neg (by simpa using Nat.ne_of_gt hshaped.nonempty)] at h
  split at h
  · cases h
  · unfold dominanceFlaw? at h
    rw [List.findSome?_eq_none_iff] at h
    have huse := h _ (mem_zipIdx_blocks hb)
    simp only [hrow, Option.getD_some, Option.map_eq_none_iff] at huse
    unfold undefinedUse? at huse
    rw [List.findSome?_eq_none_iff] at huse
    have hpos : (op, pos) ∈ b.toList.zipIdx := by
      rw [List.mem_zipIdx_iff_getElem?, Array.getElem?_toList]
      exact hop
    have hdef := List.find?_eq_none.mp (huse _ hpos) r hr
    rw [Bool.not_eq_true, Bool.not_eq_false'] at hdef
    unfold definedBefore at hdef
    split at hdef
    · cases hdef
    · rename_i j k hsite
      have hsome : d.definitionSites[r.index]? = some (some (j, k)) := by
        cases hget : d.definitionSites[r.index]? with
        | none => rw [hget] at hsite; cases hsite
        | some site => rw [hget] at hsite; exact congrArg some hsite
      obtain ⟨def', hat, htarget⟩ := opAt_of_definitionSites hsome
      refine ⟨j, k, def', hat, htarget, ?_⟩
      split at hdef
      · rename_i hji
        exact Or.inl ⟨hji, by simpa using hdef⟩
      · rename_i hji
        exact Or.inr ⟨hji, Graph.dominates_of_dominators hshaped.nonempty hrow hdef⟩

/-! ## 3. Execution along walks -/

/-- Some walk leads to the block of the cursor such that everything defined on it, up to the
cursor, has been written. -/
structure Covers (d : Definition) (written : Reg → Prop) (block pos : Nat) : Prop where
  intro ::
  walk : ∃ before, d.graph.Walk before block ∧ ∀ b ∈ before, ∀ i op r, d.OpAt b i op →
    op.target? = some r → written r
  here : ∀ i < pos, ∀ op r, d.OpAt block i op → op.target? = some r → written r

namespace Covers

variable {d : Definition} {written written' : Reg → Prop} {block pos : Nat}

theorem start : d.Covers written 0 0 := by
  refine ⟨⟨[], .start, ?_⟩, ?_⟩
  · intro b hb
    cases hb
  · intro i hi
    exact absurd hi (Nat.not_lt_zero i)

theorem mono (h : d.Covers written block pos) (hsub : ∀ r, written r → written' r) :
    d.Covers written' block pos := by
  obtain ⟨before, hw, hdone⟩ := h.walk
  refine ⟨⟨before, hw, ?_⟩, ?_⟩
  · intro b hb i op r hop hr
    exact hsub r (hdone b hb i op r hop hr)
  · intro i hi op r hop hr
    exact hsub r (h.here i hi op r hop hr)

/-- Behind an operation, once its target is written. -/
theorem advance (h : d.Covers written block pos) {op : Operation} (hop : d.OpAt block pos op)
    (hr : ∀ r, op.target? = some r → written r) : d.Covers written block (pos + 1) := by
  refine ⟨h.walk, ?_⟩
  intro i hi op' r hop' hr'
  by_cases hlt : i < pos
  · exact h.here i hlt op' r hop' hr'
  · have heq : i = pos := by omega
    subst heq
    obtain ⟨b, hb, hop⟩ := hop
    obtain ⟨b', hb', hop'⟩ := hop'
    rw [hb] at hb'
    cases hb'
    rw [hop] at hop'
    cases hop'
    exact hr r hr'

/-- At the start of a successor: the whole block that was left is done. -/
theorem jump (hd : d.Shaped) (h : d.Covers written block pos) {op : Operation} {t : BlockId}
    (hop : d.OpAt block pos op) (ht : t ∈ op.successors) : d.Covers written t.index 0 := by
  obtain ⟨hedge, hlt⟩ := hd.edge_of_successor hop ht
  obtain ⟨before, hw, hdone⟩ := h.walk
  refine ⟨⟨block :: before, hw.step hedge hlt, ?_⟩, ?_⟩
  · intro b hb i op' r hop' hr
    rcases List.mem_cons.mp hb with rfl | hb
    · -- A block ends in the operation that left it, which defines nothing.
      have hterm : op.isTerminator = true ∧ op.target? = none := by
        cases op <;> first | exact ⟨rfl, rfl⟩ | cases ht
      obtain ⟨blk, hblk, hop⟩ := hop
      obtain ⟨blk', hblk', hop'⟩ := hop'
      rw [hblk] at hblk'
      cases hblk'
      have hend := hd.inner hblk hop hterm.1
      have hi := (Array.getElem?_eq_some_iff.mp hop').1
      by_cases hpos : i < pos
      · exact h.here i hpos op' r ⟨blk, hblk, hop'⟩ hr
      · have heq : i = pos := by omega
        subst heq
        rw [hop] at hop'
        cases hop'
        rw [hterm.2] at hr
        cases hr
    · exact hdone b hb i op' r hop' hr
  · intro i hi
    exact absurd hi (Nat.not_lt_zero i)

/-- What the operation at the cursor uses has been written. -/
theorem written_of_uses (hd : d.flaw? = none) (h : d.Covers written block pos) {op : Operation}
    {r : Reg} (hop : d.OpAt block pos op) (hr : r ∈ op.uses) : written r := by
  obtain ⟨before, hw, hdone⟩ := h.walk
  -- Whether the definition stands in this block or in a dominating one, it is done.
  obtain ⟨j, k, def', hat, htarget, hplace⟩ := exists_definition hd hw hop hr
  rcases hplace with ⟨rfl, hlt⟩ | ⟨hne, hdom⟩
  · exact h.here k hlt def' r hat htarget
  · rcases hdom before hw with heq | hmem
    · exact absurd heq hne
    · exact hdone j hmem k def' r hat htarget

end Covers

end Definition

end RegIR
