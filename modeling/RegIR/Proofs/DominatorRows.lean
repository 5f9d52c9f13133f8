import Mathlib.Data.Finset.Prod
import RegIR.Proofs.Marking
/-!
# The rows of dominators

Going over the rows again and again ends.  They only lose nodes, never a dominator, and when a round
changes nothing they hold the dominators alone: a walk to a node comes from a predecessor, whose row
it has to be in.
-/

namespace RegIR

open RegIR.Graph

theorem Graph.dominates_zero_iff {g : Graph} {d : Nat} : g.Dominates d 0 ↔ d = 0 := by
  constructor
  · intro hdom
    rcases hdom [] .start with heq | hmem
    · exact heq
    · cases hmem
  · rintro rfl before -
    exact Or.inl rfl

/-- What dominates a node, other than the node itself, dominates its predecessors: every walk to
one of them goes on to the node. -/
theorem Graph.Dominates.predecessor {g : Graph} {b d p : Nat} (h : g.Dominates d b) (hne : d ≠ b)
    (hedge : b ∈ g.succ p) (hb : b < g.size) : g.Dominates d p := by
  intro before hwalk
  rcases h _ (hwalk.step hedge hb) with heq | hmem
  · exact absurd heq hne
  · exact List.mem_cons.mp hmem

/-! ## 1. Revising rows -/

/-- The row of the node has the other one. -/
def Rows.bit (rows : Rows) (b d : Nat) : Bool := ((rows[b]?.getD none).getD #[])[d]?.getD false

theorem Rows.bit_of_getElem? {rows : Rows} {b : Nat} {row : Array Bool}
    (h : rows[b]? = some (some row)) (d : Nat) : rows.bit b d = row[d]?.getD false := by
  rw [bit, h]
  rfl

theorem Rows.bit_set {rows : Rows} {b : Nat} (hb : b < rows.size) (row : Array Bool) (c d : Nat) :
    Rows.bit (rows.setIfInBounds b (some row)) c d =
      if c = b then row[d]?.getD false else rows.bit c d := by
  unfold bit
  rw [Array.getElem?_setIfInBounds]
  by_cases hc : c = b
  · subst hc
    simp [hb]
  · simp [hc, Ne.symm hc]

theorem Rows.row_ext {row row' : Array Bool} (hsize : row.size = row'.size)
    (h : ∀ d : Nat, row[d]?.getD false = true ↔ row'[d]?.getD false = true) : row = row' := by
  refine Array.ext hsize fun d hd hd' => ?_
  have hbit := h d
  rw [Array.getElem?_eq_getElem hd, Array.getElem?_eq_getElem hd', Option.getD_some,
    Option.getD_some] at hbit
  exact Bool.eq_iff_iff.mpr hbit

namespace Flow

/-- The marks are those of the reached nodes, and the predecessors are listed along the edges from
them. -/
structure Of (w : Flow) (g : Graph) : Prop where
  size : w.marks.size = g.size
  marks : ∀ b : Nat, w.marks[b]? = some true ↔ g.Reaches b
  predecessors : ∀ b p, Listed w.predecessors b p ↔ g.Reaches p ∧ b ∈ g.succ p

/-- What holds of the rows all along: they hold the dominators, and a node that is in the rows of
all predecessors has not been lost. -/
structure Approaches (g : Graph) (rows : Rows) : Prop where
  size : rows.size = g.size
  reached : ∀ b, g.Reaches b → ∃ row, rows[b]? = some (some row) ∧ row.size = g.size
  unreached : ∀ b < g.size, ¬ g.Reaches b → rows[b]? = some none
  zero : ∀ d, rows.bit 0 d = true ↔ d = 0
  dominators : ∀ b d, g.Reaches b → g.Dominates d b → rows.bit b d = true
  keeps : ∀ b d, g.Reaches b → b ≠ 0 → d < g.size →
    (d = b ∨ ∀ p, g.Reaches p → b ∈ g.succ p → rows.bit p d = true) → rows.bit b d = true

variable {g : Graph} {w : Flow} {rows : Rows}

theorem size_intersect (row other : Array Bool) : (intersect row other).size = row.size :=
  Array.size_mapIdx

theorem bit_intersect (row other : Array Bool) (d : Nat) :
    (intersect row other)[d]?.getD false = true ↔
      row[d]?.getD false = true ∧ other[d]?.getD true = true := by
  unfold intersect
  rw [Array.getElem?_mapIdx]
  cases row[d]? <;> simp

theorem bit_behind (rows : Rows) (row : Array Bool) (p d : Nat) :
    (behind rows row p)[d]?.getD false = true ↔ row[d]?.getD false = true ∧
      ∀ other, rows[p]? = some (some other) → other[d]?.getD true = true := by
  unfold behind
  split
  · rename_i other hother
    rw [bit_intersect, hother]
    simp
  · rename_i hnone
    constructor
    · intro hrow
      exact ⟨hrow, fun other hother => absurd hother (hnone other)⟩
    · rintro ⟨hrow, -⟩
      exact hrow

theorem size_behind (rows : Rows) (row : Array Bool) (p : Nat) :
    (behind rows row p).size = row.size := by
  unfold behind
  split
  · exact size_intersect row _
  · rfl

/-- What the rows of some nodes leave of a row. -/
theorem bit_foldl_behind (rows : Rows) (preds : List Nat) (row : Array Bool) :
    (preds.foldl (behind rows) row).size = row.size ∧
      ∀ d : Nat, (preds.foldl (behind rows) row)[d]?.getD false = true ↔
        row[d]?.getD false = true ∧
          ∀ p ∈ preds, ∀ other, rows[p]? = some (some other) → other[d]?.getD true = true := by
  induction preds generalizing row with
  | nil => simp
  | cons p preds ih =>
    obtain ⟨hsize, hbit⟩ := ih (behind rows row p)
    refine ⟨hsize.trans (size_behind rows row p), ?_⟩
    intro d
    rw [List.foldl_cons, hbit, bit_behind, List.forall_mem_cons, and_assoc]

/-- A revised row has the node itself and what the rows of all predecessors have. -/
theorem Approaches.revised (hw : w.Of g) (h : Approaches g rows) {b : Nat} (hb : b < g.size) :
    (w.revised rows b).size = g.size ∧ ∀ d : Nat, (w.revised rows b)[d]?.getD false = true ↔
      d < g.size ∧ (d = b ∨ ∀ p, g.Reaches p → b ∈ g.succ p → rows.bit p d = true) := by
  obtain ⟨hsize, hbit⟩ := bit_foldl_behind rows (w.predecessors[b]?.getD #[]).toList
    (Array.replicate w.marks.size true)
  rw [Array.foldl_toList] at hsize hbit
  replace hsize := hsize.trans (Array.size_replicate.trans hw.size)
  -- The row of a predecessor is as long as any, so it has a bit for every node.
  have hrow : ∀ p other d, g.Reaches p → d < g.size → rows[p]? = some (some other) →
      (other[d]?.getD true = true ↔ rows.bit p d = true) := by
    intro p other d hp hd hother
    obtain ⟨other', hother', hwidth⟩ := h.reached p hp
    cases hother.symm.trans hother'
    rw [Rows.bit_of_getElem? hother, Array.getElem?_eq_getElem (by omega)]
    rfl
  unfold Flow.revised
  refine ⟨by rw [Array.size_setIfInBounds, hsize], ?_⟩
  intro d
  rw [Array.getElem?_setIfInBounds]
  by_cases hd : b = d
  · subst hd
    simp [hsize, hb]
  · rw [if_neg hd, hbit, Array.getElem?_replicate, hw.size]
    by_cases hlt : d < g.size
    · simp only [hlt, if_true, Option.getD_some, true_and, Ne.symm hd, false_or]
      constructor
      · intro hall p hp hedge
        obtain ⟨other, hother, -⟩ := h.reached p hp
        exact (hrow p other d hp hlt hother).mp
          (hall p (Array.mem_toList_iff.mpr ((hw.predecessors b p).mpr ⟨hp, hedge⟩)) other hother)
      · intro hall p hmem other hother
        obtain ⟨hp, hedge⟩ := (hw.predecessors b p).mp (Array.mem_toList_iff.mp hmem)
        exact (hrow p other d hp hlt hother).mpr (hall p hp hedge)
    · simp [hlt]

/-- A revised row is part of the old one, so the rows only lose nodes. -/
theorem Approaches.bit_of_bit_set (hpos : 0 < g.size) (hw : w.Of g) (h : Approaches g rows)
    {b : Nat} (hb : b ≠ 0) (hr : g.Reaches b) {c d : Nat}
    (hbit : Rows.bit (rows.setIfInBounds b (some (w.revised rows b))) c d = true) :
    rows.bit c d = true := by
  have hlt := hr.lt_size hpos
  rw [Rows.bit_set (by rwa [h.size])] at hbit
  split at hbit
  · rename_i hc
    obtain ⟨hd, hrow⟩ := ((h.revised hw hlt).2 d).mp hbit
    exact hc ▸ h.keeps b d hr hb hd hrow
  · exact hbit

/-- Revising a row takes no dominator from it. -/
theorem Approaches.set (hpos : 0 < g.size) (hw : w.Of g) (h : Approaches g rows) {b : Nat}
    (hb : b ≠ 0) (hr : g.Reaches b) :
    Approaches g (rows.setIfInBounds b (some (w.revised rows b))) := by
  have hlt := hr.lt_size hpos
  have hlt' : b < rows.size := by rwa [h.size]
  obtain ⟨hsize, hrevised⟩ := h.revised hw hlt
  have hset := Rows.bit_set hlt' (w.revised rows b)
  refine ⟨?_, ?_, ?_, ?_, ?_, ?_⟩
  · rw [Array.size_setIfInBounds, h.size]
  · intro c hc
    rw [Array.getElem?_setIfInBounds]
    by_cases hbc : b = c
    · rw [if_pos hbc, if_pos hlt']
      exact ⟨_, rfl, hsize⟩
    · rw [if_neg hbc]
      exact h.reached c hc
  · intro c hc hnot
    have hbc : b ≠ c := fun heq => hnot (heq ▸ hr)
    rw [Array.getElem?_setIfInBounds, if_neg hbc]
    exact h.unreached c hc hnot
  · intro d
    rw [hset, if_neg (Ne.symm hb)]
    exact h.zero d
  · intro c d hc hdom
    rw [hset]
    split
    · rename_i hcb
      subst hcb
      obtain ⟨before, hwalk⟩ := hc
      refine (hrevised d).mpr ⟨hdom.lt_size hpos hwalk, ?_⟩
      by_cases hdc : d = c
      · exact Or.inl hdc
      · exact Or.inr fun p hp hedge =>
          h.dominators p d hp (hdom.predecessor hdc hedge hlt)
    · exact h.dominators c d hc hdom
  · intro c d hc hc0 hd hrow
    -- What all predecessors have now, they had before.
    have hold : d = c ∨ ∀ p, g.Reaches p → c ∈ g.succ p → rows.bit p d = true :=
      hrow.imp_right fun hall p hp hedge => h.bit_of_bit_set hpos hw hb hr (hall p hp hedge)
    rw [hset]
    split
    · rename_i hcb
      exact (hrevised d).mpr ⟨hd, hcb ▸ hold⟩
    · exact h.keeps c d hc hc0 hd hold

theorem Approaches.lt_of_bit (h : Approaches g rows) {b d : Nat} (hbit : rows.bit b d = true) :
    b < g.size ∧ d < g.size := by
  by_cases hb : b < g.size
  · refine ⟨hb, ?_⟩
    by_cases hr : g.Reaches b
    · obtain ⟨row, hrow, hwidth⟩ := h.reached b hr
      by_contra hd
      rw [Rows.bit_of_getElem? hrow, Array.getElem?_eq_none (by omega)] at hbit
      cases hbit
    · unfold Rows.bit at hbit
      rw [h.unreached b hb hr] at hbit
      cases hbit
  · have hnone : rows[b]? = none := Array.getElem?_eq_none (by rw [h.size]; omega)
    unfold Rows.bit at hbit
    rw [hnone] at hbit
    cases hbit

theorem getElem?_start_zero (hpos : 0 < g.size) (hw : w.Of g) :
    w.start[0]? = some (some ((Array.replicate g.size false).setIfInBounds 0 true)) := by
  rw [start, Array.getElem?_setIfInBounds, if_pos rfl, Array.size_map, hw.size, if_pos hpos]

theorem getElem?_start (hw : w.Of g) {b : Nat} (hb : b < g.size) (hne : b ≠ 0) :
    w.start[b]? =
      some (if w.marks[b]? = some true then some (Array.replicate g.size true) else none) := by
  have hlt : b < w.marks.size := by rwa [hw.size]
  have hget : w.marks[b]? = some w.marks[b] := Array.getElem?_eq_getElem hlt
  rw [start, Array.getElem?_setIfInBounds, if_neg (Ne.symm hne), Array.getElem?_map, hget,
    Option.map_some, hw.size]
  cases w.marks[b] <;> rfl

theorem approaches_start (hpos : 0 < g.size) (hw : w.Of g) : Approaches g w.start := by
  have hfull : ∀ b, g.Reaches b → b ≠ 0 →
      w.start[b]? = some (some (Array.replicate g.size true)) := by
    intro b hb hne
    rw [getElem?_start hw (hb.lt_size hpos) hne, if_pos ((hw.marks b).mpr hb)]
  have hbit : ∀ b d, g.Reaches b → b ≠ 0 → d < g.size → Rows.bit w.start b d = true := by
    intro b d hb hne hd
    rw [Rows.bit_of_getElem? (hfull b hb hne), Array.getElem?_replicate, if_pos hd]
    rfl
  have hbit₀ : ∀ d, Rows.bit w.start 0 d = true ↔ d = 0 := by
    intro d
    rw [Rows.bit_of_getElem? (getElem?_start_zero hpos hw), Array.getElem?_setIfInBounds]
    by_cases hd : 0 = d
    · subst hd
      simp [hpos]
    · rw [if_neg hd, Array.getElem?_replicate]
      split <;> simp [Ne.symm hd]
  refine ⟨?_, ?_, ?_, hbit₀, ?_, fun b d hb hne hd _ => hbit b d hb hne hd⟩
  · rw [start, Array.size_setIfInBounds, Array.size_map, hw.size]
  · intro b hb
    by_cases hne : b = 0
    · subst hne
      refine ⟨_, getElem?_start_zero hpos hw, ?_⟩
      rw [Array.size_setIfInBounds, Array.size_replicate]
    · exact ⟨_, hfull b hb hne, Array.size_replicate⟩
  · intro b hb hnot
    have hne : b ≠ 0 := fun heq => hnot (heq ▸ ⟨[], .start⟩)
    rw [getElem?_start hw hb hne, if_neg fun hmark => hnot ((hw.marks b).mp hmark)]
  · rintro b d ⟨before, hwalk⟩ hdom
    by_cases hne : b = 0
    · subst hne
      exact (hbit₀ d).mpr (dominates_zero_iff.mp hdom)
    · exact hbit b d ⟨before, hwalk⟩ hne (hdom.lt_size hpos hwalk)

end Flow

/-! ## 2. Rounds -/

/-- Between two moments of a round the rows have lost something and got nothing. -/
structure Sweep.Loses (s t : Sweep) : Prop where
  changed : t.changed = true
  sub : ∀ b d, t.rows.bit b d = true → s.rows.bit b d = true
  lost : ∃ b d, s.rows.bit b d = true ∧ t.rows.bit b d = false

theorem Sweep.Loses.trans {s t u : Sweep} (h : s.Loses t) (h' : t.Loses u) : s.Loses u := by
  obtain ⟨b, d, hold, hnew⟩ := h.lost
  refine ⟨h'.changed, fun c e hbit => h.sub c e (h'.sub c e hbit), b, d, hold, ?_⟩
  rw [Bool.eq_false_iff] at hnew ⊢
  exact fun hbit => hnew (h'.sub b d hbit)

namespace Flow

variable {g : Graph} {w : Flow} {rows : Rows} (hpos : 0 < g.size) (hw : w.Of g)
include hpos hw

/-- Revising one row changes nothing, or the rows lose something. -/
theorem revise_cases {s : Sweep} (h : Approaches g s.rows) {b : Nat} (hb : b ≠ 0) :
    w.revise s b = s ∧ (g.Reaches b → s.rows[b]? = some (some (w.revised s.rows b))) ∨
      Approaches g (w.revise s b).rows ∧ s.Loses (w.revise s b) := by
  unfold revise
  split
  · rename_i hmark
    have hr := (hw.marks b).mp hmark
    dsimp only
    split
    · rename_i hsame
      exact Or.inl ⟨rfl, fun _ => hsame⟩
    · rename_i hdiffers
      have hsub := fun c d => h.bit_of_bit_set (c := c) (d := d) hpos hw hb hr
      refine Or.inr ⟨h.set hpos hw hb hr, rfl, hsub, ?_⟩
      -- Otherwise the new row would have every node of the old one, and so be the same.
      by_contra hnone
      push Not at hnone
      obtain ⟨row, hrow, hwidth⟩ := h.reached b hr
      obtain ⟨hsize, -⟩ := h.revised hw (hr.lt_size hpos)
      have hset := Rows.bit_set (by rw [h.size]; exact hr.lt_size hpos) (w.revised s.rows b) b
      refine hdiffers ?_
      rw [hrow, Rows.row_ext (hwidth.trans hsize.symm) ?_]
      intro d
      rw [← Rows.bit_of_getElem? hrow]
      constructor
      · intro hbit
        have hnew := hnone b d hbit
        rwa [ne_eq, Bool.not_eq_false, hset, if_pos rfl] at hnew
      · intro hbit
        refine hsub b d ?_
        rwa [hset, if_pos rfl]
  · rename_i hmark
    exact Or.inl ⟨rfl, fun hr => absurd ((hw.marks b).mpr hr) hmark⟩

theorem foldl_revise_cases {nodes : List Nat} (hnodes : ∀ b ∈ nodes, b ≠ 0) {s : Sweep}
    (h : Approaches g s.rows) :
    nodes.foldl w.revise s = s ∧
        (∀ b ∈ nodes, g.Reaches b → s.rows[b]? = some (some (w.revised s.rows b))) ∨
      Approaches g (nodes.foldl w.revise s).rows ∧ s.Loses (nodes.foldl w.revise s) := by
  induction nodes generalizing s with
  | nil => exact Or.inl ⟨rfl, fun b hb => nomatch hb⟩
  | cons b nodes ih =>
    have hrest : ∀ c ∈ nodes, c ≠ 0 := fun c hc => hnodes c (List.mem_cons_of_mem b hc)
    rw [List.foldl_cons]
    rcases revise_cases hpos hw h (hnodes b List.mem_cons_self) with ⟨hsame, hrow⟩ | ⟨hnew, hloses⟩
    · rw [hsame]
      exact (ih hrest h).imp_left fun ⟨hsame', hrows⟩ =>
        ⟨hsame', List.forall_mem_cons.mpr ⟨hrow, hrows⟩⟩
    · rcases ih hrest hnew with ⟨hsame', -⟩ | ⟨hnew', hloses'⟩
      · rw [hsame']
        exact Or.inr ⟨hnew, hloses⟩
      · exact Or.inr ⟨hnew', hloses.trans hloses'⟩

end Flow

/-- How many nodes the rows have in all. -/
def Rows.count (rows : Rows) (size : Nat) : Nat :=
  ((Finset.range size ×ˢ Finset.range size).filter fun x => rows.bit x.1 x.2 = true).card

theorem Rows.count_le (rows : Rows) (size : Nat) : rows.count size ≤ size ^ 2 := by
  refine (Finset.card_filter_le _ _).trans ?_
  rw [Finset.card_product, Finset.card_range, Nat.pow_two]

namespace Flow

variable {g : Graph} {w : Flow} {rows : Rows}

theorem Approaches.count_lt {s t : Sweep} (h : Approaches g s.rows) (hloses : s.Loses t) :
    t.rows.count g.size < s.rows.count g.size := by
  obtain ⟨b, d, hold, hnew⟩ := hloses.lost
  obtain ⟨hb, hd⟩ := h.lt_of_bit hold
  refine Finset.card_lt_card ((Finset.ssubset_iff_of_subset ?_).mpr ⟨(b, d), ?_, ?_⟩)
  · intro x hx
    rw [Finset.mem_filter] at hx ⊢
    exact ⟨hx.1, hloses.sub _ _ hx.2⟩
  · rw [Finset.mem_filter, Finset.mem_product, Finset.mem_range, Finset.mem_range]
    exact ⟨⟨hb, hd⟩, hold⟩
  · rw [Finset.mem_filter, hnew]
    simp

/-- No row changes any more. -/
def Settled (w : Flow) (g : Graph) (rows : Rows) : Prop :=
  ∀ b, b ≠ 0 → g.Reaches b → rows[b]? = some (some (w.revised rows b))

theorem exists_settle? (hpos : 0 < g.size) (hw : w.Of g) {fuel : Nat} (h : Approaches g rows)
    (hfuel : rows.count g.size < fuel) :
    ∃ rows', w.settle? fuel rows = some rows' ∧ Approaches g rows' ∧ w.Settled g rows' := by
  -- Every round but the last takes something from the rows.
  induction fuel generalizing rows with
  | zero => omega
  | succ fuel ih =>
    have hnodes : ∀ b ∈ List.range' 1 (w.marks.size - 1), b ≠ 0 := by
      intro b hb
      rw [List.mem_range'_1] at hb
      omega
    rw [settle?]
    have hround : w.round rows = (List.range' 1 (w.marks.size - 1)).foldl w.revise ⟨rows, false⟩ :=
      rfl
    rcases foldl_revise_cases hpos hw hnodes (s := ⟨rows, false⟩) h with
      ⟨hsame, hrows⟩ | ⟨hnew, hloses⟩
    · rw [hround, hsame]
      refine ⟨rows, rfl, h, fun b hb hr => hrows b ?_ hr⟩
      have hlt := hr.lt_size hpos
      rw [List.mem_range'_1, hw.size]
      omega
    · have hcount := h.count_lt (s := ⟨rows, false⟩) hloses
      obtain ⟨rows', hrows', hspec⟩ := ih hnew (by dsimp only at hcount; omega)
      refine ⟨rows', ?_, hspec⟩
      rw [hround, if_pos hloses.changed]
      exact hrows'

/-- Rows that do not change any more hold dominators only. -/
theorem Approaches.dominates (hw : w.Of g) (h : Approaches g rows)
    (hsettled : w.Settled g rows) {b d : Nat} (hbit : rows.bit b d = true) : g.Dominates d b := by
  intro before hwalk
  -- Along the walk: its last step comes from a predecessor, whose row has the node as well.
  induction hwalk with
  | start => exact Or.inl ((h.zero d).mp hbit)
  | @step before p b hwalk hedge hlt ih =>
    by_cases hb : b = 0
    · subst hb
      exact Or.inl ((h.zero d).mp hbit)
    · rw [Rows.bit_of_getElem? (hsettled b hb ⟨_, hwalk.step hedge hlt⟩),
        (h.revised hw hlt).2] at hbit
      rcases hbit.2 with heq | hall
      · exact Or.inl heq
      · exact Or.inr (List.mem_cons.mpr (ih (hall p ⟨before, hwalk⟩ hedge)))

end Flow

/-! ## 3. The table -/

namespace Graph

/-- Each reached node has a row, the set of its dominators, and no other node has one. -/
structure Tabulates (g : Graph) (rows : Rows) : Prop where
  size : rows.size = g.size
  none_iff : ∀ b < g.size, rows[b]? = some none ↔ ¬ g.Reaches b
  row : ∀ (b : Nat) (row : Array Bool), rows[b]? = some (some row) →
    row.size = g.size ∧ ∀ d : Nat, row[d]? = some true ↔ g.Dominates d b

variable {g : Graph} {rows rows' : Rows}

theorem Tabulates.unique (h : g.Tabulates rows) (h' : g.Tabulates rows') : rows = rows' := by
  refine Array.ext (h.size.trans h'.size.symm) fun b hb hb' => ?_
  have hget : rows[b]? = some rows[b] := Array.getElem?_eq_getElem hb
  have hget' : rows'[b]? = some rows'[b] := Array.getElem?_eq_getElem hb'
  have hnone := (h.none_iff b (h.size ▸ hb)).trans (h'.none_iff b (h.size ▸ hb)).symm
  rw [hget, hget'] at hnone
  cases hrow : rows[b] with
  | none =>
    rw [hrow] at hnone
    exact (Option.some.inj (hnone.mp rfl)).symm
  | some row =>
    cases hrow' : rows'[b] with
    | none =>
      rw [hrow, hrow'] at hnone
      cases hnone.mpr rfl
    | some row' =>
      obtain ⟨hsize, hbits⟩ := h.row b row (hrow ▸ hget)
      obtain ⟨hsize', hbits'⟩ := h'.row b row' (hrow' ▸ hget')
      congr 1
      refine Array.ext (hsize.trans hsize'.symm) fun d hd hd' => ?_
      have hbit := (hbits d).trans (hbits' d).symm
      rw [Array.getElem?_eq_getElem hd, Array.getElem?_eq_getElem hd', Option.some.injEq,
        Option.some.injEq] at hbit
      exact Bool.eq_iff_iff.mpr hbit

/-- Once the rows do not change any more they are the table. -/
theorem tabulates_of_settled {w : Flow} (hpos : 0 < g.size) (hw : w.Of g)
    (h : Flow.Approaches g rows) (hsettled : w.Settled g rows) : g.Tabulates rows := by
  refine ⟨h.size, ?_, ?_⟩
  · intro b hb
    constructor
    · intro hnone hr
      obtain ⟨row, hrow, -⟩ := h.reached b hr
      rw [hnone] at hrow
      cases hrow
    · exact h.unreached b hb
  · intro b row hrow
    have hr : g.Reaches b := by
      by_contra hnot
      have hlt : b < g.size := h.size ▸ (Array.getElem?_eq_some_iff.mp hrow).1
      rw [h.unreached b hlt hnot] at hrow
      cases hrow
    obtain ⟨row', hrow', hwidth⟩ := h.reached b hr
    cases hrow.symm.trans hrow'
    refine ⟨hwidth, ?_⟩
    intro d
    have hbit := Rows.bit_of_getElem? hrow d
    constructor
    · intro hd
      refine h.dominates hw hsettled ?_
      rw [hbit, hd, Option.getD_some]
    · intro hdom
      have hd : d < row.size := by
        obtain ⟨before, hwalk⟩ := hr
        exact hwidth ▸ hdom.lt_size hpos hwalk
      rw [h.dominators b d hr hdom] at hbit
      rw [Array.getElem?_eq_getElem hd] at hbit ⊢
      exact congrArg some hbit.symm

theorem exists_settledRows? (hg : g.Closed) (hpos : 0 < g.size) {fuel : Nat}
    (hfuel : g.size ^ 2 < fuel) :
    ∃ rows, g.settledRows? fuel = some rows ∧ g.Tabulates rows := by
  have hzero : (Array.replicate g.size false)[0]? = some false := by
    rw [Array.getElem?_replicate, if_pos hpos]
  have hcount : (Marking.start g.size).marks.count false + 1 = g.size := by
    rw [Marking.start, Marking.count_set_true hzero, Array.count_replicate_self]
  have hsquare : g.size ≤ g.size ^ 2 := Nat.le_self_pow (by decide) g.size
  have hturns : (Marking.start g.size).marks.count false + (Marking.start g.size).todo.length <
      fuel := by
    rw [show (Marking.start g.size).todo.length = 1 from rfl, hcount]
    omega
  obtain ⟨marks, hmark, hsize, hmarks⟩ :=
    Marking.exists_mark? hg (Marking.sound_start hpos) hturns
  obtain ⟨lists, hlists, hlength, hlisted⟩ := exists_predecessors? hg marks
  have hw : Flow.Of ⟨marks, lists⟩ g := by
    refine ⟨hsize, hmarks, ?_⟩
    intro b p
    rw [hlisted, hmarks]
    exact ⟨fun h => h.2, fun h => ⟨h.1.lt_size hpos, h⟩⟩
  obtain ⟨rows, hsettle, hrows, hsettled⟩ := Flow.exists_settle? hpos hw
    (Flow.approaches_start hpos hw) (Nat.lt_of_le_of_lt (Rows.count_le _ _) hfuel)
  refine ⟨rows, ?_, tabulates_of_settled hpos hw hrows hsettled⟩
  rw [settledRows?, if_neg (Nat.ne_of_gt hpos), hmark]
  simp only [Option.bind_eq_bind, Option.bind_some, hlists]
  exact hsettle

theorem tabulates_dominators (hpos : 0 < g.size) : g.Tabulates g.dominators := by
  refine ⟨?_, ?_, ?_⟩
  · rw [dominators, Array.size_map, Array.size_range]
  · intro b hb
    constructor
    · rintro hnone ⟨before, hwalk⟩
      rw [dominators_of_walk hpos hwalk] at hnone
      cases hnone
    · intro hnot
      rw [dominators, Array.getElem?_map, Array.getElem?_range, if_pos hb, Option.map_some,
        if_neg fun hmark => hnot (reaches_of_reachable hmark)]
  · intro b row hrow
    obtain ⟨before, hwalk⟩ := reaches_of_dominators hrow
    have hrow' := dominators_of_walk hpos hwalk
    rw [hrow] at hrow'
    have hsize : row.size = g.size := by
      cases hrow'
      rw [Array.size_map, Array.size_range]
    refine ⟨hsize, ?_⟩
    intro d
    constructor
    · intro hd
      exact dominates_of_dominators hpos hrow (by rw [hd]; rfl)
    · intro hdom
      have hd : d < row.size := hsize ▸ hdom.lt_size hpos hwalk
      rw [Array.getElem?_eq_getElem hd, Option.some.injEq]
      by_cases hdb : d = b
      · subst hdb
        cases hrow'
        rw [Array.getElem_map, Array.getElem_range, beq_self_eq_true, Bool.true_or]
      · -- Around a node that is not in the row would lead a walk.
        by_contra hbit
        obtain ⟨before', hwalk', hnot⟩ := walk_around_of_dominators hpos hrow (hsize ▸ hd) (by
          rw [Array.getElem?_eq_getElem hd, Option.getD_some, Bool.eq_false_iff]
          exact hbit)
        rcases hdom before' hwalk' with heq | hmem
        · exact hdb heq
        · exact hnot hmem

end Graph

namespace Definition

theorem Shaped.closed {d : Definition} (hd : d.Shaped) : d.graph.Closed := by
  intro b c hc
  obtain ⟨pos, op, t, hop, ht, rfl⟩ := exists_successor hc
  exact (hd.edge_of_successor hop ht).2

/-- For a definition whose blocks have passed the checks of their shape both loops end, with the
table that validation reads.  A block has no row exactly if no walk from block 0 leads to it, and
otherwise its row is the set of the blocks that are on every walk to it.  The row of block 0 has
block 0 alone. -/
theorem iteration_finds_dominators {d : Definition} (hne : d.blocks.isEmpty = false)
    (hshape : d.blocks.toList.zipIdx.findSome? (fun (block, b) => d.shapeFlaw? block ⟨b⟩) = none) :
    (∀ fuel, d.blocks.size ^ 2 < fuel → d.graph.settledRows? fuel = some d.graph.dominators) ∧
    d.graph.dominators.size = d.blocks.size ∧
    (∀ b < d.blocks.size, d.graph.dominators[b]? = some none ↔ ¬ d.graph.Reaches b) ∧
    (∀ b, d.graph.Reaches b → ∃ row, d.graph.dominators[b]? = some (some row) ∧
      row.size = d.blocks.size ∧ ∀ x : Nat, row[x]? = some true ↔ d.graph.Dominates x b) ∧
    ∃ row, d.graph.dominators[0]? = some (some row) ∧ ∀ x : Nat, row[x]? = some true ↔ x = 0 := by
  have hd : d.Shaped := shaped_of_shapeFlaw? (by simpa using hne) hshape
  have hpos : 0 < d.graph.size := hd.nonempty
  have htable := Graph.tabulates_dominators hpos
  have hrow : ∀ b, d.graph.Reaches b → ∃ row, d.graph.dominators[b]? = some (some row) ∧
      row.size = d.blocks.size ∧ ∀ x : Nat, row[x]? = some true ↔ d.graph.Dominates x b := by
    rintro b ⟨before, hwalk⟩
    have hget := Graph.dominators_of_walk hpos hwalk
    exact ⟨_, hget, htable.row b _ hget⟩
  refine ⟨?_, htable.size, htable.none_iff, hrow, ?_⟩
  · intro fuel hfuel
    obtain ⟨rows, hrows, hspec⟩ := Graph.exists_settledRows? hd.closed hpos hfuel
    rw [hrows, hspec.unique htable]
  · obtain ⟨row, hzero, -, hbits⟩ := hrow 0 ⟨[], .start⟩
    exact ⟨row, hzero, fun x => (hbits x).trans Graph.dominates_zero_iff⟩

/-- Two blocks lead to each other and are entered both ways, the first one comes back to block 0 as
well, and block 4 leads into the rest from nowhere. -/
def tangled : Definition :=
  ⟨⟨"tangled", [.int], .int⟩,
    #[#[.readArg ⟨0⟩ 0, .condBranch ⟨0⟩ ⟨1⟩ ⟨2⟩], #[.condBranch ⟨0⟩ ⟨2⟩ ⟨0⟩],
      #[.condBranch ⟨0⟩ ⟨1⟩ ⟨3⟩], #[.condBranch ⟨0⟩ ⟨3⟩ ⟨5⟩], #[.branch ⟨3⟩], #[.ret ⟨0⟩]],
    #[.int], #[]⟩

/-- The table says that the last block is dominated by blocks 0, 2 and 3, and that block 4 is not
reached. -/
theorem iteration_finds_dominators_tangled :
    tangled.blocks.isEmpty = false ∧
    tangled.blocks.toList.zipIdx.findSome? (fun (block, b) => tangled.shapeFlaw? block ⟨b⟩) = none ∧
    tangled.graph.settledRows? 37 = some tangled.graph.dominators ∧
    ¬ tangled.graph.Reaches 4 ∧
    ∀ x, tangled.graph.Dominates x 5 ↔ x = 0 ∨ x = 2 ∨ x = 3 ∨ x = 5 := by
  have hne : tangled.blocks.isEmpty = false := rfl
  have hshape : tangled.blocks.toList.zipIdx.findSome?
      (fun (block, b) => tangled.shapeFlaw? block ⟨b⟩) = none := by decide +kernel
  obtain ⟨hends, -, hnone, hrow, -⟩ := iteration_finds_dominators hne hshape
  have hrows : tangled.graph.settledRows? 37 = some
      #[some #[true, false, false, false, false, false],
        some #[true, true, false, false, false, false],
        some #[true, false, true, false, false, false],
        some #[true, false, true, true, false, false], none,
        some #[true, false, true, true, false, true]] := by decide +kernel
  have htable := hends 37 (by decide)
  rw [hrows, Option.some.injEq] at htable
  rw [← htable] at hnone hrow
  have hreach : tangled.graph.Reaches 5 := by
    by_contra hnot
    cases (hnone 5 (by decide)).mpr hnot
  obtain ⟨row, hget, hsize, hbits⟩ := hrow 5 hreach
  cases hget
  refine ⟨hne, hshape, by rw [hends 37 (by decide)], (hnone 4 (by decide)).mp rfl, ?_⟩
  intro x
  rw [← hbits x]
  constructor
  · intro hx
    have hall : ∀ y < 6, #[true, false, true, true, false, true][y]? = some true →
        y = 0 ∨ y = 2 ∨ y = 3 ∨ y = 5 := by decide
    exact hall x (Array.getElem?_eq_some_iff.mp hx).1 hx
  · rintro (rfl | rfl | rfl | rfl) <;> rfl

end Definition

end RegIR
