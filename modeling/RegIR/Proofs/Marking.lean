import RegIR.Function.Dominance.Iteration
import RegIR.Proofs.WellFormed
/-!
# The marked nodes

The search from node 0 ends, since each turn takes a node from those that are unmarked or wait.
When none waits, the marked nodes are those that a walk reaches.  The lists of predecessors then
have an entry for each edge between marked nodes.
-/

namespace RegIR

open RegIR.Graph

/-! ## 1. Edges -/

/-- Every edge leads to a node. -/
def Graph.Closed (g : Graph) : Prop := ∀ b c, c ∈ g.succ b → c < g.size

theorem Graph.Reaches.lt_size {g : Graph} (hpos : 0 < g.size) {b : Nat} (h : g.Reaches b) :
    b < g.size := by
  obtain ⟨before, hw⟩ := h
  exact lt_size_of_walk hpos hw

theorem Graph.Dominates.lt_size {g : Graph} (hpos : 0 < g.size) {before : List Nat} {b d : Nat}
    (h : g.Dominates d b) (hw : g.Walk before b) : d < g.size :=
  hw.lt_size hpos (List.mem_cons.mpr (h before hw))

/-! ## 2. Marking -/

namespace Marking

/-- The ends of some edges have been met: they are marked, and those that were not marked before
wait. -/
structure Met (m : Marking) (ends : List Nat) (n : Marking) : Prop where
  size : n.marks.size = m.marks.size
  marks : ∀ b : Nat, n.marks[b]? = some true ↔ m.marks[b]? = some true ∨ b ∈ ends
  todo : ∀ b, b ∈ n.todo ↔ b ∈ m.todo ∨ b ∈ ends ∧ m.marks[b]? ≠ some true
  /-- Every new mark adds one node to those that wait. -/
  count : n.marks.count false + n.todo.length = m.marks.count false + m.todo.length

theorem count_set_true {marks : Array Bool} {b : Nat} (h : marks[b]? = some false) :
    (marks.setIfInBounds b true).count false + 1 = marks.count false := by
  obtain ⟨hb, hget⟩ := Array.getElem?_eq_some_iff.mp h
  have hpos : 0 < marks.count false := Array.count_pos_iff.mpr (hget ▸ Array.getElem_mem hb)
  have hcount : (marks.set b true).count false = marks.count false - 1 := by
    rw [Array.count_set, hget]
    rfl
  rw [Array.setIfInBounds, dif_pos hb, hcount]
  omega

theorem getElem?_set_true {marks : Array Bool} {b : Nat} (hb : b < marks.size) (c : Nat) :
    (marks.setIfInBounds b true)[c]? = some true ↔ marks[c]? = some true ∨ c = b := by
  rw [Array.getElem?_setIfInBounds]
  by_cases hc : b = c
  · subst hc
    simp [hb]
  · simp [hc, Ne.symm hc]

theorem exists_met (ends : List Nat) (m : Marking) (h : ∀ c ∈ ends, c < m.marks.size) :
    ∃ n, ends.foldlM meet? m = some n ∧ m.Met ends n := by
  induction ends generalizing m with
  | nil => exact ⟨m, rfl, rfl, by simp, by simp, rfl⟩
  | cons c ends ih =>
    have hc := h c List.mem_cons_self
    rw [List.foldlM_cons]
    -- The first edge leads to a marked node or to a new one; the rest goes on from there.
    cases hmark : m.marks[c] with
    | true =>
      have hget : m.marks[c]? = some true := Array.getElem?_eq_some_iff.mpr ⟨hc, hmark⟩
      obtain ⟨n, hn, hmet⟩ := ih m fun e he => h e (List.mem_cons_of_mem c he)
      refine ⟨n, by simpa [meet?, hget] using hn, hmet.size, ?_, ?_, hmet.count⟩
      · intro b
        rw [hmet.marks, List.mem_cons]
        grind
      · intro b
        rw [hmet.todo, List.mem_cons]
        grind
    | false =>
      have hget : m.marks[c]? = some false := Array.getElem?_eq_some_iff.mpr ⟨hc, hmark⟩
      have hset := getElem?_set_true hc
      obtain ⟨n, hn, hmet⟩ := ih ⟨m.marks.setIfInBounds c true, c :: m.todo⟩ fun e he => by
        rw [Array.size_setIfInBounds]
        exact h e (List.mem_cons_of_mem c he)
      refine ⟨n, by simpa [meet?, hget] using hn, ?_, ?_, ?_, ?_⟩
      · rw [hmet.size, Array.size_setIfInBounds]
      · intro b
        rw [hmet.marks, hset, List.mem_cons, or_assoc]
      · intro b
        rw [hmet.todo, List.mem_cons, List.mem_cons]
        simp only [ne_eq, hset]
        grind
      · rw [hmet.count, List.length_cons]
        have := count_set_true hget
        dsimp only
        omega

/-- Marked nodes are reached, and the edges of those that do not wait have been followed. -/
structure Sound (g : Graph) (m : Marking) : Prop where
  size : m.marks.size = g.size
  zero : m.marks[0]? = some true
  reached : ∀ b : Nat, m.marks[b]? = some true → g.Reaches b
  waiting : ∀ b ∈ m.todo, m.marks[b]? = some true
  followed : ∀ b c : Nat, m.marks[b]? = some true → b ∉ m.todo → c ∈ g.succ b →
    m.marks[c]? = some true

variable {g : Graph}

theorem sound_start (hpos : 0 < g.size) : Sound g (start g.size) := by
  have hmark : ∀ b : Nat, (start g.size).marks[b]? = some true ↔ b = 0 := by
    intro b
    rw [start, getElem?_set_true (by rwa [Array.size_replicate]), Array.getElem?_replicate]
    split <;> simp
  refine ⟨?_, (hmark 0).mpr rfl, ?_, ?_, ?_⟩
  · rw [start, Array.size_setIfInBounds, Array.size_replicate]
  · intro b hb
    rw [hmark] at hb
    exact hb ▸ ⟨[], .start⟩
  · intro b hb
    exact (hmark b).mpr (List.mem_singleton.mp hb)
  · intro b c hb hnot
    rw [hmark] at hb
    exact absurd (hb ▸ List.mem_singleton_self 0) hnot

/-- Following the edges of a waiting node. -/
theorem Sound.turn (hg : g.Closed) {marks : Array Bool} {b : Nat} {rest : List Nat} {n : Marking}
    (h : Sound g ⟨marks, b :: rest⟩) (hn : Met ⟨marks, rest⟩ (g.succ b) n) : Sound g n := by
  have hb := h.waiting b List.mem_cons_self
  refine ⟨hn.size.trans h.size, (hn.marks 0).mpr (Or.inl h.zero), ?_, ?_, ?_⟩
  · intro c hc
    rcases (hn.marks c).mp hc with hold | hnew
    · exact h.reached c hold
    · obtain ⟨before, hw⟩ := h.reached b hb
      exact ⟨b :: before, hw.step hnew (hg b c hnew)⟩
  · intro c hc
    rw [hn.marks]
    rcases (hn.todo c).mp hc with hold | ⟨hnew, -⟩
    · exact Or.inl (h.waiting c (List.mem_cons_of_mem b hold))
    · exact Or.inr hnew
  · intro c e hc hnot he
    rw [hn.marks]
    have hold : marks[c]? = some true := by
      rcases (hn.marks c).mp hc with hold | hnew
      · exact hold
      · -- A node that has just been marked would wait.
        by_contra hunmarked
        exact hnot ((hn.todo c).mpr (Or.inr ⟨hnew, hunmarked⟩))
    by_cases hcb : c = b
    · exact Or.inr (hcb ▸ he)
    · refine Or.inl (h.followed c e hold ?_ he)
      intro hmem
      rcases List.mem_cons.mp hmem with heq | hrest
      · exact hcb heq
      · exact hnot ((hn.todo c).mpr (Or.inl hrest))

/-- When no node waits, the marked nodes are those that a walk reaches. -/
theorem Sound.marks_iff {marks : Array Bool} (h : Sound g ⟨marks, []⟩) (b : Nat) :
    marks[b]? = some true ↔ g.Reaches b := by
  constructor
  · exact h.reached b
  · rintro ⟨before, hw⟩
    induction hw with
    | start => exact h.zero
    | step hw hc hlt ih => exact h.followed _ _ ih List.not_mem_nil hc

theorem exists_mark? (hg : g.Closed) {fuel : Nat} {m : Marking} (h : Sound g m)
    (hfuel : m.marks.count false + m.todo.length < fuel) :
    ∃ marks, g.mark? fuel m = some marks ∧ marks.size = g.size ∧
      ∀ b : Nat, marks[b]? = some true ↔ g.Reaches b := by
  -- Each turn takes one node from those that are not marked or wait.
  induction fuel generalizing m with
  | zero => omega
  | succ fuel ih =>
    obtain ⟨marks, todo⟩ := m
    cases todo with
    | nil => exact ⟨marks, rfl, h.size, h.marks_iff⟩
    | cons b rest =>
      obtain ⟨n, hn, hmet⟩ := exists_met (g.succ b) ⟨marks, rest⟩ fun c hc =>
        h.size ▸ hg b c hc
      have hcount := hmet.count
      dsimp only [List.length_cons] at hfuel hcount
      obtain ⟨marks', hmarks', hspec⟩ := ih (h.turn hg hmet) (by omega)
      refine ⟨marks', ?_, hspec⟩
      rw [mark?]
      simp only [hn]
      exact hmarks'

end Marking

/-! ## 3. Predecessors -/

/-- The list of a node has the other one. -/
def Listed (lists : Array (Array Nat)) (c b : Nat) : Prop := b ∈ lists[c]?.getD #[]

theorem listed_modify {lists : Array (Array Nat)} {b c : Nat} (hc : c < lists.size) (e p : Nat) :
    Listed (lists.modify c (·.push b)) e p ↔ Listed lists e p ∨ e = c ∧ p = b := by
  unfold Listed
  rw [Array.getElem?_modify]
  by_cases hce : c = e
  · subst hce
    rw [if_pos rfl, Array.getElem?_eq_getElem hc]
    simp
  · rw [if_neg hce]
    simp [Ne.symm hce]

theorem exists_addPredecessors (b : Nat) (ends : List Nat) (lists : Array (Array Nat))
    (h : ∀ c ∈ ends, c < lists.size) :
    ∃ lists', ends.foldlM (addPredecessor? b) lists = some lists' ∧ lists'.size = lists.size ∧
      ∀ c p, Listed lists' c p ↔ Listed lists c p ∨ c ∈ ends ∧ p = b := by
  induction ends generalizing lists with
  | nil => exact ⟨lists, rfl, rfl, by simp⟩
  | cons c ends ih =>
    have hc := h c List.mem_cons_self
    obtain ⟨lists', hrest, hsize, hlisted⟩ := ih (lists.modify c (·.push b)) fun e he => by
      rw [Array.size_modify]
      exact h e (List.mem_cons_of_mem c he)
    refine ⟨lists', ?_, by rw [hsize, Array.size_modify], ?_⟩
    · rw [List.foldlM_cons, addPredecessor?, if_pos hc]
      exact hrest
    · intro e p
      rw [hlisted, listed_modify hc, List.mem_cons]
      grind

theorem exists_predecessors? {g : Graph} (hg : g.Closed) (marks : Array Bool) :
    ∃ lists, g.predecessors? marks = some lists ∧ lists.size = g.size ∧
      ∀ c p, Listed lists c p ↔ p < g.size ∧ marks[p]? = some true ∧ c ∈ g.succ p := by
  -- The fold over some nodes adds their edges to whatever is listed already.
  have hfold : ∀ (nodes : List Nat) (lists : Array (Array Nat)), lists.size = g.size →
      ∃ lists', nodes.foldlM (fun lists b => if marks[b]? = some true
          then (g.succ b).foldlM (addPredecessor? b) lists else some lists) lists = some lists' ∧
        lists'.size = g.size ∧ ∀ c p, Listed lists' c p ↔
          Listed lists c p ∨ p ∈ nodes ∧ marks[p]? = some true ∧ c ∈ g.succ p := by
    intro nodes
    induction nodes with
    | nil =>
      intro lists hsize
      exact ⟨lists, rfl, hsize, by simp⟩
    | cons b nodes ih =>
      intro lists hsize
      rw [List.foldlM_cons]
      by_cases hb : marks[b]? = some true
      · rw [if_pos hb]
        obtain ⟨lists₁, hadd, hsize₁, hlisted₁⟩ := exists_addPredecessors b (g.succ b) lists
          fun c hc => hsize ▸ hg b c hc
        obtain ⟨lists₂, hrest, hsize₂, hlisted₂⟩ := ih lists₁ (hsize₁.trans hsize)
        refine ⟨lists₂, by simpa [hadd] using hrest, hsize₂, ?_⟩
        intro c p
        rw [hlisted₂, hlisted₁, List.mem_cons]
        grind
      · rw [if_neg hb]
        obtain ⟨lists₂, hrest, hsize₂, hlisted₂⟩ := ih lists hsize
        refine ⟨lists₂, by simpa using hrest, hsize₂, ?_⟩
        intro c p
        rw [hlisted₂, List.mem_cons]
        grind
  obtain ⟨lists, hlists, hsize, hlisted⟩ := hfold (List.range g.size) _ Array.size_replicate
  refine ⟨lists, hlists, hsize, ?_⟩
  intro c p
  rw [hlisted, List.mem_range]
  have hempty : ¬ Listed (Array.replicate g.size #[]) c p := by
    unfold Listed
    rw [Array.getElem?_replicate]
    split <;> exact Array.not_mem_empty p
  simp only [hempty, false_or]

end RegIR
