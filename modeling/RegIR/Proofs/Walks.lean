import RegIR.Function.Validation
/-!
# Walks and dominance

A walk follows the edges of a graph from node 0.  The marking search finds the nodes that a walk
reaches without meeting a node marked before, and no others, so the computed dominators of a node
are the nodes on every walk to it.
-/

namespace RegIR.Graph

/-- The walks from node 0: the nodes left so far, latest first, and the node reached. -/
inductive Walk (g : Graph) : List Nat → Nat → Prop
  | start : Walk g [] 0
  | step {before : List Nat} {b c : Nat} (h : Walk g before b) (hc : c ∈ g.succ b)
      (hlt : c < g.size) : Walk g (b :: before) c

/-- Some walk leads to the node. -/
def Reaches (g : Graph) (b : Nat) : Prop := ∃ before, g.Walk before b

/-- Every walk to `b` visits `d`. -/
def Dominates (g : Graph) (d b : Nat) : Prop := ∀ before, g.Walk before b → d = b ∨ d ∈ before

/-! ## 1. The marking search -/

/-- What the marks of a search satisfy, given those that it started from. -/
structure Explored (g : Graph) (marked : Array Bool) (todo : List Nat) (marks : Array Bool) :
    Prop where
  size : marks.size = marked.size
  keeps : ∀ b : Nat, marked[b]? = some true → marks[b]? = some true
  starts : ∀ b ∈ todo, b < marked.size → marks[b]? = some true
  closed : ∀ b c : Nat, marks[b]? = some true → marked[b]? ≠ some true → c ∈ g.succ b →
    c < marked.size → marks[c]? = some true

theorem explored_explore (g : Graph) (marked : Array Bool) (todo : List Nat) :
    g.Explored marked todo (g.explore marked todo) := by
  -- Along the search itself: it is out of nodes, it marks a node, or it drops one.
  induction marked, todo using explore.induct (g := g) with
  | case1 marked =>
    rw [explore]
    refine ⟨rfl, fun _ h => h, ?_, ?_⟩
    · intro b hb
      cases hb
    · intro b c hb hnot
      exact absurd hb hnot
  | case2 marked b rest h hb ih =>
    rw [explore, dif_pos h]
    have hsize : (marked.set b true hb).size = marked.size := Array.size_set _
    -- The marks before the recursive call are those of the start and `b`.
    have hset : ∀ c : Nat, (marked.set b true hb)[c]? = some true ↔
        c = b ∨ marked[c]? = some true := by
      intro c
      rw [Array.getElem?_set]
      by_cases hc : b = c
      · simp [hc]
      · simp [hc, Ne.symm hc]
    refine ⟨ih.size.trans hsize, ?_, ?_, ?_⟩
    · intro c hc
      exact ih.keeps c ((hset c).mpr (Or.inr hc))
    · intro c hc hlt
      rcases List.mem_cons.mp hc with rfl | hrest
      · exact ih.keeps c ((hset c).mpr (Or.inl rfl))
      · exact ih.starts c (List.mem_append_right _ hrest) (by rw [hsize]; exact hlt)
    · intro c e hc hnot he hlt
      by_cases hcb : c = b
      · subst hcb
        exact ih.starts e (List.mem_append_left _ he) (by rw [hsize]; exact hlt)
      · refine ih.closed c e hc ?_ he (by rw [hsize]; exact hlt)
        intro hmark
        rcases (hset c).mp hmark with h' | h'
        · exact hcb h'
        · exact hnot h'
  | case3 marked b rest h ih =>
    rw [explore, dif_neg h]
    refine ⟨ih.size, ih.keeps, ?_, ih.closed⟩
    intro c hc hlt
    rcases List.mem_cons.mp hc with rfl | hrest
    · -- The node is not unmarked, so it was marked at the start.
      refine ih.keeps c ?_
      rw [Array.getElem?_eq_getElem hlt] at h ⊢
      cases hmark : marked[c]
      · exact absurd (congrArg some hmark) h
      · rfl
    · exact ih.starts c hrest hlt

/-- A search from node 0 marks what a walk reaches through nodes that were not marked. -/
theorem Explored.of_walk {g : Graph} {marked marks : Array Bool} (h : g.Explored marked [0] marks)
    (hsize : marked.size = g.size) (hpos : 0 < g.size) {before : List Nat} {b : Nat}
    (hw : g.Walk before b) (hclear : ∀ c ∈ before, marked[c]? ≠ some true) :
    marks[b]? = some true := by
  -- Along the walk: each node left so far was clear, so its successors got marked.
  induction hw with
  | start => exact h.starts 0 (List.mem_singleton_self 0) (by rw [hsize]; exact hpos)
  | step hw hc hlt ih =>
    rename_i before b c
    have hb := ih fun d hd => hclear d (List.mem_cons_of_mem _ hd)
    exact h.closed b c hb (hclear b List.mem_cons_self) hc (by rw [hsize]; exact hlt)

theorem lt_size_of_walk {g : Graph} (hpos : 0 < g.size) {before : List Nat} {b : Nat}
    (hw : g.Walk before b) : b < g.size := by
  cases hw with
  | start => exact hpos
  | step _ _ hlt => exact hlt

/-! ## 2. Dominators -/

theorem reachable_of_walk {g : Graph} (hpos : 0 < g.size) {before : List Nat} {b : Nat}
    (hw : g.Walk before b) : g.reachable[b]? = some true := by
  refine (explored_explore g _ [0]).of_walk Array.size_replicate hpos hw ?_
  intro c _ hc
  rw [Array.getElem?_replicate] at hc
  split at hc
  · cases hc
  · cases hc

/-- A walk that does not leave the cut node is found around it. -/
theorem reachableAround_of_walk {g : Graph} (hpos : 0 < g.size) {cut : Nat} {before : List Nat}
    {b : Nat} (hw : g.Walk before b) (hcut : cut ∉ before) :
    (g.reachableAround cut)[b]? = some true := by
  refine (explored_explore g _ [0]).of_walk ?_ hpos hw ?_
  · rw [Array.size_setIfInBounds, Array.size_replicate]
  · intro c hc hmark
    have hne : cut ≠ c := fun h => hcut (h ▸ hc)
    rw [Array.getElem?_setIfInBounds, if_neg hne, Array.getElem?_replicate] at hmark
    split at hmark
    · cases hmark
    · cases hmark

/-- A node that a walk reaches has a row, which tells the nodes around which it is lost. -/
theorem dominators_of_walk {g : Graph} (hpos : 0 < g.size) {before : List Nat} {b : Nat}
    (hw : g.Walk before b) :
    g.dominators[b]? = some (some ((Array.range g.size).map fun d =>
      d == b || !(((((Array.range g.size).map g.reachableAround)[d]?.getD #[])[b]?).getD true))) := by
  rw [dominators, Array.getElem?_map, Array.getElem?_range, if_pos (lt_size_of_walk hpos hw),
    Option.map_some, if_pos (reachable_of_walk hpos hw)]

/-- The nodes of a row dominate. -/
theorem dominates_of_dominators {g : Graph} (hpos : 0 < g.size) {b d : Nat} {row : Array Bool}
    (hrow : g.dominators[b]? = some (some row)) (hd : row[d]?.getD false = true) :
    g.Dominates d b := by
  intro before hw
  -- On a walk that misses `d`, the search around `d` would have found `b`.
  by_cases hcut : d ∈ before
  · exact Or.inr hcut
  · left
    rw [dominators_of_walk hpos hw] at hrow
    cases hrow
    by_cases hds : d < g.size
    · have hrange : (Array.range g.size)[d]? = some d := by
        rw [Array.getElem?_range, if_pos hds]
      rw [Array.getElem?_map, hrange, Option.map_some, Option.getD_some, Array.getElem?_map, hrange,
        Option.map_some, Option.getD_some, reachableAround_of_walk hpos hw hcut] at hd
      simpa using hd
    · rw [Array.getElem?_eq_none (by simp; omega)] at hd
      cases hd

/-! ## 3. Nothing else is marked -/

/-- Some walk leads to the node through nodes that are not marked. -/
def ReachesClear (g : Graph) (marked : Array Bool) (b : Nat) : Prop :=
  ∃ before, g.Walk before b ∧ ∀ c ∈ before, marked[c]? ≠ some true

/-- A search from nodes that are reached marks only nodes that are. -/
theorem reachesClear_of_explore {g : Graph} {start marked : Array Bool} {todo : List Nat}
    (hsize : marked.size = g.size) (hstart : ∀ b : Nat, start[b]? = some true → marked[b]? = some true)
    (hmarked : ∀ b : Nat, marked[b]? = some true → start[b]? = some true ∨ g.ReachesClear start b)
    (htodo : ∀ b ∈ todo, b < g.size → g.ReachesClear start b) {b : Nat}
    (hb : (g.explore marked todo)[b]? = some true) :
    start[b]? = some true ∨ g.ReachesClear start b := by
  induction marked, todo using explore.induct (g := g) with
  | case1 marked =>
    rw [explore] at hb
    exact hmarked b hb
  | case2 marked c rest h hc ih =>
    rw [explore, dif_pos h] at hb
    -- The node is unmarked now, and so it was at the start: walks may go on through it.
    obtain ⟨before, hw, hclear⟩ := htodo c List.mem_cons_self (hsize ▸ hc)
    have hcstart : start[c]? ≠ some true := by
      intro hmark
      rw [hstart c hmark] at h
      cases h
    refine ih ((Array.size_set _).trans hsize) ?_ ?_ ?_ hb
    · intro e he
      rw [Array.getElem?_set]
      split
      · rfl
      · exact hstart e he
    · intro e he
      rw [Array.getElem?_set] at he
      split at he
      · rename_i hce
        exact Or.inr (hce ▸ ⟨before, hw, hclear⟩)
      · exact hmarked e he
    · intro e he hlt
      rcases List.mem_append.mp he with hsucc | hrest
      · refine ⟨c :: before, hw.step hsucc hlt, ?_⟩
        intro f hf
        rcases List.mem_cons.mp hf with rfl | hf
        · exact hcstart
        · exact hclear f hf
      · exact htodo e (List.mem_cons_of_mem _ hrest) hlt
  | case3 marked c rest h ih =>
    rw [explore, dif_neg h] at hb
    exact ih hsize hstart hmarked (fun e he => htodo e (List.mem_cons_of_mem _ he)) hb

/-- A search that starts from a part of the marks at node 0. -/
theorem reachesClear_of_explore_zero {g : Graph} {start : Array Bool} (hsize : start.size = g.size)
    {b : Nat} (hb : (g.explore start [0])[b]? = some true) :
    start[b]? = some true ∨ g.ReachesClear start b := by
  refine reachesClear_of_explore hsize (fun _ h => h) (fun _ h => Or.inl h) ?_ hb
  intro c hc _
  cases List.mem_singleton.mp hc
  exact ⟨[], .start, fun c hc => nomatch hc⟩

theorem reaches_of_reachable {g : Graph} {b : Nat} (hb : g.reachable[b]? = some true) :
    g.Reaches b := by
  rcases reachesClear_of_explore_zero Array.size_replicate hb with h | ⟨before, hw, -⟩
  · rw [Array.getElem?_replicate] at h
    split at h <;> cases h
  · exact ⟨before, hw⟩

theorem walk_of_reachableAround {g : Graph} {cut b : Nat} (hcut : cut < g.size) (hne : cut ≠ b)
    (hb : (g.reachableAround cut)[b]? = some true) : ∃ before, g.Walk before b ∧ cut ∉ before := by
  have hsize : ((Array.replicate g.size false).setIfInBounds cut true).size = g.size := by
    rw [Array.size_setIfInBounds, Array.size_replicate]
  rcases reachesClear_of_explore_zero hsize hb with h | ⟨before, hw, hclear⟩
  · rw [Array.getElem?_setIfInBounds, if_neg hne, Array.getElem?_replicate] at h
    split at h <;> cases h
  · refine ⟨before, hw, fun hmem => hclear cut hmem ?_⟩
    rw [Array.getElem?_setIfInBounds, if_pos rfl, if_pos (by rwa [Array.size_replicate])]

/-- Only nodes that are reached have a row. -/
theorem reaches_of_dominators {g : Graph} {b : Nat} {row : Array Bool}
    (hrow : g.dominators[b]? = some (some row)) : g.Reaches b := by
  rw [dominators, Array.getElem?_map] at hrow
  obtain ⟨c, hc, hrow⟩ := Option.map_eq_some_iff.mp hrow
  obtain ⟨hlt, hc⟩ := Array.getElem?_eq_some_iff.mp hc
  rw [Array.getElem_range] at hc
  subst hc
  split at hrow
  · rename_i hreach
    exact reaches_of_reachable hreach
  · cases hrow

/-- Around a node that is missing in the row leads a walk. -/
theorem walk_around_of_dominators {g : Graph} (hpos : 0 < g.size) {b d : Nat} {row : Array Bool}
    (hrow : g.dominators[b]? = some (some row)) (hlt : d < g.size)
    (hd : row[d]?.getD false = false) : ∃ before, g.Walk before b ∧ d ∉ before := by
  obtain ⟨before, hw⟩ := reaches_of_dominators hrow
  rw [dominators_of_walk hpos hw] at hrow
  cases hrow
  have hrange : (Array.range g.size)[d]? = some d := by
    rw [Array.getElem?_range, if_pos hlt]
  rw [Array.getElem?_map, hrange, Option.map_some, Option.getD_some, Array.getElem?_map, hrange,
    Option.map_some, Option.getD_some] at hd
  obtain ⟨hne, hmark⟩ : d ≠ b ∧ (g.reachableAround d)[b]?.getD true = true := by simpa using hd
  -- The search has a mark for every node of the graph, so this one is its own.
  have hsize : (g.reachableAround d).size = g.size := by
    rw [reachableAround, (explored_explore g _ [0]).size, Array.size_setIfInBounds,
      Array.size_replicate]
  have hb : b < (g.reachableAround d).size := hsize ▸ lt_size_of_walk hpos hw
  rw [Array.getElem?_eq_getElem hb, Option.getD_some] at hmark
  exact walk_of_reachableAround hlt hne (by rw [Array.getElem?_eq_getElem hb, hmark])

/-- A node on a walk is reached by a walk that does not come back to it. -/
theorem Walk.exists_first {g : Graph} {before : List Nat} {b : Nat} (hw : g.Walk before b) {c : Nat}
    (hc : c ∈ b :: before) : ∃ before', g.Walk before' c ∧ c ∉ before' := by
  induction hw with
  | start =>
    cases List.mem_singleton.mp hc
    exact ⟨[], .start, List.not_mem_nil⟩
  | @step before b e hw he hlt ih =>
    by_cases hold : c ∈ b :: before
    · exact ih hold
    · -- Only the node at the end can be new.
      rcases List.mem_cons.mp hc with rfl | hc
      · exact ⟨b :: before, hw.step he hlt, hold⟩
      · exact absurd hc hold

theorem Walk.lt_size {g : Graph} (hpos : 0 < g.size) {before : List Nat} {b : Nat}
    (hw : g.Walk before b) {c : Nat} (hc : c ∈ b :: before) : c < g.size := by
  obtain ⟨before', hw', -⟩ := hw.exists_first hc
  exact lt_size_of_walk hpos hw'

end RegIR.Graph
