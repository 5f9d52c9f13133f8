import RegIR.Function
/-!
# Dominance

Control enters a function at block 0 and leaves a block through its terminator.  A block is
reachable when some path from block 0 leads to it.  Block `d` dominates a reachable block `b`
when every such path visits `d`, that is, when cutting `d` out of the graph cuts off `b`.
-/

namespace RegIR

/-- A directed graph on the numbers below `size`; edges to other numbers lead nowhere. -/
structure Graph where
  size : Nat
  succ : Nat → List Nat

namespace Graph

/-- Marks everything that can be reached from `todo` through unmarked nodes. -/
def explore (g : Graph) (marked : Array Bool) (todo : List Nat) : Array Bool :=
  match todo with
  | [] => marked
  | b :: rest =>
    if h : marked[b]? = some false then
      have hb : b < marked.size := (Array.getElem?_eq_some_iff.mp h).1
      g.explore (marked.set b true) (g.succ b ++ rest)
    else g.explore marked rest
  termination_by (marked.count false, todo.length)
  decreasing_by
    · -- One more node is marked.
      apply Prod.Lex.left
      have hget : marked[b] = false := (Array.getElem?_eq_some_iff.mp h).2
      have hpos : 0 < marked.count false :=
        Array.count_pos_iff.mpr (hget ▸ Array.getElem_mem hb)
      have hcount : (marked.set b true).count false = marked.count false - 1 := by
        rw [Array.count_set, hget]
        rfl
      rw [hcount]
      exact Nat.sub_lt hpos Nat.one_pos
    · -- Nothing is marked, and `todo` is shorter.
      apply Prod.Lex.right
      exact Nat.lt_succ_self rest.length

/-- The nodes on paths from node 0. -/
def reachable (g : Graph) : Array Bool := g.explore (Array.replicate g.size false) [0]

/-- The nodes on paths from node 0 that do not pass `cut`, and `cut` itself. -/
def reachableAround (g : Graph) (cut : Nat) : Array Bool :=
  g.explore ((Array.replicate g.size false).setIfInBounds cut true) [0]

/-- For each reachable node the set of its dominators, as a row of truth values. -/
def dominators (g : Graph) : Array (Option (Array Bool)) :=
  let reach := g.reachable
  let around := (Array.range g.size).map g.reachableAround
  (Array.range g.size).map fun b =>
    if reach[b]? = some true then
      some ((Array.range g.size).map fun d =>
        d == b || !(((around[d]?.getD #[])[b]?).getD true))
    else none

end Graph

/-- The graph of a function's blocks. -/
def Definition.graph (f : Definition) : Graph where
  size := f.blocks.size
  succ b :=
    match f.blocks[b]? with
    | none => []
    | some block =>
      match block.terminator? with
      | none => []
      | some op => op.successors.map BlockId.index

end RegIR
