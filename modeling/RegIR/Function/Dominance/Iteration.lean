import RegIR.Function.Dominance
/-!
# Dominators by iteration

Two loops compute the table of dominators.  The first marks the nodes that it meets along the edges
from node 0.  The second starts from full rows and goes over the nodes again and again: it takes
from the row of a node what the row of a predecessor lacks, until a round changes nothing.  A loop
is given a number of turns and has no result when they do not suffice; nor has it one when an edge
leads to a number that is no node.
-/

namespace RegIR

/-- The marked nodes, and those of them whose edges are still to be followed, latest first. -/
structure Marking where
  marks : Array Bool
  todo : List Nat

namespace Marking

def start (size : Nat) : Marking := ⟨(Array.replicate size false).setIfInBounds 0 true, [0]⟩

/-- Marks the end of an edge, and keeps it for later unless it was marked before. -/
def meet? (m : Marking) (b : Nat) : Option Marking :=
  match m.marks[b]? with
  | none => none
  | some true => some m
  | some false => some ⟨m.marks.setIfInBounds b true, b :: m.todo⟩

end Marking

/-- For each reachable node a row of truth values. -/
abbrev Rows := Array (Option (Array Bool))

/-- The marked nodes, and for each node the marked ones with an edge to it. -/
structure Flow where
  marks : Array Bool
  predecessors : Array (Array Nat)

/-- The rows in the course of a round, and whether it has changed one. -/
structure Sweep where
  rows : Rows
  changed : Bool

namespace Flow

/-- Node 0 is its only dominator.  Every other marked node has a full row. -/
def start (w : Flow) : Rows :=
  let rows := w.marks.map fun mark =>
    if mark then some (Array.replicate w.marks.size true) else none
  rows.setIfInBounds 0 (some ((Array.replicate w.marks.size false).setIfInBounds 0 true))

/-- Clears in a row what another one lacks. -/
def intersect (row other : Array Bool) : Array Bool :=
  row.mapIdx fun d bit => bit && other[d]?.getD true

/-- What the row of a predecessor leaves of a row. -/
def behind (rows : Rows) (row : Array Bool) (p : Nat) : Array Bool :=
  match rows[p]? with
  | some (some other) => intersect row other
  | _ => row

/-- The nodes in the rows of all predecessors, and the node itself. -/
def revised (w : Flow) (rows : Rows) (b : Nat) : Array Bool :=
  let full := Array.replicate w.marks.size true
  ((w.predecessors[b]?.getD #[]).foldl (behind rows) full).setIfInBounds b true

/-- Revises the row of one node, where it stands. -/
def revise (w : Flow) (s : Sweep) (b : Nat) : Sweep :=
  if w.marks[b]? = some true then
    let row := w.revised s.rows b
    if s.rows[b]? = some (some row) then s else ⟨s.rows.setIfInBounds b (some row), true⟩
  else s

/-- Revises all rows but the first, each with what the ones before it have become. -/
def round (w : Flow) (rows : Rows) : Sweep :=
  (List.range' 1 (w.marks.size - 1)).foldl w.revise ⟨rows, false⟩

/-- Goes on until a round changes nothing. -/
def settle? (w : Flow) : Nat → Rows → Option Rows
  | 0, _ => none
  | fuel + 1, rows =>
    let s := w.round rows
    if s.changed then w.settle? fuel s.rows else some s.rows

end Flow

namespace Graph

/-- Follows the edges of waiting nodes until none is left. -/
def mark? (g : Graph) : Nat → Marking → Option (Array Bool)
  | 0, _ => none
  | fuel + 1, ⟨marks, todo⟩ =>
    match todo with
    | [] => some marks
    | b :: rest =>
      match (g.succ b).foldlM Marking.meet? ⟨marks, rest⟩ with
      | none => none
      | some m => g.mark? fuel m

def addPredecessor? (b : Nat) (lists : Array (Array Nat)) (c : Nat) :
    Option (Array (Array Nat)) :=
  if c < lists.size then some (lists.modify c (·.push b)) else none

/-- For each node the marked nodes with an edge to it, once for each edge. -/
def predecessors? (g : Graph) (marks : Array Bool) : Option (Array (Array Nat)) :=
  (List.range g.size).foldlM (fun lists b =>
    if marks[b]? = some true then (g.succ b).foldlM (addPredecessor? b) lists else some lists)
    (Array.replicate g.size #[])

/-- For each reachable node the set of its dominators, if each loop ends within `fuel` turns. -/
def settledRows? (g : Graph) (fuel : Nat) : Option Rows :=
  if g.size = 0 then none
  else do
    let marks ← g.mark? fuel (.start g.size)
    let predecessors ← g.predecessors? marks
    let w : Flow := ⟨marks, predecessors⟩
    w.settle? fuel w.start

end Graph

end RegIR
