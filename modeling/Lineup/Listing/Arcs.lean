/-
# The arcs of a listing

An arc leads from a node to one that stands behind it.  The first anchor stands ahead of the last.
Every bound whose spot is in the listing gives an arc; a spot that names no entry gives none.  An
entry that declared a side has to be met by an arc there, whoever declared that arc.
-/
import Lineup.Listing.Basic
import Lineup.Refusal.Basic

namespace Lineup.Listing

variable {N V : Type} [BEq N]

/-- The arcs that the entry at position `i` declares: into it from the spots that it stands after,
then out of it to the spots that it stands before. -/
def entryArcs (l : Listing N V) (e : Entry N V) (i : Nat) : List (Nat × Nat) :=
  ((e.bounds.targets .after).filterMap l.node?).map (·, entryNode i) ++
    ((e.bounds.targets .before).filterMap l.node?).map (entryNode i, ·)

/-- All arcs: between the anchors, then those of each entry in order. -/
def arcs (l : Listing N V) : List (Nat × Nat) :=
  (firstNode, lastNode) :: l.zipIdx.flatMap fun (e, i) => l.entryArcs e i

/-- The end of an arc that meets the given side of a node: an arc leaves what stands before. -/
def endAt (side : Side) (arc : Nat × Nat) : Nat :=
  match side with
  | .before => arc.1
  | .after => arc.2

/-- The names of the entries that declared a side on which no arc meets them. -/
def unmet (l : Listing N V) (side : Side) : List N :=
  let met := l.arcs.map (endAt side)
  l.zipIdx.filterMap fun (e, i) =>
    if e.bounds.declares side && !met.contains (entryNode i) then some e.name else none

/-- The first reason to refuse a listing: entries with nothing behind them though they asked for
it, ahead of entries with nothing ahead of them. -/
def objection? (l : Listing N V) : Option (Refusal N) :=
  match l.unmet .before, l.unmet .after with
  | name :: names, _ => some (.unmet .before (name :: names))
  | [], name :: names => some (.unmet .after (name :: names))
  | [], [] => none

/-- The network of a listing, unless there is an objection to it. -/
def network (l : Listing N V) : Except (Failure N) Network := do
  let g ← Failure.ofBreach (Network.ofArcs l.nodeCount l.arcs)
  match l.objection? with
  | some reason => throw (.refused reason)
  | none => return g

end Lineup.Listing
