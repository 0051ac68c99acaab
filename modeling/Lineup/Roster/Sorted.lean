/-
# The line of a roster

The entries of a roster are put in line by the release of the nodes of its network.  An order is
checked before it is handed out; nodes that are blocked are reported as a tangle.
-/
import Lineup.Roster.Basic
import Lineup.Listing.Arcs
import Lineup.Network.Release
import Lineup.Network.Check

namespace Lineup

namespace Listing

variable {N V : Type}

/-- The spot of a node that must exist. -/
def spotOf (l : Listing N V) (v : Nat) : Except Breach (Spot N) :=
  match l.spotAt? v with
  | some s => .ok s
  | none => .error (.noSuchNode v)

/-- The entries of the nodes of an order that are not anchors, with their names. -/
def inLine (l : Listing N V) (order : List Nat) : Except Breach (List (N × V)) :=
  (order.filter (2 ≤ ·)).mapM fun v =>
    match l.entryAt? v with
    | some e => .ok (e.name, e.value)
    | none => .error (.noSuchNode v)

/-- The tangle of blocked nodes: each with the spots that all its arcs lead to. -/
def tangle (l : Listing N V) (g : Network) (rest : List Nat) : Except Breach (Tangle N) :=
  Tangle.mk <$> rest.mapM fun v => do
    let behind ← (← g.successors v).mapM l.spotOf
    return (← l.spotOf v, behind)

end Listing

/-- Passes an order on once it has stood all three checks. -/
def Network.verify (g : Network) (order : List Nat) : Except Breach Unit := do
  unless ← g.acyclic do throw .unverified
  unless g.covers order do throw .unverified
  unless ← g.respects order do throw .unverified

/-- The entries of a roster in an order that respects all their bounds. -/
def Roster.sorted {N V : Type} [BEq N] (r : Roster N V) :
    Except (Failure N) (List (N × V)) := do
  let g ← r.entries.network
  match ← Failure.ofBreach g.release with
  | .blocked rest =>
    let t ← Failure.ofBreach (r.entries.tangle g rest)
    throw (.refused (.tangled t))
  | .complete order =>
    Failure.ofBreach (g.verify order)
    Failure.ofBreach (r.entries.inLine order)

end Lineup
