/-
# Checks of networks and orders

Three checks that do not depend on how an order was found: whether a network runs in circles,
whether a list of nodes holds every node once, and whether such a list respects the arcs.  The
first follows the lists of successors depth first, the last reads the arcs.
-/
import Lineup.Network.Basic

namespace Lineup

/-- How far the depth-first search has come with a node. -/
inductive Mark where
  /-- The node was not reached yet. -/
  | fresh
  /-- The node lies on the path that is being followed. -/
  | onPath
  /-- Everything behind the node has been followed. -/
  | done
deriving DecidableEq, Repr

/-- Why a depth-first search stops early. -/
inductive Halt where
  /-- The path came back to a node that lies on it. -/
  | loop
  /-- The network has no such node. -/
  | broken (b : Breach)
deriving DecidableEq, Repr

namespace Network

/-- Follows everything behind `v` with a path of at most `room` further nodes.  A path that has
used up as many nodes as there are has come back on itself. -/
def explore (g : Network) : Nat → List Mark → Nat → Except Halt (List Mark)
  | 0, _, _ => .error .loop
  | room + 1, marks, v =>
    match marks[v]? with
    | none => .error (.broken (.noSuchNode v))
    | some .onPath => .error .loop
    | some .done => .ok marks
    | some .fresh =>
      match g.successors v with
      | .error b => .error (.broken b)
      | .ok out =>
        match out.foldlM (explore g room) (marks.set v .onPath) with
        | .error halt => .error halt
        | .ok marks => .ok (marks.set v .done)

/-- Whether no path along the successors comes back on itself.  The search starts at every node in
ascending order and stops at the first loop. -/
def acyclic (g : Network) : Except Breach Bool :=
  match (List.range g.size).foldlM (explore g (g.size + 1)) (List.replicate g.size .fresh) with
  | .ok _ => .ok true
  | .error .loop => .ok false
  | .error (.broken b) => .error b

/-- Whether a list holds nodes of the network only, none of them twice. -/
def lists (g : Network) (order : List Nat) : Bool :=
  order.all (· < g.size) && decide order.Nodup

/-- Whether a list holds every node of the network exactly once. -/
def covers (g : Network) (order : List Nat) : Bool :=
  order.length == g.size && g.lists order

def ahead (order : List Nat) (a b : Nat) : Bool :=
  match order.idxOf? a, order.idxOf? b with
  | some i, some j => i < j
  | _, _ => false

/-- Whether every arc starts ahead of its end.  The arcs are read in order, up to the first one
that does not; its ends must exist. -/
def forward (g : Network) (order : List Nat) : List (Nat × Nat) → Except Breach Bool
  | [] => .ok true
  | (a, b) :: arcs =>
    if g.size ≤ a then .error (.noSuchNode a)
    else if g.size ≤ b then .error (.noSuchNode b)
    else if ahead order a b then forward g order arcs
    else .ok false

/-- Whether a list of nodes, none of them twice, respects the arcs of the network. -/
def respects (g : Network) (order : List Nat) : Except Breach Bool :=
  if g.lists order then g.forward order g.arcs else .ok false

theorem covers_iff {g : Network} {order : List Nat} :
    g.covers order = true ↔
      order.length = g.size ∧ (∀ v ∈ order, v < g.size) ∧ order.Nodup := by
  simp [covers, lists]

end Network

end Lineup
