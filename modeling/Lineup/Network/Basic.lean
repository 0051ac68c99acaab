/-
# Networks

A network has nodes that are numbered from zero and arcs between them.  Beside the arcs in the
order in which they were laid it keeps, for every node, the ends of the arcs that leave it and the
count of those that enter it.  Laying arcs one by one keeps the three views in step; a network that
is put together by hand may contradict itself, and whoever reads it says so by a *breach*.
-/

namespace Lineup

/-- What stops work on a network whose parts do not fit together. -/
inductive Breach where
  /-- A node was asked for that does not exist. -/
  | noSuchNode (v : Nat)
  /-- More arcs arrived at a node than its count allows. -/
  | overdrawn (v : Nat)
  /-- A finished order failed its check. -/
  | unverified
deriving DecidableEq, Repr

/-- Nodes and the arcs between them. -/
structure Network where
  /-- The arcs in the order in which they were laid, each from its start to its end. -/
  arcs : List (Nat × Nat)
  /-- For every node the ends of the arcs that leave it. -/
  next : List (List Nat)
  /-- For every node the number of arcs that enter it. -/
  incoming : List Nat
deriving DecidableEq, Repr

namespace Network

def size (g : Network) : Nat := g.incoming.length

/-- The network of `n` nodes without an arc. -/
def blank (n : Nat) : Network :=
  ⟨[], List.replicate n [], List.replicate n 0⟩

/-- Lays an arc, both of whose ends must exist. -/
def addArc (g : Network) (arc : Nat × Nat) : Except Breach Network :=
  match g.next[arc.1]? with
  | none => .error (.noSuchNode arc.1)
  | some out =>
    match g.incoming[arc.2]? with
    | none => .error (.noSuchNode arc.2)
    | some k => .ok
      { arcs := g.arcs ++ [arc]
        next := g.next.set arc.1 (out ++ [arc.2])
        incoming := g.incoming.set arc.2 (k + 1) }

/-- The network of `n` nodes in which `arcs` are laid in order. -/
def ofArcs (n : Nat) (arcs : List (Nat × Nat)) : Except Breach Network :=
  arcs.foldlM addArc (blank n)

/-- The ends of the arcs that leave a node. -/
def successors (g : Network) (v : Nat) : Except Breach (List Nat) :=
  match g.next[v]? with
  | none => .error (.noSuchNode v)
  | some out => .ok out

/-- The nodes that no arc enters, in ascending order. -/
def roots (g : Network) : List Nat :=
  (List.range g.size).filter fun v => g.incoming[v]? == some 0

@[simp] theorem size_blank (n : Nat) : (blank n).size = n := by
  simp [size, blank]

theorem successors_eq_ok {g : Network} {v : Nat} {out : List Nat} :
    g.successors v = .ok out ↔ g.next[v]? = some out := by
  unfold successors
  split <;> simp_all

theorem mem_roots {g : Network} {v : Nat} : v ∈ g.roots ↔ g.incoming[v]? = some 0 := by
  simp only [roots, size, List.mem_filter, List.mem_range, beq_iff_eq, and_iff_right_iff_imp]
  intro h
  exact (List.getElem?_eq_some_iff.1 h).1

theorem addArc_of_lt {g : Network} {a b : Nat} (ha : a < g.next.length) (hb : b < g.size) :
    g.addArc (a, b) = .ok
      { arcs := g.arcs ++ [(a, b)]
        next := g.next.set a (g.next[a] ++ [b])
        incoming := g.incoming.set b (g.incoming[b] + 1) } := by
  have hb' : b < g.incoming.length := hb
  simp only [addArc, List.getElem?_eq_getElem ha, List.getElem?_eq_getElem hb']
  rfl

end Network

end Lineup
