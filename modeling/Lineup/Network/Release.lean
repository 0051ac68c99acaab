/-
# Release of nodes

Nodes are released from a network one at a time.  A node is ready once every arc that enters it has
been used up.  The ready nodes wait in a row; the front one is emitted, and its arcs are used up in
turn; each node that becomes ready by that goes to the front of the row.  Nodes that are never
emitted are blocked.

The work ends because it uses up the counts of incoming arcs: what still waits, with the ready
nodes beside it, shrinks with every emission.
-/
import Lineup.Network.Basic

namespace Lineup

/-- A stage of the release of nodes. -/
structure Sweep where
  /-- For every node the number of entering arcs that are not yet used up. -/
  waiting : List Nat
  /-- The nodes that can be emitted, the next one in front. -/
  ready : List Nat
  /-- The nodes that were emitted, the earliest in front. -/
  emitted : List Nat
deriving DecidableEq, Repr

inductive Release where
  /-- All nodes were emitted, in this order. -/
  | complete (order : List Nat)
  /-- These nodes could not be emitted, in ascending order. -/
  | blocked (rest : List Nat)
deriving DecidableEq, Repr

namespace Sweep

/-- Uses up one arc into `w`, which becomes ready with the last of its arcs. -/
def arrive (s : Sweep) (w : Nat) : Except Breach Sweep :=
  match s.waiting[w]? with
  | none => .error (.noSuchNode w)
  | some 0 => .error (.overdrawn w)
  | some 1 => .ok { s with waiting := s.waiting.set w 0, ready := w :: s.ready }
  | some (k + 2) => .ok { s with waiting := s.waiting.set w (k + 1) }

/-- The arcs that are not used up. -/
def unused (waiting : List Nat) : Nat := waiting.foldr (· + ·) 0

/-- The arcs that are not used up and the nodes that are ready, counted together. -/
def load (s : Sweep) : Nat := unused s.waiting + s.ready.length

theorem unused_set {l : List Nat} {i a : Nat} (b : Nat) (h : l[i]? = some a) :
    unused (l.set i b) + a = unused l + b := by
  induction l generalizing i with
  | nil => simp at h
  | cons x l ih =>
    cases i with
    | zero =>
      simp only [List.getElem?_cons_zero, Option.some.injEq] at h
      subst h
      simp only [unused, List.set_cons_zero, List.foldr_cons]
      omega
    | succ i =>
      have := ih (List.getElem?_cons_succ ▸ h)
      simp only [unused, List.set_cons_succ, List.foldr_cons] at this ⊢
      omega

theorem load_arrive {s t : Sweep} {w : Nat} (h : s.arrive w = .ok t) : t.load ≤ s.load := by
  unfold arrive at h
  split at h
  · simp at h
  · simp at h
  · rename_i hw
    obtain rfl := Except.ok.inj h
    have := unused_set 0 hw
    simp only [load, List.length_cons]
    omega
  · rename_i k hw
    obtain rfl := Except.ok.inj h
    have := unused_set (k + 1) hw
    simp only [load]
    omega

theorem load_arrivals {out : List Nat} {s t : Sweep} (h : out.foldlM arrive s = .ok t) :
    t.load ≤ s.load := by
  induction out generalizing s with
  | nil =>
    simp only [List.foldlM_nil, pure, Except.pure, Except.ok.injEq] at h
    subst h
    exact Nat.le_refl _
  | cons w out ih =>
    simp only [List.foldlM_cons, bind, Except.bind] at h
    split at h
    · simp at h
    · rename_i u hu
      exact Nat.le_trans (ih h) (load_arrive hu)

/-- Emits ready nodes until none is left, and gives what was emitted. -/
def run (g : Network) (s : Sweep) : Except Breach (List Nat) :=
  match s with
  | ⟨_, [], emitted⟩ => .ok emitted
  | ⟨waiting, v :: ready, emitted⟩ =>
    match g.successors v with
    | .error b => .error b
    | .ok out =>
      match _h : out.foldlM arrive ⟨waiting, ready, emitted ++ [v]⟩ with
      | .error b => .error b
      | .ok t => run g t
termination_by s.load
decreasing_by
  have := load_arrivals _h
  simp [load] at *
  omega

end Sweep

namespace Network

/-- The stage before the first emission: the roots are ready, in ascending order. -/
def start (g : Network) : Sweep := ⟨g.incoming, g.roots, []⟩

def release (g : Network) : Except Breach Release := do
  let order ← g.start.run g
  if order.length < g.size then
    return .blocked ((List.range g.size).filter fun v => !order.contains v)
  else
    return .complete order

end Network

end Lineup
