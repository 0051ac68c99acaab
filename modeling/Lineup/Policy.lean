/-
# Policies

A policy says where an entry goes that declared no side of its own.
-/
import Lineup.Bounds

namespace Lineup

/-- The rule for entries that declare neither side. -/
structure Policy (N : Type) where
  /-- The bounds that such an entry is given. -/
  standing : Bounds N
deriving BEq, DecidableEq, Repr

namespace Policy

variable {N : Type}

/-- Undeclared entries stand before the last anchor. -/
def beforeLast : Policy N := ⟨Bounds.free.declare .before [.last]⟩

/-- Undeclared entries stand after the first anchor, with nothing behind them. -/
def afterFirst : Policy N := ⟨Bounds.free.declare .after [.first]⟩

instance : Inhabited (Policy N) := ⟨beforeLast⟩

/-- The bounds that an entry carries: its own, or the standing ones if it declared no side. -/
def resolve (p : Policy N) (b : Bounds N) : Bounds N :=
  if b.isFree then p.standing else b

@[simp] theorem resolve_free (p : Policy N) : p.resolve .free = p.standing := rfl

theorem resolve_of_declares (p : Policy N) {b : Bounds N} {side : Side}
    (h : b.declares side = true) : p.resolve b = b := by
  cases side <;> simp_all [resolve, Bounds.isFree]

end Policy

end Lineup
