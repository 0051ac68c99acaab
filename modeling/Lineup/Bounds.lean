/-
# Bounds

The bounds of an entry are two lists of spots, one for each side.  A side that was never declared
differs from one that was declared with no spot at all: the first asks for nothing, the second
asks for a neighbour and names none.
-/
import Lineup.Spot

namespace Lineup

/-- The spots that an entry stands after, and those that it stands before. -/
structure Bounds (N : Type) where
  /-- The spots ahead of the entry, none while that side is undeclared. -/
  after : Option (List (Spot N))
  /-- The spots behind the entry, none while that side is undeclared. -/
  before : Option (List (Spot N))
deriving BEq, DecidableEq, Repr

namespace Bounds

variable {N : Type}

/-- Bounds with neither side declared. -/
def free : Bounds N := ⟨none, none⟩

instance : Inhabited (Bounds N) := ⟨free⟩

def on (b : Bounds N) : Side → Option (List (Spot N))
  | .before => b.before
  | .after => b.after

/-- The spots of one side, an empty list while it is undeclared. -/
def targets (b : Bounds N) (side : Side) : List (Spot N) :=
  (b.on side).getD []

/-- Whether a side was declared, be it with an empty list. -/
def declares (b : Bounds N) (side : Side) : Bool :=
  (b.on side).isSome

def isFree (b : Bounds N) : Bool :=
  !b.declares .after && !b.declares .before

/-- Declares a side and puts `spots` at the end of it. -/
def declare (b : Bounds N) (side : Side) (spots : List (Spot N)) : Bounds N :=
  match side with
  | .before => { b with before := some (b.targets .before ++ spots) }
  | .after => { b with after := some (b.targets .after ++ spots) }

@[simp] theorem on_free (side : Side) : (free : Bounds N).on side = none := by
  cases side <;> rfl

theorem on_declare (b : Bounds N) (side other : Side) (spots : List (Spot N)) :
    (b.declare side spots).on other =
      if side = other then some (b.targets side ++ spots) else b.on other := by
  cases side <;> cases other <;> rfl

theorem isFree_iff (b : Bounds N) : b.isFree = true ↔ b = free := by
  obtain ⟨after, before⟩ := b
  cases after <;> cases before <;> simp [isFree, declares, on, free]

end Bounds

end Lineup
