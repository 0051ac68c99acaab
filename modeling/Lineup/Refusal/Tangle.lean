/-
# Tangles

The part of a network that cannot be put in line.  Each of its spots is listed with the spots that
its arcs lead to.
-/
import Lineup.Spot
import Lineup.Name.Label

namespace Lineup

/-- Spots that hold each other up, each with the spots behind it. -/
structure Tangle (N : Type) where
  /-- The spots, each with those that its arcs lead to. -/
  rows : List (Spot N × List (Spot N))
deriving BEq, DecidableEq, Repr

/-- How a spot is shown: an anchor in capitals, an entry by its label. -/
def Spot.text {N : Type} [Label N] : Spot N → List Char
  | .first => "FIRST".toList
  | .last => "LAST".toList
  | .entry name => label name

namespace Tangle

variable {N : Type}

def spots (t : Tangle N) : List (Spot N) := t.rows.map (·.1)

/-- What is listed behind a spot, none if the spot has no row. -/
def successors? [BEq N] (t : Tangle N) (s : Spot N) : Option (List (Spot N)) :=
  (t.rows.find? (·.1 == s)).map (·.2)

def rowText [Label N] (row : Spot N × List (Spot N)) : List Char :=
  row.1.text ++ " sorts before [".toList ++
    List.intercalate ", ".toList (row.2.map Spot.text) ++ [']']

/-- A tangle in running text, its rows set apart by semicolons. -/
def text [Label N] (t : Tangle N) : List Char :=
  "Implicit ordering cycle: ".toList ++ List.intercalate "; ".toList (t.rows.map rowText)

theorem successors?_isSome_iff [BEq N] (t : Tangle N) (s : Spot N) :
    (t.successors? s).isSome = true ↔ ∃ spot ∈ t.spots, (spot == s) = true := by
  simp [successors?, spots, List.find?_isSome]

end Tangle

end Lineup
