/-
# Refusals

Why a roster declines what it was asked for, and how it says so.
-/
import Lineup.Refusal.Tangle
import Lineup.Network.Basic

namespace Lineup

/-- A reason to decline. -/
inductive Refusal (N : Type) where
  /-- The entries of these names declared a side on which no arc meets them. -/
  | unmet (side : Side) (names : List N)
  /-- Some spots hold each other up. -/
  | tangled (tangle : Tangle N)
  /-- No entry has this name. -/
  | unknown (name : N)
deriving BEq, DecidableEq, Repr

namespace Refusal

variable {N : Type}

def isTangle : Refusal N → Bool
  | tangled _ => true
  | _ => false

def text [Label N] : Refusal N → List Char
  | unmet side names =>
    "Unsatisfied ".toList ++ side.word ++ " dependencies: ".toList ++
      List.intercalate ", ".toList (names.map label)
  | tangled t => t.text
  | unknown name => "Unknown entry: ".toList ++ label name

/-- The message that gives a reason. -/
def message [Label N] (r : Refusal N) : String := String.ofList r.text

end Refusal

/-- Why there is no result: a reason to decline, or a breach, which a sound roster never meets. -/
inductive Failure (N : Type) where
  /-- The request was declined. -/
  | refused (reason : Refusal N)
  /-- The network or the order did not hold together. -/
  | broken (breach : Breach)
deriving BEq, DecidableEq, Repr

/-- What a computation on networks gives, with its breaches among the failures. -/
def Failure.ofBreach {N α : Type} : Except Breach α → Except (Failure N) α
  | .ok a => .ok a
  | .error b => .error (.broken b)

end Lineup
