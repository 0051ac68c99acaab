/-
# Changes to a roster

A roster is changed by enrolling and by withdrawing.  Replaying a row of changes from nothing gives
every roster that can come about under a policy.
-/
import Lineup.Roster.Basic

namespace Lineup

inductive Change (N V : Type) where
  /-- Registers a name with a value and bounds. -/
  | enroll (name : N) (value : V) (bounds : Bounds N)
  /-- Strikes a name off. -/
  | withdraw (name : N)
deriving DecidableEq, Repr

namespace Roster

variable {N V : Type} [BEq N]

/-- Carries a change out.  A withdrawal that is refused leaves the roster as it was. -/
def apply (r : Roster N V) : Change N V → Roster N V
  | .enroll name value bounds => (r.enroll name value bounds).2
  | .withdraw name =>
    match r.withdraw name with
    | .ok (_, rest) => rest
    | .error _ => r

/-- The roster after a row of changes to an empty one. -/
def replay (policy : Policy N) (changes : List (Change N V)) : Roster N V :=
  changes.foldl apply (empty policy)

@[simp] theorem replay_nil (policy : Policy N) :
    replay policy ([] : List (Change N V)) = empty policy := rfl

@[simp] theorem replay_concat (policy : Policy N) (changes : List (Change N V)) (c : Change N V) :
    replay policy (changes ++ [c]) = (replay policy changes).apply c := by
  simp [replay]

@[simp] theorem policy_apply (r : Roster N V) (c : Change N V) : (r.apply c).policy = r.policy := by
  cases c with
  | enroll name value bounds => rfl
  | withdraw name =>
    cases h : r.get? name <;> simp [apply, withdraw, h, erase]

@[simp] theorem policy_replay (policy : Policy N) (changes : List (Change N V)) :
    (replay policy changes).policy = policy := by
  unfold replay
  suffices h : ∀ r : Roster N V, (changes.foldl apply r).policy = r.policy from h (empty policy)
  induction changes with
  | nil => exact fun r => rfl
  | cons c changes ih => exact fun r => (ih (r.apply c)).trans (policy_apply r c)

end Roster

end Lineup
