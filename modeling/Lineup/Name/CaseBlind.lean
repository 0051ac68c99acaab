/-
# Names without regard to case

A name that is compared without regard to the case of its ASCII letters, and that keeps the
spelling in which it was written.
-/
import Lineup.Name.Label

namespace Lineup

/-- A name whose ASCII letters match in either case. -/
structure CaseBlind where
  /-- The name as it was written. -/
  spelling : String
deriving Repr

namespace CaseBlind

/-- The spelling with its ASCII letters in lower case and all else as it is. -/
def folded (n : CaseBlind) : List Char :=
  n.spelling.toList.map Char.toLower

/-- Names match when they fold to the same text. -/
instance : BEq CaseBlind := ⟨fun a b => a.folded == b.folded⟩

theorem beq_iff (a b : CaseBlind) : (a == b) = true ↔ a.folded = b.folded := by
  show (a.folded == b.folded) = true ↔ _
  exact beq_iff_eq

instance : EquivBEq CaseBlind where
  symm h := by rw [beq_iff] at *; exact h.symm
  trans h k := by rw [beq_iff] at *; exact h.trans k
  rfl {a} := (beq_iff a a).2 rfl

instance : Hashable CaseBlind := ⟨fun n => hash (String.ofList n.folded)⟩

/-- Names that match have the same hash. -/
instance : LawfulHashable CaseBlind where
  hash_eq a b h := by
    show hash (String.ofList a.folded) = hash (String.ofList b.folded)
    rw [(beq_iff a b).mp h]

/-- A name is shown as it was written. -/
instance : Label CaseBlind := ⟨fun n => label n.spelling⟩

end CaseBlind

end Lineup
