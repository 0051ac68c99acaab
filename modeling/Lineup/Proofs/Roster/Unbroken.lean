/-
# Sorting never breaks

A breach is met where a node is asked for that does not exist, where an arc arrives at a node that
waits for none, or where an order that was found fails a check.  A breach anywhere while a roster is
sorted is the outcome of sorting, so it is enough to look at the outcomes: the network of a listing
is always drawn, its release always ends, a released order stands all three checks and each of its
nodes is an anchor or has an entry, and so has each blocked node and every node behind it
(`sorted_unbroken`).

Nothing is asked of the entries.  They may name themselves or each other in circles, name anchors on
either side and spots that are not there, and even have equal names, which entries of a roster that
came about by changes never have.
-/
import Mathlib.Data.List.Permutation
import Lineup.Proofs.Listing.Flags
import Lineup.Proofs.Roster.Verdict

namespace Lineup.Roster

open Listing

variable {N V : Type} [BEq N]

theorem sorted_ne_broken (r : Roster N V) (breach : Breach) :
    r.sorted ≠ .error (.broken breach) := by
  rcases sorted_cases r with
    ⟨reason, -, hs⟩ | ⟨-, g, -, ⟨order, line, -, hs, -⟩ | ⟨rest, t, -, hs, -⟩⟩
  · simp [hs]
  · simp [hs]
  · simp [hs]

/-- Sorting a roster breaks off nowhere, whatever entries it holds.  Its network is drawn, and the
sides that are not met can be found with a table that is never read out of range.  If sides are not
met, the roster is refused for that.  Otherwise the release ends, with no arc too many at any node:
with an order that stands the three checks and is carried over to a line, or with blocked nodes that
are carried over to a tangle. -/
theorem sorted_unbroken (r : Roster N V) :
    (∀ breach, r.sorted ≠ .error (.broken breach)) ∧
      (∀ side, r.entries.unflagged side = .ok (r.entries.unmet side)) ∧
      ((∃ side names, r.entries.network = .error (.refused (.unmet side names)) ∧
          r.sorted = .error (.refused (.unmet side names))) ∨
        ∃ g, r.entries.network = .ok g ∧
          ((∃ order line, g.release = .ok (.complete order) ∧ g.acyclic = .ok true ∧
              g.covers order = true ∧ g.respects order = .ok true ∧
              r.entries.inLine order = .ok line ∧ r.sorted = .ok line) ∨
            ∃ rest t, g.release = .ok (.blocked rest) ∧ r.entries.tangle g rest = .ok t ∧
              r.sorted = .error (.refused (.tangled t)))) := by
  refine ⟨sorted_ne_broken r, unflagged_eq r.entries, ?_⟩
  rcases sorted_steps r with ⟨reason, hobj, hnet, hs⟩ |
    ⟨-, g, hg, hnet, ⟨order, line, hrel, hline, hs, -⟩ | ⟨rest, t, hrel, ht, hs, -⟩⟩
  · left
    obtain ⟨side, names, rfl⟩ := exists_unmet hobj
    exact ⟨side, names, hnet, hs⟩
  · right
    have hlines := hg.tied.lines_of_release hrel
    obtain ⟨hcovers, hrespects⟩ := hg.tied.lines_iff.mp hlines
    have hacyclic := hg.tied.whole.acyclic_iff.mpr hlines.not_circular
    exact ⟨g, hnet, Or.inl ⟨order, line, hrel, hacyclic, hcovers, hrespects, hline, hs⟩⟩
  · right
    exact ⟨g, hnet, Or.inr ⟨rest, t, hrel, ht, hs⟩⟩

/-- Two entries of one name.  One stands after that name, the other before the first anchor and
before a spot that is not there. -/
def twins : Roster Nat Char :=
  ⟨.beforeLast, [⟨1, 'a', ⟨some [.entry 1], none⟩⟩, ⟨1, 'b', ⟨none, some [.first, .entry 9]⟩⟩]⟩

/-- The name stands for the later entry, so the earlier one comes after it and not after itself. -/
theorem sorted_unbroken_twins :
    (∀ breach, twins.sorted ≠ .error (.broken breach)) ∧
      twins.sorted = .ok [(1, 'b'), (1, 'a')] :=
  ⟨(sorted_unbroken twins).1, by cbv⟩

end Lineup.Roster
