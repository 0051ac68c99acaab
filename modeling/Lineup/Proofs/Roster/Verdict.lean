/-
# The verdict on a roster

Whether a roster can be put in line, and if not for which reason, is decided by its bonds alone:
by the sides that no bond meets, the one behind an entry before the one ahead of it, and after
that by whether the bonds run in a circle.  A roster is never refused for a name that is unknown.
-/
import Lineup.Proofs.Roster.Names
import Lineup.Proofs.Roster.Outcomes

namespace Lineup.Roster

open Listing Relation

variable {N V : Type} [BEq N]

theorem sorted_of_objection {r : Roster N V} {reason : Refusal N}
    (h : r.entries.objection? = some reason) : r.sorted = .error (.refused reason) := by
  rcases sorted_cases r with ⟨reason', hobj, hs⟩ | ⟨hobj, -⟩
  · rw [h] at hobj
    cases hobj
    exact hs
  · rw [h] at hobj
    cases hobj

/-- Without an objection the outcome is a line where the bonds run in no circle, and a tangle
where they do. -/
theorem sorted_of_no_objection [EquivBEq N] {r : Roster N V} (hl : r.entries.Distinct)
    (h : r.entries.objection? = none) :
    ((∃ s, TransGen r.entries.Binds s s) → ∃ t, r.sorted = .error (.refused (.tangled t))) ∧
      ((¬ ∃ s, TransGen r.entries.Binds s s) → ∃ line, r.sorted = .ok line) := by
  rcases sorted_cases r with ⟨reason, hobj, -⟩ | ⟨-, g, hg, hend⟩
  · rw [h] at hobj
    cases hobj
  · rw [← hg.circular_iff hl, ← hg.tied.release_iff]
    rcases hend with ⟨order, line, hrel, hs, -⟩ | ⟨rest, t, hrel, hs, -⟩
    · refine ⟨?_, fun _ => ⟨line, hs⟩⟩
      intro hcirc
      exact absurd hcirc (hg.tied.release_iff.mp ⟨order, hrel⟩)
    · refine ⟨fun _ => ⟨t, hs⟩, ?_⟩
      rintro ⟨order, hrel'⟩
      rw [hrel] at hrel'
      cases hrel'

theorem exists_line_iff [EquivBEq N] {r : Roster N V} (hl : r.entries.Distinct) :
    (∃ line, r.sorted = .ok line) ↔
      r.entries.objection? = none ∧ ¬ ∃ s, TransGen r.entries.Binds s s := by
  cases hobj : r.entries.objection? with
  | some reason => simp [sorted_of_objection hobj]
  | none =>
      obtain ⟨htangle, hline⟩ := sorted_of_no_objection hl hobj
      refine ⟨?_, fun h => hline h.2⟩
      rintro ⟨line, h⟩
      refine ⟨rfl, fun hloop => ?_⟩
      obtain ⟨t, ht⟩ := htangle hloop
      rw [h] at ht
      cases ht

theorem sorted_ne_unknown (r : Roster N V) (name : N) :
    r.sorted ≠ .error (.refused (.unknown name)) := by
  rcases sorted_cases r with
    ⟨reason, hobj, hs⟩ | ⟨-, g, -, ⟨order, line, -, hs, -⟩ | ⟨rest, t, -, hs, -⟩⟩
  · rw [hs]
    intro heq
    cases heq
    obtain ⟨side, names, hunmet⟩ := exists_unmet hobj
    cases hunmet
  · simp [hs]
  · simp [hs]

/-- The verdict on a roster, whatever changes it went through under whatever policy.  Entries that
want something behind them and have no bond there are named first, in the order of registration;
failing that, entries that want something ahead of them and have no bond there; failing that, a
circle of bonds gives a tangle, and without one there is a line. -/
theorem sorted_verdict [EquivBEq N] (policy : Policy N) (changes : List (Change N V)) :
    ((replay policy changes).entries.wanting .before ≠ [] →
      (replay policy changes).sorted = .error (.refused (.unmet .before
        (((replay policy changes).entries.wanting .before).map (·.name))))) ∧
    ((replay policy changes).entries.wanting .before = [] →
      (replay policy changes).entries.wanting .after ≠ [] →
      (replay policy changes).sorted = .error (.refused (.unmet .after
        (((replay policy changes).entries.wanting .after).map (·.name))))) ∧
    ((replay policy changes).entries.wanting .before = [] →
      (replay policy changes).entries.wanting .after = [] →
      (∃ s, TransGen (replay policy changes).entries.Binds s s) →
      ∃ t, (replay policy changes).sorted = .error (.refused (.tangled t))) ∧
    ((replay policy changes).entries.wanting .before = [] →
      (replay policy changes).entries.wanting .after = [] →
      (¬ ∃ s, TransGen (replay policy changes).entries.Binds s s) →
      ∃ line, (replay policy changes).sorted = .ok line) ∧
    ∀ name, (replay policy changes).sorted ≠ .error (.refused (.unknown name)) := by
  have hl := distinct_replay policy changes
  refine ⟨?_, ?_, ?_, ?_, sorted_ne_unknown _⟩
  · intro hb
    exact sorted_of_objection (hl.objection?_before hb)
  · intro hb ha
    exact sorted_of_objection (hl.objection?_after hb ha)
  · intro hb ha
    exact (sorted_of_no_objection hl (hl.objection?_none hb ha)).1
  · intro hb ha
    exact (sorted_of_no_objection hl (hl.objection?_none hb ha)).2

/-- Entry 1 asks for a spot that is not there, but entry 2 stands before it; entry 3 declares that
something stands ahead of it and names nothing. -/
def borrowedChanges : List (Change Nat Char) :=
  [.enroll 1 'a' (Bounds.free.declare .after [.entry 9]),
    .enroll 2 'b' (Bounds.free.declare .before [.entry 1]),
    .enroll 3 'c' (Bounds.free.declare .after [])]

/-- Only entry 3 is refused: the bond that entry 2 declares meets entry 1 as well. -/
theorem sorted_verdict_borrowed :
    (replay .beforeLast borrowedChanges).entries.wanting .before = [] ∧
      (replay .beforeLast borrowedChanges).entries.wanting .after ≠ [] ∧
      (replay .beforeLast borrowedChanges).sorted = .error (.refused (.unmet .after [3])) := by
  have hl := distinct_replay .beforeLast borrowedChanges
  have hbefore := hl.unmet_eq .before
  have hafter := hl.unmet_eq .after
  have hb : (replay .beforeLast borrowedChanges).entries.wanting .before = [] :=
    List.map_eq_nil_iff.mp (hbefore.symm.trans rfl)
  have hnames : ((replay .beforeLast borrowedChanges).entries.wanting .after).map (·.name) = [3] :=
    hafter.symm.trans rfl
  have ha : (replay .beforeLast borrowedChanges).entries.wanting .after ≠ [] := by
    intro hnil
    rw [hnil] at hnames
    cases hnames
  have hverdict := (sorted_verdict .beforeLast borrowedChanges).2.1 hb ha
  rw [hnames] at hverdict
  exact ⟨hb, ha, hverdict⟩

end Lineup.Roster
