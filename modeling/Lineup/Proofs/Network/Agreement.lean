/-
# Three views of acyclicity

A network that is laid arc by arc can be asked in three ways whether it runs in circles: the
release of its nodes, which reads counts and successors, either puts all of them in line or not;
the depth-first check, which reads successors only, says yes or no; and there may or may not be an
order that the checks of orders accept, which read the list of arcs.  All three come down to one
relation, and so they agree.
-/
import Lineup.Proofs.Network.DepthFirst
import Lineup.Proofs.Network.Orders

namespace Lineup.Network

open Relation

theorem Tied.not_held {g : Network} (h : g.Tied) (hg : ¬ g.Circular) (v : Nat) : ¬ g.Held v := by
  intro hheld
  obtain ⟨c, hloop, -⟩ := h.held_iff.mp hheld
  exact hg ⟨c, hloop⟩

theorem Tied.release_of_not_circular {g : Network} (h : g.Tied) (hg : ¬ g.Circular) :
    ∃ order, g.release = .ok (.complete order) ∧ g.Lines order := by
  rcases release_cases h.solvent with ⟨order, hrel, hlines, -⟩ | ⟨rest, -, hleft, hne⟩
  · exact ⟨order, hrel, hlines⟩
  · obtain ⟨v, hv⟩ := List.exists_mem_of_ne_nil rest hne
    exact absurd (hleft.mem_iff.mp hv).2 (h.not_held hg v)

theorem Tied.lines_of_release {g : Network} (h : g.Tied) {order : List Nat}
    (hrel : g.release = .ok (.complete order)) : g.Lines order := by
  rcases release_cases h.solvent with ⟨order', hrel', hlines, -⟩ | ⟨rest, hrel', -⟩
  · rw [hrel] at hrel'
    cases hrel'
    exact hlines
  · rw [hrel] at hrel'
    cases hrel'

theorem Tied.leftover_of_release {g : Network} (h : g.Tied) {rest : List Nat}
    (hrel : g.release = .ok (.blocked rest)) : g.Leftover rest := by
  rcases release_cases h.solvent with ⟨order, hrel', -⟩ | ⟨rest', hrel', hleft, -⟩
  · rw [hrel] at hrel'
    cases hrel'
  · rw [hrel] at hrel'
    cases hrel'
    exact hleft

theorem Tied.release_iff {g : Network} (h : g.Tied) :
    (∃ order, g.release = .ok (.complete order)) ↔ ¬ g.Circular := by
  constructor
  · rintro ⟨order, hrel⟩
    exact (h.lines_of_release hrel).not_circular
  · intro hg
    obtain ⟨order, hrel, -⟩ := h.release_of_not_circular hg
    exact ⟨order, hrel⟩

theorem Whole.acyclic_iff {g : Network} (h : g.Whole) : g.acyclic = .ok true ↔ ¬ g.Circular := by
  obtain ⟨b, hb, hspec⟩ := acyclic_spec h
  rw [hb, ← hspec]
  simp

theorem Tied.exists_lines_iff {g : Network} (h : g.Tied) :
    (∃ order, g.Lines order) ↔ ¬ g.Circular := by
  constructor
  · rintro ⟨order, hlines⟩
    exact hlines.not_circular
  · intro hg
    obtain ⟨order, -, hlines⟩ := h.release_of_not_circular hg
    exact ⟨order, hlines⟩

/-- Arcs between the nodes of a network can be laid, and then the three views agree: the release
is complete, the depth-first check says yes, and some order passes both checks of orders, all
three or none.  The order of a complete release passes them, and release and depth-first check
always come to an end. -/
theorem acyclicity_views_agree {n : Nat} {arcs : List (Nat × Nat)}
    (hends : ∀ arc ∈ arcs, arc.1 < n ∧ arc.2 < n) :
    ∃ g, ofArcs n arcs = .ok g ∧
      ((∃ order, g.release = .ok (.complete order)) ↔ g.acyclic = .ok true) ∧
      (g.acyclic = .ok true ↔ ∃ order, g.covers order = true ∧ g.respects order = .ok true) ∧
      (∀ order, g.release = .ok (.complete order) →
        g.covers order = true ∧ g.respects order = .ok true) ∧
      (∃ outcome, g.release = .ok outcome) ∧ ∃ answer, g.acyclic = .ok answer := by
  obtain ⟨g, hg, h, -, -⟩ := ofArcs_tied hends
  obtain ⟨answer, hanswer, -⟩ := acyclic_spec h.whole
  refine ⟨g, hg, ?_, ?_, ?_, ?_, answer, hanswer⟩
  · rw [h.release_iff, h.whole.acyclic_iff]
  · simp only [← h.lines_iff]
    rw [h.exists_lines_iff, h.whole.acyclic_iff]
  · exact fun order hrel => h.lines_iff.mp (h.lines_of_release hrel)
  · rcases release_cases h.solvent with ⟨order, hrel, -⟩ | ⟨rest, hrel, -⟩
    · exact ⟨_, hrel⟩
    · exact ⟨_, hrel⟩

/-- Node 0 leads to node 1 by two arcs, node 2 to itself: all three views see the circle. -/
theorem acyclicity_views_agree_repeated :
    (∀ arc ∈ [(0, 1), (0, 1), (2, 2)], arc.1 < 3 ∧ arc.2 < 3) ∧
      ∃ g, ofArcs 3 [(0, 1), (0, 1), (2, 2)] = .ok g ∧ g.acyclic = .ok false ∧
        (¬ ∃ order, g.release = .ok (.complete order)) ∧
        ¬ ∃ order, g.covers order = true ∧ g.respects order = .ok true := by
  have hends : ∀ arc ∈ [(0, 1), (0, 1), (2, 2)], arc.1 < 3 ∧ arc.2 < 3 := by decide
  obtain ⟨g, hg, hrelease, horder, -⟩ := acyclicity_views_agree hends
  have hno : g.acyclic = .ok false := by
    obtain rfl := Except.ok.inj hg
    rfl
  refine ⟨hends, g, hg, hno, ?_, ?_⟩
  · rw [hrelease, hno]
    decide
  · rw [← horder, hno]
    decide

end Lineup.Network
