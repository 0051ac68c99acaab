/-
# `after` sides are sets

Two rosters that hold the same entries in the same order, up to the targets of `after` sides, are
numbered alike.  If these targets stand in another order only, the lists of successors are the same
in both networks, so both are released alike and come to the same outcome, down to the rows of a
tangle.  If targets are repeated as well, the counts and the lists of successors differ, and a
tangle shows that; but the lists agree in the order of their last places, so the forest order is the
same, and one roster can be put in line exactly when the other one can, in the same line
(`sorted_varied`).
-/
import Mathlib.Data.List.Permutation
import Lineup.Proofs.Listing.AfterSide
import Lineup.Proofs.Roster.Verdict

namespace Lineup

variable {N V : Type}

namespace Listing.Varies

variable {R : List (Spot N) → List (Spot N) → Prop} {l k : Listing N V}

theorem inLine_eq (h : l.Varies R k) (order : List Nat) : l.inLine order = k.inLine order := by
  rw [inLine, inLine]
  refine congrArg (List.mapM · _) (funext fun v => ?_)
  match v with
  | 0 => rfl
  | 1 => rfl
  | i + 2 =>
      rw [entryAt?, entryAt?]
      rcases h.getElem? i with ⟨hl, hk⟩ | ⟨e, f, hl, hk, hef⟩
      · rw [hl, hk]
      · rw [hl, hk]
        simp only [hef.name, hef.value]

theorem tangle_eq (h : l.Varies R k) {g g' : Network} (hnext : g.next = g'.next)
    (rest : List Nat) : l.tangle g rest = k.tangle g' rest := by
  have hspot : l.spotOf = k.spotOf := by
    funext v
    rw [spotOf, spotOf, h.spotAt?_eq]
  have hsuccessors : g.successors = g'.successors := by
    funext v
    rw [Network.successors, Network.successors, hnext]
  rw [tangle, tangle, hspot, hsuccessors]

end Listing.Varies

namespace Roster

open Listing

variable [BEq N] [EquivBEq N] {r s : Roster N V}

/-- What sorting a roster comes to when its network is released. -/
inductive Ends (r : Roster N V) (g : Network) : Prop
  | line {order : List Nat} {line : List (N × V)} : g.release = .ok (.complete order) →
      r.entries.inLine order = .ok line → r.sorted = .ok line → Ends r g
  | tangle {rest : List Nat} {t : Tangle N} : g.release = .ok (.blocked rest) →
      r.entries.tangle g rest = .ok t → r.sorted = .error (.refused (.tangled t)) → Ends r g

theorem refused_or_released (h : r.entries.Varies SameItems s.entries) :
    (∃ reason, r.sorted = .error (.refused reason) ∧ s.sorted = .error (.refused reason)) ∨
      ∃ g g', r.entries.Drawn g ∧ s.entries.Drawn g' ∧ g.size = g'.size ∧ r.Ends g ∧ s.Ends g' := by
  rcases sorted_steps r with ⟨reason, hobj, -, hr⟩ | ⟨hobj, g, hg, -, hend⟩
  · exact Or.inl ⟨reason, hr, sorted_of_objection (h.objection?_eq ▸ hobj)⟩
  rcases sorted_steps s with ⟨reason, hobj', -, -⟩ | ⟨-, g', hg', -, hend'⟩
  · rw [← h.objection?_eq, hobj] at hobj'
    cases hobj'
  refine Or.inr ⟨g, g', hg, hg', by rw [hg.size, hg'.size, h.nodeCount_eq], ?_, ?_⟩
  · rcases hend with ⟨order, line, ho, hline, hr, -⟩ | ⟨rest, t, ho, ht, hr, -⟩
    · exact .line ho hline hr
    · exact .tangle ho ht hr
  · rcases hend' with ⟨order, line, ho, hline, hs, -⟩ | ⟨rest, t, ho, ht, hs, -⟩
    · exact .line ho hline hs
    · exact .tangle ho ht hs

theorem sorted_eq_of_perm (h : r.entries.Varies List.Perm s.entries) : r.sorted = s.sorted := by
  rcases refused_or_released (h.imp .of_perm) with
    ⟨reason, hr, hs⟩ | ⟨g, g', hg, hg', hsize, hend, hend'⟩
  · rw [hr, hs]
  have hbehind : ∀ u, g.behind u = g'.behind u := by
    intro u
    rw [hg.behind_eq, hg'.behind_eq, h.leaving_eq]
  have hrel := hg.tied.release_eq hg'.tied hsize hbehind
  cases hend with
  | line ho hline hr =>
      cases hend' with
      | line ho' hline' hs =>
          rw [hrel, ho'] at ho
          cases ho
          rw [h.inLine_eq, hline'] at hline
          cases hline
          rw [hr, hs]
      | tangle ho' =>
          rw [hrel, ho'] at ho
          cases ho
  | tangle ho ht hr =>
      cases hend' with
      | line ho' =>
          rw [hrel, ho'] at ho
          cases ho
      | tangle ho' ht' hs =>
          rw [hrel, ho'] at ho
          cases ho
          rw [h.tangle_eq (hg.tied.views_eq hg'.tied hsize hbehind).1, ht'] at ht
          cases ht
          rw [hr, hs]

theorem line_of_sameItems (h : r.entries.Varies SameItems s.entries) {line : List (N × V)}
    (hline : r.sorted = .ok line) : s.sorted = .ok line := by
  rcases refused_or_released h with ⟨reason, hr, -⟩ | ⟨g, g', hg, hg', hsize, hend, hend'⟩
  · rw [hr] at hline
    cases hline
  have hlasts : ∀ u, Network.SameLasts (g.behind u) (g'.behind u) := by
    intro u
    rw [hg.behind_eq, hg'.behind_eq]
    exact h.leaving_sameLasts u
  cases hend with
  | line ho hl hr =>
      have hrel := hg.tied.release_of_sameLasts hg'.tied hsize hlasts ho
      cases hend' with
      | line ho' hl' hs =>
          rw [hrel] at ho'
          cases ho'
          rw [← h.inLine_eq, hl] at hl'
          cases hl'
          rw [hs, ← hr, hline]
      | tangle ho' =>
          rw [hrel] at ho'
          cases ho'
  | tangle _ _ hr =>
      rw [hr] at hline
      cases hline

/-- Two rosters hold the same entries in the same order, but for the targets of `after` sides.  If
every such side has the same targets in both, each as often, though in any order, then both
rosters come to the same outcome: to the same line, or to the same refusal with the same names or
the same tangle.  If every such side has the same set of targets in both, then one of the rosters
can be put in line exactly when the other one can, and it is the same line. -/
theorem sorted_varied (r s : Roster N V) :
    (r.entries.Varies List.Perm s.entries → r.sorted = s.sorted) ∧
      (r.entries.Varies SameItems s.entries →
        ∀ line, r.sorted = .ok line ↔ s.sorted = .ok line) := by
  refine ⟨sorted_eq_of_perm, ?_⟩
  intro h line
  exact ⟨line_of_sameItems h, line_of_sameItems (h.symm SameItems.symm)⟩

/-- Entry 3 stands after entry 1 and the first anchor, and after entry 2, which stands after 1. -/
def briefRoster : Roster Nat Char :=
  ⟨.beforeLast, [⟨1, 'a', ⟨none, some [.last]⟩⟩, ⟨2, 'b', ⟨some [.entry 1], none⟩⟩,
    ⟨3, 'c', ⟨some [.entry 1, .first, .entry 2], none⟩⟩, ⟨4, 'd', ⟨some [.entry 1], none⟩⟩]⟩

/-- The same with the targets of entry 3 in another order. -/
def turnedRoster : Roster Nat Char :=
  ⟨.beforeLast, [⟨1, 'a', ⟨none, some [.last]⟩⟩, ⟨2, 'b', ⟨some [.entry 1], none⟩⟩,
    ⟨3, 'c', ⟨some [.entry 2, .entry 1, .first], none⟩⟩, ⟨4, 'd', ⟨some [.entry 1], none⟩⟩]⟩

/-- The same with targets of entries 2 and 3 repeated. -/
def wordyRoster : Roster Nat Char :=
  ⟨.beforeLast, [⟨1, 'a', ⟨none, some [.last]⟩⟩, ⟨2, 'b', ⟨some [.entry 1, .entry 1], none⟩⟩,
    ⟨3, 'c', ⟨some [.entry 2, .entry 1, .entry 2, .first, .entry 1], none⟩⟩,
    ⟨4, 'd', ⟨some [.entry 1], none⟩⟩]⟩

theorem sorted_varied_brief :
    briefRoster.entries.Varies List.Perm turnedRoster.entries ∧
      briefRoster.entries.Varies SameItems wordyRoster.entries ∧
      turnedRoster.sorted = .ok [(1, 'a'), (4, 'd'), (2, 'b'), (3, 'c')] ∧
      wordyRoster.sorted = .ok [(1, 'a'), (4, 'd'), (2, 'b'), (3, 'c')] := by
  have hbrief : briefRoster.sorted = .ok [(1, 'a'), (4, 'd'), (2, 'b'), (3, 'c')] := by cbv
  have hturned : briefRoster.entries.Varies List.Perm turnedRoster.entries :=
    .cons ⟨rfl, rfl, rfl, rfl, .refl _⟩ (.cons ⟨rfl, rfl, rfl, rfl, .refl _⟩
      (.cons ⟨rfl, rfl, rfl, rfl, by decide⟩ (.cons ⟨rfl, rfl, rfl, rfl, .refl _⟩ .nil)))
  have hwordy : briefRoster.entries.Varies SameItems wordyRoster.entries :=
    .cons ⟨rfl, rfl, rfl, rfl, by decide⟩ (.cons ⟨rfl, rfl, rfl, rfl, by decide⟩
      (.cons ⟨rfl, rfl, rfl, rfl, by decide⟩ (.cons ⟨rfl, rfl, rfl, rfl, by decide⟩ .nil)))
  refine ⟨hturned, hwordy, ?_, ?_⟩
  · exact ((sorted_varied briefRoster turnedRoster).1 hturned).symm.trans hbrief
  · exact ((sorted_varied briefRoster wordyRoster).2 hwordy _).mp hbrief

/-- Of the side `before` nothing like it holds: entry 3 frees 1 and 2 in the order of its targets,
the later one first. -/
example :
    (⟨.beforeLast, [⟨1, 'a', .free⟩, ⟨2, 'b', .free⟩,
      ⟨3, 'c', ⟨none, some [.entry 1, .entry 2]⟩⟩]⟩ : Roster Nat Char).sorted =
        .ok [(3, 'c'), (2, 'b'), (1, 'a')] ∧
    (⟨.beforeLast, [⟨1, 'a', .free⟩, ⟨2, 'b', .free⟩,
      ⟨3, 'c', ⟨none, some [.entry 2, .entry 1]⟩⟩]⟩ : Roster Nat Char).sorted =
        .ok [(3, 'c'), (1, 'a'), (2, 'b')] := by
  constructor <;> cbv

end Roster

end Lineup
