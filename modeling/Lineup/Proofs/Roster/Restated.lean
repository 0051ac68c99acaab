/-
# The verdict does not depend on the wording

Two rosters whose listings restate each other may differ in the order of registration, in the order
of targets and in how often a target is repeated.  They are numbered differently, their networks
have other arcs and their releases take another course; the values that they hold and the policies
that they were filled under may differ as well.  Still either both can be put in line or both are
refused, and if they are refused it is for the same reason (`sorted_restated`).

Nothing of this is seen by comparing two releases.  The verdict on a roster is decided by its bonds,
and bonds are the same in both listings.
-/
import Mathlib.Data.List.Permutation
import Lineup.Proofs.Listing.Restated
import Lineup.Proofs.Roster.Tangle
import Lineup.Proofs.Roster.Verdict

namespace Lineup

open Relation

variable {N V W : Type} [BEq N]

/-! ## Tangles that say the same -/

/-- Two tangles hold the same spots, and under each spot the same spots behind it, in their rows as in
what they answer when they are asked for a spot. -/
structure Tangle.Restates (t u : Tangle N) : Prop where
  spots : SameItems t.spots u.spots
  rows : ∀ row ∈ t.rows, ∀ row' ∈ u.rows, (row.1 == row'.1) = true → SameItems row.2 row'.2
  behind : ∀ s, Option.Rel SameItems (t.successors? s) (u.successors? s)

namespace Listing.Reports

variable [EquivBEq N] {l : Listing N V} {k : Listing N W} {t u : Tangle N}

theorem exists_row (ht : l.Reports t) (hu : k.Reports u) (h : l.Restates k) (hk : k.Distinct)
    {row : Spot N × List (Spot N)} (hrow : row ∈ t.rows) :
    ∃ row' ∈ u.rows, (row.1 == row'.1) = true := by
  have hspot : row.1 ∈ t.spots := List.mem_map.mpr ⟨row, hrow, rfl⟩
  have hcaught : l.Caught row.1 := (ht.caught row.1).mp hspot
  obtain ⟨s, hs, heq⟩ := h.spot hcaught.mem
  obtain ⟨row', hrow', rfl⟩ := List.mem_map.mp ((hu.caught s).mpr (h.caught hk hcaught hs heq))
  exact ⟨row', hrow', heq⟩

theorem exists_behind (ht : l.Reports t) (hu : k.Reports u) (h : l.Restates k) (hl : l.Distinct)
    (hk : k.Distinct) {row row' : Spot N × List (Spot N)} (hrow : row ∈ t.rows)
    (hrow' : row' ∈ u.rows) (heq : (row.1 == row'.1) = true) :
    ∀ s ∈ row.2, ∃ s' ∈ row'.2, (s == s') = true := by
  intro s hs
  have hspot : row'.1 ∈ u.spots := List.mem_map.mpr ⟨row', hrow', rfl⟩
  have hbond : l.Binds row.1 s := (ht.binds hl hrow).mp hs
  obtain ⟨s', ⟨-, hss⟩, hbond'⟩ := h.step hk hbond ⟨hu.order.subset hspot, heq⟩
  exact ⟨s', (hu.binds hk hrow').mpr hbond', hss⟩

theorem sameItems_behind (ht : l.Reports t) (hu : k.Reports u) (h : l.Restates k) (hl : l.Distinct)
    (hk : k.Distinct) {row row' : Spot N × List (Spot N)} (hrow : row ∈ t.rows)
    (hrow' : row' ∈ u.rows) (heq : (row.1 == row'.1) = true) : SameItems row.2 row'.2 := by
  refine ⟨ht.exists_behind hu h hl hk hrow hrow' heq, ?_⟩
  intro x hx
  obtain ⟨y, hy, hxy⟩ := hu.exists_behind ht h.symm hk hl hrow' hrow (BEq.symm heq) x hx
  exact ⟨y, hy, BEq.symm hxy⟩

theorem restates (ht : l.Reports t) (hu : k.Reports u) (h : l.Restates k) (hl : l.Distinct)
    (hk : k.Distinct) : t.Restates u where
  spots := by
    constructor
    · intro s hs
      obtain ⟨row, hrow, rfl⟩ := List.mem_map.mp hs
      obtain ⟨row', hrow', heq⟩ := ht.exists_row hu h hk hrow
      exact ⟨row'.1, List.mem_map.mpr ⟨row', hrow', rfl⟩, heq⟩
    · intro s hs
      obtain ⟨row', hrow', rfl⟩ := List.mem_map.mp hs
      obtain ⟨row, hrow, heq⟩ := hu.exists_row ht h.symm hl hrow'
      exact ⟨row.1, List.mem_map.mpr ⟨row, hrow, rfl⟩, BEq.symm heq⟩
  rows _ hrow _ hrow' heq := ht.sameItems_behind hu h hl hk hrow hrow' heq
  behind := by
    intro s
    by_cases hfound : ∃ row ∈ t.rows, (row.1 == s) = true
    · obtain ⟨row, hrow, hrs⟩ := hfound
      obtain ⟨row', hrow', heq⟩ := ht.exists_row hu h hk hrow
      have hrs' : (row'.1 == s) = true := BEq.trans (BEq.symm heq) hrs
      rw [Tangle.successors?_of_mem ht.once hrow hrs, Tangle.successors?_of_mem hu.once hrow' hrs']
      exact .some (ht.sameItems_behind hu h hl hk hrow hrow' heq)
    · -- no row of either tangle answers the spot
      have hnone : ∀ x ∈ t.spots, (x == s) = false := by
        intro x hx
        obtain ⟨row, hrow, rfl⟩ := List.mem_map.mp hx
        exact Bool.eq_false_iff.mpr fun hrs => hfound ⟨row, hrow, hrs⟩
      have hnone' : ∀ x ∈ u.spots, (x == s) = false := by
        intro x hx
        obtain ⟨row', hrow', rfl⟩ := List.mem_map.mp hx
        obtain ⟨row, hrow, heq⟩ := hu.exists_row ht h.symm hl hrow'
        exact Bool.eq_false_iff.mpr
          fun hrs => hfound ⟨row, hrow, BEq.trans (BEq.symm heq) hrs⟩
      rw [Tangle.successors?_eq_none hnone, Tangle.successors?_eq_none hnone']
      exact .none

end Listing.Reports

/-! ## Verdicts that say the same -/

/-- Two outcomes of sorting agree: both are lines, or both are refused for the same sides of the
same names, or both are tangles of the same spots. -/
inductive SameVerdict :
    Except (Failure N) (List (N × V)) → Except (Failure N) (List (N × W)) → Prop
  | line {line : List (N × V)} {line' : List (N × W)} : SameVerdict (.ok line) (.ok line')
  | unmet {side : Side} {names names' : List N} : SameItems names names' →
      SameVerdict (.error (.refused (.unmet side names))) (.error (.refused (.unmet side names')))
  | tangled {t u : Tangle N} : t.Restates u →
      SameVerdict (.error (.refused (.tangled t))) (.error (.refused (.tangled u)))

namespace Roster

open Listing

variable [EquivBEq N]

/-- Two rosters, in each of which no two entries have equal names, come to the same verdict if they
hold the same names and every name has the same sides declared in both, with the same set of
targets on each side. -/
theorem sorted_restated {r : Roster N V} {s : Roster N W} (hr : r.entries.Distinct)
    (hs : s.entries.Distinct) (h : r.entries.Restates s.entries) :
    SameVerdict r.sorted s.sorted := by
  by_cases hb : r.entries.wanting .before = []
  case neg =>
      have hb' : s.entries.wanting .before ≠ [] :=
        fun hnil => hb (h.symm.wanting_eq_nil hs hr hnil)
      rw [sorted_of_objection (hr.objection?_before hb),
        sorted_of_objection (hs.objection?_before hb')]
      exact .unmet (h.wanting hr hs .before)
  have hb' := h.wanting_eq_nil hr hs hb
  by_cases ha : r.entries.wanting .after = []
  case neg =>
      have ha' : s.entries.wanting .after ≠ [] :=
        fun hnil => ha (h.symm.wanting_eq_nil hs hr hnil)
      rw [sorted_of_objection (hr.objection?_after hb ha),
        sorted_of_objection (hs.objection?_after hb' ha')]
      exact .unmet (h.wanting hr hs .after)
  have ha' := h.wanting_eq_nil hr hs ha
  obtain ⟨htangle, hline⟩ := sorted_of_no_objection hr (hr.objection?_none hb ha)
  obtain ⟨htangle', hline'⟩ := sorted_of_no_objection hs (hs.objection?_none hb' ha')
  by_cases hloop : ∃ x, TransGen r.entries.Binds x x
  · obtain ⟨t, ht⟩ := htangle hloop
    obtain ⟨u, hu⟩ := htangle' (h.circular hs hloop)
    rw [ht, hu]
    exact .tangled ((reports_of_sorted hr ht).restates (reports_of_sorted hs hu) h hr hs)
  · obtain ⟨line, hl⟩ := hline hloop
    obtain ⟨line', hl'⟩ := hline' fun hloop' => hloop (h.symm.circular hr hloop')
    rw [hl, hl']
    exact .line

/-- Entries 1 and 2 stand after each other; entry 3 stands after 2 and before the last anchor. -/
def plainRing : Roster Nat Char :=
  ⟨.beforeLast, [⟨1, 'a', ⟨some [.entry 2], none⟩⟩, ⟨2, 'b', ⟨some [.entry 1, .first], none⟩⟩,
    ⟨3, 'c', ⟨some [.entry 2], some [.last]⟩⟩]⟩

/-- The same ring with its entries the other way round, targets repeated and other values. -/
def wordyRing : Roster Nat Nat :=
  ⟨.afterFirst, [⟨3, 30, ⟨some [.entry 2, .entry 2], some [.last]⟩⟩,
    ⟨2, 20, ⟨some [.first, .entry 1, .first], none⟩⟩, ⟨1, 10, ⟨some [.entry 2], none⟩⟩]⟩

/-- Both rings come out as tangles, with the rows and what is behind them in different orders. -/
theorem sorted_restated_ring :
    plainRing.entries.Distinct ∧ wordyRing.entries.Distinct ∧
      plainRing.entries.Restates wordyRing.entries ∧
      plainRing.sorted = .error (.refused (.tangled
        ⟨[(.last, []), (.entry 1, [.entry 2]), (.entry 2, [.entry 1, .entry 3]),
          (.entry 3, [.last])]⟩)) ∧
      wordyRing.sorted = .error (.refused (.tangled
        ⟨[(.last, []), (.entry 3, [.last]), (.entry 2, [.entry 3, .entry 3, .entry 1]),
          (.entry 1, [.entry 2])]⟩)) ∧
      SameVerdict plainRing.sorted wordyRing.sorted := by
  have hp : plainRing.entries.Distinct := by
    unfold Distinct
    decide
  have hw : wordyRing.entries.Distinct := by
    unfold Distinct
    decide
  have h : plainRing.entries.Restates wordyRing.entries := by decide
  exact ⟨hp, hw, h, by cbv, by cbv, sorted_restated hp hw h⟩

end Roster

end Lineup
