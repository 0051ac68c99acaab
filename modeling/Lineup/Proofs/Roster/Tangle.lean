/-
# The tangle of a roster

If the bonds of a roster run in a circle, what is handed out is a tangle.  It holds the spots that
are caught by a circle and no others, each with all its bonds (`Reports`).  What a caught spot is
bound to is caught as well, and a caught spot is bound to from another one or from itself, so
everything that is listed behind a spot of the tangle is a spot of the tangle (`Reports.closed`),
and every spot of the tangle is listed behind one (`Reports.hung`).
-/
import Lineup.Proofs.Roster.Line

namespace Lineup

open List Relation

/-! ## Looking up a row -/

namespace Tangle

variable {N : Type} [BEq N] {t : Tangle N}

theorem successors?_of_mem [EquivBEq N] (h : t.spots.Pairwise fun s u => (s == u) = false)
    {row : Spot N × List (Spot N)} (hrow : row ∈ t.rows) {s : Spot N}
    (hs : (row.1 == s) = true) : t.successors? s = some row.2 := by
  rw [successors?, Listing.find?_of_apart (List.pairwise_map.mp h) hrow hs]
  rfl

theorem successors?_eq_none {s : Spot N} (h : ∀ u ∈ t.spots, (u == s) = false) :
    t.successors? s = none := by
  refine Option.not_isSome_iff_eq_none.mp ?_
  intro hsome
  obtain ⟨u, hu, hus⟩ := (t.successors?_isSome_iff s).mp hsome
  rw [h u hu] at hus
  cases hus

end Tangle

namespace Listing

variable {N V : Type} [BEq N] {l : Listing N V}

/-! ## Caught spots -/

theorem Caught.step {s t : Spot N} (h : l.Caught s) (hst : l.Binds s t) : l.Caught t := by
  obtain ⟨c, hloop, hcs⟩ := h
  exact ⟨c, hloop, hcs.tail hst⟩

/-- A caught spot is bound to from a caught spot: from the one ahead of it on the chain that it
hangs on, or on the circle if it is where the circle starts. -/
theorem Caught.back {t : Spot N} (h : l.Caught t) : ∃ s, l.Caught s ∧ l.Binds s t := by
  obtain ⟨c, hloop, hct⟩ := h
  have hpath : TransGen l.Binds c t := by
    rcases reflTransGen_iff_eq_or_transGen.mp hct with rfl | hct
    · exact hloop
    · exact hct
  obtain ⟨s, hcs, hst⟩ := TransGen.tail'_iff.mp hpath
  exact ⟨s, ⟨c, hloop, hcs⟩, hst⟩

theorem Caught.mem {s : Spot N} (h : l.Caught s) : s ∈ l.spots := by
  obtain ⟨u, -, hus⟩ := h.back
  exact hus.mem.2

variable {g : Network}

theorem Drawn.reported_sublist {rest : List Nat} {spots : List (Spot N)} (hg : l.Drawn g)
    (hrest : g.Leftover rest) (h : Forall₂ l.Denotes rest spots) : spots.Sublist l.spots := by
  have hsub : rest.Sublist (List.range l.nodeCount) := hg.size ▸ hrest.sublist
  obtain ⟨spots', hsub', h'⟩ := exists_sublist_of_forall₂ hsub (range_spots l)
  rwa [List.right_unique_forall₂' (rightUnique_denotes l) h h']

variable [EquivBEq N]

theorem Distinct.mem_bondsFrom_iff (hl : l.Distinct) {s t : Spot N} (hs : s ∈ l.spots) :
    t ∈ l.bondsFrom s ↔ l.Binds s t := by
  rw [← hl.mem_bonds_iff, bondsFrom, List.mem_map]
  constructor
  · rintro ⟨⟨u, t⟩, hbond, rfl⟩
    obtain ⟨hbond, hus⟩ := List.mem_filter.mp hbond
    have hu : u ∈ l.spots := (hl.mem_bonds_iff.mp hbond).mem.1
    exact hl.eq_of_beq hu hs hus ▸ hbond
  · intro hbond
    exact ⟨(s, t), List.mem_filter.mpr ⟨hbond, BEq.rfl⟩, rfl⟩

/-! ## From numbers to spots -/

theorem Drawn.reported_bonds (hg : l.Drawn g) (hl : l.Distinct) {rest : List Nat}
    {rows : List (Spot N × List (Spot N))} (h : Forall₂ (l.Heads g) rest rows) :
    ∀ row ∈ rows, row.2 = l.bondsFrom row.1 := by
  induction h with
  | nil => exact fun row hrow => absurd hrow List.not_mem_nil
  | @cons v row _ _ hhead _ ih =>
      have hbonds : row.2 = l.bondsFrom row.1 :=
        List.right_unique_forall₂' (rightUnique_denotes l) hhead.2 (hg.behind_bondsFrom hl hhead.1)
      intro row' hrow'
      rcases List.mem_cons.mp hrow' with rfl | hrow'
      · exact hbonds
      · exact ih row' hrow'

theorem Drawn.mem_reported_iff {rest : List Nat} {spots : List (Spot N)} (hg : l.Drawn g)
    (hl : l.Distinct) (hrest : g.Leftover rest) (h : Forall₂ l.Denotes rest spots) {s : Spot N} :
    s ∈ spots ↔ l.Caught s := by
  have hmem : ∀ {v}, l.Denotes v s → (v ∈ rest ↔ s ∈ spots) :=
    fun hv => rel_mem hl.biUnique hv h
  constructor
  · intro hs
    obtain ⟨v, hv⟩ := exists_number ((hg.reported_sublist hrest h).subset hs)
    exact (hg.held_iff hl hv).mp (hrest.mem_iff.mp ((hmem hv).mpr hs)).2
  · intro hs
    obtain ⟨v, hv⟩ := exists_number hs.mem
    have hlt : v < g.size := hg.size ▸ hv.lt
    exact (hmem hv).mp (hrest.mem_iff.mpr ⟨hlt, (hg.held_iff hl hv).mpr hs⟩)

/-! ## What a tangle reports -/

/-- The tangle lists the caught spots in their order, each once and with all its bonds. -/
structure Reports (l : Listing N V) (t : Tangle N) : Prop where
  order : t.spots.Sublist l.spots
  once : t.spots.Pairwise fun s u => (s == u) = false
  caught : ∀ s, s ∈ t.spots ↔ l.Caught s
  bonds : ∀ row ∈ t.rows, row.2 = l.bondsFrom row.1

namespace Reports

variable {t : Tangle N}

theorem binds (h : l.Reports t) (hl : l.Distinct) {row : Spot N × List (Spot N)}
    (hrow : row ∈ t.rows) {s : Spot N} : s ∈ row.2 ↔ l.Binds row.1 s := by
  have hspot : row.1 ∈ t.spots := List.mem_map.mpr ⟨row, hrow, rfl⟩
  rw [h.bonds row hrow, hl.mem_bondsFrom_iff (h.order.subset hspot)]

theorem closed (h : l.Reports t) (hl : l.Distinct) {row : Spot N × List (Spot N)}
    (hrow : row ∈ t.rows) {s : Spot N} (hs : s ∈ row.2) : s ∈ t.spots := by
  have hspot : row.1 ∈ t.spots := List.mem_map.mpr ⟨row, hrow, rfl⟩
  have hcaught : l.Caught row.1 := (h.caught row.1).mp hspot
  exact (h.caught s).mpr (hcaught.step ((h.binds hl hrow).mp hs))

theorem hung (h : l.Reports t) (hl : l.Distinct) {s : Spot N} (hs : s ∈ t.spots) :
    ∃ row ∈ t.rows, s ∈ row.2 := by
  obtain ⟨u, hu, hus⟩ := ((h.caught s).mp hs).back
  obtain ⟨row, hrow, rfl⟩ := List.mem_map.mp ((h.caught u).mpr hu)
  exact ⟨row, hrow, (h.binds hl hrow).mpr hus⟩

end Reports

end Listing

namespace Roster

open Listing

variable {N V : Type} [BEq N] [EquivBEq N]

theorem reports_of_sorted {r : Roster N V} (hl : r.entries.Distinct) {t : Tangle N}
    (h : r.sorted = .error (.refused (.tangled t))) : r.entries.Reports t := by
  obtain ⟨g, rest, hg, hrel, hall⟩ := release_of_tangle h
  have hrest := hg.tied.leftover_of_release hrel
  have hspots : Forall₂ r.entries.Denotes rest t.spots :=
    List.forall₂_map_right_iff.mpr (hall.imp fun _ _ hrow => hrow.1)
  have hsub := hg.reported_sublist hrest hspots
  exact ⟨hsub, hl.spots.sublist hsub, fun s => hg.mem_reported_iff hl hrest hspots,
    hg.reported_bonds hl hall⟩

/-- Whatever changes a roster went through under whatever policy: if it comes out as a tangle, the
tangle lists the spots that lie on a circle of bonds or behind one, in their order, each once and
with the ends of all its bonds.  What is listed behind a spot is itself a spot of the tangle, and
every spot of it is listed behind one.  A spot that equals one of the tangle is answered by the row
of that one, any other spot by nothing. -/
theorem sorted_tangle (policy : Policy N) (changes : List (Change N V)) {t : Tangle N}
    (h : (replay policy changes).sorted = .error (.refused (.tangled t))) :
    (replay policy changes).entries.Reports t ∧
      (∀ row ∈ t.rows, ∀ s ∈ row.2, s ∈ t.spots) ∧
      (∀ s ∈ t.spots, ∃ row ∈ t.rows, s ∈ row.2) ∧
      (∀ row ∈ t.rows, ∀ s, (row.1 == s) = true → t.successors? s = some row.2) ∧
      ∀ s, (∀ u ∈ t.spots, (u == s) = false) → t.successors? s = none := by
  have hl := distinct_replay policy changes
  have hreports := reports_of_sorted hl h
  refine ⟨hreports, ?_, ?_, ?_, ?_⟩
  · intro row hrow s hs
    exact hreports.closed hl hrow hs
  · intro s hs
    exact hreports.hung hl hs
  · intro row hrow s hs
    exact Tangle.successors?_of_mem hreports.once hrow hs
  · intro s hs
    exact Tangle.successors?_eq_none hs

/-- Entries 1 and 2 stand after each other, entry 4 after 2 and before the last anchor; entry 3
stands apart. -/
def ringChanges : List (Change Nat Char) :=
  [.enroll 1 'a' (Bounds.free.declare .after [.entry 2]),
    .enroll 2 'b' (Bounds.free.declare .after [.entry 1, .entry 1]),
    .enroll 3 'c' (Bounds.free.declare .after [.first]),
    .enroll 4 'd' ((Bounds.free.declare .after [.entry 2]).declare .before [.last])]

/-- The last anchor hangs on the circle of 1 and 2, and the bond that was declared twice is listed
twice. -/
theorem sorted_tangle_ring :
    (replay .beforeLast ringChanges).sorted = .error (.refused (.tangled
        ⟨[(.last, []), (.entry 1, [.entry 2, .entry 2]), (.entry 2, [.entry 1, .entry 4]),
          (.entry 4, [.last])]⟩)) ∧
      (replay .beforeLast ringChanges).entries.Caught .last ∧
      ¬ (replay .beforeLast ringChanges).entries.Caught (.entry 3) := by
  have h : (replay .beforeLast ringChanges).sorted = .error (.refused (.tangled
      ⟨[(.last, []), (.entry 1, [.entry 2, .entry 2]), (.entry 2, [.entry 1, .entry 4]),
        (.entry 4, [.last])]⟩)) := by cbv
  have hcaught := (sorted_tangle .beforeLast ringChanges h).1.caught
  refine ⟨h, (hcaught .last).mp (by decide), ?_⟩
  rw [← hcaught]
  decide

end Roster

end Lineup
