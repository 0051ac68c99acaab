/-
# Origins

Two entries that no chain of bonds sets against each other are put in line by what they wait for.
The *origins* of a spot are the spots that nothing stands ahead of and that the spot hangs on, the
spot itself if nothing stands ahead of it.  Origins take their turns in the order of registration,
the first anchor ahead of all entries, and what hangs on an origin comes out before the next origin
does.  So an entry stands ahead of another one if some origin of the other is registered after all
origins of the first (`line_of_origins`).

Entries with nothing ahead of them are their own origins and keep the order of registration among
themselves.  If no entry has anything ahead of it, the whole line keeps that order
(`line_of_unbound`).
-/
import Lineup.Proofs.Network.Turns
import Lineup.Proofs.Roster.Line

namespace Lineup

open List Relation

namespace Listing

variable {N V : Type} [BEq N]

/-- No bond puts anything ahead of the spot. -/
def Unbound (l : Listing N V) (s : Spot N) : Prop := ∀ t, ¬ l.Binds t s

/-- The spot has nothing ahead of it, and it is `t` or a chain of bonds leads from it to `t`. -/
structure Origin (l : Listing N V) (s t : Spot N) : Prop where
  unbound : l.Unbound s
  leads : ReflTransGen l.Binds s t

theorem Origin.mem {l : Listing N V} {s t : Spot N} (h : l.Origin s t) (ht : t ∈ l.spots) :
    s ∈ l.spots := by
  rcases reflTransGen_iff_eq_or_transGen.mp h.leads with rfl | hpath
  · exact ht
  · obtain ⟨u, hsu, -⟩ := TransGen.head'_iff.mp hpath
    exact hsu.mem.1

theorem Unbound.eq_of_origin {l : Listing N V} {s t : Spot N} (ht : l.Unbound t)
    (h : l.Origin s t) : s = t := by
  rcases reflTransGen_iff_eq_or_transGen.mp h.leads with heq | hpath
  · exact heq.symm
  · obtain ⟨u, -, hut⟩ := TransGen.tail'_iff.mp hpath
    exact absurd hut (ht u)

variable [EquivBEq N] {l : Listing N V} {g : Network}

theorem Distinct.number_lt (hl : l.Distinct) {u v : Nat} {s t : Spot N} (hu : l.Denotes u s)
    (hv : l.Denotes v t) (h : [s, t].Sublist l.spots) : u < v := by
  obtain ⟨numbers, hsub, hall⟩ := exists_sublist_of_forall₂ h (range_spots l).flip
  match numbers, hall with
  | [i, j], .cons hi (.cons hj .nil) =>
      obtain rfl := hl.biUnique.1 hi hu
      obtain rfl := hl.biUnique.1 hj hv
      have hasc := List.pairwise_lt_range.sublist hsub
      exact List.rel_of_pairwise_cons hasc List.mem_cons_self

theorem Drawn.mem_roots_iff (hg : l.Drawn g) (hl : l.Distinct) {v : Nat} {s : Spot N}
    (hv : l.Denotes v s) : v ∈ g.roots ↔ l.Unbound s := by
  rw [hg.tied.mem_roots_iff]
  constructor
  · rintro ⟨-, hno⟩ t hts
    obtain ⟨u, hu⟩ := exists_number hts.mem.1
    exact hno u ((hg.leads_iff hl hu hv).mpr hts)
  · intro hno
    refine ⟨hg.size ▸ hv.lt, ?_⟩
    intro u huv
    obtain ⟨t, ht⟩ := exists_denotes (hg.size ▸ huv.1)
    exact hno t ((hg.leads_iff hl ht hv).mp huv)

end Listing

namespace Roster

open Listing

variable {N V : Type} [BEq N] [EquivBEq N] {r : Roster N V} {line : List (N × V)}

/-- If some origin of an entry is registered after all origins of another one, the other one stands
ahead of it. -/
theorem line_of_origins (hl : r.entries.Distinct) (h : r.sorted = .ok line) {a b : Entry N V}
    (ha : a ∈ r.entries) (hb : b ∈ r.entries) {w : Spot N}
    (hw : r.entries.Origin w (.entry b.name))
    (hbefore : ∀ s, r.entries.Origin s (.entry a.name) → [s, w].Sublist r.entries.spots) :
    [shown a, shown b].Sublist line := by
  obtain ⟨g, order, hg, hrel, hall⟩ := release_of_line h
  obtain ⟨i, hi⟩ := List.mem_iff_getElem?.mp ha
  obtain ⟨j, hj⟩ := List.mem_iff_getElem?.mp hb
  obtain ⟨c, hc⟩ := exists_number (hw.mem (entry_mem_spots hb))
  have hroot : c ∈ g.roots := (hg.mem_roots_iff hl hc).mpr hw.unbound
  have hreach := (hg.reach_iff hl hc (denotes_entry hj)).mpr hw.leads
  have hearlier : ∀ d ∈ g.roots, ReflTransGen g.Leads d (entryNode i) → d < c := by
    intro d hd hdi
    have hlt : d < g.size := (hg.tied.mem_roots_iff.mp hd).1
    obtain ⟨s, hs⟩ := exists_denotes (hg.size ▸ hlt)
    refine hl.number_lt hs hc (hbefore s ⟨(hg.mem_roots_iff hl hs).mp hd, ?_⟩)
    exact (hg.reach_iff hl hs (denotes_entry hi)).mp hdi
  refine pair_sublist_line hall hi hj (hg.tied.sublist_of_origins hrel hroot ?_ hearlier hreach ?_)
  · exact hg.size ▸ (denotes_entry hi).lt
  · exact hg.size ▸ (denotes_entry hj).lt

theorem line_of_unbound (hl : r.entries.Distinct) (h : r.sorted = .ok line)
    (hfree : ∀ e ∈ r.entries, r.entries.Unbound (.entry e.name)) :
    line = r.entries.map shown := by
  obtain ⟨g, order, hg, hrel, hall⟩ := release_of_line h
  have hroots : (List.range r.entries.nodeCount).filter (2 ≤ ·) = g.roots.filter (2 ≤ ·) := by
    rw [Network.roots, List.filter_filter, hg.size]
    refine List.filter_congr ?_
    intro v hv
    rw [eq_comm, Bool.and_eq_left_iff_imp, decide_eq_true_iff, beq_iff_eq, ← Network.mem_roots]
    intro hentry
    obtain ⟨i, rfl⟩ := Nat.exists_eq_add_of_le' hentry
    have hi : i < r.entries.length := Nat.lt_of_add_lt_add_right (List.mem_range.mp hv)
    have he := List.getElem?_eq_getElem hi
    exact (hg.mem_roots_iff hl (denotes_entry he)).mpr (hfree _ (List.getElem_mem hi))
  have hperm : order.Perm (List.range r.entries.nodeCount) :=
    hg.size ▸ (hg.tied.lines_of_release hrel).perm
  have hsub : ((List.range r.entries.nodeCount).filter (2 ≤ ·)).Sublist (order.filter (2 ≤ ·)) :=
    hroots ▸ (Network.roots_sublist hrel).filter _
  have horder : (List.range r.entries.nodeCount).filter (2 ≤ ·) = order.filter (2 ≤ ·) :=
    hsub.eq_of_length (hperm.filter _).length_eq.symm
  rw [← horder] at hall
  exact List.right_unique_forall₂' (rightUnique_carries r.entries) hall (range_carries r.entries)

end Roster

end Lineup
