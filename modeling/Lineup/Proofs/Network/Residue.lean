/-
# The residue of a network put together by hand

A network that is put together by hand need not hold together: its counts of incoming arcs may say
more than its lists of successors.  The two are compared here as they are stored, the count of a
node with the number of times that the node occurs in the lists (`inflow`).

As long as no count says too little, the release comes to an end and emits no node twice.  A count
that says too much starves its node, so the release is complete only if all counts are exact and
no path runs in a circle.  Otherwise what remains is all that an overstated node or a circle leads
to, and nothing else (`release_residue`).
-/
import Lineup.Proofs.Network.Release

namespace Lineup.Network

open Relation

/-- How often a node occurs in the lists of successors. -/
def inflow (g : Network) (v : Nat) : Nat := g.next.flatten.count v

/-- The count stored for a node exceeds the arcs that enter it. -/
def Overstated (g : Network) (v : Nat) : Prop := v < g.size ∧ g.inflow v < g.due v

/-- The count stored for a node is always the number of arcs that enter it. -/
def Exact (g : Network) : Prop := ∀ v < g.size, g.due v = g.inflow v

variable {g : Network}

/-! ## Stored counts and lists of successors -/

theorem map_behind (hlen : g.next.length = g.size) : (List.range g.size).map g.behind = g.next := by
  refine List.ext_getElem (by simp [hlen]) ?_
  intro v _ hv
  simp [behind, hv]

theorem demand_eq_inflow (hlen : g.next.length = g.size) (v : Nat) : g.demand v = g.inflow v := by
  rw [demand, spent, List.flatMap_def, map_behind hlen, inflow]

theorem starves_iff_overstated (hlen : g.next.length = g.size) {v : Nat} :
    g.Starves v ↔ g.Overstated v := by
  rw [Starves, Overstated, demand_eq_inflow hlen]

theorem solvent_of_inflow (hlen : g.next.length = g.size)
    (hinside : ∀ out ∈ g.next, ∀ w ∈ out, w < g.size)
    (hcount : ∀ v < g.size, g.inflow v ≤ g.due v) : g.Solvent where
  listed := Nat.le_of_eq hlen.symm
  inside := by
    rintro u v ⟨hu, hv⟩
    have hrow := next_of_lt (hlen ▸ hu)
    exact hinside _ (List.mem_of_getElem? hrow) v hv
  enough := by
    intro v hv
    rw [demand_eq_inflow hlen]
    exact hcount v hv

theorem exact_iff (hcount : ∀ v < g.size, g.inflow v ≤ g.due v) :
    g.Exact ↔ ∀ v, ¬ g.Overstated v := by
  constructor
  · rintro hexact v ⟨hv, hless⟩
    exact Nat.ne_of_gt hless (hexact v hv)
  · intro hnone v hv
    exact Nat.le_antisymm (Nat.not_lt.mp fun hless => hnone v ⟨hv, hless⟩) (hcount v hv)

/-! ## What is held -/

theorem held_iff_overstated (hlen : g.next.length = g.size) {v : Nat} :
    g.Held v ↔ ∃ c, (g.Overstated c ∨ TransGen g.Leads c c) ∧ ReflTransGen g.Leads c v := by
  simp only [Held, Hangs, starves_iff_overstated hlen]

theorem Whole.held_lt (hg : g.Whole) {v : Nat} (h : g.Held v) : v < g.size := by
  obtain ⟨c, hcause, hcv⟩ := h
  rcases ReflTransGen.cases_tail hcv with rfl | ⟨u, -, huv⟩
  · rcases hcause with hstarves | hloop
    · exact hstarves.1
    · obtain ⟨w, hvw, -⟩ := TransGen.head'_iff.mp hloop
      exact hvw.1
  · exact hg.inside huv

theorem forall_not_held_iff (hlen : g.next.length = g.size)
    (hcount : ∀ v < g.size, g.inflow v ≤ g.due v) :
    (∀ v, ¬ g.Held v) ↔ g.Exact ∧ ¬ g.Circular := by
  rw [exact_iff hcount]
  simp only [held_iff_overstated hlen]
  constructor
  · intro hnone
    refine ⟨fun v hover => hnone v ⟨v, Or.inl hover, .refl⟩, ?_⟩
    rintro ⟨v, hloop⟩
    exact hnone v ⟨v, Or.inr hloop, .refl⟩
  · rintro ⟨hexact, hline⟩ v ⟨c, hover | hloop, -⟩
    · exact hexact c hover
    · exact hline ⟨c, hloop⟩

/-! ## The outcome -/

/-- Take any network with one list of successors for every count, in which the lists name nodes
only and no count is below the number of arcs that enter the node; the list of arcs may say
anything.  The release comes to an end without asking for a node that is not there or using up an
arc too many, and it emits no node twice.  If all counts are exact and no path runs in a circle, it
is complete, with the emitted nodes as its order.  If not, it is blocked, and it reports in
ascending order those nodes that an overstated node or a node on a circle leads to, these nodes
included. -/
theorem release_residue (hlen : g.next.length = g.size)
    (hinside : ∀ out ∈ g.next, ∀ w ∈ out, w < g.size)
    (hcount : ∀ v < g.size, g.inflow v ≤ g.due v) :
    ∃ emitted, g.start.run g = .ok emitted ∧ emitted.Nodup ∧
      (g.Exact ∧ ¬ g.Circular →
        g.release = .ok (.complete emitted) ∧ emitted.Perm (List.range g.size)) ∧
      (¬ (g.Exact ∧ ¬ g.Circular) →
        ∃ rest, g.release = .ok (.blocked rest) ∧ rest.Pairwise (· < ·) ∧
          ∀ v, v ∈ rest ↔
            ∃ c, (g.Overstated c ∨ TransGen g.Leads c c) ∧ ReflTransGen g.Leads c v) := by
  have hg := solvent_of_inflow hlen hinside hcount
  obtain ⟨t, hrun, hsound, -⟩ := (Sweep.Sound.start g).run hg
  refine ⟨t.emitted, hrun, hsound.nodup, ?_, ?_⟩
  · intro hfree
    have hnone := (forall_not_held_iff hlen hcount).mpr hfree
    rcases release_cases hg with ⟨order, hrel, hlines, -⟩ | ⟨rest, -, hleft, hne⟩
    · obtain rfl := Except.ok.inj ((run_of_release hrel).symm.trans hrun)
      exact ⟨hrel, hlines.perm⟩
    · obtain ⟨v, hv⟩ := List.exists_mem_of_ne_nil rest hne
      exact absurd (hleft.mem_iff.mp hv).2 (hnone v)
  · intro hstuck
    rcases release_cases hg with ⟨order, -, -, hnone⟩ | ⟨rest, hrel, hleft, -⟩
    · refine absurd ((forall_not_held_iff hlen hcount).mp ?_) hstuck
      exact fun v hheld => hnone v (hg.toWhole.held_lt hheld) hheld
    · refine ⟨rest, hrel, List.pairwise_lt_range.sublist hleft.sublist, ?_⟩
      intro v
      rw [hleft.mem_iff, ← held_iff_overstated hlen, and_iff_right_iff_imp]
      exact hg.toWhole.held_lt

/-- Node 1 gets both its arcs, node 2 waits for one more than there is, node 3 leads to itself and
to node 4.  The list of arcs speaks of other nodes. -/
def overstated : Network :=
  ⟨[(9, 9)], [[1, 1], [2], [], [3, 4], [], []], [0, 2, 2, 1, 1, 0]⟩

/-- Nodes 0, 1 and 5 are emitted.  The others are left, node 2 for its count and the rest for the
circle. -/
theorem release_residue_overstated :
    overstated.next.length = overstated.size ∧
      (∀ out ∈ overstated.next, ∀ w ∈ out, w < overstated.size) ∧
      (∀ v < overstated.size, overstated.inflow v ≤ overstated.due v) ∧
      ¬ (overstated.Exact ∧ ¬ overstated.Circular) ∧
      overstated.release = .ok (.blocked [2, 3, 4]) ∧
      ∀ v, v ∈ [2, 3, 4] ↔ ∃ c, (overstated.Overstated c ∨ TransGen overstated.Leads c c) ∧
        ReflTransGen overstated.Leads c v := by
  have hlen : overstated.next.length = overstated.size := rfl
  have hinside : ∀ out ∈ overstated.next, ∀ w ∈ out, w < overstated.size := by decide
  have hcount : ∀ v < overstated.size, overstated.inflow v ≤ overstated.due v := by decide
  have hstuck : ¬ (overstated.Exact ∧ ¬ overstated.Circular) := by
    rintro ⟨hexact, -⟩
    exact absurd (hexact 2 (by decide)) (by decide)
  have hrel : overstated.release = .ok (.blocked [2, 3, 4]) := by cbv
  obtain ⟨emitted, -, -, -, hblocked⟩ := release_residue hlen hinside hcount
  obtain ⟨rest, hrel', -, hmem⟩ := hblocked hstuck
  obtain rfl : rest = [2, 3, 4] := by
    rw [hrel] at hrel'
    cases hrel'
    rfl
  exact ⟨hlen, hinside, hcount, hstuck, hrel, hmem⟩

end Lineup.Network
