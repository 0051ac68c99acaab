/-
# Networks that are laid arc by arc

A network keeps three views of its arcs: the list of arcs, the lists of successors and the counts
of incoming arcs.  A network is `Tied` when the latter two say what the list of arcs says.  The
blank network is tied and laying an arc keeps a network tied (`Tied.addArc`), hence so is every
network that is laid from arcs between its nodes (`ofArcs_tied`).

In a tied network the counts are exact, so no node starves and a node can only be held by a
circle (`Tied.held_iff`).
-/
import Lineup.Proofs.Network.Release

namespace Lineup.Network

open Relation

/-- The lists of successors and the counts of incoming arcs agree with the list of arcs. -/
structure Tied (g : Network) : Prop where
  length : g.next.length = g.size
  ends : ∀ arc ∈ g.arcs, arc.1 < g.size ∧ arc.2 < g.size
  behind : ∀ v, g.behind v = (g.arcs.filter (·.1 == v)).map (·.2)
  due : ∀ v, g.due v = g.arcs.countP (·.2 == v)

/-! ## Laying keeps the views in step -/

theorem tied_blank (n : Nat) : (blank n).Tied := by
  refine ⟨by simp [size, blank], by simp [blank], ?_, ?_⟩
  · intro v
    by_cases hv : v < n <;> simp [Network.behind, blank, hv]
  · intro v
    by_cases hv : v < n <;> simp [Network.due, blank, hv]

theorem addArc_eq {g : Network} {a b : Nat} (ha : a < g.next.length) (hb : b < g.size) :
    g.addArc (a, b) = .ok
      { arcs := g.arcs ++ [(a, b)]
        next := g.next.set a (g.behind a ++ [b])
        incoming := g.incoming.set b (g.due b + 1) } := by
  simp only [Network.addArc, next_of_lt ha, incoming_of_lt hb]

theorem Tied.addArc {g : Network} (h : g.Tied) {arc : Nat × Nat} (ha : arc.1 < g.size)
    (hb : arc.2 < g.size) :
    ∃ t, g.addArc arc = .ok t ∧ t.Tied ∧ t.arcs = g.arcs ++ [arc] ∧ t.size = g.size := by
  obtain ⟨a, b⟩ := arc
  have ha' : a < g.next.length := h.length ▸ ha
  have hb' : b < g.incoming.length := hb
  refine ⟨_, addArc_eq ha' hb', ⟨?_, ?_, ?_, ?_⟩, rfl, by simp [size]⟩
  · simpa [size] using h.length
  · intro arc harc
    simp only [size, List.length_set]
    rcases List.mem_append.mp harc with harc | harc
    · exact h.ends arc harc
    · obtain rfl := List.mem_singleton.mp harc
      exact ⟨ha, hb⟩
  · intro v
    by_cases hv : a = v
    · subst hv
      simp [Network.behind, ha', ← h.behind]
    · have hbehind := h.behind v
      rw [Network.behind] at hbehind ⊢
      rw [List.getElem?_set_ne hv, hbehind]
      simp [hv]
  · intro v
    by_cases hv : b = v
    · subst hv
      simp [Network.due, hb', ← h.due]
    · have hdue := h.due v
      rw [Network.due] at hdue ⊢
      rw [List.getElem?_set_ne hv, hdue]
      simp [hv]

theorem Tied.foldlM {arcs : List (Nat × Nat)} {g : Network} (h : g.Tied)
    (hends : ∀ arc ∈ arcs, arc.1 < g.size ∧ arc.2 < g.size) :
    ∃ t, arcs.foldlM Network.addArc g = .ok t ∧ t.Tied ∧ t.arcs = g.arcs ++ arcs ∧
      t.size = g.size := by
  induction arcs generalizing g with
  | nil => exact ⟨g, rfl, h, by simp, rfl⟩
  | cons arc arcs ih =>
      obtain ⟨ha, hb⟩ := hends arc List.mem_cons_self
      obtain ⟨t, ht, htied, harcs, hsize⟩ := h.addArc ha hb
      obtain ⟨t', ht', htied', harcs', hsize'⟩ := ih htied
        (fun x hx => hsize ▸ hends x (List.mem_cons_of_mem _ hx))
      refine ⟨t', ?_, htied', by rw [harcs', harcs, List.append_assoc]; rfl,
        hsize'.trans hsize⟩
      simp only [List.foldlM_cons, ht]
      exact ht'

theorem ofArcs_tied {n : Nat} {arcs : List (Nat × Nat)}
    (hends : ∀ arc ∈ arcs, arc.1 < n ∧ arc.2 < n) :
    ∃ g, ofArcs n arcs = .ok g ∧ g.Tied ∧ g.arcs = arcs ∧ g.size = n := by
  obtain ⟨g, hg, htied, harcs, hsize⟩ := (tied_blank n).foldlM (by simpa using hends)
  exact ⟨g, hg, htied, by simpa [blank] using harcs, by simpa using hsize⟩

/-- The lists of successors and the counts, node after node, as the arcs give them: the ends of the
arcs that leave a node, in the order in which they were laid, and the number of those that enter
it. -/
structure InStep (g : Network) : Prop where
  next : g.next = (List.range g.size).map fun v => (g.arcs.filter (·.1 == v)).map (·.2)
  incoming : g.incoming = (List.range g.size).map fun v => g.arcs.countP (·.2 == v)

theorem Tied.inStep {g : Network} (h : g.Tied) : g.InStep := by
  constructor
  · refine List.ext_getElem (by simp [h.length]) ?_
    intro v hv _
    have hnext := (List.getElem?_eq_getElem hv).symm.trans (next_of_lt hv)
    rw [List.getElem_map, List.getElem_range, Option.some.inj hnext, h.behind]
  · refine List.ext_getElem (by simp [size]) ?_
    intro v hv _
    have hcount := (List.getElem?_eq_getElem hv).symm.trans (incoming_of_lt hv)
    rw [List.getElem_map, List.getElem_range, Option.some.inj hcount, h.due]

/-! ## Steps are arcs -/

theorem Tied.leads_iff {g : Network} (h : g.Tied) {u v : Nat} :
    g.Leads u v ↔ (u, v) ∈ g.arcs := by
  rw [Leads, h.behind]
  constructor
  · rintro ⟨-, hv⟩
    obtain ⟨⟨a, b⟩, harc, rfl⟩ := List.mem_map.mp hv
    obtain ⟨harc, hstart⟩ := List.mem_filter.mp harc
    have hau : a = u := by simpa using hstart
    exact hau ▸ harc
  · intro harc
    exact ⟨(h.ends _ harc).1, List.mem_map.mpr ⟨(u, v), by simpa using harc, rfl⟩⟩

theorem Tied.whole {g : Network} (h : g.Tied) : g.Whole where
  listed := Nat.le_of_eq h.length.symm
  inside := fun huv => (h.ends _ (h.leads_iff.mp huv)).2

/-! ## The counts are exact

Sorting the arcs by the node they leave, node after node, loses none of them. -/

theorem countP_lt_succ (arcs : List (Nat × Nat)) (n v : Nat) :
    arcs.countP (fun arc => arc.2 == v && decide (arc.1 < n)) +
        arcs.countP (fun arc => arc.2 == v && arc.1 == n) =
      arcs.countP fun arc => arc.2 == v && decide (arc.1 < n + 1) := by
  induction arcs with
  | nil => rfl
  | cons arc arcs ih =>
      have hone : (if (arc.2 == v && decide (arc.1 < n)) = true then 1 else 0) +
            (if (arc.2 == v && arc.1 == n) = true then 1 else 0) =
          if (arc.2 == v && decide (arc.1 < n + 1)) = true then 1 else 0 := by
        simp only [Bool.and_eq_true, beq_iff_eq, decide_eq_true_eq]
        split <;> split <;> split <;> omega
      simp only [List.countP_cons]
      omega

theorem count_ends_below (arcs : List (Nat × Nat)) (n v : Nat) :
    ((List.range n).flatMap fun u => (arcs.filter (·.1 == u)).map (·.2)).count v =
      arcs.countP fun arc => arc.2 == v && decide (arc.1 < n) := by
  induction n with
  | zero => simp
  | succ n ih =>
      rw [List.range_succ, List.flatMap_append, List.count_append, ih, ← countP_lt_succ]
      simp [List.count_eq_countP, List.countP_map, List.countP_filter, Function.comp_def]

theorem Tied.demand_eq {g : Network} (h : g.Tied) (v : Nat) : g.demand v = g.due v := by
  have hbelow : ∀ arc ∈ g.arcs, (arc.2 == v && decide (arc.1 < g.size)) = (arc.2 == v) := by
    intro arc harc
    simp [(h.ends arc harc).1]
  calc g.demand v
      = ((List.range g.size).flatMap fun u => (g.arcs.filter (·.1 == u)).map (·.2)).count v := by
        simp [demand, spent, ← h.behind]
    _ = g.arcs.countP (fun arc => arc.2 == v && decide (arc.1 < g.size)) :=
        count_ends_below g.arcs g.size v
    _ = g.arcs.countP (·.2 == v) := List.countP_congr fun arc harc => by rw [hbelow arc harc]
    _ = g.due v := (h.due v).symm

theorem Tied.solvent {g : Network} (h : g.Tied) : g.Solvent where
  toWhole := h.whole
  enough := fun v _ => Nat.le_of_eq (h.demand_eq v)

theorem Tied.held_iff {g : Network} (h : g.Tied) {v : Nat} :
    g.Held v ↔ ∃ c, TransGen g.Leads c c ∧ ReflTransGen g.Leads c v := by
  constructor
  · rintro ⟨c, hstarves | hloop, hcv⟩
    · exact absurd (h.demand_eq c) (Nat.ne_of_lt hstarves.2)
    · exact ⟨c, hloop, hcv⟩
  · rintro ⟨c, hloop, hcv⟩
    exact ⟨c, Or.inr hloop, hcv⟩

end Lineup.Network
