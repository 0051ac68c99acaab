/-
# Chains of bonds

The network of a listing has the arcs of the listing and nothing else (`Drawn`), and it can always
be drawn.  A path in it is a chain of bonds and a circle in it is a circle of bonds, so a node of
it can never be released exactly when its spot is caught: when the spot lies on a circle of bonds
or a chain of bonds leads to it from one.
-/
import Lineup.Proofs.Network.Agreement
import Lineup.Proofs.Listing.Bonds

namespace Lineup.Listing

open Relation

variable {N V : Type} [BEq N]

/-- A network that has the numbers and the arcs of a listing, its three views in step. -/
structure Drawn (l : Listing N V) (g : Network) : Prop where
  tied : g.Tied
  arcs : g.arcs = l.arcs
  size : g.size = l.nodeCount

/-- A spot lies on a circle of bonds, or behind one. -/
def Caught (l : Listing N V) (s : Spot N) : Prop :=
  ∃ c, TransGen l.Binds c c ∧ ReflTransGen l.Binds c s

/-! ## The network can be drawn -/

theorem entryArcs_lt {l : Listing N V} {e : Entry N V} {i : Nat} (hi : i < l.length) :
    ∀ arc ∈ l.entryArcs e i, arc.1 < l.nodeCount ∧ arc.2 < l.nodeCount := by
  intro arc harc
  have hnode : entryNode i < l.nodeCount := Nat.add_lt_add_right hi 2
  rcases List.mem_append.mp harc with harc | harc
  · obtain ⟨v, hv, rfl⟩ := List.mem_map.mp harc
    obtain ⟨t, -, ht⟩ := List.mem_filterMap.mp hv
    exact ⟨node?_lt ht, hnode⟩
  · obtain ⟨v, hv, rfl⟩ := List.mem_map.mp harc
    obtain ⟨t, -, ht⟩ := List.mem_filterMap.mp hv
    exact ⟨hnode, node?_lt ht⟩

theorem arcs_lt (l : Listing N V) :
    ∀ arc ∈ l.arcs, arc.1 < l.nodeCount ∧ arc.2 < l.nodeCount := by
  intro arc harc
  rcases List.mem_cons.mp harc with rfl | harc
  · exact ⟨Nat.succ_pos _, Nat.succ_lt_succ (Nat.succ_pos _)⟩
  · obtain ⟨⟨e, i⟩, hei, harc⟩ := List.mem_flatMap.mp harc
    have hi := (List.getElem?_eq_some_iff.mp (List.mem_zipIdx_iff_getElem?.mp hei)).1
    exact entryArcs_lt hi arc harc

theorem exists_drawn (l : Listing N V) :
    ∃ g, Network.ofArcs l.nodeCount l.arcs = .ok g ∧ l.Drawn g := by
  obtain ⟨g, hg, htied, harcs, hsize⟩ := Network.ofArcs_tied (arcs_lt l)
  exact ⟨g, hg, htied, harcs, hsize⟩

theorem exists_network (l : Listing N V) :
    ∃ g, l.Drawn g ∧ l.network =
      match l.objection? with
      | some reason => .error (.refused reason)
      | none => .ok g := by
  obtain ⟨g, hg, hdrawn⟩ := exists_drawn l
  refine ⟨g, hdrawn, ?_⟩
  cases hobj : l.objection? <;>
    simp [network, hg, hobj, Failure.ofBreach, bind, Except.bind, throw, throwThe, pure,
      MonadExceptOf.throw, Except.pure]

/-! ## Steps, paths and circles -/

theorem transGen_follow {α β : Type} {r : α → α → Prop} {p : β → β → Prop} {D : α → β → Prop}
    (hstep : ∀ {u v s}, r u v → D u s → ∃ t, D v t ∧ p s t) {u v : α} {s : β}
    (huv : TransGen r u v) (hu : D u s) : ∃ t, D v t ∧ TransGen p s t := by
  induction huv with
  | single huv =>
      obtain ⟨t, ht, hst⟩ := hstep huv hu
      exact ⟨t, ht, .single hst⟩
  | tail _ hvw ih =>
      obtain ⟨t, ht, hst⟩ := ih
      obtain ⟨x, hx, htx⟩ := hstep hvw ht
      exact ⟨x, hx, hst.tail htx⟩

theorem Binds.mem {l : Listing N V} {s t : Spot N} (h : l.Binds s t) :
    s ∈ l.spots ∧ t ∈ l.spots := by
  cases h with
  | anchors => exact ⟨List.mem_cons_self, List.mem_cons_of_mem _ List.mem_cons_self⟩
  | after he _ hs _ => exact ⟨hs, entry_mem_spots he⟩
  | before he _ hs _ => exact ⟨entry_mem_spots he, hs⟩

/-- An entry before an anchor is chained to every entry after that anchor, and an entry before the
first anchor to every entry after the last one too. -/
theorem chain_at_anchor {l : Listing N V} {a b : Entry N V} (ha : a ∈ l) (hb : b ∈ l)
    {s t : Spot N} (hs : s ∈ a.bounds.targets .before) (ht : t ∈ b.bounds.targets .after)
    (hanchor : t.isAnchor = true) (hst : s = t ∨ s = .first) :
    TransGen l.Binds (.entry a.name) (.entry b.name) := by
  have hfirst : .first ∈ l.spots := List.mem_cons_self
  have hlast : .last ∈ l.spots := List.mem_cons_of_mem _ List.mem_cons_self
  cases t with
  | first =>
      obtain rfl : s = .first := hst.elim id id
      have hab : l.Binds (.entry a.name) .first := .before ha hs hfirst rfl
      exact .tail (.single hab) (.after hb ht hfirst rfl)
  | last =>
      have hbound : l.Binds .last (.entry b.name) := .after hb ht hlast rfl
      rcases hst with rfl | rfl
      · have hab : l.Binds (.entry a.name) .last := .before ha hs hlast rfl
        exact .tail (.single hab) hbound
      · have hab : l.Binds (.entry a.name) .first := .before ha hs hfirst rfl
        exact .tail (.tail (.single hab) .anchors) hbound
  | entry name => cases hanchor

section Distinct

variable [EquivBEq N] {l : Listing N V} {g : Network}

theorem Drawn.leads_iff (hg : l.Drawn g) (hl : l.Distinct) {u v : Nat} {s t : Spot N}
    (hu : l.Denotes u s) (hv : l.Denotes v t) : g.Leads u v ↔ l.Binds s t := by
  rw [hg.tied.leads_iff, hg.arcs, hl.arc_iff hu hv]

/-- The nodes behind a node denote the ends of the bonds that set out from its spot, in the order
in which the bonds were declared. -/
theorem Drawn.behind_bondsFrom (hg : l.Drawn g) (hl : l.Distinct) {v : Nat} {s : Spot N}
    (hv : l.Denotes v s) : List.Forall₂ l.Denotes (g.behind v) (l.bondsFrom s) := by
  rw [hg.tied.behind, hg.arcs]
  refine List.rel_map (R := l.Shows) (fun _ _ harc => harc.2) ?_
  refine List.rel_filter (R := l.Shows) ?_ hl.arcs_bonds
  rintro ⟨u, w⟩ ⟨t, x⟩ ⟨hu, -⟩
  exact beq_iff_eq.trans (hl.number_iff hu hv)

theorem Drawn.step (hg : l.Drawn g) (hl : l.Distinct) {u v : Nat} {s : Spot N}
    (huv : g.Leads u v) (hu : l.Denotes u s) : ∃ t, l.Denotes v t ∧ l.Binds s t := by
  obtain ⟨t, ht⟩ := exists_denotes (hg.size ▸ hg.tied.whole.inside huv)
  exact ⟨t, ht, (hg.leads_iff hl hu ht).mp huv⟩

theorem Drawn.bond (hg : l.Drawn g) (hl : l.Distinct) {u : Nat} {s t : Spot N}
    (hst : l.Binds s t) (hu : l.Denotes u s) : ∃ v, l.Denotes v t ∧ g.Leads u v := by
  obtain ⟨v, hv⟩ := exists_number hst.mem.2
  exact ⟨v, hv, (hg.leads_iff hl hu hv).mpr hst⟩

theorem Drawn.path_iff (hg : l.Drawn g) (hl : l.Distinct) {u v : Nat} {s t : Spot N}
    (hu : l.Denotes u s) (hv : l.Denotes v t) :
    TransGen g.Leads u v ↔ TransGen l.Binds s t := by
  constructor
  · intro huv
    obtain ⟨x, hx, hsx⟩ := transGen_follow (D := l.Denotes) (hg.step hl) huv hu
    rwa [hl.biUnique.2 hv hx]
  · intro hst
    obtain ⟨w, hw, huw⟩ := transGen_follow (D := fun s u => l.Denotes u s) (hg.bond hl) hst hu
    rwa [hl.biUnique.1 hv hw]

theorem Drawn.reach_iff (hg : l.Drawn g) (hl : l.Distinct) {u v : Nat} {s t : Spot N}
    (hu : l.Denotes u s) (hv : l.Denotes v t) :
    ReflTransGen g.Leads u v ↔ ReflTransGen l.Binds s t := by
  rw [reflTransGen_iff_eq_or_transGen, reflTransGen_iff_eq_or_transGen, hg.path_iff hl hu hv]
  refine or_congr_left ⟨?_, ?_⟩
  · rintro rfl
    exact hl.biUnique.2 hv hu
  · rintro rfl
    exact hl.biUnique.1 hv hu

theorem Drawn.circular_iff (hg : l.Drawn g) (hl : l.Distinct) :
    g.Circular ↔ ∃ s, TransGen l.Binds s s := by
  constructor
  · rintro ⟨v, hloop⟩
    obtain ⟨w, hvw, -⟩ := TransGen.head'_iff.mp hloop
    obtain ⟨s, hs⟩ := exists_denotes (hg.size ▸ hvw.1)
    exact ⟨s, (hg.path_iff hl hs hs).mp hloop⟩
  · rintro ⟨s, hloop⟩
    obtain ⟨t, hst, -⟩ := TransGen.head'_iff.mp hloop
    obtain ⟨v, hv⟩ := exists_number hst.mem.1
    exact ⟨v, (hg.path_iff hl hv hv).mpr hloop⟩

/-- A node can never be released exactly when its spot is caught by a circle of bonds. -/
theorem Drawn.held_iff (hg : l.Drawn g) (hl : l.Distinct) {v : Nat} {s : Spot N}
    (hv : l.Denotes v s) : g.Held v ↔ l.Caught s := by
  rw [hg.tied.held_iff]
  constructor
  · rintro ⟨c, hloop, hcv⟩
    obtain ⟨w, hcw, -⟩ := TransGen.head'_iff.mp hloop
    obtain ⟨t, ht⟩ := exists_denotes (hg.size ▸ hcw.1)
    exact ⟨t, (hg.path_iff hl ht ht).mp hloop, (hg.reach_iff hl ht hv).mp hcv⟩
  · rintro ⟨t, hloop, hts⟩
    obtain ⟨x, htx, -⟩ := TransGen.head'_iff.mp hloop
    obtain ⟨c, hc⟩ := exists_number htx.mem.1
    exact ⟨c, (hg.path_iff hl hc hc).mpr hloop, (hg.reach_iff hl hc hv).mpr hts⟩

end Distinct

end Lineup.Listing
