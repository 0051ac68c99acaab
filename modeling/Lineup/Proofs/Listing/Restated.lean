/-
# Listings that say the same

A listing can be written down in many ways: its entries in another order, the targets of a side in
another order, or the same target several times.  Two listings restate each other when neither says
anything that the other does not say (`Restates`): they hold the same names, and under each name
the same sides are declared with the same targets.

What bounds ask for does not depend on the way they are written down.  A bond of one listing is a
bond of any listing that restates it, between the spots that equal its ends (`Restates.binds`), and
hence so are chains, circles and what is caught by them, and the sides that are met.  All this is
proved in one direction only, because restating goes both ways (`Restates.symm`).
-/
import Lineup.Proofs.Listing.Objections

namespace Lineup

open Relation

variable {N V W : Type} [BEq N]

/-! ## Lists as sets -/

/-- Two lists hold the same items, each of them in any place and any number of times. -/
structure SameItems {α : Type} [BEq α] (xs ys : List α) : Prop where
  forth : ∀ x ∈ xs, ∃ y ∈ ys, (x == y) = true
  back : ∀ y ∈ ys, ∃ x ∈ xs, (x == y) = true

namespace SameItems

variable {α : Type} [BEq α] {xs ys : List α}

instance : Decidable (SameItems xs ys) :=
  decidable_of_iff ((∀ x ∈ xs, ∃ y ∈ ys, (x == y) = true) ∧ ∀ y ∈ ys, ∃ x ∈ xs, (x == y) = true)
    ⟨fun h => ⟨h.1, h.2⟩, fun h => ⟨h.forth, h.back⟩⟩

theorem eq_nil (h : SameItems xs ys) (hxs : xs = []) : ys = [] := by
  refine List.eq_nil_iff_forall_not_mem.mpr ?_
  intro y hy
  obtain ⟨x, hx, -⟩ := h.back y hy
  exact absurd (hxs ▸ hx) List.not_mem_nil

theorem symm [EquivBEq α] (h : SameItems xs ys) : SameItems ys xs where
  forth := by
    intro y hy
    obtain ⟨x, hx, hxy⟩ := h.back y hy
    exact ⟨x, hx, BEq.symm hxy⟩
  back := by
    intro x hx
    obtain ⟨y, hy, hxy⟩ := h.forth x hx
    exact ⟨y, hy, BEq.symm hxy⟩

theorem of_perm [ReflBEq α] (h : xs.Perm ys) : SameItems xs ys where
  forth := fun x hx => ⟨x, h.mem_iff.mp hx, BEq.rfl⟩
  back := fun y hy => ⟨y, h.mem_iff.mpr hy, BEq.rfl⟩

theorem mem_filterMap_iff {β : Type} (h : SameItems xs ys) {f : α → Option β}
    (hf : ∀ {x y}, (x == y) = true → f x = f y) {b : β} :
    b ∈ xs.filterMap f ↔ b ∈ ys.filterMap f := by
  simp only [List.mem_filterMap]
  constructor
  · rintro ⟨x, hx, hb⟩
    obtain ⟨y, hy, hxy⟩ := h.forth x hx
    exact ⟨y, hy, hf hxy ▸ hb⟩
  · rintro ⟨y, hy, hb⟩
    obtain ⟨x, hx, hxy⟩ := h.back y hy
    exact ⟨x, hx, hf hxy ▸ hb⟩

end SameItems

/-! ## Restating -/

/-- What can be decided on one side can be decided on all of them. -/
instance {p : Side → Prop} [DecidablePred p] : Decidable (∀ side, p side) :=
  decidable_of_iff (p .before ∧ p .after)
    ⟨fun h side => side.casesOn h.1 h.2, fun h => ⟨h .before, h .after⟩⟩

/-- Two entries have equal names, and declare the same sides with the same targets. -/
structure Entry.Restates (e : Entry N V) (f : Entry N W) : Prop where
  name : (e.name == f.name) = true
  declares : ∀ side, e.bounds.declares side = f.bounds.declares side
  targets : ∀ side, SameItems (e.bounds.targets side) (f.bounds.targets side)

instance (e : Entry N V) (f : Entry N W) : Decidable (e.Restates f) :=
  decidable_of_iff ((e.name == f.name) = true ∧
      (∀ side, e.bounds.declares side = f.bounds.declares side) ∧
      ∀ side, SameItems (e.bounds.targets side) (f.bounds.targets side))
    ⟨fun h => ⟨h.1, h.2.1, h.2.2⟩, fun h => ⟨h.name, h.declares, h.targets⟩⟩

theorem Entry.Restates.symm [EquivBEq N] {e : Entry N V} {f : Entry N W} (h : e.Restates f) :
    f.Restates e :=
  ⟨BEq.symm h.name, fun side => (h.declares side).symm, fun side => (h.targets side).symm⟩

namespace Listing

/-- Two listings hold the same entries in any order, values aside. -/
structure Restates (l : Listing N V) (k : Listing N W) : Prop where
  forth : ∀ e ∈ l, ∃ f ∈ k, e.Restates f
  back : ∀ f ∈ k, ∃ e ∈ l, e.Restates f

instance (l : Listing N V) (k : Listing N W) : Decidable (l.Restates k) :=
  decidable_of_iff ((∀ e ∈ l, ∃ f ∈ k, e.Restates f) ∧ ∀ f ∈ k, ∃ e ∈ l, e.Restates f)
    ⟨fun h => ⟨h.1, h.2⟩, fun h => ⟨h.forth, h.back⟩⟩

namespace Restates

variable {l : Listing N V} {k : Listing N W} {s t s' t' : Spot N}

theorem spot (h : l.Restates k) (hs : s ∈ l.spots) : ∃ t ∈ k.spots, (s == t) = true := by
  rcases List.mem_cons.mp hs with rfl | hs
  · exact ⟨.first, List.mem_cons_self, rfl⟩
  rcases List.mem_cons.mp hs with rfl | hs
  · exact ⟨.last, List.mem_cons_of_mem _ List.mem_cons_self, rfl⟩
  · obtain ⟨e, he, rfl⟩ := List.mem_map.mp hs
    obtain ⟨f, hf, hef⟩ := h.forth e he
    exact ⟨.entry f.name, entry_mem_spots hf, hef.name⟩

variable [EquivBEq N]

theorem symm (h : l.Restates k) : k.Restates l where
  forth := by
    intro f hf
    obtain ⟨e, he, hef⟩ := h.back f hf
    exact ⟨e, he, hef.symm⟩
  back := by
    intro e he
    obtain ⟨f, hf, hef⟩ := h.forth e he
    exact ⟨f, hf, hef.symm⟩

/-- The spot of `k` that equals `s` is the only one, so it may be given in any way. -/
theorem binds (h : l.Restates k) (hk : k.Distinct) (hst : l.Binds s t) (hs : s' ∈ k.spots)
    (ht : t' ∈ k.spots) (hss : (s == s') = true) (htt : (t == t') = true) : k.Binds s' t' := by
  cases hst with
  | anchors =>
      obtain rfl := hk.eq_of_beq (l := k) List.mem_cons_self hs hss
      obtain rfl := hk.eq_of_beq (l := k) (List.mem_cons_of_mem _ List.mem_cons_self) ht htt
      exact .anchors
  | after he hx _ hsx =>
      obtain ⟨f, hf, hef⟩ := h.forth _ he
      obtain ⟨y, hy, hxy⟩ := (hef.targets .after).forth _ hx
      have hft : (Spot.entry f.name == t') = true :=
        BEq.trans (b := Spot.entry _) (BEq.symm hef.name) htt
      obtain rfl := hk.eq_of_beq (entry_mem_spots hf) ht hft
      exact .after hf hy hs (BEq.trans (BEq.symm hss) (BEq.trans hsx hxy))
  | before he hx _ htx =>
      obtain ⟨f, hf, hef⟩ := h.forth _ he
      obtain ⟨y, hy, hxy⟩ := (hef.targets .before).forth _ hx
      have hfs : (Spot.entry f.name == s') = true :=
        BEq.trans (b := Spot.entry _) (BEq.symm hef.name) hss
      obtain rfl := hk.eq_of_beq (entry_mem_spots hf) hs hfs
      exact .before hf hy ht (BEq.trans (BEq.symm htt) (BEq.trans htx hxy))

theorem step (h : l.Restates k) (hk : k.Distinct) (hst : l.Binds s t)
    (hs : s' ∈ k.spots ∧ (s == s') = true) :
    ∃ t', (t' ∈ k.spots ∧ (t == t') = true) ∧ k.Binds s' t' := by
  obtain ⟨t', ht, htt⟩ := h.spot hst.mem.2
  exact ⟨t', ⟨ht, htt⟩, h.binds hk hst hs.1 ht hs.2 htt⟩

theorem chain (h : l.Restates k) (hk : k.Distinct) (hst : TransGen l.Binds s t)
    (hs : s' ∈ k.spots) (ht : t' ∈ k.spots) (hss : (s == s') = true) (htt : (t == t') = true) :
    TransGen k.Binds s' t' := by
  obtain ⟨u, ⟨hu, htu⟩, hsu⟩ := transGen_follow
    (D := fun x y => y ∈ k.spots ∧ (x == y) = true) (h.step hk) hst ⟨hs, hss⟩
  rwa [hk.eq_of_beq ht hu (BEq.trans (BEq.symm htt) htu)]

theorem circular (h : l.Restates k) (hk : k.Distinct) (hloop : ∃ s, TransGen l.Binds s s) :
    ∃ s, TransGen k.Binds s s := by
  obtain ⟨s, hloop⟩ := hloop
  obtain ⟨t, hst, -⟩ := TransGen.head'_iff.mp hloop
  obtain ⟨s', hs, hss⟩ := h.spot hst.mem.1
  exact ⟨s', h.chain hk hloop hs hs hss hss⟩

theorem caught (h : l.Restates k) (hk : k.Distinct) (hc : l.Caught s) (hs : s' ∈ k.spots)
    (hss : (s == s') = true) : k.Caught s' := by
  obtain ⟨c, hloop, hcs⟩ := hc
  obtain ⟨t, hct, -⟩ := TransGen.head'_iff.mp hloop
  obtain ⟨c', hc', hcc⟩ := h.spot hct.mem.1
  refine ⟨c', h.chain hk hloop hc' hc' hcc hcc, ?_⟩
  rcases reflTransGen_iff_eq_or_transGen.mp hcs with rfl | hcs
  · rw [hk.eq_of_beq hs hc' (BEq.trans (BEq.symm hss) hcc)]
  · exact (h.chain hk hcs hc' hs hcc hss).to_reflTransGen

/-! ## Sides that are not met -/

theorem met (h : l.Restates k) (hk : k.Distinct) {e : Entry N V} {f : Entry N W} (hf : f ∈ k)
    (hef : e.Restates f) {side : Side} (hm : l.Met e side) : k.Met f side := by
  have hspot : .entry f.name ∈ k.spots ∧ (Spot.entry e.name == .entry f.name) = true :=
    ⟨entry_mem_spots hf, hef.name⟩
  cases side with
  | before =>
      obtain ⟨t, ht⟩ := hm
      obtain ⟨t', -, ht'⟩ := h.step hk ht hspot
      exact ⟨t', ht'⟩
  | after =>
      obtain ⟨s, hs⟩ := hm
      obtain ⟨s', hs', hss⟩ := h.spot hs.mem.1
      exact ⟨s', h.binds hk hs hs' hspot.1 hss hspot.2⟩

theorem exists_wanting (h : l.Restates k) (hl : l.Distinct) {side : Side} {e : Entry N V}
    (he : e ∈ l.wanting side) : ∃ f ∈ k.wanting side, (e.name == f.name) = true := by
  obtain ⟨hmem, hdeclares, hunmet⟩ := mem_wanting.mp he
  obtain ⟨f, hf, hef⟩ := h.forth e hmem
  refine ⟨f, mem_wanting.mpr ⟨hf, hef.declares side ▸ hdeclares, ?_⟩, hef.name⟩
  intro hm
  exact hunmet (h.symm.met hl hmem hef.symm hm)

theorem wanting (h : l.Restates k) (hl : l.Distinct) (hk : k.Distinct) (side : Side) :
    SameItems ((l.wanting side).map (·.name)) ((k.wanting side).map (·.name)) where
  forth := by
    intro name hname
    obtain ⟨e, he, rfl⟩ := List.mem_map.mp hname
    obtain ⟨f, hf, hef⟩ := h.exists_wanting hl he
    exact ⟨f.name, List.mem_map.mpr ⟨f, hf, rfl⟩, hef⟩
  back := by
    intro name hname
    obtain ⟨f, hf, rfl⟩ := List.mem_map.mp hname
    obtain ⟨e, he, hfe⟩ := h.symm.exists_wanting hk hf
    exact ⟨e.name, List.mem_map.mpr ⟨e, he, rfl⟩, BEq.symm hfe⟩

theorem wanting_eq_nil (h : l.Restates k) (hl : l.Distinct) (hk : k.Distinct) {side : Side}
    (hnil : l.wanting side = []) : k.wanting side = [] := by
  have hnames := (h.wanting hl hk side).eq_nil (by rw [hnil, List.map_nil])
  exact List.map_eq_nil_iff.mp hnames

end Restates

end Listing

end Lineup
