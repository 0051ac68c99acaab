/-
# What a listing is refused for

A side of an entry is met when some bond sets out from the entry, or leads to it, whoever declared
that bond.  The listing is refused for the entries that declared a side on which they are not met:
for those that want something behind them, or else for those that want something ahead of them, in
the order of their registration.  The numbers that the refusal is found with do not show in it.
-/
import Lineup.Proofs.Listing.Chains

namespace Lineup.Listing

variable {N V : Type} [BEq N]

/-- Some bond sets out from the entry, or leads to it. -/
def Met (l : Listing N V) (e : Entry N V) : Side → Prop
  | .before => ∃ s, l.Binds (.entry e.name) s
  | .after => ∃ s, l.Binds s (.entry e.name)

open Classical in
/-- The entries that declared a side on which they are not met, in the order of registration. -/
noncomputable def wanting (l : Listing N V) (side : Side) : Listing N V :=
  l.filter fun e => decide (e.bounds.declares side = true ∧ ¬ l.Met e side)

theorem mem_wanting {l : Listing N V} {e : Entry N V} {side : Side} :
    e ∈ l.wanting side ↔ e ∈ l ∧ e.bounds.declares side = true ∧ ¬ l.Met e side := by
  classical
  rw [wanting, List.mem_filter, decide_eq_true_iff]

theorem wanting_eq_nil {l : Listing N V} {side : Side}
    (h : ∀ e ∈ l, e.bounds.declares side = true → l.Met e side) : l.wanting side = [] := by
  refine List.eq_nil_iff_forall_not_mem.mpr ?_
  intro e he
  obtain ⟨hmem, hdeclares, hmet⟩ := mem_wanting.mp he
  exact hmet (h e hmem hdeclares)

theorem exists_unmet {l : Listing N V} {reason : Refusal N} (h : l.objection? = some reason) :
    ∃ side names, reason = .unmet side names := by
  rw [objection?] at h
  split at h
  · exact ⟨_, _, (Option.some.inj h).symm⟩
  · exact ⟨_, _, (Option.some.inj h).symm⟩
  · cases h

variable [EquivBEq N] {l : Listing N V}

theorem Distinct.met_iff (hl : l.Distinct) {i : Nat} {e : Entry N V} (he : l[i]? = some e)
    (side : Side) : entryNode i ∈ l.arcs.map (endAt side) ↔ l.Met e side := by
  have hentry := denotes_entry he
  rw [List.mem_map]
  cases side with
  | before =>
      constructor
      · rintro ⟨⟨u, v⟩, harc, rfl⟩
        obtain ⟨s, hs⟩ := exists_denotes (arcs_lt l _ harc).2
        exact ⟨s, (hl.arc_iff hentry hs).mp harc⟩
      · rintro ⟨s, hs⟩
        obtain ⟨v, hv⟩ := exists_number hs.mem.2
        exact ⟨_, (hl.arc_iff hentry hv).mpr hs, rfl⟩
  | after =>
      constructor
      · rintro ⟨⟨u, v⟩, harc, rfl⟩
        obtain ⟨s, hs⟩ := exists_denotes (arcs_lt l _ harc).1
        exact ⟨s, (hl.arc_iff hs hentry).mp harc⟩
      · rintro ⟨s, hs⟩
        obtain ⟨u, hu⟩ := exists_number hs.mem.1
        exact ⟨_, (hl.arc_iff hu hentry).mpr hs, rfl⟩

/-- Picking by a test that reads the position as well is filtering where the position tells no
more than the entry. -/
theorem filterMap_zipIdx {α β : Type} {xs : List α} {p : α × Nat → Bool} {q : α → Bool}
    (f : α → β) (h : ∀ {a i}, xs[i]? = some a → p (a, i) = q a) :
    (xs.zipIdx.filterMap fun x => if p x then some (f x.1) else none) = (xs.filter q).map f := by
  have hpick : ∀ x ∈ xs.zipIdx, (if p x then some (f x.1) else none) =
      if q x.1 then some (f x.1) else none := by
    intro x hx
    rw [h (List.mem_zipIdx_iff_getElem?.mp hx)]
  calc (xs.zipIdx.filterMap fun x => if p x then some (f x.1) else none)
      = xs.zipIdx.filterMap ((fun a => if q a then some (f a) else none) ∘ (·.1)) :=
        List.filterMap_congr hpick
    _ = xs.filterMap fun a => if q a then some (f a) else none := by
        rw [← List.filterMap_map, List.zipIdx_map_fst]
    _ = (xs.filter q).map f := by
        rw [← List.filterMap_eq_map, List.filterMap_filter]
        rfl

/-- The names found by numbers are those of the entries whose declared side is not met. -/
theorem Distinct.unmet_eq (hl : l.Distinct) (side : Side) :
    l.unmet side = (l.wanting side).map (·.name) := by
  classical
  refine filterMap_zipIdx (p := fun x : Entry N V × Nat => x.1.bounds.declares side &&
    !(l.arcs.map (endAt side)).contains (entryNode x.2)) Entry.name fun {e i} he => ?_
  rw [Bool.eq_iff_iff, Bool.and_eq_true, Bool.not_eq_true', decide_eq_true_iff,
    ← hl.met_iff he side, ← Bool.not_eq_true, List.contains_iff_mem]

/-! ## The objection to a listing -/

theorem Distinct.objection?_before (hl : l.Distinct) (h : l.wanting .before ≠ []) :
    l.objection? = some (.unmet .before ((l.wanting .before).map (·.name))) := by
  rw [objection?, hl.unmet_eq, hl.unmet_eq]
  cases hb : l.wanting .before with
  | nil => exact absurd hb h
  | cons e es => rfl

theorem Distinct.objection?_after (hl : l.Distinct) (hb : l.wanting .before = [])
    (h : l.wanting .after ≠ []) :
    l.objection? = some (.unmet .after ((l.wanting .after).map (·.name))) := by
  rw [objection?, hl.unmet_eq, hl.unmet_eq, hb]
  cases ha : l.wanting .after with
  | nil => exact absurd ha h
  | cons e es => rfl

theorem Distinct.objection?_none (hl : l.Distinct) (hb : l.wanting .before = [])
    (ha : l.wanting .after = []) : l.objection? = none := by
  rw [objection?, hl.unmet_eq, hl.unmet_eq, hb, ha]
  rfl

end Lineup.Listing
