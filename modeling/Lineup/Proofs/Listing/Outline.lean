/-
# Listings in outline

Of a listing only the spots of some kind may be of interest.  While these are in sight and the
others are not, its network is seen through the spots that the numbers denote (`inSight`), and what
is seen can be read off the bonds that end at a spot in sight (`outline`), provided that no spot out
of sight is bound to one in sight (`Drawn.seen`).  Numbers do not show in the outline, so listings
that are numbered differently can have the same one.
-/
import Lineup.Proofs.Network.Outline
import Lineup.Proofs.Listing.Chains

namespace Lineup.Listing

open List (Forall₂)

variable {N V : Type} {l : Listing N V} {keep : Spot N → Bool}

/-- What the numbers of a listing are called while only the spots of some kind are in sight. -/
def inSight (l : Listing N V) (keep : Spot N → Bool) (v : Nat) : Option (Spot N) :=
  (l.spotAt? v).filter keep

theorem inSight_eq_some_iff {v : Nat} {s : Spot N} :
    l.inSight keep v = some s ↔ l.Denotes v s ∧ keep s = true :=
  Option.filter_eq_some_iff

theorem filterMap_inSight {p : Nat → Bool} {q : Spot N → Bool} {numbers : List Nat}
    {spots : List (Spot N)} (h : Forall₂ l.Denotes numbers spots)
    (hpq : ∀ {v s}, l.Denotes v s → keep s = true → p v = q s) :
    (numbers.filter p).filterMap (l.inSight keep) = (spots.filter keep).filter q := by
  induction h with
  | nil => rfl
  | @cons v s _ _ hv _ ih =>
      by_cases hs : keep s = true
      · have hseen : l.inSight keep v = some s := inSight_eq_some_iff.mpr ⟨hv, hs⟩
        have hpv := hpq hv hs
        rw [List.filter_cons_of_pos hs]
        by_cases hq : q s = true
        · rw [List.filter_cons_of_pos hq, List.filter_cons_of_pos (hpv.trans hq),
            List.filterMap_cons_some hseen, ih]
        · rw [List.filter_cons_of_neg hq, List.filter_cons_of_neg (hpv ▸ hq), ih]
      · have hseen : l.inSight keep v = none := by
          rw [inSight, hv, Option.filter_some, if_neg hs]
        rw [List.filter_cons_of_neg hs, ← ih]
        by_cases hp : p v = true
        · rw [List.filter_cons_of_pos hp, List.filterMap_cons_none hseen]
        · rw [List.filter_cons_of_neg hp]

theorem filterMap_inSight_all {numbers : List Nat} {spots : List (Spot N)}
    (h : Forall₂ l.Denotes numbers spots) :
    numbers.filterMap (l.inSight keep) = spots.filter keep := by
  have hall : (numbers.filter fun _ => true).filterMap (l.inSight keep) =
      (spots.filter keep).filter fun _ => true := filterMap_inSight h fun _ _ => rfl
  rwa [List.filter_true, List.filter_true] at hall

variable [BEq N] {g : Network}

def outline (l : Listing N V) (keep : Spot N → Bool) : Outline (Spot N) where
  due s := (l.bonds.filter (keep ·.2)).countP (·.2 == s)
  behind s := ((l.bonds.filter (keep ·.2)).filter (·.1 == s)).map (·.2)
  roots := (l.spots.filter keep).filter fun s =>
    (l.bonds.filter (keep ·.2)).countP (·.2 == s) == 0

variable [EquivBEq N]

theorem Drawn.due_eq (hg : l.Drawn g) (hl : l.Distinct) {v : Nat} {s : Spot N}
    (hv : l.Denotes v s) (hs : keep s = true) : g.due v = (l.outline keep).due s := by
  have hcount : l.arcs.countP (·.2 == v) = l.bonds.countP (·.2 == s) := by
    rw [List.countP_eq_length_filter, List.countP_eq_length_filter]
    refine Forall₂.length_eq (R := l.Shows) (List.rel_filter ?_ hl.arcs_bonds)
    rintro ⟨u, w⟩ ⟨x, y⟩ ⟨-, hw⟩
    exact beq_iff_eq.trans (hl.number_iff hw hv)
  rw [hg.tied.due, hg.arcs, hcount]
  show _ = (l.bonds.filter (keep ·.2)).countP (·.2 == s)
  rw [List.countP_filter]
  refine List.countP_congr ?_
  rintro ⟨x, y⟩ hbond
  rw [Bool.and_eq_true, iff_self_and]
  intro hys
  rwa [hl.eq_of_beq (hl.mem_bonds_iff.mp hbond).mem.2 hv.mem hys]

/-- The network of a listing is seen as the outline of the spots in sight, provided that no spot
out of sight is bound to one of them. -/
theorem Drawn.seen (hg : l.Drawn g) (hl : l.Distinct)
    (hkeep : ∀ {s t}, l.Binds s t → keep t = true → keep s = true) :
    g.Seen (l.inSight keep) (l.outline keep) where
  apart := by
    intro v w s hv hw
    exact hl.biUnique.1 (inSight_eq_some_iff.mp hv).1 (inSight_eq_some_iff.mp hw).1
  due := by
    intro v s hv
    obtain ⟨hv, hs⟩ := inSight_eq_some_iff.mp hv
    exact hg.due_eq hl hv hs
  behind := by
    intro v s hv
    obtain ⟨hv, -⟩ := inSight_eq_some_iff.mp hv
    rw [filterMap_inSight_all (hg.behind_bondsFrom hl hv), bondsFrom, List.filter_map, outline,
      List.filter_comm]
    rfl
  unnamed := by
    intro v hv
    refine List.filterMap_eq_nil_iff.mpr ?_
    intro w hw
    by_contra hseen
    obtain ⟨t, ht⟩ := Option.ne_none_iff_exists'.mp hseen
    obtain ⟨hwt, hkt⟩ := inSight_eq_some_iff.mp ht
    rw [hg.tied.behind, hg.arcs] at hw
    obtain ⟨⟨u, x⟩, hleaving, rfl⟩ := List.mem_map.mp hw
    obtain ⟨harc, hstart⟩ := List.mem_filter.mp hleaving
    obtain rfl : u = v := by simpa using hstart
    obtain ⟨s, hs⟩ := exists_denotes (arcs_lt l _ harc).1
    have hks : keep s = true := hkeep ((hl.arc_iff hs hwt).mp harc) hkt
    rw [inSight_eq_some_iff.mpr ⟨hs, hks⟩] at hv
    cases hv
  roots := by
    have hrange : Forall₂ l.Denotes (List.range g.size) l.spots := hg.size ▸ range_spots l
    refine filterMap_inSight hrange ?_
    intro v s hv hs
    have hlt : v < g.size := hg.size ▸ hv.lt
    rw [Network.incoming_of_lt hlt, hg.due_eq hl hv hs]
    rfl

end Lineup.Listing
