/-
# Entries that share what they wait for

Origins do not tell entries apart that wait for the same one.  What is freed goes to the front of
the row, so of two entries that only one spot stands ahead of, the same for both, the one that this
spot is bound to last comes first (`line_of_siblings`).

A line is settled once every pair in it is: a list of all entries in which every two stand as they
do in the line is the line (`line_of_pairs`).  Where the bounds name the anchors only, the entries
after the first anchor come ahead of the others and in the reverse of their registration, and the
others keep their order (`sorted_of_anchored`).
-/
import Mathlib.Data.List.Permutation
import Lineup.Proofs.Network.Preorder
import Lineup.Proofs.Listing.Anchored
import Lineup.Proofs.Roster.Origins
import Lineup.Proofs.Roster.Verdict

namespace Lineup

open List (Forall₂)
open Relation

variable {N V : Type}

/-! ## Siblings and pairs -/

namespace Roster

open Listing

variable [BEq N] [EquivBEq N] {r : Roster N V} {line : List (N × V)} {a b : Entry N V} {s : Spot N}

/-- Of two entries that one spot, and no other, stands ahead of, the one that this spot is bound to
last comes first. -/
theorem line_of_siblings (hl : r.entries.Distinct) (h : r.sorted = .ok line) (ha : a ∈ r.entries)
    (hb : b ∈ r.entries) (hsa : ∀ t, r.entries.Binds t (.entry a.name) ↔ t = s)
    (hsb : ∀ t, r.entries.Binds t (.entry b.name) ↔ t = s) {pre post : List (Spot N)}
    (hbonds : r.entries.bondsFrom s = pre ++ .entry b.name :: post)
    (hlast : .entry a.name ∉ .entry b.name :: post) : [shown b, shown a].Sublist line := by
  obtain ⟨g, order, hg, hrel, hall⟩ := release_of_line h
  have hforest := hg.tied.forestOrder_of_release hrel
  obtain ⟨i, hi⟩ := List.mem_iff_getElem?.mp ha
  obtain ⟨j, hj⟩ := List.mem_iff_getElem?.mp hb
  obtain ⟨u, hu⟩ := exists_number ((hsa s).mpr rfl).mem.1
  have hfrees : ∀ {v : Nat} {x : Spot N}, r.entries.Denotes v x →
      (∀ t, r.entries.Binds t x ↔ t = s) → g.Frees order u v := by
    intro v x hv hx
    refine ⟨(hg.leads_iff hl hu hv).mpr ((hx s).mpr rfl), ?_⟩
    intro w hwv
    obtain ⟨t, ht⟩ := exists_denotes (hg.size ▸ hwv.1)
    obtain rfl := (hx t).mp ((hg.leads_iff hl ht hv).mp hwv)
    rw [hl.biUnique.1 ht hu]
  -- the numbers behind that of the spot are cut where its bonds are
  obtain ⟨front, back, hout, hback⟩ : ∃ front back, g.behind u = front ++ back ∧
      Forall₂ r.entries.Denotes back (.entry b.name :: post) := by
    have hbehind := hg.behind_bondsFrom hl hu
    rw [hbonds] at hbehind
    exact ⟨_, _, (List.take_append_drop pre.length _).symm, List.forall₂_drop_append _ _ _ hbehind⟩
  have hi' : entryNode i ∉ back := mt (List.rel_mem hl.biUnique (denotes_entry hi) hback).mp hlast
  cases hback with
  | cons hv _ =>
      obtain rfl := hl.biUnique.1 hv (denotes_entry hj)
      have hlt : order.idxOf (entryNode j) < order.idxOf (entryNode i) :=
        (hforest.siblings u _ _ (hfrees (denotes_entry hj) hsb) (hfrees (denotes_entry hi) hsa)).mpr
          (Network.lastAfter_of_split hout hi')
      exact pair_sublist_line hall hj hi
        (hforest.lines.pair_sublist (hg.size ▸ (denotes_entry hi).lt) hlt)

theorem eq_of_both_orders {α : Type} {x y : α} {xs : List α} (hnd : xs.Nodup)
    (hxy : [x, y].Sublist xs) (hyx : [y, x].Sublist xs) : x = y := by
  induction xs with
  | nil => cases hxy
  | cons z xs ih =>
      obtain ⟨hz, hnd⟩ := List.nodup_cons.mp hnd
      cases hxy with
      | cons _ hxy =>
          cases hyx with
          | cons _ hyx => exact ih hnd hxy hyx
          | cons_cons _ _ => exact absurd (hxy.subset (List.mem_cons_of_mem _ List.mem_cons_self)) hz
      | cons_cons _ _ =>
          cases hyx with
          | cons _ hyx => exact absurd (hyx.subset (List.mem_cons_of_mem _ List.mem_cons_self)) hz
          | cons_cons _ _ => rfl

theorem line_of_pairs (hl : r.entries.Distinct) (h : r.sorted = .ok line) {xs : List (N × V)}
    (hperm : xs.Perm (r.entries.map shown)) (hpairs : xs.Pairwise fun p q => [p, q].Sublist line) :
    line = xs := by
  have hnd : line.Nodup := nodup_of_apart (apart_of_line hl h)
  refine List.Perm.eq_of_pairwise ?_ (List.pairwise_iff_forall_sublist.mpr fun h => h) hpairs
    ((perm_of_line h).trans hperm.symm)
  intro p q _ _ hpq hqp
  exact eq_of_both_orders hnd hpq hqp

end Roster

/-! ## The line -/

namespace Roster

open Listing

variable [BEq N] {r : Roster N V} {line : List (N × V)} {a b : Entry N V}

theorem binds_follower_iff (h : r.entries.Anchored) (ha : a ∈ r.entries) (hf : follower a = true)
    (t : Spot N) : r.entries.Binds t (.entry a.name) ↔ t = .first := by
  rw [h.binds_iff]
  constructor
  · intro hta
    generalize hgoal : Spot.entry a.name = goal at hta
    cases hta with
    | anchors => cases hgoal
    | ahead _ _ => rfl
    | behind _ _ => cases hgoal
  · rintro rfl
    exact .ahead ha hf

variable [EquivBEq N]

theorem unbound_of_not_follower (hl : r.entries.Distinct) (h : r.entries.Anchored)
    (ha : a ∈ r.entries) (hf : follower a = false) : r.entries.Unbound (.entry a.name) := by
  intro t hta
  rw [h.binds_iff] at hta
  generalize hgoal : Spot.entry a.name = goal at hta
  cases hta with
  | anchors => cases hgoal
  | behind _ _ => cases hgoal
  | ahead he hfe =>
      obtain rfl := eq_of_apart hl ha he (Spot.entry.inj hgoal ▸ BEq.rfl)
      rw [hf] at hfe
      cases hfe

theorem followers_reversed (hl : r.entries.Distinct) (h : r.entries.Anchored)
    (hline : r.sorted = .ok line) (hab : [a, b].Sublist (r.entries.filter follower)) :
    [shown b, shown a].Sublist line := by
  obtain ⟨ha, hfa⟩ := List.mem_filter.mp (hab.subset List.mem_cons_self)
  obtain ⟨hb, hfb⟩ := List.mem_filter.mp (hab.subset (List.mem_cons_of_mem _ List.mem_cons_self))
  have honce : (r.entries.bondsFrom .first).Nodup := by
    have hspots : r.entries.spots.Nodup := nodup_of_apart (f := id) hl.spots
    rw [h.bondsFrom_first]
    exact (List.nodup_cons.mp hspots).2.sublist ((List.filter_sublist.map _).cons_cons _)
  have hpair : [.entry a.name, .entry b.name].Sublist (r.entries.bondsFrom .first) := by
    rw [h.bondsFrom_first]
    exact (hab.map fun e : Entry N V => Spot.entry e.name).cons _
  obtain ⟨pre, post, hbonds, hpre⟩ := Network.pair_sublist_iff.mp hpair
  rw [hbonds] at honce
  exact line_of_siblings hl hline ha hb (binds_follower_iff h ha hfa) (binds_follower_iff h hb hfb)
    hbonds ((List.nodup_append'.mp honce).2.2 hpre)

theorem followers_ahead (hl : r.entries.Distinct) (h : r.entries.Anchored)
    (hline : r.sorted = .ok line) (ha : a ∈ r.entries) (hfa : follower a = true)
    (hb : b ∈ r.entries) (hfb : follower b = false) : [shown a, shown b].Sublist line := by
  refine line_of_origins hl hline ha hb ⟨unbound_of_not_follower hl h hb hfb, .refl⟩ ?_
  intro s hs
  have hfirst : s = .first := by
    rcases ReflTransGen.cases_tail hs.leads with heq | ⟨t, hst, hta⟩
    · rw [← heq] at hs
      exact absurd ((binds_follower_iff h ha hfa _).mpr rfl) (hs.unbound _)
    · obtain rfl := (binds_follower_iff h ha hfa t).mp hta
      rcases ReflTransGen.cases_tail hst with heq | ⟨u, -, hu⟩
      · exact heq.symm
      · cases h.binds_iff.mp hu
  rw [hfirst]
  exact first_ahead_of_entry hb

theorem others_in_order (hl : r.entries.Distinct) (h : r.entries.Anchored)
    (hline : r.sorted = .ok line) (hab : [a, b].Sublist (r.entries.filter fun e => !follower e)) :
    [shown a, shown b].Sublist line := by
  obtain ⟨ha, hfa⟩ := List.mem_filter.mp (hab.subset List.mem_cons_self)
  obtain ⟨hb, hfb⟩ := List.mem_filter.mp (hab.subset (List.mem_cons_of_mem _ List.mem_cons_self))
  have hua := unbound_of_not_follower hl h ha (Bool.not_eq_true' _ ▸ hfa)
  have hub := unbound_of_not_follower hl h hb (Bool.not_eq_true' _ ▸ hfb)
  refine line_of_origins hl hline ha hb ⟨hub, .refl⟩ ?_
  intro s hs
  rw [hua.eq_of_origin hs]
  exact pair_sublist_spots (hab.trans List.filter_sublist)

theorem exists_line_of_anchored (hl : r.entries.Distinct) (h : r.entries.Anchored) :
    ∃ line, r.sorted = .ok line :=
  (exists_line_iff hl).mpr
    ⟨hl.objection?_none (h.wanting_eq_nil .before) (h.wanting_eq_nil .after), h.not_circular⟩

/-- The followers come first, the one registered last ahead, and then the others in order. -/
theorem sorted_of_anchored (hl : r.entries.Distinct) (h : r.entries.Anchored) :
    r.sorted = .ok (((r.entries.filter follower).reverse ++
      r.entries.filter fun e => !follower e).map shown) := by
  obtain ⟨line, hline⟩ := exists_line_of_anchored hl h
  rw [hline]
  refine congrArg Except.ok (line_of_pairs hl hline ?_ ?_)
  · refine List.Perm.map _ ?_
    exact ((List.reverse_perm _).append_right _).trans (List.filter_append_perm follower _)
  · rw [List.pairwise_map, List.pairwise_append, List.pairwise_reverse]
    refine ⟨?_, ?_, ?_⟩
    · exact List.pairwise_iff_forall_sublist.mpr fun hab => followers_reversed hl h hline hab
    · exact List.pairwise_iff_forall_sublist.mpr fun hab => others_in_order hl h hline hab
    · intro a ha b hb
      obtain ⟨ha, hfa⟩ := List.mem_filter.mp (List.mem_reverse.mp ha)
      obtain ⟨hb, hfb⟩ := List.mem_filter.mp hb
      exact followers_ahead hl h hline ha hfa hb (Bool.not_eq_true' _ ▸ hfb)

end Roster

end Lineup
