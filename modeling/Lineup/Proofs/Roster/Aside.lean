/-
# Withdrawing an entry that stands aside

An entry that stands aside disturbs nobody.  If nothing stands after the last anchor, the roster can
be put in line with it exactly when it can be put in line without it, and the other entries stand in
the same order (`sorted_without`).  Step by step the two releases have little in common: the entry
takes its turn among the roots and the numbers behind it move up by one, and as one arc less leads to
the last anchor, that anchor is ready at another time.  But with the entry and the anchor out of
sight both networks have the same outline, so everything else is emitted in the same order.

An entry that stands aside and was registered last takes the last turn, since nothing hangs on it.
-/
import Mathlib.Data.List.Permutation
import Lineup.Proofs.Listing.Aside
import Lineup.Proofs.Roster.Origins
import Lineup.Proofs.Roster.Survivors
import Lineup.Proofs.Roster.Verdict

namespace Lineup

open List (Forall₂)
open Relation

variable {N V : Type}

namespace Listing

variable {l : Listing N V} {keep : Spot N → Bool}

theorem filterMap_inSight_entries (l : Listing N V) (keep : Spot N → Bool) (order : List Nat) :
    (order.filter (2 ≤ ·)).filterMap (l.inSight keep) =
      (order.filterMap (l.inSight keep)).filter fun s => !s.isAnchor := by
  rw [List.filterMap_filter, List.filter_filterMap]
  refine List.filterMap_congr fun v _ => ?_
  match v with
  | 0 => cases h : keep .first <;> simp [inSight, spotAt?, Option.filter, Spot.isAnchor, h]
  | 1 => cases h : keep .last <;> simp [inSight, spotAt?, Option.filter, Spot.isAnchor, h]
  | i + 2 =>
      cases he : l[i]? with
      | none => simp [inSight, spotAt?, Option.filter, he]
      | some e => cases h : keep (.entry e.name) <;> simp [inSight, spotAt?, Option.filter, Spot.isAnchor, he, h]

theorem names_inSight {order : List Nat} {line : List (N × V)}
    (hall : Forall₂ l.Carries (order.filter (2 ≤ ·)) line) :
    (line.map fun p => Spot.entry p.1).filter keep =
      (order.filterMap (l.inSight keep)).filter fun s => !s.isAnchor := by
  have hdenotes : Forall₂ l.Denotes (order.filter (2 ≤ ·)) (line.map fun p => Spot.entry p.1) := by
    refine List.forall₂_map_right_iff.mpr (hall.imp ?_)
    rintro v p ⟨e, he, rfl⟩
    match v, he with
    | i + 2, he => exact denotes_entry he
  rw [← filterMap_inSight_all hdenotes, filterMap_inSight_entries]

end Listing

namespace Roster

open Listing

variable [BEq N] {r s : Roster N V} {d : Entry N V} {line line' : List (N × V)}

theorem line_ext {xs ys : List (N × V)} (hxs : ∀ p ∈ xs, r.get? p.1 = some p.2)
    (hys : ∀ p ∈ ys, r.get? p.1 = some p.2)
    (h : (xs.map fun p => Spot.entry p.1) = ys.map fun p => Spot.entry p.1) : xs = ys := by
  induction xs generalizing ys with
  | nil => exact (List.map_eq_nil_iff.mp h.symm).symm
  | cons p xs ih =>
      cases ys with
      | nil => cases h
      | cons q ys =>
          obtain ⟨hp, hxs⟩ := List.forall_mem_cons.mp hxs
          obtain ⟨hq, hys⟩ := List.forall_mem_cons.mp hys
          obtain ⟨hname, htail⟩ := List.cons.inj h
          have hname : p.1 = q.1 := Spot.entry.inj hname
          rw [hname, hq] at hp
          rw [ih hxs hys htail, Prod.ext hname (Option.some.inj hp).symm]

variable [EquivBEq N]

theorem entries_withdraw (hl : r.entries.Distinct) (name : N) :
    (r.apply (.withdraw name)).entries = r.entries.without name := by
  rw [entries_apply hl]
  exact List.append_nil _

theorem exists_line_without_iff (hl : r.entries.Distinct) (hd : d ∈ r.entries)
    (haside : r.entries.Aside d) (hs : s.entries = r.entries.without d.name) :
    (∃ line, s.sorted = .ok line) ↔ ∃ line, r.sorted = .ok line := by
  have hl' : s.entries.Distinct := hs ▸ hl.without d.name
  rw [exists_line_iff hl, exists_line_iff hl', hs, haside.objection?_without hl hd,
    haside.circular_without_iff hl hd]

theorem line_without (hl : r.entries.Distinct) (hd : d ∈ r.entries) (haside : r.entries.Aside d)
    (hopen : ∀ e ∈ r.entries, .last ∉ e.bounds.targets .after)
    (hs : s.entries = r.entries.without d.name) (h : r.sorted = .ok line)
    (h' : s.sorted = .ok line') : line.filter (fun p => !(p.1 == d.name)) = line' := by
  have hl' : s.entries.Distinct := hs ▸ hl.without d.name
  obtain ⟨g, order, hg, hrel, hall⟩ := release_of_line h
  obtain ⟨g', order', hg', hrel', hall'⟩ := release_of_line h'
  -- with the entry and the last anchor out of sight both networks are seen alike
  have hseen := hg.seen hl (haside.rest_of_binds hl hd hopen)
  have hseen' : g'.Seen (s.entries.inSight (rest d)) (s.entries.outline (rest d)) := by
    refine hg'.seen hl' ?_
    rw [hs]
    intro x y hxy
    exact haside.rest_of_binds hl hd hopen ((haside.binds_without_iff hl hd).mp hxy).1
  rw [hs, haside.outline_eq hl hd, ← hs] at hseen'
  have horder := Network.release_in_outline hseen hseen' hrel hrel'
  have hnames : (line.map fun p => Spot.entry p.1).filter (rest d) =
      (line'.map fun p => Spot.entry p.1).filter (rest d) := by
    rw [names_inSight hall, names_inSight hall', horder]
  have hrest : ((rest d) ∘ fun p : N × V => Spot.entry p.1) = fun p => !(p.1 == d.name) := by
    funext p
    simp [rest]
  have hentries : ∀ p ∈ line', ∃ e ∈ r.entries, p = shown e ∧ (e.name == d.name) = false := by
    intro p hp
    obtain ⟨e, he, rfl⟩ := List.mem_map.mp ((perm_of_line h').mem_iff.mp hp)
    rw [hs] at he
    obtain ⟨he, hne⟩ := List.mem_filter.mp he
    exact ⟨e, he, rfl, Bool.not_eq_true' _ ▸ hne⟩
  have hkeep : line'.filter (fun p => !(p.1 == d.name)) = line' := by
    refine List.filter_eq_self.mpr ?_
    intro p hp
    obtain ⟨e, -, rfl, hne⟩ := hentries p hp
    exact Bool.not_eq_true' _ ▸ hne
  rw [List.filter_map, List.filter_map, hrest, hkeep] at hnames
  refine line_ext (r := r) ?_ ?_ hnames
  · intro p hp
    exact get?_of_line hl h p (List.mem_filter.mp hp).1
  · intro p hp
    obtain ⟨e, he, rfl, -⟩ := hentries p hp
    exact get?_eq_of_mem hl he

theorem ahead_of_last (hl : r.entries.Distinct) (hd : d ∈ r.entries) (haside : r.entries.Aside d)
    (hopen : ∀ e ∈ r.entries, .last ∉ e.bounds.targets .after) (h : r.sorted = .ok line)
    (hend : r.entries.getLast? = some d) {a : Entry N V} (ha : a ∈ r.entries)
    (hne : (a.name == d.name) = false) : [shown a, shown d].Sublist line := by
  have hunbound : r.entries.Unbound (.entry d.name) := fun t => haside.not_binds_to hl hd
  refine line_of_origins hl h ha hd ⟨hunbound, .refl⟩ ?_
  intro s hs
  have hsd : s ≠ .entry d.name := by
    rintro rfl
    -- the entry leads to the last anchor and the anchor to nothing
    rcases ReflTransGen.cases_head hs.leads with heq | ⟨t, hdt, hta⟩
    · rw [Spot.entry.inj heq, BEq.rfl] at hne
      cases hne
    · obtain rfl := haside.binds_from hl hd hdt
      rcases ReflTransGen.cases_head hta with heq | ⟨u, hlast, -⟩
      · cases heq
      · exact not_binds_last hopen hlast
  obtain ⟨front, hfront⟩ := List.getLast?_eq_some_iff.mp hend
  have hspots : r.entries.spots = Listing.spots front ++ [Spot.entry d.name] := by
    rw [hfront, Listing.spots, Listing.spots, List.map_append]
    rfl
  have hmem : s ∈ Listing.spots front ++ [Spot.entry d.name] := hspots ▸ hs.mem (entry_mem_spots ha)
  have hsfront : s ∈ Listing.spots front :=
    (List.mem_append.mp hmem).resolve_right fun hs => hsd (List.mem_singleton.mp hs)
  rw [hspots]
  exact (List.singleton_sublist.mpr hsfront).append (List.Sublist.refl [Spot.entry d.name])

theorem mem_front {α : Type} {x y : α} {pre post : List α} (hy : y ∉ post)
    (h : [x, y].Sublist (pre ++ y :: post)) : x ∈ pre := by
  obtain ⟨front, back, hpair, hfront, hback⟩ := List.sublist_append_iff.mp h
  cases front with
  | nil =>
      rw [List.nil_append] at hpair
      exact absurd (List.singleton_sublist.mp (hpair ▸ hback).tail) hy
  | cons z front =>
      obtain ⟨rfl, -⟩ := List.cons.inj hpair
      exact hfront.subset List.mem_cons_self

section Place

variable {pre post : List (N × V)}

theorem others_of_line (hl : r.entries.Distinct) (h : r.sorted = .ok (pre ++ shown d :: post)) :
    ∀ p ∈ pre ++ post, (p.1 == d.name) = false := by
  obtain ⟨-, hdpost, hpre⟩ := List.pairwise_append.mp (apart_of_line hl h)
  obtain ⟨hpost, -⟩ := List.pairwise_cons.mp hdpost
  intro p hp
  rcases List.mem_append.mp hp with hp | hp
  · exact hpre p hp _ List.mem_cons_self
  · rw [BEq.comm]
    exact hpost p hp

theorem nothing_behind (hl : r.entries.Distinct) (hd : d ∈ r.entries) (haside : r.entries.Aside d)
    (hopen : ∀ e ∈ r.entries, .last ∉ e.bounds.targets .after)
    (h : r.sorted = .ok (pre ++ shown d :: post)) (hend : r.entries.getLast? = some d) :
    post = [] := by
  have hothers := others_of_line hl h
  refine List.eq_nil_iff_forall_not_mem.mpr ?_
  intro p hp
  have hmem : p ∈ pre ++ shown d :: post := List.mem_append_right _ (List.mem_cons_of_mem _ hp)
  obtain ⟨a, ha, rfl⟩ := List.mem_map.mp ((perm_of_line h).mem_iff.mp hmem)
  have hne : (a.name == d.name) = false := hothers _ (List.mem_append_right _ hp)
  have hd' : shown d ∉ post := by
    intro hdpost
    have hself : (d.name == d.name) = false := hothers _ (List.mem_append_right _ hdpost)
    rw [BEq.rfl] at hself
    cases hself
  -- the entry `a` would stand on both sides of `d`
  have hfront : shown a ∈ pre := mem_front hd' (ahead_of_last hl hd haside hopen h hend ha hne)
  have htwice := (List.pairwise_append.mp (apart_of_line hl h)).2.2 _ hfront _
    (List.mem_cons_of_mem _ hp)
  rw [BEq.rfl] at htwice
  cases htwice

end Place

/-- Whatever changes a roster went through under whatever policy: if no entry stands after the last
anchor, an entry that stands aside can be withdrawn without any effect on the others.  The roster can
be put in line with it exactly when it can be put in line without it, and the two lines differ in
that entry alone, which stands at the end if it was registered last. -/
theorem sorted_without (policy : Policy N) (changes : List (Change N V)) {d : Entry N V}
    (hd : d ∈ (replay policy changes).entries) (haside : (replay policy changes).entries.Aside d)
    (hopen : ∀ e ∈ (replay policy changes).entries, .last ∉ e.bounds.targets .after) :
    ((∃ line, (replay policy changes).sorted = .ok line) ↔
        ∃ line, (replay policy (changes ++ [.withdraw d.name])).sorted = .ok line) ∧
      ∀ line line', (replay policy changes).sorted = .ok line →
        (replay policy (changes ++ [.withdraw d.name])).sorted = .ok line' →
          ∃ pre post, line = pre ++ (d.name, d.value) :: post ∧ line' = pre ++ post ∧
            ((replay policy changes).entries.getLast? = some d → post = []) := by
  have hl := distinct_replay policy changes
  have hs := entries_withdraw hl d.name
  rw [← replay_concat] at hs
  refine ⟨(exists_line_without_iff hl hd haside hs).symm, ?_⟩
  intro line line' h h'
  have hperm := perm_of_line h
  have hmem : shown d ∈ line := hperm.mem_iff.mpr (List.mem_map.mpr ⟨d, hd, rfl⟩)
  obtain ⟨pre, post, rfl⟩ := List.append_of_mem hmem
  have hkeep : ∀ p ∈ pre ++ post, (!(p.1 == d.name)) = true := by
    intro p hp
    rw [others_of_line hl h p hp, Bool.not_false]
  have hsplit : (pre ++ shown d :: post).filter (fun p => !(p.1 == d.name)) = pre ++ post := by
    rw [← List.filter_eq_self.mpr hkeep, List.filter_append, List.filter_append,
      List.filter_cons_of_neg (by simp [shown])]
  have hline := line_without hl hd haside hopen hs h h'
  exact ⟨pre, post, rfl, hline.symm.trans hsplit, nothing_behind hl hd haside hopen h⟩

/-- Entry 1 waits for entry 3, which stands before it, and entry 4 stands after 3.  Entry 2 stands
before the last anchor and before a spot that is not there. -/
def spareChanges : List (Change Nat Char) :=
  [.enroll 1 'a' .free,
    .enroll 2 'b' (Bounds.free.declare .before [.entry 9, .last]),
    .enroll 3 'c' (Bounds.free.declare .before [.entry 1]),
    .enroll 4 'd' (Bounds.free.declare .after [.entry 3])]

/-- Without entry 2 the others, two of which get another number, keep their order. -/
theorem sorted_without_spare :
    ⟨2, 'b', ⟨none, some [.entry 9, .last]⟩⟩ ∈ (replay .beforeLast spareChanges).entries ∧
      (replay .beforeLast spareChanges).entries.Aside
        ⟨2, 'b', ⟨none, some [.entry 9, .last]⟩⟩ ∧
      (∀ e ∈ (replay .beforeLast spareChanges).entries, .last ∉ e.bounds.targets .after) ∧
      (replay .beforeLast spareChanges).sorted = .ok [(2, 'b'), (3, 'c'), (4, 'd'), (1, 'a')] ∧
      (replay .beforeLast (spareChanges ++ [.withdraw 2])).sorted =
        .ok [(3, 'c'), (4, 'd'), (1, 'a')] := by
  have hd : ⟨2, 'b', ⟨none, some [.entry 9, .last]⟩⟩ ∈
      (replay .beforeLast spareChanges).entries := by decide
  have haside : (replay .beforeLast spareChanges).entries.Aside
      ⟨2, 'b', ⟨none, some [.entry 9, .last]⟩⟩ := by
    refine ⟨rfl, by decide, by decide, ?_⟩
    intro e he hne side
    revert e
    cases side <;> decide
  have hopen : ∀ e ∈ (replay .beforeLast spareChanges).entries,
      .last ∉ e.bounds.targets .after := by decide
  have h : (replay .beforeLast spareChanges).sorted =
      .ok [(2, 'b'), (3, 'c'), (4, 'd'), (1, 'a')] := by cbv
  obtain ⟨hiff, hlines⟩ := sorted_without .beforeLast spareChanges hd haside hopen
  obtain ⟨line', h'⟩ := hiff.mp ⟨_, h⟩
  obtain ⟨pre, post, hsplit, rfl, -⟩ := hlines _ _ h h'
  refine ⟨hd, haside, hopen, h, ?_⟩
  cases pre with
  | nil =>
      cases hsplit
      exact h'
  | cons p pre =>
      obtain ⟨-, htail⟩ := List.cons.inj hsplit
      have hagain : (2, 'b') ∈ [(3, 'c'), (4, 'd'), (1, 'a')] := by simp [htail]
      exact absurd hagain (by decide)

/-- If an entry stands after the last anchor, it waits for the plain entry that was registered last,
which then does not come last. -/
example : (replay .beforeLast [.enroll 1 'a' (Bounds.free.declare .after [.last]),
    .enroll 2 'b' .free]).sorted = .ok [(2, 'b'), (1, 'a')] := by
  cbv

end Roster

end Lineup
