/-
# Entries between the anchors

An entry that declares that it stands after the first anchor and before the last says nothing that
is not true of a line anyway.  It makes a difference all the same.  An entry that declares no side
is ready from the start; one between the anchors is freed by the first anchor, and whoever is freed
goes to the front of the row.  So the entries between the anchors come ahead of those that declare
no side, and among themselves in the reverse of their registration, since each goes in front of
those freed before (`sorted_between`).
-/
import Lineup.Proofs.Roster.Anchored
import Lineup.Proofs.Roster.Survivors

namespace Lineup

namespace Roster

open Listing Change

variable {N V : Type}

/-- Enrolments of names with values, each between the anchors or without a side. -/
def enrolments (given : List (Bool × N × V)) : List (Change N V) :=
  given.map fun p => .enroll p.2.1 p.2.2 (if p.1 then .between else .free)

def enrolled (p : Bool × N × V) : Entry N V :=
  ⟨p.2.1, p.2.2, if p.1 then .between else Policy.beforeLast.standing⟩

theorem follower_enrolled (p : Bool × N × V) : follower (enrolled p) = p.1 := by
  rcases p with ⟨_ | _, p⟩ <;> rfl

theorem anchored_enrolled (given : List (Bool × N × V)) : Anchored (given.map enrolled) := by
  intro e he
  obtain ⟨⟨between, p⟩, -, rfl⟩ := List.mem_map.mp he
  cases between with
  | false => exact ⟨.inl rfl, .inr rfl⟩
  | true => exact ⟨.inr rfl, .inr rfl⟩

variable [BEq N]

theorem survivors_enrolments {given : List (Bool × N × V)}
    (h : given.Pairwise fun p q => (p.2.1 == q.2.1) = false) :
    survivors (enrolments given) = enrolments given := by
  induction given with
  | nil => rfl
  | cons p given ih =>
      obtain ⟨hp, hrest⟩ := List.pairwise_cons.mp h
      have hlast : ¬ (enrolments given).any (p.2.1 == ·.name) = true := by
        rw [List.any_eq_true]
        rintro ⟨c, hc, hname⟩
        obtain ⟨q, hq, rfl⟩ := List.mem_map.mp hc
        rw [name_enroll, hp q hq] at hname
        cases hname
      rw [enrolments, List.map_cons, survivors, ← enrolments, if_neg hlast, ih hrest]

variable [EquivBEq N]

theorem entries_enrolments {given : List (Bool × N × V)}
    (h : given.Pairwise fun p q => (p.2.1 == q.2.1) = false) :
    (replay .beforeLast (enrolments given)).entries = given.map enrolled := by
  rw [entries_replay, survivors_enrolments h, enrolments, List.filterMap_map,
    ← List.filterMap_eq_map]
  refine List.filterMap_congr fun p _ => ?_
  rcases p with ⟨_ | _, name, value⟩ <;> rfl

/-- Under the policy that puts entries before the last anchor, names that are all distinct may be
enrolled in any number and order, each without a side or between the anchors.  The roster can be put
in line; the entries between the anchors come first, the one registered last ahead of the others,
and those that declared no side follow in the order of their registration. -/
theorem sorted_between {given : List (Bool × N × V)}
    (h : given.Pairwise fun p q => (p.2.1 == q.2.1) = false) :
    (replay .beforeLast (enrolments given)).sorted =
      .ok (((given.filter (·.1)).reverse ++ given.filter (!·.1)).map (·.2)) := by
  have hentries := entries_enrolments h
  have hanchored : (replay .beforeLast (enrolments given)).entries.Anchored :=
    hentries ▸ anchored_enrolled given
  rw [sorted_of_anchored (distinct_replay _ _) hanchored, hentries, List.filter_map,
    List.filter_map, ← List.map_reverse, ← List.map_append, List.map_map]
  simp only [Function.comp_def, follower_enrolled]
  rfl

/-- Names 2 and 4 are enrolled between the anchors, the others without a side. -/
def flankedNames : List (Bool × Nat × Char) :=
  [(false, 1, 'a'), (true, 2, 'b'), (false, 3, 'c'), (true, 4, 'd')]

theorem sorted_between_flanked :
    (flankedNames.Pairwise fun p q => (p.2.1 == q.2.1) = false) ∧
      (replay .beforeLast (enrolments flankedNames)).sorted =
        .ok [(4, 'd'), (2, 'b'), (1, 'a'), (3, 'c')] := by
  have h : flankedNames.Pairwise fun p q => (p.2.1 == q.2.1) = false := by decide
  exact ⟨h, sorted_between h⟩

/-- An entry between the anchors does not stand where it was registered.  Entry 1 declares no side
and is enrolled ahead of entry 2, which declares that it stands between the anchors, and yet 2 comes
first. -/
theorem between_out_of_order :
    ([(false, 1, 'a'), (true, 2, 'b')].Pairwise fun p q => (p.2.1 == q.2.1) = false) ∧
      (replay .beforeLast (enrolments [(false, 1, 'a'), (true, 2, 'b')])).sorted =
        .ok [(2, 'b'), (1, 'a')] ∧
      (replay .beforeLast (enrolments [(false, 1, 'a'), (true, 2, 'b')])).sorted ≠
        .ok ([(false, 1, 'a'), (true, 2, 'b')].map (·.2)) := by
  have hsorted : (replay .beforeLast (enrolments [(false, 1, 'a'), (true, 2, 'b')])).sorted =
      .ok [(2, 'b'), (1, 'a')] := by cbv
  refine ⟨by decide, hsorted, ?_⟩
  rw [hsorted]
  decide

end Roster

end Lineup
