/-
# Bounds that point at nothing

An entry may declare a side and name no spot there that is registered, or none at all.  Such a
side gives no bond.  It is met all the same when some entry names this one from the facing side:
the bond of an entry that stands before it leads to it, and so answers a side that asks for
something ahead (`Baseless.met_iff`).  A roster with a baseless side is therefore refused whenever
no entry answers that side (`sorted_of_baseless`), and the condition cannot be left out
(`baseless_in_line`).
-/
import Mathlib.Data.List.Permutation
import Lineup.Proofs.Roster.Verdict

namespace Lineup

/-- The side that faces a side: what stands before an entry has that entry after it. -/
def Side.facing : Side → Side
  | .before => .after
  | .after => .before

namespace Listing

variable {N V : Type} [BEq N]

/-- The entry declared a side on which it names no spot of the listing. -/
structure Baseless (l : Listing N V) (e : Entry N V) (side : Side) : Prop where
  declared : e.bounds.declares side = true
  missing : ∀ t ∈ e.bounds.targets side, ∀ s ∈ l.spots, (s == t) = false

/-- Some entry names this one as a target on its own facing side. -/
def Answered (l : Listing N V) (e : Entry N V) (side : Side) : Prop :=
  ∃ f ∈ l, ∃ t ∈ f.bounds.targets side.facing, (Spot.entry e.name == t) = true

variable {l : Listing N V} {e : Entry N V} {side : Side}

theorem Baseless.not_own (h : l.Baseless e side) {s : Spot N} (hs : s ∈ l.spots) :
    ¬ ∃ t ∈ e.bounds.targets side, (s == t) = true := by
  rintro ⟨t, ht, hst⟩
  rw [h.missing t ht s hs] at hst
  cases hst

variable [EquivBEq N]

theorem Distinct.eq_of_name_eq (hl : l.Distinct) {a b : Entry N V} (ha : a ∈ l) (hb : b ∈ l)
    (h : a.name = b.name) : a = b :=
  eq_of_apart hl ha hb (h ▸ BEq.rfl)

theorem Binds.of_entry (hl : l.Distinct) (he : e ∈ l) {s : Spot N}
    (h : l.Binds (.entry e.name) s) :
    (s ∈ l.spots ∧ ∃ t ∈ e.bounds.targets .before, (s == t) = true) ∨ l.Answered e .before := by
  generalize hstart : Spot.entry e.name = start at h
  cases h with
  | anchors => cases hstart
  | after hf ht _ hst => exact Or.inr ⟨_, hf, _, ht, hstart ▸ hst⟩
  | before hf ht hs hst =>
      obtain rfl := hl.eq_of_name_eq he hf (Spot.entry.inj hstart)
      exact Or.inl ⟨hs, _, ht, hst⟩

theorem Binds.to_entry (hl : l.Distinct) (he : e ∈ l) {s : Spot N}
    (h : l.Binds s (.entry e.name)) :
    (s ∈ l.spots ∧ ∃ t ∈ e.bounds.targets .after, (s == t) = true) ∨ l.Answered e .after := by
  generalize hgoal : Spot.entry e.name = goal at h
  cases h with
  | anchors => cases hgoal
  | before hf ht _ hst => exact Or.inr ⟨_, hf, _, ht, hgoal ▸ hst⟩
  | after hf ht hs hst =>
      obtain rfl := hl.eq_of_name_eq he hf (Spot.entry.inj hgoal)
      exact Or.inl ⟨hs, _, ht, hst⟩

namespace Baseless

/-- A baseless side is met exactly when some entry answers it. -/
theorem met_iff (h : l.Baseless e side) (hl : l.Distinct) (he : e ∈ l) :
    l.Met e side ↔ l.Answered e side := by
  cases side with
  | before =>
      constructor
      · rintro ⟨s, hs⟩
        rcases hs.of_entry hl he with ⟨hspot, hown⟩ | hanswer
        · exact absurd hown (h.not_own hspot)
        · exact hanswer
      · rintro ⟨f, hf, t, ht, het⟩
        exact ⟨.entry f.name, .after hf ht (entry_mem_spots he) het⟩
  | after =>
      constructor
      · rintro ⟨s, hs⟩
        rcases hs.to_entry hl he with ⟨hspot, hown⟩ | hanswer
        · exact absurd hown (h.not_own hspot)
        · exact hanswer
      · rintro ⟨f, hf, t, ht, het⟩
        exact ⟨.entry f.name, .before hf ht (entry_mem_spots he) het⟩

theorem mem_wanting_iff (h : l.Baseless e side) (hl : l.Distinct) (he : e ∈ l) :
    e ∈ l.wanting side ↔ ¬ l.Answered e side := by
  rw [mem_wanting, h.met_iff hl he]
  exact ⟨fun hw => hw.2.2, fun hw => ⟨he, h.declared, hw⟩⟩

end Baseless

end Listing

namespace Roster

open Listing

variable {N V : Type} [BEq N] [EquivBEq N]

theorem sorted_of_wanting {r : Roster N V} (hl : r.entries.Distinct) {e : Entry N V} {side : Side}
    (he : e ∈ r.entries.wanting side) :
    ∃ side' names, r.sorted = .error (.refused (.unmet side' names)) := by
  by_cases hb : r.entries.wanting .before = []
  · cases side with
    | before => exact absurd (hb ▸ he) List.not_mem_nil
    | after =>
        have ha := List.ne_nil_of_mem he
        exact ⟨_, _, sorted_of_objection (hl.objection?_after hb ha)⟩
  · exact ⟨_, _, sorted_of_objection (hl.objection?_before hb)⟩

/-- Whatever changes a roster went through under whatever policy: if an entry declared a side and
names there no spot that is registered, and no entry names this one from the facing side, then the
roster is refused for a side that is not met, whatever else the entries declare. -/
theorem sorted_of_baseless (policy : Policy N) (changes : List (Change N V)) {e : Entry N V}
    {side : Side} (he : e ∈ (replay policy changes).entries)
    (h : (replay policy changes).entries.Baseless e side)
    (halone : ¬ (replay policy changes).entries.Answered e side) :
    ∃ side' names, (replay policy changes).sorted = .error (.refused (.unmet side' names)) := by
  have hl := distinct_replay policy changes
  exact sorted_of_wanting hl ((h.mem_wanting_iff hl he).mpr halone)

/-- Entry 1 declares that something stands ahead of it and names nothing; entry 2 names it, but
from the same side. -/
def aloneChanges : List (Change Nat Char) :=
  [.enroll 1 'a' (Bounds.free.declare .after []),
    .enroll 2 'b' (Bounds.free.declare .after [.entry 1])]

/-- The bond that entry 2 declares sets out from entry 1, and leaves the side ahead of it bare. -/
theorem sorted_of_baseless_alone :
    ⟨1, 'a', ⟨some [], none⟩⟩ ∈ (replay .beforeLast aloneChanges).entries ∧
      (replay .beforeLast aloneChanges).entries.Baseless ⟨1, 'a', ⟨some [], none⟩⟩ .after ∧
      ¬ (replay .beforeLast aloneChanges).entries.Answered ⟨1, 'a', ⟨some [], none⟩⟩ .after ∧
      ∃ side names, (replay .beforeLast aloneChanges).sorted =
        .error (.refused (.unmet side names)) := by
  have he : ⟨1, 'a', ⟨some [], none⟩⟩ ∈ (replay .beforeLast aloneChanges).entries := by decide
  have h : (replay .beforeLast aloneChanges).entries.Baseless ⟨1, 'a', ⟨some [], none⟩⟩ .after :=
    ⟨rfl, by decide⟩
  have halone : ¬ (replay .beforeLast aloneChanges).entries.Answered
      ⟨1, 'a', ⟨some [], none⟩⟩ .after := by
    unfold Answered
    decide
  exact ⟨he, h, halone, sorted_of_baseless .beforeLast aloneChanges he h halone⟩

/-- Entry 1 stands after an entry that is not there, and entry 2 before entry 1. -/
def lentChanges : List (Change Nat Char) :=
  [.enroll 1 'a' (Bounds.free.declare .after [.entry 9]),
    .enroll 2 'b' (Bounds.free.declare .before [.entry 1])]

/-- A baseless side does not always have the roster refused: entry 2 answers it, and there is a
line. -/
theorem baseless_in_line :
    ⟨1, 'a', ⟨some [.entry 9], none⟩⟩ ∈ (replay .beforeLast lentChanges).entries ∧
      (replay .beforeLast lentChanges).entries.Baseless ⟨1, 'a', ⟨some [.entry 9], none⟩⟩ .after ∧
      (replay .beforeLast lentChanges).sorted = .ok [(2, 'b'), (1, 'a')] :=
  ⟨by decide, ⟨rfl, by decide⟩, by cbv⟩

end Roster

end Lineup
