/-
# Names in a roster

Enrolling takes the old entry of a name away before it puts the new one at the end, so no two
entries of a roster ever have equal names (`distinct_replay`).  Every look-up by name rests on
this: the first entry that answers to a name is the only one, and what a roster says of a name is
what this entry holds (`answers_entries`).
-/
import Lineup.Roster.Change
import Lineup.Proofs.Listing.Bonds

namespace Lineup

namespace Listing

variable {N V : Type} [BEq N] {l : Listing N V}

theorem Distinct.sublist {k : Listing N V} (h : l.Distinct) (hk : k.Sublist l) : k.Distinct :=
  List.Pairwise.sublist hk h

variable [EquivBEq N]

theorem Distinct.eraseP_ne (h : l.Distinct) {name : N} :
    ∀ e ∈ l.eraseP (·.name == name), (e.name == name) = false := by
  induction l with
  | nil =>
      intro e he
      exact absurd he List.not_mem_nil
  | cons a l ih =>
      intro e he
      obtain ⟨hhead, htail⟩ := List.pairwise_cons.mp h
      by_cases ha : (a.name == name) = true
      · simp only [List.eraseP_cons, ha, cond_true] at he
        refine Bool.eq_false_iff.mpr ?_
        intro hname
        have hae : (a.name == e.name) = true := BEq.trans ha (BEq.symm hname)
        rw [hhead e he] at hae
        cases hae
      · rw [Bool.not_eq_true] at ha
        simp only [List.eraseP_cons, ha, cond_false] at he
        rcases List.mem_cons.mp he with rfl | he
        · exact ha
        · exact ih htail e he

theorem Distinct.find?_eq (h : l.Distinct) {e : Entry N V} (he : e ∈ l) :
    l.find? (·.name == e.name) = some e :=
  find?_of_apart h he BEq.rfl

end Listing

namespace Roster

open Listing

variable {N V : Type} [BEq N] [EquivBEq N]

theorem distinct_enroll {r : Roster N V} (h : r.entries.Distinct) (name : N) (value : V)
    (bounds : Bounds N) : (r.enroll name value bounds).2.entries.Distinct := by
  rw [enroll_entries]
  refine List.pairwise_append.mpr
    ⟨h.sublist List.eraseP_sublist, List.pairwise_singleton _ _, ?_⟩
  intro a ha b hb
  obtain rfl := List.mem_singleton.mp hb
  exact h.eraseP_ne a ha

theorem distinct_apply {r : Roster N V} (h : r.entries.Distinct) (c : Change N V) :
    (r.apply c).entries.Distinct := by
  cases c with
  | enroll name value bounds => exact distinct_enroll h name value bounds
  | withdraw name =>
      rw [apply, withdraw]
      cases r.get? name with
      | none => exact h
      | some value => exact h.sublist List.eraseP_sublist

/-- No two entries of a roster have equal names, whatever changes it went through. -/
theorem distinct_replay (policy : Policy N) (changes : List (Change N V)) :
    (replay policy changes).entries.Distinct := by
  unfold replay
  suffices h : ∀ r : Roster N V, r.entries.Distinct → (changes.foldl apply r).entries.Distinct from
    h (empty policy) List.Pairwise.nil
  induction changes with
  | nil => exact fun r hr => hr
  | cons c changes ih => exact fun r hr => ih (r.apply c) (distinct_apply hr c)

theorem get?_eq_of_mem {r : Roster N V} (h : r.entries.Distinct) {e : Entry N V}
    (he : e ∈ r.entries) : r.get? e.name = some e.value := by
  rw [get?, find?, h.find?_eq he]
  rfl

end Roster

/-! ## Questions about a roster -/

namespace Roster

variable {N V : Type} [BEq N] {r : Roster N V} {name : N}

/-- Every question about a roster is answered from `entries`: how many there are, what they hold one
after the other, and what the entry of a name holds, if there is one. -/
structure Answers (r : Roster N V) (entries : List (Entry N V)) : Prop where
  size : r.size = entries.length
  isEmpty : r.isEmpty = true ↔ entries = []
  names : r.names = entries.map fun e => e.name
  values : r.values = entries.map fun e => e.value
  contains : ∀ name, r.contains name = true ↔ ∃ e ∈ entries, (e.name == name) = true
  get? : ∀ name value, r.get? name = some value ↔
    ∃ e ∈ entries, (e.name == name) = true ∧ e.value = value
  bounds? : ∀ name bounds, r.bounds? name = some bounds ↔
    ∃ e ∈ entries, (e.name == name) = true ∧ e.bounds = bounds

theorem contains_iff : r.contains name = true ↔ ∃ e ∈ r.entries, (e.name == name) = true := by
  simp [contains, find?, List.find?_isSome]

theorem contains_eq_false_iff :
    r.contains name = false ↔ ∀ e ∈ r.entries, (e.name == name) = false := by
  rw [← Bool.not_eq_true, contains_iff]
  simp

variable [EquivBEq N]

theorem find?_eq_some_iff (h : r.entries.Distinct) {e : Entry N V} :
    r.find? name = some e ↔ e ∈ r.entries ∧ (e.name == name) = true := by
  constructor
  · intro he
    have hname := List.find?_some (p := fun e : Entry N V => e.name == name) he
    exact ⟨List.mem_of_find?_eq_some he, hname⟩
  · rintro ⟨he, hname⟩
    exact Listing.find?_of_apart h he hname

theorem map_find?_eq_some_iff (h : r.entries.Distinct) {α : Type} (f : Entry N V → α) {a : α} :
    (r.find? name).map f = some a ↔ ∃ e ∈ r.entries, (e.name == name) = true ∧ f e = a := by
  simp only [Option.map_eq_some_iff, find?_eq_some_iff h, and_assoc]

theorem answers_entries (h : r.entries.Distinct) : r.Answers r.entries where
  size := rfl
  isEmpty := List.isEmpty_iff
  names := rfl
  values := rfl
  contains _ := contains_iff
  get? _ _ := map_find?_eq_some_iff h fun e => e.value
  bounds? _ _ := map_find?_eq_some_iff h fun e => e.bounds

end Roster

end Lineup
