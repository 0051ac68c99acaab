/-
# The line of a roster

If a roster can be put in line, the line holds every entry once, by its name and with the value
that stands for the name now, and wherever a chain of bonds leads from one entry to another the
first stands ahead of the second.  The chain may run through the anchors, which do not show in the
line: an entry before the last anchor stands ahead of every entry after it.

Every number of the released order carries one entry, so what holds of the order holds of the
line: a permutation of the numbers gives a permutation of the entries, and a pair of numbers in
the order gives a pair of entries in the line.
-/
import Mathlib.Data.List.Permutation
import Lineup.Proofs.Roster.Names
import Lineup.Proofs.Roster.Outcomes

namespace Lineup

open List Relation

/-! ## From numbers to entries -/

theorem exists_sublist_of_forall₂ {α β : Type} {R : α → β → Prop} {xs' xs : List α}
    (hs : xs'.Sublist xs) : ∀ {ys : List β}, Forall₂ R xs ys →
      ∃ ys', ys'.Sublist ys ∧ Forall₂ R xs' ys' := by
  induction hs with
  | slnil => exact fun _ => ⟨[], List.nil_sublist _, .nil⟩
  | cons x _ ih =>
      rintro (_ | ⟨y, ys⟩) (_ | ⟨hxy, hall⟩)
      obtain ⟨ys', hsub, hall'⟩ := ih hall
      exact ⟨ys', hsub.cons y, hall'⟩
  | cons_cons x _ ih =>
      rintro (_ | ⟨y, ys⟩) (_ | ⟨hxy, hall⟩)
      obtain ⟨ys', hsub, hall'⟩ := ih hall
      exact ⟨y :: ys', hsub.cons_cons y, .cons hxy hall'⟩

namespace Listing

variable {N V : Type} {l : Listing N V}

def shown (e : Entry N V) : N × V := (e.name, e.value)

theorem rightUnique_carries (l : Listing N V) : Relator.RightUnique l.Carries := by
  rintro v _ _ ⟨e, he, rfl⟩ ⟨f, hf, rfl⟩
  rw [he] at hf
  cases hf
  rfl

theorem carries_entry {i : Nat} {e : Entry N V} (h : l[i]? = some e) :
    l.Carries (entryNode i) (shown e) :=
  ⟨e, h, rfl⟩

theorem filter_range (n : Nat) :
    (List.range (n + 2)).filter (2 ≤ ·) = (List.range n).map entryNode := by
  rw [List.range_succ_eq_map, List.range_succ_eq_map]
  simp [List.filter_map, Function.comp_def]

theorem range_carries (l : Listing N V) :
    Forall₂ l.Carries ((List.range l.nodeCount).filter (2 ≤ ·)) (l.map shown) := by
  rw [filter_range, List.forall₂_map_left_iff, List.forall₂_map_right_iff]
  refine List.forall₂_iff_get.mpr ⟨List.length_range, ?_⟩
  intro i hi hi'
  simp only [List.get_eq_getElem, List.getElem_range]
  exact carries_entry (List.getElem?_eq_getElem hi')

variable {g : Network} {order : List Nat} {line : List (N × V)}

theorem pair_sublist_line (hall : Forall₂ l.Carries (order.filter (2 ≤ ·)) line) {i j : Nat}
    {a b : Entry N V} (hi : l[i]? = some a) (hj : l[j]? = some b)
    (hsub : [entryNode i, entryNode j].Sublist order) : [shown a, shown b].Sublist line := by
  have hsub' : [entryNode i, entryNode j].Sublist (order.filter (2 ≤ ·)) := by
    simpa using hsub.filter fun v => decide (2 ≤ v)
  obtain ⟨ys, hys, hpair⟩ := exists_sublist_of_forall₂ hsub' hall
  have heq : ys = [shown a, shown b] := by
    refine List.right_unique_forall₂' (rightUnique_carries l) hpair ?_
    exact .cons (carries_entry hi) (.cons (carries_entry hj) .nil)
  exact heq ▸ hys

variable [BEq N]

theorem Drawn.line_perm (hg : l.Drawn g) (hlines : g.Lines order)
    (hall : Forall₂ l.Carries (order.filter (2 ≤ ·)) line) : line.Perm (l.map shown) := by
  have hperm : order.Perm (List.range l.nodeCount) := hg.size ▸ hlines.perm
  exact rel_perm_imp (rightUnique_carries l) hall (range_carries l) (hperm.filter _)

theorem Drawn.line_sublist [EquivBEq N] (hg : l.Drawn g) (hl : l.Distinct)
    (hlines : g.Lines order) (hall : Forall₂ l.Carries (order.filter (2 ≤ ·)) line)
    {a b : Entry N V} (ha : a ∈ l) (hb : b ∈ l)
    (hab : TransGen l.Binds (.entry a.name) (.entry b.name)) :
    [shown a, shown b].Sublist line := by
  obtain ⟨i, hi⟩ := List.mem_iff_getElem?.mp ha
  obtain ⟨j, hj⟩ := List.mem_iff_getElem?.mp hb
  have hpath := (hg.path_iff hl (denotes_entry hi) (denotes_entry hj)).mpr hab
  have hmem : entryNode j ∈ order :=
    hlines.mem_iff.mpr (hg.size ▸ (denotes_entry hj).lt)
  exact pair_sublist_line hall hi hj (hlines.obeys.sublist hpath hmem)

end Listing

namespace Roster

open Listing

variable {N V : Type} [BEq N] {r : Roster N V} {line : List (N × V)}

theorem perm_of_line (h : r.sorted = .ok line) : line.Perm (r.entries.map shown) := by
  obtain ⟨g, order, hg, hrel, hall⟩ := release_of_line h
  exact hg.line_perm (hg.tied.lines_of_release hrel) hall

variable [EquivBEq N]

theorem apart_of_line (hl : r.entries.Distinct) (h : r.sorted = .ok line) :
    line.Pairwise fun p q => (p.1 == q.1) = false := by
  refine ((perm_of_line h).pairwise_iff ?_).mpr (List.pairwise_map.mpr hl)
  intro p q hpq
  rw [BEq.comm]
  exact hpq

theorem get?_of_line (hl : r.entries.Distinct) (h : r.sorted = .ok line) :
    ∀ p ∈ line, r.get? p.1 = some p.2 := by
  intro p hp
  obtain ⟨e, he, rfl⟩ := List.mem_map.mp ((perm_of_line h).mem_iff.mp hp)
  exact get?_eq_of_mem hl he

/-- Whatever changes a roster went through under whatever policy: if it can be put in line, the
line holds every entry exactly once, each name with its own current value, and an entry from which
a chain of bonds leads to another one stands ahead of that one.  So an entry before an anchor stands
ahead of every entry after it, and one before the first anchor ahead of those after the last. -/
theorem sorted_line (policy : Policy N) (changes : List (Change N V)) {line : List (N × V)}
    (h : (replay policy changes).sorted = .ok line) :
    line.Perm ((replay policy changes).entries.map fun e => (e.name, e.value)) ∧
      (line.Pairwise fun p q => (p.1 == q.1) = false) ∧
      (∀ p ∈ line, (replay policy changes).get? p.1 = some p.2) ∧
      (∀ a ∈ (replay policy changes).entries, ∀ b ∈ (replay policy changes).entries,
        TransGen (replay policy changes).entries.Binds (.entry a.name) (.entry b.name) →
          [(a.name, a.value), (b.name, b.value)].Sublist line) ∧
      ∀ a ∈ (replay policy changes).entries, ∀ b ∈ (replay policy changes).entries,
        ∀ s ∈ a.bounds.targets .before, ∀ t ∈ b.bounds.targets .after,
          t.isAnchor = true → s = t ∨ s = .first →
            [(a.name, a.value), (b.name, b.value)].Sublist line := by
  have hl := distinct_replay policy changes
  obtain ⟨g, order, hg, hrel, hall⟩ := release_of_line h
  have hlines := hg.tied.lines_of_release hrel
  refine ⟨perm_of_line h, apart_of_line hl h, get?_of_line hl h, ?_, ?_⟩
  · intro a ha b hb hab
    exact hg.line_sublist hl hlines hall ha hb hab
  · intro a ha b hb s hs t ht hanchor hst
    exact hg.line_sublist hl hlines hall ha hb (chain_at_anchor ha hb hs ht hanchor hst)

/-- Entry 1 stands after the last anchor and names a spot that is not there, entry 3 stands twice
after entry 2, and entry 2 is enrolled again with other bounds once 3 has named it. -/
def crossedChanges : List (Change Nat Char) :=
  [.enroll 1 'b' (Bounds.free.declare .after [.last, .entry 7]),
    .enroll 2 'x' .free,
    .enroll 3 'c' (Bounds.free.declare .after [.entry 2, .entry 2]),
    .enroll 2 'a' (Bounds.free.declare .before [.last])]

/-- Entry 2 stands ahead of entry 1 because the last anchor stands between them. -/
theorem sorted_line_crossed :
    (replay .beforeLast crossedChanges).sorted = .ok [(2, 'a'), (1, 'b'), (3, 'c')] ∧
      TransGen (replay .beforeLast crossedChanges).entries.Binds (.entry 2) (.entry 1) ∧
      [(2, 'a'), (1, 'b')].Sublist [(2, 'a'), (1, 'b'), (3, 'c')] := by
  have h : (replay .beforeLast crossedChanges).sorted =
      .ok [(2, 'a'), (1, 'b'), (3, 'c')] := by cbv
  have ha : ⟨2, 'a', ⟨none, some [.last]⟩⟩ ∈ (replay .beforeLast crossedChanges).entries := by
    decide
  have hb : ⟨1, 'b', ⟨some [.last, .entry 7], none⟩⟩ ∈
      (replay .beforeLast crossedChanges).entries := by decide
  have hab : TransGen (replay .beforeLast crossedChanges).entries.Binds (.entry 2) (.entry 1) :=
    chain_at_anchor ha hb List.mem_cons_self List.mem_cons_self rfl (.inl rfl)
  exact ⟨h, hab, (sorted_line .beforeLast crossedChanges h).2.2.2.1 _ ha _ hb hab⟩

end Roster

end Lineup
