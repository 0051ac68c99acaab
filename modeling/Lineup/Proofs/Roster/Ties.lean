/-
# Ties

Where no chain of bonds sets two entries against each other, the order in which they were registered
decides only in part.  Entries with nothing ahead of them keep it, and so does a whole roster of
plain entries under a policy that puts nothing ahead of them.  Entries that wait for the same spot
come in the reverse of the order in which it is bound to them, and so does a whole roster of plain
entries under the policy that puts them after the first anchor (`sorted_ties`).
-/
import Lineup.Proofs.Roster.Anchored
import Lineup.Proofs.Roster.Survivors

namespace Lineup

open List Relation

namespace Roster

open Listing Change

variable {N V : Type} [BEq N] [EquivBEq N] {r : Roster N V} {line : List (N × V)}

/-! ## Plain entries -/

theorem not_circular_of_line (hl : r.entries.Distinct) (h : r.sorted = .ok line) :
    ¬ ∃ s, TransGen r.entries.Binds s s := by
  obtain ⟨g, order, hg, hrel, -⟩ := release_of_line h
  rw [← hg.circular_iff hl]
  exact (hg.tied.lines_of_release hrel).not_circular

/-- Where all entries carry the same bounds and these put nothing ahead, nothing stands ahead of any
entry of a line: a bond that led to one entry would have a twin that leads from it to itself. -/
theorem unbound_of_standing (hl : r.entries.Distinct) (h : r.sorted = .ok line)
    {bounds : Bounds N} (hafter : bounds.after = none)
    (hsame : ∀ e ∈ r.entries, e.bounds = bounds) :
    ∀ e ∈ r.entries, r.entries.Unbound (.entry e.name) := by
  intro e he t hte
  generalize hgoal : Spot.entry e.name = goal at hte
  cases hte with
  | anchors => cases hgoal
  | @after f _ u hf hu _ _ =>
      rw [hsame f hf, Bounds.targets, Bounds.on, hafter] at hu
      exact absurd hu List.not_mem_nil
  | @before f _ u hf hu _ hst =>
      have hown : u ∈ e.bounds.targets .before := by
        rw [hsame e he, ← hsame f hf]
        exact hu
      have hloop : r.entries.Binds (.entry e.name) (.entry e.name) :=
        .before he hown (entry_mem_spots he) (hgoal ▸ hst)
      exact not_circular_of_line hl h ⟨_, .single hloop⟩

theorem bounds_of_plain (policy : Policy N) (plain : List (N × V)) :
    ∀ e ∈ (replay policy (plain.map fun p => .enroll p.1 p.2 .free)).entries,
      e.bounds = policy.standing := by
  intro e he
  rw [entries_replay] at he
  obtain ⟨c, hc, hce⟩ := List.mem_filterMap.mp he
  obtain ⟨p, -, rfl⟩ := List.mem_map.mp ((survivors_sublist _).subset hc)
  rw [made?_enroll] at hce
  cases hce
  rfl

theorem sorted_of_beforeLast (hl : r.entries.Distinct)
    (hsame : ∀ e ∈ r.entries, e.bounds = Policy.beforeLast.standing) :
    r.sorted = .ok (r.entries.map shown) := by
  have hanchored : r.entries.Anchored := by
    intro e he
    rw [hsame e he]
    exact ⟨.inl rfl, .inr rfl⟩
  obtain ⟨line, h⟩ := exists_line_of_anchored hl hanchored
  rw [h, line_of_unbound hl h (unbound_of_standing hl h rfl hsame)]

theorem sorted_of_afterFirst (hl : r.entries.Distinct)
    (hsame : ∀ e ∈ r.entries, e.bounds = Policy.afterFirst.standing) :
    r.sorted = .ok (r.entries.reverse.map shown) := by
  have hanchored : r.entries.Anchored := by
    intro e he
    rw [hsame e he]
    exact ⟨.inr rfl, .inl rfl⟩
  have hfollow : ∀ e ∈ r.entries, follower e = true := by
    intro e he
    rw [follower, hsame e he]
    rfl
  have hnone : r.entries.filter (fun e => !follower e) = [] :=
    List.filter_eq_nil_iff.mpr fun e he => by simp [hfollow e he]
  rw [sorted_of_anchored hl hanchored, List.filter_eq_self.mpr hfollow, hnone, List.append_nil]

/-! ## The order of a line -/

/-- Whatever changes a roster went through under whatever policy: if it can be put in line, then an
entry stands ahead of another one whenever some origin of the other is registered after all origins
of the first.  In particular two entries that no bond puts anything ahead of stand in the order of
their registration, and so does the whole line if all entries carry the policy's bounds and these
ask for nothing ahead.  Of two entries that only one spot stands ahead of, the same for both, the
one that this spot is bound to last comes first.  Entries that were enrolled without a side can
be put in line under either of the two common policies: under the one that puts them before the last
anchor they come out in the order of registration, and under the one that puts them after the first
in the reverse of it. -/
theorem sorted_ties (policy : Policy N) (changes : List (Change N V)) :
    (∀ line, (replay policy changes).sorted = .ok line →
      (∀ a ∈ (replay policy changes).entries, ∀ b ∈ (replay policy changes).entries,
        ∀ w, (replay policy changes).entries.Origin w (.entry b.name) →
          (∀ s, (replay policy changes).entries.Origin s (.entry a.name) →
            [s, w].Sublist (replay policy changes).entries.spots) →
          [(a.name, a.value), (b.name, b.value)].Sublist line) ∧
      (∀ a b, [a, b].Sublist (replay policy changes).entries →
        (replay policy changes).entries.Unbound (.entry a.name) →
        (replay policy changes).entries.Unbound (.entry b.name) →
          [(a.name, a.value), (b.name, b.value)].Sublist line) ∧
      (policy.standing.after = none →
        (∀ e ∈ (replay policy changes).entries, e.bounds = policy.standing) →
          line = (replay policy changes).entries.map fun e => (e.name, e.value)) ∧
      (∀ a ∈ (replay policy changes).entries, ∀ b ∈ (replay policy changes).entries,
        ∀ s pre post, (∀ t, (replay policy changes).entries.Binds t (.entry a.name) ↔ t = s) →
          (∀ t, (replay policy changes).entries.Binds t (.entry b.name) ↔ t = s) →
          (replay policy changes).entries.bondsFrom s = pre ++ .entry b.name :: post →
          .entry a.name ∉ .entry b.name :: post →
            [(b.name, b.value), (a.name, a.value)].Sublist line)) ∧
    ∀ plain : List (N × V),
      (replay .beforeLast (plain.map fun p => .enroll p.1 p.2 .free)).sorted =
          .ok ((replay .beforeLast (plain.map fun p => .enroll p.1 p.2 .free)).entries.map
            fun e => (e.name, e.value)) ∧
        (replay .afterFirst (plain.map fun p => .enroll p.1 p.2 .free)).sorted =
          .ok ((replay .afterFirst (plain.map fun p => .enroll p.1 p.2 .free)).entries.reverse.map
            fun e => (e.name, e.value)) := by
  refine ⟨?_, ?_⟩
  · intro line h
    have hl := distinct_replay policy changes
    refine ⟨?_, ?_, ?_, ?_⟩
    · intro a ha b hb w hw hbefore
      exact line_of_origins hl h ha hb hw hbefore
    · intro a b hab ha hb
      refine line_of_origins hl h (hab.subset List.mem_cons_self)
        (hab.subset (List.mem_cons_of_mem _ List.mem_cons_self)) ⟨hb, .refl⟩ ?_
      intro s hs
      rw [ha.eq_of_origin hs]
      exact pair_sublist_spots hab
    · intro hafter hsame
      exact line_of_unbound hl h (unbound_of_standing hl h hafter hsame)
    · intro a ha b hb s pre post hsa hsb hbonds hlast
      exact line_of_siblings hl h ha hb hsa hsb hbonds hlast
  · intro plain
    exact ⟨sorted_of_beforeLast (distinct_replay _ _) (bounds_of_plain .beforeLast plain),
      sorted_of_afterFirst (distinct_replay _ _) (bounds_of_plain .afterFirst plain)⟩

/-- Entries 1 and 2 declare no side; entry 3 comes last and stands before entry 1. -/
def delayedChanges : List (Change Nat Char) :=
  [.enroll 1 'a' .free, .enroll 2 'b' .free,
    .enroll 3 'c' (Bounds.free.declare .before [.entry 1])]

theorem sorted_delayed :
    (replay .beforeLast delayedChanges).sorted = .ok [(2, 'b'), (3, 'c'), (1, 'a')] := by
  cbv

theorem binds_delayed_iff {s t : Spot Nat} :
    (replay .beforeLast delayedChanges).entries.Binds s t ↔
      (s, t) ∈ [(.first, .last), (.entry 1, .last), (.entry 2, .last), (.entry 3, .entry 1)] := by
  have hbonds : (replay .beforeLast delayedChanges).entries.bonds =
      [(.first, .last), (.entry 1, .last), (.entry 2, .last), (.entry 3, .entry 1)] := by decide
  rw [← (distinct_replay .beforeLast delayedChanges).mem_bonds_iff, hbonds]

/-- Entries 2 and 3 wait for entry 1, and entry 2 says so twice. -/
def sharedChanges : List (Change Nat Char) :=
  [.enroll 1 'a' .free, .enroll 2 'b' (Bounds.free.declare .after [.entry 1, .entry 1]),
    .enroll 3 'c' (Bounds.free.declare .after [.entry 1])]

theorem sorted_shared :
    (replay .beforeLast sharedChanges).sorted = .ok [(1, 'a'), (3, 'c'), (2, 'b')] := by
  cbv

theorem binds_shared_iff {s t : Spot Nat} :
    (replay .beforeLast sharedChanges).entries.Binds s t ↔
      (s, t) ∈ [(.first, .last), (.entry 1, .last), (.entry 1, .entry 2), (.entry 1, .entry 2),
        (.entry 1, .entry 3)] := by
  have hbonds : (replay .beforeLast sharedChanges).entries.bonds =
      [(.first, .last), (.entry 1, .last), (.entry 1, .entry 2), (.entry 1, .entry 2),
        (.entry 1, .entry 3)] := by decide
  rw [← (distinct_replay .beforeLast sharedChanges).mem_bonds_iff, hbonds]

/-- Entry 2 is its own only origin, and entry 3, which entry 1 waits for, is registered after it:
so entry 2 stands ahead of entry 1.  Of two entries that wait for entry 1 only, the one to which the
last bond leads comes first. -/
theorem sorted_ties_delayed :
    (replay .beforeLast delayedChanges).sorted = .ok [(2, 'b'), (3, 'c'), (1, 'a')] ∧
      (replay .beforeLast delayedChanges).entries.Unbound (.entry 2) ∧
      (replay .beforeLast delayedChanges).entries.Origin (.entry 3) (.entry 1) ∧
      [(2, 'b'), (1, 'a')].Sublist [(2, 'b'), (3, 'c'), (1, 'a')] ∧
      (replay .beforeLast sharedChanges).sorted = .ok [(1, 'a'), (3, 'c'), (2, 'b')] ∧
      [(3, 'c'), (2, 'b')].Sublist [(1, 'a'), (3, 'c'), (2, 'b')] := by
  have h₂ : (replay .beforeLast delayedChanges).entries.Unbound (.entry 2) := by
    intro t ht
    simp [binds_delayed_iff] at ht
  have h₃ : (replay .beforeLast delayedChanges).entries.Origin (.entry 3) (.entry 1) := by
    refine ⟨?_, .single (binds_delayed_iff.mpr (by decide))⟩
    intro t ht
    simp [binds_delayed_iff] at ht
  have hwaits : ∀ s, (replay .beforeLast delayedChanges).entries.Origin s (.entry 2) →
      [s, .entry 3].Sublist (replay .beforeLast delayedChanges).entries.spots := by
    intro s hs
    rw [h₂.eq_of_origin hs]
    decide
  refine ⟨sorted_delayed, h₂, h₃, ?_, sorted_shared, ?_⟩
  · exact ((sorted_ties .beforeLast delayedChanges).1 _ sorted_delayed).1
      ⟨2, 'b', ⟨none, some [.last]⟩⟩ (by decide) ⟨1, 'a', ⟨none, some [.last]⟩⟩ (by decide) _ h₃
      hwaits
  · exact ((sorted_ties .beforeLast sharedChanges).1 _ sorted_shared).2.2.2
      ⟨2, 'b', ⟨some [.entry 1, .entry 1], none⟩⟩ (by decide)
      ⟨3, 'c', ⟨some [.entry 1], none⟩⟩ (by decide) (.entry 1) [.last, .entry 2, .entry 2] []
      (by simp [binds_shared_iff]) (by simp [binds_shared_iff]) (by decide) (by decide)

/-- Ties do not always fall to registration.  Entries 1 and 2 carry the policy's bounds, 1 is
registered ahead of 2 and no chain of bonds leads from 2 to 1, and yet 2 stands ahead of 1, which
waits for entry 3.  Under the policy that puts them after the first anchor, plain entries even come
out in reverse. -/
theorem plain_entries_out_of_order :
    (replay .beforeLast delayedChanges).sorted = .ok [(2, 'b'), (3, 'c'), (1, 'a')] ∧
      [⟨1, 'a', Policy.beforeLast.standing⟩, ⟨2, 'b', Policy.beforeLast.standing⟩].Sublist
        (replay .beforeLast delayedChanges).entries ∧
      ¬ TransGen (replay .beforeLast delayedChanges).entries.Binds (.entry 2) (.entry 1) ∧
      ¬ [(1, 'a'), (2, 'b')].Sublist [(2, 'b'), (3, 'c'), (1, 'a')] ∧
      (replay .afterFirst ([(1, 'a'), (2, 'b'), (3, 'c')].map fun p =>
        .enroll p.1 p.2 .free)).sorted = .ok [(3, 'c'), (2, 'b'), (1, 'a')] := by
  refine ⟨sorted_delayed, by decide, ?_, by decide, by cbv⟩
  intro hpath
  -- the only bond that sets out from entry 2 ends at the last anchor, where no bond sets out
  obtain ⟨t, hstep, hrest⟩ := TransGen.head'_iff.mp hpath
  obtain rfl : t = .last := by simpa [binds_delayed_iff] using hstep
  rcases ReflTransGen.cases_head hrest with heq | ⟨u, hstep', -⟩
  · cases heq
  · simp [binds_delayed_iff] at hstep'

end Roster

end Lineup
