/-
# What is left of a row of changes

A roster does not remember its history.  Of all the changes it went through only some enrolments
count: those of a name that no later change to the same name undid.  Its entries are these
enrolments, in their order, each with the spelling, the value and the bounds that it came with
(`entries_replay`), so replaying them alone gives the same roster (`replay_survivors`).

Both facts are read off the last change of a row: it takes the earlier enrolments of its name out
of the roster and out of the survivors alike, and an enrolment puts itself at the end of both.
-/
import Mathlib.Data.List.Induction
import Lineup.Name.CaseBlind
import Lineup.Proofs.Roster.Names

namespace Lineup

variable {N V : Type}

namespace Change

def name : Change N V → N
  | enroll name _ _ => name
  | withdraw name => name

@[simp] theorem name_enroll (n : N) (value : V) (bounds : Bounds N) :
    (enroll n value bounds).name = n := rfl

@[simp] theorem name_withdraw (n : N) : (withdraw n : Change N V).name = n := rfl

/-- The entry that an enrolment makes under a policy.  It carries the standing bounds if neither
side is declared, and otherwise its own, even if what is declared lists no spot. -/
def made? (policy : Policy N) : Change N V → Option (Entry N V)
  | enroll name value ⟨none, none⟩ => some ⟨name, value, policy.standing⟩
  | enroll name value bounds => some ⟨name, value, bounds⟩
  | withdraw _ => none

@[simp] theorem made?_enroll (policy : Policy N) (n : N) (value : V) (bounds : Bounds N) :
    (enroll n value bounds).made? policy = some ⟨n, value, policy.resolve bounds⟩ := by
  obtain ⟨_ | after, _ | before⟩ := bounds <;> rfl

@[simp] theorem made?_withdraw (policy : Policy N) (n : N) :
    (withdraw n : Change N V).made? policy = none := rfl

variable [BEq N]

/-- The enrolments of a row that no later change to the same name undoes, in their order. -/
def survivors : List (Change N V) → List (Change N V)
  | [] => []
  | enroll name value bounds :: changes =>
    if changes.any (name == ·.name) then survivors changes
    else enroll name value bounds :: survivors changes
  | withdraw _ :: changes => survivors changes

theorem survivors_sublist (changes : List (Change N V)) :
    (survivors changes).Sublist changes := by
  induction changes with
  | nil => exact List.nil_sublist _
  | cons c changes ih =>
      cases c with
      | withdraw name => exact ih.cons _
      | enroll name value bounds =>
          rw [survivors]
          split
          · exact ih.cons _
          · exact ih.cons_cons _

theorem exists_enroll_of_survivor {changes : List (Change N V)} {c : Change N V}
    (h : c ∈ survivors changes) : ∃ name value bounds, c = enroll name value bounds := by
  induction changes with
  | nil => exact absurd h List.not_mem_nil
  | cons d changes ih =>
      cases d with
      | withdraw name => exact ih h
      | enroll name value bounds =>
          rw [survivors] at h
          split at h
          · exact ih h
          · rcases List.mem_cons.mp h with rfl | h
            · exact ⟨name, value, bounds, rfl⟩
            · exact ih h

theorem survivors_survivors (changes : List (Change N V)) :
    survivors (survivors changes) = survivors changes := by
  induction changes with
  | nil => rfl
  | cons c changes ih =>
      cases c with
      | withdraw name => exact ih
      | enroll name value bounds =>
          rw [survivors]
          split
          · exact ih
          · rename_i hlater
            have hnone : ¬ (survivors changes).any (name == ·.name) = true := by
              intro hany
              obtain ⟨d, hd, hname⟩ := List.any_eq_true.mp hany
              have hd' := (survivors_sublist changes).subset hd
              exact hlater (List.any_eq_true.mpr ⟨d, hd', hname⟩)
            rw [survivors, if_neg hnone, ih]

/-- A change at the end of a row undoes the enrolments of its name. -/
theorem survivors_concat (changes : List (Change N V)) (c : Change N V) :
    survivors (changes ++ [c]) =
      ((survivors changes).filter fun d => !(d.name == c.name)) ++ survivors [c] := by
  induction changes with
  | nil => rfl
  | cons d changes ih =>
      cases d with
      | withdraw name => exact ih
      | enroll name value bounds =>
          rw [List.cons_append, survivors, survivors, ih, List.any_append]
          cases hlater : changes.any (name == ·.name) with
          | true => simp
          | false => cases hc : name == c.name <;> simp [hc]

end Change

/-! ## The last change to a roster -/

namespace Listing

variable [BEq N] [EquivBEq N] {l : Listing N V}

theorem Distinct.eraseP_eq_filter (h : l.Distinct) (name : N) :
    l.eraseP (·.name == name) = l.filter fun e => !(e.name == name) := by
  have hrest : ∀ e ∈ l.eraseP (·.name == name), (!(e.name == name)) = true := by
    intro e he
    rw [h.eraseP_ne e he]
    rfl
  rw [← List.filter_eq_self.mpr hrest]
  clear h hrest
  induction l with
  | nil => rfl
  | cons e l ih => cases he : e.name == name <;> simp [he, ih]

end Listing

namespace Roster

open Listing Change

variable [BEq N] {r : Roster N V} {name : N}

/-- Whether a change can be carried out: only a registered name can be withdrawn. -/
def admits (r : Roster N V) : Change N V → Bool
  | .enroll _ _ _ => true
  | .withdraw name => r.contains name

/-- The changes that are carried out when a row of them is made to a roster. -/
def granted (r : Roster N V) : List (Change N V) → List (Change N V)
  | [] => []
  | c :: changes =>
    if r.admits c then c :: (r.apply c).granted changes else (r.apply c).granted changes

theorem withdraw_eq_ok_iff {value : V} :
    (∃ rest, r.withdraw name = .ok (value, rest)) ↔ r.get? name = some value := by
  rw [withdraw]
  cases r.get? name <;> simp

theorem apply_withdraw_of_not_contains (h : r.contains name = false) :
    r.apply (.withdraw name) = r := by
  rw [apply, (r.withdraw_eq_error_iff name _).mpr ⟨h, rfl⟩]

theorem filterMap_made?_filter (policy : Policy N) (changes : List (Change N V)) (name : N) :
    (changes.filter fun d => !(d.name == name)).filterMap (made? policy) =
      (changes.filterMap (made? policy)).filter fun e => !(e.name == name) := by
  rw [List.filterMap_filter, List.filter_filterMap]
  refine List.filterMap_congr ?_
  intro d _
  cases d with
  | withdraw n => cases hn : n == name <;> simp [hn]
  | enroll n value bounds => cases hn : n == name <;> simp [hn, Option.filter]

theorem granted_concat (r : Roster N V) (changes : List (Change N V)) (c : Change N V) :
    r.granted (changes ++ [c]) =
      r.granted changes ++ if (changes.foldl apply r).admits c then [c] else [] := by
  induction changes generalizing r with
  | nil => rfl
  | cons d changes ih =>
      rw [List.cons_append, granted, granted, ih, List.foldl_cons]
      split
      · rfl
      · rfl

/-! ## The entries are the survivors -/

variable [EquivBEq N]

/-- A change takes the entries of its name out, and an enrolment puts its own at the end. -/
theorem entries_apply (h : r.entries.Distinct) (c : Change N V) :
    (r.apply c).entries =
      (r.entries.filter fun e => !(e.name == c.name)) ++ (c.made? r.policy).toList := by
  cases c with
  | enroll name value bounds =>
      rw [made?_enroll]
      exact congrArg (· ++ _) (h.eraseP_eq_filter name)
  | withdraw name =>
      rw [made?_withdraw, Option.toList_none, List.append_nil, name_withdraw]
      cases hr : r.contains name with
      | true =>
          obtain ⟨value, hget⟩ : ∃ value, r.get? name = some value := by
            rw [get?]
            exact ⟨_, congrArg (Option.map _) (Option.eq_some_of_isSome hr)⟩
          rw [apply, withdraw, hget]
          exact h.eraseP_eq_filter name
      | false =>
          rw [apply_withdraw_of_not_contains hr]
          refine (List.filter_eq_self.mpr ?_).symm
          intro e he
          rw [contains_eq_false_iff.mp hr e he]
          rfl

theorem entries_replay (policy : Policy N) (changes : List (Change N V)) :
    (replay policy changes).entries = (survivors changes).filterMap (made? policy) := by
  induction changes using List.reverseRecOn with
  | nil => rfl
  | append_singleton changes c ih =>
      rw [replay_concat, entries_apply (distinct_replay policy changes), ih, policy_replay,
        survivors_concat, List.filterMap_append, filterMap_made?_filter]
      cases c with
      | enroll name value bounds => simp [survivors]
      | withdraw name => rfl

/-- A withdrawal that is refused finds no survivor of its name, and so undoes nothing. -/
theorem survivors_granted (policy : Policy N) (changes : List (Change N V)) :
    survivors ((empty policy : Roster N V).granted changes) = survivors changes := by
  induction changes using List.reverseRecOn with
  | nil => rfl
  | append_singleton changes c ih =>
      rw [granted_concat, survivors_concat]
      show survivors (_ ++ if (replay policy changes).admits c then [c] else []) = _
      cases hc : (replay policy changes).admits c with
      | true => rw [if_pos rfl, survivors_concat, ih]
      | false =>
          rw [if_neg Bool.false_ne_true, List.append_nil, ih]
          cases c with
          | enroll name value bounds => cases hc
          | withdraw name =>
              have hno := contains_eq_false_iff.mp hc
              rw [entries_replay] at hno
              refine (List.append_nil _).symm.trans (congrArg (· ++ _) ?_)
              refine (List.filter_eq_self.mpr ?_).symm
              intro d hd
              obtain ⟨n, value, bounds, rfl⟩ := exists_enroll_of_survivor hd
              have hentry := hno _ (List.mem_filterMap.mpr ⟨_, hd, made?_enroll ..⟩)
              rw [name_enroll, name_withdraw, hentry]
              rfl

theorem replay_survivors_eq (policy : Policy N) (changes : List (Change N V)) :
    replay policy (survivors changes) = replay policy changes := by
  have hentries : (replay policy (survivors changes)).entries = (replay policy changes).entries := by
    rw [entries_replay, entries_replay, survivors_survivors]
  have hpolicy : (replay policy (survivors changes)).policy = (replay policy changes).policy := by
    rw [policy_replay, policy_replay]
  cases hl : replay policy (survivors changes)
  cases hr : replay policy changes
  rw [hl, hr] at hentries hpolicy
  cases hentries
  cases hpolicy
  rfl

/-- Whatever changes a roster goes through under whatever policy, what becomes of it depends on
the survivors of the changes that were carried out and on nothing else.  Its names stay distinct;
its entries are the survivors, in their order and each as it came; every question about it is
answered from them; and replaying the survivors alone gives the same roster.  Enrolling a name gives
back the value that the name stood for, if it stood for any; withdrawing gives that value, and is
refused exactly for a name that stands for nothing, in which case nothing changes. -/
theorem replay_survivors (policy : Policy N) (changes : List (Change N V)) :
    (replay policy changes).entries.Distinct ∧
      (replay policy changes).entries =
        (survivors ((empty policy).granted changes)).filterMap (made? policy) ∧
      (replay policy changes).Answers
        ((survivors ((empty policy).granted changes)).filterMap (made? policy)) ∧
      replay policy (survivors ((empty policy).granted changes)) = replay policy changes ∧
      (∀ name value bounds old,
        ((replay policy changes).enroll name value bounds).1 = some old ↔
          ∃ e ∈ (replay policy changes).entries, (e.name == name) = true ∧ e.value = old) ∧
      (∀ name old, (∃ rest, (replay policy changes).withdraw name = .ok (old, rest)) ↔
          ∃ e ∈ (replay policy changes).entries, (e.name == name) = true ∧ e.value = old) ∧
      ∀ name reason, (replay policy changes).withdraw name = .error reason ↔
        (∀ e ∈ (replay policy changes).entries, (e.name == name) = false) ∧
          (replay policy changes).apply (.withdraw name) = replay policy changes ∧
          reason = .unknown name := by
  have hanswers := answers_entries (distinct_replay policy changes)
  have hentries := entries_replay policy changes
  rw [survivors_granted]
  refine ⟨distinct_replay policy changes, hentries, hentries ▸ hanswers,
    replay_survivors_eq policy changes, ?_, ?_, ?_⟩
  · intro name value bounds old
    exact hanswers.get? name old
  · intro name old
    rw [withdraw_eq_ok_iff, hanswers.get?]
  · intro name reason
    rw [withdraw_eq_error_iff, contains_eq_false_iff]
    constructor
    · rintro ⟨hno, hreason⟩
      exact ⟨hno, apply_withdraw_of_not_contains (contains_eq_false_iff.mpr hno), hreason⟩
    · rintro ⟨hno, -, hreason⟩
      exact ⟨hno, hreason⟩

/-- Names that differ in case only are one name: `A` takes the place of `a`, the withdrawal of `B`
strikes `b` off, and the one of `d` is refused. -/
def mixedChanges : List (Change CaseBlind Char) :=
  [.enroll ⟨"a"⟩ 'p' (Bounds.free.declare .after [.first]),
    .enroll ⟨"b"⟩ 'q' .free,
    .withdraw ⟨"d"⟩,
    .enroll ⟨"c"⟩ 'r' .free,
    .enroll ⟨"A"⟩ 's' (Bounds.free.declare .after [.entry ⟨"B"⟩]),
    .withdraw ⟨"B"⟩,
    .enroll ⟨"e"⟩ 't' (Bounds.free.declare .before [])]

def keptChanges : List (Change CaseBlind Char) :=
  [.enroll ⟨"c"⟩ 'r' .free,
    .enroll ⟨"A"⟩ 's' (Bounds.free.declare .after [.entry ⟨"B"⟩]),
    .enroll ⟨"e"⟩ 't' (Bounds.free.declare .before [])]

/-- Three enrolments survive.  The one without a side takes the standing bounds of the policy, the
one with an empty side keeps it, and the bounds of `A` still name the entry that is gone. -/
theorem replay_survivors_mixed :
    EquivBEq CaseBlind ∧
      survivors ((empty .afterFirst).granted mixedChanges) = keptChanges ∧
      (replay .afterFirst mixedChanges).entries =
        [⟨⟨"c"⟩, 'r', ⟨some [.first], none⟩⟩, ⟨⟨"A"⟩, 's', ⟨some [.entry ⟨"B"⟩], none⟩⟩,
          ⟨⟨"e"⟩, 't', ⟨none, some []⟩⟩] ∧
      (replay .afterFirst mixedChanges).names = [⟨"c"⟩, ⟨"A"⟩, ⟨"e"⟩] ∧
      (replay .afterFirst mixedChanges).bounds? ⟨"E"⟩ = some ⟨none, some []⟩ ∧
      ((replay .afterFirst mixedChanges).enroll ⟨"a"⟩ 'u' .free).1 = some 's' ∧
      (replay .afterFirst mixedChanges).withdraw ⟨"b"⟩ = .error (.unknown ⟨"b"⟩) := by
  have hkept : survivors ((empty .afterFirst).granted mixedChanges) = keptChanges := by rfl
  have hmade : keptChanges.filterMap (made? .afterFirst) =
      [⟨⟨"c"⟩, 'r', ⟨some [.first], none⟩⟩, ⟨⟨"A"⟩, 's', ⟨some [.entry ⟨"B"⟩], none⟩⟩,
        ⟨⟨"e"⟩, 't', ⟨none, some []⟩⟩] := by rfl
  obtain ⟨-, hentries, hanswers, -, hadd, -, hrefused⟩ := replay_survivors .afterFirst mixedChanges
  rw [hkept, hmade] at hentries hanswers
  refine ⟨inferInstance, hkept, hentries, hanswers.names, ?_, ?_, ?_⟩
  · exact (hanswers.bounds? _ _).mpr ⟨⟨⟨"e"⟩, 't', ⟨none, some []⟩⟩, by simp, rfl, rfl⟩
  · rw [hadd, hentries]
    exact ⟨_, List.mem_cons_of_mem _ List.mem_cons_self, rfl, rfl⟩
  · have hno : ∀ e ∈ (replay .afterFirst mixedChanges).entries,
        (e.name == (⟨"b"⟩ : CaseBlind)) = false := by
      rw [hentries]
      decide
    have hsame := apply_withdraw_of_not_contains (contains_eq_false_iff.mpr hno)
    exact (hrefused _ _).mpr ⟨hno, hsame, rfl⟩

end Roster

end Lineup
