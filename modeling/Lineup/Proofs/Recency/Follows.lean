/-
# A world reads like its ledger

After any row of acts a world and the ledger of those acts that were carried out agree
(`after_follows_ledger`): what a list shows are the objects that it was given and that still have an
owner, in their order.  The proof goes act by act (`Follows.act`).  It rests on the world being
settled, so that every operation on a list hits the object that it means, and on the following: the
objects that a list tracks and those that it was given may differ, but never by a living one.

Since a ledger leaves out addresses and prunings, neither shows in what is read, then or later.
-/
import Lineup.Proofs.Recency.Housing
import Lineup.Proofs.Recency.Ledger

namespace Lineup

variable {α : Type} {w : World α} {h : Handle} {k : Nat} {l : Ledger}

/-- How many owners of an object a reply hands out. -/
def Reply.handed (h : Handle) : Reply → Nat
  | kept (some g) => if h = g then 1 else 0
  | _ => 0

namespace World

def read (w : World α) (k : Nat) : Reading where
  live := w.live k
  size := w.size k
  isEmpty := w.isEmpty k
  last? := w.last? k
  contains := w.contains k

def granted (w : World α) : List (Act α) → List (Act α)
  | [] => []
  | x :: acts =>
    if w.admits x then x :: (w.act x).2.granted acts else (w.act x).2.granted acts

end World

/-! ## One act and many -/

/-- A ledger says of a world who owns what, and which living objects a list has. -/
structure Ledger.Follows (l : Ledger) (w : World α) : Prop where
  counts : l.counts = w.cells.map (·.owners)
  live : ∀ k, (l.given k).filter w.isAlive = w.live k
  known : ∀ {k h}, h ∈ l.given k → h < w.cells.length

namespace World

theorem owners_eq_getD (w : World α) (h : Handle) :
    w.owners h = (w.cells.map (·.owners)).getD h 0 := by
  rw [owners, List.getD_eq_getElem?_getD, List.getElem?_map]
  cases w.cells[h]? <;> rfl

theorem Settled.known (hw : w.Settled) (hh : h ∈ (w.list k).objects) : h < w.cells.length := by
  obtain ⟨a, -, ha⟩ := List.mem_filterMap.mp hh
  exact address?_lt (hw.housed ha)

end World

namespace Ledger.Follows

open World

theorem owners (hl : l.Follows w) (h : Handle) : l.owners h = w.owners h := by
  rw [Ledger.owners, hl.counts, owners_eq_getD]

theorem isAlive (hl : l.Follows w) : l.isAlive = w.isAlive := by
  funext h
  rw [Ledger.isAlive, hl.owners, World.isAlive]

theorem live_eq (hl : l.Follows w) (k : Nat) : l.live k = w.live k := by
  rw [Ledger.live, hl.isAlive, hl.live]

/-- While no object so far comes to life, a list that stays the same shows what its ledger says. -/
theorem live_of_fewer (hl : l.Follows w) (hw : w.Settled) (w' : World α)
    (hlists : w'.lists = w.lists)
    (hle : ∀ h < w.cells.length, w'.isAlive h = true → w.isAlive h = true) (k : Nat) :
    (l.given k).filter w'.isAlive = w'.live k := by
  -- the objects that are alive now are among those that were alive before
  have hagain : ∀ hs : List Handle, (∀ h ∈ hs, h < w.cells.length) →
      hs.filter w'.isAlive = (hs.filter w.isAlive).filter w'.isAlive := by
    intro hs hlt
    rw [List.filter_filter]
    refine List.filter_congr ?_
    intro h hh
    rw [Bool.eq_iff_iff, Bool.and_eq_true]
    exact ⟨fun halive => ⟨halive, hle h (hlt h hh) halive⟩, And.left⟩
  have hlist : w'.list k = w.list k := by
    rw [list, hlists, list]
  calc (l.given k).filter w'.isAlive
      = ((l.given k).filter w.isAlive).filter w'.isAlive := hagain _ fun _ hh => hl.known hh
    _ = ((w.list k).objects.filter w.isAlive).filter w'.isAlive := by rw [hl.live, World.live_eq]
    _ = (w.list k).objects.filter w'.isAlive := (hagain _ fun _ hh => hw.known hh).symm
    _ = w'.live k := by rw [World.live_eq, hlist]

theorem extend (hl : l.Follows w) (hw : w.Settled) (a : Address) (value : α) :
    Follows { l with counts := l.counts ++ [1] } (w.extend a value) := by
  refine ⟨?_, ?_, ?_⟩
  · rw [World.extend, List.map_append, hl.counts]
    rfl
  · intro k
    refine hl.live_of_fewer hw (w.extend a value) rfl ?_ k
    intro h hh halive
    rw [isAlive_extend_of_lt hh] at halive
    exact halive
  · intro k h hh
    rw [World.extend, List.length_append]
    exact Nat.lt_add_right _ (hl.known hh)

theorem setOwners (hl : l.Follows w) (hw : w.Settled) (hh : w.isAlive h = true) (n : Nat) :
    (l.setOwners h n).Follows (w.setOwners h n) := by
  refine ⟨?_, ?_, ?_⟩
  · obtain ⟨c, hc⟩ := isAlive_iff.mp hh
    have hcells : (w.setOwners h n).cells = w.cells.set h { c with owners := n } := by
      rw [World.setOwners, List.modify_eq_set_getElem?, (owned?_eq_some.mp hc).1]
      rfl
    rw [hcells, List.map_set, ← hl.counts, Ledger.setOwners]
  · intro k
    refine hl.live_of_fewer hw (w.setOwners h n) rfl ?_ k
    intro g _ halive
    exact isAlive_of_setOwners hh halive
  · intro k g hg
    rw [World.setOwners, List.length_modify]
    exact hl.known hg

theorem setList (hl : l.Follows w) {hs : List Handle} {r : Recency}
    (hlive : hs.filter w.isAlive = r.objects.filter w.isAlive)
    (hknown : ∀ h ∈ hs, h < w.cells.length) :
    (l.setGiven k hs).Follows (w.setList k r) := by
  refine ⟨hl.counts, ?_, ?_⟩
  · intro j
    rw [World.live_eq, list_setList, given_setGiven]
    split
    · exact hlive
    · exact (hl.live j).trans (World.live_eq w j)
  · intro j h hh
    rw [given_setGiven] at hh
    split at hh
    · exact hknown h hh
    · exact hl.known hh

theorem empty : Ledger.empty.Follows (World.empty : World α) := by
  refine ⟨rfl, ?_, ?_⟩
  · intro k
    simp [Ledger.empty, World.live, list, World.empty, Recency.live, Recency.empty]
  · intro k h hh
    exact absurd hh List.not_mem_nil

theorem filter_without (hl : l.Follows w) (k : Nat) (h : Handle) :
    ((l.given k).filter (· != h)).filter w.isAlive =
      (((w.list k).objects.filter w.isAlive).filter (· != h)).filter w.isAlive := by
  rw [← World.live_eq, ← hl.live, List.filter_filter, List.filter_filter, List.filter_filter]
  refine List.filter_congr ?_
  intro g _
  cases w.isAlive g <;> simp

theorem act (hl : l.Follows w) (hw : w.Settled) {x : Act α} (hx : w.admits x = true) :
    (l.act x).Follows (w.act x).2 := by
  cases x with
  | create a value =>
      have ha : a ∉ w.reserved := by simpa [admits] using hx
      rw [act_create ha]
      exact hl.extend hw a value
  | share h =>
      obtain ⟨c, hc⟩ := isAlive_iff.mp hx
      rw [act_share hc, ← hl.owners]
      exact hl.setOwners hw hx _
  | release h =>
      obtain ⟨c, hc⟩ := isAlive_iff.mp hx
      rw [act_release hc, ← hl.owners]
      exact hl.setOwners hw hx _
  | add k h =>
      obtain ⟨c, hc⟩ := isAlive_iff.mp hx
      rw [act_add hc]
      refine hl.setList ?_ ?_
      · rw [(hw.paired k).objects_add (hw.locates hc k), List.filter_append, List.filter_append,
          hl.filter_without]
      · intro g hg
        rcases List.mem_append.mp hg with hg | hg
        · exact hl.known (List.mem_filter.mp hg).1
        · rw [List.mem_singleton.mp hg]
          exact isAlive_lt hx
  | remove k h =>
      obtain ⟨c, hc⟩ := isAlive_iff.mp hx
      rw [act_remove hc]
      refine hl.setList ?_ ?_
      · rw [(hw.paired k).objects_remove (hw.locates hc k), hl.filter_without]
      · intro g hg
        exact hl.known (List.mem_filter.mp hg).1
  | clear k =>
      refine hl.setList rfl ?_
      intro g hg
      exact absurd hg List.not_mem_nil
  | prune k =>
      -- a ledger does nothing here, which is the same as writing down once more what was given
      have hsame : l.setGiven k (l.given k) = l := by
        rw [setGiven, Function.update_eq_self]
      rw [Ledger.act, ← hsame]
      refine hl.setList ?_ fun _ hh => hl.known hh
      rw [hl.live, World.live_eq, Recency.objects_compact, List.filter_filter]
      simp only [Bool.and_self]
  | keepLast k =>
      have hlast : w.last? k = (l.live k).getLast? := by
        rw [hl.live_eq, last?_eq]
      cases hh : w.last? k with
      | none =>
          simp only [Ledger.act, ← hlast, hh]
          rw [act_keepLast_none hh]
          exact hl
      | some h =>
          simp only [Ledger.act, ← hlast, hh]
          rw [act_keepLast_some hh, ← hl.owners]
          exact hl.setOwners hw (isAlive_of_last? hh) _

theorem after (hl : l.Follows w) (hw : w.Settled) (acts : List (Act α)) :
    (l.after (w.granted acts)).Follows (w.after acts) := by
  induction acts generalizing l w with
  | nil => exact hl
  | cons x acts ih =>
      rw [granted]
      cases hx : w.admits x with
      | false =>
          refine ih ?_ (hw.act x)
          rw [act_declined hx]
          exact hl
      | true => exact ih (hl.act hw hx) (hw.act x)

end Ledger.Follows

/-! ## Reading -/

namespace World

theorem contains_eq (hw : w.Settled) (k : Nat) (h : Handle) :
    w.contains k h = decide (h ∈ w.live k) := by
  rw [contains]
  cases hc : w.owned? h with
  | none =>
      have hgone : h ∉ w.live k := by
        intro hh
        rw [← isAlive_eq_false_iff, isAlive_of_mem_live hh] at hc
        cases hc
      exact (decide_eq_false hgone).symm
  | some c =>
      rw [Bool.eq_iff_iff, decide_eq_true_iff]
      exact (hw.paired k).contains_iff (hw.locates hc k)

theorem read_eq (hw : w.Settled) (k : Nat) : w.read k = .of (w.live k) := by
  have hcontains : w.contains k = fun h => decide (h ∈ w.live k) := by
    funext h
    exact contains_eq hw k h
  rw [read, last?_eq, hcontains]
  rfl

theorem reply_remove (hw : w.Settled) (hh : w.isAlive h = true) (k : Nat) :
    (w.act (.remove k h)).1 = .truth (decide (h ∈ w.live k)) := by
  obtain ⟨c, hc⟩ := isAlive_iff.mp hh
  rw [← contains_eq hw, contains, hc, act_remove hc]

theorem owners_act {x : Act α} (hx : x.list? = some k) (h : Handle) :
    (w.act x).2.owners h = w.owners h + (w.act x).1.handed h := by
  cases x with
  | create a value => cases hx
  | share g => cases hx
  | release g => cases hx
  | add j g => cases hc : w.owned? g <;> simp only [act, hc] <;> rfl
  | remove j g => cases hc : w.owned? g <;> simp only [act, hc] <;> rfl
  | clear j => rfl
  | prune j => rfl
  | keepLast j =>
      cases hg : w.last? j with
      | none =>
          rw [act_keepLast_none hg]
          rfl
      | some g =>
          rw [act_keepLast_some hg, owners_setOwners (isAlive_of_last? hg), Reply.handed]
          split
          · subst h
            rfl
          · rfl

end World

namespace Ledger.Follows

theorem read (hl : l.Follows w) (hw : w.Settled) (k : Nat) : w.read k = .of (l.live k) := by
  rw [World.read_eq hw, hl.live_eq]

theorem read_act (hl : l.Follows w) (hw : w.Settled) {x : Act α}
    (hx : (l.act x).live k = l.live k) : (w.act x).2.read k = w.read k := by
  cases hadmits : w.admits x with
  | false => rw [World.act_declined hadmits]
  | true => rw [(hl.act hw hadmits).read (hw.act x), hx, hl.read hw]

end Ledger.Follows

namespace World

/-- After any row of acts objects have the owners, and every list shows the living ones of the
objects, that a ledger of the acts that were carried out has written down.  Removing an object
finds it if it is written down.  Pruning a list and acting on another do not change what a list
shows.  Acting on a list changes no owners but by what it hands out.  What is not carried out
changes nothing.  Rows that differ by prunings and by addresses lead to the same owners and
lists. -/
theorem after_follows_ledger (acts : List (Act α)) :
    let w := (empty : World α).after acts
    let l := Ledger.empty.after ((empty : World α).granted acts)
    (∀ h, w.owners h = l.owners h) ∧
    (∀ k, w.read k = .of ((l.given k).filter l.isAlive)) ∧
    (∀ k h, w.isAlive h = true → (w.act (.remove k h)).1 = .truth (decide (h ∈ l.given k))) ∧
    (∀ j k, (w.act (.prune j)).2.read k = w.read k) ∧
    (∀ x j k, x.list? = some j → j ≠ k → (w.act x).2.read k = w.read k) ∧
    (∀ x k h, x.list? = some k → (w.act x).2.owners h = w.owners h + (w.act x).1.handed h) ∧
    (∀ x, w.admits x = false → w.act x = (.declined, w)) ∧
    ∀ acts', ((empty : World α).granted acts').filterMap Act.bare? =
        ((empty : World α).granted acts).filterMap Act.bare? →
      (∀ h, ((empty : World α).after acts').owners h = w.owners h) ∧
        ∀ k, ((empty : World α).after acts').read k = w.read k := by
  intro w l
  have hw : w.Settled := settled_empty.after acts
  have hl : l.Follows w := Ledger.Follows.empty.after settled_empty acts
  refine ⟨?_, ?_, ?_, ?_, ?_, ?_, ?_, ?_⟩
  · intro h
    exact (hl.owners h).symm
  · intro k
    exact hl.read hw k
  · intro k h hh
    rw [reply_remove hw hh, ← hl.live_eq, Ledger.live, hl.isAlive]
    simp only [List.mem_filter, hh, and_true]
  · intro j k
    exact hl.read_act hw rfl
  · intro x j k hx hjk
    exact hl.read_act hw (Ledger.live_act_of_ne hx hjk)
  · intro x k h hx
    exact owners_act hx h
  · intro x hx
    exact act_declined hx
  · intro acts' hbare
    have hw' := settled_empty.after acts'
    have hl' := Ledger.Follows.empty.after settled_empty acts'
    have hsame : Ledger.empty.after ((empty : World α).granted acts') = l := by
      rw [Ledger.after_bare?, hbare, ← Ledger.after_bare?]
    rw [hsame] at hl'
    constructor
    · intro h
      rw [← hl'.owners, hl.owners]
    · intro k
      rw [hl'.read hw', hl.read hw]

/-- Object 1 dies while two lists track it, so its address is refused to the next object.  Once
both lists are pruned, object 2 gets it and becomes the latest one of list 0. -/
def reuse : List (Act Char) :=
  [.create 0 'a', .create 1 'b', .add 0 0, .add 0 1, .add 1 1, .add 0 0, .release 1,
    .create 1 'c', .prune 0, .prune 1, .create 1 'c', .add 0 2, .keepLast 0]

/-- The same without the pruning, so that object 2 is put elsewhere. -/
def reuseElsewhere : List (Act Char) :=
  [.create 5 'a', .create 1 'b', .add 0 0, .add 0 1, .add 1 1, .add 0 0, .release 1,
    .create 2 'c', .add 0 2, .keepLast 0]

/-- List 0 was given the dead object 1 as well and does not show it.  Object 2 is found there,
another list may be given it, and the last of list 0 may be kept; object 1 cannot be shared. -/
theorem after_follows_ledger_reuse :
    (Ledger.empty.after ((empty : World Char).granted reuse)).given 0 = [1, 0, 2] ∧
      ((empty : World Char).after reuse).read 0 = .of [0, 2] ∧
      ((empty : World Char).after reuse).isAlive 2 = true ∧
      (((empty : World Char).after reuse).act (.remove 0 2)).1 = .truth true ∧
      (((empty : World Char).after reuse).act (.add 1 2)).2.read 0 = .of [0, 2] ∧
      ((empty : World Char).after reuse).owners 2 = 2 ∧
      (((empty : World Char).after reuse).act (.keepLast 0)).2.owners 2 = 3 ∧
      ((empty : World Char).after reuse).admits (.share 1) = false ∧
      ((empty : World Char).after reuse).act (.share 1) =
        (.declined, (empty : World Char).after reuse) ∧
      ((empty : World Char).granted reuseElsewhere).filterMap Act.bare? =
        ((empty : World Char).granted reuse).filterMap Act.bare? ∧
      ((empty : World Char).after reuseElsewhere).read 0 = .of [0, 2] := by
  obtain ⟨howners, hread, hremove, -, hother, hhanded, hdeclined, hbare⟩ :=
    after_follows_ledger reuse
  have hgiven : (Ledger.empty.after ((empty : World Char).granted reuse)).given 0 = [1, 0, 2] := by
    decide +kernel
  have hlive : ((empty : World Char).after reuse).read 0 = .of [0, 2] := by
    rw [hread, hgiven]
    exact congrArg Reading.of (by decide +kernel)
  have howned : ((empty : World Char).after reuse).owners 2 = 2 := by
    rw [howners]
    decide +kernel
  have halive : ((empty : World Char).after reuse).isAlive 2 = true := by
    rw [isAlive, howned]
    rfl
  have hgone : ((empty : World Char).after reuse).admits (.share 1) = false := by
    decide +kernel
  have hsame : ((empty : World Char).granted reuseElsewhere).filterMap Act.bare? =
      ((empty : World Char).granted reuse).filterMap Act.bare? := by
    decide +kernel
  refine ⟨hgiven, hlive, halive, ?_, ?_, howned, ?_, hgone, hdeclined _ hgone, hsame, ?_⟩
  · rw [hremove 0 2 halive, hgiven]
    rfl
  · rw [hother _ 1 0 rfl Nat.one_ne_zero, hlive]
  · rw [hhanded _ 0 2 rfl, howned]
    decide +kernel
  · rw [(hbare reuseElsewhere hsame).2, hlive]

end World

end Lineup
