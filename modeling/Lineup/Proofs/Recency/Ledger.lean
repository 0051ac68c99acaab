/-
# Recency lists as plain lists

A ledger is a world without addresses and clearing away: it counts the owners of every object and
keeps, for every list, the objects that were added and not removed since, the one added last at the
end.  An object that is gone stays where it is in a ledger; reading passes over it.
-/
import Mathlib.Logic.Function.Basic
import Lineup.Recency.World

namespace Lineup

variable {α : Type} {h : Handle} {k : Nat}

/-- Who owns what, and what each list was given. -/
structure Ledger where
  /-- The number of owners of every object so far, zero once it is gone. -/
  counts : List Nat
  /-- The objects that were added to a list and not removed since, the latest at the end. -/
  given : Nat → List Handle

namespace Ledger

def empty : Ledger := ⟨[], fun _ => []⟩

def owners (l : Ledger) (h : Handle) : Nat := l.counts.getD h 0

def isAlive (l : Ledger) (h : Handle) : Bool := 0 < l.owners h

/-- The objects that a list was given and that have an owner, the latest at the end. -/
def live (l : Ledger) (k : Nat) : List Handle := (l.given k).filter l.isAlive

def setOwners (l : Ledger) (h : Handle) (n : Nat) : Ledger := { l with counts := l.counts.set h n }

def setGiven (l : Ledger) (k : Nat) (hs : List Handle) : Ledger :=
  { l with given := Function.update l.given k hs }

def act (l : Ledger) : Act α → Ledger
  | .create _ _ => { l with counts := l.counts ++ [1] }
  | .share h => l.setOwners h (l.owners h + 1)
  | .release h => l.setOwners h (l.owners h - 1)
  | .add k h => l.setGiven k ((l.given k).filter (· != h) ++ [h])
  | .remove k h => l.setGiven k ((l.given k).filter (· != h))
  | .clear k => l.setGiven k []
  | .prune _ => l
  | .keepLast k =>
    match (l.live k).getLast? with
    | none => l
    | some h => l.setOwners h (l.owners h + 1)

def after (l : Ledger) (acts : List (Act α)) : Ledger := acts.foldl act l

end Ledger

structure Reading where
  /-- The living objects, the latest at the end. -/
  live : List Handle
  /-- How many there are. -/
  size : Nat
  /-- Whether there is none. -/
  isEmpty : Bool
  /-- The latest one. -/
  last? : Option Handle
  /-- Whether an owned object is there. -/
  contains : Handle → Bool

/-- The reading of a list that consists of some living objects. -/
def Reading.of (hs : List Handle) : Reading where
  live := hs
  size := hs.length
  isEmpty := hs.isEmpty
  last? := hs.getLast?
  contains h := decide (h ∈ hs)

deriving instance DecidableEq for Act

namespace Act

def list? : Act α → Option Nat
  | create _ _ | share _ | release _ => none
  | add k _ | remove k _ | clear k | prune k | keepLast k => some k

/-- An act without what a ledger leaves out: an address and a value, and all of a pruning. -/
def bare? : Act α → Option (Act Unit)
  | create _ _ => some (create 0 ())
  | share h => some (share h)
  | release h => some (release h)
  | add k h => some (add k h)
  | remove k h => some (remove k h)
  | clear k => some (clear k)
  | prune _ => none
  | keepLast k => some (keepLast k)

end Act

/-! ## What an act writes down -/

namespace Ledger

variable {l : Ledger}

theorem act_bare? (l : Ledger) (x : Act α) : l.act x = (x.bare?.map l.act).getD l := by
  cases x <;> rfl

theorem after_bare? (l : Ledger) (acts : List (Act α)) :
    l.after acts = l.after (acts.filterMap Act.bare?) := by
  unfold after
  induction acts generalizing l with
  | nil => rfl
  | cons x acts ih =>
      rw [List.foldl_cons, act_bare?, ih, List.filterMap_cons]
      cases x.bare? <;> rfl

theorem owners_setOwners (hh : l.isAlive h = true) (n : Nat) (g : Handle) :
    (l.setOwners h n).owners g = if g = h then n else l.owners g := by
  have hlt : h < l.counts.length := by
    rw [isAlive, owners, decide_eq_true_iff] at hh
    refine Nat.lt_of_not_le ?_
    intro hle
    rw [List.getD_eq_getElem?_getD, List.getElem?_eq_none hle] at hh
    exact Nat.lt_irrefl 0 hh
  rw [owners, setOwners, List.getD_eq_getElem?_getD, List.getElem?_set]
  rcases eq_or_ne g h with rfl | hgh
  · simp [hlt]
  · rw [if_neg hgh.symm, if_neg hgh, owners, List.getD_eq_getElem?_getD]

theorem isAlive_of_last (hh : (l.live k).getLast? = some h) : l.isAlive h = true :=
  (List.mem_filter.mp (List.mem_of_getLast? hh)).2

theorem isAlive_setOwners_succ (hh : l.isAlive h = true) (n : Nat) :
    (l.setOwners h (n + 1)).isAlive = l.isAlive := by
  funext g
  rw [isAlive, owners_setOwners hh]
  split
  · subst g
    rw [hh]
    rfl
  · rfl

theorem given_setGiven (l : Ledger) (k : Nat) (hs : List Handle) (j : Nat) :
    (l.setGiven k hs).given j = if j = k then hs else l.given j :=
  Function.update_apply l.given k hs j

theorem live_setGiven_of_ne {j : Nat} (hjk : j ≠ k) (hs : List Handle) :
    (l.setGiven j hs).live k = l.live k := by
  rw [live, given_setGiven, if_neg hjk.symm]
  rfl

theorem live_act_of_ne {x : Act α} {j : Nat} (hx : x.list? = some j) (hjk : j ≠ k) :
    (l.act x).live k = l.live k := by
  cases x with
  | create a value => cases hx
  | share h => cases hx
  | release h => cases hx
  | add i h =>
      cases hx
      exact live_setGiven_of_ne hjk _
  | remove i h =>
      cases hx
      exact live_setGiven_of_ne hjk _
  | clear i =>
      cases hx
      exact live_setGiven_of_ne hjk _
  | prune i => rfl
  | keepLast i =>
      cases hh : (l.live i).getLast? with
      | none => simp only [act, hh]
      | some h =>
          simp only [act, hh]
          rw [live, isAlive_setOwners_succ (isAlive_of_last hh)]
          rfl

end Ledger

end Lineup
