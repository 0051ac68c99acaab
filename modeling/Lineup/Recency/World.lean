/-
# A world of shared objects

Objects come into being with one owner and are gone when the last owner lets go.  Any number of
recency lists track some of them.  An address stays reserved while its object has an owner or is
tracked by some list; only then may a new object be put there.  The world keeps a cell for every
object that ever was, and the place of its cell is the handle of an object.
-/
import Lineup.Recency.Basic

namespace Lineup

structure Cell (α : Type) where
  /-- Where the object lives, or lived. -/
  address : Address
  /-- What the object holds. -/
  value : α
  /-- How many own the object, zero once it is gone. -/
  owners : Nat
deriving DecidableEq, Repr

/-- All objects so far, and the recency lists by number. -/
structure World (α : Type) where
  /-- The cells of all objects, the place of a cell being the handle of its object. -/
  cells : List (Cell α)
  /-- The lists that were used so far. -/
  lists : Std.TreeMap Nat Recency

/-- What can be done in a world. -/
inductive Act (α : Type) where
  /-- Puts a new object with one owner at an address. -/
  | create (address : Address) (value : α)
  /-- Gives an object one more owner. -/
  | share (h : Handle)
  /-- Takes one owner from an object. -/
  | release (h : Handle)
  /-- Adds an object to a list. -/
  | add (k : Nat) (h : Handle)
  /-- Removes an object from a list. -/
  | remove (k : Nat) (h : Handle)
  /-- Makes a list forget everything. -/
  | clear (k : Nat)
  /-- Clears away from a list what is left of objects that are gone. -/
  | prune (k : Nat)
  /-- Takes the last object of a list and becomes one more owner of it. -/
  | keepLast (k : Nat)
deriving Repr

/-- What an act comes to. -/
inductive Reply where
  /-- The act was carried out. -/
  | done
  /-- The object has no owner, or the address is reserved, and nothing changed. -/
  | declined
  /-- Whether what was asked for was there. -/
  | truth (b : Bool)
  /-- How much was cleared away. -/
  | count (n : Nat)
  /-- The object that has one more owner now, none if the list had no living object. -/
  | kept (h : Option Handle)
deriving DecidableEq, Repr

namespace World

variable {α : Type}

def empty : World α := ⟨[], ∅⟩

instance : Inhabited (World α) := ⟨empty⟩

def owners (w : World α) (h : Handle) : Nat :=
  match w.cells[h]? with
  | some c => c.owners
  | none => 0

def isAlive (w : World α) (h : Handle) : Bool := 0 < w.owners h

/-- The cell of an object that has an owner. -/
def owned? (w : World α) (h : Handle) : Option (Cell α) :=
  w.cells[h]?.filter fun c => 0 < c.owners

/-- The owned object with a value of some kind, the earliest if there are several. -/
def search? (w : World α) (p : α → Bool) : Option Handle :=
  w.cells.findIdx? fun c => decide (0 < c.owners) && p c.value

/-- A recency list, which is empty as long as it was not used. -/
def list (w : World α) (k : Nat) : Recency := (w.lists[k]?).getD .empty

def isTracked (w : World α) (h : Handle) : Bool :=
  w.lists.toList.any fun (_, r) => r.handles.toList.any fun (_, g) => g == h

/-- Whether an object holds on to its address: it has an owner, or some list tracks it. -/
def isReserved (w : World α) (h : Handle) : Bool := w.isAlive h || w.isTracked h

def reserved (w : World α) : List Address :=
  w.cells.zipIdx.filterMap fun (c, h) => if w.isReserved h then some c.address else none

/-- The least address that no object holds on to. -/
def freeAddress (w : World α) : Address :=
  let taken := w.reserved
  ((List.range (taken.length + 1)).find? fun a => !taken.contains a).getD taken.length

def setOwners (w : World α) (h : Handle) (n : Nat) : World α :=
  { w with cells := w.cells.modify h fun c => { c with owners := n } }

def setList (w : World α) (k : Nat) (r : Recency) : World α :=
  { w with lists := w.lists.insert k r }

def act (w : World α) : Act α → Reply × World α
  | .create a value =>
    if w.reserved.contains a then (.declined, w)
    else (.done, { w with cells := w.cells ++ [⟨a, value, 1⟩] })
  | .share h =>
    match w.owned? h with
    | none => (.declined, w)
    | some c => (.done, w.setOwners h (c.owners + 1))
  | .release h =>
    match w.owned? h with
    | none => (.declined, w)
    | some c => (.done, w.setOwners h (c.owners - 1))
  | .add k h =>
    match w.owned? h with
    | none => (.declined, w)
    | some c => (.done, w.setList k ((w.list k).add w.isAlive c.address h))
  | .remove k h =>
    match w.owned? h with
    | none => (.declined, w)
    | some c =>
      let (found, r) := (w.list k).remove w.isAlive c.address
      (.truth found, w.setList k r)
  | .clear k => (.done, w.setList k .empty)
  | .prune k =>
    let (n, r) := (w.list k).prune w.isAlive
    (.count n, w.setList k r)
  | .keepLast k =>
    match (w.list k).last? w.isAlive with
    | none => (.kept none, w)
    | some h => (.kept (some h), w.setOwners h (w.owners h + 1))

def after (w : World α) (acts : List (Act α)) : World α :=
  acts.foldl (fun w a => (w.act a).2) w

/-! ## Reading a list -/

def live (w : World α) (k : Nat) : List Handle := (w.list k).live w.isAlive

def size (w : World α) (k : Nat) : Nat := (w.list k).size w.isAlive

def isEmpty (w : World α) (k : Nat) : Bool := (w.list k).isEmpty w.isAlive

def last? (w : World α) (k : Nat) : Option Handle := (w.list k).last? w.isAlive

/-- Whether a list has an object that is owned. -/
def contains (w : World α) (k : Nat) (h : Handle) : Bool :=
  match w.owned? h with
  | some c => (w.list k).contains w.isAlive c.address
  | none => false

/-- Whether two owned objects live at the same address. -/
def same (w : World α) (g h : Handle) : Bool :=
  match w.owned? g, w.owned? h with
  | some c, some d => c.address == d.address
  | _, _ => false

def summary (w : World α) (k : Nat) : List Char := (w.list k).summary w.isAlive

theorem freeAddress_not_mem (w : World α) : w.freeAddress ∉ w.reserved := by
  unfold freeAddress
  intro h
  have key : ∃ a, a ∈ List.range (w.reserved.length + 1) ∧ a ∉ w.reserved := by
    apply Classical.byContradiction
    intro hno
    have hsub : ∀ a ∈ List.range (w.reserved.length + 1), a ∈ w.reserved := fun a ha =>
      Classical.byContradiction fun hc => hno ⟨a, ha, hc⟩
    have := List.nodup_range.length_le_of_subset hsub
    rw [List.length_range] at this
    exact Nat.not_succ_le_self _ this
  obtain ⟨a, ha, hfree⟩ := key
  cases hf : (List.range (w.reserved.length + 1)).find? fun a => !w.reserved.contains a with
  | none =>
    rw [List.find?_eq_none] at hf
    exact hf a ha (by simpa using hfree)
  | some b =>
    have := List.find?_some hf
    simp only [hf, Option.getD_some] at h
    simp_all

end World

end Lineup
