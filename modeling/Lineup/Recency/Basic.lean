/-
# Recency lists

A recency list tracks shared objects, the one added last at its end, and owns none of them.  It
knows an object by its address and keeps a handle beside it, through which it can tell whether the
object is still alive.  Reading passes over objects that are gone; their remains are cleared away
when the list is next changed or pruned.
-/
import Lineup.Name.Label
import Std.Data.TreeMap

namespace Lineup

/-- Where an object lives.  The address of an object that is gone may be given out again. -/
abbrev Address := Nat

/-- What stands for one object for good, however its address is used later. -/
abbrev Handle := Nat

/-- Tracked objects in the order in which they were last added. -/
structure Recency where
  /-- The handle that was tracked under an address. -/
  handles : Std.TreeMap Address Handle
  /-- The tracked addresses, the latest at the end. -/
  order : List Address

namespace Recency

def empty : Recency := ⟨∅, []⟩

instance : Inhabited Recency := ⟨empty⟩

section Reading

variable (alive : Handle → Bool) (r : Recency)

/-- The living object that is tracked under an address. -/
def living? (a : Address) : Option Handle := r.handles[a]?.filter alive

/-- The living tracked objects, the latest at the end. -/
def live : List Handle := r.order.filterMap (r.living? alive)

def size : Nat := (r.live alive).length

def isEmpty : Bool := (r.live alive).isEmpty

/-- Whether the object at an address is tracked and alive. -/
def contains (a : Address) : Bool := (r.living? alive a).isSome

def last? : Option Handle := r.order.reverse.findSome? (r.living? alive)

/-- The number of tracked objects, those that are gone and were not yet cleared away included. -/
def tracked : Nat := r.order.length

/-- The list in one line: how many objects live and how many are tracked. -/
def summary : List Char :=
  "WeakOrderedSet \x7b live: ".toList ++ decimal (r.size alive) ++ ", tracked: ".toList ++
    decimal r.tracked ++ " \x7d".toList

end Reading

section Changing

variable (alive : Handle → Bool) (r : Recency)

/-- Clears away what is left of objects that are gone. -/
def compact : Recency where
  handles := r.handles.filter fun _ h => alive h
  order := r.order.filter fun a => (r.living? alive a).isSome

/-- Clears away what is left of objects that are gone, and counts them. -/
def prune : Nat × Recency :=
  let r' := r.compact alive
  (r.tracked - r'.tracked, r')

/-- Tracks the object of a handle at an address as the latest one. -/
def add (a : Address) (h : Handle) : Recency :=
  let r := r.compact alive
  if r.handles.contains a then
    { r with order := r.order.filter (· != a) ++ [a] }
  else
    { handles := r.handles.insert a h, order := r.order ++ [a] }

/-- Stops tracking the object at an address, and says whether it was tracked. -/
def remove (a : Address) : Bool × Recency :=
  let r := r.compact alive
  if r.handles.contains a then
    (true, { handles := r.handles.erase a, order := r.order.filter (· != a) })
  else
    (false, r)

end Changing

theorem last?_eq_getLast? (alive : Handle → Bool) (r : Recency) :
    r.last? alive = (r.live alive).getLast? := by
  unfold last? live
  induction r.order with
  | nil => rfl
  | cons a order ih =>
    simp only [List.reverse_cons, List.findSome?_append, List.findSome?_cons, List.findSome?_nil, ih]
    rw [List.filterMap_cons]
    cases r.living? alive a <;> cases order.filterMap (r.living? alive) <;>
      simp [List.getLast?_cons]

end Recency

end Lineup
