/-
# Listings

A listing holds entries in the order of their registration.  Its spots are numbered for use in a
network: the two anchors come first, then the entries in order.
-/
import Lineup.Policy

namespace Lineup

structure Entry (N V : Type) where
  /-- What the entry is called, in the spelling of its registration. -/
  name : N
  /-- What the entry stands for. -/
  value : V
  /-- The bounds it carries, those of the policy if it declared none. -/
  bounds : Bounds N
deriving DecidableEq, Repr

/-- Entries in the order of registration. -/
abbrev Listing (N V : Type) := List (Entry N V)

namespace Listing

variable {N V : Type}

/-- The number of the anchor ahead of the line. -/
abbrev firstNode : Nat := 0

/-- The number of the anchor behind the line. -/
abbrev lastNode : Nat := 1

/-- The number of the entry at position `i`. -/
abbrev entryNode (i : Nat) : Nat := i + 2

/-- The number of nodes: one for each entry and one for each anchor. -/
abbrev nodeCount (l : Listing N V) : Nat := l.length + 2

/-- The position of the last entry called `name`, which hides earlier ones of that name. -/
def position? [BEq N] (name : N) : Listing N V → Option Nat
  | [] => none
  | e :: l =>
    match position? name l with
    | some i => some (i + 1)
    | none => if e.name == name then some 0 else none

/-- The number of a spot, none if it names no entry of the listing. -/
def node? [BEq N] (l : Listing N V) : Spot N → Option Nat
  | .first => some firstNode
  | .last => some lastNode
  | .entry name => (l.position? name).map entryNode

/-- The entry that has a number, none for the anchors and beyond the end. -/
def entryAt? (l : Listing N V) : Nat → Option (Entry N V)
  | 0 | 1 => none
  | i + 2 => l[i]?

def spotAt? (l : Listing N V) : Nat → Option (Spot N)
  | 0 => some .first
  | 1 => some .last
  | i + 2 => l[i]?.map fun e => .entry e.name

theorem position?_lt [BEq N] {name : N} {l : Listing N V} {i : Nat}
    (h : l.position? name = some i) : i < l.length := by
  induction l generalizing i with
  | nil => simp [position?] at h
  | cons e l ih =>
    simp only [position?] at h
    split at h
    · rename_i j hj
      have := ih hj
      simp at h ⊢
      omega
    · split at h <;> simp at h ⊢
      omega

theorem position?_isSome_iff [BEq N] {name : N} {l : Listing N V} :
    (l.position? name).isSome = true ↔ ∃ e ∈ l, (e.name == name) = true := by
  induction l with
  | nil => simp [position?]
  | cons e l ih =>
    simp only [position?, List.mem_cons, exists_eq_or_imp]
    rw [← ih]
    split <;> simp_all

theorem node?_lt [BEq N] {l : Listing N V} {s : Spot N} {v : Nat} (h : l.node? s = some v) :
    v < l.nodeCount := by
  cases s with
  | first => cases h; exact Nat.succ_pos _
  | last => cases h; exact Nat.succ_lt_succ (Nat.succ_pos _)
  | entry name =>
    obtain ⟨i, hi, rfl⟩ := Option.map_eq_some_iff.1 h
    exact Nat.add_lt_add_right (position?_lt hi) 2

end Listing

end Lineup
