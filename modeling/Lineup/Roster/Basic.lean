/-
# Rosters

A roster registers entries under names and keeps them in the order of registration.  An entry that
is enrolled again leaves its old place, with all the bounds it declared, and goes to the end.
-/
import Lineup.Listing.Basic
import Lineup.Refusal.Basic

namespace Lineup

/-- Registered entries and the policy for those that declare no side. -/
structure Roster (N V : Type) where
  /-- The bounds for entries that declare no side. -/
  policy : Policy N
  /-- The entries in the order of registration. -/
  entries : Listing N V
deriving DecidableEq, Repr

namespace Roster

variable {N V : Type}

def empty (policy : Policy N) : Roster N V := ⟨policy, []⟩

instance : Inhabited (Roster N V) := ⟨empty default⟩

def size (r : Roster N V) : Nat := r.entries.length

def isEmpty (r : Roster N V) : Bool := r.entries.isEmpty

/-- The names in the order of registration. -/
def names (r : Roster N V) : List N := r.entries.map (·.name)

/-- The values in the order of registration. -/
def values (r : Roster N V) : List V := r.entries.map (·.value)

section Equality

variable [BEq N]

def find? (r : Roster N V) (name : N) : Option (Entry N V) :=
  r.entries.find? (·.name == name)

def get? (r : Roster N V) (name : N) : Option V := (r.find? name).map (·.value)

def bounds? (r : Roster N V) (name : N) : Option (Bounds N) := (r.find? name).map (·.bounds)

def contains (r : Roster N V) (name : N) : Bool := (r.find? name).isSome

def erase (r : Roster N V) (name : N) : Roster N V :=
  { r with entries := r.entries.eraseP (·.name == name) }

/-- Registers a name at the end, in place of what it stood for before, which is given back.  Bounds
that declare no side give way to the policy's. -/
def enroll (r : Roster N V) (name : N) (value : V) (bounds : Bounds N) :
    Option V × Roster N V :=
  let rest := r.erase name
  (r.get? name, { rest with entries := rest.entries ++ [⟨name, value, r.policy.resolve bounds⟩] })

/-- Strikes a name off and gives its value. -/
def withdraw (r : Roster N V) (name : N) : Except (Refusal N) (V × Roster N V) :=
  match r.get? name with
  | some value => .ok (value, r.erase name)
  | none => .error (.unknown name)

@[simp] theorem enroll_entries (r : Roster N V) (name : N) (value : V) (bounds : Bounds N) :
    (r.enroll name value bounds).2.entries =
      r.entries.eraseP (·.name == name) ++ [⟨name, value, r.policy.resolve bounds⟩] := rfl

@[simp] theorem enroll_policy (r : Roster N V) (name : N) (value : V) (bounds : Bounds N) :
    (r.enroll name value bounds).2.policy = r.policy := rfl

/-- Withdrawing fails exactly on a name that is not registered. -/
theorem withdraw_eq_error_iff (r : Roster N V) (name : N) (reason : Refusal N) :
    r.withdraw name = .error reason ↔ r.contains name = false ∧ reason = .unknown name := by
  unfold withdraw contains get?
  cases r.find? name <;> simp [eq_comm]

end Equality

end Roster

end Lineup
