/-
# Spots and sides

A line of entries stands between two anchors.  A bound points at a *spot*, which is either an
anchor or the name of an entry, and it sits on one *side* of the entry that declares it.
-/

namespace Lineup

/-- The side of an entry on which a bound sits. -/
inductive Side where
  /-- The entry stands before the spots of the bound. -/
  | before
  /-- The entry stands after the spots of the bound. -/
  | after
deriving DecidableEq, Repr

def Side.word : Side → List Char
  | .before => "before".toList
  | .after => "after".toList

theorem Side.word_inj {s t : Side} : s.word = t.word ↔ s = t := by
  cases s <;> cases t <;> simp [Side.word]

/-- A place that a bound can point at. -/
inductive Spot (N : Type) where
  /-- The anchor ahead of the line. -/
  | first
  /-- The anchor behind the line. -/
  | last
  /-- The place of the entry called `name`. -/
  | entry (name : N)
deriving BEq, DecidableEq, Repr

namespace Spot

variable {N : Type}

def isAnchor : Spot N → Bool
  | first | last => true
  | entry _ => false

def name? : Spot N → Option N
  | first | last => none
  | entry name => some name

theorem isAnchor_iff (s : Spot N) : s.isAnchor = true ↔ s.name? = none := by
  cases s <;> simp [isAnchor, name?]

section Equality

variable [BEq N]

@[simp] theorem entry_beq_entry (a b : N) : (entry a == entry b) = (a == b) := rfl

@[simp] theorem entry_beq_first (a : N) : (entry a == first) = false := rfl

@[simp] theorem entry_beq_last (a : N) : (entry a == last) = false := rfl

@[simp] theorem first_beq_entry (a : N) : ((first : Spot N) == entry a) = false := rfl

@[simp] theorem last_beq_entry (a : N) : ((last : Spot N) == entry a) = false := rfl

@[simp] theorem first_beq_first : ((first : Spot N) == first) = true := rfl

@[simp] theorem last_beq_last : ((last : Spot N) == last) = true := rfl

@[simp] theorem first_beq_last : ((first : Spot N) == last) = false := rfl

@[simp] theorem last_beq_first : ((last : Spot N) == first) = false := rfl

/-- Spots are compared up to the equality of names, which makes it an equivalence as well. -/
instance [EquivBEq N] : EquivBEq (Spot N) where
  symm {a b} h := by
    cases a <;> cases b <;> simp_all [BEq.comm]
  trans {a b c} h k := by
    cases a <;> cases b <;> cases c <;> simp_all
    exact BEq.trans h k
  rfl {a} := by cases a <;> simp

/-- Where names are compared exactly, so are spots. -/
instance [LawfulBEq N] : LawfulBEq (Spot N) where
  eq_of_beq {a b} h := by
    cases a <;> cases b <;> simp_all

end Equality

end Spot

end Lineup
