/-
# JSON forms

A type with a JSON form is written in one way and read back from it.  Reading may accept other
spellings of the same value.  The forms of strings, fixed-width integers, pairs, lists and optional
values stand here.
-/
import Lineup.Json.Basic
import Lineup.Name.CaseBlind

namespace Lineup

/-- A type whose values are written as JSON and read from it. -/
class JsonForm (α : Type) where
  /-- The form in which a value is written. -/
  write : α → Json
  /-- The value that a form stands for, none if it stands for no value of the type. -/
  read? : Json → Option α

export JsonForm (write read?)

/-- A form is faithful when every value is read back from what was written for it. -/
class FaithfulForm (α : Type) [JsonForm α] : Prop where
  /-- Reading undoes writing. -/
  read_write : ∀ a : α, read? (write a) = some a

export FaithfulForm (read_write)

attribute [simp] read_write

/-! ## Names -/

instance : JsonForm String where
  write s := .str s
  read?
    | .str s => some s
    | _ => none

instance : FaithfulForm String := ⟨fun _ => rfl⟩

/-- An integer of 64 bits is a number written as an integer within its range. -/
instance : JsonForm Int64 where
  write n := .int n.toInt
  read?
    | .int n =>
      if Int64.minValue.toInt ≤ n ∧ n ≤ Int64.maxValue.toInt then some (Int64.ofInt n) else none
    | _ => none

instance : FaithfulForm Int64 := ⟨fun n => by
  have h : Int64.minValue.toInt ≤ n.toInt ∧ n.toInt ≤ Int64.maxValue.toInt :=
    ⟨n.minValue_le_toInt, n.toInt_le⟩
  simp only [read?, write, if_pos h, Int64.ofInt_toInt]⟩

/-- A pair is an array of exactly two items. -/
instance {α β : Type} [JsonForm α] [JsonForm β] : JsonForm (α × β) where
  write p := .arr [write p.1, write p.2]
  read?
    | .arr [a, b] => do return (← read? a, ← read? b)
    | _ => none

instance {α β : Type} [JsonForm α] [JsonForm β] [FaithfulForm α] [FaithfulForm β] :
    FaithfulForm (α × β) :=
  ⟨fun p => by simp [write, read?, read_write]⟩

/-- A name without regard to case is written in its own spelling. -/
instance : JsonForm CaseBlind where
  write n := write n.spelling
  read? j := (read? j).map CaseBlind.mk

instance : FaithfulForm CaseBlind := ⟨fun _ => rfl⟩

/-! ## Lists and optional values -/

instance {α : Type} [JsonForm α] : JsonForm (List α) where
  write l := .arr (l.map write)
  read?
    | .arr items => items.mapM read?
    | _ => none

/-- An absent value is null. -/
instance {α : Type} [JsonForm α] : JsonForm (Option α) where
  write
    | none => .null
    | some a => write a
  read?
    | .null => some none
    | j => (read? j).map some

end Lineup
