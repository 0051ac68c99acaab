/-
# Labels of names

Entries may be called by names of any type.  A label is how a name is shown in running text: a
string between quotes, an integer in decimal, a pair in parentheses.
-/
import Lineup.Text.Quoted

namespace Lineup

/-- Names that can be shown in running text. -/
class Label (N : Type) where
  /-- The text that shows a name. -/
  label : N → List Char

export Label (label)

/-- An integer in decimal, a minus sign ahead of it when it is negative. -/
def decimal : Int → List Char
  | .ofNat n => Nat.toDigits 10 n
  | .negSucc n => '-' :: Nat.toDigits 10 (n + 1)

instance : Label String := ⟨fun s => Text.quoted s.toList⟩

instance : Label Int64 := ⟨fun n => decimal n.toInt⟩

instance {M N : Type} [Label M] [Label N] : Label (M × N) :=
  ⟨fun p => '(' :: label p.1 ++ ", ".toList ++ label p.2 ++ [')']⟩

example : label ("a", (-1 : Int64)) = "(\"a\", -1)".toList := by decide +kernel

end Lineup
