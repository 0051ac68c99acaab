/-
# JSON values

Values as they are exchanged in JSON.  Integers are exact at any size.  A number that is written
with a fraction or an exponent is kept as its text: nothing here computes with it, and it is never
taken for an integer.
-/

namespace Lineup

inductive Json where
  | null
  | bool (b : Bool)
  /-- A number written as an integer. -/
  | int (n : Int)
  /-- Any other number, as it was written. -/
  | decimal (text : String)
  | str (s : String)
  | arr (items : List Json)
  /-- An object with its members in the order of writing. -/
  | obj (members : List (String × Json))
deriving Repr

namespace Json

instance : Inhabited Json := ⟨null⟩

def members? : Json → Option (List (String × Json))
  | obj members => some members
  | _ => none

/-- The content of a key in an object of no particular type: of members with that key the last one
counts.  A record, which has its own keys, is read more strictly. -/
def member? (key : String) (members : List (String × Json)) : Option Json :=
  members.reverse.lookup key

def items? : Json → Option (List Json)
  | arr items => some items
  | _ => none

end Json

end Lineup
