/-
# JSON forms of spots, sides, bounds and policies

An anchor or a side is written as its name; an object with that name as its only key and null as
its content reads as the same.  A spot that names an entry is an object with the single key
`Entry`.  Bounds and policies are objects with two keys, either of which stands at most once.  In
bounds a missing key is an undeclared side, just as null is; in a policy a missing key leaves the
standing value in place, and null means that there is none.
-/
import Lineup.Json.Form
import Lineup.Policy

namespace Lineup

/-! ## Sides and spots -/

/-- Whether a value is one of the two spellings of a bare name: a string, or an object with that
key alone and null as its content. -/
def Json.isTag (tag : String) : Json → Bool
  | .str s => s == tag
  | .obj [(key, .null)] => key == tag
  | _ => false

instance : JsonForm Side where
  write
    | .before => .str "Before"
    | .after => .str "After"
  read? j :=
    if j.isTag "Before" then some .before
    else if j.isTag "After" then some .after
    else none

instance : FaithfulForm Side := ⟨fun s => by cases s <;> rfl⟩

variable {N : Type} [JsonForm N]

instance : JsonForm (Spot N) where
  write
    | .first => .str "First"
    | .last => .str "Last"
    | .entry name => .obj [("Entry", write name)]
  read? j :=
    if j.isTag "First" then some .first
    else if j.isTag "Last" then some .last
    else match j with
      | .obj [(key, content)] => if key == "Entry" then (read? content).map .entry else none
      | _ => none

/-! ## Bounds -/

/-- What an object gives for a key that it may hold once: a content, or nothing.  An object in which
the key is repeated is refused, be it with the same content. -/
def Json.field? (key : String) (members : List (String × Json)) : Option (Option Json) :=
  match members.filter (·.1 == key) with
  | [] => some none
  | [(_, content)] => some (some content)
  | _ => none

/-- Reads an optional value that is null or missing when it is absent. -/
def readSide? (key : String) (members : List (String × Json)) :
    Option (Option (List (Spot N))) := do
  read? ((← Json.field? key members).getD .null)

/-- Bounds are an object with the keys of their two sides.  An array of exactly two items gives the
sides in that order. -/
instance : JsonForm (Bounds N) where
  write b := .obj [("after", write b.after), ("before", write b.before)]
  read?
    | .obj members => do
      return ⟨← readSide? "after" members, ← readSide? "before" members⟩
    | .arr [after, before] => do
      return ⟨← read? after, ← read? before⟩
    | _ => none

/-! ## Policies -/

/-- Reads one side of a policy, which keeps its standing value when nothing is given for it. -/
def readStanding? (given : Option Json) (standing : Option (List (Spot N))) :
    Option (Option (List (Spot N))) :=
  match given with
  | none => some standing
  | some j => read? j

/-- Reads a policy from what is given for its two sides. -/
def readPolicy? (after before : Option Json) : Option (Policy N) := do
  let standing : Bounds N := Policy.beforeLast.standing
  return ⟨⟨← readStanding? after standing.after, ← readStanding? before standing.before⟩⟩

/-- A policy is an object with the keys of its two sides.  An array of at most two items gives the
sides in that order. -/
instance : JsonForm (Policy N) where
  write p :=
    .obj [("default_after", write p.standing.after), ("default_before", write p.standing.before)]
  read?
    | .obj members => do
      readPolicy? (← Json.field? "default_after" members) (← Json.field? "default_before" members)
    | .arr [] => readPolicy? none none
    | .arr [after] => readPolicy? (some after) none
    | .arr [after, before] => readPolicy? (some after) (some before)
    | _ => none

end Lineup
