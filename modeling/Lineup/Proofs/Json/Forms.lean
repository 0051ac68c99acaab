/-
# What is read back, what is accepted, and how it is written again

Three things are said of a JSON form: that every value is read back from what was written for it
(`FaithfulForm`), which JSON values are accepted, and in which one form an accepted value is written
again, however it was spelled.  The last two are kept together (`Spells`), since a form that is made
of others gets both from theirs: a spot from names, a side from spots, bounds and policies from
sides.

A form that is accepted is described by its shape and its members, whatever way the reader takes to
them: what is given for a key is any content that a member pairs it with.  A missing key and null
come to the same in bounds; in a policy a missing key comes to what stands there by default, and
null to nothing.  A key that stands twice is refused in both.
-/
import Mathlib.Data.List.Forall2
import Lineup.Json.Spots

namespace Lineup

open List (Forall₂)

variable {α : Type} [JsonForm α] (N : Type) [JsonForm N]

/-! ## The forms -/

/-- Whether a JSON value stands for something of a type. -/
def Accepts (α : Type) [JsonForm α] (j : Json) : Prop := ∃ a : α, read? j = some a

/-- A JSON value in the form in which that is written what it stands for, if it stands for
something of the type. -/
def respelled (α : Type) [JsonForm α] (j : Json) : Json :=
  ((read? j : Option α).map write).getD j

/-- A bare name out of a few, as a string or as an object with that key alone and null in it. -/
def TagForm (tags : List String) (j : Json) : Prop :=
  ∃ tag ∈ tags, j = .str tag ∨ j = .obj [(tag, .null)]

inductive SpotForm : Json → Prop
  | anchor {j : Json} : TagForm ["First", "Last"] j → SpotForm j
  | entry {name : Json} : Accepts N name → SpotForm (.obj [("Entry", name)])

/-- The forms of one side: nothing, or spots. -/
inductive SideForm : Json → Prop
  | null : SideForm .null
  | spots {items : List Json} : (∀ j ∈ items, SpotForm N j) → SideForm (.arr items)

/-- What is given for a side: the content of its key in an object, or the item at its place in an
array. -/
inductive Json.Gives (key : String) (place : Nat) : Json → Json → Prop
  | member {members : List (String × Json)} {content : Json} :
      (key, content) ∈ members → Gives key place (.obj members) content
  | item {items : List Json} {content : Json} :
      items[place]? = some content → Gives key place (.arr items) content

/-- The shapes of a record: an object in which none of its keys stands twice, or an array with a
number of items that fits. -/
inductive RecordShape (fits : Nat → Prop) (keys : List String) : Json → Prop
  | obj {members : List (String × Json)} :
      (∀ key ∈ keys, (members.map (·.1)).count key ≤ 1) → RecordShape fits keys (.obj members)
  | arr {items : List Json} : fits items.length → RecordShape fits keys (.arr items)

/-- The forms of a record with two sides: whatever is given for one of them has the form of a
side. -/
structure SidesForm (fits : Nat → Prop) (after before : String) (j : Json) : Prop where
  shape : RecordShape fits [after, before] j
  after : ∀ side, j.Gives after 0 side → SideForm N side
  before : ∀ side, j.Gives before 1 side → SideForm N side

/-- The forms of bounds.  An array gives both sides. -/
def BoundsForm (j : Json) : Prop := SidesForm N (· = 2) "after" "before" j

/-- The forms of a policy.  An array gives no more than both sides. -/
def PolicyForm (j : Json) : Prop := SidesForm N (· ≤ 2) "default_after" "default_before" j

/-! ## The forms in which they are written -/

def plainTag : Json → Json
  | .obj [(tag, _)] => .str tag
  | j => j

/-- The written form of a spot: an anchor is its bare name, and the name of an entry is written
again. -/
def plainSpot : Json → Json
  | .obj [(key, content)] =>
    if key = "Entry" then .obj [(key, respelled N content)] else .str key
  | j => j

def plainSide : Json → Json
  | .arr items => .arr (items.map (plainSpot N))
  | j => j

/-- What is written for a side of a record: the written form of what is given for it, or `standing`
if nothing is. -/
inductive PlainField (key : String) (place : Nat) (standing j : Json) : Json → Prop
  | given {side : Json} :
      j.Gives key place side → PlainField key place standing j (plainSide N side)
  | missing : (∀ side, ¬ j.Gives key place side) → PlainField key place standing j standing

/-- The written form of a record with two sides: an object with both keys.  Beside each key stands
what is written for a side that is missing. -/
inductive PlainSides (after before : String × Json) (j : Json) : Json → Prop
  | obj {a b : Json} : PlainField N after.1 0 after.2 j a → PlainField N before.1 1 before.2 j b →
      PlainSides after before j (.obj [(after.1, a), (before.1, b)])

/-- The written form of bounds, with null for a side that is missing. -/
def PlainBounds (j written : Json) : Prop :=
  PlainSides N ("after", .null) ("before", .null) j written

/-- The written form of a policy.  A side that is missing has what stands there by default, nothing
ahead and the last anchor behind. -/
def PlainPolicy (j written : Json) : Prop :=
  PlainSides N ("default_after", .null) ("default_before", .arr [.str "Last"]) j written

/-- A type accepts JSON values of some form, and what was read from one is written in a form that
is got from it. -/
structure Spells (α : Type) [JsonForm α] (form : Json → Prop) (plain : Json → Json → Prop) :
    Prop where
  accepts : ∀ {j}, form j → Accepts α j
  form : ∀ {j} {a : α}, read? j = some a → form j
  plain : ∀ {j} {a : α}, read? j = some a → plain j (write a)

theorem Spells.accepts_iff {form : Json → Prop} {plain : Json → Json → Prop}
    (h : Spells α form plain) (j : Json) : Accepts α j ↔ form j :=
  ⟨fun ⟨_, ha⟩ => h.form ha, h.accepts⟩

/-! ## Bare names -/

theorem isTag_iff {tag : String} {j : Json} :
    j.isTag tag = true ↔ j = .str tag ∨ j = .obj [(tag, .null)] := by
  unfold Json.isTag
  split <;> simp_all

theorem tagForm_of_isTag {tags : List String} {tag : String} {j : Json} (htag : tag ∈ tags)
    (h : j.isTag tag = true) : TagForm tags j :=
  ⟨tag, htag, isTag_iff.mp h⟩

theorem plainTag_of_isTag {tag : String} {j : Json} (h : j.isTag tag = true) :
    plainTag j = .str tag := by
  rcases isTag_iff.mp h with rfl | rfl <;> rfl

theorem of_read_side {j : Json} {s : Side} (h : read? j = some s) :
    j.isTag "Before" = true ∧ s = .before ∨ j.isTag "After" = true ∧ s = .after := by
  simp only [read?] at h
  split at h
  · rename_i hbefore
    exact .inl ⟨hbefore, (Option.some_inj.mp h).symm⟩
  · split at h
    · rename_i hafter
      exact .inr ⟨hafter, (Option.some_inj.mp h).symm⟩
    · cases h

theorem spells_side :
    Spells Side (TagForm ["Before", "After"]) fun j written => written = plainTag j := by
  refine ⟨?_, ?_, ?_⟩
  · rintro j ⟨tag, htag, hj⟩
    rw [List.mem_pair] at htag
    rcases htag with rfl | rfl <;> rcases hj with rfl | rfl <;> exact ⟨_, rfl⟩
  · intro j s h
    rcases of_read_side h with ⟨htag, rfl⟩ | ⟨htag, rfl⟩ <;>
      exact tagForm_of_isTag (by simp) htag
  · intro j s h
    rcases of_read_side h with ⟨htag, rfl⟩ | ⟨htag, rfl⟩ <;>
      exact (plainTag_of_isTag htag).symm

/-! ## Spots -/

section Spots

variable {N}

theorem read_entry {content : Json} {name : N} (h : read? content = some name) :
    read? (.obj [("Entry", content)]) = some (Spot.entry name) := by
  have hfirst : ¬ Json.isTag "First" (.obj [("Entry", content)]) = true := by simp [isTag_iff]
  have hlast : ¬ Json.isTag "Last" (.obj [("Entry", content)]) = true := by simp [isTag_iff]
  simp only [read?, if_neg hfirst, if_neg hlast]
  exact congrArg (Option.map Spot.entry) h

theorem of_read_spot {j : Json} {s : Spot N} (h : read? j = some s) :
    j.isTag "First" = true ∧ s = .first ∨ j.isTag "Last" = true ∧ s = .last ∨
      ∃ content name, j = .obj [("Entry", content)] ∧ read? content = some name ∧
        s = .entry name := by
  simp only [read?] at h
  split at h
  · rename_i hfirst
    exact .inl ⟨hfirst, (Option.some_inj.mp h).symm⟩
  · split at h
    · rename_i hlast
      exact .inr (.inl ⟨hlast, (Option.some_inj.mp h).symm⟩)
    · split at h
      · rename_i key content _ _
        split at h
        · rename_i hkey
          obtain ⟨name, hname, rfl⟩ := Option.map_eq_some_iff.mp h
          exact .inr (.inr ⟨content, name, by rw [beq_iff_eq.mp hkey], hname, rfl⟩)
        · cases h
      · cases h

theorem plainSpot_of_isTag {tag : String} {j : Json} (htag : tag ≠ "Entry")
    (h : j.isTag tag = true) : plainSpot N j = .str tag := by
  rcases isTag_iff.mp h with rfl | rfl
  · rfl
  · exact if_neg htag

theorem plainSpot_entry {content : Json} {name : N} (h : read? content = some name) :
    plainSpot N (.obj [("Entry", content)]) = .obj [("Entry", write name)] := by
  rw [plainSpot, if_pos rfl, respelled, h]
  rfl

end Spots

theorem spells_spot :
    Spells (Spot N) (SpotForm N) fun j written => written = plainSpot N j := by
  refine ⟨?_, ?_, ?_⟩
  · rintro j (⟨tag, htag, hj⟩ | ⟨name, hname⟩)
    · rw [List.mem_pair] at htag
      rcases htag with rfl | rfl <;> rcases hj with rfl | rfl <;> exact ⟨_, rfl⟩
    · exact ⟨_, read_entry hname⟩
  · intro j s h
    rcases of_read_spot h with ⟨htag, -⟩ | ⟨htag, -⟩ | ⟨content, name, rfl, hname, -⟩
    · exact .anchor (tagForm_of_isTag (by simp) htag)
    · exact .anchor (tagForm_of_isTag (by simp) htag)
    · exact .entry ⟨name, hname⟩
  · intro j s h
    rcases of_read_spot h with ⟨htag, rfl⟩ | ⟨htag, rfl⟩ | ⟨content, name, rfl, hname, rfl⟩
    · exact (plainSpot_of_isTag (by decide) htag).symm
    · exact (plainSpot_of_isTag (by decide) htag).symm
    · exact (plainSpot_entry hname).symm

instance [FaithfulForm N] : FaithfulForm (Spot N) := ⟨fun s => by
  cases s with
  | first => rfl
  | last => rfl
  | entry name => exact read_entry (read_write name)⟩

/-! ## Lists and sides -/

theorem mapM_eq_some_iff {β γ : Type} {f : β → Option γ} {xs : List β} {ys : List γ} :
    xs.mapM f = some ys ↔ Forall₂ (fun x y => f x = some y) xs ys := by
  induction xs generalizing ys with
  | nil => simp [eq_comm]
  | cons x xs ih =>
      simp only [List.mapM_cons, Option.bind_eq_bind, Option.bind_eq_some_iff, Option.pure_def,
        Option.some_inj, ih]
      constructor
      · rintro ⟨y, hy, ys, hys, rfl⟩
        exact .cons hy hys
      · rintro (_ | ⟨hy, hys⟩)
        exact ⟨_, hy, _, hys, rfl⟩

theorem read_list_iff {j : Json} {l : List α} :
    read? j = some l ↔ ∃ items, j = .arr items ∧ Forall₂ (fun i a => read? i = some a) items l := by
  cases j with
  | arr items =>
      show items.mapM read? = some l ↔ _
      simp [mapM_eq_some_iff]
  | _ => simp [read?]

instance [FaithfulForm α] : FaithfulForm (List α) := ⟨fun l => by
  refine read_list_iff.mpr ⟨_, rfl, ?_⟩
  exact List.forall₂_map_left_iff.mpr (List.forall₂_same.mpr fun a _ => read_write a)⟩

theorem read_spots_iff {j : Json} {side : Option (List α)} :
    read? j = some side ↔ j = .null ∧ side = none ∨
      ∃ items l, j = .arr items ∧ Forall₂ (fun i a => read? i = some a) items l ∧
        side = some l := by
  cases j with
  | null => simp [read?, eq_comm]
  | arr items =>
      show (items.mapM read?).map some = some side ↔ _
      simp [Option.map_eq_some_iff, mapM_eq_some_iff, @eq_comm _ side]
  | _ => simp [read?]

/-- A list is never written as null, so null can stand for an absent one. -/
instance [FaithfulForm α] : FaithfulForm (Option (List α)) := ⟨fun side => by
  cases side with
  | none => rfl
  | some l =>
      obtain ⟨items, hitems, hall⟩ := read_list_iff.mp (read_write l)
      exact read_spots_iff.mpr (.inr ⟨items, l, hitems, hall, rfl⟩)⟩

theorem Spells.exists_items {form : Json → Prop} {plain : Json → Json → Prop}
    (h : Spells α form plain) {items : List Json} (hitems : ∀ i ∈ items, form i) :
    ∃ l : List α, Forall₂ (fun i a => read? i = some a) items l := by
  induction items with
  | nil => exact ⟨[], .nil⟩
  | cons i items ih =>
      obtain ⟨hi, hitems⟩ := List.forall_mem_cons.mp hitems
      obtain ⟨a, ha⟩ := h.accepts hi
      obtain ⟨l, hl⟩ := ih hitems
      exact ⟨a :: l, .cons ha hl⟩

theorem Spells.items {form : Json → Prop} {plain : Json → Json}
    (h : Spells α form fun j written => written = plain j) {items : List Json} {l : List α}
    (hall : Forall₂ (fun i a => read? i = some a) items l) :
    (∀ i ∈ items, form i) ∧ l.map write = items.map plain := by
  induction hall with
  | nil => exact ⟨fun i hi => absurd hi List.not_mem_nil, rfl⟩
  | cons ha _ ih =>
      refine ⟨List.forall_mem_cons.mpr ⟨h.form ha, ih.1⟩, ?_⟩
      rw [List.map_cons, List.map_cons, h.plain ha, ih.2]

theorem spells_spots :
    Spells (Option (List (Spot N))) (SideForm N) fun j written => written = plainSide N j := by
  refine ⟨?_, ?_, ?_⟩
  · rintro j (_ | hitems)
    · exact ⟨none, rfl⟩
    · obtain ⟨spots, hall⟩ := (spells_spot N).exists_items hitems
      exact ⟨some spots, read_spots_iff.mpr (.inr ⟨_, spots, rfl, hall, rfl⟩)⟩
  · intro j side h
    rcases read_spots_iff.mp h with ⟨rfl, -⟩ | ⟨items, spots, rfl, hall, -⟩
    · exact .null
    · exact .spots ((spells_spot N).items hall).1
  · intro j side h
    rcases read_spots_iff.mp h with ⟨rfl, rfl⟩ | ⟨items, spots, rfl, hall, rfl⟩
    · rfl
    · exact congrArg Json.arr ((spells_spot N).items hall).2

/-! ## The members of an object -/

section Members

variable {key : String} {place : Nat} {members : List (String × Json)} {given : Option Json}

theorem gives_obj_iff {content : Json} :
    (Json.obj members).Gives key place content ↔ (key, content) ∈ members :=
  ⟨fun h => by cases h with | member h => exact h, .member⟩

theorem gives_arr_iff {items : List Json} {content : Json} :
    (Json.arr items).Gives key place content ↔ items[place]? = some content :=
  ⟨fun h => by cases h with | item h => exact h, .item⟩

theorem count_keys (key : String) (members : List (String × Json)) :
    (members.map (·.1)).count key = (members.filter (·.1 == key)).length := by
  rw [List.count_eq_length_filter, List.filter_map, List.length_map]
  rfl

theorem exists_field (h : (members.map (·.1)).count key ≤ 1) :
    ∃ given, Json.field? key members = some given ∧
      ∀ content, given = some content ↔ (key, content) ∈ members := by
  have hmem : ∀ content,
      (key, content) ∈ members.filter (·.1 == key) ↔ (key, content) ∈ members := by simp
  have hkey : ∀ m ∈ members.filter (·.1 == key), m.1 = key := by simp
  rw [count_keys] at h
  simp only [Json.field?, ← hmem]
  generalize members.filter (·.1 == key) = found at h hkey
  rcases found with _ | ⟨⟨k, content⟩, _ | ⟨m, rest⟩⟩
  · exact ⟨none, rfl, by simp⟩
  · obtain rfl : k = key := hkey _ List.mem_cons_self
    exact ⟨some content, rfl, by simp [eq_comm]⟩
  · exact absurd h (by simp)

theorem field?_eq_none (h : 1 < (members.map (·.1)).count key) :
    Json.field? key members = none := by
  rw [count_keys] at h
  rw [Json.field?]
  generalize members.filter (·.1 == key) = found at h
  rcases found with _ | ⟨m, _ | ⟨m', rest⟩⟩
  · exact absurd h (by simp)
  · exact absurd h (by simp)
  · rfl

theorem field?_eq_some_iff : Json.field? key members = some given ↔
    (members.map (·.1)).count key ≤ 1 ∧
      ∀ content, given = some content ↔ (key, content) ∈ members := by
  rcases Nat.lt_or_ge 1 ((members.map (·.1)).count key) with htwice | honce
  · rw [field?_eq_none htwice]
    exact iff_of_false (by simp) fun h => Nat.not_le_of_lt htwice h.1
  · obtain ⟨found, hfound, hmem⟩ := exists_field honce
    rw [hfound, Option.some_inj]
    constructor
    · rintro rfl
      exact ⟨honce, hmem⟩
    · rintro ⟨-, h⟩
      exact Option.ext fun content => (hmem content).trans (h content).symm

/-- Where a record has the shape that it should have, one content at most is given for each key. -/
theorem RecordShape.exists_given {fits : Nat → Prop} {keys : List String} {j : Json}
    (h : RecordShape fits keys j) (hkey : key ∈ keys) (place : Nat) :
    ∃ given, ∀ content, given = some content ↔ j.Gives key place content := by
  cases h with
  | obj honce =>
      obtain ⟨given, -, hmem⟩ := exists_field (honce key hkey)
      exact ⟨given, fun content => (hmem content).trans gives_obj_iff.symm⟩
  | arr _ => exact ⟨_, fun content => gives_arr_iff.symm⟩

end Members

/-! ## Bounds and policies -/

section Records

variable {N} {key after before : String} {place : Nat} {fits : Nat → Prop} {j : Json}
  {standing side : Option (List (Spot N))}

/-- One side of a record is read from what is given for it, and `standing` holds if nothing is. -/
def ReadsSide (key : String) (place : Nat) (standing : Option (List (Spot N))) (j : Json)
    (side : Option (List (Spot N))) : Prop :=
  ∃ given, (∀ content, given = some content ↔ j.Gives key place content) ∧
    readStanding? given standing = some side

theorem exists_readsSide {keys : List String} (standing : Option (List (Spot N)))
    (hshape : RecordShape fits keys j) (hkey : key ∈ keys)
    (h : ∀ content, j.Gives key place content → SideForm N content) :
    ∃ side, ReadsSide key place standing j side := by
  obtain ⟨given, hgiven⟩ := hshape.exists_given hkey place
  cases given with
  | none => exact ⟨standing, none, hgiven, rfl⟩
  | some content =>
      obtain ⟨side, hside⟩ := (spells_spots N).accepts (h content ((hgiven content).mp rfl))
      exact ⟨side, some content, hgiven, hside⟩

theorem ReadsSide.form (h : ReadsSide key place standing j side) :
    ∀ content, j.Gives key place content → SideForm N content := by
  obtain ⟨given, hgiven, hside⟩ := h
  intro content hcontent
  obtain rfl := (hgiven content).mpr hcontent
  exact (spells_spots N).form hside

theorem ReadsSide.plain (h : ReadsSide key place standing j side) :
    PlainField N key place (write standing) j (write side) := by
  obtain ⟨given, hgiven, hside⟩ := h
  cases given with
  | none =>
      obtain rfl := Option.some_inj.mp hside
      exact .missing fun content hcontent => nomatch (hgiven content).mpr hcontent
  | some content =>
      rw [(spells_spots N).plain hside]
      exact .given ((hgiven content).mp rfl)

/-- The two sides of a record are read from an object or from an array, each by itself. -/
@[mk_iff readsSides_iff]
structure ReadsSides (fits : Nat → Prop) (after before : String) (standing : Bounds N) (j : Json)
    (b : Bounds N) : Prop where
  shape : RecordShape fits [after, before] j
  after : ReadsSide after 0 standing.after j b.after
  before : ReadsSide before 1 standing.before j b.before

/-- A record that is made of two sides, and is read and written side by side, has the forms and the
written form that its sides give it. -/
theorem spells_sides {standing : Bounds N} {make : Bounds N → α} (hmake : ∀ a, ∃ b, make b = a)
    (hread : ∀ {j b}, read? j = some (make b) ↔ ReadsSides fits after before standing j b)
    (hwrite : ∀ b, write (make b) = .obj [(after, write b.after), (before, write b.before)]) :
    Spells α (SidesForm N fits after before)
      (PlainSides N (after, write standing.after) (before, write standing.before)) := by
  refine ⟨?_, ?_, ?_⟩
  · intro j h
    obtain ⟨a, ha⟩ := exists_readsSide standing.after h.shape (by simp) h.after
    obtain ⟨b, hb⟩ := exists_readsSide standing.before h.shape (by simp) h.before
    exact ⟨make ⟨a, b⟩, hread.mpr ⟨h.shape, ha, hb⟩⟩
  · intro j a h
    obtain ⟨b, rfl⟩ := hmake a
    obtain ⟨hshape, hafter, hbefore⟩ := hread.mp h
    exact ⟨hshape, hafter.form, hbefore.form⟩
  · intro j a h
    obtain ⟨b, rfl⟩ := hmake a
    obtain ⟨-, hafter, hbefore⟩ := hread.mp h
    rw [hwrite]
    exact .obj hafter.plain hbefore.plain

theorem readsSides_obj_iff {standing b : Bounds N} {members : List (String × Json)} :
    ReadsSides fits after before standing (.obj members) b ↔
      (∃ given, Json.field? after members = some given ∧
        readStanding? given standing.after = some b.after) ∧
      ∃ given, Json.field? before members = some given ∧
        readStanding? given standing.before = some b.before := by
  simp only [readsSides_iff, ReadsSide, gives_obj_iff, field?_eq_some_iff]
  constructor
  · rintro ⟨⟨honce⟩, ⟨x, hx, hafter⟩, y, hy, hbefore⟩
    exact ⟨⟨x, ⟨honce after (by simp), hx⟩, hafter⟩, y, ⟨honce before (by simp), hy⟩, hbefore⟩
  · rintro ⟨⟨x, ⟨hoa, hx⟩, hafter⟩, y, ⟨hob, hy⟩, hbefore⟩
    refine ⟨.obj ?_, ⟨x, hx, hafter⟩, y, hy, hbefore⟩
    rintro key hkey
    rcases List.mem_pair.mp hkey with rfl | rfl
    · exact hoa
    · exact hob

theorem readsSides_arr_iff {standing b : Bounds N} {items : List Json} :
    ReadsSides fits after before standing (.arr items) b ↔
      fits items.length ∧ readStanding? items[0]? standing.after = some b.after ∧
        readStanding? items[1]? standing.before = some b.before := by
  have hside : ∀ (key : String) (place : Nat) (standing side : Option (List (Spot N))),
      ReadsSide key place standing (.arr items) side ↔
        readStanding? items[place]? standing = some side := by
    intro key place standing side
    simp only [ReadsSide, gives_arr_iff]
    constructor
    · rintro ⟨given, hgiven, h⟩
      rwa [Option.ext hgiven] at h
    · exact fun h => ⟨_, fun content => .rfl, h⟩
  rw [readsSides_iff, hside, hside]
  exact and_congr_left fun _ => ⟨fun h => by cases h with | arr h => exact h, .arr⟩

theorem not_readsSides {standing b : Bounds N} (hobj : ∀ members, j ≠ .obj members)
    (harr : ∀ items, j ≠ .arr items) : ¬ ReadsSides fits after before standing j b := by
  rintro ⟨hshape, -, -⟩
  cases hshape with
  | obj _ => exact hobj _ rfl
  | arr _ => exact harr _ rfl

theorem bind_pair_eq_some_iff {β γ δ : Type} {f : β → γ → δ} {x : Option β} {y : Option γ} {d : δ} :
    (do return f (← x) (← y)) = some d ↔ ∃ a b, x = some a ∧ y = some b ∧ f a b = d := by
  cases x <;> cases y <;> simp

/-- In bounds nothing stands by default. -/
theorem readSide?_eq_some_iff {members : List (String × Json)} :
    readSide? key members = some side ↔
      ∃ given, Json.field? key members = some given ∧ readStanding? given none = some side := by
  rw [readSide?, Option.bind_eq_bind, Option.bind_eq_some_iff]
  refine exists_congr fun given => and_congr_right fun _ => ?_
  cases given <;> rfl

theorem read_bounds_iff {j : Json} {b : Bounds N} :
    read? j = some b ↔ ReadsSides (· = 2) "after" "before" .free j b := by
  obtain ⟨after, before⟩ := b
  cases j with
  | obj members =>
      show (do return (⟨← readSide? "after" members, ← readSide? "before" members⟩ : Bounds N)) =
        some _ ↔ _
      rw [bind_pair_eq_some_iff, readsSides_obj_iff]
      simp [readSide?_eq_some_iff, Bounds.free]
  | arr items =>
      rw [readsSides_arr_iff]
      rcases items with _ | ⟨a, _ | ⟨b, _ | ⟨c, rest⟩⟩⟩
      · simp [read?]
      · simp [read?]
      · show (do return (⟨← read? a, ← read? b⟩ : Bounds N)) = some _ ↔ _
        rw [bind_pair_eq_some_iff]
        simp [readStanding?]
      · simp [read?]
  | _ => exact iff_of_false (by simp [read?]) (not_readsSides (by simp) (by simp))

theorem readPolicy_iff {after before : Option Json} {b : Bounds N} :
    readPolicy? after before = some ⟨b⟩ ↔
      readStanding? after Policy.beforeLast.standing.after = some b.after ∧
        readStanding? before Policy.beforeLast.standing.before = some b.before := by
  obtain ⟨after, before⟩ := b
  refine (bind_pair_eq_some_iff (f := fun a b => (⟨⟨a, b⟩⟩ : Policy N))).trans ?_
  simp

theorem read_policy_iff {j : Json} {b : Bounds N} :
    read? j = some (Policy.mk b) ↔
      ReadsSides (· ≤ 2) "default_after" "default_before" Policy.beforeLast.standing j b := by
  cases j with
  | obj members =>
      show (do
        readPolicy? (← Json.field? "default_after" members)
          (← Json.field? "default_before" members)) = some (Policy.mk b) ↔ _
      rw [readsSides_obj_iff]
      simp only [Option.bind_eq_bind, Option.bind_eq_some_iff, readPolicy_iff]
      constructor
      · rintro ⟨x, hx, y, hy, hafter, hbefore⟩
        exact ⟨⟨x, hx, hafter⟩, y, hy, hbefore⟩
      · rintro ⟨⟨x, hx, hafter⟩, y, hy, hbefore⟩
        exact ⟨x, hx, y, hy, hafter, hbefore⟩
  | arr items =>
      rw [readsSides_arr_iff]
      rcases items with _ | ⟨a, _ | ⟨b, _ | ⟨c, rest⟩⟩⟩
      · refine readPolicy_iff.trans ?_
        simp
      · refine readPolicy_iff.trans ?_
        simp
      · refine readPolicy_iff.trans ?_
        simp
      · simp [read?]
  | _ => exact iff_of_false (by simp [read?]) (not_readsSides (by simp) (by simp))

end Records

theorem spells_bounds : Spells (Bounds N) (BoundsForm N) (PlainBounds N) :=
  spells_sides (fun b => ⟨b, rfl⟩) read_bounds_iff fun _ => rfl

theorem spells_policy : Spells (Policy N) (PolicyForm N) (PlainPolicy N) :=
  spells_sides (fun p => ⟨p.standing, rfl⟩) read_policy_iff fun _ => rfl

instance [FaithfulForm N] : FaithfulForm (Bounds N) := ⟨fun b =>
  read_bounds_iff.mpr (readsSides_obj_iff.mpr
    ⟨⟨_, rfl, read_write b.after⟩, _, rfl, read_write b.before⟩)⟩

instance [FaithfulForm N] : FaithfulForm (Policy N) := ⟨fun p =>
  read_policy_iff.mpr (readsSides_obj_iff.mpr
    ⟨⟨_, rfl, read_write p.standing.after⟩, _, rfl, read_write p.standing.before⟩)⟩

/-- Wherever names are read back, spots, sides, bounds and policies are.  A JSON value is accepted
as a spot, as a side, as bounds or as a policy exactly if it has the form of one.  Whatever is
accepted is written again in its plain form: a spot without its braces, bounds and a policy as an
object with both keys, where a missing key has become null in bounds and what stands by default in a
policy. -/
theorem forms_faithful [FaithfulForm N] :
    ((∀ s : Spot N, read? (write s) = some s) ∧ (∀ s : Side, read? (write s) = some s) ∧
      (∀ b : Bounds N, read? (write b) = some b) ∧ ∀ p : Policy N, read? (write p) = some p) ∧
    ((∀ j, Accepts (Spot N) j ↔ SpotForm N j) ∧
      (∀ j, Accepts Side j ↔ TagForm ["Before", "After"] j) ∧
      (∀ j, Accepts (Bounds N) j ↔ BoundsForm N j) ∧
      ∀ j, Accepts (Policy N) j ↔ PolicyForm N j) ∧
    (∀ j (s : Spot N), read? j = some s → write s = plainSpot N j) ∧
    (∀ j (s : Side), read? j = some s → write s = plainTag j) ∧
    (∀ j (b : Bounds N), read? j = some b → PlainBounds N j (write b)) ∧
    ∀ j (p : Policy N), read? j = some p → PlainPolicy N j (write p) :=
  ⟨⟨read_write, read_write, read_write, read_write⟩,
    ⟨(spells_spot N).accepts_iff, spells_side.accepts_iff, (spells_bounds N).accepts_iff,
      (spells_policy N).accepts_iff⟩,
    fun _ _ => (spells_spot N).plain, fun _ _ => spells_side.plain,
    fun _ _ => (spells_bounds N).plain, fun _ _ => (spells_policy N).plain⟩

/-- A policy with an anchor in braces and a key that means nothing and stands twice.  One side is
missing. -/
def sparsePolicy : Json :=
  .obj
    [("default_after", .arr [.obj [("First", .null)], .obj [("Entry", .str "ingress")]]),
      ("note", .bool true), ("note", .null)]

theorem gives_sparse_after_iff {place : Nat} {side : Json} :
    sparsePolicy.Gives "default_after" place side ↔
      side = .arr [.obj [("First", .null)], .obj [("Entry", .str "ingress")]] := by
  simp [sparsePolicy, gives_obj_iff]

theorem not_gives_sparse_before {place : Nat} {side : Json} :
    ¬ sparsePolicy.Gives "default_before" place side := by
  simp [sparsePolicy, gives_obj_iff]

theorem policyForm_sparse : PolicyForm String sparsePolicy := by
  refine ⟨.obj (by decide), ?_, fun side hside => absurd hside not_gives_sparse_before⟩
  intro side hside
  rw [gives_sparse_after_iff.mp hside]
  refine .spots fun item hitem => ?_
  rcases List.mem_pair.mp hitem with rfl | rfl
  · exact .anchor ⟨"First", List.mem_cons_self, .inr rfl⟩
  · exact .entry ⟨"ingress", rfl⟩

theorem boundsForm_after_iff {content : Json} :
    BoundsForm N (.obj [("after", content)]) ↔ SideForm N content := by
  constructor
  · intro h
    exact h.after content (.member List.mem_cons_self)
  · intro h
    refine ⟨.obj (by simp), ?_, ?_⟩
    · intro side hside
      obtain rfl : side = content := by simpa using gives_obj_iff.mp hside
      exact h
    · intro side hside
      exact absurd (gives_obj_iff.mp hside) (by simp)

/-- Where names are text, the missing side of the policy comes back as the last anchor.  Of objects
with `after` as their only key, one is taken for bounds if it lists spots and refused if it holds a
number; one that holds the key twice is refused whatever it holds. -/
theorem forms_faithful_sparse :
    FaithfulForm String ∧ PolicyForm String sparsePolicy ∧
      (∃ p : Policy String, read? sparsePolicy = some p ∧ read? (write p) = some p ∧
        write p = .obj
          [("default_after", .arr [.str "First", .obj [("Entry", .str "ingress")]]),
            ("default_before", .arr [.str "Last"])]) ∧
      Accepts (Bounds String) (.obj [("after", .arr [.str "Last"])]) ∧
      ¬ Accepts (Bounds String) (.obj [("after", .int 5)]) ∧
      ¬ Accepts (Bounds String) (.obj [("after", .null), ("after", .null)]) := by
  obtain ⟨⟨-, -, -, hback⟩, ⟨-, -, hbounds, hpolicy⟩, -, -, -, hplain⟩ := forms_faithful String
  have hnames : FaithfulForm String := inferInstance
  refine ⟨hnames, policyForm_sparse, ?_, ?_, ?_, ?_⟩
  · obtain ⟨p, hp⟩ := (hpolicy sparsePolicy).mpr policyForm_sparse
    refine ⟨p, hp, hback p, ?_⟩
    have hwritten := hplain sparsePolicy p hp
    generalize write p = written at hwritten
    cases hwritten with
    | obj hafter hbefore =>
        cases hafter with
        | missing hno => exact absurd (gives_sparse_after_iff.mpr rfl) (hno _)
        | given hside =>
            cases hbefore with
            | missing _ => rw [gives_sparse_after_iff.mp hside]; rfl
            | given hside' => exact absurd hside' not_gives_sparse_before
  · refine (hbounds _).mpr ((boundsForm_after_iff String).mpr (.spots fun item hitem => ?_))
    obtain rfl := List.mem_singleton.mp hitem
    exact .anchor ⟨"Last", by simp, .inl rfl⟩
  · intro h
    cases (boundsForm_after_iff String).mp ((hbounds _).mp h)
  · intro h
    cases ((hbounds _).mp h).shape with
    | obj honce => exact absurd (honce "after" List.mem_cons_self) (by decide)

end Lineup
