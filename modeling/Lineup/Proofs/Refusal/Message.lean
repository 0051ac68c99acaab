/-
# Messages tell reasons apart

Names may be any text, the words and signs of a message among them, so it takes an argument that no
two reasons have the same message.  The argument goes by the way a message is put together: names
show where they end (`Legible`), hence so do spots, as an anchor has no quotes, and rows of a
tangle; and neither a list of names nor a list of rows can be carried on by what follows it.

Names between quotes are legible whichever characters are hidden, so the messages about them differ
whatever class of characters counts as unprintable (`message_injective`).
-/
import Lineup.Refusal.Basic
import Lineup.Proofs.Text.Delimited

namespace Lineup

open Text

/-- Labels show where they end, and they open with a quote. -/
structure Legible (N : Type) [Label N] : Prop where
  ends : SelfDelimiting (label : N → List Char)
  opens : ∀ name : N, ∃ rest, label name = '"' :: rest

/-- Labels of strings that show the hidden characters by their code points. -/
abbrev quoting (hidden : Char → Bool) : Label String :=
  ⟨fun name => quotedHiding hidden name.toList⟩

theorem legible_quoting (hidden : Char → Bool) : @Legible String (quoting hidden) := by
  refine @Legible.mk String (quoting hidden) ?_ ?_
  · intro a b r s h
    obtain ⟨hab, hrs⟩ := selfDelimiting_quotedHiding hidden h
    exact ⟨String.toList_inj.mp hab, hrs⟩
  · intro name
    exact ⟨_, rfl⟩

theorem legible_string : Legible String := legible_quoting isHidden

variable {N : Type}

/-- The character with which a spot is shown first. -/
def Spot.sign : Spot N → Char
  | .first => 'F'
  | .last => 'L'
  | .entry _ => '"'

namespace Refusal

variable [Label N]

-- the words are kept whole here: to unfold `text` is to spell them out letter by letter
theorem text_unmet (side : Side) (names : List N) :
    (unmet side names).text =
      "Unsatisfied ".toList ++ side.word ++ " dependencies: ".toList ++
        List.intercalate ", ".toList (names.map label) := rfl

theorem text_tangled (t : Tangle N) :
    (tangled t).text =
      "Implicit ordering cycle: ".toList ++
        List.intercalate "; ".toList (t.rows.map Tangle.rowText) := rfl

theorem text_unknown (name : N) :
    (unknown name).text = "Unknown entry: ".toList ++ label name := rfl

end Refusal

/-- The words for the two sides differ from their first letters on. -/
theorem selfDelimiting_word : SelfDelimiting Side.word := by
  intro s t u v heq
  cases s with
  | before =>
      cases t with
      | before => exact ⟨rfl, List.append_cancel_left heq⟩
      | after => simp [Side.word] at heq
  | after =>
      cases t with
      | before => simp [Side.word] at heq
      | after => exact ⟨rfl, List.append_cancel_left heq⟩

namespace Legible

variable [Label N]

/-! ## Spots and rows of a tangle -/

theorem exists_text (h : Legible N) (s : Spot N) : ∃ rest, s.text = s.sign :: rest := by
  cases s with
  | first => exact ⟨_, rfl⟩
  | last => exact ⟨_, rfl⟩
  | entry name => exact h.opens name

/-- An anchor is told from every name by its first letter, since it has no quotes. -/
theorem selfDelimiting_spot (h : Legible N) : SelfDelimiting (Spot.text : Spot N → List Char) := by
  intro s t u v heq
  have hsign : s.sign = t.sign := by
    obtain ⟨rest, hs⟩ := h.exists_text s
    obtain ⟨rest', ht⟩ := h.exists_text t
    rw [hs, ht] at heq
    exact (List.cons.inj heq).1
  cases s with
  | first =>
      cases t with
      | first => exact ⟨rfl, List.append_cancel_left heq⟩
      | last => simp [Spot.sign] at hsign
      | entry name => simp [Spot.sign] at hsign
  | last =>
      cases t with
      | first => simp [Spot.sign] at hsign
      | last => exact ⟨rfl, List.append_cancel_left heq⟩
      | entry name => simp [Spot.sign] at hsign
  | entry name =>
      cases t with
      | first => simp [Spot.sign] at hsign
      | last => simp [Spot.sign] at hsign
      | entry other =>
          obtain ⟨rfl, huv⟩ := h.ends heq
          exact ⟨rfl, huv⟩

theorem endsRow_bracket (h : Legible N) (rest : List Char) :
    EndsRow (Spot.text : Spot N → List Char) ", ".toList (']' :: rest) := by
  refine endsRow_cons ?_ (by decide) rest
  intro s
  obtain ⟨rest, hs⟩ := h.exists_text s
  exact ⟨s.sign, rest, hs, by cases s <;> simp [Spot.sign]⟩

theorem selfDelimiting_row (h : Legible N) :
    SelfDelimiting (Tangle.rowText : Spot N × List (Spot N) → List Char) := by
  rintro ⟨s, behind⟩ ⟨t, behind'⟩ u v heq
  simp only [Tangle.rowText, List.append_assoc, List.singleton_append] at heq
  obtain ⟨rfl, hrest⟩ := h.selfDelimiting_spot heq
  obtain ⟨rfl, hclose⟩ := h.selfDelimiting_spot.intercalate (h.endsRow_bracket u)
    (h.endsRow_bracket v) (List.append_cancel_left hrest)
  exact ⟨rfl, (List.cons.inj hclose).2⟩

/-! ## Whole messages -/

theorem tangle_text_inj (h : Legible N) {t u : Tangle N} (heq : t.text = u.text) : t = u := by
  have hrow : ∀ row : Spot N × List (Spot N), Tangle.rowText row ≠ [] := by
    intro row
    simp [Tangle.rowText]
  have hrows := h.selfDelimiting_row.intercalate_inj hrow (List.append_cancel_left heq)
  cases t
  cases u
  congr

theorem names_inj (h : Legible N) {names others : List N}
    (heq : List.intercalate ", ".toList (names.map label) =
      List.intercalate ", ".toList (others.map label)) : names = others := by
  refine h.ends.intercalate_inj ?_ heq
  intro name
  obtain ⟨rest, hname⟩ := h.opens name
  simp [hname]

/-- The first words of a message tell its kind, and then what it speaks of. -/
theorem text_inj (h : Legible N) {a b : Refusal N} (heq : a.text = b.text) : a = b := by
  cases a with
  | unmet side names =>
      cases b with
      | unmet other others =>
          simp only [Refusal.text_unmet, List.append_assoc] at heq
          obtain ⟨rfl, hrest⟩ := selfDelimiting_word (List.append_cancel_left heq)
          rw [h.names_inj (List.append_cancel_left hrest)]
      | tangled u => simp [Refusal.text_unmet, Refusal.text_tangled] at heq
      | unknown other => simp [Refusal.text_unmet, Refusal.text_unknown] at heq
  | tangled t =>
      cases b with
      | unmet other others => simp [Refusal.text_unmet, Refusal.text_tangled] at heq
      | tangled u => rw [h.tangle_text_inj heq]
      | unknown other => simp [Refusal.text_tangled, Refusal.text_unknown] at heq
  | unknown name =>
      cases b with
      | unmet other others => simp [Refusal.text_unmet, Refusal.text_unknown] at heq
      | tangled u => simp [Refusal.text_tangled, Refusal.text_unknown] at heq
      | unknown other =>
          rw [Refusal.text_unknown, Refusal.text_unknown] at heq
          rw [h.ends.injective (List.append_cancel_left heq)]

theorem message_inj (h : Legible N) {a b : Refusal N} (heq : a.message = b.message) : a = b :=
  h.text_inj (String.ofList_injective heq)

end Legible

/-- Two reasons to decline that have the same message are the same: they are of one kind, and they
speak of the same side, of the same names in the same order, or of the same tangle, row by row and
spot by spot.  This is so whatever the names are, and it stays so whichever characters are hidden
in them. -/
theorem Refusal.message_injective :
    Function.Injective (Refusal.message : Refusal String → String) ∧
      ∀ hidden : Char → Bool, Function.Injective (@Refusal.message String (quoting hidden)) := by
  constructor
  · intro a b heq
    exact legible_string.message_inj heq
  · intro hidden a b heq
    exact @Legible.message_inj String (quoting hidden) (legible_quoting hidden) a b heq

/-- A name that looks like a list is not mistaken for the names in it. -/
example :
    (Refusal.unmet .after ["a\", \"b"]).message ≠ (Refusal.unmet .after ["a", "b"]).message := by
  decide +kernel

end Lineup
