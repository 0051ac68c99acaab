/-
# Texts that show where they end

Running text puts one thing behind another, so what it says is clear only if each thing shows where
it ends.  A way of writing is `SelfDelimiting` when a text that begins with something written, and
goes on in any way, tells both what was written and how it goes on.

Names between quotes are written so, whichever characters are shown by their code points
(`selfDelimiting_quotedHiding`): a quote inside is written with a backslash ahead of it, a backslash
with another one, and a code point ends at its brace.  A row of such things with a separator between
them is told apart as well, provided that what follows the row begins neither like an item nor like
the separator (`SelfDelimiting.intercalate`).
-/
import Mathlib.Data.List.Basic
import Lineup.Name.Label

namespace Lineup.Text

variable {α : Type} {f : α → List Char}

/-- Of a text that begins with something written it can be told what that is and what follows. -/
def SelfDelimiting (f : α → List Char) : Prop :=
  ∀ ⦃a b : α⦄ ⦃r s : List Char⦄, f a ++ r = f b ++ s → a = b ∧ r = s

/-- A text does not begin with anything written. -/
def Stops (f : α → List Char) (r : List Char) : Prop :=
  ∀ a s, r ≠ f a ++ s

/-- A text does not carry on a row: it begins neither with an item nor with a separator and an
item. -/
structure EndsRow (f : α → List Char) (sep r : List Char) : Prop where
  item : Stops f r
  next : Stops (sep ++ f ·) r

theorem stops_nil (h : ∀ a, f a ≠ []) : Stops f [] := by
  intro a s heq
  exact h a (List.append_eq_nil_iff.mp heq.symm).1

theorem stops_cons {c : Char} (h : ∀ a, ∃ d t, f a = d :: t ∧ d ≠ c) (r : List Char) :
    Stops f (c :: r) := by
  intro a s heq
  obtain ⟨d, t, hft, hdc⟩ := h a
  rw [hft, List.cons_append] at heq
  exact hdc (List.cons.inj heq).1.symm

theorem endsRow_nil {sep : List Char} (h : ∀ a, f a ≠ []) : EndsRow f sep [] := by
  refine ⟨stops_nil h, stops_nil ?_⟩
  intro a heq
  exact h a (List.append_eq_nil_iff.mp heq).2

theorem endsRow_cons {sep : List Char} {c d : Char} (h : ∀ a, ∃ d t, f a = d :: t ∧ d ≠ c)
    (hdc : d ≠ c) (r : List Char) : EndsRow f (d :: sep) (c :: r) :=
  ⟨stops_cons h r, stops_cons (fun a => ⟨d, sep ++ f a, rfl, hdc⟩) r⟩

theorem intercalate_cons (sep x : List Char) (xs : List (List Char)) :
    sep.intercalate (x :: xs) = x ++ xs.flatMap (sep ++ ·) := by
  induction xs generalizing x with
  | nil => simp
  | cons y ys ih =>
      rw [List.intercalate_cons_cons, ih, List.flatMap_cons, List.append_assoc, List.append_assoc]

namespace SelfDelimiting

theorem injective (h : SelfDelimiting f) : Function.Injective f := by
  intro a b hab
  have happ : f a ++ [] = f b ++ [] := by rw [hab]
  exact (h happ).1

theorem behind (h : SelfDelimiting f) (front : List Char) : SelfDelimiting (front ++ f ·) := by
  intro a b r s heq
  simp only [List.append_assoc] at heq
  exact h (List.append_cancel_left heq)

theorem flatMap (h : SelfDelimiting f) {xs ys : List α} {r s : List Char} (hr : Stops f r)
    (hs : Stops f s) (heq : xs.flatMap f ++ r = ys.flatMap f ++ s) : xs = ys ∧ r = s := by
  induction xs generalizing ys with
  | nil =>
      cases ys with
      | nil => exact ⟨rfl, heq⟩
      | cons y ys =>
          rw [List.flatMap_cons, List.append_assoc] at heq
          exact absurd heq (hr y _)
  | cons x xs ih =>
      cases ys with
      | nil =>
          rw [List.flatMap_cons, List.append_assoc] at heq
          exact absurd heq.symm (hs x _)
      | cons y ys =>
          simp only [List.flatMap_cons, List.append_assoc] at heq
          obtain ⟨rfl, hrest⟩ := h heq
          obtain ⟨rfl, hrs⟩ := ih hrest
          exact ⟨rfl, hrs⟩

theorem intercalate (h : SelfDelimiting f) {sep r s : List Char} {xs ys : List α}
    (hr : EndsRow f sep r) (hs : EndsRow f sep s)
    (heq : sep.intercalate (xs.map f) ++ r = sep.intercalate (ys.map f) ++ s) :
    xs = ys ∧ r = s := by
  cases xs with
  | nil =>
      cases ys with
      | nil => exact ⟨rfl, heq⟩
      | cons y ys =>
          rw [List.map_cons, intercalate_cons, List.append_assoc] at heq
          exact absurd heq (hr.item y _)
  | cons x xs =>
      cases ys with
      | nil =>
          rw [List.map_cons, intercalate_cons, List.append_assoc] at heq
          exact absurd heq.symm (hs.item x _)
      | cons y ys =>
          simp only [List.map_cons, intercalate_cons, List.append_assoc, List.flatMap_map] at heq
          obtain ⟨rfl, hrest⟩ := h heq
          obtain ⟨rfl, hrs⟩ := (h.behind sep).flatMap hr.next hs.next hrest
          exact ⟨rfl, hrs⟩

theorem intercalate_inj (h : SelfDelimiting f) (hne : ∀ a, f a ≠ []) {sep : List Char}
    {xs ys : List α} (heq : sep.intercalate (xs.map f) = sep.intercalate (ys.map f)) :
    xs = ys := by
  have happ : sep.intercalate (xs.map f) ++ [] = sep.intercalate (ys.map f) ++ [] := by rw [heq]
  exact (h.intercalate (endsRow_nil hne) (endsRow_nil hne) happ).1

end SelfDelimiting

/-! ## Code points -/

theorem mem_toDigits {n : Nat} {c : Char} (h : c ∈ Nat.toDigits 16 n) :
    ∃ d < 16, c = Nat.digitChar d := by
  induction n using Nat.strongRecOn with
  | ind n ih =>
      by_cases hn : n < 16
      · rw [Nat.toDigits_of_lt_base hn, List.mem_singleton] at h
        exact ⟨n, hn, h⟩
      · have hle : 16 ≤ n := Nat.le_of_not_lt hn
        rw [Nat.toDigits_of_base_le (by decide) hle, List.mem_append, List.mem_singleton] at h
        rcases h with h | h
        · exact ih (n / 16) (Nat.div_lt_self (by omega) (by decide)) h
        · exact ⟨n % 16, Nat.mod_lt n (by decide), h⟩

theorem digitChar_inj : ∀ {d : Nat}, d < 16 → ∀ {e : Nat}, e < 16 →
    Nat.digitChar d = Nat.digitChar e → d = e := by
  decide

theorem brace_not_mem_toDigits (n : Nat) : '}' ∉ Nat.toDigits 16 n := by
  have hdigit : ∀ d < 16, '}' ≠ Nat.digitChar d := by decide
  intro h
  obtain ⟨d, hd, heq⟩ := mem_toDigits h
  exact hdigit d hd heq

theorem toDigits_ne_of_lt {m n : Nat} (hm : m < 16) (hn : 16 ≤ n) :
    Nat.toDigits 16 m ≠ Nat.toDigits 16 n := by
  intro h
  rw [Nat.toDigits_of_lt_base hm, Nat.toDigits_of_base_le (by decide) hn] at h
  have hlen := congrArg List.length h
  have hpos := List.length_pos_of_ne_nil (@Nat.toDigits_ne_nil (n / 16) 16)
  simp only [List.length_append, List.length_singleton] at hlen
  omega

theorem toDigits_injective : Function.Injective (Nat.toDigits 16) := by
  intro m n h
  induction m using Nat.strongRecOn generalizing n with
  | ind m ih =>
      rcases Nat.lt_or_ge m 16 with hm | hm <;> rcases Nat.lt_or_ge n 16 with hn | hn
      · rw [Nat.toDigits_of_lt_base hm, Nat.toDigits_of_lt_base hn] at h
        exact digitChar_inj hm hn (List.singleton_inj.mp h)
      · exact absurd h (toDigits_ne_of_lt hm hn)
      · exact absurd h.symm (toDigits_ne_of_lt hn hm)
      · rw [Nat.toDigits_of_base_le (by decide) hm, Nat.toDigits_of_base_le (by decide) hn] at h
        obtain ⟨hquot, hrem⟩ := List.append_inj' h rfl
        have hdiv := ih (m / 16) (Nat.div_lt_self (by omega) (by decide)) hquot
        have hmod := digitChar_inj (Nat.mod_lt m (by decide)) (Nat.mod_lt n (by decide))
          (List.singleton_inj.mp hrem)
        omega

/-- A text that ends at a character which it does not hold is told apart from what follows. -/
theorem eq_of_closed {c : Char} {t u r s : List Char} (ht : c ∉ t) (hu : c ∉ u)
    (h : t ++ c :: r = u ++ c :: s) : t = u ∧ r = s := by
  induction t generalizing u with
  | nil =>
      cases u with
      | nil => exact ⟨rfl, (List.cons.inj h).2⟩
      | cons d u => exact absurd (List.cons.inj h).1 (List.ne_of_not_mem_cons hu)
  | cons d t ih =>
      cases u with
      | nil => exact absurd (List.cons.inj h).1.symm (List.ne_of_not_mem_cons ht)
      | cons e u =>
          obtain ⟨rfl, hrest⟩ := List.cons.inj h
          obtain ⟨rfl, hrs⟩ :=
            ih (List.not_mem_of_not_mem_cons ht) (List.not_mem_of_not_mem_cons hu) hrest
          exact ⟨rfl, hrs⟩

theorem selfDelimiting_codePoint : SelfDelimiting codePoint := by
  intro c d r s h
  simp only [codePoint, List.cons_append, List.append_assoc, List.cons.injEq, true_and,
    List.nil_append] at h
  obtain ⟨hdigits, hrs⟩ := eq_of_closed (brace_not_mem_toDigits _) (brace_not_mem_toDigits _) h
  exact ⟨Char.toNat_inj.mp (toDigits_injective hdigits), hrs⟩

/-! ## Quoted text

Which characters are hidden makes no difference here, so it is left open; `quoted` hides those of
`isHidden`. -/

/-- One character as it stands between quotes, shown by its code point if it is hidden. -/
def spelled (hidden : Char → Bool) (c : Char) : List Char :=
  match shortEscape? c with
  | some letter => ['\\', letter]
  | none => if hidden c then codePoint c else [c]

/-- A text between double quotes, its hidden characters shown by their code points. -/
def quotedHiding (hidden : Char → Bool) (text : List Char) : List Char :=
  '"' :: text.flatMap (spelled hidden) ++ ['"']

/-- The character that a letter behind a backslash stands for. -/
def ofEscape : Char → Char
  | 'n' => '\n'
  | 'r' => '\r'
  | 't' => '\t'
  | '0' => '\x00'
  | c => c

theorem ofEscape_of_shortEscape? {c letter : Char} (h : shortEscape? c = some letter) :
    ofEscape letter = c := by
  unfold shortEscape? at h
  split at h <;> cases h <;> rfl

theorem shortEscape?_ne_u (c : Char) : shortEscape? c ≠ some 'u' := by
  intro h
  obtain rfl : 'u' = c := ofEscape_of_shortEscape? h
  exact absurd h (by decide)

theorem spelled_cases (hidden : Char → Bool) (c : Char) :
    (∃ letter, shortEscape? c = some letter ∧ spelled hidden c = ['\\', letter]) ∨
      spelled hidden c = codePoint c ∨ (c ≠ '\\' ∧ c ≠ '"' ∧ spelled hidden c = [c]) := by
  cases h : shortEscape? c with
  | some letter => exact .inl ⟨letter, rfl, by simp only [spelled, h]⟩
  | none =>
      have hslash : c ≠ '\\' := by rintro rfl; cases h
      have hquote : c ≠ '"' := by rintro rfl; cases h
      cases hc : hidden c with
      | true => exact .inr (.inl (by simp only [spelled, h, hc, if_true]))
      | false => exact .inr (.inr ⟨hslash, hquote, by simp [spelled, h, hc]⟩)

theorem selfDelimiting_spelled (hidden : Char → Bool) : SelfDelimiting (spelled hidden) := by
  intro c d r s h
  -- a short escape, a code point or the character itself, for either of the two
  rcases spelled_cases hidden c with ⟨a, ha, hc⟩ | hc | ⟨hslash, -, hc⟩ <;>
    rcases spelled_cases hidden d with ⟨b, hb, hd⟩ | hd | ⟨hslash', -, hd⟩ <;>
    rw [hc, hd] at h
  · obtain ⟨rfl, rfl⟩ : a = b ∧ r = s := by simpa using h
    exact ⟨(ofEscape_of_shortEscape? ha).symm.trans (ofEscape_of_shortEscape? hb), rfl⟩
  · obtain ⟨rfl, -⟩ : a = 'u' ∧ _ := by simpa [codePoint] using h
    exact absurd ha (shortEscape?_ne_u c)
  · exact absurd (List.cons.inj h).1.symm hslash'
  · obtain ⟨rfl, -⟩ : 'u' = b ∧ _ := by simpa [codePoint] using h
    exact absurd hb (shortEscape?_ne_u d)
  · exact selfDelimiting_codePoint h
  · exact absurd (List.cons.inj h).1.symm hslash'
  · exact absurd (List.cons.inj h).1 hslash
  · exact absurd (List.cons.inj h).1 hslash
  · simpa using h

theorem spelled_head (hidden : Char → Bool) (c : Char) :
    ∃ d t, spelled hidden c = d :: t ∧ d ≠ '"' := by
  rcases spelled_cases hidden c with ⟨letter, -, hc⟩ | hc | ⟨-, hquote, hc⟩
  · exact ⟨'\\', [letter], hc, by decide⟩
  · exact ⟨'\\', _, hc, by decide⟩
  · exact ⟨c, [], hc, hquote⟩

/-- A text between quotes ends at its closing quote, whatever it holds and whatever follows. -/
theorem selfDelimiting_quotedHiding (hidden : Char → Bool) :
    SelfDelimiting (quotedHiding hidden) := by
  intro a b r s h
  simp only [quotedHiding, List.cons_append, List.append_assoc, List.nil_append, List.cons.injEq,
    true_and] at h
  obtain ⟨rfl, hrs⟩ := (selfDelimiting_spelled hidden).flatMap
    (stops_cons (spelled_head hidden) r) (stops_cons (spelled_head hidden) s) h
  exact ⟨rfl, (List.cons.inj hrs).2⟩

end Lineup.Text
