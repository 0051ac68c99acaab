/-
# Where objects live

Addresses are given out again, so a list that knows an object by its address could take a later
object for it.  That this never happens is a fact about the whole world and is kept by every act
(`Settled`): an object is tracked only under the address where it lives, and of the objects that
hold on to an address, by an owner or by being tracked, there is one.  A new object takes an address
that nothing holds on to, and a list never tracks what is neither owned nor tracked already.

So what is tracked under the address of an owned object is that object (`Settled.locates`).
-/
import Lineup.Proofs.Recency.Objects
import Lineup.Recency.World

namespace Lineup.World

variable {α : Type} {w w' : World α} {r : Recency} {c : Cell α} {a b : Address} {g h : Handle}
  {k n : Nat}

/-- Where an object lives, or lived. -/
def address? (w : World α) (h : Handle) : Option Address := w.cells[h]?.map (·.address)

/-! ## Looking things up -/

theorem owned?_eq_some : w.owned? h = some c ↔ w.cells[h]? = some c ∧ 0 < c.owners := by
  simp [owned?, Option.filter_eq_some_iff]

theorem isAlive_iff : w.isAlive h = true ↔ ∃ c, w.owned? h = some c := by
  simp only [owned?_eq_some]
  unfold isAlive owners
  rw [decide_eq_true_iff]
  cases w.cells[h]? <;> simp

theorem isAlive_eq_false_iff : w.isAlive h = false ↔ w.owned? h = none := by
  rw [← Bool.not_eq_true, isAlive_iff, ← Option.isSome_iff_exists, Option.not_isSome_iff_eq_none]

theorem address?_of_owned (hc : w.owned? h = some c) : w.address? h = some c.address := by
  rw [address?, (owned?_eq_some.mp hc).1, Option.map_some]

theorem owners_of_owned (hc : w.owned? h = some c) : w.owners h = c.owners := by
  rw [owners, (owned?_eq_some.mp hc).1]

theorem isTracked_iff :
    w.isTracked h = true ↔ ∃ (k : Nat) (a : Address), (w.list k).handles[a]? = some h := by
  simp only [isTracked, List.any_eq_true, Prod.exists, beq_iff_eq,
    Std.TreeMap.mem_toList_iff_getElem?_eq_some]
  constructor
  · rintro ⟨k, r, hr, a, g, hg, rfl⟩
    refine ⟨k, a, ?_⟩
    rw [list, hr]
    exact hg
  · rintro ⟨k, a, hh⟩
    rw [list] at hh
    cases hr : w.lists[k]? with
    | none =>
        rw [hr] at hh
        simp [Recency.empty] at hh
    | some r =>
        rw [hr] at hh
        exact ⟨k, r, hr, a, h, hh, rfl⟩

theorem isReserved_iff : w.isReserved h = true ↔
    w.isAlive h = true ∨ ∃ (k : Nat) (a : Address), (w.list k).handles[a]? = some h := by
  rw [isReserved, Bool.or_eq_true, isTracked_iff]

theorem isReserved_of_alive (hh : w.isAlive h = true) : w.isReserved h = true :=
  isReserved_iff.mpr (.inl hh)

theorem isReserved_of_tracked (hh : (w.list k).handles[a]? = some h) : w.isReserved h = true :=
  isReserved_iff.mpr (.inr ⟨k, a, hh⟩)

theorem mem_reserved :
    a ∈ w.reserved ↔ ∃ h, w.isReserved h = true ∧ w.address? h = some a := by
  simp only [reserved, List.mem_filterMap, Prod.exists, List.mem_zipIdx_iff_getElem?, address?,
    Option.ite_none_right_eq_some, Option.map_eq_some_iff]
  constructor
  · rintro ⟨c, h, hc, hh, ha⟩
    exact ⟨h, hh, c, hc, Option.some_inj.mp ha⟩
  · rintro ⟨h, hh, c, hc, rfl⟩
    exact ⟨c, h, hc, hh, rfl⟩

theorem live_eq (w : World α) (k : Nat) : w.live k = (w.list k).objects.filter w.isAlive :=
  Recency.live_eq w.isAlive (w.list k)

theorem isAlive_of_mem_live (hh : h ∈ w.live k) : w.isAlive h = true := by
  rw [live_eq] at hh
  exact (List.mem_filter.mp hh).2

theorem last?_eq (w : World α) (k : Nat) : w.last? k = (w.live k).getLast? :=
  Recency.last?_eq_getLast? w.isAlive (w.list k)

theorem isAlive_of_last? (hh : w.last? k = some h) : w.isAlive h = true :=
  isAlive_of_mem_live (List.mem_of_getLast? (last?_eq w k ▸ hh))

/-! ## The three ways to change a world -/

theorem list_setList (w : World α) (k : Nat) (r : Recency) (j : Nat) :
    (w.setList k r).list j = if j = k then r else w.list j := by
  unfold setList list
  rw [Std.TreeMap.getElem?_insert]
  simp only [Nat.compare_eq_eq, @eq_comm _ k j]
  split <;> rfl

theorem address?_setOwners (w : World α) (h : Handle) (n : Nat) (g : Handle) :
    (w.setOwners h n).address? g = w.address? g := by
  unfold address? setOwners
  rw [List.getElem?_modify]
  cases w.cells[g]? with
  | none => rfl
  | some c => by_cases hgh : h = g <;> simp [hgh]

theorem owners_setOwners (hh : w.isAlive h = true) (n : Nat) (g : Handle) :
    (w.setOwners h n).owners g = if g = h then n else w.owners g := by
  obtain ⟨c, hc⟩ := isAlive_iff.mp hh
  unfold owners setOwners
  rw [List.getElem?_modify]
  rcases eq_or_ne g h with rfl | hgh
  · simp [(owned?_eq_some.mp hc).1]
  · simp only [hgh, hgh.symm, if_false, id_map']

theorem isAlive_of_setOwners (hh : w.isAlive h = true)
    (hg : (w.setOwners h n).isAlive g = true) : w.isAlive g = true := by
  rcases eq_or_ne g h with rfl | hgh
  · exact hh
  · rw [isAlive, owners_setOwners hh, if_neg hgh] at hg
    exact hg

def extend (w : World α) (a : Address) (value : α) : World α :=
  { w with cells := w.cells ++ [⟨a, value, 1⟩] }

theorem address?_lt (ha : w.address? h = some a) : h < w.cells.length := by
  rw [address?, Option.map_eq_some_iff] at ha
  obtain ⟨c, hc, -⟩ := ha
  exact (List.getElem?_eq_some_iff.mp hc).1

theorem isAlive_lt (hh : w.isAlive h = true) : h < w.cells.length := by
  obtain ⟨c, hc⟩ := isAlive_iff.mp hh
  exact address?_lt (address?_of_owned hc)

theorem address?_extend_of_lt (hh : h < w.cells.length) (a : Address) (value : α) :
    (w.extend a value).address? h = w.address? h := by
  rw [address?, extend, List.getElem?_append_left hh, address?]

theorem owners_extend_of_lt (hh : h < w.cells.length) (a : Address) (value : α) :
    (w.extend a value).owners h = w.owners h := by
  unfold owners extend
  rw [List.getElem?_append_left hh]

theorem isAlive_extend_of_lt (hh : h < w.cells.length) (a : Address) (value : α) :
    (w.extend a value).isAlive h = w.isAlive h := by
  rw [isAlive, owners_extend_of_lt hh, isAlive]

theorem address?_extend (w : World α) (a : Address) (value : α) :
    (w.extend a value).address? w.cells.length = some a := by
  simp [address?, extend]

theorem lt_or_eq_of_address?_extend {value : α} (hb : (w.extend a value).address? h = some b) :
    h < w.cells.length ∨ h = w.cells.length := by
  have hlt := address?_lt hb
  rw [extend, List.length_append, List.length_singleton] at hlt
  exact Nat.lt_succ_iff_lt_or_eq.mp hlt

/-! ## What every act keeps -/

/-- Objects are tracked where they live, and an address is held on to by one object. -/
structure Settled (w : World α) : Prop where
  paired : ∀ k, (w.list k).Paired
  housed : ∀ {k : Nat} {a h}, (w.list k).handles[a]? = some h → w.address? h = some a
  apart : ∀ {a g h}, w.isReserved g = true → w.isReserved h = true →
    w.address? g = some a → w.address? h = some a → g = h

theorem settled_empty : (empty : World α).Settled := by
  have hlist : ∀ k, (empty : World α).list k = Recency.empty := by
    intro k
    simp [list, empty]
  refine ⟨?_, ?_, ?_⟩
  · intro k
    rw [hlist]
    exact Recency.paired_empty
  · intro k a h hh
    rw [hlist] at hh
    simp [Recency.empty] at hh
  · intro a g h _ _ hg _
    simp [address?, empty] at hg

theorem Settled.locates (hw : w.Settled) (hc : w.owned? h = some c) (k : Nat) :
    (w.list k).Locates w.isAlive c.address h := by
  intro b g hg
  obtain ⟨htracked, halive⟩ := Recency.living?_eq_some.mp hg
  have hb := hw.housed htracked
  have ha := address?_of_owned hc
  constructor
  · rintro rfl
    have hh := isAlive_iff.mpr ⟨c, hc⟩
    exact hw.apart (isReserved_of_alive halive) (isReserved_of_alive hh) hb ha
  · rintro rfl
    exact Option.some_inj.mp (hb.symm.trans ha)

theorem Settled.held (hw : w.Settled) (hh : (w.list k).handles[a]? = some h) :
    w.isReserved h = true ∧ w.address? h = some a :=
  ⟨isReserved_of_tracked hh, hw.housed hh⟩

/-- Without a new object, reserving no more than before keeps addresses apart. -/
theorem Settled.of_reserved_le (hw : w.Settled) (hsame : ∀ h, w'.address? h = w.address? h)
    (hpaired : ∀ k, (w'.list k).Paired)
    (hhoused : ∀ {k : Nat} {a h}, (w'.list k).handles[a]? = some h → w.address? h = some a)
    (hle : ∀ h, w'.isReserved h = true → w.isReserved h = true) : w'.Settled := by
  refine ⟨hpaired, ?_, ?_⟩
  · intro k a h hh
    rw [hsame]
    exact hhoused hh
  · intro a g h hg hh ha hb
    rw [hsame] at ha hb
    exact hw.apart (hle g hg) (hle h hh) ha hb

theorem Settled.setOwners (hw : w.Settled) (hh : w.isAlive h = true) (n : Nat) :
    (w.setOwners h n).Settled := by
  refine hw.of_reserved_le (address?_setOwners w h n) hw.paired hw.housed ?_
  intro g hg
  rcases isReserved_iff.mp hg with halive | ⟨k, a, htracked⟩
  · exact isReserved_of_alive (isAlive_of_setOwners hh halive)
  · exact isReserved_of_tracked htracked

theorem Settled.setList (hw : w.Settled) (hr : r.Paired)
    (hheld : ∀ {a g}, r.handles[a]? = some g → w.isReserved g = true ∧ w.address? g = some a) :
    (w.setList k r).Settled := by
  have hcases : ∀ {j : Nat} {a g}, ((w.setList k r).list j).handles[a]? = some g →
      w.isReserved g = true ∧ w.address? g = some a := by
    intro j a g hg
    rw [list_setList] at hg
    split at hg
    · exact hheld hg
    · exact hw.held hg
  refine hw.of_reserved_le (fun _ => rfl) ?_ (fun hg => (hcases hg).2) ?_
  · intro j
    rw [list_setList]
    split
    · exact hr
    · exact hw.paired j
  · intro g hg
    rcases isReserved_iff.mp hg with halive | ⟨j, a, htracked⟩
    · exact isReserved_of_alive halive
    · exact (hcases htracked).1

theorem Settled.extend (hw : w.Settled) (ha : a ∉ w.reserved) (value : α) :
    (w.extend a value).Settled := by
  have hold : ∀ {g}, g < w.cells.length → (w.extend a value).isReserved g = true →
      w.isReserved g = true := by
    intro g hlt hg
    rw [isReserved_iff, isAlive_extend_of_lt hlt] at hg
    exact isReserved_iff.mpr hg
  have hfresh : ∀ {g}, g < w.cells.length → (w.extend a value).isReserved g = true →
      (w.extend a value).address? g ≠ some a := by
    intro g hlt hg hga
    rw [address?_extend_of_lt hlt] at hga
    exact ha (mem_reserved.mpr ⟨g, hold hlt hg, hga⟩)
  refine ⟨hw.paired, ?_, ?_⟩
  · intro k b h hh
    have hb := hw.housed hh
    rw [address?_extend_of_lt (address?_lt hb)]
    exact hb
  · intro b g h hg hh hgb hhb
    rcases lt_or_eq_of_address?_extend hgb with hglt | rfl <;>
      rcases lt_or_eq_of_address?_extend hhb with hhlt | rfl
    · rw [address?_extend_of_lt hglt] at hgb
      rw [address?_extend_of_lt hhlt] at hhb
      exact hw.apart (hold hglt hg) (hold hhlt hh) hgb hhb
    · rw [address?_extend, Option.some_inj] at hhb
      exact absurd (hhb ▸ hgb) (hfresh hglt hg)
    · rw [address?_extend, Option.some_inj] at hgb
      exact absurd (hgb ▸ hhb) (hfresh hhlt hh)
    · rfl

/-! ## Acts -/

/-- Whether an act can be carried out: a new object takes an address that nothing holds on to, and
an object that is named has an owner. -/
def admits (w : World α) : Act α → Bool
  | .create a _ => !w.reserved.contains a
  | .share h | .release h | .add _ h | .remove _ h => w.isAlive h
  | .clear _ | .prune _ | .keepLast _ => true

theorem act_create (ha : a ∉ w.reserved) (value : α) :
    w.act (.create a value) = (.done, w.extend a value) :=
  if_neg (fun h => ha (List.contains_iff_mem.mp h))

theorem act_share (hc : w.owned? h = some c) :
    w.act (.share h) = (.done, w.setOwners h (w.owners h + 1)) := by
  simp only [act, hc, owners_of_owned hc]

theorem act_release (hc : w.owned? h = some c) :
    w.act (.release h) = (.done, w.setOwners h (w.owners h - 1)) := by
  simp only [act, hc, owners_of_owned hc]

theorem act_add (hc : w.owned? h = some c) (k : Nat) :
    w.act (.add k h) = (.done, w.setList k ((w.list k).add w.isAlive c.address h)) := by
  simp only [act, hc]

theorem act_remove (hc : w.owned? h = some c) (k : Nat) :
    w.act (.remove k h) = (.truth ((w.list k).contains w.isAlive c.address),
      w.setList k ((w.list k).remove w.isAlive c.address).2) := by
  simp only [act, hc, ← Recency.remove_found]

theorem act_keepLast_some (hh : w.last? k = some h) :
    w.act (.keepLast k) = (.kept (some h), w.setOwners h (w.owners h + 1)) := by
  rw [last?] at hh
  simp only [act, hh]

theorem act_keepLast_none (hh : w.last? k = none) : w.act (.keepLast k) = (.kept none, w) := by
  rw [last?] at hh
  simp only [act, hh]

theorem act_declined {x : Act α} (hx : w.admits x = false) : w.act x = (.declined, w) := by
  cases x with
  | create a value =>
      simp only [admits, Bool.not_eq_false'] at hx
      exact if_pos hx
  | share h => simp only [act, isAlive_eq_false_iff.mp hx]
  | release h => simp only [act, isAlive_eq_false_iff.mp hx]
  | add k h => simp only [act, isAlive_eq_false_iff.mp hx]
  | remove k h => simp only [act, isAlive_eq_false_iff.mp hx]
  | clear k => cases hx
  | prune k => cases hx
  | keepLast k => cases hx

theorem Settled.act (hw : w.Settled) (x : Act α) : (w.act x).2.Settled := by
  cases hx : w.admits x with
  | false =>
      rw [act_declined hx]
      exact hw
  | true =>
    cases x with
    | create a value =>
        have ha : a ∉ w.reserved := by simpa [admits] using hx
        rw [act_create ha]
        exact hw.extend ha value
    | share h =>
        obtain ⟨c, hc⟩ := isAlive_iff.mp hx
        rw [act_share hc]
        exact hw.setOwners hx _
    | release h =>
        obtain ⟨c, hc⟩ := isAlive_iff.mp hx
        rw [act_release hc]
        exact hw.setOwners hx _
    | add k h =>
        obtain ⟨c, hc⟩ := isAlive_iff.mp hx
        have hlocates : (w.list k).Locates w.isAlive c.address h := hw.locates hc k
        rw [act_add hc]
        refine hw.setList ((hw.paired k).add hlocates) ?_
        intro b g hg
        rcases hlocates.of_handles_add hg with hg | ⟨rfl, rfl⟩
        · exact hw.held hg
        · exact ⟨isReserved_of_alive hx, address?_of_owned hc⟩
    | remove k h =>
        obtain ⟨c, hc⟩ := isAlive_iff.mp hx
        rw [act_remove hc]
        refine hw.setList ((hw.paired k).remove _ _) ?_
        intro b g hg
        exact hw.held (Recency.of_handles_remove hg)
    | clear k =>
        refine hw.setList Recency.paired_empty ?_
        intro b g hg
        simp [Recency.empty] at hg
    | prune k =>
        refine hw.setList (hw.paired k).compact ?_
        intro b g hg
        exact hw.held (Recency.of_handles_compact hg)
    | keepLast k =>
        cases hh : w.last? k with
        | none =>
            rw [act_keepLast_none hh]
            exact hw
        | some h =>
            rw [act_keepLast_some hh]
            exact hw.setOwners (isAlive_of_last? hh) _

theorem Settled.after (hw : w.Settled) (acts : List (Act α)) : (w.after acts).Settled := by
  induction acts generalizing w with
  | nil => exact hw
  | cons x acts ih => exact ih (hw.act x)

end Lineup.World
