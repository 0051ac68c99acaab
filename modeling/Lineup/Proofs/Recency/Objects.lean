/-
# The objects of a recency list

A recency list keeps an order of addresses and, for every address, a handle.  The two are changed by
separate steps but name the same addresses at all times (`Paired`), so together they are a list of
objects (`objects`), some of which may be gone.  Read that way the operations are plain: clearing
away keeps the objects that are alive, adding an object takes it out and puts it at the end, and
removing it takes it out.

The operations are given an address and mean the object that lives there.  They hit the right one if
no other living object is tracked under that address and the object itself under no other
(`Locates`).  What makes this so is a matter of the world around the list.
-/
import Mathlib.Data.List.Nodup
import Lineup.Recency.Basic

namespace Lineup.Recency

variable {r : Recency} {alive : Handle → Bool} {a b : Address} {g h : Handle}

/-- The tracked objects in their order, those that are gone and were not cleared away included. -/
def objects (r : Recency) : List Handle := r.order.filterMap (r.handles[·]?)

/-- Order and handles name the same addresses, and the order names none twice. -/
structure Paired (r : Recency) : Prop where
  nodup : r.order.Nodup
  mem_order : ∀ {a}, a ∈ r.order ↔ ∃ h, r.handles[a]? = some h

/-- Among the living objects of a list, those under the address `a` are the object `h`. -/
def Locates (r : Recency) (alive : Handle → Bool) (a : Address) (h : Handle) : Prop :=
  ∀ {b g}, r.living? alive b = some g → (b = a ↔ g = h)

theorem living?_eq_some : r.living? alive a = some h ↔ r.handles[a]? = some h ∧ alive h = true := by
  simp [living?, Option.filter_eq_some_iff]

theorem live_eq (alive : Handle → Bool) (r : Recency) :
    r.live alive = r.objects.filter alive := by
  rw [live, objects, List.filter_filterMap]
  rfl

theorem paired_empty : empty.Paired := by
  refine ⟨List.nodup_nil, ?_⟩
  intro a
  simp [empty]

/-! ## Clearing away -/

theorem handles_compact (alive : Handle → Bool) (r : Recency) (a : Address) :
    (r.compact alive).handles[a]? = r.living? alive a :=
  Std.TreeMap.getElem?_filter'

theorem of_handles_compact (h : (r.compact alive).handles[a]? = some g) :
    r.handles[a]? = some g := by
  rw [handles_compact] at h
  exact (living?_eq_some.mp h).1

theorem mem_order_compact : a ∈ (r.compact alive).order ↔
    a ∈ r.order ∧ ∃ h, r.living? alive a = some h := by
  rw [compact, List.mem_filter, Option.isSome_iff_exists]

theorem Paired.mem_of_living (hr : r.Paired) (h : r.living? alive a = some g) : a ∈ r.order :=
  hr.mem_order.mpr ⟨g, (living?_eq_some.mp h).1⟩

theorem Paired.compact (hr : r.Paired) : (r.compact alive).Paired := by
  refine ⟨hr.nodup.filter _, ?_⟩
  intro a
  rw [mem_order_compact, handles_compact]
  constructor
  · rintro ⟨-, hliving⟩
    exact hliving
  · rintro ⟨h, hliving⟩
    exact ⟨hr.mem_of_living hliving, h, hliving⟩

theorem objects_compact (alive : Handle → Bool) (r : Recency) :
    (r.compact alive).objects = r.objects.filter alive := by
  rw [← live_eq, live, objects, Recency.compact, List.filterMap_filter]
  refine List.filterMap_congr ?_
  intro a _
  change (if _ then (r.compact alive).handles[a]? else none) = _
  rw [handles_compact]
  cases r.living? alive a <;> rfl

/-! ## Adding and removing -/

theorem contains_handles_iff : r.handles.contains a = true ↔ ∃ h, r.handles[a]? = some h := by
  rw [Std.TreeMap.contains_eq_isSome_getElem?, Option.isSome_iff_exists]

theorem Paired.order_without (hr : r.Paired) (h : ¬ r.handles.contains a = true) :
    r.order.filter (· != a) = r.order := by
  rw [List.filter_eq_self]
  intro b hb
  rw [bne_iff_ne]
  rintro rfl
  exact h (contains_handles_iff.mpr (hr.mem_order.mp hb))

theorem Paired.order_add (hr : r.Paired) (alive : Handle → Bool) (a : Address) (h : Handle) :
    (r.add alive a h).order = (r.compact alive).order.filter (· != a) ++ [a] := by
  unfold Recency.add
  dsimp only
  split
  · rfl
  · rename_i hnew
    rw [hr.compact.order_without hnew]

theorem Locates.handles_add (hh : r.Locates alive a h) (b : Address) :
    (r.add alive a h).handles[b]? =
      if b = a then some h else (r.compact alive).handles[b]? := by
  unfold Recency.add
  dsimp only
  split
  · rename_i hold
    split
    · rename_i hab
      subst hab
      obtain ⟨g, hg⟩ := contains_handles_iff.mp hold
      rw [handles_compact] at hg
      -- the address keeps its handle, which is that of the object located there
      change (r.compact alive).handles[b]? = some h
      rw [handles_compact, hg, (hh hg).mp rfl]
    · rfl
  · rw [Std.TreeMap.getElem?_insert]
    simp only [Nat.compare_eq_eq, @eq_comm _ a b]

theorem Locates.of_handles_add (hh : r.Locates alive a h)
    (hg : (r.add alive a h).handles[b]? = some g) :
    r.handles[b]? = some g ∨ (b = a ∧ g = h) := by
  rw [hh.handles_add] at hg
  split at hg
  · exact .inr ⟨‹b = a›, (Option.some_inj.mp hg).symm⟩
  · exact .inl (of_handles_compact hg)

theorem Paired.order_remove (hr : r.Paired) (alive : Handle → Bool) (a : Address) :
    (r.remove alive a).2.order = (r.compact alive).order.filter (· != a) := by
  unfold Recency.remove
  dsimp only
  split
  · rfl
  · rename_i hnew
    exact (hr.compact.order_without hnew).symm

theorem handles_remove (alive : Handle → Bool) (r : Recency) (a b : Address) :
    (r.remove alive a).2.handles[b]? =
      if b = a then none else (r.compact alive).handles[b]? := by
  unfold Recency.remove
  dsimp only
  split
  · rw [Std.TreeMap.getElem?_erase]
    simp only [Nat.compare_eq_eq, @eq_comm _ a b]
  · rename_i hnew
    split
    · rename_i hab
      subst hab
      exact Option.eq_none_iff_forall_ne_some.mpr
        (fun h hh => hnew (contains_handles_iff.mpr ⟨h, hh⟩))
    · rfl

theorem of_handles_remove (hg : (r.remove alive a).2.handles[b]? = some g) :
    r.handles[b]? = some g := by
  rw [handles_remove] at hg
  split at hg
  · cases hg
  · exact of_handles_compact hg

theorem Paired.add (hr : r.Paired) (hh : r.Locates alive a h) : (r.add alive a h).Paired := by
  constructor
  · rw [hr.order_add, List.nodup_append]
    refine ⟨hr.compact.nodup.filter _, List.nodup_singleton a, ?_⟩
    rintro b hb c hc rfl
    rw [List.mem_singleton] at hc
    subst hc
    simpa using (List.mem_filter.mp hb).2
  · intro b
    rw [hr.order_add, hh.handles_add, List.mem_append, List.mem_filter, List.mem_singleton,
      bne_iff_ne, hr.compact.mem_order]
    split <;> simp_all

theorem Paired.remove (hr : r.Paired) (alive : Handle → Bool) (a : Address) :
    (r.remove alive a).2.Paired := by
  constructor
  · rw [hr.order_remove]
    exact hr.compact.nodup.filter _
  · intro b
    rw [hr.order_remove, handles_remove, List.mem_filter, bne_iff_ne, hr.compact.mem_order]
    split <;> simp_all

theorem Locates.objects_without (hh : r.Locates alive a h) :
    ((r.compact alive).order.filter (· != a)).filterMap ((r.compact alive).handles[·]?) =
      (r.objects.filter alive).filter (· != h) := by
  rw [← objects_compact, objects, List.filter_filterMap, List.filterMap_filter]
  refine List.filterMap_congr ?_
  intro b _
  rw [handles_compact]
  cases hb : r.living? alive b with
  | none => split <;> rfl
  | some g =>
      have hmiss : (b != a) = (g != h) := by
        rw [Bool.eq_iff_iff, bne_iff_ne, bne_iff_ne]
        exact not_congr (hh hb)
      rw [hmiss]
      rfl

theorem Paired.objects_add (hr : r.Paired) (hh : r.Locates alive a h) :
    (r.add alive a h).objects = (r.objects.filter alive).filter (· != h) ++ [h] := by
  have hkept : ((r.compact alive).order.filter (· != a)).filterMap
        ((r.add alive a h).handles[·]?) =
      ((r.compact alive).order.filter (· != a)).filterMap ((r.compact alive).handles[·]?) := by
    refine List.filterMap_congr ?_
    intro b hb
    have hba : b ≠ a := bne_iff_ne.mp (List.mem_filter.mp hb).2
    rw [hh.handles_add, if_neg hba]
  have hlast : (r.add alive a h).handles[a]? = some h := by
    rw [hh.handles_add, if_pos rfl]
  rw [objects, hr.order_add, List.filterMap_append, hkept, hh.objects_without]
  simp [hlast]

theorem Paired.objects_remove (hr : r.Paired) (hh : r.Locates alive a h) :
    (r.remove alive a).2.objects = (r.objects.filter alive).filter (· != h) := by
  rw [objects, hr.order_remove, ← hh.objects_without]
  refine List.filterMap_congr ?_
  intro b hb
  have hba : b ≠ a := bne_iff_ne.mp (List.mem_filter.mp hb).2
  rw [handles_remove, if_neg hba]

theorem Paired.contains_iff (hr : r.Paired) (hh : r.Locates alive a h) :
    r.contains alive a = true ↔ h ∈ r.live alive := by
  rw [contains, Option.isSome_iff_exists, live, List.mem_filterMap]
  constructor
  · rintro ⟨g, hg⟩
    have hgh := (hh hg).mp rfl
    exact ⟨a, hr.mem_of_living hg, hgh ▸ hg⟩
  · rintro ⟨b, -, hb⟩
    have hba := (hh hb).mpr rfl
    exact ⟨h, hba ▸ hb⟩

theorem remove_found (alive : Handle → Bool) (r : Recency) (a : Address) :
    (r.remove alive a).1 = r.contains alive a := by
  unfold Recency.remove contains
  dsimp only
  rw [← handles_compact, ← Std.TreeMap.contains_eq_isSome_getElem?]
  cases (r.compact alive).handles.contains a <;> rfl

end Lineup.Recency
