/-
# Bonds between spots

The bounds of a listing say which spots have to stand ahead of which, and this module says so
without numbers: `Binds s t` holds when the anchors, an `after` target or a `before` target put
`s` ahead of `t`, and `bonds` lists these pairs in the order of their declaration, with repeats.
A target stands for the registered spot that it equals; one that equals none binds nothing.

Where no two entries have equal names, every number of a node denotes one spot and every spot has
one number (`biUnique_denotes`), and the arcs of the listing are its bonds, number for spot
(`arcs_bonds`).  So arcs and paths between numbers are bonds and chains of bonds between spots.
-/
import Mathlib.Logic.Relation
import Mathlib.Data.List.Forall2
import Mathlib.Data.List.Pairwise
import Lineup.Listing.Arcs

namespace Lineup.Listing

open Relation List

variable {N V : Type}

/-- The spots of a listing in the order of their numbers: the anchors, then the entries. -/
def spots (l : Listing N V) : List (Spot N) :=
  .first :: .last :: l.map fun e => .entry e.name

/-- The number `v` is that of the spot `s`. -/
def Denotes (l : Listing N V) (v : Nat) (s : Spot N) : Prop := l.spotAt? v = some s

section Bonds

variable [BEq N]

/-- No two entries have equal names. -/
def Distinct (l : Listing N V) : Prop := l.Pairwise fun a b => (a.name == b.name) = false

/-- The first spot has to stand ahead of the second one. -/
inductive Binds (l : Listing N V) : Spot N → Spot N → Prop
  | anchors : Binds l .first .last
  | after {e : Entry N V} {s t : Spot N} : e ∈ l → t ∈ e.bounds.targets .after →
      s ∈ l.spots → (s == t) = true → Binds l s (.entry e.name)
  | before {e : Entry N V} {s t : Spot N} : e ∈ l → t ∈ e.bounds.targets .before →
      s ∈ l.spots → (s == t) = true → Binds l (.entry e.name) s

/-- The registered spot that a target stands for, none if it names no entry. -/
def resolve? (l : Listing N V) (t : Spot N) : Option (Spot N) := l.spots.find? (· == t)

/-- The bonds that an entry declares, those of its `after` targets first. -/
def entryBonds (l : Listing N V) (e : Entry N V) : List (Spot N × Spot N) :=
  ((e.bounds.targets .after).filterMap l.resolve?).map (·, .entry e.name) ++
    ((e.bounds.targets .before).filterMap l.resolve?).map (.entry e.name, ·)

/-- All bonds in the order of their declaration. -/
def bonds (l : Listing N V) : List (Spot N × Spot N) :=
  (.first, .last) :: l.flatMap l.entryBonds

/-- The ends of the bonds that set out from a spot. -/
def bondsFrom (l : Listing N V) (s : Spot N) : List (Spot N) :=
  (l.bonds.filter (·.1 == s)).map (·.2)

end Bonds

/-! ## Items told apart by a key -/

section Apart

variable {α κ : Type} [BEq κ] [EquivBEq κ] {f : α → κ} {xs : List α}

theorem eq_of_apart (h : xs.Pairwise fun a b => (f a == f b) = false) {a b : α} (ha : a ∈ xs)
    (hb : b ∈ xs) (hab : (f a == f b) = true) : a = b := by
  have hsymm : Std.Symm fun a b => (f a == f b) = false := by
    refine ⟨?_⟩
    intro a b h
    rwa [BEq.comm]
  by_contra hne
  rw [h.forall ha hb hne] at hab
  cases hab

theorem nodup_of_apart (h : xs.Pairwise fun a b => (f a == f b) = false) : xs.Nodup := by
  refine h.imp ?_
  rintro a _ hab rfl
  rw [BEq.rfl] at hab
  cases hab

theorem find?_of_apart (h : xs.Pairwise fun a b => (f a == f b) = false) {a : α} (ha : a ∈ xs)
    {k : κ} (hk : (f a == k) = true) : xs.find? (f · == k) = some a := by
  cases hf : xs.find? (f · == k) with
  | none => exact absurd hk (List.find?_eq_none.mp hf a ha)
  | some b =>
      have hbk : (f b == k) = true := List.find?_some (p := (f · == k)) hf
      rw [eq_of_apart h (List.mem_of_find?_eq_some hf) ha (BEq.trans hbk (BEq.symm hk))]

end Apart

/-! ## Numbers and spots -/

theorem spotAt?_eq (l : Listing N V) (v : Nat) : l.spotAt? v = l.spots[v]? := by
  match v with
  | 0 => rfl
  | 1 => rfl
  | v + 2 => simp [spotAt?, spots]

theorem length_spots (l : Listing N V) : l.spots.length = l.nodeCount := by
  simp [spots]

theorem last_mem_spots (l : Listing N V) : .last ∈ l.spots :=
  List.mem_cons_of_mem _ List.mem_cons_self

theorem entry_mem_spots {l : Listing N V} {e : Entry N V} (h : e ∈ l) : .entry e.name ∈ l.spots :=
  List.mem_cons_of_mem _ (List.mem_cons_of_mem _ (List.mem_map.mpr ⟨e, h, rfl⟩))

theorem denotes_entry {l : Listing N V} {i : Nat} {e : Entry N V} (h : l[i]? = some e) :
    l.Denotes (entryNode i) (.entry e.name) := by
  simp [Denotes, spotAt?, h]

theorem Denotes.lt {l : Listing N V} {v : Nat} {s : Spot N} (h : l.Denotes v s) :
    v < l.nodeCount := by
  rw [Denotes, spotAt?_eq] at h
  rw [← length_spots]
  exact (List.getElem?_eq_some_iff.mp h).1

theorem Denotes.mem {l : Listing N V} {v : Nat} {s : Spot N} (h : l.Denotes v s) :
    s ∈ l.spots := by
  rw [Denotes, spotAt?_eq] at h
  exact List.mem_of_getElem? h

theorem exists_denotes {l : Listing N V} {v : Nat} (h : v < l.nodeCount) :
    ∃ s, l.Denotes v s := by
  rw [← length_spots] at h
  exact ⟨_, (spotAt?_eq l v).trans (List.getElem?_eq_getElem h)⟩

theorem exists_number {l : Listing N V} {s : Spot N} (h : s ∈ l.spots) :
    ∃ v, l.Denotes v s := by
  obtain ⟨v, hv⟩ := List.mem_iff_getElem?.mp h
  exact ⟨v, (spotAt?_eq l v).trans hv⟩

theorem range_spots (l : Listing N V) :
    Forall₂ l.Denotes (List.range l.nodeCount) l.spots := by
  refine List.forall₂_iff_get.mpr ⟨by rw [List.length_range, length_spots], ?_⟩
  intro v hv hv'
  simp only [List.get_eq_getElem, List.getElem_range]
  exact (spotAt?_eq l v).trans (List.getElem?_eq_getElem hv')

theorem rightUnique_denotes (l : Listing N V) : Relator.RightUnique l.Denotes :=
  fun _ _ _ h k => Option.some.inj (h.symm.trans k)

theorem Distinct.spots [BEq N] {l : Listing N V} (h : l.Distinct) :
    l.spots.Pairwise fun s t => (s == t) = false := by
  refine List.pairwise_cons.mpr ⟨?_, List.pairwise_cons.mpr ⟨?_, ?_⟩⟩
  · intro s hs
    rcases List.mem_cons.mp hs with rfl | hs
    · rfl
    · obtain ⟨e, -, rfl⟩ := List.mem_map.mp hs
      rfl
  · intro s hs
    obtain ⟨e, -, rfl⟩ := List.mem_map.mp hs
    rfl
  · exact List.pairwise_map.mpr h

section Distinct

variable [BEq N] [EquivBEq N] {l : Listing N V}

theorem Distinct.number (h : l.Distinct) {u v : Nat} {s t : Spot N} (hu : l.Denotes u s)
    (hv : l.Denotes v t) (hst : (s == t) = true) : u = v := by
  rw [Denotes, spotAt?_eq] at hu hv
  obtain ⟨hu', rfl⟩ := List.getElem?_eq_some_iff.mp hu
  obtain ⟨hv', rfl⟩ := List.getElem?_eq_some_iff.mp hv
  have hpair := List.pairwise_iff_getElem.mp h.spots
  rcases Nat.lt_trichotomy u v with huv | huv | huv
  · simp [hpair u v hu' hv' huv] at hst
  · exact huv
  · rw [BEq.comm] at hst
    simp [hpair v u hv' hu' huv] at hst

theorem Distinct.number_iff (h : l.Distinct) {u v : Nat} {s t : Spot N} (hu : l.Denotes u s)
    (hv : l.Denotes v t) : u = v ↔ (s == t) = true := by
  refine ⟨?_, h.number hu hv⟩
  rintro rfl
  rw [rightUnique_denotes l hu hv]
  exact BEq.rfl

theorem Distinct.biUnique (h : l.Distinct) : Relator.BiUnique l.Denotes :=
  ⟨fun _ _ _ hu hv => h.number hu hv BEq.rfl, rightUnique_denotes l⟩

theorem Distinct.eq_of_beq (h : l.Distinct) {s t : Spot N} (hs : s ∈ l.spots) (ht : t ∈ l.spots)
    (hst : (s == t) = true) : s = t :=
  eq_of_apart (f := id) h.spots hs ht hst

end Distinct

/-! ## Targets

A target that is looked up as a number and one that is looked up as a spot find the same entry. -/

section Targets

variable [BEq N]

theorem position?_getElem {name : N} {l : Listing N V} {i : Nat} (h : l.position? name = some i) :
    ∃ e, l[i]? = some e ∧ (e.name == name) = true := by
  induction l generalizing i with
  | nil => simp [position?] at h
  | cons e l ih =>
      rw [position?] at h
      split at h
      · rename_i j hj
        obtain rfl := Option.some.inj h
        obtain ⟨f, hf, hname⟩ := ih hj
        exact ⟨f, by simpa using hf, hname⟩
      · split at h
        · rename_i hname
          obtain rfl := Option.some.inj h
          exact ⟨e, rfl, hname⟩
        · cases h

theorem node?_denotes {l : Listing N V} {t : Spot N} {v : Nat} (h : l.node? t = some v) :
    ∃ s, l.Denotes v s ∧ (s == t) = true := by
  cases t with
  | first => cases h; exact ⟨.first, rfl, rfl⟩
  | last => cases h; exact ⟨.last, rfl, rfl⟩
  | entry name =>
      obtain ⟨i, hi, rfl⟩ := Option.map_eq_some_iff.mp h
      obtain ⟨e, he, hname⟩ := position?_getElem hi
      exact ⟨.entry e.name, denotes_entry he, hname⟩

theorem node?_eq_none {l : Listing N V} {t : Spot N} (h : l.node? t = none) :
    ∀ s ∈ l.spots, (s == t) = false := by
  cases t with
  | first => cases h
  | last => cases h
  | entry name =>
      intro s hs
      simp only [node?, Option.map_eq_none_iff] at h
      simp only [spots, List.mem_cons, List.mem_map] at hs
      rcases hs with rfl | rfl | ⟨e, he, rfl⟩
      · rfl
      · rfl
      · refine Bool.eq_false_iff.mpr ?_
        intro hname
        have := position?_isSome_iff.mpr ⟨e, he, hname⟩
        simp [h] at this

theorem resolve?_mem {l : Listing N V} {s t : Spot N} (h : l.resolve? t = some s) :
    s ∈ l.spots ∧ (s == t) = true :=
  ⟨List.mem_of_find?_eq_some h, List.find?_some (p := (· == t)) h⟩

variable [EquivBEq N] {l : Listing N V}

theorem Distinct.resolve?_eq (h : l.Distinct) {s t : Spot N} (hs : s ∈ l.spots)
    (hst : (s == t) = true) : l.resolve? t = some s :=
  find?_of_apart (f := id) h.spots hs hst

theorem Distinct.node?_resolve? (h : l.Distinct) (t : Spot N) :
    Option.Rel l.Denotes (l.node? t) (l.resolve? t) := by
  cases hn : l.node? t with
  | none =>
      have hr : l.resolve? t = none :=
        List.find?_eq_none.mpr fun s hs => by simp [node?_eq_none hn s hs]
      rw [hr]
      exact .none
  | some v =>
      obtain ⟨s, hs, hst⟩ := node?_denotes hn
      rw [h.resolve?_eq hs.mem hst]
      exact .some hs

end Targets

/-! ## Arcs and bonds -/

section Arcs

variable [BEq N] [EquivBEq N] {l : Listing N V}

/-- An arc between numbers is shown by the bond between the spots that they denote. -/
def Shows (l : Listing N V) (arc : Nat × Nat) (bond : Spot N × Spot N) : Prop :=
  l.Denotes arc.1 bond.1 ∧ l.Denotes arc.2 bond.2

theorem Distinct.shows_targets (h : l.Distinct) (targets : List (Spot N)) :
    Forall₂ l.Denotes (targets.filterMap l.node?) (targets.filterMap l.resolve?) := by
  refine rel_filterMap (R := Eq) ?_ (List.forall₂_refl targets)
  rintro t _ rfl
  exact h.node?_resolve? t

theorem Distinct.shows_entry (h : l.Distinct) {e : Entry N V} {i : Nat} (he : l[i]? = some e) :
    Forall₂ l.Shows (l.entryArcs e i) (l.entryBonds e) := by
  have hentry := denotes_entry he
  refine rel_append ?_ ?_
  · exact rel_map (fun _ _ hs => ⟨hs, hentry⟩) (h.shows_targets _)
  · exact rel_map (fun _ _ hs => ⟨hentry, hs⟩) (h.shows_targets _)

/-- The arcs of a listing are its bonds, number for spot, in the same order. -/
theorem Distinct.arcs_bonds (h : l.Distinct) : Forall₂ l.Shows l.arcs l.bonds := by
  refine .cons ⟨rfl, rfl⟩ ?_
  have hzip : Forall₂ (fun p e => p.1 = e ∧ l[p.2]? = some e) l.zipIdx l := by
    refine List.forall₂_iff_get.mpr ⟨List.length_zipIdx, ?_⟩
    intro i hi hi'
    simp [hi']
  refine rel_flatMap hzip ?_
  rintro ⟨e, i⟩ _ ⟨rfl, he⟩
  exact h.shows_entry he

theorem Distinct.biUnique_shows (h : l.Distinct) : Relator.BiUnique l.Shows := by
  constructor
  · rintro ⟨a, b⟩ ⟨s, t⟩ ⟨c, d⟩ ⟨ha, hb⟩ ⟨hc, hd⟩
    exact Prod.ext (h.biUnique.1 ha hc) (h.biUnique.1 hb hd)
  · rintro ⟨a, b⟩ ⟨s, t⟩ ⟨x, y⟩ ⟨hs, ht⟩ ⟨hx, hy⟩
    exact Prod.ext (h.biUnique.2 hs hx) (h.biUnique.2 ht hy)

theorem Distinct.mem_bonds_iff (h : l.Distinct) {s t : Spot N} :
    (s, t) ∈ l.bonds ↔ l.Binds s t := by
  simp only [bonds, List.mem_cons, List.mem_flatMap, entryBonds, List.mem_append, List.mem_map,
    List.mem_filterMap]
  constructor
  · rintro (heq | ⟨e, he, ⟨x, ⟨y, hy, hxy⟩, heq⟩ | ⟨x, ⟨y, hy, hxy⟩, heq⟩⟩)
    · cases heq
      exact .anchors
    · cases heq
      exact .after he hy (resolve?_mem hxy).1 (resolve?_mem hxy).2
    · cases heq
      exact .before he hy (resolve?_mem hxy).1 (resolve?_mem hxy).2
  · intro hb
    cases hb with
    | anchors => exact Or.inl rfl
    | after he ht hs hst =>
        exact Or.inr ⟨_, he, Or.inl ⟨s, ⟨_, ht, h.resolve?_eq hs hst⟩, rfl⟩⟩
    | before he ht hs hst =>
        exact Or.inr ⟨_, he, Or.inr ⟨t, ⟨_, ht, h.resolve?_eq hs hst⟩, rfl⟩⟩

theorem Distinct.arc_iff (h : l.Distinct) {u v : Nat} {s t : Spot N} (hu : l.Denotes u s)
    (hv : l.Denotes v t) : (u, v) ∈ l.arcs ↔ l.Binds s t := by
  rw [← h.mem_bonds_iff]
  exact rel_mem h.biUnique_shows ⟨hu, hv⟩ h.arcs_bonds

end Arcs

end Lineup.Listing
