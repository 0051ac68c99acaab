/-
# Entries that stand aside

An entry stands aside if it asks for nothing ahead of it, nothing but the last anchor stands behind
it, and no other entry names it (`Aside`).  Without it a listing has the same bonds but for those
that set out from the entry, all of which end at the last anchor (`Aside.bonds_without`).  So the
same entries are wanting, and the same circles are closed.

If nothing stands after the last anchor, then neither the anchor nor the entry leads to any other
spot.  With both of them left out of sight, the network of the listing and that of the listing
without the entry are seen alike, though their nodes have other numbers (`Aside.outline_eq`).
-/
import Mathlib.Data.List.Find
import Lineup.Proofs.Listing.Outline
import Lineup.Proofs.Listing.Objections

namespace Lineup.Listing

open Relation

variable {N V : Type} [BEq N]

def without (l : Listing N V) (name : N) : Listing N V := l.filter fun e => !(e.name == name)

/-- An entry whose bonds, if it has any, all lead to the last anchor, and which no other entry
names. -/
structure Aside (l : Listing N V) (d : Entry N V) : Prop where
  after : d.bounds.declares .after = false
  before : ∀ t ∈ d.bounds.targets .before, ∀ s ∈ l.spots, (s == t) = true → s = .last
  last : d.bounds.declares .before = true → .last ∈ d.bounds.targets .before
  unnamed : ∀ e ∈ l, (e.name == d.name) = false → ∀ side, ∀ t ∈ e.bounds.targets side,
    (Spot.entry d.name == t) = false

/-- The spots that are left when the last anchor and the place of an entry are out of sight. -/
def rest (d : Entry N V) (s : Spot N) : Bool := !(s == .last) && !(s == .entry d.name)

variable {l : Listing N V} {d e : Entry N V} {s t : Spot N}

theorem Distinct.without (hl : l.Distinct) (name : N) : (l.without name).Distinct :=
  List.Pairwise.filter _ hl

theorem spots_without (l : Listing N V) (name : N) :
    (l.without name).spots = l.spots.filter fun s => !(s == .entry name) := by
  rw [spots, spots, List.filter_cons_of_pos rfl, List.filter_cons_of_pos rfl, List.filter_map,
    without]
  rfl

theorem eq_last_of_beq (h : (s == .last) = true) : s = .last := by
  cases s with
  | first => cases h
  | last => rfl
  | entry name => cases h

theorem not_binds_last (hopen : ∀ e ∈ l, .last ∉ e.bounds.targets .after) :
    ¬ l.Binds .last t := by
  intro hlast
  cases hlast with
  | @after e _ t he ht _ hst =>
      have hlast : t = .last := by
        cases t with
        | first => cases hst
        | last => rfl
        | entry name => cases hst
      exact hopen e he (hlast ▸ ht)

theorem flatMap_filter_eq {α β : Type} {p : α → Bool} {f k : α → List β} {xs : List α}
    (hkept : ∀ x ∈ xs, p x = true → f x = k x) (hlost : ∀ x ∈ xs, p x = false → k x = []) :
    (xs.filter p).flatMap f = xs.flatMap k := by
  induction xs with
  | nil => rfl
  | cons x xs ih =>
      obtain ⟨hkept, hkepts⟩ := List.forall_mem_cons.mp hkept
      obtain ⟨hlost, hlosts⟩ := List.forall_mem_cons.mp hlost
      rw [List.flatMap_cons, ← ih hkepts hlosts]
      cases hp : p x with
      | true => rw [List.filter_cons_of_pos hp, List.flatMap_cons, hkept hp]
      | false => rw [List.filter_cons_of_neg (by simp [hp]), hlost hp, List.nil_append]

namespace Aside

theorem targets_after (h : l.Aside d) : d.bounds.targets .after = [] := by
  have hnone : d.bounds.on .after = none :=
    Option.isNone_iff_eq_none.mp (Option.isSome_eq_false_iff.mp h.after)
  rw [Bounds.targets, hnone, Option.getD_none]

/-- The entry is never wanting: it asks for something behind it only if the last anchor is there. -/
theorem not_wanting (h : l.Aside d) (hd : d ∈ l) (side : Side) : d ∉ l.wanting side := by
  intro hwant
  obtain ⟨-, hdeclares, hunmet⟩ := mem_wanting.mp hwant
  cases side with
  | before =>
      exact hunmet ⟨.last, .before hd (h.last hdeclares) (last_mem_spots l) rfl⟩
  | after =>
      rw [h.after] at hdeclares
      cases hdeclares

variable [EquivBEq N]

/-! ## Bonds at the entry -/

theorem target_ne (h : l.Aside d) (hl : l.Distinct) (hd : d ∈ l) (he : e ∈ l) {side : Side}
    (ht : t ∈ e.bounds.targets side) : (Spot.entry d.name == t) = false := by
  cases hname : e.name == d.name with
  | false => exact h.unnamed e he hname side t ht
  | true =>
      obtain rfl := eq_of_apart hl he hd hname
      cases side with
      | after =>
          rw [h.targets_after] at ht
          exact absurd ht List.not_mem_nil
      | before =>
          refine Bool.eq_false_iff.mpr ?_
          intro hself
          cases h.before t ht _ (entry_mem_spots hd) hself

theorem binds_from (h : l.Aside d) (hl : l.Distinct) (hd : d ∈ l)
    (hdt : l.Binds (.entry d.name) t) : t = .last := by
  generalize hstart : Spot.entry d.name = start at hdt
  cases hdt with
  | anchors => cases hstart
  | after he ht _ hst =>
      rw [← hstart, h.target_ne hl hd he ht] at hst
      cases hst
  | before he ht hs hst =>
      have hname : d.name = _ := Spot.entry.inj hstart
      obtain rfl := eq_of_apart hl hd he (hname ▸ BEq.rfl)
      exact h.before _ ht _ hs hst

theorem not_binds_to (h : l.Aside d) (hl : l.Distinct) (hd : d ∈ l) :
    ¬ l.Binds s (.entry d.name) := by
  intro hsd
  generalize hgoal : Spot.entry d.name = goal at hsd
  cases hsd with
  | anchors => cases hgoal
  | after he ht _ _ =>
      have hname : d.name = _ := Spot.entry.inj hgoal
      obtain rfl := eq_of_apart hl hd he (hname ▸ BEq.rfl)
      rw [h.targets_after] at ht
      exact List.not_mem_nil ht
  | before he ht _ hst =>
      rw [← hgoal, h.target_ne hl hd he ht] at hst
      cases hst

/-! ## The listing without the entry -/

theorem spot_ne (h : l.Aside d) (hl : l.Distinct) (hd : d ∈ l) (he : e ∈ l) {side : Side}
    (ht : t ∈ e.bounds.targets side) (hst : (s == t) = true) : (s == .entry d.name) = false := by
  refine Bool.eq_false_iff.mpr ?_
  intro hsd
  have hdt : (Spot.entry d.name == t) = true := BEq.trans (BEq.symm hsd) hst
  rw [h.target_ne hl hd he ht] at hdt
  cases hdt

theorem entryBonds_without (h : l.Aside d) (hl : l.Distinct) (hd : d ∈ l) (he : e ∈ l) :
    (l.without d.name).entryBonds e = l.entryBonds e := by
  have hresolve : ∀ side, (e.bounds.targets side).filterMap (l.without d.name).resolve? =
      (e.bounds.targets side).filterMap l.resolve? := by
    intro side
    refine List.filterMap_congr fun t ht => ?_
    rw [resolve?, resolve?, spots_without, List.find?_filter]
    refine List.find?_congr fun s _ => ?_
    cases hst : s == t with
    | true => simp [h.spot_ne hl hd he ht hst]
    | false => simp
  rw [entryBonds, entryBonds, hresolve, hresolve]

theorem start_ne (h : l.Aside d) (hl : l.Distinct) (hd : d ∈ l) (he : e ∈ l)
    (hne : (e.name == d.name) = false) :
    ∀ bond ∈ l.entryBonds e, (bond.1 == .entry d.name) = false := by
  intro bond hbond
  rcases List.mem_append.mp hbond with hbond | hbond
  · obtain ⟨s, hs, rfl⟩ := List.mem_map.mp hbond
    obtain ⟨t, ht, hts⟩ := List.mem_filterMap.mp hs
    exact h.spot_ne hl hd he ht (resolve?_mem hts).2
  · obtain ⟨s, -, rfl⟩ := List.mem_map.mp hbond
    exact hne

/-- Only the bonds that set out from the entry are missing. -/
theorem bonds_without (h : l.Aside d) (hl : l.Distinct) (hd : d ∈ l) :
    (l.without d.name).bonds = l.bonds.filter fun bond => !(bond.1 == .entry d.name) := by
  rw [bonds, bonds, List.filter_cons_of_pos rfl, List.filter_flatMap]
  refine congrArg _ (flatMap_filter_eq ?_ ?_)
  · intro e he hne
    rw [Bool.not_eq_true'] at hne
    rw [h.entryBonds_without hl hd he, eq_comm, List.filter_eq_self]
    intro bond hbond
    rw [h.start_ne hl hd he hne bond hbond, Bool.not_false]
  · intro e he hname
    rw [Bool.not_eq_false'] at hname
    obtain rfl := eq_of_apart hl he hd hname
    rw [entryBonds, h.targets_after, List.filterMap_nil, List.map_nil, List.nil_append,
      List.filter_eq_nil_iff]
    intro bond hbond
    obtain ⟨s, -, rfl⟩ := List.mem_map.mp hbond
    simp

theorem binds_without_iff (h : l.Aside d) (hl : l.Distinct) (hd : d ∈ l) :
    (l.without d.name).Binds s t ↔ l.Binds s t ∧ s ≠ .entry d.name := by
  have hl' := hl.without d.name
  rw [← hl'.mem_bonds_iff, ← hl.mem_bonds_iff, h.bonds_without hl hd, List.mem_filter]
  refine and_congr_right fun hbond => ?_
  rw [Bool.not_eq_true']
  constructor
  · rintro hne rfl
    rw [BEq.rfl] at hne
    cases hne
  · intro hne
    refine Bool.eq_false_iff.mpr fun heq => hne ?_
    exact hl.eq_of_beq (hl.mem_bonds_iff.mp hbond).mem.1 (entry_mem_spots hd) heq

/-! ## Objections and circles -/

theorem met_without_iff (h : l.Aside d) (hl : l.Distinct) (hd : d ∈ l)
    (hne : (e.name == d.name) = false) (side : Side) :
    (l.without d.name).Met e side ↔ l.Met e side := by
  have hspot : Spot.entry e.name ≠ .entry d.name := by
    intro heq
    rw [Spot.entry.inj heq, BEq.rfl] at hne
    cases hne
  cases side with
  | before => exact exists_congr fun s => by rw [h.binds_without_iff hl hd, and_iff_left hspot]
  | after =>
      refine exists_congr fun s => ?_
      rw [h.binds_without_iff hl hd, and_iff_left_iff_imp]
      rintro hse rfl
      cases h.binds_from hl hd hse

theorem wanting_without (h : l.Aside d) (hl : l.Distinct) (hd : d ∈ l) (side : Side) :
    (l.without d.name).wanting side = l.wanting side := by
  classical
  have hmet := fun e hname => h.met_without_iff hl hd (e := e) hname side
  rw [wanting, wanting, without, List.filter_filter]
  refine List.filter_congr fun e he => ?_
  cases hname : e.name == d.name with
  | false =>
      rw [Bool.not_false, Bool.and_true, decide_eq_decide]
      exact and_congr_right fun _ => not_congr (hmet e hname)
  | true =>
      obtain rfl := eq_of_apart hl he hd hname
      have hnot := h.not_wanting hd side
      rw [mem_wanting] at hnot
      simp_all

theorem objection?_without (h : l.Aside d) (hl : l.Distinct) (hd : d ∈ l) :
    (l.without d.name).objection? = l.objection? := by
  have hl' := hl.without d.name
  rw [objection?, objection?, hl'.unmet_eq, hl'.unmet_eq, hl.unmet_eq, hl.unmet_eq,
    h.wanting_without hl hd, h.wanting_without hl hd]

/-- A chain that does not set out from the entry never comes to it. -/
theorem chain_without (h : l.Aside d) (hl : l.Distinct) (hd : d ∈ l)
    (hst : TransGen l.Binds s t) (hs : s ≠ .entry d.name) :
    TransGen (l.without d.name).Binds s t := by
  induction hst with
  | single hst => exact .single ((h.binds_without_iff hl hd).mpr ⟨hst, hs⟩)
  | tail hsu hut ih =>
      refine ih.tail ((h.binds_without_iff hl hd).mpr ⟨hut, ?_⟩)
      rintro rfl
      obtain ⟨x, -, hx⟩ := TransGen.tail'_iff.mp hsu
      exact h.not_binds_to hl hd hx

theorem circular_without_iff (h : l.Aside d) (hl : l.Distinct) (hd : d ∈ l) :
    (∃ s, TransGen (l.without d.name).Binds s s) ↔ ∃ s, TransGen l.Binds s s := by
  constructor
  · rintro ⟨s, hloop⟩
    exact ⟨s, TransGen.mono (fun _ _ hst => ((h.binds_without_iff hl hd).mp hst).1) s s hloop⟩
  · rintro ⟨s, hloop⟩
    refine ⟨s, h.chain_without hl hd hloop ?_⟩
    rintro rfl
    obtain ⟨x, -, hx⟩ := TransGen.tail'_iff.mp hloop
    exact h.not_binds_to hl hd hx

/-! ## The same outline -/

theorem outline_eq (h : l.Aside d) (hl : l.Distinct) (hd : d ∈ l) :
    (l.without d.name).outline (rest d) = l.outline (rest d) := by
  have hspots : (l.without d.name).spots.filter (rest d) = l.spots.filter (rest d) := by
    rw [spots_without, List.filter_filter]
    refine List.filter_congr fun s _ => ?_
    rw [rest]
    cases s == .last <;> cases s == .entry d.name <;> rfl
  have hbonds : (l.without d.name).bonds.filter (fun bond => rest d bond.2) =
      l.bonds.filter fun bond => rest d bond.2 := by
    rw [h.bonds_without hl hd, List.filter_filter]
    refine List.filter_congr ?_
    rintro ⟨s, t⟩ hbond
    rw [Bool.and_eq_left_iff_imp, Bool.not_eq_true']
    intro ht
    refine Bool.eq_false_iff.mpr fun hsd => ?_
    have hst := hl.mem_bonds_iff.mp hbond
    have hsd' : s = .entry d.name := hl.eq_of_beq hst.mem.1 (entry_mem_spots hd) hsd
    obtain rfl := h.binds_from hl hd (hsd' ▸ hst)
    cases ht
  rw [outline, outline, hspots, hbonds]

theorem rest_of_binds (h : l.Aside d) (hl : l.Distinct) (hd : d ∈ l)
    (hopen : ∀ e ∈ l, .last ∉ e.bounds.targets .after) (hst : l.Binds s t)
    (ht : rest d t = true) : rest d s = true := by
  rw [rest, Bool.and_eq_true, Bool.not_eq_true', Bool.not_eq_true']
  constructor
  · refine Bool.eq_false_iff.mpr fun hs => ?_
    obtain rfl : s = .last := eq_last_of_beq hs
    exact not_binds_last hopen hst
  · refine Bool.eq_false_iff.mpr fun hs => ?_
    have hsd : s = .entry d.name := hl.eq_of_beq hst.mem.1 (entry_mem_spots hd) hs
    obtain rfl := h.binds_from hl hd (hsd ▸ hst)
    cases ht

end Aside

end Lineup.Listing
