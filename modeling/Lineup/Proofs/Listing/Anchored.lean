/-
# Bounds that name the anchors only

An entry may stand after the first anchor, before the last one, or *between* the two, and leave it
at that.  In a listing of such entries the bonds are few: from anchor to anchor, from the first
anchor to the entries after it, and from the entries before the last anchor to that one
(`Anchored.binds_iff`).  So they run in no circle, every side that was declared is met, and the
bonds that set out from the first anchor follow the order of registration.
-/
import Lineup.Proofs.Listing.Aside

namespace Lineup

open Relation

variable {N V : Type}

/-- The bounds of an entry that declares both sides, with an anchor on each. -/
def Bounds.between : Bounds N := (Bounds.free.declare .after [.first]).declare .before [.last]

namespace Listing

variable {l : Listing N V} {s t : Spot N}

theorem first_ahead_of_entry {e : Entry N V} (he : e ∈ l) :
    [.first, .entry e.name].Sublist l.spots := by
  have hrest : .entry e.name ∈ .last :: l.map fun e => Spot.entry e.name :=
    List.mem_cons_of_mem _ (List.mem_map.mpr ⟨e, he, rfl⟩)
  exact (List.singleton_sublist.mpr hrest).cons_cons _

theorem pair_sublist_spots {a b : Entry N V} (hab : [a, b].Sublist l) :
    [.entry a.name, .entry b.name].Sublist l.spots := by
  have hnames := hab.map fun e : Entry N V => Spot.entry e.name
  exact (hnames.cons .last).cons .first

/-- Every entry stands after the first anchor or declares nothing on that side, and before the last
anchor or declares nothing on this one. -/
def Anchored (l : Listing N V) : Prop :=
  ∀ e ∈ l, (e.bounds.after = none ∨ e.bounds.after = some [.first]) ∧
    (e.bounds.before = none ∨ e.bounds.before = some [.last])

/-- Whether an entry declared that it stands after something. -/
def follower (e : Entry N V) : Bool := e.bounds.declares .after

theorem Anchored.targets_before (h : l.Anchored) {e : Entry N V} (he : e ∈ l) :
    e.bounds.targets .before = if e.bounds.declares .before then [.last] else [] := by
  rcases (h e he).2 with hb | hb <;> simp [Bounds.targets, Bounds.declares, Bounds.on, hb]

theorem Anchored.targets_after (h : l.Anchored) {e : Entry N V} (he : e ∈ l) :
    e.bounds.targets .after = if follower e then [.first] else [] := by
  rcases (h e he).1 with hb | hb <;>
    simp [follower, Bounds.targets, Bounds.declares, Bounds.on, hb]

/-- The bonds between the anchors and what stands beside them. -/
inductive Flanks (l : Listing N V) : Spot N → Spot N → Prop
  | anchors : Flanks l .first .last
  | ahead {e : Entry N V} : e ∈ l → follower e = true → Flanks l .first (.entry e.name)
  | behind {e : Entry N V} : e ∈ l → e.bounds.declares .before = true →
      Flanks l (.entry e.name) .last

def depth : Spot N → Nat
  | .first => 0
  | .entry _ => 1
  | .last => 2

theorem Flanks.depth_lt (h : l.Flanks s t) : depth s < depth t := by
  cases h with
  | anchors => exact Nat.two_pos
  | ahead _ _ => exact Nat.one_pos
  | behind _ _ => exact Nat.one_lt_two

variable [BEq N]

theorem eq_first_of_beq (h : (s == .first) = true) : s = .first := by
  cases s with
  | first => rfl
  | last => cases h
  | entry name => cases h

namespace Anchored

theorem binds_iff (h : l.Anchored) : l.Binds s t ↔ l.Flanks s t := by
  constructor
  · intro hst
    cases hst with
    | anchors => exact .anchors
    | @after e _ t he ht hs hst =>
        rw [h.targets_after he, List.mem_ite_nil_right] at ht
        obtain ⟨hf, ht⟩ := ht
        obtain rfl := List.mem_singleton.mp ht
        obtain rfl := eq_first_of_beq hst
        exact .ahead he hf
    | @before e _ t he ht hs hst =>
        rw [h.targets_before he, List.mem_ite_nil_right] at ht
        obtain ⟨hb, ht⟩ := ht
        obtain rfl := List.mem_singleton.mp ht
        obtain rfl := eq_last_of_beq hst
        exact .behind he hb
  · intro hst
    cases hst with
    | anchors => exact .anchors
    | ahead he hf =>
        refine .after (t := .first) he ?_ List.mem_cons_self rfl
        rw [h.targets_after he, if_pos hf]
        exact List.mem_singleton.mpr rfl
    | behind he hb =>
        refine .before (t := .last) he ?_ (last_mem_spots l) rfl
        rw [h.targets_before he, if_pos hb]
        exact List.mem_singleton.mpr rfl

theorem not_circular (h : l.Anchored) : ¬ ∃ s, TransGen l.Binds s s := by
  rintro ⟨s, hloop⟩
  have hdeep : TransGen (· < ·) (depth s) (depth s) :=
    hloop.lift depth fun _ _ hst => (h.binds_iff.mp hst).depth_lt
  rw [transGen_eq_self] at hdeep
  exact Nat.lt_irrefl _ hdeep

theorem wanting_eq_nil (h : l.Anchored) (side : Side) : l.wanting side = [] := by
  refine Listing.wanting_eq_nil ?_
  intro e he hdeclares
  cases side with
  | before => exact ⟨.last, h.binds_iff.mpr (.behind he hdeclares)⟩
  | after => exact ⟨.first, h.binds_iff.mpr (.ahead he hdeclares)⟩

theorem bondsFrom_first (h : l.Anchored) :
    l.bondsFrom .first = .last :: (l.filter follower).map fun e => .entry e.name := by
  have hentry : ∀ e ∈ l, ((l.entryBonds e).filter (·.1 == .first)).map (·.2) =
      if follower e then [.entry e.name] else [] := by
    intro e he
    rw [entryBonds, h.targets_after he, h.targets_before he]
    cases follower e <;> cases e.bounds.declares .before <;> rfl
  rw [bondsFrom, bonds, List.filter_cons_of_pos rfl, List.map_cons, List.filter_flatMap,
    List.map_flatMap, List.map_eq_flatMap]
  refine congrArg _ (flatMap_filter_eq ?_ ?_).symm
  · intro e he hf
    rw [hentry e he, if_pos hf]
  · intro e he hf
    rw [hentry e he, hf, if_neg Bool.false_ne_true]

end Anchored

end Listing

end Lineup
