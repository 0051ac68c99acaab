/-
# The spots that an entry stands after

The targets of an `after` side give one arc each, and every one of these arcs leaves another node.
So the order in which the targets were declared is lost: the list of successors of a node is put
together entry by entry, and what an entry adds to it by its `after` side is its own number, as
often as a target of that side has the number of the node (`leaving_entryArcs`).  Listings that
vary in the order of these targets alone have the same lists of successors (`Varies.leaving_eq`).
If they vary in the repetitions as well, the lists agree in their nodes and in the order of the last
places (`Varies.leaving_sameLasts`), which is enough for the same entries to be met.

Of the side `before` nothing like that holds.  Its targets give arcs that leave the entry itself,
one behind the other in the order of their declaration.
-/
import Lineup.Proofs.Network.Repeats
import Lineup.Proofs.Listing.Restated

namespace Lineup

open List (Forall₂)
open Network (Piecewise SameLasts)

variable {N V : Type}

/-- Two entries agree in all but the targets of their `after` sides, which are related by `R`. -/
structure Entry.Varies (R : List (Spot N) → List (Spot N) → Prop) (e f : Entry N V) : Prop where
  name : e.name = f.name
  value : e.value = f.value
  before : e.bounds.before = f.bounds.before
  declares : e.bounds.declares .after = f.bounds.declares .after
  targets : R (e.bounds.targets .after) (f.bounds.targets .after)

theorem Entry.Varies.declares_eq {R : List (Spot N) → List (Spot N) → Prop} {e f : Entry N V}
    (h : e.Varies R f) (side : Side) : e.bounds.declares side = f.bounds.declares side := by
  cases side with
  | before => exact congrArg Option.isSome h.before
  | after => exact h.declares

/-- Two listings hold the same entries in the same order, up to the targets of `after` sides. -/
def Listing.Varies (R : List (Spot N) → List (Spot N) → Prop) (l k : Listing N V) : Prop :=
  Forall₂ (Entry.Varies R) l k

namespace Listing

variable {R R' : List (Spot N) → List (Spot N) → Prop} {l k : Listing N V}

namespace Varies

theorem imp (hR : ∀ {ts us}, R ts us → R' ts us) (h : l.Varies R k) : l.Varies R' k :=
  Forall₂.imp (fun _ _ hef => ⟨hef.name, hef.value, hef.before, hef.declares, hR hef.targets⟩) h

theorem symm (hR : ∀ {ts us}, R ts us → R us ts) (h : l.Varies R k) : k.Varies R l :=
  Forall₂.imp (fun _ _ hef => ⟨hef.name.symm, hef.value.symm, hef.before.symm, hef.declares.symm,
    hR hef.targets⟩) (Forall₂.flip h)

theorem nodeCount_eq (h : l.Varies R k) : l.nodeCount = k.nodeCount :=
  congrArg (· + 2) (Forall₂.length_eq h)

theorem getElem? (h : l.Varies R k) (i : Nat) :
    (l[i]? = none ∧ k[i]? = none) ∨ ∃ e f, l[i]? = some e ∧ k[i]? = some f ∧ e.Varies R f := by
  induction h generalizing i with
  | nil => exact Or.inl ⟨rfl, rfl⟩
  | @cons e f _ _ hef _ ih =>
      cases i with
      | zero => exact Or.inr ⟨e, f, rfl, rfl, hef⟩
      | succ i => exact ih i

theorem spotAt?_eq (h : l.Varies R k) : l.spotAt? = k.spotAt? := by
  funext v
  match v with
  | 0 => rfl
  | 1 => rfl
  | i + 2 =>
      rw [spotAt?, spotAt?]
      rcases h.getElem? i with ⟨hl, hk⟩ | ⟨e, f, hl, hk, hef⟩
      · rw [hl, hk]
      · rw [hl, hk, Option.map_some, Option.map_some, hef.name]

theorem zipIdx (h : l.Varies R k) :
    Forall₂ (fun x y => x.1.Varies R y.1 ∧ x.2 = y.2) l.zipIdx k.zipIdx := by
  suffices hfrom : ∀ n, Forall₂ (fun x y => x.1.Varies R y.1 ∧ x.2 = y.2) (l.zipIdx n) (k.zipIdx n)
    from hfrom 0
  induction h with
  | nil => exact fun n => .nil
  | cons hef _ ih => exact fun n => .cons ⟨hef, rfl⟩ (ih (n + 1))

end Varies

variable [BEq N]

/-! ## Arcs that leave a node -/

/-- The ends of the arcs of a list that leave `u`. -/
def leaving (arcs : List (Nat × Nat)) (u : Nat) : List Nat := (arcs.filter (·.1 == u)).map (·.2)

theorem mem_leaving_iff {arcs : List (Nat × Nat)} {u v : Nat} :
    v ∈ leaving arcs u ↔ (u, v) ∈ arcs := by
  simp [leaving]

/-- By its `after` side an entry adds its own number only, by its `before` side what it names. -/
theorem leaving_entryArcs (l : Listing N V) (e : Entry N V) (i u : Nat) :
    leaving (l.entryArcs e i) u =
      List.replicate (((e.bounds.targets .after).filterMap l.node?).count u) (entryNode i) ++
        leaving (((e.bounds.targets .before).filterMap l.node?).map (entryNode i, ·)) u := by
  rw [leaving, entryArcs, List.filter_append, List.map_append, List.filter_map, List.map_map]
  refine congrArg (· ++ _) ?_
  show ((_ : List Nat).filter (· == u)).map (fun _ => entryNode i) = _
  rw [List.filter_beq, List.map_replicate]

theorem leaving_arcs (l : Listing N V) (u : Nat) :
    leaving l.arcs u =
      leaving [(firstNode, lastNode)] u ++ l.zipIdx.flatMap fun x => leaving (l.entryArcs x.1 x.2) u := by
  rw [leaving, arcs, ← List.singleton_append, List.filter_append, List.map_append,
    List.filter_flatMap, List.map_flatMap]
  rfl

theorem Drawn.behind_eq {g : Network} (hg : l.Drawn g) (u : Nat) :
    g.behind u = leaving l.arcs u := by
  rw [hg.tied.behind, hg.arcs]
  rfl

namespace Varies

theorem position?_eq (h : l.Varies R k) (name : N) : l.position? name = k.position? name := by
  induction h with
  | nil => rfl
  | cons hef _ ih => rw [position?, position?, ih, hef.name]

theorem node?_eq (h : l.Varies R k) : l.node? = k.node? := by
  funext s
  cases s with
  | first => rfl
  | last => rfl
  | entry name => rw [node?, node?, h.position?_eq]

/-! ## The lists of successors, entry by entry -/

/-- A way to compare rows piece by piece compares the lists of successors of two listings if it
compares what their `after` sides add. -/
theorem leaving_rel {Q : List Nat → List Nat → Prop} (hQ : Piecewise Q) (h : l.Varies R k) (u : Nat)
    (hside : ∀ {ts us}, R ts us → ∀ v, Q (List.replicate ((ts.filterMap k.node?).count u) v)
      (List.replicate ((us.filterMap k.node?).count u) v)) :
    Q (leaving l.arcs u) (leaving k.arcs u) := by
  rw [leaving_arcs, leaving_arcs]
  refine hQ.append (hQ.refl _) (hQ.flatMap h.zipIdx ?_)
  rintro ⟨e, i⟩ ⟨f, j⟩ ⟨hef, rfl⟩
  have hbefore : e.bounds.targets .before = f.bounds.targets .before :=
    congrArg (·.getD []) hef.before
  rw [leaving_entryArcs, leaving_entryArcs, h.node?_eq, hbefore]
  exact hQ.append (hside hef.targets _) (hQ.refl _)

theorem leaving_eq (h : l.Varies List.Perm k) (u : Nat) :
    leaving l.arcs u = leaving k.arcs u := by
  refine h.leaving_rel Network.piecewise_eq u ?_
  intro ts us hperm v
  rw [(hperm.filterMap k.node?).count_eq]

variable [EquivBEq N]

theorem position?_congr (l : Listing N V) {a b : N} (hab : (a == b) = true) :
    l.position? a = l.position? b := by
  induction l with
  | nil => rfl
  | cons e l ih => rw [position?, position?, ih, BEq.congr_right hab]

theorem node?_congr (l : Listing N V) {s t : Spot N} (hst : (s == t) = true) :
    l.node? s = l.node? t := by
  cases s <;> cases t <;> first | rfl | cases hst | skip
  rw [node?, node?, position?_congr l hst]

theorem leaving_sameLasts (h : l.Varies SameItems k) (u : Nat) :
    SameLasts (leaving l.arcs u) (leaving k.arcs u) := by
  refine h.leaving_rel Network.piecewise_sameLasts u ?_
  intro ts us hsame v
  refine Network.sameLasts_replicate ?_ v
  rw [List.count_eq_zero, List.count_eq_zero, hsame.mem_filterMap_iff (node?_congr k)]

/-! ## The entries that are met -/

theorem mem_arcs_iff (h : l.Varies SameItems k) (arc : Nat × Nat) : arc ∈ l.arcs ↔ arc ∈ k.arcs := by
  rw [← mem_leaving_iff, ← mem_leaving_iff, (h.leaving_sameLasts arc.1).mem]

theorem contains_end_eq (h : l.Varies SameItems k) (side : Side) (v : Nat) :
    (l.arcs.map (endAt side)).contains v = (k.arcs.map (endAt side)).contains v := by
  rw [Bool.eq_iff_iff, List.contains_iff_mem, List.contains_iff_mem, List.mem_map, List.mem_map]
  simp only [h.mem_arcs_iff]

theorem unmet_eq (h : l.Varies SameItems k) (side : Side) : l.unmet side = k.unmet side := by
  have hnames : Forall₂ Eq (l.unmet side) (k.unmet side) := by
    refine List.rel_filterMap ?_ h.zipIdx
    rintro ⟨e, i⟩ ⟨f, _⟩ ⟨hef, rfl⟩
    have hdeclares : e.bounds.declares side = f.bounds.declares side := hef.declares_eq side
    have hname : e.name = f.name := hef.name
    show Option.Rel Eq
      (if e.bounds.declares side && !(l.arcs.map (endAt side)).contains (entryNode i)
        then some e.name else none)
      (if f.bounds.declares side && !(k.arcs.map (endAt side)).contains (entryNode i)
        then some f.name else none)
    rw [hdeclares, h.contains_end_eq, hname]
    split
    · exact .some rfl
    · exact .none
  rwa [List.forall₂_eq_eq_eq] at hnames

theorem objection?_eq (h : l.Varies SameItems k) : l.objection? = k.objection? := by
  rw [objection?, objection?, h.unmet_eq, h.unmet_eq]

end Varies

end Listing

end Lineup
