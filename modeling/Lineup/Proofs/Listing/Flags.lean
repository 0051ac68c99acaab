/-
# Flags for the sides that are met

The entries that no arc meets on a side can be found with a table: one flag for each node, raised at
the end of every arc, and looked up once for every entry that declared the side.  Each of these
steps asks for a node by its number, and a number that is out of range would break the table off.
That never happens, since an arc of a listing runs between nodes of the listing and every entry has
a node; so the table finds the names that `unmet` speaks of (`unflagged_eq`).
-/
import Mathlib.Data.List.Basic
import Lineup.Proofs.Listing.Chains

namespace Lineup

theorem mapM_eq_ok {ε α β : Type} {f : α → Except ε β} {g : α → β} {xs : List α}
    (h : ∀ x ∈ xs, f x = .ok (g x)) : xs.mapM f = .ok (xs.map g) := by
  induction xs with
  | nil => rfl
  | cons x xs ih =>
      have hx := h x List.mem_cons_self
      have hxs := ih fun y hy => h y (List.mem_cons_of_mem _ hy)
      simp [List.mapM_cons, hx, hxs, bind, Except.bind, pure, Except.pure]

namespace Listing

variable {N V : Type}

/-- Raises the flag of a node that must exist. -/
def raise (flags : List Bool) (v : Nat) : Except Breach (List Bool) :=
  match flags[v]? with
  | none => .error (.noSuchNode v)
  | some _ => .ok (flags.set v true)

/-- A flag for each of `n` nodes, raised where an arc meets the node on the given side. -/
def flags (n : Nat) (side : Side) (arcs : List (Nat × Nat)) : Except Breach (List Bool) :=
  (arcs.map (endAt side)).foldlM raise (List.replicate n false)

def unflaggedName (flags : List Bool) (side : Side) (e : Entry N V) (i : Nat) :
    Except Breach (Option N) :=
  if e.bounds.declares side then
    match flags[entryNode i]? with
    | none => .error (.noSuchNode (entryNode i))
    | some raised => .ok (if raised then none else some e.name)
  else .ok none

/-- The names of the entries that declared a side and have no flag there. -/
def unflagged [BEq N] (l : Listing N V) (side : Side) : Except Breach (List N) := do
  let raised ← flags l.nodeCount side l.arcs
  let names ← l.zipIdx.mapM fun (e, i) => unflaggedName raised side e i
  return names.reduceOption

/-! ## The table holds what the arcs say -/

theorem raise_eq_ok {flags : List Bool} {v : Nat} (h : v < flags.length) :
    raise flags v = .ok (flags.set v true) := by
  rw [raise, List.getElem?_eq_getElem h]

theorem exists_raised {vs : List Nat} {flags : List Bool} (h : ∀ v ∈ vs, v < flags.length) :
    ∃ raised, vs.foldlM raise flags = .ok raised ∧ raised.length = flags.length ∧
      ∀ {v : Nat} {up : Bool}, flags[v]? = some up →
        raised[v]? = some (up || vs.contains v) := by
  induction vs generalizing flags with
  | nil => exact ⟨flags, rfl, rfl, fun hv => by simpa using hv⟩
  | cons w vs ih =>
      have hw : w < flags.length := h w List.mem_cons_self
      have hrest : ∀ v ∈ vs, v < (flags.set w true).length := by
        intro v hv
        rw [List.length_set]
        exact h v (List.mem_cons_of_mem _ hv)
      obtain ⟨raised, hraised, hlen, hup⟩ := ih hrest
      refine ⟨raised, ?_, hlen.trans List.length_set, ?_⟩
      · rw [List.foldlM_cons, raise_eq_ok hw]
        exact hraised
      · intro v up hv
        by_cases hwv : w = v
        · subst hwv
          rw [hup (List.getElem?_set_self hw)]
          simp
        · rw [hup ((List.getElem?_set_ne hwv).trans hv)]
          simp [Ne.symm hwv]

theorem exists_flags {n : Nat} (side : Side) {arcs : List (Nat × Nat)}
    (h : ∀ arc ∈ arcs, arc.1 < n ∧ arc.2 < n) :
    ∃ raised, flags n side arcs = .ok raised ∧
      ∀ v < n, raised[v]? = some ((arcs.map (endAt side)).contains v) := by
  have hends : ∀ v ∈ arcs.map (endAt side), v < (List.replicate n false).length := by
    intro v hv
    obtain ⟨arc, harc, rfl⟩ := List.mem_map.mp hv
    rw [List.length_replicate]
    cases side with
    | before => exact (h arc harc).1
    | after => exact (h arc harc).2
  obtain ⟨raised, hraised, -, hup⟩ := exists_raised hends
  refine ⟨raised, hraised, ?_⟩
  intro v hv
  have hdown : (List.replicate n false)[v]? = some false := by simp [hv]
  simpa using hup hdown

/-- The table is never broken off, and it finds the names of the entries that are not met. -/
theorem unflagged_eq [BEq N] (l : Listing N V) (side : Side) :
    l.unflagged side = .ok (l.unmet side) := by
  obtain ⟨raised, hraised, hup⟩ := exists_flags side (arcs_lt l)
  have hname : ∀ x ∈ l.zipIdx, unflaggedName raised side x.1 x.2 =
      .ok (if x.1.bounds.declares side && !(l.arcs.map (endAt side)).contains (entryNode x.2)
        then some x.1.name else none) := by
    rintro ⟨e, i⟩ hei
    have hi : i < l.length :=
      (List.getElem?_eq_some_iff.mp (List.mem_zipIdx_iff_getElem?.mp hei)).1
    have hnode : entryNode i < l.nodeCount := Nat.add_lt_add_right hi 2
    rw [unflaggedName, hup _ hnode]
    cases e.bounds.declares side <;>
      cases (l.arcs.map (endAt side)).contains (entryNode i) <;> rfl
  have hnames := mapM_eq_ok hname
  simp only [unflagged, hraised, hnames, bind, Except.bind, pure, Except.pure]
  show Except.ok ((l.zipIdx.map _).filterMap id) = .ok (l.unmet side)
  rw [List.filterMap_map]
  rfl

end Listing

end Lineup
