/-
# Laying the arcs of a listing

Entries may have equal names here.  A spot then has the number of the last entry of its name
(`Numbered`), and the arcs of a listing are what the bounds declare with these numbers, anchors
first, entry by entry and target by target, the targets without a number left out (`Laid`).  This
says what the arcs are without a look-up; a listing has one such row of arcs, and it is the one that
its network is laid from (`laid_iff`).

The network can also be laid while the bounds are read.  Each entry enters its number under its name
in a table, over the number of an earlier entry of that name, and an arc is laid for every target
that has a number in the table.  That gives the same network (`lay_eq`).
-/
import Mathlib.Data.List.Basic
import Std.Data.HashMap
import Lineup.Name.CaseBlind
import Lineup.Proofs.Listing.Chains

namespace Lineup.Listing

variable {N V : Type} [BEq N]

/-! ## The arcs that are declared -/

/-- The number that a spot has where names may repeat: an entry counts if no later one has its
name. -/
inductive Numbered (l : Listing N V) : Spot N → Nat → Prop
  | first : Numbered l .first firstNode
  | last : Numbered l .last lastNode
  | entry {name : N} {i : Nat} {e : Entry N V} : l[i]? = some e → (e.name == name) = true →
      (∀ j f, i < j → l[j]? = some f → (f.name == name) = false) →
      Numbered l (.entry name) (entryNode i)

/-- The numbers of spots in order, those left out that have none. -/
inductive Resolved (l : Listing N V) : List (Spot N) → List Nat → Prop
  | nil : Resolved l [] []
  | known {t : Spot N} {v : Nat} {ts : List (Spot N)} {vs : List Nat} : l.Numbered t v →
      Resolved l ts vs → Resolved l (t :: ts) (v :: vs)
  | unknown {t : Spot N} {ts : List (Spot N)} {vs : List Nat} : (∀ v, ¬ l.Numbered t v) →
      Resolved l ts vs → Resolved l (t :: ts) vs

/-- The arcs that entries declare one after another, the first of them at position `i`. -/
inductive Declared (l : Listing N V) : Nat → List (Entry N V) → List (Nat × Nat) → Prop
  | nil {i : Nat} : Declared l i [] []
  | cons {i : Nat} {e : Entry N V} {rest : List (Entry N V)} {ahead behind : List Nat}
      {arcs : List (Nat × Nat)} : l.Resolved (e.bounds.targets .after) ahead →
      l.Resolved (e.bounds.targets .before) behind → Declared l (i + 1) rest arcs →
      Declared l i (e :: rest)
        (ahead.map (·, entryNode i) ++ behind.map (entryNode i, ·) ++ arcs)

/-- All arcs: the one between the anchors, then those that the entries declare. -/
inductive Laid (l : Listing N V) : List (Nat × Nat) → Prop
  | mk {arcs : List (Nat × Nat)} : l.Declared 0 l arcs → Laid l ((firstNode, lastNode) :: arcs)

theorem position?_later {l : Listing N V} {name : N} {i : Nat} (h : l.position? name = some i) :
    ∀ j f, i < j → l[j]? = some f → (f.name == name) = false := by
  induction l generalizing i with
  | nil => simp [position?] at h
  | cons e l ih =>
      intro j f hij hf
      obtain ⟨j, rfl⟩ := Nat.exists_eq_add_one.mpr (Nat.zero_lt_of_lt hij)
      rw [List.getElem?_cons_succ] at hf
      rw [position?] at h
      split at h
      · rename_i k hk
        obtain rfl := Option.some.inj h
        exact ih hk j f (Nat.lt_of_succ_lt_succ hij) hf
      · rename_i hnone
        refine Bool.eq_false_iff.mpr ?_
        intro hname
        have hsome := position?_isSome_iff.mpr ⟨f, List.mem_of_getElem? hf, hname⟩
        rw [hnone] at hsome
        cases hsome

theorem position?_of_last {l : Listing N V} {name : N} {i : Nat} {e : Entry N V}
    (he : l[i]? = some e) (hname : (e.name == name) = true)
    (hlast : ∀ j f, i < j → l[j]? = some f → (f.name == name) = false) :
    l.position? name = some i := by
  have hsome := position?_isSome_iff.mpr ⟨e, List.mem_of_getElem? he, hname⟩
  obtain ⟨k, hk⟩ := Option.isSome_iff_exists.mp hsome
  obtain ⟨f, hf, hfname⟩ := position?_getElem hk
  rcases Nat.lt_trichotomy i k with hik | rfl | hki
  · rw [hlast k f hik hf] at hfname
    cases hfname
  · exact hk
  · rw [position?_later hk i e hki he] at hname
    cases hname

theorem numbered_iff {l : Listing N V} {t : Spot N} {v : Nat} :
    l.Numbered t v ↔ l.node? t = some v := by
  constructor
  · intro h
    cases h with
    | first => rfl
    | last => rfl
    | entry he hname hlast =>
        rw [node?, position?_of_last he hname hlast]
        rfl
  · intro h
    cases t with
    | first => cases h; exact .first
    | last => cases h; exact .last
    | entry name =>
        obtain ⟨i, hi, rfl⟩ := Option.map_eq_some_iff.mp h
        obtain ⟨e, he, hname⟩ := position?_getElem hi
        exact .entry he hname (position?_later hi)

theorem resolved_iff {l : Listing N V} {ts : List (Spot N)} {vs : List Nat} :
    l.Resolved ts vs ↔ vs = ts.filterMap l.node? := by
  constructor
  · intro h
    induction h with
    | nil => rfl
    | known ht _ ih => rw [List.filterMap_cons_some (numbered_iff.mp ht), ih]
    | @unknown t _ _ ht _ ih =>
        have hnone : l.node? t = none :=
          Option.eq_none_iff_forall_ne_some.mpr fun v hv => ht v (numbered_iff.mpr hv)
        rw [List.filterMap_cons_none hnone, ih]
  · rintro rfl
    induction ts with
    | nil => exact .nil
    | cons t ts ih =>
        cases hv : l.node? t with
        | none =>
            rw [List.filterMap_cons_none hv]
            refine .unknown ?_ ih
            intro v hnum
            rw [numbered_iff.mp hnum] at hv
            cases hv
        | some v =>
            rw [List.filterMap_cons_some hv]
            exact .known (numbered_iff.mpr hv) ih

theorem declared_iff {l : Listing N V} {i : Nat} {es : List (Entry N V)}
    {arcs : List (Nat × Nat)} :
    l.Declared i es arcs ↔ arcs = (es.zipIdx i).flatMap fun (e, i) => l.entryArcs e i := by
  constructor
  · intro h
    induction h with
    | nil => rfl
    | cons hahead hbehind _ ih =>
        rw [resolved_iff.mp hahead, resolved_iff.mp hbehind, ih, List.zipIdx_cons,
          List.flatMap_cons]
        rfl
  · rintro rfl
    induction es generalizing i with
    | nil => exact .nil
    | cons e es ih =>
        exact .cons (resolved_iff.mpr rfl) (resolved_iff.mpr rfl) ih

/-- The arcs of a listing are those that its bounds declare, and no others are. -/
theorem laid_iff {l : Listing N V} {arcs : List (Nat × Nat)} : l.Laid arcs ↔ arcs = l.arcs := by
  constructor
  · rintro ⟨h⟩
    rw [declared_iff.mp h]
    rfl
  · rintro rfl
    exact .mk (declared_iff.mpr rfl)

/-! ## Laying the arcs while the bounds are read -/

section Table

variable [Hashable N]

/-- The numbers of names.  An entry enters its number over that of an earlier one of its name. -/
def nameTable (l : Listing N V) : Std.HashMap N Nat :=
  l.zipIdx.foldl (fun table (e, i) => table.insert e.name (entryNode i)) ∅

def nodeBy? (table : Std.HashMap N Nat) : Spot N → Option Nat
  | .first => some firstNode
  | .last => some lastNode
  | .entry name => table[name]?

def layTargets (table : Std.HashMap N Nat) (arc : Nat → Nat × Nat) (g : Network)
    (targets : List (Spot N)) : Except Breach Network :=
  targets.foldlM (fun g t =>
    match nodeBy? table t with
    | some v => g.addArc (arc v)
    | none => pure g) g

/-- Lays the arcs of an entry, those into it ahead of those out of it. -/
def layEntry (table : Std.HashMap N Nat) (g : Network) (e : Entry N V) (i : Nat) :
    Except Breach Network := do
  let g ← layTargets table (·, entryNode i) g (e.bounds.targets .after)
  layTargets table (entryNode i, ·) g (e.bounds.targets .before)

def lay (l : Listing N V) : Except Breach Network := do
  let g ← (Network.blank l.nodeCount).addArc (firstNode, lastNode)
  l.zipIdx.foldlM (fun g (e, i) => layEntry l.nameTable g e i) g

variable [EquivBEq N] [LawfulHashable N]

theorem getElem?_foldl_insert (l : Listing N V) (i : Nat) (table : Std.HashMap N Nat) (name : N) :
    ((l.zipIdx i).foldl (fun table (e, i) => table.insert e.name (entryNode i)) table)[name]? =
      match l.position? name with
      | some j => some (entryNode (i + j))
      | none => table[name]? := by
  induction l generalizing i table with
  | nil => rfl
  | cons e l ih =>
      rw [List.zipIdx_cons, List.foldl_cons, ih, position?]
      cases hj : position? name l with
      | some j =>
          show some (entryNode (i + 1 + j)) = some (entryNode (i + (j + 1)))
          rw [Nat.add_right_comm, Nat.add_assoc]
      | none =>
          show (table.insert e.name (entryNode i))[name]? = _
          rw [Std.HashMap.getElem?_insert]
          cases e.name == name <;> rfl

theorem nodeBy?_nameTable (l : Listing N V) : nodeBy? l.nameTable = l.node? := by
  funext t
  cases t with
  | first => rfl
  | last => rfl
  | entry name =>
      rw [nodeBy?, nameTable, getElem?_foldl_insert, node?]
      cases l.position? name <;> simp

theorem layTargets_eq (l : Listing N V) (arc : Nat → Nat × Nat) (g : Network)
    (targets : List (Spot N)) :
    layTargets l.nameTable arc g targets =
      ((targets.filterMap l.node?).map arc).foldlM Network.addArc g := by
  rw [layTargets, nodeBy?_nameTable, List.foldlM_map]
  induction targets generalizing g with
  | nil => rfl
  | cons t targets ih =>
      rw [List.foldlM_cons]
      cases hv : l.node? t with
      | none =>
          rw [List.filterMap_cons_none hv]
          exact ih g
      | some v =>
          rw [List.filterMap_cons_some hv, List.foldlM_cons]
          exact bind_congr ih

theorem layEntry_eq (l : Listing N V) (g : Network) (e : Entry N V) (i : Nat) :
    layEntry l.nameTable g e i = (l.entryArcs e i).foldlM Network.addArc g := by
  rw [entryArcs, List.foldlM_append, ← layTargets_eq, layEntry]
  simp only [layTargets_eq]

/-- Read entry by entry or all at once, the bounds give the same network. -/
theorem lay_eq (l : Listing N V) : l.lay = Network.ofArcs l.nodeCount l.arcs := by
  have hentries : ∀ (es : List (Entry N V × Nat)) (g : Network),
      es.foldlM (fun g (e, i) => layEntry l.nameTable g e i) g =
        (es.flatMap fun (e, i) => l.entryArcs e i).foldlM Network.addArc g := by
    intro es
    induction es with
    | nil => exact fun g => rfl
    | cons x es ih =>
        intro g
        rw [List.foldlM_cons, List.flatMap_cons, List.foldlM_append, ← layEntry_eq]
        simp only [ih]
  rw [Network.ofArcs, arcs, List.foldlM_cons, lay]
  simp only [hentries]

end Table

/-! ## The network -/

theorem ofArcs_of_network {l : Listing N V} {g : Network} (h : l.network = .ok g) :
    Network.ofArcs l.nodeCount l.arcs = .ok g := by
  rw [network] at h
  cases ht : Network.ofArcs l.nodeCount l.arcs with
  | error breach =>
      rw [ht] at h
      cases h
  | ok t =>
      rw [ht] at h
      cases hobj : l.objection? with
      | none =>
          rw [hobj] at h
          cases h
          rfl
      | some reason =>
          rw [hobj] at h
          cases h

/-- Take any listing that is not refused, be its names apart or not.  Its network has a node for
each entry and two for the anchors.  The arcs of the network are those that the bounds declare, in
the order of their declaration, and every end of them is a node.  The lists of successors and the
counts of incoming arcs say, node after node, what the arcs say.  The same network is laid when the
targets are looked up one by one in a table of names, in which a later entry takes the place of an
earlier one of its name.  The lists and the counts agree with the arcs in any network that is laid
arc by arc, whatever the arcs are, as long as their ends exist. -/
theorem network_laid {l : Listing N V} {g : Network} (h : l.network = .ok g) :
    g.size = l.length + 2 ∧ (∀ arcs, l.Laid arcs ↔ arcs = g.arcs) ∧
      (∀ arc ∈ g.arcs, arc.1 < g.size ∧ arc.2 < g.size) ∧ g.InStep ∧
      (∀ [Hashable N] [EquivBEq N] [LawfulHashable N], l.lay = .ok g) ∧
      ∀ n arcs, (∀ arc ∈ arcs, arc.1 < n ∧ arc.2 < n) →
        ∃ t, Network.ofArcs n arcs = .ok t ∧ t.size = n ∧ t.arcs = arcs ∧ t.InStep := by
  have hnet := ofArcs_of_network h
  obtain ⟨t, ht, hdrawn⟩ := exists_drawn l
  obtain rfl : t = g := Except.ok.inj (ht.symm.trans hnet)
  refine ⟨hdrawn.size, ?_, hdrawn.tied.ends, hdrawn.tied.inStep, ?_, ?_⟩
  · intro arcs
    rw [laid_iff, hdrawn.arcs]
  · intro _ _ _
    rw [lay_eq, hnet]
  · intro n arcs hends
    obtain ⟨t, ht, htied, harcs, hsize⟩ := Network.ofArcs_tied hends
    exact ⟨t, ht, hsize, harcs, htied.inStep⟩

/-- The third entry has the name of the first one, in the other case, and so hides it.  The targets
are an anchor, entries ahead and behind, the hidden name, a name that comes twice and one that is
not there. -/
def namesakes : Listing CaseBlind Char :=
  [⟨⟨"x"⟩, 'a', ⟨some [.first, .entry ⟨"b"⟩], some [.entry ⟨"X"⟩, .last]⟩⟩,
    ⟨⟨"B"⟩, 'b', ⟨some [.entry ⟨"gone"⟩, .entry ⟨"x"⟩], none⟩⟩,
    ⟨⟨"X"⟩, 'c', ⟨none, some [.entry ⟨"b"⟩, .entry ⟨"B"⟩]⟩⟩]

/-- The first entry names itself, and its arc leads to the third one.  The arcs of the name that
comes twice are kept and counted both, and so is a loop that is laid twice. -/
theorem network_laid_namesakes :
    ∃ g, namesakes.network = .ok g ∧
      namesakes.Laid [(0, 1), (0, 2), (3, 2), (2, 4), (2, 1), (4, 3), (4, 3), (4, 3)] ∧
      g.next = [[1, 2], [], [4, 1], [2], [3, 3, 3]] ∧ g.incoming = [0, 2, 2, 3, 1] ∧
      namesakes.lay = .ok g ∧
      ∃ t, Network.ofArcs 1 [(0, 0), (0, 0)] = .ok t ∧ t.next = [[0, 0]] ∧ t.incoming = [2] := by
  have hnet : namesakes.network = .ok
      { arcs := [(0, 1), (0, 2), (3, 2), (2, 4), (2, 1), (4, 3), (4, 3), (4, 3)]
        next := [[1, 2], [], [4, 1], [2], [3, 3, 3]]
        incoming := [0, 2, 2, 3, 1] } := rfl
  obtain ⟨-, hlaid, -, hstep, hlay, hall⟩ := network_laid hnet
  obtain ⟨t, ht, hsize, harcs, hnext, hincoming⟩ := hall 1 [(0, 0), (0, 0)] (by decide)
  refine ⟨_, hnet, (hlaid _).mpr rfl, hstep.next, hstep.incoming, hlay, t, ht, ?_, ?_⟩
  · rw [hnext, hsize, harcs]
    decide
  · rw [hincoming, hsize, harcs]
    decide

end Lineup.Listing
