/-
# What sorting a roster comes to

Sorting ends in one of three ways and in no other (`sorted_cases`): the listing is objected to,
or its network is released completely and the entries come out in the order of the release, or
the release is blocked and the blocked nodes come out as a tangle.  No step of it breaks: every
number that is looked up exists, and an order that was released stands all its checks.

The order and the blocked nodes are numbers.  What is handed out goes with them number for number:
an entry's name and value (`Carries`), a spot with the spots behind it (`Heads`).
-/
import Lineup.Roster.Sorted
import Lineup.Proofs.Listing.Objections

namespace Lineup

open List (Forall₂)

theorem exists_mapM {ε α β : Type} {f : α → Except ε β} {R : α → β → Prop} {xs : List α}
    (h : ∀ x ∈ xs, ∃ y, f x = .ok y ∧ R x y) :
    ∃ ys, xs.mapM f = .ok ys ∧ Forall₂ R xs ys := by
  induction xs with
  | nil => exact ⟨[], rfl, .nil⟩
  | cons x xs ih =>
      obtain ⟨y, hy, hxy⟩ := h x List.mem_cons_self
      obtain ⟨ys, hys, hall⟩ := ih fun z hz => h z (List.mem_cons_of_mem _ hz)
      refine ⟨y :: ys, ?_, .cons hxy hall⟩
      simp [List.mapM_cons, hy, hys, bind, Except.bind, pure, Except.pure]

theorem Network.Lines.verify {g : Network} (h : g.Tied) {order : List Nat} (hl : g.Lines order) :
    g.verify order = .ok () := by
  obtain ⟨hcovers, hrespects⟩ := h.lines_iff.mp hl
  have hacyclic : g.acyclic = .ok true := h.whole.acyclic_iff.mpr hl.not_circular
  simp [Network.verify, hacyclic, hcovers, hrespects, bind, Except.bind, pure, Except.pure]

namespace Listing

variable {N V : Type} {l : Listing N V}

/-- The number is that of an entry with this name and value. -/
def Carries (l : Listing N V) (v : Nat) (p : N × V) : Prop :=
  ∃ e, l.entryAt? v = some e ∧ p = (e.name, e.value)

/-- The number is that of the spot which heads the row, and the row goes on with the spots of the
nodes that it leads to. -/
def Heads (l : Listing N V) (g : Network) (v : Nat) (row : Spot N × List (Spot N)) : Prop :=
  l.Denotes v row.1 ∧ Forall₂ l.Denotes (g.behind v) row.2

theorem spotOf_eq_ok {v : Nat} {s : Spot N} (h : l.Denotes v s) : l.spotOf v = .ok s := by
  rw [Denotes] at h
  rw [spotOf, h]

theorem exists_spotOf {v : Nat} (h : v < l.nodeCount) :
    ∃ s, l.spotOf v = .ok s ∧ l.Denotes v s := by
  obtain ⟨s, hs⟩ := exists_denotes h
  exact ⟨s, spotOf_eq_ok hs, hs⟩

theorem exists_inLine {order : List Nat} (h : ∀ v ∈ order, v < l.nodeCount) :
    ∃ line, l.inLine order = .ok line ∧
      Forall₂ l.Carries (order.filter (2 ≤ ·)) line := by
  refine exists_mapM ?_
  intro v hv
  obtain ⟨hmem, hentry⟩ := List.mem_filter.mp hv
  match v, h v hmem, hentry with
  | i + 2, hlt, _ =>
      have hi : i < l.length := Nat.lt_of_add_lt_add_right hlt
      have he : l.entryAt? (i + 2) = some l[i] := List.getElem?_eq_getElem hi
      exact ⟨_, by rw [he], _, he, rfl⟩

variable [BEq N] {g : Network}

theorem Drawn.exists_tangle (hg : l.Drawn g) {rest : List Nat}
    (h : ∀ v ∈ rest, v < l.nodeCount) :
    ∃ t, l.tangle g rest = .ok t ∧ Forall₂ (l.Heads g) rest t.rows := by
  have hrow : ∀ v ∈ rest, ∃ row, (do
      let behind ← (← g.successors v).mapM l.spotOf
      return (← l.spotOf v, behind)) = Except.ok row ∧ l.Heads g v row := by
    intro v hv
    have hsize : v < g.size := hg.size ▸ h v hv
    obtain ⟨s, hspot, hs⟩ := exists_spotOf (h v hv)
    have hspots : ∀ w ∈ g.behind v, ∃ s, l.spotOf w = .ok s ∧ l.Denotes w s :=
      fun w hw => exists_spotOf (hg.size ▸ hg.tied.whole.inside ⟨hsize, hw⟩)
    obtain ⟨behind, hmap, hbehind⟩ := exists_mapM hspots
    refine ⟨(s, behind), ?_, hs, hbehind⟩
    simp [hg.tied.whole.successors hsize, hmap, hspot, bind, Except.bind, pure, Except.pure]
  obtain ⟨rows, hrows, hall⟩ := exists_mapM hrow
  exact ⟨⟨rows⟩, by rw [tangle, hrows]; rfl, hall⟩

end Listing

namespace Roster

variable {N V : Type} [BEq N]

/-- The three ways in which sorting a roster ends, with what every step on the way gives. -/
theorem sorted_steps (r : Roster N V) :
    (∃ reason, r.entries.objection? = some reason ∧
        r.entries.network = .error (.refused reason) ∧ r.sorted = .error (.refused reason)) ∨
    r.entries.objection? = none ∧ ∃ g, r.entries.Drawn g ∧ r.entries.network = .ok g ∧
      ((∃ order line, g.release = .ok (.complete order) ∧ r.entries.inLine order = .ok line ∧
          r.sorted = .ok line ∧ Forall₂ r.entries.Carries (order.filter (2 ≤ ·)) line) ∨
        ∃ rest t, g.release = .ok (.blocked rest) ∧ r.entries.tangle g rest = .ok t ∧
          r.sorted = .error (.refused (.tangled t)) ∧
          Forall₂ (r.entries.Heads g) rest t.rows) := by
  obtain ⟨g, hg, hnet⟩ := r.entries.exists_network
  cases hobj : r.entries.objection? with
  | some reason =>
      left
      have hrefused : r.entries.network = .error (.refused reason) := by rw [hnet, hobj]
      exact ⟨reason, rfl, hrefused, by simp [sorted, hrefused, bind, Except.bind]⟩
  | none =>
      right
      have hdrawn : r.entries.network = .ok g := by rw [hnet, hobj]
      refine ⟨rfl, g, hg, hdrawn, ?_⟩
      rcases Network.release_cases hg.tied.solvent with
        ⟨order, hrel, hlines, -⟩ | ⟨rest, hrel, hleft, -⟩
      · left
        have hlt : ∀ v ∈ order, v < r.entries.nodeCount :=
          fun v hv => hg.size ▸ hlines.mem_iff.mp hv
        obtain ⟨line, hline, hall⟩ := Listing.exists_inLine hlt
        refine ⟨order, line, hrel, hline, ?_, hall⟩
        simp [sorted, hdrawn, hrel, hlines.verify hg.tied, hline, Failure.ofBreach, bind,
          Except.bind]
      · right
        have hlt : ∀ v ∈ rest, v < r.entries.nodeCount :=
          fun v hv => hg.size ▸ (hleft.mem_iff.mp hv).1
        obtain ⟨t, ht, hall⟩ := hg.exists_tangle hlt
        refine ⟨rest, t, hrel, ht, ?_, hall⟩
        simp [sorted, hdrawn, hrel, ht, Failure.ofBreach, bind, Except.bind, throw, throwThe,
          MonadExceptOf.throw]

/-- The same without the steps between network and outcome. -/
theorem sorted_cases (r : Roster N V) :
    (∃ reason, r.entries.objection? = some reason ∧ r.sorted = .error (.refused reason)) ∨
    r.entries.objection? = none ∧ ∃ g, r.entries.Drawn g ∧
      ((∃ order line, g.release = .ok (.complete order) ∧ r.sorted = .ok line ∧
          Forall₂ r.entries.Carries (order.filter (2 ≤ ·)) line) ∨
        ∃ rest t, g.release = .ok (.blocked rest) ∧ r.sorted = .error (.refused (.tangled t)) ∧
          Forall₂ (r.entries.Heads g) rest t.rows) := by
  rcases sorted_steps r with ⟨reason, hobj, -, hs⟩ |
    ⟨hobj, g, hg, -, ⟨order, line, hrel, -, hs, hall⟩ | ⟨rest, t, hrel, -, hs, hall⟩⟩
  · exact Or.inl ⟨reason, hobj, hs⟩
  · exact Or.inr ⟨hobj, g, hg, Or.inl ⟨order, line, hrel, hs, hall⟩⟩
  · exact Or.inr ⟨hobj, g, hg, Or.inr ⟨rest, t, hrel, hs, hall⟩⟩

theorem release_of_line {r : Roster N V} {line : List (N × V)} (h : r.sorted = .ok line) :
    ∃ g order, r.entries.Drawn g ∧ g.release = .ok (.complete order) ∧
      Forall₂ r.entries.Carries (order.filter (2 ≤ ·)) line := by
  rcases sorted_cases r with
    ⟨reason, -, hs⟩ | ⟨-, g, hg, ⟨order, line', hrel, hs, hall⟩ | ⟨rest, t, -, hs, -⟩⟩
  · rw [h] at hs
    cases hs
  · rw [h] at hs
    cases hs
    exact ⟨g, order, hg, hrel, hall⟩
  · rw [h] at hs
    cases hs

theorem release_of_tangle {r : Roster N V} {t : Tangle N}
    (h : r.sorted = .error (.refused (.tangled t))) :
    ∃ g rest, r.entries.Drawn g ∧ g.release = .ok (.blocked rest) ∧
      Forall₂ (r.entries.Heads g) rest t.rows := by
  rcases sorted_cases r with
    ⟨reason, hobj, hs⟩ | ⟨-, g, hg, ⟨order, line, -, hs, -⟩ | ⟨rest, t', hrel, hs, hall⟩⟩
  · rw [h] at hs
    cases hs
    obtain ⟨side, names, hunmet⟩ := Listing.exists_unmet hobj
    cases hunmet
  · rw [h] at hs
    cases hs
  · rw [h] at hs
    cases hs
    exact ⟨g, rest, hg, hrel, hall⟩

end Roster

end Lineup
