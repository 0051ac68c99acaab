/-
# Networks with other arcs that are released alike

An arc that is laid several times gives a network other counts and other lists of successors, and
its release uses up more arcs.  Yet the order in which the nodes come out asks of a list of
successors only which nodes stand in it and in which order they stand in it for the last time
(`SameLasts`): that much decides who leads to whom, who frees whom and in which order the freed
ones go in front.  So networks that agree in it have the same forest order, and since a complete
release gives that order, they are released alike (`Tied.release_of_sameLasts`).

Networks whose lists of successors are the same throughout have the same counts too, though their
arcs may have been laid in another order, and so a blocked release leaves the same nodes in both
(`Tied.release_eq`).  In either case rows that are put together from pieces can be compared piece
by piece (`Piecewise`).
-/
import Mathlib.Data.List.Forall2
import Lineup.Proofs.Network.Preorder

namespace Lineup.Network

open List (Forall₂)

/-! ## Comparing rows of nodes -/

/-- A way to compare rows that holds of the same row and may be applied piece by piece. -/
structure Piecewise {α : Type} (Q : List α → List α → Prop) : Prop where
  refl : ∀ xs, Q xs xs
  append : ∀ {xs ys xs' ys'}, Q xs ys → Q xs' ys' → Q (xs ++ xs') (ys ++ ys')

theorem piecewise_eq {α : Type} : Piecewise (α := α) (· = ·) where
  refl := fun _ => rfl
  append := fun h h' => h ▸ h' ▸ rfl

theorem Piecewise.flatMap {α β γ : Type} {Q : List γ → List γ → Prop} (hQ : Piecewise Q)
    {R : α → β → Prop} {f : α → List γ} {k : β → List γ} {xs : List α} {ys : List β}
    (h : Forall₂ R xs ys) (hpiece : ∀ {x y}, R x y → Q (f x) (k y)) :
    Q (xs.flatMap f) (ys.flatMap k) := by
  induction h with
  | nil => exact hQ.refl []
  | cons hxy _ ih =>
      rw [List.flatMap_cons, List.flatMap_cons]
      exact hQ.append (hpiece hxy) ih

/-- The same nodes stand in both rows, and they stand there for the last time in the same order. -/
structure SameLasts (xs ys : List Nat) : Prop where
  mem : ∀ v, v ∈ xs ↔ v ∈ ys
  last : ∀ v w, xs.reverse.idxOf v < xs.reverse.idxOf w ↔ ys.reverse.idxOf v < ys.reverse.idxOf w

theorem idxOf_append_lt_iff {xs ys : List Nat} {v w : Nat} :
    (xs ++ ys).idxOf v < (xs ++ ys).idxOf w ↔
      (v ∈ xs ∧ xs.idxOf v < xs.idxOf w) ∨ (v ∉ xs ∧ w ∉ xs ∧ ys.idxOf v < ys.idxOf w) := by
  by_cases hv : v ∈ xs
  · have hlt : xs.idxOf v < xs.length := List.idxOf_lt_length_of_mem hv
    by_cases hw : w ∈ xs
    · simp [List.idxOf_append_of_mem hv, List.idxOf_append_of_mem hw, hv, hw]
    · rw [List.idxOf_append_of_mem hv, List.idxOf_append_of_notMem hw, List.idxOf_of_notMem hw]
      exact iff_of_true (Nat.lt_of_lt_of_le hlt (Nat.le_add_right _ _)) (Or.inl ⟨hv, hlt⟩)
  · by_cases hw : w ∈ xs
    · have hlt : xs.idxOf w < xs.length := List.idxOf_lt_length_of_mem hw
      rw [List.idxOf_append_of_notMem hv, List.idxOf_append_of_mem hw]
      refine iff_of_false (by omega) ?_
      rintro (⟨hv', -⟩ | ⟨-, hw', -⟩)
      · exact hv hv'
      · exact hw' hw
    · simp [List.idxOf_append_of_notMem hv, List.idxOf_append_of_notMem hw, hv, hw]

theorem piecewise_sameLasts : Piecewise SameLasts where
  refl := fun _ => ⟨fun _ => Iff.rfl, fun _ _ => Iff.rfl⟩
  append := by
    intro xs ys xs' ys' h h'
    constructor
    · intro v
      rw [List.mem_append, List.mem_append, h.mem, h'.mem]
    · intro v w
      simp only [List.reverse_append, idxOf_append_lt_iff, List.mem_reverse, h'.mem, h.last, h'.last]

theorem idxOf_replicate_lt_iff {n v a b : Nat} :
    (List.replicate (n + 1) v).idxOf a < (List.replicate (n + 1) v).idxOf b ↔ v = a ∧ v ≠ b := by
  have hplace : ∀ c, c ≠ v → (List.replicate (n + 1) v).idxOf c = n + 1 := by
    intro c hc
    rw [List.idxOf_of_notMem fun hmem => hc (List.eq_of_mem_replicate hmem), List.length_replicate]
  by_cases ha : v = a
  · subst ha
    by_cases hb : v = b
    · simp [hb]
    · simp [hb, List.replicate_succ]
  · rw [hplace a (Ne.symm ha)]
    have hle : (List.replicate (n + 1) v).idxOf b ≤ n + 1 :=
      List.idxOf_le_length.trans_eq List.length_replicate
    exact iff_of_false (Nat.not_lt.mpr hle) fun h => ha h.1

theorem sameLasts_replicate {m n : Nat} (h : m = 0 ↔ n = 0) (v : Nat) :
    SameLasts (List.replicate m v) (List.replicate n v) := by
  cases m with
  | zero =>
      obtain rfl := h.mp rfl
      exact piecewise_sameLasts.refl _
  | succ m =>
      cases n with
      | zero => exact absurd (h.mpr rfl) (Nat.succ_ne_zero m)
      | succ n =>
          refine ⟨by simp, ?_⟩
          intro a b
          rw [List.reverse_replicate, List.reverse_replicate, idxOf_replicate_lt_iff,
            idxOf_replicate_lt_iff]

/-! ## Networks that agree in the last arcs -/

section Agree

variable {g h : Network} {order : List Nat}

theorem leads_eq_of_sameLasts (hsize : g.size = h.size)
    (hsame : ∀ u, SameLasts (g.behind u) (h.behind u)) : g.Leads = h.Leads := by
  funext u v
  rw [Leads, Leads, hsize, (hsame u).mem]

theorem ForestOrder.of_sameLasts (hg : g.Tied) (hh : h.Tied) (hsize : g.size = h.size)
    (hsame : ∀ u, SameLasts (g.behind u) (h.behind u)) (hforest : g.ForestOrder order) :
    h.ForestOrder order := by
  have hleads := leads_eq_of_sameLasts hsize hsame
  have hfrees : g.Frees order = h.Frees order := by
    funext u v
    rw [Frees, Frees, hleads]
  have hroots : ∀ v, v ∈ h.roots ↔ v ∈ g.roots := by
    intro v
    rw [hh.mem_roots_iff, hg.mem_roots_iff, hsize, hleads]
  refine ⟨⟨hsize ▸ hforest.lines.perm, ?_⟩, ?_, hfrees ▸ hforest.block, ?_⟩
  · intro pre v post horder u huv
    exact hforest.lines.obeys pre v post horder u (hleads ▸ huv)
  · intro v hv w hw
    exact hforest.roots v ((hroots v).mp hv) w ((hroots w).mp hw)
  · intro u v w huv huw
    rw [hforest.siblings u v w (hfrees ▸ huv) (hfrees ▸ huw), LastAfter, LastAfter, (hsame u).last]

/-- Tied networks whose lists of successors agree in their nodes and in the order of last arcs are
released alike, if they are released completely. -/
theorem Tied.release_of_sameLasts (hg : g.Tied) (hh : h.Tied) (hsize : g.size = h.size)
    (hsame : ∀ u, SameLasts (g.behind u) (h.behind u)) (hrel : g.release = .ok (.complete order)) :
    h.release = .ok (.complete order) := by
  have hforest := (hg.forestOrder_of_release hrel).of_sameLasts hg hh hsize hsame
  obtain ⟨order', hrel', -⟩ := hh.release_of_not_circular hforest.lines.not_circular
  rw [hrel', hforest.unique hh (hh.forestOrder_of_release hrel')]

/-! ## Networks that agree in all arcs -/

theorem run_congr (hnext : g.next = h.next) (s : Sweep) : s.run g = s.run h := by
  have hsucc : ∀ v, g.successors v = h.successors v := by
    intro v
    rw [successors, successors, hnext]
  fun_induction Sweep.run g s with
  | case1 waiting emitted => rw [Sweep.run]
  | case2 waiting v ready emitted b hb => rw [Sweep.run, ← hsucc, hb]
  | case3 waiting v ready emitted out hout b hb =>
      rw [Sweep.run, ← hsucc, hout]
      simp only
      split <;> simp_all
  | case4 waiting v ready emitted out hout t ht ih =>
      rw [Sweep.run, ← hsucc, hout]
      simp only
      split <;> simp_all

theorem Tied.views_eq (hg : g.Tied) (hh : h.Tied) (hsize : g.size = h.size)
    (hsame : ∀ u, g.behind u = h.behind u) : g.next = h.next ∧ g.incoming = h.incoming := by
  have hdue : ∀ v, g.due v = h.due v := by
    intro v
    rw [← hg.demand_eq, ← hh.demand_eq, demand, demand, hsize, spent, spent, funext hsame]
  constructor
  · refine List.ext_getElem? fun v => ?_
    by_cases hv : v < g.size
    · rw [next_of_lt (hg.length ▸ hv), next_of_lt (hh.length ▸ hsize ▸ hv), hsame]
    · have hout : g.size ≤ v := Nat.le_of_not_lt hv
      rw [List.getElem?_eq_none (hg.length ▸ hout),
        List.getElem?_eq_none (hh.length ▸ hsize ▸ hout)]
  · refine List.ext_getElem? fun v => ?_
    by_cases hv : v < g.size
    · rw [incoming_of_lt hv, incoming_of_lt (hsize ▸ hv), hdue]
    · have hout : g.size ≤ v := Nat.le_of_not_lt hv
      have hout' : h.size ≤ v := hsize ▸ hout
      rw [List.getElem?_eq_none hout, List.getElem?_eq_none hout']

theorem Tied.release_eq (hg : g.Tied) (hh : h.Tied) (hsize : g.size = h.size)
    (hsame : ∀ u, g.behind u = h.behind u) : g.release = h.release := by
  obtain ⟨hnext, hcounts⟩ := hg.views_eq hh hsize hsame
  have hstart : g.start = h.start := by
    rw [start, start, roots, roots, hcounts, hsize]
  rw [release, release, hstart, hsize, run_congr hnext]

end Agree

end Lineup.Network
