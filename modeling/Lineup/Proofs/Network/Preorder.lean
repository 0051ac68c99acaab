/-
# The release goes through its forest in preorder

When a node is emitted, the nodes that it frees go to the front of the row.  These are the nodes
whose last arc comes from it, and each goes in front of those that got theirs before.  So the row
behind an emitted node is made of the nodes that it frees, by the last arcs into them, and of those
that were ready before (`Turn`).

The row is never reordered.  A node that comes up between a node and one that it frees did not
stand in the row, so it still waited for a node that comes up in between too, and so on back to the
start (`Tied.freed_of_between`).  What a node frees, directly or through others, therefore comes in
one piece behind it, and the release is the one forest order of its network
(`release_forest_order`).
-/
import Mathlib.Data.List.Permutation
import Lineup.Proofs.Network.Forest

namespace Lineup

open Relation

namespace Sweep

variable {g : Network} {s t : Sweep}

/-! ## Arrivals and the front of the row -/

theorem arrive_ready {w : Nat} (h : s.arrive w = .ok t) :
    t.ready = s.ready ∨ t.ready = w :: s.ready ∧ t.waiting[w]? = some 0 := by
  unfold arrive at h
  split at h
  · cases h
  · cases h
  · rename_i hw
    obtain rfl := Except.ok.inj h
    exact Or.inr ⟨rfl, List.getElem?_set_self (List.getElem?_eq_some_iff.mp hw).1⟩
  · obtain rfl := Except.ok.inj h
    exact Or.inl rfl

theorem arrive_full {v w : Nat} (hv : s.waiting[v]? = some 0) (h : s.arrive w = .ok t) :
    w ≠ v ∧ t.waiting[v]? = some 0 := by
  have hwv : w ≠ v := by
    rintro rfl
    simp [arrive, hv] at h
  refine ⟨hwv, ?_⟩
  unfold arrive at h
  split at h
  · cases h
  · cases h
  · obtain rfl := Except.ok.inj h
    exact (List.getElem?_set_ne hwv).trans hv
  · obtain rfl := Except.ok.inj h
    exact (List.getElem?_set_ne hwv).trans hv

theorem arrivals_full {out : List Nat} {v : Nat} (hv : s.waiting[v]? = some 0)
    (h : out.foldlM arrive s = .ok t) : v ∉ out := by
  induction out generalizing s with
  | nil => exact List.not_mem_nil
  | cons w out ih =>
      obtain ⟨u, hu, h⟩ := arrivals_cons h
      obtain ⟨hwv, hfull⟩ := arrive_full hv hu
      rw [List.mem_cons, not_or]
      exact ⟨hwv.symm, ih hfull h⟩

theorem idxOf_reverse_cons {out : List Nat} {v w : Nat} (hv : v ∈ out) :
    (w :: out).reverse.idxOf v = out.reverse.idxOf v := by
  rw [List.reverse_cons, List.idxOf_append_of_mem (List.mem_reverse.mpr hv)]

theorem idxOf_reverse_cons_self {out : List Nat} {w : Nat} (hw : w ∉ out) :
    (w :: out).reverse.idxOf w = out.reverse.length := by
  rw [List.reverse_cons, List.idxOf_append_of_notMem (mt List.mem_reverse.mp hw),
    List.idxOf_cons_self, Nat.add_zero]

/-- What a row of arrivals makes ready stands in front by the last arrivals, the latest first. -/
theorem arrivals_new {out : List Nat} (h : out.foldlM arrive s = .ok t) :
    ∃ new, t.ready = new ++ s.ready ∧ new ⊆ out ∧
      new.Pairwise fun v w => out.reverse.idxOf v < out.reverse.idxOf w := by
  induction out generalizing s with
  | nil =>
      cases h
      exact ⟨[], rfl, List.Subset.refl _, .nil⟩
  | cons w out ih =>
      obtain ⟨u, hu, h⟩ := arrivals_cons h
      obtain ⟨new, hready, hsubset, hlast⟩ := ih h
      have hlast' : new.Pairwise fun v x =>
          (w :: out).reverse.idxOf v < (w :: out).reverse.idxOf x := by
        refine hlast.imp_of_mem ?_
        intro v x hv hx hvx
        rwa [idxOf_reverse_cons (hsubset hv), idxOf_reverse_cons (hsubset hx)]
      rcases arrive_ready hu with hrow | ⟨hrow, hfull⟩
      · exact ⟨new, by rw [hready, hrow], List.subset_cons_of_subset w hsubset, hlast'⟩
      · -- nothing arrives at `w` any more, so this was its last arc
        have hw : w ∉ out := arrivals_full hfull h
        refine ⟨new ++ [w], by rw [hready, hrow]; simp, ?_, ?_⟩
        · intro v hv
          rcases List.mem_append.mp hv with hv | hv
          · exact List.mem_cons_of_mem w (hsubset hv)
          · exact List.mem_singleton.mp hv ▸ List.mem_cons_self
        · refine List.pairwise_append.mpr ⟨hlast', List.pairwise_singleton _ _, ?_⟩
          intro v hv x hx
          obtain rfl := List.mem_singleton.mp hx
          rw [idxOf_reverse_cons (hsubset hv), idxOf_reverse_cons_self hw]
          exact List.idxOf_lt_length_of_mem (List.mem_reverse.mpr (hsubset hv))

/-! ## Every place of the order is a stage of the sweep -/

theorem Sound.run_emit (hg : g.Solvent) (h : Sound g s) {order pre rest : List Nat} {u : Nat}
    (hrun : s.run g = .ok order) (horder : order = pre ++ u :: rest)
    (hlen : s.emitted.length ≤ pre.length) :
    ∃ waiting row t, Sound g ⟨waiting, u :: row, pre⟩ ∧
      (g.behind u).foldlM arrive ⟨waiting, row, pre ++ [u]⟩ = .ok t ∧ Sound g t ∧
        t.run g = .ok order := by
  fun_induction Sweep.run g s with
  | case1 waiting emitted =>
      obtain rfl := Except.ok.inj hrun
      have hlen' : (pre ++ u :: rest).length ≤ pre.length := horder ▸ hlen
      rw [List.length_append, List.length_cons] at hlen'
      omega
  | case2 => cases hrun
  | case3 => cases hrun
  | case4 waiting v ready emitted out hout t ht ih =>
      obtain ⟨rfl, hsound, hemitted⟩ := h.next hg hout ht
      have hlen' : emitted.length ≤ pre.length := hlen
      rcases Nat.lt_or_eq_of_le hlen' with hlt | heq
      · exact ih hsound hrun (by simp [hemitted]; omega)
      · obtain ⟨later, hlater, -⟩ := run_row hrun
        have hsplit : emitted ++ v :: later = pre ++ u :: rest := by
          rw [← horder, hlater, hemitted]
          simp
        obtain ⟨rfl, htail⟩ := List.append_inj hsplit heq
        obtain ⟨rfl, -⟩ := List.cons.inj htail
        exact ⟨waiting, ready, t, h, ht, hsound, hrun⟩

/-- Where the counts are exact, a node is handed out with the last node that leads to it. -/
theorem Sound.handed_iff (hg : g.Tied) (h : Sound g s) {v : Nat} :
    v ∈ s.emitted ++ s.ready ↔ v < g.size ∧ ∀ u, g.Leads u v → u ∈ s.emitted := by
  constructor
  · intro hv
    refine ⟨h.steady.lt_size hv, ?_⟩
    intro u huv
    have hall : (g.spent s.emitted).count v = g.demand v :=
      (h.steady.count_eq hv).trans (hg.demand_eq v).symm
    exact Network.mem_of_count_eq h.nodup h.lt_size hall huv
  · rintro ⟨hlt, hback⟩
    obtain ⟨k, hk⟩ : ∃ k, s.waiting[v]? = some k :=
      ⟨_, List.getElem?_eq_getElem (h.steady.length ▸ hlt)⟩
    have hbal := h.steady.balance hk
    have hexact := hg.demand_eq v
    have hle := Network.count_spent_le h.nodup h.lt_size v
    have hzero : ¬ (g.spent s.emitted).count v < g.demand v := by
      intro hless
      obtain ⟨u, ⟨-, hu⟩, huv⟩ := Network.exists_leads_of_count_lt h.nodup h.lt_size hless
      exact hu (hback u huv)
    obtain rfl : k = 0 := by omega
    exact h.steady.handed.mpr hk

end Sweep

namespace Network

variable {g : Network} {order pre rest : List Nat} {u v w : Nat}

/-! ## Two facts about lists -/

theorem pairwise_agree {xs : List Nat} {f k : Nat → Nat} (hf : xs.Pairwise (f · < f ·))
    (hk : xs.Pairwise (k · < k ·)) {a b : Nat} (ha : a ∈ xs) (hb : b ∈ xs) :
    f a < f b ↔ k a < k b := by
  induction xs with
  | nil => exact absurd ha List.not_mem_nil
  | cons x xs ih =>
      obtain ⟨hfx, hfxs⟩ := List.pairwise_cons.mp hf
      obtain ⟨hkx, hkxs⟩ := List.pairwise_cons.mp hk
      rcases List.mem_cons.mp ha with hax | ha <;> rcases List.mem_cons.mp hb with hbx | hb
      · rw [hax, hbx]
        exact iff_of_false (Nat.lt_irrefl _) (Nat.lt_irrefl _)
      · rw [hax]
        exact iff_of_true (hfx b hb) (hkx b hb)
      · rw [hbx]
        exact iff_of_false (Nat.lt_asymm (hfx a ha)) (Nat.lt_asymm (hkx a ha))
      · exact ih hfxs hkxs ha hb

/-- A property that is passed on from each member of a list to those ahead of it holds of a front
part of the list and of nothing else in it. -/
theorem exists_front {P : Nat → Prop} {xs : List Nat} (h : xs.Pairwise fun a b => P b → P a) :
    ∃ front back, xs = front ++ back ∧ (∀ v ∈ front, P v) ∧ ∀ v ∈ back, ¬ P v := by
  induction xs with
  | nil => exact ⟨[], [], rfl, by simp, by simp⟩
  | cons x xs ih =>
      obtain ⟨hx, hxs⟩ := List.pairwise_cons.mp h
      by_cases hPx : P x
      · obtain ⟨front, back, rfl, hfront, hback⟩ := ih hxs
        exact ⟨x :: front, back, rfl, List.forall_mem_cons.mpr ⟨hPx, hfront⟩, hback⟩
      · refine ⟨[], x :: xs, rfl, by simp, List.forall_mem_cons.mpr ⟨hPx, ?_⟩⟩
        intro v hv hPv
        exact hPx (hx v hv hPv)

/-! ## The turn of a node -/

/-- The turn of `u`, which stands behind `pre` and ahead of `rest`: the nodes `old` were ready with
it, and the nodes `new` became ready by its arcs and went in front of them.  Before the turn as
after it, emitted or ready is whatever only emitted nodes lead to. -/
structure Turn (g : Network) (order pre : List Nat) (u : Nat) (rest new old : List Nat) : Prop where
  split : order = pre ++ u :: rest
  ready : (new ++ old).Sublist rest
  last : new.Pairwise (g.LastAfter u)
  before : ∀ {v}, v ∈ pre ++ u :: old ↔ v < g.size ∧ ∀ w, g.Leads w v → w ∈ pre
  after : ∀ {v}, v ∈ (pre ++ [u]) ++ (new ++ old) ↔
    v < g.size ∧ ∀ w, g.Leads w v → w ∈ pre ++ [u]

theorem Tied.exists_turn (hg : g.Tied) (hrel : g.release = .ok (.complete order))
    (horder : order = pre ++ u :: rest) : ∃ new old, g.Turn order pre u rest new old := by
  obtain ⟨waiting, old, t, hbefore, harrivals, hafter, hrun⟩ :=
    (Sweep.Sound.start g).run_emit hg.solvent (run_of_release hrel) horder (Nat.zero_le _)
  obtain ⟨new, hready, -, hlast⟩ := Sweep.arrivals_new harrivals
  obtain ⟨hemitted, -⟩ := Sweep.arrivals_row harrivals
  refine ⟨new, old, horder, ?_, hlast, hbefore.handed_iff hg, ?_⟩
  · obtain ⟨later, hlater, hsub⟩ := Sweep.run_row hrun
    rw [hemitted, horder, List.append_assoc] at hlater
    obtain ⟨-, rfl⟩ := List.cons.inj (List.append_cancel_left hlater)
    exact hready ▸ hsub
  · intro v
    have h := hafter.handed_iff hg (v := v)
    rwa [hemitted, hready] at h

namespace Turn

variable {new old : List Nat}

theorem nodup (h : g.Lines order) (ht : g.Turn order pre u rest new old) :
    ((pre ++ [u]) ++ (new ++ old)).Nodup := by
  have hsub : ((pre ++ [u]) ++ (new ++ old)).Sublist ((pre ++ [u]) ++ rest) :=
    ht.ready.append_left _
  refine h.nodup.sublist ?_
  rw [ht.split]
  simpa using hsub

theorem mem_upto (h : g.Lines order) (ht : g.Turn order pre u rest new old) :
    w ∈ pre ++ [u] ↔ order.idxOf w ≤ order.idxOf u :=
  mem_upto_iff h.nodup ht.split

theorem pairwise_ready (h : g.Lines order) (ht : g.Turn order pre u rest new old) :
    (new ++ old).Pairwise fun v w => order.idxOf v < order.idxOf w :=
  (pairwise_idxOf h.nodup).sublist (ht.ready.trans (past_sublist ht.split))

theorem mem_new_iff (hg : g.Whole) (h : g.Lines order) (ht : g.Turn order pre u rest new old) :
    v ∈ new ↔ g.Frees order u v := by
  have hnd := ht.nodup h
  constructor
  · intro hv
    obtain ⟨hlt, hback⟩ := ht.after.mp (List.mem_append_right _ (List.mem_append_left _ hv))
    -- it was not ready before, so one of its arcs was still to come
    have hnew : v ∉ pre ++ u :: old := by grind
    obtain ⟨w, hwv, hw⟩ : ∃ w, g.Leads w v ∧ w ∉ pre := by
      by_contra! hnone
      exact hnew (ht.before.mpr ⟨hlt, hnone⟩)
    obtain rfl : w = u :=
      List.mem_singleton.mp ((List.mem_append.mp (hback w hwv)).resolve_left hw)
    exact ⟨hwv, fun x hxv => (ht.mem_upto h).mp (hback x hxv)⟩
  · intro huv
    have hready : v ∈ (pre ++ [u]) ++ (new ++ old) :=
      ht.after.mpr ⟨hg.inside huv.1, fun w hwv => (ht.mem_upto h).mpr (huv.2 w hwv)⟩
    have hfront : v ∉ pre ++ [u] := by
      rw [ht.mem_upto h, Nat.not_le]
      exact h.idxOf_lt huv.1
    have hold : v ∉ old := by
      intro hold
      have hu : u ∈ pre := (ht.before.mp (by simp [hold])).2 u huv.1
      exact not_mem_ahead h.nodup ht.split hu
    have hrow : v ∈ new ++ old := (List.mem_append.mp hready).resolve_left hfront
    exact (List.mem_append.mp hrow).resolve_right hold

theorem exists_later (h : g.Lines order) (ht : g.Turn order pre u rest new old)
    (hv : v < g.size) (huv : order.idxOf u < order.idxOf v) (hnot : v ∉ new ++ old) :
    ∃ q, g.Leads q v ∧ order.idxOf u < order.idxOf q := by
  by_contra! hnone
  have hback : ∀ w, g.Leads w v → w ∈ pre ++ [u] :=
    fun w hwv => (ht.mem_upto h).mpr (hnone w hwv)
  rcases List.mem_append.mp (ht.after.mpr ⟨hv, hback⟩) with hfront | hready
  · exact absurd huv (Nat.not_lt.mpr ((ht.mem_upto h).mp hfront))
  · exact hnot hready

/-- Whoever comes up between a node and one that it frees is freed by it as well, or by a node that
comes up in between too. -/
theorem frees_between (hg : g.Whole) (h : g.Lines order) (ht : g.Turn order pre u rest new old)
    (huw : g.Frees order u w) (huv : order.idxOf u < order.idxOf v)
    (hvw : order.idxOf v < order.idxOf w) :
    ∃ q, g.Frees order q v ∧ order.idxOf u ≤ order.idxOf q := by
  have hv : v < g.size := by
    refine h.mem_iff.mp (List.idxOf_lt_length_iff.mp ?_)
    exact Nat.lt_of_lt_of_le hvw List.idxOf_le_length
  by_cases hready : v ∈ new ++ old
  · rcases List.mem_append.mp hready with hnew | hold
    · exact ⟨u, (ht.mem_new_iff hg h).mp hnew, Nat.le_refl _⟩
    · -- what was ready before comes after all that is freed now
      have hready := List.pairwise_append.mp (ht.pairwise_ready h)
      have hwv := hready.2.2 w ((ht.mem_new_iff hg h).mpr huw) v hold
      exact absurd hwv (Nat.lt_asymm hvw)
  · obtain ⟨p, hpv, hup⟩ := ht.exists_later h hv huv hready
    obtain ⟨q, hqv⟩ := exists_frees order hpv
    exact ⟨q, hqv, Nat.le_trans (Nat.le_of_lt hup) (hqv.2 p hpv)⟩

end Turn

/-! ## The release is a forest order -/

theorem Tied.freed_of_between (hg : g.Tied) (hrel : g.release = .ok (.complete order))
    (huw : g.Frees order u w) (huv : order.idxOf u < order.idxOf v)
    (hvw : order.idxOf v < order.idxOf w) : TransGen (g.Frees order) u v := by
  have h := hg.lines_of_release hrel
  obtain ⟨pre, rest, horder⟩ := List.append_of_mem (h.mem_iff.mpr huw.1.1)
  obtain ⟨new, old, ht⟩ := hg.exists_turn hrel horder
  -- the node that frees `v` comes up earlier than `v`, and not before `u`
  induction hplace : order.idxOf v using Nat.strong_induction_on generalizing v with
  | _ n ih =>
      obtain ⟨q, hqv, huq⟩ := ht.frees_between hg.whole h huw huv hvw
      have hlt : order.idxOf q < order.idxOf v := h.idxOf_lt hqv.1
      rcases Nat.lt_or_eq_of_le huq with huq | huq
      · exact (ih _ (hplace ▸ hlt) huq (Nat.lt_trans hlt hvw) rfl).tail hqv
      · obtain rfl : u = q := (h.idxOf_inj huw.1.1).mp huq
        exact .single hqv

theorem Tied.freed_convex (hg : g.Tied) (hrel : g.release = .ok (.complete order))
    (huw : TransGen (g.Frees order) u w) (huv : order.idxOf u < order.idxOf v)
    (hvw : order.idxOf v < order.idxOf w) : TransGen (g.Frees order) u v := by
  have h := hg.lines_of_release hrel
  induction huw with
  | single huw => exact hg.freed_of_between hrel huw huv hvw
  | @tail x w hux hxw ih =>
      rcases Nat.lt_trichotomy (order.idxOf v) (order.idxOf x) with hvx | hvx | hxv
      · exact ih hvx
      · obtain rfl : x = v := (h.idxOf_inj hxw.1.1).mp hvx.symm
        exact hux
      · exact hux.trans (hg.freed_of_between hrel hxw hxv hvw)

/-- What a node frees, directly or through others, comes in one piece behind it. -/
theorem Tied.freed_block (hg : g.Tied) (hrel : g.release = .ok (.complete order))
    (horder : order = pre ++ u :: rest) : ∃ freed later, rest = freed ++ later ∧
      ∀ v, v ∈ freed ↔ TransGen (g.Frees order) u v := by
  have h := hg.lines_of_release hrel
  have hrest : rest.Sublist order := past_sublist horder
  have hconvex : rest.Pairwise fun v w =>
      TransGen (g.Frees order) u w → TransGen (g.Frees order) u v := by
    refine ((pairwise_idxOf h.nodup).sublist hrest).imp_of_mem ?_
    intro v w hv _ hvw huw
    have huv := (mem_past_iff h.nodup horder (hrest.subset hv)).mp hv
    exact hg.freed_convex hrel huw huv hvw
  obtain ⟨freed, later, hsplit, hfreed, hlater⟩ := exists_front hconvex
  refine ⟨freed, later, hsplit, fun v => ⟨hfreed v, ?_⟩⟩
  intro huv
  obtain ⟨w, -, hwv⟩ := TransGen.tail'_iff.mp huv
  have hv : v ∈ order := h.mem_iff.mpr (hg.whole.inside hwv.1)
  have hmem : v ∈ rest := (mem_past_iff h.nodup horder hv).mpr (freed_idxOf_lt h huv)
  rw [hsplit] at hmem
  exact (List.mem_append.mp hmem).resolve_right fun hback => hlater v hback huv

theorem Tied.forestOrder_of_release (hg : g.Tied) (hrel : g.release = .ok (.complete order)) :
    g.ForestOrder order := by
  have h := hg.lines_of_release hrel
  refine ⟨h, ?_, fun pre u rest => hg.freed_block hrel, ?_⟩
  · intro v hv w hw hvw
    have hroots := (pairwise_idxOf h.nodup).sublist (roots_sublist hrel)
    exact (pairwise_agree hroots (k := id) (roots_ascending g) hv hw).mpr hvw
  · intro u v w huv huw
    obtain ⟨pre, rest, horder⟩ := List.append_of_mem (h.mem_iff.mpr huv.1.1)
    obtain ⟨new, old, ht⟩ := hg.exists_turn hrel horder
    have hnew := (List.pairwise_append.mp (ht.pairwise_ready h)).1
    have hv := (ht.mem_new_iff hg.whole h).mpr huv
    have hw := (ht.mem_new_iff hg.whole h).mpr huw
    exact pairwise_agree (k := (g.behind u).reverse.idxOf) hnew ht.last hv hw

/-- Arcs between the nodes of a network can be laid.  If they close no circle, the release puts all
nodes in line, in the one order that is the preorder of its own forest. -/
theorem release_forest_order {n : Nat} {arcs : List (Nat × Nat)}
    (hends : ∀ arc ∈ arcs, arc.1 < n ∧ arc.2 < n) :
    ∃ g, ofArcs n arcs = .ok g ∧ g.arcs = arcs ∧ g.size = n ∧
      (¬ g.Circular → ∃ order, g.release = .ok (.complete order) ∧
        ∀ other, g.ForestOrder other ↔ other = order) := by
  obtain ⟨g, hg, h, harcs, hsize⟩ := ofArcs_tied hends
  refine ⟨g, hg, harcs, hsize, ?_⟩
  intro hline
  obtain ⟨order, hrel, -⟩ := h.release_of_not_circular hline
  have hforest := h.forestOrder_of_release hrel
  refine ⟨order, hrel, fun other => ⟨fun hother => hother.unique h hforest, ?_⟩⟩
  rintro rfl
  exact hforest

/-- Node 2 gets its last arc from node 0 after node 3 and so goes ahead of it; node 4, to which
nodes 1 and 3 lead, is freed by the root that comes last. -/
theorem release_forest_order_repeated :
    (∀ arc ∈ [(0, 2), (0, 3), (0, 2), (1, 4), (3, 4)], arc.1 < 5 ∧ arc.2 < 5) ∧
      ∃ g, ofArcs 5 [(0, 2), (0, 3), (0, 2), (1, 4), (3, 4)] = .ok g ∧ ¬ g.Circular ∧
        g.release = .ok (.complete [0, 2, 3, 1, 4]) ∧
        ∀ other, g.ForestOrder other ↔ other = [0, 2, 3, 1, 4] := by
  have hends : ∀ arc ∈ [(0, 2), (0, 3), (0, 2), (1, 4), (3, 4)], arc.1 < 5 ∧ arc.2 < 5 := by
    decide
  obtain ⟨g, hg, -, -, hforest⟩ := release_forest_order hends
  obtain ⟨h, hg', htied, -, -⟩ := ofArcs_tied hends
  obtain rfl := Except.ok.inj (hg.symm.trans hg')
  have hline : ¬ g.Circular := by
    refine htied.whole.acyclic_iff.mp ?_
    obtain rfl := Except.ok.inj hg
    rfl
  obtain ⟨order, hrel, hunique⟩ := hforest hline
  have hrel' : g.release = .ok (.complete [0, 2, 3, 1, 4]) := by
    obtain rfl := Except.ok.inj hg
    cbv
  obtain rfl : order = [0, 2, 3, 1, 4] := by
    rw [hrel] at hrel'
    cases hrel'
    rfl
  exact ⟨hends, g, hg, hline, hrel, hunique⟩

end Network

end Lineup
