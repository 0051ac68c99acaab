/-
# The release forest

A node that arcs enter is freed by one of the nodes that lead to it, the one that stands last in
the order (`Frees`).  So every order of the nodes makes a forest of them, with the roots of the
network as its roots.  A *forest order* is one that is the preorder of its own forest: all that a
node frees, directly or through others, stands right behind it, roots come in ascending order, and
nodes that are freed by the same node come by the last arcs into them, the latest first
(`ForestOrder`).

The forest depends on the order, so it is not obvious that a network has but one such order.  It
has (`ForestOrder.unique`): where two of them part for the first time, the nodes ahead of the fork
free the same nodes in both.  Whatever frees the node that one order takes at the fork stands
within the block that the other order has begun, hence not behind what frees the other node
(`ForestOrder.freed_later`).  So both nodes are freed by the same node or are both roots, and the
order of siblings or that of roots says which one goes first.
-/
import Mathlib.Data.Finset.Max
import Mathlib.Data.Finset.Range
import Lineup.Proofs.Network.Turns

namespace Lineup.Network

open Relation

/-- Of all nodes that lead to `v` it is `u` that stands last in the order. -/
def Frees (g : Network) (order : List Nat) (u v : Nat) : Prop :=
  g.Leads u v ∧ ∀ w, g.Leads w v → order.idxOf w ≤ order.idxOf u

/-- Of the arcs that leave `u` the last one into `v` comes after the last one into `w`. -/
def LastAfter (g : Network) (u v w : Nat) : Prop :=
  (g.behind u).reverse.idxOf v < (g.behind u).reverse.idxOf w

/-- An order that is the preorder of the forest it makes of the nodes. -/
structure ForestOrder (g : Network) (order : List Nat) : Prop where
  /-- It holds every node once, and every arc goes forward in it. -/
  lines : g.Lines order
  /-- The nodes that no arc enters come in ascending order. -/
  roots : ∀ v ∈ g.roots, ∀ w ∈ g.roots, v < w → order.idxOf v < order.idxOf w
  /-- What a node frees, directly or through others, fills the places right behind it. -/
  block : ∀ pre u rest, order = pre ++ u :: rest → ∃ freed later, rest = freed ++ later ∧
    ∀ v, v ∈ freed ↔ TransGen (g.Frees order) u v
  /-- Nodes freed by the same node come by the last arcs into them, the latest first. -/
  siblings : ∀ u v w, g.Frees order u v → g.Frees order u w →
    (order.idxOf v < order.idxOf w ↔ g.LastAfter u v w)

/-! ## Places in an order -/

section Places

variable {g : Network} {order pre rest : List Nat} {u v w : Nat}

theorem mem_ahead_iff (horder : order = pre ++ rest) : w ∈ pre ↔ order.idxOf w < pre.length :=
  (show pre <+: order from ⟨rest, horder.symm⟩).mem_iff_idxOf_lt_length w

theorem not_mem_ahead (hnd : order.Nodup) (horder : order = pre ++ v :: rest) : v ∉ pre := by
  rw [horder] at hnd
  exact fun hv => (List.nodup_append.mp hnd).2.2 v hv v List.mem_cons_self rfl

theorem idxOf_middle (hnd : order.Nodup) (horder : order = pre ++ v :: rest) :
    order.idxOf v = pre.length := by
  rw [horder, List.idxOf_append_of_notMem (not_mem_ahead hnd horder), List.idxOf_cons_self,
    Nat.add_zero]

theorem idxOf_middle_lt (hnd : order.Nodup) (horder : order = pre ++ v :: rest) (hw : w ∉ pre)
    (hvw : v ≠ w) : order.idxOf v < order.idxOf w := by
  rw [idxOf_middle hnd horder, horder, List.idxOf_append_of_notMem hw, List.idxOf_cons_ne rest hvw]
  omega

theorem mem_upto_iff (hnd : order.Nodup) (horder : order = pre ++ u :: rest) :
    w ∈ pre ++ [u] ↔ order.idxOf w ≤ order.idxOf u := by
  have hsplit : order = (pre ++ [u]) ++ rest := by simp [horder]
  rw [idxOf_middle hnd horder, mem_ahead_iff hsplit, List.length_append, List.length_singleton,
    Nat.lt_add_one_iff]

theorem mem_past_iff (hnd : order.Nodup) (horder : order = pre ++ u :: rest) (hv : v ∈ order) :
    v ∈ rest ↔ order.idxOf u < order.idxOf v := by
  rw [← Nat.not_le, ← mem_upto_iff hnd horder]
  have hsplit : order = (pre ++ [u]) ++ rest := by simp [horder]
  rw [hsplit] at hnd hv
  constructor
  · intro hrest hfront
    exact (List.nodup_append.mp hnd).2.2 v hfront v hrest rfl
  · exact (List.mem_append.mp hv).resolve_left

theorem past_sublist (horder : order = pre ++ u :: rest) : rest.Sublist order := by
  rw [horder]
  exact (List.sublist_cons_self u rest).trans (List.sublist_append_right pre _)

theorem pairwise_idxOf (hnd : order.Nodup) :
    order.Pairwise fun v w => order.idxOf v < order.idxOf w := by
  rw [List.pairwise_iff_getElem]
  intro i j hi hj hij
  rwa [hnd.idxOf_getElem i hi, hnd.idxOf_getElem j hj]

theorem lastAfter_of_split (hout : g.behind u = pre ++ v :: rest) (hw : w ∉ v :: rest) :
    g.LastAfter u v w := by
  have hback : (g.behind u).reverse = (v :: rest).reverse ++ pre.reverse := by
    rw [hout, List.reverse_append]
  have hv : v ∈ (v :: rest).reverse := List.mem_reverse.mpr List.mem_cons_self
  rw [LastAfter, hback, List.idxOf_append_of_mem hv,
    List.idxOf_append_of_notMem (mt List.mem_reverse.mp hw)]
  exact Nat.lt_of_lt_of_le (List.idxOf_lt_length_of_mem hv) (Nat.le_add_right _ _)

theorem Lines.idxOf_lt (h : g.Lines order) (huv : g.Leads u v) :
    order.idxOf u < order.idxOf v := by
  by_cases hv : v ∈ order
  · obtain ⟨pre, rest, horder⟩ := List.append_of_mem hv
    rw [idxOf_middle h.nodup horder]
    exact (mem_ahead_iff horder).mp (h.obeys pre v rest horder u huv)
  · rw [List.idxOf_of_notMem hv]
    exact List.idxOf_lt_length_of_mem (h.mem_iff.mpr huv.1)

theorem Lines.idxOf_inj (h : g.Lines order) (hu : u < g.size) :
    order.idxOf u = order.idxOf v ↔ u = v :=
  List.idxOf_inj (h.mem_iff.mpr hu)

theorem Lines.pair_sublist (h : g.Lines order) (hv : v < g.size)
    (huv : order.idxOf u < order.idxOf v) : [u, v].Sublist order := by
  obtain ⟨pre, rest, horder⟩ := List.append_of_mem (h.mem_iff.mpr hv)
  have hu : u ∈ pre := by
    rw [mem_ahead_iff horder, ← idxOf_middle h.nodup horder]
    exact huv
  exact pair_sublist_iff.mpr ⟨pre, rest, horder, hu⟩

end Places

/-- Two lists of one length of which neither ever takes a turn of its own are the same. -/
theorem eq_of_no_fork {xs ys : List Nat} (hlen : xs.length = ys.length)
    (hturn : ∀ pre x xs' y ys', xs = pre ++ x :: xs' → ys = pre ++ y :: ys' → x = y) :
    xs = ys := by
  induction xs generalizing ys with
  | nil => exact (List.length_eq_zero_iff.mp hlen.symm).symm
  | cons x xs ih =>
      cases ys with
      | nil => simp at hlen
      | cons y ys =>
          obtain rfl := hturn [] x xs y ys rfl rfl
          rw [ih (Nat.succ.inj hlen)]
          rintro pre a as b bs rfl rfl
          exact hturn (x :: pre) a as b bs rfl rfl

/-! ## Who frees a node -/

section Frees

variable {g : Network} {order : List Nat} {u u' v : Nat}

theorem Frees.unique (h : g.Lines order) (hu : g.Frees order u v) (hu' : g.Frees order u' v) :
    u = u' :=
  (h.idxOf_inj hu.1.1).mp (Nat.le_antisymm (hu'.2 u hu.1) (hu.2 u' hu'.1))

theorem exists_frees (order : List Nat) (huv : g.Leads u v) : ∃ u, g.Frees order u v := by
  classical
  obtain ⟨w, hw, hlast⟩ :=
    Finset.exists_max_image ((Finset.range g.size).filter (g.Leads · v)) order.idxOf
      ⟨u, Finset.mem_filter.mpr ⟨Finset.mem_range.mpr huv.1, huv⟩⟩
  refine ⟨w, (Finset.mem_filter.mp hw).2, ?_⟩
  intro x hxv
  exact hlast x (Finset.mem_filter.mpr ⟨Finset.mem_range.mpr hxv.1, hxv⟩)

theorem frees_congr {order' : List Nat}
    (hsame : ∀ w, g.Leads w v → order.idxOf w = order'.idxOf w) :
    g.Frees order u v ↔ g.Frees order' u v := by
  refine and_congr_right fun huv => forall₂_congr fun w hwv => ?_
  rw [hsame w hwv, hsame u huv]

theorem Tied.root_or_freed (hg : g.Tied) (order : List Nat) (hv : v < g.size) :
    v ∈ g.roots ∨ ∃ u, g.Frees order u v := by
  by_cases hroot : ∃ u, g.Leads u v
  · obtain ⟨u, huv⟩ := hroot
    exact Or.inr (exists_frees order huv)
  · exact Or.inl (hg.mem_roots_iff.mpr ⟨hv, not_exists.mp hroot⟩)

theorem Tied.not_freed (hg : g.Tied) (hv : v ∈ g.roots) : ¬ g.Frees order u v :=
  fun huv => (hg.mem_roots_iff.mp hv).2 u huv.1

theorem freed_idxOf_lt (h : g.Lines order) (huv : TransGen (g.Frees order) u v) :
    order.idxOf u < order.idxOf v := by
  induction huv with
  | single huv => exact h.idxOf_lt huv.1
  | tail _ hwx ih => exact Nat.lt_trans ih (h.idxOf_lt hwx.1)

end Frees

/-! ## There is but one forest order -/

namespace ForestOrder

variable {g : Network} {order : List Nat}

theorem freed_between (h : g.ForestOrder order) {t v w : Nat} (htw : g.Frees order t w)
    (htv : order.idxOf t < order.idxOf v) (hvw : order.idxOf v < order.idxOf w) :
    TransGen (g.Frees order) t v := by
  obtain ⟨pre, rest, horder⟩ := List.append_of_mem (h.lines.mem_iff.mpr htw.1.1)
  obtain ⟨freed, later, hrest, hfreed⟩ := h.block pre t rest horder
  have hsplit : order = (pre ++ t :: freed) ++ later := by rw [horder, hrest]; simp
  have hwfront : w ∈ pre ++ t :: freed :=
    List.mem_append_right _ (List.mem_cons_of_mem _ ((hfreed w).mpr (.single htw)))
  -- `v` stands ahead of `w`, so it is among what comes up to the end of the block
  have hvfront : v ∈ pre ++ t :: freed := by
    rw [mem_ahead_iff hsplit] at hwfront ⊢
    exact Nat.lt_trans hvw hwfront
  rcases List.mem_append.mp hvfront with hvpre | hvblock
  · have htplace := idxOf_middle h.lines.nodup horder
    have hvplace := (mem_ahead_iff horder).mp hvpre
    omega
  · rcases List.mem_cons.mp hvblock with rfl | hvfreed
    · exact absurd htv (Nat.lt_irrefl _)
    · exact (hfreed v).mp hvfreed

section Fork

variable {order' pre rest rest' : List Nat} {x y u : Nat}

/-- The nodes ahead of a fork stand at the same places in both orders, so they free the same of the
nodes that come next. -/
theorem frees_iff_of_fork (h : g.ForestOrder order) (horder : order = pre ++ x :: rest)
    (horder' : order' = pre ++ rest') : g.Frees order u x ↔ g.Frees order' u x := by
  refine frees_congr fun w hwx => ?_
  have hw : w ∈ pre := h.lines.obeys pre x rest horder w hwx
  rw [horder, horder', List.idxOf_append_of_mem hw, List.idxOf_append_of_mem hw]

/-- Where two forest orders part, whatever frees the next node of the first has a block in the
second that goes on beyond the fork.  So the next node of the second is freed, and not earlier. -/
theorem freed_later (h : g.ForestOrder order) (h' : g.ForestOrder order')
    (horder : order = pre ++ x :: rest) (horder' : order' = pre ++ y :: rest') (hxy : x ≠ y)
    (hux : g.Frees order u x) : ∃ w, g.Frees order w y ∧ pre.idxOf u ≤ pre.idxOf w := by
  have hplace : ∀ {w}, w ∈ pre → order'.idxOf w = pre.idxOf w := by
    intro w hw
    rw [horder', List.idxOf_append_of_mem hw]
  have hu : u ∈ pre := h.lines.obeys pre x rest horder u hux.1
  have huy : order'.idxOf u < order'.idxOf y := by
    rw [idxOf_middle h'.lines.nodup horder']
    exact (mem_ahead_iff horder').mp hu
  have hyx : order'.idxOf y < order'.idxOf x :=
    idxOf_middle_lt h'.lines.nodup horder' (not_mem_ahead h.lines.nodup horder) hxy.symm
  have hux' : g.Frees order' u x := (h.frees_iff_of_fork horder horder').mp hux
  obtain ⟨w, huw, hwy⟩ := TransGen.tail'_iff.mp (h'.freed_between hux' huy hyx)
  have hw : w ∈ pre := h'.lines.obeys pre y rest' horder' w hwy.1
  refine ⟨w, (h'.frees_iff_of_fork horder' horder).mp hwy, ?_⟩
  rw [← hplace hu, ← hplace hw]
  rcases reflTransGen_iff_eq_or_transGen.mp huw with rfl | huw
  · exact Nat.le_refl _
  · exact Nat.le_of_lt (freed_idxOf_lt h'.lines huw)

theorem freed_alike (h : g.ForestOrder order) (h' : g.ForestOrder order')
    (horder : order = pre ++ x :: rest) (horder' : order' = pre ++ y :: rest') (hxy : x ≠ y)
    (hux : g.Frees order u x) : g.Frees order u y := by
  obtain ⟨w, hwy, huw⟩ := freed_later h h' horder horder' hxy hux
  obtain ⟨z, hzx, hwz⟩ := freed_later h' h horder' horder hxy.symm
    ((h'.frees_iff_of_fork horder' horder).mpr hwy)
  obtain rfl : u = z := hux.unique h.lines ((h.frees_iff_of_fork horder horder').mpr hzx)
  have hu : u ∈ pre := h.lines.obeys pre x rest horder u hux.1
  obtain rfl : u = w := (List.idxOf_inj hu).mp (Nat.le_antisymm huw hwz)
  exact hwy

end Fork

theorem unique (hg : g.Tied) (h : g.ForestOrder order) {order' : List Nat}
    (h' : g.ForestOrder order') : order = order' := by
  refine eq_of_no_fork (h.lines.perm.trans h'.lines.perm.symm).length_eq ?_
  intro pre x rest y rest' horder horder'
  by_contra hxy
  have hfirst : order.idxOf x < order.idxOf y :=
    idxOf_middle_lt h.lines.nodup horder (not_mem_ahead h'.lines.nodup horder') hxy
  have hsecond : order'.idxOf y < order'.idxOf x :=
    idxOf_middle_lt h'.lines.nodup horder' (not_mem_ahead h.lines.nodup horder) (Ne.symm hxy)
  have hxsize : x < g.size := h.lines.mem_iff.mp (by simp [horder])
  have hysize : y < g.size := h'.lines.mem_iff.mp (by simp [horder'])
  rcases hg.root_or_freed order hxsize with hxroot | ⟨u, hux⟩
  · rcases hg.root_or_freed order' hysize with hyroot | ⟨u, huy⟩
    · rcases Nat.lt_or_gt_of_ne hxy with hlt | hlt
      · exact Nat.lt_asymm hsecond (h'.roots x hxroot y hyroot hlt)
      · exact Nat.lt_asymm hfirst (h.roots y hyroot x hxroot hlt)
    · exact hg.not_freed hxroot (freed_alike h' h horder' horder (Ne.symm hxy) huy)
  · have huy : g.Frees order u y := freed_alike h h' horder horder' hxy hux
    have hux' := (h.frees_iff_of_fork horder horder').mp hux
    have huy' := (h'.frees_iff_of_fork horder' horder).mpr huy
    have hlast : g.LastAfter u x y := (h.siblings u x y hux huy).mp hfirst
    exact Nat.lt_asymm hsecond ((h'.siblings u x y hux' huy').mpr hlast)

end ForestOrder

end Lineup.Network
