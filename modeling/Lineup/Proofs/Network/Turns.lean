/-
# Whose turn it is

The ready nodes stand in a row, and a node that becomes ready later goes to the front of it.  So
the row is never reordered: whoever stands in it is emitted after all that stand ahead and before
all that stand behind (`run_row`), and when the turn of a node comes, the row is what stood from
that node on when the node got in (`run_turn`).

The roots of a network stand in the row from the start, in ascending order.  When the turn of a
root comes, only later roots are left in the row with it, and whatever was not emitted hangs on one
of these.  So a node whose origins all come before that root has been emitted by then
(`Tied.sublist_of_origins`).
-/
import Lineup.Proofs.Network.Agreement

namespace Lineup

open Relation

namespace Sweep

variable {g : Network} {s t : Sweep}

theorem arrive_row {w : Nat} (h : s.arrive w = .ok t) :
    t.emitted = s.emitted ∧ s.ready <:+ t.ready := by
  unfold arrive at h
  split at h
  · cases h
  · cases h
  · obtain rfl := Except.ok.inj h
    exact ⟨rfl, List.suffix_cons w s.ready⟩
  · obtain rfl := Except.ok.inj h
    exact ⟨rfl, List.suffix_rfl⟩

theorem arrivals_cons {w : Nat} {out : List Nat} (h : (w :: out).foldlM arrive s = .ok t) :
    ∃ u, s.arrive w = .ok u ∧ out.foldlM arrive u = .ok t := by
  rw [List.foldlM_cons] at h
  cases hu : s.arrive w with
  | error b =>
      rw [hu] at h
      cases h
  | ok u =>
      rw [hu] at h
      exact ⟨u, rfl, h⟩

theorem arrivals_row {out : List Nat} (h : out.foldlM arrive s = .ok t) :
    t.emitted = s.emitted ∧ s.ready <:+ t.ready := by
  induction out generalizing s with
  | nil =>
      cases h
      exact ⟨rfl, List.suffix_rfl⟩
  | cons w out ih =>
      obtain ⟨u, hu, h⟩ := arrivals_cons h
      obtain ⟨hemitted, hrow⟩ := arrive_row hu
      obtain ⟨hemitted', hrow'⟩ := ih h
      exact ⟨hemitted'.trans hemitted, hrow.trans hrow'⟩

/-- What was emitted stays in front, and the row is emitted behind it in its order. -/
theorem run_row {order : List Nat} (h : s.run g = .ok order) :
    ∃ rest, order = s.emitted ++ rest ∧ s.ready.Sublist rest := by
  fun_induction Sweep.run g s with
  | case1 waiting emitted =>
      cases h
      exact ⟨[], (List.append_nil _).symm, List.Sublist.refl _⟩
  | case2 => cases h
  | case3 => cases h
  | case4 waiting v ready emitted out hout t ht ih =>
      obtain ⟨hemitted, hrow⟩ := arrivals_row ht
      obtain ⟨rest, hrest, hsub⟩ := ih h
      refine ⟨v :: rest, ?_, (hrow.sublist.trans hsub).cons_cons v⟩
      rw [hrest, hemitted]
      simp

/-- When the turn of a node comes, the row starts with it and goes on with what stood behind it. -/
theorem Sound.run_turn (hg : g.Solvent) (h : Sound g s) {fresh later : List Nat} {v : Nat}
    (hrow : s.ready = fresh ++ v :: later) {order : List Nat} (hrun : s.run g = .ok order) :
    ∃ t, Sound g t ∧ t.ready = v :: later ∧ ∃ rest, order = t.emitted ++ v :: rest := by
  fun_induction Sweep.run g s generalizing fresh with
  | case1 waiting emitted => simp at hrow
  | case2 => cases hrun
  | case3 => cases hrun
  | case4 waiting u ready emitted out hout t ht ih =>
      obtain ⟨-, hsound, -⟩ := h.next hg hout ht
      obtain ⟨hemitted, new, hnew⟩ := arrivals_row ht
      cases fresh with
      | nil =>
          obtain ⟨rfl, rfl⟩ := List.cons.inj hrow
          obtain ⟨rest, hrest, -⟩ := run_row hrun
          refine ⟨_, h, rfl, rest, ?_⟩
          rw [hrest, hemitted]
          simp
      | cons w fresh =>
          obtain ⟨rfl, rfl⟩ := List.cons.inj hrow
          have hnext : t.ready = (new ++ fresh) ++ v :: later := by
            rw [← hnew, List.append_assoc]
            rfl
          exact ih hsound hnext hrun

end Sweep

namespace Network

variable {g : Network} {order : List Nat}

theorem roots_sublist (h : g.release = .ok (.complete order)) : g.roots.Sublist order := by
  obtain ⟨rest, hrest, hsub⟩ := Sweep.run_row (run_of_release h)
  exact (List.nil_append rest ▸ hrest) ▸ hsub

theorem roots_ascending (g : Network) : g.roots.Pairwise (· < ·) :=
  List.pairwise_lt_range.filter _

theorem Tied.mem_roots_iff (h : g.Tied) {v : Nat} :
    v ∈ g.roots ↔ v < g.size ∧ ∀ u, ¬ g.Leads u v := by
  rw [mem_roots]
  constructor
  · intro hzero
    have hlt : v < g.size := (List.getElem?_eq_some_iff.mp hzero).1
    rw [incoming_of_lt hlt, h.due, Option.some.injEq, List.countP_eq_zero] at hzero
    refine ⟨hlt, ?_⟩
    intro u huv
    exact hzero _ (h.leads_iff.mp huv) (beq_self_eq_true v)
  · rintro ⟨hlt, hno⟩
    rw [incoming_of_lt hlt, h.due, Option.some.injEq, List.countP_eq_zero]
    rintro ⟨u, w⟩ harc hw
    obtain rfl : w = v := by simpa using hw
    exact hno u (h.leads_iff.mpr harc)

/-- The turn of a root comes when everything is emitted whose origins all come before it. -/
theorem Tied.mem_of_turn (h : g.Tied) (hg : ¬ g.Circular) {t : Sweep} (ht : Sweep.Sound g t)
    {w : Nat} {later : List Nat} (hrow : t.ready = w :: later)
    (hroots : (w :: later).Sublist g.roots) {x : Nat} (hx : x < g.size)
    (hbefore : ∀ c ∈ g.roots, ReflTransGen g.Leads c x → c < w) : x ∈ t.emitted := by
  by_contra hnot
  obtain ⟨c, (hready | hstarves) | hloop, hcx⟩ := ht.hangs hx hnot
  · rw [hrow] at hready
    have hlt : c < w := hbefore c (hroots.subset hready) hcx
    rcases List.mem_cons.mp hready with rfl | hlater
    · exact Nat.lt_irrefl c hlt
    · have hasc := (roots_ascending g).sublist hroots
      exact Nat.lt_asymm hlt ((List.pairwise_cons.mp hasc).1 c hlater)
  · exact absurd (h.demand_eq c) (Nat.ne_of_lt hstarves.2)
  · exact hg ⟨c, hloop⟩

/-- If a root comes behind all origins of a node, that node is emitted ahead of the root and of
everything that hangs on the root. -/
theorem Tied.sublist_of_origins (h : g.Tied) (hrel : g.release = .ok (.complete order))
    {w x y : Nat} (hw : w ∈ g.roots) (hx : x < g.size)
    (hbefore : ∀ c ∈ g.roots, ReflTransGen g.Leads c x → c < w) (hwy : ReflTransGen g.Leads w y)
    (hy : y < g.size) : [x, y].Sublist order := by
  have hlines := h.lines_of_release hrel
  obtain ⟨past, later, hpast⟩ := List.append_of_mem hw
  obtain ⟨t, ht, hrow, rest, horder⟩ :=
    (Sweep.Sound.start g).run_turn h.solvent hpast (run_of_release hrel)
  have hroots : (w :: later).Sublist g.roots := hpast ▸ List.sublist_append_right past _
  have hxt : x ∈ t.emitted := h.mem_of_turn hlines.not_circular ht hrow hroots hx hbefore
  have hyt : y ∈ w :: rest := by
    have hmem : y ∈ t.emitted ++ w :: rest := horder ▸ hlines.mem_iff.mpr hy
    refine (List.mem_append.mp hmem).resolve_left ?_
    intro hyemitted
    -- then the root would have been emitted before its turn
    have hnd := horder ▸ hlines.nodup
    have hwt : w ∈ t.emitted := ht.obeys.back hwy hyemitted
    exact (List.nodup_append.mp hnd).2.2 w hwt w List.mem_cons_self rfl
  rw [horder]
  exact (List.singleton_sublist.mpr hxt).append (List.singleton_sublist.mpr hyt)

end Network

end Lineup
