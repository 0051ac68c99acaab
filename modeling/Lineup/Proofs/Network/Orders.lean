/-
# What the checks of an order accept

An order covers a network when it is a permutation of the nodes, and it respects the arcs when
both ends of every arc stand in it, the start ahead of the end.  On a tied network the two checks
together accept exactly the lines: the permutations in which every node stands behind all that
lead to it (`Tied.lines_iff`).
-/
import Lineup.Network.Check
import Lineup.Proofs.Network.Laying

namespace Lineup.Network

/-! ## Covering -/

theorem covers_iff_perm {g : Network} {order : List Nat} :
    g.covers order = true ↔ order.Perm (List.range g.size) := by
  rw [covers_iff]
  constructor
  · rintro ⟨hlen, hlt, hnd⟩
    have hsubset : order ⊆ List.range g.size := fun v hv => List.mem_range.mpr (hlt v hv)
    refine (List.subperm_of_subset hnd hsubset).perm_of_length_le ?_
    rw [List.length_range, hlen]
  · intro hperm
    refine ⟨by rw [hperm.length_eq, List.length_range], ?_, ?_⟩
    · intro v hv
      exact List.mem_range.mp (hperm.mem_iff.mp hv)
    · exact hperm.nodup_iff.mpr List.nodup_range

theorem lists_iff {g : Network} {order : List Nat} :
    g.lists order = true ↔ (∀ v ∈ order, v < g.size) ∧ order.Nodup := by
  simp [lists]

/-! ## Standing ahead -/

theorem idxOf?_middle {pre post : List Nat} {v : Nat} (hv : v ∉ pre) :
    (pre ++ v :: post).idxOf? v = some pre.length := by
  rw [List.idxOf?_eq_some_iff]
  refine ⟨by simp, by simp, ?_⟩
  intro j hj heq
  rw [List.getElem_append_left hj] at heq
  exact hv (heq ▸ List.getElem_mem hj)

theorem idxOf?_of_nodup {pre post : List Nat} {v : Nat} (hnd : (pre ++ v :: post).Nodup) :
    (pre ++ v :: post).idxOf? v = some pre.length :=
  idxOf?_middle fun hv => (List.nodup_append.mp hnd).2.2 v hv v List.mem_cons_self rfl

theorem ahead_iff {order : List Nat} (hnd : order.Nodup) {a b : Nat} :
    ahead order a b = true ↔ ∃ pre post, order = pre ++ b :: post ∧ a ∈ pre := by
  constructor
  · intro h
    rw [ahead] at h
    split at h
    · rename_i i j hi hj
      have hij : i < j := by simpa using h
      obtain ⟨hi', hai, -⟩ := List.idxOf?_eq_some_iff.mp hi
      obtain ⟨hj', hbj, -⟩ := List.idxOf?_eq_some_iff.mp hj
      refine ⟨order.take j, order.drop (j + 1), ?_, ?_⟩
      · rw [← hbj, ← List.drop_eq_getElem_cons hj', List.take_append_drop]
      · exact List.mem_take_iff_getElem.mpr ⟨i, by omega, hai⟩
    · simp at h
  · rintro ⟨pre, post, rfl, ha⟩
    obtain ⟨before, between, rfl⟩ := List.append_of_mem ha
    have hb := idxOf?_of_nodup hnd
    have hsplit : (before ++ a :: between) ++ b :: post =
        before ++ a :: (between ++ b :: post) := by simp
    have ha' : ((before ++ a :: between) ++ b :: post).idxOf? a = some before.length := by
      rw [hsplit] at hnd ⊢
      exact idxOf?_of_nodup hnd
    rw [ahead, ha', hb]
    simp

/-! ## Respecting -/

theorem forward_iff {g : Network} {order : List Nat} {arcs : List (Nat × Nat)} :
    g.forward order arcs = .ok true ↔
      ∀ arc ∈ arcs, (arc.1 < g.size ∧ arc.2 < g.size) ∧ ahead order arc.1 arc.2 = true := by
  induction arcs with
  | nil => simp [forward]
  | cons arc arcs ih =>
      obtain ⟨a, b⟩ := arc
      rw [forward, List.forall_mem_cons]
      by_cases ha : g.size ≤ a
      · simp [ha, Nat.not_lt_of_ge ha]
      by_cases hb : g.size ≤ b
      · simp [ha, hb, Nat.not_lt_of_ge hb]
      have hends : a < g.size ∧ b < g.size := ⟨Nat.lt_of_not_le ha, Nat.lt_of_not_le hb⟩
      by_cases hahead : ahead order a b = true
      · simp [ha, hb, hends, hahead, ih]
      · simp [ha, hb, hahead]

theorem respects_iff {g : Network} {order : List Nat} :
    g.respects order = .ok true ↔ ((∀ v ∈ order, v < g.size) ∧ order.Nodup) ∧
      ∀ arc ∈ g.arcs, (arc.1 < g.size ∧ arc.2 < g.size) ∧ ahead order arc.1 arc.2 = true := by
  rw [respects, ← lists_iff, ← forward_iff]
  by_cases hlists : g.lists order = true <;> simp [hlists]

/-! ## Lines -/

/-- The two checks together accept exactly the lines of a tied network. -/
theorem Tied.lines_iff {g : Network} (h : g.Tied) {order : List Nat} :
    g.Lines order ↔ g.covers order = true ∧ g.respects order = .ok true := by
  constructor
  · intro hlines
    refine ⟨covers_iff_perm.mpr hlines.perm, respects_iff.mpr ⟨⟨?_, hlines.nodup⟩, ?_⟩⟩
    · intro v hv
      exact hlines.mem_iff.mp hv
    · intro arc harc
      have hends := h.ends arc harc
      obtain ⟨pre, post, horder⟩ := List.append_of_mem (hlines.mem_iff.mpr hends.2)
      have hstart := hlines.obeys pre arc.2 post horder arc.1 (h.leads_iff.mpr harc)
      exact ⟨hends, (ahead_iff hlines.nodup).mpr ⟨pre, post, horder, hstart⟩⟩
  · rintro ⟨hcovers, hrespects⟩
    obtain ⟨⟨-, hnd⟩, harcs⟩ := respects_iff.mp hrespects
    refine ⟨covers_iff_perm.mp hcovers, ?_⟩
    intro pre v post horder u huv
    have hahead := (harcs (u, v) (h.leads_iff.mp huv)).2
    obtain ⟨pre', post', horder', hu⟩ := (ahead_iff hnd).mp hahead
    -- `v` occurs once, so both ways to cut the order at `v` are the same
    have hlen : pre.length = pre'.length := by
      have h₁ := idxOf?_of_nodup (horder ▸ hnd)
      have h₂ := idxOf?_of_nodup (horder' ▸ hnd)
      rw [← horder] at h₁
      rw [← horder'] at h₂
      exact Option.some.inj (h₁.symm.trans h₂)
    obtain ⟨rfl, -⟩ := List.append_inj (horder.symm.trans horder') hlen
    exact hu

theorem Lines.not_circular {g : Network} {order : List Nat} (h : g.Lines order) :
    ¬ g.Circular := by
  rintro ⟨v, hloop⟩
  obtain ⟨w, hvw, -⟩ := Relation.TransGen.head'_iff.mp hloop
  exact h.obeys.not_loop h.nodup (h.mem_iff.mpr hvw.1) hloop

end Lineup.Network
