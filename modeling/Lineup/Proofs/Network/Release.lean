/-
# What the release of nodes comes to

The release is followed on every network whose counts of incoming arcs are at least what its lists
of successors ask for.  Counts may be too high; then a node starves, because it waits for an arc
that never comes.

The state of a sweep is tied to the arcs used up so far by `Steady`: each count is what was due
less what has arrived, and a node was handed out, once, exactly when nothing is due to it any
more.  One arrival keeps this (`Steady.arrive`), so does a row of arrivals (`Steady.arrivals`),
one emission (`Sound.emit`) and, by induction along the run, the whole run (`Sound.run`).

At the end nothing is ready.  Then exactly those nodes were not emitted that hang on a starving
node or on a circle, and the emitted ones stand behind all that lead to them (`release_cases`).
-/
import Mathlib.Data.List.Perm.Basic
import Lineup.Network.Release
import Lineup.Proofs.Network.Paths

namespace Lineup

open Relation

namespace Network

/-! ## Counts and arcs -/

/-- The number of arcs into `v` according to the count of the node. -/
def due (g : Network) (v : Nat) : Nat := (g.incoming[v]?).getD 0

/-- The ends of all arcs that leave the nodes of a list. -/
def spent (g : Network) (order : List Nat) : List Nat := order.flatMap g.behind

/-- The number of arcs into `v` according to the lists of successors. -/
def demand (g : Network) (v : Nat) : Nat := (g.spent (List.range g.size)).count v

/-- The counts of incoming arcs are nowhere below what the lists of successors ask for. -/
structure Solvent (g : Network) : Prop extends g.Whole where
  enough : ∀ v, v < g.size → g.demand v ≤ g.due v

/-- A node waits for more arcs than lead to it. -/
def Starves (g : Network) (v : Nat) : Prop := v < g.size ∧ g.demand v < g.due v

/-- A node can never be released: it hangs on a node that starves, or on a circle. -/
def Held (g : Network) : Nat → Prop := Hangs g.Leads g.Starves

theorem incoming_of_lt {g : Network} {v : Nat} (h : v < g.size) :
    g.incoming[v]? = some (g.due v) := by
  have h' : v < g.incoming.length := h
  simp [due, h']

@[simp] theorem spent_append (g : Network) (xs ys : List Nat) :
    g.spent (xs ++ ys) = g.spent xs ++ g.spent ys := List.flatMap_append

@[simp] theorem spent_singleton (g : Network) (v : Nat) : g.spent [v] = g.behind v := by
  simp [spent]

theorem count_spent_add {g : Network} {order : List Nat} (hnd : order.Nodup)
    (hlt : ∀ v ∈ order, v < g.size) (v : Nat) :
    (g.spent order).count v +
      (g.spent ((List.range g.size).filter fun u => !order.contains u)).count v = g.demand v := by
  have hperm : (order ++ (List.range g.size).filter fun u => !order.contains u).Perm
      (List.range g.size) := by
    refine (List.perm_ext_iff_of_nodup ?_ List.nodup_range).mpr ?_
    · refine List.nodup_append.mpr ⟨hnd, List.nodup_range.filter _, ?_⟩
      intro a ha b hb hab
      simp [← hab, ha] at hb
    · intro u
      by_cases hu : u ∈ order
      · simp [hu, hlt u hu]
      · simp [hu]
  rw [demand, ← List.count_append, ← spent_append]
  exact (hperm.flatMap_right g.behind).count_eq v

theorem count_spent_le {g : Network} {order : List Nat} (hnd : order.Nodup)
    (hlt : ∀ v ∈ order, v < g.size) (v : Nat) : (g.spent order).count v ≤ g.demand v :=
  count_spent_add hnd hlt v ▸ Nat.le_add_right _ _

theorem exists_leads_of_count_lt {g : Network} {order : List Nat} (hnd : order.Nodup)
    (hlt : ∀ v ∈ order, v < g.size) {v : Nat} (h : (g.spent order).count v < g.demand v) :
    ∃ u, (u < g.size ∧ u ∉ order) ∧ g.Leads u v := by
  rw [← count_spent_add hnd hlt v, Nat.lt_add_right_iff_pos, List.count_pos_iff] at h
  obtain ⟨u, hu, huv⟩ := List.mem_flatMap.mp h
  obtain ⟨hlt', hnot⟩ := List.mem_filter.mp hu
  have hsize := List.mem_range.mp hlt'
  exact ⟨u, ⟨hsize, by simpa using hnot⟩, hsize, huv⟩

theorem mem_of_count_eq {g : Network} {order : List Nat} (hnd : order.Nodup)
    (hlt : ∀ v ∈ order, v < g.size) {u v : Nat} (h : (g.spent order).count v = g.demand v)
    (huv : g.Leads u v) : u ∈ order := by
  by_contra hu
  have hrest : u ∈ (List.range g.size).filter fun u => !order.contains u := by
    simp [hu, huv.1]
  have hpos : 0 < (g.spent ((List.range g.size).filter fun u => !order.contains u)).count v :=
    List.count_pos_iff.mpr (List.mem_flatMap.mpr ⟨u, hrest, huv.2⟩)
  have := count_spent_add hnd hlt v
  omega

end Network

namespace Sweep

open Network

/-! ## What holds throughout a sweep -/

/-- The state of a sweep of `g` in which the arcs that end in `used` are used up. -/
structure Steady (g : Network) (used : List Nat) (s : Sweep) : Prop where
  length : s.waiting.length = g.size
  balance : ∀ {v k}, s.waiting[v]? = some k → k + used.count v = g.due v
  nodup : (s.emitted ++ s.ready).Nodup
  handed : ∀ {v}, v ∈ s.emitted ++ s.ready ↔ s.waiting[v]? = some 0

variable {g : Network} {used : List Nat} {s : Sweep}

theorem Steady.start (g : Network) : Steady g [] g.start where
  length := rfl
  balance := by
    intro v k h
    simp only [Network.start] at h
    simp [due, h]
  nodup := by
    simpa [Network.start, roots] using List.nodup_range.filter _
  handed := by simp [Network.start, mem_roots]

theorem Steady.lt_size (h : Steady g used s) {v : Nat} (hv : v ∈ s.emitted ++ s.ready) :
    v < g.size := by
  rw [← h.length]
  exact (List.getElem?_eq_some_iff.mp (h.handed.mp hv)).1

theorem Steady.count_eq (h : Steady g used s) {v : Nat} (hv : v ∈ s.emitted ++ s.ready) :
    used.count v = g.due v := by
  have := h.balance (h.handed.mp hv)
  omega

theorem Steady.arrive (h : Steady g used s) {w : Nat} (hw : w < g.size)
    (hdue : used.count w < g.due w) :
    ∃ t, s.arrive w = .ok t ∧ Steady g (used ++ [w]) t ∧ t.emitted = s.emitted := by
  have hlen : w < s.waiting.length := h.length ▸ hw
  obtain ⟨k, hk⟩ : ∃ k, s.waiting[w]? = some k := ⟨_, List.getElem?_eq_getElem hlen⟩
  have hbal := h.balance hk
  have hfresh : w ∉ s.emitted ++ s.ready := by
    intro hmem
    have := h.count_eq hmem
    omega
  -- the counts other than that of `w`, and the arrivals at them, stay as they are
  have hbalance : ∀ (j : Nat), j + 1 = k → ∀ {v i}, (s.waiting.set w j)[v]? = some i →
      i + (used ++ [w]).count v = g.due v := by
    intro j hj v i hi
    by_cases hvw : w = v
    · subst hvw
      simp [List.getElem?_set_self hlen] at hi
      simp
      omega
    · rw [List.getElem?_set_ne hvw] at hi
      simpa [hvw] using h.balance hi
  match k, hk, hbal with
  | 0, _, hbal => omega
  | 1, hk, _ =>
      refine ⟨{ s with waiting := s.waiting.set w 0, ready := w :: s.ready },
        by simp only [Sweep.arrive, hk], ⟨by simpa using h.length, hbalance 0 rfl, ?_, ?_⟩, rfl⟩
      · exact List.perm_middle.nodup_iff.mpr (List.nodup_cons.mpr ⟨hfresh, h.nodup⟩)
      · intro v
        by_cases hvw : w = v
        · subst hvw
          simp [List.getElem?_set_self hlen]
        · rw [List.getElem?_set_ne hvw, ← h.handed]
          simp [Ne.symm hvw]
  | k + 2, hk, _ =>
      refine ⟨{ s with waiting := s.waiting.set w (k + 1) },
        by simp only [Sweep.arrive, hk],
        ⟨by simpa using h.length, hbalance (k + 1) rfl, h.nodup, ?_⟩, rfl⟩
      intro v
      by_cases hvw : w = v
      · subst hvw
        simp only [List.getElem?_set_self hlen]
        simpa using hfresh
      · rw [List.getElem?_set_ne hvw]
        exact h.handed

theorem Steady.arrivals {out : List Nat} (h : Steady g used s) (hlt : ∀ w ∈ out, w < g.size)
    (hdue : ∀ w ∈ out, (used ++ out).count w ≤ g.due w) :
    ∃ t, out.foldlM Sweep.arrive s = .ok t ∧ Steady g (used ++ out) t ∧
      t.emitted = s.emitted := by
  induction out generalizing used s with
  | nil => exact ⟨s, rfl, by simpa using h, rfl⟩
  | cons w out ih =>
      have hroom : used.count w < g.due w := by
        have := hdue w List.mem_cons_self
        rw [List.count_append, List.count_cons_self] at this
        omega
      obtain ⟨t, ht, hst, het⟩ := h.arrive (hlt w List.mem_cons_self) hroom
      obtain ⟨t', ht', hst', het'⟩ := ih hst
        (fun x hx => hlt x (List.mem_cons_of_mem _ hx))
        (fun x hx => by simpa using hdue x (List.mem_cons_of_mem _ hx))
      refine ⟨t', ?_, by simpa using hst', het'.trans het⟩
      simp only [List.foldlM_cons, ht]
      exact ht'

/-! ## Emissions

The front node moves from the ready ones to the emitted ones and its arcs are used up.  Nothing is
due to it any more, so the counts, which are nowhere too low, say that all that leads to it has
been emitted. -/

/-- What holds between two emissions: the arcs used up are those of the emitted nodes. -/
structure Sound (g : Network) (s : Sweep) : Prop where
  steady : Steady g (g.spent s.emitted) s
  obeys : g.Obeys s.emitted

theorem Sound.start (g : Network) : Sound g g.start := ⟨Steady.start g, obeys_nil g⟩

theorem Sound.nodup (h : Sound g s) : s.emitted.Nodup :=
  h.steady.nodup.sublist (List.sublist_append_left _ _)

theorem Sound.lt_size (h : Sound g s) : ∀ v ∈ s.emitted, v < g.size :=
  fun _ hv => h.steady.lt_size (List.mem_append_left _ hv)

theorem Sound.emit {waiting ready emitted : List Nat} {v : Nat} (hg : g.Solvent)
    (h : Sound g ⟨waiting, v :: ready, emitted⟩) :
    ∃ t, (g.behind v).foldlM Sweep.arrive ⟨waiting, ready, emitted ++ [v]⟩ = .ok t ∧
      Sound g t ∧ t.emitted = emitted ++ [v] := by
  have hready : v ∈ emitted ++ v :: ready := List.mem_append_right _ List.mem_cons_self
  have hmoved : Steady g (g.spent emitted) ⟨waiting, ready, emitted ++ [v]⟩ :=
    ⟨h.steady.length, h.steady.balance, by simpa using h.steady.nodup,
      fun {w} => by simpa using h.steady.handed (v := w)⟩
  have hv : v < g.size := h.steady.lt_size hready
  have hnd : (emitted ++ [v]).Nodup := hmoved.nodup.sublist (List.sublist_append_left _ _)
  have hlt : ∀ u ∈ emitted ++ [v], u < g.size :=
    fun u hu => hmoved.lt_size (List.mem_append_left _ hu)
  have hinside : ∀ w ∈ g.behind v, w < g.size := fun w hw => hg.inside ⟨hv, hw⟩
  have hroom : ∀ w ∈ g.behind v, (g.spent emitted ++ g.behind v).count w ≤ g.due w := by
    intro w hw
    calc (g.spent emitted ++ g.behind v).count w
        = (g.spent (emitted ++ [v])).count w := by simp
      _ ≤ g.demand w := count_spent_le hnd hlt w
      _ ≤ g.due w := hg.enough w (hinside w hw)
  obtain ⟨t, ht, hst, het⟩ := hmoved.arrivals hinside hroom
  have het' : t.emitted = emitted ++ [v] := het
  refine ⟨t, ht, ⟨?_, ?_⟩, het'⟩
  · rw [het']
    simpa using hst
  · rw [het']
    refine h.obeys.concat ?_
    intro u huv
    have hused : (g.spent emitted).count v = g.due v := h.steady.count_eq hready
    have hle : (g.spent emitted).count v ≤ g.demand v := count_spent_le h.nodup h.lt_size v
    have hge : g.demand v ≤ g.due v := hg.enough v hv
    have hall : (g.spent emitted).count v = g.demand v := by omega
    exact mem_of_count_eq h.nodup h.lt_size hall huv

theorem Sound.successors {waiting ready emitted : List Nat} {v : Nat} (hg : g.Solvent)
    (h : Sound g ⟨waiting, v :: ready, emitted⟩) : g.successors v = .ok (g.behind v) :=
  hg.toWhole.successors (h.steady.lt_size (List.mem_append_right _ List.mem_cons_self))

/-- Whatever the run finds behind the front node and goes on with is what the emission gives. -/
theorem Sound.next {waiting ready emitted out : List Nat} {v : Nat} {t : Sweep} (hg : g.Solvent)
    (h : Sound g ⟨waiting, v :: ready, emitted⟩) (hout : g.successors v = .ok out)
    (ht : out.foldlM Sweep.arrive ⟨waiting, ready, emitted ++ [v]⟩ = .ok t) :
    out = g.behind v ∧ Sound g t ∧ t.emitted = emitted ++ [v] := by
  obtain rfl := Except.ok.inj (hout.symm.trans (h.successors hg))
  obtain ⟨t', ht', hsound, hemitted⟩ := h.emit hg
  obtain rfl := Except.ok.inj (ht.symm.trans ht')
  exact ⟨rfl, hsound, hemitted⟩

theorem Sound.run (hg : g.Solvent) (h : Sound g s) :
    ∃ t, s.run g = .ok t.emitted ∧ Sound g t ∧ t.ready = [] := by
  fun_induction Sweep.run g s with
  | case1 waiting emitted => exact ⟨_, rfl, h, rfl⟩
  | case2 waiting v ready emitted b hb =>
      rw [h.successors hg] at hb
      simp at hb
  | case3 waiting v ready emitted out hout b hb =>
      obtain rfl := Except.ok.inj (hout.symm.trans (h.successors hg))
      obtain ⟨t, ht, -⟩ := h.emit hg
      simp [ht] at hb
  | case4 waiting v ready emitted out hout t ht ih => exact ih (h.next hg hout ht).2.1

/-! ## The end of a sweep -/

theorem Sound.not_held (h : Sound g s) {v : Nat} (hv : v ∈ s.emitted) :
    ¬ g.Held v := by
  rintro ⟨c, hcause, hcv⟩
  have hc : c ∈ s.emitted := h.obeys.back hcv hv
  rcases hcause with ⟨hlt, hstarves⟩ | hloop
  · have hused := h.steady.count_eq (List.mem_append_left _ hc)
    have hle := count_spent_le h.nodup h.lt_size c
    omega
  · exact h.obeys.not_loop h.nodup hc hloop

/-- A node that was not emitted hangs on one that is ready, on one that starves or on a circle. -/
theorem Sound.hangs (h : Sound g s) {v : Nat} (hlt : v < g.size) (hv : v ∉ s.emitted) :
    Hangs g.Leads (fun c => c ∈ s.ready ∨ g.Starves c) v := by
  refine exists_origin (S := fun v => v < g.size ∧ v ∉ s.emitted) (n := g.size)
    (fun v hv => hv.1) ?_ ⟨hlt, hv⟩
  rintro v ⟨hlt, hv⟩
  by_cases hready : v ∈ s.ready
  · exact Or.inl (Or.inl hready)
  by_cases hstarves : g.Starves v
  · exact Or.inl (Or.inr hstarves)
  right
  have hlen : v < s.waiting.length := h.steady.length ▸ hlt
  have hk := List.getElem?_eq_getElem hlen
  have hne : s.waiting[v] ≠ 0 := by
    intro h0
    rcases List.mem_append.mp (h.steady.handed.mpr (h0 ▸ hk)) with hmem | hmem
    · exact hv hmem
    · exact hready hmem
  have hbal := h.steady.balance hk
  have hfull : g.due v ≤ g.demand v := Nat.le_of_not_lt fun hlow => hstarves ⟨hlt, hlow⟩
  exact exists_leads_of_count_lt h.nodup h.lt_size (by omega)

theorem Sound.held (h : Sound g s) (hready : s.ready = []) {v : Nat} (hlt : v < g.size)
    (hv : v ∉ s.emitted) : g.Held v := by
  show Hangs g.Leads g.Starves v
  simpa [hready] using h.hangs hlt hv

theorem Sound.mem_emitted_iff (h : Sound g s) (hready : s.ready = []) {v : Nat} :
    v ∈ s.emitted ↔ v < g.size ∧ ¬ g.Held v := by
  constructor
  · intro hv
    exact ⟨h.lt_size v hv, h.not_held hv⟩
  · rintro ⟨hlt, hnot⟩
    by_contra hv
    exact hnot (h.held hready hlt hv)

end Sweep

namespace Network

/-! ## The two outcomes -/

/-- A list of all nodes, each once, in which every node stands behind all that lead to it. -/
structure Lines (g : Network) (order : List Nat) : Prop where
  perm : order.Perm (List.range g.size)
  obeys : g.Obeys order

/-- The nodes that can never be released, in ascending order. -/
structure Leftover (g : Network) (rest : List Nat) : Prop where
  sublist : rest.Sublist (List.range g.size)
  mem_iff : ∀ {v}, v ∈ rest ↔ v < g.size ∧ g.Held v

theorem Lines.nodup {g : Network} {order : List Nat} (h : g.Lines order) : order.Nodup :=
  h.perm.nodup_iff.mpr List.nodup_range

theorem Lines.mem_iff {g : Network} {order : List Nat} (h : g.Lines order) {v : Nat} :
    v ∈ order ↔ v < g.size := by
  rw [h.perm.mem_iff, List.mem_range]

theorem run_of_release {g : Network} {order : List Nat}
    (h : g.release = .ok (.complete order)) : g.start.run g = .ok order := by
  cases hrun : g.start.run g with
  | error b => simp [release, hrun, bind, Except.bind] at h
  | ok order' =>
      by_cases hshort : order'.length < g.size
      · simp [release, hrun, hshort, bind, Except.bind, pure, Except.pure] at h
      · simpa [release, hrun, hshort, bind, Except.bind, pure, Except.pure] using h

/-- The release of a solvent network ends, and it either puts all nodes in line or names those
that can never be released, of which there are some. -/
theorem release_cases {g : Network} (hg : g.Solvent) :
    (∃ order, g.release = .ok (.complete order) ∧ g.Lines order ∧ ∀ v < g.size, ¬ g.Held v) ∨
      ∃ rest, g.release = .ok (.blocked rest) ∧ g.Leftover rest ∧ rest ≠ [] := by
  obtain ⟨t, hrun, hsound, hready⟩ := (Sweep.Sound.start g).run hg
  have hmem := fun v => hsound.mem_emitted_iff hready (v := v)
  have hsubset : t.emitted ⊆ List.range g.size :=
    fun v hv => List.mem_range.mpr (hsound.lt_size v hv)
  have hsubperm := List.subperm_of_subset hsound.nodup hsubset
  by_cases hshort : t.emitted.length < g.size
  · right
    refine ⟨(List.range g.size).filter fun v => !t.emitted.contains v, ?_,
      ⟨List.filter_sublist, ?_⟩, ?_⟩
    · simp [release, hrun, hshort, bind, Except.bind, pure, Except.pure]
    · intro v
      by_cases hv : g.Held v <;> simp [hmem, hv]
    · intro hnil
      have hall : List.range g.size ⊆ t.emitted := by
        intro v hv
        have := List.filter_eq_nil_iff.mp hnil v hv
        simpa using this
      have := (List.subperm_of_subset List.nodup_range hall).length_le
      rw [List.length_range] at this
      omega
  · left
    have hperm : t.emitted.Perm (List.range g.size) :=
      hsubperm.perm_of_length_le (by rw [List.length_range]; omega)
    refine ⟨t.emitted, ?_, ⟨hperm, hsound.obeys⟩, ?_⟩
    · simp [release, hrun, hshort, bind, Except.bind, pure, Except.pure]
    · intro v hv
      exact ((hmem v).mp (hperm.mem_iff.mpr (List.mem_range.mpr hv))).2

end Network

end Lineup
