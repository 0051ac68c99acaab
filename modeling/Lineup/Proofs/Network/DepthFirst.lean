/-
# The depth-first search finds exactly the circles

Exploring a node marks it, follows its successors and then calls it done.  Three facts carry the
search: the nodes on the path all lead to the node that is being explored, so coming back to one
of them closes a circle; whatever a finished node leads to is finished; and no finished node lies
on a circle (`Marked`).  Since every level of the exploration puts one more node on the path, and
there are only so many nodes, the room for further nodes never runs out (`explores`).

So the check of a whole network always gives an answer, and it says yes exactly when no path comes
back to its start (`acyclic_spec`).
-/
import Lineup.Network.Check
import Lineup.Proofs.Network.Paths

namespace Lineup.Network

open Relation

/-- The marks of a search: finished nodes are closed under steps and lie on no circle. -/
structure Marked (g : Network) (marks : List Mark) : Prop where
  length : marks.length = g.size
  closed : ∀ {v w : Nat}, marks[v]? = some .done → g.Leads v w → marks[w]? = some .done
  free : ∀ {v : Nat}, marks[v]? = some .done → ¬ TransGen g.Leads v v

/-- What an exploration leaves alone: the nodes on the path, and the finished ones. -/
structure Extends (old new : List Mark) : Prop where
  onPath : ∀ {v : Nat}, new[v]? = some .onPath ↔ old[v]? = some .onPath
  done : ∀ {v : Nat}, old[v]? = some .done → new[v]? = some .done
  count : new.count Mark.onPath = old.count Mark.onPath

theorem Extends.refl (marks : List Mark) : Extends marks marks := ⟨Iff.rfl, id, rfl⟩

theorem Extends.trans {a b c : List Mark} (h : Extends a b) (k : Extends b c) : Extends a c :=
  ⟨k.onPath.trans h.onPath, fun hv => k.done (h.done hv), k.count.trans h.count⟩

theorem Marked.path {g : Network} {marks : List Mark} (h : Marked g marks) {v w : Nat}
    (hv : marks[v]? = some .done) (hvw : ReflTransGen g.Leads v w) : marks[w]? = some .done := by
  induction hvw with
  | refl => exact hv
  | tail _ hstep ih => exact h.closed ih hstep

/-- What following the nodes `vs` from `marks` may come to: they are all finished, or there is a
circle. -/
def Outcome (g : Network) (marks : List Mark) (vs : List Nat) : Except Halt (List Mark) → Prop
  | .ok new => Marked g new ∧ Extends marks new ∧ ∀ v ∈ vs, new[v]? = some .done
  | .error .loop => g.Circular
  | .error (.broken _) => False

/-- An exploration with so much room does what it should wherever the path leads to the node and
the room exceeds what is left of the nodes. -/
def Explores (g : Network) (room : Nat) : Prop :=
  ∀ {marks v}, Marked g marks → v < g.size →
    (∀ u, marks[u]? = some .onPath → TransGen g.Leads u v) →
    g.size < room + marks.count .onPath → Outcome g marks [v] (g.explore room marks v)

theorem Explores.foldlM {g : Network} {room : Nat} (hex : Explores g room) {vs : List Nat}
    {marks : List Mark} (h : Marked g marks) (hlt : ∀ v ∈ vs, v < g.size)
    (hpath : ∀ v ∈ vs, ∀ u, marks[u]? = some .onPath → TransGen g.Leads u v)
    (hroom : g.size < room + marks.count .onPath) :
    Outcome g marks vs (vs.foldlM (g.explore room) marks) := by
  induction vs generalizing marks with
  | nil => exact ⟨h, .refl marks, fun v hv => absurd hv List.not_mem_nil⟩
  | cons v vs ih =>
      have hone := hex h (hlt v List.mem_cons_self) (hpath v List.mem_cons_self) hroom
      rw [List.foldlM_cons]
      match hrun : g.explore room marks v, hone with
      | .error .loop, hone => exact hone
      | .ok new, ⟨hmarked, hext, hdone⟩ =>
          have hrest := ih hmarked (fun w hw => hlt w (List.mem_cons_of_mem _ hw))
            (fun w hw u hu => hpath w (List.mem_cons_of_mem _ hw) u (hext.onPath.mp hu))
            (by rwa [hext.count])
          show Outcome g marks (v :: vs) (vs.foldlM (g.explore room) new)
          match hfold : vs.foldlM (g.explore room) new, hrest with
          | .error .loop, hrest => exact hrest
          | .ok last, ⟨hmarked', hext', hdone'⟩ =>
              refine ⟨hmarked', hext.trans hext', ?_⟩
              intro w hw
              rcases List.mem_cons.mp hw with rfl | hw
              · exact hext'.done (hdone w List.mem_cons_self)
              · exact hdone' w hw

/-! ## A fresh node goes on the path and comes off it -/

section Fresh

variable {g : Network} {marks : List Mark} {v : Nat}

theorem Marked.enter (h : Marked g marks) (hv : marks[v]? = some .fresh) :
    Marked g (marks.set v .onPath) := by
  have hne : ∀ {u : Nat}, marks[u]? = some .done → v ≠ u := by
    rintro u hu rfl
    simp [hv] at hu
  have hback : ∀ {u : Nat}, (marks.set v .onPath)[u]? = some .done → marks[u]? = some .done := by
    intro u hu
    by_cases huv : v = u
    · subst huv
      simp [(List.getElem?_eq_some_iff.mp hv).1] at hu
    · rwa [List.getElem?_set_ne huv] at hu
  refine ⟨by rw [List.length_set, h.length], ?_, fun hu => h.free (hback hu)⟩
  intro u w hu huw
  have hw := h.closed (hback hu) huw
  rwa [List.getElem?_set_ne (hne hw)]

theorem Marked.leave (h : Marked g marks) (hv : marks[v]? = some .onPath)
    (hsucc : ∀ w ∈ g.behind v, marks[w]? = some .done) : Marked g (marks.set v .done) := by
  have hlen := (List.getElem?_eq_some_iff.mp hv).1
  have hkeep : ∀ {u : Nat}, marks[u]? = some .done → (marks.set v .done)[u]? = some .done := by
    intro u hu
    by_cases huv : v = u
    · subst huv
      exact List.getElem?_set_self hlen
    · rwa [List.getElem?_set_ne huv]
  refine ⟨by rw [List.length_set, h.length], ?_, ?_⟩
  · intro u w hu huw
    by_cases huv : v = u
    · subst huv
      exact hkeep (hsucc w huw.2)
    · rw [List.getElem?_set_ne huv] at hu
      exact hkeep (h.closed hu huw)
  · intro u hu hloop
    by_cases huv : v = u
    · subst huv
      -- the circle would lead through a finished successor back to a node on the path
      obtain ⟨w, hvw, hwv⟩ := TransGen.head'_iff.mp hloop
      have hdone := h.path (hsucc w hvw.2) hwv
      simp [hv] at hdone
    · rw [List.getElem?_set_ne huv] at hu
      exact h.free hu hloop

theorem count_enter (hv : marks[v]? = some .fresh) :
    (marks.set v .onPath).count .onPath = marks.count .onPath + 1 := by
  obtain ⟨hlen, hget⟩ := List.getElem?_eq_some_iff.mp hv
  rw [List.count_set hlen, hget]
  rfl

theorem Extends.around {new : List Mark} (hv : marks[v]? = some .fresh)
    (hext : Extends (marks.set v .onPath) new) : Extends marks (new.set v .done) := by
  have hlen := (List.getElem?_eq_some_iff.mp hv).1
  have hnew : new[v]? = some .onPath := hext.onPath.mpr (List.getElem?_set_self hlen)
  obtain ⟨hlen', hget⟩ := List.getElem?_eq_some_iff.mp hnew
  refine ⟨?_, ?_, ?_⟩
  · intro u
    by_cases huv : v = u
    · subst huv
      simp [List.getElem?_set_self hlen', hv]
    · rw [List.getElem?_set_ne huv, hext.onPath, List.getElem?_set_ne huv]
  · intro u hu
    by_cases huv : v = u
    · subst huv
      exact List.getElem?_set_self hlen'
    · rw [List.getElem?_set_ne huv]
      exact hext.done (by rwa [List.getElem?_set_ne huv])
  · have hcount := hext.count
    rw [count_enter hv] at hcount
    rw [List.count_set hlen', hget, hcount]
    rfl

end Fresh

/-- An exploration keeps the marks of the path and the number of marks, whatever the network. -/
theorem extends_foldlM {g : Network} {room : Nat}
    (hstep : ∀ {marks v new}, g.explore room marks v = .ok new →
      new.length = marks.length ∧ Extends marks new)
    {out : List Nat} {marks new : List Mark} (h : out.foldlM (g.explore room) marks = .ok new) :
    new.length = marks.length ∧ Extends marks new := by
  induction out generalizing marks with
  | nil =>
      cases h
      exact ⟨rfl, .refl _⟩
  | cons v out ih =>
      rw [List.foldlM_cons] at h
      cases hv : g.explore room marks v with
      | error halt =>
          rw [hv] at h
          cases h
      | ok mid =>
          rw [hv] at h
          obtain ⟨hlen, hext⟩ := hstep hv
          obtain ⟨hlen', hext'⟩ := ih h
          exact ⟨hlen'.trans hlen, hext.trans hext'⟩

theorem extends_explore {g : Network} {room v : Nat} {marks new : List Mark}
    (h : g.explore room marks v = .ok new) : new.length = marks.length ∧ Extends marks new := by
  induction room generalizing marks v new with
  | zero => cases h
  | succ room ih =>
      simp only [explore] at h
      split at h
      · cases h
      · cases h
      · cases h
        exact ⟨rfl, .refl _⟩
      · rename_i hfresh
        split at h
        · cases h
        · split at h
          · cases h
          · rename_i mid hmid
            obtain rfl := Except.ok.inj h
            obtain ⟨hlen, hext⟩ := extends_foldlM ih hmid
            rw [List.length_set] at hlen
            exact ⟨by rw [List.length_set, hlen], hext.around hfresh⟩

theorem explores {g : Network} (hg : g.Whole) (room : Nat) : Explores g room := by
  induction room with
  | zero =>
      intro marks v h _ _ hroom
      -- all nodes would be on the path, and one more
      have := List.count_le_length (a := Mark.onPath) (l := marks)
      have := h.length
      omega
  | succ room ih =>
      intro marks v h hv hpath hroom
      have hlen : v < marks.length := h.length ▸ hv
      have hmark := List.getElem?_eq_getElem hlen
      cases hcase : marks[v] with
      | onPath =>
          rw [hcase] at hmark
          simp only [explore, hmark]
          exact ⟨v, hpath v hmark⟩
      | done =>
          rw [hcase] at hmark
          simp only [explore, hmark]
          exact ⟨h, .refl marks, by simpa using hmark⟩
      | fresh =>
          rw [hcase] at hmark
          simp only [explore, hmark, hg.successors hv]
          have hstep : ∀ w ∈ g.behind v, g.Leads v w := fun w hw => ⟨hv, hw⟩
          have hlt : ∀ w ∈ g.behind v, w < g.size := fun w hw => hg.inside (hstep w hw)
          have hpath' : ∀ w ∈ g.behind v, ∀ u, (marks.set v .onPath)[u]? = some .onPath →
              TransGen g.Leads u w := by
            intro w hw u hu
            by_cases huv : v = u
            · exact huv ▸ TransGen.single (hstep w hw)
            · rw [List.getElem?_set_ne huv] at hu
              exact (hpath u hu).tail (hstep w hw)
          have hroom' : g.size < room + (marks.set v .onPath).count .onPath := by
            rw [count_enter hmark]
            omega
          have hfold := ih.foldlM (h.enter hmark) hlt hpath' hroom'
          generalize (g.behind v).foldlM (g.explore room) (marks.set v .onPath) = result at hfold
          match result, hfold with
          | .error .loop, hloop => exact hloop
          | .ok new, ⟨hmarked, hext, hdone⟩ =>
              have hon : new[v]? = some .onPath :=
                hext.onPath.mpr (List.getElem?_set_self hlen)
              have hlen' : v < new.length := hmarked.length ▸ hv
              refine ⟨hmarked.leave hon hdone, hext.around hmark, ?_⟩
              intro w hw
              obtain rfl := List.mem_singleton.mp hw
              exact List.getElem?_set_self hlen'

/-- The check gives an answer, which is yes exactly when no path comes back to its start. -/
theorem acyclic_spec {g : Network} (hg : g.Whole) :
    ∃ b, g.acyclic = .ok b ∧ (b = true ↔ ¬ g.Circular) := by
  have hblank : Marked g (List.replicate g.size .fresh) := by
    refine ⟨List.length_replicate, ?_, ?_⟩
    · intro v w hv
      simp [List.getElem?_replicate] at hv
    · intro v hv
      simp [List.getElem?_replicate] at hv
  have hlt : ∀ v ∈ List.range g.size, v < g.size := fun v hv => List.mem_range.mp hv
  have hfold := Explores.foldlM (explores hg (g.size + 1)) hblank hlt
    (fun v _ u hu => by simp [List.getElem?_replicate] at hu) (by omega)
  rw [acyclic]
  generalize (List.range g.size).foldlM (g.explore (g.size + 1))
    (List.replicate g.size .fresh) = result at hfold
  match result, hfold with
  | .error .loop, hloop => exact ⟨false, rfl, iff_of_false Bool.false_ne_true (not_not_intro hloop)⟩
  | .ok new, ⟨hmarked, _, hdone⟩ =>
      refine ⟨true, rfl, iff_of_true rfl ?_⟩
      rintro ⟨v, hloop⟩
      obtain ⟨w, hvw, -⟩ := TransGen.head'_iff.mp hloop
      exact hmarked.free (hdone v (List.mem_range.mpr hvw.1)) hloop

end Lineup.Network
