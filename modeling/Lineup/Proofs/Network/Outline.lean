/-
# Networks in outline

Two networks may agree in some of their nodes, under other numbers, and differ in the rest.  To
compare their releases, the nodes they agree in are given names, and a network is looked at through
the names: how many arcs enter a named node, which named nodes stand behind it and which named nodes
are roots (`Outline`).  A node without a name must not lead to one with a name.  Then the release is
seen through the names as a release of its own, which asks for the outline and for nothing else
(`Scene.Runs`).  The emission of a node without a name and the arrivals at such nodes do not show,
and every other step of the sweep is one step of the release in outline (`Sweep.Seen.run`).

A release in outline has but one outcome.  So networks with the same outline emit the named nodes
in the same order, whatever comes in between (`Network.release_in_outline`).
-/
import Mathlib.Logic.Function.Basic
import Lineup.Proofs.Network.Turns

namespace Lineup

/-- What is known of the nodes of a network that have names. -/
structure Outline (α : Type) where
  /-- The number of arcs into a named node. -/
  due : α → Nat
  /-- The named ends of the arcs that leave a named node. -/
  behind : α → List α
  /-- The named nodes that no arc enters. -/
  roots : List α

/-- A stage of the release as far as names show it. -/
structure Scene (α : Type) where
  /-- For every named node the number of entering arcs that are not yet used up. -/
  waiting : α → Nat
  /-- The named nodes that can be emitted, the next one in front. -/
  ready : List α
  /-- The named nodes that were emitted, the earliest in front. -/
  emitted : List α

namespace Scene

variable {α : Type} {o : Outline α} {c : Scene α} {a b : α}

def start (o : Outline α) : Scene α := ⟨o.due, o.roots, []⟩

open Classical in
/-- Uses up one arc into `a`, which becomes ready with the last of its arcs. -/
noncomputable def arrive (c : Scene α) (a : α) : Scene α where
  waiting := Function.update c.waiting a (c.waiting a - 1)
  ready := if c.waiting a = 1 then a :: c.ready else c.ready
  emitted := c.emitted

@[simp] theorem waiting_arrive_self : (c.arrive a).waiting a = c.waiting a - 1 := by
  simp [arrive]

theorem waiting_arrive_ne (h : b ≠ a) : (c.arrive a).waiting b = c.waiting b := by
  simp [arrive, h]

theorem ready_arrive_last (h : c.waiting a = 1) : (c.arrive a).ready = a :: c.ready := if_pos h

theorem ready_arrive_other (h : c.waiting a ≠ 1) : (c.arrive a).ready = c.ready := if_neg h

/-- The named nodes come out in an order when ready ones are emitted until none is left. -/
inductive Runs (o : Outline α) : Scene α → List α → Prop
  | done {waiting : α → Nat} {emitted : List α} : Runs o ⟨waiting, [], emitted⟩ emitted
  | emit {waiting : α → Nat} {a : α} {ready emitted order : List α} :
      Runs o ((o.behind a).foldl arrive ⟨waiting, ready, emitted ++ [a]⟩) order →
        Runs o ⟨waiting, a :: ready, emitted⟩ order

theorem Runs.unique {order order' : List α} (h : c.Runs o order) (h' : c.Runs o order') :
    order = order' := by
  induction h with
  | done => cases h' with | done => rfl
  | emit _ ih => cases h' with | emit h' => exact ih h'

end Scene

variable {α : Type} {f : Nat → Option α}

def Apart (f : Nat → Option α) : Prop := ∀ {v w a}, f v = some a → f w = some a → v = w

/-- The scene is what the names show of the sweep. -/
structure Sweep.Seen (f : Nat → Option α) (s : Sweep) (c : Scene α) : Prop where
  waiting : ∀ {v a k}, f v = some a → s.waiting[v]? = some k → c.waiting a = k
  ready : s.ready.filterMap f = c.ready
  emitted : s.emitted.filterMap f = c.emitted

/-- The outline is what the names show of the network, and what has no name leads to nothing that
has one. -/
structure Network.Seen (f : Nat → Option α) (g : Network) (o : Outline α) : Prop where
  apart : Apart f
  due : ∀ {v a}, f v = some a → g.due v = o.due a
  behind : ∀ {v a}, f v = some a → (g.behind v).filterMap f = o.behind a
  unnamed : ∀ {v}, f v = none → (g.behind v).filterMap f = []
  roots : g.roots.filterMap f = o.roots

namespace Sweep

variable {g : Network} {o : Outline α} {s t : Sweep} {c : Scene α}

namespace Seen

/-! ## Arrivals -/

theorem arrive_unnamed (h : s.Seen f c) {w : Nat} (hw : f w = none) (ht : s.arrive w = .ok t) :
    t.Seen f c := by
  have hset : ∀ {v a k j}, f v = some a → (s.waiting.set w j)[v]? = some k → c.waiting a = k := by
    intro v a k j hv hk
    have hwv : w ≠ v := by
      rintro rfl
      rw [hw] at hv
      cases hv
    rw [List.getElem?_set_ne hwv] at hk
    exact h.waiting hv hk
  unfold Sweep.arrive at ht
  split at ht
  · cases ht
  · cases ht
  · obtain rfl := Except.ok.inj ht
    exact ⟨hset, by rw [List.filterMap_cons_none hw, h.ready], h.emitted⟩
  · obtain rfl := Except.ok.inj ht
    exact ⟨hset, h.ready, h.emitted⟩

theorem arrive_named (h : s.Seen f c) (hf : Apart f) {w : Nat} {a : α} (hw : f w = some a)
    (ht : s.arrive w = .ok t) : t.Seen f (c.arrive a) := by
  have hset : ∀ {v b k j}, j = c.waiting a - 1 → f v = some b →
      (s.waiting.set w j)[v]? = some k → (c.arrive a).waiting b = k := by
    intro v b k j hj hv hk
    by_cases hwv : w = v
    · subst hwv
      obtain rfl := Option.some.inj (hw.symm.trans hv)
      have hlt : w < (s.waiting.set w j).length := (List.getElem?_eq_some_iff.mp hk).1
      rw [List.getElem?_set_self (by simpa using hlt), Option.some.injEq] at hk
      rw [Scene.waiting_arrive_self, ← hj, hk]
    · rw [List.getElem?_set_ne hwv] at hk
      have hba : b ≠ a := by
        rintro rfl
        exact hwv (hf hw hv)
      rw [Scene.waiting_arrive_ne hba]
      exact h.waiting hv hk
  unfold Sweep.arrive at ht
  split at ht
  · cases ht
  · cases ht
  · rename_i hone
    obtain rfl := Except.ok.inj ht
    have hc : c.waiting a = 1 := h.waiting hw hone
    refine ⟨hset (by rw [hc]), ?_, h.emitted⟩
    rw [List.filterMap_cons_some hw, h.ready, Scene.ready_arrive_last hc]
  · rename_i k hmore
    obtain rfl := Except.ok.inj ht
    have hc : c.waiting a = k + 2 := h.waiting hw hmore
    refine ⟨hset (by rw [hc]; rfl), ?_, h.emitted⟩
    rw [Scene.ready_arrive_other (by omega), h.ready]

theorem arrivals (h : s.Seen f c) (hf : Apart f) {out : List Nat}
    (ht : out.foldlM Sweep.arrive s = .ok t) :
    t.Seen f ((out.filterMap f).foldl Scene.arrive c) := by
  induction out generalizing s c with
  | nil =>
      cases ht
      exact h
  | cons w out ih =>
      obtain ⟨u, hu, ht⟩ := arrivals_cons ht
      cases hw : f w with
      | none =>
          rw [List.filterMap_cons_none hw]
          exact ih (h.arrive_unnamed hw hu) ht
      | some a =>
          rw [List.filterMap_cons_some hw]
          exact ih (h.arrive_named hf hw hu) ht

/-! ## Runs -/

theorem start (hg : g.Seen f o) : g.start.Seen f (Scene.start o) where
  waiting := by
    intro v a k hv hk
    have hlt : v < g.size := (List.getElem?_eq_some_iff.mp hk).1
    have hdue : some (g.due v) = some k := (Network.incoming_of_lt hlt).symm.trans hk
    exact (hg.due hv).symm.trans (Option.some.inj hdue)
  ready := hg.roots
  emitted := rfl

section Front

variable {waiting : List Nat} {v : Nat} {ready emitted : List Nat}

/-- A node without a name leaves the row and is emitted, and nothing of it is seen. -/
theorem move_unnamed (h : Seen f ⟨waiting, v :: ready, emitted⟩ c) (hv : f v = none) :
    Seen f ⟨waiting, ready, emitted ++ [v]⟩ c where
  waiting := h.waiting
  ready := (List.filterMap_cons_none hv).symm.trans h.ready
  emitted := by
    rw [List.filterMap_append, List.filterMap_cons_none hv, List.filterMap_nil, List.append_nil]
    exact h.emitted

theorem move_named (h : Seen f ⟨waiting, v :: ready, emitted⟩ c) {a : α} (hv : f v = some a) :
    c = ⟨c.waiting, a :: ready.filterMap f, c.emitted⟩ ∧
      Seen f ⟨waiting, ready, emitted ++ [v]⟩ ⟨c.waiting, ready.filterMap f, c.emitted ++ [a]⟩ := by
  constructor
  · have hready : a :: ready.filterMap f = c.ready :=
      (List.filterMap_cons_some hv).symm.trans h.ready
    rw [hready]
  · refine ⟨h.waiting, rfl, ?_⟩
    rw [List.filterMap_append, List.filterMap_cons_some hv, List.filterMap_nil]
    exact congrArg (· ++ [a]) h.emitted

end Front

theorem run (hg : g.Seen f o) (h : s.Seen f c) {order : List Nat} (hrun : s.run g = .ok order) :
    c.Runs o (order.filterMap f) := by
  fun_induction Sweep.run g s generalizing c with
  | case1 waiting emitted =>
      cases hrun
      obtain ⟨waiting', ready', emitted'⟩ := c
      obtain ⟨-, rfl, rfl⟩ := h
      exact .done
  | case2 => cases hrun
  | case3 => cases hrun
  | case4 waiting v ready emitted out hout t ht ih =>
      have hbehind : out = g.behind v := by
        rw [Network.behind, Network.successors_eq_ok.mp hout, Option.getD_some]
      cases hv : f v with
      | none =>
          have hseen := (h.move_unnamed hv).arrivals hg.apart ht
          rw [hbehind, hg.unnamed hv] at hseen
          exact ih hseen hrun
      | some a =>
          obtain ⟨hc, hmoved⟩ := h.move_named hv
          have hseen := hmoved.arrivals hg.apart ht
          rw [hbehind, hg.behind hv] at hseen
          rw [hc]
          exact .emit (ih hseen hrun)

end Seen

end Sweep

/-- Networks with the same outline emit the nodes that have names in the same order. -/
theorem Network.release_in_outline {g h : Network} {k : Nat → Option α} {o : Outline α}
    (hg : g.Seen f o) (hh : h.Seen k o) {order order' : List Nat}
    (hrel : g.release = .ok (.complete order)) (hrel' : h.release = .ok (.complete order')) :
    order.filterMap f = order'.filterMap k :=
  ((Sweep.Seen.start hg).run hg (run_of_release hrel)).unique
    ((Sweep.Seen.start hh).run hh (run_of_release hrel'))

end Lineup
