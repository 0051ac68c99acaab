/-
# Paths in a network

A node leads to the nodes that its arcs end in.  Two things are settled here about paths made of
such steps, before anything is said about a search or a release:

* following steps backwards through finitely many nodes ends in a node that has a reason of its
  own, or goes round in a circle (`exists_origin`);
* in an order in which every node stands behind all the nodes that lead to it, a path runs
  forward, so no path runs in a circle (`Obeys`).
-/
import Mathlib.Logic.Relation
import Mathlib.Data.Fintype.EquivFin
import Lineup.Network.Basic

namespace Lineup.Network

open Relation

/-- The ends of the arcs that leave a node, none for what is no node. -/
def behind (g : Network) (v : Nat) : List Nat := (g.next[v]?).getD []

/-- One step of a path: an arc from `u` to `v`, read off the lists of successors. -/
def Leads (g : Network) (u v : Nat) : Prop := u < g.size ∧ v ∈ g.behind u

/-- Some path comes back to the node it set out from. -/
def Circular (g : Network) : Prop := ∃ v, TransGen g.Leads v v

/-- The lists of successors serve every node and name no other node. -/
structure Whole (g : Network) : Prop where
  listed : g.size ≤ g.next.length
  inside : ∀ {u v}, g.Leads u v → v < g.size

theorem next_of_lt {g : Network} {v : Nat} (h : v < g.next.length) :
    g.next[v]? = some (g.behind v) := by
  simp [behind, h]

theorem Whole.successors {g : Network} (h : g.Whole) {v : Nat} (hv : v < g.size) :
    g.successors v = .ok (g.behind v) :=
  successors_eq_ok.mpr (next_of_lt (Nat.lt_of_lt_of_le hv h.listed))

/-! ## Going backwards

If every node of a finite set has a cause of its own or is led to from inside the set, then each
of them hangs on a cause or on a circle.  Going back through nodes that do not hang on anything
never meets a node twice, so it comes to an end. -/

/-- What `v` hangs on: a node with the property `O` or a circle from which a path leads to `v`. -/
def Hangs (r : Nat → Nat → Prop) (O : Nat → Prop) (v : Nat) : Prop :=
  ∃ c, (O c ∨ TransGen r c c) ∧ ReflTransGen r c v

section Hangs

variable {r : Nat → Nat → Prop} {O : Nat → Prop} {u v : Nat}

theorem Hangs.of_cause (h : O v) : Hangs r O v := ⟨v, Or.inl h, .refl⟩

theorem Hangs.of_loop (h : TransGen r v v) : Hangs r O v := ⟨v, Or.inr h, .refl⟩

theorem Hangs.step (h : Hangs r O u) (huv : r u v) : Hangs r O v := by
  obtain ⟨c, hc, hcu⟩ := h
  exact ⟨c, hc, hcu.tail huv⟩

/-- A step between nodes below `n` that sets out from one that hangs on nothing. -/
def FreeStep (r : Nat → Nat → Prop) (O : Nat → Prop) (n : Nat) (a b : Fin n) : Prop :=
  ¬ Hangs r O a ∧ r a b

theorem freeStep_wellFounded (n : Nat) : WellFounded (FreeStep r O n) := by
  have hirrefl : Std.Irrefl (TransGen (FreeStep r O n)) := by
    refine ⟨?_⟩
    intro a ha
    obtain ⟨_, hstep, -⟩ := TransGen.head'_iff.mp ha
    exact hstep.1 (.of_loop (ha.lift Fin.val fun _ _ h => h.2))
  have hwf : WellFounded (TransGen (FreeStep r O n)) := Finite.wellFounded_of_trans_of_irrefl _
  exact Subrelation.wf TransGen.single hwf

theorem exists_origin {S : Nat → Prop} {n : Nat} (hlt : ∀ v, S v → v < n)
    (hback : ∀ v, S v → O v ∨ ∃ u, S u ∧ r u v) (hv : S v) : Hangs r O v := by
  suffices h : ∀ a : Fin n, S a → Hangs r O a from h ⟨v, hlt v hv⟩ hv
  intro a
  induction a using (freeStep_wellFounded (r := r) (O := O) n).induction with
  | _ a ih =>
      intro ha
      rcases hback a ha with hO | ⟨u, hu, hua⟩
      · exact .of_cause hO
      · by_cases hfree : Hangs r O u
        · exact hfree.step hua
        · exact (ih ⟨u, hlt u hu⟩ ⟨hfree, hua⟩ hu).step hua

end Hangs

/-! ## Going forward -/

/-- Whatever leads to a node of the order stands ahead of it. -/
def Obeys (g : Network) (order : List Nat) : Prop :=
  ∀ pre v post, order = pre ++ v :: post → ∀ u, g.Leads u v → u ∈ pre

theorem obeys_nil (g : Network) : g.Obeys [] := by
  intro pre v post h
  simp at h

theorem Obeys.concat {g : Network} {order : List Nat} {v : Nat} (h : g.Obeys order)
    (hv : ∀ u, g.Leads u v → u ∈ order) : g.Obeys (order ++ [v]) := by
  intro pre w post heq u huw
  rcases List.eq_nil_or_concat post with rfl | ⟨post', z, rfl⟩
  · obtain ⟨rfl, hvw⟩ := List.append_inj' heq rfl
    obtain rfl : v = w := by simpa using hvw
    exact hv u huw
  · have heq' : order ++ [v] = (pre ++ w :: post') ++ [z] := by simpa using heq
    obtain ⟨hpre, -⟩ := List.append_inj' heq' rfl
    exact h pre w post' hpre u huw

theorem Obeys.path {g : Network} {order : List Nat} (h : g.Obeys order) {u v : Nat}
    (huv : TransGen g.Leads u v) :
    ∀ {pre post : List Nat}, order = pre ++ v :: post → u ∈ pre := by
  induction huv with
  | single huv => exact fun heq => h _ _ _ heq u huv
  | @tail x w _ hxw ih =>
      intro pre post heq
      obtain ⟨ahead, between, rfl⟩ := List.append_of_mem (h _ _ _ heq _ hxw)
      have hsplit : order = ahead ++ x :: (between ++ w :: post) := by simpa using heq
      exact List.mem_append_left _ (ih hsplit)

theorem Obeys.not_loop {g : Network} {order : List Nat} (h : g.Obeys order)
    (hnd : order.Nodup) {v : Nat} (hv : v ∈ order) : ¬ TransGen g.Leads v v := by
  intro hloop
  obtain ⟨pre, post, rfl⟩ := List.append_of_mem hv
  have hpre : v ∈ pre := h.path hloop rfl
  rw [List.nodup_append] at hnd
  exact hnd.2.2 v hpre v List.mem_cons_self rfl

theorem Obeys.back {g : Network} {order : List Nat} (h : g.Obeys order) {u v : Nat}
    (huv : ReflTransGen g.Leads u v) (hv : v ∈ order) : u ∈ order := by
  rcases reflTransGen_iff_eq_or_transGen.mp huv with rfl | huv
  · exact hv
  · obtain ⟨pre, post, rfl⟩ := List.append_of_mem hv
    exact List.mem_append_left _ (h.path huv rfl)

theorem pair_sublist_iff {α : Type} {order : List α} {u v : α} :
    [u, v].Sublist order ↔ ∃ pre post, order = pre ++ v :: post ∧ u ∈ pre := by
  constructor
  · intro huv
    obtain ⟨pre, rest, rfl, hu, hv⟩ := List.cons_sublist_iff.mp huv
    obtain ⟨between, post, rfl⟩ := List.append_of_mem (List.singleton_sublist.mp hv)
    exact ⟨pre ++ between, post, by rw [List.append_assoc], List.mem_append_left between hu⟩
  · rintro ⟨pre, post, rfl, hu⟩
    exact (List.singleton_sublist.mpr hu).append ((List.nil_sublist post).cons_cons v)

theorem Obeys.sublist {g : Network} {order : List Nat} (h : g.Obeys order) {u v : Nat}
    (huv : TransGen g.Leads u v) (hv : v ∈ order) : [u, v].Sublist order := by
  obtain ⟨pre, post, rfl⟩ := List.append_of_mem hv
  exact pair_sublist_iff.mpr ⟨pre, post, rfl, h.path huv rfl⟩

end Lineup.Network
