/-
# Orders checked by a table of places

A checker need not search the order each time it reads an arc.  It can enter the place of every
node of the order in a table first, and give up when a node comes a second time or does not exist.

Entering the nodes of an order one by one, the table holds at every moment what a search of the
nodes entered so far would find, so it is finished exactly when the order holds nodes of the
network only, none of them twice (`places_eq`).  Hence the checks that read the table give the same
answers as those that search, on any network and any order whatever (`coversByPlaces_eq`,
`respectsByPlaces_eq`).

What the answers mean is said without either of them (`check_order`): up to the first arc that
does not go forward the arcs make no difference, and that arc alone decides.
-/
import Lineup.Proofs.Network.Forest
import Lineup.Proofs.Network.Orders

namespace Lineup

open Relation

/-- For every node of a network the place that it has in an order, if it has one. -/
abbrev Places := List (Option Nat)

namespace Places

/-- Enters the place of a node that exists and has no place yet. -/
def enter (places : Places) (place v : Nat) : Option Places :=
  match places[v]? with
  | some none => some (places.set v (some place))
  | _ => none

/-- Enters nodes in order, the first of them at `place`.  There is no table if one of them cannot
be entered. -/
def fill : Places → Nat → List Nat → Option Places
  | places, _, [] => some places
  | places, place, v :: order =>
    match places.enter place v with
    | none => none
    | some places => fill places (place + 1) order

/-- Reads arcs up to the first that does not go from one place to a later one.  Both its ends are
looked up. -/
def scan (places : Places) : List (Nat × Nat) → Except Breach Bool
  | [] => .ok true
  | (a, b) :: arcs =>
    match places[a]? with
    | none => .error (.noSuchNode a)
    | some start =>
      match places[b]? with
      | none => .error (.noSuchNode b)
      | some finish =>
        match start, finish with
        | some i, some j => if i < j then scan places arcs else .ok false
        | _, _ => .ok false

/-- The table of an order that is searched for each of `n` nodes. -/
def searched (n : Nat) (order : List Nat) : Places := (List.range n).map order.idxOf?

end Places

namespace Network

/-- The table of places of an order, unless a node comes twice or does not exist. -/
def places (g : Network) (order : List Nat) : Option Places :=
  Places.fill (List.replicate g.size none) 0 order

/-- Whether a list is as long as the network and has a table of places. -/
def coversByPlaces (g : Network) (order : List Nat) : Bool :=
  order.length == g.size && (g.places order).isSome

/-- Whether a list has a table of places and every arc goes forward in it. -/
def respectsByPlaces (g : Network) (order : List Nat) : Except Breach Bool :=
  match g.places order with
  | none => .ok false
  | some places => places.scan g.arcs

end Network

/-! ## The table holds what a search finds -/

namespace Places

variable {n v : Nat} {order : List Nat}

theorem getElem?_searched :
    (searched n order)[v]? = if v < n then some (order.idxOf? v) else none := by
  by_cases hv : v < n <;> simp [searched, hv]

theorem idxOf?_concat {u : Nat} (hv : v ∉ order) :
    (order ++ [v]).idxOf? u = if v = u then some order.length else order.idxOf? u := by
  rcases eq_or_ne v u with rfl | hvu
  · rw [if_pos rfl, Network.idxOf?_middle hv]
  · simp [List.idxOf?, List.findIdx?_append, hvu]

theorem enter_searched (n : Nat) (order : List Nat) (v : Nat) :
    (searched n order).enter order.length v =
      if v < n ∧ v ∉ order then some (searched n (order ++ [v])) else none := by
  rw [enter, getElem?_searched]
  by_cases hv : v < n
  · by_cases hin : v ∈ order
    · obtain ⟨place, hplace⟩ := Option.isSome_iff_exists.mp (List.isSome_idxOf?.mpr hin)
      simp [hv, hin, hplace]
    · have hset : (searched n order).set v (some order.length) = searched n (order ++ [v]) := by
        refine List.ext_getElem? fun u => ?_
        rw [List.getElem?_set, getElem?_searched, getElem?_searched, idxOf?_concat hin]
        rcases eq_or_ne v u with rfl | hvu
        · simp [searched, hv]
        · simp [hvu]
      simp [hv, hin, List.idxOf?_eq_none_iff.mpr hin, hset]
  · simp [hv]

/-- What is entered behind some nodes fits if it repeats neither itself nor one of them. -/
theorem fill_searched (n : Nat) (entered rest : List Nat) :
    fill (searched n entered) entered.length rest =
      if (∀ v ∈ rest, v < n ∧ v ∉ entered) ∧ rest.Nodup then some (searched n (entered ++ rest))
      else none := by
  induction rest generalizing entered with
  | nil => simp [fill]
  | cons v rest ih =>
      rw [fill, enter_searched]
      by_cases hv : v < n ∧ v ∉ entered
      · have hrest := ih (entered ++ [v])
        rw [List.length_append, List.length_singleton, List.append_assoc] at hrest
        simp only [if_pos hv, hrest]
        refine if_congr ?_ rfl rfl
        rw [List.forall_mem_cons, List.nodup_cons]
        constructor
        · rintro ⟨hfree, hnd⟩
          have hnew : v ∉ rest := fun hmem => (hfree v hmem).2 (by simp)
          refine ⟨⟨hv, fun w hw => ⟨(hfree w hw).1, ?_⟩⟩, hnew, hnd⟩
          exact fun hin => (hfree w hw).2 (List.mem_append_left _ hin)
        · rintro ⟨⟨-, hfree⟩, hnew, hnd⟩
          refine ⟨fun w hw => ⟨(hfree w hw).1, ?_⟩, hnd⟩
          rw [List.mem_append, List.mem_singleton]
          rintro (hin | rfl)
          · exact (hfree w hw).2 hin
          · exact hnew hw
      · rw [if_neg hv, if_neg]
        exact fun h => hv (h.1 v List.mem_cons_self)

theorem scan_searched (g : Network) (order : List Nat) (arcs : List (Nat × Nat)) :
    (searched g.size order).scan arcs = g.forward order arcs := by
  induction arcs with
  | nil => rfl
  | cons arc arcs ih =>
      obtain ⟨a, b⟩ := arc
      rw [scan, Network.forward, getElem?_searched, getElem?_searched]
      rcases Nat.lt_or_ge a g.size with ha | ha
      · rcases Nat.lt_or_ge b g.size with hb | hb
        · rw [if_pos ha, if_pos hb, if_neg (Nat.not_le.mpr ha), if_neg (Nat.not_le.mpr hb),
            Network.ahead]
          cases order.idxOf? a with
          | none => rfl
          | some i =>
              cases order.idxOf? b with
              | none => rfl
              | some j => simp [ih]
        · simp [ha, hb, Nat.not_le.mpr ha, Nat.not_lt.mpr hb]
      · simp [ha, Nat.not_lt.mpr ha]

end Places

namespace Network

variable {g : Network} {order : List Nat}

open Places

theorem places_eq (g : Network) (order : List Nat) :
    g.places order = if g.lists order then some (searched g.size order) else none := by
  have hblank : List.replicate g.size none = searched g.size [] := by
    simp [searched, List.map_const']
  have hfill := fill_searched g.size [] order
  rw [List.length_nil, List.nil_append] at hfill
  rw [places, hblank, hfill]
  refine if_congr ?_ rfl rfl
  simp [lists_iff]

theorem coversByPlaces_eq (g : Network) (order : List Nat) :
    g.coversByPlaces order = g.covers order := by
  rw [coversByPlaces, covers, places_eq]
  cases g.lists order <;> rfl

theorem respectsByPlaces_eq (g : Network) (order : List Nat) :
    g.respectsByPlaces order = g.respects order := by
  rw [respectsByPlaces, respects, places_eq]
  cases g.lists order with
  | false => rfl
  | true => exact scan_searched g order g.arcs

/-! ## What the answers mean -/

theorem ahead_iff_sublist (hnd : order.Nodup) {a b : Nat} :
    ahead order a b = true ↔ [a, b].Sublist order :=
  (ahead_iff hnd).trans pair_sublist_iff.symm

theorem respects_of_not_listed (h : ¬ order.Nodup ∨ ∃ v ∈ order, g.size ≤ v) :
    g.respects order = .ok false := by
  rw [respects, if_neg]
  rw [lists_iff]
  rintro ⟨hlt, hnd⟩
  rcases h with hrep | ⟨v, hv, hsize⟩
  · exact hrep hnd
  · exact Nat.not_lt.mpr hsize (hlt v hv)

theorem forward_append {arcs rest : List (Nat × Nat)} (hlt : ∀ v ∈ order, v < g.size)
    (hnd : order.Nodup) (harcs : ∀ arc ∈ arcs, [arc.1, arc.2].Sublist order) :
    g.forward order (arcs ++ rest) = g.forward order rest := by
  induction arcs with
  | nil => rfl
  | cons arc arcs ih =>
      obtain ⟨a, b⟩ := arc
      obtain ⟨hab, harcs⟩ := List.forall_mem_cons.mp harcs
      have ha : a < g.size := hlt a (hab.subset (by simp))
      have hb : b < g.size := hlt b (hab.subset (by simp))
      rw [List.cons_append, forward, if_neg (Nat.not_le.mpr ha), if_neg (Nat.not_le.mpr hb),
        if_pos ((ahead_iff_sublist hnd).mpr hab)]
      exact ih harcs

theorem respects_of_onward (hlt : ∀ v ∈ order, v < g.size) (hnd : order.Nodup)
    (harcs : ∀ arc ∈ g.arcs, [arc.1, arc.2].Sublist order) : g.respects order = .ok true := by
  rw [respects, if_pos (lists_iff.mpr ⟨hlt, hnd⟩), ← List.append_nil g.arcs,
    forward_append hlt hnd harcs, forward]

theorem respects_of_first {arcs rest : List (Nat × Nat)} {a b : Nat}
    (hlt : ∀ v ∈ order, v < g.size) (hnd : order.Nodup) (hsplit : g.arcs = arcs ++ (a, b) :: rest)
    (harcs : ∀ arc ∈ arcs, [arc.1, arc.2].Sublist order) (hab : ¬ [a, b].Sublist order) :
    g.respects order =
      if g.size ≤ a then .error (.noSuchNode a)
      else if g.size ≤ b then .error (.noSuchNode b)
      else .ok false := by
  rw [respects, if_pos (lists_iff.mpr ⟨hlt, hnd⟩), hsplit, forward_append hlt hnd harcs, forward,
    if_neg (mt (ahead_iff_sublist hnd).mp hab)]

theorem not_loop_of_onward (hnd : order.Nodup)
    (harcs : ∀ arc ∈ g.arcs, [arc.1, arc.2].Sublist order) (v : Nat) :
    ¬ TransGen (fun a b => (a, b) ∈ g.arcs) v v := by
  intro hloop
  have hplaces : TransGen (· < ·) (order.idxOf v) (order.idxOf v) := by
    refine hloop.lift order.idxOf fun a b hab => ?_
    exact List.rel_of_pairwise_cons ((pairwise_idxOf hnd).sublist (harcs (a, b) hab))
      List.mem_cons_self
  rw [transGen_eq_self] at hplaces
  exact Nat.lt_irrefl _ hplaces

theorem checked_iff :
    g.covers order = true ∧ g.respects order = .ok true ↔
      order.Perm (List.range g.size) ∧ ∀ arc ∈ g.arcs, [arc.1, arc.2].Sublist order := by
  rw [covers_iff_perm]
  refine and_congr_right fun hperm => ?_
  have hnd : order.Nodup := hperm.nodup_iff.mpr List.nodup_range
  have hlt : ∀ v ∈ order, v < g.size := fun v hv => List.mem_range.mp (hperm.mem_iff.mp hv)
  constructor
  · intro h arc harc
    exact (ahead_iff_sublist hnd).mp ((respects_iff.mp h).2 arc harc).2
  · exact respects_of_onward hlt hnd

/-- Take any network and any list of nodes, whatever the one and the other hold.  The checks that
enter the list in a table answer as those that search it.  The list covers the network exactly when
it is a permutation of the nodes.  It does not respect the arcs if it repeats a node or holds what
is no node.  Otherwise the arcs are read in order: if each has both ends in the list, the start at
an earlier place, the answer is yes; if not, the first arc of which this is not so decides, with a
breach if an end of it is no node and with no otherwise.  So both checks say yes exactly of the
permutations of the nodes in which every arc goes forward, and then no path of arcs comes back to
the node it set out from. -/
theorem check_order (g : Network) (order : List Nat) :
    (g.coversByPlaces order = g.covers order ∧ g.respectsByPlaces order = g.respects order) ∧
    (g.covers order = true ↔ order.Perm (List.range g.size)) ∧
    ((¬ order.Nodup ∨ ∃ v ∈ order, g.size ≤ v) → g.respects order = .ok false) ∧
    (order.Nodup → (∀ v ∈ order, v < g.size) →
      ((∀ arc ∈ g.arcs, [arc.1, arc.2].Sublist order) → g.respects order = .ok true) ∧
      ∀ arcs a b rest, g.arcs = arcs ++ (a, b) :: rest →
        (∀ arc ∈ arcs, [arc.1, arc.2].Sublist order) → ¬ [a, b].Sublist order →
        g.respects order =
          if g.size ≤ a then .error (.noSuchNode a)
          else if g.size ≤ b then .error (.noSuchNode b)
          else .ok false) ∧
    (g.covers order = true ∧ g.respects order = .ok true ↔
      order.Perm (List.range g.size) ∧ ∀ arc ∈ g.arcs, [arc.1, arc.2].Sublist order) ∧
    (g.covers order = true ∧ g.respects order = .ok true →
      ¬ ∃ v, TransGen (fun a b => (a, b) ∈ g.arcs) v v) := by
  refine ⟨⟨coversByPlaces_eq g order, respectsByPlaces_eq g order⟩, covers_iff_perm,
    respects_of_not_listed, ?_, checked_iff, ?_⟩
  · intro hnd hlt
    refine ⟨respects_of_onward hlt hnd, ?_⟩
    intro arcs a b rest hsplit harcs hab
    exact respects_of_first hlt hnd hsplit harcs hab
  · rintro h ⟨v, hloop⟩
    obtain ⟨hperm, harcs⟩ := checked_iff.mp h
    exact not_loop_of_onward (hperm.nodup_iff.mpr List.nodup_range) harcs v hloop

/-- The second arc goes backward in ascending order, the third joins what are no nodes. -/
def wayward : Network := ⟨[(0, 1), (1, 0), (9, 9)], [[], []], [0, 0]⟩

/-- In ascending order the second arc decides and the third is never read.  In descending order the
first arc decides already, and a list that repeats a node is never checked against the arcs. -/
theorem check_order_wayward :
    wayward.coversByPlaces [0, 1] = true ∧ wayward.respectsByPlaces [0, 1] = .ok false ∧
      wayward.respects [1, 0] = .ok false ∧ wayward.respects [0, 0] = .ok false := by
  obtain ⟨⟨hcovers, hrespects⟩, hperm, -, hlisted, -⟩ := check_order wayward [0, 1]
  obtain ⟨-, -, -, hlisted', -⟩ := check_order wayward [1, 0]
  obtain ⟨-, -, hrepeated, -⟩ := check_order wayward [0, 0]
  refine ⟨?_, ?_, ?_, hrepeated (.inl (by decide))⟩
  · rw [hcovers, hperm]
    decide
  · rw [hrespects]
    exact (hlisted (by decide) (by decide)).2 [(0, 1)] 1 0 [(9, 9)] rfl (by decide) (by decide)
  · exact (hlisted' (by decide) (by decide)).2 [] 0 1 [(1, 0), (9, 9)] rfl (by decide) (by decide)

end Network

end Lineup
