/-
# The depth-first search with its path on a stack

The search for circles can be done without recursion.  A walk keeps the nodes of the current path
on a stack, each with the number of its successors that were followed already, and takes one small
step at a time: it starts at the next node, looks at the next successor of the node on top, or
takes that node off.

Two things are shown of walks, on any network, be it whole or not.  A walk ends: every step uses up
a node to start from, a successor or a node that was never reached, so twice the nodes and once the
arcs bound the number of steps (`todo_step`).  And a walk gives the same answer as the recursive
search (`answer?_eq_acyclic`): from the step that puts a node on the stack to the one that takes it
off it does what exploring that node does (`passes_explore`).
-/
import Mathlib
import Lineup.Proofs.Network.Agreement

namespace Lineup

open Network Relation

/-- A stage of a search that keeps its path on a stack. -/
structure Walk where
  /-- How far the search has come with every node. -/
  marks : List Mark
  /-- The nodes of the path, the latest in front, each with the number of successors followed. -/
  path : List (Nat × Nat)
  /-- The nodes from which the search is still to start. -/
  starts : List Nat
deriving DecidableEq, Repr

inductive Stride where
  /-- The walk goes on. -/
  | go (w : Walk)
  /-- The walk ends with an answer. -/
  | stop (answer : Except Breach Bool)

def Halt.answer : Halt → Except Breach Bool
  | .loop => .ok false
  | .broken b => .error b

namespace Walk

/-- One step.  A node on the path that is met again closes a circle; a node with no successor left
is done. -/
def step (g : Network) : Walk → Stride
  | ⟨_, [], []⟩ => .stop (.ok true)
  | ⟨marks, [], v :: starts⟩ =>
    match marks[v]? with
    | none => .stop (.error (.noSuchNode v))
    | some .fresh => .go ⟨marks.set v .onPath, [(v, 0)], starts⟩
    | some _ => .go ⟨marks, [], starts⟩
  | ⟨marks, (v, i) :: path, starts⟩ =>
    match g.successors v with
    | .error b => .stop (.error b)
    | .ok out =>
      match out[i]? with
      | none => .go ⟨marks.set v .done, path, starts⟩
      | some w =>
        match marks[w]? with
        | none => .stop (.error (.noSuchNode w))
        | some .fresh => .go ⟨marks.set w .onPath, (w, 0) :: (v, i + 1) :: path, starts⟩
        | some .onPath => .stop (.ok false)
        | some .done => .go ⟨marks, (v, i + 1) :: path, starts⟩

def answer? (g : Network) : Nat → Walk → Option (Except Breach Bool)
  | 0, _ => none
  | n + 1, w =>
    match w.step g with
    | .stop answer => some answer
    | .go w => answer? g n w

end Walk

/-- The walk before its first step: nothing was reached, and every node is to start from. -/
def Network.outset (g : Network) : Walk :=
  ⟨List.replicate g.size .fresh, [], List.range g.size⟩

namespace Walk

variable {g : Network} {w w' : Walk} {marks : List Mark} {a : Except Breach Bool}

/-! ## A walk ends -/

/-- The nodes that were never reached, each counted once for itself and once for every successor. -/
def pending (g : Network) (marks : List Mark) : Nat :=
  ∑ v ∈ Finset.range marks.length,
    if marks[v]? = some .fresh then (g.behind v).length + 1 else 0

/-- What a walk has still to use up: nodes that were never reached, successors of the nodes on the
path, and nodes to start from. -/
def todo (g : Network) (w : Walk) : Nat :=
  pending g w.marks + (w.path.map fun f => (g.behind f.1).length - f.2 + 1).sum + w.starts.length

theorem pending_reach {v : Nat} (hv : marks[v]? = some .fresh) :
    pending g (marks.set v .onPath) + ((g.behind v).length + 1) = pending g marks := by
  have hlen := (List.getElem?_eq_some_iff.mp hv).1
  have hmem : v ∈ Finset.range marks.length := Finset.mem_range.mpr hlen
  unfold pending
  rw [List.length_set, ← Finset.sum_erase_add _ _ hmem, ← Finset.sum_erase_add _ _ hmem]
  have hrest : ∀ u ∈ (Finset.range marks.length).erase v,
      (if (marks.set v .onPath)[u]? = some .fresh then (g.behind u).length + 1 else 0) =
        if marks[u]? = some .fresh then (g.behind u).length + 1 else 0 := by
    intro u hu
    rw [List.getElem?_set_ne (Finset.ne_of_mem_erase hu).symm]
  rw [Finset.sum_congr rfl hrest, List.getElem?_set_self hlen, if_neg (by simp), if_pos hv,
    Nat.add_zero]

theorem pending_leave (marks : List Mark) (v : Nat) : pending g (marks.set v .done) ≤ pending g marks := by
  unfold pending
  rw [List.length_set]
  refine Finset.sum_le_sum fun u hu => ?_
  by_cases hvu : v = u
  · subst hvu
    rw [List.getElem?_set_self (Finset.mem_range.mp hu), if_neg (by simp)]
    exact Nat.zero_le _
  · rw [List.getElem?_set_ne hvu]

theorem todo_step (h : w.step g = .go w') : w'.todo g < w.todo g := by
  match w, h with
  | ⟨_, [], []⟩, h => cases h
  | ⟨marks, [], v :: starts⟩, h =>
      simp only [step] at h
      split at h
      · cases h
      · rename_i hv
        obtain rfl := Stride.go.inj h
        have := pending_reach (g := g) hv
        simp only [todo, List.map_cons, List.map_nil, List.sum_cons, List.sum_nil, List.length_cons]
        omega
      · obtain rfl := Stride.go.inj h
        simp [todo]
  | ⟨marks, (v, i) :: path, starts⟩, h =>
      simp only [step] at h
      split at h
      · cases h
      · rename_i out hout
        obtain rfl : out = g.behind v := by simp [behind, successors_eq_ok.mp hout]
        split at h
        · obtain rfl := Stride.go.inj h
          have := pending_leave (g := g) marks v
          simp only [todo, List.map_cons, List.sum_cons]
          omega
        · rename_i u hu
          have hi := (List.getElem?_eq_some_iff.mp hu).1
          split at h
          · cases h
          · rename_i hfresh
            obtain rfl := Stride.go.inj h
            have := pending_reach (g := g) hfresh
            simp only [todo, List.map_cons, List.sum_cons]
            omega
          · cases h
          · obtain rfl := Stride.go.inj h
            simp only [todo, List.map_cons, List.sum_cons]
            omega

theorem length_spent_range (g : Network) (n : Nat) :
    (g.spent (List.range n)).length = ∑ v ∈ Finset.range n, (g.behind v).length := by
  induction n with
  | zero => rfl
  | succ n ih =>
      rw [List.range_succ, spent_append, List.length_append, spent_singleton, ih,
        Finset.sum_range_succ]

theorem todo_outset (g : Network) :
    g.outset.todo g = 2 * g.size + (g.spent (List.range g.size)).length := by
  have hpending : pending g g.outset.marks =
      ∑ v ∈ Finset.range g.size, ((g.behind v).length + 1) := by
    have hlen : g.outset.marks.length = g.size := List.length_replicate
    rw [pending, hlen]
    refine Finset.sum_congr rfl fun v hv => if_pos ?_
    exact List.getElem?_replicate_of_lt (Finset.mem_range.mp hv)
  have hstarts : g.outset.starts.length = g.size := List.length_range
  rw [todo, hpending, hstarts, Finset.sum_add_distrib, ← length_spent_range,
    ← Finset.card_eq_sum_ones, Finset.card_range]
  simp only [outset, List.map_nil, List.sum_nil]
  omega

/-! ## The answer of a walk -/

/-- The walk ends with this answer, after however many steps. -/
inductive Gives (g : Network) (a : Except Breach Bool) : Walk → Prop
  | stop {w : Walk} : w.step g = .stop a → Gives g a w
  | go {w w' : Walk} : w.step g = .go w' → Gives g a w' → Gives g a w

theorem Gives.answer?_eq (h : Gives g a w) {n : Nat} (hn : w.todo g < n) :
    w.answer? g n = some a := by
  induction h generalizing n with
  | stop hstep =>
      obtain ⟨n, rfl⟩ := Nat.exists_eq_succ_of_ne_zero (Nat.ne_zero_of_lt hn)
      simp only [answer?, hstep]
  | go hstep _ ih =>
      obtain ⟨n, rfl⟩ := Nat.exists_eq_succ_of_ne_zero (Nat.ne_zero_of_lt hn)
      have := todo_step hstep
      simp only [answer?, hstep]
      exact ih (by omega)

/-- From the stage `w` on the walk comes to what a search came to that started there: it goes on
from the stage `next` with the new marks, or it ends with the answer of a search that stopped. -/
def Passes (g : Network) (w : Walk) (next : List Mark → Walk) : Except Halt (List Mark) → Prop
  | .ok new => ∀ a, Gives g a (next new) → Gives g a w
  | .error halt => Gives g halt.answer w

theorem Passes.step {next : List Mark → Walk} {result : Except Halt (List Mark)}
    (hstep : w.step g = .go w') (h : Passes g w' next result) : Passes g w next result := by
  match result, h with
  | .ok new, h => exact fun a ha => .go hstep (h a ha)
  | .error halt, h => exact .go hstep h

theorem Passes.bind (next : List Mark → Walk) {next' : List Mark → Walk} {result : Except Halt (List Mark)}
    {f : List Mark → Except Halt (List Mark)} (h : Passes g w next result)
    (hnext : ∀ new, result = .ok new → Passes g (next new) next' (f new)) :
    Passes g w next' (result >>= f) := by
  match result, h with
  | .error halt, h => exact h
  | .ok new, h =>
      have hrest := hnext new rfl
      show Passes g w next' (f new)
      match f new, hrest with
      | .ok last, hrest => exact fun a ha => h a (hrest a ha)
      | .error halt, hrest => exact h _ hrest

/-! ## What exploring does, the walk does from a push to the pop -/

/-- The walk does what exploring does with so much room, wherever the room exceeds the number of
nodes that are not on the path. -/
def Follows (g : Network) (room : Nat) : Prop :=
  ∀ {marks v}, marks.length < room + marks.count .onPath → marks[v]? = some .fresh →
    ∀ path starts, Passes g ⟨marks.set v .onPath, (v, 0) :: path, starts⟩
      (⟨·, path, starts⟩) (g.explore room marks v)

theorem exists_room {room : Nat} (h : marks.length < room + marks.count .onPath) :
    ∃ left, room = left + 1 := by
  have := List.count_le_length (a := Mark.onPath) (l := marks)
  exact Nat.exists_eq_succ_of_ne_zero (by omega)

/-- The successors of the node on top that are left are explored one by one; then it is done. -/
theorem Follows.successors {room v : Nat} {out : List Nat} (hfollows : Follows g room)
    (hout : g.successors v = .ok out) {rest : List Nat} {i : Nat} (hrest : out.drop i = rest)
    (hroom : marks.length < room + marks.count .onPath) (path : List (Nat × Nat))
    (starts : List Nat) :
    Passes g ⟨marks, (v, i) :: path, starts⟩ (fun new => ⟨new.set v .done, path, starts⟩)
      (rest.foldlM (g.explore room) marks) := by
  induction rest generalizing i marks with
  | nil =>
      have hnone : out[i]? = none := List.getElem?_eq_none (List.drop_eq_nil_iff.mp hrest)
      exact fun a ha => .go (by simp only [Walk.step, hout, hnone]) ha
  | cons u rest ih =>
      have hu : out[i]? = some u := by rw [← List.head?_drop, hrest, List.head?_cons]
      have hdrop : out.drop (i + 1) = rest := by rw [← List.drop_drop, hrest]; rfl
      rw [List.foldlM_cons]
      refine Passes.bind (fun new => ⟨new, (v, i + 1) :: path, starts⟩) ?_ ?_
      · obtain ⟨left, rfl⟩ := exists_room hroom
        cases hmark : marks[u]? with
        | none =>
            simp only [explore, hmark]
            exact .stop (by simp only [Walk.step, hout, hu, hmark, Halt.answer])
        | some mark =>
            cases mark with
            | fresh =>
                refine .step ?_ (hfollows hroom hmark _ _)
                simp only [Walk.step, hout, hu, hmark]
            | onPath =>
                simp only [explore, hmark]
                exact .stop (by simp only [Walk.step, hout, hu, hmark, Halt.answer])
            | done =>
                simp only [explore, hmark]
                exact fun a ha => .go (by simp only [Walk.step, hout, hu, hmark]) ha
      · intro new hnew
        obtain ⟨hlen, hext⟩ := extends_explore hnew
        exact ih hdrop (by rw [hlen, hext.count]; exact hroom)

theorem follows (g : Network) (room : Nat) : Follows g room := by
  induction room with
  | zero =>
      intro marks v hroom
      obtain ⟨left, hleft⟩ := exists_room hroom
      cases hleft
  | succ room ih =>
      intro marks v hroom hfresh path starts
      simp only [explore, hfresh]
      cases hout : g.successors v with
      | error b => exact .stop (by simp only [Walk.step, hout, Halt.answer])
      | ok out =>
          have hroom' : (marks.set v .onPath).length <
              room + (marks.set v .onPath).count .onPath := by
            rw [count_enter hfresh, List.length_set]
            omega
          have hwalk := ih.successors hout (List.drop_zero) hroom' path starts
          simp only
          generalize out.foldlM (g.explore room) (marks.set v .onPath) = result at hwalk ⊢
          cases result with
          | ok new => exact hwalk
          | error halt => exact hwalk

theorem passes_starts {room : Nat} (hroom : marks.length < room) (hnone : marks.count .onPath = 0)
    (starts : List Nat) :
    Passes g ⟨marks, [], starts⟩ (⟨·, [], []⟩) (starts.foldlM (g.explore room) marks) := by
  induction starts generalizing marks with
  | nil => exact fun a ha => ha
  | cons v starts ih =>
      rw [List.foldlM_cons]
      refine Passes.bind (fun new => ⟨new, [], starts⟩) ?_ ?_
      · have hroom' : marks.length < room + marks.count .onPath := Nat.lt_add_right _ hroom
        obtain ⟨left, rfl⟩ := exists_room hroom'
        cases hmark : marks[v]? with
        | none =>
            simp only [explore, hmark]
            exact .stop (by simp only [Walk.step, hmark, Halt.answer])
        | some mark =>
            cases mark with
            | fresh =>
                refine .step ?_ (follows g _ hroom' hmark _ _)
                simp only [Walk.step, hmark]
            | onPath => exact absurd (List.mem_of_getElem? hmark) (List.count_eq_zero.mp hnone)
            | done =>
                simp only [explore, hmark]
                exact fun a ha => .go (by simp only [Walk.step, hmark]) ha
      · intro new hnew
        obtain ⟨hlen, hext⟩ := extends_explore hnew
        exact ih (by rw [hlen]; exact hroom) (by rw [hext.count]; exact hnone)

theorem gives_acyclic (g : Network) : Gives g g.acyclic g.outset := by
  have hroom : g.outset.marks.length < g.size + 1 := by simp [outset]
  have hnone : g.outset.marks.count .onPath = 0 := by simp [outset, List.count_replicate]
  have hwalk : Passes g g.outset (⟨·, [], []⟩) ((List.range g.size).foldlM
      (g.explore (g.size + 1)) (List.replicate g.size .fresh)) :=
    passes_starts hroom hnone g.outset.starts
  rw [acyclic]
  generalize (List.range g.size).foldlM (g.explore (g.size + 1))
    (List.replicate g.size .fresh) = result at hwalk ⊢
  cases result with
  | ok new => exact hwalk _ (.stop rfl)
  | error halt =>
      cases halt with
      | loop => exact hwalk
      | broken b => exact hwalk

/-- On any network whatever the walk gives the answer of the recursive search, and it does so
within twice the nodes and once the arcs, and one step more to see that nothing is left. -/
theorem answer?_eq_acyclic (g : Network) :
    g.outset.answer? g (2 * g.size + (g.spent (List.range g.size)).length + 1) =
      some g.acyclic := by
  refine (gives_acyclic g).answer?_eq ?_
  rw [todo_outset]
  exact Nat.lt_succ_self _

end Walk

namespace Network

/-- Take any network with a list of successors for every node, in which these lists name nodes
only; its arcs and counts may say anything, and there may be lists beyond those of the nodes.  The
check gives an answer.  So does the walk, within twice the nodes and once the arcs and one more
step, and the answer is the same.  It is yes exactly when no path along the successors comes back
to the node that it set out from. -/
theorem acyclic_of_rows {g : Network} (hlisted : g.size ≤ g.next.length)
    (hinside : ∀ v < g.size, ∀ w ∈ g.behind v, w < g.size) :
    ∃ answer, g.acyclic = .ok answer ∧
      g.outset.answer? g (2 * g.size + (g.spent (List.range g.size)).length + 1) =
        some (.ok answer) ∧
      (answer = true ↔ ¬ ∃ v, TransGen g.Leads v v) := by
  have hg : g.Whole := ⟨hlisted, fun huv => hinside _ huv.1 _ huv.2⟩
  obtain ⟨answer, hanswer, hspec⟩ := acyclic_spec hg
  refine ⟨answer, hanswer, ?_, hspec⟩
  rw [Walk.answer?_eq_acyclic, hanswer]

/-- Node 1 leads to node 0 and by way of node 2 back to itself.  The arcs and counts fit nothing,
and there is a list of successors too many. -/
def lateRing : Network := ⟨[(7, 7)], [[], [0, 2], [0, 1, 1], [9]], [5, 5, 5]⟩

/-- The search from node 0 finds nothing, the one from node 1 finds the circle. -/
theorem acyclic_of_rows_late :
    lateRing.size ≤ lateRing.next.length ∧
      (∀ v < lateRing.size, ∀ w ∈ lateRing.behind v, w < lateRing.size) ∧
      lateRing.acyclic = .ok false ∧ lateRing.outset.answer? lateRing 12 = some (.ok false) ∧
      ∃ v, TransGen lateRing.Leads v v := by
  have hlisted : lateRing.size ≤ lateRing.next.length := by decide
  have hinside : ∀ v < lateRing.size, ∀ w ∈ lateRing.behind v, w < lateRing.size := by decide
  have hno : lateRing.acyclic = .ok false := rfl
  obtain ⟨answer, hanswer, hwalk, hspec⟩ := acyclic_of_rows hlisted hinside
  obtain rfl := Except.ok.inj (hno.symm.trans hanswer)
  refine ⟨hlisted, hinside, hno, hwalk, ?_⟩
  by_contra hline
  exact Bool.false_ne_true (hspec.mpr hline)

end Network

end Lineup
