/-
# How much a recency list tracks

A list tracks more than it shows: what is left of objects that are gone stays until the list is next
changed or pruned.  So the number of tracked objects says something about the past, and it is said
here what.  A change of the list that is carried out, and a pruning, leave nothing that is gone; any
other act leaves the list as it is, and of the objects it tracks those become gone whose last owner
the act takes (`Settled.gone_act`).  Hence a list always tracks as many objects as it shows and, on
top of these, as many as died in it since it was last changed or pruned (`Settled.gone_after`).

Clearing away is defined as keeping the living in the order and in the handles, each by itself.  It
may as well be done in one pass that lets go of a handle where the order comes to its address
(`Paired.sweep`); for that the two must name the same addresses, which they always do.
-/
import Lineup.Proofs.Recency.Identity

namespace Lineup

variable {α : Type} {a b : Address} {g h : Handle} {k : Nat}

/-! ## Clearing away in one pass -/

namespace Recency

variable {r : Recency} {alive : Handle → Bool}

/-- Goes through addresses in order and drops those whose object is gone, each with its handle. -/
def sweepFrom (alive : Handle → Bool) (handles : Std.TreeMap Address Handle) :
    List Address → Recency
  | [] => ⟨handles, []⟩
  | a :: order =>
    if handles[a]?.any alive then
      let r := sweepFrom alive handles order
      { r with order := a :: r.order }
    else sweepFrom alive (handles.erase a) order

/-- Clears away what is left of objects that are gone, in one pass over the order. -/
def sweep (alive : Handle → Bool) (r : Recency) : Recency := sweepFrom alive r.handles r.order

theorem isSome_living? (alive : Handle → Bool) (r : Recency) (a : Address) :
    (r.living? alive a).isSome = r.handles[a]?.any alive := by
  rw [living?]
  cases r.handles[a]? with
  | none => rfl
  | some h => cases hh : alive h <;> simp [Option.filter, hh]

/-- Letting go of the handle of an object that is gone makes no address lose a living one. -/
theorem any_erase {handles : Std.TreeMap Address Handle} (ha : ¬ handles[a]?.any alive = true)
    (b : Address) : (handles.erase a)[b]?.any alive = handles[b]?.any alive := by
  rw [Std.TreeMap.getElem?_erase]
  split
  · rename_i hab
    obtain rfl := Nat.compare_eq_eq.mp hab
    exact (Bool.eq_false_iff.mpr ha).symm
  · rfl

theorem order_sweepFrom (handles : Std.TreeMap Address Handle) (order : List Address) :
    (sweepFrom alive handles order).order = order.filter (fun a => handles[a]?.any alive) := by
  induction order generalizing handles with
  | nil => rfl
  | cons a order ih =>
      rw [sweepFrom]
      split
      · rename_i ha
        rw [List.filter_cons, if_pos ha]
        exact congrArg _ (ih handles)
      · rename_i ha
        rw [List.filter_cons, if_neg ha, ih]
        exact List.filter_congr fun b _ => any_erase ha b

theorem handles_sweepFrom (handles : Std.TreeMap Address Handle) (order : List Address)
    (b : Address) : (sweepFrom alive handles order).handles[b]? =
      if b ∈ order ∧ ¬ handles[b]?.any alive = true then none else handles[b]? := by
  induction order generalizing handles with
  | nil => simp [sweepFrom]
  | cons a order ih =>
      rw [sweepFrom]
      split
      · rename_i ha
        show (sweepFrom alive handles order).handles[b]? = _
        rw [ih]
        refine if_congr ?_ rfl rfl
        rw [List.mem_cons]
        constructor
        · rintro ⟨hb, hgone⟩
          exact ⟨.inr hb, hgone⟩
        · rintro ⟨rfl | hb, hgone⟩
          · exact absurd ha hgone
          · exact ⟨hb, hgone⟩
      · rename_i ha
        rw [ih, any_erase ha, Std.TreeMap.getElem?_erase]
        rcases eq_or_ne a b with rfl | hab
        · simp [ha]
        · have hcmp : compare a b ≠ .eq := fun h => hab (Nat.compare_eq_eq.mp h)
          simp [hcmp, hab.symm]

/-- One pass over the order leaves what keeping the living in order and handles leaves. -/
theorem Paired.sweep (hr : r.Paired) (alive : Handle → Bool) :
    (r.sweep alive).order = (r.compact alive).order ∧
      ∀ a : Address, (r.sweep alive).handles[a]? = (r.compact alive).handles[a]? := by
  constructor
  · rw [Recency.sweep, order_sweepFrom, Recency.compact]
    exact List.filter_congr fun a _ => (isSome_living? alive r a).symm
  · intro a
    rw [Recency.sweep, handles_sweepFrom, handles_compact, living?]
    cases hh : r.handles[a]? with
    | none => simp
    | some h =>
        have ha : a ∈ r.order := hr.mem_order.mpr ⟨h, hh⟩
        cases halive : alive h <;> simp [ha, halive, Option.filter]

/-! ## Counting -/

theorem Paired.length_objects (hr : r.Paired) : r.objects.length = r.tracked := by
  rw [objects, List.length_filterMap_eq_countP, tracked, List.countP_eq_length]
  intro a ha
  exact Option.isSome_iff_exists.mpr (hr.mem_order.mp ha)

theorem Paired.tracked_eq (hr : r.Paired) (alive : Handle → Bool) :
    r.tracked = r.size alive + r.objects.countP (!alive ·) := by
  rw [← hr.length_objects, List.length_eq_countP_add_countP alive, size, live_eq,
    List.countP_eq_length_filter]
  congr 1
  exact List.countP_congr fun h _ => by simp

theorem Paired.prune_count (hr : r.Paired) (alive : Handle → Bool) :
    (r.prune alive).1 = r.objects.countP (!alive ·) := by
  have hkept : (r.compact alive).tracked = r.size alive := by
    rw [← hr.compact.length_objects, objects_compact, size, live_eq]
  rw [prune, hkept, hr.tracked_eq alive, Nat.add_sub_cancel_left]

end Recency

namespace Act

/-- The list that an act changes or prunes. -/
def changed? : Act α → Option Nat
  | create _ _ | share _ | release _ | keepLast _ => none
  | add k _ | remove k _ | clear k | prune k => some k

end Act

namespace World

variable {w : World α} {x : Act α}

/-- Whether an act takes the last owner from an object. -/
def takesLast (w : World α) (h : Handle) : Act α → Bool
  | .release g => g == h && w.owners h == 1
  | _ => false

/-- The number of objects that a list tracks and that an act takes the last owner from. -/
def deaths (w : World α) (k : Nat) (x : Act α) : Nat := (w.list k).objects.countP (w.takesLast · x)

/-- After a row of acts the number of deaths of objects that a list tracked, counted since the list
was last changed or pruned by an act that was carried out; ahead of the row there were `n`. -/
def toll (k : Nat) (w : World α) (n : Nat) : List (Act α) → Nat
  | [] => n
  | x :: acts =>
    toll k (w.act x).2 (if w.admits x && x.changed? == some k then 0 else n + w.deaths k x) acts

/-- The number of objects that a list tracks and that have no owner. -/
def gone (w : World α) (k : Nat) : Nat := (w.list k).objects.countP (!w.isAlive ·)

/-! ## What an act does to an object -/

theorem isAlive_setOwners (hh : w.isAlive h = true) (n : Nat) (g : Handle) :
    (w.setOwners h n).isAlive g = if g = h then decide (0 < n) else w.isAlive g := by
  rw [isAlive, owners_setOwners hh]
  split <;> rfl

theorem isAlive_setOwners_succ (hh : w.isAlive h = true) (n : Nat) (g : Handle) :
    (w.setOwners h (n + 1)).isAlive g = w.isAlive g := by
  rw [isAlive_setOwners hh]
  split
  · subst g
    rw [hh]
    rfl
  · rfl

theorem takesLast_iff : w.takesLast h x = true ↔ x = .release h ∧ w.owners h = 1 := by
  cases x with
  | release g => simp [takesLast]
  | _ => simp [takesLast]

theorem isAlive_of_takesLast (hx : w.takesLast h x = true) : w.isAlive h = true := by
  rw [isAlive, (takesLast_iff.mp hx).2]
  rfl

/-- What an act can do to a world: nothing, put one more object there, give or take an owner of an
object that is alive, or put another list in the place of the one that it changes. -/
inductive Effect (w : World α) : Act α → World α → Prop
  | idle {x : Act α} : (∀ h, w.takesLast h x = false) → Effect w x w
  | extend {b : Address} {value : α} : Effect w (.create b value) (w.extend b value)
  | gain {x : Act α} {h : Handle} : (∀ g, w.takesLast g x = false) → w.isAlive h = true →
      Effect w x (w.setOwners h (w.owners h + 1))
  | lose {h : Handle} : w.isAlive h = true →
      Effect w (.release h) (w.setOwners h (w.owners h - 1))
  | relist {x : Act α} {k : Nat} {r : Recency} : w.admits x = true → x.changed? = some k →
      Effect w x (w.setList k r)

theorem effect_act (w : World α) (x : Act α) : w.Effect x (w.act x).2 := by
  cases hx : w.admits x with
  | false =>
      rw [act_declined hx]
      refine .idle fun h => Bool.eq_false_iff.mpr fun hlast => ?_
      obtain ⟨rfl, -⟩ := takesLast_iff.mp hlast
      cases (isAlive_of_takesLast hlast).symm.trans hx
  | true =>
    cases x with
    | create b value =>
        have hb : b ∉ w.reserved := by simpa [admits] using hx
        rw [act_create hb]
        exact .extend
    | share g =>
        obtain ⟨c, hc⟩ := isAlive_iff.mp hx
        rw [act_share hc]
        exact .gain (fun _ => rfl) hx
    | release g =>
        obtain ⟨c, hc⟩ := isAlive_iff.mp hx
        rw [act_release hc]
        exact .lose hx
    | add j g =>
        obtain ⟨c, hc⟩ := isAlive_iff.mp hx
        rw [act_add hc]
        exact .relist hx rfl
    | remove j g =>
        obtain ⟨c, hc⟩ := isAlive_iff.mp hx
        rw [act_remove hc]
        exact .relist hx rfl
    | clear j => exact .relist rfl rfl
    | prune j => exact .relist rfl rfl
    | keepLast j =>
        cases hg : w.last? j with
        | none =>
            rw [act_keepLast_none hg]
            exact .idle fun _ => rfl
        | some g =>
            rw [act_keepLast_some hg]
            exact .gain (fun _ => rfl) (isAlive_of_last? hg)

theorem Effect.isAlive {w' : World α} (h : w.Effect x w') (hlt : g < w.cells.length) :
    w'.isAlive g = (w.isAlive g && !w.takesLast g x) := by
  cases h with
  | idle hx => rw [hx, Bool.not_false, Bool.and_true]
  | extend =>
      rw [isAlive_extend_of_lt hlt]
      exact (Bool.and_true _).symm
  | gain hx hh => rw [isAlive_setOwners_succ hh, hx, Bool.not_false, Bool.and_true]
  | relist hx hk =>
      have hother : w.takesLast g x = false := Bool.eq_false_iff.mpr fun hlast => by
        obtain ⟨rfl, -⟩ := takesLast_iff.mp hlast
        cases hk
      rw [hother, Bool.not_false, Bool.and_true]
      rfl
  | @lose h hh =>
      have hpos : 0 < w.owners h := of_decide_eq_true hh
      rw [isAlive_setOwners hh, takesLast]
      rcases eq_or_ne g h with rfl | hgh
      · rw [if_pos rfl, hh, beq_self_eq_true, Bool.true_and, Bool.true_and, Bool.eq_iff_iff,
          decide_eq_true_iff, Bool.not_eq_true', beq_eq_false_iff_ne]
        omega
      · rw [if_neg hgh, beq_eq_false_iff_ne.mpr hgh.symm, Bool.false_and, Bool.not_false,
          Bool.and_true]

/-! ## What an act does to a list -/

theorem Effect.list {w' : World α} (h : w.Effect x w')
    (hx : w.admits x = true → x.changed? ≠ some k) : w'.list k = w.list k := by
  cases h with
  | idle _ => rfl
  | extend => rfl
  | gain _ _ => rfl
  | lose _ => rfl
  | @relist _ j r hadmits hj =>
      have hjk : k ≠ j := fun heq => hx hadmits (heq ▸ hj)
      rw [list_setList, if_neg hjk]

theorem list_act_clear (w : World α) (k : Nat) : (w.act (.clear k)).2.list k = .empty :=
  (list_setList w k _ k).trans (if_pos rfl)

theorem list_act_prune (w : World α) (k : Nat) :
    (w.act (.prune k)).2.list k = (w.list k).compact w.isAlive :=
  (list_setList w k _ k).trans (if_pos rfl)

theorem Settled.alive_of_changed (hw : w.Settled) (hadmits : w.admits x = true)
    (hx : x.changed? = some k) (hh : h ∈ ((w.act x).2.list k).objects) :
    (w.act x).2.isAlive h = true := by
  cases x with
  | add j g =>
      cases hx
      rw [hw.objects_act_add hadmits] at hh
      obtain ⟨c, hc⟩ := isAlive_iff.mp hadmits
      rw [act_add hc]
      rcases List.mem_append.mp hh with hold | hnew
      · exact (List.mem_filter.mp (List.mem_filter.mp hold).1).2
      · exact List.mem_singleton.mp hnew ▸ hadmits
  | remove j g =>
      cases hx
      rw [hw.objects_act_remove hadmits] at hh
      obtain ⟨c, hc⟩ := isAlive_iff.mp hadmits
      rw [act_remove hc]
      exact (List.mem_filter.mp (List.mem_filter.mp hh).1).2
  | clear j =>
      cases hx
      rw [list_act_clear] at hh
      exact absurd hh List.not_mem_nil
  | prune j =>
      cases hx
      rw [list_act_prune, Recency.objects_compact] at hh
      exact (List.mem_filter.mp hh).2
  | _ => cases hx

theorem Settled.objects_nodup (hw : w.Settled) (k : Nat) : (w.list k).objects.Nodup := by
  refine List.Nodup.filterMap ?_ (hw.paired k).nodup
  intro a b h ha hb
  exact Option.some_inj.mp ((hw.housed ha).symm.trans (hw.housed hb))

theorem countP_or_of_disjoint {β : Type} {p q : β → Bool} (hpq : ∀ x, p x = true → q x = false)
    (xs : List β) : xs.countP (fun x => p x || q x) = xs.countP p + xs.countP q := by
  induction xs with
  | nil => rfl
  | cons x xs ih =>
      rw [List.countP_cons, List.countP_cons, List.countP_cons, ih]
      cases hp : p x with
      | false =>
          simp only [Bool.false_or, Bool.false_eq_true, if_false]
          omega
      | true =>
          simp only [Bool.true_or, hpq x hp, Bool.false_eq_true, if_true, if_false]
          omega

/-- An act on a list leaves nothing in it that is gone; of any other act the deaths are added. -/
theorem Settled.gone_act (hw : w.Settled) (x : Act α) (k : Nat) :
    (w.act x).2.gone k =
      if w.admits x && x.changed? == some k then 0 else w.gone k + w.deaths k x := by
  split
  · rename_i hx
    obtain ⟨hadmits, hk⟩ := Bool.and_eq_true_iff.mp hx
    rw [gone, List.countP_eq_zero]
    intro h hh
    simp [hw.alive_of_changed hadmits (beq_iff_eq.mp hk) hh]
  · rename_i hx
    have hlist : (w.act x).2.list k = w.list k := by
      refine (effect_act w x).list fun hadmits hk => hx ?_
      rw [hadmits, hk, beq_self_eq_true]
      rfl
    have hdisjoint : ∀ h, (!w.isAlive h) = true → w.takesLast h x = false := by
      intro h hgone
      rw [Bool.not_eq_true'] at hgone
      exact Bool.eq_false_iff.mpr fun hlast => by
        rw [isAlive_of_takesLast hlast] at hgone
        cases hgone
    rw [gone, hlist, gone, deaths, ← countP_or_of_disjoint hdisjoint]
    refine List.countP_congr fun h hh => ?_
    rw [(effect_act w x).isAlive (hw.known hh), Bool.not_and, Bool.not_not]

theorem Settled.gone_after (hw : w.Settled) (acts : List (Act α)) (k : Nat) :
    (w.after acts).gone k = toll k w (w.gone k) acts := by
  induction acts generalizing w with
  | nil => rfl
  | cons x acts ih =>
      rw [toll, ← hw.gone_act]
      exact ih (hw.act x)

theorem Settled.tracked_eq (hw : w.Settled) (k : Nat) :
    (w.list k).tracked = w.size k + w.gone k :=
  (hw.paired k).tracked_eq w.isAlive

theorem Settled.tracked_of_changed (hw : w.Settled) (hadmits : w.admits x = true)
    (hx : x.changed? = some k) : ((w.act x).2.list k).tracked = (w.act x).2.size k := by
  rw [(hw.act x).tracked_eq, hw.gone_act, hadmits, hx, beq_self_eq_true]
  rfl

theorem reply_prune (hw : w.Settled) (k : Nat) : (w.act (.prune k)).1 = .count (w.gone k) :=
  congrArg Reply.count ((hw.paired k).prune_count w.isAlive)

theorem prune_again (hw : w.Settled) (k : Nat) :
    ((w.act (.prune k)).2.act (.prune k)).1 = .count 0 := by
  rw [reply_prune (hw.act (.prune k)), hw.gone_act]
  simp [admits, Act.changed?]

/-- After any row of acts the order of a list names no address twice, and handles and order name
the same addresses, each that of one tracked object.  The list tracks no fewer objects than it
shows, and the difference is the number of deaths of tracked objects since it was last changed or
pruned.  After an owned object is added, is removed, whether found or not, or the list is pruned,
it tracks what it shows.  Pruning, be it in one pass or by filtering, replies with the number of
tracked objects that have no owner and keeps the others in their order; pruned once more at once,
the list has nothing to clear away.  A cleared list has neither an order nor handles.  What neither
changes nor prunes the list, or is not carried out, leaves it as it is. -/
theorem after_tallied (acts : List (Act α)) (k : Nat) :
    let w := (empty : World α).after acts
    let r := w.list k
    (r.order.Nodup ∧ (∀ a, r.handles.contains a = true ↔ a ∈ r.order) ∧
      r.objects.length = r.tracked ∧ r.objects.Nodup) ∧
    (w.size k ≤ r.tracked ∧ r.tracked - w.size k = toll k empty 0 acts) ∧
    (∀ x, w.admits x = true → x.changed? = some k →
      ((w.act x).2.list k).tracked = (w.act x).2.size k) ∧
    ((w.act (.prune k)).1 = .count (r.objects.countP (!w.isAlive ·)) ∧
      ((w.act (.prune k)).2.list k).objects = r.objects.filter w.isAlive ∧
      ((w.act (.prune k)).2.list k).order =
        r.order.filter (fun a => r.handles[a]?.any w.isAlive) ∧
      ((w.act (.prune k)).2.list k).order = (r.sweep w.isAlive).order ∧
      (∀ a : Address, ((w.act (.prune k)).2.list k).handles[a]? =
        (r.sweep w.isAlive).handles[a]?) ∧
      ((w.act (.prune k)).2.act (.prune k)).1 = .count 0) ∧
    (w.act (.clear k)).2.list k = .empty ∧
    ∀ x, (w.admits x = true → x.changed? ≠ some k) → (w.act x).2.list k = r := by
  intro w r
  have hw : w.Settled := settled_empty.after acts
  have hgone : w.gone k = toll k empty 0 acts := by
    have hnone : (empty : World α).gone k = 0 := by
      simp [gone, list, empty, Recency.empty, Recency.objects]
    rw [← hnone]
    exact settled_empty.gone_after acts k
  have htracked : r.tracked = w.size k + w.gone k := hw.tracked_eq k
  have hsweep := (hw.paired k).sweep w.isAlive
  refine ⟨⟨(hw.paired k).nodup, ?_, (hw.paired k).length_objects, hw.objects_nodup k⟩, ?_, ?_,
    ⟨reply_prune hw k, ?_, ?_, ?_, ?_, prune_again hw k⟩, list_act_clear w k, ?_⟩
  · intro a
    rw [Recency.contains_handles_iff, (hw.paired k).mem_order]
  · omega
  · intro x hadmits hx
    exact hw.tracked_of_changed hadmits hx
  · rw [list_act_prune, Recency.objects_compact]
  · rw [list_act_prune, ← hsweep.1]
    exact Recency.order_sweepFrom _ _
  · rw [list_act_prune]
    exact hsweep.1.symm
  · intro a
    rw [list_act_prune]
    exact (hsweep.2 a).symm
  · intro x hx
    exact (effect_act w x).list hx

/-- Two objects die in list 0, one of them in list 1 as well, from which then a third is removed that
is not in it. -/
def losses : List (Act Char) :=
  [.create 0 'a', .create 1 'b', .create 2 'c', .add 0 0, .add 0 1, .add 1 1, .release 0,
    .release 1, .remove 1 2]

/-- List 0 tracks two objects more than it shows and list 1 none; pruning list 0 tells of both. -/
theorem after_tallied_losses :
    let w := (empty : World Char).after losses
    (w.list 0).tracked - w.size 0 = 2 ∧ (w.list 1).tracked - w.size 1 = 0 ∧
      (w.act (.prune 0)).1 = .count 2 ∧ ((w.act (.prune 0)).2.act (.prune 0)).1 = .count 0 := by
  intro w
  obtain ⟨-, ⟨-, hzero⟩, -, ⟨hprune, -, -, -, -, hagain⟩, -⟩ := after_tallied losses 0
  obtain ⟨-, ⟨-, hone⟩, -⟩ := after_tallied losses 1
  refine ⟨hzero.trans ?_, hone.trans ?_, hprune.trans ?_, hagain⟩
  · decide +kernel
  · decide +kernel
  · exact congrArg Reply.count (by decide +kernel)

end World

end Lineup
