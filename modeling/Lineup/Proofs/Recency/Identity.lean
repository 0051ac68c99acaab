/-
# Addresses stand for objects

A list knows an object by its address, and addresses are given out again.  A list is never confused
by that.  While an address stands in a list, its object is held on to by the list itself, whether it
is alive or not and whether the list was cleared of the dead or not; so no other object can be put
there, and the address stands for the object that was added under it (`Settled.keeps`).  The address
leaves the order and the handles in one step, and from then on it stands for nothing.

So an operation that is given an owned object acts on this object or on none.  An object that was
put where a dead one was before is not found in a list unless it was itself added there, and adding
it puts the object itself at the end (`after_unconfused`).
-/
import Lineup.Proofs.Recency.Follows

namespace Lineup.World

variable {α : Type} {w : World α} {a : Address} {g h : Handle} {k : Nat}

/-- What a list has under an address is the one object that holds on to the address. -/
structure Keeps (w : World α) (k : Nat) (a : Address) (h : Handle) : Prop where
  handle : (w.list k).handles[a]? = some h
  reserved : w.isReserved h = true
  address : w.address? h = some a
  only : ∀ g, w.isReserved g = true → w.address? g = some a → g = h

/-! ## An address that a list knows -/

theorem Settled.keeps_of_handle (hw : w.Settled) (hh : (w.list k).handles[a]? = some h) :
    w.Keeps k a h := by
  obtain ⟨hreserved, haddress⟩ := hw.held hh
  refine ⟨hh, hreserved, haddress, ?_⟩
  intro g hg hga
  exact hw.apart hg hreserved hga haddress

/-- Order and handles know the same addresses, each as that of one object. -/
theorem Settled.keeps (hw : w.Settled)
    (ha : a ∈ (w.list k).order ∨ (w.list k).handles.contains a = true) : ∃ h, w.Keeps k a h := by
  have htracked : ∃ h, (w.list k).handles[a]? = some h := by
    rcases ha with ha | ha
    · exact (hw.paired k).mem_order.mp ha
    · exact Recency.contains_handles_iff.mp ha
  obtain ⟨h, hh⟩ := htracked
  exact ⟨h, hw.keeps_of_handle hh⟩

theorem Settled.same_iff (hw : w.Settled) (hg : w.isAlive g = true) (hh : w.isAlive h = true) :
    w.same g h = true ↔ g = h := by
  obtain ⟨c, hc⟩ := isAlive_iff.mp hg
  obtain ⟨d, hd⟩ := isAlive_iff.mp hh
  rw [same, hc, hd, beq_iff_eq]
  constructor
  · intro hcd
    exact hw.apart (isReserved_of_alive hg) (isReserved_of_alive hh) (address?_of_owned hc)
      (hcd ▸ address?_of_owned hd)
  · rintro rfl
    rw [hc, Option.some_inj] at hd
    rw [hd]

/-! ## What a list tracks was added to it -/

theorem Settled.tracked_act (hw : w.Settled) {x : Act α}
    (hh : ((w.act x).2.list k).handles[a]? = some h) :
    (w.list k).handles[a]? = some h ∨ x = .add k h ∧ w.admits x = true := by
  cases hx : w.admits x with
  | false =>
      rw [act_declined hx] at hh
      exact .inl hh
  | true =>
    cases x with
    | create b value =>
        have hb : b ∉ w.reserved := by simpa [admits] using hx
        rw [act_create hb] at hh
        exact .inl hh
    | share g =>
        obtain ⟨c, hc⟩ := isAlive_iff.mp hx
        rw [act_share hc] at hh
        exact .inl hh
    | release g =>
        obtain ⟨c, hc⟩ := isAlive_iff.mp hx
        rw [act_release hc] at hh
        exact .inl hh
    | add j g =>
        obtain ⟨c, hc⟩ := isAlive_iff.mp hx
        rw [act_add hc, list_setList] at hh
        split at hh
        · subst j
          have hlocates : (w.list k).Locates w.isAlive c.address g := hw.locates hc k
          rcases hlocates.of_handles_add hh with hold | ⟨-, rfl⟩
          · exact .inl hold
          · exact .inr ⟨rfl, rfl⟩
        · exact .inl hh
    | remove j g =>
        obtain ⟨c, hc⟩ := isAlive_iff.mp hx
        rw [act_remove hc, list_setList] at hh
        split at hh
        · subst j
          exact .inl (Recency.of_handles_remove hh)
        · exact .inl hh
    | clear j =>
        change ((w.setList j .empty).list k).handles[a]? = some h at hh
        rw [list_setList] at hh
        split at hh
        · simp [Recency.empty] at hh
        · exact .inl hh
    | prune j =>
        change ((w.setList j ((w.list j).compact w.isAlive)).list k).handles[a]? = some h at hh
        rw [list_setList] at hh
        split at hh
        · subst j
          exact .inl (Recency.of_handles_compact hh)
        · exact .inl hh
    | keepLast j =>
        cases hg : w.last? j with
        | none =>
            rw [act_keepLast_none hg] at hh
            exact .inl hh
        | some g =>
            rw [act_keepLast_some hg] at hh
            exact .inl hh

theorem Settled.tracked_after (hw : w.Settled) {acts : List (Act α)}
    (hh : ((w.after acts).list k).handles[a]? = some h) :
    (w.list k).handles[a]? = some h ∨ .add k h ∈ w.granted acts := by
  induction acts generalizing w with
  | nil => exact .inl hh
  | cons x acts ih =>
      have hkept : ∀ {y}, y ∈ (w.act x).2.granted acts → y ∈ w.granted (x :: acts) := by
        intro y hy
        rw [granted]
        split
        · exact List.mem_cons_of_mem _ hy
        · exact hy
      rcases ih (hw.act x) hh with hnow | hlater
      · rcases hw.tracked_act hnow with hold | ⟨rfl, hx⟩
        · exact .inl hold
        · rw [granted, if_pos hx]
          exact .inr List.mem_cons_self
      · exact .inr (hkept hlater)

theorem added_of_tracked {acts : List (Act α)}
    (hh : (((empty : World α).after acts).list k).handles[a]? = some h) :
    .add k h ∈ (empty : World α).granted acts := by
  rcases settled_empty.tracked_after hh with hnone | hadded
  · simp [list, empty, Recency.empty] at hnone
  · exact hadded

/-! ## Acting on an owned object -/

theorem mem_live_iff (hh : w.isAlive h = true) : h ∈ w.live k ↔ h ∈ (w.list k).objects := by
  rw [live_eq, List.mem_filter]
  exact and_iff_left hh

theorem Settled.objects_act_remove (hw : w.Settled) (hh : w.isAlive h = true) (k : Nat) :
    ((w.act (.remove k h)).2.list k).objects =
      ((w.list k).objects.filter w.isAlive).filter (· != h) := by
  obtain ⟨c, hc⟩ := isAlive_iff.mp hh
  rw [act_remove hc, list_setList, if_pos rfl]
  exact (hw.paired k).objects_remove (hw.locates hc k)

theorem Settled.objects_act_add (hw : w.Settled) (hh : w.isAlive h = true) (k : Nat) :
    ((w.act (.add k h)).2.list k).objects =
      ((w.list k).objects.filter w.isAlive).filter (· != h) ++ [h] := by
  obtain ⟨c, hc⟩ := isAlive_iff.mp hh
  rw [act_add hc, list_setList, if_pos rfl]
  exact (hw.paired k).objects_add (hw.locates hc k)

/-- After any row of acts every address that a list knows, in its order or beside a handle, is that
of the one object that holds on to it: the handle there is that of this object, and the object was
added to the list.  Two owned objects live at one address only if they are the same.  Whatever a
list is asked about an owned object, or told to do with it, is about the object's own entry: the
object is contained, shown and found for removal exactly if it is among the objects of the list,
where it can only be if it was added; removing it takes away no other living object, and adding it
puts the object itself at the end. -/
theorem after_unconfused (acts : List (Act α)) :
    let w := (empty : World α).after acts
    (∀ k a, (a ∈ (w.list k).order ∨ (w.list k).handles.contains a = true) →
      ∃ h, w.Keeps k a h ∧ .add k h ∈ (empty : World α).granted acts) ∧
    (∀ g h, w.isAlive g = true → w.isAlive h = true → (w.same g h = true ↔ g = h)) ∧
    (∀ k h, h ∈ (w.list k).objects → .add k h ∈ (empty : World α).granted acts) ∧
    ∀ k h, w.isAlive h = true →
      (w.contains k h = true ↔ h ∈ (w.list k).objects) ∧
      (h ∈ w.live k ↔ h ∈ (w.list k).objects) ∧
      (w.act (.remove k h)).1 = .truth (decide (h ∈ (w.list k).objects)) ∧
      ((w.act (.remove k h)).2.list k).objects =
        ((w.list k).objects.filter w.isAlive).filter (· != h) ∧
      ((w.act (.add k h)).2.list k).objects =
        ((w.list k).objects.filter w.isAlive).filter (· != h) ++ [h] := by
  intro w
  have hw : w.Settled := settled_empty.after acts
  refine ⟨?_, ?_, ?_, ?_⟩
  · intro k a ha
    obtain ⟨h, hkeeps⟩ := hw.keeps ha
    exact ⟨h, hkeeps, added_of_tracked hkeeps.handle⟩
  · intro g h hg hh
    exact hw.same_iff hg hh
  · intro k h hh
    obtain ⟨a, -, ha⟩ := List.mem_filterMap.mp hh
    exact added_of_tracked ha
  · intro k h hh
    refine ⟨?_, mem_live_iff hh, ?_, hw.objects_act_remove hh k, hw.objects_act_add hh k⟩
    · rw [contains_eq hw, decide_eq_true_iff, mem_live_iff hh]
    · simp only [reply_remove hw hh, mem_live_iff hh]

/-- Object 0 dies at address 7 while two lists track it.  Neither pruning one list nor waiting frees
the address; once the other list is cleared, object 1 is put there and added to that list. -/
def handover : List (Act Char) :=
  [.create 7 'a', .add 0 0, .add 1 0, .release 0, .create 7 'b', .prune 0, .create 7 'b',
    .clear 1, .create 7 'b', .add 1 1]

/-- Both objects lived at address 7, but list 1 knows object 1 there and list 0, which was never
given object 1, does not find it. -/
theorem after_unconfused_handover :
    ((empty : World Char).after handover).address? 0 = some 7 ∧
      7 ∈ (((empty : World Char).after handover).list 1).order ∧
      ((empty : World Char).after handover).Keeps 1 7 1 ∧
      ((empty : World Char).after handover).isAlive 1 = true ∧
      .add 0 1 ∉ (empty : World Char).granted handover ∧
      ((empty : World Char).after handover).contains 0 1 = false ∧
      (((empty : World Char).after handover).act (.remove 0 1)).1 = .truth false ∧
      ((empty : World Char).after handover).contains 1 1 = true := by
  obtain ⟨hkeeps, -, hadded, howned⟩ := after_unconfused handover
  have halive : ((empty : World Char).after handover).isAlive 1 = true := by decide +kernel
  have horder : 7 ∈ (((empty : World Char).after handover).list 1).order := by decide +kernel
  have hnever : .add 0 1 ∉ (empty : World Char).granted handover := by decide +kernel
  obtain ⟨h, hh, -⟩ := hkeeps 1 7 (.inl horder)
  obtain rfl : 1 = h := hh.only 1 (isReserved_of_alive halive) (by decide +kernel)
  have hmiss : 1 ∉ (((empty : World Char).after handover).list 0).objects :=
    fun hmem => hnever (hadded 0 1 hmem)
  obtain ⟨hcontains, -, hremove, -⟩ := howned 0 1 halive
  refine ⟨by decide +kernel, horder, hh, halive, hnever, ?_, ?_, by decide +kernel⟩
  · rw [← Bool.not_eq_true, hcontains]
    exact hmiss
  · rw [hremove, decide_eq_false hmiss]

end Lineup.World
