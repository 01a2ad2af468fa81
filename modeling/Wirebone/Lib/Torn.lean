/-
  File:      Wirebone/Lib/Torn.lean
  Subject:   SEQUENCES THAT ARE CUT SHORT.

  A writer that fails in the middle of an item, and stops, leaves items that are complete and at most
  one that is not, at the end. `P i x` says that `x` is complete and the one of place `i`, `Q x`
  that it is cut.

  * `Splits` -- the complete items and the one that is cut;
  * `CutShort` -- there is such a split; `CutShort.front`: what was written before is one too;
  * `CutShort.before`, `CutShort.at_or` -- an item with another behind it is complete and in its place; any
    item is so or cut.
-/
import Mathlib.Data.List.Basic

namespace Torn

variable {α : Type*} {P : Nat → α → Prop} {Q : α → Prop} {l m whole cut : List α} {x y : α}

/-- The items in order, and at most one that is cut. -/
structure Splits (P : Nat → α → Prop) (Q : α → Prop) (l whole cut : List α) : Prop where
  items : l = whole ++ cut
  few : cut.length ≤ 1
  inOrder : ∀ i x, whole[i]? = some x → P i x
  torn : ∀ x ∈ cut, Q x

def CutShort (P : Nat → α → Prop) (Q : α → Prop) (l : List α) : Prop := ∃ whole cut, Splits P Q l whole cut

/-- **What was there before is such a sequence too.** -/
theorem CutShort.front (h : CutShort P Q (l ++ m)) : CutShort P Q l := by
  obtain ⟨whole, cut, h⟩ := h
  rcases List.append_eq_append_iff.mp h.items with ⟨rest, hwhole, _⟩ | ⟨rest, hl, hcut⟩
  · have hnone : ∀ x ∈ ([] : List α), Q x := fun x hx => absurd hx List.not_mem_nil
    refine ⟨l, [], (List.append_nil l).symm, Nat.zero_le 1, fun i x hx => h.inOrder i x ?_, hnone⟩
    rw [hwhole, List.getElem?_append_left (List.getElem?_eq_some_iff.mp hx).1]
    exact hx
  · have hfew := h.few
    rw [hcut, List.length_append] at hfew
    refine ⟨whole, rest, hl, by omega, h.inOrder, fun x hx => h.torn x ?_⟩
    rw [hcut]
    exact List.mem_append_left _ hx

/-- Any item is in its place or cut. -/
theorem CutShort.at_or (h : CutShort P Q (l ++ x :: m)) : P l.length x ∨ Q x := by
  obtain ⟨whole, cut, h⟩ := h
  have hx : (whole ++ cut)[l.length]? = some x := by
    rw [← h.items, List.getElem?_append_right (Nat.le_refl _), Nat.sub_self, List.getElem?_cons_zero]
  rcases Nat.lt_or_ge l.length whole.length with hlt | hge
  · rw [List.getElem?_append_left hlt] at hx
    exact .inl (h.inOrder _ _ hx)
  · rw [List.getElem?_append_right hge] at hx
    exact .inr (h.torn x (List.mem_of_getElem? hx))

/-- **An item with another behind it is complete and in its place.** -/
theorem CutShort.before (h : CutShort P Q (l ++ x :: y :: m)) : P l.length x := by
  obtain ⟨whole, cut, h⟩ := h
  have hlt : l.length < whole.length := by
    have hlen := congrArg List.length h.items
    have hfew := h.few
    simp only [List.length_append, List.length_cons] at hlen
    omega
  have hx : (whole ++ cut)[l.length]? = some x := by
    rw [← h.items, List.getElem?_append_right (Nat.le_refl _), Nat.sub_self, List.getElem?_cons_zero]
  rw [List.getElem?_append_left hlt] at hx
  exact h.inOrder _ _ hx

end Torn
