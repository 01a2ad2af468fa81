/-
  File:      Wirebone/Lib/Delimited.lean
  Subject:   ITEMS THAT TELL THEIR OWN END, ONE AFTER ANOTHER.

  A format is a set of strings; a skipper takes one string of the format off the front of a stream
  and returns the rest. Where the skipper follows the format exactly, so does its repetition.

  * `Skips P skip` -- `skip` takes off a string of `P`, wherever there is one, and nothing else;
  * `skipMany` -- so many items;
  * **`skipMany_iff`** -- so many items are taken off exactly where the stream starts with them;
  * `Takes ok write next` -- `next` takes off an item as `write` has written it, and waits for the rest of
    one; `takeMany` -- item after item;
  * **`takeMany_items`**, **`takeMany_part`** -- it finds the items of a stream, and of the front of a
    stream the first of them.
-/
import Mathlib.Data.List.Basic

namespace Delimited

variable {β : Type*}

/-- **The skipper follows the format.** -/
def Skips (P : List β → Prop) (skip : List β → Option (List β)) : Prop :=
  ∀ b rest, skip b = some rest ↔ ∃ x, P x ∧ b = x ++ rest

/-- So many items off the front. -/
def skipMany (skip : List β → Option (List β)) : Nat → List β → Option (List β)
  | 0, b => some b
  | n + 1, b => (skip b).bind (skipMany skip n)

section Many

variable {P : List β → Prop} {skip : List β → Option (List β)} {b rest : List β} {n : Nat}

theorem skipMany_none (h : skip b = none) : skipMany skip (n + 1) b = none := by
  rw [skipMany, h]
  rfl

theorem skipMany_some (h : skip b = some rest) : skipMany skip (n + 1) b = skipMany skip n rest := by
  rw [skipMany, h]
  rfl

theorem skipMany_one : skipMany skip 1 b = skip b := by
  show (skip b).bind some = skip b
  exact Option.bind_fun_some (skip b)

/-- **The repetition follows the repeated format.** -/
theorem skipMany_iff (h : Skips P skip) :
    skipMany skip n b = some rest ↔
      ∃ xs : List (List β), xs.length = n ∧ (∀ x ∈ xs, P x) ∧ b = xs.flatten ++ rest := by
  induction n generalizing b with
  | zero =>
    constructor
    · intro hs
      cases hs
      exact ⟨[], rfl, by simp, rfl⟩
    · intro hs
      obtain ⟨xs, hlen, _, rfl⟩ := hs
      rw [List.length_eq_zero_iff.mp hlen]
      rfl
  | succ n ih =>
    constructor
    · intro hs
      obtain ⟨mid, hmid, hmany⟩ := Option.bind_eq_some_iff.mp hs
      obtain ⟨x, hx, rfl⟩ := (h b mid).mp hmid
      obtain ⟨xs, hlen, hxs, rfl⟩ := ih.mp hmany
      refine ⟨x :: xs, by rw [List.length_cons, hlen], ?_, by rw [List.flatten_cons, List.append_assoc]⟩
      intro y hy
      rcases List.mem_cons.mp hy with rfl | hy
      · exact hx
      · exact hxs y hy
    · intro hs
      obtain ⟨xs, hlen, hxs, rfl⟩ := hs
      cases xs with
      | nil => cases hlen
      | cons x xs =>
        have hx : skip ((x :: xs).flatten ++ rest) = some (xs.flatten ++ rest) :=
          (h _ _).mpr ⟨x, hxs x List.mem_cons_self, by rw [List.flatten_cons, List.append_assoc]⟩
        rw [skipMany_some hx]
        exact ih.mpr ⟨xs, by simpa using hlen, fun y hy => hxs y (List.mem_cons_of_mem _ hy), rfl⟩

end Many

/-! ## Items that carry something -/

variable {α : Type*}

/-- **The reader takes the items that the writer writes**, whole and not before they are whole. -/
structure Takes (ok : α → Prop) (write : α → List β) (next : List β → Option (α × List β)) : Prop where
  whole : ∀ a rest, ok a → next (write a ++ rest) = some (a, rest)
  part : ∀ a b, ok a → b <+: write a → b ≠ write a → next b = none
  nonempty : ∀ a, ok a → write a ≠ []
  empty : next [] = none

/-- The items at the front of a stream; the first argument bounds them. -/
def takeMany (next : List β → Option (α × List β)) : Nat → List β → List α
  | 0, _ => []
  | fuel + 1, b =>
    match next b with
    | none => []
    | some (a, rest) => a :: takeMany next fuel rest

section Items

variable {ok : α → Prop} {write : α → List β} {next : List β → Option (α × List β)} {as : List α}
  {b : List β}

theorem takeMany_empty (h : Takes ok write next) (fuel : Nat) : takeMany next fuel [] = [] := by
  cases fuel with
  | zero => rfl
  | succ fuel => rw [takeMany, h.empty]

/-- A stream has no more items than octets. -/
theorem Takes.length_le (h : Takes ok write next) (hok : ∀ a ∈ as, ok a) :
    as.length ≤ ((as.map write).flatten).length := by
  induction as with
  | nil => exact Nat.le_refl 0
  | cons a as ih =>
    have hpos := List.length_pos_of_ne_nil (h.nonempty a (hok a List.mem_cons_self))
    have hrest := ih fun a' ha' => hok a' (List.mem_cons_of_mem _ ha')
    rw [List.map_cons, List.flatten_cons, List.length_append, List.length_cons]
    omega

/-- **The reader finds the items of a stream.** -/
theorem takeMany_items (h : Takes ok write next) (hok : ∀ a ∈ as, ok a) {fuel : Nat}
    (hfuel : as.length ≤ fuel) : takeMany next fuel (as.map write).flatten = as := by
  induction as generalizing fuel with
  | nil => exact takeMany_empty h fuel
  | cons a as ih =>
    cases fuel with
    | zero => cases hfuel
    | succ fuel =>
      rw [List.map_cons, List.flatten_cons, takeMany, h.whole a _ (hok a List.mem_cons_self)]
      show a :: takeMany next fuel _ = _
      rw [ih (fun a' ha' => hok a' (List.mem_cons_of_mem _ ha')) (by simpa using hfuel)]

/-- **At the front of a stream it finds the first of them.** -/
theorem takeMany_part (h : Takes ok write next) (hok : ∀ a ∈ as, ok a) (fuel : Nat)
    (hpart : b <+: (as.map write).flatten) : takeMany next fuel b <+: as := by
  induction as generalizing b fuel with
  | nil =>
    rw [List.map_nil, List.flatten_nil, List.prefix_nil] at hpart
    subst hpart
    exact (takeMany_empty h fuel).symm ▸ List.prefix_rfl
  | cons a as ih =>
    have ha := hok a List.mem_cons_self
    cases fuel with
    | zero => exact List.nil_prefix
    | succ fuel =>
      rw [List.map_cons, List.flatten_cons] at hpart
      by_cases hlen : (write a).length ≤ b.length
      · -- the first item is complete
        obtain ⟨b', rfl⟩ : write a <+: b :=
          List.prefix_of_prefix_length_le (List.prefix_append _ _) hpart hlen
        rw [takeMany, h.whole a _ ha]
        exact List.cons_prefix_cons.mpr ⟨rfl, ih (fun a' ha' => hok a' (List.mem_cons_of_mem _ ha')) fuel
          ((List.prefix_append_right_inj _).mp hpart)⟩
      · have hin : b <+: write a :=
          List.prefix_of_prefix_length_le hpart (List.prefix_append _ _) (by omega)
        rw [takeMany, h.part a b ha hin (by rintro rfl; omega)]
        exact List.nil_prefix

end Items

end Delimited
