/-
  File:      Wirebone/Lib/CHeap.lean
  Subject:   malloc AND free, AND WHO OWNS WHICH BLOCK.

  A heap gives every address its block. The allocator may return any address that holds no block, an old
  one too, or fail; `free` of an address without a block is undefined.

  * `malloc`, `free`, `freeAll` -- the operations, `none` where the behaviour is undefined or not one of the
    allocator;
  * `Owns h ps` -- the blocks of `h` are at `ps`, and no address is twice in `ps`;
  * `owns_malloc`, `owns_free`, **`owns_freeAll`** -- the operations on what is owned: the pointers freed are
    no longer owned, and all the other blocks stay as they are.
-/
import Mathlib.Data.List.Basic

namespace CHeap

variable {V : Type*}

/-- The blocks by address. -/
abbrev Heap (V : Type*) := Nat → Option V

def put (h : Heap V) (p : Nat) (v : Option V) : Heap V := fun q => if q = p then v else h q

/-- A new block; `at?` is the answer of the allocator, `none` where it fails. -/
def malloc (h : Heap V) (at? : Option Nat) (v : V) : Option (Option Nat × Heap V) :=
  match at? with
  | none => some (none, h)
  | some p => if (h p).isSome then none else some (some p, put h p (some v))

/-- `free`, also of a null pointer. -/
def free (h : Heap V) : Option Nat → Option (Heap V)
  | none => some h
  | some p => if (h p).isSome then some (put h p none) else none

def freeAll (h : Heap V) : List (Option Nat) → Option (Heap V)
  | [] => some h
  | q :: qs => (free h q).bind fun h => freeAll h qs

/-- **The blocks are these, and each is there once.** -/
structure Owns (h : Heap V) (ps : List Nat) : Prop where
  nodup : ps.Nodup
  live : ∀ p, (h p).isSome = true ↔ p ∈ ps

section Ownership

variable {h h' : Heap V} {ps qs : List Nat} {p : Nat} {v : V}

@[simp] theorem put_self (h : Heap V) (p : Nat) (v : Option V) : put h p v p = v := if_pos rfl

theorem put_other {q : Nat} {v : Option V} (hne : q ≠ p) : put h p v q = h q := if_neg hne

theorem owns_empty : Owns (fun _ => none : Heap V) [] :=
  ⟨List.nodup_nil, fun _ => by simp⟩

theorem Owns.perm (ho : Owns h ps) (hp : ps.Perm qs) : Owns h qs :=
  ⟨hp.nodup_iff.mp ho.nodup, fun p => (ho.live p).trans hp.mem_iff⟩

theorem Owns.dead (ho : Owns h ps) (hp : p ∉ ps) : h p = none := by
  cases hv : h p with
  | none => rfl
  | some v => exact absurd ((ho.live p).mp (by rw [hv]; rfl)) hp

/-- What the allocator can return. -/
theorem malloc_cases {at? : Option Nat} {r : Option Nat × Heap V} (hm : malloc h at? v = some r) :
    r = (none, h) ∨ ∃ p, h p = none ∧ r = (some p, put h p (some v)) := by
  unfold malloc at hm
  cases at? with
  | none => exact .inl (Option.some.inj hm).symm
  | some p =>
    simp only at hm
    split at hm
    · cases hm
    · rename_i hdead
      refine .inr ⟨p, ?_, (Option.some.inj hm).symm⟩
      cases hv : h p with
      | none => rfl
      | some w => exact absurd (by rw [hv]; rfl) hdead

/-- A new block is owned too. -/
theorem owns_malloc (ho : Owns h ps) (hdead : h p = none) : Owns (put h p (some v)) (p :: ps) := by
  have hnew : p ∉ ps := by
    intro hp
    have hlive := (ho.live p).mpr hp
    rw [hdead] at hlive
    cases hlive
  refine ⟨List.nodup_cons.mpr ⟨hnew, ho.nodup⟩, fun q => ?_⟩
  by_cases hq : q = p
  · subst hq
    simp
  · rw [put_other hq, ho.live q, List.mem_cons]
    simp [hq]

/-- A block may be written. -/
theorem owns_write (ho : Owns h ps) (hp : p ∈ ps) : Owns (put h p (some v)) ps := by
  refine ⟨ho.nodup, fun q => ?_⟩
  by_cases hq : q = p
  · subst hq
    simp [hp]
  · rw [put_other hq]
    exact ho.live q

/-- **What is owned can be freed.** -/
theorem owns_free (ho : Owns h (p :: ps)) :
    ∃ h', free h (some p) = some h' ∧ Owns h' ps ∧ ∀ q ∈ ps, h' q = h q := by
  obtain ⟨hnew, hnodup⟩ := List.nodup_cons.mp ho.nodup
  have hlive : (h p).isSome = true := (ho.live p).mpr List.mem_cons_self
  refine ⟨put h p none, by simp only [free, hlive, if_true], ⟨hnodup, ?_⟩, ?_⟩
  · intro q
    by_cases hq : q = p
    · subst hq
      simp [hnew]
    · rw [put_other hq, ho.live q, List.mem_cons]
      simp [hq]
  · intro q hq
    have hne : q ≠ p := fun he => hnew (he ▸ hq)
    exact put_other hne

/-- **Any of it, one after another.** -/
theorem owns_freeAll {rs : List (Option Nat)} (ho : Owns h (rs.filterMap id ++ ps)) :
    ∃ h', freeAll h rs = some h' ∧ Owns h' ps ∧ ∀ q ∈ ps, h' q = h q := by
  induction rs generalizing h with
  | nil => exact ⟨h, rfl, ho, fun _ _ => rfl⟩
  | cons r rs ih =>
    cases r with
    | none => exact ih ho
    | some p =>
      obtain ⟨h₁, hfree, ho₁, hkeep₁⟩ := owns_free ho
      obtain ⟨h₂, hall, ho₂, hkeep₂⟩ := ih ho₁
      refine ⟨h₂, by rw [freeAll, hfree, Option.bind_some, hall], ho₂, ?_⟩
      intro q hq
      rw [hkeep₂ q hq, hkeep₁ q (List.mem_append_right _ hq)]

end Ownership

end CHeap
