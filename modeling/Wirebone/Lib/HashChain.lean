/-
  File:      Wirebone/Lib/HashChain.lean
  Subject:   HASH CHAINS BIND THEIR TRANSCRIPT.

  A hash chain absorbs data blocks one after another: `h := H (h ++ d)`. It is the transcript
  hash of every Noise-like protocol.

  * `absorb H h ds` -- the value after absorbing `ds` from `h`;
  * `absorbed H h ds` -- the inputs handed to `H` on the way: the values among which a collision
    would matter;
  * **`absorb_inj`** -- two chains of the same length that end in one value absorbed the same
    blocks from the same start, unless `H` collides on two inputs of THESE two chains. (A hash
    with a finite range has collisions; the hypothesis is about the inputs that occur.)
-/
import Mathlib.Data.List.Basic

namespace HashChain

variable {β : Type*} (H : List β → List β)

/-- The chain value after absorbing the blocks `ds` from `h`. -/
def absorb (h : List β) (ds : List (List β)) : List β := ds.foldl (fun h d => H (h ++ d)) h

/-- The inputs `H` is called on while absorbing `ds` from `h`. -/
def absorbed : List β → List (List β) → List (List β)
  | _, [] => []
  | h, d :: ds => (h ++ d) :: absorbed (H (h ++ d)) ds

@[simp] theorem absorb_nil (h : List β) : absorb H h [] = h := rfl

@[simp] theorem absorb_cons (h d : List β) (ds : List (List β)) :
    absorb H h (d :: ds) = absorb H (H (h ++ d)) ds := rfl

@[simp] theorem absorbed_nil (h : List β) : absorbed H h [] = [] := rfl

@[simp] theorem absorbed_cons (h d : List β) (ds : List (List β)) :
    absorbed H h (d :: ds) = (h ++ d) :: absorbed H (H (h ++ d)) ds := rfl

/-- `H` does not collide between two lists of inputs. -/
def NoCollision (xs ys : List (List β)) : Prop := ∀ x ∈ xs, ∀ y ∈ ys, H x = H y → x = y

theorem NoCollision.mono {xs xs' ys ys' : List (List β)} (h : NoCollision H xs ys)
    (hx : xs' ⊆ xs) (hy : ys' ⊆ ys) : NoCollision H xs' ys' :=
  fun x hx' y hy' => h x (hx hx') y (hy hy')

/-- **A chain binds its transcript.** -/
theorem absorb_inj {n : Nat} (hlen : ∀ x, (H x).length = n) {ds ds' : List (List β)}
    {h h' : List β} (hh : h.length = n) (hh' : h'.length = n)
    (hcf : NoCollision H (absorbed H h ds) (absorbed H h' ds')) (hl : ds.length = ds'.length)
    (he : absorb H h ds = absorb H h' ds') : h = h' ∧ ds = ds' := by
  induction ds generalizing ds' h h' with
  | nil =>
    obtain rfl : ds' = [] := List.length_eq_zero_iff.mp hl.symm
    exact ⟨he, rfl⟩
  | cons d ds ih =>
    cases ds' with
    | nil => cases hl
    | cons d' ds' =>
      -- the tails first: they give the equality of the first two hash values
      have hcf' : NoCollision H (absorbed H (H (h ++ d)) ds) (absorbed H (H (h' ++ d')) ds') :=
        hcf.mono H (List.subset_cons_self _ _) (List.subset_cons_self _ _)
      obtain ⟨hH, rfl⟩ := ih (hlen _) (hlen _) hcf' (Nat.succ.inj hl) he
      have hin := hcf _ List.mem_cons_self _ List.mem_cons_self hH
      obtain ⟨rfl, rfl⟩ := List.append_inj hin (hh.trans hh'.symm)
      exact ⟨rfl, rfl⟩

end HashChain
