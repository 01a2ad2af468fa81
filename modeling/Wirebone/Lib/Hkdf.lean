/-
  File:      Wirebone/Lib/Hkdf.lean
  Subject:   HMAC AND HKDF OVER ANY HASH.

  The two standard constructions, over a hash `H` with a block of `B` bytes, as they are written in
  their definitions:

  * `hmac` -- the key, hashed where it is longer than a block, zeros up to the block, and the two
    nested hashes under the two pads; `hmac_zeros`: zeros behind a key make no difference;
  * `extract`, `expand` -- the pseudorandom key from salt and input, and the blocks
    `T(i) = HMAC(PRK, T(i-1) | info | i)`, cut to the length that is asked for;
  * `blocks_take` -- more blocks than are asked for make no difference; `expand_mono`: a shorter
    output is the beginning of a longer one.
-/
import Wirebone.Lib.ByteString

namespace Hkdf

open ByteString

variable (H : Bytes → Bytes) (B : Nat)

/-! ## 1. HMAC -/

/-- The key as a block: hashed if it is longer than one, then zeros up to its end. -/
def keyBlock (key : Bytes) : Bytes :=
  let k := if B < key.length then H key else key
  k ++ List.replicate (B - k.length) 0

def ipad : Bytes := List.replicate B 0x36

def opad : Bytes := List.replicate B 0x5c

/-- `H(K xor opad | H(K xor ipad | text))`. -/
def hmac (key text : Bytes) : Bytes :=
  H (List.zipWith (· ^^^ ·) (keyBlock H B key) (opad B) ++
    H (List.zipWith (· ^^^ ·) (keyBlock H B key) (ipad B) ++ text))

/-- Zeros behind a key, up to a block, make no difference. -/
theorem hmac_zeros (key : Bytes) (n : Nat) (h : key.length + n ≤ B) (text : Bytes) :
    hmac H B (key ++ List.replicate n 0) text = hmac H B key text := by
  have hblock : keyBlock H B (key ++ List.replicate n 0) = keyBlock H B key := by
    have hlen : (key ++ List.replicate n (0 : UInt8)).length = key.length + n := by simp
    unfold keyBlock
    rw [if_neg (by omega), if_neg (by omega)]
    show key ++ List.replicate n 0 ++ List.replicate (B - (key ++ List.replicate n (0 : UInt8)).length) 0 =
      key ++ List.replicate (B - key.length) 0
    rw [hlen, List.append_assoc, List.replicate_append_replicate,
      show n + (B - (key.length + n)) = B - key.length by omega]
  rw [hmac, hmac, hblock]

/-! ## 2. HKDF -/

variable (hashLen : Nat)

/-- The pseudorandom key. A salt that is not given is `hashLen` zeros. -/
def extract (salt ikm : Bytes) : Bytes :=
  hmac H B (if salt = [] then List.replicate hashLen 0 else salt) ikm

/-- `T(i)`. -/
def T (prk info : Bytes) : Nat → Bytes
  | 0 => []
  | i + 1 => hmac H B prk (T prk info i ++ info ++ [UInt8.ofNat (i + 1)])

/-- `T(i+1) | ... | T(i+n)`. -/
def blocks (prk info : Bytes) (i n : Nat) : Bytes :=
  (List.range' i n).flatMap fun j => T H B prk info (j + 1)

/-- `L` bytes of output: the first of `T(1) | T(2) | ... | T(N)`, `N` the least number of blocks
    that has them. -/
def expand (prk info : Bytes) (L : Nat) : Bytes :=
  (blocks H B prk info 0 ((L + hashLen - 1) / hashLen)).take L

section Blocks

variable {H B hashLen} {prk info : Bytes} {i n L L' : Nat}

theorem blocks_succ :
    blocks H B prk info i (n + 1) = T H B prk info (i + 1) ++ blocks H B prk info (i + 1) n := by
  rw [blocks, List.range'_succ, List.flatMap_cons]
  rfl

theorem T_length (hH : ∀ x, (H x).length = hashLen) : (T H B prk info (i + 1)).length = hashLen := hH _

theorem blocks_length (hH : ∀ x, (H x).length = hashLen) :
    (blocks H B prk info i n).length = n * hashLen := by
  induction n generalizing i with
  | zero => rw [blocks, List.range'_zero, List.flatMap_nil, List.length_nil, Nat.zero_mul]
  | succ n ih => rw [blocks_succ, List.length_append, T_length hH, ih, Nat.succ_mul, Nat.add_comm]

theorem blocks_mono (h : n ≤ L) : blocks H B prk info i n <+: blocks H B prk info i L := by
  induction n generalizing i L with
  | zero => exact List.nil_prefix
  | succ n ih =>
    cases L with
    | zero => exact absurd h (Nat.not_succ_le_zero n)
    | succ L =>
      rw [blocks_succ, blocks_succ]
      exact (List.prefix_append_right_inj _).mpr (ih (Nat.le_of_succ_le_succ h))

/-- **Any number of blocks that has `L` bytes gives the same `L` bytes.** -/
theorem blocks_take (hH : ∀ x, (H x).length = hashLen) {m : Nat} (hn : L ≤ n * hashLen)
    (hm : L ≤ m * hashLen) :
    (blocks H B prk info i n).take L = (blocks H B prk info i m).take L := by
  have hmore : ∀ {a b : Nat}, a ≤ b → L ≤ a * hashLen →
      (blocks H B prk info i a).take L = (blocks H B prk info i b).take L := by
    intro a b hab ha
    have hpre : blocks H B prk info i a <+: blocks H B prk info i b := blocks_mono hab
    obtain ⟨rest, hrest⟩ := hpre
    rw [← hrest, List.take_append_of_le_length (by rw [blocks_length hH]; exact ha)]
  rcases Nat.le_total n m with h | h
  · exact hmore h hn
  · exact (hmore h hm).symm

/-- The number of blocks is enough. -/
theorem le_blocks (hpos : 0 < hashLen) : L ≤ (L + hashLen - 1) / hashLen * hashLen := by
  have hdiv := Nat.div_add_mod (L + hashLen - 1) hashLen
  have hmod := Nat.mod_lt (L + hashLen - 1) hpos
  rw [Nat.mul_comm] at hdiv
  omega

theorem expand_eq (hH : ∀ x, (H x).length = hashLen) (hpos : 0 < hashLen) (hn : L ≤ n * hashLen) :
    expand H B hashLen prk info L = (blocks H B prk info 0 n).take L :=
  blocks_take hH (le_blocks hpos) hn

theorem expand_length (hH : ∀ x, (H x).length = hashLen) (hpos : 0 < hashLen) :
    (expand H B hashLen prk info L).length = L := by
  rw [expand, List.length_take, blocks_length hH]
  exact Nat.min_eq_left (le_blocks hpos)

/-- **A shorter output is the beginning of a longer one.** -/
theorem expand_mono (hH : ∀ x, (H x).length = hashLen) (hpos : 0 < hashLen) (h : L ≤ L') :
    expand H B hashLen prk info L <+: expand H B hashLen prk info L' := by
  have hlong : L' ≤ (L' + hashLen - 1) / hashLen * hashLen := le_blocks hpos
  rw [expand_eq hH hpos (Nat.le_trans h hlong), expand_eq hH hpos hlong]
  exact List.take_prefix_take_left h

end Blocks

end Hkdf
