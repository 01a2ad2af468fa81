/-
  File:      Wirebone/Crypto/Derive.lean
  Subject:   EVERY SESSION KEY IS AN HKDF OUTPUT.

  crypto.cpp writes HMAC and HKDF out by hand: a padded block on the stack, and a loop with the last
  block, a flag for the first round, a counter of one byte and an offset. Over any function in the
  place of BLAKE2s they are the standard ones:

  * `hmacBlake2s_eq` -- `hmac_blake2s` is HMAC with a block of 64 bytes, for keys of any length;
  * `hkdfLoop_eq` -- after `i` rounds the loop writes the blocks from `T(i+1)` on;
  * **`hkdf_standard`** -- both, for every salt and every length up to 255 blocks.
-/
import Mathlib.Data.List.Basic
import Wirebone.Crypto
import Wirebone.Lib.Hkdf

namespace Wirebone

open ByteString

/-- `blake2s256` as a function on byte strings. -/
def digest32 (C : Crypto) (x : Bytes) : Bytes := C.blake2s256 x

section Derive

variable {C : Crypto}

theorem digest32_length (x : Bytes) : (digest32 C x).length = 32 := (C.blake2s256 x).2

/-! ## 1. HMAC -/

theorem kpad_eq (key : Bytes) : kpad C key = Hkdf.keyBlock (digest32 C) block key := by
  unfold kpad Hkdf.keyBlock
  by_cases hlong : key.length > block
  · have hlen : (C.blake2s256 key : Bytes).length ≤ block := by
      rw [(C.blake2s256 key).2]
      decide
    rw [if_pos hlong, if_pos hlong, fill, List.take_of_length_le hlen]
    rfl
  · rw [if_neg hlong, if_neg hlong, fill, List.take_of_length_le (Nat.le_of_not_lt hlong)]

/-- A pad of one byte throughout. -/
theorem zipWith_replicate_right (f : UInt8 → UInt8 → UInt8) (x : UInt8) (s : Bytes) :
    List.zipWith f s (List.replicate s.length x) = s.map (f · x) := by
  induction s with
  | nil => rfl
  | cons b s ih => rw [List.length_cons, List.replicate_succ, List.zipWith_cons_cons, ih, List.map_cons]

theorem kpad_length (key : Bytes) : (kpad C key).length = block := by
  unfold kpad
  split
  · exact fill_length _ _
  · exact fill_length _ _

/-- **`hmac_blake2s` is HMAC**, whatever the length of the key. -/
theorem hmacBlake2s_eq (key data : Bytes) :
    (hmacBlake2s C key data : Bytes) = Hkdf.hmac (digest32 C) block key data := by
  have hpad : ∀ x : UInt8, List.zipWith (· ^^^ ·) (kpad C key) (List.replicate block x) =
      (kpad C key).map (· ^^^ x) := by
    intro x
    rw [← kpad_length (C := C) key]
    exact zipWith_replicate_right _ x _
  rw [Hkdf.hmac, ← kpad_eq, Hkdf.ipad, Hkdf.opad, hpad, hpad]
  rfl

/-! ## 2. The loop -/

/-- The last block, as the loop keeps it: none in front of the first round. -/
def lastBlock (C : Crypto) (prk : Bytes32) : Nat → Option Bytes32
  | 0 => none
  | i + 1 => some (hmacBlake2s C prk (Hkdf.T (digest32 C) block prk [] i ++ [UInt8.ofNat (i + 1)]))

theorem T_succ (prk : Bytes32) (i : Nat) :
    Hkdf.T (digest32 C) block prk [] (i + 1) =
      (hmacBlake2s C prk (Hkdf.T (digest32 C) block prk [] i ++ [UInt8.ofNat (i + 1)]) : Bytes) := by
  rw [Hkdf.T, List.append_nil, hmacBlake2s_eq]

/-- One round: the next block goes out, or as much of it as is still asked for. -/
theorem hkdfLoop_round (prk : Bytes32) (fuel i left : Nat) :
    hkdfLoop C prk (fuel + 1) (lastBlock C prk i) (UInt8.ofNat (i + 1)) (left + 1) =
      (Hkdf.T (digest32 C) block prk [] (i + 1)).take (min 32 (left + 1)) ++
        hkdfLoop C prk fuel (lastBlock C prk (i + 1)) (UInt8.ofNat (i + 2))
          (left + 1 - min 32 (left + 1)) := by
  have hcounter : UInt8.ofNat (i + 1) + 1 = UInt8.ofNat (i + 2) := (UInt8.ofNat_add (i + 1) 1).symm
  rw [← hcounter]
  cases i with
  | zero => rw [T_succ]; rfl
  | succ i =>
    -- the block that is kept is the one the next message starts with
    have hround : ∀ (p : Bytes32) (counter : UInt8), hkdfLoop C prk (fuel + 1) (some p) counter (left + 1) =
        (hmacBlake2s C prk (p.val ++ [counter]) : Bytes).take (min 32 (left + 1)) ++
          hkdfLoop C prk fuel (some (hmacBlake2s C prk (p.val ++ [counter]))) (counter + 1)
            (left + 1 - min 32 (left + 1)) := fun _ _ => rfl
    rw [T_succ, lastBlock, lastBlock, hround, T_succ]

/-- **After `i` rounds the loop writes the blocks from `T(i+1)` on**, the last one cut. -/
theorem hkdfLoop_eq (prk : Bytes32) (fuel i left n : Nat) (hfuel : left ≤ fuel) (hn : left ≤ n * 32) :
    hkdfLoop C prk fuel (lastBlock C prk i) (UInt8.ofNat (i + 1)) left =
      (Hkdf.blocks (digest32 C) block prk [] i n).take left := by
  induction fuel generalizing i left n with
  | zero =>
    obtain rfl : left = 0 := by omega
    rfl
  | succ fuel ih =>
    cases left with
    | zero => rfl
    | succ left =>
      cases n with
      | zero => omega
      | succ n =>
        have hT : (Hkdf.T (digest32 C) block prk [] (i + 1)).length = 32 := Hkdf.T_length digest32_length
        rw [hkdfLoop_round, ih (i + 1) _ n (by omega) (by omega), Hkdf.blocks_succ, List.take_append, hT]
        rcases Nat.le_total 32 (left + 1) with h | h
        · have hall : (Hkdf.T (digest32 C) block prk [] (i + 1)).take (left + 1) =
              Hkdf.T (digest32 C) block prk [] (i + 1) := List.take_of_length_le (by rw [hT]; exact h)
          rw [Nat.min_eq_left h, List.take_of_length_le (Nat.le_of_eq hT), hall]
        · rw [Nat.min_eq_right h, Nat.sub_self, Nat.sub_eq_zero_of_le h]

/-! ## 3. The standard -/

/-- An empty salt is 32 zeros. -/
theorem extract_eq (ikm salt : Bytes) :
    (hmacBlake2s C salt ikm : Bytes) = Hkdf.extract (digest32 C) block 32 salt ikm := by
  rw [hmacBlake2s_eq, Hkdf.extract]
  by_cases hsalt : salt = []
  · have hzeros := Hkdf.hmac_zeros (digest32 C) block [] 32 (by decide) ikm
    rw [if_pos hsalt, hsalt]
    exact hzeros.symm
  · rw [if_neg hsalt]

theorem hkdfBlake2s_eq (ikm salt : Bytes) (L : Nat) :
    hkdfBlake2s C ikm salt L =
      Hkdf.expand (digest32 C) block 32 (Hkdf.extract (digest32 C) block 32 salt ikm) [] L := by
  have hpos : 0 < 32 := by decide
  rw [← extract_eq]
  exact hkdfLoop_eq (hmacBlake2s C salt ikm) L 0 L _ (Nat.le_refl L) (Hkdf.le_blocks hpos)

end Derive

/-- **`hmac_blake2s` is HMAC and `hkdf_blake2s` is HKDF with no info**, over any function in the place
    of the hash: for every key, every salt, and every length up to 255 blocks; all of `out` is
    written, and a shorter output is the beginning of a longer one. -/
theorem hkdf_standard (C : Crypto) :
    (∀ key data, (hmacBlake2s C key data : Bytes) = Hkdf.hmac (digest32 C) 64 key data) ∧
      (∀ ikm salt L, L ≤ 255 * 32 →
        hkdfBlake2s C ikm salt L =
            Hkdf.expand (digest32 C) 64 32 (Hkdf.extract (digest32 C) 64 32 salt ikm) [] L ∧
          (hkdfBlake2s C ikm salt L).length = L) ∧
      ∀ ikm salt L L', L ≤ L' → L' ≤ 255 * 32 →
        hkdfBlake2s C ikm salt L <+: hkdfBlake2s C ikm salt L' := by
  have hpos : 0 < 32 := by decide
  refine ⟨hmacBlake2s_eq, fun ikm salt L _ => ⟨hkdfBlake2s_eq ikm salt L, ?_⟩, fun ikm salt L L' h _ => ?_⟩
  · rw [hkdfBlake2s_eq]
    exact Hkdf.expand_length digest32_length hpos
  · rw [hkdfBlake2s_eq, hkdfBlake2s_eq]
    exact Hkdf.expand_mono digest32_length hpos h

/-- A key of 65 bytes, and 40 bytes of output against 80, of the sample hash. -/
theorem hkdf_standard_sample :
    (hmacBlake2s .sample (List.replicate 65 1) [2] : Bytes) =
        Hkdf.hmac (digest32 .sample) 64 (List.replicate 65 1) [2] ∧
      (hkdfBlake2s .sample [1] [] 40).length = 40 ∧
      hkdfBlake2s .sample [1] [] 40 <+: hkdfBlake2s .sample [1] [] 80 := by
  obtain ⟨hhmac, hhkdf, hprefix⟩ := hkdf_standard .sample
  exact ⟨hhmac _ _, (hhkdf [1] [] 40 (by decide)).2, hprefix [1] [] 40 80 (by decide) (by decide)⟩

end Wirebone
