/-
  File:      Wirebone/Lib/ByteString.lean
  Subject:   BYTE STRINGS: text literals, decimal numerals, big-endian words.

  A byte string is a list of bytes. The numerals are the ones every C-like library prints; the
  words are the fixed-width unsigned words of a wire format.

  * `decimal` -- the decimal numeral of a number, with `decimal_injective` and `decimal_digit`
    (no numeral holds a byte outside `0`..`9`, so a numeral ends where a separator stands);
  * `bigEndian w n` -- the `w` low bytes of `n`, most significant first, with its length and
    `bigEndian_inj` (a word determines the number below `256 ^ w`); `ofBigEndian` reads it back;
  * `append_sep_inj` -- two strings that agree up to a separator neither head contains.
-/
import Mathlib.Data.List.Basic
import Mathlib.Tactic.Ring
import Mathlib.Tactic.NormNum

namespace ByteString

/-- A byte string. -/
abbrev Bytes := List UInt8

/-- The bytes of a text literal (one byte a character; the literals are ASCII). -/
def ascii (s : String) : Bytes := s.toList.map fun c => UInt8.ofNat c.toNat

/-- The first `n` bytes of `b`, zero-filled past its end. -/
def fill (n : Nat) (b : Bytes) : Bytes := b.take n ++ List.replicate (n - b.length) 0

@[simp] theorem fill_length (n : Nat) (b : Bytes) : (fill n b).length = n := by
  simp only [fill, List.length_append, List.length_take, List.length_replicate]
  omega

theorem fill_of_length {n : Nat} {b : Bytes} (h : b.length = n) : fill n b = b := by
  simp [fill, h, List.take_of_length_le (le_of_eq h)]

/-- A property of bytes that holds of the 256 of them. -/
theorem forall_byte {P : UInt8 → Prop} (h : ∀ n < 256, P (UInt8.ofNat n)) (b : UInt8) : P b := by
  simpa using h b.toNat b.toNat_lt

/-! ## 1. Decimal numerals -/

/-- The decimal numeral of `n`. -/
def decimal (n : Nat) : Bytes := (Nat.toDigits 10 n).map fun c => UInt8.ofNat c.toNat

theorem digit_bounds {n : Nat} {c : Char} (h : c ∈ Nat.toDigits 10 n) :
    48 ≤ c.toNat ∧ c.toNat ≤ 57 := by
  have hd : c.isDigit := Nat.isDigit_of_mem_toDigits (by decide) (by decide) h
  simp only [Char.isDigit, Bool.and_eq_true, decide_eq_true_eq, ge_iff_le] at hd
  exact ⟨hd.1, hd.2⟩

theorem toNat_digit {n : Nat} {c : Char} (h : c ∈ Nat.toDigits 10 n) :
    (UInt8.ofNat c.toNat).toNat = c.toNat := by
  have hb := digit_bounds h
  exact UInt8.toNat_ofNat_of_lt' (by simp only [UInt8.size]; omega)

/-- Every byte of a numeral is a digit. -/
theorem decimal_digit {n : Nat} {b : UInt8} (h : b ∈ decimal n) :
    48 ≤ b.toNat ∧ b.toNat ≤ 57 := by
  obtain ⟨c, hc, rfl⟩ := List.mem_map.mp h
  rw [toNat_digit hc]
  exact digit_bounds hc

/-- The characters behind a numeral can be read back from its bytes. -/
theorem decimal_chars (n : Nat) :
    (decimal n).map (fun b => Char.ofNat b.toNat) = Nat.toDigits 10 n := by
  unfold decimal
  rw [List.map_map]
  refine (List.map_congr_left fun c hc => ?_).trans (List.map_id _)
  show Char.ofNat (UInt8.ofNat c.toNat).toNat = c
  rw [toNat_digit hc, Char.ofNat_toNat]

/-- **A numeral determines its number.** -/
theorem decimal_injective : Function.Injective decimal := by
  intro m n h
  have hd : Nat.toDigits 10 m = Nat.toDigits 10 n := by
    rw [← decimal_chars m, h, decimal_chars n]
  rw [← Nat.ofDigitChars_ten_toDigits (n := m), hd, Nat.ofDigitChars_ten_toDigits]

/-- Two strings that agree, split at a separator that neither head contains, agree on both
    sides of it. -/
theorem append_sep_inj {α : Type*} {s : α} {x x' y y' : List α} (hx : s ∉ x) (hx' : s ∉ x')
    (h : x ++ s :: y = x' ++ s :: y') : x = x' ∧ y = y' := by
  induction x generalizing x' with
  | nil =>
    cases x' with
    | nil => exact ⟨rfl, (List.cons.inj h).2⟩
    | cons b x' => exact absurd ((List.cons.inj h).1 ▸ List.mem_cons_self) hx'
  | cons a x ih =>
    cases x' with
    | nil => exact absurd ((List.cons.inj h).1 ▸ List.mem_cons_self) hx
    | cons b x' =>
      obtain ⟨rfl, ht⟩ := List.cons.inj h
      obtain ⟨rfl, rfl⟩ := ih (fun hm => hx (List.mem_cons_of_mem _ hm))
        (fun hm => hx' (List.mem_cons_of_mem _ hm)) ht
      exact ⟨rfl, rfl⟩

/-! ## 2. Big-endian words -/

/-- The `w` low bytes of `n`, most significant first. -/
def bigEndian : Nat → Nat → Bytes
  | 0, _ => []
  | w + 1, n => bigEndian w (n / 256) ++ [UInt8.ofNat n]

@[simp] theorem bigEndian_length (w n : Nat) : (bigEndian w n).length = w := by
  induction w generalizing n with
  | zero => rfl
  | succ w ih => simp [bigEndian, ih]

/-- **A word determines the number it holds** below `256 ^ w`. -/
theorem bigEndian_inj {w m n : Nat} (hm : m < 256 ^ w) (hn : n < 256 ^ w)
    (h : bigEndian w m = bigEndian w n) : m = n := by
  induction w generalizing m n with
  | zero => omega
  | succ w ih =>
    obtain ⟨hhi, hlo⟩ := List.append_inj' h rfl
    have hdiv : m / 256 = n / 256 := by
      refine ih ?_ ?_ hhi
      · rw [Nat.pow_succ] at hm; omega
      · rw [Nat.pow_succ] at hn; omega
    have hmod : m % 256 = n % 256 := by
      have := congrArg UInt8.toNat (List.cons.inj hlo).1
      simpa using this
    omega

/-- The number that a word holds. -/
def ofBigEndian (b : Bytes) : Nat := b.foldl (fun n x => 256 * n + x.toNat) 0

theorem ofBigEndian_bigEndian (w n : Nat) : ofBigEndian (bigEndian w n) = n % 256 ^ w := by
  induction w generalizing n with
  | zero => rw [Nat.pow_zero, Nat.mod_one]; rfl
  | succ w ih =>
    have hlast : ofBigEndian (bigEndian (w + 1) n) = 256 * ofBigEndian (bigEndian w (n / 256)) + n % 256 := by
      rw [bigEndian, ofBigEndian, List.foldl_append]
      rfl
    rw [hlast, ih, Nat.pow_succ', Nat.mod_mul]
    omega

end ByteString
