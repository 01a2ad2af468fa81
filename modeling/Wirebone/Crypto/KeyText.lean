/-
  File:      Wirebone/Crypto/KeyText.lean
  Subject:   THE TEXT OF A KEY IS THE KEY.

  Machines and nodes are compared by the text of their keys everywhere in the store. The text is the
  prefix of the kind and 64 hex digits; the reader takes capital letters too:

  * `parseKey` -- keys.cpp's `parse_key`;
  * `nibble_iff`, `hexPairs_iff` -- what the digits decode to, and which texts decode: those that are
    an encoding up to the case of the letters;
  * `prefixFor_front` -- no kind's text starts with the prefix of another;
  * **`keyText_faithful`** -- the text determines kind and key, and is read back as they are; what
    is read is such a text.
-/
import Wirebone.Crypto
import Wirebone.Http1

namespace Wirebone

open ByteString

/-- `parse_key(kind, text, out)`: `out` where it returns `true`. -/
def parseKey (kind : KeyKind) (text : Bytes) : Option Bytes32 :=
  if text.length < (prefixFor kind).length ∨ text.take (prefixFor kind).length ≠ prefixFor kind then none
  else (hexDecode (text.drop (prefixFor kind).length) 32).map bytes32

/-! ## 1. Digits -/

/-- `0`..`9`, `a`..`f`, `A`..`F`. -/
def isHexDigit (c : UInt8) : Bool := decide ((48 ≤ c ∧ c ≤ 57) ∨ (97 ≤ c ∧ c ≤ 102) ∨ (65 ≤ c ∧ c ≤ 70))

theorem nibble_isSome (c : UInt8) : (nibble c).isSome = isHexDigit c :=
  forall_byte (P := fun c => (nibble c).isSome = isHexDigit c) (by decide +kernel) c

/-- **A digit decodes to the number whose digit it is**, up to the case. -/
theorem nibble_digit (c : UInt8) : ∀ v ∈ nibble c, v < 16 ∧ hexDigit v = tolower c :=
  forall_byte (P := fun c => ∀ v ∈ nibble c, v < 16 ∧ hexDigit v = tolower c) (by decide +kernel) c

/-- The two halves of a byte that has been put together. -/
theorem halves (hi lo : UInt8) (hhi : hi < 16) (hlo : lo < 16) :
    ((hi <<< 4) ||| lo) >>> 4 = hi ∧ ((hi <<< 4) ||| lo) &&& 0x0f = lo := by
  have hall : ∀ m < 16, ∀ n < 16, ((UInt8.ofNat m <<< 4) ||| UInt8.ofNat n) >>> 4 = UInt8.ofNat m ∧
      ((UInt8.ofNat m <<< 4) ||| UInt8.ofNat n) &&& 0x0f = UInt8.ofNat n := by decide +kernel
  have h := hall hi.toNat (UInt8.lt_iff_toNat_lt.mp hhi) lo.toNat (UInt8.lt_iff_toNat_lt.mp hlo)
  rwa [UInt8.ofNat_toNat, UInt8.ofNat_toNat] at h

theorem hexEncode_cons (b : UInt8) (bytes : Bytes) :
    hexEncode (b :: bytes) = hexDigit (b >>> 4) :: hexDigit (b &&& 0x0f) :: hexEncode bytes := rfl

/-! ## 2. Texts of digits -/

/-- A text of an even length, two digits at a time. -/
theorem exists_pair {n : Nat} {hex : Bytes} (h : hex.length = (n + 1) * 2) :
    ∃ hi lo rest, hex = hi :: lo :: rest ∧ rest.length = n * 2 := by
  cases hex with
  | nil =>
    rw [List.length_nil] at h
    omega
  | cons hi hex =>
    cases hex with
    | nil =>
      rw [List.length_singleton] at h
      omega
    | cons lo rest =>
      simp only [List.length_cons] at h
      exact ⟨hi, lo, rest, rfl, by omega⟩

theorem hexPairs_cons {hi lo : UInt8} {rest out : Bytes} (h : hexPairs (hi :: lo :: rest) = some out) :
    ∃ u ∈ nibble hi, ∃ v ∈ nibble lo, ∃ bytes, hexPairs rest = some bytes ∧
      out = ((u <<< 4) ||| v) :: bytes := by
  rw [hexPairs] at h
  obtain ⟨u, hu, h⟩ := Option.bind_eq_some_iff.mp h
  obtain ⟨v, hv, h⟩ := Option.bind_eq_some_iff.mp h
  obtain ⟨bytes, hbytes, h⟩ := Option.bind_eq_some_iff.mp h
  exact ⟨u, hu, v, hv, bytes, hbytes, (Option.some.inj h).symm⟩

/-- **What is decoded is, up to the case of its letters, the encoding of what comes out.** -/
theorem hexPairs_some (n : Nat) {hex out : Bytes} (hlen : hex.length = n * 2) (h : hexPairs hex = some out) :
    lower hex = hexEncode out ∧ out.length = n := by
  induction n generalizing hex out with
  | zero =>
    obtain rfl : hex = [] := List.length_eq_zero_iff.mp (by omega)
    cases h
    exact ⟨rfl, rfl⟩
  | succ n ih =>
    obtain ⟨hi, lo, rest, rfl, hrest⟩ := exists_pair hlen
    obtain ⟨u, hu, v, hv, bytes, hbytes, rfl⟩ := hexPairs_cons h
    obtain ⟨hlow, hcount⟩ := ih hrest hbytes
    obtain ⟨hu16, hudigit⟩ := nibble_digit hi u hu
    obtain ⟨hv16, hvdigit⟩ := nibble_digit lo v hv
    obtain ⟨hhigh, hlower⟩ := halves u v hu16 hv16
    refine ⟨?_, by rw [List.length_cons, hcount]⟩
    rw [hexEncode_cons, hhigh, hlower, hudigit, hvdigit, ← hlow]
    rfl

/-- **A text of digits decodes, and nothing else does.** -/
theorem hexPairs_isSome (n : Nat) {hex : Bytes} (hlen : hex.length = n * 2) :
    (hexPairs hex).isSome = true ↔ ∀ c ∈ hex, isHexDigit c = true := by
  induction n generalizing hex with
  | zero =>
    obtain rfl : hex = [] := List.length_eq_zero_iff.mp (by omega)
    exact ⟨fun _ => List.forall_mem_nil _, fun _ => rfl⟩
  | succ n ih =>
    obtain ⟨hi, lo, rest, rfl, hrest⟩ := exists_pair hlen
    have hstep : (hexPairs (hi :: lo :: rest)).isSome = true ↔
        (nibble hi).isSome = true ∧ (nibble lo).isSome = true ∧ (hexPairs rest).isSome = true := by
      rw [hexPairs]
      cases nibble hi with
      | none => simp
      | some u =>
        cases nibble lo with
        | none => simp
        | some v =>
          cases hexPairs rest with
          | none => simp
          | some bytes => simp
    rw [hstep, ih hrest, nibble_isSome, nibble_isSome, List.forall_mem_cons, List.forall_mem_cons]

theorem hexDecode_some {hex out : Bytes} {n : Nat} (h : hexDecode hex n = some out) :
    hex.length = n * 2 ∧ lower hex = hexEncode out ∧ out.length = n := by
  unfold hexDecode at h
  by_cases hlen : hex.length = n * 2
  · rw [if_neg (not_not_intro hlen)] at h
    exact ⟨hlen, hexPairs_some n hlen h⟩
  · rw [if_pos hlen] at h
    cases h

theorem hexDecode_isSome {hex : Bytes} {n : Nat} :
    (hexDecode hex n).isSome = true ↔ hex.length = n * 2 ∧ ∀ c ∈ hex, isHexDigit c = true := by
  unfold hexDecode
  by_cases hlen : hex.length = n * 2
  · rw [if_neg (not_not_intro hlen), hexPairs_isSome n hlen]
    exact ⟨fun h => ⟨hlen, h⟩, fun h => h.2⟩
  · rw [if_pos hlen]
    exact ⟨fun h => (by cases h), fun h => absurd h.1 hlen⟩

/-! ## 3. Kinds -/

section Kinds

variable {k k' : KeyKind} {t hex : Bytes} {raw : Bytes32}

/-- **The first letter tells the kind.** -/
theorem prefixFor_head (h : (prefixFor k).head? = (prefixFor k').head?) : k = k' := by
  cases k <;> cases k' <;> first | rfl | exact absurd h (by decide)

/-- Behind its prefix a text is decoded. -/
theorem parseKey_append (k : KeyKind) (hex : Bytes) :
    parseKey k (prefixFor k ++ hex) = (hexDecode hex 32).map bytes32 := by
  have hfits : ¬ ((prefixFor k ++ hex).length < (prefixFor k).length ∨
      (prefixFor k ++ hex).take (prefixFor k).length ≠ prefixFor k) := by
    rw [List.take_left, List.length_append]
    simp
  rw [parseKey, if_neg hfits, List.drop_left]

/-- No other text is. -/
theorem parseKey_front (h : parseKey k t = some raw) : ∃ hex, t = prefixFor k ++ hex := by
  unfold parseKey at h
  by_cases hnot : t.length < (prefixFor k).length ∨ t.take (prefixFor k).length ≠ prefixFor k
  · rw [if_pos hnot] at h
    cases h
  · have hfront : t.take (prefixFor k).length = prefixFor k := not_not.mp fun hne => hnot (.inr hne)
    have hsplit := List.take_append_drop (prefixFor k).length t
    rw [hfront] at hsplit
    exact ⟨_, hsplit.symm⟩

theorem parseKey_formatKey (k : KeyKind) (raw : Bytes32) : parseKey k (formatKey k raw) = some raw := by
  have hdecode : hexDecode (hexEncode raw) 32 = some raw.val := by
    have h := hexDecode_hexEncode raw.val
    rw [raw.2] at h
    exact h
  rw [formatKey, parseKey_append, hdecode, Option.map_some, bytes32_coe]

/-- A text that is read for a kind is no text of another kind. -/
theorem kind_of_parse {raw' : Bytes32} (h : parseKey k (formatKey k' raw) = some raw') : k = k' := by
  obtain ⟨hex, hhex⟩ := parseKey_front h
  have hhead : (prefixFor k' ++ hexEncode raw).head? = (prefixFor k ++ hex).head? := congrArg List.head? hhex
  have hfront : ∀ (k : KeyKind) (s : Bytes), (prefixFor k ++ s).head? = (prefixFor k).head? := by
    intro k s
    cases k <;> rfl
  rw [hfront, hfront] at hhead
  exact (prefixFor_head hhead).symm

theorem parseKey_some (h : parseKey k t = some raw) :
    ∃ hex, t = prefixFor k ++ hex ∧ formatKey k raw = prefixFor k ++ lower hex := by
  obtain ⟨hex, rfl⟩ := parseKey_front h
  rw [parseKey_append] at h
  obtain ⟨out, hout, rfl⟩ := Option.map_eq_some_iff.mp h
  obtain ⟨_, hlow, hlen⟩ := hexDecode_some hout
  refine ⟨hex, rfl, ?_⟩
  rw [formatKey, bytes32_val hlen, hlow]

theorem parseKey_isSome :
    (parseKey k t).isSome = true ↔
      ∃ hex, t = prefixFor k ++ hex ∧ hex.length = 64 ∧ ∀ c ∈ hex, isHexDigit c = true := by
  constructor
  · intro h
    obtain ⟨raw, hraw⟩ := Option.isSome_iff_exists.mp h
    obtain ⟨hex, rfl⟩ := parseKey_front hraw
    rw [parseKey_append, Option.isSome_map] at h
    exact ⟨hex, rfl, hexDecode_isSome.mp h⟩
  · intro h
    obtain ⟨hex, rfl, hdigits⟩ := h
    rw [parseKey_append, Option.isSome_map]
    exact hexDecode_isSome.mpr hdigits

end Kinds

/-- **The text of a key is a faithful encoding of its kind and its bytes**: `parse_key` reads it back
    for its own kind and for no other; what it reads is such a text up to the case of the hex
    digits; so no two keys have one text, and what it accepts is a prefix and 64 hex digits. -/
theorem keyText_faithful :
    (∀ k k' raw, (parseKey k (formatKey k' raw)).isSome = true ↔ k = k') ∧
      (∀ k raw, parseKey k (formatKey k raw) = some raw) ∧
      (∀ k t raw, parseKey k t = some raw →
        ∃ hex, t = prefixFor k ++ hex ∧ formatKey k raw = prefixFor k ++ lower hex) ∧
      (∀ k k' raw raw', formatKey k raw = formatKey k' raw' → k = k' ∧ raw = raw') ∧
      ∀ k t, (parseKey k t).isSome = true ↔
        ∃ hex, t = prefixFor k ++ hex ∧ hex.length = 64 ∧ ∀ c ∈ hex, isHexDigit c = true := by
  refine ⟨fun k k' raw => ⟨fun h => ?_, fun h => ?_⟩, parseKey_formatKey, fun _ _ _ h => parseKey_some h,
    fun k k' raw raw' h => ?_, fun _ _ => parseKey_isSome⟩
  · obtain ⟨raw', hraw⟩ := Option.isSome_iff_exists.mp h
    exact kind_of_parse hraw
  · rw [h, parseKey_formatKey]
    rfl
  · have hread := parseKey_formatKey k raw
    rw [h] at hread
    obtain rfl := kind_of_parse hread
    rw [parseKey_formatKey] at hread
    exact ⟨rfl, (Option.some.inj hread).symm⟩

/-- Capital letters are read too. -/
example :
    parseKey .Machine (ascii "mkey:" ++ List.replicate 64 70) = some (bytes32 (List.replicate 32 255)) := by
  decide +kernel

end Wirebone
