/-
  File:      Wirebone/Crypto.lean
  Subject:   crypto.cpp and keys.cpp: what the coordinator computes over the OpenSSL primitives.

  The primitives themselves (BLAKE2s, X25519, ChaCha20-Poly1305) live in OpenSSL; they are the
  fields of `Crypto`, a parameter of everything below. What crypto.cpp builds on them is here:

  * `hmacBlake2s`, `hkdfBlake2s` -- HMAC with the 64-byte block of BLAKE2s, and the HKDF loop;
  * `hexEncode`, `hexDecode`, `formatKey` -- the text forms of raw keys;
  * `generateX25519Private` -- clamping, which leaves no key zero.
-/
import Wirebone.Lib.ByteString

namespace Wirebone

open ByteString

/-- `std::array<std::uint8_t, 32>`. -/
abbrev Bytes32 := { b : Bytes // b.length = 32 }

/-- The first 32 bytes of `b` (what `memcpy` of 32 bytes takes), zero-filled past its end. -/
def bytes32 (b : Bytes) : Bytes32 := ⟨fill 32 b, fill_length 32 b⟩

/-- `Bytes32{}`. -/
def zero32 : Bytes32 := ⟨List.replicate 32 0, List.length_replicate⟩

theorem bytes32_val {b : Bytes} (h : b.length = 32) : (bytes32 b : Bytes) = b := fill_of_length h

@[simp] theorem bytes32_coe (b : Bytes32) : bytes32 b = b := Subtype.ext (bytes32_val b.2)

/-- The primitives the coordinator takes from OpenSSL.

    `x25519Shared` is `none` where `x25519_shared` throws (an all-zero shared secret, for one);
    `aeadOpen` is `none` where `aead_open` returns `false`. -/
structure Crypto where
  blake2s256 : Bytes → Bytes32
  x25519Public : Bytes32 → Bytes32
  x25519Shared : Bytes32 → Bytes32 → Option Bytes32
  aeadSeal : (key : Bytes32) → (nonce ad plaintext : Bytes) → Bytes
  aeadOpen : (key : Bytes32) → (nonce ad ciphertext : Bytes) → Option Bytes

/-- Opening inverts sealing, and a tag is 16 bytes. -/
structure Crypto.AeadInverts (C : Crypto) : Prop where
  opens : ∀ k n ad p, C.aeadOpen k n ad (C.aeadSeal k n ad p) = some p
  tag : ∀ k n ad p, (C.aeadSeal k n ad p).length = p.length + 16

/-! ## 1. HMAC and HKDF -/

/-- The block size of BLAKE2s. -/
def block : Nat := 64

/-- `kpad` of `hmac_blake2s`: the key, hashed where it is longer than a block, zero-filled. -/
def kpad (C : Crypto) (key : Bytes) : Bytes :=
  if key.length > block then fill block (C.blake2s256 key) else fill block key

def hmacBlake2s (C : Crypto) (key data : Bytes) : Bytes32 :=
  let ipad := (kpad C key).map (· ^^^ 0x36)
  let opad := (kpad C key).map (· ^^^ 0x5c)
  let innerHash := C.blake2s256 (ipad ++ data)
  C.blake2s256 (opad ++ innerHash.val)

/-- The loop of `hkdf_blake2s`: `left` bytes of output are still to come. The first argument
    bounds the rounds (each writes a byte). -/
def hkdfLoop (C : Crypto) (prk : Bytes32) : Nat → Option Bytes32 → UInt8 → Nat → Bytes
  | 0, _, _, _ => []
  | _, _, _, 0 => []
  | fuel + 1, prev, counter, left + 1 =>
    let msg := (match prev with | some p => (p : Bytes) | none => []) ++ [counter]
    let t := hmacBlake2s C prk msg
    let n := min 32 (left + 1)
    (t : Bytes).take n ++ hkdfLoop C prk fuel (some t) (counter + 1) (left + 1 - n)

/-- `hkdf_blake2s(ikm, salt, out)` with `out.size() = n`. -/
def hkdfBlake2s (C : Crypto) (ikm salt : Bytes) (n : Nat) : Bytes :=
  hkdfLoop C (hmacBlake2s C salt ikm) n none 1 n

/-! ## 2. Text forms -/

/-- `kHex[v]` for a nibble `v`. -/
def hexDigit (v : UInt8) : UInt8 := if v < 10 then 48 + v else 87 + v

def hexEncode (bytes : Bytes) : Bytes :=
  bytes.flatMap fun b : UInt8 => [hexDigit (b >>> 4), hexDigit (b &&& 0x0f)]

/-- The lambda `nibble` of `hex_decode` (`none` for its `-1`). -/
def nibble (c : UInt8) : Option UInt8 :=
  if 48 ≤ c ∧ c ≤ 57 then some (c - 48)
  else if 97 ≤ c ∧ c ≤ 102 then some (c - 97 + 10)
  else if 65 ≤ c ∧ c ≤ 70 then some (c - 65 + 10)
  else none

/-- The loop of `hex_decode` over two digits at a time. -/
def hexPairs : Bytes → Option Bytes
  | hi :: lo :: rest => do
    let hi ← nibble hi
    let lo ← nibble lo
    let out ← hexPairs rest
    return ((hi <<< 4) ||| lo) :: out
  | _ => some []

/-- `hex_decode(hex, out)` with `out.size() = n`; `none` where it returns `false`. -/
def hexDecode (hex : Bytes) (n : Nat) : Option Bytes :=
  if hex.length ≠ n * 2 then none else hexPairs hex

inductive KeyKind where
  | Machine
  | Node
  | Disco
  deriving DecidableEq, Repr

def prefixFor : KeyKind → Bytes
  | .Machine => ascii "mkey:"
  | .Node => ascii "nodekey:"
  | .Disco => ascii "discokey:"

def formatKey (kind : KeyKind) (raw : Bytes32) : Bytes := prefixFor kind ++ hexEncode raw

/-! ### Round trip of the hex text -/

theorem nibble_hexDigit (v : UInt8) : v < 16 → nibble (hexDigit v) = some v :=
  forall_byte (P := fun v => v < 16 → nibble (hexDigit v) = some v) (by decide +kernel) v

theorem nibbles_join (b : UInt8) : ((b >>> 4) <<< 4) ||| (b &&& 0x0f) = b :=
  forall_byte (P := fun b => ((b >>> 4) <<< 4) ||| (b &&& 0x0f) = b) (by decide +kernel) b

theorem nibbles_lt (b : UInt8) : b >>> 4 < 16 ∧ b &&& 0x0f < 16 :=
  forall_byte (P := fun b => b >>> 4 < 16 ∧ b &&& 0x0f < 16) (by decide +kernel) b

theorem hexPairs_hexEncode (bytes : Bytes) : hexPairs (hexEncode bytes) = some bytes := by
  induction bytes with
  | nil => rfl
  | cons b bytes ih =>
    obtain ⟨hhi, hlo⟩ := nibbles_lt b
    show hexPairs (hexDigit (b >>> 4) :: hexDigit (b &&& 0x0f) :: hexEncode bytes) = _
    simp only [hexPairs, nibble_hexDigit _ hhi, nibble_hexDigit _ hlo, ih, Option.bind_eq_bind,
      Option.bind_some, nibbles_join, Option.pure_def]

theorem hexEncode_length (bytes : Bytes) : (hexEncode bytes).length = bytes.length * 2 := by
  induction bytes with
  | nil => rfl
  | cons b bytes ih =>
    have hcons : hexEncode (b :: bytes) =
        [hexDigit (b >>> 4), hexDigit (b &&& 0x0f)] ++ hexEncode bytes := rfl
    rw [hcons, List.length_append, ih]
    simp only [List.length_cons, List.length_nil]
    omega

/-- **`hex_decode` inverts `hex_encode`.** -/
theorem hexDecode_hexEncode (bytes : Bytes) :
    hexDecode (hexEncode bytes) bytes.length = some bytes := by
  rw [hexDecode, if_neg (by simp [hexEncode_length]), hexPairs_hexEncode]

/-! ## 3. Drawing a key -/

/-- `generate_x25519_private` over the random bytes `raw`. -/
def generateX25519Private (raw : Bytes32) : Bytes32 :=
  ⟨(raw.val.modify 0 (· &&& 248)).modify 31 fun b => (b &&& 127) ||| 64, by
    rw [List.length_modify, List.length_modify, raw.2]⟩

theorem clamped_ne_zero (b : UInt8) : (b &&& 127) ||| 64 ≠ 0 :=
  forall_byte (P := fun b => (b &&& 127) ||| 64 ≠ 0) (by decide +kernel) b

/-- The last byte of a clamped key has bit 6. -/
theorem generateX25519Private_ne_zero (raw : Bytes32) : generateX25519Private raw ≠ zero32 := by
  intro h
  have hlast := congrArg (fun k : Bytes32 => k.val[31]?) h
  have hlen : 31 < raw.val.length := by rw [raw.2]; decide
  have hzero : zero32.val[31]? = some 0 := rfl
  simp only [generateX25519Private, hzero, List.getElem?_modify_eq,
    List.getElem?_modify_ne _ _ (by decide : (0 : Nat) ≠ 31), List.getElem?_eq_getElem hlen] at hlast
  exact clamped_ne_zero _ (Option.some.inj hlast)

/-! ## 4. Concrete primitives

The theorems about the handshake and the record layer assume laws of the primitives. `sample` is
an executable instance with these laws: a polynomial digest for the hash, addition of byte vectors
for the Diffie-Hellman group, and for the AEAD the plaintext followed by a 16-byte digest of key,
nonce, associated data and plaintext, checked on opening. -/

/-- A digest of a byte string below `m`. -/
def digest (m : Nat) (b : Bytes) : Nat := b.foldl (fun acc x => (acc * 257 + x.toNat + 1) % m) 1

/-- The sum of two byte vectors. -/
def add32 (a b : Bytes32) : Bytes32 :=
  ⟨List.zipWith (· + ·) a.val b.val, by rw [List.length_zipWith, a.2, b.2]; rfl⟩

def sampleSeal (k : Bytes32) (nonce ad p : Bytes) : Bytes :=
  p ++ bigEndian 16 (digest (2 ^ 128 - 159) (k.val ++ nonce ++ ad ++ p))

def sampleOpen (k : Bytes32) (nonce ad ct : Bytes) : Option Bytes :=
  if sampleSeal k nonce ad (ct.take (ct.length - 16)) = ct then some (ct.take (ct.length - 16)) else none

def Crypto.sample : Crypto where
  blake2s256 b := bytes32 (bigEndian 32 (digest (2 ^ 256 - 189) b))
  x25519Public a := a
  x25519Shared a b := some (add32 a b)
  aeadSeal := sampleSeal
  aeadOpen := sampleOpen

theorem add32_comm (a b : Bytes32) : add32 a b = add32 b a :=
  Subtype.ext (List.zipWith_comm_of_comm fun x y => UInt8.add_comm x y)

theorem sampleSeal_length (k : Bytes32) (nonce ad p : Bytes) :
    (sampleSeal k nonce ad p).length = p.length + 16 := by
  simp [sampleSeal]

theorem sampleOpen_seal (k : Bytes32) (nonce ad p : Bytes) :
    sampleOpen k nonce ad (sampleSeal k nonce ad p) = some p := by
  have htake : (sampleSeal k nonce ad p).take ((sampleSeal k nonce ad p).length - 16) = p := by
    rw [sampleSeal_length, Nat.add_sub_cancel]
    exact List.take_left' rfl
  rw [sampleOpen, htake, if_pos rfl]

end Wirebone
