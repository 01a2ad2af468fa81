/-
  File:      Wirebone/Noise/Handshake.lean
  Subject:   noise.cpp, part 1: the Noise IK handshake, both sides.

  The handshake functions run over the primitives of `Crypto`. What a theorem assumes of these
  primitives it may only assume of the values that occur, so a run also records the transcript
  hashes, seals and opens it makes, in order (`Call`); nothing of the code reads this record.

  * `noiseServerHandshake` -- the server: checks the 101-byte initiation, answers with 51 bytes;
  * `noiseClientInit`, `noiseClientFinish` -- the client's two halves;
  * a key that the code draws at random (`generate_x25519_private`) is an argument;
  * a `bool` function of the source with an out-parameter is an `Option`, or fails with the text
    it leaves in `error` (`NoiseErr.returned`); a C++ exception is `NoiseErr.thrown`.
-/
import Wirebone.Crypto

namespace Wirebone

open ByteString

/-! ## 1. Runs of the handshake code -/

/-- One call of a primitive, with the values of this run. -/
inductive Call where
  | hashed (input : Bytes)
  | sealed (key : Bytes32) (nonce ad plaintext : Bytes)
  | opened (key : Bytes32) (nonce ad ciphertext : Bytes)
  deriving DecidableEq

/-- How a handshake function ends without a result. -/
inductive NoiseErr where
  | returned (error : String)
  | thrown (what : String)
  deriving DecidableEq, Repr

/-- Handshake code: it may fail, and it records its calls. -/
abbrev NoiseM := StateT (List Call) (Except NoiseErr)

def record (c : Call) : NoiseM Unit := modify (· ++ [c])

/-! ## 2. The building blocks -/

def kProtocolName : Bytes := ascii "Noise_IK_25519_ChaChaPoly_BLAKE2s"
def kProloguePrefix : Bytes := ascii "Tailscale Control Protocol v"

def kMsgInitiation : UInt8 := 1
def kMsgResponse : UInt8 := 2
def kMsgRecord : UInt8 := 4
def kHeaderLen : Nat := 3
def kInitHeaderLen : Nat := 5
def kInitiationLen : Nat := 101
def kResponseLen : Nat := 51
def kMaxMessage : Nat := 4096
def kMaxPlaintext : Nat := kMaxMessage - 3 - 16

/-- `std::uint8_t nonce[12]{}`. -/
def nonce0 : Bytes := List.replicate 12 0

def putBe16 (v : UInt16) : Bytes := bigEndian 2 v.toNat

/-- `get_be16(b + off)`: `(p[0] << 8) | p[1]` in `int`, cast to 16 bits. -/
def getBe16 (b : Bytes) (off : Nat) : UInt16 :=
  UInt16.ofNat (((b.getD off 0).toNat <<< 8) ||| (b.getD (off + 1) 0).toNat)

/-- The bytes `[off, off + n)` of `b`. -/
def slice (b : Bytes) (off n : Nat) : Bytes := (b.drop off).take n

def prologue (version : UInt16) : Bytes := kProloguePrefix ++ decimal version.toNat

/-- What a handshake leaves behind. -/
structure NoiseResult where
  peerMachinePublic : Bytes32 := zero32
  protocolVersion : UInt16 := 0
  handshakeHash : Bytes32 := zero32
  /-- Server to client (`c2`). -/
  txKey : Bytes32 := zero32
  /-- Client to server (`c1`). -/
  rxKey : Bytes32 := zero32
  deriving DecidableEq

section Blocks

variable (C : Crypto)

def blake2s256 (input : Bytes) : NoiseM Bytes32 := do
  record (.hashed input)
  return C.blake2s256 input

def mixHash (h : Bytes32) (data : Bytes) : NoiseM Bytes32 := blake2s256 C (h.val ++ data)

/-- The 64 bytes of an HKDF output as two keys. -/
def splitPair (out : Bytes) : Bytes32 × Bytes32 := (bytes32 (slice out 0 32), bytes32 (slice out 32 32))

/-- `mix_dh`: the new `(ck, k)`, `none` where it returns `false`. -/
def mixDh (ck priv pub : Bytes32) : Option (Bytes32 × Bytes32) :=
  (C.x25519Shared priv pub).map fun shared => splitPair (hkdfBlake2s C shared ck 64)

/-- `encrypt_and_hash` into a span of `n` bytes. -/
def encryptAndHash (h k : Bytes32) (n : Nat) (plaintext : Bytes) : NoiseM (Bytes × Bytes32) := do
  record (.sealed k nonce0 h plaintext)
  let ct := C.aeadSeal k nonce0 h plaintext
  if ct.length ≠ n then
    throw (.thrown "encrypt_and_hash size")
  let h ← mixHash C h ct
  return (ct, h)

/-- `decrypt_and_hash` into a span of `n` bytes; `error` is what the caller reports where it
    returns `false`. -/
def decryptAndHash (h k : Bytes32) (n : Nat) (ciphertext : Bytes) (error : String) :
    NoiseM (Bytes × Bytes32) := do
  record (.opened k nonce0 h ciphertext)
  let some pt := C.aeadOpen k nonce0 h ciphertext | throw (.returned error)
  if pt.length ≠ n then
    throw (.returned error)
  let h ← mixHash C h ciphertext
  return (pt, h)

/-- `mix_dh` where the caller returns `false` with `error`. -/
def mixDhOr (err : NoiseErr) (ck priv pub : Bytes32) : NoiseM (Bytes32 × Bytes32) :=
  match mixDh C ck priv pub with
  | some p => return p
  | none => throw err

/-- `split_keys`: `(c1, c2)`. -/
def splitKeys (ck : Bytes32) : Bytes32 × Bytes32 := splitPair (hkdfBlake2s C [] ck 64)

def initialHash : NoiseM Bytes32 := blake2s256 C kProtocolName

end Blocks

/-! ## 3. The three handshake functions -/

/-- `noise_server_handshake`. The response buffer is filled front to back in the source: type,
    length, ephemeral key, then the 16-byte tag. -/
def noiseServerHandshake (C : Crypto) (controlPrivate controlEph : Bytes32) (init : Bytes) :
    NoiseM (Bytes × NoiseResult) := do
  if init.length ≠ kInitiationLen then
    throw (.returned "wrong handshake initiation size")
  let version := getBe16 init 0
  if init.getD 2 0 ≠ kMsgInitiation then
    throw (.returned "unexpected handshake message type")
  if getBe16 init 3 ≠ 96 then
    throw (.returned "wrong handshake initiation length")
  let h ← initialHash C
  let ck := h
  let h ← mixHash C h (prologue version)
  let controlPub := C.x25519Public controlPrivate
  let h ← mixHash C h controlPub
  let machineEph := bytes32 (slice init kInitHeaderLen 32)
  let h ← mixHash C h machineEph
  let (ck, k) ← mixDhOr C (.returned "computing es") ck controlPrivate machineEph
  let (pt, h) ← decryptAndHash C h k 32 (slice init (kInitHeaderLen + 32) 48) "decrypting machine key"
  let machineKey := bytes32 pt
  let (ck, k) ← mixDhOr C (.returned "computing ss") ck controlPrivate machineKey
  let (_, h) ← decryptAndHash C h k 0 (slice init (kInitHeaderLen + 32 + 48) 16)
    "decrypting initiation tag"
  let controlEphPub := C.x25519Public controlEph
  let h ← mixHash C h controlEphPub
  let (ck, _) ← mixDhOr C (.returned "computing ee") ck controlEph machineEph
  let (ck, k) ← mixDhOr C (.returned "computing se") ck controlEph machineKey
  let (tag, h) ← encryptAndHash C h k 16 []
  let (c1, c2) := splitKeys C ck
  return ([kMsgResponse] ++ putBe16 48 ++ controlEphPub.val ++ tag,
    { peerMachinePublic := machineKey, protocolVersion := version, handshakeHash := h,
      txKey := c2, rxKey := c1 })

/-- `noise_client_init`: the initiation, and the `h`, `ck` it leaves to `noise_client_finish`. -/
def noiseClientInit (C : Crypto) (machinePrivate controlPublic : Bytes32) (protocolVersion : UInt16)
    (ephemeralPriv : Bytes32) : NoiseM (Bytes × Bytes32 × Bytes32) := do
  let h ← initialHash C
  let ck := h
  let h ← mixHash C h (prologue protocolVersion)
  let h ← mixHash C h controlPublic
  let ephPub := C.x25519Public ephemeralPriv
  let h ← mixHash C h ephPub
  let (ck, k) ← mixDhOr C (.thrown "client es") ck ephemeralPriv controlPublic
  let machinePub := C.x25519Public machinePrivate
  let (ct, h) ← encryptAndHash C h k 48 machinePub
  let (ck, k) ← mixDhOr C (.thrown "client ss") ck machinePrivate controlPublic
  let (tag, h) ← encryptAndHash C h k 16 []
  return (putBe16 protocolVersion ++ [kMsgInitiation] ++ putBe16 96 ++ ephPub.val ++ ct ++ tag, h, ck)

/-- `noise_client_finish`, from the `h`, `ck` of `noise_client_init`; `out` is the result record
    the caller passes in. -/
def noiseClientFinish (C : Crypto) (machinePrivate ephemeralPriv : Bytes32) (response : Bytes)
    (h ck : Bytes32) (out : NoiseResult) : NoiseM NoiseResult := do
  if response.length ≠ kResponseLen ∨ response.getD 0 0 ≠ kMsgResponse ∨ getBe16 response 1 ≠ 48 then
    throw (.returned "bad handshake response")
  let controlEphPub := bytes32 (slice response kHeaderLen 32)
  let h ← mixHash C h controlEphPub
  let (ck, _) ← mixDhOr C (.returned "computing ee") ck ephemeralPriv controlEphPub
  let (ck, k) ← mixDhOr C (.returned "computing se") ck machinePrivate controlEphPub
  let (_, h) ← decryptAndHash C h k 0 (slice response (kHeaderLen + 32) 16) "decrypting payload"
  let (c1, c2) := splitKeys C ck
  return { out with protocolVersion := 0, handshakeHash := h, txKey := c1, rxKey := c2 }

/-! ## 4. The bytes of the messages -/

theorem getBe16_pair (a b : UInt8) (rest : Bytes) :
    (getBe16 (a :: b :: rest) 0).toNat = a.toNat * 256 + b.toNat := by
  have ha := a.toNat_lt
  have hb := b.toNat_lt
  simp only [getBe16, List.getD_cons_zero, Nat.zero_add, List.getD_cons_succ,
    ← Nat.shiftLeft_add_eq_or_of_lt (show b.toNat < 2 ^ 8 from hb)]
  rw [UInt16.toNat_ofNat_of_lt' (by simp only [UInt16.size, Nat.shiftLeft_eq]; omega),
    Nat.shiftLeft_eq]

theorem getBe16_drop (b : Bytes) (off : Nat) : getBe16 b off = getBe16 (b.drop off) 0 := by
  simp [getBe16, List.getD_eq_getElem?_getD, List.getElem?_drop]

theorem putBe16_eq (v : UInt16) :
    putBe16 v = [UInt8.ofNat (v.toNat / 256), UInt8.ofNat v.toNat] := rfl

/-- **`get_be16` reads what `put_be16` wrote.** -/
theorem getBe16_putBe16 (v : UInt16) (rest : Bytes) : getBe16 (putBe16 v ++ rest) 0 = v := by
  have hv := v.toNat_lt
  refine UInt16.toNat_inj.mp ?_
  rw [putBe16_eq]
  show (getBe16 (_ :: _ :: rest) 0).toNat = _
  rw [getBe16_pair]
  simp only [UInt8.toNat_ofNat', Nat.reducePow]
  omega

/-- Two bytes are what `put_be16` writes for the number `get_be16` reads there. -/
theorem putBe16_getBe16 (a b : UInt8) (rest : Bytes) :
    putBe16 (getBe16 (a :: b :: rest) 0) = [a, b] := by
  have ha := a.toNat_lt
  have hb := b.toNat_lt
  rw [putBe16_eq, getBe16_pair]
  refine List.cons_eq_cons.mpr ⟨?_, List.cons_eq_cons.mpr ⟨?_, rfl⟩⟩
  · refine UInt8.toNat_inj.mp ?_
    simp only [UInt8.toNat_ofNat', Nat.reducePow]
    omega
  · refine UInt8.toNat_inj.mp ?_
    simp only [UInt8.toNat_ofNat', Nat.reducePow]
    omega

theorem slice_append_left {a b : Bytes} {n : Nat} (h : a.length = n) : slice (a ++ b) 0 n = a := by
  simp [slice, ← h]

theorem slice_append_right {a b : Bytes} {off n : Nat} (h : a.length ≤ off) :
    slice (a ++ b) off n = slice b (off - a.length) n := by
  simp [slice, List.drop_append, List.drop_of_length_le h]

theorem prologue_injective {v w : UInt16} (h : prologue v = prologue w) : v = w :=
  UInt16.toNat_inj.mp (decimal_injective (List.append_cancel_left h))

end Wirebone
