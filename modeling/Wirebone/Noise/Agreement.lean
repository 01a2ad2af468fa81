/-
  File:      Wirebone/Noise/Agreement.lean
  Subject:   THE HANDSHAKE COMPLETES, AND AGREES UNDER TAMPERING.

  * `noiseServerHandshake_ok`, `noiseClientInit_ok`, `noiseClientFinish_ok` -- when each function
    succeeds, with what, and which calls it has recorded then: the only place the code of the
    handshake is unfolded;
  * `Transcript` -- the blocks both sides absorb, as slices of the initiation message;
  * **`handshake_completes`** -- an honest client and server end with mirrored keys, one hash, the
    client's machine key and version at the server;
  * **`handshake_agrees`** -- whatever reached the server in place of the initiation, a client
    that accepts the answer sent exactly these 101 bytes, and both ends agree.
-/
import Wirebone.Lib.HashChain
import Wirebone.Noise.Handshake

namespace Wirebone

open ByteString HashChain

/-! ## 1. What the building blocks do -/

section Runs

variable {α β : Type} {C : Crypto} {l : List Call}

/-- A sequence of handshake code succeeds exactly when its parts do. -/
theorem bind_ok {x : NoiseM α} {f : α → NoiseM β} {r : β × List Call} :
    (x >>= f).run l = .ok r ↔ ∃ a l', x.run l = .ok (a, l') ∧ (f a).run l' = .ok r := by
  rw [StateT.run_bind]
  cases h : x.run l with
  | error e =>
    refine ⟨fun hr => ?_, fun ⟨_, _, hx, _⟩ => ?_⟩
    · cases hr
    · cases hx
  | ok p =>
    obtain ⟨a, l'⟩ := p
    refine ⟨fun hr => ⟨a, l', rfl, hr⟩, fun ⟨a', l'', hx, hr⟩ => ?_⟩
    cases hx
    exact hr

theorem return_ok {a : α} {r : α × List Call} :
    (pure a : NoiseM α).run l = .ok r ↔ r = (a, l) :=
  ⟨fun h => (Except.ok.inj h).symm, fun h => h ▸ rfl⟩

theorem throw_ok {e : NoiseErr} {r : α × List Call} :
    (throw e : NoiseM α).run l = .ok r ↔ False :=
  ⟨fun h => (nomatch (show (Except.error e : Except NoiseErr _) = .ok r from h)), False.elim⟩

theorem record_ok {c : Call} {r : Unit × List Call} :
    (record c).run l = .ok r ↔ r = ((), l ++ [c]) :=
  ⟨fun h => (Except.ok.inj h).symm, fun h => h ▸ rfl⟩

/-- A check of the source: it passes, or the function ends. -/
theorem check_ok {p : Prop} [Decidable p] {e : NoiseErr} {f : PUnit → NoiseM β} {x : NoiseM β}
    {r : β × List Call} :
    (if p then throw e >>= f else x : NoiseM β).run l = .ok r ↔ ¬ p ∧ x.run l = .ok r := by
  by_cases hp : p
  · rw [if_pos hp, bind_ok]
    exact ⟨fun ⟨_, _, h, _⟩ => (throw_ok.mp h).elim, fun h => absurd hp h.1⟩
  · rw [if_neg hp]
    exact ⟨fun h => ⟨hp, h⟩, fun h => h.2⟩

theorem mixHash_ok {h h' : Bytes32} {data : Bytes} {l' : List Call} :
    (mixHash C h data).run l = .ok (h', l') ↔
      h' = C.blake2s256 (h.val ++ data) ∧ l' = l ++ [.hashed (h.val ++ data)] := by
  refine ⟨fun hr => ?_, fun ⟨h1, h2⟩ => h1 ▸ h2 ▸ rfl⟩
  cases hr
  exact ⟨rfl, rfl⟩

theorem initialHash_ok {h : Bytes32} {l' : List Call} :
    (initialHash C).run l = .ok (h, l') ↔
      h = C.blake2s256 kProtocolName ∧ l' = l ++ [.hashed kProtocolName] := by
  refine ⟨fun hr => ?_, fun ⟨h1, h2⟩ => h1 ▸ h2 ▸ rfl⟩
  cases hr
  exact ⟨rfl, rfl⟩

theorem mixDhOr_ok {e : NoiseErr} {ck priv pub : Bytes32} {p : Bytes32 × Bytes32}
    {l' : List Call} :
    (mixDhOr C e ck priv pub).run l = .ok (p, l') ↔ mixDh C ck priv pub = some p ∧ l' = l := by
  unfold mixDhOr
  cases mixDh C ck priv pub with
  | none =>
    rw [throw_ok]
    exact ⟨False.elim, fun h => nomatch h.1⟩
  | some q =>
    rw [return_ok, Prod.mk.injEq, Option.some.injEq]
    exact ⟨fun ⟨h1, h2⟩ => ⟨h1.symm, h2⟩, fun ⟨h1, h2⟩ => ⟨h1.symm, h2⟩⟩

theorem encryptAndHash_ok {h k h' : Bytes32} {n : Nat} {pt ct : Bytes} {l' : List Call} :
    (encryptAndHash C h k n pt).run l = .ok ((ct, h'), l') ↔
      ct = C.aeadSeal k nonce0 h pt ∧ ct.length = n ∧ h' = C.blake2s256 (h.val ++ ct) ∧
        l' = l ++ [.sealed k nonce0 h pt, .hashed (h.val ++ ct)] := by
  unfold encryptAndHash
  simp only [bind_ok, record_ok, check_ok, mixHash_ok, return_ok, Decidable.not_not]
  constructor
  · rintro ⟨_, _, ⟨⟩, hlen, h', _, ⟨rfl, rfl⟩, ⟨⟩⟩
    exact ⟨rfl, hlen, rfl, List.append_assoc _ _ _⟩
  · rintro ⟨rfl, hlen, rfl, rfl⟩
    exact ⟨_, _, rfl, hlen, _, _, ⟨rfl, rfl⟩, by rw [List.append_assoc]; rfl⟩

theorem decryptAndHash_ok {h k h' : Bytes32} {n : Nat} {ct pt : Bytes} {e : String}
    {l' : List Call} :
    (decryptAndHash C h k n ct e).run l = .ok ((pt, h'), l') ↔
      C.aeadOpen k nonce0 h ct = some pt ∧ pt.length = n ∧ h' = C.blake2s256 (h.val ++ ct) ∧
        l' = l ++ [.opened k nonce0 h ct, .hashed (h.val ++ ct)] := by
  unfold decryptAndHash
  simp only [bind_ok, record_ok]
  cases hopen : C.aeadOpen k nonce0 h ct with
  | none =>
    constructor
    · rintro ⟨_, _, _, hr⟩
      exact (throw_ok.mp hr).elim
    · rintro ⟨ho, _⟩
      cases ho
  | some q =>
    simp only [check_ok, bind_ok, mixHash_ok, return_ok, Decidable.not_not]
    constructor
    · rintro ⟨_, _, ⟨⟩, hlen, h', _, ⟨rfl, rfl⟩, ⟨⟩⟩
      exact ⟨rfl, hlen, rfl, List.append_assoc _ _ _⟩
    · rintro ⟨⟨⟩, hlen, rfl, rfl⟩
      exact ⟨_, _, rfl, hlen, _, _, ⟨rfl, rfl⟩, by rw [List.append_assoc]; rfl⟩

end Runs

/-! ## 2. When the three functions succeed -/

section Functions

variable {C : Crypto}

/-- The transcript hash after the blocks `ds`. -/
def hashAfter (C : Crypto) (ds : List Bytes) : Bytes32 :=
  ds.foldl (fun h d => C.blake2s256 (h.val ++ d)) (C.blake2s256 kProtocolName)

/-- The inputs hashed on the way to `hashAfter C ds`, past the protocol name. -/
def inputsOf (C : Crypto) (ds : List Bytes) : List Bytes :=
  absorbed (fun x => (C.blake2s256 x).val) (C.blake2s256 kProtocolName).val ds

/-- The three blocks of an initiation before its first encrypted field: the prologue of its
    version, the control key, its ephemeral key. -/
def openBlocks (controlPub : Bytes32) (init : Bytes) : List Bytes :=
  [prologue (getBe16 init 0), controlPub, bytes32 (slice init kInitHeaderLen 32)]

/-- The encrypted static key of an initiation. -/
def staticField (init : Bytes) : Bytes := slice init (kInitHeaderLen + 32) 48

/-- The tag of the empty payload of an initiation. -/
def tagField (init : Bytes) : Bytes := slice init (kInitHeaderLen + 32 + 48) 16

/-- All blocks of an initiation. -/
def initBlocks (controlPub : Bytes32) (init : Bytes) : List Bytes :=
  openBlocks controlPub init ++ [staticField init, tagField init]

/-- **When the server accepts**, with its answer, its result and the calls it has made. -/
theorem noiseServerHandshake_ok {controlPrivate controlEph : Bytes32} {init resp : Bytes}
    {S : NoiseResult} {log : List Call} :
    (noiseServerHandshake C controlPrivate controlEph init).run [] = .ok ((resp, S), log) ↔
      init.length = kInitiationLen ∧ init.getD 2 0 = kMsgInitiation ∧ getBe16 init 3 = 96 ∧
        let eph := bytes32 (slice init kInitHeaderLen 32)
        let pub := C.x25519Public controlPrivate
        let ephPub := C.x25519Public controlEph
        let h₃ := hashAfter C (openBlocks pub init)
        let h₄ := hashAfter C (openBlocks pub init ++ [staticField init])
        let h₅ := hashAfter C (initBlocks pub init)
        let h₆ := hashAfter C (initBlocks pub init ++ [ephPub.val])
        ∃ ck₁ k₁, mixDh C (hashAfter C []) controlPrivate eph = some (ck₁, k₁) ∧
        ∃ pt, C.aeadOpen k₁ nonce0 h₃ (staticField init) = some pt ∧ pt.length = 32 ∧
        ∃ ck₂ k₂, mixDh C ck₁ controlPrivate (bytes32 pt) = some (ck₂, k₂) ∧
        ∃ empty, C.aeadOpen k₂ nonce0 h₄ (tagField init) = some empty ∧ empty.length = 0 ∧
        ∃ ck₃ k₃, mixDh C ck₂ controlEph eph = some (ck₃, k₃) ∧
        ∃ ck₄ k₄, mixDh C ck₃ controlEph (bytes32 pt) = some (ck₄, k₄) ∧
        let tag := C.aeadSeal k₄ nonce0 h₆ []
        tag.length = 16 ∧ resp = [kMsgResponse] ++ putBe16 48 ++ ephPub.val ++ tag ∧
        S = { peerMachinePublic := bytes32 pt, protocolVersion := getBe16 init 0,
              handshakeHash := C.blake2s256 (h₆.val ++ tag),
              txKey := (splitKeys C ck₄).2, rxKey := (splitKeys C ck₄).1 } ∧
        log = [.hashed kProtocolName] ++ (inputsOf C (openBlocks pub init)).map .hashed ++
          [.opened k₁ nonce0 h₃ (staticField init), .hashed (h₃.val ++ staticField init),
           .opened k₂ nonce0 h₄ (tagField init), .hashed (h₄.val ++ tagField init),
           .hashed (h₅.val ++ ephPub.val), .sealed k₄ nonce0 h₆ [], .hashed (h₆.val ++ tag)] := by
  unfold noiseServerHandshake
  simp only [bind_ok, check_ok, initialHash_ok, mixHash_ok, mixDhOr_ok, decryptAndHash_ok,
    encryptAndHash_ok, return_ok, Prod.exists, Decidable.not_not, Prod.mk.injEq, and_assoc,
    exists_and_left, exists_eq_left]
  exact Iff.rfl

/-- The initiation a client sends, from the fields it has computed. -/
def initMessage (version : UInt16) (ephPub : Bytes32) (ct tag : Bytes) : Bytes :=
  putBe16 version ++ [kMsgInitiation] ++ putBe16 96 ++ ephPub.val ++ ct ++ tag

/-- **What the client sends first**, with the state it keeps and the calls it has made. -/
theorem noiseClientInit_ok {machinePrivate controlPublic ephemeralPriv : Bytes32}
    {version : UInt16} {init : Bytes} {h ck : Bytes32} {log : List Call} :
    (noiseClientInit C machinePrivate controlPublic version ephemeralPriv).run [] =
        .ok ((init, h, ck), log) ↔
      let ephPub := C.x25519Public ephemeralPriv
      let machinePub := C.x25519Public machinePrivate
      let ds := [prologue version, controlPublic.val, ephPub.val]
      let h₃ := hashAfter C ds
      ∃ ck₁ k₁, mixDh C (hashAfter C []) ephemeralPriv controlPublic = some (ck₁, k₁) ∧
      let ct := C.aeadSeal k₁ nonce0 h₃ machinePub
      let h₄ := hashAfter C (ds ++ [ct])
      ct.length = 48 ∧
      ∃ ck₂ k₂, mixDh C ck₁ machinePrivate controlPublic = some (ck₂, k₂) ∧
      let tag := C.aeadSeal k₂ nonce0 h₄ []
      tag.length = 16 ∧ init = initMessage version ephPub ct tag ∧
      h = hashAfter C (ds ++ [ct, tag]) ∧ ck = ck₂ ∧
      log = [.hashed kProtocolName] ++ (inputsOf C ds).map .hashed ++
        [.sealed k₁ nonce0 h₃ machinePub, .hashed (h₃.val ++ ct), .sealed k₂ nonce0 h₄ [],
         .hashed (h₄.val ++ tag)] := by
  unfold noiseClientInit
  simp only [bind_ok, initialHash_ok, mixHash_ok, mixDhOr_ok, encryptAndHash_ok, return_ok,
    Prod.exists, Prod.mk.injEq, and_assoc, exists_and_left, exists_eq_left]
  exact Iff.rfl

/-- **When the client accepts the answer**, from any `h` and `ck`. -/
theorem noiseClientFinish_ok {machinePrivate ephemeralPriv ck : Bytes32} (h : Bytes32)
    {resp : Bytes} (out : NoiseResult) {R : NoiseResult} {log : List Call} :
    (noiseClientFinish C machinePrivate ephemeralPriv resp h ck out).run [] = .ok (R, log) ↔
      (resp.length = kResponseLen ∧ resp.getD 0 0 = kMsgResponse ∧ getBe16 resp 1 = 48) ∧
        let ephPub := bytes32 (slice resp kHeaderLen 32)
        let tag := slice resp (kHeaderLen + 32) 16
        let h₆ := C.blake2s256 (h.val ++ ephPub.val)
        ∃ ck₃ k₃, mixDh C ck ephemeralPriv ephPub = some (ck₃, k₃) ∧
        ∃ ck₄ k₄, mixDh C ck₃ machinePrivate ephPub = some (ck₄, k₄) ∧
        ∃ empty, C.aeadOpen k₄ nonce0 h₆ tag = some empty ∧ empty.length = 0 ∧
        R = { out with protocolVersion := 0, handshakeHash := C.blake2s256 (h₆.val ++ tag),
                       txKey := (splitKeys C ck₄).1, rxKey := (splitKeys C ck₄).2 } ∧
        log = [.hashed (h.val ++ ephPub.val), .opened k₄ nonce0 h₆ tag,
          .hashed (h₆.val ++ tag)] := by
  unfold noiseClientFinish
  simp only [bind_ok, check_ok, mixHash_ok, mixDhOr_ok, decryptAndHash_ok, return_ok, Prod.exists,
    Prod.mk.injEq, and_assoc, exists_and_left, exists_eq_left, not_or, Decidable.not_not]
  exact Iff.rfl

end Functions

/-! ## 3. The fields of the two messages -/

section Messages

variable (version : UInt16) (ephPub : Bytes32) {ct tag : Bytes}

/-- The blocks both sides absorb for an initiation with these fields. -/
def blocksOf (version : UInt16) (controlPub ephPub : Bytes32) (ct tag : Bytes) : List Bytes :=
  [prologue version, controlPub, ephPub, ct, tag]

/-- What the server reads out of the initiation the client wrote. -/
theorem initMessage_fields (hct : ct.length = 48) (htag : tag.length = 16) :
    (initMessage version ephPub ct tag).length = kInitiationLen ∧
      (initMessage version ephPub ct tag).getD 2 0 = kMsgInitiation ∧
      getBe16 (initMessage version ephPub ct tag) 3 = 96 ∧
      getBe16 (initMessage version ephPub ct tag) 0 = version ∧
      bytes32 (slice (initMessage version ephPub ct tag) kInitHeaderLen 32) = ephPub ∧
      staticField (initMessage version ephPub ct tag) = ct ∧
      tagField (initMessage version ephPub ct tag) = tag := by
  obtain ⟨eph, heph⟩ := ephPub
  have hmsg : initMessage version ⟨eph, heph⟩ ct tag =
      putBe16 version ++ ([kMsgInitiation] ++ (putBe16 96 ++ (eph ++ (ct ++ tag)))) := by
    simp only [initMessage, List.append_assoc]
  have hput : ∀ v : UInt16, (putBe16 v).length = 2 := fun v => bigEndian_length 2 v.toNat
  rw [hmsg]
  refine ⟨?_, rfl, ?_, getBe16_putBe16 _ _, Subtype.ext ?_, ?_, ?_⟩
  · simp only [List.length_append, hput, heph, hct, htag, List.length_cons, List.length_nil]
    rfl
  · rw [getBe16_drop]
    exact getBe16_putBe16 96 _
  · have hsl : slice (putBe16 version ++ ([kMsgInitiation] ++ (putBe16 96 ++ (eph ++ (ct ++ tag)))))
        kInitHeaderLen 32 = slice (eph ++ (ct ++ tag)) 0 32 := rfl
    rw [hsl, slice_append_left heph]
    exact bytes32_val heph
  · have hsl : staticField (putBe16 version ++ ([kMsgInitiation] ++ (putBe16 96 ++
        (eph ++ (ct ++ tag))))) = slice (eph ++ (ct ++ tag)) 32 48 := rfl
    rw [hsl, slice_append_right (le_of_eq heph), heph, slice_append_left hct]
  · have hsl : tagField (putBe16 version ++ ([kMsgInitiation] ++ (putBe16 96 ++
        (eph ++ (ct ++ tag))))) = slice (eph ++ (ct ++ tag)) 80 16 := rfl
    rw [hsl, slice_append_right (by omega), slice_append_right (by omega), heph, hct]
    have h := slice_append_left (a := tag) (b := []) htag
    rwa [List.append_nil] at h

/-- The server absorbs the blocks the client absorbed. -/
theorem blocks_initMessage (controlPub : Bytes32) (hct : ct.length = 48) (htag : tag.length = 16) :
    openBlocks controlPub (initMessage version ephPub ct tag) =
        [prologue version, controlPub.val, ephPub.val] ∧
      initBlocks controlPub (initMessage version ephPub ct tag) =
        blocksOf version controlPub ephPub ct tag := by
  obtain ⟨_, _, _, hver, heph, hstat, htagf⟩ := initMessage_fields version ephPub hct htag
  have hopen : openBlocks controlPub (initMessage version ephPub ct tag) =
      [prologue version, controlPub.val, ephPub.val] := by rw [openBlocks, hver, heph]
  refine ⟨hopen, ?_⟩
  rw [initBlocks, hopen, hstat, htagf]
  rfl

/-- An accepted initiation is determined by its fields: type and length are checked literally,
    the version is read from the two bytes that hold it, the rest is cut at fixed offsets. -/
theorem eq_initMessage {init : Bytes} (hlen : init.length = kInitiationLen)
    (htype : init.getD 2 0 = kMsgInitiation) (hsize : getBe16 init 3 = 96) :
    init = initMessage (getBe16 init 0) (bytes32 (slice init kInitHeaderLen 32))
      (staticField init) (tagField init) := by
  match init with
  | [] | [_] | [_, _] | [_, _, _] | [_, _, _, _] => cases hlen
  | b0 :: b1 :: b2 :: b3 :: b4 :: rest =>
    have hrest : rest.length = 96 := by simpa [kInitiationLen] using hlen
    have h2 : b2 = kMsgInitiation := htype
    have h34 : [b3, b4] = putBe16 96 := by
      rw [← hsize, getBe16_drop]
      exact (putBe16_getBe16 b3 b4 rest).symm
    have heph : (bytes32 (slice (b0 :: b1 :: b2 :: b3 :: b4 :: rest) kInitHeaderLen 32)).val =
        rest.take 32 := bytes32_val (by simp [slice, kInitHeaderLen, hrest])
    have hct : staticField (b0 :: b1 :: b2 :: b3 :: b4 :: rest) = (rest.drop 32).take 48 := rfl
    have htag : tagField (b0 :: b1 :: b2 :: b3 :: b4 :: rest) = (rest.drop 80).take 16 := rfl
    have hsplit : rest.take 32 ++ (rest.drop 32).take 48 ++ (rest.drop 80).take 16 = rest := by
      rw [List.take_of_length_le (show (rest.drop 80).length ≤ 16 by simp [hrest]),
        List.append_assoc, show rest.drop 80 = (rest.drop 32).drop 48 by simp,
        List.take_append_drop, List.take_append_drop]
    rw [initMessage, putBe16_getBe16, heph, hct, htag, ← h34, ← h2]
    calc b0 :: b1 :: b2 :: b3 :: b4 :: rest
        = [b0, b1] ++ [b2] ++ [b3, b4] ++ rest := rfl
      _ = _ := by
        rw [List.append_assoc _ (rest.take 32), List.append_assoc _ _ ((rest.drop 80).take 16),
          hsplit]

/-- What the client reads out of the server's answer. -/
theorem response_fields {resp : Bytes} (htag : tag.length = 16)
    (hresp : resp = [kMsgResponse] ++ putBe16 48 ++ ephPub.val ++ tag) :
    (resp.length = kResponseLen ∧ resp.getD 0 0 = kMsgResponse ∧ getBe16 resp 1 = 48) ∧
      bytes32 (slice resp kHeaderLen 32) = ephPub ∧ slice resp (kHeaderLen + 32) 16 = tag := by
  obtain ⟨eph, heph⟩ := ephPub
  have hmsg : resp = [kMsgResponse] ++ (putBe16 48 ++ (eph ++ tag)) := by
    simp only [hresp, List.append_assoc]
  subst hmsg
  refine ⟨⟨?_, rfl, ?_⟩, Subtype.ext ?_, ?_⟩
  · simp only [List.length_append, putBe16, bigEndian_length, heph, htag, List.length_cons,
      List.length_nil]
    rfl
  · rw [getBe16_drop]
    exact getBe16_putBe16 48 _
  · have hsl : slice ([kMsgResponse] ++ (putBe16 48 ++ (eph ++ tag))) kHeaderLen 32 =
        slice (eph ++ tag) 0 32 := rfl
    rw [hsl, slice_append_left heph]
    exact bytes32_val heph
  · have hsl : slice ([kMsgResponse] ++ (putBe16 48 ++ (eph ++ tag))) (kHeaderLen + 32) 16 =
        slice (eph ++ tag) 32 16 := rfl
    rw [hsl, slice_append_right (le_of_eq heph), heph]
    have h := slice_append_left (a := tag) (b := []) htag
    rwa [List.append_nil] at h

end Messages

/-! ## 4. What is assumed of the primitives -/

section Assumptions

variable (C : Crypto)

/-- X25519 commutes. -/
def Crypto.DhCommutes : Prop :=
  ∀ a b, C.x25519Shared a (C.x25519Public b) = C.x25519Shared b (C.x25519Public a)

/-- The inputs hashed in a run. -/
def hashes (calls : List Call) : List Bytes :=
  calls.filterMap fun c => match c with | .hashed x => some x | _ => none

/-- BLAKE2s has no collision among the inputs hashed in a run. -/
def Crypto.HashesApart (calls : List Call) : Prop :=
  NoCollision (fun x => (C.blake2s256 x).val) (hashes calls) (hashes calls)

/-- An open of a run against a seal of it: what was sealed opens only under the key, nonce and
    associated data it was sealed with, and then to the plaintext sealed. -/
def Crypto.Binds : Call → Call → Prop
  | .opened k n ad ct, .sealed k' n' ad' p =>
    ct = C.aeadSeal k' n' ad' p → C.aeadOpen k n ad ct = none ∨
      (k = k' ∧ n = n' ∧ ad = ad' ∧ C.aeadOpen k n ad ct = some p)
  | _, _ => True

/-- Every open of a run against every seal of it. -/
def Crypto.AeadBinds (calls : List Call) : Prop := ∀ c ∈ calls, ∀ d ∈ calls, C.Binds c d

instance : (c d : Call) → Decidable (C.Binds c d)
  | .opened k n ad ct, .sealed k' n' ad' p =>
    inferInstanceAs (Decidable (ct = C.aeadSeal k' n' ad' p → C.aeadOpen k n ad ct = none ∨
      (k = k' ∧ n = n' ∧ ad = ad' ∧ C.aeadOpen k n ad ct = some p)))
  | .hashed _, _ => isTrue trivial
  | .sealed _ _ _ _, _ => isTrue trivial
  | .opened _ _ _ _, .hashed _ => isTrue trivial
  | .opened _ _ _ _, .opened _ _ _ _ => isTrue trivial

instance (calls : List Call) : Decidable (C.HashesApart calls) :=
  inferInstanceAs (Decidable (∀ x ∈ hashes calls, ∀ y ∈ hashes calls,
    (C.blake2s256 x).val = (C.blake2s256 y).val → x = y))

instance (calls : List Call) : Decidable (C.AeadBinds calls) :=
  inferInstanceAs (Decidable (∀ c ∈ calls, ∀ d ∈ calls, C.Binds c d))

variable {C}

theorem mixDh_comm (h : C.DhCommutes) (ck a b : Bytes32) :
    mixDh C ck a (C.x25519Public b) = mixDh C ck b (C.x25519Public a) := by
  rw [mixDh, h a b, mixDh]

theorem mixDh_some (ck : Bytes32) {a b : Bytes32} (h : (C.x25519Shared a b).isSome) :
    ∃ ck' k, mixDh C ck a b = some (ck', k) := by
  obtain ⟨s, hs⟩ := Option.isSome_iff_exists.mp h
  exact ⟨_, _, by rw [mixDh, hs]; rfl⟩

theorem mem_hashes {calls : List Call} {x : Bytes} : x ∈ hashes calls ↔ .hashed x ∈ calls := by
  simp only [hashes, List.mem_filterMap]
  constructor
  · rintro ⟨c, hc, hx⟩
    cases c with
    | hashed y => cases hx; exact hc
    | sealed => cases hx
    | opened => cases hx
  · exact fun h => ⟨_, h, rfl⟩

theorem Crypto.AeadBinds.eq {calls : List Call} (h : C.AeadBinds calls) {k k' : Bytes32}
    {n n' ad ad' p q : Bytes} (ho : .opened k n ad (C.aeadSeal k' n' ad' p) ∈ calls)
    (hs : .sealed k' n' ad' p ∈ calls)
    (hq : C.aeadOpen k n ad (C.aeadSeal k' n' ad' p) = some q) : k = k' ∧ ad = ad' ∧ q = p := by
  rcases h _ ho _ hs rfl with hnone | ⟨hk, _, had, hp⟩
  · rw [hnone] at hq
    cases hq
  · exact ⟨hk, had, Option.some.inj (hq.symm.trans hp)⟩

theorem hashAfter_val (ds : List Bytes) :
    (hashAfter C ds).val =
      absorb (fun x => (C.blake2s256 x).val) (C.blake2s256 kProtocolName).val ds := by
  unfold hashAfter
  generalize C.blake2s256 kProtocolName = h
  induction ds generalizing h with
  | nil => rfl
  | cons d ds ih => exact ih _

theorem hashAfter_concat (ds : List Bytes) (d : Bytes) :
    hashAfter C (ds ++ [d]) = C.blake2s256 ((hashAfter C ds).val ++ d) := by
  simp [hashAfter, List.foldl_append]

end Assumptions

/-! ## 5. Completeness -/

/-- **An honest handshake completes**, for all four key pairs and every version. -/
theorem handshake_completes (C : Crypto) (hdh : C.DhCommutes) (haead : C.AeadInverts)
    (machinePrivate controlPrivate clientEph controlEph : Bytes32) (version : UInt16)
    (out : NoiseResult)
    (hes : (C.x25519Shared clientEph (C.x25519Public controlPrivate)).isSome)
    (hss : (C.x25519Shared machinePrivate (C.x25519Public controlPrivate)).isSome)
    (hee : (C.x25519Shared clientEph (C.x25519Public controlEph)).isSome)
    (hse : (C.x25519Shared machinePrivate (C.x25519Public controlEph)).isSome) :
    ∃ init h ck resp S R logI logS logF,
      (noiseClientInit C machinePrivate (C.x25519Public controlPrivate) version clientEph).run [] =
        .ok ((init, h, ck), logI) ∧ init.length = 101 ∧
      (noiseServerHandshake C controlPrivate controlEph init).run [] = .ok ((resp, S), logS) ∧
      resp.length = 51 ∧
      (noiseClientFinish C machinePrivate clientEph resp h ck out).run [] = .ok (R, logF) ∧
      R.txKey = S.rxKey ∧ R.rxKey = S.txKey ∧ R.handshakeHash = S.handshakeHash ∧
      S.peerMachinePublic = C.x25519Public machinePrivate ∧ S.protocolVersion = version := by
  obtain ⟨ck₁, k₁, h1⟩ := mixDh_some (hashAfter C []) hes
  obtain ⟨ck₂, k₂, h2⟩ := mixDh_some ck₁ hss
  obtain ⟨ck₃, k₃, h3⟩ := mixDh_some ck₂ hee
  obtain ⟨ck₄, k₄, h4⟩ := mixDh_some ck₃ hse
  -- the client's two encrypted fields, and what the server will make of them
  generalize hct : C.aeadSeal k₁ nonce0 (hashAfter C [prologue version,
    (C.x25519Public controlPrivate).val, (C.x25519Public clientEph).val])
    (C.x25519Public machinePrivate) = ct
  generalize htag : C.aeadSeal k₂ nonce0 (hashAfter C ([prologue version,
    (C.x25519Public controlPrivate).val, (C.x25519Public clientEph).val] ++ [ct])) [] = tag
  have hctlen : ct.length = 48 := by rw [← hct, haead.tag, (C.x25519Public machinePrivate).2]
  have htaglen : tag.length = 16 := by rw [← htag, haead.tag]; rfl
  have hinit := noiseClientInit_ok.mpr ⟨ck₁, k₁, h1, hct ▸ hctlen, ck₂, k₂, h2,
    by rw [hct, htag]; exact htaglen, rfl, rfl, rfl, rfl⟩
  simp only [hct, htag] at hinit
  obtain ⟨hlen, htype, hsize, hver, heph, hstat, htagf⟩ :=
    initMessage_fields version (C.x25519Public clientEph) hctlen htaglen
  obtain ⟨hopen, hblocks⟩ := blocks_initMessage version (C.x25519Public clientEph)
    (C.x25519Public controlPrivate) hctlen htaglen
  generalize initMessage version (C.x25519Public clientEph) ct tag = init at *
  -- the server's four DH mixes are the client's, its two opens invert the client's seals
  have hserver := noiseServerHandshake_ok.mpr ⟨hlen, htype, hsize, ck₁, k₁,
    by rw [heph, mixDh_comm hdh]; exact h1, (C.x25519Public machinePrivate).val,
    by rw [hstat, hopen, ← hct]; exact haead.opens _ _ _ _, (C.x25519Public machinePrivate).2,
    ck₂, k₂, by rw [bytes32_coe, mixDh_comm hdh]; exact h2, [],
    by rw [hstat, htagf, hopen, ← htag]; exact haead.opens _ _ _ _, rfl,
    ck₃, k₃, by rw [heph, mixDh_comm hdh]; exact h3,
    ck₄, k₄, by rw [bytes32_coe, mixDh_comm hdh]; exact h4,
    by rw [haead.tag]; rfl, rfl, rfl, rfl⟩
  generalize hrtag : C.aeadSeal k₄ nonce0 (hashAfter C (initBlocks (C.x25519Public controlPrivate)
    init ++ [(C.x25519Public controlEph).val])) [] = rtag at hserver
  have hrlen : rtag.length = 16 := by rw [← hrtag, haead.tag]; rfl
  obtain ⟨hhead, hcep, hrt⟩ := response_fields (C.x25519Public controlEph) hrlen rfl
  -- both sides have absorbed the same blocks up to the answer
  have hh : hashAfter C (initBlocks (C.x25519Public controlPrivate) init) = hashAfter C
      ([prologue version, (C.x25519Public controlPrivate).val, (C.x25519Public clientEph).val] ++
        [ct, tag]) := congrArg (hashAfter C) hblocks
  rw [← hh] at hinit
  have hh6 := hashAfter_concat (C := C) (initBlocks (C.x25519Public controlPrivate) init)
    (C.x25519Public controlEph).val
  have hfinish := (noiseClientFinish_ok (hashAfter C (initBlocks (C.x25519Public controlPrivate)
    init)) out).mpr ⟨hhead, ck₃, k₃, by rw [hcep]; exact h3, ck₄, k₄, by rw [hcep]; exact h4, [],
    by rw [hcep, hrt, ← hh6, ← hrtag]; exact haead.opens _ _ _ _, rfl, rfl, rfl⟩
  refine ⟨init, _, ck₂, _, _, _, _, _, _, hinit, hlen, hserver, hhead.1, hfinish, rfl, rfl, ?_,
    bytes32_coe _, hver⟩
  rw [hcep, hrt, ← hh6]

/-- The honest handshake of the sample primitives, on four fixed keys and version 131. -/
theorem handshake_completes_sample :
    ∃ init h ck resp S R logI logS logF,
      (noiseClientInit .sample (bytes32 [1]) (bytes32 [2]) 131 (bytes32 [3])).run [] =
        .ok ((init, h, ck), logI) ∧ init.length = 101 ∧
      (noiseServerHandshake .sample (bytes32 [2]) (bytes32 [4]) init).run [] =
        .ok ((resp, S), logS) ∧ resp.length = 51 ∧
      (noiseClientFinish .sample (bytes32 [1]) (bytes32 [3]) resp h ck {}).run [] = .ok (R, logF) ∧
      R.txKey = S.rxKey ∧ R.rxKey = S.txKey ∧ R.handshakeHash = S.handshakeHash ∧
      S.peerMachinePublic = bytes32 [1] ∧ S.protocolVersion = 131 :=
  handshake_completes .sample (fun a b => congrArg some (add32_comm a b))
    ⟨sampleOpen_seal, sampleSeal_length⟩ (bytes32 [1]) (bytes32 [2]) (bytes32 [3]) (bytes32 [4]) 131
    {} rfl rfl rfl rfl

/-! ## 6. Agreement -/

theorem inputsOf_concat (C : Crypto) (ds : List Bytes) (d : Bytes) :
    inputsOf C (ds ++ [d]) = inputsOf C ds ++ [(hashAfter C ds).val ++ d] := by
  rw [inputsOf, inputsOf, hashAfter_val]
  generalize (C.blake2s256 kProtocolName).val = h
  induction ds generalizing h with
  | nil => rfl
  | cons e ds ih =>
    simp only [List.cons_append, absorbed_cons, absorb_cons, ih]

/-- Equal transcript hashes of equally many blocks come from equal blocks. -/
theorem hashAfter_inj {C : Crypto} {calls : List Call} (hap : C.HashesApart calls)
    {ds ds' : List Bytes} (hds : ∀ x ∈ inputsOf C ds, .hashed x ∈ calls)
    (hds' : ∀ x ∈ inputsOf C ds', .hashed x ∈ calls) (hlen : ds.length = ds'.length)
    (h : hashAfter C ds = hashAfter C ds') : ds = ds' := by
  refine (absorb_inj (fun x => (C.blake2s256 x).val) (fun x => (C.blake2s256 x).2)
    (C.blake2s256 kProtocolName).2 (C.blake2s256 kProtocolName).2 ?_ hlen ?_).2
  · exact hap.mono _ (fun x hx => mem_hashes.mpr (hds x hx))
      (fun x hx => mem_hashes.mpr (hds' x hx))
  · rw [← hashAfter_val, ← hashAfter_val, h]

/-- **Agreement against tampering.** Whatever 101 bytes reached the server in place of the
    client's initiation: if the server answered and the client accepts the answer, the server
    was given the client's bytes, and the two ends agree on everything. -/
theorem handshake_agrees (C : Crypto) (hdh : C.DhCommutes)
    (machinePrivate controlPrivate clientEph controlEph : Bytes32) (version : UInt16)
    (init init' resp : Bytes) (h ck : Bytes32) (S R out : NoiseResult)
    (logI logS logF : List Call)
    (hI : (noiseClientInit C machinePrivate (C.x25519Public controlPrivate) version clientEph).run
      [] = .ok ((init, h, ck), logI))
    (hS : (noiseServerHandshake C controlPrivate controlEph init').run [] = .ok ((resp, S), logS))
    (hF : (noiseClientFinish C machinePrivate clientEph resp h ck out).run [] = .ok (R, logF))
    (hap : C.HashesApart (logI ++ logS ++ logF)) (hbind : C.AeadBinds (logI ++ logS ++ logF)) :
    init' = init ∧ R.handshakeHash = S.handshakeHash ∧ R.txKey = S.rxKey ∧ R.rxKey = S.txKey ∧
      S.protocolVersion = version ∧ S.peerMachinePublic = C.x25519Public machinePrivate := by
  obtain ⟨ck₁, k₁, hes, hctlen, _, k₂, hss, htaglen, hinit, rfl, rfl, hlogI⟩ :=
    noiseClientInit_ok.mp hI
  obtain ⟨hlen, htype, hsize, ck₁', k₁', hes', pt, hpt, hptlen, ck₂', k₂', hss', _, _, _, ck₃', k₃',
    hee', ck₄', k₄', hse', hrlen, hresp, rfl, hlogS⟩ := noiseServerHandshake_ok.mp hS
  obtain ⟨_, ck₃, k₃, hee, ck₄, k₄, hse, _, hopen, _, rfl, hlogF⟩ :=
    (noiseClientFinish_ok _ out).mp hF
  obtain ⟨_, hcep, hrt⟩ := response_fields (C.x25519Public controlEph) hrlen hresp
  rw [hcep] at hee hse
  rw [hcep, hrt] at hopen hlogF
  generalize hct : C.aeadSeal k₁ nonce0 _ (C.x25519Public machinePrivate) = ct at *
  generalize htag : C.aeadSeal k₂ nonce0 _ [] = tag at *
  have hh6 := hashAfter_concat (C := C) (blocksOf version (C.x25519Public controlPrivate)
    (C.x25519Public clientEph) ct tag) (C.x25519Public controlEph).val
  -- the client opened the server's tag: same key, same transcript hash
  obtain ⟨rfl, had, _⟩ := hbind.eq (by simp [hlogF]) (by simp [hlogS]) hopen
  -- the transcript hash binds the six blocks
  have hblocks : blocksOf version (C.x25519Public controlPrivate) (C.x25519Public clientEph) ct tag
      ++ [(C.x25519Public controlEph).val] = initBlocks (C.x25519Public controlPrivate) init' ++
        [(C.x25519Public controlEph).val] := by
    refine hashAfter_inj hap (fun x hx => ?_) (fun x hx => ?_) rfl
      (Subtype.ext ((congrArg Subtype.val hh6).trans had))
    · rw [inputsOf_concat, show blocksOf version (C.x25519Public controlPrivate)
        (C.x25519Public clientEph) ct tag = [prologue version, (C.x25519Public controlPrivate).val,
          (C.x25519Public clientEph).val] ++ [ct] ++ [tag] from rfl, inputsOf_concat,
        inputsOf_concat] at hx
      simp only [List.mem_append, List.mem_singleton] at hx
      rcases hx with ((hx | rfl) | rfl) | rfl
      · simp [hlogI, hx]
      · simp [hlogI]
      · simp [hlogI]
      · simp [hlogF]
    · rw [inputsOf_concat, show initBlocks (C.x25519Public controlPrivate) init' =
        openBlocks (C.x25519Public controlPrivate) init' ++ [staticField init'] ++ [tagField init']
          by simp [initBlocks], inputsOf_concat, inputsOf_concat] at hx
      simp only [List.mem_append, List.mem_singleton] at hx
      rcases hx with ((hx | rfl) | rfl) | rfl
      · simp [hlogS, hx]
      · simp [hlogS]
      · simp [hlogS]
      · simp [hlogS, initBlocks]
  obtain ⟨hpro, hrest⟩ := List.cons.inj (List.append_cancel_right hblocks)
  obtain ⟨_, hrest⟩ := List.cons.inj hrest
  obtain ⟨heph, hrest⟩ := List.cons.inj hrest
  obtain ⟨hstat, hrest⟩ := List.cons.inj hrest
  obtain ⟨htagf, _⟩ := List.cons.inj hrest
  have hver : version = getBe16 init' 0 := prologue_injective hpro
  have heph' : bytes32 (slice init' kInitHeaderLen 32) = C.x25519Public clientEph :=
    Subtype.ext heph.symm
  -- so the message is the client's, and the server decrypted what the client had sealed
  have hmsg : init' = init := by
    rw [eq_initMessage hlen htype hsize, hinit, ← hver, heph', ← hstat, ← htagf]
  rw [← hstat, ← hct] at hpt
  obtain ⟨_, _, hpk⟩ := hbind.eq (by simp [hlogS, ← hstat, ← hct]) (by simp [hlogI]) hpt
  have hpeer : bytes32 pt = C.x25519Public machinePrivate := by rw [hpk, bytes32_coe]
  -- the chaining keys follow, one commuting DH at a time
  rw [heph', mixDh_comm hdh, hes] at hes'
  obtain ⟨rfl, rfl⟩ := Prod.mk.inj (Option.some.inj hes')
  rw [hpeer, mixDh_comm hdh, hss] at hss'
  obtain ⟨rfl, rfl⟩ := Prod.mk.inj (Option.some.inj hss')
  rw [heph', mixDh_comm hdh, hee] at hee'
  obtain ⟨rfl, rfl⟩ := Prod.mk.inj (Option.some.inj hee')
  rw [hpeer, mixDh_comm hdh, hse] at hse'
  obtain ⟨rfl, _⟩ := Prod.mk.inj (Option.some.inj hse')
  refine ⟨hmsg, ?_, rfl, rfl, hver.symm, hpeer⟩
  show C.blake2s256 _ = C.blake2s256 _
  rw [hcep, hrt]
  exact congrArg (fun h => C.blake2s256 (h ++ _)) had

/-- The three parts of a handshake of the sample primitives, with their calls. -/
def sampleHandshake : Except NoiseErr (((Bytes × Bytes32 × Bytes32) × List Call) ×
    ((Bytes × NoiseResult) × List Call) × NoiseResult × List Call) := do
  let i ← (noiseClientInit .sample (bytes32 [1]) (bytes32 [2]) 131 (bytes32 [3])).run []
  let s ← (noiseServerHandshake .sample (bytes32 [2]) (bytes32 [4]) i.1.1).run []
  let f ← (noiseClientFinish .sample (bytes32 [1]) (bytes32 [3]) s.1.1 i.1.2.1 i.1.2.2 {}).run []
  return (i, s, f)

/-- The sample handshake succeeds, and its calls meet the two assumptions. -/
theorem sampleHandshake_meets :
    ∃ i s f, sampleHandshake = .ok (i, s, f) ∧ Crypto.sample.HashesApart (i.2 ++ s.2 ++ f.2) ∧
      Crypto.sample.AeadBinds (i.2 ++ s.2 ++ f.2) := by
  have hmeets : sampleHandshake.toOption.any (fun r =>
      decide (Crypto.sample.HashesApart (r.1.2 ++ r.2.1.2 ++ r.2.2.2) ∧
        Crypto.sample.AeadBinds (r.1.2 ++ r.2.1.2 ++ r.2.2.2))) = true := by decide +kernel
  generalize sampleHandshake = outcome at hmeets ⊢
  cases outcome with
  | error e => cases hmeets
  | ok r => exact ⟨r.1, r.2.1, r.2.2, rfl, of_decide_eq_true hmeets⟩

/-- Three steps that succeed together succeed one by one. -/
theorem steps_ok {ε α β γ : Type} {x : Except ε α} {f : α → Except ε β} {g : α → β → Except ε γ} {a : α}
    {b : β} {c : γ} (h : (do let a ← x; let b ← f a; let c ← g a b; return (a, b, c)) = Except.ok (a, b, c)) :
    x = .ok a ∧ f a = .ok b ∧ g a b = .ok c := by
  cases x with
  | error e => cases h
  | ok a' =>
    cases hf : f a' with
    | error e =>
      simp only [bind, Except.bind, hf] at h
      cases h
    | ok b' =>
      cases hg : g a' b' with
      | error e =>
        simp only [bind, Except.bind, hf, hg] at h
        cases h
      | ok c' =>
        simp only [bind, Except.bind, hf, hg, pure, Except.pure] at h
        cases h
        exact ⟨rfl, hf, hg⟩

theorem handshake_agrees_sample :
    ∃ init h ck resp S R logI logS logF,
      (noiseClientInit .sample (bytes32 [1]) (bytes32 [2]) 131 (bytes32 [3])).run [] =
        .ok ((init, h, ck), logI) ∧
      (noiseServerHandshake .sample (bytes32 [2]) (bytes32 [4]) init).run [] =
        .ok ((resp, S), logS) ∧
      (noiseClientFinish .sample (bytes32 [1]) (bytes32 [3]) resp h ck {}).run [] = .ok (R, logF) ∧
      Crypto.sample.HashesApart (logI ++ logS ++ logF) ∧
      Crypto.sample.AeadBinds (logI ++ logS ++ logF) ∧
      R.handshakeHash = S.handshakeHash ∧ R.txKey = S.rxKey ∧ R.rxKey = S.txKey ∧
      S.protocolVersion = 131 ∧ S.peerMachinePublic = bytes32 [1] := by
  obtain ⟨⟨⟨init, h, ck⟩, logI⟩, ⟨⟨resp, S⟩, logS⟩, ⟨R, logF⟩, hok, hap, hbind⟩ := sampleHandshake_meets
  obtain ⟨hI, hS, hF⟩ := steps_ok hok
  have hagree := handshake_agrees .sample (fun a b => congrArg some (add32_comm a b)) (bytes32 [1])
    (bytes32 [2]) (bytes32 [3]) (bytes32 [4]) 131 init init resp h ck S R {} logI logS logF
    hI hS hF hap hbind
  exact ⟨init, h, ck, resp, S, R, logI, logS, logF, hI, hS, hF, hap, hbind, hagree.2⟩

end Wirebone
