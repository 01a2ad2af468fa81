/-
  File:      Wirebone/Noise/Record.lean
  Subject:   noise.cpp, part 2: the record layer `NoiseConn`.

  A `NoiseConn` cuts what is written into chunks, seals each under the next nonce and sends it as
  one record (3 bytes of header, then the ciphertext); the other end opens records in order and
  keeps what a read does not take.

  * `End` -- one end: the members of `NoiseConn`, the socket behind `fd_` (what `recv` and `send`
    will answer, what has been sent), and two records nothing of the code reads: the AEAD calls
    and how each `decrypt_one` ended;
  * `decryptOne`, `read`, `write` -- the member functions;
  * `decryptOne_cases`, `write_spec` -- what one call can do: the only places the code is
    unfolded;
  * `readLoop_eq` -- the bound on the loop of `read` is never reached.
-/
import Wirebone.Lib.Socket
import Wirebone.Noise.Handshake

namespace Wirebone

open ByteString Socket

/-! ## 1. The code -/

structure NoiseConn where
  txKey : Bytes32
  rxKey : Bytes32
  txNonce : UInt64 := 0
  rxNonce : UInt64 := 0
  plaintext : Bytes := []

/-- The constructor `NoiseConn(fd, tx_key, rx_key)`. -/
def noiseConn (txKey rxKey : Bytes32) : NoiseConn := { txKey, rxKey }

/-- How a `decrypt_one` ends. The source returns `true` on `ok` and `false` on the others. -/
inductive Decrypt where
  | ok
  | closed
  | wrongType
  | wrongLength
  | forged
  deriving DecidableEq, Repr

/-- One end of a connection. -/
structure End where
  conn : NoiseConn
  /-- What `recv` will answer. -/
  incoming : List Bytes := []
  /-- What `send` will answer. -/
  sends : List Nat := []
  /-- What has been sent. -/
  wire : Bytes := []
  calls : List Call := []
  outcomes : List Decrypt := []

/-- `put_be64`. -/
def putBe64 (v : UInt64) : Bytes := bigEndian 8 v.toNat

/-- The 12 bytes `nonce`: four zeros, then the counter. -/
def recordNonce (v : UInt64) : Bytes := List.replicate 4 0 ++ putBe64 v

/-- The length test of `decrypt_one`. -/
def lengthAccepted (clen : Nat) : Bool := !(decide (clen < 16) || decide (kMaxMessage - kHeaderLen < clen))

/-- The body of `decrypt_one`. -/
def decryptBody (C : Crypto) (e : End) : Decrypt × End :=
  match recvAll kHeaderLen e.incoming with
  | (none, net) => (.closed, { e with incoming := net })
  | (some hdr, net) =>
    if hdr.getD 0 0 ≠ kMsgRecord then (.wrongType, { e with incoming := net })
    else if lengthAccepted (getBe16 hdr 1).toNat = false then (.wrongLength, { e with incoming := net })
    else
      match recvAll (getBe16 hdr 1).toNat net with
      | (none, net) => (.closed, { e with incoming := net })
      | (some ct, net) =>
        let nonce := recordNonce e.conn.rxNonce
        let calls := e.calls ++ [Call.opened e.conn.rxKey nonce [] ct]
        match C.aeadOpen e.conn.rxKey nonce [] ct with
        | none => (.forged, { e with incoming := net, calls })
        | some pt =>
          (.ok, { e with
            incoming := net, calls
            conn := { e.conn with
              rxNonce := e.conn.rxNonce + 1, plaintext := e.conn.plaintext ++ pt } })

/-- `decrypt_one`, with its outcome recorded. -/
def decryptOne (C : Crypto) (e : End) : Decrypt × End :=
  let (o, e') := decryptBody C e
  (o, { e' with outcomes := e'.outcomes ++ [o] })

/-- The loop of `read`: `decrypt_one` until there is plaintext; `false` where `read` returns 0.
    The first argument bounds the rounds. -/
def readLoop (C : Crypto) : Nat → End → Bool × End
  | 0, e => (false, e)
  | fuel + 1, e =>
    if e.conn.plaintext = [] then
      match decryptOne C e with
      | (.ok, e') => readLoop C fuel e'
      | (_, e') => (false, e')
    else (true, e)

/-- `read(buf, n)`: the bytes put into `buf` (the source returns their number). -/
def read (C : Crypto) (e : End) (n : Int) : Bytes × End :=
  if n ≤ 0 then ([], e)
  else
    match readLoop C (e.incoming.flatten.length + 1) e with
    | (false, e') => ([], e')
    | (true, e') =>
      let take := min n.toNat e'.conn.plaintext.length
      (e'.conn.plaintext.take take,
        { e' with conn := { e'.conn with plaintext := e'.conn.plaintext.drop take } })

/-- The two `write_full` calls of `write`: the header, then the ciphertext. -/
def sendRecord (e : End) (ct : Bytes) : Bool × End :=
  let hdr := [kMsgRecord] ++ putBe16 (UInt16.ofNat ct.length)
  match sendAll hdr e.sends with
  | (false, out, sends) => (false, { e with wire := e.wire ++ out, sends })
  | (true, out, sends) =>
    match sendAll ct sends with
    | (ok, out', sends) => (ok, { e with wire := e.wire ++ out ++ out', sends })

/-- The loop of `write`, with `sent` bytes behind it and `rest` to go. Each round takes a byte at
    least, so the first argument, the length of `rest`, bounds the rounds. -/
def writeLoop (C : Crypto) : Nat → Nat → Bytes → End → Int × End
  | 0, sent, _, e => (sent, e)
  | _ + 1, sent, [], e => (sent, e)
  | fuel + 1, sent, b :: rest, e =>
    let chunk := (b :: rest).take kMaxPlaintext
    let nonce := recordNonce e.conn.txNonce
    let ct := C.aeadSeal e.conn.txKey nonce [] chunk
    let e := { e with
      conn := { e.conn with txNonce := e.conn.txNonce + 1 }
      calls := e.calls ++ [Call.sealed e.conn.txKey nonce [] chunk] }
    match sendRecord e ct with
    | (false, e) => (if sent = 0 then -1 else sent, e)
    | (true, e) => writeLoop C fuel (sent + chunk.length) ((b :: rest).drop kMaxPlaintext) e

/-- `write(buf, n)` of a buffer of `n` bytes. -/
def write (C : Crypto) (e : End) (buf : Bytes) : Int × End := writeLoop C buf.length 0 buf e

/-- A sequence of reads: what each returned. -/
def reads (C : Crypto) : End → List Int → List Bytes × End
  | e, [] => ([], e)
  | e, n :: ns =>
    let (got, e') := read C e n
    let (gots, e'') := reads C e' ns
    (got :: gots, e'')

/-- A sequence of writes: what each returned. -/
def writes (C : Crypto) : End → List Bytes → List Int × End
  | e, [] => ([], e)
  | e, buf :: bufs =>
    let (r, e') := write C e buf
    let (rs, e'') := writes C e' bufs
    (r :: rs, e'')

/-! ## 2. What one call can do -/

/-- The end `e` after its next record `ct` has been opened as `pt`. -/
def End.opened (e : End) (net : List Bytes) (ct pt : Bytes) : End :=
  { e with
    incoming := net
    calls := e.calls ++ [.opened e.conn.rxKey (recordNonce e.conn.rxNonce) [] ct]
    outcomes := e.outcomes ++ [.ok]
    conn := { e.conn with rxNonce := e.conn.rxNonce + 1, plaintext := e.conn.plaintext ++ pt } }

/-- **`decrypt_one` opens the next record, or leaves the connection as it was.** -/
theorem decryptOne_cases {C : Crypto} {e e' : End} {o : Decrypt} (h : decryptOne C e = (o, e')) :
    (o = .ok ∧ ∃ hdr net ct net' pt, recvAll kHeaderLen e.incoming = (some hdr, net) ∧
      lengthAccepted (getBe16 hdr 1).toNat = true ∧
      recvAll (getBe16 hdr 1).toNat net = (some ct, net') ∧
      C.aeadOpen e.conn.rxKey (recordNonce e.conn.rxNonce) [] ct = some pt ∧
      e' = e.opened net' ct pt) ∨
    (o ≠ .ok ∧ e'.conn = e.conn ∧ e.calls <+: e'.calls) := by
  unfold decryptOne decryptBody at h
  rcases h1 : recvAll kHeaderLen e.incoming with ⟨_ | hdr, net⟩
  · rw [h1] at h
    cases h
    exact .inr ⟨by decide, rfl, List.prefix_rfl⟩
  rw [h1] at h
  by_cases htype : hdr.getD 0 0 ≠ kMsgRecord
  · simp only [if_pos htype] at h
    cases h
    exact .inr ⟨by decide, rfl, List.prefix_rfl⟩
  simp only [if_neg htype] at h
  rcases hacc : lengthAccepted (getBe16 hdr 1).toNat with _ | _
  · simp only [hacc, if_true] at h
    cases h
    exact .inr ⟨by decide, rfl, List.prefix_rfl⟩
  simp only [hacc, Bool.true_eq_false, if_false] at h
  rcases h2 : recvAll (getBe16 hdr 1).toNat net with ⟨_ | ct, net'⟩
  · simp only [h2] at h
    cases h
    exact .inr ⟨by decide, rfl, List.prefix_rfl⟩
  simp only [h2] at h
  rcases h3 : C.aeadOpen e.conn.rxKey (recordNonce e.conn.rxNonce) [] ct with _ | pt
  · simp only [h3] at h
    cases h
    exact .inr ⟨by decide, rfl, List.prefix_append _ _⟩
  · simp only [h3] at h
    cases h
    exact .inl ⟨rfl, hdr, net, ct, net', pt, rfl, hacc, h2, h3, rfl⟩

/-- An opened record has been taken from the stream. -/
theorem decryptOne_consumes {C : Crypto} {e e' : End} (h : decryptOne C e = (.ok, e')) :
    e'.incoming.flatten.length < e.incoming.flatten.length := by
  rcases decryptOne_cases h with ⟨_, hdr, net, ct, net', pt, h1, _, h2, _, rfl⟩ | ⟨hne, _⟩
  · obtain ⟨hl1, hf1⟩ := recvAll_some h1
    obtain ⟨_, hf2⟩ := recvAll_some h2
    show net'.flatten.length < _
    rw [hf1, hf2, List.length_append, List.length_append, hl1, kHeaderLen]
    omega
  · exact absurd rfl hne

section Loop

variable {C : Crypto} {e e' : End} {fuel : Nat}

theorem readLoop_succ (hp : e.conn.plaintext = []) (h : decryptOne C e = (.ok, e')) :
    readLoop C (fuel + 1) e = readLoop C fuel e' := by
  rw [readLoop, if_pos hp, h]

theorem readLoop_fail {o : Decrypt} (hp : e.conn.plaintext = []) (h : decryptOne C e = (o, e'))
    (ho : o ≠ .ok) : readLoop C (fuel + 1) e = (false, e') := by
  rw [readLoop, if_pos hp, h]
  cases o with
  | ok => exact absurd rfl ho
  | closed | wrongType | wrongLength | forged => rfl

theorem readLoop_done (hp : e.conn.plaintext ≠ []) : readLoop C (fuel + 1) e = (true, e) := by
  rw [readLoop, if_neg hp]

end Loop

/-- Any two bounds above the bytes to come give the same loop. -/
theorem readLoop_fuel {C : Crypto} {e : End} {m n : Nat} (hm : e.incoming.flatten.length < m)
    (hn : e.incoming.flatten.length < n) : readLoop C m e = readLoop C n e := by
  induction m generalizing e n with
  | zero => omega
  | succ m ih =>
    cases n with
    | zero => omega
    | succ n =>
      by_cases hp : e.conn.plaintext = []
      · rcases hd : decryptOne C e with ⟨o, e'⟩
        by_cases ho : o = .ok
        · subst ho
          have hlt := decryptOne_consumes hd
          rw [readLoop_succ hp hd, readLoop_succ hp hd]
          exact ih (by omega) (by omega)
        · rw [readLoop_fail hp hd ho, readLoop_fail hp hd ho]
      · rw [readLoop_done hp, readLoop_done hp]

/-- **The loop of `read` is the source's loop**: the bound that `read` gives it is never
    reached. -/
theorem readLoop_eq (C : Crypto) (e : End) :
    readLoop C (e.incoming.flatten.length + 1) e =
      if e.conn.plaintext = [] then
        match decryptOne C e with
        | (.ok, e') => readLoop C (e'.incoming.flatten.length + 1) e'
        | (_, e') => (false, e')
      else (true, e) := by
  rw [readLoop]
  by_cases hp : e.conn.plaintext = []
  · rw [if_pos hp, if_pos hp]
    rcases hd : decryptOne C e with ⟨o, e'⟩
    by_cases ho : o = .ok
    · subst ho
      have hlt := decryptOne_consumes hd
      exact readLoop_fuel (by omega) (by omega)
    · cases o with
      | ok => exact absurd rfl ho
      | closed | wrongType | wrongLength | forged => rfl
  · rw [if_neg hp, if_neg hp]

/-- The calls of a sequence of seals: the chunks in order, from nonce `i` on. -/
def sealCalls (key : Bytes32) (i : Nat) (chunks : List Bytes) : List Call :=
  chunks.mapIdx fun j p => .sealed key (recordNonce (UInt64.ofNat (i + j))) [] p

/-- The record that carries the ciphertext `ct`. -/
def encodeRecord (ct : Bytes) : Bytes := [kMsgRecord] ++ putBe16 (UInt16.ofNat ct.length) ++ ct

/-- The stream of the records that carry `chunks`, from nonce `i` on. -/
def encodeRecords (C : Crypto) (key : Bytes32) (i : Nat) : List Bytes → Bytes
  | [] => []
  | p :: ps => encodeRecord (C.aeadSeal key (recordNonce (UInt64.ofNat i)) [] p) ++
      encodeRecords C key (i + 1) ps

theorem sealCalls_cons (key : Bytes32) (i : Nat) (p : Bytes) (ps : List Bytes) :
    sealCalls key i (p :: ps) =
      .sealed key (recordNonce (UInt64.ofNat i)) [] p :: sealCalls key (i + 1) ps := by
  simp only [sealCalls, List.mapIdx_cons, Nat.add_zero, Nat.add_assoc, Nat.add_comm 1]

theorem ofNat_succ (i : Nat) : UInt64.ofNat (i + 1) = UInt64.ofNat i + 1 := UInt64.ofNat_add i 1

theorem sendRecord_frame {e e' : End} {ct : Bytes} {ok : Bool} (h : sendRecord e ct = (ok, e')) :
    e'.conn = e.conn ∧ e'.calls = e.calls := by
  unfold sendRecord at h
  rcases h1 : sendAll ([kMsgRecord] ++ putBe16 (UInt16.ofNat ct.length)) e.sends with
    ⟨_ | _, out, sends⟩
  · simp only [h1] at h
    cases h
    exact ⟨rfl, rfl⟩
  · simp only [h1] at h
    cases h
    exact ⟨rfl, rfl⟩

theorem sendRecord_flows {e : End} (ct : Bytes) (hf : Flows e.sends) :
    ∃ sends, Flows sends ∧
      sendRecord e ct = (true, { e with wire := e.wire ++ encodeRecord ct, sends }) := by
  obtain ⟨s₁, hf₁, h1⟩ := sendAll_flows ([kMsgRecord] ++ putBe16 (UInt16.ofNat ct.length)) hf
  obtain ⟨s₂, hf₂, h2⟩ := sendAll_flows ct hf₁
  refine ⟨s₂, hf₂, ?_⟩
  rw [sendRecord]
  simp only [h1, h2, encodeRecord, List.append_assoc]

/-- What a `write` leaves behind: its chunks sealed under the next nonces, in order. -/
structure Wrote (e : End) (i : Nat) (chunks : List Bytes) (e' : End) : Prop where
  calls : e'.calls = e.calls ++ sealCalls e.conn.txKey i chunks
  conn : e'.conn = { e.conn with txNonce := UInt64.ofNat (i + chunks.length) }

theorem Wrote.nil {e : End} {i : Nat} (hi : e.conn.txNonce = UInt64.ofNat i) : Wrote e i [] e :=
  ⟨by simp [sealCalls], by rw [List.length_nil, Nat.add_zero, ← hi]⟩

/-- The end `e` after it has sealed `p` (nothing of the record sent yet). -/
def End.sealed (e : End) (p : Bytes) : End :=
  { e with
    conn := { e.conn with txNonce := e.conn.txNonce + 1 }
    calls := e.calls ++ [Call.sealed e.conn.txKey (recordNonce e.conn.txNonce) [] p] }

theorem Wrote.cons {e e₁ e₂ : End} {i : Nat} {p : Bytes} {ps : List Bytes}
    (hi : e.conn.txNonce = UInt64.ofNat i) (hconn : e₁.conn = (e.sealed p).conn)
    (hcalls : e₁.calls = (e.sealed p).calls) (h : Wrote e₁ (i + 1) ps e₂) :
    Wrote e i (p :: ps) e₂ := by
  refine ⟨?_, ?_⟩
  · rw [h.calls, hcalls, hconn, sealCalls_cons, ← hi, End.sealed, List.append_assoc]
    rfl
  · rw [h.conn, hconn, List.length_cons, Nat.add_comm ps.length, ← Nat.add_assoc]
    rfl

theorem writeLoop_cons {C : Crypto} {fuel sent : Nat} {b : UInt8} {rest : Bytes} {e : End} :
    writeLoop C (fuel + 1) sent (b :: rest) e =
      match sendRecord (e.sealed ((b :: rest).take kMaxPlaintext))
        (C.aeadSeal e.conn.txKey (recordNonce e.conn.txNonce) [] ((b :: rest).take kMaxPlaintext)) with
      | (false, e) => (if sent = 0 then -1 else sent, e)
      | (true, e) => writeLoop C fuel (sent + ((b :: rest).take kMaxPlaintext).length)
          ((b :: rest).drop kMaxPlaintext) e := rfl

/-- The loop of `write` on any socket: it seals a prefix of its buffer, all of it where it returns
    the full length. -/
theorem writeLoop_spec {C : Crypto} {fuel sent i : Nat} {rest : Bytes} {e e' : End} {r : Int}
    (h : writeLoop C fuel sent rest e = (r, e')) (hf : rest.length ≤ fuel)
    (hi : e.conn.txNonce = UInt64.ofNat i) :
    ∃ chunks, Wrote e i chunks e' ∧ chunks.flatten <+: rest ∧
      (r = ((sent + rest.length : Nat) : Int) → chunks.flatten = rest) := by
  induction fuel generalizing sent rest e i with
  | zero =>
    obtain rfl : rest = [] := List.length_eq_zero_iff.mp (by omega)
    cases h
    exact ⟨[], .nil hi, List.prefix_rfl, fun _ => rfl⟩
  | succ fuel ih =>
    cases rest with
    | nil =>
      cases h
      exact ⟨[], .nil hi, List.prefix_rfl, fun _ => rfl⟩
    | cons b rest =>
      rw [writeLoop_cons] at h
      generalize hp : (b :: rest).take kMaxPlaintext = p at h
      have hsplit : p ++ (b :: rest).drop kMaxPlaintext = b :: rest := by
        rw [← hp, List.take_append_drop]
      have hlen : p.length + ((b :: rest).drop kMaxPlaintext).length = (b :: rest).length := by
        rw [← List.length_append, hsplit]
      have hpos : 0 < p.length := by
        rw [← hp, List.length_take, kMaxPlaintext, kMaxMessage, List.length_cons]
        omega
      rcases hs : sendRecord (e.sealed p)
        (C.aeadSeal e.conn.txKey (recordNonce e.conn.txNonce) [] p) with ⟨_ | _, e₁⟩
      · -- the record did not go out: the chunk has been sealed all the same
        rw [hs] at h
        cases h
        obtain ⟨hc, hl⟩ := sendRecord_frame hs
        have hw : Wrote e' (i + 1) [] e' := by
          refine .nil ?_
          rw [hc, End.sealed, hi, ofNat_succ]
        refine ⟨[p], hw.cons hi hc hl, ?_, ?_⟩
        · rw [List.flatten_singleton, ← hp]
          exact List.take_prefix _ _
        · intro hr
          simp only [List.length_cons] at hr
          split at hr <;> omega
      · rw [hs] at h
        obtain ⟨hc, hl⟩ := sendRecord_frame hs
        have hi₁ : e₁.conn.txNonce = UInt64.ofNat (i + 1) := by
          rw [hc, End.sealed, hi, ofNat_succ]
        obtain ⟨ps, hw, hpre, hfull⟩ := ih h (by simp only [List.length_cons] at hf hlen; omega) hi₁
        refine ⟨p :: ps, hw.cons hi hc hl, ?_, ?_⟩
        · rw [List.flatten_cons, ← hsplit]
          exact (List.prefix_append_right_inj p).mpr hpre
        · intro hr
          rw [List.flatten_cons, hfull (by rw [hr]; congr 1; omega), hsplit]

/-- **`write` seals a prefix of its buffer**, chunk by chunk, and all of it where it returns the
    full length. -/
theorem write_spec {C : Crypto} {i : Nat} {buf : Bytes} {e e' : End} {r : Int}
    (h : write C e buf = (r, e')) (hi : e.conn.txNonce = UInt64.ofNat i) :
    ∃ chunks, Wrote e i chunks e' ∧ chunks.flatten <+: buf ∧
      (r = (buf.length : Int) → chunks.flatten = buf) := by
  obtain ⟨chunks, hw, hpre, hfull⟩ := writeLoop_spec h (Nat.le_refl _) hi
  exact ⟨chunks, hw, hpre, fun hr => hfull (by rw [hr, Nat.zero_add])⟩

end Wirebone
