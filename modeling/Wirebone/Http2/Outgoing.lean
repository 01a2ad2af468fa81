/-
  File:      Wirebone/Http2/Outgoing.lean
  Subject:   WHAT IS ON THE WIRE WHEN SENDS FAIL.

  nghttp2 hands its output to `send_cb`, which is one `NoiseConn::write`. A write that fails in its
  first record returns an error, and nghttp2 stops. A write that fails in a later one returns the
  bytes of the records before it, and nghttp2 calls again with the rest: under the next nonce, behind
  whatever the socket has taken of the record that failed.

  * `sendCb`, `Sender`, `sendStep` -- the calls, with the rest that nghttp2 has to present, and a
    record of what each sealed record has left on the wire (`Piece`), which no code reads;
  * `RecordStream` -- complete records under the nonces 0, 1, 2, .., at most one cut record, and
    nothing behind it;
  * `sendCb_pieces` -- what one call can leave: complete records under the next nonces, and at
    most one that is cut;
  * `InStream` -- the invariant: what of a run's records is complete, and what lies behind them;
  * **`outgoing_stream_iff`** -- the wire is a stream of records exactly in the runs in which a call
    behind a cut record adds nothing that can be seen, or nothing could be seen of that one.
-/
import Wirebone.Lib.Lts
import Wirebone.Lib.Torn
import Wirebone.Noise.Record

namespace Wirebone

open ByteString Socket Lts Torn

/-! ## 1. The calls -/

/-- `NGHTTP2_ERR_WOULDBLOCK` and `NGHTTP2_ERR_CALLBACK_FAILURE`. -/
def kErrWouldblock : Int := -504

def kErrCallbackFailure : Int := -902

/-- `send_cb`. (What nghttp2 hands out is a part of a frame, so its length is an `int`.) -/
def sendCb (C : Crypto) (e : End) (data : Bytes) : Int × End :=
  match write C e data with
  | (n, e') => (if n < 0 then kErrCallbackFailure else if n = 0 then kErrWouldblock else n, e')

/-- What a record has left on the wire. -/
structure Piece where
  nonce : UInt64
  text : Bytes
  out : Bytes
  deriving DecidableEq

/-- The record itself. -/
def Piece.record (C : Crypto) (key : Bytes32) (p : Piece) : Bytes :=
  encodeRecord (C.aeadSeal key (recordNonce p.nonce) [] p.text)

/-- The records of `writeLoop`, in its own rounds. -/
def writePieces (C : Crypto) : Nat → Bytes → End → List Piece
  | 0, _, _ => []
  | _ + 1, [], _ => []
  | fuel + 1, b :: rest, e =>
    let chunk := (b :: rest).take kMaxPlaintext
    match sendRecord (e.sealed chunk) (C.aeadSeal e.conn.txKey (recordNonce e.conn.txNonce) [] chunk) with
    | (ok, e') =>
      { nonce := e.conn.txNonce, text := chunk, out := e'.wire.drop e.wire.length } ::
        if ok then writePieces C fuel ((b :: rest).drop kMaxPlaintext) e' else []

/-- The records of one call of `send_cb`. -/
def callPieces (C : Crypto) (e : End) (data : Bytes) : List Piece :=
  writePieces C data.length data e

/-- A connection and the nghttp2 that writes to it. -/
structure Sender where
  e : End
  /-- What nghttp2 has to present next, where a call has returned a short count. -/
  unsent : Bytes := []
  /-- An error code has been returned. -/
  stopped : Bool := false
  /-- What `send_cb` has returned. -/
  returns : List Int := []
  pieces : List Piece := []

/-- The connection as it is made, over a socket that answers `send` by the script. -/
def sender (txKey rxKey : Bytes32) (script : List Nat) : Sender :=
  { e := { conn := noiseConn txKey rxKey, sends := script } }

/-- nghttp2 calls `send_cb`. -/
def sendStep (C : Crypto) (s : Sender) (data : Bytes) : Option Sender :=
  if s.stopped = true ∨ (s.unsent ≠ [] ∧ data ≠ s.unsent) then none
  else
    match sendCb C s.e data with
    | (r, e') =>
      some {
        e := e'
        unsent := if 0 < r then data.drop r.toNat else []
        stopped := decide (r < 0)
        returns := s.returns ++ [r]
        pieces := s.pieces ++ callPieces C s.e data }

/-! ## 2. What is asked of the wire -/

/-- A complete record, under nonce `i`. -/
def Piece.InOrder (C : Crypto) (key : Bytes32) (i : Nat) (p : Piece) : Prop :=
  p.nonce = UInt64.ofNat i ∧ p.out = p.record C key

/-- A record that is not complete. -/
def Piece.Cut (C : Crypto) (key : Bytes32) (p : Piece) : Prop :=
  p.out <+: p.record C key ∧ p.out ≠ p.record C key

/-- The records of which the wire has something. -/
def visible (ps : List Piece) : List Piece := ps.filter fun p => decide (p.out ≠ [])

/-- The positive results, added up. -/
def written (returns : List Int) : Int := (returns.filter fun r => decide (0 < r)).sum

/-- **The wire is a stream of records**: complete ones under the nonces 0, 1, 2, .., at most one that
    is cut behind them and nothing behind it; and the positive results add up to the plaintext of
    the complete ones. -/
def RecordStream (C : Crypto) (key : Bytes32) (s : Sender) : Prop :=
  ∃ whole cut, Splits (Piece.InOrder C key) (Piece.Cut C key) (visible s.pieces) whole cut ∧
    s.e.wire = encodeRecords C key 0 (whole.map (·.text)) ++ (cut.map (·.out)).flatten ∧
    written s.returns = ((whole.map (·.text.length)).sum : Nat)

/-- **The condition on a call**: the last record is complete, or the call has nothing to send, or its
    first `send` fails; or the wire has nothing of the last record, and does not take the first
    record of the call whole either. -/
def Undisturbed (C : Crypto) (s : Sender) (data : Bytes) : Prop :=
  ∀ p ∈ s.pieces.getLast?, p.out = p.record C s.e.conn.txKey ∨ data = [] ∨
    s.e.sends.head? = some 0 ∨
    (p.out = [] ∧ (takes kHeaderLen s.e.sends).bind (takes (C.aeadSeal s.e.conn.txKey
      (recordNonce s.e.conn.txNonce) [] (data.take kMaxPlaintext)).length) = none)

/-! ## 3. One call -/

section Calls

variable {C : Crypto} {e e' : End} {ct : Bytes} {ok : Bool}

/-- **What a record leaves on the wire**: a beginning of it, all of it exactly if it is sent. -/
theorem sendRecord_out (h : sendRecord e ct = (ok, e')) :
    ∃ out, e'.wire = e.wire ++ out ∧ out <+: encodeRecord ct ∧ (ok = true ↔ out = encodeRecord ct) ∧
      (out = [] ↔ e.sends.head? = some 0) := by
  unfold sendRecord at h
  unfold encodeRecord
  have hhdr : [kMsgRecord] ++ putBe16 (UInt16.ofNat ct.length) ≠ [] := List.cons_ne_nil _ _
  generalize [kMsgRecord] ++ putBe16 (UInt16.ofNat ct.length) = hdr at h hhdr ⊢
  rcases h1 : sendAll hdr e.sends with ⟨_ | _, out, sends⟩
  · -- the header was cut
    simp only [h1] at h
    cases h
    obtain ⟨hpre, hall⟩ := sendAll_out h1
    refine ⟨out, rfl, hpre.trans (List.prefix_append _ _), ⟨fun hok => (by cases hok), fun hout => ?_⟩,
      sendAll_nil_iff hhdr h1⟩
    have hle := hpre.length_le
    rw [hout, List.length_append] at hle
    obtain rfl : ct = [] := List.length_eq_zero_iff.mp (by omega)
    rw [List.append_nil] at hout
    exact hall.mpr hout
  · rcases h2 : sendAll ct sends with ⟨ok', out', sends'⟩
    simp only [h1, h2] at h
    cases h
    obtain ⟨_, hhead⟩ := sendAll_out h1
    obtain rfl := hhead.mp rfl
    obtain ⟨hpre, hall⟩ := sendAll_out h2
    refine ⟨out ++ out', List.append_assoc _ _ _, (List.prefix_append_right_inj _).mpr hpre, ?_, ?_⟩
    · rw [hall, List.append_right_inj]
    · rw [← sendAll_nil_iff hhdr h1, List.append_eq_nil_iff]
      exact ⟨fun h => h.1, fun h => absurd h hhdr⟩

/-- Whether a record goes out is decided by the socket's answers. -/
theorem sendRecord_fst (e : End) (ct : Bytes) :
    (sendRecord e ct).1 = ((takes kHeaderLen e.sends).bind (takes ct.length)).isSome := by
  unfold sendRecord
  have hlen : ([kMsgRecord] ++ putBe16 (UInt16.ofNat ct.length)).length = kHeaderLen := rfl
  generalize [kMsgRecord] ++ putBe16 (UInt16.ofNat ct.length) = hdr at hlen ⊢
  rcases h1 : sendAll hdr e.sends with ⟨_ | _, out, sends⟩
  · have hhdr := sendAll_takes h1
    rw [hlen] at hhdr
    simp [hhdr, h1]
  · have hhdr := sendAll_takes h1
    rw [hlen] at hhdr
    rcases h2 : sendAll ct sends with ⟨_ | _, out', sends'⟩
    · simp [hhdr, h1, h2, sendAll_takes h2]
    · simp [hhdr, h1, h2, sendAll_takes h2]

/-- The plaintext of records. -/
def total (ps : List Piece) : Nat := (ps.map (·.text.length)).sum

/-- **What a call leaves**: complete records under the nonces from `i` on, and at most one that is cut,
    under the next nonce. -/
structure Leaves (C : Crypto) (e : End) (i : Nat) (ps tail : List Piece) (e' : End) : Prop where
  inOrder : ∀ (j : Nat) (p : Piece), ps[j]? = some p → p.InOrder C e.conn.txKey (i + j) ∧ p.text ≠ []
  few : tail.length ≤ 1
  torn : ∀ p ∈ tail, p.nonce = UInt64.ofNat (i + ps.length) ∧ p.Cut C e.conn.txKey
  wire : e'.wire = e.wire ++ ((ps ++ tail).map (·.out)).flatten
  conn : e'.conn = { e.conn with txNonce := UInt64.ofNat (i + (ps ++ tail).length) }

theorem Leaves.nil {i : Nat} (hi : e.conn.txNonce = UInt64.ofNat i) : Leaves C e i [] [] e :=
  ⟨fun j p h => (by cases h), Nat.zero_le 1, fun p hp => absurd hp List.not_mem_nil,
    (List.append_nil _).symm, by rw [List.append_nil, List.length_nil, Nat.add_zero, ← hi]⟩

theorem Leaves.cons {i : Nat} {e₁ : End} {p : Piece} {ps tail : List Piece}
    (hp : p.InOrder C e.conn.txKey i) (hne : p.text ≠ []) (hconn : e₁.conn = { e.conn with txNonce := UInt64.ofNat (i + 1) })
    (hwire : e₁.wire = e.wire ++ p.out) (h : Leaves C e₁ (i + 1) ps tail e') :
    Leaves C e i (p :: ps) tail e' := by
  have hkey : e₁.conn.txKey = e.conn.txKey := by rw [hconn]
  refine ⟨fun j q hq => ?_, h.few, fun q hq => ?_, ?_, ?_⟩
  · cases j with
    | zero =>
      cases hq
      exact ⟨hp, hne⟩
    | succ j =>
      have hrest := h.inOrder j q hq
      rwa [hkey, Nat.add_assoc, Nat.add_comm 1 j] at hrest
  · have hcut := h.torn q hq
    rwa [hkey, Nat.add_assoc, Nat.add_comm 1, ← List.length_cons (a := p)] at hcut
  · rw [h.wire, hwire, List.cons_append, List.map_cons, List.flatten_cons, List.append_assoc]
  · rw [h.conn, hconn, List.cons_append, List.length_cons, Nat.add_assoc, Nat.add_comm 1]

/-- What `write` returns, with `sent` bytes behind it. -/
def resultOf (sent : Nat) (ps tail : List Piece) : Int :=
  if tail = [] ∨ 0 < sent + total ps then ((sent + total ps : Nat) : Int) else -1

theorem total_cons (p : Piece) (ps : List Piece) : total (p :: ps) = p.text.length + total ps := rfl

/-- The first record of a call, by the socket's answer. -/
theorem writePieces_cons (fuel : Nat) (b : UInt8) (rest : Bytes) {e₁ : End}
    (hs : sendRecord (e.sealed ((b :: rest).take kMaxPlaintext))
      (C.aeadSeal e.conn.txKey (recordNonce e.conn.txNonce) [] ((b :: rest).take kMaxPlaintext)) =
        (ok, e₁)) :
    ∃ p : Piece, writePieces C (fuel + 1) (b :: rest) e =
        p :: (if ok then writePieces C fuel ((b :: rest).drop kMaxPlaintext) e₁ else []) ∧
      p.nonce = e.conn.txNonce ∧ p.text = (b :: rest).take kMaxPlaintext ∧ e₁.wire = e.wire ++ p.out ∧
      (ok = true → p.out = p.record C e.conn.txKey) ∧ (ok = false → p.Cut C e.conn.txKey) ∧
      (p.out = [] ↔ e.sends.head? = some 0) := by
  obtain ⟨out, hwire, hpre, hall, hnone⟩ := sendRecord_out hs
  have hout : e₁.wire.drop e.wire.length = out := by
    rw [hwire]
    exact List.drop_left
  refine ⟨⟨e.conn.txNonce, (b :: rest).take kMaxPlaintext, out⟩, ?_, rfl, rfl, hwire, hall.mp, ?_, hnone⟩
  · rw [writePieces]
    simp only [hs, hout]
  · intro hok
    refine ⟨hpre, fun hrec => ?_⟩
    rw [hall.mpr hrec] at hok
    cases hok

/-- **The loop of `write` on any socket.** -/
theorem writeLoop_pieces {fuel sent i : Nat} {rest : Bytes} {r : Int}
    (h : writeLoop C fuel sent rest e = (r, e')) (hf : rest.length ≤ fuel)
    (hi : e.conn.txNonce = UInt64.ofNat i) :
    ∃ ps tail, writePieces C fuel rest e = ps ++ tail ∧ Leaves C e i ps tail e' ∧
      r = resultOf sent ps tail := by
  induction fuel generalizing sent rest e i with
  | zero =>
    cases h
    exact ⟨[], [], rfl, .nil hi, (if_pos (.inl rfl)).symm⟩
  | succ fuel ih =>
    cases rest with
    | nil =>
      cases h
      exact ⟨[], [], rfl, .nil hi, (if_pos (.inl rfl)).symm⟩
    | cons b rest =>
      rw [writeLoop_cons] at h
      have hpos : (b :: rest).take kMaxPlaintext ≠ [] := List.cons_ne_nil _ _
      rcases hs : sendRecord (e.sealed ((b :: rest).take kMaxPlaintext))
        (C.aeadSeal e.conn.txKey (recordNonce e.conn.txNonce) [] ((b :: rest).take kMaxPlaintext))
        with ⟨ok, e₁⟩
      rw [hs] at h
      obtain ⟨p, hpieces, hnonce, htext, hwire, hwhole, hcut, _⟩ := writePieces_cons fuel b rest hs
      have hconn : e₁.conn = { e.conn with txNonce := UInt64.ofNat (i + 1) } := by
        rw [(sendRecord_frame hs).1, End.sealed, hi, ofNat_succ]
      rw [hpieces]
      rw [hi] at hnonce
      cases ok with
      | false =>
        -- the record is cut, and the call is over
        cases h
        refine ⟨[], [p], rfl, ⟨fun j q hq => (by cases hq), Nat.le_refl 1, ?_, ?_, hconn⟩, ?_⟩
        · intro q hq
          rw [List.mem_singleton.mp hq]
          exact ⟨hnonce, hcut rfl⟩
        · rw [hwire]
          simp
        · by_cases hzero : sent = 0
          · simp [resultOf, total, hzero]
          · simp [resultOf, total, hzero, Nat.pos_of_ne_zero hzero]
      | true =>
        have hlen : ((b :: rest).drop kMaxPlaintext).length ≤ fuel := by
          rw [List.length_drop, kMaxPlaintext, kMaxMessage]
          omega
        obtain ⟨ps, tail, hps, hleaves, hr⟩ := ih h hlen (by rw [hconn])
        have hsum : sent + (p.text.length + total ps) = sent + p.text.length + total ps := by omega
        refine ⟨p :: ps, tail, ?_, hleaves.cons ⟨hnonce, hwhole rfl⟩ (htext ▸ hpos) hconn hwire, ?_⟩
        · rw [if_pos rfl, hps]
          rfl
        · rw [hr, resultOf, resultOf, total_cons, hsum, htext]

theorem errors_negative : kErrWouldblock < 0 ∧ kErrCallbackFailure < 0 := by
  unfold kErrWouldblock kErrCallbackFailure
  omega

/-- A call of `send_cb`: it returns an error exactly if it completes no record, and else the plaintext
    of those it completes. -/
theorem sendCb_pieces {i : Nat} {data : Bytes} {r : Int} (h : sendCb C e data = (r, e'))
    (hi : e.conn.txNonce = UInt64.ofNat i) :
    ∃ ps tail, callPieces C e data = ps ++ tail ∧ Leaves C e i ps tail e' ∧ (r < 0 ↔ ps = []) ∧
      (ps ≠ [] → r = (total ps : Nat)) := by
  unfold sendCb at h
  rcases hw : write C e data with ⟨n, e₁⟩
  rw [hw] at h
  cases h
  obtain ⟨ps, tail, hps, hleaves, hn⟩ := writeLoop_pieces hw (Nat.le_refl _) hi
  refine ⟨ps, tail, hps, hleaves, ?_⟩
  cases ps with
  | nil =>
    refine ⟨⟨fun _ => rfl, fun _ => ?_⟩, fun hne => absurd rfl hne⟩
    by_cases htail : tail = []
    · have hzero : n = 0 := by simp [hn, resultOf, total, htail]
      rw [hzero, if_neg (Int.lt_irrefl 0), if_pos rfl]
      exact errors_negative.1
    · have hneg : n = -1 := by simp [hn, resultOf, total, htail]
      rw [hneg, if_pos (by omega)]
      exact errors_negative.2
  | cons p ps =>
    have hpos : 0 < total (p :: ps) := by
      have htext := (hleaves.inOrder 0 p rfl).2
      rw [total_cons]
      exact Nat.add_pos_left (List.length_pos_iff.mpr htext) _
    have hsum : n = (total (p :: ps) : Nat) := by
      rw [hn, resultOf, Nat.zero_add, if_pos (.inr hpos)]
    rw [hsum, if_neg (by omega), if_neg (by omega)]
    exact ⟨⟨fun hlt => (by omega), fun hnil => (by cases hnil)⟩, fun _ => rfl⟩

end Calls

/-! ## 4. What a run has left -/

section Runs

variable {C : Crypto} {key : Bytes32} {s s' : Sender} {ps whole tail : List Piece} {p : Piece} {data : Bytes}

theorem record_ne_nil (p : Piece) : p.record C key ≠ [] := List.cons_ne_nil _ _

theorem visible_append (ps qs : List Piece) : visible (ps ++ qs) = visible ps ++ visible qs :=
  List.filter_append ..

theorem visible_cons_pos (h : p.out ≠ []) : visible (p :: ps) = p :: visible ps :=
  List.filter_cons_of_pos (decide_eq_true h)

theorem visible_cons_neg (h : p.out = []) : visible (p :: ps) = visible ps :=
  List.filter_cons_of_neg (by simp [h])

/-- The wire is what is visible on it. -/
theorem flatten_visible (ps : List Piece) :
    ((visible ps).map (·.out)).flatten = (ps.map (·.out)).flatten := by
  induction ps with
  | nil => rfl
  | cons p ps ih =>
    by_cases hp : p.out = []
    · rw [visible_cons_neg hp, ih, List.map_cons, hp, List.flatten_cons, List.nil_append]
    · rw [visible_cons_pos hp, List.map_cons, List.flatten_cons, ih, List.map_cons, List.flatten_cons]

/-- Complete records in order are the encoding of their texts. -/
theorem encodeRecords_whole {i : Nat}
    (h : ∀ (j : Nat) (p : Piece), ps[j]? = some p → p.InOrder C key (i + j)) :
    (ps.map (·.out)).flatten = encodeRecords C key i (ps.map (·.text)) := by
  induction ps generalizing i with
  | nil => rfl
  | cons p ps ih =>
    obtain ⟨hnonce, hout⟩ := h 0 p rfl
    have hrest : (ps.map (·.out)).flatten = encodeRecords C key (i + 1) (ps.map (·.text)) := by
      refine ih fun j q hq => ?_
      rw [Nat.add_assoc, Nat.add_comm 1]
      exact h (j + 1) q hq
    rw [List.map_cons, List.flatten_cons, hrest, hout, Piece.record, hnonce, List.map_cons, encodeRecords,
      Nat.add_zero]

/-- **What a run has left**: complete records in order, and behind them records that are not, of which
    at most one can be seen. -/
structure InStream (C : Crypto) (key : Bytes32) (s : Sender) (whole tail : List Piece) : Prop where
  items : s.pieces = whole ++ tail
  inOrder : ∀ (i : Nat) (p : Piece), whole[i]? = some p → p.InOrder C key i
  torn : ∀ p ∈ tail, p.Cut C key
  few : (visible tail).length ≤ 1
  /-- A call that completes no record is the last one. -/
  running : s.stopped = false → tail.length ≤ 1
  nonce : s.e.conn.txNonce = UInt64.ofNat (whole.length + tail.length)
  key : s.e.conn.txKey = key
  wire : s.e.wire = (s.pieces.map (·.out)).flatten
  sum : written s.returns = (total whole : Nat)

theorem inStream_start (txKey rxKey : Bytes32) (script : List Nat) :
    InStream C txKey (sender txKey rxKey script) [] [] :=
  ⟨rfl, fun i p h => (by cases h), fun p hp => absurd hp List.not_mem_nil, Nat.zero_le 1,
    fun _ => Nat.zero_le 1, rfl, rfl, rfl, rfl⟩

theorem InStream.visible_eq (h : InStream C key s whole tail) : visible whole = whole := by
  refine List.filter_eq_self.mpr fun p hp => decide_eq_true ?_
  obtain ⟨i, hi⟩ := List.mem_iff_getElem?.mp hp
  rw [(h.inOrder i p hi).2]
  exact record_ne_nil p

/-- Such a wire is a stream of records. -/
theorem InStream.stream (h : InStream C key s whole tail) : RecordStream C key s := by
  have hwhole : (whole.map (·.out)).flatten = encodeRecords C key 0 (whole.map (·.text)) := by
    refine encodeRecords_whole fun j p hp => ?_
    rw [Nat.zero_add]
    exact h.inOrder j p hp
  have htorn : ∀ p ∈ visible tail, p.Cut C key := fun p hp => h.torn p (List.mem_of_mem_filter hp)
  refine ⟨whole, visible tail, ⟨?_, h.few, h.inOrder, htorn⟩, ?_, h.sum⟩
  · rw [h.items, visible_append, h.visible_eq]
  · rw [h.wire, h.items, List.map_append, List.flatten_append, hwhole, flatten_visible]

theorem total_append (ps qs : List Piece) : total (ps ++ qs) = total ps + total qs := by
  unfold total
  rw [List.map_append, List.sum_append]

theorem written_append (rs : List Int) (r : Int) :
    written (rs ++ [r]) = written rs + if 0 < r then r else 0 := by
  unfold written
  rw [List.filter_append, List.sum_append]
  by_cases hr : 0 < r
  · simp [hr]
  · simp [hr]

theorem sendStep_some (h : sendStep C s data = some s') :
    s.stopped = false ∧ ∃ r e', sendCb C s.e data = (r, e') ∧
      s' = {
        e := e', unsent := if 0 < r then data.drop r.toNat else [], stopped := decide (r < 0)
        returns := s.returns ++ [r], pieces := s.pieces ++ callPieces C s.e data } := by
  unfold sendStep at h
  by_cases hbad : s.stopped = true ∨ (s.unsent ≠ [] ∧ data ≠ s.unsent)
  · rw [if_pos hbad] at h
    cases h
  · rw [if_neg hbad] at h
    rcases hcb : sendCb C s.e data with ⟨r, e'⟩
    rw [hcb] at h
    cases h
    refine ⟨Bool.eq_false_iff.mpr fun hstop => hbad (.inl hstop), r, e', rfl, rfl⟩

/-- The first record of a call. -/
theorem first_piece {e : End} (hne : data ≠ []) :
    ∃ q rest, callPieces C e data = q :: rest ∧ q.nonce = e.conn.txNonce ∧
      (q.out = [] ↔ e.sends.head? = some 0) ∧
      (q.Cut C e.conn.txKey ↔ (takes kHeaderLen e.sends).bind (takes (C.aeadSeal e.conn.txKey
        (recordNonce e.conn.txNonce) [] (data.take kMaxPlaintext)).length) = none) := by
  cases data with
  | nil => exact absurd rfl hne
  | cons b rest =>
    generalize hchunk : (b :: rest).take kMaxPlaintext = chunk
    generalize hct : C.aeadSeal e.conn.txKey (recordNonce e.conn.txNonce) [] chunk = ct
    rcases hs : sendRecord (e.sealed chunk) ct with ⟨ok, e₁⟩
    have hok := sendRecord_fst (e.sealed chunk) ct
    have hsends : (e.sealed chunk).sends = e.sends := rfl
    rw [hs, hsends] at hok
    subst hct hchunk
    obtain ⟨q, hq, hnonce, _, _, hwhole, hcut, hnone⟩ := writePieces_cons rest.length b rest hs
    refine ⟨q, _, hq, hnonce, hnone, ?_⟩
    rw [← Option.isNone_iff_eq_none, ← Option.not_isSome, ← hok]
    cases ok with
    | false => exact ⟨fun _ => rfl, fun _ => hcut rfl⟩
    | true => exact ⟨fun h => absurd (hwhole rfl) h.2, fun h => (by cases h)⟩

/-- The invariant behind a call that completes records only where the last one was complete. -/
theorem InStream.extend {ps t : List Piece} {e' : End} {r : Int} (h : InStream C key s whole tail)
    (hl : Leaves C s.e (whole.length + tail.length) ps t e') (hneg : r < 0 ↔ ps = [])
    (hr : ps ≠ [] → r = (total ps : Nat)) (hone : tail = [] ∨ ps = [])
    (hfew : (visible (tail ++ t)).length ≤ 1) (unsent : Bytes) :
    InStream C key
      { e := e', unsent, stopped := decide (r < 0), returns := s.returns ++ [r]
        pieces := s.pieces ++ (ps ++ t) } (whole ++ ps) (tail ++ t) := by
  refine ⟨?_, fun i p hp => ?_, fun p hp => ?_, hfew, fun hrun => ?_, ?_, ?_, ?_, ?_⟩
  · show s.pieces ++ (ps ++ t) = _
    rw [h.items]
    rcases hone with rfl | rfl
    · simp only [List.append_nil, List.nil_append, List.append_assoc]
    · simp only [List.append_nil, List.nil_append, List.append_assoc]
  · rcases Nat.lt_or_ge i whole.length with hlt | hge
    · rw [List.getElem?_append_left hlt] at hp
      exact h.inOrder i p hp
    · rw [List.getElem?_append_right hge] at hp
      rcases hone with rfl | rfl
      · have hin := (hl.inOrder _ p hp).1
        rwa [h.key, List.length_nil, Nat.add_zero, Nat.add_sub_cancel' hge] at hin
      · cases hp
  · rcases List.mem_append.mp hp with hp | hp
    · exact h.torn p hp
    · rw [← h.key]
      exact (hl.torn p hp).2
  · -- the call has completed a record, so the one before it was complete
    have hps : ps ≠ [] := fun hps => of_decide_eq_false hrun (hneg.mpr hps)
    rcases hone with rfl | rfl
    · exact hl.few
    · exact absurd rfl hps
  · show e'.conn.txNonce = _
    rw [hl.conn]
    simp only [List.length_append]
    congr 1
    omega
  · show e'.conn.txKey = key
    rw [hl.conn, ← h.key]
  · show e'.wire = _
    rw [hl.wire, h.wire, ← List.flatten_append, ← List.map_append]
  · show written (s.returns ++ [r]) = _
    rw [written_append, h.sum]
    by_cases hps : ps = []
    · have hlt := hneg.mpr hps
      rw [if_neg (by omega), hps, List.append_nil, Int.add_zero]
    · rw [hr hps, total_append]
      by_cases hpos : (0 : Int) < (total ps : Nat)
      · rw [if_pos hpos, Nat.cast_add]
      · rw [if_neg hpos]
        omega

theorem InStream.tail_cases (h : InStream C key s whole tail) (hrun : s.stopped = false) :
    tail = [] ∨ ∃ p, tail = [p] ∧ s.pieces.getLast? = some p ∧ p.Cut C key := by
  cases tail with
  | nil => exact .inl rfl
  | cons p rest =>
    have hlen := h.running hrun
    rw [List.length_cons] at hlen
    obtain rfl : rest = [] := List.length_eq_zero_iff.mp (by omega)
    refine .inr ⟨p, rfl, ?_, h.torn p (List.mem_singleton_self p)⟩
    rw [h.items, List.getLast?_concat]

/-- A call whose first record is cut leaves nothing else. -/
theorem Leaves.first_cut {e e' : End} {i : Nat} {q : Piece} {rest t : List Piece} (h : Leaves C e i ps t e')
    (hq : ps ++ t = q :: rest) (hcut : q.Cut C e.conn.txKey) : ps = [] ∧ t = [q] := by
  cases ps with
  | nil =>
    have hfew := h.few
    rw [List.nil_append] at hq
    rw [hq, List.length_cons] at hfew
    obtain rfl : rest = [] := List.length_eq_zero_iff.mp (by omega)
    exact ⟨rfl, hq⟩
  | cons p ps =>
    obtain ⟨rfl, _⟩ := List.cons.inj hq
    exact absurd (h.inOrder 0 p rfl).1.2 hcut.2

theorem visible_pair {q : Piece} (h : p.out = [] ∨ q.out = []) : (visible ([p] ++ [q])).length ≤ 1 := by
  rw [visible_append, List.length_append]
  have hone : ∀ p : Piece, (visible [p]).length ≤ 1 := fun p => List.length_filter_le _ _
  rcases h with h | h
  · rw [visible_cons_neg h]
    exact Nat.le_trans (Nat.le_of_eq (Nat.zero_add _)) (hone q)
  · rw [visible_cons_neg h]
    exact hone p

/-- **A call that is not disturbed keeps the invariant.** -/
theorem inStream_step (h : InStream C key s whole tail) (hs : sendStep C s data = some s')
    (hok : Undisturbed C s data) : ∃ whole' tail', InStream C key s' whole' tail' := by
  obtain ⟨hrun, r, e', hcb, rfl⟩ := sendStep_some hs
  obtain ⟨ps, t, hps, hl, hneg, hr⟩ := sendCb_pieces hcb h.nonce
  rw [hps]
  rcases h.tail_cases hrun with rfl | ⟨p, rfl, hlast, hcut⟩
  · exact ⟨_, _, h.extend hl hneg hr (.inl rfl) (Nat.le_trans (List.length_filter_le _ _) hl.few) _⟩
  by_cases hdata : data = []
  · rw [hdata, callPieces, List.length_nil, writePieces] at hps
    obtain ⟨rfl, rfl⟩ := List.append_eq_nil_iff.mp hps.symm
    exact ⟨_, _, h.extend hl hneg hr (.inr rfl) h.few _⟩
  · -- the first record of the call is cut, and only one of the two can be seen
    obtain ⟨q, rest, hq, _, hnone, hqcut⟩ := first_piece (C := C) (e := s.e) hdata
    have hbehind : q.Cut C s.e.conn.txKey ∧ (p.out = [] ∨ q.out = []) := by
      rcases hok p hlast with hp | hp | hp | ⟨hp, hfail⟩
      · rw [h.key] at hp
        exact absurd hp hcut.2
      · exact absurd hp hdata
      · have hout := hnone.mpr hp
        refine ⟨⟨hout ▸ List.nil_prefix, fun hrec => record_ne_nil q (hrec.symm.trans hout)⟩, .inr hout⟩
      · exact ⟨hqcut.mpr hfail, .inl hp⟩
    obtain ⟨rfl, rfl⟩ := hl.first_cut (hps.symm.trans hq) hbehind.1
    exact ⟨_, _, h.extend hl hneg hr (.inr rfl) (visible_pair hbehind.2) _⟩

theorem ofNat_succ_ne (n : Nat) : UInt64.ofNat (n + 1) ≠ UInt64.ofNat n := by
  rw [ofNat_succ]
  simp

/-- **A call that leaves a stream of records was not disturbed.** -/
theorem undisturbed_of_stream (h : InStream C key s whole tail) (hs : sendStep C s data = some s')
    (hstream : CutShort (Piece.InOrder C key) (Piece.Cut C key) (visible s'.pieces)) :
    Undisturbed C s data := by
  obtain ⟨hrun, r, e', _, rfl⟩ := sendStep_some hs
  intro p hp
  rw [h.key]
  rcases h.tail_cases hrun with rfl | ⟨p', rfl, hlast, hcut⟩
  · have hmem := List.mem_of_getLast? hp
    rw [h.items, List.append_nil] at hmem
    obtain ⟨i, hi⟩ := List.mem_iff_getElem?.mp hmem
    exact .inl (h.inOrder i p hi).2
  obtain rfl : p' = p := Option.some.inj (hlast.symm.trans hp)
  by_cases hdata : data = []
  · exact .inr (.inl hdata)
  by_cases hfirst : s.e.sends.head? = some 0
  · exact .inr (.inr (.inl hfirst))
  -- the call puts something on the wire, behind what there is of `p'`
  obtain ⟨q, rest, hq, hnonce, hnone, hqcut⟩ := first_piece (C := C) (e := s.e) hdata
  have hout : q.out ≠ [] := fun hq => hfirst (hnone.mp hq)
  have hvis : visible (s.pieces ++ callPieces C s.e data) = whole ++ visible [p'] ++ q :: visible rest := by
    rw [hq, h.items, visible_append, visible_append, h.visible_eq, visible_cons_pos hout]
  rw [hvis] at hstream
  have hnil : p'.out = [] := by
    by_contra hne
    rw [visible_cons_pos hne, List.append_assoc] at hstream
    exact hcut.2 hstream.before.2
  rw [visible_cons_neg hnil] at hstream
  rcases hstream.at_or with hin | hin
  · have heq := hnonce.symm.trans hin.1
    rw [h.nonce] at heq
    simp only [visible, List.filter_nil, List.append_nil, List.length_singleton] at heq
    exact absurd heq (ofNat_succ_ne _)
  · rw [← h.key] at hin ⊢
    exact .inr (.inr (.inr ⟨hnil, hqcut.mp hin⟩))

/-- **What the runs without a disturbed call have left.** -/
theorem inStream_run {txKey rxKey : Bytes32} {script : List Nat} {datas : List Bytes}
    (h : Run (Guarded (Of (sendStep C)) (Undisturbed C)) (sender txKey rxKey script) datas s) :
    ∃ whole tail, InStream C txKey s whole tail := by
  refine Run.inv_state (I := fun s => ∃ whole tail, InStream C txKey s whole tail)
    ⟨[], [], inStream_start txKey rxKey script⟩ (fun s data s' hs hstep => ?_) h
  obtain ⟨whole, tail, hinv⟩ := hs
  exact inStream_step hinv hstep.2 hstep.1

/-- A run at whose end the records are in order is one without a disturbed call. -/
theorem guarded_of_cutShort {txKey rxKey : Bytes32} {script : List Nat} {datas : List Bytes}
    (h : Run (Of (sendStep C)) (sender txKey rxKey script) datas s)
    (hc : CutShort (Piece.InOrder C txKey) (Piece.Cut C txKey) (visible s.pieces)) :
    Run (Guarded (Of (sendStep C)) (Undisturbed C)) (sender txKey rxKey script) datas s := by
  induction h with
  | start => exact .start
  | step hrun hs ih =>
    -- the wire only grows, so it was in order before the last call as well
    have hbefore := hc
    obtain ⟨_, r, e', _, rfl⟩ := sendStep_some hs
    rw [visible_append] at hbefore
    have hguarded := ih hbefore.front
    obtain ⟨whole, tail, hinv⟩ := inStream_run hguarded
    exact .step hguarded ⟨undisturbed_of_stream hinv hs hc, hs⟩

end Runs

/-- **The wire of a run is a stream of records exactly if no call of it was disturbed.** -/
theorem outgoing_stream_iff (C : Crypto) (txKey rxKey : Bytes32) (script : List Nat) (datas : List Bytes)
    (s : Sender) (h : Run (Of (sendStep C)) (sender txKey rxKey script) datas s) :
    RecordStream C txKey s ↔
      Run (Guarded (Of (sendStep C)) (Undisturbed C)) (sender txKey rxKey script) datas s := by
  refine ⟨fun hstream => ?_, fun hguarded => ?_⟩
  · obtain ⟨whole, cut, hsplit, _, _⟩ := hstream
    exact guarded_of_cutShort h ⟨whole, cut, hsplit⟩
  · obtain ⟨whole, tail, hinv⟩ := inStream_run hguarded
    exact hinv.stream

instance (C : Crypto) (s : Sender) (data : Bytes) : Decidable (Undisturbed C s data) :=
  inferInstanceAs (Decidable (∀ p ∈ s.pieces.getLast?, _))

/-- The second record of the first call is cut, and the second call fails at once. -/
theorem outgoing_stream_stopped :
    ∃ s, Run (Of (sendStep .sample)) (sender zero32 zero32 [3, 5000, 2, 0, 0])
        [List.replicate 4078 0, [0]] s ∧
      s.returns = [4077, -902] ∧ RecordStream .sample zero32 s := by
  have hexec : (exec (checked (sendStep .sample) fun s data => decide (Undisturbed .sample s data))
      (sender zero32 zero32 [3, 5000, 2, 0, 0]) [List.replicate 4078 0, [0]]).any
      (fun s => decide (s.returns = [4077, -902])) = true := by decide +kernel
  obtain ⟨s, hs, hret⟩ := (Option.any_eq_true _ _).mp hexec
  have hguarded : Run (Guarded (Of (sendStep .sample)) (Undisturbed .sample)) _ _ s :=
    (guarded_of_exec hs).mono fun s data s' h => ⟨of_decide_eq_true h.1, h.2⟩
  have hrun : Run (Of (sendStep .sample)) _ _ s := hguarded.mono fun s data s' h => h.2
  exact ⟨s, hrun, of_decide_eq_true hret, (outgoing_stream_iff _ _ _ _ _ _ hrun).mpr hguarded⟩

/-- **The wire is not always a stream of records.** A send fails inside the second record of a call, the
    caller presents the rest, and the socket takes it: a complete record behind one that is cut. -/
theorem outgoing_broken :
    ∃ s, Run (Of (sendStep .sample)) (sender zero32 zero32 [3, 5000, 2, 0]) [List.replicate 4078 0, [0]] s ∧
      s.returns = [4077, 1] ∧ ¬ RecordStream .sample zero32 s := by
  have hexec : (sendStep .sample (sender zero32 zero32 [3, 5000, 2, 0]) (List.replicate 4078 0)).any
      (fun s₁ => !decide (Undisturbed .sample s₁ [0]) &&
        (sendStep .sample s₁ [0]).any fun s => decide (s.returns = [4077, 1])) = true := by decide +kernel
  obtain ⟨s₁, h₁, hrest⟩ := (Option.any_eq_true _ _).mp hexec
  obtain ⟨hdist, hrest⟩ := Bool.and_eq_true_iff.mp hrest
  obtain ⟨s, hs, hret⟩ := (Option.any_eq_true _ _).mp hrest
  have hone : Run (Of (sendStep .sample)) (sender zero32 zero32 [3, 5000, 2, 0])
      ([] ++ [List.replicate 4078 0]) s₁ := .step .start h₁
  obtain ⟨whole, tail, hinv⟩ :=
    inStream_step (inStream_start zero32 zero32 [3, 5000, 2, 0]) h₁ (fun p hp => (by cases hp))
  refine ⟨s, hone.step hs, of_decide_eq_true hret, fun hstream => ?_⟩
  obtain ⟨whole', cut, hsplit, _, _⟩ := hstream
  rw [Bool.not_eq_true', decide_eq_false_iff_not] at hdist
  exact hdist (undisturbed_of_stream hinv hs ⟨whole', cut, hsplit⟩)

end Wirebone
