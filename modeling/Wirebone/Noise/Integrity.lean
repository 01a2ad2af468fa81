/-
  File:      Wirebone/Noise/Integrity.lean
  Subject:   WHAT AN ATTACKER CAN DO TO A RECORD STREAM: CUT IT SHORT.

  The peer seals its chunks under the nonces 0, 1, 2, ..; the receiver opens under the number of
  records it has opened. The bytes on the wire are the attacker's.

  * `Crypto.Ideal` -- what is assumed of the AEAD, for the opens that occur;
  * `Received` -- the invariant of the receiver: what it has handed out and what it still holds
    are the first `rx_nonce_` chunks the peer has sealed;
  * `decryptOne_record` -- a record in flight is opened, whatever its segments are;
  * **`reads_integrity`** -- over any stream and any reads, the bytes read are a prefix of the bytes
    sealed, which are the bytes written as long as no write is made after a failed one; no nonce
    is used twice;
  * `reads_skip` -- a write after a failed one: the bytes the failed one did not seal are
    missing from the stream.
-/
import Mathlib.Data.List.Nodup
import Wirebone.Noise.Record

namespace Wirebone

open ByteString Socket

/-! ## 1. The assumption on the AEAD -/

/-- A call that opens a ciphertext finds one that a seal among `seals` made, under the same key,
    nonce and associated data. -/
def Crypto.Genuine (C : Crypto) (seals : List Call) : Call → Prop
  | .opened k n ad ct =>
    ∀ p ∈ C.aeadOpen k n ad ct, Call.sealed k n ad p ∈ seals ∧ ct = C.aeadSeal k n ad p
  | _ => True

/-- **The ideal AEAD**, for the opens that occur. -/
def Crypto.Ideal (C : Crypto) (seals opens : List Call) : Prop := ∀ c ∈ opens, C.Genuine seals c

instance (C : Crypto) (seals : List Call) : (c : Call) → Decidable (C.Genuine seals c)
  | .opened k n ad ct => inferInstanceAs (Decidable (∀ p ∈ C.aeadOpen k n ad ct,
      Call.sealed k n ad p ∈ seals ∧ ct = C.aeadSeal k n ad p))
  | .hashed _ => isTrue trivial
  | .sealed _ _ _ _ => isTrue trivial

instance (C : Crypto) (seals opens : List Call) : Decidable (C.Ideal seals opens) :=
  inferInstanceAs (Decidable (∀ c ∈ opens, C.Genuine seals c))

theorem Crypto.Ideal.mono {C : Crypto} {seals opens opens' : List Call} (h : C.Ideal seals opens)
    (hp : opens' <+: opens) : C.Ideal seals opens' :=
  fun c hc => h c (hp.subset hc)

/-- The plaintexts sealed by a sequence of calls, and the nonces they were sealed under. -/
def sealedTexts (calls : List Call) : List Bytes :=
  calls.filterMap fun | .sealed _ _ _ p => some p | _ => none

def sealedNonces (calls : List Call) : List Bytes :=
  calls.filterMap fun | .sealed _ n _ _ => some n | _ => none

/-! ## 2. The sender -/

theorem sealedTexts_sealCalls (key : Bytes32) (i : Nat) (chunks : List Bytes) :
    sealedTexts (sealCalls key i chunks) = chunks := by
  induction chunks generalizing i with
  | nil => rfl
  | cons p ps ih =>
    rw [sealCalls_cons]
    exact congrArg (p :: ·) (ih (i + 1))

theorem sealedNonces_sealCalls (key : Bytes32) (i : Nat) (chunks : List Bytes) :
    sealedNonces (sealCalls key i chunks) =
      (List.range' i chunks.length).map fun j => recordNonce (UInt64.ofNat j) := by
  induction chunks generalizing i with
  | nil => rfl
  | cons p ps ih =>
    rw [sealCalls_cons, List.length_cons, List.range'_succ, List.map_cons]
    exact congrArg (_ :: ·) (ih (i + 1))

/-- The nonce bytes determine the counter. -/
theorem recordNonce_inj {i j : Nat} (hi : i < 2 ^ 64) (hj : j < 2 ^ 64)
    (h : recordNonce (UInt64.ofNat i) = recordNonce (UInt64.ofNat j)) : i = j := by
  have hb := bigEndian_inj (w := 8) (UInt64.toNat_lt _) (UInt64.toNat_lt _)
    (List.append_cancel_left h)
  rwa [UInt64.toNat_ofNat_of_lt' hi, UInt64.toNat_ofNat_of_lt' hj] at hb

/-- Below `2 ^ 64` seals, a nonce belongs to one chunk. -/
theorem mem_sealCalls {key k : Bytes32} {chunks : List Bytes} {j : Nat} {ad p : Bytes}
    (hlen : chunks.length < 2 ^ 64) (hj : j < 2 ^ 64)
    (h : .sealed k (recordNonce (UInt64.ofNat j)) ad p ∈ sealCalls key 0 chunks) :
    chunks[j]? = some p := by
  rw [sealCalls, List.mem_mapIdx] at h
  obtain ⟨i, hi, hc⟩ := h
  obtain ⟨_, hn, _, rfl⟩ := Call.sealed.inj hc
  rw [Nat.zero_add] at hn
  obtain rfl := recordNonce_inj (lt_trans hi hlen) hj hn
  exact List.getElem?_eq_getElem hi

theorem sealCalls_append (key : Bytes32) (i : Nat) (ps qs : List Bytes) :
    sealCalls key i (ps ++ qs) = sealCalls key i ps ++ sealCalls key (i + ps.length) qs := by
  induction ps generalizing i with
  | nil => simp [sealCalls]
  | cons p ps ih =>
    rw [List.cons_append, sealCalls_cons, sealCalls_cons, ih, List.length_cons, List.cons_append,
      Nat.add_assoc, Nat.add_comm 1]

/-- What a write has sealed of its buffer, given what it returned. -/
def SealedPart (w : Int × Bytes) (part : Bytes) : Prop :=
  part <+: w.2 ∧ (w.1 = w.2.length → part = w.2)

theorem writes_spec {C : Crypto} {bufs : List Bytes} {e e' : End} {rs : List Int} {i : Nat}
    (h : writes C e bufs = (rs, e')) (hi : e.conn.txNonce = UInt64.ofNat i) :
    ∃ chunks parts, Wrote e i chunks e' ∧ chunks.flatten = parts.flatten ∧
      rs.length = bufs.length ∧ List.Forall₂ SealedPart (rs.zip bufs) parts := by
  induction bufs generalizing e rs i with
  | nil =>
    cases h
    exact ⟨[], [], .nil hi, rfl, rfl, .nil⟩
  | cons buf bufs ih =>
    rw [writes] at h
    rcases hw : write C e buf with ⟨r, e₁⟩
    rcases hws : writes C e₁ bufs with ⟨rs', e₂⟩
    rw [hw] at h
    simp only [hws] at h
    cases h
    obtain ⟨ps, hwrote, hpre, hfull⟩ := write_spec hw hi
    have hi₁ : e₁.conn.txNonce = UInt64.ofNat (i + ps.length) := by rw [hwrote.conn]
    obtain ⟨qs, parts, hwrote', hflat, hlen, hall⟩ := ih hws hi₁
    refine ⟨ps ++ qs, ps.flatten :: parts, ⟨?_, ?_⟩, ?_, ?_, .cons ⟨hpre, hfull⟩ hall⟩
    · rw [hwrote'.calls, hwrote.calls, hwrote.conn, sealCalls_append, List.append_assoc]
    · rw [hwrote'.conn, hwrote.conn, List.length_append, Nat.add_assoc]
    · rw [List.flatten_append, List.flatten_cons, hflat]
    · rw [List.length_cons, List.length_cons, hlen]

/-- Where every write but the last returned its full length, what was sealed is a prefix of what
    was written. -/
theorem parts_of_full {ws : List (Int × Bytes)} {parts : List Bytes}
    (h : List.Forall₂ SealedPart ws parts)
    (hfull : ∀ w ∈ ws.dropLast, w.1 = w.2.length) : parts.flatten <+: (ws.map (·.2)).flatten := by
  induction h with
  | nil => exact List.prefix_rfl
  | @cons w part ws parts hw hall ih =>
    cases hall with
    | nil => simpa using hw.1
    | cons hw' hall' =>
      obtain rfl := hw.2 (hfull w (by simp))
      rw [List.map_cons, List.flatten_cons, List.flatten_cons]
      exact (List.prefix_append_right_inj _).mpr
        (ih fun v hv => hfull v (by rw [List.dropLast_cons_cons]; exact List.mem_cons_of_mem _ hv))

/-! ## 3. The receiver -/

/-- **The invariant of the receiver**: it has opened the first `rx_nonce_` chunks, and what it has
    handed out (`got`) and what it still holds is what they contain. -/
structure Received (chunks : List Bytes) (got : Bytes) (e : End) : Prop where
  opened : e.conn.rxNonce.toNat ≤ chunks.length
  bytes : got ++ e.conn.plaintext = (chunks.take e.conn.rxNonce.toNat).flatten

section Receiver

variable {C : Crypto} {key : Bytes32} {chunks : List Bytes} {got : Bytes} {e e' : End}

theorem decryptOne_calls {o : Decrypt} (h : decryptOne C e = (o, e')) : e.calls <+: e'.calls := by
  rcases decryptOne_cases h with ⟨_, _, _, _, _, _, _, _, _, _, rfl⟩ | ⟨_, _, hc⟩
  · exact List.prefix_append _ _
  · exact hc

theorem decryptOne_received {o : Decrypt} (hlen : chunks.length < 2 ^ 64)
    (hr : Received chunks got e) (h : decryptOne C e = (o, e'))
    (hideal : C.Ideal (sealCalls key 0 chunks) e'.calls) : Received chunks got e' := by
  rcases decryptOne_cases h with ⟨_, _, _, ct, net', pt, _, _, _, hopen, rfl⟩ | ⟨_, hc, _⟩
  · -- the record opened: it is the peer's, sealed under this nonce, so it is the next chunk
    have hmem := hideal (.opened e.conn.rxKey (recordNonce e.conn.rxNonce) [] ct)
      (by simp [End.opened]) pt hopen
    have hnonce : UInt64.ofNat e.conn.rxNonce.toNat = e.conn.rxNonce := by simp
    rw [← hnonce] at hmem
    have hget := mem_sealCalls hlen (lt_of_le_of_lt hr.opened hlen) hmem.1
    obtain ⟨hlt, _⟩ := List.getElem?_eq_some_iff.mp hget
    have hsucc : (e.conn.rxNonce + 1).toNat = e.conn.rxNonce.toNat + 1 := by
      rw [UInt64.toNat_add]
      exact Nat.mod_eq_of_lt (lt_of_le_of_lt hlt hlen)
    refine ⟨?_, ?_⟩
    · show (e.conn.rxNonce + 1).toNat ≤ _
      rw [hsucc]
      exact hlt
    · show got ++ (e.conn.plaintext ++ pt) = (chunks.take (e.conn.rxNonce + 1).toNat).flatten
      rw [hsucc, List.take_add_one, hget, List.flatten_append, ← hr.bytes, List.append_assoc]
      simp
  · exact ⟨by rw [hc]; exact hr.opened, by rw [hc]; exact hr.bytes⟩

theorem readLoop_calls {fuel : Nat} {ok : Bool} (h : readLoop C fuel e = (ok, e')) :
    e.calls <+: e'.calls := by
  induction fuel generalizing e with
  | zero =>
    cases h
    exact List.prefix_rfl
  | succ fuel ih =>
    by_cases hp : e.conn.plaintext = []
    · rcases hd : decryptOne C e with ⟨o, e₁⟩
      have hcalls := decryptOne_calls hd
      by_cases ho : o = .ok
      · subst ho
        rw [readLoop_succ hp hd] at h
        exact hcalls.trans (ih h)
      · rw [readLoop_fail hp hd ho] at h
        cases h
        exact hcalls
    · rw [readLoop_done hp] at h
      cases h
      exact List.prefix_rfl

theorem readLoop_received {fuel : Nat} {ok : Bool} (hlen : chunks.length < 2 ^ 64)
    (hr : Received chunks got e) (h : readLoop C fuel e = (ok, e'))
    (hideal : C.Ideal (sealCalls key 0 chunks) e'.calls) : Received chunks got e' := by
  induction fuel generalizing e with
  | zero =>
    cases h
    exact hr
  | succ fuel ih =>
    by_cases hp : e.conn.plaintext = []
    · rcases hd : decryptOne C e with ⟨o, e₁⟩
      by_cases ho : o = .ok
      · subst ho
        rw [readLoop_succ hp hd] at h
        exact ih (decryptOne_received hlen hr hd (hideal.mono (readLoop_calls h))) h
      · rw [readLoop_fail hp hd ho] at h
        cases h
        exact decryptOne_received hlen hr hd hideal
    · rw [readLoop_done hp] at h
      cases h
      exact hr

/-- What a `read` can do: nothing, or run its loop and hand out the front of the plaintext. -/
theorem read_cases {n : Int} {out : Bytes} (h : read C e n = (out, e')) :
    (n ≤ 0 ∧ out = [] ∧ e' = e) ∨
    ∃ ok e₁, readLoop C (e.incoming.flatten.length + 1) e = (ok, e₁) ∧ e'.calls = e₁.calls ∧
      e'.conn.rxNonce = e₁.conn.rxNonce ∧ out ++ e'.conn.plaintext = e₁.conn.plaintext := by
  unfold read at h
  by_cases hn : n ≤ 0
  · rw [if_pos hn] at h
    cases h
    exact .inl ⟨hn, rfl, rfl⟩
  · rw [if_neg hn] at h
    rcases hl : readLoop C (e.incoming.flatten.length + 1) e with ⟨_ | _, e₁⟩
    · rw [hl] at h
      cases h
      exact .inr ⟨false, e', rfl, rfl, rfl, rfl⟩
    · rw [hl] at h
      cases h
      exact .inr ⟨true, e₁, rfl, rfl, rfl, List.take_append_drop _ _⟩

theorem read_calls {n : Int} {out : Bytes} (h : read C e n = (out, e')) : e.calls <+: e'.calls := by
  rcases read_cases h with ⟨_, _, rfl⟩ | ⟨ok, e₁, hl, hc, _⟩
  · exact List.prefix_rfl
  · rw [hc]
    exact readLoop_calls hl

theorem read_received {n : Int} {out : Bytes} (hlen : chunks.length < 2 ^ 64)
    (hr : Received chunks got e) (h : read C e n = (out, e'))
    (hideal : C.Ideal (sealCalls key 0 chunks) e'.calls) : Received chunks (got ++ out) e' := by
  rcases read_cases h with ⟨_, rfl, rfl⟩ | ⟨ok, e₁, hl, hc, hn, hp⟩
  · rw [List.append_nil]
    exact hr
  · obtain ⟨hle, hbytes⟩ := readLoop_received hlen hr hl (hc ▸ hideal)
    refine ⟨by rw [hn]; exact hle, ?_⟩
    rw [hn, List.append_assoc, hp]
    exact hbytes

theorem reads_calls {ns : List Int} {outs : List Bytes} (h : reads C e ns = (outs, e')) :
    e.calls <+: e'.calls := by
  induction ns generalizing e outs with
  | nil =>
    cases h
    exact List.prefix_rfl
  | cons n ns ih =>
    rw [reads] at h
    rcases hr : read C e n with ⟨out, e₁⟩
    rcases hrs : reads C e₁ ns with ⟨outs', e₂⟩
    rw [hr] at h
    simp only [hrs] at h
    cases h
    exact (read_calls hr).trans (ih hrs)

theorem reads_received {ns : List Int} {outs : List Bytes} (hlen : chunks.length < 2 ^ 64)
    (hr : Received chunks got e) (h : reads C e ns = (outs, e'))
    (hideal : C.Ideal (sealCalls key 0 chunks) e'.calls) :
    Received chunks (got ++ outs.flatten) e' := by
  induction ns generalizing e outs got with
  | nil =>
    cases h
    simpa using hr
  | cons n ns ih =>
    rw [reads] at h
    rcases hread : read C e n with ⟨out, e₁⟩
    rcases hrs : reads C e₁ ns with ⟨outs', e₂⟩
    rw [hread] at h
    simp only [hrs] at h
    cases h
    have hr₁ := read_received hlen hr hread (hideal.mono (reads_calls hrs))
    rw [List.flatten_cons, ← List.append_assoc]
    exact ih hr₁ hrs

end Receiver

/-! ## 4. A write after a failed write -/

section Skip

variable {C : Crypto}

theorem lengthAccepted_chunk {n : Nat} (h : n ≤ kMaxPlaintext) : lengthAccepted (n + 16) = true := by
  have hlow : ¬ n + 16 < 16 := by omega
  have hhigh : ¬ kMaxMessage - kHeaderLen < n + 16 := by
    simp only [kMaxPlaintext, kMaxMessage, kHeaderLen] at h ⊢
    omega
  rw [lengthAccepted, decide_eq_false hlow, decide_eq_false hhigh]
  rfl

/-- **A record in flight is opened**, however the transport cuts the stream. -/
theorem decryptOne_record (hC : C.AeadInverts) {e : End} {p rest : Bytes}
    (hdel : Delivers e.incoming) (hp : p.length ≤ kMaxPlaintext)
    (hin : e.incoming.flatten = encodeRecord
      (C.aeadSeal e.conn.rxKey (recordNonce e.conn.rxNonce) [] p) ++ rest) :
    ∃ net, net.flatten = rest ∧ Delivers net ∧ decryptOne C e = (.ok, e.opened net
      (C.aeadSeal e.conn.rxKey (recordNonce e.conn.rxNonce) [] p) p) := by
  generalize hct : C.aeadSeal e.conn.rxKey (recordNonce e.conn.rxNonce) [] p = ct at hin ⊢
  have hlen : ct.length = p.length + 16 := by rw [← hct, hC.tag]
  have hsmall : p.length ≤ 4077 := hp
  have hv : (UInt16.ofNat ct.length).toNat = p.length + 16 := by
    rw [UInt16.toNat_ofNat_of_lt' (by simp only [UInt16.size]; omega), hlen]
  -- the header
  have hhdr : ([kMsgRecord] ++ putBe16 (UInt16.ofNat ct.length)).length = kHeaderLen := by
    simp [putBe16, kHeaderLen]
  rw [encodeRecord, List.append_assoc] at hin
  obtain ⟨h1, h1', h1''⟩ := recvAll_flatten (n := kHeaderLen) hdel (by
    rw [hin, List.length_append, hhdr]
    omega)
  rcases hr1 : recvAll kHeaderLen e.incoming with ⟨o1, net1⟩
  rw [hr1] at h1 h1' h1''
  simp only at h1 h1' h1''
  rw [hin, List.take_left' hhdr] at h1
  rw [hin, List.drop_left' hhdr] at h1'
  -- the ciphertext
  have hget : (getBe16 ([kMsgRecord] ++ putBe16 (UInt16.ofNat ct.length)) 1).toNat = ct.length := by
    rw [getBe16_drop, List.singleton_append, List.drop_one, List.tail_cons,
      ← List.append_nil (putBe16 _), getBe16_putBe16, hv, hlen]
  obtain ⟨h2, h2', h2''⟩ := recvAll_flatten (n := ct.length) h1'' (by
    rw [h1', List.length_append]
    omega)
  rcases hr2 : recvAll ct.length net1 with ⟨o2, net2⟩
  rw [hr2] at h2 h2' h2''
  simp only at h2 h2' h2''
  rw [h1', List.take_left' rfl] at h2
  rw [h1', List.drop_left' rfl] at h2'
  refine ⟨net2, h2', h2'', ?_⟩
  have hopen : C.aeadOpen e.conn.rxKey (recordNonce e.conn.rxNonce) [] ct = some p := by
    rw [← hct, hC.opens]
  have hacc : lengthAccepted ct.length = true := by rw [hlen]; exact lengthAccepted_chunk hp
  have htype : ([kMsgRecord] ++ putBe16 (UInt16.ofNat ct.length)).getD 0 0 = kMsgRecord := rfl
  unfold decryptOne decryptBody
  simp only [hr1, h1, htype, ne_eq, not_true_eq_false, if_false, hget, hacc, Bool.true_eq_false,
    hr2, h2, hopen]
  rfl

/-- A write whose first `send` fails has sealed its first chunk. -/
theorem write_fails {e : End} {buf : Bytes} {ws : List Nat} (hb : buf ≠ []) (hs : e.sends = 0 :: ws) :
    write C e buf = (-1, { e.sealed (buf.take kMaxPlaintext) with wire := e.wire ++ [], sends := ws }) := by
  cases buf with
  | nil => exact absurd rfl hb
  | cons b rest =>
    have hsend : ∀ ct, sendRecord (e.sealed ((b :: rest).take kMaxPlaintext)) ct =
        (false, { e.sealed ((b :: rest).take kMaxPlaintext) with wire := e.wire ++ [], sends := ws }) := by
      intro ct
      have hall : sendAll ([kMsgRecord] ++ putBe16 (UInt16.ofNat ct.length)) (0 :: ws) =
          (false, [], ws) := by
        simp [sendAll, sendLoop, send]
      rw [sendRecord, show (e.sealed ((b :: rest).take kMaxPlaintext)).sends = 0 :: ws from hs, hall]
      rfl
    rw [write, List.length_cons, writeLoop_cons, hsend]
    rfl

/-- A read large enough returns the next record whole. -/
theorem read_whole (hC : C.AeadInverts) {e : End} {p : Bytes} (rest : Bytes) {n : Int}
    (hn : p.length ≤ n.toNat)
    (hdel : Delivers e.incoming) (hp : p.length ≤ kMaxPlaintext) (hne : p ≠ [])
    (hpt : e.conn.plaintext = [])
    (hin : e.incoming.flatten = encodeRecord
      (C.aeadSeal e.conn.rxKey (recordNonce e.conn.rxNonce) [] p) ++ rest) :
    ∃ e', read C e n = (p, e') ∧ e'.incoming.flatten = rest ∧ Delivers e'.incoming ∧
      e'.conn = { e.conn with rxNonce := e.conn.rxNonce + 1 } ∧
      e'.calls = e.calls ++ [.opened e.conn.rxKey (recordNonce e.conn.rxNonce) []
        (C.aeadSeal e.conn.rxKey (recordNonce e.conn.rxNonce) [] p)] := by
  obtain ⟨net, hnet, hdel', hd⟩ := decryptOne_record hC hdel hp hin
  generalize C.aeadSeal e.conn.rxKey (recordNonce e.conn.rxNonce) [] p = ct at hd ⊢
  have hpt' : (e.opened net ct p).conn.plaintext = p := by
    simp only [End.opened, hpt, List.nil_append]
  have hloop : readLoop C (e.incoming.flatten.length + 1) e = (true, e.opened net ct p) := by
    rw [readLoop_eq, if_pos hpt, hd]
    exact readLoop_done (hpt'.symm ▸ hne)
  have hpos := List.length_pos_iff.mpr hne
  have hmin : min n.toNat p.length = p.length := by omega
  refine ⟨{ e.opened net ct p with conn := { (e.opened net ct p).conn with plaintext := [] } },
    ?_, hnet, hdel', ?_, rfl⟩
  · rw [read, if_neg (by omega), hloop]
    simp only [hpt', hmin, List.take_length, List.drop_length]
  · simp only [End.opened, ← hpt]

/-- A write of one byte that goes out. -/
theorem write_byte {e : End} (hs : e.sends = []) (b : UInt8) :
    ∃ wire sends, write C e [b] = (1, { e.sealed [b] with wire := wire, sends := sends }) := by
  obtain ⟨sends, _, h⟩ := sendRecord_flows (e := e.sealed [b])
    (C.aeadSeal e.conn.txKey (recordNonce e.conn.txNonce) [] [b])
    (by show Flows e.sends; rw [hs]; exact List.forall_mem_nil _)
  refine ⟨e.wire ++ encodeRecord (C.aeadSeal e.conn.txKey (recordNonce e.conn.txNonce) [] [b]),
    sends, ?_⟩
  have htake : [b].take kMaxPlaintext = [b] := rfl
  rw [write, List.length_singleton, writeLoop_cons, htake, h]
  rfl

/-- After a failed write of `buf` the next write goes on with nonce 1. -/
theorem writes_skip (key : Bytes32) {buf p : Bytes} (hb : buf ≠ []) (hp : buf.take kMaxPlaintext = p) :
    (writes C { conn := noiseConn key key, sends := [0] } [buf, [1]]).2.calls =
      sealCalls key 0 [p, [1]] := by
  rw [writes, write_fails hb rfl, hp]
  obtain ⟨wire, sends, h⟩ := write_byte (C := C) (e := { End.sealed
    { conn := noiseConn key key, sends := [0] } p with wire := [] ++ [], sends := [] }) rfl 1
  simp only [writes, h]
  rfl

/-- The receiver of two records returns both, and has opened nothing else. -/
theorem reads_two (hC : C.AeadInverts) (key : Bytes32) {p : Bytes} (hp : p ≠ [])
    (hle : p.length ≤ kMaxPlaintext) :
    ∃ e', reads C { conn := noiseConn key key, incoming := [encodeRecords C key 0 [p, [1]]] }
        [5000, 5000] = ([p, [1]], e') ∧
      e'.calls = [.opened key (recordNonce 0) [] (C.aeadSeal key (recordNonce 0) [] p),
        .opened key (recordNonce 1) [] (C.aeadSeal key (recordNonce 1) [] [1])] := by
  have hsmall : p.length ≤ 4077 := hle
  obtain ⟨e₁, h1, hin, hdel, hconn, hcalls⟩ := read_whole hC
    (e := { conn := noiseConn key key, incoming := [encodeRecords C key 0 [p, [1]]] })
    (p := p) (encodeRecords C key 1 [[1]]) (n := 5000)
    (by show p.length ≤ 5000; omega)
    (by
      intro seg hseg
      rw [List.mem_singleton.mp hseg]
      exact List.cons_ne_nil _ _)
    hle hp rfl (List.append_nil _)
  have hrec : encodeRecords C key 1 [[1]] = encodeRecord
      (C.aeadSeal e₁.conn.rxKey (recordNonce e₁.conn.rxNonce) [] [1]) ++ [] := by
    rw [hconn]
    rfl
  obtain ⟨e₂, h2, _, _, _, hcalls'⟩ := read_whole hC (e := e₁) (p := [1]) [] (n := 5000)
    (by decide) hdel (by decide) (by decide) (by rw [hconn]; rfl) (hin.trans hrec)
  refine ⟨e₂, ?_, ?_⟩
  · simp only [reads, h1, h2]
  · rw [hcalls', hcalls, hconn]
    rfl

/-- Both records are the sender's: the AEAD has been ideal. -/
theorem ideal_two (hC : C.AeadInverts) (key : Bytes32) (p : Bytes) :
    C.Ideal (sealCalls key 0 [p, [1]])
      [.opened key (recordNonce 0) [] (C.aeadSeal key (recordNonce 0) [] p),
        .opened key (recordNonce 1) [] (C.aeadSeal key (recordNonce 1) [] [1])] := by
  intro c hc
  rcases List.mem_cons.mp hc with rfl | hc
  · intro q hq
    obtain rfl := Option.some.inj ((hC.opens _ _ _ _).symm.trans hq)
    exact ⟨List.mem_cons_self, rfl⟩
  · obtain rfl := List.mem_singleton.mp hc
    intro q hq
    obtain rfl := Option.some.inj ((hC.opens _ _ _ _).symm.trans hq)
    exact ⟨List.mem_cons_of_mem _ List.mem_cons_self, rfl⟩

/-- A byte that `x` repeats once less often than `y` is missed. -/
theorem replicate_not_prefixed {n : Nat} {a b : UInt8} (hab : a ≠ b) :
    ¬ List.replicate n a ++ [b] <+: List.replicate (n + 1) a ++ [b] := by
  rintro ⟨t, ht⟩
  rw [List.replicate_succ', List.append_assoc, List.append_assoc] at ht
  exact hab (List.cons.inj (List.append_cancel_left ht)).1.symm

end Skip

/-! ## 5. Integrity -/

/-- **Record-layer integrity.** Whatever stream `net` the attacker delivers and whatever is read,
    the bytes read are a prefix of the bytes the peer has sealed; of every buffer a prefix was
    sealed, all of it where the write returned its full length; so the bytes read are a prefix of
    the bytes written unless a write was made after one that failed. No two seals share a
    nonce. -/
theorem reads_integrity (C : Crypto) (txKey rxKey txKey' rxKey' : Bytes32) (bufs : List Bytes)
    (sends : List Nat) (net : List Bytes) (sizes : List Int) (rs : List Int) (outs : List Bytes)
    (S R : End) (hW : writes C { conn := noiseConn txKey rxKey, sends := sends } bufs = (rs, S))
    (hR : reads C { conn := noiseConn txKey' rxKey', incoming := net } sizes = (outs, R))
    (hseals : (sealedTexts S.calls).length < 2 ^ 64) (hideal : C.Ideal S.calls R.calls) :
    outs.flatten <+: (sealedTexts S.calls).flatten ∧
      (∃ parts, parts.flatten = (sealedTexts S.calls).flatten ∧ rs.length = bufs.length ∧
        List.Forall₂ SealedPart (rs.zip bufs) parts) ∧
      ((∀ w ∈ (rs.zip bufs).dropLast, w.1 = w.2.length) → outs.flatten <+: bufs.flatten) ∧
      (sealedNonces S.calls).Nodup := by
  obtain ⟨chunks, parts, hwrote, hflat, hlen, hall⟩ := writes_spec (i := 0) hW rfl
  have hcalls : S.calls = sealCalls txKey 0 chunks := by
    rw [hwrote.calls]
    rfl
  have htexts : sealedTexts S.calls = chunks := by rw [hcalls, sealedTexts_sealCalls]
  rw [htexts] at hseals ⊢
  rw [hcalls] at hideal
  have hstart : Received chunks [] { conn := noiseConn txKey' rxKey', incoming := net } :=
    ⟨Nat.zero_le _, rfl⟩
  have hend := reads_received hseals hstart hR hideal
  have hread : outs.flatten <+: chunks.flatten := by
    have htake : (chunks.take R.conn.rxNonce.toNat).flatten <+: chunks.flatten :=
      ⟨(chunks.drop R.conn.rxNonce.toNat).flatten, by
        rw [← List.flatten_append, List.take_append_drop]⟩
    rw [← hend.bytes] at htake
    exact (List.prefix_append _ _).trans htake
  refine ⟨hread, ⟨parts, hflat.symm, hlen, hall⟩, ?_, ?_⟩
  · intro hfull
    have hpre := parts_of_full hall hfull
    rw [List.map_snd_zip (le_of_eq hlen.symm), ← hflat] at hpre
    exact hread.trans hpre
  · rw [hcalls, sealedNonces_sealCalls]
    refine List.Nodup.map_on ?_ List.nodup_range'
    intro i hi j hj hij
    rw [List.mem_range'_1] at hi hj
    exact recordNonce_inj (by omega) (by omega) hij

/-- Two writes of the sample primitives. -/
def sampleWrites : List Int × End :=
  writes .sample { conn := noiseConn zero32 zero32 } [[1, 2, 3], [4]]

/-- Three reads of the first record, delivered twice. -/
def sampleReads : List Bytes × End :=
  reads .sample
    { conn := noiseConn zero32 zero32
      incoming := [encodeRecords .sample zero32 0 [[1, 2, 3]] ++
        encodeRecords .sample zero32 0 [[1, 2, 3]]] } [2, 5, 5]

theorem reads_integrity_sample :
    (sealedTexts sampleWrites.2.calls).length < 2 ^ 64 ∧
      Crypto.sample.Ideal sampleWrites.2.calls sampleReads.2.calls ∧
      sampleReads.1.flatten = [1, 2, 3] ∧ sampleReads.1.flatten <+: [[1, 2, 3], [4]].flatten := by
  have hseals : (sealedTexts sampleWrites.2.calls).length < 2 ^ 64 := by decide +kernel
  have hideal : Crypto.sample.Ideal sampleWrites.2.calls sampleReads.2.calls := by decide +kernel
  refine ⟨hseals, hideal, by decide +kernel, ?_⟩
  exact (reads_integrity .sample zero32 zero32 zero32 zero32 [[1, 2, 3], [4]] [] _ _ sampleWrites.1
    sampleReads.1 sampleWrites.2 sampleReads.2 (Prod.eta sampleWrites).symm (Prod.eta sampleReads).symm
    hseals hideal).2.2.1 (by decide +kernel)

/-- A write of 4078 bytes whose first `send` fails, and a write after it. -/
def failedWrites : List Int × End :=
  writes .sample { conn := noiseConn zero32 zero32, sends := [0] } [List.replicate 4078 0, [1]]

/-- Two reads of the two records that were sealed. -/
def bothReads : List Bytes × End :=
  reads .sample
    { conn := noiseConn zero32 zero32
      incoming := [encodeRecords .sample zero32 0 [List.replicate 4077 0, [1]]] } [5000, 5000]

/-- The failed write has sealed 4077 bytes, and the next write goes on with the next nonce: the
    bytes read are no prefix of the bytes written, byte 4078 is missing. -/
theorem reads_skip :
    (sealedTexts failedWrites.2.calls).length < 2 ^ 64 ∧
      Crypto.sample.Ideal failedWrites.2.calls bothReads.2.calls ∧
      ¬ bothReads.1.flatten <+: [List.replicate 4078 0, [1]].flatten := by
  have hbig : (List.replicate 4078 (0 : UInt8)) ≠ [] :=
    List.ne_nil_of_length_pos (by rw [List.length_replicate]; decide)
  have htake : (List.replicate 4078 (0 : UInt8)).take kMaxPlaintext = List.replicate 4077 0 :=
    List.take_replicate
  obtain ⟨R, hR, hopens⟩ := reads_two (C := .sample) ⟨sampleOpen_seal, sampleSeal_length⟩ zero32
    (p := List.replicate 4077 0) (List.ne_nil_of_length_pos (by rw [List.length_replicate]; decide))
    (by rw [List.length_replicate]; decide)
  have hR' : bothReads = ([List.replicate 4077 0, [1]], R) := hR
  have hW := writes_skip (C := .sample) zero32 hbig htake
  rw [← failedWrites] at hW
  rw [hW, hR', sealedTexts_sealCalls, hopens]
  refine ⟨by decide, ideal_two ⟨sampleOpen_seal, sampleSeal_length⟩ zero32 _, ?_⟩
  exact replicate_not_prefixed (by decide)

end Wirebone
