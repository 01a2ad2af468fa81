/-
  File:      Wirebone/Noise/RoundTrip.lean
  Subject:   WHAT IS WRITTEN IS READ: the record layer over a transport that does not fail.

  A `Link` is two ends with mirrored keys and the bytes between them. The sender writes buffers of
  any length; the receiver reads with any positive sizes; at every read the transport cuts the
  bytes in flight anew, into any non-empty segments, and every `send` moves any positive number of
  bytes.

  * `read_records`, `writeLoop_flows` -- a read of whole records in flight, and a write that puts them there;
  * `InFlight` -- the invariant: what is written is what has been read, what the receiver holds
    and the chunks in flight, in order, with the two nonce counters that far apart;
  * **`link_roundTrip`** -- every write returns its full length, no record fails the length test,
    the reads return the bytes written in order, each at least one byte.
-/
import Wirebone.Lib.Lts
import Wirebone.Noise.Integrity

namespace Wirebone

open ByteString Socket Lts

/-! ## 1. The link -/

structure Link where
  sender : End
  receiver : End
  /-- The bytes sent and not yet received. -/
  flight : Bytes := []
  /-- The buffers written, each with what `write` returned. -/
  written : List (Bytes × Int) := []
  /-- What each `read` returned. -/
  got : List Bytes := []

inductive LinkEvent where
  /-- A write; `sends` is how many bytes each `send` moves. -/
  | write (buf : Bytes) (sends : List Nat)
  /-- A read; `cut` is how the transport cuts what is in flight. -/
  | read (n : Int) (cut : List Bytes)

/-- The bytes written so far. -/
def Link.input (l : Link) : Bytes := (l.written.map (·.1)).flatten

/-- The link after a write. -/
def Link.afterWrite (C : Crypto) (l : Link) (buf : Bytes) (sends : List Nat) : Link :=
  let (r, e) := write C { l.sender with sends, wire := [] } buf
  { l with sender := e, flight := l.flight ++ e.wire, written := l.written ++ [(buf, r)] }

/-- The link after a read. -/
def Link.afterRead (C : Crypto) (l : Link) (n : Int) (cut : List Bytes) : Link :=
  let (out, e) := read C { l.receiver with incoming := cut } n
  { l with receiver := e, flight := e.incoming.flatten, got := l.got ++ [out] }

/-- The steps of a link whose transport does not fail. A read with nothing left to deliver is no
    step: its `recv` waits. -/
inductive LinkStep (C : Crypto) : Link → LinkEvent → Link → Prop where
  | write (l : Link) (buf : Bytes) (sends : List Nat) (hflows : Flows sends) :
      LinkStep C l (.write buf sends) (l.afterWrite C buf sends)
  | read (l : Link) (n : Int) (cut : List Bytes) (hn : 0 < n) (hcut : cut.flatten = l.flight)
      (hdel : Delivers cut) (hleft : l.got.flatten ≠ l.input) :
      LinkStep C l (.read n cut) (l.afterRead C n cut)

/-- Two fresh ends with mirrored keys. -/
def Link.fresh (key key' : Bytes32) : Link :=
  { sender := { conn := noiseConn key key' }, receiver := { conn := noiseConn key' key } }

/-! ## 2. One write and one read -/

section Record

variable {C : Crypto}

/-- A read over whole records in flight returns bytes as long as there are any, and takes them
    from the front. -/
theorem read_records (hC : C.AeadInverts) {e : End} {i : Nat} {pending : List Bytes} {n : Int}
    (hn : 0 < n) (hdel : Delivers e.incoming) (hi : e.conn.rxNonce = UInt64.ofNat i)
    (hsize : ∀ p ∈ pending, p ≠ [] ∧ p.length ≤ kMaxPlaintext)
    (hin : e.incoming.flatten = encodeRecords C e.conn.rxKey i pending)
    (hleft : e.conn.plaintext ++ pending.flatten ≠ []) :
    ∃ out e' k, read C e n = (out, e') ∧ out ≠ [] ∧ k ≤ pending.length ∧
      out ++ e'.conn.plaintext ++ (pending.drop k).flatten = e.conn.plaintext ++ pending.flatten ∧
      e'.incoming.flatten = encodeRecords C e.conn.rxKey (i + k) (pending.drop k) ∧
      e'.conn.rxNonce = UInt64.ofNat (i + k) ∧ e'.conn.rxKey = e.conn.rxKey ∧
      (∀ o ∈ e'.outcomes, o ∈ e.outcomes ∨ o = .ok) := by
  -- the loop ends with plaintext: at once, or after one record
  have hloop : ∃ e₁ k, readLoop C (e.incoming.flatten.length + 1) e = (true, e₁) ∧
      e₁.conn.plaintext ≠ [] ∧ k ≤ pending.length ∧
      e₁.conn.plaintext ++ (pending.drop k).flatten = e.conn.plaintext ++ pending.flatten ∧
      e₁.incoming.flatten = encodeRecords C e.conn.rxKey (i + k) (pending.drop k) ∧
      e₁.conn.rxNonce = UInt64.ofNat (i + k) ∧ e₁.conn.rxKey = e.conn.rxKey ∧
      (∀ o ∈ e₁.outcomes, o ∈ e.outcomes ∨ o = .ok) := by
    by_cases hp : e.conn.plaintext = []
    · cases pending with
      | nil => exact absurd (by rw [hp]; rfl) hleft
      | cons p ps =>
        obtain ⟨hne, hle⟩ := hsize p List.mem_cons_self
        rw [encodeRecords, ← hi] at hin
        obtain ⟨net, hnet, _, hd⟩ := decryptOne_record hC hdel hle hin
        generalize C.aeadSeal e.conn.rxKey (recordNonce e.conn.rxNonce) [] p = ct at hd
        have hpt : (e.opened net ct p).conn.plaintext = p := by
          simp only [End.opened, hp, List.nil_append]
        refine ⟨e.opened net ct p, 1, ?_, ?_, ?_, ?_, hnet, ?_, rfl, ?_⟩
        · rw [readLoop_eq, if_pos hp, hd]
          exact readLoop_done (hpt.symm ▸ hne)
        · rw [hpt]
          exact hne
        · rw [List.length_cons]
          omega
        · rw [hpt, hp, List.drop_one, List.tail_cons, List.flatten_cons, List.nil_append]
        · rw [ofNat_succ, ← hi]
          rfl
        · intro o ho
          simpa [End.opened] using ho
    · exact ⟨e, 0, readLoop_done hp, hp, Nat.zero_le _, rfl, hin, hi, rfl, fun o ho => .inl ho⟩
  obtain ⟨e₁, k, hl, hne, hk, hbytes, hflight, hnonce, hkey, hout⟩ := hloop
  have htake : 0 < min n.toNat e₁.conn.plaintext.length := by
    have := List.length_pos_iff.mpr hne
    omega
  rw [read, if_neg (by omega), hl]
  refine ⟨_, _, k, rfl, ?_, hk, ?_, hflight, hnonce, hkey, hout⟩
  · rw [← List.length_pos_iff, List.length_take]
    omega
  · rw [List.take_append_drop, hbytes]

/-- A write over a socket that does not fail puts its chunks on the wire, and returns its full
    length. -/
theorem writeLoop_flows (sent : Nat) {fuel i : Nat} {rest : Bytes} {e : End} (hf : rest.length ≤ fuel)
    (hi : e.conn.txNonce = UInt64.ofNat i) (hflows : Flows e.sends) :
    ∃ chunks e', writeLoop C fuel sent rest e = (((sent + rest.length : Nat) : Int), e') ∧
      chunks.flatten = rest ∧ (∀ p ∈ chunks, p ≠ [] ∧ p.length ≤ kMaxPlaintext) ∧
      e'.wire = e.wire ++ encodeRecords C e.conn.txKey i chunks ∧
      e'.conn.txNonce = UInt64.ofNat (i + chunks.length) ∧ e'.conn.txKey = e.conn.txKey := by
  induction fuel generalizing sent rest e i with
  | zero =>
    obtain rfl : rest = [] := List.length_eq_zero_iff.mp (by omega)
    exact ⟨[], e, rfl, rfl, by simp, by simp [encodeRecords], hi, rfl⟩
  | succ fuel ih =>
    cases rest with
    | nil => exact ⟨[], e, rfl, rfl, by simp, by simp [encodeRecords], hi, rfl⟩
    | cons b rest =>
      rw [writeLoop_cons]
      generalize hp : (b :: rest).take kMaxPlaintext = p
      have hsplit : p ++ (b :: rest).drop kMaxPlaintext = b :: rest := by
        rw [← hp, List.take_append_drop]
      have hlen : p.length + ((b :: rest).drop kMaxPlaintext).length = (b :: rest).length := by
        rw [← List.length_append, hsplit]
      have hpos : 0 < p.length ∧ p.length ≤ kMaxPlaintext := by
        rw [← hp, List.length_take, kMaxPlaintext, kMaxMessage, List.length_cons]
        omega
      obtain ⟨sends, hflows', hs⟩ := sendRecord_flows (e := e.sealed p)
        (C.aeadSeal e.conn.txKey (recordNonce e.conn.txNonce) [] p) hflows
      rw [hs]
      simp only [List.length_cons] at hf hlen
      obtain ⟨ps, e', hw, hflat, hsize, hwire, hn, hkey⟩ := @ih (sent + p.length) (i + 1)
        ((b :: rest).drop kMaxPlaintext) { e.sealed p with
          wire := (e.sealed p).wire ++
            encodeRecord (C.aeadSeal e.conn.txKey (recordNonce e.conn.txNonce) [] p)
          sends := sends } (by omega) (by rw [ofNat_succ, ← hi]; rfl) hflows'
      refine ⟨p :: ps, e', ?_, ?_, ?_, ?_, ?_, hkey⟩
      · simp only [hw, Prod.mk.injEq, and_true]
        simp only [List.length_cons]
        omega
      · rw [List.flatten_cons, hflat, hsplit]
      · intro q hq
        rcases List.mem_cons.mp hq with rfl | hq
        · exact ⟨List.length_pos_iff.mp hpos.1, hpos.2⟩
        · exact hsize q hq
      · rw [hwire, encodeRecords, ← hi, List.append_assoc]
        rfl
      · rw [hn, List.length_cons, Nat.add_comm ps.length, ← Nat.add_assoc]

theorem encodeRecords_append (key : Bytes32) (i : Nat) (ps qs : List Bytes) :
    encodeRecords C key i (ps ++ qs) =
      encodeRecords C key i ps ++ encodeRecords C key (i + ps.length) qs := by
  induction ps generalizing i with
  | nil => rfl
  | cons p ps ih =>
    rw [List.cons_append, encodeRecords, encodeRecords, ih, List.length_cons, List.append_assoc,
      Nat.add_assoc, Nat.add_comm 1]

end Record

/-! ## 3. The invariant of a link -/

/-- **What is between the two ends**: whole records, opened in the order they were sealed. -/
structure InFlight (C : Crypto) (l : Link) (i : Nat) (pending : List Bytes) : Prop where
  rxNonce : l.receiver.conn.rxNonce = UInt64.ofNat i
  txNonce : l.sender.conn.txNonce = UInt64.ofNat (i + pending.length)
  keys : l.sender.conn.txKey = l.receiver.conn.rxKey
  flight : l.flight = encodeRecords C l.receiver.conn.rxKey i pending
  size : ∀ p ∈ pending, p ≠ [] ∧ p.length ≤ kMaxPlaintext
  bytes : l.input = l.got.flatten ++ l.receiver.conn.plaintext ++ pending.flatten

/-- What every step of a link has returned so far is as it should be. -/
structure Link.Good (l : Link) : Prop where
  returns : ∀ w ∈ l.written, w.2 = w.1.length
  opens : ∀ o ∈ l.receiver.outcomes, o = .ok
  nonempty : ∀ out ∈ l.got, out ≠ []

theorem linkStep_inFlight {C : Crypto} (hC : C.AeadInverts) {l l' : Link} {ev : LinkEvent}
    (h : LinkStep C l ev l') (hgood : l.Good) (hinv : ∃ i pending, InFlight C l i pending) :
    l'.Good ∧ ∃ i pending, InFlight C l' i pending := by
  obtain ⟨i, pending, hinv⟩ := hinv
  cases h with
  | write buf sends hflows =>
    obtain ⟨chunks, e', hw, hflat, hsize, hwire, hn, hkey⟩ :=
      writeLoop_flows (C := C) 0 (e := { l.sender with sends, wire := [] })
        (Nat.le_refl buf.length) hinv.txNonce hflows
    rw [Nat.zero_add] at hw
    have hl : l.afterWrite C buf sends =
        { l with sender := e', flight := l.flight ++ e'.wire
                 written := l.written ++ [(buf, (buf.length : Int))] } := by
      rw [Link.afterWrite, write, hw]
    rw [hl]
    refine ⟨⟨?_, hgood.opens, hgood.nonempty⟩, i, pending ++ chunks, hinv.rxNonce, ?_, ?_, ?_, ?_, ?_⟩
    · intro w hw
      rcases List.mem_append.mp hw with hw | hw
      · exact hgood.returns w hw
      · rw [List.mem_singleton.mp hw]
    · rw [List.length_append, ← Nat.add_assoc]
      exact hn
    · exact hkey.trans hinv.keys
    · show l.flight ++ e'.wire = _
      rw [hwire, hinv.flight, encodeRecords_append]
      show _ ++ encodeRecords C l.sender.conn.txKey _ _ = _
      rw [hinv.keys]
    · intro p hp
      rcases List.mem_append.mp hp with hp | hp
      · exact hinv.size p hp
      · exact hsize p hp
    · have hin : ({ l with sender := e', flight := l.flight ++ e'.wire
                           written := l.written ++ [(buf, (buf.length : Int))] } : Link).input =
          l.input ++ buf := by simp [Link.input]
      rw [hin, hinv.bytes, List.flatten_append, hflat]
      simp only [List.append_assoc]
  | read n cut hn hcut hdel hleft =>
    have hne : l.receiver.conn.plaintext ++ pending.flatten ≠ [] := by
      intro hnil
      refine hleft ?_
      rw [hinv.bytes, List.append_assoc, hnil, List.append_nil]
    obtain ⟨out, e', k, hread, hout, hk, hbytes, hflight, hnonce, hkey, hoks⟩ :=
      read_records hC (e := { l.receiver with incoming := cut }) hn hdel hinv.rxNonce hinv.size
        (hcut.trans hinv.flight) hne
    have hl : l.afterRead C n cut =
        { l with receiver := e', flight := e'.incoming.flatten, got := l.got ++ [out] } := by
      rw [Link.afterRead, hread]
    rw [hl]
    refine ⟨⟨hgood.returns, ?_, ?_⟩, i + k, pending.drop k, hnonce, ?_, ?_, ?_, ?_, ?_⟩
    · intro o ho
      rcases hoks o ho with ho | ho
      · exact hgood.opens o ho
      · exact ho
    · intro o ho
      rcases List.mem_append.mp ho with ho | ho
      · exact hgood.nonempty o ho
      · rw [List.mem_singleton.mp ho]
        exact hout
    · show l.sender.conn.txNonce = _
      rw [hinv.txNonce, List.length_drop]
      congr 1
      omega
    · exact hinv.keys.trans hkey.symm
    · show e'.incoming.flatten = _
      rw [hflight, hkey]
    · exact fun p hp => hinv.size p (List.mem_of_mem_drop hp)
    · show l.input = (l.got ++ [out]).flatten ++ e'.conn.plaintext ++ (pending.drop k).flatten
      rw [hinv.bytes, List.flatten_append, List.flatten_singleton]
      simp only [List.append_assoc] at hbytes ⊢
      rw [hbytes]

/-- **Record-layer round trip.** In every run of a link: every write returned its full length, no
    record failed the length test of `decrypt_one`, every read returned at least one byte, and the
    bytes read so far are the front of the bytes written so far. -/
theorem link_roundTrip (C : Crypto) (hC : C.AeadInverts) (key key' : Bytes32)
    (es : List LinkEvent) (l : Link) (h : Run (LinkStep C) (Link.fresh key key') es l) :
    (∀ w ∈ l.written, w.2 = w.1.length) ∧ .wrongLength ∉ l.receiver.outcomes ∧
      (∀ out ∈ l.got, out ≠ []) ∧ l.got.flatten <+: l.input := by
  have hinv : l.Good ∧ ∃ i pending, InFlight C l i pending := by
    refine h.inv_state (I := fun l => l.Good ∧ ∃ i pending, InFlight C l i pending) ?_ ?_
    · refine ⟨⟨by simp [Link.fresh], by simp [Link.fresh], by simp [Link.fresh]⟩, 0, [], ?_⟩
      exact ⟨rfl, rfl, rfl, rfl, by simp, rfl⟩
    · intro l ev l' hl hstep
      exact linkStep_inFlight hC hstep hl.1 hl.2
  obtain ⟨hgood, i, pending, hin⟩ := hinv
  refine ⟨hgood.returns, ?_, hgood.nonempty, ?_⟩
  · intro hmem
    cases hgood.opens _ hmem
  · rw [hin.bytes, List.append_assoc]
    exact List.prefix_append _ _

/-- A write of three bytes, sent in three pieces, and a read of two of them, cut after the
    header's type byte. -/
def sampleWritten : Link := (Link.fresh zero32 (bytes32 [1])).afterWrite .sample [7, 8, 9] [1, 2]

def sampleCut : List Bytes := [sampleWritten.flight.take 1, sampleWritten.flight.drop 1]

theorem link_roundTrip_sample :
    Run (LinkStep .sample) (Link.fresh zero32 (bytes32 [1])) [.write [7, 8, 9] [1, 2], .read 2 sampleCut]
        (sampleWritten.afterRead .sample 2 sampleCut) ∧
      (sampleWritten.afterRead .sample 2 sampleCut).got = [[7, 8]] ∧
      (sampleWritten.afterRead .sample 2 sampleCut).got.flatten <+:
        (sampleWritten.afterRead .sample 2 sampleCut).input := by
  have hwrite : LinkStep .sample (Link.fresh zero32 (bytes32 [1])) (.write [7, 8, 9] [1, 2])
      sampleWritten := .write _ _ _ (by unfold Flows; decide)
  have hread : LinkStep .sample sampleWritten (.read 2 sampleCut)
      (sampleWritten.afterRead .sample 2 sampleCut) :=
    .read _ _ _ (by decide) (by simp [sampleCut, -List.drop_one]) (by unfold Delivers; decide +kernel)
      (by decide +kernel)
  have hrun := Run.step (Run.step .start hwrite) hread
  refine ⟨hrun, by decide +kernel, ?_⟩
  exact (link_roundTrip .sample ⟨sampleOpen_seal, sampleSeal_length⟩ zero32 (bytes32 [1]) _ _
    hrun).2.2.2

end Wirebone
