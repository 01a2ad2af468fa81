/-
  File:      Wirebone/Http2/Serve.lean
  Subject:   NOTHING IS LEFT BEHIND WHILE THE SERVER WAITS.

  `H2Server::run` waits in `poll` for the socket alone. Bytes that have been decrypted and not been
  handed to nghttp2 would wait there with it, until the client sends something else.

  * `sessionSend`, `pass` -- one pass of the loop, from one `poll` to the next. What `poll`, nghttp2 and
    the callbacks answer is the pass's own; `none` is a pass that leaves the loop;
  * `Crypto.OpensWithin` -- what is assumed of the AEAD: a tag is 16 bytes;
  * `readLoop_accepted` -- the loop of `read` ends with the text of one record, which the buffer of
    `run` has room for;
  * **`served_in_full`** -- at every `poll` the plaintext buffer is empty, and what has been handed to
    nghttp2 is the text of the records accepted so far.
-/
import Wirebone.Http2.Outgoing
import Wirebone.Noise.Integrity

namespace Wirebone

open ByteString Socket Lts

/-! ## 1. The loop -/

/-- `nghttp2_session_send`, which hands out `datas`: whether it returns 0. An error of `send_cb` ends it,
    and `NGHTTP2_ERR_WOULDBLOCK` is not one that it returns. -/
def sessionSend (C : Crypto) : End → List Bytes → Bool × End
  | e, [] => (true, e)
  | e, data :: datas =>
    match sendCb C e data with
    | (r, e') =>
      if r = kErrWouldblock then (true, e') else if r < 0 then (false, e') else sessionSend C e' datas

/-- What nghttp2 has to send, and whether it fails of itself. -/
structure Output where
  datas : List Bytes
  fails : Bool := false

/-- What the parties of one pass do. -/
structure Pass where
  /-- `pr < 0`. -/
  pollFails : Bool := false
  /-- `POLLERR`, `POLLHUP` or `POLLNVAL`. -/
  hangup : Bool := false
  /-- `POLLIN`. -/
  readable : Bool := false
  /-- `nghttp2_session_mem_recv` returns a negative number, or a handler that it calls throws. -/
  recvFails : Bool := false
  /-- What is sent where `nghttp2_session_want_write` says so, the first and the second time. -/
  first : Option Output := none
  /-- `on_extra` or `on_tick` throws. -/
  throws : Bool := false
  second : Option Output := none
  /-- nghttp2 wants neither to read nor to write. -/
  done : Bool := false

/-- A session in `run`. -/
structure H2Server where
  e : End
  /-- What `nghttp2_session_mem_recv` has been given. -/
  handed : List Bytes := []

/-- `sizeof(buf)`. -/
def kBufSize : Int := 8192

/-- The socket is readable. -/
def receive (C : Crypto) (s : H2Server) (fails : Bool) : Option H2Server :=
  match read C s.e kBufSize with
  | ([], _) => none
  | (b :: out, e) => if fails then none else some { e, handed := s.handed ++ [b :: out] }

/-- `if (nghttp2_session_want_write(session_)) ..`. -/
def flush (C : Crypto) (s : H2Server) : Option Output → Option H2Server
  | none => some s
  | some o =>
    match sessionSend C s.e o.datas with
    | (ok, e) => if ok && !o.fails then some { s with e } else none

/-- One pass of the loop. -/
def pass (C : Crypto) (s : H2Server) (p : Pass) : Option H2Server :=
  if p.pollFails || p.hangup then none
  else
    (if p.readable then receive C s p.recvFails else some s).bind fun s =>
    (flush C s p.first).bind fun s =>
    if p.throws then none
    else (flush C s p.second).bind fun s => if p.done then none else some s

/-- The session as `run` finds it: a new connection, to which the constructor of `H2Server` has sent
    its settings (or failed to). -/
def h2Server (C : Crypto) (txKey rxKey : Bytes32) (incoming : List Bytes) (sends : List Nat)
    (settings : List Bytes) : H2Server :=
  { e := (sessionSend C { conn := noiseConn txKey rxKey, incoming, sends } settings).2 }

/-! ## 2. What is asked -/

/-- What an `aead_open` has accepted. -/
def Call.accepted (C : Crypto) : Call → Option Bytes
  | .opened k n ad ct => C.aeadOpen k n ad ct
  | .hashed _ | .sealed _ _ _ _ => none

/-- The texts of the records that have been accepted. -/
def acceptedTexts (C : Crypto) (calls : List Call) : List Bytes := calls.filterMap (Call.accepted C)

/-- **Nothing is left behind.** -/
structure Drained (C : Crypto) (s : H2Server) : Prop where
  empty : s.e.conn.plaintext = []
  handed : s.handed.flatten = (acceptedTexts C s.e.calls).flatten

/-- A text is at least 16 bytes shorter than the ciphertext it comes from. -/
def Crypto.OpensWithin (C : Crypto) : Prop :=
  ∀ k n ad ct p, C.aeadOpen k n ad ct = some p → p.length + 16 ≤ ct.length

theorem sample_opensWithin : Crypto.sample.OpensWithin := by
  intro k n ad ct p h
  change sampleOpen k n ad ct = some p at h
  unfold sampleOpen at h
  by_cases heq : sampleSeal k n ad (ct.take (ct.length - 16)) = ct
  · rw [if_pos heq] at h
    cases h
    have hlen := congrArg List.length heq
    rw [sampleSeal_length] at hlen
    omega
  · rw [if_neg heq] at h
    cases h

/-! ## 3. Sending leaves what has been received alone -/

section Sending

variable {C : Crypto} {e e' : End}

theorem acceptedTexts_append (C : Crypto) (calls calls' : List Call) :
    acceptedTexts C (calls ++ calls') = acceptedTexts C calls ++ acceptedTexts C calls' :=
  List.filterMap_append

theorem acceptedTexts_sealCalls (key : Bytes32) (i : Nat) (chunks : List Bytes) :
    acceptedTexts C (sealCalls key i chunks) = [] := by
  induction chunks generalizing i with
  | nil => rfl
  | cons p ps ih =>
    rw [sealCalls_cons]
    exact ih (i + 1)

/-- The receiving side of a connection. -/
def SameReceived (C : Crypto) (e e' : End) : Prop :=
  e'.conn.plaintext = e.conn.plaintext ∧ acceptedTexts C e'.calls = acceptedTexts C e.calls

theorem sendCb_received {data : Bytes} {r : Int} (h : sendCb C e data = (r, e')) : SameReceived C e e' := by
  unfold sendCb at h
  rcases hw : write C e data with ⟨n, e₁⟩
  rw [hw] at h
  cases h
  obtain ⟨chunks, hwrote, _, _⟩ := write_spec hw (UInt64.ofNat_toNat (x := e.conn.txNonce)).symm
  refine ⟨by rw [hwrote.conn], ?_⟩
  rw [hwrote.calls, acceptedTexts_append, acceptedTexts_sealCalls, List.append_nil]

theorem sessionSend_received {datas : List Bytes} {ok : Bool} (h : sessionSend C e datas = (ok, e')) :
    SameReceived C e e' := by
  induction datas generalizing e with
  | nil =>
    cases h
    exact ⟨rfl, rfl⟩
  | cons data datas ih =>
    rcases hcb : sendCb C e data with ⟨r, e₁⟩
    rw [sessionSend, hcb] at h
    have hone := sendCb_received hcb
    by_cases hblock : r = kErrWouldblock
    · simp only [if_pos hblock] at h
      cases h
      exact hone
    · by_cases hneg : r < 0
      · simp only [if_neg hblock, if_pos hneg] at h
        cases h
        exact hone
      · simp only [if_neg hblock, if_neg hneg] at h
        have hrest := ih h
        exact ⟨hrest.1.trans hone.1, hrest.2.trans hone.2⟩

theorem Drained.send {s : H2Server} (h : Drained C s) (hs : SameReceived C s.e e') :
    Drained C { s with e := e' } :=
  ⟨hs.1.trans h.empty, h.handed.trans (congrArg List.flatten hs.2.symm)⟩

theorem flush_drained {s s' : H2Server} {o : Option Output} (h : Drained C s) (hf : flush C s o = some s') :
    Drained C s' := by
  cases o with
  | none =>
    cases hf
    exact h
  | some o =>
    unfold flush at hf
    rcases hs : sessionSend C s.e o.datas with ⟨ok, e₁⟩
    simp only [hs] at hf
    by_cases hok : (ok && !o.fails) = true
    · rw [if_pos hok] at hf
      cases hf
      exact h.send (sessionSend_received hs)
    · rw [if_neg hok] at hf
      cases hf

end Sending

/-! ## 4. One pass -/

section Passes

variable {C : Crypto} {e e' : End}

/-- An accepted record fits into the buffer of `run`. -/
theorem decryptOne_accepted (hC : C.OpensWithin) (hp : e.conn.plaintext = [])
    (h : decryptOne C e = (.ok, e')) :
    (acceptedTexts C e'.calls).flatten = (acceptedTexts C e.calls).flatten ++ e'.conn.plaintext ∧
      (e'.conn.plaintext.length : Int) ≤ kBufSize := by
  rcases decryptOne_cases h with ⟨_, hdr, net, ct, net', pt, _, hacc, hct, hopen, rfl⟩ | ⟨hne, _⟩
  · have hplain : (e.opened net' ct pt).conn.plaintext = pt := by
      rw [End.opened, hp, List.nil_append]
    refine ⟨?_, ?_⟩
    · have hone : acceptedTexts C [.opened e.conn.rxKey (recordNonce e.conn.rxNonce) [] ct] = [pt] := by
        rw [acceptedTexts, List.filterMap_cons_some (by exact hopen), List.filterMap_nil]
      rw [hplain, End.opened, acceptedTexts_append, hone, List.flatten_append, List.flatten_singleton]
    · have hlen := hC _ _ _ _ _ hopen
      rw [(recvAll_some hct).1] at hlen
      simp only [lengthAccepted, Bool.not_eq_true', Bool.or_eq_false_iff, decide_eq_false_iff_not] at hacc
      have hmost := hacc.2
      rw [kMaxMessage, kHeaderLen] at hmost
      rw [hplain, kBufSize]
      omega
  · exact absurd rfl hne

/-- **The loop of `read` ends with the text of one record**, whatever empty ones came before it. -/
theorem readLoop_accepted {fuel : Nat} (hC : C.OpensWithin) (hp : e.conn.plaintext = [])
    (h : readLoop C fuel e = (true, e')) :
    (acceptedTexts C e'.calls).flatten = (acceptedTexts C e.calls).flatten ++ e'.conn.plaintext ∧
      (e'.conn.plaintext.length : Int) ≤ kBufSize := by
  induction fuel generalizing e with
  | zero => cases h
  | succ fuel ih =>
    rcases hd : decryptOne C e with ⟨o, e₁⟩
    by_cases ho : o = .ok
    · subst ho
      rw [readLoop_succ hp hd] at h
      have hone := decryptOne_accepted hC hp hd
      by_cases hp₁ : e₁.conn.plaintext = []
      · have hrest := ih hp₁ h
        rw [hone.1, hp₁, List.append_nil] at hrest
        exact hrest
      · cases fuel with
        | zero => cases h
        | succ fuel =>
          rw [readLoop_done hp₁] at h
          cases h
          exact hone
    · rw [readLoop_fail hp hd ho] at h
      cases h

/-- A `read` of `run` takes all there is. -/
theorem read_accepted {out : Bytes} (hC : C.OpensWithin) (hp : e.conn.plaintext = []) (hout : out ≠ [])
    (h : read C e kBufSize = (out, e')) :
    e'.conn.plaintext = [] ∧
      (acceptedTexts C e'.calls).flatten = (acceptedTexts C e.calls).flatten ++ out := by
  unfold read at h
  rw [if_neg (by decide)] at h
  rcases hl : readLoop C (e.incoming.flatten.length + 1) e with ⟨_ | _, e₁⟩
  · rw [hl] at h
    cases h
    exact absurd rfl hout
  · obtain ⟨htexts, hlen⟩ := readLoop_accepted hC hp hl
    have hmin : min kBufSize.toNat e₁.conn.plaintext.length = e₁.conn.plaintext.length := by
      unfold kBufSize at hlen ⊢
      omega
    rw [hl] at h
    simp only [hmin, List.take_length, List.drop_length] at h
    cases h
    exact ⟨rfl, htexts⟩

theorem receive_drained {s s' : H2Server} {fails : Bool} (hC : C.OpensWithin) (h : Drained C s)
    (hr : receive C s fails = some s') : Drained C s' := by
  unfold receive at hr
  rcases hread : read C s.e kBufSize with ⟨_ | ⟨b, out⟩, e₁⟩
  · rw [hread] at hr
    cases hr
  · rw [hread] at hr
    obtain ⟨hempty, htexts⟩ := read_accepted hC h.empty (List.cons_ne_nil b out) hread
    cases fails with
    | true => cases hr
    | false =>
      cases hr
      refine ⟨hempty, ?_⟩
      rw [htexts, List.flatten_append, h.handed, List.flatten_singleton]

/-- **A pass that comes back to `poll` leaves nothing behind.** -/
theorem pass_drained {s s' : H2Server} {p : Pass} (hC : C.OpensWithin) (h : Drained C s)
    (hs : pass C s p = some s') : Drained C s' := by
  unfold pass at hs
  by_cases hpoll : (p.pollFails || p.hangup) = true
  · rw [if_pos hpoll] at hs
    cases hs
  rw [if_neg hpoll] at hs
  obtain ⟨s₁, hrecv, hs⟩ := Option.bind_eq_some_iff.mp hs
  obtain ⟨s₂, hfirst, hs⟩ := Option.bind_eq_some_iff.mp hs
  have h₁ : Drained C s₁ := by
    by_cases hread : p.readable = true
    · rw [if_pos hread] at hrecv
      exact receive_drained hC h hrecv
    · rw [if_neg hread] at hrecv
      cases hrecv
      exact h
  by_cases hthrow : p.throws = true
  · rw [if_pos hthrow] at hs
    cases hs
  rw [if_neg hthrow] at hs
  obtain ⟨s₃, hsecond, hs⟩ := Option.bind_eq_some_iff.mp hs
  by_cases hdone : p.done = true
  · rw [if_pos hdone] at hs
    cases hs
  · rw [if_neg hdone] at hs
    cases hs
    exact flush_drained (flush_drained h₁ hfirst) hsecond

end Passes

/-! ## 5. Every `poll` -/

theorem h2Server_drained (C : Crypto) (txKey rxKey : Bytes32) (incoming : List Bytes) (sends : List Nat)
    (settings : List Bytes) : Drained C (h2Server C txKey rxKey incoming sends settings) := by
  have hnew : Drained C { e := { conn := noiseConn txKey rxKey, incoming, sends } } := ⟨rfl, rfl⟩
  exact hnew.send (sessionSend_received rfl)

/-- **Nothing is left behind while the server waits**: at every `poll` of every run, whatever the socket
    delivers and nghttp2 and the callbacks do, the plaintext buffer is empty, and what nghttp2 has been
    given is the text of the records accepted so far, in order. -/
theorem served_in_full (C : Crypto) (hC : C.OpensWithin) (txKey rxKey : Bytes32) (incoming : List Bytes)
    (sends : List Nat) (settings : List Bytes) (passes : List Pass) (s : H2Server)
    (h : Run (Of (pass C)) (h2Server C txKey rxKey incoming sends settings) passes s) :
    s.e.conn.plaintext = [] ∧ s.handed.flatten = (acceptedTexts C s.e.calls).flatten := by
  have hdrained : Drained C s := by
    refine Run.inv_state (h2Server_drained C txKey rxKey incoming sends settings) ?_ h
    intro s p s' hs hpass
    exact pass_drained hC hs hpass
  exact ⟨hdrained.empty, hdrained.handed⟩

def sampleStream : Bytes := encodeRecords .sample zero32 0 [[7, 8], [], [9]]

/-- Two records with text and an empty one between them, in two deliveries. -/
theorem served_in_full_sample :
    ∃ s, Run (Of (pass .sample))
        (h2Server .sample zero32 zero32 [sampleStream.take 5, sampleStream.drop 5] [2, 1, 4] [[1, 2, 3]])
        [{ readable := true }, { first := some ⟨[[4]], false⟩ }, { readable := true }] s ∧
      s.handed = [[7, 8], [9]] ∧
      s.e.conn.plaintext = [] ∧ s.handed.flatten = (acceptedTexts .sample s.e.calls).flatten := by
  have hexec : (exec (pass .sample)
      (h2Server .sample zero32 zero32 [sampleStream.take 5, sampleStream.drop 5] [2, 1, 4] [[1, 2, 3]])
      [{ readable := true }, { first := some ⟨[[4]], false⟩ }, { readable := true }]).any
      (fun s => decide (s.handed = [[7, 8], [9]])) = true := by decide +kernel
  obtain ⟨s, hs, hhanded⟩ := (Option.any_eq_true _ _).mp hexec
  have hrun := run_of_exec hs
  exact ⟨s, hrun, of_decide_eq_true hhanded, served_in_full _ sample_opensWithin _ _ _ _ _ _ _ hrun⟩

end Wirebone
