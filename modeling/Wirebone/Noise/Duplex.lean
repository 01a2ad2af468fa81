/-
  File:      Wirebone/Noise/Duplex.lean
  Subject:   THE SESSION: a handshake, and then both ends reading and writing.

  After the handshake each side owns ONE `NoiseConn`, which it writes to and reads from. A `Duplex`
  is the two connections and the bytes under way in both directions; each direction by itself is a
  `Link`, and a step of one direction must leave the other what it needs.

  * `Duplex`, `DuplexStep` -- any side writes or reads, in any order;
  * `linkStep_frame` -- a write leaves the receiving half of its end alone, a read the sending half;
  * `duplexStep_sound` -- one step keeps both directions in order;
  * `handshake_follows` -- what the answer of the server and the client's last half are, once the
    client has an initiation;
  * **`session_duplex`** -- from the handshake on, in every interleaving, each side reads the bytes
    the other wrote.
-/
import Wirebone.Noise.Agreement
import Wirebone.Noise.RoundTrip

namespace Wirebone

open ByteString Socket Lts

/-! ## 1. Two connections -/

structure Duplex where
  client : End
  server : End
  /-- What the client has sent and the server has not received; then the other way. -/
  up : Bytes := []
  down : Bytes := []
  /-- The buffers written by each side, with what `write` returned. -/
  clientWrote : List (Bytes × Int) := []
  serverWrote : List (Bytes × Int) := []
  /-- What each `read` of each side returned. -/
  clientGot : List Bytes := []
  serverGot : List Bytes := []

/-- The direction from the client to the server. -/
def Duplex.upLink (d : Duplex) : Link :=
  { sender := d.client, receiver := d.server, flight := d.up, written := d.clientWrote, got := d.serverGot }

/-- The direction from the server to the client. -/
def Duplex.downLink (d : Duplex) : Link :=
  { sender := d.server, receiver := d.client, flight := d.down, written := d.serverWrote, got := d.clientGot }

def Duplex.putUp (d : Duplex) (l : Link) : Duplex :=
  { d with client := l.sender, server := l.receiver, up := l.flight, clientWrote := l.written
           serverGot := l.got }

def Duplex.putDown (d : Duplex) (l : Link) : Duplex :=
  { d with server := l.sender, client := l.receiver, down := l.flight, serverWrote := l.written
           clientGot := l.got }

inductive DuplexEvent where
  /-- The client writes, or the server reads. -/
  | up (ev : LinkEvent)
  /-- The server writes, or the client reads. -/
  | down (ev : LinkEvent)

inductive DuplexStep (C : Crypto) : Duplex → DuplexEvent → Duplex → Prop where
  | up (d : Duplex) (ev : LinkEvent) (l : Link) (h : LinkStep C d.upLink ev l) :
      DuplexStep C d (.up ev) (d.putUp l)
  | down (d : Duplex) (ev : LinkEvent) (l : Link) (h : LinkStep C d.downLink ev l) :
      DuplexStep C d (.down ev) (d.putDown l)

/-- The connections both sides build from the results of a handshake. -/
def Duplex.start (R S : NoiseResult) : Duplex :=
  { client := { conn := noiseConn R.txKey R.rxKey }, server := { conn := noiseConn S.txKey S.rxKey } }

/-! ## 2. The half a step leaves alone -/

section Frame

variable {C : Crypto}

/-- Two ends with the same receiving half. -/
structure SameRx (e e' : End) : Prop where
  key : e'.conn.rxKey = e.conn.rxKey
  nonce : e'.conn.rxNonce = e.conn.rxNonce
  plaintext : e'.conn.plaintext = e.conn.plaintext
  outcomes : e'.outcomes = e.outcomes

/-- Two ends with the same sending half. -/
structure SameTx (e e' : End) : Prop where
  key : e'.conn.txKey = e.conn.txKey
  nonce : e'.conn.txNonce = e.conn.txNonce

theorem SameRx.refl (e : End) : SameRx e e := ⟨rfl, rfl, rfl, rfl⟩

theorem SameTx.refl (e : End) : SameTx e e := ⟨rfl, rfl⟩

theorem SameRx.trans {e e' e'' : End} (h : SameRx e e') (h' : SameRx e' e'') : SameRx e e'' :=
  ⟨h'.key.trans h.key, h'.nonce.trans h.nonce, h'.plaintext.trans h.plaintext, h'.outcomes.trans h.outcomes⟩

theorem SameTx.trans {e e' e'' : End} (h : SameTx e e') (h' : SameTx e' e'') : SameTx e e'' :=
  ⟨h'.key.trans h.key, h'.nonce.trans h.nonce⟩

theorem sendRecord_sameRx (e : End) (ct : Bytes) : SameRx e (sendRecord e ct).2 := by
  unfold sendRecord
  rcases h : sendAll ([kMsgRecord] ++ putBe16 (UInt16.ofNat ct.length)) e.sends with ⟨_ | _, out, sends⟩
  · simp only [h]
    exact ⟨rfl, rfl, rfl, rfl⟩
  · simp only [h]
    exact ⟨rfl, rfl, rfl, rfl⟩

theorem writeLoop_sameRx (fuel sent : Nat) (rest : Bytes) (e : End) :
    SameRx e (writeLoop C fuel sent rest e).2 := by
  induction fuel generalizing sent rest e with
  | zero => exact .refl e
  | succ fuel ih =>
    cases rest with
    | nil => exact .refl e
    | cons b rest =>
      rw [writeLoop_cons]
      have hsealed : SameRx e (e.sealed ((b :: rest).take kMaxPlaintext)) := ⟨rfl, rfl, rfl, rfl⟩
      generalize C.aeadSeal e.conn.txKey (recordNonce e.conn.txNonce) [] _ = ct
      have hsent := hsealed.trans (sendRecord_sameRx _ ct)
      rcases hs : sendRecord (e.sealed ((b :: rest).take kMaxPlaintext)) ct with ⟨_ | _, e'⟩
      · rw [hs] at hsent
        exact hsent
      · rw [hs] at hsent
        exact hsent.trans (ih _ _ e')

theorem decryptOne_sameTx (e : End) : SameTx e (decryptOne C e).2 := by
  rcases hd : decryptOne C e with ⟨o, e'⟩
  rcases decryptOne_cases hd with ⟨_, _, _, ct, net, pt, _, _, _, _, rfl⟩ | ⟨_, hconn, _⟩
  · exact ⟨rfl, rfl⟩
  · exact ⟨congrArg _ hconn, congrArg _ hconn⟩

theorem readLoop_sameTx (fuel : Nat) (e : End) : SameTx e (readLoop C fuel e).2 := by
  induction fuel generalizing e with
  | zero => exact .refl e
  | succ fuel ih =>
    by_cases hp : e.conn.plaintext = []
    · have hone := decryptOne_sameTx (C := C) e
      rcases hd : decryptOne C e with ⟨o, e'⟩
      rw [hd] at hone
      by_cases ho : o = .ok
      · subst ho
        rw [readLoop_succ hp hd]
        exact hone.trans (ih e')
      · rw [readLoop_fail hp hd ho]
        exact hone
    · rw [readLoop_done hp]
      exact .refl e

theorem read_sameTx (e : End) (n : Int) : SameTx e (read C e n).2 := by
  have hloop := readLoop_sameTx (C := C) (e.incoming.flatten.length + 1) e
  unfold read
  by_cases hn : n ≤ 0
  · rw [if_pos hn]
    exact .refl e
  · rw [if_neg hn]
    rcases hl : readLoop C (e.incoming.flatten.length + 1) e with ⟨_ | _, e'⟩
    · rw [hl] at hloop
      exact hloop
    · rw [hl] at hloop
      exact ⟨hloop.key, hloop.nonce⟩

/-- **What a step of one direction leaves to the other**: the sender reads on where it was, the
    receiver writes on where it was. -/
theorem linkStep_frame {l l' : Link} {ev : LinkEvent} (h : LinkStep C l ev l') :
    SameRx l.sender l'.sender ∧ SameTx l.receiver l'.receiver := by
  cases h with
  | write buf sends hflows =>
    have hwrite := writeLoop_sameRx (C := C) buf.length 0 buf { l.sender with sends, wire := [] }
    exact ⟨⟨hwrite.key, hwrite.nonce, hwrite.plaintext, hwrite.outcomes⟩, .refl _⟩
  | read n cut hn hcut hdel hleft =>
    have hread := read_sameTx (C := C) { l.receiver with incoming := cut } n
    exact ⟨.refl _, hread.key, hread.nonce⟩

end Frame

/-! ## 3. Both directions stay in order -/

section Sound

variable {C : Crypto}

/-- A direction in order: whole records under way, and everything returned as it should be. -/
def Link.Sound (C : Crypto) (l : Link) : Prop := l.Good ∧ ∃ i pending, InFlight C l i pending

/-- A direction only depends on the sending half of its sender and the receiving half of its
    receiver. -/
theorem Link.Sound.frame {l : Link} {s r : End} (h : l.Sound C) (htx : SameTx l.sender s)
    (hrx : SameRx l.receiver r) : Link.Sound C { l with sender := s, receiver := r } := by
  obtain ⟨hgood, i, pending, hin⟩ := h
  refine ⟨⟨hgood.returns, ?_, hgood.nonempty⟩, i, pending, ?_, ?_, ?_, ?_, hin.size, ?_⟩
  · intro o ho
    exact hgood.opens o (hrx.outcomes ▸ ho)
  · exact hrx.nonce.trans hin.rxNonce
  · exact htx.nonce.trans hin.txNonce
  · exact htx.key.trans (hin.keys.trans hrx.key.symm)
  · show l.flight = encodeRecords C r.conn.rxKey i pending
    rw [hrx.key]
    exact hin.flight
  · show l.input = l.got.flatten ++ r.conn.plaintext ++ pending.flatten
    rw [hrx.plaintext]
    exact hin.bytes

def Duplex.Sound (C : Crypto) (d : Duplex) : Prop := d.upLink.Sound C ∧ d.downLink.Sound C

theorem duplexStep_sound (hC : C.AeadInverts) {d d' : Duplex} {ev : DuplexEvent}
    (h : DuplexStep C d ev d') (hd : d.Sound C) : d'.Sound C := by
  cases h with
  | up ev l hstep =>
    obtain ⟨hrx, htx⟩ := linkStep_frame hstep
    exact ⟨linkStep_inFlight hC hstep hd.1.1 hd.1.2, hd.2.frame htx hrx⟩
  | down ev l hstep =>
    obtain ⟨hrx, htx⟩ := linkStep_frame hstep
    exact ⟨hd.1.frame htx hrx, linkStep_inFlight hC hstep hd.2.1 hd.2.2⟩

/-- Two fresh connections with mirrored keys are in order. -/
theorem start_sound {R S : NoiseResult} (htx : R.txKey = S.rxKey) (hrx : R.rxKey = S.txKey) :
    (Duplex.start R S).Sound C :=
  ⟨⟨⟨by simp [Duplex.start, Duplex.upLink], by simp [Duplex.start, Duplex.upLink],
      by simp [Duplex.start, Duplex.upLink]⟩, 0, [], rfl, rfl, htx, rfl, by simp, rfl⟩,
    ⟨by simp [Duplex.start, Duplex.downLink], by simp [Duplex.start, Duplex.downLink],
      by simp [Duplex.start, Duplex.downLink]⟩, 0, [], rfl, rfl, hrx.symm, rfl, by simp, rfl⟩

/-- What is read is the front of what was written. -/
theorem Link.Sound.got_input {l : Link} (h : l.Sound C) : l.got.flatten <+: l.input := by
  obtain ⟨_, _, _, hin⟩ := h
  rw [hin.bytes, List.append_assoc]
  exact List.prefix_append _ _

/-- What an event writes. -/
def LinkEvent.buffer : LinkEvent → Bytes
  | .write buf _ => buf
  | .read _ _ => []

def LinkEvent.isRead : LinkEvent → Bool
  | .write _ _ => false
  | .read _ _ => true

/-- **Nothing gets stuck**: reads alone bring a direction in order to its end. -/
theorem Link.Sound.drains (hC : C.AeadInverts) {l : Link} (h : l.Sound C) :
    ∃ es l', Run (Guarded (LinkStep C) fun _ e => e.isRead = true) l es l' ∧ l'.written = l.written ∧
      l'.got.flatten = l.input := by
  -- on the bytes that are still to be read
  generalize hm : l.input.length - l.got.flatten.length = m
  induction m using Nat.strong_induction_on generalizing l with
  | _ m ih =>
    by_cases hleft : l.got.flatten = l.input
    · exact ⟨[], l, .start, rfl, hleft⟩
    -- the transport hands the bytes over one by one
    generalize hcut : l.flight.map (fun b => [b]) = cut
    have hflat : cut.flatten = l.flight := by
      rw [← hcut, ← List.flatMap_def, List.flatMap_singleton']
    have hdel : Delivers cut := by
      intro seg hseg
      obtain ⟨b, _, rfl⟩ := List.mem_map.mp (hcut ▸ hseg)
      exact List.cons_ne_nil _ _
    have hstep : LinkStep C l (.read 1 cut) (l.afterRead C 1 cut) := .read l 1 cut Int.one_pos hflat hdel hleft
    have hnext : (l.afterRead C 1 cut).Sound C := linkStep_inFlight hC hstep h.1 h.2
    have hin : (l.afterRead C 1 cut).input = l.input := rfl
    have hgot : (l.afterRead C 1 cut).got =
      l.got ++ [(read C { l.receiver with incoming := cut } 1).1] := rfl
    have hne : (read C { l.receiver with incoming := cut } 1).1 ≠ [] :=
      hnext.1.nonempty _ (by rw [hgot]; exact List.mem_append_right _ (List.mem_singleton_self _))
    have hmore : l.got.flatten.length < (l.afterRead C 1 cut).got.flatten.length := by
      rw [hgot, List.flatten_append, List.flatten_singleton, List.length_append]
      have := List.length_pos_iff.mpr hne
      omega
    have hle := hnext.got_input.length_le
    rw [hin] at hle
    obtain ⟨es, l', hrun, hwritten, hend⟩ := ih _ (by rw [hin]; omega) hnext rfl
    exact ⟨_, l', (Run.step .start ⟨rfl, hstep⟩).trans hrun, hwritten, hend.trans hin⟩

/-- A run of one direction is a run of the session. -/
theorem run_up {d : Duplex} {es : List LinkEvent} {l : Link} (h : Run (LinkStep C) d.upLink es l) :
    Run (DuplexStep C) d (es.map .up) (d.putUp l) := by
  induction h with
  | start => exact .start
  | step _ hs ih =>
    rw [List.map_append]
    exact .step ih (.up _ _ _ hs)

theorem run_down {d : Duplex} {es : List LinkEvent} {l : Link} (h : Run (LinkStep C) d.downLink es l) :
    Run (DuplexStep C) d (es.map .down) (d.putDown l) := by
  induction h with
  | start => exact .start
  | step _ hs ih =>
    rw [List.map_append]
    exact .step ih (.down _ _ _ hs)

end Sound

/-! ## 4. The session -/

section Session

variable {C : Crypto}

/-- **What follows an initiation**: the server it reaches answers it, the client accepts the answer,
    and the two have mirrored keys. -/
theorem handshake_follows (hdh : C.DhCommutes) (haead : C.AeadInverts)
    {machinePrivate controlPrivate clientEph controlEph : Bytes32} {version : UInt16} {init : Bytes}
    {h ck : Bytes32} {logI : List Call} (out : NoiseResult)
    (hI : (noiseClientInit C machinePrivate (C.x25519Public controlPrivate) version clientEph).run
      [] = .ok ((init, h, ck), logI))
    (hee : (C.x25519Shared clientEph (C.x25519Public controlEph)).isSome)
    (hse : (C.x25519Shared machinePrivate (C.x25519Public controlEph)).isSome) :
    ∃ resp S R logS logF,
      (noiseServerHandshake C controlPrivate controlEph init).run [] = .ok ((resp, S), logS) ∧
      (noiseClientFinish C machinePrivate clientEph resp h ck out).run [] = .ok (R, logF) ∧
      R.txKey = S.rxKey ∧ R.rxKey = S.txKey ∧ S.peerMachinePublic = C.x25519Public machinePrivate ∧
      S.protocolVersion = version := by
  obtain ⟨ck₁, k₁, hes, hctlen, _, k₂, hss, htaglen, rfl, rfl, rfl, _⟩ := noiseClientInit_ok.mp hI
  obtain ⟨ck₃, k₃, hee⟩ := mixDh_some ck hee
  obtain ⟨ck₄, k₄, hse⟩ := mixDh_some ck₃ hse
  generalize hct : C.aeadSeal k₁ nonce0 _ (C.x25519Public machinePrivate) = ct at *
  generalize htag : C.aeadSeal k₂ nonce0 _ [] = tag at *
  obtain ⟨hlen, htype, hsize, hver, heph, hstat, htagf⟩ :=
    initMessage_fields version (C.x25519Public clientEph) hctlen htaglen
  obtain ⟨hopen, hblocks⟩ := blocks_initMessage version (C.x25519Public clientEph)
    (C.x25519Public controlPrivate) hctlen htaglen
  generalize initMessage version (C.x25519Public clientEph) ct tag = init at *
  have hserver := noiseServerHandshake_ok.mpr ⟨hlen, htype, hsize, ck₁, k₁,
    by rw [heph, mixDh_comm hdh]; exact hes, (C.x25519Public machinePrivate).val,
    by rw [hstat, hopen, ← hct]; exact haead.opens _ _ _ _, (C.x25519Public machinePrivate).2,
    ck, k₂, by rw [bytes32_coe, mixDh_comm hdh]; exact hss, [],
    by rw [hstat, htagf, hopen, ← htag]; exact haead.opens _ _ _ _, rfl,
    ck₃, k₃, by rw [heph, mixDh_comm hdh]; exact hee,
    ck₄, k₄, by rw [bytes32_coe, mixDh_comm hdh]; exact hse,
    by rw [haead.tag]; rfl, rfl, rfl, rfl⟩
  generalize hrtag : C.aeadSeal k₄ nonce0 (hashAfter C (initBlocks (C.x25519Public controlPrivate)
    init ++ [(C.x25519Public controlEph).val])) [] = rtag at hserver
  have hrlen : rtag.length = 16 := by rw [← hrtag, haead.tag]; rfl
  obtain ⟨hhead, hcep, hrt⟩ := response_fields (C.x25519Public controlEph) hrlen rfl
  -- the client's hash after its message is the server's
  have hh6 := hashAfter_concat (C := C) (initBlocks (C.x25519Public controlPrivate) init)
    (C.x25519Public controlEph).val
  rw [hblocks] at hh6 hrtag
  have hfinish := (noiseClientFinish_ok _ out).mpr ⟨hhead, ck₃, k₃, by rw [hcep]; exact hee, ck₄, k₄,
    by rw [hcep]; exact hse, [], by rw [hcep, hrt, ← hrtag, hh6]; exact haead.opens _ _ _ _, rfl, rfl, rfl⟩
  exact ⟨_, _, _, _, _, hserver, hfinish, rfl, rfl, bytes32_coe _, hver⟩

end Session

/-- **What a session has come to is as it should be**: every write was whole, every read returned
    bytes and every record opened, and each side has read the front of what the other wrote. -/
structure Duplex.InOrder (d : Duplex) : Prop where
  returns : ∀ w ∈ d.clientWrote ++ d.serverWrote, w.2 = w.1.length
  nonempty : ∀ out ∈ d.clientGot ++ d.serverGot, out ≠ []
  opens : ∀ o ∈ d.client.outcomes ++ d.server.outcomes, o = .ok
  up : d.serverGot.flatten <+: d.upLink.input
  down : d.clientGot.flatten <+: d.downLink.input

theorem Duplex.Sound.inOrder {C : Crypto} {d : Duplex} (h : d.Sound C) : d.InOrder := by
  refine ⟨?_, ?_, ?_, h.1.got_input, h.2.got_input⟩
  · intro w hw
    rcases List.mem_append.mp hw with hw | hw
    · exact h.1.1.returns w hw
    · exact h.2.1.returns w hw
  · intro out hout
    rcases List.mem_append.mp hout with hout | hout
    · exact h.2.1.nonempty out hout
    · exact h.1.1.nonempty out hout
  · intro o ho
    rcases List.mem_append.mp ho with ho | ho
    · exact h.2.1.opens o ho
    · exact h.1.1.opens o ho

/-- From a session in order, reads alone bring both sides everything that was written. -/
theorem Duplex.Sound.drains {C : Crypto} (hC : C.AeadInverts) {d : Duplex} (h : d.Sound C) :
    ∃ es d', Run (DuplexStep C) d es d' ∧ d'.serverGot.flatten = d.upLink.input ∧
      d'.clientGot.flatten = d.downLink.input := by
  obtain ⟨es, l, hrun, _, hgot⟩ := h.1.drains hC
  have hup := run_up (hrun.mono fun _ _ _ hs => hs.2)
  have hmid : (d.putUp l).Sound C :=
    hup.inv_state (I := fun d => d.Sound C) h fun _ _ _ hd hs => duplexStep_sound hC hs hd
  obtain ⟨es', l', hrun', _, hgot'⟩ := hmid.2.drains hC
  exact ⟨_, _, hup.trans (run_down (hrun'.mono fun _ _ _ hs => hs.2)), hgot, hgot'⟩

/-- **The session carries both streams.** A client that has written an initiation for the server's
    key comes through the handshake with it; from then on, in whatever order the two sides write and
    read and however the transport cuts the bytes, every write is whole, every record opens, each
    side reads the front of what the other wrote, and reads alone will bring it the rest. -/
theorem session_duplex (C : Crypto) (hdh : C.DhCommutes) (haead : C.AeadInverts)
    (machinePrivate controlPrivate clientEph controlEph : Bytes32) (version : UInt16) (out : NoiseResult)
    (init : Bytes) (h ck : Bytes32) (logI : List Call)
    (hI : (noiseClientInit C machinePrivate (C.x25519Public controlPrivate) version clientEph).run
      [] = .ok ((init, h, ck), logI))
    (hee : (C.x25519Shared clientEph (C.x25519Public controlEph)).isSome)
    (hse : (C.x25519Shared machinePrivate (C.x25519Public controlEph)).isSome) :
    ∃ resp S R logS logF,
      (noiseServerHandshake C controlPrivate controlEph init).run [] = .ok ((resp, S), logS) ∧
      (noiseClientFinish C machinePrivate clientEph resp h ck out).run [] = .ok (R, logF) ∧
      S.peerMachinePublic = C.x25519Public machinePrivate ∧
      ∀ es d, Run (DuplexStep C) (Duplex.start R S) es d → d.InOrder ∧
        ∃ es' d', Run (DuplexStep C) d es' d' ∧ d'.serverGot.flatten = d.upLink.input ∧
          d'.clientGot.flatten = d.downLink.input := by
  obtain ⟨resp, S, R, logS, logF, hS, hF, htx, hrx, hpeer, _⟩ := handshake_follows hdh haead out hI hee hse
  refine ⟨resp, S, R, logS, logF, hS, hF, hpeer, ?_⟩
  intro es d hrun
  have hsound : d.Sound C :=
    hrun.inv_state (I := fun d => d.Sound C) (start_sound htx hrx) fun _ _ _ hd hs =>
      duplexStep_sound haead hs hd
  exact ⟨hsound.inOrder, hsound.drains haead⟩

/-- The session of the sample primitives on four fixed keys. -/
theorem session_duplex_sample :
    ∃ init h ck logI, (noiseClientInit .sample (bytes32 [1]) (bytes32 [2]) 131 (bytes32 [3])).run [] =
        .ok ((init, h, ck), logI) ∧
      ∃ resp S R logS logF,
        (noiseServerHandshake .sample (bytes32 [2]) (bytes32 [4]) init).run [] = .ok ((resp, S), logS) ∧
        (noiseClientFinish .sample (bytes32 [1]) (bytes32 [3]) resp h ck {}).run [] = .ok (R, logF) ∧
        S.peerMachinePublic = bytes32 [1] ∧
        ∀ es d, Run (DuplexStep .sample) (Duplex.start R S) es d → d.InOrder ∧
          ∃ es' d', Run (DuplexStep .sample) d es' d' ∧ d'.serverGot.flatten = d.upLink.input ∧
            d'.clientGot.flatten = d.downLink.input := by
  obtain ⟨⟨⟨init, h, ck⟩, logI⟩, _, _, hok, _, _⟩ := sampleHandshake_meets
  obtain ⟨hI, _, _⟩ := steps_ok hok
  exact ⟨init, h, ck, logI, hI, session_duplex .sample (fun a b => congrArg some (add32_comm a b))
    ⟨sampleOpen_seal, sampleSeal_length⟩ (bytes32 [1]) (bytes32 [2]) (bytes32 [3]) (bytes32 [4]) 131 {} init h
    ck logI hI rfl rfl⟩

end Wirebone
