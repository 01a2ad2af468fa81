/-
  File:      Wirebone/Coordinator/Connect.lean
  Subject:   A CLIENT COMES THROUGH: from the bytes of its request to `serve_h2`.

  The request, the answer 101 and the handshake are three layers over one socket. Here they are put
  together: the text of a request, cut by the transport as it likes, through `read_http_request`, the
  routing and the header checks, `b64_decode` and the handshake, up to the call of `serve_h2`.

  * `Asks` -- what the request of a client has to say, in the client's own words;
  * `requestOf_text`, `requestOf_asks` -- the server reads just that out of it;
  * `run_switchProtocols`, `run_handleClient` -- the way through the code, where nothing fails;
  * **`client_connects`** -- the client is served under the machine key it holds the private key of, and
    the two sides hold mirrored keys.
-/
import Mathlib.Data.List.TakeWhile
import Wirebone.Coordinator.Client
import Wirebone.Http1.RoundTrip
import Wirebone.Noise.Duplex

namespace Wirebone

open ByteString Socket

/-! ## 1. The request -/

/-- **The request of a client that asks for the upgrade**, with `init` behind the base64. Other headers,
    their order and the letters of the names are free, and so is a query. -/
structure Asks (o : Outside) (r : RequestText) (init : Bytes) : Prop where
  path : r.target.takeWhile (· ≠ 63) = ascii "/ts2021"
  upgrade : r.lastValue (ascii "upgrade") = ascii "tailscale-control-protocol"
  handshake : r.lastValue (ascii "x-tailscale-handshake") ≠ []
  decodes : o.b64Decode (r.lastValue (ascii "x-tailscale-handshake")) = some init
  size : r.render.length ≤ kMaxHead

/-- The path is what stands in front of the first `?`. -/
theorem SplitAtQuery.takeWhile {target path query : Bytes} (h : SplitAtQuery target path query) :
    target.takeWhile (· ≠ 63) = path := by
  have hall : ∀ s : Bytes, 63 ∉ s → ∀ c ∈ s, decide (c ≠ 63) = true := by
    intro s hs c hc
    refine decide_eq_true fun heq => ?_
    exact hs (heq ▸ hc)
  rcases h with ⟨hno, rfl, _⟩ | ⟨hno, rfl⟩
  · exact List.takeWhile_eq_self_iff.mpr (hall _ hno)
  · rw [List.takeWhile_append_of_pos (hall _ hno), List.takeWhile_cons_of_neg (by decide), List.append_nil]

/-- The server reads out of a request what the client has put there. -/
theorem requestOf_text (r : RequestText) (hlen : r.render.length ≤ kMaxHead) {net : List Bytes}
    (hcut : Cuts 1024 r.render net) :
    ∃ req, requestOf net = some req ∧ req.path = r.target.takeWhile (· ≠ 63) ∧
      ∀ name, headerGet req name = r.lastValue name := by
  have hfind : findText kHeadEnd r.render = some (joinLines r.lines).length := by
    rw [r.render_eq]
    exact findText_joinLines _ _ r.lines_plain
  have hread := requestOf_arrives (Nat.le_refl 1024) hcut hfind
    (Nat.le_trans (findText_le hfind) hlen) (.inr hlen)
  obtain ⟨req, hparse, _, _, hquery, hheaders⟩ := r.parseHead_render
  rw [r.render_eq, List.take_left, hparse] at hread
  exact ⟨req, hread, hquery.takeWhile.symm, r.headerGet_last hheaders⟩

theorem requestOf_asks {o : Outside} {r : RequestText} {init : Bytes} (h : Asks o r init) {net : List Bytes}
    (hcut : Cuts 1024 r.render net) :
    ∃ req, requestOf net = some req ∧ req.path = ascii "/ts2021" ∧
      headerGet req (ascii "upgrade") = ascii "tailscale-control-protocol" ∧
      headerGet req (ascii "x-tailscale-handshake") ≠ [] ∧
      o.b64Decode (headerGet req (ascii "x-tailscale-handshake")) = some init := by
  obtain ⟨req, hread, hpath, hvalue⟩ := requestOf_text r h.size hcut
  refine ⟨req, hread, hpath.trans h.path, ?_, ?_, ?_⟩
  · rw [hvalue]
    exact h.upgrade
  · rw [hvalue]
    exact h.handshake
  · rw [hvalue]
    exact h.decodes

/-! ## 2. The way through -/

section Through

variable {S : Server} {o : Outside} {fd : Int} {t : Thread} {init resp : Bytes} {nr : NoiseResult}
  {log : List Call}

/-- A call that does not throw is passed over. -/
theorem run_quiet {β : Type} (hquiet : ∀ site, o.throws site = none) (site : CallSite) (f : Unit → ThreadM β) :
    (call o site >>= f).run.run t = (f ()).run.run t := by
  rw [run_bind, run_call_none (hquiet site)]

/-- `serve_h2` in the scope of its connection, where nothing throws. -/
theorem run_withNoiseConn (hquiet : ∀ site, o.throws site = none) (hfd : 0 ≤ fd) (machineKey : Bytes) :
    (withNoiseConn fd (serveH2 o machineKey)).run.run t =
      (.ok (), { t with served := some machineKey, closes := t.closes + 1 }) := by
  have hserve : (serveH2 o machineKey).run.run t = (.ok (), { t with served := some machineKey }) := by
    unfold serveH2
    rw [run_bind]
    show (call o .h2Server >>= _).run.run { t with served := some machineKey } = _
    rw [run_quiet hquiet, run_quiet hquiet, run_call_none (hquiet .cleanup)]
  show (((serveH2 o machineKey).run.run t).1, (noiseConnClose fd ((serveH2 o machineKey).run.run t).2).2) = _
  rw [hserve]
  simp only [noiseConnClose, if_pos hfd]

/-- **From the answer 101 to `serve_h2`.** -/
theorem run_switchProtocols (hquiet : ∀ site, o.throws site = none) (hfd : 0 ≤ fd) (hflows : Flows t.sends)
    (hhand : (noiseServerHandshake S.crypto S.noisePrivate S.ephemeral init).run [] = .ok ((resp, nr), log)) :
    ∃ sends, (switchProtocols S o fd init).run.run t = (.ok (),
      { t with sends, sent := t.sent ++ switching ++ resp, closes := t.closes + 1
               served := some (formatKey .Machine nr.peerMachinePublic) }) := by
  obtain ⟨sends₁, hflows₁, hfirst⟩ := sendAll_flows switching hflows
  obtain ⟨sends₂, _, hsecond⟩ := sendAll_flows resp hflows₁
  have hserver : ∀ t₁ : Thread, (serverHandshake S init).run.run t₁ = (.ok (some (resp, nr)), t₁) := by
    intro t₁
    unfold serverHandshake
    rw [hhand]
    rfl
  refine ⟨sends₂, ?_⟩
  unfold switchProtocols
  rw [run_quiet hquiet, run_bind, run_writeAll, hfirst]
  simp only [Bool.not_true, Bool.false_eq_true, if_false]
  rw [run_quiet hquiet, run_bind, hserver]
  simp only
  rw [run_bind, run_writeAll, hsecond]
  simp only [Bool.not_true, Bool.false_eq_true, if_false]
  rw [run_quiet hquiet, run_withNoiseConn hquiet hfd]

/-- **From the request to `serve_h2`.** -/
theorem run_handleClient (hquiet : ∀ site, o.throws site = none) (hfd : 0 ≤ fd) (hflows : Flows t.sends)
    {r : RequestText} (hasks : Asks o r init) (hcut : Cuts 1024 r.render t.net)
    (hhand : (noiseServerHandshake S.crypto S.noisePrivate S.ephemeral init).run [] = .ok ((resp, nr), log)) :
    ∃ net sends, (handleClient S o fd).run.run t = (.ok false,
      { t with net, sends, sent := t.sent ++ switching ++ resp, closes := t.closes + 1
               served := some (formatKey .Machine nr.peerMachinePublic) }) := by
  obtain ⟨req, hreq, hpath, hupgrade, hheader, hdecode⟩ := requestOf_asks hasks hcut
  change (readHttpRequest t.net).1.map (·.1) = some req at hreq
  obtain ⟨sends, hswitch⟩ := run_switchProtocols (S := S) (o := o)
    (t := { t with net := (readHttpRequest t.net).2 }) hquiet hfd hflows hhand
  refine ⟨(readHttpRequest t.net).2, sends, ?_⟩
  have hkey : ¬ req.path = ascii "/key" := by rw [hpath]; decide
  have hhealth : ¬ req.path = ascii "/healthz" := by rw [hpath]; decide
  have hts : (handleTs2021 S o fd req).run.run { t with net := (readHttpRequest t.net).2 } =
      (switchProtocols S o fd init).run.run { t with net := (readHttpRequest t.net).2 } := by
    unfold handleTs2021
    rw [run_quiet hquiet, if_neg (not_not.mpr hupgrade), run_quiet hquiet, if_neg hheader, hdecode]
  unfold handleClient
  rw [run_bind, run_recvRequest (hquiet .readRequest), hreq]
  simp only [if_neg hkey, if_neg hhealth, if_pos hpath]
  rw [run_bind, hts, hswitch]
  rfl

end Through

/-! ## 3. The client connects -/

/-- The first blank line of the server's answer is the end of the 101: what follows is the message of the
    handshake, to the byte. -/
theorem findText_switching (resp : Bytes) :
    findText kHeadEnd (switching ++ resp) = some (switching.length - 4) := by
  have hswitch : findText kHeadEnd switching = some (switching.length - 4) := by decide +kernel
  exact (findText_append_iff resp (by decide +kernel)).mpr hswitch

/-- **A client comes through.** Its request says that it asks for the upgrade and carries its initiation,
    in whatever words and pieces; no call throws and the socket takes what is sent. Then the server calls
    `serve_h2` for just this client's machine key and closes the descriptor once, all it sends before is
    the 101 and its answer, and the client finishes the handshake with that answer and holds the mirrored
    keys. -/
theorem client_connects (S : Server) (o : Outside) (fd : Int) (hfd : 0 ≤ fd)
    (hquiet : ∀ site, o.throws site = none) (hdh : S.crypto.DhCommutes) (haead : S.crypto.AeadInverts)
    (machinePrivate clientEph : Bytes32) (version : UInt16) (out : NoiseResult) (init : Bytes)
    (h ck : Bytes32) (logI : List Call)
    (hI : (noiseClientInit S.crypto machinePrivate (S.crypto.x25519Public S.noisePrivate) version
      clientEph).run [] = .ok ((init, h, ck), logI))
    (hee : (S.crypto.x25519Shared clientEph (S.crypto.x25519Public S.ephemeral)).isSome)
    (hse : (S.crypto.x25519Shared machinePrivate (S.crypto.x25519Public S.ephemeral)).isSome)
    (r : RequestText) (hasks : Asks o r init) (net : List Bytes) (hcut : Cuts 1024 r.render net)
    (sends : List Nat) (hflows : Flows sends) :
    ∃ resp nr R logS logF,
      (noiseServerHandshake S.crypto S.noisePrivate S.ephemeral init).run [] = .ok ((resp, nr), logS) ∧
      (clientThread S o fd { net, sends }).served =
        some (formatKey .Machine (S.crypto.x25519Public machinePrivate)) ∧
      (clientThread S o fd { net, sends }).closes = 1 ∧
      (clientThread S o fd { net, sends }).sent = switching ++ resp ∧
      findText kHeadEnd (switching ++ resp) = some (switching.length - 4) ∧
      (noiseClientFinish S.crypto machinePrivate clientEph resp h ck out).run [] = .ok (R, logF) ∧
      R.txKey = nr.rxKey ∧ R.rxKey = nr.txKey := by
  obtain ⟨resp, nr, R, logS, logF, hS, hF, htx, hrx, hpeer, _⟩ := handshake_follows hdh haead out hI hee hse
  obtain ⟨net', sends', hrun⟩ := run_handleClient (S := S) (o := o) (t := { net, sends }) hquiet hfd hflows
    hasks hcut hS
  refine ⟨resp, nr, R, logS, logF, hS, ?_, ?_, ?_, findText_switching resp, hF, htx, hrx⟩
  · rw [clientThread, hrun, ← hpeer]
  · rw [clientThread, hrun]
  · rw [clientThread, hrun]
    exact List.nil_append _

theorem protocol_line : ∀ c ∈ ascii "tailscale-control-protocol", c ≠ 13 ∧ c ≠ 10 :=
  List.all_iff_forall_prop.mp (by decide)

theorem protocol_head : (ascii "tailscale-control-protocol").head? ≠ some 32 ∧
    (ascii "tailscale-control-protocol").head? ≠ some 9 := by decide

/-- The request of the client with the machine key 1 and the ephemeral key 3. -/
def upgradeText : RequestText where
  method := ascii "POST"
  target := ascii "/ts2021"
  headers :=
    [ { name := ascii "UPGRADE"
        pad := []
        value := ascii "tailscale-control-protocol"
        name_ok := List.all_iff_forall_prop.mp (by decide)
        pad_ok := List.forall_mem_nil _
        value_ok := protocol_line
        value_head := protocol_head },
      { name := ascii "X-Tailscale-Handshake"
        pad := []
        value :=
          ascii "AIMBAGADAAAAAAAAAAAAAAAAAAAAAAAAAAAAAAAAAAAAAAAAAAEAAAAAAAAAAAAAAAAA" ++
            ascii "AAAAAAAAAAAAAAAAAAAAAAAATcm18+bJqkTLGOfFtKXs4qaua8eEMOQhhhlD1WxuYaU="
        name_ok := List.all_iff_forall_prop.mp (by decide)
        pad_ok := List.forall_mem_nil _
        value_ok := List.all_iff_forall_prop.mp (by decide +kernel)
        value_head := by decide } ]
  method_ne := by decide
  method_ok := List.all_iff_forall_prop.mp (by decide)
  target_ne := by decide
  target_ok := List.all_iff_forall_prop.mp (by decide)

/-- The initiation of that client is what its request carries. -/
theorem upgradeText_asks :
    ∃ init h ck logI, (noiseClientInit .sample (bytes32 [1]) (bytes32 [2]) 131 (bytes32 [3])).run [] =
        .ok ((init, h, ck), logI) ∧ Asks { b64Decode := b64Groups } upgradeText init := by
  have hsame : ((noiseClientInit .sample (bytes32 [1]) (bytes32 [2]) 131 (bytes32 [3])).run []).toOption.any
      (fun r => decide (b64Groups (upgradeText.lastValue (ascii "x-tailscale-handshake")) = some r.1.1)) =
        true := by decide +kernel
  generalize (noiseClientInit .sample (bytes32 [1]) (bytes32 [2]) 131 (bytes32 [3])).run [] = outcome at hsame ⊢
  cases outcome with
  | error e => cases hsame
  | ok r =>
    simp only [Except.toOption, Option.any_some, decide_eq_true_eq] at hsame
    exact ⟨r.1.1, r.1.2.1, r.1.2.2, r.2, rfl, by decide +kernel, by decide +kernel, by decide +kernel,
      hsame, by decide +kernel⟩

/-- That client, its request a byte at a time, to a server that sends a byte at a time at first. -/
theorem client_connects_sample :
    ∃ init h ck logI, (noiseClientInit .sample (bytes32 [1]) (bytes32 [2]) 131 (bytes32 [3])).run [] =
        .ok ((init, h, ck), logI) ∧
      ∃ resp nr R logS logF,
        (noiseServerHandshake .sample (bytes32 [2]) (bytes32 [4]) init).run [] = .ok ((resp, nr), logS) ∧
        (clientThread sampleServer { b64Decode := b64Groups } 7
          { net := byBytes upgradeText.render, sends := [1, 1, 1] }).served =
            some (formatKey .Machine (bytes32 [1])) ∧
        (clientThread sampleServer { b64Decode := b64Groups } 7
          { net := byBytes upgradeText.render, sends := [1, 1, 1] }).closes = 1 ∧
        (clientThread sampleServer { b64Decode := b64Groups } 7
          { net := byBytes upgradeText.render, sends := [1, 1, 1] }).sent = switching ++ resp ∧
        findText kHeadEnd (switching ++ resp) = some (switching.length - 4) ∧
        (noiseClientFinish .sample (bytes32 [1]) (bytes32 [3]) resp h ck {}).run [] = .ok (R, logF) ∧
        R.txKey = nr.rxKey ∧ R.rxKey = nr.txKey := by
  obtain ⟨init, h, ck, logI, hI, hasks⟩ := upgradeText_asks
  exact ⟨init, h, ck, logI, hI, client_connects sampleServer { b64Decode := b64Groups } 7 (by decide)
    (fun _ => rfl) (fun a b => congrArg some (add32_comm a b)) ⟨sampleOpen_seal, sampleSeal_length⟩
    (bytes32 [1]) (bytes32 [3]) 131 {} init h ck logI hI rfl rfl upgradeText hasks
    (byBytes upgradeText.render) (byBytes_cuts (by decide) _) [1, 1, 1] (by unfold Flows; decide)⟩

end Wirebone
