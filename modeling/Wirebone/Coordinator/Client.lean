/-
  File:      Wirebone/Coordinator/Client.lean
  Subject:   WHO CLOSES AN ACCEPTED DESCRIPTOR.

  The descriptor is owned by `client_thread`, by `handle_ts2021` after the request, and by the
  `NoiseConn` from the handshake on. Who owns it at the end is told by a return value, which an
  exception bypasses.

  * `CallSite`, `Outside` -- the calls that may throw, and what is decided outside the code;
  * `handleTs2021`, `handleClient`, `clientThread` -- the code, with a count of `::close`;
  * `Upgraded`, `serveThrows` -- the condition: the client comes through the upgrade, and an exception
    leaves `serve_h2`;
  * **`closed_once_iff`** -- the descriptor is closed exactly once exactly if not both.
-/
import Wirebone.Http1
import Wirebone.Json
import Wirebone.Noise.Handshake

namespace Wirebone

open ByteString Socket

/-! ## 1. The thread of a connection -/

/-- The calls of `handle_client` and below that may throw. -/
inductive CallSite where
  | readRequest
  | keyText
  | respond
  | upgradeHeader
  | handshakeHeader
  | switching
  | handshake
  | formatKey
  /-- `serve_h2`: the constructor of `H2Server`, the loop with its handlers and ticks, the two calls
      after it. -/
  | h2Server
  | loop
  | cleanup
  deriving DecidableEq

/-- What is decided outside: which call throws, and what `b64_decode` gives (`none`: it throws). -/
structure Outside where
  throws : CallSite → Option Exn := fun _ => none
  b64Decode : Bytes → Option Bytes

/-- What the connections read of the coordinator. -/
structure Server where
  crypto : Crypto
  noisePrivate : Bytes32
  /-- The ephemeral key that this handshake draws. -/
  ephemeral : Bytes32

structure Thread where
  /-- The answers of `recv`, and how much each `send` takes. -/
  net : List Bytes
  sends : List Nat
  sent : Bytes := []
  /-- The machine that `serve_h2` has been called for. -/
  served : Option Bytes := none
  /-- The calls of `::close` on the descriptor. -/
  closes : Nat := 0

abbrev ThreadM := ExceptT Exn (StateM Thread)

/-- A call that may throw. -/
def call (o : Outside) (site : CallSite) : ThreadM Unit :=
  match o.throws site with
  | some e => throw e
  | none => pure ()

def closeFd : ThreadM Unit := modify fun t => { t with closes := t.closes + 1 }

def writeAll (data : Bytes) : ThreadM Bool := do
  let t ← get
  let r := sendAll data t.sends
  set { t with sends := r.2.2, sent := t.sent ++ r.2.1 }
  return r.1

def writeHttpResponse (o : Outside) (status : Nat) (statusText contentType body : Bytes) : ThreadM Unit := do
  call o .respond
  discard (writeAll (httpResponse status statusText contentType body))

/-! ## 2. handle_ts2021 -/

def switching : Bytes :=
  ascii "HTTP/1.1 101 Switching Protocols\r\n" ++ ascii "Upgrade: tailscale-control-protocol\r\n" ++
    ascii "Connection: upgrade\r\n\r\n"

/-- A refusal of `handle_ts2021`. -/
def refuse (o : Outside) (body : Bytes) : ThreadM Unit := do
  writeHttpResponse o 400 (ascii "Bad Request") (ascii "text/plain") body
  closeFd

/-- `noise_server_handshake`, `none` where it returns `false`. -/
def serverHandshake (S : Server) (init : Bytes) : ThreadM (Option (Bytes × NoiseResult)) :=
  match (noiseServerHandshake S.crypto S.noisePrivate S.ephemeral init).run [] with
  | .ok (r, _) => pure (some r)
  | .error (.returned _) => pure none
  | .error (.thrown what) => throw (.runtimeError (ascii what))

/-- `NoiseConn::close` of a connection whose member `fd_` is `fd`. -/
def noiseConnClose (fd : Int) (t : Thread) : Int × Thread :=
  if 0 ≤ fd then (-1, { t with closes := t.closes + 1 }) else (fd, t)

/-- The scope of a `NoiseConn`: its destructor runs on both ways out. -/
def withNoiseConn (fd : Int) (body : ThreadM Unit) : ThreadM Unit :=
  ExceptT.mk do
    let r ← body.run
    modify fun t => (noiseConnClose fd t).2
    return r

def serveH2 (o : Outside) (machineKey : Bytes) : ThreadM Unit := do
  modify fun t => { t with served := some machineKey }
  call o .h2Server
  call o .loop
  call o .cleanup

/-- `handle_ts2021` from the answer 101 on. -/
def switchProtocols (S : Server) (o : Outside) (fd : Int) (init : Bytes) : ThreadM Unit := do
  call o .switching
  if !(← writeAll switching) then
    closeFd
  else
    call o .handshake
    match ← serverHandshake S init with
    | none => closeFd
    | some (resp, nr) =>
      if !(← writeAll resp) then
        closeFd
      else
        call o .formatKey
        withNoiseConn fd (serveH2 o (formatKey .Machine nr.peerMachinePublic))

def handleTs2021 (S : Server) (o : Outside) (fd : Int) (req : HttpRequest) : ThreadM Unit := do
  call o .upgradeHeader
  if headerGet req (ascii "upgrade") ≠ ascii "tailscale-control-protocol" then
    refuse o (ascii "missing upgrade\n")
  else
    call o .handshakeHeader
    if headerGet req (ascii "x-tailscale-handshake") = [] then
      refuse o (ascii "missing handshake\n")
    else
      match o.b64Decode (headerGet req (ascii "x-tailscale-handshake")) with
      | none => refuse o (ascii "bad handshake\n")
      | some init => switchProtocols S o fd init

/-! ## 3. client_thread -/

def zeroMachineKey : Bytes := formatKey .Machine zero32

/-- The body for `/key`. -/
def keyBody (S : Server) : Bytes :=
  ascii "\x7b\"legacyPublicKey\":\"" ++ zeroMachineKey ++ ascii "\",\"publicKey\":\"" ++
    formatKey .Machine (S.crypto.x25519Public S.noisePrivate) ++ ascii "\"\x7d"

/-- `read_http_request`; `extra` is not looked at any more. -/
def recvRequest (o : Outside) : ThreadM (Option HttpRequest) := do
  call o .readRequest
  let t ← get
  let r := readHttpRequest t.net
  set { t with net := r.2 }
  return r.1.map (·.1)

/-- `handle_client`: whether the caller still owns the descriptor. -/
def handleClient (S : Server) (o : Outside) (fd : Int) : ThreadM Bool := do
  match ← recvRequest o with
  | none => return true
  | some req =>
    if req.path = ascii "/key" then
      call o .keyText
      writeHttpResponse o 200 (ascii "OK") (ascii "application/json") (keyBody S)
      return true
    else if req.path = ascii "/healthz" then
      writeHttpResponse o 200 (ascii "OK") (ascii "text/plain") (ascii "ok\n")
      return true
    else if req.path = ascii "/ts2021" then
      handleTs2021 S o fd req
      return false
    else
      writeHttpResponse o 404 (ascii "Not Found") (ascii "text/plain") (ascii "not found\n")
      return true

/-- `client_thread`: an exception is logged, and `close_fd` keeps its first value. -/
def clientThread (S : Server) (o : Outside) (fd : Int) (t : Thread) : Thread :=
  match (handleClient S o fd).run.run t with
  | (.ok false, t') => t'
  | (.ok true, t') | (.error _, t') => if 0 ≤ fd then { t' with closes := t'.closes + 1 } else t'

/-! ## 4. The condition -/

/-- The handshake succeeds, both answers go out, and no call on the way throws. -/
def Switches (S : Server) (o : Outside) (init : Bytes) (sends : List Nat) : Prop :=
  o.throws .switching = none ∧ (sendAll switching sends).1 = true ∧ o.throws .handshake = none ∧
    ∃ resp nr log,
      (noiseServerHandshake S.crypto S.noisePrivate S.ephemeral init).run [] = .ok ((resp, nr), log) ∧
      (sendAll resp (sendAll switching sends).2.2).1 = true ∧ o.throws .formatKey = none

/-- The request asks for the upgrade, and it comes to it. -/
def Upgrading (S : Server) (o : Outside) (req : HttpRequest) (sends : List Nat) : Prop :=
  o.throws .upgradeHeader = none ∧
    headerGet req (ascii "upgrade") = ascii "tailscale-control-protocol" ∧
    o.throws .handshakeHeader = none ∧ headerGet req (ascii "x-tailscale-handshake") ≠ [] ∧
    ∃ init, o.b64Decode (headerGet req (ascii "x-tailscale-handshake")) = some init ∧
      Switches S o init sends

/-- **The client comes through the upgrade.** -/
def Upgraded (S : Server) (o : Outside) (net : List Bytes) (sends : List Nat) : Prop :=
  o.throws .readRequest = none ∧ ∃ req extra, (readHttpRequest net).1 = some (req, extra) ∧
    req.path = ascii "/ts2021" ∧ Upgrading S o req sends

/-- An exception leaves `serve_h2`, once it is called. -/
def serveThrows (o : Outside) : Bool :=
  (o.throws .h2Server).isSome || (o.throws .loop).isSome || (o.throws .cleanup).isSome

/-! ## 5. The ways out -/

section Ends

variable {S : Server} {o : Outside} {fd : Int} {t : Thread} {α β : Type}

theorem run_bind (m : ThreadM α) (f : α → ThreadM β) :
    (m >>= f).run.run t =
      match m.run.run t with
      | (.ok a, t') => (f a).run.run t'
      | (.error e, t') => (.error e, t') := by
  show (StateT.run _ t) = _
  simp only [ExceptT.run_bind, StateT.run_bind]
  rcases m.run.run t with ⟨_ | _, t'⟩
  · rfl
  · rfl

theorem run_call_none {site : CallSite} (h : o.throws site = none) :
    (call o site).run.run t = (.ok (), t) := by
  simp only [call, h]
  rfl

theorem run_call_some {site : CallSite} {e : Exn} (h : o.throws site = some e) :
    (call o site).run.run t = (.error e, t) := by
  simp only [call, h]
  rfl

theorem run_writeAll (data : Bytes) :
    (writeAll data).run.run t =
      (.ok (sendAll data t.sends).1,
        { t with sends := (sendAll data t.sends).2.2, sent := t.sent ++ (sendAll data t.sends).2.1 }) := rfl

/-- What follows a call, where the call does not throw; where it throws, nothing follows. -/
theorem run_call_bind (site : CallSite) (f : Unit → ThreadM β) :
    (∃ e, o.throws site = some e ∧ (call o site >>= f).run.run t = (.error e, t)) ∨
      (o.throws site = none ∧ (call o site >>= f).run.run t = (f ()).run.run t) := by
  cases h : o.throws site with
  | some e =>
    refine .inl ⟨e, rfl, ?_⟩
    rw [run_bind, run_call_some h]
  | none =>
    refine .inr ⟨rfl, ?_⟩
    rw [run_bind, run_call_none h]

/-- A plain answer closes nothing. -/
theorem run_respond (status : Nat) (statusText contentType body : Bytes) :
    ∃ r t', (writeHttpResponse o status statusText contentType body).run.run t = (r, t') ∧
      t'.closes = t.closes := by
  unfold writeHttpResponse
  rcases run_call_bind (o := o) (t := t) .respond
    (fun _ => discard (writeAll (httpResponse status statusText contentType body))) with ⟨e, _, h⟩ | ⟨_, h⟩
  · exact ⟨_, _, h, rfl⟩
  · exact ⟨_, _, h, rfl⟩

/-- **How a part of `handle_ts2021` may end**: it returns and has closed the descriptor, or an
    exception leaves it with the descriptor open (`torn`: or closed). -/
def Ends (torn : Prop) (t : Thread) (r : Except Exn Unit × Thread) : Prop :=
  (¬ torn ∧ r.1 = .ok () ∧ r.2.closes = t.closes + 1) ∨
    (¬ torn ∧ (∃ e, r.1 = .error e) ∧ r.2.closes = t.closes) ∨
    (torn ∧ (∃ e, r.1 = .error e) ∧ r.2.closes = t.closes + 1)

theorem ends_refuse (body : Bytes) : Ends False t ((refuse o body).run.run t) := by
  unfold refuse
  obtain ⟨r, t', hr, hcloses⟩ := run_respond (o := o) (t := t) 400 (ascii "Bad Request") (ascii "text/plain")
    body
  rw [run_bind, hr]
  cases r with
  | error e => exact .inr (.inl ⟨not_false, ⟨e, rfl⟩, hcloses⟩)
  | ok u => exact .inl ⟨not_false, rfl, congrArg (· + 1) hcloses⟩

theorem Ends.of_false {torn : Prop} {r : Except Exn Unit × Thread} (h : Ends False t r) (hno : ¬ torn) :
    Ends torn t r := by
  rcases h with ⟨_, h⟩ | ⟨_, h⟩ | ⟨h, _⟩
  · exact .inl ⟨hno, h⟩
  · exact .inr (.inl ⟨hno, h⟩)
  · exact h.elim

theorem Ends.closed {torn : Prop} {t' : Thread} (hno : ¬ torn) (h : t'.closes = t.closes) :
    Ends torn t (closeFd.run.run t') :=
  .inl ⟨hno, rfl, congrArg (· + 1) h⟩

theorem Ends.thrown {torn : Prop} {t' : Thread} {e : Exn} (hno : ¬ torn) (h : t'.closes = t.closes) :
    Ends torn t (.error e, t') :=
  .inr (.inl ⟨hno, ⟨e, rfl⟩, h⟩)

/-- `serve_h2` closes nothing, and throws exactly if one of its calls does. -/
theorem run_serveH2 (machineKey : Bytes) :
    ∃ r t', (serveH2 o machineKey).run.run t = (r, t') ∧ t'.closes = t.closes ∧
      (serveThrows o = true ∧ (∃ e, r = .error e) ∨ ¬ serveThrows o = true ∧ r = .ok ()) := by
  unfold serveH2 serveThrows
  rw [run_bind]
  show ∃ r t', (call o .h2Server >>= _).run.run { t with served := some machineKey } = _ ∧ _
  rcases run_call_bind (o := o) (t := { t with served := some machineKey }) .h2Server
    (fun _ => do call o .loop; call o .cleanup) with ⟨e, he, h⟩ | ⟨h1, h⟩
  · exact ⟨_, _, h, rfl, .inl ⟨by simp [he], e, rfl⟩⟩
  · rw [h]
    rcases run_call_bind (o := o) (t := { t with served := some machineKey }) .loop
      (fun _ => call o .cleanup) with ⟨e, he, h⟩ | ⟨h2, h⟩
    · exact ⟨_, _, h, rfl, .inl ⟨by simp [he], e, rfl⟩⟩
    · rw [h]
      cases h3 : o.throws .cleanup with
      | some e => exact ⟨_, _, run_call_some h3, rfl, .inl ⟨by simp, e, rfl⟩⟩
      | none => exact ⟨_, _, run_call_none h3, rfl, .inr ⟨by simp [h1, h2], rfl⟩⟩

/-- **The scope of the `NoiseConn`** closes the descriptor also where an exception leaves it. -/
theorem ends_serve (hfd : 0 ≤ fd) {t' : Thread} (ht : t'.closes = t.closes) (machineKey : Bytes) :
    Ends (serveThrows o = true) t ((withNoiseConn fd (serveH2 o machineKey)).run.run t') := by
  have hclose : ∀ t₁ : Thread, (noiseConnClose fd t₁).2.closes = t₁.closes + 1 := by
    intro t₁
    unfold noiseConnClose
    rw [if_pos hfd]
  obtain ⟨r, t₁, hr, hcloses, hends⟩ := run_serveH2 (o := o) (t := t') machineKey
  have hscope : (withNoiseConn fd (serveH2 o machineKey)).run.run t' = (r, (noiseConnClose fd t₁).2) := by
    show (((serveH2 o machineKey).run.run t').1,
      (noiseConnClose fd ((serveH2 o machineKey).run.run t').2).2) = _
    rw [hr]
  have hone : (noiseConnClose fd t₁).2.closes = t.closes + 1 := by
    rw [hclose, hcloses, ht]
  rw [hscope]
  rcases hends with ⟨hthrows, he⟩ | ⟨hreturns, hok⟩
  · exact .inr (.inr ⟨hthrows, he, hone⟩)
  · exact .inl ⟨hreturns, hok, hone⟩

/-- A call that throws before the descriptor has changed hands. -/
theorem Ends.call_bind {torn : Prop} {t' : Thread} (site : CallSite) {f : Unit → ThreadM Unit}
    (ht : t'.closes = t.closes) (htorn : torn → o.throws site = none)
    (hrest : o.throws site = none → Ends torn t ((f ()).run.run t')) :
    Ends torn t ((call o site >>= f).run.run t') := by
  rcases run_call_bind (o := o) (t := t') site f with ⟨e, he, h⟩ | ⟨hnone, h⟩
  · rw [h]
    refine Ends.thrown (fun hup => ?_) ht
    cases he.symm.trans (htorn hup)
  · rw [h]
    exact hrest hnone

/-- **From the answer 101 on.** -/
theorem ends_switch (hfd : 0 ≤ fd) (init : Bytes) :
    Ends (Switches S o init t.sends ∧ serveThrows o = true) t ((switchProtocols S o fd init).run.run t) := by
  unfold switchProtocols
  refine Ends.call_bind .switching rfl (fun h => h.1.1) fun hswitch => ?_
  rw [run_bind, run_writeAll]
  by_cases hfirst : (sendAll switching t.sends).1 = true
  · simp only [hfirst, Bool.not_true, Bool.false_eq_true, if_false]
    refine Ends.call_bind .handshake rfl (fun h => h.1.2.2.1) fun hhs => ?_
    rw [run_bind]
    -- the handshake closes nothing, whatever it comes to
    unfold serverHandshake
    rcases hrun : (noiseServerHandshake S.crypto S.noisePrivate S.ephemeral init).run [] with
      (error | what) | ⟨⟨resp, nr⟩, log⟩
    · refine Ends.closed (fun h => ?_) rfl
      obtain ⟨_, _, _, h, _⟩ := h.1.2.2.2
      cases hrun.symm.trans h
    · refine Ends.thrown (fun h => ?_) rfl
      obtain ⟨_, _, _, h, _⟩ := h.1.2.2.2
      cases hrun.symm.trans h
    · show Ends _ t ((writeAll resp >>= _).run.run _)
      rw [run_bind, run_writeAll]
      by_cases hsecond : (sendAll resp (sendAll switching t.sends).2.2).1 = true
      · simp only [hsecond, Bool.not_true, Bool.false_eq_true, if_false]
        refine Ends.call_bind .formatKey rfl (fun h => ?_) fun hformat => ?_
        · obtain ⟨_, _, _, _, _, h⟩ := h.1.2.2.2
          exact h
        · have hiff : Switches S o init t.sends ∧ serveThrows o = true ↔ serveThrows o = true :=
            and_iff_right ⟨hswitch, hfirst, hhs, resp, nr, log, hrun, hsecond, hformat⟩
          rw [hiff]
          exact ends_serve hfd rfl _
      · simp only [hsecond, Bool.not_false, if_true]
        refine Ends.closed (fun h => ?_) rfl
        obtain ⟨_, _, _, h, hsent, _⟩ := h.1.2.2.2
        cases hrun.symm.trans h
        exact hsecond hsent
  · simp only [hfirst, Bool.not_false, if_true]
    exact Ends.closed (fun h => hfirst h.1.2.1) rfl

/-- **`handle_ts2021`** on every way out. -/
theorem ends_ts2021 (hfd : 0 ≤ fd) (req : HttpRequest) :
    Ends (Upgrading S o req t.sends ∧ serveThrows o = true) t ((handleTs2021 S o fd req).run.run t) := by
  unfold handleTs2021
  refine Ends.call_bind .upgradeHeader rfl (fun h => h.1.1) fun h1 => ?_
  by_cases hupgrade : headerGet req (ascii "upgrade") = ascii "tailscale-control-protocol"
  · rw [if_neg (not_not.mpr hupgrade)]
    refine Ends.call_bind .handshakeHeader rfl (fun h => h.1.2.2.1) fun h2 => ?_
    by_cases hheader : headerGet req (ascii "x-tailscale-handshake") = []
    · rw [if_pos hheader]
      exact (ends_refuse _).of_false fun h => h.1.2.2.2.1 hheader
    · rw [if_neg hheader]
      cases hdecode : o.b64Decode (headerGet req (ascii "x-tailscale-handshake")) with
      | none =>
        refine (ends_refuse _).of_false fun h => ?_
        obtain ⟨init, hinit, _⟩ := h.1.2.2.2.2
        cases hdecode.symm.trans hinit
      | some init =>
        have hiff : Upgrading S o req t.sends ∧ serveThrows o = true ↔
            Switches S o init t.sends ∧ serveThrows o = true := by
          refine and_congr ⟨fun h => ?_, fun h => ?_⟩ Iff.rfl
          · obtain ⟨init', hinit', hs⟩ := h.2.2.2.2
            cases hdecode.symm.trans hinit'
            exact hs
          · exact ⟨h1, hupgrade, h2, hheader, init, hdecode, h⟩
        rw [hiff]
        exact ends_switch hfd init
  · rw [if_pos hupgrade]
    exact (ends_refuse _).of_false fun h => hupgrade h.1.2.1

end Ends

/-! ## 6. Exactly once -/

section Once

variable {S : Server} {o : Outside} {fd : Int} {t : Thread}

/-- **How `handle_client` may end**: the descriptor is closed and given up, or neither (`torn`: closed,
    and an exception leaves). -/
def Hands (torn : Prop) (t : Thread) (r : Except Exn Bool × Thread) : Prop :=
  (¬ torn ∧ r.1 = .ok false ∧ r.2.closes = t.closes + 1) ∨
    (¬ torn ∧ (r.1 = .ok true ∨ ∃ e, r.1 = .error e) ∧ r.2.closes = t.closes) ∨
    (torn ∧ (∃ e, r.1 = .error e) ∧ r.2.closes = t.closes + 1)

theorem Hands.respond {torn : Prop} {t' : Thread} (hno : ¬ torn) (ht : t'.closes = t.closes) (status : Nat)
    (statusText contentType body : Bytes) :
    Hands torn t ((do
      writeHttpResponse o status statusText contentType body
      return true : ThreadM Bool).run.run t') := by
  obtain ⟨r, t₁, hr, hcloses⟩ := run_respond (o := o) (t := t') status statusText contentType body
  rw [run_bind, hr]
  cases r with
  | error e => exact .inr (.inl ⟨hno, .inr ⟨e, rfl⟩, hcloses.trans ht⟩)
  | ok u => exact .inr (.inl ⟨hno, .inl rfl, hcloses.trans ht⟩)

/-- After `handle_ts2021` the descriptor is given up, unless an exception leaves it. -/
theorem Hands.of_ends {torn : Prop} {t' : Thread} (ht : t'.closes = t.closes) {m : ThreadM Unit}
    (h : Ends torn t' (m.run.run t')) : Hands torn t ((do m; return false : ThreadM Bool).run.run t') := by
  rw [run_bind]
  rcases hm : m.run.run t' with ⟨r, t₁⟩
  rw [hm] at h
  rcases h with ⟨hno, hr, hc⟩ | ⟨hno, ⟨e, hr⟩, hc⟩ | ⟨hyes, ⟨e, hr⟩, hc⟩
  · cases hr
    exact .inl ⟨hno, rfl, hc.trans (congrArg (· + 1) ht)⟩
  · cases hr
    exact .inr (.inl ⟨hno, .inr ⟨e, rfl⟩, hc.trans ht⟩)
  · cases hr
    exact .inr (.inr ⟨hyes, ⟨e, rfl⟩, hc.trans (congrArg (· + 1) ht)⟩)

theorem run_recvRequest (h : o.throws .readRequest = none) :
    (recvRequest o).run.run t =
      (.ok ((readHttpRequest t.net).1.map (·.1)), { t with net := (readHttpRequest t.net).2 }) := by
  unfold recvRequest
  rw [run_bind, run_call_none h]
  rfl

/-- **`handle_client`** on every way out. -/
theorem hands_client (hfd : 0 ≤ fd) :
    Hands (Upgraded S o t.net t.sends ∧ serveThrows o = true) t ((handleClient S o fd).run.run t) := by
  unfold handleClient
  rw [run_bind]
  cases hthrow : o.throws .readRequest with
  | some e =>
    have hrecv : (recvRequest o).run.run t = (.error e, t) := by
      unfold recvRequest
      rw [run_bind, run_call_some hthrow]
    rw [hrecv]
    refine .inr (.inl ⟨fun h => ?_, .inr ⟨e, rfl⟩, rfl⟩)
    cases hthrow.symm.trans h.1.1
  | none =>
    rw [run_recvRequest hthrow]
    cases hreq : (readHttpRequest t.net).1 with
    | none =>
      refine .inr (.inl ⟨fun h => ?_, .inl rfl, rfl⟩)
      obtain ⟨_, _, h, _⟩ := h.1.2
      cases hreq.symm.trans h
    | some p =>
      obtain ⟨req, extra⟩ := p
      simp only [Option.map_some]
      have hpath : Upgraded S o t.net t.sends → req.path = ascii "/ts2021" := by
        intro h
        obtain ⟨_, _, h, hp, _⟩ := h.2
        cases hreq.symm.trans h
        exact hp
      by_cases hkey : req.path = ascii "/key"
      · have hno : ¬ (Upgraded S o t.net t.sends ∧ serveThrows o = true) :=
          fun h => absurd (hkey.symm.trans (hpath h.1)) (by decide)
        rw [if_pos hkey]
        rcases run_call_bind (o := o) (t := { t with net := (readHttpRequest t.net).2 }) .keyText
          (fun _ => do
            writeHttpResponse o 200 (ascii "OK") (ascii "application/json") (keyBody S)
            return true) with ⟨e, _, h⟩ | ⟨_, h⟩
        · rw [h]
          exact .inr (.inl ⟨hno, .inr ⟨e, rfl⟩, rfl⟩)
        · rw [h]
          exact Hands.respond hno rfl _ _ _ _
      · rw [if_neg hkey]
        by_cases hhealth : req.path = ascii "/healthz"
        · have hno : ¬ (Upgraded S o t.net t.sends ∧ serveThrows o = true) :=
            fun h => absurd (hhealth.symm.trans (hpath h.1)) (by decide)
          rw [if_pos hhealth]
          exact Hands.respond hno rfl _ _ _ _
        · rw [if_neg hhealth]
          by_cases hts : req.path = ascii "/ts2021"
          · have hiff : Upgraded S o t.net t.sends ∧ serveThrows o = true ↔
                Upgrading S o req t.sends ∧ serveThrows o = true := by
              refine and_congr ⟨fun h => ?_, fun h => ?_⟩ Iff.rfl
              · obtain ⟨_, _, h, _, hup⟩ := h.2
                cases hreq.symm.trans h
                exact hup
              · exact ⟨hthrow, req, extra, hreq, hts, h⟩
            rw [if_pos hts, hiff]
            exact Hands.of_ends rfl (ends_ts2021 (t := { t with net := (readHttpRequest t.net).2 }) hfd req)
          · rw [if_neg hts]
            have hno : ¬ (Upgraded S o t.net t.sends ∧ serveThrows o = true) := fun h => hts (hpath h.1)
            exact Hands.respond hno rfl _ _ _ _

end Once

/-- **When an accepted descriptor is closed exactly once.** For every connection, whatever the client
    sends and however the calls end: exactly if the client does not come through the upgrade or no
    exception leaves `serve_h2`. Else `~NoiseConn` closes it, and `client_thread` once more. -/
theorem closed_once_iff (S : Server) (o : Outside) (fd : Int) (hfd : 0 ≤ fd) (net : List Bytes)
    (sends : List Nat) :
    (clientThread S o fd { net, sends }).closes = 1 ↔ ¬ (Upgraded S o net sends ∧ serveThrows o = true) := by
  have hhands := hands_client (S := S) (o := o) (t := { net, sends }) hfd
  unfold clientThread
  rcases hrun : (handleClient S o fd).run.run { net, sends } with ⟨r, t'⟩
  rw [hrun] at hhands
  rcases hhands with ⟨hno, hr, hc⟩ | ⟨hno, hr, hc⟩ | ⟨hyes, ⟨e, hr⟩, hc⟩
  · cases hr
    exact ⟨fun _ => hno, fun _ => hc⟩
  · have hone : (if 0 ≤ fd then { t' with closes := t'.closes + 1 } else t').closes = 1 := by
      rw [if_pos hfd]
      exact congrArg (· + 1) hc
    rcases hr with hr | ⟨e, hr⟩
    · cases hr
      exact ⟨fun _ => hno, fun _ => hone⟩
    · cases hr
      exact ⟨fun _ => hno, fun _ => hone⟩
  · cases hr
    have htwo : (if 0 ≤ fd then { t' with closes := t'.closes + 1 } else t').closes = 2 := by
      rw [if_pos hfd]
      exact congrArg (· + 1) hc
    refine ⟨fun h => ?_, fun h => absurd hyes h⟩
    cases htwo.symm.trans h

/-! ## 7. A client that upgrades -/

/-- The value of a base64 digit. -/
def b64Digit (c : UInt8) : Option Nat :=
  if 65 ≤ c ∧ c ≤ 90 then some (c.toNat - 65)
  else if 97 ≤ c ∧ c ≤ 122 then some (c.toNat - 71)
  else if 48 ≤ c ∧ c ≤ 57 then some (c.toNat + 4)
  else if c = 43 then some 62
  else if c = 47 then some 63
  else none

/-- What `b64_decode` gives for a text of whole groups; only the last one is padded. -/
def b64Groups : Bytes → Option Bytes
  | [] => some []
  | a :: b :: c :: d :: rest => do
    let x ← b64Digit a
    let y ← b64Digit b
    if c = 61 then
      return [UInt8.ofNat (x * 4 + y / 16)]
    else
      let z ← b64Digit c
      if d = 61 then
        return [UInt8.ofNat (x * 4 + y / 16), UInt8.ofNat (y % 16 * 16 + z / 4)]
      else
        let v ← b64Digit d
        let more ← b64Groups rest
        return UInt8.ofNat (x * 4 + y / 16) :: UInt8.ofNat (y % 16 * 16 + z / 4) ::
          UInt8.ofNat (z % 4 * 64 + v) :: more
  | _ => none

def sampleServer : Server := { crypto := .sample, noisePrivate := bytes32 [2], ephemeral := bytes32 [4] }

/-- The request of a client with the machine key 1 and the ephemeral key 3. -/
def upgradeRequest : Bytes :=
  ascii "POST /ts2021 HTTP/1.1\r\nHost: wirebone\r\nUpgrade: tailscale-control-protocol\r\n" ++
    ascii "X-Tailscale-Handshake: AIMBAGADAAAAAAAAAAAAAAAAAAAAAAAAAAAAAAAAAAAAAAAAAAEAAAAAAAAAAAAAAAAA" ++
    ascii "AAAAAAAAAAAAAAAAAAAAAAAATcm18+bJqkTLGOfFtKXs4qaua8eEMOQhhhlD1WxuYaU=\r\n\r\n"

theorem closed_once_quiet :
    (clientThread sampleServer { b64Decode := b64Groups } 7 { net := [upgradeRequest], sends := [] }).closes =
      1 := by
  refine (closed_once_iff sampleServer { b64Decode := b64Groups } 7 (by decide) [upgradeRequest] []).mpr ?_
  intro h
  cases h.2

/-- A request of the upgraded client makes its handler throw: the descriptor is closed twice. -/
theorem closed_twice :
    (clientThread sampleServer
        { throws := fun site => if site = .loop then some (.typeError 306) else none, b64Decode := b64Groups }
        7 { net := [upgradeRequest], sends := [] }).served = some (formatKey .Machine (bytes32 [1])) ∧
      (clientThread sampleServer
        { throws := fun site => if site = .loop then some (.typeError 306) else none, b64Decode := b64Groups }
        7 { net := [upgradeRequest], sends := [] }).closes = 2 := by
  decide +kernel

end Wirebone
