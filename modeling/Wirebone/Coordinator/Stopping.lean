/-
  File:      Wirebone/Coordinator/Stopping.lean
  Subject:   WHAT RUNS AFTER stop() HAS RETURNED.

  `stop` sets a flag, closes the listen socket and joins the thread of the accept loop. The threads of
  the clients are detached: nobody tells them, and nobody waits for them.

  * `StopPoint`, `LoopPoint`, `ClientPoint`, `Shutdown` -- `stop`, the accept loop and the threads it
    has spawned, each at any point; a thread inside `serve_h2` is a connection of the coordinator;
  * `Upgraded.points` -- the points before `serve_h2` are those of the thread of Client.lean;
  * `touches` -- the steps of clients that read or write the coordinator; `Silent` -- there is none
    once `stop` has returned;
  * `Shutdown.clear` -- the condition: no client is before its last access when `stop` returns, and
    none is about to be spawned;
  * `stopped_life` -- the steps of `stop` add up to `stopCall`;
  * **`nothing_after_stop`** -- the property in every run whose `stop` returns so, and in no other;
    **`ticks_after_stop`** -- a map poll that goes on.
-/
import Wirebone.Coordinator.Announce
import Wirebone.Coordinator.Client
import Wirebone.Coordinator.Lifecycle

namespace Wirebone

open ByteString Lts

/-! ## 1. The threads -/

/-- The next statement of `stop`; before `flag` it has not been called. -/
inductive StopPoint where
  | flag
  | listen
  | dns
  | join
  | running
  | returned
  deriving DecidableEq

/-- The next statement of `accept_loop`. -/
inductive LoopPoint where
  | test
  | accept
  /-- `accept` has failed: `if (stop_) break`. -/
  | retest
  /-- `accept` has given a descriptor. -/
  | spawn
  | ended
  deriving DecidableEq

/-- Where a `client_thread` is. -/
inductive ClientPoint where
  | reading
  /-- `/key`: before `noise_public_text()`. -/
  | keyText
  /-- `/ts2021`: before the answer 101, before `noise_private()`, before the answer to the
      handshake. -/
  | switching (init : Bytes)
  | handshake (init : Bytes)
  | confirming (machine : Bytes)
  /-- In `serve_h2`, as connection `i` of the coordinator. -/
  | serving (i : Nat)
  /-- Only the response, the log and the descriptor are left. -/
  | leaving

structure Shutdown where
  life : Life
  stop : StopPoint := .flag
  loop : LoopPoint := .test
  clients : List ClientPoint := []
  coord : Coord

namespace Shutdown

def store (p : Shutdown) : Store := p.coord.shared.world.store

def setClient (p : Shutdown) (k : Nat) (c : ClientPoint) : Shutdown := { p with clients := p.clients.set k c }

end Shutdown

/-! ## 2. The code -/

def stopStep (p : Shutdown) : Option Shutdown :=
  match p.stop with
  | .flag => some { p with life := { p.life with stop := true }, stop := .listen }
  | .listen => some { p with life := closeListen p.life, stop := .dns }
  | .dns => some { p with life := dnsStop p.life, stop := .join }
  | .join =>
    -- `joinable()` only after `run_async`
    if p.life.acceptThread && decide (p.loop ≠ .ended) then none
    else some { p with life := { p.life with acceptThread := false }, stop := .running }
  | .running => some { p with life := { p.life with running := false }, stop := .returned }
  | .returned => none

/-- The accept loop; `arrives`: a client is there to be accepted. -/
def loopStep (arrives : Bool) (p : Shutdown) : Option Shutdown :=
  match p.loop with
  | .test => some { p with loop := if p.life.stop then .ended else .accept }
  | .accept => some { p with loop := if arrives && p.life.listenFd.isSome then .spawn else .retest }
  | .retest => some { p with loop := if p.life.stop then .ended else .test }
  | .spawn => some { p with loop := .test, clients := p.clients ++ [.reading] }
  | .ended => none

/-- `handle_ts2021` up to the answer 101. -/
def upgradePoint (b64Decode : Bytes → Option Bytes) (req : HttpRequest) : ClientPoint :=
  if headerGet req (ascii "upgrade") ≠ ascii "tailscale-control-protocol" then .leaving
  else if headerGet req (ascii "x-tailscale-handshake") = [] then .leaving
  else
    match b64Decode (headerGet req (ascii "x-tailscale-handshake")) with
    | none => .leaving
    | some init => .switching init

/-- `handle_client` after `read_http_request`. -/
def routePoint (b64Decode : Bytes → Option Bytes) : Option HttpRequest → ClientPoint
  | none => .leaving
  | some req =>
    if req.path = ascii "/key" then .keyText
    else if req.path = ascii "/ts2021" then upgradePoint b64Decode req
    else .leaving

/-- `noise_server_handshake` with the key of the store. -/
def handshakePoint (C : Crypto) (noisePrivate ephemeral : Bytes32) (init : Bytes) : ClientPoint :=
  match (noiseServerHandshake C noisePrivate ephemeral init).run [] with
  | .ok ((_, nr), _) => .confirming (formatKey .Machine nr.peerMachinePublic)
  | .error _ => .leaving

/-- The points are those of the thread: a client that comes through the upgrade passes them. -/
theorem Upgraded.points {S : Server} {o : Outside} {net : List Bytes} {sends : List Nat}
    (h : Upgraded S o net sends) :
    ∃ init, ∃ nr : NoiseResult,
      routePoint o.b64Decode ((readHttpRequest net).1.map (·.1)) = .switching init ∧
      handshakePoint S.crypto S.noisePrivate S.ephemeral init =
        .confirming (formatKey .Machine nr.peerMachinePublic) := by
  obtain ⟨_, req, extra, hread, hpath, _, hupgrade, _, hheader, init, hdecode, _, _, _, resp, nr, log, hshake,
    _⟩ := h
  refine ⟨init, nr, ?_, ?_⟩
  · have hkey : req.path ≠ ascii "/key" := by
      rw [hpath]
      decide
    rw [hread, Option.map_some, routePoint, if_neg hkey, if_pos hpath, upgradePoint,
      if_neg (not_not_intro hupgrade), if_neg hheader, hdecode]
  · rw [handshakePoint, hshake]

/-- What a client does before `serve_h2`. -/
inductive ClientMove where
  /-- What `read_http_request` gives; `none` also where it throws. -/
  | request (req : Option HttpRequest)
  | answerKey
  | switch (sent : Bool)
  | shake (ephemeral : Bytes32)
  | confirm (sent : Bool)

def clientStep (C : Crypto) (b64Decode : Bytes → Option Bytes) (p : Shutdown) (k : Nat) (m : ClientMove) :
    Option Shutdown :=
  match p.clients[k]?, m with
  | some .reading, .request req => some (p.setClient k (routePoint b64Decode req))
  | some .keyText, .answerKey => some (p.setClient k .leaving)
  | some (.switching init), .switch sent => some (p.setClient k (if sent then .handshake init else .leaving))
  | some (.handshake init), .shake ephemeral =>
    some (p.setClient k (handshakePoint C p.store.noisePrivate ephemeral init))
  | some (.confirming machine), .confirm sent =>
    if sent then
      some { p.setClient k (.serving p.coord.conns.length) with
             coord := { p.coord with conns := p.coord.conns ++ [{ machine }] } }
    else some (p.setClient k .leaving)
  | _, _ => none

/-- A client in `serve_h2`: a request, a tick, a section, or the end of its loop. -/
def servingStep (I : Inet) (domain : Bytes) (p : Shutdown) (k : Nat) (e : Event) : Option Shutdown :=
  match p.clients[k]? with
  | some (.serving i) =>
    if e.isOf i then (coordStep I domain p.coord e).map fun s => { p with coord := s } else none
  | _ => none

/-- Whose turn it is. -/
inductive Turn where
  | stop
  | loop (arrives : Bool)
  | client (k : Nat) (m : ClientMove)
  | serving (k : Nat) (e : Event)

section Machine

variable (I : Inet) (C : Crypto) (b64Decode : Bytes → Option Bytes) (domain : Bytes)

def shutdownStep (p : Shutdown) : Turn → Option Shutdown
  | .stop => stopStep p
  | .loop arrives => loopStep arrives p
  | .client k m => clientStep C b64Decode p k m
  | .serving k e => servingStep I domain p k e

/-! ## 3. The property and the condition -/

/-- The section of a connection reads or writes `store_`, `map_gen_` or `cfg_`. Two do not: without
    an image nothing is installed, and at the end of the streams the tick is over. -/
def Conn.accesses (c : Conn) : Bool :=
  match c.phase with
  | .idle | .closed | .regInstall _ none => false
  | .tickFind _ k => (c.live[k]?).isSome
  | _ => true

/-- **The step of a client reads or writes `store_`, `map_gen_` or `cfg_`.** A tick begins with
    `map_gen()`; requests are parsed and streams closed without the coordinator. -/
def touches (p : Shutdown) : Turn → Bool
  | .stop | .loop _ => false
  | .client _ .answerKey | .client _ (.shake _) => true
  | .client _ _ => false
  | .serving _ (.tick _) => true
  | .serving _ (.run i _) => (p.coord.conns[i]?).any Conn.accesses
  | .serving _ _ => false

/-- **Nothing runs after stop**: once `stop` has returned, no step of a client that can be taken
    touches the coordinator. -/
def Silent (p : Shutdown) : Prop :=
  p.stop = .returned → ∀ t p', shutdownStep I C b64Decode domain p t = some p' → touches p t = false

end Machine

/-- The client is past its last access. -/
def ClientPoint.past (s : Coord) : ClientPoint → Bool
  | .leaving => true
  | .serving i => (s.conns[i]?).all Conn.isClosed
  | _ => false

/-- **The condition**: the accept loop is not about to spawn a client, and every client it has spawned
    is past its last access. -/
def Shutdown.clear (p : Shutdown) : Bool := decide (p.loop ≠ .spawn) && p.clients.all (·.past p.coord)

/-- The condition on a step: `stop` returns only where it is clear. -/
def returnsClear (p : Shutdown) : Turn → Bool
  | .stop => decide (p.stop ≠ .running) || p.clear
  | _ => true

/-! ## 4. What stop leaves -/

/-- What `stop` has made of the state in which it was called. -/
def lifeAt (l : Life) : StopPoint → Life
  | .flag => l
  | .listen => { l with stop := true }
  | .dns => closeListen { l with stop := true }
  | .join => dnsStop (closeListen { l with stop := true })
  | .running => { dnsStop (closeListen { l with stop := true }) with acceptThread := false }
  | .returned => stopCall l

section Steps

variable {I : Inet} {C : Crypto} {b64Decode : Bytes → Option Bytes} {domain : Bytes} {p p' : Shutdown}
  {t : Turn} {l : Life}

theorem stopStep_life (h : stopStep p = some p') (hl : p.life = lifeAt l p.stop) :
    p'.life = lifeAt l p'.stop := by
  unfold stopStep at h
  cases hstop : p.stop with
  | flag | listen | dns | running =>
    simp only [hstop] at h hl
    cases h
    simp only [hl]
    rfl
  | join =>
    simp only [hstop] at h hl
    split at h
    · cases h
    · cases h
      simp only [hl]
      rfl
  | returned =>
    simp only [hstop] at h
    cases h

theorem loopStep_frame {arrives : Bool} (h : loopStep arrives p = some p') :
    p'.life = p.life ∧ p'.stop = p.stop ∧ p'.coord = p.coord := by
  unfold loopStep at h
  cases hloop : p.loop with
  | test | accept | retest | spawn =>
    simp only [hloop] at h
    cases h
    exact ⟨rfl, rfl, rfl⟩
  | ended =>
    simp only [hloop] at h
    cases h

theorem clientStep_frame {k : Nat} {m : ClientMove} (h : clientStep C b64Decode p k m = some p') :
    p'.life = p.life ∧ p'.stop = p.stop ∧ p'.loop = p.loop := by
  unfold clientStep at h
  split at h
  · cases h
    exact ⟨rfl, rfl, rfl⟩
  · cases h
    exact ⟨rfl, rfl, rfl⟩
  · cases h
    exact ⟨rfl, rfl, rfl⟩
  · cases h
    exact ⟨rfl, rfl, rfl⟩
  · split at h
    · cases h
      exact ⟨rfl, rfl, rfl⟩
    · cases h
      exact ⟨rfl, rfl, rfl⟩
  · cases h

theorem servingStep_some {k : Nat} {e : Event} (h : servingStep I domain p k e = some p') :
    ∃ i s, p.clients[k]? = some (.serving i) ∧ e.isOf i = true ∧ coordStep I domain p.coord e = some s ∧
      p' = { p with coord := s } := by
  unfold servingStep at h
  split at h
  · rename_i i hk
    split at h
    · rename_i he
      obtain ⟨s, hs, rfl⟩ := Option.map_eq_some_iff.mp h
      exact ⟨i, s, hk, he, hs, rfl⟩
    · cases h
  · cases h

/-- Only `stop` changes what it is about. -/
theorem life_step (hs : shutdownStep I C b64Decode domain p t = some p') (hl : p.life = lifeAt l p.stop) :
    p'.life = lifeAt l p'.stop := by
  cases t with
  | stop => exact stopStep_life hs hl
  | loop arrives =>
    obtain ⟨hlife, hstop, _⟩ := loopStep_frame hs
    rw [hlife, hstop]
    exact hl
  | client k m =>
    obtain ⟨hlife, hstop, _⟩ := clientStep_frame hs
    rw [hlife, hstop]
    exact hl
  | serving k e =>
    obtain ⟨_, _, _, _, _, rfl⟩ := servingStep_some hs
    exact hl

/-- **The steps of `stop` add up to the call**, whatever the other threads do between them. -/
theorem stopped_life {p₀ : Shutdown} {ts : List Turn} (hstart : p₀.stop = .flag)
    (h : Run (Of (shutdownStep I C b64Decode domain)) p₀ ts p) : p.life = lifeAt p₀.life p.stop := by
  refine h.inv_state (I := fun p => p.life = lifeAt p₀.life p.stop) ?_ ?_
  · rw [hstart]
    rfl
  · intro p t p' hl hs
    exact life_step hs hl

/-- At its last statement `stop` has set the flag and closed the listen socket. -/
theorem lifeAt_shut {l : Life} {point : StopPoint} (h : point = .running ∨ point = .returned) :
    (lifeAt l point).stop = true ∧ (lifeAt l point).listenFd = none := by
  have hlisten : (closeListen { l with stop := true }).stop = true := by
    unfold closeListen
    split
    · rfl
    · rfl
  have hdns : ∀ s : Life, (dnsStop s).stop = s.stop := by
    intro s
    unfold dnsStop
    split
    · rfl
    · split
      · rfl
      · rfl
  have hshut : (dnsStop (closeListen { l with stop := true })).stop = true ∧
      (dnsStop (closeListen { l with stop := true })).listenFd = none :=
    ⟨(hdns _).trans hlisten, (dnsStop_rest _).1.trans (closeListen_fd _)⟩
  rcases h with rfl | rfl
  · exact hshut
  · exact hshut

/-! ## 5. Where it is clear -/

/-- The loop of a closed connection is over. -/
theorem coordStep_closed {s : Coord} {e : Event} {i : Nat} (hclosed : (s.conns[i]?).all Conn.isClosed = true)
    (he : e.isOf i = true) : coordStep I domain s e = none := by
  have hidle : idleConn s i = none := by
    unfold idleConn
    cases hget : s.conns[i]? with
    | none => rfl
    | some c =>
      rw [hget] at hclosed
      simp only
      cases hph : c.phase with
      | idle =>
        simp only [Option.all_some, Conn.isClosed, hph] at hclosed
        cases hclosed
      | _ => rfl
  have hrun : ∀ env, coordStep I domain s (.run i env) = none := by
    intro env
    show (s.conns[i]?).bind _ = none
    cases hget : s.conns[i]? with
    | none => rfl
    | some c =>
      rw [hget] at hclosed
      have hadv : advance I domain env s.shared c = none := by
        unfold advance
        cases hph : c.phase with
        | closed => rfl
        | _ =>
          simp only [Option.all_some, Conn.isClosed, hph] at hclosed
          cases hclosed
      rw [Option.bind_some, hadv]
      rfl
  cases e with
  | accept | createKey => cases he
  | register j | map j | tick j | closeStream j | hangup j =>
    obtain rfl := of_decide_eq_true he
    simp only [coordStep, hidle, Option.map_none]
  | run j env =>
    obtain rfl := of_decide_eq_true he
    exact hrun env

/-- `stop` is at its last statement or through, and nothing is left that could touch the
    coordinator. -/
structure Still (p : Shutdown) : Prop where
  last : p.stop = .running ∨ p.stop = .returned
  flagged : p.life.stop = true
  unlistened : p.life.listenFd = none
  clear : p.clear = true

theorem clear_iff : p.clear = true ↔ p.loop ≠ .spawn ∧ ∀ c ∈ p.clients, c.past p.coord = true := by
  rw [Shutdown.clear, Bool.and_eq_true, decide_eq_true_eq, List.all_eq_true]

theorem Still.of_clear (hl : p.life = lifeAt l p.stop) (hlast : p.stop = .running ∨ p.stop = .returned)
    (hclear : p.clear = true) : Still p := by
  obtain ⟨hflag, hlisten⟩ := lifeAt_shut (l := l) hlast
  refine ⟨hlast, ?_, ?_, hclear⟩
  · rw [hl]
    exact hflag
  · rw [hl]
    exact hlisten

/-- **Then only `stop` and the accept loop move**, and the loop spawns nothing. -/
theorem still_step (h : Still p) (hs : shutdownStep I C b64Decode domain p t = some p') :
    Still p' ∧ touches p t = false := by
  obtain ⟨hspawn, hpast⟩ := clear_iff.mp h.clear
  cases t with
  | stop =>
    refine ⟨?_, rfl⟩
    rcases h.last with hstop | hstop
    · simp only [shutdownStep, stopStep, hstop] at hs
      cases hs
      exact ⟨.inr rfl, h.flagged, h.unlistened, h.clear⟩
    · simp only [shutdownStep, stopStep, hstop] at hs
      cases hs
  | loop arrives =>
    refine ⟨?_, rfl⟩
    have hmoved : ∀ loop, loop ≠ .spawn → Still { p with loop } := fun loop hne =>
      ⟨h.last, h.flagged, h.unlistened, clear_iff.mpr ⟨hne, hpast⟩⟩
    simp only [shutdownStep, loopStep] at hs
    cases hloop : p.loop with
    | test =>
      simp only [hloop, h.flagged] at hs
      cases hs
      exact hmoved _ (by decide)
    | accept =>
      simp only [hloop, h.unlistened, Option.isSome_none, Bool.and_false] at hs
      cases hs
      exact hmoved _ (by decide)
    | retest =>
      simp only [hloop, h.flagged] at hs
      cases hs
      exact hmoved _ (by decide)
    | spawn => exact absurd hloop hspawn
    | ended =>
      simp only [hloop] at hs
      cases hs
  | client k m =>
    -- a client past its last access makes no move
    exfalso
    simp only [shutdownStep, clientStep] at hs
    split at hs
    · rename_i hk
      cases hpast _ (List.mem_of_getElem? hk)
    · rename_i hk
      cases hpast _ (List.mem_of_getElem? hk)
    · rename_i hk
      cases hpast _ (List.mem_of_getElem? hk)
    · rename_i hk
      cases hpast _ (List.mem_of_getElem? hk)
    · rename_i hk
      cases hpast _ (List.mem_of_getElem? hk)
    · cases hs
  | serving k e =>
    obtain ⟨i, s, hk, he, hcoord, _⟩ := servingStep_some hs
    have hclosed : (p.coord.conns[i]?).all Conn.isClosed = true := hpast _ (List.mem_of_getElem? hk)
    rw [coordStep_closed hclosed he] at hcoord
    cases hcoord

theorem Still.silent (h : Still p) : Silent I C b64Decode domain p := fun _ _ _ hs => (still_step h hs).2

/-- Where `stop` has returned before, or returns now, from a clear state. -/
theorem still_returned (hl : p.life = lifeAt l p.stop) (hstill : p.stop = .returned → Still p)
    (hok : returnsClear p t = true) (hs : shutdownStep I C b64Decode domain p t = some p')
    (hreturned : p'.stop = .returned) : Still p' := by
  by_cases hbefore : p.stop = .returned
  · exact (still_step (hstill hbefore) hs).1
  · have hlast : p.stop = .running ∧ t = .stop := by
      cases t with
      | stop =>
        simp only [shutdownStep, stopStep] at hs
        cases hstop : p.stop with
        | running => exact ⟨rfl, rfl⟩
        | returned => exact absurd hstop hbefore
        | flag | listen | dns =>
          simp only [hstop] at hs
          cases hs
          cases hreturned
        | join =>
          simp only [hstop] at hs
          split at hs
          · cases hs
          · cases hs
            cases hreturned
      | loop arrives => exact absurd ((loopStep_frame hs).2.1.symm.trans hreturned) hbefore
      | client k m => exact absurd ((clientStep_frame hs).2.1.symm.trans hreturned) hbefore
      | serving k e =>
        obtain ⟨_, _, _, _, _, rfl⟩ := servingStep_some hs
        exact absurd hreturned hbefore
    obtain ⟨hrunning, rfl⟩ := hlast
    have hclear : p.clear = true := by simpa [returnsClear, hrunning] using hok
    exact (still_step (.of_clear hl (.inl hrunning) hclear) hs).1

/-! ## 6. Where it is not -/

variable (I C b64Decode domain) in
/-- From here some client gets to touch the coordinator, with `stop` returned. -/
def LateAccess (p : Shutdown) : Prop :=
  ∃ ts q t q', Run (Of (shutdownStep I C b64Decode domain)) p ts q ∧ q.stop = .returned ∧
    shutdownStep I C b64Decode domain q t = some q' ∧ touches q t = true

theorem LateAccess.now (hstop : p.stop = .returned) (hs : shutdownStep I C b64Decode domain p t = some p')
    (ht : touches p t = true) : LateAccess I C b64Decode domain p :=
  ⟨[], p, t, p', .start, hstop, hs, ht⟩

theorem LateAccess.later (hs : shutdownStep I C b64Decode domain p t = some p')
    (h : LateAccess I C b64Decode domain p') : LateAccess I C b64Decode domain p := by
  obtain ⟨ts, q, u, q', hrun, hstop, hu, ht⟩ := h
  have hone : Run (Of (shutdownStep I C b64Decode domain)) p ([] ++ [t]) p' := .step .start hs
  exact ⟨_, q, u, q', hone.trans hrun, hstop, hu, ht⟩

section Clients

variable {k : Nat}

theorem setClient_get {c : ClientPoint} (h : p.clients[k]? ≠ none) :
    (p.setClient k c).clients[k]? = some c := by
  have hlt : k < p.clients.length := by
    by_contra hge
    exact h (List.getElem?_eq_none (Nat.not_lt.mp hge))
  show (p.clients.set k c)[k]? = some c
  rw [List.getElem?_set_self hlt]

theorem late_keyText (hstop : p.stop = .returned) (hk : p.clients[k]? = some .keyText) :
    LateAccess I C b64Decode domain p := by
  have hs : shutdownStep I C b64Decode domain p (.client k .answerKey) = some (p.setClient k .leaving) := by
    simp only [shutdownStep, clientStep, hk]
  exact .now hstop hs rfl

theorem late_reading (hstop : p.stop = .returned) (hk : p.clients[k]? = some .reading) :
    LateAccess I C b64Decode domain p := by
  have hs : shutdownStep I C b64Decode domain p (.client k (.request (some { path := ascii "/key" }))) =
      some (p.setClient k .keyText) := by
    simp only [shutdownStep, clientStep, hk]
    rfl
  refine .later hs (late_keyText hstop (setClient_get ?_))
  rw [hk]
  exact Option.some_ne_none _

theorem late_handshake {init : Bytes} (hstop : p.stop = .returned)
    (hk : p.clients[k]? = some (.handshake init)) : LateAccess I C b64Decode domain p := by
  have hs : shutdownStep I C b64Decode domain p (.client k (.shake zero32)) =
      some (p.setClient k (handshakePoint C p.store.noisePrivate zero32 init)) := by
    simp only [shutdownStep, clientStep, hk]
  exact .now hstop hs rfl

theorem late_switching {init : Bytes} (hstop : p.stop = .returned)
    (hk : p.clients[k]? = some (.switching init)) : LateAccess I C b64Decode domain p := by
  have hs : shutdownStep I C b64Decode domain p (.client k (.switch true)) =
      some (p.setClient k (.handshake init)) := by
    simp only [shutdownStep, clientStep, hk]
    rfl
  refine .later hs (late_handshake hstop (setClient_get ?_))
  rw [hk]
  exact Option.some_ne_none _

end Clients

/-! ### A client in serve_h2 -/

section Serve

variable {k i : Nat} {c : Conn}

theorem servingStep_of {e : Event} {s : Coord} (hk : p.clients[k]? = some (.serving i)) (he : e.isOf i = true)
    (hs : coordStep I domain p.coord e = some s) :
    shutdownStep I C b64Decode domain p (.serving k e) = some { p with coord := s } := by
  simp only [shutdownStep, servingStep, hk, he, hs, if_true, Option.map_some]

/-- An idle connection: the poll times out, and the tick reads `map_gen_`. -/
theorem late_idle (hstop : p.stop = .returned) (hk : p.clients[k]? = some (.serving i))
    (hget : p.coord.conns[i]? = some c) (hidle : c.phase = .idle) : LateAccess I C b64Decode domain p := by
  have hconn : idleConn p.coord i = some c := by simp only [idleConn, hget, hidle]
  have htick : coordStep I domain p.coord (.tick i) =
      some (p.coord.setConn i (c.enter (.tickFind p.coord.shared.mapGen 0))) := by
    simp only [coordStep, hconn, Option.map_some]
  have hof : (Event.tick i).isOf i = true := decide_eq_true rfl
  exact .now hstop (servingStep_of hk hof htick) rfl

/-- A connection inside a request, a tick or its end runs on. -/
theorem advance_some (I : Inet) (domain : Bytes) (g : Shared) (hidle : c.isIdle = false)
    (hclosed : c.isClosed = false) : ∃ g' c', advance I domain {} g c = some (g', c') := by
  have hsome : (advance I domain {} g c).isSome = true := by
    unfold advance
    cases hph : c.phase with
    | idle =>
      simp only [Conn.isIdle, hph] at hidle
      cases hidle
    | closed =>
      simp only [Conn.isClosed, hph] at hclosed
      cases hclosed
    | regRead | regNode | regBump | mapBump | mapLive | byeOnline | byeBump => rfl
    | regFind r =>
      simp only
      split
      · rfl
      · split
        · rfl
        · rfl
    | regInstall r image =>
      cases image with
      | none => rfl
      | some ks =>
        simp only
        split
        · rfl
        · rfl
    | regCheck r =>
      simp only
      split
      · rfl
      · rfl
      · rfl
    | mapUpdate sid r =>
      simp only
      split
      · rfl
      · rfl
    | mapOnline sid r =>
      simp only
      split
      · rfl
      · rfl
    | mapFind sid r =>
      simp only
      split
      · rfl
      · rfl
    | mapNodes sid r self =>
      simp only
      split
      · rfl
      · split
        · rfl
        · rfl
    | tickFind gen k =>
      simp only
      split
      · rfl
      · split
        · split
          · rfl
          · rfl
        · split
          · rfl
          · rfl
    | tickNodes gen k self =>
      simp only
      split
      · rfl
      · split
        · rfl
        · rfl
  obtain ⟨⟨g', c'⟩, h⟩ := Option.isSome_iff_exists.mp hsome
  exact ⟨g', c', h⟩

theorem servingStep_run {g' : Shared} {c' : Conn} (hk : p.clients[k]? = some (.serving i))
    (hget : p.coord.conns[i]? = some c)
    (hadv : advance I domain {} p.coord.shared c = some (g', c')) :
    shutdownStep I C b64Decode domain p (.serving k (.run i {})) =
      some { p with coord := { shared := g', conns := p.coord.conns.set i c' } } := by
  have hof : (Event.run i {}).isOf i = true := decide_eq_true rfl
  refine servingStep_of hk hof ?_
  simp only [coordStep, hget, Option.bind_some, hadv, Option.map_some]

/-- A section that reads or writes the coordinator. -/
theorem late_section (hstop : p.stop = .returned) (hk : p.clients[k]? = some (.serving i))
    (hget : p.coord.conns[i]? = some c) (hidle : c.isIdle = false) (hclosed : c.isClosed = false)
    (hacc : c.accesses = true) : LateAccess I C b64Decode domain p := by
  obtain ⟨g', c', hadv⟩ := advance_some I domain p.coord.shared hidle hclosed
  refine .now hstop (servingStep_run hk hget hadv) ?_
  simp only [touches, hget, Option.any_some, hacc]

/-- **A connection that is not closed gets to the coordinator**: now, or after the section that ends
    its tick or installs nothing. -/
theorem late_serving (hstop : p.stop = .returned) (hk : p.clients[k]? = some (.serving i))
    (hget : p.coord.conns[i]? = some c) (hclosed : c.isClosed = false) :
    LateAccess I C b64Decode domain p := by
  have hself : ∀ c', (p.coord.conns.set i c')[i]? = some c' := fun c' =>
    List.getElem?_set_self (List.getElem?_eq_some_iff.mp hget).1
  cases hph : c.phase with
  | idle => exact late_idle hstop hk hget hph
  | closed =>
    simp only [Conn.isClosed, hph] at hclosed
    cases hclosed
  | regInstall r image =>
    cases image with
    | some ks =>
      exact late_section hstop hk hget (by simp only [Conn.isIdle, hph]) hclosed
        (by simp only [Conn.accesses, hph])
    | none =>
      have hadv : advance I domain {} p.coord.shared c = some (p.coord.shared, c.enter (.regCheck r)) := by
        simp only [advance, hph]
      exact .later (servingStep_run hk hget hadv)
        (late_section (p := { p with coord := { p.coord with conns := p.coord.conns.set i _ } }) hstop hk
          (hself _) rfl rfl rfl)
  | tickFind gen j =>
    cases hj : c.live[j]? with
    | some m =>
      exact late_section hstop hk hget (by simp only [Conn.isIdle, hph]) hclosed
        (by simp only [Conn.accesses, hph, hj, Option.isSome_some])
    | none =>
      have hadv : advance I domain {} p.coord.shared c = some (p.coord.shared, c.enter .idle) := by
        simp only [advance, hph, hj]
      exact .later (servingStep_run hk hget hadv)
        (late_idle (p := { p with coord := { p.coord with conns := p.coord.conns.set i _ } }) hstop hk
          (hself _) rfl)
  | regFind | regRead | regCheck | regNode | regBump | mapUpdate | mapBump | mapOnline | mapFind | mapNodes
  | mapLive | tickNodes | byeOnline | byeBump =>
    exact late_section hstop hk hget (by simp only [Conn.isIdle, hph]) hclosed
      (by simp only [Conn.accesses, hph])

theorem late_confirming {machine : Bytes} (hstop : p.stop = .returned)
    (hk : p.clients[k]? = some (.confirming machine)) : LateAccess I C b64Decode domain p := by
  have hs : shutdownStep I C b64Decode domain p (.client k (.confirm true)) =
      some { p.setClient k (.serving p.coord.conns.length) with
             coord := { p.coord with conns := p.coord.conns ++ [{ machine }] } } := by
    simp only [shutdownStep, clientStep, hk]
    rfl
  have hserving : (p.setClient k (.serving p.coord.conns.length)).clients[k]? =
      some (.serving p.coord.conns.length) := by
    refine setClient_get ?_
    rw [hk]
    exact Option.some_ne_none _
  have hconn : (p.coord.conns ++ [({ machine := machine } : Conn)])[p.coord.conns.length]? =
      some { machine := machine } := List.getElem?_concat_length
  exact .later hs (late_idle hstop hserving hconn rfl)

end Serve

/-- **Where it is not clear, a client gets to the coordinator after `stop`.** -/
theorem late_of_unclear (hstop : p.stop = .returned) (h : p.clear = false) :
    LateAccess I C b64Decode domain p := by
  by_cases hspawn : p.loop = .spawn
  · -- the client that is still to be spawned
    have hs : shutdownStep I C b64Decode domain p (.loop false) =
        some { p with loop := .test, clients := p.clients ++ [.reading] } := by
      simp only [shutdownStep, loopStep, hspawn]
    have hlast : (p.clients ++ [.reading])[p.clients.length]? = some .reading :=
      List.getElem?_concat_length
    exact .later hs (late_reading hstop hlast)
  · have hclient : ∃ c ∈ p.clients, c.past p.coord = false := by
      by_contra hall
      have hclear : p.clear = true := by
        refine clear_iff.mpr ⟨hspawn, fun c hc => ?_⟩
        by_contra hne
        exact hall ⟨c, hc, Bool.eq_false_iff.mpr hne⟩
      rw [hclear] at h
      cases h
    obtain ⟨c, hc, hpast⟩ := hclient
    obtain ⟨k, hk⟩ := List.mem_iff_getElem?.mp hc
    cases c with
    | reading => exact late_reading hstop hk
    | keyText => exact late_keyText hstop hk
    | switching init => exact late_switching hstop hk
    | handshake init => exact late_handshake hstop hk
    | confirming machine => exact late_confirming hstop hk
    | serving i =>
      simp only [ClientPoint.past] at hpast
      cases hget : p.coord.conns[i]? with
      | none =>
        rw [hget] at hpast
        cases hpast
      | some conn =>
        rw [hget] at hpast
        exact late_serving hstop hk hget hpast
    | leaving => cases hpast

end Steps

/-! ## 7. Over whole runs -/

/-- **Nothing runs after stop, exactly where it returns in a clear state**: in every run of `stop`, the
    accept loop and any number of clients, from any state in which `stop` is not yet called, if `stop`
    returns only where the condition holds, no client touches the coordinator after it; and where
    `stop` is about to return, no client does so in any continuation exactly if the condition
    holds. -/
theorem nothing_after_stop (I : Inet) (C : Crypto) (b64Decode : Bytes → Option Bytes) (domain : Bytes)
    (p₀ : Shutdown) (hstart : p₀.stop = .flag) (ts : List Turn) (p : Shutdown)
    (h : Run (Guarded (Of (shutdownStep I C b64Decode domain)) fun p t => returnsClear p t = true) p₀ ts p) :
    Silent I C b64Decode domain p ∧
      (p.stop = .running →
        ((∀ ts' q, Run (Of (shutdownStep I C b64Decode domain)) p ts' q → Silent I C b64Decode domain q) ↔
          p.clear = true)) := by
  have hkept : p.life = lifeAt p₀.life p.stop ∧ (p.stop = .returned → Still p) := by
    refine h.inv_state (I := fun p => p.life = lifeAt p₀.life p.stop ∧ (p.stop = .returned → Still p)) ?_ ?_
    · rw [hstart]
      exact ⟨rfl, fun hne => by cases hne⟩
    · intro p t p' hp hs
      exact ⟨life_step hs.2 hp.1, still_returned hp.1 hp.2 hs.1 hs.2⟩
  obtain ⟨hl, hstill⟩ := hkept
  refine ⟨fun hstop => (hstill hstop).silent hstop, fun hlast => ⟨fun hsilent => ?_, fun hclear => ?_⟩⟩
  · -- `stop` returns now, and a client goes on
    by_contra hne
    have hs : shutdownStep I C b64Decode domain p .stop =
        some { p with life := { p.life with running := false }, stop := .returned } := by
      simp only [shutdownStep, stopStep, hlast]
    have hunclear : p.clear = false := Bool.eq_false_iff.mpr hne
    obtain ⟨ts', q, t, q', hrun, hstop, hq, ht⟩ :=
      LateAccess.later hs (late_of_unclear (p := { p with life := _, stop := .returned }) rfl hunclear)
    rw [hsilent ts' q hrun hstop t q' hq] at ht
    cases ht
  · intro ts' q hrun
    have hq : Still q := hrun.inv_state (.of_clear hl (.inl hlast) hclear) fun _ _ _ hp hs =>
      (still_step hp hs).1
    exact hq.silent

/-! ### Concrete runs -/

/-- A coordinator that `run_async` has started, with one client in `serve_h2`. -/
def polled (live : List LiveMap) : Shutdown :=
  { life := { running := true, listenFd := some 3, bound := ascii "0.0.0.0:8080", acceptThread := true
              sockets := [3] }
    clients := [.serving 0]
    coord := { shared := { world := { store := { path := [], alloc := pool16 }, file := none } }
               conns := [{ machine := ascii "mkey:1", live }] } }

/-- A map stream that is up to date. -/
def pollStream : LiveMap := { streamId := 1, machine := ascii "mkey:1", zstd := false, lastGen := 1 }

/-- `stop` is called and returns; the accept loop ends in time for the join. -/
def stops : List Turn := [.stop, .loop false, .stop, .stop, .stop, .stop]

/-- The client hangs up, and its thread is through with `serve_h2` before `stop` is called. -/
theorem nothing_after_stop_hangup :
    ∃ p, Run (Guarded (Of (shutdownStep .sample .sample b64Groups (ascii "ts.net"))) fun p t =>
          returnsClear p t = true) (polled [pollStream])
        ([.serving 0 (.hangup 0), .serving 0 (.run 0 {}), .serving 0 (.run 0 {})] ++ stops) p ∧
      p.stop = .returned ∧ Silent .sample .sample b64Groups (ascii "ts.net") p := by
  have hexec : (exec (checked (shutdownStep .sample .sample b64Groups (ascii "ts.net")) returnsClear)
      (polled [pollStream])
      ([.serving 0 (.hangup 0), .serving 0 (.run 0 {}), .serving 0 (.run 0 {})] ++ stops)).map
        (fun p => decide (p.stop = .returned)) = some true := by decide +kernel
  obtain ⟨p, hp, hstop⟩ := Option.map_eq_some_iff.mp hexec
  refine ⟨p, guarded_of_exec hp, of_decide_eq_true hstop, ?_⟩
  exact (nothing_after_stop .sample .sample b64Groups (ascii "ts.net") (polled [pollStream]) rfl _ p
    (guarded_of_exec hp)).1

/-- **A map poll that goes on.** `stop` has returned, the accept thread is joined, and the client's
    thread is where it was: its poll times out, and the tick reads `map_gen_`, then `cfg_`. -/
theorem ticks_after_stop :
    ∃ p, Run (Of (shutdownStep .sample .sample b64Groups (ascii "ts.net"))) (polled [pollStream])
        (stops ++ [.serving 0 (.tick 0)]) p ∧
      p.stop = .returned ∧ p.life.acceptThread = false ∧
      ¬ Silent .sample .sample b64Groups (ascii "ts.net") p := by
  have hexec : (exec (shutdownStep .sample .sample b64Groups (ascii "ts.net")) (polled [pollStream])
      (stops ++ [.serving 0 (.tick 0)])).map (fun p =>
        decide (p.stop = .returned) && !p.life.acceptThread && touches p (.serving 0 (.run 0 {})) &&
          (shutdownStep .sample .sample b64Groups (ascii "ts.net") p (.serving 0 (.run 0 {}))).isSome) =
      some true := by
    decide +kernel
  obtain ⟨p, hp, h⟩ := Option.map_eq_some_iff.mp hexec
  obtain ⟨h, hnext⟩ := Bool.and_eq_true_iff.mp h
  obtain ⟨h, htouches⟩ := Bool.and_eq_true_iff.mp h
  obtain ⟨hstop, hjoined⟩ := Bool.and_eq_true_iff.mp h
  obtain ⟨p', hp'⟩ := Option.isSome_iff_exists.mp hnext
  refine ⟨p, run_of_exec hp, of_decide_eq_true hstop, by simpa using hjoined, fun hsilent => ?_⟩
  rw [hsilent (of_decide_eq_true hstop) _ p' hp'] at htouches
  cases htouches

end Wirebone
