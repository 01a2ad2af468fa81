/-
  File:      Wirebone/Coordinator/Lifecycle.lean
  Subject:   STARTING AND STOPPING: `run_async`, `stop` and what they leave behind.

  `running_` is set first; the calls after it may throw, and nothing takes it back. The members of
  the coordinator that a start sets one after another are the fields of `Life`; the sockets of the
  process are a list, so that an open one is told from a number.

  * `parseHostport`, `listenTcp`, `dnsStart`, `startListen`, `runAsync`, `stopCall` -- the code, with
    the outcomes of the socket calls in `StartIo`;
  * `Truthful`, `KeepsPromise` -- the property of a state and of a call;
  * `startsWell` -- the condition on a call;
  * **`lifecycle_promise_iff`** -- in every state that such calls reach, the property holds, and the
    next call keeps it exactly where it meets the condition;
  * **`lifecycle_stuck`** -- a port in use: the coordinator says it runs, and cannot be started.
-/
import Wirebone.IpAlloc
import Wirebone.Lib.Lts

namespace Wirebone

open ByteString Lts

/-! ## 1. The state -/

/-- The two addresses of `Config`. -/
structure ListenConfig where
  listen : Bytes
  dnsListen : Bytes

/-- A `MagicDns` object: its socket, and whether its thread runs. -/
structure DnsServer where
  fd : Option Nat := none
  thread : Bool := false
  deriving DecidableEq

structure Life where
  running : Bool := false
  stop : Bool := false
  listenFd : Option Nat := none
  bound : Bytes := []
  dns : Option DnsServer := none
  /-- `accept_thread_` is joinable. -/
  acceptThread : Bool := false
  /-- The open sockets of the process. -/
  sockets : List Nat := []
  deriving DecidableEq

/-- How the socket calls of a start end. -/
structure StartIo where
  socket : Option Nat := none
  binds : Bool := true
  listens : Bool := true
  /-- What `getsockname` gives, as text. -/
  bound : Bytes := []
  dnsSocket : Option Nat := none
  dnsBinds : Bool := true

/-- The numbers of new sockets are not in use. -/
def StartIo.possible (io : StartIo) (s : Life) : Bool :=
  (io.socket.all fun fd => decide (fd ∉ s.sockets)) &&
    io.dnsSocket.all fun fd => decide (fd ∉ s.sockets ∧ io.socket ≠ some fd)

/-! ## 2. The code -/

/-- `parse_hostport`. -/
def parseHostport (s : Bytes) : Except Exn (Bytes × UInt16) :=
  if 58 ∉ s then do
    let port ← stoi s
    return (ascii "0.0.0.0", UInt16.ofInt port)
  else do
    let host := ((s.reverse.dropWhile (· ≠ 58)).drop 1).reverse
    let port ← stoi (s.reverse.takeWhile (· ≠ 58)).reverse
    return (if host = [] then ascii "0.0.0.0" else host, UInt16.ofInt port)

/-- `::close`. -/
def Life.closeFd (s : Life) (fd : Nat) : Life := { s with sockets := s.sockets.erase fd }

def listenTcp (spec : Bytes) (io : StartIo) (s : Life) : Except Exn Nat × Life :=
  match parseHostport spec with
  | .error e => (.error e, s)
  | .ok _ =>
    match io.socket with
    | none => (.error (.runtimeError (ascii "socket")), s)
    | some fd =>
      let s := { s with sockets := fd :: s.sockets }
      if !io.binds then (.error (.runtimeError (ascii "bind failed on " ++ spec)), s.closeFd fd)
      else if !io.listens then (.error (.runtimeError (ascii "listen")), s.closeFd fd)
      else (.ok fd, { s with bound := io.bound })

/-- `MagicDns::stop`, also of its destructor; the thread ends, and is joined. -/
def dnsStop (s : Life) : Life :=
  match s.dns with
  | none => s
  | some d =>
    match d.fd with
    | none => { s with dns := none }
    | some fd => { s.closeFd fd with dns := none }

/-- `MagicDns::start` of a server just made. -/
def dnsStart (spec : Bytes) (io : StartIo) (s : Life) : Except Exn Unit × Life :=
  if spec = [] then (.ok (), s)
  else
    match parseHostport spec with
    | .error e => (.error e, s)
    | .ok _ =>
      match io.dnsSocket with
      | none => (.error (.runtimeError (ascii "dns socket")), s)
      | some fd =>
        let s := { s with sockets := fd :: s.sockets }
        if !io.dnsBinds then
          (.error (.runtimeError (ascii "dns bind failed on " ++ spec)), s.closeFd fd)
        else (.ok (), { s with dns := some { fd := some fd, thread := true } })

def startListen (cfg : ListenConfig) (io : StartIo) (s : Life) : Except Exn Unit × Life :=
  if s.running then (.error (.runtimeError (ascii "coordinator already running")), s)
  else
    match listenTcp cfg.listen io { s with running := true, stop := false } with
    | (.error e, s) => (.error e, s)
    | (.ok fd, s) =>
      let s := { s with listenFd := some fd }
      if cfg.dnsListen = [] then (.ok (), s)
      else dnsStart cfg.dnsListen io { dnsStop s with dns := some {} }

def runAsync (cfg : ListenConfig) (io : StartIo) (s : Life) : Except Exn Unit × Life :=
  match startListen cfg io s with
  | (.error e, s) => (.error e, s)
  | (.ok _, s) => (.ok (), { s with acceptThread := true })

/-- The listen socket is closed, where there is one. -/
def closeListen (s : Life) : Life :=
  match s.listenFd with
  | none => s
  | some fd => { s.closeFd fd with listenFd := none }

/-- `stop`; the accept loop ends, and its thread is joined. -/
def stopCall (s : Life) : Life :=
  { dnsStop (closeListen { s with stop := true }) with acceptThread := false, running := false }

inductive LifeCall where
  | runAsync (io : StartIo)
  | stop

def lifeCall (cfg : ListenConfig) (s : Life) : LifeCall → Except Exn Unit × Life
  | .runAsync io => runAsync cfg io s
  | .stop => (.ok (), stopCall s)

/-- One call; socket numbers in use are not given out. -/
def lifeStep (cfg : ListenConfig) (s : Life) (c : LifeCall) : Option Life :=
  match c with
  | .runAsync io => if io.possible s then some (lifeCall cfg s c).2 else none
  | .stop => some (lifeCall cfg s c).2

/-! ## 3. The property and the condition -/

/-- An accept loop is active on an open listen socket. -/
def Life.accepting (s : Life) : Bool :=
  s.acceptThread && !s.stop && s.listenFd.any fun fd => decide (fd ∈ s.sockets)

/-- Every call of a start succeeds: the addresses are read, and the sockets are made and bound. -/
def StartIo.succeeds (cfg : ListenConfig) (io : StartIo) : Bool :=
  (parseHostport cfg.listen).toBool && io.socket.isSome && io.binds && io.listens &&
    (decide (cfg.dnsListen = []) ||
      ((parseHostport cfg.dnsListen).toBool && io.dnsSocket.isSome && io.dnsBinds))

/-- **`running()` is truthful**, and where no accept loop is active a start whose calls succeed does
    start one. -/
structure Truthful (cfg : ListenConfig) (s : Life) : Prop where
  running : s.running = s.accepting
  startable : s.accepting = false → ∀ io, io.possible s = true → io.succeeds cfg = true →
    (runAsync cfg io s).1 = .ok () ∧ (runAsync cfg io s).2.accepting = true

/-- **A call keeps the promise**: the state after it is truthful, and where it throws, `running()`,
    the listen socket and the DNS server are as they were. -/
structure KeepsPromise (cfg : ListenConfig) (s : Life) (c : LifeCall) : Prop where
  truthful : Truthful cfg (lifeCall cfg s c).2
  restored : (lifeCall cfg s c).1.toBool = false →
    (lifeCall cfg s c).2.running = s.running ∧ (lifeCall cfg s c).2.listenFd = s.listenFd ∧
      (lifeCall cfg s c).2.dns = s.dns

/-- **The condition on a call**: a `run_async` made while the coordinator does not run succeeds. -/
def startsWell (cfg : ListenConfig) (s : Life) : LifeCall → Bool
  | .runAsync io => s.running || io.succeeds cfg
  | .stop => true

/-! ## 4. The states between calls -/

/-- Nothing is started, or all of it. -/
inductive Steady (s : Life) : Prop where
  | idle (running : s.running = false) (fd : s.listenFd = none) (dns : s.dns = none)
      (thread : s.acceptThread = false)
  | up (running : s.running = true) (stop : s.stop = false) (thread : s.acceptThread = true)
      (fd : ∃ fd, s.listenFd = some fd ∧ fd ∈ s.sockets)

section Calls

variable {cfg : ListenConfig} {s : Life} {io : StartIo}

/-- A start from rest, all of whose calls succeed. -/
theorem runAsync_succeeds (hidle : s.running = false) (hdns : s.dns = none)
    (hio : io.succeeds cfg = true) :
    ∃ fd, io.socket = some fd ∧ (runAsync cfg io s).1 = .ok () ∧ (runAsync cfg io s).2.running = true ∧
      (runAsync cfg io s).2.stop = false ∧ (runAsync cfg io s).2.acceptThread = true ∧
      (runAsync cfg io s).2.listenFd = some fd ∧ fd ∈ (runAsync cfg io s).2.sockets := by
  simp only [StartIo.succeeds, Bool.and_eq_true, Bool.or_eq_true, decide_eq_true_eq] at hio
  obtain ⟨⟨⟨⟨hparse, hsock⟩, hbind⟩, hlisten⟩, hd⟩ := hio
  obtain ⟨fd, hfd⟩ := Option.isSome_iff_exists.mp hsock
  cases hp : parseHostport cfg.listen with
  | error e =>
    rw [hp] at hparse
    cases hparse
  | ok addr =>
    have htcp : ∀ t : Life, listenTcp cfg.listen io t =
        (.ok fd, { t with sockets := fd :: t.sockets, bound := io.bound }) := by
      intro t
      simp [listenTcp, hp, hfd, hbind, hlisten]
    refine ⟨fd, hfd, ?_⟩
    rcases hd with hnone | ⟨⟨hparse', hsock'⟩, hbind'⟩
    · simp [runAsync, startListen, hidle, htcp, hnone]
    · obtain ⟨fd', hfd'⟩ := Option.isSome_iff_exists.mp hsock'
      cases hp' : parseHostport cfg.dnsListen with
      | error e =>
        rw [hp'] at hparse'
        cases hparse'
      | ok addr' =>
        by_cases hnone : cfg.dnsListen = []
        · simp [runAsync, startListen, hidle, htcp, hnone]
        · simp [runAsync, startListen, dnsStart, dnsStop, hidle, hdns, htcp, hnone, hp', hfd', hbind']

/-- A start from rest that fails leaves `running_` set, and makes no accept thread. -/
theorem runAsync_fails (hidle : s.running = false) (hthread : s.acceptThread = false)
    (hdns : s.dns = none) (hio : io.succeeds cfg = false) :
    (runAsync cfg io s).2.running = true ∧ (runAsync cfg io s).2.acceptThread = false := by
  cases hp : parseHostport cfg.listen with
  | error e => simp [runAsync, startListen, listenTcp, hidle, hp, hthread]
  | ok addr =>
    cases hfd : io.socket with
    | none => simp [runAsync, startListen, listenTcp, hidle, hp, hfd, hthread]
    | some fd =>
      by_cases hbind : io.binds = true
      · by_cases hlisten : io.listens = true
        · have htcp : ∀ t : Life, listenTcp cfg.listen io t =
              (.ok fd, { t with sockets := fd :: t.sockets, bound := io.bound }) := by
            intro t
            simp [listenTcp, hp, hfd, hbind, hlisten]
          by_cases hnone : cfg.dnsListen = []
          · simp [StartIo.succeeds, hp, hfd, hbind, hlisten, hnone, Except.toBool] at hio
          · cases hp' : parseHostport cfg.dnsListen with
            | error e =>
              simp [runAsync, startListen, dnsStart, dnsStop, hidle, hdns, htcp, hnone, hp', hthread]
            | ok addr' =>
              cases hfd' : io.dnsSocket with
              | none =>
                simp [runAsync, startListen, dnsStart, dnsStop, hidle, hdns, htcp, hnone, hp', hfd', hthread]
              | some fd' =>
                have hbind' : io.dnsBinds = false := by
                  simpa [StartIo.succeeds, hp, hp', hfd, hfd', hbind, hlisten, hnone, Except.toBool] using hio
                simp [runAsync, startListen, dnsStart, dnsStop, Life.closeFd, hidle, hdns, htcp, hnone, hp',
                  hfd', hbind', hthread]
        · simp [runAsync, startListen, listenTcp, Life.closeFd, hidle, hp, hfd, hbind, hlisten, hthread]
      · simp [runAsync, startListen, listenTcp, Life.closeFd, hidle, hp, hfd, hbind, hthread]

theorem accepting_of_up (stop : s.stop = false) (thread : s.acceptThread = true)
    (fd : ∃ fd, s.listenFd = some fd ∧ fd ∈ s.sockets) : s.accepting = true := by
  obtain ⟨fd, hfd, hmem⟩ := fd
  simp [Life.accepting, stop, thread, hfd, hmem]

/-- A steady state is truthful. -/
theorem Steady.truthful (h : Steady s) : Truthful cfg s := by
  cases h with
  | idle running fd dns thread =>
    have hno : s.accepting = false := by simp [Life.accepting, thread]
    refine ⟨running.trans hno.symm, fun _ io _ hio => ?_⟩
    obtain ⟨fd', _, hok, _, hstop, hthread, hfd, hmem⟩ := runAsync_succeeds running dns hio
    exact ⟨hok, accepting_of_up hstop hthread ⟨fd', hfd, hmem⟩⟩
  | up running stop thread fd =>
    have hyes := accepting_of_up stop thread fd
    refine ⟨running.trans hyes.symm, fun hno => ?_⟩
    rw [hyes] at hno
    cases hno

theorem closeListen_fd (s : Life) : (closeListen s).listenFd = none := by
  unfold closeListen
  split
  · assumption
  · rfl

theorem dnsStop_rest (s : Life) : (dnsStop s).listenFd = s.listenFd ∧ (dnsStop s).dns = none := by
  unfold dnsStop
  split
  · exact ⟨rfl, by assumption⟩
  · split
    · exact ⟨rfl, rfl⟩
    · exact ⟨rfl, rfl⟩

/-- `stop` puts everything to rest. -/
theorem stopCall_steady (s : Life) : Steady (stopCall s) := by
  obtain ⟨hfd, hdns⟩ := dnsStop_rest (closeListen { s with stop := true })
  exact .idle rfl (hfd.trans (closeListen_fd _)) hdns rfl

/-- A call that meets the condition leads from a steady state to a steady one, and where it throws
    it has changed nothing. -/
theorem steady_call {c : LifeCall} (h : Steady s) (hok : startsWell cfg s c = true) :
    Steady (lifeCall cfg s c).2 ∧ ((lifeCall cfg s c).1.toBool = false → (lifeCall cfg s c).2 = s) := by
  cases c with
  | stop => exact ⟨stopCall_steady s, fun hthrew => nomatch hthrew⟩
  | runAsync io =>
    cases hrun : s.running with
    | true =>
      have hthrows : runAsync cfg io s =
          (.error (.runtimeError (ascii "coordinator already running")), s) := by
        simp [runAsync, startListen, hrun]
      simp only [lifeCall, hthrows]
      exact ⟨h, fun _ => trivial⟩
    | false =>
      have hio : io.succeeds cfg = true := by simpa [startsWell, hrun] using hok
      cases h with
      | up running => rw [running] at hrun; cases hrun
      | idle running fd dns thread =>
        obtain ⟨fd', _, hret, hrunning, hstop, hthread, hfd, hmem⟩ := runAsync_succeeds running dns hio
        refine ⟨.up hrunning hstop hthread ⟨fd', hfd, hmem⟩, fun hthrew => ?_⟩
        simp only [lifeCall, hret] at hthrew
        cases hthrew

end Calls

/-! ## 5. Over whole runs -/

theorem lifeStep_some {cfg : ListenConfig} {s s' : Life} {c : LifeCall} (h : lifeStep cfg s c = some s') :
    s' = (lifeCall cfg s c).2 := by
  cases c with
  | stop => exact (Option.some.inj h).symm
  | runAsync io =>
    simp only [lifeStep] at h
    split at h
    · exact (Option.some.inj h).symm
    · cases h

/-- **The lifecycle**: in every state that is reached by calls each of which stops, or finds the
    coordinator running, or starts it with success, `running()` is truthful; and the next call keeps
    the promise exactly where it is such a call. -/
theorem lifecycle_promise_iff (cfg : ListenConfig) (cs : List LifeCall) (s : Life)
    (hrun : Run (Guarded (Of (lifeStep cfg)) fun s c => startsWell cfg s c = true) {} cs s) :
    Truthful cfg s ∧ ∀ c s', lifeStep cfg s c = some s' →
      (KeepsPromise cfg s c ↔ startsWell cfg s c = true) := by
  have hsteady : Steady s := by
    refine hrun.inv_state (I := Steady) (.idle rfl rfl rfl rfl) ?_
    intro s c s' hs hstep
    rw [lifeStep_some hstep.2]
    exact (steady_call hs hstep.1).1
  refine ⟨hsteady.truthful, fun c s' _ => ⟨fun hkeeps => ?_, fun hok => ?_⟩⟩
  · cases c with
    | stop => rfl
    | runAsync io =>
      cases hsteady with
      | up running => simp [startsWell, running]
      | idle running fd dns thread =>
        cases hio : io.succeeds cfg with
        | true => simp [startsWell, hio]
        | false =>
          -- `running_` is set and no accept loop is active
          obtain ⟨hrunning, hthread⟩ := runAsync_fails running thread dns hio
          have htruth : (runAsync cfg io s).2.running = (runAsync cfg io s).2.accepting :=
            hkeeps.truthful.running
          rw [hrunning, Life.accepting, hthread] at htruth
          cases htruth
  · obtain ⟨hst, hsame⟩ := steady_call hsteady hok
    refine ⟨hst.truthful, fun hthrew => ?_⟩
    rw [hsame hthrew]
    exact ⟨rfl, rfl, rfl⟩

/-- The addresses of the default configuration. -/
def defaultListen : ListenConfig := { listen := ascii "0.0.0.0:8080", dnsListen := ascii "0.0.0.0:5353" }

/-- A start that finds its port in use, and one that does not. -/
def portInUse : StartIo := { socket := some 3, binds := false }
def portFree : StartIo := { socket := some 3, bound := ascii "0.0.0.0:8080", dnsSocket := some 4 }

/-- The port is in use: `run_async` throws, `running()` is true, no accept loop is active, and the
    next `run_async`, whose calls would all succeed, throws too. -/
theorem lifecycle_stuck :
    ∃ s, Run (Of (lifeStep defaultListen)) {} [.runAsync portInUse] s ∧ s.running = true ∧
      s.accepting = false ∧ portFree.succeeds defaultListen = true ∧
      (runAsync defaultListen portFree s).1 =
        .error (.runtimeError (ascii "coordinator already running")) ∧
      ¬ Truthful defaultListen s ∧ ¬ KeepsPromise defaultListen {} (.runAsync portInUse) := by
  have hrun : lifeStep defaultListen {} (.runAsync portInUse) = some { running := true } := by
    decide +kernel
  have hstate : (lifeCall defaultListen {} (.runAsync portInUse)).2 = { running := true } :=
    (lifeStep_some hrun).symm
  have hfalse : ¬ Truthful defaultListen { running := true } := by
    intro h
    have hr := h.running
    cases hr
  have hexec : exec (lifeStep defaultListen) {} [.runAsync portInUse] = some { running := true } := by
    rw [exec, hrun]
    rfl
  refine ⟨{ running := true }, run_of_exec hexec, rfl, rfl, by decide +kernel, rfl, hfalse, ?_⟩
  intro h
  have ht := h.truthful
  rw [hstate] at ht
  exact hfalse ht

/-- A start, a second one while the coordinator runs, a stop, and a start again. -/
def orderlyCalls : List LifeCall :=
  [.runAsync portFree, .runAsync { socket := some 5 }, .stop, .runAsync portFree]

theorem lifecycle_promise_orderly :
    ∃ s, Run (Guarded (Of (lifeStep defaultListen)) fun s c => startsWell defaultListen s c = true) {}
        orderlyCalls s ∧ s.running = true ∧ Truthful defaultListen s ∧
      KeepsPromise defaultListen s .stop := by
  have hexec : (exec (checked (lifeStep defaultListen) (startsWell defaultListen)) {} orderlyCalls).map
      (·.running) = some true := by decide +kernel
  obtain ⟨s, hs, hrunning⟩ := Option.map_eq_some_iff.mp hexec
  have hrun := guarded_of_exec hs
  obtain ⟨htruth, hnext⟩ := lifecycle_promise_iff defaultListen orderlyCalls s hrun
  exact ⟨s, hrun, hrunning, htruth, (hnext .stop _ rfl).mpr rfl⟩

end Wirebone
