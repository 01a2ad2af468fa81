/-
  File:      Wirebone/Coordinator/Basic.lean
  Subject:   coordinator.cpp: the connections, at the grain of the mutexes.

  Every connection is served by one thread, which handles its requests one after another and runs
  `on_tick` in between. The threads meet in the store and in `map_gen_`, each behind its own mutex:
  a step of the machine is one critical section of one connection.

  * `decodeRegister`, `decodeMap` -- what the handlers read from a request body, with the
    exceptions of the JSON library;
  * `Phase` -- where a connection stands: the section it runs next, and what it holds;
  * `advance` -- one section; an exception ends the connection without the two sections that
    follow a normal end;
  * `Shared` -- what the threads share, with a record (`Note`) that nothing of the code reads: the
    claims granted, the nodes created, the maps built;
  * `coordStep` -- the machine of all connections.
-/
import Wirebone.Lib.Lts
import Wirebone.Netmap
import Wirebone.Store.Registry

namespace Wirebone

open ByteString FirstMatch Lts

/-! ## 1. Request bodies -/

def hostnameFromHostinfo (req : Json) : Except Exn Bytes :=
  match req.find (ascii "Hostinfo") with
  | some h => if h.isObject then h.value Json.getString "Hostname" [] else .ok []
  | none => .ok []

/-- A string element, where it is one. -/
def Json.string? : Json → Option Bytes
  | .str s => some s
  | _ => none

def endpointsFromReq (req : Json) : List Bytes :=
  match req.find (ascii "Endpoints") with
  | some (.arr es) => es.filterMap Json.string?
  | _ => []

structure RegisterReq where
  nodeKey : Bytes
  host : Bytes
  auth : Bytes
  ephemeral : Bool

/-- `auth` after the block on `req["Auth"]`. -/
def authFromReq (req : Json) : Except Exn Bytes :=
  match req.find (ascii "Auth") with
  | some (.obj ms) => do
    let auth ← (Json.obj ms).value Json.getString "AuthKey" []
    if auth = [] then
      (Json.obj ms).value Json.getString "authKey" []
    else
      return auth
  | some (.str s) => .ok s
  | _ => .ok []

def decodeRegister (req : Json) : Except Exn RegisterReq := do
  let nodeKey ← req.value Json.getString "NodeKey" []
  let host ← hostnameFromHostinfo req
  let auth ← authFromReq req
  let auth ← if auth = [] then req.value Json.getString "AuthKey" [] else .ok auth
  let ephemeral ← req.value Json.getBool "Ephemeral" false
  return { nodeKey, host, auth, ephemeral }

structure MapReq where
  version : Int
  stream : Bool
  omitPeers : Bool
  zstd : Bool
  nodeKey : Bytes
  discoKey : Bytes
  host : Bytes
  endpoints : List Bytes

def decodeMap (req : Json) : Except Exn MapReq := do
  let version ← req.value Json.getInt "Version" 0
  let stream ← req.value Json.getBool "Stream" false
  let omitPeers ← req.value Json.getBool "OmitPeers" false
  let compress ← req.value Json.getString "Compress" []
  let nodeKey ← req.value Json.getString "NodeKey" []
  let discoKey ← req.value Json.getString "DiscoKey" []
  let host ← hostnameFromHostinfo req
  return { version, stream, omitPeers, zstd := compress = ascii "zstd", nodeKey, discoKey, host,
           endpoints := endpointsFromReq req }

def MapReq.readonly (r : MapReq) : Bool := r.stream && decide (r.version ≥ 68)

/-! ## 2. Connections -/

/-- A map stream: the members of `LiveMap` that decide what is sent, and what has been queued on
    the stream. -/
structure LiveMap where
  streamId : Nat
  machine : Bytes
  zstd : Bool
  lastGen : UInt64
  /-- The client has not closed the stream. -/
  isOpen : Bool := true
  queued : List MapMessage := []

inductive Phase where
  | idle
  /-- `on_register`: `find_by_machine`. -/
  | regFind (r : RegisterReq)
  /-- `consume_preauth`: the file, the keys, the check. -/
  | regRead (r : RegisterReq)
  | regInstall (r : RegisterReq) (image : Option Json)
  | regCheck (r : RegisterReq)
  /-- `register_node`, with the claim and `ephemeral` as they stand by then. -/
  | regNode (r : RegisterReq) (claim : PreauthClaim) (ephemeral : Bool)
  | regBump
  /-- `on_map`: `update_map_info`, `bump_map`, `set_online`, `find_by_machine`, `nodes`,
      `map_gen`. -/
  | mapUpdate (sid : Nat) (r : MapReq)
  | mapBump (sid : Nat) (r : MapReq)
  | mapOnline (sid : Nat) (r : MapReq)
  | mapFind (sid : Nat) (r : MapReq)
  | mapNodes (sid : Nat) (r : MapReq) (self : NodeState)
  /-- The map built of `self` and `nodes` is queued; its generation is still to be read. -/
  | mapLive (sid : Nat) (r : MapReq) (self : NodeState) (nodes : List NodeState) (first : FullMap)
  /-- `on_tick`, at entry `k` of the streams. -/
  | tickFind (gen : UInt64) (k : Nat)
  | tickNodes (gen : UInt64) (k : Nat) (self : NodeState)
  /-- `serve_h2` after the loop: `set_online`, `bump_map`. -/
  | byeOnline
  | byeBump
  | closed

/-- The answers to requests. -/
inductive Reply where
  | badRequest
  | denied
  | registered
  | emptyBody
  | unauthorized
  | oneShot (map : FullMap)
  | streamStart (map : FullMap)

structure Conn where
  /-- The machine key the handshake has authenticated. -/
  machine : Bytes
  phase : Phase := .idle
  live : List LiveMap := []
  replies : List Reply := []

inductive Note where
  /-- A `consume_preauth` on a connection of `machine` has returned `true`. -/
  | claimed (machine : Bytes) (claim : PreauthClaim)
  /-- A request of `machine` has added its node, with this claim. -/
  | created (machine : Bytes) (claim : PreauthClaim)
  /-- A map has been built for `self` over `nodes`. -/
  | built (self : NodeState) (nodes : List NodeState) (map : FullMap)

structure Shared where
  world : World
  mapGen : UInt64 := 1
  notes : List Note := []

/-- What a section takes from outside. -/
structure Env where
  /-- `now_unix()` and `rfc3339_now()`. -/
  nowUnix : Int := 0
  now : Bytes := []
  io : SaveIo := {}
  /-- `ZSTD_isError` of what the section compresses. -/
  compressFails : Bool := false
  /-- The keepalive interval has passed. -/
  keepalive : Bool := false

/-- `encode_map_frame` throws: the dump, on a string that is not UTF-8, or the compressor fails. -/
def Env.encodeThrows (env : Env) (msg : MapMessage) : Bool := !msg.toJson.dumps || env.compressFails

/-- It is `encode_map_frame` that throws, where the flag tells how the compressor ends. -/
theorem Env.encodeThrows_iff {env : Env} {msg : MapMessage} {Z : Zstd} {dump : Json → Bytes}
    (h : env.compressFails = (Z.compress (dump msg.toJson)).isNone) :
    env.encodeThrows msg = true ↔ ∃ e, encodeMapFrame Z dump msg.toJson = .error e := by
  rw [encodeMapFrame_error_iff, Env.encodeThrows, h]
  simp

namespace Conn

def enter (c : Conn) (phase : Phase) : Conn := { c with phase }

def answer (c : Conn) (r : Reply) : Conn := { c with phase := .idle, replies := c.replies ++ [r] }

/-- An exception leaves `serve_h2`: the connection and its streams are gone. -/
def thrown (c : Conn) : Conn := { c with phase := .closed, live := [] }

end Conn

/-- `push_data`: nothing is queued on a stream that has been closed. -/
def LiveMap.push (m : LiveMap) (msg : MapMessage) : LiveMap :=
  if m.isOpen then { m with queued := m.queued ++ [msg] } else m

/-! ## 3. The sections of a connection -/

def bumpMap (g : Shared) : Shared := { g with mapGen := g.mapGen + 1 }

def Shared.note (g : Shared) (n : Note) : Shared := { g with notes := g.notes ++ [n] }

/-- `register_node` of a request, noting whether it has added a node. -/
def registerSection (I : Inet) (env : Env) (g : Shared) (c : Conn) (r : RegisterReq)
    (claim : PreauthClaim) (ephemeral : Bool) : Shared × Conn :=
  match registerNode I env.io c.machine r.nodeKey r.host ephemeral claim.token claim.shared g.world with
  | (result, w) =>
    let g' : Shared :=
      if g.world.store.nodes.length < w.store.nodes.length then
        ({ g with world := w }).note (.created c.machine claim)
      else { g with world := w }
    match result with
    | .error _ => (g', c.thrown)
    | .ok _ => (g', c.enter .regBump)

/-- The next section of a connection, if it is inside a request, a tick or its end. -/
def advance (I : Inet) (domain : Bytes) (env : Env) (g : Shared) (c : Conn) : Option (Shared × Conn) :=
  match c.phase with
  | .idle => none
  | .closed => none
  | .regFind r =>
    match findByMachine g.world.store c.machine with
    | some _ => some (g, c.enter (.regNode r {} r.ephemeral))
    | none => if r.auth = [] then some (g, c.answer .denied) else some (g, c.enter (.regRead r))
  | .regRead r => some (g, c.enter (.regInstall r (readImage g.world)))
  | .regInstall r none => some (g, c.enter (.regCheck r))
  | .regInstall r (some ks) =>
    match installKeys ks g.world.store with
    | (.error _, s) => some ({ g with world := { g.world with store := s } }, c.thrown)
    | (.ok _, s) => some ({ g with world := { g.world with store := s } }, c.enter (.regCheck r))
  | .regCheck r =>
    match checkAndMark env.io env.nowUnix r.auth g.world with
    | (.error _, w) => some ({ g with world := w }, c.thrown)
    | (.ok none, w) => some ({ g with world := w }, c.answer .denied)
    | (.ok (some claim), w) =>
      some (({ g with world := w }).note (.claimed c.machine claim),
        c.enter (.regNode r claim claim.ephemeral))
  | .regNode r claim ephemeral => some (registerSection I env g c r claim ephemeral)
  | .regBump => some (bumpMap g, c.answer .registered)
  | .mapUpdate sid r =>
    match updateMapInfo env.io c.machine r.nodeKey r.discoKey r.host r.endpoints g.world with
    | (.error _, w) => some ({ g with world := w }, c.thrown)
    | (.ok _, w) => some ({ g with world := w }, c.enter (.mapBump sid r))
  | .mapBump sid r => some (bumpMap g, c.enter (.mapOnline sid r))
  | .mapOnline sid r =>
    let g := { g with world := { g.world with store := setOnline c.machine true g.world.store } }
    if r.omitPeers && !r.stream then some (g, c.answer .emptyBody) else some (g, c.enter (.mapFind sid r))
  | .mapFind sid r =>
    match findByMachine g.world.store c.machine with
    | none => some (g, c.answer .unauthorized)
    | some self => some (g, c.enter (.mapNodes sid r self))
  | .mapNodes sid r self =>
    let nodes := g.world.store.nodes
    let first := buildFullMap self nodes domain env.now
    let g := g.note (.built self nodes first)
    if env.encodeThrows (.full first) then some (g, c.thrown)
    else if !r.stream then some (g, c.answer (.oneShot first))
    else some (g, c.enter (.mapLive sid r self nodes first))
  | .mapLive sid r _ _ first =>
    let entry : LiveMap :=
      { streamId := sid, machine := c.machine, zstd := r.zstd, lastGen := g.mapGen
        queued := [.full first] }
    some (g, { c.answer (.streamStart first) with live := c.live ++ [entry] })
  | .tickFind gen k =>
    match c.live[k]? with
    | none => some (g, c.enter .idle)
    | some m =>
      if gen ≠ m.lastGen then
        match findByMachine g.world.store m.machine with
        | some self => some (g, c.enter (.tickNodes gen k self))
        | none =>
          some (g, { c with phase := .tickFind gen (k + 1)
                            live := c.live.set k { m with lastGen := gen } })
      else if env.keepalive then
        if env.encodeThrows (buildKeepalive env.now) then some (g, c.thrown)
        else
          some (g, { c with phase := .tickFind gen (k + 1)
                            live := c.live.set k (m.push (buildKeepalive env.now)) })
      else some (g, c.enter (.tickFind gen (k + 1)))
  | .tickNodes gen k self =>
    let nodes := g.world.store.nodes
    let map := buildFullMap self nodes domain env.now
    let g := g.note (.built self nodes map)
    if env.encodeThrows (.full map) then some (g, c.thrown)
    else
      match c.live[k]? with
      | none => some (g, c.enter (.tickFind gen (k + 1)))
      | some m =>
        some (g, { c with phase := .tickFind gen (k + 1)
                          live := c.live.set k { m.push (.full map) with lastGen := gen } })
  | .byeOnline =>
    some ({ g with world := { g.world with store := setOnline c.machine false g.world.store } },
      c.enter .byeBump)
  | .byeBump => some (bumpMap g, c.enter .closed)

/-- `encode_map_frame` throws in the next section of the connection. -/
def encodeFails (domain : Bytes) (env : Env) (g : Shared) (c : Conn) : Bool :=
  match c.phase with
  | .mapNodes _ _ self | .tickNodes _ _ self =>
    env.encodeThrows (.full (buildFullMap self g.world.store.nodes domain env.now))
  | .tickFind gen k =>
    match c.live[k]? with
    | some m => decide (gen = m.lastGen) && env.keepalive && env.encodeThrows (buildKeepalive env.now)
    | none => false
  | _ => false

/-! ## 4. The machine -/

structure Coord where
  shared : Shared
  conns : List Conn := []

inductive Event where
  /-- A handshake for `machine` has succeeded. -/
  | accept (machine : Bytes)
  /-- A `/machine/register` or `/machine/map` request (`none`: the body does not parse). -/
  | register (i : Nat) (body : Option Json)
  | map (i sid : Nat) (body : Option Json)
  /-- `on_tick` reads `map_gen_` and starts its loop. -/
  | tick (i : Nat)
  /-- The connection runs its next section. -/
  | run (i : Nat) (env : Env)
  /-- The client closes a map stream. -/
  | closeStream (i k : Nat)
  /-- The loop of the connection ends. -/
  | hangup (i : Nat)
  | createKey (env : Env) (raw : Bytes32) (reusable ephemeral : Bool) (expiration : Int)
      (token : Bytes) (shared : Option Bool)

/-- A request reaches its handler. -/
def onRegister (c : Conn) : Option Json → Conn
  | none => c.answer .badRequest
  | some req =>
    match decodeRegister req with
    | .error _ => c.thrown
    | .ok r => c.enter (.regFind r)

def onMap (c : Conn) (sid : Nat) : Option Json → Conn
  | none => c.answer .badRequest
  | some req =>
    match decodeMap req with
    | .error _ => c.thrown
    | .ok r => if r.readonly then c.enter (.mapOnline sid r) else c.enter (.mapUpdate sid r)

/-- The connection `i`, where it waits for a request. -/
def idleConn (s : Coord) (i : Nat) : Option Conn :=
  match s.conns[i]? with
  | some c => match c.phase with
    | .idle => some c
    | _ => none
  | none => none

def Coord.setConn (s : Coord) (i : Nat) (c : Conn) : Coord := { s with conns := s.conns.set i c }

def closeLive (c : Conn) (k : Nat) : Conn :=
  { c with live := c.live.modify k fun m => { m with isOpen := false } }

def coordStep (I : Inet) (domain : Bytes) (s : Coord) : Event → Option Coord
  | .accept machine => some { s with conns := s.conns ++ [{ machine }] }
  | .register i body => (idleConn s i).map fun c => s.setConn i (onRegister c body)
  | .map i sid body => (idleConn s i).map fun c => s.setConn i (onMap c sid body)
  | .tick i => (idleConn s i).map fun c => s.setConn i (c.enter (.tickFind s.shared.mapGen 0))
  | .run i env =>
    (s.conns[i]?).bind fun c => (advance I domain env s.shared c).map fun (g, c') =>
      { shared := g, conns := s.conns.set i c' }
  | .closeStream i k => (idleConn s i).map fun c => s.setConn i (closeLive c k)
  | .hangup i => (idleConn s i).map fun c => s.setConn i { c with phase := .byeOnline, live := [] }
  | .createKey env raw reusable ephemeral expiration token shared =>
    let w := (createPreauthKey env.io env.nowUnix raw reusable ephemeral expiration token shared
      s.shared.world).2
    some { s with shared := { s.shared with world := w } }

/-- A coordinator over the store `s`, with no connection. -/
def Coord.fresh (s : Store) (file : Option FileText) : Coord :=
  { shared := { world := { store := s, file } } }

/-! ## 5. Events of concrete runs -/

/-- The body of a registration with a key. -/
def authBody (key : Bytes) : Json :=
  .obj [(ascii "NodeKey", .str (ascii "nodekey:1")), (ascii "Auth", .obj [(ascii "AuthKey", .str key)])]

/-- A machine connects and registers with a key of its own group: the request, then its six
    sections. -/
def joins (i : Nat) (machine : Bytes) (raw : Bytes32) (token : Bytes) : List Event :=
  [.createKey {} raw false false 0 token none, .accept machine,
    .register i (some (authBody (randomToken raw)))] ++ List.replicate 6 (.run i {})

end Wirebone
