/-
  File:      Wirebone/Store/Basic.lean
  Subject:   state.cpp: the store, its snapshot, its file and its operations.

  A `Store` is what one process holds in memory; a `World` is a store and the file at its path.
  An operation that throws leaves behind what it had changed by then, so every operation returns
  its result or exception AND the world after it.

  * `snapshotLocked`, `applySnapshotLocked` -- the JSON image of a store, out and in;
  * `saveLocked` -- rewrites the file from memory; `SaveIo` says how the calls in it end;
  * `createPreauthKey`, `registerNode`, `updateMapInfo`, `setOnline` -- one critical section each;
  * `consume_preauth` is three sections: `readImage` (without the mutex), `installKeys`,
    `checkAndMark`;
  * what the code takes from outside (the clock, random bytes) is an argument.
-/
import Wirebone.Crypto
import Wirebone.IpAlloc
import Wirebone.Lib.FirstMatch

namespace Wirebone

open ByteString FirstMatch

/-! ## 1. The data -/

structure PreauthKey where
  key : Bytes := []
  reusable : Bool := true
  ephemeral : Bool := false
  used : Bool := false
  expiresUnix : Int := 0
  token : Bytes := []
  shared : Bool := false
  deriving DecidableEq

structure PreauthClaim where
  ephemeral : Bool := false
  token : Bytes := []
  shared : Bool := false
  deriving DecidableEq

structure NodeState where
  id : UInt64 := 0
  stableId : Bytes := []
  hostname : Bytes := []
  machineKey : Bytes := []
  nodeKey : Bytes := []
  discoKey : Bytes := []
  ipv4 : Bytes := []
  ipv6 : Bytes := []
  endpoints : List Bytes := []
  online : Bool := false
  ephemeral : Bool := false
  token : Bytes := []
  shared : Bool := false
  deriving DecidableEq

structure Store where
  path : Bytes
  alloc : IpAllocator
  noisePrivate : Bytes32 := zero32
  nextNodeId : UInt64 := 1
  nextIpIndex : UInt32 := 1
  keys : List PreauthKey := []
  nodes : List NodeState := []
  /-- `persist_hook_` is set. -/
  hooked : Bool := false

/-! ## 2. The snapshot -/

def keyToJson (k : PreauthKey) : Json :=
  .obj [(ascii "key", .str k.key), (ascii "reusable", .bool k.reusable),
    (ascii "ephemeral", .bool k.ephemeral), (ascii "used", .bool k.used),
    (ascii "expires_unix", .num k.expiresUnix), (ascii "token", .str k.token),
    (ascii "shared", .bool k.shared)]

def nodeToJson (n : NodeState) : Json :=
  .obj [(ascii "id", .num n.id.toNat), (ascii "stable_id", .str n.stableId),
    (ascii "hostname", .str n.hostname), (ascii "machine_key", .str n.machineKey),
    (ascii "node_key", .str n.nodeKey), (ascii "disco_key", .str n.discoKey),
    (ascii "ipv4", .str n.ipv4), (ascii "ipv6", .str n.ipv6),
    (ascii "endpoints", .arr (n.endpoints.map .str)), (ascii "ephemeral", .bool n.ephemeral),
    (ascii "online", .bool n.online), (ascii "token", .str n.token),
    (ascii "shared", .bool n.shared)]

def snapshotLocked (s : Store) : Json :=
  .obj [(ascii "noise_private", .str (hexEncode s.noisePrivate)),
    (ascii "next_node_id", .num s.nextNodeId.toNat),
    (ascii "next_ip_index", .num s.nextIpIndex.toNat),
    (ascii "preauth_keys", .arr (s.keys.map keyToJson)),
    (ascii "nodes", .arr (s.nodes.map nodeToJson))]

def keyFromJson (k : Json) : Except Exn PreauthKey := do
  let key ← k.value Json.getString "key" []
  let reusable ← k.value Json.getBool "reusable" true
  let ephemeral ← k.value Json.getBool "ephemeral" false
  let used ← k.value Json.getBool "used" false
  let expiresUnix ← k.value Json.getInt "expires_unix" 0
  let token ← k.value Json.getString "token" []
  let shared ← k.value Json.getBool "shared" token.isEmpty
  return { key, reusable, ephemeral, used, expiresUnix, token, shared }

/-- The body of the loop over `j["nodes"]`. -/
def nodeFromJson (n : Json) : Except Exn NodeState := do
  let id ← n.value Json.getInt "id" 0
  let stableId ← n.value Json.getString "stable_id" []
  let hostname ← n.value Json.getString "hostname" []
  let machineKey ← n.value Json.getString "machine_key" []
  let nodeKey ← n.value Json.getString "node_key" []
  let discoKey ← n.value Json.getString "disco_key" []
  let ipv4 ← n.value Json.getString "ipv4" []
  let ipv6 ← n.value Json.getString "ipv6" []
  let ephemeral ← n.value Json.getBool "ephemeral" false
  let online ← n.value Json.getBool "online" false
  let token ← n.value Json.getString "token" []
  let shared ← n.value Json.getBool "shared" token.isEmpty
  let endpoints ← match n.find (ascii "endpoints") with
    | some e => e.getStrings
    | none => .ok []
  return { id := UInt64.ofInt id, stableId, hostname, machineKey, nodeKey, discoKey, ipv4, ipv6,
           endpoints, online, ephemeral, token, shared }

/-- The outcome of a loop that pushes until an exception. -/
def ended : Option Exn → Except Exn Unit
  | none => .ok ()
  | some e => .error e

/-- The loop over `j["preauth_keys"]`, after `keys_.clear()`. -/
def installKeys (ks : Json) (s : Store) : Except Exn Unit × Store :=
  let r := pushUntil keyFromJson ks.items
  (ended r.2, { s with keys := r.1 })

/-- The loop over `j["nodes"]`, after `nodes_.clear()`. -/
def installNodes (ns : Json) (s : Store) : Except Exn Unit × Store :=
  let r := pushUntil nodeFromJson ns.items
  (ended r.2, { s with nodes := r.1 })

/-- `noise_private_` after the first statement of `apply_snapshot_locked`. -/
def loadedPrivate (j : Json) (old : Bytes32) : Except Exn Bytes32 :=
  match j.find (ascii "noise_private") with
  | none => .ok old
  | some v => do
    let t ← v.getString
    match hexDecode t 32 with
    | some priv => return bytes32 priv
    | none => return old

/-- `apply_snapshot_locked`: member after member, as far as it comes. -/
def applySnapshotLocked (j : Json) (s : Store) : Except Exn Unit × Store :=
  match loadedPrivate j s.noisePrivate with
  | .error e => (.error e, s)
  | .ok priv =>
    let s := { s with noisePrivate := priv }
    match j.value Json.getInt "next_node_id" 1 with
    | .error e => (.error e, s)
    | .ok id =>
      let s := { s with nextNodeId := UInt64.ofInt id }
      match j.value Json.getInt "next_ip_index" 1 with
      | .error e => (.error e, s)
      | .ok ip =>
        let s := { s with nextIpIndex := UInt32.ofInt ip, keys := [] }
        match installKeys ((j.find (ascii "preauth_keys")).getD .null) s with
        | (.error e, s) => (.error e, s)
        | (.ok _, s) => installNodes ((j.find (ascii "nodes")).getD .null) { s with nodes := [] }

def dumpJson (s : Store) : Except Exn Json :=
  if (snapshotLocked s).dumps then .ok (snapshotLocked s) else .error (.typeError 316)

/-- `load_json` of a text that parses to `text` (`none`: it does not parse). -/
def loadJson (text : Option Json) (s : Store) : Except Exn Unit × Store :=
  match text with
  | none => (.error .parseError, s)
  | some j => applySnapshotLocked j s

/-! ## 3. The file -/

/-- What the state file may hold. -/
inductive FileText where
  | empty
  /-- A non-empty text that does not parse. -/
  | torn
  | json (j : Json)

structure World where
  store : Store
  /-- The file at `path_`, if there is one. -/
  file : Option FileText

/-- How much of a text `out << text` has stored; the stream's state is not looked at. -/
inductive Stored where
  | whole
  | part
  | nothing
  deriving DecidableEq

/-- How the calls inside a `save_locked` end. -/
structure SaveIo where
  opens : Bool := true
  stored : Stored := .whole
  renames : Bool := true
  hookThrows : Bool := false

def SaveIo.text (io : SaveIo) (j : Json) : FileText :=
  match io.stored with
  | .whole => .json j
  | .part => .torn
  | .nothing => .empty

/-- The file half of `save_locked`. -/
def replaceFile (io : SaveIo) (path : Bytes) (j : Json) (file : Option FileText) :
    Except Exn Unit × Option FileText :=
  if path = [] then (.ok (), file)
  else if !io.opens then
    (.error (.runtimeError (ascii "cannot write state file " ++ path ++ ascii ".tmp")), file)
  else if !j.dumps then (.error (.typeError 316), file)
  else if !io.renames then
    (.error (.runtimeError (ascii "cannot replace state file " ++ path)), file)
  else (.ok (), some (io.text j))

def saveLocked (io : SaveIo) (w : World) : Except Exn Unit × World :=
  let j := snapshotLocked w.store
  match replaceFile io w.store.path j w.file with
  | (.error e, file) => (.error e, { w with file })
  | (.ok _, file) =>
    let w := { w with file }
    if w.store.hooked then
      if !j.dumps then (.error (.typeError 316), w)
      else if io.hookThrows then (.error .hook, w)
      else (.ok (), w)
    else (.ok (), w)

/-- `save_locked(); return a;` at the end of a section that has put the store to `s`. -/
def commit {α : Type} (io : SaveIo) (w : World) (s : Store) (a : α) : Except Exn α × World :=
  match saveLocked io { w with store := s } with
  | (.error e, w) => (.error e, w)
  | (.ok _, w) => (.ok a, w)

/-- The constructor `Store(path, ipv4_cidr, ipv6_cidr)`: the file is loaded, and a noise key drawn
    (`noise`) and saved where there is none. -/
def openStore (I : Inet) (io : SaveIo) (noise : Bytes32) (path ipv4Cidr ipv6Cidr : Bytes)
    (file : Option FileText) : Except Exn Store × Option FileText :=
  match ipAllocator I ipv4Cidr ipv6Cidr with
  | .error e => (.error e, file)
  | .ok alloc =>
    let s : Store := { path, alloc }
    let loaded : Except Exn Unit × Store :=
      if path = [] then (.ok (), s)
      else
        match file with
        | none => (.ok (), s)
        | some .empty => (.ok (), s)
        | some .torn => (.error .parseError, s)
        | some (.json j) => applySnapshotLocked j s
    match loaded with
    | (.error e, _) => (.error e, file)
    | (.ok _, s) =>
      if s.noisePrivate = zero32 then
        let s := { s with noisePrivate := noise }
        match saveLocked io { store := s, file } with
        | (.error e, w) => (.error e, w.file)
        | (.ok _, w) => (.ok w.store, w.file)
      else (.ok s, file)

/-! ## 4. The operations -/

def randomToken (raw : Bytes32) : Bytes := ascii "wbkey-" ++ hexEncode raw

def resolveShared (token : Bytes) (shared : Option Bool) : Bool := shared.getD token.isEmpty

def createPreauthKey (io : SaveIo) (now : Int) (raw : Bytes32) (reusable ephemeral : Bool)
    (expiration : Int) (token : Bytes) (shared : Option Bool) (w : World) : Except Exn Bytes × World :=
  let k : PreauthKey :=
    { key := randomToken raw, reusable, ephemeral, token, shared := resolveShared token shared,
      expiresUnix := if 0 < expiration then now + expiration else 0 }
  commit io w { w.store with keys := w.store.keys ++ [k] } k.key

/-- `reload_keys_from_disk` up to the lock: the key list of the file, if it gets that far. -/
def readImage (w : World) : Option Json :=
  if w.store.path = [] then none
  else
    match w.file with
    | some (.json j) => j.find (ascii "preauth_keys")
    | _ => none

def PreauthKey.claim (k : PreauthKey) : PreauthClaim :=
  { ephemeral := k.ephemeral, token := k.token, shared := k.shared }

/-- The keys after the first entry of `key` has been marked used. -/
def markUsed (key : Bytes) (keys : List PreauthKey) : List PreauthKey :=
  modifyFirst (·.key = key) (fun k => { k with used := true }) keys

/-- The locked half of `consume_preauth`: the claim where it returns `true`. -/
def checkAndMark (io : SaveIo) (now : Int) (key : Bytes) (w : World) :
    Except Exn (Option PreauthClaim) × World :=
  match w.store.keys.find? (·.key = key) with
  | none => (.ok none, w)
  | some k =>
    if k.expiresUnix ≠ 0 ∧ now > k.expiresUnix then (.ok none, w)
    else if !k.reusable && k.used then (.ok none, w)
    else
      commit io w { w.store with keys := markUsed key w.store.keys } (some k.claim)

/-- `reload_keys_from_disk`. -/
def reloadKeysFromDisk (w : World) : Except Exn Unit × World :=
  match readImage w with
  | none => (.ok (), w)
  | some ks =>
    let r := installKeys ks w.store
    (r.1, { w with store := r.2 })

/-- `consume_preauth`, with nothing between its sections. -/
def consumePreauth (io : SaveIo) (now : Int) (key : Bytes) (w : World) :
    Except Exn (Option PreauthClaim) × World :=
  match readImage w with
  | none => checkAndMark io now key w
  | some ks =>
    match installKeys ks w.store with
    | (.error e, s) => (.error e, { w with store := s })
    | (.ok _, s) => checkAndMark io now key { w with store := s }

def findByMachine (s : Store) (machineKey : Bytes) : Option NodeState :=
  s.nodes.find? (·.machineKey = machineKey)

/-- The nodes after the first one of the machine has been updated. -/
def updateNode (machineKey : Bytes) (f : NodeState → NodeState) (nodes : List NodeState) :
    List NodeState :=
  modifyFirst (·.machineKey = machineKey) f nodes

/-- The update of a known node by `register_node`. -/
def reregistered (nodeKey hostname : Bytes) (ephemeral : Bool) (n : NodeState) : NodeState :=
  { n with nodeKey, hostname := if hostname = [] then n.hostname else hostname, ephemeral }

/-- The node `register_node` makes for an unknown machine. -/
def newNode (id : UInt64) (machineKey nodeKey hostname : Bytes) (ephemeral : Bool) (token : Bytes)
    (shared : Bool) (ips : Bytes × Bytes) : NodeState :=
  let stableId := decimal id.toNat
  { id, stableId, hostname := if hostname = [] then ascii "node-" ++ stableId else hostname,
    machineKey, nodeKey, ipv4 := ips.1, ipv6 := ips.2, ephemeral, token, shared }

/-- Both counters go up before the address is asked for. -/
def counted (s : Store) : Store :=
  { s with nextNodeId := s.nextNodeId + 1, nextIpIndex := s.nextIpIndex + 1 }

def registerNode (I : Inet) (io : SaveIo) (machineKey nodeKey hostname : Bytes) (ephemeral : Bool)
    (token : Bytes) (shared : Bool) (w : World) : Except Exn NodeState × World :=
  let s := w.store
  match findByMachine s machineKey with
  | some n =>
    let update := reregistered nodeKey hostname ephemeral
    commit io w { s with nodes := updateNode machineKey update s.nodes } (update n)
  | none =>
    match addressFor I s.alloc s.nextIpIndex with
    | .error e => (.error e, { w with store := counted s })
    | .ok ips =>
      let n := newNode s.nextNodeId machineKey nodeKey hostname ephemeral token shared ips
      commit io w { counted s with nodes := s.nodes ++ [n] } n

/-- The update of a node by `update_map_info`. -/
def mapUpdated (nodeKey discoKey hostname : Bytes) (endpoints : List Bytes) (n : NodeState) :
    NodeState :=
  { n with
    nodeKey := if nodeKey = [] then n.nodeKey else nodeKey
    discoKey := if discoKey = [] then n.discoKey else discoKey
    hostname := if hostname = [] then n.hostname else hostname
    endpoints
    online := true }

def updateMapInfo (io : SaveIo) (machineKey nodeKey discoKey hostname : Bytes)
    (endpoints : List Bytes) (w : World) : Except Exn Unit × World :=
  match findByMachine w.store machineKey with
  | none => (.ok (), w)
  | some _ =>
    let update := mapUpdated nodeKey discoKey hostname endpoints
    commit io w { w.store with nodes := updateNode machineKey update w.store.nodes } ()

def setOnline (machineKey : Bytes) (online : Bool) (s : Store) : Store :=
  { s with nodes := updateNode machineKey (fun n => { n with online }) s.nodes }

end Wirebone
