/-
  File:      Wirebone/Netmap.lean
  Subject:   netmap.cpp: the map a node is sent.

  The messages are records with the fields of the JSON objects the source builds; an optional
  member is an `Option`. `rfc3339_now()` is an argument (one time for a whole map).

  * `nodeVisibleTo`, `nodeToTailcfg`, `buildFullMap`, `buildKeepalive` -- the code;
  * `toJson` -- the JSON object of a message, member by member;
  * `Zstd` -- the compressor, a parameter; `encodeMapFrame` -- a frame;
  * `buildFullMap_peers` -- the peers as a filter and a map;
  * **`buildFullMap_filter`** -- nodes that `self` does not see leave no trace in its map;
  * **`steadyPeers_congr`** -- the peers, times and `Online` aside, depend on the node list without
    its `online` flags and on what identifies `self`.
-/
import Wirebone.Store.Basic

namespace Wirebone

open ByteString

/-! ## 1. The messages -/

structure TailcfgNode where
  id : UInt64
  stableId : Bytes
  name : Bytes
  user : Nat := 1
  key : Bytes
  machine : Bytes
  discoKey : Option Bytes
  addresses : List Bytes
  allowedIps : List Bytes
  endpoints : Option (List Bytes)
  homeDerp : Nat := 0
  created : Bytes
  machineAuthorized : Bool := true
  online : Bool
  cap : Nat := 131
  /-- `Hostinfo.Hostname`. -/
  hostname : Bytes
  deriving DecidableEq

/-- One entry of `DstPorts`. -/
structure DstPort where
  ip : Bytes
  first : Nat := 0
  last : Nat := 65535
  deriving DecidableEq

structure FilterRule where
  srcIps : List Bytes
  dstPorts : List DstPort
  deriving DecidableEq

/-- One entry of `ExtraRecords`. -/
structure DnsRecord where
  name : Bytes
  type : Bytes
  value : Bytes
  deriving DecidableEq

structure DnsConfig where
  resolvers : List Bytes := []
  fallbackResolvers : List Bytes := []
  domains : List Bytes
  proxied : Bool := true
  routes : List (Bytes × List Bytes)
  extraRecords : List DnsRecord
  deriving DecidableEq

structure DerpRegion where
  regionId : Nat
  regionCode : Bytes
  regionName : Bytes
  nodeName : Bytes
  hostName : Bytes
  ipv4 : Bytes
  canPort80 : Bool := true
  deriving DecidableEq

structure DerpMap where
  omitDefaultRegions : Bool := true
  regions : List DerpRegion
  deriving DecidableEq

structure UserProfile where
  id : Nat
  loginName : Bytes
  displayName : Bytes
  deriving DecidableEq

structure FullMap where
  keepAlive : Bool := false
  controlTime : Bytes
  node : TailcfgNode
  derpMap : DerpMap
  peers : List TailcfgNode
  dnsConfig : DnsConfig
  domain : Bytes
  packetFilter : List FilterRule
  userProfiles : List UserProfile
  deriving DecidableEq

/-- What is queued on a map stream. -/
inductive MapMessage where
  | full (map : FullMap)
  | keepalive (controlTime : Bytes)
  deriving DecidableEq

/-! ## 2. The code -/

def nodeVisibleTo (self peer : NodeState) : Bool :=
  if self.id = peer.id then true
  else if self.shared || peer.shared then true
  else self.token = peer.token

def nodeToTailcfg (node : NodeState) (domain now : Bytes) (self : Bool) : TailcfgNode :=
  let name := if node.hostname = [] then ascii "node-" ++ node.stableId else node.hostname
  let name := if name.getLast? = some 46 then name else name ++ ascii "." ++ domain ++ ascii "."
  let addresses := [node.ipv4 ++ ascii "/32", node.ipv6 ++ ascii "/128"]
  { id := node.id, stableId := node.stableId, name, key := node.nodeKey, machine := node.machineKey,
    discoKey := if node.discoKey = [] then none else some node.discoKey
    addresses, allowedIps := addresses
    endpoints := if node.endpoints = [] then none else some node.endpoints
    created := now, online := node.online || self, hostname := node.hostname }

def defaultDerpMap : DerpMap :=
  { regions :=
      [{ regionId := 1, regionCode := ascii "nyc", regionName := ascii "New York City",
         nodeName := ascii "1f", hostName := ascii "derp1f.tailscale.com",
         ipv4 := ascii "199.38.181.104" },
       { regionId := 2, regionCode := ascii "sfo", regionName := ascii "San Francisco",
         nodeName := ascii "2d", hostName := ascii "derp2d.tailscale.com",
         ipv4 := ascii "192.73.252.65" },
       { regionId := 4, regionCode := ascii "fra", regionName := ascii "Frankfurt",
         nodeName := ascii "4f", hostName := ascii "derp4f.tailscale.com",
         ipv4 := ascii "185.40.234.219" },
       { regionId := 8, regionCode := ascii "lhr", regionName := ascii "London",
         nodeName := ascii "8e", hostName := ascii "derp8e.tailscale.com",
         ipv4 := ascii "176.58.92.144" }] }

/-- The arrays that the loop of `build_full_map` fills. -/
@[ext] structure MapParts where
  peers : List TailcfgNode := []
  extra : List DnsRecord := []
  srcIps : List Bytes := []
  dstPorts : List DstPort := []
  deriving DecidableEq

/-- The lambda `add_filter_ips`. -/
def addFilterIps (n : NodeState) (acc : MapParts) : MapParts :=
  let cidrs := (if n.ipv4 = [] then [] else [n.ipv4 ++ ascii "/32"]) ++
    (if n.ipv6 = [] then [] else [n.ipv6 ++ ascii "/128"])
  { acc with
    srcIps := acc.srcIps ++ cidrs
    dstPorts := acc.dstPorts ++ cidrs.map fun cidr => { ip := cidr } }

/-- The lambda `add_dns`. -/
def addDns (domain : Bytes) (n : NodeState) (acc : MapParts) : MapParts :=
  let host := if n.hostname = [] then ascii "node-" ++ n.stableId else n.hostname
  let name := host ++ ascii "." ++ domain
  { acc with
    extra := acc.extra ++
      [{ name, type := ascii "A", value := n.ipv4 }, { name, type := ascii "AAAA", value := n.ipv6 }] }

/-- The body of the loop of `build_full_map`. -/
def addNode (self : NodeState) (domain now : Bytes) (acc : MapParts) (n : NodeState) : MapParts :=
  if !nodeVisibleTo self n then acc
  else
    let acc := addDns domain n (addFilterIps n acc)
    if n.id = self.id then acc
    else { acc with peers := acc.peers ++ [nodeToTailcfg n domain now false] }

def buildFullMap (self : NodeState) (all : List NodeState) (domain now : Bytes) : FullMap :=
  let parts := all.foldl (addNode self domain now) {}
  { controlTime := now
    node := nodeToTailcfg self domain now true
    derpMap := defaultDerpMap
    peers := parts.peers
    dnsConfig := { domains := [domain], routes := [(domain, [])], extraRecords := parts.extra }
    domain
    packetFilter :=
      [{ srcIps := if parts.srcIps = [] then [ascii "*"] else parts.srcIps
         dstPorts := if parts.dstPorts = [] then [{ ip := ascii "*" }] else parts.dstPorts }]
    userProfiles :=
      [{ id := 1, loginName := ascii "wirebone@local", displayName := ascii "wirebone" }] }

def buildKeepalive (now : Bytes) : MapMessage := .keepalive now

/-! ## 3. The messages as JSON -/

def Json.strings (ts : List Bytes) : Json := .arr (ts.map .str)

def TailcfgNode.toJson (n : TailcfgNode) : Json :=
  .obj ([(ascii "Addresses", .strings n.addresses), (ascii "AllowedIPs", .strings n.allowedIps),
      (ascii "Cap", .num n.cap), (ascii "Created", .str n.created)] ++
    (n.discoKey.toList.map fun key => (ascii "DiscoKey", .str key)) ++
    (n.endpoints.toList.map fun ends => (ascii "Endpoints", .strings ends)) ++
    [(ascii "HomeDERP", .num n.homeDerp), (ascii "Hostinfo", .obj [(ascii "Hostname", .str n.hostname)]),
      (ascii "ID", .num n.id.toNat), (ascii "Key", .str n.key), (ascii "Machine", .str n.machine),
      (ascii "MachineAuthorized", .bool n.machineAuthorized), (ascii "Name", .str n.name),
      (ascii "Online", .bool n.online), (ascii "StableID", .str n.stableId), (ascii "User", .num n.user)])

def DerpRegion.toJson (r : DerpRegion) : Json :=
  .obj [(ascii "Nodes", .arr [.obj [(ascii "CanPort80", .bool r.canPort80),
      (ascii "HostName", .str r.hostName), (ascii "IPv4", .str r.ipv4), (ascii "Name", .str r.nodeName),
      (ascii "RegionID", .num r.regionId)]]),
    (ascii "RegionCode", .str r.regionCode), (ascii "RegionID", .num r.regionId),
    (ascii "RegionName", .str r.regionName)]

def DerpMap.toJson (d : DerpMap) : Json :=
  .obj [(ascii "Regions", .obj (d.regions.map fun r => (decimal r.regionId, r.toJson))),
    (ascii "omitDefaultRegions", .bool d.omitDefaultRegions)]

def DnsRecord.toJson (r : DnsRecord) : Json :=
  .obj [(ascii "Name", .str r.name), (ascii "Type", .str r.type), (ascii "Value", .str r.value)]

def DnsConfig.toJson (d : DnsConfig) : Json :=
  .obj [(ascii "Domains", .strings d.domains),
    (ascii "ExtraRecords", .arr (d.extraRecords.map (·.toJson))),
    (ascii "FallbackResolvers", .strings d.fallbackResolvers), (ascii "Proxied", .bool d.proxied),
    (ascii "Resolvers", .strings d.resolvers),
    (ascii "Routes", .obj (d.routes.map fun r => (r.1, .strings r.2)))]

def DstPort.toJson (p : DstPort) : Json :=
  .obj [(ascii "IP", .str p.ip),
    (ascii "Ports", .obj [(ascii "First", .num p.first), (ascii "Last", .num p.last)])]

def FilterRule.toJson (r : FilterRule) : Json :=
  .obj [(ascii "DstPorts", .arr (r.dstPorts.map (·.toJson))), (ascii "SrcIPs", .strings r.srcIps)]

def UserProfile.toJson (u : UserProfile) : Json :=
  .obj [(ascii "DisplayName", .str u.displayName), (ascii "ID", .num u.id),
    (ascii "LoginName", .str u.loginName)]

def FullMap.toJson (m : FullMap) : Json :=
  .obj [(ascii "ControlTime", .str m.controlTime), (ascii "DERPMap", m.derpMap.toJson),
    (ascii "DNSConfig", m.dnsConfig.toJson), (ascii "Domain", .str m.domain),
    (ascii "KeepAlive", .bool m.keepAlive), (ascii "Node", m.node.toJson),
    (ascii "PacketFilter", .arr (m.packetFilter.map (·.toJson))),
    (ascii "Peers", .arr (m.peers.map (·.toJson))),
    (ascii "UserProfiles", .arr (m.userProfiles.map (·.toJson)))]

def MapMessage.toJson : MapMessage → Json
  | .full map => map.toJson
  | .keepalive controlTime =>
    .obj [(ascii "ControlTime", .str controlTime), (ascii "KeepAlive", .bool true)]

/-- `ZSTD_compress` and its inverse; `none` where `ZSTD_isError`. -/
structure Zstd where
  compress : Bytes → Option Bytes
  decompress : Bytes → Option Bytes

/-- `framed[0]` to `framed[3]`. -/
def lengthBytes (len : UInt32) : Bytes :=
  [len.toUInt8, (len >>> 8).toUInt8, (len >>> 16).toUInt8, (len >>> 24).toUInt8]

/-- `encode_map_frame`; `dump` is the library's printer. -/
def encodeMapFrame (Z : Zstd) (dump : Json → Bytes) (msg : Json) : Except Exn Bytes :=
  if !msg.dumps then .error (.typeError 316)
  else
    match Z.compress (dump msg) with
    | none => .error (.runtimeError (ascii "zstd compress failed"))
    | some payload => .ok (lengthBytes (UInt32.ofNat payload.length) ++ payload)

/-- When there is no frame. -/
theorem encodeMapFrame_error_iff {Z : Zstd} {dump : Json → Bytes} {msg : Json} :
    (∃ e, encodeMapFrame Z dump msg = .error e) ↔ msg.dumps = false ∨ Z.compress (dump msg) = none := by
  unfold encodeMapFrame
  cases msg.dumps with
  | false => simp
  | true => cases Z.compress (dump msg) <;> simp

/-! ## 4. What a map depends on -/

section Dependence

variable {self : NodeState} {domain now : Bytes}

/-- Two nodes see each other, or neither sees the other. -/
theorem nodeVisibleTo_symm (a b : NodeState) : nodeVisibleTo a b = nodeVisibleTo b a := by
  have htoken : decide (a.token = b.token) = decide (b.token = a.token) := decide_eq_decide.mpr eq_comm
  rw [nodeVisibleTo, nodeVisibleTo, Bool.or_comm a.shared, htoken]
  by_cases hid : a.id = b.id
  · rw [if_pos hid, if_pos hid.symm]
  · rw [if_neg hid, if_neg (Ne.symm hid)]

/-- A node that is not visible changes nothing. -/
theorem addNode_hidden {acc : MapParts} {n : NodeState} (h : nodeVisibleTo self n = false) :
    addNode self domain now acc n = acc := by
  rw [addNode, h]
  rfl

theorem foldl_addNode_filter {keep : NodeState → Bool} {all : List NodeState} (acc : MapParts)
    (h : ∀ n ∈ all, keep n = false → nodeVisibleTo self n = false) :
    all.foldl (addNode self domain now) acc =
      (all.filter keep).foldl (addNode self domain now) acc := by
  induction all generalizing acc with
  | nil => rfl
  | cons n all ih =>
    have hall : ∀ m ∈ all, keep m = false → nodeVisibleTo self m = false :=
      fun m hm => h m (List.mem_cons_of_mem _ hm)
    cases hk : keep n with
    | true =>
      rw [List.filter_cons_of_pos hk, List.foldl_cons, List.foldl_cons]
      exact ih _ hall
    | false =>
      rw [List.filter_cons_of_neg (by simp [hk]), List.foldl_cons,
        addNode_hidden (h n List.mem_cons_self hk)]
      exact ih _ hall

/-- **Nodes that `self` does not see leave no trace in its map.** -/
theorem buildFullMap_filter {keep : NodeState → Bool} {all : List NodeState}
    (h : ∀ n ∈ all, keep n = false → nodeVisibleTo self n = false) :
    buildFullMap self all domain now = buildFullMap self (all.filter keep) domain now := by
  rw [buildFullMap, buildFullMap, foldl_addNode_filter {} h]

/-- The peers among a node list. -/
def isPeer (self n : NodeState) : Bool := nodeVisibleTo self n && decide (n.id ≠ self.id)


theorem isPeer_self (a : NodeState) : isPeer a a = false := by
  unfold isPeer
  simp

theorem foldl_addNode_peers {all : List NodeState} (acc : MapParts) :
    (all.foldl (addNode self domain now) acc).peers =
      acc.peers ++ (all.filter (isPeer self)).map fun n => nodeToTailcfg n domain now false := by
  induction all generalizing acc with
  | nil => simp
  | cons n all ih =>
    rw [List.foldl_cons, ih]
    by_cases hv : nodeVisibleTo self n = true
    · by_cases hid : n.id = self.id
      · rw [addNode, hv, List.filter_cons_of_neg (by simp [isPeer, hid])]
        simp only [Bool.not_true, Bool.false_eq_true, if_false, if_pos hid]
        rfl
      · rw [addNode, hv, List.filter_cons_of_pos (by simp [isPeer, hid, hv])]
        simp only [Bool.not_true, Bool.false_eq_true, if_false, if_neg hid, List.map_cons,
          List.append_assoc, List.singleton_append]
        rfl
    · rw [addNode_hidden (by simpa using hv), List.filter_cons_of_neg (by simp [isPeer, hv])]

theorem buildFullMap_peers (all : List NodeState) :
    (buildFullMap self all domain now).peers =
      (all.filter (isPeer self)).map fun n => nodeToTailcfg n domain now false := by
  rw [buildFullMap]
  exact (foldl_addNode_peers {}).trans (List.nil_append _)

/-- A peer entry without its times and its `Online`. -/
def TailcfgNode.steady (n : TailcfgNode) : TailcfgNode := { n with created := [], online := false }

/-- The peers of a map without their times and their `Online`. -/
def FullMap.steadyPeers (m : FullMap) : List TailcfgNode := m.peers.map (·.steady)

/-- A node without its `online`. -/
def NodeState.steady (n : NodeState) : NodeState := { n with online := false }

theorem steadyPeers_eq (all : List NodeState) :
    (buildFullMap self all domain now).steadyPeers =
      ((all.map (·.steady)).filter (isPeer self)).map fun n => (nodeToTailcfg n domain [] false).steady := by
  rw [FullMap.steadyPeers, buildFullMap_peers, List.map_map, List.filter_map, List.map_map]
  rfl

/-- **What the peers depend on**, times and `Online` aside. -/
theorem steadyPeers_congr {self' : NodeState} {all all' : List NodeState} (now' : Bytes)
    (hid : self'.id = self.id) (htoken : self'.token = self.token) (hshared : self'.shared = self.shared)
    (hall : all'.map (·.steady) = all.map (·.steady)) :
    (buildFullMap self' all' domain now').steadyPeers =
      (buildFullMap self all domain now).steadyPeers := by
  have hpeer : isPeer self' = isPeer self := by
    funext n
    rw [isPeer, isPeer, nodeVisibleTo, nodeVisibleTo, hid, htoken, hshared]
  rw [steadyPeers_eq, steadyPeers_eq, hall, hpeer]

end Dependence

end Wirebone
