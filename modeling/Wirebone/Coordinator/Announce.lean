/-
  File:      Wirebone/Coordinator/Announce.lean
  Subject:   WHETHER EVERY VISIBLE CHANGE IS ANNOUNCED.

  A change of the nodes and the `bump_map` that announces it are separate calls. Here a whole
  request, disconnect or `import_state` is one step, from start to return, and what it changes in the
  maps of others is compared with `map_gen_`.

  * `Task`, `perform` -- the steps, as far as they are completed;
  * `Announced` -- the property, over what `shownTo` says that a machine's map shows of the others;
  * `Finishes` -- a request served to its end, phase by phase;
  * `announces` -- the condition: a read-only map request is of a node that nobody sees or that is
    online already, an import shows every machine what it was shown, `map_gen_` does not wrap;
  * **`announced_iff`** -- the property holds exactly there; **`announced_missed`** -- a peer that
    comes online on a read-only stream unannounced.
-/
import Wirebone.Coordinator.Confined
import Wirebone.Netmap.Shown

namespace Wirebone

open ByteString FirstMatch Lts

/-! ## 1. The steps and the property -/

/-- What the coordinator is asked for. `envs` is what the sections of the handler take from outside,
    in their order. -/
inductive Task where
  | register (i : Nat) (body : Option Json) (envs : List Env)
  | map (i sid : Nat) (body : Option Json) (envs : List Env)
  | disconnect (i : Nat) (envs : List Env)
  | importState (text : Option Json)

def Conn.isIdle (c : Conn) : Bool :=
  match c.phase with
  | .idle => true
  | _ => false

def Conn.isClosed (c : Conn) : Bool :=
  match c.phase with
  | .closed => true
  | _ => false

/-- Connection `i` starts with `e` and runs its sections; `done` says whether it has come to the
    end. -/
def serveTo (I : Inet) (domain : Bytes) (s : Coord) (i : Nat) (e : Event) (envs : List Env)
    (done : Conn → Bool) : Option Coord :=
  (coordStep I domain s e).bind fun s₁ =>
    (exec (coordStep I domain) s₁ (envs.map (.run i))).filter fun t => (t.conns[i]?).any done

/-- A step from start to return. One that an exception ends is not completed. -/
def perform (I : Inet) (domain : Bytes) (s : Coord) : Task → Option Coord
  | .register i body envs => serveTo I domain s i (.register i body) envs Conn.isIdle
  | .map i sid body envs => serveTo I domain s i (.map i sid body) envs Conn.isIdle
  | .disconnect i envs => serveTo I domain s i (.hangup i) envs Conn.isClosed
  | .importState text =>
    match loadJson text s.shared.world.store with
    | (.ok _, store) => some { s with shared := { s.shared with world := { s.shared.world with store } } }
    | (.error _, _) => none

/-- **A visible change is announced.** -/
def Announced (domain now : Bytes) (s s' : Coord) : Prop :=
  ViewChanged domain now s.shared.world.store s'.shared.world.store →
    s.shared.mapGen < s'.shared.mapGen

/-! ## 2. Requests served to their end -/

/-- One section of a connection that is alone. -/
def sectionStep (I : Inet) (domain : Bytes) (p : Shared × Conn) (env : Env) : Option (Shared × Conn) :=
  advance I domain env p.1 p.2

/-- From `c` and `g` the connection comes to an end that `done` accepts, leaving `g'`. -/
def Finishes (I : Inet) (domain : Bytes) (done : Conn → Bool) (g : Shared) (c : Conn)
    (envs : List Env) (g' : Shared) : Prop :=
  ∃ c', exec (sectionStep I domain) (g, c) envs = some (g', c') ∧ done c' = true

section Finish

variable {I : Inet} {domain : Bytes} {done : Conn → Bool} {g g' : Shared} {c : Conn} {envs : List Env}

/-- A connection that has not come to its end has a next section. -/
theorem finishes_step (hc : done c = false) (h : Finishes I domain done g c envs g') :
    ∃ env rest g₁ c₁, envs = env :: rest ∧ advance I domain env g c = some (g₁, c₁) ∧
      Finishes I domain done g₁ c₁ rest g' := by
  obtain ⟨c', hexec, hdone⟩ := h
  cases envs with
  | nil =>
    cases hexec
    rw [hc] at hdone
    cases hdone
  | cons env rest =>
    obtain ⟨⟨g₁, c₁⟩, hadv, hrest⟩ := Option.bind_eq_some_iff.mp hexec
    exact ⟨env, rest, g₁, c₁, rfl, hadv, c', hrest, hdone⟩

/-- A connection with no next section is at its end. -/
theorem finishes_stuck (hc : ∀ env, advance I domain env g c = none)
    (h : Finishes I domain done g c envs g') : done c = true ∧ g' = g := by
  obtain ⟨c', hexec, hdone⟩ := h
  cases envs with
  | nil =>
    cases hexec
    exact ⟨hdone, rfl⟩
  | cons env rest =>
    obtain ⟨⟨g₁, c₁⟩, hadv, _⟩ := Option.bind_eq_some_iff.mp hexec
    rw [sectionStep, hc env] at hadv
    cases hadv

theorem finishes_idle (hph : c.phase = .idle) (h : Finishes I domain done g c envs g') : g' = g :=
  (finishes_stuck (fun env => by simp only [advance, hph]) h).2

/-- A request that an exception has ended is not completed. -/
theorem not_finishes_thrown (h : Finishes I domain Conn.isIdle g c.thrown envs g') : False := by
  have hdone := (finishes_stuck (fun env => rfl) h).1
  cases hdone

theorem isIdle_false {p : Phase} (hph : c.phase = p) (hp : p ≠ .idle) : c.isIdle = false := by
  unfold Conn.isIdle
  split
  · rename_i hidle
    exact absurd (hph.symm.trans hidle) hp
  · rfl

/-! ### on_map -/

theorem finishes_mapLive {sid : Nat} {r : MapReq} {self : NodeState} {nodes : List NodeState}
    {first : FullMap} (hph : c.phase = .mapLive sid r self nodes first)
    (h : Finishes I domain Conn.isIdle g c envs g') : g' = g := by
  obtain ⟨env, rest, g₁, c₁, _, hadv, hrest⟩ := finishes_step (isIdle_false hph (by simp)) h
  simp only [advance, hph] at hadv
  cases hadv
  exact finishes_idle rfl hrest

/-- The maps built are noted, and nothing else. -/
theorem finishes_mapNodes {sid : Nat} {r : MapReq} {self : NodeState}
    (hph : c.phase = .mapNodes sid r self) (h : Finishes I domain Conn.isIdle g c envs g') :
    g'.world = g.world ∧ g'.mapGen = g.mapGen := by
  obtain ⟨env, rest, g₁, c₁, _, hadv, hrest⟩ := finishes_step (isIdle_false hph (by simp)) h
  simp only [advance, hph] at hadv
  split at hadv
  · cases hadv
    exact absurd hrest not_finishes_thrown
  · split at hadv
    · cases hadv
      rw [finishes_idle rfl hrest]
      exact ⟨rfl, rfl⟩
    · cases hadv
      rw [finishes_mapLive rfl hrest]
      exact ⟨rfl, rfl⟩

theorem finishes_mapFind {sid : Nat} {r : MapReq} (hph : c.phase = .mapFind sid r)
    (h : Finishes I domain Conn.isIdle g c envs g') : g'.world = g.world ∧ g'.mapGen = g.mapGen := by
  obtain ⟨env, rest, g₁, c₁, _, hadv, hrest⟩ := finishes_step (isIdle_false hph (by simp)) h
  simp only [advance, hph] at hadv
  split at hadv
  · cases hadv
    rw [finishes_idle rfl hrest]
    exact ⟨rfl, rfl⟩
  · cases hadv
    exact finishes_mapNodes rfl hrest

theorem finishes_mapOnline {sid : Nat} {r : MapReq} (hph : c.phase = .mapOnline sid r)
    (h : Finishes I domain Conn.isIdle g c envs g') :
    g'.world.store = setOnline c.machine true g.world.store ∧ g'.mapGen = g.mapGen := by
  obtain ⟨env, rest, g₁, c₁, _, hadv, hrest⟩ := finishes_step (isIdle_false hph (by simp)) h
  simp only [advance, hph] at hadv
  split at hadv
  · cases hadv
    rw [finishes_idle rfl hrest]
    exact ⟨rfl, rfl⟩
  · cases hadv
    obtain ⟨hw, hgen⟩ := finishes_mapFind rfl hrest
    rw [hw, hgen]
    exact ⟨rfl, rfl⟩

theorem finishes_mapBump {sid : Nat} {r : MapReq} (hph : c.phase = .mapBump sid r)
    (h : Finishes I domain Conn.isIdle g c envs g') :
    g'.world.store = setOnline c.machine true g.world.store ∧ g'.mapGen = g.mapGen + 1 := by
  obtain ⟨env, rest, g₁, c₁, _, hadv, hrest⟩ := finishes_step (isIdle_false hph (by simp)) h
  simp only [advance, hph] at hadv
  cases hadv
  exact finishes_mapOnline rfl hrest

/-- A node that `update_map_info` has put online is online for `set_online` as well. -/
theorem finishes_mapUpdate {sid : Nat} {r : MapReq} (hph : c.phase = .mapUpdate sid r)
    (h : Finishes I domain Conn.isIdle g c envs g') :
    g'.world.store.nodes = updateNode c.machine (mapUpdated r.nodeKey r.discoKey r.host r.endpoints)
      g.world.store.nodes ∧ g'.mapGen = g.mapGen + 1 := by
  obtain ⟨env, rest, g₁, c₁, _, hadv, hrest⟩ := finishes_step (isIdle_false hph (by simp)) h
  simp only [advance, hph] at hadv
  rcases hu : updateMapInfo env.io c.machine r.nodeKey r.discoKey r.host r.endpoints g.world with
    ⟨result, w⟩
  rw [hu] at hadv
  cases result with
  | error e =>
    cases hadv
    exact absurd hrest not_finishes_thrown
  | ok u =>
    cases hadv
    obtain ⟨hstore, hgen⟩ := finishes_mapBump rfl hrest
    refine ⟨?_, hgen⟩
    rw [hstore]
    rcases updateMapInfo_cases hu with ⟨hnone, _, rfl⟩ | ⟨n, _, hcommit⟩
    · rw [updateNode_unknown hnone]
      exact updateNode_unknown hnone
    · show updateNode c.machine _ w.store.nodes = _
      rw [(commit_cases hcommit).1]
      refine modifyFirst_twice (fun a ha => ?_) (fun a => ?_) _
      · exact ha
      · rfl

/-- What a map request has done: a read-only one has put its node online; another one has updated the node,
    and announced it. -/
def EndsMap (m : Bytes) (r : MapReq) (g g' : Shared) : Prop :=
  if r.readonly then g'.world.store = setOnline m true g.world.store ∧ g'.mapGen = g.mapGen
  else
    g'.world.store.nodes =
      updateNode m (mapUpdated r.nodeKey r.discoKey r.host r.endpoints) g.world.store.nodes ∧
    g'.mapGen = g.mapGen + 1

/-- **The end of a map request.** -/
theorem finishes_onMap {sid : Nat} {r : MapReq}
    (h : Finishes I domain Conn.isIdle g
      (if r.readonly then c.enter (.mapOnline sid r) else c.enter (.mapUpdate sid r)) envs g') :
    EndsMap c.machine r g g' := by
  unfold EndsMap
  by_cases hro : r.readonly = true
  · rw [if_pos hro] at h ⊢
    have hon := finishes_mapOnline rfl h
    exact hon
  · rw [if_neg hro] at h ⊢
    have hup := finishes_mapUpdate rfl h
    exact hup

/-! ### The end of a connection -/

theorem finishes_byeOnline (hph : c.phase = .byeOnline)
    (h : Finishes I domain Conn.isClosed g c envs g') :
    g'.world.store = setOnline c.machine false g.world.store ∧ g'.mapGen = g.mapGen + 1 := by
  obtain ⟨env, rest, g₁, c₁, _, hadv, hrest⟩ :=
    finishes_step (by simp only [Conn.isClosed, hph]) h
  simp only [advance, hph] at hadv
  cases hadv
  obtain ⟨env', rest', g₂, c₂, _, hadv, hrest⟩ := finishes_step rfl hrest
  cases hadv
  rw [(finishes_stuck (fun env => rfl) hrest).2]
  exact ⟨rfl, rfl⟩

/-! ### on_register -/

/-- The clock of section `k`. -/
def clockAt (envs : List Env) (k : Nat) : Int := ((envs[k]?).map (·.nowUnix)).getD 0

/-- The claim of a request of an unknown machine, if it is granted one. The clock is that of the
    fourth section. -/
def granted (w : World) (envs : List Env) (r : RegisterReq) : Option PreauthClaim :=
  if r.auth = [] then none else claimOf (clockAt envs 3) r.auth (keysSeen w)

/-- `register_node` has been made on the nodes of `s`, and announced. -/
def Enrolled (m : Bytes) (r : RegisterReq) (claim : PreauthClaim) (ephemeral : Bool) (s : Store)
    (gen : UInt64) (g' : Shared) : Prop :=
  g'.mapGen = gen + 1 ∧
    ((∃ n, findByMachine s m = some n ∧
      g'.world.store.nodes = updateNode m (reregistered r.nodeKey r.host ephemeral) s.nodes) ∨
    (findByMachine s m = none ∧ ∃ ips, g'.world.store.nodes =
      s.nodes ++ [newNode s.nextNodeId m r.nodeKey r.host ephemeral claim.token claim.shared ips]))

theorem finishes_regNode {r : RegisterReq} {claim : PreauthClaim} {ephemeral : Bool}
    (hph : c.phase = .regNode r claim ephemeral) (h : Finishes I domain Conn.isIdle g c envs g') :
    Enrolled c.machine r claim ephemeral g.world.store g.mapGen g' := by
  obtain ⟨env, rest, g₁, c₁, _, hadv, hrest⟩ := finishes_step (isIdle_false hph (by simp)) h
  obtain ⟨result, hr, hgen, hends⟩ := advance_node hph hadv
  rcases hends with ⟨_, rfl⟩ | ⟨⟨n, rfl⟩, rfl⟩
  · exact absurd hrest not_finishes_thrown
  · -- the bump that follows
    obtain ⟨env', rest', g₂, c₂, _, hbump, hidle⟩ := finishes_step rfl hrest
    cases hbump
    rw [finishes_idle rfl hidle]
    refine ⟨by rw [← hgen]; rfl, ?_⟩
    show (∃ n, _ ∧ g₁.world.store.nodes = _) ∨ (_ ∧ ∃ ips, g₁.world.store.nodes = _)
    rcases registerNode_cases hr with ⟨n', hn', hc⟩ | ⟨_, ⟨e, he, _⟩, _⟩ | ⟨ips, hnone, _, hc⟩
    · exact .inl ⟨n', hn', by rw [(commit_cases hc).1]⟩
    · cases he
    · exact .inr ⟨hnone, ips, by rw [(commit_cases hc).1]⟩

/-- The end of a registration of a machine that was unknown at its start. -/
def EndsUnknown (m : Bytes) (r : RegisterReq) (claim : Option PreauthClaim) (s : Store) (gen : UInt64)
    (g' : Shared) : Prop :=
  match claim with
  | none => g'.world.store.nodes = s.nodes ∧ g'.mapGen = gen
  | some claim => Enrolled m r claim claim.ephemeral s gen g'

/-- Registering looks at no key. -/
theorem EndsUnknown.of_keys {m : Bytes} {r : RegisterReq} {claim : Option PreauthClaim} {s : Store}
    {gen : UInt64} (keys : List PreauthKey) (h : EndsUnknown m r claim { s with keys } gen g') :
    EndsUnknown m r claim s gen g' := by
  cases claim with
  | none => exact h
  | some claim => exact h

theorem finishes_regCheck {r : RegisterReq} (hph : c.phase = .regCheck r)
    (h : Finishes I domain Conn.isIdle g c envs g') :
    EndsUnknown c.machine r (claimOf (clockAt envs 0) r.auth g.world.store.keys)
      g.world.store g.mapGen g' := by
  obtain ⟨env, rest, g₁, c₁, rfl, hadv, hrest⟩ := finishes_step (isIdle_false hph (by simp)) h
  simp only [advance, hph] at hadv
  rcases hc : checkAndMark env.io env.nowUnix r.auth g.world with ⟨result, w⟩
  rw [hc] at hadv
  rcases result with e | claim
  · cases hadv
    exact absurd hrest not_finishes_thrown
  · obtain ⟨hclaim, keys, hkeys⟩ := checkAndMark_claim hc
    show EndsUnknown c.machine r (claimOf env.nowUnix r.auth g.world.store.keys) g.world.store g.mapGen g'
    rw [← hclaim]
    cases claim with
    | none =>
      cases hadv
      rw [finishes_idle rfl hrest]
      exact ⟨by rw [hkeys], rfl⟩
    | some claim =>
      cases hadv
      have hen := finishes_regNode rfl hrest
      refine EndsUnknown.of_keys keys ?_
      rw [← hkeys]
      exact hen

theorem finishes_regInstall {r : RegisterReq} {image : Option Json}
    (hph : c.phase = .regInstall r image) (himage : image = readImage g.world)
    (h : Finishes I domain Conn.isIdle g c envs g') :
    EndsUnknown c.machine r (claimOf (clockAt envs 1) r.auth (keysSeen g.world)) g.world.store g.mapGen
      g' := by
  obtain ⟨env, rest, g₁, c₁, rfl, hadv, hrest⟩ := finishes_step (isIdle_false hph (by simp)) h
  cases image with
  | none =>
    simp only [advance, hph] at hadv
    cases hadv
    have hend := finishes_regCheck rfl hrest
    rw [keysSeen, ← himage]
    exact hend
  | some ks =>
    simp only [advance, hph] at hadv
    rcases hi : installKeys ks g.world.store with ⟨_ | _, s⟩
    · rw [hi] at hadv
      cases hadv
      exact absurd hrest not_finishes_thrown
    · rw [hi] at hadv
      cases hadv
      have hend := finishes_regCheck rfl hrest
      rw [keysSeen, ← himage]
      rw [installKeys_store hi] at hend
      exact hend.of_keys _

theorem finishes_regRead {r : RegisterReq} (hph : c.phase = .regRead r)
    (h : Finishes I domain Conn.isIdle g c envs g') :
    EndsUnknown c.machine r (claimOf (clockAt envs 2) r.auth (keysSeen g.world)) g.world.store g.mapGen
      g' := by
  obtain ⟨env, rest, g₁, c₁, rfl, hadv, hrest⟩ := finishes_step (isIdle_false hph (by simp)) h
  simp only [advance, hph] at hadv
  cases hadv
  have hend := finishes_regInstall rfl rfl hrest
  exact hend

/-- **The end of a registration.** -/
theorem finishes_regFind {r : RegisterReq} (hph : c.phase = .regFind r)
    (h : Finishes I domain Conn.isIdle g c envs g') :
    (∃ n, findByMachine g.world.store c.machine = some n ∧
      Enrolled c.machine r {} r.ephemeral g.world.store g.mapGen g') ∨
    (findByMachine g.world.store c.machine = none ∧
      EndsUnknown c.machine r (granted g.world envs r) g.world.store g.mapGen g') := by
  obtain ⟨env, rest, g₁, c₁, rfl, hadv, hrest⟩ := finishes_step (isIdle_false hph (by simp)) h
  simp only [advance, hph] at hadv
  cases hfind : findByMachine g.world.store c.machine with
  | some n =>
    rw [hfind] at hadv
    cases hadv
    have hen := finishes_regNode rfl hrest
    exact .inl ⟨n, rfl, hen⟩
  | none =>
    rw [hfind] at hadv
    refine .inr ⟨rfl, ?_⟩
    unfold granted
    by_cases hauth : r.auth = []
    · simp only [if_pos hauth] at hadv ⊢
      cases hadv
      rw [finishes_idle rfl hrest]
      exact ⟨rfl, rfl⟩
    · simp only [if_neg hauth] at hadv ⊢
      cases hadv
      have hend := finishes_regRead rfl hrest
      exact hend

end Finish

/-! ## 3. When it is announced -/

/-- `bump_map` makes `map_gen_` larger. -/
def hasRoom (g : Shared) : Prop := g.mapGen.toNat ≠ 2 ^ 64 - 1

/-- The registration says of the node what its map entry says already. -/
def repeatsRegister (r : RegisterReq) (n : NodeState) : Prop :=
  r.nodeKey = n.nodeKey ∧ (r.host = [] ∨ r.host = n.hostname)

/-- The same for a map request. -/
def repeatsMap (r : MapReq) (n : NodeState) : Prop :=
  (r.nodeKey = [] ∨ r.nodeKey = n.nodeKey) ∧ (r.discoKey = [] ∨ r.discoKey = n.discoKey) ∧
    (r.host = [] ∨ r.host = n.hostname) ∧ r.endpoints = n.endpoints ∧ n.online = true

/-- The host name of the request names the node as its DNS records do. -/
def repeatsName (host : Bytes) (n : NodeState) : Prop :=
  host = [] ∨ host = n.hostname ∨ (n.hostname = [] ∧ host = ascii "node-" ++ n.stableId)

/-- A newcomer with this claim would see no node. -/
def joinsAlone (s : Store) (claim : PreauthClaim) : Prop :=
  ∀ v ∈ s.nodes, v.id ≠ s.nextNodeId ∧ v.shared = false ∧ claim.shared = false ∧ v.token ≠ claim.token

def announcesRegister (g : Shared) (m : Bytes) (envs : List Env) (r : RegisterReq) : Prop :=
  match findByMachine g.world.store m with
  | some n =>
    hasRoom g ∨ ((¬ Seen g.world.store n ∨ repeatsRegister r n) ∧
      (¬ Doubled g.world.store n ∨ repeatsName r.host n))
  | none => hasRoom g ∨ ∀ claim, granted g.world envs r = some claim → joinsAlone g.world.store claim

def announcesMap (g : Shared) (m : Bytes) (r : MapReq) : Prop :=
  match findByMachine g.world.store m with
  | some n =>
    if r.readonly then ¬ Seen g.world.store n ∨ n.online = true
    else
      hasRoom g ∨ ((¬ Seen g.world.store n ∨ repeatsMap r n) ∧
        (¬ Doubled g.world.store n ∨ repeatsName r.host n))
  | none => True

def announcesDisconnect (g : Shared) (m : Bytes) : Prop :=
  match findByMachine g.world.store m with
  | some n => ¬ Seen g.world.store n ∨ n.online = false ∨ hasRoom g
  | none => True

/-- The nodes of a snapshot text. -/
def loadedNodes : Option Json → List NodeState
  | none => []
  | some j => (pushUntil nodeFromJson ((j.find (ascii "nodes")).getD .null).items).1

/-- **The condition on a step.** -/
def announces (domain now : Bytes) (s : Coord) : Task → Prop
  | .register i body envs => ∀ c req r, s.conns[i]? = some c → body = some req →
      decodeRegister req = .ok r → announcesRegister s.shared c.machine envs r
  | .map i _ body _ => ∀ c req r, s.conns[i]? = some c → body = some req →
      decodeMap req = .ok r → announcesMap s.shared c.machine r
  | .disconnect i _ => ∀ c, s.conns[i]? = some c → announcesDisconnect s.shared c.machine
  | .importState text => ∀ v,
      shownTo domain now { s.shared.world.store with nodes := loadedNodes text } v =
        shownTo domain now s.shared.world.store v

section Announcing

variable {I : Inet} {domain now : Bytes} {s s' : Coord} {i : Nat} {c : Conn} {envs : List Env}

theorem lt_succ_iff (x : UInt64) : x < x + 1 ↔ x.toNat ≠ 2 ^ 64 - 1 := by
  have hlt := x.toNat_lt
  rw [UInt64.lt_iff_toNat_lt, UInt64.toNat_add]
  simp only [UInt64.reduceToNat]
  omega

/-- After a bump. -/
theorem announced_bump (hgen : s'.shared.mapGen = s.shared.mapGen + 1) :
    Announced domain now s s' ↔ hasRoom s.shared ∨
      ¬ ViewChanged domain now s.shared.world.store s'.shared.world.store := by
  unfold Announced hasRoom
  rw [hgen, lt_succ_iff]
  constructor
  · intro h
    by_cases hroom : s.shared.mapGen.toNat ≠ 2 ^ 64 - 1
    · exact .inl hroom
    · exact .inr fun hv => hroom (h hv)
  · rintro (hroom | hno) hv
    · exact hroom
    · exact absurd hv hno

/-- Without one. -/
theorem announced_still (hgen : s'.shared.mapGen = s.shared.mapGen) :
    Announced domain now s s' ↔
      ¬ ViewChanged domain now s.shared.world.store s'.shared.world.store := by
  unfold Announced
  rw [hgen]
  exact ⟨fun h hv => UInt64.lt_irrefl _ (h hv), fun hno hv => absurd hv hno⟩

theorem exec_sections (hget : s.conns[i]? = some c)
    (h : exec (coordStep I domain) s (envs.map (.run i)) = some s') :
    ∃ c', exec (sectionStep I domain) (s.shared, c) envs = some (s'.shared, c') ∧
      s'.conns[i]? = some c' := by
  induction envs generalizing s c with
  | nil =>
    cases h
    exact ⟨c, rfl, hget⟩
  | cons env envs ih =>
    obtain ⟨s₁, hstep, hrest⟩ := Option.bind_eq_some_iff.mp h
    obtain ⟨c₁, hadv, hget₁⟩ := coordStep_section hstep hget
    obtain ⟨c', hexec, hget'⟩ := ih hget₁ hrest
    refine ⟨c', ?_, hget'⟩
    simp only [exec, sectionStep, hadv]
    exact hexec

/-- What a served connection does is what it does alone. -/
theorem serveTo_finishes {e : Event} {done : Conn → Bool} (start : Conn → Conn)
    (hstart : coordStep I domain s e = (idleConn s i).map fun c => s.setConn i (start c))
    (h : serveTo I domain s i e envs done = some s') :
    ∃ c, s.conns[i]? = some c ∧ Finishes I domain done s.shared (start c) envs s'.shared := by
  obtain ⟨s₁, hs₁, h⟩ := Option.bind_eq_some_iff.mp h
  obtain ⟨hexec, hdone⟩ := Option.filter_eq_some_iff.mp h
  rw [hstart] at hs₁
  obtain ⟨c, hc, rfl⟩ := Option.map_eq_some_iff.mp hs₁
  obtain ⟨hget, _⟩ := idleConn_some hc
  have hget₁ : (s.setConn i (start c)).conns[i]? = some (start c) :=
    List.getElem?_set_self (List.getElem?_eq_some_iff.mp hget).1
  obtain ⟨c', hrun, hget'⟩ := exec_sections hget₁ hexec
  rw [hget'] at hdone
  exact ⟨c, hget, c', hrun, hdone⟩

theorem loadJson_nodes {text : Option Json} {t t' : Store} {u : Unit}
    (h : loadJson text t = (.ok u, t')) : t'.nodes = loadedNodes text := by
  cases text with
  | none => cases h
  | some j =>
    simp only [loadJson, applySnapshotLocked] at h
    split at h
    · cases h
    · split at h
      · cases h
      · split at h
        · cases h
        · split at h
          · cases h
          · exact (congrArg (fun p => p.2.nodes) h).symm

/-- A request field that replaces a value unless it is empty. -/
theorem given_eq_iff {x y : Bytes} : (if x = [] then y else x) = y ↔ x = [] ∨ x = y := by
  by_cases hx : x = []
  · simp [hx]
  · simp [hx]

/-- A request gives the node the name it has. -/
theorem shownName_given {host : Bytes} {n n' : NodeState} (hstable : n'.stableId = n.stableId)
    (hhost : n'.hostname = if host = [] then n.hostname else host) :
    n'.shownName = n.shownName ↔ repeatsName host n := by
  unfold NodeState.shownName repeatsName
  rw [hstable, hhost]
  by_cases hnil : host = []
  · simp [hnil]
  · by_cases hn : n.hostname = []
    · simp [hnil, hn]
    · simp [hnil, hn]

theorem reregistered_same {r : RegisterReq} {ephemeral : Bool} {n : NodeState} :
    nodeToTailcfg (reregistered r.nodeKey r.host ephemeral n) domain now false =
      nodeToTailcfg n domain now false ↔ repeatsRegister r n := by
  rw [nodeToTailcfg_eq_iff (a := reregistered r.nodeKey r.host ephemeral n) (b := n) rfl rfl rfl rfl rfl]
  constructor
  · rintro ⟨hhost, hkey, _⟩
    exact ⟨hkey, given_eq_iff.mp hhost⟩
  · rintro ⟨hkey, hhost⟩
    exact ⟨given_eq_iff.mpr hhost, hkey, rfl, rfl, rfl⟩

theorem mapUpdated_same {r : MapReq} {n : NodeState} :
    nodeToTailcfg (mapUpdated r.nodeKey r.discoKey r.host r.endpoints n) domain now false =
      nodeToTailcfg n domain now false ↔ repeatsMap r n := by
  rw [nodeToTailcfg_eq_iff (a := mapUpdated r.nodeKey r.discoKey r.host r.endpoints n) (b := n)
    rfl rfl rfl rfl rfl]
  constructor
  · rintro ⟨hhost, hkey, hdisco, hend, hon⟩
    exact ⟨given_eq_iff.mp hkey, given_eq_iff.mp hdisco, given_eq_iff.mp hhost, hend, hon.symm⟩
  · rintro ⟨hkey, hdisco, hhost, hend, hon⟩
    exact ⟨given_eq_iff.mpr hhost, given_eq_iff.mpr hkey, given_eq_iff.mpr hdisco, hend, hon.symm⟩

theorem withOnline_same {online : Bool} {n : NodeState} :
    nodeToTailcfg (withOnline online n) domain now false = nodeToTailcfg n domain now false ↔
      n.online = online := by
  rw [nodeToTailcfg_eq_iff (a := withOnline online n) (b := n) rfl rfl rfl rfl rfl]
  exact ⟨fun h => h.2.2.2.2.symm, fun h => ⟨rfl, rfl, rfl, rfl, h.symm⟩⟩

/-- A newcomer sees nobody exactly if nobody has its id or is of its group. -/
theorem views_joined {m nodeKey hostname : Bytes} {claim : PreauthClaim} {ephemeral : Bool}
    {ips : Bytes × Bytes} {t t' : Store} (hfind : findByMachine t m = none)
    (h : t'.nodes = t.nodes ++ [newNode t.nextNodeId m nodeKey hostname ephemeral claim.token
      claim.shared ips]) :
    ¬ ViewChanged domain now t t' ↔ joinsAlone t claim := by
  rw [views_append (n := newNode t.nextNodeId m nodeKey hostname ephemeral claim.token claim.shared ips)
    hfind h]
  have hvisible : ∀ v, nodeVisibleTo (newNode t.nextNodeId m nodeKey hostname ephemeral claim.token
      claim.shared ips) v = false ↔ v.id ≠ t.nextNodeId ∧ v.shared = false ∧ claim.shared = false ∧
        v.token ≠ claim.token := by
    intro v
    unfold nodeVisibleTo
    show (if t.nextNodeId = v.id then true else if (claim.shared || v.shared) = true then true
      else decide (claim.token = v.token)) = false ↔ _
    by_cases hid : t.nextNodeId = v.id
    · simp [hid]
    · rw [if_neg hid]
      cases hs : claim.shared
      · cases hv : v.shared
        · simp [Ne.symm hid, eq_comm]
        · simp
      · simp
  constructor
  · intro hno v hv
    exact (hvisible v).mp (by_contra fun hp => hno ⟨v, hv, by simpa using hp⟩)
  · rintro hall ⟨v, hv, hp⟩
    rw [(hvisible v).mpr (hall v hv)] at hp
    cases hp

theorem announced_register {m : Bytes} {r : RegisterReq}
    (h : (∃ n, findByMachine s.shared.world.store m = some n ∧
        Enrolled m r {} r.ephemeral s.shared.world.store s.shared.mapGen s'.shared) ∨
      (findByMachine s.shared.world.store m = none ∧
        EndsUnknown m r (granted s.shared.world envs r) s.shared.world.store s.shared.mapGen s'.shared)) :
    Announced domain now s s' ↔ announcesRegister s.shared m envs r := by
  unfold announcesRegister
  rcases h with ⟨n, hfind, hgen, hnodes⟩ | ⟨hfind, hend⟩
  · rw [hfind, announced_bump hgen]
    rcases hnodes with ⟨_, _, hnodes⟩ | ⟨hnone, _⟩
    · have hname : (reregistered r.nodeKey r.host r.ephemeral n).shownName = n.shownName ↔
          repeatsName r.host n := shownName_given rfl rfl
      rw [views_kept (keepsSight_reregistered _ _ _) hfind hnodes, reregistered_same, hname]
    · rw [hfind] at hnone
      cases hnone
  · rw [hfind]
    cases hclaim : granted s.shared.world envs r with
    | none =>
      rw [hclaim] at hend
      obtain ⟨hnodes, hgen⟩ := hend
      rw [announced_still hgen]
      exact ⟨fun _ => .inr fun claim hc => (nomatch hc), fun _ => viewChanged_same hnodes⟩
    | some claim =>
      rw [hclaim] at hend
      obtain ⟨hgen, ⟨n, hsome, _⟩ | ⟨_, ips, hnodes⟩⟩ := hend
      · rw [hfind] at hsome
        cases hsome
      · rw [announced_bump hgen, views_joined hfind hnodes]
        simp

theorem announced_map {m : Bytes} {r : MapReq} (h : EndsMap m r s.shared s'.shared) :
    Announced domain now s s' ↔ announcesMap s.shared m r := by
  unfold announcesMap
  unfold EndsMap at h
  by_cases hro : r.readonly = true
  · rw [if_pos hro] at h
    obtain ⟨hstore, hgen⟩ := h
    rw [announced_still hgen]
    cases hfind : findByMachine s.shared.world.store m with
    | none =>
      rw [setOnline_unknown hfind] at hstore
      exact ⟨fun _ => trivial, fun _ => viewChanged_same (by rw [hstore])⟩
    | some n =>
      have hnodes : s'.shared.world.store.nodes =
          updateNode m (withOnline true) s.shared.world.store.nodes := by
        rw [hstore]
        rfl
      rw [views_kept (keepsSight_withOnline true) hfind hnodes, withOnline_same]
      simp only [if_pos hro]
      exact and_iff_left (.inr rfl)
  · rw [if_neg hro] at h
    obtain ⟨hnodes, hgen⟩ := h
    cases hfind : findByMachine s.shared.world.store m with
    | none =>
      rw [updateNode_unknown hfind] at hnodes
      rw [announced_bump hgen]
      exact ⟨fun _ => trivial, fun _ => .inr (viewChanged_same hnodes)⟩
    | some n =>
      have hname : (mapUpdated r.nodeKey r.discoKey r.host r.endpoints n).shownName = n.shownName ↔
          repeatsName r.host n := shownName_given rfl rfl
      rw [announced_bump hgen, views_kept (keepsSight_mapUpdated _ _ _ _) hfind hnodes, mapUpdated_same, hname]
      simp only [if_neg hro]

theorem announced_disconnect {m : Bytes}
    (hstore : s'.shared.world.store = setOnline m false s.shared.world.store)
    (hgen : s'.shared.mapGen = s.shared.mapGen + 1) :
    Announced domain now s s' ↔ announcesDisconnect s.shared m := by
  unfold announcesDisconnect
  rw [announced_bump hgen]
  cases hfind : findByMachine s.shared.world.store m with
  | none =>
    rw [setOnline_unknown hfind] at hstore
    exact ⟨fun _ => trivial, fun _ => .inr (viewChanged_same (by rw [hstore]))⟩
  | some n =>
    have hnodes : s'.shared.world.store.nodes =
        updateNode m (withOnline false) s.shared.world.store.nodes := by
      rw [hstore]
      rfl
    rw [views_kept (keepsSight_withOnline false) hfind hnodes, withOnline_same, and_iff_left (.inr rfl)]
    tauto

/-- An import announces nothing. -/
theorem announced_import {text : Option Json} (h : perform I domain s (.importState text) = some s') :
    Announced domain now s s' ↔ announces domain now s (.importState text) := by
  rcases hl : loadJson text s.shared.world.store with ⟨e | u, store⟩
  · simp only [perform, hl] at h
    cases h
  · simp only [perform, hl] at h
    have hs' := Option.some.inj h
    have hgen : s'.shared.mapGen = s.shared.mapGen := by rw [← hs']
    have hview : ∀ v, shownTo domain now s'.shared.world.store v = shownTo domain now
        { s.shared.world.store with nodes := loadedNodes text } v := by
      refine shownTo_congr ?_
      rw [← hs']
      exact loadJson_nodes hl
    rw [announced_still hgen]
    constructor
    · intro hno v
      rw [← hview]
      exact by_contra fun hne => hno ⟨v, hne⟩
    · rintro hall ⟨v, hne⟩
      exact hne ((hview v).trans (hall v))

end Announcing

/-- The condition on a request looks at the connection and the body it has. -/
theorem request_iff {ρ : Type} {s : Coord} {i : Nat} {c : Conn} {req : Json} {r : ρ}
    {decode : Json → Except Exn ρ} {P : Conn → ρ → Prop} (hget : s.conns[i]? = some c)
    (hr : decode req = .ok r) :
    (∀ c' req' r', s.conns[i]? = some c' → some req = some req' → decode req' = .ok r' → P c' r') ↔
      P c r := by
  constructor
  · intro h
    exact h c req r hget rfl hr
  · intro h c' req' r' hget' hreq' hr'
    rw [hget] at hget'
    cases hget'
    cases hreq'
    rw [hr] at hr'
    cases hr'
    exact h

/-- **Which visible changes are announced.** For every state and every completed register request,
    map request, disconnect or `import_state`. -/
theorem announced_iff (I : Inet) (domain now : Bytes) (s s' : Coord) (task : Task)
    (h : perform I domain s task = some s') :
    Announced domain now s s' ↔ announces domain now s task := by
  cases task with
  | register i body envs =>
    obtain ⟨c, hget, hfin⟩ := serveTo_finishes (fun c => onRegister c body) rfl h
    cases body with
    | none =>
      have hsame := finishes_idle rfl hfin
      rw [announced_still (by rw [hsame])]
      exact ⟨fun _ c req r _ hreq => (nomatch hreq), fun _ => viewChanged_same (by rw [hsame])⟩
    | some req =>
      cases hr : decodeRegister req with
      | error e =>
        simp only [onRegister, hr] at hfin
        exact absurd hfin not_finishes_thrown
      | ok r =>
        simp only [onRegister, hr] at hfin
        have hend := finishes_regFind rfl hfin
        rw [announced_register hend]
        exact (request_iff (P := fun c r => announcesRegister s.shared c.machine envs r) hget hr).symm
  | map i sid body envs =>
    obtain ⟨c, hget, hfin⟩ := serveTo_finishes (fun c => onMap c sid body) rfl h
    cases body with
    | none =>
      have hsame := finishes_idle rfl hfin
      rw [announced_still (by rw [hsame])]
      exact ⟨fun _ c req r _ hreq => (nomatch hreq), fun _ => viewChanged_same (by rw [hsame])⟩
    | some req =>
      cases hr : decodeMap req with
      | error e =>
        simp only [onMap, hr] at hfin
        exact absurd hfin not_finishes_thrown
      | ok r =>
        simp only [onMap, hr] at hfin
        rw [announced_map (finishes_onMap hfin)]
        exact (request_iff (P := fun c r => announcesMap s.shared c.machine r) hget hr).symm
  | disconnect i envs =>
    obtain ⟨c, hget, hfin⟩ := serveTo_finishes
      (fun c => { c with phase := .byeOnline, live := [] }) rfl h
    obtain ⟨hstore, hgen⟩ := finishes_byeOnline rfl hfin
    rw [announced_disconnect hstore hgen]
    constructor
    · intro hann c' hget'
      rw [hget] at hget'
      cases hget'
      exact hann
    · intro hann
      exact hann c hget
  | importState text => exact announced_import h

/-- The first machine polls for its map, as a client of version 67 and of version 68. -/
def polls (version : Int) : Task :=
  .map 0 1 (some (.obj [(ascii "Version", .num version), (ascii "Stream", .bool true)]))
    (List.replicate (if version < 68 then 6 else 4) {})

/-- What the task does to the view of machine `v` and to `map_gen_`. -/
def seenBy (v : Bytes) (task : Task) (s : Coord) : Option (Bool × Bool) :=
  (perform .sample (ascii "ts.net") s task).map fun s' =>
    (decide (shownTo (ascii "ts.net") [] s'.shared.world.store v ≠
      shownTo (ascii "ts.net") [] s.shared.world.store v),
     decide (s.shared.mapGen < s'.shared.mapGen))

/-- The same for the second of two machines that have registered. -/
def seenAfter (task : Task) : Option (Bool × Bool) :=
  (exec (coordStep .sample (ascii "ts.net")) (Coord.fresh { path := [], alloc := pool16 } none)
      twoJoined).bind (seenBy (ascii "mkey:2") task)

theorem announced_iff_polls :
    ∃ s s', exec (coordStep .sample (ascii "ts.net")) (Coord.fresh { path := [], alloc := pool16 } none)
        twoJoined = some s ∧
      perform .sample (ascii "ts.net") s (polls 67) = some s' ∧
      ViewChanged (ascii "ts.net") [] s.shared.world.store s'.shared.world.store ∧
      announces (ascii "ts.net") [] s (polls 67) := by
  have hexec : seenAfter (polls 67) = some (true, true) := by decide +kernel
  obtain ⟨s, hs, h⟩ := Option.bind_eq_some_iff.mp hexec
  obtain ⟨s', hs', heq⟩ := Option.map_eq_some_iff.mp h
  obtain ⟨hview, hgen⟩ := Prod.mk.inj heq
  refine ⟨s, s', hs, hs', ⟨_, of_decide_eq_true hview⟩, ?_⟩
  exact (announced_iff .sample (ascii "ts.net") [] s s' (polls 67) hs').mp fun _ => of_decide_eq_true hgen

theorem not_announced {v : Bytes} {task : Task} {s : Coord} (h : seenBy v task s = some (true, false)) :
    ∃ s', perform .sample (ascii "ts.net") s task = some s' ∧ ¬ Announced (ascii "ts.net") [] s s' := by
  obtain ⟨s', hs', heq⟩ := Option.map_eq_some_iff.mp h
  obtain ⟨hview, hgen⟩ := Prod.mk.inj heq
  exact ⟨s', hs', fun hann => of_decide_eq_false hgen (hann ⟨v, of_decide_eq_true hview⟩)⟩

/-- A text with two nodes of one id, the second of which goes by `host`. -/
def doubledText (host : String) : Json :=
  .obj [(ascii "nodes", .arr
    [.obj [(ascii "id", .num 1), (ascii "machine_key", .str (ascii "mkey:1"))],
     .obj [(ascii "id", .num 1), (ascii "machine_key", .str (ascii "mkey:2")),
       (ascii "hostname", .str (ascii host))]])]

/-- **Unannounced changes.** Two machines of one group have registered. The first opens a map
    stream as a client of version 68: it comes online in the map of the second, and `map_gen_` stays
    as it was. And an import renames a node that the map of another one has in its records alone. -/
theorem announced_missed :
    (∃ s s', exec (coordStep .sample (ascii "ts.net")) (Coord.fresh { path := [], alloc := pool16 } none)
        twoJoined = some s ∧
      perform .sample (ascii "ts.net") s (polls 68) = some s' ∧ ¬ Announced (ascii "ts.net") [] s s') ∧
    ∃ s s', perform .sample (ascii "ts.net") (Coord.fresh { path := [], alloc := pool16 } none)
        (.importState (some (doubledText "a"))) = some s ∧
      perform .sample (ascii "ts.net") s (.importState (some (doubledText "b"))) = some s' ∧
      ¬ Announced (ascii "ts.net") [] s s' := by
  constructor
  · have hexec : seenAfter (polls 68) = some (true, false) := by decide +kernel
    obtain ⟨s, hs, h⟩ := Option.bind_eq_some_iff.mp hexec
    obtain ⟨s', hs', hnot⟩ := not_announced h
    exact ⟨s, s', hs, hs', hnot⟩
  · have hexec : (perform .sample (ascii "ts.net") (Coord.fresh { path := [], alloc := pool16 } none)
        (.importState (some (doubledText "a")))).bind
          (seenBy (ascii "mkey:1") (.importState (some (doubledText "b")))) = some (true, false) := by
      decide +kernel
    obtain ⟨s, hs, h⟩ := Option.bind_eq_some_iff.mp hexec
    obtain ⟨s', hs', hnot⟩ := not_announced h
    exact ⟨s, s', hs, hs', hnot⟩

end Wirebone
