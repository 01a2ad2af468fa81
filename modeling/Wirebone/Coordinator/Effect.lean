/-
  File:      Wirebone/Coordinator/Effect.lean
  Subject:   What one section does to the registry: the inversion of `advance`.

  * `Branch` -- the ways a section may go, `advance_branch` the inversion every later one is
    derived from;
  * `Effect` -- the five things a section of a connection can do to the identities of the nodes,
    to `next_node_id_` and to the record;
  * `Held`, `advance_held` -- what a connection holds between its sections;
  * `onRegister_cases`, `onMap_cases` -- what a request starts;
  * `coordStep_cases` -- the steps of the machine.
-/
import Wirebone.Coordinator.Basic

namespace Wirebone

open ByteString FirstMatch Lts

/-! ## 1. The branches of a section -/

/-- What is shared after a `register_node` that has left `w`, with the note of an added node. -/
def Shared.registered (g : Shared) (machine : Bytes) (claim : PreauthClaim) (w : World) : Shared :=
  if g.world.store.nodes.length < w.store.nodes.length then
    ({ g with world := w }).note (.created machine claim)
  else { g with world := w }

theorem registered_world (g : Shared) (machine : Bytes) (claim : PreauthClaim) (w : World) :
    (g.registered machine claim w).world = w := by
  unfold Shared.registered
  split
  · rfl
  · rfl

theorem registered_mapGen (g : Shared) (machine : Bytes) (claim : PreauthClaim) (w : World) :
    (g.registered machine claim w).mapGen = g.mapGen := by
  unfold Shared.registered
  split
  · rfl
  · rfl

/-- What is shared after a map has been built for `self`. -/
def Shared.drew (g : Shared) (self : NodeState) (domain now : Bytes) : Shared :=
  g.note (.built self g.world.store.nodes (buildFullMap self g.world.store.nodes domain now))

/-- What is shared after a write of the flag. -/
def Shared.flagged (g : Shared) (machine : Bytes) (online : Bool) : Shared :=
  { g with world := { g.world with store := setOnline machine online g.world.store } }

/-- **The branches of `advance`**: what a section of connection `c` finds, and what it leaves. -/
inductive Branch (I : Inet) (domain : Bytes) (env : Env) (g : Shared) (c : Conn) :
    Shared → Conn → Prop where
  | regKnown (r : RegisterReq) (n : NodeState) (hph : c.phase = .regFind r)
      (hn : findByMachine g.world.store c.machine = some n) :
      Branch I domain env g c g (c.enter (.regNode r {} r.ephemeral))
  | regDenied (r : RegisterReq) (hph : c.phase = .regFind r) :
      Branch I domain env g c g (c.answer .denied)
  | regAuth (r : RegisterReq) (hph : c.phase = .regFind r) :
      Branch I domain env g c g (c.enter (.regRead r))
  | regRead (r : RegisterReq) (hph : c.phase = .regRead r) :
      Branch I domain env g c g (c.enter (.regInstall r (readImage g.world)))
  | regNoImage (r : RegisterReq) (hph : c.phase = .regInstall r none) :
      Branch I domain env g c g (c.enter (.regCheck r))
  | regBroken (r : RegisterReq) (ks : Json) (e : Exn) (s : Store)
      (hph : c.phase = .regInstall r (some ks)) (hi : installKeys ks g.world.store = (.error e, s)) :
      Branch I domain env g c { g with world := { g.world with store := s } } c.thrown
  | regInstalled (r : RegisterReq) (ks : Json) (u : Unit) (s : Store)
      (hph : c.phase = .regInstall r (some ks)) (hi : installKeys ks g.world.store = (.ok u, s)) :
      Branch I domain env g c { g with world := { g.world with store := s } } (c.enter (.regCheck r))
  | checkThrew (r : RegisterReq) (e : Exn) (w : World) (hph : c.phase = .regCheck r)
      (hc : checkAndMark env.io env.nowUnix r.auth g.world = (.error e, w)) :
      Branch I domain env g c { g with world := w } c.thrown
  | refused (r : RegisterReq) (w : World) (hph : c.phase = .regCheck r)
      (hc : checkAndMark env.io env.nowUnix r.auth g.world = (.ok none, w)) :
      Branch I domain env g c { g with world := w } (c.answer .denied)
  | granted (r : RegisterReq) (claim : PreauthClaim) (w : World) (hph : c.phase = .regCheck r)
      (hc : checkAndMark env.io env.nowUnix r.auth g.world = (.ok (some claim), w)) :
      Branch I domain env g c (({ g with world := w }).note (.claimed c.machine claim))
        (c.enter (.regNode r claim claim.ephemeral))
  | nodeThrew (r : RegisterReq) (claim : PreauthClaim) (ephemeral : Bool) (e : Exn) (w : World)
      (hph : c.phase = .regNode r claim ephemeral)
      (hr : registerNode I env.io c.machine r.nodeKey r.host ephemeral claim.token claim.shared g.world =
        (.error e, w)) :
      Branch I domain env g c (g.registered c.machine claim w) c.thrown
  | nodeMade (r : RegisterReq) (claim : PreauthClaim) (ephemeral : Bool) (n : NodeState) (w : World)
      (hph : c.phase = .regNode r claim ephemeral)
      (hr : registerNode I env.io c.machine r.nodeKey r.host ephemeral claim.token claim.shared g.world =
        (.ok n, w)) :
      Branch I domain env g c (g.registered c.machine claim w) (c.enter .regBump)
  | regBump (hph : c.phase = .regBump) : Branch I domain env g c (bumpMap g) (c.answer .registered)
  | updateThrew (sid : Nat) (r : MapReq) (e : Exn) (w : World) (hph : c.phase = .mapUpdate sid r)
      (hu : updateMapInfo env.io c.machine r.nodeKey r.discoKey r.host r.endpoints g.world =
        (.error e, w)) :
      Branch I domain env g c { g with world := w } c.thrown
  | updated (sid : Nat) (r : MapReq) (u : Unit) (w : World) (hph : c.phase = .mapUpdate sid r)
      (hu : updateMapInfo env.io c.machine r.nodeKey r.discoKey r.host r.endpoints g.world = (.ok u, w)) :
      Branch I domain env g c { g with world := w } (c.enter (.mapBump sid r))
  | mapBump (sid : Nat) (r : MapReq) (hph : c.phase = .mapBump sid r) :
      Branch I domain env g c (bumpMap g) (c.enter (.mapOnline sid r))
  | onlineOnly (sid : Nat) (r : MapReq) (hph : c.phase = .mapOnline sid r) :
      Branch I domain env g c (g.flagged c.machine true) (c.answer .emptyBody)
  | online (sid : Nat) (r : MapReq) (hph : c.phase = .mapOnline sid r) :
      Branch I domain env g c (g.flagged c.machine true) (c.enter (.mapFind sid r))
  | unauthorized (sid : Nat) (r : MapReq) (hph : c.phase = .mapFind sid r) :
      Branch I domain env g c g (c.answer .unauthorized)
  | found (sid : Nat) (r : MapReq) (self : NodeState) (hph : c.phase = .mapFind sid r)
      (hself : findByMachine g.world.store c.machine = some self) :
      Branch I domain env g c g (c.enter (.mapNodes sid r self))
  | encodeThrew (sid : Nat) (r : MapReq) (self : NodeState) (hph : c.phase = .mapNodes sid r self)
      (ht : encodeFails domain env g c = true) :
      Branch I domain env g c (g.drew self domain env.now) c.thrown
  | oneShot (sid : Nat) (r : MapReq) (self : NodeState) (hph : c.phase = .mapNodes sid r self) :
      Branch I domain env g c (g.drew self domain env.now)
        (c.answer (.oneShot (buildFullMap self g.world.store.nodes domain env.now)))
  | streamed (sid : Nat) (r : MapReq) (self : NodeState) (hph : c.phase = .mapNodes sid r self) :
      Branch I domain env g c (g.drew self domain env.now)
        (c.enter (.mapLive sid r self g.world.store.nodes
          (buildFullMap self g.world.store.nodes domain env.now)))
  | mapLive (sid : Nat) (r : MapReq) (self : NodeState) (nodes : List NodeState) (first : FullMap)
      (hph : c.phase = .mapLive sid r self nodes first) :
      Branch I domain env g c g
        { c.answer (.streamStart first) with
          live := c.live ++ [{ streamId := sid, machine := c.machine, zstd := r.zstd,
                               lastGen := g.mapGen, queued := [.full first] }] }
  | tickEnd (gen : UInt64) (k : Nat) (hph : c.phase = .tickFind gen k) :
      Branch I domain env g c g (c.enter .idle)
  | tickFound (gen : UInt64) (k : Nat) (m : LiveMap) (self : NodeState) (hph : c.phase = .tickFind gen k)
      (hk : c.live[k]? = some m) (hself : findByMachine g.world.store m.machine = some self) :
      Branch I domain env g c g (c.enter (.tickNodes gen k self))
  | tickGone (gen : UInt64) (k : Nat) (m : LiveMap) (hph : c.phase = .tickFind gen k)
      (hk : c.live[k]? = some m) (hnone : findByMachine g.world.store m.machine = none) :
      Branch I domain env g c g
        { c with phase := .tickFind gen (k + 1), live := c.live.set k { m with lastGen := gen } }
  | keepaliveThrew (gen : UInt64) (k : Nat) (hph : c.phase = .tickFind gen k)
      (ht : encodeFails domain env g c = true) : Branch I domain env g c g c.thrown
  | keepalive (gen : UInt64) (k : Nat) (m : LiveMap) (hph : c.phase = .tickFind gen k)
      (hk : c.live[k]? = some m) :
      Branch I domain env g c g
        { c with phase := .tickFind gen (k + 1), live := c.live.set k (m.push (buildKeepalive env.now)) }
  | tickSkip (gen : UInt64) (k : Nat) (hph : c.phase = .tickFind gen k) :
      Branch I domain env g c g (c.enter (.tickFind gen (k + 1)))
  | tickThrew (gen : UInt64) (k : Nat) (self : NodeState) (hph : c.phase = .tickNodes gen k self)
      (ht : encodeFails domain env g c = true) :
      Branch I domain env g c (g.drew self domain env.now) c.thrown
  | tickLost (gen : UInt64) (k : Nat) (self : NodeState) (hph : c.phase = .tickNodes gen k self) :
      Branch I domain env g c (g.drew self domain env.now) (c.enter (.tickFind gen (k + 1)))
  | tickSent (gen : UInt64) (k : Nat) (self : NodeState) (m : LiveMap)
      (hph : c.phase = .tickNodes gen k self) (hk : c.live[k]? = some m) :
      Branch I domain env g c (g.drew self domain env.now)
        { c with phase := .tickFind gen (k + 1)
                 live := c.live.set k
                   { m.push (.full (buildFullMap self g.world.store.nodes domain env.now)) with
                     lastGen := gen } }
  | byeOnline (hph : c.phase = .byeOnline) :
      Branch I domain env g c (g.flagged c.machine false) (c.enter .byeBump)
  | byeBump (hph : c.phase = .byeBump) : Branch I domain env g c (bumpMap g) (c.enter .closed)

/-- **The inversion of `advance`**, the only place where it is unfolded as a whole. -/
theorem advance_branch {I : Inet} {domain : Bytes} {env : Env} {g g' : Shared} {c c' : Conn}
    (h : advance I domain env g c = some (g', c')) : Branch I domain env g c g' c' := by
  unfold advance at h
  cases hph : c.phase with
  | idle | closed =>
    rw [hph] at h
    cases h
  | regRead r =>
    simp only [hph] at h
    cases h
    exact .regRead r hph
  | regBump =>
    simp only [hph] at h
    cases h
    exact .regBump hph
  | mapBump sid r =>
    simp only [hph] at h
    cases h
    exact .mapBump sid r hph
  | mapLive sid r self nodes first =>
    simp only [hph] at h
    cases h
    exact .mapLive sid r self nodes first hph
  | byeOnline =>
    simp only [hph] at h
    cases h
    exact .byeOnline hph
  | byeBump =>
    simp only [hph] at h
    cases h
    exact .byeBump hph
  | regFind r =>
    simp only [hph] at h
    split at h
    · rename_i n hn
      cases h
      exact .regKnown r n hph hn
    · split at h
      · cases h
        exact .regDenied r hph
      · cases h
        exact .regAuth r hph
  | regInstall r image =>
    cases image with
    | none =>
      simp only [hph] at h
      cases h
      exact .regNoImage r hph
    | some ks =>
      simp only [hph] at h
      rcases hi : installKeys ks g.world.store with ⟨e | u, s⟩
      · rw [hi] at h
        cases h
        exact .regBroken r ks e s hph hi
      · rw [hi] at h
        cases h
        exact .regInstalled r ks u s hph hi
  | regCheck r =>
    simp only [hph] at h
    rcases hc : checkAndMark env.io env.nowUnix r.auth g.world with ⟨e | _ | claim, w⟩
    · rw [hc] at h
      cases h
      exact .checkThrew r e w hph hc
    · rw [hc] at h
      cases h
      exact .refused r w hph hc
    · rw [hc] at h
      cases h
      exact .granted r claim w hph hc
  | regNode r claim ephemeral =>
    simp only [hph] at h
    have hp := Option.some.inj h
    unfold registerSection at hp
    rcases hr : registerNode I env.io c.machine r.nodeKey r.host ephemeral claim.token claim.shared
      g.world with ⟨e | n, w⟩
    · simp only [hr] at hp
      obtain ⟨rfl, rfl⟩ := Prod.mk.inj hp
      exact .nodeThrew r claim ephemeral e w hph hr
    · simp only [hr] at hp
      obtain ⟨rfl, rfl⟩ := Prod.mk.inj hp
      exact .nodeMade r claim ephemeral n w hph hr
  | mapUpdate sid r =>
    simp only [hph] at h
    rcases hu : updateMapInfo env.io c.machine r.nodeKey r.discoKey r.host r.endpoints g.world with
      ⟨e | u, w⟩
    · rw [hu] at h
      cases h
      exact .updateThrew sid r e w hph hu
    · rw [hu] at h
      cases h
      exact .updated sid r u w hph hu
  | mapOnline sid r =>
    simp only [hph] at h
    split at h
    · cases h
      exact .onlineOnly sid r hph
    · cases h
      exact .online sid r hph
  | mapFind sid r =>
    simp only [hph] at h
    split at h
    · cases h
      exact .unauthorized sid r hph
    · rename_i self hself
      cases h
      exact .found sid r self hph hself
  | mapNodes sid r self =>
    simp only [hph] at h
    split at h
    · rename_i ht
      cases h
      exact .encodeThrew sid r self hph (by simpa only [encodeFails, hph] using ht)
    · split at h
      · cases h
        exact .oneShot sid r self hph
      · cases h
        exact .streamed sid r self hph
  | tickFind gen k =>
    simp only [hph] at h
    cases hk : c.live[k]? with
    | none =>
      simp only [hk] at h
      cases h
      exact .tickEnd gen k hph
    | some m =>
      simp only [hk] at h
      split at h
      · split at h
        · rename_i self hself
          cases h
          exact .tickFound gen k m self hph hk hself
        · rename_i hnone
          cases h
          exact .tickGone gen k m hph hk hnone
      · rename_i hgen
        split at h
        · rename_i hkeep
          split at h
          · rename_i ht
            cases h
            refine .keepaliveThrew gen k hph ?_
            simp only [encodeFails, hph, hk, not_not.mp hgen, decide_true, hkeep, ht, Bool.and_self]
          · cases h
            exact .keepalive gen k m hph hk
        · cases h
          exact .tickSkip gen k hph
  | tickNodes gen k self =>
    simp only [hph] at h
    split at h
    · rename_i ht
      cases h
      exact .tickThrew gen k self hph (by simpa only [encodeFails, hph] using ht)
    · cases hk : c.live[k]? with
      | none =>
        simp only [hk] at h
        cases h
        exact .tickLost gen k self hph
      | some m =>
        simp only [hk] at h
        cases h
        exact .tickSent gen k self m hph hk

/-! ## 2. What a section can do -/

/-- The store's part of an effect: the node identities and the id counter are as before. -/
structure SameRegistry (g g' : Shared) : Prop where
  identities : identities g'.world.store = identities g.world.store
  counter : g'.world.store.nextNodeId = g.world.store.nextNodeId

/-- **What a section of connection `c` can do.** -/
inductive Effect (domain : Bytes) (g : Shared) (c : Conn) (g' : Shared) : Prop where
  | quiet (h : SameRegistry g g') (hn : g'.notes = g.notes)
  | claimed (r : RegisterReq) (claim : PreauthClaim) (hphase : c.phase = .regCheck r)
      (h : SameRegistry g g') (hn : g'.notes = g.notes ++ [.claimed c.machine claim])
  | built (self : NodeState) (now : Bytes) (h : SameRegistry g g')
      (hself : (∃ sid r, c.phase = .mapNodes sid r self) ∨ ∃ gen k, c.phase = .tickNodes gen k self)
      (hn : g'.notes = g.notes ++ [.built self g.world.store.nodes
        (buildFullMap self g.world.store.nodes domain now)])
  | counted (r : RegisterReq) (claim : PreauthClaim) (ephemeral : Bool)
      (hphase : c.phase = .regNode r claim ephemeral)
      (h : identities g'.world.store = identities g.world.store)
      (hc : g'.world.store.nextNodeId = g.world.store.nextNodeId + 1) (hn : g'.notes = g.notes)
  | created (r : RegisterReq) (claim : PreauthClaim) (ephemeral : Bool) (d : Identity)
      (hphase : c.phase = .regNode r claim ephemeral)
      (hnew : ∀ i ∈ identities g.world.store, i.machineKey ≠ c.machine)
      (h : identities g'.world.store = identities g.world.store ++ [d])
      (hd : d.machineKey = c.machine ∧ d.id = g.world.store.nextNodeId ∧ d.token = claim.token ∧
        d.shared = claim.shared)
      (hc : g'.world.store.nextNodeId = g.world.store.nextNodeId + 1)
      (hn : g'.notes = g.notes ++ [.created c.machine claim])

section Advance

variable {I : Inet} {domain : Bytes} {env : Env} {g g' : Shared} {c c' : Conn}

theorem Effect.same (hs : g'.world.store = g.world.store) (hn : g'.notes = g.notes) :
    Effect domain g c g' :=
  .quiet ⟨by rw [hs], by rw [hs]⟩ hn

/-- A section that only writes `keys_` and the file. -/
theorem SameRegistry.of_keys {w : World} {keys : List PreauthKey}
    (h : w.store = { g.world.store with keys := keys }) (hw : g'.world = w) : SameRegistry g g' := by
  refine ⟨?_, ?_⟩
  · rw [hw, h]
    rfl
  · rw [hw, h]

theorem checkAndMark_registry {nowUnix : Int} {auth : Bytes} {result : Except Exn (Option PreauthClaim)}
    {w : World} (h : checkAndMark env.io nowUnix auth g.world = (result, w)) (hw : g'.world = w) :
    SameRegistry g g' := by
  rcases checkAndMark_cases h with ⟨_, rfl⟩ | ⟨k, _, _, _, hcommit⟩
  · exact ⟨by rw [hw], by rw [hw]⟩
  · exact .of_keys (commit_cases hcommit).1 hw

theorem updateMapInfo_registry {m nodeKey discoKey hostname : Bytes} {endpoints : List Bytes}
    {result : Except Exn Unit} {w : World}
    (h : updateMapInfo env.io m nodeKey discoKey hostname endpoints g.world = (result, w))
    (hw : g'.world = w) : SameRegistry g g' := by
  rcases updateMapInfo_cases h with ⟨_, _, rfl⟩ | ⟨n, _, hcommit⟩
  · exact ⟨by rw [hw], by rw [hw]⟩
  · have hs := (commit_cases hcommit).1
    refine ⟨?_, by rw [hw, hs]⟩
    rw [hw, hs]
    exact identities_updateNode (mapUpdated_identity _ _ _ _) _ _

theorem registered_effect {r : RegisterReq} {claim : PreauthClaim} {ephemeral : Bool}
    {result : Except Exn NodeState} {w : World} (hphase : c.phase = .regNode r claim ephemeral)
    (hr : registerNode I env.io c.machine r.nodeKey r.host ephemeral claim.token claim.shared g.world =
      (result, w)) : Effect domain g c (g.registered c.machine claim w) := by
  rcases registerNode_cases hr with ⟨n, _, hc⟩ | ⟨_, _, rfl⟩ | ⟨ips, hnone, _, hc⟩
  · -- a known machine: the length stays
    have hs := (commit_cases hc).1
    have hlen : ¬ g.world.store.nodes.length < w.store.nodes.length := by
      rw [hs]
      exact fun hlt => absurd (modifyFirst_length _) (Nat.ne_of_gt hlt)
    rw [Shared.registered, if_neg hlen]
    refine .quiet ⟨?_, ?_⟩ rfl
    · show identities w.store = _
      rw [hs]
      exact identities_updateNode (reregistered_identity _ _ _) _ _
    · show w.store.nextNodeId = _
      rw [hs]
  · have hlt : ¬ g.world.store.nodes.length < (counted g.world.store).nodes.length := Nat.lt_irrefl _
    rw [Shared.registered, if_neg hlt]
    exact .counted r claim ephemeral hphase rfl rfl rfl
  · have hs := (commit_cases hc).1
    have hlen : g.world.store.nodes.length < w.store.nodes.length := by
      rw [hs, List.length_append]
      simp
    rw [Shared.registered, if_pos hlen]
    refine .created r claim ephemeral (newNode g.world.store.nextNodeId c.machine r.nodeKey r.host
      ephemeral claim.token claim.shared ips).identity hphase (findByMachine_none hnone) ?_
      ⟨rfl, rfl, rfl, rfl⟩ ?_ rfl
    · show identities w.store = _
      rw [hs]
      exact List.map_append
    · show w.store.nextNodeId = _
      rw [hs]
      rfl

theorem advance_effect (h : advance I domain env g c = some (g', c')) : Effect domain g c g' := by
  cases advance_branch h with
  | regKnown | regDenied | regAuth | regRead | regNoImage | regBump | mapBump | unauthorized | found
  | mapLive | tickEnd | tickFound | tickGone | keepaliveThrew | keepalive | tickSkip | byeBump =>
    exact .same rfl rfl
  | regBroken r ks _ s _ hi | regInstalled r ks _ s _ hi =>
    exact .quiet (.of_keys (w := ⟨s, g.world.file⟩) (installKeys_store hi) rfl) rfl
  | checkThrew _ _ _ _ hc | refused _ _ _ hc => exact .quiet (checkAndMark_registry hc rfl) rfl
  | granted r claim _ hph hc => exact .claimed r claim hph (checkAndMark_registry hc rfl) rfl
  | nodeThrew _ _ _ _ _ hph hr | nodeMade _ _ _ _ _ hph hr => exact registered_effect hph hr
  | updateThrew _ _ _ _ _ hu | updated _ _ _ _ _ hu => exact .quiet (updateMapInfo_registry hu rfl) rfl
  | onlineOnly | online | byeOnline => exact .quiet ⟨identities_setOnline _ _ _, rfl⟩ rfl
  | encodeThrew sid r self hph | oneShot sid r self hph | streamed sid r self hph =>
    exact .built self env.now ⟨rfl, rfl⟩ (.inl ⟨sid, r, hph⟩) rfl
  | tickThrew gen k self hph | tickLost gen k self hph | tickSent gen k self _ hph =>
    exact .built self env.now ⟨rfl, rfl⟩ (.inr ⟨gen, k, hph⟩) rfl

/-- The section of `register_node`: what it calls, and how the connection goes on. -/
theorem advance_node {r : RegisterReq} {claim : PreauthClaim} {ephemeral : Bool}
    (hph : c.phase = .regNode r claim ephemeral) (h : advance I domain env g c = some (g', c')) :
    ∃ result, registerNode I env.io c.machine r.nodeKey r.host ephemeral claim.token claim.shared g.world =
        (result, g'.world) ∧ g'.mapGen = g.mapGen ∧
      ((∃ e, result = .error e) ∧ c' = c.thrown ∨ (∃ n, result = .ok n) ∧ c' = c.enter .regBump) := by
  simp only [advance, hph] at h
  have hsec := Option.some.inj h
  unfold registerSection at hsec
  rcases hr : registerNode I env.io c.machine r.nodeKey r.host ephemeral claim.token claim.shared g.world
    with ⟨e | n, w⟩
  · simp only [hr] at hsec
    obtain ⟨rfl, rfl⟩ := Prod.mk.inj hsec
    refine ⟨.error e, ?_, registered_mapGen g c.machine claim w, .inl ⟨⟨e, rfl⟩, rfl⟩⟩
    exact congrArg (Prod.mk _) (registered_world g c.machine claim w).symm
  · simp only [hr] at hsec
    obtain ⟨rfl, rfl⟩ := Prod.mk.inj hsec
    refine ⟨.ok n, ?_, registered_mapGen g c.machine claim w, .inr ⟨⟨n, rfl⟩, rfl⟩⟩
    exact congrArg (Prod.mk _) (registered_world g c.machine claim w).symm

theorem grows_of_eq {α : Type} {l l' : List α} (h : l' = l) : l <+: l' := h ▸ List.prefix_rfl

theorem grows_of_append {α : Type} {l l' : List α} {a : α} (h : l' = l ++ [a]) : l <+: l' :=
  h ▸ List.prefix_append _ _

/-- No section takes an identity away, or a note. -/
theorem Effect.grows (h : Effect domain g c g') :
    identities g.world.store <+: identities g'.world.store ∧ g.notes <+: g'.notes := by
  cases h with
  | quiet h hn => exact ⟨grows_of_eq h.identities, grows_of_eq hn⟩
  | claimed r claim _ h hn => exact ⟨grows_of_eq h.identities, grows_of_append hn⟩
  | built self now h _ hn => exact ⟨grows_of_eq h.identities, grows_of_append hn⟩
  | counted r claim e _ h _ hn => exact ⟨grows_of_eq h, grows_of_eq hn⟩
  | created r claim e d _ _ h _ _ hn => exact ⟨grows_of_append h, grows_of_append hn⟩

/-! ## 3. What a connection holds -/

/-- The machine has a node. -/
def Known (g : Shared) (machine : Bytes) : Prop :=
  ∃ d ∈ identities g.world.store, d.machineKey = machine

/-- **What a connection holds between two sections**: a request about to register has a claim
    that was granted to its machine, or a machine that is known; a node it has looked up is in the
    registry. -/
def Held (g : Shared) (c : Conn) : Prop :=
  match c.phase with
  | .regNode _ claim _ => Known g c.machine ∨ .claimed c.machine claim ∈ g.notes
  | .mapNodes _ _ self => self.identity ∈ identities g.world.store
  | .mapLive _ _ self _ _ => self.identity ∈ identities g.world.store
  | .tickNodes _ _ self => self.identity ∈ identities g.world.store
  | _ => True

/-- A connection that holds nothing. -/
def Free (c : Conn) : Prop := ∀ g, Held g c

theorem Held.mono (hi : identities g.world.store <+: identities g'.world.store)
    (hn : g.notes <+: g'.notes) (h : Held g c) : Held g' c := by
  unfold Held at h ⊢
  cases hph : c.phase with
  | regNode r claim e =>
    simp only [hph] at h ⊢
    rcases h with ⟨d, hd, hm⟩ | h
    · exact .inl ⟨d, hi.subset hd, hm⟩
    · exact .inr (hn.subset h)
  | mapNodes sid r self =>
    simp only [hph] at h ⊢
    exact hi.subset h
  | mapLive sid r self nodes first =>
    simp only [hph] at h ⊢
    exact hi.subset h
  | tickNodes gen k self =>
    simp only [hph] at h ⊢
    exact hi.subset h
  | idle | regFind | regRead | regInstall | regCheck | regBump | mapUpdate | mapBump | mapOnline
  | mapFind | tickFind | byeOnline | byeBump | closed => trivial

theorem found_identity {s : Store} {m : Bytes} {n : NodeState} (h : findByMachine s m = some n) :
    n.identity ∈ identities s ∧ n.machineKey = m :=
  ⟨List.mem_map_of_mem (List.mem_of_find?_eq_some h), found_key h⟩

/-- A section keeps the machine of its connection, and what the connection holds after it is in
    the registry and the record. -/
theorem advance_held (h : advance I domain env g c = some (g', c')) (hheld : Held g c) :
    c'.machine = c.machine ∧ Held g' c' := by
  cases advance_branch h with
  | regKnown r n hph hn =>
    obtain ⟨hmem, hm⟩ := found_identity hn
    exact ⟨rfl, .inl ⟨_, hmem, hm⟩⟩
  | granted => exact ⟨rfl, .inr (List.mem_append_right _ (List.mem_singleton.mpr rfl))⟩
  | found _ _ _ _ hself => exact ⟨rfl, (found_identity hself).1⟩
  | tickFound _ _ _ _ _ _ hself => exact ⟨rfl, (found_identity hself).1⟩
  | streamed sid r self hph =>
    have hself : self.identity ∈ identities g.world.store := by
      simpa only [Held, hph] using hheld
    exact ⟨rfl, hself⟩
  | regDenied | regAuth | regRead | regNoImage | regBroken | regInstalled | checkThrew | refused
  | nodeThrew | nodeMade | regBump | updateThrew | updated | mapBump | onlineOnly | online
  | unauthorized | encodeThrew | oneShot | mapLive | tickEnd | tickGone | keepaliveThrew | keepalive | tickSkip
  | tickThrew | tickLost | tickSent | byeOnline | byeBump => exact ⟨rfl, trivial⟩

end Advance

/-! ## 4. The steps of the machine -/

section Step

variable {I : Inet} {domain : Bytes} {s s' : Coord} {e : Event}

theorem idleConn_some {i : Nat} {c : Conn} (h : idleConn s i = some c) :
    s.conns[i]? = some c ∧ c.phase = .idle := by
  unfold idleConn at h
  split at h
  · rename_i c' hc
    split at h
    · rename_i hph
      cases h
      exact ⟨hc, hph⟩
    · cases h
  · cases h

/-- The connection is in a registration that has not reached `register_node`. -/
def registering (c : Conn) : Bool :=
  match c.phase with
  | .regFind _ | .regRead _ | .regInstall _ _ | .regCheck _ | .regNode _ _ _ => true
  | _ => false

/-- The event is a register request. -/
def isRegister : Event → Bool
  | .register _ _ => true
  | _ => false

/-- **What a register request starts**: an answer, an exception, or the first section. -/
theorem onRegister_cases (c : Conn) (body : Option Json) :
    (body = none ∧ onRegister c body = c.answer .badRequest) ∨
    (∃ req e, body = some req ∧ decodeRegister req = .error e ∧ onRegister c body = c.thrown) ∨
    ∃ req r, body = some req ∧ decodeRegister req = .ok r ∧ onRegister c body = c.enter (.regFind r) := by
  cases body with
  | none => exact .inl ⟨rfl, rfl⟩
  | some req =>
    cases hr : decodeRegister req with
    | error e => exact .inr (.inl ⟨req, e, rfl, hr, by simp only [onRegister, hr]⟩)
    | ok r => exact .inr (.inr ⟨req, r, rfl, hr, by simp only [onRegister, hr]⟩)

/-- **What a map request starts.** -/
theorem onMap_cases (c : Conn) (sid : Nat) (body : Option Json) :
    (body = none ∧ onMap c sid body = c.answer .badRequest) ∨
    (∃ req e, body = some req ∧ decodeMap req = .error e ∧ onMap c sid body = c.thrown) ∨
    ∃ req r, body = some req ∧ decodeMap req = .ok r ∧
      (onMap c sid body = c.enter (.mapOnline sid r) ∨ onMap c sid body = c.enter (.mapUpdate sid r)) := by
  cases body with
  | none => exact .inl ⟨rfl, rfl⟩
  | some req =>
    cases hr : decodeMap req with
    | error e => exact .inr (.inl ⟨req, e, rfl, hr, by simp only [onMap, hr]⟩)
    | ok r =>
      refine .inr (.inr ⟨req, r, rfl, hr, ?_⟩)
      simp only [onMap, hr]
      by_cases hro : r.readonly = true
      · exact .inl (if_pos hro)
      · exact .inr (if_neg hro)

theorem onRegister_free (c : Conn) (body : Option Json) :
    (onRegister c body).machine = c.machine ∧ Free (onRegister c body) := by
  rcases onRegister_cases c body with ⟨_, h⟩ | ⟨_, _, _, _, h⟩ | ⟨_, _, _, _, h⟩
  all_goals rw [h]; exact ⟨rfl, fun _ => trivial⟩

theorem onMap_free (c : Conn) (sid : Nat) (body : Option Json) :
    (onMap c sid body).machine = c.machine ∧ Free (onMap c sid body) := by
  rcases onMap_cases c sid body with ⟨_, h⟩ | ⟨_, _, _, _, h⟩ | ⟨_, _, _, _, h | h⟩
  all_goals rw [h]; exact ⟨rfl, fun _ => trivial⟩

theorem onMap_registering (c : Conn) (sid : Nat) (body : Option Json) :
    registering (onMap c sid body) = false := by
  rcases onMap_cases c sid body with ⟨_, h⟩ | ⟨_, _, _, _, h⟩ | ⟨_, _, _, _, h | h⟩
  all_goals rw [h]; rfl

theorem closeLive_free {c : Conn} (k : Nat) (h : c.phase = .idle) :
    (closeLive c k).machine = c.machine ∧ Free (closeLive c k) := by
  refine ⟨rfl, fun g => ?_⟩
  unfold Held
  rw [show (closeLive c k).phase = .idle from h]
  trivial

/-- An idle connection starts something: it holds nothing yet. -/
structure Starts (s : Coord) (e : Event) (i : Nat) (s' : Coord) : Prop where
  step : ∃ c c', s.conns[i]? = some c ∧ c.phase = .idle ∧ s'.conns = s.conns.set i c' ∧
    c'.machine = c.machine ∧ Free c' ∧ (registering c' = true → isRegister e = true)
  shared : s'.shared = s.shared

/-- **A step of the machine** is a section of one connection, or an idle connection starting
    something, or a new connection, or a new key. -/
theorem coordStep_cases (h : coordStep I domain s e = some s') :
    (∃ i env c c', e = .run i env ∧ s.conns[i]? = some c ∧
      advance I domain env s.shared c = some (s'.shared, c') ∧ s'.conns = s.conns.set i c') ∨
    (∃ i, Starts s e i s') ∨
    (∃ m, s'.conns = s.conns ++ [{ machine := m }] ∧ s'.shared = s.shared) ∨
    (s'.conns = s.conns ∧ s'.shared.mapGen = s.shared.mapGen ∧ s'.shared.notes = s.shared.notes ∧
      ∃ keys, s'.shared.world.store = { s.shared.world.store with keys := keys }) := by
  cases e with
  | accept m =>
    cases h
    exact .inr (.inr (.inl ⟨m, rfl, rfl⟩))
  | register i body =>
    obtain ⟨c, hc, rfl⟩ := Option.map_eq_some_iff.mp h
    obtain ⟨hget, hidle⟩ := idleConn_some hc
    obtain ⟨hm, hfree⟩ := onRegister_free c body
    exact .inr (.inl ⟨i, ⟨c, _, hget, hidle, rfl, hm, hfree, fun _ => rfl⟩, rfl⟩)
  | map i sid body =>
    obtain ⟨c, hc, rfl⟩ := Option.map_eq_some_iff.mp h
    obtain ⟨hget, hidle⟩ := idleConn_some hc
    obtain ⟨hm, hfree⟩ := onMap_free c sid body
    refine .inr (.inl ⟨i, ⟨c, _, hget, hidle, rfl, hm, hfree, fun hr => ?_⟩, rfl⟩)
    rw [onMap_registering] at hr
    cases hr
  | tick i =>
    obtain ⟨c, hc, rfl⟩ := Option.map_eq_some_iff.mp h
    obtain ⟨hget, hidle⟩ := idleConn_some hc
    exact .inr (.inl ⟨i, ⟨c, _, hget, hidle, rfl, rfl, fun _ => trivial, fun hr => nomatch hr⟩, rfl⟩)
  | run i env =>
    obtain ⟨c, hc, h⟩ := Option.bind_eq_some_iff.mp h
    obtain ⟨⟨g, c'⟩, hadv, rfl⟩ := Option.map_eq_some_iff.mp h
    exact .inl ⟨i, env, c, c', rfl, hc, hadv, rfl⟩
  | closeStream i k =>
    obtain ⟨c, hc, rfl⟩ := Option.map_eq_some_iff.mp h
    obtain ⟨hget, hidle⟩ := idleConn_some hc
    obtain ⟨hm, hfree⟩ := closeLive_free k hidle
    refine .inr (.inl ⟨i, ⟨c, _, hget, hidle, rfl, hm, hfree, fun hr => ?_⟩, rfl⟩)
    rw [registering, show (closeLive c k).phase = .idle from hidle] at hr
    cases hr
  | hangup i =>
    obtain ⟨c, hc, rfl⟩ := Option.map_eq_some_iff.mp h
    obtain ⟨hget, hidle⟩ := idleConn_some hc
    exact .inr (.inl ⟨i, ⟨c, _, hget, hidle, rfl, rfl, fun _ => trivial, fun hr => nomatch hr⟩, rfl⟩)
  | createKey env raw reusable ephemeral expiration token shared =>
    cases h
    rcases hc : createPreauthKey env.io env.nowUnix raw reusable ephemeral expiration token shared
      s.shared.world with ⟨r, w⟩
    exact .inr (.inr (.inr ⟨rfl, rfl, rfl, _, (createPreauthKey_cases hc).1⟩))

end Step

end Wirebone
