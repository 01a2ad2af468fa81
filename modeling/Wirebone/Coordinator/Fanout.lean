/-
  File:      Wirebone/Coordinator/Fanout.lean
  Subject:   WHETHER EVERY MEMBERSHIP CHANGE REACHES EVERY STREAM.

  A stream is sent a new map when its `last_gen` differs from `map_gen_`. `on_tick` reads `map_gen_`
  and then the nodes, so a change in between is announced again. `on_map` reads the nodes and then
  `map_gen_`: a change and its `bump_map` in between leave a stream that counts as up to date and
  shows the nodes from before.

  * `FannedOut` -- the property;
  * `timely` -- the condition on a step: no bump between the two reads of an `on_map` whose list
    it makes stale, no exception between a change and its bump, no wrapped generation in use;
  * `Synced` -- the invariant: the streams of the current generation show the current nodes, or
    a connection is about to bump;
  * **`fanout_current`** -- the property in every run of timely steps; **`fanout_stale`** -- a run
    in which it fails.
-/
import Wirebone.Coordinator.Effect

namespace Wirebone

open ByteString FirstMatch Lts

/-! ## 1. The property -/

def MapMessage.full? : MapMessage → Option FullMap
  | .full map => some map
  | .keepalive _ => none

/-- The last full map queued on a stream. -/
def LiveMap.lastFull (m : LiveMap) : Option FullMap := (m.queued.filterMap MapMessage.full?).getLast?

/-- The peers of the stream's last full map are those of a map built now. -/
def UpToDate (domain : Bytes) (g : Shared) (m : LiveMap) : Prop :=
  ∃ map self, m.lastFull = some map ∧ findByMachine g.world.store m.machine = some self ∧
    ∀ now, map.steadyPeers = (buildFullMap self g.world.store.nodes domain now).steadyPeers

/-- No change of the connection waits for its `bump_map`, and no `on_map` or `on_tick` is under
    way. -/
def atRest (c : Conn) : Bool :=
  match c.phase with
  | .idle | .closed | .regFind _ | .regRead _ | .regInstall _ _ | .regCheck _ | .regNode _ _ _
  | .byeOnline => true
  | _ => false

/-- **Fan-out**: with all connections at rest, an open stream of the current generation shows the
    current peers. -/
def FannedOut (domain : Bytes) (s : Coord) : Prop :=
  (∀ c ∈ s.conns, atRest c = true) → ∀ c ∈ s.conns, ∀ m ∈ c.live, m.isOpen = true →
    m.lastGen = s.shared.mapGen → UpToDate domain s.shared m

/-! ## 2. Timely steps -/

/-- The nodes, `online` aside. -/
def steadyNodes (s : Store) : List NodeState := s.nodes.map (·.steady)

/-- The nodes that `register_node` leaves in memory. -/
def registeredNodes (I : Inet) (machineKey nodeKey hostname : Bytes) (ephemeral : Bool) (token : Bytes)
    (shared : Bool) (s : Store) : List NodeState :=
  match findByMachine s machineKey with
  | some _ => updateNode machineKey (reregistered nodeKey hostname ephemeral) s.nodes
  | none =>
    match addressFor I s.alloc s.nextIpIndex with
    | .error _ => s.nodes
    | .ok ips => s.nodes ++ [newNode s.nextNodeId machineKey nodeKey hostname ephemeral token shared ips]

/-- The store may take `nodes`: that is no change but for `online`, or it can be saved. -/
def savesNodes (io : SaveIo) (s : Store) (nodes : List NodeState) : Bool :=
  decide (nodes.map (·.steady) = steadyNodes s) || saves io { s with nodes }

/-- The connection is about to bump for a change it has made. -/
def announcing (c : Conn) : Bool :=
  match c.phase with
  | .regBump | .mapBump _ _ => true
  | _ => false

/-- A node list the connection has read, and whose generation it still has to read, is the current
    one. -/
def inStep (s : Store) (c : Conn) : Bool :=
  match c.phase with
  | .mapLive _ _ _ nodes _ => decide (nodes.map (·.steady) = steadyNodes s)
  | _ => true

/-- The next generation is on no stream yet. -/
def freshGen (s : Coord) : Bool :=
  s.conns.all fun c => c.live.all fun m => m.lastGen != s.shared.mapGen + 1

/-- **The condition on a step.** -/
def timely (I : Inet) (s : Coord) : Event → Bool
  | .run i env =>
    match s.conns[i]? with
    | none => true
    | some c =>
      match c.phase with
      | .regNode r claim ephemeral =>
        savesNodes env.io s.shared.world.store (registeredNodes I c.machine r.nodeKey r.host ephemeral
          claim.token claim.shared s.shared.world.store)
      | .mapUpdate _ r =>
        savesNodes env.io s.shared.world.store (updateNode c.machine
          (mapUpdated r.nodeKey r.discoKey r.host r.endpoints) s.shared.world.store.nodes)
      | .regBump | .mapBump _ _ =>
        freshGen s &&
          ((s.conns.eraseIdx i).any announcing || s.conns.all (inStep s.shared.world.store))
      | .byeBump => freshGen s
      | _ => true
  | _ => true

/-! ## 3. The invariant -/

/-- The first node of the machine. Later nodes do not change it. -/
def Found (g : Shared) (machine : Bytes) (d : Identity) : Prop :=
  (identities g.world.store).find? (·.machineKey = machine) = some d

/-- The stream's last full map was built of the current nodes. -/
def Shown (domain : Bytes) (g : Shared) (m : LiveMap) : Prop :=
  ∃ self nodes now, m.lastFull = some (buildFullMap self nodes domain now) ∧
    Found g m.machine self.identity ∧ nodes.map (·.steady) = steadyNodes g.world.store

/-- A node the connection has looked up is the one of the machine it builds a map for. -/
def Sees (domain : Bytes) (g : Shared) (c : Conn) : Prop :=
  match c.phase with
  | .mapNodes _ _ self => Found g c.machine self.identity
  | .mapLive _ _ self nodes first =>
    Found g c.machine self.identity ∧ ∃ now, first = buildFullMap self nodes domain now
  | .tickNodes _ k self => ∀ m, c.live[k]? = some m → Found g m.machine self.identity
  | _ => True

/-- The machines of the streams have nodes, and so has what the connection has looked up. -/
def Tracks (domain : Bytes) (g : Shared) (c : Conn) : Prop :=
  (∀ m ∈ c.live, ∃ d, Found g m.machine d) ∧ Sees domain g c

/-- The connection has missed nothing. -/
def Current (domain : Bytes) (g : Shared) (c : Conn) : Prop :=
  inStep g.world.store c = true ∧
    ∀ m ∈ c.live, m.isOpen = true → m.lastGen = g.mapGen → Shown domain g m

/-- **The invariant of the streams.** -/
structure Synced (domain : Bytes) (s : Coord) : Prop where
  tracks : ∀ c ∈ s.conns, Tracks domain s.shared c
  current : (∀ c ∈ s.conns, announcing c = false) → ∀ c ∈ s.conns, Current domain s.shared c

section Facts

variable {domain : Bytes} {g g' : Shared} {c : Conn} {m : LiveMap} {d : Identity} {machine : Bytes}

theorem found_iff : Found g machine d ↔
    ∃ n, findByMachine g.world.store machine = some n ∧ n.identity = d := by
  unfold Found identities findByMachine
  rw [List.find?_map, Option.map_eq_some_iff]
  rfl

theorem Found.mono (hi : identities g.world.store <+: identities g'.world.store)
    (h : Found g machine d) : Found g' machine d :=
  hi.find?_eq_some h

theorem Shown.mono (hi : identities g.world.store <+: identities g'.world.store)
    (hn : steadyNodes g'.world.store = steadyNodes g.world.store) (h : Shown domain g m) :
    Shown domain g' m := by
  obtain ⟨self, nodes, now, hlast, hfound, hnodes⟩ := h
  exact ⟨self, nodes, now, hlast, hfound.mono hi, hnodes.trans hn.symm⟩

theorem Sees.mono (hi : identities g.world.store <+: identities g'.world.store)
    (h : Sees domain g c) : Sees domain g' c := by
  unfold Sees at h ⊢
  cases hph : c.phase with
  | mapNodes sid r self =>
    simp only [hph] at h ⊢
    exact h.mono hi
  | mapLive sid r self nodes first =>
    simp only [hph] at h ⊢
    exact ⟨h.1.mono hi, h.2⟩
  | tickNodes gen k self =>
    simp only [hph] at h ⊢
    exact fun m hm => (h m hm).mono hi
  | idle | regFind | regRead | regInstall | regCheck | regNode | regBump | mapUpdate | mapBump
  | mapOnline | mapFind | tickFind | byeOnline | byeBump | closed => trivial

theorem Tracks.mono (hi : identities g.world.store <+: identities g'.world.store)
    (h : Tracks domain g c) : Tracks domain g' c := by
  refine ⟨?_, h.2.mono hi⟩
  intro m hm
  obtain ⟨d, hd⟩ := h.1 m hm
  exact ⟨d, hd.mono hi⟩

theorem inStep_congr {s s' : Store} (hn : steadyNodes s' = steadyNodes s) :
    inStep s' c = inStep s c := by
  unfold inStep
  rw [hn]

theorem Current.mono (hi : identities g.world.store <+: identities g'.world.store)
    (hn : steadyNodes g'.world.store = steadyNodes g.world.store) (hg : g'.mapGen = g.mapGen)
    (h : Current domain g c) : Current domain g' c := by
  refine ⟨(inStep_congr hn).trans h.1, ?_⟩
  intro m hm ho hgen
  exact (h.2 m hm ho (hgen.trans hg)).mono hi hn

/-- What `Shown` is for. -/
theorem Shown.upToDate (h : Shown domain g m) : UpToDate domain g m := by
  obtain ⟨self, nodes, now, hlast, hfound, hnodes⟩ := h
  obtain ⟨n, hn, hid⟩ := found_iff.mp hfound
  refine ⟨_, n, hlast, hn, fun now' => ?_⟩
  exact steadyPeers_congr now (congrArg Identity.id hid).symm (congrArg Identity.token hid).symm
    (congrArg Identity.shared hid).symm hnodes

@[simp] theorem push_isOpen (m : LiveMap) (msg : MapMessage) : (m.push msg).isOpen = m.isOpen := by
  unfold LiveMap.push
  split
  · rfl
  · rfl

@[simp] theorem push_lastGen (m : LiveMap) (msg : MapMessage) : (m.push msg).lastGen = m.lastGen := by
  unfold LiveMap.push
  split
  · rfl
  · rfl

@[simp] theorem push_machine (m : LiveMap) (msg : MapMessage) : (m.push msg).machine = m.machine := by
  unfold LiveMap.push
  split
  · rfl
  · rfl

theorem lastFull_push_full (m : LiveMap) (map : FullMap) (ho : m.isOpen = true) :
    (m.push (.full map)).lastFull = some map := by
  simp [LiveMap.push, ho, LiveMap.lastFull, MapMessage.full?]

theorem lastFull_push_keepalive (m : LiveMap) (now : Bytes) :
    (m.push (buildKeepalive now)).lastFull = m.lastFull := by
  unfold LiveMap.push
  split
  · simp [LiveMap.lastFull, MapMessage.full?, buildKeepalive]
  · rfl

end Facts

/-! ## 4. One section -/

/-- **What a section means for the streams**: nothing, or a change to be announced by this
    connection, or a new generation. -/
inductive Move (domain : Bytes) (g : Shared) (c : Conn) (g' : Shared) (c' : Conn) : Prop where
  | quiet (hn : steadyNodes g'.world.store = steadyNodes g.world.store) (hg : g'.mapGen = g.mapGen)
      (hc : announcing c = false) (hcur : Current domain g c → Current domain g' c')
  | change (hc' : announcing c' = true)
  | bump (hw : g'.world = g.world) (hg : g'.mapGen = g.mapGen + 1)
      (hc : announcing c = true ∨ c.phase = .byeBump) (hlive : c'.live = c.live)
      (hstep : inStep g'.world.store c' = true)

theorem steady_online (online : Bool) (n : NodeState) : ({ n with online } : NodeState).steady = n.steady :=
  rfl

theorem steadyNodes_setOnline (machine : Bytes) (online : Bool) (s : Store) :
    steadyNodes (setOnline machine online s) = steadyNodes s :=
  modifyFirst_map (steady_online online) s.nodes

section Sections

variable {I : Inet} {domain : Bytes} {env : Env} {io : SaveIo} {g g' : Shared} {c c' : Conn}
  {w w' : World}

/-- A save throws only where it changes nothing but `online`. -/
theorem commit_savesNodes {α : Type} {s : Store} {a : α} {r : Except Exn α}
    (h : commit io w s a = (r, w')) (hs : saves io s = saves io { w.store with nodes := s.nodes })
    (hok : savesNodes io w.store s.nodes = true) :
    r = .ok a ∨ steadyNodes w'.store = steadyNodes w.store := by
  rcases Bool.or_eq_true_iff.mp hok with hsame | hsaves
  · right
    rw [(commit_cases h).1]
    exact of_decide_eq_true hsame
  · left
    exact commit_saves h (hs.trans hsaves)

theorem registerNode_savesNodes {machineKey nodeKey hostname token : Bytes} {ephemeral shared : Bool}
    {r : Except Exn NodeState}
    (h : registerNode I io machineKey nodeKey hostname ephemeral token shared w = (r, w'))
    (hok : savesNodes io w.store
      (registeredNodes I machineKey nodeKey hostname ephemeral token shared w.store) = true) :
    (∃ n, r = .ok n) ∨ steadyNodes w'.store = steadyNodes w.store := by
  rcases registerNode_cases h with ⟨n, hfind, hc⟩ | ⟨hfind, _, rfl⟩ | ⟨ips, hfind, haddr, hc⟩
  · simp only [registeredNodes, hfind] at hok
    exact (commit_savesNodes hc rfl hok).imp_left fun hr => ⟨_, hr⟩
  · exact .inr rfl
  · simp only [registeredNodes, hfind, haddr] at hok
    exact (commit_savesNodes hc rfl hok).imp_left fun hr => ⟨_, hr⟩

theorem updateMapInfo_savesNodes {machineKey nodeKey discoKey hostname : Bytes}
    {endpoints : List Bytes} {r : Except Exn Unit}
    (h : updateMapInfo io machineKey nodeKey discoKey hostname endpoints w = (r, w'))
    (hok : savesNodes io w.store
      (updateNode machineKey (mapUpdated nodeKey discoKey hostname endpoints) w.store.nodes) = true) :
    r = .ok () ∨ steadyNodes w'.store = steadyNodes w.store := by
  rcases updateMapInfo_cases h with ⟨_, hr, _⟩ | ⟨n, _, hc⟩
  · exact .inl hr
  · exact commit_savesNodes hc rfl hok

theorem checkAndMark_steady {now : Int} {key : Bytes} {r : Except Exn (Option PreauthClaim)}
    (h : checkAndMark io now key w = (r, w')) : steadyNodes w'.store = steadyNodes w.store := by
  rcases checkAndMark_cases h with ⟨_, rfl⟩ | ⟨k, _, _, _, hcommit⟩
  · rfl
  · rw [(commit_cases hcommit).1]
    rfl

/-- A section that changes no node but for `online`, and adds no stream. -/
theorem calm (hi : identities g.world.store <+: identities g'.world.store)
    (hn : steadyNodes g'.world.store = steadyNodes g.world.store) (hg : g'.mapGen = g.mapGen)
    (ht : Tracks domain g c) (hc : announcing c = false) (hlive : ∀ m ∈ c'.live, m ∈ c.live)
    (hsees : Sees domain g' c') (hstep : inStep g'.world.store c' = true) :
    Tracks domain g' c' ∧ Move domain g c g' c' := by
  refine ⟨⟨?_, hsees⟩, .quiet hn hg hc ?_⟩
  · intro m hm
    obtain ⟨d, hd⟩ := ht.1 m (hlive m hm)
    exact ⟨d, hd.mono hi⟩
  · intro hcur
    refine ⟨hstep, fun m hm ho hgen => ?_⟩
    exact (hcur.2 m (hlive m hm) ho (hgen.trans hg)).mono hi hn

/-- A section that puts `m'` in the place of the stream `m`. -/
theorem restream {k : Nat} {m m' : LiveMap} (hg : g'.mapGen = g.mapGen)
    (hn : g'.world = g.world) (ht : Tracks domain g c) (hc : announcing c = false)
    (hget : c.live[k]? = some m) (hlive : c'.live = c.live.set k m') (hm' : m'.machine = m.machine)
    (hsees : Sees domain g' c') (hstep : inStep g'.world.store c' = true)
    (hshown : Current domain g c → m'.isOpen = true → m'.lastGen = g.mapGen → Shown domain g m') :
    Tracks domain g' c' ∧ Move domain g c g' c' := by
  have hi : identities g.world.store <+: identities g'.world.store := grows_of_eq (by rw [hn])
  have hs : steadyNodes g'.world.store = steadyNodes g.world.store := by rw [hn]
  refine ⟨⟨?_, hsees⟩, .quiet hs hg hc ?_⟩
  · intro e he
    rw [hlive] at he
    rcases List.mem_or_eq_of_mem_set he with he | rfl
    · obtain ⟨d, hd⟩ := ht.1 e he
      exact ⟨d, hd.mono hi⟩
    · obtain ⟨d, hd⟩ := ht.1 m (List.mem_of_getElem? hget)
      exact ⟨d, (hm' ▸ hd).mono hi⟩
  · intro hcur
    refine ⟨hstep, fun e he ho hgen => ?_⟩
    rw [hlive] at he
    rcases List.mem_or_eq_of_mem_set he with he | rfl
    · exact (hcur.2 e he ho (hgen.trans hg)).mono hi hs
    · exact (hshown hcur ho (hgen.trans hg)).mono hi hs

/-- The inversion of `advance` for the streams. -/
theorem advance_move (h : advance I domain env g c = some (g', c')) (ht : Tracks domain g c)
    (hreg : ∀ r claim e, c.phase = .regNode r claim e → savesNodes env.io g.world.store
      (registeredNodes I c.machine r.nodeKey r.host e claim.token claim.shared g.world.store) = true)
    (hmap : ∀ sid r, c.phase = .mapUpdate sid r → savesNodes env.io g.world.store
      (updateNode c.machine (mapUpdated r.nodeKey r.discoKey r.host r.endpoints)
        g.world.store.nodes) = true) :
    Tracks domain g' c' ∧ Move domain g c g' c' := by
  have hi := (advance_effect h).grows.1
  have hsees := ht.2
  cases advance_branch h with
  | regKnown _ _ hph | regDenied _ hph | regAuth _ hph | regRead _ hph | regNoImage _ hph
  | unauthorized _ _ hph | oneShot _ _ _ hph | tickEnd _ _ hph | tickSkip _ _ hph | tickLost _ _ _ hph =>
    exact calm hi rfl rfl ht (by simp only [announcing, hph]) (fun _ hm => hm) trivial rfl
  | encodeThrew _ _ _ hph | keepaliveThrew _ _ hph | tickThrew _ _ _ hph =>
    exact calm hi rfl rfl ht (by simp only [announcing, hph]) (fun _ hm => nomatch hm) trivial rfl
  | regBroken _ _ _ s hph hk =>
    have hn : steadyNodes s = steadyNodes g.world.store := by rw [installKeys_store hk]; rfl
    exact calm hi hn rfl ht (by simp only [announcing, hph]) (fun _ hm => nomatch hm) trivial rfl
  | regInstalled _ _ _ s hph hk =>
    have hn : steadyNodes s = steadyNodes g.world.store := by rw [installKeys_store hk]; rfl
    exact calm hi hn rfl ht (by simp only [announcing, hph]) (fun _ hm => hm) trivial rfl
  | checkThrew _ _ _ hph hk =>
    exact calm hi (checkAndMark_steady hk) rfl ht (by simp only [announcing, hph]) (fun _ hm => nomatch hm)
      trivial rfl
  | refused _ _ hph hk | granted _ _ _ hph hk =>
    exact calm hi (checkAndMark_steady hk) rfl ht (by simp only [announcing, hph]) (fun _ hm => hm)
      trivial rfl
  | nodeThrew r claim e _ w hph hr =>
    have hn : steadyNodes w.store = steadyNodes g.world.store := by
      rcases registerNode_savesNodes hr (hreg r claim e hph) with ⟨n, hok⟩ | hn
      · cases hok
      · exact hn
    -- the note of a created node changes neither the nodes nor the generation
    exact calm hi (by rw [registered_world, hn]) (registered_mapGen _ _ _ _) ht
      (by simp only [announcing, hph]) (fun _ hm => nomatch hm) trivial rfl
  | updateThrew sid r _ _ hph hu =>
    rcases updateMapInfo_savesNodes hu (hmap sid r hph) with hok | hn
    · cases hok
    · exact calm hi hn rfl ht (by simp only [announcing, hph]) (fun _ hm => nomatch hm) trivial rfl
  | nodeMade | updated =>
    exact ⟨⟨fun m hm => (ht.1 m hm).imp fun _ hd => hd.mono hi, trivial⟩, .change rfl⟩
  | regBump hph | mapBump _ _ hph =>
    exact ⟨⟨ht.1, trivial⟩, .bump rfl rfl (.inl (by simp only [announcing, hph])) rfl rfl⟩
  | byeBump hph => exact ⟨⟨ht.1, trivial⟩, .bump rfl rfl (.inr hph) rfl rfl⟩
  | onlineOnly _ _ hph | online _ _ hph | byeOnline hph =>
    exact calm hi (steadyNodes_setOnline _ _ _) rfl ht (by simp only [announcing, hph]) (fun _ hm => hm)
      trivial rfl
  | found _ _ self hph hself =>
    exact calm hi rfl rfl ht (by simp only [announcing, hph]) (fun _ hm => hm)
      (found_iff.mpr ⟨self, hself, rfl⟩) rfl
  | streamed sid r self hph =>
    have hself : Found g c.machine self.identity := by simpa only [Sees, hph] using hsees
    exact calm hi rfl rfl ht (by simp only [announcing, hph]) (fun _ hm => hm) ⟨hself, env.now, rfl⟩
      (decide_eq_true rfl)
  | mapLive sid r self nodes first hph =>
    obtain ⟨hself, now, hfirst⟩ : Found g c.machine self.identity ∧
        ∃ now, first = buildFullMap self nodes domain now := by
      simpa only [Sees, hph] using hsees
    refine ⟨⟨?_, trivial⟩, .quiet rfl rfl (by simp only [announcing, hph]) ?_⟩
    · intro m hm
      rcases List.mem_append.mp hm with hm | hm
      · exact ht.1 m hm
      · rw [List.mem_singleton.mp hm]
        exact ⟨_, hself⟩
    · -- the list is current until the generation is read
      intro hcur
      have hnodes : nodes.map (·.steady) = steadyNodes g.world.store := by
        have hstep := hcur.1
        simp only [inStep, hph] at hstep
        exact of_decide_eq_true hstep
      refine ⟨rfl, fun m hm ho hgen => ?_⟩
      rcases List.mem_append.mp hm with hm | hm
      · exact hcur.2 m hm ho hgen
      · rw [List.mem_singleton.mp hm]
        exact ⟨self, nodes, now, congrArg some hfirst, hself, hnodes⟩
  | tickFound gen k m self hph hget hself =>
    refine calm hi rfl rfl ht (by simp only [announcing, hph]) (fun _ hm => hm) ?_ rfl
    intro m' hm'
    rw [show (c.enter (.tickNodes gen k self)).live = c.live from rfl, hget] at hm'
    cases hm'
    exact found_iff.mpr ⟨self, hself, rfl⟩
  | tickGone _ _ m _ hget hnone =>
    -- the machine of a stream has a node
    obtain ⟨d, hd⟩ := ht.1 m (List.mem_of_getElem? hget)
    obtain ⟨n, hn, _⟩ := found_iff.mp hd
    rw [hnone] at hn
    cases hn
  | keepalive _ _ m hph hget =>
    refine restream rfl rfl ht (by simp only [announcing, hph]) hget rfl (push_machine _ _) trivial rfl ?_
    intro hcur ho hlast
    rw [push_isOpen] at ho
    rw [push_lastGen] at hlast
    obtain ⟨self, nodes, now, hfull, hfound, hnodes⟩ := hcur.2 m (List.mem_of_getElem? hget) ho hlast
    refine ⟨self, nodes, now, (lastFull_push_keepalive m env.now).trans hfull, ?_, hnodes⟩
    rw [push_machine]
    exact hfound
  | tickSent _ k self m hph hget =>
    have hself : ∀ m, c.live[k]? = some m → Found g m.machine self.identity := by
      simpa only [Sees, hph] using hsees
    refine restream rfl rfl ht (by simp only [announcing, hph]) hget rfl (push_machine _ _) trivial rfl ?_
    intro _ ho _
    -- the map is of the nodes as they are now
    refine ⟨self, g.world.store.nodes, env.now, ?_, ?_, rfl⟩
    · exact lastFull_push_full m _ ((push_isOpen m _).symm.trans ho)
    · show Found g (m.push _).machine self.identity
      rw [push_machine]
      exact hself m hget

end Sections

/-! ## 5. Whole runs -/

section Runs

variable {I : Inet} {domain : Bytes} {s s' : Coord} {e : Event}

/-- A connection other than the `i`-th is still there after the `i`-th has moved. -/
theorem mem_set_or_eq {l : List Conn} {i : Nat} {c d : Conn} (c' : Conn) (hget : l[i]? = some c)
    (hd : d ∈ l) :
    d = c ∨ d ∈ l.set i c' := by
  obtain ⟨j, hj⟩ := List.mem_iff_getElem?.mp hd
  by_cases hij : i = j
  · subst hij
    rw [hget] at hj
    exact .inl (Option.some.inj hj).symm
  · right
    refine List.mem_iff_getElem?.mpr ⟨j, ?_⟩
    rw [List.getElem?_set_ne hij]
    exact hj

theorem mem_set_of_mem_eraseIdx {l : List Conn} {i : Nat} {c' d : Conn} (hd : d ∈ l.eraseIdx i) :
    d ∈ l.set i c' := by
  obtain ⟨j, hne, hj⟩ := List.mem_eraseIdx_iff_getElem?.mp hd
  refine List.mem_iff_getElem?.mpr ⟨j, ?_⟩
  rw [List.getElem?_set_ne (Ne.symm hne)]
  exact hj

/-- Bumping makes every stream old. -/
theorem current_of_freshGen {c : Conn} (hfresh : freshGen s = true)
    (hlive : ∀ m ∈ c.live, ∃ d ∈ s.conns, m ∈ d.live) (hg : s'.shared.mapGen = s.shared.mapGen + 1)
    (hstep : inStep s'.shared.world.store c = true) : Current domain s'.shared c := by
  refine ⟨hstep, fun m hm _ hgen => ?_⟩
  obtain ⟨d, hd, hmd⟩ := hlive m hm
  have hne := List.all_eq_true.mp (List.all_eq_true.mp hfresh d hd) m hmd
  rw [hgen, hg] at hne
  simp at hne

theorem synced_run {i : Nat} {env : Env} {c c' : Conn} (h : Synced domain s)
    (hok : timely I s (.run i env) = true) (hget : s.conns[i]? = some c)
    (hadv : advance I domain env s.shared c = some (s'.shared, c'))
    (hconns : s'.conns = s.conns.set i c') : Synced domain s' := by
  have hmem := List.mem_of_getElem? hget
  have hmem' : c' ∈ s'.conns := by
    rw [hconns]
    exact List.mem_set (List.getElem?_eq_some_iff.mp hget).1 c'
  have hi := (advance_effect hadv).grows.1
  have hreg : ∀ r claim ep, c.phase = .regNode r claim ep → savesNodes env.io s.shared.world.store
      (registeredNodes I c.machine r.nodeKey r.host ep claim.token claim.shared
        s.shared.world.store) = true := by
    intro r claim ep hph
    simpa only [timely, hget, hph] using hok
  have hmap : ∀ sid r, c.phase = .mapUpdate sid r → savesNodes env.io s.shared.world.store
      (updateNode c.machine (mapUpdated r.nodeKey r.discoKey r.host r.endpoints)
        s.shared.world.store.nodes) = true := by
    intro sid r hph
    simpa only [timely, hget, hph] using hok
  obtain ⟨htracks, hmove⟩ := advance_move hadv (h.tracks c hmem) hreg hmap
  refine ⟨?_, ?_⟩
  · intro d hd
    rw [hconns] at hd
    rcases List.mem_or_eq_of_mem_set hd with hd | rfl
    · exact (h.tracks d hd).mono hi
    · exact htracks
  · intro hquiet
    -- no connection other than the one that moves was announcing
    have hothers : announcing c = false → ∀ d ∈ s.conns, announcing d = false := by
      intro hc d hd
      rcases mem_set_or_eq c' hget hd with rfl | hd'
      · exact hc
      · exact hquiet d (hconns ▸ hd')
    cases hmove with
    | quiet hn hg hc hcur =>
      have hall := h.current (hothers hc)
      intro d hd
      rw [hconns] at hd
      rcases List.mem_or_eq_of_mem_set hd with hd | rfl
      · exact (hall d hd).mono hi hn hg
      · exact hcur (hall c hmem)
    | change hc' =>
      have := hquiet c' hmem'
      rw [hc'] at this
      cases this
    | bump hw hg hc hlive hstep =>
      have hfresh : freshGen s = true ∧ ∀ d ∈ s.conns, inStep s.shared.world.store d = true := by
        rcases hc with hc | hph
        · have hboth : freshGen s = true ∧ ((s.conns.eraseIdx i).any announcing = true ∨
              s.conns.all (inStep s.shared.world.store) = true) := by
            unfold announcing at hc
            split at hc
            · rename_i hph
              simpa only [timely, hget, hph, Bool.and_eq_true, Bool.or_eq_true] using hok
            · rename_i sid r hph
              simpa only [timely, hget, hph, Bool.and_eq_true, Bool.or_eq_true] using hok
            · cases hc
          refine ⟨hboth.1, ?_⟩
          rcases hboth.2 with hany | hall
          · obtain ⟨d, hd, hann⟩ := List.any_eq_true.mp hany
            have := hquiet d (hconns ▸ mem_set_of_mem_eraseIdx hd)
            rw [hann] at this
            cases this
          · exact List.all_eq_true.mp hall
        · -- a connection that ends has changed nothing but `online`
          have hc : announcing c = false := by simp only [announcing, hph]
          refine ⟨by simpa only [timely, hget, hph] using hok, fun d hd => ?_⟩
          exact (h.current (hothers hc) d hd).1
      intro d hd
      rw [hconns] at hd
      rcases List.mem_or_eq_of_mem_set hd with hd | rfl
      · refine current_of_freshGen hfresh.1 (fun m hm => ⟨d, hd, hm⟩) hg ?_
        rw [hw]
        exact hfresh.2 d hd
      · exact current_of_freshGen hfresh.1 (fun m hm => ⟨c, hmem, hlive ▸ hm⟩) hg hstep

/-- An idle connection starts something, or a stream of it is closed. -/
theorem synced_start {i : Nat} {c c' : Conn} (h : Synced domain s) (hget : idleConn s i = some c)
    (hlive : ∀ m' ∈ c'.live, ∃ m ∈ c.live, m'.machine = m.machine ∧ (m'.isOpen = true → m' = m))
    (hsees : Sees domain s.shared c') (hstep : inStep s.shared.world.store c' = true) :
    Synced domain (s.setConn i c') := by
  obtain ⟨hget, hidle⟩ := idleConn_some hget
  have hmem := List.mem_of_getElem? hget
  refine ⟨?_, ?_⟩
  · intro d hd
    rcases List.mem_or_eq_of_mem_set hd with hd | rfl
    · exact h.tracks d hd
    · refine ⟨fun m' hm' => ?_, hsees⟩
      obtain ⟨m, hm, hmachine, _⟩ := hlive m' hm'
      rw [hmachine]
      exact (h.tracks c hmem).1 m hm
  · intro hquiet
    have hall := h.current fun d hd => by
      rcases mem_set_or_eq c' hget hd with rfl | hd'
      · simp only [announcing, hidle]
      · exact hquiet d hd'
    intro d hd
    rcases List.mem_or_eq_of_mem_set hd with hd | rfl
    · exact hall d hd
    · refine ⟨hstep, fun m' hm' ho hgen => ?_⟩
      obtain ⟨m, hm, _, heq⟩ := hlive m' hm'
      obtain rfl := heq ho
      exact (hall c hmem).2 _ hm ho hgen

/-- The same for handlers, which leave the streams alone or end the connection. -/
theorem synced_handler {i : Nat} {c c' : Conn} (h : Synced domain s) (hget : idleConn s i = some c)
    (hlive : c'.live = c.live ∨ c'.live = []) (hsees : Sees domain s.shared c')
    (hstep : inStep s.shared.world.store c' = true) : Synced domain (s.setConn i c') := by
  refine synced_start h hget (fun m hm => ?_) hsees hstep
  rcases hlive with hlive | hlive
  · exact ⟨m, hlive ▸ hm, rfl, fun _ => rfl⟩
  · rw [hlive] at hm
    cases hm

theorem synced_step (h : Synced domain s) (hok : timely I s e = true)
    (hs : coordStep I domain s e = some s') : Synced domain s' := by
  cases e with
  | accept m =>
    cases hs
    refine ⟨?_, ?_⟩
    · intro c hc
      rcases List.mem_append.mp hc with hc | hc
      · exact h.tracks c hc
      · rw [List.mem_singleton.mp hc]
        exact ⟨fun m hm => (nomatch hm), trivial⟩
    · intro hquiet c hc
      rcases List.mem_append.mp hc with hc | hc
      · exact h.current (fun d hd => hquiet d (List.mem_append_left _ hd)) c hc
      · rw [List.mem_singleton.mp hc]
        exact ⟨rfl, fun m hm => (nomatch hm)⟩
  | register i body =>
    obtain ⟨c, hc, rfl⟩ := Option.map_eq_some_iff.mp hs
    rcases onRegister_cases c body with ⟨_, hb⟩ | ⟨_, _, _, _, hb⟩ | ⟨_, _, _, _, hb⟩
    · rw [hb]
      exact synced_handler h hc (.inl rfl) trivial rfl
    · rw [hb]
      exact synced_handler h hc (.inr rfl) trivial rfl
    · rw [hb]
      exact synced_handler h hc (.inl rfl) trivial rfl
  | map i sid body =>
    obtain ⟨c, hc, rfl⟩ := Option.map_eq_some_iff.mp hs
    rcases onMap_cases c sid body with ⟨_, hb⟩ | ⟨_, _, _, _, hb⟩ | ⟨_, _, _, _, hb | hb⟩
    · rw [hb]
      exact synced_handler h hc (.inl rfl) trivial rfl
    · rw [hb]
      exact synced_handler h hc (.inr rfl) trivial rfl
    · rw [hb]
      exact synced_handler h hc (.inl rfl) trivial rfl
    · rw [hb]
      exact synced_handler h hc (.inl rfl) trivial rfl
  | tick i =>
    obtain ⟨c, hc, rfl⟩ := Option.map_eq_some_iff.mp hs
    exact synced_handler h hc (.inl rfl) trivial rfl
  | run i env =>
    obtain ⟨c, hget, hs⟩ := Option.bind_eq_some_iff.mp hs
    obtain ⟨⟨g, c'⟩, hadv, rfl⟩ := Option.map_eq_some_iff.mp hs
    exact synced_run h hok hget hadv rfl
  | closeStream i k =>
    obtain ⟨c, hc, rfl⟩ := Option.map_eq_some_iff.mp hs
    have hidle := (idleConn_some hc).2
    refine synced_start h hc (fun m' hm' => ?_) ?_ ?_
    · obtain ⟨j, hj⟩ := List.mem_iff_getElem?.mp hm'
      rw [show (closeLive c k).live = c.live.modify k fun m => { m with isOpen := false } from rfl,
        List.getElem?_modify] at hj
      obtain ⟨m, hm, hj⟩ := Option.map_eq_some_iff.mp hj
      refine ⟨m, List.mem_of_getElem? hm, ?_⟩
      by_cases hkj : k = j
      · rw [if_pos hkj] at hj
        rw [← hj]
        exact ⟨rfl, fun ho => nomatch ho⟩
      · rw [if_neg hkj] at hj
        rw [← hj]
        exact ⟨rfl, fun _ => rfl⟩
    · unfold Sees
      rw [show (closeLive c k).phase = .idle from hidle]
      trivial
    · unfold inStep
      rw [show (closeLive c k).phase = .idle from hidle]
  | hangup i =>
    obtain ⟨c, hc, rfl⟩ := Option.map_eq_some_iff.mp hs
    exact synced_handler h hc (.inr rfl) trivial rfl
  | createKey env raw reusable ephemeral expiration token shared =>
    cases hs
    rcases hc : createPreauthKey env.io env.nowUnix raw reusable ephemeral expiration token shared
      s.shared.world with ⟨r, w⟩
    have hstore := (createPreauthKey_cases hc).1
    have hi : identities s.shared.world.store <+: identities w.store :=
      grows_of_eq (by rw [hstore]; rfl)
    have hn : steadyNodes w.store = steadyNodes s.shared.world.store := by
      rw [hstore]
      rfl
    refine ⟨fun c hc => (h.tracks c hc).mono hi, fun hquiet c hc => ?_⟩
    exact (h.current hquiet c hc).mono hi hn rfl

end Runs

/-- **Fan-out in every run of timely steps**, from any store with no connection. -/
theorem fanout_current (I : Inet) (domain : Bytes) (store : Store) (file : Option FileText)
    (es : List Event) (s : Coord)
    (h : Run (Guarded (Of (coordStep I domain)) fun s e => timely I s e = true)
      (Coord.fresh store file) es s) : FannedOut domain s := by
  have hinv : Synced domain s := by
    refine h.inv_state (I := Synced domain) ?_ ?_
    · exact ⟨fun c hc => (nomatch hc), fun _ c hc => (nomatch hc)⟩
    · intro s e s' hs hstep
      exact synced_step hs hstep.1 hstep.2
  intro hrest c hc m hm ho hgen
  have hquiet : ∀ d ∈ s.conns, announcing d = false := by
    intro d hd
    have hd := hrest d hd
    unfold atRest at hd
    unfold announcing
    split
    · rename_i hph
      rw [hph] at hd
      cases hd
    · rename_i hph
      rw [hph] at hd
      cases hd
    · rfl
  exact ((hinv.current hquiet c hc).2 m hm ho hgen).upToDate

/-! ### Concrete runs -/

/-- The first machine asks for a map stream and runs the sections of `on_map` up to `nodes()`. -/
def opensStream : List Event :=
  joins 0 (ascii "mkey:1") (bytes32 [1]) (ascii "blue") ++
    .map 0 1 (some (.obj [(ascii "Stream", .bool true)])) :: List.replicate 5 (.run 0 {})

/-- The coordinator over an empty store without a file. -/
def sampleCoord : Coord := Coord.fresh { path := [], alloc := pool16 } none

/-- An open stream of the current generation. -/
def currentStream (s : Coord) (m : LiveMap) : Bool := m.isOpen && m.lastGen == s.shared.mapGen

/-- All connections are at rest, and some open stream is of the current generation. -/
def restsWithStream (s : Coord) : Bool :=
  s.conns.all atRest && s.conns.any fun c => c.live.any (currentStream s)

theorem fanout_current_tick :
    ∃ s, Run (Guarded (Of (coordStep .sample (ascii "ts.net"))) fun s e => timely .sample s e = true)
        sampleCoord (opensStream ++ .run 0 {} :: joins 1 (ascii "mkey:2") (bytes32 [2]) (ascii "blue") ++
          .tick 0 :: List.replicate 3 (.run 0 {})) s ∧
      ∃ c ∈ s.conns, ∃ m ∈ c.live, m.lastGen = s.shared.mapGen ∧
        UpToDate (ascii "ts.net") s.shared m := by
  have hexec : (exec (checked (coordStep .sample (ascii "ts.net")) (timely .sample)) sampleCoord
      (opensStream ++ .run 0 {} :: joins 1 (ascii "mkey:2") (bytes32 [2]) (ascii "blue") ++
        .tick 0 :: List.replicate 3 (.run 0 {}))).map restsWithStream = some true := by
    decide +kernel
  obtain ⟨s, hs, hrests⟩ := Option.map_eq_some_iff.mp hexec
  obtain ⟨hrest, hany⟩ := Bool.and_eq_true_iff.mp hrests
  obtain ⟨c, hc, hlive⟩ := List.any_eq_true.mp hany
  obtain ⟨m, hm, hcur⟩ := List.any_eq_true.mp hlive
  obtain ⟨ho, hgen⟩ : m.isOpen = true ∧ m.lastGen = s.shared.mapGen := by
    simpa [currentStream] using hcur
  refine ⟨s, guarded_of_exec hs, c, hc, m, hm, hgen, ?_⟩
  exact fanout_current .sample (ascii "ts.net") { path := [], alloc := pool16 } none _ s
    (guarded_of_exec hs) (List.all_eq_true.mp hrest) c hc m hm ho hgen

/-- The stream lacks a peer of the map built now. -/
def lacksPeer (domain : Bytes) (g : Shared) (m : LiveMap) : Bool :=
  match m.lastFull, findByMachine g.world.store m.machine with
  | some map, some self =>
    decide (map.peers.length < (buildFullMap self g.world.store.nodes domain []).peers.length)
  | _, _ => false

theorem not_upToDate {domain : Bytes} {g : Shared} {m : LiveMap} (h : lacksPeer domain g m = true) :
    ¬ UpToDate domain g m := by
  rintro ⟨map, self, hlast, hfound, hpeers⟩
  simp only [lacksPeer, hlast, hfound, decide_eq_true_eq] at h
  have hlen := congrArg List.length (hpeers [])
  simp only [FullMap.steadyPeers, List.length_map] at hlen
  omega

/-- **A lost update.** A second machine registers, and is announced, between `nodes()` and
    `map_gen()` of an `on_map`. Afterwards nothing is under way, the stream has the current
    generation, and its map lacks the second machine. -/
theorem fanout_stale :
    ∃ s, Run (Of (coordStep .sample (ascii "ts.net"))) sampleCoord
        (opensStream ++ joins 1 (ascii "mkey:2") (bytes32 [2]) (ascii "blue") ++ [.run 0 {}]) s ∧
      ¬ FannedOut (ascii "ts.net") s := by
  have hexec : (exec (coordStep .sample (ascii "ts.net")) sampleCoord
      (opensStream ++ joins 1 (ascii "mkey:2") (bytes32 [2]) (ascii "blue") ++ [.run 0 {}])).map (fun s =>
        s.conns.all atRest && s.conns.any fun c => c.live.any fun m =>
          currentStream s m && lacksPeer (ascii "ts.net") s.shared m) = some true := by
    decide +kernel
  obtain ⟨s, hs, hrests⟩ := Option.map_eq_some_iff.mp hexec
  obtain ⟨hrest, hany⟩ := Bool.and_eq_true_iff.mp hrests
  obtain ⟨c, hc, hlive⟩ := List.any_eq_true.mp hany
  obtain ⟨m, hm, hstale⟩ := List.any_eq_true.mp hlive
  obtain ⟨hcur, hlacks⟩ := Bool.and_eq_true_iff.mp hstale
  obtain ⟨ho, hgen⟩ : m.isOpen = true ∧ m.lastGen = s.shared.mapGen := by
    simpa [currentStream] using hcur
  refine ⟨s, run_of_exec hs, fun hall => ?_⟩
  exact not_upToDate hlacks (hall (List.all_eq_true.mp hrest) c hc m hm ho hgen)

end Wirebone
