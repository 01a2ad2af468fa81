/-
  File:      Wirebone/Coordinator/Confined.lean
  Subject:   A MACHINE'S REQUESTS ARE CONFINED TO ITS OWN NODE.

  Whatever a request says, the node it reaches is chosen by the machine key of the handshake. A
  request is the start of its handler and the sections that follow; between them other connections
  may do anything, so what a request does is what its own sections do.

  * `Change` -- what one section can do to the store, `advance_change` the inversion;
  * `Confined` -- the nodes of other machines are as they were, where they were;
  * `serveStep` -- a request under way among other connections, with the stores before and after
    each of its own sections;
  * **`request_confined`** -- every request, in any state, among any steps of others and alone.
-/
import Wirebone.Coordinator.Admission

namespace Wirebone

open ByteString FirstMatch Lts

/-! ## 1. What a section does to the store -/

/-- The connection is not about to write a flag. -/
def Quiet (g : Shared) (c : Conn) : Prop :=
  match c.phase with
  | .mapOnline _ _ | .byeOnline => False
  | .mapUpdate _ _ => findByMachine g.world.store c.machine = none
  | _ => True

/-- **What a section of connection `c` can do to the store.** -/
inductive Change (g : Shared) (c : Conn) (g' : Shared) : Prop where
  | quiet (hq : Quiet g c) (h : g'.world.store = g.world.store)
  | keys (hreg : registering c = true) (keys : List PreauthKey)
      (h : g'.world.store = { g.world.store with keys })
  /-- The pool is exhausted. -/
  | counted (hreg : registering c = true) (h : g'.world.store = counted g.world.store)
  | renewed (r : RegisterReq) (claim : PreauthClaim) (ephemeral : Bool)
      (hphase : c.phase = .regNode r claim ephemeral)
      (h : g'.world.store = { g.world.store with
        nodes := updateNode c.machine (reregistered r.nodeKey r.host ephemeral) g.world.store.nodes })
  | added (r : RegisterReq) (claim : PreauthClaim) (ephemeral : Bool) (ips : Bytes × Bytes)
      (hphase : c.phase = .regNode r claim ephemeral)
      (hnone : findByMachine g.world.store c.machine = none)
      (h : g'.world.store = { counted g.world.store with
        nodes := g.world.store.nodes ++ [newNode g.world.store.nextNodeId c.machine r.nodeKey r.host
          ephemeral claim.token claim.shared ips] })
  | updated (sid : Nat) (r : MapReq) (hphase : c.phase = .mapUpdate sid r)
      (h : g'.world.store = { g.world.store with
        nodes := updateNode c.machine (mapUpdated r.nodeKey r.discoKey r.host r.endpoints)
          g.world.store.nodes })
  | online (sid : Nat) (r : MapReq) (hphase : c.phase = .mapOnline sid r)
      (h : g'.world.store = setOnline c.machine true g.world.store)
  | offline (hphase : c.phase = .byeOnline)
      (h : g'.world.store = setOnline c.machine false g.world.store)

section Advance

variable {I : Inet} {domain : Bytes} {env : Env} {g g' : Shared} {c c' : Conn}

theorem checkAndMark_change {r : RegisterReq} {result : Except Exn (Option PreauthClaim)} {w : World}
    (hph : c.phase = .regCheck r) (h : checkAndMark env.io env.nowUnix r.auth g.world = (result, w))
    (hw : g'.world = w) : Change g c g' := by
  rcases checkAndMark_cases h with ⟨_, rfl⟩ | ⟨k, _, _, _, hcommit⟩
  · exact .quiet (by simp only [Quiet, hph]) (by rw [hw])
  · refine .keys (by simp only [registering, hph]) (markUsed r.auth g.world.store.keys) ?_
    rw [hw]
    exact (commit_cases hcommit).1

theorem updateMapInfo_change {sid : Nat} {r : MapReq} {result : Except Exn Unit} {w : World}
    (hph : c.phase = .mapUpdate sid r)
    (h : updateMapInfo env.io c.machine r.nodeKey r.discoKey r.host r.endpoints g.world = (result, w))
    (hw : g'.world = w) : Change g c g' := by
  rcases updateMapInfo_cases h with ⟨hnone, _, rfl⟩ | ⟨n, _, hcommit⟩
  · exact .quiet (by simp only [Quiet, hph]; exact hnone) (by rw [hw])
  · refine .updated sid r hph ?_
    rw [hw]
    exact (commit_cases hcommit).1

theorem registered_change {r : RegisterReq} {claim : PreauthClaim} {ephemeral : Bool}
    {result : Except Exn NodeState} {w : World} (hph : c.phase = .regNode r claim ephemeral)
    (hr : registerNode I env.io c.machine r.nodeKey r.host ephemeral claim.token claim.shared g.world =
      (result, w)) : Change g c (g.registered c.machine claim w) := by
  rcases registerNode_cases hr with ⟨n, _, hc⟩ | ⟨_, _, rfl⟩ | ⟨ips, hnone, _, hc⟩
  · refine .renewed r claim ephemeral hph ?_
    rw [registered_world]
    exact (commit_cases hc).1
  · refine .counted (by simp only [registering, hph]) ?_
    rw [registered_world]
  · refine .added r claim ephemeral ips hph hnone ?_
    rw [registered_world]
    exact (commit_cases hc).1

theorem advance_change (h : advance I domain env g c = some (g', c')) :
    Change g c g' ∧ c'.machine = c.machine := by
  cases advance_branch h with
  | regKnown _ _ hph | regDenied _ hph | regAuth _ hph | regRead _ hph | regNoImage _ hph
  | regBump hph | mapBump _ _ hph | unauthorized _ _ hph | found _ _ _ hph | encodeThrew _ _ _ hph
  | oneShot _ _ _ hph | streamed _ _ _ hph | mapLive _ _ _ _ _ hph | tickEnd _ _ hph
  | tickFound _ _ _ _ hph | tickGone _ _ _ hph | keepaliveThrew _ _ hph | keepalive _ _ _ hph
  | tickSkip _ _ hph | tickThrew _ _ _ hph | tickLost _ _ _ hph | tickSent _ _ _ _ hph | byeBump hph =>
    exact ⟨.quiet (by simp only [Quiet, hph]) rfl, rfl⟩
  | regBroken _ _ _ _ hph hi | regInstalled _ _ _ _ hph hi =>
    exact ⟨.keys (by simp only [registering, hph]) _ (installKeys_store hi), rfl⟩
  | checkThrew _ _ _ hph hc | refused _ _ hph hc | granted _ _ _ hph hc =>
    exact ⟨checkAndMark_change hph hc rfl, rfl⟩
  | nodeThrew _ _ _ _ _ hph hr | nodeMade _ _ _ _ _ hph hr => exact ⟨registered_change hph hr, rfl⟩
  | updateThrew _ _ _ _ hph hu | updated _ _ _ _ hph hu => exact ⟨updateMapInfo_change hph hu rfl, rfl⟩
  | onlineOnly sid r hph | online sid r hph => exact ⟨.online sid r hph rfl, rfl⟩
  | byeOnline hph => exact ⟨.offline hph rfl, rfl⟩

end Advance

/-! ## 2. Confinement -/

/-- **From store `a` to store `b` nothing has happened to another machine's node**: it is where it
    was and as it was, none has appeared, and none is gone. -/
structure Confined (m : Bytes) (a b : Store) : Prop where
  others : ∀ (k : Nat) (n : NodeState), n.machineKey ≠ m →
    (b.nodes[k]? = some n ↔ a.nodes[k]? = some n)
  length : a.nodes.length ≤ b.nodes.length

section Stores

variable {m : Bytes} {a b d : Store}

theorem Confined.of_nodes (h : b.nodes = a.nodes) : Confined m a b :=
  ⟨fun k n _ => by rw [h], by rw [h]⟩

theorem Confined.trans (h : Confined m a b) (h' : Confined m b d) : Confined m a d :=
  ⟨fun k n hn => (h'.others k n hn).trans (h.others k n hn), h.length.trans h'.length⟩

/-- The first node of the machine is updated, and keeps its machine key. -/
theorem Confined.of_update {f : NodeState → NodeState} (hf : ∀ n, (f n).machineKey = n.machineKey)
    (h : b.nodes = updateNode m f a.nodes) : Confined m a b := by
  refine ⟨fun k n hn => ?_, ?_⟩
  · rw [h]
    refine getElem?_modifyFirst (fun x hx => ?_) a.nodes (by simpa using hn)
    rw [hf]
    exact hx
  · rw [h]
    exact (modifyFirst_length a.nodes).ge

/-- A node of the machine is appended. -/
theorem Confined.of_append {new : NodeState} (hnew : new.machineKey = m)
    (h : b.nodes = a.nodes ++ [new]) : Confined m a b := by
  refine ⟨fun k n hn => ?_, ?_⟩
  · rw [h]
    by_cases hk : k < a.nodes.length
    · rw [List.getElem?_append_left hk]
    · have hnone : a.nodes[k]? = none := List.getElem?_eq_none (Nat.le_of_not_lt hk)
      have hne : (a.nodes ++ [new])[k]? ≠ some n := by
        intro hget
        rw [List.getElem?_append_right (Nat.le_of_not_lt hk)] at hget
        have hmem := List.mem_singleton.mp (List.mem_of_getElem? hget)
        exact hn (hmem ▸ hnew)
      simp [hnone, hne]
  · rw [h, List.length_append]
    exact Nat.le_add_right _ _

theorem updateNode_unknown {f : NodeState → NodeState} (h : findByMachine a m = none) :
    updateNode m f a.nodes = a.nodes :=
  modifyFirst_of_none h

theorem setOnline_unknown {online : Bool} (h : findByMachine a m = none) : setOnline m online a = a := by
  unfold setOnline
  rw [updateNode_unknown h]

end Stores

/-- What a registration may still add. -/
def mayAdd (c : Conn) : Nat := if registering c then 1 else 0

/-- **One section**: confined, adds at most what its registration may still add, and outside a
    registration does nothing for a machine without a node. -/
structure SectionConfined (g : Shared) (c : Conn) (g' : Shared) (c' : Conn) : Prop where
  machine : c'.machine = c.machine
  confined : Confined c.machine g.world.store g'.world.store
  adds : g'.world.store.nodes.length + mayAdd c' ≤ g.world.store.nodes.length + mayAdd c
  unknown : registering c = false → findByMachine g.world.store c.machine = none →
    g'.world.store = g.world.store

section Sections

variable {I : Inet} {domain : Bytes} {env : Env} {g g' : Shared} {c c' : Conn}

theorem mayAdd_le (h : advance I domain env g c = some (g', c')) : mayAdd c' ≤ mayAdd c := by
  unfold mayAdd
  by_cases hc' : registering c' = true
  · rw [if_pos hc', if_pos (advance_registering h hc').1]
  · rw [if_neg hc']
    exact Nat.zero_le _

/-- After `register_node` nothing more is added. -/
theorem mayAdd_regNode {r : RegisterReq} {claim : PreauthClaim} {ephemeral : Bool}
    (hphase : c.phase = .regNode r claim ephemeral) (h : advance I domain env g c = some (g', c')) :
    mayAdd c' = 0 ∧ mayAdd c = 1 := by
  unfold mayAdd
  refine ⟨if_neg fun hc' => (advance_registering h hc').2 r claim ephemeral hphase, if_pos ?_⟩
  simp only [registering, hphase]

theorem advance_confined (h : advance I domain env g c = some (g', c')) :
    SectionConfined g c g' c' := by
  obtain ⟨hchange, hm⟩ := advance_change h
  have hle := mayAdd_le h
  have hupdate : ∀ f : NodeState → NodeState, (∀ n, (f n).machineKey = n.machineKey) →
      g'.world.store.nodes = updateNode c.machine f g.world.store.nodes →
      Confined c.machine g.world.store g'.world.store ∧
        g'.world.store.nodes.length + mayAdd c' ≤ g.world.store.nodes.length + mayAdd c := by
    intro f hf hs
    refine ⟨.of_update hf hs, ?_⟩
    rw [hs, updateNode, modifyFirst_length]
    exact Nat.add_le_add_left hle _
  cases hchange with
  | quiet _ hs =>
    exact ⟨hm, .of_nodes (by rw [hs]), by rw [hs]; exact Nat.add_le_add_left hle _, fun _ _ => hs⟩
  | keys hreg keys hs =>
    refine ⟨hm, .of_nodes (by rw [hs]), by rw [hs]; exact Nat.add_le_add_left hle _, fun hno => ?_⟩
    rw [hreg] at hno
    cases hno
  | counted hreg hs =>
    refine ⟨hm, .of_nodes (by rw [hs]; rfl), by rw [hs]; exact Nat.add_le_add_left hle _, fun hno => ?_⟩
    rw [hreg] at hno
    cases hno
  | renewed r claim e hphase hs =>
    obtain ⟨hconf, hlen⟩ := hupdate (reregistered r.nodeKey r.host e) (fun _ => rfl) (by rw [hs])
    refine ⟨hm, hconf, hlen, fun hno => ?_⟩
    simp only [registering, hphase] at hno
    cases hno
  | added r claim e ips hphase hnone hs =>
    refine ⟨hm, .of_append rfl (by rw [hs]), ?_, fun hno => ?_⟩
    · obtain ⟨h0, h1⟩ := mayAdd_regNode hphase h
      rw [h0, h1, hs, List.length_append]
      exact Nat.le_refl _
    · simp only [registering, hphase] at hno
      cases hno
  | updated sid r hphase hs =>
    obtain ⟨hconf, hlen⟩ := hupdate (mapUpdated r.nodeKey r.discoKey r.host r.endpoints)
      (fun _ => rfl) (by rw [hs])
    refine ⟨hm, hconf, hlen, fun _ hnone => ?_⟩
    rw [hs, updateNode_unknown hnone]
  | online sid r hphase hs =>
    obtain ⟨hconf, hlen⟩ := hupdate (fun n => { n with online := true }) (fun _ => rfl) (by rw [hs]; rfl)
    exact ⟨hm, hconf, hlen, fun _ hnone => by rw [hs, setOnline_unknown hnone]⟩
  | offline hphase hs =>
    obtain ⟨hconf, hlen⟩ := hupdate (fun n => { n with online := false }) (fun _ => rfl) (by rw [hs]; rfl)
    exact ⟨hm, hconf, hlen, fun _ hnone => by rw [hs, setOnline_unknown hnone]⟩

end Sections

/-! ## 3. A request among other connections -/

/-- The event is one of connection `i`. -/
def Event.isOf (i : Nat) : Event → Bool
  | .register j _ | .map j _ _ | .tick j | .run j _ | .closeStream j _ | .hangup j => decide (j = i)
  | .accept _ | .createKey _ _ _ _ _ _ _ => false

/-- The event starts a register request, a map request or the disconnect of connection `i`. -/
def Event.requests (i : Nat) : Event → Bool
  | .register j _ | .map j _ _ | .hangup j => decide (j = i)
  | _ => false

/-- The event is a section of a connection. -/
def Event.isSection : Event → Bool
  | .run _ _ => true
  | _ => false

/-- A coordinator in which a request is under way, with the store before and after each section of
    the request so far. -/
structure Serving where
  coord : Coord
  sections : List (Store × Store) := []

/-- Other connections do what they like; connection `i` runs the sections of its request. -/
def serveStep (I : Inet) (domain : Bytes) (i : Nat) (s : Serving) (e : Event) : Option Serving :=
  (coordStep I domain s.coord e).bind fun s' =>
    if !e.isOf i then some { s with coord := s' }
    else if e.isSection then
      some { coord := s'
             sections := s.sections ++ [(s.coord.shared.world.store, s'.shared.world.store)] }
    else none

/-- The nodes added by the sections, in all. -/
def addedBy (sections : List (Store × Store)) : Nat :=
  (sections.map fun p => p.2.nodes.length - p.1.nodes.length).sum

section Serve

variable {I : Inet} {domain : Bytes} {s s' : Coord} {e : Event} {i : Nat} {c : Conn}

/-- The steps of others leave a connection alone. -/
theorem coordStep_other (hs : coordStep I domain s e = some s') (he : e.isOf i = false)
    (hget : s.conns[i]? = some c) : s'.conns[i]? = some c := by
  have hset : ∀ {j : Nat} {d : Conn} {t : Coord}, decide (j = i) = false → t.conns = s.conns.set j d →
      t.conns[i]? = some c := by
    intro j d t hji ht
    rw [ht, List.getElem?_set_ne (of_decide_eq_false hji)]
    exact hget
  cases e with
  | accept m =>
    cases hs
    rw [List.getElem?_append_left (List.getElem?_eq_some_iff.mp hget).1]
    exact hget
  | register j body =>
    obtain ⟨d, _, rfl⟩ := Option.map_eq_some_iff.mp hs
    exact hset he rfl
  | map j sid body =>
    obtain ⟨d, _, rfl⟩ := Option.map_eq_some_iff.mp hs
    exact hset he rfl
  | tick j =>
    obtain ⟨d, _, rfl⟩ := Option.map_eq_some_iff.mp hs
    exact hset he rfl
  | run j env =>
    obtain ⟨d, _, hs⟩ := Option.bind_eq_some_iff.mp hs
    obtain ⟨⟨g, d'⟩, _, rfl⟩ := Option.map_eq_some_iff.mp hs
    exact hset he rfl
  | closeStream j k =>
    obtain ⟨d, _, rfl⟩ := Option.map_eq_some_iff.mp hs
    exact hset he rfl
  | hangup j =>
    obtain ⟨d, _, rfl⟩ := Option.map_eq_some_iff.mp hs
    exact hset he rfl
  | createKey env raw reusable ephemeral expiration token shared =>
    cases hs
    exact hget

theorem coordStep_section {env : Env} (hs : coordStep I domain s (.run i env) = some s')
    (hget : s.conns[i]? = some c) :
    ∃ c', advance I domain env s.shared c = some (s'.shared, c') ∧ s'.conns[i]? = some c' := by
  obtain ⟨d, hd, hs⟩ := Option.bind_eq_some_iff.mp hs
  obtain ⟨⟨g, c'⟩, hadv, rfl⟩ := Option.map_eq_some_iff.mp hs
  rw [hget] at hd
  cases hd
  exact ⟨c', hadv, List.getElem?_set_self (List.getElem?_eq_some_iff.mp hget).1⟩

/-- The handler of a request starts on the connection it came in on. Only a register request may
    add a node. -/
theorem coordStep_request (hs : coordStep I domain s e = some s') (he : e.requests i = true)
    (hget : s.conns[i]? = some c) :
    s'.shared = s.shared ∧ ∃ c', s'.conns[i]? = some c' ∧ c'.machine = c.machine ∧
      (isRegister e = false → registering c' = false) := by
  have hlt := (List.getElem?_eq_some_iff.mp hget).1
  have hstart : ∀ {d c' : Conn}, idleConn s i = some d → c'.machine = d.machine →
      (isRegister e = false → registering c' = false) →
      ∃ c'', (s.conns.set i c')[i]? = some c'' ∧ c''.machine = c.machine ∧
        (isRegister e = false → registering c'' = false) := by
    intro d c' hd hm hreg
    obtain ⟨hd, _⟩ := idleConn_some hd
    rw [hget] at hd
    cases hd
    exact ⟨c', List.getElem?_set_self hlt, hm, hreg⟩
  cases e with
  | accept | tick | run | closeStream | createKey => cases he
  | register j body =>
    obtain rfl : j = i := of_decide_eq_true he
    obtain ⟨d, hd, rfl⟩ := Option.map_eq_some_iff.mp hs
    exact ⟨rfl, hstart hd (onRegister_free d body).1 (fun hno => nomatch hno)⟩
  | map j sid body =>
    obtain rfl : j = i := of_decide_eq_true he
    obtain ⟨d, hd, rfl⟩ := Option.map_eq_some_iff.mp hs
    exact ⟨rfl, hstart hd (onMap_free d sid body).1 (fun _ => onMap_registering d sid body)⟩
  | hangup j =>
    obtain rfl : j = i := of_decide_eq_true he
    obtain ⟨d, hd, rfl⟩ := Option.map_eq_some_iff.mp hs
    exact ⟨rfl, hstart hd rfl (fun _ => rfl)⟩

end Serve

/-- **The invariant of a request under way** on connection `i`, of machine `m`; `adds` says whether
    it is a register request. -/
structure Underway (m : Bytes) (adds : Bool) (i : Nat) (t : Serving) : Prop where
  conn : ∃ c, t.coord.conns[i]? = some c ∧ c.machine = m ∧
    (adds = false → registering c = false) ∧ addedBy t.sections + mayAdd c ≤ 1
  confined : ∀ p ∈ t.sections, Confined m p.1 p.2
  unknown : adds = false → ∀ p ∈ t.sections, findByMachine p.1 m = none → p.2 = p.1

/-- A request alone: connection `i` runs its sections and nobody else moves. -/
structure Alone (m : Bytes) (adds : Bool) (i : Nat) (s₀ : Store) (t : Coord) : Prop where
  conn : ∃ c, t.conns[i]? = some c ∧ c.machine = m ∧ (adds = false → registering c = false) ∧
    t.shared.world.store.nodes.length + mayAdd c ≤ s₀.nodes.length + 1
  confined : Confined m s₀ t.shared.world.store
  unknown : adds = false → findByMachine s₀ m = none → t.shared.world.store = s₀

section Runs

variable {I : Inet} {domain : Bytes} {m : Bytes} {adds : Bool} {i : Nat} {e : Event}

theorem registering_false {env : Env} {g g' : Shared} {c c' : Conn}
    (h : advance I domain env g c = some (g', c')) (hc : registering c = false) :
    registering c' = false := by
  by_contra hc'
  rw [(advance_registering h (Bool.not_eq_false _ ▸ hc')).1] at hc
  cases hc

theorem underway_step {t t' : Serving} (h : Underway m adds i t)
    (hs : serveStep I domain i t e = some t') : Underway m adds i t' := by
  obtain ⟨s', hstep, hs⟩ := Option.bind_eq_some_iff.mp hs
  obtain ⟨c, hget, hm, hreg, hadds⟩ := h.conn
  by_cases hi : e.isOf i = true
  · rw [if_neg (by simp [hi])] at hs
    by_cases hsec : e.isSection = true
    · -- a section of the request itself
      rw [if_pos hsec] at hs
      cases hs
      cases e with
      | accept | register | map | tick | closeStream | hangup | createKey => cases hsec
      | run j env =>
        obtain rfl : j = i := of_decide_eq_true hi
        obtain ⟨c', hadv, hget'⟩ := coordStep_section hstep hget
        have hsc := advance_confined hadv
        have hlen := hsc.adds
        have hgrow := hsc.confined.length
        refine ⟨⟨c', hget', hsc.machine.trans hm, fun ha => registering_false hadv (hreg ha), ?_⟩, ?_, ?_⟩
        · have hsum : addedBy (t.sections ++ [(t.coord.shared.world.store, s'.shared.world.store)]) =
              addedBy t.sections +
                (s'.shared.world.store.nodes.length - t.coord.shared.world.store.nodes.length) := by
            simp [addedBy]
          show addedBy (t.sections ++ [(t.coord.shared.world.store, s'.shared.world.store)]) + _ ≤ 1
          rw [hsum]
          omega
        · intro p hp
          rcases List.mem_append.mp hp with hp | hp
          · exact h.confined p hp
          · obtain rfl := List.mem_singleton.mp hp
            exact hm ▸ hsc.confined
        · intro ha p hp hnone
          rcases List.mem_append.mp hp with hp | hp
          · exact h.unknown ha p hp hnone
          · obtain rfl := List.mem_singleton.mp hp
            exact hsc.unknown (hreg ha) (by rw [hm]; exact hnone)
    · rw [if_neg hsec] at hs
      cases hs
  · -- a step of another connection
    rw [if_pos (by simp [hi])] at hs
    cases hs
    exact ⟨⟨c, coordStep_other hstep (Bool.not_eq_true _ ▸ hi) hget, hm, hreg, hadds⟩, h.confined,
      h.unknown⟩

theorem alone_step {s₀ : Store} {t t' : Coord} (h : Alone m adds i s₀ t) (hi : e.isOf i = true)
    (hsec : e.isSection = true) (hs : coordStep I domain t e = some t') : Alone m adds i s₀ t' := by
  obtain ⟨c, hget, hm, hreg, hadds⟩ := h.conn
  cases e with
  | accept | register | map | tick | closeStream | hangup | createKey => cases hsec
  | run j env =>
    obtain rfl : j = i := of_decide_eq_true hi
    obtain ⟨c', hadv, hget'⟩ := coordStep_section hs hget
    have hsc := advance_confined hadv
    refine ⟨⟨c', hget', hsc.machine.trans hm, fun ha => registering_false hadv (hreg ha),
      hsc.adds.trans hadds⟩, h.confined.trans (hm ▸ hsc.confined), ?_⟩
    intro ha hnone
    have hsame := h.unknown ha hnone
    exact (hsc.unknown (hreg ha) (by rw [hm, hsame]; exact hnone)).trans hsame

end Runs

theorem mayAdd_le_one (c : Conn) : mayAdd c ≤ 1 := by
  unfold mayAdd
  split
  · exact Nat.le_refl 1
  · exact Nat.zero_le 1

/-- **A machine's requests are confined to its own node.** In every state `s`, for every register
    request, map request or disconnect `e` on connection `c`:

    * among any steps of the other connections, every section of the request leaves the nodes of
      other machines as and where they were, the sections add one node at most in all (of the
      machine, as no foreign node appears), and a section of a map request or disconnect that finds
      no node of the machine leaves the whole store as it was;
    * with no other step in between, the same holds from the start of the request to any point of
      it, its end included. -/
theorem request_confined (I : Inet) (domain : Bytes) (s s₁ : Coord) (e : Event) (i : Nat) (c : Conn)
    (hget : s.conns[i]? = some c) (he : e.requests i = true) (hs : coordStep I domain s e = some s₁) :
    (∀ es t, Run (Of (serveStep I domain i)) { coord := s₁ } es t →
      (∀ p ∈ t.sections, Confined c.machine p.1 p.2) ∧ addedBy t.sections ≤ 1 ∧
      (isRegister e = false → ∀ p ∈ t.sections, findByMachine p.1 c.machine = none → p.2 = p.1)) ∧
    ∀ es t, Run (Guarded (Of (coordStep I domain)) fun _ e => e.isOf i = true ∧ e.isSection = true)
        s₁ es t →
      Confined c.machine s.shared.world.store t.shared.world.store ∧
      t.shared.world.store.nodes.length ≤ s.shared.world.store.nodes.length + 1 ∧
      (isRegister e = false → findByMachine s.shared.world.store c.machine = none →
        t.shared.world.store = s.shared.world.store) := by
  obtain ⟨hshared, c₁, hget₁, hm, hreg⟩ := coordStep_request hs he hget
  refine ⟨fun es t hrun => ?_, fun es t hrun => ?_⟩
  · have hinv : Underway c.machine (isRegister e) i t := by
      refine hrun.inv_state (I := Underway c.machine (isRegister e) i) ?_ ?_
      · exact ⟨⟨c₁, hget₁, hm, hreg, by simpa [addedBy] using mayAdd_le_one c₁⟩,
          fun p hp => (nomatch hp), fun _ p hp => (nomatch hp)⟩
      · intro t e' t' ht hstep
        exact underway_step ht hstep
    obtain ⟨c', _, _, _, hadds⟩ := hinv.conn
    exact ⟨hinv.confined, by omega, hinv.unknown⟩
  · have hinv : Alone c.machine (isRegister e) i s.shared.world.store t := by
      refine hrun.inv_state (I := Alone c.machine (isRegister e) i s.shared.world.store) ?_ ?_
      · refine ⟨⟨c₁, hget₁, hm, hreg, ?_⟩, .of_nodes (by rw [hshared]), fun _ _ => by rw [hshared]⟩
        rw [hshared]
        exact Nat.add_le_add_left (mayAdd_le_one c₁) _
      · intro t e' t' ht hstep
        exact alone_step ht hstep.1.1 hstep.1.2 hstep.2
    obtain ⟨c', _, _, _, hadds⟩ := hinv.conn
    exact ⟨hinv.confined, by omega, hinv.unknown⟩

/-- Two machines have registered. -/
def twoJoined : List Event :=
  joins 0 (ascii "mkey:1") (bytes32 [1]) (ascii "blue") ++
    joins 1 (ascii "mkey:2") (bytes32 [2]) (ascii "blue")

/-- A map request of the second machine that names the first one's host and node key. -/
def borrowedMap : Event :=
  .map 1 1 (some (.obj [(ascii "NodeKey", .str (ascii "nodekey:1")),
    (ascii "Hostinfo", .obj [(ascii "Hostname", .str (ascii "node-1"))])]))

theorem request_confined_borrowed :
    ∃ s s₁ t c, exec (coordStep .sample (ascii "ts.net"))
        (Coord.fresh { path := [], alloc := pool16 } none) twoJoined = some s ∧
      s.conns[1]? = some c ∧ coordStep .sample (ascii "ts.net") s borrowedMap = some s₁ ∧
      Run (Guarded (Of (coordStep .sample (ascii "ts.net"))) fun _ e =>
        e.isOf 1 = true ∧ e.isSection = true) s₁ (List.replicate 5 (.run 1 {})) t ∧
      t.shared.world.store.nodes ≠ s.shared.world.store.nodes ∧
      Confined c.machine s.shared.world.store t.shared.world.store := by
  have hexec : ((exec (coordStep .sample (ascii "ts.net"))
      (Coord.fresh { path := [], alloc := pool16 } none) twoJoined).bind fun s =>
      (s.conns[1]?).bind fun _ => (coordStep .sample (ascii "ts.net") s borrowedMap).bind fun s₁ =>
      (exec (checked (coordStep .sample (ascii "ts.net")) fun _ e => e.isOf 1 && e.isSection) s₁
        (List.replicate 5 (.run 1 {}))).map fun t =>
        decide (t.shared.world.store.nodes ≠ s.shared.world.store.nodes)) = some true := by
    decide +kernel
  obtain ⟨s, hs, h⟩ := Option.bind_eq_some_iff.mp hexec
  obtain ⟨c, hc, h⟩ := Option.bind_eq_some_iff.mp h
  obtain ⟨s₁, hs₁, h⟩ := Option.bind_eq_some_iff.mp h
  obtain ⟨t, ht, hne⟩ := Option.map_eq_some_iff.mp h
  have hrun : Run (Guarded (Of (coordStep .sample (ascii "ts.net"))) fun _ e =>
      e.isOf 1 = true ∧ e.isSection = true) s₁ (List.replicate 5 (.run 1 {})) t := by
    refine (guarded_of_exec ht).mono fun s e s' hstep => ⟨?_, hstep.2⟩
    exact Bool.and_eq_true_iff.mp hstep.1
  refine ⟨s, s₁, t, c, hs, hc, hs₁, hrun, of_decide_eq_true hne, ?_⟩
  exact ((request_confined .sample (ascii "ts.net") s s₁ borrowedMap 1 c hc rfl hs₁).2 _ t hrun).1

end Wirebone
