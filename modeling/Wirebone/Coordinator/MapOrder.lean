/-
  File:      Wirebone/Coordinator/MapOrder.lean
  Subject:   THE MAPS OF A STREAM NEVER GO BACKWARDS.

  A map is built of a node that has been looked up in one section and of a list that is read in another,
  while other connections register and update. What a client sees of its peers over time is the sequence
  of the maps queued on its stream.

  * `TailcfgNode.fixed`, `FullMap.shown` -- what no request changes: id, stable id, machine, addresses;
  * `buildFullMap_shown` -- the peers of a map, as a function of the identities alone;
  * `Ordered` -- a queue whose maps show more and more, none more than there is by now;
  * `advance_streams`, `streams_step` -- every section and every step keep the streams so;
  * **`maps_grow`** -- in every interleaving each map of a stream shows the peers of the maps before it, in
    the same order and with the same addresses, and possibly more behind them.
-/
import Wirebone.Coordinator.Fanout

namespace Wirebone

open ByteString FirstMatch Lts

/-! ## 1. What a map shows -/

/-- The entry of a node without what requests change: id, stable id, machine key, addresses. -/
def TailcfgNode.fixed (n : TailcfgNode) : UInt64 × Bytes × Bytes × List Bytes :=
  (n.id, n.stableId, n.machine, n.addresses)

/-- The peers of a map, so. -/
def FullMap.shown (m : FullMap) : List (UInt64 × Bytes × Bytes × List Bytes) := m.peers.map (·.fixed)

/-- The full maps of a queue, oldest first. -/
def fullMaps (queued : List MapMessage) : List FullMap := queued.filterMap MapMessage.full?

def Identity.fixed (d : Identity) : UInt64 × Bytes × Bytes × List Bytes :=
  (d.id, d.stableId, d.machineKey, [d.ipv4 ++ ascii "/32", d.ipv6 ++ ascii "/128"])

/-- The other node is a peer of this one. -/
def Identity.sees (d e : Identity) : Bool :=
  decide (e.id ≠ d.id) && (d.shared || e.shared || decide (d.token = e.token))

/-- The peers among the identities. -/
def peersIn (d : Identity) (ids : List Identity) : List (UInt64 × Bytes × Bytes × List Bytes) :=
  (ids.filter d.sees).map (·.fixed)

theorem isPeer_sees (a b : NodeState) : isPeer a b = a.identity.sees b.identity := by
  unfold isPeer nodeVisibleTo Identity.sees NodeState.identity
  by_cases hid : a.id = b.id
  · simp [hid]
  · have hid' : ¬ b.id = a.id := fun e => hid e.symm
    simp only [if_neg hid, ne_eq, hid', not_false_eq_true, decide_true, Bool.and_true, Bool.true_and]
    cases a.shared || b.shared with
    | true => rfl
    | false => rfl

/-- **The peers of a map are those among the identities.** -/
theorem buildFullMap_shown (self : NodeState) (nodes : List NodeState) (domain now : Bytes) :
    (buildFullMap self nodes domain now).shown = peersIn self.identity (nodes.map (·.identity)) ∧
      (buildFullMap self nodes domain now).node.fixed = self.identity.fixed := by
  have hpeer : isPeer self = self.identity.sees ∘ NodeState.identity := by
    funext n
    exact isPeer_sees self n
  refine ⟨?_, rfl⟩
  rw [FullMap.shown, buildFullMap_peers, peersIn, List.filter_map, List.map_map, List.map_map, hpeer]
  rfl

theorem peersIn_mono {ids ids' : List Identity} (d : Identity) (h : ids <+: ids') :
    peersIn d ids <+: peersIn d ids' := (h.filter d.sees).map _

/-! ## 2. A queue in order -/

/-- **A queue in order**, with the identities there are by now. -/
structure Ordered (d : Identity) (ids : List Identity) (queued : List MapMessage) : Prop where
  self : ∀ map ∈ fullMaps queued, map.node.fixed = d.fixed
  past : ∀ map ∈ fullMaps queued, map.shown <+: peersIn d ids
  order : (fullMaps queued).Pairwise fun a b => a.shown <+: b.shown

section Queue

variable {d : Identity} {ids ids' : List Identity} {queued : List MapMessage} {m : LiveMap}

theorem Ordered.mono (h : Ordered d ids queued) (hi : ids <+: ids') : Ordered d ids' queued :=
  ⟨h.self, fun map hm => (h.past map hm).trans (peersIn_mono d hi), h.order⟩

theorem Ordered.first {map : FullMap} (hself : map.node.fixed = d.fixed) (hpast : map.shown <+: peersIn d ids) :
    Ordered d ids [.full map] := by
  refine ⟨fun a ha => ?_, fun a ha => ?_, List.pairwise_singleton _ _⟩
  · rw [List.mem_singleton.mp ha]
    exact hself
  · rw [List.mem_singleton.mp ha]
    exact hpast

/-- A map of all there is by now goes behind the others. -/
theorem Ordered.push_full (h : Ordered d ids m.queued) {map : FullMap} (hself : map.node.fixed = d.fixed)
    (hall : map.shown = peersIn d ids) : Ordered d ids (m.push (.full map)).queued := by
  unfold LiveMap.push
  by_cases ho : m.isOpen = true
  · rw [if_pos ho]
    have hmaps : fullMaps (m.queued ++ [.full map]) = fullMaps m.queued ++ [map] := List.filterMap_append
    refine ⟨?_, ?_, ?_⟩
    · intro a ha
      rw [hmaps] at ha
      rcases List.mem_append.mp ha with ha | ha
      · exact h.self a ha
      · rw [List.mem_singleton.mp ha]
        exact hself
    · intro a ha
      rw [hmaps] at ha
      rcases List.mem_append.mp ha with ha | ha
      · exact h.past a ha
      · obtain rfl := List.mem_singleton.mp ha
        exact hall ▸ List.prefix_rfl
    · show (fullMaps (m.queued ++ [.full map])).Pairwise _
      rw [hmaps]
      refine List.pairwise_append.mpr ⟨h.order, List.pairwise_singleton _ _, ?_⟩
      intro a ha b hb
      rw [List.mem_singleton.mp hb, hall]
      exact h.past a ha
  · rw [if_neg ho]
    exact h

theorem Ordered.push_keepalive (h : Ordered d ids m.queued) (now : Bytes) :
    Ordered d ids (m.push (buildKeepalive now)).queued := by
  have hmaps : fullMaps (m.push (buildKeepalive now)).queued = fullMaps m.queued := by
    unfold LiveMap.push
    by_cases ho : m.isOpen = true
    · rw [if_pos ho]
      exact List.filterMap_append.trans (List.append_nil _)
    · rw [if_neg ho]
  exact ⟨hmaps ▸ h.self, hmaps ▸ h.past, hmaps ▸ h.order⟩

end Queue

/-! ## 3. The streams of a connection -/

/-- A stream of the machine, in order. -/
def InOrder (g : Shared) (machine : Bytes) (m : LiveMap) : Prop :=
  m.machine = machine ∧ ∃ d, Found g machine d ∧ Ordered d (identities g.world.store) m.queued

/-- What a connection holds of the registry: the node of its machine, and a map that is not ahead. -/
def HoldsOwn (g : Shared) (c : Conn) : Prop :=
  match c.phase with
  | .mapNodes _ _ self => Found g c.machine self.identity
  | .tickNodes _ _ self => Found g c.machine self.identity
  | .mapLive _ _ self _ first =>
    Found g c.machine self.identity ∧ Ordered self.identity (identities g.world.store) [.full first]
  | _ => True

/-- **The streams of a connection are in order.** -/
def Streams (g : Shared) (c : Conn) : Prop := (∀ m ∈ c.live, InOrder g c.machine m) ∧ HoldsOwn g c

section Streams

variable {I : Inet} {domain : Bytes} {env : Env} {g g' : Shared} {c c' : Conn}

theorem InOrder.mono {machine : Bytes} {m : LiveMap} (h : InOrder g machine m)
    (hi : identities g.world.store <+: identities g'.world.store) : InOrder g' machine m := by
  obtain ⟨hm, d, hd, hord⟩ := h
  exact ⟨hm, d, hd.mono hi, hord.mono hi⟩

theorem Streams.mono (h : Streams g c) (hi : identities g.world.store <+: identities g'.world.store) :
    Streams g' c := by
  refine ⟨fun m hm => (h.1 m hm).mono hi, ?_⟩
  have hown := h.2
  unfold HoldsOwn at hown ⊢
  cases hph : c.phase with
  | mapNodes sid r self =>
    simp only [hph] at hown ⊢
    exact hown.mono hi
  | tickNodes gen k self =>
    simp only [hph] at hown ⊢
    exact hown.mono hi
  | mapLive sid r self nodes first =>
    simp only [hph] at hown ⊢
    exact ⟨hown.1.mono hi, hown.2.mono hi⟩
  | idle | regFind | regRead | regInstall | regCheck | regNode | regBump | mapUpdate | mapBump | mapOnline
  | mapFind | tickFind | byeOnline | byeBump | closed => trivial

/-- A section that touches no stream. -/
theorem Streams.keep (h : Streams g c) (hi : identities g.world.store <+: identities g'.world.store)
    (hm : c'.machine = c.machine) (hlive : ∀ m ∈ c'.live, m ∈ c.live) (hown : HoldsOwn g' c') : Streams g' c' := by
  refine ⟨fun m hmem => ?_, hown⟩
  rw [hm]
  exact (h.1 m (hlive m hmem)).mono hi

/-- A section that puts `m'` in the place of a stream. -/
theorem Streams.put {k : Nat} {m' : LiveMap} (h : Streams g c)
    (hi : identities g.world.store <+: identities g'.world.store) (hm : c'.machine = c.machine)
    (hlive : c'.live = c.live.set k m') (hm' : InOrder g' c.machine m') (hown : HoldsOwn g' c') :
    Streams g' c' := by
  refine ⟨fun m hmem => ?_, hown⟩
  rw [hlive] at hmem
  rw [hm]
  rcases List.mem_or_eq_of_mem_set hmem with hmem | rfl
  · exact (h.1 m hmem).mono hi
  · exact hm'

/-- **Every section keeps the streams in order.** -/
theorem advance_streams (h : advance I domain env g c = some (g', c')) (hs : Streams g c) : Streams g' c' := by
  have hi := (advance_effect h).grows.1
  have hown := hs.2
  cases advance_branch h with
  | regKnown | regDenied | regAuth | regRead | regNoImage | regInstalled | refused | granted | nodeMade | regBump
  | updated | mapBump | onlineOnly | online | unauthorized | oneShot | tickEnd | tickSkip | tickLost | byeOnline
  | byeBump => exact hs.keep hi rfl (fun _ hm => hm) trivial
  | regBroken | checkThrew | nodeThrew | updateThrew | encodeThrew | keepaliveThrew | tickThrew =>
    exact hs.keep hi rfl (fun _ hm => (by cases hm)) trivial
  | found sid r self hph hself => exact hs.keep hi rfl (fun _ hm => hm) (found_iff.mpr ⟨self, hself, rfl⟩)
  | streamed sid r self hph =>
    have hself : Found g c.machine self.identity := by simpa only [HoldsOwn, hph] using hown
    obtain ⟨hshown, hfixed⟩ := buildFullMap_shown self g.world.store.nodes domain env.now
    exact hs.keep hi rfl (fun _ hm => hm) ⟨hself, .first hfixed (hshown ▸ List.prefix_rfl)⟩
  | mapLive sid r self nodes first hph =>
    obtain ⟨hself, hfirst⟩ : Found g c.machine self.identity ∧
        Ordered self.identity (identities g.world.store) [.full first] := by
      simpa only [HoldsOwn, hph] using hown
    refine ⟨fun m hm => ?_, trivial⟩
    rcases List.mem_append.mp hm with hm | hm
    · exact hs.1 m hm
    · rw [List.mem_singleton.mp hm]
      exact ⟨rfl, self.identity, hself, hfirst⟩
  | tickFound gen k m self hph hk hself =>
    have hmachine := (hs.1 m (List.mem_of_getElem? hk)).1
    refine hs.keep hi rfl (fun _ hm => hm) ?_
    exact found_iff.mpr ⟨self, hmachine ▸ hself, rfl⟩
  | tickGone gen k m hph hk hnone => exact hs.put hi rfl rfl (hs.1 m (List.mem_of_getElem? hk)) trivial
  | keepalive gen k m hph hk =>
    obtain ⟨hmachine, d, hd, hord⟩ := hs.1 m (List.mem_of_getElem? hk)
    exact hs.put hi rfl rfl ⟨(push_machine _ _).trans hmachine, d, hd, hord.push_keepalive env.now⟩ trivial
  | tickSent gen k self m hph hk =>
    have hself : Found g c.machine self.identity := by simpa only [HoldsOwn, hph] using hown
    obtain ⟨hmachine, d, hd, hord⟩ := hs.1 m (List.mem_of_getElem? hk)
    -- the node that was looked up is still the machine's
    obtain rfl : d = self.identity := Option.some.inj (hd.symm.trans hself)
    obtain ⟨hshown, hfixed⟩ := buildFullMap_shown self g.world.store.nodes domain env.now
    refine hs.put hi rfl rfl ⟨(push_machine m _).trans hmachine, self.identity, hself, ?_⟩ trivial
    exact hord.push_full hfixed hshown

end Streams

/-! ## 4. Whole runs -/

section Runs

variable {I : Inet} {domain : Bytes} {s s' : Coord} {e : Event}

def AllStreams (s : Coord) : Prop := ∀ c ∈ s.conns, Streams s.shared c

/-- The `i`-th connection starts something. -/
theorem AllStreams.start {i : Nat} {c c' : Conn} (h : AllStreams s) (hget : idleConn s i = some c)
    (hm : c'.machine = c.machine) (hlive : ∀ m' ∈ c'.live, ∃ m ∈ c.live, m'.machine = m.machine ∧ m'.queued = m.queued)
    (hown : HoldsOwn s.shared c') : AllStreams (s.setConn i c') := by
  have hc := h c (List.mem_of_getElem? (idleConn_some hget).1)
  intro d hd
  rcases List.mem_or_eq_of_mem_set hd with hd | rfl
  · exact h d hd
  · refine ⟨fun m' hm' => ?_, hown⟩
    obtain ⟨m, hmem, hmachine, hqueued⟩ := hlive m' hm'
    obtain ⟨hown, d, hd, hord⟩ := hc.1 m hmem
    rw [hm]
    exact ⟨hmachine.trans hown, d, hd, hqueued ▸ hord⟩

/-- A handler leaves the streams alone, or the connection ends. -/
theorem AllStreams.handler {i : Nat} {c c' : Conn} (h : AllStreams s) (hget : idleConn s i = some c)
    (hm : c'.machine = c.machine) (hlive : c'.live = c.live ∨ c'.live = []) (hown : HoldsOwn s.shared c') :
    AllStreams (s.setConn i c') := by
  refine h.start hget hm (fun m hmem => ?_) hown
  rcases hlive with hlive | hlive
  · exact ⟨m, hlive ▸ hmem, rfl, rfl⟩
  · rw [hlive] at hmem
    cases hmem

/-- A stream is closed: it stays in the list, with the maps that are queued on it. -/
theorem mem_closeLive {c : Conn} {k : Nat} {m' : LiveMap} (h : m' ∈ (closeLive c k).live) :
    ∃ m ∈ c.live, m'.machine = m.machine ∧ m'.queued = m.queued := by
  obtain ⟨j, hj⟩ := List.mem_iff_getElem?.mp h
  rw [show (closeLive c k).live = c.live.modify k fun m => { m with isOpen := false } from rfl,
    List.getElem?_modify] at hj
  obtain ⟨m, hm, hj⟩ := Option.map_eq_some_iff.mp hj
  refine ⟨m, List.mem_of_getElem? hm, ?_⟩
  by_cases hkj : k = j
  · rw [if_pos hkj] at hj
    rw [← hj]
    exact ⟨rfl, rfl⟩
  · rw [if_neg hkj] at hj
    rw [← hj]
    exact ⟨rfl, rfl⟩

theorem streams_step (h : AllStreams s) (hs : coordStep I domain s e = some s') : AllStreams s' := by
  cases e with
  | accept machine =>
    cases hs
    intro c hc
    rcases List.mem_append.mp hc with hc | hc
    · exact h c hc
    · rw [List.mem_singleton.mp hc]
      exact ⟨List.forall_mem_nil _, trivial⟩
  | register i body =>
    obtain ⟨c, hc, rfl⟩ := Option.map_eq_some_iff.mp hs
    rcases onRegister_cases c body with ⟨_, hb⟩ | ⟨_, _, _, _, hb⟩ | ⟨_, _, _, _, hb⟩
    · rw [hb]
      exact h.handler hc rfl (.inl rfl) trivial
    · rw [hb]
      exact h.handler hc rfl (.inr rfl) trivial
    · rw [hb]
      exact h.handler hc rfl (.inl rfl) trivial
  | map i sid body =>
    obtain ⟨c, hc, rfl⟩ := Option.map_eq_some_iff.mp hs
    rcases onMap_cases c sid body with ⟨_, hb⟩ | ⟨_, _, _, _, hb⟩ | ⟨_, _, _, _, hb | hb⟩
    · rw [hb]
      exact h.handler hc rfl (.inl rfl) trivial
    · rw [hb]
      exact h.handler hc rfl (.inr rfl) trivial
    · rw [hb]
      exact h.handler hc rfl (.inl rfl) trivial
    · rw [hb]
      exact h.handler hc rfl (.inl rfl) trivial
  | tick i =>
    obtain ⟨c, hc, rfl⟩ := Option.map_eq_some_iff.mp hs
    exact h.handler hc rfl (.inl rfl) trivial
  | run i env =>
    obtain ⟨c, hget, hs⟩ := Option.bind_eq_some_iff.mp hs
    obtain ⟨⟨g, c'⟩, hadv, rfl⟩ := Option.map_eq_some_iff.mp hs
    intro d hd
    rcases List.mem_or_eq_of_mem_set hd with hd | rfl
    · exact (h d hd).mono (advance_effect hadv).grows.1
    · exact advance_streams hadv (h c (List.mem_of_getElem? hget))
  | closeStream i k =>
    obtain ⟨c, hc, rfl⟩ := Option.map_eq_some_iff.mp hs
    refine h.start hc rfl (fun m' hm' => mem_closeLive hm') ?_
    unfold HoldsOwn
    rw [show (closeLive c k).phase = .idle from (idleConn_some hc).2]
    trivial
  | hangup i =>
    obtain ⟨c, hc, rfl⟩ := Option.map_eq_some_iff.mp hs
    exact h.handler hc rfl (.inr rfl) trivial
  | createKey env raw reusable ephemeral expiration token shared =>
    cases hs
    rcases hc : createPreauthKey env.io env.nowUnix raw reusable ephemeral expiration token shared
      s.shared.world with ⟨r, w⟩
    have hi : identities s.shared.world.store <+: identities w.store :=
      grows_of_eq (by rw [(createPreauthKey_cases hc).1]; rfl)
    exact fun c hmem => (h c hmem).mono hi

end Runs

/-- **The maps of a stream never go backwards.** In every run, from any store: all full maps queued on a
    stream are of the node of its own connection's machine, and each shows the peers of every map before it,
    with the same ids and addresses and in the same order, and only then the ones that have come. -/
theorem maps_grow (I : Inet) (domain : Bytes) (store : Store) (file : Option FileText) (es : List Event)
    (s : Coord) (h : Run (Of (coordStep I domain)) (Coord.fresh store file) es s) :
    ∀ c ∈ s.conns, ∀ m ∈ c.live, (∀ map ∈ fullMaps m.queued, map.node.machine = c.machine) ∧
      (fullMaps m.queued).Pairwise fun a b => a.node.fixed = b.node.fixed ∧ a.shown <+: b.shown := by
  have hall : AllStreams s := by
    refine h.inv_state (I := AllStreams) ?_ fun _ _ _ hs hstep => streams_step hs hstep
    exact List.forall_mem_nil _
  intro c hc m hm
  obtain ⟨_, d, hd, hord⟩ := (hall c hc).1 m hm
  have hmachine : d.machineKey = c.machine := by
    have hfind : (identities s.shared.world.store).find? (·.machineKey = c.machine) = some d := hd
    simpa using List.find?_some hfind
  constructor
  · intro map hmap
    have hfixed := congrArg (fun x => x.2.2.1) (hord.self map hmap)
    exact hfixed.trans hmachine
  · refine hord.order.imp_of_mem fun {a b} ha hb hab => ⟨?_, hab⟩
    exact (hord.self a ha).trans (hord.self b hb).symm

/-- A stream is opened, a second machine registers, and the next tick tells the stream. -/
def opensAndTicks : List Event :=
  opensStream ++ .run 0 {} :: joins 1 (ascii "mkey:2") (bytes32 [2]) (ascii "blue") ++
    .tick 0 :: List.replicate 3 (.run 0 {})

theorem maps_grow_tick :
    ∃ s, Run (Of (coordStep .sample (ascii "ts.net"))) sampleCoord opensAndTicks s ∧
      ∃ c ∈ s.conns, ∃ m ∈ c.live, (fullMaps m.queued).map (·.shown.length) = [0, 1] ∧
        (fullMaps m.queued).Pairwise fun a b => a.node.fixed = b.node.fixed ∧ a.shown <+: b.shown := by
  have hexec : (exec (coordStep .sample (ascii "ts.net")) sampleCoord opensAndTicks).any (fun s =>
      s.conns.any fun c => c.live.any fun m => decide ((fullMaps m.queued).map (·.shown.length) = [0, 1])) =
        true := by
    decide +kernel
  obtain ⟨s, hs, hconn⟩ := (Option.any_eq_true _ _).mp hexec
  obtain ⟨c, hc, hlive⟩ := List.any_eq_true.mp hconn
  obtain ⟨m, hm, hlens⟩ := List.any_eq_true.mp hlive
  refine ⟨s, run_of_exec hs, c, hc, m, hm, of_decide_eq_true hlens, ?_⟩
  exact (maps_grow .sample (ascii "ts.net") { path := [], alloc := pool16 } none opensAndTicks s
    (run_of_exec hs) c hc m hm).2

end Wirebone
