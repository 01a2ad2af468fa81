/-
  File:      Wirebone/Coordinator/Admission.lean
  Subject:   WHO IS IN THE REGISTRY, AND WHAT IT SHOWS TO WHOM.

  * `Admitted` -- the invariant of the coordinator: every node has a claim that was granted to its
    machine, and carries its token; a machine has one node; the maps built were built of registry
    nodes;
  * **`node_admitted`** -- no node without a granted claim, no node removed, no identity changed,
    in any interleaving of any connections;
  * `Counted` -- ids are new as long as the id counter does not wrap: there are no more of them
    than register requests;
  * **`groups_isolated`** -- nothing of a node of another group is in any map ever built.
-/
import Wirebone.Coordinator.Effect

namespace Wirebone

open ByteString FirstMatch Lts

/-! ## 1. The invariant -/

/-- A claim of this machine carries the node's group. -/
def Backed (notes : List Note) (d : Identity) : Prop :=
  ∃ claim, .claimed d.machineKey claim ∈ notes ∧ claim.token = d.token ∧ claim.shared = d.shared

/-- A node of this machine carries the claim's group. -/
def Carried (ids : List Identity) (machine : Bytes) (claim : PreauthClaim) : Prop :=
  ∃ d ∈ ids, d.machineKey = machine ∧ d.token = claim.token ∧ d.shared = claim.shared

/-- A map has been built of nodes of the registry. -/
def Drawn (domain : Bytes) (ids : List Identity) (self : NodeState) (nodes : List NodeState)
    (map : FullMap) : Prop :=
  self.identity ∈ ids ∧ (∀ n ∈ nodes, n.identity ∈ ids) ∧ ∃ now, map = buildFullMap self nodes domain now

structure Admitted (domain : Bytes) (s : Coord) : Prop where
  claims : ∀ d ∈ identities s.shared.world.store, Backed s.shared.notes d
  held : ∀ c ∈ s.conns, Held s.shared c
  machines : ((identities s.shared.world.store).map (·.machineKey)).Nodup
  created : ∀ m claim, .created m claim ∈ s.shared.notes →
    Carried (identities s.shared.world.store) m claim
  built : ∀ self nodes map, .built self nodes map ∈ s.shared.notes →
    Drawn domain (identities s.shared.world.store) self nodes map

section Steps

variable {I : Inet} {domain : Bytes} {env : Env} {s s' : Coord} {g : Shared} {c : Conn} {e : Event}

/-- The invariant looks at the registry, the record and what connections hold. -/
theorem Admitted.of_same (h : Admitted domain s)
    (hids : identities s'.shared.world.store = identities s.shared.world.store)
    (hn : s'.shared.notes = s.shared.notes) (hheld : ∀ c ∈ s'.conns, Held s'.shared c) :
    Admitted domain s' := by
  refine ⟨?_, hheld, ?_, ?_, ?_⟩
  · rw [hids, hn]
    exact h.claims
  · rw [hids]
    exact h.machines
  · rw [hids, hn]
    exact h.created
  · rw [hids, hn]
    exact h.built

/-- The connections after one of them has moved on. -/
theorem held_set {i : Nat} {c' : Conn} (h : Admitted domain s)
    (hi : identities s.shared.world.store <+: identities s'.shared.world.store)
    (hn : s.shared.notes <+: s'.shared.notes) (hc : Held s'.shared c')
    (hconns : s'.conns = s.conns.set i c') : ∀ c ∈ s'.conns, Held s'.shared c := by
  intro d hd
  rw [hconns] at hd
  rcases List.mem_or_eq_of_mem_set hd with hd | rfl
  · exact (h.held d hd).mono hi hn
  · exact hc

/-- Old entries of the record keep what they say while the registry grows. -/
theorem Drawn.mono {ids ids' : List Identity} {self : NodeState} {nodes : List NodeState}
    {map : FullMap} (hi : ids <+: ids') (h : Drawn domain ids self nodes map) :
    Drawn domain ids' self nodes map :=
  ⟨hi.subset h.1, fun n hn => hi.subset (h.2.1 n hn), h.2.2⟩

theorem Carried.mono {ids ids' : List Identity} {m : Bytes} {claim : PreauthClaim}
    (hi : ids <+: ids') (h : Carried ids m claim) : Carried ids' m claim := by
  obtain ⟨d, hd, hrest⟩ := h
  exact ⟨d, hi.subset hd, hrest⟩

theorem Backed.mono {notes notes' : List Note} {d : Identity} (hn : notes <+: notes')
    (h : Backed notes d) : Backed notes' d := by
  obtain ⟨claim, hc, hrest⟩ := h
  exact ⟨claim, hn.subset hc, hrest⟩

/-- A new entry of the record is asked for what it says. -/
theorem Admitted.noted {note : Note} (h : Admitted domain s)
    (hids : identities s'.shared.world.store = identities s.shared.world.store)
    (hn : s'.shared.notes = s.shared.notes ++ [note]) (hheld : ∀ c ∈ s'.conns, Held s'.shared c)
    (hcreated : ∀ m claim, .created m claim = note → Carried (identities s.shared.world.store) m claim)
    (hbuilt : ∀ self nodes map, .built self nodes map = note →
      Drawn domain (identities s.shared.world.store) self nodes map) : Admitted domain s' := by
  refine ⟨?_, hheld, ?_, ?_, ?_⟩
  · rw [hids, hn]
    exact fun d hd => (h.claims d hd).mono (List.prefix_append _ _)
  · rw [hids]
    exact h.machines
  · rw [hids, hn]
    intro m claim hm
    rcases List.mem_append.mp hm with hm | hm
    · exact h.created m claim hm
    · exact hcreated m claim (List.mem_singleton.mp hm)
  · rw [hids, hn]
    intro self nodes map hm
    rcases List.mem_append.mp hm with hm | hm
    · exact h.built self nodes map hm
    · exact hbuilt self nodes map (List.mem_singleton.mp hm)

/-- A section of a connection keeps the invariant. -/
theorem admitted_run {i : Nat} {c' : Conn} (h : Admitted domain s) (hget : s.conns[i]? = some c)
    (hadv : advance I domain env s.shared c = some (s'.shared, c'))
    (hconns : s'.conns = s.conns.set i c') : Admitted domain s' := by
  have hc := h.held c (List.mem_of_getElem? hget)
  have heff := advance_effect hadv
  obtain ⟨hi, hn⟩ := heff.grows
  have hheld := held_set h hi hn (advance_held hadv hc).2 hconns
  cases heff with
  | quiet hr hnotes => exact h.of_same hr.identities hnotes hheld
  | claimed r claim hph hr hnotes =>
    refine h.noted hr.identities hnotes hheld (fun m cl hm => ?_) (fun self nodes map hm => ?_)
    · cases hm
    · cases hm
  | built self now hr hself hnotes =>
    have hid : self.identity ∈ identities s.shared.world.store := by
      rcases hself with ⟨sid, r, hph⟩ | ⟨gen, k, hph⟩
      · simpa only [Held, hph] using hc
      · simpa only [Held, hph] using hc
    refine h.noted hr.identities hnotes hheld (fun m cl hm => ?_) (fun self' nodes map hm => ?_)
    · cases hm
    · cases hm
      exact ⟨hid, fun n hn => List.mem_map_of_mem hn, now, rfl⟩
  | counted r claim ep hph hids hcnt hnotes => exact h.of_same hids hnotes hheld
  | created r claim ep d hph hnew hids hd hcnt hnotes =>
    -- the machine is unknown, so its request holds a granted claim
    have hclaim : .claimed c.machine claim ∈ s.shared.notes := by
      have hheld' : Known s.shared c.machine ∨ .claimed c.machine claim ∈ s.shared.notes := by
        simpa only [Held, hph] using hc
      rcases hheld' with ⟨d', hd', hm⟩ | hcl
      · exact absurd hm (hnew d' hd')
      · exact hcl
    refine ⟨?_, hheld, ?_, ?_, ?_⟩
    · intro d' hd'
      rw [hids] at hd'
      rcases List.mem_append.mp hd' with hd' | hd'
      · exact (h.claims d' hd').mono hn
      · rw [List.mem_singleton.mp hd']
        exact ⟨claim, hd.1 ▸ hn.subset hclaim, hd.2.2.1.symm, hd.2.2.2.symm⟩
    · rw [hids, List.map_append, List.map_singleton]
      refine List.nodup_append.mpr ⟨h.machines, List.nodup_singleton _, ?_⟩
      intro a ha b hb
      obtain ⟨d', hd', rfl⟩ := List.mem_map.mp ha
      rw [List.mem_singleton.mp hb, hd.1]
      exact hnew d' hd'
    · intro m cl hm
      rw [hnotes] at hm
      rcases List.mem_append.mp hm with hm | hm
      · exact (h.created m cl hm).mono hi
      · cases List.mem_singleton.mp hm
        refine ⟨d, ?_, hd.1, hd.2.2.1, hd.2.2.2⟩
        rw [hids]
        exact List.mem_append_right _ (List.mem_singleton.mpr rfl)
    · intro self nodes map hm
      rw [hnotes] at hm
      rcases List.mem_append.mp hm with hm | hm
      · exact (h.built self nodes map hm).mono hi
      · cases List.mem_singleton.mp hm

/-- **Every step keeps the invariant.** -/
theorem admitted_step (h : Admitted domain s) (hs : coordStep I domain s e = some s') :
    Admitted domain s' := by
  rcases coordStep_cases hs with ⟨i, env, c, c', _, hget, hadv, hconns⟩ | ⟨i, hst⟩ |
    ⟨m, hconns, hsh⟩ | ⟨hconns, _, hn, keys, hstore⟩
  · exact admitted_run h hget hadv hconns
  · obtain ⟨c, c', _, _, hconns, _, hfree, _⟩ := hst.step
    refine h.of_same (by rw [hst.shared]) (by rw [hst.shared]) ?_
    exact held_set h (grows_of_eq (by rw [hst.shared])) (grows_of_eq (by rw [hst.shared])) (hfree _)
      hconns
  · refine h.of_same (by rw [hsh]) (by rw [hsh]) ?_
    intro c hc
    rw [hconns] at hc
    rw [hsh]
    rcases List.mem_append.mp hc with hc | hc
    · exact h.held c hc
    · rw [List.mem_singleton.mp hc]
      trivial
  · have hids : identities s'.shared.world.store = identities s.shared.world.store := by
      rw [hstore]
      rfl
    refine h.of_same hids hn ?_
    intro c hc
    rw [hconns] at hc
    exact (h.held c hc).mono (grows_of_eq hids) (grows_of_eq hn)

/-- No step takes an identity away. -/
theorem coordStep_grows (hs : coordStep I domain s e = some s') :
    identities s.shared.world.store <+: identities s'.shared.world.store := by
  rcases coordStep_cases hs with ⟨i, env, c, c', _, _, hadv, _⟩ | ⟨i, hst⟩ | ⟨m, _, hsh⟩ |
    ⟨_, _, _, keys, hstore⟩
  · exact (advance_effect hadv).grows.1
  · exact grows_of_eq (by rw [hst.shared])
  · exact grows_of_eq (by rw [hsh])
  · exact grows_of_eq (by rw [hstore]; rfl)

end Steps

/-! ## 2. Admission and identity -/

theorem admitted_fresh (domain : Bytes) (s : Store) (file : Option FileText) (h : s.nodes = []) :
    Admitted domain (Coord.fresh s file) := by
  have hids : identities s = [] := by rw [identities, h]; rfl
  refine ⟨?_, ?_, ?_, ?_, ?_⟩
  · intro d hd
    rw [show identities (Coord.fresh s file).shared.world.store = [] from hids] at hd
    cases hd
  · intro c hc
    cases hc
  · rw [show identities (Coord.fresh s file).shared.world.store = [] from hids]
    exact List.nodup_nil
  · intro m claim hm
    cases hm
  · intro self nodes map hm
    cases hm

/-- **Admission and identity.** In every run from an empty store: every node has a claim that an
    earlier `consume_preauth` on a connection of its machine returned, with its token and shared
    flag; and however the run goes on, every node stays at its place in the list with its id,
    stable id, machine key, addresses, token and shared flag. -/
theorem node_admitted (I : Inet) (domain path : Bytes) (alloc : IpAllocator) (noise : Bytes32)
    (hooked : Bool) (file : Option FileText) (es : List Event) (s : Coord)
    (h : Run (Of (coordStep I domain))
      (Coord.fresh { path, alloc, noisePrivate := noise, hooked } file) es s) :
    (∀ n ∈ s.shared.world.store.nodes, ∃ claim, .claimed n.machineKey claim ∈ s.shared.notes ∧
      claim.token = n.token ∧ claim.shared = n.shared) ∧
    ∀ es' s', Run (Of (coordStep I domain)) s es' s' →
      identities s.shared.world.store <+: identities s'.shared.world.store := by
  have hinv : Admitted domain s := by
    refine h.inv_state (I := Admitted domain) (admitted_fresh _ _ _ rfl) ?_
    intro s e s' hs hstep
    exact admitted_step hs hstep
  refine ⟨fun n hn => hinv.claims n.identity (List.mem_map_of_mem hn), ?_⟩
  intro es' s' h'
  refine h'.rel (r := fun s s' => identities s.shared.world.store <+: identities s'.shared.world.store)
    (fun _ => List.prefix_rfl) (fun _ _ _ => List.IsPrefix.trans) ?_
  intro s e s' hs
  exact coordStep_grows hs

/-! ### A concrete run -/

theorem node_admitted_sample :
    ∃ s, Run (Of (coordStep .sample (ascii "ts.net")))
        (Coord.fresh { path := [], alloc := pool16 } none)
        (joins 0 (ascii "mkey:1") (bytes32 [1]) (ascii "blue")) s ∧
      s.shared.world.store.nodes.map (·.machineKey) = [ascii "mkey:1"] ∧
      ∀ n ∈ s.shared.world.store.nodes, ∃ claim, .claimed n.machineKey claim ∈ s.shared.notes ∧
        claim.token = n.token ∧ claim.shared = n.shared := by
  have hexec : (exec (coordStep .sample (ascii "ts.net"))
      (Coord.fresh { path := [], alloc := pool16 } none)
      (joins 0 (ascii "mkey:1") (bytes32 [1]) (ascii "blue"))).map
        (fun s => s.shared.world.store.nodes.map (·.machineKey)) = some [ascii "mkey:1"] := by
    decide +kernel
  obtain ⟨s, hs, hkeys⟩ := Option.map_eq_some_iff.mp hexec
  refine ⟨s, run_of_exec hs, hkeys, ?_⟩
  exact (node_admitted .sample (ascii "ts.net") [] pool16 zero32 false none _ s (run_of_exec hs)).1

/-! ## 3. Ids are new -/

/-- **The ids**: `made` of them have been given out, 1 to `made`, to at most as many requests. -/
structure Counted (requests made : Nat) (s : Coord) : Prop where
  counter : s.shared.world.store.nextNodeId = UInt64.ofNat (1 + made)
  range : ∀ d ∈ identities s.shared.world.store, 1 ≤ d.id.toNat ∧ d.id.toNat ≤ made
  ids : ((identities s.shared.world.store).map (·.id)).Nodup
  bound : made + s.conns.countP registering ≤ requests

section Count

variable {I : Inet} {domain : Bytes} {env : Env} {s s' : Coord} {g g' : Shared} {c c' : Conn}

theorem countP_set_le {l : List Conn} {i : Nat} (c' : Conn) (hget : l[i]? = some c) :
    (l.set i c').countP registering + (if registering c then 1 else 0) =
      l.countP registering + (if registering c' then 1 else 0) := by
  obtain ⟨hlt, rfl⟩ := List.getElem?_eq_some_iff.mp hget
  have hpos : registering l[i] = true → 0 < l.countP registering :=
    fun h => List.countP_pos_iff.mpr ⟨_, List.getElem_mem hlt, h⟩
  rw [List.countP_set hlt]
  by_cases hr : registering l[i] = true
  · have := hpos hr
    rw [if_pos hr]
    omega
  · rw [if_neg hr]
    omega

/-- Only a register request starts a registration, and `register_node` ends it. -/
theorem advance_registering (h : advance I domain env g c = some (g', c'))
    (hc : registering c' = true) : registering c = true ∧ ∀ r claim e, c.phase ≠ .regNode r claim e := by
  cases advance_branch h with
  | regKnown _ _ hph | regDenied _ hph | regAuth _ hph | regRead _ hph | regNoImage _ hph
  | regBroken _ _ _ _ hph | regInstalled _ _ _ _ hph | checkThrew _ _ _ hph | refused _ _ hph
  | granted _ _ _ hph =>
    refine ⟨by simp only [registering, hph], fun r claim e hne => ?_⟩
    rw [hph] at hne
    cases hne
  | nodeThrew | nodeMade | regBump | updateThrew | updated | mapBump | onlineOnly | online
  | unauthorized | found | encodeThrew | oneShot | streamed | mapLive | tickEnd | tickFound | tickGone
  | keepaliveThrew | keepalive | tickSkip | tickThrew | tickLost | tickSent | byeOnline | byeBump => cases hc

/-- The requests after an event. -/
def requestsAfter (n : Nat) (e : Event) : Nat := n + if isRegister e then 1 else 0

theorem counted_same {n made : Nat} {e : Event} (h : Counted n made s)
    (hr : SameRegistry s.shared s'.shared)
    (hconns : s'.conns.countP registering ≤ s.conns.countP registering + if isRegister e then 1 else 0) :
    Counted (requestsAfter n e) made s' := by
  refine ⟨hr.counter.trans h.counter, ?_, ?_, ?_⟩
  · rw [hr.identities]
    exact h.range
  · rw [hr.identities]
    exact h.ids
  · have := h.bound
    unfold requestsAfter
    omega

/-- A registration that has reached `register_node` has given out an id. -/
theorem counted_run {n made i : Nat} {e : Event} (h : Counted n made s) (hn : n < 2 ^ 64)
    (he : isRegister e = false) (hget : s.conns[i]? = some c)
    (hadv : advance I domain env s.shared c = some (s'.shared, c'))
    (hconns : s'.conns = s.conns.set i c') : ∃ made', Counted (requestsAfter n e) made' s' := by
  have hset := countP_set_le c' hget
  rw [← hconns] at hset
  have hreg := advance_registering hadv
  have hreq : requestsAfter n e = n := by rw [requestsAfter, he]; rfl
  have hb := h.bound
  -- a section other than `register_node`
  have hsame : SameRegistry s.shared s'.shared → ∃ made', Counted (requestsAfter n e) made' s' := by
    intro hr
    refine ⟨made, counted_same h hr ?_⟩
    by_cases hc' : registering c' = true
    · rw [if_pos hc', if_pos (hreg hc').1] at hset
      omega
    · rw [if_neg hc'] at hset
      omega
  -- `register_node`: the registration is over
  have hover : ∀ r claim ep, c.phase = .regNode r claim ep →
      s'.conns.countP registering + 1 = s.conns.countP registering := by
    intro r claim ep hph
    have hc : registering c = true := by simp only [registering, hph]
    have hc' : ¬ registering c' = true := fun hc' => (hreg hc').2 r claim ep hph
    rw [if_pos hc, if_neg hc'] at hset
    omega
  cases advance_effect hadv with
  | quiet hr hnotes => exact hsame hr
  | claimed r claim _ hr hnotes => exact hsame hr
  | built self now hr _ hnotes => exact hsame hr
  | counted r claim ep hph hids hcnt hnotes =>
    have := hover r claim ep hph
    refine ⟨made + 1, ?_, ?_, ?_, by omega⟩
    · rw [hcnt, h.counter]
      exact (UInt64.ofNat_add (1 + made) 1).symm
    · rw [hids]
      intro d hd
      obtain ⟨h1, h2⟩ := h.range d hd
      exact ⟨h1, by omega⟩
    · rw [hids]
      exact h.ids
  | created r claim ep d hph hnew hids hd hcnt hnotes =>
    have := hover r claim ep hph
    have hid : d.id.toNat = 1 + made := by
      rw [hd.2.1, h.counter, UInt64.toNat_ofNat_of_lt']
      simp only [UInt64.size]
      omega
    refine ⟨made + 1, ?_, ?_, ?_, by omega⟩
    · rw [hcnt, h.counter]
      exact (UInt64.ofNat_add (1 + made) 1).symm
    · intro d' hd'
      rw [hids] at hd'
      rcases List.mem_append.mp hd' with hd' | hd'
      · obtain ⟨h1, h2⟩ := h.range d' hd'
        exact ⟨h1, by omega⟩
      · rw [List.mem_singleton.mp hd', hid]
        omega
    · rw [hids, List.map_append, List.map_singleton]
      refine List.nodup_append.mpr ⟨h.ids, List.nodup_singleton _, ?_⟩
      intro a ha b hb' hab
      obtain ⟨d', hd', rfl⟩ := List.mem_map.mp ha
      have h2 := (h.range d' hd').2
      rw [List.mem_singleton.mp hb'] at hab
      rw [hab, hid] at h2
      omega

theorem counted_step {n made : Nat} {e : Event} (h : Counted n made s)
    (hn : requestsAfter n e < 2 ^ 64) (hs : coordStep I domain s e = some s') :
    ∃ made', Counted (requestsAfter n e) made' s' := by
  rcases coordStep_cases hs with ⟨i, env, c, c', rfl, hget, hadv, hconns⟩ | ⟨i, hst⟩ |
    ⟨m, hconns, hsh⟩ | ⟨hconns, _, _, keys, hstore⟩
  · exact counted_run h hn rfl hget hadv hconns
  · obtain ⟨c, c', hget, hidle, hconns, _, _, hreg⟩ := hst.step
    refine ⟨made, counted_same h ⟨by rw [hst.shared], by rw [hst.shared]⟩ ?_⟩
    have hset := countP_set_le c' hget
    rw [← hconns] at hset
    have hc : registering c = false := by simp only [registering, hidle]
    rw [hc] at hset
    by_cases hc' : registering c' = true
    · rw [if_pos hc'] at hset
      rw [if_pos (hreg hc')]
      simp only [Bool.false_eq_true, if_false] at hset
      omega
    · rw [if_neg hc'] at hset
      simp only [Bool.false_eq_true, if_false] at hset
      omega
  · refine ⟨made, counted_same h ⟨by rw [hsh], by rw [hsh]⟩ ?_⟩
    rw [hconns, List.countP_append]
    simp [registering]
  · refine ⟨made, counted_same h ⟨?_, by rw [hstore]⟩ ?_⟩
    · rw [hstore]
      rfl
    · rw [hconns]
      omega

end Count

/-! ## 4. Isolation of groups -/

section Isolation

variable {domain : Bytes} {s : Coord}

/-- Two nodes of the registry with one machine key are one. -/
theorem identity_unique (h : Admitted domain s) {d d' : Identity}
    (hd : d ∈ identities s.shared.world.store) (hd' : d' ∈ identities s.shared.world.store)
    (hm : d.machineKey = d'.machineKey) : d = d' :=
  List.inj_on_of_nodup_map h.machines hd hd' hm

/-- A node of another group is not visible. -/
theorem hidden_of_groups {n made : Nat} (h : Admitted domain s) (hcount : Counted n made s)
    {A B : Bytes} {ca cb : PreauthClaim} (hA : .created A ca ∈ s.shared.notes)
    (hB : .created B cb ∈ s.shared.notes) (hsa : ca.shared = false) (hsb : cb.shared = false)
    (hne : ca.token ≠ cb.token) {self peer : NodeState}
    (hself : self.identity ∈ identities s.shared.world.store)
    (hpeer : peer.identity ∈ identities s.shared.world.store) (ha : self.machineKey = A)
    (hb : peer.machineKey = B) : nodeVisibleTo self peer = false := by
  obtain ⟨da, hda, hma, hta, hsha⟩ := h.created A ca hA
  obtain ⟨db, hdb, hmb, htb, hshb⟩ := h.created B cb hB
  obtain rfl := identity_unique h hself hda (ha.trans hma.symm)
  obtain rfl := identity_unique h hpeer hdb (hb.trans hmb.symm)
  have htoken : self.token ≠ peer.token := by
    intro heq
    exact hne (hta.symm.trans (heq.trans htb))
  have hid : self.id ≠ peer.id := by
    intro heq
    have hsame := List.inj_on_of_nodup_map hcount.ids hself hpeer heq
    exact htoken (congrArg Identity.token hsame)
  have h1 : self.shared = false := hsha.trans hsa
  have h2 : peer.shared = false := hshb.trans hsb
  rw [nodeVisibleTo, if_neg hid, h1, h2]
  simpa using htoken

end Isolation

/-- **Mesh-group isolation.** In every run from an empty store with fewer than `2 ^ 64` register
    requests: where the node of machine `A` and the node of machine `B` were created with claims
    of different tokens, neither shared, every map ever built for `A` is the map over the nodes
    without those of `B`. -/
theorem groups_isolated (I : Inet) (domain path : Bytes) (alloc : IpAllocator) (noise : Bytes32)
    (hooked : Bool) (file : Option FileText) (es : List Event) (s : Coord)
    (h : Run (Of (coordStep I domain))
      (Coord.fresh { path, alloc, noisePrivate := noise, hooked } file) es s)
    (hreq : es.countP isRegister < 2 ^ 64) (A B : Bytes) (ca cb : PreauthClaim)
    (hA : .created A ca ∈ s.shared.notes) (hB : .created B cb ∈ s.shared.notes)
    (hsa : ca.shared = false) (hsb : cb.shared = false) (hne : ca.token ≠ cb.token)
    (self : NodeState) (nodes : List NodeState) (map : FullMap)
    (hbuilt : .built self nodes map ∈ s.shared.notes) (hself : self.machineKey = A) :
    ∃ now, map = buildFullMap self nodes domain now ∧
      map = buildFullMap self (nodes.filter fun n => n.machineKey ≠ B) domain now := by
  have hinv : Admitted domain s := by
    refine h.inv_state (I := Admitted domain) (admitted_fresh _ _ _ rfl) ?_
    intro s e s' hs hstep
    exact admitted_step hs hstep
  have hcount : ∃ made, Counted (es.countP isRegister) made s := by
    refine h.inv (I := fun es s => es.countP isRegister < 2 ^ 64 →
      ∃ made, Counted (es.countP isRegister) made s) ?_ ?_ hreq
    · intro _
      refine ⟨0, rfl, ?_, List.nodup_nil, Nat.le_refl 0⟩
      intro d hd
      cases hd
    · intro es s e s' ih hstep hlt
      have hcp : (es ++ [e]).countP isRegister = requestsAfter (es.countP isRegister) e := by
        rw [List.countP_append, List.countP_singleton, requestsAfter]
      rw [hcp] at hlt ⊢
      obtain ⟨made, hmade⟩ := ih (by unfold requestsAfter at hlt; omega)
      exact counted_step hmade hlt hstep
  obtain ⟨made, hcount⟩ := hcount
  obtain ⟨hid, hnodes, now, rfl⟩ := hinv.built self nodes map hbuilt
  refine ⟨now, rfl, buildFullMap_filter ?_⟩
  intro n hn hkeep
  have hb : n.machineKey = B := by simpa using hkeep
  exact hidden_of_groups hinv hcount hA hB hsa hsb hne hid (hnodes n hn) hself hb

/-! ### A concrete run -/

/-- Two machines join with keys of different groups; the first then asks for its map. -/
def strangers : List Event :=
  joins 0 (ascii "mkey:1") (bytes32 [1]) (ascii "blue") ++
    joins 1 (ascii "mkey:2") (bytes32 [2]) (ascii "red") ++
    .map 0 1 (some (.obj [])) :: List.replicate 5 (.run 0 {})

/-- A note that grants the node of `machine` the group `token`, unshared. -/
def Note.grants (machine token : Bytes) : Note → Bool
  | .created m claim => m == machine && claim.token == token && !claim.shared
  | _ => false

/-- A note of a map built for `machine`. -/
def Note.builtFor (machine : Bytes) : Note → Bool
  | .built self _ _ => self.machineKey == machine
  | _ => false

theorem exists_created {notes : List Note} {m token : Bytes} (h : notes.any (Note.grants m token) = true) :
    ∃ claim, .created m claim ∈ notes ∧ claim.token = token ∧ claim.shared = false := by
  obtain ⟨n, hn, hg⟩ := List.any_eq_true.mp h
  cases n with
  | created m' claim =>
    obtain ⟨⟨hm, ht⟩, hs⟩ : (m' = m ∧ claim.token = token) ∧ claim.shared = false := by
      simpa [Note.grants] using hg
    exact ⟨claim, hm ▸ hn, ht, hs⟩
  | claimed _ _ => cases hg
  | built _ _ _ => cases hg

theorem exists_built {notes : List Note} {m : Bytes} (h : notes.any (Note.builtFor m) = true) :
    ∃ self nodes map, .built self nodes map ∈ notes ∧ self.machineKey = m := by
  obtain ⟨n, hn, hg⟩ := List.any_eq_true.mp h
  cases n with
  | built self nodes map => exact ⟨self, nodes, map, hn, by simpa [Note.builtFor] using hg⟩
  | claimed _ _ => cases hg
  | created _ _ => cases hg

theorem groups_isolated_strangers :
    ∃ s self nodes map, Run (Of (coordStep .sample (ascii "ts.net")))
        (Coord.fresh { path := [], alloc := pool16 } none) strangers s ∧
      .built self nodes map ∈ s.shared.notes ∧ self.machineKey = ascii "mkey:1" ∧
      ∃ now, map = buildFullMap self nodes (ascii "ts.net") now ∧
        map = buildFullMap self (nodes.filter fun n => n.machineKey ≠ ascii "mkey:2")
          (ascii "ts.net") now := by
  have hexec : (exec (coordStep .sample (ascii "ts.net"))
      (Coord.fresh { path := [], alloc := pool16 } none) strangers).map
        (fun s => (s.shared.notes.any (Note.grants (ascii "mkey:1") (ascii "blue")),
          s.shared.notes.any (Note.grants (ascii "mkey:2") (ascii "red")),
          s.shared.notes.any (Note.builtFor (ascii "mkey:1")))) = some (true, true, true) := by
    decide +kernel
  obtain ⟨s, hs, hnotes⟩ := Option.map_eq_some_iff.mp hexec
  simp only [Prod.mk.injEq] at hnotes
  obtain ⟨ca, hA, hta, hsa⟩ := exists_created hnotes.1
  obtain ⟨cb, hB, htb, hsb⟩ := exists_created hnotes.2.1
  obtain ⟨self, nodes, map, hbuilt, hself⟩ := exists_built hnotes.2.2
  have hne : ca.token ≠ cb.token := by
    rw [hta, htb]
    decide
  refine ⟨s, self, nodes, map, run_of_exec hs, hbuilt, hself, ?_⟩
  exact groups_isolated .sample (ascii "ts.net") [] pool16 zero32 false none _ s (run_of_exec hs)
    (by decide) _ _ ca cb hA hB hsa hsb hne self nodes map hbuilt hself

end Wirebone
