/-
  File:      Wirebone/Store/Registry.lean
  Subject:   NO TWO NODES SHARE A KEY, AN ID OR AN ADDRESS, as long as a 32-bit counter holds.

  Nothing in the code compares a new node with the others: an id and an address are new because
  two counters are. `next_ip_index_` has 32 bits and goes up with every new machine, also where
  the pool has no address left for it.

  * `Identity` -- the fields of a node that no operation ever writes again;
  * `Numbered` -- the invariant: every node is the one of its index, below `next_ip_index_`, and
    `next_node_id_` keeps pace with `next_ip_index_` (after a load, from `2 ^ 31` on, as a negative
    number);
  * **`registry_distinct`** -- the invariant gives the five kinds of distinctness, in every run in
    which the index does not wrap;
  * **`registry_wraps`** -- a run of `2 ^ 32 + 1` registrations that gives two nodes one address.
-/
import Mathlib.Data.List.Nodup
import Wirebone.Store.Machine

namespace Wirebone

open ByteString FirstMatch Lts

/-! ## 1. What identifies a node -/

structure Identity where
  id : UInt64
  stableId : Bytes
  machineKey : Bytes
  ipv4 : Bytes
  ipv6 : Bytes
  token : Bytes
  shared : Bool
  deriving DecidableEq

def NodeState.identity (n : NodeState) : Identity :=
  { id := n.id, stableId := n.stableId, machineKey := n.machineKey, ipv4 := n.ipv4, ipv6 := n.ipv6,
    token := n.token, shared := n.shared }

def identities (s : Store) : List Identity := s.nodes.map (·.identity)

/-- An update that keeps the identity of the node it is applied to. -/
theorem identities_updateNode {f : NodeState → NodeState} (h : ∀ n, (f n).identity = n.identity)
    (machineKey : Bytes) (nodes : List NodeState) :
    (updateNode machineKey f nodes).map (·.identity) = nodes.map (·.identity) :=
  modifyFirst_map h nodes

theorem reregistered_identity (nodeKey hostname : Bytes) (ephemeral : Bool) (n : NodeState) :
    (reregistered nodeKey hostname ephemeral n).identity = n.identity := rfl

theorem mapUpdated_identity (nodeKey discoKey hostname : Bytes) (endpoints : List Bytes)
    (n : NodeState) : (mapUpdated nodeKey discoKey hostname endpoints n).identity = n.identity := rfl

theorem identities_setOnline (m : Bytes) (online : Bool) (s : Store) :
    identities (setOnline m online s) = identities s :=
  identities_updateNode (f := fun n => { n with online }) (fun _ => rfl) m s.nodes

theorem found_key {s : Store} {m : Bytes} {n : NodeState} (h : findByMachine s m = some n) :
    n.machineKey = m := by
  have hp := List.find?_some h
  simpa using hp

theorem findByMachine_none {s : Store} {m : Bytes} (h : findByMachine s m = none) :
    ∀ i ∈ identities s, i.machineKey ≠ m := by
  intro i hi
  obtain ⟨n, hn, rfl⟩ := List.mem_map.mp hi
  have hne := List.find?_eq_none.mp h n hn
  show n.machineKey ≠ m
  simpa using hne

/-! ## 2. The invariant -/

/-- The identity is the one of index `i`. -/
def Identity.At (I : Inet) (alloc : IpAllocator) (i : UInt32) (d : Identity) : Prop :=
  d.id.toNat = i.toNat ∧ d.stableId = decimal i.toNat ∧ addressFor I alloc i = .ok (d.ipv4, d.ipv6)

/-- `next_node_id_` and `next_ip_index_` go together. -/
def InStep (id : UInt64) (index : UInt32) : Prop :=
  id.toNat = index.toNat ∨ (2 ^ 31 ≤ index.toNat ∧ id.toNat = 2 ^ 64 - 2 ^ 32 + index.toNat)

structure Numbered (I : Inet) (alloc : IpAllocator) (s : Store) : Prop where
  pool : s.alloc = alloc
  counters : InStep s.nextNodeId s.nextIpIndex
  indexed : ∀ d ∈ identities s, ∃ i : UInt32, d.At I alloc i ∧ i.toNat < s.nextIpIndex.toNat
  ids : ((identities s).map (·.id)).Nodup
  machines : ((identities s).map (·.machineKey)).Nodup

section Invariant

variable {I : Inet} {alloc : IpAllocator} {s t : Store}

/-- The invariant sees the identities and the counters only. -/
theorem Numbered.congr (h : Numbered I alloc s) (ha : t.alloc = s.alloc)
    (hid : t.nextNodeId = s.nextNodeId) (hip : t.nextIpIndex = s.nextIpIndex)
    (hn : identities t = identities s) : Numbered I alloc t := by
  refine ⟨ha.trans h.pool, ?_, ?_, ?_, ?_⟩
  · rw [hid, hip]
    exact h.counters
  · rw [hn, hip]
    exact h.indexed
  · rw [hn]
    exact h.ids
  · rw [hn]
    exact h.machines

theorem InStep.succ {id : UInt64} {index : UInt32} (h : InStep id index)
    (hw : index.toNat ≠ 2 ^ 32 - 1) : InStep (id + 1) (index + 1) ∧
      (index + 1).toNat = index.toNat + 1 := by
  have hi := index.toNat_lt
  have hidx : (index + 1).toNat = index.toNat + 1 := by
    rw [UInt32.toNat_add]
    exact Nat.mod_eq_of_lt (by have : (1 : UInt32).toNat = 1 := rfl; omega)
  refine ⟨?_, hidx⟩
  have h1 : (1 : UInt64).toNat = 1 := rfl
  unfold InStep
  rw [hidx, UInt64.toNat_add, h1]
  rcases h with h | ⟨h, h'⟩
  · left
    omega
  · right
    omega

/-- A failed registration moves the counters only. -/
theorem numbered_counted (h : Numbered I alloc s) (hw : s.nextIpIndex.toNat ≠ 2 ^ 32 - 1) :
    Numbered I alloc (counted s) := by
  obtain ⟨hstep, hidx⟩ := h.counters.succ hw
  refine ⟨h.pool, hstep, ?_, h.ids, h.machines⟩
  intro d hd
  obtain ⟨i, hat, hlt⟩ := h.indexed d hd
  refine ⟨i, hat, ?_⟩
  show i.toNat < (s.nextIpIndex + 1).toNat
  omega

/-- A new node takes the next index. -/
theorem numbered_append (h : Numbered I alloc s) (hhosts : alloc.ipv4Hosts.toNat < 2 ^ 31)
    {machineKey nodeKey hostname token : Bytes} {ephemeral shared : Bool} {ips : Bytes × Bytes}
    (hnew : findByMachine s machineKey = none) (haddr : addressFor I s.alloc s.nextIpIndex = .ok ips) :
    Numbered I alloc { counted s with nodes := s.nodes ++
      [newNode s.nextNodeId machineKey nodeKey hostname ephemeral token shared ips] } := by
  rw [h.pool] at haddr
  have hle : s.nextIpIndex.toNat < 2 ^ 31 := by
    have := UInt32.le_iff_toNat_le.mp (addressFor_ok.mp haddr).1.2
    omega
  have hid : s.nextNodeId.toNat = s.nextIpIndex.toNat := by
    rcases h.counters with hc | ⟨hc, _⟩
    · exact hc
    · omega
  obtain ⟨hstep, hidx⟩ := h.counters.succ (by omega)
  generalize hn : newNode s.nextNodeId machineKey nodeKey hostname ephemeral token shared ips = n
  have hnid : n.identity.id = s.nextNodeId := by rw [← hn]; rfl
  have hnm : n.identity.machineKey = machineKey := by rw [← hn]; rfl
  have hat : n.identity.At I alloc s.nextIpIndex := by
    rw [← hn]
    refine ⟨hid, ?_, haddr⟩
    show decimal s.nextNodeId.toNat = _
    rw [hid]
  have hids : identities { counted s with nodes := s.nodes ++ [n] } = identities s ++ [n.identity] := by
    simp [identities]
  refine ⟨h.pool, hstep, ?_, ?_, ?_⟩
  · intro d hd
    rw [hids] at hd
    show ∃ i : UInt32, d.At I alloc i ∧ i.toNat < (s.nextIpIndex + 1).toNat
    rw [hidx]
    rcases List.mem_append.mp hd with hd | hd
    · obtain ⟨i, hi, hlt⟩ := h.indexed d hd
      exact ⟨i, hi, by omega⟩
    · rw [List.mem_singleton.mp hd]
      exact ⟨s.nextIpIndex, hat, by omega⟩
  · rw [hids, List.map_append, List.map_singleton]
    refine List.nodup_append.mpr ⟨h.ids, List.nodup_singleton _, ?_⟩
    intro a ha b hb
    obtain ⟨d, hd, rfl⟩ := List.mem_map.mp ha
    obtain ⟨i, hi, hlt⟩ := h.indexed d hd
    rw [List.mem_singleton.mp hb, hnid]
    intro heq
    have := hi.1
    rw [heq] at this
    omega
  · rw [hids, List.map_append, List.map_singleton]
    refine List.nodup_append.mpr ⟨h.machines, List.nodup_singleton _, ?_⟩
    intro a ha b hb
    obtain ⟨d, hd, rfl⟩ := List.mem_map.mp ha
    rw [List.mem_singleton.mp hb, hnm]
    exact findByMachine_none hnew d hd

end Invariant

/-! ## 3. Loading a dump -/

theorem toInt32_eq (n : Nat) :
    Json.toInt32 n = if n % 2 ^ 32 < 2 ^ 31 then ((n % 2 ^ 32 : Nat) : Int)
      else ((n % 2 ^ 32 : Nat) : Int) - 2 ^ 32 := by
  rw [Json.toInt32, Int.bmod_eq_emod]
  by_cases h : n % 2 ^ 32 < 2 ^ 31
  · rw [if_pos h, if_neg (by omega)]
    omega
  · rw [if_neg h, if_pos (by omega)]
    omega

theorem cutId_toNat (id : UInt64) :
    (cutId id).toNat = if id.toNat % 2 ^ 32 < 2 ^ 31 then id.toNat % 2 ^ 32
      else 2 ^ 64 - 2 ^ 32 + id.toNat % 2 ^ 32 := by
  have hlt := id.toNat_lt
  rw [cutId, toInt32_eq, UInt64.ofInt]
  by_cases h : id.toNat % 2 ^ 32 < 2 ^ 31
  · rw [if_pos h, if_pos h, UInt64.toNat_ofNat_of_lt' (by simp only [UInt64.size]; omega)]
    omega
  · rw [if_neg h, if_neg h, UInt64.toNat_ofNat_of_lt' (by simp only [UInt64.size]; omega)]
    omega

theorem cutIndex_eq (index : UInt32) : cutIndex index = index := by
  have hlt := index.toNat_lt
  refine UInt32.toNat_inj.mp ?_
  rw [cutIndex, toInt32_eq, UInt32.ofInt]
  by_cases h : index.toNat % 2 ^ 32 < 2 ^ 31
  · rw [if_pos h, UInt32.toNat_ofNat_of_lt' (by simp only [UInt32.size]; omega)]
    omega
  · rw [if_neg h, UInt32.toNat_ofNat_of_lt' (by simp only [UInt32.size]; omega)]
    omega

theorem InStep.cut {id : UInt64} {index : UInt32} (h : InStep id index) :
    InStep (cutId id) (cutIndex index) := by
  have hlt := index.toNat_lt
  have hmod : id.toNat % 2 ^ 32 = index.toNat := by
    rcases h with h | ⟨_, h⟩
    · omega
    · omega
  unfold InStep
  rw [cutIndex_eq, cutId_toNat, hmod]
  by_cases hs : index.toNat < 2 ^ 31
  · rw [if_pos hs]
    exact .inl rfl
  · rw [if_neg hs]
    exact .inr ⟨by omega, rfl⟩

section Steps

variable {I : Inet} {alloc : IpAllocator} {s t : Store} {p p' : Proc}

/-- Nodes have small ids, so a load gives their identities back. -/
theorem identities_reloaded (h : Numbered I alloc t) (hhosts : alloc.ipv4Hosts.toNat < 2 ^ 31) :
    identities (reloaded t s) = identities t := by
  have hcut : ∀ n ∈ t.nodes, (cutNode n).identity = n.identity := by
    intro n hn
    obtain ⟨i, hat, _⟩ := h.indexed n.identity (List.mem_map_of_mem hn)
    have hle := UInt32.le_iff_toNat_le.mp (addressFor_ok.mp hat.2.2).1.2
    have hid : n.id.toNat = i.toNat := hat.1
    have hcutId : cutId n.id = n.id := by
      refine UInt64.toNat_inj.mp ?_
      rw [cutId_toNat, if_pos (by omega)]
      omega
    rw [cutNode, hcutId]
  show (t.nodes.map cutNode).map (·.identity) = _
  rw [List.map_map]
  exact List.map_congr_left hcut

theorem numbered_reloaded (h : Numbered I alloc t) (hhosts : alloc.ipv4Hosts.toNat < 2 ^ 31)
    (ha : s.alloc = alloc) : Numbered I alloc (reloaded t s) := by
  have hids := identities_reloaded (s := s) h hhosts
  refine ⟨ha, h.counters.cut, ?_, ?_, ?_⟩
  · rw [hids]
    show ∀ d ∈ identities t, ∃ i : UInt32, d.At I alloc i ∧ i.toNat < (cutIndex t.nextIpIndex).toNat
    rw [cutIndex_eq]
    exact h.indexed
  · rw [hids]
    exact h.ids
  · rw [hids]
    exact h.machines

/-! ## 4. The steps -/

/-- The invariant of the process: the store and every dump it may load have it. -/
structure Registered (I : Inet) (alloc : IpAllocator) (p : Proc) : Prop where
  store : Numbered I alloc p.world.store
  dumps : ∀ j ∈ p.dumps, ∃ t, j = snapshotLocked t ∧ Numbered I alloc t

/-- The condition: a registration of an unknown machine does not wrap `next_ip_index_`. -/
def noWrap (p : Proc) : Act → Bool
  | .register _ machineKey _ _ _ _ _ =>
    (findByMachine p.world.store machineKey).isSome || p.world.store.nextIpIndex.toNat != 2 ^ 32 - 1
  | _ => true

theorem numbered_keys (h : Numbered I alloc s) (keys : List PreauthKey) :
    Numbered I alloc { s with keys := keys } :=
  h.congr rfl rfl rfl rfl

/-- A section that updates a node and keeps its identity. -/
theorem numbered_commit_update {α : Type} {io : SaveIo} {w w' : World} {m : Bytes}
    {f : NodeState → NodeState} {a : α} {r : Except Exn α} (h : Numbered I alloc w.store)
    (hf : ∀ n, (f n).identity = n.identity)
    (hc : commit io w { w.store with nodes := updateNode m f w.store.nodes } a = (r, w')) :
    Numbered I alloc w'.store := by
  rw [(commit_cases hc).1]
  exact h.congr rfl rfl rfl (identities_updateNode hf m _)

theorem numbered_register {io : SaveIo} {m nodeKey hostname token : Bytes} {ephemeral shared : Bool}
    {w w' : World} {r : Except Exn NodeState} (h : Numbered I alloc w.store)
    (hhosts : alloc.ipv4Hosts.toNat < 2 ^ 31)
    (hw : findByMachine w.store m = none → w.store.nextIpIndex.toNat ≠ 2 ^ 32 - 1)
    (hr : registerNode I io m nodeKey hostname ephemeral token shared w = (r, w')) :
    Numbered I alloc w'.store := by
  rcases registerNode_cases hr with ⟨n, _, hc⟩ | ⟨hnone, _, rfl⟩ | ⟨ips, hnone, haddr, hc⟩
  · exact numbered_commit_update h (reregistered_identity nodeKey hostname ephemeral) hc
  · exact numbered_counted h (hw hnone)
  · rw [(commit_cases hc).1]
    exact numbered_append h hhosts hnone haddr

theorem registered_step {e : Act} (hhosts : alloc.ipv4Hosts.toNat < 2 ^ 31)
    (h : Registered I alloc p) (hok : noWrap p e = true) (hs : step I p e = some p') :
    Registered I alloc p' := by
  have hholds : p'.Holds (Numbered I alloc) := by
    refine holds_step (fun s keys h => numbered_keys h keys) ?_ ?_ ?_ ?_ ⟨h.store, h.dumps⟩ hs
    · rintro io m nodeKey hostname ephemeral token shared r w' rfl hstore hr
      refine numbered_register hstore hhosts ?_ hr
      intro hnone
      simpa [noWrap, hnone] using hok
    · intro m nodeKey discoKey hostname endpoints s hstore
      have hids := identities_updateNode (mapUpdated_identity nodeKey discoKey hostname endpoints) m s.nodes
      exact hstore.congr rfl rfl rfl hids
    · exact fun m online s hstore => hstore.congr rfl rfl rfl (identities_setOnline m online s)
    · exact fun t s ht hstore => numbered_reloaded ht hhosts hstore.pool
  exact ⟨hholds.store, hholds.dumps⟩

end Steps

/-! ## 5. Over whole runs -/

/-- The five kinds of distinctness, and the bound on the ids. -/
structure Distinct (s : Store) : Prop where
  machineKey : (s.nodes.map (·.machineKey)).Nodup
  id : (s.nodes.map (·.id)).Nodup
  stableId : (s.nodes.map (·.stableId)).Nodup
  ipv4 : (s.nodes.map (·.ipv4)).Nodup
  ipv6 : (s.nodes.map (·.ipv6)).Nodup
  below : ∀ n ∈ s.nodes, n.id < s.nextNodeId

/-- A field that determines the index is distinct where the ids are. -/
theorem nodup_of_ids {I : Inet} {alloc : IpAllocator} {s : Store} {g : NodeState → Bytes}
    (h : Numbered I alloc s)
    (hg : ∀ i j : UInt32, ∀ m n : NodeState, m.identity.At I alloc i → n.identity.At I alloc j →
      g m = g n → i = j) : (s.nodes.map g).Nodup := by
  have hids : (s.nodes.map (·.id)).Nodup := by
    have := h.ids
    rwa [identities, List.map_map] at this
  have hinj : ∀ m ∈ s.nodes, ∀ n ∈ s.nodes, g m = g n → m = n := by
    intro m hm n hn hgmn
    obtain ⟨i, hi, _⟩ := h.indexed m.identity (List.mem_map_of_mem hm)
    obtain ⟨j, hj, _⟩ := h.indexed n.identity (List.mem_map_of_mem hn)
    obtain rfl := hg i j m n hi hj hgmn
    have hid : m.id = n.id := UInt64.toNat_inj.mp (hi.1.trans hj.1.symm)
    exact List.inj_on_of_nodup_map hids hm hn hid
  exact List.Nodup.map_on hinj (List.Nodup.of_map _ hids)

theorem distinct_of_numbered {I : Inet} {alloc : IpAllocator} {s : Store}
    (hI : Function.Injective I.ntop6) (h : Numbered I alloc s) : Distinct s := by
  refine ⟨?_, ?_, ?_, ?_, ?_, ?_⟩
  · have := h.machines
    rwa [identities, List.map_map] at this
  · have := h.ids
    rwa [identities, List.map_map] at this
  · refine nodup_of_ids h fun i j m n hi hj hmn => ?_
    refine UInt32.toNat_inj.mp (decimal_injective ?_)
    rw [← hi.2.1, ← hj.2.1]
    exact hmn
  · exact nodup_of_ids h fun i j m n hi hj hmn => addressFor_inj hI hi.2.2 hj.2.2 (.inl hmn)
  · exact nodup_of_ids h fun i j m n hi hj hmn => addressFor_inj hI hi.2.2 hj.2.2 (.inr hmn)
  · intro n hn
    obtain ⟨i, hi, hlt⟩ := h.indexed n.identity (List.mem_map_of_mem hn)
    have hid : n.id.toNat = i.toNat := hi.1
    refine UInt64.lt_iff_toNat_lt.mpr ?_
    rcases h.counters with hc | ⟨_, hc⟩
    · omega
    · omega

/-- **Registry uniqueness**: from an empty store over any accepted prefixes, in every run in which
    no registration wraps `next_ip_index_`, all nodes differ in machine key, id, stable id and
    addresses, and the ids are below `next_node_id_`. -/
theorem registry_distinct (I : Inet) (hI : Function.Injective I.ntop6) (ipv4Cidr ipv6Cidr : Bytes)
    (alloc : IpAllocator) (halloc : ipAllocator I ipv4Cidr ipv6Cidr = .ok alloc)
    (hwidth : 1 ≤ alloc.ipv4Prefix) (path : Bytes) (noise : Bytes32) (hooked : Bool)
    (file : Option FileText) (es : List Act) (p : Proc)
    (h : Run (Guarded (Of (step I)) fun p e => noWrap p e = true)
      { world := { store := { path, alloc, noisePrivate := noise, hooked }, file } } es p) :
    Distinct p.world.store := by
  have hhosts : alloc.ipv4Hosts.toNat < 2 ^ 31 := by
    rw [ipAllocator_hosts halloc]
    exact ipv4HostsFor_lt hwidth
  have hreg : Registered I alloc p := by
    refine h.inv_state (I := Registered I alloc) ?_ ?_
    · refine ⟨⟨rfl, .inl rfl, ?_, List.nodup_nil, List.nodup_nil⟩, ?_⟩
      · intro d hd
        cases hd
      · intro j hj
        cases hj
    · intro p e p' hp hs
      exact registered_step hhosts hp hs.1 hs.2
  exact distinct_of_numbered hI hreg.store

/-- A registration of machine `m` with no other data. -/
def plainRegister (m : Bytes) : Act := .register {} m [] [] false [] false

/-- The pool of `100.64.0.0/16`. -/
def pool16 : IpAllocator :=
  { ipv4Base := 0x64400000, ipv4Prefix := 16, ipv4Hosts := 65535, ipv6Base := sampleBase6
    ipv6Prefix := 48 }

/-- Two machines register, the first one twice; the store is dumped and loaded. -/
theorem registry_distinct_pool16 :
    ∃ p, Run (Guarded (Of (step .sample)) fun p e => noWrap p e = true)
        { world := { store := { path := [], alloc := pool16 }, file := none } }
        [plainRegister (ascii "mkey:1"), plainRegister (ascii "mkey:2"),
          plainRegister (ascii "mkey:1"), .dump, .load 0] p ∧
      p.world.store.nodes.map (·.ipv6) = [ascii "fd7a:115c:a1e0::1", ascii "fd7a:115c:a1e0::2"] ∧
      Distinct p.world.store := by
  have hexec : (exec (checked (step .sample) noWrap)
      { world := { store := { path := [], alloc := pool16 }, file := none } }
      [plainRegister (ascii "mkey:1"), plainRegister (ascii "mkey:2"),
        plainRegister (ascii "mkey:1"), .dump, .load 0]).map (fun p => p.world.store.nodes.map (·.ipv6)) =
      some [ascii "fd7a:115c:a1e0::1", ascii "fd7a:115c:a1e0::2"] := by decide +kernel
  obtain ⟨p, hp, hips⟩ := Option.map_eq_some_iff.mp hexec
  refine ⟨p, guarded_of_exec hp, hips, ?_⟩
  exact registry_distinct .sample sampleNtop6_injective (ascii "100.64.0.0/16")
    (ascii "fd7a:115c:a1e0::/48") pool16 rfl (by decide) [] zero32 false none _ p (guarded_of_exec hp)

/-! ## 6. The index wraps -/

/-- The process after `n` failed registrations. -/
def Proc.advanced (p : Proc) (n : Nat) : Proc :=
  { p with world := { p.world with store := { p.world.store with
      nextNodeId := p.world.store.nextNodeId + UInt64.ofNat n
      nextIpIndex := p.world.store.nextIpIndex + UInt32.ofNat n } } }

/-- Registrations that find no address only count. -/
theorem run_exhausted {I : Inet} {p : Proc} {m : Bytes}
    (hnew : findByMachine p.world.store m = none) (n : Nat)
    (hfail : ∀ k < n, ∃ e, addressFor I p.world.store.alloc
      (p.world.store.nextIpIndex + UInt32.ofNat k) = .error e) :
    Run (Of (step I)) p (List.replicate n (plainRegister m)) (p.advanced n) := by
  induction n with
  | zero =>
    have h0 : p.advanced 0 = p := by simp [Proc.advanced]
    rw [h0]
    exact .start
  | succ n ih =>
    rw [List.replicate_succ']
    refine .step (ih fun k hk => hfail k (by omega)) ?_
    obtain ⟨e, he⟩ := hfail n (by omega)
    show step I (p.advanced n) (plainRegister m) = some (p.advanced (n + 1))
    have hreg : registerNode I {} m [] [] false [] false (p.advanced n).world =
        (.error e, { (p.advanced n).world with store := counted (p.advanced n).world.store }) := by
      rcases hr : registerNode I {} m [] [] false [] false (p.advanced n).world with ⟨r, w⟩
      rcases registerNode_cases hr with ⟨n', hn', _⟩ | ⟨_, ⟨e', rfl, he'⟩, rfl⟩ | ⟨ips, _, haddr, _⟩
      · rw [show findByMachine (p.advanced n).world.store m = none from hnew] at hn'
        cases hn'
      · obtain rfl := Except.error.inj (he.symm.trans he')
        rfl
      · cases he.symm.trans haddr
    rw [plainRegister, step, hreg]
    simp only [Proc.advanced, counted, UInt64.add_assoc, UInt32.add_assoc]
    congr 6
    · exact (UInt64.ofNat_add n 1).symm
    · exact (UInt32.ofNat_add n 1).symm

/-- The pool of `100.64.0.0/31`: one address. -/
def pool31 : IpAllocator :=
  { ipv4Base := 0x64400000, ipv4Prefix := 31, ipv4Hosts := 1, ipv6Base := sampleBase6, ipv6Prefix := 48 }

theorem pool31_accepted :
    ipAllocator .sample (ascii "100.64.0.0/31") (ascii "fd7a:115c:a1e0::/48") = .ok pool31 := by rfl

/-- The process after the one address has been given to the machine `mkey:1`. -/
def pool31Full : Proc :=
  { world := (registerNode .sample {} (ascii "mkey:1") [] [] false [] false
      { store := { path := [], alloc := pool31 }, file := none }).2 }

theorem pool31_fails {index : UInt32} (h : index ≠ 1) :
    ∃ e, addressFor .sample pool31 index = .error e := by
  unfold addressFor
  refine ⟨_, if_pos ?_⟩
  by_cases h0 : index = 0
  · exact .inl h0
  · right
    refine UInt32.lt_iff_toNat_lt.mpr ?_
    have h0' : index.toNat ≠ 0 := fun hz => h0 (UInt32.toNat_inj.mp hz)
    have h1' : index.toNat ≠ 1 := fun hz => h (UInt32.toNat_inj.mp hz)
    show 1 < index.toNat
    omega

/-- One node holds the only address; `2 ^ 32 - 1` registrations of a second machine fail, and the
    next one finds the index at 1 again: it gets the same two addresses. -/
theorem registry_wraps :
    ∃ es p, Run (Of (step .sample))
        { world := { store := { path := [], alloc := pool31 }, file := none } } es p ∧
      ¬ (p.world.store.nodes.map (·.ipv4)).Nodup ∧ ¬ (p.world.store.nodes.map (·.ipv6)).Nodup := by
  have hone : Run (Of (step .sample))
      { world := { store := { path := [], alloc := pool31 }, file := none } }
      ([] ++ [plainRegister (ascii "mkey:1")]) pool31Full := .step .start rfl
  have hnew : findByMachine pool31Full.world.store (ascii "mkey:2") = none := by decide +kernel
  have hidx : pool31Full.world.store.nextIpIndex = 2 := by decide +kernel
  have halloc : pool31Full.world.store.alloc = pool31 := rfl
  have hmany := run_exhausted (I := .sample) hnew (2 ^ 32 - 1) (by
    intro k hk
    rw [halloc, hidx]
    refine pool31_fails fun heq => ?_
    have hnat := congrArg UInt32.toNat heq
    rw [UInt32.toNat_add, UInt32.toNat_ofNat'] at hnat
    have h2 : (2 : UInt32).toNat = 2 := rfl
    have h1 : (1 : UInt32).toNat = 1 := rfl
    omega)
  -- the index is 1 again
  have hidx' : (pool31Full.advanced (2 ^ 32 - 1)).world.store.nextIpIndex = 1 := by
    show pool31Full.world.store.nextIpIndex + UInt32.ofNat (2 ^ 32 - 1) = 1
    rw [hidx]
    decide
  have haddr : addressFor .sample pool31 1 =
      .ok (ascii "100.64.0.1", ascii "fd7a:115c:a1e0::1") := by rfl
  rcases hr : registerNode .sample {} (ascii "mkey:2") [] [] false [] false
    (pool31Full.advanced (2 ^ 32 - 1)).world with ⟨r, w⟩
  have hnodes : ∃ n, w.store.nodes = pool31Full.world.store.nodes ++ [n] ∧
      n.ipv4 = ascii "100.64.0.1" ∧ n.ipv6 = ascii "fd7a:115c:a1e0::1" := by
    rcases registerNode_cases hr with ⟨n, hn, _⟩ | ⟨_, ⟨e, _, he⟩, _⟩ | ⟨ips, _, hips, hc⟩
    · rw [show findByMachine (pool31Full.advanced (2 ^ 32 - 1)).world.store (ascii "mkey:2") = none
        from hnew] at hn
      cases hn
    · rw [hidx', show (pool31Full.advanced (2 ^ 32 - 1)).world.store.alloc = pool31 from halloc,
        haddr] at he
      cases he
    · rw [hidx', show (pool31Full.advanced (2 ^ 32 - 1)).world.store.alloc = pool31 from halloc,
        haddr] at hips
      obtain rfl := Except.ok.inj hips
      rw [(commit_cases hc).1]
      exact ⟨_, rfl, rfl, rfl⟩
  obtain ⟨n, hw, h4, h6⟩ := hnodes
  have hfirst : pool31Full.world.store.nodes.map (fun n => (n.ipv4, n.ipv6)) =
      [(ascii "100.64.0.1", ascii "fd7a:115c:a1e0::1")] := by decide +kernel
  have hmap : w.store.nodes.map (fun n => (n.ipv4, n.ipv6)) =
      [(ascii "100.64.0.1", ascii "fd7a:115c:a1e0::1"),
        (ascii "100.64.0.1", ascii "fd7a:115c:a1e0::1")] := by
    rw [hw, List.map_append, hfirst, List.map_singleton, h4, h6]
    rfl
  refine ⟨_, { pool31Full.advanced (2 ^ 32 - 1) with world := w },
    .step (hone.trans hmany) (e := plainRegister (ascii "mkey:2")) ?_, ?_, ?_⟩
  · show step .sample _ (plainRegister (ascii "mkey:2")) = some _
    rw [plainRegister, step, hr]
  · have h := congrArg (List.map Prod.fst) hmap
    rw [List.map_map] at h
    show ¬ (w.store.nodes.map (·.ipv4)).Nodup
    rw [show w.store.nodes.map (·.ipv4) = [ascii "100.64.0.1", ascii "100.64.0.1"] from h]
    decide
  · have h := congrArg (List.map Prod.snd) hmap
    rw [List.map_map] at h
    show ¬ (w.store.nodes.map (·.ipv6)).Nodup
    rw [show w.store.nodes.map (·.ipv6) =
      [ascii "fd7a:115c:a1e0::1", ascii "fd7a:115c:a1e0::1"] from h]
    decide

end Wirebone
