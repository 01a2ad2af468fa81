/-
  File:      Wirebone/Netmap/Mutual.lean
  Subject:   WHAT A MAP LISTS: its peers, its packet filter and its DNS records, and that two nodes
             see each other or neither sees the other.

  One loop fills four arrays. Over nodes that all have both addresses each array is a filter of the
  registry followed by a map:

  * `foldl_addNode_filterIps`, `extraRecords_eq` -- the packet filter and the records, beside
    `foldl_addNode_peers`;
  * `ExactMap` -- the map of `a` lists what it should, in registry order, and no wildcard;
  * `cidr_mem_iff` -- an address is in the filter exactly where its node is shown;
  * **`fullMap_exact_mutual`** -- the exact lists, and the agreement of the maps of two nodes.
-/
import Mathlib.Data.List.Nodup
import Wirebone.Netmap

namespace Wirebone

open ByteString

/-! ## 1. The entries of a node -/

/-- The `/32` and the `/128` of a node. -/
def nodeCidrs (n : NodeState) : List Bytes := [n.ipv4 ++ ascii "/32", n.ipv6 ++ ascii "/128"]

/-- The `A` and the `AAAA` record of a node. -/
def dnsEntries (domain : Bytes) (n : NodeState) : List DnsRecord :=
  let host := if n.hostname = [] then ascii "node-" ++ n.stableId else n.hostname
  [{ name := host ++ ascii "." ++ domain, type := ascii "A", value := n.ipv4 },
   { name := host ++ ascii "." ++ domain, type := ascii "AAAA", value := n.ipv6 }]

/-- `SrcIPs`, and the `IP`s of `DstPorts`. -/
def FullMap.srcIps (m : FullMap) : List Bytes := m.packetFilter.flatMap (·.srcIps)

def FullMap.dstIps (m : FullMap) : List Bytes := m.packetFilter.flatMap fun r => r.dstPorts.map (·.ip)

/-- The nodes that share the token of `a` or are shared, or all of them if `a` is shared. -/
def grouped (a n : NodeState) : Bool := decide (n.token = a.token) || n.shared || a.shared

/-- The peers of `a` in a registry, and the nodes its map shows: itself and its peers. -/
def peersOf (a : NodeState) (nodes : List NodeState) : List NodeState :=
  nodes.filter fun n => decide (n ≠ a) && grouped a n

def shownOf (a : NodeState) (nodes : List NodeState) : List NodeState :=
  nodes.filter fun n => decide (n = a) || grouped a n

/-- **The map of `a` lists what it should**, in registry order. -/
structure ExactMap (a : NodeState) (nodes : List NodeState) (domain now : Bytes) (m : FullMap) :
    Prop where
  peers : m.peers = (peersOf a nodes).map fun n => nodeToTailcfg n domain now false
  once : (m.peers.map (·.id)).Nodup
  srcIps : m.srcIps = (shownOf a nodes).flatMap nodeCidrs
  dstIps : m.dstIps = (shownOf a nodes).flatMap nodeCidrs
  records : m.dnsConfig.extraRecords = (shownOf a nodes).flatMap (dnsEntries domain)
  closed : ascii "*" ∉ m.srcIps ∧ ascii "*" ∉ m.dstIps

/-- A node is listed as a peer; both its addresses are let through, in both directions. -/
def FullMap.lists (m : FullMap) (n : NodeState) : Prop := n.id ∈ m.peers.map (·.id)

def FullMap.lets (m : FullMap) (n : NodeState) : Prop :=
  (∀ c ∈ nodeCidrs n, c ∈ m.srcIps) ∧ ∀ c ∈ nodeCidrs n, c ∈ m.dstIps

/-! ## 2. The loop -/

section Loop

variable {a n : NodeState} {nodes : List NodeState} (domain now : Bytes)

/-- A visible node adds its records. -/
theorem addNode_extra (acc : MapParts) (hv : nodeVisibleTo a n = true) :
    (addNode a domain now acc n).extra = acc.extra ++ dnsEntries domain n := by
  unfold addNode
  rw [hv]
  by_cases hid : n.id = a.id
  · simp only [Bool.not_true, Bool.false_eq_true, if_false, if_pos hid]
    rfl
  · simp only [Bool.not_true, Bool.false_eq_true, if_false, if_neg hid]
    rfl

theorem foldl_addNode_extra (nodes : List NodeState) (acc : MapParts) :
    (nodes.foldl (addNode a domain now) acc).extra =
      acc.extra ++ (nodes.filter (nodeVisibleTo a)).flatMap (dnsEntries domain) := by
  induction nodes generalizing acc with
  | nil => simp
  | cons n nodes ih =>
    rw [List.foldl_cons, ih]
    cases hv : nodeVisibleTo a n with
    | false => rw [addNode_hidden hv, List.filter_cons_of_neg (by simp [hv])]
    | true =>
      rw [addNode_extra domain now acc hv, List.filter_cons_of_pos hv, List.flatMap_cons,
        List.append_assoc]

/-- **The records of a map** are those of every node it shows, whatever addresses the nodes have. -/
theorem extraRecords_eq (a : NodeState) (nodes : List NodeState) :
    (buildFullMap a nodes domain now).dnsConfig.extraRecords =
      (nodes.filter (nodeVisibleTo a)).flatMap (dnsEntries domain) :=
  foldl_addNode_extra domain now nodes {}

/-- A visible node with both addresses adds its two entries to each array of the filter. -/
theorem addNode_shown (acc : MapParts) (hv : nodeVisibleTo a n = true) (h4 : n.ipv4 ≠ [])
    (h6 : n.ipv6 ≠ []) :
    (addNode a domain now acc n).srcIps = acc.srcIps ++ nodeCidrs n ∧
      (addNode a domain now acc n).dstPorts.map (·.ip) = acc.dstPorts.map (·.ip) ++ nodeCidrs n := by
  have hparts : ∀ p : MapParts, p = addDns domain n (addFilterIps n acc) →
      p.srcIps = acc.srcIps ++ nodeCidrs n ∧
        p.dstPorts.map (·.ip) = acc.dstPorts.map (·.ip) ++ nodeCidrs n := by
    rintro p rfl
    simp only [addDns, addFilterIps, if_neg h4, if_neg h6, List.map_append]
    exact ⟨rfl, rfl⟩
  unfold addNode
  rw [hv]
  by_cases hid : n.id = a.id
  · simp only [Bool.not_true, Bool.false_eq_true, if_false, if_pos hid]
    exact hparts _ rfl
  · simp only [Bool.not_true, Bool.false_eq_true, if_false, if_neg hid]
    exact hparts _ rfl

/-- **The packet filter** of the loop. -/
theorem foldl_addNode_filterIps (acc : MapParts) (hip : ∀ n ∈ nodes, n.ipv4 ≠ [] ∧ n.ipv6 ≠ []) :
    (nodes.foldl (addNode a domain now) acc).srcIps =
        acc.srcIps ++ (nodes.filter (nodeVisibleTo a)).flatMap nodeCidrs ∧
      (nodes.foldl (addNode a domain now) acc).dstPorts.map (·.ip) =
        acc.dstPorts.map (·.ip) ++ (nodes.filter (nodeVisibleTo a)).flatMap nodeCidrs := by
  induction nodes generalizing acc with
  | nil => simp
  | cons n nodes ih =>
    have hrest : ∀ m ∈ nodes, m.ipv4 ≠ [] ∧ m.ipv6 ≠ [] := fun m hm => hip m (List.mem_cons_of_mem _ hm)
    obtain ⟨ih1, ih2⟩ := ih (addNode a domain now acc n) hrest
    rw [List.foldl_cons, ih1, ih2]
    cases hv : nodeVisibleTo a n with
    | false =>
      rw [addNode_hidden hv, List.filter_cons_of_neg (by simp [hv])]
      exact ⟨rfl, rfl⟩
    | true =>
      obtain ⟨h4, h6⟩ := hip n List.mem_cons_self
      obtain ⟨h1, h2⟩ := addNode_shown domain now acc hv h4 h6
      rw [h1, h2, List.filter_cons_of_pos hv]
      simp only [List.flatMap_cons, List.append_assoc]
      exact ⟨trivial, trivial⟩

end Loop

/-! ## 3. The nodes of a registry with distinct ids -/

section Registry

variable {a b n : NodeState} {nodes : List NodeState} {domain now : Bytes}

/-- What `a` sees of the registry: itself and its group. -/
theorem filter_visible (hids : (nodes.map (·.id)).Nodup) (ha : a ∈ nodes) :
    nodes.filter (nodeVisibleTo a) = shownOf a nodes := by
  refine List.filter_congr fun n hn => ?_
  have hid : a.id = n.id ↔ n = a :=
    ⟨fun h => List.inj_on_of_nodup_map hids hn ha h.symm, fun h => by rw [h]⟩
  unfold nodeVisibleTo grouped
  by_cases h : n = a
  · rw [if_pos (hid.mpr h)]
    simp [h]
  · have htoken : decide (a.token = n.token) = decide (n.token = a.token) :=
      decide_eq_decide.mpr eq_comm
    rw [if_neg fun e => h (hid.mp e), htoken]
    cases a.shared <;> cases n.shared <;> simp [h]

theorem filter_isPeer (hids : (nodes.map (·.id)).Nodup) (ha : a ∈ nodes) :
    nodes.filter (isPeer a) = peersOf a nodes := by
  refine List.filter_congr fun n hn => ?_
  have hid : n.id = a.id ↔ n = a :=
    ⟨fun h => List.inj_on_of_nodup_map hids hn ha h, fun h => by rw [h]⟩
  unfold isPeer nodeVisibleTo grouped
  by_cases h : n = a
  · simp [h]
  · have htoken : decide (a.token = n.token) = decide (n.token = a.token) :=
      decide_eq_decide.mpr eq_comm
    rw [if_neg fun e => h (hid.mp e.symm), htoken]
    have hne : n.id ≠ a.id := fun e => h (hid.mp e)
    cases a.shared <;> cases n.shared <;> simp [h, hne]

theorem mem_shownOf (ha : a ∈ nodes) : a ∈ shownOf a nodes := List.mem_filter.mpr ⟨ha, by simp⟩

/-- Where `a` has its addresses, the arrays are not empty and the wildcards not used. -/
theorem buildFullMap_entries (domain now : Bytes) (hids : (nodes.map (·.id)).Nodup)
    (hip : ∀ n ∈ nodes, n.ipv4 ≠ [] ∧ n.ipv6 ≠ []) (ha : a ∈ nodes) :
    (buildFullMap a nodes domain now).srcIps = (shownOf a nodes).flatMap nodeCidrs ∧
      (buildFullMap a nodes domain now).dstIps = (shownOf a nodes).flatMap nodeCidrs ∧
      (buildFullMap a nodes domain now).dnsConfig.extraRecords =
        (shownOf a nodes).flatMap (dnsEntries domain) := by
  obtain ⟨h1, h2⟩ := foldl_addNode_filterIps (a := a) domain now {} hip
  have h3 := extraRecords_eq domain now a nodes
  rw [filter_visible hids ha] at h1 h2 h3
  have hown : a.ipv4 ++ ascii "/32" ∈ (shownOf a nodes).flatMap nodeCidrs :=
    List.mem_flatMap.mpr ⟨a, mem_shownOf ha, List.mem_cons_self⟩
  have hsrc : (nodes.foldl (addNode a domain now) {}).srcIps ≠ [] := by
    intro hnil
    rw [hnil] at h1
    rw [show (shownOf a nodes).flatMap nodeCidrs = [] from h1.symm] at hown
    cases hown
  have hdst : (nodes.foldl (addNode a domain now) {}).dstPorts ≠ [] := by
    intro hnil
    rw [hnil] at h2
    rw [show (shownOf a nodes).flatMap nodeCidrs = [] from h2.symm] at hown
    cases hown
  simp only [FullMap.srcIps, FullMap.dstIps, buildFullMap, if_neg hsrc, if_neg hdst, List.flatMap_cons,
    List.flatMap_nil, List.append_nil]
  exact ⟨h1, h2, h3⟩

/-- A CIDR is longer than the wildcard. -/
theorem star_notMem (l : List NodeState) : ascii "*" ∉ l.flatMap nodeCidrs := by
  intro h
  obtain ⟨n, _, hn⟩ := List.mem_flatMap.mp h
  have hlen : ∀ c ∈ nodeCidrs n, 3 ≤ c.length := by
    intro c hc
    simp only [nodeCidrs, List.mem_cons, List.not_mem_nil, or_false] at hc
    rcases hc with rfl | rfl
    · rw [List.length_append]
      exact Nat.le_add_left 3 _
    · rw [List.length_append]
      exact Nat.le_trans (by decide) (Nat.le_add_left 4 _)
  exact absurd (hlen _ hn) (by decide)

theorem exactMap (hids : (nodes.map (·.id)).Nodup) (hip : ∀ n ∈ nodes, n.ipv4 ≠ [] ∧ n.ipv6 ≠ [])
    (ha : a ∈ nodes) : ExactMap a nodes domain now (buildFullMap a nodes domain now) := by
  have hpeers : (buildFullMap a nodes domain now).peers =
      (peersOf a nodes).map fun n => nodeToTailcfg n domain now false := by
    rw [buildFullMap_peers, filter_isPeer hids ha]
  obtain ⟨hsrc, hdst, hextra⟩ := buildFullMap_entries domain now hids hip ha
  refine ⟨hpeers, ?_, hsrc, hdst, hextra, ?_, ?_⟩
  · rw [hpeers, List.map_map]
    exact hids.sublist (List.filter_sublist.map _)
  · rw [hsrc]
    exact star_notMem _
  · rw [hdst]
    exact star_notMem _

/-! ## 4. Two nodes -/

/-- A `/32` is no `/128`: the last characters differ. -/
theorem cidr_ne (x y : Bytes) : x ++ ascii "/32" ≠ y ++ ascii "/128" := by
  intro h
  have hlast := congrArg List.getLast? h
  have h32 : (ascii "/32").getLast? = some 50 := by decide
  have h128 : (ascii "/128").getLast? = some 56 := by decide
  rw [List.getLast?_append, List.getLast?_append, h32, h128, Option.some_or, Option.some_or] at hlast
  exact absurd hlast (by decide)

/-- **An address is in a filter exactly where its node is shown**, if no two nodes have it. -/
theorem cidr_mem_iff (h4 : (nodes.map (·.ipv4)).Nodup) (h6 : (nodes.map (·.ipv6)).Nodup) {l : List NodeState}
    (hl : ∀ n ∈ l, n ∈ nodes) (hb : b ∈ nodes) {c : Bytes} (hc : c ∈ nodeCidrs b) :
    c ∈ l.flatMap nodeCidrs ↔ b ∈ l := by
  constructor
  · intro h
    obtain ⟨n, hn, hcn⟩ := List.mem_flatMap.mp h
    have hsame : n = b := by
      simp only [nodeCidrs, List.mem_cons, List.not_mem_nil, or_false] at hc hcn
      rcases hc with rfl | rfl
      · rcases hcn with hcn | hcn
        · exact List.inj_on_of_nodup_map h4 (hl n hn) hb (List.append_cancel_right hcn).symm
        · exact absurd hcn (cidr_ne _ _)
      · rcases hcn with hcn | hcn
        · exact absurd hcn.symm (cidr_ne _ _)
        · exact List.inj_on_of_nodup_map h6 (hl n hn) hb (List.append_cancel_right hcn).symm
    exact hsame ▸ hn
  · intro h
    exact List.mem_flatMap.mpr ⟨b, h, hc⟩

theorem lists_iff (hids : (nodes.map (·.id)).Nodup) (ha : a ∈ nodes) (hb : b ∈ nodes) :
    (buildFullMap a nodes domain now).lists b ↔ b ≠ a ∧ grouped a b = true := by
  have hpeer : ∀ n, n ∈ peersOf a nodes ↔ n ∈ nodes ∧ n ≠ a ∧ grouped a n = true := by
    intro n
    rw [peersOf, List.mem_filter, Bool.and_eq_true, decide_eq_true_eq]
  unfold FullMap.lists
  rw [buildFullMap_peers, filter_isPeer hids ha, List.map_map]
  constructor
  · intro h
    obtain ⟨n, hn, hid⟩ := List.mem_map.mp h
    obtain ⟨hmem, hrest⟩ := (hpeer n).mp hn
    obtain rfl := List.inj_on_of_nodup_map hids hmem hb hid
    exact hrest
  · intro h
    exact List.mem_map.mpr ⟨b, (hpeer b).mpr ⟨hb, h⟩, rfl⟩

theorem lets_iff (hids : (nodes.map (·.id)).Nodup) (hip : ∀ n ∈ nodes, n.ipv4 ≠ [] ∧ n.ipv6 ≠ [])
    (h4 : (nodes.map (·.ipv4)).Nodup) (h6 : (nodes.map (·.ipv6)).Nodup) (ha : a ∈ nodes) (hb : b ∈ nodes) :
    (buildFullMap a nodes domain now).lets b ↔ b = a ∨ grouped a b = true := by
  obtain ⟨hsrc, hdst, _⟩ := buildFullMap_entries domain now hids hip ha
  have hshown : b ∈ shownOf a nodes ↔ b = a ∨ grouped a b = true := by
    rw [shownOf, List.mem_filter, Bool.or_eq_true, decide_eq_true_eq]
    exact and_iff_right hb
  have hmem : ∀ c ∈ nodeCidrs b, c ∈ (shownOf a nodes).flatMap nodeCidrs ↔ b ∈ shownOf a nodes :=
    fun c hc => cidr_mem_iff h4 h6 (fun n hn => (List.mem_filter.mp hn).1) hb hc
  unfold FullMap.lets
  rw [hsrc, hdst, ← hshown]
  constructor
  · intro h
    exact (hmem _ List.mem_cons_self).mp (h.1 _ List.mem_cons_self)
  · intro h
    exact ⟨fun c hc => (hmem c hc).mpr h, fun c hc => (hmem c hc).mpr h⟩

theorem grouped_symm (a b : NodeState) : grouped a b = grouped b a := by
  have htoken : decide (a.token = b.token) = decide (b.token = a.token) :=
    decide_eq_decide.mpr eq_comm
  unfold grouped
  rw [htoken]
  cases a.shared <;> cases b.shared <;> simp

end Registry

/-- **A map is exact and mutual.** Over nodes with distinct ids and with both addresses, the map of
    `a` lists exactly its peers, and the filter entries and DNS records of itself and of them; and
    for two nodes with addresses of their own the following are one: `b` is a peer of `a`, `a` is a
    peer of `b`, the filter of `a` has the addresses of `b`, the filter of `b` has those of `a`. -/
theorem fullMap_exact_mutual (nodes : List NodeState) (domain now now' : Bytes)
    (hids : (nodes.map (·.id)).Nodup) (hip : ∀ n ∈ nodes, n.ipv4 ≠ [] ∧ n.ipv6 ≠ []) (a b : NodeState)
    (ha : a ∈ nodes) (hb : b ∈ nodes) (hab : a ≠ b) :
    ExactMap a nodes domain now (buildFullMap a nodes domain now) ∧
      ((nodes.map (·.ipv4)).Nodup → (nodes.map (·.ipv6)).Nodup →
        ((buildFullMap a nodes domain now).lists b ↔ (buildFullMap b nodes domain now').lists a) ∧
        ((buildFullMap a nodes domain now).lists b ↔ (buildFullMap a nodes domain now).lets b) ∧
        ((buildFullMap a nodes domain now).lets b ↔ (buildFullMap b nodes domain now').lets a)) := by
  refine ⟨exactMap hids hip ha, fun h4 h6 => ?_⟩
  have hab' : b ≠ a := fun e => hab e.symm
  rw [lists_iff hids ha hb, lists_iff hids hb ha, lets_iff hids hip h4 h6 ha hb,
    lets_iff hids hip h4 h6 hb ha, grouped_symm b a]
  simp only [hab, hab', ne_eq, not_false_eq_true, true_and, false_or, and_self]

/-- Two nodes of one group, one of another, and a shared one. -/
def fourNodes : List NodeState :=
  [{ id := 1, hostname := ascii "hub", ipv4 := ascii "100.64.0.1", ipv6 := ascii "fd7a::1", shared := true },
   { id := 2, hostname := ascii "analyst-1", ipv4 := ascii "100.64.0.2", ipv6 := ascii "fd7a::2",
     token := ascii "alpha" },
   { id := 3, hostname := ascii "analyst-2", ipv4 := ascii "100.64.0.3", ipv6 := ascii "fd7a::3",
     token := ascii "alpha" },
   { id := 4, hostname := ascii "etl-1", ipv4 := ascii "100.64.0.4", ipv6 := ascii "fd7a::4",
     token := ascii "beta" }]

theorem fullMap_exact_mutual_four :
    ∃ a ∈ fourNodes, ∃ b ∈ fourNodes, a ≠ b ∧ peersOf a fourNodes ≠ [] ∧
      ExactMap a fourNodes (ascii "q.local") [] (buildFullMap a fourNodes (ascii "q.local") []) ∧
      ((buildFullMap a fourNodes (ascii "q.local") []).lists b ↔
        (buildFullMap b fourNodes (ascii "q.local") []).lists a) := by
  have hids : (fourNodes.map (·.id)).Nodup := by decide
  have hip : ∀ n ∈ fourNodes, n.ipv4 ≠ [] ∧ n.ipv6 ≠ [] := by decide
  have h := fullMap_exact_mutual fourNodes (ascii "q.local") [] [] hids hip (fourNodes.get ⟨1, by decide⟩)
    (fourNodes.get ⟨2, by decide⟩) (List.get_mem _ _) (List.get_mem _ _) (by decide)
  exact ⟨_, List.get_mem _ _, _, List.get_mem _ _, by decide, by decide, h.1,
    (h.2 (by decide) (by decide)).1⟩

end Wirebone
