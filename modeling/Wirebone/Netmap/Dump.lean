/-
  File:      Wirebone/Netmap/Dump.lean
  Subject:   WHEN A MAP CAN BE DUMPED.

  `encode_map_frame` dumps the map first, and the dump throws 316 on a string that is not UTF-8. The
  strings of a map come from the nodes it shows, from the domain and from the clock.

  * `utf8_append_ascii` -- a string in front of an ASCII character is UTF-8 by itself;
  * `NodeState.mapTexts`, `NodeState.recordTexts` -- what a map shows of a node, and of one with the
    id of its own node;
  * `TextsClean` -- these strings of the nodes that the own node sees, and the domain, are UTF-8;
  * **`dumps_buildFullMap_iff`** -- the map can be dumped exactly then; `dumps_keepalive` -- a keepalive
    always can.
-/
import Wirebone.Netmap
import Wirebone.Store.Snapshot

namespace Wirebone

open ByteString

/-! ## 1. UTF-8 around an ASCII character -/

section Utf8

variable {a c : Bytes} {x : UInt8} {st st' : Nat × Nat × Nat}

/-- A state of the automaton between two characters, or one that waits for an octet from 0x80 on. -/
def Waits (st : Nat × Nat × Nat) : Prop := st.1 = 0 ∨ 0x80 ≤ st.2.1

theorem waits_step (h : utf8Step st x = some st') : Waits st' := by
  obtain ⟨owed, low, high⟩ := st
  cases owed with
  | zero =>
    simp only [utf8Step] at h
    split_ifs at h <;> cases h <;> simp [Waits]
  | succ owed =>
    simp only [utf8Step] at h
    split_ifs at h
    cases h
    exact .inr (Nat.le_refl _)

theorem waits_foldlM (hst : Waits st) (h : a.foldlM utf8Step st = some st') : Waits st' := by
  induction a generalizing st with
  | nil =>
    cases h
    exact hst
  | cons b a ih =>
    rw [List.foldlM_cons] at h
    obtain ⟨st₁, h1, h2⟩ := Option.bind_eq_some_iff.mp h
    exact ih (waits_step h1) h2

theorem utf8_iff : utf8 c = true ↔ ∃ low high, c.foldlM utf8Step (0, 0, 0) = some (0, low, high) := by
  unfold utf8
  split
  · rename_i low high hc
    exact ⟨fun _ => ⟨low, high, hc⟩, fun _ => rfl⟩
  · rename_i hne
    refine ⟨fun h => ?_, fun ⟨low, high, hc⟩ => absurd hc (hne low high)⟩
    cases h

/-- **A string in front of an ASCII character** is UTF-8 by itself, and so is what follows. -/
theorem utf8_append_ascii (hx : x.toNat ≤ 0x7f) : utf8 (a ++ x :: c) = (utf8 a && utf8 c) := by
  have hrest : ∀ low high, (x :: c).foldlM utf8Step (0, low, high) = c.foldlM utf8Step (0, 0, 0) := by
    intro low high
    rw [List.foldlM_cons, show utf8Step (0, low, high) x = some (0, 0, 0) by simp only [utf8Step, if_pos hx]]
    rfl
  rw [Bool.eq_iff_iff, Bool.and_eq_true, utf8_iff, utf8_iff, utf8_iff, List.foldlM_append]
  cases ha : a.foldlM utf8Step (0, 0, 0) with
  | none => simp
  | some st =>
    obtain ⟨owed, low, high⟩ := st
    cases owed with
    | zero =>
      show (∃ l h, (x :: c).foldlM utf8Step (0, low, high) = some (0, l, h)) ↔ _
      rw [hrest]
      exact (and_iff_right ⟨low, high, rfl⟩).symm
    | succ owed =>
      have hlow : 0x80 ≤ low := (waits_foldlM (.inl rfl) ha).resolve_left (Nat.succ_ne_zero owed)
      have hstuck : (x :: c).foldlM utf8Step (owed + 1, low, high) = none := by
        rw [List.foldlM_cons, show utf8Step (owed + 1, low, high) x = none by
          simp only [utf8Step]; rw [if_neg (by omega)]]
        rfl
      show (∃ l h, (x :: c).foldlM utf8Step (owed + 1, low, high) = some (0, l, h)) ↔ _
      rw [hstuck]
      simp

theorem utf8_append_text (h : ∀ b ∈ c, b.toNat ≤ 0x7f) : utf8 (a ++ c) = utf8 a := by
  cases c with
  | nil => rw [List.append_nil]
  | cons x c =>
    rw [utf8_append_ascii (h x List.mem_cons_self),
      utf8_of_ascii fun b hb => h b (List.mem_cons_of_mem _ hb), Bool.and_true]

/-- A constant of the source in ASCII. -/
theorem utf8_const {s : String} (h : (ascii s).all (fun b => decide (b.toNat ≤ 0x7f)) = true) :
    utf8 (ascii s) = true :=
  utf8_of_ascii fun b hb => of_decide_eq_true (List.all_eq_true.mp h b hb)

end Utf8

/-! ## 2. Lists and objects -/

theorem dumpsAll_iff {es : List Json} : Json.dumpsAll es = true ↔ ∀ e ∈ es, e.dumps = true := by
  induction es with
  | nil => exact ⟨fun _ e he => absurd he List.not_mem_nil, fun _ => rfl⟩
  | cons e es ih => rw [Json.dumpsAll, Bool.and_eq_true, ih, List.forall_mem_cons]

theorem dumpsMembers_append (ms ms' : List (Bytes × Json)) :
    Json.dumpsMembers (ms ++ ms') = (Json.dumpsMembers ms && Json.dumpsMembers ms') := by
  induction ms with
  | nil => rfl
  | cons m ms ih =>
    rw [List.cons_append, Json.dumpsMembers, ih, Json.dumpsMembers, Bool.and_assoc _ _ (Json.dumpsMembers ms')]

theorem dumps_strings_iff {ts : List Bytes} : (Json.strings ts).dumps = true ↔ ∀ t ∈ ts, utf8 t = true := by
  rw [Json.strings, Json.dumps, dumpsAll_iff, List.forall_mem_map]
  simp only [Json.dumps]

/-! ## 3. The strings of a map -/

/-- What a map shows of a node. -/
def NodeState.mapTexts (n : NodeState) : List Bytes :=
  [n.stableId, n.hostname, n.machineKey, n.nodeKey, n.discoKey, n.ipv4, n.ipv6] ++ n.endpoints

/-- What it shows of a node in the filter and the records alone. -/
def NodeState.recordTexts (n : NodeState) : List Bytes :=
  [if n.hostname = [] then n.stableId else n.hostname, n.ipv4, n.ipv6]

/-- The strings of a listed node: one with the id of the map's own node is no peer. -/
def NodeState.listedTexts (self n : NodeState) : List Bytes :=
  if n.id = self.id then n.recordTexts else n.mapTexts

/-- **The strings of the map of `own` over `nodes` are UTF-8.** -/
structure TextsClean (domain : Bytes) (own : NodeState) (nodes : List NodeState) : Prop where
  place : utf8 domain = true
  node : ∀ x ∈ own.mapTexts, utf8 x = true
  listed : ∀ n ∈ nodes, nodeVisibleTo own n = true → ∀ x ∈ own.listedTexts n, utf8 x = true

section Parts

variable {self n : NodeState} {domain now : Bytes} {acc : MapParts}

theorem utf8_cidr4 (t : Bytes) : utf8 (t ++ ascii "/32") = utf8 t := utf8_append_text (by decide +kernel)

theorem utf8_cidr6 (t : Bytes) : utf8 (t ++ ascii "/128") = utf8 t := utf8_append_text (by decide +kernel)

theorem utf8_dotted (t u : Bytes) : utf8 (t ++ ascii "." ++ u) = (utf8 t && utf8 u) := by
  rw [List.append_assoc]
  exact utf8_append_ascii (by decide)

theorem utf8_numbered (t : Bytes) : utf8 (ascii "node-" ++ t) = utf8 t := by
  show utf8 (ascii "node" ++ 45 :: t) = _
  rw [utf8_append_ascii (by decide), utf8_const (by decide +kernel), Bool.true_and]

/-- The name of a node, with a domain in UTF-8. -/
theorem utf8_name (hdomain : utf8 domain = true) (own : Bool) :
    utf8 (nodeToTailcfg n domain now own).name = utf8 (if n.hostname = [] then n.stableId else n.hostname) := by
  have hfull : ∀ host : Bytes, utf8 (if host.getLast? = some 46 then host else
      host ++ ascii "." ++ domain ++ ascii ".") = utf8 host := by
    intro host
    split
    · rfl
    · rw [List.append_assoc _ domain, utf8_dotted, utf8_append_text (by decide +kernel), hdomain,
        Bool.and_true]
  refine (hfull _).trans ?_
  split
  · exact utf8_numbered _
  · rfl

/-- **A node's entry can be dumped** exactly if its strings are UTF-8. -/
theorem dumps_nodeToTailcfg_iff (hdomain : utf8 domain = true) (hnow : utf8 now = true) (own : Bool) :
    (nodeToTailcfg n domain now own).toJson.dumps = true ↔ ∀ x ∈ n.mapTexts, utf8 x = true := by
  have hdisco : Json.dumpsMembers ((nodeToTailcfg n domain now own).discoKey.toList.map fun key =>
      (ascii "DiscoKey", .str key)) = utf8 n.discoKey := by
    simp only [nodeToTailcfg]
    split
    · rename_i h
      rw [h]
      rfl
    · simp (disch := decide +kernel) [Json.dumpsMembers, Json.dumps, utf8_const]
  have hends : Json.dumpsMembers ((nodeToTailcfg n domain now own).endpoints.toList.map fun ends =>
      (ascii "Endpoints", .strings ends)) = (Json.strings n.endpoints).dumps := by
    simp only [nodeToTailcfg]
    split
    · rename_i h
      rw [h]
      rfl
    · simp (disch := decide +kernel) [Json.dumpsMembers, utf8_const]
  have hname : utf8 (nodeToTailcfg n domain now own).name = _ := utf8_name hdomain own
  have haddresses : (Json.strings [n.ipv4 ++ ascii "/32", n.ipv6 ++ ascii "/128"]).dumps =
      (utf8 n.ipv4 && utf8 n.ipv6) := by
    simp only [Json.strings, List.map_cons, List.map_nil, Json.dumps, Json.dumpsAll, utf8_cidr4, utf8_cidr6,
      Bool.and_true]
  unfold TailcfgNode.toJson
  rw [Json.dumps, dumpsMembers_append, dumpsMembers_append, dumpsMembers_append, hdisco, hends]
  simp (disch := decide +kernel) only [Json.dumpsMembers, Json.dumps, utf8_const, hname, Bool.true_and,
    Bool.and_true]
  simp only [nodeToTailcfg, haddresses, hnow, Bool.and_eq_true, dumps_strings_iff, NodeState.mapTexts,
    List.cons_append, List.nil_append, List.forall_mem_cons]
  by_cases hhost : n.hostname = []
  · simp only [hhost, if_true]
    tauto
  · simp only [hhost, if_false]
    tauto

/-- What the loop has collected can be dumped. -/
structure PartsClean (acc : MapParts) : Prop where
  peers : ∀ p ∈ acc.peers, p.toJson.dumps = true
  extra : ∀ r ∈ acc.extra, r.toJson.dumps = true
  srcIps : ∀ t ∈ acc.srcIps, utf8 t = true
  dstPorts : ∀ p ∈ acc.dstPorts, utf8 p.ip = true

theorem dumps_dnsRecord (r : DnsRecord) :
    r.toJson.dumps = true ↔ utf8 r.name = true ∧ utf8 r.type = true ∧ utf8 r.value = true := by
  unfold DnsRecord.toJson
  simp (disch := decide +kernel) only [Json.dumps, Json.dumpsMembers, utf8_const, Bool.true_and,
    Bool.and_true, Bool.and_eq_true]

theorem dumps_dstPort (p : DstPort) : p.toJson.dumps = utf8 p.ip := by
  unfold DstPort.toJson
  simp (disch := decide +kernel) only [Json.dumps, Json.dumpsMembers, utf8_const, Bool.true_and,
    Bool.and_true]

/-- A node's entries in the filter. -/
theorem cidrs_clean_iff : (∀ t ∈ (if n.ipv4 = [] then [] else [n.ipv4 ++ ascii "/32"]) ++
      (if n.ipv6 = [] then [] else [n.ipv6 ++ ascii "/128"]), utf8 t = true) ↔
    utf8 n.ipv4 = true ∧ utf8 n.ipv6 = true := by
  have hone : ∀ (ip cidr : Bytes), utf8 cidr = utf8 ip →
      ((∀ t ∈ (if ip = [] then [] else [cidr]), utf8 t = true) ↔ utf8 ip = true) := by
    intro ip cidr h
    split
    · rename_i hnil
      rw [hnil]
      exact ⟨fun _ => rfl, fun _ t ht => absurd ht List.not_mem_nil⟩
    · rw [List.forall_mem_singleton, h]
  rw [List.forall_mem_append, hone _ _ (utf8_cidr4 _), hone _ _ (utf8_cidr6 _)]

/-- The filter and the records of a node. -/
theorem partsClean_records (hdomain : utf8 domain = true) :
    PartsClean (addDns domain n (addFilterIps n acc)) ↔
      PartsClean acc ∧ ∀ x ∈ n.recordTexts, utf8 x = true := by
  have hhost : utf8 ((if n.hostname = [] then ascii "node-" ++ n.stableId else n.hostname) ++ ascii "." ++
      domain) = utf8 (if n.hostname = [] then n.stableId else n.hostname) := by
    rw [utf8_dotted, hdomain, Bool.and_true]
    split
    · exact utf8_numbered _
    · rfl
  have hcidrs := cidrs_clean_iff (n := n)
  have hA : utf8 (ascii "A") = true := by decide +kernel
  have hAAAA : utf8 (ascii "AAAA") = true := by decide +kernel
  have hextra : (∀ r ∈ (addDns domain n (addFilterIps n acc)).extra, r.toJson.dumps = true) ↔
      (∀ r ∈ acc.extra, r.toJson.dumps = true) ∧ ∀ x ∈ n.recordTexts, utf8 x = true := by
    simp only [addDns, addFilterIps, List.forall_mem_append, List.forall_mem_cons, dumps_dnsRecord, hhost,
      hA, hAAAA, NodeState.recordTexts]
    tauto
  have hsrc : (∀ t ∈ (addDns domain n (addFilterIps n acc)).srcIps, utf8 t = true) ↔
      (∀ t ∈ acc.srcIps, utf8 t = true) ∧ utf8 n.ipv4 = true ∧ utf8 n.ipv6 = true := by
    rw [← hcidrs]
    exact List.forall_mem_append
  have hdst : (∀ p ∈ (addDns domain n (addFilterIps n acc)).dstPorts, utf8 p.ip = true) ↔
      (∀ p ∈ acc.dstPorts, utf8 p.ip = true) ∧ utf8 n.ipv4 = true ∧ utf8 n.ipv6 = true := by
    rw [← hcidrs, ← List.forall_mem_map (f := fun cidr => ({ ip := cidr } : DstPort))
      (P := fun p => utf8 p.ip = true)]
    exact List.forall_mem_append
  have hips : (∀ x ∈ n.recordTexts, utf8 x = true) → utf8 n.ipv4 = true ∧ utf8 n.ipv6 = true :=
    fun h => ⟨h _ (by simp [NodeState.recordTexts]), h _ (by simp [NodeState.recordTexts])⟩
  constructor
  · intro h
    have hr := hextra.mp h.extra
    exact ⟨⟨h.peers, hr.1, (hsrc.mp h.srcIps).1, (hdst.mp h.dstPorts).1⟩, hr.2⟩
  · intro h
    have hi := hips h.2
    exact ⟨h.1.peers, hextra.mpr ⟨h.1.extra, h.2⟩, hsrc.mpr ⟨h.1.srcIps, hi⟩, hdst.mpr ⟨h.1.dstPorts, hi⟩⟩

theorem records_of_texts (h : ∀ x ∈ n.mapTexts, utf8 x = true) : ∀ x ∈ n.recordTexts, utf8 x = true := by
  intro x hx
  simp only [NodeState.recordTexts, List.mem_cons, List.not_mem_nil, or_false] at hx
  rcases hx with rfl | rfl | rfl
  · split
    · exact h _ (by simp [NodeState.mapTexts])
    · exact h _ (by simp [NodeState.mapTexts])
  · exact h _ (by simp [NodeState.mapTexts])
  · exact h _ (by simp [NodeState.mapTexts])

/-- **One node of the loop.** -/
theorem partsClean_addNode (hdomain : utf8 domain = true) (hnow : utf8 now = true) :
    PartsClean (addNode self domain now acc n) ↔ PartsClean acc ∧
      (nodeVisibleTo self n = true → ∀ x ∈ self.listedTexts n, utf8 x = true) := by
  cases hv : nodeVisibleTo self n with
  | false =>
    rw [addNode_hidden hv]
    simp
  | true =>
    rw [addNode, hv]
    simp only [Bool.not_true, Bool.false_eq_true, if_false, true_implies, NodeState.listedTexts]
    have hrec : PartsClean (addDns domain n (addFilterIps n acc)) ↔ _ := partsClean_records hdomain
    by_cases hid : n.id = self.id
    · rw [if_pos hid, if_pos hid]
      exact hrec
    · rw [if_neg hid, if_neg hid]
      have hnode := dumps_nodeToTailcfg_iff (n := n) hdomain hnow false
      constructor
      · intro h
        have hpeers := List.forall_mem_append.mp h.peers
        exact ⟨(hrec.mp ⟨hpeers.1, h.extra, h.srcIps, h.dstPorts⟩).1,
          hnode.mp (hpeers.2 _ (List.mem_singleton.mpr rfl))⟩
      · intro h
        have hparts := hrec.mpr ⟨h.1, records_of_texts h.2⟩
        refine ⟨List.forall_mem_append.mpr ⟨hparts.peers, ?_⟩, hparts.extra, hparts.srcIps, hparts.dstPorts⟩
        exact List.forall_mem_singleton.mpr (hnode.mpr h.2)

/-- The whole loop. -/
theorem partsClean_foldl (hdomain : utf8 domain = true) (hnow : utf8 now = true) (nodes : List NodeState) :
    PartsClean (nodes.foldl (addNode self domain now) acc) ↔ PartsClean acc ∧
      ∀ n ∈ nodes, nodeVisibleTo self n = true → ∀ x ∈ self.listedTexts n, utf8 x = true := by
  induction nodes generalizing acc with
  | nil => simp
  | cons n nodes ih =>
    rw [List.foldl_cons, ih, partsClean_addNode hdomain hnow, List.forall_mem_cons, and_assoc]

end Parts

section Members

variable {domain : Bytes}

/-- A list with a default for its absence. -/
theorem forall_orDefault {α : Type} {P : α → Prop} {l : List α} {a : α} (ha : P a)
    [Decidable (l = [])] : (∀ x ∈ (if l = [] then [a] else l), P x) ↔ ∀ x ∈ l, P x := by
  split
  · rename_i h
    rw [h, List.forall_mem_singleton]
    exact ⟨fun _ x hx => absurd hx List.not_mem_nil, fun _ => ha⟩
  · rfl

theorem dumps_filterRule (r : FilterRule) : r.toJson.dumps = true ↔
    (∀ p ∈ r.dstPorts, utf8 p.ip = true) ∧ ∀ t ∈ r.srcIps, utf8 t = true := by
  unfold FilterRule.toJson
  simp (disch := decide +kernel) only [Json.dumps, Json.dumpsMembers, utf8_const, Bool.true_and,
    Bool.and_true, Bool.and_eq_true, dumpsAll_iff, List.forall_mem_map, dumps_dstPort, dumps_strings_iff]

theorem dumps_dnsConfig (hdomain : utf8 domain = true) (extra : List DnsRecord) :
    ({ domains := [domain], routes := [(domain, [])], extraRecords := extra } : DnsConfig).toJson.dumps =
      true ↔ ∀ r ∈ extra, r.toJson.dumps = true := by
  unfold DnsConfig.toJson
  simp (disch := decide +kernel) only [Json.strings, List.map_cons, List.map_nil, Json.dumps,
    Json.dumpsMembers, Json.dumpsAll, utf8_const, hdomain, Bool.true_and, Bool.and_true, dumpsAll_iff,
    List.forall_mem_map]

theorem dumps_keepalive {now : Bytes} (hnow : utf8 now = true) :
    (buildKeepalive now).toJson.dumps = true := by
  simp (disch := decide +kernel) only [buildKeepalive, MapMessage.toJson, Json.dumps, Json.dumpsMembers,
    utf8_const, hnow, Bool.and_true]

end Members

/-- **When a map can be dumped**: exactly if its strings are UTF-8. The clock prints ASCII. -/
theorem dumps_buildFullMap_iff {self : NodeState} {nodes : List NodeState} {domain now : Bytes}
    (hnow : utf8 now = true) : (MapMessage.full (buildFullMap self nodes domain now)).toJson.dumps = true ↔
      TextsClean domain self nodes := by
  cases hdomain : utf8 domain with
  | false =>
    have hnot : ¬ (MapMessage.full (buildFullMap self nodes domain now)).toJson.dumps = true := by
      simp only [MapMessage.toJson, FullMap.toJson, buildFullMap, Json.dumps, Json.dumpsMembers, hdomain,
        Bool.and_false, Bool.false_and]
      exact Bool.false_ne_true
    refine ⟨fun h => absurd h hnot, fun h => ?_⟩
    rw [h.place] at hdomain
    cases hdomain
  | true =>
    have hempty : PartsClean {} := ⟨fun _ h => absurd h List.not_mem_nil, fun _ h => absurd h List.not_mem_nil,
      fun _ h => absurd h List.not_mem_nil, fun _ h => absurd h List.not_mem_nil⟩
    have hloop : PartsClean (nodes.foldl (addNode self domain now) {}) ↔ _ :=
      (partsClean_foldl hdomain hnow nodes).trans (and_iff_right hempty)
    have hparts : (MapMessage.full (buildFullMap self nodes domain now)).toJson.dumps = true ↔
        (nodeToTailcfg self domain now true).toJson.dumps = true ∧
          PartsClean (nodes.foldl (addNode self domain now) {}) := by
      have hderp : defaultDerpMap.toJson.dumps = true := by decide +kernel
      have husers : (UserProfile.mk 1 (ascii "wirebone@local") (ascii "wirebone")).toJson.dumps = true := by
        decide +kernel
      have hstar : utf8 (ascii "*") = true := by decide +kernel
      have hports := fun l : List DstPort =>
        forall_orDefault (P := fun p => utf8 p.ip = true) (l := l) (a := { ip := ascii "*" }) hstar
      have hips := fun l : List Bytes =>
        forall_orDefault (P := fun t => utf8 t = true) (l := l) (a := ascii "*") hstar
      simp (disch := decide +kernel) only [MapMessage.toJson, FullMap.toJson, buildFullMap, Json.dumps,
        Json.dumpsMembers, Json.dumpsAll, List.map_cons, List.map_nil, utf8_const, hnow, hdomain, hderp,
        husers, Bool.true_and, Bool.and_true, Bool.and_eq_true, dumps_dnsConfig hdomain, dumps_filterRule,
        dumpsAll_iff, List.forall_mem_map, hports, hips]
      constructor
      · rintro ⟨hextra, hnode, ⟨hdst, hsrc⟩, hpeers⟩
        exact ⟨hnode, hpeers, hextra, hsrc, hdst⟩
      · rintro ⟨hnode, hpeers, hextra, hsrc, hdst⟩
        exact ⟨hextra, hnode, ⟨hdst, hsrc⟩, hpeers⟩
    rw [hparts, hloop, dumps_nodeToTailcfg_iff hdomain hnow]
    exact ⟨fun h => ⟨hdomain, h.1, h.2⟩, fun h => ⟨h.node, h.listed⟩⟩

end Wirebone
