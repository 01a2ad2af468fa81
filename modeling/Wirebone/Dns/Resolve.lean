/-
  File:      Wirebone/Dns/Resolve.lean
  Subject:   WHETHER THE RESOLVER ANSWERS FOR THE NAMES THE NETMAP ADVERTISES.

  The netmap gives every node a name. Host names are chosen by the clients, and nothing keeps two
  nodes from having one name; the resolver takes the first node that fits.

  * `advertisedName`, `buildFullMap_advertises` -- the name in `ExtraRecords`;
  * `addressed_run` -- in every run the nodes have printed addresses;
  * `answer_query` -- what `answer` does with a plain question;
  * `Resolves` -- the property, and **`magicDns_resolves_iff`** -- when it holds: at most 15
    labels, and the first node that fits has the addresses of this one;
  * **`magicDns_shadowed`** -- two nodes of one name: the second is not found.
-/
import Wirebone.Dns.Qname
import Wirebone.Netmap.Mutual
import Wirebone.Store.Registry

namespace Wirebone

open ByteString FirstMatch Lts

/-! ## 1. The advertised name -/

/-- The `Name` of the `ExtraRecords` entries of a node. -/
def advertisedName (domain : Bytes) (n : NodeState) : Bytes :=
  (if n.hostname = [] then ascii "node-" ++ n.stableId else n.hostname) ++ ascii "." ++ domain

/-- The name splits at its dots into labels of 1 to 63 bytes, and its encoding has at most 255. -/
def goodName (name : Bytes) : Bool :=
  (name.splitOn 46).all goodLabel && decide ((encodeName (name.splitOn 46)).length ≤ 255)

section Netmap

variable {self n : NodeState} {domain now : Bytes} {all : List NodeState}

/-- **Every map in which a node is visible has its name**, with its addresses. -/
theorem buildFullMap_advertises (hn : n ∈ all) (hv : nodeVisibleTo self n = true) :
    { name := advertisedName domain n, type := ascii "A", value := n.ipv4 } ∈
        (buildFullMap self all domain now).dnsConfig.extraRecords ∧
      { name := advertisedName domain n, type := ascii "AAAA", value := n.ipv6 } ∈
        (buildFullMap self all domain now).dnsConfig.extraRecords := by
  have hshown : n ∈ all.filter (nodeVisibleTo self) := List.mem_filter.mpr ⟨hn, hv⟩
  rw [extraRecords_eq]
  exact ⟨List.mem_flatMap.mpr ⟨n, hshown, List.mem_cons_self⟩,
    List.mem_flatMap.mpr ⟨n, hshown, List.mem_cons_of_mem _ List.mem_cons_self⟩⟩

end Netmap

/-! ## 2. Addresses -/

/-- `inet_pton` reads what `inet_ntop` prints, and that is never empty. -/
structure Inet.Inverts (I : Inet) : Prop where
  v4 : ∀ a, I.pton4 (ipv4ToString a) = some a
  v6 : ∀ b, I.pton6 (I.ntop6 b) = some b
  nonempty : ∀ b, I.ntop6 b ≠ []

/-- The addresses of the node are printed ones. -/
def HasAddresses (I : Inet) (n : NodeState) (a : UInt32) (b : In6Addr) : Prop :=
  n.ipv4 = ipv4ToString a ∧ n.ipv6 = I.ntop6 b

/-- Every node of the store has addresses. -/
def Addressed (I : Inet) (s : Store) : Prop :=
  ∀ d ∈ identities s, ∃ a b, d.ipv4 = ipv4ToString a ∧ d.ipv6 = I.ntop6 b

section Reachable

variable {I : Inet} {p p' : Proc} {s t : Store}

theorem Addressed.congr (h : Addressed I s) (hids : identities t = identities s) : Addressed I t := by
  unfold Addressed
  rw [hids]
  exact h

theorem addressed_register {io : SaveIo} {m nodeKey hostname token : Bytes} {ephemeral shared : Bool}
    {w w' : World} {r : Except Exn NodeState} (h : Addressed I w.store)
    (hr : registerNode I io m nodeKey hostname ephemeral token shared w = (r, w')) :
    Addressed I w'.store := by
  rcases registerNode_cases hr with ⟨n, _, hc⟩ | ⟨_, _, rfl⟩ | ⟨ips, _, haddr, hc⟩
  · rw [(commit_cases hc).1]
    exact h.congr (identities_updateNode (reregistered_identity nodeKey hostname ephemeral) m _)
  · exact h
  · rw [(commit_cases hc).1]
    intro d hd
    have hids : d ∈ identities w.store ++ [(newNode w.store.nextNodeId m nodeKey hostname ephemeral
        token shared ips).identity] := by simpa [identities] using hd
    rcases List.mem_append.mp hids with hd | hd
    · exact h d hd
    · rw [List.mem_singleton.mp hd]
      obtain ⟨_, hips⟩ := addressFor_ok.mp haddr
      refine ⟨w.store.alloc.ipv4Base + w.store.nextIpIndex,
        ipv6Host w.store.alloc.ipv6Base w.store.nextIpIndex, ?_, ?_⟩
      · exact congrArg Prod.fst hips
      · exact congrArg Prod.snd hips

theorem cut_addresses (n : NodeState) (id : UInt64) :
    ({ n with id } : NodeState).identity.ipv4 = n.identity.ipv4 ∧
      ({ n with id } : NodeState).identity.ipv6 = n.identity.ipv6 := ⟨rfl, rfl⟩

theorem addressed_reloaded (h : Addressed I t) : Addressed I (reloaded t s) := by
  intro d hd
  obtain ⟨n, hn, rfl⟩ := List.mem_map.mp hd
  obtain ⟨n', hn', rfl⟩ := List.mem_map.mp hn
  obtain ⟨a, b, h4, h6⟩ := h n'.identity (List.mem_map_of_mem hn')
  obtain ⟨e4, e6⟩ := cut_addresses n' (cutId n'.id)
  exact ⟨a, b, e4.trans h4, e6.trans h6⟩

/-- **In every run the nodes have addresses.** -/
theorem addressed_run {w : World} (hfresh : w.store.nodes = []) {es : List Act}
    (h : Run (Of (step I)) { world := w } es p) :
    ∀ n ∈ p.world.store.nodes, ∃ a b, HasAddresses I n a b := by
  have hinv : p.Holds (Addressed I) := by
    refine h.inv_state (I := fun p => p.Holds (Addressed I)) ?_ ?_
    · refine ⟨?_, fun j hj => (nomatch hj)⟩
      intro d hd
      have hnil : d ∈ (w.store.nodes.map (·.identity)) := hd
      rw [hfresh] at hnil
      cases hnil
    · intro p e p' hp hs
      refine holds_step (fun s keys h => h) ?_ ?_ ?_ (fun t s ht _ => addressed_reloaded ht) hp hs
      · rintro io m nodeKey hostname ephemeral token shared r w' rfl hstore hr
        exact addressed_register hstore hr
      · intro m nodeKey discoKey hostname endpoints s hstore
        exact hstore.congr
          (identities_updateNode (mapUpdated_identity nodeKey discoKey hostname endpoints) m s.nodes)
      · exact fun m online s hstore => hstore.congr (identities_setOnline m online s)
  intro n hn
  exact hinv.store n.identity (List.mem_map_of_mem hn)

end Reachable

/-! ## 3. Records of a node -/

def asksA (qtype : Nat) : Bool := decide (qtype = kTypeA ∨ qtype = kTypeAny)

def asksAAAA (qtype : Nat) : Bool := decide (qtype = kTypeAAAA ∨ qtype = kTypeAny)

/-- The IPv4 address and the IPv6 address, as far as they are asked for. -/
def nodeRecords (a : UInt32) (b : In6Addr) (qtype : Nat) : List DnsRr :=
  (if asksA qtype then [{ type := kTypeA, data := bigEndian 4 a.toNat }] else []) ++
    (if asksAAAA qtype then [{ type := kTypeAAAA, data := b.val }] else [])

section NodeRecords

variable {I : Inet} {n : NodeState} {a a' : UInt32} {b b' : In6Addr}

theorem ipv4ToString_ne_nil (a : UInt32) : ipv4ToString a ≠ [] := by
  simp [ipv4ToString]

theorem answerRecords_eq (hI : I.Inverts) (h : HasAddresses I n a b) (qtype : Nat) :
    answerRecords I n qtype = nodeRecords a b qtype := by
  have h4 : n.ipv4 ≠ [] := by
    rw [h.1]
    exact ipv4ToString_ne_nil a
  have h6 : n.ipv6 ≠ [] := by
    rw [h.2]
    exact hI.nonempty b
  have e4 : I.pton4 n.ipv4 = some a := by rw [h.1, hI.v4]
  have e6 : I.pton6 n.ipv6 = some b := by rw [h.2, hI.v6]
  unfold answerRecords nodeRecords asksA asksAAAA
  simp only [e4, e6, h4, h6, ne_eq, not_false_eq_true, and_true, decide_eq_true_eq]

theorem nodeRecords_sized (a : UInt32) (b : In6Addr) (qtype : Nat) :
    ∀ rr ∈ nodeRecords a b qtype, rr.Sized := by
  intro rr hrr
  unfold nodeRecords at hrr
  rcases List.mem_append.mp hrr with h | h
  · split at h
    · rw [List.mem_singleton.mp h]
      exact ⟨(by decide : kTypeA < 65536), by simp⟩
    · cases h
  · split at h
    · rw [List.mem_singleton.mp h]
      exact ⟨(by decide : kTypeAAAA < 65536), by simp [b.2]⟩
    · cases h

theorem nodeRecords_length (a : UInt32) (b : In6Addr) (qtype : Nat) :
    (nodeRecords a b qtype).length ≤ 2 := by
  unfold nodeRecords
  cases asksA qtype <;> cases asksAAAA qtype <;> simp

/-- The records tell the addresses that are asked for. -/
theorem nodeRecords_eq_iff (qtype : Nat) : nodeRecords a' b' qtype = nodeRecords a b qtype ↔
    (asksA qtype = true → a' = a) ∧ (asksAAAA qtype = true → b' = b) := by
  have h4 : bigEndian 4 a'.toNat = bigEndian 4 a.toNat ↔ a' = a := by
    refine ⟨fun h => UInt32.toNat_inj.mp (bigEndian_inj (w := 4) a'.toNat_lt a.toNat_lt h), ?_⟩
    rintro rfl
    rfl
  have h6 : b'.val = b.val ↔ b' = b := Subtype.ext_iff.symm
  unfold nodeRecords
  cases asksA qtype <;> cases asksAAAA qtype <;> simp [h4, h6]

end NodeRecords

/-! ## 4. The answer to a plain question -/

section Answer

variable {q : DnsQuery}

/-- The fields of a response as a client reads them. -/
theorem response_reads {rrs : List DnsRr} (h : ∀ rr ∈ rrs, rr.Sized) (hlen : rrs.length < 65536)
    (found : Bool) :
    q.answers (dnsResponse q.encode q.questionEnd found rrs) = some rrs ∧
      rcode (dnsResponse q.encode q.questionEnd found rrs) = if found then 0 else 3 := by
  refine ⟨?_, ?_⟩
  · have hcount : wordAt (dnsResponse q.encode q.questionEnd found rrs) 6 = rrs.length := by
      have hsplit : dnsResponse q.encode q.questionEnd found rrs =
          [byteAt q.encode 0, byteAt q.encode 1, 0x81, if found then 0x80 else 0x83, byteAt q.encode 4,
            byteAt q.encode 5] ++ (put16 rrs.length ++
              ([0, 0, 0, 0] ++ (q.encode.take q.questionEnd).drop 12 ++ rrs.flatMap (·.encode))) := by
        simp [dnsResponse]
      rw [hsplit]
      exact wordAt_put16 _ _ hlen
    have hsection : (dnsResponse q.encode q.questionEnd found rrs).drop q.questionEnd =
        rrs.flatMap (·.encode) := by
      have hend : q.questionEnd ≤ q.encode.length := by
        simp only [DnsQuery.questionEnd, DnsQuery.encode, List.length_append, q.header_length, put16,
          bigEndian_length]
        omega
      have hhead : ([byteAt q.encode 0, byteAt q.encode 1, 0x81, if found then 0x80 else 0x83,
          byteAt q.encode 4, byteAt q.encode 5] ++ put16 rrs.length ++ [0, 0, 0, 0] ++
          (q.encode.take q.questionEnd).drop 12).length = q.questionEnd := by
        simp only [List.length_append, List.length_drop, List.length_take, put16, bigEndian_length,
          List.length_cons, List.length_nil]
        have h12 : 12 ≤ q.questionEnd := by
          unfold DnsQuery.questionEnd
          omega
        omega
      exact List.drop_left' hhead
    rw [DnsQuery.answers, hcount, hsection, readRrs_encode h]
  · have hthree : byteAt (dnsResponse q.encode q.questionEnd found rrs) 3 =
        if found then 0x80 else 0x83 := by
      simp [dnsResponse, byteAt]
    rw [rcode, hthree]
    cases found
    · rfl
    · rfl

/-- **A plain question** is parsed where its name has at most 15 labels, and answered from the first
    node that fits the name in lower case. -/
theorem answer_query (I : Inet) (nodes : List NodeState) (domain : Bytes) (hne : q.labels ≠ [])
    (hgood : ∀ l ∈ q.labels, goodLabel l = true) (htype : q.qtype < 65536) :
    answer I nodes domain q.encode =
      if q.labels.length ≤ 15 then
        match nodes.find? (dnsMatches (lowerCopy domain) (lowerCopy ([46].intercalate q.labels))) with
        | none => some (dnsResponse q.encode q.questionEnd false [])
        | some n => some (dnsResponse q.encode q.questionEnd true (answerRecords I n q.qtype))
      else none := by
  have hlen : q.encode.length = q.questionEnd := by
    simp only [DnsQuery.questionEnd, DnsQuery.encode, List.length_append, q.header_length, put16,
      bigEndian_length]
  have hlong : ¬ q.encode.length < 12 := by
    rw [hlen, DnsQuery.questionEnd]
    omega
  have hencode : q.encode = q.header ++ (encodeName q.labels ++ put16 q.qtype ++ put16 q.qclass) := by
    simp [DnsQuery.encode]
  have hquery : (wordAt q.encode 2).testBit 15 = false := by
    rw [hencode, wordAt_left (by rw [q.header_length]; decide)]
    refine Nat.testBit_lt_two_pow ?_
    have h2 := UInt8.lt_iff_toNat_lt.mp q.query
    have h3 := (byteAt q.header 3).toNat_lt
    have h128 : (128 : UInt8).toNat = 128 := rfl
    show (byteAt q.header 2).toNat * 256 + (byteAt q.header 3).toNat < 2 ^ 15
    omega
  have hone : ¬ wordAt q.encode 4 < 1 := by
    rw [hencode, wordAt_left (by rw [q.header_length]; decide), q.one]
    omega
  have hparse : parseQname q.encode 16 12 false 12 [] =
      if q.labels.length < 16 then
        some (12 + (encodeName q.labels).length, popDot (q.labels.flatMap (· ++ [46])))
      else none := by
    have hmsg : q.encode = q.header ++ encodeName q.labels ++ (put16 q.qtype ++ put16 q.qclass) := by
      simp [DnsQuery.encode]
    have h := parseQname_encodeName q.header (put16 q.qtype ++ put16 q.qclass) q.labels hgood 16 12 []
    rw [← hmsg, q.header_length, List.nil_append] at h
    exact h
  have hqtype : wordAt q.encode (12 + (encodeName q.labels).length) = q.qtype := by
    have hpre : 12 + (encodeName q.labels).length = (q.header ++ encodeName q.labels).length := by
      rw [List.length_append, q.header_length]
    rw [hpre, DnsQuery.encode, List.append_assoc (q.header ++ encodeName q.labels)]
    exact wordAt_put16 _ _ htype
  unfold answer
  rw [if_neg hlong, hquery, hparse]
  simp only [Bool.false_eq_true, if_false, if_neg hone]
  by_cases hcount : q.labels.length < 16
  · have hfit : ¬ 12 + (encodeName q.labels).length + 4 > q.encode.length := by
      rw [hlen, DnsQuery.questionEnd]
      omega
    simp only [if_pos hcount, if_pos (show q.labels.length ≤ 15 by omega), if_neg hfit,
      popDot_labels hne, hqtype]
    rfl
  · simp only [if_neg hcount, if_neg (show ¬ q.labels.length ≤ 15 by omega)]

end Answer

/-! ## 5. Names that resolve -/

/-- The question is for the name, in any letter case. -/
def DnsQuery.asks (q : DnsQuery) (name : Bytes) : Prop :=
  q.labels.map lowerCopy = (name.splitOn 46).map lowerCopy

/-- **The question is answered** with the records `rrs` and no others. -/
def Resolves (I : Inet) (nodes : List NodeState) (domain : Bytes) (q : DnsQuery) (rrs : List DnsRr) : Prop :=
  ∃ resp, answer I nodes domain q.encode = some resp ∧ rcode resp = 0 ∧ q.answers resp = some rrs

/-- **The condition**: the name has at most 15 labels, and the first node that fits it has the
    addresses that are asked for. -/
def resolvable (nodes : List NodeState) (domain : Bytes) (n : NodeState) (qtype : Nat) : Bool :=
  decide (((advertisedName domain n).splitOn 46).length ≤ 15) &&
    match nodes.find? (dnsMatches (lowerCopy domain) (lowerCopy (advertisedName domain n))) with
    | none => false
    | some m =>
      (!asksA qtype || decide (m.ipv4 = n.ipv4)) && (!asksAAAA qtype || decide (m.ipv6 = n.ipv6))

section Resolve

variable {I : Inet} {nodes : List NodeState} {domain name : Bytes} {q : DnsQuery} {n : NodeState}

/-- A name in another letter case has the same labels, up to case. -/
theorem asks_labels (h : q.asks name) (hgood : (name.splitOn 46).all goodLabel = true) :
    q.labels.length = (name.splitOn 46).length ∧ q.labels ≠ [] ∧
      (∀ l ∈ q.labels, goodLabel l = true) ∧ lowerCopy ([46].intercalate q.labels) = lowerCopy name := by
  have hlen : q.labels.length = (name.splitOn 46).length := by
    simpa using congrArg List.length h
  refine ⟨hlen, ?_, ?_, ?_⟩
  · intro hnil
    rw [hnil] at hlen
    have hne : name.splitOn 46 ≠ [] := List.splitOn_ne_nil _ _
    exact hne (List.length_eq_zero_iff.mp hlen.symm)
  · intro l hl
    have hmem : lowerCopy l ∈ (name.splitOn 46).map lowerCopy := by
      rw [← h]
      exact List.mem_map_of_mem hl
    obtain ⟨l', hl', heq⟩ := List.mem_map.mp hmem
    have hsize : l'.length = l.length := by simpa [lowerCopy] using congrArg List.length heq
    have hgood' := List.all_eq_true.mp hgood l' hl'
    rw [goodLabel, hsize] at hgood'
    exact hgood'
  · rw [lowerCopy_intercalate, h, ← lowerCopy_intercalate, List.intercalate_splitOn]

/-- A node fits its own name. -/
theorem dnsMatches_self (domain : Bytes) (n : NodeState) :
    dnsMatches (lowerCopy domain) (lowerCopy (advertisedName domain n)) n = true := by
  have hname : lowerCopy (advertisedName domain n) = dnsHost n ++ ascii "." ++ lowerCopy domain := by
    have hdot : lowerCopy (ascii ".") = ascii "." := by decide
    simp only [advertisedName, dnsHost, lowerCopy, List.map_append] at hdot ⊢
    rw [hdot]
  simp [dnsMatches, hname]

/-- **When a node's name resolves to its addresses**, with addresses that are printed ones. -/
theorem resolves_iff (hI : I.Inverts) (haddr : ∀ m ∈ nodes, ∃ a b, HasAddresses I m a b)
    (hn : n ∈ nodes) (hgood : goodName (advertisedName domain n) = true)
    (hq : q.asks (advertisedName domain n)) (htype : q.qtype < 65536) {a : UInt32} {b : In6Addr}
    (hab : HasAddresses I n a b) :
    Resolves I nodes domain q (nodeRecords a b q.qtype) ↔ resolvable nodes domain n q.qtype = true := by
  obtain ⟨hlen, hne, hlabels, hwant⟩ := asks_labels hq (Bool.and_eq_true_iff.mp hgood).1
  have hanswer := answer_query I nodes domain hne hlabels htype
  rw [hwant, hlen] at hanswer
  unfold resolvable
  by_cases hcount : ((advertisedName domain n).splitOn 46).length ≤ 15
  · rw [if_pos hcount] at hanswer
    obtain ⟨m, hm⟩ : ∃ m, nodes.find? (dnsMatches (lowerCopy domain)
        (lowerCopy (advertisedName domain n))) = some m := by
      refine Option.isSome_iff_exists.mp (List.find?_isSome.mpr ⟨n, hn, ?_⟩)
      exact dnsMatches_self domain n
    obtain ⟨a', b', hab'⟩ := haddr m (List.mem_of_find?_eq_some hm)
    simp only [hm, answerRecords_eq hI hab'] at hanswer
    -- the answer has the records of the node that is found
    obtain ⟨hread, hcode⟩ := response_reads (q := q) (nodeRecords_sized a' b' q.qtype)
      (Nat.lt_of_le_of_lt (nodeRecords_length a' b' q.qtype) (by decide)) true
    have h4 : m.ipv4 = n.ipv4 ↔ a' = a := by
      rw [hab'.1, hab.1]
      exact ipv4ToString_injective.eq_iff
    have h6 : m.ipv6 = n.ipv6 ↔ b' = b := by
      rw [hab'.2, hab.2]
      refine ⟨fun h => ?_, fun h => by rw [h]⟩
      have hsome := hI.v6 b'
      rw [h, hI.v6 b] at hsome
      exact (Option.some.inj hsome).symm
    have hrecords : Resolves I nodes domain q (nodeRecords a b q.qtype) ↔
        nodeRecords a' b' q.qtype = nodeRecords a b q.qtype := by
      constructor
      · rintro ⟨resp, hresp, _, hrrs⟩
        obtain rfl := Option.some.inj (hanswer.symm.trans hresp)
        exact Option.some.inj (hread.symm.trans hrrs)
      · intro h
        exact ⟨_, hanswer, hcode, by rw [hread, h]⟩
    rw [hrecords, nodeRecords_eq_iff]
    cases asksA q.qtype <;> cases asksAAAA q.qtype <;> simp [hcount, hm, h4, h6]
  · rw [if_neg hcount] at hanswer
    constructor
    · rintro ⟨resp, hresp, _⟩
      rw [hanswer] at hresp
      cases hresp
    · intro h
      simp [hcount] at h

end Resolve

/-- **MagicDNS and the netmap**: in every reachable store every node has addresses, and a question for
    its advertised name is answered with just them if and only if the name has at most 15 labels and
    the first node that fits it has the addresses asked for. -/
theorem magicDns_resolves_iff (I : Inet) (hI : I.Inverts) (w : World) (hfresh : w.store.nodes = [])
    (es : List Act) (p : Proc) (hrun : Run (Of (step I)) { world := w } es p) (domain : Bytes)
    (n : NodeState) (hn : n ∈ p.world.store.nodes) (hgood : goodName (advertisedName domain n) = true)
    (q : DnsQuery) (hq : q.asks (advertisedName domain n))
    (htype : q.qtype = kTypeA ∨ q.qtype = kTypeAAAA ∨ q.qtype = kTypeAny) :
    ∃ a b, HasAddresses I n a b ∧
      (Resolves I p.world.store.nodes domain q (nodeRecords a b q.qtype) ↔
        resolvable p.world.store.nodes domain n q.qtype = true) := by
  have haddr := addressed_run hfresh hrun
  obtain ⟨a, b, hab⟩ := haddr n hn
  refine ⟨a, b, hab, resolves_iff hI haddr hn hgood hq ?_ hab⟩
  rcases htype with h | h | h
  · rw [h]
    decide
  · rw [h]
    decide
  · rw [h]
    decide

/-! ## 6. Two nodes of one name -/

/-- The number a numeral stands for. -/
def numeral (t : Bytes) : Nat := Nat.ofDigitChars 10 (t.map fun b => Char.ofNat b.toNat) 0

theorem numeral_decimal (n : Nat) : numeral (decimal n) = n := by
  rw [numeral, decimal_chars, Nat.ofDigitChars_ten_toDigits]

/-- `inet_pton` of an IPv4 address, by its four numerals. -/
def dottedPton4 (t : Bytes) : Option UInt32 :=
  match (t.splitOn 46).map numeral with
  | [a, b, c, d] =>
    let v := UInt32.ofNat (a * 2 ^ 24 + b * 2 ^ 16 + c * 2 ^ 8 + d)
    if ipv4ToString v = t then some v else none
  | _ => none

theorem dottedPton4_ipv4ToString (a : UInt32) : dottedPton4 (ipv4ToString a) = some a := by
  have hlt := a.toNat_lt
  have hsplit : (ipv4ToString a).splitOn 46 = [decimal (a.toNat / 2 ^ 24), decimal (a.toNat / 2 ^ 16 % 256),
      decimal (a.toNat / 2 ^ 8 % 256), decimal (a.toNat % 256)] := by
    have hjoin : ipv4ToString a = [46].intercalate [decimal (a.toNat / 2 ^ 24),
        decimal (a.toNat / 2 ^ 16 % 256), decimal (a.toNat / 2 ^ 8 % 256), decimal (a.toNat % 256)] := by
      simp [ipv4ToString, List.intercalate]
    rw [hjoin]
    refine List.splitOn_intercalate 46 ?_ (by simp)
    intro l hl
    simp only [List.mem_cons, List.not_mem_nil, or_false] at hl
    rcases hl with rfl | rfl | rfl | rfl
    · exact dot_notMem_decimal _
    · exact dot_notMem_decimal _
    · exact dot_notMem_decimal _
    · exact dot_notMem_decimal _
  have hvalue : UInt32.ofNat (a.toNat / 2 ^ 24 * 2 ^ 24 + a.toNat / 2 ^ 16 % 256 * 2 ^ 16 +
      a.toNat / 2 ^ 8 % 256 * 2 ^ 8 + a.toNat % 256) = a := by
    refine UInt32.toNat_inj.mp ?_
    rw [UInt32.toNat_ofNat']
    omega
  simp only [dottedPton4, hsplit, List.map_cons, List.map_nil, numeral_decimal, hvalue, if_true]

/-- `inet_pton` of the addresses that `sampleNtop6` prints. -/
def samplePton6 (t : Bytes) : Option In6Addr :=
  if t = ascii "fd7a:115c:a1e0::" then some sampleBase6
  else if t = ascii "fd7a:115c:a1e0::1" then some (ipv6Host sampleBase6 1)
  else if t = ascii "fd7a:115c:a1e0::2" then some (ipv6Host sampleBase6 2)
  else (hexDecode t 16).map fun b => ⟨fill 16 b, fill_length 16 b⟩

theorem samplePton6_sampleNtop6 (a : In6Addr) : samplePton6 (sampleNtop6 a) = some a := by
  rcases sampleNtop6_cases a with ⟨rfl, h⟩ | ⟨rfl, h⟩ | h
  · rw [h]
    decide +kernel
  · rw [h]
    decide +kernel
  · have hlen : (hexEncode a.val).length = 32 := by rw [hexEncode_length, a.2]
    have hne : ∀ t : Bytes, t.length ≠ 32 → hexEncode a.val ≠ t := by
      rintro t ht rfl
      exact ht hlen
    have hdec := hexDecode_hexEncode a.val
    rw [a.2] at hdec
    rw [h, samplePton6, if_neg (hne _ (by decide)), if_neg (hne _ (by decide)),
      if_neg (hne _ (by decide)), hdec]
    exact congrArg some (Subtype.ext (fill_of_length a.2))

/-- Address functions that print and read. -/
def Inet.printed : Inet where
  pton4 := dottedPton4
  pton6 := samplePton6
  ntop6 := sampleNtop6

theorem printed_inverts : Inet.printed.Inverts where
  v4 := dottedPton4_ipv4ToString
  v6 := samplePton6_sampleNtop6
  nonempty b := by
    intro h
    have hb := samplePton6_sampleNtop6 b
    have hnil : sampleNtop6 b = [] := h
    have hnone : samplePton6 [] = none := by decide +kernel
    rw [hnil, hnone] at hb
    cases hb

/-- A store without nodes. -/
def poolWorld : World := { store := { path := [], alloc := pool16 }, file := none }

def aliceRegisters (m : Bytes) : Act := .register {} m [] (ascii "alice") false [] false

/-- A question for the addresses of `ALICE.wirebone.local`. -/
def aliceQuery (qtype : Nat) : DnsQuery where
  header := [0x12, 0x34, 1, 0, 0, 1, 0, 0, 0, 0, 0, 0]
  labels := [ascii "ALICE", ascii "wirebone", ascii "local"]
  qtype
  header_length := rfl
  query := by decide
  one := by decide

/-- The `i`-th node that calls itself alice. -/
def aliceNode (i : UInt32) (m : Bytes) : NodeState :=
  newNode (UInt64.ofNat i.toNat) m [] (ascii "alice") false [] false
    (ipv4ToString (pool16.ipv4Base + i), sampleNtop6 (ipv6Host pool16.ipv6Base i))

/-- Two machines call themselves alice: the second is given the address of the first. -/
theorem magicDns_shadowed :
    ∃ p, Run (Of (step Inet.printed)) { world := poolWorld }
        [aliceRegisters (ascii "m1"), aliceRegisters (ascii "m2")] p ∧
      aliceNode 2 (ascii "m2") ∈ p.world.store.nodes ∧
      goodName (advertisedName (ascii "wirebone.local") (aliceNode 2 (ascii "m2"))) = true ∧
      (aliceQuery kTypeA).asks (advertisedName (ascii "wirebone.local") (aliceNode 2 (ascii "m2"))) ∧
      HasAddresses Inet.printed (aliceNode 2 (ascii "m2")) (pool16.ipv4Base + 2) (ipv6Host pool16.ipv6Base 2) ∧
      ¬ Resolves Inet.printed p.world.store.nodes (ascii "wirebone.local") (aliceQuery kTypeA)
        (nodeRecords (pool16.ipv4Base + 2) (ipv6Host pool16.ipv6Base 2) kTypeA) := by
  have hexec : (exec (step Inet.printed) { world := poolWorld }
      [aliceRegisters (ascii "m1"), aliceRegisters (ascii "m2")]).map (·.world.store.nodes) =
      some [aliceNode 1 (ascii "m1"), aliceNode 2 (ascii "m2")] := by decide +kernel
  obtain ⟨p, hp, hnodes⟩ := Option.map_eq_some_iff.mp hexec
  refine ⟨p, run_of_exec hp, by rw [hnodes]; simp, by decide +kernel, ?_, ⟨rfl, rfl⟩, ?_⟩
  · unfold DnsQuery.asks
    decide +kernel
  · rintro ⟨resp, hresp, _, hrrs⟩
    rw [hnodes] at hresp
    have hfirst : (answer Inet.printed [aliceNode 1 (ascii "m1"), aliceNode 2 (ascii "m2")]
        (ascii "wirebone.local") (aliceQuery kTypeA).encode).bind (aliceQuery kTypeA).answers =
        some [{ type := kTypeA, data := [100, 64, 0, 1] }] := by decide +kernel
    rw [hresp, Option.bind_some, hrrs] at hfirst
    revert hfirst
    decide +kernel

/-- One machine calls itself alice. -/
theorem magicDns_resolves_alice :
    ∃ p a b, Run (Of (step Inet.printed)) { world := poolWorld } [aliceRegisters (ascii "m1")] p ∧
      HasAddresses Inet.printed (aliceNode 1 (ascii "m1")) a b ∧
      Resolves Inet.printed p.world.store.nodes (ascii "wirebone.local") (aliceQuery kTypeAny)
        (nodeRecords a b kTypeAny) := by
  have hexec : (exec (step Inet.printed) { world := poolWorld } [aliceRegisters (ascii "m1")]).map
      (·.world.store.nodes) = some [aliceNode 1 (ascii "m1")] := by decide +kernel
  obtain ⟨p, hp, hnodes⟩ := Option.map_eq_some_iff.mp hexec
  have hrun := run_of_exec hp
  have hasks : (aliceQuery kTypeAny).asks
      (advertisedName (ascii "wirebone.local") (aliceNode 1 (ascii "m1"))) := by
    unfold DnsQuery.asks
    decide +kernel
  obtain ⟨a, b, hab, hiff⟩ := magicDns_resolves_iff Inet.printed printed_inverts poolWorld rfl
    [aliceRegisters (ascii "m1")] p hrun (ascii "wirebone.local") (aliceNode 1 (ascii "m1"))
    (by rw [hnodes]; exact List.mem_singleton.mpr rfl) (by decide +kernel) (aliceQuery kTypeAny) hasks
    (.inr (.inr rfl))
  refine ⟨p, a, b, hrun, hab, hiff.mpr ?_⟩
  rw [hnodes]
  decide +kernel

end Wirebone
