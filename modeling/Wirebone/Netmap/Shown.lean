/-
  File:      Wirebone/Netmap/Shown.lean
  Subject:   WHAT A MAP SHOWS OF THE OTHER NODES, and which changes of the nodes change that.

  The loop of `build_full_map` takes from every node that `self` sees its addresses for the packet filter,
  its names for the DNS records and, unless it has the id of `self`, its entry among the peers. The rest
  of a map is `self`, the domain, the clock and constants.

  * `collect`, `collect_append` -- what the loop takes, node by node;
  * `shownTo` -- what a machine's map holds of the nodes other than its own; `collect_shown` -- the map
    holds that and what the own node adds;
  * `addNode_update_iff` -- when an update of a node changes what the loop takes from it;
  * **`views_update`**, **`views_append`** -- whether an update, or a new node, changes some machine's view.
-/
import Wirebone.Netmap
import Wirebone.Store.Registry

namespace Wirebone

open ByteString FirstMatch

/-! ## 1. What the loop takes -/

/-- One collection behind another. -/
def MapParts.append (a b : MapParts) : MapParts :=
  { peers := a.peers ++ b.peers
    extra := a.extra ++ b.extra
    srcIps := a.srcIps ++ b.srcIps
    dstPorts := a.dstPorts ++ b.dstPorts }

/-- What the loop of `build_full_map` takes from the nodes. -/
def collect (self : NodeState) (domain now : Bytes) (all : List NodeState) : MapParts :=
  all.foldl (addNode self domain now) {}

/-- The name of a node in the DNS records. -/
def NodeState.shownName (n : NodeState) : Bytes :=
  if n.hostname = [] then ascii "node-" ++ n.stableId else n.hostname

section Collect

variable {self n : NodeState} {domain now : Bytes} {a b c : MapParts}

theorem MapParts.append_right_inj : a.append b = a.append c ↔ b = c := by
  unfold MapParts.append
  simp only [MapParts.mk.injEq, List.append_cancel_left_eq]
  rw [MapParts.ext_iff]

theorem MapParts.append_left_inj : b.append a = c.append a ↔ b = c := by
  unfold MapParts.append
  simp only [MapParts.mk.injEq, List.append_cancel_right_eq]
  rw [MapParts.ext_iff]

theorem MapParts.append_assoc : (a.append b).append c = a.append (b.append c) := by
  simp only [MapParts.append, List.append_assoc]

theorem MapParts.append_nil : a.append {} = a := by
  simp only [MapParts.append, List.append_nil]

theorem MapParts.nil_append : MapParts.append {} a = a := rfl

/-- A node adds what it adds alone. -/
theorem addNode_append (acc : MapParts) (n : NodeState) :
    addNode self domain now acc n = acc.append (addNode self domain now {} n) := by
  cases hv : nodeVisibleTo self n with
  | false => rw [addNode_hidden hv, addNode_hidden hv, MapParts.append_nil]
  | true =>
    by_cases hid : n.id = self.id
    · simp [addNode, hv, hid, addDns, addFilterIps, MapParts.append]
    · simp [addNode, hv, hid, addDns, addFilterIps, MapParts.append]

theorem foldl_addNode_append (all : List NodeState) (acc : MapParts) :
    all.foldl (addNode self domain now) acc = acc.append (collect self domain now all) := by
  induction all generalizing acc with
  | nil => rw [collect, List.foldl_nil, List.foldl_nil, MapParts.append_nil]
  | cons n all ih =>
    rw [collect, List.foldl_cons, List.foldl_cons, ih, ih (addNode self domain now {} n), addNode_append acc n,
      MapParts.append_assoc]

theorem collect_cons (n : NodeState) (all : List NodeState) : collect self domain now (n :: all) =
    (addNode self domain now {} n).append (collect self domain now all) :=
  foldl_addNode_append all _

theorem collect_append (all all' : List NodeState) : collect self domain now (all ++ all') =
    (collect self domain now all).append (collect self domain now all') := by
  rw [collect, List.foldl_append]
  exact foldl_addNode_append all' _

/-- Every node that `self` sees leaves its records. -/
theorem collect_eq_nil_iff (all : List NodeState) :
    collect self domain now all = {} ↔ ∀ n ∈ all, nodeVisibleTo self n = false := by
  constructor
  · intro h n hn
    cases hv : nodeVisibleTo self n with
    | false => rfl
    | true =>
      obtain ⟨before, behind, rfl⟩ := List.append_of_mem hn
      rw [collect_append, collect_cons] at h
      have hextra := congrArg (fun p => p.extra.length) h
      by_cases hid : n.id = self.id
      · simp [addNode, hv, hid, addDns, addFilterIps, MapParts.append] at hextra
      · simp [addNode, hv, hid, addDns, addFilterIps, MapParts.append] at hextra
  · intro h
    induction all with
    | nil => rfl
    | cons n all ih =>
      rw [collect_cons, addNode_hidden (h n List.mem_cons_self), MapParts.nil_append]
      exact ih fun m hm => h m (List.mem_cons_of_mem _ hm)

/-- What is taken depends on the identity and the group of `self`. -/
theorem addNode_congr {self' : NodeState} (hid : self'.id = self.id) (htoken : self'.token = self.token)
    (hshared : self'.shared = self.shared) : addNode self' domain now = addNode self domain now := by
  funext acc n
  rw [addNode, addNode, nodeVisibleTo, nodeVisibleTo, hid, htoken, hshared]

/-- An update of the first node that matches changes what is taken exactly if it changes what is taken of
    that node. -/
theorem collect_modifyFirst {p : NodeState → Bool} {f : NodeState → NodeState} (all : List NodeState) :
    collect self domain now (modifyFirst p f all) = collect self domain now all ↔
      ∀ n, all.find? p = some n → addNode self domain now {} (f n) = addNode self domain now {} n := by
  induction all with
  | nil =>
    refine ⟨fun _ n hn => ?_, fun _ => rfl⟩
    cases hn
  | cons n all ih =>
    by_cases hp : p n = true
    · rw [modifyFirst, if_pos hp, List.find?_cons_of_pos hp, collect_cons, collect_cons,
        MapParts.append_left_inj]
      simp only [Option.some.injEq, forall_eq']
    · rw [modifyFirst, if_neg hp, List.find?_cons_of_neg hp, collect_cons, collect_cons,
        MapParts.append_right_inj]
      exact ih

end Collect

/-! ## 2. What a machine is shown -/

/-- **What the map of machine `v` shows of the other nodes**: all that its loop takes from them. -/
def shownTo (domain now : Bytes) (s : Store) (v : Bytes) : MapParts :=
  match findByMachine s v with
  | some self => collect self domain now (s.nodes.eraseP (·.machineKey = v))
  | none => {}

/-- Some machine is shown something else. -/
def ViewChanged (domain now : Bytes) (s s' : Store) : Prop :=
  ∃ v, shownTo domain now s' v ≠ shownTo domain now s v

/-- Some machine's map has node `n` as a peer. -/
def Seen (s : Store) (n : NodeState) : Prop :=
  ∃ v self, findByMachine s v = some self ∧ isPeer self n = true

/-- Another machine's node has the id of `n`: that machine's map has `n` in its records and its filter alone. -/
def Doubled (s : Store) (n : NodeState) : Prop :=
  ∃ v self, findByMachine s v = some self ∧ v ≠ n.machineKey ∧ n.id = self.id

section Views

variable {domain now : Bytes} {s s' : Store} {m : Bytes} {n self : NodeState}

theorem shownTo_some {v : Bytes} (h : findByMachine s v = some self) :
    shownTo domain now s v = collect self domain now (s.nodes.eraseP (·.machineKey = v)) := by
  unfold shownTo
  rw [h]

theorem shownTo_none {v : Bytes} (h : findByMachine s v = none) : shownTo domain now s v = {} := by
  unfold shownTo
  rw [h]

theorem shownTo_congr (h : s'.nodes = s.nodes) (v : Bytes) :
    shownTo domain now s' v = shownTo domain now s v := by
  unfold shownTo findByMachine
  rw [h]

theorem viewChanged_same (h : s'.nodes = s.nodes) : ¬ ViewChanged domain now s s' := by
  rintro ⟨v, hv⟩
  exact hv (shownTo_congr h v)

/-- The other nodes, without the first one of the machine. -/
theorem others_eq {v : Bytes} {l₁ l₂ : List NodeState} (hself : self.machineKey = v)
    (hnone : ∀ x ∈ l₁, x.machineKey ≠ v) :
    (l₁ ++ self :: l₂).eraseP (·.machineKey = v) = l₁ ++ l₂ := by
  rw [List.eraseP_append_right _ fun x hx => by simpa using hnone x hx,
    List.eraseP_cons_of_pos (p := fun x : NodeState => decide (x.machineKey = v)) (decide_eq_true hself)]

/-- **A machine's map** holds what it is shown of the others and, between it, what its own node adds, which
    is no peer. -/
theorem collect_shown {v : Bytes} (h : findByMachine s v = some self) : ∃ before behind : MapParts,
    collect self domain now s.nodes = before.append ((addNode self domain now {} self).append behind) ∧
      (addNode self domain now {} self).peers = [] ∧ shownTo domain now s v = before.append behind := by
  obtain ⟨_, l₁, l₂, hl, hnone⟩ := List.find?_eq_some_iff_append.mp h
  refine ⟨collect self domain now l₁, collect self domain now l₂, ?_, ?_, ?_⟩
  · rw [hl, collect_append, collect_cons]
  · have hself : nodeVisibleTo self self = true := if_pos rfl
    simp [addNode, hself, addDns, addFilterIps]
  · rw [shownTo_some h, hl, others_eq (found_key h) fun x hx => by simpa using hnone x hx, collect_append]

/-- The update keeps the identity, the addresses and what decides who sees the node. -/
structure KeepsSight (f : NodeState → NodeState) : Prop where
  id : ∀ n, (f n).id = n.id
  stableId : ∀ n, (f n).stableId = n.stableId
  machineKey : ∀ n, (f n).machineKey = n.machineKey
  ipv4 : ∀ n, (f n).ipv4 = n.ipv4
  ipv6 : ∀ n, (f n).ipv6 = n.ipv6
  token : ∀ n, (f n).token = n.token
  shared : ∀ n, (f n).shared = n.shared

/-- The update of `set_online`. -/
def withOnline (online : Bool) (n : NodeState) : NodeState := { n with online }

theorem keepsSight_reregistered (nodeKey hostname : Bytes) (ephemeral : Bool) :
    KeepsSight (reregistered nodeKey hostname ephemeral) :=
  ⟨fun _ => rfl, fun _ => rfl, fun _ => rfl, fun _ => rfl, fun _ => rfl, fun _ => rfl, fun _ => rfl⟩

theorem keepsSight_mapUpdated (nodeKey discoKey hostname : Bytes) (endpoints : List Bytes) :
    KeepsSight (mapUpdated nodeKey discoKey hostname endpoints) :=
  ⟨fun _ => rfl, fun _ => rfl, fun _ => rfl, fun _ => rfl, fun _ => rfl, fun _ => rfl, fun _ => rfl⟩

theorem keepsSight_withOnline (online : Bool) : KeepsSight (withOnline online) :=
  ⟨fun _ => rfl, fun _ => rfl, fun _ => rfl, fun _ => rfl, fun _ => rfl, fun _ => rfl, fun _ => rfl⟩

theorem KeepsSight.addNode_self {f : NodeState → NodeState} (hf : KeepsSight f) (self : NodeState) :
    addNode (f self) domain now = addNode self domain now :=
  addNode_congr (hf.id self) (hf.token self) (hf.shared self)

theorem KeepsSight.visible {f : NodeState → NodeState} (hf : KeepsSight f) (self n : NodeState) :
    nodeVisibleTo self (f n) = nodeVisibleTo self n := by
  rw [nodeVisibleTo, nodeVisibleTo, hf.id, hf.token, hf.shared]

/-- Two states of a node look the same exactly if what requests can change of it is the same. -/
theorem nodeToTailcfg_eq_iff {a b : NodeState} (hid : a.id = b.id) (hstable : a.stableId = b.stableId)
    (hmachine : a.machineKey = b.machineKey) (h4 : a.ipv4 = b.ipv4) (h6 : a.ipv6 = b.ipv6) :
    nodeToTailcfg a domain now false = nodeToTailcfg b domain now false ↔
      a.hostname = b.hostname ∧ a.nodeKey = b.nodeKey ∧ a.discoKey = b.discoKey ∧
        a.endpoints = b.endpoints ∧ a.online = b.online := by
  have hoption : ∀ {α : Type} [DecidableEq α] {x y : List α},
      (if x = [] then none else some x) = (if y = [] then none else some y) → x = y := by
    intro α _ x y h
    by_cases hx : x = []
    · by_cases hy : y = []
      · rw [hx, hy]
      · rw [if_pos hx, if_neg hy] at h
        cases h
    · by_cases hy : y = []
      · rw [if_neg hx, if_pos hy] at h
        cases h
      · rw [if_neg hx, if_neg hy] at h
        exact Option.some.inj h
  constructor
  · intro h
    refine ⟨congrArg TailcfgNode.hostname h, congrArg TailcfgNode.key h,
      hoption (congrArg TailcfgNode.discoKey h), hoption (congrArg TailcfgNode.endpoints h), ?_⟩
    have ho : (a.online || false) = (b.online || false) := congrArg TailcfgNode.online h
    simpa using ho
  · rintro ⟨hhost, hkey, hdisco, hend, hon⟩
    unfold nodeToTailcfg
    rw [hid, hstable, hmachine, h4, h6, hhost, hkey, hdisco, hend, hon]

/-- The records and the filter entries of an updated node change with its name alone. -/
theorem records_update_iff {f : NodeState → NodeState} (hf : KeepsSight f) (acc : MapParts) :
    addDns domain (f n) (addFilterIps (f n) acc) = addDns domain n (addFilterIps n acc) ↔
      (f n).shownName = n.shownName := by
  have hfilter : addFilterIps (f n) acc = addFilterIps n acc := by
    simp only [addFilterIps, hf.ipv4, hf.ipv6]
  have hname : ∀ x : NodeState, addDns domain x (addFilterIps n acc) =
      { addFilterIps n acc with
        extra := (addFilterIps n acc).extra ++
          [{ name := x.shownName ++ ascii "." ++ domain, type := ascii "A", value := x.ipv4 },
           { name := x.shownName ++ ascii "." ++ domain, type := ascii "AAAA", value := x.ipv6 }] } :=
    fun x => rfl
  rw [hfilter, hname, hname, hf.ipv4, hf.ipv6]
  simp only [MapParts.mk.injEq, List.append_cancel_left_eq, List.append_cancel_right_eq, List.cons.injEq,
    DnsRecord.mk.injEq, and_true, true_and, and_self]

/-- **What a map takes from an updated node** is as before exactly if its entry is, where it is a peer, and
    its name is, where it has the id of the map's own node. -/
theorem addNode_update_iff {f : NodeState → NodeState} (hf : KeepsSight f) :
    addNode self domain now {} (f n) = addNode self domain now {} n ↔
      (isPeer self n = true → nodeToTailcfg (f n) domain now false = nodeToTailcfg n domain now false) ∧
        (n.id = self.id → (f n).shownName = n.shownName) := by
  cases hv : nodeVisibleTo self n with
  | false =>
    rw [addNode_hidden hv, addNode_hidden ((hf.visible self n).trans hv)]
    refine ⟨fun _ => ⟨fun hp => ?_, fun hid => ?_⟩, fun _ => rfl⟩
    · rw [isPeer, hv] at hp
      cases hp
    · rw [nodeVisibleTo, if_pos hid.symm] at hv
      cases hv
  | true =>
    have hrec : addDns domain (f n) (addFilterIps (f n) {}) = addDns domain n (addFilterIps n {}) ↔ _ :=
      records_update_iff hf {}
    rw [addNode, addNode, hf.visible, hv, hf.id]
    by_cases hid : n.id = self.id
    · have hp : isPeer self n = false := by simp [isPeer, hid]
      simp only [Bool.not_true, Bool.false_eq_true, if_false, hp, false_implies, true_and,
        hid, true_implies]
      exact hrec
    · have hp : isPeer self n = true := by simp [isPeer, hv, hid]
      simp only [Bool.not_true, Bool.false_eq_true, if_false, hp, true_implies, hid, false_implies, and_true]
      constructor
      · intro h
        have hpeers := congrArg MapParts.peers h
        exact List.singleton_inj.mp hpeers
      · intro h
        -- a node that looks the same has its name
        have hname : (f n).shownName = n.shownName := by
          have hhost : (f n).hostname = n.hostname := congrArg TailcfgNode.hostname h
          rw [NodeState.shownName, NodeState.shownName, hhost, hf.stableId]
        rw [hrec.mpr hname, h]

theorem findByMachine_update {f : NodeState → NodeState} (hf : KeepsSight f)
    (h : s'.nodes = updateNode m f s.nodes) (v : Bytes) :
    findByMachine s' v = if v = m then (findByMachine s v).map f else findByMachine s v := by
  unfold findByMachine
  rw [h, updateNode]
  by_cases hv : v = m
  · subst hv
    rw [if_pos rfl]
    refine find?_modifyFirst (fun a ha => ?_) s.nodes
    rw [hf.machineKey]
    exact ha
  · rw [if_neg hv]
    refine find?_modifyFirst_other (fun a ha => ?_) s.nodes
    have ham : a.machineKey = m := of_decide_eq_true ha
    rw [hf.machineKey, ham]
    exact ⟨decide_eq_false (Ne.symm hv), decide_eq_false (Ne.symm hv)⟩

/-- What one machine is shown after an update of a node. -/
theorem shownTo_update_iff {f : NodeState → NodeState} (hf : KeepsSight f)
    (hfind : findByMachine s m = some n) (h : s'.nodes = updateNode m f s.nodes) {v : Bytes}
    (hself : findByMachine s v = some self) :
    shownTo domain now s' v = shownTo domain now s v ↔
      v = m ∨ addNode self domain now {} (f n) = addNode self domain now {} n := by
  by_cases hv : v = m
  · -- the viewer is the updated node, which sees the others as before
    subst hv
    have hself' : findByMachine s' v = some (f self) := by
      rw [findByMachine_update hf h v, hself, if_pos rfl]
      rfl
    rw [shownTo_some hself', shownTo_some hself, h, updateNode, collect, hf.addNode_self,
      eraseP_modifyFirst (fun a ha => by rw [hf.machineKey]; exact ha)]
    exact ⟨fun _ => .inl rfl, fun _ => rfl⟩
  · have hself' : findByMachine s' v = some self := by
      rw [findByMachine_update hf h v, hself, if_neg hv]
    have hother : ∀ a : NodeState, decide (a.machineKey = m) = true →
        decide (a.machineKey = v) = false ∧ decide ((f a).machineKey = v) = false := by
      intro a ha
      rw [hf.machineKey, of_decide_eq_true ha]
      exact ⟨decide_eq_false (Ne.symm hv), decide_eq_false (Ne.symm hv)⟩
    have hfirst : (s.nodes.eraseP (·.machineKey = v)).find? (·.machineKey = m) = some n := by
      rw [find?_eraseP_other fun a ha => (hother a ha).1]
      exact hfind
    rw [shownTo_some hself', shownTo_some hself, h, updateNode, eraseP_modifyFirst_other hother,
      collect_modifyFirst, hfirst]
    simp only [Option.some.injEq, forall_eq', hv, false_or]

/-- **An update of a node** changes a view exactly if a machine sees it as a peer and it looks different now,
    or if it has another name now and another machine's node has its id. -/
theorem views_update {f : NodeState → NodeState} (hf : KeepsSight f)
    (hfind : findByMachine s m = some n) (h : s'.nodes = updateNode m f s.nodes) :
    ViewChanged domain now s s' ↔
      (Seen s n ∧ nodeToTailcfg (f n) domain now false ≠ nodeToTailcfg n domain now false) ∨
        (Doubled s n ∧ (f n).shownName ≠ n.shownName) := by
  have hmachine := found_key hfind
  have hview : ∀ v self, findByMachine s v = some self →
      (shownTo domain now s' v = shownTo domain now s v ↔ v = m ∨ _ ∧ _) := fun v self hself =>
    (shownTo_update_iff hf hfind h hself).trans (or_congr Iff.rfl (addNode_update_iff hf))
  constructor
  · rintro ⟨v, hv⟩
    cases hself : findByMachine s v with
    | none =>
      refine absurd ?_ hv
      rw [shownTo_none hself, shownTo_none]
      rw [findByMachine_update hf h v, hself]
      exact ite_self none
    | some self =>
      obtain ⟨hvm, hne⟩ := not_or.mp fun hsame => hv ((hview v self hself).mpr hsame)
      rcases not_and_or.mp hne with hne | hne
      · obtain ⟨hp, hlook⟩ := Classical.not_imp.mp hne
        exact .inl ⟨⟨v, self, hself, hp⟩, hlook⟩
      · obtain ⟨hid, hname⟩ := Classical.not_imp.mp hne
        exact .inr ⟨⟨v, self, hself, hmachine ▸ hvm, hid⟩, hname⟩
  · rintro (⟨⟨v, self, hself, hp⟩, hne⟩ | ⟨⟨v, self, hself, hvm, hid⟩, hne⟩)
    · refine ⟨v, fun heq => ?_⟩
      rcases (hview v self hself).mp heq with rfl | hsame
      · -- no node is its own peer
        obtain rfl := Option.some.inj (hself.symm.trans hfind)
        rw [isPeer_self] at hp
        cases hp
      · exact hne (hsame.1 hp)
    · refine ⟨v, fun heq => ?_⟩
      rcases (hview v self hself).mp heq with rfl | hsame
      · exact hvm hmachine.symm
      · exact hne (hsame.2 hid)

/-- The views that an update of the machine's node leaves as they were. -/
theorem views_kept {f : NodeState → NodeState} (hf : KeepsSight f) (hfind : findByMachine s m = some n)
    (h : s'.nodes = updateNode m f s.nodes) :
    ¬ ViewChanged domain now s s' ↔
      (¬ Seen s n ∨ nodeToTailcfg (f n) domain now false = nodeToTailcfg n domain now false) ∧
        (¬ Doubled s n ∨ (f n).shownName = n.shownName) := by
  rw [views_update hf hfind h, not_or, not_and_or, not_and_or, not_ne_iff, not_ne_iff]

/-- **A new node** changes a view exactly if it sees some node. -/
theorem views_append (hfind : findByMachine s n.machineKey = none) (h : s'.nodes = s.nodes ++ [n]) :
    ViewChanged domain now s s' ↔ ∃ v ∈ s.nodes, nodeVisibleTo n v = true := by
  have hnone : ∀ x ∈ s.nodes, x.machineKey ≠ n.machineKey :=
    fun x hx => by simpa using List.find?_eq_none.mp hfind x hx
  have hnew : findByMachine s' n.machineKey = some n := by
    unfold findByMachine at hfind ⊢
    rw [h, List.find?_append, hfind]
    simp
  have hshown : shownTo domain now s' n.machineKey = collect n domain now s.nodes := by
    rw [shownTo_some hnew, h, others_eq rfl hnone, List.append_nil]
  constructor
  · rintro ⟨v, hv⟩
    by_contra hno
    have hhidden : ∀ w ∈ s.nodes, nodeVisibleTo n w = false :=
      fun w hw => by_contra fun hp => hno ⟨w, hw, by simpa using hp⟩
    refine hv ?_
    cases hself : findByMachine s v with
    | some self =>
      have hmem := List.mem_of_find?_eq_some hself
      have hself' : findByMachine s' v = some self := by
        unfold findByMachine at hself ⊢
        rw [h, List.find?_append, hself]
        rfl
      have hothers : (s.nodes ++ [n]).eraseP (·.machineKey = v) = s.nodes.eraseP (·.machineKey = v) ++ [n] :=
        List.eraseP_append_left (p := fun x : NodeState => decide (x.machineKey = v))
          (decide_eq_true (found_key hself)) [n] hmem
      rw [shownTo_some hself', shownTo_some hself, h, hothers, collect_append, collect_cons,
        addNode_hidden ((nodeVisibleTo_symm self n).trans (hhidden self hmem))]
      exact MapParts.append_nil
    | none =>
      rw [shownTo_none hself]
      by_cases hvn : v = n.machineKey
      · rw [hvn, hshown]
        exact (collect_eq_nil_iff s.nodes).mpr hhidden
      · refine shownTo_none ?_
        unfold findByMachine at hself ⊢
        rw [h, List.find?_append, hself]
        simp [Ne.symm hvn]
  · rintro ⟨w, hw, hp⟩
    refine ⟨n.machineKey, ?_⟩
    rw [shownTo_none hfind, hshown]
    intro hnil
    rw [(collect_eq_nil_iff s.nodes).mp hnil w hw] at hp
    cases hp

end Views

end Wirebone
