/-
  File:      Wirebone/Coordinator/Erasure.lean
  Subject:   WHETHER A REQUEST CAN EMPTY WHAT IS KNOWN OF A NODE: its node key, its host name and its
             disco key.

  Two paths write these fields from bodies whose members may be missing. `update_map_info` writes
  none of the three where the request has nothing; `register_node` spares the host name of a known
  node, and writes the node key whatever it is:

  * `Retained` -- a field that is not empty stays so, from one store to another;
  * `advance_retained` -- one section; `pendingKey` is the node key a registration carries;
  * **`identity_data_kept`** -- the host name and the disco key in every run, the node key in every
    run whose registrations of the machine have one.
-/
import Wirebone.Coordinator.Announce

namespace Wirebone

open ByteString FirstMatch Lts

/-! ## 1. The fields -/

inductive IdField where
  | nodeKey
  | hostname
  | discoKey
  deriving DecidableEq

def IdField.of : IdField → NodeState → Bytes
  | .nodeKey, n => n.nodeKey
  | .hostname, n => n.hostname
  | .discoKey, n => n.discoKey

/-- **The field of the node of `m` is not emptied** from store `a` to store `b`. -/
def Retained (f : IdField) (m : Bytes) (a b : Store) : Prop :=
  ∀ n, findByMachine a m = some n → f.of n ≠ [] →
    ∃ n', findByMachine b m = some n' ∧ n'.id = n.id ∧ f.of n' ≠ []

section Retained

variable {f : IdField} {m v : Bytes} {a b d : Store}

theorem Retained.of_nodes (h : b.nodes = a.nodes) : Retained f m a b := by
  intro n hn hne
  refine ⟨n, ?_, rfl, hne⟩
  unfold findByMachine at hn ⊢
  rw [h]
  exact hn

theorem Retained.trans (h : Retained f m a b) (h' : Retained f m b d) : Retained f m a d := by
  intro n hn hne
  obtain ⟨n', hn', hid, hne'⟩ := h n hn hne
  obtain ⟨n'', hn'', hid', hne''⟩ := h' n' hn' hne'
  exact ⟨n'', hn'', hid'.trans hid, hne''⟩

/-- An update of the node of `v` that spares the field where `v` is `m`. -/
theorem Retained.of_update {u : NodeState → NodeState} (hu : KeepsSight u)
    (hf : v = m → ∀ n, f.of n ≠ [] → f.of (u n) ≠ []) (h : b.nodes = updateNode v u a.nodes) :
    Retained f m a b := by
  intro n hn hne
  have hfind := findByMachine_update hu h m
  by_cases hv : m = v
  · rw [if_pos hv, hn] at hfind
    exact ⟨u n, hfind, hu.id n, hf hv.symm n hne⟩
  · rw [if_neg hv, hn] at hfind
    exact ⟨n, hfind, rfl, hne⟩

/-- A node added behind the others hides none of them. -/
theorem Retained.of_append {new : NodeState} (h : b.nodes = a.nodes ++ [new]) : Retained f m a b := by
  intro n hn hne
  refine ⟨n, ?_, rfl, hne⟩
  unfold findByMachine at hn ⊢
  rw [h, List.find?_append, hn]
  rfl

end Retained

/-! ## 2. A section -/

/-- The node key of the registration that is under way on a connection. -/
def pendingKey (c : Conn) : Option Bytes :=
  match c.phase with
  | .regFind r | .regRead r | .regInstall r _ | .regCheck r | .regNode r _ _ => some r.nodeKey
  | _ => none

/-- The request field replaces a value unless it is empty. -/
theorem given_ne_nil {x y : Bytes} (hy : y ≠ []) : (if x = [] then y else x) ≠ [] := by
  by_cases hx : x = []
  · rw [if_pos hx]
    exact hy
  · rw [if_neg hx]
    exact hx

section Sections

variable {I : Inet} {domain : Bytes} {env : Env} {g g' : Shared} {c c' : Conn} {f : IdField} {m : Bytes}

/-- **A section empties a field only by a registration without a node key.** -/
theorem advance_retained (h : advance I domain env g c = some (g', c'))
    (hf : f = .nodeKey → c.machine = m → pendingKey c ≠ some []) :
    Retained f m g.world.store g'.world.store := by
  cases (advance_change h).1 with
  | quiet _ hs => exact .of_nodes (by rw [hs])
  | keys _ keys hs => exact .of_nodes (by rw [hs])
  | counted _ hs => exact .of_nodes (by rw [hs, counted])
  | renewed r claim e hph hs =>
    refine .of_update (keepsSight_reregistered r.nodeKey r.host e) (fun hm n hne => ?_) (by rw [hs])
    cases f with
    | nodeKey =>
      intro hnil
      refine hf rfl hm ?_
      simp only [pendingKey, hph]
      exact congrArg some hnil
    | hostname => exact given_ne_nil hne
    | discoKey => exact hne
  | added r claim e ips _ _ hs => exact .of_append (by rw [hs])
  | updated sid r _ hs =>
    refine .of_update (keepsSight_mapUpdated r.nodeKey r.discoKey r.host r.endpoints)
      (fun _ n hne => ?_) (by rw [hs])
    cases f with
    | nodeKey => exact given_ne_nil hne
    | hostname => exact given_ne_nil hne
    | discoKey => exact given_ne_nil hne
  | online sid r _ hs =>
    refine .of_update (keepsSight_withOnline true) (fun _ n hne => ?_) (by rw [hs]; rfl)
    cases f <;> exact hne
  | offline _ hs =>
    refine .of_update (keepsSight_withOnline false) (fun _ n hne => ?_) (by rw [hs]; rfl)
    cases f <;> exact hne

/-- A registration carries its node key to its end. -/
theorem advance_pendingKey (h : advance I domain env g c = some (g', c')) :
    pendingKey c' = none ∨ pendingKey c' = pendingKey c := by
  cases advance_branch h with
  | regKnown _ _ hph | regAuth _ hph | regRead _ hph | regNoImage _ hph | regInstalled _ _ _ _ hph
  | granted _ _ _ hph =>
    right
    simp only [pendingKey, hph]
    rfl
  | regDenied | regBroken | checkThrew | refused | nodeThrew | nodeMade | regBump | updateThrew | updated
  | mapBump | onlineOnly | online | unauthorized | found | encodeThrew | oneShot | streamed | mapLive
  | tickEnd | tickFound | tickGone | keepaliveThrew | keepalive | tickSkip | tickThrew | tickLost | tickSent
  | byeOnline | byeBump => exact .inl rfl

end Sections

/-! ## 3. The run -/

/-- No registration of `m` is under way without a node key. -/
def Keyed (m : Bytes) (s : Coord) : Prop := ∀ c ∈ s.conns, c.machine = m → pendingKey c ≠ some []

/-- The body has a node key, or something else under that name. -/
def hasNodeKey (req : Json) : Bool :=
  match req.value Json.getString "NodeKey" [] with
  | .ok [] => false
  | _ => true

/-- **The condition**: a register request on a connection of `m` has a node key. -/
def sendsKey (m : Bytes) (s : Coord) : Event → Bool
  | .register i (some req) => ((s.conns[i]?).all fun c => decide (c.machine ≠ m)) || hasNodeKey req
  | _ => true

section Runs

variable {I : Inet} {domain : Bytes} {s s' : Coord} {e : Event} {f : IdField} {m : Bytes}

theorem decodeRegister_nodeKey {req : Json} {r : RegisterReq} (h : decodeRegister req = .ok r) :
    req.value Json.getString "NodeKey" [] = .ok r.nodeKey := by
  unfold decodeRegister at h
  cases hk : req.value Json.getString "NodeKey" [] with
  | error e =>
    rw [hk] at h
    cases h
  | ok key =>
    simp only [hk, bind, Except.bind] at h
    repeat' split at h
    all_goals cases h
    all_goals rfl

theorem onRegister_pendingKey {c : Conn} {body : Option Json}
    (h : pendingKey (onRegister c body) = some []) : ∃ req, body = some req ∧ hasNodeKey req = false := by
  rcases onRegister_cases c body with ⟨_, hb⟩ | ⟨_, _, _, _, hb⟩ | ⟨req, r, hreq, hd, hb⟩
  · rw [hb] at h
    cases h
  · rw [hb] at h
    cases h
  · rw [hb] at h
    have hnil : r.nodeKey = [] := Option.some.inj h
    refine ⟨req, hreq, ?_⟩
    rw [hasNodeKey, decodeRegister_nodeKey hd, hnil]

theorem onMap_pendingKey (c : Conn) (sid : Nat) (body : Option Json) :
    pendingKey (onMap c sid body) = none := by
  rcases onMap_cases c sid body with ⟨_, h⟩ | ⟨_, _, _, _, h⟩ | ⟨_, _, _, _, h | h⟩
  all_goals rw [h]; rfl

theorem Keyed.set {i : Nat} {c : Conn} {t : Coord} (h : Keyed m s)
    (hc : c.machine = m → pendingKey c ≠ some []) (ht : t.conns = s.conns.set i c) : Keyed m t := by
  intro d hd
  rw [ht] at hd
  rcases List.mem_or_eq_of_mem_set hd with hd | rfl
  · exact h d hd
  · exact hc

/-- Handlers that start with no registration. -/
theorem Keyed.set_none {i : Nat} {c : Conn} {t : Coord} (h : Keyed m s) (hc : pendingKey c = none)
    (ht : t.conns = s.conns.set i c) : Keyed m t :=
  h.set (fun _ hp => by rw [hc] at hp; cases hp) ht

/-- **A step that meets the condition** leaves no registration of `m` without a node key. -/
theorem coordStep_keyed (hs : coordStep I domain s e = some s') (hok : sendsKey m s e = true)
    (h : Keyed m s) : Keyed m s' := by
  cases e with
  | accept machine =>
    cases hs
    intro c hc _
    rcases List.mem_append.mp hc with hc | hc
    · exact h c hc ‹_›
    · obtain rfl := List.mem_singleton.mp hc
      intro hp
      cases hp
  | register i body =>
    obtain ⟨c, hc, rfl⟩ := Option.map_eq_some_iff.mp hs
    have hget := (idleConn_some hc).1
    refine h.set (fun hm hp => ?_) rfl
    obtain ⟨req, rfl, hno⟩ := onRegister_pendingKey hp
    rw [(onRegister_free c (some req)).1] at hm
    simp [sendsKey, hget, hm, hno] at hok
  | map i sid body =>
    obtain ⟨c, _, rfl⟩ := Option.map_eq_some_iff.mp hs
    exact h.set_none (onMap_pendingKey c sid body) rfl
  | tick i =>
    obtain ⟨c, _, rfl⟩ := Option.map_eq_some_iff.mp hs
    exact h.set_none rfl rfl
  | run i env =>
    obtain ⟨c, hget, hs⟩ := Option.bind_eq_some_iff.mp hs
    obtain ⟨⟨g, c'⟩, hadv, rfl⟩ := Option.map_eq_some_iff.mp hs
    rcases advance_pendingKey hadv with hp | hp
    · exact h.set_none hp rfl
    · refine h.set (fun hm => ?_) rfl
      rw [hp]
      rw [(advance_change hadv).2] at hm
      exact h c (List.mem_of_getElem? hget) hm
  | closeStream i k =>
    obtain ⟨c, hc, rfl⟩ := Option.map_eq_some_iff.mp hs
    refine h.set_none ?_ rfl
    unfold pendingKey
    rw [show (closeLive c k).phase = .idle from (idleConn_some hc).2]
  | hangup i =>
    obtain ⟨c, _, rfl⟩ := Option.map_eq_some_iff.mp hs
    exact h.set_none rfl rfl
  | createKey env raw reusable ephemeral expiration token shared =>
    cases hs
    exact h

/-- **A step of the machine** retains the field; the node key where no registration lacks it. -/
theorem coordStep_retained (hs : coordStep I domain s e = some s') (hf : f = .nodeKey → Keyed m s) :
    Retained f m s.shared.world.store s'.shared.world.store := by
  rcases coordStep_cases hs with ⟨i, env, c, c', _, hget, hadv, _⟩ | ⟨i, hst⟩ | ⟨v, _, hsh⟩ |
    ⟨_, _, _, keys, hstore⟩
  · exact advance_retained hadv fun hk hm => hf hk c (List.mem_of_getElem? hget) hm
  · exact .of_nodes (by rw [hst.shared])
  · exact .of_nodes (by rw [hsh])
  · exact .of_nodes (by rw [hstore])

end Runs

/-- **What is known of a node is not erased, its node key apart.** In every run, among any steps of
    any connections, a host name or a disco key of the node of `m` that is not empty stays so; and
    so does its node key where every registration of `m` has one. -/
theorem identity_data_kept (I : Inet) (domain m : Bytes) (s : Coord) :
    (∀ f ≠ IdField.nodeKey, ∀ es t, Run (Of (coordStep I domain)) s es t →
      Retained f m s.shared.world.store t.shared.world.store) ∧
    (Keyed m s → ∀ f es t,
      Run (Guarded (Of (coordStep I domain)) fun s e => sendsKey m s e = true) s es t →
      Retained f m s.shared.world.store t.shared.world.store) := by
  constructor
  · intro f hf es t h
    refine h.inv_state (I := fun t => Retained f m s.shared.world.store t.shared.world.store)
      (.of_nodes rfl) fun t e t' ih hs => ih.trans (coordStep_retained hs fun hk => absurd hk hf)
  · intro hkeyed f es t h
    refine (h.inv_state
      (I := fun t => Keyed m t ∧ Retained f m s.shared.world.store t.shared.world.store)
      ⟨hkeyed, .of_nodes rfl⟩ fun t e t' ih hs => ?_).2
    obtain ⟨hk, hret⟩ := ih
    exact ⟨coordStep_keyed hs.2 hs.1 hk, hret.trans (coordStep_retained hs.2 fun _ => hk)⟩

/-- A known machine registers again. -/
def registersAgain (body : Json) : List Event :=
  .register 0 (some body) :: List.replicate 3 (.run 0 {})

/-- The node keys of the machine, and whether no registration is under way. -/
def nodeKeyOf (m : Bytes) (s : Coord) : Option Bytes × Bool :=
  ((findByMachine s.shared.world.store m).map (·.nodeKey), s.conns.all fun c => (pendingKey c).isNone)

theorem keyed_of_all {m : Bytes} {s : Coord} (h : (s.conns.all fun c => (pendingKey c).isNone) = true) :
    Keyed m s := by
  intro c hc _ hp
  have hnone := List.all_eq_true.mp h c hc
  rw [hp] at hnone
  cases hnone

/-- A registration with a new key: the old one is replaced. -/
theorem identity_data_kept_again :
    ∃ s t, Keyed (ascii "mkey:1") s ∧
      Run (Guarded (Of (coordStep .sample (ascii "ts.net"))) fun s e => sendsKey (ascii "mkey:1") s e = true)
        s (registersAgain (.obj [(ascii "NodeKey", .str (ascii "nodekey:2"))])) t ∧
      (findByMachine s.shared.world.store (ascii "mkey:1")).map (·.nodeKey) = some (ascii "nodekey:1") ∧
      Retained .nodeKey (ascii "mkey:1") s.shared.world.store t.shared.world.store := by
  have hexec : ((exec (coordStep .sample (ascii "ts.net")) (Coord.fresh { path := [], alloc := pool16 } none)
      (joins 0 (ascii "mkey:1") (bytes32 [1]) (ascii "blue"))).bind fun s =>
        (exec (checked (coordStep .sample (ascii "ts.net")) (sendsKey (ascii "mkey:1"))) s
          (registersAgain (.obj [(ascii "NodeKey", .str (ascii "nodekey:2"))]))).map fun _ =>
        nodeKeyOf (ascii "mkey:1") s) = some (some (ascii "nodekey:1"), true) := by
    decide +kernel
  obtain ⟨s, _, hexec⟩ := Option.bind_eq_some_iff.mp hexec
  obtain ⟨t, ht, hkey⟩ := Option.map_eq_some_iff.mp hexec
  obtain ⟨hnode, hquiet⟩ := Prod.mk.inj hkey
  have hkeyed := keyed_of_all (m := ascii "mkey:1") hquiet
  have hrun := guarded_of_exec ht
  exact ⟨s, t, hkeyed, hrun, hnode,
    (identity_data_kept .sample (ascii "ts.net") (ascii "mkey:1") s).2 hkeyed .nodeKey _ t hrun⟩

/-- **A registration with an empty body erases the node key.** -/
theorem nodeKey_erased :
    ∃ s t, Run (Of (coordStep .sample (ascii "ts.net"))) (Coord.fresh { path := [], alloc := pool16 } none)
        (joins 0 (ascii "mkey:1") (bytes32 [1]) (ascii "blue")) s ∧ Keyed (ascii "mkey:1") s ∧
      Run (Of (coordStep .sample (ascii "ts.net"))) s (registersAgain (.obj [])) t ∧
      (findByMachine s.shared.world.store (ascii "mkey:1")).map (·.nodeKey) = some (ascii "nodekey:1") ∧
      (findByMachine t.shared.world.store (ascii "mkey:1")).map (·.nodeKey) = some [] ∧
      ¬ Retained .nodeKey (ascii "mkey:1") s.shared.world.store t.shared.world.store := by
  have hexec : ((exec (coordStep .sample (ascii "ts.net")) (Coord.fresh { path := [], alloc := pool16 } none)
      (joins 0 (ascii "mkey:1") (bytes32 [1]) (ascii "blue"))).bind fun s =>
        (exec (coordStep .sample (ascii "ts.net")) s (registersAgain (.obj []))).map fun t =>
        (nodeKeyOf (ascii "mkey:1") s, (nodeKeyOf (ascii "mkey:1") t).1)) =
          some ((some (ascii "nodekey:1"), true), some []) := by
    decide +kernel
  obtain ⟨s, hs, hexec⟩ := Option.bind_eq_some_iff.mp hexec
  obtain ⟨t, ht, hkey⟩ := Option.map_eq_some_iff.mp hexec
  obtain ⟨hkey, hafter⟩ := Prod.mk.inj hkey
  obtain ⟨hbefore, hquiet⟩ := Prod.mk.inj hkey
  refine ⟨s, t, run_of_exec hs, keyed_of_all hquiet, run_of_exec ht, hbefore, hafter, fun hret => ?_⟩
  obtain ⟨n, hn, hkey1⟩ := Option.map_eq_some_iff.mp hbefore
  obtain ⟨n', hn', hkey2⟩ := Option.map_eq_some_iff.mp hafter
  have hne : IdField.nodeKey.of n ≠ [] := by
    show n.nodeKey ≠ []
    rw [hkey1]
    decide
  obtain ⟨n'', hfind, _, hne'⟩ := hret n hn hne
  rw [hn'] at hfind
  cases hfind
  exact hne' hkey2

end Wirebone
