/-
  File:      Wirebone/Coordinator/Unseen.lean
  Subject:   WHAT THE MAP OF A NODE DOES NOT DEPEND ON: the machines it does not see.

  A node sees the nodes of its group and the shared ones. The machines it does not see share the store, the
  counters and the map generation with it. They may register, reconnect, change their keys, names and
  endpoints, come and go, in any number and in any order: none of it is in the node's map.

  * `hiddenActor` -- the condition on a step: who acts is one of the machines `H`, and a node about to be
    made is not seen;
  * `Hidden` -- no node of those machines is seen, `SameView` -- nothing that is seen has changed;
  * **`hidden_unseen`** -- in every run of such steps the lookups of all other machines and the map of the
    node stay what they were.
-/
import Wirebone.Coordinator.Confined

namespace Wirebone

open ByteString FirstMatch Lts

/-! ## 1. The condition -/

/-- The connection that an event is about. -/
def Event.conn : Event → Option Nat
  | .accept _ => none
  | .register i _ => some i
  | .map i _ _ => some i
  | .tick i => some i
  | .run i _ => some i
  | .closeStream i _ => some i
  | .hangup i => some i
  | .createKey _ _ _ _ _ _ _ => none

/-- What decides who sees the node that `register_node` is about to make: none where the machine has
    one. -/
def Conn.toAdd (s : Store) (c : Conn) : Option NodeState :=
  match c.phase with
  | .regNode _ claim _ =>
    match findByMachine s c.machine with
    | none => some { id := s.nextNodeId, token := claim.token, shared := claim.shared }
    | some _ => none
  | _ => none

/-- **The condition on a step.** -/
def hiddenActor (H : Bytes → Bool) (self : NodeState) (s : Coord) (e : Event) : Bool :=
  match e.conn.bind fun i => s.conns[i]? with
  | none => true
  | some c => H c.machine && (c.toAdd s.shared.world.store).all fun n => !nodeVisibleTo self n

/-- No node of the machines `H` is seen. -/
def Hidden (H : Bytes → Bool) (self : NodeState) (s : Store) : Prop :=
  ∀ n ∈ s.nodes, H n.machineKey = true → nodeVisibleTo self n = false

/-- **Nothing that is seen has changed**, and nothing of the other machines. -/
structure SameView (H : Bytes → Bool) (me : NodeState) (a b : Store) : Prop where
  seen : b.nodes.filter (nodeVisibleTo me) = a.nodes.filter (nodeVisibleTo me)
  others : ∀ m, H m = false → findByMachine b m = findByMachine a m

/-! ## 2. One step -/

section Step

variable {H : Bytes → Bool} {self : NodeState} {a b d : Store} {m : Bytes}

theorem SameView.of_nodes (h : b.nodes = a.nodes) : SameView H self a b :=
  ⟨by rw [h], fun m _ => by rw [findByMachine, findByMachine, h]⟩

theorem SameView.trans (h : SameView H self a b) (h' : SameView H self b d) : SameView H self a d :=
  ⟨h'.seen.trans h.seen, fun m hm => (h'.others m hm).trans (h.others m hm)⟩

theorem Hidden.of_nodes (hh : Hidden H self a) (h : b.nodes = a.nodes) : Hidden H self b := by
  intro n hn
  rw [h] at hn
  exact hh n hn

/-- The first node of a hidden machine is updated; who sees it stays. -/
theorem sameView_update {f : NodeState → NodeState} (hh : Hidden H self a) (hm : H m = true)
    (hkey : ∀ n, (f n).machineKey = n.machineKey) (hvis : ∀ n, nodeVisibleTo self (f n) = nodeVisibleTo self n)
    (h : b.nodes = updateNode m f a.nodes) : SameView H self a b ∧ Hidden H self b := by
  refine ⟨⟨?_, ?_⟩, ?_⟩
  · have hview := (view_modifyFirst (p := fun n => decide (n.machineKey = m)) (t := id) hvis a.nodes).mpr ?_
    · rw [List.map_id, List.map_id] at hview
      rw [h]
      exact hview
    · intro n hn hseen
      rw [hh n (List.mem_of_find?_eq_some hn) (by rw [found_key hn, hm])] at hseen
      cases hseen
  · intro m' hm'
    have hne : m ≠ m' := by
      intro he
      rw [he, hm'] at hm
      cases hm
    rw [findByMachine, findByMachine, h]
    refine find?_modifyFirst_other ?_ a.nodes
    intro n hn
    have hnm : n.machineKey = m := of_decide_eq_true hn
    rw [hkey, hnm]
    exact ⟨decide_eq_false hne, decide_eq_false hne⟩
  · -- machine keys and who sees them are as they were, node for node
    have hmap : b.nodes.map (fun n => (n.machineKey, nodeVisibleTo self n)) =
        a.nodes.map fun n => (n.machineKey, nodeVisibleTo self n) := by
      rw [h]
      exact modifyFirst_map (fun n => by rw [hkey, hvis]) a.nodes
    intro n hn hnm
    have hmem : (n.machineKey, nodeVisibleTo self n) ∈
        a.nodes.map fun n => (n.machineKey, nodeVisibleTo self n) := by
      rw [← hmap]
      exact List.mem_map_of_mem hn
    obtain ⟨n₀, hn₀, heq⟩ := List.mem_map.mp hmem
    obtain ⟨hkey₀, hvis₀⟩ := Prod.mk.inj heq
    rw [← hvis₀]
    exact hh n₀ hn₀ (by rw [hkey₀, hnm])

/-- A hidden machine gets a node that is not seen. -/
theorem sameView_append {n : NodeState} (hh : Hidden H self a) (hm : H n.machineKey = true)
    (hvis : nodeVisibleTo self n = false) (h : b.nodes = a.nodes ++ [n]) :
    SameView H self a b ∧ Hidden H self b := by
  refine ⟨⟨?_, ?_⟩, ?_⟩
  · rw [h, List.filter_append, List.filter_cons_of_neg (by rw [hvis]; decide), List.filter_nil,
      List.append_nil]
  · intro m' hm'
    have hne : n.machineKey ≠ m' := by
      intro he
      rw [he, hm'] at hm
      cases hm
    rw [findByMachine, findByMachine, h, List.find?_append, List.find?_cons_of_neg (by simpa using hne),
      List.find?_nil, Option.or_none]
  · intro x hx hxm
    rw [h] at hx
    obtain hx | hx := List.mem_append.mp hx
    · exact hh x hx hxm
    · rw [List.mem_singleton.mp hx]
      exact hvis

end Step

/-! ## 3. Whole runs -/

section Runs

variable {I : Inet} {domain : Bytes} {H : Bytes → Bool} {self : NodeState} {s s' : Coord} {e : Event}
  {g g' : Shared} {c : Conn}

theorem change_sameView (hh : Hidden H self g.world.store) (hm : H c.machine = true)
    (hadd : ∀ n, c.toAdd g.world.store = some n → nodeVisibleTo self n = false) (h : Change g c g') :
    SameView H self g.world.store g'.world.store ∧ Hidden H self g'.world.store := by
  cases h with
  | quiet hq h => exact ⟨.of_nodes (by rw [h]), hh.of_nodes (by rw [h])⟩
  | keys hreg keys h => exact ⟨.of_nodes (by rw [h]), hh.of_nodes (by rw [h])⟩
  | counted hreg h => exact ⟨.of_nodes (by rw [h]; rfl), hh.of_nodes (by rw [h]; rfl)⟩
  | renewed r claim ephemeral hphase h =>
    exact sameView_update (f := reregistered r.nodeKey r.host ephemeral) hh hm (fun _ => rfl) (fun _ => rfl)
      (by rw [h])
  | updated sid r hphase h =>
    exact sameView_update (f := mapUpdated r.nodeKey r.discoKey r.host r.endpoints) hh hm (fun _ => rfl)
      (fun _ => rfl) (by rw [h])
  | online sid r hphase h =>
    exact sameView_update (f := fun n => { n with online := true }) hh hm (fun _ => rfl) (fun _ => rfl)
      (by rw [h]; rfl)
  | offline hphase h =>
    exact sameView_update (f := fun n => { n with online := false }) hh hm (fun _ => rfl) (fun _ => rfl)
      (by rw [h]; rfl)
  | added r claim ephemeral ips hphase hnone h =>
    have hnew : nodeVisibleTo self (newNode g.world.store.nextNodeId c.machine r.nodeKey r.host ephemeral
        claim.token claim.shared ips) = false :=
      hadd { id := g.world.store.nextNodeId, token := claim.token, shared := claim.shared }
        (by simp only [Conn.toAdd, hphase, hnone])
    exact sameView_append hh hm hnew (by rw [h])

theorem hidden_step (hh : Hidden H self s.shared.world.store) (hok : hiddenActor H self s e = true)
    (hs : coordStep I domain s e = some s') :
    SameView H self s.shared.world.store s'.shared.world.store ∧ Hidden H self s'.shared.world.store := by
  obtain ⟨i, env, c, c', rfl, hget, hadv, -⟩ | ⟨i, hstart⟩ | ⟨m, -, hshared⟩ | ⟨-, -, -, keys, hstore⟩ :=
    coordStep_cases hs
  · simp only [hiddenActor, Event.conn, Option.bind_some, hget, Bool.and_eq_true] at hok
    refine change_sameView hh hok.1 ?_ (advance_change hadv).1
    intro n hn
    have hall := hok.2
    rw [hn] at hall
    simpa using hall
  · have hshared := hstart.shared
    exact ⟨.of_nodes (by rw [hshared]), hh.of_nodes (by rw [hshared])⟩
  · exact ⟨.of_nodes (by rw [hshared]), hh.of_nodes (by rw [hshared])⟩
  · exact ⟨.of_nodes (by rw [hstore]), hh.of_nodes (by rw [hstore])⟩

/-- **What a node does not see is not in its map.** From any state where the nodes of the machines `H` are
    hidden from `self`, in every run in which only such machines act and get only such nodes: every other
    machine is found as before, and the map built for `self` is the same, to the last record. -/
theorem hidden_unseen (I : Inet) (domain : Bytes) (H : Bytes → Bool) (self : NodeState) (s₀ : Coord)
    (hh : Hidden H self s₀.shared.world.store) (es : List Event) (s : Coord)
    (h : Run (Guarded (Of (coordStep I domain)) fun s e => hiddenActor H self s e = true) s₀ es s) :
    (∀ m, H m = false → findByMachine s.shared.world.store m = findByMachine s₀.shared.world.store m) ∧
      ∀ now, buildFullMap self s.shared.world.store.nodes domain now =
        buildFullMap self s₀.shared.world.store.nodes domain now := by
  have hboth : SameView H self s₀.shared.world.store s.shared.world.store ∧
      Hidden H self s.shared.world.store := by
    refine Run.inv_state (I := fun s : Coord => SameView H self s₀.shared.world.store s.shared.world.store ∧
      Hidden H self s.shared.world.store) ⟨.of_nodes rfl, hh⟩ ?_ h
    intro s e s' hs hstep
    obtain ⟨hview, hhid⟩ := hidden_step hs.2 hstep.1 hstep.2
    exact ⟨hs.1.trans hview, hhid⟩
  refine ⟨hboth.1.others, fun now => ?_⟩
  have hkeep (nodes : List NodeState) : ∀ n ∈ nodes, nodeVisibleTo self n = false → nodeVisibleTo self n = false :=
    fun _ _ hn => hn
  rw [buildFullMap_filter (hkeep s.shared.world.store.nodes), hboth.1.seen, ← buildFullMap_filter (hkeep _)]

end Runs

/-- Two machines of two groups have joined. -/
def twoGroups : List Event :=
  joins 0 (ascii "mkey:1") (bytes32 [1]) (ascii "blue") ++ joins 1 (ascii "mkey:2") (bytes32 [2]) (ascii "red")

/-- The second one asks for a map, which sets its endpoints and flag, and leaves; a third machine joins its
    group. -/
def redEvents : List Event :=
  [.map 1 1 (some (.obj []))] ++ List.replicate 5 (.run 1 {}) ++ [.hangup 1, .run 1 {}, .run 1 {}] ++
    joins 2 (ascii "mkey:3") (bytes32 [3]) (ascii "red")

def redMachines (m : Bytes) : Bool := m = ascii "mkey:2" || m = ascii "mkey:3"

theorem hidden_unseen_red :
    ∃ s₀ self s, exec (coordStep .sample (ascii "ts.net")) (Coord.fresh { path := [], alloc := pool16 } none)
        twoGroups = some s₀ ∧
      findByMachine s₀.shared.world.store (ascii "mkey:1") = some self ∧
      Run (Guarded (Of (coordStep .sample (ascii "ts.net"))) fun s e => hiddenActor redMachines self s e = true)
        s₀ redEvents s ∧
      s.shared.world.store.nodes.length = 3 ∧
      ∀ now, buildFullMap self s.shared.world.store.nodes (ascii "ts.net") now =
        buildFullMap self s₀.shared.world.store.nodes (ascii "ts.net") now := by
  have hexec : (exec (coordStep .sample (ascii "ts.net")) (Coord.fresh { path := [], alloc := pool16 } none)
      twoGroups).any (fun s₀ => (findByMachine s₀.shared.world.store (ascii "mkey:1")).any fun self =>
        (s₀.shared.world.store.nodes.all fun n => !redMachines n.machineKey || !nodeVisibleTo self n) &&
        (exec (checked (coordStep .sample (ascii "ts.net")) (hiddenActor redMachines self)) s₀ redEvents).any
          fun s => decide (s.shared.world.store.nodes.length = 3)) = true := by
    decide +kernel
  obtain ⟨s₀, hs₀, hfound⟩ := (Option.any_eq_true _ _).mp hexec
  obtain ⟨self, hself, hboth⟩ := (Option.any_eq_true _ _).mp hfound
  obtain ⟨hhid, hrun⟩ := (Bool.and_eq_true _ _).mp hboth
  obtain ⟨s, hs, hlen⟩ := (Option.any_eq_true _ _).mp hrun
  have hh : Hidden redMachines self s₀.shared.world.store := by
    intro n hn hnm
    have hone := List.all_eq_true.mp hhid n hn
    simpa [hnm] using hone
  have hguarded := guarded_of_exec hs
  refine ⟨s₀, self, s, hs₀, hself, hguarded, of_decide_eq_true hlen, ?_⟩
  exact (hidden_unseen .sample (ascii "ts.net") redMachines self s₀ hh redEvents s hguarded).2

end Wirebone
