/-
  File:      Wirebone/Coordinator/Online.lean
  Subject:   WHETHER `online` TELLS THE TRUTH.

  The flag of a node is one boolean, written by `update_map_info`, by `set_online` and by the loading
  of a snapshot; nobody counts connections. A connection that ends takes the flag down although
  another one of the machine is open, one that an exception ends leaves it up, and a restart brings
  back what was saved.

  * `Presence` -- the coordinator and the connections that have handled a map request while their
    node existed; `presenceStep` -- its steps, restarts included;
  * `OnlineTruthful` -- the property;
  * `orderly` -- the condition on a step;
  * `Standing`, `Passage` -- what a section means for the end of its connection; `flag_step` -- what it
    means for the flags;
  * `Accounted` -- the invariant: whoever stands for a machine finds it online, and an online machine
    has someone to answer for it;
  * **`online_truthful`** -- the property in every run of orderly steps; **`online_lost`** -- a run
    in which it fails.
-/
import Wirebone.Coordinator.Announce

namespace Wirebone

open ByteString FirstMatch Lts

/-! ## 1. The runs and the property -/

/-- A coordinator, and the connections that have handled a map request while their node existed. -/
structure Presence where
  coord : Coord
  mapped : List Nat := []

/-- How a process starts: the store is opened over the file, a hook may be set, a snapshot may be
    imported. -/
structure StartUp where
  io : SaveIo := {}
  noise : Bytes32
  ipv4Cidr : Bytes
  ipv6Cidr : Bytes
  hooked : Bool := false
  snapshot : Option Json := none

def startStore (I : Inet) (u : StartUp) (path : Bytes) (file : Option FileText) :
    Option (Store × Option FileText) :=
  match openStore I u.io u.noise path u.ipv4Cidr u.ipv6Cidr file with
  | (.error _, _) => none
  | (.ok store, file) =>
    match u.snapshot with
    | none => some ({ store with hooked := u.hooked }, file)
    | some j =>
      match loadJson (some j) { store with hooked := u.hooked } with
      | (.error _, _) => none
      | (.ok _, store) => some (store, file)

inductive Happening where
  | step (e : Event)
  /-- The process ends, whatever it is doing, and is started again. -/
  | restart (u : StartUp)

/-- The connection that a step makes one that has handled a map request: the request takes effect in
    `set_online`. -/
def marks (s : Coord) : Event → List Nat
  | .run i _ =>
    match s.conns[i]? with
    | none => []
    | some c =>
      match c.phase with
      | .mapOnline _ _ => if (findByMachine s.shared.world.store c.machine).isSome then [i] else []
      | _ => []
  | _ => []

def presenceStep (I : Inet) (domain : Bytes) (p : Presence) : Happening → Option Presence
  | .step e =>
    (coordStep I domain p.coord e).map fun s =>
      { coord := s, mapped := p.mapped ++ marks p.coord e }
  | .restart u =>
    (startStore I u p.coord.shared.world.store.path p.coord.shared.world.file).map fun (store, file) =>
      { coord := Coord.fresh store file }

/-- A request or a disconnect is in progress. (A tick is neither.) -/
def busy (c : Conn) : Bool :=
  match c.phase with
  | .idle | .closed | .tickFind _ _ | .tickNodes _ _ _ => false
  | _ => true

/-- **Online status is truthful**: with no request or disconnect in progress, a node is online
    exactly if an open connection of its machine has handled a map request. -/
def OnlineTruthful (p : Presence) : Prop :=
  (∀ c ∈ p.coord.conns, busy c = false) → ∀ n ∈ p.coord.shared.world.store.nodes,
    (n.online = true ↔ ∃ i ∈ p.mapped, ∃ c, p.coord.conns[i]? = some c ∧ c.machine = n.machineKey ∧
      c.isClosed = false)

/-! ## 2. The condition -/

/-- Where a connection stands, as far as flags are concerned. -/
inductive Standing where
  | plain
  /-- In `on_map`, up to `set_online`. -/
  | marking
  /-- Before and after the `set_online` at the end. -/
  | leaving
  | left
  | closed
  deriving DecidableEq

def Conn.standing (c : Conn) : Standing :=
  match c.phase with
  | .mapUpdate _ _ | .mapBump _ _ | .mapOnline _ _ => .marking
  | .byeOnline => .leaving
  | .byeBump => .left
  | .closed => .closed
  | _ => .plain

/-- Connection `j` relies on the machine's being online. -/
def Presence.stands (p : Presence) (m : Bytes) (j : Nat) (c : Conn) : Bool :=
  decide (c.machine = m ∧ c.standing = .plain ∧ j ∈ p.mapped)

/-- Connection `j` answers for the machine's being online: it relies on it, or is about to write the
    flag. -/
def Presence.accounts (p : Presence) (m : Bytes) (j : Nat) (c : Conn) : Bool :=
  decide (c.machine = m ∧
    (c.standing = .marking ∨ c.standing = .leaving ∨ (c.standing = .plain ∧ j ∈ p.mapped)))

/-- Some connection other than the `i`-th meets `q`. -/
def Presence.another (p : Presence) (i : Nat) (q : Nat → Conn → Bool) : Bool :=
  p.coord.conns.zipIdx.any fun x => decide (x.2 ≠ i) && q x.2 x.1

/-- The next section of the connection throws. -/
def fails (I : Inet) (domain : Bytes) (env : Env) (g : Shared) (c : Conn) : Bool :=
  match c.phase with
  | .regInstall _ (some ks) => (pushUntil keyFromJson ks.items).2.isSome
  | .regCheck r =>
    (claimOf env.nowUnix r.auth g.world.store.keys).isSome &&
      !saves env.io { g.world.store with keys := markUsed r.auth g.world.store.keys }
  | .regNode r claim ephemeral =>
    match findByMachine g.world.store c.machine with
    | some _ =>
      !saves env.io { g.world.store with
        nodes := updateNode c.machine (reregistered r.nodeKey r.host ephemeral) g.world.store.nodes }
    | none =>
      match addressFor I g.world.store.alloc g.world.store.nextIpIndex with
      | .error _ => true
      | .ok ips =>
        !saves env.io { counted g.world.store with
          nodes := g.world.store.nodes ++ [newNode g.world.store.nextNodeId c.machine r.nodeKey r.host
            ephemeral claim.token claim.shared ips] }
  | .mapUpdate _ r =>
    (findByMachine g.world.store c.machine).isSome &&
      !saves env.io { g.world.store with
        nodes := updateNode c.machine (mapUpdated r.nodeKey r.discoKey r.host r.endpoints)
          g.world.store.nodes }
  | _ => encodeFails domain env g c

/-- An exception may end connection `i`: its node is offline and stays so, or another connection
    answers for it. -/
def Presence.expendable (p : Presence) (i : Nat) (c : Conn) : Bool :=
  match findByMachine p.coord.shared.world.store c.machine with
  | none => true
  | some n => (!n.online && c.standing != .marking) || p.another i (p.accounts c.machine)

/-- A start may use the store: no node is online, and no two are of one machine. -/
def cleanStart (s : Store) : Bool :=
  s.nodes.all (!·.online) && decide ((s.nodes.map (·.machineKey)).Nodup)

/-- **The condition on a step**: a connection takes the flag down only if no other one of the machine
    relies on it, an exception ends only connections that are expendable, a restart loads a snapshot
    with no node online. -/
def orderly (I : Inet) (domain : Bytes) (p : Presence) : Happening → Bool
  | .step (.run i env) =>
    match p.coord.conns[i]? with
    | none => true
    | some c =>
      (decide (c.standing ≠ .leaving) || !p.another i (p.stands c.machine)) &&
        (!fails I domain env p.coord.shared c || p.expendable i c)
  | .step (.register i (some req)) =>
    match p.coord.conns[i]?, decodeRegister req with
    | some c, .error _ => p.expendable i c
    | _, _ => true
  | .step (.map i _ (some req)) =>
    match p.coord.conns[i]?, decodeMap req with
    | some c, .error _ => p.expendable i c
    | _, _ => true
  | .step _ => true
  | .restart u =>
    match startStore I u p.coord.shared.world.store.path p.coord.shared.world.file with
    | none => true
    | some (store, _) => cleanStart store

/-! ## 3. One section -/

/-- **What a section means for the end of its connection.** -/
inductive Passage (I : Inet) (domain : Bytes) (env : Env) (g : Shared) (c c' : Conn) : Prop where
  | plain (h : c.standing = .plain) (h' : c'.standing = .plain)
  | marking (h : c.standing = .marking) (hph : ∀ sid r, c.phase ≠ .mapOnline sid r)
      (h' : c'.standing = .marking)
  | marked (sid : Nat) (r : MapReq) (hph : c.phase = .mapOnline sid r) (h' : c'.standing = .plain)
  | left (hph : c.phase = .byeOnline) (h' : c'.standing = .left)
  | gone (hph : c.phase = .byeBump) (h' : c'.standing = .closed)
  | threw (h : c.standing = .plain ∨ ∃ sid r, c.phase = .mapUpdate sid r)
      (hf : fails I domain env g c = true) (h' : c'.standing = .closed)

section Advance

variable {I : Inet} {domain : Bytes} {env : Env} {g g' : Shared} {c c' : Conn}

theorem standing_plain (hph : c.phase = .idle) : c.standing = .plain := by
  simp only [Conn.standing, hph]

theorem registerNode_fails {r : RegisterReq} {claim : PreauthClaim} {ephemeral : Bool} {e : Exn}
    {w : World} (hph : c.phase = .regNode r claim ephemeral)
    (hr : registerNode I env.io c.machine r.nodeKey r.host ephemeral claim.token claim.shared g.world =
      (.error e, w)) : fails I domain env g c = true := by
  simp only [fails, hph]
  rcases registerNode_cases hr with ⟨n, hn, hc⟩ | ⟨hnone, ⟨e', _, ha⟩, _⟩ | ⟨ips, hnone, ha, hc⟩
  · rw [hn]
    exact commit_fails hc
  · rw [hnone, ha]
  · rw [hnone, ha]
    exact commit_fails hc

theorem updateMapInfo_fails {sid : Nat} {r : MapReq} {e : Exn} {w : World}
    (hph : c.phase = .mapUpdate sid r)
    (hu : updateMapInfo env.io c.machine r.nodeKey r.discoKey r.host r.endpoints g.world = (.error e, w)) :
    fails I domain env g c = true := by
  simp only [fails, hph]
  rcases updateMapInfo_cases hu with ⟨_, hr, _⟩ | ⟨n, hn, hcommit⟩
  · cases hr
  · rw [hn, Option.isSome_some, Bool.true_and]
    exact commit_fails hcommit

theorem installKeys_fails {r : RegisterReq} {ks : Json} {e : Exn} {s : Store}
    (hph : c.phase = .regInstall r (some ks)) (hi : installKeys ks g.world.store = (.error e, s)) :
    fails I domain env g c = true := by
  have hended : ended (pushUntil keyFromJson ks.items).2 = .error e := congrArg Prod.fst hi
  simp only [fails, hph]
  cases hp : (pushUntil keyFromJson ks.items).2 with
  | none =>
    rw [hp] at hended
    cases hended
  | some e' => rfl

theorem advance_passage (h : advance I domain env g c = some (g', c')) : Passage I domain env g c c' := by
  cases advance_branch h with
  | regKnown _ _ hph | regDenied _ hph | regAuth _ hph | regRead _ hph | regNoImage _ hph
  | regInstalled _ _ _ _ hph | refused _ _ hph | granted _ _ _ hph | nodeMade _ _ _ _ _ hph
  | regBump hph | unauthorized _ _ hph | found _ _ _ hph | oneShot _ _ _ hph | streamed _ _ _ hph
  | mapLive _ _ _ _ _ hph | tickEnd _ _ hph | tickFound _ _ _ _ hph | tickGone _ _ _ hph
  | keepalive _ _ _ hph | tickSkip _ _ hph | tickLost _ _ _ hph | tickSent _ _ _ _ hph =>
    exact .plain (by simp only [Conn.standing, hph]) rfl
  | updated _ _ _ _ hph | mapBump _ _ hph =>
    refine .marking (by simp only [Conn.standing, hph]) (fun sid r hne => ?_) rfl
    rw [hph] at hne
    cases hne
  | onlineOnly sid r hph | online sid r hph => exact .marked sid r hph rfl
  | byeOnline hph => exact .left hph rfl
  | byeBump hph => exact .gone hph rfl
  | regBroken _ _ _ _ hph hi =>
    exact .threw (.inl (by simp only [Conn.standing, hph])) (installKeys_fails hph hi) rfl
  | checkThrew _ _ _ hph hc =>
    refine .threw (.inl (by simp only [Conn.standing, hph])) ?_ rfl
    simp only [fails, hph]
    exact checkAndMark_fails hc
  | nodeThrew _ _ _ _ _ hph hr =>
    exact .threw (.inl (by simp only [Conn.standing, hph])) (registerNode_fails hph hr) rfl
  | updateThrew sid r _ _ hph hu => exact .threw (.inr ⟨sid, r, hph⟩) (updateMapInfo_fails hph hu) rfl
  | encodeThrew _ _ _ hph ht | keepaliveThrew _ _ hph ht | tickThrew _ _ _ hph ht =>
    exact .threw (.inl (by simp only [Conn.standing, hph])) (by simp only [fails, hph]; exact ht) rfl

end Advance

/-- The flag of a machine's node, if it has one. -/
def flag (s : Store) (m : Bytes) : Option Bool := (findByMachine s m).map (·.online)

/-- **What a section means for the flags.** -/
inductive FlagStep (g : Shared) (c : Conn) (g' : Shared) : Prop where
  | same (hq : Quiet g c)
      (h : ∀ m, flag g'.world.store m = flag g.world.store m)
  | fresh (hplain : c.standing = .plain) (hnone : flag g.world.store c.machine = none)
      (h : ∀ m, flag g'.world.store m = if m = c.machine then some false else flag g.world.store m)
  | up (hmarking : c.standing = .marking)
      (h : ∀ m, flag g'.world.store m =
        if m = c.machine then (flag g.world.store m).map (fun _ => true) else flag g.world.store m)
  | down (hph : c.phase = .byeOnline)
      (h : ∀ m, flag g'.world.store m =
        if m = c.machine then (flag g.world.store m).map (fun _ => false) else flag g.world.store m)

section Flags

variable {I : Inet} {domain : Bytes} {env : Env} {g g' : Shared} {c c' : Conn} {s s' : Store}
  {m : Bytes}

theorem flag_congr (h : s'.nodes = s.nodes) (v : Bytes) : flag s' v = flag s v := by
  unfold flag findByMachine
  rw [h]

theorem flag_update {f : NodeState → NodeState} (hf : KeepsSight f)
    (h : s'.nodes = updateNode m f s.nodes) (v : Bytes) :
    flag s' v = if v = m then (findByMachine s v).map (fun n => (f n).online) else flag s v := by
  unfold flag
  rw [findByMachine_update hf h v]
  by_cases hv : v = m
  · rw [if_pos hv, if_pos hv, Option.map_map]
    rfl
  · rw [if_neg hv, if_neg hv]

/-- An update that writes `b` into the flag. -/
theorem flag_written {f : NodeState → NodeState} {b : Bool} (hf : KeepsSight f)
    (hb : ∀ n, (f n).online = b) (h : s'.nodes = updateNode m f s.nodes) (v : Bytes) :
    flag s' v = if v = m then (flag s v).map (fun _ => b) else flag s v := by
  rw [flag_update hf h v]
  by_cases hv : v = m
  · rw [if_pos hv, if_pos hv, flag, Option.map_map]
    congr 1
    funext n
    exact hb n
  · rw [if_neg hv, if_neg hv]

theorem flag_append {n : NodeState} (hnone : findByMachine s n.machineKey = none)
    (h : s'.nodes = s.nodes ++ [n]) (v : Bytes) :
    flag s' v = if v = n.machineKey then some n.online else flag s v := by
  unfold flag findByMachine at *
  rw [h, List.find?_append]
  by_cases hv : v = n.machineKey
  · subst hv
    rw [hnone, if_pos rfl]
    simp
  · rw [if_neg hv]
    have hn : [n].find? (fun x => decide (x.machineKey = v)) = none := by
      simp [Ne.symm hv]
    rw [hn, Option.or_none]

theorem quiet_of_registering (h : registering c = true) : Quiet g c := by
  unfold registering at h
  unfold Quiet
  cases hph : c.phase with
  | regFind | regRead | regInstall | regCheck | regNode => trivial
  | idle | regBump | mapUpdate | mapBump | mapOnline | mapFind | mapNodes | mapLive | tickFind
  | tickNodes | byeOnline | byeBump | closed =>
    rw [hph] at h
    cases h

theorem flag_step (h : advance I domain env g c = some (g', c')) : FlagStep g c g' := by
  cases (advance_change h).1 with
  | quiet hq hs => exact .same hq (flag_congr (by rw [hs]))
  | keys hreg keys hs => exact .same (quiet_of_registering hreg) (flag_congr (by rw [hs]))
  | counted hreg hs => exact .same (quiet_of_registering hreg) (flag_congr (by rw [hs]; rfl))
  | renewed r claim e hph hs =>
    refine .same (quiet_of_registering (by simp only [registering, hph])) fun m => ?_
    rw [flag_update (keepsSight_reregistered r.nodeKey r.host e) (by rw [hs]) m]
    -- a registration leaves the flag alone
    exact ite_self _
  | added r claim e ips hph hnone hs =>
    refine .fresh (by simp only [Conn.standing, hph]) (by rw [flag, hnone]; rfl) fun m => ?_
    exact flag_append (n := newNode g.world.store.nextNodeId c.machine r.nodeKey r.host e claim.token
      claim.shared ips) hnone (by rw [hs]) m
  | updated sid r hph hs =>
    refine .up (by simp only [Conn.standing, hph]) ?_
    exact flag_written (keepsSight_mapUpdated r.nodeKey r.discoKey r.host r.endpoints) (fun _ => rfl)
      (by rw [hs])
  | online sid r hph hs =>
    refine .up (by simp only [Conn.standing, hph]) ?_
    exact flag_written (keepsSight_withOnline true) (fun _ => rfl) (by rw [hs]; rfl)
  | offline hph hs =>
    exact .down hph (flag_written (keepsSight_withOnline false) (fun _ => rfl) (by rw [hs]; rfl))

/-- A node stays, once there. -/
theorem FlagStep.known (h : FlagStep g c g') (hm : flag g.world.store m ≠ none) :
    flag g'.world.store m ≠ none := by
  have hmap : ∀ b : Bool, (flag g.world.store m).map (fun _ => b) ≠ none := by
    intro b hn
    exact hm (Option.map_eq_none_iff.mp hn)
  cases h with
  | same _ h =>
    rw [h]
    exact hm
  | fresh _ _ h =>
    rw [h]
    split
    · exact Option.some_ne_none false
    · exact hm
  | up _ h | down _ h =>
    rw [h]
    split
    · exact hmap _
    · exact hm

/-- A step of another machine. -/
theorem FlagStep.other (h : FlagStep g c g') (hm : m ≠ c.machine) :
    flag g'.world.store m = flag g.world.store m := by
  cases h with
  | same _ h => exact h m
  | fresh _ _ h | up _ h | down _ h => rw [h, if_neg hm]

/-- A machine that has no node is not online after a section. -/
theorem FlagStep.unknown (h : FlagStep g c g') (hm : flag g.world.store m = none) :
    flag g'.world.store m ≠ some true := by
  intro hup
  cases h with
  | same _ h =>
    rw [h, hm] at hup
    cases hup
  | fresh _ _ h | up _ h | down _ h =>
    rw [h, hm] at hup
    split at hup
    · cases hup
    · cases hup

/-- Outside `on_map` and the end, a section puts no machine online and takes none offline. -/
theorem online_still (h : advance I domain env g c = some (g', c'))
    (hst : c.standing = .plain ∨ c.standing = .left) :
    flag g'.world.store m = some true ↔ flag g.world.store m = some true := by
  cases flag_step h with
  | same _ hf => rw [hf]
  | fresh _ hnone hf =>
    rw [hf]
    by_cases hm : m = c.machine
    · rw [if_pos hm, hm, hnone]
      exact ⟨fun he => (nomatch he), fun he => (nomatch he)⟩
    · rw [if_neg hm]
  | up hmk _ =>
    rw [hmk] at hst
    rcases hst with hst | hst
    · cases hst
    · cases hst
  | down hph _ =>
    simp only [Conn.standing, hph] at hst
    rcases hst with hst | hst
    · cases hst
    · cases hst

/-- `set_online(true)` of `on_map`. -/
theorem online_marked {sid : Nat} {r : MapReq} (hph : c.phase = .mapOnline sid r)
    (h : advance I domain env g c = some (g', c')) :
    flag g'.world.store c.machine = (flag g.world.store c.machine).map (fun _ => true) := by
  cases flag_step h with
  | same hq _ => simp only [Quiet, hph] at hq
  | fresh hst _ _ =>
    simp only [Conn.standing, hph] at hst
    cases hst
  | up _ hf => rw [hf, if_pos rfl]
  | down hph' _ =>
    rw [hph] at hph'
    cases hph'

/-- `set_online(false)` at the end. -/
theorem online_left (hph : c.phase = .byeOnline) (h : advance I domain env g c = some (g', c')) :
    flag g'.world.store c.machine ≠ some true := by
  cases flag_step h with
  | same hq _ => simp only [Quiet, hph] at hq
  | fresh hst _ _ | up hst _ =>
    simp only [Conn.standing, hph] at hst
    cases hst
  | down _ hf =>
    rw [hf, if_pos rfl]
    intro hup
    obtain ⟨_, _, hfalse⟩ := Option.map_eq_some_iff.mp hup
    cases hfalse

theorem distinct_append {n : NodeState} (hnone : findByMachine s n.machineKey = none)
    (h : s'.nodes = s.nodes ++ [n]) (hd : (s.nodes.map (·.machineKey)).Nodup) :
    (s'.nodes.map (·.machineKey)).Nodup := by
  rw [h, List.map_append, List.nodup_append]
  refine ⟨hd, List.nodup_singleton _, ?_⟩
  intro a ha b hb hab
  obtain ⟨x, hx, rfl⟩ := List.mem_map.mp ha
  obtain rfl := List.mem_singleton.mp hb
  have hno := List.find?_eq_none.mp hnone x hx
  exact hno (decide_eq_true hab)

theorem distinct_step (h : advance I domain env g c = some (g', c'))
    (hd : (g.world.store.nodes.map (·.machineKey)).Nodup) :
    (g'.world.store.nodes.map (·.machineKey)).Nodup := by
  have hupdate : ∀ f : NodeState → NodeState, (∀ n, (f n).machineKey = n.machineKey) →
      g'.world.store.nodes = updateNode c.machine f g.world.store.nodes →
      (g'.world.store.nodes.map (·.machineKey)).Nodup := by
    intro f hf hs
    rw [hs, updateNode, modifyFirst_map hf]
    exact hd
  cases (advance_change h).1 with
  | quiet _ hs | keys _ _ hs | counted _ hs =>
    rw [hs]
    exact hd
  | renewed r claim e _ hs =>
    exact hupdate (reregistered r.nodeKey r.host e) (fun _ => rfl) (by rw [hs])
  | added r claim e ips _ hnone hs =>
    exact distinct_append (n := newNode g.world.store.nextNodeId c.machine r.nodeKey r.host e
      claim.token claim.shared ips) hnone (by rw [hs]) hd
  | updated sid r _ hs =>
    exact hupdate (mapUpdated r.nodeKey r.discoKey r.host r.endpoints) (fun _ => rfl) (by rw [hs])
  | online sid r _ hs => exact hupdate (withOnline true) (fun _ => rfl) (by rw [hs]; rfl)
  | offline _ hs => exact hupdate (withOnline false) (fun _ => rfl) (by rw [hs]; rfl)

end Flags

/-! ## 4. The invariant -/

/-- **The invariant of the flags.** -/
structure Accounted (p : Presence) : Prop where
  distinct : (p.coord.shared.world.store.nodes.map (·.machineKey)).Nodup
  known : ∀ j ∈ p.mapped, ∃ c, p.coord.conns[j]? = some c ∧
    flag p.coord.shared.world.store c.machine ≠ none
  relied : ∀ j c, p.coord.conns[j]? = some c → c.standing = .plain → j ∈ p.mapped →
    flag p.coord.shared.world.store c.machine = some true
  answered : ∀ m, flag p.coord.shared.world.store m = some true →
    ∃ j c, p.coord.conns[j]? = some c ∧ p.accounts m j c = true

section Invariant

variable {I : Inet} {domain : Bytes} {p : Presence} {s' : Coord} {i j : Nat} {c c' : Conn} {env : Env}
  {m : Bytes}

theorem accounts_iff : p.accounts m j c = true ↔ c.machine = m ∧
    (c.standing = .marking ∨ c.standing = .leaving ∨ (c.standing = .plain ∧ j ∈ p.mapped)) :=
  decide_eq_true_iff

theorem another_iff {q : Nat → Conn → Bool} : p.another i q = true ↔
    ∃ j c, j ≠ i ∧ p.coord.conns[j]? = some c ∧ q j c = true := by
  unfold Presence.another
  rw [List.any_eq_true]
  constructor
  · rintro ⟨⟨c, j⟩, hmem, hq⟩
    obtain ⟨hne, hq⟩ := Bool.and_eq_true_iff.mp hq
    exact ⟨j, c, of_decide_eq_true hne, List.mem_zipIdx_iff_getElem?.mp hmem, hq⟩
  · rintro ⟨j, c, hne, hget, hq⟩
    exact ⟨(c, j), List.mem_zipIdx_iff_getElem?.mpr hget,
      Bool.and_eq_true_iff.mpr ⟨decide_eq_true hne, hq⟩⟩

/-- What a connection that has marked a machine keeps doing. -/
theorem accounts_mono {p' : Presence} (h : p.accounts m j c = true)
    (hsub : ∀ j ∈ p.mapped, j ∈ p'.mapped) : p'.accounts m j c = true := by
  obtain ⟨hm, h⟩ := accounts_iff.mp h
  refine accounts_iff.mpr ⟨hm, ?_⟩
  rcases h with h | h | ⟨h, hj⟩
  · exact .inl h
  · exact .inr (.inl h)
  · exact .inr (.inr ⟨h, hsub j hj⟩)

/-- An exception takes nobody away who alone answered for an online machine. -/
theorem expendable_spec (h : p.expendable i c = true) :
    flag p.coord.shared.world.store c.machine = none ∨
      (flag p.coord.shared.world.store c.machine = some false ∧ c.standing ≠ .marking) ∨
      ∃ j d, j ≠ i ∧ p.coord.conns[j]? = some d ∧ p.accounts c.machine j d = true := by
  unfold Presence.expendable at h
  unfold flag
  cases hn : findByMachine p.coord.shared.world.store c.machine with
  | none => exact .inl rfl
  | some n =>
    simp only [hn] at h
    rcases Bool.or_eq_true_iff.mp h with h | h
    · obtain ⟨hoff, hst⟩ := Bool.and_eq_true_iff.mp h
      refine .inr (.inl ⟨?_, by simpa using hst⟩)
      have hoff : n.online = false := by simpa using hoff
      rw [Option.map_some, hoff]
    · exact .inr (.inr (another_iff.mp h))

/-- The step adds only its own connection, and only where its node exists. -/
theorem marks_run (hget : p.coord.conns[i]? = some c) (hj : j ∈ marks p.coord (.run i env)) :
    j = i ∧ (∃ sid r, c.phase = .mapOnline sid r) ∧ flag p.coord.shared.world.store c.machine ≠ none := by
  simp only [marks, hget] at hj
  split at hj
  · rename_i sid r hph
    split at hj
    · rename_i hsome
      refine ⟨List.mem_singleton.mp hj, ⟨sid, r, hph⟩, fun hnone => ?_⟩
      rw [flag, Option.map_eq_none_iff] at hnone
      rw [hnone] at hsome
      cases hsome
    · cases hj
  · cases hj

theorem marks_online (hget : p.coord.conns[i]? = some c) {sid : Nat} {r : MapReq}
    (hph : c.phase = .mapOnline sid r) (hknown : flag p.coord.shared.world.store c.machine ≠ none) :
    i ∈ marks p.coord (.run i env) := by
  have hsome : (findByMachine p.coord.shared.world.store c.machine).isSome = true := by
    rw [flag] at hknown
    cases hn : findByMachine p.coord.shared.world.store c.machine with
    | none =>
      rw [hn] at hknown
      exact absurd rfl hknown
    | some n => rfl
  simp only [marks, hget, hph, if_pos hsome]
  exact List.mem_singleton.mpr rfl

theorem flag_map_true {o : Option Bool} (h : o ≠ none) : o.map (fun _ => true) = some true := by
  cases o with
  | none => exact absurd rfl h
  | some b => rfl

theorem orderly_run (hok : orderly I domain p (.step (.run i env)) = true)
    (hget : p.coord.conns[i]? = some c) :
    (c.standing = .leaving → ∀ j d, j ≠ i → p.coord.conns[j]? = some d → d.machine = c.machine →
      d.standing = .plain → j ∉ p.mapped) ∧
    (fails I domain env p.coord.shared c = true → p.expendable i c = true) := by
  simp only [orderly, hget] at hok
  obtain ⟨hleave, hthrow⟩ := Bool.and_eq_true_iff.mp hok
  refine ⟨?_, ?_⟩
  · intro hst j d hne hd hm hplain hj
    rcases Bool.or_eq_true_iff.mp hleave with hno | hno
    · exact of_decide_eq_true hno hst
    · have hany : p.another i (p.stands c.machine) = true :=
        another_iff.mpr ⟨j, d, hne, hd, decide_eq_true ⟨hm, hplain, hj⟩⟩
      rw [hany] at hno
      cases hno
  · intro hf
    rw [hf] at hthrow
    simpa using hthrow

/-- The connections after a section of the `i`-th. -/
theorem conn_after (hget : p.coord.conns[i]? = some c) (hconns : s'.conns = p.coord.conns.set i c') :
    s'.conns[i]? = some c' ∧ ∀ j, j ≠ i → s'.conns[j]? = p.coord.conns[j]? := by
  rw [hconns]
  exact ⟨List.getElem?_set_self (List.getElem?_eq_some_iff.mp hget).1,
    fun j hj => List.getElem?_set_ne (Ne.symm hj)⟩

/-- After a section, whoever relies on the flag finds it up. -/
theorem relied_run (h : Accounted p) (hok : orderly I domain p (.step (.run i env)) = true)
    (hget : p.coord.conns[i]? = some c)
    (hadv : advance I domain env p.coord.shared c = some (s'.shared, c'))
    (hconns : s'.conns = p.coord.conns.set i c') {d : Conn} (hd : s'.conns[j]? = some d)
    (hplain : d.standing = .plain) (hj : j ∈ p.mapped ++ marks p.coord (.run i env)) :
    flag s'.shared.world.store d.machine = some true := by
  obtain ⟨hget', hrest⟩ := conn_after hget hconns
  have hflag := flag_step hadv
  by_cases hji : j = i
  · subst hji
    rw [hget'] at hd
    cases hd
    rw [(advance_change hadv).2]
    cases advance_passage hadv with
    | plain hst _ =>
      have hold : j ∈ p.mapped := by
        rcases List.mem_append.mp hj with hj | hj
        · exact hj
        · obtain ⟨_, ⟨sid, r, hph⟩, _⟩ := marks_run hget hj
          simp only [Conn.standing, hph] at hst
          cases hst
      exact (online_still hadv (.inl hst)).mpr (h.relied j c hget hst hold)
    | marked sid r hph _ =>
      have hknown : flag p.coord.shared.world.store c.machine ≠ none := by
        rcases List.mem_append.mp hj with hj | hj
        · obtain ⟨d, hd, hne⟩ := h.known j hj
          rw [hget] at hd
          cases hd
          exact hne
        · exact (marks_run hget hj).2.2
      rw [online_marked hph hadv]
      exact flag_map_true hknown
    | marking _ _ h' | left _ h' | gone _ h' | threw _ _ h' =>
      rw [hplain] at h'
      cases h'
  · rw [hrest j hji] at hd
    have hold : j ∈ p.mapped := by
      rcases List.mem_append.mp hj with hj | hj
      · exact hj
      · exact absurd (marks_run hget hj).1 hji
    have hup := h.relied j d hd hplain hold
    by_cases hm : d.machine = c.machine
    · cases hflag with
      | same _ hf => rw [hf, hup]
      | fresh _ hnone _ =>
        rw [hm, hnone] at hup
        cases hup
      | up _ hf =>
        rw [hf, if_pos hm, hup]
        rfl
      | down hph _ =>
        -- the flag is taken down only where nobody else relies on it
        exact absurd hold ((orderly_run hok hget).1 (by simp only [Conn.standing, hph]) j d hji hd hm
          hplain)
    · rw [hflag.other hm]
      exact hup

/-- After a section, an online machine has someone to answer for it. -/
theorem answered_run (h : Accounted p) (hok : orderly I domain p (.step (.run i env)) = true)
    (hget : p.coord.conns[i]? = some c)
    (hadv : advance I domain env p.coord.shared c = some (s'.shared, c'))
    (hconns : s'.conns = p.coord.conns.set i c') (hup : flag s'.shared.world.store m = some true) :
    ∃ j d, s'.conns[j]? = some d ∧
      ({ coord := s', mapped := p.mapped ++ marks p.coord (.run i env) } : Presence).accounts m j d =
        true := by
  obtain ⟨hget', hrest⟩ := conn_after hget hconns
  have hmachine := (advance_change hadv).2
  have hflag := flag_step hadv
  have hothers : (∃ j d, j ≠ i ∧ p.coord.conns[j]? = some d ∧ p.accounts m j d = true) →
      ∃ j d, s'.conns[j]? = some d ∧
        ({ coord := s', mapped := p.mapped ++ marks p.coord (.run i env) } : Presence).accounts m j d =
          true := by
    rintro ⟨j, d, hji, hd, hacc⟩
    exact ⟨j, d, (hrest j hji).trans hd, accounts_mono hacc fun k hk => List.mem_append_left _ hk⟩
  -- where the flag was up before, and the connection itself did not answer for it
  have hbefore : flag p.coord.shared.world.store m = some true → p.accounts m i c = false →
      ∃ j d, j ≠ i ∧ p.coord.conns[j]? = some d ∧ p.accounts m j d = true := by
    intro hold hno
    obtain ⟨j, d, hd, hacc⟩ := h.answered m hold
    refine ⟨j, d, fun hji => ?_, hd, hacc⟩
    subst hji
    rw [hget] at hd
    cases hd
    rw [hno] at hacc
    cases hacc
  by_cases hm : m = c.machine
  · subst hm
    cases advance_passage hadv with
    | plain hst h' =>
      by_cases hi : i ∈ p.mapped
      · exact ⟨i, c', hget', accounts_iff.mpr ⟨hmachine, .inr (.inr ⟨h', List.mem_append_left _ hi⟩)⟩⟩
      · have hno : p.accounts c.machine i c = false := by
          simp [Presence.accounts, hst, hi]
        exact hothers (hbefore ((online_still hadv (.inl hst)).mp hup) hno)
    | marking _ _ h' => exact ⟨i, c', hget', accounts_iff.mpr ⟨hmachine, .inl h'⟩⟩
    | marked sid r hph h' =>
      have hknown : flag p.coord.shared.world.store c.machine ≠ none := by
        intro hnone
        rw [online_marked hph hadv, hnone] at hup
        cases hup
      exact ⟨i, c', hget', accounts_iff.mpr ⟨hmachine,
        .inr (.inr ⟨h', List.mem_append_right _ (marks_online hget hph hknown)⟩)⟩⟩
    | left hph _ => exact absurd hup (online_left hph hadv)
    | gone hph _ =>
      have hst : c.standing = .left := by simp only [Conn.standing, hph]
      exact hothers (hbefore ((online_still hadv (.inr hst)).mp hup) (by simp [Presence.accounts, hst]))
    | threw hst hf _ =>
      rcases expendable_spec ((orderly_run hok hget).2 hf) with hnone | ⟨hoff, hno⟩ | hany
      · exact absurd hup (hflag.unknown hnone)
      · -- the node was offline, and only `update_map_info` would have put it online
        rcases hst with hst | ⟨sid, r, hph⟩
        · have hold := (online_still hadv (.inl hst)).mp hup
          rw [hoff] at hold
          cases hold
        · exact absurd (by simp only [Conn.standing, hph]) hno
      · exact hothers hany
  · rw [hflag.other hm] at hup
    refine hothers (hbefore hup ?_)
    simp [Presence.accounts, Ne.symm hm]

theorem accounted_run (h : Accounted p) (hok : orderly I domain p (.step (.run i env)) = true)
    (hget : p.coord.conns[i]? = some c)
    (hadv : advance I domain env p.coord.shared c = some (s'.shared, c'))
    (hconns : s'.conns = p.coord.conns.set i c') :
    Accounted { coord := s', mapped := p.mapped ++ marks p.coord (.run i env) } := by
  obtain ⟨hget', hrest⟩ := conn_after hget hconns
  refine ⟨distinct_step hadv h.distinct, ?_, ?_, fun m hup => answered_run h hok hget hadv hconns hup⟩
  · intro j hj
    rcases List.mem_append.mp hj with hj | hj
    · obtain ⟨d, hd, hknown⟩ := h.known j hj
      by_cases hji : j = i
      · subst hji
        rw [hget] at hd
        cases hd
        exact ⟨c', hget', by rw [(advance_change hadv).2]; exact (flag_step hadv).known hknown⟩
      · exact ⟨d, (hrest j hji).trans hd, (flag_step hadv).known hknown⟩
    · obtain ⟨rfl, _, hknown⟩ := marks_run hget hj
      exact ⟨c', hget', by rw [(advance_change hadv).2]; exact (flag_step hadv).known hknown⟩
  · intro j d hd hplain hj
    exact relied_run h hok hget hadv hconns hd hplain hj

/-- An idle connection starts something: a tick, a handler, its end, or its handler throws at once. -/
theorem accounted_start (h : Accounted p) (hget : p.coord.conns[i]? = some c) (hidle : c.phase = .idle)
    (hm : c'.machine = c.machine) (hst : c'.standing ≠ .left)
    (hex : c'.standing = .closed → p.expendable i c = true) :
    Accounted { coord := p.coord.setConn i c', mapped := p.mapped } := by
  have hplain := standing_plain hidle
  obtain ⟨hget', hrest⟩ : (p.coord.setConn i c').conns[i]? = some c' ∧
      ∀ j, j ≠ i → (p.coord.setConn i c').conns[j]? = p.coord.conns[j]? := conn_after hget rfl
  refine ⟨h.distinct, ?_, ?_, ?_⟩
  · intro j hj
    obtain ⟨d, hd, hknown⟩ := h.known j hj
    by_cases hji : j = i
    · subst hji
      rw [hget] at hd
      cases hd
      exact ⟨c', hget', by rw [hm]; exact hknown⟩
    · exact ⟨d, (hrest j hji).trans hd, hknown⟩
  · intro j d hd hdp hj
    by_cases hji : j = i
    · subst hji
      rw [hget'] at hd
      cases hd
      rw [hm]
      exact h.relied j c hget hplain hj
    · rw [hrest j hji] at hd
      exact h.relied j d hd hdp hj
  · intro m hup
    obtain ⟨j, d, hd, hacc⟩ := h.answered m hup
    by_cases hji : j = i
    · subst hji
      rw [hget] at hd
      cases hd
      obtain ⟨hcm, hacc⟩ := accounts_iff.mp hacc
      have hj : j ∈ p.mapped := by
        rcases hacc with hst' | hst' | ⟨_, hj⟩
        · rw [hplain] at hst'
          cases hst'
        · rw [hplain] at hst'
          cases hst'
        · exact hj
      cases hc' : c'.standing with
      | plain => exact ⟨j, c', hget', accounts_iff.mpr ⟨hm.trans hcm, .inr (.inr ⟨hc', hj⟩)⟩⟩
      | marking => exact ⟨j, c', hget', accounts_iff.mpr ⟨hm.trans hcm, .inl hc'⟩⟩
      | leaving => exact ⟨j, c', hget', accounts_iff.mpr ⟨hm.trans hcm, .inr (.inl hc')⟩⟩
      | left => exact absurd hc' hst
      | closed =>
        rcases expendable_spec (hex hc') with hnone | ⟨hoff, _⟩ | ⟨k, d, hkj, hd, hacc'⟩
        · rw [hcm] at hnone
          rw [show flag p.coord.shared.world.store m = some true from hup] at hnone
          cases hnone
        · rw [hcm] at hoff
          rw [show flag p.coord.shared.world.store m = some true from hup] at hoff
          cases hoff
        · rw [hcm] at hacc'
          exact ⟨k, d, (hrest k hkj).trans hd, hacc'⟩
    · exact ⟨j, d, (hrest j hji).trans hd, hacc⟩

theorem onRegister_standing (body : Option Json) :
    (onRegister c body).standing = .plain ∨
      ((onRegister c body).standing = .closed ∧ ∃ req e, body = some req ∧
        decodeRegister req = .error e) := by
  rcases onRegister_cases c body with ⟨_, h⟩ | ⟨req, e, hreq, hr, h⟩ | ⟨_, _, _, _, h⟩
  · rw [h]
    exact .inl rfl
  · rw [h]
    exact .inr ⟨rfl, req, e, hreq, hr⟩
  · rw [h]
    exact .inl rfl

theorem onMap_standing (sid : Nat) (body : Option Json) :
    (onMap c sid body).standing = .plain ∨ (onMap c sid body).standing = .marking ∨
      ((onMap c sid body).standing = .closed ∧ ∃ req e, body = some req ∧
        decodeMap req = .error e) := by
  rcases onMap_cases c sid body with ⟨_, h⟩ | ⟨req, e, hreq, hr, h⟩ | ⟨_, _, _, _, h | h⟩
  · rw [h]
    exact .inl rfl
  · rw [h]
    exact .inr (.inr ⟨rfl, req, e, hreq, hr⟩)
  · rw [h]
    exact .inr (.inl rfl)
  · rw [h]
    exact .inr (.inl rfl)

theorem accounted_accept (h : Accounted p) (machine : Bytes) :
    Accounted { coord := { p.coord with conns := p.coord.conns ++ [{ machine }] }
                mapped := p.mapped } := by
  have hold : ∀ (j : Nat) (d : Conn), p.coord.conns[j]? = some d →
      (p.coord.conns ++ [({ machine } : Conn)])[j]? = some d := by
    intro j d hd
    rw [List.getElem?_append_left (List.getElem?_eq_some_iff.mp hd).1]
    exact hd
  refine ⟨h.distinct, ?_, ?_, ?_⟩
  · intro j hj
    obtain ⟨d, hd, hknown⟩ := h.known j hj
    exact ⟨d, hold j d hd, hknown⟩
  · intro j d hd hplain hj
    -- a connection that has handled a request is an old one
    obtain ⟨d', hd', _⟩ := h.known j hj
    obtain rfl : d' = d := Option.some.inj ((hold j d' hd').symm.trans hd)
    exact h.relied j d' hd' hplain hj
  · intro m hup
    obtain ⟨j, d, hd, hacc⟩ := h.answered m hup
    exact ⟨j, d, hold j d hd, hacc⟩

theorem accounted_keys {w : World} (h : Accounted p)
    (hn : w.store.nodes = p.coord.shared.world.store.nodes) :
    Accounted { coord := { p.coord with shared := { p.coord.shared with world := w } }
                mapped := p.mapped } := by
  refine ⟨?_, ?_, ?_, ?_⟩
  · show (w.store.nodes.map _).Nodup
    rw [hn]
    exact h.distinct
  · intro j hj
    obtain ⟨d, hd, hknown⟩ := h.known j hj
    exact ⟨d, hd, by rw [flag_congr hn]; exact hknown⟩
  · intro j d hd hplain hj
    rw [flag_congr hn]
    exact h.relied j d hd hplain hj
  · intro m hup
    rw [flag_congr hn] at hup
    exact h.answered m hup

theorem accounted_fresh {store : Store} {file : Option FileText} (h : cleanStart store = true) :
    Accounted { coord := Coord.fresh store file } := by
  obtain ⟨hoff, hd⟩ := Bool.and_eq_true_iff.mp h
  refine ⟨of_decide_eq_true hd, ?_, ?_, ?_⟩
  · intro j hj
    cases hj
  · intro j d hd
    cases hd
  intro m hup
  obtain ⟨n, hn, hon⟩ := Option.map_eq_some_iff.mp hup
  have hno := List.all_eq_true.mp hoff n (List.mem_of_find?_eq_some hn)
  rw [hon] at hno
  cases hno

/-- Only sections of connections take effect. -/
theorem marks_start {s : Coord} {e : Event} (h : e.isSection = false) : marks s e = [] := by
  cases e with
  | run => cases h
  | accept | register | map | tick | closeStream | hangup | createKey => rfl

theorem accounted_step {p' : Presence} {e : Happening} (h : Accounted p) (hok : orderly I domain p e = true)
    (hs : presenceStep I domain p e = some p') : Accounted p' := by
  cases e with
  | restart u =>
    obtain ⟨⟨store, file⟩, hstart, rfl⟩ := Option.map_eq_some_iff.mp hs
    refine accounted_fresh ?_
    simpa only [orderly, hstart] using hok
  | step e =>
    obtain ⟨s', hstep, rfl⟩ := Option.map_eq_some_iff.mp hs
    cases e with
    | run i env =>
      obtain ⟨c, hget, hstep⟩ := Option.bind_eq_some_iff.mp hstep
      obtain ⟨⟨g, c'⟩, hadv, rfl⟩ := Option.map_eq_some_iff.mp hstep
      exact accounted_run h hok hget hadv rfl
    | accept machine =>
      cases hstep
      rw [marks_start rfl, List.append_nil]
      exact accounted_accept h machine
    | createKey env raw reusable ephemeral expiration token shared =>
      rcases hk : createPreauthKey env.io env.nowUnix raw reusable ephemeral expiration token shared
        p.coord.shared.world with ⟨r, w⟩
      simp only [coordStep, hk] at hstep
      cases hstep
      rw [marks_start rfl, List.append_nil]
      refine accounted_keys h ?_
      rw [(createPreauthKey_cases hk).1]
    | register i body =>
      obtain ⟨c, hc, rfl⟩ := Option.map_eq_some_iff.mp hstep
      obtain ⟨hget, hidle⟩ := idleConn_some hc
      rw [marks_start rfl, List.append_nil]
      refine accounted_start h hget hidle (onRegister_free c body).1 ?_ ?_
      · rcases onRegister_standing (c := c) body with hst | ⟨hst, _⟩
        · rw [hst]
          exact fun hne => nomatch hne
        · rw [hst]
          exact fun hne => nomatch hne
      · intro hclosed
        rcases onRegister_standing (c := c) body with hst | ⟨_, req, e, rfl, hr⟩
        · rw [hst] at hclosed
          cases hclosed
        · simpa only [orderly, hget, hr] using hok
    | map i sid body =>
      obtain ⟨c, hc, rfl⟩ := Option.map_eq_some_iff.mp hstep
      obtain ⟨hget, hidle⟩ := idleConn_some hc
      rw [marks_start rfl, List.append_nil]
      refine accounted_start h hget hidle (onMap_free c sid body).1 ?_ ?_
      · rcases onMap_standing (c := c) sid body with hst | hst | ⟨hst, _⟩
        · rw [hst]
          exact fun hne => nomatch hne
        · rw [hst]
          exact fun hne => nomatch hne
        · rw [hst]
          exact fun hne => nomatch hne
      · intro hclosed
        rcases onMap_standing (c := c) sid body with hst | hst | ⟨_, req, e, rfl, hr⟩
        · rw [hst] at hclosed
          cases hclosed
        · rw [hst] at hclosed
          cases hclosed
        · simpa only [orderly, hget, hr] using hok
    | tick i =>
      obtain ⟨c, hc, rfl⟩ := Option.map_eq_some_iff.mp hstep
      obtain ⟨hget, hidle⟩ := idleConn_some hc
      rw [marks_start rfl, List.append_nil]
      exact accounted_start h hget hidle rfl (fun hne => nomatch hne) (fun hne => nomatch hne)
    | closeStream i k =>
      obtain ⟨c, hc, rfl⟩ := Option.map_eq_some_iff.mp hstep
      obtain ⟨hget, hidle⟩ := idleConn_some hc
      rw [marks_start rfl, List.append_nil]
      have hplain : (closeLive c k).standing = .plain := standing_plain (c := closeLive c k) hidle
      refine accounted_start h hget hidle rfl ?_ ?_
      · rw [hplain]
        exact fun hne => nomatch hne
      · rw [hplain]
        exact fun hne => nomatch hne
    | hangup i =>
      obtain ⟨c, hc, rfl⟩ := Option.map_eq_some_iff.mp hstep
      obtain ⟨hget, hidle⟩ := idleConn_some hc
      rw [marks_start rfl, List.append_nil]
      exact accounted_start h hget hidle rfl (fun hne => nomatch hne) (fun hne => nomatch hne)

end Invariant

/-! ## 5. Whole runs -/

/-- At rest a connection is plain or closed. -/
theorem standing_of_rest {c : Conn} (h : busy c = false) :
    c.standing = .plain ∧ c.isClosed = false ∨ c.standing = .closed ∧ c.isClosed = true := by
  unfold busy at h
  unfold Conn.standing Conn.isClosed
  cases hph : c.phase with
  | idle | tickFind | tickNodes => exact .inl ⟨rfl, rfl⟩
  | closed => exact .inr ⟨rfl, rfl⟩
  | regFind | regRead | regInstall | regCheck | regNode | regBump | mapUpdate | mapBump | mapOnline
  | mapFind | mapNodes | mapLive | byeOnline | byeBump =>
    rw [hph] at h
    cases h

theorem flag_of_mem {s : Store} {n : NodeState} (hd : (s.nodes.map (·.machineKey)).Nodup)
    (hn : n ∈ s.nodes) : flag s n.machineKey = some n.online := by
  cases hf : findByMachine s n.machineKey with
  | none =>
    have hno := List.find?_eq_none.mp hf n hn
    exact absurd (decide_eq_true rfl) hno
  | some x =>
    have hkey : x.machineKey = n.machineKey := (found_identity hf).2
    have heq : x = n := List.inj_on_of_nodup_map hd (List.mem_of_find?_eq_some hf) hn hkey
    rw [flag, hf, heq]
    rfl

theorem Accounted.truthful {p : Presence} (h : Accounted p) : OnlineTruthful p := by
  intro hrest n hn
  have hflag := flag_of_mem h.distinct hn
  constructor
  · intro hon
    rw [hon] at hflag
    obtain ⟨j, c, hget, hacc⟩ := h.answered _ hflag
    obtain ⟨hm, hacc⟩ := accounts_iff.mp hacc
    rcases standing_of_rest (hrest c (List.mem_of_getElem? hget)) with ⟨hst, hopen⟩ | ⟨hst, _⟩
    · rw [hst] at hacc
      rcases hacc with hmk | hlv | ⟨_, hj⟩
      · cases hmk
      · cases hlv
      · exact ⟨j, hj, c, hget, hm, hopen⟩
    · rw [hst] at hacc
      rcases hacc with hmk | hlv | ⟨hpl, _⟩
      · cases hmk
      · cases hlv
      · cases hpl
  · rintro ⟨j, hj, c, hget, hm, hopen⟩
    rcases standing_of_rest (hrest c (List.mem_of_getElem? hget)) with ⟨hst, _⟩ | ⟨_, hclosed⟩
    · have hup := h.relied j c hget hst hj
      rw [hm, hflag] at hup
      exact Option.some.inj hup
    · rw [hopen] at hclosed
      cases hclosed

/-- **Online status is truthful in every run of orderly steps**, restarts included, from any store
    that a start may use. -/
theorem online_truthful (I : Inet) (domain : Bytes) (store : Store) (file : Option FileText)
    (es : List Happening) (p : Presence) (hstart : cleanStart store = true)
    (h : Run (Guarded (Of (presenceStep I domain)) fun p e => orderly I domain p e = true)
      { coord := Coord.fresh store file } es p) : OnlineTruthful p := by
  have hinv : Accounted p := by
    refine h.inv_state (I := Accounted) (accounted_fresh hstart) ?_
    intro p e p' hp hstep
    exact accounted_step hp hstep.1 hstep.2
  exact hinv.truthful

/-! ### Concrete runs -/

/-- Connection `i` asks for its map: the request, then its five sections. -/
def mapsOnce (i : Nat) : List Event :=
  .map i 1 (some (.obj [])) :: List.replicate 5 (.run i {})

/-- The connection ends: its loop, then its two sections. -/
def hangsUp (i : Nat) : List Event := [.hangup i, .run i {}, .run i {}]

/-- The machine connects a second time. -/
def twoConnections : List Event :=
  joins 0 (ascii "mkey:1") (bytes32 [1]) (ascii "blue") ++ [.accept (ascii "mkey:1")]

/-- The coordinator over an empty store, before anything has happened. -/
def quietStart : Presence := { coord := Coord.fresh { path := [], alloc := pool16 } none }

/-- Nothing is in progress, and the node's flag is `b`. -/
def restsAt (b : Bool) (p : Presence) : Bool :=
  p.coord.conns.all (!busy ·) && decide (p.coord.shared.world.store.nodes.map (·.online) = [b])

theorem rest_of_restsAt {b : Bool} {p : Presence} (h : restsAt b p = true) :
    (∀ c ∈ p.coord.conns, busy c = false) ∧
      ∃ n, p.coord.shared.world.store.nodes = [n] ∧ n.online = b := by
  obtain ⟨hrest, hnodes⟩ := Bool.and_eq_true_iff.mp h
  refine ⟨fun c hc => by simpa using List.all_eq_true.mp hrest c hc, ?_⟩
  obtain ⟨n, hn, hb⟩ := List.map_eq_singleton_iff.mp (of_decide_eq_true hnodes)
  exact ⟨n, hn, hb⟩

/-- A machine reconnects: the new connection asks for its map after the old one has ended. -/
theorem online_truthful_reconnect :
    ∃ p, Run (Guarded (Of (presenceStep .sample (ascii "ts.net"))) fun p e =>
        orderly .sample (ascii "ts.net") p e = true) quietStart
        ((twoConnections ++ mapsOnce 0 ++ hangsUp 0 ++ mapsOnce 1).map .step) p ∧
      ∃ i ∈ p.mapped, ∃ c, p.coord.conns[i]? = some c ∧ c.isClosed = false := by
  have hexec : (exec (checked (presenceStep .sample (ascii "ts.net")) (orderly .sample (ascii "ts.net")))
      quietStart ((twoConnections ++ mapsOnce 0 ++ hangsUp 0 ++ mapsOnce 1).map .step)).map (restsAt true) =
        some true := by
    decide +kernel
  obtain ⟨p, hp, hrests⟩ := Option.map_eq_some_iff.mp hexec
  obtain ⟨hrest, n, hnodes, hon⟩ := rest_of_restsAt hrests
  refine ⟨p, guarded_of_exec hp, ?_⟩
  have htrue := online_truthful .sample (ascii "ts.net") { path := [], alloc := pool16 } none _ p
    (by decide) (guarded_of_exec hp)
  have hn : n ∈ p.coord.shared.world.store.nodes := by
    rw [hnodes]
    exact List.mem_singleton.mpr rfl
  obtain ⟨i, hi, c, hget, _, hopen⟩ := (htrue hrest n hn).mp hon
  exact ⟨i, hi, c, hget, hopen⟩

/-- **A connected machine shown offline.** Two connections of one machine have asked for their maps.
    One of them ends, and the node is offline although the other is open. -/
theorem online_lost :
    ∃ p, Run (Of (presenceStep .sample (ascii "ts.net"))) quietStart
        ((twoConnections ++ mapsOnce 0 ++ mapsOnce 1 ++ hangsUp 0).map .step) p ∧ ¬ OnlineTruthful p := by
  have hexec : (exec (presenceStep .sample (ascii "ts.net")) quietStart
      ((twoConnections ++ mapsOnce 0 ++ mapsOnce 1 ++ hangsUp 0).map .step)).bind (fun p =>
        (p.coord.conns[1]?).map fun c => restsAt false p && decide (1 ∈ p.mapped) && !c.isClosed &&
          decide (p.coord.shared.world.store.nodes.map (·.machineKey) = [c.machine])) = some true := by
    decide +kernel
  obtain ⟨p, hp, h⟩ := Option.bind_eq_some_iff.mp hexec
  obtain ⟨c, hget, h⟩ := Option.map_eq_some_iff.mp h
  obtain ⟨h, hmachine⟩ := Bool.and_eq_true_iff.mp h
  obtain ⟨h, hopen⟩ := Bool.and_eq_true_iff.mp h
  obtain ⟨hrests, hmapped⟩ := Bool.and_eq_true_iff.mp h
  obtain ⟨hrest, n, hnodes, hoff⟩ := rest_of_restsAt hrests
  refine ⟨p, run_of_exec hp, fun htrue => ?_⟩
  have hm : c.machine = n.machineKey := by
    have hkeys := of_decide_eq_true hmachine
    rw [hnodes] at hkeys
    exact (List.cons.inj hkeys).1.symm
  have hon : n.online = true := by
    refine (htrue hrest n (by rw [hnodes]; exact List.mem_singleton.mpr rfl)).mpr ?_
    exact ⟨1, of_decide_eq_true hmapped, c, hget, hm, by simpa using hopen⟩
  rw [hoff] at hon
  cases hon

end Wirebone
