/-
  File:      Wirebone/Store/Site.lean
  Subject:   THE PROCESSES THAT SHARE ONE STATE FILE: a server, and `wirebone preauth create`.

  Each process has a store of its own. It loads the file when it starts; from then on it reads the
  file only in `reload_keys_from_disk`, and only the keys. Every `save_locked` replaces the whole
  file by what this process has in memory.

  * `loadStore`, `initNoise` -- the two halves of the constructor, `openStore_eq`;
  * `Op`, `Op.run` -- the operations that may save;
  * `Process`, `Site`, `siteStep` -- the machine: one load, one reload or one save a step. The
    site keeps a record that no process reads: what has been returned to whom, and which keys and
    nodes of the file a process has read or written last;
  * `Ran` -- what an operation does to memory and to the file.
-/
import Wirebone.Store.OneShot
import Wirebone.Store.Registry

namespace Wirebone

open ByteString FirstMatch Lts

/-! ## 1. Starting -/

/-- `load_or_init` up to the noise key. -/
def loadStore (I : Inet) (path ipv4Cidr ipv6Cidr : Bytes) (file : Option FileText) : Except Exn Store :=
  match ipAllocator I ipv4Cidr ipv6Cidr with
  | .error e => .error e
  | .ok alloc =>
    let s : Store := { path, alloc }
    if path = [] then .ok s
    else
      match file with
      | none => .ok s
      | some .empty => .ok s
      | some .torn => .error .parseError
      | some (.json j) =>
        match applySnapshotLocked j s with
        | (.error e, _) => .error e
        | (.ok _, s) => .ok s

/-- `load_or_init` from there on: a noise key is drawn and saved where there is none. -/
def initNoise (io : SaveIo) (noise : Bytes32) (w : World) : Except Exn Unit × World :=
  if w.store.noisePrivate = zero32 then
    commit io w { w.store with noisePrivate := noise } ()
  else (.ok (), w)

theorem openStore_eq (I : Inet) (io : SaveIo) (noise : Bytes32) (path ipv4Cidr ipv6Cidr : Bytes)
    (file : Option FileText) :
    openStore I io noise path ipv4Cidr ipv6Cidr file =
      match loadStore I path ipv4Cidr ipv6Cidr file with
      | .error e => (.error e, file)
      | .ok s =>
        match initNoise io noise { store := s, file } with
        | (.error e, w) => (.error e, w.file)
        | (.ok _, w) => (.ok w.store, w.file) := by
  have hinit : ∀ s : Store, (if s.noisePrivate = zero32 then
        match saveLocked io { store := { s with noisePrivate := noise }, file } with
        | (.error e, w) => ((.error e : Except Exn Store), w.file)
        | (.ok _, w) => (.ok w.store, w.file)
      else (.ok s, file)) =
      match initNoise io noise { store := s, file } with
      | (.error e, w) => (.error e, w.file)
      | (.ok _, w) => (.ok w.store, w.file) := by
    intro s
    unfold initNoise commit
    by_cases hz : s.noisePrivate = zero32
    · simp only [if_pos hz]
      rcases saveLocked io { store := { s with noisePrivate := noise }, file } with ⟨_ | _, w⟩
      · rfl
      · rfl
    · simp only [if_neg hz]
  unfold openStore loadStore
  cases ipAllocator I ipv4Cidr ipv6Cidr with
  | error e => rfl
  | ok alloc =>
    by_cases hp : path = []
    · subst hp
      exact hinit { path := [], alloc }
    · simp only [if_neg hp]
      rcases file with _ | _ | _ | j
      · exact hinit { path, alloc }
      · exact hinit { path, alloc }
      · rfl
      · rcases hj : applySnapshotLocked j { path, alloc } with ⟨_ | _, s⟩
        · simp only [hj]
        · simp only [hj]
          exact hinit s

/-! ## 2. What the file holds -/

/-- The entries that loading a key list gives. -/
def keyList (ks : Json) : List PreauthKey := (pushUntil keyFromJson ks.items).1

def fileKeys : Option FileText → List PreauthKey
  | some (.json j) => keyList ((j.find (ascii "preauth_keys")).getD .null)
  | _ => []

/-- What a node is found by: its identity, less the id, which a load cuts to 32 bits. -/
def NodeState.place (n : NodeState) : Identity := { n.identity with id := 0 }

def places (s : Store) : List Identity := s.nodes.map (·.place)

def fileNodes : Option FileText → List Identity
  | some (.json j) => (pushUntil nodeFromJson ((j.find (ascii "nodes")).getD .null).items).1.map (·.place)
  | _ => []

/-! ## 3. The machine -/

/-- The operations that come to a `save_locked`, or may. -/
inductive Op where
  | init (noise : Bytes32)
  /-- `create_preauth_key` as the constructor of the coordinator and the command line call it,
      without an expiration. -/
  | create (now : Int) (raw : Bytes32) (reusable ephemeral : Bool) (token : Bytes) (shared : Option Bool)
  /-- The locked half of `consume_preauth`. -/
  | check (now : Int) (key : Bytes)
  | register (machineKey nodeKey hostname : Bytes) (ephemeral : Bool) (token : Bytes) (shared : Bool)
  | mapInfo (machineKey nodeKey discoKey hostname : Bytes) (endpoints : List Bytes)

/-- What an operation that has returned stands for. -/
inductive Receipt where
  /-- `create_preauth_key` has returned this key. -/
  | key (k : PreauthKey)
  /-- `consume_preauth` has returned `true` for this key. -/
  | spent (key : Bytes)
  /-- `register_node` has returned this node. -/
  | node (d : Identity)

def Op.run (I : Inet) (io : SaveIo) (w : World) : Op → Except Exn (Option Receipt) × World
  | .init noise =>
    let r := initNoise io noise w
    (r.1.map fun _ => none, r.2)
  | .create now raw reusable ephemeral token shared =>
    let r := createPreauthKey io now raw reusable ephemeral 0 token shared w
    (r.1.map fun _ => some (.key (createdKey now raw reusable ephemeral 0 token shared)), r.2)
  | .check now key =>
    let r := checkAndMark io now key w
    (r.1.map fun claim => claim.map fun _ => .spent key, r.2)
  | .register machineKey nodeKey hostname ephemeral token shared =>
    let r := registerNode I io machineKey nodeKey hostname ephemeral token shared w
    (r.1.map fun n => some (.node n.place), r.2)
  | .mapInfo machineKey nodeKey discoKey hostname endpoints =>
    let r := updateMapInfo io machineKey nodeKey discoKey hostname endpoints w
    (r.1.map fun _ => none, r.2)

/-- `consume_preauth` does not refuse the key. -/
def spendable (now : Int) (key : Bytes) (keys : List PreauthKey) : Bool :=
  match keys.find? (·.key = key) with
  | none => false
  | some k => !(decide (k.expiresUnix ≠ 0 ∧ now > k.expiresUnix)) && (k.reusable || !k.used)

/-- The operation comes to its `save_locked`. -/
def Op.comesToSave (I : Inet) (s : Store) : Op → Bool
  | .init _ => decide (s.noisePrivate = zero32)
  | .create _ _ _ _ _ _ => true
  | .check now key => spendable now key s.keys
  | .register machineKey _ _ _ _ _ =>
    (findByMachine s machineKey).isSome || (addressFor I s.alloc s.nextIpIndex).toBool
  | .mapInfo machineKey _ _ _ _ => (findByMachine s machineKey).isSome

/-- How far a process has come. -/
inductive Stage where
  /-- The file is loaded. -/
  | loaded
  /-- There is a noise key. -/
  | settled
  /-- There is a key: the coordinator is constructed. -/
  | running
  /-- The constructor has thrown. -/
  | dead
  deriving DecidableEq

structure Process where
  store : Store
  stage : Stage := .loaded
  /-- The `consume_preauth` calls under way. -/
  calls : List ConsumeCall := []
  /-- The keys and the nodes of the file as the process has loaded, reloaded or saved them last. -/
  seenKeys : List PreauthKey
  seenNodes : List Identity

structure Site where
  path : Bytes
  file : Option FileText
  procs : List Process := []
  /-- The keys that `create_preauth_key` has returned, and those a `consume_preauth` has marked. -/
  created : List PreauthKey := []
  marked : List Bytes := []
  /-- The keys for which a `consume_preauth` has returned `true`. -/
  spent : List Bytes := []
  /-- The nodes that `register_node` has returned. -/
  registered : List Identity := []

/-- A result goes into the record. -/
def Site.record (s : Site) : Except Exn (Option Receipt) → Site
  | .ok (some (.key k)) => { s with created := s.created ++ [k] }
  | .ok (some (.spent key)) => { s with spent := s.spent ++ [key] }
  | .ok (some (.node d)) => { s with registered := s.registered ++ [d] }
  | _ => s

/-- The key that a `consume_preauth` which is not refused marks in memory. -/
def Op.marks (I : Inet) (s : Store) : Op → List Bytes
  | .check now key => if (Op.check now key).comesToSave I s then [key] else []
  | _ => []

/-- The process after an operation: what it has saved, it knows to be in the file. -/
def Process.after (p : Process) (w : World) (saved : Bool) (stage : Stage) : Process :=
  { p with
    store := w.store
    stage
    seenKeys := if saved then fileKeys w.file else p.seenKeys
    seenNodes := if saved then fileNodes w.file else p.seenNodes }

/-- Process `i`, which is `p`, runs an operation; `done` and `failed` are the stages after it. -/
def Site.perform (I : Inet) (s : Site) (i : Nat) (p : Process) (io : SaveIo) (o : Op)
    (done failed : Stage) : Site :=
  let r := o.run I io { store := p.store, file := s.file }
  let p' := p.after r.2 (o.comesToSave I p.store && r.1.toBool) (if r.1.toBool then done else failed)
  ({ s with file := r.2.file, procs := s.procs.set i p', marked := s.marked ++ o.marks I p.store }).record r.1

inductive SiteEvent where
  /-- A process starts, and loads the file. -/
  | load (ipv4Cidr ipv6Cidr : Bytes)
  | init (i : Nat) (io : SaveIo) (noise : Bytes32)
  /-- The coordinator makes a first key where there is none. -/
  | boot (i : Nat) (io : SaveIo) (now : Int) (raw : Bytes32)
  | create (i : Nat) (io : SaveIo) (now : Int) (raw : Bytes32) (reusable ephemeral : Bool)
      (token : Bytes) (shared : Option Bool)
  | register (i : Nat) (io : SaveIo) (machineKey nodeKey hostname : Bytes) (ephemeral : Bool)
      (token : Bytes) (shared : Bool)
  | mapInfo (i : Nat) (io : SaveIo) (machineKey nodeKey discoKey hostname : Bytes)
      (endpoints : List Bytes)
  | online (i : Nat) (machineKey : Bytes) (online : Bool)
  /-- `consume_preauth`: the call, and its three sections. -/
  | call (i : Nat) (key : Bytes)
  | read (i n : Nat)
  | install (i n : Nat)
  | check (i n : Nat) (now : Int) (io : SaveIo)

/-- Process `i`, where it is at `stage`. -/
def Site.at (s : Site) (i : Nat) (stage : Stage) : Option Process :=
  (s.procs[i]?).filter fun p => p.stage = stage

/-- Call `n` of a process moves on. -/
def Process.moved (p : Process) (n : Nat) (key : Bytes) (phase : CallPhase) : Process :=
  { p with calls := p.calls.set n { key, phase } }

/-- The locked half of `reload_keys_from_disk`. -/
def Process.installed (p : Process) (n : Nat) (key : Bytes) : Option Json → Process
  | none => p.moved n key .ready
  | some ks =>
    let r := installKeys ks p.store
    { p.moved n key (if r.1.toBool then .ready else .done) with store := r.2, seenKeys := r.2.keys }

def siteStep (I : Inet) (s : Site) : SiteEvent → Option Site
  | .load ipv4Cidr ipv6Cidr =>
    match loadStore I s.path ipv4Cidr ipv6Cidr s.file with
    | .error _ => some s
    | .ok store =>
      some { s with
        procs := s.procs ++
          [{ store, seenKeys := fileKeys s.file, seenNodes := fileNodes s.file }] }
  | .init i io noise => (s.at i .loaded).map fun p => s.perform I i p io (.init noise) .settled .dead
  | .boot i io now raw => (s.at i .settled).map fun p =>
    if p.store.keys = [] then s.perform I i p io (.create now raw true false [] none) .running .dead
    else { s with procs := s.procs.set i { p with stage := .running } }
  | .create i io now raw reusable ephemeral token shared => (s.at i .running).map fun p =>
    s.perform I i p io (.create now raw reusable ephemeral token shared) .running .running
  | .register i io machineKey nodeKey hostname ephemeral token shared => (s.at i .running).map fun p =>
    s.perform I i p io (.register machineKey nodeKey hostname ephemeral token shared) .running .running
  | .mapInfo i io machineKey nodeKey discoKey hostname endpoints => (s.at i .running).map fun p =>
    s.perform I i p io (.mapInfo machineKey nodeKey discoKey hostname endpoints) .running .running
  | .online i machineKey online => (s.at i .running).map fun p =>
    { s with procs := s.procs.set i { p with store := setOnline machineKey online p.store } }
  | .call i key => (s.at i .running).map fun p =>
    { s with procs := s.procs.set i { p with calls := p.calls ++ [{ key, phase := .begun }] } }
  | .read i n => (s.at i .running).bind fun p =>
    match p.calls[n]? with
    | some ⟨key, .begun⟩ =>
      let image := readImage { store := p.store, file := s.file }
      some { s with procs := s.procs.set i (p.moved n key (.loaded image)) }
    | _ => none
  | .install i n => (s.at i .running).bind fun p =>
    match p.calls[n]? with
    | some ⟨key, .loaded image⟩ => some { s with procs := s.procs.set i (p.installed n key image) }
    | _ => none
  | .check i n now io => (s.at i .running).bind fun p =>
    match p.calls[n]? with
    | some ⟨key, .ready⟩ => some (s.perform I i (p.moved n key .done) io (.check now key) .running .running)
    | _ => none

/-! ## 4. What an operation does -/

/-- The keys in memory after the operation. -/
def Op.keysAfter (s : Store) : Op → List PreauthKey
  | .create now raw reusable ephemeral token shared =>
    s.keys ++ [createdKey now raw reusable ephemeral 0 token shared]
  | .check now key => if spendable now key s.keys then markUsed key s.keys else s.keys
  | _ => s.keys

/-- The key the operation makes. -/
def Op.drawn : Op → Option PreauthKey
  | .create now raw reusable ephemeral token shared =>
    some (createdKey now raw reusable ephemeral 0 token shared)
  | _ => none

/-- **One operation**: what it leaves in memory, when it writes the file and what, and what its
    results mean. -/
structure Ran (I : Inet) (io : SaveIo) (w : World) (o : Op) (r : Except Exn (Option Receipt))
    (w' : World) : Prop where
  path : w'.store.path = w.store.path
  keys : w'.store.keys = o.keysAfter w.store
  places : places w.store ⊆ places w'.store
  file : w'.file = w.file ∨
    (o.comesToSave I w.store = true ∧ w'.file = some (io.text (snapshotLocked w'.store)))
  saved : o.comesToSave I w.store = true → r.toBool = true → w.store.path ≠ [] →
    w'.file = some (io.text (snapshotLocked w'.store))
  key : ∀ k, r = .ok (some (.key k)) → o.drawn = some k
  spent : ∀ K, r = .ok (some (.spent K)) → ∃ now, o = .check now K ∧ spendable now K w.store.keys = true
  node : ∀ d, r = .ok (some (.node d)) → o.comesToSave I w.store = true ∧ d ∈ Wirebone.places w'.store

theorem except_map_ok {α β : Type} {f : α → β} {r : Except Exn α} {b : β} (h : r.map f = .ok b) :
    ∃ a, r = .ok a ∧ f a = b := by
  cases r with
  | error e => cases h
  | ok a => exact ⟨a, rfl, Except.ok.inj h⟩

section Run

variable {I : Inet} {io : SaveIo} {w w' : World} {o : Op}

/-- An operation that ends in a save. -/
theorem Ran.of_commit {α : Type} {s : Store} {a : α} {r : Except Exn α} {f : α → Option Receipt}
    (h : commit io w s a = (r, w')) (hpath : s.path = w.store.path)
    (hkeys : s.keys = o.keysAfter w.store) (hplaces : Wirebone.places w.store ⊆ Wirebone.places s)
    (hsave : o.comesToSave I w.store = true) (hkey : ∀ k, f a = some (.key k) → o.drawn = some k)
    (hspent : ∀ K, f a = some (.spent K) →
      ∃ now, o = .check now K ∧ spendable now K w.store.keys = true)
    (hnode : ∀ d, f a = some (.node d) → d ∈ Wirebone.places s) : Ran I io w o (r.map f) w' := by
  obtain ⟨hstore, hr, hfile, hok⟩ := commit_cases h
  -- a result is `f` of the value returned
  have hval : ∀ x, r.map f = .ok x → f a = x := by
    intro x hx
    obtain ⟨b, hb, hfb⟩ := except_map_ok hx
    rcases hr with hr | ⟨e, hr⟩
    · rw [hr] at hb
      cases hb
      exact hfb
    · rw [hr] at hb
      cases hb
  refine ⟨?_, ?_, ?_, ?_, ?_, ?_, ?_, ?_⟩
  · rw [hstore, hpath]
  · rw [hstore, hkeys]
  · rw [hstore]
    exact hplaces
  · rw [hstore]
    exact hfile.imp_right fun hf => ⟨hsave, hf.2⟩
  · intro _ hbool hp
    rw [hstore]
    rcases hr with hr | ⟨e, hr⟩
    · exact hok a hr (by rw [hpath]; exact hp)
    · rw [hr] at hbool
      cases hbool
  · exact fun k hk => hkey k (hval _ hk)
  · exact fun K hK => hspent K (hval _ hK)
  · intro d hd
    rw [hstore]
    exact ⟨hsave, hnode d (hval _ hd)⟩

/-- An operation that does not come to a save: memory keeps its keys and its nodes. -/
theorem Ran.of_idle {r : Except Exn (Option Receipt)} (hpath : w'.store.path = w.store.path)
    (hkeys : w'.store.keys = o.keysAfter w.store) (hnodes : w'.store.nodes = w.store.nodes)
    (hfile : w'.file = w.file) (hsave : o.comesToSave I w.store = false)
    (hr : ∀ x, r ≠ .ok (some x)) : Ran I io w o r w' := by
  refine ⟨hpath, hkeys, ?_, .inl hfile, ?_, ?_, ?_, ?_⟩
  · unfold Wirebone.places
    rw [hnodes]
    exact List.Subset.refl _
  · intro hs
    rw [hsave] at hs
    cases hs
  · exact fun k hk => absurd hk (hr _)
  · exact fun K hK => absurd hK (hr _)
  · exact fun d hd => absurd hd (hr _)

theorem places_updateNode {f : NodeState → NodeState} (h : ∀ n, (f n).identity = n.identity)
    (machineKey : Bytes) (s : Store) :
    places { s with nodes := updateNode machineKey f s.nodes } = places s := by
  refine modifyFirst_map (fun n => ?_) s.nodes
  rw [NodeState.place, NodeState.place, h]

theorem run_init (noise : Bytes32) :
    Ran I io w (.init noise) ((Op.init noise).run I io w).1 ((Op.init noise).run I io w).2 := by
  unfold Op.run initNoise
  by_cases hz : w.store.noisePrivate = zero32
  · simp only [if_pos hz]
    rcases hc : commit io w { w.store with noisePrivate := noise } () with ⟨r, w'⟩
    refine .of_commit hc rfl rfl (List.Subset.refl _) (decide_eq_true hz) ?_ ?_ ?_
    · exact fun k hk => nomatch hk
    · exact fun K hK => nomatch hK
    · exact fun d hd => nomatch hd
  · simp only [if_neg hz]
    exact .of_idle rfl rfl rfl rfl (decide_eq_false hz) fun x hx => nomatch hx

theorem run_create (now : Int) (raw : Bytes32) (reusable ephemeral : Bool) (token : Bytes)
    (shared : Option Bool) :
    Ran I io w (.create now raw reusable ephemeral token shared)
      ((Op.create now raw reusable ephemeral token shared).run I io w).1
      ((Op.create now raw reusable ephemeral token shared).run I io w).2 := by
  rcases hc : createPreauthKey io now raw reusable ephemeral 0 token shared w with ⟨r, w'⟩
  simp only [Op.run, hc]
  refine .of_commit hc rfl rfl (List.Subset.refl _) rfl ?_ ?_ ?_
  · intro k hk
    cases hk
    rfl
  · exact fun K hK => nomatch hK
  · exact fun d hd => nomatch hd

theorem run_check (now : Int) (key : Bytes) :
    Ran I io w (.check now key) ((Op.check now key).run I io w).1
      ((Op.check now key).run I io w).2 := by
  cases hs : spendable now key w.store.keys with
  | true =>
    -- the conditions of `spendable` are those of the code
    have hcheck : ∃ k : PreauthKey, checkAndMark io now key w =
        commit io w { w.store with keys := markUsed key w.store.keys } (some k.claim) := by
      unfold spendable at hs
      cases hk : w.store.keys.find? (·.key = key) with
      | none =>
        rw [hk] at hs
        cases hs
      | some k =>
        rw [hk] at hs
        obtain ⟨he, hu⟩ := Bool.and_eq_true_iff.mp hs
        have hlive : ¬ (k.expiresUnix ≠ 0 ∧ now > k.expiresUnix) := by
          intro hexp
          rw [decide_eq_true hexp] at he
          cases he
        refine ⟨k, ?_⟩
        unfold checkAndMark
        simp only [hk]
        rw [if_neg hlive, if_neg]
        intro hspent
        simp only [Bool.and_eq_true, Bool.not_eq_true'] at hspent
        simp [hspent.1, hspent.2] at hu
    obtain ⟨k, hcheck⟩ := hcheck
    rcases hc : commit io w { w.store with keys := markUsed key w.store.keys } (some k.claim) with ⟨r, w'⟩
    simp only [Op.run, hcheck, hc]
    refine .of_commit hc rfl ?_ (List.Subset.refl _) hs ?_ ?_ ?_
    · simp only [Op.keysAfter, hs, if_true]
    · exact fun k hk => nomatch hk
    · intro K hK
      cases hK
      exact ⟨now, rfl, hs⟩
    · exact fun d hd => nomatch hd
  | false =>
    have hcheck : checkAndMark io now key w = (.ok none, w) := by
      rcases hc : checkAndMark io now key w with ⟨r, w'⟩
      rcases checkAndMark_cases hc with ⟨rfl, rfl⟩ | ⟨k, hk, he, hu, _⟩
      · rfl
      · simp only [spendable, hk, Bool.and_eq_false_iff, Bool.not_eq_false',
          decide_eq_true_eq, Bool.or_eq_false_iff] at hs
        rcases hs with hs | ⟨h1, h2⟩
        · exact absurd hs he
        · rcases hu with hu | hu
          · rw [hu] at h1
            cases h1
          · rw [hu] at h2
            cases h2
    simp only [Op.run, hcheck]
    refine .of_idle rfl ?_ rfl rfl hs fun x hx => nomatch hx
    simp only [Op.keysAfter, hs, Bool.false_eq_true, if_false]

theorem run_register (machineKey nodeKey hostname : Bytes) (ephemeral : Bool) (token : Bytes)
    (shared : Bool) :
    Ran I io w (.register machineKey nodeKey hostname ephemeral token shared)
      ((Op.register machineKey nodeKey hostname ephemeral token shared).run I io w).1
      ((Op.register machineKey nodeKey hostname ephemeral token shared).run I io w).2 := by
  rcases hr : registerNode I io machineKey nodeKey hostname ephemeral token shared w with ⟨r, w'⟩
  simp only [Op.run, hr]
  rcases registerNode_cases hr with ⟨n, hfind, hc⟩ | ⟨hfind, ⟨e, rfl, haddr⟩, rfl⟩ | ⟨ips, hfind, haddr, hc⟩
  · have hplaces := places_updateNode (reregistered_identity nodeKey hostname ephemeral) machineKey w.store
    refine .of_commit hc rfl rfl (by rw [hplaces]; exact List.Subset.refl _) ?_ ?_ ?_ ?_
    · simp only [Op.comesToSave, hfind, Option.isSome_some, Bool.true_or]
    · exact fun k hk => nomatch hk
    · exact fun K hK => nomatch hK
    · intro d hd
      cases hd
      rw [hplaces, NodeState.place, reregistered_identity]
      exact List.mem_map_of_mem (f := NodeState.place) (List.mem_of_find?_eq_some hfind)
  · refine .of_idle rfl rfl rfl rfl ?_ fun x hx => nomatch hx
    simp only [Op.comesToSave, hfind, haddr, Except.toBool, Option.isSome_none, Bool.false_or]
  · refine .of_commit hc rfl rfl ?_ ?_ ?_ ?_ ?_
    · unfold places
      rw [List.map_append]
      exact List.subset_append_left _ _
    · simp only [Op.comesToSave, haddr, Except.toBool, Bool.or_true]
    · exact fun k hk => nomatch hk
    · exact fun K hK => nomatch hK
    · intro d hd
      cases hd
      unfold places
      rw [List.map_append]
      exact List.mem_append_right _ (List.mem_singleton.mpr rfl)

theorem run_mapInfo (machineKey nodeKey discoKey hostname : Bytes) (endpoints : List Bytes) :
    Ran I io w (.mapInfo machineKey nodeKey discoKey hostname endpoints)
      ((Op.mapInfo machineKey nodeKey discoKey hostname endpoints).run I io w).1
      ((Op.mapInfo machineKey nodeKey discoKey hostname endpoints).run I io w).2 := by
  rcases hu : updateMapInfo io machineKey nodeKey discoKey hostname endpoints w with ⟨r, w'⟩
  simp only [Op.run, hu]
  rcases updateMapInfo_cases hu with ⟨hfind, rfl, rfl⟩ | ⟨n, hfind, hc⟩
  · refine .of_idle rfl rfl rfl rfl ?_ fun x hx => nomatch hx
    simp only [Op.comesToSave, hfind, Option.isSome_none]
  · have hplaces := places_updateNode (mapUpdated_identity nodeKey discoKey hostname endpoints)
      machineKey w.store
    refine .of_commit hc rfl rfl (by rw [hplaces]; exact List.Subset.refl _) ?_ ?_ ?_ ?_
    · simp only [Op.comesToSave, hfind, Option.isSome_some]
    · exact fun k hk => nomatch hk
    · exact fun K hK => nomatch hK
    · exact fun d hd => nomatch hd

theorem run_ran (I : Inet) (io : SaveIo) (w : World) (o : Op) :
    Ran I io w o (o.run I io w).1 (o.run I io w).2 := by
  cases o with
  | init noise => exact run_init noise
  | create now raw reusable ephemeral token shared => exact run_create now raw reusable ephemeral token shared
  | check now key => exact run_check now key
  | register m nodeKey hostname ephemeral token shared =>
    exact run_register m nodeKey hostname ephemeral token shared
  | mapInfo m nodeKey discoKey hostname endpoints => exact run_mapInfo m nodeKey discoKey hostname endpoints

end Run

end Wirebone
