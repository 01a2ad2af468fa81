/-
  File:      Wirebone/Store/Restart.lean
  Subject:   A STORE OPENED FROM ITS FILE IS THE STORE THAT WROTE IT.

  One process, its calls one after another, every file operation succeeding. Memory and file are
  kept together by the `save_locked` at the end of every call that changes something; `set_online`
  alone is not saved, and its flag is left out of the comparison.

  * `Home` -- the state file and the store that is open on it; `homeStep` -- one completed call;
  * `Durable` -- the invariant: the file is the dump of a store that differs at most in its
    `online` flags;
  * **`restart_equivalent`** -- after every run, opening the file gives the store back, and
    `reload_keys_from_disk` changes nothing.
-/
import Wirebone.Store.LostUpdate
import Wirebone.Store.Snapshot

namespace Wirebone

open ByteString FirstMatch Lts

/-! ## 1. The machine -/

structure Home where
  path : Bytes
  file : Option FileText
  /-- The store that was opened last. -/
  store : Option Store := none

inductive StoreCall where
  /-- The constructor, also where there is a store already. -/
  | construct (raw : Bytes32) (ipv4Cidr ipv6Cidr : Bytes)
  | create (now : Int) (raw : Bytes32) (reusable ephemeral : Bool) (expiration : Int) (token : Bytes)
      (shared : Option Bool)
  | consume (now : Int) (key : Bytes)
  | register (machineKey nodeKey hostname : Bytes) (ephemeral : Bool) (token : Bytes) (shared : Bool)
  | mapInfo (machineKey nodeKey discoKey hostname : Bytes) (endpoints : List Bytes)
  | online (machineKey : Bytes) (online : Bool)

def Home.world (h : Home) : Option World := h.store.map fun store => { store, file := h.file }

/-- A call has completed where it has not thrown. -/
def Home.completed {α : Type} (h : Home) : Except Exn α × World → Option Home
  | (.ok _, w) => some { h with file := w.file, store := some w.store }
  | (.error _, _) => none

/-- One completed call; the calls on the file system succeed (`SaveIo` as it is by default). -/
def homeStep (I : Inet) (h : Home) : StoreCall → Option Home
  | .construct raw ipv4Cidr ipv6Cidr =>
    match openStore I {} (generateX25519Private raw) h.path ipv4Cidr ipv6Cidr h.file with
    | (.ok s, file) => some { h with file, store := some s }
    | (.error _, _) => none
  | .create now raw reusable ephemeral expiration token shared => h.world.bind fun w =>
    h.completed (createPreauthKey {} now raw reusable ephemeral expiration token shared w)
  | .consume now key => h.world.bind fun w => h.completed (consumePreauth {} now key w)
  | .register machineKey nodeKey hostname ephemeral token shared => h.world.bind fun w =>
    h.completed (registerNode I {} machineKey nodeKey hostname ephemeral token shared w)
  | .mapInfo machineKey nodeKey discoKey hostname endpoints => h.world.bind fun w =>
    h.completed (updateMapInfo {} machineKey nodeKey discoKey hostname endpoints w)
  | .online machineKey online => h.world.map fun w =>
    { h with store := some (setOnline machineKey online w.store) }

/-- A completed call after which counters, ids and expiries are `int`s. -/
def smallStep (I : Inet) (h : Home) (c : StoreCall) : Option Home :=
  (homeStep I h c).filter fun h => h.store.all Store.fits

/-! ## 2. The store, less the flags -/

def NodeState.offline (n : NodeState) : NodeState := { n with online := false }

/-- An image less the `online` flags of its nodes. -/
def Image.offline (i : Image) : Image := { i with nodes := i.nodes.map (·.offline) }

theorem fits_congr {s t : Store} (h : s.image.offline = t.image.offline) : s.fits = t.fits := by
  obtain ⟨_, hid, _, hkeys, hnodes⟩ := Image.mk.inj h
  have hid' : s.nextNodeId = t.nextNodeId := hid
  have hkeys' : s.keys = t.keys := hkeys
  have hids : s.nodes.map (·.id) = t.nodes.map (·.id) := by
    have hmap := congrArg (List.map NodeState.id) hnodes
    rw [List.map_map, List.map_map] at hmap
    exact hmap
  have hall : s.nodes.all (fun n => idFits n.id) = t.nodes.all fun n => idFits n.id := by
    have hmap := congrArg (fun ids => ids.all idFits) hids
    simp only [List.all_map] at hmap
    exact hmap
  rw [Store.fits, Store.fits, hid', hkeys', hall]

theorem offline_setOnline (machineKey : Bytes) (online : Bool) (s : Store) :
    (setOnline machineKey online s).image.offline = s.image.offline := by
  have hnodes : (updateNode machineKey (fun n => { n with online }) s.nodes).map (·.offline) =
      s.nodes.map (·.offline) :=
    modifyFirst_map (f := fun n : NodeState => { n with online }) (fun _ => rfl) s.nodes
  exact congrArg (fun nodes => ({ s.image with nodes } : Image)) hnodes

/-! ## 3. Memory and file -/

/-- **The invariant of memory and file.** -/
structure Durable (path : Bytes) (file : Option FileText) (s : Store) : Prop where
  path : s.path = path
  noise : s.noisePrivate ≠ zero32
  fits : s.fits = true
  file : ∃ t, file = some (.json (snapshotLocked t)) ∧ t.image.offline = s.image.offline

section Calls

variable {I : Inet} {path : Bytes} {file : Option FileText} {s s' : Store} {w w' : World}

/-- The file has the keys of memory. -/
theorem Durable.keys (h : Durable path file s) (hpath : path ≠ []) :
    ∃ ks, readImage { store := s, file } = some ks ∧ installKeys ks s = (.ok (), s) := by
  obtain ⟨t, rfl, himage⟩ := h.file
  have hks : (snapshotLocked t).find (ascii "preauth_keys") = some (.arr (t.keys.map keyToJson)) := rfl
  refine ⟨.arr (t.keys.map keyToJson), ?_, ?_⟩
  · rw [readImage, if_neg (by rw [h.path]; exact hpath)]
    exact hks
  · have hkeys : t.keys = s.keys := congrArg Image.keys himage
    have hfits : ∀ k ∈ s.keys, cutKey k = k := by
      have hall := h.fits
      rw [Store.fits, Bool.and_eq_true, Bool.and_eq_true, List.all_eq_true] at hall
      exact fun k hk => (cutKey_eq_iff k).mpr (hall.1.2 k hk)
    simp only [installKeys, pushKeys_dump, ended, hkeys, (map_eq_self_iff s.keys).mpr hfits]

/-- A call that ends in a save. -/
theorem durable_commit {α : Type} {a b : α} (h : commit {} w s a = (.ok b, w')) (hpath : s.path = path)
    (hne : path ≠ []) (hnoise : s.noisePrivate ≠ zero32) (hfits : w'.store.fits = true) :
    Durable path w'.file w'.store := by
  obtain ⟨hstore, _, _, hok⟩ := commit_cases h
  have hfile := hok b rfl (by rw [hpath]; exact hne)
  refine ⟨by rw [hstore, hpath], by rw [hstore]; exact hnoise, hfits, s, hfile, ?_⟩
  rw [hstore]

/-- `create_preauth_key`. -/
theorem durable_create {now expiration : Int} {raw : Bytes32} {reusable ephemeral : Bool}
    {token : Bytes} {shared : Option Bool} {key : Bytes} (h : Durable path file s) (hne : path ≠ [])
    (hc : createPreauthKey {} now raw reusable ephemeral expiration token shared { store := s, file } =
      (.ok key, w')) (hfits : w'.store.fits = true) : Durable path w'.file w'.store :=
  durable_commit hc h.path hne h.noise hfits

/-- `consume_preauth`, granted or refused: the reload before it changes nothing. -/
theorem durable_consume {now : Int} {key : Bytes} {r : Option PreauthClaim} (h : Durable path file s)
    (hne : path ≠ []) (hc : consumePreauth {} now key { store := s, file } = (.ok r, w'))
    (hfits : w'.store.fits = true) : Durable path w'.file w'.store := by
  obtain ⟨ks, himage, hinstall⟩ := h.keys hne
  simp only [consumePreauth, himage, hinstall] at hc
  rcases checkAndMark_cases hc with ⟨_, rfl⟩ | ⟨_, _, _, _, hcommit⟩
  · exact h
  · exact durable_commit hcommit h.path hne h.noise hfits

/-- `register_node`. -/
theorem durable_register {machineKey nodeKey hostname token : Bytes} {ephemeral shared : Bool}
    {n : NodeState} (h : Durable path file s) (hne : path ≠ [])
    (hc : registerNode I {} machineKey nodeKey hostname ephemeral token shared { store := s, file } =
      (.ok n, w')) (hfits : w'.store.fits = true) : Durable path w'.file w'.store := by
  rcases registerNode_cases hc with ⟨_, _, hcommit⟩ | ⟨_, ⟨e, he, _⟩, _⟩ | ⟨ips, _, _, hcommit⟩
  · exact durable_commit hcommit h.path hne h.noise hfits
  · cases he
  · exact durable_commit hcommit h.path hne h.noise hfits

/-- `update_map_info`. -/
theorem durable_mapInfo {machineKey nodeKey discoKey hostname : Bytes} {endpoints : List Bytes}
    (h : Durable path file s) (hne : path ≠ [])
    (hc : updateMapInfo {} machineKey nodeKey discoKey hostname endpoints { store := s, file } =
      (.ok (), w')) (hfits : w'.store.fits = true) : Durable path w'.file w'.store := by
  rcases updateMapInfo_cases hc with ⟨_, _, rfl⟩ | ⟨_, _, hcommit⟩
  · exact h
  · exact durable_commit hcommit h.path hne h.noise hfits

/-- `set_online`: the file stays. -/
theorem durable_online {machineKey : Bytes} {online : Bool} (h : Durable path file s) :
    Durable path file (setOnline machineKey online s) := by
  obtain ⟨t, hfile, himage⟩ := h.file
  have hoff := offline_setOnline machineKey online s
  refine ⟨h.path, h.noise, ?_, t, hfile, by rw [himage, hoff]⟩
  rw [fits_congr hoff]
  exact h.fits

/-! ## 4. The constructor -/

/-- Opening the file of a store gives the store back, less the flags; the file stays. -/
theorem Durable.opens (h : Durable path file s) (hne : path ≠ []) {ipv4Cidr ipv6Cidr : Bytes}
    {alloc : IpAllocator} (halloc : ipAllocator I ipv4Cidr ipv6Cidr = .ok alloc) (io : SaveIo)
    (noise : Bytes32) :
    ∃ s', openStore I io noise path ipv4Cidr ipv6Cidr file = (.ok s', file) ∧ s'.path = path ∧
      s'.image.offline = s.image.offline := by
  obtain ⟨t, rfl, himage⟩ := h.file
  have hfits : t.fits = true := (fits_congr himage).trans h.fits
  have hnoise : t.noisePrivate = s.noisePrivate := congrArg Image.noisePrivate himage
  have hload : loadStore I path ipv4Cidr ipv6Cidr (some (.json (snapshotLocked t))) =
      .ok (reloaded t { path, alloc }) := by
    simp only [loadStore, halloc, if_neg hne, applySnapshot_snapshot]
  have hback := (reloaded_image_iff t { path, alloc }).mpr hfits
  refine ⟨reloaded t { path, alloc }, ?_, rfl, by rw [hback, himage]⟩
  have hinit : initNoise io noise
      { store := reloaded t { path, alloc }, file := some (.json (snapshotLocked t)) } =
      (.ok (), { store := reloaded t { path, alloc }, file := some (.json (snapshotLocked t)) }) := by
    refine if_neg ?_
    show t.noisePrivate ≠ zero32
    rw [hnoise]
    exact h.noise
  rw [openStore_eq, hload]
  simp only [hinit]

/-- The constructor on a missing or an empty file draws a noise key and saves. -/
theorem durable_first {raw : Bytes32} {ipv4Cidr ipv6Cidr : Bytes} {file' : Option FileText}
    (hfile : file = none ∨ file = some .empty) (hne : path ≠ [])
    (hc : openStore I {} (generateX25519Private raw) path ipv4Cidr ipv6Cidr file = (.ok s, file'))
    (hfits : s.fits = true) : Durable path file' s := by
  rw [openStore_eq] at hc
  cases halloc : ipAllocator I ipv4Cidr ipv6Cidr with
  | error e =>
    simp only [loadStore, halloc] at hc
    cases hc
  | ok alloc =>
    have hload : loadStore I path ipv4Cidr ipv6Cidr file = .ok { path, alloc } := by
      rcases hfile with rfl | rfl
      · simp only [loadStore, halloc, if_neg hne]
      · simp only [loadStore, halloc, if_neg hne]
    have hinit : initNoise {} (generateX25519Private raw) { store := { path, alloc }, file } =
        commit {} { store := { path, alloc }, file }
          { path, alloc, noisePrivate := generateX25519Private raw } () := if_pos rfl
    rw [hload] at hc
    simp only [hinit] at hc
    rcases hcommit : commit {} { store := { path, alloc }, file }
        { path, alloc, noisePrivate := generateX25519Private raw } () with ⟨_ | _, w⟩
    · rw [hcommit] at hc
      cases hc
    · rw [hcommit] at hc
      cases hc
      exact durable_commit hcommit rfl hne (generateX25519Private_ne_zero raw) hfits

end Calls

/-! ## 5. Over whole runs -/

/-- What holds between calls: nothing has been opened, or memory and file agree. -/
def Settled (h : Home) : Prop :=
  match h.store with
  | none => h.file = none ∨ h.file = some .empty
  | some s => Durable h.path h.file s

section Runs

variable {I : Inet} {h h' : Home} {c : StoreCall}

theorem completed_some {α : Type} {r : Except Exn α × World} (hs : h.completed r = some h') :
    ∃ a w, r = (.ok a, w) ∧ h' = { h with file := w.file, store := some w.store } := by
  rcases r with ⟨_ | a, w⟩
  · cases hs
  · exact ⟨a, w, rfl, (Option.some.inj hs).symm⟩

theorem world_some {w : World} (hw : h.world = some w) :
    ∃ s, h.store = some s ∧ w = { store := s, file := h.file } := by
  obtain ⟨s, hs, rfl⟩ := Option.map_eq_some_iff.mp hw
  exact ⟨s, hs, rfl⟩

/-- A call on the open store: what it returns keeps the invariant. -/
theorem settled_call {α : Type} {op : World → Except Exn α × World} (hset : Settled h)
    (hsmall : h'.store.all Store.fits = true)
    (hop : ∀ s a w', h.store = some s → Durable h.path h.file s →
      op { store := s, file := h.file } = (.ok a, w') → w'.store.fits = true → Durable h.path w'.file w'.store)
    (hs : (h.world.bind fun w => h.completed (op w)) = some h') : Settled h' ∧ h'.path = h.path := by
  obtain ⟨w, hw, hdone⟩ := Option.bind_eq_some_iff.mp hs
  obtain ⟨s, hstore, rfl⟩ := world_some hw
  obtain ⟨a, w', hr, rfl⟩ := completed_some hdone
  have hdur : Durable h.path h.file s := by simpa only [Settled, hstore] using hset
  exact ⟨hop s a w' hstore hdur hr hsmall, rfl⟩

/-- **One completed call** keeps memory and file together. -/
theorem settled_step (hset : Settled h) (hne : h.path ≠ []) (hs : smallStep I h c = some h') :
    Settled h' ∧ h'.path = h.path := by
  obtain ⟨hs, hsmall⟩ := Option.filter_eq_some_iff.mp hs
  cases c with
  | construct raw ipv4Cidr ipv6Cidr =>
    simp only [homeStep] at hs
    split at hs
    · rename_i s file hopen
      obtain rfl := Option.some.inj hs
      refine ⟨?_, rfl⟩
      have hfits : s.fits = true := hsmall
      show Durable h.path file s
      cases hstore : h.store with
      | none => exact durable_first (by simpa only [Settled, hstore] using hset) hne hopen hfits
      | some old =>
        have hdur : Durable h.path h.file old := by simpa only [Settled, hstore] using hset
        -- the constructor has not thrown, so its ranges are accepted
        cases halloc : ipAllocator I ipv4Cidr ipv6Cidr with
        | error e =>
          simp only [openStore, halloc] at hopen
          cases hopen
        | ok alloc =>
          obtain ⟨s', hopen', hpath, himage⟩ := hdur.opens hne halloc {} (generateX25519Private raw)
          obtain ⟨hs', rfl⟩ := Prod.mk.inj (hopen.symm.trans hopen')
          obtain rfl := Except.ok.inj hs'
          obtain ⟨t, hfile, ht⟩ := hdur.file
          have hnoise : s.noisePrivate = old.noisePrivate := congrArg Image.noisePrivate himage
          exact ⟨hpath, by rw [hnoise]; exact hdur.noise, hfits, t, hfile, by rw [ht, himage]⟩
    · cases hs
  | create now raw reusable ephemeral expiration token shared =>
    exact settled_call hset hsmall (fun _ _ _ _ hdur hr => durable_create hdur hne hr) hs
  | consume now key =>
    exact settled_call hset hsmall (fun _ _ _ _ hdur hr => durable_consume hdur hne hr) hs
  | register machineKey nodeKey hostname ephemeral token shared =>
    exact settled_call hset hsmall (fun _ _ _ _ hdur hr => durable_register hdur hne hr) hs
  | mapInfo machineKey nodeKey discoKey hostname endpoints =>
    exact settled_call hset hsmall (fun _ _ _ _ hdur hr => durable_mapInfo hdur hne hr) hs
  | online machineKey online =>
    obtain ⟨w, hw, rfl⟩ := Option.map_eq_some_iff.mp hs
    obtain ⟨s, hstore, rfl⟩ := world_some hw
    have hdur : Durable h.path h.file s := by simpa only [Settled, hstore] using hset
    exact ⟨durable_online hdur, rfl⟩

end Runs

/-- **Restart equivalence**: after every run of completed calls from a missing or empty file,
    opening the file with any ranges the constructor accepts gives the noise key, the counters, the
    keys and the nodes of the store, up to the `online` flags, and a reload changes nothing. -/
theorem restart_equivalent (I : Inet) (path : Bytes) (hpath : path ≠ []) (file : Option FileText)
    (hfile : file = none ∨ file = some .empty) (cs : List StoreCall) (h : Home)
    (hrun : Run (Of (smallStep I)) { path, file } cs h) (s : Store) (hs : h.store = some s) :
    (∀ io noise ipv4Cidr ipv6Cidr alloc, ipAllocator I ipv4Cidr ipv6Cidr = .ok alloc →
      ∃ s', openStore I io noise path ipv4Cidr ipv6Cidr h.file = (.ok s', h.file) ∧
        s'.image.offline = s.image.offline) ∧
    reloadKeysFromDisk { store := s, file := h.file } = (.ok (), { store := s, file := h.file }) := by
  have hinv : Settled h ∧ h.path = path := by
    refine hrun.inv_state (I := fun h => Settled h ∧ h.path = path) ?_ ?_
    · exact ⟨hfile, rfl⟩
    · intro h c h' hi hstep
      obtain ⟨hset, hp⟩ := settled_step hi.1 (by rw [hi.2]; exact hpath) hstep
      exact ⟨hset, hp.trans hi.2⟩
  have hdur : Durable path h.file s := by
    rw [← hinv.2]
    simpa only [Settled, hs] using hinv.1
  refine ⟨?_, ?_⟩
  · intro io noise ipv4Cidr ipv6Cidr alloc halloc
    obtain ⟨s', hopen, _, himage⟩ := hdur.opens hpath halloc io noise
    exact ⟨s', hopen, himage⟩
  · obtain ⟨ks, himage, hinstall⟩ := hdur.keys hpath
    simp only [reloadKeysFromDisk, himage, hinstall]

/-- A store is opened, used, taken offline and opened again. -/
def homeRun : List StoreCall :=
  [.construct zero32 (ascii "100.64.0.0/16") (ascii "fd7a:115c:a1e0::/48"),
    .create 100 zero32 false false 3600 (ascii "blue") none,
    .consume 200 (randomToken zero32), .consume 201 (randomToken zero32),
    .register (ascii "m") (ascii "n") [] false (ascii "blue") false,
    .mapInfo (ascii "m") [] (ascii "d") [] [ascii "10.0.0.1:41641"], .online (ascii "m") false,
    .construct zero32 (ascii "100.64.0.0/16") (ascii "fd7a:115c:a1e0::/48"), .online (ascii "m") false]

theorem restart_equivalent_sample :
    ∃ h s, Run (Of (smallStep Inet.sample)) { path := ascii "state.json", file := none } homeRun h ∧
      h.store = some s ∧ s.keys.map (·.used) = [true] ∧ s.nodes.map (·.hostname) = [ascii "node-1"] ∧
      (∃ s', openStore Inet.sample {} zero32 (ascii "state.json") (ascii "100.64.0.0/16")
          (ascii "fd7a:115c:a1e0::/48") h.file = (.ok s', h.file) ∧
        s'.image.offline = s.image.offline) ∧
      reloadKeysFromDisk { store := s, file := h.file } = (.ok (), { store := s, file := h.file }) := by
  have hexec : (exec (smallStep Inet.sample) { path := ascii "state.json", file := none } homeRun).bind
      (fun h => h.store.map fun s => (s.keys.map (·.used), s.nodes.map (·.hostname))) =
      some ([true], [ascii "node-1"]) := by decide +kernel
  obtain ⟨h, hh, hval⟩ := Option.bind_eq_some_iff.mp hexec
  obtain ⟨s, hs, hval⟩ := Option.map_eq_some_iff.mp hval
  obtain ⟨hkeys, hnodes⟩ := Prod.mk.inj hval
  have hrun := run_of_exec hh
  have halloc : ∃ alloc, ipAllocator Inet.sample (ascii "100.64.0.0/16") (ascii "fd7a:115c:a1e0::/48") =
      .ok alloc := ⟨_, rfl⟩
  obtain ⟨alloc, halloc⟩ := halloc
  obtain ⟨hopen, hreload⟩ := restart_equivalent Inet.sample (ascii "state.json") (by decide) none (.inl rfl)
    homeRun h hrun s hs
  exact ⟨h, s, hrun, hs, hkeys, hnodes, hopen {} zero32 _ _ alloc halloc, hreload⟩

end Wirebone
