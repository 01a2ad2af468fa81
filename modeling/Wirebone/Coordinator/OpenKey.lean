/-
  File:      Wirebone/Coordinator/OpenKey.lean
  Subject:   A KEY THAT IS OPEN TO EVERYBODY STAYS SO, whatever happens to the store and to the file.

  `consume_preauth` replaces `keys_` by what it has read from the file, maybe long before, and every change of
  the store writes the file anew, in part if the disk is full. A reusable key that does not expire survives
  all of it, once it is in memory, in the file and in every image that is under way.

  * `MeshKey` -- the invariant; `mesh_section`, `meshKey_step` -- every section and every step keeps it;
  * `meshKey_created` -- `create_preauth_key` establishes it;
  * `MeshWorld.claimOf` -- then `consume_preauth` grants the claim of the key, at any time.
-/
import Wirebone.Coordinator.Admission
import Wirebone.Store.OneShot

namespace Wirebone

open ByteString FirstMatch Lts

/-! ## 1. A key for everybody -/

/-- An entry that grants `claim` again and again. -/
structure MeshEntry (claim : PreauthClaim) (k : PreauthKey) : Prop where
  reusable : k.reusable = true
  expires : k.expiresUnix = 0
  grants : k.claim = claim

/-- A key list that loads, with such an entry for `K`. -/
structure MeshList (K : Bytes) (claim : PreauthClaim) (ks : Json) : Prop where
  loads : (pushUntil keyFromJson ks.items).2 = none
  lists : ∃ k, listed K ks = some k ∧ MeshEntry claim k

/-- Memory lists the key, and so does the file, if a key list can be read from it. -/
structure MeshWorld (K : Bytes) (claim : PreauthClaim) (w : World) : Prop where
  memory : ∃ k, w.store.keys.find? (·.key = K) = some k ∧ MeshEntry claim k
  file : ∀ ks, readImage w = some ks → MeshList K claim ks

/-- What a connection is about to install lists the key. -/
def MeshImage (K : Bytes) (claim : PreauthClaim) (c : Conn) : Prop :=
  ∀ r ks, c.phase = .regInstall r (some ks) → MeshList K claim ks

/-- **The key is open to everybody.** -/
structure MeshKey (K : Bytes) (claim : PreauthClaim) (s : Coord) : Prop where
  world : MeshWorld K claim s.shared.world
  images : ∀ c ∈ s.conns, MeshImage K claim c

/-! ## 2. What keeps it open -/

section Keys

variable {I : Inet} {domain : Bytes} {env : Env} {io : SaveIo} {K : Bytes} {claim : PreauthClaim}
  {w w' : World} {g g' : Shared} {c c' : Conn} {s s' : Coord} {e : Event}

theorem meshEntry_cut {k : PreauthKey} (h : MeshEntry claim k) : MeshEntry claim (cutKey k) := by
  refine ⟨h.reusable, ?_, h.grants⟩
  show Json.toInt32 k.expiresUnix = 0
  rw [h.expires]
  rfl

theorem meshList_saved {keys : List PreauthKey} {k : PreauthKey} (hk : keys.find? (·.key = K) = some k)
    (h : MeshEntry claim k) : MeshList K claim (.arr (keys.map keyToJson)) := by
  refine ⟨?_, cutKey k, ?_, meshEntry_cut h⟩
  · rw [pushKeys_dump]
  · rw [listed_saved, hk]
    rfl

/-- What is read right after a save. -/
theorem image_after_save {t : Store} (hf : w.file = some (io.text (snapshotLocked t))) :
    readImage w = none ∨ readImage w = some (.arr (t.keys.map keyToJson)) := by
  by_cases hp : w.store.path = []
  · exact .inl (if_pos hp)
  · rw [readImage, if_neg hp, hf, SaveIo.text]
    cases io.stored with
    | whole => exact .inr rfl
    | part => exact .inl rfl
    | nothing => exact .inl rfl

theorem readImage_congr (hp : w'.store.path = w.store.path) (hf : w'.file = w.file) :
    readImage w' = readImage w := by
  rw [readImage, readImage, hp, hf]

theorem MeshWorld.congr (h : MeshWorld K claim w) (hkeys : w'.store.keys = w.store.keys)
    (hpath : w'.store.path = w.store.path) (hfile : w'.file = w.file) : MeshWorld K claim w' := by
  refine ⟨?_, fun ks hks => h.file ks ?_⟩
  · rw [hkeys]
    exact h.memory
  · rw [← readImage_congr hpath hfile]
    exact hks

/-- A section that ends in a save, which may fail or store its text in part. -/
theorem MeshWorld.commit {α : Type} {a : α} {t : Store} {res : Except Exn α} (h : MeshWorld K claim w)
    (hc : commit io w t a = (res, w')) (hpath : t.path = w.store.path)
    (hmem : ∃ k, t.keys.find? (·.key = K) = some k ∧ MeshEntry claim k) : MeshWorld K claim w' := by
  obtain ⟨hstore, _, hf, _⟩ := commit_cases hc
  refine ⟨by rw [hstore]; exact hmem, fun ks hks => ?_⟩
  rcases hf with hf | ⟨_, hf⟩
  · refine h.file ks ?_
    rw [← hks]
    exact (readImage_congr (by rw [hstore, hpath]) hf).symm
  · rcases image_after_save hf with hn | hn
    · rw [hn] at hks
      cases hks
    · rw [hn] at hks
      cases hks
      obtain ⟨k, hk, hentry⟩ := hmem
      exact meshList_saved hk hentry

/-- An image is installed: it loads. -/
theorem MeshWorld.install {ks : Json} {t : Store} {res : Except Exn Unit} (h : MeshWorld K claim w)
    (hks : MeshList K claim ks) (hi : installKeys ks w.store = (res, t)) :
    res = .ok () ∧ MeshWorld K claim { w with store := t } := by
  have ht := installKeys_store hi
  refine ⟨?_, ?_, fun ks' hks' => h.file ks' ?_⟩
  · have hres : (installKeys ks w.store).1 = res := by rw [hi]
    rw [← hres]
    show ended (pushUntil keyFromJson ks.items).2 = _
    rw [hks.loads]
    rfl
  · rw [ht]
    exact hks.lists
  · rw [← hks']
    have hpath : t.path = w.store.path := by rw [ht]
    have hcongr : readImage { w with store := t } = readImage w := readImage_congr hpath rfl
    exact hcongr.symm

/-- A check marks the key used, or another one: both leave it open. -/
theorem MeshWorld.check {now : Int} {key : Bytes} {res : Except Exn (Option PreauthClaim)}
    (h : MeshWorld K claim w) (hc : checkAndMark io now key w = (res, w')) : MeshWorld K claim w' := by
  rcases checkAndMark_cases hc with ⟨_, rfl⟩ | ⟨_, _, _, _, hcommit⟩
  · exact h
  · refine h.commit hcommit rfl ?_
    obtain ⟨k, hk, hentry⟩ := h.memory
    by_cases hkey : key = K
    · subst hkey
      refine ⟨{ k with used := true }, ?_, hentry.reusable, hentry.expires, hentry.grants⟩
      rw [find?_markUsed_self, hk]
      rfl
    · refine ⟨k, ?_, hentry⟩
      rw [find?_markUsed_other hkey]
      exact hk

theorem MeshWorld.registerNode {m nodeKey hostname token : Bytes} {ephemeral shared : Bool}
    {res : Except Exn NodeState} (h : MeshWorld K claim w)
    (hr : registerNode I io m nodeKey hostname ephemeral token shared w = (res, w')) :
    MeshWorld K claim w' := by
  rcases registerNode_cases hr with ⟨n, _, hc⟩ | ⟨_, _, rfl⟩ | ⟨ips, _, _, hc⟩
  · exact h.commit hc rfl h.memory
  · exact h.congr rfl rfl rfl
  · exact h.commit hc rfl h.memory

theorem MeshWorld.updateMapInfo {m nodeKey discoKey hostname : Bytes} {endpoints : List Bytes}
    {res : Except Exn Unit} (h : MeshWorld K claim w)
    (hu : updateMapInfo io m nodeKey discoKey hostname endpoints w = (res, w')) : MeshWorld K claim w' := by
  rcases updateMapInfo_cases hu with ⟨_, _, rfl⟩ | ⟨n, _, hc⟩
  · exact h
  · exact h.commit hc rfl h.memory

/-- A new key comes behind the old ones. -/
theorem MeshWorld.create {now expiration : Int} {raw : Bytes32} {reusable ephemeral : Bool} {token : Bytes}
    {shared : Option Bool} {res : Except Exn Bytes} (h : MeshWorld K claim w)
    (hc : createPreauthKey io now raw reusable ephemeral expiration token shared w = (res, w')) :
    MeshWorld K claim w' := by
  obtain ⟨k, hk, hentry⟩ := h.memory
  refine MeshWorld.commit h hc rfl ⟨k, ?_, hentry⟩
  show (w.store.keys ++ _).find? _ = some k
  rw [List.find?_append, hk]
  rfl

theorem meshImage_of (h : ∀ r ks, c.phase ≠ .regInstall r (some ks)) : MeshImage K claim c :=
  fun r ks hph => absurd hph (h r ks)

/-- **A section leaves the key open.** -/
theorem mesh_section (h : advance I domain env g c = some (g', c')) (hw : MeshWorld K claim g.world)
    (hc : MeshImage K claim c) : MeshWorld K claim g'.world ∧ MeshImage K claim c' := by
  cases advance_branch h with
  | regRead r hph =>
    refine ⟨hw, fun r' ks hph' => hw.file ks ?_⟩
    injection hph'
  | regBroken r ks _ _ hph hi | regInstalled r ks _ _ hph hi =>
    exact ⟨(hw.install (hc r ks hph) hi).2, meshImage_of fun _ _ hne => by cases hne⟩
  | checkThrew _ _ _ _ hcheck | refused _ _ _ hcheck | granted _ _ _ _ hcheck =>
    exact ⟨hw.check hcheck, meshImage_of fun _ _ hne => by cases hne⟩
  | nodeThrew _ _ _ _ w _ hr | nodeMade _ _ _ _ w _ hr =>
    refine ⟨?_, meshImage_of fun _ _ hne => by cases hne⟩
    rw [registered_world]
    exact hw.registerNode hr
  | updateThrew _ _ _ _ _ hu | updated _ _ _ _ _ hu =>
    exact ⟨hw.updateMapInfo hu, meshImage_of fun _ _ hne => by cases hne⟩
  | onlineOnly | online | byeOnline =>
    exact ⟨hw.congr rfl rfl rfl, meshImage_of fun _ _ hne => by cases hne⟩
  | regKnown | regDenied | regAuth | regNoImage | regBump | mapBump | unauthorized | found
  | encodeThrew | oneShot | streamed | mapLive | tickEnd | tickFound | tickGone | keepaliveThrew
  | keepalive | tickSkip | tickThrew | tickLost | tickSent | byeBump =>
    exact ⟨hw, meshImage_of fun _ _ hne => by cases hne⟩

theorem onRegister_image (c : Conn) (body : Option Json) : MeshImage K claim (onRegister c body) := by
  rcases onRegister_cases c body with ⟨_, h⟩ | ⟨_, _, _, _, h⟩ | ⟨_, _, _, _, h⟩
  all_goals rw [h]; exact meshImage_of fun _ _ hne => by cases hne

theorem onMap_image (c : Conn) (sid : Nat) (body : Option Json) : MeshImage K claim (onMap c sid body) := by
  rcases onMap_cases c sid body with ⟨_, h⟩ | ⟨_, _, _, _, h⟩ | ⟨_, _, _, _, h | h⟩
  all_goals rw [h]; exact meshImage_of fun _ _ hne => by cases hne

/-- One connection has moved on. -/
theorem MeshKey.set {i : Nat} (h : MeshKey K claim s) (hw : MeshWorld K claim g.world)
    (hc : MeshImage K claim c') : MeshKey K claim { shared := g, conns := s.conns.set i c' } := by
  refine ⟨hw, fun d hd => ?_⟩
  rcases List.mem_or_eq_of_mem_set hd with hd | rfl
  · exact h.images d hd
  · exact hc

/-- **Every step leaves the key open.** -/
theorem meshKey_step (h : MeshKey K claim s) (hs : coordStep I domain s e = some s') :
    MeshKey K claim s' := by
  cases e with
  | accept machine =>
    cases hs
    refine ⟨h.world, fun c hc => ?_⟩
    rcases List.mem_append.mp hc with hc | hc
    · exact h.images c hc
    · rw [List.mem_singleton.mp hc]
      exact meshImage_of fun _ _ hne => by cases hne
  | register i body =>
    obtain ⟨c, _, rfl⟩ := Option.map_eq_some_iff.mp hs
    exact h.set h.world (onRegister_image c body)
  | map i sid body =>
    obtain ⟨c, _, rfl⟩ := Option.map_eq_some_iff.mp hs
    exact h.set h.world (onMap_image c sid body)
  | tick i =>
    obtain ⟨c, _, rfl⟩ := Option.map_eq_some_iff.mp hs
    exact h.set h.world (meshImage_of fun _ _ hne => by cases hne)
  | run i env =>
    obtain ⟨c, hget, hs⟩ := Option.bind_eq_some_iff.mp hs
    obtain ⟨⟨g, c'⟩, hadv, rfl⟩ := Option.map_eq_some_iff.mp hs
    obtain ⟨hw, hc⟩ := mesh_section hadv h.world (h.images c (List.mem_of_getElem? hget))
    exact h.set hw hc
  | closeStream i k =>
    obtain ⟨c, hc, rfl⟩ := Option.map_eq_some_iff.mp hs
    refine h.set h.world (meshImage_of fun r ks hne => ?_)
    rw [show (closeLive c k).phase = .idle from (idleConn_some hc).2] at hne
    cases hne
  | hangup i =>
    obtain ⟨c, _, rfl⟩ := Option.map_eq_some_iff.mp hs
    exact h.set h.world (meshImage_of fun _ _ hne => by cases hne)
  | createKey env raw reusable ephemeral expiration token shared =>
    cases hs
    exact ⟨h.world.create rfl, h.images⟩

/-- **A new key is open** as soon as `create_preauth_key` has returned it, if it is reusable and does not
    expire, and nobody is about to install an older image. -/
theorem meshKey_created {raw : Bytes32} {ephemeral : Bool} {token key : Bytes} {shared : Option Bool}
    (hs : coordStep I domain s (.createKey env raw true ephemeral 0 token shared) = some s')
    (hok : (createPreauthKey env.io env.nowUnix raw true ephemeral 0 token shared s.shared.world).1 = .ok key)
    (hnew : s.shared.world.store.keys.find? (·.key = randomToken raw) = none)
    (hquiet : ∀ c ∈ s.conns, ∀ r ks, c.phase ≠ .regInstall r (some ks)) :
    MeshKey (randomToken raw) { ephemeral, token, shared := resolveShared token shared } s' := by
  cases hs
  rcases hc : createPreauthKey env.io env.nowUnix raw true ephemeral 0 token shared s.shared.world with
    ⟨res, w⟩
  rw [hc] at hok
  obtain rfl : res = .ok key := hok
  have hkeys := (createPreauthKey_cases hc).1
  have hentry : MeshEntry { ephemeral, token, shared := resolveShared token shared }
      (createdKey env.nowUnix raw true ephemeral 0 token shared) := ⟨rfl, rfl, rfl⟩
  have hfind : (s.shared.world.store.keys ++ [createdKey env.nowUnix raw true ephemeral 0 token shared]).find?
      (·.key = randomToken raw) = some (createdKey env.nowUnix raw true ephemeral 0 token shared) := by
    rw [List.find?_append, hnew, Option.none_or]
    exact List.find?_cons_of_pos (decide_eq_true rfl)
  have hopen : MeshWorld (randomToken raw) { ephemeral, token, shared := resolveShared token shared } w := by
    refine ⟨⟨_, by rw [hkeys]; exact hfind, hentry⟩, fun ks hks => ?_⟩
    by_cases hpath : s.shared.world.store.path = []
    · have hnone : readImage w = none := if_pos (by rw [hkeys]; exact hpath)
      rw [hnone] at hks
      cases hks
    · rcases image_after_save ((commit_cases hc).2.2.2 key rfl hpath) with hn | hn
      · rw [hn] at hks
        cases hks
      · rw [hn] at hks
        cases hks
        exact meshList_saved hfind hentry
  exact ⟨hopen, fun c hmem => meshImage_of (hquiet c hmem)⟩

/-- What `consume_preauth` grants to those who present the key. -/
theorem MeshWorld.claimOf (h : MeshWorld K claim w) (now : Int) :
    claimOf now K w.store.keys = some claim := by
  obtain ⟨k, hk, hentry⟩ := h.memory
  exact claimOf_some.mpr ⟨k, hk, fun hexp => hexp.1 hentry.expires, .inl hentry.reusable, hentry.grants⟩

end Keys

end Wirebone
