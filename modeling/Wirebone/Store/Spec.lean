/-
  File:      Wirebone/Store/Spec.lean
  Subject:   What each section of the store can do: one lemma a section.

  Every later proof takes the sections apart through these lemmas and unfolds none of them.

  * `commit_cases` -- a section that ends in `save_locked`; `saves` says when it does not throw;
  * `claimOf`, `checkAndMark_eq`, `consumePreauth_eq` -- what `consume_preauth` grants;
  * `createPreauthKey_cases`, `checkAndMark_cases`, `registerNode_cases`, `updateMapInfo_cases`;
  * `applySnapshot_snapshot` -- loading a dump gives the store back, with the numbers cut to 32
    bits (`cutKey`, `cutNode`, `reloaded`).
-/
import Wirebone.Store.Basic

namespace Wirebone

open ByteString FirstMatch

/-! ## 1. Saving -/

section Saving

variable {α : Type} {io : SaveIo} {w w' : World} {s : Store} {a : α} {r : Except Exn α}

/-- Saving leaves the store alone; the file stays, or becomes what this save has stored. -/
theorem saveLocked_cases {r : Except Exn Unit} (h : saveLocked io w = (r, w')) :
    w'.store = w.store ∧
      (w'.file = w.file ∨
        (w.store.path ≠ [] ∧ w'.file = some (io.text (snapshotLocked w.store)))) ∧
      (r = .ok () → w.store.path ≠ [] → w'.file = some (io.text (snapshotLocked w.store))) := by
  unfold saveLocked replaceFile at h
  by_cases hp : w.store.path = []
  · simp only [if_pos hp] at h
    refine ⟨?_, .inl ?_, fun _ hne => absurd hp hne⟩ <;>
    · split at h
      · split at h
        · cases h; rfl
        · split at h <;> (cases h; rfl)
      · cases h; rfl
  · simp only [if_neg hp] at h
    by_cases ho : (!io.opens) = true
    · simp only [if_pos ho] at h
      cases h
      exact ⟨rfl, .inl rfl, fun hr => nomatch hr⟩
    simp only [if_neg ho] at h
    by_cases hd : (!(snapshotLocked w.store).dumps) = true
    · simp only [if_pos hd] at h
      cases h
      exact ⟨rfl, .inl rfl, fun hr => nomatch hr⟩
    simp only [if_neg hd] at h
    by_cases hr : (!io.renames) = true
    · simp only [if_pos hr] at h
      cases h
      exact ⟨rfl, .inl rfl, fun hr => nomatch hr⟩
    simp only [if_neg hr] at h
    have hfile : w'.store = w.store ∧ w'.file = some (io.text (snapshotLocked w.store)) := by
      split at h
      · split at h <;> (cases h; exact ⟨rfl, rfl⟩)
      · cases h
        exact ⟨rfl, rfl⟩
    exact ⟨hfile.1, .inr ⟨hp, hfile.2⟩, fun _ _ => hfile.2⟩

theorem commit_cases (h : commit io w s a = (r, w')) :
    w'.store = s ∧ (r = .ok a ∨ ∃ e, r = .error e) ∧
      (w'.file = w.file ∨ (s.path ≠ [] ∧ w'.file = some (io.text (snapshotLocked s)))) ∧
      (∀ b, r = .ok b → s.path ≠ [] → w'.file = some (io.text (snapshotLocked s))) := by
  unfold commit at h
  rcases hs : saveLocked io { w with store := s } with ⟨_ | _, w₁⟩
  · rw [hs] at h
    cases h
    obtain ⟨h1, h2, _⟩ := saveLocked_cases hs
    exact ⟨h1, .inr ⟨_, rfl⟩, h2, fun b hb => nomatch hb⟩
  · rw [hs] at h
    cases h
    obtain ⟨h1, h2, h3⟩ := saveLocked_cases hs
    exact ⟨h1, .inl rfl, h2, fun _ _ => h3 rfl⟩

/-- No call inside `save_locked` of `s` throws. -/
def saves (io : SaveIo) (s : Store) : Bool :=
  (decide (s.path = []) || (io.opens && (snapshotLocked s).dumps && io.renames)) &&
    (!s.hooked || ((snapshotLocked s).dumps && !io.hookThrows))

/-- **Saving returns normally exactly if no call inside it throws.** -/
theorem saveLocked_returns (io : SaveIo) (w : World) :
    (saveLocked io w).1 = .ok () ↔ saves io w.store = true := by
  unfold saveLocked replaceFile saves
  by_cases hp : w.store.path = []
  · cases hh : w.store.hooked <;> cases hd : (snapshotLocked w.store).dumps <;>
      cases io.hookThrows <;> simp [hp, hh, hd]
  · cases io.opens with
    | false => simp [hp]
    | true =>
      cases hd : (snapshotLocked w.store).dumps with
      | false => simp [hp, hd]
      | true =>
        cases io.renames with
        | false => simp [hp, hd]
        | true =>
          cases hh : w.store.hooked <;> cases io.hookThrows <;> simp [hp, hd, hh]

theorem commit_saves (h : commit io w s a = (r, w')) (hs : saves io s = true) : r = .ok a := by
  have hok : (saveLocked io { w with store := s }).1 = .ok () := (saveLocked_returns io _).mpr hs
  unfold commit at h
  rcases hsl : saveLocked io { w with store := s } with ⟨_ | _, w₁⟩
  · rw [hsl] at hok
    cases hok
  · rw [hsl] at h
    cases h
    rfl

theorem commit_throws (h : commit io w s a = (r, w')) (hs : saves io s = false) : ∃ e, r = .error e := by
  unfold commit at h
  rcases hsl : saveLocked io { w with store := s } with ⟨e | u, w₁⟩
  · rw [hsl] at h
    cases h
    exact ⟨e, rfl⟩
  · have hok := (saveLocked_returns io { w with store := s }).mp (by rw [hsl])
    rw [hs] at hok
    cases hok

theorem commit_fails {e : Exn} (h : commit io w s a = (.error e, w')) : (!saves io s) = true := by
  cases hs : saves io s with
  | false => rfl
  | true => cases commit_saves h hs

end Saving

/-! ## 2. The sections -/

section Sections

variable {I : Inet} {io : SaveIo} {w w' : World}

theorem installKeys_store {ks : Json} {s s' : Store} {r : Except Exn Unit}
    (h : installKeys ks s = (r, s')) : s' = { s with keys := (pushUntil keyFromJson ks.items).1 } := by
  cases h
  rfl

/-- The key `create_preauth_key` makes. -/
def createdKey (now : Int) (raw : Bytes32) (reusable ephemeral : Bool) (expiration : Int)
    (token : Bytes) (shared : Option Bool) : PreauthKey :=
  { key := randomToken raw, reusable, ephemeral, token, shared := resolveShared token shared,
    expiresUnix := if 0 < expiration then now + expiration else 0 }

theorem createPreauthKey_cases {now expiration : Int} {raw : Bytes32} {reusable ephemeral : Bool}
    {token : Bytes} {shared : Option Bool} {r : Except Exn Bytes}
    (h : createPreauthKey io now raw reusable ephemeral expiration token shared w = (r, w')) :
    w'.store = { w.store with
        keys := w.store.keys ++ [createdKey now raw reusable ephemeral expiration token shared] } ∧
      (r = .ok (randomToken raw) ∨ ∃ e, r = .error e) :=
  ⟨(commit_cases h).1, (commit_cases h).2.1⟩

/-- The claim `consume_preauth` grants for a key, with the keys it looks at. -/
def claimOf (nowUnix : Int) (auth : Bytes) (keys : List PreauthKey) : Option PreauthClaim :=
  match keys.find? (·.key = auth) with
  | none => none
  | some k =>
    if k.expiresUnix ≠ 0 ∧ nowUnix > k.expiresUnix then none
    else if !k.reusable && k.used then none
    else some k.claim

/-- The keys after `reload_keys_from_disk`. -/
def keysSeen (w : World) : List PreauthKey :=
  match readImage w with
  | none => w.store.keys
  | some ks => (pushUntil keyFromJson ks.items).1

/-- **The locked half of `consume_preauth`** grants the claim and marks the entry, or refuses. -/
theorem checkAndMark_eq (io : SaveIo) (now : Int) (key : Bytes) (w : World) :
    checkAndMark io now key w =
      match claimOf now key w.store.keys with
      | none => (.ok none, w)
      | some claim => commit io w { w.store with keys := markUsed key w.store.keys } (some claim) := by
  unfold checkAndMark claimOf
  cases w.store.keys.find? (·.key = key) with
  | none => rfl
  | some k =>
    by_cases he : k.expiresUnix ≠ 0 ∧ now > k.expiresUnix
    · simp only [if_pos he]
    · by_cases hu : (!k.reusable && k.used) = true
      · simp only [if_neg he, if_pos hu]
      · simp only [if_neg he, if_neg hu]

/-- A claim is granted for the first entry of the key, which has not expired and may be spent. -/
theorem claimOf_some {now : Int} {key : Bytes} {keys : List PreauthKey} {claim : PreauthClaim} :
    claimOf now key keys = some claim ↔
      ∃ k, keys.find? (·.key = key) = some k ∧ ¬ (k.expiresUnix ≠ 0 ∧ now > k.expiresUnix) ∧
        (k.reusable = true ∨ k.used = false) ∧ k.claim = claim := by
  unfold claimOf
  cases keys.find? (·.key = key) with
  | none => simp
  | some k =>
    by_cases he : k.expiresUnix ≠ 0 ∧ now > k.expiresUnix
    · simp only [if_pos he]
      refine ⟨fun h => (nomatch h), ?_⟩
      rintro ⟨k', hk, hne, _⟩
      cases hk
      exact absurd he hne
    · simp only [if_neg he]
      constructor
      · intro h
        split at h
        · cases h
        · rename_i hu
          refine ⟨k, rfl, he, ?_, Option.some.inj h⟩
          cases hr : k.reusable with
          | false => exact .inr (by simpa [hr] using hu)
          | true => exact .inl rfl
      · rintro ⟨k', hk, _, hused, rfl⟩
        cases hk
        have hu : ¬ (!k.reusable && k.used) = true := by
          rcases hused with hr | hu
          · simp [hr]
          · simp [hu]
        rw [if_neg hu]

/-- `consume_preauth` refuses, or marks the first entry of the key, which may be spent. -/
theorem checkAndMark_cases {now : Int} {key : Bytes} {r : Except Exn (Option PreauthClaim)}
    (h : checkAndMark io now key w = (r, w')) :
    (r = .ok none ∧ w' = w) ∨
    ∃ k, w.store.keys.find? (·.key = key) = some k ∧ ¬ (k.expiresUnix ≠ 0 ∧ now > k.expiresUnix) ∧
      (k.reusable = true ∨ k.used = false) ∧
      commit io w { w.store with keys := markUsed key w.store.keys } (some k.claim) = (r, w') := by
  rw [checkAndMark_eq] at h
  cases hc : claimOf now key w.store.keys with
  | none =>
    rw [hc] at h
    cases h
    exact .inl ⟨rfl, rfl⟩
  | some claim =>
    rw [hc] at h
    obtain ⟨k, hk, hexp, hused, rfl⟩ := claimOf_some.mp hc
    exact .inr ⟨k, hk, hexp, hused, h⟩

theorem checkAndMark_claim {now : Int} {key : Bytes} {r : Option PreauthClaim}
    (h : checkAndMark io now key w = (.ok r, w')) :
    r = claimOf now key w.store.keys ∧ ∃ keys, w'.store = { w.store with keys := keys } := by
  rw [checkAndMark_eq] at h
  cases hc : claimOf now key w.store.keys with
  | none =>
    rw [hc] at h
    cases h
    exact ⟨rfl, w.store.keys, rfl⟩
  | some claim =>
    rw [hc] at h
    refine ⟨?_, _, (commit_cases h).1⟩
    rcases (commit_cases h).2.1 with hr | ⟨e, hr⟩
    · exact Except.ok.inj hr
    · cases hr

theorem checkAndMark_fails {now : Int} {key : Bytes} {e : Exn}
    (h : checkAndMark io now key w = (.error e, w')) :
    ((claimOf now key w.store.keys).isSome &&
      !saves io { w.store with keys := markUsed key w.store.keys }) = true := by
  rw [checkAndMark_eq] at h
  cases hc : claimOf now key w.store.keys with
  | none =>
    rw [hc] at h
    cases h
  | some claim =>
    rw [hc] at h
    exact commit_fails h

/-- **`consume_preauth`** looks at the keys it has reloaded, if the reload does not throw. -/
theorem consumePreauth_eq (io : SaveIo) (now : Int) (key : Bytes) (w : World) :
    consumePreauth io now key w =
      match reloadKeysFromDisk w with
      | (.error e, w) => (.error e, w)
      | (.ok _, w) => checkAndMark io now key w := by
  unfold consumePreauth reloadKeysFromDisk
  cases readImage w with
  | none => rfl
  | some ks =>
    rcases hi : installKeys ks w.store with ⟨e | u, s⟩
    · simp only [hi]
    · simp only [hi]

/-- `register_node` updates the first node of the machine, fails for want of an address, or
    appends a node. -/
theorem registerNode_cases {machineKey nodeKey hostname token : Bytes} {ephemeral shared : Bool}
    {r : Except Exn NodeState}
    (h : registerNode I io machineKey nodeKey hostname ephemeral token shared w = (r, w')) :
    (∃ n, findByMachine w.store machineKey = some n ∧
      commit io w
        { w.store with
          nodes := updateNode machineKey (reregistered nodeKey hostname ephemeral) w.store.nodes }
        (reregistered nodeKey hostname ephemeral n) = (r, w')) ∨
    (findByMachine w.store machineKey = none ∧ (∃ e, r = .error e ∧
      addressFor I w.store.alloc w.store.nextIpIndex = .error e) ∧
      w' = { w with store := counted w.store }) ∨
    ∃ ips, findByMachine w.store machineKey = none ∧
      addressFor I w.store.alloc w.store.nextIpIndex = .ok ips ∧
      commit io w { counted w.store with nodes := w.store.nodes ++
        [newNode w.store.nextNodeId machineKey nodeKey hostname ephemeral token shared ips] }
        (newNode w.store.nextNodeId machineKey nodeKey hostname ephemeral token shared ips) =
          (r, w') := by
  unfold registerNode at h
  cases hf : findByMachine w.store machineKey with
  | some n =>
    simp only [hf] at h
    exact .inl ⟨n, rfl, h⟩
  | none =>
    simp only [hf] at h
    cases ha : addressFor I w.store.alloc w.store.nextIpIndex with
    | error e =>
      rw [ha] at h
      cases h
      exact .inr (.inl ⟨rfl, ⟨e, rfl, rfl⟩, rfl⟩)
    | ok ips =>
      rw [ha] at h
      exact .inr (.inr ⟨ips, rfl, rfl, h⟩)

theorem updateMapInfo_cases {machineKey nodeKey discoKey hostname : Bytes} {endpoints : List Bytes}
    {r : Except Exn Unit}
    (h : updateMapInfo io machineKey nodeKey discoKey hostname endpoints w = (r, w')) :
    (findByMachine w.store machineKey = none ∧ r = .ok () ∧ w' = w) ∨
    ∃ n, findByMachine w.store machineKey = some n ∧
      commit io w
        { w.store with
          nodes := updateNode machineKey (mapUpdated nodeKey discoKey hostname endpoints)
            w.store.nodes }
        () = (r, w') := by
  unfold updateMapInfo at h
  cases hf : findByMachine w.store machineKey with
  | none =>
    rw [hf] at h
    cases h
    exact .inl ⟨rfl, rfl, rfl⟩
  | some n =>
    rw [hf] at h
    exact .inr ⟨n, rfl, h⟩

end Sections

/-! ## 3. Loading a dump -/

/-- A key, a counter and a node read back: their numbers go through `get<int>()`. -/
def cutKey (k : PreauthKey) : PreauthKey := { k with expiresUnix := Json.toInt32 k.expiresUnix }

def cutId (id : UInt64) : UInt64 := UInt64.ofInt (Json.toInt32 id.toNat)

def cutIndex (index : UInt32) : UInt32 := UInt32.ofInt (Json.toInt32 index.toNat)

def cutNode (n : NodeState) : NodeState := { n with id := cutId n.id }

theorem keyFromJson_keyToJson (k : PreauthKey) : keyFromJson (keyToJson k) = .ok (cutKey k) := rfl

theorem getStrings_map (es : List Bytes) : (Json.arr (es.map .str)).getStrings = .ok es := by
  show (es.map Json.str).mapM Json.getString = .ok es
  induction es with
  | nil => rfl
  | cons e es ih =>
    rw [List.map_cons, List.mapM_cons, ih]
    rfl

theorem nodeFromJson_nodeToJson (n : NodeState) : nodeFromJson (nodeToJson n) = .ok (cutNode n) := by
  have h1 : (nodeToJson n).value Json.getInt "id" 0 = .ok (Json.toInt32 n.id.toNat) := rfl
  have h2 : (nodeToJson n).value Json.getString "stable_id" [] = .ok (n.stableId) := rfl
  have h3 : (nodeToJson n).value Json.getString "hostname" [] = .ok (n.hostname) := rfl
  have h4 : (nodeToJson n).value Json.getString "machine_key" [] = .ok (n.machineKey) := rfl
  have h5 : (nodeToJson n).value Json.getString "node_key" [] = .ok (n.nodeKey) := rfl
  have h6 : (nodeToJson n).value Json.getString "disco_key" [] = .ok (n.discoKey) := rfl
  have h7 : (nodeToJson n).value Json.getString "ipv4" [] = .ok (n.ipv4) := rfl
  have h8 : (nodeToJson n).value Json.getString "ipv6" [] = .ok (n.ipv6) := rfl
  have h9 : (nodeToJson n).value Json.getBool "ephemeral" false = .ok (n.ephemeral) := rfl
  have h10 : (nodeToJson n).value Json.getBool "online" false = .ok (n.online) := rfl
  have h11 : (nodeToJson n).value Json.getString "token" [] = .ok (n.token) := rfl
  have h12 : (nodeToJson n).value Json.getBool "shared" n.token.isEmpty = .ok (n.shared) := rfl
  have h13 : (nodeToJson n).find (ascii "endpoints") = some (.arr (n.endpoints.map .str)) := rfl
  simp only [nodeFromJson, h1, h2, h3, h4, h5, h6, h7, h8, h9, h10, h11, h12, h13, getStrings_map,
    bind, Except.bind]
  rfl

/-- The loops over a dumped key list and a dumped node list. -/
theorem pushKeys_dump (keys : List PreauthKey) :
    pushUntil keyFromJson (Json.arr (keys.map keyToJson)).items = (keys.map cutKey, none) :=
  pushUntil_map keyFromJson_keyToJson keys

theorem pushNodes_dump (nodes : List NodeState) :
    pushUntil nodeFromJson (Json.arr (nodes.map nodeToJson)).items = (nodes.map cutNode, none) :=
  pushUntil_map nodeFromJson_nodeToJson nodes

/-- The store that loading the dump of `t` into `s` gives. -/
def reloaded (t s : Store) : Store :=
  { s with
    noisePrivate := t.noisePrivate
    nextNodeId := cutId t.nextNodeId
    nextIpIndex := cutIndex t.nextIpIndex
    keys := t.keys.map cutKey
    nodes := t.nodes.map cutNode }

/-- **Loading a dump gives the store back**, its numbers cut to 32 bits. -/
theorem applySnapshot_snapshot (t s : Store) :
    applySnapshotLocked (snapshotLocked t) s = (.ok (), reloaded t s) := by
  have hpriv : loadedPrivate (snapshotLocked t) s.noisePrivate = .ok t.noisePrivate := by
    have hnp : (snapshotLocked t).find (ascii "noise_private") = some (.str (hexEncode t.noisePrivate)) :=
      rfl
    have hdec := hexDecode_hexEncode t.noisePrivate.val
    rw [t.noisePrivate.2] at hdec
    simp only [loadedPrivate, hnp, Json.getString, bind, Except.bind, hdec, bytes32_coe]
    rfl
  have hid : (snapshotLocked t).value Json.getInt "next_node_id" 1 =
      .ok (Json.toInt32 t.nextNodeId.toNat) := rfl
  have hip : (snapshotLocked t).value Json.getInt "next_ip_index" 1 =
      .ok (Json.toInt32 t.nextIpIndex.toNat) := rfl
  have hks : (snapshotLocked t).find (ascii "preauth_keys") = some (.arr (t.keys.map keyToJson)) :=
    rfl
  have hns : (snapshotLocked t).find (ascii "nodes") = some (.arr (t.nodes.map nodeToJson)) := rfl
  unfold applySnapshotLocked
  simp only [hpriv, hid, hip, hks, hns, Option.getD_some, installKeys, installNodes, pushKeys_dump,
    pushNodes_dump, ended]
  rfl

end Wirebone
