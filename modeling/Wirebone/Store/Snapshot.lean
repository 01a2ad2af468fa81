/-
  File:      Wirebone/Store/Snapshot.lean
  Subject:   WHETHER A DUMP LOADED GIVES THE STORE BACK.

  The decoder reads every number through `value(key, 0)`, whose result type is that of the literal:
  an `int`. A 64-bit id or expiry outside 32 bits is dumped whole and read back cut.

  * `Store.image` -- what a snapshot records of a store;
  * `dumps_of_texts` -- a store whose strings are UTF-8 can be dumped;
  * `Store.fits` -- ids and expiries that an `int` can hold;
  * **`snapshot_roundTrips_iff`** -- the dump of a store loads back exactly where they fit;
  * **`snapshot_expiry_cut`** -- an expiry of 2^31 does not come back.
-/
import Wirebone.Store.OneShot
import Wirebone.Store.Registry

namespace Wirebone

open ByteString FirstMatch

/-! ## 1. What a snapshot records -/

/-- The members a snapshot is written from and read into. -/
structure Image where
  noisePrivate : Bytes32
  nextNodeId : UInt64
  nextIpIndex : UInt32
  keys : List PreauthKey
  nodes : List NodeState
  deriving DecidableEq

def Store.image (s : Store) : Image :=
  { noisePrivate := s.noisePrivate, nextNodeId := s.nextNodeId, nextIpIndex := s.nextIpIndex,
    keys := s.keys, nodes := s.nodes }

theorem snapshot_congr {s t : Store} (h : s.image = t.image) : snapshotLocked s = snapshotLocked t := by
  obtain ⟨h1, h2, h3, h4, h5⟩ := Image.mk.inj h
  unfold snapshotLocked
  rw [h1, h2, h3, h4, h5]

/-! ## 2. Stores that can be dumped -/

def PreauthKey.texts (k : PreauthKey) : List Bytes := [k.key, k.token]

def NodeState.texts (n : NodeState) : List Bytes :=
  [n.stableId, n.hostname, n.machineKey, n.nodeKey, n.discoKey, n.ipv4, n.ipv6, n.token] ++ n.endpoints

/-- The strings of a store. -/
def Store.texts (s : Store) : List Bytes :=
  s.keys.flatMap (·.texts) ++ s.nodes.flatMap (·.texts)

/-- Text below 0x80 is UTF-8. -/
theorem utf8_of_ascii {s : Bytes} (h : ∀ b ∈ s, b.toNat ≤ 0x7f) : utf8 s = true := by
  have hfold : s.foldlM utf8Step (0, 0, 0) = some (0, 0, 0) := by
    induction s with
    | nil => rfl
    | cons b s ih =>
      have hb : utf8Step (0, 0, 0) b = some (0, 0, 0) := by
        simp only [utf8Step, if_pos (h b List.mem_cons_self)]
      rw [List.foldlM_cons, hb]
      exact ih fun c hc => h c (List.mem_cons_of_mem _ hc)
  rw [utf8, hfold]
  rfl

theorem hexDigit_ascii (v : UInt8) : v < 16 → (hexDigit v).toNat ≤ 0x7f :=
  forall_byte (P := fun v => v < 16 → (hexDigit v).toNat ≤ 0x7f) (by decide +kernel) v

theorem hexEncode_ascii (bytes : Bytes) : ∀ c ∈ hexEncode bytes, c.toNat ≤ 0x7f := by
  intro c hc
  obtain ⟨b, _, hc⟩ := List.mem_flatMap.mp hc
  obtain ⟨hhi, hlo⟩ := nibbles_lt b
  rcases List.mem_cons.mp hc with rfl | hc
  · exact hexDigit_ascii _ hhi
  · rw [List.mem_singleton.mp hc]
    exact hexDigit_ascii _ hlo

theorem utf8_hexEncode (bytes : Bytes) : utf8 (hexEncode bytes) = true :=
  utf8_of_ascii (hexEncode_ascii bytes)

theorem dumpsAll_map {α : Type} {put : α → Json} {l : List α} (h : ∀ a ∈ l, (put a).dumps = true) :
    Json.dumpsAll (l.map put) = true := by
  induction l with
  | nil => rfl
  | cons a l ih =>
    rw [List.map_cons, Json.dumpsAll, h a List.mem_cons_self,
      ih fun b hb => h b (List.mem_cons_of_mem _ hb)]
    rfl

theorem dumps_key {k : PreauthKey} (h : ∀ x ∈ k.texts, utf8 x = true) : (keyToJson k).dumps = true := by
  have hkey : utf8 k.key = true := h _ (by simp [PreauthKey.texts])
  have htoken : utf8 k.token = true := h _ (by simp [PreauthKey.texts])
  simp only [keyToJson, Json.dumps, Json.dumpsMembers, hkey, htoken, Bool.and_true]
  decide +kernel

theorem dumps_node {n : NodeState} (h : ∀ x ∈ n.texts, utf8 x = true) : (nodeToJson n).dumps = true := by
  have h1 : utf8 n.stableId = true := h _ (by simp [NodeState.texts])
  have h2 : utf8 n.hostname = true := h _ (by simp [NodeState.texts])
  have h3 : utf8 n.machineKey = true := h _ (by simp [NodeState.texts])
  have h4 : utf8 n.nodeKey = true := h _ (by simp [NodeState.texts])
  have h5 : utf8 n.discoKey = true := h _ (by simp [NodeState.texts])
  have h6 : utf8 n.ipv4 = true := h _ (by simp [NodeState.texts])
  have h7 : utf8 n.ipv6 = true := h _ (by simp [NodeState.texts])
  have h8 : utf8 n.token = true := h _ (by simp [NodeState.texts])
  have hends : Json.dumpsAll (n.endpoints.map .str) = true :=
    dumpsAll_map fun e he => h e (List.mem_append_right _ he)
  simp only [nodeToJson, Json.dumps, Json.dumpsMembers, h1, h2, h3, h4, h5, h6, h7, h8, hends,
    Bool.and_true]
  decide +kernel

/-- **A store whose strings are UTF-8 can be dumped.** -/
theorem dumps_of_texts {s : Store} (h : ∀ x ∈ s.texts, utf8 x = true) :
    (snapshotLocked s).dumps = true := by
  have hkeys : Json.dumpsAll (s.keys.map keyToJson) = true := by
    refine dumpsAll_map fun k hk => dumps_key fun x hx => h x ?_
    exact List.mem_append_left _ (List.mem_flatMap.mpr ⟨k, hk, hx⟩)
  have hnodes : Json.dumpsAll (s.nodes.map nodeToJson) = true := by
    refine dumpsAll_map fun n hn => dumps_node fun x hx => h x ?_
    exact List.mem_append_right _ (List.mem_flatMap.mpr ⟨n, hn, hx⟩)
  simp only [snapshotLocked, Json.dumps, Json.dumpsMembers, hkeys, hnodes,
    utf8_hexEncode s.noisePrivate.val, Bool.and_true]
  decide +kernel

/-! ## 3. Numbers that an `int` holds -/

/-- The id is an `int`, or the 64-bit image of a negative one. -/
def idFits (id : UInt64) : Bool := decide (id.toNat < 2 ^ 31 ∨ 2 ^ 64 - 2 ^ 31 ≤ id.toNat)

/-- The counters, the ids and the expiries of the store survive `get<int>()`. The address index
    has 32 bits and always does. -/
def Store.fits (s : Store) : Bool :=
  idFits s.nextNodeId && s.keys.all (fun k => intFits k.expiresUnix) && s.nodes.all fun n => idFits n.id

theorem toInt32_eq_iff (n : Int) : Json.toInt32 n = n ↔ intFits n = true := by
  rw [intFits, decide_eq_true_iff, Json.toInt32, Int.bmod_eq_emod]
  split
  · omega
  · omega

theorem cutId_eq_iff (id : UInt64) : cutId id = id ↔ idFits id = true := by
  have hlt := id.toNat_lt
  rw [idFits, decide_eq_true_iff, ← UInt64.toNat_inj, cutId_toNat]
  split
  · omega
  · omega

theorem cutKey_eq_iff (k : PreauthKey) : cutKey k = k ↔ intFits k.expiresUnix = true := by
  rw [← toInt32_eq_iff]
  constructor
  · intro h
    exact congrArg PreauthKey.expiresUnix h
  · intro h
    rw [cutKey, h]

theorem withId_eq_iff (n : NodeState) (id : UInt64) : ({ n with id } : NodeState) = n ↔ id = n.id := by
  constructor
  · intro h
    exact congrArg NodeState.id h
  · rintro rfl
    rfl

theorem cutNode_eq_iff (n : NodeState) : cutNode n = n ↔ idFits n.id = true := by
  rw [← cutId_eq_iff]
  exact withId_eq_iff n (cutId n.id)

theorem map_eq_self_iff {α : Type} {f : α → α} (l : List α) : l.map f = l ↔ ∀ a ∈ l, f a = a := by
  conv_lhs => rhs; rw [← List.map_id l]
  exact List.map_inj_left

/-- Loading the dump of `s` gives its image back exactly where its numbers fit. -/
theorem reloaded_image_iff (s t : Store) : (reloaded s t).image = s.image ↔ s.fits = true := by
  have hfits : s.fits = true ↔ (cutId s.nextNodeId = s.nextNodeId ∧ s.keys.map cutKey = s.keys) ∧
      s.nodes.map cutNode = s.nodes := by
    rw [Store.fits, Bool.and_eq_true, Bool.and_eq_true, List.all_eq_true, List.all_eq_true,
      cutId_eq_iff, map_eq_self_iff, map_eq_self_iff]
    simp only [cutKey_eq_iff, cutNode_eq_iff]
  rw [hfits]
  constructor
  · intro h
    obtain ⟨_, hid, _, hkeys, hnodes⟩ := Image.mk.inj h
    exact ⟨⟨hid, hkeys⟩, hnodes⟩
  · rintro ⟨⟨hid, hkeys⟩, hnodes⟩
    unfold Store.image reloaded
    rw [hid, cutIndex_eq, hkeys, hnodes]

/-! ## 4. The round trip -/

/-- **The dump of the store loads back**: into any other store, and the same text is dumped from
    it again. -/
def RoundTrips (s : Store) : Prop :=
  ∀ t : Store, ∃ j t', dumpJson s = .ok j ∧ loadJson (some j) t = (.ok (), t') ∧
    t'.image = s.image ∧ dumpJson t' = .ok j

/-- **A dump loads back exactly where the ids and the expiries of the store are `int`s.** -/
theorem snapshot_roundTrips_iff (s : Store) (htexts : ∀ x ∈ s.texts, utf8 x = true) :
    RoundTrips s ↔ s.fits = true := by
  have hdump : dumpJson s = .ok (snapshotLocked s) := by
    rw [dumpJson, if_pos (dumps_of_texts htexts)]
  have hload : ∀ t, loadJson (some (snapshotLocked s)) t = (.ok (), reloaded s t) :=
    applySnapshot_snapshot s
  constructor
  · intro h
    obtain ⟨j, t', hj, hl, himage, _⟩ := h s
    obtain rfl := Except.ok.inj (hdump.symm.trans hj)
    obtain rfl := (Prod.mk.inj ((hload s).symm.trans hl)).2
    exact (reloaded_image_iff s s).mp himage
  · intro h t
    have himage := (reloaded_image_iff s t).mpr h
    refine ⟨snapshotLocked s, reloaded s t, hdump, hload t, himage, ?_⟩
    have hsnap := snapshot_congr himage
    rw [dumpJson, hsnap, if_pos (dumps_of_texts htexts)]

/-- A key that expires at `expiresUnix`, and a node whose endpoints are known. -/
def expiringStore (expiresUnix : Int) : Store :=
  { oneKeyStore with
    nextNodeId := 2
    nextIpIndex := 2
    keys := [{ key := ascii "K", expiresUnix, token := ascii "blue" }]
    nodes := [{ id := 1, stableId := ascii "1", hostname := ascii "wire", machineKey := ascii "m",
                endpoints := [ascii "10.0.0.1:41641"] }] }

/-- The expiry 2^31 (January 2038) is read back as -2^31. -/
theorem snapshot_expiry_cut : ¬ RoundTrips (expiringStore (2 ^ 31)) := by
  intro h
  obtain ⟨j, t', hj, hl, himage, _⟩ := h oneKeyStore
  have hdump : dumpJson (expiringStore (2 ^ 31)) = .ok (snapshotLocked (expiringStore (2 ^ 31))) := by
    rw [dumpJson, if_pos (by decide +kernel)]
  obtain rfl := Except.ok.inj (hdump.symm.trans hj)
  have hload := applySnapshot_snapshot (expiringStore (2 ^ 31)) oneKeyStore
  obtain rfl := (Prod.mk.inj (hload.symm.trans hl)).2
  have hkeys := congrArg (fun i : Image => i.keys.map (·.expiresUnix)) himage
  have hne : ((reloaded (expiringStore (2 ^ 31)) oneKeyStore).image.keys.map (·.expiresUnix)) ≠
      ((expiringStore (2 ^ 31)).image.keys.map (·.expiresUnix)) := by decide +kernel
  exact hne hkeys

theorem snapshot_roundTrips_small : RoundTrips (expiringStore (2 ^ 31 - 1)) :=
  (snapshot_roundTrips_iff (expiringStore (2 ^ 31 - 1)) (by decide +kernel)).mpr (by decide +kernel)

end Wirebone
