/-
  File:      Wirebone/Store/Failure.lean
  Subject:   WHAT A FAILING CALL LEAVES BEHIND.

  The store is changed in place, member after member, and an exception in the middle takes nothing
  back. Two groups of calls, each with the exact condition under which a failure leaves no trace:

  * `TakenFrom` -- what a store has after all of a text was taken, said by the text's own members;
  * `LoadsAtomically`, `ReloadsAtomically` -- `load_json` and `reload_keys_from_disk` take all of a
    text or nothing of it; **`loading_atomic_iff`** -- they do exactly if the first value of a wrong
    type is met before anything was changed, and no number is cut on its way through `int`;
  * `Mutator` -- the four calls that end in `save_locked`; `Undone` -- a call that throws has changed
    nothing; **`mutator_atomic_iff`** -- a call keeps this exactly if it does not throw, or had
    nothing to change.
-/
import Wirebone.Store.Registry
import Wirebone.Store.Snapshot

namespace Wirebone

open ByteString FirstMatch

/-! ## 1. Loading a text -/

/-- What the loops over `j["preauth_keys"]` and `j["nodes"]` visit. -/
def keyItems (j : Json) : List Json := ((j.find (ascii "preauth_keys")).getD .null).items

def nodeItems (j : Json) : List Json := ((j.find (ascii "nodes")).getD .null).items

/-- The noise key after a text: the one it names, where that can be read, or the old one where it
    names none. -/
def noiseOf (j : Json) (old : Bytes32) : Option Bytes32 :=
  match j.find (ascii "noise_private") with
  | none => some old
  | some (.str t) => (hexDecode t 32).map bytes32
  | some _ => none

/-- What the entry `k` of a key list says, its expiry apart. -/
structure EntryOf (k : Json) (p : PreauthKey) : Prop where
  isObject : k.isObject = true
  key : k.member "key" (.str []) = .str p.key
  reusable : k.member "reusable" (.bool true) = .bool p.reusable
  ephemeral : k.member "ephemeral" (.bool false) = .bool p.ephemeral
  used : k.member "used" (.bool false) = .bool p.used
  token : k.member "token" (.str []) = .str p.token
  shared : k.member "shared" (.bool p.token.isEmpty) = .bool p.shared

/-- The key is what the entry says, with the number that stands there. -/
structure KeyOf (k : Json) (p : PreauthKey) : Prop extends EntryOf k p where
  expiresUnix : (k.member "expires_unix" (.num 0)).number = some (.ofInt p.expiresUnix)

/-- What the entry `n` of a node list says, its id apart. -/
structure MachineOf (n : Json) (m : NodeState) : Prop where
  isObject : n.isObject = true
  stableId : n.member "stable_id" (.str []) = .str m.stableId
  hostname : n.member "hostname" (.str []) = .str m.hostname
  machineKey : n.member "machine_key" (.str []) = .str m.machineKey
  nodeKey : n.member "node_key" (.str []) = .str m.nodeKey
  discoKey : n.member "disco_key" (.str []) = .str m.discoKey
  ipv4 : n.member "ipv4" (.str []) = .str m.ipv4
  ipv6 : n.member "ipv6" (.str []) = .str m.ipv6
  ephemeral : n.member "ephemeral" (.bool false) = .bool m.ephemeral
  online : n.member "online" (.bool false) = .bool m.online
  token : n.member "token" (.str []) = .str m.token
  shared : n.member "shared" (.bool m.token.isEmpty) = .bool m.shared
  endpoints : n.member "endpoints" (.arr []) = .arr (m.endpoints.map .str)

/-- The node is what the entry says, with the number that stands there. -/
structure NodeOf (n : Json) (m : NodeState) : Prop extends MachineOf n m where
  id : (n.member "id" (.num 0)).number = some (.ofInt m.id.toNat)

/-- **All members are taken from the text**, each list as a whole: strings and booleans as they
    stand, numbers with the value that stands there. -/
structure TakenFrom (j : Json) (s s' : Store) : Prop where
  noise : noiseOf j s.noisePrivate = some s'.noisePrivate
  nodeId : (j.member "next_node_id" (.num 1)).number = some (.ofInt s'.nextNodeId.toNat)
  ipIndex : (j.member "next_ip_index" (.num 1)).number = some (.ofInt s'.nextIpIndex.toNat)
  keys : List.Forall₂ KeyOf (keyItems j) s'.keys
  nodes : List.Forall₂ NodeOf (nodeItems j) s'.nodes

/-- `load_json` throws and leaves the five members as they were, or returns with all of them taken
    from the text. -/
def LoadsAtomically (text : Option Json) (s : Store) : Prop :=
  match loadJson text s with
  | (.error _, s') => s'.image = s.image
  | (.ok _, s') => ∃ j, text = some j ∧ TakenFrom j s s'

/-- **A number that survives** the way through `int` into a field that adds `wrap` to a negative
    value (2^64 and 2^32 for an unsigned field, 0 for a signed one). A double beyond `int` survives
    by luck only. -/
def numKept (wrap : Int) : Json → Bool
  | .num n => decide (0 ≤ n ∧ n < 2 ^ 31 ∨ wrap - 2 ^ 31 ≤ n ∧ n < wrap)
  | .float q cast =>
    decide (q.den = 1) && decide (0 ≤ q.num ∧ q.num < 2 ^ 31 ∨
      wrap - 2 ^ 31 ≤ q.num ∧ q.num < wrap ∧ (wrap = 0 ∨ cast.toInt = q.num - wrap))
  | _ => true

def expiryKept (k : Json) : Bool := numKept 0 (k.member "expires_unix" (.num 0))

def idKept (n : Json) : Bool := numKept (2 ^ 64) (n.member "id" (.num 0))

/-- All numbers of a text survive. -/
def numbersKept (j : Json) : Bool :=
  numKept (2 ^ 64) (j.member "next_node_id" (.num 1)) &&
    numKept (2 ^ 32) (j.member "next_ip_index" (.num 1)) &&
    (keyItems j).all expiryKept && (nodeItems j).all idKept

/-- **The condition on a text**: where one of its values has a wrong type, all that is read before
    the first such value is what the store holds already; where none has, the noise key it names
    (if it names one) can be read and its numbers survive. -/
def readsClean (j : Json) (s : Store) : Bool :=
  match loadedPrivate j s.noisePrivate with
  | .error _ => true
  | .ok priv =>
    match j.value Json.getInt "next_node_id" 1 with
    | .error _ => decide (priv = s.noisePrivate)
    | .ok id =>
      match j.value Json.getInt "next_ip_index" 1 with
      | .error _ => decide (priv = s.noisePrivate ∧ UInt64.ofInt id = s.nextNodeId)
      | .ok ip =>
        let counters := priv = s.noisePrivate ∧ UInt64.ofInt id = s.nextNodeId ∧
          UInt32.ofInt ip = s.nextIpIndex
        let keys := pushUntil keyFromJson (keyItems j)
        let nodes := pushUntil nodeFromJson (nodeItems j)
        if keys.2.isSome then decide (counters ∧ keys.1 = s.keys)
        else if nodes.2.isSome then decide (counters ∧ keys.1 = s.keys ∧ nodes.1 = s.nodes)
        else (noiseOf j s.noisePrivate).isSome && numbersKept j

/-- The condition on a text that may not parse. -/
def loadsClean (text : Option Json) (s : Store) : Bool := text.all fun j => readsClean j s

/-- `reload_keys_from_disk` replaces `keys_` by the complete list of the file, or leaves them. -/
def ReloadsAtomically (w : World) : Prop :=
  (reloadKeysFromDisk w).2.store.keys = w.store.keys ∨
    ∃ ks, readImage w = some ks ∧ List.Forall₂ KeyOf ks.items (reloadKeysFromDisk w).2.store.keys

/-- **The condition on the file**: no entry of its key list has a value of a wrong type and every
    expiry survives, or what is read before the first such entry is what `keys_` holds already. -/
def reloadsClean (w : World) : Bool :=
  match readImage w with
  | none => true
  | some ks =>
    ((pushUntil keyFromJson ks.items).2.isNone && ks.items.all expiryKept) ||
      decide ((pushUntil keyFromJson ks.items).1 = w.store.keys)

section Readers

variable {k n v : Json} {name : String}

theorem except_bind_ok {α β : Type} {x : Except Exn α} {f : α → Except Exn β} {r : β}
    (h : (x >>= f) = .ok r) : ∃ a, x = .ok a ∧ f a = .ok r := by
  cases x with
  | error e => cases h
  | ok a => exact ⟨a, rfl, h⟩

theorem except_bind_ok_iff {α β : Type} {x : Except Exn α} {f : α → Except Exn β} {b : β} :
    (x >>= f) = .ok b ↔ ∃ a, x = .ok a ∧ f a = .ok b :=
  ⟨except_bind_ok, fun ⟨_, ha, hf⟩ => by rw [ha]; exact hf⟩

theorem value_str_iff {t : Bytes} : k.value Json.getString name [] = .ok t ↔
    k.isObject = true ∧ k.member name (.str []) = .str t := by
  unfold Json.value Json.member
  cases k.isObject with
  | false => simp
  | true =>
    cases k.find (ascii name) with
    | none => simp
    | some v => cases v <;> simp [Json.getString]

theorem value_bool_iff {d b : Bool} : k.value Json.getBool name d = .ok b ↔
    k.isObject = true ∧ k.member name (.bool d) = .bool b := by
  unfold Json.value Json.member
  cases k.isObject with
  | false => simp
  | true =>
    cases k.find (ascii name) with
    | none => simp
    | some v => cases v <;> simp [Json.getBool]

theorem value_int_iff {d i : Int} (hd : intFits d = true) : k.value Json.getInt name d = .ok i ↔
    k.isObject = true ∧ (k.member name (.num d)).getInt = .ok i := by
  unfold Json.value Json.member
  cases k.isObject with
  | false => simp
  | true =>
    cases k.find (ascii name) with
    | none => simp [Json.getInt, (toInt32_eq_iff d).mpr hd]
    | some v => simp

theorem getStrings_iff {ts : List Bytes} : v.getStrings = .ok ts ↔ v = .arr (ts.map .str) := by
  have hall : ∀ es : List Json, es.mapM Json.getString = .ok ts ↔ es = ts.map .str := by
    intro es
    induction es generalizing ts with
    | nil =>
      rw [List.mapM_nil]
      cases ts with
      | nil => exact ⟨fun _ => rfl, fun _ => rfl⟩
      | cons t ts => simp [pure, Except.pure]
    | cons e es ih =>
      rw [List.mapM_cons]
      simp only [except_bind_ok_iff, ih]
      constructor
      · rintro ⟨t, ht, ts', rfl, h⟩
        cases h
        cases e with
        | str t' =>
          cases ht
          rfl
        | null | bool _ | num _ | float _ _ | arr _ | obj _ => cases ht
      · intro h
        cases ts with
        | nil => cases h
        | cons t ts =>
          obtain ⟨rfl, rfl⟩ := List.cons.inj h
          exact ⟨t, rfl, ts, rfl, rfl⟩
  cases v with
  | arr es => exact (hall es).trans (by rw [Json.arr.injEq])
  | null | bool _ | num _ | float _ _ | str _ | obj _ => simp [Json.getStrings]

/-- What `get<int>()` gives is an `int`. -/
theorem getInt_range {i : Int} (h : v.getInt = .ok i) : -2 ^ 31 ≤ i ∧ i < 2 ^ 31 := by
  cases v with
  | num n =>
    cases h
    rw [Json.toInt32, Int.bmod_eq_emod]
    split <;> omega
  | float q cast =>
    cases h
    unfold Json.doubleToInt
    split
    · rename_i hfits
      simpa only [intFits, decide_eq_true_eq] using hfits
    · exact ⟨cast.le_toInt, cast.toInt_lt⟩
  | bool b =>
    cases h
    cases b <;> decide
  | null | str _ | arr _ | obj _ => cases h

theorem rat_eq_ofInt_iff {q : Rat} {m : Int} : q = .ofInt m ↔ q.den = 1 ∧ q.num = m := by
  constructor
  · rintro rfl
    exact ⟨rfl, rfl⟩
  · rintro ⟨hden, hnum⟩
    exact Rat.ext hnum hden

/-- **A number survives** exactly if the field that takes the `int` has its value. -/
theorem numKept_iff {i : Int} (wrap : Int) (h : v.getInt = .ok i) (h0 : 0 ≤ wrap)
    (hw : wrap % 2 ^ 32 = 0) :
    v.number = some (.ofInt (if 0 ≤ i then i else i + wrap)) ↔ numKept wrap v = true := by
  cases v with
  | num n =>
    cases h
    have hcut := Int.bmod_eq_emod (x := n) (m := 2 ^ 32)
    rw [numKept, decide_eq_true_iff, Json.number, Option.some.injEq, rat_eq_ofInt_iff]
    show (1 = 1 ∧ n = _) ↔ _
    rw [Json.toInt32, hcut]
    split <;> split <;> omega
  | float q cast =>
    cases h
    have hlow := cast.le_toInt
    have hhigh := cast.toInt_lt
    rw [numKept, Bool.and_eq_true, decide_eq_true_iff, decide_eq_true_iff, Json.number,
      Option.some.injEq, rat_eq_ofInt_iff]
    refine and_congr_right fun hden => ?_
    rw [Json.doubleToInt, hden, Int.natCast_one, Int.tdiv_one]
    cases hfits : intFits q.num with
    | true =>
      rw [intFits, decide_eq_true_iff] at hfits
      rw [if_pos rfl]
      split <;> omega
    | false =>
      rw [intFits, decide_eq_false_iff_not] at hfits
      rw [if_neg Bool.false_ne_true]
      split <;> omega
  | bool b =>
    cases h
    cases b <;> simp [numKept, Json.number]
  | null | str _ | arr _ | obj _ => cases h

theorem toNat_ofInt64 {i : Int} (h : -2 ^ 31 ≤ i ∧ i < 2 ^ 31) :
    ((UInt64.ofInt i).toNat : Int) = if 0 ≤ i then i else i + 2 ^ 64 := by
  rw [UInt64.ofInt, UInt64.toNat_ofNat']
  split <;> omega

theorem toNat_ofInt32 {i : Int} (h : -2 ^ 31 ≤ i ∧ i < 2 ^ 31) :
    ((UInt32.ofInt i).toNat : Int) = if 0 ≤ i then i else i + 2 ^ 32 := by
  rw [UInt32.ofInt, UInt32.toNat_ofNat']
  split <;> omega

/-- **What `key_from_json` reads** of an entry. -/
theorem keyFromJson_iff {p : PreauthKey} : keyFromJson k = .ok p ↔
    EntryOf k p ∧ (k.member "expires_unix" (.num 0)).getInt = .ok p.expiresUnix := by
  unfold keyFromJson
  simp only [except_bind_ok_iff, value_str_iff, value_bool_iff,
    value_int_iff (show intFits 0 = true by decide)]
  constructor
  · rintro ⟨key, ⟨hobj, h1⟩, reusable, ⟨_, h2⟩, ephemeral, ⟨_, h3⟩, used, ⟨_, h4⟩, expires, ⟨_, h5⟩,
      token, ⟨_, h6⟩, shared, ⟨_, h7⟩, h⟩
    cases h
    exact ⟨⟨hobj, h1, h2, h3, h4, h6, h7⟩, h5⟩
  · rintro ⟨⟨hobj, h1, h2, h3, h4, h6, h7⟩, h5⟩
    exact ⟨_, ⟨hobj, h1⟩, _, ⟨hobj, h2⟩, _, ⟨hobj, h3⟩, _, ⟨hobj, h4⟩, _, ⟨hobj, h5⟩, _, ⟨hobj, h6⟩, _,
      ⟨hobj, h7⟩, rfl⟩

/-- **What the loop over the nodes reads** of an entry. -/
theorem nodeFromJson_ok {m : NodeState} (h : nodeFromJson n = .ok m) :
    MachineOf n m ∧ ∃ id, (n.member "id" (.num 0)).getInt = .ok id ∧ m.id = UInt64.ofInt id := by
  unfold nodeFromJson at h
  simp only [except_bind_ok_iff, value_str_iff, value_bool_iff,
    value_int_iff (show intFits 0 = true by decide)] at h
  obtain ⟨id, ⟨hobj, h1⟩, stableId, ⟨_, h2⟩, hostname, ⟨_, h3⟩, machineKey, ⟨_, h4⟩, nodeKey, ⟨_, h5⟩,
    discoKey, ⟨_, h6⟩, ipv4, ⟨_, h7⟩, ipv6, ⟨_, h8⟩, ephemeral, ⟨_, h9⟩, online, ⟨_, h10⟩,
    token, ⟨_, h11⟩, shared, ⟨_, h12⟩, h⟩ := h
  have hmachine : ∀ endpoints, n.member "endpoints" (.arr []) = .arr (endpoints.map .str) →
      MachineOf n { id := UInt64.ofInt id, stableId, hostname, machineKey, nodeKey, discoKey, ipv4, ipv6,
                    endpoints, online, ephemeral, token, shared } :=
    fun _ h13 => ⟨hobj, h2, h3, h4, h5, h6, h7, h8, h9, h10, h11, h12, h13⟩
  cases hf : n.find (ascii "endpoints") with
  | none =>
    simp only [hf] at h
    cases h
    exact ⟨hmachine [] (by rw [Json.member, hf]; rfl), id, h1, rfl⟩
  | some e =>
    simp only [hf, except_bind_ok_iff] at h
    obtain ⟨endpoints, h13, h⟩ := h
    cases h
    exact ⟨hmachine endpoints (by rw [Json.member, hf]; exact getStrings_iff.mp h13), id, h1, rfl⟩

theorem keyOf_iff {p : PreauthKey} (h : keyFromJson k = .ok p) : KeyOf k p ↔ expiryKept k = true := by
  obtain ⟨hentry, hexp⟩ := keyFromJson_iff.mp h
  have hkept := numKept_iff 0 hexp (Int.le_refl 0) rfl
  rw [Int.add_zero, ite_self] at hkept
  exact ⟨fun hk => hkept.mp hk.expiresUnix, fun hk => ⟨hentry, hkept.mpr hk⟩⟩

theorem nodeOf_iff {m : NodeState} (h : nodeFromJson n = .ok m) : NodeOf n m ↔ idKept n = true := by
  obtain ⟨hmachine, id, hid, hm⟩ := nodeFromJson_ok h
  have hkept := numKept_iff (2 ^ 64) hid (by decide) rfl
  rw [← toNat_ofInt64 (getInt_range hid), ← hm] at hkept
  exact ⟨fun hn => hkept.mp hn.id, fun hn => ⟨hmachine, hkept.mpr hn⟩⟩

/-- A list that is read whole, entry by entry. -/
theorem forall₂_read {α : Type} {get : Json → Except Exn α} {Says : Json → α → Prop} {kept : Json → Bool}
    (hget : ∀ {a b}, get a = .ok b → (Says a b ↔ kept a = true)) {es : List Json} {as : List α}
    (h : es.mapM get = .ok as) : List.Forall₂ Says es as ↔ es.all kept = true := by
  induction es generalizing as with
  | nil =>
    cases h
    exact ⟨fun _ => rfl, fun _ => .nil⟩
  | cons e es ih =>
    rw [List.mapM_cons] at h
    obtain ⟨a, ha, h⟩ := except_bind_ok h
    obtain ⟨as', has, h⟩ := except_bind_ok h
    cases h
    rw [List.forall₂_cons, List.all_cons, Bool.and_eq_true, hget ha, ih has]

end Readers

section Loading

variable {j : Json} {s : Store} {w : World}

/-- Where the noise key of the text can be read, it is the one that is stored. -/
theorem noiseOf_loaded {old priv : Bytes32} (h : loadedPrivate j old = .ok priv) :
    noiseOf j old = some priv ↔ (noiseOf j old).isSome = true := by
  refine ⟨fun hn => by rw [hn]; rfl, fun hn => ?_⟩
  unfold loadedPrivate at h
  unfold noiseOf at hn ⊢
  cases hf : j.find (ascii "noise_private") with
  | none =>
    rw [hf] at h
    cases h
    rfl
  | some v =>
    simp only [hf] at h hn ⊢
    cases v with
    | str t =>
      simp only [Json.getString, bind, Except.bind] at h hn ⊢
      cases hd : hexDecode t 32 with
      | none =>
        rw [hd] at hn
        cases hn
      | some p =>
        rw [hd] at h
        cases h
        rfl
    | null | bool _ | num _ | float _ _ | arr _ | obj _ => cases hn

theorem image_eq_iff (s' : Store) : s'.image = s.image ↔
    s'.noisePrivate = s.noisePrivate ∧ s'.nextNodeId = s.nextNodeId ∧
      s'.nextIpIndex = s.nextIpIndex ∧ s'.keys = s.keys ∧ s'.nodes = s.nodes := by
  unfold Store.image
  rw [Image.mk.injEq]

/-- What a text that is read to its end leaves. -/
theorem takenFrom_iff {priv : Bytes32} {id ip : Int} {ks : List PreauthKey} {ns : List NodeState}
    (hpriv : loadedPrivate j s.noisePrivate = .ok priv)
    (hid : j.value Json.getInt "next_node_id" 1 = .ok id)
    (hip : j.value Json.getInt "next_ip_index" 1 = .ok ip)
    (hks : (keyItems j).mapM keyFromJson = .ok ks) (hns : (nodeItems j).mapM nodeFromJson = .ok ns) :
    TakenFrom j s { s with noisePrivate := priv, nextNodeId := UInt64.ofInt id,
                           nextIpIndex := UInt32.ofInt ip, keys := ks, nodes := ns } ↔
      ((noiseOf j s.noisePrivate).isSome && numbersKept j) = true := by
  have hkeys := forall₂_read keyOf_iff hks
  have hnodes := forall₂_read nodeOf_iff hns
  have hid' := ((value_int_iff (by decide)).mp hid).2
  have hip' := ((value_int_iff (by decide)).mp hip).2
  have hnodeId := numKept_iff (2 ^ 64) hid' (by decide) rfl
  rw [← toNat_ofInt64 (getInt_range hid')] at hnodeId
  have hipIndex := numKept_iff (2 ^ 32) hip' (by decide) rfl
  rw [← toNat_ofInt32 (getInt_range hip')] at hipIndex
  unfold numbersKept
  rw [Bool.and_eq_true, Bool.and_eq_true, Bool.and_eq_true, Bool.and_eq_true, ← noiseOf_loaded hpriv,
    ← hkeys, ← hnodes, ← hnodeId, ← hipIndex]
  constructor
  · intro h
    exact ⟨h.noise, ⟨⟨h.nodeId, h.ipIndex⟩, h.keys⟩, h.nodes⟩
  · rintro ⟨h1, ⟨⟨h2, h3⟩, h4⟩, h5⟩
    exact ⟨h1, h2, h3, h4, h5⟩

/-- The loops of `apply_snapshot_locked`, once the counters are read. -/
theorem applySnapshot_loops {priv : Bytes32} {id ip : Int}
    (hpriv : loadedPrivate j s.noisePrivate = .ok priv)
    (hid : j.value Json.getInt "next_node_id" 1 = .ok id)
    (hip : j.value Json.getInt "next_ip_index" 1 = .ok ip) :
    applySnapshotLocked j s =
      match (pushUntil keyFromJson (keyItems j)).2 with
      | some e => (.error e, { s with noisePrivate := priv, nextNodeId := UInt64.ofInt id,
                                      nextIpIndex := UInt32.ofInt ip,
                                      keys := (pushUntil keyFromJson (keyItems j)).1 })
      | none => (ended (pushUntil nodeFromJson (nodeItems j)).2,
          { s with noisePrivate := priv, nextNodeId := UInt64.ofInt id, nextIpIndex := UInt32.ofInt ip,
                   keys := (pushUntil keyFromJson (keyItems j)).1,
                   nodes := (pushUntil nodeFromJson (nodeItems j)).1 }) := by
  unfold applySnapshotLocked keyItems nodeItems
  simp only [hpriv, hid, hip, installKeys, installNodes]
  cases (pushUntil keyFromJson ((j.find (ascii "preauth_keys")).getD .null).items).2 with
  | none => rfl
  | some e => rfl

/-- **A text that is accepted** has been read to its end. -/
theorem load_accepted (h : (loadJson (some j) s).1 = .ok ()) :
    ∃ priv id ip, loadedPrivate j s.noisePrivate = .ok priv ∧
      j.value Json.getInt "next_node_id" 1 = .ok id ∧ j.value Json.getInt "next_ip_index" 1 = .ok ip ∧
      (pushUntil keyFromJson (keyItems j)).2 = none ∧ (pushUntil nodeFromJson (nodeItems j)).2 = none ∧
      (loadJson (some j) s).2 =
        { s with noisePrivate := priv, nextNodeId := UInt64.ofInt id, nextIpIndex := UInt32.ofInt ip,
                 keys := (pushUntil keyFromJson (keyItems j)).1,
                 nodes := (pushUntil nodeFromJson (nodeItems j)).1 } := by
  change (applySnapshotLocked j s).1 = .ok () at h
  show ∃ priv id ip, _ ∧ _ ∧ _ ∧ _ ∧ _ ∧ (applySnapshotLocked j s).2 = _
  cases hpriv : loadedPrivate j s.noisePrivate with
  | error e =>
    simp only [applySnapshotLocked, hpriv] at h
    cases h
  | ok priv =>
    cases hid : j.value Json.getInt "next_node_id" 1 with
    | error e =>
      simp only [applySnapshotLocked, hpriv, hid] at h
      cases h
    | ok id =>
      cases hip : j.value Json.getInt "next_ip_index" 1 with
      | error e =>
        simp only [applySnapshotLocked, hpriv, hid, hip] at h
        cases h
      | ok ip =>
        rw [applySnapshot_loops hpriv hid hip] at h ⊢
        cases hks : (pushUntil keyFromJson (keyItems j)).2 with
        | some e =>
          simp only [hks] at h
          cases h
        | none =>
          cases hns : (pushUntil nodeFromJson (nodeItems j)).2 with
          | some e =>
            simp only [hks, hns] at h
            cases h
          | none => exact ⟨priv, id, ip, rfl, rfl, rfl, rfl, rfl, rfl⟩

/-- **`apply_snapshot_locked` is all or nothing** exactly under the condition. One case for each
    member that may be the first to throw. -/
theorem applySnapshot_atomic_iff (j : Json) (s : Store) :
    LoadsAtomically (some j) s ↔ readsClean j s = true := by
  unfold LoadsAtomically readsClean
  rw [show loadJson (some j) s = applySnapshotLocked j s from rfl]
  cases hpriv : loadedPrivate j s.noisePrivate with
  | error e =>
    have happ : applySnapshotLocked j s = (.error e, s) := by simp only [applySnapshotLocked, hpriv]
    rw [happ]
    simp
  | ok priv =>
    cases hid : j.value Json.getInt "next_node_id" 1 with
    | error e =>
      have happ : applySnapshotLocked j s = (.error e, { s with noisePrivate := priv }) := by
        simp only [applySnapshotLocked, hpriv, hid]
      rw [happ]
      simp [image_eq_iff]
    | ok id =>
      cases hip : j.value Json.getInt "next_ip_index" 1 with
      | error e =>
        have happ : applySnapshotLocked j s =
            (.error e, { s with noisePrivate := priv, nextNodeId := UInt64.ofInt id }) := by
          simp only [applySnapshotLocked, hpriv, hid, hip]
        rw [happ]
        simp [image_eq_iff]
      | ok ip =>
        have hkeys := mapM_pushUntil keyFromJson (keyItems j)
        have hnodes := mapM_pushUntil nodeFromJson (nodeItems j)
        rw [applySnapshot_loops hpriv hid hip]
        cases hks : (pushUntil keyFromJson (keyItems j)).2 with
        | some e => simp [hks, image_eq_iff, and_assoc]
        | none =>
          cases hns : (pushUntil nodeFromJson (nodeItems j)).2 with
          | some e => simp [hks, hns, ended, image_eq_iff, and_assoc]
          | none =>
            rw [hks] at hkeys
            rw [hns] at hnodes
            have htaken := takenFrom_iff hpriv hid hip hkeys hnodes
            simp only [hks, hns, ended, Option.isSome_none, Bool.false_eq_true, if_false]
            rw [← htaken]
            refine ⟨fun h => ?_, fun h => ⟨j, rfl, h⟩⟩
            obtain ⟨j', hj', h⟩ := h
            cases hj'
            exact h

theorem load_atomic_iff (text : Option Json) (s : Store) :
    LoadsAtomically text s ↔ loadsClean text s = true := by
  cases text with
  | none => exact ⟨fun _ => rfl, fun _ => rfl⟩
  | some j => exact applySnapshot_atomic_iff j s

theorem reload_atomic_iff (w : World) : ReloadsAtomically w ↔ reloadsClean w = true := by
  unfold ReloadsAtomically reloadsClean reloadKeysFromDisk
  cases readImage w with
  | none => simp
  | some ks =>
    have hkeys := mapM_pushUntil keyFromJson ks.items
    simp only [installKeys, Bool.or_eq_true, Bool.and_eq_true, decide_eq_true_eq, Option.some.injEq,
      exists_eq_left']
    rw [or_comm]
    refine or_congr_left ?_
    cases hp : (pushUntil keyFromJson ks.items).2 with
    | none =>
      rw [hp] at hkeys
      rw [forall₂_read keyOf_iff hkeys]
      exact (and_iff_right rfl).symm
    | some e =>
      -- a list that breaks off is shorter than that of the file
      have hlt := length_pushUntil_lt (by rw [hp]; exact Option.some_ne_none e)
      refine ⟨fun h => absurd h.length_eq (Nat.ne_of_gt hlt), fun h => ?_⟩
      cases h.1

end Loading

/-- **Loading is all or nothing** exactly under the condition on the text; reloading the keys is so
    exactly under the condition on the file. -/
theorem loading_atomic_iff (text : Option Json) (s : Store) (w : World) :
    (LoadsAtomically text s ↔ loadsClean text s = true) ∧
      (ReloadsAtomically w ↔ reloadsClean w = true) :=
  ⟨load_atomic_iff text s, reload_atomic_iff w⟩

/-- A document whose second key is a number. -/
def brokenKeys : Json :=
  .arr [.obj [(ascii "key", .str (ascii "wbkey-2"))], .num 5]

def brokenText : Json := .obj [(ascii "next_node_id", .num 7), (ascii "preauth_keys", brokenKeys)]

/-- A store with one key, and a file whose list breaks off. -/
def heldStore : Store :=
  { path := ascii "state.json", alloc := pool16, keys := [{ key := ascii "wbkey-1" }], nextNodeId := 3 }

/-- A text whose counter no `int` holds. -/
def wideText : Json := .obj [(ascii "next_node_id", .num 4294967297)]

/-- The load throws, and the store has the counters of the text, the first of its two keys, its own
    key no more, and its nodes; the reload does the same to the keys. A load that returns has stored 1
    for 2^32 + 1. -/
theorem loading_torn :
    (loadJson (some brokenText) heldStore).1 = .error (.typeError 306) ∧
      (loadJson (some brokenText) heldStore).2.nextNodeId = 7 ∧
      (loadJson (some brokenText) heldStore).2.keys = [{ key := ascii "wbkey-2", shared := true }] ∧
      ¬ LoadsAtomically (some brokenText) heldStore ∧
      ¬ ReloadsAtomically { store := heldStore, file := some (.json brokenText) } ∧
      (loadJson (some wideText) heldStore).1 = .ok () ∧
      (loadJson (some wideText) heldStore).2.nextNodeId = 1 ∧
      ¬ LoadsAtomically (some wideText) heldStore := by
  refine ⟨by decide +kernel, by decide +kernel, by decide +kernel, ?_, ?_, by decide +kernel,
    by decide +kernel, ?_⟩
  · rw [load_atomic_iff]
    decide +kernel
  · rw [reload_atomic_iff]
    decide +kernel
  · rw [load_atomic_iff]
    decide +kernel

/-! ## 2. The calls that end in `save_locked` -/

/-- The four mutators with their arguments. -/
inductive Mutator where
  | create (now : Int) (raw : Bytes32) (reusable ephemeral : Bool) (expiration : Int) (token : Bytes)
      (shared : Option Bool)
  | consume (now : Int) (key : Bytes)
  | register (machineKey nodeKey hostname : Bytes) (ephemeral : Bool) (token : Bytes) (shared : Bool)
  | mapInfo (machineKey nodeKey discoKey hostname : Bytes) (endpoints : List Bytes)

/-- `keys_`, `nodes_` and the two counters are the same. -/
def SameTables (s s' : Store) : Prop :=
  s'.keys = s.keys ∧ s'.nodes = s.nodes ∧ s'.nextNodeId = s.nextNodeId ∧ s'.nextIpIndex = s.nextIpIndex

/-- Where a call throws, it has changed nothing. -/
def Undone {α : Type} (w : World) (r : Except Exn α × World) : Prop :=
  ∀ e, r.1 = .error e → SameTables w.store r.2.store

/-- **The call is atomic under failure.** -/
def Mutator.Atomic (I : Inet) (io : SaveIo) (w : World) : Mutator → Prop
  | .create now raw reusable ephemeral expiration token shared =>
    Undone w (createPreauthKey io now raw reusable ephemeral expiration token shared w)
  | .consume now key => Undone w (consumePreauth io now key w)
  | .register machineKey nodeKey hostname ephemeral token shared =>
    Undone w (registerNode I io machineKey nodeKey hostname ephemeral token shared w)
  | .mapInfo machineKey nodeKey discoKey hostname endpoints =>
    Undone w (updateMapInfo io machineKey nodeKey discoKey hostname endpoints w)

/-- An entry of the file's key list has a value of a wrong type. -/
def reloadThrows (w : World) : Bool :=
  match readImage w with
  | none => false
  | some ks => (pushUntil keyFromJson ks.items).2.isSome

/-- **The condition on a call**: no call inside its `save_locked` throws and it has an address where
    it needs one, or the change it makes changes nothing. -/
def Mutator.clean (I : Inet) (io : SaveIo) (w : World) : Mutator → Bool
  | .create now raw reusable ephemeral expiration token shared =>
    saves io { w.store with
      keys := w.store.keys ++ [createdKey now raw reusable ephemeral expiration token shared] }
  | .consume now key =>
    if reloadThrows w then decide (keysSeen w = w.store.keys)
    else (claimOf now key (keysSeen w)).isNone ||
      saves io { w.store with keys := markUsed key (keysSeen w) } ||
      decide (markUsed key (keysSeen w) = w.store.keys)
  | .register machineKey nodeKey hostname ephemeral token shared =>
    match findByMachine w.store machineKey with
    | some n =>
      saves io { w.store with
          nodes := updateNode machineKey (reregistered nodeKey hostname ephemeral) w.store.nodes } ||
        decide (reregistered nodeKey hostname ephemeral n = n)
    | none =>
      match addressFor I w.store.alloc w.store.nextIpIndex with
      | .error _ => false
      | .ok ips =>
        saves io { counted w.store with
          nodes := w.store.nodes ++ [newNode w.store.nextNodeId machineKey nodeKey hostname ephemeral
            token shared ips] }
  | .mapInfo machineKey nodeKey discoKey hostname endpoints =>
    match findByMachine w.store machineKey with
    | none => true
    | some n =>
      saves io { w.store with
          nodes := updateNode machineKey (mapUpdated nodeKey discoKey hostname endpoints)
            w.store.nodes } ||
        decide (mapUpdated nodeKey discoKey hostname endpoints n = n)

section Mutators

variable {α : Type} {I : Inet} {io : SaveIo} {w : World} {s : Store}

/-- **A section that ends in `save_locked`** is atomic exactly if the save returns or there was
    nothing to change. -/
theorem commit_undone_iff (a : α) :
    Undone w (commit io w s a) ↔ saves io s = true ∨ SameTables w.store s := by
  rcases hc : commit io w s a with ⟨r, w'⟩
  have hstore := (commit_cases hc).1
  constructor
  · intro h
    cases hs : saves io s with
    | true => exact .inl rfl
    | false =>
      obtain ⟨e, rfl⟩ := commit_throws hc hs
      exact .inr (hstore ▸ h e rfl)
  · intro h e he
    rcases h with hs | hsame
    · rw [show r = .ok a from commit_saves hc hs] at he
      cases he
    · exact hstore.symm ▸ hsame

/-- A changed key list or node list is a change. -/
theorem sameTables_keys (keys : List PreauthKey) :
    SameTables s { s with keys := keys } ↔ keys = s.keys :=
  ⟨fun h => h.1, fun h => ⟨h, rfl, rfl, rfl⟩⟩

theorem sameTables_update {m : Bytes} {f : NodeState → NodeState} {n : NodeState}
    (hn : findByMachine s m = some n) :
    SameTables s { s with nodes := updateNode m f s.nodes } ↔ f n = n := by
  have hself : updateNode m f s.nodes = s.nodes ↔ f n = n := by
    rw [updateNode, modifyFirst_eq_self_iff]
    refine ⟨fun h => h n hn, fun h a ha => ?_⟩
    rw [show a = n from Option.some.inj (ha.symm.trans hn)]
    exact h
  rw [← hself]
  exact ⟨fun h => h.2.1, fun h => ⟨rfl, h, rfl, rfl⟩⟩

/-- The id counter has gone up. -/
theorem not_sameTables_counted (nodes : List NodeState) :
    ¬ SameTables s { counted s with nodes := nodes } := by
  intro h
  have hid : s.nextNodeId + 1 = s.nextNodeId := h.2.2.1
  exact absurd (congrArg UInt64.toNat hid) (by
    rw [UInt64.toNat_add]
    have := s.nextNodeId.toNat_lt
    simp
    omega)

theorem create_atomic_iff {now expiration : Int} {raw : Bytes32} {reusable ephemeral : Bool}
    {token : Bytes} {shared : Option Bool} :
    Undone w (createPreauthKey io now raw reusable ephemeral expiration token shared w) ↔
      saves io { w.store with
        keys := w.store.keys ++ [createdKey now raw reusable ephemeral expiration token shared] } =
          true := by
  have hne : ¬ SameTables w.store { w.store with
      keys := w.store.keys ++ [createdKey now raw reusable ephemeral expiration token shared] } := by
    rw [sameTables_keys]
    intro h
    have hlen := congrArg List.length h
    rw [List.length_append, List.length_singleton] at hlen
    omega
  exact (commit_undone_iff _).trans ⟨fun h => h.resolve_right hne, .inl⟩

/-- The store after the reload, and whether it threw. -/
theorem reload_eq (w : World) :
    (reloadKeysFromDisk w).2 = { w with store := { w.store with keys := keysSeen w } } ∧
      ((reloadKeysFromDisk w).1 = .ok () ↔ reloadThrows w = false) := by
  unfold reloadKeysFromDisk keysSeen reloadThrows
  cases readImage w with
  | none => exact ⟨rfl, fun _ => rfl, fun _ => rfl⟩
  | some ks =>
    refine ⟨rfl, ?_⟩
    simp only [installKeys]
    cases (pushUntil keyFromJson ks.items).2 with
    | none => simp [ended]
    | some e => simp [ended]

theorem consume_atomic_iff {now : Int} {key : Bytes} :
    Undone w (consumePreauth io now key w) ↔ (Mutator.consume now key).clean I io w = true := by
  obtain ⟨hstore, hok⟩ := reload_eq w
  rw [consumePreauth_eq]
  simp only [Mutator.clean]
  rcases hr : reloadKeysFromDisk w with ⟨e | u, w₁⟩
  · have hthrows : reloadThrows w = true := by
      rw [hr] at hok
      cases ht : reloadThrows w with
      | true => rfl
      | false => cases hok.mpr ht
    rw [hr] at hstore
    rw [if_pos hthrows, decide_eq_true_eq, ← sameTables_keys]
    subst hstore
    exact ⟨fun h => h e rfl, fun h _ _ => h⟩
  · have hthrows : reloadThrows w = false := hok.mp (by rw [hr])
    rw [hr] at hstore
    subst hstore
    rw [hthrows, if_neg Bool.false_ne_true]
    simp only [checkAndMark_eq]
    cases hc : claimOf now key (keysSeen w) with
    | none =>
    refine ⟨fun _ => rfl, fun _ e he => ?_⟩
    cases he
    | some claim =>
      simp only [Option.isNone_some, Bool.false_or, Bool.or_eq_true, decide_eq_true_eq]
      rw [← sameTables_keys (s := w.store) (markUsed key (keysSeen w))]
      exact commit_undone_iff (w := w) (some claim)

theorem register_atomic_iff {machineKey nodeKey hostname token : Bytes} {ephemeral shared : Bool} :
    Undone w (registerNode I io machineKey nodeKey hostname ephemeral token shared w) ↔
      (Mutator.register machineKey nodeKey hostname ephemeral token shared).clean I io w = true := by
  unfold registerNode
  simp only [Mutator.clean]
  cases hn : findByMachine w.store machineKey with
  | some n =>
    simp only [Bool.or_eq_true, decide_eq_true_eq]
    rw [← sameTables_update hn]
    exact commit_undone_iff _
  | none =>
    cases ha : addressFor I w.store.alloc w.store.nextIpIndex with
    | error e =>
      refine ⟨fun h => ?_, fun h => ?_⟩
      · exact absurd (h e rfl) (not_sameTables_counted w.store.nodes)
      · cases h
    | ok ips =>
      refine (commit_undone_iff _).trans ⟨fun h => ?_, .inl⟩
      exact h.resolve_right (not_sameTables_counted _)

theorem mapInfo_atomic_iff {machineKey nodeKey discoKey hostname : Bytes} {endpoints : List Bytes} :
    Undone w (updateMapInfo io machineKey nodeKey discoKey hostname endpoints w) ↔
      (Mutator.mapInfo machineKey nodeKey discoKey hostname endpoints).clean I io w = true := by
  unfold updateMapInfo
  simp only [Mutator.clean]
  cases hn : findByMachine w.store machineKey with
  | none =>
    refine ⟨fun _ => rfl, fun _ e he => ?_⟩
    cases he
  | some n =>
    simp only [Bool.or_eq_true, decide_eq_true_eq]
    rw [← sameTables_update hn]
    exact commit_undone_iff _

end Mutators

/-- **The mutators under failure.** A call that throws has changed nothing exactly under the
    condition. -/
theorem mutator_atomic_iff (I : Inet) (io : SaveIo) (w : World) (m : Mutator) :
    m.Atomic I io w ↔ m.clean I io w = true := by
  cases m with
  | create now raw reusable ephemeral expiration token shared => exact create_atomic_iff
  | consume now key => exact consume_atomic_iff
  | register machineKey nodeKey hostname ephemeral token shared => exact register_atomic_iff
  | mapInfo machineKey nodeKey discoKey hostname endpoints => exact mapInfo_atomic_iff

/-- A pool of a single address, used up. -/
def usedUp : Store :=
  { path := [], alloc := { pool16 with ipv4Hosts := 1 }, nextNodeId := 2, nextIpIndex := 2,
    nodes := [{ id := 1, machineKey := ascii "mkey:1" }] }

/-- The state file cannot be written: the key is in memory all the same. The pool is used up: the
    call for a new machine throws, and both counters have gone up. -/
theorem mutator_traces :
    (createPreauthKey { opens := false } 0 (bytes32 [1]) false false 0 [] none
        { store := heldStore, file := none }).1 =
      .error (.runtimeError (ascii "cannot write state file state.json.tmp")) ∧
    ((createPreauthKey { opens := false } 0 (bytes32 [1]) false false 0 [] none
        { store := heldStore, file := none }).2.store.keys.length = 2) ∧
    (registerNode .sample {} (ascii "mkey:2") [] [] false [] false { store := usedUp, file := none }).1 =
      .error (.runtimeError (ascii "ip index out of range")) ∧
    (registerNode .sample {} (ascii "mkey:2") [] [] false [] false
        { store := usedUp, file := none }).2.store.nextNodeId = 3 ∧
    ¬ (Mutator.create 0 (bytes32 [1]) false false 0 [] none).Atomic .sample { opens := false }
        { store := heldStore, file := none } ∧
    ¬ (Mutator.register (ascii "mkey:2") [] [] false [] false).Atomic .sample {}
        { store := usedUp, file := none } := by
  refine ⟨by decide +kernel, by decide +kernel, by decide +kernel, by decide +kernel, ?_, ?_⟩
  · rw [show (Mutator.create 0 (bytes32 [1]) false false 0 [] none).Atomic .sample { opens := false }
      { store := heldStore, file := none } ↔ _ from create_atomic_iff]
    decide +kernel
  · rw [show (Mutator.register (ascii "mkey:2") [] [] false [] false).Atomic .sample {}
      { store := usedUp, file := none } ↔ _ from register_atomic_iff]
    decide +kernel

end Wirebone
