/-
  File:      Wirebone/Store/Expiry.lean
  Subject:   HOW LONG `consume_preauth` ACCEPTS A KEY.

  A key goes through the file between its creation and its use: the save writes its expiry as a
  64-bit number, and every `consume_preauth` reads the list back through `get<int>()`.

  * `consume_result` -- what one call returns, in terms of the keys it sees;
  * `Lists`, `Trail` -- the invariant: memory and file list the key as it was made, its expiry whole
    or cut to 32 bits, and used once a call has returned `true`;
  * **`expiry_law_iff`** -- the expiry law holds exactly if the expiry survives the file, and is not
    the 0 that means none.
-/
import Wirebone.Store.Failure

namespace Wirebone

open ByteString FirstMatch

/-! ## 1. Saves that return -/

/-- The calls of the system in a `save_locked` succeed, and the hook does not throw. -/
def SaveIo.passes (io : SaveIo) (s : Store) : Bool :=
  (decide (s.path = []) || (io.opens && io.renames)) && (!s.hooked || !io.hookThrows)

/-- The store can be dumped, where it is. -/
def Dumpable (s : Store) : Prop := s.path ≠ [] ∨ s.hooked = true → (snapshotLocked s).dumps = true

theorem saves_iff (io : SaveIo) (s : Store) : saves io s = true ↔ io.passes s = true ∧ Dumpable s := by
  unfold saves SaveIo.passes Dumpable
  by_cases hp : s.path = []
  · cases s.hooked <;> simp [hp, and_comm]
  · cases s.hooked <;> cases (snapshotLocked s).dumps <;> simp [hp]

/-- A key without what a call or a reload may change of it. -/
def PreauthKey.bare (k : PreauthKey) : PreauthKey := { k with used := false, expiresUnix := 0 }

theorem dumps_bare (k : PreauthKey) : (keyToJson k).dumps = (keyToJson k.bare).dumps := by
  simp only [keyToJson, PreauthKey.bare, Json.dumps, Json.dumpsMembers]

theorem dumpsAll_bare (keys : List PreauthKey) :
    Json.dumpsAll (keys.map keyToJson) = (keys.map (·.bare)).all fun k => (keyToJson k).dumps := by
  induction keys with
  | nil => rfl
  | cons k keys ih =>
    rw [List.map_cons, Json.dumpsAll, ih, dumps_bare, List.map_cons, List.all_cons]

theorem dumpable_keys {s : Store} {keys : List PreauthKey}
    (h : keys.map (·.bare) = s.keys.map (·.bare)) (hs : Dumpable s) : Dumpable { s with keys := keys } := by
  intro hneed
  have hd := hs hneed
  simp only [snapshotLocked, Json.dumps, Json.dumpsMembers, dumpsAll_bare] at hd ⊢
  rw [h]
  exact hd

theorem markUsed_bare (key : Bytes) (keys : List PreauthKey) :
    (markUsed key keys).map (·.bare) = keys.map (·.bare) := by
  refine modifyFirst_map ?_ keys
  intro a
  rfl

/-- Saving an accepted key: only the marks of the keys change. -/
theorem saves_marked_iff (io : SaveIo) (s : Store) (keys : List PreauthKey) (K : Bytes) :
    saves io { s with keys := markUsed K keys } = true ↔
      io.passes s = true ∧ Dumpable { s with keys := keys } := by
  rw [saves_iff]
  refine and_congr Iff.rfl ⟨fun h => ?_, fun h => ?_⟩
  · exact dumpable_keys (s := { s with keys := markUsed K keys }) (markUsed_bare K keys).symm h
  · exact dumpable_keys (s := { s with keys := keys }) (markUsed_bare K keys) h

/-! ## 2. One call -/

section Call

variable {io : SaveIo} {now : Int} {key : Bytes} {w : World}

theorem reload_ok (h : reloadThrows w = false) :
    reloadKeysFromDisk w = (.ok (), { w with store := { w.store with keys := keysSeen w } }) := by
  obtain ⟨hstore, hok⟩ := reload_eq w
  exact Prod.ext (hok.mpr h) hstore

/-- **One call**: the claim of the first entry among the keys it sees, or a refusal. -/
theorem consume_result (h : reloadThrows w = false) :
    consumePreauth io now key w =
      match claimOf now key (keysSeen w) with
      | none => (.ok none, { w with store := { w.store with keys := keysSeen w } })
      | some claim =>
        commit io w { w.store with keys := markUsed key (keysSeen w) } (some claim) := by
  rw [consumePreauth_eq, reload_ok h]
  simp only [checkAndMark_eq]
  cases claimOf now key (keysSeen w) with
  | none => rfl
  | some claim => rfl

/-- A call changes no more than the keys. -/
theorem consume_store (io : SaveIo) (now : Int) (key : Bytes) (w : World) :
    ∃ keys, (consumePreauth io now key w).2.store = { w.store with keys := keys } := by
  cases ht : reloadThrows w with
  | false =>
    rw [consume_result ht]
    cases claimOf now key (keysSeen w) with
    | none => exact ⟨_, rfl⟩
    | some claim => exact ⟨_, (commit_cases (Prod.mk.eta (p := commit _ _ _ _)).symm).1⟩
  | true =>
    obtain ⟨hstore, hok⟩ := reload_eq w
    rw [consumePreauth_eq]
    rcases hr : reloadKeysFromDisk w with ⟨e | u, w'⟩
    · rw [hr] at hstore
      exact ⟨keysSeen w, by rw [show w' = _ from hstore]⟩
    · rw [hr, ht] at hok
      exact absurd (hok.mp rfl) (by decide)

/-- A call returns `true` exactly if the keys it sees grant the claim, and its save returns. -/
theorem consume_some_iff {claim : PreauthClaim} (h : reloadThrows w = false) :
    (consumePreauth io now key w).1 = .ok (some claim) ↔
      claimOf now key (keysSeen w) = some claim ∧
        saves io { w.store with keys := markUsed key (keysSeen w) } = true := by
  rw [consume_result h]
  cases hc : claimOf now key (keysSeen w) with
  | none => simp
  | some claim' =>
    have heta := (Prod.mk.eta (p := commit io w { w.store with keys := markUsed key (keysSeen w) }
      (some claim'))).symm
    simp only
    cases hs : saves io { w.store with keys := markUsed key (keysSeen w) } with
    | true =>
      rw [commit_saves heta hs]
      simp
    | false =>
      obtain ⟨e, he⟩ := commit_throws heta hs
      rw [he]
      simp

theorem consume_none_iff (h : reloadThrows w = false) :
    (consumePreauth io now key w).1 = .ok none ↔ claimOf now key (keysSeen w) = none := by
  rw [consume_result h]
  cases hc : claimOf now key (keysSeen w) with
  | none => simp
  | some claim =>
    have heta := (Prod.mk.eta (p := commit io w { w.store with keys := markUsed key (keysSeen w) }
      (some claim))).symm
    simp only
    rcases (commit_cases heta).2.1 with hr | ⟨e, hr⟩
    · rw [hr]
      simp
    · rw [hr]
      simp

/-- A reload that throws ends the call. -/
theorem consume_throws (io : SaveIo) (now : Int) (key : Bytes) (h : reloadThrows w = true) :
    ∃ e, (consumePreauth io now key w).1 = .error e := by
  have hok := (reload_eq w).2
  rw [consumePreauth_eq]
  rcases hr : reloadKeysFromDisk w with ⟨e | u, w'⟩
  · exact ⟨e, rfl⟩
  · rw [hr, h] at hok
    exact absurd (hok.mp rfl) (by decide)

/-- A call that returns `true` has saved. -/
theorem consume_true {claim : PreauthClaim} (h : (consumePreauth io now key w).1 = .ok (some claim)) :
    io.passes w.store = true := by
  cases ht : reloadThrows w with
  | true =>
    obtain ⟨e, he⟩ := consume_throws io now key ht
    rw [he] at h
    cases h
  | false => exact ((saves_iff _ _).mp ((consume_some_iff ht).mp h).2).1

end Call

/-! ## 3. The key from call to call -/

/-- The expiry of an entry has not passed. -/
def PreauthKey.lasts (k : PreauthKey) (now : Int) : Bool :=
  decide (k.expiresUnix = 0 ∨ now ≤ k.expiresUnix)

/-- The keys are those of `s`, and the first entry for the key `k` is `k` with its expiry whole or
    cut, and with the mark of a one-shot key that was spent. -/
structure Lists (s : Store) (k : PreauthKey) (spent : Bool) (keys : List PreauthKey) : Prop where
  bare : keys.map (·.bare) = s.keys.map (·.bare)
  entry : ∃ k', keys.find? (·.key = k.key) = some k' ∧ k'.bare = k.bare ∧
    (k'.expiresUnix = k.expiresUnix ∨ k'.expiresUnix = Json.toInt32 k.expiresUnix) ∧
    (k.reusable = false → k'.used = spent)

/-- **The invariant of a sequence of calls** for the key `k`, made in the store `s`. -/
structure Trail (s : Store) (k : PreauthKey) (spent : Bool) (w : World) : Prop where
  store : w.store = { s with keys := w.store.keys }
  memory : Lists s k spent w.store.keys
  image : ∀ ks, readImage w = some ks →
    ∃ keys, ks = .arr (keys.map keyToJson) ∧ Lists s k spent keys

section Trail

variable {s : Store} {k : PreauthKey} {spent : Bool} {keys : List PreauthKey} {w : World} {io : SaveIo}
  {now : Int}

theorem toInt32_twice (n : Int) : Json.toInt32 (Json.toInt32 n) = Json.toInt32 n := Int.bmod_bmod

theorem Lists.cut (h : Lists s k spent keys) : Lists s k spent (keys.map cutKey) := by
  obtain ⟨k', hk', hbare, hexp, hused⟩ := h.entry
  refine ⟨?_, cutKey k', ?_, hbare, ?_, hused⟩
  · rw [List.map_map, ← h.bare]
    exact List.map_congr_left fun _ _ => rfl
  · rw [List.find?_map]
    show (keys.find? (·.key = k.key)).map cutKey = some (cutKey k')
    rw [hk']
    rfl
  · right
    show Json.toInt32 k'.expiresUnix = Json.toInt32 k.expiresUnix
    rcases hexp with hexp | hexp
    · rw [hexp]
    · rw [hexp, toInt32_twice]

theorem Lists.mark (h : Lists s k spent keys) : Lists s k true (markUsed k.key keys) := by
  obtain ⟨k', hk', hbare, hexp, _⟩ := h.entry
  refine ⟨?_, { k' with used := true }, ?_, hbare, hexp, fun _ => rfl⟩
  · exact (markUsed_bare k.key keys).trans h.bare
  · rw [find?_markUsed_self, hk']
    rfl

/-- What a call sees. -/
theorem Trail.seen (h : Trail s k spent w) :
    reloadThrows w = false ∧ Lists s k spent (keysSeen w) := by
  unfold reloadThrows keysSeen
  cases hi : readImage w with
  | none => exact ⟨rfl, h.memory⟩
  | some ks =>
    obtain ⟨keys, rfl, hlists⟩ := h.image ks hi
    simp only [pushKeys_dump]
    exact ⟨rfl, hlists.cut⟩

/-- A key that is listed is granted exactly while it is open and may be spent. -/
theorem Lists.claimOf (now : Int) (h : Lists s k spent keys) {k' : PreauthKey}
    (hk' : keys.find? (·.key = k.key) = some k') :
    claimOf now k.key keys =
      if k'.lasts now = true ∧ (k.reusable = true ∨ spent = false) then some k.claim else none := by
  obtain ⟨k₁, hk₁, hbare, _, hused⟩ := h.entry
  obtain rfl : k₁ = k' := Option.some.inj (hk₁.symm.trans hk')
  have hreusable : k₁.bare.reusable = k.bare.reusable := by rw [hbare]
  have hclaim : k₁.bare.claim = k.bare.claim := by rw [hbare]
  have hopen : k₁.lasts now = true ↔ ¬ (k₁.expiresUnix ≠ 0 ∧ now > k₁.expiresUnix) := by
    unfold PreauthKey.lasts
    rw [decide_eq_true_eq]
    omega
  have hspend : (k₁.reusable = true ∨ k₁.used = false) ↔ (k.reusable = true ∨ spent = false) := by
    rw [show k₁.reusable = k.reusable from hreusable]
    cases hr : k.reusable with
    | true => simp
    | false => rw [hused hr]
  by_cases hyes : k₁.lasts now = true ∧ (k.reusable = true ∨ spent = false)
  · rw [if_pos hyes]
    exact claimOf_some.mpr ⟨k₁, hk', hopen.mp hyes.1, hspend.mpr hyes.2, hclaim⟩
  · rw [if_neg hyes]
    cases hc : Wirebone.claimOf now k.key keys with
    | none => rfl
    | some claim =>
      obtain ⟨k₂, hk₂, hexp, hsp, _⟩ := claimOf_some.mp hc
      obtain rfl : k₁ = k₂ := Option.some.inj (hk₁.symm.trans hk₂)
      exact absurd ⟨hopen.mpr hexp, hspend.mp hsp⟩ hyes

/-- The file after a call that has saved `t`. -/
theorem readImage_saved (io : SaveIo) {t : Store} {w : World} (hstore : w.store = t)
    (hfile : t.path ≠ [] → w.file = some (io.text (snapshotLocked t))) :
    readImage w = if t.path ≠ [] ∧ io.stored = .whole then some (.arr (t.keys.map keyToJson)) else none := by
  unfold readImage
  rw [hstore]
  by_cases hp : t.path = []
  · rw [if_pos hp, if_neg (fun h => h.1 hp)]
  · rw [if_neg hp, hfile hp]
    unfold SaveIo.text
    cases hs : io.stored with
    | whole => simp [hp]; rfl
    | part => simp
    | nothing => simp

/-- **A call whose save returns**: what it answers, and the trail after it. -/
theorem trail_call (now : Int) (h : Trail s k spent w) (hd : Dumpable s) (hp : io.passes s = true) :
    ∃ k', (keysSeen w).find? (·.key = k.key) = some k' ∧
      ((k'.lasts now = true ∧ (k.reusable = true ∨ spent = false)) ∧
          (consumePreauth io now k.key w).1 = .ok (some k.claim) ∧
          Trail s k true (consumePreauth io now k.key w).2 ∧
          readImage (consumePreauth io now k.key w).2 =
            (if s.path ≠ [] ∧ io.stored = .whole then
              some (.arr ((markUsed k.key (keysSeen w)).map keyToJson)) else none) ∧
          (consumePreauth io now k.key w).2.store.keys = markUsed k.key (keysSeen w) ∨
        ¬ (k'.lasts now = true ∧ (k.reusable = true ∨ spent = false)) ∧
          (consumePreauth io now k.key w).1 = .ok none ∧
          Trail s k spent (consumePreauth io now k.key w).2 ∧
          readImage (consumePreauth io now k.key w).2 = readImage w ∧
          (consumePreauth io now k.key w).2.store.keys = keysSeen w) := by
  obtain ⟨hreload, hseen⟩ := h.seen
  obtain ⟨k', hk', _⟩ := hseen.entry
  refine ⟨k', hk', ?_⟩
  have hclaim := hseen.claimOf now hk'
  rw [consume_result hreload]
  by_cases hyes : k'.lasts now = true ∧ (k.reusable = true ∨ spent = false)
  · rw [if_pos hyes] at hclaim
    left
    simp only [hclaim]
    have hstore : { w.store with keys := markUsed k.key (keysSeen w) } =
        { s with keys := markUsed k.key (keysSeen w) } := by rw [h.store]
    rw [hstore]
    rcases hc : commit io w { s with keys := markUsed k.key (keysSeen w) } (some k.claim) with ⟨r, w'⟩
    have hsaves : saves io { s with keys := markUsed k.key (keysSeen w) } = true :=
      (saves_iff _ _).mpr ⟨hp, dumpable_keys hseen.mark.bare hd⟩
    obtain ⟨hw', _, _, hfile⟩ := commit_cases hc
    have hr := commit_saves hc hsaves
    have himage := readImage_saved io hw' (hfile _ hr)
    refine ⟨hyes, hr, ⟨?_, ?_, ?_⟩, himage, by rw [hw']⟩
    · rw [hw']
    · rw [hw']
      exact hseen.mark
    · intro ks hks
      rw [himage] at hks
      split at hks
      · exact ⟨_, (Option.some.inj hks).symm, hseen.mark⟩
      · cases hks
  · rw [if_neg hyes] at hclaim
    right
    simp only [hclaim]
    have hfile : readImage { w with store := { w.store with keys := keysSeen w } } = readImage w := rfl
    refine ⟨hyes, trivial, ⟨?_, hseen, ?_⟩, hfile, trivial⟩
    · show { w.store with keys := keysSeen w } = { s with keys := keysSeen w }
      rw [h.store]
    · intro ks hks
      exact h.image ks (hfile ▸ hks)

end Trail

/-! ## 4. The expiry law -/

/-- `consume_preauth` has returned `true`. -/
def accepted : Except Exn (Option PreauthClaim) → Bool
  | .ok (some _) => true
  | _ => false

/-- The world after `n` calls of `consume_preauth`, and whether one of them has returned `true`. -/
def attempts (key : Bytes) (times : Nat → Int) (ios : Nat → SaveIo) (w : World) : Nat → World × Bool
  | 0 => (w, false)
  | n + 1 =>
    let before := attempts key times ios w n
    let r := consumePreauth (ios n) (times n) key before.1
    (r.2, before.2 || accepted r.1)

/-- What call number `n` returns. -/
def attempt (key : Bytes) (times : Nat → Int) (ios : Nat → SaveIo) (w : World) (n : Nat) :
    Except Exn (Option PreauthClaim) :=
  (consumePreauth (ios n) (times n) key (attempts key times ios w n).1).1

/-- **The law for call `n`**: it returns `true` exactly while the key has not expired at
    `expires`, and is reusable or not consumed yet; and then with the claim of the key. -/
structure LawAt (key : Bytes) (reusable : Bool) (expires : Int) (claim : PreauthClaim)
    (times : Nat → Int) (ios : Nat → SaveIo) (w : World) (n : Nat) : Prop where
  accepted : (∃ c, attempt key times ios w n = .ok (some c)) ↔
    times n ≤ expires ∧ (reusable = true ∨ (attempts key times ios w n).2 = false)
  granted : ∀ c, attempt key times ios w n = .ok (some c) → c = claim

/-- **The condition**: the expiry is not the 0 that means none; there is no file, or an `int` holds
    the expiry, or no text with the key unspent in it is ever stored whole; and no save throws. -/
structure ExpiryKept (s : Store) (reusable : Bool) (expires : Int) (io : SaveIo) (ios : Nat → SaveIo) :
    Prop where
  nonzero : expires ≠ 0
  survives : s.path = [] ∨ intFits expires = true ∨
    (io.stored ≠ .whole ∧ (reusable = true → ∀ n, (ios n).stored ≠ .whole))
  saves : ∀ n, (ios n).passes s = true

section Law

variable {s : Store} {k : PreauthKey} {times : Nat → Int} {ios : Nat → SaveIo} {w : World} {io : SaveIo}

theorem attempts_store (key : Bytes) (times : Nat → Int) (ios : Nat → SaveIo) (w : World) (n : Nat) :
    ∃ keys, (attempts key times ios w n).1.store = { w.store with keys := keys } := by
  induction n with
  | zero => exact ⟨w.store.keys, rfl⟩
  | succ n ih =>
    obtain ⟨keys, hkeys⟩ := ih
    obtain ⟨keys', hkeys'⟩ := consume_store (ios n) (times n) key (attempts key times ios w n).1
    rw [hkeys] at hkeys'
    exact ⟨keys', hkeys'⟩

/-- A call that returns `true` has saved, whatever came before it. -/
theorem passes_of_attempt {key : Bytes} {n : Nat} {c : PreauthClaim}
    (h : attempt key times ios w n = .ok (some c)) : (ios n).passes w.store = true := by
  obtain ⟨keys, hkeys⟩ := attempts_store key times ios w n
  have hp := consume_true h
  rw [hkeys] at hp
  exact hp

/-- Until a call has returned `true`, the key is not consumed. -/
theorem attempts_unspent {key : Bytes} {n : Nat} (times : Nat → Int) (ios : Nat → SaveIo)
    (h : ∀ i < n, ∀ c, attempt key times ios w i ≠ .ok (some c)) :
    (attempts key times ios w n).2 = false := by
  induction n with
  | zero => rfl
  | succ n ih =>
    have hspent := ih fun i hi => h i (Nat.lt_succ_of_lt hi)
    have hn := h n (Nat.lt_succ_self n)
    show ((attempts key times ios w n).2 || accepted (attempt key times ios w n)) = false
    rw [hspent, Bool.false_or]
    rcases hr : attempt key times ios w n with e | _ | c
    · rfl
    · rfl
    · exact absurd hr (hn c)

/-- **The trail of a whole sequence of calls** whose saves return. -/
theorem trail_attempts (times : Nat → Int) (h : Trail s k false w) (hd : Dumpable s)
    (hp : ∀ n, (ios n).passes s = true) (n : Nat) :
    Trail s k (attempts k.key times ios w n).2 (attempts k.key times ios w n).1 := by
  induction n with
  | zero => exact h
  | succ n ih =>
    obtain ⟨k', _, hcall⟩ := trail_call (times n) ih hd (hp n)
    rw [attempts]
    rcases hcall with ⟨_, hr, htrail, _⟩ | ⟨_, hr, htrail, _⟩
    · rw [hr, show accepted (.ok (some k.claim)) = true from rfl, Bool.or_true]
      exact htrail
    · rw [hr, show accepted (.ok none) = false from rfl, Bool.or_false]
      exact htrail

/-- Call `n` in terms of the entry it sees. -/
theorem attempt_eq (times : Nat → Int) (h : Trail s k false w) (hd : Dumpable s)
    (hp : ∀ n, (ios n).passes s = true) (n : Nat) :
    ∃ k', (keysSeen (attempts k.key times ios w n).1).find? (·.key = k.key) = some k' ∧
      attempt k.key times ios w n =
        .ok (if k'.lasts (times n) = true ∧
          (k.reusable = true ∨ (attempts k.key times ios w n).2 = false) then some k.claim else none) := by
  obtain ⟨k', hk', hcall⟩ := trail_call (times n) (trail_attempts times h hd hp n) hd (hp n)
  refine ⟨k', hk', ?_⟩
  rcases hcall with ⟨hyes, hr, _⟩ | ⟨hno, hr, _⟩
  · rw [if_pos hyes]
    exact hr
  · rw [if_neg hno]
    exact hr

/-- **A call that sees the expiry whole** keeps the law, and so does one that finds the key spent. -/
theorem lawAt_of_seen {k' : PreauthKey} {n : Nat}
    (hr : attempt k.key times ios w n =
      .ok (if k'.lasts (times n) = true ∧
        (k.reusable = true ∨ (attempts k.key times ios w n).2 = false) then some k.claim else none))
    (hexp : k'.expiresUnix = k.expiresUnix ∨
      (k.reusable = false ∧ (attempts k.key times ios w n).2 = true))
    (hne : k.expiresUnix ≠ 0) :
    LawAt k.key k.reusable k.expiresUnix k.claim times ios w n := by
  have hlasts : k'.expiresUnix = k.expiresUnix → (k'.lasts (times n) = true ↔ times n ≤ k.expiresUnix) := by
    intro heq
    unfold PreauthKey.lasts
    rw [decide_eq_true_eq, heq]
    exact ⟨fun h => h.resolve_left hne, .inr⟩
  have hiff : k'.lasts (times n) = true ∧
        (k.reusable = true ∨ (attempts k.key times ios w n).2 = false) ↔
      times n ≤ k.expiresUnix ∧ (k.reusable = true ∨ (attempts k.key times ios w n).2 = false) := by
    rcases hexp with heq | ⟨hreusable, hspent⟩
    · rw [hlasts heq]
    · simp [hreusable, hspent]
  by_cases hyes : k'.lasts (times n) = true ∧
      (k.reusable = true ∨ (attempts k.key times ios w n).2 = false)
  · rw [if_pos hyes] at hr
    refine ⟨⟨fun _ => hiff.mp hyes, fun _ => ⟨_, hr⟩⟩, fun c hc => ?_⟩
    exact (Option.some.inj (Except.ok.inj (hr.symm.trans hc))).symm
  · rw [if_neg hyes] at hr
    refine ⟨⟨?_, fun h => absurd (hiff.mpr h) hyes⟩, fun c hc => ?_⟩
    · rintro ⟨c, hc⟩
      rw [hr] at hc
      cases hc
    · rw [hr] at hc
      cases hc

/-- A call that reads the key from the file sees its expiry cut. -/
theorem seen_of_image {spent : Bool} (h : Trail s k spent w) {ks : Json} (hi : readImage w = some ks)
    {k' : PreauthKey} (hk' : (keysSeen w).find? (·.key = k.key) = some k') :
    k'.expiresUnix = Json.toInt32 k.expiresUnix := by
  obtain ⟨keys, rfl, hlists⟩ := h.image ks hi
  obtain ⟨k₁, hk₁, _, hexp, _⟩ := hlists.entry
  have hseen : keysSeen w = keys.map cutKey := by
    unfold keysSeen
    rw [hi]
    simp only [pushKeys_dump]
  rw [hseen, List.find?_map] at hk'
  have hcut : (keys.find? (·.key = k.key)).map cutKey = some k' := hk'
  rw [hk₁] at hcut
  cases hcut
  show Json.toInt32 k₁.expiresUnix = Json.toInt32 k.expiresUnix
  rcases hexp with hexp | hexp
  · rw [hexp]
  · rw [hexp, toInt32_twice]

/-- No text lists the key, and memory has its expiry whole. -/
def Unread (k : PreauthKey) (w : World) : Prop :=
  readImage w = none ∧ ∀ k', w.store.keys.find? (·.key = k.key) = some k' → k'.expiresUnix = k.expiresUnix

/-- Where no text is stored whole, the key stays unread as long as it can be spent. -/
theorem unread_attempts (times : Nat → Int) (h : Trail s k false w) (hu : Unread k w) (hd : Dumpable s)
    (hp : ∀ n, (ios n).passes s = true)
    (hstored : s.path = [] ∨ (k.reusable = true → ∀ n, (ios n).stored ≠ .whole)) (n : Nat) :
    (k.reusable = false ∧ (attempts k.key times ios w n).2 = true) ∨
      Unread k (attempts k.key times ios w n).1 := by
  induction n with
  | zero => exact .inr hu
  | succ n ih =>
    have htrail := trail_attempts times h hd hp n
    rcases ih with ⟨hreusable, hspent⟩ | hunread
    · left
      refine ⟨hreusable, ?_⟩
      rw [attempts, hspent, Bool.true_or]
    · obtain ⟨k', _, hcall⟩ := trail_call (times n) htrail hd (hp n)
      have hseen : keysSeen (attempts k.key times ios w n).1 =
          (attempts k.key times ios w n).1.store.keys := by
        unfold keysSeen
        rw [hunread.1]
      rw [hseen] at hcall
      rcases hcall with ⟨_, hr, _, himage, hkeys⟩ | ⟨_, hr, _, himage, hkeys⟩
      · -- the mark is set; of a one-shot key no more is asked
        cases hreusable : k.reusable with
        | false =>
          left
          refine ⟨rfl, ?_⟩
          rw [attempts, hr, show accepted (.ok (some k.claim)) = true from rfl, Bool.or_true]
        | true =>
          right
          rw [attempts]
          refine ⟨?_, fun k₁ hk₁ => ?_⟩
          · rw [himage]
            rcases hstored with hpath | hwhole
            · rw [if_neg fun hc => hc.1 hpath]
            · rw [if_neg fun hc => hwhole hreusable n hc.2]
          · rw [hkeys, find?_markUsed_self] at hk₁
            obtain ⟨k₂, hk₂, rfl⟩ := Option.map_eq_some_iff.mp hk₁
            exact hunread.2 k₂ hk₂
      · right
        rw [attempts]
        refine ⟨himage.trans hunread.1, fun k₁ hk₁ => ?_⟩
        rw [hkeys] at hk₁
        exact hunread.2 k₁ hk₁

/-- The key as its creation leaves it: unused at the end of the list, and in the file where the text
    was stored whole. -/
structure Created (s : Store) (k : PreauthKey) (io : SaveIo) (w : World) : Prop where
  trail : Trail s k false w
  dumpable : Dumpable s
  memory : w.store.keys.find? (·.key = k.key) = some k
  image : readImage w =
    if s.path ≠ [] ∧ io.stored = .whole then some (.arr (s.keys.map keyToJson)) else none

/-- The law under the condition. -/
theorem law_of_kept (h : Created s k io w) (hkept : ExpiryKept s k.reusable k.expiresUnix io ios)
    (times : Nat → Int) (n : Nat) :
    LawAt k.key k.reusable k.expiresUnix k.claim times ios w n := by
  obtain ⟨k', hk', hr⟩ := attempt_eq times h.trail h.dumpable hkept.saves n
  have htrail := trail_attempts times h.trail h.dumpable hkept.saves n
  refine lawAt_of_seen hr ?_ hkept.nonzero
  -- no file, or a text that is never stored whole
  have hout : (s.path = [] ∨ (io.stored ≠ .whole ∧ (k.reusable = true → ∀ n, (ios n).stored ≠ .whole))) →
      k'.expiresUnix = k.expiresUnix ∨
        (k.reusable = false ∧ (attempts k.key times ios w n).2 = true) := by
    intro hout
    have hnone : readImage w = none := by
      rw [h.image, if_neg]
      rcases hout with hpath | hio
      · exact fun hc => hc.1 hpath
      · exact fun hc => hio.1 hc.2
    have hunread : Unread k w := by
      refine ⟨hnone, fun k₁ hk₁ => ?_⟩
      rw [h.memory] at hk₁
      rw [← Option.some.inj hk₁]
    have hstored : s.path = [] ∨ (k.reusable = true → ∀ n, (ios n).stored ≠ .whole) := hout.imp_right (·.2)
    rcases unread_attempts times h.trail hunread h.dumpable hkept.saves hstored n with
      hspent | ⟨himage, hmem⟩
    · exact .inr hspent
    · left
      unfold keysSeen at hk'
      rw [himage] at hk'
      exact hmem k' hk'
  rcases hkept.survives with hpath | hfits | hio
  · exact hout (.inl hpath)
  · left
    obtain ⟨_, hk₁, _, hexp, _⟩ := htrail.seen.2.entry
    cases hk'.symm.trans hk₁
    rcases hexp with hexp | hexp
    · exact hexp
    · rw [hexp, (toInt32_eq_iff _).mpr hfits]
  · exact hout (.inr hio)

/-- The times at which the law fails for a cut expiry: one more than the expiry where the cut one
    is 0, the later of the two otherwise. -/
def telling (expires : Int) : Int :=
  if Json.toInt32 expires = 0 then expires + 1 else max expires (Json.toInt32 expires)

theorem le_telling (expires : Int) : expires ≤ telling expires := by
  unfold telling
  split
  · omega
  · exact le_max_left _ _

/-- At that time a call that sees a cut expiry breaks the law. -/
theorem not_lawAt_cut {k' : PreauthKey} {n : Nat}
    (hr : attempt k.key times ios w n =
      .ok (if k'.lasts (times n) = true ∧
        (k.reusable = true ∨ (attempts k.key times ios w n).2 = false) then some k.claim else none))
    (hspend : k.reusable = true ∨ (attempts k.key times ios w n).2 = false)
    (hexp : k'.expiresUnix = Json.toInt32 k.expiresUnix)
    (hcut : Json.toInt32 k.expiresUnix ≠ k.expiresUnix) (htime : times n = telling k.expiresUnix) :
    ¬ LawAt k.key k.reusable k.expiresUnix k.claim times ios w n := by
  intro hlaw
  have hiff : k'.lasts (times n) = true ↔ times n ≤ k.expiresUnix := by
    have hacc := hlaw.accepted
    rw [hr] at hacc
    constructor
    · intro hl
      rw [if_pos ⟨hl, hspend⟩] at hacc
      exact (hacc.mp ⟨_, rfl⟩).1
    · intro hle
      obtain ⟨c, hc⟩ := hacc.mpr ⟨hle, hspend⟩
      by_contra hl
      rw [if_neg fun h => hl h.1] at hc
      cases hc
  unfold PreauthKey.lasts at hiff
  rw [decide_eq_true_eq, hexp, htime] at hiff
  unfold telling at hiff
  split at hiff
  · omega
  · rename_i hne
    rcases lt_or_gt_of_ne hcut with hlt | hgt
    · rw [max_eq_left (le_of_lt hlt)] at hiff
      omega
    · rw [max_eq_right (le_of_lt hgt)] at hiff
      omega

/-- A save that throws breaks the law: all calls but that one come too late, so the law asks it to
    return `true`. -/
theorem passes_of_law {t₀ : Int} (h : Created s k io w) (ht₀ : t₀ < k.expiresUnix)
    (hlaw : ∀ times : Nat → Int, (∀ n, t₀ ≤ times n) → ∀ n,
      LawAt k.key k.reusable k.expiresUnix k.claim times ios w n) (n : Nat) :
    (ios n).passes s = true := by
  have htimes : ∀ i, t₀ ≤ (fun i => if i = n then t₀ else k.expiresUnix + 1) i := by
    intro i
    show t₀ ≤ if i = n then t₀ else k.expiresUnix + 1
    split <;> omega
  have hl := hlaw _ htimes
  have hunspent := attempts_unspent (n := n) (fun i => if i = n then t₀ else k.expiresUnix + 1) ios (by
      intro i hi c hc
      have hle := ((hl i).accepted.mp ⟨c, hc⟩).1
      rw [if_neg (by omega : ¬ i = n)] at hle
      omega)
  obtain ⟨c, hc⟩ := (hl n).accepted.mpr ⟨by rw [if_pos rfl]; omega, .inr hunspent⟩
  have hp := passes_of_attempt hc
  rw [h.trail.store] at hp
  exact hp

/-- The condition from the law. -/
theorem kept_of_law {t₀ : Int} (h : Created s k io w) (ht₀ : t₀ < k.expiresUnix)
    (hlaw : ∀ times : Nat → Int, (∀ n, t₀ ≤ times n) → ∀ n,
      LawAt k.key k.reusable k.expiresUnix k.claim times ios w n) :
    ExpiryKept s k.reusable k.expiresUnix io ios := by
  have hpasses := passes_of_law h ht₀ hlaw
  refine ⟨fun hzero => ?_, ?_, hpasses⟩
  · -- the expiry 0: the key lasts for ever
    have hl := hlaw (fun _ => 1) (fun _ => by omega) 0
    obtain ⟨k', hk', hr⟩ := attempt_eq (fun _ => 1) h.trail h.dumpable hpasses 0
    obtain ⟨_, hk₁, _, hexp, _⟩ := h.trail.seen.2.entry
    cases hk'.symm.trans hk₁
    have hexp0 : k'.expiresUnix = 0 := by
      rw [hzero] at hexp
      exact hexp.elim id id
    have hlasts : k'.lasts 1 = true := by simp [PreauthKey.lasts, hexp0]
    rw [if_pos ⟨hlasts, .inr rfl⟩] at hr
    have hle := (hl.accepted.mp ⟨_, hr⟩).1
    omega
  · by_contra hno
    obtain ⟨hpath, hno⟩ := not_or.mp hno
    obtain ⟨hfits, hno⟩ := not_or.mp hno
    have hcut : Json.toInt32 k.expiresUnix ≠ k.expiresUnix := fun e => hfits ((toInt32_eq_iff _).mp e)
    -- a call that reads a text with the key unspent in it
    have hread : ∀ N, ∀ times : Nat → Int, (∀ n, t₀ ≤ times n) → times N = telling k.expiresUnix →
        (k.reusable = true ∨ (attempts k.key times ios w N).2 = false) →
        (∃ ks, readImage (attempts k.key times ios w N).1 = some ks) → False := by
      rintro N times htimes htime hspend ⟨ks, hks⟩
      obtain ⟨k', hk', hr⟩ := attempt_eq times h.trail h.dumpable hpasses N
      have hexp := seen_of_image (trail_attempts times h.trail h.dumpable hpasses N) hks hk'
      exact not_lawAt_cut hr hspend hexp hcut htime (hlaw times htimes N)
    have htell := le_telling k.expiresUnix
    by_cases hwhole : io.stored = .whole
    · have hfile : readImage w = some (.arr (s.keys.map keyToJson)) := by
        rw [h.image, if_pos ⟨hpath, hwhole⟩]
      exact hread 0 (fun _ => telling k.expiresUnix) (fun _ => by omega) rfl (.inr rfl) ⟨_, hfile⟩
    · obtain ⟨hreusable, n, hn⟩ : k.reusable = true ∧ ∃ n, (ios n).stored = .whole := by
        by_contra hall
        refine hno ⟨hwhole, fun hreusable n hn => hall ⟨hreusable, n, hn⟩⟩
      obtain ⟨times, hlast, hfirst, htimes⟩ : ∃ times : Nat → Int,
          times (n + 1) = telling k.expiresUnix ∧ times n = t₀ ∧ ∀ i, t₀ ≤ times i := by
        refine ⟨fun i => if i = n + 1 then telling k.expiresUnix else t₀, if_pos rfl, if_neg (by omega), ?_⟩
        intro i
        show t₀ ≤ if i = n + 1 then telling k.expiresUnix else t₀
        split <;> omega
      refine hread (n + 1) times htimes hlast (.inl hreusable) ?_
      -- call `n` is in time, so it returns `true` and has saved the key
      obtain ⟨c, hc⟩ := (hlaw times htimes n).accepted.mpr ⟨by omega, .inl hreusable⟩
      obtain ⟨k', _, hcall⟩ := trail_call (times n)
        (trail_attempts times h.trail h.dumpable hpasses n) h.dumpable (hpasses n)
      rcases hcall with ⟨_, _, _, himage, _⟩ | ⟨_, hr, _⟩
      · rw [if_pos ⟨hpath, hn⟩] at himage
        exact ⟨_, himage⟩
      · rw [attempt, hr] at hc
        cases hc

/-- What `create_preauth_key` leaves, if the random token is new. -/
theorem created_of_create {t₀ e : Int} {raw : Bytes32} {reusable ephemeral : Bool} {token K : Bytes}
    {shared : Option Bool} {w' : World} (hnew : ∀ k ∈ w.store.keys, k.key ≠ randomToken raw)
    (hc : createPreauthKey io t₀ raw reusable ephemeral e token shared w = (.ok K, w')) :
    K = randomToken raw ∧
      Created { w.store with keys := w.store.keys ++ [createdKey t₀ raw reusable ephemeral e token shared] }
        (createdKey t₀ raw reusable ephemeral e token shared) io w' := by
  set k := createdKey t₀ raw reusable ephemeral e token shared with hk
  have hcommit : commit io w { w.store with keys := w.store.keys ++ [k] } k.key = (.ok K, w') := hc
  obtain ⟨hstore, hret, _, hfile⟩ := commit_cases hcommit
  have hK : K = k.key := by
    rcases hret with hret | ⟨e, hret⟩
    · exact Except.ok.inj hret
    · cases hret
  have hfind : (w.store.keys ++ [k]).find? (·.key = k.key) = some k := by
    have hnone : w.store.keys.find? (·.key = k.key) = none :=
      List.find?_eq_none.mpr fun x hx => by simpa [hk, createdKey] using hnew x hx
    rw [List.find?_append, hnone]
    simp
  have hdump : Dumpable { w.store with keys := w.store.keys ++ [k] } := by
    cases hs : saves io { w.store with keys := w.store.keys ++ [k] } with
    | true => exact ((saves_iff _ _).mp hs).2
    | false =>
      obtain ⟨e, he⟩ := commit_throws hcommit hs
      cases he
  have himage := readImage_saved io hstore (hfile K rfl)
  have hlists : Lists { w.store with keys := w.store.keys ++ [k] } k false (w.store.keys ++ [k]) :=
    ⟨rfl, k, hfind, rfl, .inl rfl, fun _ => rfl⟩
  refine ⟨hK, ⟨?_, ?_, ?_⟩, hdump, ?_, himage⟩
  · rw [hstore]
  · rw [hstore]
    exact hlists
  · intro ks hks
    rw [himage] at hks
    split at hks
    · exact ⟨_, (Option.some.inj hks).symm, hlists⟩
    · cases hks
  · rw [hstore]
    exact hfind

end Law

/-- **The expiry law.** A key made at `t₀` for `e` seconds is accepted by every later sequence of
    `consume_preauth` calls exactly until `t₀ + e`, with its claim, and once if it is not reusable,
    exactly if the condition holds. (`t₀ + e` does not overflow; `hnew`: the random token is new.) -/
theorem expiry_law_iff (w w' : World) (io : SaveIo) (t₀ e : Int) (he : 0 < e) (raw : Bytes32)
    (reusable ephemeral : Bool) (token K : Bytes) (shared : Option Bool) (ios : Nat → SaveIo)
    (hnew : ∀ k ∈ w.store.keys, k.key ≠ randomToken raw)
    (hc : createPreauthKey io t₀ raw reusable ephemeral e token shared w = (.ok K, w')) :
    (∀ times : Nat → Int, (∀ n, t₀ ≤ times n) → ∀ n,
      LawAt K reusable (t₀ + e) { ephemeral, token, shared := resolveShared token shared } times ios w' n) ↔
      ExpiryKept w.store reusable (t₀ + e) io ios := by
  obtain ⟨rfl, hcreated⟩ := created_of_create hnew hc
  have hexp : (createdKey t₀ raw reusable ephemeral e token shared).expiresUnix = t₀ + e := if_pos he
  have hkept : ExpiryKept w.store reusable (t₀ + e) io ios ↔
      ExpiryKept { w.store with keys := w.store.keys ++ [createdKey t₀ raw reusable ephemeral e token shared] }
        reusable (t₀ + e) io ios :=
    ⟨fun h => ⟨h.nonzero, h.survives, h.saves⟩, fun h => ⟨h.nonzero, h.survives, h.saves⟩⟩
  rw [hkept, ← hexp]
  constructor
  · intro hlaw
    exact kept_of_law hcreated (by rw [hexp]; omega) hlaw
  · intro hk times _ n
    exact law_of_kept hcreated hk times n

/-- An empty store with a file. -/
def emptyWorld : World := { store := { path := ascii "state.json", alloc := pool16 }, file := none }

/-- A key made in September 2026, for an hour or for more than twelve years. -/
def keyFor (seconds : Int) : Except Exn Bytes × World :=
  createPreauthKey {} 1790000000 (bytes32 [1]) true false seconds [] none emptyWorld

/-- The key for twelve years is refused at once: its expiry, beyond 2038, is read back as a negative
    number. -/
theorem expiry_refused :
    (keyFor 400000000).1 = .ok (randomToken (bytes32 [1])) ∧
      (consumePreauth {} 1790000000 (randomToken (bytes32 [1])) (keyFor 400000000).2).1 = .ok none ∧
      ¬ LawAt (randomToken (bytes32 [1])) true (1790000000 + 400000000)
        { ephemeral := false, token := [], shared := resolveShared [] none } (fun _ => 1790000000)
        (fun _ => {}) (keyFor 400000000).2 0 := by
  have hrefused : (consumePreauth {} 1790000000 (randomToken (bytes32 [1])) (keyFor 400000000).2).1 =
      .ok none := by decide +kernel
  refine ⟨rfl, hrefused, fun h => ?_⟩
  obtain ⟨c, hc⟩ := h.accepted.mpr ⟨by omega, .inl rfl⟩
  cases hrefused.symm.trans hc

/-- The key for an hour is accepted in that hour, and no longer. -/
theorem expiry_law_hour :
    (consumePreauth {} 1790003600 (randomToken (bytes32 [1])) (keyFor 3600).2).1 =
        .ok (some { ephemeral := false, token := [], shared := true }) ∧
      ∀ times : Nat → Int, (∀ n, 1790000000 ≤ times n) → ∀ n,
        LawAt (randomToken (bytes32 [1])) true (1790000000 + 3600)
          { ephemeral := false, token := [], shared := resolveShared [] none } times (fun _ => {})
          (keyFor 3600).2 n := by
  refine ⟨by decide +kernel, ?_⟩
  refine (expiry_law_iff emptyWorld (keyFor 3600).2 {} 1790000000 3600 (by decide) (bytes32 [1]) true false
    [] (randomToken (bytes32 [1])) none (fun _ => {}) (fun k hk => by cases hk) rfl).mpr ?_
  exact ⟨by decide, .inr (.inl (by decide)), fun _ => rfl⟩

end Wirebone
