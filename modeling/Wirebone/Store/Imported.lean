/-
  File:      Wirebone/Store/Imported.lean
  Subject:   WHETHER IMPORTED KEYS ARE HONOURED.

  `load_json` changes memory only; `consume_preauth` first takes the key list of the file.

  * `Offers` -- a key of the text that is unexpired and unspent, by what stands in the text;
  * `Honoured` -- the keys that a text offers are accepted with their claims, others refused;
  * `filesAgree` -- the condition: no file, or no list in it, and expiries that an `int` holds; or a
    list that agrees with the text;
  * **`imported_honoured_iff`** -- the keys are honoured exactly then.
-/
import Mathlib.Data.Fintype.EquivFin
import Wirebone.Store.Expiry

namespace Wirebone

open ByteString FirstMatch

/-! ## 1. The property and the condition -/

/-- The entry is unexpired at time `now`, by the number that stands in the text. -/
def unexpired (now : Int) (k : Json) : Bool :=
  match (k.member "expires_unix" (.num 0)).number with
  | some q => decide (q.num = 0 ∨ now * q.den ≤ q.num)
  | none => false

/-- **The text offers the key `K`** at time `now`: `k` is its first entry with that string, is
    unexpired, and is reusable or unused. -/
structure Offers (now : Int) (j : Json) (K : Bytes) (k : Json) : Prop where
  first : ∃ earlier later, keyItems j = earlier ++ k :: later ∧
    ∀ k' ∈ earlier, k'.member "key" (.str []) ≠ .str K
  key : k.member "key" (.str []) = .str K
  unexpired : unexpired now k = true
  unspent : k.member "reusable" (.bool true) = .bool true ∨ k.member "used" (.bool false) = .bool false

/-- No entry of the text has the string `K`. -/
def Unlisted (j : Json) (K : Bytes) : Prop := ∀ k ∈ keyItems j, k.member "key" (.str []) ≠ .str K

/-- **The keys of the text are honoured** at time `now`, after it was loaded into `w`: what it offers is
    accepted with the claim that stands there, and a key that it does not list is refused. -/
def Honoured (io : SaveIo) (now : Int) (j : Json) (w : World) : Prop :=
  (∀ K k p, Offers now j K k → EntryOf k p →
      (consumePreauth io now K { w with store := (loadJson (some j) w.store).2 }).1 =
        .ok (some p.claim)) ∧
    ∀ K, Unlisted j K →
      (consumePreauth io now K { w with store := (loadJson (some j) w.store).2 }).1 = .ok none

/-- The entry, unexpired as it stands, is so as an `int` too: an `int` holds its expiry, or what is
    left of it is no earlier time, or 0. -/
def lastsThrough (now : Int) (k : Json) : Bool :=
  match k.member "expires_unix" (.num 0) with
  | .num n => intFits n || decide (Json.toInt32 n = 0 ∨ now ≤ Json.toInt32 n)
  | .float q cast => intFits (q.num.tdiv q.den) || decide (cast.toInt = 0 ∨ now ≤ cast.toInt)
  | _ => true

/-- The list `keys` grants what the text offers, and refuses what it does not list. -/
def Agrees (now : Int) (j : Json) (keys : List PreauthKey) : Prop :=
  (∀ K k p, Offers now j K k → EntryOf k p → claimOf now K keys = some p.claim) ∧
    ∀ K, Unlisted j K → claimOf now K keys = none

/-- **The condition**: there is no state path, or the file has no key list, and the expiries of what
    the text offers survive; or the list of the file can be read and agrees with the text. And the save
    of an offered key returns. -/
def filesAgree (now : Int) (j : Json) (w : World) : Prop :=
  match readImage w with
  | none => ∀ K k, Offers now j K k → lastsThrough now k = true
  | some ks =>
    (pushUntil keyFromJson ks.items).2 = none ∧ Agrees now j (pushUntil keyFromJson ks.items).1

def savesOffered (io : SaveIo) (now : Int) (j : Json) (w : World) : Prop :=
  ∀ K k, Offers now j K k → io.passes w.store = true ∧
    ((w.store.path ≠ [] ∨ w.store.hooked = true) →
      (snapshotLocked { (loadJson (some j) w.store).2 with
        keys := keysSeen { w with store := (loadJson (some j) w.store).2 } }).dumps = true)

/-- What `keys_` holds after the text was loaded. -/
def textKeys (j : Json) : List PreauthKey := (pushUntil keyFromJson (keyItems j)).1

/-! ## 2. The keys that a call sees -/

section Import

variable {io : SaveIo} {now : Int} {j : Json} {w : World}

/-- What a call sees after a load: the list of the file, or that of the text where there is none. -/
theorem seen_after_load (hload : (loadJson (some j) w.store).1 = .ok ()) :
    reloadThrows { w with store := (loadJson (some j) w.store).2 } = reloadThrows w ∧
      keysSeen { w with store := (loadJson (some j) w.store).2 } =
        match readImage w with
        | none => textKeys j
        | some ks => (pushUntil keyFromJson ks.items).1 := by
  obtain ⟨priv, id, ip, _, _, _, _, _, hstore⟩ := load_accepted hload
  have hread : readImage { w with store := (loadJson (some j) w.store).2 } = readImage w := by
    unfold readImage
    rw [hstore]
  unfold reloadThrows keysSeen
  rw [hread]
  refine ⟨rfl, ?_⟩
  cases readImage w with
  | none =>
    simp only
    rw [hstore]
    rfl
  | some ks => rfl

/-- The entries of an accepted text, one by one. -/
theorem textKeys_read (hload : (loadJson (some j) w.store).1 = .ok ()) :
    (keyItems j).mapM keyFromJson = .ok (textKeys j) := by
  obtain ⟨_, _, _, _, _, _, hread, _, _⟩ := load_accepted hload
  rw [mapM_pushUntil, hread]
  rfl

theorem mem_of_read {es : List Json} {ps : List PreauthKey} {K : Bytes} (h : es.mapM keyFromJson = .ok ps) :
    (∀ k ∈ es, k.member "key" (.str []) ≠ .str K) ↔ ∀ p ∈ ps, p.key ≠ K := by
  induction es generalizing ps with
  | nil =>
    cases h
    simp
  | cons e es ih =>
    rw [List.mapM_cons] at h
    obtain ⟨p, hp, h⟩ := except_bind_ok h
    obtain ⟨ps', hps, h⟩ := except_bind_ok h
    cases h
    rw [List.forall_mem_cons, List.forall_mem_cons, ih hps, (keyFromJson_iff.mp hp).1.key]
    exact and_congr_left fun _ => not_congr ⟨Json.str.inj, congrArg Json.str⟩

/-- There is always a key that an accepted text does not list. -/
theorem exists_unlisted (hload : (loadJson (some j) w.store).1 = .ok ()) : ∃ K, Unlisted j K := by
  obtain ⟨K, hK⟩ := Infinite.exists_notMem_finset ((textKeys j).map (·.key)).toFinset
  refine ⟨K, (mem_of_read (textKeys_read hload)).mpr fun p hp heq => hK ?_⟩
  rw [List.mem_toFinset, ← heq]
  exact List.mem_map_of_mem hp

/-- What is offered is found in what was read. -/
theorem offers_found {K : Bytes} {k : Json} (hload : (loadJson (some j) w.store).1 = .ok ())
    (h : Offers now j K k) : ∃ p, keyFromJson k = .ok p ∧ (textKeys j).find? (·.key = K) = some p := by
  obtain ⟨earlier, later, hitems, hearlier⟩ := h.first
  have hread := textKeys_read hload
  rw [hitems, List.mapM_append, List.mapM_cons] at hread
  obtain ⟨ps, hps, hread⟩ := except_bind_ok hread
  obtain ⟨rest, hrest, hread⟩ := except_bind_ok hread
  obtain ⟨p, hp, hrest⟩ := except_bind_ok hrest
  obtain ⟨qs, _, hrest⟩ := except_bind_ok hrest
  cases hrest
  refine ⟨p, hp, ?_⟩
  have hkey : p.key = K := Json.str.inj ((keyFromJson_iff.mp hp).1.key.symm.trans h.key)
  have hnone : ps.find? (·.key = K) = none :=
    List.find?_eq_none.mpr fun q hq => by simpa using (mem_of_read hps).mp hearlier q hq
  rw [← Except.ok.inj hread, List.find?_append, hnone, List.find?_cons_of_pos (by simpa using hkey)]
  rfl

/-- The text says one thing of an entry. -/
theorem EntryOf.claim_eq {k : Json} {p p' : PreauthKey} (h : EntryOf k p) (h' : EntryOf k p') :
    p.claim = p'.claim := by
  have h1 := Json.bool.inj (h.ephemeral.symm.trans h'.ephemeral)
  have h2 := Json.str.inj (h.token.symm.trans h'.token)
  have h3 := h'.shared
  rw [← h2, h.shared] at h3
  unfold PreauthKey.claim
  rw [h1, h2, Json.bool.inj h3]

/-- **An unexpired entry after the way through `int`.** -/
theorem lastsThrough_iff {k : Json} {i : Int} (h : unexpired now k = true)
    (hi : (k.member "expires_unix" (.num 0)).getInt = .ok i) :
    (i = 0 ∨ now ≤ i) ↔ lastsThrough now k = true := by
  unfold unexpired at h
  unfold lastsThrough
  cases hv : k.member "expires_unix" (.num 0) with
  | num n =>
    rw [hv] at h hi
    cases hi
    simp only [Json.number, decide_eq_true_eq] at h
    change n = 0 ∨ now * 1 ≤ n at h
    rw [Bool.or_eq_true, decide_eq_true_iff]
    refine ⟨.inr, fun hn => hn.elim (fun hfits => ?_) id⟩
    rw [(toInt32_eq_iff n).mpr hfits]
    omega
  | float q cast =>
    rw [hv] at h hi
    cases hi
    simp only [Json.number, decide_eq_true_eq] at h
    have hden : (0 : Int) < q.den := Int.natCast_pos.mpr q.den_pos
    have hlast : q.num.tdiv q.den = 0 ∨ now ≤ q.num.tdiv q.den := by
      rcases h with h0 | hle
      · exact .inl (by rw [h0, Int.zero_tdiv])
      · exact .inr (Int.le_tdiv_of_mul_le hden hle)
    simp only [Json.doubleToInt, Bool.or_eq_true, decide_eq_true_eq]
    cases intFits (q.num.tdiv q.den) with
    | true => simpa using hlast
    | false => simp
  | bool b =>
    rw [hv] at h hi
    cases hi
    simp only [Json.number, decide_eq_true_eq] at h
    cases b with
    | false => simp
    | true =>
      change (1 : Int) = 0 ∨ now * 1 ≤ 1 at h
      simp only [if_true, iff_true]
      omega
  | null | str _ | arr _ | obj _ =>
    rw [hv] at hi
    cases hi

/-- Without a list in the file, what was read is granted. -/
theorem agrees_text_iff (hload : (loadJson (some j) w.store).1 = .ok ()) :
    Agrees now j (textKeys j) ↔ ∀ K k, Offers now j K k → lastsThrough now k = true := by
  have hgranted : ∀ {K k p}, Offers now j K k → EntryOf k p →
      (claimOf now K (textKeys j) = some p.claim ↔ lastsThrough now k = true) := by
    intro K k p hoffers hentry
    obtain ⟨p', hread, hfind⟩ := offers_found hload hoffers
    obtain ⟨hentry', hexp⟩ := keyFromJson_iff.mp hread
    have hspend : p'.reusable = true ∨ p'.used = false := by
      rcases hoffers.unspent with hr | hu
      · exact .inl (Json.bool.inj (hentry'.reusable.symm.trans hr))
      · exact .inr (Json.bool.inj (hentry'.used.symm.trans hu))
    rw [← lastsThrough_iff hoffers.unexpired hexp, claimOf_some]
    constructor
    · rintro ⟨q, hq, hlast, _, _⟩
      cases hfind.symm.trans hq
      omega
    · intro hlast
      exact ⟨p', hfind, by omega, hspend, hentry'.claim_eq hentry⟩
  constructor
  · intro h K k hoffers
    obtain ⟨p, hread, _⟩ := offers_found hload hoffers
    have hentry := (keyFromJson_iff.mp hread).1
    exact (hgranted hoffers hentry).mp (h.1 K k p hoffers hentry)
  · intro h
    refine ⟨fun K k p hoffers hentry => (hgranted hoffers hentry).mpr (h K k hoffers), fun K hK => ?_⟩
    have hnone : (textKeys j).find? (·.key = K) = none :=
      List.find?_eq_none.mpr fun p hp => by simpa using (mem_of_read (textKeys_read hload)).mp hK p hp
    rw [claimOf, hnone]

theorem filesAgree_reads (h : filesAgree now j w) : reloadThrows w = false := by
  unfold filesAgree at h
  unfold reloadThrows
  cases hi : readImage w with
  | none => rfl
  | some ks =>
    simp only [hi] at h ⊢
    rw [h.1]
    rfl

/-- The list that the calls see agrees with the text exactly under the condition on the file. -/
theorem filesAgree_iff_seen (hload : (loadJson (some j) w.store).1 = .ok ()) (ht : reloadThrows w = false) :
    filesAgree now j w ↔
      Agrees now j (keysSeen { w with store := (loadJson (some j) w.store).2 }) := by
  rw [(seen_after_load hload).2]
  unfold filesAgree
  cases hi : readImage w with
  | none => exact (agrees_text_iff hload).symm
  | some ks =>
    have hnone : (pushUntil keyFromJson ks.items).2 = none := by
      unfold reloadThrows at ht
      simpa [hi] using ht
    exact and_iff_right hnone

/-- The save of an accepted key, in terms of the store before the load. -/
theorem saves_loaded_iff (hload : (loadJson (some j) w.store).1 = .ok ()) (K : Bytes) :
    saves io { (loadJson (some j) w.store).2 with
        keys := markUsed K (keysSeen { w with store := (loadJson (some j) w.store).2 }) } = true ↔
      io.passes w.store = true ∧ ((w.store.path ≠ [] ∨ w.store.hooked = true) →
        (snapshotLocked { (loadJson (some j) w.store).2 with
          keys := keysSeen { w with store := (loadJson (some j) w.store).2 } }).dumps = true) := by
  obtain ⟨priv, id, ip, _, _, _, _, _, hstore⟩ := load_accepted hload
  have hpasses : io.passes (loadJson (some j) w.store).2 = io.passes w.store := by
    rw [hstore]
    rfl
  have hneed : ((loadJson (some j) w.store).2.path ≠ [] ∨ (loadJson (some j) w.store).2.hooked = true) ↔
      (w.store.path ≠ [] ∨ w.store.hooked = true) := by rw [hstore]
  rw [saves_marked_iff, hpasses, ← hneed]
  exact Iff.rfl

end Import

/-- **Imported keys are honoured** exactly if the file lists no other keys, what the text offers lasts
    as an `int` too, and the save of an offered key returns. -/
theorem imported_honoured_iff (io : SaveIo) (now : Int) (j : Json) (w : World)
    (hload : (loadJson (some j) w.store).1 = .ok ()) :
    Honoured io now j w ↔ filesAgree now j w ∧ savesOffered io now j w := by
  have hthrows := (seen_after_load hload).1
  unfold Honoured
  cases ht : reloadThrows w with
  | true =>
    rw [ht] at hthrows
    constructor
    · intro h
      obtain ⟨K, hK⟩ := exists_unlisted hload
      obtain ⟨e, he⟩ := consume_throws io now K hthrows
      have hnone := h.2 K hK
      rw [he] at hnone
      cases hnone
    · intro h
      rw [filesAgree_reads h.1] at ht
      cases ht
  | false =>
    rw [ht] at hthrows
    rw [filesAgree_iff_seen hload ht]
    unfold Agrees savesOffered
    simp only [consume_some_iff hthrows, consume_none_iff hthrows, saves_loaded_iff hload]
    constructor
    · intro h
      obtain ⟨h1, h2⟩ := h
      refine ⟨⟨fun K k p hk hp => (h1 K k p hk hp).1, h2⟩, fun K k hk => ?_⟩
      obtain ⟨p, hread, _⟩ := offers_found hload hk
      exact (h1 K k p hk (keyFromJson_iff.mp hread).1).2
    · intro h
      obtain ⟨⟨h1, h2⟩, h3⟩ := h
      exact ⟨fun K k p hk hp => ⟨h1 K k p hk hp, h3 K k hk⟩, h2⟩

/-- A reusable key of the group `blue`, and a text with it. -/
def blueEntry (expires : Int) : Json :=
  .obj [(ascii "expires_unix", .num expires), (ascii "key", .str (ascii "wbkey-1")),
    (ascii "token", .str (ascii "blue"))]

def importText (expires : Int) : Json := .obj [(ascii "preauth_keys", .arr [blueEntry expires])]

/-- A store with a file that holds the dump of its own earlier state, without keys. -/
def filedWorld : World := { emptyWorld with file := some (.json (snapshotLocked emptyWorld.store)) }

/-- A store without a path. -/
def pathless : World := { store := { path := [], alloc := pool16 }, file := none }

theorem offers_blue {now expires : Int} (h : unexpired now (blueEntry expires) = true) :
    Offers now (importText expires) (ascii "wbkey-1") (blueEntry expires) :=
  ⟨⟨[], [], rfl, fun _ hk => absurd hk List.not_mem_nil⟩, rfl, h, .inl rfl⟩

theorem entryOf_blue (expires : Int) :
    EntryOf (blueEntry expires) { key := ascii "wbkey-1", token := ascii "blue" } :=
  ⟨rfl, rfl, rfl, rfl, rfl, rfl, rfl⟩

/-- The text is accepted, its key is in memory, and `consume_preauth` refuses it: it has taken the
    list of the file first. A key until 4000000000 is refused without any file: its expiry was cut. -/
theorem imported_refused :
    (loadJson (some (importText 0)) filedWorld.store).1 = .ok () ∧
      (loadJson (some (importText 0)) filedWorld.store).2.keys =
        [{ key := ascii "wbkey-1", token := ascii "blue" }] ∧
      (consumePreauth {} 0 (ascii "wbkey-1")
        { filedWorld with store := (loadJson (some (importText 0)) filedWorld.store).2 }).1 = .ok none ∧
      ¬ Honoured {} 0 (importText 0) filedWorld ∧
      (loadJson (some (importText 4000000000)) pathless.store).1 = .ok () ∧
      ¬ Honoured {} 0 (importText 4000000000) pathless := by
  have hrefused : (consumePreauth {} 0 (ascii "wbkey-1")
      { filedWorld with store := (loadJson (some (importText 0)) filedWorld.store).2 }).1 = .ok none := by
    decide +kernel
  have hcut : (consumePreauth {} 0 (ascii "wbkey-1")
      { pathless with store := (loadJson (some (importText 4000000000)) pathless.store).2 }).1 =
        .ok none := by
    decide +kernel
  refine ⟨by decide +kernel, by decide +kernel, hrefused, fun h => ?_, by decide +kernel, fun h => ?_⟩
  · have hgranted := h.1 _ _ _ (offers_blue (by decide +kernel)) (entryOf_blue 0)
    cases hrefused.symm.trans hgranted
  · have hgranted := h.1 _ _ _ (offers_blue (by decide +kernel)) (entryOf_blue 4000000000)
    cases hcut.symm.trans hgranted

/-- Without a state path a key that an `int` holds is honoured. -/
theorem imported_honoured_pathless :
    Offers 0 (importText 2000000000) (ascii "wbkey-1") (blueEntry 2000000000) ∧
      Honoured {} 0 (importText 2000000000) pathless := by
  refine ⟨offers_blue (by decide +kernel),
    (imported_honoured_iff {} 0 (importText 2000000000) pathless (by decide +kernel)).mpr
      ⟨fun K k hk => ?_, fun K k _ => ⟨rfl, fun hneed => ?_⟩⟩⟩
  · obtain ⟨earlier, later, hitems, _⟩ := hk.first
    have hmem : k ∈ keyItems (importText 2000000000) := by
      rw [hitems]
      exact List.mem_append_right _ List.mem_cons_self
    obtain rfl := List.mem_singleton.mp hmem
    decide +kernel
  · rcases hneed with hpath | hhooked
    · exact absurd rfl hpath
    · cases hhooked

end Wirebone
