/-
  File:      Wirebone/Store/LostUpdate.lean
  Subject:   WHETHER A SAVE OF ONE PROCESS TAKES BACK WHAT ANOTHER HAS SAVED.

  * `NothingLost` -- the property: keys that were returned are accepted, used keys stay used in
    the file, registered nodes stay in it;
  * `timelySave` -- the condition on a save: the keys and the nodes of the file are those this
    process has loaded, reloaded or saved last, the text is stored whole, and a new key is new;
  * `Kept` -- the invariant: memory has all that the process has seen of the file, with the used
    marks;
  * **`nothing_lost`** -- the property in every run of timely saves; **`update_lost`** -- a run in
    which the server's save takes back a key.
-/
import Wirebone.Store.Site

namespace Wirebone

open ByteString FirstMatch Lts

/-! ## 1. The property -/

/-- The process accepts the key: a `consume_preauth` comes to `save_locked` and `return true`. -/
def Accepts (file : Option FileText) (k : PreauthKey) (p : Process) : Prop :=
  ∀ io now, ∃ w s, consumePreauth io now k.key { store := p.store, file } = commit io w s (some k.claim)

/-- **No update is lost.** Keys made without an expiration do not expire; a one-shot key is spent
    once a `consume_preauth` has marked it. -/
structure NothingLost (s : Site) : Prop where
  accepted : ∀ k ∈ s.created, (k.reusable = true ∨ k.key ∉ s.marked) → ∀ p ∈ s.procs, Accepts s.file k p
  used : ∀ K ∈ s.spent, ∃ e, (fileKeys s.file).find? (·.key = K) = some e ∧ e.used = true
  nodes : ∀ d ∈ s.registered, d ∈ fileNodes s.file

/-! ## 2. Timely saves -/

/-- No entry of `K`. -/
def lacks (K : Bytes) (keys : List PreauthKey) : Bool := (keys.find? (·.key = K)).isNone

def CallPhase.lacks (K : Bytes) : CallPhase → Bool
  | .loaded (some ks) => Wirebone.lacks K (keyList ks)
  | _ => true

/-- The file, the processes and the images under way have no entry of `K`. -/
def Site.lacks (s : Site) (K : Bytes) : Bool :=
  Wirebone.lacks K (fileKeys s.file) && s.procs.all fun p =>
    Wirebone.lacks K p.store.keys && p.calls.all fun c => c.phase.lacks K

/-- The file is as the process knows it. -/
def Process.knows (p : Process) (file : Option FileText) : Bool :=
  decide (p.seenKeys = fileKeys file) && decide (p.seenNodes = fileNodes file)

/-- The operation of a process is timely. -/
def Site.inTime (I : Inet) (s : Site) (p : Process) (io : SaveIo) (o : Op) : Bool :=
  (!o.comesToSave I p.store || (decide (io.stored = .whole) && p.knows s.file)) &&
    match o.drawn with
    | some k => s.lacks k.key
    | none => true

/-- The operation that an event runs. -/
def saving (s : Site) : SiteEvent → Option (Process × SaveIo × Op)
  | .init i io noise => (s.procs[i]?).map fun p => (p, io, .init noise)
  | .boot i io now raw => (s.procs[i]?).bind fun p =>
    if p.store.keys = [] then some (p, io, .create now raw true false [] none) else none
  | .create i io now raw reusable ephemeral token shared => (s.procs[i]?).map fun p =>
    (p, io, .create now raw reusable ephemeral token shared)
  | .register i io machineKey nodeKey hostname ephemeral token shared => (s.procs[i]?).map fun p =>
    (p, io, .register machineKey nodeKey hostname ephemeral token shared)
  | .mapInfo i io machineKey nodeKey discoKey hostname endpoints => (s.procs[i]?).map fun p =>
    (p, io, .mapInfo machineKey nodeKey discoKey hostname endpoints)
  | .check i n now io => (s.procs[i]?).bind fun p => (p.calls[n]?).map fun c =>
    (p, io, .check now c.key)
  | _ => none

/-- **The condition on a step.** -/
def timelySave (I : Inet) (s : Site) (e : SiteEvent) : Bool :=
  match saving s e with
  | some (p, io, o) => s.inTime I p io o
  | none => true

/-! ## 3. Key lists -/

/-- Every key of the old list is in the new one, used where it was used. -/
def Covers (new old : List PreauthKey) : Prop :=
  ∀ K e, old.find? (·.key = K) = some e →
    ∃ e', new.find? (·.key = K) = some e' ∧ (e.used = true → e'.used = true)

/-- An entry of the key `k` that was returned: used only where it has been marked. -/
structure Entry (marked : List Bytes) (k e : PreauthKey) : Prop where
  reusable : e.reusable = k.reusable
  claim : e.claim = k.claim
  expires : e.expiresUnix = 0
  used : e.used = true → k.key ∈ marked

/-- The list has no other entries of `k`. -/
def Entries (marked : List Bytes) (k : PreauthKey) (keys : List PreauthKey) : Prop :=
  ∀ e, keys.find? (·.key = k.key) = some e → Entry marked k e

section Lists

variable {l l' l'' : List PreauthKey} {k : PreauthKey} {marked marked' : List Bytes} {K : Bytes}

theorem Covers.refl (l : List PreauthKey) : Covers l l := fun _ e he => ⟨e, he, id⟩

theorem Covers.trans (h : Covers l'' l') (h' : Covers l' l) : Covers l'' l := by
  intro K e he
  obtain ⟨e', he', hu⟩ := h' K e he
  obtain ⟨e'', he'', hu'⟩ := h K e' he'
  exact ⟨e'', he'', hu' ∘ hu⟩

theorem find?_append_some {e k' : PreauthKey} (h : l.find? (·.key = K) = some e) :
    (l ++ [k']).find? (·.key = K) = some e := by
  rw [List.find?_append, h]
  rfl

theorem covers_append (l : List PreauthKey) (k : PreauthKey) : Covers (l ++ [k]) l :=
  fun _ e he => ⟨e, find?_append_some he, id⟩

theorem covers_markUsed (key : Bytes) (l : List PreauthKey) : Covers (markUsed key l) l := by
  intro K e he
  by_cases hK : key = K
  · subst hK
    refine ⟨{ e with used := true }, ?_, fun _ => rfl⟩
    rw [find?_markUsed_self, he]
    rfl
  · exact ⟨e, by rw [find?_markUsed_other hK, he], id⟩

theorem covers_keysAfter (s : Store) (o : Op) : Covers (o.keysAfter s) s.keys := by
  cases o with
  | init noise => exact .refl _
  | create now raw reusable ephemeral token shared => exact covers_append _ _
  | check now key =>
    show Covers (if spendable now key s.keys then markUsed key s.keys else s.keys) s.keys
    split
    · exact covers_markUsed _ _
    · exact .refl _
  | register m nodeKey hostname ephemeral token shared => exact .refl _
  | mapInfo m nodeKey discoKey hostname endpoints => exact .refl _

theorem find?_cut (K : Bytes) (l : List PreauthKey) :
    (l.map cutKey).find? (·.key = K) = (l.find? (·.key = K)).map cutKey := by
  rw [List.find?_map]
  rfl

/-- What is written covers what is in memory, and memory what is written. -/
theorem covers_cut (l : List PreauthKey) : Covers (l.map cutKey) l := by
  intro K e he
  refine ⟨cutKey e, ?_, id⟩
  rw [find?_cut, he]
  rfl

theorem covers_of_cut (l : List PreauthKey) : Covers l (l.map cutKey) := by
  intro K e he
  rw [find?_cut] at he
  obtain ⟨e', he', rfl⟩ := Option.map_eq_some_iff.mp he
  exact ⟨e', he', id⟩

theorem Entry.mono {e : PreauthKey} (hm : marked ⊆ marked') (h : Entry marked k e) : Entry marked' k e :=
  ⟨h.reusable, h.claim, h.expires, fun hu => hm (h.used hu)⟩

theorem Entries.mono (hm : marked ⊆ marked') (h : Entries marked k l) : Entries marked' k l :=
  fun e he => (h e he).mono hm

theorem Entries.cut (h : Entries marked k l) : Entries marked k (l.map cutKey) := by
  intro e he
  rw [find?_cut] at he
  obtain ⟨e', he', rfl⟩ := Option.map_eq_some_iff.mp he
  have hentry := h e' he'
  refine ⟨hentry.reusable, hentry.claim, ?_, hentry.used⟩
  rw [cutKey, hentry.expires]
  rfl

theorem entries_of_lacks (h : lacks k.key l = true) : Entries marked k l := by
  intro e he
  rw [lacks, he] at h
  cases h

/-- An operation keeps the entries of a key that it does not make. -/
theorem Entries.keysAfter {I : Inet} {s : Store} {o : Op} (h : Entries marked k s.keys)
    (hdrawn : ∀ k', o.drawn = some k' → k'.key ≠ k.key) :
    Entries (marked ++ o.marks I s) k (o.keysAfter s) := by
  have hsame : Entries (marked ++ o.marks I s) k s.keys := h.mono (List.subset_append_left _ _)
  cases o with
  | init noise => exact hsame
  | create now raw reusable ephemeral token shared =>
    intro e he
    have hne := hdrawn _ rfl
    refine hsame e ?_
    simp only [Op.keysAfter, List.find?_append] at he
    rw [List.find?_singleton, if_neg (by simpa using hne), Option.or_none] at he
    exact he
  | check now key =>
    intro e he
    cases hs : spendable now key s.keys with
    | false =>
      simp only [Op.keysAfter, hs, Bool.false_eq_true, if_false] at he
      exact hsame e he
    | true =>
      simp only [Op.keysAfter, hs, if_true] at he
      by_cases hK : key = k.key
      · subst hK
        rw [find?_markUsed_self] at he
        obtain ⟨e', he', rfl⟩ := Option.map_eq_some_iff.mp he
        have hentry := hsame e' he'
        refine ⟨hentry.reusable, hentry.claim, hentry.expires, fun _ => ?_⟩
        refine List.mem_append_right _ ?_
        rw [Op.marks, Op.comesToSave, hs]
        exact List.mem_singleton.mpr rfl
      · rw [find?_markUsed_other hK] at he
        exact hsame e he
  | register m nodeKey hostname ephemeral token shared => exact hsame
  | mapInfo m nodeKey discoKey hostname endpoints => exact hsame

/-- The entry of a key that an operation makes. -/
theorem Entries.drawn {s : Store} {o : Op} (ho : o.drawn = some k)
    (hl : lacks k.key s.keys = true) :
    Entries marked k (o.keysAfter s) ∧ (o.keysAfter s).find? (·.key = k.key) = some k := by
  cases o with
  | create now raw reusable ephemeral token shared =>
    cases ho
    have hnone : s.keys.find? (·.key = randomToken raw) = none := Option.isNone_iff_eq_none.mp hl
    have hfind : (s.keys ++ [createdKey now raw reusable ephemeral 0 token shared]).find?
        (·.key = randomToken raw) = some (createdKey now raw reusable ephemeral 0 token shared) := by
      rw [List.find?_append, hnone, List.find?_singleton]
      simp [createdKey]
    refine ⟨fun e he => ?_, hfind⟩
    have heq := hfind.symm.trans he
    cases heq
    exact ⟨rfl, rfl, rfl, fun hu => nomatch hu⟩
  | init | check | register | mapInfo => cases ho

end Lists

/-! ## 4. The invariant -/

/-- The file was written whole by a save. -/
def Dumped (file : Option FileText) : Prop := ∃ t, file = some (.json (snapshotLocked t))

/-- One process: memory has what the process knows of the file, and the keys that were returned
    are as they were made. -/
structure Sane (s : Site) (p : Process) : Prop where
  path : p.store.path = s.path
  keys : Covers p.store.keys p.seenKeys
  nodes : p.seenNodes ⊆ places p.store
  memory : ∀ k ∈ s.created, Entries s.marked k p.store.keys
  images : ∀ k ∈ s.created, ∀ c ∈ p.calls, ∀ ks, c.phase = .loaded (some ks) →
    Entries s.marked k (keyList ks)

/-- The file lists a key that was returned. -/
structure Listed (s : Site) (k : PreauthKey) : Prop where
  dumped : Dumped s.file
  entries : Entries s.marked k (fileKeys s.file)
  listed : ∃ e, (fileKeys s.file).find? (·.key = k.key) = some e

/-- **The invariant of the site.** -/
structure Kept (s : Site) : Prop where
  procs : ∀ p ∈ s.procs, Sane s p
  created : ∀ k ∈ s.created, Listed s k
  used : ∀ K ∈ s.spent, ∃ e, (fileKeys s.file).find? (·.key = K) = some e ∧ e.used = true
  nodes : ∀ d ∈ s.registered, d ∈ fileNodes s.file

section Files

theorem keyList_dump (keys : List PreauthKey) : keyList (.arr (keys.map keyToJson)) = keys.map cutKey := by
  rw [keyList, pushKeys_dump]

theorem fileKeys_dump (t : Store) :
    fileKeys (some (.json (snapshotLocked t))) = t.keys.map cutKey := keyList_dump t.keys

theorem place_id (n : NodeState) (id : UInt64) : ({ n with id } : NodeState).place = n.place := rfl

theorem place_cut (n : NodeState) : (cutNode n).place = n.place := place_id n (cutId n.id)

theorem fileNodes_dump (t : Store) : fileNodes (some (.json (snapshotLocked t))) = places t := by
  have hns : (snapshotLocked t).find (ascii "nodes") = some (.arr (t.nodes.map nodeToJson)) := rfl
  show ((pushUntil nodeFromJson (((snapshotLocked t).find (ascii "nodes")).getD .null).items).1.map
    (·.place)) = places t
  rw [hns, Option.getD_some, pushNodes_dump, List.map_map]
  exact List.map_congr_left fun n _ => place_cut n

/-- What a load takes over from the file. -/
theorem applySnapshot_lists {j : Json} {s s' : Store} (h : applySnapshotLocked j s = (.ok (), s')) :
    s'.path = s.path ∧ s'.keys = fileKeys (some (.json j)) ∧ places s' = fileNodes (some (.json j)) := by
  unfold applySnapshotLocked at h
  split at h
  · cases h
  · split at h
    · cases h
    · split at h
      · cases h
      · dsimp only at h
        split at h
        · cases h
        · rename_i hk
          obtain ⟨_, rfl⟩ := Prod.mk.inj h
          rw [installKeys_store hk]
          exact ⟨rfl, rfl, rfl⟩

theorem loadStore_lists {I : Inet} {path ipv4Cidr ipv6Cidr : Bytes} {file : Option FileText} {s : Store}
    (hpath : path ≠ []) (h : loadStore I path ipv4Cidr ipv6Cidr file = .ok s) :
    s.path = path ∧ s.keys = fileKeys file ∧ places s = fileNodes file := by
  unfold loadStore at h
  split at h
  · cases h
  · simp only [if_neg hpath] at h
    rcases file with _ | _ | _ | j
    · cases h
      exact ⟨rfl, rfl, rfl⟩
    · cases h
      exact ⟨rfl, rfl, rfl⟩
    · cases h
    · simp only at h
      split at h
      · cases h
      · rename_i u s' hj
        cases h
        exact applySnapshot_lists hj

/-- A reload takes over the keys of the file. -/
theorem readImage_some {w : World} {ks : Json} (h : readImage w = some ks) :
    keyList ks = fileKeys w.file := by
  unfold readImage at h
  split at h
  · cases h
  · split at h
    · rename_i j hfile
      rw [hfile]
      show _ = keyList ((j.find (ascii "preauth_keys")).getD .null)
      rw [h]
      rfl
    · cases h

end Files

theorem online_identity (online : Bool) (n : NodeState) :
    ({ n with online } : NodeState).identity = n.identity := rfl

/-! ## 5. One operation -/

section Record

variable {s : Site} {r : Except Exn (Option Receipt)}

/-- The record of the results leaves the rest of the site alone. -/
theorem record_rest (s : Site) (r : Except Exn (Option Receipt)) :
    (s.record r).path = s.path ∧ (s.record r).file = s.file ∧ (s.record r).procs = s.procs ∧
      (s.record r).marked = s.marked := by
  unfold Site.record
  split
  · exact ⟨rfl, rfl, rfl, rfl⟩
  · exact ⟨rfl, rfl, rfl, rfl⟩
  · exact ⟨rfl, rfl, rfl, rfl⟩
  · exact ⟨rfl, rfl, rfl, rfl⟩

theorem record_created {k : PreauthKey} (h : k ∈ (s.record r).created) :
    k ∈ s.created ∨ r = .ok (some (.key k)) := by
  unfold Site.record at h
  split at h
  · rcases List.mem_append.mp h with h | h
    · exact .inl h
    · rw [List.mem_singleton.mp h]
      exact .inr rfl
  · exact .inl h
  · exact .inl h
  · exact .inl h

theorem record_spent {K : Bytes} (h : K ∈ (s.record r).spent) :
    K ∈ s.spent ∨ r = .ok (some (.spent K)) := by
  unfold Site.record at h
  split at h
  · exact .inl h
  · rcases List.mem_append.mp h with h | h
    · exact .inl h
    · rw [List.mem_singleton.mp h]
      exact .inr rfl
  · exact .inl h
  · exact .inl h

theorem record_registered {d : Identity} (h : d ∈ (s.record r).registered) :
    d ∈ s.registered ∨ r = .ok (some (.node d)) := by
  unfold Site.record at h
  split at h
  · exact .inl h
  · exact .inl h
  · rcases List.mem_append.mp h with h | h
    · exact .inl h
    · rw [List.mem_singleton.mp h]
      exact .inr rfl
  · exact .inl h

end Record

section Perform

variable {I : Inet} {s : Site} {p : Process} {io : SaveIo} {o : Op} {w' : World}
  {r : Except Exn (Option Receipt)}

/-- **A timely operation** and the file: all of the old file is in the new one, and a new file is a
    dump of memory. -/
structure Rewrote (I : Inet) (s : Site) (p : Process) (o : Op) (r : Except Exn (Option Receipt))
    (w' : World) : Prop where
  memory : Covers w'.store.keys p.store.keys
  keys : Covers (fileKeys w'.file) (fileKeys s.file)
  nodes : fileNodes s.file ⊆ fileNodes w'.file
  file : w'.file = s.file ∨ w'.file = some (.json (snapshotLocked w'.store))
  saved : o.comesToSave I p.store = true → r.toBool = true →
    w'.file = some (.json (snapshotLocked w'.store))

theorem rewrote_of_ran (h : Sane s p) (hpath : s.path ≠ []) (hok : s.inTime I p io o = true)
    (hr : Ran I io { store := p.store, file := s.file } o r w') : Rewrote I s p o r w' := by
  have hmem : Covers w'.store.keys p.store.keys := by
    rw [hr.keys]
    exact covers_keysAfter p.store o
  -- an operation that comes to save stores its text whole, from a memory that has the file's
  have htimely : o.comesToSave I p.store = true → (∀ j, io.text j = .json j) ∧
      p.seenKeys = fileKeys s.file ∧ p.seenNodes = fileNodes s.file := by
    intro hs
    have h1 := (Bool.and_eq_true_iff.mp hok).1
    rw [hs] at h1
    obtain ⟨hwhole, hk, hn⟩ : io.stored = .whole ∧ p.seenKeys = fileKeys s.file ∧
        p.seenNodes = fileNodes s.file := by
      simpa [Process.knows] using h1
    refine ⟨fun j => ?_, hk, hn⟩
    rw [SaveIo.text, hwhole]
  have hfile : w'.file = s.file ∨ (o.comesToSave I p.store = true ∧
      w'.file = some (.json (snapshotLocked w'.store))) := by
    rcases hr.file with hf | ⟨hs, hf⟩
    · exact .inl hf
    · rw [(htimely hs).1] at hf
      exact .inr ⟨hs, hf⟩
  refine ⟨hmem, ?_, ?_, hfile.imp_right And.right, ?_⟩
  · rcases hfile with hf | ⟨hs, hf⟩
    · rw [hf]
      exact .refl _
    · rw [hf, fileKeys_dump, ← (htimely hs).2.1]
      exact (covers_cut _).trans (hmem.trans h.keys)
  · rcases hfile with hf | ⟨hs, hf⟩
    · rw [hf]
      exact List.Subset.refl _
    · rw [hf, fileNodes_dump, ← (htimely hs).2.2]
      exact List.Subset.trans h.nodes hr.places
  · intro hs hbool
    have hne : p.store.path ≠ [] := by
      rw [h.path]
      exact hpath
    rw [hr.saved hs hbool hne, (htimely hs).1]

/-- A key that was returned is not the one that a timely operation makes. -/
theorem drawn_ne (hkept : Kept s) (hok : s.inTime I p io o = true) {k : PreauthKey} (hk : k ∈ s.created) :
    ∀ k', o.drawn = some k' → k'.key ≠ k.key := by
  intro k' hk' heq
  have hlacks := (Bool.and_eq_true_iff.mp hok).2
  rw [hk'] at hlacks
  have hfile : lacks k'.key (fileKeys s.file) = true := (Bool.and_eq_true_iff.mp hlacks).1
  obtain ⟨e, he⟩ := (hkept.created k hk).listed
  rw [heq, lacks, he] at hfile
  cases hfile

/-- Where a key is new, no process has an entry of it, nor an image under way. -/
theorem Site.lacks_procs {K : Bytes} (h : s.lacks K = true) :
    ∀ q ∈ s.procs, Wirebone.lacks K q.store.keys = true ∧
      ∀ c ∈ q.calls, ∀ ks, c.phase = .loaded (some ks) → Wirebone.lacks K (keyList ks) = true := by
  intro q hq
  have hall := List.all_eq_true.mp (Bool.and_eq_true_iff.mp h).2 q hq
  obtain ⟨h1, h2⟩ := Bool.and_eq_true_iff.mp hall
  refine ⟨h1, fun c hc ks hph => ?_⟩
  have hc' := List.all_eq_true.mp h2 c hc
  rw [hph] at hc'
  exact hc'

/-- A key that was returned, after an operation: in the memory of the process, in the others, and in
    the file. -/
structure KeyKept (s : Site) (marked : List Bytes) (w' : World) (k : PreauthKey) : Prop where
  memory : Entries marked k w'.store.keys
  procs : ∀ q ∈ s.procs, Entries marked k q.store.keys ∧
    ∀ c ∈ q.calls, ∀ ks, c.phase = .loaded (some ks) → Entries marked k (keyList ks)
  dumped : Dumped w'.file
  entries : Entries marked k (fileKeys w'.file)
  listed : ∃ e, (fileKeys w'.file).find? (·.key = k.key) = some e

theorem keyKept_old (h : Kept s) (hmem : p ∈ s.procs) (hok : s.inTime I p io o = true)
    (hran : Ran I io { store := p.store, file := s.file } o r w') (hw : Rewrote I s p o r w')
    {k : PreauthKey} (hk : k ∈ s.created) : KeyKept s (s.marked ++ o.marks I p.store) w' k := by
  have hmono : s.marked ⊆ s.marked ++ o.marks I p.store := List.subset_append_left _ _
  have hlisted := h.created k hk
  have hmemory : Entries (s.marked ++ o.marks I p.store) k w'.store.keys := by
    rw [hran.keys]
    exact ((h.procs p hmem).memory k hk).keysAfter (drawn_ne h hok hk)
  refine ⟨hmemory, ?_, ?_, ?_, ?_⟩
  · intro q hq
    refine ⟨((h.procs q hq).memory k hk).mono hmono, fun c hc ks hph => ?_⟩
    exact ((h.procs q hq).images k hk c hc ks hph).mono hmono
  · rcases hw.file with hf | hf
    · rw [hf]
      exact hlisted.dumped
    · exact ⟨_, hf⟩
  · rcases hw.file with hf | hf
    · rw [hf]
      exact hlisted.entries.mono hmono
    · rw [hf, fileKeys_dump]
      exact hmemory.cut
  · obtain ⟨e, he⟩ := hlisted.listed
    obtain ⟨e', he', _⟩ := hw.keys _ e he
    exact ⟨e', he'⟩

theorem keyKept_new (hmem : p ∈ s.procs) (hok : s.inTime I p io o = true)
    (hran : Ran I io { store := p.store, file := s.file } o r w') (hw : Rewrote I s p o r w')
    {k : PreauthKey} (hk : r = .ok (some (.key k))) :
    KeyKept s (s.marked ++ o.marks I p.store) w' k := by
  have hdrawn := hran.key k hk
  have hsave : o.comesToSave I p.store = true := by
    cases o with
    | create => rfl
    | init | check | register | mapInfo => cases hdrawn
  have hlacks : s.lacks k.key = true := by
    have hl := (Bool.and_eq_true_iff.mp hok).2
    rw [hdrawn] at hl
    exact hl
  have hfile := hw.saved hsave (by rw [hk]; rfl)
  obtain ⟨hentries, hfind⟩ : Entries (s.marked ++ o.marks I p.store) k (o.keysAfter p.store) ∧
      (o.keysAfter p.store).find? (·.key = k.key) = some k :=
    Entries.drawn hdrawn (Site.lacks_procs hlacks p hmem).1
  have hkeys : w'.store.keys = o.keysAfter p.store := hran.keys
  rw [← hkeys] at hentries hfind
  refine ⟨hentries, ?_, ⟨_, hfile⟩, ?_, ?_⟩
  · intro q hq
    obtain ⟨h1, h2⟩ := Site.lacks_procs hlacks q hq
    exact ⟨entries_of_lacks h1, fun c hc ks hph => entries_of_lacks (h2 c hc ks hph)⟩
  · rw [hfile, fileKeys_dump]
    exact hentries.cut
  · refine ⟨cutKey k, ?_⟩
    rw [hfile, fileKeys_dump, find?_cut, hfind]
    rfl

/-- A key for which the operation has returned `true` is used in the file. -/
theorem spent_used (hran : Ran I io { store := p.store, file := s.file } o r w')
    (hw : Rewrote I s p o r w') {K : Bytes} (hK : r = .ok (some (.spent K))) :
    ∃ e, (fileKeys w'.file).find? (·.key = K) = some e ∧ e.used = true := by
  obtain ⟨now, rfl, hs⟩ := hran.spent K hK
  have hkeys : w'.store.keys = markUsed K p.store.keys := by
    have hk := hran.keys
    simp only [Op.keysAfter] at hk
    rw [if_pos hs] at hk
    exact hk
  have hfile := hw.saved hs (by rw [hK]; rfl)
  have hfind : ∃ k, p.store.keys.find? (·.key = K) = some k := by
    have hs' : spendable now K p.store.keys = true := hs
    unfold spendable at hs'
    split at hs'
    · cases hs'
    · rename_i k hk
      exact ⟨k, hk⟩
  obtain ⟨k, hk⟩ := hfind
  refine ⟨cutKey { k with used := true }, ?_, rfl⟩
  rw [hfile, fileKeys_dump, find?_cut, hkeys, find?_markUsed_self, hk]
  rfl

/-- A process that did not move. -/
theorem sane_other {s' : Site} {q : Process} (h : Sane s q) (hq : q ∈ s.procs) (hpath : s'.path = s.path)
    (hkey : ∀ k ∈ s'.created, KeyKept s s'.marked w' k) : Sane s' q := by
  refine ⟨?_, h.keys, h.nodes, ?_, ?_⟩
  · rw [hpath]
    exact h.path
  · exact fun k hk => ((hkey k hk).procs q hq).1
  · exact fun k hk => ((hkey k hk).procs q hq).2

/-- The process that has run the operation: what it has saved is its memory. -/
theorem sane_after {s' : Site} {p₁ : Process} {stage : Stage} (h : Sane s p) (hmem : p ∈ s.procs)
    (hran : Ran I io { store := p.store, file := s.file } o r w') (hw : Rewrote I s p o r w')
    (hpath : s'.path = s.path) (hkey : ∀ k ∈ s'.created, KeyKept s s'.marked w' k)
    (hseen : p₁.seenKeys = p.seenKeys ∧ p₁.seenNodes = p.seenNodes)
    (hcalls : ∀ c ∈ p₁.calls, ∀ ks, c.phase = .loaded (some ks) →
      ∃ c' ∈ p.calls, c'.phase = .loaded (some ks)) :
    Sane s' (p₁.after w' (o.comesToSave I p.store && r.toBool) stage) := by
  refine ⟨?_, ?_, ?_, ?_, ?_⟩
  · rw [hpath]
    exact hran.path.trans h.path
  · show Covers w'.store.keys (if _ then _ else p₁.seenKeys)
    split
    · rename_i hsaved
      obtain ⟨h1, h2⟩ := Bool.and_eq_true_iff.mp hsaved
      rw [hw.saved h1 h2, fileKeys_dump]
      exact covers_of_cut _
    · rw [hseen.1]
      exact hw.memory.trans h.keys
  · show (if _ then _ else p₁.seenNodes) ⊆ places w'.store
    split
    · rename_i hsaved
      obtain ⟨h1, h2⟩ := Bool.and_eq_true_iff.mp hsaved
      rw [hw.saved h1 h2, fileNodes_dump]
      exact List.Subset.refl _
    · rw [hseen.2]
      exact List.Subset.trans h.nodes hran.places
  · exact fun k hk => (hkey k hk).memory
  · intro k hk c hc ks hph
    obtain ⟨c', hc', hph'⟩ := hcalls c hc ks hph
    exact ((hkey k hk).procs p hmem).2 c' hc' ks hph'

/-- **A timely operation keeps the invariant.** -/
theorem kept_perform {i : Nat} {done failed : Stage} (h : Kept s) (hpath : s.path ≠ [])
    (hmem : p ∈ s.procs) (hok : s.inTime I p io o = true) {p₁ : Process} (hstore : p₁.store = p.store)
    (hseen : p₁.seenKeys = p.seenKeys ∧ p₁.seenNodes = p.seenNodes)
    (hcalls : ∀ c ∈ p₁.calls, ∀ ks, c.phase = .loaded (some ks) →
      ∃ c' ∈ p.calls, c'.phase = .loaded (some ks)) :
    Kept (s.perform I i p₁ io o done failed) := by
  have hsane := h.procs p hmem
  have hran := run_ran I io { store := p.store, file := s.file } o
  have hw := rewrote_of_ran hsane hpath hok hran
  simp only [Site.perform, hstore]
  generalize (o.run I io { store := p.store, file := s.file }).1 = r at hran hw ⊢
  generalize (o.run I io { store := p.store, file := s.file }).2 = w' at hran hw ⊢
  -- the site before its record
  obtain ⟨t, ht⟩ : ∃ t : Site, t = { s with
      file := w'.file
      procs := s.procs.set i (p₁.after w' (o.comesToSave I p.store && r.toBool)
        (if r.toBool then done else failed))
      marked := s.marked ++ o.marks I p.store } := ⟨_, rfl⟩
  rw [← ht]
  obtain ⟨htpath, htfile, htprocs, htmarked⟩ := record_rest t r
  have hkey : ∀ k ∈ (t.record r).created, KeyKept s (t.record r).marked w' k := by
    intro k hk
    rw [htmarked, ht]
    rcases record_created hk with hk | hk
    · exact keyKept_old h hmem hok hran hw (by rw [ht] at hk; exact hk)
    · exact keyKept_new hmem hok hran hw hk
  have hsame : (t.record r).path = s.path ∧ (t.record r).file = w'.file :=
    ⟨by rw [htpath, ht], by rw [htfile, ht]⟩
  refine ⟨?_, ?_, ?_, ?_⟩
  · intro q hq
    rw [htprocs, ht] at hq
    rcases List.mem_or_eq_of_mem_set hq with hq | rfl
    · exact sane_other (h.procs q hq) hq hsame.1 hkey
    · exact sane_after hsane hmem hran hw hsame.1 hkey hseen hcalls
  · intro k hk
    have hk' := hkey k hk
    refine ⟨?_, ?_, ?_⟩
    · rw [hsame.2]
      exact hk'.dumped
    · rw [hsame.2]
      exact hk'.entries
    · rw [hsame.2]
      exact hk'.listed
  · intro K hK
    rw [hsame.2]
    rcases record_spent hK with hK | hK
    · obtain ⟨e, he, hu⟩ := h.used K (by rw [ht] at hK; exact hK)
      obtain ⟨e', he', hu'⟩ := hw.keys K e he
      exact ⟨e', he', hu' hu⟩
    · exact spent_used hran hw hK
  · intro d hd
    rw [hsame.2]
    rcases record_registered hd with hd | hd
    · exact hw.nodes (h.nodes d (by rw [ht] at hd; exact hd))
    · obtain ⟨hs, hplace⟩ := hran.node d hd
      rw [hw.saved hs (by rw [hd]; rfl), fileNodes_dump]
      exact hplace

theorem kept_run {i : Nat} {done failed : Stage} (h : Kept s) (hpath : s.path ≠ [])
    (hget : s.procs[i]? = some p) (hok : s.inTime I p io o = true) :
    Kept (s.perform I i p io o done failed) :=
  kept_perform h hpath (List.mem_of_getElem? hget) hok rfl ⟨rfl, rfl⟩ fun c hc _ hph => ⟨c, hc, hph⟩

end Perform

/-! ## 6. Whole runs -/

section Runs

variable {I : Inet} {s s' : Site} {e : SiteEvent}

theorem at_some {i : Nat} {stage : Stage} {p : Process} (h : s.at i stage = some p) :
    s.procs[i]? = some p := (Option.filter_eq_some_iff.mp h).1

/-- A step that leaves the file and the record alone. -/
theorem kept_procs {procs : List Process} (h : Kept s) (hsane : ∀ q ∈ procs, Sane s q) :
    Kept { s with procs } := by
  refine ⟨fun q hq => ?_, fun k hk => ?_, h.used, h.nodes⟩
  · obtain ⟨h1, h2, h3, h4, h5⟩ := hsane q hq
    exact ⟨h1, h2, h3, h4, h5⟩
  · obtain ⟨h1, h2, h3⟩ := h.created k hk
    exact ⟨h1, h2, h3⟩

theorem kept_set {i : Nat} {p' : Process} (h : Kept s) (hsane : Sane s p') :
    Kept { s with procs := s.procs.set i p' } := by
  refine kept_procs h fun q hq => ?_
  rcases List.mem_or_eq_of_mem_set hq with hq | rfl
  · exact h.procs q hq
  · exact hsane

/-- The calls of a process after one of them has moved on. -/
theorem moved_images {p : Process} {n : Nat} {key : Bytes} {phase : CallPhase} {c : ConsumeCall} {ks : Json}
    (hc : c ∈ (p.moved n key phase).calls) (hph : c.phase = .loaded (some ks)) :
    c ∈ p.calls ∨ phase = .loaded (some ks) := by
  rcases List.mem_or_eq_of_mem_set hc with hc | rfl
  · exact .inl hc
  · exact .inr hph

theorem sane_moved {p : Process} {n : Nat} {key : Bytes} {phase : CallPhase} (h : Sane s p)
    (himage : ∀ k ∈ s.created, ∀ ks, phase = .loaded (some ks) → Entries s.marked k (keyList ks)) :
    Sane s (p.moved n key phase) := by
  refine ⟨h.path, h.keys, h.nodes, h.memory, fun k hk c hc ks hph => ?_⟩
  rcases moved_images hc hph with hc | hnew
  · exact h.images k hk c hc ks hph
  · exact himage k hk ks hnew

theorem sane_installed {p : Process} {n : Nat} {key : Bytes} {image : Option Json} (h : Sane s p)
    (hcall : p.calls[n]? = some ⟨key, .loaded image⟩) : Sane s (p.installed n key image) := by
  cases image with
  | none => exact sane_moved h fun k hk ks hph => nomatch hph
  | some ks =>
    have hmem := List.mem_of_getElem? hcall
    have hmoved : ∀ phase : CallPhase, (∀ ks, phase ≠ .loaded (some ks)) → Sane s (p.moved n key phase) :=
      fun phase hne => sane_moved h fun k hk ks hph => absurd hph (hne ks)
    have hphase : ∀ ks' : Json, (if (installKeys ks p.store).1.toBool then CallPhase.ready else .done) ≠
        .loaded (some ks') := by
      intro ks' hph
      split at hph
      · cases hph
      · cases hph
    have hm := hmoved _ hphase
    exact ⟨h.path, .refl _, h.nodes, fun k hk => h.images k hk _ hmem ks rfl, hm.images⟩

theorem kept_step (h : Kept s) (hpath : s.path ≠ []) (hok : timelySave I s e = true)
    (hs : siteStep I s e = some s') : Kept s' := by
  cases e with
  | load ipv4Cidr ipv6Cidr =>
    simp only [siteStep] at hs
    split at hs
    · cases hs
      exact h
    · rename_i store hload
      cases hs
      obtain ⟨hp, hk, hn⟩ := loadStore_lists hpath hload
      refine kept_procs h fun q hq => ?_
      rcases List.mem_append.mp hq with hq | hq
      · exact h.procs q hq
      · rw [List.mem_singleton.mp hq]
        refine ⟨hp, ?_, ?_, fun k hk' => ?_, fun k hk' c hc => (nomatch hc)⟩
        · rw [hk]
          exact .refl _
        · rw [hn]
          exact List.Subset.refl _
        · rw [hk]
          exact (h.created k hk').entries
  | init i io noise =>
    obtain ⟨p, hp, rfl⟩ := Option.map_eq_some_iff.mp hs
    have hget := at_some hp
    have hin : s.inTime I p io (.init noise) = true := by
      simpa only [timelySave, saving, hget, Option.map_some] using hok
    exact kept_run h hpath hget hin
  | boot i io now raw =>
    obtain ⟨p, hp, rfl⟩ := Option.map_eq_some_iff.mp hs
    have hget := at_some hp
    split
    · rename_i hempty
      have hin : s.inTime I p io (.create now raw true false [] none) = true := by
        simpa only [timelySave, saving, hget, Option.bind_some, if_pos hempty] using hok
      exact kept_run h hpath hget hin
    · obtain ⟨h1, h2, h3, h4, h5⟩ := h.procs p (List.mem_of_getElem? hget)
      exact kept_set h ⟨h1, h2, h3, h4, h5⟩
  | create i io now raw reusable ephemeral token shared =>
    obtain ⟨p, hp, rfl⟩ := Option.map_eq_some_iff.mp hs
    have hget := at_some hp
    have hin : s.inTime I p io (.create now raw reusable ephemeral token shared) = true := by
      simpa only [timelySave, saving, hget, Option.map_some] using hok
    exact kept_run h hpath hget hin
  | register i io machineKey nodeKey hostname ephemeral token shared =>
    obtain ⟨p, hp, rfl⟩ := Option.map_eq_some_iff.mp hs
    have hget := at_some hp
    have hin : s.inTime I p io (.register machineKey nodeKey hostname ephemeral token shared) = true := by
      simpa only [timelySave, saving, hget, Option.map_some] using hok
    exact kept_run h hpath hget hin
  | mapInfo i io machineKey nodeKey discoKey hostname endpoints =>
    obtain ⟨p, hp, rfl⟩ := Option.map_eq_some_iff.mp hs
    have hget := at_some hp
    have hin : s.inTime I p io (.mapInfo machineKey nodeKey discoKey hostname endpoints) = true := by
      simpa only [timelySave, saving, hget, Option.map_some] using hok
    exact kept_run h hpath hget hin
  | online i machineKey online =>
    obtain ⟨p, hp, rfl⟩ := Option.map_eq_some_iff.mp hs
    obtain ⟨h1, h2, h3, h4, h5⟩ := h.procs p (List.mem_of_getElem? (at_some hp))
    refine kept_set h ⟨h1, h2, ?_, h4, h5⟩
    rw [show places (setOnline machineKey online p.store) = places p.store from
      places_updateNode (online_identity online) machineKey p.store]
    exact h3
  | call i key =>
    obtain ⟨p, hp, rfl⟩ := Option.map_eq_some_iff.mp hs
    obtain ⟨h1, h2, h3, h4, h5⟩ := h.procs p (List.mem_of_getElem? (at_some hp))
    refine kept_set h ⟨h1, h2, h3, h4, fun k hk c hc ks hph => ?_⟩
    rcases List.mem_append.mp hc with hc | hc
    · exact h5 k hk c hc ks hph
    · rw [List.mem_singleton.mp hc] at hph
      cases hph
  | read i n =>
    obtain ⟨p, hp, hs⟩ := Option.bind_eq_some_iff.mp hs
    split at hs
    · cases hs
      refine kept_set h (sane_moved (h.procs p (List.mem_of_getElem? (at_some hp))) ?_)
      intro k hk ks hph
      rw [readImage_some (CallPhase.loaded.inj hph)]
      exact (h.created k hk).entries
    · cases hs
  | install i n =>
    obtain ⟨p, hp, hs⟩ := Option.bind_eq_some_iff.mp hs
    split at hs
    · rename_i key image hcall
      cases hs
      exact kept_set h (sane_installed (h.procs p (List.mem_of_getElem? (at_some hp))) hcall)
    · cases hs
  | check i n now io =>
    obtain ⟨p, hp, hs⟩ := Option.bind_eq_some_iff.mp hs
    split at hs
    · rename_i key hcall
      cases hs
      have hget := at_some hp
      have hin : s.inTime I p io (.check now key) = true := by
        simpa only [timelySave, saving, hget, Option.bind_some, hcall, Option.map_some] using hok
      refine kept_perform h hpath (List.mem_of_getElem? hget) hin rfl ⟨rfl, rfl⟩ ?_
      intro c hc ks hph
      rcases moved_images hc hph with hc | hne
      · exact ⟨c, hc, hph⟩
      · cases hne
    · cases hs

theorem perform_path (s : Site) (i : Nat) (p : Process) (io : SaveIo) (o : Op) (done failed : Stage) :
    (s.perform I i p io o done failed).path = s.path := by
  unfold Site.perform
  exact (record_rest _ _).1

theorem siteStep_path (hs : siteStep I s e = some s') : s'.path = s.path := by
  cases e with
  | load =>
    simp only [siteStep] at hs
    split at hs
    · cases hs
      rfl
    · cases hs
      rfl
  | init | create | register | mapInfo =>
    obtain ⟨p, _, rfl⟩ := Option.map_eq_some_iff.mp hs
    exact perform_path _ _ _ _ _ _ _
  | boot =>
    obtain ⟨p, _, rfl⟩ := Option.map_eq_some_iff.mp hs
    split
    · exact perform_path _ _ _ _ _ _ _
    · rfl
  | online | call =>
    obtain ⟨p, _, rfl⟩ := Option.map_eq_some_iff.mp hs
    rfl
  | read | install =>
    obtain ⟨p, _, hs⟩ := Option.bind_eq_some_iff.mp hs
    split at hs
    · cases hs
      rfl
    · cases hs
  | check =>
    obtain ⟨p, _, hs⟩ := Option.bind_eq_some_iff.mp hs
    split at hs
    · cases hs
      exact perform_path _ _ _ _ _ _ _
    · cases hs

/-- A key that the file lists as it was made, unspent, is accepted. -/
theorem accepts_of_listed {k : PreauthKey} {p : Process} (hpath : s.path ≠ []) (hk : Listed s k)
    (hp : Sane s p) (hunspent : k.reusable = true ∨ k.key ∉ s.marked) : Accepts s.file k p := by
  intro io now
  obtain ⟨t, ht⟩ := hk.dumped
  obtain ⟨e, he⟩ := hk.listed
  have hentry := hk.entries e he
  have hne : p.store.path ≠ [] := by
    rw [hp.path]
    exact hpath
  have hks : (snapshotLocked t).find (ascii "preauth_keys") = some (.arr (t.keys.map keyToJson)) := rfl
  have himage : readImage { store := p.store, file := s.file } = some (.arr (t.keys.map keyToJson)) := by
    rw [readImage, if_neg hne, ht]
    exact hks
  -- the reload goes through to the end
  have hinstall : installKeys (.arr (t.keys.map keyToJson)) p.store =
      (.ok (), { p.store with keys := t.keys.map cutKey }) := by
    rw [installKeys, pushKeys_dump]
    rfl
  have hfind : (t.keys.map cutKey).find? (·.key = k.key) = some e := by
    rw [← he, ht, fileKeys_dump]
  have hspent : ¬ (!e.reusable && e.used) = true := by
    intro hspent
    obtain ⟨h1, h2⟩ := Bool.and_eq_true_iff.mp hspent
    rcases hunspent with hr | hm
    · rw [hentry.reusable, hr] at h1
      cases h1
    · exact hm (hentry.used h2)
  refine ⟨{ store := { p.store with keys := t.keys.map cutKey }, file := s.file },
    { p.store with keys := markUsed k.key (t.keys.map cutKey) }, ?_⟩
  have hcheck : ∀ w : World, w.store.keys = t.keys.map cutKey → checkAndMark io now k.key w =
      commit io w { w.store with keys := markUsed k.key w.store.keys } (some k.claim) := by
    intro w hw
    unfold checkAndMark
    simp only [hw, hfind]
    rw [if_neg (fun hexp => hexp.1 hentry.expires), if_neg hspent, hentry.claim]
  unfold consumePreauth
  rw [himage]
  simp only [hinstall]
  exact hcheck _ rfl

end Runs

/-- **No update is lost in any run of timely saves**, of any number of processes on one state file,
    whatever the file held at the start. -/
theorem nothing_lost (I : Inet) (path : Bytes) (hpath : path ≠ []) (file : Option FileText)
    (es : List SiteEvent) (s : Site)
    (h : Run (Guarded (Of (siteStep I)) fun s e => timelySave I s e = true) { path, file } es s) :
    NothingLost s := by
  obtain ⟨hkept, hp⟩ : Kept s ∧ s.path = path := by
    refine h.inv_state (I := fun s => Kept s ∧ s.path = path) ⟨⟨?_, ?_, ?_, ?_⟩, rfl⟩ ?_
    · exact fun p hp => nomatch hp
    · exact fun k hk => nomatch hk
    · exact fun K hK => nomatch hK
    · exact fun d hd => nomatch hd
    · intro s e s' hs hstep
      have hne : s.path ≠ [] := by
        rw [hs.2]
        exact hpath
      exact ⟨kept_step hs.1 hne hstep.1 hstep.2, (siteStep_path hstep.2).trans hs.2⟩
  have hne : s.path ≠ [] := by
    rw [hp]
    exact hpath
  refine ⟨?_, hkept.used, hkept.nodes⟩
  intro k hk hunspent p hmem
  exact accepts_of_listed hne (hkept.created k hk) (hkept.procs p hmem) hunspent

/-! ### Concrete runs -/

/-- A process starts. -/
def starts (i : Nat) (noise raw : Bytes32) : List SiteEvent :=
  [.load (ascii "100.64.0.0/16") (ascii "fd7a:115c:a1e0::/48"), .init i {} noise, .boot i {} 0 raw]

/-- A first `consume_preauth` of process `i`, one section after the other. -/
def consumes (i : Nat) (key : Bytes) : List SiteEvent :=
  [.call i key, .read i 0, .install i 0, .check i 0 0 {}]

/-- The command line, process 1, makes a one-shot key; the server, process 0, registers a machine. -/
def creates : SiteEvent := .create 1 {} 0 (bytes32 [2]) false false [] none

def registers : SiteEvent := .register 0 {} (ascii "mkey:1") [] [] false [] true

/-- A first site: the state file is not there yet. -/
def newSite : Site := { path := ascii "state.json", file := none }

/-- The command line makes a key; the server accepts it and registers a machine with it. -/
def oneAfterTheOther : List SiteEvent :=
  starts 0 (bytes32 [7]) (bytes32 [1]) ++ starts 1 (bytes32 [8]) (bytes32 [9]) ++ [creates] ++
    consumes 0 (randomToken (bytes32 [2])) ++ [registers]

theorem nothing_lost_in_turn :
    ∃ s, Run (Guarded (Of (siteStep .sample)) fun s e => timelySave .sample s e = true) newSite
        oneAfterTheOther s ∧
      s.created.length = 2 ∧ s.spent = [randomToken (bytes32 [2])] ∧ s.registered.length = 1 ∧
      NothingLost s := by
  have hexec : (exec (checked (siteStep .sample) (timelySave .sample)) newSite oneAfterTheOther).map
      (fun s => (s.created.length, s.spent, s.registered.length)) =
        some (2, [randomToken (bytes32 [2])], 1) := by decide +kernel
  obtain ⟨s, hs, hrecord⟩ := Option.map_eq_some_iff.mp hexec
  simp only [Prod.mk.injEq] at hrecord
  refine ⟨s, guarded_of_exec hs, hrecord.1, hrecord.2.1, hrecord.2.2, ?_⟩
  exact nothing_lost .sample (ascii "state.json") (by decide) none _ s (guarded_of_exec hs)

/-- Some key that was returned and never marked is refused by some process. -/
def refusesKey (s : Site) : Bool :=
  s.created.any fun k => !s.marked.contains k.key && s.procs.any fun p =>
    match (consumePreauth {} 0 k.key { store := p.store, file := s.file }).1 with
    | .ok none => true
    | _ => false

theorem not_nothingLost {s : Site} (h : refusesKey s = true) : ¬ NothingLost s := by
  intro hlost
  obtain ⟨k, hk, hrefused⟩ := List.any_eq_true.mp h
  obtain ⟨hmarked, hany⟩ := Bool.and_eq_true_iff.mp hrefused
  obtain ⟨p, hp, hnone⟩ := List.any_eq_true.mp hany
  obtain ⟨w, st, hcommit⟩ := hlost.accepted k hk (.inr (by simpa using hmarked)) p hp {} 0
  rw [hcommit] at hnone
  rcases hc : commit {} w st (some k.claim) with ⟨r, w'⟩
  rw [hc] at hnone
  rcases (commit_cases hc).2.1 with rfl | ⟨e, rfl⟩
  · cases hnone
  · cases hnone

/-- A machine registers with the first key of the server. Between its `consume_preauth` and its
    `register_node` the command line starts, and makes a key. -/
def inBetween : List SiteEvent :=
  starts 0 (bytes32 [7]) (bytes32 [1]) ++ consumes 0 (randomToken (bytes32 [1])) ++
    starts 1 (bytes32 [8]) (bytes32 [9]) ++ [creates, registers]

/-- **A lost key.** The command line has returned a key; the save of the server's `register_node`
    takes it back, and the server refuses it from then on. -/
theorem update_lost :
    ∃ s, Run (Of (siteStep .sample)) newSite inBetween s ∧ ¬ NothingLost s := by
  have hexec : (exec (siteStep .sample) newSite inBetween).map refusesKey = some true := by
    decide +kernel
  obtain ⟨s, hs, hrefuses⟩ := Option.map_eq_some_iff.mp hexec
  exact ⟨s, run_of_exec hs, not_nothingLost hrefuses⟩

end Wirebone
