/-
  File:      Wirebone/Store/OneShot.lean
  Subject:   A ONE-SHOT KEY IS SPENT AT MOST ONCE, unless a stale file image brings it back.

  The used flag of a key lives in memory and in the file. A call that has read the file before
  another call's save, and replaces `keys_` after it, takes the mark back in memory.

  * `notStale` -- no step installs a key list that shows `K` unused when the file no longer does;
  * `SpentOnce` -- the invariant;
  * **`consume_once`** -- in every run of such steps at most one call returns `true`;
  * **`consume_twice`** -- two calls, one stale image: both return `true`.
-/
import Wirebone.Store.Machine

namespace Wirebone

open ByteString FirstMatch Lts

/-! ## 1. What the file lists -/

/-- The first entry of `K` that loading the key list `ks` gives. -/
def listed (K : Bytes) (ks : Json) : Option PreauthKey :=
  (pushUntil keyFromJson ks.items).1.find? (·.key = K)

/-- The first entry of `K` in the state file. -/
def fileListed (K : Bytes) (w : World) : Option PreauthKey := (readImage w).bind (listed K)

/-- An entry that can be spent. -/
def unspent : Option PreauthKey → Bool
  | some k => !k.used
  | none => false

/-- A step of a `consume_preauth` call that does not replace `keys_` by a list that shows `K`
    unused when the state file no longer does. -/
def notStale (K : Bytes) (p : Proc) : Act → Bool
  | .call _ => true
  | .read _ => true
  | .check _ _ _ => true
  | .install i =>
    match p.calls[i]? with
    | some ⟨_, .loaded (some ks)⟩ => !unspent (listed K ks) || unspent (fileListed K p.world)
    | _ => true
  | _ => false

/-- An entry of a key that is not reusable, used where `spent`. -/
def OneShot (spent : Prop) (k : PreauthKey) : Prop := k.reusable = false ∧ (spent → k.used = true)

/-- The images under way list `K` as one-shot. -/
def Images (K : Bytes) (calls : List ConsumeCall) : Prop :=
  ∀ c ∈ calls, ∀ ks, c.phase = .loaded (some ks) → ∀ k, listed K ks = some k → k.reusable = false

/-- **The invariant**: memory, file and the images under way list `K` as one-shot, memory and file
    as used once a call has returned `true`. -/
structure SpentOnce (K : Bytes) (p : Proc) : Prop where
  memory : ∀ k, p.world.store.keys.find? (·.key = K) = some k → OneShot (K ∈ p.granted) k
  file : ∀ k, fileListed K p.world = some k → OneShot (K ∈ p.granted) k
  images : Images K p.calls
  once : p.granted.count K ≤ 1

section Consume

variable {I : Inet} {K : Bytes} {p p' : Proc}

theorem listed_saved (K : Bytes) (keys : List PreauthKey) :
    listed K (.arr (keys.map keyToJson)) = (keys.find? (·.key = K)).map cutKey := by
  rw [listed, pushKeys_dump, List.find?_map]
  rfl

/-- What the file lists right after a save: what memory lists, or nothing. -/
theorem fileListed_saved {w : World} {io : SaveIo} {s : Store}
    (hf : w.file = some (io.text (snapshotLocked s))) :
    fileListed K w = none ∨ fileListed K w = (s.keys.find? (·.key = K)).map cutKey := by
  by_cases hp : w.store.path = []
  · left
    rw [fileListed, readImage, if_pos hp]
    rfl
  · rw [fileListed, readImage, if_neg hp, hf, SaveIo.text]
    cases io.stored with
    | whole =>
      right
      exact listed_saved K s.keys
    | part => exact .inl rfl
    | nothing => exact .inl rfl

/-- What the file lists depends on the path and the file alone. -/
theorem fileListed_congr {w w' : World} (hp : w'.store.path = w.store.path) (hf : w'.file = w.file) :
    fileListed K w' = fileListed K w := by
  rw [fileListed, fileListed, readImage, readImage, hp, hf]

theorem oneShot_cut {spent : Prop} {k : PreauthKey} (h : OneShot spent k) : OneShot spent (cutKey k) :=
  h

theorem find?_markUsed_self (K : Bytes) (keys : List PreauthKey) :
    (markUsed K keys).find? (·.key = K) =
      (keys.find? (·.key = K)).map fun k => { k with used := true } :=
  find?_modifyFirst (p := fun k : PreauthKey => k.key = K)
    (f := fun k : PreauthKey => { k with used := true }) (fun _ h => h) keys

theorem find?_markUsed_other {K K' : Bytes} (h : K' ≠ K) (keys : List PreauthKey) :
    (markUsed K' keys).find? (·.key = K) = keys.find? (·.key = K) := by
  refine find?_modifyFirst_other (fun k hk => ?_) keys
  have hk' : k.key = K' := by simpa using hk
  simp [hk', h]

/-- A save keeps what holds of the file's entry of `K`, where the keys saved have it. -/
theorem file_of_commit {α : Type} {io : SaveIo} {w w' : World} {s : Store} {a : α}
    {r : Except Exn α} {P : PreauthKey → Prop} (hcut : ∀ k, P k → P (cutKey k))
    (h : commit io w s a = (r, w')) (hpath : s.path = w.store.path)
    (hfile : ∀ k, fileListed K w = some k → P k)
    (hmem : ∀ k, s.keys.find? (·.key = K) = some k → P k) :
    ∀ k, fileListed K w' = some k → P k := by
  obtain ⟨hstore, _, hf, _⟩ := commit_cases h
  intro k hk
  rcases hf with hf | ⟨_, hf⟩
  · refine hfile k ?_
    rw [← hk, fileListed_congr (by rw [hstore, hpath]) hf]
  · rcases fileListed_saved (K := K) hf with hn | hn
    · rw [hn] at hk
      cases hk
    · rw [hn] at hk
      obtain ⟨k', hk', rfl⟩ := Option.map_eq_some_iff.mp hk
      exact hcut k' (hmem k' hk')

/-- After a successful save the file's entry of `K` is what memory has. -/
theorem file_of_saved {α : Type} {io : SaveIo} {w w' : World} {s : Store} {a b : α}
    {P : PreauthKey → Prop} (hcut : ∀ k, P k → P (cutKey k)) (h : commit io w s a = (.ok b, w'))
    (hmem : ∀ k, s.keys.find? (·.key = K) = some k → P k) :
    ∀ k, fileListed K w' = some k → P k := by
  obtain ⟨hstore, _, _, hok⟩ := commit_cases h
  intro k hk
  by_cases hp : s.path = []
  · rw [fileListed, readImage, hstore, if_pos hp] at hk
    cases hk
  · rcases fileListed_saved (K := K) (hok b rfl hp) with hn | hn
    · rw [hn] at hk
      cases hk
    · rw [hn] at hk
      obtain ⟨k', hk', rfl⟩ := Option.map_eq_some_iff.mp hk
      exact hcut k' (hmem k' hk')

/-! ## 2. The steps -/

theorem Images.set {calls : List ConsumeCall} {i : Nat} {c : ConsumeCall} (h : Images K calls)
    (hc : ∀ ks, c.phase = .loaded (some ks) → ∀ k, listed K ks = some k → k.reusable = false) :
    Images K (calls.set i c) := by
  intro d hd ks hks
  rcases List.mem_or_eq_of_mem_set hd with hd | rfl
  · exact h d hd ks hks
  · exact hc ks hks

/-- A call that moves past its image. -/
theorem Images.passed {calls : List ConsumeCall} {i : Nat} {key : Bytes} {phase : CallPhase}
    (h : Images K calls) (hph : ∀ ks, phase ≠ .loaded (some ks)) :
    Images K (calls.set i { key, phase }) :=
  h.set fun ks hks => absurd hks (hph ks)

/-- The read: what the call holds now is what the file lists. -/
theorem spentOnce_read {i : Nat} {key : Bytes} (h : SpentOnce K p) :
    SpentOnce K (p.moved i key (.loaded (readImage p.world))) := by
  refine ⟨h.memory, h.file, h.images.set ?_, h.once⟩
  intro ks hks k hk
  have him : readImage p.world = some ks := by simpa using hks
  refine (h.file k ?_).1
  rw [fileListed, him]
  exact hk

/-- The replacement of `keys_`. -/
theorem spentOnce_install {i : Nat} {key : Bytes} {image : Option Json} (h : SpentOnce K p)
    (hcall : p.calls[i]? = some ⟨key, .loaded image⟩)
    (hfresh : ∀ ks, image = some ks → unspent (listed K ks) = true →
      unspent (fileListed K p.world) = true) : SpentOnce K (p.installed i key image) := by
  cases image with
  | none =>
    refine ⟨h.memory, h.file, h.images.passed ?_, h.once⟩
    intro ks hne
    cases hne
  | some ks =>
    have hmem : ∀ k, listed K ks = some k → OneShot (K ∈ p.granted) k := by
      intro k hk
      refine ⟨h.images _ (List.mem_of_getElem? hcall) ks rfl k hk, fun hg => ?_⟩
      -- were the entry unused, the file would list an unused one too
      by_contra hu
      have hun : unspent (listed K ks) = true := by
        rw [hk]
        simpa [unspent] using hu
      have hfile := hfresh ks rfl hun
      cases hfl : fileListed K p.world with
      | none =>
        rw [hfl] at hfile
        cases hfile
      | some k' =>
        rw [hfl] at hfile
        have hused := (h.file k' hfl).2 hg
        simp [unspent, hused] at hfile
    rcases hi : installKeys ks p.world.store with ⟨r, s⟩
    have hs := installKeys_store hi
    have hp : s.path = p.world.store.path := by rw [hs]
    have hkeys : s.keys.find? (·.key = K) = listed K ks := by rw [hs]; rfl
    have hinv : ∀ phase, (∀ ks, phase ≠ .loaded (some ks)) →
        SpentOnce K (({ p with world := { p.world with store := s } } : Proc).moved i key phase) := by
      intro phase hph
      refine ⟨fun k hk => hmem k (hkeys ▸ hk), fun k hk => h.file k ?_, h.images.passed hph, h.once⟩
      rw [← hk]
      have hcongr : fileListed K { p.world with store := s } = fileListed K p.world :=
        fileListed_congr hp rfl
      exact hcongr.symm
    cases r with
    | ok u =>
      rw [Proc.installed, hi]
      refine hinv .ready ?_
      intro ks hne
      cases hne
    | error e =>
      rw [Proc.installed, hi]
      refine hinv .done ?_
      intro ks hne
      cases hne

/-- The check: it returns `true` for an entry that is unused, and marks it. -/
theorem spentOnce_check {i : Nat} {key : Bytes} {now : Int} {io : SaveIo} (h : SpentOnce K p) :
    SpentOnce K (p.checked i key now io) := by
  unfold Proc.checked
  rcases hc : checkAndMark io now key p.world with ⟨r, w⟩
  rcases checkAndMark_cases hc with ⟨rfl, rfl⟩ | ⟨k, hk, _, hspend, hcommit⟩
  · exact ⟨h.memory, h.file, h.images.passed (fun _ hne => nomatch hne), h.once⟩
  · have hkeys : w.store.keys = markUsed key p.world.store.keys := by
      rw [(commit_cases hcommit).1]
    by_cases hkey : key = K
    · subst hkey
      -- the entry was unused, so `K` had not been granted
      have hone := h.memory k hk
      have hng : key ∉ p.granted := by
        intro hg
        rcases hspend with hr | hu
        · rw [hone.1] at hr
          cases hr
        · rw [hone.2 hg] at hu
          cases hu
      have hmem : ∀ spent : Prop, ∀ k', (markUsed key p.world.store.keys).find? (·.key = key) = some k' →
          OneShot spent k' := by
        intro spent k' hk'
        rw [find?_markUsed_self, hk] at hk'
        obtain rfl := Option.some.inj hk'
        exact ⟨hone.1, fun _ => rfl⟩
      have hcount : p.granted.count key = 0 := List.count_eq_zero.mpr hng
      rcases r with e | _ | claim
      · refine ⟨?_, file_of_commit (fun _ => oneShot_cut) hcommit rfl h.file (hmem _),
          h.images.passed (fun _ hne => nomatch hne), h.once⟩
        intro k' hk'
        exact hmem _ k' (hkeys ▸ hk')
      · rcases (commit_cases hcommit).2.1 with hr | ⟨e, hr⟩
        · cases hr
        · cases hr
      · refine ⟨?_, file_of_saved (fun _ => oneShot_cut) hcommit (hmem _),
          h.images.passed (fun _ hne => nomatch hne), ?_⟩
        · intro k' hk'
          exact hmem _ k' (hkeys ▸ hk')
        · show (p.granted ++ [key]).count key ≤ 1
          rw [List.count_append, hcount]
          simp
    · have hmem : ∀ k', (markUsed key p.world.store.keys).find? (·.key = K) = some k' →
          OneShot (K ∈ p.granted) k' := by
        intro k' hk'
        rw [find?_markUsed_other hkey] at hk'
        exact h.memory k' hk'
      have hfile := file_of_commit (K := K) (fun _ => oneShot_cut) hcommit rfl h.file hmem
      have hmem' : ∀ k', w.store.keys.find? (·.key = K) = some k' → OneShot (K ∈ p.granted) k' := by
        intro k' hk'
        exact hmem k' (hkeys ▸ hk')
      have hgr : (K ∈ p.granted ++ [key]) = (K ∈ p.granted) := by
        simp [Ne.symm hkey]
      rcases r with e | _ | claim
      · exact ⟨hmem', hfile, h.images.passed (fun _ hne => nomatch hne), h.once⟩
      · exact ⟨hmem', hfile, h.images.passed (fun _ hne => nomatch hne), h.once⟩
      · refine ⟨?_, ?_, h.images.passed (fun _ hne => nomatch hne), ?_⟩
        · intro k' hk'
          show OneShot (K ∈ p.granted ++ [key]) k'
          rw [hgr]
          exact hmem' k' hk'
        · intro k' hk'
          show OneShot (K ∈ p.granted ++ [key]) k'
          rw [hgr]
          exact hfile k' hk'
        · show (p.granted ++ [key]).count K ≤ 1
          rw [List.count_append, List.count_singleton]
          simp only [beq_iff_eq, hkey, if_false, Nat.add_zero]
          exact h.once

theorem spentOnce_step {e : Act} (h : SpentOnce K p) (hok : notStale K p e = true)
    (hs : step I p e = some p') : SpentOnce K p' := by
  cases e with
  | call key =>
    cases hs
    refine ⟨h.memory, h.file, ?_, h.once⟩
    intro c hc ks hks
    rcases List.mem_append.mp hc with hc | hc
    · exact h.images c hc ks hks
    · rw [List.mem_singleton.mp hc] at hks
      cases hks
  | read i =>
    obtain ⟨key, _, rfl⟩ := step_read hs
    exact spentOnce_read h
  | install i =>
    obtain ⟨key, image, hcall, rfl⟩ := step_install hs
    refine spentOnce_install h hcall ?_
    rintro ks rfl hun
    simpa [notStale, hcall, hun] using hok
  | check i now io =>
    obtain ⟨key, _, rfl⟩ := step_check hs
    exact spentOnce_check h
  | create | register | mapInfo | online | dump | load => cases hok

end Consume

/-! ## 3. Over whole runs -/

/-- **One-shot keys are spent at most once**: in every run of any number of `consume_preauth`
    calls, in any order of their sections, none of which installs a stale entry of `K`, at most
    one call for the one-shot key `K` returns `true`. -/
theorem consume_once (I : Inet) (K : Bytes) (w : World)
    (hmem : ∀ k, w.store.keys.find? (·.key = K) = some k → k.reusable = false)
    (hfile : ∀ k, fileListed K w = some k → k.reusable = false) (es : List Act) (p : Proc)
    (h : Run (Guarded (Of (step I)) fun p e => notStale K p e = true) { world := w } es p) :
    p.granted.count K ≤ 1 := by
  refine (h.inv_state (I := SpentOnce K) ?_ ?_).once
  · refine ⟨fun k hk => ⟨hmem k hk, ?_⟩, fun k hk => ⟨hfile k hk, ?_⟩, ?_, Nat.zero_le 1⟩
    · intro hg
      cases hg
    · intro hg
      cases hg
    · intro c hc
      cases hc
  · intro p e p' hp hs
    exact spentOnce_step hp hs.1 hs.2

/-- A store with a state file and one key `K`, not reusable, unused; both as after a save. -/
def oneKeyStore : Store :=
  { path := ascii "state.json"
    alloc := { ipv4Base := 0x64400000, ipv4Prefix := 16, ipv4Hosts := 65535
               ipv6Base := ⟨List.replicate 16 0, rfl⟩, ipv6Prefix := 48 }
    keys := [{ key := ascii "K", reusable := false }] }

def oneKeyWorld : World := { store := oneKeyStore, file := some (.json (snapshotLocked oneKeyStore)) }

/-- Address functions for runs that allocate no address. -/
def noInet : Inet := { pton4 := fun _ => none, pton6 := fun _ => none, ntop6 := fun b => b.val }

/-- Two calls for `K`; the second has read the file before the first has marked the key, and
    replaces `keys_` after it. -/
def staleRun : List Act :=
  [.call (ascii "K"), .call (ascii "K"), .read 0, .read 1, .install 0, .check 0 0 {}, .install 1,
    .check 1 0 {}]

/-- Both calls return `true` for the one-shot key. -/
theorem consume_twice :
    ∃ p, Run (Of (step noInet)) { world := oneKeyWorld } staleRun p ∧
      oneKeyWorld.store.keys = [{ key := ascii "K", reusable := false }] ∧
      p.granted.count (ascii "K") = 2 := by
  have hrun : (exec (step noInet) { world := oneKeyWorld } staleRun).map
      (fun p => p.granted.count (ascii "K")) = some 2 := by decide +kernel
  obtain ⟨p, hp, hcount⟩ := Option.map_eq_some_iff.mp hrun
  exact ⟨p, run_of_exec hp, rfl, hcount⟩

/-- Two calls for `K`, one after the other: every image is the file's. -/
def sequentialRun : List Act :=
  [.call (ascii "K"), .read 0, .install 0, .check 0 0 {}, .call (ascii "K"), .read 1, .install 1,
    .check 1 0 {}]

theorem consume_once_sequential :
    ∃ p, Run (Guarded (Of (step noInet)) fun p e => notStale (ascii "K") p e = true)
        { world := oneKeyWorld } sequentialRun p ∧
      p.granted = [ascii "K"] ∧ p.granted.count (ascii "K") ≤ 1 := by
  have hexec : (exec (checked (step noInet) (notStale (ascii "K"))) { world := oneKeyWorld }
      sequentialRun).map (·.granted) = some [ascii "K"] := by decide +kernel
  obtain ⟨p, hp, hgranted⟩ := Option.map_eq_some_iff.mp hexec
  have hrun := guarded_of_exec hp
  refine ⟨p, hrun, hgranted, ?_⟩
  refine consume_once noInet (ascii "K") oneKeyWorld ?_ ?_ sequentialRun p hrun
  · intro k hk
    have hone : some { key := ascii "K", reusable := false } = some k := hk
    obtain rfl := Option.some.inj hone
    rfl
  · intro k hk
    have hone : some { key := ascii "K", reusable := false } = some k := hk
    obtain rfl := Option.some.inj hone
    rfl

end Wirebone
