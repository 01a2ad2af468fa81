/-
  File:      Wirebone/Store/LostKey.lean
  Subject:   WHETHER A KEY THAT WAS RETURNED STAYS, with many threads on one store.

  `reload_keys_from_disk` reads the file without the mutex. A key made between the read and the
  replacement of `keys_` is in the file and in memory, and not in the image: the replacement takes
  it out of memory, and the next save out of the file.

  * `Keeper` -- the machine of `Store/Machine` with a record of the keys `create_preauth_key` has
    returned;
  * `keepsKeys` -- no image is installed that misses a key the file lists by now;
  * **`keys_kept`** -- in every run of such steps every key that was returned is in memory and in
    the file; **`key_lost`** -- a call that has read the file before a key was made.
-/
import Wirebone.Store.LostUpdate

namespace Wirebone

open ByteString FirstMatch Lts

/-! ## 1. The machine -/

/-- A process, with the keys that its `create_preauth_key` calls have returned. -/
structure Keeper where
  proc : Proc
  returned : List Bytes := []

/-- What a `create_preauth_key` returns. -/
def returnedBy (p : Proc) : Act → List Bytes
  | .create io now raw reusable ephemeral expiration token shared =>
    match (createPreauthKey io now raw reusable ephemeral expiration token shared p.world).1 with
    | .ok key => [key]
    | .error _ => []
  | _ => []

/-- A step of a `create_preauth_key` or a `consume_preauth` call. -/
def keyAct : Act → Bool
  | .call _ => true
  | .read _ => true
  | .install _ => true
  | .check _ _ _ => true
  | .create _ _ _ _ _ _ _ _ => true
  | _ => false

def keeperStep (I : Inet) (k : Keeper) (e : Act) : Option Keeper :=
  if keyAct e then
    (step I k.proc e).map fun p => { proc := p, returned := k.returned ++ returnedBy k.proc e }
  else none

/-- No call is in progress. -/
def Proc.quiet (p : Proc) : Bool :=
  p.calls.all fun c =>
    match c.phase with
    | .done => true
    | _ => false

/-! ## 2. The property and the condition -/

def keyStrings (keys : List PreauthKey) : List Bytes := keys.map (·.key)

/-- **No key is lost**: what was returned is in `keys_` and in the state file. -/
structure KeysKept (k : Keeper) : Prop where
  memory : k.returned ⊆ keyStrings k.proc.world.store.keys
  file : k.returned ⊆ keyStrings (fileKeys k.proc.world.file)

/-- **The condition on a step**: an image is installed only where it lists every key that the file
    lists by now, and what a save writes is stored whole. -/
def keepsKeys (k : Keeper) : Act → Bool
  | .install i =>
    match k.proc.calls[i]? with
    | some ⟨_, .loaded (some ks)⟩ =>
      (keyStrings (fileKeys k.proc.world.file)).all fun K => decide (K ∈ keyStrings (keyList ks))
    | _ => true
  | .check _ _ io => decide (io.stored = .whole)
  | .create io _ _ _ _ _ _ _ => decide (io.stored = .whole)
  | _ => true

/-! ## 3. The steps -/

section Steps

variable {I : Inet} {k k' : Keeper} {w w' : World} {io : SaveIo} {s : Store} {returned : List Bytes}

theorem keyStrings_markUsed (key : Bytes) (keys : List PreauthKey) :
    keyStrings (markUsed key keys) = keyStrings keys :=
  modifyFirst_map (f := fun k : PreauthKey => { k with used := true }) (fun _ => rfl) keys

/-- A dump lists the keys of memory. -/
theorem keyStrings_dump (t : Store) :
    keyStrings (fileKeys (some (.json (snapshotLocked t)))) = keyStrings t.keys := by
  rw [fileKeys_dump, keyStrings, keyStrings, List.map_map]
  rfl

/-- A section that ends in a save, of keys that hold all that was returned. -/
theorem kept_of_commit {α : Type} {a : α} {r : Except Exn α} (h : commit io w s a = (r, w'))
    (hwhole : io.stored = .whole) (hmem : returned ⊆ keyStrings s.keys)
    (hfile : returned ⊆ keyStrings (fileKeys w.file)) :
    returned ⊆ keyStrings w'.store.keys ∧ returned ⊆ keyStrings (fileKeys w'.file) := by
  obtain ⟨hstore, _, hf, _⟩ := commit_cases h
  refine ⟨by rw [hstore]; exact hmem, ?_⟩
  rcases hf with hf | ⟨_, hf⟩
  · rw [hf]
    exact hfile
  · rw [hf, SaveIo.text, hwhole, keyStrings_dump]
    exact hmem

/-- The key that `create_preauth_key` returns is in memory and in the file. -/
theorem created_of_commit {a : Bytes} {b : Bytes} (h : commit io w s a = (.ok b, w'))
    (hwhole : io.stored = .whole) (hpath : s.path ≠ []) (hmem : a ∈ keyStrings s.keys) :
    b ∈ keyStrings w'.store.keys ∧ b ∈ keyStrings (fileKeys w'.file) := by
  obtain ⟨hstore, hr, _, hok⟩ := commit_cases h
  have hb : b = a := by
    rcases hr with hr | ⟨e, hr⟩
    · exact Except.ok.inj hr
    · cases hr
  subst hb
  refine ⟨by rw [hstore]; exact hmem, ?_⟩
  rw [hok b rfl hpath, SaveIo.text, hwhole, keyStrings_dump]
  exact hmem

/-- The replacement of `keys_` by an image that lists what the file lists. -/
theorem keysKept_install {i : Nat} {key : Bytes} {image : Option Json} (h : KeysKept k)
    (hfresh : ∀ ks, image = some ks →
      keyStrings (fileKeys k.proc.world.file) ⊆ keyStrings (keyList ks)) :
    KeysKept { proc := k.proc.installed i key image, returned := k.returned } ∧
      (k.proc.installed i key image).world.store.path = k.proc.world.store.path := by
  cases image with
  | none => exact ⟨⟨h.memory, h.file⟩, rfl⟩
  | some ks =>
    have hmem : k.returned ⊆ keyStrings (keyList ks) := fun K hK => hfresh ks rfl (h.file hK)
    rcases hi : installKeys ks k.proc.world.store with ⟨_ | _, s⟩
    · rw [Proc.installed, hi, installKeys_store hi]
      exact ⟨⟨hmem, h.file⟩, rfl⟩
    · rw [Proc.installed, hi, installKeys_store hi]
      exact ⟨⟨hmem, h.file⟩, rfl⟩

/-- The locked half of `consume_preauth`. -/
theorem keysKept_check {i : Nat} {key : Bytes} {now : Int} (h : KeysKept k)
    (hwhole : io.stored = .whole) :
    KeysKept { proc := k.proc.checked i key now io, returned := k.returned } ∧
      (k.proc.checked i key now io).world.store.path = k.proc.world.store.path := by
  rcases hc : checkAndMark io now key k.proc.world with ⟨r, w⟩
  have hworld : (k.proc.checked i key now io).world = w := by
    rw [Proc.checked, hc]
    rcases r with _ | _ | _
    · rfl
    · rfl
    · rfl
  have hkept : (k.returned ⊆ keyStrings w.store.keys ∧ k.returned ⊆ keyStrings (fileKeys w.file)) ∧
      w.store.path = k.proc.world.store.path := by
    rcases checkAndMark_cases hc with ⟨_, rfl⟩ | ⟨_, _, _, _, hcommit⟩
    · exact ⟨⟨h.memory, h.file⟩, rfl⟩
    · refine ⟨kept_of_commit hcommit hwhole ?_ h.file, ?_⟩
      · rw [keyStrings_markUsed]
        exact h.memory
      · rw [(commit_cases hcommit).1]
  refine ⟨⟨?_, ?_⟩, ?_⟩
  · show k.returned ⊆ keyStrings (k.proc.checked i key now io).world.store.keys
    rw [hworld]
    exact hkept.1.1
  · show k.returned ⊆ keyStrings (fileKeys (k.proc.checked i key now io).world.file)
    rw [hworld]
    exact hkept.1.2
  · rw [hworld]
    exact hkept.2

/-- `create_preauth_key`. -/
theorem keysKept_create {now expiration : Int} {raw : Bytes32} {reusable ephemeral : Bool}
    {token : Bytes} {shared : Option Bool} (h : KeysKept k) (hpath : k.proc.world.store.path ≠ [])
    (hwhole : io.stored = .whole)
    (hs : step I k.proc (.create io now raw reusable ephemeral expiration token shared) = some k'.proc)
    (hret : k'.returned = k.returned ++
      returnedBy k.proc (.create io now raw reusable ephemeral expiration token shared)) :
    KeysKept k' ∧ k'.proc.world.store.path = k.proc.world.store.path := by
  rcases hc : createPreauthKey io now raw reusable ephemeral expiration token shared k.proc.world
    with ⟨r, w⟩
  have hworld : k'.proc.world = w := by
    simp only [step, hc, Option.some.injEq] at hs
    rw [← hs]
  have hold : k.returned ⊆ keyStrings w.store.keys ∧ k.returned ⊆ keyStrings (fileKeys w.file) := by
    refine kept_of_commit hc hwhole ?_ h.file
    intro K hK
    rw [keyStrings, List.map_append]
    exact List.mem_append_left _ (h.memory hK)
  have hnew : returnedBy k.proc (.create io now raw reusable ephemeral expiration token shared) ⊆
        keyStrings w.store.keys ∧
      returnedBy k.proc (.create io now raw reusable ephemeral expiration token shared) ⊆
        keyStrings (fileKeys w.file) := by
    simp only [returnedBy, hc]
    cases r with
    | error e => exact ⟨List.nil_subset _, List.nil_subset _⟩
    | ok key =>
      have hin := created_of_commit hc hwhole hpath (by simp [keyStrings])
      exact ⟨List.cons_subset.mpr ⟨hin.1, List.nil_subset _⟩,
        List.cons_subset.mpr ⟨hin.2, List.nil_subset _⟩⟩
  refine ⟨⟨?_, ?_⟩, ?_⟩
  · rw [hret, hworld]
    exact List.append_subset.mpr ⟨hold.1, hnew.1⟩
  · rw [hret, hworld]
    exact List.append_subset.mpr ⟨hold.2, hnew.2⟩
  · rw [hworld, (createPreauthKey_cases hc).1]

theorem keysKept_step {e : Act} (h : KeysKept k) (hpath : k.proc.world.store.path ≠ [])
    (hok : keepsKeys k e = true) (hs : keeperStep I k e = some k') :
    KeysKept k' ∧ k'.proc.world.store.path = k.proc.world.store.path := by
  unfold keeperStep at hs
  split at hs
  · rename_i hact
    obtain ⟨p, hp, rfl⟩ := Option.map_eq_some_iff.mp hs
    cases e with
    | call key =>
      cases hp
      rw [show returnedBy k.proc (.call key) = [] from rfl, List.append_nil]
      exact ⟨⟨h.memory, h.file⟩, rfl⟩
    | read i =>
      obtain ⟨key, _, rfl⟩ := step_read hp
      rw [show returnedBy k.proc (.read i) = [] from rfl, List.append_nil]
      exact ⟨⟨h.memory, h.file⟩, rfl⟩
    | install i =>
      obtain ⟨key, image, hcall, rfl⟩ := step_install hp
      rw [show returnedBy k.proc (.install i) = [] from rfl, List.append_nil]
      refine keysKept_install h ?_
      rintro ks rfl K hK
      simp only [keepsKeys, hcall, List.all_eq_true, decide_eq_true_eq] at hok
      exact hok K hK
    | check i now io =>
      obtain ⟨key, _, rfl⟩ := step_check hp
      rw [show returnedBy k.proc (.check i now io) = [] from rfl, List.append_nil]
      exact keysKept_check h (of_decide_eq_true hok)
    | create io now raw reusable ephemeral expiration token shared =>
      exact keysKept_create h hpath (of_decide_eq_true hok) hp rfl
    | register | mapInfo | online | dump | load => cases hact
  · cases hs

end Steps

/-! ## 4. Over whole runs -/

/-- **No key is lost**: in every run of `create_preauth_key` and `consume_preauth` calls, in any
    order of their sections, none of which installs an image that misses a key the file lists,
    every key that was returned is in memory and in the file. -/
theorem keys_kept (I : Inet) (w : World) (hpath : w.store.path ≠ []) (es : List Act) (k : Keeper)
    (h : Run (Guarded (Of (keeperStep I)) fun k e => keepsKeys k e = true)
      { proc := { world := w } } es k) :
    ∀ K ∈ k.returned, K ∈ keyStrings k.proc.world.store.keys ∧
      K ∈ keyStrings (fileKeys k.proc.world.file) := by
  have hinv : KeysKept k ∧ k.proc.world.store.path ≠ [] := by
    refine h.inv_state (I := fun k => KeysKept k ∧ k.proc.world.store.path ≠ []) ?_ ?_
    · exact ⟨⟨List.nil_subset _, List.nil_subset _⟩, hpath⟩
    · intro k e k' hk hs
      obtain ⟨hkept, hp⟩ := keysKept_step hk.1 hk.2 hs.1 hs.2
      exact ⟨hkept, by rw [hp]; exact hk.2⟩
  exact fun K hK => ⟨hinv.1.memory hK, hinv.1.file hK⟩

/-- A call for `K` has read the file when a key is made, and replaces `keys_` after it. -/
def staleReload : List Act :=
  [.call (ascii "K"), .read 0, .create {} 0 zero32 true false 0 [] none, .install 0, .check 0 0 {}]

/-- No call is in progress, and the key that was returned is neither in memory nor in the file. -/
theorem key_lost :
    ∃ k, Run (Of (keeperStep noInet)) { proc := { world := oneKeyWorld } } staleReload k ∧
      k.proc.quiet = true ∧ k.returned = [randomToken zero32] ∧
      randomToken zero32 ∉ keyStrings k.proc.world.store.keys ∧
      randomToken zero32 ∉ keyStrings (fileKeys k.proc.world.file) := by
  have hexec : (exec (keeperStep noInet) { proc := { world := oneKeyWorld } } staleReload).map
      (fun k => (k.proc.quiet, k.returned, keyStrings k.proc.world.store.keys,
        keyStrings (fileKeys k.proc.world.file))) =
      some (true, [randomToken zero32], [ascii "K"], [ascii "K"]) := by decide +kernel
  obtain ⟨k, hk, hval⟩ := Option.map_eq_some_iff.mp hexec
  obtain ⟨hquiet, hret, hmem, hfile⟩ : _ ∧ _ ∧ _ ∧ _ := by simpa only [Prod.mk.injEq] using hval
  refine ⟨k, run_of_exec hk, hquiet, hret, ?_, ?_⟩
  · rw [hmem]
    decide +kernel
  · rw [hfile]
    decide +kernel

/-- The key is made before the file is read. -/
def timelyReload : List Act :=
  [.call (ascii "K"), .create {} 0 zero32 true false 0 [] none, .read 0, .install 0, .check 0 0 {}]

theorem keys_kept_timely :
    ∃ k, Run (Guarded (Of (keeperStep noInet)) fun k e => keepsKeys k e = true)
        { proc := { world := oneKeyWorld } } timelyReload k ∧
      k.proc.quiet = true ∧ randomToken zero32 ∈ k.returned ∧
      randomToken zero32 ∈ keyStrings k.proc.world.store.keys ∧
      randomToken zero32 ∈ keyStrings (fileKeys k.proc.world.file) := by
  have hexec : (exec (checked (keeperStep noInet) keepsKeys) { proc := { world := oneKeyWorld } }
      timelyReload).map (fun k => (k.proc.quiet, k.returned)) =
      some (true, [randomToken zero32]) := by decide +kernel
  obtain ⟨k, hk, hval⟩ := Option.map_eq_some_iff.mp hexec
  obtain ⟨hquiet, hret⟩ := Prod.mk.inj hval
  have hrun := guarded_of_exec hk
  have hin : randomToken zero32 ∈ k.returned := by
    rw [hret]
    exact List.mem_singleton.mpr rfl
  refine ⟨k, hrun, hquiet, hin, ?_⟩
  exact keys_kept noInet oneKeyWorld (by decide +kernel) timelyReload k hrun _ hin

end Wirebone
