/-
  File:      Wirebone/Store/Machine.lean
  Subject:   THE THREADS OF ONE PROCESS on one store.

  Every critical section of the store is one step. `create_preauth_key`, `register_node`,
  `update_map_info`, `set_online`, `dump_json` and `load_json` are one section each;
  `consume_preauth` is three, and between them other threads take steps: the file is read without
  the mutex, `keys_` is replaced under it, and the key is checked, marked and saved under it.

  * `Proc` -- the world of the process, the `consume_preauth` calls under way, and a record of
    the keys for which a call has returned `true`;
  * `step` -- the machine;
  * **`holds_step`** -- the rule for a property of the store that does not see its keys: a step of
    the machine keeps it where `register_node`, `update_map_info`, `set_online` and a load do.
-/
import Wirebone.Lib.Lts
import Wirebone.Store.Spec

namespace Wirebone

open ByteString FirstMatch Lts

/-! ## 1. The machine -/

/-- Where a `consume_preauth` call stands. -/
inductive CallPhase where
  | begun
  /-- `reload_keys_from_disk` has read the file (`none`: it returns without the lock). -/
  | loaded (image : Option Json)
  /-- `reload_keys_from_disk` is done. -/
  | ready
  | done

structure ConsumeCall where
  key : Bytes
  phase : CallPhase

structure Proc where
  world : World
  calls : List ConsumeCall := []
  /-- The keys for which a call has returned `true`, oldest first. -/
  granted : List Bytes := []
  /-- The texts that `dump_json` has returned. -/
  dumps : List Json := []

inductive Act where
  | call (key : Bytes)
  | read (i : Nat)
  | install (i : Nat)
  | check (i : Nat) (now : Int) (io : SaveIo)
  | create (io : SaveIo) (now : Int) (raw : Bytes32) (reusable ephemeral : Bool) (expiration : Int)
      (token : Bytes) (shared : Option Bool)
  | register (io : SaveIo) (machineKey nodeKey hostname : Bytes) (ephemeral : Bool) (token : Bytes)
      (shared : Bool)
  | mapInfo (io : SaveIo) (machineKey nodeKey discoKey hostname : Bytes) (endpoints : List Bytes)
  | online (machineKey : Bytes) (online : Bool)
  | dump
  /-- `load_json` of the `n`-th text that `dump_json` has returned. -/
  | load (n : Nat)

/-- The call `i` moves on. -/
def Proc.moved (p : Proc) (i : Nat) (key : Bytes) (phase : CallPhase) : Proc :=
  { p with calls := p.calls.set i { key, phase } }

/-- The locked half of `reload_keys_from_disk`. -/
def Proc.installed (p : Proc) (i : Nat) (key : Bytes) : Option Json → Proc
  | none => p.moved i key .ready
  | some ks =>
    match installKeys ks p.world.store with
    | (.ok _, s) => ({ p with world := { p.world with store := s } }).moved i key .ready
    | (.error _, s) => ({ p with world := { p.world with store := s } }).moved i key .done

/-- The locked half of `consume_preauth`. -/
def Proc.checked (p : Proc) (i : Nat) (key : Bytes) (now : Int) (io : SaveIo) : Proc :=
  match checkAndMark io now key p.world with
  | (.ok (some _), w) =>
    ({ p with world := w, granted := p.granted ++ [key] }).moved i key .done
  | (_, w) => ({ p with world := w }).moved i key .done

def step (I : Inet) (p : Proc) : Act → Option Proc
  | .call key => some { p with calls := p.calls ++ [{ key, phase := .begun }] }
  | .read i =>
    match p.calls[i]? with
    | some ⟨key, .begun⟩ => some (p.moved i key (.loaded (readImage p.world)))
    | _ => none
  | .install i =>
    match p.calls[i]? with
    | some ⟨key, .loaded image⟩ => some (p.installed i key image)
    | _ => none
  | .check i now io =>
    match p.calls[i]? with
    | some ⟨key, .ready⟩ => some (p.checked i key now io)
    | _ => none
  | .create io now raw reusable ephemeral expiration token shared =>
    let w := (createPreauthKey io now raw reusable ephemeral expiration token shared p.world).2
    some { p with world := w }
  | .register io machineKey nodeKey hostname ephemeral token shared =>
    let w := (registerNode I io machineKey nodeKey hostname ephemeral token shared p.world).2
    some { p with world := w }
  | .mapInfo io machineKey nodeKey discoKey hostname endpoints =>
    some { p with
      world := (updateMapInfo io machineKey nodeKey discoKey hostname endpoints p.world).2 }
  | .online machineKey online =>
    some { p with world := { p.world with store := setOnline machineKey online p.world.store } }
  | .dump =>
    match dumpJson p.world.store with
    | .ok j => some { p with dumps := p.dumps ++ [j] }
    | .error _ => some p
  | .load n =>
    match p.dumps[n]? with
    | some j => some { p with world := { p.world with store := (loadJson (some j) p.world.store).2 } }
    | none => none

/-! ## 2. The steps of a call -/

section Steps

variable {I : Inet} {p p' : Proc} {i : Nat}

theorem step_read (h : step I p (.read i) = some p') :
    ∃ key, p.calls[i]? = some ⟨key, .begun⟩ ∧ p' = p.moved i key (.loaded (readImage p.world)) := by
  simp only [step] at h
  split at h
  · rename_i key hcall
    exact ⟨key, hcall, (Option.some.inj h).symm⟩
  · cases h

theorem step_install (h : step I p (.install i) = some p') :
    ∃ key image, p.calls[i]? = some ⟨key, .loaded image⟩ ∧ p' = p.installed i key image := by
  simp only [step] at h
  split at h
  · rename_i key image hcall
    exact ⟨key, image, hcall, (Option.some.inj h).symm⟩
  · cases h

theorem step_check {now : Int} {io : SaveIo} (h : step I p (.check i now io) = some p') :
    ∃ key, p.calls[i]? = some ⟨key, .ready⟩ ∧ p' = p.checked i key now io := by
  simp only [step] at h
  split at h
  · rename_i key hcall
    exact ⟨key, hcall, (Option.some.inj h).symm⟩
  · cases h

end Steps

/-! ## 3. Properties of the store -/

/-- The store has the property, and so has every store whose dump may be loaded. -/
structure Proc.Holds (P : Store → Prop) (p : Proc) : Prop where
  store : P p.world.store
  dumps : ∀ j ∈ p.dumps, ∃ t, j = snapshotLocked t ∧ P t

section Holds

variable {I : Inet} {P : Store → Prop} {p p' : Proc}

/-- **One step keeps the property**, where the sections that write nodes or counters do. -/
theorem holds_step {e : Act} (hkeys : ∀ s keys, P s → P { s with keys := keys })
    (hregister : ∀ io machineKey nodeKey hostname ephemeral token shared r w',
      e = .register io machineKey nodeKey hostname ephemeral token shared → P p.world.store →
      registerNode I io machineKey nodeKey hostname ephemeral token shared p.world = (r, w') → P w'.store)
    (hmap : ∀ m nodeKey discoKey hostname endpoints s, P s →
      P { s with nodes := updateNode m (mapUpdated nodeKey discoKey hostname endpoints) s.nodes })
    (honline : ∀ m online s, P s → P (setOnline m online s))
    (hload : ∀ t s, P t → P s → P (reloaded t s)) (h : p.Holds P) (hs : step I p e = some p') :
    p'.Holds P := by
  cases e with
  | call key =>
    cases hs
    exact ⟨h.store, h.dumps⟩
  | read i =>
    obtain ⟨key, _, rfl⟩ := step_read hs
    exact ⟨h.store, h.dumps⟩
  | install i =>
    obtain ⟨key, image, _, rfl⟩ := step_install hs
    cases image with
    | none => exact ⟨h.store, h.dumps⟩
    | some ks =>
      rcases hi : installKeys ks p.world.store with ⟨_ | _, s⟩
      · rw [Proc.installed, hi, installKeys_store hi]
        exact ⟨hkeys _ _ h.store, h.dumps⟩
      · rw [Proc.installed, hi, installKeys_store hi]
        exact ⟨hkeys _ _ h.store, h.dumps⟩
  | check i now io =>
    obtain ⟨key, _, rfl⟩ := step_check hs
    unfold Proc.checked
    rcases hc : checkAndMark io now key p.world with ⟨r, w⟩
    have hw : P w.store := by
      rcases checkAndMark_cases hc with ⟨_, rfl⟩ | ⟨k, _, _, _, hcommit⟩
      · exact h.store
      · rw [(commit_cases hcommit).1]
        exact hkeys _ _ h.store
    rcases r with e | _ | claim
    · exact ⟨hw, h.dumps⟩
    · exact ⟨hw, h.dumps⟩
    · exact ⟨hw, h.dumps⟩
  | create io now raw reusable ephemeral expiration token shared =>
    cases hs
    rcases hc : createPreauthKey io now raw reusable ephemeral expiration token shared p.world
      with ⟨r, w⟩
    refine ⟨?_, h.dumps⟩
    show P w.store
    rw [(createPreauthKey_cases hc).1]
    exact hkeys _ _ h.store
  | register io m nodeKey hostname ephemeral token shared =>
    cases hs
    rcases hr : registerNode I io m nodeKey hostname ephemeral token shared p.world with ⟨r, w⟩
    exact ⟨hregister _ _ _ _ _ _ _ r w rfl h.store hr, h.dumps⟩
  | mapInfo io m nodeKey discoKey hostname endpoints =>
    cases hs
    rcases hu : updateMapInfo io m nodeKey discoKey hostname endpoints p.world with ⟨r, w⟩
    refine ⟨?_, h.dumps⟩
    show P w.store
    rcases updateMapInfo_cases hu with ⟨_, _, rfl⟩ | ⟨n, _, hc⟩
    · exact h.store
    · rw [(commit_cases hc).1]
      exact hmap _ _ _ _ _ _ h.store
  | online m online =>
    cases hs
    exact ⟨honline m online _ h.store, h.dumps⟩
  | dump =>
    simp only [step, dumpJson] at hs
    by_cases hd : (snapshotLocked p.world.store).dumps = true
    · rw [if_pos hd] at hs
      cases hs
      refine ⟨h.store, ?_⟩
      intro j hj
      rcases List.mem_append.mp hj with hj | hj
      · exact h.dumps j hj
      · exact ⟨p.world.store, List.mem_singleton.mp hj, h.store⟩
    · rw [if_neg hd] at hs
      cases hs
      exact h
  | load n =>
    simp only [step] at hs
    cases hj : p.dumps[n]? with
    | none =>
      rw [hj] at hs
      cases hs
    | some j =>
      rw [hj] at hs
      cases hs
      obtain ⟨t, rfl, ht⟩ := h.dumps j (List.mem_of_getElem? hj)
      refine ⟨?_, h.dumps⟩
      show P (applySnapshotLocked (snapshotLocked t) p.world.store).2
      rw [applySnapshot_snapshot]
      exact hload t p.world.store ht h.store

end Holds

end Wirebone
