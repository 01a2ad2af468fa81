/-
  File:      Wirebone/Store/NoiseKey.lean
  Subject:   THE NOISE KEY OF A STATE FILE: who the server is to its clients.

  The key is drawn where a process finds none, and is then part of every dump. Clients know the server by
  it, so it must not change: not by a restart, not by a second process on the same file, not by a save that
  fails half way.

  * `fileNoise` -- the key that a load takes from the file;
  * `Site.Keyed` -- the invariant: every process has the key, and so has the file, if it parses;
  * **`noise_key_stable`** -- from a file with a key, in every run of any processes whose saves never leave
    an empty file.
-/
import Wirebone.Store.Failure
import Wirebone.Store.LostUpdate

namespace Wirebone

open ByteString FirstMatch Lts

/-! ## 1. The key of the file -/

/-- The key that a load takes from the file. -/
def fileNoise : Option FileText → Option Bytes32
  | some (.json j) => (loadedPrivate j zero32).toOption
  | _ => none

/-- What the stream has stored of a dump is never nothing at all. -/
def SiteEvent.keepsText : SiteEvent → Bool
  | .init _ io _ => decide (io.stored ≠ .nothing)
  | .boot _ io _ _ => decide (io.stored ≠ .nothing)
  | .create _ io _ _ _ _ _ _ => decide (io.stored ≠ .nothing)
  | .register _ io _ _ _ _ _ _ => decide (io.stored ≠ .nothing)
  | .mapInfo _ io _ _ _ _ _ => decide (io.stored ≠ .nothing)
  | .check _ _ _ io => decide (io.stored ≠ .nothing)
  | .load _ _ => true
  | .online _ _ _ => true
  | .call _ _ => true
  | .read _ _ => true
  | .install _ _ => true

section Key

variable {I : Inet} {io : SaveIo} {w : World} {o : Op} {K : Bytes32} {file : Option FileText}

theorem fileNoise_dump (t : Store) : fileNoise (some (.json (snapshotLocked t))) = some t.noisePrivate := by
  have hnp : (snapshotLocked t).find (ascii "noise_private") = some (.str (hexEncode t.noisePrivate)) := rfl
  have hdec := hexDecode_hexEncode t.noisePrivate.val
  rw [t.noisePrivate.2] at hdec
  simp only [fileNoise, loadedPrivate, hnp, Json.getString, bind, Except.bind, hdec, bytes32_coe]
  rfl

/-- What a save leaves in the file. -/
theorem fileNoise_text {t : Store} (h : io.stored ≠ .nothing) :
    some (io.text (snapshotLocked t)) = some .torn ∨
      fileNoise (some (io.text (snapshotLocked t))) = some t.noisePrivate := by
  unfold SaveIo.text
  cases hs : io.stored with
  | whole => exact .inr (fileNoise_dump t)
  | part => exact .inl rfl
  | nothing => exact absurd hs h

/-- **A load takes the key of the file.** -/
theorem loadStore_noise {path ipv4Cidr ipv6Cidr : Bytes} {s : Store} (hpath : path ≠ [])
    (hfile : file = some .torn ∨ fileNoise file = some K)
    (h : loadStore I path ipv4Cidr ipv6Cidr file = .ok s) : s.noisePrivate = K := by
  unfold loadStore at h
  split at h
  · cases h
  · rename_i alloc halloc
    simp only [if_neg hpath] at h
    obtain rfl | hnoise := hfile
    · cases h
    cases file with
    | none => cases hnoise
    | some text =>
      cases text with
      | empty => cases hnoise
      | torn => cases hnoise
      | json j =>
        simp only at h
        split at h
        · cases h
        · rename_i u s' hj
          cases h
          have hok : (loadJson (some j) { path, alloc }).1 = .ok () := congrArg Prod.fst hj
          obtain ⟨priv, id, ip, hpriv, -, -, -, -, hs⟩ := load_accepted hok
          have hs' : s = (loadJson (some j) { path, alloc }).2 := (congrArg Prod.snd hj).symm
          have hzero : loadedPrivate j zero32 = .ok priv := hpriv
          simp only [fileNoise, hzero, Except.toOption, Option.some.injEq] at hnoise
          rw [hs', hs, ← hnoise]

/-- **No operation changes a key that is there.** -/
theorem run_noise (hz : w.store.noisePrivate ≠ zero32) :
    (o.run I io w).2.store.noisePrivate = w.store.noisePrivate := by
  cases o with
  | init noise => simp only [Op.run, initNoise, if_neg hz]
  | create now raw reusable ephemeral token shared =>
    rcases hc : createPreauthKey io now raw reusable ephemeral 0 token shared w with ⟨r, w'⟩
    simp only [Op.run, hc]
    rw [(createPreauthKey_cases hc).1]
  | check now key =>
    rcases hc : checkAndMark io now key w with ⟨r, w'⟩
    simp only [Op.run, hc]
    rcases checkAndMark_cases hc with ⟨-, rfl⟩ | ⟨k, -, -, -, hcommit⟩
    · rfl
    · rw [(commit_cases hcommit).1]
  | register machineKey nodeKey hostname ephemeral token shared =>
    rcases hr : registerNode I io machineKey nodeKey hostname ephemeral token shared w with ⟨r, w'⟩
    simp only [Op.run, hr]
    rcases registerNode_cases hr with ⟨n, -, hc⟩ | ⟨-, -, rfl⟩ | ⟨ips, -, -, hc⟩
    · rw [(commit_cases hc).1]
    · rfl
    · rw [(commit_cases hc).1]
      rfl
  | mapInfo machineKey nodeKey discoKey hostname endpoints =>
    rcases hu : updateMapInfo io machineKey nodeKey discoKey hostname endpoints w with ⟨r, w'⟩
    simp only [Op.run, hu]
    rcases updateMapInfo_cases hu with ⟨-, -, rfl⟩ | ⟨n, -, hc⟩
    · rfl
    · rw [(commit_cases hc).1]

end Key

/-! ## 2. The processes -/

section Runs

variable {I : Inet} {K : Bytes32} {s s' : Site} {e : SiteEvent} {i : Nat} {p : Process}

/-- **The invariant.** -/
structure Site.Keyed (K : Bytes32) (s : Site) : Prop where
  procs : ∀ p ∈ s.procs, p.store.noisePrivate = K
  file : s.file = some .torn ∨ fileNoise s.file = some K

/-- A process moves on, with the key it has. -/
theorem Site.Keyed.set (h : s.Keyed K) (hp : p.store.noisePrivate = K) :
    ({ s with procs := s.procs.set i p } : Site).Keyed K := by
  refine ⟨?_, h.file⟩
  intro q hq
  obtain hq | rfl := List.mem_or_eq_of_mem_set hq
  · exact h.procs q hq
  · exact hp

theorem keyed_perform {io : SaveIo} {o : Op} {done failed : Stage} (hK : K ≠ zero32) (h : s.Keyed K)
    (hp : p.store.noisePrivate = K) (hio : io.stored ≠ .nothing) :
    (s.perform I i p io o done failed).Keyed K := by
  have hnoise : (o.run I io { store := p.store, file := s.file }).2.store.noisePrivate = K := by
    rw [run_noise (by rw [hp]; exact hK), hp]
  have hran := run_ran I io { store := p.store, file := s.file } o
  unfold Site.perform
  obtain ⟨-, hfile, hprocs, -⟩ := record_rest
    { s with
      file := (o.run I io { store := p.store, file := s.file }).2.file
      procs := s.procs.set i (p.after (o.run I io { store := p.store, file := s.file }).2
        (o.comesToSave I p.store && (o.run I io { store := p.store, file := s.file }).1.toBool)
        (if (o.run I io { store := p.store, file := s.file }).1.toBool then done else failed))
      marked := s.marked ++ o.marks I p.store }
    (o.run I io { store := p.store, file := s.file }).1
  refine ⟨?_, ?_⟩
  · intro q hq
    rw [hprocs] at hq
    obtain hq | rfl := List.mem_or_eq_of_mem_set hq
    · exact h.procs q hq
    · exact hnoise
  · rw [hfile]
    -- the file is as it was, or a dump of a store with the key
    rcases hran.file with hsame | ⟨-, htext⟩
    · rw [hsame]
      exact h.file
    · rw [htext, ← hnoise]
      exact fileNoise_text hio

theorem keyed_step (hK : K ≠ zero32) (hpath : s.path ≠ []) (hok : e.keepsText = true) (h : s.Keyed K)
    (hs : siteStep I s e = some s') : s'.Keyed K := by
  have hproc {j : Nat} {stage : Stage} {q : Process} (hq : s.at j stage = some q) :
      q.store.noisePrivate = K := h.procs q (List.mem_of_getElem? (at_some hq))
  cases e with
  | load ipv4Cidr ipv6Cidr =>
    simp only [siteStep] at hs
    split at hs
    · cases hs
      exact h
    · rename_i store hload
      cases hs
      refine ⟨?_, h.file⟩
      intro q hq
      obtain hq | hq := List.mem_append.mp hq
      · exact h.procs q hq
      · rw [List.mem_singleton.mp hq]
        exact loadStore_noise hpath h.file hload
  | init j io noise =>
    obtain ⟨q, hq, rfl⟩ := Option.map_eq_some_iff.mp hs
    exact keyed_perform hK h (hproc hq) (of_decide_eq_true hok)
  | boot j io now raw =>
    obtain ⟨q, hq, rfl⟩ := Option.map_eq_some_iff.mp hs
    have hkey := hproc hq
    split
    · exact keyed_perform hK h hkey (of_decide_eq_true hok)
    · exact h.set hkey
  | create j io now raw reusable ephemeral token shared =>
    obtain ⟨q, hq, rfl⟩ := Option.map_eq_some_iff.mp hs
    exact keyed_perform hK h (hproc hq) (of_decide_eq_true hok)
  | register j io machineKey nodeKey hostname ephemeral token shared =>
    obtain ⟨q, hq, rfl⟩ := Option.map_eq_some_iff.mp hs
    exact keyed_perform hK h (hproc hq) (of_decide_eq_true hok)
  | mapInfo j io machineKey nodeKey discoKey hostname endpoints =>
    obtain ⟨q, hq, rfl⟩ := Option.map_eq_some_iff.mp hs
    exact keyed_perform hK h (hproc hq) (of_decide_eq_true hok)
  | online j machineKey online =>
    obtain ⟨q, hq, rfl⟩ := Option.map_eq_some_iff.mp hs
    have hkey := hproc hq
    exact h.set hkey
  | call j key =>
    obtain ⟨q, hq, rfl⟩ := Option.map_eq_some_iff.mp hs
    have hkey := hproc hq
    exact h.set hkey
  | read j n =>
    obtain ⟨q, hq, hs⟩ := Option.bind_eq_some_iff.mp hs
    have hkey := hproc hq
    split at hs
    · cases hs
      exact h.set hkey
    · cases hs
  | install j n =>
    obtain ⟨q, hq, hs⟩ := Option.bind_eq_some_iff.mp hs
    have hkey := hproc hq
    split at hs
    · rename_i key image hcall
      cases hs
      refine h.set ?_
      cases image with
      | none => exact hkey
      | some ks => exact hkey
    · cases hs
  | check j n now io =>
    obtain ⟨q, hq, hs⟩ := Option.bind_eq_some_iff.mp hs
    have hkey := hproc hq
    split at hs
    · rename_i key hcall
      cases hs
      have hmoved : (q.moved n key .done).store.noisePrivate = K := hkey
      exact keyed_perform hK h hmoved (of_decide_eq_true hok)
    · cases hs

/-- **The server stays who it is.** From a file with a noise key, whatever processes start, run, fail or save
    in part on it, in any order: every process has that key, and the file has it or does not parse. -/
theorem noise_key_stable (I : Inet) (path : Bytes) (hpath : path ≠ []) (file : Option FileText) (K : Bytes32)
    (hK : K ≠ zero32) (hfile : fileNoise file = some K) (es : List SiteEvent) (s : Site)
    (h : Run (Guarded (Of (siteStep I)) fun _ e => e.keepsText = true) { path, file } es s) :
    (∀ p ∈ s.procs, p.store.noisePrivate = K) ∧ (s.file = some .torn ∨ fileNoise s.file = some K) := by
  have hkeyed : s.path = path ∧ s.Keyed K := by
    refine Run.inv_state (I := fun s : Site => s.path = path ∧ s.Keyed K) ⟨rfl, ?_, .inr hfile⟩ ?_ h
    · exact fun p hp => absurd hp List.not_mem_nil
    · intro s e s' hs hstep
      have hne : s.path ≠ [] := by
        rw [hs.1]
        exact hpath
      exact ⟨(siteStep_path hstep.2).trans hs.1, keyed_step hK hne hstep.1 hs.2 hstep.2⟩
  exact ⟨hkeyed.2.procs, hkeyed.2.file⟩

end Runs

/-- A file with the key 7. A server starts on it and makes its first key, of which only a part is stored;
    another process cannot start then; the server saves again; and a third process starts. -/
def keyedFile : FileText :=
  .json (snapshotLocked { path := ascii "state.json", alloc := pool16, noisePrivate := bytes32 [7] })

def startsAfterTorn : List SiteEvent :=
  [.load (ascii "100.64.0.0/16") (ascii "fd7a:115c:a1e0::/48"), .init 0 {} (bytes32 [8]),
    .boot 0 { stored := .part } 0 (bytes32 [1]),
    .load (ascii "100.64.0.0/16") (ascii "fd7a:115c:a1e0::/48"),
    .create 0 {} 0 (bytes32 [2]) false false [] none] ++ starts 1 (bytes32 [9]) (bytes32 [3])

theorem noise_key_stable_torn :
    ∃ s, Run (Guarded (Of (siteStep .sample)) fun _ e => e.keepsText = true)
        { path := ascii "state.json", file := some keyedFile } startsAfterTorn s ∧
      s.procs.length = 2 ∧ ∀ p ∈ s.procs, p.store.noisePrivate = bytes32 [7] := by
  have hexec : (exec (checked (siteStep .sample) fun _ e => e.keepsText)
      { path := ascii "state.json", file := some keyedFile } startsAfterTorn).any
      (fun s => decide (s.procs.length = 2)) = true := by
    decide +kernel
  obtain ⟨s, hs, hlen⟩ := (Option.any_eq_true _ _).mp hexec
  have hrun := guarded_of_exec hs
  refine ⟨s, hrun, of_decide_eq_true hlen, ?_⟩
  exact (noise_key_stable .sample (ascii "state.json") (by decide) (some keyedFile) (bytes32 [7]) (by decide)
    (fileNoise_dump _) startsAfterTorn s hrun).1

end Wirebone
