/-
  File:      Wirebone/Store/AtomicSave.lean
  Subject:   WHETHER THE STATE FILE IS REPLACED AS A WHOLE.

  `save_locked` writes `path_ + ".tmp"` and renames it. The stream's state is never looked at, so
  the rename is made whatever of the text is stored.

  * `DiskIo` -- how the calls on the file system end, and after which of them the machine stops;
  * `saveTrace`, `saveDisk` -- `save_locked` as effects on a disk;
  * `saveDisk_saveLocked` -- `saveLocked` of `Store/Basic` is this one, seen through the parser;
  * `SavedWhole` -- the property, and **`save_atomic_iff`** -- when it holds;
  * **`save_torn`** -- a short write: `save_locked` returns, and the file holds a part of the text.
-/
import Wirebone.Lib.CrashDisk
import Wirebone.Store.Snapshot

namespace Wirebone

open ByteString CrashDisk

/-! ## 1. `save_locked` on a disk -/

/-- How the calls inside a `save_locked` end. -/
structure DiskIo where
  opens : Bool := true
  /-- How many bytes of the text `out << text` stores, and how many more the close does. -/
  written : Nat
  flushed : Nat := 0
  renames : Bool := true
  hookThrows : Bool := false
  /-- The machine stops after so many effects. -/
  crash : Option Nat := none

/-- `path_ + ".tmp"`. -/
def tmpName (path : Bytes) : Bytes := path ++ ascii ".tmp"

/-- `j.dump(2)` and a line feed; `dump2` is the library's printer. -/
def stateText (dump2 : Json → Bytes) (s : Store) : Bytes := dump2 (snapshotLocked s) ++ [10]

/-- The effects of the stream: it is opened, written and closed. -/
def streamEffects (io : DiskIo) (path text : Bytes) : List (DiskOp Bytes UInt8) :=
  [.truncate (tmpName path), .append (tmpName path) (text.take io.written),
    .append (tmpName path) ((text.drop io.written).take io.flushed)]

/-- They, and the rename. -/
def replaceEffects (io : DiskIo) (path text : Bytes) : List (DiskOp Bytes UInt8) :=
  streamEffects io path text ++ [.rename (tmpName path) path]

/-- `save_locked`: how it ends, and its effects. -/
def saveTrace (dump2 : Json → Bytes) (io : DiskIo) (s : Store) :
    Except Exn Unit × List (DiskOp Bytes UInt8) :=
  let j := snapshotLocked s
  let hook : Except Exn Unit :=
    if s.hooked then
      if !j.dumps then .error (.typeError 316)
      else if io.hookThrows then .error .hook
      else .ok ()
    else .ok ()
  if s.path = [] then (hook, [])
  else if !io.opens then
    (.error (.runtimeError (ascii "cannot write state file " ++ s.path ++ ascii ".tmp")), [])
  else if !j.dumps then (.error (.typeError 316), [.truncate (tmpName s.path)])
  else
    let text := stateText dump2 s
    if !io.renames then
      (.error (.runtimeError (ascii "cannot replace state file " ++ s.path)), streamEffects io s.path text)
    else (hook, replaceEffects io s.path text)

/-- The disk after it; there is no result where the machine has stopped. -/
def saveDisk (dump2 : Json → Bytes) (io : DiskIo) (s : Store) (d : Disk Bytes UInt8) :
    Option (Except Exn Unit) × Disk Bytes UInt8 :=
  let t := saveTrace dump2 io s
  match io.crash with
  | none => (some t.1, replay t.2 d)
  | some k => (none, replay (t.2.take k) d)

/-! ## 2. The state file after it -/

section StateFile

variable {io : DiskIo} {s : Store}

theorem tmpName_ne (path : Bytes) : path ≠ tmpName path := by
  intro h
  have hlen := congrArg List.length h
  have htmp : (ascii ".tmp").length = 4 := by decide
  rw [tmpName, List.length_append, htmp] at hlen
  omega

/-- How much of the text is stored. -/
def DiskIo.stored (io : DiskIo) : Nat := io.written + io.flushed

/-- What a save leaves of the text. -/
def storedText (dump2 : Json → Bytes) (io : DiskIo) (s : Store) : Bytes :=
  (stateText dump2 s).take io.stored

/-- The effects before the rename leave the state file alone. -/
theorem stream_state (io : DiskIo) (path text : Bytes) (k : Nat) (d : Disk Bytes UInt8) :
    replay ((streamEffects io path text).take k) d path = d path := by
  refine replay_other fun e he => ?_
  have hmem : e ∈ streamEffects io path text := List.mem_of_mem_take he
  have hnames : e.names = [tmpName path] := by
    simp only [streamEffects, List.mem_cons, List.not_mem_nil, or_false] at hmem
    rcases hmem with rfl | rfl | rfl
    · rfl
    · rfl
    · rfl
  rw [hnames]
  simpa using tmpName_ne path

/-- The rename puts what is stored in its place. -/
theorem renamed_state (io : DiskIo) (path text : Bytes) (d : Disk Bytes UInt8) :
    replay (replaceEffects io path text) d path = some (text.take io.stored) := by
  rw [replaceEffects, replay_renamed (tmpName_ne path), streamEffects, replay_written, DiskIo.stored,
    List.take_add]

/-- The rename is made: nothing before it throws, and the machine does not stop before it. -/
def replaces (io : DiskIo) (s : Store) : Bool :=
  io.opens && (snapshotLocked s).dumps && io.renames &&
    match io.crash with
    | none => true
    | some k => decide (3 < k)

/-- `save_locked` returns, where the rename is made. -/
def returns (io : DiskIo) (s : Store) : Bool := io.crash.isNone && !(s.hooked && io.hookThrows)

theorem saveDisk_replaced (dump2 : Json → Bytes) (d : Disk Bytes UInt8) (hpath : s.path ≠ [])
    (h : replaces io s = true) :
    (saveDisk dump2 io s d).2 s.path = some (storedText dump2 io s) ∧
      ((saveDisk dump2 io s d).1 = some (.ok ()) ↔ returns io s = true) := by
  simp only [replaces, Bool.and_eq_true] at h
  obtain ⟨⟨⟨hopen, hdump⟩, hren⟩, hcrash⟩ := h
  have htrace : (saveTrace dump2 io s).2 = replaceEffects io s.path (stateText dump2 s) := by
    simp [saveTrace, hpath, hopen, hdump, hren]
  have hresult : (saveTrace dump2 io s).1 = .ok () ↔ (s.hooked && io.hookThrows) = false := by
    cases hh : s.hooked
    · simp [saveTrace, hpath, hopen, hdump, hren, hh]
    · cases ht : io.hookThrows
      · simp [saveTrace, hpath, hopen, hdump, hren, hh, ht]
      · simp [saveTrace, hpath, hopen, hdump, hren, hh, ht]
  cases hc : io.crash with
  | none =>
    simp only [saveDisk, hc, returns, htrace, renamed_state, storedText, Option.some.injEq, hresult,
      Option.isNone_none, Bool.true_and, Bool.not_eq_true', and_self]
  | some k =>
    have hk : (replaceEffects io s.path (stateText dump2 s)).length ≤ k := by
      rw [hc] at hcrash
      exact of_decide_eq_true hcrash
    simp only [saveDisk, hc, returns, htrace, List.take_of_length_le hk, renamed_state, storedText,
      Option.isNone_some, Bool.false_and, true_and, reduceCtorEq, Bool.false_eq_true]

theorem saveDisk_left (dump2 : Json → Bytes) (d : Disk Bytes UInt8) (hpath : s.path ≠ [])
    (h : replaces io s = false) :
    (saveDisk dump2 io s d).2 s.path = d s.path ∧ (saveDisk dump2 io s d).1 ≠ some (.ok ()) := by
  -- what is left of the effects has no rename in it
  have hstream : ∀ k, replay ((streamEffects io s.path (stateText dump2 s)).take k) d s.path = d s.path :=
    fun k => stream_state io s.path _ k d
  have hall : replay (streamEffects io s.path (stateText dump2 s)) d s.path = d s.path := hstream 3
  have hone : ∀ k, replay (([.truncate (tmpName s.path)] : List (DiskOp Bytes UInt8)).take k) d s.path =
      d s.path := by
    intro k
    refine replay_other fun e he => ?_
    rw [List.mem_singleton.mp (List.mem_of_mem_take he)]
    simpa [DiskOp.names] using tmpName_ne s.path
  have htrunc : replay [.truncate (tmpName s.path)] d s.path = d s.path := hone 1
  have hnil : replay ([] : List (DiskOp Bytes UInt8)) d s.path = d s.path := rfl
  unfold saveDisk saveTrace
  by_cases ho : io.opens = true
  · by_cases hd : (snapshotLocked s).dumps = true
    · by_cases hr : io.renames = true
      · cases hc : io.crash with
        | none => simp [replaces, ho, hd, hr, hc] at h
        | some k =>
          have hk : k ≤ 3 := by simpa [replaces, ho, hd, hr, hc] using h
          have htake : (replaceEffects io s.path (stateText dump2 s)).take k =
              (streamEffects io s.path (stateText dump2 s)).take k :=
            List.take_append_of_le_length hk
          simp [hpath, ho, hd, hr, htake, hstream]
      · cases hc : io.crash with
        | none => simp [hpath, ho, hd, hr, hall]
        | some k => simp [hpath, ho, hd, hr, hstream]
    · cases hc : io.crash with
      | none => simp [hpath, ho, hd, htrunc]
      | some k => simp [hpath, ho, hd, hone]
  · cases hc : io.crash with
    | none => simp [hpath, ho, hnil]
    | some k => simp [hpath, ho, hnil]

end StateFile

/-! ## 3. The save of `Store/Basic` -/

/-- What `Store/Basic` sees of the outcome. The line feed at the end is not part of the value. -/
def DiskIo.saveIo (io : DiskIo) (text : Bytes) : SaveIo :=
  { opens := io.opens
    stored := if text.length ≤ io.stored + 1 then .whole else if io.stored = 0 then .nothing else .part
    renames := io.renames
    hookThrows := io.hookThrows }

/-- The bytes of a file read as what `Store/Basic` says the file holds. -/
def Shows (parse : Bytes → Option Json) : Option FileText → Option Bytes → Prop
  | none, b => b = none
  | some .empty, b => b = some []
  | some .torn, b => ∃ t, b = some t ∧ t ≠ [] ∧ parse t = none
  | some (.json j), b => ∃ t, b = some t ∧ parse t = some j

/-- The parser reads the printed text of `j`, also without the line feed, and no shorter part. -/
structure ReadsBack (parse : Bytes → Option Json) (j : Json) (text : Bytes) : Prop where
  long : 1 < text.length
  whole : ∀ n, text.length ≤ n + 1 → parse (text.take n) = some j
  part : ∀ n, n + 1 < text.length → parse (text.take n) = none

section Refines

variable {parse : Bytes → Option Json} {dump2 : Json → Bytes} {io : DiskIo} {w : World}
  {d : Disk Bytes UInt8}

theorem shows_stored {s : Store} (h : ReadsBack parse (snapshotLocked s) (stateText dump2 s)) :
    Shows parse (some ((io.saveIo (stateText dump2 s)).text (snapshotLocked s)))
      (some (storedText dump2 io s)) := by
  by_cases hw : (stateText dump2 s).length ≤ io.stored + 1
  · have htext : (io.saveIo (stateText dump2 s)).text (snapshotLocked s) = .json (snapshotLocked s) := by
      simp only [SaveIo.text, DiskIo.saveIo, if_pos hw]
    rw [htext]
    exact ⟨_, rfl, h.whole io.stored hw⟩
  · by_cases hz : io.stored = 0
    · have htext : (io.saveIo (stateText dump2 s)).text (snapshotLocked s) = .empty := by
        simp only [SaveIo.text, DiskIo.saveIo, if_neg hw, if_pos hz]
      rw [htext]
      show some ((stateText dump2 s).take io.stored) = some []
      rw [hz, List.take_zero]
    · have htext : (io.saveIo (stateText dump2 s)).text (snapshotLocked s) = .torn := by
        simp only [SaveIo.text, DiskIo.saveIo, if_neg hw, if_neg hz]
      rw [htext]
      refine ⟨_, rfl, ?_, h.part io.stored (by omega)⟩
      intro hnil
      have hlen := congrArg List.length hnil
      rw [storedText, List.length_take, List.length_nil] at hlen
      have hlong := h.long
      omega

/-- **The two models of `save_locked` agree**: where the machine does not stop, both end in the same
    way, and the file of `Store/Basic` is what the bytes on the disk read as. -/
theorem saveDisk_saveLocked (hread : ReadsBack parse (snapshotLocked w.store) (stateText dump2 w.store))
    (hcrash : io.crash = none) (hshows : Shows parse w.file (d w.store.path)) :
    ∃ r w', saveLocked (io.saveIo (stateText dump2 w.store)) w = (r, w') ∧
      (saveDisk dump2 io w.store d).1 = some r ∧
      Shows parse w'.file ((saveDisk dump2 io w.store d).2 w.store.path) := by
  have hfst : (saveDisk dump2 io w.store d).1 = some (saveTrace dump2 io w.store).1 := by
    simp only [saveDisk, hcrash]
  by_cases hp : w.store.path = []
  · have hd : (saveDisk dump2 io w.store d).2 = d := by
      simp [saveDisk, hcrash, saveTrace, hp, replay]
    rw [hfst, hd]
    refine ⟨(saveTrace dump2 io w.store).1, w, ?_, rfl, hshows⟩
    cases hh : w.store.hooked
    · simp [saveLocked, replaceFile, saveTrace, hp, hh]
    · cases hj : (snapshotLocked w.store).dumps
      · simp [saveLocked, replaceFile, saveTrace, hp, hh, hj]
      · cases ht : io.hookThrows
        · simp [saveLocked, replaceFile, saveTrace, DiskIo.saveIo, hp, hh, hj, ht]
        · simp [saveLocked, replaceFile, saveTrace, DiskIo.saveIo, hp, hh, hj, ht]
  · cases hrep : replaces io w.store with
    | true =>
      have hstate := (saveDisk_replaced dump2 d hp hrep).1
      simp only [replaces, hcrash, Bool.and_eq_true] at hrep
      obtain ⟨⟨⟨hopen, hdump⟩, hren⟩, _⟩ := hrep
      rw [hfst, hstate]
      refine ⟨(saveTrace dump2 io w.store).1,
        { w with file := some ((io.saveIo (stateText dump2 w.store)).text (snapshotLocked w.store)) }, ?_,
        rfl, shows_stored hread⟩
      have hopen' : (io.saveIo (stateText dump2 w.store)).opens = true := hopen
      have hren' : (io.saveIo (stateText dump2 w.store)).renames = true := hren
      have hhook : (io.saveIo (stateText dump2 w.store)).hookThrows = io.hookThrows := rfl
      cases hh : w.store.hooked
      · simp [saveLocked, replaceFile, saveTrace, hp, hopen, hren, hdump, hh, hopen', hren']
      · cases ht : io.hookThrows
        · simp [saveLocked, replaceFile, saveTrace, hp, hopen, hren, hdump, hh, ht, hopen', hren', hhook]
        · simp [saveLocked, replaceFile, saveTrace, hp, hopen, hren, hdump, hh, ht, hopen', hren', hhook]
    | false =>
      have hstate := (saveDisk_left dump2 d hp hrep).1
      rw [hfst, hstate]
      refine ⟨(saveTrace dump2 io w.store).1, w, ?_, rfl, hshows⟩
      by_cases ho : io.opens = true
      · by_cases hd : (snapshotLocked w.store).dumps = true
        · have hr : io.renames = false := by simpa [replaces, ho, hd, hcrash] using hrep
          simp [saveLocked, replaceFile, saveTrace, DiskIo.saveIo, hp, ho, hd, hr]
        · simp [saveLocked, replaceFile, saveTrace, DiskIo.saveIo, hp, ho, hd]
      · simp [saveLocked, replaceFile, saveTrace, DiskIo.saveIo, hp, ho]

end Refines

/-! ## 4. The property -/

/-- **The state file is replaced as a whole**: it holds what it held, or all of the new text; and
    the new text where `save_locked` returns. -/
structure SavedWhole (dump2 : Json → Bytes) (io : DiskIo) (s : Store) (d : Disk Bytes UInt8) : Prop where
  whole : (saveDisk dump2 io s d).2 s.path = d s.path ∨
    ((snapshotLocked s).dumps = true ∧ (saveDisk dump2 io s d).2 s.path = some (stateText dump2 s))
  returned : (saveDisk dump2 io s d).1 = some (.ok ()) →
    (saveDisk dump2 io s d).2 s.path = some (stateText dump2 s)

/-- **The condition**: all of the text is stored, or the rename is not made. (Or it changes
    nothing: the file has held just what is stored of the text, and `save_locked` does not
    return.) -/
def storesWhole (dump2 : Json → Bytes) (io : DiskIo) (s : Store) (d : Disk Bytes UInt8) : Bool :=
  decide ((stateText dump2 s).length ≤ io.stored) || !replaces io s ||
    (decide (d s.path = some (storedText dump2 io s)) && !returns io s)

/-- **When the state file is replaced as a whole.** -/
theorem save_atomic_iff (dump2 : Json → Bytes) (io : DiskIo) (s : Store) (hpath : s.path ≠ [])
    (d : Disk Bytes UInt8) : SavedWhole dump2 io s d ↔ storesWhole dump2 io s d = true := by
  cases hrep : replaces io s with
  | false =>
    obtain ⟨hleft, hret⟩ := saveDisk_left dump2 d hpath hrep
    simp only [storesWhole, hrep, Bool.not_false, Bool.or_true, Bool.true_or, iff_true]
    exact ⟨.inl hleft, fun h => absurd h hret⟩
  | true =>
    obtain ⟨hstate, hret⟩ := saveDisk_replaced dump2 d hpath hrep
    have hdumps : (snapshotLocked s).dumps = true := by
      simp only [replaces, Bool.and_eq_true] at hrep
      exact hrep.1.1.2
    by_cases hlen : (stateText dump2 s).length ≤ io.stored
    · -- nothing is missing
      have htext : storedText dump2 io s = stateText dump2 s := List.take_of_length_le hlen
      have hsound : storesWhole dump2 io s d = true := by simp [storesWhole, hlen]
      have hnew : (saveDisk dump2 io s d).2 s.path = some (stateText dump2 s) := by rw [hstate, htext]
      simp only [hsound, iff_true]
      exact ⟨.inr ⟨hdumps, hnew⟩, fun _ => hnew⟩
    · have hshort : storedText dump2 io s ≠ stateText dump2 s := by
        intro h
        have hl := congrArg List.length h
        rw [storedText, List.length_take] at hl
        omega
      have hsound : storesWhole dump2 io s d = true ↔
          d s.path = some (storedText dump2 io s) ∧ returns io s = false := by
        simp [storesWhole, hlen, hrep]
      rw [hsound]
      constructor
      · intro h
        refine ⟨?_, ?_⟩
        · rcases h.whole with hw | ⟨_, hw⟩
          · exact hw.symm.trans hstate
          · exact absurd (Option.some.inj (hstate.symm.trans hw)) hshort
        · cases hr : returns io s with
          | false => rfl
          | true => exact absurd (Option.some.inj (hstate.symm.trans (h.returned (hret.mpr hr)))) hshort
      · rintro ⟨hprior, hr⟩
        refine ⟨.inl (hstate.trans hprior.symm), fun h => ?_⟩
        rw [hret.mp h] at hr
        cases hr

/-! ## 5. A short write -/

/-- The text that `dump(2)` gives for a store without keys and nodes whose noise key is zero. -/
def freshText (_ : Json) : Bytes :=
  ascii "\x7b\n  \"next_ip_index\": 1,\n  \"next_node_id\": 1,\n  \"nodes\": [],\n  \"noise_private\": \"" ++
    hexEncode zero32.val ++ ascii "\",\n  \"preauth_keys\": []\n\x7d"

def freshStore : Store := { oneKeyStore with keys := [] }

/-- The disk fills up within the text: `save_locked` returns, and the file holds ten bytes. -/
theorem save_torn :
    (saveDisk freshText { written := 10 } freshStore fun _ => none).1 = some (.ok ()) ∧
      ¬ SavedWhole freshText { written := 10 } freshStore fun _ => none := by
  have hret : (saveDisk freshText { written := 10 } freshStore fun _ => none).1 = some (.ok ()) := rfl
  refine ⟨hret, fun h => ?_⟩
  have hfile := h.returned hret
  have hshort : (saveDisk freshText { written := 10 } freshStore fun _ => none).2 freshStore.path ≠
      some (stateText freshText freshStore) := by decide +kernel
  exact hshort hfile

/-- The machine stops in the middle of the same write, before the rename. -/
theorem save_atomic_crash :
    SavedWhole freshText { written := 10, crash := some 2 } freshStore fun _ => none :=
  (save_atomic_iff freshText { written := 10, crash := some 2 } freshStore (by decide) fun _ => none).mpr
    (by decide +kernel)

end Wirebone
