/-
  File:      Wirebone/Lib/CrashDisk.lean
  Subject:   FILES THAT A MACHINE MAY LEAVE AT ANY MOMENT.

  A disk gives every name the bytes of its file. A program acts on it by a list of effects, each of
  them atomic; a machine that stops has carried out some first part of the list.

  * `DiskOp`, `replay` -- truncating, appending, renaming, and a list of them;
  * `replay_other` -- a file that no effect of the list names keeps its bytes;
  * `replay_written` -- what a file holds that was truncated and written in two parts.
-/
import Mathlib.Data.List.Basic

namespace CrashDisk

variable {ν β : Type*} [DecidableEq ν]

/-- The files of a disk by name. -/
abbrev Disk (ν β : Type*) := ν → Option (List β)

def put (d : Disk ν β) (name : ν) (content : Option (List β)) : Disk ν β :=
  fun n => if n = name then content else d n

inductive DiskOp (ν β : Type*) where
  /-- The file is made, or emptied. -/
  | truncate (name : ν)
  | append (name : ν) (bytes : List β)
  | rename (old new : ν)

def DiskOp.run (d : Disk ν β) : DiskOp ν β → Disk ν β
  | .truncate name => put d name (some [])
  | .append name bytes => put d name ((d name).map (· ++ bytes))
  | .rename old new => put (put d new (d old)) old none

/-- The file an effect may change, and the one it may take away. -/
def DiskOp.names : DiskOp ν β → List ν
  | .truncate name => [name]
  | .append name _ => [name]
  | .rename old new => [old, new]

def replay (es : List (DiskOp ν β)) (d : Disk ν β) : Disk ν β := es.foldl DiskOp.run d

section Replay

variable {d : Disk ν β} {name other : ν} {a b : List β}

@[simp] theorem put_self (d : Disk ν β) (name : ν) (content : Option (List β)) :
    put d name content name = content := if_pos rfl

theorem put_other {content : Option (List β)} (h : other ≠ name) : put d name content other = d other :=
  if_neg h

theorem run_other {e : DiskOp ν β} (h : other ∉ e.names) : e.run d other = d other := by
  cases e with
  | truncate name => exact put_other (by simpa [DiskOp.names] using h)
  | append name bytes => exact put_other (by simpa [DiskOp.names] using h)
  | rename old new =>
    have hne : other ≠ old ∧ other ≠ new := by simpa [DiskOp.names] using h
    rw [DiskOp.run, put_other hne.1, put_other hne.2]

/-- A file that no effect names keeps its bytes. -/
theorem replay_other {es : List (DiskOp ν β)} (h : ∀ e ∈ es, other ∉ e.names) :
    replay es d other = d other := by
  induction es generalizing d with
  | nil => rfl
  | cons e es ih =>
    rw [replay, List.foldl_cons]
    refine (ih fun e' he' => h e' (List.mem_cons_of_mem _ he')).trans ?_
    exact run_other (h e List.mem_cons_self)

/-- A file truncated and written in two parts. -/
theorem replay_written (d : Disk ν β) (name : ν) (a b : List β) :
    replay [.truncate name, .append name a, .append name b] d name = some (a ++ b) := by
  simp only [replay, List.foldl_cons, List.foldl_nil, DiskOp.run, put_self, Option.map_some,
    List.nil_append]

/-- A list of effects that ends by renaming a file. -/
theorem replay_renamed {es : List (DiskOp ν β)} (h : other ≠ name) :
    replay (es ++ [.rename name other]) d other = replay es d name := by
  rw [replay, List.foldl_append]
  show put (put _ other _) name none other = _
  rw [put_other h, put_self]
  rfl

end Replay

end CrashDisk
