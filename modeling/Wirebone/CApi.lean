/-
  File:      Wirebone/CApi.lean
  Subject:   c_api.cpp: the memory that goes to a C caller, and comes back.

  The functions that return a string hand out a copy from `malloc`, to be freed by the caller;
  `wirebone_list_nodes` hands out an array with five such copies for every node, to be given back to
  `wirebone_free_nodes`. `malloc` may fail at any point: a copy is then a null pointer, an array none.

  * `dupStr`, `wireboneListNodes`, `wireboneFreeNodes` -- the code, over a heap;
  * `capiStep` -- a caller that makes any calls and frees what it holds in any order;
  * `CapiState.Sound` -- the invariant: the blocks are those of what the caller holds, and they say what
    was copied;
  * **`capi_memory`** -- no free is ever undefined, nothing leaks, and the caller reads what the coordinator
    said.
-/
import Mathlib.Data.List.Forall2
import Mathlib.Data.List.Perm.Basic
import Wirebone.Lib.CHeap
import Wirebone.Lib.Lts
import Wirebone.Store.Basic

namespace Wirebone

open ByteString CHeap Lts

/-! ## 1. The code -/

/-- `wirebone_node_info`. -/
structure CNodeInfo where
  id : UInt64 := 0
  hostname : Option Nat := none
  ipv4 : Option Nat := none
  ipv6 : Option Nat := none
  nodeKey : Option Nat := none
  online : Int := 0
  token : Option Nat := none
  shared : Int := 0

/-- A block: the characters of a string, or an array. -/
inductive CBlock where
  | chars (bytes : Bytes)
  | infos (infos : List CNodeInfo)

/-- The copy has the zero byte that `c_str` ends in. -/
def dupStr (h : Heap CBlock) (at? : Option Nat) (s : Bytes) : Option (Option Nat × Heap CBlock) :=
  malloc h at? (.chars (s ++ [0]))

/-- The answers of `malloc` for one node. -/
structure NodeAllocs where
  hostname : Option Nat := none
  ipv4 : Option Nat := none
  ipv6 : Option Nat := none
  nodeKey : Option Nat := none
  token : Option Nat := none

/-- The body of the loop of `wirebone_list_nodes`. -/
def dupNode (h : Heap CBlock) (a : NodeAllocs) (n : NodeState) : Option (CNodeInfo × Heap CBlock) := do
  let (hostname, h) ← dupStr h a.hostname n.hostname
  let (ipv4, h) ← dupStr h a.ipv4 n.ipv4
  let (ipv6, h) ← dupStr h a.ipv6 n.ipv6
  let (nodeKey, h) ← dupStr h a.nodeKey n.nodeKey
  let (token, h) ← dupStr h a.token n.token
  return ({ id := n.id, hostname, ipv4, ipv6, nodeKey, online := if n.online then 1 else 0, token
            shared := if n.shared then 1 else 0 }, h)

def dupNodes (h : Heap CBlock) : List (NodeAllocs × NodeState) → Option (List CNodeInfo × Heap CBlock)
  | [] => some ([], h)
  | (a, n) :: rest => do
    let (info, h) ← dupNode h a n
    let (infos, h) ← dupNodes h rest
    return (info :: infos, h)

/-- The pointer and the count that the caller gets. `calloc` makes an array of zeros, and the loop fills it
    in; `nodes` comes with the answers of `malloc` for each. -/
def wireboneListNodes (h : Heap CBlock) (nodes : List (NodeAllocs × NodeState)) (at? : Option Nat) :
    Option ((Option Nat × Nat) × Heap CBlock) :=
  if nodes = [] then some ((none, 0), h)
  else
    match malloc h at? (.infos (List.replicate nodes.length {})) with
    | none => none
    | some (none, h) => some ((none, 0), h)
    | some (some out, h) =>
      (dupNodes h nodes).map fun (infos, h) => ((some out, nodes.length), put h out (some (.infos infos)))

/-- The strings of a node, in the order they are freed. -/
def CNodeInfo.pointers (i : CNodeInfo) : List (Option Nat) := [i.hostname, i.ipv4, i.ipv6, i.nodeKey, i.token]

/-- `none`: the array is not one of at least `count` nodes, or a free is undefined. -/
def wireboneFreeNodes (h : Heap CBlock) (nodes : Option Nat) (count : Nat) : Option (Heap CBlock) :=
  match nodes with
  | none => some h
  | some p =>
    match h p with
    | some (.infos infos) =>
      if infos.length < count then none
      else (freeAll h ((infos.take count).flatMap CNodeInfo.pointers)).bind fun h => free h (some p)
    | _ => none

/-! ## 2. A caller -/

/-- A string that the caller holds, and what it is a copy of. -/
structure HeldString where
  ptr : Nat
  text : Bytes

/-- An array that the caller holds, its count and what it lists. -/
structure HeldArray where
  ptr : Nat
  count : Nat
  nodes : List NodeState
  infos : List CNodeInfo

structure CapiState where
  heap : Heap CBlock := fun _ => none
  strings : List HeldString := []
  arrays : List HeldArray := []

inductive CapiEvent where
  /-- A function that returns a string: `text` is what the coordinator said. A null pointer that is
      returned for another reason is as one where `malloc` fails. -/
  | string (text : Bytes) (at? : Option Nat)
  | listNodes (nodes : List (NodeAllocs × NodeState)) (at? : Option Nat)
  /-- The caller frees what it holds at this place. -/
  | freeString (k : Nat)
  | freeNodes (k : Nat)

/-- The array at `p`. -/
def arrayAt (h : Heap CBlock) (p : Nat) : List CNodeInfo :=
  match h p with
  | some (.infos infos) => infos
  | _ => []

def capiStep (s : CapiState) : CapiEvent → Option CapiState
  | .string text at? =>
    match dupStr s.heap at? text with
    | none => none
    | some (none, h) => some { s with heap := h }
    | some (some p, h) => some { s with heap := h, strings := s.strings ++ [{ ptr := p, text }] }
  | .listNodes nodes at? =>
    match wireboneListNodes s.heap nodes at? with
    | none => none
    | some ((none, _), h) => some { s with heap := h }
    | some ((some p, count), h) =>
      some { s with
        heap := h
        arrays := s.arrays ++ [{ ptr := p, count, nodes := nodes.map (·.2), infos := arrayAt h p }] }
  | .freeString k =>
    match s.strings[k]? with
    | none => none
    | some x => (free s.heap (some x.ptr)).map fun h => { s with heap := h, strings := s.strings.eraseIdx k }
  | .freeNodes k =>
    match s.arrays[k]? with
    | none => none
    | some a => (wireboneFreeNodes s.heap (some a.ptr) a.count).map fun h =>
        { s with heap := h, arrays := s.arrays.eraseIdx k }

/-- A string as C reads it. -/
def cString (h : Heap CBlock) (p : Nat) : Option Bytes :=
  match h p with
  | some (.chars bytes) => some (bytes.takeWhile (· ≠ 0))
  | _ => none

/-! ## 3. The copies -/

section Copies

variable {h h' : Heap CBlock} {ps : List Nat} {at? q : Option Nat} {t : Bytes} {a : NodeAllocs} {n : NodeState}
  {i : CNodeInfo}

/-- A null pointer, or a copy of `t`. -/
def CopyOf (h : Heap CBlock) (q : Option Nat) (t : Bytes) : Prop :=
  ∀ p, q = some p → h p = some (.chars (t ++ [0]))

theorem CopyOf.congr (hc : CopyOf h q t) (hkeep : ∀ p ∈ [q].filterMap id, h' p = h p) : CopyOf h' q t := by
  intro p hp
  rw [hkeep p (by simp [hp]), hc p hp]

theorem dupStr_spec (ho : Owns h ps) (hd : dupStr h at? t = some (q, h')) :
    Owns h' ([q].filterMap id ++ ps) ∧ CopyOf h' q t ∧ ∀ p ∈ ps, h' p = h p := by
  obtain hnull | ⟨p, hdead, hr⟩ := malloc_cases hd
  · cases hnull
    refine ⟨ho, ?_, fun _ _ => rfl⟩
    intro p hp
    cases hp
  · cases hr
    refine ⟨owns_malloc ho hdead, ?_, ?_⟩
    · intro p' hp
      cases hp
      exact put_self h p _
    · intro p' hp
      have hne : p' ≠ p := by
        intro he
        subst he
        have hlive := (ho.live p').mpr hp
        rw [hdead] at hlive
        cases hlive
      exact put_other hne

/-- Some copies, one after another. -/
def dupAll (h : Heap CBlock) : List (Option Nat × Bytes) → Option (List (Option Nat) × Heap CBlock)
  | [] => some ([], h)
  | (at?, t) :: rest => (dupStr h at? t).bind fun r => (dupAll r.2 rest).map fun r' => (r.1 :: r'.1, r'.2)

theorem dupAll_spec {xs : List (Option Nat × Bytes)} {qs : List (Option Nat)} (ho : Owns h ps)
    (hd : dupAll h xs = some (qs, h')) :
    Owns h' (qs.filterMap id ++ ps) ∧ List.Forall₂ (CopyOf h') qs (xs.map (·.2)) ∧ ∀ p ∈ ps, h' p = h p := by
  induction xs generalizing h ps qs with
  | nil =>
    cases hd
    exact ⟨ho, .nil, fun _ _ => rfl⟩
  | cons x rest ih =>
    obtain ⟨r, hone, hd⟩ := Option.bind_eq_some_iff.mp hd
    obtain ⟨r', hrest, hr⟩ := Option.map_eq_some_iff.mp hd
    cases hr
    obtain ⟨ho₁, hcopy, hkeep₁⟩ := dupStr_spec ho hone
    obtain ⟨ho₂, hcopies, hkeep₂⟩ := ih ho₁ hrest
    have hperm : (r'.1.filterMap id ++ ([r.1].filterMap id ++ ps)).Perm
        ((r.1 :: r'.1).filterMap id ++ ps) := by
      rw [show r.1 :: r'.1 = [r.1] ++ r'.1 from rfl, List.filterMap_append, ← List.append_assoc]
      exact List.perm_append_comm.append_right ps
    refine ⟨ho₂.perm hperm, .cons ?_ hcopies, ?_⟩
    · exact hcopy.congr fun p hp => hkeep₂ p (List.mem_append_left _ hp)
    · intro p hp
      rw [hkeep₂ p (List.mem_append_right _ hp), hkeep₁ p hp]

/-- The texts of a node, in the order of its pointers. -/
def nodeTexts (n : NodeState) : List Bytes := [n.hostname, n.ipv4, n.ipv6, n.nodeKey, n.token]

/-- **An entry shows a node**: its numbers, and copies of its texts or null pointers. -/
structure ShowsNode (h : Heap CBlock) (n : NodeState) (i : CNodeInfo) : Prop where
  nodeId : i.id = n.id
  online : i.online = if n.online then 1 else 0
  shared : i.shared = if n.shared then 1 else 0
  texts : List.Forall₂ (CopyOf h) i.pointers (nodeTexts n)

theorem copies_congr {qs : List (Option Nat)} {ts : List Bytes} (hc : List.Forall₂ (CopyOf h) qs ts)
    (hkeep : ∀ p ∈ qs.filterMap id, h' p = h p) : List.Forall₂ (CopyOf h') qs ts := by
  induction hc with
  | nil => exact .nil
  | @cons q t qs ts hone hrest ih =>
    rw [show q :: qs = [q] ++ qs from rfl, List.filterMap_append] at hkeep
    exact .cons (hone.congr fun p hp => hkeep p (List.mem_append_left _ hp))
      (ih fun p hp => hkeep p (List.mem_append_right _ hp))

theorem ShowsNode.congr (hl : ShowsNode h n i) (hkeep : ∀ p ∈ i.pointers.filterMap id, h' p = h p) :
    ShowsNode h' n i :=
  ⟨hl.nodeId, hl.online, hl.shared, copies_congr hl.texts hkeep⟩

theorem lists_congr {ns : List NodeState} {infos : List CNodeInfo} (hl : List.Forall₂ (ShowsNode h) ns infos)
    (hkeep : ∀ p ∈ (infos.flatMap CNodeInfo.pointers).filterMap id, h' p = h p) :
    List.Forall₂ (ShowsNode h') ns infos := by
  induction hl with
  | nil => exact .nil
  | cons hone hrest ih =>
    rw [List.flatMap_cons, List.filterMap_append] at hkeep
    exact .cons (hone.congr fun p hp => hkeep p (List.mem_append_left _ hp))
      (ih fun p hp => hkeep p (List.mem_append_right _ hp))

theorem dupNode_spec (ho : Owns h ps) (hd : dupNode h a n = some (i, h')) :
    Owns h' (i.pointers.filterMap id ++ ps) ∧ ShowsNode h' n i ∧ ∀ p ∈ ps, h' p = h p := by
  obtain ⟨r₁, h₁, hd⟩ := Option.bind_eq_some_iff.mp hd
  obtain ⟨r₂, h₂, hd⟩ := Option.bind_eq_some_iff.mp hd
  obtain ⟨r₃, h₃, hd⟩ := Option.bind_eq_some_iff.mp hd
  obtain ⟨r₄, h₄, hd⟩ := Option.bind_eq_some_iff.mp hd
  obtain ⟨r₅, h₅, hd⟩ := Option.bind_eq_some_iff.mp hd
  cases hd
  have hall : dupAll h [(a.hostname, n.hostname), (a.ipv4, n.ipv4), (a.ipv6, n.ipv6), (a.nodeKey, n.nodeKey),
      (a.token, n.token)] = some ([r₁.1, r₂.1, r₃.1, r₄.1, r₅.1], r₅.2) := by
    simp only [dupAll, h₁, h₂, h₃, h₄, h₅, Option.bind_some, Option.map_some]
  obtain ⟨ho', hcopies, hkeep⟩ := dupAll_spec ho hall
  exact ⟨ho', ⟨rfl, rfl, rfl, hcopies⟩, hkeep⟩

theorem dupNodes_spec {xs : List (NodeAllocs × NodeState)} {infos : List CNodeInfo} (ho : Owns h ps)
    (hd : dupNodes h xs = some (infos, h')) :
    Owns h' ((infos.flatMap CNodeInfo.pointers).filterMap id ++ ps) ∧
      List.Forall₂ (ShowsNode h') (xs.map (·.2)) infos ∧ ∀ p ∈ ps, h' p = h p := by
  induction xs generalizing h ps infos with
  | nil =>
    cases hd
    exact ⟨ho, .nil, fun _ _ => rfl⟩
  | cons x rest ih =>
    obtain ⟨r, hone, hd⟩ := Option.bind_eq_some_iff.mp hd
    obtain ⟨r', hrest, hr⟩ := Option.bind_eq_some_iff.mp hd
    cases hr
    obtain ⟨ho₁, hlists, hkeep₁⟩ := dupNode_spec ho hone
    obtain ⟨ho₂, hall, hkeep₂⟩ := ih ho₁ hrest
    have hperm : ((r'.1.flatMap CNodeInfo.pointers).filterMap id ++ (r.1.pointers.filterMap id ++ ps)).Perm
        (((r.1 :: r'.1).flatMap CNodeInfo.pointers).filterMap id ++ ps) := by
      rw [List.flatMap_cons, List.filterMap_append, ← List.append_assoc]
      exact List.perm_append_comm.append_right ps
    refine ⟨ho₂.perm hperm, .cons ?_ hall, ?_⟩
    · exact hlists.congr fun p hp => hkeep₂ p (List.mem_append_left _ hp)
    · intro p hp
      rw [hkeep₂ p (List.mem_append_right _ hp), hkeep₁ p hp]

/-- What an array takes of the heap. -/
def arrayOwned (p : Nat) (infos : List CNodeInfo) : List Nat :=
  p :: (infos.flatMap CNodeInfo.pointers).filterMap id

/-- **`wirebone_list_nodes`** returns a null pointer and leaves the heap alone, or an array that lists the
    nodes. -/
theorem wireboneListNodes_spec {nodes : List (NodeAllocs × NodeState)} {count : Nat} (ho : Owns h ps)
    (hd : wireboneListNodes h nodes at? = some ((q, count), h')) :
    (q = none ∧ h' = h) ∨ ∃ p infos, q = some p ∧ count = infos.length ∧ h' p = some (.infos infos) ∧
      List.Forall₂ (ShowsNode h') (nodes.map (·.2)) infos ∧ Owns h' (arrayOwned p infos ++ ps) ∧
      ∀ p ∈ ps, h' p = h p := by
  unfold wireboneListNodes at hd
  by_cases hempty : nodes = []
  · rw [if_pos hempty] at hd
    cases hd
    exact .inl ⟨rfl, rfl⟩
  rw [if_neg hempty] at hd
  cases hm : malloc h at? (.infos (List.replicate nodes.length {})) with
  | none =>
    simp only [hm] at hd
    cases hd
  | some r =>
    obtain hnull | ⟨out, hdead, hr⟩ := malloc_cases hm
    · subst hnull
      simp only [hm] at hd
      cases hd
      exact .inl ⟨rfl, rfl⟩
    · subst hr
      simp only [hm] at hd
      obtain ⟨⟨infos, h₂⟩, hnodes, hr⟩ := Option.map_eq_some_iff.mp hd
      cases hr
      obtain ⟨ho₂, hlists, hkeep⟩ := dupNodes_spec (owns_malloc ho hdead) hnodes
      have hsplit := List.nodup_append.mp ho₂.nodup
      have hout : out ∉ (infos.flatMap CNodeInfo.pointers).filterMap id := fun hin =>
        hsplit.2.2 out hin out List.mem_cons_self rfl
      have hps : out ∉ ps := (List.nodup_cons.mp hsplit.2.1).1
      refine .inr ⟨out, infos, rfl, ?_, put_self _ _ _, ?_, ?_, ?_⟩
      · rw [← hlists.length_eq, List.length_map]
      · -- the entries are written where no copy is
        refine lists_congr hlists fun p hp => put_other ?_
        intro he
        subst he
        exact hout hp
      · have ho₃ := owns_write (v := CBlock.infos infos) ho₂ (List.mem_append_right _ List.mem_cons_self)
        refine ho₃.perm ?_
        exact List.perm_middle
      · intro p hp
        have hne : p ≠ out := fun he => hps (he ▸ hp)
        show put h₂ out _ p = h p
        rw [put_other hne, hkeep p (List.mem_cons_of_mem _ hp), put_other hne]

/-- **`wirebone_free_nodes`** of an array that is owned. -/
theorem wireboneFreeNodes_spec {p : Nat} {infos : List CNodeInfo} (hp : h p = some (.infos infos))
    (ho : Owns h (arrayOwned p infos ++ ps)) :
    ∃ h', wireboneFreeNodes h (some p) infos.length = some h' ∧ Owns h' ps ∧ ∀ q ∈ ps, h' q = h q := by
  -- the strings go first, and leave the array as it is
  have hperm : (arrayOwned p infos ++ ps).Perm
      ((infos.flatMap CNodeInfo.pointers).filterMap id ++ (p :: ps)) := List.perm_middle.symm
  obtain ⟨h₁, hall, ho₁, hkeep₁⟩ := owns_freeAll (ho.perm hperm)
  obtain ⟨h₂, hfree, ho₂, hkeep₂⟩ := owns_free ho₁
  refine ⟨h₂, ?_, ho₂, ?_⟩
  · simp only [wireboneFreeNodes, hp, Nat.lt_irrefl, if_false, List.take_length, hall, Option.bind_some, hfree]
  · intro q hq
    rw [hkeep₂ q hq, hkeep₁ q (List.mem_cons_of_mem _ hq)]

end Copies

/-! ## 4. Whole runs -/

section Runs

variable {s s' : CapiState} {e : CapiEvent} {h' : Heap CBlock} {k : Nat}

/-- What the caller holds. -/
def CapiState.owned (s : CapiState) : List Nat :=
  s.strings.map (·.ptr) ++ s.arrays.flatMap fun a => arrayOwned a.ptr a.infos

/-- A string and an array are what they were copied from. -/
def HeldString.Said (h : Heap CBlock) (x : HeldString) : Prop := h x.ptr = some (.chars (x.text ++ [0]))

structure HeldArray.Said (h : Heap CBlock) (a : HeldArray) : Prop where
  count : a.count = a.infos.length
  array : h a.ptr = some (.infos a.infos)
  lists : List.Forall₂ (ShowsNode h) a.nodes a.infos

/-- **The invariant.** -/
structure CapiState.Sound (s : CapiState) : Prop where
  owns : Owns s.heap s.owned
  strings : ∀ x ∈ s.strings, x.Said s.heap
  arrays : ∀ a ∈ s.arrays, a.Said s.heap

theorem HeldArray.Said.congr {h : Heap CBlock} {a : HeldArray} (hs : a.Said h)
    (hkeep : ∀ p ∈ arrayOwned a.ptr a.infos, h' p = h p) : a.Said h' :=
  ⟨hs.count, (hkeep _ List.mem_cons_self).trans hs.array,
    lists_congr hs.lists fun p hp => hkeep p (List.mem_cons_of_mem _ hp)⟩

/-- Strings and arrays that stay, where their blocks do. -/
theorem sound_keep {strings : List HeldString} {arrays : List HeldArray} (hs : s.Sound)
    (hstr : ∀ x ∈ strings, x ∈ s.strings) (harr : ∀ a ∈ arrays, a ∈ s.arrays)
    (hkeep : ∀ p ∈ strings.map (·.ptr) ++ arrays.flatMap (fun a => arrayOwned a.ptr a.infos),
      h' p = s.heap p) :
    (∀ x ∈ strings, x.Said h') ∧ ∀ a ∈ arrays, a.Said h' := by
  refine ⟨?_, ?_⟩
  · intro x hx
    have hp := hkeep x.ptr (List.mem_append_left _ (List.mem_map_of_mem hx))
    exact hp.trans (hs.strings x (hstr x hx))
  · intro a ha
    refine (hs.arrays a (harr a ha)).congr fun p hp => hkeep p ?_
    exact List.mem_append_right _ (List.mem_flatMap.mpr ⟨a, ha, hp⟩)

/-- **A string that is held can be freed.** -/
theorem freeString_spec (hs : s.Sound) (hk : k < s.strings.length) :
    ∃ s', capiStep s (.freeString k) = some s' ∧ s'.Sound := by
  have hget : s.strings[k]? = some s.strings[k] := List.getElem?_eq_getElem hk
  have hperm : s.owned.Perm (s.strings[k].ptr ::
      (((s.strings.eraseIdx k).map (·.ptr)) ++ s.arrays.flatMap fun a => arrayOwned a.ptr a.infos)) := by
    have hlist := ((List.getElem_cons_eraseIdx_perm hk).map (·.ptr)).symm
    exact hlist.append_right _
  obtain ⟨h', hfree, ho, hkeep⟩ := owns_free (hs.owns.perm hperm)
  obtain ⟨hstr, harr⟩ := sound_keep hs (fun x hx => List.mem_of_mem_eraseIdx hx) (fun _ ha => ha) hkeep
  refine ⟨{ s with heap := h', strings := s.strings.eraseIdx k }, ?_, ho, hstr, harr⟩
  simp only [capiStep, hget, hfree, Option.map_some]

/-- **An array that is held can be given back.** -/
theorem freeNodes_spec (hs : s.Sound) (hk : k < s.arrays.length) :
    ∃ s', capiStep s (.freeNodes k) = some s' ∧ s'.Sound := by
  have hget : s.arrays[k]? = some s.arrays[k] := List.getElem?_eq_getElem hk
  have hsaid := hs.arrays _ (List.getElem_mem hk)
  have hperm : s.owned.Perm (arrayOwned s.arrays[k].ptr s.arrays[k].infos ++
      (s.strings.map (·.ptr) ++ (s.arrays.eraseIdx k).flatMap fun a => arrayOwned a.ptr a.infos)) := by
    have hlist := ((List.getElem_cons_eraseIdx_perm hk).flatMap_right
      fun a => arrayOwned a.ptr a.infos).symm
    refine (hlist.append_left _).trans ?_
    rw [List.flatMap_cons, ← List.append_assoc, ← List.append_assoc]
    exact List.perm_append_comm.append_right _
  obtain ⟨h', hfree, ho, hkeep⟩ := wireboneFreeNodes_spec hsaid.array (hs.owns.perm hperm)
  obtain ⟨hstr, harr⟩ := sound_keep hs (fun _ hx => hx) (fun a ha => List.mem_of_mem_eraseIdx ha) hkeep
  refine ⟨{ s with heap := h', arrays := s.arrays.eraseIdx k }, ?_, ho, hstr, harr⟩
  simp only [capiStep, hget, hsaid.count, hfree, Option.map_some]

theorem string_spec {text : Bytes} {at? : Option Nat} (hs : s.Sound)
    (h : capiStep s (.string text at?) = some s') : s'.Sound := by
  simp only [capiStep] at h
  cases hd : dupStr s.heap at? text with
  | none =>
    simp only [hd] at h
    cases h
  | some r =>
    obtain ⟨q, h'⟩ := r
    obtain ⟨ho, hcopy, hkeep⟩ := dupStr_spec hs.owns hd
    obtain ⟨hstr, harr⟩ := sound_keep hs (fun _ hx => hx) (fun _ ha => ha) hkeep
    cases q with
    | none =>
      simp only [hd] at h
      cases h
      exact ⟨ho, hstr, harr⟩
    | some p =>
      simp only [hd] at h
      cases h
      refine ⟨?_, ?_, harr⟩
      · have hnew : (s.strings ++ [({ ptr := p, text } : HeldString)]).map (·.ptr) =
            s.strings.map (·.ptr) ++ [p] := by
          rw [List.map_append]
          rfl
        refine ho.perm ?_
        show (p :: s.owned).Perm
          ((s.strings ++ [({ ptr := p, text } : HeldString)]).map (·.ptr) ++ _)
        rw [hnew, List.append_assoc]
        exact List.perm_middle.symm
      · intro x hx
        obtain hold | hnew := List.mem_append.mp hx
        · exact hstr x hold
        · rw [List.mem_singleton.mp hnew]
          exact hcopy p rfl

theorem listNodes_spec {nodes : List (NodeAllocs × NodeState)} {at? : Option Nat} (hs : s.Sound)
    (h : capiStep s (.listNodes nodes at?) = some s') : s'.Sound := by
  simp only [capiStep] at h
  cases hd : wireboneListNodes s.heap nodes at? with
  | none =>
    simp only [hd] at h
    cases h
  | some r =>
    obtain ⟨⟨q, count⟩, h'⟩ := r
    obtain ⟨rfl, rfl⟩ | ⟨p, infos, rfl, hcount, harray, hlists, ho, hkeep⟩ := wireboneListNodes_spec hs.owns hd
    · simp only [hd] at h
      cases h
      exact ⟨hs.owns, hs.strings, hs.arrays⟩
    · obtain ⟨hstr, harr⟩ := sound_keep hs (fun _ hx => hx) (fun _ ha => ha) hkeep
      have hat : arrayAt h' p = infos := by
        rw [arrayAt, harray]
      simp only [hd, hat] at h
      cases h
      refine ⟨ho.perm ?_, hstr, ?_⟩
      · simp only [CapiState.owned, List.flatMap_append, List.flatMap_singleton, ← List.append_assoc]
        rw [List.append_assoc]
        exact List.perm_append_comm
      · intro a ha
        obtain hold | hnew := List.mem_append.mp ha
        · exact harr a hold
        · rw [List.mem_singleton.mp hnew]
          exact ⟨hcount, harray, hlists⟩

theorem capi_step (hs : s.Sound) (h : capiStep s e = some s') : s'.Sound := by
  cases e with
  | string text at? => exact string_spec hs h
  | listNodes nodes at? => exact listNodes_spec hs h
  | freeString k =>
    by_cases hk : k < s.strings.length
    · obtain ⟨s₁, hstep, hsound⟩ := freeString_spec hs hk
      rw [hstep] at h
      cases h
      exact hsound
    · simp only [capiStep, List.getElem?_eq_none (Nat.le_of_not_lt hk)] at h
      cases h
  | freeNodes k =>
    by_cases hk : k < s.arrays.length
    · obtain ⟨s₁, hstep, hsound⟩ := freeNodes_spec hs hk
      rw [hstep] at h
      cases h
      exact hsound
    · simp only [capiStep, List.getElem?_eq_none (Nat.le_of_not_lt hk)] at h
      cases h

theorem takeWhile_terminated (t : Bytes) : (t ++ [0]).takeWhile (· ≠ 0) = t.takeWhile (· ≠ 0) := by
  induction t with
  | nil => rfl
  | cons b t ih =>
    rw [List.cons_append, List.takeWhile_cons, List.takeWhile_cons, ih]

/-- A copy as C reads it: up to the first zero byte of the text. -/
theorem cString_copy {h : Heap CBlock} {p : Nat} {t : Bytes} (hp : h p = some (.chars (t ++ [0]))) :
    cString h p = some (t.takeWhile (· ≠ 0)) := by
  rw [cString, hp]
  exact congrArg some (takeWhile_terminated t)

/-- **What the caller reads of an entry.** -/
structure Reads (h : Heap CBlock) (n : NodeState) (i : CNodeInfo) : Prop where
  nodeId : i.id = n.id
  online : i.online = if n.online then 1 else 0
  shared : i.shared = if n.shared then 1 else 0
  texts : List.Forall₂ (fun q t => ∀ p, q = some p → cString h p = some (t.takeWhile (· ≠ 0)))
    i.pointers (nodeTexts n)

theorem ShowsNode.reads {h : Heap CBlock} {n : NodeState} {i : CNodeInfo} (hl : ShowsNode h n i) : Reads h n i := by
  refine ⟨hl.nodeId, hl.online, hl.shared, hl.texts.imp ?_⟩
  intro q t hcopy p hp
  exact cString_copy (hcopy p hp)

/-- **The memory of the C interface.** In every run, with any failures of `malloc` and any addresses it
    returns: what the caller holds can be freed, in any order; a string reads as the coordinator said it, and
    an array lists its nodes; and when the caller holds nothing, no block is left. -/
theorem capi_memory {es : List CapiEvent} (h : Run (Of capiStep) {} es s) :
    (∀ k < s.strings.length, (capiStep s (.freeString k)).isSome = true) ∧
    (∀ k < s.arrays.length, (capiStep s (.freeNodes k)).isSome = true) ∧
    (∀ x ∈ s.strings, cString s.heap x.ptr = some (x.text.takeWhile (· ≠ 0))) ∧
    (∀ a ∈ s.arrays, ∃ infos, s.heap a.ptr = some (.infos infos) ∧ a.count = a.nodes.length ∧
      List.Forall₂ (Reads s.heap) a.nodes infos) ∧
    (s.strings = [] → s.arrays = [] → ∀ p, s.heap p = none) := by
  have hstart : ({} : CapiState).Sound :=
    ⟨owns_empty, fun _ hx => absurd hx List.not_mem_nil, fun _ ha => absurd ha List.not_mem_nil⟩
  have hs : s.Sound := by
    refine Run.inv_state hstart ?_ h
    intro s e s' hs hstep
    exact capi_step hs hstep
  refine ⟨?_, ?_, ?_, ?_, ?_⟩
  · intro k hk
    obtain ⟨s', hstep, -⟩ := freeString_spec hs hk
    rw [hstep]
    rfl
  · intro k hk
    obtain ⟨s', hstep, -⟩ := freeNodes_spec hs hk
    rw [hstep]
    rfl
  · intro x hx
    exact cString_copy (hs.strings x hx)
  · intro a ha
    have hsaid := hs.arrays a ha
    exact ⟨a.infos, hsaid.array, hsaid.count.trans hsaid.lists.length_eq.symm, hsaid.lists.imp fun _ _ => ShowsNode.reads⟩
  · intro hstr harr p
    refine hs.owns.dead ?_
    rw [CapiState.owned, hstr, harr]
    exact List.not_mem_nil

end Runs

/-- A node whose name has no memory, a string at the address that was freed, and all of it given back. -/
def capiEvents : List CapiEvent :=
  [.string (ascii "key") (some 8),
    .listNodes [({ ipv4 := some 16, token := some 24 }, { id := 1, ipv4 := ascii "100.64.0.1" })] (some 32),
    .freeString 0, .string (ascii "other") (some 8), .freeNodes 0, .freeString 0]

theorem capi_memory_all :
    ∃ s, Run (Of capiStep) {} capiEvents s ∧ ∀ p, s.heap p = none := by
  have hrun : (exec capiStep {} capiEvents).any (fun s => s.strings.isEmpty && s.arrays.isEmpty) = true := by
    decide +kernel
  obtain ⟨s, hs, hend⟩ := (Option.any_eq_true _ _).mp hrun
  obtain ⟨hstr, harr⟩ := (Bool.and_eq_true _ _).mp hend
  exact ⟨s, run_of_exec hs, (capi_memory (run_of_exec hs)).2.2.2.2 (List.isEmpty_iff.mp hstr)
    (List.isEmpty_iff.mp harr)⟩

end Wirebone
