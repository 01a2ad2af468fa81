/-
  File:      Wirebone/Lib/LockOrder.lean
  Subject:   MUTEXES, AND NO DEADLOCK FROM LOCK RANKS.

  A thread is a list of acquisitions and releases. A mutex is not recursive: who holds it and asks for
  it again waits like everybody else.

  * `lockGuard` -- a guard around a body;
  * `follow` -- what a thread holds behind its operations, where each lock it takes ranks above all that
    it holds by then;
  * `lockStep` -- threads that share their locks, one operation of one thread;
  * **`lockRun_progress`** -- threads that follow the ranks and give everything back never block each
    other: while one of them is not at its end, some thread can go on;
  * `lockRun_length` -- every operation is done once, so no run is longer than all of them;
  * **`reentry_run`** -- a thread that takes a lock again before it gives it back never gets past that, and
    `selfBlocked_run`: nor does anybody who asks for the lock then.
-/
import Mathlib.Data.Finset.Max
import Wirebone.Lib.Lts

namespace LockOrder

open Lts

variable {L : Type*}

inductive LockOp (L : Type*) where
  | acquire (l : L)
  | release (l : L)
  deriving DecidableEq

/-- A guard: the lock is held around the body. -/
def lockGuard (l : L) (body : List (LockOp L)) : List (LockOp L) := .acquire l :: (body ++ [.release l])

/-- A thread: what it holds and what it will do. -/
structure LockThread (L : Type*) where
  held : List L := []
  rest : List (LockOp L)

/-- The lock a thread asks for. -/
def LockThread.wants (t : LockThread L) : Option L :=
  match t.rest with
  | .acquire l :: _ => some l
  | _ => none

variable [DecidableEq L]

/-- What is held behind the operations, if every lock taken ranks above those held. -/
def follow (rank : L → Nat) : List L → List (LockOp L) → Option (List L)
  | held, [] => some held
  | held, .acquire l :: ops =>
    if held.all fun h => decide (rank h < rank l) then follow rank (l :: held) ops else none
  | held, .release l :: ops => if l ∈ held then follow rank (held.erase l) ops else none

/-- The next operation of thread `i`; an acquisition waits until nobody holds the lock. -/
def lockStep (ts : List (LockThread L)) (i : Nat) : Option (List (LockThread L)) :=
  match ts[i]? with
  | none => none
  | some t =>
    match t.rest with
    | [] => none
    | .acquire l :: ops =>
      if ts.any fun u => decide (l ∈ u.held) then none
      else some (ts.set i { held := l :: t.held, rest := ops })
    | .release l :: ops => some (ts.set i { held := t.held.erase l, rest := ops })

/-! ## 1. Following the ranks -/

section Follow

variable {rank : L → Nat} {held held' : List L} {l : L} {ops ops' body : List (LockOp L)}

theorem follow_append (rank : L → Nat) (held : List L) (ops ops' : List (LockOp L)) :
    follow rank held (ops ++ ops') = (follow rank held ops).bind fun h => follow rank h ops' := by
  induction ops generalizing held with
  | nil => rfl
  | cons op ops ih =>
    cases op with
    | acquire l =>
      simp only [List.cons_append, follow, ih]
      split <;> rfl
    | release l =>
      simp only [List.cons_append, follow, ih]
      split <;> rfl

theorem follow_acquire (h : follow rank held (.acquire l :: ops) = some held') :
    (∀ m ∈ held, rank m < rank l) ∧ follow rank (l :: held) ops = some held' := by
  unfold follow at h
  by_cases hall : held.all fun m => decide (rank m < rank l)
  · rw [if_pos hall] at h
    refine ⟨?_, h⟩
    intro m hm
    exact of_decide_eq_true (List.all_eq_true.mp hall m hm)
  · rw [if_neg hall] at h
    cases h

theorem follow_release (h : follow rank held (.release l :: ops) = some held') :
    l ∈ held ∧ follow rank (held.erase l) ops = some held' := by
  unfold follow at h
  by_cases hl : l ∈ held
  · rw [if_pos hl] at h
    exact ⟨hl, h⟩
  · rw [if_neg hl] at h
    cases h

/-- **A guard** around a body that gives back what it takes: the lock must rank above what is held. -/
theorem follow_lockGuard (hall : ∀ m ∈ held, rank m < rank l)
    (hbody : follow rank (l :: held) body = some (l :: held)) :
    follow rank held (lockGuard l body) = some held := by
  have hguard : (held.all fun m => decide (rank m < rank l)) = true :=
    List.all_eq_true.mpr fun m hm => decide_eq_true (hall m hm)
  simp only [lockGuard, follow, hguard, if_true, follow_append, hbody, Option.bind_some,
    List.mem_cons_self, List.erase_cons_head]

/-- Parts that each give back what they take. -/
theorem follow_flatMap {α : Type*} {f : α → List (LockOp L)} {xs : List α}
    (h : ∀ x ∈ xs, follow rank held (f x) = some held) : follow rank held (xs.flatMap f) = some held := by
  induction xs with
  | nil => rfl
  | cons x xs ih =>
    rw [List.flatMap_cons, follow_append, h x List.mem_cons_self, Option.bind_some]
    exact ih fun y hy => h y (List.mem_cons_of_mem _ hy)

end Follow

/-! ## 2. One step -/

section Step

variable {rank : L → Nat} {ts ts' : List (LockThread L)} {i : Nat}

/-- **What a step can do**: a thread takes a lock that nobody holds, or gives one back. -/
theorem lockStep_cases (h : lockStep ts i = some ts') : ∃ t, ts[i]? = some t ∧
    ((∃ l ops, t.rest = .acquire l :: ops ∧ ts' = ts.set i { held := l :: t.held, rest := ops }) ∨
      ∃ l ops, t.rest = .release l :: ops ∧ ts' = ts.set i { held := t.held.erase l, rest := ops }) := by
  unfold lockStep at h
  cases ht : ts[i]? with
  | none =>
    simp only [ht] at h
    cases h
  | some t =>
    refine ⟨t, rfl, ?_⟩
    cases hrest : t.rest with
    | nil =>
      simp only [ht, hrest] at h
      cases h
    | cons op ops =>
      cases op with
      | acquire l =>
        simp only [ht, hrest] at h
        split at h
        · cases h
        · exact .inl ⟨l, ops, rfl, (Option.some.inj h).symm⟩
      | release l =>
        simp only [ht, hrest] at h
        exact .inr ⟨l, ops, rfl, (Option.some.inj h).symm⟩

/-- Every thread follows the ranks and gives everything back. -/
def Ranked (rank : L → Nat) (ts : List (LockThread L)) : Prop :=
  ∀ t ∈ ts, follow rank t.held t.rest = some []

theorem Ranked.set {u : LockThread L} (h : Ranked rank ts) (hu : follow rank u.held u.rest = some []) :
    Ranked rank (ts.set i u) := by
  intro t ht
  obtain hmem | rfl := List.mem_or_eq_of_mem_set ht
  · exact h t hmem
  · exact hu

theorem ranked_step (hr : Ranked rank ts) (h : lockStep ts i = some ts') : Ranked rank ts' := by
  obtain ⟨t, ht, ⟨l, ops, hrest, rfl⟩ | ⟨l, ops, hrest, rfl⟩⟩ := lockStep_cases h
  · have hf := hr t (List.mem_of_getElem? ht)
    rw [hrest] at hf
    exact hr.set (follow_acquire hf).2
  · have hf := hr t (List.mem_of_getElem? ht)
    rw [hrest] at hf
    exact hr.set (follow_release hf).2

/-- What is left to do. -/
def work (ts : List (LockThread L)) : Nat := (ts.flatMap (·.rest)).length

omit [DecidableEq L] in
theorem work_set {t u : LockThread L} {op : LockOp L} (ht : ts[i]? = some t) (hrest : t.rest = op :: u.rest) :
    work (ts.set i u) + 1 = work ts := by
  induction ts generalizing i with
  | nil => cases ht
  | cons v ts ih =>
    cases i with
    | zero =>
      cases ht
      simp only [work, List.set_cons_zero, List.flatMap_cons, List.length_append, hrest, List.length_cons]
      omega
    | succ i =>
      have hind := ih (i := i) ht
      simp only [work, List.set_cons_succ, List.flatMap_cons, List.length_append] at hind ⊢
      omega

theorem work_step (h : lockStep ts i = some ts') : work ts' + 1 = work ts := by
  obtain ⟨t, ht, ⟨l, ops, hrest, rfl⟩ | ⟨l, ops, hrest, rfl⟩⟩ := lockStep_cases h
  · exact work_set ht hrest
  · exact work_set ht hrest

end Step

/-! ## 3. No deadlock -/

section Deadlock

variable {rank : L → Nat} {ts ts' : List (LockThread L)}

/-- A thread that cannot go on is at its end, or asks for a lock that somebody holds. -/
theorem stuck_cases {t : LockThread L} (hstuck : ∀ i, lockStep ts i = none) (ht : t ∈ ts) :
    t.rest = [] ∨ ∃ l ops, t.rest = .acquire l :: ops ∧ ∃ u ∈ ts, l ∈ u.held := by
  obtain ⟨i, hi⟩ := List.mem_iff_getElem?.mp ht
  have hnone := hstuck i
  unfold lockStep at hnone
  cases hrest : t.rest with
  | nil => exact .inl rfl
  | cons op ops =>
    cases op with
    | release l =>
      simp only [hi, hrest] at hnone
      cases hnone
    | acquire l =>
      simp only [hi, hrest] at hnone
      split at hnone
      · rename_i hheld
        obtain ⟨u, hu, hl⟩ := List.any_eq_true.mp hheld
        exact .inr ⟨l, ops, rfl, u, hu, of_decide_eq_true hl⟩
      · cases hnone

/-- **Threads that follow the ranks do not block each other.** Were they all stuck, the holder of the
    highest lock that is asked for would ask for a higher one. -/
theorem ranked_progress (hr : Ranked rank ts) (hopen : ∃ t ∈ ts, t.rest ≠ []) :
    ∃ i ts', lockStep ts i = some ts' := by
  by_contra hno
  have hstuck : ∀ i, lockStep ts i = none := by
    intro i
    cases h : lockStep ts i with
    | none => rfl
    | some ts' => exact absurd ⟨i, ts', h⟩ hno
  have hmem : ∀ l, l ∈ (ts.filterMap LockThread.wants).toFinset ↔ ∃ t ∈ ts, t.wants = some l := by
    intro l
    rw [List.mem_toFinset, List.mem_filterMap]
  obtain ⟨t₀, ht₀, hrest₀⟩ := hopen
  obtain hnil | ⟨l₀, ops₀, hl₀, -⟩ := stuck_cases hstuck ht₀
  · exact hrest₀ hnil
  have hne : ((ts.filterMap LockThread.wants).toFinset).Nonempty :=
    ⟨l₀, (hmem l₀).mpr ⟨t₀, ht₀, by simp only [LockThread.wants, hl₀]⟩⟩
  obtain ⟨l, hl, hmax⟩ := Finset.exists_max_image _ rank hne
  obtain ⟨t, ht, hwants⟩ := (hmem l).mp hl
  -- the holder of `l` is not at its end
  obtain hnil | ⟨l', ops, hrest, u, hu, hheld⟩ := stuck_cases hstuck ht
  · simp only [LockThread.wants, hnil] at hwants
    cases hwants
  have hll : l' = l := by
    simp only [LockThread.wants, hrest, Option.some.injEq] at hwants
    exact hwants
  subst hll
  have hf := hr u hu
  obtain hnil | ⟨m, ops', hrest', -⟩ := stuck_cases hstuck hu
  · rw [hnil] at hf
    rw [Option.some.inj hf] at hheld
    cases hheld
  rw [hrest'] at hf
  have hlt := (follow_acquire hf).1 l' hheld
  have hle := hmax m ((hmem m).mpr ⟨u, hu, by simp only [LockThread.wants, hrest']⟩)
  omega

/-- Threads at their start. -/
def started (progs : List (List (LockOp L))) : List (LockThread L) := progs.map fun ops => { rest := ops }

variable {progs : List (List (LockOp L))} {is : List Nat}

theorem lockRun_progress (hf : ∀ p ∈ progs, follow rank [] p = some [])
    (h : Run (Of lockStep) (started progs) is ts) :
    (∀ t ∈ ts, t.rest = []) ∨ ∃ i ts', lockStep ts i = some ts' := by
  have hstart : Ranked rank (started progs) := by
    intro t ht
    obtain ⟨p, hp, rfl⟩ := List.mem_map.mp ht
    exact hf p hp
  have hr : Ranked rank ts := by
    refine Run.inv_state hstart ?_ h
    intro ts i ts' hr hs
    exact ranked_step hr hs
  by_cases hopen : ∃ t ∈ ts, t.rest ≠ []
  · exact .inr (ranked_progress hr hopen)
  · refine .inl ?_
    intro t ht
    by_contra hrest
    exact hopen ⟨t, ht, hrest⟩

theorem lockRun_length (h : Run (Of lockStep) (started progs) is ts) :
    is.length + work ts = progs.flatten.length := by
  induction h with
  | start =>
    simp only [work, started, List.flatMap_map, List.flatMap_id', List.length_nil, Nat.zero_add]
  | step hrun hs ih =>
    have hone := work_step hs
    rw [List.length_append, List.length_singleton]
    omega

end Deadlock

/-! ## 4. Asking again for what one holds -/

section Again

variable {ts ts' : List (LockThread L)} {progs : List (List (LockOp L))} {is : List Nat} {i j k : Nat} {l : L}
  {t u : LockThread L} {body more ops : List (LockOp L)}

omit [DecidableEq L] in
theorem LockThread.wants_some (h : t.wants = some l) : ∃ ops, t.rest = .acquire l :: ops := by
  unfold LockThread.wants at h
  split at h
  · rename_i m ops hrest
    cases h
    exact ⟨ops, hrest⟩
  · cases h

/-- Who asks for a lock that somebody holds waits. -/
theorem lockStep_waits (ht : t ∈ ts) (hl : l ∈ t.held) (hu : ts[j]? = some u) (hw : u.wants = some l) :
    lockStep ts j = none := by
  obtain ⟨ops, hops⟩ := LockThread.wants_some hw
  have hheld : (ts.any fun v => decide (l ∈ v.held)) = true :=
    List.any_eq_true.mpr ⟨t, ht, decide_eq_true hl⟩
  simp only [lockStep, hu, hops, hheld, if_true]

/-- A step of another thread. -/
theorem lockStep_other (hne : i ≠ j) (h : lockStep ts i = some ts') : ts'[j]? = ts[j]? := by
  obtain ⟨_, _, ⟨_, _, _, rfl⟩ | ⟨_, _, _, rfl⟩⟩ := lockStep_cases h
  · exact List.getElem?_set_ne hne
  · exact List.getElem?_set_ne hne

/-- **A thread that asks for what it holds waits for ever, and so does everybody who asks for that lock.** -/
theorem selfBlocked_run (hk : ts[k]? = some t) (hl : l ∈ t.held) (hw : t.wants = some l)
    (h : Run (Of lockStep) ts is ts') (hu : ts[j]? = some u) (hwu : u.wants = some l) : ts'[j]? = some u := by
  have hboth : ts'[k]? = some t ∧ ts'[j]? = some u := by
    refine Run.inv_state (I := fun s => s[k]? = some t ∧ s[j]? = some u) ⟨hk, hu⟩ ?_ h
    intro s i s' hs hstep
    have hwait {m : Nat} {v : LockThread L} (hv : s[m]? = some v) (hwv : v.wants = some l) : s'[m]? = some v := by
      have hne : i ≠ m := by
        intro him
        subst him
        have hnone := lockStep_waits (List.mem_of_getElem? hs.1) hl hv hwv
        rw [Of, hnone] at hstep
        cases hstep
      rw [lockStep_other hne hstep, hv]
    exact ⟨hwait hs.1 hw, hwait hs.2 hwu⟩
  exact hboth.2

/-- Where a thread stands that takes `l` and, before it gives it back, takes it again: in front of the first
    acquisition, or between the two. -/
def Reenters (l : L) (body more : List (LockOp L)) (t : LockThread L) : Prop :=
  (∃ pre, t.rest = pre ++ .acquire l :: (body ++ .acquire l :: more)) ∨
  (l ∈ t.held ∧ ∃ pre, (∀ op ∈ pre, op ≠ .release l) ∧ t.rest = pre ++ .acquire l :: more)

theorem reenters_step (hbody : ∀ op ∈ body, op ≠ .release l) (hk : ts[k]? = some t)
    (ht : Reenters l body more t) (h : lockStep ts i = some ts') :
    ∃ t', ts'[k]? = some t' ∧ Reenters l body more t' := by
  by_cases hik : i = k
  · subst hik
    obtain ⟨hlt, -⟩ := List.getElem?_eq_some_iff.mp hk
    obtain ⟨t', ht', hcases⟩ := lockStep_cases h
    rw [hk] at ht'
    cases ht'
    obtain ⟨pre, hpre⟩ | ⟨hheld, pre, hno, hpre⟩ := ht
    · cases pre with
      | nil =>
        -- the first acquisition
        obtain ⟨m, ops, hrest, rfl⟩ | ⟨m, ops, hrest, rfl⟩ := hcases
        · rw [hpre] at hrest
          cases hrest
          exact ⟨_, List.getElem?_set_self hlt, .inr ⟨List.mem_cons_self, body, hbody, rfl⟩⟩
        · rw [hpre] at hrest
          cases hrest
      | cons op pre =>
        obtain ⟨m, ops, hrest, rfl⟩ | ⟨m, ops, hrest, rfl⟩ := hcases
        · rw [hpre] at hrest
          cases hrest
          exact ⟨_, List.getElem?_set_self hlt, .inl ⟨pre, rfl⟩⟩
        · rw [hpre] at hrest
          cases hrest
          exact ⟨_, List.getElem?_set_self hlt, .inl ⟨pre, rfl⟩⟩
    · cases pre with
      | nil =>
        -- the second one waits for the thread itself
        have hw : t.wants = some l := by
          rw [LockThread.wants, hpre]
          rfl
        rw [lockStep_waits (List.mem_of_getElem? hk) hheld hk hw] at h
        cases h
      | cons op pre =>
        obtain ⟨m, ops, hrest, rfl⟩ | ⟨m, ops, hrest, rfl⟩ := hcases
        · rw [hpre] at hrest
          cases hrest
          exact ⟨_, List.getElem?_set_self hlt,
            .inr ⟨List.mem_cons_of_mem _ hheld, pre, fun op hop => hno op (List.mem_cons_of_mem _ hop), rfl⟩⟩
        · rw [hpre] at hrest
          cases hrest
          have hne : l ≠ m := by
            intro hlm
            subst hlm
            exact hno _ List.mem_cons_self rfl
          exact ⟨_, List.getElem?_set_self hlt, .inr ⟨(List.mem_erase_of_ne hne).mpr hheld, pre,
            fun op hop => hno op (List.mem_cons_of_mem _ hop), rfl⟩⟩
  · exact ⟨t, (lockStep_other hik h).trans hk, ht⟩

/-- **It never gets past the second acquisition.** -/
theorem reentry_run {pre : List (LockOp L)} (hbody : ∀ op ∈ body, op ≠ .release l)
    (hk : progs[k]? = some (pre ++ .acquire l :: (body ++ .acquire l :: more)))
    (h : Run (Of lockStep) (started progs) is ts) : ∃ t, ts[k]? = some t ∧ Reenters l body more t := by
  refine Run.inv_state (I := fun s => ∃ t, s[k]? = some t ∧ Reenters l body more t) ?_ ?_ h
  · exact ⟨{ rest := _ }, by rw [started, List.getElem?_map, hk]; rfl, .inl ⟨pre, rfl⟩⟩
  · intro s i s' hs hstep
    obtain ⟨t, ht, hr⟩ := hs
    exact reenters_step hbody ht hr hstep

omit [DecidableEq L] in
theorem Reenters.length (h : Reenters l body more t) : more.length < t.rest.length := by
  obtain ⟨pre, hpre⟩ | ⟨-, pre, -, hpre⟩ := h
  · rw [hpre]
    simp only [List.length_append, List.length_cons]
    omega
  · rw [hpre]
    simp only [List.length_append, List.length_cons]
    omega

end Again

end LockOrder
