/-
  File:      Wirebone/Coordinator/Locks.lean
  Subject:   THE MUTEXES OF THE COORDINATOR: who takes which under which.

  The store has `mu_`, the map generation `map_mu_`, every connection its `live_mu`; the program around the
  coordinator has locks of its own, and its persist hook runs under `mu_`. `Coordinator/Basic` runs a section
  at once. Here a section is the operations it does on the mutexes, and the threads interleave between any
  two of them.

  * `sectionLocks`, `eventLocks` -- the operations of a section, `lockedStep` -- a run of the coordinator
    that records those of one connection; `ApiCall.locks` -- those of the calls from other threads;
  * `section_follows` -- a section goes by the ranks `live_mu < mu_ < map_mu_ < all others`;
  * **`coordinator_deadlock_free`** -- the threads never block each other, if the hooks keep off the
    coordinator's own mutexes;
  * **`hook_reentry_blocks`** -- a hook that calls the coordinator never returns, and from then on `mu_` is
    never free.
-/
import Wirebone.Lib.LockOrder
import Wirebone.Coordinator.Effect

namespace Wirebone

open ByteString FirstMatch Lts LockOrder

/-! ## 1. The code -/

inductive CoordLock where
  | mu
  | mapMu
  /-- `live_mu` of connection `i`. -/
  | live (i : Nat)
  /-- A lock of the program around the coordinator. -/
  | other (n : Nat)
  deriving DecidableEq

def CoordLock.rank : CoordLock → Nat
  | .live _ => 0
  | .mu => 1
  | .mapMu => 2
  | .other n => 3 + n

/-- What a persist hook does with locks. -/
abbrev HookOps := List (LockOp CoordLock)

/-- The loop of `on_tick` holds `live_mu`. -/
def Conn.inTick (c : Conn) : Bool :=
  match c.phase with
  | .tickFind _ _ => true
  | .tickNodes _ _ _ => true
  | _ => false

/-- A section of connection `i`, from `c` to `c'`; `hook` is what the persist hook does, nothing where it is
    not called. The guard of `on_tick` ends with its loop or with an exception. -/
def sectionLocks (hook : HookOps) (i : Nat) (c c' : Conn) : List (LockOp CoordLock) :=
  match c.phase with
  | .idle => []
  | .closed => []
  | .regRead _ => []
  | .regInstall _ none => []
  | .regFind _ => lockGuard .mu []
  | .regInstall _ (some _) => lockGuard .mu []
  | .mapOnline _ _ => lockGuard .mu []
  | .mapFind _ _ => lockGuard .mu []
  | .mapNodes _ _ _ => lockGuard .mu []
  | .byeOnline => lockGuard .mu []
  | .regCheck _ => lockGuard .mu hook
  | .regNode _ _ _ => lockGuard .mu hook
  | .mapUpdate _ _ => lockGuard .mu hook
  | .regBump => lockGuard .mapMu []
  | .mapBump _ _ => lockGuard .mapMu []
  | .byeBump => lockGuard .mapMu []
  | .mapLive _ _ _ _ _ => lockGuard (.live i) (lockGuard .mapMu [])
  | .tickFind gen k =>
    (if (c.live[k]?).any fun m => decide (gen ≠ m.lastGen) then lockGuard .mu [] else []) ++
      (if c'.inTick then [] else [.release (.live i)])
  | .tickNodes _ _ _ => lockGuard .mu [] ++ (if c'.inTick then [] else [.release (.live i)])

/-- What an event does on the thread of connection `i`. A connection begins with `noise_private`; `on_tick`
    reads the generation and takes `live_mu`. -/
def eventLocks (hook : HookOps) (i : Nat) (s s' : Coord) : Event → List (LockOp CoordLock)
  | .accept _ => if s.conns.length = i then lockGuard .mu [] else []
  | .tick j => if j = i then lockGuard .mapMu [] ++ [.acquire (.live i)] else []
  | .run j _ =>
    if j = i then
      match s.conns[i]?, s'.conns[i]? with
      | some c, some c' => sectionLocks hook i c c'
      | _, _ => []
    else []
  | .register _ _ => []
  | .map _ _ _ => []
  | .closeStream _ _ => []
  | .hangup _ => []
  | .createKey _ _ _ _ _ _ _ => []

/-- A coordinator, and the operations of the thread of one connection so far. -/
structure Locked where
  coord : Coord
  ops : List (LockOp CoordLock) := []

def lockedStep (I : Inet) (domain : Bytes) (i : Nat) (s : Locked) (e : Event × HookOps) : Option Locked :=
  (coordStep I domain s.coord e.1).map fun s' =>
    { coord := s', ops := s.ops ++ eventLocks e.2 i s.coord s' e.1 }

/-- The calls of other threads: the public functions of the coordinator, and a round of the DNS loop. -/
inductive ApiCall where
  /-- `load_or_init` and `preauth_keys`; a key is made where there is none. -/
  | construct (bootstrap : Bool)
  | createPreauthKey (hook : HookOps)
  | listPreauthKeys
  | listNodes
  | noisePublicKey
  | exportState
  /-- `load_json` parses before it locks, and `preauth_keys` follows. -/
  | importState (parsed : Bool)
  | setPersistHook
  | persist (hook : HookOps)
  /-- `asked`: the datagram is a question that parses. -/
  | dnsRound (asked : Bool)

def ApiCall.locks : ApiCall → List (LockOp CoordLock)
  | .construct bootstrap =>
    lockGuard .mu [] ++ lockGuard .mu [] ++ (if bootstrap then lockGuard .mu [] else [])
  | .createPreauthKey hook => lockGuard .mu hook
  | .listPreauthKeys => lockGuard .mu []
  | .listNodes => lockGuard .mu []
  | .noisePublicKey => lockGuard .mu []
  | .exportState => lockGuard .mu []
  | .importState parsed => if parsed then lockGuard .mu [] ++ lockGuard .mu [] else []
  | .setPersistHook => lockGuard .mu []
  | .persist hook => lockGuard .mu hook
  | .dnsRound asked => if asked then lockGuard .mu [] else []

/-- **A hook that keeps off the coordinator's own mutexes**: under `mu_` it takes other locks of the program
    in the order of their ranks, and gives them back. -/
def HookOps.Polite (hook : HookOps) : Prop := follow CoordLock.rank [.mu] hook = some [.mu]

instance (hook : HookOps) : Decidable hook.Polite :=
  inferInstanceAs (Decidable (follow CoordLock.rank [.mu] hook = some [.mu]))

/-- The hooks called. -/
def ApiCall.hook : ApiCall → HookOps
  | .createPreauthKey hook => hook
  | .persist hook => hook
  | _ => []

/-! ## 2. The sections go by the ranks -/

section Follows

variable {I : Inet} {domain : Bytes} {env : Env} {g g' : Shared} {c c' : Conn} {i : Nat} {hook : HookOps}

/-- What the thread of a connection holds between two sections. -/
def Conn.holds (i : Nat) (c : Conn) : List CoordLock := if c.inTick then [.live i] else []

theorem polite_nil : HookOps.Polite [] := rfl

theorem follow_mu (hh : hook.Polite) : follow CoordLock.rank [] (lockGuard .mu hook) = some [] :=
  follow_lockGuard (fun _ hm => absurd hm List.not_mem_nil) hh

theorem follow_mapMu : follow CoordLock.rank [] (lockGuard .mapMu []) = some [] := rfl

theorem follow_live : follow CoordLock.rank [] (lockGuard (.live i) (lockGuard .mapMu [])) = some [] := by
  simp [lockGuard, follow, CoordLock.rank]

theorem follow_mu_tick : follow CoordLock.rank [.live i] (lockGuard .mu []) = some [.live i] := by
  simp [lockGuard, follow, CoordLock.rank]

/-- The guard of `on_tick` ends where its loop does. -/
theorem follow_leave : follow CoordLock.rank [.live i] (if c'.inTick then [] else [.release (.live i)]) =
    some (c'.holds i) := by
  unfold Conn.holds
  cases c'.inTick with
  | true => rfl
  | false => simp [follow]

/-- A section outside of the loop of `on_tick`. -/
theorem section_outside (hh : hook.Polite) (hout : c.inTick = false) :
    follow CoordLock.rank [] (sectionLocks hook i c c') = some [] := by
  unfold sectionLocks
  cases hph : c.phase with
  | idle | closed | regRead r => rfl
  | regFind r | mapOnline sid r | mapFind sid r | mapNodes sid r self | byeOnline => exact follow_mu polite_nil
  | regInstall r image =>
    cases image with
    | none => rfl
    | some ks => exact follow_mu polite_nil
  | regCheck r | regNode r claim ephemeral | mapUpdate sid r => exact follow_mu hh
  | regBump | mapBump sid r | byeBump => exact follow_mapMu
  | mapLive sid r self nodes first => exact follow_live
  | tickFind gen k | tickNodes gen k self =>
    simp only [Conn.inTick, hph] at hout
    cases hout

/-- A section of the loop. -/
theorem section_inside (hin : c.inTick = true) :
    follow CoordLock.rank [.live i] (sectionLocks hook i c c') = some (c'.holds i) := by
  unfold sectionLocks
  cases hph : c.phase with
  | tickFind gen k =>
    show follow CoordLock.rank [.live i] (_ ++ _) = _
    rw [follow_append]
    split
    · rw [follow_mu_tick]
      exact follow_leave
    · exact follow_leave
  | tickNodes gen k self =>
    show follow CoordLock.rank [.live i] (_ ++ _) = _
    rw [follow_append, follow_mu_tick]
    exact follow_leave
  | _ =>
    simp only [Conn.inTick, hph] at hin
    cases hin

/-- Only `on_tick` itself enters the loop. -/
theorem branch_outside (h : Branch I domain env g c g' c') (hout : c.inTick = false) : c'.inTick = false := by
  cases h with
  | tickEnd gen k hph | tickFound gen k m self hph | tickGone gen k m hph | keepalive gen k m hph
  | tickSkip gen k hph | tickThrew gen k self hph | tickLost gen k self hph | tickSent gen k self m hph =>
    simp only [Conn.inTick, hph] at hout
    cases hout
  | _ => rfl

/-- **A section goes by the ranks**, from what the connection holds to what it holds then. -/
theorem section_follows (hh : hook.Polite) (h : Branch I domain env g c g' c') :
    follow CoordLock.rank (c.holds i) (sectionLocks hook i c c') = some (c'.holds i) := by
  cases hin : c.inTick with
  | true =>
    simp only [Conn.holds, hin, if_true]
    exact section_inside hin
  | false =>
    simp only [Conn.holds, hin, branch_outside h hin, Bool.false_eq_true, if_false]
    exact section_outside hh hin

end Follows

/-! ## 3. Whole runs -/

section Runs

variable {I : Inet} {domain : Bytes} {i : Nat} {s s' : Locked} {e : Event × HookOps}

/-- What the thread of connection `i` holds. -/
def Coord.holds (i : Nat) (s : Coord) : List CoordLock :=
  match s.conns[i]? with
  | some c => c.holds i
  | none => []

theorem holds_of_some {s : Coord} {c : Conn} (h : s.conns[i]? = some c) : s.holds i = c.holds i := by
  simp only [Coord.holds, h]

theorem holds_of_idle {c : Conn} (h : c.phase = .idle) : c.holds i = [] := by
  simp only [Conn.holds, Conn.inTick, h, Bool.false_eq_true, if_false]

theorem onRegister_holds (c : Conn) (body : Option Json) : (onRegister c body).holds i = [] := by
  rcases onRegister_cases c body with ⟨_, h⟩ | ⟨_, _, _, _, h⟩ | ⟨_, _, _, _, h⟩
  all_goals rw [h]; rfl

theorem onMap_holds (c : Conn) (sid : Nat) (body : Option Json) : (onMap c sid body).holds i = [] := by
  rcases onMap_cases c sid body with ⟨_, h⟩ | ⟨_, _, _, _, h⟩ | ⟨_, _, _, _, h | h⟩
  all_goals rw [h]; rfl

/-- The connection that is put back. -/
theorem holds_set {s : Coord} {c : Conn} (g : Shared) (c' : Conn) (h : s.conns[i]? = some c) :
    ({ shared := g, conns := s.conns.set i c' } : Coord).holds i = c'.holds i := by
  obtain ⟨hlt, -⟩ := List.getElem?_eq_some_iff.mp h
  exact holds_of_some (List.getElem?_set_self hlt)

/-- The others. -/
theorem holds_set_ne {s : Coord} {j : Nat} (g : Shared) (c' : Conn) (h : j ≠ i) :
    ({ shared := g, conns := s.conns.set j c' } : Coord).holds i = s.holds i := by
  simp only [Coord.holds, List.getElem?_set_ne h]

/-- An idle connection begins something that takes no lock yet. -/
theorem holds_begin {s : Coord} {j : Nat} {c c' : Conn} (hc : idleConn s j = some c) (hc' : c'.holds i = []) :
    (s.setConn j c').holds i = s.holds i := by
  obtain ⟨hget, hidle⟩ := idleConn_some hc
  by_cases hji : j = i
  · subst hji
    rw [holds_of_some hget, holds_of_idle hidle, ← hc']
    exact holds_set s.shared c' hget
  · exact holds_set_ne s.shared c' hji

/-- A connection is accepted: its thread begins, and the others go on as they were. -/
theorem accept_follows {s s' : Coord} {m : Bytes} {hook : HookOps}
    (h : coordStep I domain s (.accept m) = some s') :
    follow CoordLock.rank (s.holds i) (eventLocks hook i s s' (.accept m)) = some (s'.holds i) := by
  cases h
  by_cases hi : s.conns.length = i
  · subst hi
    have hnew : (s.conns ++ [({ machine := m } : Conn)])[s.conns.length]? = some { machine := m } := by
      simp
    simp only [Coord.holds, hnew, List.getElem?_eq_none (Nat.le_refl _), eventLocks, if_true]
    exact follow_mu polite_nil
  · simp only [eventLocks, if_neg hi]
    obtain hlt | hgt := Nat.lt_or_gt_of_ne hi
    · rw [Coord.holds, Coord.holds, List.getElem?_eq_none (by omega), List.getElem?_eq_none (by simp; omega)]
      rfl
    · rw [Coord.holds, Coord.holds, List.getElem?_append_left hgt]
      rfl

/-- **An event goes by the ranks**, on the thread of connection `i`. -/
theorem event_follows {s s' : Coord} {e : Event} {hook : HookOps} (hh : hook.Polite)
    (h : coordStep I domain s e = some s') :
    follow CoordLock.rank (s.holds i) (eventLocks hook i s s' e) = some (s'.holds i) := by
  cases e with
  | accept m => exact accept_follows h
  | register j body =>
    obtain ⟨c, hc, rfl⟩ := Option.map_eq_some_iff.mp h
    rw [holds_begin hc (onRegister_holds c body)]
    rfl
  | map j sid body =>
    obtain ⟨c, hc, rfl⟩ := Option.map_eq_some_iff.mp h
    rw [holds_begin hc (onMap_holds c sid body)]
    rfl
  | closeStream j k =>
    obtain ⟨c, hc, rfl⟩ := Option.map_eq_some_iff.mp h
    have hclose : (closeLive c k).phase = .idle := (idleConn_some hc).2
    rw [holds_begin hc (holds_of_idle hclose)]
    rfl
  | hangup j =>
    obtain ⟨c, hc, rfl⟩ := Option.map_eq_some_iff.mp h
    rw [holds_begin hc rfl]
    rfl
  | createKey env raw reusable ephemeral expiration token shared =>
    cases h
    rfl
  | tick j =>
    obtain ⟨c, hc, rfl⟩ := Option.map_eq_some_iff.mp h
    obtain ⟨hget, hidle⟩ := idleConn_some hc
    by_cases hji : j = i
    · subst hji
      have hafter := holds_set s.shared (c.enter (.tickFind s.shared.mapGen 0)) hget
      rw [holds_of_some hget, holds_of_idle hidle]
      simp only [eventLocks, if_true, follow_append, follow_mapMu, Option.bind_some]
      exact congrArg some hafter.symm
    · have hafter : (s.setConn j (c.enter (.tickFind s.shared.mapGen 0))).holds i = s.holds i :=
        holds_set_ne s.shared _ hji
      simp only [eventLocks, if_neg hji]
      exact congrArg some hafter.symm
  | run j env =>
    obtain ⟨c, hget, h⟩ := Option.bind_eq_some_iff.mp h
    obtain ⟨⟨g, c'⟩, hadv, rfl⟩ := Option.map_eq_some_iff.mp h
    by_cases hji : j = i
    · subst hji
      have hlocks : eventLocks hook j s ⟨g, s.conns.set j c'⟩ (.run j env) = sectionLocks hook j c c' := by
        obtain ⟨hlt, -⟩ := List.getElem?_eq_some_iff.mp hget
        simp only [eventLocks, if_true, hget, List.getElem?_set_self hlt]
      rw [hlocks, holds_of_some hget, holds_set g c' hget]
      exact section_follows hh (advance_branch hadv)
    · rw [holds_set_ne g c' hji]
      simp only [eventLocks, if_neg hji]
      rfl

theorem locked_step (hh : e.2.Polite) (h : lockedStep I domain i s e = some s')
    (hs : follow CoordLock.rank [] s.ops = some (s.coord.holds i)) :
    follow CoordLock.rank [] s'.ops = some (s'.coord.holds i) := by
  obtain ⟨coord, hstep, rfl⟩ := Option.map_eq_some_iff.mp h
  rw [follow_append, hs, Option.bind_some]
  exact event_follows hh hstep

/-- **The thread of a connection goes by the ranks in every run.** -/
theorem locked_run {store : Store} {file : Option FileText} {es : List (Event × HookOps)}
    (hh : ∀ e ∈ es, e.2.Polite)
    (h : Run (Of (lockedStep I domain i)) { coord := Coord.fresh store file } es s) :
    follow CoordLock.rank [] s.ops = some (s.coord.holds i) := by
  induction h with
  | start => rfl
  | step hrun hs ih =>
    have hlast := hh _ (List.mem_append_right _ (List.mem_singleton_self _))
    exact locked_step hlast hs (ih fun e he => hh e (List.mem_append_left _ he))

theorem api_follows {call : ApiCall} (hh : call.hook.Polite) :
    follow CoordLock.rank [] call.locks = some [] := by
  cases call with
  | construct bootstrap =>
    cases bootstrap with
    | true => rfl
    | false => rfl
  | importState parsed =>
    cases parsed with
    | true => rfl
    | false => rfl
  | dnsRound asked =>
    cases asked with
    | true => rfl
    | false => rfl
  | createPreauthKey hook | persist hook => exact follow_mu hh
  | listPreauthKeys | listNodes | noisePublicKey | exportState | setPersistHook => rfl

/-- **A thread that uses the coordinator**: one that serves a connection, from its start to a point outside
    of `on_tick` in any run of the coordinator, or one that makes any calls. -/
inductive CoordThread (I : Inet) (domain : Bytes) : List (LockOp CoordLock) → Prop where
  | client (i : Nat) (store : Store) (file : Option FileText) (es : List (Event × HookOps)) (s : Locked)
      (hh : ∀ e ∈ es, e.2.Polite)
      (hrun : Run (Of (lockedStep I domain i)) { coord := Coord.fresh store file } es s)
      (hend : s.coord.holds i = []) : CoordThread I domain s.ops
  | api (calls : List ApiCall) (hh : ∀ call ∈ calls, call.hook.Polite) :
      CoordThread I domain (calls.flatMap ApiCall.locks)

theorem thread_follows {p : List (LockOp CoordLock)} (h : CoordThread I domain p) :
    follow CoordLock.rank [] p = some [] := by
  cases h with
  | client i store file es s hh hrun hend => rw [locked_run hh hrun, hend]
  | api calls hh => exact follow_flatMap fun call hcall => api_follows (hh call hcall)

/-- **The threads of a coordinator never block each other**, whatever they do and in whatever order their
    operations on the mutexes come: while a thread is not at its end, some thread can go on. And a run does
    every operation once. The hooks keep to their order, and a call of the API begins with no lock held. -/
theorem coordinator_deadlock_free {progs : List (List (LockOp CoordLock))}
    (hp : ∀ p ∈ progs, CoordThread I domain p) {is : List Nat} {ts : List (LockThread CoordLock)}
    (h : Run (Of lockStep) (started progs) is ts) :
    ((∀ t ∈ ts, t.rest = []) ∨ ∃ i ts', lockStep ts i = some ts') ∧
      is.length + work ts = progs.flatten.length :=
  ⟨lockRun_progress (fun p hmem => thread_follows (hp p hmem)) h, lockRun_length h⟩

end Runs

/-- A connection that ticks and hangs up. -/
def tickingEvents : List (Event × HookOps) :=
  [(.accept [], []), (.tick 0, []), (.run 0 {}, []), (.hangup 0, []), (.run 0 {}, []), (.run 0 {}, [])]

def tickingOps : List (LockOp CoordLock) :=
  lockGuard .mu [] ++ lockGuard .mapMu [] ++ lockGuard (.live 0) [] ++ lockGuard .mu [] ++ lockGuard .mapMu []

/-- It stands at `mu_`, and another thread is in its hook, under `mu_` and a lock of its own. -/
theorem coordinator_deadlock_free_hook :
    ∃ ts, Run (Of lockStep) (started [tickingOps, (ApiCall.persist (lockGuard (.other 0) [])).locks]) [1, 1] ts ∧
      ((∀ t ∈ ts, t.rest = []) ∨ ∃ i ts', lockStep ts i = some ts') ∧ work ts = 12 := by
  have hclient : (exec (lockedStep .sample [] 0) { coord := Coord.fresh { path := [], alloc := pool16 } none }
      tickingEvents).any (fun s => decide (s.ops = tickingOps ∧ s.coord.holds 0 = [])) = true := by
    decide +kernel
  obtain ⟨s, hs, hend⟩ := (Option.any_eq_true _ _).mp hclient
  obtain ⟨hops, hheld⟩ := of_decide_eq_true hend
  have hthread : CoordThread .sample [] tickingOps := by
    rw [← hops]
    exact .client 0 { path := [], alloc := pool16 } none tickingEvents s (by decide) (run_of_exec hs) hheld
  have hapi : CoordThread .sample [] (ApiCall.persist (lockGuard (.other 0) [])).locks :=
    .api [.persist (lockGuard (.other 0) [])] (by decide)
  have hrun : (exec lockStep (started [tickingOps, (ApiCall.persist (lockGuard (.other 0) [])).locks])
      [1, 1]).any (fun ts => decide (work ts = 12)) = true := by
    decide +kernel
  obtain ⟨ts, hts, hwork⟩ := (Option.any_eq_true _ _).mp hrun
  have hp : ∀ p ∈ [tickingOps, (ApiCall.persist (lockGuard (.other 0) [])).locks], CoordThread .sample [] p := by
    intro p hp
    obtain rfl | hp := List.mem_cons.mp hp
    · exact hthread
    · rw [List.mem_singleton.mp hp]
      exact hapi
  exact ⟨ts, run_of_exec hts, (coordinator_deadlock_free hp (run_of_exec hts)).1, of_decide_eq_true hwork⟩

/-! ## 4. A hook that calls the coordinator -/

section Reentry

variable {progs : List (List (LockOp CoordLock))} {k : Nat} {is : List Nat} {ts : List (LockThread CoordLock)}
  {call : ApiCall} {pre post before after : List (LockOp CoordLock)}

/-- A call that takes a lock begins with `mu_`. -/
theorem api_locks_head (h : call.locks ≠ []) : ∃ more, call.locks = .acquire .mu :: more := by
  cases call with
  | importState parsed =>
    cases parsed with
    | true => exact ⟨_, rfl⟩
    | false => exact absurd rfl h
  | dnsRound asked =>
    cases asked with
    | true => exact ⟨_, rfl⟩
    | false => exact absurd rfl h
  | _ => exact ⟨_, rfl⟩

/-- **A hook that calls the coordinator does not return.** Whatever the other threads do, the thread stays in
    the call that has run the hook; and once it has come to `mu_`, nobody who asks for `mu_` ever goes on. -/
theorem hook_reentry_blocks (hcall : call.locks ≠ []) (hbefore : ∀ op ∈ before, op ≠ .release .mu)
    (hk : progs[k]? = some (pre ++ lockGuard .mu (before ++ (call.locks ++ after)) ++ post))
    (h : Run (Of lockStep) (started progs) is ts) :
    ∃ t, ts[k]? = some t ∧ post.length < t.rest.length ∧
      (CoordLock.mu ∈ t.held → t.wants = some .mu → ∀ is' ts', Run (Of lockStep) ts is' ts' →
        ∀ (j : Nat) (u : LockThread CoordLock), ts[j]? = some u → u.wants = some .mu → ts'[j]? = some u) := by
  obtain ⟨more, hmore⟩ := api_locks_head hcall
  have hprog : pre ++ lockGuard .mu (before ++ (call.locks ++ after)) ++ post =
      pre ++ .acquire .mu :: (before ++ .acquire .mu :: (more ++ after ++ .release .mu :: post)) := by
    simp [lockGuard, hmore]
  rw [hprog] at hk
  obtain ⟨t, ht, hr⟩ := reentry_run hbefore hk h
  refine ⟨t, ht, ?_, ?_⟩
  · have hlen := hr.length
    simp only [List.length_append, List.length_cons] at hlen
    omega
  · intro hheld hw is' ts' hrun j u hu hwu
    exact selfBlocked_run ht hheld hw hrun hu hwu

/-- A hook that exports the state, and a thread that lists the nodes. -/
theorem hook_reentry_blocks_export :
    ∃ ts, Run (Of lockStep) (started [(ApiCall.persist ApiCall.exportState.locks).locks, ApiCall.listNodes.locks])
        [0] ts ∧
      ∃ t, ts[0]? = some t ∧ ([] : List (LockOp CoordLock)).length < t.rest.length := by
  have hrun : (exec lockStep (started [(ApiCall.persist ApiCall.exportState.locks).locks,
      ApiCall.listNodes.locks]) [0]).isSome = true := by
    decide +kernel
  obtain ⟨ts, hts⟩ := Option.isSome_iff_exists.mp hrun
  obtain ⟨t, ht, hlen, -⟩ := @hook_reentry_blocks _ 0 _ ts .exportState [] [] [] [] (by decide) (by decide) rfl
    (run_of_exec hts)
  exact ⟨ts, run_of_exec hts, t, ht, hlen⟩

end Reentry

end Wirebone
