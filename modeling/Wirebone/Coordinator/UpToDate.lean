/-
  File:      Wirebone/Coordinator/UpToDate.lean
  Subject:   THAT EVERY TICK BRINGS ITS STREAMS UP TO DATE, whatever the other connections do meanwhile.

  `on_tick` reads the generation once and then goes through the streams of its connection. For each it looks
  the node of the machine up and copies the nodes, under locks that it gives back in between.

  * `Ticked` -- what a tick makes of one stream;
  * `Ticking`, `ticking_section` -- the loop: streams behind it are ticked, those before it are as they were;
  * **`tick_brings`** -- after two sections a stream and one more the tick is over, all streams ticked.
-/
import Wirebone.Coordinator.Locks
import Wirebone.Coordinator.MapOrder
import Wirebone.Coordinator.Progress

namespace Wirebone

open ByteString FirstMatch Lts

/-! ## 1. The loop -/

/-- What a tick that has read the generation `gen` makes of a stream: one with that generation is left, or gets
    a keepalive; another one gets the generation, and the map of its own node over all nodes that were there
    when the tick began, and perhaps more. -/
inductive Ticked (domain : Bytes) (gen : UInt64) (ids : List Identity) (m : LiveMap) : LiveMap → Prop where
  | current (hgen : gen = m.lastGen) : Ticked domain gen ids m m
  | keepalive (now : Bytes) (hgen : gen = m.lastGen) : Ticked domain gen ids m (m.push (buildKeepalive now))
  | full (self : NodeState) (nodes : List NodeState) (now : Bytes) (hgen : gen ≠ m.lastGen)
      (hself : self.machineKey = m.machine) (hids : ids <+: nodes.map (·.identity)) :
      Ticked domain gen ids m { m.push (.full (buildFullMap self nodes domain now)) with lastGen := gen }

/-- Where the loop of a tick is, and how many sections it has still to run: the streams `past` have become
    `pre`, and those to come are as they were. -/
inductive Ticking (domain : Bytes) (gen : UInt64) (ids : List Identity) (old : List LiveMap) (c : Conn) :
    ℕ → Prop where
  | find (past pre todo : List LiveMap) (hold : old = past ++ todo) (hlive : c.live = pre ++ todo)
      (hpre : List.Forall₂ (Ticked domain gen ids) past pre) (hph : c.phase = .tickFind gen past.length) :
      Ticking domain gen ids old c (2 * todo.length + 1)
  | nodes (past pre todo : List LiveMap) (m : LiveMap) (self : NodeState) (hold : old = past ++ m :: todo)
      (hlive : c.live = pre ++ m :: todo) (hpre : List.Forall₂ (Ticked domain gen ids) past pre)
      (hgen : gen ≠ m.lastGen) (hself : self.machineKey = m.machine)
      (hph : c.phase = .tickNodes gen past.length self) : Ticking domain gen ids old c (2 * todo.length + 2)

section Loop

variable {I : Inet} {domain : Bytes} {env : Env} {g g' : Shared} {c c' : Conn} {gen : UInt64}
  {ids : List Identity} {old past pre todo : List LiveMap} {m m' : LiveMap} {k : ℕ}

/-- The stream at the loop's place. -/
theorem loop_get (hlive : c.live = pre ++ m :: todo) (hpre : List.Forall₂ (Ticked domain gen ids) past pre) :
    c.live[past.length]? = some m := by
  rw [hlive, hpre.length_eq, List.getElem?_append_right (Nat.le_refl _), Nat.sub_self]
  rfl

theorem loop_set (hlive : c.live = pre ++ m :: todo) (hpre : List.Forall₂ (Ticked domain gen ids) past pre) :
    c.live.set past.length m' = pre ++ m' :: todo := by
  rw [hlive, hpre.length_eq, List.set_append_right _ _ (Nat.le_refl _), Nat.sub_self]
  rfl

/-- The loop goes on behind a stream that has become `m'`. -/
theorem loop_next (hold : old = past ++ m :: todo) (hpre : List.Forall₂ (Ticked domain gen ids) past pre)
    (hm : Ticked domain gen ids m m') (hlive : c'.live = pre ++ m' :: todo)
    (hph : c'.phase = .tickFind gen (past.length + 1)) :
    Ticking domain gen ids old c' (2 * todo.length + 1) := by
  refine .find (past ++ [m]) (pre ++ [m']) todo ?_ ?_ (List.rel_append hpre (.cons hm .nil)) ?_
  · rw [hold, List.append_assoc]
    rfl
  · rw [hlive, List.append_assoc]
    rfl
  · rw [hph, List.length_append]
    rfl

theorem Ticking.busy (h : Ticking domain gen ids old c k) :
    c.isIdle = false ∧ c.isClosed = false ∧ 0 < k := by
  cases h with
  | find _ _ _ _ _ _ hph | nodes _ _ _ _ _ _ _ _ _ _ hph =>
    simp only [Conn.isIdle, Conn.isClosed, hph]
    exact ⟨trivial, trivial, Nat.succ_pos _⟩

/-- **A section of a tick** ends it, with every stream ticked, or brings it nearer to its end. -/
theorem ticking_section (h : Ticking domain gen ids old c k)
    (hknown : ∀ m ∈ old, ∃ d ∈ ids, d.machineKey = m.machine) (hids : ids <+: identities g.world.store)
    (hadv : advance I domain env g c = some (g', c')) (hok : sectionEnds I domain env g c = true) :
    (c'.phase = .idle ∧ List.Forall₂ (Ticked domain gen ids) old c'.live) ∨
      ∃ j < k, Ticking domain gen ids old c' j := by
  cases h with
  | find past pre todo hold hlive hpre hph =>
    simp only [advance, hph] at hadv
    cases todo with
    | nil =>
      rw [List.append_nil] at hold hlive
      have hget : c.live[past.length]? = none := by
        rw [hlive, hpre.length_eq]
        exact List.getElem?_eq_none (Nat.le_refl _)
      simp only [hget] at hadv
      cases hadv
      refine .inl ⟨rfl, ?_⟩
      rw [hold]
      exact hlive ▸ hpre
    | cons m todo =>
      simp only [loop_get hlive hpre] at hadv
      by_cases hgen : gen = m.lastGen
      · rw [if_neg (not_not.mpr hgen)] at hadv
        refine .inr ⟨2 * todo.length + 1, by rw [List.length_cons]; omega, ?_⟩
        cases hkeep : env.keepalive with
        | true =>
          simp only [sectionEnds, encodeFails, hph, loop_get hlive hpre, hgen, hkeep, decide_true, Bool.true_and,
            Bool.not_eq_true'] at hok
          rw [hkeep, if_pos rfl, if_neg (Bool.eq_false_iff.mp hok)] at hadv
          cases hadv
          exact loop_next hold hpre (.keepalive env.now hgen) (loop_set hlive hpre) rfl
        | false =>
          rw [hkeep, if_neg Bool.false_ne_true] at hadv
          cases hadv
          exact loop_next hold hpre (.current hgen) hlive rfl
      · rw [if_pos hgen] at hadv
        cases hf : findByMachine g.world.store m.machine with
        | none =>
          -- the machine had a node when the tick began
          obtain ⟨d, hd, hm⟩ := hknown m (by rw [hold]; exact List.mem_append_right _ List.mem_cons_self)
          exact absurd hm (findByMachine_none hf d (hids.subset hd))
        | some self =>
          simp only [hf] at hadv
          cases hadv
          refine .inr ⟨2 * todo.length + 2, by rw [List.length_cons]; omega, ?_⟩
          exact .nodes past pre todo m self hold hlive hpre hgen (found_identity hf).2 rfl
  | nodes past pre todo m self hold hlive hpre hgen hself hph =>
    simp only [sectionEnds, encodeFails, hph, Bool.not_eq_true'] at hok
    simp only [advance, hph, hok, Bool.false_eq_true, if_false, loop_get hlive hpre] at hadv
    cases hadv
    refine .inr ⟨2 * todo.length + 1, Nat.lt_succ_self _, ?_⟩
    have hfull : Ticked domain gen ids m _ := .full self g.world.store.nodes env.now hgen hself hids
    exact loop_next hold hpre hfull (loop_set hlive hpre) rfl

end Loop

/-! ## 2. The tick -/

/-- Connection `i` has come to the end of its tick. -/
def TickOver (domain : Bytes) (i : ℕ) (gen : UInt64) (ids : List Identity) (old : List LiveMap) (s : Coord) :
    Prop :=
  ∃ d, s.conns[i]? = some d ∧ d.phase = .idle ∧ List.Forall₂ (Ticked domain gen ids) old d.live

/-- A connection is in its tick. -/
def InLoop (domain : Bytes) (gen : UInt64) (ids : List Identity) (old : List LiveMap) (s : Coord) (d : Conn)
    (k : ℕ) : Prop :=
  ids <+: identities s.shared.world.store ∧ Ticking domain gen ids old d k

/-- **Every tick brings its streams up to date.** In every run, from any store: when a connection has begun a
    tick, then, whatever the other connections do between its sections, its next section can run, and after
    two sections a stream and one more the tick is over. Every stream whose generation was not the one
    read at the beginning has that one then and, unless its client has closed it, one more map: of its own
    node, and built of all nodes that were there when the tick began. It asks no more than that
    `encode_map_frame` returns. -/
theorem tick_brings (I : Inet) (domain : Bytes) (store : Store) (file : Option FileText) (es₀ es : List Event)
    (s₁ s₂ s : Coord) (h₀ : Run (Of (coordStep I domain)) (Coord.fresh store file) es₀ s₁) (i : ℕ) (c : Conn)
    (hidle : idleConn s₁ i = some c) (htick : coordStep I domain s₁ (.tick i) = some s₂)
    (h : Run (Guarded (Of (coordStep I domain)) fun s e => kindly I domain i s e = true ∧
      (s.conns[i]?).any Conn.inTick = true) s₂ es s) :
    TickOver domain i s₁.shared.mapGen (identities s₁.shared.world.store) c.live s ∨
      ∃ k, 0 < k ∧ k + es.countP (Event.runs i) ≤ 2 * c.live.length + 1 ∧
        AtWork i (InLoop domain s₁.shared.mapGen (identities s₁.shared.world.store) c.live) k s ∧
        ∃ s', coordStep I domain s (.run i {}) = some s' := by
  obtain ⟨hget, _⟩ := idleConn_some hidle
  -- the streams are of machines that have a node
  have hall : AllStreams s₁ := by
    refine h₀.inv_state (I := AllStreams) ?_ fun _ _ _ hs hstep => streams_step hs hstep
    exact List.forall_mem_nil _
  have hknown : ∀ m ∈ c.live, ∃ d ∈ identities s₁.shared.world.store, d.machineKey = m.machine := by
    intro m hm
    obtain ⟨hown, d, hd, _⟩ := (hall c (List.mem_of_getElem? hget)).1 m hm
    have hfind : (identities s₁.shared.world.store).find? (·.machineKey = c.machine) = some d := hd
    exact ⟨d, List.mem_of_find?_eq_some hfind, by rw [hown]; simpa using List.find?_some hfind⟩
  have hbusy : Unfinished (InLoop domain s₁.shared.mapGen (identities s₁.shared.world.store) c.live) :=
    fun _ _ _ hwork => hwork.2.busy
  have hstart : AtWork i (InLoop domain s₁.shared.mapGen (identities s₁.shared.world.store) c.live)
      (2 * c.live.length + 1) s₂ := by
    rw [coordStep, hidle, Option.map_some] at htick
    cases htick
    refine ⟨c.enter (.tickFind s₁.shared.mapGen 0), ?_, List.prefix_rfl, .find [] [] c.live rfl rfl .nil rfl⟩
    exact List.getElem?_set_self (List.getElem?_eq_some_iff.mp hget).1
  refine work_comes hbusy ?_ ?_ ?_ hstart h
  · rintro s s' env d d' k hs _ hd' ⟨hids, hloop⟩ hadv hok
    rcases ticking_section hloop hknown hids hadv hok with ⟨hph, hlive⟩ | ⟨j, hj, hloop'⟩
    · exact .inl ⟨d', hd', hph, hlive⟩
    · exact .inr ⟨j, hj, hids.trans (coordStep_grows hs), hloop'⟩
  · rintro s e s' d k hs _ ⟨hids, hloop⟩
    exact ⟨hids.trans (coordStep_grows hs), hloop⟩
  · -- the run ends with the tick
    rintro s e s' hin _ ⟨d, hd, hph, _⟩
    rw [hd, Option.any_some, Conn.inTick, hph] at hin
    cases hin

/-- A stream is opened, and then a second machine registers. -/
def opensThenJoins : List Event :=
  opensStream ++ .run 0 {} :: joins 1 (ascii "mkey:2") (bytes32 [2]) (ascii "blue")

/-- The tick of the first connection; the second one ends meanwhile. -/
def ticksAndLeaves : List Event := [.run 0 {}, .hangup 1, .run 1 {}, .run 0 {}, .run 1 {}, .run 0 {}]

theorem tick_brings_one : ∃ (s₁ s₂ s : Coord) (c : Conn),
    Run (Of (coordStep .sample (ascii "ts.net"))) sampleCoord opensThenJoins s₁ ∧
      coordStep .sample (ascii "ts.net") s₁ (.tick 0) = some s₂ ∧
      Run (Guarded (Of (coordStep .sample (ascii "ts.net"))) fun s e =>
        kindly .sample (ascii "ts.net") 0 s e = true ∧ (s.conns[0]?).any Conn.inTick = true) s₂
        ticksAndLeaves s ∧
      c.live.length = 1 ∧
      TickOver (ascii "ts.net") 0 s₁.shared.mapGen (identities s₁.shared.world.store) c.live s := by
  have hexec : ((exec (coordStep .sample (ascii "ts.net")) sampleCoord opensThenJoins).bind fun s₁ =>
      (coordStep .sample (ascii "ts.net") s₁ (.tick 0)).bind fun s₂ =>
        (exec (checked (coordStep .sample (ascii "ts.net")) fun s e =>
          kindly .sample (ascii "ts.net") 0 s e && (s.conns[0]?).any Conn.inTick) s₂ ticksAndLeaves).map fun _ =>
            (idleConn s₁ 0).any fun c => decide (c.live.length = 1)) = some true := by
    decide +kernel
  obtain ⟨s₁, h₁, hexec⟩ := Option.bind_eq_some_iff.mp hexec
  obtain ⟨s₂, h₂, hexec⟩ := Option.bind_eq_some_iff.mp hexec
  obtain ⟨s, h, hidle⟩ := Option.map_eq_some_iff.mp hexec
  obtain ⟨c, hc, hlen⟩ := (Option.any_eq_true _ _).mp hidle
  have hone : c.live.length = 1 := of_decide_eq_true hlen
  have hrun := (guarded_of_exec h).mono fun s e s' hs => (⟨Bool.and_eq_true_iff.mp hs.1, hs.2⟩ :
    Guarded (Of (coordStep .sample (ascii "ts.net"))) (fun s e =>
      kindly .sample (ascii "ts.net") 0 s e = true ∧ (s.conns[0]?).any Conn.inTick = true) s e s')
  refine ⟨s₁, s₂, s, c, run_of_exec h₁, h₂, hrun, hone, ?_⟩
  rcases tick_brings .sample (ascii "ts.net") { path := [], alloc := pool16 } none opensThenJoins _ s₁ s₂ s
    (run_of_exec h₁) 0 c hc h₂ hrun with hover | ⟨k, hpos, hk, _⟩
  · exact hover
  · have hran : ticksAndLeaves.countP (Event.runs 0) = 3 := by decide
    omega

end Wirebone
