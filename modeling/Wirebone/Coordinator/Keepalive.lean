/-
  File:      Wirebone/Coordinator/Keepalive.lean
  Subject:   on_tick AGAINST THE CLOCK: when a map stream is written to.

  `Coordinator/Basic` leaves open when the keepalive interval has passed. Here the streams of a connection
  carry `last_send`, and `on_tick` decides by the clock. What other threads do meanwhile comes in as the
  generation and the maps that a tick finds, which may be anything.

  * `tickEntry` -- the body of the loop of `on_tick`, `paceStep` -- the connection and the clock;
  * `advance_entry` -- it is what the sections of `Coordinator/Basic` do with the entry;
  * `Paced.Early`, `Paced.Late` -- the two invariants;
  * **`keepalive_paced`** -- no keepalive is early; and where the loop comes to its tick within `δ`, no
    stream is silent for `keepalive + δ`.
-/
import Mathlib.Data.List.Chain
import Wirebone.Coordinator.Effect

namespace Wirebone

open ByteString FirstMatch Lts

/-! ## 1. The code -/

/-- A `LiveMap` with its `last_send`; what has been queued, with the clock of that moment. -/
structure PacedMap where
  streamId : Nat
  machine : Bytes
  zstd : Bool
  lastGen : UInt64
  lastSend : Int
  isOpen : Bool := true
  log : List (MapMessage × Int)

/-- The entry without its times. -/
def PacedMap.erase (p : PacedMap) : LiveMap :=
  { streamId := p.streamId, machine := p.machine, zstd := p.zstd, lastGen := p.lastGen, isOpen := p.isOpen
    queued := p.log.map (·.1) }

/-- `push_data` at the time `now`. -/
def PacedMap.push (p : PacedMap) (now : Int) (msg : MapMessage) : PacedMap :=
  if p.isOpen then { p with log := p.log ++ [(msg, now)] } else p

/-- The body of the loop of `on_tick`; `map` is the map built for the entry, `none` where its machine is not
    known. -/
def tickEntry (keepalive now : Int) (text : Bytes) (gen : UInt64) (map : Option FullMap) (p : PacedMap) :
    PacedMap :=
  if gen ≠ p.lastGen then
    match map with
    | some map => { p.push now (.full map) with lastGen := gen, lastSend := now }
    | none => { p with lastGen := gen, lastSend := now }
  else if keepalive ≤ now - p.lastSend then { p.push now (buildKeepalive text) with lastSend := now }
  else p

/-- A connection in `run`, and the steady clock. -/
structure Paced where
  clock : Int := 0
  /-- When `on_tick` has run last, at first the start of the loop. -/
  lastTick : Int := 0
  live : List PacedMap := []

inductive PacedEvent where
  | pass (d : Nat)
  /-- The end of an `on_map` that starts a stream. -/
  | start (sid : Nat) (machine : Bytes) (zstd : Bool) (gen : UInt64) (first : FullMap)
  /-- `on_tick`, with the generation it reads, the time text of its keepalives and the map built for each
      entry. -/
  | tick (gen : UInt64) (text : Bytes) (maps : Nat → Option FullMap)
  /-- The client closes a stream. -/
  | close (k : Nat)

def paceStep (keepalive : Int) (s : Paced) : PacedEvent → Option Paced
  | .pass d => some { s with clock := s.clock + d }
  | .start sid machine zstd gen first =>
    some { s with live := s.live ++
      [{ streamId := sid, machine, zstd, lastGen := gen, lastSend := s.clock
         log := [(.full first, s.clock)] }] }
  | .tick gen text maps =>
    some { s with
      lastTick := s.clock
      live := s.live.mapIdx fun k p => tickEntry keepalive s.clock text gen (maps k) p }
  | .close k => some { s with live := s.live.modify k fun p => { p with isOpen := false } }

/-! ## 2. It is what the sections do -/

section Sections

variable {I : Inet} {domain : Bytes} {env env' : Env} {g g' : Shared} {c : Conn} {gen : UInt64} {k : Nat}
  {keepalive now : Int} {p : PacedMap}

theorem erase_push (now : Int) (msg : MapMessage) : (p.push now msg).erase = p.erase.push msg := by
  unfold PacedMap.push LiveMap.push
  by_cases ho : p.isOpen = true
  · rw [if_pos ho, if_pos (show p.erase.isOpen = true from ho)]
    simp only [PacedMap.erase, List.map_append, List.map_cons, List.map_nil]
  · rw [if_neg ho, if_neg (show ¬ p.erase.isOpen = true from ho)]

/-- **The body of the loop, in one section**: nothing new, or a machine that is not known. -/
theorem advance_entry (text : Bytes) (hph : c.phase = .tickFind gen k) (hk : c.live[k]? = some p.erase)
    (henc : encodeFails domain env g c = false)
    (htext : env.now = text) (hpassed : env.keepalive = decide (keepalive ≤ now - p.lastSend))
    (hquiet : gen = p.lastGen ∨ findByMachine g.world.store p.machine = none) :
    advance I domain env g c = some (g,
      { c with phase := .tickFind gen (k + 1)
               live := c.live.set k (tickEntry keepalive now text gen none p).erase }) := by
  obtain ⟨hlt, hget⟩ := List.getElem?_eq_some_iff.mp hk
  unfold advance tickEntry
  simp only [hph, hk]
  by_cases hgen : gen = p.lastGen
  · rw [if_neg (not_not.mpr hgen), if_neg (show ¬ gen ≠ p.erase.lastGen from not_not.mpr hgen), hpassed]
    by_cases hp : keepalive ≤ now - p.lastSend
    · have herase : ({ p.push now (buildKeepalive text) with lastSend := now } : PacedMap).erase =
          p.erase.push (buildKeepalive env.now) := by
        rw [htext, ← erase_push now]
        rfl
      have hdue : env.keepalive = true := by rw [hpassed, decide_eq_true hp]
      have henc' : env.encodeThrows (buildKeepalive env.now) = false := by
        have hlast : gen = p.erase.lastGen := hgen
        simpa only [encodeFails, hph, hk, hlast, decide_true, hdue, Bool.true_and] using henc
      rw [if_pos hp, decide_eq_true hp, if_pos rfl, herase, henc']
      rfl
    · have hself : c.live.set k p.erase = c.live := by
        rw [← hget]
        exact List.set_getElem_self hlt
      rw [if_neg hp, decide_eq_false hp, hself]
      rfl
  · have hnone : findByMachine g.world.store p.erase.machine = none := hquiet.resolve_left hgen
    rw [if_pos hgen, if_pos (show gen ≠ p.erase.lastGen from hgen), hnone]
    rfl

/-- **The body of the loop, in two sections**: the machine is looked up, then a map is built of the nodes
    there are by then. -/
theorem advance_entry_map {self : NodeState} (hph : c.phase = .tickFind gen k)
    (hk : c.live[k]? = some p.erase) (hgen : gen ≠ p.lastGen)
    (hself : findByMachine g.world.store p.machine = some self)
    (henc : encodeFails domain env' g' (c.enter (.tickNodes gen k self)) = false) :
    advance I domain env g c = some (g, c.enter (.tickNodes gen k self)) ∧
      advance I domain env' g' (c.enter (.tickNodes gen k self)) = some (g'.drew self domain env'.now,
        { c with phase := .tickFind gen (k + 1)
                 live := c.live.set k (tickEntry keepalive now env'.now gen
                   (some (buildFullMap self g'.world.store.nodes domain env'.now)) p).erase }) := by
  have hfound : findByMachine g.world.store p.erase.machine = some self := hself
  constructor
  · unfold advance
    simp only [hph, hk]
    rw [if_pos (show gen ≠ p.erase.lastGen from hgen), hfound]
  · have herase : ∀ msg, ({ p.push now msg with lastGen := gen, lastSend := now } : PacedMap).erase =
        { p.erase.push msg with lastGen := gen } := by
      intro msg
      rw [← erase_push now]
      rfl
    simp only [encodeFails, Conn.enter] at henc
    unfold advance tickEntry
    simp only [Conn.enter, henc, hk, if_pos hgen, herase]
    rfl

end Sections

/-! ## 3. Not early -/

def MapMessage.isKeepalive : MapMessage → Bool
  | .full _ => false
  | .keepalive _ => true

/-- Two messages in a row: a keepalive comes no sooner than the interval after what was before it. -/
def NotEarly (keepalive : Int) (a b : MapMessage × Int) : Prop :=
  a.2 ≤ b.2 ∧ (b.1.isKeepalive = true → keepalive ≤ b.2 - a.2)

/-- The entry so far: its last message is no younger than `last_send`. -/
structure PacedMap.Early (keepalive clock : Int) (p : PacedMap) : Prop where
  last : ∃ e, p.log.getLast? = some e ∧ e.2 ≤ p.lastSend
  sent : p.lastSend ≤ clock
  chain : p.log.IsChain (NotEarly keepalive)

section Early

variable {keepalive clock : Int} {p : PacedMap}

theorem chain_push {R : MapMessage × Int → MapMessage × Int → Prop} {msg : MapMessage}
    (h : p.log.IsChain R) {e : MapMessage × Int} (hlast : p.log.getLast? = some e) (hr : R e (msg, clock)) :
    (p.push clock msg).log.IsChain R := by
  unfold PacedMap.push
  by_cases ho : p.isOpen = true
  · rw [if_pos ho]
    refine List.isChain_append.mpr ⟨h, .singleton _, fun a ha b hb => ?_⟩
    cases hlast.symm.trans ha
    cases hb
    exact hr
  · rw [if_neg ho]
    exact h

/-- The last message after a push: the new one, or, on a closed stream, the old one. -/
theorem last_push (clock : Int) (msg : MapMessage) {e : MapMessage × Int} (hlast : p.log.getLast? = some e) :
    ∃ e', (p.push clock msg).log.getLast? = some e' ∧ (e' = (msg, clock) ∨ p.isOpen = false ∧ e' = e) := by
  unfold PacedMap.push
  by_cases ho : p.isOpen = true
  · rw [if_pos ho]
    exact ⟨_, List.getLast?_concat, .inl rfl⟩
  · rw [if_neg ho]
    exact ⟨e, hlast, .inr ⟨Bool.eq_false_iff.mpr ho, rfl⟩⟩

/-- A message that is not early leaves the entry so. -/
theorem PacedMap.Early.push (h : p.Early keepalive clock) (msg : MapMessage) (gen : UInt64)
    (hmsg : msg.isKeepalive = true → keepalive ≤ clock - p.lastSend) :
    PacedMap.Early keepalive clock { p.push clock msg with lastGen := gen, lastSend := clock } := by
  obtain ⟨e, he, hle⟩ := h.last
  have hsent := h.sent
  refine ⟨?_, Int.le_refl _, chain_push h.chain he ⟨?_, fun hk => ?_⟩⟩
  · obtain ⟨e', he', hcase⟩ := last_push clock msg he
    refine ⟨e', he', ?_⟩
    rcases hcase with rfl | ⟨_, rfl⟩
    · exact Int.le_refl _
    · exact Int.le_trans hle hsent
  · show e.2 ≤ clock
    omega
  · have := hmsg hk
    show keepalive ≤ clock - e.2
    omega

theorem PacedMap.Early.tick (h : p.Early keepalive clock) (text : Bytes) (gen : UInt64) (map : Option FullMap) :
    (tickEntry keepalive clock text gen map p).Early keepalive clock := by
  unfold tickEntry
  by_cases hgen : gen ≠ p.lastGen
  · rw [if_pos hgen]
    cases map with
    | some map => exact h.push (.full map) gen fun hk => (by cases hk)
    | none =>
      obtain ⟨e, he, hle⟩ := h.last
      exact ⟨⟨e, he, Int.le_trans hle h.sent⟩, Int.le_refl _, h.chain⟩
  · rw [if_neg hgen]
    by_cases hp : keepalive ≤ clock - p.lastSend
    · rw [if_pos hp]
      exact h.push (buildKeepalive text) (p.push clock (buildKeepalive text)).lastGen fun _ => hp
    · rw [if_neg hp]
      exact h

end Early

/-- Every step keeps what every entry keeps under a tick, under the passing of time and when it is closed,
    and what a new entry has. -/
theorem paceStep_live {keepalive : Int} {s s' : Paced} {e : PacedEvent} {P : Paced → PacedMap → Prop}
    (hstep : paceStep keepalive s e = some s') (hP : ∀ p ∈ s.live, P s p)
    (hpass : ∀ d, e = .pass d → ∀ p, P s p → P s' p)
    (hstart : ∀ sid machine zstd gen first, e = .start sid machine zstd gen first → (∀ p, P s p → P s' p) ∧
      P s' { streamId := sid, machine, zstd, lastGen := gen, lastSend := s.clock, log := [(.full first, s.clock)] })
    (htick : ∀ gen text maps, e = .tick gen text maps → ∀ k p, s.live[k]? = some p → P s p →
      P s' (tickEntry keepalive s.clock text gen (maps k) p))
    (hclose : ∀ k, e = .close k → ∀ p, P s p → P s' p ∧ P s' { p with isOpen := false }) :
    ∀ p ∈ s'.live, P s' p := by
  intro p hp
  cases e with
  | pass d =>
    cases hstep
    exact hpass d rfl p (hP p hp)
  | start sid machine zstd gen first =>
    cases hstep
    obtain ⟨hold, hnew⟩ := hstart sid machine zstd gen first rfl
    rcases List.mem_append.mp hp with hp | hp
    · exact hold p (hP p hp)
    · rw [List.mem_singleton.mp hp]
      exact hnew
  | tick gen text maps =>
    cases hstep
    obtain ⟨k, hk, rfl⟩ := List.mem_mapIdx.mp hp
    exact htick gen text maps rfl k s.live[k] (List.getElem?_eq_getElem hk) (hP _ (List.getElem_mem hk))
  | close k =>
    cases hstep
    obtain ⟨j, hj⟩ := List.mem_iff_getElem?.mp hp
    rw [List.getElem?_modify] at hj
    obtain ⟨q, hq, rfl⟩ := Option.map_eq_some_iff.mp hj
    obtain ⟨hold, hnew⟩ := hclose k rfl q (hP q (List.mem_of_getElem? hq))
    by_cases hkj : k = j
    · rw [if_pos hkj]
      exact hnew
    · rw [if_neg hkj]
      exact hold

/-! ## 4. Not late -/

/-- **The loop is prompt**: it comes to its tick within `δ`, and the nodes of its streams are still
    registered then. -/
def prompt (δ : Int) (s : Paced) : PacedEvent → Prop
  | .pass d => s.clock + d ≤ s.lastTick + δ
  | .tick _ _ maps => ∀ k < s.live.length, (maps k).isSome
  | .start _ _ _ _ _ => True
  | .close _ => True

/-- Two messages in a row are less than `keepalive + δ` apart. -/
def NotLate (keepalive δ : Int) (a b : MapMessage × Int) : Prop := b.2 - a.2 < keepalive + δ

/-- The entry so far: while it is open, `last_send` is the time of its last message, and the last tick was
    within the interval. -/
structure PacedMap.Late (keepalive δ lastTick : Int) (p : PacedMap) : Prop where
  last : ∃ e, p.log.getLast? = some e ∧
    (p.isOpen = true → e.2 = p.lastSend ∧ lastTick < p.lastSend + keepalive)
  chain : p.log.IsChain (NotLate keepalive δ)

section Late

variable {keepalive δ clock lastTick : Int} {p : PacedMap}

theorem PacedMap.Late.push (h : p.Late keepalive δ lastTick) (hk : 0 < keepalive)
    (hclock : clock ≤ lastTick + δ) (msg : MapMessage) (gen : UInt64) :
    PacedMap.Late keepalive δ clock { p.push clock msg with lastGen := gen, lastSend := clock } := by
  obtain ⟨e, he, hopen⟩ := h.last
  have hsame : (p.push clock msg).isOpen = p.isOpen := by
    unfold PacedMap.push
    by_cases ho : p.isOpen = true
    · rw [if_pos ho]
    · rw [if_neg ho]
  constructor
  · obtain ⟨e', he', hcase⟩ := last_push clock msg he
    refine ⟨e', he', fun ho => ?_⟩
    rcases hcase with rfl | ⟨hclosed, _⟩
    · exact ⟨rfl, by show clock < clock + keepalive; omega⟩
    · cases hclosed.symm.trans (hsame.symm.trans ho)
  · by_cases ho : p.isOpen = true
    · refine chain_push h.chain he ?_
      obtain ⟨heq, hlt⟩ := hopen ho
      show clock - e.2 < keepalive + δ
      omega
    · have hpush : p.push clock msg = p := if_neg ho
      show (p.push clock msg).log.IsChain _
      rw [hpush]
      exact h.chain

theorem PacedMap.Late.tick (h : p.Late keepalive δ lastTick) (hk : 0 < keepalive)
    (hclock : clock ≤ lastTick + δ) (text : Bytes) (gen : UInt64) {map : Option FullMap} (hmap : map.isSome) :
    (tickEntry keepalive clock text gen map p).Late keepalive δ clock := by
  obtain ⟨map, rfl⟩ := Option.isSome_iff_exists.mp hmap
  unfold tickEntry
  by_cases hgen : gen ≠ p.lastGen
  · rw [if_pos hgen]
    exact h.push hk hclock _ gen
  · rw [if_neg hgen]
    by_cases hp : keepalive ≤ clock - p.lastSend
    · rw [if_pos hp]
      exact h.push hk hclock (buildKeepalive text) (p.push clock (buildKeepalive text)).lastGen
    · rw [if_neg hp]
      obtain ⟨e, he, hopen⟩ := h.last
      refine ⟨⟨e, he, fun ho => ⟨(hopen ho).1, ?_⟩⟩, h.chain⟩
      omega

/-- A new entry is in time. -/
theorem late_start (sid : Nat) (machine : Bytes) (zstd : Bool) (gen : UInt64) (first : FullMap)
    (hk : 0 < keepalive) (hclock : lastTick ≤ clock) :
    PacedMap.Late keepalive δ lastTick
      { streamId := sid, machine, zstd, lastGen := gen, lastSend := clock, log := [(.full first, clock)] } := by
  refine ⟨⟨_, rfl, fun _ => ⟨rfl, ?_⟩⟩, .singleton _⟩
  show lastTick < clock + keepalive
  omega

end Late

/-- What holds of a connection at every moment. -/
structure Paced.OnTime (keepalive δ : Int) (s : Paced) : Prop where
  tick : s.lastTick ≤ s.clock
  prompt : s.clock ≤ s.lastTick + δ
  live : ∀ p ∈ s.live, p.Late keepalive δ s.lastTick

theorem onTime_step {keepalive δ : Int} (hk : 0 < keepalive) (hδ : 0 ≤ δ) {s s' : Paced} {e : PacedEvent}
    (h : s.OnTime keepalive δ) (hok : prompt δ s e) (hstep : paceStep keepalive s e = some s') :
    s'.OnTime keepalive δ := by
  have htick := h.tick
  have hclock := h.prompt
  have hlive : ∀ p ∈ s'.live, p.Late keepalive δ s'.lastTick := by
    refine paceStep_live (P := fun s p => p.Late keepalive δ s.lastTick) hstep h.live ?_ ?_ ?_ ?_
    · intro d he p hp
      subst he
      cases hstep
      exact hp
    · intro sid machine zstd gen first he
      subst he
      cases hstep
      exact ⟨fun p hp => hp, late_start sid machine zstd gen first hk htick⟩
    · intro gen text maps he k p hget hp
      subst he
      cases hstep
      exact hp.tick hk hclock text gen (hok k (List.getElem?_eq_some_iff.mp hget).1)
    · intro k he p hp
      subst he
      cases hstep
      obtain ⟨e, hlast, _⟩ := hp.last
      exact ⟨hp, ⟨e, hlast, fun ho => (by cases ho)⟩, hp.chain⟩
  cases e with
  | pass d =>
    cases hstep
    exact ⟨by show s.lastTick ≤ s.clock + d; omega, hok, hlive⟩
  | start | close =>
    cases hstep
    exact ⟨htick, hclock, hlive⟩
  | tick gen text maps =>
    cases hstep
    exact ⟨Int.le_refl _, Int.le_add_of_nonneg_right hδ, hlive⟩

/-- **The pace of a map stream.** In every run, whatever the generations, the maps and the times: a
    keepalive is queued no sooner than `keepalive` after the message before it. And where the loop comes to
    its tick within `δ` each time and the nodes stay registered, messages of a stream are less than
    `keepalive + δ` apart, and on an open stream the last one is no older than that. -/
theorem keepalive_paced (keepalive : Int) (es : List PacedEvent) (s : Paced)
    (h : Run (Of (paceStep keepalive)) {} es s) :
    (∀ p ∈ s.live, p.log.IsChain (NotEarly keepalive)) ∧
      ∀ δ, 0 < keepalive → 0 ≤ δ → Run (Guarded (Of (paceStep keepalive)) (prompt δ)) {} es s →
        ∀ p ∈ s.live, p.log.IsChain (NotLate keepalive δ) ∧
          (p.isOpen = true → ∃ e, p.log.getLast? = some e ∧ s.clock - e.2 < keepalive + δ) := by
  constructor
  · have hearly : ∀ p ∈ s.live, p.Early keepalive s.clock := by
      refine h.inv_state (I := fun s => ∀ p ∈ s.live, p.Early keepalive s.clock) (List.forall_mem_nil _) ?_
      intro s e s' hlive hstep
      refine paceStep_live (P := fun s p => p.Early keepalive s.clock) hstep hlive ?_ ?_ ?_ ?_
      · intro d he p hp
        subst he
        cases hstep
        have hsent := hp.sent
        exact ⟨hp.last, by show p.lastSend ≤ s.clock + d; omega, hp.chain⟩
      · intro sid machine zstd gen first he
        subst he
        cases hstep
        exact ⟨fun p hp => hp, ⟨_, rfl, Int.le_refl _⟩, Int.le_refl _, .singleton _⟩
      · intro gen text maps he k p _ hp
        subst he
        cases hstep
        exact hp.tick text gen (maps k)
      · intro k he p hp
        subst he
        cases hstep
        exact ⟨hp, hp.last, hp.sent, hp.chain⟩
    exact fun p hp => (hearly p hp).chain
  · intro δ hk hδ hrun
    have htime : s.OnTime keepalive δ := by
      refine hrun.inv_state (I := fun s => s.OnTime keepalive δ)
        ⟨Int.le_refl _, Int.le_add_of_nonneg_right hδ, List.forall_mem_nil _⟩ ?_
      intro s e s' hs hstep
      exact onTime_step hk hδ hs hstep.1 hstep.2
    intro p hp
    have hlate := htime.live p hp
    refine ⟨hlate.chain, fun ho => ?_⟩
    obtain ⟨e, he, hopen⟩ := hlate.last
    obtain ⟨heq, hlt⟩ := hopen ho
    have hprompt := htime.prompt
    exact ⟨e, he, by omega⟩

instance (δ : Int) (s : Paced) (e : PacedEvent) : Decidable (prompt δ s e) :=
  match e with
  | .pass d => inferInstanceAs (Decidable (s.clock + d ≤ s.lastTick + δ))
  | .tick _ _ maps => inferInstanceAs (Decidable (∀ k < s.live.length, (maps k).isSome))
  | .start _ _ _ _ _ => inferInstanceAs (Decidable True)
  | .close _ => inferInstanceAs (Decidable True)

def sampleMap : FullMap :=
  buildFullMap (newNode 1 (ascii "mkey:1") [] [] false [] false ([], [])) [] (ascii "ts.net") []

/-- A stream with an interval of 5 over three ticks, 2 apart. -/
def threeTicks : List PacedEvent :=
  .start 1 (ascii "mkey:1") false 1 sampleMap ::
    (List.replicate 3 [.pass 2, .tick 1 [] fun _ => some sampleMap]).flatten

theorem keepalive_paced_ticks :
    ∃ s, Run (Of (paceStep 5)) {} threeTicks s ∧ Run (Guarded (Of (paceStep 5)) (prompt 2)) {} threeTicks s ∧
      s.live.map (fun p => p.log.map (·.2)) = [[0, 6]] ∧
      (∀ p ∈ s.live, p.log.IsChain (NotEarly 5)) ∧ ∀ p ∈ s.live, p.log.IsChain (NotLate 5 2) := by
  have hexec : (exec (checked (paceStep 5) fun s e => decide (prompt 2 s e)) {} threeTicks).any (fun s =>
      decide (s.live.map (fun p => p.log.map (·.2)) = [[0, 6]])) = true := by decide +kernel
  obtain ⟨s, hs, hlog⟩ := (Option.any_eq_true _ _).mp hexec
  have hguard : Run (Guarded (Of (paceStep 5)) (prompt 2)) {} threeTicks s :=
    (guarded_of_exec hs).mono fun _ _ _ h => ⟨of_decide_eq_true h.1, h.2⟩
  have hrun := hguard.mono fun _ _ _ h => h.2
  obtain ⟨hearly, hlate⟩ := keepalive_paced 5 threeTicks s hrun
  exact ⟨s, hrun, hguard, of_decide_eq_true hlog, hearly,
    fun p hp => (hlate 2 (by decide) (by decide) hguard p hp).1⟩

end Wirebone
