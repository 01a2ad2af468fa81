/-
  File:      Wirebone/Coordinator/Progress.lean
  Subject:   THAT GOOD REQUESTS SUCCEED, whatever the other connections do between their sections.

  A request runs in sections of its own. Between two of them every other connection may change the nodes, the
  file and the key list, and a save of theirs may fail or store its text in part.

  * `coordStep_conn` -- what a step does to one connection;
  * `kindly` -- what the sections of one connection need of the disk, the pool and the encoder;
  * `request_comes` -- the rule for a request, in stages that its own sections bring on;
  * `Asking`, `Mapping` -- the stages of a registration and of a map request;
  * **`key_admits`** -- a request with an open key registers its machine, within six sections;
  * **`known_mapped`** -- a map request of a known machine is answered with the map of its own node.
-/
import Wirebone.Coordinator.OpenKey
import Wirebone.Coordinator.Stopping

namespace Wirebone

open ByteString FirstMatch Lts

/-! ## 1. What a step does to one connection -/

section Conns

variable {I : Inet} {domain : Bytes} {env : Env} {g g' : Shared} {c c' : Conn} {s s' : Coord} {e : Event}
  {i : Nat}

/-- The event is a section of connection `i`. -/
def Event.runs (i : Nat) : Event → Bool
  | .run j _ => decide (j = i)
  | _ => false

theorem section_replies (h : advance I domain env g c = some (g', c')) :
    c'.machine = c.machine ∧ c.replies <+: c'.replies := by
  cases advance_branch h with
  | regDenied | refused | regBump | onlineOnly | unauthorized | oneShot | mapLive =>
    exact ⟨rfl, List.prefix_append _ _⟩
  | _ => exact ⟨rfl, List.prefix_rfl⟩

theorem onRegister_replies (c : Conn) (body : Option Json) : c.replies <+: (onRegister c body).replies := by
  rcases onRegister_cases c body with ⟨_, h⟩ | ⟨_, _, _, _, h⟩ | ⟨_, _, _, _, h⟩
  · rw [h]
    exact List.prefix_append _ _
  · rw [h]
    exact List.prefix_rfl
  · rw [h]
    exact List.prefix_rfl

theorem onMap_replies (c : Conn) (sid : Nat) (body : Option Json) :
    c.replies <+: (onMap c sid body).replies := by
  rcases onMap_cases c sid body with ⟨_, h⟩ | ⟨_, _, _, _, h⟩ | ⟨_, _, _, _, h | h⟩
  · rw [h]
    exact List.prefix_append _ _
  · rw [h]
    exact List.prefix_rfl
  · rw [h]
    exact List.prefix_rfl
  · rw [h]
    exact List.prefix_rfl

/-- What an event does to the connection `i` of phase `c`: nothing, or it is a section of it, or it starts
    something on it. -/
inductive ConnStep (I : Inet) (domain : Bytes) (s : Coord) (e : Event) (s' : Coord) (i : Nat) (c : Conn) :
    Prop where
  | stays (hget : s'.conns[i]? = some c) (he : e.runs i = false)
  | moves (env : Env) (c' : Conn) (he : e = .run i env) (hget : s'.conns[i]? = some c')
      (hadv : advance I domain env s.shared c = some (s'.shared, c'))
  | starts (c' : Conn) (hidle : c.phase = .idle) (he : e.runs i = false) (hget : s'.conns[i]? = some c')
      (hm : c'.machine = c.machine) (hr : c.replies <+: c'.replies)

/-- The idle connection `j` starts something. -/
theorem connStep_start {j : Nat} {d d' : Conn} (he : e.runs i = false) (hget : s.conns[i]? = some c)
    (hd : idleConn s j = some d) (hm : d'.machine = d.machine) (hr : d.replies <+: d'.replies) :
    ConnStep I domain s e (s.setConn j d') i c := by
  obtain ⟨hget', hidle⟩ := idleConn_some hd
  by_cases hji : j = i
  · subst hji
    obtain rfl := Option.some.inj (hget.symm.trans hget')
    exact .starts d' hidle he (List.getElem?_set_self (List.getElem?_eq_some_iff.mp hget).1) hm hr
  · exact .stays ((List.getElem?_set_ne hji).trans hget) he

theorem coordStep_conn (hs : coordStep I domain s e = some s') (hget : s.conns[i]? = some c) :
    ConnStep I domain s e s' i c := by
  cases e with
  | accept machine =>
    cases hs
    exact .stays ((List.getElem?_append_left (List.getElem?_eq_some_iff.mp hget).1).trans hget) rfl
  | register j body =>
    obtain ⟨d, hd, rfl⟩ := Option.map_eq_some_iff.mp hs
    exact connStep_start rfl hget hd (onRegister_free d body).1 (onRegister_replies d body)
  | map j sid body =>
    obtain ⟨d, hd, rfl⟩ := Option.map_eq_some_iff.mp hs
    exact connStep_start rfl hget hd (onMap_free d sid body).1 (onMap_replies d sid body)
  | tick j =>
    obtain ⟨d, hd, rfl⟩ := Option.map_eq_some_iff.mp hs
    exact connStep_start rfl hget hd rfl List.prefix_rfl
  | closeStream j k =>
    obtain ⟨d, hd, rfl⟩ := Option.map_eq_some_iff.mp hs
    exact connStep_start rfl hget hd rfl List.prefix_rfl
  | hangup j =>
    obtain ⟨d, hd, rfl⟩ := Option.map_eq_some_iff.mp hs
    exact connStep_start rfl hget hd rfl List.prefix_rfl
  | createKey env raw reusable ephemeral expiration token shared =>
    cases hs
    exact .stays hget rfl
  | run j env =>
    obtain ⟨d, hget', hs⟩ := Option.bind_eq_some_iff.mp hs
    obtain ⟨⟨g, d'⟩, hadv, rfl⟩ := Option.map_eq_some_iff.mp hs
    by_cases hji : j = i
    · subst hji
      obtain rfl := Option.some.inj (hget.symm.trans hget')
      exact .moves env d' rfl (List.getElem?_set_self (List.getElem?_eq_some_iff.mp hget).1) hadv
    · exact .stays ((List.getElem?_set_ne hji).trans hget) (decide_eq_false hji)

/-- A connection stays what it is, and its answers stay answered. -/
theorem coordStep_replies (hs : coordStep I domain s e = some s') (hget : s.conns[i]? = some c) :
    ∃ c', s'.conns[i]? = some c' ∧ c'.machine = c.machine ∧ c.replies <+: c'.replies := by
  cases coordStep_conn hs hget with
  | stays hget' => exact ⟨c, hget', rfl, List.prefix_rfl⟩
  | moves env c' _ hget' hadv => exact ⟨c', hget', section_replies hadv⟩
  | starts c' _ _ hget' hm hr => exact ⟨c', hget', hm, hr⟩

end Conns

/-! ## 2. What the sections of a request need -/

/-- The section of a connection ends well: its save returns, an address is left for a new node,
    `encode_map_frame` returns. -/
def sectionEnds (I : Inet) (domain : Bytes) (env : Env) (g : Shared) (c : Conn) : Bool :=
  match c.phase with
  | .regCheck r => saves env.io { g.world.store with keys := markUsed r.auth g.world.store.keys }
  | .regNode r claim ephemeral =>
    ((findByMachine g.world.store c.machine).isSome ||
        (addressFor I g.world.store.alloc g.world.store.nextIpIndex).isOk) &&
      saves env.io
        (registerNode I env.io c.machine r.nodeKey r.host ephemeral claim.token claim.shared g.world).2.store
  | .mapUpdate _ r =>
    saves env.io (updateMapInfo env.io c.machine r.nodeKey r.discoKey r.host r.endpoints g.world).2.store
  | _ => !encodeFails domain env g c

/-- **The condition on a step**: a section of connection `i` ends well. Those of the others may end as they
    like. -/
def kindly (I : Inet) (domain : Bytes) (i : Nat) (s : Coord) : Event → Bool
  | .run j env => decide (j ≠ i) || (s.conns[i]?).all (sectionEnds I domain env s.shared)
  | _ => true

/-- The machine has come in on another way: before, or on a connection other than `i`. -/
def Elsewhere (g₁ : Shared) (i : Nat) (machine : Bytes) (s : Coord) : Prop :=
  Known g₁ machine ∨ ∃ j c, j ≠ i ∧ s.conns[j]? = some c ∧ c.machine = machine

section Machines

variable {I : Inet} {domain : Bytes} {env : Env} {g g' g₁ : Shared} {c c' : Conn} {s s' : Coord} {e : Event}
  {i : Nat} {m : Bytes}

theorem kindly_section (hok : kindly I domain i s (.run i env) = true) (hget : s.conns[i]? = some c) :
    sectionEnds I domain env s.shared c = true := by
  simpa only [kindly, ne_eq, not_true_eq_false, decide_false, Bool.false_or, hget, Option.all_some] using hok

theorem Known.mono (hi : identities g.world.store <+: identities g'.world.store) (h : Known g m) :
    Known g' m := by
  obtain ⟨d, hd, hm⟩ := h
  exact ⟨d, hi.subset hd, hm⟩

theorem Known.congr (hi : identities g'.world.store = identities g.world.store) (h : Known g' m) :
    Known g m := by
  obtain ⟨d, hd, hm⟩ := h
  exact ⟨d, hi ▸ hd, hm⟩

theorem elsewhere_step (hs : coordStep I domain s e = some s') (h : Elsewhere g₁ i m s) :
    Elsewhere g₁ i m s' := by
  rcases h with h | ⟨j, c, hji, hget, hm⟩
  · exact .inl h
  · obtain ⟨c', hget', hm', _⟩ := coordStep_replies hs hget
    exact .inr ⟨j, c', hji, hget', hm'.trans hm⟩

/-- Only a connection of the machine makes its node. -/
theorem known_step (hs : coordStep I domain s e = some s') (he : e.runs i = false) (h : Known s'.shared m) :
    Known s.shared m ∨ Elsewhere g₁ i m s' := by
  rcases coordStep_cases hs with ⟨j, env, c, c', rfl, hget, hadv, _⟩ | ⟨_, hst⟩ | ⟨_, _, hsh⟩ |
    ⟨_, _, _, keys, hstore⟩
  · have heff := advance_effect hadv
    cases heff with
    | quiet hsame | claimed _ _ _ hsame | built _ _ hsame => exact .inl (h.congr hsame.identities)
    | counted _ _ _ _ hids => exact .inl (h.congr hids)
    | created _ _ _ d _ _ hids hd =>
      obtain ⟨d', hd', hm⟩ := h
      rw [hids] at hd'
      rcases List.mem_append.mp hd' with hd' | hd'
      · exact .inl ⟨d', hd', hm⟩
      · rw [List.mem_singleton.mp hd', hd.1] at hm
        obtain ⟨c'', hget'', hm'', _⟩ := coordStep_replies hs hget
        exact .inr (.inr ⟨j, c'', of_decide_eq_false he, hget'', hm''.trans hm⟩)
  · exact .inl (h.congr (by rw [hst.shared]))
  · exact .inl (h.congr (by rw [hsh]))
  · refine .inl (h.congr ?_)
    rw [hstore]
    rfl

end Machines

/-! ## 3. The rule for the work of a connection -/

/-- Connection `i` is at work, with at most `k` sections to run. -/
def AtWork (i : ℕ) (Work : Coord → Conn → ℕ → Prop) (k : ℕ) (s : Coord) : Prop :=
  ∃ d, s.conns[i]? = some d ∧ Work s d k

/-- A connection at work is neither idle nor closed. -/
def Unfinished (Work : Coord → Conn → ℕ → Prop) : Prop :=
  ∀ (s : Coord) (d : Conn) (k : ℕ), Work s d k → d.isIdle = false ∧ d.isClosed = false ∧ 0 < k

/-- A connection works on the request that came over `c`: it is open, still without an answer, and at some
    stage. -/
def OnRequest (c : Conn) (Stage : Coord → Phase → ℕ → Prop) (s : Coord) (d : Conn) (k : ℕ) : Prop :=
  d.machine = c.machine ∧ d.replies = c.replies ∧ Stage s d.phase k

/-- The request that came over `c` has an answer of the right kind. -/
def EndsWith (i : ℕ) (c : Conn) (Ends : Coord → Reply → Prop) (s : Coord) : Prop :=
  ∃ d a, s.conns[i]? = some d ∧ d.machine = c.machine ∧ c.replies ++ [a] <+: d.replies ∧ Ends s a

section Rule

variable {I : Inet} {domain : Bytes} {c : Conn} {s₁ s : Coord} {es : List Event} {i n k : ℕ}
  {Work : Coord → Conn → ℕ → Prop} {Done : Coord → Prop} {ok : Coord → Event → Prop}
  {Stage : Coord → Phase → ℕ → Prop} {Ends : Coord → Reply → Prop}

/-- Nobody holds it up: its next section can run. -/
theorem AtWork.runs_on (I : Inet) (domain : Bytes) (hbusy : Unfinished Work) (h : AtWork i Work k s) :
    0 < k ∧ ∃ s', coordStep I domain s (.run i {}) = some s' := by
  obtain ⟨d, hget, hwork⟩ := h
  obtain ⟨hidle, hclosed, hpos⟩ := hbusy s d k hwork
  obtain ⟨g', d', hadv⟩ := advance_some I domain s.shared hidle hclosed
  refine ⟨hpos, { shared := g', conns := s.conns.set i d' }, ?_⟩
  rw [coordStep, hget, Option.bind_some, hadv]
  rfl

/-- **The rule for the work of a connection**: where each section of its own ends it or brings it nearer to
    its end, and the steps of others leave it where it is, it can always go on, and is done within as many
    sections as it had to run. -/
theorem work_comes (hbusy : Unfinished Work)
    (hsection : ∀ s s' env d d' k, coordStep I domain s (.run i env) = some s' → s.conns[i]? = some d →
      s'.conns[i]? = some d' → Work s d k → advance I domain env s.shared d = some (s'.shared, d') →
      sectionEnds I domain env s.shared d = true → Done s' ∨ ∃ j < k, Work s' d' j)
    (hother : ∀ s e s' d k, coordStep I domain s e = some s' → e.runs i = false → Work s d k → Work s' d k)
    (hdone : ∀ s e s', ok s e → coordStep I domain s e = some s' → Done s → Done s')
    (h0 : AtWork i Work n s₁)
    (h : Run (Guarded (Of (coordStep I domain)) fun s e => kindly I domain i s e = true ∧ ok s e) s₁ es s) :
    Done s ∨ ∃ k, 0 < k ∧ k + es.countP (Event.runs i) ≤ n ∧ AtWork i Work k s ∧
      ∃ s', coordStep I domain s (.run i {}) = some s' := by
  have hcomes : Done s ∨ ∃ k, k + es.countP (Event.runs i) ≤ n ∧ AtWork i Work k s := by
    refine h.progress (Event.runs i) (AtWork i Work) Done h0 ?_ ?_ ?_
    · -- a section of its own
      rintro k s e s' ⟨d, hget, hwork⟩ ⟨⟨hok, _⟩, hs⟩ he
      cases coordStep_conn hs hget with
      | stays _ hne => cases he.symm.trans hne
      | starts _ _ hne => cases he.symm.trans hne
      | moves env d' hrun hget' hadv =>
        subst hrun
        rcases hsection s s' env d d' k hs hget hget' hwork hadv (kindly_section hok hget) with
          hend | ⟨j, hj, hwork'⟩
        · exact .inl hend
        · exact .inr ⟨j, hj, d', hget', hwork'⟩
    · -- a step of another, or of the environment
      rintro k s e s' ⟨d, hget, hwork⟩ ⟨_, hs⟩ he
      cases coordStep_conn hs hget with
      | stays hget' => exact ⟨d, hget', hother s e s' d k hs he hwork⟩
      | starts _ hidle =>
        have hbusy' := (hbusy s d k hwork).1
        simp only [Conn.isIdle, hidle] at hbusy'
        cases hbusy'
      | moves env _ hrun =>
        rw [hrun, Event.runs, decide_eq_true rfl] at he
        cases he
    · rintro s e s' hend ⟨⟨_, hok⟩, hs⟩
      exact hdone s e s' hok hs hend
  rcases hcomes with hend | ⟨k, hk, hwork⟩
  · exact .inl hend
  · obtain ⟨hpos, hnext⟩ := hwork.runs_on I domain hbusy
    exact .inr ⟨k, hpos, hk, hwork, hnext⟩

/-- The rule for a request: it ends with an answer, and what has been answered stays answered. -/
theorem request_comes (hbusy : Unfinished (OnRequest c Stage))
    (hsection : ∀ s s' env d d' k, coordStep I domain s (.run i env) = some s' → s.conns[i]? = some d →
      d.machine = c.machine → Stage s d.phase k → advance I domain env s.shared d = some (s'.shared, d') →
      sectionEnds I domain env s.shared d = true →
      (∃ a, d'.replies = d.replies ++ [a] ∧ Ends s' a) ∨
        (d'.replies = d.replies ∧ ∃ j < k, Stage s' d'.phase j))
    (hother : ∀ s e s' ph k, coordStep I domain s e = some s' → e.runs i = false → Stage s ph k →
      Stage s' ph k)
    (hends : ∀ s e s' a, coordStep I domain s e = some s' → Ends s a → Ends s' a)
    (h0 : AtWork i (OnRequest c Stage) n s₁)
    (h : Run (Guarded (Of (coordStep I domain)) fun s e => kindly I domain i s e = true) s₁ es s) :
    EndsWith i c Ends s ∨ ∃ k, 0 < k ∧ k + es.countP (Event.runs i) ≤ n ∧
      AtWork i (OnRequest c Stage) k s ∧ ∃ s', coordStep I domain s (.run i {}) = some s' := by
  refine work_comes hbusy ?_ ?_ ?_ h0 (h.mono fun s e s' hs => ⟨⟨hs.1, trivial⟩, hs.2⟩)
  · rintro s s' env d d' k hs hget hget' ⟨hm, hr, hstage⟩ hadv hok
    have hm' : d'.machine = c.machine := (section_replies hadv).1.trans hm
    rcases hsection s s' env d d' k hs hget hm hstage hadv hok with ⟨a, hr', ha⟩ | ⟨hr', j, hj, hstage'⟩
    · exact .inl ⟨d', a, hget', hm', grows_of_eq (by rw [hr', hr]), ha⟩
    · exact .inr ⟨j, hj, hm', hr'.trans hr, hstage'⟩
  · rintro s e s' d k hs he ⟨hm, hr, hstage⟩
    exact ⟨hm, hr, hother s e s' _ k hs he hstage⟩
  · rintro s e s' _ hs ⟨d, a, hget, hm, hr, ha⟩
    obtain ⟨d', hget', hm', hr'⟩ := coordStep_replies hs hget
    exact ⟨d', a, hget', hm'.trans hm, hr.trans hr', hends s e s' a hs ha⟩

end Rule

/-! ## 4. A registration -/

/-- Where a registration of a machine is, and how many sections it has still to run. By then the machine is
    known only if it has come in on another way, and what it carries is the claim of the key, unless so. -/
inductive Asking (r : RegisterReq) (claim : PreauthClaim) (machine : Bytes) (other : Prop) (g : Shared) :
    Phase → ℕ → Prop where
  | find (h : Known g machine → other) : Asking r claim machine other g (.regFind r) 6
  | read (h : Known g machine → other) : Asking r claim machine other g (.regRead r) 5
  | install (image : Option Json) (h : Known g machine → other) :
      Asking r claim machine other g (.regInstall r image) 4
  | check (h : Known g machine → other) : Asking r claim machine other g (.regCheck r) 3
  | node (cl : PreauthClaim) (ephemeral : Bool) (h : Known g machine → other) (hcl : cl = claim ∨ other) :
      Asking r claim machine other g (.regNode r cl ephemeral) 2
  | bump (h : Known g machine) (hcl : Carried (identities g.world.store) machine claim ∨ other) :
      Asking r claim machine other g .regBump 1

section Registration

variable {I : Inet} {domain : Bytes} {env : Env} {g g' : Shared} {c c' : Conn} {r : RegisterReq}
  {K : Bytes} {claim : PreauthClaim} {m : Bytes} {other other' : Prop} {ph : Phase} {k : ℕ}

/-- A registration is under way until it is through. -/
theorem Asking.busy (h : Asking r claim m other g c.phase k) :
    c.isIdle = false ∧ c.isClosed = false ∧ 0 < k := by
  generalize hph : c.phase = ph at h
  cases h with
  | find | read | install | check | node | bump =>
    simp only [Conn.isIdle, Conn.isClosed, hph]
    decide

/-- What others do leaves a registration where it is. -/
theorem Asking.mono (h : Asking r claim m other g ph k) (ho : other → other')
    (hk : Known g' m → Known g m ∨ other') (hi : identities g.world.store <+: identities g'.world.store) :
    Asking r claim m other' g' ph k := by
  have hcame : (Known g m → other) → Known g' m → other' := fun h hg' =>
    (hk hg').elim (fun hg => ho (h hg)) id
  cases h with
  | find h => exact .find (hcame h)
  | read h => exact .read (hcame h)
  | install image h => exact .install image (hcame h)
  | check h => exact .check (hcame h)
  | node cl ephemeral h hcl => exact .node cl ephemeral (hcame h) (hcl.imp_right ho)
  | bump h hcl => exact .bump (h.mono hi) (hcl.imp (·.mono hi) ho)

/-- `register_node` of a request: the machine is known by then, with its claim if it was not before. -/
theorem asking_node {cl : PreauthClaim} {ephemeral : Bool} (hph : c.phase = .regNode r cl ephemeral)
    (hadv : advance I domain env g c = some (g', c')) (hok : sectionEnds I domain env g c = true)
    (h : Known g c.machine → other) (hcl : cl = claim ∨ other) :
    c' = c.enter .regBump ∧ Asking r claim c.machine other g' .regBump 1 := by
  obtain ⟨result, hr, _, hends⟩ := advance_node hph hadv
  simp only [sectionEnds, hph, hr, Bool.and_eq_true, Bool.or_eq_true] at hok
  obtain ⟨haddr, hsaves⟩ := hok
  have hmade : (∃ n, result = .ok n) ∧ Known g' c.machine ∧
      (Carried (identities g'.world.store) c.machine claim ∨ other) := by
    rcases registerNode_cases hr with ⟨n, hn, hc⟩ | ⟨hnone, ⟨e, _, he⟩, _⟩ | ⟨ips, _, _, hc⟩
    · have hs := (commit_cases hc).1
      rw [hs] at hsaves
      have hids : identities g'.world.store = identities g.world.store := by
        rw [hs]
        exact identities_updateNode (reregistered_identity _ _ _) _ _
      obtain ⟨hmem, hm⟩ := found_identity hn
      have hknown : Known g c.machine := ⟨_, hmem, hm⟩
      exact ⟨⟨_, commit_saves hc hsaves⟩, hknown.mono (grows_of_eq hids), .inr (h hknown)⟩
    · rw [hnone, he] at haddr
      rcases haddr with h | h
      · cases h
      · cases h
    · have hs := (commit_cases hc).1
      rw [hs] at hsaves
      have hmem : (newNode g.world.store.nextNodeId c.machine r.nodeKey r.host ephemeral cl.token cl.shared
          ips).identity ∈ identities g'.world.store := by
        rw [hs]
        exact List.mem_map_of_mem (List.mem_append_right _ (List.mem_singleton.mpr rfl))
      refine ⟨⟨_, commit_saves hc hsaves⟩, ⟨_, hmem, rfl⟩, ?_⟩
      rcases hcl with rfl | ho
      · exact .inl ⟨_, hmem, rfl, rfl, rfl⟩
      · exact .inr ho
  obtain ⟨⟨n, hn⟩, hknown, hcarried⟩ := hmade
  rcases hends with ⟨⟨e, he⟩, _⟩ | ⟨_, rfl⟩
  · cases he.symm.trans hn
  · exact ⟨rfl, .bump hknown hcarried⟩

/-- The check of a request that presents the key: it is granted. -/
theorem asking_check (hph : c.phase = .regCheck r) (hadv : advance I domain env g c = some (g', c'))
    (hok : sectionEnds I domain env g c = true) (hw : MeshWorld K claim g.world) (hauth : r.auth = K)
    (h : Known g c.machine → other) :
    c' = c.enter (.regNode r claim claim.ephemeral) ∧
      Asking r claim c.machine other g' (.regNode r claim claim.ephemeral) 2 := by
  simp only [sectionEnds, hph] at hok
  simp only [advance, hph] at hadv
  have hgrants : claimOf env.nowUnix r.auth g.world.store.keys = some claim := hauth ▸ hw.claimOf env.nowUnix
  rcases hc : checkAndMark env.io env.nowUnix r.auth g.world with ⟨res, w⟩
  have hres : res = .ok (some claim) := by
    rw [checkAndMark_eq, hgrants] at hc
    exact commit_saves hc hok
  subst hres
  rw [hc] at hadv
  cases hadv
  have hsame : SameRegistry g { g with world := w } := checkAndMark_registry hc rfl
  exact ⟨rfl, .node claim claim.ephemeral (fun hg => h (hg.congr hsame.identities)) (.inl rfl)⟩

/-- **A section of a registration** ends it, or brings it nearer to its end. -/
theorem asking_section (h : Asking r claim c.machine other g c.phase k)
    (hadv : advance I domain env g c = some (g', c')) (hok : sectionEnds I domain env g c = true)
    (hw : MeshWorld K claim g.world) (himage : MeshImage K claim c) (hauth : r.auth = K) (hK : K ≠ []) :
    (c' = c.answer .registered ∧ Known g' c.machine ∧
        (Carried (identities g'.world.store) c.machine claim ∨ other)) ∨
      (c'.machine = c.machine ∧ c'.replies = c.replies ∧
        ∃ j < k, Asking r claim c.machine other g' c'.phase j) := by
  generalize hph : c.phase = ph at h
  cases h with
  | find h =>
    simp only [advance, hph] at hadv
    cases hf : findByMachine g.world.store c.machine with
    | some n =>
      simp only [hf] at hadv
      cases hadv
      obtain ⟨hmem, hm⟩ := found_identity hf
      exact .inr ⟨rfl, rfl, 2, by decide, .node {} r.ephemeral h (.inr (h ⟨_, hmem, hm⟩))⟩
    | none =>
      simp only [hf, if_neg (fun hnil => hK (hauth.symm.trans hnil) : ¬ r.auth = [])] at hadv
      cases hadv
      exact .inr ⟨rfl, rfl, 5, by decide, .read h⟩
  | read h =>
    simp only [advance, hph] at hadv
    cases hadv
    exact .inr ⟨rfl, rfl, 4, by decide, .install _ h⟩
  | install image h =>
    cases image with
    | none =>
      simp only [advance, hph] at hadv
      cases hadv
      exact .inr ⟨rfl, rfl, 3, by decide, .check h⟩
    | some ks =>
      simp only [advance, hph] at hadv
      rcases hi : installKeys ks g.world.store with ⟨res, t⟩
      obtain ⟨rfl, _⟩ := hw.install (himage r ks hph) hi
      rw [hi] at hadv
      cases hadv
      have hids : identities t = identities g.world.store := by
        rw [installKeys_store hi]
        rfl
      exact .inr ⟨rfl, rfl, 3, by decide, .check fun hg => h (hg.congr hids)⟩
  | check h =>
    obtain ⟨rfl, hnode⟩ := asking_check hph hadv hok hw hauth h
    exact .inr ⟨rfl, rfl, 2, by decide, hnode⟩
  | node cl ephemeral h hcl =>
    obtain ⟨rfl, hbump⟩ := asking_node hph hadv hok h hcl
    exact .inr ⟨rfl, rfl, 1, by decide, hbump⟩
  | bump h hcl =>
    simp only [advance, hph] at hadv
    cases hadv
    exact .inl ⟨rfl, h, hcl⟩

end Registration

/-- The request `r` of a machine that presents the key, at one of its stages. -/
def AsksWith (K : Bytes) (claim : PreauthClaim) (r : RegisterReq) (i : ℕ) (machine : Bytes) (g₁ : Shared)
    (s : Coord) (ph : Phase) (k : ℕ) : Prop :=
  MeshKey K claim s ∧ Asking r claim machine (Elsewhere g₁ i machine s) s.shared ph k

/-- The answer `registered`: the machine has a node, and its node has the group of the key unless the machine
    has come in on another way. -/
def JoinedBy (claim : PreauthClaim) (i : ℕ) (machine : Bytes) (g₁ : Shared) (s : Coord) (a : Reply) : Prop :=
  a = .registered ∧ Known s.shared machine ∧
    (Carried (identities s.shared.world.store) machine claim ∨ Elsewhere g₁ i machine s)

/-- A section of such a request, in the whole machine. -/
theorem asksWith_section {I : Inet} {domain K : Bytes} {claim : PreauthClaim} {r : RegisterReq} {env : Env}
    {g₁ : Shared} {s s' : Coord} {d d' : Conn} {i k : ℕ} (hs : coordStep I domain s (.run i env) = some s')
    (hget : s.conns[i]? = some d) (hadv : advance I domain env s.shared d = some (s'.shared, d'))
    (hok : sectionEnds I domain env s.shared d = true) (hauth : r.auth = K) (hK : K ≠ [])
    (h : AsksWith K claim r i d.machine g₁ s d.phase k) :
    (∃ a, d'.replies = d.replies ++ [a] ∧ JoinedBy claim i d.machine g₁ s' a) ∨
      (d'.replies = d.replies ∧ ∃ j < k, AsksWith K claim r i d.machine g₁ s' d'.phase j) := by
  obtain ⟨hmesh, hask⟩ := h
  have himage : MeshImage K claim d := hmesh.images d (List.mem_of_getElem? hget)
  have hother : Elsewhere g₁ i d.machine s → Elsewhere g₁ i d.machine s' := elsewhere_step hs
  rcases asking_section hask hadv hok hmesh.world himage hauth hK with
    ⟨rfl, hknown, hcarried⟩ | ⟨_, hreplies, j, hj, hask'⟩
  · exact .inl ⟨.registered, rfl, rfl, hknown, hcarried.imp_right hother⟩
  · exact .inr ⟨hreplies, j, hj, meshKey_step hmesh hs, hask'.mono hother .inl List.prefix_rfl⟩

/-- **Whoever has the key gets in.** From any state in which the key is open to everybody, it stays so in every
    run; and a registration that presents it, whatever the other connections do between its sections, is not
    denied, and its connection is not ended. After six sections of its own at the latest it is answered
    `registered`, the machine has a node, and the node has the group of the key, unless the machine was known or
    has other connections. It asks no more than that its own saves return and an address is left; saves of
    others may fail, or store their text in part, and images of the file may be as old as they like. -/
theorem key_admits (I : Inet) (domain K : Bytes) (hK : K ≠ []) (claim : PreauthClaim) (s₀ s₁ s₂ s : Coord)
    (hkey : MeshKey K claim s₀) (es₀ es : List Event) (h₀ : Run (Of (coordStep I domain)) s₀ es₀ s₁) (i : ℕ)
    (c : Conn) (hidle : idleConn s₁ i = some c) (body : Json) (r : RegisterReq)
    (hr : decodeRegister body = .ok r) (hauth : r.auth = K)
    (hreq : coordStep I domain s₁ (.register i (some body)) = some s₂)
    (h : Run (Guarded (Of (coordStep I domain)) fun s e => kindly I domain i s e = true) s₂ es s) :
    MeshKey K claim s ∧ (EndsWith i c (JoinedBy claim i c.machine s₁.shared) s ∨
      ∃ k, 0 < k ∧ k + es.countP (Event.runs i) ≤ 6 ∧
        AtWork i (OnRequest c (AsksWith K claim r i c.machine s₁.shared)) k s ∧
        ∃ s', coordStep I domain s (.run i {}) = some s') := by
  have hopen : MeshKey K claim s₁ := h₀.inv_state hkey fun _ _ _ hs hstep => meshKey_step hs hstep
  have hlast : MeshKey K claim s :=
    h.inv_state (meshKey_step hopen hreq) fun _ _ _ hs hstep => meshKey_step hs hstep.2
  have hbusy : Unfinished (OnRequest c (AsksWith K claim r i c.machine s₁.shared)) :=
    fun _ _ _ hwork => hwork.2.2.2.busy
  have hstart : AtWork i (OnRequest c (AsksWith K claim r i c.machine s₁.shared)) 6 s₂ := by
    obtain ⟨hget, _⟩ := idleConn_some hidle
    rw [coordStep, hidle, Option.map_some] at hreq
    cases hreq
    have hbegins : onRegister c (some body) = c.enter (.regFind r) := by
      simp only [onRegister, hr]
    refine ⟨c.enter (.regFind r), ?_, rfl, rfl, ?_, .find .inl⟩
    · show (s₁.conns.set i _)[i]? = _
      rw [List.getElem?_set_self (List.getElem?_eq_some_iff.mp hget).1, hbegins]
    · exact hopen.set hopen.world (onRegister_image c (some body))
  refine ⟨hlast, request_comes hbusy ?_ ?_ ?_ hstart h⟩
  · rintro s s' env d d' k hs hget hm hask hadv hok
    rw [← hm] at hask ⊢
    exact asksWith_section hs hget hadv hok hauth hK hask
  · rintro s e s' ph k hs he ⟨hmesh, hask⟩
    exact ⟨meshKey_step hmesh hs, hask.mono (elsewhere_step hs) (known_step hs he) (coordStep_grows hs)⟩
  · rintro s e s' a hs ⟨ha, hknown, hcarried⟩
    have hgrows := coordStep_grows hs
    exact ⟨ha, hknown.mono hgrows, hcarried.imp (·.mono hgrows) (elsewhere_step hs)⟩

/-- The key of a team, and its claim. -/
def teamKey : Bytes := randomToken (bytes32 [1])

def teamClaim : PreauthClaim := { token := ascii "blue" }

/-- A coordinator with a state file, on which the key has been made. -/
def teamCoord : Coord :=
  let empty : World := { store := { path := ascii "state", alloc := pool16 }, file := none }
  { shared := { world := (createPreauthKey {} 0 (bytes32 [1]) true false 0 (ascii "blue") none empty).2 } }

/-- Two machines are there, and the second one has begun to register. -/
def teamArrives : List Event :=
  [.accept (ascii "mkey:1"), .accept (ascii "mkey:2"), .register 1 (some (authBody teamKey)), .run 1 {},
    .run 1 {}]

/-- The six sections of the first one. In between the second one installs what it has read, stores its text in
    part, fails to save its node and is gone. -/
def teamTurns : List Event :=
  [.run 0 {}, .run 1 {}, .run 0 {}, .run 1 { io := { stored := .part } }, .run 0 {}, .run 0 {},
    .run 1 { io := { renames := false } }, .run 0 {}, .run 0 {}]

theorem teamCoord_meshKey : MeshKey teamKey teamClaim teamCoord := by
  let start : Coord := .fresh { path := ascii "state", alloc := pool16 } none
  have hs : coordStep .sample (ascii "ts.net") start
      (.createKey {} (bytes32 [1]) true false 0 (ascii "blue") none) = some teamCoord := rfl
  have hok : (createPreauthKey {} 0 (bytes32 [1]) true false 0 (ascii "blue") none start.shared.world).1 =
      .ok teamKey := by decide +kernel
  exact meshKey_created hs hok rfl fun c hc => by cases hc

theorem key_admits_team : ∃ s₁ s₂ s c,
    Run (Of (coordStep .sample (ascii "ts.net"))) teamCoord teamArrives s₁ ∧
      coordStep .sample (ascii "ts.net") s₁ (.register 0 (some (authBody teamKey))) = some s₂ ∧
      Run (Guarded (Of (coordStep .sample (ascii "ts.net"))) fun s e =>
        kindly .sample (ascii "ts.net") 0 s e = true) s₂ teamTurns s ∧
      EndsWith 0 c (JoinedBy teamClaim 0 c.machine s₁.shared) s := by
  have hexec : ((exec (coordStep .sample (ascii "ts.net")) teamCoord teamArrives).bind fun s₁ =>
      (coordStep .sample (ascii "ts.net") s₁ (.register 0 (some (authBody teamKey)))).bind fun s₂ =>
        (exec (checked (coordStep .sample (ascii "ts.net")) (kindly .sample (ascii "ts.net") 0)) s₂
          teamTurns).map fun _ =>
          (idleConn s₁ 0).isSome) = some true := by
    decide +kernel
  obtain ⟨s₁, h₁, hexec⟩ := Option.bind_eq_some_iff.mp hexec
  obtain ⟨s₂, h₂, hexec⟩ := Option.bind_eq_some_iff.mp hexec
  obtain ⟨s, h, hidle⟩ := Option.map_eq_some_iff.mp hexec
  obtain ⟨c, hc⟩ := Option.isSome_iff_exists.mp hidle
  have hrun := guarded_of_exec h
  refine ⟨s₁, s₂, s, c, run_of_exec h₁, h₂, hrun, ?_⟩
  obtain ⟨_, hend | ⟨k, hpos, hk, _⟩⟩ := key_admits .sample (ascii "ts.net") teamKey (by decide) teamClaim
    teamCoord s₁ s₂ s teamCoord_meshKey _ _ (run_of_exec h₁) 0 c hc _ _ rfl rfl h₂ hrun
  · exact hend
  · have hran : teamTurns.countP (Event.runs 0) = 6 := by decide
    omega

/-! ## 5. A map request -/

/-- Where a map request is, and how many sections it has still to run: the node it has found is of its machine,
    and the nodes of its map hold all that were there when it came. -/
inductive Mapping (domain : Bytes) (sid : ℕ) (r : MapReq) (machine : Bytes) (ids : List Identity) :
    Phase → ℕ → Prop where
  | update : Mapping domain sid r machine ids (.mapUpdate sid r) 6
  | bump : Mapping domain sid r machine ids (.mapBump sid r) 5
  | online : Mapping domain sid r machine ids (.mapOnline sid r) 4
  | find : Mapping domain sid r machine ids (.mapFind sid r) 3
  | nodes (self : NodeState) (hm : self.machineKey = machine) :
      Mapping domain sid r machine ids (.mapNodes sid r self) 2
  | live (self : NodeState) (nodes : List NodeState) (now : Bytes) (hm : self.machineKey = machine)
      (hids : ids <+: nodes.map (·.identity)) (hstream : r.stream = true) :
      Mapping domain sid r machine ids (.mapLive sid r self nodes (buildFullMap self nodes domain now)) 1

/-- The answer to a map request: the map of the machine's own node over all that were there and perhaps more,
    on a stream if one was asked for; or nothing, if none of it was asked for. -/
inductive MapAnswer (domain : Bytes) (r : MapReq) (machine : Bytes) (ids : List Identity) : Reply → Prop where
  | emptyBody (homit : r.omitPeers = true) (hstream : r.stream = false) :
      MapAnswer domain r machine ids .emptyBody
  | oneShot (self : NodeState) (nodes : List NodeState) (now : Bytes) (hm : self.machineKey = machine)
      (hids : ids <+: nodes.map (·.identity)) (hstream : r.stream = false) :
      MapAnswer domain r machine ids (.oneShot (buildFullMap self nodes domain now))
  | streamStart (self : NodeState) (nodes : List NodeState) (now : Bytes) (hm : self.machineKey = machine)
      (hids : ids <+: nodes.map (·.identity)) (hstream : r.stream = true) :
      MapAnswer domain r machine ids (.streamStart (buildFullMap self nodes domain now))

section Maps

variable {I : Inet} {domain : Bytes} {env : Env} {g g' : Shared} {c c' : Conn} {r : MapReq} {sid k : ℕ}
  {ids : List Identity} {m : Bytes}

theorem Mapping.busy (h : Mapping domain sid r m ids c.phase k) :
    c.isIdle = false ∧ c.isClosed = false ∧ 0 < k := by
  generalize hph : c.phase = ph at h
  cases h with
  | update | bump | online | find | nodes | live =>
    simp only [Conn.isIdle, Conn.isClosed, hph]
    decide

/-- **A section of a map request** answers it, or brings it nearer to its answer. -/
theorem mapping_section (h : Mapping domain sid r c.machine ids c.phase k) (hknown : Known g c.machine)
    (hids : ids <+: identities g.world.store) (hadv : advance I domain env g c = some (g', c'))
    (hok : sectionEnds I domain env g c = true) :
    (∃ a, c'.replies = c.replies ++ [a] ∧ MapAnswer domain r c.machine ids a) ∨
      (c'.replies = c.replies ∧ ∃ j < k, Mapping domain sid r c.machine ids c'.phase j) := by
  generalize hph : c.phase = ph at h
  cases h with
  | update =>
    simp only [sectionEnds, hph] at hok
    simp only [advance, hph] at hadv
    rcases hu : updateMapInfo env.io c.machine r.nodeKey r.discoKey r.host r.endpoints g.world with ⟨res, w⟩
    have hres : res = .ok () := by
      rw [hu] at hok
      rcases updateMapInfo_cases hu with ⟨_, hres, _⟩ | ⟨n, _, hc⟩
      · exact hres
      · rw [(commit_cases hc).1] at hok
        exact commit_saves hc hok
    subst hres
    rw [hu] at hadv
    cases hadv
    exact .inr ⟨rfl, 5, by decide, .bump⟩
  | bump =>
    simp only [advance, hph] at hadv
    cases hadv
    exact .inr ⟨rfl, 4, by decide, .online⟩
  | online =>
    simp only [advance, hph] at hadv
    by_cases hempty : (r.omitPeers && !r.stream) = true
    · rw [if_pos hempty] at hadv
      cases hadv
      obtain ⟨homit, hstream⟩ := Bool.and_eq_true_iff.mp hempty
      exact .inl ⟨.emptyBody, rfl, .emptyBody homit (by simpa using hstream)⟩
    · rw [if_neg hempty] at hadv
      cases hadv
      exact .inr ⟨rfl, 3, by decide, .find⟩
  | find =>
    simp only [advance, hph] at hadv
    cases hf : findByMachine g.world.store c.machine with
    | none =>
      obtain ⟨d, hd, hm⟩ := hknown
      exact absurd hm (findByMachine_none hf d hd)
    | some self =>
      simp only [hf] at hadv
      cases hadv
      exact .inr ⟨rfl, 2, by decide, .nodes self (found_identity hf).2⟩
  | nodes self hm =>
    simp only [sectionEnds, encodeFails, hph, Bool.not_eq_true'] at hok
    simp only [advance, hph, hok, Bool.false_eq_true, if_false] at hadv
    cases hstream : r.stream with
    | false =>
      simp only [hstream, Bool.not_false, if_true] at hadv
      cases hadv
      exact .inl ⟨_, rfl, .oneShot self g.world.store.nodes env.now hm hids hstream⟩
    | true =>
      simp only [hstream, Bool.not_true, Bool.false_eq_true, if_false] at hadv
      cases hadv
      exact .inr ⟨rfl, 1, by decide, .live self g.world.store.nodes env.now hm hids hstream⟩
  | live self nodes now hm hids hstream =>
    simp only [advance, hph] at hadv
    cases hadv
    exact .inl ⟨_, rfl, .streamStart self nodes now hm hids hstream⟩

end Maps

/-- The request of a known machine, at one of its stages. -/
def MapsFor (domain : Bytes) (sid : ℕ) (r : MapReq) (machine : Bytes) (ids : List Identity) (s : Coord)
    (ph : Phase) (k : ℕ) : Prop :=
  Known s.shared machine ∧ ids <+: identities s.shared.world.store ∧ Mapping domain sid r machine ids ph k

/-- **Who is known gets a map.** Whatever the other connections do between the sections of a map request of a
    machine that has a node, it is not unauthorized and its connection is not ended. After six sections at the
    latest it is answered, with the map of the machine's own node; it is built of all nodes that were there
    when the request came, and perhaps of some that came later. It asks no more than that its own save and
    `encode_map_frame` return. -/
theorem known_mapped (I : Inet) (domain : Bytes) (s₁ s₂ s : Coord) (es : List Event) (i sid : ℕ) (c : Conn)
    (hidle : idleConn s₁ i = some c) (hknown : Known s₁.shared c.machine) (body : Json) (r : MapReq)
    (hr : decodeMap body = .ok r) (hreq : coordStep I domain s₁ (.map i sid (some body)) = some s₂)
    (h : Run (Guarded (Of (coordStep I domain)) fun s e => kindly I domain i s e = true) s₂ es s) :
    EndsWith i c (fun _ a => MapAnswer domain r c.machine (identities s₁.shared.world.store) a) s ∨
      ∃ k, 0 < k ∧ k + es.countP (Event.runs i) ≤ 6 ∧
        AtWork i (OnRequest c (MapsFor domain sid r c.machine (identities s₁.shared.world.store))) k s ∧
        ∃ s', coordStep I domain s (.run i {}) = some s' := by
  have hbusy : Unfinished (OnRequest c (MapsFor domain sid r c.machine (identities s₁.shared.world.store))) :=
    fun _ _ _ hwork => hwork.2.2.2.2.busy
  obtain ⟨hget, _⟩ := idleConn_some hidle
  rw [coordStep, hidle, Option.map_some] at hreq
  cases hreq
  -- a read-only request begins two sections further on
  have hstart : ∃ n ≤ 6, AtWork i
      (OnRequest c (MapsFor domain sid r c.machine (identities s₁.shared.world.store))) n
      (s₁.setConn i (onMap c sid (some body))) := by
    have hset : (s₁.setConn i (onMap c sid (some body))).conns[i]? = some (onMap c sid (some body)) :=
      List.getElem?_set_self (List.getElem?_eq_some_iff.mp hget).1
    by_cases hread : r.readonly = true
    · have hbegins : onMap c sid (some body) = c.enter (.mapOnline sid r) := by
        simp only [onMap, hr, hread, if_true]
      rw [hbegins] at hset ⊢
      exact ⟨4, by decide, _, hset, rfl, rfl, hknown, List.prefix_rfl, .online⟩
    · have hbegins : onMap c sid (some body) = c.enter (.mapUpdate sid r) := by
        simp only [onMap, hr, if_neg hread]
      rw [hbegins] at hset ⊢
      exact ⟨6, by decide, _, hset, rfl, rfl, hknown, List.prefix_rfl, .update⟩
  obtain ⟨n, hn, hstart⟩ := hstart
  have hcomes :
      EndsWith i c (fun _ a => MapAnswer domain r c.machine (identities s₁.shared.world.store) a) s ∨
      ∃ k, 0 < k ∧ k + es.countP (Event.runs i) ≤ n ∧
        AtWork i (OnRequest c (MapsFor domain sid r c.machine (identities s₁.shared.world.store))) k s ∧
        ∃ s', coordStep I domain s (.run i {}) = some s' := by
    refine request_comes hbusy ?_ ?_ ?_ hstart h
    · rintro s s' env d d' k hs _ hm ⟨hknown, hids, hmap⟩ hadv hok
      rw [← hm] at hknown hmap ⊢
      have hgrows := coordStep_grows hs
      rcases mapping_section hmap hknown hids hadv hok with hend | ⟨hreplies, j, hj, hmap'⟩
      · exact .inl hend
      · exact .inr ⟨hreplies, j, hj, hknown.mono hgrows, hids.trans hgrows, hmap'⟩
    · rintro s e s' ph k hs _ ⟨hknown, hids, hmap⟩
      have hgrows := coordStep_grows hs
      exact ⟨hknown.mono hgrows, hids.trans hgrows, hmap⟩
    · rintro s e s' a _ ha
      exact ha
  rcases hcomes with hend | ⟨k, hpos, hk, hwork, hnext⟩
  · exact .inl hend
  · exact .inr ⟨k, hpos, hk.trans hn, hwork, hnext⟩

/-- The team after both machines are in. -/
def teamJoins : List Event :=
  [.accept (ascii "mkey:1"), .accept (ascii "mkey:2"), .register 0 (some (authBody teamKey)),
    .register 1 (some (authBody teamKey))] ++ List.replicate 6 (.run 0 {}) ++ List.replicate 6 (.run 1 {})

/-- The first machine asks for its map; the second one leaves meanwhile. -/
def teamMaps : List Event :=
  [.run 0 {}, .hangup 1, .run 0 {}, .run 1 {}, .run 0 {}, .run 0 {}, .run 1 {}, .run 0 {}, .run 0 {}]

/-- What it asks for. -/
def streamBody : Json := .obj [(ascii "Stream", .bool true)]

def streamReq : MapReq :=
  { version := 0, stream := true, omitPeers := false, zstd := false, nodeKey := [], discoKey := [], host := []
    endpoints := [] }

theorem known_mapped_team : ∃ s₁ s₂ s c,
    Run (Of (coordStep .sample (ascii "ts.net"))) teamCoord teamJoins s₁ ∧
      coordStep .sample (ascii "ts.net") s₁ (.map 0 5 (some streamBody)) = some s₂ ∧
      Run (Guarded (Of (coordStep .sample (ascii "ts.net"))) fun s e =>
        kindly .sample (ascii "ts.net") 0 s e = true) s₂ teamMaps s ∧
      EndsWith 0 c (fun _ a =>
        MapAnswer (ascii "ts.net") streamReq c.machine (identities s₁.shared.world.store) a) s := by
  have hexec : ((exec (coordStep .sample (ascii "ts.net")) teamCoord teamJoins).bind fun s₁ =>
      (coordStep .sample (ascii "ts.net") s₁ (.map 0 5 (some streamBody))).bind fun s₂ =>
        (exec (checked (coordStep .sample (ascii "ts.net")) (kindly .sample (ascii "ts.net") 0)) s₂
          teamMaps).map fun _ =>
          (idleConn s₁ 0).any fun c => (identities s₁.shared.world.store).any (·.machineKey = c.machine)) =
      some true := by
    decide +kernel
  obtain ⟨s₁, h₁, hexec⟩ := Option.bind_eq_some_iff.mp hexec
  obtain ⟨s₂, h₂, hexec⟩ := Option.bind_eq_some_iff.mp hexec
  obtain ⟨s, h, hthere⟩ := Option.map_eq_some_iff.mp hexec
  obtain ⟨c, hc, hthere⟩ := (Option.any_eq_true _ _).mp hthere
  obtain ⟨d, hd, hm⟩ := List.any_eq_true.mp hthere
  have hrun := guarded_of_exec h
  refine ⟨s₁, s₂, s, c, run_of_exec h₁, h₂, hrun, ?_⟩
  rcases known_mapped .sample (ascii "ts.net") s₁ s₂ s _ 0 5 c hc ⟨d, hd, of_decide_eq_true hm⟩ streamBody
    streamReq rfl h₂ hrun with hend | ⟨k, hpos, hk, _⟩
  · exact hend
  · have hran : teamMaps.countP (Event.runs 0) = 6 := by decide
    omega

end Wirebone
