/-
  File:      Wirebone/Coordinator/Total.lean
  Subject:   WHETHER EVERY REQUEST IS ANSWERED.

  Only the parse of a body is guarded in `on_register` and `on_map`. The typed lookups after it throw
  on a body that is no object and on a member of another type; the saves throw where the hook does, or
  where a string is not UTF-8; `encode_map_frame` throws where the compressor fails, or a string of the
  map is not UTF-8.

  * `registerTyped`, `mapTyped` -- what the lookups of the two handlers accept, member by member;
    `decodeRegister_iff`, `decodeMap_iff`;
  * `Answers` -- the sections of a call bring the connection back to its loop with one reply more;
  * `Request.served` -- the condition: on the body, the node of the machine, the key list of the file,
    the strings of the store and the domain;
  * **`handler_total_iff`** -- a handler returns after exactly one response exactly then.
-/
import Wirebone.Coordinator.Announce
import Wirebone.Netmap.Dump
import Wirebone.Store.Collision
import Wirebone.Store.Expiry

namespace Wirebone

open ByteString FirstMatch Lts

/-! ## 1. Typed lookups -/

namespace Json

def isString : Json → Bool
  | str _ => true
  | _ => false

def isBoolean : Json → Bool
  | bool _ => true
  | _ => false

/-- What `get<int>()` converts. -/
def isArithmetic : Json → Bool
  | num _ | float _ _ | bool _ => true
  | _ => false

/-- The member is absent, or of the kind. -/
def memberIs (kind : Json → Bool) (j : Json) (name : String) : Bool :=
  match j.find (ascii name) with
  | none => true
  | some v => kind v

def stringAt (j : Json) (name : String) : Bytes :=
  match j.find (ascii name) with
  | some (str s) => s
  | _ => []

def flagAt (j : Json) (name : String) : Bool :=
  match j.find (ascii name) with
  | some (bool b) => b
  | _ => false

def numberAt (j : Json) (name : String) : Int :=
  match j.find (ascii name) with
  | some (num n) => toInt32 n
  | some (float q cast) => doubleToInt q cast
  | some (bool b) => if b then 1 else 0
  | _ => 0

end Json

def hostTyped (req : Json) : Bool :=
  match req.find (ascii "Hostinfo") with
  | some h => !h.isObject || h.memberIs Json.isString "Hostname"
  | none => true

def hostIn (req : Json) : Bytes :=
  match req.find (ascii "Hostinfo") with
  | some h => if h.isObject then h.stringAt "Hostname" else []
  | none => []

def authTyped (req : Json) : Bool :=
  match req.find (ascii "Auth") with
  | some (.obj ms) =>
    (Json.obj ms).memberIs Json.isString "AuthKey" &&
      (decide ((Json.obj ms).stringAt "AuthKey" ≠ []) || (Json.obj ms).memberIs Json.isString "authKey")
  | _ => true

/-- The key in `Auth`. -/
def authIn (req : Json) : Bytes :=
  match req.find (ascii "Auth") with
  | some (.obj ms) =>
    if (Json.obj ms).stringAt "AuthKey" = [] then (Json.obj ms).stringAt "authKey"
    else (Json.obj ms).stringAt "AuthKey"
  | some (.str s) => s
  | _ => []

/-- The key a registration presents: in `Auth`, or else in `AuthKey`. -/
def presentedKey (req : Json) : Bytes :=
  if authIn req = [] then req.stringAt "AuthKey" else authIn req

/-- **A body that `on_register` can read.** -/
def registerTyped (req : Json) : Bool :=
  req.isObject && req.memberIs Json.isString "NodeKey" && hostTyped req && authTyped req &&
    (decide (authIn req ≠ []) || req.memberIs Json.isString "AuthKey") &&
    req.memberIs Json.isBoolean "Ephemeral"

def registerReqOf (req : Json) : RegisterReq :=
  { nodeKey := req.stringAt "NodeKey", host := hostIn req, auth := presentedKey req,
    ephemeral := req.flagAt "Ephemeral" }

/-- **A body that `on_map` can read.** -/
def mapTyped (req : Json) : Bool :=
  req.isObject && req.memberIs Json.isArithmetic "Version" && req.memberIs Json.isBoolean "Stream" &&
    req.memberIs Json.isBoolean "OmitPeers" && req.memberIs Json.isString "Compress" &&
    req.memberIs Json.isString "NodeKey" && req.memberIs Json.isString "DiscoKey" && hostTyped req

def mapReqOf (req : Json) : MapReq :=
  { version := req.numberAt "Version", stream := req.flagAt "Stream", omitPeers := req.flagAt "OmitPeers",
    zstd := decide (req.stringAt "Compress" = ascii "zstd"), nodeKey := req.stringAt "NodeKey",
    discoKey := req.stringAt "DiscoKey", host := hostIn req, endpoints := endpointsFromReq req }

section Lookups

variable {req : Json} {name : String}

theorem value_string_ok {t : Bytes} :
    req.value Json.getString name [] = .ok t ↔
      (req.isObject = true ∧ req.memberIs Json.isString name = true) ∧ t = req.stringAt name := by
  unfold Json.value Json.memberIs Json.stringAt
  cases req.isObject with
  | false => simp
  | true =>
    cases req.find (ascii name) with
    | none => simp [eq_comm]
    | some v => cases v <;> simp [Json.getString, Json.isString, eq_comm]

theorem value_flag_ok {b : Bool} :
    req.value Json.getBool name false = .ok b ↔
      (req.isObject = true ∧ req.memberIs Json.isBoolean name = true) ∧ b = req.flagAt name := by
  unfold Json.value Json.memberIs Json.flagAt
  cases req.isObject with
  | false => simp
  | true =>
    cases req.find (ascii name) with
    | none => simp [eq_comm]
    | some v => cases v <;> simp [Json.getBool, Json.isBoolean, eq_comm]

theorem value_number_ok {n : Int} :
    req.value Json.getInt name 0 = .ok n ↔
      (req.isObject = true ∧ req.memberIs Json.isArithmetic name = true) ∧ n = req.numberAt name := by
  unfold Json.value Json.memberIs Json.numberAt
  cases req.isObject with
  | false => simp
  | true =>
    cases req.find (ascii name) with
    | none => simp [eq_comm]
    | some v => cases v <;> simp [Json.getInt, Json.isArithmetic, eq_comm]

theorem hostnameFromHostinfo_ok {t : Bytes} :
    hostnameFromHostinfo req = .ok t ↔ hostTyped req = true ∧ t = hostIn req := by
  unfold hostnameFromHostinfo hostTyped hostIn
  cases req.find (ascii "Hostinfo") with
  | none => simp [eq_comm]
  | some h =>
    cases ho : h.isObject with
    | false => simp [eq_comm, ho]
    | true => simp [value_string_ok, ho]

theorem authFromReq_ok {t : Bytes} :
    authFromReq req = .ok t ↔ authTyped req = true ∧ t = authIn req := by
  unfold authFromReq authTyped authIn
  cases req.find (ascii "Auth") with
  | none => simp [eq_comm]
  | some v =>
    cases v with
    | obj ms =>
      simp only [except_bind_ok_iff, value_string_ok, Bool.and_eq_true, Bool.or_eq_true, decide_eq_true_eq]
      by_cases hnil : (Json.obj ms).stringAt "AuthKey" = []
      · rw [if_pos hnil]
        constructor
        · rintro ⟨_, ⟨⟨_, h1⟩, rfl⟩, h⟩
          rw [if_pos hnil, value_string_ok] at h
          exact ⟨⟨h1, .inr h.1.2⟩, h.2⟩
        · rintro ⟨⟨h1, h2⟩, rfl⟩
          refine ⟨_, ⟨⟨rfl, h1⟩, rfl⟩, ?_⟩
          rw [if_pos hnil, value_string_ok]
          exact ⟨⟨rfl, h2.resolve_left fun h => h hnil⟩, rfl⟩
      · rw [if_neg hnil]
        constructor
        · rintro ⟨_, ⟨⟨_, h1⟩, rfl⟩, h⟩
          rw [if_neg hnil] at h
          cases h
          exact ⟨⟨h1, .inl hnil⟩, rfl⟩
        · rintro ⟨⟨h1, _⟩, rfl⟩
          exact ⟨_, ⟨⟨rfl, h1⟩, rfl⟩, if_neg hnil⟩
    | null | bool _ | num _ | float _ _ | str _ | arr _ => simp [eq_comm]

/-- **`on_register` reads a body** exactly if its members are of the types it asks for. -/
theorem decodeRegister_iff {r : RegisterReq} :
    decodeRegister req = .ok r ↔ registerTyped req = true ∧ r = registerReqOf req := by
  unfold decodeRegister registerTyped registerReqOf presentedKey
  simp only [except_bind_ok_iff, value_string_ok, hostnameFromHostinfo_ok, authFromReq_ok,
    Bool.and_eq_true, Bool.or_eq_true, decide_eq_true_eq]
  by_cases hnil : authIn req = []
  · rw [if_pos hnil]
    constructor
    · rintro ⟨_, ⟨⟨hobj, h1⟩, rfl⟩, _, ⟨h2, rfl⟩, _, ⟨h3, rfl⟩, h⟩
      rw [if_pos hnil] at h
      simp only [except_bind_ok_iff, value_string_ok, value_flag_ok] at h
      obtain ⟨_, ⟨⟨_, h4⟩, rfl⟩, _, ⟨⟨_, h5⟩, rfl⟩, heq⟩ := h
      cases heq
      exact ⟨⟨⟨⟨⟨⟨hobj, h1⟩, h2⟩, h3⟩, .inr h4⟩, h5⟩, rfl⟩
    · rintro ⟨⟨⟨⟨⟨⟨hobj, h1⟩, h2⟩, h3⟩, h4⟩, h5⟩, rfl⟩
      refine ⟨_, ⟨⟨hobj, h1⟩, rfl⟩, _, ⟨h2, rfl⟩, _, ⟨h3, rfl⟩, ?_⟩
      rw [if_pos hnil]
      simp only [except_bind_ok_iff, value_string_ok, value_flag_ok]
      exact ⟨_, ⟨⟨hobj, h4.resolve_left fun h => h hnil⟩, rfl⟩, _, ⟨⟨hobj, h5⟩, rfl⟩, rfl⟩
  · rw [if_neg hnil]
    constructor
    · rintro ⟨_, ⟨⟨hobj, h1⟩, rfl⟩, _, ⟨h2, rfl⟩, _, ⟨h3, rfl⟩, h⟩
      rw [if_neg hnil] at h
      simp only [except_bind_ok_iff, value_flag_ok] at h
      obtain ⟨_, hauth, _, ⟨⟨_, h5⟩, rfl⟩, heq⟩ := h
      cases hauth
      cases heq
      exact ⟨⟨⟨⟨⟨⟨hobj, h1⟩, h2⟩, h3⟩, .inl hnil⟩, h5⟩, rfl⟩
    · rintro ⟨⟨⟨⟨⟨⟨hobj, h1⟩, h2⟩, h3⟩, _⟩, h5⟩, rfl⟩
      refine ⟨_, ⟨⟨hobj, h1⟩, rfl⟩, _, ⟨h2, rfl⟩, _, ⟨h3, rfl⟩, ?_⟩
      rw [if_neg hnil]
      simp only [except_bind_ok_iff, value_flag_ok]
      exact ⟨_, rfl, _, ⟨⟨hobj, h5⟩, rfl⟩, rfl⟩

/-- **`on_map` reads a body** exactly if its members are of the types it asks for. -/
theorem decodeMap_iff {r : MapReq} : decodeMap req = .ok r ↔ mapTyped req = true ∧ r = mapReqOf req := by
  unfold decodeMap mapTyped
  simp only [except_bind_ok_iff, value_string_ok, value_flag_ok, value_number_ok, hostnameFromHostinfo_ok,
    Bool.and_eq_true]
  constructor
  · rintro ⟨_, ⟨⟨hobj, h1⟩, rfl⟩, _, ⟨⟨_, h2⟩, rfl⟩, _, ⟨⟨_, h3⟩, rfl⟩, _, ⟨⟨_, h4⟩, rfl⟩, _,
      ⟨⟨_, h5⟩, rfl⟩, _, ⟨⟨_, h6⟩, rfl⟩, _, ⟨h7, rfl⟩, heq⟩
    cases heq
    exact ⟨⟨⟨⟨⟨⟨⟨⟨hobj, h1⟩, h2⟩, h3⟩, h4⟩, h5⟩, h6⟩, h7⟩, rfl⟩
  · rintro ⟨⟨⟨⟨⟨⟨⟨⟨hobj, h1⟩, h2⟩, h3⟩, h4⟩, h5⟩, h6⟩, h7⟩, rfl⟩
    exact ⟨_, ⟨⟨hobj, h1⟩, rfl⟩, _, ⟨⟨hobj, h2⟩, rfl⟩, _, ⟨⟨hobj, h3⟩, rfl⟩, _, ⟨⟨hobj, h4⟩, rfl⟩, _,
      ⟨⟨hobj, h5⟩, rfl⟩, _, ⟨⟨hobj, h6⟩, rfl⟩, _, ⟨h7, rfl⟩, rfl⟩

end Lookups

/-! ## 2. The property and the condition -/

/-- A call of one of the two handlers (`none`: the body does not parse). -/
inductive Request where
  | register (body : Option Json)
  | map (sid : Nat) (body : Option Json)

def Request.body : Request → Option Json
  | .register body => body
  | .map _ body => body

/-- The connection when the handler has read the body. -/
def Request.enter (c : Conn) : Request → Conn
  | .register body => onRegister c body
  | .map sid body => onMap c sid body

/-- The sections of a call, the `k`-th one with `env k`, bring the connection back to its loop with
    one reply more than `replies`. -/
def Answers (I : Inet) (domain : Bytes) (env : Nat → Env) (g : Shared) (c : Conn) (replies : List Reply) :
    Prop :=
  ∃ n g' c' r, exec (sectionStep I domain) (g, c) ((List.range n).map env) = some (g', c') ∧
    c'.isIdle = true ∧ c'.replies = replies ++ [r]

/-- **The handler returns normally, after exactly one response.** -/
def Request.Total (I : Inet) (domain : Bytes) (env : Nat → Env) (g : Shared) (c : Conn) (q : Request) :
    Prop :=
  Answers I domain env g (q.enter c) c.replies

/-- The hook does not throw, where there is one. -/
def hookQuiet (io : SaveIo) (s : Store) : Bool := !s.hooked || !io.hookThrows

/-- A node without the strings that `register_node` replaces. -/
def beforeRegister (host : Bytes) (n : NodeState) : NodeState :=
  { n with nodeKey := [], hostname := if host = [] then n.hostname else [] }

/-- A node without the strings that `update_map_info` replaces. -/
def beforeMap (r : MapReq) (n : NodeState) : NodeState :=
  { n with
    nodeKey := if r.nodeKey = [] then n.nodeKey else []
    discoKey := if r.discoKey = [] then n.discoKey else []
    hostname := if r.host = [] then n.hostname else []
    endpoints := [] }

/-- **The condition on a registration.** Section 1 saves the update of a known node; for a new one,
    section 3 saves the keys and section 4 the node. -/
def registerServed (env : Nat → Env) (w : World) (machine : Bytes) (req : Json) : Prop :=
  registerTyped req = true ∧
    match findByMachine w.store machine with
    | some _ =>
      hookQuiet (env 1).io w.store = true ∧
        Dumpable { w.store with nodes := updateNode machine (beforeRegister (hostIn req)) w.store.nodes }
    | none =>
      presentedKey req = [] ∨
        (reloadThrows w = false ∧
          (claimOf (env 3).nowUnix (presentedKey req) (keysSeen w) = none ∨
            (hookQuiet (env 3).io w.store = true ∧ hookQuiet (env 4).io w.store = true ∧
              Dumpable { w.store with keys := keysSeen w })))

/-- **The strings of a map**, before the request: the domain, those of the machine's own node that the
    request does not replace (`own`), and those of every other node that it sees are UTF-8. -/
structure ShownClean (domain machine : Bytes) (own : NodeState) (nodes : List NodeState) : Prop where
  place : utf8 domain = true
  node : ∀ x ∈ own.mapTexts, utf8 x = true
  others : ∀ n ∈ nodes.eraseP (·.machineKey = machine), nodeVisibleTo own n = true →
    ∀ x ∈ own.listedTexts n, utf8 x = true

/-- **The condition on a map request.** Section 0 saves the update, section 2 or 4 encodes the map. -/
def mapServed (domain : Bytes) (env : Nat → Env) (w : World) (machine : Bytes) (req : Json) : Prop :=
  mapTyped req = true ∧
    match findByMachine w.store machine with
    | none => True
    | some n =>
      ((mapReqOf req).readonly = true ∨
        (hookQuiet (env 0).io w.store = true ∧
          Dumpable { w.store with nodes := updateNode machine (beforeMap (mapReqOf req)) w.store.nodes })) ∧
      ((req.flagAt "OmitPeers" = true ∧ req.flagAt "Stream" = false) ∨
        ((env (if (mapReqOf req).readonly then 2 else 4)).compressFails = false ∧
          ShownClean domain machine (if (mapReqOf req).readonly then n else beforeMap (mapReqOf req) n)
            w.store.nodes))

/-- **The condition**: the body does not parse, or the call comes to no throw. -/
def Request.served (domain : Bytes) (env : Nat → Env) (w : World) (machine : Bytes) (q : Request) : Prop :=
  ∀ req, q.body = some req →
    match q with
    | .register _ => registerServed env w machine req
    | .map _ _ => mapServed domain env w machine req

/-! ## 3. Section after section -/

section Sections

variable {I : Inet} {domain : Bytes} {env : Nat → Env} {g g₁ : Shared} {c c₁ : Conn}
  {replies : List Reply}

/-- A connection inside a call runs its next section. -/
theorem answers_step (hc : c.isIdle = false) (hadv : advance I domain (env 0) g c = some (g₁, c₁)) :
    Answers I domain env g c replies ↔ Answers I domain (fun k => env (k + 1)) g₁ c₁ replies := by
  have hexec : ∀ n, exec (sectionStep I domain) (g, c) ((List.range (n + 1)).map env) =
      exec (sectionStep I domain) (g₁, c₁) ((List.range n).map fun k => env (k + 1)) := by
    intro n
    rw [List.range_succ_eq_map, List.map_cons, List.map_map]
    show (advance I domain (env 0) g c).bind _ = _
    rw [hadv]
    rfl
  constructor
  · rintro ⟨n, g', c', r, h, hidle, hr⟩
    cases n with
    | zero =>
      cases h
      rw [hc] at hidle
      cases hidle
    | succ n =>
      rw [hexec n] at h
      exact ⟨n, g', c', r, h, hidle, hr⟩
  · rintro ⟨n, g', c', r, h, hidle, hr⟩
    exact ⟨n + 1, g', c', r, (hexec n).trans h, hidle, hr⟩

/-- A reply ends the call. -/
theorem answers_answer (r : Reply) : Answers I domain env g (c.answer r) c.replies :=
  ⟨0, g, c.answer r, r, rfl, rfl, rfl⟩

/-- After an exception there is none. -/
theorem not_answers_thrown : ¬ Answers I domain env g c.thrown replies := by
  rintro ⟨n, g', c', r, h, hidle, _⟩
  cases n with
  | zero =>
    cases h
    cases hidle
  | succ n =>
    rw [List.range_succ_eq_map] at h
    cases h

/-- A registration goes on from `consume_preauth` to the end: it is denied, or adds its node. -/
def ThenRegisters (I : Inet) (io : SaveIo) (machine : Bytes) (r : RegisterReq) :
    Except Exn (Option PreauthClaim) × World → Prop
  | (.error _, _) => False
  | (.ok none, _) => True
  | (.ok (some claim), w) =>
    ∃ n, (registerNode I io machine r.nodeKey r.host claim.ephemeral claim.token claim.shared w).1 = .ok n

theorem answers_regNode {r : RegisterReq} {claim : PreauthClaim} {ephemeral : Bool}
    (hph : c.phase = .regNode r claim ephemeral) :
    Answers I domain env g c c.replies ↔
      ∃ n, (registerNode I (env 0).io c.machine r.nodeKey r.host ephemeral claim.token claim.shared
        g.world).1 = .ok n := by
  have hadv : advance I domain (env 0) g c = some (registerSection I (env 0) g c r claim ephemeral) := by
    simp only [advance, hph]
  rcases hr : registerNode I (env 0).io c.machine r.nodeKey r.host ephemeral claim.token claim.shared
    g.world with ⟨e | n, w⟩
  · simp only [registerSection, hr] at hadv
    rw [answers_step (isIdle_false hph (by simp)) hadv]
    refine ⟨fun h => absurd h not_answers_thrown, ?_⟩
    rintro ⟨n, hn⟩
    cases hn
  · simp only [registerSection, hr] at hadv
    rw [answers_step (isIdle_false hph (by simp)) hadv]
    refine ⟨fun _ => ⟨n, rfl⟩, fun _ => ?_⟩
    exact (answers_step rfl rfl).mpr (answers_answer (c := c.enter .regBump) .registered)

/-- The locked half of `consume_preauth`, then the node. -/
theorem answers_regCheck {r : RegisterReq} (hph : c.phase = .regCheck r) :
    Answers I domain env g c c.replies ↔
      ThenRegisters I (env 1).io c.machine r
        (checkAndMark (env 0).io (env 0).nowUnix r.auth g.world) := by
  rcases hcheck : checkAndMark (env 0).io (env 0).nowUnix r.auth g.world with ⟨e | claim, w⟩
  · rw [answers_step (isIdle_false hph (by simp)) (by simp only [advance, hph, hcheck]; rfl)]
    exact ⟨fun h => absurd h not_answers_thrown, False.elim⟩
  · cases claim with
    | none =>
      rw [answers_step (isIdle_false hph (by simp)) (by simp only [advance, hph, hcheck]; rfl)]
      exact ⟨fun _ => trivial, fun _ => answers_answer _⟩
    | some claim =>
      rw [answers_step (isIdle_false hph (by simp)) (by simp only [advance, hph, hcheck]; rfl)]
      exact answers_regNode (c := c.enter (.regNode r claim claim.ephemeral)) rfl

/-- `consume_preauth` section by section, then the node. -/
theorem answers_regRead {r : RegisterReq} (hph : c.phase = .regRead r) :
    Answers I domain env g c c.replies ↔
      ThenRegisters I (env 3).io c.machine r
        (consumePreauth (env 2).io (env 2).nowUnix r.auth g.world) := by
  rw [answers_step (isIdle_false hph (by simp)) (by simp only [advance, hph]; rfl)]
  unfold consumePreauth
  cases himage : readImage g.world with
  | none =>
    rw [answers_step rfl rfl]
    exact answers_regCheck (c := (c.enter (.regInstall r none)).enter (.regCheck r)) rfl
  | some ks =>
    rcases hinstall : installKeys ks g.world.store with ⟨e | u, s⟩
    · rw [answers_step rfl (by simp only [advance, Conn.enter, hinstall]; rfl)]
      simp only [hinstall]
      exact ⟨fun h => absurd h not_answers_thrown, False.elim⟩
    · rw [answers_step rfl (by simp only [advance, Conn.enter, hinstall]; rfl)]
      simp only [hinstall]
      exact answers_regCheck (c := (c.enter (.regInstall r (some ks))).enter (.regCheck r)) rfl

/-- **`on_register`**: a known node is updated; a new one needs a key. -/
theorem answers_regFind {r : RegisterReq} (hph : c.phase = .regFind r) :
    Answers I domain env g c c.replies ↔
      match findByMachine g.world.store c.machine with
      | some _ =>
        ∃ n, (registerNode I (env 1).io c.machine r.nodeKey r.host r.ephemeral [] false g.world).1 = .ok n
      | none => r.auth = [] ∨
        ThenRegisters I (env 4).io c.machine r
          (consumePreauth (env 3).io (env 3).nowUnix r.auth g.world) := by
  cases hfind : findByMachine g.world.store c.machine with
  | some n =>
    have hadv : advance I domain (env 0) g c = some (g, c.enter (.regNode r {} r.ephemeral)) := by
      simp only [advance, hph, hfind]
    rw [answers_step (isIdle_false hph (by simp)) hadv]
    have hnode : (c.enter (.regNode r {} r.ephemeral)).phase = .regNode r {} r.ephemeral := rfl
    have hrest : Answers I domain (fun k => env (k + 1)) g (c.enter (.regNode r {} r.ephemeral)) _ ↔ _ :=
      answers_regNode hnode
    exact hrest
  | none =>
    by_cases hauth : r.auth = []
    · rw [answers_step (isIdle_false hph (by simp)) (by simp only [advance, hph, hfind, if_pos hauth]; rfl)]
      exact ⟨fun _ => .inl hauth, fun _ => answers_answer _⟩
    · rw [answers_step (isIdle_false hph (by simp)) (by simp only [advance, hph, hfind, if_neg hauth]; rfl)]
      refine (answers_regRead (c := c.enter (.regRead r)) rfl).trans ?_
      exact ⟨.inr, fun h => h.resolve_left hauth⟩

/-- The map of the machine's node, if it has one, can be encoded. -/
def Encodes (domain : Bytes) (env : Env) (machine : Bytes) (s : Store) : Prop :=
  ∀ self, findByMachine s machine = some self →
    env.encodeThrows (.full (buildFullMap self s.nodes domain env.now)) = false

/-- The answer of a map request from `find_by_machine` on. -/
theorem answers_mapFind {sid : Nat} {r : MapReq} (hph : c.phase = .mapFind sid r) :
    Answers I domain env g c c.replies ↔ Encodes domain (env 1) c.machine g.world.store := by
  unfold Encodes
  cases hfind : findByMachine g.world.store c.machine with
  | none =>
    rw [answers_step (isIdle_false hph (by simp)) (by simp only [advance, hph, hfind]; rfl)]
    refine ⟨fun _ self h => ?_, fun _ => answers_answer _⟩
    cases h
  | some self =>
    rw [answers_step (isIdle_false hph (by simp)) (by simp only [advance, hph, hfind]; rfl)]
    simp only [Option.some.injEq, forall_eq']
    cases henc : (env 1).encodeThrows (.full (buildFullMap self g.world.store.nodes domain (env 1).now)) with
    | true =>
      rw [answers_step rfl (by simp only [advance, Conn.enter, henc]; rfl)]
      refine ⟨fun h => absurd h not_answers_thrown, fun h => ?_⟩
      cases h
    | false =>
      refine ⟨fun _ => rfl, fun _ => ?_⟩
      cases hstream : r.stream with
      | false =>
        rw [answers_step rfl (by simp only [advance, Conn.enter, henc, hstream]; rfl)]
        exact answers_answer _
      | true =>
        rw [answers_step rfl (by simp only [advance, Conn.enter, henc, hstream]; rfl)]
        rw [answers_step rfl rfl]
        exact ⟨0, _, _, _, rfl, rfl, rfl⟩

/-- The answer from `set_online` on. -/
theorem answers_mapOnline {sid : Nat} {r : MapReq} (hph : c.phase = .mapOnline sid r) :
    Answers I domain env g c c.replies ↔ (r.omitPeers = true ∧ r.stream = false) ∨
      Encodes domain (env 2) c.machine (setOnline c.machine true g.world.store) := by
  by_cases homit : r.omitPeers = true ∧ r.stream = false
  · rw [answers_step (isIdle_false hph (by simp))
      (by simp only [advance, hph, homit.1, homit.2, Bool.not_false, Bool.and_self, if_true]; rfl)]
    exact ⟨fun _ => .inl homit, fun _ => answers_answer _⟩
  · have hcond : (r.omitPeers && !r.stream) = false := by
      cases ho : r.omitPeers with
      | false => rfl
      | true =>
        cases hs : r.stream with
        | true => rfl
        | false => exact absurd ⟨ho, hs⟩ homit
    rw [answers_step (isIdle_false hph (by simp)) (by simp only [advance, hph, hcond]; rfl), or_iff_right homit]
    exact answers_mapFind (c := c.enter (.mapFind sid r)) rfl

/-- **`on_map`** that updates the node first. -/
theorem answers_mapUpdate {sid : Nat} {r : MapReq} (hph : c.phase = .mapUpdate sid r) {n : NodeState}
    (hfind : findByMachine g.world.store c.machine = some n) :
    Answers I domain env g c c.replies ↔
      saves (env 0).io { g.world.store with
        nodes := updateNode c.machine (mapUpdated r.nodeKey r.discoKey r.host r.endpoints)
          g.world.store.nodes } = true ∧
      ((r.omitPeers = true ∧ r.stream = false) ∨
        Encodes domain (env 4) c.machine (setOnline c.machine true { g.world.store with
          nodes := updateNode c.machine (mapUpdated r.nodeKey r.discoKey r.host r.endpoints)
            g.world.store.nodes })) := by
  rcases hup : updateMapInfo (env 0).io c.machine r.nodeKey r.discoKey r.host r.endpoints g.world with
    ⟨e | u, w⟩
  · rw [answers_step (isIdle_false hph (by simp)) (by simp only [advance, hph, hup]; rfl)]
    refine ⟨fun h => absurd h not_answers_thrown, fun h => ?_⟩
    rcases updateMapInfo_cases hup with ⟨hnone, _, _⟩ | ⟨n', _, hcommit⟩
    · rw [hfind] at hnone
      cases hnone
    · cases commit_saves hcommit h.1
  · rw [answers_step (isIdle_false hph (by simp)) (by simp only [advance, hph, hup]; rfl)]
    rcases updateMapInfo_cases hup with ⟨hnone, _, _⟩ | ⟨n', _, hcommit⟩
    · rw [hfind] at hnone
      cases hnone
    · have hsaves : saves (env 0).io { g.world.store with
          nodes := updateNode c.machine (mapUpdated r.nodeKey r.discoKey r.host r.endpoints)
            g.world.store.nodes } = true := by
        cases hs : saves (env 0).io { g.world.store with
            nodes := updateNode c.machine (mapUpdated r.nodeKey r.discoKey r.host r.endpoints)
              g.world.store.nodes } with
        | true => rfl
        | false =>
          obtain ⟨e, he⟩ := commit_throws hcommit hs
          cases he
      rw [answers_step rfl rfl, and_iff_right hsaves, ← (commit_cases hcommit).1]
      exact answers_mapOnline (c := (c.enter (.mapBump sid r)).enter (.mapOnline sid r)) rfl

/-- A request of a machine without a node is answered. -/
theorem answers_mapUnknown {sid : Nat} {r : MapReq} (hph : c.phase = .mapUpdate sid r)
    (hnone : findByMachine g.world.store c.machine = none) : Answers I domain env g c c.replies := by
  have hup : updateMapInfo (env 0).io c.machine r.nodeKey r.discoKey r.host r.endpoints g.world =
      (.ok (), g.world) := by
    unfold updateMapInfo
    rw [hnone]
  rw [answers_step (isIdle_false hph (by simp)) (by simp only [advance, hph, hup]; rfl), answers_step rfl rfl]
  refine (answers_mapOnline (c := (c.enter (.mapBump sid r)).enter (.mapOnline sid r)) rfl).mpr (.inr ?_)
  intro self hself
  have hself' : findByMachine (setOnline c.machine true g.world.store) c.machine = some self := hself
  rw [setOnline_unknown hnone, hnone] at hself'
  cases hself'

end Sections

/-! ## 4. Saves of strings in UTF-8 -/

section Saves

variable {I : Inet} {io : SaveIo} {s : Store} {w : World}

theorem passes_writable (ho : io.opens = true) (hr : io.renames = true) :
    io.passes s = hookQuiet io s := by
  unfold SaveIo.passes hookQuiet
  rw [ho, hr, Bool.and_self, Bool.or_true, Bool.true_and]

theorem dumpable_iff :
    Dumpable s ↔ (s.path ≠ [] ∨ s.hooked = true →
      (∀ k ∈ s.keys, ∀ x ∈ k.texts, utf8 x = true) ∧ ∀ n ∈ s.nodes, ∀ x ∈ n.texts, utf8 x = true) := by
  refine imp_congr Iff.rfl ⟨fun h => ?_, fun h => ?_⟩
  · have htexts := texts_of_dumps h
    refine ⟨fun k hk x hx => htexts x ?_, fun n hn x hx => htexts x ?_⟩
    · exact List.mem_append_left _ (List.mem_flatMap.mpr ⟨k, hk, hx⟩)
    · exact List.mem_append_right _ (List.mem_flatMap.mpr ⟨n, hn, hx⟩)
  · refine dumps_of_texts fun x hx => ?_
    rcases List.mem_append.mp hx with hx | hx
    · obtain ⟨k, hk, hx⟩ := List.mem_flatMap.mp hx
      exact h.1 k hk x hx
    · obtain ⟨n, hn, hx⟩ := List.mem_flatMap.mp hx
      exact h.2 n hn x hx

/-- An update that replaces strings by strings in UTF-8 can be saved where the rest can. -/
theorem dumpable_update {machine : Bytes} {f f' : NodeState → NodeState}
    (h : ∀ n, (∀ x ∈ (f n).texts, utf8 x = true) ↔ ∀ x ∈ (f' n).texts, utf8 x = true) :
    Dumpable { s with nodes := updateNode machine f s.nodes } ↔
      Dumpable { s with nodes := updateNode machine f' s.nodes } := by
  rw [dumpable_iff, dumpable_iff]
  exact imp_congr Iff.rfl (and_congr Iff.rfl (forall_modifyFirst_congr h s.nodes))

theorem texts_reregistered {nodeKey host : Bytes} (hkey : utf8 nodeKey = true) (hhost : utf8 host = true)
    (ephemeral : Bool) (n : NodeState) :
    (∀ x ∈ (reregistered nodeKey host ephemeral n).texts, utf8 x = true) ↔
      ∀ x ∈ (beforeRegister host n).texts, utf8 x = true := by
  have hnil : utf8 [] = true := rfl
  unfold NodeState.texts reregistered beforeRegister
  simp only [List.cons_append, List.nil_append, List.forall_mem_cons, hkey, hnil, true_and]
  by_cases hh : host = []
  · rw [if_pos hh, if_pos hh]
  · rw [if_neg hh, if_neg hh, hhost, hnil]

/-- A string that a request replaces, where it has one. -/
theorem utf8_replaced {t old : Bytes} (ht : utf8 t = true) :
    utf8 (if t = [] then old else t) = true ↔ utf8 (if t = [] then old else []) = true := by
  by_cases h : t = []
  · rw [if_pos h, if_pos h]
  · rw [if_neg h, if_neg h, ht]
    exact iff_of_true rfl rfl

theorem texts_mapUpdated {r : MapReq} (hkey : utf8 r.nodeKey = true) (hdisco : utf8 r.discoKey = true)
    (hhost : utf8 r.host = true) (hends : ∀ x ∈ r.endpoints, utf8 x = true) (n : NodeState) :
    (∀ x ∈ (mapUpdated r.nodeKey r.discoKey r.host r.endpoints n).texts, utf8 x = true) ↔
      ∀ x ∈ (beforeMap r n).texts, utf8 x = true := by
  unfold NodeState.texts mapUpdated beforeMap
  simp only [List.cons_append, List.nil_append, List.forall_mem_cons, utf8_replaced hkey, utf8_replaced hdisco,
    utf8_replaced hhost, eq_true hends, List.not_mem_nil, false_implies, implies_true]

/-- What a map shows of a node after a map request. -/
theorem mapTexts_mapUpdated {r : MapReq} (hkey : utf8 r.nodeKey = true) (hdisco : utf8 r.discoKey = true)
    (hhost : utf8 r.host = true) (hends : ∀ x ∈ r.endpoints, utf8 x = true) (n : NodeState) :
    (∀ x ∈ (mapUpdated r.nodeKey r.discoKey r.host r.endpoints n).mapTexts, utf8 x = true) ↔
      ∀ x ∈ (beforeMap r n).mapTexts, utf8 x = true := by
  unfold NodeState.mapTexts mapUpdated beforeMap
  simp only [List.cons_append, List.nil_append, List.forall_mem_cons, utf8_replaced hkey, utf8_replaced hdisco,
    utf8_replaced hhost, eq_true hends, List.not_mem_nil, false_implies, implies_true]

/-- What is asked of the strings of a map does not depend on how the own node shows them. -/
theorem shownClean_congr {domain machine : Bytes} {own own' : NodeState} {nodes : List NodeState}
    (hid : own'.id = own.id) (htoken : own'.token = own.token) (hshared : own'.shared = own.shared)
    (htexts : (∀ x ∈ own'.mapTexts, utf8 x = true) ↔ ∀ x ∈ own.mapTexts, utf8 x = true) :
    ShownClean domain machine own' nodes ↔ ShownClean domain machine own nodes := by
  have hvisible : nodeVisibleTo own' = nodeVisibleTo own := by
    funext m
    rw [nodeVisibleTo, nodeVisibleTo, hid, htoken, hshared]
  have hlisted : own'.listedTexts = own.listedTexts := by
    funext m
    rw [NodeState.listedTexts, NodeState.listedTexts, hid]
  constructor
  · intro h
    exact ⟨h.place, htexts.mp h.node, hvisible ▸ hlisted ▸ h.others⟩
  · intro h
    exact ⟨h.place, htexts.mpr h.node, hvisible ▸ hlisted ▸ h.others⟩

/-- **The map of an updated node** can be encoded exactly if the compressor returns and its strings, as
    they were before, are UTF-8 where the update leaves them. -/
theorem encodes_update {domain machine : Bytes} {env : Env} {f : NodeState → NodeState} {n : NodeState}
    (hnow : utf8 env.now = true) (hf : ∀ m, (f m).machineKey = m.machineKey)
    (hfind : findByMachine s machine = some n) :
    Encodes domain env machine { s with nodes := updateNode machine f s.nodes } ↔
      env.compressFails = false ∧ ShownClean domain machine (f n) s.nodes := by
  have hfind' : findByMachine { s with nodes := updateNode machine f s.nodes } machine = some (f n) := by
    unfold findByMachine updateNode
    simp only
    rw [find?_modifyFirst (fun a ha => by rw [hf]; exact ha), show s.nodes.find? _ = some n from hfind]
    rfl
  have hclean : TextsClean domain (f n) (updateNode machine f s.nodes) ↔
      ShownClean domain machine (f n) s.nodes := by
    have hfirst : s.nodes.find? (·.machineKey = machine) = some n := hfind
    have hall := fun P : NodeState → Prop => forall_modifyFirst_iff (f := f) (P := P) hfirst
    constructor
    · intro h
      exact ⟨h.place, h.node, ((hall _).mp h.listed).2⟩
    · intro h
      refine ⟨h.place, h.node, (hall _).mpr ⟨fun _ => ?_, h.others⟩⟩
      rw [NodeState.listedTexts, if_pos rfl]
      exact records_of_texts h.node
  unfold Encodes
  simp only [hfind', Option.some.injEq, forall_eq', Env.encodeThrows, Bool.or_eq_false_iff,
    Bool.not_eq_false', dumps_buildFullMap_iff hnow, hclean]
  exact and_comm

/-- `set_online` shows nothing else of the node. -/
theorem encodes_setOnline {domain machine : Bytes} {env : Env} {n : NodeState} (hnow : utf8 env.now = true)
    (hfind : findByMachine s machine = some n) :
    Encodes domain env machine (setOnline machine true s) ↔
      env.compressFails = false ∧ ShownClean domain machine n s.nodes := by
  have hencodes : Encodes domain env machine (setOnline machine true s) ↔ _ :=
    encodes_update (f := fun n => { n with online := true }) hnow (fun _ => rfl) hfind
  exact hencodes.trans (and_congr Iff.rfl (shownClean_congr rfl rfl rfl Iff.rfl))

/-- After the update of a map request it finds the node online. -/
theorem setOnline_updated (machine nodeKey discoKey host : Bytes) (ends : List Bytes) :
    setOnline machine true { s with
        nodes := updateNode machine (mapUpdated nodeKey discoKey host ends) s.nodes } =
      { s with nodes := updateNode machine (mapUpdated nodeKey discoKey host ends) s.nodes } := by
  have htwice : updateNode machine (fun n => { n with online := true })
      (updateNode machine (mapUpdated nodeKey discoKey host ends) s.nodes) =
        updateNode machine (mapUpdated nodeKey discoKey host ends) s.nodes := by
    refine modifyFirst_twice (fun n hn => ?_) (fun n => ?_) s.nodes
    · exact hn
    · rfl
  simp only [setOnline, htwice]

theorem commit_ok_iff {α : Type} (a : α) : (∃ b, (commit io w s a).1 = .ok b) ↔ saves io s = true := by
  have heta := (Prod.mk.eta (p := commit io w s a)).symm
  cases hs : saves io s with
  | true => exact ⟨fun _ => rfl, fun _ => ⟨a, commit_saves heta hs⟩⟩
  | false =>
    obtain ⟨e, he⟩ := commit_throws heta hs
    refine ⟨fun h => ?_, fun h => ?_⟩
    · obtain ⟨b, hb⟩ := h
      rw [he] at hb
      cases hb
    · cases h

variable {machine nodeKey host token : Bytes} {ephemeral shared : Bool}

theorem register_known_iff {n : NodeState} (hfind : findByMachine w.store machine = some n) :
    (∃ m, (registerNode I io machine nodeKey host ephemeral token shared w).1 = .ok m) ↔
      saves io { w.store with
        nodes := updateNode machine (reregistered nodeKey host ephemeral) w.store.nodes } = true := by
  simp only [registerNode, hfind]
  exact commit_ok_iff _

theorem register_new_iff {ips : Bytes × Bytes} (hfind : findByMachine w.store machine = none)
    (ha : addressFor I w.store.alloc w.store.nextIpIndex = .ok ips) :
    (∃ m, (registerNode I io machine nodeKey host ephemeral token shared w).1 = .ok m) ↔
      saves io { counted w.store with
        nodes := w.store.nodes ++
          [newNode w.store.nextNodeId machine nodeKey host ephemeral token shared ips] } = true := by
  simp only [registerNode, hfind, ha]
  exact commit_ok_iff _

/-- A new node can be saved where the store could be before. -/
theorem dumpable_joined (hprint : ∀ b, utf8 (I.ntop6 b) = true) (hm : utf8 machine = true)
    (hkey : utf8 nodeKey = true) (hhost : utf8 host = true) {ips : Bytes × Bytes}
    (ha : addressFor I s.alloc s.nextIpIndex = .ok ips) (hs : Dumpable s)
    (htoken : ∃ k ∈ s.keys, k.token = token) :
    Dumpable { counted s with
      nodes := s.nodes ++ [newNode s.nextNodeId machine nodeKey host ephemeral token shared ips] } := by
  intro hneed
  have htexts := texts_of_dumps (hs hneed)
  obtain ⟨k, hk, rfl⟩ := htoken
  obtain ⟨_, rfl⟩ := addressFor_ok.mp ha
  refine dumps_of_texts (texts_joined machine nodeKey host k.token ephemeral shared _ htexts hm hkey hhost ?_
    (utf8_of_ascii (ascii_ipv4 _)) (hprint _))
  refine htexts _ (List.mem_append_left _ (List.mem_flatMap.mpr ⟨k, hk, ?_⟩))
  simp [PreauthKey.texts]

/-- **A registration with a key**, from `consume_preauth` on. -/
theorem thenRegisters_iff (hprint : ∀ b, utf8 (I.ntop6 b) = true) {io' : SaveIo} {now : Int}
    {r : RegisterReq} (hm : utf8 machine = true) (hkey : utf8 r.nodeKey = true)
    (hhost : utf8 r.host = true) (hwrite : io.opens = true ∧ io.renames = true)
    (hwrite' : io'.opens = true ∧ io'.renames = true) (hfind : findByMachine w.store machine = none)
    {ips : Bytes × Bytes} (ha : addressFor I w.store.alloc w.store.nextIpIndex = .ok ips) :
    ThenRegisters I io' machine r (consumePreauth io now r.auth w) ↔
      reloadThrows w = false ∧ (claimOf now r.auth (keysSeen w) = none ∨
        (hookQuiet io w.store = true ∧ hookQuiet io' w.store = true ∧
          Dumpable { w.store with keys := keysSeen w })) := by
  cases hreload : reloadThrows w with
  | true =>
    obtain ⟨e, he⟩ := consume_throws io now r.auth hreload
    rcases hc : consumePreauth io now r.auth w with ⟨res, w'⟩
    rw [hc] at he
    obtain rfl : res = .error e := he
    refine ⟨False.elim, fun h => ?_⟩
    cases h.1
  | false =>
    rw [consume_result hreload]
    cases hclaim : claimOf now r.auth (keysSeen w) with
    | none => exact ⟨fun _ => ⟨rfl, .inl rfl⟩, fun _ => trivial⟩
    | some claim =>
      simp only [true_and, reduceCtorEq, false_or]
      have hmarked := saves_marked_iff io w.store (keysSeen w) r.auth
      rw [passes_writable hwrite.1 hwrite.2] at hmarked
      rcases hcommit : commit io w { w.store with keys := markUsed r.auth (keysSeen w) } (some claim) with
        ⟨res, w'⟩
      cases hs : saves io { w.store with keys := markUsed r.auth (keysSeen w) } with
      | false =>
        obtain ⟨e, rfl⟩ := commit_throws hcommit hs
        refine ⟨False.elim, fun h => ?_⟩
        rw [hmarked.mpr ⟨h.1, h.2.2⟩] at hs
        cases hs
      | true =>
        obtain ⟨hquiet, hdump⟩ := hmarked.mp hs
        obtain rfl := commit_saves hcommit hs
        have hstore := (commit_cases hcommit).1
        have hfind' : findByMachine w'.store machine = none := by
          rw [hstore]
          exact hfind
        have ha' : addressFor I w'.store.alloc w'.store.nextIpIndex = .ok ips := by
          rw [hstore]
          exact ha
        have htoken : ∃ k ∈ w'.store.keys, k.token = claim.token := by
          obtain ⟨k, hk, _, _, rfl⟩ := claimOf_some.mp hclaim
          refine ⟨{ k with used := true }, ?_, rfl⟩
          rw [hstore]
          refine List.mem_of_find?_eq_some (p := fun k : PreauthKey => decide (k.key = r.auth)) ?_
          show (markUsed r.auth (keysSeen w)).find? (·.key = r.auth) = _
          rw [find?_markUsed_self, hk]
          rfl
        have hdump' : Dumpable w'.store := by
          rw [hstore]
          exact ((saves_iff _ _).mp hs).2
        refine (register_new_iff hfind' ha').trans ?_
        rw [saves_iff, passes_writable hwrite'.1 hwrite'.2]
        have hhook : hookQuiet io' w.store = hookQuiet io' { counted w'.store with
            nodes := w'.store.nodes ++ [newNode w'.store.nextNodeId machine r.nodeKey r.host
              claim.ephemeral claim.token claim.shared ips] } := by
          rw [hstore]
          rfl
        rw [← hhook]
        refine ⟨fun h => ⟨hquiet, h.1, hdump⟩, fun h => ⟨h.2.1, ?_⟩⟩
        exact dumpable_joined hprint hm hkey hhost ha' hdump' htoken

end Saves

/-! ## 5. The handlers -/

section Handlers

variable {req : Json}

theorem stringAt_utf8 (h : req.dumps = true) (name : String) : utf8 (req.stringAt name) = true := by
  unfold Json.stringAt
  split
  · rename_i hf
    exact getString_utf8 (dumps_find _ h hf) rfl
  · rfl

theorem hostIn_utf8 (h : req.dumps = true) : utf8 (hostIn req) = true := by
  unfold hostIn
  split
  · rename_i hf
    split
    · exact stringAt_utf8 (dumps_find _ h hf) _
    · rfl
  · rfl

theorem endpointsFromReq_utf8 (h : req.dumps = true) : ∀ x ∈ endpointsFromReq req, utf8 x = true := by
  intro x hx
  unfold endpointsFromReq at hx
  split at hx
  · rename_i es hf
    obtain ⟨e, he, hs⟩ := List.mem_filterMap.mp hx
    have hdumps : e.dumps = true := dumps_items (dumps_find _ h hf) he
    cases e with
    | str t =>
      cases hs
      exact getString_utf8 hdumps rfl
    | null | bool _ | num _ | float _ _ | arr _ | obj _ => cases hs
  · cases hx

theorem utf8_machine (pub : Bytes32) : utf8 (formatKey .Machine pub) = true := by
  have hname : ∀ b ∈ ascii "mkey:", b.toNat ≤ 0x7f := by decide +kernel
  refine utf8_of_ascii fun b hb => ?_
  rcases List.mem_append.mp hb with hb | hb
  · exact hname b hb
  · exact hexEncode_ascii _ b hb

variable {I : Inet} {domain : Bytes} {env : Nat → Env} {g : Shared} {c : Conn}

theorem register_total_iff (hprint : ∀ b, utf8 (I.ntop6 b) = true)
    (hwrite : ∀ k, (env k).io.opens = true ∧ (env k).io.renames = true) {ips : Bytes × Bytes}
    (ha : addressFor I g.world.store.alloc g.world.store.nextIpIndex = .ok ips)
    (hm : utf8 c.machine = true) (hreq : req.dumps = true) :
    Answers I domain env g (onRegister c (some req)) c.replies ↔ registerServed env g.world c.machine req := by
  unfold registerServed
  cases hd : decodeRegister req with
  | error e =>
    rw [show onRegister c (some req) = c.thrown by simp only [onRegister, hd]]
    refine ⟨fun h => absurd h not_answers_thrown, fun h => ?_⟩
    cases hd.symm.trans (decodeRegister_iff.mpr ⟨h.1, rfl⟩)
  | ok r =>
    obtain ⟨htyped, rfl⟩ := decodeRegister_iff.mp hd
    have hkey : utf8 (registerReqOf req).nodeKey = true := stringAt_utf8 hreq _
    have hhost : utf8 (registerReqOf req).host = true := hostIn_utf8 hreq
    rw [show onRegister c (some req) = c.enter (.regFind (registerReqOf req)) by simp only [onRegister, hd]]
    simp only [htyped, true_and]
    refine (answers_regFind (c := c.enter (.regFind (registerReqOf req))) rfl).trans ?_
    cases hfind : findByMachine g.world.store c.machine with
    | some n =>
      rw [show findByMachine g.world.store (c.enter (.regFind (registerReqOf req))).machine = some n from hfind]
      refine (register_known_iff hfind).trans ?_
      rw [saves_iff, passes_writable (hwrite 1).1 (hwrite 1).2]
      exact and_congr Iff.rfl (dumpable_update (texts_reregistered hkey hhost _))
    | none =>
      rw [show findByMachine g.world.store (c.enter (.regFind (registerReqOf req))).machine = none from hfind]
      refine or_congr Iff.rfl ?_
      exact thenRegisters_iff hprint hm hkey hhost (hwrite 3) (hwrite 4) hfind ha

theorem map_total_iff {sid : Nat} (hwrite : ∀ k, (env k).io.opens = true ∧ (env k).io.renames = true)
    (hclock : ∀ k, utf8 (env k).now = true) (hreq : req.dumps = true) :
    Answers I domain env g (onMap c sid (some req)) c.replies ↔
      mapServed domain env g.world c.machine req := by
  unfold mapServed
  cases hd : decodeMap req with
  | error e =>
    rw [show onMap c sid (some req) = c.thrown by simp only [onMap, hd]]
    refine ⟨fun h => absurd h not_answers_thrown, fun h => ?_⟩
    cases hd.symm.trans (decodeMap_iff.mpr ⟨h.1, rfl⟩)
  | ok r =>
    obtain ⟨htyped, rfl⟩ := decodeMap_iff.mp hd
    simp only [htyped, true_and]
    cases hro : (mapReqOf req).readonly with
    | true =>
      rw [show onMap c sid (some req) = c.enter (.mapOnline sid (mapReqOf req)) by
        simp only [onMap, hd, hro, if_true]]
      refine (answers_mapOnline (c := c.enter (.mapOnline sid (mapReqOf req))) rfl).trans ?_
      cases hfind : findByMachine g.world.store c.machine with
      | none =>
        have hfind' : findByMachine (setOnline c.machine true g.world.store) c.machine = none := by
          rw [setOnline_unknown hfind, hfind]
        refine ⟨fun _ => trivial, fun _ => .inr fun self hself => ?_⟩
        cases hfind'.symm.trans hself
      | some n =>
        simp only [true_or, true_and, if_true]
        exact or_congr Iff.rfl (encodes_setOnline (hclock 2) hfind)
    | false =>
      rw [show onMap c sid (some req) = c.enter (.mapUpdate sid (mapReqOf req)) by
        simp only [onMap, hd, hro, Bool.false_eq_true, if_false]]
      cases hfind : findByMachine g.world.store c.machine with
      | none =>
        exact ⟨fun _ => trivial, fun _ => answers_mapUnknown
          (c := c.enter (.mapUpdate sid (mapReqOf req))) rfl hfind⟩
      | some n =>
        have hkey : utf8 (mapReqOf req).nodeKey = true := stringAt_utf8 hreq _
        have hdisco : utf8 (mapReqOf req).discoKey = true := stringAt_utf8 hreq _
        have hhost : utf8 (mapReqOf req).host = true := hostIn_utf8 hreq
        have hends := endpointsFromReq_utf8 hreq
        refine (answers_mapUpdate (c := c.enter (.mapUpdate sid (mapReqOf req))) rfl hfind).trans ?_
        simp only [Bool.false_eq_true, false_or, if_false]
        refine and_congr ?_ (or_congr Iff.rfl ?_)
        · rw [saves_iff, passes_writable (hwrite 0).1 (hwrite 0).2]
          exact and_congr Iff.rfl (dumpable_update (texts_mapUpdated hkey hdisco hhost hends))
        · rw [setOnline_updated]
          refine (encodes_update (hclock 4) ?_ hfind).trans (and_congr Iff.rfl ?_)
          · exact fun _ => rfl
          · exact shownClean_congr rfl rfl rfl (mapTexts_mapUpdated hkey hdisco hhost hends n)

end Handlers

/-- **When the handlers are total.** For every body, every machine key and every store with an address
    left and a file that can be written: `on_register` and `on_map` return normally after exactly one
    response exactly under the condition. `inet_ntop` and the clock print ASCII, and the parser accepts
    strings in UTF-8 only. -/
theorem handler_total_iff (I : Inet) (hprint : ∀ b, utf8 (I.ntop6 b) = true) (domain : Bytes)
    (env : Nat → Env) (hclock : ∀ k, utf8 (env k).now = true)
    (hwrite : ∀ k, (env k).io.opens = true ∧ (env k).io.renames = true) (g : Shared)
    (ips : Bytes × Bytes) (haddress : addressFor I g.world.store.alloc g.world.store.nextIpIndex = .ok ips)
    (pub : Bytes32) (c : Conn) (hmachine : c.machine = formatKey .Machine pub) (q : Request)
    (hbody : ∀ req, q.body = some req → req.dumps = true) :
    q.Total I domain env g c ↔ q.served domain env g.world c.machine := by
  have hm : utf8 c.machine = true := by
    rw [hmachine]
    exact utf8_machine pub
  cases q with
  | register body =>
    cases body with
    | none =>
      refine ⟨fun _ req h => ?_, fun _ => answers_answer .badRequest⟩
      cases h
    | some req =>
      refine (register_total_iff hprint hwrite haddress hm (hbody req rfl)).trans ?_
      refine ⟨fun h req' heq => ?_, fun h => h req rfl⟩
      cases heq
      exact h
  | map sid body =>
    cases body with
    | none =>
      refine ⟨fun _ req h => ?_, fun _ => answers_answer .badRequest⟩
      cases h
    | some req =>
      refine (map_total_iff hwrite hclock (hbody req rfl)).trans ?_
      refine ⟨fun h req' heq => ?_, fun h => h req rfl⟩
      cases heq
      exact h

/-- A coordinator that holds one key. -/
def oneKeyShared : Shared :=
  { world := { store := { path := ascii "state.json", alloc := pool16, keys := [{ key := ascii "wbkey-1" }] }
               file := none } }

/-- A connection of a machine that has no node there. -/
def firstConn : Conn := { machine := formatKey .Machine zero32 }

/-- A registration with that key is answered. -/
theorem handler_total_key :
    (Request.register (some (authBody (ascii "wbkey-1")))).Total .sample [] (fun _ => {}) oneKeyShared
      firstConn := by
  refine (handler_total_iff .sample utf8_sampleNtop6 [] (fun _ => {}) (fun _ => rfl) (fun _ => ⟨rfl, rfl⟩)
    oneKeyShared
    (ascii "100.64.0.1", ascii "fd7a:115c:a1e0::1") (by decide +kernel) zero32 firstConn rfl
    (.register (some (authBody (ascii "wbkey-1")))) ?_).mpr ?_
  · intro req h
    cases h
    decide +kernel
  · intro req h
    cases h
    have hnone : findByMachine oneKeyShared.world.store firstConn.machine = none := rfl
    refine ⟨by decide +kernel, ?_⟩
    rw [hnone]
    refine .inr ⟨by decide +kernel, .inr ⟨rfl, rfl, fun _ => ?_⟩⟩
    decide +kernel

/-- The body `[]`, and one whose `NodeKey` is a number: both parse, and both handlers throw. -/
theorem handler_throws :
    addressFor .sample oneKeyShared.world.store.alloc oneKeyShared.world.store.nextIpIndex =
        .ok (ascii "100.64.0.1", ascii "fd7a:115c:a1e0::1") ∧
      decodeRegister (.arr []) = .error (.typeError 306) ∧
      decodeMap (.obj [(ascii "NodeKey", .num 5)]) = .error (.typeError 302) ∧
      (∀ body ∈ [Json.arr [], .obj [(ascii "NodeKey", .num 5)]],
        ¬ (Request.register (some body)).Total .sample [] (fun _ => {}) oneKeyShared firstConn ∧
        ¬ (Request.map 1 (some body)).Total .sample [] (fun _ => {}) oneKeyShared firstConn) := by
  refine ⟨by decide +kernel, rfl, rfl, fun body hb => ?_⟩
  simp only [List.mem_cons, List.not_mem_nil, or_false] at hb
  rcases hb with rfl | rfl
  · exact ⟨not_answers_thrown (c := firstConn), not_answers_thrown (c := firstConn)⟩
  · exact ⟨not_answers_thrown (c := firstConn), not_answers_thrown (c := firstConn)⟩

end Wirebone
