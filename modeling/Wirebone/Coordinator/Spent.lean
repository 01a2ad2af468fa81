/-
  File:      Wirebone/Coordinator/Spent.lean
  Subject:   WHETHER A ONE-SHOT KEY IS SPENT ONLY ON A NODE.

  `on_register` looks the machine up, spends the key and makes the node under three separate locks.
  Between them the pool may run out, or another connection of the machine may come first.

  * `Grant`, `Ledger`, `ledgerStep` -- the machine of all connections, with a record that nothing of
    the code reads: which request spent which key, and the node it made;
  * `SpentOnNode` -- the property of a key; `spendsWell` -- the condition on a step;
  * `ShowsKey`, `Account` -- the invariant: memory and file show the key used exactly if a request holds
    or held it, and every request that is through has its node;
  * **`spent_on_node`** -- the property in every run of such steps; **`key_burnt`** -- two runs that
    spend a key on nothing.
-/
import Mathlib.Data.List.Pairwise
import Wirebone.Coordinator.Online
import Wirebone.Store.OneShot

namespace Wirebone

open ByteString FirstMatch Lts

/-! ## 1. The machine and the property -/

/-- A request has spent a key. -/
structure Grant where
  conn : Nat
  machine : Bytes
  key : Bytes
  claim : PreauthClaim
  /-- The place in `nodes_` of the node it has made. -/
  node : Option Nat := none

/-- The request is through: `register_node` has led from one store to the other. -/
def Grant.through (gr : Grant) (s s' : Store) : Grant :=
  { gr with node := if s.nodes.length < s'.nodes.length then some s.nodes.length else none }

structure Ledger where
  coord : Coord
  /-- The key that the request on a connection has spent, until `register_node` is through. -/
  pending : Nat → Option Grant := fun _ => none
  grants : List Grant := []

def Ledger.world (p : Ledger) : World := p.coord.shared.world

/-- The claim with which a connection is about to register a node. -/
def Conn.carries (c : Conn) : Option PreauthClaim :=
  match c.phase with
  | .regNode _ claim _ => some claim
  | _ => none

/-- What a step enters in the ledger. -/
def Ledger.after (p : Ledger) (s : Coord) : Event → Ledger
  | .run i _ =>
    match p.coord.conns[i]? with
    | none => { p with coord := s }
    | some c =>
      match c.phase with
      | .regCheck r =>
        match (s.conns[i]?).bind Conn.carries with
        | none => { p with coord := s }
        | some claim =>
          { p with
            coord := s
            pending := Function.update p.pending i
              (some { conn := i, machine := c.machine, key := r.auth, claim }) }
      | .regNode _ _ _ =>
        match p.pending i with
        | none => { p with coord := s }
        | some gr =>
          { coord := s
            pending := Function.update p.pending i none
            grants := p.grants ++ [gr.through p.world.store s.shared.world.store] }
      | _ => { p with coord := s }
  | _ => { p with coord := s }

def ledgerStep (I : Inet) (domain : Bytes) (p : Ledger) (e : Event) : Option Ledger :=
  (coordStep I domain p.coord e).map fun s => p.after s e

/-- Memory or the file shows the key used. -/
def Marked (K : Bytes) (w : World) : Prop :=
  (∃ k, w.store.keys.find? (·.key = K) = some k ∧ k.used = true) ∨
    ∃ k, fileListed K w = some k ∧ k.used = true

/-- **The key is spent only on a node**: if it is marked used, exactly one request has spent it, and
    this request has made a node with the claim of the key, which no other request has made. -/
def SpentOnNode (K : Bytes) (claim : PreauthClaim) (p : Ledger) : Prop :=
  Marked K p.world → ∃ gr q n, p.grants.filter (·.key = K) = [gr] ∧ gr.node = some q ∧
    p.world.store.nodes[q]? = some n ∧ n.machineKey = gr.machine ∧ n.token = claim.token ∧
    n.shared = claim.shared ∧ ∀ gr' ∈ p.grants, gr'.node = some q → gr' = gr

/-- A request has spent the key, and is through or about to register its node. -/
def Ledger.hasSpent (p : Ledger) (K : Bytes) : Bool :=
  (List.range p.coord.conns.length).any (fun i => (p.pending i).any (·.key = K)) ||
    p.grants.any (·.key = K)

/-- **The condition on a step**: no key list that shows `K` unused is installed once `K` is spent, the
    save that marks `K` returns, a request that has spent `K` finds no node of its machine and gets an
    address, and no key of the same text is made when memory has lost `K`. -/
def spendsWell (I : Inet) (K : Bytes) (p : Ledger) : Event → Bool
  | .run i env =>
    match p.coord.conns[i]? with
    | none => true
    | some c =>
      match c.phase with
      | .regInstall _ (some ks) => !unspent (listed K ks) || !p.hasSpent K
      | .regCheck r =>
        decide (r.auth ≠ K) || (claimOf env.nowUnix K p.world.store.keys).isNone ||
          saves env.io { p.world.store with keys := markUsed K p.world.store.keys }
      | .regNode _ _ _ =>
        match p.pending i with
        | none => true
        | some gr =>
          decide (gr.key ≠ K) || ((findByMachine p.world.store c.machine).isNone &&
            (addressFor I p.world.store.alloc p.world.store.nextIpIndex).isOk)
      | _ => true
  | .createKey _ raw _ _ _ _ _ =>
    decide (randomToken raw ≠ K) || (p.world.store.keys.find? (·.key = K)).isSome
  | _ => true

/-! ## 2. What memory and file show -/

/-- What memory and the file list for `K` meets `P`. -/
structure ShowsKey (K : Bytes) (P : PreauthKey → Prop) (w : World) : Prop where
  memory : ∀ k, w.store.keys.find? (·.key = K) = some k → P k
  file : ∀ k, fileListed K w = some k → P k

/-- An entry of a one-shot key with this claim, used exactly if `spent`. -/
def KeyEntry (claim : PreauthClaim) (spent : Prop) (k : PreauthKey) : Prop :=
  k.reusable = false ∧ k.claim = claim ∧ (k.used = true ↔ spent)

section Showing

variable {K : Bytes} {P : PreauthKey → Prop} {w w' : World} {s : Store} {io : SaveIo} {α : Type} {a : α}
  {r : Except Exn α}

theorem entry_cut {claim : PreauthClaim} {spent : Prop} (k : PreauthKey) (h : KeyEntry claim spent k) :
    KeyEntry claim spent (cutKey k) := h

theorem ShowsKey.congr (h : ShowsKey K P w) (hkeys : w'.store.keys = w.store.keys)
    (hpath : w'.store.path = w.store.path) (hfile : w'.file = w.file) : ShowsKey K P w' := by
  refine ⟨fun k hk => h.memory k ?_, fun k hk => h.file k ?_⟩
  · rw [← hkeys]
    exact hk
  · rw [← fileListed_congr hpath hfile]
    exact hk

/-- A section that ends in `save_locked` and leaves the entry of `K`. -/
theorem ShowsKey.commit (hcut : ∀ k, P k → P (cutKey k)) (h : ShowsKey K P w) (hc : commit io w s a = (r, w'))
    (hpath : s.path = w.store.path)
    (hkeys : s.keys.find? (·.key = K) = w.store.keys.find? (·.key = K)) : ShowsKey K P w' := by
  have hmem : ∀ k, s.keys.find? (·.key = K) = some k → P k := by
    rw [hkeys]
    exact h.memory
  refine ⟨?_, file_of_commit hcut hc hpath h.file hmem⟩
  rw [(commit_cases hc).1]
  exact hmem

theorem ShowsKey.install {ks : Json} {res : Except Exn Unit} (h : ShowsKey K P w)
    (hi : installKeys ks w.store = (res, s)) (hks : ∀ k, listed K ks = some k → P k) :
    ShowsKey K P { w with store := s } := by
  have hs := installKeys_store hi
  refine ⟨fun k hk => hks k ?_, fun k hk => h.file k ?_⟩
  · rw [← hk]
    show _ = s.keys.find? _
    rw [hs]
    rfl
  · rw [← hk]
    have hpath : s.path = w.store.path := by rw [hs]
    have hcongr : fileListed K { w with store := s } = fileListed K w := fileListed_congr hpath rfl
    exact hcongr.symm

theorem ShowsKey.updateMapInfo (hcut : ∀ k, P k → P (cutKey k)) (h : ShowsKey K P w)
    {m nodeKey discoKey hostname : Bytes} {endpoints : List Bytes} {res : Except Exn Unit}
    (hu : updateMapInfo io m nodeKey discoKey hostname endpoints w = (res, w')) : ShowsKey K P w' := by
  rcases updateMapInfo_cases hu with ⟨_, _, rfl⟩ | ⟨n, _, hc⟩
  · exact h
  · exact h.commit hcut hc rfl rfl

theorem ShowsKey.registerNode {I : Inet} (hcut : ∀ k, P k → P (cutKey k)) (h : ShowsKey K P w)
    {m nodeKey hostname token : Bytes} {ephemeral shared : Bool} {res : Except Exn NodeState}
    (hr : registerNode I io m nodeKey hostname ephemeral token shared w = (res, w')) : ShowsKey K P w' := by
  rcases registerNode_cases hr with ⟨n, _, hc⟩ | ⟨_, _, rfl⟩ | ⟨ips, _, _, hc⟩
  · exact h.commit hcut hc rfl rfl
  · exact h.congr rfl rfl rfl
  · exact h.commit hcut hc rfl rfl

/-- The check of another key. -/
theorem ShowsKey.checkOther (hcut : ∀ k, P k → P (cutKey k)) (h : ShowsKey K P w) {now : Int} {key : Bytes}
    {res : Except Exn (Option PreauthClaim)} (hne : key ≠ K)
    (hc : checkAndMark io now key w = (res, w')) : ShowsKey K P w' := by
  rcases checkAndMark_cases hc with ⟨_, rfl⟩ | ⟨k, _, _, _, hcommit⟩
  · exact h
  · exact h.commit hcut hcommit rfl (find?_markUsed_other hne _)

end Showing

/-! ## 3. The invariant -/

/-- A request has spent the key. -/
def Ledger.Granted (p : Ledger) (K : Bytes) : Prop :=
  (∃ i gr, p.pending i = some gr ∧ gr.key = K) ∨ ∃ gr ∈ p.grants, gr.key = K

/-- The node at place `q` is of this machine and this claim. -/
def MadeFor (s : Store) (q : Nat) (machine : Bytes) (claim : PreauthClaim) : Prop :=
  ∃ d, (identities s)[q]? = some d ∧ d.machineKey = machine ∧ d.token = claim.token ∧
    d.shared = claim.shared

/-- **The ledger is in order**, for every key: a request that has spent one is about to register its
    node, and no two requests have made the same node. -/
structure Orderly (p : Ledger) : Prop where
  held : ∀ i gr, p.pending i = some gr → ∃ c r, p.coord.conns[i]? = some c ∧
    c.phase = .regNode r gr.claim gr.claim.ephemeral ∧ c.machine = gr.machine
  made : ∀ gr ∈ p.grants, ∀ q, gr.node = some q → q < (identities p.world.store).length
  own : p.grants.Pairwise fun a b => ∀ q, a.node = some q → b.node ≠ some q

/-- **The account of the key** `K` with this claim. -/
structure Account (K : Bytes) (claim : PreauthClaim) (p : Ledger) : Prop where
  shows : ShowsKey K (KeyEntry claim (p.Granted K)) p.world
  images : ∀ c ∈ p.coord.conns, ∀ r ks, c.phase = .regInstall r (some ks) → ∀ k, listed K ks = some k →
    k.reusable = false ∧ k.claim = claim ∧ (k.used = true → p.Granted K)
  pending : ∀ i gr, p.pending i = some gr → gr.key = K → gr.claim = claim ∧
    (∀ gr' ∈ p.grants, gr'.key ≠ K) ∧ ∀ j gr', p.pending j = some gr' → gr'.key = K → j = i
  once : (p.grants.filter (·.key = K)).length ≤ 1
  spent : ∀ gr ∈ p.grants, gr.key = K →
    ∃ q, gr.node = some q ∧ MadeFor p.world.store q gr.machine claim

section Steps

variable {K : Bytes} {claim : PreauthClaim} {p : Ledger} {s : Coord} {i : Nat} {c c' : Conn}

theorem MadeFor.mono {s s' : Store} {q : Nat} {machine : Bytes} (hi : identities s <+: identities s')
    (h : MadeFor s q machine claim) : MadeFor s' q machine claim := by
  obtain ⟨d, hd, hrest⟩ := h
  obtain ⟨more, hmore⟩ := hi
  refine ⟨d, ?_, hrest⟩
  rw [← hmore, List.getElem?_append_left (List.getElem?_eq_some_iff.mp hd).1]
  exact hd

/-- A connection that does not carry a claim has nothing pending. -/
theorem Orderly.not_pending (h : Orderly p) (hget : p.coord.conns[i]? = some c) (hc : c.carries = none) :
    p.pending i = none := by
  cases hp : p.pending i with
  | none => rfl
  | some gr =>
    obtain ⟨c₁, r, hc₁, hph, _⟩ := h.held i gr hp
    obtain rfl := Option.some.inj (hget.symm.trans hc₁)
    simp only [Conn.carries, hph] at hc
    cases hc

/-- Steps that enter nothing: connection `i`, which has nothing pending, moves on. -/
theorem Orderly.moved (h : Orderly p) (hpending : p.pending i = none)
    (hconns : s.conns = p.coord.conns.set i c')
    (hids : identities p.world.store <+: identities s.shared.world.store) :
    Orderly { p with coord := s } := by
  refine ⟨fun j gr hj => ?_, fun gr hgr q hq => ?_, h.own⟩
  · obtain ⟨c₁, r, hc₁, hrest⟩ := h.held j gr hj
    refine ⟨c₁, r, ?_, hrest⟩
    show s.conns[j]? = _
    rw [hconns, List.getElem?_set_ne, hc₁]
    rintro rfl
    cases hpending.symm.trans hj
  · exact Nat.lt_of_lt_of_le (h.made gr hgr q hq) hids.length_le

/-- The nodes that were made are still there. -/
theorem Account.spent_mono {s : Store} (h : Account K claim p)
    (hids : identities p.world.store <+: identities s) :
    ∀ gr ∈ p.grants, gr.key = K → ∃ q, gr.node = some q ∧ MadeFor s q gr.machine claim := by
  intro gr hgr hkey
  obtain ⟨q, hq, hmade⟩ := h.spent gr hgr hkey
  exact ⟨q, hq, hmade.mono hids⟩

/-- A connection that moves on without an image leaves the images under way. -/
theorem Account.images_mono {spent : Prop} (h : Account K claim p)
    (hconns : ∀ d ∈ s.conns, d ∈ p.coord.conns ∨ d = c')
    (himage : ∀ r ks, c'.phase ≠ .regInstall r (some ks)) (hspent : p.Granted K → spent) :
    ∀ c ∈ s.conns, ∀ r ks, c.phase = .regInstall r (some ks) → ∀ k, listed K ks = some k →
      k.reusable = false ∧ k.claim = claim ∧ (k.used = true → spent) := by
  intro d hd r ks hph k hk
  rcases hconns d hd with hd | rfl
  · obtain ⟨h1, h2, h3⟩ := h.images d hd r ks hph k hk
    exact ⟨h1, h2, fun hu => hspent (h3 hu)⟩
  · exact absurd hph (himage r ks)

theorem Account.moved (h : Account K claim p) (c' : Conn)
    (hconns : ∀ d ∈ s.conns, d ∈ p.coord.conns ∨ d = c')
    (hshows : ShowsKey K (KeyEntry claim (p.Granted K)) s.shared.world)
    (hids : identities p.world.store <+: identities s.shared.world.store)
    (himage : ∀ r ks, c'.phase = .regInstall r (some ks) → ∀ k, listed K ks = some k →
      k.reusable = false ∧ k.claim = claim ∧ (k.used = true → p.Granted K)) :
    Account K claim { p with coord := s } := by
  refine ⟨hshows, fun d hd r ks hph k hk => ?_, h.pending, h.once, h.spent_mono hids⟩
  rcases hconns d hd with hd | rfl
  · exact h.images d hd r ks hph k hk
  · exact himage r ks hph k hk

/-! ### A key is spent -/

theorem update_cases {f : Nat → Option Grant} {v : Option Grant} {j : Nat} {gr : Grant}
    (h : Function.update f i v j = some gr) : (j = i ∧ v = some gr) ∨ (j ≠ i ∧ f j = some gr) := by
  by_cases hji : j = i
  · subst hji
    rw [Function.update_self] at h
    exact .inl ⟨rfl, h⟩
  · rw [Function.update_of_ne hji] at h
    exact .inr ⟨hji, h⟩

theorem granted_pending (K : Bytes) (s : Coord) (gr : Grant) (hpending : p.pending i = none) :
    ({ p with coord := s, pending := Function.update p.pending i (some gr) } : Ledger).Granted K ↔
      gr.key = K ∨ p.Granted K := by
  constructor
  · intro h
    rcases h with ⟨j, gr', hj, hkey⟩ | h
    · rcases update_cases hj with ⟨_, hgr⟩ | ⟨_, hj⟩
      · cases hgr
        exact .inl hkey
      · exact .inr (.inl ⟨j, gr', hj, hkey⟩)
    · exact .inr (.inr h)
  · intro h
    rcases h with hkey | ⟨j, gr', hj, hkey⟩ | h
    · exact .inl ⟨i, gr, Function.update_self .., hkey⟩
    · refine .inl ⟨j, gr', ?_, hkey⟩
      show Function.update p.pending i (some gr) j = some gr'
      rw [Function.update_of_ne, hj]
      intro hji
      subst hji
      cases hpending.symm.trans hj
    · exact .inr h

theorem ShowsKey.iff {a b : Prop} {w : World} (hab : a ↔ b) (h : ShowsKey K (KeyEntry claim a) w) :
    ShowsKey K (KeyEntry claim b) w := by
  rw [propext hab] at h
  exact h

theorem Orderly.granted {gr : Grant} {r : RegisterReq} (h : Orderly p) (hget : p.coord.conns[i]? = some c)
    (hpending : p.pending i = none) (hconns : s.conns = p.coord.conns.set i c')
    (hids : identities p.world.store <+: identities s.shared.world.store)
    (hph : c'.phase = .regNode r gr.claim gr.claim.ephemeral) (hm : c'.machine = gr.machine) :
    Orderly { p with coord := s, pending := Function.update p.pending i (some gr) } := by
  have hmoved := h.moved hpending hconns hids
  refine ⟨fun j gr' hj => ?_, hmoved.made, h.own⟩
  rcases update_cases hj with ⟨rfl, hgr⟩ | ⟨_, hj⟩
  · cases hgr
    refine ⟨c', r, ?_, hph, hm⟩
    show s.conns[j]? = _
    rw [hconns, List.getElem?_set_self (List.getElem?_eq_some_iff.mp hget).1]
  · exact hmoved.held j gr' hj

/-- A check that grants `K` has found it unused, so nobody had spent it; after it memory and the file
    show it used. -/
theorem Account.checked {io : SaveIo} {now : Int} {cl : PreauthClaim} {w : World} (h : Account K claim p)
    (hc : checkAndMark io now K p.world = (.ok (some cl), w)) :
    ¬ p.Granted K ∧ cl = claim ∧ ShowsKey K (KeyEntry claim True) w := by
  rcases checkAndMark_cases hc with ⟨hr, _⟩ | ⟨k, hk, _, hspend, hcommit⟩
  · cases hr
  · obtain ⟨hone, hclaim, hused⟩ := h.shows.memory k hk
    have hmem : ∀ k', (markUsed K p.world.store.keys).find? (·.key = K) = some k' →
        KeyEntry claim True k' := by
      intro k' hk'
      rw [find?_markUsed_self, hk] at hk'
      cases hk'
      exact ⟨hone, hclaim, iff_of_true rfl trivial⟩
    refine ⟨fun hg => ?_, ?_, ?_, file_of_saved entry_cut hcommit hmem⟩
    · rcases hspend with hr | hu
      · rw [hone] at hr
        cases hr
      · rw [hused.mpr hg] at hu
        cases hu
    · rcases (commit_cases hcommit).2.1 with hr | ⟨e, hr⟩
      · cases hr
        exact hclaim
      · cases hr
    · rw [(commit_cases hcommit).1]
      exact hmem

/-- **A request spends a key.** -/
theorem Account.granted {io : SaveIo} {now : Int} {r : RegisterReq} {cl : PreauthClaim} {machine : Bytes}
    (h : Account K claim p) (hpending : p.pending i = none)
    (hconns : ∀ d ∈ s.conns, d ∈ p.coord.conns ∨ d = c')
    (hids : identities p.world.store <+: identities s.shared.world.store)
    (himage : ∀ r ks, c'.phase ≠ .regInstall r (some ks))
    (hc : checkAndMark io now r.auth p.world = (.ok (some cl), s.shared.world)) :
    Account K claim { p with
      coord := s
      pending := Function.update p.pending i (some { conn := i, machine, key := r.auth, claim := cl }) } := by
  have hgranted := granted_pending K s { conn := i, machine, key := r.auth, claim := cl } hpending
  by_cases hkey : r.auth = K
  · rw [hkey] at hc
    obtain ⟨hnot, rfl, hshows⟩ := h.checked hc
    have htrue := hgranted.trans (iff_true_intro (.inl hkey))
    refine ⟨hshows.iff htrue.symm, ?_, fun j gr hj hgrkey => ?_, h.once, h.spent_mono hids⟩
    · rw [propext htrue]
      exact h.images_mono hconns himage fun _ => trivial
    · -- nobody else has spent `K`
      have honly : ∀ j gr, Function.update p.pending i
          (some { conn := i, machine, key := r.auth, claim := cl }) j = some gr → gr.key = K →
          j = i ∧ gr.claim = cl := by
        intro j gr hj hk
        rcases update_cases hj with ⟨hji, hgr⟩ | ⟨_, hj⟩
        · cases hgr
          exact ⟨hji, rfl⟩
        · exact absurd (.inl ⟨j, gr, hj, hk⟩) hnot
      obtain ⟨rfl, hgrclaim⟩ := honly j gr hj hgrkey
      exact ⟨hgrclaim, fun gr' hgr' hk => hnot (.inr ⟨gr', hgr', hk⟩),
        fun j' gr' hj' hk => (honly j' gr' hj' hk).1⟩
  · have hshows : ShowsKey K (KeyEntry claim (p.Granted K)) s.shared.world :=
      h.shows.checkOther entry_cut hkey hc
    have hiff := hgranted.trans (or_iff_right hkey)
    refine ⟨hshows.iff hiff.symm, ?_, fun j gr hj hgrkey => ?_, h.once, h.spent_mono hids⟩
    · rw [propext hiff]
      exact h.images_mono hconns himage id
    · have hold : ∀ j gr, Function.update p.pending i
          (some { conn := i, machine, key := r.auth, claim := cl }) j = some gr → gr.key = K →
          p.pending j = some gr := by
        intro j gr hj hk
        rcases update_cases hj with ⟨_, hgr⟩ | ⟨_, hj⟩
        · cases hgr
          exact absurd hk hkey
        · exact hj
      obtain ⟨h1, h2, h3⟩ := h.pending j gr (hold j gr hj hgrkey) hgrkey
      exact ⟨h1, h2, fun j' gr' hj' hk => h3 j' gr' (hold j' gr' hj' hk) hk⟩

/-! ### The request is through -/

theorem granted_settled (K : Bytes) (s : Coord) {gr : Grant} (gr' : Grant) (hp : p.pending i = some gr)
    (hkey : gr'.key = gr.key) :
    ({ coord := s, pending := Function.update p.pending i none, grants := p.grants ++ [gr'] } :
      Ledger).Granted K ↔ p.Granted K := by
  constructor
  · intro h
    rcases h with ⟨j, g, hj, hk⟩ | ⟨g, hg, hk⟩
    · rcases update_cases hj with ⟨_, hnone⟩ | ⟨_, hj⟩
      · cases hnone
      · exact .inl ⟨j, g, hj, hk⟩
    · rcases List.mem_append.mp hg with hg | hg
      · exact .inr ⟨g, hg, hk⟩
      · rw [List.mem_singleton.mp hg, hkey] at hk
        exact .inl ⟨i, gr, hp, hk⟩
  · intro h
    rcases h with ⟨j, g, hj, hk⟩ | ⟨g, hg, hk⟩
    · by_cases hji : j = i
      · subst hji
        obtain rfl := Option.some.inj (hp.symm.trans hj)
        exact .inr ⟨gr', List.mem_append_right _ (List.mem_singleton.mpr rfl), hkey.trans hk⟩
      · refine .inl ⟨j, g, ?_, hk⟩
        show Function.update p.pending i none j = some g
        rw [Function.update_of_ne hji, hj]
    · exact .inr ⟨g, List.mem_append_left _ hg, hk⟩

theorem identities_length (s : Store) : (identities s).length = s.nodes.length := List.length_map ..

theorem through_node {gr : Grant} {s s' : Store} {q : Nat} (h : (gr.through s s').node = some q) :
    q = s.nodes.length ∧ q < s'.nodes.length := by
  unfold Grant.through at h
  split at h
  · cases h
    exact ⟨rfl, by assumption⟩
  · cases h

theorem Orderly.settled {gr : Grant} (h : Orderly p) (hconns : s.conns = p.coord.conns.set i c')
    (hids : identities p.world.store <+: identities s.shared.world.store) :
    Orderly { coord := s, pending := Function.update p.pending i none
              grants := p.grants ++ [gr.through p.world.store s.shared.world.store] } := by
  refine ⟨fun j g hj => ?_, fun g hg q hq => ?_, ?_⟩
  · rcases update_cases hj with ⟨_, hnone⟩ | ⟨hji, hj⟩
    · cases hnone
    · obtain ⟨c₁, r, hc₁, hrest⟩ := h.held j g hj
      refine ⟨c₁, r, ?_, hrest⟩
      show s.conns[j]? = _
      rw [hconns, List.getElem?_set_ne (Ne.symm hji), hc₁]
  · rcases List.mem_append.mp hg with hg | hg
    · exact Nat.lt_of_lt_of_le (h.made g hg q hq) hids.length_le
    · rw [List.mem_singleton.mp hg] at hq
      show q < (identities s.shared.world.store).length
      rw [identities_length]
      exact (through_node hq).2
  · refine List.pairwise_append.mpr ⟨h.own, List.pairwise_singleton _ _, ?_⟩
    -- a node made before has a place below the length
    intro a ha b hb q hqa hqb
    rw [List.mem_singleton.mp hb] at hqb
    have hlt := h.made a ha q hqa
    rw [identities_length, (through_node hqb).1] at hlt
    exact Nat.lt_irrefl _ hlt

/-- **The request that has spent a key is through.** Where the key is `K`, it has made its node. -/
theorem Account.settled {gr : Grant} (h : Account K claim p) (hp : p.pending i = some gr)
    (hconns : ∀ d ∈ s.conns, d ∈ p.coord.conns ∨ d = c')
    (hids : identities p.world.store <+: identities s.shared.world.store)
    (himage : ∀ r ks, c'.phase ≠ .regInstall r (some ks))
    (hshows : ShowsKey K (KeyEntry claim (p.Granted K)) s.shared.world)
    (hmade : gr.key = K → ∃ q, (gr.through p.world.store s.shared.world.store).node = some q ∧
      MadeFor s.shared.world.store q gr.machine claim) :
    Account K claim { coord := s, pending := Function.update p.pending i none
                      grants := p.grants ++ [gr.through p.world.store s.shared.world.store] } := by
  have hiff := granted_settled K s (gr.through p.world.store s.shared.world.store) hp rfl
  refine ⟨hshows.iff hiff.symm, ?_, fun j g hj hk => ?_, ?_, fun g hg hk => ?_⟩
  · rw [propext hiff]
    exact h.images_mono hconns himage id
  · have hold : ∀ j g, Function.update p.pending i none j = some g → j ≠ i ∧ p.pending j = some g := by
      intro j g hj
      rcases update_cases hj with ⟨_, hnone⟩ | hj
      · cases hnone
      · exact hj
    obtain ⟨hji, hj⟩ := hold j g hj
    obtain ⟨h1, h2, h3⟩ := h.pending j g hj hk
    refine ⟨h1, fun g' hg' => ?_, fun j' g' hj' hk' => h3 j' g' (hold j' g' hj').2 hk'⟩
    rcases List.mem_append.mp hg' with hg' | hg'
    · exact h2 g' hg'
    · rw [List.mem_singleton.mp hg']
      exact fun hkey => hji (h3 i gr hp hkey).symm
  · show ((p.grants ++ [gr.through p.world.store s.shared.world.store]).filter _).length ≤ 1
    rw [List.filter_append, List.length_append]
    by_cases hkey : gr.key = K
    · have hnone : p.grants.filter (·.key = K) = [] := by
        rw [List.filter_eq_nil_iff]
        intro g hg
        simpa using (h.pending i gr hp hkey).2.1 g hg
      rw [hnone, List.length_nil, Nat.zero_add]
      exact List.length_filter_le _ _
    · have hnone : [gr.through p.world.store s.shared.world.store].filter (·.key = K) = [] := by
        rw [List.filter_eq_nil_iff]
        intro g hg
        obtain rfl := List.mem_singleton.mp hg
        have hother : (gr.through p.world.store s.shared.world.store).key ≠ K := hkey
        simpa using hother
      rw [hnone]
      exact h.once
  · rcases List.mem_append.mp hg with hg | hg
    · exact h.spent_mono hids g hg hk
    · rw [List.mem_singleton.mp hg] at hk ⊢
      exact hmade hk

end Steps

/-! ## 4. The steps -/

section Sections

variable {I : Inet} {domain : Bytes} {env : Env} {g g' : Shared} {c c' : Conn} {K : Bytes}
  {P : PreauthKey → Prop}

/-- What `c` is about to install lists for `K` only what meets `P`. -/
def ImageShows (K : Bytes) (P : PreauthKey → Prop) (c : Conn) : Prop :=
  ∀ r ks, c.phase = .regInstall r (some ks) → ∀ k, listed K ks = some k → P k

theorem imageShows_of (h : ∀ r ks, c.phase ≠ .regInstall r (some ks)) : ImageShows K P c :=
  fun r ks hph => absurd hph (h r ks)

/-- Every section but the check leaves what memory and the file show of `K`. -/
theorem shows_section (hcut : ∀ k, P k → P (cutKey k)) (h : advance I domain env g c = some (g', c'))
    (hcheck : ∀ r, c.phase ≠ .regCheck r) (hshows : ShowsKey K P g.world) (himage : ImageShows K P c) :
    ShowsKey K P g'.world ∧ ImageShows K P c' := by
  cases advance_branch h with
  | regRead r hph =>
    refine ⟨hshows, fun r' ks hph' k hk => hshows.file k ?_⟩
    have hread : readImage g.world = some ks := by
      injection hph'
    rw [fileListed, hread]
    exact hk
  | regBroken r ks _ _ hph hi =>
    exact ⟨hshows.install hi (himage r ks hph), imageShows_of fun _ _ hne => by cases hne⟩
  | regInstalled r ks _ _ hph hi =>
    exact ⟨hshows.install hi (himage r ks hph), imageShows_of fun _ _ hne => by cases hne⟩
  | checkThrew r _ _ hph | refused r _ hph | granted r _ _ hph => exact absurd hph (hcheck r)
  | nodeThrew _ _ _ _ w _ hr | nodeMade _ _ _ _ w _ hr =>
    refine ⟨?_, imageShows_of fun _ _ hne => by cases hne⟩
    rw [registered_world]
    exact hshows.registerNode hcut hr
  | updateThrew _ _ _ _ _ hu | updated _ _ _ _ _ hu =>
    exact ⟨hshows.updateMapInfo hcut hu, imageShows_of fun _ _ hne => by cases hne⟩
  | onlineOnly | online | byeOnline =>
    exact ⟨hshows.congr rfl rfl rfl, imageShows_of fun _ _ hne => by cases hne⟩
  | regKnown | regDenied | regAuth | regNoImage | regBump | mapBump | unauthorized | found
  | encodeThrew | oneShot | streamed | mapLive | tickEnd | tickFound | tickGone | keepaliveThrew
  | keepalive | tickSkip | tickThrew | tickLost | tickSent | byeBump =>
    exact ⟨hshows, imageShows_of fun _ _ hne => by cases hne⟩

/-- The section of the check: it spends the key, or the request ends. -/
theorem advance_check {r : RegisterReq} (hph : c.phase = .regCheck r)
    (h : advance I domain env g c = some (g', c')) :
    (∃ claim, checkAndMark env.io env.nowUnix r.auth g.world = (.ok (some claim), g'.world) ∧
      c' = c.enter (.regNode r claim claim.ephemeral)) ∨
    ∃ result, checkAndMark env.io env.nowUnix r.auth g.world = (result, g'.world) ∧
      (result = .ok none ∨ ∃ e, result = .error e) ∧ c'.carries = none ∧
      ∀ r ks, c'.phase ≠ .regInstall r (some ks) := by
  simp only [advance, hph] at h
  rcases hc : checkAndMark env.io env.nowUnix r.auth g.world with ⟨e | _ | claim, w⟩
  · rw [hc] at h
    cases h
    exact .inr ⟨_, rfl, .inr ⟨e, rfl⟩, rfl, fun _ _ hne => by cases hne⟩
  · rw [hc] at h
    cases h
    exact .inr ⟨_, rfl, .inl rfl, rfl, fun _ _ hne => by cases hne⟩
  · rw [hc] at h
    cases h
    exact .inl ⟨claim, rfl, rfl⟩

/-- A check that spends nothing. -/
theorem shows_unclaimed (hcut : ∀ k, P k → P (cutKey k)) {r : RegisterReq}
    {result : Except Exn (Option PreauthClaim)} {w : World}
    (hc : checkAndMark env.io env.nowUnix r.auth g.world = (result, w))
    (hresult : result = .ok none ∨ ∃ e, result = .error e)
    (hok : r.auth ≠ K ∨ claimOf env.nowUnix K g.world.store.keys = none ∨
      saves env.io { g.world.store with keys := markUsed K g.world.store.keys } = true)
    (hshows : ShowsKey K P g.world) : ShowsKey K P w := by
  by_cases hkey : r.auth = K
  · rcases checkAndMark_cases hc with ⟨_, rfl⟩ | ⟨k, hk, hexp, hspend, hcommit⟩
    · exact hshows
    · -- the key could be claimed, so the save has thrown
      exfalso
      have hsome : claimOf env.nowUnix r.auth g.world.store.keys = some k.claim :=
        claimOf_some.mpr ⟨k, hk, hexp, hspend, rfl⟩
      rw [hkey] at hsome hcommit
      rcases hok with hne | hnone | hsaves
      · exact hne hkey
      · rw [hnone] at hsome
        cases hsome
      · have hreturned := commit_saves hcommit hsaves
        rcases hresult with hr | ⟨e, hr⟩
        · rw [hr] at hreturned
          cases hreturned
        · rw [hr] at hreturned
          cases hreturned
  · exact hshows.checkOther hcut hkey hc

/-- A request whose machine has no node, and which gets an address, makes its node. -/
theorem registerNode_made {r : RegisterReq} {claim : PreauthClaim} {ephemeral : Bool}
    {result : Except Exn NodeState} {w w' : World} {machine : Bytes}
    (hr : registerNode I env.io machine r.nodeKey r.host ephemeral claim.token claim.shared w =
      (result, w'))
    (hnone : findByMachine w.store machine = none)
    (haddr : (addressFor I w.store.alloc w.store.nextIpIndex).isOk = true) :
    w.store.nodes.length < w'.store.nodes.length ∧
      MadeFor w'.store w.store.nodes.length machine claim := by
  rcases registerNode_cases hr with ⟨n, hn, _⟩ | ⟨_, ⟨e, _, he⟩, _⟩ | ⟨ips, _, _, hc⟩
  · rw [hnone] at hn
    cases hn
  · rw [he] at haddr
    cases haddr
  · have hs := (commit_cases hc).1
    have hnodes : w'.store.nodes = w.store.nodes ++
        [newNode w.store.nextNodeId machine r.nodeKey r.host ephemeral claim.token claim.shared ips] := by
      rw [hs]
    refine ⟨?_, (newNode w.store.nextNodeId machine r.nodeKey r.host ephemeral claim.token claim.shared
      ips).identity, ?_, rfl, rfl, rfl⟩
    · rw [hnodes, List.length_append]
      exact Nat.lt_succ_self _
    · rw [identities, hnodes, List.getElem?_map, List.getElem?_concat_length]
      rfl

end Sections

section Ledger

variable {I : Inet} {domain : Bytes} {env : Env} {K : Bytes} {claim : PreauthClaim} {p p' : Ledger}
  {s : Coord} {i : Nat} {c c' : Conn} {e : Event}

theorem Orderly.hasSpent (h : Orderly p) (hg : p.Granted K) : p.hasSpent K = true := by
  rw [Ledger.hasSpent, Bool.or_eq_true, List.any_eq_true, List.any_eq_true]
  rcases hg with ⟨i, gr, hp, hkey⟩ | ⟨gr, hgr, hkey⟩
  · obtain ⟨c, r, hc, _⟩ := h.held i gr hp
    refine .inl ⟨i, List.mem_range.mpr (List.getElem?_eq_some_iff.mp hc).1, ?_⟩
    rw [hp]
    simpa using hkey
  · exact .inr ⟨gr, hgr, by simpa using hkey⟩

/-- What a connection is about to install shows of `K` what memory and the file do. -/
theorem Account.image (h : Account K claim p) (horder : Orderly p) (hget : p.coord.conns[i]? = some c)
    (hok : spendsWell I K p (.run i env) = true) : ImageShows K (KeyEntry claim (p.Granted K)) c := by
  intro r ks hph k hk
  obtain ⟨hone, hclaim, hused⟩ := h.images c (List.mem_of_getElem? hget) r ks hph k hk
  refine ⟨hone, hclaim, hused, fun hg => ?_⟩
  simp only [spendsWell, hget, hph, horder.hasSpent hg, hk, Bool.not_true, Bool.or_false] at hok
  simpa [unspent] using hok

theorem after_quiet (hget : p.coord.conns[i]? = some c) (hcheck : ∀ r, c.phase ≠ .regCheck r)
    (hpending : p.pending i = none) : p.after s (.run i env) = { p with coord := s } := by
  simp only [Ledger.after, hget]
  cases hph : c.phase with
  | regCheck r => exact absurd hph (hcheck r)
  | regNode r cl e => simp only [hpending]
  | idle | regFind | regRead | regInstall | regBump | mapUpdate | mapBump | mapOnline | mapFind
  | mapNodes | mapLive | tickFind | tickNodes | byeOnline | byeBump | closed => rfl

theorem after_through {r : RegisterReq} {cl : PreauthClaim} {ephemeral : Bool} {gr : Grant}
    (hget : p.coord.conns[i]? = some c) (hph : c.phase = .regNode r cl ephemeral)
    (hp : p.pending i = some gr) :
    p.after s (.run i env) =
      { coord := s, pending := Function.update p.pending i none
        grants := p.grants ++ [gr.through p.world.store s.shared.world.store] } := by
  simp only [Ledger.after, hget, hph, hp]

theorem after_check {r : RegisterReq} (hget : p.coord.conns[i]? = some c) (hph : c.phase = .regCheck r)
    (hget' : s.conns[i]? = some c') :
    p.after s (.run i env) = match c'.carries with
      | none => { p with coord := s }
      | some cl => { p with
          coord := s
          pending := Function.update p.pending i
            (some { conn := i, machine := c.machine, key := r.auth, claim := cl }) } := by
  simp only [Ledger.after, hget, hph, hget', Option.bind_some]

theorem ledger_check {r : RegisterReq} (h : Orderly p) (hacc : Account K claim p)
    (hget : p.coord.conns[i]? = some c) (hph : c.phase = .regCheck r)
    (hok : spendsWell I K p (.run i env) = true)
    (hadv : advance I domain env p.coord.shared c = some (s.shared, c'))
    (hconns : s.conns = p.coord.conns.set i c') :
    Orderly (p.after s (.run i env)) ∧ Account K claim (p.after s (.run i env)) := by
  have hids : identities p.world.store <+: identities s.shared.world.store := (advance_effect hadv).grows.1
  have hmem : ∀ d ∈ s.conns, d ∈ p.coord.conns ∨ d = c' := by
    rw [hconns]
    exact fun d hd => List.mem_or_eq_of_mem_set hd
  have hpending : p.pending i = none := h.not_pending hget (by simp only [Conn.carries, hph])
  have hget' : s.conns[i]? = some c' := by
    rw [hconns, List.getElem?_set_self (List.getElem?_eq_some_iff.mp hget).1]
  rw [after_check hget hph hget']
  rcases advance_check hph hadv with ⟨cl, hc, rfl⟩ | ⟨result, hc, hresult, hcarries, himage⟩
  · exact ⟨h.granted hget hpending hconns hids rfl rfl,
      hacc.granted hpending hmem hids (fun _ _ hne => by cases hne) hc⟩
  · rw [hcarries]
    simp only [spendsWell, hget, hph, Bool.or_eq_true, decide_eq_true_eq, Option.isNone_iff_eq_none] at hok
    have hshows := shows_unclaimed entry_cut hc hresult (or_assoc.mp hok) hacc.shows
    exact ⟨h.moved hpending hconns hids,
      hacc.moved c' hmem hshows hids fun r ks hph' => absurd hph' (himage r ks)⟩

/-- **A section keeps the ledger and the account.** -/
theorem ledger_section (h : Orderly p) (hacc : Account K claim p) (hget : p.coord.conns[i]? = some c)
    (hok : spendsWell I K p (.run i env) = true)
    (hadv : advance I domain env p.coord.shared c = some (s.shared, c'))
    (hconns : s.conns = p.coord.conns.set i c') :
    Orderly (p.after s (.run i env)) ∧ Account K claim (p.after s (.run i env)) := by
  by_cases hcheck : ∃ r, c.phase = .regCheck r
  · obtain ⟨r, hph⟩ := hcheck
    exact ledger_check h hacc hget hph hok hadv hconns
  · have hcheck' : ∀ r, c.phase ≠ .regCheck r := fun r hph => hcheck ⟨r, hph⟩
    have hids : identities p.world.store <+: identities s.shared.world.store :=
      (advance_effect hadv).grows.1
    have hmem : ∀ d ∈ s.conns, d ∈ p.coord.conns ∨ d = c' := by
      rw [hconns]
      exact fun d hd => List.mem_or_eq_of_mem_set hd
    obtain ⟨hshows, himage⟩ := shows_section entry_cut hadv hcheck' hacc.shows (hacc.image h hget hok)
    cases hp : p.pending i with
    | none =>
      rw [after_quiet hget hcheck' hp]
      refine ⟨h.moved hp hconns hids, hacc.moved c' hmem hshows hids fun r ks hph k hk => ?_⟩
      obtain ⟨h1, h2, h3⟩ := himage r ks hph k hk
      exact ⟨h1, h2, h3.mp⟩
    | some gr =>
      obtain ⟨c₁, r, hc₁, hph, hm⟩ := h.held i gr hp
      obtain rfl := Option.some.inj (hget.symm.trans hc₁)
      obtain ⟨result, hr, _, hends⟩ := advance_node hph hadv
      have hnoimage : ∀ r ks, c'.phase ≠ .regInstall r (some ks) := by
        intro r' ks hne
        rcases hends with ⟨_, rfl⟩ | ⟨_, rfl⟩
        · cases hne
        · cases hne
      rw [after_through hget hph hp]
      refine ⟨h.settled hconns hids, hacc.settled hp hmem hids hnoimage hshows fun hkey => ?_⟩
      simp only [spendsWell, hget, hph, hp, hkey, ne_eq, not_true_eq_false, decide_false, Bool.false_or,
        Bool.and_eq_true, Option.isNone_iff_eq_none] at hok
      obtain ⟨hlt, hmade⟩ := registerNode_made hr hok.1 hok.2
      refine ⟨p.world.store.nodes.length, if_pos hlt, ?_⟩
      rw [← hm, ← (hacc.pending i gr hp hkey).1]
      exact hmade

/-- A key that is added leaves the first entry of `K`. -/
theorem find?_created {keys : List PreauthKey} {k : PreauthKey}
    (h : k.key ≠ K ∨ (keys.find? (·.key = K)).isSome = true) :
    (keys ++ [k]).find? (·.key = K) = keys.find? (·.key = K) := by
  rw [List.find?_append]
  cases hf : keys.find? (·.key = K) with
  | some k' => rfl
  | none =>
    rw [hf] at h
    rcases h with h | h
    · simpa using h
    · cases h

theorem ledger_created {raw : Bytes32} {reusable ephemeral : Bool} {expiration : Int} {token : Bytes}
    {shared : Option Bool} (h : Orderly p) (hacc : Account K claim p)
    (hok : spendsWell I K p (.createKey env raw reusable ephemeral expiration token shared) = true)
    (hconns : s.conns = p.coord.conns)
    (hworld : s.shared.world = (createPreauthKey env.io env.nowUnix raw reusable ephemeral expiration token
      shared p.world).2) :
    Orderly { p with coord := s } ∧ Account K claim { p with coord := s } := by
  simp only [spendsWell, Bool.or_eq_true, decide_eq_true_eq] at hok
  rcases hc : createPreauthKey env.io env.nowUnix raw reusable ephemeral expiration token shared
    p.world with ⟨r, w⟩
  rw [hc] at hworld
  have hshows : ShowsKey K (KeyEntry claim (p.Granted K)) w :=
    hacc.shows.commit entry_cut hc rfl (find?_created hok)
  have hids : identities s.shared.world.store = identities p.world.store := by
    rw [hworld, (createPreauthKey_cases hc).1]
    rfl
  refine ⟨⟨?_, fun gr hgr q hq => ?_, h.own⟩, hacc.moved { machine := [] } ?_ ?_ ?_ ?_⟩
  · show ∀ i gr, p.pending i = some gr → ∃ c r, s.conns[i]? = some c ∧ _
    rw [hconns]
    exact h.held
  · show q < (identities s.shared.world.store).length
    rw [hids]
    exact h.made gr hgr q hq
  · rw [hconns]
    exact fun d hd => .inl hd
  · rw [hworld]
    exact hshows
  · exact grows_of_eq hids
  · intro r ks hph
    cases hph

/-- An idle connection starts something. -/
theorem ledger_start {f : Conn → Conn} (h : Orderly p) (hacc : Account K claim p)
    (hs : (idleConn p.coord i).map (fun c => p.coord.setConn i (f c)) = some s)
    (himage : ∀ c, c.phase = .idle → ∀ r ks, (f c).phase ≠ .regInstall r (some ks)) :
    Orderly { p with coord := s } ∧ Account K claim { p with coord := s } := by
  obtain ⟨c, hc, rfl⟩ := Option.map_eq_some_iff.mp hs
  obtain ⟨hget, hidle⟩ := idleConn_some hc
  refine ⟨h.moved (h.not_pending hget ?_) rfl List.prefix_rfl, hacc.moved (f c) ?_ hacc.shows
    List.prefix_rfl fun r ks hph => absurd hph (himage c hidle r ks)⟩
  · simp only [Conn.carries, hidle]
  · exact fun d hd => List.mem_or_eq_of_mem_set hd

theorem onRegister_noImage (c : Conn) (body : Option Json) (r : RegisterReq) (ks : Json) :
    (onRegister c body).phase ≠ .regInstall r (some ks) := by
  rcases onRegister_cases c body with ⟨_, h⟩ | ⟨_, _, _, _, h⟩ | ⟨_, _, _, _, h⟩
  · simp [h, Conn.answer]
  · simp [h, Conn.thrown]
  · simp [h, Conn.enter]

theorem onMap_noImage (c : Conn) (sid : Nat) (body : Option Json) (r : RegisterReq) (ks : Json) :
    (onMap c sid body).phase ≠ .regInstall r (some ks) := by
  intro hph
  have hreg := onMap_registering c sid body
  simp only [registering, hph] at hreg
  cases hreg

theorem ledger_accept (h : Orderly p) (hacc : Account K claim p) (machine : Bytes) :
    Orderly { p with coord := { p.coord with conns := p.coord.conns ++ [{ machine }] } } ∧
      Account K claim { p with coord := { p.coord with conns := p.coord.conns ++ [{ machine }] } } := by
  refine ⟨⟨fun i gr hi => ?_, h.made, h.own⟩, hacc.moved { machine } ?_ hacc.shows
    List.prefix_rfl ?_⟩
  · obtain ⟨c, r, hc, hrest⟩ := h.held i gr hi
    refine ⟨c, r, ?_, hrest⟩
    show (p.coord.conns ++ _)[i]? = _
    rw [List.getElem?_append_left (List.getElem?_eq_some_iff.mp hc).1, hc]
  · intro d hd
    rcases List.mem_append.mp hd with hd | hd
    · exact .inl hd
    · exact .inr (List.mem_singleton.mp hd)
  · intro r ks hph
    cases hph

/-- **A step keeps the ledger and the account.** -/
theorem ledger_step (h : Orderly p) (hacc : Account K claim p) (hok : spendsWell I K p e = true)
    (hs : ledgerStep I domain p e = some p') : Orderly p' ∧ Account K claim p' := by
  obtain ⟨s, hcoord, rfl⟩ := Option.map_eq_some_iff.mp hs
  cases e with
  | accept m =>
    cases hcoord
    exact ledger_accept h hacc m
  | register i body => exact ledger_start h hacc hcoord fun c _ => onRegister_noImage c body
  | map i sid body => exact ledger_start h hacc hcoord fun c _ => onMap_noImage c sid body
  | tick i => exact ledger_start h hacc hcoord fun c _ r ks hne => by cases hne
  | closeStream i k =>
    refine ledger_start h hacc hcoord fun c hidle r ks hne => ?_
    rw [show (closeLive c k).phase = .idle from hidle] at hne
    cases hne
  | hangup i => exact ledger_start h hacc hcoord fun c _ r ks hne => by cases hne
  | run i env =>
    obtain ⟨c, hget, hsection⟩ := Option.bind_eq_some_iff.mp hcoord
    obtain ⟨⟨g, c'⟩, hadv, rfl⟩ := Option.map_eq_some_iff.mp hsection
    exact ledger_section h hacc hget hok hadv rfl
  | createKey env raw reusable ephemeral expiration token shared =>
    cases hcoord
    exact ledger_created h hacc hok rfl rfl

end Ledger

/-! ## 5. Over whole runs -/

theorem carries_of_rest {c : Conn} (h : busy c = false) : c.carries = none := by
  unfold busy at h
  unfold Conn.carries
  cases hph : c.phase with
  | regNode =>
    rw [hph] at h
    cases h
  | idle | regFind | regRead | regInstall | regCheck | regBump | mapUpdate | mapBump | mapOnline | mapFind
  | mapNodes | mapLive | tickFind | tickNodes | byeOnline | byeBump | closed => rfl

/-- At rest nothing is pending, so every request that has spent a key is through. -/
theorem Account.spentOnNode {K : Bytes} {claim : PreauthClaim} {p : Ledger} (h : Orderly p)
    (hacc : Account K claim p) (hrest : ∀ c ∈ p.coord.conns, busy c = false) : SpentOnNode K claim p := by
  intro hmarked
  have hgranted : p.Granted K := by
    rcases hmarked with ⟨k, hk, hu⟩ | ⟨k, hk, hu⟩
    · exact (hacc.shows.memory k hk).2.2.mp hu
    · exact (hacc.shows.file k hk).2.2.mp hu
  have hthrough : ∃ gr ∈ p.grants, gr.key = K := by
    rcases hgranted with ⟨i, gr, hp, _⟩ | hthrough
    · obtain ⟨c, r, hc, hph, _⟩ := h.held i gr hp
      have hnone := carries_of_rest (hrest c (List.mem_of_getElem? hc))
      simp only [Conn.carries, hph] at hnone
      cases hnone
    · exact hthrough
  obtain ⟨gr, hgr, hkey⟩ := hthrough
  obtain ⟨q, hq, d, hd, hm, ht, hsh⟩ := hacc.spent gr hgr hkey
  rw [identities, List.getElem?_map] at hd
  obtain ⟨n, hn, rfl⟩ := Option.map_eq_some_iff.mp hd
  refine ⟨gr, q, n, ?_, hq, hn, hm, ht, hsh, fun gr' hgr' hq' => ?_⟩
  · have hin : gr ∈ p.grants.filter (·.key = K) := List.mem_filter.mpr ⟨hgr, by simpa using hkey⟩
    have hone := hacc.once
    rcases hl : p.grants.filter (·.key = K) with _ | ⟨a, _ | ⟨b, l⟩⟩
    · rw [hl] at hin
      cases hin
    · rw [hl] at hin
      rw [List.mem_singleton.mp hin]
      exact hl
    · rw [hl] at hone
      exact absurd hone (by simp)
  · by_contra hne
    have hsymm : Std.Symm fun a b : Grant => ∀ q, a.node = some q → b.node ≠ some q :=
      ⟨fun a b hab q hb ha => hab q ha hb⟩
    exact h.own.forall hgr' hgr hne q hq' hq

/-- **A one-shot key is spent only on a node**: from any state at rest that lists `K` as unused, in
    every run of requests, in any order of their sections and over any pool, whose steps all meet
    the condition, every state at rest shows `K` used only if one request has spent it and made
    its node. -/
theorem spent_on_node (I : Inet) (domain : Bytes) (s : Coord) (K : Bytes) (claim : PreauthClaim)
    (hkey : ShowsKey K (KeyEntry claim False) s.shared.world) (hstart : ∀ c ∈ s.conns, busy c = false)
    (es : List Event) (p : Ledger)
    (h : Run (Guarded (Of (ledgerStep I domain)) fun p e => spendsWell I K p e = true) { coord := s } es p)
    (hrest : ∀ c ∈ p.coord.conns, busy c = false) : SpentOnNode K claim p := by
  have hkept : Orderly p ∧ Account K claim p := by
    refine h.inv_state (I := fun p => Orderly p ∧ Account K claim p) ?_ ?_
    · have hnone : ¬ ({ coord := s } : Ledger).Granted K := by
        intro hg
        rcases hg with ⟨i, gr, hp, _⟩ | ⟨gr, hgr, _⟩
        · cases hp
        · cases hgr
      refine ⟨⟨fun i gr hp => ?_, fun gr hgr => ?_, .nil⟩, hkey.iff (iff_of_false id hnone),
        fun c hc r ks hph => ?_, fun i gr hp => ?_, Nat.zero_le 1, fun gr hgr => ?_⟩
      · cases hp
      · cases hgr
      · have hidle := hstart c hc
        simp only [busy, hph] at hidle
        cases hidle
      · cases hp
      · cases hgr
    · intro p e p' hp hs
      exact ledger_step hp.1 hp.2 hs.1 hs.2
  exact hkept.2.spentOnNode hkept.1 hrest

/-! ### Concrete runs -/

/-- A coordinator with two one-shot keys, and no state file. -/
def twoKeys (alloc : IpAllocator) : Coord :=
  .fresh { path := [], alloc, keys := [{ key := ascii "K1", reusable := false, token := ascii "blue" },
                                       { key := ascii "K2", reusable := false, token := ascii "red" }] } none

/-- The claim of the second key. -/
def secondClaim : PreauthClaim := { token := ascii "red" }

theorem twoKeys_shows (alloc : IpAllocator) :
    ShowsKey (ascii "K2") (KeyEntry secondClaim False) (twoKeys alloc).shared.world := by
  refine ⟨fun k hk => ?_, fun k hk => by cases hk⟩
  cases hk
  exact ⟨rfl, rfl, by decide⟩

/-- Two machines register, one with each key; the second, after the first, runs `n` sections. -/
def inTurn (n : Nat) : List Event :=
  [.accept (ascii "mkey:1"), .accept (ascii "mkey:2"), .register 0 (some (authBody (ascii "K1")))] ++
    List.replicate 6 (.run 0 {}) ++ [.register 1 (some (authBody (ascii "K2")))] ++
    List.replicate n (.run 1 {})

/-- Two connections of one machine register, one with each key. Both have spent theirs before the
    first makes the node. -/
def atOnce : List Event :=
  [.accept (ascii "mkey:1"), .accept (ascii "mkey:1"), .register 0 (some (authBody (ascii "K1"))),
    .register 1 (some (authBody (ascii "K2")))] ++
    List.replicate 4 (.run 0 {}) ++ List.replicate 4 (.run 1 {}) ++
    List.replicate 2 (.run 0 {}) ++ List.replicate 2 (.run 1 {})

/-- Nothing is in progress, and memory shows the key used. -/
def restsMarked (K : Bytes) (p : Ledger) : Bool :=
  p.coord.conns.all (!busy ·) && ((p.world.store.keys.find? (·.key = K)).map (·.used) == some true)

theorem rest_of_restsMarked {K : Bytes} {p : Ledger} (h : restsMarked K p = true) :
    (∀ c ∈ p.coord.conns, busy c = false) ∧ Marked K p.world := by
  obtain ⟨hrest, hused⟩ := Bool.and_eq_true_iff.mp h
  refine ⟨fun c hc => by simpa using List.all_eq_true.mp hrest c hc, .inl ?_⟩
  exact Option.map_eq_some_iff.mp (eq_of_beq hused)

theorem spent_on_node_inTurn :
    ∃ p, Run (Guarded (Of (ledgerStep .sample (ascii "ts.net"))) fun p e =>
          spendsWell .sample (ascii "K2") p e = true) { coord := twoKeys pool16 } (inTurn 6) p ∧
      Marked (ascii "K2") p.world ∧ SpentOnNode (ascii "K2") secondClaim p := by
  have hexec : (exec (checked (ledgerStep .sample (ascii "ts.net")) (spendsWell .sample (ascii "K2")))
      { coord := twoKeys pool16 } (inTurn 6)).map (restsMarked (ascii "K2")) = some true := by
    decide +kernel
  obtain ⟨p, hp, hrests⟩ := Option.map_eq_some_iff.mp hexec
  obtain ⟨hrest, hmarked⟩ := rest_of_restsMarked hrests
  refine ⟨p, guarded_of_exec hp, hmarked, ?_⟩
  exact spent_on_node .sample (ascii "ts.net") (twoKeys pool16) (ascii "K2") secondClaim
    (twoKeys_shows pool16) (fun c hc => by cases hc) _ p (guarded_of_exec hp) hrest

/-- A run that leaves the key used, and no node by those who spent it. -/
theorem burnt_of_exec {alloc : IpAllocator} {es : List Event}
    (h : (exec (ledgerStep .sample (ascii "ts.net")) { coord := twoKeys alloc } es).map (fun p =>
      restsMarked (ascii "K2") p && (p.grants.filter (·.key = ascii "K2")).all (·.node.isNone)) =
        some true) :
    ∃ p, Run (Of (ledgerStep .sample (ascii "ts.net"))) { coord := twoKeys alloc } es p ∧
      (∀ c ∈ p.coord.conns, busy c = false) ∧ ¬ SpentOnNode (ascii "K2") secondClaim p := by
  obtain ⟨p, hp, h⟩ := Option.map_eq_some_iff.mp h
  obtain ⟨hrests, hnone⟩ := Bool.and_eq_true_iff.mp h
  obtain ⟨hrest, hmarked⟩ := rest_of_restsMarked hrests
  refine ⟨p, run_of_exec hp, hrest, fun hspent => ?_⟩
  obtain ⟨gr, q, n, hfilter, hq, _⟩ := hspent hmarked
  rw [hfilter] at hnone
  simp [hq] at hnone

/-- **A key spent on nothing.** Both keys are one-shot and unused. The pool is exhausted, or the two
    connections are of one machine: the second request spends its key and makes no node. -/
theorem key_burnt :
    (∀ alloc, ShowsKey (ascii "K2") (KeyEntry secondClaim False) (twoKeys alloc).shared.world) ∧
    (∃ p, Run (Of (ledgerStep .sample (ascii "ts.net"))) { coord := twoKeys pool31 } (inTurn 5) p ∧
      (∀ c ∈ p.coord.conns, busy c = false) ∧ ¬ SpentOnNode (ascii "K2") secondClaim p) ∧
    ∃ p, Run (Of (ledgerStep .sample (ascii "ts.net"))) { coord := twoKeys pool16 } atOnce p ∧
      (∀ c ∈ p.coord.conns, busy c = false) ∧ ¬ SpentOnNode (ascii "K2") secondClaim p := by
  refine ⟨twoKeys_shows, burnt_of_exec ?_, burnt_of_exec ?_⟩
  · decide +kernel
  · decide +kernel

end Wirebone
