/-
  File:      Wirebone/Dns/Network.lean
  Subject:   THE SERVERS ON A NETWORK: what their responses can set going.

  A datagram carries any source address it likes, so a response may go to anybody, another server
  included. Servers with any registries stand on one network. Outsiders put in what they like; the
  network delivers in any order, and loses.

  * `netStep` -- the network, with one round of `MagicDns::loop` for a datagram that arrives at a server;
  * `Datagram.asks` -- the datagrams a server may respond to: a response is none of them;
  * `DnsNet.Accounted` -- the invariant: what is still to be responded to and what was responded to are
    different datagrams of the outsiders;
  * **`responses_accounted`** -- every response is due to a datagram of an outsider of its own, goes to the
    source it names and is 44 bytes longer at most; and when the outsiders fall silent the network does too.
-/
import Mathlib.Data.List.Perm.Subperm
import Wirebone.Dns.Echo
import Wirebone.Lib.Lts

namespace Wirebone

open ByteString Lts

/-! ## 1. The code -/

/-- A datagram between two socket addresses. -/
structure Datagram (A : Type) where
  src : A
  dst : A
  bytes : Bytes

/-- What a round of `MagicDns::loop` sends for a datagram: `recvfrom` leaves the first 2048 bytes of it, and
    an empty one is passed over. -/
def loopRound {A : Type} (I : Inet) (nodes : List NodeState) (domain : Bytes) (d : Datagram A) :
    Option (Datagram A) :=
  let buf := d.bytes.take 2048
  if buf.length = 0 then none
  else
    match answer I nodes domain buf with
    | none => none
    | some resp => if resp = [] then none else some { src := d.dst, dst := d.src, bytes := resp }

/-- A network: the registries of the servers, the datagrams on their way, and what has been put in by
    outsiders and sent by servers so far, oldest first. -/
structure DnsNet (A : Type) where
  nodes : A → List NodeState
  transit : List (Datagram A) := []
  injected : List (Datagram A) := []
  sent : List (Datagram A) := []

inductive NetEvent (A : Type) where
  | inject (d : Datagram A)
  /-- The datagram at this place arrives. -/
  | deliver (k : Nat)
  | lose (k : Nat)
  /-- The registry of a server changes. -/
  | registry (a : A) (nodes : List NodeState)

/-- What the network itself does. -/
def NetEvent.moves {A : Type} : NetEvent A → Bool
  | .deliver _ => true
  | .lose _ => true
  | .inject _ => false
  | .registry _ _ => false

def NetEvent.injects {A : Type} : NetEvent A → Bool
  | .inject _ => true
  | .deliver _ => false
  | .lose _ => false
  | .registry _ _ => false

section Machine

variable {A : Type} [DecidableEq A]

/-- What a host does with a datagram: a server the round of its loop, another host nothing. -/
def received (I : Inet) (serves : A → Option Bytes) (s : DnsNet A) (d : Datagram A) : Option (Datagram A) :=
  (serves d.dst).bind fun domain => loopRound I (s.nodes d.dst) domain d

/-- A network where `serves` says which addresses are servers, and of which domain. -/
def netStep (I : Inet) (serves : A → Option Bytes) (s : DnsNet A) : NetEvent A → Option (DnsNet A)
  | .inject d => some { s with transit := s.transit ++ [d], injected := s.injected ++ [d] }
  | .deliver k =>
    match s.transit[k]? with
    | none => none
    | some d =>
      match received I serves s d with
      | none => some { s with transit := s.transit.eraseIdx k }
      | some r => some { s with transit := s.transit.eraseIdx k ++ [r], sent := s.sent ++ [r] }
  | .lose k => if k < s.transit.length then some { s with transit := s.transit.eraseIdx k } else none
  | .registry a nodes => some { s with nodes := Function.update s.nodes a nodes }

end Machine

/-! ## 2. One round -/

section Round

variable {A : Type} {I : Inet} {nodes : List NodeState} {domain q resp : Bytes} {d r : Datagram A}

/-- The datagrams a server may respond to: 12 bytes at least, and the `QR` bit is not set. -/
def Datagram.asks (d : Datagram A) : Bool :=
  decide (12 ≤ d.bytes.length) && !(wordAt d.bytes 2).testBit 15

/-- **What a response owes to its query**: it goes back, under the same id, and is not much longer. -/
structure Reflects (d r : Datagram A) : Prop where
  src : r.src = d.dst
  dst : r.dst = d.src
  id : r.bytes.take 2 = d.bytes.take 2
  length : r.bytes.length ≤ min d.bytes.length 2048 + 44

/-- The records take 44 bytes at most: 16 for an `A`, 28 for an `AAAA`. -/
theorem foundRecords_bytes (I : Inet) (nodes : List NodeState) (domain qname : Bytes) (qtype : Nat) :
    ((foundRecords I nodes domain qname qtype).flatMap (·.encode)).length ≤ 44 := by
  obtain ⟨v4, v6, h⟩ := foundRecords_shape I nodes domain qname qtype
  have ha (a4 : UInt32) : (aRecord a4).encode.length = 16 := rfl
  have haaaa (a6 : In6Addr) : (aaaaRecord a6).encode.length = 28 := by
    have h6 : a6.val.length = 16 := a6.2
    simp [aaaaRecord, DnsRr.encode, put16, put32, bigEndian, h6]
  rw [h, List.flatMap_append, List.length_append]
  cases v4 with
  | none =>
    cases v6 with
    | none => simp
    | some a6 => simp [haaaa]
  | some a4 =>
    cases v6 with
    | none => simp [ha]
    | some a6 => simp [ha, haaaa]

theorem answer_length (h : answer I nodes domain q = some resp) :
    12 ≤ resp.length ∧ resp.length ≤ q.length + 44 := by
  obtain ⟨off, qname, ha⟩ := answered_of_answer h
  have hend := ha.end_le
  have hrr := foundRecords_bytes I nodes domain qname (wordAt q off)
  have hfits := ha.fits
  rw [ha.response, dnsResponse_eq, List.length_append, List.length_append, dnsHeader_length,
    question_length hfits]
  omega

/-- A response has the `QR` bit. -/
theorem answer_qr (h : answer I nodes domain q = some resp) : (wordAt resp 2).testBit 15 = true := by
  obtain ⟨off, qname, ha⟩ := answered_of_answer h
  rw [ha.response, dnsResponse_eq, wordAt_left (by rw [dnsHeader_length]; omega)]
  cases (lookedUp nodes domain qname).isSome with
  | false =>
    show ((0x81 : UInt8).toNat * 256 + (0x83 : UInt8).toNat).testBit 15 = true
    decide
  | true =>
    show ((0x81 : UInt8).toNat * 256 + (0x80 : UInt8).toNat).testBit 15 = true
    decide

theorem answer_id (h : answer I nodes domain q = some resp) : resp.take 2 = q.take 2 := by
  obtain ⟨off, qname, ha⟩ := answered_of_answer h
  have hlen := ha.header
  cases q with
  | nil => exact absurd hlen (by decide)
  | cons b0 rest =>
    cases rest with
    | nil => exact absurd hlen (by simp)
    | cons b1 rest =>
      rw [ha.response]
      rfl

/-- **What a round sends, and for what.** -/
theorem loopRound_cases (h : loopRound I nodes domain d = some r) :
    d.asks = true ∧ r.asks = false ∧ Reflects d r := by
  unfold loopRound at h
  by_cases hempty : (d.bytes.take 2048).length = 0
  · rw [if_pos hempty] at h
    cases h
  rw [if_neg hempty] at h
  cases ha : answer I nodes domain (d.bytes.take 2048) with
  | none =>
    simp only [ha] at h
    cases h
  | some resp =>
    have hresp : resp ≠ [] := fun hnil => absurd (answer_length ha).1 (by rw [hnil]; decide)
    simp only [ha, if_neg hresp, Option.some.injEq] at h
    subst h
    obtain ⟨off, qname, hq⟩ := answered_of_answer ha
    have hlen := hq.header
    rw [List.length_take] at hlen
    -- the flags lie in front of where `recvfrom` cuts the datagram off
    have hflags : wordAt (d.bytes.take 2048) 2 = wordAt d.bytes 2 := by
      conv_rhs => rw [← List.take_append_drop 2048 d.bytes]
      rw [wordAt_left (by rw [List.length_take]; omega)]
    refine ⟨?_, ?_, rfl, rfl, ?_, ?_⟩
    · have hqr := hq.query
      rw [hflags] at hqr
      simp only [Datagram.asks, hqr, Bool.not_false, Bool.and_true, decide_eq_true_eq]
      omega
    · simp only [Datagram.asks, answer_qr ha, Bool.not_true, Bool.and_false]
    · show resp.take 2 = d.bytes.take 2
      rw [answer_id ha, List.take_take]
      rfl
    · show resp.length ≤ min d.bytes.length 2048 + 44
      have hle := (answer_length ha).2
      rw [List.length_take] at hle
      omega

end Round

/-! ## 3. One step -/

section Pending

variable {A : Type} {s : DnsNet A} {k : Nat} {d r : Datagram A}

/-- What is still to be responded to. -/
def DnsNet.pending (s : DnsNet A) : List (Datagram A) := s.transit.filter Datagram.asks

/-- A datagram leaves. -/
theorem pending_erase_sublist (s : DnsNet A) (k : Nat) :
    ((s.transit.eraseIdx k).filter Datagram.asks).Sublist s.pending :=
  (List.eraseIdx_sublist _ _).filter _

/-- A datagram that asks leaves. -/
theorem pending_erase_perm (hd : s.transit[k]? = some d) (hasks : d.asks = true) :
    (d :: (s.transit.eraseIdx k).filter Datagram.asks).Perm s.pending := by
  obtain ⟨hk, rfl⟩ := List.getElem?_eq_some_iff.mp hd
  have hperm := (List.getElem_cons_eraseIdx_perm hk).filter Datagram.asks
  rwa [List.filter_cons_of_pos hasks] at hperm

/-- The response does not ask. -/
theorem pending_respond (hno : r.asks = false) :
    (s.transit.eraseIdx k ++ [r]).filter Datagram.asks = (s.transit.eraseIdx k).filter Datagram.asks := by
  rw [List.filter_append, List.filter_cons_of_neg (by rw [hno]; decide), List.filter_nil, List.append_nil]

end Pending

section Step

variable {A : Type} [DecidableEq A] {I : Inet} {serves : A → Option Bytes} {s s' : DnsNet A} {e : NetEvent A}

/-- **What a step can do.** A datagram goes in; or one goes, and is lost, or taken without a response, or
    responded to; or a registry changes. -/
theorem netStep_cases (h : netStep I serves s e = some s') :
    (∃ d, e = .inject d ∧ s' = { s with transit := s.transit ++ [d], injected := s.injected ++ [d] }) ∨
    (∃ k, k < s.transit.length ∧ e.moves = true ∧ e.injects = false ∧
      s' = { s with transit := s.transit.eraseIdx k }) ∨
    (∃ k d r, s.transit[k]? = some d ∧ e.moves = true ∧ e.injects = false ∧ d.asks = true ∧
      r.asks = false ∧ Reflects d r ∧
      s' = { s with transit := s.transit.eraseIdx k ++ [r], sent := s.sent ++ [r] }) ∨
    (∃ nodes, e.moves = false ∧ e.injects = false ∧ s' = { s with nodes := nodes }) := by
  cases e with
  | inject d => exact .inl ⟨d, rfl, (Option.some.inj h).symm⟩
  | registry a nodes => exact .inr (.inr (.inr ⟨_, rfl, rfl, (Option.some.inj h).symm⟩))
  | lose k =>
    simp only [netStep] at h
    by_cases hk : k < s.transit.length
    · rw [if_pos hk] at h
      exact .inr (.inl ⟨k, hk, rfl, rfl, (Option.some.inj h).symm⟩)
    · rw [if_neg hk] at h
      cases h
  | deliver k =>
    simp only [netStep] at h
    cases hd : s.transit[k]? with
    | none =>
      simp only [hd] at h
      cases h
    | some d =>
      obtain ⟨hk, -⟩ := List.getElem?_eq_some_iff.mp hd
      cases hr : received I serves s d with
      | none =>
        simp only [hd, hr] at h
        exact .inr (.inl ⟨k, hk, rfl, rfl, (Option.some.inj h).symm⟩)
      | some r =>
        simp only [hd, hr] at h
        obtain ⟨domain, -, hround⟩ := Option.bind_eq_some_iff.mp hr
        obtain ⟨hasks, hno, href⟩ := loopRound_cases hround
        exact .inr (.inr (.inl ⟨k, d, r, hd, rfl, rfl, hasks, hno, href, (Option.some.inj h).symm⟩))

end Step

/-! ## 4. Whole runs -/

section Runs

variable {A : Type} [DecidableEq A] {I : Inet} {serves : A → Option Bytes} {s s' : DnsNet A}
  {es : List (NetEvent A)} {e : NetEvent A}

/-- **The invariant.** What is still to be responded to and what was responded to are different datagrams
    of the outsiders. -/
def DnsNet.Accounted (s : DnsNet A) : Prop :=
  ∃ answered : List (Datagram A), (s.pending ++ answered).Subperm s.injected ∧
    List.Forall₂ Reflects answered s.sent

theorem netAccounted_step (ha : s.Accounted) (h : netStep I serves s e = some s') : s'.Accounted := by
  obtain ⟨answered, hsub, hall⟩ := ha
  obtain ⟨d, -, rfl⟩ | ⟨k, -, -, -, rfl⟩ | ⟨k, d, r, hd, -, -, hasks, hno, href, rfl⟩ | ⟨nodes, -, -, rfl⟩ :=
    netStep_cases h
  · refine ⟨answered, ?_, hall⟩
    have hone : ([d].filter Datagram.asks).Subperm [d] := List.filter_sublist.subperm
    have hsplit : (s.pending ++ [d].filter Datagram.asks ++ answered).Perm
        (s.pending ++ answered ++ [d].filter Datagram.asks) := by
      rw [List.append_assoc, List.append_assoc]
      exact List.perm_append_comm.append_left _
    show ((s.transit ++ [d]).filter Datagram.asks ++ answered).Subperm (s.injected ++ [d])
    rw [List.filter_append]
    exact hsplit.subperm.trans (hsub.append hone)
  · exact ⟨answered, ((pending_erase_sublist s k).append_right _).subperm.trans hsub, hall⟩
  · refine ⟨answered ++ [d], ?_, List.rel_append hall (.cons href .nil)⟩
    show ((s.transit.eraseIdx k ++ [r]).filter Datagram.asks ++ (answered ++ [d])).Subperm s.injected
    rw [pending_respond hno]
    have hmove : ((s.transit.eraseIdx k).filter Datagram.asks ++ (answered ++ [d])).Perm
        (s.pending ++ answered) := by
      rw [← List.append_assoc]
      refine (List.perm_append_singleton _ _).trans ?_
      exact (pending_erase_perm hd hasks).append_right answered
    exact hmove.subperm.trans hsub
  · exact ⟨answered, hsub, hall⟩

/-- **What is left to do falls.** Without a datagram from outside, each delivery and each loss takes from
    what is on its way, or from what is still to be responded to. -/
theorem work_step (hin : e.injects = false) (h : netStep I serves s e = some s') :
    s'.transit.length + s'.pending.length + (if e.moves then 1 else 0) ≤
      s.transit.length + s.pending.length ∧
    s'.sent.length + s'.pending.length ≤ s.sent.length + s.pending.length := by
  obtain ⟨d, rfl, -⟩ | ⟨k, hk, hmove, -, rfl⟩ | ⟨k, d, r, hd, hmove, -, hasks, hno, -, rfl⟩ |
    ⟨nodes, hmove, -, rfl⟩ := netStep_cases h
  · cases hin
  · have hle := (pending_erase_sublist s k).length_le
    have hlen := List.length_eraseIdx_of_lt hk
    simp only [DnsNet.pending, hmove, if_true] at hle ⊢
    omega
  · obtain ⟨hk, -⟩ := List.getElem?_eq_some_iff.mp hd
    have hlen := List.length_eraseIdx_of_lt hk
    have hle := (pending_erase_perm hd hasks).length_eq
    simp only [DnsNet.pending, pending_respond hno, hmove, if_true, List.length_append, List.length_cons,
      List.length_nil] at hle ⊢
    omega
  · simp only [hmove, DnsNet.pending, Bool.false_eq_true, if_false]
    omega

theorem work_run (hin : ∀ e ∈ es, e.injects = false) (h : Run (Of (netStep I serves)) s es s') :
    s'.transit.length + s'.pending.length + es.countP NetEvent.moves ≤
      s.transit.length + s.pending.length ∧
    s'.sent.length + s'.pending.length ≤ s.sent.length + s.pending.length := by
  induction h with
  | start => simp
  | step hrun hs ih =>
    obtain ⟨h1, h2⟩ := ih fun e he => hin e (List.mem_append_left _ he)
    obtain ⟨h3, h4⟩ := work_step (hin _ (List.mem_append_right _ (List.mem_singleton_self _))) hs
    rw [List.countP_append, List.countP_singleton]
    omega

/-- **No response sets off another, and none is for nothing.** In every run, with any source addresses and
    any servers: every response is due to a datagram of an outsider of its own; it goes to the source that
    one names, under its id, and is 44 bytes longer at most. From any state reached, when nothing more comes
    from outside, the network is done after two moves for each datagram on its way, and sends one response
    for each at most. -/
theorem responses_accounted (nodes : A → List NodeState) (h : Run (Of (netStep I serves)) { nodes } es s) :
    (∃ answered : List (Datagram A), answered.Subperm s.injected ∧ List.Forall₂ Reflects answered s.sent) ∧
    ∀ es' s', Run (Of (netStep I serves)) s es' s' → (∀ e ∈ es', e.injects = false) →
      es'.countP NetEvent.moves ≤ 2 * s.transit.length ∧
      s'.sent.length ≤ s.sent.length + s.transit.length := by
  have hacc : s.Accounted := by
    have hstart : ({ nodes } : DnsNet A).Accounted := ⟨[], List.nil_subperm, .nil⟩
    refine Run.inv_state hstart ?_ h
    intro s e s' ha hs
    exact netAccounted_step ha hs
  obtain ⟨answered, hsub, hall⟩ := hacc
  refine ⟨⟨answered, (List.sublist_append_right _ _).subperm.trans hsub, hall⟩, ?_⟩
  intro es' s' hrun hin
  have hwork := work_run hin hrun
  have hle : s.pending.length ≤ s.transit.length := List.length_filter_le _ _
  omega

end Runs

/-- Two servers, and a question for `alice` to the first under the name of the second: the response goes to
    the second, which does not respond. -/
def spoofedQuery : Datagram Bool :=
  { src := true, dst := false
    bytes := [0, 7, 1, 0, 0, 1, 0, 0, 0, 0, 0, 0] ++ encodeName [ascii "alice"] ++ [0, 1, 0, 1] }

def twoServers : Bool → List NodeState :=
  fun _ => [{ id := 1, hostname := ascii "alice", ipv4 := ascii "100.64.0.0" }]

theorem responses_accounted_spoofed :
    ∃ s : DnsNet Bool, Run (Of (netStep Inet.sample fun _ => some (ascii "q.local"))) { nodes := twoServers }
      [.inject spoofedQuery, .deliver 0, .deliver 0] s ∧ s.sent.length = 1 ∧ s.transit = [] ∧
      ∃ answered : List (Datagram Bool), answered.Subperm s.injected ∧ List.Forall₂ Reflects answered s.sent := by
  have hrun : (exec (netStep Inet.sample fun _ => some (ascii "q.local")) { nodes := twoServers }
      [.inject spoofedQuery, .deliver 0, .deliver 0]).any
      (fun s => decide (s.sent.length = 1 ∧ s.transit.length = 0)) = true := by
    decide +kernel
  obtain ⟨s, hs, hend⟩ := (Option.any_eq_true _ _).mp hrun
  obtain ⟨hsent, htransit⟩ := of_decide_eq_true hend
  exact ⟨s, run_of_exec hs, hsent, List.eq_nil_of_length_eq_zero htransit,
    (responses_accounted twoServers (run_of_exec hs)).1⟩

end Wirebone
