/-
  File:      Wirebone/Dns/Echo.lean
  Subject:   WHETHER A RESPONSE ECHOES THE QUESTION THAT WAS ANSWERED.

  The response keeps the question as it came, but not what its name may point to: eight bytes of the
  header are written anew, and what followed the question is gone. A name that uses such bytes reads
  differently in the response, and every record points to it:

  * `Answered` -- what an answered query has gone through, `answered_of_answer` the inversion;
  * `qnameReads` -- the bytes that `parse_qname` reads, and **`parseQname_congr`**: the name depends
    on nothing else;
  * `keepsByte` -- the bytes that are in the response what they are in the query;
  * **`echo_of_kept`** -- a name that reads such bytes only is echoed, and is the owner of every
    record.
-/
import Wirebone.Dns.Qname

namespace Wirebone

open ByteString

/-! ## 1. An answered query -/

/-- The node a name leads to. -/
def lookedUp (nodes : List NodeState) (domain qname : Bytes) : Option NodeState :=
  nodes.find? (dnsMatches (lowerCopy domain) (lowerCopy qname))

/-- The records of the response. -/
def foundRecords (I : Inet) (nodes : List NodeState) (domain qname : Bytes) (qtype : Nat) : List DnsRr :=
  match lookedUp nodes domain qname with
  | none => []
  | some n => answerRecords I n qtype

/-- An `A` and an `AAAA` record. -/
def aRecord (a4 : UInt32) : DnsRr := { type := kTypeA, data := bigEndian 4 a4.toNat }

def aaaaRecord (a6 : In6Addr) : DnsRr := { type := kTypeAAAA, data := a6.val }

/-- **What an answered query has gone through**: the tests, the name and where it ends. -/
structure Answered (I : Inet) (nodes : List NodeState) (domain q resp : Bytes) (off : Nat) (qname : Bytes) :
    Prop where
  header : 12 ≤ q.length
  query : (wordAt q 2).testBit 15 = false
  asked : 1 ≤ wordAt q 4
  parsed : parseQname q 16 12 false 12 [] = some (off, qname)
  fits : off + 4 ≤ q.length
  response : resp = dnsResponse q (off + 4) (lookedUp nodes domain qname).isSome
    (foundRecords I nodes domain qname (wordAt q off))

section Answered

variable {I : Inet} {nodes : List NodeState} {domain q resp : Bytes} {off : Nat} {qname : Bytes}

theorem answered_of_answer (h : answer I nodes domain q = some resp) :
    ∃ off qname, Answered I nodes domain q resp off qname := by
  unfold answer at h
  by_cases hshort : q.length < 12
  · rw [if_pos hshort] at h
    cases h
  rw [if_neg hshort] at h
  by_cases hqr : (wordAt q 2).testBit 15 = true
  · rw [if_pos hqr] at h
    cases h
  rw [if_neg hqr] at h
  by_cases hqd : wordAt q 4 < 1
  · rw [if_pos hqd] at h
    cases h
  rw [if_neg hqd] at h
  cases hparse : parseQname q 16 12 false 12 [] with
  | none =>
    rw [hparse] at h
    cases h
  | some r =>
    obtain ⟨off, qname⟩ := r
    simp only [hparse] at h
    by_cases hcut : off + 4 > q.length
    · rw [if_pos hcut] at h
      cases h
    rw [if_neg hcut] at h
    refine ⟨off, qname, Nat.le_of_not_lt hshort, Bool.eq_false_iff.mpr hqr, by omega, hparse, by omega, ?_⟩
    unfold foundRecords lookedUp
    cases hfind : nodes.find? (dnsMatches (lowerCopy domain) (lowerCopy qname)) with
    | none =>
      simp only [hfind] at h
      exact (Option.some.inj h).symm
    | some n =>
      simp only [hfind] at h
      exact (Option.some.inj h).symm

/-- The records are at most an `A` and, behind it, an `AAAA`. -/
theorem foundRecords_shape (I : Inet) (nodes : List NodeState) (domain qname : Bytes) (qtype : Nat) :
    ∃ (v4 : Option UInt32) (v6 : Option In6Addr), foundRecords I nodes domain qname qtype =
      v4.toList.map aRecord ++ v6.toList.map aaaaRecord := by
  unfold foundRecords
  cases lookedUp nodes domain qname with
  | none => exact ⟨none, none, rfl⟩
  | some n =>
    refine ⟨if (qtype = kTypeA ∨ qtype = kTypeAny) ∧ n.ipv4 ≠ [] then I.pton4 n.ipv4 else none,
      if (qtype = kTypeAAAA ∨ qtype = kTypeAny) ∧ n.ipv6 ≠ [] then I.pton6 n.ipv6 else none, ?_⟩
    show answerRecords I n qtype = _
    unfold answerRecords
    congr 1
    · split
      · cases I.pton4 n.ipv4 with
        | none => rfl
        | some a4 => rfl
      · rfl
    · split
      · cases I.pton6 n.ipv6 with
        | none => rfl
        | some a6 => rfl
      · rfl

theorem foundRecords_length (I : Inet) (nodes : List NodeState) (domain qname : Bytes) (qtype : Nat) :
    (foundRecords I nodes domain qname qtype).length ≤ 2 := by
  obtain ⟨v4, v6, h⟩ := foundRecords_shape I nodes domain qname qtype
  rw [h]
  cases v4 <;> cases v6 <;> simp

theorem Answered.end_le (h : Answered I nodes domain q resp off qname) : 12 ≤ off ∧ off ≤ q.length :=
  parseQname_end h.parsed (Nat.le_refl 12)

end Answered

/-! ## 2. The bytes of a response -/

section Bytes

variable {q : Bytes} {stop i : Nat} {found : Bool} {rrs : List DnsRr}

/-- The header of a response. -/
def dnsHeader (q : Bytes) (found : Bool) (count : Nat) : Bytes :=
  [byteAt q 0, byteAt q 1, 0x81, if found then 0x80 else 0x83, byteAt q 4, byteAt q 5] ++ put16 count ++
    [0, 0, 0, 0]

theorem dnsResponse_eq (q : Bytes) (stop : Nat) (found : Bool) (rrs : List DnsRr) :
    dnsResponse q stop found rrs =
      dnsHeader q found rrs.length ++ ((q.take stop).drop 12 ++ rrs.flatMap (·.encode)) := by
  simp [dnsResponse, dnsHeader]

theorem dnsHeader_length (q : Bytes) (found : Bool) (count : Nat) : (dnsHeader q found count).length = 12 :=
  rfl

theorem question_length (hlen : stop ≤ q.length) :
    ((q.take stop).drop 12).length = stop - 12 := by
  rw [List.length_drop, List.length_take, Nat.min_eq_left hlen]

theorem response_header (h : i < 12) :
    (dnsResponse q stop found rrs)[i]? = (dnsHeader q found rrs.length)[i]? := by
  rw [dnsResponse_eq, List.getElem?_append_left (by rwa [dnsHeader_length])]

theorem response_question (hlen : stop ≤ q.length) (h12 : 12 ≤ i) (hi : i < stop) :
    (dnsResponse q stop found rrs)[i]? = q[i]? := by
  have hq : ((q.take stop).drop 12).length = stop - 12 := question_length hlen
  rw [dnsResponse_eq, List.getElem?_append_right (by rwa [dnsHeader_length]), dnsHeader_length,
    List.getElem?_append_left (by omega), List.getElem?_drop, List.getElem?_take,
    show 12 + (i - 12) = i by omega, if_pos hi]

theorem response_records (h12 : 12 ≤ stop) (hlen : stop ≤ q.length) (hi : stop ≤ i) :
    (dnsResponse q stop found rrs)[i]? = (rrs.flatMap (·.encode))[i - stop]? := by
  have hq : ((q.take stop).drop 12).length = stop - 12 := question_length hlen
  rw [dnsResponse_eq, List.getElem?_append_right (by rw [dnsHeader_length]; omega), dnsHeader_length,
    List.getElem?_append_right (by omega), hq, show i - 12 - (stop - 12) = i - stop by omega]

end Bytes

/-! ## 3. What a name depends on -/

/-- The offsets `parse_qname` reads: length bytes, pointers and the bytes of the labels. -/
def qnameReads (msg : Bytes) : Nat → Nat → List Nat
  | 0, _ => []
  | hops + 1, off =>
    let lab := byteAt msg off
    if lab = 0 then [off]
    else if lab &&& 0xc0 = 0xc0 then
      off :: (off + 1) :: qnameReads msg hops (pointerTarget lab (byteAt msg (off + 1)))
    else List.range' off (1 + lab.toNat) ++ qnameReads msg hops (off + 1 + lab.toNat)

section Reads

variable {msg msg' : Bytes} {off hops stop : Nat} {jumped : Bool} {name : Bytes} {r : Nat × Bytes}

theorem qnameReads_root (h : msg[off]? = some 0) : qnameReads msg (hops + 1) off = [off] := by
  simp only [qnameReads, byteAt_of_some h, if_true]

theorem qnameReads_pointer {hi lo : UInt8} (h : msg[off]? = some hi) (hhi : 192 ≤ hi.toNat)
    (hlo : msg[off + 1]? = some lo) :
    qnameReads msg (hops + 1) off = off :: (off + 1) :: qnameReads msg hops (pointerTarget hi lo) := by
  have hne : hi ≠ 0 := ne_zero_of_pos (by omega)
  simp only [qnameReads, byteAt_of_some h, byteAt_of_some hlo, if_neg hne, if_pos ((pointer_iff hi).mpr hhi)]

theorem qnameReads_label {b : UInt8} (h : msg[off]? = some b) (hpos : 1 ≤ b.toNat) (hlen : b.toNat ≤ 191) :
    qnameReads msg (hops + 1) off =
      List.range' off (1 + b.toNat) ++ qnameReads msg hops (off + 1 + b.toNat) := by
  have hne := ne_zero_of_pos hpos
  have hptr : ¬ b &&& 0xc0 = 0xc0 := fun hp => absurd ((pointer_iff b).mp hp) (by omega)
  simp only [qnameReads, byteAt_of_some h, if_neg hne, if_neg hptr]

/-- The bytes of a label, where the two messages agree on them. -/
theorem label_congr {n : Nat} (h : ∀ i, off ≤ i → i < off + n → msg'[i]? = msg[i]?) :
    (msg'.drop off).take n = (msg.drop off).take n := by
  refine List.ext_getElem? fun i => ?_
  rw [List.getElem?_take, List.getElem?_take, List.getElem?_drop, List.getElem?_drop]
  by_cases hi : i < n
  · rw [if_pos hi, if_pos hi, h (off + i) (Nat.le_add_right _ _) (by omega)]
  · rw [if_neg hi, if_neg hi]

/-- **A name depends on the bytes that are read, and on nothing else.** -/
theorem parseQname_congr (h : parseQname msg hops off jumped stop name = some r)
    (hkeep : ∀ i ∈ qnameReads msg hops off, msg'[i]? = msg[i]?) :
    parseQname msg' hops off jumped stop name = some r := by
  have hchain := reaches_of_parse h
  -- the chain that the loop has followed is one of the other message too
  induction hchain generalizing jumped stop name with
  | root hb =>
    rw [qnameReads_root hb] at hkeep
    have hb' := (hkeep _ List.mem_cons_self).trans hb
    rw [parseQname_root hb] at h
    rw [parseQname_root hb']
    exact h
  | pointer hb hhi hlo _ ih =>
    rw [qnameReads_pointer hb hhi hlo] at hkeep
    have hb' := (hkeep _ List.mem_cons_self).trans hb
    have hlo' := (hkeep _ (List.mem_cons_of_mem _ List.mem_cons_self)).trans hlo
    rw [parseQname_pointer hb hhi hlo] at h
    rw [parseQname_pointer hb' hhi hlo']
    exact ih h fun i hi => hkeep i (List.mem_cons_of_mem _ (List.mem_cons_of_mem _ hi))
  | @label k off b hb hpos hlen hend _ ih =>
    rw [qnameReads_label hb hpos hlen] at hkeep
    have hown : ∀ i, off ≤ i → i < off + (1 + b.toNat) → msg'[i]? = msg[i]? := fun i hi hi' =>
      hkeep i (List.mem_append_left _ (List.mem_range'_1.mpr ⟨hi, hi'⟩))
    have hb' : msg'[off]? = some b := (hown off (Nat.le_refl _) (by omega)).trans hb
    have hend' : off + 1 + b.toNat ≤ msg'.length := by
      have hlast : msg'[off + b.toNat]? = msg[off + b.toNat]? :=
        hown (off + b.toNat) (Nat.le_add_right _ _) (by omega)
      rw [List.getElem?_eq_getElem (show off + b.toNat < msg.length by omega)] at hlast
      have := lt_of_some hlast
      omega
    rw [parseQname_label hb hpos hlen hend] at h
    rw [parseQname_label hb' hpos hlen hend', label_congr fun i hi hi' => hown i (by omega) (by omega)]
    exact ih h fun i hi => hkeep i (List.mem_append_right _ hi)

/-- Behind a pointer the name is the same, and the end is the one that was saved. -/
theorem parseQname_jumped (h : parseQname msg hops off jumped stop name = some r) (stop' : Nat) :
    parseQname msg hops off true stop' name = some (stop', r.2) := by
  have hchain := reaches_of_parse h
  induction hchain generalizing jumped stop name with
  | root hb =>
    rw [parseQname_root hb] at h ⊢
    cases h
    rfl
  | pointer hb hhi hlo _ ih =>
    rw [parseQname_pointer hb hhi hlo] at h ⊢
    exact ih h
  | label hb hpos hlen hend _ ih =>
    rw [parseQname_label hb hpos hlen hend] at h ⊢
    exact ih h

end Reads

/-! ## 4. The echo -/

/-- **The byte at `i` is in the response what it is in the query**: the id, the number of questions
    and the question are copied; of the other bytes of the header it is those that happen to be
    what `answer` writes; behind the question it is a byte of the records. (Byte 2 never is: `QR` is
    set in the response.) -/
def keepsByte (q : Bytes) (stop : Nat) (found : Bool) (rrs : List DnsRr) (i : Nat) : Bool :=
  match i with
  | 0 | 1 | 4 | 5 => true
  | 2 => false
  | 3 => byteAt q 3 == (if found then 0x80 else 0x83)
  | 7 => byteAt q 7 == UInt8.ofNat rrs.length
  | 6 | 8 | 9 | 10 | 11 => byteAt q i == 0
  | _ => decide (i < stop) || q[i]? == (rrs.flatMap (·.encode))[i - stop]?

/-- **The condition**, for a query and a registry: every byte that `parse_qname` reads is kept. -/
def keepsName (I : Inet) (nodes : List NodeState) (domain q : Bytes) : Bool :=
  match parseQname q 16 12 false 12 [] with
  | none => false
  | some (off, qname) =>
    (qnameReads q 16 12).all (keepsByte q (off + 4) (lookedUp nodes domain qname).isSome
      (foundRecords I nodes domain qname (wordAt q off)))

section Echo

variable {I : Inet} {nodes : List NodeState} {domain q resp : Bytes} {off : Nat} {qname : Bytes}

theorem keepsByte_sound {stop i : Nat} {found : Bool} {rrs : List DnsRr}
    (hstop : 12 ≤ stop) (hlen : stop ≤ q.length) (hrrs : rrs.length ≤ 2)
    (h : keepsByte q stop found rrs i = true) : (dnsResponse q stop found rrs)[i]? = q[i]? := by
  by_cases hi : i < 12
  · have hget : q[i]? = some (byteAt q i) := by
      have hsome : q[i]? = some q[i] := List.getElem?_eq_getElem (by omega)
      rw [byteAt_of_some hsome, hsome]
    have hhigh : UInt8.ofNat (rrs.length / 256) = 0 := by
      rw [Nat.div_eq_of_lt (by omega)]
      rfl
    have hwrite : ∀ {x y : UInt8}, (y == x) = true → some x = some y := fun he =>
      congrArg some (beq_iff_eq.mp he).symm
    rw [response_header hi, hget]
    interval_cases i
    · rfl
    · rfl
    · cases h
    · exact hwrite h
    · rfl
    · rfl
    · exact (congrArg some hhigh).trans (hwrite h)
    · exact hwrite h
    all_goals exact hwrite h
  · by_cases hin : i < stop
    · exact response_question hlen (by omega) hin
    · rw [response_records hstop hlen (by omega)]
      have hrec : keepsByte q stop found rrs i =
          (decide (i < stop) || q[i]? == (rrs.flatMap (·.encode))[i - stop]?) := by
        obtain ⟨k, rfl⟩ : ∃ k, i = k + 12 := ⟨i - 12, by omega⟩
        rfl
      rw [hrec, decide_eq_false hin, Bool.false_or, beq_iff_eq] at h
      exact h.symm

/-- The records of a response are behind its question. -/
theorem Answered.records (h : Answered I nodes domain q resp off qname) :
    resp.drop (off + 4) = (foundRecords I nodes domain qname (wordAt q off)).flatMap (·.encode) := by
  have h12 := h.end_le.1
  have hhead : (dnsHeader q (lookedUp nodes domain qname).isSome
      (foundRecords I nodes domain qname (wordAt q off)).length ++ (q.take (off + 4)).drop 12).length =
        off + 4 := by
    rw [List.length_append, dnsHeader_length, question_length h.fits]
    omega
  rw [h.response, dnsResponse_eq, ← List.append_assoc, List.drop_left' hhead]

/-- The owner of a record is the name at offset 12. One round goes to the pointer. -/
theorem Answered.owner (h : Answered I nodes domain q resp off qname)
    (hecho : parseQname resp 16 12 false 12 [] = some (off, qname)) {before after : List DnsRr} {rr : DnsRr}
    (hrrs : foundRecords I nodes domain qname (wordAt q off) = before ++ rr :: after) :
    parseQname resp 17 (off + 4 + (before.flatMap (·.encode)).length) false 0 [] =
      some (off + 4 + (before.flatMap (·.encode)).length + 2, qname) := by
  have hbytes : resp.drop (off + 4 + (before.flatMap (·.encode)).length) =
      0xc0 :: 0x0c :: ((rr.encode ++ after.flatMap (·.encode)).drop 2) := by
    rw [← List.drop_drop, h.records, hrrs, List.flatMap_append, List.drop_left, List.flatMap_cons]
    rfl
  obtain ⟨hhi, hrest⟩ := drop_cons hbytes
  have hlo := (drop_cons hrest).1
  rw [parseQname_pointer hhi (by decide) hlo]
  exact parseQname_jumped hecho _

end Echo

/-- **A name that reads kept bytes only is echoed**: `parse_qname` finds in the response what it has
    found in the query, with the same end, and the pointer at the front of every record leads to it. -/
theorem echo_of_kept (I : Inet) (nodes : List NodeState) (domain q resp : Bytes)
    (h : answer I nodes domain q = some resp) (hkept : keepsName I nodes domain q = true) :
    ∃ off qname, parseQname q 16 12 false 12 [] = some (off, qname) ∧
      parseQname resp 16 12 false 12 [] = some (off, qname) ∧
      ∃ rrs : List DnsRr, resp.drop (off + 4) = rrs.flatMap (·.encode) ∧
        ∀ before rr after, rrs = before ++ rr :: after →
          parseQname resp 17 (off + 4 + (before.flatMap (·.encode)).length) false 0 [] =
            some (off + 4 + (before.flatMap (·.encode)).length + 2, qname) := by
  obtain ⟨off, qname, ha⟩ := answered_of_answer h
  have h12 := ha.end_le.1
  have hecho : parseQname resp 16 12 false 12 [] = some (off, qname) := by
    refine parseQname_congr ha.parsed fun i hi => ?_
    simp only [keepsName, ha.parsed] at hkept
    rw [ha.response]
    exact keepsByte_sound (by omega) ha.fits (foundRecords_length I nodes domain qname _)
      (List.all_eq_true.mp hkept i hi)
  exact ⟨off, qname, ha.parsed, hecho, _, ha.records, fun before rr after hrrs => ha.owner hecho hrrs⟩

/-- A question for `alice` whose name ends in a pointer to the zero byte in front of the number of
    questions. -/
def pointedQuery : Bytes :=
  [0, 7, 1, 0, 0, 1, 0, 0, 0, 0, 0, 0] ++ wireLabels [ascii "alice"] ++ [0xc0, 4, 0, 1, 0, 1]

def hostAlice : NodeState := { id := 1, hostname := ascii "alice", ipv4 := ascii "100.64.0.0" }

theorem echo_of_kept_alice :
    ∃ resp, answer Inet.sample [hostAlice] (ascii "q.local") pointedQuery = some resp ∧
      (∃ off qname, parseQname pointedQuery 16 12 false 12 [] = some (off, qname) ∧
        parseQname resp 16 12 false 12 [] = some (off, qname)) ∧ wordAt resp 6 = 1 := by
  have hresp : (answer Inet.sample [hostAlice] (ascii "q.local") pointedQuery).map (wordAt · 6) = some 1 := by
    decide +kernel
  obtain ⟨resp, h, hcount⟩ := Option.map_eq_some_iff.mp hresp
  obtain ⟨off, qname, hq, hecho, _⟩ :=
    echo_of_kept Inet.sample [hostAlice] (ascii "q.local") pointedQuery resp h (by decide +kernel)
  exact ⟨resp, h, ⟨off, qname, hq, hecho⟩, hcount⟩

/-- A name that is a pointer to the flags. -/
def flagsQuery : Bytes := [0, 7, 1, 0, 0, 1, 0, 0, 0, 0, 0, 0, 0xc0, 2, 0, 1, 0, 1]

/-- **A pointer into the header**: the flags are the label of one zero byte in the query, and a
    label too long for the message in the response. -/
theorem echo_lost :
    ∃ resp, answer Inet.sample [hostAlice] (ascii "q.local") flagsQuery = some resp ∧
      parseQname flagsQuery 16 12 false 12 [] = some (14, [0]) ∧
      parseQname resp 16 12 false 12 [] = none := by
  have hresp : (answer Inet.sample [hostAlice] (ascii "q.local") flagsQuery).map
      (fun resp => parseQname resp 16 12 false 12 []) = some none := by
    decide +kernel
  obtain ⟨resp, h, hnone⟩ := Option.map_eq_some_iff.mp hresp
  exact ⟨resp, h, by decide +kernel, hnone⟩

/-- Two labels of 63 bytes and a pointer to the flags, from where the chain runs through the header
    and the two labels: 35, 46 and 46 bytes. -/
def dottedQuery : Bytes :=
  [0, 7, 35, 0x83, 0, 1, 0, 0, 0, 0, 0, 0] ++
    (63 :: List.replicate 25 97 ++ [46] ++ List.replicate 37 97) ++
    (63 :: List.replicate 8 97 ++ [46] ++ List.replicate 46 97 ++ [0] ++ List.replicate 7 97) ++
    [0xc0, 2, 0, 1, 0, 1]

/-- The condition is not needed: the length 46 is a dot too, and the 129 bytes that the flags of the
    response ask for spell what three labels spell in the query. -/
theorem echo_by_chance :
    keepsName Inet.sample [] (ascii "q.local") dottedQuery = false ∧
      (answer Inet.sample [] (ascii "q.local") dottedQuery).map
        (fun resp => parseQname resp 16 12 false 12 []) =
        some (parseQname dottedQuery 16 12 false 12 []) ∧
      (parseQname dottedQuery 16 12 false 12 []).isSome = true := by
  refine ⟨?_, ?_, ?_⟩ <;> decide +kernel

end Wirebone
